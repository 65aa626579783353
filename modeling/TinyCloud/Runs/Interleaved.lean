import Mathlib.Logic.Function.Basic

/-! Programs of atomic operations that run side by side, and rely-guarantee rules for
them. Any operation can fail, which the program that asked for it observes. -/

namespace TinyCloud.Runs

variable {ι σ ε α β : Type} {O : Type} {Res : O → Type}

inductive Prog (O : Type) (Res : O → Type) (α : Type) : Type
  | pure (a : α)
  | op (o : O) (next : Option (Res o) → Prog O Res α)

namespace Prog

def bind : Prog O Res α → (α → Prog O Res β) → Prog O Res β
  | .pure a, f => f a
  | .op o next, f => .op o (fun r => (next r).bind f)

instance : Monad (Prog O Res) where
  pure := Prog.pure
  bind := Prog.bind

end Prog

abbrev Code (ε O : Type) (Res : O → Type) := ExceptT ε (Prog O Res)

def perform (e : ε) (o : O) : Code ε O Res (Res o) :=
  ExceptT.mk (.op o (fun r => .pure (match r with | some a => .ok a | none => .error e)))

/-- What each thread may do to the shared state, and what it relies on the others to keep. -/
structure Protocol (ι σ O : Type) (Res : O → Type) where
  exec : ι → (o : O) → σ → Option (Res o) → σ → Prop
  inv : σ → Prop
  rely : ι → σ → σ → Prop
  guar : ι → σ → σ → Prop
  compatible : ∀ {x y s t}, x ≠ y → guar x s t → rely y s t

namespace Protocol

variable (Γ : Protocol ι σ O Res) (x : ι)

def Stable (P : σ → Prop) : Prop :=
  ∀ s t, P s → Γ.rely x s t → P t

def Sat (Q : α → σ → Prop) : Prog O Res α → (σ → Prop) → Prop
  | .pure a, P => ∀ s, Γ.inv s → P s → Q a s
  | .op o next, P => ∀ s, Γ.inv s → P s → ∀ r t, Γ.exec x o s r t →
      Γ.inv t ∧ Γ.guar x s t ∧ ∃ P', Γ.Stable x P' ∧ P' t ∧ Sat Q (next r) P'

def Spec (P : σ → Prop) (m : Code ε O Res α) (Q : α → σ → Prop) (F : ε → σ → Prop) : Prop :=
  Γ.Sat x (fun r s => match r with | .ok a => Q a s | .error e => F e s) m.run P

variable {Γ x} {P P' : σ → Prop} {Q Q' : α → σ → Prop} {R : β → σ → Prop} {F G : ε → σ → Prop}

lemma Sat.mono {p : Prog O Res α} (h : Γ.Sat x Q p P) (hP : ∀ s, Γ.inv s → P' s → P s)
    (hQ : ∀ a s, Γ.inv s → Q a s → Q' a s) : Γ.Sat x Q' p P' := by
  induction p generalizing P P' with
  | pure a => exact fun s hi hs => hQ a s hi (h s hi (hP s hi hs))
  | op o next ih =>
    intro s hi hs r t ht
    obtain ⟨hi', hg, P₁, hst, hP₁, hn⟩ := h s hi (hP s hi hs) r t ht
    exact ⟨hi', hg, P₁, hst, hP₁, ih r hn (fun _ _ h => h)⟩

lemma Sat.bind {p : Prog O Res α} {f : α → Prog O Res β} (h : Γ.Sat x Q p P)
    (hf : ∀ a, Γ.Sat x R (f a) (Q a)) : Γ.Sat x R (p.bind f) P := by
  induction p generalizing P with
  | pure a => exact (hf a).mono h (fun _ _ _ h => h)
  | op o next ih =>
    intro s hi hs r t ht
    obtain ⟨hi', hg, P₁, hst, hP₁, hn⟩ := h s hi hs r t ht
    exact ⟨hi', hg, P₁, hst, hP₁, ih r hn⟩

lemma Sat.frame {F : σ → Prop} {p : Prog O Res α} (h : Γ.Sat x Q p P) (hF : Γ.Stable x F)
    (hg : ∀ s t, F s → Γ.guar x s t → F t) : Γ.Sat x (fun a s => Q a s ∧ F s) p (fun s => P s ∧ F s) := by
  induction p generalizing P with
  | pure a => exact fun s hi hs => ⟨h s hi hs.1, hs.2⟩
  | op o next ih =>
    intro s hi hs r t ht
    obtain ⟨hi', hgr, P₁, hst, hP₁, hn⟩ := h s hi hs.1 r t ht
    exact ⟨hi', hgr, fun s => P₁ s ∧ F s, fun s t hs hr => ⟨hst s t hs.1 hr, hF s t hs.2 hr⟩,
      ⟨hP₁, hg s t hs.2 hgr⟩, ih r hn⟩

/-- A program may be verified against two protocols that differ in what it owes. -/
lemma Sat.both {Γ' : Protocol ι σ O Res} {p : Prog O Res α} (h : Γ.Sat x Q p P) (h' : Γ'.Sat x Q' p P')
    (hexec : ∀ o s r t, Γ.exec x o s r t → Γ'.exec x o s r t) (hinv : ∀ s, Γ.inv s → Γ'.inv s)
    (hrely : ∀ s t, Γ.rely x s t → Γ'.rely x s t) :
    Γ.Sat x (fun a s => Q a s ∧ Q' a s) p (fun s => P s ∧ P' s) := by
  induction p generalizing P P' with
  | pure a => exact fun s hi hs => ⟨h s hi hs.1, h' s (hinv s hi) hs.2⟩
  | op o next ih =>
    intro s hi hs r t ht
    obtain ⟨hi', hg, P₁, hst, hP₁, hn⟩ := h s hi hs.1 r t ht
    obtain ⟨-, -, P₂, hst', hP₂, hn'⟩ := h' s (hinv s hi) hs.2 r t (hexec o s r t ht)
    exact ⟨hi', hg, fun s => P₁ s ∧ P₂ s, fun s t hs hr => ⟨hst s t hs.1 hr, hst' s t hs.2 (hrely s t hr)⟩,
      ⟨hP₁, hP₂⟩, ih r hn hn'⟩

namespace Spec

lemma mono {m : Code ε O Res α} (h : Γ.Spec x P m Q F) (hP : ∀ s, Γ.inv s → P' s → P s)
    (hQ : ∀ a s, Γ.inv s → Q a s → Q' a s) (hF : ∀ e s, Γ.inv s → F e s → G e s) :
    Γ.Spec x P' m Q' G := by
  refine Sat.mono h hP (fun r s hi hr => ?_)
  cases r with
  | ok a => exact hQ a s hi hr
  | error e => exact hF e s hi hr

lemma pure {a : α} (h : ∀ s, Γ.inv s → P s → Q a s) :
    Γ.Spec x P (pure a : Code ε O Res α) Q F :=
  h

lemma throw {e : ε} (h : ∀ s, Γ.inv s → P s → F e s) :
    Γ.Spec x P (throw e : Code ε O Res α) Q F :=
  h

lemma bind {m : Code ε O Res α} {f : α → Code ε O Res β} (hm : Γ.Spec x P m Q F)
    (hf : ∀ a, Γ.Spec x (Q a) (f a) R F) : Γ.Spec x P (m >>= f) R F := by
  refine Sat.bind hm (fun r => ?_)
  cases r with
  | ok a => exact hf a
  | error e => exact fun s _ hs => hs

lemma frame {P₀ : σ → Prop} {m : Code ε O Res α} (h : Γ.Spec x P m Q F) (hst : Γ.Stable x P₀)
    (hg : ∀ s t, P₀ s → Γ.guar x s t → P₀ t) :
    Γ.Spec x (fun s => P s ∧ P₀ s) m (fun a s => Q a s ∧ P₀ s) F := by
  refine Sat.mono (Sat.frame h hst hg) (fun _ _ h => h) (fun r s _ hr => ?_)
  cases r with
  | ok a => exact hr
  | error e => exact hr.1

lemma both {Γ' : Protocol ι σ O Res} {m : Code ε O Res α} (h : Γ.Spec x P m Q F) (h' : Γ'.Spec x P' m Q' G)
    (hexec : ∀ o s r t, Γ.exec x o s r t → Γ'.exec x o s r t) (hinv : ∀ s, Γ.inv s → Γ'.inv s)
    (hrely : ∀ s t, Γ.rely x s t → Γ'.rely x s t) :
    Γ.Spec x (fun s => P s ∧ P' s) m (fun a s => Q a s ∧ Q' a s) F := by
  refine Sat.mono (Sat.both h h' hexec hinv hrely) (fun _ _ h => h) (fun r s _ hr => ?_)
  cases r with
  | ok a => exact hr
  | error e => exact hr.1

lemma tryCatch {m : Code ε O Res α} {handle : ε → Code ε O Res α} (hm : Γ.Spec x P m Q G)
    (hh : ∀ e, Γ.Spec x (G e) (handle e) Q F) : Γ.Spec x P (tryCatch m handle) Q F := by
  refine Sat.bind hm (fun r => ?_)
  cases r with
  | ok a => exact fun s _ hs => hs
  | error e => exact hh e

lemma ite {c : Prop} [Decidable c] {m m' : Code ε O Res α} (ht : c → Γ.Spec x P m Q F)
    (he : ¬ c → Γ.Spec x P m' Q F) : Γ.Spec x P (if c then m else m') Q F := by
  split
  · exact ht ‹_›
  · exact he ‹_›

lemma perform {e : ε} {o : O} {Q : Res o → σ → Prop} {F : ε → σ → Prop}
    (hQ : ∀ a, Γ.Stable x (Q a)) (hF : Γ.Stable x (F e))
    (h : ∀ s, Γ.inv s → P s → ∀ r t, Γ.exec x o s r t → Γ.inv t ∧ Γ.guar x s t ∧
      match r with | some a => Q a t | none => F e t) :
    Γ.Spec x P (perform e o) Q F := by
  intro s hi hs r t ht
  obtain ⟨hi', hg, hr⟩ := h s hi hs r t ht
  cases r with
  | some a => exact ⟨hi', hg, Q a, hQ a, hr, fun _ _ h => h⟩
  | none => exact ⟨hi', hg, F e, hF, hr, fun _ _ h => h⟩

-- A program may be verified for each state it can start in.
lemma of_state {m : Code ε O Res α}
    (h : ∀ s₀, Γ.inv s₀ → P s₀ → Γ.Spec x (fun s => s = s₀) m Q F) : Γ.Spec x P m Q F := by
  unfold Spec at h ⊢
  cases hm : m.run with
  | pure a =>
    intro s hi hs
    have := h s hi hs
    rw [hm] at this
    exact this s hi rfl
  | op o next =>
    intro s hi hs
    have := h s hi hs
    rw [hm] at this
    exact this s hi rfl

lemma of_exists {κ : Sort*} {P : κ → σ → Prop} {m : Code ε O Res α}
    (h : ∀ k, Γ.Spec x (P k) m Q F) : Γ.Spec x (fun s => ∃ k, P k s) m Q F := by
  unfold Spec at h ⊢
  cases hm : m.run with
  | pure a =>
    rintro s hi ⟨k, hs⟩
    have := h k
    rw [hm] at this
    exact this s hi hs
  | op o next =>
    rintro s hi ⟨k, hs⟩
    have := h k
    rw [hm] at this
    exact this s hi hs

lemma of_and {p : Prop} {m : Code ε O Res α} (h : p → Γ.Spec x P m Q F) :
    Γ.Spec x (fun s => p ∧ P s) m Q F :=
  (of_exists h).mono (fun _ _ hs => ⟨hs.1, hs.2⟩) (fun _ _ _ h => h) (fun _ _ _ h => h)

end Spec

lemma Stable.and {P P' : σ → Prop} (h : Γ.Stable x P) (h' : Γ.Stable x P') :
    Γ.Stable x (fun s => P s ∧ P' s) :=
  fun s t hs hr => ⟨h s t hs.1 hr, h' s t hs.2 hr⟩

lemma Stable.const {p : Prop} : Γ.Stable x (fun _ => p) :=
  fun _ _ h _ => h

/-- Every thread still meets its part of the protocol. -/
def Settled (Γ : Protocol ι σ O Res) (threads : ι → Option (Prog O Res Unit)) (s : σ) : Prop :=
  Γ.inv s ∧ ∀ x p, threads x = some p →
    ∃ P, Γ.Stable x P ∧ P s ∧ Γ.Sat x (fun _ _ => True) p P

variable {threads : ι → Option (Prog O Res Unit)} {s t : σ}

lemma Settled.outside (h : Γ.Settled threads s) (hi : Γ.inv t)
    (hr : ∀ y, threads y ≠ none → Γ.rely y s t) : Γ.Settled threads t := by
  refine ⟨hi, fun y p hy => ?_⟩
  obtain ⟨P, hst, hP, hsat⟩ := h.2 y p hy
  exact ⟨P, hst, hst s t hP (hr y (by simp [hy])), hsat⟩

lemma Settled.fewer (h : Γ.Settled threads s) {threads' : ι → Option (Prog O Res Unit)}
    (hf : ∀ y p, threads' y = some p → threads y = some p) : Γ.Settled threads' s :=
  ⟨h.1, fun y p hy => h.2 y p (hf y p hy)⟩

variable [DecidableEq ι]

lemma Settled.step (h : Γ.Settled threads s) {o : O} {next : Option (Res o) → Prog O Res Unit}
    {r : Option (Res o)} (hx : threads x = some (.op o next)) (hs : Γ.exec x o s r t) :
    Γ.Settled (Function.update threads x (some (next r))) t := by
  obtain ⟨P, -, hP, hsat⟩ := h.2 x _ hx
  obtain ⟨hi, hg, P₁, hst, hP₁, hnext⟩ := hsat s h.1 hP r t hs
  refine ⟨hi, fun y p hy => ?_⟩
  by_cases hyx : y = x
  · subst hyx
    rw [Function.update_self] at hy
    cases hy
    exact ⟨P₁, hst, hP₁, hnext⟩
  · rw [Function.update_of_ne hyx] at hy
    obtain ⟨P₂, hst₂, hP₂, hsat₂⟩ := h.2 y p hy
    exact ⟨P₂, hst₂, hst₂ s t hP₂ (Γ.compatible (Ne.symm hyx) hg), hsat₂⟩

lemma Settled.start (h : Γ.Settled threads s) {p : Prog O Res Unit} {P : σ → Prop}
    (hst : Γ.Stable x P) (hP : P s) (hp : Γ.Sat x (fun _ _ => True) p P) :
    Γ.Settled (Function.update threads x (some p)) s := by
  refine ⟨h.1, fun y q hy => ?_⟩
  by_cases hyx : y = x
  · subst hyx
    rw [Function.update_self] at hy
    cases hy
    exact ⟨P, hst, hP, hp⟩
  · rw [Function.update_of_ne hyx] at hy
    exact h.2 y q hy

end Protocol

end TinyCloud.Runs
