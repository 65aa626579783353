import Mathlib.Logic.Basic

/-! Rules of pre- and postconditions for programs over a state that can throw.
The state outlives a throw, which has a postcondition of its own. -/

namespace TinyCloud.Runs

variable {ε σ α β : Type}

def Triple (P : σ → Prop) (m : EStateM ε σ α) (Q : α → σ → Prop) (E : ε → σ → Prop) : Prop :=
  ∀ s, P s → match m s with
    | .ok a t => Q a t
    | .error e t => E e t

namespace Triple

variable {P P' : σ → Prop} {m : EStateM ε σ α} {f : α → EStateM ε σ β} {Q Q' : α → σ → Prop}
  {R : β → σ → Prop} {E E' : ε → σ → Prop} {s t : σ}

lemma ok {a : α} (h : Triple P m Q E) (hs : P s) (hm : m s = .ok a t) : Q a t := by
  have := h s hs
  rwa [hm] at this

lemma error {e : ε} (h : Triple P m Q E) (hs : P s) (hm : m s = .error e t) : E e t := by
  have := h s hs
  rwa [hm] at this

lemma mono (h : Triple P m Q E) (hP : ∀ s, P' s → P s) (hQ : ∀ a s, Q a s → Q' a s)
    (hE : ∀ e s, E e s → E' e s) : Triple P' m Q' E' := by
  intro s hs
  have := h s (hP s hs)
  cases hm : m s with
  | ok a t =>
    rw [hm] at this
    exact hQ a t this
  | error e t =>
    rw [hm] at this
    exact hE e t this

lemma pure {a : α} (h : ∀ s, P s → Q a s) : Triple P (pure a : EStateM ε σ α) Q E :=
  fun s hs => h s hs

lemma throw {e : ε} (h : ∀ s, P s → E e s) : Triple P (throw e : EStateM ε σ α) Q E :=
  fun s hs => h s hs

lemma bind (hm : Triple P m Q E) (hf : ∀ a, Triple (Q a) (f a) R E) : Triple P (m >>= f) R E := by
  intro s hs
  have h := hm s hs
  change match EStateM.bind m f s with | .ok a t => R a t | .error e t => E e t
  unfold EStateM.bind
  cases hr : m s with
  | ok a t =>
    rw [hr] at h
    exact hf a t h
  | error e t =>
    rw [hr] at h
    exact h

lemma get : Triple P (get : EStateM ε σ σ) (fun a s => a = s ∧ P s) E :=
  fun _ hs => ⟨rfl, hs⟩

lemma modify {g : σ → σ} {Q : Unit → σ → Prop} (h : ∀ s, P s → Q () (g s)) :
    Triple P (modify g : EStateM ε σ Unit) Q E :=
  fun s hs => h s hs

lemma ite {c : Prop} [Decidable c] {m' : EStateM ε σ α} (ht : c → Triple P m Q E)
    (he : ¬ c → Triple P m' Q E) : Triple P (if c then m else m') Q E := by
  split
  · exact ht ‹_›
  · exact he ‹_›

lemma tryCatch {handle : ε → EStateM ε σ α} (hm : Triple P m Q E')
    (hh : ∀ e, Triple (E' e) (handle e) Q E) : Triple P (tryCatch m handle) Q E := by
  intro s hs
  have h := hm s hs
  change match EStateM.tryCatch m handle s with | .ok a t => Q a t | .error e t => E e t
  unfold EStateM.tryCatch
  cases hr : m s with
  | ok a t =>
    rw [hr] at h
    exact h
  | error e t =>
    rw [hr] at h
    exact hh e t h

-- What holds of the state alone can be assumed while the program is taken apart.
lemma of_fact {p : Prop} (hp : ∀ s, P s → p) (h : p → Triple P m Q E) : Triple P m Q E :=
  fun s hs => h (hp s hs) s hs

end Triple

section Results

variable {m : EStateM ε σ α} {f : α → EStateM ε σ β} {s t : σ} {a : α} {b : β} {e : ε}

-- A program that returns has returned from each of its parts.
lemma effect_bind_ok (h : (m >>= f) s = .ok b t) : ∃ a u, m s = .ok a u ∧ f a u = .ok b t := by
  change EStateM.bind m f s = .ok b t at h
  unfold EStateM.bind at h
  cases hm : m s with
  | ok a u =>
    rw [hm] at h
    exact ⟨a, u, rfl, h⟩
  | error e u =>
    rw [hm] at h
    cases h

lemma effect_throw_ok (h : (throw e : EStateM ε σ α) s = .ok a t) : False := by
  cases h

end Results

end TinyCloud.Runs
