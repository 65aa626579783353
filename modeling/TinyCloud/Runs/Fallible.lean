import Mathlib.Logic.Basic

/-! Taking a sequence of fallible steps apart. -/

namespace TinyCloud.Runs

variable {ε α β : Type} {r : Except ε α} {f : α → Except ε β}

lemma bind_eq_ok {b : β} (h : r >>= f = .ok b) : ∃ a, r = .ok a ∧ f a = .ok b := by
  cases r with
  | error e => cases h
  | ok a => exact ⟨a, rfl, h⟩

lemma bind_of_ok {a : α} (h : r = .ok a) : r >>= f = f a := by
  rw [h]
  rfl

lemma bind_eq_error {e : ε} (h : r >>= f = .error e) :
    r = .error e ∨ ∃ a, r = .ok a ∧ f a = .error e := by
  cases r with
  | error e' =>
    cases h
    exact .inl rfl
  | ok a => exact .inr ⟨a, rfl, h⟩

def throwIf (bad : Bool) (e : ε) : Except ε Unit := if bad then .error e else .ok ()

def orThrow (v : Option α) (e : ε) : Except ε α :=
  match v with
  | some a => .ok a
  | none => .error e

lemma mapM_cons_eq_ok {g : α → Except ε β} {a : α} {as : List α} {bs : List β} (h : (a :: as).mapM g = .ok bs) :
    ∃ b rest, g a = .ok b ∧ as.mapM g = .ok rest ∧ bs = b :: rest := by
  rw [List.mapM_cons] at h
  obtain ⟨b, hb, hrest⟩ := bind_eq_ok h
  obtain ⟨rest, hmap, hend⟩ := bind_eq_ok hrest
  cases hend
  exact ⟨b, rest, hb, hmap, rfl⟩

lemma mapM_cons_of_ok {g : α → Except ε β} {a : α} {as : List α} {b : β} {bs : List β} (ha : g a = .ok b)
    (has : as.mapM g = .ok bs) : (a :: as).mapM g = .ok (b :: bs) := by
  rw [List.mapM_cons, bind_of_ok ha, bind_of_ok has]
  rfl

lemma mem_of_mapM {g : α → Except ε β} {as : List α} {bs : List β} (h : as.mapM g = .ok bs) :
    ∀ b ∈ bs, ∃ a ∈ as, g a = .ok b := by
  induction as generalizing bs with
  | nil =>
    cases h
    simp
  | cons a as ih =>
    obtain ⟨b, rest, hb, hrest, rfl⟩ := mapM_cons_eq_ok h
    refine List.forall_mem_cons.mpr ⟨⟨a, List.mem_cons_self, hb⟩, fun b hmem => ?_⟩
    obtain ⟨a, ha, hab⟩ := ih hrest b hmem
    exact ⟨a, List.mem_cons_of_mem _ ha, hab⟩

/-- In another order the same steps succeed, with the results in that order. -/
lemma mapM_perm {g : α → Except ε β} {as as' : List α} (hperm : as.Perm as') {bs : List β} (h : as.mapM g = .ok bs) :
    ∃ bs', as'.mapM g = .ok bs' ∧ bs.Perm bs' := by
  induction hperm generalizing bs with
  | nil => exact ⟨bs, h, .refl bs⟩
  | cons a _ ih =>
    obtain ⟨b, rest, hb, hrest, rfl⟩ := mapM_cons_eq_ok h
    obtain ⟨rest', hrest', hp⟩ := ih hrest
    exact ⟨b :: rest', mapM_cons_of_ok hb hrest', hp.cons b⟩
  | swap a c as =>
    obtain ⟨d, rest, hd, hrest, rfl⟩ := mapM_cons_eq_ok h
    obtain ⟨b, rest, hb, hend, rfl⟩ := mapM_cons_eq_ok hrest
    exact ⟨b :: d :: rest, mapM_cons_of_ok hb (mapM_cons_of_ok hd hend), .swap b d rest⟩
  | trans _ _ ih₁ ih₂ =>
    obtain ⟨bs₁, h₁, hp₁⟩ := ih₁ h
    obtain ⟨bs₂, h₂, hp₂⟩ := ih₂ h₁
    exact ⟨bs₂, h₂, hp₁.trans hp₂⟩

lemma foldlM_cons_eq_ok {g : β → α → Except ε β} {a : α} {as : List α} {b b' : β} (h : (a :: as).foldlM g b = .ok b') :
    ∃ c, g b a = .ok c ∧ as.foldlM g c = .ok b' := by
  rw [List.foldlM_cons] at h
  exact bind_eq_ok h

/-- What every step keeps holds at the end. -/
lemma foldlM_keeps {g : β → α → Except ε β} {I : β → Prop} {as : List α} {b b' : β}
    (hstep : ∀ b, ∀ a ∈ as, ∀ c, I b → g b a = .ok c → I c) (hb : I b) (h : as.foldlM g b = .ok b') : I b' := by
  induction as generalizing b with
  | nil =>
    cases h
    exact hb
  | cons a as ih =>
    obtain ⟨c, hc, hrest⟩ := foldlM_cons_eq_ok h
    exact ih (fun b a ha => hstep b a (List.mem_cons_of_mem _ ha)) (hstep b a List.mem_cons_self c hb hc) hrest

/-- What a step establishes about its element, and all later ones keep, holds of every element at the end. -/
lemma foldlM_reaches {g : β → α → Except ε β} {K : α → β → Prop} {as : List α} {b b' : β}
    (hnew : ∀ b a c, g b a = .ok c → K a c) (hkeep : ∀ b a c x, K x b → g b a = .ok c → K x c)
    (h : as.foldlM g b = .ok b') : ∀ a ∈ as, K a b' := by
  induction as generalizing b with
  | nil => exact List.forall_mem_nil _
  | cons a as ih =>
    obtain ⟨c, hc, hrest⟩ := foldlM_cons_eq_ok h
    refine List.forall_mem_cons.mpr ⟨?_, ih hrest⟩
    exact foldlM_keeps (fun b a _ c hk he => hkeep b a c _ hk he) (hnew b a c hc) hrest

lemma throwIf_eq_ok {bad : Bool} {e : ε} {u : Unit} (h : throwIf bad e = .ok u) : bad = false := by
  cases bad with
  | false => rfl
  | true => cases h

lemma orThrow_eq_ok {v : Option α} {e : ε} {a : α} (h : orThrow v e = .ok a) : v = some a := by
  cases v with
  | none => cases h
  | some b =>
    cases h
    rfl

lemma eq_ok_of_isOk (h : r.isOk = true) : ∃ a, r = .ok a := by
  cases r with
  | error e => cases h
  | ok a => exact ⟨a, rfl⟩

end TinyCloud.Runs
