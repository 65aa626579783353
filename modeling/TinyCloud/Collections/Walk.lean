import Mathlib.Algebra.Order.Floor.Div
import Mathlib.Data.List.Perm.Subperm
import Mathlib.Data.List.Sort
import Mathlib.Order.Defs.LinearOrder
import Mathlib.Tactic.Order

/-! Walks around a finite linear order that resume after the last element met. -/

namespace TinyCloud.Collections

variable {α : Type*} [LinearOrder α]

section Order

/-- Going up from just after `c`, and on from the least element, `a` is met before `b`. -/
def MetBefore (c a b : α) : Prop := if c < a ↔ c < b then a < b else c < a

instance (c a b : α) : Decidable (MetBefore c a b) := inferInstanceAs (Decidable (ite _ _ _))

variable {c l a b d : α}

lemma metBefore_irrefl (c a : α) : ¬MetBefore c a a := by simp [MetBefore]

lemma MetBefore.asymm (h : MetBefore c a b) : ¬MetBefore c b a := by
  unfold MetBefore at *
  grind

lemma MetBefore.total (c : α) (h : a ≠ b) : MetBefore c a b ∨ MetBefore c b a := by
  unfold MetBefore
  grind

/-- What lies between the resting place `l` and `b` was still to be met from `c` as well. -/
lemma MetBefore.resume (hl : MetBefore c l b) (ha : MetBefore l a b) : MetBefore c l a ∧ MetBefore c a b := by
  unfold MetBefore at *
  grind

lemma metBefore_of_after (ha : c < a) (hb : ¬c < b) : MetBefore c a b := by
  rw [MetBefore, if_neg fun h => hb (h.mp ha)]
  exact ha

lemma metBefore_of_lt (hab : a < b) (hc : c < a ↔ c < b) : MetBefore c a b := by
  rw [MetBefore, if_pos hc]
  exact hab

end Order

section Walks

/-- `whole` lists the elements in the order in which they are met from `c`. -/
def IsWalk (c : α) (elements whole : List α) : Prop := whole.Perm elements ∧ whole.Pairwise (MetBefore c)

variable {c l m : α} {elements whole : List α}

lemma IsWalk.unique {other : List α} (h : IsWalk c elements whole) (h' : IsWalk c elements other) : whole = other := by
  refine List.Perm.eq_of_pairwise ?_ h.2 h'.2 (h.1.trans h'.1.symm)
  intro a b _ _ hab hba
  exact absurd hba hab.asymm

lemma IsWalk.nodup (h : IsWalk c elements whole) : elements.Nodup := by
  refine h.1.nodup_iff.mp (h.2.imp ?_)
  rintro a _ hab rfl
  exact metBefore_irrefl c a hab

/-- The elements met before `m` are those in front of it. -/
lemma IsWalk.met {pre post : List α} (h : IsWalk c elements (pre ++ m :: post)) :
    (∀ a ∈ pre, MetBefore c a m) ∧ ∀ a ∈ post, ¬MetBefore c a m := by
  obtain ⟨-, htail, hacross⟩ := List.pairwise_append.mp h.2
  refine ⟨fun a ha => hacross a ha m List.mem_cons_self, fun a ha => ?_⟩
  exact ((List.pairwise_cons.mp htail).1 a ha).asymm

lemma IsWalk.mem_front {pre post : List α} {a : α} (h : IsWalk c elements (pre ++ m :: post)) (ha : a ∈ elements)
    (hmet : MetBefore c a m) : a ∈ pre := by
  rcases List.mem_append.mp (h.1.mem_iff.mpr ha) with hpre | hrest
  · exact hpre
  · rcases List.mem_cons.mp hrest with rfl | hpost
    · exact absurd hmet (metBefore_irrefl c a)
    · exact absurd hmet (h.met.2 a hpost)

/-- What is met before `m` after a rest at the end of `taken` comes from what was left in front of `m`. -/
lemma IsWalk.mem_left {taken left post : List α} {a : α}
    (h : IsWalk c elements (taken ++ l :: (left ++ m :: post))) (ha : a ∈ elements) (hmet : MetBefore l a m) :
    a ∈ left := by
  have hfront : IsWalk c elements ((taken ++ l :: left) ++ m :: post) := by
    simpa only [List.append_assoc, List.cons_append] using h
  have hl := hfront.met.1 l (List.mem_append_right _ List.mem_cons_self)
  obtain ⟨hla, ham⟩ := hl.resume hmet
  rcases List.mem_append.mp (hfront.mem_front ha ham) with htaken | hrest
  · have hacross := (List.pairwise_append.mp h.2).2.2
    exact absurd hla (hacross a htaken l List.mem_cons_self).asymm
  · rcases List.mem_cons.mp hrest with rfl | hleft
    · exact absurd hla (metBefore_irrefl c a)
    · exact hleft

/-- How many elements are met before `m`. -/
def ahead (c m : α) (elements : List α) : ℕ := (elements.filter (MetBefore c · m)).length

lemma IsWalk.ahead_eq {pre post : List α} (h : IsWalk c elements (pre ++ m :: post)) :
    ahead c m elements = pre.length := by
  have hperm := (h.1.filter (MetBefore c · m)).length_eq
  have hpre : pre.filter (MetBefore c · m) = pre :=
    List.filter_eq_self.mpr fun a ha => decide_eq_true (h.met.1 a ha)
  have hpost : (m :: post).filter (MetBefore c · m) = [] := by
    rw [List.filter_eq_nil_iff]
    intro a ha
    rcases List.mem_cons.mp ha with rfl | ha
    · simpa using metBefore_irrefl c a
    · simpa using h.met.2 a ha
  rw [ahead, ← hperm, List.filter_append, hpre, hpost, List.append_nil]

lemma ahead_lt (hm : m ∈ elements) : ahead c m elements < elements.length := by
  unfold ahead
  refine lt_of_le_of_ne (List.length_filter_le _ _) fun h => ?_
  have hself := List.length_filter_eq_length_iff.mp h m hm
  exact metBefore_irrefl c m (of_decide_eq_true hself)

end Walks

section Laps

variable {cap : ℕ} {present picks : ℕ → List α} {cursor : ℕ → α} {m : α}

/-- Each batch is the first `cap` elements from the cursor, and the cursor rests at the last of them. Elements may
disappear between two batches. -/
structure Laps (cap : ℕ) (present picks : ℕ → List α) (cursor : ℕ → α) : Prop where
  batch : ∀ k, ∃ whole, IsWalk (cursor k) (present k) whole ∧ picks k = whole.take cap
  rest : ∀ k l, (picks k).getLast? = some l → cursor (k + 1) = l
  shrinks : ∀ k, present (k + 1) ⊆ present k

lemma Laps.later (h : Laps cap present picks cursor) :
    Laps cap (fun k => present (k + 1)) (fun k => picks (k + 1)) (fun k => cursor (k + 1)) where
  batch k := h.batch (k + 1)
  rest k := h.rest (k + 1)
  shrinks k := h.shrinks (k + 1)

/-- A batch that does not reach `m` brings the cursor closer to it by a whole batch. -/
lemma Laps.closer (h : Laps cap present picks cursor) (hcap : 1 ≤ cap) (hm : m ∈ present 0) (hmiss : m ∉ picks 0) :
    ahead (cursor 1) m (present 1) + cap ≤ ahead (cursor 0) m (present 0) := by
  obtain ⟨whole, hwalk, hpicks⟩ := h.batch 0
  obtain ⟨pre, post, rfl⟩ := List.append_of_mem (hwalk.1.mem_iff.mpr hm)
  have hfar : cap ≤ pre.length := by
    by_contra hnear
    apply hmiss
    rw [hpicks, List.take_append, List.mem_append]
    right
    obtain ⟨d, hd⟩ : ∃ d, cap - pre.length = d + 1 := ⟨cap - pre.length - 1, by omega⟩
    rw [hd, List.take_succ_cons]
    exact List.mem_cons_self
  obtain ⟨taken, l, htake⟩ : ∃ taken l, pre.take cap = taken ++ [l] := by
    have hne : pre.take cap ≠ [] := List.ne_nil_of_length_pos (by rw [List.length_take]; omega)
    exact ⟨_, _, (List.dropLast_append_getLast hne).symm⟩
  have hlast : (picks 0).getLast? = some l := by
    rw [hpicks, List.take_append_of_le_length hfar, htake, List.getLast?_concat]
  have hsplit : pre ++ m :: post = taken ++ l :: (pre.drop cap ++ m :: post) := by
    conv_lhs => rw [← List.take_append_drop cap pre, htake]
    simp only [List.append_assoc, List.cons_append, List.nil_append]
  have hleft : (present 1).filter (MetBefore (cursor 1) · m) ⊆ pre.drop cap := by
    intro a ha
    obtain ⟨ha, hmet⟩ := List.mem_filter.mp ha
    rw [h.rest 0 l hlast] at hmet
    rw [hsplit] at hwalk
    exact hwalk.mem_left (h.shrinks 0 ha) (of_decide_eq_true hmet)
  obtain ⟨_, hnext, -⟩ := h.batch 1
  have hlength := ((hnext.nodup.filter _).subperm hleft).length_le
  rw [List.length_drop] at hlength
  rw [hwalk.ahead_eq]
  unfold ahead
  omega

theorem Laps.reached (h : Laps cap present picks cursor) (hcap : 1 ≤ cap) (hm : ∀ k, m ∈ present k) {r : ℕ}
    (hr : ahead (cursor 0) m (present 0) < r * cap) : ∃ k < r, m ∈ picks k := by
  induction r generalizing present picks cursor with
  | zero =>
    rw [Nat.zero_mul] at hr
    exact absurd hr (Nat.not_lt_zero _)
  | succ r ih =>
    by_cases hnow : m ∈ picks 0
    · exact ⟨0, Nat.succ_pos r, hnow⟩
    · have hcloser := h.closer hcap (hm 0) hnow
      rw [Nat.succ_mul] at hr
      obtain ⟨k, hk, hpicked⟩ :=
        ih h.later (fun k => hm (k + 1)) (Nat.lt_of_add_lt_add_right (hcloser.trans_lt hr))
      exact ⟨k + 1, Nat.succ_lt_succ hk, hpicked⟩

/-- Every element that stays is reached within as many batches as cover the elements. -/
theorem Laps.lap (h : Laps cap present picks cursor) (hcap : 1 ≤ cap) (hm : ∀ k, m ∈ present k) :
    ∃ k < (present 0).length ⌈/⌉ cap, m ∈ picks k := by
  apply h.reached hcap hm
  refine (ahead_lt (hm 0)).trans_le ?_
  rw [mul_comm]
  exact le_smul_ceilDiv (Nat.lt_of_lt_of_le Nat.zero_lt_one hcap)

end Laps

end TinyCloud.Collections
