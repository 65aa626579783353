import Mathlib.Algebra.GroupWithZero.Nat
import Mathlib.Data.List.Nodup
import Mathlib.Data.List.Perm.Subperm

/-! Dictionaries that keep the order in which their keys were first set: a key that is there keeps
its place when it is set again, a new one comes last. -/

namespace TinyCloud.Collections

variable {κ α β : Type} [DecidableEq κ]

structure Dict (κ α : Type) where
  entries : List (κ × α)
  nodup : (entries.map Prod.fst).Nodup
  deriving DecidableEq

namespace Dict

def setIn (k : κ) (v : α) : List (κ × α) → List (κ × α)
  | [] => [(k, v)]
  | e :: es => if e.1 = k then (k, v) :: es else e :: setIn k v es

def getIn (k : κ) : List (κ × α) → Option α
  | [] => none
  | e :: es => if e.1 = k then some e.2 else getIn k es

def deleteIn (k : κ) (es : List (κ × α)) : List (κ × α) := es.filter fun e => decide (e.1 ≠ k)

section Entries

variable {k j : κ} {v u : α} {es : List (κ × α)}

lemma mem_keys_setIn : j ∈ (setIn k v es).map Prod.fst ↔ j = k ∨ j ∈ es.map Prod.fst := by
  induction es with
  | nil => simp [setIn]
  | cons e es ih =>
    unfold setIn
    split
    · rename_i h
      simp [h]
    · simp only [List.map_cons, List.mem_cons, ih]
      tauto

-- A key that is set again keeps its place.
example : (setIn 1 3 [(1, 2), (4, 5)]).map Prod.fst = [1, 4] := by decide +kernel

lemma nodup_setIn (h : (es.map Prod.fst).Nodup) : ((setIn k v es).map Prod.fst).Nodup := by
  induction es with
  | nil => simp [setIn]
  | cons e es ih =>
    rw [List.map_cons, List.nodup_cons] at h
    unfold setIn
    split
    · rename_i he
      rw [List.map_cons, List.nodup_cons]
      exact ⟨he ▸ h.1, h.2⟩
    · rename_i he
      rw [List.map_cons, List.nodup_cons, mem_keys_setIn]
      exact ⟨not_or.mpr ⟨he, h.1⟩, ih h.2⟩

lemma nodup_deleteIn (h : (es.map Prod.fst).Nodup) : ((deleteIn k es).map Prod.fst).Nodup :=
  h.sublist (List.filter_sublist.map _)

lemma getIn_eq_none : getIn k es = none ↔ k ∉ es.map Prod.fst := by
  induction es with
  | nil => simp [getIn]
  | cons e es ih =>
    unfold getIn
    split
    · rename_i h
      simp [h]
    · rename_i h
      simp only [ih, List.map_cons, List.mem_cons, not_or]
      exact ⟨fun hn => ⟨Ne.symm h, hn⟩, fun hn => hn.2⟩

lemma mem_of_getIn (h : getIn k es = some v) : (k, v) ∈ es := by
  induction es with
  | nil => cases h
  | cons e es ih =>
    unfold getIn at h
    split at h
    · rename_i he
      cases h
      exact List.mem_cons.mpr (.inl (by rw [← he]))
    · exact List.mem_cons_of_mem _ (ih h)

lemma getIn_of_mem (hn : (es.map Prod.fst).Nodup) (h : (k, v) ∈ es) : getIn k es = some v := by
  induction es with
  | nil => cases h
  | cons e es ih =>
    rw [List.map_cons, List.nodup_cons] at hn
    unfold getIn
    rcases List.mem_cons.mp h with rfl | h
    · simp
    · rw [if_neg, ih hn.2 h]
      rintro he
      exact hn.1 (List.mem_map.mpr ⟨(k, v), h, he.symm⟩)

example : getIn 4 (setIn 4 3 [(1, 2), (4, 5)]) = some 3 := by decide +kernel

lemma getIn_setIn_self : getIn k (setIn k v es) = some v := by
  induction es with
  | nil => simp [setIn, getIn]
  | cons e es ih =>
    unfold setIn
    split
    · simp [getIn]
    · rename_i h
      simp [getIn, h, ih]

lemma getIn_setIn_of_ne (h : j ≠ k) : getIn j (setIn k v es) = getIn j es := by
  induction es with
  | nil => simp [setIn, getIn, Ne.symm h]
  | cons e es ih =>
    unfold setIn
    split
    · rename_i he
      simp [getIn, he, Ne.symm h]
    · simp only [getIn, ih]

lemma getIn_deleteIn_self : getIn k (deleteIn k es) = none := by
  rw [getIn_eq_none]
  simp [deleteIn]

lemma getIn_deleteIn_of_ne (h : j ≠ k) : getIn j (deleteIn k es) = getIn j es := by
  induction es with
  | nil => rfl
  | cons e es ih =>
    unfold deleteIn at ih ⊢
    rw [List.filter_cons]
    split
    · simp only [getIn, ih]
    · rename_i he
      obtain rfl : e.1 = k := by simpa using he
      rw [ih]
      simp [getIn, Ne.symm h]

end Entries

def empty : Dict κ α := ⟨[], List.nodup_nil⟩

def get? (d : Dict κ α) (k : κ) : Option α := getIn k d.entries

def set (d : Dict κ α) (k : κ) (v : α) : Dict κ α := ⟨setIn k v d.entries, nodup_setIn d.nodup⟩

def delete (d : Dict κ α) (k : κ) : Dict κ α := ⟨deleteIn k d.entries, nodup_deleteIn d.nodup⟩

def keys (d : Dict κ α) : List κ := d.entries.map Prod.fst

def values (d : Dict κ α) : List α := d.entries.map Prod.snd

def count (d : Dict κ α) (p : α → Bool) : ℕ := d.entries.countP fun e => p e.2

variable (d : Dict κ α) {k j : κ} {v u : α} {p : α → Bool}

@[simp] lemma get?_set_self (k : κ) (v : α) : (d.set k v).get? k = some v := getIn_setIn_self

lemma get?_set_of_ne (v : α) (h : j ≠ k) : (d.set k v).get? j = d.get? j := getIn_setIn_of_ne h

lemma get?_set (k : κ) (v : α) (j : κ) : (d.set k v).get? j = if j = k then some v else d.get? j := by
  split
  · rename_i h
    rw [h, get?_set_self]
  · rename_i h
    exact d.get?_set_of_ne v h

@[simp] lemma get?_delete_self (k : κ) : (d.delete k).get? k = none := getIn_deleteIn_self

lemma get?_delete_of_ne (h : j ≠ k) : (d.delete k).get? j = d.get? j := getIn_deleteIn_of_ne h

lemma get?_delete (k j : κ) : (d.delete k).get? j = if j = k then none else d.get? j := by
  split
  · rename_i h
    rw [h, get?_delete_self]
  · rename_i h
    exact d.get?_delete_of_ne h

lemma mem_entries : (k, v) ∈ d.entries ↔ d.get? k = some v :=
  ⟨getIn_of_mem d.nodup, mem_of_getIn⟩

lemma mem_keys : k ∈ d.keys ↔ d.get? k ≠ none := by
  rw [Ne, get?, getIn_eq_none, not_not]
  rfl

lemma mem_keys_of_get? (h : d.get? k = some v) : k ∈ d.keys :=
  d.mem_keys.mpr (by simp [h])

lemma mem_values : v ∈ d.values ↔ ∃ k, d.get? k = some v := by
  simp only [values, List.mem_map, Prod.exists, exists_eq_right, mem_entries]

lemma countP_setIn_new {es : List (κ × α)} (h : getIn k es = none) :
    (setIn k v es).countP (fun e => p e.2) = es.countP (fun e => p e.2) + (if p v then 1 else 0) := by
  induction es with
  | nil => cases hp : p v <;> simp [setIn, hp]
  | cons e es ih =>
    unfold getIn at h
    split at h
    · cases h
    · rename_i he
      rw [setIn, if_neg he, List.countP_cons, List.countP_cons, ih h]
      omega

lemma countP_setIn_same {es : List (κ × α)} (h : getIn k es = some u) (hp : p v = p u) :
    (setIn k v es).countP (fun e => p e.2) = es.countP (fun e => p e.2) := by
  induction es with
  | nil => cases h
  | cons e es ih =>
    unfold getIn at h
    split at h
    · rename_i he
      cases h
      rw [setIn, if_pos he, List.countP_cons, List.countP_cons, hp]
    · rename_i he
      rw [setIn, if_neg he, List.countP_cons, List.countP_cons, ih h]

lemma countP_deleteIn {es : List (κ × α)} (hn : (es.map Prod.fst).Nodup) (h : getIn k es = some u) :
    (deleteIn k es).countP (fun e => p e.2) + (if p u then 1 else 0) = es.countP (fun e => p e.2) := by
  induction es with
  | nil => cases h
  | cons e es ih =>
    rw [List.map_cons, List.nodup_cons] at hn
    unfold getIn at h
    split at h
    · rename_i he
      cases h
      have hrest : deleteIn k es = es := by
        apply List.filter_eq_self.mpr
        intro f hf
        simp only [decide_eq_true_eq]
        rintro hk
        exact hn.1 (he ▸ hk ▸ List.mem_map_of_mem (f := Prod.fst) hf)
      unfold deleteIn at hrest ⊢
      rw [List.filter_cons_of_neg (by simp [he]), hrest, List.countP_cons]
    · rename_i he
      have hrest := ih hn.2 h
      unfold deleteIn at hrest ⊢
      rw [List.filter_cons_of_pos (by simp [he]), List.countP_cons, List.countP_cons]
      omega

lemma count_set_new (h : d.get? k = none) : (d.set k v).count p = d.count p + (if p v then 1 else 0) :=
  countP_setIn_new h

lemma count_set_same (h : d.get? k = some u) (hp : p v = p u) : (d.set k v).count p = d.count p :=
  countP_setIn_same h hp

lemma count_delete (h : d.get? k = some u) : (d.delete k).count p + (if p u then 1 else 0) = d.count p :=
  countP_deleteIn d.nodup h

/-- The sum of a measure over the values. -/
def total (f : α → ℕ) : ℕ := (d.entries.map fun e => f e.2).sum

example : ((empty.set 1 2).set 4 5).total id = 7 := by decide +kernel

lemma sum_setIn_new {f : α → ℕ} {es : List (κ × α)} (h : getIn k es = none) :
    ((setIn k v es).map fun e => f e.2).sum = (es.map fun e => f e.2).sum + f v := by
  induction es with
  | nil => simp [setIn]
  | cons e es ih =>
    unfold getIn at h
    split at h
    · cases h
    · rename_i he
      rw [setIn, if_neg he, List.map_cons, List.map_cons, List.sum_cons, List.sum_cons, ih h]
      omega

lemma sum_setIn_same {f : α → ℕ} {es : List (κ × α)} (h : getIn k es = some u) :
    ((setIn k v es).map fun e => f e.2).sum + f u = (es.map fun e => f e.2).sum + f v := by
  induction es with
  | nil => cases h
  | cons e es ih =>
    unfold getIn at h
    split at h
    · rename_i he
      cases h
      rw [setIn, if_pos he, List.map_cons, List.map_cons, List.sum_cons, List.sum_cons]
      simp only
      omega
    · rename_i he
      rw [setIn, if_neg he, List.map_cons, List.map_cons, List.sum_cons, List.sum_cons]
      have := ih h
      omega

lemma sum_deleteIn {f : α → ℕ} {es : List (κ × α)} (hn : (es.map Prod.fst).Nodup) (h : getIn k es = some u) :
    ((deleteIn k es).map fun e => f e.2).sum + f u = (es.map fun e => f e.2).sum := by
  induction es with
  | nil => cases h
  | cons e es ih =>
    rw [List.map_cons, List.nodup_cons] at hn
    unfold getIn at h
    split at h
    · rename_i he
      cases h
      have hrest : deleteIn k es = es := by
        apply List.filter_eq_self.mpr
        intro f hf
        simp only [decide_eq_true_eq]
        rintro hk
        exact hn.1 (he ▸ hk ▸ List.mem_map_of_mem (f := Prod.fst) hf)
      unfold deleteIn at hrest ⊢
      rw [List.filter_cons_of_neg (by simp [he]), hrest, List.map_cons, List.sum_cons]
      omega
    · rename_i he
      have hrest := ih hn.2 h
      unfold deleteIn at hrest ⊢
      rw [List.filter_cons_of_pos (by simp [he]), List.map_cons, List.map_cons, List.sum_cons, List.sum_cons]
      omega

lemma total_set_new {f : α → ℕ} (h : d.get? k = none) : (d.set k v).total f = d.total f + f v := sum_setIn_new h

lemma total_set_same {f : α → ℕ} (h : d.get? k = some u) : (d.set k v).total f + f u = d.total f + f v :=
  sum_setIn_same h

lemma total_delete {f : α → ℕ} (h : d.get? k = some u) : (d.delete k).total f + f u = d.total f :=
  sum_deleteIn d.nodup h

lemma total_set (f : α → ℕ) (k : κ) (v : α) :
    (d.set k v).total f + (d.get? k).elim 0 f = d.total f + f v := by
  cases h : d.get? k with
  | none => exact d.total_set_new h
  | some u => exact d.total_set_same h

omit [DecidableEq κ] in
lemma count_eq_total (p : α → Bool) : d.count p = d.total fun v => if p v then 1 else 0 := by
  unfold count total
  induction d.entries with
  | nil => rfl
  | cons e es ih =>
    rw [List.countP_cons, ih, List.map_cons, List.sum_cons, Nat.add_comm]

lemma count_set (p : α → Bool) (k : κ) (v : α) :
    (d.set k v).count p + (d.get? k).elim 0 (fun u => if p u then 1 else 0) = d.count p + if p v then 1 else 0 := by
  rw [count_eq_total, count_eq_total]
  exact d.total_set _ k v

def keysWhere (p : α → Bool) : List κ := (d.entries.filter fun e => p e.2).map Prod.fst

lemma mem_keysWhere : k ∈ d.keysWhere p ↔ ∃ v, d.get? k = some v ∧ p v = true := by
  simp only [keysWhere, List.mem_map, List.mem_filter, Prod.exists, exists_and_right, exists_eq_right, mem_entries]

omit [DecidableEq κ] in
lemma nodup_keysWhere (p : α → Bool) : (d.keysWhere p).Nodup :=
  d.nodup.sublist (List.filter_sublist.map Prod.fst)

omit [DecidableEq κ] in
lemma length_keysWhere (p : α → Bool) : (d.keysWhere p).length = d.count p := by
  rw [keysWhere, List.length_map, count, List.countP_eq_length_filter]

variable {d} in
lemma count_le {d' : Dict κ α} (h : ∀ k v, d.get? k = some v → p v = true → ∃ v', d'.get? k = some v' ∧ p v' = true) :
    d.count p ≤ d'.count p := by
  rw [← length_keysWhere, ← length_keysWhere]
  refine (List.subperm_of_subset (d.nodup_keysWhere p) fun k hk => ?_).length_le
  obtain ⟨v, hv, hp⟩ := d.mem_keysWhere.mp hk
  exact d'.mem_keysWhere.mpr (h k v hv hp)

variable {d} in
lemma count_lt {d' : Dict κ α} (h : ∀ k v, d.get? k = some v → p v = true → ∃ v', d'.get? k = some v' ∧ p v' = true)
    (hk : d'.get? k = some v) (hp : p v = true) (hnew : d.get? k = none) : d.count p < d'.count p := by
  rw [← length_keysWhere, ← length_keysWhere]
  change (k :: d.keysWhere p).length ≤ _
  refine (List.subperm_of_subset (List.nodup_cons.mpr ⟨fun hm => ?_, d.nodup_keysWhere p⟩) fun j hj => ?_).length_le
  · obtain ⟨u, hu, -⟩ := d.mem_keysWhere.mp hm
    rw [hnew] at hu
    cases hu
  · rcases List.mem_cons.mp hj with rfl | hj
    · exact d'.mem_keysWhere.mpr ⟨v, hk, hp⟩
    · obtain ⟨u, hu, hpu⟩ := d.mem_keysWhere.mp hj
      exact d'.mem_keysWhere.mpr (h j u hu hpu)

lemma count_pos (h : d.get? k = some v) (hp : p v = true) : 0 < d.count p :=
  List.countP_pos_iff.mpr ⟨(k, v), d.mem_entries.mpr h, hp⟩

lemma count_eq_zero (h : d.count p = 0) (hk : d.get? k = some v) : p v = false := by
  cases hp : p v with
  | false => rfl
  | true =>
    have := d.count_pos hk hp
    omega

end Dict

end TinyCloud.Collections
