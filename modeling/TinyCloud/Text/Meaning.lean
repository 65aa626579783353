import TinyCloud.Text.Canonical
import Mathlib.Data.List.Perm.Subperm

/-! What a JSON value means: the order in which an object lists its members is left out. -/

namespace TinyCloud.Text

variable {N : Type}

mutual
def Json.Same : Json N → Json N → Prop
  | .null, .null => True
  | .bool a, .bool b => a = b
  | .num a, .num b => a = b
  | .str a, .str b => a = b
  | .arr l, .arr r => Json.SameItems l r
  | .obj l, .obj r => l.length = r.length ∧ Json.SameMembers l r
  | _, _ => False
def Json.SameItems : List (Json N) → List (Json N) → Prop
  | [], [] => True
  | v :: l, w :: r => v.Same w ∧ Json.SameItems l r
  | _, _ => False
/-- Every member on the left stands on the right under the same name. -/
def Json.SameMembers : List (JsString × Json N) → List (JsString × Json N) → Prop
  | [], _ => True
  | (k, v) :: l, r => (∃ w, r.lookup k = some w ∧ v.Same w) ∧ Json.SameMembers l r
end

lemma sameItems_iff {l r : List (Json N)} (h : ∀ v ∈ l, ∀ w ∈ r, v.Same w ↔ v.canonical = w.canonical) :
    Json.SameItems l r ↔ l.map Json.canonical = r.map Json.canonical := by
  induction l generalizing r with
  | nil => cases r <;> simp [Json.SameItems]
  | cons v l ih =>
    cases r with
    | nil => simp [Json.SameItems]
    | cons w r =>
      rw [Json.SameItems, List.map_cons, List.map_cons, List.cons.injEq, h v List.mem_cons_self w List.mem_cons_self,
        ih fun a ha b hb => h a (List.mem_cons_of_mem _ ha) b (List.mem_cons_of_mem _ hb)]

lemma sameMembers_iff {l r : List (JsString × Json N)} :
    Json.SameMembers l r ↔ ∀ m ∈ l, ∃ w, r.lookup m.1 = some w ∧ m.2.Same w := by
  induction l with
  | nil => simp [Json.SameMembers]
  | cons m l ih =>
    obtain ⟨k, v⟩ := m
    rw [Json.SameMembers, ih, List.forall_mem_cons]

/-- As many members, each found on the other side with the same value, sort into the same list. -/
lemma sorted_eq_of_same {l r : List (JsString × Json N)} (hl : (l.map Prod.fst).Nodup) (hr : (r.map Prod.fst).Nodup)
    (hlen : l.length = r.length)
    (h : ∀ m ∈ l, ∃ w, r.lookup m.1 = some w ∧ m.2.canonical = w.canonical) :
    (l.insertionSort KeyLe).map (fun m => (m.1, m.2.canonical)) =
      (r.insertionSort KeyLe).map (fun m => (m.1, m.2.canonical)) := by
  have hsub : l.map Prod.fst ⊆ r.map Prod.fst := by
    intro k hk
    obtain ⟨m, hm, rfl⟩ := List.mem_map.mp hk
    obtain ⟨w, hw, -⟩ := h m hm
    exact List.mem_map.mpr ⟨_, mem_of_lookup hw, rfl⟩
  have hkeys : (l.map Prod.fst).Perm (r.map Prod.fst) :=
    (hl.subperm hsub).perm_of_length_le (by simp [hlen])
  have hsorted : ∀ members : List (JsString × Json N),
      ((members.insertionSort KeyLe).map fun m => (m.1, m.2.canonical)).Pairwise KeyLe := fun members => by
    rw [List.pairwise_map]
    exact List.pairwise_insertionSort KeyLe members
  have hnames : ∀ members : List (JsString × Json N),
      (((members.insertionSort KeyLe).map fun m => (m.1, m.2.canonical)).map Prod.fst).Perm (members.map Prod.fst) :=
    fun members => by
      rw [keys_mapValues]
      exact keys_sorted.map Prod.fst
  refine (eq_of_lookups ((hnames r).nodup_iff.mpr hr) ((hnames l).nodup_iff.mpr hl) (hsorted r) (hsorted l) ?_ ?_).symm
  · intro m hm
    have hname := (hnames r).mem_iff.mp (List.mem_map_of_mem hm)
    exact (hnames l).mem_iff.mpr (hkeys.mem_iff.mpr hname)
  · intro m hm
    obtain ⟨e, he, rfl⟩ := List.mem_map.mp hm
    obtain ⟨w, hw, hsame⟩ := h e (keys_sorted.mem_iff.mp he)
    rw [lookup_canonical hr, hw, Option.map_some, hsame]

/-- Two values mean the same exactly if they agree once their members are sorted. -/
theorem same_iff {v w : Json N} (hv : v.Proper) (hw : w.Proper) : v.Same w ↔ v.canonical = w.canonical := by
  induction hv generalizing w with
  | null => cases hw <;> simp [Json.Same, Json.canonical]
  | bool b => cases hw <;> simp [Json.Same, Json.canonical]
  | num n => cases hw <;> simp [Json.Same, Json.canonical]
  | str s => cases hw <;> simp [Json.Same, Json.canonical]
  | @arr items _ ih =>
    cases hw with
    | arr hitems =>
      rw [Json.Same, canonical_arr, canonical_arr, Json.arr.injEq]
      exact sameItems_iff fun a ha b hb => ih a ha (hitems b hb)
    | null | bool | num | str | obj => simp [Json.Same, Json.canonical]
  | @obj l hl _ ih =>
    cases hw with
    | @obj r hr hmembers =>
      rw [Json.Same, canonical_obj, canonical_obj, Json.obj.injEq, sameMembers_iff]
      constructor
      · rintro ⟨hlen, h⟩
        apply sorted_eq_of_same hl hr hlen
        intro m hm
        obtain ⟨w, hw, hsame⟩ := h m hm
        exact ⟨w, hw, (ih m hm (hmembers _ (mem_of_lookup hw))).mp hsame⟩
      · intro h
        have hlen := congrArg List.length h
        simp only [List.length_map, List.length_insertionSort] at hlen
        refine ⟨hlen, fun m hm => ?_⟩
        have hlookup := lookup_canonical hl m.1
        rw [h, lookup_canonical hr, lookup_of_mem hl hm] at hlookup
        obtain ⟨w, hw, hsame⟩ := Option.map_eq_some_iff.mp hlookup
        exact ⟨w, hw, (ih m hm (hmembers _ (mem_of_lookup hw))).mpr hsame.symm⟩
    | null | bool | num | str | arr => simp [Json.Same, Json.canonical]

end TinyCloud.Text
