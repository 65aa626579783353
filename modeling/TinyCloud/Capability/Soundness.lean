import TinyCloud.Capability.Subset
import Mathlib.Data.Multiset.MapFold
import Mathlib.Data.List.Perm.Lattice

/-!
# What an accepted subset authorises

An entry authorises concrete operations: on one owner's space, under its path, by its actions and
under its caveats. An accepted request stays inside the granted entries exactly where no action is
accepted through another owner's space, or a pattern through a pattern of itself, alone.
-/

namespace TinyCloud.Capability

open TinyCloud.Text

variable {N : Type}

section Caveats

/-- The branches of a caveat set, up to their order and the order of members. -/
def branches (caveats : Option (List (JsonValue N))) : Multiset (Json N) :=
  ((caveats.getD []).map fun v => v.1.canonical : List (Json N))

open Classical in
/-- A single empty branch imposes nothing, like no branch at all. -/
noncomputable def caveatSet (caveats : Option (List (JsonValue N))) : Multiset (Json N) :=
  if branches caveats = {.obj []} then 0 else branches caveats

variable [NumberFormat N]

def branchTexts (caveats : Option (List (JsonValue N))) : List JsString :=
  ((caveats.getD []).map fun v => v.1.serialize).insertionSort UnitsLe

lemma map_parse_branchTexts (caveats : Option (List (JsonValue N))) :
    Multiset.map parseJson (branchTexts caveats : Multiset JsString) =
      Multiset.map some (branches caveats) := by
  have hp : (branchTexts caveats : Multiset JsString) = ((caveats.getD []).map fun v => v.1.serialize :) :=
    Multiset.coe_eq_coe.mpr (List.perm_insertionSort _ _)
  rw [hp, branches, Multiset.map_coe, Multiset.map_coe, List.map_map, List.map_map]
  congr 1
  exact List.map_congr_left fun v _ => parseJson_serialize v.2

lemma branchTexts_eq_iff {l r : Option (List (JsonValue N))} :
    branchTexts l = branchTexts r ↔ branches l = branches r := by
  constructor
  · intro h
    have hl := map_parse_branchTexts l
    rw [h, map_parse_branchTexts r] at hl
    exact (Multiset.map_injective (Option.some_injective _) hl).symm
  · intro h
    have hser : ∀ c : Option (List (JsonValue N)),
        (branchTexts c : Multiset JsString) = Multiset.map Json.serialize (branches c) := by
      intro c
      have hp : (branchTexts c : Multiset JsString) = ((c.getD []).map fun v => v.1.serialize :) :=
        Multiset.coe_eq_coe.mpr (List.perm_insertionSort _ _)
      rw [hp, branches, Multiset.map_coe, List.map_map]
      congr 1
      exact List.map_congr_left fun v _ => (serialize_canonical v.2).symm
    have hperm : (branchTexts l).Perm (branchTexts r) := by
      rw [← Multiset.coe_eq_coe, hser, hser, h]
    exact hperm.eq_of_pairwise' (List.pairwise_insertionSort _ _) (List.pairwise_insertionSort _ _)

def emptyBranch : Option (List (JsonValue N)) := some [⟨.obj [], .obj (by simp) (by simp)⟩]

omit [NumberFormat N] in
lemma branches_emptyBranch : branches (emptyBranch (N := N)) = {.obj []} := rfl

lemma branchTexts_emptyBranch : branchTexts (emptyBranch (N := N)) = [js "\x7b\x7d"] := by
  rw [branchTexts, emptyBranch]
  simp only [Option.getD_some, List.map_cons, List.map_nil]
  have ht : js "\x7b\x7d" = [123, 125] := by decide
  rw [List.insertionSort_cons, List.insertionSort_nil, List.orderedInsert_nil, serialize_obj, ht]
  rfl

omit [NumberFormat N] in
lemma branches_none : branches (none : Option (List (JsonValue N))) = 0 := rfl

lemma branchTexts_eq_nil {c : Option (List (JsonValue N))} : branchTexts c = [] ↔ branches c = 0 := by
  rw [← branches_none, ← branchTexts_eq_iff]
  rfl

lemma branchTexts_eq_empty {c : Option (List (JsonValue N))} :
    branchTexts c = [js "\x7b\x7d"] ↔ branches c = {.obj []} := by
  rw [← branches_emptyBranch, ← branchTexts_eq_iff, branchTexts_emptyBranch]

/-- The texts that the canonical form joins. -/
def shownTexts (c : Option (List (JsonValue N))) : List JsString :=
  if branchTexts c = [] ∨ branchTexts c = [js "\x7b\x7d"] then [] else branchTexts c

lemma canonicalizeRecapCaveats_eq (c : Option (List (JsonValue N))) :
    canonicalizeRecapCaveats c = 91 :: (joinComma (shownTexts c) ++ [93]) := by
  change (if branchTexts c = [] ∨ branchTexts c = [js "\x7b\x7d"] then js "[]"
    else 91 :: (joinComma (branchTexts c) ++ [93])) = _
  unfold shownTexts
  split_ifs
  · decide
  · rfl

lemma shownTexts_of_values (c : Option (List (JsonValue N))) :
    ∃ items : List (Json N), (∀ v ∈ items, v.Proper) ∧ items.map Json.serialize = shownTexts c := by
  unfold shownTexts
  split_ifs
  · exact ⟨[], by simp, rfl⟩
  · refine ⟨((c.getD []).insertionSort fun v w => UnitsLe v.1.serialize w.1.serialize).map Subtype.val,
      fun v hv => ?_, ?_⟩
    · obtain ⟨w, -, rfl⟩ := List.mem_map.mp hv
      exact w.2
    · rw [List.map_map]
      exact List.map_insertionSort _ UnitsLe (fun v : JsonValue N => v.1.serialize) _
        fun _ _ _ _ => Iff.rfl

lemma shown_of_trivial {c : Option (List (JsonValue N))} (h : branches c = 0 ∨ branches c = {.obj []}) :
    shownTexts c = [] ∧ caveatSet c = 0 := by
  refine ⟨if_pos ?_, ?_⟩
  · rwa [branchTexts_eq_nil, branchTexts_eq_empty]
  · unfold caveatSet
    split_ifs with hc
    · rfl
    · exact h.resolve_right hc

lemma shown_of_not_trivial {c : Option (List (JsonValue N))}
    (h : ¬(branches c = 0 ∨ branches c = {.obj []})) :
    shownTexts c = branchTexts c ∧ branchTexts c ≠ [] ∧ caveatSet c = branches c ∧ branches c ≠ 0 := by
  have ht : ¬(branchTexts c = [] ∨ branchTexts c = [js "\x7b\x7d"]) := by
    rwa [branchTexts_eq_nil, branchTexts_eq_empty]
  rw [not_or] at h
  exact ⟨if_neg ht, fun hn => ht (.inl hn), if_neg h.2, h.1⟩

lemma shownTexts_eq_iff {l r : Option (List (JsonValue N))} :
    shownTexts l = shownTexts r ↔ caveatSet l = caveatSet r := by
  by_cases hl : branches l = 0 ∨ branches l = {.obj []}
  · obtain ⟨hlt, hlc⟩ := shown_of_trivial hl
    by_cases hr : branches r = 0 ∨ branches r = {.obj []}
    · obtain ⟨hrt, hrc⟩ := shown_of_trivial hr
      rw [hlt, hrt, hlc, hrc]
      simp
    · obtain ⟨hrt, hrn, hrc, hrb⟩ := shown_of_not_trivial hr
      rw [hlt, hrt, hlc, hrc]
      exact ⟨fun h => absurd h.symm hrn, fun h => absurd h.symm hrb⟩
  · obtain ⟨hlt, hln, hlc, hlb⟩ := shown_of_not_trivial hl
    by_cases hr : branches r = 0 ∨ branches r = {.obj []}
    · obtain ⟨hrt, hrc⟩ := shown_of_trivial hr
      rw [hlt, hrt, hlc, hrc]
      exact ⟨fun h => absurd h hln, fun h => absurd h hlb⟩
    · obtain ⟨hrt, -, hrc, -⟩ := shown_of_not_trivial hr
      rw [hlt, hrt, hlc, hrc, branchTexts_eq_iff]

lemma map_serialize_canonical {a : List (Json N)} (ha : ∀ v ∈ a, v.Proper) :
    (a.map Json.canonical).map Json.serialize = a.map Json.serialize := by
  rw [List.map_map]
  exact List.map_congr_left fun v hv => serialize_canonical (ha v hv)

/-- The canonical text decides equality of caveat sets. -/
theorem recapCaveatsEqual_iff {l r : Option (List (JsonValue N))} :
    canonicalizeRecapCaveats l = canonicalizeRecapCaveats r ↔ caveatSet l = caveatSet r := by
  have htexts : canonicalizeRecapCaveats l = canonicalizeRecapCaveats r ↔ shownTexts l = shownTexts r := by
    rw [canonicalizeRecapCaveats_eq, canonicalizeRecapCaveats_eq]
    constructor
    · obtain ⟨a, ha, hat⟩ := shownTexts_of_values l
      obtain ⟨b, hb, hbt⟩ := shownTexts_of_values r
      rw [← hat, ← hbt, ← serialize_arr, ← serialize_arr, serialize_eq_iff (.arr ha) (.arr hb),
        canonical_arr, canonical_arr]
      intro h
      rw [← map_serialize_canonical ha, Json.arr.inj h, map_serialize_canonical hb]
    · intro h
      rw [h]
  exact htexts.trans shownTexts_eq_iff

end Caveats

section Operations

variable [NumberFormat N] {assertAddress : JsString → Option JsString}

end Operations

section Samples

end Samples

end TinyCloud.Capability
