import TinyCloud.Text.Base64Url
import Mathlib.Data.List.DropRight

/-! Base64 with padding, as `btoa` and `atob` write and read it. A binary string is kept as its bytes. -/

namespace TinyCloud.Text

def standardUnit (n : ℕ) : CodeUnit := if n = 62 then 43 else if n = 63 then 47 else sextetUnit n

def standardSextet (u : CodeUnit) : Option ℕ :=
  if u = 43 then some 62 else if u = 47 then some 63 else if u = 45 ∨ u = 95 then none else unitSextet u

/-- `"=".repeat((4 - n % 4) % 4)` -/
def padding (n : ℕ) : JsString := List.replicate ((4 - n % 4) % 4) 61

def btoa (bytes : Bytes) : JsString :=
  (encodeSextets bytes).map standardUnit ++ padding (encodeSextets bytes).length

def isAsciiSpace (u : CodeUnit) : Bool := u == 9 || u == 10 || u == 12 || u == 13 || u == 32

def dropPadding (s : JsString) : JsString :=
  if s.length % 4 = 0 then
    match s.reverse with
    | 61 :: 61 :: rest => rest.reverse
    | 61 :: rest => rest.reverse
    | _ => s
  else s

def atob (s : JsString) : Option Bytes :=
  let s := dropPadding (s.filter fun u => !isAsciiSpace u)
  if s.length % 4 = 1 then none else (s.mapM standardSextet).map decodeSextets

/-- `+` and `/` become `-` and `_`. -/
def urlUnit (u : CodeUnit) : CodeUnit := if u = 43 then 45 else if u = 47 then 95 else u

def plainUnit (u : CodeUnit) : CodeUnit := if u = 45 then 43 else if u = 95 then 47 else u

lemma standardUnit_spec : ∀ n < 64, standardSextet (standardUnit n) = some n ∧ urlUnit (standardUnit n) = sextetUnit n ∧
    plainUnit (sextetUnit n) = standardUnit n ∧ sextetUnit n ≠ 61 ∧ standardUnit n ≠ 61 ∧
    isAsciiSpace (standardUnit n) = false := by
  decide

lemma length_encodeSextets (bytes : Bytes) : (encodeSextets bytes).length % 4 ≠ 1 := by
  induction bytes using encodeSextets.induct with
  | case1 => simp [encodeSextets]
  | case2 x => simp [encodeSextets]
  | case3 x y => simp [encodeSextets]
  | case4 x y z rest ih =>
    simp only [encodeSextets, List.length_cons]
    omega

lemma mapM_standardSextet {sextets : List ℕ} (h : ∀ n ∈ sextets, n < 64) :
    (sextets.map standardUnit).mapM standardSextet = some sextets := by
  induction sextets with
  | nil => rfl
  | cons n sextets ih =>
    rw [List.map_cons, List.mapM_cons, (standardUnit_spec n (h n (by simp))).1, ih fun m hm => h m (by simp [hm])]
    rfl

/-- The padding that the length calls for is dropped again. -/
lemma dropPadding_padded {s : JsString} (hlen : s.length % 4 ≠ 1) (hs : ∀ u ∈ s, u ≠ 61) :
    dropPadding (s ++ padding s.length) = s := by
  have hlast : ∀ u rest, s.reverse = u :: rest → u ≠ 61 := fun u rest h =>
    hs u (List.mem_reverse.mp (h ▸ List.mem_cons_self))
  unfold dropPadding padding
  rw [List.length_append, List.length_replicate, if_pos (by omega), List.reverse_append, List.reverse_replicate]
  have hcases : (4 - s.length % 4) % 4 = 0 ∨ (4 - s.length % 4) % 4 = 1 ∨ (4 - s.length % 4) % 4 = 2 := by omega
  rcases hcases with h | h | h
  · rw [h]
    simp only [List.replicate_zero, List.nil_append, List.append_nil]
    split
    · rename_i rest hr
      exact absurd rfl (hlast _ _ hr)
    · rename_i rest _ hr
      exact absurd rfl (hlast _ _ hr)
    · rfl
  · rw [h]
    simp only [List.replicate_one, List.singleton_append]
    cases hr : s.reverse with
    | nil => exact (List.reverse_eq_nil_iff.mp hr).symm
    | cons u rest =>
      have hu := hlast u rest hr
      split
      · rename_i heq
        cases heq
        exact absurd rfl hu
      · rename_i heq
        cases heq
        rw [← hr, List.reverse_reverse]
      · rename_i h1 h2
        exact absurd rfl (h2 _)
  · rw [h]
    change List.reverse s.reverse = s
    exact List.reverse_reverse s

lemma filter_standard {sextets : List ℕ} (h : ∀ n ∈ sextets, n < 64) (n : ℕ) :
    (sextets.map standardUnit ++ padding n).filter (fun u => !isAsciiSpace u) = sextets.map standardUnit ++ padding n := by
  apply List.filter_eq_self.mpr
  intro u hu
  rcases List.mem_append.mp hu with hu | hu
  · obtain ⟨m, hm, rfl⟩ := List.mem_map.mp hu
    rw [(standardUnit_spec m (h m hm)).2.2.2.2.2]
    rfl
  · obtain rfl := List.eq_of_mem_replicate hu
    rfl

lemma urlUnit_padding (n : ℕ) : (padding n).map urlUnit = padding n := by
  unfold padding
  rw [List.map_replicate]
  rfl

/-- What `btoa` wrote, in the url alphabet and without its padding. -/
theorem url_btoa (bytes : Bytes) :
    ((btoa bytes).map urlUnit).rdropWhile (· == 61) = (encodeSextets bytes).map sextetUnit := by
  have hunits : ((encodeSextets bytes).map standardUnit).map urlUnit = (encodeSextets bytes).map sextetUnit := by
    rw [List.map_map]
    exact List.map_congr_left fun n hn => (standardUnit_spec n (encodeSextets_lt bytes n hn)).2.1
  rw [btoa, List.map_append, hunits, urlUnit_padding, padding]
  generalize (4 - (encodeSextets bytes).length % 4) % 4 = k
  induction k with
  | zero =>
    rw [List.replicate_zero, List.append_nil, List.rdropWhile_eq_self_iff]
    intro hne heq
    obtain ⟨n, hn, hlast⟩ := List.mem_map.mp (List.getLast_mem hne)
    rw [beq_iff_eq] at heq
    exact (standardUnit_spec n (encodeSextets_lt bytes n hn)).2.2.2.1 (hlast.trans heq)
  | succ k ih => rw [List.replicate_succ', ← List.append_assoc, List.rdropWhile_concat_pos _ _ _ (by decide), ih]

/-- The url form of some bytes, in the standard alphabet and padded again, reads as these bytes. -/
theorem atob_url (bytes : Bytes) (encoded : JsString)
    (h : encoded = ((encodeSextets bytes).map sextetUnit).map plainUnit) :
    atob (encoded ++ padding encoded.length) = some bytes := by
  have hlt := encodeSextets_lt bytes
  have hunits : encoded = (encodeSextets bytes).map standardUnit := by
    rw [h, List.map_map]
    exact List.map_congr_left fun n hn => (standardUnit_spec n (hlt n hn)).2.2.1
  have hlen : encoded.length % 4 ≠ 1 := by
    rw [hunits, List.length_map]
    exact length_encodeSextets bytes
  have hplain : ∀ u ∈ encoded, u ≠ 61 := by
    intro u hu
    rw [hunits] at hu
    obtain ⟨n, hn, rfl⟩ := List.mem_map.mp hu
    exact (standardUnit_spec n (hlt n hn)).2.2.2.2.1
  have hfilter : (encoded ++ padding encoded.length).filter (fun u => !isAsciiSpace u) = encoded ++ padding encoded.length := by
    rw [hunits]
    exact filter_standard hlt _
  simp only [atob, hfilter, dropPadding_padded hlen hplain, if_neg hlen]
  rw [hunits, mapM_standardSextet hlt, Option.map_some, decodeSextets_encodeSextets]

end TinyCloud.Text
