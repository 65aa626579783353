import TinyCloud.Text.Utf
import Mathlib.Data.List.Lex

/-! The order of strings by their UTF-8 bytes. It is a linear order of the encodings; a string comes before what it begins. -/

namespace TinyCloud.Text

def compareBytes : Bytes → Bytes → ℤ
  | x :: a, y :: b => if x = y then compareBytes a b else (x.toNat : ℤ) - y.toNat
  | a, b => (a.length : ℤ) - b.length

def utf8Compare (a b : JsString) : ℤ := compareBytes (textEncode a) (textEncode b)

/-- The values of the bytes of a string. -/
def byteValues (s : JsString) : List ℕ := (textEncode s).map UInt8.toNat

lemma compareBytes_neg (a b : Bytes) : compareBytes a b < 0 ↔ a.map UInt8.toNat < b.map UInt8.toNat := by
  induction a generalizing b with
  | nil =>
    cases b with
    | nil => simp [compareBytes]
    | cons y b =>
      simp only [compareBytes, List.length_nil, List.length_cons, List.map_nil, List.map_cons, List.nil_lt_cons, iff_true]
      omega
  | cons x a ih =>
    cases b with
    | nil =>
      have hnot : ¬(x :: a).map UInt8.toNat < [] := List.not_lt_nil _
      simp only [compareBytes, List.length_cons, List.length_nil, List.map_nil, hnot, iff_false]
      omega
    | cons y b =>
      rw [compareBytes, List.map_cons, List.map_cons, List.cons_lt_cons_iff]
      split_ifs with h
      · rw [ih, h]
        simp
      · have hne : x.toNat ≠ y.toNat := fun heq => h (UInt8.toNat_inj.mp heq)
        simp only [hne, false_and, or_false]
        omega

lemma compareBytes_swap (a b : Bytes) : compareBytes b a = -compareBytes a b := by
  induction a generalizing b with
  | nil => cases b <;> simp [compareBytes]
  | cons x a ih =>
    cases b with
    | nil => simp [compareBytes]
    | cons y b =>
      rw [compareBytes, compareBytes, ih]
      by_cases h : x = y
      · rw [if_pos h, if_pos h.symm]
      · rw [if_neg h, if_neg fun heq => h heq.symm]
        omega

lemma utf8Compare_neg (a b : JsString) : utf8Compare a b < 0 ↔ byteValues a < byteValues b := compareBytes_neg _ _

lemma utf8Compare_pos (a b : JsString) : 0 < utf8Compare a b ↔ byteValues b < byteValues a := by
  have hswap : utf8Compare a b = -utf8Compare b a := compareBytes_swap _ _
  rw [← utf8Compare_neg, hswap]
  omega

lemma utf8Compare_nonpos (a b : JsString) : utf8Compare a b ≤ 0 ↔ byteValues a ≤ byteValues b := by
  rw [← not_lt, utf8Compare_pos, not_lt]

lemma byteValues_inj {a b : JsString} : byteValues a = byteValues b ↔ textEncode a = textEncode b :=
  (List.map_injective_iff.mpr fun _ _ h => UInt8.toNat_inj.mp h).eq_iff

/-- The replacement of an unpaired surrogate comes before every pair. -/
lemma replacement_lt_pair {u v : CodeUnit} (hu : highSurrogate u = true) (hv : lowSurrogate v = true) (t : List ℕ) :
    (pointBytes (singlePoint u)).map UInt8.toNat < (pointBytes (surrogatePair u v)).map UInt8.toNat ++ t := by
  have hsingle : singlePoint u = 0xFFFD := by simp [singlePoint, hu]
  have hscalar := (pointUnits_pair hu hv).1
  have hlarge : 0x10000 ≤ surrogatePair u v := by
    unfold surrogatePair
    omega
  have hlead : (UInt8.ofNat (0xF0 + surrogatePair u v / 0x40000)).toNat = 0xF0 + surrogatePair u v / 0x40000 := by
    apply byte_toNat
    unfold IsScalar at hscalar
    omega
  have hfirst : (UInt8.ofNat (0xE0 + 0xFFFD / 0x1000)).toNat = 0xEF := by decide
  rw [hsingle, pointBytes, pointBytes, if_neg (by omega), if_neg (by omega), if_pos (by omega), if_neg (by omega),
    if_neg (by omega), if_neg (by omega)]
  simp only [List.map_cons, List.cons_append, List.cons_lt_cons_iff, hfirst, hlead]
  left
  omega

lemma append_le_append {s t : List ℕ} (r : List ℕ) (h : s ≤ t) : r ++ s ≤ r ++ t := by
  rcases h.lt_or_eq with h | rfl
  · exact (List.append_left_lt h).le
  · exact le_rfl

lemma le_of_prefix {s t : List ℕ} (h : s <+: t) : s ≤ t := not_lt.mp (List.IsPrefix.le h)

/-- A string comes before every string that it begins. -/
theorem byteValues_of_prefix_le {p k : JsString} (h : p <+: k) : byteValues p ≤ byteValues k := by
  obtain ⟨x, rfl⟩ := h
  unfold byteValues
  induction p using textEncode.induct with
  | case1 => exact le_of_prefix List.nil_prefix
  | case2 u =>
    cases x with
    | nil => exact le_rfl
    | cons v x =>
      rw [List.singleton_append, textEncode, textEncode]
      split_ifs with hpair
      · rw [Bool.and_eq_true] at hpair
        rw [List.map_append]
        exact (replacement_lt_pair hpair.1 hpair.2 _).le
      · rw [List.map_append]
        exact le_of_prefix (List.prefix_append _ _)
  | case3 u v rest hpair ih =>
    rw [List.cons_append, List.cons_append, textEncode, textEncode, if_pos hpair, if_pos hpair, List.map_append,
      List.map_append]
    exact append_le_append _ ih
  | case4 u v rest hpair ih =>
    rw [List.cons_append] at ih
    rw [List.cons_append, List.cons_append, textEncode, textEncode, if_neg hpair, if_neg hpair, List.map_append,
      List.map_append]
    exact append_le_append _ ih

end TinyCloud.Text
