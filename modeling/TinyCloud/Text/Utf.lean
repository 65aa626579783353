import Mathlib.Data.List.Basic
import Mathlib.Tactic.NormNum

/-!
# Strings of UTF-16 code units and their UTF-8 bytes

A string of the modelled language is the list of its UTF-16 code units. The encoder writes UTF-8
and replaces an unpaired surrogate; the decoder drops one leading byte order mark and refuses
anything that is not UTF-8.
-/

namespace TinyCloud.Text

abbrev CodeUnit := UInt16
abbrev JsString := List CodeUnit
abbrev Bytes := List UInt8

instance : LawfulBEq JsString := List.instLawfulBEq

-- Over a text, not over all code units.
instance (priority := high) decidableUnits {p : CodeUnit → Prop} [DecidablePred p] (s : JsString) :
    Decidable (∀ u ∈ s, p u) :=
  List.decidableBAll p s

def highSurrogate (u : CodeUnit) : Bool := decide (0xD800 ≤ u.toNat ∧ u.toNat ≤ 0xDBFF)
def lowSurrogate (u : CodeUnit) : Bool := decide (0xDC00 ≤ u.toNat ∧ u.toNat ≤ 0xDFFF)

/-- The code points that UTF-8 can write. -/
def IsScalar (p : ℕ) : Prop := p < 0xD800 ∨ (0xE000 ≤ p ∧ p < 0x110000)

def pointUnits (p : ℕ) : JsString :=
  if p < 0x10000 then [UInt16.ofNat p]
  else [UInt16.ofNat (0xD800 + (p - 0x10000) / 0x400), UInt16.ofNat (0xDC00 + (p - 0x10000) % 0x400)]

def js (s : String) : JsString := s.toList.flatMap fun c => pointUnits c.toNat

def pointBytes (p : ℕ) : Bytes :=
  if p < 0x80 then [UInt8.ofNat p]
  else if p < 0x800 then [UInt8.ofNat (0xC0 + p / 0x40), UInt8.ofNat (0x80 + p % 0x40)]
  else if p < 0x10000 then
    [UInt8.ofNat (0xE0 + p / 0x1000), UInt8.ofNat (0x80 + p / 0x40 % 0x40),
      UInt8.ofNat (0x80 + p % 0x40)]
  else
    [UInt8.ofNat (0xF0 + p / 0x40000), UInt8.ofNat (0x80 + p / 0x1000 % 0x40),
      UInt8.ofNat (0x80 + p / 0x40 % 0x40), UInt8.ofNat (0x80 + p % 0x40)]

def surrogatePair (u v : CodeUnit) : ℕ :=
  0x10000 + (u.toNat - 0xD800) * 0x400 + (v.toNat - 0xDC00)

def singlePoint (u : CodeUnit) : ℕ :=
  if highSurrogate u || lowSurrogate u then 0xFFFD else u.toNat

/-- No code unit is an unpaired surrogate. -/
def isUnicodeScalarString : JsString → Bool
  | [] => true
  | [u] => !highSurrogate u && !lowSurrogate u
  | u :: v :: rest =>
    if highSurrogate u then lowSurrogate v && isUnicodeScalarString rest
    else !lowSurrogate u && isUnicodeScalarString (v :: rest)

def textEncode : JsString → Bytes
  | [] => []
  | [u] => pointBytes (singlePoint u)
  | u :: v :: rest =>
    if highSurrogate u && lowSurrogate v then pointBytes (surrogatePair u v) ++ textEncode rest
    else pointBytes (singlePoint u) ++ textEncode (v :: rest)

def isTail (b : UInt8) : Bool := decide (0x80 ≤ b.toNat ∧ b.toNat ≤ 0xBF)

/-- The code point at the head of the bytes; overlong forms and surrogates are refused. -/
def nextPoint : Bytes → Option (ℕ × Bytes)
  | [] => none
  | a :: s =>
    if a.toNat < 0x80 then some (a.toNat, s)
    else if 0xC2 ≤ a.toNat ∧ a.toNat ≤ 0xDF then
      match s with
      | b :: s => if isTail b then some ((a.toNat - 0xC0) * 0x40 + (b.toNat - 0x80), s) else none
      | _ => none
    else if 0xE0 ≤ a.toNat ∧ a.toNat ≤ 0xEF then
      match s with
      | b :: c :: s =>
        let p := (a.toNat - 0xE0) * 0x1000 + (b.toNat - 0x80) * 0x40 + (c.toNat - 0x80)
        if isTail b && isTail c && decide (0x800 ≤ p ∧ (p < 0xD800 ∨ 0xE000 ≤ p)) then some (p, s)
        else none
      | _ => none
    else if 0xF0 ≤ a.toNat ∧ a.toNat ≤ 0xF4 then
      match s with
      | b :: c :: d :: s =>
        let p := (a.toNat - 0xF0) * 0x40000 + (b.toNat - 0x80) * 0x1000 + (c.toNat - 0x80) * 0x40 +
          (d.toNat - 0x80)
        if isTail b && isTail c && isTail d && decide (0x10000 ≤ p ∧ p < 0x110000) then some (p, s)
        else none
      | _ => none
    else none

def decodeUtf8 : ℕ → Bytes → Option JsString
  | _, [] => some []
  | 0, _ :: _ => none
  | fuel + 1, b :: s => do
    let (p, rest) ← nextPoint (b :: s)
    let units ← decodeUtf8 fuel rest
    some (pointUnits p ++ units)

def byteOrderMark : Bytes := [0xEF, 0xBB, 0xBF]

def stripByteOrderMark (bytes : Bytes) : Bytes :=
  if byteOrderMark.isPrefixOf bytes then bytes.drop 3 else bytes

/-- `new TextDecoder("utf-8", { fatal: true }).decode(bytes)` -/
def textDecode (bytes : Bytes) : Option JsString :=
  decodeUtf8 (stripByteOrderMark bytes).length (stripByteOrderMark bytes)

lemma byte_toNat {n : ℕ} (h : n < 256) : (UInt8.ofNat n).toNat = n := by
  rw [UInt8.toNat_ofNat']
  omega

lemma unit_toNat {n : ℕ} (h : n < 65536) : (UInt16.ofNat n).toNat = n := by
  rw [UInt16.toNat_ofNat']
  omega

lemma nextPoint_pointBytes {p : ℕ} (hp : IsScalar p) (s : Bytes) :
    nextPoint (pointBytes p ++ s) = some (p, s) := by
  unfold IsScalar at hp
  unfold pointBytes
  split_ifs with h1 h2 h3
  · simp only [List.singleton_append, nextPoint]
    rw [byte_toNat (by omega), if_pos h1]
  · have ha : (UInt8.ofNat (0xC0 + p / 0x40)).toNat = 0xC0 + p / 0x40 := byte_toNat (by omega)
    have hb : (UInt8.ofNat (0x80 + p % 0x40)).toNat = 0x80 + p % 0x40 := byte_toNat (by omega)
    simp only [List.cons_append, List.nil_append, nextPoint, isTail, ha, hb]
    rw [if_neg (by omega), if_pos (by omega), if_pos (by simp; omega)]
    simp only [Option.some.injEq, Prod.mk.injEq, and_true]
    omega
  · have ha : (UInt8.ofNat (0xE0 + p / 0x1000)).toNat = 0xE0 + p / 0x1000 := byte_toNat (by omega)
    have hb : (UInt8.ofNat (0x80 + p / 0x40 % 0x40)).toNat = 0x80 + p / 0x40 % 0x40 :=
      byte_toNat (by omega)
    have hc : (UInt8.ofNat (0x80 + p % 0x40)).toNat = 0x80 + p % 0x40 := byte_toNat (by omega)
    simp only [List.cons_append, List.nil_append, nextPoint, isTail, ha, hb, hc]
    rw [if_neg (by omega), if_neg (by omega), if_pos (by omega), if_pos (by simp; omega)]
    simp only [Option.some.injEq, Prod.mk.injEq, and_true]
    omega
  · have ha : (UInt8.ofNat (0xF0 + p / 0x40000)).toNat = 0xF0 + p / 0x40000 := byte_toNat (by omega)
    have hb : (UInt8.ofNat (0x80 + p / 0x1000 % 0x40)).toNat = 0x80 + p / 0x1000 % 0x40 :=
      byte_toNat (by omega)
    have hc : (UInt8.ofNat (0x80 + p / 0x40 % 0x40)).toNat = 0x80 + p / 0x40 % 0x40 :=
      byte_toNat (by omega)
    have hd : (UInt8.ofNat (0x80 + p % 0x40)).toNat = 0x80 + p % 0x40 := byte_toNat (by omega)
    simp only [List.cons_append, List.nil_append, nextPoint, isTail, ha, hb, hc, hd]
    rw [if_neg (by omega), if_neg (by omega), if_neg (by omega), if_pos (by omega),
      if_pos (by simp; omega)]
    simp only [Option.some.injEq, Prod.mk.injEq, and_true]
    omega

lemma byte_eq {b : UInt8} {n : ℕ} (h : b.toNat = n) : b = UInt8.ofNat n := by
  rw [← h, UInt8.ofNat_toNat]

/-- A decoded code point is a scalar, and the bytes it was read from are the ones that write it. -/
lemma eq_of_nextPoint {s r : Bytes} {p : ℕ} (h : nextPoint s = some (p, r)) :
    IsScalar p ∧ s = pointBytes p ++ r := by
  cases s with
  | nil => simp [nextPoint] at h
  | cons a s =>
    have hlt := a.toNat_lt
    simp only [nextPoint] at h
    split_ifs at h with h1 h2 h3 h4
    · obtain ⟨rfl, rfl⟩ : a.toNat = p ∧ s = r := by simpa using h
      refine ⟨.inl (by omega), ?_⟩
      simp [pointBytes, h1]
    · rcases s with _ | ⟨b, s⟩
      · simp at h
      · simp only [isTail, decide_eq_true_eq] at h
        split_ifs at h with hb
        obtain ⟨rfl, rfl⟩ : (a.toNat - 0xC0) * 0x40 + (b.toNat - 0x80) = p ∧ s = r := by simpa using h
        refine ⟨.inl (by omega), ?_⟩
        rw [pointBytes, if_neg (by omega), if_pos (by omega)]
        simp only [List.cons_append, List.nil_append, List.cons.injEq, and_true]
        exact ⟨byte_eq (by omega), byte_eq (by omega)⟩
    · rcases s with _ | ⟨b, _ | ⟨c, s⟩⟩
      · simp at h
      · simp at h
      · simp only [isTail, Bool.and_eq_true, decide_eq_true_eq] at h
        split_ifs at h with hb
        obtain ⟨hp, rfl⟩ : (a.toNat - 0xE0) * 0x1000 + (b.toNat - 0x80) * 0x40 + (c.toNat - 0x80) = p ∧
          s = r := by simpa using h
        refine ⟨?_, ?_⟩
        · unfold IsScalar
          omega
        rw [pointBytes, if_neg (by omega), if_neg (by omega), if_pos (by omega)]
        simp only [List.cons_append, List.nil_append, List.cons.injEq, and_true]
        exact ⟨byte_eq (by omega), byte_eq (by omega), byte_eq (by omega)⟩
    · rcases s with _ | ⟨b, _ | ⟨c, _ | ⟨d, s⟩⟩⟩
      · simp at h
      · simp at h
      · simp at h
      · simp only [isTail, Bool.and_eq_true, decide_eq_true_eq] at h
        split_ifs at h with hb
        obtain ⟨hp, rfl⟩ : (a.toNat - 0xF0) * 0x40000 + (b.toNat - 0x80) * 0x1000 +
            (c.toNat - 0x80) * 0x40 + (d.toNat - 0x80) = p ∧ s = r := by simpa using h
        refine ⟨?_, ?_⟩
        · unfold IsScalar
          omega
        rw [pointBytes, if_neg (by omega), if_neg (by omega), if_neg (by omega)]
        simp only [List.cons_append, List.nil_append, List.cons.injEq, and_true]
        exact ⟨byte_eq (by omega), byte_eq (by omega), byte_eq (by omega), byte_eq (by omega)⟩

lemma pointBytes_ne_nil (p : ℕ) : pointBytes p ≠ [] := by
  unfold pointBytes
  split_ifs <;> simp

lemma decodeUtf8_point {p fuel : ℕ} (hp : IsScalar p) (s : Bytes) :
    decodeUtf8 (fuel + 1) (pointBytes p ++ s) = (decodeUtf8 fuel s).map (pointUnits p ++ ·) := by
  have hn := nextPoint_pointBytes hp s
  obtain ⟨b, r, hb⟩ : ∃ b r, pointBytes p ++ s = b :: r :=
    List.exists_cons_of_ne_nil (by simp [pointBytes_ne_nil])
  rw [hb] at hn ⊢
  cases h : decodeUtf8 fuel s <;> simp [decodeUtf8, hn, h]

lemma textEncode_point {p : ℕ} (hp : IsScalar p) (s : JsString) :
    textEncode (pointUnits p ++ s) = pointBytes p ++ textEncode s := by
  unfold IsScalar at hp
  unfold pointUnits
  split_ifs with h
  · have hu : (UInt16.ofNat p).toNat = p := unit_toNat h
    have hh : highSurrogate (UInt16.ofNat p) = false := by
      simp only [highSurrogate, hu, decide_eq_false_iff_not]
      omega
    have hl : lowSurrogate (UInt16.ofNat p) = false := by
      simp only [lowSurrogate, hu, decide_eq_false_iff_not]
      omega
    have hs : singlePoint (UInt16.ofNat p) = p := by simp [singlePoint, hh, hl, hu]
    cases s with
    | nil => simp [textEncode, hs]
    | cons v rest => simp [textEncode, hh, hs]
  · have hu : (UInt16.ofNat (0xD800 + (p - 0x10000) / 0x400)).toNat = 0xD800 + (p - 0x10000) / 0x400 :=
      unit_toNat (by omega)
    have hv : (UInt16.ofNat (0xDC00 + (p - 0x10000) % 0x400)).toNat = 0xDC00 + (p - 0x10000) % 0x400 :=
      unit_toNat (by omega)
    generalize UInt16.ofNat (0xD800 + (p - 0x10000) / 0x400) = u at hu
    generalize UInt16.ofNat (0xDC00 + (p - 0x10000) % 0x400) = v at hv
    have hh : highSurrogate u = true := by
      simp only [highSurrogate, decide_eq_true_eq]
      omega
    have hl : lowSurrogate v = true := by
      simp only [lowSurrogate, decide_eq_true_eq]
      omega
    have hp' : surrogatePair u v = p := by
      unfold surrogatePair
      omega
    simp only [List.cons_append, List.nil_append, textEncode, hh, hl, hp', Bool.and_self, if_true]

/-- What the decoder accepts is what the encoder writes. -/
theorem textEncode_of_decodeUtf8 {fuel : ℕ} {bytes : Bytes} {t : JsString}
    (h : decodeUtf8 fuel bytes = some t) : textEncode t = bytes := by
  induction fuel generalizing bytes t with
  | zero =>
    cases bytes with
    | nil => simp_all [decodeUtf8, textEncode]
    | cons b s => simp [decodeUtf8] at h
  | succ fuel ih =>
    cases bytes with
    | nil => simp_all [decodeUtf8, textEncode]
    | cons b s =>
      simp only [decodeUtf8, Option.bind_eq_bind, Option.bind_eq_some_iff, Option.some.injEq] at h
      obtain ⟨⟨p, rest⟩, hn, units, hr, rfl⟩ := h
      obtain ⟨hp, he⟩ := eq_of_nextPoint hn
      rw [textEncode_point hp, ih hr, he]

lemma pointUnits_pair {u v : CodeUnit} (hu : highSurrogate u = true) (hv : lowSurrogate v = true) :
    IsScalar (surrogatePair u v) ∧ pointUnits (surrogatePair u v) = [u, v] := by
  simp only [highSurrogate, lowSurrogate, decide_eq_true_eq] at hu hv
  refine ⟨.inr ?_, ?_⟩
  · unfold surrogatePair
    omega
  · have h1 : 0xD800 + (surrogatePair u v - 0x10000) / 0x400 = u.toNat := by
      unfold surrogatePair
      omega
    have h2 : 0xDC00 + (surrogatePair u v - 0x10000) % 0x400 = v.toNat := by
      unfold surrogatePair
      omega
    rw [pointUnits, if_neg (by unfold surrogatePair; omega), h1, h2, UInt16.ofNat_toNat,
      UInt16.ofNat_toNat]

lemma pointUnits_single {u : CodeUnit} (hu : highSurrogate u = false) (hv : lowSurrogate u = false) :
    IsScalar (singlePoint u) ∧ pointUnits (singlePoint u) = [u] := by
  have hs : singlePoint u = u.toNat := by simp [singlePoint, hu, hv]
  have hlt := u.toNat_lt
  simp only [highSurrogate, lowSurrogate, decide_eq_false_iff_not] at hu hv
  rw [hs]
  refine ⟨?_, ?_⟩
  · unfold IsScalar
    omega
  · rw [pointUnits, if_pos (by omega), UInt16.ofNat_toNat]

lemma decodeUtf8_encoded {s units : JsString} {p fuel : ℕ} (hp : IsScalar p)
    (hu : pointUnits p = units) (hf : (pointBytes p ++ textEncode s).length ≤ fuel)
    (ih : ∀ {fuel : ℕ}, (textEncode s).length ≤ fuel → decodeUtf8 fuel (textEncode s) = some s) :
    decodeUtf8 fuel (pointBytes p ++ textEncode s) = some (units ++ s) := by
  have hpos : 0 < (pointBytes p).length := List.length_pos_of_ne_nil (pointBytes_ne_nil p)
  rw [List.length_append] at hf
  obtain ⟨fuel, rfl⟩ : ∃ n, fuel = n + 1 := ⟨fuel - 1, by omega⟩
  rw [decodeUtf8_point hp, ih (by omega), hu]
  rfl

/-- Decoding undoes encoding on every string without unpaired surrogates. -/
theorem decodeUtf8_textEncode {s : JsString} (h : isUnicodeScalarString s = true) {fuel : ℕ}
    (hf : (textEncode s).length ≤ fuel) : decodeUtf8 fuel (textEncode s) = some s := by
  induction s using isUnicodeScalarString.induct generalizing fuel with
  | case1 => simp [textEncode, decodeUtf8]
  | case2 u =>
    simp only [isUnicodeScalarString, Bool.and_eq_true, Bool.not_eq_true'] at h
    obtain ⟨hp, hu⟩ := pointUnits_single h.1 h.2
    have ht : textEncode [u] = pointBytes (singlePoint u) ++ textEncode [] := by simp [textEncode]
    rw [ht] at hf ⊢
    exact decodeUtf8_encoded hp hu hf fun _ => by simp [textEncode, decodeUtf8]
  | case3 u v rest hu ih =>
    simp only [isUnicodeScalarString, hu, if_true, Bool.and_eq_true] at h
    obtain ⟨hp, hpu⟩ := pointUnits_pair hu h.1
    have ht : textEncode (u :: v :: rest) = pointBytes (surrogatePair u v) ++ textEncode rest := by
      simp [textEncode, hu, h.1]
    rw [ht] at hf ⊢
    exact decodeUtf8_encoded hp hpu hf (ih h.2)
  | case4 u v rest hu ih =>
    simp only [isUnicodeScalarString, hu, if_false, Bool.and_eq_true, Bool.not_eq_true',
      Bool.false_eq_true] at h
    obtain ⟨hp, hpu⟩ := pointUnits_single (by simpa using hu) h.1
    have ht : textEncode (u :: v :: rest) = pointBytes (singlePoint u) ++ textEncode (v :: rest) := by
      simp [textEncode, hu]
    rw [ht] at hf ⊢
    exact decodeUtf8_encoded hp hpu hf (ih h.2)

/-- The bytes of a decoded text are the encoder's, up to one leading byte order mark. -/
theorem textEncode_of_textDecode {bytes : Bytes} {t : JsString} (h : textDecode bytes = some t) :
    textEncode t = stripByteOrderMark bytes :=
  textEncode_of_decodeUtf8 h

end TinyCloud.Text
