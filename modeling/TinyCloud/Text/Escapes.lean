import TinyCloud.Text.Canonical

/-! Percent escapes: one pass over a text that decodes the escapes of unreserved characters, and what the normalization
form C does to the escapes that the pass leaves or makes. -/

namespace TinyCloud.Text

section Decode

def isHexUnit (u : CodeUnit) : Bool := (hexValue u).isSome

/-- `/^[A-Za-z0-9._~-]$/` -/
def isUnreserved (n : ℕ) : Bool :=
  decide (48 ≤ n ∧ n ≤ 57) || decide (65 ≤ n ∧ n ≤ 90) || decide (97 ≤ n ∧ n ≤ 122) ||
    n == 45 || n == 46 || n == 95 || n == 126

def upperUnit (u : CodeUnit) : CodeUnit := if 97 ≤ u.toNat ∧ u.toNat ≤ 122 then u - 32 else u

def escapedNumber (a b : CodeUnit) : ℕ := (hexValue a).getD 0 * 16 + (hexValue b).getD 0

/-- What one pass makes of the escape with the digits `a` and `b`. -/
def decodeEscape (a b : CodeUnit) : JsString :=
  if isUnreserved (escapedNumber a b) then [UInt16.ofNat (escapedNumber a b)] else [37, upperUnit a, upperUnit b]

def decodeUnreserved : JsString → JsString
  | [] => []
  | [u] => [u]
  | [u, a] => [u, a]
  | u :: a :: b :: rest =>
    if u = 37 ∧ isHexUnit a ∧ isHexUnit b then decodeEscape a b ++ decodeUnreserved rest
    else u :: decodeUnreserved (a :: b :: rest)

def startsEscape : JsString → Bool
  | u :: a :: b :: _ => u == 37 && isHexUnit a && isHexUnit b
  | _ => false

variable {u a b x y : CodeUnit} {s t : JsString}

lemma decode_escape (ha : isHexUnit a = true) (hb : isHexUnit b = true) (s : JsString) :
    decodeUnreserved (37 :: a :: b :: s) = decodeEscape a b ++ decodeUnreserved s := by
  rw [decodeUnreserved, if_pos ⟨rfl, ha, hb⟩]

lemma decode_plain (h : startsEscape (u :: s) = false) : decodeUnreserved (u :: s) = u :: decodeUnreserved s := by
  match s with
  | [] => rfl
  | [_] => rfl
  | a :: b :: rest =>
    rw [decodeUnreserved, if_neg]
    rintro ⟨rfl, ha, hb⟩
    simp [startsEscape, ha, hb] at h

/-- A text is read escape by escape and otherwise unit by unit. -/
lemma escapeInduction {P : JsString → Prop} (nil : P [])
    (escape : ∀ a b s, isHexUnit a = true → isHexUnit b = true → P s → P (37 :: a :: b :: s))
    (plain : ∀ u s, startsEscape (u :: s) = false → P s → P (u :: s)) : ∀ s, P s
  | [] => nil
  | [u] => plain u [] rfl nil
  | [u, a] => plain u [a] rfl (escapeInduction nil escape plain [a])
  | u :: a :: b :: s => by
    by_cases h : u = 37 ∧ isHexUnit a = true ∧ isHexUnit b = true
    · obtain ⟨rfl, ha, hb⟩ := h
      exact escape a b s ha hb (escapeInduction nil escape plain s)
    · refine plain u (a :: b :: s) ?_ (escapeInduction nil escape plain (a :: b :: s))
      simpa [startsEscape] using h

/-- A second pass would change the escape. -/
def changes (a b : CodeUnit) : Bool := isHexUnit a && isHexUnit b && decodeEscape a b != [37, a, b]

lemma isHex_iff : isHexUnit u = true ↔
    48 ≤ u.toNat ∧ u.toNat ≤ 57 ∨ 97 ≤ u.toNat ∧ u.toNat ≤ 102 ∨ 65 ≤ u.toNat ∧ u.toNat ≤ 70 := by
  unfold isHexUnit hexValue
  simp only
  split_ifs with h1 h2 h3 <;> simp <;> omega

lemma toNat_upperUnit (u : CodeUnit) :
    (upperUnit u).toNat = if 97 ≤ u.toNat ∧ u.toNat ≤ 122 then u.toNat - 32 else u.toNat := by
  unfold upperUnit
  split_ifs with h
  · rw [UInt16.toNat_sub_of_le]
    · rfl
    · rw [UInt16.le_iff_toNat_le]
      exact le_trans (by decide) h.1
  · rfl

lemma isHex_upper (h : isHexUnit u = true) : isHexUnit (upperUnit u) = true := by
  rw [isHex_iff] at h ⊢
  rw [toNat_upperUnit]
  split_ifs <;> omega

lemma upper_upper (u : CodeUnit) : upperUnit (upperUnit u) = upperUnit u := by
  apply UInt16.toNat_inj.mp
  rw [toNat_upperUnit (upperUnit u), toNat_upperUnit]
  split_ifs <;> omega

lemma hexValue_upper (u : CodeUnit) : hexValue (upperUnit u) = hexValue u := by
  by_cases h : 97 ≤ u.toNat ∧ u.toNat ≤ 122
  · have hu := toNat_upperUnit u
    rw [if_pos h] at hu
    simp only [hexValue, hu]
    split_ifs <;> first | omega | exact congrArg some (by omega) | rfl
  · rw [upperUnit, if_neg h]

lemma percent_not_hex : isHexUnit 37 = false := by decide

/-- A pass leaves what it made of an escape as it is. -/
lemma changes_upper (h : isUnreserved (escapedNumber a b) = false) : changes (upperUnit a) (upperUnit b) = false := by
  have hnumber : escapedNumber (upperUnit a) (upperUnit b) = escapedNumber a b := by
    rw [escapedNumber, hexValue_upper, hexValue_upper]
    rfl
  simp [changes, decodeEscape, hnumber, h, upper_upper]

lemma hex_of_changes (h : changes a b = true) : isHexUnit a = true ∧ isHexUnit b = true := by
  simp only [changes, Bool.and_eq_true] at h
  exact h.1

/-- A text is left as it is by a pass unless one of its escapes changes, and the first that does is known. -/
lemma decode_or_split : ∀ s : JsString, decodeUnreserved s = s ∨
    ∃ front a b rest, s = front ++ 37 :: a :: b :: rest ∧ changes a b = true ∧
      decodeUnreserved s = front ++ (decodeEscape a b ++ decodeUnreserved rest) := by
  apply escapeInduction
  · exact .inl rfl
  · intro a b s ha hb ih
    by_cases hchange : changes a b = true
    · exact .inr ⟨[], a, b, s, rfl, hchange, decode_escape ha hb s⟩
    · have hsame : decodeEscape a b = [37, a, b] := by simpa [changes, ha, hb] using hchange
      rw [decode_escape ha hb, hsame]
      obtain ih | ⟨front, x, y, rest, rfl, hxy, hdecode⟩ := ih
      · exact .inl (by rw [ih]; rfl)
      · exact .inr ⟨37 :: a :: b :: front, x, y, rest, rfl, hxy, by rw [hdecode]; rfl⟩
  · intro u s hstart ih
    rw [decode_plain hstart]
    obtain ih | ⟨front, x, y, rest, rfl, hxy, hdecode⟩ := ih
    · exact .inl (by rw [ih])
    · exact .inr ⟨u :: front, x, y, rest, rfl, hxy, by rw [hdecode]; rfl⟩

lemma decode_eq_of_unchanged (h : ∀ front a b rest, s = front ++ 37 :: a :: b :: rest → changes a b = false) :
    decodeUnreserved s = s := by
  obtain hsame | ⟨front, a, b, rest, heq, hchange, -⟩ := decode_or_split s
  · exact hsame
  · rw [h front a b rest heq] at hchange
    cases hchange

end Decode

section Fresh

/-- The unit that the beginning of a text is decoded to, and what is left of the text. -/
def nextUnit : JsString → Option (CodeUnit × JsString)
  | [] => none
  | u :: a :: b :: rest =>
    if u = 37 ∧ isHexUnit a ∧ isHexUnit b ∧ isUnreserved (escapedNumber a b) then
      some (UInt16.ofNat (escapedNumber a b), rest)
    else some (u, a :: b :: rest)
  | u :: rest => some (u, rest)

def isAscii (u : CodeUnit) : Bool := decide (u.toNat < 0x80)

/-- The normalization does not join `y` with the characters behind it. -/
def staysApart (nfc : JsString → JsString) (y : CodeUnit) (behind : JsString) : Bool :=
  (nfc (y :: behind.takeWhile fun u => !isAscii u)).head? == some y

/-- Behind a percent sign, the text is decoded to the two digits of an escape that another pass would change. -/
def completes (nfc : JsString → JsString) (s : JsString) : Bool :=
  match nextUnit s with
  | none => false
  | some (x, s) =>
    match nextUnit s with
    | none => false
    | some (y, s) => changes x y && staysApart nfc y s

/-- Some percent sign that begins no escape is made to begin one. -/
def opensEscape (nfc : JsString → JsString) : JsString → Bool
  | [] => false
  | [_] => false
  | [_, _] => false
  | u :: a :: b :: rest =>
    if u = 37 ∧ isHexUnit a ∧ isHexUnit b then opensEscape nfc rest
    else (u == 37 && completes nfc (a :: b :: rest)) || opensEscape nfc (a :: b :: rest)

variable {nfc : JsString → JsString} {u a b x y : CodeUnit} {s t : JsString}

lemma nextUnit_escape (ha : isHexUnit a = true) (hb : isHexUnit b = true) (s : JsString) :
    nextUnit (37 :: a :: b :: s) =
      if isUnreserved (escapedNumber a b) then some (UInt16.ofNat (escapedNumber a b), s) else some (37, a :: b :: s) := by
  rw [nextUnit]
  simp only [ha, hb, true_and]

lemma nextUnit_plain (h : startsEscape (u :: s) = false) : nextUnit (u :: s) = some (u, s) := by
  match s with
  | [] => rfl
  | [_] => rfl
  | a :: b :: rest =>
    rw [nextUnit, if_neg]
    rintro ⟨rfl, ha, hb, -⟩
    simp [startsEscape, ha, hb] at h

lemma toNat_escaped (h : isUnreserved (escapedNumber a b) = true) :
    (UInt16.ofNat (escapedNumber a b)).toNat = escapedNumber a b ∧ escapedNumber a b < 0x80 ∧ escapedNumber a b ≠ 37 := by
  have hlt : escapedNumber a b < 0x80 ∧ escapedNumber a b ≠ 37 := by
    simp only [isUnreserved, Bool.or_eq_true, decide_eq_true_eq, beq_iff_eq] at h
    omega
  exact ⟨unit_toNat (by omega), hlt⟩

lemma escaped_ne_percent (h : isUnreserved (escapedNumber a b) = true) : UInt16.ofNat (escapedNumber a b) ≠ 37 := by
  obtain ⟨hval, -, hne⟩ := toNat_escaped h
  intro heq
  rw [heq] at hval
  exact hne hval.symm

lemma decode_of_nextUnit (h : nextUnit s = some (x, t)) (hx : x ≠ 37) :
    decodeUnreserved s = x :: decodeUnreserved t := by
  revert h
  refine escapeInduction (P := fun s => nextUnit s = some (x, t) → decodeUnreserved s = x :: decodeUnreserved t) ?_ ?_ ?_ s
  · intro h
    cases h
  · intro a b s ha hb _ h
    rw [nextUnit_escape ha hb] at h
    rw [decode_escape ha hb, decodeEscape]
    split_ifs at h ⊢
    · cases h
      rfl
    · cases h
      exact absurd rfl hx
  · intro u s hstart _ h
    rw [nextUnit_plain hstart] at h
    cases h
    exact decode_plain hstart

lemma nextUnit_of_decode {w : JsString} (h : decodeUnreserved s = x :: w) (hx : x ≠ 37) :
    ∃ t, nextUnit s = some (x, t) ∧ decodeUnreserved t = w := by
  revert h
  refine escapeInduction
    (P := fun s => decodeUnreserved s = x :: w → ∃ t, nextUnit s = some (x, t) ∧ decodeUnreserved t = w) ?_ ?_ ?_ s
  · intro h
    cases h
  · intro a b s ha hb _ h
    rw [decode_escape ha hb, decodeEscape] at h
    rw [nextUnit_escape ha hb]
    split_ifs at h ⊢
    · obtain ⟨rfl, rfl⟩ := List.cons.inj h
      exact ⟨s, rfl, rfl⟩
    · exact absurd (List.cons.inj h).1.symm hx
  · intro u s hstart _ h
    rw [decode_plain hstart] at h
    obtain ⟨rfl, rfl⟩ := List.cons.inj h
    exact ⟨s, nextUnit_plain hstart, rfl⟩

/-- Escapes are decoded to ASCII only. -/
lemma takeWhile_decode (s : JsString) :
    (decodeUnreserved s).takeWhile (fun u => !isAscii u) = s.takeWhile fun u => !isAscii u := by
  refine escapeInduction (P := fun s =>
    (decodeUnreserved s).takeWhile (fun u => !isAscii u) = s.takeWhile fun u => !isAscii u) rfl ?_ ?_ s
  · intro a b s ha hb _
    rw [decode_escape ha hb, decodeEscape]
    split_ifs with h
    · obtain ⟨hval, hlt, -⟩ := toNat_escaped h
      simp [isAscii, hval, hlt]
    · simp [isAscii]
  · intro u s hstart ih
    rw [decode_plain hstart, List.takeWhile_cons, List.takeWhile_cons, ih]

lemma completes_iff : completes nfc s = true ↔ ∃ x y rest, decodeUnreserved s = x :: y :: rest ∧
    changes x y = true ∧ staysApart nfc y rest = true := by
  have hdigit : ∀ {u : CodeUnit}, isHexUnit u = true → u ≠ 37 := by
    rintro _ h rfl
    rw [percent_not_hex] at h
    cases h
  constructor
  · intro h
    unfold completes at h
    split at h
    · cases h
    · rename_i x s₁ hx
      split at h
      · cases h
      · rename_i y s₂ hy
        rw [Bool.and_eq_true] at h
        obtain ⟨hxhex, hyhex⟩ := hex_of_changes h.1
        refine ⟨x, y, decodeUnreserved s₂, ?_, h.1, ?_⟩
        · rw [decode_of_nextUnit hx (hdigit hxhex), decode_of_nextUnit hy (hdigit hyhex)]
        · rw [staysApart, takeWhile_decode]
          exact h.2
  · rintro ⟨x, y, rest, hdecode, hchange, hstays⟩
    obtain ⟨hxhex, hyhex⟩ := hex_of_changes hchange
    obtain ⟨s₁, hx, h₁⟩ := nextUnit_of_decode hdecode (hdigit hxhex)
    obtain ⟨s₂, hy, rfl⟩ := nextUnit_of_decode h₁ (hdigit hyhex)
    rw [staysApart, takeWhile_decode] at hstays
    simp only [completes, hx, hy, hchange, Bool.true_and]
    exact hstays

/-- An escape of a text that a pass would change and whose last digit stays apart. -/
def Opened (nfc : JsString → JsString) (s : JsString) : Prop :=
  ∃ front x y rest, s = front ++ 37 :: x :: y :: rest ∧ changes x y = true ∧ staysApart nfc y rest = true

lemma opened_cons : Opened nfc (u :: s) ↔
    (u = 37 ∧ ∃ x y rest, s = x :: y :: rest ∧ changes x y = true ∧ staysApart nfc y rest = true) ∨ Opened nfc s := by
  constructor
  · rintro ⟨_ | ⟨v, front⟩, x, y, rest, heq, h⟩
    · obtain ⟨rfl, rfl⟩ := List.cons.inj heq
      exact .inl ⟨rfl, x, y, rest, rfl, h⟩
    · obtain ⟨rfl, rfl⟩ := List.cons.inj heq
      exact .inr ⟨front, x, y, rest, rfl, h⟩
  · rintro (⟨rfl, x, y, rest, rfl, h⟩ | ⟨front, x, y, rest, rfl, h⟩)
    · exact ⟨[], x, y, rest, rfl, h⟩
    · exact ⟨u :: front, x, y, rest, rfl, h⟩

lemma opened_of_ne (h : u ≠ 37) : Opened nfc (u :: s) ↔ Opened nfc s := by
  rw [opened_cons]
  exact ⟨fun hor => hor.resolve_left fun hleft => h hleft.1, .inr⟩

lemma opensEscape_plain (h : startsEscape (u :: s) = false) :
    opensEscape nfc (u :: s) = ((u == 37 && completes nfc s) || opensEscape nfc s) := by
  match s with
  | [] => simp [opensEscape, completes, nextUnit]
  | [_] => simp [opensEscape, completes, nextUnit]
  | a :: b :: rest =>
    rw [opensEscape, if_neg]
    rintro ⟨rfl, ha, hb⟩
    simp [startsEscape, ha, hb] at h

/-- The scan of the raw text finds what stands in the text after the pass. -/
theorem opensEscape_iff (s : JsString) : opensEscape nfc s = true ↔ Opened nfc (decodeUnreserved s) := by
  refine escapeInduction (P := fun s => opensEscape nfc s = true ↔ Opened nfc (decodeUnreserved s)) ?_ ?_ ?_ s
  · simp [opensEscape, decodeUnreserved, Opened]
  · intro a b s ha hb ih
    have hdigit : ∀ {u : CodeUnit}, isHexUnit u = true → upperUnit u ≠ 37 := by
      intro u h heq
      have hup := isHex_upper h
      rw [heq, percent_not_hex] at hup
      cases hup
    rw [opensEscape, if_pos ⟨rfl, ha, hb⟩, ih, decode_escape ha hb, decodeEscape]
    split_ifs with h
    · exact (opened_of_ne (escaped_ne_percent h)).symm
    · rw [List.cons_append, opened_cons, List.cons_append, opened_of_ne (hdigit ha), List.singleton_append,
        opened_of_ne (hdigit hb)]
      refine (or_iff_right ?_).symm
      rintro ⟨-, x, y, rest, heq, hchange, -⟩
      obtain ⟨hx, heq⟩ := List.cons.inj heq
      obtain ⟨hy, -⟩ := List.cons.inj heq
      rw [← hx, ← hy, changes_upper (by simpa using h)] at hchange
      cases hchange
  · intro u s hstart ih
    rw [opensEscape_plain hstart, decode_plain hstart, opened_cons, Bool.or_eq_true, Bool.and_eq_true, beq_iff_eq,
      completes_iff, ih]

lemma scalar_sides {s t : JsString} (hc : isAscii u = true) (h : isUnicodeScalarString (s ++ u :: t) = true) :
    isUnicodeScalarString s = true ∧ isUnicodeScalarString t = true := by
  obtain ⟨hhigh, hlow⟩ := not_surrogate (u := u) (by simp only [isAscii, decide_eq_true_eq] at hc; omega)
  induction s using isUnicodeScalarString.induct with
  | case1 =>
    rw [List.nil_append, scalar_cons hhigh hlow] at h
    exact ⟨rfl, h⟩
  | case2 v =>
    simp only [List.cons_append, List.nil_append, isUnicodeScalarString, hlow, Bool.false_and] at h
    split_ifs at h with hv
    rw [Bool.and_eq_true, Bool.not_eq_true', scalar_cons hhigh hlow] at h
    simp [isUnicodeScalarString, hv, h.1, h.2]
  | case3 v w rest hv ih =>
    simp only [List.cons_append, isUnicodeScalarString, if_pos hv, Bool.and_eq_true] at h ⊢
    obtain ⟨hrest, ht⟩ := ih h.2
    exact ⟨⟨h.1, hrest⟩, ht⟩
  | case4 v w rest hv ih =>
    simp only [List.cons_append, isUnicodeScalarString, if_neg hv, Bool.and_eq_true] at h ⊢
    obtain ⟨hrest, ht⟩ := ih h.2
    exact ⟨⟨h.1, hrest⟩, ht⟩

/-- A pass leaves Unicode text Unicode. -/
lemma scalar_decode : ∀ s front : JsString, isUnicodeScalarString (front ++ s) = true →
    isUnicodeScalarString (front ++ decodeUnreserved s) = true := by
  apply escapeInduction
  · exact fun _ h => h
  · intro a b s ha hb ih front h
    have hdigit : ∀ {u : CodeUnit}, isHexUnit u = true → isAscii u = true := by
      intro u hu
      rw [isHex_iff] at hu
      simp only [isAscii, decide_eq_true_eq]
      omega
    obtain ⟨hfront, hrest⟩ := scalar_sides (u := 37) (by decide) h
    obtain ⟨-, hrest⟩ := scalar_sides (s := []) (hdigit ha) hrest
    obtain ⟨-, hrest⟩ := scalar_sides (s := []) (hdigit hb) hrest
    have hescape : isUnicodeScalarString (decodeEscape a b) = true := by
      apply scalar_plain
      intro u hu
      unfold decodeEscape at hu
      split_ifs at hu with hunreserved
      · obtain ⟨hval, hlt, -⟩ := toNat_escaped hunreserved
        rw [List.mem_singleton.mp hu, hval]
        omega
      · have hupper : ∀ {u : CodeUnit}, isHexUnit u = true → (upperUnit u).toNat < 0xD800 := by
          intro u hu
          have hascii := hdigit (isHex_upper hu)
          simp only [isAscii, decide_eq_true_eq] at hascii
          omega
        simp only [List.mem_cons, List.not_mem_nil, or_false] at hu
        obtain rfl | rfl | rfl := hu
        · decide
        · exact hupper ha
        · exact hupper hb
    rw [decode_escape ha hb]
    exact scalar_append hfront (scalar_append hescape (ih [] hrest))
  · intro u s hstart ih front h
    rw [decode_plain hstart, List.append_cons]
    apply ih
    rwa [← List.append_cons]

end Fresh

section Normalization

/-- The ASCII characters that no other character is normalized to. -/
def isPlain (u : CodeUnit) : Bool := isAscii u && u != 0x3B && u != 0x4B && u != 0x60

/-- What the normalization form C is documented to do around ASCII characters. These are composed only with the
marks behind them, and only `;`, `K` and the grave accent have a second spelling. -/
structure NfcStandard (nfc : JsString → JsString) : Prop where
  idempotent (s : JsString) : nfc (nfc s) = nfc s
  nonempty (s : JsString) : s ≠ [] → nfc s ≠ []
  scalar (s : JsString) : isUnicodeScalarString s = true → isUnicodeScalarString (nfc s) = true
  ascii (s : JsString) : (∀ u ∈ s, isAscii u = true) → nfc s = s
  boundary (s t : JsString) (c : CodeUnit) : isAscii c = true → nfc (s ++ c :: t) = nfc s ++ nfc (c :: t)
  plain (s : JsString) : ((nfc s).filter isPlain).Sublist (s.filter isPlain)
  composed (s : JsString) (c : CodeUnit) : isAscii c = true → ∃ d t, nfc (c :: s) = d :: t ∧
    (d = c ∨ isAscii d = false) ∧ (t.filter isPlain).Sublist (s.filter isPlain)
  alone (s : JsString) (c : CodeUnit) : isPlain c = true → nfc s = [c] → s = [c]

variable {nfc : JsString → JsString} {u c x y : CodeUnit} {s t : JsString}

lemma isAscii_of_plain (h : isPlain u = true) : isAscii u = true := by
  simp only [isPlain, Bool.and_eq_true] at h
  exact h.1.1.1

lemma plain_of_hex (h : isHexUnit u = true) : isPlain u = true := by
  rw [isHex_iff] at h
  simp only [isPlain, isAscii, Bool.and_eq_true, decide_eq_true_eq, bne_iff_ne]
  refine ⟨⟨⟨by omega, ?_⟩, ?_⟩, ?_⟩ <;> rintro rfl <;> revert h <;> decide

lemma not_plain_of (h : isAscii u = false) : isPlain u = false := by
  simp [isPlain, h]

lemma filter_plain_nil (h : ∀ u ∈ s, isAscii u = false) : s.filter isPlain = [] :=
  List.filter_eq_nil_iff.mpr fun u hu => by simp [not_plain_of (h u hu)]

lemma NfcStandard.mem (h : NfcStandard nfc) (hu : isPlain u = true) (hmem : u ∈ nfc s) : u ∈ s := by
  have hfilter := (h.plain s).subset (List.mem_filter.mpr ⟨hmem, hu⟩)
  exact List.mem_of_mem_filter hfilter

/-- A text is a run of other characters, or such a run before an ASCII character. -/
lemma ascii_split (s : JsString) : (∀ u ∈ s, isAscii u = false) ∨
    ∃ run c rest, s = run ++ c :: rest ∧ (∀ u ∈ run, isAscii u = false) ∧ isAscii c = true := by
  induction s with
  | nil => exact .inl (by simp)
  | cons u s ih =>
    by_cases hu : isAscii u = true
    · exact .inr ⟨[], u, s, rfl, by simp, hu⟩
    · rw [Bool.not_eq_true] at hu
      obtain hall | ⟨run, c, rest, rfl, hrun, hc⟩ := ih
      · exact .inl (List.forall_mem_cons.mpr ⟨hu, hall⟩)
      · exact .inr ⟨u :: run, c, rest, rfl, List.forall_mem_cons.mpr ⟨hu, hrun⟩, hc⟩

lemma NfcStandard.nil (h : NfcStandard nfc) : nfc [] = [] := h.ascii [] (by simp)

lemma NfcStandard.append (h : NfcStandard nfc) (s : JsString) (ht : ∀ u ∈ t.head?, isAscii u = true) :
    nfc (s ++ t) = nfc s ++ nfc t := by
  cases t with
  | nil => rw [h.nil, List.append_nil, List.append_nil]
  | cons c t => exact h.boundary s t c (ht c rfl)

lemma NfcStandard.run (h : NfcStandard nfc) (hs : ∀ u ∈ s, isAscii u = false) : ∀ u ∈ nfc s, isPlain u = false := by
  intro u hu
  by_contra hplain
  rw [Bool.not_eq_false] at hplain
  have hmem := h.mem hplain hu
  have hascii := isAscii_of_plain hplain
  rw [hs u hmem] at hascii
  cases hascii

/-- An ASCII character with the run behind it: the normalized text has no plain character past its first. -/
lemma NfcStandard.composed_run (h : NfcStandard nfc) (hc : isAscii c = true) (hs : ∀ u ∈ s, isAscii u = false) :
    ∃ d t, nfc (c :: s) = d :: t ∧ (d = c ∨ isAscii d = false) ∧ ∀ u ∈ t, isPlain u = false := by
  obtain ⟨d, t, heq, hd, ht⟩ := h.composed s c hc
  refine ⟨d, t, heq, hd, fun u hu => ?_⟩
  rw [filter_plain_nil hs, List.sublist_nil, List.filter_eq_nil_iff] at ht
  simpa using ht u hu

lemma exists_run (s : JsString) : ∃ run rest, s = run ++ rest ∧ (∀ u ∈ run, isAscii u = false) ∧
    ∀ u ∈ rest.head?, isAscii u = true := by
  obtain hall | ⟨run, c, rest, rfl, hrun, hc⟩ := ascii_split s
  · exact ⟨s, [], by simp, hall, by simp⟩
  · refine ⟨run, c :: rest, rfl, hrun, ?_⟩
    rintro u ⟨⟩
    exact hc

/-- A plain character stands behind a part that has none. -/
lemma plain_behind {front back tail rest : JsString} (heq : front ++ c :: rest = back ++ tail) (hc : isPlain c = true)
    (hback : ∀ u ∈ back, isPlain u = false) : ∃ middle, front = back ++ middle ∧ tail = middle ++ c :: rest := by
  obtain ⟨middle, hfront, htail⟩ | ⟨middle, hback', hrest⟩ := List.append_eq_append_iff.mp heq
  · cases middle with
    | nil => exact ⟨[], by simpa using hfront.symm, htail.symm⟩
    | cons d middle =>
      obtain ⟨rfl, -⟩ := List.cons.inj htail
      have hplain := hback c (by simp [hfront])
      rw [hc] at hplain
      cases hplain
  · exact ⟨middle, hback', hrest⟩

/-- What begins at a plain character of the normalized text is the normalized text of what is left behind some part. -/
lemma NfcStandard.split (h : NfcStandard nfc) (hc : isPlain c = true) : ∀ (n : ℕ) (s front rest : JsString),
    s.length ≤ n → nfc s = front ++ c :: rest → ∃ s₁ s₂, s = s₁ ++ s₂ ∧ nfc s₁ = front ∧ nfc s₂ = c :: rest := by
  intro n
  induction n with
  | zero =>
    intro s front rest hn heq
    obtain rfl := List.length_eq_zero_iff.mp (Nat.le_zero.mp hn)
    rw [h.nil] at heq
    simp at heq
  | succ n ih =>
    intro s front rest hn heq
    obtain ⟨run, tail, rfl, hrun, htail⟩ := exists_run s
    rw [h.append run htail] at heq
    obtain ⟨middle, rfl, hmiddle⟩ := plain_behind heq.symm hc (h.run hrun)
    cases middle with
    | nil => exact ⟨run, tail, rfl, (List.append_nil _).symm, hmiddle⟩
    | cons d middle =>
      cases tail with
      | nil =>
        rw [h.nil] at hmiddle
        cases hmiddle
      | cons e tail =>
        have he : isAscii e = true := htail e rfl
        obtain ⟨run₂, tail₂, rfl, hrun₂, htail₂⟩ := exists_run tail
        obtain ⟨d', t, hcomposed, -, ht⟩ := h.composed_run he hrun₂
        have hsplit := h.append (e :: run₂) htail₂
        rw [List.cons_append] at hsplit
        rw [hsplit, hcomposed, List.cons_append, List.cons_append] at hmiddle
        obtain ⟨rfl, hbehind⟩ := List.cons.inj hmiddle
        obtain ⟨last, rfl, hlast⟩ := plain_behind hbehind.symm hc ht
        have hlen : tail₂.length ≤ n := by
          simp only [List.length_append, List.length_cons] at hn
          omega
        obtain ⟨s₁, s₂, rfl, hs₁, hs₂⟩ := ih tail₂ last rest hlen hlast
        have hhead : ∀ u ∈ s₁.head?, isAscii u = true := by
          cases s₁ with
          | nil => simp
          | cons u s₁ => exact htail₂
        refine ⟨run ++ e :: (run₂ ++ s₁), s₂, by simp, ?_, hs₂⟩
        rw [h.boundary run (run₂ ++ s₁) e he, ← List.cons_append, h.append (e :: run₂) hhead, hcomposed, hs₁,
          List.cons_append]

/-- A plain character at the beginning of the normalized text was there before. -/
lemma NfcStandard.first (h : NfcStandard nfc) (hc : isPlain c = true) (heq : nfc s = c :: t) : ∃ rest, s = c :: rest := by
  obtain ⟨run, tail, rfl, hrun, htail⟩ := exists_run s
  cases run with
  | cons u run =>
    rw [h.append _ htail] at heq
    have hne := h.nonempty (u :: run) (by simp)
    obtain ⟨v, w, hv⟩ := List.exists_cons_of_ne_nil hne
    rw [hv, List.cons_append] at heq
    obtain ⟨rfl, -⟩ := List.cons.inj heq
    have hplain := h.run hrun v (by simp [hv])
    rw [hc] at hplain
    cases hplain
  | nil =>
    cases tail with
    | nil =>
      rw [List.nil_append, h.nil] at heq
      cases heq
    | cons e tail =>
      obtain ⟨d, w, hcomposed, hd, -⟩ := h.composed tail e (htail e rfl)
      rw [List.nil_append, hcomposed] at heq
      obtain ⟨rfl, -⟩ := List.cons.inj heq
      obtain rfl | hd := hd
      · exact ⟨tail, rfl⟩
      · rw [isAscii_of_plain hc] at hd
        cases hd

/-- Between two plain characters that follow each other there was nothing before either. -/
lemma NfcStandard.second (h : NfcStandard nfc) (hc : isPlain c = true) (hx : isPlain x = true)
    (heq : nfc (c :: s) = c :: x :: t) : nfc s = x :: t := by
  obtain ⟨run, tail, rfl, hrun, htail⟩ := exists_run s
  obtain ⟨d, w, hcomposed, -, hw⟩ := h.composed_run (isAscii_of_plain hc) hrun
  have hsplit := h.append (c :: run) htail
  rw [List.cons_append] at hsplit
  rw [hsplit, hcomposed, List.cons_append] at heq
  obtain ⟨rfl, hbehind⟩ := List.cons.inj heq
  cases w with
  | cons v w =>
    obtain ⟨rfl, -⟩ := List.cons.inj hbehind
    have hplain := hw v List.mem_cons_self
    rw [hx] at hplain
    cases hplain
  | nil =>
    obtain ⟨-, rfl⟩ := List.cons.inj (h.alone _ _ hc hcomposed)
    exact hbehind

/-- An escape of the normalized text is one of the text before it, with the same digits. -/
lemma NfcStandard.escape (h : NfcStandard nfc) {front rest : JsString} (hx : isHexUnit x = true) (hy : isHexUnit y = true)
    (heq : nfc s = front ++ 37 :: x :: y :: rest) : ∃ front' rest', s = front' ++ 37 :: x :: y :: rest' ∧
      nfc front' = front ∧ nfc (y :: rest') = y :: rest := by
  have hpercent : isPlain 37 = true := by decide
  obtain ⟨s₁, s₂, rfl, hfront, h₂⟩ := h.split hpercent s.length s front (x :: y :: rest) le_rfl heq
  obtain ⟨t₁, rfl⟩ := h.first hpercent h₂
  have h₃ := h.second hpercent (plain_of_hex hx) h₂
  obtain ⟨t₂, rfl⟩ := h.first (plain_of_hex hx) h₃
  have h₄ := h.second (plain_of_hex hx) (plain_of_hex hy) h₃
  obtain ⟨t₃, rfl⟩ := h.first (plain_of_hex hy) h₄
  exact ⟨s₁, t₃, rfl, hfront, h₄⟩

lemma takeWhile_run {run tail : JsString} (hrun : ∀ u ∈ run, isAscii u = false)
    (htail : ∀ u ∈ tail.head?, isAscii u = true) : (run ++ tail).takeWhile (fun u => !isAscii u) = run := by
  rw [List.takeWhile_append_of_pos (by simpa using hrun)]
  cases tail with
  | nil => simp
  | cons u tail => simp [htail u rfl]

lemma NfcStandard.stays (h : NfcStandard nfc) (hy : isAscii y = true) (s : JsString) :
    staysApart nfc y s = true ↔ ∃ rest, nfc (y :: s) = y :: rest := by
  obtain ⟨run, tail, rfl, hrun, htail⟩ := exists_run s
  obtain ⟨d, t, hcomposed, -⟩ := h.composed run y hy
  have hsplit := h.append (y :: run) htail
  rw [staysApart, takeWhile_run hrun htail, ← List.cons_append, hsplit, hcomposed]
  simp

def normalizePath (nfc : JsString → JsString) (path : JsString) : JsString := nfc (decodeUnreserved path)

/-- The pass changes nothing in a text without an escape that it would change. -/
lemma NfcStandard.settled (h : NfcStandard nfc) (hs : opensEscape nfc s = false) :
    decodeUnreserved (normalizePath nfc s) = normalizePath nfc s := by
  apply decode_eq_of_unchanged
  intro front x y rest heq
  by_contra hchange
  rw [Bool.not_eq_false] at hchange
  obtain ⟨hx, hy⟩ := hex_of_changes hchange
  obtain ⟨front', rest', hraw, -, hkept⟩ := h.escape hx hy heq
  have hstays := (h.stays (isAscii_of_plain (plain_of_hex hy)) rest').mpr ⟨rest, hkept⟩
  have hopens := (opensEscape_iff s).mpr ⟨front', x, y, rest', hraw, hchange, hstays⟩
  rw [hs] at hopens
  cases hopens

lemma length_decode_le : ∀ s, (decodeUnreserved s).length ≤ s.length := by
  apply escapeInduction
  · exact le_rfl
  · intro a b s ha hb ih
    rw [decode_escape ha hb, List.length_append, decodeEscape]
    split_ifs
    · simp only [List.length_cons, List.length_nil]
      omega
    · simp only [List.length_cons, List.length_nil]
      omega
  · intro u s hstart ih
    rw [decode_plain hstart, List.length_cons, List.length_cons]
    omega

/-- No escape reaches over a character that is no digit of one. -/
lemma decode_before (hc : isHexUnit c = false) (t : JsString) : ∀ s, decodeUnreserved (s ++ c :: t) =
    decodeUnreserved s ++ decodeUnreserved (c :: t) := by
  apply escapeInduction
  · rfl
  · intro a b s ha hb ih
    rw [List.cons_append, List.cons_append, List.cons_append, decode_escape ha hb, decode_escape ha hb, ih,
      List.append_assoc]
  · intro u s hstart ih
    have hstart' : startsEscape (u :: s ++ c :: t) = false := by
      match s with
      | [] => cases t <;> simp [startsEscape, hc]
      | [a] => simp [startsEscape, hc]
      | _ :: _ :: _ => exact hstart
    rw [List.cons_append] at hstart' ⊢
    rw [decode_plain hstart', decode_plain hstart, ih, List.cons_append]

/-- What a pass leaves unchanged, it leaves unchanged on both sides of such a character. -/
lemma decode_sides {front back : JsString} (hc : isHexUnit c = false) (hpercent : c ≠ 37)
    (hs : decodeUnreserved (front ++ c :: back) = front ++ c :: back) :
    decodeUnreserved front = front ∧ decodeUnreserved back = back := by
  have hstart : startsEscape (c :: back) = false := by
    match back with
    | [] => rfl
    | [_] => rfl
    | _ :: _ :: _ => simp [startsEscape, hpercent]
  rw [decode_before hc, decode_plain hstart] at hs
  have hfront := length_decode_le front
  have hback := length_decode_le back
  have hlen := congrArg List.length hs
  simp only [List.length_append, List.length_cons] at hlen
  obtain ⟨hleft, hright⟩ := List.append_inj hs (by omega)
  exact ⟨hleft, (List.cons.inj hright).2⟩

lemma unchanged_of_decode {front rest : JsString} (hs : decodeUnreserved s = s) (heq : s = front ++ 37 :: x :: y :: rest) :
    changes x y = false := by
  by_contra hchange
  rw [Bool.not_eq_false] at hchange
  obtain ⟨hx, hy⟩ := hex_of_changes hchange
  rw [heq, decode_before percent_not_hex, decode_escape hx hy] at hs
  have hfront := length_decode_le front
  have hrest := length_decode_le rest
  have hlen := congrArg List.length hs
  simp only [List.length_append, List.length_cons] at hlen
  have hescape : (decodeEscape x y).length ≤ 3 := by
    unfold decodeEscape
    split_ifs <;> simp
  obtain ⟨-, hback⟩ := List.append_inj hs (by omega)
  obtain ⟨hsame, -⟩ := List.append_inj (hback.trans (List.append_cons [37, x] y rest)) (by simp; omega)
  simp [changes, hsame] at hchange

/-- A text with an escape that the pass makes is changed by the next pass, and not brought back by the
normalization. -/
lemma NfcStandard.unsettled (h : NfcStandard nfc) (hs : opensEscape nfc s = true) :
    normalizePath nfc (normalizePath nfc s) ≠ normalizePath nfc s := by
  have hbytes : ∀ {u : CodeUnit}, isHexUnit u = true → isAscii u = true := fun hu => isAscii_of_plain (plain_of_hex hu)
  have hnorm : nfc (normalizePath nfc s) = normalizePath nfc s := h.idempotent _
  obtain ⟨front, x, y, rest, hraw, hchange, hstays⟩ := (opensEscape_iff s).mp hs
  obtain ⟨hx, hy⟩ := hex_of_changes hchange
  obtain ⟨rest', hkept⟩ := (h.stays (hbytes hy) rest).mp hstays
  have hpath : normalizePath nfc s = nfc front ++ 37 :: x :: y :: rest' := by
    have hpercent : nfc (37 :: x :: y :: rest) = nfc [37] ++ nfc (x :: y :: rest) := h.boundary [37] _ x (hbytes hx)
    have hfirst : nfc (x :: y :: rest) = nfc [x] ++ nfc (y :: rest) := h.boundary [x] rest y (hbytes hy)
    rw [normalizePath, hraw, h.boundary front _ 37 (by decide), hpercent, hfirst, hkept, h.ascii [37] (by decide),
      h.ascii [x] (by simp [hbytes hx])]
    rfl
  obtain hsame | ⟨A, a, b, B, heq, hab, hdecode⟩ := decode_or_split (normalizePath nfc s)
  · rw [unchanged_of_decode hsame hpath] at hchange
    cases hchange
  obtain ⟨ha, hb⟩ := hex_of_changes hab
  obtain ⟨A', -, -, hA, -⟩ := h.escape ha hb (hnorm.trans heq)
  have hfront : nfc A = A := by rw [← hA, h.idempotent]
  intro hstable
  rw [normalizePath, hdecode, heq] at hstable
  have hne : decodeEscape a b ≠ [37, a, b] := by
    simp only [changes, Bool.and_eq_true, bne_iff_ne] at hab
    exact hab.2
  unfold decodeEscape at hstable hne
  split_ifs at hstable hne with hunreserved
  · obtain ⟨hval, hlt, -⟩ := toNat_escaped hunreserved
    have hascii : isAscii (UInt16.ofNat (escapedNumber a b)) = true := by simp [isAscii, hval, hlt]
    rw [List.singleton_append, h.boundary A _ _ hascii, hfront] at hstable
    obtain ⟨d, t, hcomposed, hd, -⟩ := h.composed (decodeUnreserved B) _ hascii
    rw [hcomposed] at hstable
    obtain ⟨hpercent, -⟩ := List.cons.inj (List.append_cancel_left hstable)
    rw [hpercent] at hd
    obtain hd | hd := hd
    · exact escaped_ne_percent hunreserved hd.symm
    · exact absurd hd (by decide)
  · have hup : ∀ {u : CodeUnit}, isHexUnit u = true → isAscii (upperUnit u) = true := fun hu => hbytes (isHex_upper hu)
    have hpercent : nfc (37 :: upperUnit a :: upperUnit b :: decodeUnreserved B) =
        nfc [37] ++ nfc (upperUnit a :: upperUnit b :: decodeUnreserved B) := h.boundary [37] _ _ (hup ha)
    have hfirst : nfc (upperUnit a :: upperUnit b :: decodeUnreserved B) =
        nfc [upperUnit a] ++ nfc (upperUnit b :: decodeUnreserved B) := h.boundary [upperUnit a] _ _ (hup hb)
    obtain ⟨d, t, hcomposed, hd, -⟩ := h.composed (decodeUnreserved B) _ (hup hb)
    simp only [List.cons_append, List.nil_append] at hstable
    rw [h.boundary A _ 37 (by decide), hfront, hpercent, hfirst, hcomposed, h.ascii [37] (by decide),
      h.ascii [upperUnit a] (by simp [hup ha])] at hstable
    obtain ⟨-, hdigits⟩ := List.cons.inj (List.append_cancel_left hstable)
    obtain ⟨hupa, hdigit⟩ := List.cons.inj hdigits
    obtain ⟨rfl, -⟩ := List.cons.inj hdigit
    obtain hd | hd := hd
    · exact hne (by rw [hupa, ← hd])
    · rw [hbytes hb] at hd
      cases hd

/-- Normalizing again changes nothing exactly if the pass makes no escape. -/
theorem NfcStandard.normalizePath_stable_iff (h : NfcStandard nfc) (s : JsString) :
    normalizePath nfc (normalizePath nfc s) = normalizePath nfc s ↔ opensEscape nfc s = false := by
  constructor
  · intro hstable
    by_contra hopens
    rw [Bool.not_eq_false] at hopens
    exact h.unsettled hopens hstable
  · intro hopens
    rw [normalizePath, h.settled hopens, normalizePath, h.idempotent]

end Normalization

end TinyCloud.Text
