import TinyCloud.Text.Utf
import Mathlib.Data.List.Sort

/-!
# JSON values, their canonical text and its parser

Numbers are a parameter: a type of finite numbers with the text that prints each and the value that
each literal reads as. Objects list their members; `Proper` says that no object names a key twice.
The canonical text sorts the members by code units; parsing it gives the sorted value back.
-/

namespace TinyCloud.Text

inductive Json (N : Type) where
  | null
  | bool (b : Bool)
  | num (n : N)
  | str (s : JsString)
  | arr (items : List (Json N))
  | obj (members : List (JsString × Json N))

section Numbers

inductive NumberState where
  | start | minus | zero | int | point | frac | exp | expSign | expDigits
  deriving DecidableEq

def isDigit (u : CodeUnit) : Bool := decide (48 ≤ u.toNat ∧ u.toNat ≤ 57)
def isExponent (u : CodeUnit) : Bool := u == 101 || u == 69
def isSign (u : CodeUnit) : Bool := u == 43 || u == 45
def isNumberUnit (u : CodeUnit) : Bool := isDigit u || isExponent u || isSign u || u == 46

def NumberState.step : NumberState → CodeUnit → Option NumberState
  | .start, u => if u == 45 then some .minus else if u == 48 then some .zero
      else if isDigit u then some .int else none
  | .minus, u => if u == 48 then some .zero else if isDigit u then some .int else none
  | .zero, u => if u == 46 then some .point else if isExponent u then some .exp else none
  | .int, u => if isDigit u then some .int else if u == 46 then some .point
      else if isExponent u then some .exp else none
  | .point, u => if isDigit u then some .frac else none
  | .frac, u => if isDigit u then some .frac else if isExponent u then some .exp else none
  | .exp, u => if isSign u then some .expSign else if isDigit u then some .expDigits else none
  | .expSign, u => if isDigit u then some .expDigits else none
  | .expDigits, u => if isDigit u then some .expDigits else none

def NumberState.accepts : NumberState → JsString → Bool
  | q, [] => q == .zero || q == .int || q == .frac || q == .expDigits
  | q, u :: rest => match q.step u with
    | some q' => q'.accepts rest
    | none => false

/-- `-? (0 | [1-9][0-9]*) (. [0-9]+)? ([eE] [+-]? [0-9]+)?` -/
def isNumberLiteral (s : JsString) : Bool := NumberState.start.accepts s

/-- The finite numbers, with the text that prints each and the number that a literal reads as. -/
class NumberFormat (N : Type) where
  text : N → JsString
  read : JsString → Option N
  literal_text (n : N) : isNumberLiteral (text n) = true
  read_text (n : N) : read (text n) = some n

lemma isNumberUnit_of_step {q q' : NumberState} {u : CodeUnit} (h : q.step u = some q') :
    isNumberUnit u = true := by
  unfold isNumberUnit
  cases q <;> simp only [NumberState.step] at h <;> split_ifs at h <;> simp_all [isSign, isDigit]

lemma isNumberUnit_of_accepts {q : NumberState} {s : JsString} (h : q.accepts s = true) :
    ∀ u ∈ s, isNumberUnit u = true := by
  induction s generalizing q with
  | nil => simp
  | cons u s ih =>
    rw [NumberState.accepts] at h
    cases hq : q.step u with
    | none => simp [hq] at h
    | some q' =>
      simp only [hq] at h
      intro v hv
      rcases List.mem_cons.mp hv with rfl | hv
      · exact isNumberUnit_of_step hq
      · exact ih h v hv

/-- A literal starts with a digit or a minus sign. -/
lemma head_of_isNumberLiteral {s : JsString} (h : isNumberLiteral s = true) :
    ∃ u rest, s = u :: rest ∧ (u = 45 ∨ isDigit u = true) := by
  cases s with
  | nil => simp [isNumberLiteral, NumberState.accepts] at h
  | cons u rest =>
    refine ⟨u, rest, rfl, ?_⟩
    simp only [isNumberLiteral, NumberState.accepts, NumberState.step] at h
    split_ifs at h with h1 h2 h3
    · exact .inl (by simpa using h1)
    · exact .inr (by simp only [beq_iff_eq] at h2; simp [h2, isDigit])
    · exact .inr h3

end Numbers

section Strings

def hexDigit (n : ℕ) : CodeUnit := if n < 10 then UInt16.ofNat (48 + n) else UInt16.ofNat (87 + n)

def hexValue (u : CodeUnit) : Option ℕ :=
  let n := u.toNat
  if 48 ≤ n ∧ n ≤ 57 then some (n - 48)
  else if 97 ≤ n ∧ n ≤ 102 then some (n - 87)
  else if 65 ≤ n ∧ n ≤ 70 then some (n - 55)
  else none

def hexEscape (u : CodeUnit) : JsString :=
  [92, 117, hexDigit (u.toNat / 4096), hexDigit (u.toNat / 256 % 16), hexDigit (u.toNat / 16 % 16),
    hexDigit (u.toNat % 16)]

/-- One code unit as `JSON.stringify` writes it; an unpaired surrogate is escaped too. -/
def escapeUnit (u : CodeUnit) : JsString :=
  if u = 34 then [92, 34]
  else if u = 92 then [92, 92]
  else if u = 8 then [92, 98]
  else if u = 9 then [92, 116]
  else if u = 10 then [92, 110]
  else if u = 12 then [92, 102]
  else if u = 13 then [92, 114]
  else if u.toNat < 32 || highSurrogate u || lowSurrogate u then hexEscape u
  else [u]

def escapeUnits : JsString → JsString
  | [] => []
  | [u] => escapeUnit u
  | u :: v :: rest =>
    if highSurrogate u && lowSurrogate v then u :: v :: escapeUnits rest
    else escapeUnit u ++ escapeUnits (v :: rest)

def quote (s : JsString) : JsString := 34 :: (escapeUnits s ++ [34])

def escapedUnit (e : CodeUnit) : Option CodeUnit :=
  if e = 34 then some 34
  else if e = 92 then some 92
  else if e = 47 then some 47
  else if e = 98 then some 8
  else if e = 116 then some 9
  else if e = 110 then some 10
  else if e = 102 then some 12
  else if e = 114 then some 13
  else none

/-- The rest of a string literal after its opening quote. -/
def parseString : JsString → Option (JsString × JsString)
  | [] => none
  | u :: s =>
    if u = 34 then some ([], s)
    else if u = 92 then
      match s with
      | [] => none
      | e :: s =>
        if e = 117 then
          match s with
          | a :: b :: c :: d :: s => do
            let a ← hexValue a
            let b ← hexValue b
            let c ← hexValue c
            let d ← hexValue d
            let (t, rest) ← parseString s
            some (UInt16.ofNat (a * 4096 + b * 256 + c * 16 + d) :: t, rest)
          | _ => none
        else do
          let v ← escapedUnit e
          let (t, rest) ← parseString s
          some (v :: t, rest)
    else if u.toNat < 32 then none
    else do
      let (t, rest) ← parseString s
      some (u :: t, rest)

lemma hexValue_hexDigit : ∀ n < 16, hexValue (hexDigit n) = some n := by
  decide

lemma parseString_hexEscape (u : CodeUnit) (s : JsString) :
    parseString (hexEscape u ++ s) = (parseString s).map fun p => (u :: p.1, p.2) := by
  have hu := u.toNat_lt
  have h1 := hexValue_hexDigit (u.toNat / 4096) (by omega)
  have h2 := hexValue_hexDigit (u.toNat / 256 % 16) (by omega)
  have h3 := hexValue_hexDigit (u.toNat / 16 % 16) (by omega)
  have h4 := hexValue_hexDigit (u.toNat % 16) (by omega)
  have hv : u.toNat / 4096 * 4096 + u.toNat / 256 % 16 * 256 + u.toNat / 16 % 16 * 16 + u.toNat % 16 =
      u.toNat := by omega
  simp only [hexEscape, List.cons_append, List.nil_append]
  rw [parseString]
  simp only [if_neg (by decide : ¬(92 : CodeUnit) = 34), if_true, h1, h2, h3, h4, Option.bind_eq_bind,
    Option.bind_some, hv, UInt16.ofNat_toNat]
  cases parseString s <;> rfl

lemma parseString_escaped {e v : CodeUnit} (h : escapedUnit e = some v) (hu : e ≠ 117) (s : JsString) :
    parseString (92 :: e :: s) = (parseString s).map fun p => (v :: p.1, p.2) := by
  rw [parseString.eq_def]
  simp only [if_neg (by decide : ¬(92 : CodeUnit) = 34), if_true, if_neg hu, h, Option.bind_eq_bind,
    Option.bind_some]
  cases parseString s <;> rfl

lemma parseString_raw {u : CodeUnit} (hq : u ≠ 34) (hb : u ≠ 92) (hc : 32 ≤ u.toNat) (s : JsString) :
    parseString (u :: s) = (parseString s).map fun p => (u :: p.1, p.2) := by
  rw [parseString.eq_def]
  simp only [if_neg hq, if_neg hb, if_neg (by omega : ¬u.toNat < 32), Option.bind_eq_bind]
  cases parseString s <;> rfl

lemma parseString_escapeUnit (u : CodeUnit) (s : JsString) :
    parseString (escapeUnit u ++ s) = (parseString s).map fun p => (u :: p.1, p.2) := by
  unfold escapeUnit
  split_ifs with h1 h2 h3 h4 h5 h6 h7 h8
  · exact parseString_escaped (by simp [h1, escapedUnit]) (by decide) s
  · exact parseString_escaped (by simp [h2, escapedUnit]) (by decide) s
  · exact parseString_escaped (by simp [h3, escapedUnit]) (by decide) s
  · exact parseString_escaped (by simp [h4, escapedUnit]) (by decide) s
  · exact parseString_escaped (by simp [h5, escapedUnit]) (by decide) s
  · exact parseString_escaped (by simp [h6, escapedUnit]) (by decide) s
  · exact parseString_escaped (by simp [h7, escapedUnit]) (by decide) s
  · exact parseString_hexEscape u s
  · simp only [Bool.or_eq_true, decide_eq_true_eq, not_or] at h8
    exact parseString_raw h1 h2 (by omega) s

lemma surrogate_raw {u : CodeUnit} (h : highSurrogate u = true ∨ lowSurrogate u = true) :
    u ≠ 34 ∧ u ≠ 92 ∧ 32 ≤ u.toNat := by
  simp only [highSurrogate, lowSurrogate, decide_eq_true_eq] at h
  refine ⟨?_, ?_, by omega⟩
  · rintro rfl
    simp at h
  · rintro rfl
    simp at h

lemma parseString_quote (s : JsString) : parseString (34 :: s) = some ([], s) := by
  rw [parseString.eq_def]
  simp

/-- Reading a quoted string gives the string back. -/
theorem parseString_escapeUnits (t s : JsString) :
    parseString (escapeUnits t ++ 34 :: s) = some (t, s) := by
  induction t using escapeUnits.induct with
  | case1 => simp [escapeUnits, parseString_quote]
  | case2 u => simp [escapeUnits, parseString_escapeUnit, parseString_quote]
  | case3 u v rest h ih =>
    simp only [Bool.and_eq_true] at h
    obtain ⟨hu1, hu2, hu3⟩ := surrogate_raw (.inl h.1)
    obtain ⟨hv1, hv2, hv3⟩ := surrogate_raw (.inr h.2)
    simp only [escapeUnits, h.1, h.2, Bool.and_self, if_true, List.cons_append]
    rw [parseString_raw hu1 hu2 hu3, parseString_raw hv1 hv2 hv3, ih]
    rfl
  | case4 u v rest h ih =>
    simp only [escapeUnits, if_neg h, List.append_assoc]
    rw [parseString_escapeUnit, ih]
    rfl

end Strings

section Order

/-- The sign of the difference orders strings by their UTF-16 code units. -/
def compareUtf16CodeUnits : JsString → JsString → ℤ
  | a :: as, b :: bs => if a = b then compareUtf16CodeUnits as bs else (a.toNat : ℤ) - b.toNat
  | as, bs => (as.length : ℤ) - bs.length

def UnitsLe (a b : JsString) : Prop := compareUtf16CodeUnits a b ≤ 0

instance : DecidableRel UnitsLe := fun _ _ => inferInstanceAs (Decidable (_ ≤ _))

lemma compareUtf16CodeUnits_swap (a b : JsString) :
    compareUtf16CodeUnits b a = -compareUtf16CodeUnits a b := by
  induction a generalizing b with
  | nil => cases b <;> simp [compareUtf16CodeUnits]
  | cons x a ih =>
    cases b with
    | nil => simp [compareUtf16CodeUnits]
    | cons y b =>
      by_cases h : x = y
      · simp [compareUtf16CodeUnits, h, ih]
      · simp [compareUtf16CodeUnits, h, Ne.symm h]

lemma eq_of_compareUtf16CodeUnits {a b : JsString} (h : compareUtf16CodeUnits a b = 0) : a = b := by
  induction a generalizing b with
  | nil =>
    simp only [compareUtf16CodeUnits, List.length_nil, Nat.cast_zero, zero_sub, neg_eq_zero,
      Nat.cast_eq_zero] at h
    exact (List.length_eq_zero_iff.mp h).symm
  | cons x a ih =>
    cases b with
    | nil => simp [compareUtf16CodeUnits] at h; omega
    | cons y b =>
      rw [compareUtf16CodeUnits] at h
      split_ifs at h with hxy
      · rw [hxy, ih h]
      · exact absurd (UInt16.toNat_inj.mp (by omega)) hxy

instance : Std.Total UnitsLe := ⟨fun a b => by
  have := compareUtf16CodeUnits_swap a b
  unfold UnitsLe
  omega⟩

instance : Std.Antisymm UnitsLe := ⟨fun a b hab hba => by
  have := compareUtf16CodeUnits_swap a b
  unfold UnitsLe at hab hba
  exact eq_of_compareUtf16CodeUnits (by omega)⟩

lemma unitsLe_cons {x y : CodeUnit} {a b : JsString} :
    UnitsLe (x :: a) (y :: b) ↔ x.toNat < y.toNat ∨ (x = y ∧ UnitsLe a b) := by
  unfold UnitsLe
  rw [compareUtf16CodeUnits]
  split_ifs with h
  · simp [h]
  · have hne : x.toNat ≠ y.toNat := fun he => h (UInt16.toNat_inj.mp he)
    constructor
    · intro hle
      exact .inl (by omega)
    · rintro (hlt | ⟨he, -⟩)
      · omega
      · exact absurd he h

instance : IsTrans JsString UnitsLe := ⟨fun a => by
  induction a with
  | nil => intro _ c _ _; simp [UnitsLe, compareUtf16CodeUnits]
  | cons x a ih =>
    rintro (_ | ⟨y, b⟩) (_ | ⟨z, c⟩) hab hbc
    · exact hab
    · simp [UnitsLe, compareUtf16CodeUnits] at hab
      omega
    · simp [UnitsLe, compareUtf16CodeUnits] at hbc
      omega
    · rw [unitsLe_cons] at hab hbc ⊢
      rcases hab with hab | ⟨rfl, hab⟩
      · rcases hbc with hbc | ⟨rfl, -⟩
        · exact .inl (hab.trans hbc)
        · exact .inl hab
      · rcases hbc with hbc | ⟨rfl, hbc⟩
        · exact .inl hbc
        · exact .inr ⟨rfl, ih b c hab hbc⟩⟩

end Order

section Canonical

variable {N : Type}

def KeyLe {α : Type} (a b : JsString × α) : Prop := UnitsLe a.1 b.1

instance {α : Type} : DecidableRel (@KeyLe α) := fun a b =>
  inferInstanceAs (Decidable (UnitsLe a.1 b.1))

instance {α : Type} : Std.Total (@KeyLe α) := ⟨fun a b => Std.Total.total a.1 b.1⟩

instance {α : Type} : IsTrans (JsString × α) KeyLe :=
  ⟨fun a b c hab hbc => IsTrans.trans a.1 b.1 c.1 hab hbc⟩

def joinComma : List JsString → JsString
  | [] => []
  | [t] => t
  | t :: u :: rest => t ++ 44 :: joinComma (u :: rest)

mutual
/-- The text with sorted members: strings, numbers and literals as `JSON.stringify` writes them. -/
def Json.serialize [NumberFormat N] : Json N → JsString
  | .null => js "null"
  | .bool true => js "true"
  | .bool false => js "false"
  | .num n => NumberFormat.text n
  | .str s => quote s
  | .arr items => 91 :: (joinComma (Json.serializeItems items) ++ [93])
  | .obj members =>
    123 :: (joinComma (((Json.serializeMembers members).insertionSort KeyLe).map
      fun m => quote m.1 ++ 58 :: m.2) ++ [125])
def Json.serializeItems [NumberFormat N] : List (Json N) → List JsString
  | [] => []
  | v :: items => v.serialize :: Json.serializeItems items
def Json.serializeMembers [NumberFormat N] : List (JsString × Json N) → List (JsString × JsString)
  | [] => []
  | (k, v) :: members => (k, v.serialize) :: Json.serializeMembers members
end

mutual
/-- The value with the members of every object sorted. -/
def Json.canonical : Json N → Json N
  | .arr items => .arr (Json.canonicalItems items)
  | .obj members => .obj ((Json.canonicalMembers members).insertionSort KeyLe)
  | v => v
def Json.canonicalItems : List (Json N) → List (Json N)
  | [] => []
  | v :: items => v.canonical :: Json.canonicalItems items
def Json.canonicalMembers : List (JsString × Json N) → List (JsString × Json N)
  | [] => []
  | (k, v) :: members => (k, v.canonical) :: Json.canonicalMembers members
end

/-- No object names a key twice. -/
inductive Json.Proper : Json N → Prop
  | null : Json.Proper .null
  | bool (b : Bool) : Json.Proper (.bool b)
  | num (n : N) : Json.Proper (.num n)
  | str (s : JsString) : Json.Proper (.str s)
  | arr {items : List (Json N)} (h : ∀ v ∈ items, v.Proper) : Json.Proper (.arr items)
  | obj {members : List (JsString × Json N)} (hk : (members.map Prod.fst).Nodup)
      (h : ∀ m ∈ members, m.2.Proper) : Json.Proper (.obj members)

lemma serializeItems_eq [NumberFormat N] (items : List (Json N)) :
    Json.serializeItems items = items.map Json.serialize := by
  induction items with
  | nil => rfl
  | cons v items ih => rw [Json.serializeItems, ih, List.map_cons]

lemma serializeMembers_eq [NumberFormat N] (members : List (JsString × Json N)) :
    Json.serializeMembers members = members.map fun m => (m.1, m.2.serialize) := by
  induction members with
  | nil => rfl
  | cons m members ih => rw [Json.serializeMembers, ih, List.map_cons]

lemma canonicalItems_eq (items : List (Json N)) :
    Json.canonicalItems items = items.map Json.canonical := by
  induction items with
  | nil => rfl
  | cons v items ih => rw [Json.canonicalItems, ih, List.map_cons]

lemma canonicalMembers_eq (members : List (JsString × Json N)) :
    Json.canonicalMembers members = members.map fun m => (m.1, m.2.canonical) := by
  induction members with
  | nil => rfl
  | cons m members ih => rw [Json.canonicalMembers, ih, List.map_cons]

lemma sort_mapValues {α β : Type} (f : α → β) (members : List (JsString × α)) :
    (members.map fun m => (m.1, f m.2)).insertionSort KeyLe =
      (members.insertionSort KeyLe).map fun m => (m.1, f m.2) :=
  (List.map_insertionSort KeyLe KeyLe (fun m => (m.1, f m.2)) members fun _ _ _ _ => Iff.rfl).symm

lemma serialize_obj [NumberFormat N] (members : List (JsString × Json N)) :
    (Json.obj members).serialize = 123 :: (joinComma ((members.insertionSort KeyLe).map
      fun m => quote m.1 ++ 58 :: m.2.serialize) ++ [125]) := by
  rw [Json.serialize, serializeMembers_eq, sort_mapValues, List.map_map]
  rfl

lemma serialize_arr [NumberFormat N] (items : List (Json N)) :
    (Json.arr items).serialize = 91 :: (joinComma (items.map Json.serialize) ++ [93]) := by
  rw [Json.serialize, serializeItems_eq]

lemma canonical_obj (members : List (JsString × Json N)) :
    (Json.obj members).canonical =
      .obj ((members.insertionSort KeyLe).map fun m => (m.1, m.2.canonical)) := by
  rw [Json.canonical, canonicalMembers_eq, sort_mapValues]

lemma canonical_arr (items : List (Json N)) :
    (Json.arr items).canonical = .arr (items.map Json.canonical) := by
  rw [Json.canonical, canonicalItems_eq]

end Canonical

section Parser

variable {N : Type} [NumberFormat N]

def isSpace (u : CodeUnit) : Bool := u == 32 || u == 9 || u == 10 || u == 13

def skipSpace (s : JsString) : JsString := s.dropWhile isSpace

def expect (u : CodeUnit) : JsString → Option JsString
  | v :: s => if v = u then some s else none
  | [] => none

def parseLiteral (literal : JsString) (v : Json N) (s : JsString) : Option (Json N × JsString) :=
  if literal.isPrefixOf s then some (v, s.drop literal.length) else none

def parseNumber (s : JsString) : Option (Json N × JsString) :=
  if isNumberLiteral (s.takeWhile isNumberUnit) then
    (NumberFormat.read (s.takeWhile isNumberUnit)).map fun n => (.num n, s.dropWhile isNumberUnit)
  else none

/-- A key that is named again keeps its place and takes the later value. -/
def setMember (members : List (JsString × Json N)) (m : JsString × Json N) :
    List (JsString × Json N) :=
  if m.1 ∈ members.map Prod.fst then members.map fun e => if e.1 = m.1 then m else e
  else members ++ [m]

mutual
def parseValue : ℕ → JsString → Option (Json N × JsString)
  | 0, _ => none
  | fuel + 1, s =>
    match skipSpace s with
    | [] => none
    | u :: s =>
      if u = 34 then (parseString s).map fun p => (.str p.1, p.2)
      else if u = 91 then
        match expect 93 (skipSpace s) with
        | some rest => some (.arr [], rest)
        | none => (parseItems fuel s).map fun p => (.arr p.1, p.2)
      else if u = 123 then
        match expect 125 (skipSpace s) with
        | some rest => some (.obj [], rest)
        | none => (parseMembers fuel s).map fun p => (.obj (p.1.foldl setMember []), p.2)
      else if u = 110 then parseLiteral (js "null") .null (u :: s)
      else if u = 116 then parseLiteral (js "true") (.bool true) (u :: s)
      else if u = 102 then parseLiteral (js "false") (.bool false) (u :: s)
      else parseNumber (u :: s)
def parseItems : ℕ → JsString → Option (List (Json N) × JsString)
  | 0, _ => none
  | fuel + 1, s => do
    let (v, rest) ← parseValue fuel s
    match expect 44 (skipSpace rest) with
    | some rest => (parseItems fuel rest).map fun p => (v :: p.1, p.2)
    | none => (expect 93 (skipSpace rest)).map fun rest => ([v], rest)
def parseMembers : ℕ → JsString → Option (List (JsString × Json N) × JsString)
  | 0, _ => none
  | fuel + 1, s => do
    let s ← expect 34 (skipSpace s)
    let (k, rest) ← parseString s
    let rest ← expect 58 (skipSpace rest)
    let (v, rest) ← parseValue fuel rest
    match expect 44 (skipSpace rest) with
    | some rest => (parseMembers fuel rest).map fun p => ((k, v) :: p.1, p.2)
    | none => (expect 125 (skipSpace rest)).map fun rest => ([(k, v)], rest)
end

/-- `JSON.parse`; a number whose value is not finite is refused here. -/
def parseJson (s : JsString) : Option (Json N) := do
  let (v, rest) ← parseValue (2 * s.length + 1) s
  if skipSpace rest = [] then some v else none

/-- What may follow a value: no number runs on into it. -/
def Follows (s : JsString) : Prop := ∀ u rest, s = u :: rest → isNumberUnit u = false

def ReadsBack (v : Json N) : Prop :=
  ∀ fuel s, 2 * v.serialize.length ≤ fuel → Follows s →
    parseValue fuel (v.serialize ++ s) = some (v.canonical, s)

lemma follows_cons {u : CodeUnit} {s : JsString} (h : isNumberUnit u = false) : Follows (u :: s) := by
  rintro _ _ ⟨⟩
  exact h

lemma skipSpace_cons {u : CodeUnit} {s : JsString} (h : isSpace u = false) :
    skipSpace (u :: s) = u :: s :=
  List.dropWhile_cons_of_neg (by simp [h])

lemma expect_cons (u : CodeUnit) (s : JsString) : expect u (u :: s) = some s := if_pos rfl

lemma expect_of_ne {u v : CodeUnit} (h : v ≠ u) (s : JsString) : expect u (v :: s) = none := if_neg h

omit [NumberFormat N] in
/-- A digit or a minus sign starts nothing but a number. -/
lemma head_number {u : CodeUnit} (hu : u = 45 ∨ isDigit u = true) : isSpace u = false ∧ u ≠ 34 ∧
    u ≠ 91 ∧ u ≠ 93 ∧ u ≠ 123 ∧ u ≠ 110 ∧ u ≠ 116 ∧ u ≠ 102 := by
  rcases hu with rfl | hu
  · decide
  · refine ⟨?_, ?_⟩
    · simp only [isDigit, decide_eq_true_eq] at hu
      simp only [isSpace, Bool.or_eq_false_iff, beq_eq_false_iff_ne]
      refine ⟨⟨⟨?_, ?_⟩, ?_⟩, ?_⟩ <;> rintro rfl <;> simp at hu
    · refine ⟨?_, ?_, ?_, ?_, ?_, ?_, ?_⟩ <;> rintro rfl <;> simp [isDigit] at hu

lemma head_text (n : N) : ∃ u rest, NumberFormat.text n = u :: rest ∧ isSpace u = false ∧ u ≠ 34 ∧
    u ≠ 91 ∧ u ≠ 93 ∧ u ≠ 123 ∧ u ≠ 110 ∧ u ≠ 116 ∧ u ≠ 102 := by
  obtain ⟨u, rest, ht, hu⟩ := head_of_isNumberLiteral (NumberFormat.literal_text n)
  exact ⟨u, rest, ht, head_number hu⟩

lemma head_serialize (v : Json N) :
    ∃ u rest, v.serialize = u :: rest ∧ isSpace u = false ∧ u ≠ 93 := by
  cases v with
  | null => exact ⟨110, _, rfl, by decide⟩
  | bool b => cases b
              · exact ⟨102, _, rfl, by decide⟩
              · exact ⟨116, _, rfl, by decide⟩
  | num n =>
    obtain ⟨u, rest, ht, hs, -, -, h, -⟩ := head_text n
    exact ⟨u, rest, by rw [Json.serialize, ht], hs, h⟩
  | str s => exact ⟨34, _, rfl, by decide⟩
  | arr items => exact ⟨91, _, rfl, by decide⟩
  | obj members => exact ⟨123, _, rfl, by decide⟩

lemma skipSpace_serialize (v : Json N) (s : JsString) :
    skipSpace (v.serialize ++ s) = v.serialize ++ s := by
  obtain ⟨u, rest, h, hu, -⟩ := head_serialize v
  rw [h, List.cons_append, skipSpace_cons hu]

lemma takeWhile_number {t s : JsString} (ht : ∀ u ∈ t, isNumberUnit u = true) (hs : Follows s) :
    (t ++ s).takeWhile isNumberUnit = t ∧ (t ++ s).dropWhile isNumberUnit = s := by
  induction t with
  | nil =>
    cases s with
    | nil => simp
    | cons u rest => simp [hs u rest rfl]
  | cons u t ih =>
    obtain ⟨h1, h2⟩ := ih fun v hv => ht v (by simp [hv])
    have hu := ht u (by simp)
    simp [hu, h1, h2]

lemma readsBack_num (n : N) : ReadsBack (.num n) := by
  intro fuel s hf hs
  obtain ⟨u, rest, ht, hsp, h1, h2, -, h3, h4, h5, h6⟩ := head_text n
  obtain ⟨hw, hd⟩ := takeWhile_number (isNumberUnit_of_accepts (NumberFormat.literal_text n)) hs
  simp only [Json.serialize] at hf ⊢
  obtain ⟨fuel, rfl⟩ : ∃ k, fuel = k + 1 := ⟨fuel - 1, by simp [ht] at hf; omega⟩
  have hp : parseNumber (NumberFormat.text n ++ s) = some (.num n, s) := by
    rw [parseNumber, hw, hd, if_pos (NumberFormat.literal_text n), NumberFormat.read_text]
    rfl
  rw [ht, List.cons_append] at hp ⊢
  rw [parseValue, skipSpace_cons hsp]
  simp only [if_neg h1, if_neg h2, if_neg h3, if_neg h4, if_neg h5, if_neg h6, hp]
  rfl

lemma readsBack_str (t : JsString) : ReadsBack (N := N) (.str t) := by
  intro fuel s hf _
  simp only [Json.serialize, quote] at hf ⊢
  obtain ⟨fuel, rfl⟩ : ∃ k, fuel = k + 1 := ⟨fuel - 1, by simp at hf; omega⟩
  rw [List.cons_append, parseValue, skipSpace_cons (by decide)]
  simp only [if_true, List.append_assoc, List.singleton_append, parseString_escapeUnits]
  rfl

omit [NumberFormat N] in
lemma parseLiteral_append (literal : JsString) (v : Json N) (s : JsString) :
    parseLiteral literal v (literal ++ s) = some (v, s) := by
  rw [parseLiteral, if_pos (List.isPrefixOf_iff_prefix.mpr (List.prefix_append _ _)), List.drop_left]

lemma readsBack_null : ReadsBack (N := N) .null := by
  intro fuel s hf _
  have ht : js "null" = [110, 117, 108, 108] := by decide
  have hp := parseLiteral_append (js "null") (.null : Json N) s
  simp only [Json.serialize] at hf ⊢
  rw [ht] at hp hf ⊢
  obtain ⟨fuel, rfl⟩ : ∃ k, fuel = k + 1 := ⟨fuel - 1, by simp at hf; omega⟩
  rw [List.cons_append] at hp ⊢
  rw [parseValue, skipSpace_cons (by decide)]
  simpa [ht, Json.canonical] using hp

lemma readsBack_bool (b : Bool) : ReadsBack (N := N) (.bool b) := by
  intro fuel s hf _
  cases b with
  | true =>
    have ht : js "true" = [116, 114, 117, 101] := by decide
    have hp := parseLiteral_append (js "true") (.bool true : Json N) s
    simp only [Json.serialize] at hf ⊢
    rw [ht] at hp hf ⊢
    obtain ⟨fuel, rfl⟩ : ∃ k, fuel = k + 1 := ⟨fuel - 1, by simp at hf; omega⟩
    rw [List.cons_append] at hp ⊢
    rw [parseValue, skipSpace_cons (by decide)]
    simpa [ht, Json.canonical] using hp
  | false =>
    have ht : js "false" = [102, 97, 108, 115, 101] := by decide
    have hp := parseLiteral_append (js "false") (.bool false : Json N) s
    simp only [Json.serialize] at hf ⊢
    rw [ht] at hp hf ⊢
    obtain ⟨fuel, rfl⟩ : ∃ k, fuel = k + 1 := ⟨fuel - 1, by simp at hf; omega⟩
    rw [List.cons_append] at hp ⊢
    rw [parseValue, skipSpace_cons (by decide)]
    simpa [ht, Json.canonical] using hp

lemma length_joinComma_cons (t u : JsString) (rest : List JsString) :
    (joinComma (t :: u :: rest)).length = t.length + 1 + (joinComma (u :: rest)).length := by
  rw [joinComma, List.length_append, List.length_cons]
  omega

/-- Items read back one by one up to the closing bracket. -/
lemma parseItems_join {items : List (Json N)} (hne : items ≠ []) (hr : ∀ v ∈ items, ReadsBack v)
    {fuel : ℕ} (hf : 2 * (joinComma (items.map Json.serialize)).length + 1 ≤ fuel) (s : JsString) :
    parseItems fuel (joinComma (items.map Json.serialize) ++ 93 :: s) =
      some (items.map Json.canonical, s) := by
  induction items generalizing fuel with
  | nil => exact absurd rfl hne
  | cons v items ih =>
    obtain ⟨fuel, rfl⟩ : ∃ k, fuel = k + 1 := ⟨fuel - 1, by omega⟩
    have hv := hr v (by simp)
    cases items with
    | nil =>
      simp only [List.map_cons, List.map_nil, joinComma] at hf ⊢
      rw [parseItems, hv fuel (93 :: s) (by omega) (follows_cons (by decide))]
      simp only [Option.bind_eq_bind, Option.bind_some, skipSpace_cons (by decide : isSpace 93 = false),
        expect_of_ne (by decide : (93 : CodeUnit) ≠ 44), expect_cons]
      rfl
    | cons w items =>
      simp only [List.map_cons] at hf ⊢ ih
      rw [length_joinComma_cons] at hf
      rw [joinComma, List.append_assoc, List.cons_append, parseItems,
        hv fuel _ (by omega) (follows_cons (by decide))]
      simp only [Option.bind_eq_bind, Option.bind_some, skipSpace_cons (by decide : isSpace 44 = false),
        expect_cons]
      rw [ih (by simp) (fun x hx => hr x (by simp [hx])) (by omega)]
      rfl

lemma readsBack_arr {items : List (Json N)} (hr : ∀ v ∈ items, ReadsBack v) : ReadsBack (.arr items) := by
  intro fuel s hf _
  rw [serialize_arr] at hf ⊢
  rw [canonical_arr]
  obtain ⟨fuel, rfl⟩ : ∃ k, fuel = k + 1 := ⟨fuel - 1, by simp at hf; omega⟩
  rw [List.cons_append, parseValue, skipSpace_cons (by decide)]
  simp only [if_neg (by decide : ¬(91 : CodeUnit) = 34), if_true, List.append_assoc, List.singleton_append]
  cases items with
  | nil => simp [joinComma, skipSpace_cons (by decide : isSpace 93 = false), expect_cons]
  | cons v items =>
    have hj : ∀ t : JsString, ∃ u rest, joinComma ((v :: items).map Json.serialize) ++ t = u :: rest ∧
        isSpace u = false ∧ u ≠ 93 := by
      intro t
      obtain ⟨u, rest, h, hu, hn⟩ := head_serialize v
      cases items with
      | nil => exact ⟨u, rest ++ t, by simp [joinComma, h], hu, hn⟩
      | cons w items =>
        exact ⟨u, _, by rw [List.map_cons, List.map_cons, joinComma, h]; rfl, hu, hn⟩
    obtain ⟨u, rest, h, hu, hn⟩ := hj (93 :: s)
    have hi := @parseItems_join _ _ _ (by simp) hr fuel (by
      simp only [List.length_cons, List.length_append] at hf
      omega) s
    rw [h] at hi ⊢
    rw [skipSpace_cons hu, expect_of_ne hn]
    simp only [hi]
    rfl

def memberText (m : JsString × Json N) : JsString := quote m.1 ++ 58 :: m.2.serialize

lemma parseMembers_member {m : JsString × Json N} (hm : ReadsBack m.2) {fuel : ℕ}
    (hf : 2 * (memberText m).length ≤ fuel) {s : JsString} (hs : Follows s) :
    parseMembers (fuel + 1) (memberText m ++ s) =
      match expect 44 (skipSpace s) with
      | some rest => (parseMembers fuel rest).map fun p => ((m.1, m.2.canonical) :: p.1, p.2)
      | none => (expect 125 (skipSpace s)).map fun rest => ([(m.1, m.2.canonical)], rest) := by
  rw [memberText, List.length_append, List.length_cons] at hf
  simp only [memberText, quote, List.cons_append, List.append_assoc, parseMembers]
  rw [skipSpace_cons (by decide), expect_cons]
  simp only [Option.bind_eq_bind, Option.bind_some, parseString_escapeUnits, List.nil_append]
  rw [skipSpace_cons (by decide), expect_cons, Option.bind_some, hm fuel s (by omega) hs,
    Option.bind_some]

/-- Members read back one by one up to the closing brace. -/
lemma parseMembers_join {members : List (JsString × Json N)} (hne : members ≠ [])
    (hr : ∀ m ∈ members, ReadsBack m.2) {fuel : ℕ}
    (hf : 2 * (joinComma (members.map memberText)).length + 1 ≤ fuel) (s : JsString) :
    parseMembers fuel (joinComma (members.map memberText) ++ 125 :: s) =
      some (members.map fun m => (m.1, m.2.canonical), s) := by
  induction members generalizing fuel with
  | nil => exact absurd rfl hne
  | cons m members ih =>
    obtain ⟨fuel, rfl⟩ : ∃ k, fuel = k + 1 := ⟨fuel - 1, by omega⟩
    have hm := hr m (by simp)
    cases members with
    | nil =>
      simp only [List.map_cons, List.map_nil, joinComma] at hf ⊢
      rw [parseMembers_member hm (by omega) (follows_cons (by decide)), skipSpace_cons (by decide),
        expect_of_ne (by decide), expect_cons]
      rfl
    | cons n members =>
      simp only [List.map_cons] at hf ⊢ ih
      rw [length_joinComma_cons] at hf
      rw [joinComma, List.append_assoc, List.cons_append,
        parseMembers_member hm (by omega) (follows_cons (by decide)), skipSpace_cons (by decide),
        expect_cons]
      simp only [ih (by simp) (fun x hx => hr x (by simp [hx])) (by omega : _ ≤ fuel)]
      rfl

omit [NumberFormat N] in
lemma foldl_setMember {members acc : List (JsString × Json N)}
    (h : ((acc ++ members).map Prod.fst).Nodup) : members.foldl setMember acc = acc ++ members := by
  induction members generalizing acc with
  | nil => simp
  | cons m members ih =>
    have hm : m.1 ∉ acc.map Prod.fst := by
      rw [List.map_append, List.map_cons, List.nodup_append] at h
      exact fun hin => h.2.2 _ hin _ (by simp) rfl
    rw [List.foldl_cons, setMember, if_neg hm, ih (by simpa using h)]
    simp

/-- `JSON.stringify` of an object whose members are listed in order. -/
def memberTexts (members : List (JsString × Json N)) : JsString :=
  123 :: (joinComma (members.map memberText) ++ [125])

lemma parseValue_members {members : List (JsString × Json N)} (hk : (members.map Prod.fst).Nodup)
    (hr : ∀ m ∈ members, ReadsBack m.2) {fuel : ℕ} (hf : 2 * (memberTexts members).length ≤ fuel) (s : JsString) :
    parseValue fuel (memberTexts members ++ s) = some (.obj (members.map fun m => (m.1, m.2.canonical)), s) := by
  unfold memberTexts at hf ⊢
  obtain ⟨fuel, rfl⟩ : ∃ k, fuel = k + 1 := ⟨fuel - 1, by simp at hf; omega⟩
  rw [List.cons_append, parseValue, skipSpace_cons (by decide)]
  simp only [if_neg (by decide : ¬(123 : CodeUnit) = 34), if_neg (by decide : ¬(123 : CodeUnit) = 91),
    if_true, List.append_assoc, List.singleton_append]
  cases members with
  | nil => simp [joinComma, skipSpace_cons (by decide : isSpace 125 = false), expect_cons]
  | cons m members =>
    have hi := @parseMembers_join _ _ _ (by simp) hr fuel (by
      simp only [List.length_cons, List.length_append] at hf
      omega) s
    have hh : ∃ rest, joinComma ((m :: members).map memberText) ++ 125 :: s = 34 :: rest := by
      cases members with
      | nil => exact ⟨_, rfl⟩
      | cons n members => exact ⟨_, rfl⟩
    obtain ⟨rest, h⟩ := hh
    rw [h] at hi ⊢
    rw [skipSpace_cons (by decide), expect_of_ne (by decide)]
    simp only [hi, Option.map_some]
    rw [foldl_setMember]
    · rfl
    · simpa [List.map_map, Function.comp_def] using hk

lemma readsBack_obj {members : List (JsString × Json N)} (hk : (members.map Prod.fst).Nodup)
    (hr : ∀ m ∈ members, ReadsBack m.2) : ReadsBack (.obj members) := by
  intro fuel s hf _
  have hsort : ∀ m ∈ members.insertionSort KeyLe, ReadsBack m.2 := fun m hm =>
    hr m ((List.mem_insertionSort KeyLe).mp hm)
  have hnodup : ((members.insertionSort KeyLe).map Prod.fst).Nodup :=
    ((List.perm_insertionSort KeyLe members).map Prod.fst).nodup_iff.mpr hk
  have htext : (Json.obj members).serialize = memberTexts (members.insertionSort KeyLe) := serialize_obj members
  rw [htext] at hf ⊢
  rw [canonical_obj]
  exact parseValue_members hnodup hsort hf s

/-- An object written in the order of its members reads as it is written. -/
theorem parseJson_memberTexts {members : List (JsString × Json N)} (hk : (members.map Prod.fst).Nodup)
    (hr : ∀ m ∈ members, ReadsBack m.2) :
    parseJson (memberTexts members) = some (.obj (members.map fun m => (m.1, m.2.canonical))) := by
  have hp := @parseValue_members _ _ _ hk hr (2 * (memberTexts members).length + 1) (by omega) []
  rw [List.append_nil] at hp
  rw [parseJson, hp]
  rfl

/-- Parsing the canonical text of a value gives the value with its members sorted. -/
theorem readsBack {v : Json N} (h : v.Proper) : ReadsBack v := by
  induction h with
  | null => exact readsBack_null
  | bool b => exact readsBack_bool b
  | num n => exact readsBack_num n
  | str s => exact readsBack_str s
  | arr _ ih => exact readsBack_arr ih
  | obj hk _ ih => exact readsBack_obj hk ih

theorem parseJson_serialize {v : Json N} (h : v.Proper) : parseJson v.serialize = some v.canonical := by
  have hr := readsBack h (2 * v.serialize.length + 1) [] (by omega) (by rintro _ _ ⟨⟩)
  rw [List.append_nil] at hr
  rw [parseJson, hr]
  rfl

lemma serialize_canonical {v : Json N} (h : v.Proper) : v.canonical.serialize = v.serialize := by
  induction h with
  | null | bool | num | str => rfl
  | @arr items _ ih =>
    have hm : items.map (Json.serialize ∘ Json.canonical) = items.map Json.serialize :=
      List.map_congr_left ih
    rw [canonical_arr, serialize_arr, serialize_arr, List.map_map, hm]
  | @obj members _ _ ih =>
    have hs : ∀ m ∈ members.insertionSort KeyLe, m.2.canonical.serialize = m.2.serialize :=
      fun m hm => ih m ((List.mem_insertionSort KeyLe).mp hm)
    rw [canonical_obj, serialize_obj, serialize_obj, sort_mapValues,
      (List.pairwise_insertionSort KeyLe members).insertionSort_eq, List.map_map,
      List.map_congr_left fun m hm => by rw [Function.comp_apply, hs m hm]]

/-- Two values have one canonical text exactly if they differ in the order of members only. -/
theorem serialize_eq_iff {v w : Json N} (hv : v.Proper) (hw : w.Proper) :
    v.serialize = w.serialize ↔ v.canonical = w.canonical := by
  constructor
  · intro h
    have h1 := parseJson_serialize hv
    rw [h, parseJson_serialize hw] at h1
    exact (Option.some.inj h1).symm
  · intro h
    rw [← serialize_canonical hv, h, serialize_canonical hw]

omit [NumberFormat N] in
lemma keys_setMember (members : List (JsString × Json N)) (m : JsString × Json N) :
    (setMember members m).map Prod.fst =
      if m.1 ∈ members.map Prod.fst then members.map Prod.fst else members.map Prod.fst ++ [m.1] := by
  unfold setMember
  split_ifs with h
  · rw [List.map_map]
    refine List.map_congr_left fun e _ => ?_
    simp only [Function.comp_apply]
    split_ifs with he
    · exact he.symm
    · rfl
  · rw [List.map_append, List.map_singleton]

omit [NumberFormat N] in
lemma mem_setMember {members : List (JsString × Json N)} {m e : JsString × Json N}
    (h : e ∈ setMember members m) : e ∈ members ∨ e = m := by
  unfold setMember at h
  split_ifs at h with hm
  · obtain ⟨x, hx, he⟩ := List.mem_map.mp h
    split_ifs at he with hk
    · exact .inr he.symm
    · exact .inl (he ▸ hx)
  · simpa using h

omit [NumberFormat N] in
lemma proper_foldl {members acc : List (JsString × Json N)} (ha : (Json.obj acc).Proper)
    (hm : ∀ m ∈ members, m.2.Proper) : (Json.obj (members.foldl setMember acc)).Proper := by
  induction members generalizing acc with
  | nil => exact ha
  | cons m members ih =>
    refine ih ?_ fun x hx => hm x (by simp [hx])
    cases ha with
    | obj hk h =>
      refine .obj ?_ fun e he => ?_
      · rw [keys_setMember]
        split_ifs with hin
        · exact hk
        · exact hk.append (List.nodup_singleton _) (by simpa using hin)
      · rcases mem_setMember he with he | rfl
        · exact h e he
        · exact hm e (by simp)

omit [NumberFormat N] in
lemma proper_of_parseLiteral {literal s r : JsString} {v w : Json N} (hv : v.Proper)
    (h : parseLiteral literal v s = some (w, r)) : w.Proper := by
  unfold parseLiteral at h
  split_ifs at h
  obtain ⟨rfl, -⟩ : v = w ∧ s.drop literal.length = r := by simpa using h
  exact hv

lemma proper_of_parseNumber {s r : JsString} {v : Json N} (h : parseNumber s = some (v, r)) :
    v.Proper := by
  unfold parseNumber at h
  split_ifs at h
  obtain ⟨n, -, he⟩ := Option.map_eq_some_iff.mp h
  obtain ⟨rfl, -⟩ : Json.num n = v ∧ _ = r := by simpa using he
  exact .num n

/-- The parser builds proper values only: one statement for each of its three functions. -/
lemma proper_of_parse (fuel : ℕ) :
    (∀ s (p : Json N × JsString), parseValue fuel s = some p → p.1.Proper) ∧
    (∀ s (p : List (Json N) × JsString), parseItems fuel s = some p → ∀ v ∈ p.1, v.Proper) ∧
    (∀ s (p : List (JsString × Json N) × JsString), parseMembers fuel s = some p →
      ∀ m ∈ p.1, m.2.Proper) := by
  induction fuel with
  | zero => exact ⟨by simp [parseValue], by simp [parseItems], by simp [parseMembers]⟩
  | succ fuel ih =>
    obtain ⟨ihv, ihi, ihm⟩ := ih
    refine ⟨fun s p h => ?_, fun s p h => ?_, fun s p h => ?_⟩
    · rw [parseValue] at h
      cases hs : skipSpace s with
      | nil => simp [hs] at h
      | cons u t =>
        simp only [hs] at h
        split_ifs at h with h1 h2 h3 h4 h5 h6
        · obtain ⟨q, -, rfl⟩ := Option.map_eq_some_iff.mp h
          exact .str q.1
        · cases he : expect 93 (skipSpace t) with
          | some rest =>
            obtain rfl : (Json.arr [], rest) = p := by simpa [he] using h
            exact .arr (by simp)
          | none =>
            simp only [he] at h
            obtain ⟨q, hq, rfl⟩ := Option.map_eq_some_iff.mp h
            exact .arr (ihi t q hq)
        · cases he : expect 125 (skipSpace t) with
          | some rest =>
            obtain rfl : (Json.obj [], rest) = p := by simpa [he] using h
            exact .obj (by simp) (by simp)
          | none =>
            simp only [he] at h
            obtain ⟨q, hq, rfl⟩ := Option.map_eq_some_iff.mp h
            exact proper_foldl (.obj (by simp) (by simp)) (ihm t q hq)
        · exact proper_of_parseLiteral .null h
        · exact proper_of_parseLiteral (.bool true) h
        · exact proper_of_parseLiteral (.bool false) h
        · exact proper_of_parseNumber h
    · rw [parseItems] at h
      simp only [Option.bind_eq_bind, Option.bind_eq_some_iff] at h
      obtain ⟨q, hq, h⟩ := h
      have hv := ihv s q hq
      cases he : expect 44 (skipSpace q.2) with
      | some rest =>
        simp only [he] at h
        obtain ⟨r, hr, rfl⟩ := Option.map_eq_some_iff.mp h
        simpa [hv] using ihi rest r hr
      | none =>
        simp only [he] at h
        obtain ⟨r, -, rfl⟩ := Option.map_eq_some_iff.mp h
        simpa using hv
    · rw [parseMembers] at h
      simp only [Option.bind_eq_bind, Option.bind_eq_some_iff] at h
      obtain ⟨t, -, k, -, rest, -, q, hq, h⟩ := h
      have hv := ihv rest q hq
      cases he : expect 44 (skipSpace q.2) with
      | some rest =>
        simp only [he] at h
        obtain ⟨r, hr, rfl⟩ := Option.map_eq_some_iff.mp h
        simpa [hv] using ihm rest r hr
      | none =>
        simp only [he] at h
        obtain ⟨r, -, rfl⟩ := Option.map_eq_some_iff.mp h
        simpa using hv

theorem proper_of_parseJson {s : JsString} {v : Json N} (h : parseJson s = some v) : v.Proper := by
  simp only [parseJson, Option.bind_eq_bind, Option.bind_eq_some_iff] at h
  obtain ⟨p, hp, h⟩ := h
  split_ifs at h
  obtain rfl : p.1 = v := by simpa using h
  exact (proper_of_parse _).1 _ p hp

end Parser

end TinyCloud.Text
