import Mathlib.Data.List.TakeWhile
import TinyCloud.Text.Json

/-!
# Strict JSON

The reader of registry responses, over the code units of a text. An integer keeps its lexeme. The error texts are
those of the source without the position.
-/

namespace TinyCloud.Registry

open TinyCloud.Text

section Numbers

def isIntegerLiteral (s : JsString) : Bool := isNumberLiteral s && s.all fun u => isDigit u || u == 45

lemma isNumberLiteral_of_integer {s : JsString} (h : isIntegerLiteral s = true) : isNumberLiteral s = true :=
  (Bool.and_eq_true_iff.mp h).1

structure JsonInteger where
  lexeme : JsString
  integer : isIntegerLiteral lexeme = true

/-- The digits of `0|[1-9][0-9]*` and what follows them. -/
def matchDigits : JsString → Option (JsString × JsString)
  | [] => none
  | u :: s =>
    if u = 48 then some ([48], s)
    else if isDigit u then some (u :: s.takeWhile isDigit, s.dropWhile isDigit)
    else none

/-- `-?(0|[1-9][0-9]*)` -/
def matchInteger (s : JsString) : Option (JsString × JsString) :=
  match expect 45 s with
  | some s => (matchDigits s).map fun p => (45 :: p.1, p.2)
  | none => matchDigits s

def startsWithDigit (s : JsString) : Bool := s.head?.any isDigit

/-- `\.[0-9]+` -/
def matchesFraction (s : JsString) : Bool := (expect 46 s).any startsWithDigit

/-- `[eE][+-]?[0-9]+` -/
def matchesExponent : JsString → Bool
  | [] => false
  | u :: s => isExponent u && (startsWithDigit s || (s.head?.any isSign && startsWithDigit s.tail))

lemma expect_eq_some {u : CodeUnit} {s t : JsString} (h : expect u s = some t) : s = u :: t := by
  cases s with
  | nil => cases h
  | cons v s =>
    simp only [expect] at h
    split_ifs at h with hv
    cases h
    rw [hv]

lemma accepts_digits {s : JsString} (h : ∀ u ∈ s, isDigit u = true) : NumberState.int.accepts s = true := by
  induction s with
  | nil => rfl
  | cons u s ih =>
    rw [NumberState.accepts, NumberState.step, if_pos (h u List.mem_cons_self)]
    exact ih fun v hv => h v (List.mem_cons_of_mem u hv)

lemma matchDigits_spec {s l r : JsString} (h : matchDigits s = some (l, r)) :
    s = l ++ r ∧ (∀ u ∈ l, isDigit u = true) ∧ NumberState.start.accepts l = true ∧
      NumberState.minus.accepts l = true := by
  cases s with
  | nil => cases h
  | cons u s =>
    simp only [matchDigits] at h
    split_ifs at h with hzero hdigit
    · cases h
      subst hzero
      exact ⟨rfl, by decide, by decide, by decide⟩
    · cases h
      have htail : ∀ v ∈ s.takeWhile isDigit, isDigit v = true := fun v hv => List.mem_takeWhile_imp hv
      have hminus : u ≠ 45 := by
        rintro rfl
        revert hdigit
        decide
      refine ⟨by rw [List.cons_append, List.takeWhile_append_dropWhile], ?_, ?_, ?_⟩
      · intro v hv
        obtain rfl | hv := List.mem_cons.mp hv
        · exact hdigit
        · exact htail v hv
      · simp only [NumberState.accepts, NumberState.step, beq_iff_eq, hminus, hzero, hdigit, if_false, if_true]
        exact accepts_digits htail
      · simp only [NumberState.accepts, NumberState.step, beq_iff_eq, hzero, hdigit, if_false, if_true]
        exact accepts_digits htail

lemma matchInteger_spec {s l r : JsString} (h : matchInteger s = some (l, r)) :
    s = l ++ r ∧ isIntegerLiteral l = true := by
  unfold matchInteger at h
  split at h
  · rename_i t ht
    obtain ⟨⟨digits, rest⟩, hp, heq⟩ := Option.map_eq_some_iff.mp h
    cases heq
    obtain ⟨rfl, hdigits, -, haccepts⟩ := matchDigits_spec hp
    refine ⟨(expect_eq_some ht).trans rfl, ?_⟩
    simp only [isIntegerLiteral, isNumberLiteral, Bool.and_eq_true, List.all_eq_true]
    refine ⟨haccepts, fun u hu => ?_⟩
    obtain rfl | hu := List.mem_cons.mp hu
    · rfl
    · rw [hdigits u hu, Bool.true_or]
  · obtain ⟨rfl, hdigits, haccepts, -⟩ := matchDigits_spec h
    refine ⟨rfl, ?_⟩
    simp only [isIntegerLiteral, isNumberLiteral, Bool.and_eq_true, List.all_eq_true]
    refine ⟨haccepts, fun u hu => ?_⟩
    rw [hdigits u hu, Bool.true_or]

/-- A number without a fraction and without an exponent. -/
def parseStrictNumber (s : JsString) : Except String (Json JsonInteger × JsString) :=
  match h : matchInteger s with
  | none => .error "unexpected token"
  | some (lexeme, rest) =>
    if matchesFraction rest || matchesExponent rest then .error "non-integer number"
    else .ok (.num ⟨lexeme, (matchInteger_spec h).2⟩, rest)

end Numbers

section Strings

/-- The value of four hexadecimal digits. -/
def readHex4 (a b c d : CodeUnit) : Option CodeUnit := do
  let a ← hexValue a
  let b ← hexValue b
  let c ← hexValue c
  let d ← hexValue d
  return UInt16.ofNat (a * 4096 + b * 256 + c * 16 + d)

/-- The rest of a string after its opening quote. -/
def parseStrictString : JsString → Except String (JsString × JsString)
  | [] => .error "unterminated string"
  | u :: s =>
    if u = 34 then .ok ([], s)
    else if u.toNat < 32 then .error "control character in string"
    else if u = 92 then
      match s with
      | [] => .error "bad escape"
      | e :: s =>
        if e = 117 then
          match s with
          | a :: b :: c :: d :: s =>
            match readHex4 a b c d with
            | none => .error "bad \\u escape"
            | some unit =>
              if highSurrogate unit then
                match s with
                | 92 :: 117 :: a :: b :: c :: d :: s =>
                  match readHex4 a b c d with
                  | none => .error "bad \\u escape"
                  | some low =>
                    if lowSurrogate low then do
                      let (t, rest) ← parseStrictString s
                      return (unit :: low :: t, rest)
                    else .error "unpaired surrogate"
                | 92 :: 117 :: _ => .error "bad \\u escape"
                | _ => .error "unpaired surrogate"
              else if lowSurrogate unit then .error "unpaired surrogate"
              else do
                let (t, rest) ← parseStrictString s
                return (unit :: t, rest)
          | _ => .error "bad \\u escape"
        else match escapedUnit e with
          | some v => do
            let (t, rest) ← parseStrictString s
            return (v :: t, rest)
          | none => .error "bad escape"
    else do
      let (t, rest) ← parseStrictString s
      return (u :: t, rest)

end Strings

section Values

def maxJsonDepth : ℕ := 32

inductive Stop
  | outOfFuel
  | fail (what : String)
  deriving DecidableEq

def scan {α : Type} (r : Except String α) : Except Stop α := r.mapError .fail

/-- A literal or a number. -/
def parseScalar (s : JsString) : Except Stop (Json JsonInteger × JsString) :=
  if (js "true").isPrefixOf s then .ok (.bool true, s.drop 4)
  else if (js "false").isPrefixOf s then .ok (.bool false, s.drop 5)
  else if (js "null").isPrefixOf s then .ok (.null, s.drop 4)
  else scan (parseStrictNumber s)

-- Each call takes one unit of fuel; `depth` counts the arrays and objects around a value.
mutual
def parseStrictValue : ℕ → ℕ → JsString → Except Stop (Json JsonInteger × JsString)
  | 0, _, _ => .error .outOfFuel
  | fuel + 1, depth, s =>
    match skipSpace s with
    | [] => .error (.fail "unexpected token")
    | u :: s =>
      if u = 123 then
        if maxJsonDepth ≤ depth then .error (.fail "nesting too deep")
        else match expect 125 (skipSpace s) with
          | some rest => .ok (.obj [], rest)
          | none => do
            let (object, rest) ← parseStrictMembers fuel depth [] s
            return (.obj object, rest)
      else if u = 91 then
        if maxJsonDepth ≤ depth then .error (.fail "nesting too deep")
        else match expect 93 (skipSpace s) with
          | some rest => .ok (.arr [], rest)
          | none => do
            let (array, rest) ← parseStrictItems fuel depth [] s
            return (.arr array, rest)
      else if u = 34 then do
        let (t, rest) ← scan (parseStrictString s)
        return (.str t, rest)
      else parseScalar (u :: s)
def parseStrictItems : ℕ → ℕ → List (Json JsonInteger) → JsString → Except Stop (List (Json JsonInteger) × JsString)
  | 0, _, _, _ => .error .outOfFuel
  | fuel + 1, depth, array, s => do
    let (v, rest) ← parseStrictValue fuel (depth + 1) s
    match expect 44 (skipSpace rest) with
    | some rest => parseStrictItems fuel depth (array ++ [v]) rest
    | none => match expect 93 (skipSpace rest) with
      | some rest => .ok (array ++ [v], rest)
      | none => .error (.fail "expected ',' or ']'")
def parseStrictMembers : ℕ → ℕ → List (JsString × Json JsonInteger) → JsString →
    Except Stop (List (JsString × Json JsonInteger) × JsString)
  | 0, _, _, _ => .error .outOfFuel
  | fuel + 1, depth, object, s =>
    match expect 34 (skipSpace s) with
    | none => .error (.fail "expected key")
    | some s => do
      let (key, rest) ← scan (parseStrictString s)
      if key ∈ object.map Prod.fst then .error (.fail "duplicate key")
      else match expect 58 (skipSpace rest) with
        | none => .error (.fail "expected ':'")
        | some rest => do
          let (v, rest) ← parseStrictValue fuel (depth + 1) rest
          match expect 44 (skipSpace rest) with
          | some rest => parseStrictMembers fuel depth (object ++ [(key, v)]) rest
          | none => match expect 125 (skipSpace rest) with
            | some rest => .ok (object ++ [(key, v)], rest)
            | none => .error (.fail "expected ',' or '\x7d'")
end

/-- `parseStrictJson` with a bound on the calls under way. -/
def parseStrictJsonWith (fuel : ℕ) (text : JsString) : Except Stop (Json JsonInteger) := do
  let (value, rest) ← parseStrictValue fuel 0 text
  if skipSpace rest = [] then return value else .error (.fail "trailing data")

def parseStrictJson (text : JsString) : Except Stop (Json JsonInteger) := parseStrictJsonWith (2 * text.length + 1) text

end Values

end TinyCloud.Registry
