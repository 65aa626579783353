import Mathlib.Data.List.Forall2
import TinyCloud.Registry.StrictJson
import TinyCloud.Runs.Fallible

/-!
# The language of strict JSON

The grammar of JSON texts with the syntax trees it gives, the trees that the strict reader takes, and the value of each.
`Derives p s r` says that `s` is a text of the phrase `p` followed by `r`.
-/

namespace TinyCloud.Registry

open TinyCloud.Text TinyCloud.Runs

section Grammar

/-- One character of a string: as it is, after a backslash, or by its hexadecimal code unit. -/
inductive Piece
  | raw (u : CodeUnit)
  | simple (e v : CodeUnit)
  | unicode (a b c d v : CodeUnit)

/-- A syntax tree, whose numbers are as written. -/
inductive Tree
  | null
  | bool (b : Bool)
  | number (lexeme : JsString)
  | string (pieces : List Piece)
  | array (items : List Tree)
  | object (members : List (List Piece × Tree))

namespace Piece

def text : Piece → JsString
  | .raw u => [u]
  | .simple e _ => [92, e]
  | .unicode a b c d _ => [92, 117, a, b, c, d]

def unit : Piece → CodeUnit
  | .raw u => u
  | .simple _ v => v
  | .unicode _ _ _ _ v => v

inductive Valid : Piece → Prop
  | raw {u : CodeUnit} : 32 ≤ u.toNat → u ≠ 34 → u ≠ 92 → Valid (.raw u)
  | simple {e v : CodeUnit} : escapedUnit e = some v → Valid (.simple e v)
  | unicode {a b c d v : CodeUnit} : readHex4 a b c d = some v → Valid (.unicode a b c d v)

/-- Every escaped surrogate is a high one directly followed by an escaped low one. -/
inductive Paired : List Piece → Prop
  | nil : Paired []
  | raw {u : CodeUnit} {ps : List Piece} : Paired ps → Paired (.raw u :: ps)
  | simple {e v : CodeUnit} {ps : List Piece} : Paired ps → Paired (.simple e v :: ps)
  | unicode {a b c d v : CodeUnit} {ps : List Piece} : highSurrogate v = false → lowSurrogate v = false →
      Paired ps → Paired (.unicode a b c d v :: ps)
  | pair {a b c d v a' b' c' d' w : CodeUnit} {ps : List Piece} : highSurrogate v = true → lowSurrogate w = true →
      Paired ps → Paired (.unicode a b c d v :: .unicode a' b' c' d' w :: ps)

end Piece

def units (ps : List Piece) : JsString := ps.map Piece.unit

/-- The text of a string with its quotes, followed by `r`. -/
def quoted (ps : List Piece) (r : JsString) : JsString := 34 :: (ps.flatMap Piece.text ++ 34 :: r)

def Spaces (w : JsString) : Prop := ∀ u ∈ w, isSpace u = true

inductive Phrase
  | value (t : Tree)
  | items (ts : List Tree)
  | members (ms : List (List Piece × Tree))

inductive Derives : Phrase → JsString → JsString → Prop
  | null {r} : Derives (.value .null) (js "null" ++ r) r
  | true {r} : Derives (.value (.bool true)) (js "true" ++ r) r
  | false {r} : Derives (.value (.bool false)) (js "false" ++ r) r
  | number {l r} : isNumberLiteral l = Bool.true → Derives (.value (.number l)) (l ++ r) r
  | string {ps r} : (∀ p ∈ ps, p.Valid) → Derives (.value (.string ps)) (quoted ps r) r
  | emptyArray {w r} : Spaces w → Derives (.value (.array [])) (91 :: (w ++ 93 :: r)) r
  | array {ts s r} : Derives (.items ts) s (93 :: r) → Derives (.value (.array ts)) (91 :: s) r
  | emptyObject {w r} : Spaces w → Derives (.value (.object [])) (123 :: (w ++ 125 :: r)) r
  | object {ms s r} : Derives (.members ms) s (125 :: r) → Derives (.value (.object ms)) (123 :: s) r
  | item {w t s w' r} : Spaces w → Derives (.value t) s (w' ++ r) → Spaces w' → Derives (.items [t]) (w ++ s) r
  | items {w t s w' s' ts r} : Spaces w → Derives (.value t) s (w' ++ 44 :: s') → Spaces w' → Derives (.items ts) s' r →
      Derives (.items (t :: ts)) (w ++ s) r
  | member {w ps w₁ w₂ t s w' r} : Spaces w → (∀ p ∈ ps, p.Valid) → Spaces w₁ → Spaces w₂ →
      Derives (.value t) s (w' ++ r) → Spaces w' →
      Derives (.members [(ps, t)]) (w ++ quoted ps (w₁ ++ 58 :: (w₂ ++ s))) r
  | members {w ps w₁ w₂ t s w' s' ms r} : Spaces w → (∀ p ∈ ps, p.Valid) → Spaces w₁ → Spaces w₂ →
      Derives (.value t) s (w' ++ 44 :: s') → Spaces w' → Derives (.members ms) s' r →
      Derives (.members ((ps, t) :: ms)) (w ++ quoted ps (w₁ ++ 58 :: (w₂ ++ s))) r

/-- `text` is an RFC 8259 JSON text. -/
def IsJsonText (t : Tree) (text : JsString) : Prop :=
  ∃ w s w', Spaces w ∧ Derives (.value t) s w' ∧ Spaces w' ∧ text = w ++ s

/-- Integers only, escaped surrogates in pairs, no key twice, and at most `n` arrays and objects in each other. -/
inductive Tree.Strict : ℕ → Tree → Prop
  | null {n} : Strict n .null
  | bool {n b} : Strict n (.bool b)
  | number {n l} : isIntegerLiteral l = Bool.true → Strict n (.number l)
  | string {n ps} : Piece.Paired ps → Strict n (.string ps)
  | array {n ts} : (∀ t ∈ ts, Strict n t) → Strict (n + 1) (.array ts)
  | object {n ms} : (ms.map fun m => units m.1).Nodup → (∀ m ∈ ms, Piece.Paired m.1) → (∀ m ∈ ms, Strict n m.2) →
      Strict (n + 1) (.object ms)

/-- The value of a tree, if its numbers are integers. -/
inductive Tree.Means : Tree → Json JsonInteger → Prop
  | null : Means .null .null
  | bool {b} : Means (.bool b) (.bool b)
  | number (i : JsonInteger) : Means (.number i.lexeme) (.num i)
  | string {ps} : Means (.string ps) (.str (units ps))
  | array {ts vs} : List.Forall₂ Means ts vs → Means (.array ts) (.arr vs)
  | object {ms vs} : vs.map Prod.fst = (ms.map fun m => units m.1) →
      List.Forall₂ Means (ms.map Prod.snd) (vs.map Prod.snd) → Means (.object ms) (.obj vs)

end Grammar

section Spaces

variable {w s r : JsString} {u v : CodeUnit}

lemma exists_spaces (s : JsString) : ∃ w, Spaces w ∧ s = w ++ skipSpace s :=
  ⟨s.takeWhile isSpace, fun _ hu => List.mem_takeWhile_imp hu, (List.takeWhile_append_dropWhile).symm⟩

lemma skipSpace_append (hw : Spaces w) (s : JsString) : skipSpace (w ++ s) = skipSpace s :=
  List.dropWhile_append_of_pos hw

lemma expect_self (hw : Spaces w) (hu : isSpace u = false) : expect u (skipSpace (w ++ u :: r)) = some r := by
  rw [skipSpace_append hw, skipSpace_cons hu, expect_cons]

lemma expect_other (hw : Spaces w) (hv : isSpace v = false) (hne : v ≠ u) :
    expect u (skipSpace (w ++ v :: r)) = none := by
  rw [skipSpace_append hw, skipSpace_cons hv, expect_of_ne hne]

lemma exists_of_expect (h : expect u (skipSpace s) = some r) : ∃ w, Spaces w ∧ s = w ++ u :: r := by
  obtain ⟨w, hw, hs⟩ := exists_spaces s
  rw [expect_eq_some h] at hs
  exact ⟨w, hw, hs⟩

end Spaces

section Strings

variable {ps : List Piece} {s t r : JsString}

lemma continue_ok {p : Except String (JsString × JsString)} {f : JsString → JsString}
    (h : (do let (t, rest) ← p; return (f t, rest)) = .ok (t, r)) : ∃ t', p = .ok (t', r) ∧ t = f t' := by
  obtain ⟨⟨t', r'⟩, hp, h⟩ := bind_eq_ok h
  cases h
  exact ⟨t', hp, rfl⟩

/-- How a string goes on: it ends, or a piece comes, or a pair of escaped surrogates. -/
lemma parseStrictString_cases (h : parseStrictString s = .ok (t, r)) :
    (s = 34 :: r ∧ t = []) ∨
    (∃ p s' t', p.Valid ∧ (∀ ps, Piece.Paired ps → Piece.Paired (p :: ps)) ∧ s = p.text ++ s' ∧
      parseStrictString s' = .ok (t', r) ∧ t = p.unit :: t') ∨
    ∃ p q s' t', p.Valid ∧ q.Valid ∧ (∀ ps, Piece.Paired ps → Piece.Paired (p :: q :: ps)) ∧
      s = p.text ++ (q.text ++ s') ∧ parseStrictString s' = .ok (t', r) ∧ t = p.unit :: q.unit :: t' := by
  rw [parseStrictString.eq_def] at h
  split at h
  · cases h
  · rename_i u s
    split_ifs at h with hquote hcontrol hbackslash
    · cases h
      exact .inl ⟨by rw [hquote], rfl⟩
    · subst hbackslash
      split at h
      · cases h
      · rename_i e s
        split_ifs at h with hunicode
        · subst hunicode
          split at h
          · rename_i a b c d s
            split at h
            · cases h
            · rename_i unit hunit
              split_ifs at h with hhigh hlow
              · split at h
                · rename_i a' b' c' d' s
                  split at h
                  · cases h
                  · rename_i low hlow
                    split_ifs at h with hpair
                    obtain ⟨t', ht', rfl⟩ := continue_ok (f := fun t => unit :: low :: t) h
                    exact .inr (.inr ⟨.unicode a b c d unit, .unicode a' b' c' d' low, s, t', .unicode hunit, .unicode hlow,
                      fun ps hps => .pair hhigh hpair hps, rfl, ht', rfl⟩)
                · cases h
                · cases h
              · obtain ⟨t', ht', rfl⟩ := continue_ok h
                exact .inr (.inl ⟨.unicode a b c d unit, s, t', .unicode hunit,
                  fun ps hps => .unicode (by simpa using hhigh) (by simpa using hlow) hps, rfl, ht', rfl⟩)
          · cases h
        · split at h
          · rename_i v hv
            obtain ⟨t', ht', rfl⟩ := continue_ok h
            exact .inr (.inl ⟨.simple e v, s, t', .simple hv, fun ps hps => .simple hps, rfl, ht', rfl⟩)
          · cases h
    · obtain ⟨t', ht', rfl⟩ := continue_ok h
      exact .inr (.inl ⟨.raw u, s, t', .raw (by omega) hquote hbackslash, fun ps hps => .raw hps, rfl, ht', rfl⟩)

/-- What the reader takes for a string is one, with its escaped surrogates in pairs. -/
lemma parseStrictString_ok (h : parseStrictString s = .ok (t, r)) :
    ∃ ps, (∀ p ∈ ps, p.Valid) ∧ Piece.Paired ps ∧ units ps = t ∧ s = ps.flatMap Piece.text ++ 34 :: r := by
  induction hn : s.length using Nat.strong_induction_on generalizing s t with
  | _ n ih =>
    subst hn
    obtain ⟨rfl, rfl⟩ | ⟨p, s', t', hp, hpaired, rfl, ht', rfl⟩ | ⟨p, q, s', t', hp, hq, hpaired, rfl, ht', rfl⟩ :=
      parseStrictString_cases h
    · exact ⟨[], by simp, .nil, rfl, rfl⟩
    · obtain ⟨ps, hps, hpairs, rfl, rfl⟩ := ih _ (by cases p <;> simp [Piece.text] <;> omega) ht' rfl
      refine ⟨p :: ps, ?_, hpaired ps hpairs, rfl, by simp⟩
      simpa using ⟨hp, hps⟩
    · obtain ⟨ps, hps, hpairs, rfl, rfl⟩ :=
        ih _ (by cases p <;> cases q <;> simp [Piece.text] <;> omega) ht' rfl
      refine ⟨p :: q :: ps, ?_, hpaired ps hpairs, rfl, by simp⟩
      simpa using ⟨hp, hq, hps⟩

lemma parseStrictString_text (hps : ∀ p ∈ ps, p.Valid) (hpaired : Piece.Paired ps) (r : JsString) :
    parseStrictString (ps.flatMap Piece.text ++ 34 :: r) = .ok (units ps, r) := by
  induction hpaired with
  | nil =>
    rw [List.flatMap_nil, List.nil_append, parseStrictString.eq_def]
    rfl
  | @raw u ps _ ih =>
    obtain ⟨hu, hps⟩ := List.forall_mem_cons.mp hps
    cases hu with
    | raw hle hquote hbackslash =>
      rw [List.flatMap_cons, List.append_assoc, Piece.text, List.singleton_append, parseStrictString.eq_def]
      simp only [if_neg hquote, if_neg (show ¬ u.toNat < 32 by omega), if_neg hbackslash, ih hps]
      rfl
  | @simple e v ps _ ih =>
    obtain ⟨he, hps⟩ := List.forall_mem_cons.mp hps
    cases he with
    | simple he =>
      have hne : e ≠ 117 := by
        rintro rfl
        cases he
      rw [List.flatMap_cons, List.append_assoc, Piece.text, List.cons_append, List.singleton_append,
        parseStrictString.eq_def]
      simp only [if_neg hne, he, ih hps]
      rfl
  | @unicode a b c d v ps hhigh hlow _ ih =>
    obtain ⟨hv, hps⟩ := List.forall_mem_cons.mp hps
    cases hv with
    | unicode hv =>
      rw [List.flatMap_cons, List.append_assoc, Piece.text, parseStrictString.eq_def]
      simp only [List.cons_append, List.nil_append, hv, hhigh, hlow, ih hps]
      rfl
  | @pair a b c d v a' b' c' d' w ps hhigh hlow _ ih =>
    obtain ⟨hv, hps⟩ := List.forall_mem_cons.mp hps
    obtain ⟨hw, hps⟩ := List.forall_mem_cons.mp hps
    cases hv with
    | unicode hv => cases hw with
      | unicode hw =>
        rw [List.flatMap_cons, List.flatMap_cons, Piece.text, Piece.text, parseStrictString.eq_def]
        simp only [List.cons_append, List.nil_append, hv, hw, hhigh, hlow, if_true, ih hps]
        rfl

/-- `JSON.parse` reads the same string, and takes surrogates as they come. -/
lemma parseString_text (hps : ∀ p ∈ ps, p.Valid) (r : JsString) :
    parseString (ps.flatMap Piece.text ++ 34 :: r) = some (units ps, r) := by
  induction ps with
  | nil =>
    rw [List.flatMap_nil, List.nil_append, parseString.eq_def]
    rfl
  | cons p ps ih =>
    obtain ⟨hp, hrest⟩ := List.forall_mem_cons.mp hps
    rw [List.flatMap_cons, List.append_assoc]
    cases hp with
    | raw hle hquote hbackslash =>
      rw [Piece.text, List.singleton_append, parseString_raw hquote hbackslash hle, ih hrest]
      rfl
    | simple he =>
      rw [Piece.text, List.cons_append, List.singleton_append, parseString_escaped he ?_, ih hrest]
      · rfl
      · rintro rfl
        cases he
    | unicode hv =>
      simp only [readHex4, Option.bind_eq_bind, Option.bind_eq_some_iff, Option.pure_def, Option.some.injEq] at hv
      obtain ⟨a, ha, b, hb, c, hc, d, hd, rfl⟩ := hv
      rw [Piece.text, parseString.eq_def]
      simp only [List.cons_append, List.nil_append, ha, hb, hc, hd, ih hrest, if_true, Option.bind_eq_bind, Option.bind_some]
      rfl

end Strings

section Numbers

variable {s l r : JsString} {u : CodeUnit}

lemma number_unit (h : isNumberUnit u = false) : isDigit u = false ∧ isExponent u = false ∧ u ≠ 46 := by
  simp only [isNumberUnit, Bool.or_eq_false_iff, beq_eq_false_iff_ne] at h
  exact ⟨h.1.1.1, h.1.1.2, h.2⟩

lemma nil_of_zero (hs : ∀ u ∈ s, (isDigit u || u == 45) = true) (h : NumberState.zero.accepts s = true) : s = [] := by
  cases s with
  | nil => rfl
  | cons u s =>
    have hu := hs u List.mem_cons_self
    have hpoint : (u == 46) = false := by
      by_contra hne
      obtain rfl : u = 46 := by simpa using hne
      revert hu
      decide
    have hexponent : isExponent u = false := by
      by_contra hne
      obtain rfl | rfl : u = 101 ∨ u = 69 := by simpa [isExponent, or_iff_not_imp_left] using hne
      all_goals revert hu; decide
    rw [NumberState.accepts, NumberState.step, hpoint, hexponent] at h
    cases h

lemma digits_of_int (hs : ∀ u ∈ s, (isDigit u || u == 45) = true) (h : NumberState.int.accepts s = true) :
    ∀ u ∈ s, isDigit u = true := by
  induction s with
  | nil => simp
  | cons u s ih =>
    have hu := hs u List.mem_cons_self
    have hdigit : isDigit u = true := by
      by_contra hne
      rw [Bool.not_eq_true] at hne
      obtain rfl : u = 45 := by simpa [hne] using hu
      rw [NumberState.accepts, NumberState.step, hne] at h
      cases h
    rw [NumberState.accepts, NumberState.step, if_pos hdigit] at h
    intro v hv
    obtain rfl | hv := List.mem_cons.mp hv
    · exact hdigit
    · exact ih (fun w hw => hs w (List.mem_cons_of_mem u hw)) h v hv

lemma takeWhile_digits (hl : ∀ u ∈ l, isDigit u = true) (hr : Follows r) :
    (l ++ r).takeWhile isDigit = l ∧ (l ++ r).dropWhile isDigit = r := by
  rw [List.takeWhile_append_of_pos hl, List.dropWhile_append_of_pos hl]
  cases r with
  | nil => simp
  | cons u r =>
    have hu := (number_unit (hr u r rfl)).1
    simp [hu]

lemma matchDigits_append {q : NumberState} (hq : q = .start ∨ q = .minus)
    (hl : ∀ u ∈ l, (isDigit u || u == 45) = true) (h : q.accepts l = true) (hminus : ∀ t, l ≠ 45 :: t)
    (hr : Follows r) : matchDigits (l ++ r) = some (l, r) := by
  cases l with
  | nil => obtain rfl | rfl := hq <;> cases h
  | cons u l =>
    have hrest : ∀ v ∈ l, (isDigit v || v == 45) = true := fun v hv => hl v (List.mem_cons_of_mem u hv)
    have hne : u ≠ 45 := fun he => hminus l (by rw [he])
    have hstep : (u = 48 ∧ NumberState.zero.accepts l = true) ∨
        (u ≠ 48 ∧ isDigit u = true ∧ NumberState.int.accepts l = true) := by
      obtain rfl | rfl := hq
      all_goals
        simp only [NumberState.accepts, NumberState.step, beq_iff_eq, hne, if_false] at h
        split_ifs at h with hzero hdigit
        · exact .inl ⟨hzero, h⟩
        · exact .inr ⟨hzero, hdigit, h⟩
    obtain ⟨rfl, hzero⟩ | ⟨hzero, hdigit, hint⟩ := hstep
    · obtain rfl := nil_of_zero hrest hzero
      rfl
    · obtain ⟨htake, hdrop⟩ := takeWhile_digits (digits_of_int hrest hint) hr
      rw [List.cons_append, matchDigits, if_neg hzero, if_pos hdigit, htake, hdrop]

lemma matchInteger_append (hl : isIntegerLiteral l = true) (hr : Follows r) : matchInteger (l ++ r) = some (l, r) := by
  simp only [isIntegerLiteral, isNumberLiteral, Bool.and_eq_true, List.all_eq_true] at hl
  obtain ⟨haccepts, hall⟩ := hl
  cases l with
  | nil => cases haccepts
  | cons u l =>
    by_cases hu : u = 45
    · subst hu
      have hminus : ∀ t, l ≠ 45 :: t := by
        rintro t rfl
        cases haccepts
      have hdigits := matchDigits_append (.inr rfl) (fun v hv => hall v (List.mem_cons_of_mem _ hv)) haccepts hminus hr
      rw [matchInteger, List.cons_append, expect_cons]
      simp only [hdigits, Option.map_some]
    · have hdigits := matchDigits_append (.inl rfl) hall haccepts (fun t ht => hu (List.cons.inj ht).1) hr
      rw [matchInteger, List.cons_append, expect_of_ne hu]
      exact hdigits

lemma parseStrictNumber_append (hl : isIntegerLiteral l = true) (hr : Follows r) :
    parseStrictNumber (l ++ r) = .ok (.num ⟨l, hl⟩, r) := by
  have hinteger := matchInteger_append hl hr
  have hfraction : matchesFraction r = false := by
    cases r with
    | nil => rfl
    | cons u r =>
      rw [matchesFraction, expect_of_ne (number_unit (hr u r rfl)).2.2]
      rfl
  have hexponent : matchesExponent r = false := by
    cases r with
    | nil => rfl
    | cons u r => rw [matchesExponent, (number_unit (hr u r rfl)).2.1, Bool.false_and]
  unfold parseStrictNumber
  split
  · rename_i h
    rw [hinteger] at h
    cases h
  · rename_i lexeme rest h
    rw [hinteger] at h
    cases h
    simp only [hfraction, hexponent]
    rfl

lemma parseStrictNumber_ok {v : Json JsonInteger} (h : parseStrictNumber s = .ok (v, r)) :
    ∃ i : JsonInteger, v = .num i ∧ s = i.lexeme ++ r := by
  unfold parseStrictNumber at h
  split at h
  · cases h
  · rename_i lexeme rest hm
    split_ifs at h
    cases h
    exact ⟨_, rfl, (matchInteger_spec hm).1⟩

end Numbers

end TinyCloud.Registry
