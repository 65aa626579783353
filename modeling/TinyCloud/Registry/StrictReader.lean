import TinyCloud.Registry.StrictLanguage

/-! The strict reader takes exactly the strict texts, always stops, and reads what `JSON.parse` reads. -/

namespace TinyCloud.Registry

open TinyCloud.Text TinyCloud.Runs

section Scalars

variable {s r t : JsString} {v : Json JsonInteger} {n : ℕ}

lemma scan_ok {α : Type} {p : Except String α} {a : α} (h : scan p = .ok a) : p = .ok a := by
  cases p with
  | error e => cases h
  | ok b =>
    cases h
    rfl

lemma of_isPrefixOf {l : JsString} (h : l.isPrefixOf s = true) : s = l ++ s.drop l.length := by
  obtain ⟨r, rfl⟩ := List.isPrefixOf_iff_prefix.mp h
  rw [List.drop_left]

lemma parseScalar_ok (h : parseScalar s = .ok (v, r)) :
    ∃ t : Tree, Derives (.value t) s r ∧ t.Strict n ∧ t.Means v := by
  unfold parseScalar at h
  split_ifs at h with htrue hfalse hnull
  · cases h
    rw [of_isPrefixOf htrue]
    exact ⟨_, .true, .bool, .bool⟩
  · cases h
    rw [of_isPrefixOf hfalse]
    exact ⟨_, .false, .bool, .bool⟩
  · cases h
    rw [of_isPrefixOf hnull]
    exact ⟨_, .null, .null, .null⟩
  · obtain ⟨i, rfl, rfl⟩ := parseStrictNumber_ok (scan_ok h)
    exact ⟨.number i.lexeme, .number (isNumberLiteral_of_integer i.integer), .number i.integer, .number i⟩

end Scalars

section Sound

variable {s r : JsString} {fuel depth : ℕ}

/-- A text of the phrase, after some space. -/
def Padded (t : Tree) (s r : JsString) : Prop := ∃ w s', Spaces w ∧ s = w ++ s' ∧ Derives (.value t) s' r

/-- What each of the reader's functions takes is a text of the grammar within the limits. -/
lemma reader_sound (fuel : ℕ) :
    (∀ depth s v r, parseStrictValue fuel depth s = .ok (v, r) → depth ≤ maxJsonDepth →
      ∃ t, Padded t s r ∧ t.Strict (maxJsonDepth - depth) ∧ t.Means v) ∧
    (∀ depth array s l r, parseStrictItems fuel depth array s = .ok (l, r) → depth < maxJsonDepth →
      ∃ ts vs, Derives (.items ts) s (93 :: r) ∧ (∀ t ∈ ts, t.Strict (maxJsonDepth - (depth + 1))) ∧ l = array ++ vs ∧
        List.Forall₂ Tree.Means ts vs) ∧
    ∀ depth object s l r, parseStrictMembers fuel depth object s = .ok (l, r) → depth < maxJsonDepth →
      (object.map Prod.fst).Nodup →
      ∃ ms vs, Derives (.members ms) s (125 :: r) ∧ (∀ m ∈ ms, m.2.Strict (maxJsonDepth - (depth + 1))) ∧
        (∀ m ∈ ms, Piece.Paired m.1) ∧ l = object ++ vs ∧ (l.map Prod.fst).Nodup ∧
        vs.map Prod.fst = (ms.map fun m => units m.1) ∧ List.Forall₂ Tree.Means (ms.map Prod.snd) (vs.map Prod.snd) := by
  induction fuel with
  | zero => exact ⟨nofun, nofun, nofun⟩
  | succ fuel ih =>
    obtain ⟨ihvalue, ihitems, ihmembers⟩ := ih
    refine ⟨fun depth s v r h hdepth => ?_, fun depth array s l r h hdepth => ?_,
      fun depth object s l r h hdepth hobject => ?_⟩
    · obtain ⟨w, hw, hs⟩ := exists_spaces s
      rw [parseStrictValue] at h
      cases hskip : skipSpace s with
      | nil =>
        rw [hskip] at h
        cases h
      | cons u t =>
        rw [hskip] at h hs
        simp only at h
        split_ifs at h with hobject hdeep harray hdeep hstring
        · subst hobject
          have hn : maxJsonDepth - depth = maxJsonDepth - (depth + 1) + 1 := by omega
          rw [hn]
          cases hclose : expect 125 (skipSpace t) with
          | some rest =>
            rw [hclose] at h
            cases h
            obtain ⟨w₁, hw₁, rfl⟩ := exists_of_expect hclose
            exact ⟨.object [], ⟨w, _, hw, hs, .emptyObject hw₁⟩, .object List.nodup_nil (by simp) (by simp), .object rfl .nil⟩
          | none =>
            rw [hclose] at h
            obtain ⟨⟨object, rest⟩, hmembers, h⟩ := bind_eq_ok h
            cases h
            obtain ⟨ms, vs, hderives, hstrict, hpaired, rfl, hnodup, hkeys, hmeans⟩ :=
              ihmembers depth [] t object _ hmembers (by omega) List.nodup_nil
            rw [hkeys] at hnodup
            exact ⟨.object ms, ⟨w, _, hw, hs, .object hderives⟩, .object hnodup hpaired hstrict, .object hkeys hmeans⟩
        · subst harray
          have hn : maxJsonDepth - depth = maxJsonDepth - (depth + 1) + 1 := by omega
          rw [hn]
          cases hclose : expect 93 (skipSpace t) with
          | some rest =>
            rw [hclose] at h
            cases h
            obtain ⟨w₁, hw₁, rfl⟩ := exists_of_expect hclose
            exact ⟨.array [], ⟨w, _, hw, hs, .emptyArray hw₁⟩, .array (by simp), .array .nil⟩
          | none =>
            rw [hclose] at h
            obtain ⟨⟨array, rest⟩, hitems, h⟩ := bind_eq_ok h
            cases h
            obtain ⟨ts, vs, hderives, hstrict, rfl, hmeans⟩ := ihitems depth [] t array _ hitems (by omega)
            exact ⟨.array ts, ⟨w, _, hw, hs, .array hderives⟩, .array hstrict, .array hmeans⟩
        · subst hstring
          obtain ⟨⟨text, rest⟩, htext, h⟩ := bind_eq_ok h
          cases h
          obtain ⟨ps, hvalid, hpaired, rfl, rfl⟩ := parseStrictString_ok (scan_ok htext)
          exact ⟨.string ps, ⟨w, _, hw, hs, .string hvalid⟩, .string hpaired, .string⟩
        · obtain ⟨t', hderives, hstrict, hmeans⟩ := parseScalar_ok h
          exact ⟨t', ⟨w, _, hw, hs, hderives⟩, hstrict, hmeans⟩
    · rw [parseStrictItems] at h
      replace h := bind_eq_ok h
      obtain ⟨⟨v, rest⟩, hv, h⟩ := h
      obtain ⟨t, ⟨w, s', hw, rfl, hderives⟩, hstrict, hmeans⟩ := ihvalue (depth + 1) s v rest hv hdepth
      cases hcomma : expect 44 (skipSpace rest) with
      | some rest' =>
        simp only [hcomma] at h
        obtain ⟨w₁, hw₁, rfl⟩ := exists_of_expect hcomma
        obtain ⟨ts, vs, hitems, hall, rfl, hforall⟩ := ihitems depth (array ++ [v]) rest' l r h hdepth
        exact ⟨t :: ts, v :: vs, .items hw hderives hw₁ hitems, List.forall_mem_cons.mpr ⟨hstrict, hall⟩, by simp,
          .cons hmeans hforall⟩
      | none =>
        simp only [hcomma] at h
        cases hclose : expect 93 (skipSpace rest) with
        | none =>
          rw [hclose] at h
          cases h
        | some rest' =>
          simp only [hclose] at h
          cases h
          obtain ⟨w₁, hw₁, rfl⟩ := exists_of_expect hclose
          exact ⟨[t], [v], .item hw hderives hw₁, by simpa using hstrict, rfl, .cons hmeans .nil⟩
    · rw [parseStrictMembers] at h
      cases hquote : expect 34 (skipSpace s) with
      | none =>
        rw [hquote] at h
        cases h
      | some s₁ =>
        simp only [hquote] at h
        obtain ⟨w, hw, rfl⟩ := exists_of_expect hquote
        replace h := bind_eq_ok h
        obtain ⟨⟨key, s₂⟩, hkey, h⟩ := h
        obtain ⟨ps, hvalid, hpaired, rfl, rfl⟩ := parseStrictString_ok (scan_ok hkey)
        simp only at h
        split_ifs at h with hdup
        cases hcolon : expect 58 (skipSpace s₂) with
        | none =>
          rw [hcolon] at h
          cases h
        | some s₃ =>
          simp only [hcolon] at h
          obtain ⟨w₁, hw₁, rfl⟩ := exists_of_expect hcolon
          replace h := bind_eq_ok h
          obtain ⟨⟨v, rest⟩, hv, h⟩ := h
          obtain ⟨t, ⟨w₂, s', hw₂, rfl, hderives⟩, hstrict, hmeans⟩ := ihvalue (depth + 1) s₃ v rest hv hdepth
          have hnodup : ((object ++ [(units ps, v)]).map Prod.fst).Nodup := by
            rw [List.map_append]
            exact hobject.append (List.nodup_singleton _) (by simpa using hdup)
          cases hcomma : expect 44 (skipSpace rest) with
          | some rest' =>
            simp only [hcomma] at h
            obtain ⟨w', hw', rfl⟩ := exists_of_expect hcomma
            obtain ⟨ms, vs, hmembers, hall, hpairs, rfl, hn, hkeys, hforall⟩ :=
              ihmembers depth (object ++ [(units ps, v)]) rest' l r h hdepth hnodup
            exact ⟨(ps, t) :: ms, (units ps, v) :: vs, .members hw hvalid hw₁ hw₂ hderives hw' hmembers,
              List.forall_mem_cons.mpr ⟨hstrict, hall⟩, List.forall_mem_cons.mpr ⟨hpaired, hpairs⟩, by simp,
              hn, by simp [hkeys], .cons hmeans hforall⟩
          | none =>
            simp only [hcomma] at h
            cases hclose : expect 125 (skipSpace rest) with
            | none =>
              rw [hclose] at h
              cases h
            | some rest' =>
              rw [hclose] at h
              cases h
              obtain ⟨w', hw', rfl⟩ := exists_of_expect hclose
              exact ⟨[(ps, t)], [(units ps, v)], .member hw hvalid hw₁ hw₂ hderives hw', by simpa using hstrict,
                by simpa using hpaired, rfl, hnodup, rfl, .cons hmeans .nil⟩

end Sound

section Complete

variable {p : Phrase} {t : Tree} {s r w : JsString} {u : CodeUnit}

lemma length_quoted (ps : List Piece) (r : JsString) : r.length + 1 < (quoted ps r).length := by
  simp only [quoted, List.length_cons, List.length_append]
  omega

lemma Derives.length (h : Derives p s r) : r.length < s.length := by
  induction h with
  | null => simp [js, pointUnits]; omega
  | true => simp [js, pointUnits]; omega
  | false => simp [js, pointUnits]; omega
  | number hl =>
    obtain ⟨u, l, rfl, -⟩ := head_of_isNumberLiteral hl
    simp only [List.cons_append, List.length_cons, List.length_append]
    omega
  | string => exact (Nat.lt_succ_self _).trans (length_quoted _ _)
  | emptyArray => simp; omega
  | array _ ih => simp at ih ⊢; omega
  | emptyObject => simp; omega
  | object _ ih => simp at ih ⊢; omega
  | item _ _ _ ih => simp at ih ⊢; omega
  | items _ _ _ _ ih ih' => simp at ih ih' ⊢; omega
  | @member w ps w₁ w₂ t s w' r _ _ _ _ _ _ ih =>
    have hquoted := length_quoted ps (w₁ ++ 58 :: (w₂ ++ s))
    simp at ih hquoted ⊢
    omega
  | @members w ps w₁ w₂ t s w' s' ms r _ _ _ _ _ _ _ ih ih' =>
    have hquoted := length_quoted ps (w₁ ++ 58 :: (w₂ ++ s))
    simp at ih ih' hquoted ⊢
    omega

lemma follows_spaces (hw : Spaces w) (hu : isNumberUnit u = false) : Follows (w ++ u :: r) := by
  cases w with
  | nil => exact follows_cons hu
  | cons v w =>
    have hv := hw v List.mem_cons_self
    refine follows_cons ?_
    obtain rfl | rfl | rfl | rfl : v = 32 ∨ v = 9 ∨ v = 10 ∨ v = 13 := by simpa [isSpace, or_assoc] using hv
    all_goals decide

/-- How a value starts. -/
lemma head_value (h : Derives (.value t) s r) : ∃ u s', s = u :: s' ∧ isSpace u = false ∧ u ≠ 93 := by
  cases h with
  | null => exact ⟨110, _, rfl, by decide⟩
  | true => exact ⟨116, _, rfl, by decide⟩
  | false => exact ⟨102, _, rfl, by decide⟩
  | number hl =>
    obtain ⟨u, l, rfl, hu⟩ := head_of_isNumberLiteral hl
    obtain ⟨hspace, -, -, hclose, -⟩ := head_number hu
    exact ⟨u, _, rfl, hspace, hclose⟩
  | string => exact ⟨34, _, rfl, by decide⟩
  | emptyArray => exact ⟨91, _, rfl, by decide⟩
  | array => exact ⟨91, _, rfl, by decide⟩
  | emptyObject => exact ⟨123, _, rfl, by decide⟩
  | object => exact ⟨123, _, rfl, by decide⟩

/-- What the reader makes of a text of the phrase within its limits. -/
def Read : Phrase → JsString → JsString → Prop
  | .value t, s, r => ∀ fuel depth n w, Spaces w → t.Strict n → n + depth ≤ maxJsonDepth → Follows r → 2 * s.length < fuel →
      ∃ v, t.Means v ∧ parseStrictValue fuel depth (w ++ s) = .ok (v, r)
  | .items ts, s, r => ∀ fuel depth n array rest, r = 93 :: rest → (∀ t ∈ ts, t.Strict n) → n + (depth + 1) ≤ maxJsonDepth →
      2 * s.length + 1 < fuel →
      ∃ vs, List.Forall₂ Tree.Means ts vs ∧ parseStrictItems fuel depth array s = .ok (array ++ vs, rest)
  | .members ms, s, r => ∀ fuel depth n object rest, r = 125 :: rest → (∀ m ∈ ms, m.2.Strict n) →
      (∀ m ∈ ms, Piece.Paired m.1) → (object.map Prod.fst ++ ms.map fun m => units m.1).Nodup →
      n + (depth + 1) ≤ maxJsonDepth → 2 * s.length + 1 < fuel →
      ∃ vs, vs.map Prod.fst = (ms.map fun m => units m.1) ∧
        List.Forall₂ Tree.Means (ms.map Prod.snd) (vs.map Prod.snd) ∧
        parseStrictMembers fuel depth object s = .ok (object ++ vs, rest)

lemma read_scalar {t : Tree} {v : Json JsonInteger} {u : CodeUnit} {s : JsString} (hspace : isSpace u = false)
    (hu : u ≠ 123 ∧ u ≠ 91 ∧ u ≠ 34) (hmeans : t.Means v) (h : parseScalar (u :: s) = .ok (v, r)) {fuel depth : ℕ}
    (hw : Spaces w) (hfuel : 0 < fuel) :
    ∃ v, t.Means v ∧ parseStrictValue fuel depth (w ++ u :: s) = .ok (v, r) := by
  obtain ⟨fuel, rfl⟩ : ∃ k, fuel = k + 1 := ⟨fuel - 1, by omega⟩
  refine ⟨v, hmeans, ?_⟩
  rw [parseStrictValue, skipSpace_append hw, skipSpace_cons hspace]
  simp only [if_neg hu.1, if_neg hu.2.1, if_neg hu.2.2]
  exact h

lemma read_null : Read (.value .null) (js "null" ++ r) r := by
  intro fuel depth n w hw _ _ _ hfuel
  exact read_scalar (by decide) (by decide) .null rfl hw (by omega)

lemma read_bool (b : Bool) : Read (.value (.bool b)) (js (if b then "true" else "false") ++ r) r := by
  intro fuel depth n w hw _ _ _ hfuel
  cases b with
  | true => exact read_scalar (by decide) (by decide) .bool rfl hw (by omega)
  | false => exact read_scalar (by decide) (by decide) .bool rfl hw (by omega)

lemma parseScalar_number {l : JsString} (hl : isIntegerLiteral l = true) (hr : Follows r) :
    parseScalar (l ++ r) = .ok (.num ⟨l, hl⟩, r) := by
  obtain ⟨u, l', rfl, hu⟩ := head_of_isNumberLiteral (isNumberLiteral_of_integer hl)
  obtain ⟨-, -, -, -, -, hn, ht, hf⟩ := head_number hu
  have htrue : (js "true").isPrefixOf (u :: l' ++ r) = false := by
    change ((116 : CodeUnit) == u && _) = false
    rw [beq_false_of_ne ht.symm, Bool.false_and]
  have hfalse : (js "false").isPrefixOf (u :: l' ++ r) = false := by
    change ((102 : CodeUnit) == u && _) = false
    rw [beq_false_of_ne hf.symm, Bool.false_and]
  have hnull : (js "null").isPrefixOf (u :: l' ++ r) = false := by
    change ((110 : CodeUnit) == u && _) = false
    rw [beq_false_of_ne hn.symm, Bool.false_and]
  rw [parseScalar, htrue, hfalse, hnull, parseStrictNumber_append hl hr]
  rfl

lemma read_number {l : JsString} : Read (.value (.number l)) (l ++ r) r := by
  intro fuel depth n w hw hstrict _ hr hfuel
  cases hstrict with
  | number hl =>
    have h := parseScalar_number hl hr
    obtain ⟨u, l', rfl, hu⟩ := head_of_isNumberLiteral (isNumberLiteral_of_integer hl)
    obtain ⟨hspace, hquote, harray, -, hobject, -⟩ := head_number hu
    exact read_scalar hspace ⟨hobject, harray, hquote⟩ (.number ⟨_, hl⟩) h hw (by omega)

lemma read_string {ps : List Piece} (hps : ∀ p ∈ ps, p.Valid) : Read (.value (.string ps)) (quoted ps r) r := by
  intro fuel depth n w hw hstrict _ _ hfuel
  obtain ⟨fuel, rfl⟩ : ∃ k, fuel = k + 1 := ⟨fuel - 1, by omega⟩
  cases hstrict with
  | string hpaired =>
    refine ⟨_, .string, ?_⟩
    rw [parseStrictValue, skipSpace_append hw, quoted, skipSpace_cons (by decide)]
    simp only [if_neg (by decide : ¬(34 : CodeUnit) = 123), if_neg (by decide : ¬(34 : CodeUnit) = 91), if_true,
      parseStrictString_text hps hpaired]
    rfl

lemma expect_items {ts : List Tree} (h : Derives (.items ts) s r) : expect 93 (skipSpace s) = none := by
  cases h with
  | item hw hvalue _ =>
    obtain ⟨u, s', rfl, hspace, hne⟩ := head_value hvalue
    exact expect_other hw hspace hne
  | items hw hvalue _ _ =>
    obtain ⟨u, s', rfl, hspace, hne⟩ := head_value hvalue
    exact expect_other hw hspace hne

lemma expect_members {ms : List (List Piece × Tree)} (h : Derives (.members ms) s r) : expect 125 (skipSpace s) = none := by
  cases h with
  | member hw => exact expect_other hw (by decide) (by decide)
  | members hw => exact expect_other hw (by decide) (by decide)

lemma read_emptyArray {w₁ : JsString} (hw₁ : Spaces w₁) : Read (.value (.array [])) (91 :: (w₁ ++ 93 :: r)) r := by
  intro fuel depth n w hw hstrict hn _ hfuel
  obtain ⟨fuel, rfl⟩ : ∃ k, fuel = k + 1 := ⟨fuel - 1, by omega⟩
  cases hstrict with
  | array =>
    refine ⟨_, .array .nil, ?_⟩
    rw [parseStrictValue, skipSpace_append hw, skipSpace_cons (by decide)]
    simp only [if_neg (by decide : ¬(91 : CodeUnit) = 123), if_true, if_neg (show ¬ maxJsonDepth ≤ depth by omega),
      expect_self hw₁ (by decide : isSpace 93 = false)]

lemma read_array {ts : List Tree} (hitems : Derives (.items ts) s (93 :: r)) (h : Read (.items ts) s (93 :: r)) :
    Read (.value (.array ts)) (91 :: s) r := by
  intro fuel depth n w hw hstrict hn _ hfuel
  obtain ⟨fuel, rfl⟩ : ∃ k, fuel = k + 1 := ⟨fuel - 1, by omega⟩
  rw [List.length_cons] at hfuel
  cases hstrict with
  | @array n ts hts =>
    obtain ⟨vs, hmeans, hread⟩ := h fuel depth n [] r rfl hts (by omega) (by omega)
    refine ⟨_, .array hmeans, ?_⟩
    rw [parseStrictValue, skipSpace_append hw, skipSpace_cons (by decide)]
    simp only [if_neg (by decide : ¬(91 : CodeUnit) = 123), if_true, if_neg (show ¬ maxJsonDepth ≤ depth by omega),
      expect_items hitems, hread]
    rfl

lemma read_emptyObject {w₁ : JsString} (hw₁ : Spaces w₁) : Read (.value (.object [])) (123 :: (w₁ ++ 125 :: r)) r := by
  intro fuel depth n w hw hstrict hn _ hfuel
  obtain ⟨fuel, rfl⟩ : ∃ k, fuel = k + 1 := ⟨fuel - 1, by omega⟩
  cases hstrict with
  | object =>
    refine ⟨.obj [], .object rfl .nil, ?_⟩
    rw [parseStrictValue, skipSpace_append hw, skipSpace_cons (by decide)]
    simp only [if_true, if_neg (show ¬ maxJsonDepth ≤ depth by omega), expect_self hw₁ (by decide : isSpace 125 = false)]

lemma read_object {ms : List (List Piece × Tree)} (hmembers : Derives (.members ms) s (125 :: r))
    (h : Read (.members ms) s (125 :: r)) : Read (.value (.object ms)) (123 :: s) r := by
  intro fuel depth n w hw hstrict hn _ hfuel
  obtain ⟨fuel, rfl⟩ : ∃ k, fuel = k + 1 := ⟨fuel - 1, by omega⟩
  rw [List.length_cons] at hfuel
  cases hstrict with
  | @object n ms hnodup hpaired hms =>
    obtain ⟨vs, hkeys, hmeans, hread⟩ := h fuel depth n [] r rfl hms hpaired hnodup (by omega) (by omega)
    refine ⟨_, .object hkeys hmeans, ?_⟩
    rw [parseStrictValue, skipSpace_append hw, skipSpace_cons (by decide)]
    simp only [if_true, if_neg (show ¬ maxJsonDepth ≤ depth by omega), expect_members hmembers, hread]
    rfl

lemma read_item {w' : JsString} (hw : Spaces w) (hvalue : Read (.value t) s (w' ++ r)) (hw' : Spaces w') :
    Read (.items [t]) (w ++ s) r := by
  rintro fuel depth n array rest rfl hts hn hfuel
  obtain ⟨fuel, rfl⟩ : ∃ k, fuel = k + 1 := ⟨fuel - 1, by omega⟩
  rw [List.length_append] at hfuel
  obtain ⟨v, hmeans, hread⟩ := hvalue fuel (depth + 1) n w hw (hts t List.mem_cons_self) hn
    (follows_spaces hw' (by decide)) (by omega)
  refine ⟨[v], .cons hmeans .nil, ?_⟩
  rw [parseStrictItems, hread]
  dsimp only [bind, Except.bind]
  rw [expect_other hw' (by decide) (by decide)]
  simp only [expect_self hw' (by decide : isSpace 93 = false)]

lemma read_items {w' s' : JsString} {ts : List Tree} (hw : Spaces w) (hderives : Derives (.value t) s (w' ++ 44 :: s'))
    (hvalue : Read (.value t) s (w' ++ 44 :: s')) (hw' : Spaces w') (hitems : Read (.items ts) s' r) :
    Read (.items (t :: ts)) (w ++ s) r := by
  rintro fuel depth n array rest hr hts hn hfuel
  obtain ⟨fuel, rfl⟩ : ∃ k, fuel = k + 1 := ⟨fuel - 1, by omega⟩
  have hlength := hderives.length
  rw [List.length_append] at hfuel
  rw [List.length_append, List.length_cons] at hlength
  obtain ⟨v, hmeans, hread⟩ := hvalue fuel (depth + 1) n w hw (hts t List.mem_cons_self) hn
    (follows_spaces hw' (by decide)) (by omega)
  obtain ⟨vs, hall, hreads⟩ := hitems fuel depth n (array ++ [v]) rest hr (fun u hu => hts u (List.mem_cons_of_mem t hu)) hn
    (by omega)
  refine ⟨v :: vs, .cons hmeans hall, ?_⟩
  rw [parseStrictItems, hread]
  dsimp only [bind, Except.bind]
  rw [expect_self hw' (by decide)]
  rw [List.append_assoc] at hreads
  exact hreads

/-- A member up to its value, when the key is new. -/
lemma parseStrictMembers_key {ps : List Piece} {w₁ : JsString} {fuel depth : ℕ}
    {object : List (JsString × Json JsonInteger)} (hw : Spaces w) (hps : ∀ p ∈ ps, p.Valid) (hpaired : Piece.Paired ps)
    (hw₁ : Spaces w₁) (hkey : units ps ∉ object.map Prod.fst) :
    parseStrictMembers (fuel + 1) depth object (w ++ quoted ps (w₁ ++ 58 :: s)) =
      (do
        let (v, rest) ← parseStrictValue fuel (depth + 1) s
        match expect 44 (skipSpace rest) with
        | some rest => parseStrictMembers fuel depth (object ++ [(units ps, v)]) rest
        | none => match expect 125 (skipSpace rest) with
          | some rest => .ok (object ++ [(units ps, v)], rest)
          | none => .error (.fail "expected ',' or '\x7d'")) := by
  rw [parseStrictMembers, quoted]
  simp only [expect_self hw (by decide : isSpace 34 = false), parseStrictString_text hps hpaired, scan, Except.mapError]
  dsimp only [bind, Except.bind]
  rw [if_neg hkey, expect_self hw₁ (by decide)] <;> rfl

lemma read_member {ps : List Piece} {w₁ w₂ w' : JsString} (hw : Spaces w) (hps : ∀ p ∈ ps, p.Valid) (hw₁ : Spaces w₁)
    (hw₂ : Spaces w₂) (hvalue : Read (.value t) s (w' ++ r)) (hw' : Spaces w') :
    Read (.members [(ps, t)]) (w ++ quoted ps (w₁ ++ 58 :: (w₂ ++ s))) r := by
  rintro fuel depth n object rest rfl hms hpaired hnodup hn hfuel
  obtain ⟨fuel, rfl⟩ : ∃ k, fuel = k + 1 := ⟨fuel - 1, by omega⟩
  have hlength := length_quoted ps (w₁ ++ 58 :: (w₂ ++ s))
  simp only [List.length_append, List.length_cons] at hlength hfuel
  have hkey : units ps ∉ object.map Prod.fst := fun hmem =>
    (List.nodup_append.mp hnodup).2.2 _ hmem _ (by simp) rfl
  obtain ⟨v, hmeans, hread⟩ := hvalue fuel (depth + 1) n w₂ hw₂ (hms _ List.mem_cons_self) hn
    (follows_spaces hw' (by decide)) (by omega)
  refine ⟨[(units ps, v)], rfl, .cons hmeans .nil, ?_⟩
  rw [parseStrictMembers_key hw hps (hpaired _ List.mem_cons_self) hw₁ hkey, hread]
  change (match expect 44 (skipSpace (w' ++ 125 :: rest)) with
    | some rest => _
    | none => _) = _
  rw [expect_other hw' (by decide) (by decide)]
  simp only [expect_self hw' (by decide : isSpace 125 = false)]

lemma read_members {ps : List Piece} {w₁ w₂ w' s' : JsString} {ms : List (List Piece × Tree)} (hw : Spaces w)
    (hps : ∀ p ∈ ps, p.Valid) (hw₁ : Spaces w₁) (hw₂ : Spaces w₂) (hderives : Derives (.value t) s (w' ++ 44 :: s'))
    (hvalue : Read (.value t) s (w' ++ 44 :: s')) (hw' : Spaces w') (hmembers : Read (.members ms) s' r) :
    Read (.members ((ps, t) :: ms)) (w ++ quoted ps (w₁ ++ 58 :: (w₂ ++ s))) r := by
  rintro fuel depth n object rest hr hms hpaired hnodup hn hfuel
  obtain ⟨fuel, rfl⟩ : ∃ k, fuel = k + 1 := ⟨fuel - 1, by omega⟩
  have hquoted := length_quoted ps (w₁ ++ 58 :: (w₂ ++ s))
  have hlength := hderives.length
  simp only [List.length_append, List.length_cons] at hquoted hlength hfuel
  have hkey : units ps ∉ object.map Prod.fst := fun hmem =>
    (List.nodup_append.mp hnodup).2.2 _ hmem _ (by simp) rfl
  obtain ⟨v, hmeans, hread⟩ := hvalue fuel (depth + 1) n w₂ hw₂ (hms _ List.mem_cons_self) hn
    (follows_spaces hw' (by decide)) (by omega)
  obtain ⟨vs, hkeys, hall, hreads⟩ := hmembers fuel depth n (object ++ [(units ps, v)]) rest hr
    (fun m hm => hms m (List.mem_cons_of_mem _ hm)) (fun m hm => hpaired m (List.mem_cons_of_mem _ hm))
    (by simpa [List.append_assoc] using hnodup) hn (by omega)
  refine ⟨(units ps, v) :: vs, by simp [hkeys], .cons hmeans hall, ?_⟩
  rw [parseStrictMembers_key hw hps (hpaired _ List.mem_cons_self) hw₁ hkey, hread]
  change (match expect 44 (skipSpace (w' ++ 44 :: s')) with
    | some rest => _
    | none => _) = _
  rw [expect_self hw' (by decide)]
  rw [List.append_assoc] at hreads
  exact hreads

/-- The reader reads every text of the grammar within its limits. -/
lemma reader_complete (h : Derives p s r) : Read p s r := by
  induction h with
  | null => exact read_null
  | true => exact read_bool true
  | false => exact read_bool false
  | number => exact read_number
  | string hps => exact read_string hps
  | emptyArray hw => exact read_emptyArray hw
  | array h ih => exact read_array h ih
  | emptyObject hw => exact read_emptyObject hw
  | object h ih => exact read_object h ih
  | item hw _ hw' ih => exact read_item hw ih hw'
  | items hw h hw' _ ih ih' => exact read_items hw h ih hw' ih'
  | member hw hps hw₁ hw₂ _ hw' ih => exact read_member hw hps hw₁ hw₂ ih hw'
  | members hw hps hw₁ hw₂ h hw' _ ih ih' => exact read_members hw hps hw₁ hw₂ h ih hw' ih'

end Complete

section Stops

variable {s r : JsString} {fuel depth : ℕ}

lemma length_skipSpace (s : JsString) : (skipSpace s).length ≤ s.length := (List.dropWhile_sublist _).length_le

lemma length_of_expect {u : CodeUnit} (h : expect u (skipSpace s) = some r) : r.length < s.length := by
  obtain ⟨w, -, rfl⟩ := exists_of_expect h
  simp only [List.length_append, List.length_cons]
  omega

lemma length_of_value {v : Json JsonInteger} (h : parseStrictValue fuel depth s = .ok (v, r)) (hdepth : depth ≤ maxJsonDepth) :
    r.length < s.length := by
  obtain ⟨t, ⟨w, s', -, rfl, hderives⟩, -⟩ := (reader_sound fuel).1 depth s v r h hdepth
  have hlength := hderives.length
  rw [List.length_append]
  omega

lemma length_of_string {t : JsString} (h : parseStrictString s = .ok (t, r)) : r.length < s.length := by
  obtain ⟨ps, -, -, -, rfl⟩ := parseStrictString_ok h
  simp only [List.length_append, List.length_cons]
  omega

lemma scan_stops {α : Type} (p : Except String α) : scan p ≠ .error .outOfFuel := by
  cases p <;> rintro ⟨⟩

lemma parseScalar_stops (s : JsString) : parseScalar s ≠ .error .outOfFuel := by
  unfold parseScalar
  split_ifs
  · rintro ⟨⟩
  · rintro ⟨⟩
  · rintro ⟨⟩
  · exact scan_stops _

/-- None of the reader's functions runs out of calls. -/
lemma reader_stops (fuel : ℕ) :
    (∀ depth s, depth ≤ maxJsonDepth → 2 * s.length < fuel → parseStrictValue fuel depth s ≠ .error .outOfFuel) ∧
    (∀ depth array s, depth < maxJsonDepth → 2 * s.length + 1 < fuel →
      parseStrictItems fuel depth array s ≠ .error .outOfFuel) ∧
    ∀ depth object s, depth < maxJsonDepth → 2 * s.length + 1 < fuel →
      parseStrictMembers fuel depth object s ≠ .error .outOfFuel := by
  induction fuel with
  | zero => exact ⟨fun _ _ _ h => by omega, fun _ _ _ _ h => by omega, fun _ _ _ _ h => by omega⟩
  | succ fuel ih =>
    obtain ⟨ihvalue, ihitems, ihmembers⟩ := ih
    refine ⟨fun depth s hdepth hfuel h => ?_, fun depth array s hdepth hfuel h => ?_,
      fun depth object s hdepth hfuel h => ?_⟩
    · have hskip := length_skipSpace s
      rw [parseStrictValue] at h
      cases hs : skipSpace s with
      | nil =>
        rw [hs] at h
        cases h
      | cons u t =>
        rw [hs, List.length_cons] at hskip
        rw [hs] at h
        simp only at h
        split_ifs at h with hobject hdeep harray hdeep hstring
        · cases h
        · cases hclose : expect 125 (skipSpace t) with
          | some rest =>
            rw [hclose] at h
            cases h
          | none =>
            rw [hclose] at h
            obtain h | ⟨_, -, h⟩ := bind_eq_error h
            · exact ihmembers depth [] t (by omega) (by omega) h
            · cases h
        · cases h
        · cases hclose : expect 93 (skipSpace t) with
          | some rest =>
            rw [hclose] at h
            cases h
          | none =>
            rw [hclose] at h
            obtain h | ⟨_, -, h⟩ := bind_eq_error h
            · exact ihitems depth [] t (by omega) (by omega) h
            · cases h
        · obtain h | ⟨_, -, h⟩ := bind_eq_error h
          · exact scan_stops _ h
          · cases h
        · exact parseScalar_stops _ h
    · rw [parseStrictItems] at h
      obtain h | ⟨⟨v, rest⟩, hv, h⟩ := bind_eq_error h
      · exact ihvalue (depth + 1) s hdepth (by omega) h
      · have hrest := length_of_value hv hdepth
        cases hcomma : expect 44 (skipSpace rest) with
        | some rest' =>
          simp only [hcomma] at h
          have hrest' := length_of_expect hcomma
          exact ihitems depth _ rest' hdepth (by omega) h
        | none =>
          simp only [hcomma] at h
          split at h <;> cases h
    · rw [parseStrictMembers] at h
      cases hquote : expect 34 (skipSpace s) with
      | none =>
        rw [hquote] at h
        cases h
      | some s₁ =>
        simp only [hquote] at h
        have hs₁ := length_of_expect hquote
        obtain h | ⟨⟨key, s₂⟩, hkey, h⟩ := bind_eq_error h
        · exact scan_stops _ h
        · have hs₂ := length_of_string (scan_ok hkey)
          simp only at h
          split_ifs at h
          · cases h
          · cases hcolon : expect 58 (skipSpace s₂) with
            | none =>
              rw [hcolon] at h
              cases h
            | some s₃ =>
              simp only [hcolon] at h
              have hs₃ := length_of_expect hcolon
              obtain h | ⟨⟨v, rest⟩, hv, h⟩ := bind_eq_error h
              · exact ihvalue (depth + 1) s₃ hdepth (by omega) h
              · have hrest := length_of_value hv hdepth
                cases hcomma : expect 44 (skipSpace rest) with
                | some rest' =>
                  simp only [hcomma] at h
                  have hrest' := length_of_expect hcomma
                  exact ihmembers depth _ rest' hdepth (by omega) h
                | none =>
                  simp only [hcomma] at h
                  split at h <;> cases h

end Stops

section Parse

variable {s r : JsString} {v : Json JsonInteger} {fuel depth : ℕ}

instance : NumberFormat JsonInteger where
  text i := i.lexeme
  read s := if h : isIntegerLiteral s = true then some ⟨s, h⟩ else none
  literal_text i := isNumberLiteral_of_integer i.integer
  read_text i := dif_pos i.integer

lemma follows_of_expect {u : CodeUnit} (hu : isNumberUnit u = false) (h : expect u (skipSpace s) = some r) : Follows s := by
  obtain ⟨w, hw, rfl⟩ := exists_of_expect h
  exact follows_spaces hw hu

lemma parse_scalar {u : CodeUnit} (h : parseScalar (u :: s) = .ok (v, r)) (hr : Follows r) :
    (if u = 110 then parseLiteral (js "null") .null (u :: s)
      else if u = 116 then parseLiteral (js "true") (.bool true) (u :: s)
      else if u = 102 then parseLiteral (js "false") (.bool false) (u :: s)
      else parseNumber (u :: s)) = some (v, r) := by
  unfold parseScalar at h
  split_ifs at h with htrue hfalse hnull
  · cases h
    obtain rfl : u = 116 := by
      have hs := of_isPrefixOf htrue
      exact (List.cons.inj hs).1
    rw [if_neg (by decide), if_pos rfl, parseLiteral, if_pos htrue]
    rfl
  · cases h
    obtain rfl : u = 102 := by
      have hs := of_isPrefixOf hfalse
      exact (List.cons.inj hs).1
    rw [if_neg (by decide), if_neg (by decide), if_pos rfl, parseLiteral, if_pos hfalse]
    rfl
  · cases h
    obtain rfl : u = 110 := by
      have hs := of_isPrefixOf hnull
      exact (List.cons.inj hs).1
    rw [if_pos rfl, parseLiteral, if_pos hnull]
    rfl
  · obtain ⟨i, rfl, hs⟩ := parseStrictNumber_ok (scan_ok h)
    obtain ⟨u', l, hl, hu⟩ := head_of_isNumberLiteral (isNumberLiteral_of_integer i.integer)
    obtain ⟨-, -, -, -, -, hn, ht, hf⟩ := head_number hu
    obtain rfl : u = u' := by
      rw [hl] at hs
      exact (List.cons.inj hs).1
    obtain ⟨htake, hdrop⟩ := takeWhile_number (isNumberUnit_of_accepts (isNumberLiteral_of_integer i.integer)) hr
    rw [if_neg hn, if_neg ht, if_neg hf, hs, parseNumber, htake, hdrop, if_pos (isNumberLiteral_of_integer i.integer)]
    simp only [NumberFormat.read, dif_pos i.integer, Option.map_some]

/-- What the reader takes, `JSON.parse` reads as the same value. -/
lemma reader_parses (fuel : ℕ) :
    (∀ depth s v r, parseStrictValue fuel depth s = .ok (v, r) → depth ≤ maxJsonDepth → Follows r →
      parseValue fuel s = some (v, r)) ∧
    (∀ depth array s l r, parseStrictItems fuel depth array s = .ok (l, r) → depth < maxJsonDepth →
      ∃ vs, l = array ++ vs ∧ parseItems fuel s = some (vs, r)) ∧
    ∀ depth object s l r, parseStrictMembers fuel depth object s = .ok (l, r) → depth < maxJsonDepth →
      ∃ vs, l = object ++ vs ∧ parseMembers fuel s = some (vs, r) := by
  induction fuel with
  | zero => exact ⟨nofun, nofun, nofun⟩
  | succ fuel ih =>
    obtain ⟨ihvalue, ihitems, ihmembers⟩ := ih
    refine ⟨fun depth s v r h hdepth hr => ?_, fun depth array s l r h hdepth => ?_,
      fun depth object s l r h hdepth => ?_⟩
    · rw [parseStrictValue] at h
      rw [parseValue]
      cases hs : skipSpace s with
      | nil =>
        rw [hs] at h
        cases h
      | cons u t =>
        rw [hs] at h
        simp only at h ⊢
        split_ifs at h with hobject hdeep harray hdeep hstring
        · subst hobject
          rw [if_neg (by decide), if_neg (by decide), if_pos rfl]
          cases hclose : expect 125 (skipSpace t) with
          | some rest =>
            rw [hclose] at h
            cases h
            rfl
          | none =>
            rw [hclose] at h
            obtain ⟨⟨object, rest⟩, hmembers, h⟩ := bind_eq_ok h
            cases h
            obtain ⟨ms, vs', -, -, -, -, hnodup, -⟩ :=
              (reader_sound fuel).2.2 depth [] t object _ hmembers (by omega) List.nodup_nil
            obtain ⟨vs, heq, hparse⟩ := ihmembers depth [] t object _ hmembers (by omega)
            have hfold : object.foldl setMember [] = [] ++ object := foldl_setMember hnodup
            rw [List.nil_append] at heq hfold
            subst heq
            simp only [hparse, Option.map_some, hfold]
        · subst harray
          rw [if_neg (by decide), if_pos rfl]
          cases hclose : expect 93 (skipSpace t) with
          | some rest =>
            rw [hclose] at h
            cases h
            rfl
          | none =>
            rw [hclose] at h
            obtain ⟨⟨array, rest⟩, hitems, h⟩ := bind_eq_ok h
            cases h
            obtain ⟨vs, rfl, hparse⟩ := ihitems depth [] t array _ hitems (by omega)
            simp only [hparse]
            rfl
        · subst hstring
          rw [if_pos rfl]
          obtain ⟨⟨text, rest⟩, htext, h⟩ := bind_eq_ok h
          cases h
          obtain ⟨ps, hvalid, -, rfl, rfl⟩ := parseStrictString_ok (scan_ok htext)
          rw [parseString_text hvalid]
          rfl
        · rw [if_neg hstring, if_neg harray, if_neg hobject]
          exact parse_scalar h hr
    · rw [parseStrictItems] at h
      obtain ⟨⟨v, rest⟩, hv, h⟩ := bind_eq_ok h
      cases hcomma : expect 44 (skipSpace rest) with
      | some rest' =>
        simp only [hcomma] at h
        obtain ⟨vs, rfl, hparse⟩ := ihitems depth _ rest' l r h hdepth
        have hvalue := ihvalue (depth + 1) s v rest hv hdepth (follows_of_expect (by decide) hcomma)
        refine ⟨v :: vs, by simp, ?_⟩
        rw [parseItems, hvalue]
        simp only [Option.bind_eq_bind, Option.bind_some, hcomma, hparse, Option.map_some]
      | none =>
        simp only [hcomma] at h
        cases hclose : expect 93 (skipSpace rest) with
        | none =>
          rw [hclose] at h
          cases h
        | some rest' =>
          simp only [hclose] at h
          cases h
          have hvalue := ihvalue (depth + 1) s v rest hv hdepth (follows_of_expect (by decide) hclose)
          refine ⟨[v], rfl, ?_⟩
          rw [parseItems, hvalue]
          simp only [Option.bind_eq_bind, Option.bind_some, hcomma, hclose, Option.map_some]
    · rw [parseStrictMembers] at h
      rw [parseMembers]
      cases hquote : expect 34 (skipSpace s) with
      | none =>
        rw [hquote] at h
        cases h
      | some s₁ =>
        simp only [hquote] at h
        replace h := bind_eq_ok h
        obtain ⟨⟨key, s₂⟩, hkey, h⟩ := h
        obtain ⟨ps, hvalid, -, rfl, rfl⟩ := parseStrictString_ok (scan_ok hkey)
        simp only at h
        split_ifs at h
        cases hcolon : expect 58 (skipSpace s₂) with
        | none =>
          rw [hcolon] at h
          cases h
        | some s₃ =>
          simp only [hcolon] at h
          obtain ⟨⟨v, rest⟩, hv, h⟩ := bind_eq_ok h
          simp only [Option.bind_eq_bind, Option.bind_some, parseString_text hvalid, hcolon]
          cases hcomma : expect 44 (skipSpace rest) with
          | some rest' =>
            simp only [hcomma] at h
            obtain ⟨vs, rfl, hparse⟩ := ihmembers depth _ rest' l r h hdepth
            have hvalue := ihvalue (depth + 1) s₃ v rest hv hdepth (follows_of_expect (by decide) hcomma)
            refine ⟨(units ps, v) :: vs, by simp, ?_⟩
            simp only [hvalue, Option.bind_some, hcomma, hparse, Option.map_some]
          | none =>
            simp only [hcomma] at h
            cases hclose : expect 125 (skipSpace rest) with
            | none =>
              rw [hclose] at h
              cases h
            | some rest' =>
              simp only [hclose] at h
              cases h
              have hvalue := ihvalue (depth + 1) s₃ v rest hv hdepth (follows_of_expect (by decide) hclose)
              refine ⟨[(units ps, v)], rfl, ?_⟩
              simp only [hvalue, Option.bind_some, hcomma, hclose, Option.map_some]

lemma follows_of_blank (h : skipSpace s = []) : Follows s := by
  obtain ⟨w, hw, hs⟩ := exists_spaces s
  rw [h, List.append_nil] at hs
  rintro u rest rfl
  have hu := hw u (hs ▸ List.mem_cons_self)
  obtain rfl | rfl | rfl | rfl : u = 32 ∨ u = 9 ∨ u = 10 ∨ u = 13 := by simpa [isSpace, or_assoc] using hu
  all_goals decide

/-- The reader stops on every text; it takes the JSON texts within its limits and no others, reads each as the value of
its syntax tree, and that is what `JSON.parse` reads. -/
theorem parseStrictJson_language (text : JsString) :
    (∀ fuel, 2 * text.length < fuel → parseStrictJsonWith fuel text ≠ .error .outOfFuel) ∧
    ((∃ v, parseStrictJson text = .ok v) ↔ ∃ t, IsJsonText t text ∧ t.Strict maxJsonDepth) ∧
    (∀ t, IsJsonText t text → t.Strict maxJsonDepth → ∃ v, t.Means v ∧ parseStrictJson text = .ok v) ∧
    ∀ v, parseStrictJson text = .ok v → parseJson text = some v := by
  have hcomplete : ∀ t, IsJsonText t text → t.Strict maxJsonDepth → ∃ v, t.Means v ∧ parseStrictJson text = .ok v := by
    rintro t ⟨w, s, w', hw, hderives, hw', rfl⟩ hstrict
    have hblank : skipSpace w' = [] := List.dropWhile_eq_nil_iff.mpr hw'
    obtain ⟨v, hmeans, hread⟩ := reader_complete hderives (2 * (w ++ s).length + 1) 0 maxJsonDepth w hw hstrict le_rfl
      (follows_of_blank hblank) (by rw [List.length_append]; omega)
    refine ⟨v, hmeans, ?_⟩
    rw [parseStrictJson, parseStrictJsonWith, hread]
    exact if_pos hblank
  refine ⟨fun fuel hfuel h => ?_, ⟨?_, ?_⟩, hcomplete, ?_⟩
  · obtain h | ⟨⟨v, rest⟩, -, h⟩ := bind_eq_error h
    · exact (reader_stops fuel).1 0 text (Nat.zero_le _) hfuel h
    · simp only at h
      split_ifs at h <;> cases h
  · rintro ⟨v, h⟩
    obtain ⟨⟨v, rest⟩, hv, h⟩ := bind_eq_ok h
    simp only at h
    split_ifs at h with hblank
    obtain ⟨t, ⟨w, s, hw, hs, hderives⟩, hstrict, -⟩ := (reader_sound _).1 0 text v rest hv (Nat.zero_le _)
    exact ⟨t, ⟨w, s, rest, hw, hderives, List.dropWhile_eq_nil_iff.mp hblank, hs⟩, hstrict⟩
  · rintro ⟨t, htext, hstrict⟩
    obtain ⟨v, -, h⟩ := hcomplete t htext hstrict
    exact ⟨v, h⟩
  · intro v h
    obtain ⟨⟨v, rest⟩, hv, h⟩ := bind_eq_ok h
    simp only at h
    split_ifs at h with hblank
    cases h
    rw [parseJson, (reader_parses _).1 0 text v rest hv (Nat.zero_le _) (follows_of_blank hblank)]
    exact if_pos hblank

/-- `{"a":[-12]}`. -/
def sampleJson : JsString := js "\x7b\"a\":[-12]\x7d"

theorem parseStrictJson_language_sample : ∃ (t : Tree) (v : Json JsonInteger), t.Means v ∧ parseStrictJson sampleJson = .ok v ∧
    parseJson sampleJson = some v ∧ parseStrictJsonWith 100 sampleJson ≠ .error .outOfFuel := by
  obtain ⟨hstops, hiff, hvalue, hjson⟩ := parseStrictJson_language sampleJson
  obtain ⟨t, htext, hstrict⟩ := hiff.mp (eq_ok_of_isOk (by decide +kernel))
  obtain ⟨v, hmeans, hread⟩ := hvalue t htext hstrict
  exact ⟨t, v, hmeans, hread, hjson v hread, hstops 100 (by decide)⟩

/-- A raw high surrogate does not pair with an escaped low one. -/
example : (parseStrictJson (34 :: 0xd800 :: js "\\udc00\"")).isOk = false := by decide +kernel

end Parse

end TinyCloud.Registry
