import TinyCloud.Text.Json

/-!
# Members of canonical objects and the bytes of canonical text

A canonical object is determined by what its keys look up. Canonical text has no unpaired surrogate,
so its UTF-8 decodes to it.
-/

namespace TinyCloud.Text

section Members

variable {N α : Type}

lemma nodup_of_keys {members : List (JsString × α)} (h : (members.map Prod.fst).Nodup) :
    members.Nodup :=
  List.Nodup.of_map _ h

lemma eq_of_key {members : List (JsString × α)} (h : (members.map Prod.fst).Nodup) {k : JsString}
    {v w : α} (hv : (k, v) ∈ members) (hw : (k, w) ∈ members) : v = w := by
  have := List.inj_on_of_nodup_map h hv hw rfl
  exact (Prod.mk.inj this).2

lemma mem_of_lookup {members : List (JsString × α)} {k : JsString} {v : α}
    (h : members.lookup k = some v) : (k, v) ∈ members := by
  obtain ⟨l, r, rfl, -⟩ := List.lookup_eq_some_iff.mp h
  simp

lemma lookup_of_mem {members : List (JsString × α)} (h : (members.map Prod.fst).Nodup) {k : JsString}
    {v : α} (hm : (k, v) ∈ members) : members.lookup k = some v := by
  cases hl : members.lookup k with
  | none =>
    have := List.lookup_eq_none_iff.mp hl (k, v) hm
    simp at this
  | some w => rw [eq_of_key h (mem_of_lookup hl) hm]

lemma lookup_congr {l r : List (JsString × α)} (hl : (l.map Prod.fst).Nodup) (h : l.Perm r)
    (k : JsString) : l.lookup k = r.lookup k := by
  have hr : (r.map Prod.fst).Nodup := (h.map Prod.fst).nodup_iff.mp hl
  cases hv : l.lookup k with
  | some v => exact (lookup_of_mem hr (h.mem_iff.mp (mem_of_lookup hv))).symm
  | none =>
    cases hw : r.lookup k with
    | none => rfl
    | some w =>
      rw [lookup_of_mem hl (h.mem_iff.mpr (mem_of_lookup hw))] at hv
      cases hv

lemma lookup_mapValues {β : Type} (f : α → β) (members : List (JsString × α)) (k : JsString) :
    (members.map fun m => (m.1, f m.2)).lookup k = (members.lookup k).map f := by
  induction members with
  | nil => rfl
  | cons m members ih =>
    rw [List.map_cons, List.lookup_cons, List.lookup_cons, ih]
    cases k == m.1 <;> rfl

lemma keys_mapValues {β : Type} (f : α → β) (members : List (JsString × α)) :
    (members.map fun m => (m.1, f m.2)).map Prod.fst = members.map Prod.fst := by
  rw [List.map_map]
  rfl

lemma lookup_setMember (members : List (JsString × Json N)) (key : JsString) (v : Json N) (k : JsString) :
    (setMember members (key, v)).lookup k = if k = key then some v else members.lookup k := by
  unfold setMember
  split_ifs with hm hk hk
  · subst hk
    induction members with
    | nil => cases hm
    | cons m members ih =>
      rw [List.map_cons]
      by_cases he : m.1 = k
      · rw [if_pos he, List.lookup_cons_self]
      · rw [if_neg he, List.lookup_cons, beq_eq_false_iff_ne.mpr (Ne.symm he)]
        exact ih (by simpa [Ne.symm he] using hm)
  · clear hm
    induction members with
    | nil => rfl
    | cons m members ih =>
      rw [List.map_cons]
      by_cases he : m.1 = key
      · rw [if_pos he, List.lookup_cons, List.lookup_cons, he, beq_eq_false_iff_ne.mpr hk]
        exact ih
      · rw [if_neg he, List.lookup_cons, List.lookup_cons, ih]
  · subst hk
    rw [List.lookup_append, List.lookup_eq_none_iff.mpr, Option.none_or, List.lookup_cons_self]
    intro m hmem
    have : k ≠ m.1 := fun he => hm (List.mem_map.mpr ⟨m, hmem, he.symm⟩)
    simpa using this
  · rw [List.lookup_append, List.lookup_cons, beq_eq_false_iff_ne.mpr hk]
    simp

lemma sorted_of_keys {members : List (JsString × α)} (h : (members.map Prod.fst).Pairwise UnitsLe) :
    members.Pairwise KeyLe := by
  rw [List.pairwise_map] at h
  exact h

/-- Two lists sorted by key, without repeated keys, agree once one looks up what the other lists. -/
lemma eq_of_lookups {l r : List (JsString × α)} (hl : (l.map Prod.fst).Nodup)
    (hr : (r.map Prod.fst).Nodup) (sl : l.Pairwise KeyLe) (sr : r.Pairwise KeyLe)
    (hk : ∀ m ∈ l, m.1 ∈ r.map Prod.fst) (h : ∀ m ∈ r, l.lookup m.1 = some m.2) : l = r := by
  have hmem : ∀ m, m ∈ l ↔ m ∈ r := by
    intro m
    constructor
    · intro hm
      obtain ⟨e, he, hem⟩ := List.mem_map.mp (hk m hm)
      have hv : e.2 = m.2 := by
        have h1 := h e he
        rw [hem, lookup_of_mem hl hm] at h1
        exact (Option.some.inj h1).symm
      have : e = m := Prod.ext hem hv
      exact this ▸ he
    · intro hm
      exact mem_of_lookup (h m hm)
  have hp : l.Perm r := (List.perm_ext_iff_of_nodup (nodup_of_keys hl) (nodup_of_keys hr)).mpr hmem
  refine hp.eq_of_pairwise ?_ sl sr
  intro a b ha hb hab hba
  have hkey : a.1 = b.1 := Std.Antisymm.antisymm (r := UnitsLe) a.1 b.1 hab hba
  exact List.inj_on_of_nodup_map hr ((hmem a).mp ha) hb hkey

lemma keys_sorted {members : List (JsString × α)} : (members.insertionSort KeyLe).Perm members :=
  List.perm_insertionSort KeyLe members

/-- What a canonical object lists is sorted and canonical. -/
lemma members_of_canonical {members : List (JsString × Json N)} (hk : (members.map Prod.fst).Nodup)
    (h : (Json.obj members).canonical = .obj members) :
    members.Pairwise KeyLe ∧ ∀ m ∈ members, m.2.canonical = m.2 := by
  rw [canonical_obj] at h
  have he : (members.insertionSort KeyLe).map (fun m => (m.1, m.2.canonical)) = members := by
    simpa using h
  constructor
  · rw [← he, List.pairwise_map]
    exact List.pairwise_insertionSort KeyLe members
  · intro m hm
    have hc : (m.1, m.2.canonical) ∈ members := by
      have : (m.1, m.2.canonical) ∈
          (members.insertionSort KeyLe).map (fun m => (m.1, m.2.canonical)) :=
        List.mem_map.mpr ⟨m, keys_sorted.mem_iff.mpr hm, rfl⟩
      rwa [he] at this
    exact eq_of_key hk hc hm

lemma lookup_canonical {members : List (JsString × Json N)} (hk : (members.map Prod.fst).Nodup)
    (k : JsString) :
    ((members.insertionSort KeyLe).map fun m => (m.1, m.2.canonical)).lookup k =
      (members.lookup k).map Json.canonical := by
  rw [lookup_mapValues, lookup_congr hk keys_sorted.symm]

lemma proper_canonical {v : Json N} (h : v.Proper) : v.canonical.Proper := by
  induction h with
  | null => exact .null
  | bool b => exact .bool b
  | num n => exact .num n
  | str s => exact .str s
  | @arr items _ ih =>
    rw [canonical_arr]
    refine .arr fun v hv => ?_
    obtain ⟨w, hw, rfl⟩ := List.mem_map.mp hv
    exact ih w hw
  | @obj members hk _ ih =>
    rw [canonical_obj]
    refine .obj ?_ fun m hm => ?_
    · rw [keys_mapValues]
      exact (keys_sorted.map Prod.fst).nodup_iff.mpr hk
    · obtain ⟨e, he, rfl⟩ := List.mem_map.mp hm
      exact ih e (keys_sorted.mem_iff.mp he)

end Members

section Bytes

variable {N : Type} [NumberFormat N]

lemma scalar_cons {u : CodeUnit} (hu : highSurrogate u = false) (hv : lowSurrogate u = false)
    (s : JsString) : isUnicodeScalarString (u :: s) = isUnicodeScalarString s := by
  cases s with
  | nil => simp [isUnicodeScalarString, hu, hv]
  | cons v s => simp [isUnicodeScalarString, hu, hv]

lemma scalar_append {s t : JsString} (hs : isUnicodeScalarString s = true)
    (ht : isUnicodeScalarString t = true) : isUnicodeScalarString (s ++ t) = true := by
  induction s using isUnicodeScalarString.induct with
  | case1 => exact ht
  | case2 u =>
    simp only [isUnicodeScalarString, Bool.and_eq_true, Bool.not_eq_true'] at hs
    rw [List.cons_append, List.nil_append, scalar_cons hs.1 hs.2, ht]
  | case3 u v rest hu ih =>
    simp only [isUnicodeScalarString, if_pos hu, Bool.and_eq_true] at hs
    simp only [List.cons_append, isUnicodeScalarString, if_pos hu, hs.1, ih hs.2, Bool.and_self]
  | case4 u v rest hu ih =>
    simp only [isUnicodeScalarString, if_neg hu, Bool.and_eq_true, Bool.not_eq_true'] at hs
    rw [List.cons_append, scalar_cons (Bool.not_eq_true _ ▸ hu) hs.1]
    exact ih hs.2

lemma not_surrogate {u : CodeUnit} (h : u.toNat < 0xD800) :
    highSurrogate u = false ∧ lowSurrogate u = false := by
  simp only [highSurrogate, lowSurrogate, decide_eq_false_iff_not]
  omega

lemma scalar_plain {s : JsString} (h : ∀ u ∈ s, u.toNat < 0xD800) : isUnicodeScalarString s = true := by
  induction s with
  | nil => rfl
  | cons u s ih =>
    obtain ⟨hu, hv⟩ := not_surrogate (h u (by simp))
    rw [scalar_cons hu hv]
    exact ih fun v hv => h v (by simp [hv])

lemma hexDigit_plain : ∀ n < 16, (hexDigit n).toNat < 0xD800 := by
  decide

lemma scalar_hexEscape (u : CodeUnit) : isUnicodeScalarString (hexEscape u) = true := by
  have hu := u.toNat_lt
  refine scalar_plain fun v hv => ?_
  simp only [hexEscape, List.mem_cons, List.not_mem_nil, or_false] at hv
  rcases hv with rfl | rfl | rfl | rfl | rfl | rfl
  · decide
  · decide
  · exact hexDigit_plain _ (by omega)
  · exact hexDigit_plain _ (by omega)
  · exact hexDigit_plain _ (by omega)
  · exact hexDigit_plain _ (by omega)

lemma scalar_escapeUnit (u : CodeUnit) : isUnicodeScalarString (escapeUnit u) = true := by
  unfold escapeUnit
  split_ifs with h1 h2 h3 h4 h5 h6 h7 h8
  · decide
  · decide
  · decide
  · decide
  · decide
  · decide
  · decide
  · exact scalar_hexEscape u
  · simp only [Bool.or_eq_true, not_or, Bool.not_eq_true] at h8
    rw [scalar_cons h8.1.2 h8.2]
    rfl

lemma scalar_escapeUnits (s : JsString) : isUnicodeScalarString (escapeUnits s) = true := by
  induction s using escapeUnits.induct with
  | case1 => rfl
  | case2 u => exact scalar_escapeUnit u
  | case3 u v rest h ih =>
    simp only [Bool.and_eq_true] at h
    simp only [escapeUnits, h.1, h.2, Bool.and_self, if_true, isUnicodeScalarString, ih]
  | case4 u v rest h ih =>
    simp only [escapeUnits, if_neg h]
    exact scalar_append (scalar_escapeUnit u) ih

lemma scalar_quote (s : JsString) : isUnicodeScalarString (quote s) = true := by
  rw [quote, scalar_cons (by decide) (by decide)]
  exact scalar_append (scalar_escapeUnits s) (by decide)

lemma scalar_joinComma {l : List JsString} (h : ∀ t ∈ l, isUnicodeScalarString t = true) :
    isUnicodeScalarString (joinComma l) = true := by
  induction l using joinComma.induct with
  | case1 => rfl
  | case2 t => exact h t (by simp)
  | case3 t u rest ih =>
    rw [joinComma]
    refine scalar_append (h t (by simp)) ?_
    rw [scalar_cons (by decide) (by decide)]
    exact ih fun v hv => h v (by simp [hv])

lemma scalar_number (n : N) : isUnicodeScalarString (NumberFormat.text n) = true := by
  refine scalar_plain fun u hu => ?_
  have h := isNumberUnit_of_accepts (NumberFormat.literal_text n) u hu
  simp only [isNumberUnit, isDigit, isExponent, isSign, Bool.or_eq_true, decide_eq_true_eq,
    beq_iff_eq] at h
  rcases h with ((h | rfl | rfl) | rfl | rfl) | rfl
  · omega
  all_goals decide

/-- Canonical text is a sequence of Unicode scalars. -/
theorem scalar_serialize {v : Json N} (h : v.Proper) : isUnicodeScalarString v.serialize = true := by
  induction h with
  | null => exact (by decide : isUnicodeScalarString (js "null") = true)
  | bool b =>
    cases b with
    | false => exact (by decide : isUnicodeScalarString (js "false") = true)
    | true => exact (by decide : isUnicodeScalarString (js "true") = true)
  | num n => exact scalar_number n
  | str s => exact scalar_quote s
  | @arr items _ ih =>
    rw [serialize_arr, scalar_cons (by decide) (by decide)]
    refine scalar_append (scalar_joinComma fun t ht => ?_) (by decide)
    obtain ⟨v, hv, rfl⟩ := List.mem_map.mp ht
    exact ih v hv
  | @obj members _ _ ih =>
    rw [serialize_obj, scalar_cons (by decide) (by decide)]
    refine scalar_append (scalar_joinComma fun t ht => ?_) (by decide)
    obtain ⟨m, hm, rfl⟩ := List.mem_map.mp ht
    refine scalar_append (scalar_quote m.1) ?_
    rw [scalar_cons (by decide) (by decide)]
    exact ih m (keys_sorted.mem_iff.mp hm)

lemma textDecode_of_unmarked {s : JsString} (hs : isUnicodeScalarString s = true)
    (hm : byteOrderMark.isPrefixOf (textEncode s) = false) : textDecode (textEncode s) = some s := by
  rw [textDecode, stripByteOrderMark, if_neg (by simp [hm])]
  exact decodeUtf8_textEncode hs le_rfl

lemma scalar_memberTexts {members : List (JsString × Json N)} (h : ∀ m ∈ members, m.2.Proper) :
    isUnicodeScalarString (memberTexts members) = true := by
  rw [memberTexts, scalar_cons (by decide) (by decide)]
  refine scalar_append (scalar_joinComma fun t ht => ?_) (by decide)
  obtain ⟨m, hm, rfl⟩ := List.mem_map.mp ht
  refine scalar_append (scalar_quote m.1) ?_
  rw [scalar_cons (by decide) (by decide)]
  exact scalar_serialize (h m hm)

/-- The text of an object begins with a brace, so its bytes carry no byte order mark. -/
lemma unmarked_memberTexts (members : List (JsString × Json N)) :
    byteOrderMark.isPrefixOf (textEncode (memberTexts members)) = false := by
  have hp : IsScalar 123 := .inl (by decide)
  have hu : pointUnits 123 = [123] := by decide
  have he := textEncode_point hp (joinComma (members.map memberText) ++ [125])
  rw [hu, List.singleton_append] at he
  rw [memberTexts, he, (by decide : pointBytes 123 = [123])]
  rfl

theorem textDecode_memberTexts {members : List (JsString × Json N)} (h : ∀ m ∈ members, m.2.Proper) :
    textDecode (textEncode (memberTexts members)) = some (memberTexts members) :=
  textDecode_of_unmarked (scalar_memberTexts h) (unmarked_memberTexts members)

theorem textDecode_serialize_obj {members : List (JsString × Json N)}
    (h : (Json.obj members).Proper) :
    byteOrderMark.isPrefixOf (textEncode (Json.obj members).serialize) = false ∧
      textDecode (textEncode (Json.obj members).serialize) = some (Json.obj members).serialize := by
  have htext : (Json.obj members).serialize = memberTexts (members.insertionSort KeyLe) := serialize_obj members
  have hm : byteOrderMark.isPrefixOf (textEncode (Json.obj members).serialize) = false := by
    rw [htext]
    exact unmarked_memberTexts _
  exact ⟨hm, textDecode_of_unmarked (scalar_serialize h) hm⟩

end Bytes

end TinyCloud.Text
