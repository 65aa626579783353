import Mathlib.Data.List.TakeWhile
import TinyCloud.Links.Grammar
import TinyCloud.Text.Decimal

/-!
# One spelling for each link

What `parseLink` accepts is the text of its parts, but for the case of a short id and for a byte order mark
before the record.
-/

namespace TinyCloud.Links

open TinyCloud.Text TinyCloud.Runs

/-- What the links rely on from the platform's URL parser: the origin of a parsed URL is written canonically, and
a plain path and fragment after such an origin are parsed as they are written. -/
structure UrlStandard (P : Platform) : Prop where
  origin : ∀ s url, P.newUrl s = some url → url.protocol = js "https:" → canonicalHttpsOrigin P url.origin = true
  join : ∀ origin path tail, canonicalHttpsOrigin P origin = true →
    (∀ u ∈ path, isBase64UrlUnit u = true ∨ u = 47) → tail ≠ [] →
    (∀ u ∈ tail, isBase64UrlUnit u = true ∨ u = 38 ∨ u = 61) →
    P.newUrl (origin ++ (47 :: path) ++ (35 :: tail)) = some ⟨js "https:", [], [], origin, 47 :: path, [], 35 :: tail⟩

section Parsing

variable {N : Type} [NumberFormat N] {P : Platform} {origins : List JsString} {href origin k c id : JsString}
  {key : Bytes} {t : LinkType} {record : Json N} {link : ParsedLink N} {url : Url} {letter : CodeUnit}

omit [NumberFormat N] in
lemma parseShort_ok (h : parseShort P url letter id = .ok link) : ∃ k c key t,
    shortFragment url.hash = some (k, c) ∧ linkKey k = some key ∧ isCanonicalRawCid P c = true ∧
      linkTypeForPathLetter letter = some t ∧ link = .short url.origin t (lowerCase id) k key c := by
  obtain ⟨⟨k, c⟩, hfragment, h⟩ := bind_eq_ok h
  obtain ⟨key, hkey, h⟩ := bind_eq_ok h
  obtain ⟨_, hcid, h⟩ := bind_eq_ok h
  obtain ⟨t, ht, h⟩ := bind_eq_ok h
  cases h
  have := throwIf_eq_ok hcid
  rw [Bool.not_eq_false'] at this
  exact ⟨k, c, key, t, orThrow_eq_ok hfragment, orThrow_eq_ok hkey, this, orThrow_eq_ok ht, rfl⟩

/-- The record of a full link: base64url of canonical JSON, perhaps after a byte order mark. -/
structure Carries (r : JsString) (record : Json N) : Prop where
  bytes : ∃ raw text, decodeStrictBase64Url r = some raw ∧ raw.length ≤ maxFullRecordJsonBytes ∧
    textDecode raw = some text ∧ parseJson text = some record ∧ canonicalize record = .ok text

lemma mapError_eq_ok {ε ε' α : Type} {f : ε → ε'} {v : Except ε α} {a : α} (h : v.mapError f = .ok a) : v = .ok a := by
  cases v with
  | error e => cases h
  | ok b =>
    cases h
    rfl

lemma parseFull_ok (h : parseFull url = .ok link) : ∃ k r key record,
    fullFragment url.hash = some (k, r) ∧ linkKey k = some key ∧ Carries r record ∧
      link = .full url.origin k key record := by
  obtain ⟨⟨k, r⟩, hfragment, h⟩ := bind_eq_ok h
  obtain ⟨key, hkey, h⟩ := bind_eq_ok h
  obtain ⟨raw, hraw, h⟩ := bind_eq_ok h
  obtain ⟨_, hlen, h⟩ := bind_eq_ok h
  obtain ⟨text, htext, h⟩ := bind_eq_ok h
  obtain ⟨record, hrecord, h⟩ := bind_eq_ok h
  obtain ⟨canonical, hcanonical, h⟩ := bind_eq_ok h
  obtain ⟨_, hsame, h⟩ := bind_eq_ok h
  cases h
  have hle := throwIf_eq_ok hlen
  have heq := throwIf_eq_ok hsame
  rw [decide_eq_false_iff_not, not_lt] at hle
  rw [bne_eq_false_iff_eq] at heq
  subst heq
  exact ⟨k, r, key, record, orThrow_eq_ok hfragment, orThrow_eq_ok hkey,
    ⟨raw, canonical, orThrow_eq_ok hraw, hle, orThrow_eq_ok htext, orThrow_eq_ok hrecord, mapError_eq_ok hcanonical⟩,
    rfl⟩

/-- What every accepted text has passed before its form is looked at. -/
structure Opened (P : Platform) (origins : List JsString) (href : JsString) (url : Url) : Prop where
  parsed : P.newUrl href = some url
  https : url.protocol = js "https:"
  trusted : url.origin ∈ origins
  exact : href = url.origin ++ url.pathname ++ url.hash

lemma parseLink_ok (h : parseLink P origins href = .ok link) : ∃ url, Opened P origins href url ∧
    ((∃ letter id, shortPath url.pathname = some (letter, id) ∧ parseShort P url letter id = .ok link) ∨
      (url.pathname = fullLinkPath ∧ parseFull url = .ok link)) := by
  obtain ⟨url, hurl, h⟩ := bind_eq_ok h
  obtain ⟨_, hprotocol, h⟩ := bind_eq_ok h
  obtain ⟨_, huser, h⟩ := bind_eq_ok h
  obtain ⟨_, htrusted, h⟩ := bind_eq_ok h
  obtain ⟨_, hexact, h⟩ := bind_eq_ok h
  obtain ⟨_, hsearch, h⟩ := bind_eq_ok h
  obtain ⟨_, hremoved, h⟩ := bind_eq_ok h
  replace hprotocol := throwIf_eq_ok hprotocol
  replace htrusted := throwIf_eq_ok htrusted
  replace hexact := throwIf_eq_ok hexact
  replace hsearch := throwIf_eq_ok hsearch
  rw [bne_eq_false_iff_eq] at hprotocol hexact hsearch
  rw [Bool.not_eq_false', List.contains_iff_mem] at htrusted
  rw [hsearch, List.append_nil] at hexact
  refine ⟨url, ⟨orThrow_eq_ok hurl, hprotocol, htrusted, hexact⟩, ?_⟩
  split at h
  · rename_i letter id hpath
    exact .inl ⟨letter, id, hpath, h⟩
  · split at h
    · rename_i hfull
      exact .inr ⟨hfull, h⟩
    · cases h

lemma key_of_linkKey (h : linkKey k = some key) : k.length = 43 ∧ k.all isBase64UrlUnit = true := by
  obtain ⟨rfl, hlen⟩ := linkKey_iff.mp h
  rw [length_encodeBase64Url, hlen, List.all_eq_true]
  exact ⟨rfl, units_encodeBase64Url key⟩

/-- The spelling of a short link. -/
structure ShortSpelling (P : Platform) (origins : List JsString) (href origin : JsString) (t : LinkType) (id k : JsString)
    (key : Bytes) (c : JsString) : Prop where
  trusted : origin ∈ origins
  canonical : canonicalHttpsOrigin P origin = true
  key : linkKey k = some key
  cid : isCanonicalRawCid P c = true
  body : isBodyCid c = true
  text : ∃ written, isLinkId written = true ∧ lowerCase written = id ∧
    href = shortText origin t.pathLetter written k c

structure FullSpelling (P : Platform) (origins : List JsString) (href origin k : JsString) (key : Bytes)
    (record : Json N) : Prop where
  trusted : origin ∈ origins
  canonical : canonicalHttpsOrigin P origin = true
  key : linkKey k = some key
  text : ∃ r, r ≠ [] ∧ r.all isBase64UrlUnit = true ∧ Carries r record ∧ href = fullText origin k r

lemma short_of_parse (hurl : UrlStandard P) (h : parseLink P origins href = .ok (.short (N := N) origin t id k key c)) :
    ShortSpelling P origins href origin t id k key c := by
  obtain ⟨url, ho, ⟨letter, written, hpath, h⟩ | ⟨-, h⟩⟩ := parseLink_ok h
  · obtain ⟨k', c', key', t', hfragment, hkey, hcid, ht, he⟩ := parseShort_ok h
    cases he
    obtain ⟨hpathname, -, hid⟩ := shortPath_iff.mp hpath
    obtain ⟨hhash, -, -, hbody⟩ := shortFragment_iff.mp hfragment
    obtain rfl := linkTypeForPathLetter_iff.mp ht
    refine ⟨ho.trusted, hurl.origin _ _ ho.parsed ho.https, hkey, hcid, hbody, written, hid, rfl, ?_⟩
    rw [ho.exact, hpathname, hhash]
    rfl
  · obtain ⟨k', r, key', record, -, -, -, he⟩ := parseFull_ok h
    cases he

lemma full_of_parse (hurl : UrlStandard P) (h : parseLink P origins href = .ok (.full origin k key record)) :
    FullSpelling P origins href origin k key record := by
  obtain ⟨url, ho, ⟨letter, written, -, h⟩ | ⟨hpath, h⟩⟩ := parseLink_ok h
  · obtain ⟨k', c', key', t', -, -, -, -, he⟩ := parseShort_ok h
    cases he
  · obtain ⟨k', r, key', record', hfragment, hkey, hcarries, he⟩ := parseFull_ok h
    cases he
    obtain ⟨hhash, -, -, hr, hall⟩ := fullFragment_iff.mp hfragment
    refine ⟨ho.trusted, hurl.origin _ _ ho.parsed ho.https, hkey, r, hr, hall, hcarries, ?_⟩
    rw [ho.exact, hpath, hhash]
    rfl

lemma kept_of_base64 {s : JsString} (h : s.all isBase64UrlUnit = true) :
    ∀ u ∈ s, isBase64UrlUnit u = true ∨ u = 38 ∨ u = 61 := fun u hu => .inl (List.all_eq_true.mp h u hu)

lemma base64_of_base32 {u : CodeUnit} (h : isBase32Unit u = true ∨ isUpperUnit u = true) :
    isBase64UrlUnit u = true := by
  simp only [isBase32Unit, isLowerUnit, isUpperUnit, Bool.or_eq_true, decide_eq_true_eq] at h
  unfold isBase64UrlUnit unitSextet
  simp only
  split_ifs <;> first | rfl | omega

lemma base64_of_linkId (h : isLinkId id = true) : id.all isBase64UrlUnit = true := by
  rw [isLinkId, Bool.and_eq_true, List.all_eq_true] at h
  rw [List.all_eq_true]
  exact fun u hu => base64_of_base32 (by simpa using h.2 u hu)

lemma base64_of_bodyCid (h : isBodyCid c = true) : c.all isBase64UrlUnit = true := by
  unfold isBodyCid at h
  split at h
  · cases h
  · rename_i rest hrest
    rw [Bool.and_eq_true, List.all_eq_true] at h
    rw [stripPrefix_iff.mp hrest, List.all_append, Bool.and_eq_true, List.all_eq_true (l := rest)]
    exact ⟨by decide, fun u hu => base64_of_base32 (.inl (h.2 u hu))⟩

/-- What stands after the number sign of a link. -/
lemma tail_units {field rest : JsString} (hk : k.all isBase64UrlUnit = true) (hrest : rest.all isBase64UrlUnit = true)
    (hfield : ∀ u ∈ field, isBase64UrlUnit u = true ∨ u = 38 ∨ u = 61) :
    ∀ u ∈ js "v=4&k=" ++ k ++ field ++ rest, isBase64UrlUnit u = true ∨ u = 38 ∨ u = 61 := by
  have hfirst : ∀ u ∈ js "v=4&k=", isBase64UrlUnit u = true ∨ u = 38 ∨ u = 61 := by decide
  intro u hu
  simp only [List.mem_append] at hu
  rcases hu with ((hu | hu) | hu) | hu
  · exact hfirst u hu
  · exact kept_of_base64 hk u hu
  · exact hfield u hu
  · exact kept_of_base64 hrest u hu

lemma keyField_eq : keyField = 35 :: js "v=4&k=" := by decide

lemma not_removed (s : JsString) : removedFragment (keyField ++ s) = false := by
  have hkey : keyField = js "#v=" ++ 52 :: js "&k=" := by decide
  have hdigit : (js "23").contains 52 = false := by decide
  rw [removedFragment, hkey, List.append_assoc, List.cons_append, stripPrefix_iff.mpr rfl]
  simp only [hdigit, Bool.false_and]

/-- A plain path and fragment after a trusted origin pass every check before the form. -/
lemma parseLink_plain (hurl : UrlStandard P) (htrusted : origin ∈ origins)
    (hcanonical : canonicalHttpsOrigin P origin = true) {path field rest : JsString}
    (hpath : ∀ u ∈ path, isBase64UrlUnit u = true ∨ u = 47) (hk : k.all isBase64UrlUnit = true)
    (hrest : rest.all isBase64UrlUnit = true) (hfield : ∀ u ∈ field, isBase64UrlUnit u = true ∨ u = 38 ∨ u = 61) :
    ∃ url : Url, url.origin = origin ∧ url.hash = keyField ++ k ++ field ++ rest ∧
      (parseLink P origins (origin ++ (47 :: path) ++ (keyField ++ k ++ field ++ rest)) : Except String (ParsedLink N)) =
        match shortPath (47 :: path) with
        | some (letter, id) => parseShort P url letter id
        | none => if 47 :: path = fullLinkPath then parseFull url else .error "path_grammar" := by
  have htail := tail_units hk hrest hfield
  have hne : js "v=4&k=" ++ k ++ field ++ rest ≠ [] := by
    have : js "v=4&k=" ≠ [] := by decide
    simp [this]
  have hparsed := hurl.join origin path _ hcanonical hpath hne htail
  have hhash : keyField ++ k ++ field ++ rest = 35 :: (js "v=4&k=" ++ k ++ field ++ rest) := by
    rw [keyField_eq]
    rfl
  have hremoved : removedFragment (35 :: (js "v=4&k=" ++ k ++ field ++ rest)) = false := by
    rw [← hhash, List.append_assoc, List.append_assoc]
    exact not_removed _
  rw [hhash]
  refine ⟨⟨js "https:", [], [], origin, 47 :: path, [], 35 :: (js "v=4&k=" ++ k ++ field ++ rest)⟩, rfl, rfl, ?_⟩
  rw [parseLink, hparsed]
  simp only [orThrow, bind, Except.bind, throwIf, hremoved, bne_self_eq_false, Bool.or_self,
    List.contains_iff_mem.mpr htrusted, Bool.not_true, List.append_nil, Bool.false_eq_true, if_false] <;>
  cases shortPath (47 :: path) <;> rfl

lemma parse_of_short (hurl : UrlStandard P) (h : ShortSpelling P origins href origin t id k key c) :
    parseLink P origins href = .ok (.short (N := N) origin t id k key c) := by
  obtain ⟨htrusted, hcanonical, hkey, hcid, hbody, written, hid, rfl, rfl⟩ := h
  obtain ⟨hlen, hall⟩ := key_of_linkKey hkey
  have hpath : ∀ u ∈ t.pathLetter :: 47 :: written, isBase64UrlUnit u = true ∨ u = 47 := by
    have hletter : isBase64UrlUnit t.pathLetter = true := by cases t <;> decide
    intro u hu
    rcases List.mem_cons.mp hu with rfl | hu
    · exact .inl hletter
    · rcases List.mem_cons.mp hu with rfl | hu
      · exact .inr rfl
      · exact .inl (List.all_eq_true.mp (base64_of_linkId hid) u hu)
  obtain ⟨url, horigin, hhash, hparse⟩ := parseLink_plain (N := N) hurl htrusted hcanonical hpath hall
    (base64_of_bodyCid hbody) (by decide : ∀ u ∈ cidField, isBase64UrlUnit u = true ∨ u = 38 ∨ u = 61)
  rw [shortText, hparse, shortPath_iff.mpr ⟨rfl, pathLetter_listed t, hid⟩]
  simp only [parseShort, hhash, shortFragment_iff.mpr ⟨rfl, hlen, hall, hbody⟩, orThrow, bind, Except.bind, hkey, hcid,
    Bool.not_true, throwIf, Bool.false_eq_true, if_false, linkTypeForPathLetter_iff.mpr rfl, horigin]

/-- A full link's text is parsed by its fragment. -/
lemma parseLink_fullText (hurl : UrlStandard P) (htrusted : origin ∈ origins)
    (hcanonical : canonicalHttpsOrigin P origin = true) {r : JsString} (hk : k.all isBase64UrlUnit = true)
    (hr : r.all isBase64UrlUnit = true) : ∃ url : Url, url.origin = origin ∧
      url.hash = keyField ++ k ++ recordField ++ r ∧
      (parseLink P origins (fullText origin k r) : Except String (ParsedLink N)) = parseFull url := by
  have hpath : ∀ u ∈ js "s/full", isBase64UrlUnit u = true ∨ u = 47 := by decide
  have hfull : fullLinkPath = 47 :: js "s/full" := by decide
  have hshort : shortPath (47 :: js "s/full") = none := by decide
  obtain ⟨url, horigin, hhash, hparse⟩ := parseLink_plain (N := N) hurl htrusted hcanonical hpath hk hr
    (by decide : ∀ u ∈ recordField, isBase64UrlUnit u = true ∨ u = 38 ∨ u = 61)
  refine ⟨url, horigin, hhash, ?_⟩
  rw [fullText, hfull, hparse, hshort]
  exact if_pos hfull.symm

lemma parse_of_full (hurl : UrlStandard P) (h : FullSpelling P origins href origin k key record) :
    parseLink P origins href = .ok (.full origin k key record) := by
  obtain ⟨htrusted, hcanonical, hkey, r, hr, hrall, ⟨raw, text, hraw, hle, htext, hrecord, hjson⟩, rfl⟩ := h
  obtain ⟨hlen, hall⟩ := key_of_linkKey hkey
  obtain ⟨url, horigin, hhash, hparse⟩ := parseLink_fullText (N := N) hurl htrusted hcanonical hall hrall
  rw [hparse]
  simp only [parseFull, hhash, fullFragment_iff.mpr ⟨rfl, hlen, hall, hr, hrall⟩, orThrow, bind,
    Except.bind, hkey, hraw, htext, hrecord, hjson, Except.mapError, throwIf, bne_self_eq_false, Bool.false_eq_true,
    if_false, horigin, decide_eq_true_eq, if_neg (not_lt.mpr hle)]

end Parsing

section Marks

/-- What follows the last ampersand. -/
def lastField (href : JsString) : JsString := (href.reverse.takeWhile (· != 38)).reverse

/-- A full link whose record begins with a byte order mark. -/
def isMarked (href : JsString) : Bool := (js "r=77u_").isPrefixOf (lastField href)

lemma lastField_append {s rest : JsString} (h : ∀ u ∈ rest, u ≠ 38) : lastField (s ++ 38 :: rest) = rest := by
  have hall : ∀ u ∈ rest.reverse, (u != 38) = true := by
    intro u hu
    rw [bne_iff_ne]
    exact h u (List.mem_reverse.mp hu)
  rw [lastField, List.reverse_append, List.reverse_cons, List.append_assoc, List.singleton_append,
    List.takeWhile_append_of_pos hall, List.takeWhile_cons_of_neg (by simp), List.append_nil, List.reverse_reverse]

lemma not_ampersand {s : JsString} (h : s.all isBase64UrlUnit = true) : ∀ u ∈ s, u ≠ 38 := by
  rintro u hu rfl
  have hno : isBase64UrlUnit 38 = false := by decide
  rw [List.all_eq_true.mp h 38 hu] at hno
  cases hno

lemma isMarked_full {origin k r : JsString} (hr : r.all isBase64UrlUnit = true) :
    isMarked (fullText origin k r) = (js "77u_").isPrefixOf r := by
  have hfield : fullText origin k r = origin ++ fullLinkPath ++ (keyField ++ k) ++ 38 :: (js "r=" ++ r) := by
    have hrecord : recordField = 38 :: js "r=" := by decide
    rw [fullText, hrecord]
    simp only [List.append_assoc, List.cons_append]
  have hfirst : ∀ u ∈ js "r=", u ≠ 38 := by decide
  rw [isMarked, hfield, lastField_append]
  · rfl
  · intro u hu
    rcases List.mem_append.mp hu with hu | hu
    · exact hfirst u hu
    · exact not_ampersand hr u hu

/-- The mark takes up four units of the record's base64url. -/
lemma mark_units (raw : Bytes) :
    (js "77u_").isPrefixOf (encodeBase64Url raw) = byteOrderMark.isPrefixOf raw := by
  have hunits : js "77u_" = [sextetUnit 59, sextetUnit 59, sextetUnit 46, sextetUnit 63] := by decide
  have hinj : ∀ n m, n < 64 → m < 64 → ((sextetUnit m == sextetUnit n) = true ↔ m = n) := by
    intro n m hn hm
    rw [beq_iff_eq]
    exact ⟨fun h => sextetUnit_injOn hm hn h, fun h => h ▸ rfl⟩
  match raw with
  | [] => rfl
  | [x] => simp [hunits, encodeBase64Url, encodeSextets, byteOrderMark, List.isPrefixOf]
  | [x, y] => simp [hunits, encodeBase64Url, encodeSextets, byteOrderMark, List.isPrefixOf]
  | x :: y :: z :: rest =>
    have hx := x.toNat_lt
    have hy := y.toNat_lt
    have hz := z.toNat_lt
    have hbyte : ∀ b c : UInt8, (b == c) = true ↔ b.toNat = c.toNat := by
      intro b c
      rw [beq_iff_eq, UInt8.toNat_inj]
    rw [Bool.eq_iff_iff, hunits]
    simp only [encodeBase64Url, encodeSextets, List.map_cons, List.isPrefixOf, byteOrderMark, Bool.and_eq_true,
      Bool.and_true]
    rw [hinj _ _ (by omega) (by omega), hinj _ _ (by omega) (by omega), hinj _ _ (by omega) (by omega),
      hinj _ _ (by omega) (by omega), hbyte, hbyte, hbyte]
    have hmark : (0xEF : UInt8).toNat = 239 ∧ (0xBB : UInt8).toNat = 187 ∧ (0xBF : UInt8).toNat = 191 := by decide
    rw [hmark.1, hmark.2.1, hmark.2.2]
    omega

end Marks

section OneSpelling

variable {N : Type} [NumberFormat N] {P : Platform} {origins : List JsString} {href origin k c id : JsString}
  {key : Bytes} {t : LinkType} {record : Json N} {members : List (JsString × Json N)}

def rebuild (P : Platform) : ParsedLink N → Except String JsString
  | .short origin t id _ key c => buildShortLink P origin t id key c
  | .full origin _ key (.obj members) => buildFullLink P origin key members
  | .full _ _ _ _ => .error "TypeError"

lemma canonicalize_ok {v : Json N} {text : JsString} (h : canonicalize v = .ok text) :
    scalarTexts v = true ∧ text = v.serialize := by
  unfold canonicalize at h
  split at h
  · rename_i hscalar
    cases h
    exact ⟨hscalar, rfl⟩
  · cases h

/-- The bytes of a record's text are those of its base64url without the mark. -/
lemma Carries.text {r : JsString} (h : Carries r record) : record.Proper ∧ ∃ raw, r = encodeBase64Url raw ∧
    raw.length ≤ maxFullRecordJsonBytes ∧ textEncode record.serialize = stripByteOrderMark raw ∧
      parseJson record.serialize = some record ∧ canonicalize record = .ok record.serialize := by
  obtain ⟨raw, text, hraw, hle, htext, hrecord, hjson⟩ := h
  obtain ⟨-, rfl⟩ := canonicalize_ok hjson
  exact ⟨proper_of_parseJson hrecord, raw, (decodeStrict_iff.mp hraw).symm, hle, textEncode_of_textDecode htext, hrecord,
    hjson⟩

lemma strip_of_unmarked {raw : Bytes} (h : byteOrderMark.isPrefixOf raw = false) : stripByteOrderMark raw = raw := by
  rw [stripByteOrderMark, if_neg (by simp [h])]

lemma base64_all (bytes : Bytes) : (encodeBase64Url bytes).all isBase64UrlUnit = true :=
  List.all_eq_true.mpr (units_encodeBase64Url bytes)

lemma encoded_ne (hproper : (Json.obj members).Proper) :
    encodeBase64Url (textEncode (Json.obj members).serialize) ≠ [] := by
  have hdecode := (textDecode_serialize_obj hproper).2
  intro hnil
  have hlen := congrArg List.length hnil
  rw [length_encodeBase64Url, List.length_nil] at hlen
  have hempty : textEncode (Json.obj members).serialize = [] := List.length_eq_zero_iff.mp (by omega)
  rw [hempty, serialize_obj] at hdecode
  cases hdecode

/-- A full link that was built carries the canonical text of its record. -/
lemma carries_of_buildFull (hurl : UrlStandard P) (hproper : (Json.obj members).Proper) {link : JsString}
    (h : buildFullLink P origin key members = .ok link) : canonicalHttpsOrigin P origin = true ∧ key.length = 32 ∧
      link = fullText origin (encodeBase64Url key) (encodeBase64Url (textEncode (Json.obj members).serialize)) ∧
      Carries (encodeBase64Url (textEncode (Json.obj members).serialize)) (Json.obj members).canonical := by
  obtain ⟨_, horigin, h⟩ := bind_eq_ok h
  obtain ⟨_, hkey, h⟩ := bind_eq_ok h
  obtain ⟨type, -, h⟩ := bind_eq_ok h
  obtain ⟨_, -, h⟩ := bind_eq_ok h
  obtain ⟨body, -, h⟩ := bind_eq_ok h
  obtain ⟨_, -, h⟩ := bind_eq_ok h
  obtain ⟨json, hjson, h⟩ := bind_eq_ok h
  obtain ⟨parsed, hparsed, h⟩ := bind_eq_ok h
  cases h
  replace horigin := throwIf_eq_ok horigin
  replace hkey := throwIf_eq_ok hkey
  rw [Bool.not_eq_false'] at horigin
  rw [bne_eq_false_iff_eq] at hkey
  obtain ⟨-, rfl⟩ := canonicalize_ok hjson
  obtain ⟨hlen, hall⟩ := key_of_linkKey (linkKey_iff.mpr ⟨rfl, hkey⟩)
  have hr := encoded_ne hproper
  have hrall := base64_all (textEncode (Json.obj members).serialize)
  obtain ⟨url, -, hhash, hparse⟩ := parseLink_fullText (N := N) hurl (List.mem_singleton_self origin) horigin hall hrall
  rw [hparse] at hparsed
  obtain ⟨k', r', key', record, hfragment, -, hcarries, -⟩ := parseFull_ok hparsed
  rw [hhash, fullFragment_iff.mpr ⟨rfl, hlen, hall, hr, hrall⟩] at hfragment
  cases hfragment
  have hrecord : record = (Json.obj members).canonical := by
    obtain ⟨raw, text, hraw, -, htext, hread, -⟩ := hcarries.bytes
    obtain rfl := encodeBase64Url_injective (decodeStrict_iff.mp hraw)
    rw [(textDecode_serialize_obj hproper).2] at htext
    cases htext
    rw [parseJson_serialize hproper] at hread
    exact (Option.some.inj hread).symm
  exact ⟨horigin, hkey, rfl, hrecord ▸ hcarries⟩

end OneSpelling

section Sample

/-- `[a-z0-9.-]` -/
def isHostUnit (u : CodeUnit) : Bool := isLowerUnit u || decide (48 ≤ u.toNat ∧ u.toNat ≤ 57) || u == 45 || u == 46

/-- A parser of plain URLs: an https host in lower case, a plain path and a plain fragment. -/
def plainUrl (s : JsString) : Option Url :=
  match stripPrefix (js "https://") s with
  | none => none
  | some rest =>
    let host := rest.takeWhile isHostUnit
    let path := (rest.dropWhile isHostUnit).takeWhile (· != 35)
    let hash := (rest.dropWhile isHostUnit).dropWhile (· != 35)
    if host ≠ [] ∧ (path = [] ∨ path.head? = some 47) ∧ (∀ u ∈ path, isBase64UrlUnit u = true ∨ u = 47) ∧
        (∀ u ∈ hash.tail, isBase64UrlUnit u = true ∨ u = 38 ∨ u = 61) then
      some ⟨js "https:", [], [], js "https://" ++ host, if path = [] then [47] else path, [],
        if hash.tail = [] then [] else hash⟩
    else none

lemma plainUrl_origin {s : JsString} {url : Url} (h : plainUrl s = some url) : ∃ host rest,
    host ≠ [] ∧ (∀ u ∈ host, isHostUnit u = true) ∧ s = js "https://" ++ host ++ rest ∧
      url.origin = js "https://" ++ host := by
  unfold plainUrl at h
  split at h
  · cases h
  · rename_i rest hrest
    simp only at h
    split at h
    · rename_i hc
      cases h
      refine ⟨_, rest.dropWhile isHostUnit, hc.1, fun u hu => List.mem_takeWhile_imp hu, ?_, rfl⟩
      rw [stripPrefix_iff.mp hrest, List.append_assoc, List.takeWhile_append_dropWhile]
    · cases h

/-- A host alone, or with a plain path and fragment, is parsed as it is written. -/
lemma plainUrl_join {host path tail : JsString} (hne : host ≠ []) (hhost : ∀ u ∈ host, isHostUnit u = true)
    (hpath : ∀ u ∈ path, isBase64UrlUnit u = true ∨ u = 47) (htailne : tail ≠ [])
    (htail : ∀ u ∈ tail, isBase64UrlUnit u = true ∨ u = 38 ∨ u = 61) :
    plainUrl (js "https://" ++ host ++ (47 :: path) ++ (35 :: tail)) =
      some ⟨js "https:", [], [], js "https://" ++ host, 47 :: path, [], 35 :: tail⟩ := by
  have hslash : isHostUnit 47 = false := by decide
  have hnumber : ∀ u ∈ (47 :: path : JsString), (u != 35) = true := by
    intro u hu
    rw [bne_iff_ne]
    rintro rfl
    have hno : isBase64UrlUnit 35 = false := by decide
    rcases List.mem_cons.mp hu with hu | hu
    · cases hu
    · rcases hpath _ hu with h | h
      · rw [hno] at h
        cases h
      · cases h
  have hsplit : js "https://" ++ host ++ (47 :: path) ++ (35 :: tail) =
      js "https://" ++ (host ++ ((47 :: path) ++ 35 :: tail)) := by
    simp only [List.append_assoc]
  have htake : (host ++ ((47 :: path) ++ 35 :: tail)).takeWhile isHostUnit = host := by
    rw [List.takeWhile_append_of_pos hhost, List.cons_append, List.takeWhile_cons_of_neg (by simp [hslash]),
      List.append_nil]
  have hdrop : (host ++ ((47 :: path) ++ 35 :: tail)).dropWhile isHostUnit = (47 :: path) ++ 35 :: tail := by
    rw [List.dropWhile_append_of_pos hhost, List.cons_append, List.dropWhile_cons_of_neg (by simp [hslash])]
  have hpathTake : ((47 :: path) ++ 35 :: tail).takeWhile (· != 35) = 47 :: path := by
    rw [List.takeWhile_append_of_pos hnumber, List.takeWhile_cons_of_neg (by simp), List.append_nil]
  have hpathDrop : ((47 :: path) ++ 35 :: tail).dropWhile (· != 35) = 35 :: tail := by
    rw [List.dropWhile_append_of_pos hnumber, List.dropWhile_cons_of_neg (by simp)]
  have hpathAll : ∀ u ∈ (47 :: path : JsString), isBase64UrlUnit u = true ∨ u = 47 := by
    intro u hu
    rcases List.mem_cons.mp hu with rfl | hu
    · exact .inr rfl
    · exact hpath u hu
  rw [hsplit, plainUrl, stripPrefix_iff.mpr rfl]
  simp only [htake, hdrop, hpathTake, hpathDrop, List.tail_cons, if_neg htailne, reduceCtorEq, if_false, List.head?_cons,
    or_true, true_and]
  exact if_pos ⟨hne, hpathAll, htail⟩

lemma plainUrl_host {host : JsString} (hne : host ≠ []) (hhost : ∀ u ∈ host, isHostUnit u = true) :
    plainUrl (js "https://" ++ host) = some ⟨js "https:", [], [], js "https://" ++ host, [47], [], []⟩ := by
  have htake : host.takeWhile isHostUnit = host := List.takeWhile_eq_self_iff.mpr hhost
  have hdrop : host.dropWhile isHostUnit = [] := List.dropWhile_eq_nil_iff.mpr hhost
  rw [plainUrl, stripPrefix_iff.mpr rfl]
  simp [htake, hdrop, hne]

def sampleOrigin : JsString := js "https://tinycloud.xyz"
def sampleCid : JsString := js "bafkreiaaaaaaaaaaaaaaaaaaaaaaaaaaaaaaaaaaaaaaaaaaaaaaaaaaaa"

/-- The identifier of a digest cut to 20 bytes, as the package writes it. -/
def cutCid : JsString := js "bafkrefaaaaaaaaaaaaaaaaaaaaaaaaaaaaaaaaa"

def samplePlatform : Platform where
  newUrl := plainUrl
  parseCid s :=
    if s = sampleCid then some ⟨1, 0x55, ⟨0x12, List.replicate 32 0⟩⟩
    else if s = cutCid then some ⟨1, 0x55, ⟨0x12, List.replicate 20 0⟩⟩
    else none
  createV1 _ multihash := if multihash.digest.length = 32 then sampleCid else cutCid

lemma samplePlatform_standard : UrlStandard samplePlatform := by
  constructor
  · intro s url h _
    obtain ⟨host, rest, hne, hhost, -, horigin⟩ := plainUrl_origin h
    have hurl : samplePlatform.newUrl url.origin = some ⟨js "https:", [], [], js "https://" ++ host, [47], [], []⟩ := by
      rw [horigin]
      exact plainUrl_host hne hhost
    rw [canonicalHttpsOrigin, hurl, horigin]
    simp
  · intro origin path tail h hpath hne htail
    unfold canonicalHttpsOrigin at h
    split at h
    · cases h
    · rename_i url hurl
      simp only [Bool.and_eq_true, beq_iff_eq] at h
      obtain ⟨host, rest, hhostne, hhost, -, horigin⟩ := plainUrl_origin hurl
      rw [← h.2, horigin]
      exact plainUrl_join hhostne hhost hpath hne htail

def sampleId : JsString := js "abcdefghijklmnopqrstuvwxyz"
def sampleKey : Bytes := List.replicate 32 7

end Sample

end TinyCloud.Links
