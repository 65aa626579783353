import TinyCloud.Runs.Fallible
import TinyCloud.Text.Base64Url
import TinyCloud.Text.Jcs

/-!
# The grammar of links

A link is short, naming a stored record, or full, carrying the record in its fragment. URL parsing and
content identifiers are the platform's and are parameters.
-/

namespace TinyCloud.Links

open TinyCloud.Text TinyCloud.Runs

structure Url where
  protocol : JsString
  username : JsString
  password : JsString
  origin : JsString
  pathname : JsString
  search : JsString
  hash : JsString

structure Multihash where
  code : ℕ
  digest : Bytes

structure Cid where
  version : ℕ
  code : ℕ
  multihash : Multihash

/-- What the platform and the packages outside the repository compute; `none` is a thrown error. -/
structure Platform where
  newUrl : JsString → Option Url
  parseCid : JsString → Option Cid
  createV1 : ℕ → Multihash → JsString

section Pieces

def isCanonicalRawCid (P : Platform) (cidString : JsString) : Bool :=
  match P.parseCid cidString with
  | none => false
  | some cid => cid.version == 1 && cid.code == 0x55 && cid.multihash.code == 0x12 &&
      P.createV1 cid.code cid.multihash == cidString

inductive LinkType
  | openkeyLogin
  | openkeyApprovalRequest
  | courier
  | share
  deriving DecidableEq

def LinkType.pathLetter : LinkType → CodeUnit
  | .openkeyLogin => 108
  | .openkeyApprovalRequest => 97
  | .courier => 99
  | .share => 115

def linkTypeForPathLetter (letter : CodeUnit) : Option LinkType :=
  [LinkType.openkeyLogin, .openkeyApprovalRequest, .courier, .share].find? fun t => t.pathLetter == letter

/-- Only what the encoder writes is decoded; the empty text is. -/
def decodeStrictBase64Url (text : JsString) : Option Bytes := do
  let sextets ← text.mapM unitSextet
  if encodeBase64Url (decodeSextets sextets) = text then some (decodeSextets sextets) else none

/-- `[A-Za-z0-9_-]` -/
def isBase64UrlUnit (u : CodeUnit) : Bool := (unitSextet u).isSome

def isLowerUnit (u : CodeUnit) : Bool := decide (97 ≤ u.toNat ∧ u.toNat ≤ 122)
def isUpperUnit (u : CodeUnit) : Bool := decide (65 ≤ u.toNat ∧ u.toNat ≤ 90)

/-- `[a-z2-7]` -/
def isBase32Unit (u : CodeUnit) : Bool := isLowerUnit u || decide (50 ≤ u.toNat ∧ u.toNat ≤ 55)

/-- `toLowerCase()` of a text in ASCII. -/
def lowerCase (s : JsString) : JsString := s.map fun u => if isUpperUnit u then u + 32 else u

/-- `/^[A-Za-z2-7]{26}$/` -/
def isLinkId (id : JsString) : Bool := id.length == 26 && id.all fun u => isBase32Unit u || isUpperUnit u

/-- `LINK_ID_PATTERN` -/
def isLowerLinkId (id : JsString) : Bool := id.length == 26 && id.all isBase32Unit

def stripPrefix (p s : JsString) : Option JsString := if p.isPrefixOf s then some (s.drop p.length) else none

/-- `/^bafkrei[a-z2-7]{52}$/` -/
def isBodyCid (c : JsString) : Bool :=
  match stripPrefix (js "bafkrei") c with
  | none => false
  | some rest => rest.length == 52 && rest.all isBase32Unit

end Pieces

section Fragments

def fullLinkPath : JsString := js "/s/full"
def keyField : JsString := js "#v=4&k="
def cidField : JsString := js "&c="
def recordField : JsString := js "&r="

/-- The letter and the id of a short link's path. -/
def shortPath : JsString → Option (CodeUnit × JsString)
  | 47 :: letter :: 47 :: id =>
    if (js "scla").contains letter && isLinkId id then some (letter, id) else none
  | _ => none

/-- The key and what comes after it. -/
def keyFragment (hash : JsString) : Option (JsString × JsString) := do
  let rest ← stripPrefix keyField hash
  let k := rest.take 43
  if k.length = 43 ∧ k.all isBase64UrlUnit = true then some (k, rest.drop 43) else none

def shortFragment (hash : JsString) : Option (JsString × JsString) := do
  let (k, rest) ← keyFragment hash
  let c ← stripPrefix cidField rest
  if isBodyCid c then some (k, c) else none

def fullFragment (hash : JsString) : Option (JsString × JsString) := do
  let (k, rest) ← keyFragment hash
  let r ← stripPrefix recordField rest
  if r ≠ [] ∧ r.all isBase64UrlUnit = true then some (k, r) else none

/-- `/^#v=[23](&|$)/` -/
def removedFragment (hash : JsString) : Bool :=
  match stripPrefix (js "#v=") hash with
  | some (digit :: rest) => (js "23").contains digit && (rest == [] || rest.head? == some 38)
  | _ => false

/-- A key's bytes. -/
def linkKey (k : JsString) : Option Bytes := do
  let key ← decodeStrictBase64Url k
  if key.length = 32 then some key else none

end Fragments

section Links

variable {N : Type} [NumberFormat N]

inductive ParsedLink (N : Type)
  | short (origin : JsString) (pathType : LinkType) (id k : JsString) (key : Bytes) (c : JsString)
  | full (origin k : JsString) (key : Bytes) (record : Json N)

def maxLinkBodyBytes : ℕ := 65536

/-- `Math.ceil((MAX_LINK_BODY_BYTES * 4) / 3) + 3072` -/
def maxFullRecordJsonBytes : ℕ := (maxLinkBodyBytes * 4 + 2) / 3 + 3072

variable (P : Platform)

def parseShort (url : Url) (letter : CodeUnit) (id : JsString) : Except String (ParsedLink N) := do
  let (k, c) ← orThrow (shortFragment url.hash) "fragment_grammar"
  let key ← orThrow (linkKey k) "key_noncanonical"
  throwIf (!isCanonicalRawCid P c) "cid_grammar"
  let pathType ← orThrow (linkTypeForPathLetter letter) "path_grammar"
  .ok (.short url.origin pathType (lowerCase id) k key c)

def parseFull (url : Url) : Except String (ParsedLink N) := do
  let (k, r) ← orThrow (fullFragment url.hash) "fragment_grammar"
  let key ← orThrow (linkKey k) "key_noncanonical"
  let raw ← orThrow (decodeStrictBase64Url r) "record_encoding"
  throwIf (decide (maxFullRecordJsonBytes < raw.length)) "record_json"
  let text ← orThrow (textDecode raw) "record_json"
  let record ← orThrow (parseJson text) "record_json"
  let canonical ← (canonicalize record).mapError fun _ => "record_not_canonical"
  throwIf (canonical != text) "record_not_canonical"
  .ok (.full url.origin k key record)

def parseLink (trustedOrigins : List JsString) (href : JsString) : Except String (ParsedLink N) := do
  let url ← orThrow (P.newUrl href) "not_a_url"
  throwIf (url.protocol != js "https:") "not_https"
  throwIf (url.username != [] || url.password != []) "userinfo"
  throwIf (!trustedOrigins.contains url.origin) "origin_not_trusted"
  throwIf (href != url.origin ++ url.pathname ++ url.search ++ url.hash) "not_canonical"
  throwIf (url.search != []) "query_present"
  throwIf (removedFragment url.hash) "removed_version"
  match shortPath url.pathname with
  | some (letter, id) => parseShort P url letter id
  | none => if url.pathname = fullLinkPath then parseFull url else .error "path_grammar"

def canonicalHttpsOrigin (origin : JsString) : Bool :=
  match P.newUrl origin with
  | none => false
  | some url => url.protocol == js "https:" && url.username == [] && url.password == [] && url.origin == origin

def shortText (origin : JsString) (letter : CodeUnit) (id k c : JsString) : JsString :=
  origin ++ (47 :: letter :: 47 :: id) ++ (keyField ++ k ++ cidField ++ c)

def fullText (origin k r : JsString) : JsString := origin ++ fullLinkPath ++ (keyField ++ k ++ recordField ++ r)

def buildShortLink (origin : JsString) (type : LinkType) (id : JsString) (key : Bytes) (bodyCid : JsString) :
    Except String JsString := do
  throwIf (!canonicalHttpsOrigin P origin) "invalid_argument"
  throwIf (!isLowerLinkId id) "id_grammar"
  throwIf (!isCanonicalRawCid P bodyCid) "body_cid_format"
  throwIf (key.length != 32) "invalid_argument"
  .ok (shortText origin type.pathLetter id (encodeBase64Url key) bodyCid)

/-- `record.header.type`, `none` where it is not a text. -/
def headerType (record : List (JsString × Json N)) : Except String (Option JsString) :=
  match record.lookup (js "header") with
  | some (.obj header) =>
    match header.lookup (js "type") with
    | some (.str type) => .ok (some type)
    | _ => .ok none
  | some .null => .error "TypeError"
  | none => .error "TypeError"
  | some _ => .ok none

def recordBody (record : List (JsString × Json N)) : Option Bytes :=
  match record.lookup (js "body") with
  | some (.str body) => decodeStrictBase64Url body
  | _ => none

def buildFullLink (origin : JsString) (key : Bytes) (record : List (JsString × Json N)) : Except String JsString := do
  throwIf (!canonicalHttpsOrigin P origin) "invalid_argument"
  throwIf (key.length != 32) "invalid_argument"
  let type ← headerType record
  throwIf (type != some (js "share")) "full_non_share"
  let body ← orThrow (recordBody record) "body_encoding"
  throwIf (decide (maxLinkBodyBytes < body.length)) "body_over_cap"
  let json ← canonicalize (.obj record)
  let link := fullText origin (encodeBase64Url key) (encodeBase64Url (textEncode json))
  let _ ← parseLink (N := N) P [origin] link
  .ok link

end Links

section PieceLemmas

lemma stripPrefix_iff {p s rest : JsString} : stripPrefix p s = some rest ↔ s = p ++ rest := by
  unfold stripPrefix
  constructor
  · intro h
    split at h
    · rename_i hp
      obtain ⟨t, rfl⟩ := List.isPrefixOf_iff_prefix.mp hp
      rw [List.drop_left, Option.some.injEq] at h
      rw [h]
    · cases h
  · rintro rfl
    rw [if_pos (List.isPrefixOf_iff_prefix.mpr (List.prefix_append p rest)), List.drop_left]

lemma mapM_sextets {sextets : List ℕ} (h : ∀ n ∈ sextets, n < 64) :
    (sextets.map sextetUnit).mapM unitSextet = some sextets := by
  induction sextets with
  | nil => rfl
  | cons n sextets ih =>
    rw [List.map_cons, List.mapM_cons, unitSextet_sextetUnit n (h n List.mem_cons_self),
      ih fun m hm => h m (List.mem_cons_of_mem _ hm)]
    rfl

lemma decodeStrict_iff {text : JsString} {bytes : Bytes} :
    decodeStrictBase64Url text = some bytes ↔ encodeBase64Url bytes = text := by
  unfold decodeStrictBase64Url
  constructor
  · intro h
    rw [Option.bind_eq_bind, Option.bind_eq_some_iff] at h
    obtain ⟨sextets, -, h⟩ := h
    split at h
    · rename_i he
      cases h
      exact he
    · cases h
  · rintro rfl
    have hsextets : (encodeBase64Url bytes).mapM unitSextet = some (encodeSextets bytes) :=
      mapM_sextets (encodeSextets_lt bytes)
    rw [hsextets, Option.bind_eq_bind, Option.bind_some, decodeSextets_encodeSextets, if_pos rfl]

lemma length_encodeSextets (bytes : Bytes) : (encodeSextets bytes).length = (bytes.length * 4 + 2) / 3 := by
  induction bytes using encodeSextets.induct with
  | case1 => rfl
  | case2 => simp [encodeSextets]
  | case3 => simp [encodeSextets]
  | case4 x y z rest ih =>
    simp only [encodeSextets, List.length_cons, ih]
    omega

lemma length_encodeBase64Url (bytes : Bytes) : (encodeBase64Url bytes).length = (bytes.length * 4 + 2) / 3 := by
  rw [encodeBase64Url, List.length_map, length_encodeSextets]

lemma units_encodeBase64Url (bytes : Bytes) : ∀ u ∈ encodeBase64Url bytes, isBase64UrlUnit u = true := by
  intro u hu
  obtain ⟨n, hn, rfl⟩ := List.mem_map.mp hu
  rw [isBase64UrlUnit, unitSextet_sextetUnit n (encodeSextets_lt bytes n hn)]
  rfl

lemma linkKey_iff {k : JsString} {key : Bytes} :
    linkKey k = some key ↔ encodeBase64Url key = k ∧ key.length = 32 := by
  rw [linkKey, Option.bind_eq_bind, Option.bind_eq_some_iff]
  constructor
  · rintro ⟨key', hkey, h⟩
    split at h
    · rename_i hlen
      cases h
      exact ⟨decodeStrict_iff.mp hkey, hlen⟩
    · cases h
  · rintro ⟨hkey, hlen⟩
    exact ⟨key, decodeStrict_iff.mpr hkey, if_pos hlen⟩

/-- A text a fragment can begin with: a key's 43 units, and what follows. -/
lemma keyFragment_iff {hash k rest : JsString} : keyFragment hash = some (k, rest) ↔
    hash = keyField ++ k ++ rest ∧ k.length = 43 ∧ k.all isBase64UrlUnit = true := by
  rw [keyFragment, Option.bind_eq_bind, Option.bind_eq_some_iff]
  constructor
  · rintro ⟨tail, htail, h⟩
    simp only at h
    split at h
    · rename_i hk
      rw [Option.some.injEq, Prod.mk.injEq] at h
      obtain ⟨rfl, rfl⟩ := h
      rw [List.append_assoc, List.take_append_drop]
      exact ⟨stripPrefix_iff.mp htail, hk⟩
    · cases h
  · rintro ⟨rfl, hlen, hall⟩
    refine ⟨k ++ rest, stripPrefix_iff.mpr (List.append_assoc _ _ _), ?_⟩
    have htake : (k ++ rest).take 43 = k := by rw [← hlen, List.take_left]
    have hdrop : (k ++ rest).drop 43 = rest := by rw [← hlen, List.drop_left]
    simp only [htake, hdrop]
    exact if_pos ⟨hlen, hall⟩

lemma shortFragment_iff {hash k c : JsString} : shortFragment hash = some (k, c) ↔
    hash = keyField ++ k ++ cidField ++ c ∧ k.length = 43 ∧ k.all isBase64UrlUnit = true ∧ isBodyCid c = true := by
  rw [shortFragment, Option.bind_eq_bind, Option.bind_eq_some_iff]
  constructor
  · rintro ⟨⟨k', rest⟩, hk, h⟩
    rw [Option.bind_eq_bind, Option.bind_eq_some_iff] at h
    obtain ⟨c', hc, h⟩ := h
    split at h
    · rename_i hcid
      rw [Option.some.injEq, Prod.mk.injEq] at h
      obtain ⟨rfl, rfl⟩ := h
      obtain ⟨rfl, hlen, hall⟩ := keyFragment_iff.mp hk
      rw [stripPrefix_iff.mp hc]
      exact ⟨(List.append_assoc _ _ _).symm, hlen, hall, hcid⟩
    · cases h
  · rintro ⟨rfl, hlen, hall, hcid⟩
    refine ⟨(k, cidField ++ c), keyFragment_iff.mpr ⟨List.append_assoc _ _ _, hlen, hall⟩, ?_⟩
    rw [Option.bind_eq_bind, Option.bind_eq_some_iff]
    exact ⟨c, stripPrefix_iff.mpr rfl, if_pos hcid⟩

lemma fullFragment_iff {hash k r : JsString} : fullFragment hash = some (k, r) ↔
    hash = keyField ++ k ++ recordField ++ r ∧ k.length = 43 ∧ k.all isBase64UrlUnit = true ∧
      r ≠ [] ∧ r.all isBase64UrlUnit = true := by
  rw [fullFragment, Option.bind_eq_bind, Option.bind_eq_some_iff]
  constructor
  · rintro ⟨⟨k', rest⟩, hk, h⟩
    rw [Option.bind_eq_bind, Option.bind_eq_some_iff] at h
    obtain ⟨r', hr, h⟩ := h
    split at h
    · rename_i hrecord
      rw [Option.some.injEq, Prod.mk.injEq] at h
      obtain ⟨rfl, rfl⟩ := h
      obtain ⟨rfl, hlen, hall⟩ := keyFragment_iff.mp hk
      rw [stripPrefix_iff.mp hr]
      exact ⟨(List.append_assoc _ _ _).symm, hlen, hall, hrecord⟩
    · cases h
  · rintro ⟨rfl, hlen, hall, hrecord⟩
    refine ⟨(k, recordField ++ r), keyFragment_iff.mpr ⟨List.append_assoc _ _ _, hlen, hall⟩, ?_⟩
    rw [Option.bind_eq_bind, Option.bind_eq_some_iff]
    exact ⟨r, stripPrefix_iff.mpr rfl, if_pos hrecord⟩

lemma shortPath_iff {path id : JsString} {letter : CodeUnit} : shortPath path = some (letter, id) ↔
    path = 47 :: letter :: 47 :: id ∧ (js "scla").contains letter = true ∧ isLinkId id = true := by
  unfold shortPath
  split
  · rename_i l id'
    constructor
    · intro h
      split at h
      · rename_i hc
        rw [Option.some.injEq, Prod.mk.injEq] at h
        obtain ⟨rfl, rfl⟩ := h
        rw [Bool.and_eq_true] at hc
        exact ⟨rfl, hc⟩
      · cases h
    · rintro ⟨he, hc⟩
      simp only [List.cons.injEq, true_and] at he
      obtain ⟨rfl, rfl⟩ := he
      rw [if_pos (by rw [Bool.and_eq_true]; exact hc)]
  · rename_i hno
    refine iff_of_false (by simp) ?_
    rintro ⟨rfl, -⟩
    exact hno letter id rfl

lemma pathLetter_listed (t : LinkType) : (js "scla").contains t.pathLetter = true := by
  cases t <;> decide

lemma linkTypeForPathLetter_iff {letter : CodeUnit} {t : LinkType} :
    linkTypeForPathLetter letter = some t ↔ letter = t.pathLetter := by
  unfold linkTypeForPathLetter
  constructor
  · intro h
    have := List.find?_some h
    exact (beq_iff_eq.mp this).symm
  · rintro rfl
    cases t <;> rfl

end PieceLemmas

end TinyCloud.Links
