import TinyCloud.Links.Grammar
import TinyCloud.Text.Double

/-!
# Link headers and records

The checks of a stored record: its header, its signature, its body and what the body opens to. Keys,
signatures, content identifiers, the seal and dates are parameters.
-/

namespace TinyCloud.Links

open TinyCloud.Text TinyCloud.Runs

/-- What the crypto packages and the platform compute; `none` is a thrown error, or a date that is not one. -/
structure Crypto extends Platform where
  publicKeyOfDidKey : JsString → Option Bytes
  didKeyOfPublicKey : Bytes → JsString
  keyProblem : Bytes → Option String
  verifyStrict : Bytes → Bytes → Bytes → Bool
  sha256 : Bytes → Bytes
  computeCid : Bytes → JsString
  openSealed : Bytes → Bytes → Option Bytes
  dateParse : JsString → Option ℤ
  toISOString : ℤ → JsString

section Patterns

def isLowerAlnum (u : CodeUnit) : Bool := isLowerUnit u || isDigit u

/-- `[1-9A-HJ-NP-Za-km-z]` -/
def isBase58Unit (u : CodeUnit) : Bool :=
  (isDigit u || isUpperUnit u || isLowerUnit u) && !(js "0IOl").contains u

/-- `/^did:key:z[1-9A-HJ-NP-Za-km-z]+$/` -/
def isDidKeyText (did : JsString) : Bool :=
  match stripPrefix (js "did:key:z") did with
  | none => false
  | some rest => rest != [] && rest.all isBase58Unit

/-- `/^service:[a-z0-9][a-z0-9-]{0,31}$/` -/
def isServiceIssuer (issuer : JsString) : Bool :=
  match stripPrefix (js "service:") issuer with
  | some (c :: rest) => isLowerAlnum c && decide (rest.length ≤ 31) && rest.all fun u => isLowerAlnum u || u == 45
  | _ => false

/-- `/^https:\/\/[a-z0-9]([a-z0-9.-]*[a-z0-9])?(:[0-9]{1,5})?$/` -/
def isAudience (audience : JsString) : Bool :=
  match stripPrefix (js "https://") audience with
  | none => false
  | some rest =>
    let host := rest.takeWhile (· != 58)
    let port := rest.dropWhile (· != 58)
    (host.head?.any isLowerAlnum) && (host.getLast?.any isLowerAlnum) &&
      (host.all fun u => isLowerAlnum u || u == 45 || u == 46) &&
      (port == [] || (decide (2 ≤ port.length ∧ port.length ≤ 6) && port.tail.all isDigit))

/-- `/^\d{4}-\d{2}-\d{2}T\d{2}:\d{2}:\d{2}\.\d{3}Z$/`; a zero of the template stands for a digit. -/
def isTimestampText (text : JsString) : Bool :=
  let template := js "0000-00-00T00:00:00.000Z"
  text.length == template.length &&
    (template.zip text).all fun p => if p.1 == 48 then isDigit p.2 else p.1 == p.2

/-- `strictBytes(text, length)` -/
def strictBytes (text : JsString) (length : ℕ) : Option Bytes := do
  let bytes ← decodeStrictBase64Url text
  if bytes.length = length then some bytes else none

/-- `/^[A-Za-z0-9_-]{22}$/` and 16 bytes. -/
def isNonce (nonce : JsString) : Bool :=
  nonce.length == 22 && nonce.all isBase64UrlUnit && (strictBytes nonce 16).isSome

def isSafeSize (size : Double) : Bool :=
  size.isInteger && decide ((UNITS : ℤ) ≤ size.units ∧ size.units ≤ (2 ^ 53 - 1) * UNITS)

end Patterns

section Headers

def LinkType.text : LinkType → JsString
  | .openkeyLogin => js "openkey-login"
  | .openkeyApprovalRequest => js "openkey-approval-request"
  | .courier => js "courier"
  | .share => js "share"

def linkTypeOf (text : JsString) : Option LinkType :=
  [LinkType.openkeyLogin, .openkeyApprovalRequest, .courier, .share].find? fun t => t.text == text

structure LinkHeaderV1 where
  type : LinkType
  issuer : JsString
  audience : JsString
  issuedAt : JsString
  expiresAt : JsString
  size : Double
  bodyCid : JsString
  nonce : JsString

def versionOne : Double := .whole 1 0 one_small unshifted

def LinkHeaderV1.members (header : LinkHeaderV1) : List (JsString × Json Double) :=
  [(js "audience", .str header.audience), (js "bodyCid", .str header.bodyCid), (js "expiresAt", .str header.expiresAt),
    (js "issuedAt", .str header.issuedAt), (js "issuer", .str header.issuer), (js "nonce", .str header.nonce),
    (js "size", .num header.size), (js "type", .str header.type.text), (js "version", .num versionOne)]

def LinkHeaderV1.json (header : LinkHeaderV1) : Json Double := .obj header.members

def headerKeys : List String :=
  ["audience", "bodyCid", "expiresAt", "issuedAt", "issuer", "nonce", "size", "type", "version"]

structure LinkSignatureV1 where
  value : JsString

def LinkSignatureV1.json (signature : LinkSignatureV1) : Json Double :=
  .obj [(js "algorithm", .str (js "Ed25519")), (js "value", .str signature.value)]

variable (C : Crypto)

def parseLinkTimestamp (text : JsString) : Option ℤ :=
  if isTimestampText text then
    (C.dateParse text).bind fun ms => if C.toISOString ms = text then some ms else none
  else none

def linkIssuerPublicKey (did : JsString) : Option Bytes :=
  if isDidKeyText did then
    (C.publicKeyOfDidKey did).bind fun key => if C.didKeyOfPublicKey key = did then some key else none
  else none

inductive LinkIssuerMode
  | signed
  | service
  deriving DecidableEq

/-- The issuers a mode allows. -/
def checkIssuer (mode : LinkIssuerMode) (issuer : JsString) : Except String Unit :=
  match mode with
  | .service => throwIf (!isServiceIssuer issuer) "issuer_service_format"
  | .signed => do
    throwIf (!(js "did:key:").isPrefixOf issuer) "issuer_method_not_allowed"
    throwIf (!isDidKeyText issuer) "issuer_format"
    let key ← orThrow (linkIssuerPublicKey C issuer) "issuer_key_type"
    match C.keyProblem key with
    | none => .ok ()
    | some problem => .error ("issuer_key_" ++ problem)

def textMember (members : List (JsString × Json Double)) (key : String) : Option JsString :=
  match members.lookup (js key) with
  | some (.str s) => some s
  | _ => none

def numberMember (members : List (JsString × Json Double)) (key : String) : Option Double :=
  match members.lookup (js key) with
  | some (.num n) => some n
  | _ => none

def hasExactKeys (members : List (JsString × Json Double)) (keys : List String) : Bool :=
  (members.map Prod.fst).insertionSort UnitsLe == keys.map js

/-- The schema that the source runs after these checks takes what they take. -/
def validateLinkHeader (mode : LinkIssuerMode) : Json Double → Except String LinkHeaderV1
  | .obj members => do
    throwIf (!hasExactKeys members headerKeys) "header_fields"
    throwIf (decide (numberMember members "version" ≠ some versionOne)) "header_version"
    let type ← orThrow ((textMember members "type").bind linkTypeOf) "unknown_type"
    let issuer ← orThrow (textMember members "issuer") "issuer_format"
    checkIssuer C mode issuer
    let audience ← orThrow (textMember members "audience") "audience_format"
    throwIf (!isAudience audience) "audience_format"
    let issuedAt ← orThrow (textMember members "issuedAt") "timestamp_format"
    let expiresAt ← orThrow (textMember members "expiresAt") "timestamp_format"
    throwIf ((parseLinkTimestamp C issuedAt).isNone || (parseLinkTimestamp C expiresAt).isNone) "timestamp_format"
    let nonce ← orThrow (textMember members "nonce") "nonce_format"
    throwIf (!isNonce nonce) "nonce_format"
    let size ← orThrow (numberMember members "size") "size_format"
    throwIf (!isSafeSize size) "size_format"
    let bodyCid ← orThrow (textMember members "bodyCid") "body_cid_format"
    throwIf (!(isBodyCid bodyCid && isCanonicalRawCid C.toPlatform bodyCid)) "body_cid_format"
    .ok ⟨type, issuer, audience, issuedAt, expiresAt, size, bodyCid, nonce⟩
  | _ => .error "header_shape"

def linkSignatureV1Schema : Json Double → Option LinkSignatureV1
  | .obj members =>
    if hasExactKeys members ["algorithm", "value"] ∧ textMember members "algorithm" = some (js "Ed25519") then
      (textMember members "value").bind fun value => if (strictBytes value 64).isSome then some ⟨value⟩ else none
    else none
  | _ => none

end Headers

section Records

variable [NumberFormat Double] (C : Crypto)

def headerDomain : JsString := js "xyz.tinycloud.links/header/v1" ++ [0]
def minBodyBytes : ℕ := 30

def checkLinkBody (header : LinkHeaderV1) (body : Bytes) (bodyCid : JsString) : Except String Unit := do
  throwIf (decide (header.size.units ≠ body.length * UNITS)) "size_mismatch"
  throwIf (decide (maxLinkBodyBytes < body.length)) "body_over_cap"
  throwIf (decide (body.length < minBodyBytes)) "body_too_small"
  throwIf (bodyCid != header.bodyCid) "body_hash_mismatch"

/-- `verifyHeader`, the signature as it is given. -/
def verifyHeader (header : LinkHeaderV1) (signature : Json Double) : Bool :=
  match linkSignatureV1Schema signature with
  | none => false
  | some signature =>
    match strictBytes signature.value 64, linkIssuerPublicKey C header.issuer, canonicalize header.json with
    | some sig, some key, .ok text => C.verifyStrict key (C.sha256 (textEncode headerDomain ++ textEncode text)) sig
    | _, _, _ => false

structure CheckedLinkRecord where
  header : LinkHeaderV1
  signature : Option LinkSignatureV1
  body : Bytes

/-- The signature of a record that has one. -/
def checkSignature (header : LinkHeaderV1) (signature : Option (Json Double)) :
    Except String (Option LinkSignatureV1) :=
  match signature with
  | none => .ok none
  | some signature => do
    throwIf (!verifyHeader C header signature) "bad_signature"
    let parsed ← orThrow (linkSignatureV1Schema signature) "ZodError"
    .ok (some parsed)

def checkLinkRecord (record : Json Double) (nowMs : ℤ) : Except String CheckedLinkRecord :=
  match record with
  | .obj fields => do
    -- a key that holds a comma passes here in the source, and fails at the header it does not name
    throwIf (!(hasExactKeys fields ["body", "header", "signature"] || hasExactKeys fields ["body", "header"]))
      "record_fields"
    let signature := fields.lookup (js "signature")
    let header ← validateLinkHeader C (if signature.isSome then .signed else .service)
      ((fields.lookup (js "header")).getD .null)
    throwIf (signature.isNone && decide (header.type ≠ .openkeyLogin)) "unsigned_not_allowed"
    let body ← orThrow (recordBody fields) "body_encoding"
    checkLinkBody header body (C.computeCid body)
    let signature ← checkSignature C header signature
    throwIf (decide ((parseLinkTimestamp C header.expiresAt).getD 0 ≤ nowMs)) "expired"
    .ok ⟨header, signature, body⟩
  | _ => .error "record_shape"

structure OpenedLink where
  plaintext : Bytes
  value : List (JsString × Json Double)

/-- The signer a share's envelope names, the issuer any other body names. -/
def claimedIssuer (type : LinkType) (value : List (JsString × Json Double)) : Option JsString :=
  if type = .share then
    match value.lookup (js "signature") with
    | some (.obj signature) => textMember signature "signerDid"
    | _ => none
  else textMember value "issuer"

def openLinkRecord (record : Json Double) (key : Bytes) (nowMs : ℤ) : Except String OpenedLink := do
  let checked ← checkLinkRecord C record nowMs
  throwIf (key.length != 32) "invalid_argument"
  let plaintext ← orThrow (C.openSealed checked.body key) "body_open_failed"
  let text ← orThrow (textDecode plaintext) "plaintext_schema"
  let json ← orThrow (parseJson text) "plaintext_schema"
  match (json : Json Double) with
  | .obj value =>
    if claimedIssuer checked.header.type value = some checked.header.issuer then .ok ⟨plaintext, value⟩
    else .error "issuer_binding_mismatch"
  | _ => .error "plaintext_schema"

end Records

section HeaderLemmas

variable {C : Crypto} {mode : LinkIssuerMode} {v : Json Double} {members : List (JsString × Json Double)}
  {header : LinkHeaderV1} {signature : LinkSignatureV1}

lemma linkTypeOf_iff {text : JsString} {t : LinkType} : linkTypeOf text = some t ↔ text = t.text := by
  unfold linkTypeOf
  constructor
  · intro h
    have := List.find?_some h
    exact (beq_iff_eq.mp this).symm
  · rintro rfl
    cases t <;> decide

lemma lookup_of_textMember {key : String} {s : JsString} (h : textMember members key = some s) :
    members.lookup (js key) = some (.str s) := by
  unfold textMember at h
  split at h
  · rename_i t ht
    cases h
    exact ht
  · cases h

lemma lookup_of_numberMember {key : String} {n : Double} (h : numberMember members key = some n) :
    members.lookup (js key) = some (.num n) := by
  unfold numberMember at h
  split at h
  · rename_i t ht
    cases h
    exact ht
  · cases h

lemma keys_of_exact {keys : List String} (h : hasExactKeys members keys = true) :
    ∀ m ∈ members, m.1 ∈ keys.map js := by
  intro m hm
  rw [hasExactKeys, beq_iff_eq] at h
  rw [← h, (List.perm_insertionSort UnitsLe _).mem_iff]
  exact List.mem_map_of_mem hm

/-- An object with exactly the listed keys is, in canonical form, the list of its fields. -/
lemma canonical_of_exact {keys : List String} {l : List (JsString × Json Double)} (hp : (Json.obj members).Proper)
    (hm : hasExactKeys members keys = true) (hl : l.map Prod.fst = keys.map js) (hn : (keys.map js).Nodup)
    (hs : (keys.map js).Pairwise UnitsLe) (h : ∀ m ∈ l, ∃ w, members.lookup m.1 = some w ∧ w.canonical = m.2) :
    (Json.obj members).canonical = .obj l := by
  have hk := keys_of_exact hm
  have hkeys : ((members.insertionSort KeyLe).map fun m => (m.1, m.2.canonical)).map Prod.fst =
      (members.insertionSort KeyLe).map Prod.fst := keys_mapValues _ _
  have hperm := List.perm_insertionSort KeyLe members
  have hsorted := List.pairwise_insertionSort KeyLe members
  cases hp with
  | obj hnd _ =>
    have hsortedNodup : ((members.insertionSort KeyLe).map Prod.fst).Nodup := ((hperm.map Prod.fst).nodup_iff).mpr hnd
    rw [canonical_obj]
    congr 1
    rw [← hl] at hk hn hs
    refine eq_of_lookups (hkeys ▸ hsortedNodup) hn ?_ (sorted_of_keys hs) ?_ ?_
    · rw [List.pairwise_map]
      exact hsorted
    · intro m hm
      obtain ⟨e, he, rfl⟩ := List.mem_map.mp hm
      exact hk e (hperm.mem_iff.mp he)
    · intro m hm
      obtain ⟨w, hw, hcanonical⟩ := h m hm
      rw [lookup_canonical hnd, hw, Option.map_some, hcanonical]

/-- A canonical object with exactly the listed keys is given by its fields. -/
lemma eq_of_exact {keys : List String} {l : List (JsString × Json Double)} (hp : (Json.obj members).Proper)
    (hc : (Json.obj members).canonical = .obj members) (hm : hasExactKeys members keys = true)
    (hl : l.map Prod.fst = keys.map js) (hn : (keys.map js).Nodup) (hs : (keys.map js).Pairwise UnitsLe)
    (h : ∀ m ∈ l, members.lookup m.1 = some m.2) : members = l := by
  have hl : (Json.obj members).canonical = .obj l := by
    refine canonical_of_exact hp hm hl hn hs fun m hm => ⟨m.2, h m hm, ?_⟩
    cases hp with
    | obj hnd _ => exact (members_of_canonical hnd hc).2 (m.1, m.2) (mem_of_lookup (h m hm))
  rw [hc] at hl
  exact Json.obj.inj hl

/-- What a header that passed its checks is made of. -/
structure HeaderChecked (C : Crypto) (mode : LinkIssuerMode) (members : List (JsString × Json Double))
    (header : LinkHeaderV1) : Prop where
  keys : hasExactKeys members headerKeys = true
  fields : ∀ m ∈ header.members, members.lookup m.1 = some m.2
  issuer : checkIssuer C mode header.issuer = .ok ()
  audience : isAudience header.audience = true
  dates : (parseLinkTimestamp C header.issuedAt).isSome = true ∧ (parseLinkTimestamp C header.expiresAt).isSome = true
  nonce : isNonce header.nonce = true
  size : isSafeSize header.size = true
  cid : isBodyCid header.bodyCid = true ∧ isCanonicalRawCid C.toPlatform header.bodyCid = true

lemma checked_of_validate (h : validateLinkHeader C mode v = .ok header) :
    ∃ members, v = .obj members ∧ HeaderChecked C mode members header := by
  unfold validateLinkHeader at h
  split at h
  · rename_i members
    obtain ⟨_, hkeys, h⟩ := bind_eq_ok h
    obtain ⟨_, hversion, h⟩ := bind_eq_ok h
    obtain ⟨type, htype, h⟩ := bind_eq_ok h
    obtain ⟨issuer, hissuer, h⟩ := bind_eq_ok h
    obtain ⟨⟨⟩, hallowed, h⟩ := bind_eq_ok h
    obtain ⟨audience, haudience, h⟩ := bind_eq_ok h
    obtain ⟨_, haudienceText, h⟩ := bind_eq_ok h
    obtain ⟨issuedAt, hissuedAt, h⟩ := bind_eq_ok h
    obtain ⟨expiresAt, hexpiresAt, h⟩ := bind_eq_ok h
    obtain ⟨_, hdates, h⟩ := bind_eq_ok h
    obtain ⟨nonce, hnonce, h⟩ := bind_eq_ok h
    obtain ⟨_, hnonceText, h⟩ := bind_eq_ok h
    obtain ⟨size, hsize, h⟩ := bind_eq_ok h
    obtain ⟨_, hsafe, h⟩ := bind_eq_ok h
    obtain ⟨bodyCid, hbody, h⟩ := bind_eq_ok h
    obtain ⟨_, hcid, h⟩ := bind_eq_ok h
    cases h
    replace hkeys := throwIf_eq_ok hkeys
    replace hversion := throwIf_eq_ok hversion
    replace haudienceText := throwIf_eq_ok haudienceText
    replace hdates := throwIf_eq_ok hdates
    replace hnonceText := throwIf_eq_ok hnonceText
    replace hsafe := throwIf_eq_ok hsafe
    replace hcid := throwIf_eq_ok hcid
    rw [Bool.not_eq_false'] at hkeys haudienceText hnonceText hsafe hcid
    rw [decide_eq_false_iff_not, not_not] at hversion
    rw [Bool.or_eq_false_iff, Option.isNone_eq_false_iff, Option.isNone_eq_false_iff] at hdates
    rw [Bool.and_eq_true] at hcid
    obtain ⟨name, hname, htype⟩ := Option.bind_eq_some_iff.mp (orThrow_eq_ok htype)
    obtain rfl := linkTypeOf_iff.mp htype
    refine ⟨members, rfl, hkeys, ?_, hallowed, haudienceText, hdates, hnonceText, hsafe, hcid⟩
    simp only [LinkHeaderV1.members, List.forall_mem_cons, List.not_mem_nil, false_implies, implies_true, and_true]
    exact ⟨lookup_of_textMember (orThrow_eq_ok haudience), lookup_of_textMember (orThrow_eq_ok hbody),
      lookup_of_textMember (orThrow_eq_ok hexpiresAt), lookup_of_textMember (orThrow_eq_ok hissuedAt),
      lookup_of_textMember (orThrow_eq_ok hissuer), lookup_of_textMember (orThrow_eq_ok hnonce),
      lookup_of_numberMember (orThrow_eq_ok hsize), lookup_of_textMember hname, lookup_of_numberMember hversion⟩
  · cases h

lemma textMember_of_lookup {key : String} {s : JsString} (h : members.lookup (js key) = some (.str s)) :
    textMember members key = some s := by
  rw [textMember, h]

lemma numberMember_of_lookup {key : String} {n : Double} (h : members.lookup (js key) = some (.num n)) :
    numberMember members key = some n := by
  rw [numberMember, h]

lemma validate_of_checked (h : HeaderChecked C mode members header) :
    validateLinkHeader C mode (.obj members) = .ok header := by
  have hfields := h.fields
  simp only [LinkHeaderV1.members, List.forall_mem_cons, List.not_mem_nil, false_implies, implies_true, and_true] at hfields
  obtain ⟨haudience, hbody, hexpires, hissued, hissuer, hnonce, hsize, htype, hversion⟩ := hfields
  have htypeOf : linkTypeOf header.type.text = some header.type := linkTypeOf_iff.mpr rfl
  obtain ⟨issued, hissuedDate⟩ := Option.isSome_iff_exists.mp h.dates.1
  obtain ⟨expires, hexpiresDate⟩ := Option.isSome_iff_exists.mp h.dates.2
  simp only [validateLinkHeader, textMember_of_lookup haudience, textMember_of_lookup hbody, textMember_of_lookup hexpires,
    textMember_of_lookup hissued, textMember_of_lookup hissuer, textMember_of_lookup hnonce, textMember_of_lookup htype,
    numberMember_of_lookup hsize, numberMember_of_lookup hversion, h.keys, htypeOf, h.issuer, h.audience, hissuedDate,
    hexpiresDate, h.nonce, h.size, h.cid.1, h.cid.2, orThrow, throwIf, bind, Except.bind, Bool.not_true, Bool.and_true,
    Option.bind_some, ne_eq, not_true_eq_false, decide_false, Bool.false_eq_true, if_false, Option.isNone_some,
    Bool.or_self]

lemma headerKeys_sorted : (headerKeys.map js).Nodup ∧ (headerKeys.map js).Pairwise UnitsLe := by
  decide

lemma header_members_keys (header : LinkHeaderV1) : header.members.map Prod.fst = headerKeys.map js := by
  rfl

/-- A header that passed its checks is, in canonical form, the object of its fields. -/
lemma HeaderChecked.canonical (hp : (Json.obj members).Proper) (h : HeaderChecked C mode members header) :
    (Json.obj members).canonical = header.json := by
  refine canonical_of_exact hp h.keys (header_members_keys header) headerKeys_sorted.1 headerKeys_sorted.2
    fun m hm => ⟨m.2, h.fields m hm, ?_⟩
  simp only [LinkHeaderV1.members, List.mem_cons, List.not_mem_nil, or_false] at hm
  rcases hm with rfl | rfl | rfl | rfl | rfl | rfl | rfl | rfl | rfl <;> rfl

/-- The object of a checked header's fields passes the same checks. -/
lemma HeaderChecked.json (h : HeaderChecked C mode members header) : HeaderChecked C mode header.members header where
  keys := by
    rw [hasExactKeys, header_members_keys, headerKeys_sorted.2.insertionSort_eq, beq_self_eq_true]
  fields := by
    intro m hm
    refine lookup_of_mem ?_ hm
    rw [header_members_keys]
    exact headerKeys_sorted.1
  issuer := h.issuer
  audience := h.audience
  dates := h.dates
  nonce := h.nonce
  size := h.size
  cid := h.cid

lemma signature_canonical (hp : v.Proper) (h : linkSignatureV1Schema v = some signature) :
    v.canonical = signature.json := by
  unfold linkSignatureV1Schema at h
  split at h
  · rename_i members
    split at h
    · rename_i hchecks
      obtain ⟨value, hvalue, h⟩ := Option.bind_eq_some_iff.mp h
      split at h
      · cases h
        have hkeys : (["algorithm", "value"].map js).Nodup ∧ (["algorithm", "value"].map js).Pairwise UnitsLe := by decide
        refine canonical_of_exact hp hchecks.1 rfl hkeys.1 hkeys.2 ?_
        simp only [List.forall_mem_cons, List.not_mem_nil, false_implies, implies_true, and_true]
        exact ⟨⟨_, lookup_of_textMember hchecks.2, rfl⟩, ⟨_, lookup_of_textMember hvalue, rfl⟩⟩
      · cases h
    · cases h
  · cases h

/-- The object of a parsed signature's fields is parsed to it. -/
lemma schema_signature_json (h : linkSignatureV1Schema v = some signature) :
    linkSignatureV1Schema signature.json = some signature := by
  unfold linkSignatureV1Schema at h
  split at h
  · split at h
    · obtain ⟨value, hvalue, h⟩ := Option.bind_eq_some_iff.mp h
      split at h
      · rename_i hbytes
        cases h
        have hkeys : hasExactKeys [(js "algorithm", .str (js "Ed25519")), (js "value", .str value)]
            ["algorithm", "value"] = true := by
          have hsorted : (["algorithm", "value"].map js).Pairwise UnitsLe := by decide
          rw [hasExactKeys, beq_iff_eq]
          exact hsorted.insertionSort_eq
        rw [LinkSignatureV1.json, linkSignatureV1Schema, if_pos ⟨hkeys, rfl⟩]
        have hvalue : textMember [(js "algorithm", .str (js "Ed25519")), (js "value", .str value)] "value" = some value := rfl
        rw [hvalue, Option.bind_some, if_pos hbytes]
      · cases h
    · cases h
  · cases h

end HeaderLemmas

section RecordLemmas

variable [NumberFormat Double] {C : Crypto} {fields : List (JsString × Json Double)} {now : ℤ}
  {checked : CheckedLinkRecord} {header : LinkHeaderV1} {signature : LinkSignatureV1}

lemma scalar_of_verify {v : Json Double} (h : verifyHeader C header v = true) : scalarTexts header.json = true := by
  unfold verifyHeader at h
  split at h
  · cases h
  · split at h
    · rename_i text _ _ hjson
      unfold canonicalize at hjson
      split at hjson
      · assumption
      · cases hjson
    · cases h

/-- What a signed record has shown. -/
structure RecordChecked (C : Crypto) (fields : List (JsString × Json Double)) (header : LinkHeaderV1)
    (signature : LinkSignatureV1) (body : Bytes) : Prop where
  keys : hasExactKeys fields ["body", "header", "signature"] = true
  headerRead : validateLinkHeader C .signed ((fields.lookup (js "header")).getD .null) = .ok header
  signatureRead : linkSignatureV1Schema ((fields.lookup (js "signature")).getD .null) = some signature
  bodyRead : recordBody fields = some body
  cap : body.length ≤ maxLinkBodyBytes
  scalar : scalarTexts header.json = true

omit [NumberFormat Double] in
lemma cap_of_checkBody {body : Bytes} {cid : JsString} (h : checkLinkBody header body cid = .ok ()) :
    body.length ≤ maxLinkBodyBytes := by
  obtain ⟨_, -, h⟩ := bind_eq_ok h
  obtain ⟨_, hcap, -⟩ := bind_eq_ok h
  have := throwIf_eq_ok hcap
  rwa [decide_eq_false_iff_not, not_lt] at this

lemma record_of_check (h : checkLinkRecord C (.obj fields) now = .ok checked)
    (hsignature : checked.signature = some signature) : RecordChecked C fields checked.header signature checked.body := by
  unfold checkLinkRecord at h
  simp only at h
  obtain ⟨_, hkeys, h⟩ := bind_eq_ok h
  obtain ⟨header, hheader, h⟩ := bind_eq_ok h
  obtain ⟨_, -, h⟩ := bind_eq_ok h
  obtain ⟨body, hbody, h⟩ := bind_eq_ok h
  obtain ⟨⟨⟩, hcap, h⟩ := bind_eq_ok h
  obtain ⟨parsed, hparsed, h⟩ := bind_eq_ok h
  obtain ⟨_, -, h⟩ := bind_eq_ok h
  cases h
  subst hsignature
  replace hkeys := throwIf_eq_ok hkeys
  rw [Bool.not_eq_false', Bool.or_eq_true] at hkeys
  cases hl : fields.lookup (js "signature") with
  | none =>
    rw [hl] at hparsed
    cases hparsed
  | some v =>
    rw [hl] at hparsed hheader
    obtain ⟨_, hverified, hparsed⟩ := bind_eq_ok hparsed
    obtain ⟨value, hvalue, hparsed⟩ := bind_eq_ok hparsed
    cases hparsed
    have hexact : hasExactKeys fields ["body", "header", "signature"] = true := by
      rcases hkeys with hkeys | hkeys
      · exact hkeys
      · have hin := keys_of_exact hkeys _ (mem_of_lookup hl)
        have hnot : js "signature" ∉ ["body", "header"].map js := by decide
        exact absurd hin hnot
    replace hverified := throwIf_eq_ok hverified
    rw [Bool.not_eq_false'] at hverified
    refine ⟨hexact, hheader, ?_, orThrow_eq_ok hbody, cap_of_checkBody hcap, scalar_of_verify hverified⟩
    rw [hl, Option.getD_some]
    exact orThrow_eq_ok hvalue

end RecordLemmas

end TinyCloud.Links
