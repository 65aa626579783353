import TinyCloud.Links.Header
import TinyCloud.Links.Spelling
import TinyCloud.Text.SafeInteger

/-!
# The stored form of a share record

A stored record keeps the sealed envelope once. A short link stays as it is; a full link is taken apart into its
origin, header and signature and is built again around the sealed body.
-/

namespace TinyCloud.Links

open TinyCloud.Text TinyCloud.Runs

variable {ρ : Type}

section Model

structure StoredFullShareLink where
  origin : JsString
  header : LinkHeaderV1
  signature : LinkSignatureV1

def StoredFullShareLink.json (link : StoredFullShareLink) : Json Double :=
  .obj [(js "header", link.header.json), (js "origin", .str link.origin), (js "signature", link.signature.json)]

/-- Delivery material, stored or not: the stored form has no envelope. -/
structure DeliveryMaterial where
  shareCid : JsString
  sealedEnvelope : JsString
  envelopeKey : JsString
  envelope : Option (Json Double)
  fullLink : Option (Json Double)

/-- A share record; `fields` are the ones that are only carried along. -/
structure SenderRecord (ρ : Type) where
  fields : ρ
  expiresAt : JsString
  link : Option JsString
  deliveryMaterial : Option DeliveryMaterial

variable [NumberFormat Double] (C : Crypto)

/-- `isCanonicalHttpsOrigin` of the envelope schema, which does not ask for user information. -/
def isCanonicalHttpsOrigin (value : JsString) : Bool :=
  match C.newUrl value with
  | none => false
  | some url => url.protocol == js "https:" && url.origin == value

def checkStoredFullShareLink : Json Double → Except String StoredFullShareLink
  | .obj members => do
    throwIf (!hasExactKeys members ["header", "origin", "signature"]) "full link metadata is invalid"
    let origin ← orThrow (textMember members "origin") "full link metadata is invalid"
    throwIf (!isCanonicalHttpsOrigin C origin) "full link metadata is invalid"
    let header ← validateLinkHeader C .signed ((members.lookup (js "header")).getD .null)
    let signature ← orThrow (linkSignatureV1Schema ((members.lookup (js "signature")).getD .null)) "ZodError"
    throwIf (decide (header.type ≠ .share)) "full link is not a share"
    .ok ⟨origin, header, signature⟩
  | _ => .error "full link metadata is invalid"

def sealedParts (material : DeliveryMaterial) : Except String (Bytes × Bytes) := do
  let sealed ← orThrow (decodeStrictBase64Url material.sealedEnvelope) "delivery material is not canonical base64url"
  let key ← orThrow (decodeStrictBase64Url material.envelopeKey) "delivery material is not canonical base64url"
  throwIf (key.length != 32) "envelope key must be 32 bytes"
  .ok (sealed, key)

/-- The record a full link carries. -/
def StoredFullShareLink.record (link : StoredFullShareLink) (body : JsString) : List (JsString × Json Double) :=
  [(js "body", .str body), (js "header", link.header.json), (js "signature", link.signature.json)]

/-- The plaintext of the sealed envelope and its value. -/
def openPlaintext (material : DeliveryMaterial) (sealed key : Bytes) : Except String (JsString × Json Double) :=
  match material.fullLink with
  | none => do
    let plaintext ← orThrow (C.openSealed sealed key) "sealed envelope does not open under its key"
    let text ← orThrow (textDecode plaintext) "sealed envelope does not open under its key"
    let value ← orThrow (parseJson text) "sealed envelope does not open under its key"
    .ok (text, value)
  | some fullLink => do
    let metadata ← checkStoredFullShareLink C fullLink
    throwIf (metadata.header.bodyCid != material.shareCid) "full link names another sealed body"
    let now ← orThrow (C.dateParse metadata.header.issuedAt) "timestamp_format"
    let opened ← openLinkRecord C (.obj (metadata.record material.sealedEnvelope)) key now
    let text ← orThrow (textDecode opened.plaintext) "original full link is invalid"
    let expiry ← orThrow (textMember opened.value "expiry") "full link expiry differs from the sealed envelope"
    throwIf ((C.dateParse expiry).isNone || decide (C.dateParse expiry ≠ C.dateParse metadata.header.expiresAt))
      "full link expiry differs from the sealed envelope"
    .ok (text, .obj opened.value)

/-- The signed envelope inside the sealed one. -/
def openDeliveryEnvelope (material : DeliveryMaterial) : Except String (Json Double) := do
  let (sealed, key) ← sealedParts material
  throwIf (C.computeCid sealed != material.shareCid) "sealed envelope does not match shareCid"
  let (text, value) ← openPlaintext C material sealed key
  match value with
  | .obj members => do
    let canonical ← canonicalize (.obj members : Json Double)
    throwIf (canonical != text) "sealed envelope is not canonical JSON"
    .ok (.obj members)
  | _ => .error "sealed envelope is not canonical JSON"

inductive LinkForm
  | short
  | full
  deriving DecidableEq

def ParsedLink.form : ParsedLink Double → LinkForm
  | .short _ _ _ _ _ _ => .short
  | .full _ _ _ _ => .full

def ParsedLink.key : ParsedLink Double → Bytes
  | .short _ _ _ _ key _ => key
  | .full _ _ key _ => key

/-- A short link names the sealed body, a full link carries it. -/
def ParsedLink.hasBody (material : DeliveryMaterial) (sealed : Bytes) : ParsedLink Double → Bool
  | .short _ _ _ _ _ c => c == material.shareCid
  | .full _ _ _ (.obj record) => decide (textMember record "body" = some (encodeBase64Url sealed))
  | .full _ _ _ _ => false

/-- `parseLink(link, { trustedOrigins: [new URL(link).origin] })` -/
def parseOwnLink (link : JsString) : Except String (ParsedLink Double) := do
  let url ← orThrow (C.newUrl link) "link is not a v=4 share link"
  parseLink C.toPlatform [url.origin] link

def assertLinkBoundToMaterial (link : JsString) (material : DeliveryMaterial) : Except String LinkForm := do
  let (sealed, key) ← sealedParts material
  let parsed ← parseOwnLink C link
  throwIf (!parsed.hasBody material sealed || parsed.key != key) "link is not the link of this delivery material"
  .ok parsed.form

/-- The metadata of a full link, from the link. -/
def originalOf (link : JsString) : Except String StoredFullShareLink := do
  let parsed ← parseOwnLink C link
  match parsed with
  | .full origin _ _ (.obj record) => do
    let header ← validateLinkHeader C .signed ((record.lookup (js "header")).getD .null)
    let now ← orThrow (C.dateParse header.issuedAt) "timestamp_format"
    let checked ← checkLinkRecord C (.obj record) now
    let signature ← orThrow checked.signature "full link signature is missing"
    checkStoredFullShareLink C (StoredFullShareLink.json ⟨origin, checked.header, signature⟩)
  | _ => .error "full link record is invalid"

def sameDate (left right : JsString) : Bool := decide (C.dateParse left ≠ none ∧ C.dateParse left = C.dateParse right)

/-- The link that is kept as it is, and the metadata that is stored. -/
def linkParts (material : DeliveryMaterial) (stored : Option StoredFullShareLink) :
    Option JsString → Except String (Option JsString × Option StoredFullShareLink)
  | none => .ok (none, stored)
  | some link => do
    match ← assertLinkBoundToMaterial C link material with
    | .short => .ok (some link, stored)
    | .full => do
      let original ← originalOf C link
      match stored with
      | none => .ok (none, some original)
      | some fullLink => do
        let left ← canonicalize fullLink.json
        let right ← canonicalize original.json
        throwIf (left != right) "full link metadata differs from the original link"
        .ok (none, some original)

def checkOptional : Option (Json Double) → Except String (Option StoredFullShareLink)
  | none => .ok none
  | some v => (checkStoredFullShareLink C v).map some

def sameEnvelope (opened : Json Double) : Option (Json Double) → Except String Unit
  | none => .ok ()
  | some envelope => do
    let left ← canonicalize opened
    let right ← canonicalize envelope
    throwIf (left != right) "envelope is not the sealed envelope"

def compactShareRecord (record : SenderRecord ρ) : Except String (SenderRecord ρ) :=
  match record.deliveryMaterial with
  | none => .ok record
  | some material => do
    let given ← checkOptional C material.fullLink
    let (keptLink, fullLink) ← linkParts C material given record.link
    let stored : DeliveryMaterial := { material with envelope := none, fullLink := fullLink.map StoredFullShareLink.json }
    let opened ← openDeliveryEnvelope C stored
    sameEnvelope opened material.envelope
    throwIf (fullLink.any fun f => !sameDate C f.header.expiresAt record.expiresAt) "full link expiry differs from the record"
    .ok { record with link := keptLink, deliveryMaterial := some stored }

def recordLink (record : SenderRecord ρ) (material : DeliveryMaterial) (shareOrigins : List JsString) :
    Except String (Option JsString) :=
  match material.fullLink with
  | none => .ok record.link
  | some fullLink => do
    let metadata ← checkStoredFullShareLink C fullLink
    throwIf (!shareOrigins.contains metadata.origin) "full link origin is not trusted"
    throwIf (!sameDate C metadata.header.expiresAt record.expiresAt) "full link expiry differs from the record"
    let (_, key) ← sealedParts material
    let full ← buildFullLink C.toPlatform metadata.origin key (metadata.record material.sealedEnvelope)
    match record.link with
    | none => .ok (some full)
    | some link => do
      let _ ← (parseLink C.toPlatform shareOrigins link : Except String (ParsedLink Double))
      let _ ← assertLinkBoundToMaterial C link material
      .ok (some link)

/-- The origins a record's link may have where none are given: the stored metadata's. -/
def ownOrigins : Option (Json Double) → Except String (List JsString)
  | none => .ok []
  | some v => (checkStoredFullShareLink C v).map fun f => [f.origin]

def trustedOrigins (shareOrigins : Option (List JsString)) (material : DeliveryMaterial) :
    Except String (List JsString) :=
  match shareOrigins with
  | some origins => .ok origins
  | none => ownOrigins C material.fullLink

def expandShareRecord (shareOrigins : Option (List JsString)) (record : SenderRecord ρ) :
    Except String (SenderRecord ρ) :=
  match record.deliveryMaterial with
  | none => .ok { record with deliveryMaterial := none }
  | some material => do
    let envelope ← openDeliveryEnvelope C material
    let origins ← trustedOrigins C shareOrigins material
    let link ← recordLink C record material origins
    .ok { record with link := link, deliveryMaterial := some { material with envelope := some envelope } }

end Model

section Metadata

variable {C : Crypto} {f : StoredFullShareLink} {v : Json Double} {members : List (JsString × Json Double)}

/-- Full-link metadata that passed its checks. -/
structure FullChecked (C : Crypto) (f : StoredFullShareLink) : Prop where
  origin : isCanonicalHttpsOrigin C f.origin = true
  header : HeaderChecked C .signed f.header.members f.header
  signature : linkSignatureV1Schema f.signature.json = some f.signature
  share : f.header.type = .share

lemma full_of_check (h : checkStoredFullShareLink C v = .ok f) : FullChecked C f := by
  unfold checkStoredFullShareLink at h
  split at h
  · rename_i members
    obtain ⟨_, -, h⟩ := bind_eq_ok h
    obtain ⟨origin, -, h⟩ := bind_eq_ok h
    obtain ⟨_, horigin, h⟩ := bind_eq_ok h
    obtain ⟨header, hheader, h⟩ := bind_eq_ok h
    obtain ⟨signature, hsignature, h⟩ := bind_eq_ok h
    obtain ⟨_, hshare, h⟩ := bind_eq_ok h
    cases h
    replace horigin := throwIf_eq_ok horigin
    replace hshare := throwIf_eq_ok hshare
    rw [Bool.not_eq_false'] at horigin
    rw [decide_eq_false_iff_not, not_not] at hshare
    obtain ⟨headerMembers, -, hchecked⟩ := checked_of_validate hheader
    exact ⟨horigin, hchecked.json, schema_signature_json (orThrow_eq_ok hsignature), hshare⟩
  · cases h

/-- Metadata that was checked once passes again, as itself. -/
lemma check_json (h : FullChecked C f) : checkStoredFullShareLink C f.json = .ok f := by
  have hkeys : hasExactKeys [(js "header", f.header.json), (js "origin", .str f.origin),
      (js "signature", f.signature.json)] ["header", "origin", "signature"] = true := by
    have hsorted : (["header", "origin", "signature"].map js).Pairwise UnitsLe := by decide
    rw [hasExactKeys, beq_iff_eq]
    exact hsorted.insertionSort_eq
  have horigin : textMember [(js "header", f.header.json), (js "origin", .str f.origin),
      (js "signature", f.signature.json)] "origin" = some f.origin := rfl
  have hheader : [(js "header", f.header.json), (js "origin", .str f.origin),
      (js "signature", f.signature.json)].lookup (js "header") = some f.header.json := rfl
  have hsignature : [(js "header", f.header.json), (js "origin", .str f.origin),
      (js "signature", f.signature.json)].lookup (js "signature") = some f.signature.json := rfl
  have hvalidate : validateLinkHeader C .signed f.header.json = .ok f.header := validate_of_checked h.header
  simp only [StoredFullShareLink.json, checkStoredFullShareLink, hkeys, horigin, hheader, hsignature, h.origin,
    Option.getD_some, hvalidate, h.signature, h.share, orThrow, throwIf, bind, Except.bind, Bool.not_true,
    Bool.false_eq_true, if_false, ne_eq, not_true_eq_false, decide_false]

lemma canonical_of_full (hurl : UrlStandard C.toPlatform) (h : FullChecked C f) :
    canonicalHttpsOrigin C.toPlatform f.origin = true := by
  have horigin := h.origin
  unfold isCanonicalHttpsOrigin at horigin
  split at horigin
  · cases horigin
  · rename_i url hnew
    rw [Bool.and_eq_true, beq_iff_eq, beq_iff_eq] at horigin
    rw [← horigin.2]
    exact hurl.origin _ _ hnew horigin.1

/-- A record read from a canonical text is written by the metadata and the body it was taken apart into. -/
lemma record_eq {body : JsString} (hp : (Json.obj members).Proper) (hc : (Json.obj members).canonical = .obj members)
    (hkeys : hasExactKeys members ["body", "header", "signature"] = true) (hbody : textMember members "body" = some body)
    {header : LinkHeaderV1} (hheader : validateLinkHeader C .signed ((members.lookup (js "header")).getD .null) = .ok header)
    {signature : LinkSignatureV1}
    (hsignature : linkSignatureV1Schema ((members.lookup (js "signature")).getD .null) = some signature)
    (origin : JsString) : members = StoredFullShareLink.record ⟨origin, header, signature⟩ body := by
  have hsub : ∀ {k : JsString} {w : Json Double}, members.lookup k = some w → w.Proper ∧ w.canonical = w := by
    intro k w hw
    have hmem := mem_of_lookup hw
    cases hp with
    | obj hnd hall => exact ⟨hall _ hmem, (members_of_canonical hnd hc).2 _ hmem⟩
  obtain ⟨headerMembers, hobj, hchecked⟩ := checked_of_validate hheader
  have hheaderLookup : members.lookup (js "header") = some header.json := by
    cases hl : members.lookup (js "header") with
    | none =>
      rw [hl] at hobj
      cases hobj
    | some w =>
      rw [hl, Option.getD_some] at hobj
      subst hobj
      obtain ⟨hwp, hwc⟩ := hsub hl
      rw [← hwc, hchecked.canonical hwp]
  have hsignatureLookup : members.lookup (js "signature") = some signature.json := by
    cases hl : members.lookup (js "signature") with
    | none =>
      rw [hl] at hsignature
      cases hsignature
    | some w =>
      rw [hl, Option.getD_some] at hsignature
      obtain ⟨hwp, hwc⟩ := hsub hl
      rw [← hwc, signature_canonical hwp hsignature]
  have hsorted : (["body", "header", "signature"].map js).Nodup ∧
      (["body", "header", "signature"].map js).Pairwise UnitsLe := by decide
  refine eq_of_exact hp hc hkeys rfl hsorted.1 hsorted.2 ?_
  simp only [StoredFullShareLink.record, List.forall_mem_cons, List.not_mem_nil, false_implies, implies_true, and_true]
  exact ⟨lookup_of_textMember hbody, hheaderLookup, hsignatureLookup⟩

end Metadata

section Carried

variable [NumberFormat Double] {C : Crypto} {f : StoredFullShareLink} {body : JsString} {material : DeliveryMaterial}

omit [NumberFormat Double] in
lemma scalar_of_base64 {s : JsString} (h : s.all isBase64UrlUnit = true) : isUnicodeScalarString s = true := by
  refine scalar_plain fun u hu => ?_
  have hunit := List.all_eq_true.mp h u hu
  unfold isBase64UrlUnit unitSextet at hunit
  simp only at hunit
  split_ifs at hunit <;> first | omega | cases hunit

omit [NumberFormat Double] in
lemma scalar_signature (h : linkSignatureV1Schema f.signature.json = some f.signature) :
    scalarTexts f.signature.json = true := by
  have hfixed : isUnicodeScalarString (js "algorithm") = true ∧ isUnicodeScalarString (js "Ed25519") = true ∧
      isUnicodeScalarString (js "value") = true := by decide
  have hvalue : isUnicodeScalarString f.signature.value = true := by
    have hread : textMember [(js "algorithm", .str (js "Ed25519")), (js "value", .str f.signature.value)] "value" =
      some f.signature.value := rfl
    rw [LinkSignatureV1.json, linkSignatureV1Schema] at h
    split at h
    · rw [hread, Option.bind_some] at h
      split at h
      · rename_i hbytes
        obtain ⟨bytes, hbytes⟩ := Option.isSome_iff_exists.mp hbytes
        obtain ⟨bytes', hdecode, -⟩ := Option.bind_eq_some_iff.mp hbytes
        rw [← decodeStrict_iff.mp hdecode]
        exact scalar_of_base64 (base64_all bytes')
      · cases h
    · cases h
  simp only [LinkSignatureV1.json, scalarTexts, scalarTextsMembers, hfixed.1, hfixed.2.1, hfixed.2.2, hvalue, Bool.and_true]

omit [NumberFormat Double] in
lemma scalar_record (hheader : scalarTexts f.header.json = true)
    (hsignature : linkSignatureV1Schema f.signature.json = some f.signature) (hbody : isUnicodeScalarString body = true) :
    scalarTexts (.obj (f.record body)) = true := by
  have hkeys : isUnicodeScalarString (js "body") = true ∧ isUnicodeScalarString (js "header") = true ∧
      isUnicodeScalarString (js "signature") = true := by decide
  simp only [StoredFullShareLink.record, scalarTexts, scalarTextsMembers, hkeys.1, hkeys.2.1, hkeys.2.2, hbody, hheader,
    scalar_signature hsignature, Bool.and_true]

omit [NumberFormat Double] in
lemma scalar_metadata (hheader : scalarTexts f.header.json = true)
    (hsignature : linkSignatureV1Schema f.signature.json = some f.signature)
    (horigin : isUnicodeScalarString f.origin = true) : scalarTexts f.json = true := by
  have hkeys : isUnicodeScalarString (js "header") = true ∧ isUnicodeScalarString (js "origin") = true ∧
      isUnicodeScalarString (js "signature") = true := by decide
  simp only [StoredFullShareLink.json, scalarTexts, scalarTextsMembers, hkeys.1, hkeys.2.1, hkeys.2.2, horigin, hheader,
    scalar_signature hsignature, Bool.and_true]

omit [NumberFormat Double] in
lemma header_proper (header : LinkHeaderV1) : header.json.Proper ∧ header.json.canonical = header.json := by
  constructor
  · refine .obj ?_ fun m hm => ?_
    · rw [header_members_keys]
      exact headerKeys_sorted.1
    · simp only [LinkHeaderV1.members, List.mem_cons, List.not_mem_nil, or_false] at hm
      rcases hm with rfl | rfl | rfl | rfl | rfl | rfl | rfl | rfl | rfl <;> first | exact .str _ | exact .num _
  · rw [LinkHeaderV1.json, canonical_obj, (sorted_of_keys _).insertionSort_eq]
    · rfl
    · rw [header_members_keys]
      exact headerKeys_sorted.2

omit [NumberFormat Double] in
lemma signature_proper (signature : LinkSignatureV1) :
    signature.json.Proper ∧ signature.json.canonical = signature.json := by
  have hkeys : (["algorithm", "value"].map js).Nodup ∧ (["algorithm", "value"].map js).Pairwise UnitsLe := by decide
  constructor
  · refine .obj hkeys.1 fun m hm => ?_
    simp only [List.mem_cons, List.not_mem_nil, or_false] at hm
    rcases hm with rfl | rfl <;> exact .str _
  · rw [LinkSignatureV1.json, canonical_obj, (sorted_of_keys (by exact hkeys.2)).insertionSort_eq]
    rfl

omit [NumberFormat Double] in
lemma record_proper (f : StoredFullShareLink) (body : JsString) : (Json.obj (f.record body)).Proper ∧
    (Json.obj (f.record body)).canonical = .obj (f.record body) := by
  have hkeys : (["body", "header", "signature"].map js).Nodup ∧
      (["body", "header", "signature"].map js).Pairwise UnitsLe := by decide
  constructor
  · refine .obj hkeys.1 fun m hm => ?_
    simp only [StoredFullShareLink.record, List.mem_cons, List.not_mem_nil, or_false] at hm
    rcases hm with rfl | rfl | rfl
    · exact .str _
    · exact (header_proper _).1
    · exact (signature_proper _).1
  · rw [StoredFullShareLink.record, canonical_obj, (sorted_of_keys (by exact hkeys.2)).insertionSort_eq]
    simp only [List.map_cons, List.map_nil, (header_proper _).2, (signature_proper _).2]
    rfl

/-- The full link that the stored metadata stands for. -/
def fullLinkOf (f : StoredFullShareLink) (material : DeliveryMaterial) : JsString :=
  fullText f.origin material.envelopeKey
    (encodeBase64Url (textEncode (Json.obj (f.record material.sealedEnvelope)).serialize))

/-- The record of the full link is small enough to be parsed. -/
def Writable (f : StoredFullShareLink) (material : DeliveryMaterial) : Prop :=
  (textEncode (Json.obj (f.record material.sealedEnvelope)).serialize).length ≤ maxFullRecordJsonBytes

/-- What stored material has shown about its metadata. -/
structure Bound (C : Crypto) (f : StoredFullShareLink) (material : DeliveryMaterial) (sealed key : Bytes) : Prop where
  checked : FullChecked C f
  sealedText : encodeBase64Url sealed = material.sealedEnvelope
  keyText : encodeBase64Url key = material.envelopeKey
  size : key.length = 32
  body : sealed.length ≤ maxLinkBodyBytes
  header : scalarTexts f.header.json = true

variable {sealed key : Bytes}

lemma Bound.carries (h : Bound C f material sealed key) (hw : Writable f material) :
    Carries (encodeBase64Url (textEncode (Json.obj (f.record material.sealedEnvelope)).serialize))
      (.obj (f.record material.sealedEnvelope)) := by
  obtain ⟨hproper, hcanonical⟩ := record_proper f material.sealedEnvelope
  have hbody : isUnicodeScalarString material.sealedEnvelope = true := h.sealedText ▸ scalar_of_base64 (base64_all sealed)
  refine ⟨_, _, decodeStrict_iff.mpr rfl, hw, (textDecode_serialize_obj hproper).2, ?_, ?_⟩
  · rw [parseJson_serialize hproper, hcanonical]
  · exact if_pos (scalar_record h.header h.checked.signature hbody)

lemma Bound.spelling (hurl : UrlStandard C.toPlatform) (h : Bound C f material sealed key) (hw : Writable f material)
    {origins : List JsString} (htrusted : f.origin ∈ origins) :
    FullSpelling C.toPlatform origins (fullLinkOf f material) f.origin material.envelopeKey key
      (.obj (f.record material.sealedEnvelope)) :=
  ⟨htrusted, canonical_of_full hurl h.checked, linkKey_iff.mpr ⟨h.keyText, h.size⟩, _,
    encoded_ne (record_proper f _).1, base64_all _, h.carries hw, rfl⟩

/-- The full link is built exactly if its record is small enough. -/
lemma Bound.build_iff (hurl : UrlStandard C.toPlatform) (h : Bound C f material sealed key) {link : JsString} :
    buildFullLink C.toPlatform f.origin key (f.record material.sealedEnvelope) = .ok link ↔
      link = fullLinkOf f material ∧ Writable f material := by
  constructor
  · intro hbuild
    obtain ⟨hproper, hcanonical⟩ := record_proper f material.sealedEnvelope
    obtain ⟨-, -, rfl, hcarries⟩ := carries_of_buildFull hurl hproper hbuild
    rw [h.keyText]
    refine ⟨rfl, ?_⟩
    obtain ⟨raw, text, hraw, hle, -, -, -⟩ := hcarries.bytes
    obtain rfl := encodeBase64Url_injective (decodeStrict_iff.mp hraw)
    exact hle
  · rintro ⟨rfl, hw⟩
    have hparse := parse_of_full hurl (h.spelling hurl hw (List.mem_singleton_self f.origin))
    have htype : headerType (f.record material.sealedEnvelope) = .ok (some (js "share")) := by
      have hread : headerType (f.record material.sealedEnvelope) = .ok (some f.header.type.text) := rfl
      rw [hread, h.checked.share]
      rfl
    have hbody : recordBody (f.record material.sealedEnvelope) = some sealed := decodeStrict_iff.mpr h.sealedText
    have hjson : canonicalize (.obj (f.record material.sealedEnvelope)) =
        .ok (Json.obj (f.record material.sealedEnvelope)).serialize :=
      if_pos (scalar_record h.header h.checked.signature (h.sealedText ▸ scalar_of_base64 (base64_all sealed)))
    simp only [buildFullLink, canonical_of_full hurl h.checked, h.size, htype, hbody, hjson, orThrow, throwIf, bind,
      Except.bind, Bool.not_true, bne_self_eq_false, Bool.false_eq_true, if_false, decide_eq_true_eq,
      if_neg (not_lt.mpr h.body), h.keyText]
    rw [fullLinkOf] at hparse
    rw [hparse]
    rfl

end Carried

section Opening

variable [NumberFormat Double] {C : Crypto} {f : StoredFullShareLink} {material : DeliveryMaterial} {sealed key : Bytes}
  {opened : Json Double} {link : JsString}

omit [NumberFormat Double] in
lemma sealedParts_iff : sealedParts material = .ok (sealed, key) ↔
    encodeBase64Url sealed = material.sealedEnvelope ∧ encodeBase64Url key = material.envelopeKey ∧ key.length = 32 := by
  constructor
  · intro h
    obtain ⟨sealed', hsealed, h⟩ := bind_eq_ok h
    obtain ⟨key', hkey, h⟩ := bind_eq_ok h
    obtain ⟨_, hlen, h⟩ := bind_eq_ok h
    cases h
    replace hlen := throwIf_eq_ok hlen
    rw [bne_eq_false_iff_eq] at hlen
    exact ⟨decodeStrict_iff.mp (orThrow_eq_ok hsealed), decodeStrict_iff.mp (orThrow_eq_ok hkey), hlen⟩
  · rintro ⟨hsealed, hkey, hlen⟩
    simp only [sealedParts, decodeStrict_iff.mpr hsealed, decodeStrict_iff.mpr hkey, hlen, orThrow, throwIf, bind,
      Except.bind, bne_self_eq_false, Bool.false_eq_true, if_false]

/-- What the record around the sealed body has shown when the envelope was opened. -/
structure RecordOpened (C : Crypto) (f : StoredFullShareLink) (body : JsString) (sealed : Bytes) : Prop where
  checked : ∃ now checked, C.dateParse f.header.issuedAt = some now ∧
    checkLinkRecord C (.obj (f.record body)) now = .ok checked ∧ checked.header = f.header ∧
      checked.signature = some f.signature ∧ checked.body = sealed

lemma checked_header {body : JsString} {now : ℤ} {checked : CheckedLinkRecord} (hf : FullChecked C f)
    (h : checkLinkRecord C (.obj (f.record body)) now = .ok checked) :
    checked.header = f.header ∧ checked.signature = some f.signature := by
  have hread := h
  have hsignature : (f.record body).lookup (js "signature") = some f.signature.json := rfl
  have hheader : (f.record body).lookup (js "header") = some f.header.json := rfl
  have hvalidate : validateLinkHeader C .signed f.header.json = .ok f.header := validate_of_checked hf.header
  unfold checkLinkRecord at h
  simp only [hsignature, hheader, Option.isSome_some, if_true, Option.getD_some, hvalidate] at h
  obtain ⟨_, -, h⟩ := bind_eq_ok h
  obtain ⟨header, hheader, h⟩ := bind_eq_ok h
  obtain ⟨_, -, h⟩ := bind_eq_ok h
  obtain ⟨body, -, h⟩ := bind_eq_ok h
  obtain ⟨_, -, h⟩ := bind_eq_ok h
  obtain ⟨parsed, hparsed, h⟩ := bind_eq_ok h
  obtain ⟨_, -, h⟩ := bind_eq_ok h
  cases h
  cases hheader
  obtain ⟨_, -, hparsed⟩ := bind_eq_ok hparsed
  rw [hf.signature] at hparsed
  cases hparsed
  exact ⟨rfl, rfl⟩

/-- Material with metadata that opens is bound to it. -/
lemma bound_of_open (hf : FullChecked C f) (hmaterial : material.fullLink = some f.json)
    (h : openDeliveryEnvelope C material = .ok opened) : ∃ sealed key, sealedParts material = .ok (sealed, key) ∧
      Bound C f material sealed key ∧ RecordOpened C f material.sealedEnvelope sealed := by
  obtain ⟨⟨sealed, key⟩, hparts, h⟩ := bind_eq_ok h
  obtain ⟨_, -, h⟩ := bind_eq_ok h
  obtain ⟨⟨text, value⟩, hplain, -⟩ := bind_eq_ok h
  unfold openPlaintext at hplain
  rw [hmaterial] at hplain
  simp only [check_json hf] at hplain
  obtain ⟨metadata, hmetadata, hplain⟩ := bind_eq_ok hplain
  cases hmetadata
  obtain ⟨_, -, hplain⟩ := bind_eq_ok hplain
  obtain ⟨now, hnow, hplain⟩ := bind_eq_ok hplain
  obtain ⟨link, hlink, -⟩ := bind_eq_ok hplain
  obtain ⟨checked, hchecked, -⟩ := bind_eq_ok hlink
  obtain ⟨hheader, hsignature⟩ := checked_header hf hchecked
  have hrecord := record_of_check hchecked hsignature
  obtain ⟨hsealed, hkey, hsize⟩ := sealedParts_iff.mp hparts
  have hbody : checked.body = sealed := by
    have hread : recordBody (f.record material.sealedEnvelope) = decodeStrictBase64Url material.sealedEnvelope := rfl
    have hbody := hrecord.bodyRead
    rw [hread, decodeStrict_iff.mpr hsealed] at hbody
    exact (Option.some.inj hbody).symm
  have hscalar := hrecord.scalar
  rw [hheader] at hscalar
  exact ⟨sealed, key, hparts, ⟨hf, hsealed, hkey, hsize, hbody ▸ hrecord.cap, hscalar⟩,
    now, checked, orThrow_eq_ok hnow, hchecked, hheader, hsignature, hbody⟩

lemma own_url (h : parseOwnLink C link = .ok (parsed : ParsedLink Double)) :
    ∃ origin, parseLink C.toPlatform [origin] link = .ok parsed := by
  obtain ⟨url, -, h⟩ := bind_eq_ok h
  exact ⟨url.origin, h⟩

/-- What a bound link is: short, or full. -/
lemma bound_link {form : LinkForm} (h : assertLinkBoundToMaterial C link material = .ok form) :
    ∃ sealed key parsed, sealedParts material = .ok (sealed, key) ∧ parseOwnLink C link = .ok parsed ∧
      parsed.hasBody material sealed = true ∧ parsed.key = key ∧ parsed.form = form := by
  obtain ⟨⟨sealed, key⟩, hparts, h⟩ := bind_eq_ok h
  obtain ⟨parsed, hparsed, h⟩ := bind_eq_ok h
  obtain ⟨_, hbound, h⟩ := bind_eq_ok h
  cases h
  replace hbound := throwIf_eq_ok hbound
  rw [Bool.or_eq_false_iff, Bool.not_eq_false', bne_eq_false_iff_eq] at hbound
  exact ⟨sealed, key, parsed, hparts, hparsed, hbound.1, hbound.2, rfl⟩

lemma carries_canonical {r : JsString} {record : Json Double} (h : Carries r record) : record.canonical = record := by
  obtain ⟨hproper, raw, -, -, -, hparse, -⟩ := h.text
  rw [parseJson_serialize hproper] at hparse
  exact Option.some.inj hparse

/-- A full link that is bound to its material is the one its metadata stands for. -/
lemma full_of_original (hurl : UrlStandard C.toPlatform)
    (hbound : assertLinkBoundToMaterial C link material = .ok .full) (h : originalOf C link = .ok f)
    (hmark : isMarked link = false) : FullChecked C f ∧ link = fullLinkOf f material ∧ Writable f material := by
  obtain ⟨sealed, key, parsed, hparts, hparsed, hbody, hkey, -⟩ := bound_link hbound
  obtain ⟨parsed', hparsed', h⟩ := bind_eq_ok h
  rw [hparsed] at hparsed'
  cases hparsed'
  obtain ⟨hsealedText, hkeyText, -⟩ := sealedParts_iff.mp hparts
  split at h
  · rename_i origin k key' record
    obtain ⟨header, hheader, h⟩ := bind_eq_ok h
    obtain ⟨now, -, h⟩ := bind_eq_ok h
    obtain ⟨checked, hchecked, h⟩ := bind_eq_ok h
    obtain ⟨signature, hsignature, h⟩ := bind_eq_ok h
    have hrecord := record_of_check hchecked (orThrow_eq_ok hsignature)
    have hf := full_of_check h
    have hsame : f = ⟨origin, checked.header, signature⟩ := by
      obtain ⟨headerMembers, -, hheaderChecked⟩ := checked_of_validate hrecord.headerRead
      have hsignatureJson := schema_signature_json hrecord.signatureRead
      have hvalidate : validateLinkHeader C .signed checked.header.json = .ok checked.header :=
        validate_of_checked hheaderChecked.json
      unfold checkStoredFullShareLink StoredFullShareLink.json at h
      simp only at h
      obtain ⟨_, -, h⟩ := bind_eq_ok h
      obtain ⟨origin', horigin, h⟩ := bind_eq_ok h
      obtain ⟨_, -, h⟩ := bind_eq_ok h
      obtain ⟨header', hheader', h⟩ := bind_eq_ok h
      obtain ⟨signature', hsignature', h⟩ := bind_eq_ok h
      obtain ⟨_, -, h⟩ := bind_eq_ok h
      cases h
      have h1 : textMember [(js "header", checked.header.json), (js "origin", .str origin),
          (js "signature", signature.json)] "origin" = some origin := rfl
      have h2 : ([(js "header", checked.header.json), (js "origin", .str origin),
          (js "signature", signature.json)].lookup (js "header")).getD .null = checked.header.json := rfl
      have h3 : ([(js "header", checked.header.json), (js "origin", .str origin),
          (js "signature", signature.json)].lookup (js "signature")).getD .null = signature.json := rfl
      rw [h1] at horigin
      rw [h2, hvalidate] at hheader'
      rw [h3, hsignatureJson] at hsignature'
      cases horigin
      cases hheader'
      cases hsignature'
      rfl
    obtain ⟨own, hown⟩ := own_url hparsed
    obtain ⟨-, -, hlinkKey, r, -, hall, hcarries, rfl⟩ := full_of_parse hurl hown
    obtain ⟨hproper, raw, rfl, hle, hstrip, -, -⟩ := hcarries.text
    have hk : k = material.envelopeKey := by
      rw [← hkeyText, ← (linkKey_iff.mp hlinkKey).1]
      exact congrArg encodeBase64Url hkey
    have hmembers : record = f.record material.sealedEnvelope := by
      rw [hsame]
      refine record_eq hproper (carries_canonical hcarries) hrecord.keys ?_ hrecord.headerRead hrecord.signatureRead origin
      have := of_decide_eq_true hbody
      rw [this, hsealedText]
    have hraw : stripByteOrderMark raw = raw := by
      rw [isMarked_full hall, mark_units] at hmark
      exact strip_of_unmarked hmark
    rw [hraw] at hstrip
    refine ⟨hf, ?_, ?_⟩
    · rw [fullLinkOf, ← hmembers, hstrip, hk, hsame]
    · rw [Writable, ← hmembers, hstrip]
      exact hle
  · cases h

end Opening

section Stored

variable [NumberFormat Double] {C : Crypto} {f : StoredFullShareLink} {material : DeliveryMaterial} {sealed key : Bytes}
  {opened : Json Double} {link : JsString} {record stored expanded : SenderRecord ρ}

/-- The stored form of the material. -/
def DeliveryMaterial.storedWith (material : DeliveryMaterial) (full : Option StoredFullShareLink) : DeliveryMaterial :=
  { material with envelope := none, fullLink := full.map StoredFullShareLink.json }

/-- The expanded form of the material. -/
def DeliveryMaterial.shownWith (material : DeliveryMaterial) (full : Option StoredFullShareLink) (opened : Json Double) :
    DeliveryMaterial :=
  { material with envelope := some opened, fullLink := full.map StoredFullShareLink.json }

/-- Where the kept link and the stored metadata come from. -/
inductive Parts (C : Crypto) (material : DeliveryMaterial) (given : Option StoredFullShareLink) :
    Option JsString → Option JsString → Option StoredFullShareLink → Prop
  | none : Parts C material given none none given
  | short {link : JsString} (bound : assertLinkBoundToMaterial C link material = .ok .short) :
      Parts C material given (some link) (some link) given
  | full {link : JsString} {f : StoredFullShareLink} (bound : assertLinkBoundToMaterial C link material = .ok .full)
      (original : originalOf C link = .ok f)
      (same : ∀ g, given = some g → ∃ text, canonicalize g.json = .ok text ∧ canonicalize f.json = .ok text) :
      Parts C material given (some link) none (some f)

lemma parts_of_linkParts {given full : Option StoredFullShareLink} {kept : Option JsString} {shown : Option JsString}
    (h : linkParts C material given shown = .ok (kept, full)) : Parts C material given shown kept full := by
  cases shown with
  | none =>
    cases h
    exact .none
  | some link =>
    obtain ⟨form, hbound, h⟩ := bind_eq_ok h
    cases form with
    | short =>
      cases h
      exact .short hbound
    | full =>
      obtain ⟨original, horiginal, h⟩ := bind_eq_ok h
      cases given with
      | none =>
        cases h
        exact .full hbound horiginal fun g hg => absurd hg (by simp)
      | some g =>
        obtain ⟨left, hleft, h⟩ := bind_eq_ok h
        obtain ⟨right, hright, h⟩ := bind_eq_ok h
        obtain ⟨_, hsame, h⟩ := bind_eq_ok h
        cases h
        have := throwIf_eq_ok hsame
        rw [bne_eq_false_iff_eq] at this
        refine .full hbound horiginal fun g' hg => ?_
        rw [← Option.some.inj hg]
        exact ⟨left, hleft, this ▸ hright⟩

/-- What an accepted record is stored as. -/
structure Compacted (C : Crypto) (record stored : SenderRecord ρ) (material : DeliveryMaterial)
    (given full : Option StoredFullShareLink) (opened : Json Double) : Prop where
  givenRead : checkOptional C material.fullLink = .ok given
  parts : Parts C material given record.link stored.link full
  openedAs : openDeliveryEnvelope C (material.storedWith full) = .ok opened
  envelope : sameEnvelope opened material.envelope = .ok ()
  expires : ∀ f, full = some f → sameDate C f.header.expiresAt record.expiresAt = true
  storedAs : stored = { record with link := stored.link, deliveryMaterial := some (material.storedWith full) }

lemma compacted_of_ok (hmaterial : record.deliveryMaterial = some material)
    (h : compactShareRecord C record = .ok stored) : ∃ given full opened, Compacted C record stored material given full opened := by
  unfold compactShareRecord at h
  rw [hmaterial] at h
  obtain ⟨given, hgiven, h⟩ := bind_eq_ok h
  obtain ⟨⟨kept, full⟩, hparts, h⟩ := bind_eq_ok h
  obtain ⟨opened, hopened, h⟩ := bind_eq_ok h
  obtain ⟨⟨⟩, henvelope, h⟩ := bind_eq_ok h
  obtain ⟨_, hexpires, h⟩ := bind_eq_ok h
  cases h
  refine ⟨given, full, opened, hgiven, parts_of_linkParts hparts, hopened, henvelope, ?_, rfl⟩
  rintro f rfl
  have := throwIf_eq_ok hexpires
  rwa [Option.any_some, Bool.not_eq_false'] at this

lemma Compacted.checked {given full : Option StoredFullShareLink}
    (h : Compacted C record stored material given full opened) (hf : full = some f) : FullChecked C f := by
  have hgiven : given = some f → FullChecked C f := by
    rintro rfl
    have hcheck := h.givenRead
    unfold checkOptional at hcheck
    split at hcheck
    · cases hcheck
    · rename_i v _
      cases hv : checkStoredFullShareLink C v with
      | error e =>
        rw [hv] at hcheck
        cases hcheck
      | ok g =>
        rw [hv] at hcheck
        cases hcheck
        exact full_of_check hv
  subst hf
  cases hkept : stored.link with
  | none =>
    have hparts := h.parts
    rw [hkept] at hparts
    generalize record.link = shown at hparts
    generalize hfull : some f = full at hparts
    cases hparts with
    | none => exact hgiven hfull.symm
    | full hbound horiginal hsame =>
      cases hfull
      obtain ⟨parsed, -, horiginal⟩ := bind_eq_ok horiginal
      split at horiginal
      · obtain ⟨_, -, horiginal⟩ := bind_eq_ok horiginal
        obtain ⟨_, -, horiginal⟩ := bind_eq_ok horiginal
        obtain ⟨_, -, horiginal⟩ := bind_eq_ok horiginal
        obtain ⟨_, -, horiginal⟩ := bind_eq_ok horiginal
        exact full_of_check horiginal
      · cases horiginal
  | some l =>
    have hparts := h.parts
    rw [hkept] at hparts
    generalize record.link = shown at hparts
    generalize hfull : some f = full at hparts
    cases hparts with
    | short hbound => exact hgiven hfull.symm

lemma Compacted.bound {given full : Option StoredFullShareLink}
    (h : Compacted C record stored material given full opened) (hf : full = some f) : ∃ sealed key,
      sealedParts material = .ok (sealed, key) ∧ Bound C f material sealed key ∧
        RecordOpened C f material.sealedEnvelope sealed := by
  have hchecked := h.checked hf
  subst hf
  have hstored : (material.storedWith (some f)).fullLink = some f.json := rfl
  obtain ⟨sealed, key, hparts, hbound, hrecord⟩ := bound_of_open hchecked hstored h.openedAs
  exact ⟨sealed, key, hparts, ⟨hbound.checked, hbound.sealedText, hbound.keyText, hbound.size, hbound.body, hbound.header⟩,
    hrecord⟩

/-- The record comes back with its own link, or with the link its metadata stands for. -/
lemma Compacted.linked {given full : Option StoredFullShareLink} (hurl : UrlStandard C.toPlatform)
    (h : Compacted C record stored material given full opened)
    (hmark : ∀ l, record.link = some l → isMarked l = false) :
    (stored.link = record.link ∨
      ∃ f, full = some f ∧ stored.link = none ∧ record.link = some (fullLinkOf f material) ∧ Writable f material) ∧
      ∀ l, stored.link = some l → assertLinkBoundToMaterial C l material = .ok .short := by
  have hparts := h.parts
  generalize hshown : record.link = shown at hparts
  generalize hkept : stored.link = kept at hparts
  cases hparts with
  | none => exact ⟨.inl rfl, nofun⟩
  | short hbound => exact ⟨.inl rfl, fun l hl => Option.some.inj hl ▸ hbound⟩
  | full hbound horiginal hsame =>
    obtain ⟨-, hlink, hw⟩ := full_of_original hurl hbound horiginal (hmark _ hshown)
    exact ⟨.inr ⟨_, rfl, rfl, hlink ▸ rfl, hw⟩, nofun⟩

lemma own_short (hurl : UrlStandard C.toPlatform) (h : assertLinkBoundToMaterial C link material = .ok .short) :
    ∃ origin t id k key c, parseOwnLink C link = .ok (.short origin t id k key c) ∧
      ∀ origins, (∃ parsed : ParsedLink Double, parseLink C.toPlatform origins link = .ok parsed) ↔ origin ∈ origins := by
  obtain ⟨sealed, key, parsed, -, hparsed, -, -, hform⟩ := bound_link h
  cases parsed with
  | full => cases hform
  | short origin t id k key' c =>
    refine ⟨origin, t, id, k, key', c, hparsed, fun origins => ?_⟩
    obtain ⟨url, hnew, hown⟩ := bind_eq_ok hparsed
    have hspelled := short_of_parse hurl hown
    have horigin : origin = url.origin := List.mem_singleton.mp hspelled.trusted
    constructor
    · rintro ⟨parsed, hparsed⟩
      obtain ⟨url', ho, -⟩ := parseLink_ok hparsed
      have hsame := ho.parsed.symm.trans (orThrow_eq_ok hnew)
      rw [horigin, ← Option.some.inj hsame]
      exact ho.trusted
    · intro htrusted
      exact ⟨_, parse_of_short (N := Double) hurl ⟨htrusted, hspelled.canonical, hspelled.key, hspelled.cid, hspelled.body,
        hspelled.text⟩⟩

/-- A written full link is bound to its material, and its metadata is read from it. -/
lemma full_roundtrip (hurl : UrlStandard C.toPlatform) (hbound : Bound C f material sealed key)
    (hrecord : RecordOpened C f material.sealedEnvelope sealed) (hw : Writable f material) :
    assertLinkBoundToMaterial C (fullLinkOf f material) material = .ok .full ∧
      originalOf C (fullLinkOf f material) = .ok f := by
  have hparse := parse_of_full hurl (hbound.spelling hurl hw (List.mem_singleton_self f.origin))
  obtain ⟨url, ho, -⟩ := parseLink_ok hparse
  have horigin : url.origin = f.origin := List.mem_singleton.mp ho.trusted
  have hown : parseOwnLink C (fullLinkOf f material) =
      .ok (.full f.origin material.envelopeKey key (.obj (f.record material.sealedEnvelope))) := by
    simp only [parseOwnLink, ho.parsed, orThrow, bind, Except.bind, horigin]
    exact hparse
  have hparts := sealedParts_iff.mpr ⟨hbound.sealedText, hbound.keyText, hbound.size⟩
  have hbody : (ParsedLink.full f.origin material.envelopeKey key
      (Json.obj (f.record material.sealedEnvelope))).hasBody material sealed = true := by
    have hread : textMember (f.record material.sealedEnvelope) "body" = some material.sealedEnvelope := rfl
    rw [ParsedLink.hasBody, hread, hbound.sealedText]
    exact decide_eq_true rfl
  constructor
  · simp only [assertLinkBoundToMaterial, hparts, hown, hbody, bind, Except.bind, ParsedLink.key, throwIf, Bool.not_true,
      bne_self_eq_false, Bool.or_self, Bool.false_eq_true, if_false, ParsedLink.form]
  · obtain ⟨now, checked, hnow, hchecked, hheader, hsignature, -⟩ := hrecord.checked
    have hread : ((f.record material.sealedEnvelope).lookup (js "header")).getD .null = f.header.json := rfl
    have hvalidate : validateLinkHeader C .signed f.header.json = .ok f.header := validate_of_checked hbound.checked.header
    simp only [originalOf, hown, bind, Except.bind, hread, hvalidate, hnow, orThrow, hchecked, hheader, hsignature]
    exact check_json hbound.checked

lemma canonical_of_opened (h : openDeliveryEnvelope C material = .ok opened) : canonicalize opened = .ok opened.serialize := by
  obtain ⟨⟨sealed, key⟩, -, h⟩ := bind_eq_ok h
  obtain ⟨_, -, h⟩ := bind_eq_ok h
  obtain ⟨⟨text, value⟩, -, h⟩ := bind_eq_ok h
  simp only at h
  split at h
  · obtain ⟨canonical, hcanonical, h⟩ := bind_eq_ok h
    obtain ⟨_, -, h⟩ := bind_eq_ok h
    cases h
    exact if_pos (canonicalize_ok hcanonical).1
  · cases h

/-- The origins a stored record may be expanded with: those given, or else its metadata's. -/
def originsOf (shareOrigins : Option (List JsString)) (f : StoredFullShareLink) : List JsString :=
  shareOrigins.getD [f.origin]

/-- When the link of a stored record can be built again. -/
def Restorable (C : Crypto) (shareOrigins : Option (List JsString)) (stored : SenderRecord ρ) : Prop :=
  ∀ material v f, stored.deliveryMaterial = some material → material.fullLink = some v →
    checkStoredFullShareLink C v = .ok f → f.origin ∈ originsOf shareOrigins f ∧ Writable f material ∧
      ∀ link origin t id k key c, stored.link = some link → parseOwnLink C link = .ok (.short origin t id k key c) →
        origin ∈ originsOf shareOrigins f

/-- The link of a stored record: the one it keeps, or the one its metadata stands for. -/
def restoredLink (kept : Option JsString) (full : Option StoredFullShareLink) (material : DeliveryMaterial) :
    Option JsString :=
  match full with
  | none => kept
  | some f => some (kept.getD (fullLinkOf f material))

/-- The expanded form of what an accepted record is stored as. -/
def expandedOf (stored : SenderRecord ρ) (material : DeliveryMaterial) (full : Option StoredFullShareLink)
    (opened : Json Double) : SenderRecord ρ :=
  { stored with
    link := restoredLink stored.link full material
    deliveryMaterial := some (material.shownWith full opened) }

variable {given full : Option StoredFullShareLink}

lemma recordLink_iff (hurl : UrlStandard C.toPlatform) (hbound : Bound C f material sealed key)
    (hkept : ∀ l, stored.link = some l → assertLinkBoundToMaterial C l material = .ok .short)
    (hexpires : sameDate C f.header.expiresAt stored.expiresAt = true) {origins : List JsString} {shown : Option JsString} :
    recordLink C stored (material.storedWith (some f)) origins = .ok shown ↔
      (f.origin ∈ origins ∧ Writable f material ∧ ∀ link origin t id k key c, stored.link = some link →
        parseOwnLink C link = .ok (.short origin t id k key c) → origin ∈ origins) ∧
      shown = restoredLink stored.link (some f) material := by
  have hparts : sealedParts (material.storedWith (some f)) = .ok (sealed, key) :=
    sealedParts_iff.mpr ⟨hbound.sealedText, hbound.keyText, hbound.size⟩
  have hcheck := check_json hbound.checked
  have hfull : (material.storedWith (some f)).fullLink = some f.json := rfl
  have hbody : (material.storedWith (some f)).sealedEnvelope = material.sealedEnvelope := rfl
  constructor
  · intro h
    unfold recordLink at h
    rw [hfull] at h
    simp only [hcheck, hbody] at h
    obtain ⟨metadata, hmetadata, h⟩ := bind_eq_ok h
    cases hmetadata
    obtain ⟨_, htrusted, h⟩ := bind_eq_ok h
    obtain ⟨_, -, h⟩ := bind_eq_ok h
    obtain ⟨⟨sealed', key'⟩, hparts', h⟩ := bind_eq_ok h
    rw [hparts] at hparts'
    cases hparts'
    obtain ⟨built, hbuilt, h⟩ := bind_eq_ok h
    obtain ⟨rfl, hw⟩ := (hbound.build_iff hurl).mp hbuilt
    replace htrusted := throwIf_eq_ok htrusted
    rw [Bool.not_eq_false', List.contains_iff_mem] at htrusted
    refine ⟨⟨htrusted, hw, ?_⟩, ?_⟩
    · intro link origin t id k key c hlink hparsed
      rw [hlink] at h
      obtain ⟨parsed, hagain, -⟩ := bind_eq_ok h
      obtain ⟨origin', t', id', k', key', c', hparsed', hiff⟩ := own_short hurl (hkept link hlink)
      rw [hparsed] at hparsed'
      cases hparsed'
      exact (hiff origins).mp ⟨parsed, hagain⟩
    · cases hlink : stored.link with
      | none =>
        rw [hlink] at h
        cases h
        rfl
      | some link =>
        rw [hlink] at h
        obtain ⟨_, -, h⟩ := bind_eq_ok h
        obtain ⟨_, -, h⟩ := bind_eq_ok h
        cases h
        rfl
  · rintro ⟨⟨htrusted, hw, horigins⟩, rfl⟩
    have hbuild := (hbound.build_iff hurl).mpr ⟨rfl, hw⟩
    unfold recordLink
    rw [hfull]
    simp only [hcheck, hexpires, hparts, hbody, hbuild, List.contains_iff_mem.mpr htrusted, bind, Except.bind, throwIf,
      Bool.not_true, Bool.false_eq_true, if_false, restoredLink]
    cases hlink : stored.link with
    | none => rfl
    | some link =>
      obtain ⟨origin, t, id, k, key', c, hparsed, hiff⟩ := own_short hurl (hkept link hlink)
      obtain ⟨parsed, hagain⟩ := (hiff origins).mpr (horigins _ _ _ _ _ _ _ hlink hparsed)
      have hsame : assertLinkBoundToMaterial C link (material.storedWith (some f)) = .ok .short := hkept link hlink
      simp only [hagain, hsame, Option.getD_some]

/-- A stored record is expanded exactly if its link can be built again. -/
lemma Compacted.expand_iff (hurl : UrlStandard C.toPlatform) (h : Compacted C record stored material given full opened)
    (hkept : ∀ l, stored.link = some l → assertLinkBoundToMaterial C l material = .ok .short)
    (shareOrigins : Option (List JsString)) : expandShareRecord C shareOrigins stored = .ok expanded ↔
      Restorable C shareOrigins stored ∧ expanded = expandedOf stored material full opened := by
  have hmaterial : stored.deliveryMaterial = some (material.storedWith full) := by rw [h.storedAs]
  have hdate : stored.expiresAt = record.expiresAt := by rw [h.storedAs]
  unfold expandShareRecord
  rw [hmaterial]
  simp only [h.openedAs, bind, Except.bind]
  cases full with
  | none =>
    have hno : (material.storedWith none).fullLink = none := rfl
    have hrestorable : Restorable C shareOrigins stored := by
      intro m v f hm hv
      rw [hmaterial] at hm
      cases hm
      cases hv
    have horigins : ∃ origins, trustedOrigins C shareOrigins (material.storedWith none) = .ok origins := by
      cases shareOrigins with
      | none => exact ⟨[], rfl⟩
      | some origins => exact ⟨origins, rfl⟩
    obtain ⟨origins, horigins⟩ := horigins
    simp only [horigins, recordLink, hno]
    constructor
    · intro he
      cases he
      exact ⟨hrestorable, rfl⟩
    · rintro ⟨-, rfl⟩
      rfl
  | some f =>
    obtain ⟨sealed, key, -, hbound, -⟩ := h.bound rfl
    have hexpires : sameDate C f.header.expiresAt stored.expiresAt = true := by
      rw [hdate]
      exact h.expires f rfl
    have hcheck := check_json hbound.checked
    have horigins : trustedOrigins C shareOrigins (material.storedWith (some f)) = .ok (originsOf shareOrigins f) := by
      cases shareOrigins with
      | none =>
        have hfull : (material.storedWith (some f)).fullLink = some f.json := rfl
        simp only [trustedOrigins, hfull, ownOrigins, hcheck]
        rfl
      | some origins => rfl
    have hiff : ∀ shown, recordLink C stored (material.storedWith (some f)) (originsOf shareOrigins f) = .ok shown ↔ _ :=
      fun shown => recordLink_iff hurl hbound hkept hexpires
    have hrestorable : Restorable C shareOrigins stored ↔ (f.origin ∈ originsOf shareOrigins f ∧ Writable f material ∧
        ∀ link origin t id k key c, stored.link = some link →
          parseOwnLink C link = .ok (.short origin t id k key c) → origin ∈ originsOf shareOrigins f) := by
      constructor
      · exact fun hr => hr (material.storedWith (some f)) f.json f hmaterial rfl hcheck
      · intro hr m v g hm hv hg
        rw [hmaterial] at hm
        cases hm
        cases hv
        rw [hcheck] at hg
        obtain rfl := Except.ok.inj hg
        exact hr
    simp only [horigins]
    rw [hrestorable]
    constructor
    · intro he
      cases hl : recordLink C stored (material.storedWith (some f)) (originsOf shareOrigins f) with
      | error e =>
        rw [hl] at he
        cases he
      | ok shown =>
        rw [hl] at he
        obtain ⟨hr, rfl⟩ := (hiff shown).mp hl
        cases he
        exact ⟨hr, rfl⟩
    · rintro ⟨hr, rfl⟩
      rw [(hiff _).mpr ⟨hr, rfl⟩]
      rfl

end Stored

section Faithful

variable [NumberFormat Double] {C : Crypto} {f : StoredFullShareLink} {material : DeliveryMaterial} {sealed key : Bytes}
  {opened : Json Double} {record stored expanded : SenderRecord ρ} {given full : Option StoredFullShareLink}

omit [NumberFormat Double] in
/-- Metadata is stored as it was given, but for the order of its members. -/
lemma check_canonical {v : Json Double} (hp : v.Proper) (h : checkStoredFullShareLink C v = .ok f) :
    v.canonical = f.json := by
  unfold checkStoredFullShareLink at h
  split at h
  · rename_i members
    obtain ⟨_, hkeys, h⟩ := bind_eq_ok h
    obtain ⟨origin, horigin, h⟩ := bind_eq_ok h
    obtain ⟨_, -, h⟩ := bind_eq_ok h
    obtain ⟨header, hheader, h⟩ := bind_eq_ok h
    obtain ⟨signature, hsignature, h⟩ := bind_eq_ok h
    obtain ⟨_, -, h⟩ := bind_eq_ok h
    cases h
    replace hkeys := throwIf_eq_ok hkeys
    rw [Bool.not_eq_false'] at hkeys
    have hsub : ∀ {k : JsString} {w : Json Double}, members.lookup k = some w → w.Proper := by
      intro k w hw
      cases hp with
      | obj _ hall => exact hall _ (mem_of_lookup hw)
    have hheaderRead : ∃ w, members.lookup (js "header") = some w ∧ w.canonical = header.json := by
      obtain ⟨headerMembers, hobj, hchecked⟩ := checked_of_validate hheader
      cases hl : members.lookup (js "header") with
      | none =>
        rw [hl] at hobj
        cases hobj
      | some w =>
        rw [hl, Option.getD_some] at hobj
        subst hobj
        exact ⟨_, rfl, hchecked.canonical (hsub hl)⟩
    have hsignatureRead : ∃ w, members.lookup (js "signature") = some w ∧ w.canonical = signature.json := by
      cases hl : members.lookup (js "signature") with
      | none =>
        rw [hl] at hsignature
        cases hsignature
      | some w =>
        rw [hl, Option.getD_some] at hsignature
        exact ⟨_, rfl, signature_canonical (hsub hl) (orThrow_eq_ok hsignature)⟩
    have hsorted : (["header", "origin", "signature"].map js).Nodup ∧
        (["header", "origin", "signature"].map js).Pairwise UnitsLe := by decide
    refine canonical_of_exact hp hkeys rfl hsorted.1 hsorted.2 ?_
    simp only [List.forall_mem_cons, List.not_mem_nil, false_implies, implies_true, and_true]
    exact ⟨hheaderRead, ⟨_, lookup_of_textMember (orThrow_eq_ok horigin), rfl⟩, hsignatureRead⟩
  · cases h

omit [NumberFormat Double] in
lemma metadata_proper (f : StoredFullShareLink) : f.json.Proper ∧ f.json.canonical = f.json := by
  have hkeys : (["header", "origin", "signature"].map js).Nodup ∧
      (["header", "origin", "signature"].map js).Pairwise UnitsLe := by decide
  constructor
  · refine .obj hkeys.1 fun m hm => ?_
    simp only [List.mem_cons, List.not_mem_nil, or_false] at hm
    rcases hm with rfl | rfl | rfl
    · exact (header_proper _).1
    · exact .str _
    · exact (signature_proper _).1
  · rw [StoredFullShareLink.json, canonical_obj, (sorted_of_keys (by exact hkeys.2)).insertionSort_eq]
    simp only [List.map_cons, List.map_nil, (header_proper _).2, (signature_proper _).2]
    rfl

/-- Metadata that was given is kept. -/
lemma Compacted.metadata {v : Json Double} (h : Compacted C record stored material given full opened) (hp : v.Proper)
    (hv : material.fullLink = some v) : ∃ f, full = some f ∧ v.canonical = f.json.canonical := by
  obtain ⟨g, hg, hcheck⟩ : ∃ g, given = some g ∧ checkStoredFullShareLink C v = .ok g := by
    have hread := h.givenRead
    rw [hv, checkOptional] at hread
    cases hcheck : checkStoredFullShareLink C v with
    | error e =>
      rw [hcheck] at hread
      cases hread
    | ok g =>
      rw [hcheck] at hread
      cases hread
      exact ⟨g, rfl, rfl⟩
  have hcanonical : v.canonical = g.json.canonical := by rw [check_canonical hp hcheck, (metadata_proper g).2]
  have hparts := h.parts
  generalize record.link = shown at hparts
  generalize stored.link = kept at hparts
  cases hparts with
  | none => exact ⟨g, hg, hcanonical⟩
  | short => exact ⟨g, hg, hcanonical⟩
  | full hbound horiginal hsame =>
    rename_i f
    obtain ⟨text, hleft, hright⟩ := hsame g hg
    refine ⟨f, rfl, hcanonical.trans ?_⟩
    refine (serialize_eq_iff (metadata_proper g).1 (metadata_proper f).1).mp ?_
    rw [← (canonicalize_ok hleft).2, ← (canonicalize_ok hright).2]

/-- Origins are ASCII, as the URL standard writes them. -/
structure LinkStandard (C : Crypto) : Prop extends UrlStandard C.toPlatform where
  ascii : ∀ origin, canonicalHttpsOrigin C.toPlatform origin = true → isUnicodeScalarString origin = true

/-- The expanded form of a stored record is stored as the same form. -/
lemma Compacted.again (hurl : LinkStandard C) (h : Compacted C record stored material given full opened)
    (hkept : ∀ l, stored.link = some l → assertLinkBoundToMaterial C l material = .ok .short)
    (hw : ∀ f, full = some f → Writable f material) :
    compactShareRecord C (expandedOf stored material full opened) = .ok stored := by
  have hcheck : checkOptional C (full.map StoredFullShareLink.json) = .ok full := by
    cases full with
    | none => rfl
    | some f =>
      rw [Option.map_some, checkOptional, check_json (h.checked rfl)]
      rfl
  have hlink : linkParts C (material.shownWith full opened) full (restoredLink stored.link full material) =
      .ok (stored.link, full) := by
    cases hstored : stored.link with
    | some l =>
      have hshort : assertLinkBoundToMaterial C l (material.shownWith full opened) = .ok .short := hkept l hstored
      have hrestored : restoredLink (some l) full material = some l := by cases full <;> rfl
      rw [hrestored, linkParts, hshort]
      rfl
    | none =>
      cases full with
      | none => rfl
      | some f =>
        obtain ⟨sealed, key, -, hbound, hrecord⟩ := h.bound rfl
        obtain ⟨hfull, horiginal⟩ := full_roundtrip hurl.toUrlStandard hbound hrecord (hw f rfl)
        have hbound' : assertLinkBoundToMaterial C (fullLinkOf f material) (material.shownWith (some f) opened) =
          .ok .full := hfull
        have hscalar : canonicalize f.json = .ok f.json.serialize := if_pos (scalar_metadata hbound.header
          hbound.checked.signature (hurl.ascii _ (canonical_of_full hurl.toUrlStandard hbound.checked)))
        have hrestored : restoredLink none (some f) material = some (fullLinkOf f material) := rfl
        rw [hrestored, linkParts, hbound']
        simp only [bind, Except.bind, horiginal, hscalar, throwIf, bne_self_eq_false, Bool.false_eq_true, if_false]
  have hdate : stored.expiresAt = record.expiresAt := by rw [h.storedAs]
  have hcanonical := canonical_of_opened h.openedAs
  have henvelope : sameEnvelope opened (some opened) = .ok () := by
    simp only [sameEnvelope, hcanonical, bind, Except.bind, throwIf, bne_self_eq_false, Bool.false_eq_true, if_false]
  have hexpires : (full.any fun f => !sameDate C f.header.expiresAt stored.expiresAt) = false := by
    cases full with
    | none => rfl
    | some f => rw [Option.any_some, hdate, h.expires f rfl, Bool.not_true]
  have hopened : openDeliveryEnvelope C { material.shownWith full opened with
      envelope := none, fullLink := full.map StoredFullShareLink.json } = .ok opened := h.openedAs
  have hshown : (material.shownWith full opened).envelope = some opened := rfl
  have hfull : (material.shownWith full opened).fullLink = full.map StoredFullShareLink.json := rfl
  unfold compactShareRecord expandedOf
  simp only [hfull, hcheck, hlink, bind, Except.bind, hopened, hshown, henvelope, hexpires, throwIf, Bool.false_eq_true,
    if_false]
  rw [h.storedAs]
  rfl

/-- The link is not a full one with a byte order mark before its record. -/
def UnmarkedLink (record : SenderRecord ρ) : Prop := ∀ link, record.link = some link → isMarked link = false

/-- The link is the one that the stored metadata stands for. -/
def IsMetadataLink (C : Crypto) (stored : SenderRecord ρ) (link : JsString) : Prop :=
  ∃ material v f, stored.deliveryMaterial = some material ∧ material.fullLink = some v ∧
    checkStoredFullShareLink C v = .ok f ∧ link = fullLinkOf f material

/-- Delivery material that came back: what the sealed envelope opens to is shown beside it. -/
structure SameMaterial (C : Crypto) (given shown : DeliveryMaterial) : Prop where
  texts : shown.shareCid = given.shareCid ∧ shown.sealedEnvelope = given.sealedEnvelope ∧
    shown.envelopeKey = given.envelopeKey
  envelope : ∃ opened, openDeliveryEnvelope C { shown with envelope := none } = .ok opened ∧
    shown.envelope = some opened ∧ ∀ e, given.envelope = some e → canonicalize e = canonicalize opened
  fullLink : ∀ v, given.fullLink = some v → v.Proper → ∃ w, shown.fullLink = some w ∧ v.canonical = w.canonical

structure Faithful (C : Crypto) (record stored expanded : SenderRecord ρ) : Prop where
  fields : expanded.fields = record.fields ∧ expanded.expiresAt = record.expiresAt
  link : expanded.link = record.link ∨
    record.link = none ∧ ∃ link, expanded.link = some link ∧ IsMetadataLink C stored link
  material : record.deliveryMaterial = none ∧ expanded.deliveryMaterial = none ∨ ∃ given shown,
    record.deliveryMaterial = some given ∧ expanded.deliveryMaterial = some shown ∧ SameMaterial C given shown

structure SameRecord (C : Crypto) (stored record record' : SenderRecord ρ) : Prop where
  fields : record.fields = record'.fields ∧ record.expiresAt = record'.expiresAt
  link : ∀ link link', record.link = some link → record'.link = some link' → link = link'
  added : ∀ link, record.link = none → record'.link = some link → IsMetadataLink C stored link
  envelope : ∀ given given' e e', record.deliveryMaterial = some given → record'.deliveryMaterial = some given' →
    given.envelope = some e → given'.envelope = some e' → canonicalize e = canonicalize e'

lemma envelope_of_same {e : Json Double} (h : sameEnvelope opened (some e) = .ok ()) : canonicalize e = canonicalize opened := by
  obtain ⟨left, hleft, h⟩ := bind_eq_ok h
  obtain ⟨right, hright, h⟩ := bind_eq_ok h
  have hsame := throwIf_eq_ok h
  rw [bne_eq_false_iff_eq] at hsame
  rw [hleft, hright, hsame]

/-- The link a stored record is expanded with. -/
lemma Compacted.restored (hurl : UrlStandard C.toPlatform) (h : Compacted C record stored material given full opened)
    (hmark : UnmarkedLink record) : restoredLink stored.link full material = record.link ∨
      record.link = none ∧ ∃ f, full = some f ∧ restoredLink stored.link full material = some (fullLinkOf f material) := by
  obtain ⟨hlink | ⟨f, rfl, hnone, hlink, -⟩, -⟩ := h.linked hurl hmark
  · cases full with
    | none => exact .inl hlink
    | some f =>
      cases hrecord : record.link with
      | none =>
        rw [hrecord] at hlink
        exact .inr ⟨rfl, f, rfl, by rw [hlink]; rfl⟩
      | some l =>
        rw [hrecord] at hlink
        exact .inl (by rw [hlink]; rfl)
  · exact .inl (by rw [hnone, hlink]; rfl)

lemma Compacted.metadataLink (h : Compacted C record stored material given full opened) (hf : full = some f) :
    IsMetadataLink C stored (fullLinkOf f material) := by
  have hchecked := h.checked hf
  subst hf
  exact ⟨material.storedWith (some f), f.json, f, by rw [h.storedAs], rfl, check_json hchecked, rfl⟩

lemma Compacted.faithful (hurl : UrlStandard C.toPlatform) (hmaterial : record.deliveryMaterial = some material)
    (h : Compacted C record stored material given full opened) (hmark : UnmarkedLink record) :
    Faithful C record stored (expandedOf stored material full opened) where
  fields := by
    rw [h.storedAs]
    exact ⟨rfl, rfl⟩
  link := by
    rcases h.restored hurl hmark with hlink | ⟨hnone, f, hf, hlink⟩
    · exact .inl hlink
    · exact .inr ⟨hnone, _, hlink, h.metadataLink hf⟩
  material := by
    refine .inr ⟨material, material.shownWith full opened, hmaterial, rfl, ⟨rfl, rfl, rfl⟩, ⟨opened, h.openedAs, rfl, ?_⟩, ?_⟩
    · intro e he
      have henvelope := h.envelope
      rw [he] at henvelope
      exact envelope_of_same henvelope
    · intro v hv hp
      obtain ⟨f, rfl, hcanonical⟩ := h.metadata hp hv
      exact ⟨f.json, rfl, hcanonical⟩

omit [NumberFormat Double] in
lemma full_of_storedWith {material' : DeliveryMaterial} {full' : Option StoredFullShareLink}
    (hf : ∀ f, full = some f → FullChecked C f) (hf' : ∀ f, full' = some f → FullChecked C f)
    (h : material.storedWith full = material'.storedWith full') : full = full' := by
  have hjson : full.map StoredFullShareLink.json = full'.map StoredFullShareLink.json :=
    congrArg DeliveryMaterial.fullLink h
  cases full with
  | none =>
    cases full' with
    | none => rfl
    | some f' => cases hjson
  | some f =>
    cases full' with
    | none => cases hjson
    | some f' =>
      have hcheck := check_json (hf f rfl)
      rw [Option.some.inj hjson, check_json (hf' f' rfl)] at hcheck
      rw [Except.ok.inj hcheck]

/-- Two records that are stored alike show the same. -/
lemma Compacted.unique (hurl : UrlStandard C.toPlatform) (hmaterial : record.deliveryMaterial = some material)
    (h : Compacted C record stored material given full opened) (hmark : UnmarkedLink record)
    {record' : SenderRecord ρ} {material' : DeliveryMaterial} {given' full' : Option StoredFullShareLink}
    {opened' : Json Double} (hmaterial' : record'.deliveryMaterial = some material')
    (h' : Compacted C record' stored material' given' full' opened') (hmark' : UnmarkedLink record') :
    SameRecord C stored record record' := by
  have hstored : material.storedWith full = material'.storedWith full' := by
    have hleft : stored.deliveryMaterial = some (material.storedWith full) := by rw [h.storedAs]
    have hright : stored.deliveryMaterial = some (material'.storedWith full') := by rw [h'.storedAs]
    exact Option.some.inj (hleft.symm.trans hright)
  obtain rfl := full_of_storedWith (fun f hf => h.checked hf) (fun f hf => h'.checked hf) hstored
  have hopened : opened = opened' := by
    have hleft := h.openedAs
    rw [hstored, h'.openedAs] at hleft
    exact (Except.ok.inj hleft).symm
  have hlinkOf : ∀ f, fullLinkOf f material = fullLinkOf f material' := by
    have hsealed := congrArg DeliveryMaterial.sealedEnvelope hstored
    have hkey := congrArg DeliveryMaterial.envelopeKey hstored
    change material.sealedEnvelope = material'.sealedEnvelope at hsealed
    change material.envelopeKey = material'.envelopeKey at hkey
    intro f
    rw [fullLinkOf, fullLinkOf, hsealed, hkey]
  have hrestored : restoredLink stored.link full material = restoredLink stored.link full material' := by
    cases full with
    | none => rfl
    | some f => rw [restoredLink, restoredLink, hlinkOf]
  have hr := h.restored hurl hmark
  have hr' := h'.restored hurl hmark'
  rw [← hrestored] at hr'
  refine ⟨?_, ?_, ?_, ?_⟩
  · have hleft := congrArg SenderRecord.fields h.storedAs
    have hright := congrArg SenderRecord.fields h'.storedAs
    have hleftDate := congrArg SenderRecord.expiresAt h.storedAs
    have hrightDate := congrArg SenderRecord.expiresAt h'.storedAs
    exact ⟨hleft.symm.trans hright, hleftDate.symm.trans hrightDate⟩
  · intro link link' hlink hlink'
    rcases hr with hr | ⟨hnone, -⟩
    · rcases hr' with hr' | ⟨hnone, -⟩
      · rw [hr, hlink, hlink'] at hr'
        exact Option.some.inj hr'
      · rw [hnone] at hlink'
        cases hlink'
    · rw [hnone] at hlink
      cases hlink
  · intro link hnone hlink'
    rcases hr' with hr' | ⟨hnone', -⟩
    · rcases hr with hr | ⟨-, f, hf, hr⟩
      · rw [hr, hnone, hlink'] at hr'
        cases hr'
      · rw [hr, hlink'] at hr'
        rw [← Option.some.inj hr']
        exact h.metadataLink hf
    · rw [hnone'] at hlink'
      cases hlink'
  · intro given given' e e' hgiven hgiven' he he'
    rw [hmaterial] at hgiven
    rw [hmaterial'] at hgiven'
    rw [← Option.some.inj hgiven] at he
    rw [← Option.some.inj hgiven'] at he'
    have hleft := h.envelope
    have hright := h'.envelope
    rw [he] at hleft
    rw [he'] at hright
    rw [envelope_of_same hleft, envelope_of_same hright, hopened]

/-- A record without delivery material is stored as it is. -/
lemma stored_of_bare (hmaterial : record.deliveryMaterial = none) (h : compactShareRecord C record = .ok stored) :
    stored = record := by
  unfold compactShareRecord at h
  rw [hmaterial] at h
  exact (Except.ok.inj h).symm

/-- What an accepted record is stored as shows the record again, is stored as itself, and is shared with no record
that shows anything else; it is expanded exactly if its link can be built. -/
theorem stored_form (hurl : LinkStandard C) (h : compactShareRecord C record = .ok stored) (hmark : UnmarkedLink record)
    (shareOrigins : Option (List JsString)) :
    ((∃ expanded, expandShareRecord C shareOrigins stored = .ok expanded) ↔ Restorable C shareOrigins stored) ∧
    (∀ link material, record.link = some link → record.deliveryMaterial = some material →
      assertLinkBoundToMaterial C link material = .ok .full → Restorable C none stored) ∧
    (∀ expanded, expandShareRecord C shareOrigins stored = .ok expanded →
      Faithful C record stored expanded ∧ compactShareRecord C expanded = .ok stored) ∧
    ∀ record', compactShareRecord C record' = .ok stored → UnmarkedLink record' → SameRecord C stored record record' := by
  cases hmaterial : record.deliveryMaterial with
  | none =>
    obtain rfl := stored_of_bare hmaterial h
    have hexpand : expandShareRecord C shareOrigins stored = .ok stored := by
      unfold expandShareRecord
      rw [hmaterial]
      simp only
      rw [← hmaterial]
    refine ⟨iff_of_true ⟨stored, hexpand⟩ ?_, nofun, ?_, ?_⟩
    · intro material v f hm
      rw [hmaterial] at hm
      cases hm
    · intro expanded he
      rw [hexpand] at he
      cases he
      exact ⟨⟨⟨rfl, rfl⟩, .inl rfl, .inl ⟨hmaterial, hmaterial⟩⟩, h⟩
    · intro record' h' hmark'
      cases hmaterial' : record'.deliveryMaterial with
      | none =>
        obtain rfl := stored_of_bare hmaterial' h'
        refine ⟨⟨rfl, rfl⟩, fun link link' hl hl' => Option.some.inj (hl.symm.trans hl'), ?_, ?_⟩
        · intro link hnone hlink
          rw [hnone] at hlink
          cases hlink
        · intro given given' e e' hgiven
          rw [hmaterial] at hgiven
          cases hgiven
      | some material' =>
        obtain ⟨given', full', opened', hc'⟩ := compacted_of_ok hmaterial' h'
        have hstored := hc'.storedAs
        rw [hstored] at hmaterial
        cases hmaterial
  | some material =>
    obtain ⟨given, full, opened, hc⟩ := compacted_of_ok hmaterial h
    obtain ⟨hlinked, hkept⟩ := hc.linked hurl.toUrlStandard hmark
    have hiff : ∀ expanded, expandShareRecord C shareOrigins stored = .ok expanded ↔ _ :=
      fun _ => hc.expand_iff hurl.toUrlStandard hkept shareOrigins
    have hstored : stored.deliveryMaterial = some (material.storedWith full) := by rw [hc.storedAs]
    refine ⟨⟨fun ⟨e, he⟩ => ((hiff e).mp he).1, fun hr => ⟨_, (hiff _).mpr ⟨hr, rfl⟩⟩⟩, ?_, ?_, ?_⟩
    · intro link material' hlink hm hbound
      obtain rfl := Option.some.inj hm
      rcases hlinked with hsame | ⟨f, rfl, hnone, -, hw⟩
      · rw [hlink] at hsame
        rw [hkept link hsame] at hbound
        cases hbound
      · intro m v g hm hv hg
        rw [hstored] at hm
        cases hm
        cases hv
        rw [check_json (hc.checked rfl)] at hg
        obtain rfl := Except.ok.inj hg
        refine ⟨List.mem_singleton_self _, hw, fun link origin t id k key c hlink _ => ?_⟩
        rw [hnone] at hlink
        cases hlink
    · intro expanded he
      obtain ⟨hr, rfl⟩ := (hiff expanded).mp he
      refine ⟨hc.faithful hurl.toUrlStandard hmaterial hmark, hc.again hurl hkept ?_⟩
      rintro f rfl
      exact (hr (material.storedWith (some f)) f.json f hstored rfl (check_json (hc.checked rfl))).2.1
    · intro record' h' hmark'
      cases hmaterial' : record'.deliveryMaterial with
      | none =>
        have hsame := stored_of_bare hmaterial' h'
        rw [← hsame, hstored] at hmaterial'
        cases hmaterial'
      | some material' =>
        obtain ⟨given', full', opened', hc'⟩ := compacted_of_ok hmaterial' h'
        exact hc.unique hurl.toUrlStandard hmaterial hmark hmaterial' hc' hmark'

end Faithful

section Sample

def sampleIssuer : JsString := js "did:key:z6MktwupdmLXVVqTzCw4i46r4uGyosGXRnR3XjN4Zq7oMMsw"
def sampleIssued : JsString := js "2026-07-01T00:00:00.000Z"
def sampleExpiry : JsString := js "2026-08-01T00:00:00.000Z"
def sampleSealed : Bytes := List.replicate 30 0

/-- The envelope's canonical text. -/
def samplePlaintext : Bytes :=
  textEncode (@Json.serialize Double exactNumbers
    (.obj [(js "expiry", .str sampleExpiry), (js "signature", .obj [(js "signerDid", .str sampleIssuer)])]))

/-- One key pair, one sealed body and two dates. -/
def sampleCrypto : Crypto where
  toPlatform := samplePlatform
  publicKeyOfDidKey did := if did = sampleIssuer then some (List.replicate 32 9) else none
  didKeyOfPublicKey _ := sampleIssuer
  keyProblem _ := none
  verifyStrict _ _ signature := signature == List.replicate 64 7
  sha256 _ := List.replicate 32 3
  computeCid _ := sampleCid
  openSealed sealed key := if sealed = sampleSealed ∧ key = sampleKey then some samplePlaintext else none
  dateParse text :=
    if text = sampleIssued then some 1782864000000 else if text = sampleExpiry then some 1785542400000 else none
  toISOString ms := if ms = 1782864000000 then sampleIssued else sampleExpiry

def sampleMetadata : StoredFullShareLink where
  origin := sampleOrigin
  header := ⟨.share, sampleIssuer, js "https://api.tinycloud.xyz", sampleIssued, sampleExpiry,
    .whole 30 0 thirty_small unshifted, sampleCid, js "AAAAAAAAAAAAAAAAAAAAAA"⟩
  signature := ⟨encodeBase64Url (List.replicate 64 7)⟩

def sampleMaterial (fullLink : Option (Json Double)) : DeliveryMaterial where
  shareCid := sampleCid
  sealedEnvelope := encodeBase64Url sampleSealed
  envelopeKey := encodeBase64Url sampleKey
  envelope := none
  fullLink := fullLink

def sampleFullLink : JsString := @fullLinkOf exactNumbers sampleMetadata (sampleMaterial none)

def sampleSender (link : Option JsString) (fullLink : Option (Json Double)) : SenderRecord Unit where
  fields := ()
  expiresAt := sampleExpiry
  link := link
  deliveryMaterial := some (sampleMaterial fullLink)

lemma sampleCrypto_standard : LinkStandard sampleCrypto := by
  refine { toUrlStandard := samplePlatform_standard, ascii := fun origin h => ?_ }
  unfold canonicalHttpsOrigin at h
  split at h
  · cases h
  · rename_i url hurl
    simp only [Bool.and_eq_true, beq_iff_eq] at h
    obtain ⟨host, rest, -, hhost, -, horigin⟩ := plainUrl_origin hurl
    rw [← h.2, horigin]
    have hscheme : ∀ u ∈ js "https://", u.toNat < 0xD800 := by decide
    refine scalar_plain fun u hu => ?_
    rcases List.mem_append.mp hu with hu | hu
    · exact hscheme u hu
    · have hunit := hhost u hu
      simp only [isHostUnit, isLowerUnit, Bool.or_eq_true, decide_eq_true_eq, beq_iff_eq] at hunit
      rcases hunit with ((hunit | hunit) | rfl) | rfl
      · omega
      · omega
      · decide
      · decide

theorem stored_form_sample : ∃ stored, @compactShareRecord Unit exactNumbers sampleCrypto
      (sampleSender (some sampleFullLink) none) = .ok stored ∧
    ∃ expanded, @expandShareRecord Unit exactNumbers sampleCrypto none stored = .ok expanded ∧
      expanded.link = some sampleFullLink := by
  obtain ⟨stored, h⟩ := eq_ok_of_isOk (by decide +kernel : (@compactShareRecord Unit exactNumbers sampleCrypto
    (sampleSender (some sampleFullLink) none)).isOk = true)
  have hmark : UnmarkedLink (sampleSender (some sampleFullLink) none) := by
    intro link hlink
    rw [← Option.some.inj hlink]
    decide +kernel
  obtain ⟨hiff, hfull, hback, -⟩ := @stored_form Unit exactNumbers _ _ _ sampleCrypto_standard h hmark none
  obtain ⟨expanded, he⟩ := hiff.mpr (hfull _ _ rfl rfl (by decide +kernel))
  refine ⟨stored, h, expanded, he, ?_⟩
  obtain ⟨⟨-, hlink | ⟨hnone, -⟩, -⟩, -⟩ := hback expanded he
  · exact hlink
  · cases hnone

/-- A short link of another origin beside the sample's metadata. -/
def foreignLink : JsString :=
  shortText (js "https://links.example") LinkType.share.pathLetter sampleId (encodeBase64Url sampleKey) sampleCid

/-- A record without a link comes back with the link of its metadata; a short link of another origin than the
metadata's is stored and then refused. -/
theorem metadata_link_added :
    (@compactShareRecord Unit exactNumbers sampleCrypto (sampleSender none (some sampleMetadata.json)) >>= fun stored =>
        (@expandShareRecord Unit exactNumbers sampleCrypto none stored).map SenderRecord.link) = .ok (some sampleFullLink) ∧
      (@compactShareRecord Unit exactNumbers sampleCrypto (sampleSender (some foreignLink) (some sampleMetadata.json)) >>=
        fun stored => (@expandShareRecord Unit exactNumbers sampleCrypto none stored).map SenderRecord.link) =
          .error "origin_not_trusted" := by
  constructor
  · decide +kernel
  · decide +kernel

end Sample

end TinyCloud.Links
