import TinyCloud.Runs.Fallible
import TinyCloud.Text.Base64Url
import TinyCloud.Text.Canonical
import TinyCloud.Text.Double

/-!
# Compact UCANs

`parseCompactUcanAuthorization` with its canonical-form check and its schemas. Base58, Ed25519 and
the content identifier are parameters.
-/

namespace TinyCloud.Policy

open TinyCloud.Text TinyCloud.Runs

/-- What the packages outside the repository compute; `none` is a thrown error. -/
structure CompactCrypto where
  base58Decode : JsString → Option Bytes
  getPublicKey : Bytes → Option Bytes
  sign : Bytes → Bytes → Option Bytes
  verify : Bytes → Bytes → Bytes → Option Bool
  cidOf : Bytes → JsString

section Canonicalize

variable {N : Type}

def isForbiddenKey (key : JsString) : Bool := key == js "__proto__" || key == js "constructor"

mutual
/-- What `normalizeJson` lets through; numbers are finite here. -/
def jcsNormal : Json N → Bool
  | .str s => isUnicodeScalarString s
  | .arr items => jcsNormalItems items
  | .obj members => jcsNormalMembers members
  | _ => true
def jcsNormalItems : List (Json N) → Bool
  | [] => true
  | v :: items => jcsNormal v && jcsNormalItems items
def jcsNormalMembers : List (JsString × Json N) → Bool
  | [] => true
  | (k, v) :: members => isUnicodeScalarString k && !isForbiddenKey k && jcsNormal v &&
      jcsNormalMembers members
end

def jcsCanonicalize [NumberFormat N] (v : Json N) : Except String JsString :=
  if jcsNormal v then .ok v.serialize else .error "SignedObjectCanonicalizationError"

end Canonicalize

section Schema

abbrev Attenuation := List (JsString × List (JsString × List (Json Double)))

def strictObject (keys : List String) : Json Double → Option (List (JsString × Json Double))
  | .obj members => if members.all fun m => (keys.map js).contains m.1 then some members else none
  | _ => none

def isLiteral (value : String) : Json Double → Bool
  | .str s => s == js value
  | _ => false

def nonEmptyString : Json Double → Option JsString
  | .str (u :: s) => some (u :: s)
  | _ => none

def integer : Json Double → Option Double
  | .num n => if n.isInteger then some n else none
  | _ => none

def nonEmptyArray : Json Double → Option (List (Json Double))
  | .arr (v :: items) => some (v :: items)
  | _ => none

def recordOf {α : Type} (read : Json Double → Option α) : Json Double → Option (List (JsString × α))
  | .obj members => members.mapM fun m => (read m.2).map fun v => (m.1, v)
  | _ => none

def arrayOf {α : Type} (read : Json Double → Option α) : Json Double → Option (List α)
  | .arr items => items.mapM read
  | _ => none

/-- `z.array(z.record(z.unknown())).length(1)` -/
def singleRecord : Json Double → Option (List (JsString × Json Double))
  | .arr [.obj members] => some members
  | _ => none

def field (members : List (JsString × Json Double)) (key : String) : Option (Json Double) :=
  members.lookup (js key)

structure CompactHeader where
  x : JsString
  deriving DecidableEq

structure CompactPayload where
  att : Attenuation
  aud : JsString
  exp : Double
  fct : List (JsString × Json Double)
  iss : JsString
  nbf : Double
  nnc : JsString
  prf : List JsString

def CompactHeader.jwk (h : CompactHeader) : Json Double :=
  .obj [(js "alg", .str (js "EdDSA")), (js "crv", .str (js "Ed25519")), (js "kty", .str (js "OKP")),
    (js "x", .str h.x)]

def CompactHeader.json (h : CompactHeader) : Json Double :=
  .obj [(js "alg", .str (js "EdDSA")), (js "jwk", h.jwk), (js "typ", .str (js "JWT")),
    (js "ucv", .str (js "0.10.0"))]

def Attenuation.json (att : Attenuation) : Json Double :=
  .obj (att.map fun r => (r.1, .obj (r.2.map fun a => (a.1, .arr a.2))))

def CompactPayload.members (p : CompactPayload) : List (JsString × Json Double) :=
  [(js "att", p.att.json), (js "aud", .str p.aud), (js "exp", .num p.exp),
    (js "fct", .arr [.obj p.fct]), (js "iss", .str p.iss), (js "nbf", .num p.nbf),
    (js "nnc", .str p.nnc), (js "prf", .arr (p.prf.map .str))]

def CompactPayload.json (p : CompactPayload) : Json Double := .obj p.members

def CompactHeaderSchema (v : Json Double) : Option CompactHeader := do
  let members ← strictObject ["alg", "jwk", "typ", "ucv"] v
  let alg ← field members "alg"
  let jwk ← (field members "jwk").bind (strictObject ["alg", "crv", "kty", "x"])
  let typ ← field members "typ"
  let ucv ← field members "ucv"
  let jwkAlg ← field jwk "alg"
  let crv ← field jwk "crv"
  let kty ← field jwk "kty"
  let x ← (field jwk "x").bind nonEmptyString
  if isLiteral "EdDSA" alg && isLiteral "EdDSA" jwkAlg && isLiteral "Ed25519" crv &&
      isLiteral "OKP" kty && isLiteral "JWT" typ && isLiteral "0.10.0" ucv then some ⟨x⟩
  else none

def payloadKeys : List String := ["att", "aud", "exp", "fct", "iss", "nbf", "nnc", "prf"]

def CompactPayloadSchema (v : Json Double) : Option CompactPayload := do
  let members ← strictObject payloadKeys v
  let att ← (field members "att").bind (recordOf (recordOf nonEmptyArray))
  let aud ← (field members "aud").bind nonEmptyString
  let exp ← (field members "exp").bind integer
  let fct ← (field members "fct").bind singleRecord
  let iss ← (field members "iss").bind nonEmptyString
  let nbf ← (field members "nbf").bind integer
  let nnc ← (field members "nnc").bind nonEmptyString
  let prf ← (field members "prf").bind (arrayOf nonEmptyString)
  some ⟨att, aud, exp, fct, iss, nbf, nnc, prf⟩

lemma isLiteral_eq {value : String} {v : Json Double} (h : isLiteral value v = true) :
    v = .str (js value) := by
  cases v with
  | str s =>
    simp only [isLiteral, beq_iff_eq] at h
    rw [h]
  | null | bool | num | arr | obj => simp [isLiteral] at h

lemma nonEmptyString_eq {v : Json Double} {s : JsString} (h : nonEmptyString v = some s) :
    v = .str s := by
  unfold nonEmptyString at h
  split at h
  · cases h
    rfl
  · cases h

lemma integer_eq {v : Json Double} {n : Double} (h : integer v = some n) : v = .num n := by
  unfold integer at h
  split at h
  · split_ifs at h
    cases h
    rfl
  · cases h

lemma nonEmptyArray_eq {v : Json Double} {items : List (Json Double)}
    (h : nonEmptyArray v = some items) : v = .arr items := by
  unfold nonEmptyArray at h
  split at h
  · cases h
    rfl
  · cases h

lemma singleRecord_eq {v : Json Double} {members : List (JsString × Json Double)}
    (h : singleRecord v = some members) : v = .arr [.obj members] := by
  unfold singleRecord at h
  split at h
  · cases h
    rfl
  · cases h

lemma recordOf_eq {α : Type} {read : Json Double → Option α} {write : α → Json Double}
    (hr : ∀ {v a}, read v = some a → v = write a) {v : Json Double} {l : List (JsString × α)}
    (h : recordOf read v = some l) : v = .obj (l.map fun m => (m.1, write m.2)) := by
  unfold recordOf at h
  split at h
  next members =>
    congr 1
    induction members generalizing l with
    | nil =>
      cases h
      rfl
    | cons m members ih =>
      simp only [List.mapM_cons, Option.bind_eq_bind, Option.bind_eq_some_iff, Option.map_eq_some_iff,
        Option.pure_def, Option.some.injEq] at h
      obtain ⟨_, ⟨a, ha, rfl⟩, rest, hrest, rfl⟩ := h
      rw [List.map_cons, ← ih hrest, ← hr ha]
  · cases h

lemma arrayOf_eq {α : Type} {read : Json Double → Option α} {write : α → Json Double}
    (hr : ∀ {v a}, read v = some a → v = write a) {v : Json Double} {l : List α}
    (h : arrayOf read v = some l) : v = .arr (l.map write) := by
  unfold arrayOf at h
  split at h
  next items =>
    congr 1
    induction items generalizing l with
    | nil =>
      cases h
      rfl
    | cons m items ih =>
      simp only [List.mapM_cons, Option.bind_eq_bind, Option.bind_eq_some_iff, Option.pure_def,
        Option.some.injEq] at h
      obtain ⟨a, ha, rest, hrest, rfl⟩ := h
      rw [List.map_cons, ← ih hrest, ← hr ha]
  · cases h

lemma strictObject_eq {keys : List String} {v : Json Double} {members : List (JsString × Json Double)}
    (h : strictObject keys v = some members) :
    v = .obj members ∧ ∀ m ∈ members, m.1 ∈ keys.map js := by
  unfold strictObject at h
  split at h
  · split_ifs at h with hk
    cases h
    refine ⟨rfl, fun m hm => ?_⟩
    exact List.elem_iff.mp (List.all_eq_true.mp hk m hm)
  · cases h

/-- A canonical object with no key beyond the listed ones, given by its fields. -/
lemma eq_of_fields {keys : List String} {v : Json Double} {members l : List (JsString × Json Double)}
    (hp : v.Proper) (hc : v.canonical = v) (hm : strictObject keys v = some members)
    (hl : l.map Prod.fst = keys.map js) (hn : (keys.map js).Nodup)
    (hs : (keys.map js).Pairwise UnitsLe) (h : ∀ m ∈ l, members.lookup m.1 = some m.2) :
    v = .obj l := by
  obtain ⟨rfl, hk⟩ := strictObject_eq hm
  cases hp with
  | obj hnd _ =>
    rw [← hl] at hk hn hs
    rw [eq_of_lookups hnd hn (members_of_canonical hnd hc).1 (sorted_of_keys hs) hk h]

lemma field_bind {members : List (JsString × Json Double)} {key : String} {α : Type}
    {read : Json Double → Option α} {write : α → Json Double} {a : α}
    (hr : ∀ {v a}, read v = some a → v = write a) (h : ∃ v, field members key = some v ∧ read v = some a) :
    members.lookup (js key) = some (write a) := by
  obtain ⟨v, hv, ha⟩ := h
  rw [← hr ha]
  exact hv

/-- A header that passed its schema is the canonical object of its key. -/
lemma header_of_schema {v : Json Double} {header : CompactHeader} (hp : v.Proper)
    (hc : v.canonical = v) (h : CompactHeaderSchema v = some header) : v = header.json := by
  simp only [CompactHeaderSchema, Option.bind_eq_bind, Option.bind_eq_some_iff] at h
  obtain ⟨members, hm, alg, halg, jwk, ⟨w, hw, hjwk⟩, typ, htyp, ucv, hucv, jwkAlg, hjwkAlg, crv, hcrv,
    kty, hkty, x, ⟨y, hy, hx⟩, h⟩ := h
  split_ifs at h with hlit
  cases h
  simp only [Bool.and_eq_true] at hlit
  obtain ⟨⟨⟨⟨⟨h1, h2⟩, h3⟩, h4⟩, h5⟩, h6⟩ := hlit
  rw [isLiteral_eq h1] at halg
  rw [isLiteral_eq h2] at hjwkAlg
  rw [isLiteral_eq h3] at hcrv
  rw [isLiteral_eq h4] at hkty
  rw [isLiteral_eq h5] at htyp
  rw [isLiteral_eq h6] at hucv
  rw [nonEmptyString_eq hx] at hy
  have hmem := mem_of_lookup hw
  have hwp : w.Proper ∧ w.canonical = w := by
    obtain ⟨rfl, -⟩ := strictObject_eq hm
    cases hp with
    | obj hnd hall => exact ⟨hall _ hmem, (members_of_canonical hnd hc).2 _ hmem⟩
  have hwj : w = CompactHeader.jwk ⟨x⟩ := by
    refine eq_of_fields hwp.1 hwp.2 hjwk rfl (by decide) (by decide) ?_
    simp only [List.forall_mem_cons, List.not_mem_nil, false_implies, implies_true, and_true]
    exact ⟨hjwkAlg, hcrv, hkty, hy⟩
  refine eq_of_fields hp hc hm rfl (by decide) (by decide) ?_
  simp only [List.forall_mem_cons, List.not_mem_nil, false_implies, implies_true, and_true]
  exact ⟨halg, hwj ▸ hw, htyp, hucv⟩

lemma payloadKeys_sorted : (payloadKeys.map js).Nodup ∧ (payloadKeys.map js).Pairwise UnitsLe := by
  decide

/-- A payload that passed its schema is the canonical object of its fields. -/
lemma payload_of_schema {v : Json Double} {payload : CompactPayload} (hp : v.Proper)
    (hc : v.canonical = v) (h : CompactPayloadSchema v = some payload) : v = payload.json := by
  simp only [CompactPayloadSchema, Option.bind_eq_bind, Option.bind_eq_some_iff, Option.some.injEq] at h
  obtain ⟨members, hm, att, hatt, aud, haud, exp, hexp, fct, hfct, iss, hiss, nbf, hnbf, nnc, hnnc,
    prf, hprf, rfl⟩ := h
  refine eq_of_fields hp hc hm rfl payloadKeys_sorted.1 payloadKeys_sorted.2 ?_
  simp only [CompactPayload.members, List.forall_mem_cons, List.not_mem_nil, false_implies, implies_true, and_true]
  exact ⟨@field_bind _ _ _ _ Attenuation.json _ (recordOf_eq (recordOf_eq nonEmptyArray_eq)) hatt,
    field_bind nonEmptyString_eq haud, field_bind integer_eq hexp, @field_bind _ _ _ _ (fun l => .arr [.obj l]) _ singleRecord_eq hfct,
    field_bind nonEmptyString_eq hiss, field_bind integer_eq hnbf, field_bind nonEmptyString_eq hnnc,
    @field_bind _ _ _ _ (fun l => .arr (l.map .str)) _ (arrayOf_eq nonEmptyString_eq) hprf⟩

end Schema

section Parse

variable [NumberFormat Double]

/-- `\s` -/
def isWhitespace (u : CodeUnit) : Bool :=
  let n := u.toNat
  (Nat.ble 9 n && Nat.ble n 13) || n == 32 || (Nat.ble 0xA0 n && (n == 0xA0 || n == 0x1680 ||
    (Nat.ble 0x2000 n && Nat.ble n 0x200A) || n == 0x2028 || n == 0x2029 || n == 0x202F ||
    n == 0x205F || n == 0x3000 || n == 0xFEFF))

def dot : CodeUnit := 46

structure CompactUcanAuthorization where
  authorization : JsString
  cid : JsString
  header : CompactHeader
  payload : CompactPayload

/-- The DID before the fragment. -/
def principalOf (did : JsString) : JsString := did.takeWhile (· != 35)

def didKeyPrefix : JsString := js "did:key:"

def didMaterial (C : CompactCrypto) (principal : JsString) : Option Bytes :=
  if didKeyPrefix.isPrefixOf principal then C.base58Decode (principal.drop didKeyPrefix.length)
  else some []

def isEd25519Material (material : Bytes) : Bool :=
  material.length == 34 && material[0]? == some 0xED && material[1]? == some 0x01

def threeSegments : List JsString → Option (JsString × JsString × JsString)
  | [header, payload, signature] =>
    if header = [] ∨ payload = [] ∨ signature = [] then none else some (header, payload, signature)
  | _ => none

/-- One signed segment: its bytes decoded, parsed and compared with their canonical text. -/
def parseSegment (bytes : Bytes) : Except String (Json Double) := do
  let text ← orThrow (textDecode bytes) "TypeError"
  orThrow (parseJson text) "SyntaxError"

/-- `jcsCanonicalize(value) === new TextDecoder().decode(bytes)`; the bytes decoded once already. -/
def isCanonicalSegment (bytes : Bytes) (value : Json Double) : Except String Bool := do
  let text ← jcsCanonicalize value
  pure (textDecode bytes == some text)

def parseCompactUcanAuthorization (C : CompactCrypto) (input : JsString)
    (expectedCid : Option JsString) : Except String CompactUcanAuthorization := do
  throwIf (input.any isWhitespace) "Authorization must be compact UCAN bytes"
  let (headerSegment, payloadSegment, signatureSegment) ←
    orThrow (threeSegments (input.splitOn dot)) "Authorization must have three compact segments"
  let headerBytes ← orThrow (decodeBase64Url headerSegment) "value is not canonical base64url"
  let payloadBytes ← orThrow (decodeBase64Url payloadSegment) "value is not canonical base64url"
  let signature ← orThrow (decodeBase64Url signatureSegment) "value is not canonical base64url"
  let headerValue ← parseSegment headerBytes
  let payloadValue ← parseSegment payloadBytes
  throwIf (!(← isCanonicalSegment headerBytes headerValue))
    "compact UCAN segments are not canonical JCS"
  throwIf (!(← isCanonicalSegment payloadBytes payloadValue))
    "compact UCAN segments are not canonical JCS"
  let header ← orThrow (CompactHeaderSchema headerValue) "ZodError"
  let payload ← orThrow (CompactPayloadSchema payloadValue) "ZodError"
  throwIf (decide (payload.exp.units ≤ payload.nbf.units)) "compact UCAN validity is empty"
  let material ← orThrow (didMaterial C (principalOf payload.iss)) "base58btc"
  throwIf (!isEd25519Material material) "compact UCAN issuer must be did:key Ed25519"
  let publicKey := material.drop 2
  let jwkKey ← orThrow (decodeBase64Url header.x) "value is not canonical base64url"
  throwIf (publicKey != jwkKey) "compact UCAN JWK does not bind issuer"
  let verified ← orThrow
    (C.verify signature (textEncode (headerSegment ++ dot :: payloadSegment)) publicKey) "ed25519"
  throwIf (!verified) "compact UCAN signature is invalid"
  let cid := C.cidOf (textEncode input)
  throwIf (expectedCid.any (· != cid)) "compact UCAN CID does not match exact Authorization bytes"
  pure ⟨input, cid, header, payload⟩

/-- What an accepted segment decodes to. -/
structure SegmentValue (bytes : Bytes) (value : Json Double) : Prop where
  decoded : textDecode bytes = some value.serialize
  parsed : parseJson value.serialize = some value
  normal : jcsNormal value = true

lemma SegmentValue.proper {bytes : Bytes} {value : Json Double} (h : SegmentValue bytes value) :
    value.Proper :=
  proper_of_parseJson h.parsed

lemma SegmentValue.canonical {bytes : Bytes} {value : Json Double} (h : SegmentValue bytes value) :
    value.canonical = value := by
  have := parseJson_serialize h.proper
  rw [h.parsed] at this
  exact (Option.some.inj this).symm

lemma segmentValue_of_checks {bytes : Bytes} {value : Json Double} (hp : parseSegment bytes = .ok value)
    (hc : isCanonicalSegment bytes value = .ok true) : SegmentValue bytes value := by
  obtain ⟨text, ht, hp⟩ := bind_eq_ok hp
  obtain ⟨canonical, hj, hc⟩ := bind_eq_ok hc
  unfold jcsCanonicalize at hj
  split_ifs at hj with hn
  cases hj
  simp only [pure, Except.pure, Except.ok.injEq, beq_iff_eq] at hc
  rw [orThrow_eq_ok ht] at hc
  cases hc
  exact ⟨orThrow_eq_ok ht, orThrow_eq_ok hp, hn⟩

/-- Everything the parser has checked of an input it accepts. -/
structure Accepted (C : CompactCrypto) (input : JsString) (r : CompactUcanAuthorization)
    (segments : JsString × JsString × JsString) (headerBytes payloadBytes signature : Bytes) : Prop where
  split : input.splitOn dot = [segments.1, segments.2.1, segments.2.2]
  header : decodeBase64Url segments.1 = some headerBytes
  payload : decodeBase64Url segments.2.1 = some payloadBytes
  signature : decodeBase64Url segments.2.2 = some signature
  headerValue : SegmentValue headerBytes r.header.json
  payloadValue : SegmentValue payloadBytes r.payload.json
  schema : CompactPayloadSchema r.payload.json = some r.payload
  validity : r.payload.nbf.units < r.payload.exp.units
  authorization : r.authorization = input
  cid : r.cid = C.cidOf (textEncode input)

omit [NumberFormat Double] in
lemma threeSegments_eq {l : List JsString} {segments : JsString × JsString × JsString}
    (h : threeSegments l = some segments) : l = [segments.1, segments.2.1, segments.2.2] := by
  unfold threeSegments at h
  split at h
  · split_ifs at h
    cases h
    rfl
  · cases h

theorem accepted_of_parse {C : CompactCrypto} {input : JsString} {expectedCid : Option JsString}
    {r : CompactUcanAuthorization} (h : parseCompactUcanAuthorization C input expectedCid = .ok r) :
    ∃ segments headerBytes payloadBytes signature,
      Accepted C input r segments headerBytes payloadBytes signature := by
  obtain ⟨_, -, h⟩ := bind_eq_ok h
  obtain ⟨segments, hseg, h⟩ := bind_eq_ok h
  obtain ⟨headerBytes, hhb, h⟩ := bind_eq_ok h
  obtain ⟨payloadBytes, hpb, h⟩ := bind_eq_ok h
  obtain ⟨signature, hsig, h⟩ := bind_eq_ok h
  obtain ⟨headerValue, hhv, h⟩ := bind_eq_ok h
  obtain ⟨payloadValue, hpv, h⟩ := bind_eq_ok h
  obtain ⟨headerOk, hho, h⟩ := bind_eq_ok h
  obtain ⟨_, hht, h⟩ := bind_eq_ok h
  obtain ⟨payloadOk, hpo, h⟩ := bind_eq_ok h
  obtain ⟨_, hpt, h⟩ := bind_eq_ok h
  obtain ⟨header, hhs, h⟩ := bind_eq_ok h
  obtain ⟨payload, hps, h⟩ := bind_eq_ok h
  obtain ⟨_, hvalid, h⟩ := bind_eq_ok h
  obtain ⟨material, -, h⟩ := bind_eq_ok h
  obtain ⟨_, -, h⟩ := bind_eq_ok h
  obtain ⟨jwkKey, -, h⟩ := bind_eq_ok h
  obtain ⟨_, -, h⟩ := bind_eq_ok h
  obtain ⟨verified, -, h⟩ := bind_eq_ok h
  obtain ⟨_, -, h⟩ := bind_eq_ok h
  obtain ⟨_, -, h⟩ := bind_eq_ok h
  cases h
  have hh : headerOk = true := by simpa using throwIf_eq_ok hht
  have hp : payloadOk = true := by simpa using throwIf_eq_ok hpt
  have hsh := segmentValue_of_checks hhv (hh ▸ hho)
  have hsp := segmentValue_of_checks hpv (hp ▸ hpo)
  have hjh := header_of_schema hsh.proper hsh.canonical (orThrow_eq_ok hhs)
  have hjp := payload_of_schema hsp.proper hsp.canonical (orThrow_eq_ok hps)
  refine ⟨segments, headerBytes, payloadBytes, signature, threeSegments_eq (orThrow_eq_ok hseg),
    orThrow_eq_ok hhb, orThrow_eq_ok hpb, orThrow_eq_ok hsig, hjh ▸ hsh, hjp ▸ hsp, ?_, ?_, rfl, rfl⟩
  · have := orThrow_eq_ok hps
    rwa [hjp] at this
  · simpa using throwIf_eq_ok hvalid

end Parse

end TinyCloud.Policy
