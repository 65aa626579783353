import TinyCloud.Policy.Attenuation
import TinyCloud.Policy.Canonicity
import TinyCloud.Text.SafeInteger

/-!
# Chains of policy descendants

Each descendant is checked against its parent only. Along a chain authority is contained, windows nest
and facts are carried; the depth bounds the chain. Sums of doubles are rounded, so a window moves
inwards only where adding or taking one second changes the number.
-/

namespace TinyCloud.Policy

open TinyCloud.Text TinyCloud.Runs

section Build

variable [NumberFormat Double]

def depthKey : JsString := js "remainingRedelegationDepth"

structure CompactPolicyDescendantInput where
  parentAuthorization : JsString
  parentCid : JsString
  issuerDid : JsString
  audienceDid : JsString
  attenuation : Attenuation
  /-- A record has each of its keys once. -/
  record : attenuation.json.Proper
  now : Option JsNumber
  expiresAt : Option JsNumber
  nonce : Option JsString
  /-- What `crypto.getRandomValues` fills in. -/
  random : Bytes

structure DescendantClaims where
  parentCid : JsString
  parentFact : List (JsString × Json Double)
  depth : JsNumber
  notBefore : JsNumber
  expiresAt : JsNumber
  nonce : JsString

/-- The depth, where it is a positive integer. -/
def remainingDepth (fact : List (JsString × Json Double)) : Option Double :=
  match fact.lookup depthKey with
  | some (.num depth) => if depth.isInteger && decide (0 < depth.units) then some depth else none
  | _ => none

/-- The checked claims of a descendant, before anyone signs them. -/
def compactPolicyDescendantClaims (C : CompactCrypto) (input : CompactPolicyDescendantInput) :
    Except String DescendantClaims := do
  let parent ← parseCompactUcanAuthorization C input.parentAuthorization (some input.parentCid)
  throwIf (parent.payload.aud != input.issuerDid) "policy descendant issuer is not the parent audience"
  let depth ← orThrow (remainingDepth parent.payload.fct) "policy descendant depth is exhausted"
  throwIf (!(← compactAttenuationContains parent.payload.att input.attenuation))
    "policy descendant exceeds the parent attenuation"
  let now := (input.now.getD parent.payload.nbf.plusOne).max parent.payload.nbf.plusOne
  let exp := (input.expiresAt.getD parent.payload.exp.minusOne).min parent.payload.exp.minusOne
  throwIf (exp.le now) "policy parent has no strictly narrower validity window"
  pure ⟨parent.cid, parent.payload.fct, depth.minusOne, now, exp,
    input.nonce.getD (encodeBase64Url input.random)⟩

/-- A number with canonical text. -/
def finiteNumber : JsNumber → Except String Double
  | .finite a => .ok a
  | _ => .error "SignedObjectCanonicalizationError"

/-- The issuer with its verification method. -/
def issuerOf (issuerDid : JsString) : JsString :=
  if issuerDid.contains 35 then issuerDid
  else principalOf issuerDid ++ 35 :: (principalOf issuerDid).drop didKeyPrefix.length

def descendantPayload (input : CompactPolicyDescendantInput) (claims : DescendantClaims) :
    Except String CompactPayload := do
  let exp ← finiteNumber claims.expiresAt
  let depth ← finiteNumber claims.depth
  let nbf ← finiteNumber claims.notBefore
  pure
    { att := input.attenuation
      aud := input.audienceDid
      exp
      fct := setMember claims.parentFact (depthKey, .num depth)
      iss := issuerOf input.issuerDid
      nbf
      nnc := claims.nonce
      prf := [claims.parentCid] }

/-- Canonical segments of the claims, signed and parsed again. -/
def signSegments (C : CompactCrypto) (input : CompactPolicyDescendantInput) (claims : DescendantClaims)
    (publicKey : Bytes) (sign : Bytes → Except String Bytes) :
    Except String CompactUcanAuthorization := do
  let protectedSegment ← canonicalSegment (CompactHeader.mk (encodeBase64Url publicKey)).json
  let payload ← descendantPayload input claims
  let payloadSegment ← canonicalSegment payload.json
  let signature ← sign (textEncode (protectedSegment ++ dot :: payloadSegment))
  parseCompactUcanAuthorization C
    (protectedSegment ++ dot :: (payloadSegment ++ dot :: encodeBase64Url signature)) none

def createCompactPolicyDescendant (C : CompactCrypto) (input : CompactPolicyDescendantInput)
    (privateKey : Bytes) : Except String CompactUcanAuthorization := do
  let claims ← compactPolicyDescendantClaims C input
  let principal := principalOf input.issuerDid
  let material ← orThrow (C.base58Decode (principal.drop didKeyPrefix.length)) "base58btc"
  let publicKey ← orThrow (C.getPublicKey privateKey) "ed25519"
  throwIf (material.length != 34 || publicKey != material.drop 2)
    "policy descendant signer does not bind issuer DID"
  signSegments C input claims publicKey fun bytes => orThrow (C.sign bytes privateKey) "ed25519"

/-- `signCompactUcan` applied to the claims; `sign` is the caller's. -/
def signCompactPolicyDescendant (C : CompactCrypto) (input : CompactPolicyDescendantInput)
    (sign : Bytes → Except String Bytes) : Except String CompactUcanAuthorization := do
  let claims ← compactPolicyDescendantClaims C input
  let material ← orThrow (didMaterial C (principalOf input.issuerDid)) "base58btc"
  throwIf (!isEd25519Material material) "compact UCAN signer must be did:key Ed25519"
  signSegments C input claims (material.drop 2) fun bytes => do
    let signature ← sign bytes
    throwIf (signature.length != 64) "compact Authorization signature must be Ed25519"
    pure signature

/-- A descendant of either kind. -/
def IsDescendant (C : CompactCrypto) (input : CompactPolicyDescendantInput)
    (r : CompactUcanAuthorization) : Prop :=
  (∃ privateKey, createCompactPolicyDescendant C input privateKey = .ok r) ∨
    ∃ sign, signCompactPolicyDescendant C input sign = .ok r

/-- The input written from the segments of the claims, and its acceptance. -/
structure Signed (C : CompactCrypto) (input : CompactPolicyDescendantInput) (claims : DescendantClaims)
    (payload : CompactPayload) (r : CompactUcanAuthorization) : Prop where
  built : descendantPayload input claims = .ok payload
  accepted : ∃ (header : CompactHeader) (headerSegment payloadSegment : JsString) (signature : Bytes),
    canonicalSegment header.json = .ok headerSegment ∧
    canonicalSegment payload.json = .ok payloadSegment ∧
    parseCompactUcanAuthorization C
      (headerSegment ++ dot :: (payloadSegment ++ dot :: encodeBase64Url signature)) none = .ok r

lemma signed_of_signSegments {C : CompactCrypto} {input : CompactPolicyDescendantInput}
    {claims : DescendantClaims} {publicKey : Bytes} {sign : Bytes → Except String Bytes}
    {r : CompactUcanAuthorization} (h : signSegments C input claims publicKey sign = .ok r) :
    ∃ payload, Signed C input claims payload r := by
  obtain ⟨headerSegment, hh, h⟩ := bind_eq_ok h
  obtain ⟨payload, hp, h⟩ := bind_eq_ok h
  obtain ⟨payloadSegment, hps, h⟩ := bind_eq_ok h
  obtain ⟨signature, -, h⟩ := bind_eq_ok h
  exact ⟨payload, hp, _, headerSegment, payloadSegment, signature, hh, hps, h⟩

lemma signed_of_descendant {C : CompactCrypto} {input : CompactPolicyDescendantInput}
    {r : CompactUcanAuthorization} (h : IsDescendant C input r) :
    ∃ claims payload, compactPolicyDescendantClaims C input = .ok claims ∧
      Signed C input claims payload r := by
  rcases h with ⟨privateKey, h⟩ | ⟨sign, h⟩
  · obtain ⟨claims, hc, h⟩ := bind_eq_ok h
    obtain ⟨material, -, h⟩ := bind_eq_ok h
    obtain ⟨publicKey, -, h⟩ := bind_eq_ok h
    obtain ⟨_, -, h⟩ := bind_eq_ok h
    obtain ⟨payload, hs⟩ := signed_of_signSegments h
    exact ⟨claims, payload, hc, hs⟩
  · obtain ⟨claims, hc, h⟩ := bind_eq_ok h
    obtain ⟨material, -, h⟩ := bind_eq_ok h
    obtain ⟨_, -, h⟩ := bind_eq_ok h
    obtain ⟨payload, hs⟩ := signed_of_signSegments h
    exact ⟨claims, payload, hc, hs⟩

omit [NumberFormat Double] in
lemma dot_notMem_encode (bytes : Bytes) : dot ∉ encodeBase64Url bytes := by
  intro h
  obtain ⟨n, hn, he⟩ := List.mem_map.mp h
  have := unitSextet_sextetUnit n (encodeSextets_lt bytes n hn)
  rw [he] at this
  cases this

lemma splitOn_segments {header payload : Json Double} {headerSegment payloadSegment : JsString}
    (hh : canonicalSegment header = .ok headerSegment) (hp : canonicalSegment payload = .ok payloadSegment)
    (signature : Bytes) :
    (headerSegment ++ dot :: (payloadSegment ++ dot :: encodeBase64Url signature)).splitOn dot =
      [headerSegment, payloadSegment, encodeBase64Url signature] := by
  have hseg : ∀ {value : Json Double} {segment : JsString}, canonicalSegment value = .ok segment →
      dot ∉ segment := by
    intro value segment h
    unfold canonicalSegment jcsCanonicalize at h
    split_ifs at h
    · cases h
      exact dot_notMem_encode _
    · cases h
  have h := @List.splitOn_intercalate _ [headerSegment, payloadSegment, encodeBase64Url signature] _ _
    dot (by simp [hseg hh, hseg hp, dot_notMem_encode]) (by simp)
  simpa [List.intercalate] using h

/-- The payload that comes back is the canonical form of the one that was signed. -/
lemma payload_of_signed {C : CompactCrypto} {input : CompactPolicyDescendantInput}
    {claims : DescendantClaims} {payload : CompactPayload} {r : CompactUcanAuthorization}
    (hp : payload.json.Proper) (h : Signed C input claims payload r) :
    r.payload.json = payload.json.canonical := by
  obtain ⟨header, headerSegment, payloadSegment, signature, hh, hps, h⟩ := h.accepted
  obtain ⟨segments, headerBytes, payloadBytes, signature', ha⟩ := accepted_of_parse h
  have hsplit := ha.split
  rw [splitOn_segments hh hps] at hsplit
  have hd := ha.payload
  rw [← (List.cons.inj (List.cons.inj hsplit).2).1] at hd
  have hbytes : payloadBytes = textEncode payload.json.serialize := by
    unfold canonicalSegment jcsCanonicalize at hps
    split_ifs at hps
    · rw [← Except.ok.inj hps] at hd
      exact decodeBase64Url_encode hd
    · cases hps
  have ht := ha.payloadValue.decoded
  rw [hbytes, CompactPayload.json, (textDecode_serialize_obj hp).2, Option.some.injEq] at ht
  rw [← ha.payloadValue.canonical]
  exact ((serialize_eq_iff hp ha.payloadValue.proper).mp ht).symm

omit [NumberFormat Double] in
/-- The fields of a payload are listed in their canonical order. -/
lemma canonical_payload (p : CompactPayload) :
    p.json.canonical = .obj (p.members.map fun m => (m.1, m.2.canonical)) := by
  have hkeys : (p.members.map Prod.fst).Pairwise UnitsLe := payloadKeys_sorted.2
  rw [CompactPayload.json, canonical_obj, (sorted_of_keys hkeys).insertionSort_eq]

omit [NumberFormat Double] in
lemma normal_of_member {members : List (JsString × Json Double)} (h : jcsNormal (.obj members) = true)
    {m : JsString × Json Double} (hm : m ∈ members) : jcsNormal m.2 = true := by
  rw [jcsNormal] at h
  induction members with
  | nil => cases hm
  | cons e members ih =>
    simp only [jcsNormalMembers, Bool.and_eq_true] at h
    rcases List.mem_cons.mp hm with rfl | hm
    · exact h.1.2
    · exact ih h.2 hm

omit [NumberFormat Double] in
lemma wellFormed_of_json {att : Attenuation} (hp : att.json.Proper) (hc : att.json.canonical = att.json)
    (hn : jcsNormal att.json = true) : WellFormed att := by
  have hmem : ∀ r ∈ att, (r.1, Json.obj (r.2.map fun a => (a.1, .arr a.2))) ∈
      att.map fun r => (r.1, Json.obj (r.2.map fun a => (a.1, .arr a.2))) :=
    fun r hr => List.mem_map.mpr ⟨r, hr, rfl⟩
  have hact : ∀ {r : JsString × List (JsString × List (Json Double))}, ∀ a ∈ r.2,
      (a.1, Json.arr a.2) ∈ r.2.map fun a => (a.1, Json.arr a.2) :=
    fun a ha => List.mem_map.mpr ⟨a, ha, rfl⟩
  cases hp with
  | obj hk hall =>
    refine ⟨?_, ?_, ?_, ?_⟩
    · have := (members_of_canonical hk hc).1
      rw [List.pairwise_map] at this
      exact this
    · rwa [List.map_map] at hk
    · intro r hr a ha
      exact normal_of_member (normal_of_member hn (hmem r hr)) (hact a ha)
    · intro r hr a ha
      have hobj := hall _ (hmem r hr)
      cases hobj with
      | obj _ hobj => exact hobj _ (hact a ha)

/-- An authorization that the parser returned. -/
def IsAccepted (C : CompactCrypto) (r : CompactUcanAuthorization) : Prop :=
  ∃ input expectedCid, parseCompactUcanAuthorization C input expectedCid = .ok r

lemma accepted_members {C : CompactCrypto} {r : CompactUcanAuthorization} (h : IsAccepted C r) :
    r.payload.json.Proper ∧ r.payload.json.canonical = r.payload.json ∧
      jcsNormal r.payload.json = true := by
  obtain ⟨input, expectedCid, h⟩ := h
  obtain ⟨segments, headerBytes, payloadBytes, signature, ha⟩ := accepted_of_parse h
  exact ⟨ha.payloadValue.proper, ha.payloadValue.canonical, ha.payloadValue.normal⟩

lemma wellFormed_of_accepted {C : CompactCrypto} {r : CompactUcanAuthorization} (h : IsAccepted C r) :
    WellFormed r.payload.att := by
  obtain ⟨hp, hc, hn⟩ := accepted_members h
  have hm : (js "att", r.payload.att.json) ∈ r.payload.members := by simp [CompactPayload.members]
  cases hp with
  | obj hk hall =>
    exact wellFormed_of_json (hall _ hm) ((members_of_canonical hk hc).2 _ hm) (normal_of_member hn hm)

lemma fact_of_accepted {C : CompactCrypto} {r : CompactUcanAuthorization} (h : IsAccepted C r) :
    (Json.obj r.payload.fct).Proper ∧ (Json.obj r.payload.fct).canonical = .obj r.payload.fct := by
  obtain ⟨hp, hc, -⟩ := accepted_members h
  have hm : (js "fct", Json.arr [.obj r.payload.fct]) ∈ r.payload.members := by
    simp [CompactPayload.members]
  cases hp with
  | obj hk hall =>
    have hcan := (members_of_canonical hk hc).2 _ hm
    simp only [canonical_arr, List.map_cons, List.map_nil, Json.arr.injEq, List.cons.injEq, and_true]
      at hcan
    have harr := hall _ hm
    cases harr with
    | arr harr => exact ⟨harr _ (by simp), hcan⟩

lemma authorization_of_parse {C : CompactCrypto} {input : JsString} {expectedCid : Option JsString}
    {r : CompactUcanAuthorization} (h : parseCompactUcanAuthorization C input expectedCid = .ok r) :
    r.authorization = input := by
  obtain ⟨_, _, _, _, ha⟩ := accepted_of_parse h
  exact ha.authorization

/-- The parser gives one answer for one input. -/
lemma payload_unique {C : CompactCrypto} {input : JsString} {cid cid' : Option JsString}
    {r r' : CompactUcanAuthorization} (h : parseCompactUcanAuthorization C input cid = .ok r)
    (h' : parseCompactUcanAuthorization C input cid' = .ok r') : r.payload = r'.payload := by
  obtain ⟨segments, headerBytes, payloadBytes, signature, ha⟩ := accepted_of_parse h
  obtain ⟨segments', headerBytes', payloadBytes', signature', ha'⟩ := accepted_of_parse h'
  have hs := ha.split
  rw [ha'.split] at hs
  have hb := ha.payload
  rw [← (List.cons.inj (List.cons.inj hs).2).1, ha'.payload] at hb
  cases hb
  have ht := ha.payloadValue.decoded
  rw [ha'.payloadValue.decoded] at ht
  have hj := ha.payloadValue.parsed
  rw [← Option.some.inj ht, ha'.payloadValue.parsed] at hj
  have hschema := ha.schema
  rw [← Option.some.inj hj, ha'.schema] at hschema
  exact (Option.some.inj hschema).symm

omit [NumberFormat Double] in
lemma proper_setMember {members : List (JsString × Json Double)} (h : (Json.obj members).Proper)
    (depth : Double) : (Json.obj (setMember members (depthKey, .num depth))).Proper :=
  @proper_foldl _ [(depthKey, .num depth)] members h (by simp [Json.Proper.num])

omit [NumberFormat Double] in
lemma proper_payload {p : CompactPayload} (ha : p.att.json.Proper) (hf : (Json.obj p.fct).Proper) :
    p.json.Proper := by
  have hkeys : (p.members.map Prod.fst).Nodup := payloadKeys_sorted.1
  refine .obj hkeys ?_
  simp only [CompactPayload.members, List.forall_mem_cons, List.not_mem_nil, false_implies,
    implies_true, and_true]
  refine ⟨ha, .str _, .num _, .arr (by simpa using hf), .str _, .num _, .str _, .arr ?_⟩
  intro v hv
  obtain ⟨s, -, rfl⟩ := List.mem_map.mp hv
  exact .str s

/-- What the claims of an accepted parent and the input make of a descendant. -/
structure Inherits (parent : CompactPayload) (input : CompactPolicyDescendantInput)
    (child : CompactPayload) (depth : Double) : Prop where
  remaining : remainingDepth parent.fct = some depth
  within : Within parent.att input.attenuation
  att : child.att.json = input.attenuation.json.canonical
  nbf : (input.now.getD parent.nbf.plusOne).max parent.nbf.plusOne = .finite child.nbf
  exp : (input.expiresAt.getD parent.exp.minusOne).min parent.exp.minusOne = .finite child.exp
  fct : ∃ depth', depth.minusOne = .finite depth' ∧
    .obj child.fct = (Json.obj (setMember parent.fct (depthKey, .num depth'))).canonical

omit [NumberFormat Double] in
lemma finiteNumber_eq_ok {a : JsNumber} {d : Double} (h : finiteNumber a = .ok d) : a = .finite d := by
  cases a with
  | finite b =>
    cases h
    rfl
  | nan | negInfinity | infinity => cases h

/-- What checked claims say about the parent they were read from. -/
structure Checked (parent : CompactPayload) (input : CompactPolicyDescendantInput)
    (claims : DescendantClaims) (depth : Double) : Prop where
  remaining : remainingDepth parent.fct = some depth
  contained : compactAttenuationContains parent.att input.attenuation = .ok true
  parentFact : claims.parentFact = parent.fct
  lowered : claims.depth = depth.minusOne
  notBefore : claims.notBefore = (input.now.getD parent.nbf.plusOne).max parent.nbf.plusOne
  expiresAt : claims.expiresAt = (input.expiresAt.getD parent.exp.minusOne).min parent.exp.minusOne

lemma checked_of_claims {C : CompactCrypto} {input : CompactPolicyDescendantInput}
    {claims : DescendantClaims} (h : compactPolicyDescendantClaims C input = .ok claims) :
    ∃ parent depth, parseCompactUcanAuthorization C input.parentAuthorization (some input.parentCid) =
      .ok parent ∧ Checked parent.payload input claims depth := by
  obtain ⟨parent, hparent, h⟩ := bind_eq_ok h
  obtain ⟨_, -, h⟩ := bind_eq_ok h
  obtain ⟨depth, hdepth, h⟩ := bind_eq_ok h
  obtain ⟨contained, hcont, h⟩ := bind_eq_ok h
  obtain ⟨_, hct, h⟩ := bind_eq_ok h
  obtain ⟨_, -, h⟩ := bind_eq_ok h
  have hcontained : contained = true := by simpa using throwIf_eq_ok hct
  cases h
  refine ⟨parent, depth, hparent, orThrow_eq_ok hdepth, hcontained ▸ hcont, ?_, ?_, ?_, ?_⟩
  all_goals dsimp only

/-- The fields of the payload that comes back. -/
lemma fields_of_signed {C : CompactCrypto} {input : CompactPolicyDescendantInput}
    {claims : DescendantClaims} {payload : CompactPayload} {r : CompactUcanAuthorization}
    (hp : payload.json.Proper) (h : Signed C input claims payload r) :
    r.payload.att.json = payload.att.json.canonical ∧ r.payload.nbf = payload.nbf ∧
      r.payload.exp = payload.exp ∧ Json.obj r.payload.fct = (Json.obj payload.fct).canonical := by
  have hjson := payload_of_signed hp h
  rw [canonical_payload, CompactPayload.json, Json.obj.injEq] at hjson
  simp only [CompactPayload.members, List.map_cons, List.map_nil, List.cons.injEq, Prod.mk.injEq,
    true_and, and_true, canonical_arr, Json.arr.injEq] at hjson
  obtain ⟨hatt, -, hexp, hfct, -, hnbf, -, -⟩ := hjson
  exact ⟨hatt, by simpa [Json.canonical] using hnbf, by simpa [Json.canonical] using hexp, hfct⟩

lemma inherits_of_descendant {C : CompactCrypto} {parent child : CompactUcanAuthorization}
    {input : CompactPolicyDescendantInput} (hp : IsAccepted C parent)
    (hi : input.parentAuthorization = parent.authorization) (h : IsDescendant C input child) :
    IsAccepted C child ∧ ∃ depth, Inherits parent.payload input child.payload depth := by
  obtain ⟨claims, payload, hclaims, hsigned⟩ := signed_of_descendant h
  obtain ⟨parent', depth, hparent, hchecked⟩ := checked_of_claims hclaims
  have hpayload : parent'.payload = parent.payload := by
    obtain ⟨text, cid, hacc⟩ := hp
    rw [hi, authorization_of_parse hacc] at hparent
    exact payload_unique hparent hacc
  rw [hpayload] at hchecked
  obtain ⟨exp, hexp, hbuilt⟩ := bind_eq_ok hsigned.built
  obtain ⟨depth', hdepth, hbuilt⟩ := bind_eq_ok hbuilt
  obtain ⟨nbf, hnbf, hbuilt⟩ := bind_eq_ok hbuilt
  have hfct : payload.fct = setMember parent.payload.fct (depthKey, .num depth') := by
    cases hbuilt
    rw [hchecked.parentFact]
  have hatt : payload.att = input.attenuation := by cases hbuilt; rfl
  have hn : payload.nbf = nbf := by cases hbuilt; rfl
  have he : payload.exp = exp := by cases hbuilt; rfl
  have hproper : payload.json.Proper :=
    proper_payload (hatt ▸ input.record) (hfct ▸ proper_setMember (fact_of_accepted hp).1 depth')
  obtain ⟨hratt, hrnbf, hrexp, hrfct⟩ := fields_of_signed hproper hsigned
  obtain ⟨header, headerSegment, payloadSegment, signature, -, -, hacc⟩ := hsigned.accepted
  refine ⟨⟨_, _, hacc⟩, depth, hchecked.remaining, within_of_contains hchecked.contained, ?_, ?_, ?_,
    depth', ?_, ?_⟩
  · rw [hratt, hatt]
  · rw [hrnbf, hn, ← hchecked.notBefore, finiteNumber_eq_ok hnbf]
  · rw [hrexp, he, ← hchecked.expiresAt, finiteNumber_eq_ok hexp]
  · rw [← hchecked.lowered, finiteNumber_eq_ok hdepth]
  · rw [hrfct, hfct]

/-- Adding or taking a second moves the window inwards, or the input moves it further; taking one
lowers the depth. -/
structure MovesInwards (parent : CompactPayload) (input : CompactPolicyDescendantInput) : Prop where
  start : ∃ a : Double, (parent.nbf.plusOne = .finite a ∨ input.now = some (.finite a)) ∧
    parent.nbf.units < a.units
  finish : ∃ a : Double, (parent.exp.minusOne = .finite a ∨ input.expiresAt = some (.finite a)) ∧
    a.units < parent.exp.units
  depth : ∀ a b, remainingDepth parent.fct = some a → a.minusOne = .finite b → b.units < a.units

omit [NumberFormat Double] in
/-- Below `2 ^ 53` every number moves. -/
theorem movesInwards_of_safe {parent : CompactPayload} (input : CompactPolicyDescendantInput)
    (hn : parent.nbf.IsSafe) (he : parent.exp.IsSafe)
    (hd : ∀ depth, remainingDepth parent.fct = some depth → depth.IsSafe) :
    MovesInwards parent input := by
  have hpos := units_pos
  refine ⟨?_, ?_, fun a b ha hb => ?_⟩
  · obtain ⟨a, ha, hu⟩ := Double.plusOne_of_safe hn
    exact ⟨a, .inl ha, by omega⟩
  · obtain ⟨a, ha, hu⟩ := Double.minusOne_of_safe he
    exact ⟨a, .inl ha, by omega⟩
  · obtain ⟨c, hc, hu⟩ := Double.minusOne_of_safe (hd a ha)
    rw [hc] at hb
    cases hb
    omega

/-- One link: a descendant of the previous one, by an input for which its numbers move. -/
def NarrowingLink (C : CompactCrypto) (parent child : CompactUcanAuthorization) : Prop :=
  ∃ input, MovesInwards parent.payload input ∧ input.parentAuthorization = parent.authorization ∧
    IsDescendant C input child

/-- Less authority in a smaller window, with the same facts. -/
structure Attenuates (earlier later : CompactUcanAuthorization) : Prop where
  contained : compactAttenuationContains earlier.payload.att later.payload.att = .ok true
  start : earlier.payload.nbf.units < later.payload.nbf.units
  finish : later.payload.exp.units < earlier.payload.exp.units
  facts : ∀ key ≠ depthKey, later.payload.fct.lookup key = earlier.payload.fct.lookup key

/-- What a link keeps, with the lowered depth. -/
structure Lowers (C : CompactCrypto) (parent child : CompactUcanAuthorization) : Prop where
  from_accepted : IsAccepted C parent
  accepted : IsAccepted C child
  attenuates : Attenuates parent child
  lowered : ∃ a b, remainingDepth parent.payload.fct = some a ∧
    child.payload.fct.lookup depthKey = some (.num b) ∧ b.units < a.units

lemma within_of_canonical {parent child : Attenuation} {att : Attenuation} (hp : att.json.Proper)
    (hc : child.json = att.json.canonical) (hw : WellFormed child) (h : Within parent att) :
    Within parent child := by
  intro resource hr action ha
  have hm : (resource.1, Json.obj (resource.2.map fun a => (a.1, .arr a.2))) ∈
      child.map fun r => (r.1, Json.obj (r.2.map fun a => (a.1, .arr a.2))) :=
    List.mem_map.mpr ⟨resource, hr, rfl⟩
  rw [Attenuation.json, Attenuation.json, canonical_obj, Json.obj.injEq] at hc
  rw [hc] at hm
  obtain ⟨m, hm, he⟩ := List.mem_map.mp hm
  obtain ⟨source, hs, rfl⟩ := List.mem_map.mp (keys_sorted.mem_iff.mp hm)
  simp only [canonical_obj, Prod.mk.injEq, Json.obj.injEq] at he
  have hact : (action.1, Json.arr action.2) ∈ resource.2.map fun a => (a.1, Json.arr a.2) :=
    List.mem_map.mpr ⟨action, ha, rfl⟩
  rw [← he.2] at hact
  obtain ⟨n, hn, hne⟩ := List.mem_map.mp hact
  obtain ⟨a, has, rfl⟩ := List.mem_map.mp (keys_sorted.mem_iff.mp hn)
  simp only [Prod.mk.injEq] at hne
  have hproper : (Json.arr a.2).Proper := by
    cases hp with
    | obj _ hall =>
      have hobj := hall _ (List.mem_map.mpr ⟨source, hs, rfl⟩)
      cases hobj with
      | obj _ hobj => exact hobj _ (List.mem_map.mpr ⟨a, has, rfl⟩)
  obtain ⟨g, hg, parentCaveats, hl, hcov⟩ := h source hs a has
  rw [← he.1, ← hne.1]
  refine ⟨g, hg, parentCaveats, hl, covers_congr hproper (hw.proper resource hr action ha) ?_ hcov⟩
  rw [← hne.2, serialize_canonical hproper]

omit [NumberFormat Double] in
/-- What a descendant's fact looks up. -/
lemma lookup_inherited {parent : CompactPayload} {child : List (JsString × Json Double)} {depth : Double}
    (hp : (Json.obj parent.fct).Proper) (hc : (Json.obj parent.fct).canonical = .obj parent.fct)
    (h : .obj child = (Json.obj (setMember parent.fct (depthKey, .num depth))).canonical)
    (k : JsString) :
    child.lookup k = if k = depthKey then some (.num depth) else parent.fct.lookup k := by
  rw [canonical_obj, Json.obj.injEq] at h
  have hproper := proper_setMember hp depth
  cases hproper with
  | obj hk _ =>
    rw [h, lookup_canonical hk, lookup_setMember]
    split_ifs with hkey
    · rfl
    · cases hp with
      | obj hkp _ =>
        cases hv : parent.fct.lookup k with
        | none => rfl
        | some v =>
          rw [Option.map_some, (members_of_canonical hkp hc).2 _ (mem_of_lookup hv)]

lemma window_inwards {parent child : CompactPayload} {input : CompactPolicyDescendantInput}
    {depth : Double} (hm : MovesInwards parent input) (h : Inherits parent input child depth) :
    parent.nbf.units < child.nbf.units ∧ child.exp.units < parent.exp.units := by
  obtain ⟨a, ha, hlt⟩ := hm.start
  obtain ⟨b, hb, hgt⟩ := hm.finish
  have hmax := JsNumber.finite_of_max h.nbf
  have hmin := JsNumber.finite_of_min h.exp
  constructor
  · rcases ha with ha | ha
    · have := hmax.2 a ha
      omega
    · have := hmax.1 a (by rw [ha]; rfl)
      omega
  · rcases hb with hb | hb
    · have := hmin.2 b hb
      omega
    · have := hmin.1 b (by rw [hb]; rfl)
      omega

lemma lowers_of_link {C : CompactCrypto} {parent child : CompactUcanAuthorization}
    (hp : IsAccepted C parent) (h : NarrowingLink C parent child) : Lowers C parent child := by
  obtain ⟨input, hm, hi, hd⟩ := h
  obtain ⟨hchild, depth, hinh⟩ := inherits_of_descendant hp hi hd
  obtain ⟨hstart, hfinish⟩ := window_inwards hm hinh
  obtain ⟨lowered, hminus, hfct⟩ := hinh.fct
  have hfact := fact_of_accepted hp
  have hlookup := lookup_inherited hfact.1 hfact.2 hfct
  have hw := wellFormed_of_accepted hchild
  refine ⟨hp, hchild, ⟨?_, hstart, hfinish, fun k hk => ?_⟩, depth, lowered, hinh.remaining, ?_, ?_⟩
  · exact contains_of_within (wellFormed_of_accepted hp) hw
      (within_of_canonical input.record hinh.att hw hinh.within)
  · rw [hlookup, if_neg hk]
  · rw [hlookup, if_pos rfl]
  · exact hm.depth _ _ hinh.remaining hminus

lemma attenuates_trans {C : CompactCrypto} {a b c : CompactUcanAuthorization} (ha : IsAccepted C a)
    (hb : IsAccepted C b) (hc : IsAccepted C c) (hab : Attenuates a b) (hbc : Attenuates b c) :
    Attenuates a c := by
  have wa := wellFormed_of_accepted ha
  have wb := wellFormed_of_accepted hb
  have wc := wellFormed_of_accepted hc
  refine ⟨contains_of_within wa wc (within_trans wa wb wc (within_of_contains hab.contained)
    (within_of_contains hbc.contained)), hab.start.trans hbc.start, hbc.finish.trans hab.finish, ?_⟩
  intro k hk
  rw [hbc.facts k hk, hab.facts k hk]

lemma isChain_lowers {C : CompactCrypto} {P : CompactUcanAuthorization}
    {links : List CompactUcanAuthorization} (hp : IsAccepted C P)
    (h : (P :: links).IsChain (NarrowingLink C)) : (P :: links).IsChain (Lowers C) := by
  induction links generalizing P with
  | nil => exact .singleton P
  | cons link links ih =>
    rw [List.isChain_cons_cons] at h ⊢
    have hl := lowers_of_link hp h.1
    exact ⟨hl, ih hl.accepted h.2⟩

/-- Later links attenuate every earlier one. -/
lemma pairwise_attenuates {C : CompactCrypto} {P : CompactUcanAuthorization}
    {links : List CompactUcanAuthorization} (hp : IsAccepted C P)
    (h : (P :: links).IsChain (Lowers C)) :
    (P :: links).Pairwise Attenuates ∧ ∀ link ∈ links, IsAccepted C link := by
  induction links generalizing P with
  | nil => exact ⟨List.pairwise_singleton _ _, by simp⟩
  | cons link links ih =>
    rw [List.isChain_cons_cons] at h
    obtain ⟨hpair, hacc⟩ := ih h.1.accepted h.2
    refine ⟨List.pairwise_cons.mpr ⟨fun later hl => ?_, hpair⟩, ?_⟩
    · rcases List.mem_cons.mp hl with rfl | hl
      · exact h.1.attenuates
      · exact attenuates_trans hp h.1.accepted (hacc later hl) h.1.attenuates
          ((List.pairwise_cons.mp hpair).1 later hl)
    · intro later hl
      rcases List.mem_cons.mp hl with rfl | hl
      · exact h.1.accepted
      · exact hacc later hl

omit [NumberFormat Double] in
lemma remainingDepth_eq {fact : List (JsString × Json Double)} {depth : Double}
    (h : remainingDepth fact = some depth) : fact.lookup depthKey = some (.num depth) ∧
      (UNITS : ℤ) ∣ depth.units ∧ 0 < depth.units := by
  unfold remainingDepth at h
  split at h
  next d hd =>
    split_ifs at h with hpos
    cases h
    simp only [Double.isInteger, Bool.and_eq_true, decide_eq_true_eq] at hpos
    exact ⟨hd, Int.dvd_of_emod_eq_zero hpos.1, hpos.2⟩
  · cases h

/-- Each link takes at least one from the depth. -/
lemma length_le_depth {C : CompactCrypto} {P : CompactUcanAuthorization}
    {links : List CompactUcanAuthorization} (h : (P :: links).IsChain (Lowers C)) (hne : links ≠ []) :
    ∃ depth, remainingDepth P.payload.fct = some depth ∧ (links.length * UNITS : ℕ) ≤ depth.units := by
  induction links generalizing P with
  | nil => exact absurd rfl hne
  | cons link links ih =>
    rw [List.isChain_cons_cons] at h
    obtain ⟨a, b, ha, hb, hlt⟩ := h.1.lowered
    obtain ⟨-, hdvd, hpos⟩ := remainingDepth_eq ha
    refine ⟨a, ha, ?_⟩
    cases links with
    | nil =>
      rw [List.length_singleton, Nat.one_mul]
      exact Int.le_of_dvd hpos hdvd
    | cons next rest =>
      obtain ⟨depth, hd, hle⟩ := ih h.2 (by simp)
      obtain ⟨hl, hdvd', -⟩ := remainingDepth_eq hd
      rw [hb] at hl
      cases hl
      have hstep := Int.le_of_dvd (by omega) (dvd_sub hdvd hdvd')
      rw [List.length_cons, Nat.succ_mul, Nat.cast_add]
      omega

/-- Along a chain whose numbers move, authority, windows and depth only shrink. -/
theorem descendants_attenuate {C : CompactCrypto} {P : CompactUcanAuthorization}
    {links : List CompactUcanAuthorization} (hp : IsAccepted C P)
    (h : (P :: links).IsChain (NarrowingLink C)) :
    (P :: links).Pairwise Attenuates ∧
      (links ≠ [] → ∃ depth, remainingDepth P.payload.fct = some depth ∧
        (links.length * UNITS : ℕ) ≤ depth.units) := by
  have hc := isChain_lowers hp h
  exact ⟨(pairwise_attenuates hp hc).1, length_le_depth hc⟩

end Build

section Samples

/-- The window of what was returned, and its depth. -/
def windowOf (r : Except String CompactUcanAuthorization) : Option (Double × Double × Option Double) :=
  r.toOption.map fun a => (a.payload.nbf, a.payload.exp, remainingDepth a.payload.fct)

def sampleDescendantInput (payload : CompactPayload) : CompactPolicyDescendantInput where
  parentAuthorization := sampleInput [] payload
  parentCid := sampleCrypto.cidOf (textEncode (sampleInput [] payload))
  issuerDid := sampleDid
  audienceDid := sampleDid
  attenuation := [(js "kv/a", [(js "get", [.obj []])])]
  record := by
    refine .obj (by simp) (List.forall_mem_singleton.mpr (.obj (by simp) ?_))
    exact List.forall_mem_singleton.mpr (.arr (List.forall_mem_singleton.mpr (.obj (by simp) (by simp))))
  now := none
  expiresAt := none
  nonce := some (js "m")
  random := []

def sampleChild (payload : CompactPayload) : Except String CompactUcanAuthorization :=
  @createCompactPolicyDescendant exactNumbers sampleCrypto (sampleDescendantInput payload)
    (List.replicate 32 1)

/-- A window from `2 ^ 53` on, where one more second is not another double. -/
def latePayload : CompactPayload where
  att := samplePayload.att
  aud := sampleDid
  exp := .whole 4503599627370506 1 (by decide) (by decide)
  fct := samplePayload.fct
  iss := sampleDid
  nbf := .whole 4503599627370496 1 (by decide) (by decide)
  nnc := js "n"
  prf := []

def sampleParent (payload : CompactPayload) : Except String CompactUcanAuthorization :=
  @parseCompactUcanAuthorization exactNumbers sampleCrypto (sampleInput [] payload) none

lemma result_of_window {r : Except String CompactUcanAuthorization} {nbf exp : Double}
    {depth : Option Double} (h : windowOf r = some (nbf, exp, depth)) :
    ∃ a, r = .ok a ∧ a.payload.nbf = nbf ∧ a.payload.exp = exp ∧
      remainingDepth a.payload.fct = depth := by
  cases r with
  | error e => cases h
  | ok a =>
    simp only [windowOf, Except.toOption, Option.map_some, Option.some.injEq, Prod.mk.injEq] at h
    exact ⟨a, rfl, h⟩

/-- The sample parent and its descendant, with both windows. -/
lemma sample_link {payload : CompactPayload} {nbf exp nbf' exp' : Double} {depth depth' : Option Double}
    (hp : windowOf (sampleParent payload) = some (nbf, exp, depth))
    (hc : windowOf (sampleChild payload) = some (nbf', exp', depth')) :
    ∃ P child, @IsAccepted exactNumbers sampleCrypto P ∧
      (sampleDescendantInput payload).parentAuthorization = P.authorization ∧
      @IsDescendant exactNumbers sampleCrypto (sampleDescendantInput payload) child ∧
      (P.payload.nbf = nbf ∧ P.payload.exp = exp ∧ remainingDepth P.payload.fct = depth) ∧
      child.payload.nbf = nbf' ∧ child.payload.exp = exp' := by
  obtain ⟨P, hP, hwindow⟩ := result_of_window hp
  obtain ⟨child, hchild, hn, he, -⟩ := result_of_window hc
  have ha := @authorization_of_parse exactNumbers _ _ _ _ hP
  exact ⟨P, child, ⟨_, _, hP⟩, ha.symm, .inl ⟨_, hchild⟩, hwindow, hn, he⟩

def sampleStart : Double := .whole 11 0 (by decide) unshifted
def sampleFinish : Double := .whole 19 0 (by decide) unshifted
def sampleDepth : Double := .whole 2 0 two_small unshifted
def sampleLowered : Double := .whole 1 0 one_small unshifted

theorem descendants_attenuate_sample : ∃ P child,
    [P, child].IsChain (@NarrowingLink exactNumbers sampleCrypto) ∧
      [P, child].Pairwise (@Attenuates exactNumbers) := by
  obtain ⟨P, child, hacc, hi, hd, ⟨hn, he, hdepth⟩, -⟩ := @sample_link samplePayload
    samplePayload.nbf samplePayload.exp sampleStart sampleFinish (some sampleDepth)
    (some sampleLowered) (by decide +kernel) (by decide +kernel)
  have hm : MovesInwards P.payload (sampleDescendantInput samplePayload) := by
    refine ⟨⟨sampleStart, .inl ?_, ?_⟩, ⟨sampleFinish, .inl ?_, ?_⟩, ?_⟩
    · rw [hn]
      decide +kernel
    · rw [hn]
      decide +kernel
    · rw [he]
      decide +kernel
    · rw [he]
      decide +kernel
    · intro a b ha hb
      rw [hdepth] at ha
      cases ha
      rw [(by decide +kernel : sampleDepth.minusOne = .finite sampleLowered)] at hb
      cases hb
      decide +kernel
  have hchain : [P, child].IsChain (@NarrowingLink exactNumbers sampleCrypto) := by
    rw [List.isChain_cons_cons]
    exact ⟨⟨_, hm, hi, hd⟩, .singleton child⟩
  exact ⟨P, child, hchain, (@descendants_attenuate exactNumbers _ _ _ hacc hchain).1⟩

/-- A descendant whose window is the window of its parent. -/
theorem late_window_kept : ∃ (P child : CompactUcanAuthorization) (input : CompactPolicyDescendantInput),
    @IsAccepted exactNumbers sampleCrypto P ∧ input.parentAuthorization = P.authorization ∧
      @IsDescendant exactNumbers sampleCrypto input child ∧
      ¬P.payload.nbf.units < child.payload.nbf.units ∧ ¬child.payload.exp.units < P.payload.exp.units := by
  obtain ⟨P, child, hacc, hi, hd, ⟨hn, he, -⟩, hn', he'⟩ := @sample_link latePayload latePayload.nbf
    latePayload.exp latePayload.nbf latePayload.exp (some sampleDepth) (some sampleLowered)
    (by decide +kernel) (by decide +kernel)
  refine ⟨P, child, _, hacc, hi, hd, ?_, ?_⟩
  · rw [hn, hn']
    exact lt_irrefl _
  · rw [he, he']
    exact lt_irrefl _

end Samples

end TinyCloud.Policy
