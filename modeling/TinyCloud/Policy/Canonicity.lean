import TinyCloud.Policy.Compact
import TinyCloud.Text.Decimal

/-!
# One encoding for one compact UCAN

The decoder drops a byte order mark before the text is compared with its canonical form. Apart from
marked segments an accepted input is the one canonical spelling of what it says.
-/

namespace TinyCloud.Policy

open TinyCloud.Text TinyCloud.Runs

section Encoding

variable [NumberFormat Double]

/-- Base64url of the UTF-8 of the canonical text. -/
def canonicalSegment (value : Json Double) : Except String JsString :=
  (jcsCanonicalize value).map fun text => encodeBase64Url (textEncode text)

/-- The header and payload segments are the canonical text of the returned header and payload. -/
def WrittenCanonically (input : JsString) (r : CompactUcanAuthorization) : Prop :=
  ∃ header payload signature, input.splitOn dot = [header, payload, signature] ∧
    canonicalSegment r.header.json = .ok header ∧ canonicalSegment r.payload.json = .ok payload

def segmentBytes (input : JsString) (i : ℕ) : Option Bytes :=
  (input.splitOn dot)[i]?.bind decodeBase64Url

/-- The bytes of a segment begin with a byte order mark. -/
def isMarked (input : JsString) (i : ℕ) : Bool :=
  (segmentBytes input i).any byteOrderMark.isPrefixOf

lemma canonicalSegment_eq {bytes : Bytes} {value : Json Double} (h : SegmentValue bytes value)
    (segment : JsString) : canonicalSegment value = .ok segment ↔
      encodeBase64Url (textEncode value.serialize) = segment := by
  rw [canonicalSegment, jcsCanonicalize, if_pos h.normal]
  simp only [Except.map, Except.ok.injEq]

/-- The bytes are the canonical ones, after the mark if there is one. -/
lemma bytes_of_segmentValue {bytes : Bytes} {value : Json Double} (h : SegmentValue bytes value) :
    bytes = (if byteOrderMark.isPrefixOf bytes then byteOrderMark else []) ++
      textEncode value.serialize := by
  have hs := textEncode_of_textDecode h.decoded
  unfold stripByteOrderMark at hs
  split_ifs at hs ⊢ with hm
  · obtain ⟨rest, rfl⟩ := List.isPrefixOf_iff_prefix.mp hm
    rw [hs]
    rfl
  · exact hs.symm

lemma segment_canonical_iff {segment : JsString} {bytes : Bytes} {value : Json Double}
    (hd : decodeBase64Url segment = some bytes) (h : SegmentValue bytes value) :
    canonicalSegment value = .ok segment ↔ byteOrderMark.isPrefixOf bytes = false := by
  have hb := bytes_of_segmentValue h
  rw [canonicalSegment_eq h, ← encodeBase64Url_of_decode hd, encodeBase64Url_injective.eq_iff]
  constructor
  · intro he
    by_contra hm
    rw [Bool.not_eq_false] at hm
    rw [hm, if_pos rfl, he] at hb
    have := congrArg List.length hb
    simp [byteOrderMark] at this
    omega
  · intro hm
    rw [hm] at hb
    exact hb.symm

lemma segmentBytes_eq {C : CompactCrypto} {input : JsString} {r : CompactUcanAuthorization}
    {segments : JsString × JsString × JsString} {headerBytes payloadBytes signature : Bytes}
    (h : Accepted C input r segments headerBytes payloadBytes signature) :
    segmentBytes input 0 = some headerBytes ∧ segmentBytes input 1 = some payloadBytes ∧
      segmentBytes input 2 = some signature := by
  refine ⟨?_, ?_, ?_⟩
  · rw [segmentBytes, h.split]
    exact h.header
  · rw [segmentBytes, h.split]
    exact h.payload
  · rw [segmentBytes, h.split]
    exact h.signature

lemma isMarked_eq {C : CompactCrypto} {input : JsString} {r : CompactUcanAuthorization}
    {segments : JsString × JsString × JsString} {headerBytes payloadBytes signature : Bytes}
    (h : Accepted C input r segments headerBytes payloadBytes signature) :
    isMarked input 0 = byteOrderMark.isPrefixOf headerBytes ∧
      isMarked input 1 = byteOrderMark.isPrefixOf payloadBytes := by
  obtain ⟨h0, h1, -⟩ := segmentBytes_eq h
  constructor
  · rw [isMarked, h0]
    rfl
  · rw [isMarked, h1]
    rfl

lemma writtenCanonically_iff {C : CompactCrypto} {input : JsString} {expectedCid : Option JsString}
    {r : CompactUcanAuthorization} (h : parseCompactUcanAuthorization C input expectedCid = .ok r) :
    WrittenCanonically input r ↔ isMarked input 0 = false ∧ isMarked input 1 = false := by
  obtain ⟨segments, headerBytes, payloadBytes, signature, ha⟩ := accepted_of_parse h
  obtain ⟨h0, h1⟩ := isMarked_eq ha
  rw [h0, h1, ← segment_canonical_iff ha.header ha.headerValue,
    ← segment_canonical_iff ha.payload ha.payloadValue]
  constructor
  · rintro ⟨header, payload, signature, hsplit, hh, hp⟩
    rw [ha.split] at hsplit
    cases hsplit
    exact ⟨hh, hp⟩
  · rintro ⟨hh, hp⟩
    exact ⟨_, _, _, ha.split, hh, hp⟩

/-- A segment is determined by its value and its mark. -/
lemma segment_eq {segment segment' : JsString} {bytes bytes' : Bytes} {value : Json Double}
    (hd : decodeBase64Url segment = some bytes) (hd' : decodeBase64Url segment' = some bytes')
    (h : SegmentValue bytes value) (h' : SegmentValue bytes' value)
    (hm : byteOrderMark.isPrefixOf bytes = byteOrderMark.isPrefixOf bytes') : segment = segment' := by
  rw [← encodeBase64Url_of_decode hd, ← encodeBase64Url_of_decode hd', bytes_of_segmentValue h,
    bytes_of_segmentValue h', hm]

/-- An accepted input is canonical exactly when no segment is marked; two accepted inputs that say the
same are equal exactly when the same segments are marked. -/
theorem one_encoding {C : CompactCrypto} {input input' : JsString} {cid cid' : Option JsString}
    {r r' : CompactUcanAuthorization} (h : parseCompactUcanAuthorization C input cid = .ok r)
    (h' : parseCompactUcanAuthorization C input' cid' = .ok r') :
    (WrittenCanonically input r ↔ isMarked input 0 = false ∧ isMarked input 1 = false) ∧
    (r.header = r'.header → r.payload = r'.payload → segmentBytes input 2 = segmentBytes input' 2 →
      ((input = input' ∧ r.cid = r'.cid) ↔
        isMarked input 0 = isMarked input' 0 ∧ isMarked input 1 = isMarked input' 1)) := by
  refine ⟨writtenCanonically_iff h, fun hh hp hs => ?_⟩
  obtain ⟨segments, headerBytes, payloadBytes, signature, ha⟩ := accepted_of_parse h
  obtain ⟨segments', headerBytes', payloadBytes', signature', ha'⟩ := accepted_of_parse h'
  constructor
  · rintro ⟨rfl, -⟩
    exact ⟨rfl, rfl⟩
  · rintro ⟨hm0, hm1⟩
    rw [(isMarked_eq ha).1, (isMarked_eq ha').1] at hm0
    rw [(isMarked_eq ha).2, (isMarked_eq ha').2] at hm1
    rw [(segmentBytes_eq ha).2.2, (segmentBytes_eq ha').2.2, Option.some.injEq] at hs
    have h0 := segment_eq ha.header ha'.header (hh ▸ ha.headerValue) ha'.headerValue hm0
    have h1 := segment_eq ha.payload ha'.payload (hp ▸ ha.payloadValue) ha'.payloadValue hm1
    have h2 : segments.2.2 = segments'.2.2 := by
      rw [← encodeBase64Url_of_decode ha.signature, ← encodeBase64Url_of_decode ha'.signature, hs]
    have hinput : input = input' := by
      rw [← @List.intercalate_splitOn _ input _ _ dot, ← @List.intercalate_splitOn _ input' _ _ dot,
        ha.split, ha'.split, h0, h1, h2]
    refine ⟨hinput, ?_⟩
    rw [ha.cid, ha'.cid, hinput]

end Encoding

section Samples

/-- `z6MkeTG3bFFSLYVU7VqhgZxqr6YzpaGrQtFMh1uvqGy1vDnP` -/
def sampleKey : JsString :=
  [122, 54, 77, 107, 101, 84, 71, 51, 98, 70, 70, 83, 76, 89, 86, 85, 55, 86, 113, 104, 103, 90,
    120, 113, 114, 54, 89, 122, 112, 97, 71, 114, 81, 116, 70, 77, 104, 49, 117, 118, 113, 71, 121,
    49, 118, 68, 110, 80]

def samplePublicKey : Bytes := List.replicate 32 0

/-- One key pair, and one signature that is taken for any of its messages. -/
def sampleCrypto : CompactCrypto where
  base58Decode s := if s = sampleKey then some (0xED :: 0x01 :: samplePublicKey) else none
  getPublicKey key := if key = List.replicate 32 1 then some samplePublicKey else none
  sign _ _ := some (List.replicate 64 7)
  verify signature _ key := some (signature == List.replicate 64 7 && key == samplePublicKey)
  cidOf bytes := bytes.map fun b => b.toUInt16

def sampleDid : JsString := didKeyPrefix ++ sampleKey

def sampleHeader : CompactHeader := ⟨encodeBase64Url samplePublicKey⟩

def samplePayload : CompactPayload where
  att := [(js "kv/a", [(js "get", [.obj []])])]
  aud := sampleDid
  exp := .whole 20 0 (by decide) unshifted
  fct := [(js "remainingRedelegationDepth", .num (.whole 2 0 two_small unshifted))]
  iss := sampleDid
  nbf := .whole 10 0 (by decide) unshifted
  nnc := js "n"
  prf := []

/-- The sample with the given bytes before its header. -/
def sampleInput (mark : Bytes) (payload : CompactPayload) : JsString :=
  encodeBase64Url (mark ++ textEncode (@Json.serialize _ exactNumbers sampleHeader.json)) ++
    dot :: (encodeBase64Url (textEncode (@Json.serialize _ exactNumbers payload.json)) ++
      dot :: encodeBase64Url (List.replicate 64 7))

theorem unmarked_sample_canonical : ∃ r,
    @parseCompactUcanAuthorization exactNumbers sampleCrypto (sampleInput [] samplePayload) none = .ok r ∧
      @WrittenCanonically exactNumbers (sampleInput [] samplePayload) r := by
  obtain ⟨r, h⟩ := eq_ok_of_isOk (by decide +kernel : (@parseCompactUcanAuthorization exactNumbers
    sampleCrypto (sampleInput [] samplePayload) none).isOk = true)
  exact ⟨r, h, (@one_encoding exactNumbers _ _ _ _ _ _ _ h h).1.mpr (by decide +kernel)⟩

/-- A marked header is accepted and returned, and is not written canonically. -/
theorem marked_header_accepted : ∃ input r,
    @parseCompactUcanAuthorization exactNumbers sampleCrypto input none = .ok r ∧
      ¬@WrittenCanonically exactNumbers input r := by
  obtain ⟨r, h⟩ := eq_ok_of_isOk (by decide +kernel : (@parseCompactUcanAuthorization exactNumbers
    sampleCrypto (sampleInput byteOrderMark samplePayload) none).isOk = true)
  refine ⟨_, r, h, fun hw => ?_⟩
  have hm : isMarked (sampleInput byteOrderMark samplePayload) 0 = true := by decide +kernel
  rw [((@writtenCanonically_iff exactNumbers _ _ _ _ h).mp hw).1] at hm
  cases hm

end Samples

end TinyCloud.Policy
