import TinyCloud.Text.Canonical
import TinyCloud.Text.Decimal

/-! How the sealed store writes a record and a content as bytes, before they are encrypted, and reads them back. -/

namespace TinyCloud.Codec

open TinyCloud.Text

section Values

/-- What a record may be built from. An array has no holes, and the fields of an object stand in the order in which
`Object.entries` lists them. -/
inductive RecordValue (N : Type) where
  | undefined
  | null
  | bool (b : Bool)
  | num (n : N)
  | nonFinite
  | str (s : JsString)
  | bytes (content : Bytes)
  | arr (items : List (RecordValue N))
  | obj (fields : List (JsString × RecordValue N))
  | unsupported

/-- The value is written at all, and no object has two fields of one name. -/
inductive RecordValue.Storable {N : Type} : RecordValue N → Prop
  | undefined : Storable .undefined
  | null : Storable .null
  | bool (b : Bool) : Storable (.bool b)
  | num (n : N) : Storable (.num n)
  | str (s : JsString) : Storable (.str s)
  | bytes (content : Bytes) : Storable (.bytes content)
  | arr {items : List (RecordValue N)} (h : ∀ v ∈ items, v.Storable) : Storable (.arr items)
  | obj {fields : List (JsString × RecordValue N)} (hk : (fields.map Prod.fst).Nodup)
      (h : ∀ f ∈ fields, f.2.Storable) : Storable (.obj fields)

def isLowerHexUnit (u : CodeUnit) : Bool := isDigit u || decide (97 ≤ u.toNat ∧ u.toNat ≤ 102)

/-- `/^(?:[0-9a-f]{2})*$/` -/
def isHexPairs (s : JsString) : Bool := s.length % 2 == 0 && s.all isLowerHexUnit

/-- The conversions of the hash library. -/
structure HexCodec where
  bytesToHex : Bytes → JsString
  hexToBytes : JsString → Bytes

/-- Bytes are written as pairs of lower-case digits, and these are read back. -/
structure HexCodec.Standard (hex : HexCodec) : Prop where
  pairs (content : Bytes) : isHexPairs (hex.bytesToHex content) = true
  reads (content : Bytes) : hex.hexToBytes (hex.bytesToHex content) = content

end Values

section Codec

variable {N : Type} (hex : HexCodec)

def tagged (tag : String) (payload : List (Json N)) : Json N := .arr (.str (js tag) :: payload)

mutual
def encodeValue : RecordValue N → Except String (Json N)
  | .undefined => .ok (tagged "undefined" [])
  | .bytes content => .ok (tagged "bytes" [.str (hex.bytesToHex content)])
  | .arr items => (encodeItems items).map fun items => tagged "array" [.arr items]
  | .obj fields => (encodeFields fields).map fun fields => tagged "object" [.arr fields]
  | .nonFinite => .error "A replica record contains a non-finite number."
  | .null => .ok .null
  | .str s => .ok (.str s)
  | .num n => .ok (.num n)
  | .bool b => .ok (.bool b)
  | .unsupported => .error "A replica record contains an unsupported value."
def encodeItems : List (RecordValue N) → Except String (List (Json N))
  | [] => .ok []
  | v :: items => do
    let v ← encodeValue v
    let items ← encodeItems items
    .ok (v :: items)
def encodeFields : List (JsString × RecordValue N) → Except String (List (Json N))
  | [] => .ok []
  | (k, v) :: fields => do
    let v ← encodeValue v
    let fields ← encodeFields fields
    .ok (.arr [.str k, v] :: fields)
end

def invalidVariant : String := "The replica record has an invalid payload variant."

mutual
/-- No two fields have one name, so `Object.fromEntries` leaves them as they are. -/
def decodeValue : Json N → Except String (RecordValue N)
  | .null => .ok .null
  | .str s => .ok (.str s)
  | .bool b => .ok (.bool b)
  | .num n => .ok (.num n)
  | .arr [.str tag] => if tag = js "undefined" then .ok .undefined else .error invalidVariant
  | .arr [.str tag, .str text] =>
    if tag = js "bytes" ∧ isHexPairs text then .ok (.bytes (hex.hexToBytes text)) else .error invalidVariant
  | .arr [.str tag, .arr items] =>
    if tag = js "array" then (decodeItems items).map .arr
    else if tag = js "object" then (decodeFields [] items).map .obj
    else .error invalidVariant
  | _ => .error invalidVariant
def decodeItems : List (Json N) → Except String (List (RecordValue N))
  | [] => .ok []
  | v :: items => do
    let v ← decodeValue v
    let items ← decodeItems items
    .ok (v :: items)
def decodeFields (seen : List JsString) : List (Json N) → Except String (List (JsString × RecordValue N))
  | [] => .ok []
  | .arr [.str k, v] :: pairs =>
    if k ∈ seen then .error "The replica record has an invalid object field."
    else do
      let v ← decodeValue v
      let fields ← decodeFields (k :: seen) pairs
      .ok ((k, v) :: fields)
  | _ :: _ => .error "The replica record has an invalid object field."
end

variable [NumberFormat N] [DecidableEq N] [One N]

/-- What is written has no objects, so its text is the one of `JSON.stringify`. -/
def encodeJson (value : RecordValue N) : Except String Bytes :=
  (encodeValue hex value).map fun v =>
    textEncode (Json.arr [.str (js "tinycloud-replica-kv"), .num 1, v]).serialize

def decodeJson (bytes : Bytes) : Except String (RecordValue N) :=
  match (textDecode bytes).bind parseJson with
  | none => .error "The replica record payload is corrupt."
  | some (Json.arr [.str format, .num version, v]) =>
    if format = js "tinycloud-replica-kv" ∧ version = 1 then decodeValue hex v
    else .error "The replica record has an unknown payload version."
  | some _ => .error "The replica record has an unknown payload version."

def HASH_BYTES : ℕ := 64

/-- `/^[0-9a-f]{64}$/` -/
def isContentHash (hash : JsString) : Bool := hash.length == 64 && hash.all isLowerHexUnit

def encodeBlob (hash : JsString) (bytes : Bytes) : Except String Bytes :=
  if isContentHash hash then .ok (textEncode hash ++ bytes)
  else .error "Invalid content hash in the replica record."

/-- Bytes that are not UTF-8 throw the decoder's own error. -/
def decodeBlob (content : Bytes) : Except String (JsString × Bytes) :=
  if content.length < HASH_BYTES then .error "The replica content record is truncated."
  else
    match textDecode (content.take HASH_BYTES) with
    | none => .error "TypeError"
    | some hash =>
      if isContentHash hash then .ok (hash, content.drop HASH_BYTES)
      else .error "Invalid content hash in the replica record."

end Codec

section Lossless

variable {N : Type} {hex : HexCodec}

/-- Texts without any object. -/
inductive Listed : Json N → Prop
  | null : Listed .null
  | bool (b : Bool) : Listed (.bool b)
  | num (n : N) : Listed (.num n)
  | str (s : JsString) : Listed (.str s)
  | arr {items : List (Json N)} (h : ∀ v ∈ items, Listed v) : Listed (.arr items)

lemma Listed.proper {v : Json N} (h : Listed v) : v.Proper := by
  induction h with
  | null => exact .null
  | bool b => exact .bool b
  | num n => exact .num n
  | str s => exact .str s
  | arr _ ih => exact .arr ih

lemma Listed.canonical {v : Json N} (h : Listed v) : v.canonical = v := by
  induction h with
  | null | bool | num | str => rfl
  | arr _ ih =>
    rw [canonical_arr]
    congr 1
    exact (List.map_congr_left ih).trans (List.map_id' _)

lemma Listed.tagged {payload : List (Json N)} (tag : String) (h : ∀ v ∈ payload, Listed v) :
    Listed (tagged tag payload) :=
  .arr (List.forall_mem_cons.mpr ⟨.str _, h⟩)

/-- The written form of a value, which has no objects and is read as the value. -/
def Encodes (hex : HexCodec) (v : RecordValue N) (written : Json N) : Prop :=
  encodeValue hex v = .ok written ∧ Listed written ∧ decodeValue hex written = .ok v

lemma encodes_items {items : List (RecordValue N)} (h : ∀ v ∈ items, ∃ written, Encodes hex v written) :
    ∃ written, encodeItems hex items = .ok written ∧ (∀ w ∈ written, Listed w) ∧
      decodeItems hex written = .ok items := by
  induction items with
  | nil => exact ⟨[], rfl, by simp, rfl⟩
  | cons v items ih =>
    obtain ⟨hv, hitems⟩ := List.forall_mem_cons.mp h
    obtain ⟨w, hw, hlisted, hread⟩ := hv
    obtain ⟨written, hwritten, hall, hreads⟩ := ih hitems
    refine ⟨w :: written, ?_, List.forall_mem_cons.mpr ⟨hlisted, hall⟩, ?_⟩
    · rw [encodeItems, hw, hwritten]
      rfl
    · rw [decodeItems, hread, hreads]
      rfl

/-- The fields are read back with their names, whichever these are. -/
lemma encodes_fields {fields : List (JsString × RecordValue N)} (seen : List JsString)
    (hk : (fields.map Prod.fst).Nodup) (hseen : ∀ f ∈ fields, f.1 ∉ seen)
    (h : ∀ f ∈ fields, ∃ written, Encodes hex f.2 written) :
    ∃ written, encodeFields hex fields = .ok written ∧ (∀ w ∈ written, Listed w) ∧
      decodeFields hex seen written = .ok fields := by
  induction fields generalizing seen with
  | nil => exact ⟨[], rfl, by simp, rfl⟩
  | cons f fields ih =>
    obtain ⟨k, v⟩ := f
    obtain ⟨hv, hfields⟩ := List.forall_mem_cons.mp h
    obtain ⟨hnew, hrest⟩ := List.forall_mem_cons.mp hseen
    obtain ⟨hfresh, hk⟩ := List.nodup_cons.mp hk
    obtain ⟨w, hw, hlisted, hread⟩ := hv
    have hseen' : ∀ f ∈ fields, f.1 ∉ k :: seen := by
      intro f hf hmem
      rcases List.mem_cons.mp hmem with rfl | hmem
      · exact hfresh (List.mem_map.mpr ⟨f, hf, rfl⟩)
      · exact hrest f hf hmem
    obtain ⟨written, hwritten, hall, hreads⟩ := ih (k :: seen) hk hseen' hfields
    refine ⟨.arr [.str k, w] :: written, ?_, List.forall_mem_cons.mpr ⟨.arr (by simp [Listed.str, hlisted]), hall⟩, ?_⟩
    · rw [encodeFields, hw, hwritten]
      rfl
    · rw [decodeFields, if_neg hnew, hread, hreads]
      rfl

lemma encodes (std : hex.Standard) {v : RecordValue N} (h : v.Storable) : ∃ written, Encodes hex v written := by
  induction h with
  | undefined => exact ⟨_, rfl, .tagged _ (by simp), rfl⟩
  | null => exact ⟨_, rfl, .null, rfl⟩
  | bool b => exact ⟨_, rfl, .bool b, rfl⟩
  | num n => exact ⟨_, rfl, .num n, rfl⟩
  | str s => exact ⟨_, rfl, .str s, rfl⟩
  | bytes content =>
    refine ⟨_, rfl, .tagged _ (by simp [Listed.str]), ?_⟩
    rw [tagged, decodeValue, if_pos ⟨rfl, std.pairs content⟩, std.reads]
  | arr _ ih =>
    obtain ⟨written, hwritten, hall, hreads⟩ := encodes_items ih
    refine ⟨tagged "array" [.arr written], ?_, .tagged _ (by simpa using Listed.arr hall), ?_⟩
    · rw [encodeValue, hwritten]
      rfl
    · rw [tagged, decodeValue, if_pos rfl, hreads]
      rfl
  | obj hk _ ih =>
    obtain ⟨written, hwritten, hall, hreads⟩ := encodes_fields [] hk (by simp) ih
    refine ⟨tagged "object" [.arr written], ?_, .tagged _ (by simpa using Listed.arr hall), ?_⟩
    · rw [encodeValue, hwritten]
      rfl
    · rw [tagged, decodeValue, if_neg (by decide), if_pos rfl, hreads]
      rfl

variable [NumberFormat N]

/-- The text of an array begins with a bracket, so its bytes carry no byte order mark. -/
lemma textDecode_arr {items : List (Json N)} (h : Listed (.arr items)) :
    textDecode (textEncode (Json.arr items).serialize) = some (Json.arr items).serialize := by
  apply textDecode_of_unmarked (scalar_serialize h.proper)
  have hp : IsScalar 91 := .inl (by decide)
  have hu : pointUnits 91 = [91] := by decide
  have he := textEncode_point hp (joinComma (items.map Json.serialize) ++ [93])
  rw [hu, List.singleton_append] at he
  rw [serialize_arr, he, (by decide : pointBytes 91 = [91])]
  rfl

variable [DecidableEq N] [One N]

lemma decodeJson_encodeJson (std : hex.Standard) {v : RecordValue N} (h : v.Storable) :
    ∃ bytes, encodeJson hex v = .ok bytes ∧ decodeJson hex bytes = .ok v := by
  obtain ⟨written, hwritten, hlisted, hread⟩ := encodes std h
  have hwhole : Listed (Json.arr [.str (js "tinycloud-replica-kv"), .num (1 : N), written]) :=
    .arr (by simp [Listed.str, Listed.num, hlisted])
  refine ⟨_, by rw [encodeJson, hwritten]; rfl, ?_⟩
  rw [decodeJson, textDecode_arr hwhole, Option.bind_some, parseJson_serialize hwhole.proper, hwhole.canonical]
  simp only [and_self, if_true, hread]

end Lossless

section Content

lemma textEncode_ascii {s : JsString} (h : ∀ u ∈ s, u.toNat < 0x80) :
    textEncode s = s.map fun u => UInt8.ofNat u.toNat := by
  induction s with
  | nil => rfl
  | cons u s ih =>
    obtain ⟨hu, hs⟩ := List.forall_mem_cons.mp h
    have hunits : pointUnits u.toNat = [u] := by rw [pointUnits, if_pos (by omega), UInt16.ofNat_toNat]
    have he := textEncode_point (p := u.toNat) (.inl (by omega)) s
    rw [hunits, List.singleton_append] at he
    rw [he, pointBytes, if_pos hu, ih hs, List.map_cons, List.singleton_append]

/-- A text of ASCII units is as long in bytes, begins with no byte order mark and is read back. -/
lemma textDecode_ascii {s : JsString} (h : ∀ u ∈ s, u.toNat < 0x80) : textDecode (textEncode s) = some s := by
  apply textDecode_of_unmarked (scalar_plain fun u hu => (h u hu).trans (by omega))
  rw [textEncode_ascii h]
  cases s with
  | nil => rfl
  | cons u s =>
    have hu := h u List.mem_cons_self
    have hbyte : (UInt8.ofNat u.toNat).toNat = u.toNat := byte_toNat (by omega)
    have hne : (0xEF == UInt8.ofNat u.toNat) = false := by
      rw [beq_eq_false_iff_ne]
      intro heq
      have hval := congrArg UInt8.toNat heq
      rw [hbyte] at hval
      have hmark : (0xEF : UInt8).toNat = 239 := rfl
      omega
    simp only [byteOrderMark, List.map_cons, List.isPrefixOf_cons_cons, hne, Bool.false_and]

lemma ascii_of_hash {hash : JsString} (h : isContentHash hash = true) :
    hash.length = 64 ∧ ∀ u ∈ hash, u.toNat < 0x80 := by
  simp only [isContentHash, Bool.and_eq_true, beq_iff_eq, List.all_eq_true] at h
  refine ⟨h.1, fun u hu => ?_⟩
  have hunit := h.2 u hu
  simp only [isLowerHexUnit, isDigit, Bool.or_eq_true, decide_eq_true_eq] at hunit
  omega

lemma decodeBlob_encodeBlob {hash : JsString} (h : isContentHash hash = true) (bytes : Bytes) :
    ∃ content, encodeBlob hash bytes = .ok content ∧ decodeBlob content = .ok (hash, bytes) := by
  obtain ⟨hlength, hascii⟩ := ascii_of_hash h
  have hsize : (textEncode hash).length = HASH_BYTES := by
    rw [textEncode_ascii hascii, List.length_map, hlength]
    rfl
  refine ⟨textEncode hash ++ bytes, by rw [encodeBlob, if_pos h], ?_⟩
  rw [decodeBlob, if_neg (by rw [List.length_append]; omega), List.take_left' hsize, List.drop_left' hsize,
    textDecode_ascii hascii]
  simp only [if_pos h]

end Content

section Claims

variable {N : Type} [NumberFormat N] [DecidableEq N] [One N]

/-- Every value and every content comes back as it was written, and no two values are written alike. -/
theorem codec_lossless (hex : HexCodec) (std : hex.Standard) :
    (∀ v : RecordValue N, v.Storable → ∃ bytes, encodeJson hex v = .ok bytes ∧ decodeJson hex bytes = .ok v) ∧
      (∀ v w : RecordValue N, v.Storable → w.Storable → encodeJson hex v = encodeJson hex w → v = w) ∧
      ∀ (hash : JsString) (bytes : Bytes), isContentHash hash = true →
        ∃ content, encodeBlob hash bytes = .ok content ∧ decodeBlob content = .ok (hash, bytes) := by
  refine ⟨fun v hv => decodeJson_encodeJson std hv, fun v w hv hw heq => ?_,
    fun hash bytes h => decodeBlob_encodeBlob h bytes⟩
  obtain ⟨bytes, hwritten, hread⟩ := decodeJson_encodeJson std hv
  obtain ⟨bytes', hwritten', hread'⟩ := decodeJson_encodeJson std hw
  rw [hwritten, hwritten'] at heq
  cases heq
  rw [hread] at hread'
  exact Except.ok.inj hread'

end Claims

section Sample

def hexPair (b : UInt8) : JsString := [hexDigit (b.toNat / 16), hexDigit (b.toNat % 16)]

def pairBytes : JsString → Bytes
  | a :: b :: rest => UInt8.ofNat ((hexValue a).getD 0 * 16 + (hexValue b).getD 0) :: pairBytes rest
  | _ => []

def plainHex : HexCodec where
  bytesToHex content := content.flatMap hexPair
  hexToBytes := pairBytes

lemma isLowerHexUnit_hexDigit : ∀ n < 16, isLowerHexUnit (hexDigit n) = true := by
  decide

lemma plainHex_standard : plainHex.Standard where
  pairs content := by
    simp only [isHexPairs, plainHex, Bool.and_eq_true, beq_iff_eq]
    induction content with
    | nil => exact ⟨rfl, rfl⟩
    | cons b content ih =>
      have hb := b.toNat_lt
      have hhigh := isLowerHexUnit_hexDigit (b.toNat / 16) (by omega)
      have hlow := isLowerHexUnit_hexDigit (b.toNat % 16) (by omega)
      rw [List.flatMap_cons, List.length_append, List.all_append, ih.2, Bool.and_true]
      refine ⟨?_, by simp [hexPair, hhigh, hlow]⟩
      rw [hexPair, List.length_cons, List.length_singleton]
      omega
  reads content := by
    simp only [plainHex]
    induction content with
    | nil => rfl
    | cons b content ih =>
      have hb := b.toNat_lt
      rw [List.flatMap_cons, hexPair, List.cons_append, List.singleton_append, pairBytes, ih,
        hexValue_hexDigit _ (by omega), hexValue_hexDigit _ (by omega), Option.getD_some, Option.getD_some,
        Nat.div_add_mod' b.toNat 16, UInt8.ofNat_toNat]

/-- User data that looks like the codec's own tags. -/
def taggedSample : RecordValue Double :=
  .obj [(js "__proto__", .arr [.str (js "bytes"), .str (js "00")]), (js "array", .undefined),
    (js "0", .bytes [0, 255])]

theorem codec_lossless_sample : ∃ bytes, @encodeJson Double plainHex exactNumbers ⟨.whole 1 0 (by decide) (by decide)⟩
      taggedSample = .ok bytes ∧
    @decodeJson Double plainHex exactNumbers _ ⟨.whole 1 0 (by decide) (by decide)⟩ bytes = .ok taggedSample := by
  refine (@codec_lossless Double exactNumbers _ ⟨.whole 1 0 (by decide) (by decide)⟩ plainHex plainHex_standard).1
    taggedSample (.obj (by decide) ?_)
  rintro f (_ | ⟨_, _ | ⟨_, _ | ⟨_, ⟨⟩⟩⟩⟩)
  · exact .arr (by simp [RecordValue.Storable.str])
  · exact .undefined
  · exact .bytes _

end Sample

end TinyCloud.Codec
