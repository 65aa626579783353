import TinyCloud.Runs.Fallible
import TinyCloud.Text.Utf
import Mathlib.Data.List.Basic
import Mathlib.Tactic.Common

/-!
# Encryption resources

Bare networks, named keys and key prefixes: their parser and the containment of one in another.
The checksummed spelling of an address is a parameter.
-/

namespace TinyCloud.Capability

open TinyCloud.Text

def isDecimal (u : CodeUnit) : Bool := decide (48 ≤ u.toNat ∧ u.toNat ≤ 57)
def isLower (u : CodeUnit) : Bool := decide (97 ≤ u.toNat ∧ u.toNat ≤ 122)
def isUpper (u : CodeUnit) : Bool := decide (65 ≤ u.toNat ∧ u.toNat ≤ 90)
def isHex (u : CodeUnit) : Bool :=
  isDecimal u || decide (97 ≤ u.toNat ∧ u.toNat ≤ 102) || decide (65 ≤ u.toNat ∧ u.toNat ≤ 70)

/-- `.`, `_` or `-` -/
def isJoint (u : CodeUnit) : Bool := u == 46 || u == 95 || u == 45

def colon : CodeUnit := 58
def slash : CodeUnit := 47

def ENCRYPTION_NETWORK_URN_PREFIX : JsString := js "urn:tinycloud:encryption:"
def PKH_EIP155_PREFIX : JsString := js "did:pkh:eip155:"
def MAX_PATH_BYTES : ℕ := 255
def MAX_U64 : ℕ := 18446744073709551615

/-- The text before and after the first `u`. -/
def splitFirst (u : CodeUnit) : JsString → Option (JsString × JsString)
  | [] => none
  | v :: s => if v = u then some ([], s) else (splitFirst u s).map fun p => (v :: p.1, p.2)

/-- The text before and after the last `u`. -/
def splitLast (u : CodeUnit) : JsString → Option (JsString × JsString)
  | [] => none
  | v :: s =>
    match splitLast u s with
    | some p => some (v :: p.1, p.2)
    | none => if v = u then some ([], s) else none

/-- `[a-z0-9][a-z0-9._-]{0,63}` -/
def matchesSegment : JsString → Bool
  | [] => false
  | u :: s => (isLower u || isDecimal u) && decide (s.length ≤ 63) &&
      s.all fun v => isLower v || isDecimal v || isJoint v

/-- `[A-Za-z0-9][A-Za-z0-9._-]{0,63}` -/
def matchesKeyNetwork : JsString → Bool
  | [] => false
  | u :: s => (isLower u || isUpper u || isDecimal u) && decide (s.length ≤ 63) &&
      s.all fun v => isLower v || isUpper v || isDecimal v || isJoint v

/-- `[a-z0-9][a-z0-9-]*` -/
def matchesNetworkName : JsString → Bool
  | [] => false
  | u :: s => (isLower u || isDecimal u) && s.all fun v => isLower v || isDecimal v || v == 45

/-- One to eight segments joined by `/`. -/
def matchesKeyPath (path : JsString) : Bool :=
  (path.splitOn slash).all matchesSegment && decide ((path.splitOn slash).length ≤ 8)

/-- `did:[a-z0-9]+:[A-Za-z0-9._:-]+` -/
def matchesOwner (owner : JsString) : Bool :=
  (js "did:").isPrefixOf owner &&
    match splitFirst colon (owner.drop 4) with
    | none => false
    | some (method, id) => method != [] && (method.all fun v => isLower v || isDecimal v) &&
        id != [] && id.all fun v => isLower v || isUpper v || isDecimal v || isJoint v || v == colon

inductive EncryptionResourceErrorCode where
  | not_encryption_urn | malformed | bad_owner | non_canonical_owner | bad_network | empty_path
  | bad_path | path_too_long
  deriving DecidableEq

inductive ParsedEncryptionResource where
  | network (ownerDid network networkId : JsString)
  | key (ownerDid network networkId path : JsString)
  | keyPrefix (ownerDid network networkId path : JsString)
  deriving DecidableEq

def ParsedEncryptionResource.networkId : ParsedEncryptionResource → JsString
  | .network _ _ id | .key _ _ id _ | .keyPrefix _ _ id _ => id

def decimalValue (digits : JsString) : ℕ := digits.foldl (fun n u => 10 * n + (u.toNat - 48)) 0

section Parser

-- the EIP-55 spelling of a 20-byte hex address
variable (assertAddress : JsString → Option JsString)

def canonicalOwner (ownerDid : JsString) : Except EncryptionResourceErrorCode JsString :=
  if !PKH_EIP155_PREFIX.isPrefixOf ownerDid then .ok ownerDid
  else
    match splitFirst colon (ownerDid.drop PKH_EIP155_PREFIX.length) with
    | none => .error .bad_owner
    | some (chain, address) =>
      if chain = [] || !chain.all isDecimal then .error .bad_owner
      else if !((js "0x").isPrefixOf address && (address.drop 2).all isHex &&
          (address.drop 2).length == 40) then .error .bad_owner
      else if decimalValue chain = 0 || MAX_U64 < decimalValue chain then .error .bad_owner
      else
        match assertAddress address with
        | none => .error .bad_owner
        | some checksummed =>
          .ok (PKH_EIP155_PREFIX ++ js (toString (decimalValue chain)) ++ colon :: checksummed)

def assertCanonicalOwner (ownerDid : JsString) : Except EncryptionResourceErrorCode Unit := do
  let canonical ← canonicalOwner assertAddress ownerDid
  if canonical = ownerDid then .ok () else .error .non_canonical_owner

/-- A key needs three segments under `apps`, a prefix two. -/
def assertPath (path : JsString) (isKey : Bool) : Except EncryptionResourceErrorCode Unit :=
  if path = [] then .error .empty_path
  else if MAX_PATH_BYTES < (textEncode path).length then .error .path_too_long
  else if !matchesKeyPath path then .error .bad_path
  else if (path.splitOn slash).head? = some (js "apps") ∧
      (path.splitOn slash).length < (if isKey then 3 else 2) then .error .bad_path
  else .ok ()

/-- Whether `parseNetworkId` accepts the text. -/
def isNetworkId (networkId : JsString) : Bool :=
  ENCRYPTION_NETWORK_URN_PREFIX.isPrefixOf networkId &&
    match splitLast colon (networkId.drop ENCRYPTION_NETWORK_URN_PREFIX.length) with
    | none => false
    | some (ownerDid, name) => ownerDid != [] && name != [] && (js "did:").isPrefixOf ownerDid &&
        decide (3 ≤ (ownerDid.splitOn colon).length) && (ownerDid.splitOn colon).all (· != []) &&
        matchesNetworkName name

/-- A bare network; its owner is brought to the canonical spelling. -/
def parseBareNetwork (ownerDid network : JsString) :
    Except EncryptionResourceErrorCode ParsedEncryptionResource := do
  let canonicalOwnerDid ← canonicalOwner assertAddress ownerDid
  let bareId := ENCRYPTION_NETWORK_URN_PREFIX ++ canonicalOwnerDid ++ colon :: network
  if isNetworkId bareId then .ok (.network canonicalOwnerDid network bareId) else .error .bad_network

/-- A named key or a key prefix; nothing is normalized. -/
def parseNamedKey (ownerDid network rawPath : JsString) :
    Except EncryptionResourceErrorCode ParsedEncryptionResource :=
  if !matchesKeyNetwork network then .error .bad_network
  else do
    assertCanonicalOwner assertAddress ownerDid
    let networkId := ENCRYPTION_NETWORK_URN_PREFIX ++ ownerDid ++ colon :: network
    if [slash].isSuffixOf rawPath then
      assertPath rawPath.dropLast false
      .ok (.keyPrefix ownerDid network networkId rawPath.dropLast)
    else
      assertPath rawPath true
      .ok (.key ownerDid network networkId rawPath)

/-- The head up to the first `/` splits at its last `:`. -/
def parseHead (head : JsString) : Except EncryptionResourceErrorCode (JsString × JsString) :=
  match splitLast colon head with
  | none => .error .malformed
  | some (ownerDid, network) =>
    if network = [] || !matchesOwner ownerDid then .error .malformed else .ok (ownerDid, network)

def parseEncryptionResource (uri : JsString) :
    Except EncryptionResourceErrorCode ParsedEncryptionResource :=
  if !ENCRYPTION_NETWORK_URN_PREFIX.isPrefixOf uri then .error .not_encryption_urn
  else
    match splitFirst slash (uri.drop ENCRYPTION_NETWORK_URN_PREFIX.length) with
    | none => do
      let (ownerDid, network) ← parseHead (uri.drop ENCRYPTION_NETWORK_URN_PREFIX.length)
      parseBareNetwork assertAddress ownerDid network
    | some (head, rawPath) => do
      let (ownerDid, network) ← parseHead head
      parseNamedKey assertAddress ownerDid network rawPath

def encryptionResourceContains (granted requested : JsString) : Bool :=
  match parseEncryptionResource assertAddress granted, parseEncryptionResource assertAddress requested with
  | .ok g, .ok r =>
    if g.networkId ≠ r.networkId then false
    else
      match g, r with
      | .network .., .network .. => true
      | .network .., _ => false
      | .key _ _ _ path, .key _ _ _ path' => path' == path
      | .key .., _ => false
      | .keyPrefix _ _ _ path, .key _ _ _ path' => (path ++ [slash]).isPrefixOf path'
      | .keyPrefix _ _ _ path, .keyPrefix _ _ _ path' => (path ++ [slash]).isPrefixOf (path' ++ [slash])
      | .keyPrefix .., .network .. => false
  | _, _ => false

/-- A resource below a network: named keys and prefixes carry the URN prefix and a `/`. -/
def isNamedKeyPath (path : JsString) : Bool :=
  ENCRYPTION_NETWORK_URN_PREFIX.isPrefixOf path && path.contains slash

lemma splitFirst_eq_some {u : CodeUnit} {s a b : JsString} (h : splitFirst u s = some (a, b)) :
    s = a ++ u :: b := by
  induction s generalizing a with
  | nil => simp [splitFirst] at h
  | cons v s ih =>
    rw [splitFirst] at h
    split_ifs at h with hv
    · obtain ⟨rfl, rfl⟩ : [] = a ∧ s = b := by simpa using h
      simp [hv]
    · obtain ⟨⟨c, d⟩, hc, he⟩ := Option.map_eq_some_iff.mp h
      obtain ⟨rfl, rfl⟩ : v :: c = a ∧ d = b := by simpa using he
      simp [ih hc]

lemma not_mem_of_splitFirst {u : CodeUnit} {s : JsString} (h : splitFirst u s = none) : u ∉ s := by
  induction s with
  | nil => simp
  | cons v s ih =>
    rw [splitFirst] at h
    split_ifs at h with hv
    have := ih (by simpa using h)
    simp [this, Ne.symm hv]

lemma splitLast_eq_some {u : CodeUnit} {s a b : JsString} (h : splitLast u s = some (a, b)) :
    s = a ++ u :: b := by
  induction s generalizing a b with
  | nil => simp [splitLast] at h
  | cons v s ih =>
    rw [splitLast] at h
    cases hs : splitLast u s with
    | some p =>
      simp only [hs, Option.some.injEq, Prod.mk.injEq] at h
      obtain ⟨rfl, rfl⟩ := h
      simp [ih hs]
    | none =>
      simp only [hs] at h
      split_ifs at h with hv
      obtain ⟨rfl, rfl⟩ : [] = a ∧ s = b := by simpa using h
      simp [hv]

lemma slash_not_mem_prefix : slash ∉ ENCRYPTION_NETWORK_URN_PREFIX := by
  decide

lemma parseHead_ok {head ownerDid network : JsString} (h : parseHead head = .ok (ownerDid, network)) :
    head = ownerDid ++ colon :: network := by
  unfold parseHead at h
  cases hs : splitLast colon head with
  | none => simp [hs] at h
  | some p =>
    simp only [hs] at h
    split_ifs at h
    obtain rfl : p = (ownerDid, network) := by simpa using h
    exact splitLast_eq_some hs

/-- How a resource is spelled, by its kind. -/
def Spelled (uri : JsString) : ParsedEncryptionResource → Prop
  | .network .. => slash ∉ uri
  | .key _ _ id path => uri = id ++ slash :: path
  | .keyPrefix _ _ id path => uri = id ++ slash :: (path ++ [slash])

variable {assertAddress}

lemma parseBareNetwork_ok {ownerDid network : JsString} {r : ParsedEncryptionResource}
    (h : parseBareNetwork assertAddress ownerDid network = .ok r) : ∃ o n id, r = .network o n id := by
  obtain ⟨o, -, h⟩ := Runs.bind_eq_ok h
  dsimp only at h
  split_ifs at h
  exact ⟨_, _, _, (Except.ok.inj h).symm⟩

lemma parseNamedKey_ok {ownerDid network rawPath : JsString} {r : ParsedEncryptionResource}
    (h : parseNamedKey assertAddress ownerDid network rawPath = .ok r) :
    Spelled (ENCRYPTION_NETWORK_URN_PREFIX ++ (ownerDid ++ colon :: network ++ slash :: rawPath)) r := by
  unfold parseNamedKey at h
  by_cases hn : (!matchesKeyNetwork network) = true
  · rw [if_pos hn] at h
    cases h
  rw [if_neg hn] at h
  obtain ⟨-, -, h⟩ := Runs.bind_eq_ok h
  dsimp only at h
  split_ifs at h with hs
  · obtain ⟨-, -, h⟩ := Runs.bind_eq_ok h
    obtain ⟨t, rfl⟩ := List.isSuffixOf_iff_suffix.mp hs
    obtain rfl := Except.ok.inj h
    simp [Spelled]
  · obtain ⟨-, -, h⟩ := Runs.bind_eq_ok h
    obtain rfl := Except.ok.inj h
    simp [Spelled]

lemma spelled_of_parse {uri : JsString} {r : ParsedEncryptionResource}
    (h : parseEncryptionResource assertAddress uri = .ok r) :
    ENCRYPTION_NETWORK_URN_PREFIX <+: uri ∧ Spelled uri r := by
  unfold parseEncryptionResource at h
  split_ifs at h with hp
  have hp : ENCRYPTION_NETWORK_URN_PREFIX <+: uri := by simpa using hp
  obtain ⟨body, rfl⟩ := hp
  refine ⟨List.prefix_append _ _, ?_⟩
  rw [List.drop_left] at h
  cases hs : splitFirst slash body with
  | none =>
    simp only [hs] at h
    obtain ⟨_, -, h⟩ := Runs.bind_eq_ok h
    obtain ⟨o, n, id, rfl⟩ := parseBareNetwork_ok h
    simp [Spelled, slash_not_mem_prefix, not_mem_of_splitFirst hs]
  | some p =>
    obtain ⟨head, rawPath⟩ := p
    simp only [hs] at h
    obtain ⟨q, hq, h⟩ := Runs.bind_eq_ok h
    rw [splitFirst_eq_some hs, parseHead_ok hq]
    exact parseNamedKey_ok h

/-- Both sides of a containment parse, to one network. -/
lemma parses_of_contains {granted requested : JsString}
    (h : encryptionResourceContains assertAddress granted requested = true) :
    ∃ g r, parseEncryptionResource assertAddress granted = .ok g ∧
      parseEncryptionResource assertAddress requested = .ok r ∧ g.networkId = r.networkId := by
  unfold encryptionResourceContains at h
  cases hg : parseEncryptionResource assertAddress granted with
  | error e => simp [hg] at h
  | ok g =>
    cases hr : parseEncryptionResource assertAddress requested with
    | error e => simp [hg, hr] at h
    | ok r =>
      refine ⟨g, r, rfl, rfl, ?_⟩
      simp only [hg, hr] at h
      split_ifs at h with hn
      exact not_not.mp hn

theorem encryptionResourceContains_refl {s : JsString} {r : ParsedEncryptionResource}
    (h : parseEncryptionResource assertAddress s = .ok r) :
    encryptionResourceContains assertAddress s s = true := by
  unfold encryptionResourceContains
  simp only [h, ne_eq, not_true, if_false]
  cases r <;> simp

theorem encryptionResourceContains_trans {a b c : JsString}
    (hab : encryptionResourceContains assertAddress a b = true)
    (hbc : encryptionResourceContains assertAddress b c = true) :
    encryptionResourceContains assertAddress a c = true := by
  obtain ⟨p, q, hp, hq, hpq⟩ := parses_of_contains hab
  obtain ⟨q', r, hq', hr, hqr⟩ := parses_of_contains hbc
  obtain rfl : q = q' := Except.ok.inj (hq.symm.trans hq')
  simp only [encryptionResourceContains, hp, hq, hr, hpq, hqr, ne_eq, not_true, if_false] at hab hbc ⊢
  cases p <;> cases q <;> cases r <;> simp_all
  · exact hab.trans hbc
  · exact hab.trans hbc

/-- What covers a named resource is itself below a network, and covers it as text. -/
lemma named_of_contains {granted requested : JsString}
    (h : encryptionResourceContains assertAddress granted requested = true)
    (hr : isNamedKeyPath requested = true) :
    isNamedKeyPath granted = true ∧
      ((granted = requested) ∨ ([slash] <:+ granted ∧ granted <+: requested)) := by
  obtain ⟨g, r, hg, hq, hn⟩ := parses_of_contains h
  obtain ⟨hgp, hgs⟩ := spelled_of_parse hg
  obtain ⟨-, hrs⟩ := spelled_of_parse hq
  simp only [isNamedKeyPath, Bool.and_eq_true, List.contains_iff_mem] at hr
  simp only [encryptionResourceContains, hg, hq, hn, ne_eq, not_true, if_false] at h
  have hnamed : slash ∈ granted → isNamedKeyPath granted = true := fun hm => by
    simp [isNamedKeyPath, hgp, hm]
  cases r with
  | network o n id => exact absurd hr.2 hrs
  | key o n id path =>
    cases g with
    | network => simp at h
    | key o' n' id' path' =>
      obtain rfl : path = path' := by simpa using h
      obtain rfl : id' = id := hn
      exact ⟨hnamed (by rw [hgs]; simp), .inl (hgs.trans hrs.symm)⟩
    | keyPrefix o' n' id' path' =>
      obtain ⟨t, rfl⟩ := List.isPrefixOf_iff_prefix.mp h
      obtain rfl : id' = id := hn
      refine ⟨hnamed (by rw [hgs]; simp), .inr ⟨⟨id' ++ slash :: path', by rw [hgs]; simp⟩, t, ?_⟩⟩
      rw [hgs, hrs]
      simp
  | keyPrefix o n id path =>
    cases g with
    | network => simp at h
    | key => simp at h
    | keyPrefix o' n' id' path' =>
      obtain ⟨t, ht⟩ := List.isPrefixOf_iff_prefix.mp h
      obtain rfl : id' = id := hn
      refine ⟨hnamed (by rw [hgs]; simp), .inr ⟨⟨id' ++ slash :: path', by rw [hgs]; simp⟩, t, ?_⟩⟩
      rw [hgs, hrs, ← ht]
      simp

end Parser

end TinyCloud.Capability
