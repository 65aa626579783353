import Mathlib.Data.List.TakeWhile
import TinyCloud.Policy.Attenuation
import TinyCloud.Text.Decimal
import TinyCloud.Text.Jcs

/-!
# Two projections of a policy ceiling

The policy builder normalises the capabilities of a ceiling and projects them to native ones; the
envelope verifier projects the same ceiling with its own splitter and its own sort. Their canonical
texts are compared: the ceiling's, the native projection's and the attenuation's.
-/

namespace TinyCloud.Policy

open TinyCloud.Text TinyCloud.Runs

variable {N : Type}

section Values

/-- `Object.fromEntries(entries)` -/
def fromEntries (entries : List (JsString × Json N)) : Json N := .obj (entries.foldl setMember [])

/-- `values.sort((left, right) => compare(text(left), text(right)))`; a single value is compared with nothing. -/
def sortBy {α : Type} (compare : JsString → JsString → ℤ) (text : α → Except String JsString)
    (values : List α) : Except String (List α) :=
  if values.length ≤ 1 then .ok values
  else do
    let keyed ← values.mapM fun v => (text v).map fun t => (t, v)
    pure ((keyed.insertionSort fun a b => compare a.1 b.1 ≤ 0).map Prod.snd)

end Values

section Resources

/-- The text before and after the first occurrence of `separator`. -/
def splitFirst (separator : JsString) : JsString → Option (JsString × JsString)
  | [] => if separator = [] then some ([], []) else none
  | c :: s =>
    if separator.isPrefixOf (c :: s) then some ([], (c :: s).drop separator.length)
    else (splitFirst separator s).map fun p => (c :: p.1, p.2)

def kvMarker : JsString := js "/kv/"
def legacyPrefix : JsString := js "tinycloud://"
def slash : CodeUnit := 47

def isAnyOf (chars : String) (u : CodeUnit) : Bool := (js chars).contains u

def badSegment (part : JsString) : Bool := part == js "." || part == js ".." || part == []

/-- The space and the path of a canonical KV resource. -/
def parseKvResource (resource : JsString) : Except String (JsString × JsString) :=
  match splitFirst kvMarker resource with
  | none => .error "KV resource is not canonical"
  | some (encodedSpace, path) =>
    let legacy := legacyPrefix.isPrefixOf encodedSpace
    let space := if legacy then encodedSpace.drop legacyPrefix.length else encodedSpace
    if encodedSpace = [] ||
        (if legacy then space.any (isAnyOf ":/?#%")
          else !(js "tinycloud:").isPrefixOf encodedSpace || encodedSpace.any (isAnyOf "/?#%")) ||
        path.head? == some slash || path.getLast? == some slash || (splitFirst (js "//") path).isSome ||
        (path.splitOn slash).any badSegment
    then .error "KV resource is not canonical"
    else .ok (space, path)

def urnPrefix : JsString := js "urn:tinycloud:encryption:"

/-- `/^[a-z0-9][a-z0-9-]*$/` -/
def isNetworkName : JsString → Bool
  | [] => false
  | c :: s =>
    let plain := isAnyOf "abcdefghijklmnopqrstuvwxyz0123456789"
    plain c && s.all fun d => plain d || d == 45

/-- The text before and after the last occurrence of a unit. -/
def splitLast (u : CodeUnit) (s : JsString) : Option (JsString × JsString) :=
  if s.contains u then
    some ((s.reverse.dropWhile (· != u)).tail.reverse, (s.reverse.takeWhile (· != u)).reverse)
  else none

def isNetworkId (networkId : JsString) : Bool :=
  urnPrefix.isPrefixOf networkId &&
    match splitLast 58 (networkId.drop urnPrefix.length) with
    | none => false
    | some (ownerDid, name) =>
      let didParts := ownerDid.splitOn 58
      ownerDid != [] && name != [] && (js "did:").isPrefixOf ownerDid && decide (3 ≤ didParts.length) &&
        didParts.all (· != []) && isNetworkName name

/-- A network, or a named key below it that is not a prefix. -/
def isEncryptionResource (resource : JsString) : Bool :=
  let (upToNetwork, nameAndPath) := (splitLast 58 resource).elim ([], resource) fun p => (p.1 ++ [58], p.2)
  match splitFirst [slash] nameAndPath with
  | none => isNetworkId resource
  | some (name, keyPath) =>
    isNetworkId (upToNetwork ++ name) && keyPath != [] &&
      keyPath.all (fun u => decide (0x20 ≤ u.toNat) && u.toNat != 0x7F && u != 92) &&
      !(keyPath.splitOn slash).any badSegment && keyPath.getLast? != some slash

end Resources

section Capabilities

def SelectorKind.text : SelectorKind → JsString
  | .exactly => js "exact"
  | .below => js "prefix"

inductive Capability
  | kv (resource : JsString) (selector : SelectorKind) (actions : List JsString)
  | encryption (resource : JsString)

def kvActions : List String := ["tinycloud.kv/get", "tinycloud.kv/list", "tinycloud.kv/metadata", "tinycloud.kv/put"]

def decryptAction : JsString := js "tinycloud.encryption/decrypt"

def textArray (items : List JsString) : Json N := .arr (items.map .str)

def Capability.json : Capability → Json N
  | .kv resource selector actions => .obj [(js "actions", textArray actions), (js "kind", .str (js "kv")),
      (js "resource", .str resource), (js "selector", .str selector.text)]
  | .encryption resource => .obj [(js "action", .str decryptAction), (js "kind", .str (js "encryption")),
      (js "resource", .str resource)]

def nonEmptyText (members : List (JsString × Json N)) (key : String) : Except String JsString :=
  match members.lookup (js key) with
  | some (.str s) => if s = [] then .error "must be a non-empty string" else .ok s
  | _ => .error "must be a non-empty string"

def exactKeys (members : List (JsString × Json N)) (allowed : List String) : Except String Unit :=
  if members.all fun m => (allowed.map js).contains m.1 then .ok () else .error "contains an unknown field"

def capabilityAction : Json N → Except String JsString
  | .str s => if s = [] then .error "must be a non-empty string" else .ok s
  | _ => .error "must be a non-empty string"

def normalizeKv (members : List (JsString × Json N)) : Except String Capability := do
  exactKeys members ["kind", "resource", "selector", "actions"]
  let resource ← nonEmptyText members "resource"
  let _ ← parseKvResource resource
  match members.lookup (js "selector"), members.lookup (js "actions") with
  | some (.str selector), some (.arr items) =>
    match selectorKind selector with
    | none => .error "capability.selector is invalid"
    | some kind =>
      if items = [] then .error "capability.actions is invalid"
      else do
        let actions ← items.mapM capabilityAction
        if decide actions.Nodup && actions.all ((kvActions.map js).contains ·) then
          .ok (.kv resource kind (actions.insertionSort UnitsLe))
        else .error "capability.actions is invalid"
  | some (.str selector), _ =>
    .error (if selectorKind selector = none then "capability.selector is invalid" else "capability.actions is invalid")
  | _, _ => .error "capability.selector is invalid"

def normalizeEncryption (members : List (JsString × Json N)) : Except String Capability := do
  exactKeys members ["kind", "resource", "action"]
  let resource ← nonEmptyText members "resource"
  match members.lookup (js "action") with
  | some (.str action) =>
    if action = decryptAction ∧ isEncryptionResource resource = true then .ok (.encryption resource)
    else .error "encryption capability is invalid"
  | _ => .error "encryption capability is invalid"

def normalizeUnifiedPolicyCapability : Json N → Except String Capability
  | .obj members => do
    let kind ← nonEmptyText members "kind"
    if kind = js "kv" then normalizeKv members
    else if kind = js "encryption" then normalizeEncryption members
    else .error "capability.kind is invalid"
  | _ => .error "capability must be an object"

end Capabilities

section Builder

variable [NumberFormat N]

def caveatOf (selector : SelectorKind) (resource : JsString) : Json N :=
  .obj [(js "kind", .str selector.text), (js "type", .str (js "xyz.tinycloud.resource/selector")),
    (js "value", .str resource)]

/-- A native KV capability; the verifier's may lack its path. -/
def nativeKv (space : JsString) (path : Option JsString) (resource : JsString) (selector : SelectorKind)
    (actions : List JsString) : Json N :=
  .obj ([(js "actions", textArray actions), (js "caveat", caveatOf selector resource)] ++
    (path.map fun p => (js "path", .str p)).toList ++
    [(js "service", .str (js "tinycloud.kv")), (js "space", .str space)])

def nativeEncryption (resource : JsString) : Json N :=
  .obj [(js "actions", textArray [decryptAction]), (js "path", .str resource),
    (js "service", .str (js "tinycloud.encryption")), (js "space", .str resource)]

def projectUnifiedPolicyCapability (input : Json N) : Except String (Json N) := do
  match ← normalizeUnifiedPolicyCapability input with
  | .encryption resource => pure (nativeEncryption resource)
  | .kv resource selector actions =>
    let (space, path) ← parseKvResource resource
    pure (nativeKv space (some path) resource selector actions)

def projectUnifiedPolicyCapabilities (inputs : List (Json N)) : Except String (List (Json N)) := do
  let projected ← inputs.mapM projectUnifiedPolicyCapability
  sortBy compareUtf16CodeUnits jcsCanonicalize projected

def grantsOf : Capability → Json N
  | .encryption _ => .obj [(decryptAction, .arr [.obj []])]
  | .kv resource selector actions => fromEntries (actions.map fun action => (action, .arr [caveatOf selector resource]))

def Capability.resource : Capability → JsString
  | .kv resource _ _ => resource
  | .encryption resource => resource

/-- The entries of the attenuation, with those there before. -/
def attenuationEntries : List (JsString × Json N) → List (Json N) → Except String (List (JsString × Json N))
  | entries, [] => .ok entries
  | entries, input :: inputs => do
    let capability ← normalizeUnifiedPolicyCapability input
    if (entries.map Prod.fst ++ inheritedNames.map js).contains capability.resource then
      .error "policy capabilities contain a duplicate resource"
    else attenuationEntries (entries ++ [(capability.resource, grantsOf capability)]) inputs

def compactAttenuationForPolicyCapabilities (inputs : List (Json N)) : Except String (Json N) :=
  (attenuationEntries [] inputs).map .obj

/-- The ceiling as its builder writes it: normalised, in the order of its canonical texts. -/
def normalizedCeilingText (inputs : List (Json N)) : Except String JsString := do
  let capabilities ← inputs.mapM normalizeUnifiedPolicyCapability
  let sorted ← sortBy compareUtf16CodeUnits jcsCanonicalize (capabilities.map (Capability.json (N := N)))
  jcsCanonicalize (.arr sorted)

def projectionText (inputs : List (Json N)) : Except String JsString := do
  let projected ← projectUnifiedPolicyCapabilities inputs
  jcsCanonicalize (.arr projected)

def attenuationText (inputs : List (Json N)) : Except String JsString := do
  let attenuation ← compactAttenuationForPolicyCapabilities inputs
  jcsCanonicalize attenuation

end Builder

section Verifier

variable [NumberFormat N] (localeCompare : JsString → JsString → ℤ)

/-- `resource.slice(0, resource.indexOf("/kv/"))` -/
def sliceSpace (resource : JsString) : JsString :=
  match splitFirst kvMarker resource with
  | none => resource.dropLast
  | some (space, _) => space

/-- `resource.split("/kv/")[1]` -/
def splitPath (resource : JsString) : Option JsString :=
  match splitFirst kvMarker resource with
  | none => none
  | some (_, rest) =>
    match splitFirst kvMarker rest with
    | none => some rest
    | some (path, _) => some path

def verifierNative : Capability → Json N
  | .encryption resource => nativeEncryption resource
  | .kv resource selector actions => nativeKv (sliceSpace resource) (splitPath resource) resource selector actions

def sortedCapabilities (ceiling : List Capability) : Except String (List Capability) :=
  sortBy localeCompare (fun capability => canonicalize (capability.json : Json N)) ceiling

def verifierCeilingText (ceiling : List Capability) : Except String JsString := do
  let sorted ← sortedCapabilities (N := N) localeCompare ceiling
  canonicalize (.arr (sorted.map Capability.json) : Json N)

def verifierProjectionText (ceiling : List Capability) : Except String JsString := do
  let sorted ← sortedCapabilities (N := N) localeCompare ceiling
  let projected ← sortBy localeCompare canonicalize (sorted.map (verifierNative (N := N)))
  canonicalize (.arr projected)

def verifierAttenuationText (ceiling : List Capability) : Except String JsString := do
  let sorted ← sortedCapabilities (N := N) localeCompare ceiling
  canonicalize (fromEntries (sorted.map fun capability => (capability.resource, (grantsOf capability : Json N))))

end Verifier

section Texts

mutual
lemma scalarTexts_of_normal : ∀ v : Json N, jcsNormal v = true → scalarTexts v = true
  | .null, _ => rfl
  | .bool _, _ => rfl
  | .num _, _ => rfl
  | .str _, h => h
  | .arr items, h => scalarTexts_of_items items h
  | .obj members, h => scalarTexts_of_members members h
lemma scalarTexts_of_items : ∀ items : List (Json N), jcsNormalItems items = true → scalarTextsItems items = true
  | [], _ => rfl
  | v :: items, h => by
    simp only [jcsNormalItems, Bool.and_eq_true] at h
    simp only [scalarTextsItems, Bool.and_eq_true]
    exact ⟨scalarTexts_of_normal v h.1, scalarTexts_of_items items h.2⟩
lemma scalarTexts_of_members : ∀ members : List (JsString × Json N), jcsNormalMembers members = true →
    scalarTextsMembers members = true
  | [], _ => rfl
  | (k, v) :: members, h => by
    simp only [jcsNormalMembers, Bool.and_eq_true] at h
    simp only [scalarTextsMembers, Bool.and_eq_true]
    exact ⟨⟨h.1.1.1, scalarTexts_of_normal v h.1.2⟩, scalarTexts_of_members members h.2⟩
end

variable [NumberFormat N]

/-- Where the builder's canonical text exists, the verifier writes the same. -/
lemma canonicalize_of_normal {v : Json N} (h : jcsNormal v = true) :
    canonicalize v = .ok v.serialize ∧ jcsCanonicalize v = .ok v.serialize := by
  rw [canonicalize, if_pos (scalarTexts_of_normal v h), jcsCanonicalize, if_pos h]
  exact ⟨rfl, rfl⟩

lemma jcsNormal_of_ok {v : Json N} {text : JsString} (h : jcsCanonicalize v = .ok text) : jcsNormal v = true := by
  unfold jcsCanonicalize at h
  split at h
  · assumption
  · cases h

variable {α : Type} {compare : JsString → JsString → ℤ} {text : α → Except String JsString}

/-- Two values come out in the order of their texts, whichever comes first. -/
lemma sortBy_pair {x y : α} {s t : JsString} (hx : text x = .ok s) (hy : text y = .ok t)
    (hlt : compare s t < 0) (hgt : 0 < compare t s) :
    sortBy compare text [x, y] = .ok [x, y] ∧ sortBy compare text [y, x] = .ok [x, y] := by
  have hle : compare s t ≤ 0 := by omega
  have hnot : ¬ compare t s ≤ 0 := by omega
  constructor
  · simp [sortBy, hx, hy, List.insertionSort, hle, Except.map, bind, Except.bind, pure, Except.pure]
  · simp [sortBy, hx, hy, List.insertionSort, hnot, Except.map, bind, Except.bind, pure, Except.pure]

lemma units_before (p : JsString) {a b : CodeUnit} (h : a.toNat < b.toNat) (s t : JsString) :
    compareUtf16CodeUnits (p ++ a :: s) (p ++ b :: t) < 0 ∧ 0 < compareUtf16CodeUnits (p ++ b :: t) (p ++ a :: s) := by
  have hne : a ≠ b := by
    rintro rfl
    omega
  induction p with
  | nil =>
    simp only [List.nil_append, compareUtf16CodeUnits, if_neg hne, if_neg hne.symm]
    omega
  | cons c p ih => simpa only [List.cons_append, compareUtf16CodeUnits, if_true] using ih

/-- What the verifier's sort needs of the platform's collation: a quotation mark comes before the letter s, and
e before k, where the texts of the capabilities first differ. -/
structure Collates (localeCompare : JsString → JsString → ℤ) : Prop where
  quote_s : ∀ s t, localeCompare (js "\x7b\"action" ++ 34 :: s) (js "\x7b\"action" ++ 115 :: t) < 0 ∧
    0 < localeCompare (js "\x7b\"action" ++ 115 :: t) (js "\x7b\"action" ++ 34 :: s)
  e_k : ∀ s t, localeCompare (js "\x7b\"actions\":[\"tinycloud." ++ 101 :: s) (js "\x7b\"actions\":[\"tinycloud." ++ 107 :: t) < 0 ∧
    0 < localeCompare (js "\x7b\"actions\":[\"tinycloud." ++ 107 :: t) (js "\x7b\"actions\":[\"tinycloud." ++ 101 :: s)

lemma collates_units : Collates compareUtf16CodeUnits :=
  ⟨units_before _ (by decide), units_before _ (by decide)⟩

end Texts

section Shapes

variable [NumberFormat N]

lemma sorted_members {members : List (JsString × Json N)} (h : (members.map Prod.fst).Pairwise UnitsLe) :
    (Json.obj members).serialize = 123 :: (joinComma (members.map fun m => quote m.1 ++ 58 :: m.2.serialize) ++ [125]) := by
  rw [serialize_obj, (sorted_of_keys h).insertionSort_eq]

lemma encryption_keys : [js "action", js "kind", js "resource"].Pairwise UnitsLe := by decide
lemma kv_keys : [js "actions", js "kind", js "resource", js "selector"].Pairwise UnitsLe := by decide
lemma caveat_keys : [js "kind", js "type", js "value"].Pairwise UnitsLe := by decide
lemma nativeEncryption_keys : [js "actions", js "path", js "service", js "space"].Pairwise UnitsLe := by decide
lemma nativeKv_keys : [js "actions", js "caveat", js "path", js "service", js "space"].Pairwise UnitsLe := by decide

lemma encryption_text (resource : JsString) :
    ∃ rest, ((Capability.encryption resource).json : Json N).serialize = js "\x7b\"action" ++ 34 :: rest := by
  have hquote : quote (js "action") = js "\"action" ++ [34] := by decide
  rw [Capability.json, sorted_members]
  · exact ⟨_, by rw [List.map_cons, List.map_cons, joinComma, hquote]; rfl⟩
  · exact encryption_keys

lemma kv_text (resource : JsString) (selector : SelectorKind) (actions : List JsString) :
    ∃ rest, ((Capability.kv resource selector actions).json : Json N).serialize = js "\x7b\"action" ++ 115 :: rest := by
  have hquote : quote (js "actions") = js "\"action" ++ 115 :: [34] := by decide
  rw [Capability.json, sorted_members]
  · exact ⟨_, by rw [List.map_cons, List.map_cons, joinComma, hquote]; rfl⟩
  · exact kv_keys

lemma nativeEncryption_text (resource : JsString) :
    ∃ rest, (nativeEncryption resource : Json N).serialize = js "\x7b\"actions\":[\"tinycloud." ++ 101 :: rest := by
  have hquote : quote (js "actions") = js "\"actions\"" := by decide
  have haction : quote decryptAction = js "\"tinycloud." ++ 101 :: js "ncryption/decrypt\"" := by decide
  rw [nativeEncryption, sorted_members]
  · rw [List.map_cons, List.map_cons, joinComma, hquote, textArray, serialize_arr, List.map_cons, List.map_cons,
      List.map_nil, List.map_nil, joinComma, Json.serialize, haction]
    simp only [List.append_assoc, List.cons_append]
    exact ⟨_, rfl⟩
  · exact nativeEncryption_keys

lemma nativeKv_text {actions : List JsString} (hne : actions ≠ []) (hall : ∀ a ∈ actions, a ∈ kvActions.map js)
    (space path resource : JsString) (selector : SelectorKind) :
    ∃ rest, (nativeKv space (some path) resource selector actions : Json N).serialize =
      js "\x7b\"actions\":[\"tinycloud." ++ 107 :: rest := by
  obtain ⟨first, others, rfl⟩ := List.exists_cons_of_ne_nil hne
  have hquote : quote (js "actions") = js "\"actions\"" := by decide
  have hfirst : ∃ t, quote first = js "\"tinycloud." ++ 107 :: t := by
    have hin := hall first List.mem_cons_self
    simp only [kvActions, List.map_cons, List.map_nil, List.mem_cons, List.not_mem_nil, or_false] at hin
    rcases hin with rfl | rfl | rfl | rfl
    · exact ⟨js "v/get\"", by decide⟩
    · exact ⟨js "v/list\"", by decide⟩
    · exact ⟨js "v/metadata\"", by decide⟩
    · exact ⟨js "v/put\"", by decide⟩
  obtain ⟨t, ht⟩ := hfirst
  have hjoin : ∃ t, joinComma (((first :: others).map Json.str).map (Json.serialize (N := N))) =
      js "\"tinycloud." ++ 107 :: t := by
    cases others with
    | nil => exact ⟨t, by rw [List.map_cons, List.map_cons, List.map_nil, List.map_nil, joinComma, Json.serialize, ht]⟩
    | cons second rest =>
      rw [List.map_cons, List.map_cons, List.map_cons, List.map_cons, joinComma, Json.serialize, ht]
      simp only [List.append_assoc, List.cons_append]
      exact ⟨_, rfl⟩
  obtain ⟨u, hu⟩ := hjoin
  rw [nativeKv, sorted_members]
  · simp only [Option.map_some, Option.toList_some, List.cons_append, List.nil_append, List.map_cons]
    rw [joinComma, hquote, textArray, serialize_arr, hu]
    simp only [List.append_assoc, List.cons_append]
    exact ⟨_, rfl⟩
  · exact nativeKv_keys

end Shapes

section Splitting

lemma splitFirst_some {separator s a b : JsString} (h : splitFirst separator s = some (a, b)) :
    s = a ++ separator ++ b := by
  induction s generalizing a with
  | nil =>
    unfold splitFirst at h
    split at h
    · rename_i he
      obtain ⟨rfl, rfl⟩ : [] = a ∧ [] = b := by simpa using h
      rw [he]
      rfl
    · cases h
  | cons c s ih =>
    unfold splitFirst at h
    split at h
    · rename_i hp
      obtain ⟨rfl, rfl⟩ : [] = a ∧ (c :: s).drop separator.length = b := by simpa using h
      obtain ⟨t, ht⟩ := List.isPrefixOf_iff_prefix.mp hp
      rw [← ht, List.drop_left, List.nil_append]
    · rw [Option.map_eq_some_iff] at h
      obtain ⟨⟨a', b'⟩, h, he⟩ := h
      obtain ⟨rfl, rfl⟩ : c :: a' = a ∧ b' = b := by simpa using he
      rw [ih h]
      rfl

lemma splitFirst_none {separator : JsString} (hs : separator ≠ []) (s : JsString) :
    splitFirst separator s = none ↔ ¬ separator <:+: s := by
  induction s with
  | nil => simp [splitFirst, hs]
  | cons c s ih =>
    rw [splitFirst, List.infix_cons_iff, not_or, ← ih]
    split
    · rename_i hp
      simp [List.isPrefixOf_iff_prefix.mp hp]
    · rename_i hp
      rw [List.isPrefixOf_iff_prefix] at hp
      simp [hp]

lemma scalar_split {u : CodeUnit} (hu : u.toNat < 0xD800) {s t : JsString}
    (h : isUnicodeScalarString (s ++ u :: t) = true) :
    isUnicodeScalarString s = true ∧ isUnicodeScalarString t = true := by
  obtain ⟨hh, hl⟩ := not_surrogate hu
  induction s using isUnicodeScalarString.induct with
  | case1 =>
    rw [List.nil_append, scalar_cons hh hl] at h
    exact ⟨rfl, h⟩
  | case2 v =>
    by_cases hv : highSurrogate v = true
    · simp [isUnicodeScalarString, hv, hl] at h
    · simp only [List.cons_append, List.nil_append, isUnicodeScalarString, if_neg hv, Bool.and_eq_true] at h
      rw [scalar_cons hh hl] at h
      exact ⟨by simp [isUnicodeScalarString, hv, h.1], h.2⟩
  | case3 v w rest hv ih =>
    simp only [List.cons_append, isUnicodeScalarString, if_pos hv, Bool.and_eq_true] at h ⊢
    exact ⟨⟨h.1, (ih h.2).1⟩, (ih h.2).2⟩
  | case4 v w rest hv ih =>
    simp only [List.cons_append, isUnicodeScalarString, if_neg hv, Bool.and_eq_true] at h ⊢
    exact ⟨⟨h.1, (ih h.2).1⟩, (ih h.2).2⟩

/-- What is left of a text before and after a marker of ASCII units. -/
lemma scalar_around {s t : JsString} (h : isUnicodeScalarString (s ++ kvMarker ++ t) = true) :
    isUnicodeScalarString s = true ∧ isUnicodeScalarString t = true := by
  have hm : s ++ kvMarker ++ t = s ++ 47 :: 107 :: 118 :: 47 :: t := by simp [kvMarker, js, pointUnits]
  rw [hm] at h
  obtain ⟨hs, ht⟩ := scalar_split (by decide) h
  refine ⟨hs, ?_⟩
  rwa [scalar_cons (by decide) (by decide), scalar_cons (by decide) (by decide),
    scalar_cons (by decide) (by decide)] at ht

end Splitting

section Resource

variable {resource space path : JsString}

/-- What the builder's splitter accepts: a space without a slash, before the first marker. -/
structure KvParts (resource space path : JsString) : Prop where
  first : ∃ encodedSpace, splitFirst kvMarker resource = some (encodedSpace, path) ∧
    ((legacyPrefix <+: encodedSpace ∧ encodedSpace = legacyPrefix ++ space) ∨
      (¬ legacyPrefix <+: encodedSpace ∧ encodedSpace = space ∧ js "tinycloud:" <+: space ∧ slash ∉ space))

lemma parts_of_parse (h : parseKvResource resource = .ok (space, path)) : KvParts resource space path := by
  unfold parseKvResource at h
  split at h
  · cases h
  · rename_i encodedSpace path' hfirst
    by_cases hp : legacyPrefix.isPrefixOf encodedSpace = true
    · have hpre := List.isPrefixOf_iff_prefix.mp hp
      simp only [if_pos hp] at h
      split at h
      · cases h
      · simp only [Except.ok.injEq, Prod.mk.injEq] at h
        obtain ⟨hspace, rfl⟩ := h
        refine ⟨encodedSpace, hfirst, .inl ⟨hpre, ?_⟩⟩
        obtain ⟨t, rfl⟩ := hpre
        rw [List.drop_left] at hspace
        rw [hspace]
    · simp only [if_neg hp] at h
      split at h
      · cases h
      · rename_i hc
        simp only [Except.ok.injEq, Prod.mk.injEq] at h
        obtain ⟨rfl, rfl⟩ := h
        simp only [Bool.or_eq_true, not_or, Bool.not_eq_true, Bool.not_eq_false'] at hc
        obtain ⟨⟨⟨⟨⟨-, hscheme, hplain⟩, -⟩, -⟩, -⟩, -⟩ := hc
        refine ⟨encodedSpace, hfirst, .inr ⟨fun h => hp (List.isPrefixOf_iff_prefix.mpr h), rfl,
          List.isPrefixOf_iff_prefix.mp hscheme, fun hin => ?_⟩⟩
        exact List.any_eq_false.mp hplain slash hin (by decide)

lemma KvParts.starts (h : KvParts resource space path) : js "tinycloud:" <+: resource := by
  obtain ⟨encodedSpace, hfirst, hcases⟩ := h.first
  have hr := splitFirst_some hfirst
  have hlong : js "tinycloud:" <+: legacyPrefix := by decide
  have hin : js "tinycloud:" <+: encodedSpace := by
    rcases hcases with ⟨hp, -⟩ | ⟨-, rfl, hp, -⟩
    · exact hlong.trans hp
    · exact hp
  rw [hr, List.append_assoc]
  exact hin.trans (List.prefix_append _ _)

/-- The verifier's space is the builder's exactly if the resource is not in the old form. -/
lemma KvParts.space_iff (h : KvParts resource space path) :
    sliceSpace resource = space ↔ ¬ legacyPrefix <+: resource := by
  obtain ⟨encodedSpace, hfirst, hcases⟩ := h.first
  have hr := splitFirst_some hfirst
  have hslice : sliceSpace resource = encodedSpace := by rw [sliceSpace, hfirst]
  rw [hslice]
  rcases hcases with ⟨hp, he⟩ | ⟨hp, rfl, ⟨rest, hrest⟩, hslash⟩
  · have hlen : encodedSpace ≠ space := by
      intro heq
      have := congrArg List.length (heq.symm.trans he)
      have hpos : 0 < legacyPrefix.length := by decide
      rw [List.length_append] at this
      omega
    refine iff_of_false hlen fun hn => hn ?_
    rw [hr, List.append_assoc]
    exact hp.trans (List.prefix_append _ _)
  · refine iff_of_true rfl ?_
    rintro ⟨t, ht⟩
    have hlegacy : legacyPrefix = js "tinycloud:" ++ [47, 47] := by decide
    have hmarker : kvMarker = [47, 107, 118, 47] := by decide
    rw [hr, ← hrest, hlegacy, hmarker, List.append_assoc, List.append_assoc, List.append_assoc,
      List.append_cancel_left_eq] at ht
    -- the space holds no slash, so the one after the scheme would be the marker's
    cases rest with
    | nil => simp at ht
    | cons c rest =>
      have hc : c = slash := (List.cons.inj ht).1.symm
      apply hslash
      rw [← hrest, hc]
      simp

/-- The verifier's path is the builder's exactly if the marker does not come again. -/
lemma KvParts.path_iff (h : KvParts resource space path) :
    splitPath resource = some path ↔ ¬ kvMarker <:+: path := by
  obtain ⟨encodedSpace, hfirst, -⟩ := h.first
  have hmarker : kvMarker ≠ [] := by decide
  rw [← splitFirst_none hmarker, splitPath, hfirst]
  simp only
  cases hsecond : splitFirst kvMarker path with
  | none => simp
  | some p =>
    obtain ⟨middle, rest⟩ := p
    simp only [Option.some.injEq, reduceCtorEq, iff_false]
    rintro rfl
    have := congrArg List.length (splitFirst_some hsecond)
    have hpos : 0 < kvMarker.length := by decide
    rw [List.length_append, List.length_append] at this
    omega

lemma KvParts.splitPath_some (h : KvParts resource space path) : ∃ p, splitPath resource = some p := by
  obtain ⟨encodedSpace, hfirst, -⟩ := h.first
  rw [splitPath, hfirst]
  simp only
  cases splitFirst kvMarker path with
  | none => exact ⟨path, rfl⟩
  | some q => exact ⟨q.1, rfl⟩

/-- All parts of a resource in Unicode are in Unicode. -/
lemma KvParts.scalar (h : KvParts resource space path) (hs : isUnicodeScalarString resource = true) :
    isUnicodeScalarString space = true ∧ isUnicodeScalarString path = true ∧
      isUnicodeScalarString (sliceSpace resource) = true ∧
      ∀ p, splitPath resource = some p → isUnicodeScalarString p = true := by
  obtain ⟨encodedSpace, hfirst, hcases⟩ := h.first
  rw [splitFirst_some hfirst] at hs
  obtain ⟨hencoded, hpath⟩ := scalar_around hs
  have hslice : sliceSpace resource = encodedSpace := by rw [sliceSpace, hfirst]
  refine ⟨?_, hpath, hslice ▸ hencoded, ?_⟩
  · rcases hcases with ⟨-, he⟩ | ⟨-, rfl, -⟩
    · have hlegacy : legacyPrefix ++ space = js "tinycloud:/" ++ 47 :: space := by
        rw [legacyPrefix]
        rfl
      rw [he, hlegacy] at hencoded
      exact (scalar_split (by decide) hencoded).2
    · exact hencoded
  · intro p hp
    rw [splitPath, hfirst] at hp
    simp only at hp
    cases hsecond : splitFirst kvMarker path with
    | none =>
      rw [hsecond] at hp
      cases hp
      exact hpath
    | some q =>
      obtain ⟨middle, rest⟩ := q
      rw [hsecond] at hp
      cases hp
      rw [splitFirst_some hsecond] at hpath
      exact (scalar_around hpath).1

end Resource

section Normalised

variable {input : Json N} {resource : JsString} {selector : SelectorKind} {actions : List JsString}

lemma nonEmptyText_ne {members : List (JsString × Json N)} {key : String} {s : JsString}
    (h : nonEmptyText members key = .ok s) : s ≠ [] := by
  unfold nonEmptyText at h
  split at h
  · split at h
    · cases h
    · rename_i hne
      cases h
      exact hne
  · cases h

lemma normalizeKv_spec {members : List (JsString × Json N)} {capability : Capability}
    (h : normalizeKv members = .ok capability) : ∃ resource selector actions,
      capability = .kv resource selector actions ∧ (∃ parts, parseKvResource resource = .ok parts) ∧
        actions ≠ [] ∧ actions.Nodup ∧ ∀ a ∈ actions, a ∈ kvActions.map js := by
  unfold normalizeKv at h
  obtain ⟨-, -, h⟩ := bind_eq_ok h
  obtain ⟨resource, -, h⟩ := bind_eq_ok h
  obtain ⟨parts, hparts, h⟩ := bind_eq_ok h
  split at h
  · rename_i selector items _ _
    split at h
    · cases h
    · rename_i kind hkind
      split at h
      · cases h
      · rename_i hitems
        obtain ⟨actions, hactions, h⟩ := bind_eq_ok h
        split at h
        · rename_i hc
          cases h
          simp only [Bool.and_eq_true, decide_eq_true_eq, List.all_eq_true, List.contains_iff_mem] at hc
          have hperm := List.perm_insertionSort UnitsLe actions
          refine ⟨resource, kind, _, rfl, ⟨parts, hparts⟩, ?_, hperm.nodup_iff.mpr hc.1, fun a ha => hc.2 a (hperm.mem_iff.mp ha)⟩
          intro hnil
          rw [hnil] at hperm
          obtain rfl := hperm.symm.eq_nil
          cases items with
          | nil => exact hitems rfl
          | cons item items =>
            rw [List.mapM_cons] at hactions
            obtain ⟨a, -, hactions⟩ := bind_eq_ok hactions
            obtain ⟨as, -, hactions⟩ := bind_eq_ok hactions
            cases hactions
        · cases h
  · split at h <;> cases h
  · cases h

lemma normalizeEncryption_spec {members : List (JsString × Json N)} {capability : Capability}
    (h : normalizeEncryption members = .ok capability) : ∃ resource,
      capability = .encryption resource ∧ isEncryptionResource resource = true := by
  unfold normalizeEncryption at h
  obtain ⟨-, -, h⟩ := bind_eq_ok h
  obtain ⟨resource, -, h⟩ := bind_eq_ok h
  split at h
  · split at h
    · rename_i hc
      cases h
      exact ⟨resource, rfl, hc.2⟩
    · cases h
  · cases h

lemma kv_of_normalize (h : normalizeUnifiedPolicyCapability input = .ok (.kv resource selector actions)) :
    actions ≠ [] ∧ actions.Nodup ∧ ∀ a ∈ actions, a ∈ kvActions.map js := by
  unfold normalizeUnifiedPolicyCapability at h
  split at h
  · obtain ⟨kind, -, h⟩ := bind_eq_ok h
    split at h
    · obtain ⟨r, s, as, he, -, hrest⟩ := normalizeKv_spec h
      cases he
      exact hrest
    · split at h
      · obtain ⟨r, he, -⟩ := normalizeEncryption_spec h
        cases he
      · cases h
  · cases h

lemma splitLast_some {u : CodeUnit} {s a b : JsString} (h : splitLast u s = some (a, b)) : s = a ++ [u] ++ b := by
  unfold splitLast at h
  split at h
  · rename_i hc
    obtain ⟨rfl, rfl⟩ : _ = a ∧ _ = b := by simpa using h
    rw [List.contains_iff_mem, ← List.mem_reverse] at hc
    have hsplit := List.takeWhile_append_dropWhile (p := (· != u)) (l := s.reverse)
    have hhead : ∃ t, s.reverse.dropWhile (· != u) = u :: t := by
      cases hd : s.reverse.dropWhile (· != u) with
      | nil =>
        have hnone := List.dropWhile_eq_nil_iff.mp hd u hc
        simp at hnone
      | cons v t =>
        have := List.head_dropWhile_not (· != u) (l := s.reverse) (by simp [hd])
        simp only [hd, List.head_cons] at this
        exact ⟨t, by rw [show v = u by simpa using this]⟩
    obtain ⟨t, ht⟩ := hhead
    rw [ht] at hsplit ⊢
    have := congrArg List.reverse hsplit
    rw [List.reverse_append, List.reverse_reverse, List.reverse_cons] at this
    exact this.symm
  · cases h

lemma urn_of_encryption {r : JsString} (h : isEncryptionResource r = true) : urnPrefix <+: r := by
  have hid : ∀ {networkId}, isNetworkId networkId = true → urnPrefix <+: networkId := by
    intro networkId h
    unfold isNetworkId at h
    simp only [Bool.and_eq_true] at h
    exact List.isPrefixOf_iff_prefix.mp h.1
  unfold isEncryptionResource at h
  simp only at h
  split at h
  · exact hid h
  · rename_i name keyPath hname
    simp only [Bool.and_eq_true] at h
    refine (hid h.1.1.1.1).trans ?_
    have hsplit := splitFirst_some hname
    cases hlast : splitLast 58 r with
    | none =>
      rw [hlast] at hsplit
      simp only [Option.elim_none, List.nil_append] at hsplit ⊢
      rw [hsplit, List.append_assoc]
      exact List.prefix_append _ _
    | some p =>
      rw [hlast] at hsplit
      have hr := splitLast_some hlast
      simp only [Option.elim_some] at hsplit ⊢
      conv_rhs => rw [hr, hsplit]
      rw [List.append_assoc name, ← List.append_assoc]
      exact List.prefix_append _ _

lemma encryption_of_normalize (h : normalizeUnifiedPolicyCapability input = .ok (.encryption resource)) :
    urnPrefix <+: resource := by
  unfold normalizeUnifiedPolicyCapability at h
  split at h
  · obtain ⟨kind, -, h⟩ := bind_eq_ok h
    split at h
    · obtain ⟨r, s, as, he, -⟩ := normalizeKv_spec h
      cases he
    · split at h
      · obtain ⟨r, he, hr⟩ := normalizeEncryption_spec h
        cases he
        exact urn_of_encryption hr
      · cases h
  · cases h

end Normalised

section Values

lemma normal_textArray {items : List JsString} (h : ∀ t ∈ items, isUnicodeScalarString t = true) :
    jcsNormal (textArray items : Json N) = true := by
  rw [textArray, jcsNormal]
  induction items with
  | nil => rfl
  | cons t items ih =>
    simp only [List.map_cons, jcsNormalItems, jcsNormal, Bool.and_eq_true]
    exact ⟨h t List.mem_cons_self, ih fun u hu => h u (List.mem_cons_of_mem _ hu)⟩

lemma scalar_actions : ∀ a ∈ kvActions.map js, isUnicodeScalarString a = true ∧ isForbiddenKey a = false := by decide

lemma scalar_selector (selector : SelectorKind) : isUnicodeScalarString selector.text = true := by
  cases selector <;> decide

lemma normal_caveat {resource : JsString} (h : isUnicodeScalarString resource = true) (selector : SelectorKind) :
    jcsNormal (caveatOf selector resource : Json N) = true := by
  have hkeys : ∀ k ∈ ["kind", "type", "value"].map js, isUnicodeScalarString k = true ∧ isForbiddenKey k = false := by
    decide
  have htype : isUnicodeScalarString (js "xyz.tinycloud.resource/selector") = true := by decide
  simp [caveatOf, jcsNormal, jcsNormalMembers, h, scalar_selector, htype, hkeys]

lemma normal_nativeKv {space resource : JsString} {path : Option JsString} {actions : List JsString}
    (hspace : isUnicodeScalarString space = true) (hpath : ∀ p, path = some p → isUnicodeScalarString p = true)
    (hresource : isUnicodeScalarString resource = true) (hactions : ∀ a ∈ actions, a ∈ kvActions.map js)
    (selector : SelectorKind) : jcsNormal (nativeKv space path resource selector actions : Json N) = true := by
  have hkeys : ∀ k ∈ ["actions", "caveat", "path", "service", "space"].map js,
      isUnicodeScalarString k = true ∧ isForbiddenKey k = false := by decide
  have hservice : isUnicodeScalarString (js "tinycloud.kv") = true := by decide
  have harray := normal_textArray (N := N) fun a ha => (scalar_actions a (hactions a ha)).1
  have hcaveat := normal_caveat (N := N) hresource selector
  cases path with
  | none => simp [nativeKv, jcsNormal, jcsNormalMembers, harray, hcaveat, hservice, hspace, hkeys]
  | some p => simp [nativeKv, jcsNormal, jcsNormalMembers, harray, hcaveat, hservice, hspace, hpath p rfl, hkeys]

lemma normal_nativeEncryption {resource : JsString} (h : isUnicodeScalarString resource = true) :
    jcsNormal (nativeEncryption resource : Json N) = true := by
  have hkeys : ∀ k ∈ ["actions", "path", "service", "space"].map js,
      isUnicodeScalarString k = true ∧ isForbiddenKey k = false := by decide
  have hservice : isUnicodeScalarString (js "tinycloud.encryption") = true := by decide
  have harray : jcsNormal (textArray [decryptAction] : Json N) = true := by
    rw [textArray]
    rfl
  simp [nativeEncryption, jcsNormal, jcsNormalMembers, harray, hservice, h, hkeys]

lemma proper_textArray (items : List JsString) : (textArray items : Json N).Proper := by
  refine .arr fun v hv => ?_
  obtain ⟨t, -, rfl⟩ := List.mem_map.mp hv
  exact .str t

lemma proper_caveat (selector : SelectorKind) (resource : JsString) : (caveatOf selector resource : Json N).Proper := by
  have hkeys : [js "kind", js "type", js "value"].Nodup := by decide
  refine .obj (by exact hkeys) fun m hm => ?_
  simp only [List.mem_cons, List.not_mem_nil, or_false] at hm
  rcases hm with rfl | rfl | rfl <;> exact .str _

lemma proper_nativeKv (space path resource : JsString) (selector : SelectorKind) (actions : List JsString) :
    (nativeKv space (some path) resource selector actions : Json N).Proper := by
  have hkeys : [js "actions", js "caveat", js "path", js "service", js "space"].Nodup := by decide
  refine .obj (by exact hkeys) fun m hm => ?_
  simp only [Option.map_some, Option.toList_some, List.cons_append, List.nil_append, List.mem_cons,
    List.not_mem_nil, or_false] at hm
  rcases hm with rfl | rfl | rfl | rfl | rfl
  · exact proper_textArray actions
  · exact proper_caveat selector resource
  · exact .str _
  · exact .str _
  · exact .str _

lemma proper_nativeEncryption (resource : JsString) : (nativeEncryption resource : Json N).Proper := by
  have hkeys : [js "actions", js "path", js "service", js "space"].Nodup := by decide
  refine .obj (by exact hkeys) fun m hm => ?_
  simp only [List.mem_cons, List.not_mem_nil, or_false] at hm
  rcases hm with rfl | rfl | rfl | rfl
  · exact proper_textArray _
  · exact .str _
  · exact .str _
  · exact .str _

/-- The members of a native capability can be read off its canonical form. -/
lemma native_canonical {space path space' path' resource : JsString} {selector : SelectorKind} {actions : List JsString} :
    (nativeKv space (some path) resource selector actions : Json N).canonical =
      (nativeKv space' (some path') resource selector actions : Json N).canonical ↔ space = space' ∧ path = path' := by
  have hsort : ∀ space path, (nativeKv space (some path) resource selector actions : Json N).canonical =
      .obj [(js "actions", (textArray actions).canonical), (js "caveat", (caveatOf selector resource).canonical),
        (js "path", .str path), (js "service", .str (js "tinycloud.kv")), (js "space", .str space)] := by
    intro space path
    rw [nativeKv, canonical_obj]
    simp only [Option.map_some, Option.toList_some, List.cons_append, List.nil_append]
    rw [(sorted_of_keys (by exact nativeKv_keys)).insertionSort_eq]
    rfl
  rw [hsort, hsort]
  simp [and_comm]

end Values

section Grants

lemma fromEntries_of_nodup {entries : List (JsString × Json N)} (h : (entries.map Prod.fst).Nodup) :
    fromEntries entries = .obj entries := by
  rw [fromEntries, foldl_setMember (by rwa [List.nil_append]), List.nil_append]

lemma normal_grants {resource : JsString} {actions : List JsString} (hresource : isUnicodeScalarString resource = true)
    (hnodup : actions.Nodup) (hactions : ∀ a ∈ actions, a ∈ kvActions.map js) (selector : SelectorKind) :
    jcsNormal (grantsOf (.kv resource selector actions) : Json N) = true := by
  have hcaveat := normal_caveat (N := N) hresource selector
  rw [grantsOf, fromEntries_of_nodup]
  · rw [jcsNormal]
    clear hnodup
    induction actions with
    | nil => rfl
    | cons action actions ih =>
      obtain ⟨hscalar, hplain⟩ := scalar_actions action (hactions action List.mem_cons_self)
      simp only [List.map_cons, jcsNormalMembers, jcsNormal, jcsNormalItems, hscalar, hplain, hcaveat, Bool.not_false,
        Bool.and_true, Bool.true_and]
      exact ih fun a ha => hactions a (List.mem_cons_of_mem _ ha)
  · rw [List.map_map]
    exact hnodup.map fun _ _ h => h

lemma normal_decrypt (network : JsString) : jcsNormal (grantsOf (.encryption network) : Json N) = true := by
  have hkey : isUnicodeScalarString decryptAction = true ∧ isForbiddenKey decryptAction = false := by decide
  simp [grantsOf, jcsNormal, jcsNormalMembers, jcsNormalItems, hkey]

lemma not_inherited {resource : JsString} (h : js "tinycloud:" <+: resource ∨ urnPrefix <+: resource) :
    resource ∉ inheritedNames.map js ∧ isForbiddenKey resource = false := by
  have hnames : ∀ name ∈ inheritedNames.map js, ¬ js "tinycloud:" <+: name ∧ ¬ urnPrefix <+: name := by decide
  have hkeys : ∀ name ∈ [js "__proto__", js "constructor"], name ∈ inheritedNames.map js := by decide
  have hnot : resource ∉ inheritedNames.map js := fun hin =>
    h.elim (hnames resource hin).1 (hnames resource hin).2
  refine ⟨hnot, ?_⟩
  rw [isForbiddenKey, Bool.or_eq_false_iff, beq_eq_false_iff_ne, beq_eq_false_iff_ne]
  constructor
  · rintro rfl
    exact hnot (hkeys _ (by simp))
  · rintro rfl
    exact hnot (hkeys _ (by simp))

/-- A resource is not a network. -/
lemma resource_ne {resource network : JsString} (hr : js "tinycloud:" <+: resource) (hn : urnPrefix <+: network) :
    resource ≠ network := by
  rintro rfl
  have hfirst : (js "tinycloud:").head? = some 116 ∧ urnPrefix.head? = some 117 := by decide
  obtain ⟨t, ht⟩ := hr
  obtain ⟨u, hu⟩ := hn
  have hboth := congrArg List.head? (ht.trans hu.symm)
  rw [List.head?_append, List.head?_append, hfirst.1, hfirst.2] at hboth
  cases hboth

variable [NumberFormat N]

lemma serialize_swap {k l : JsString} (h : k ≠ l) (v w : Json N) :
    (Json.obj [(k, v), (l, w)]).serialize = (Json.obj [(l, w), (k, v)]).serialize := by
  have hsort : List.insertionSort KeyLe [(k, v), (l, w)] = List.insertionSort KeyLe [(l, w), (k, v)] := by
    have hanti : ∀ {a b}, UnitsLe a b → UnitsLe b a → a = b := fun h h' => Std.Antisymm.antisymm _ _ h h'
    have htotal := Std.Total.total (r := UnitsLe) k l
    by_cases hkl : UnitsLe k l
    · have hlk : ¬ UnitsLe l k := fun hlk => h (hanti hkl hlk)
      simp [List.insertionSort, KeyLe, hkl, hlk]
    · have hlk : UnitsLe l k := htotal.resolve_left hkl
      simp [List.insertionSort, KeyLe, hkl, hlk]
  rw [serialize_obj, serialize_obj, hsort]

variable {resource network : JsString} {selector : SelectorKind} {actions : List JsString} {kv decrypt : Json N}

omit [NumberFormat N] in
/-- The builder's attenuation, the KV capability first or last. -/
lemma compactAttenuation_pair (hkv : normalizeUnifiedPolicyCapability kv = .ok (.kv resource selector actions))
    (hdecrypt : normalizeUnifiedPolicyCapability decrypt = .ok (.encryption network))
    (hr : js "tinycloud:" <+: resource) (hn : urnPrefix <+: network) :
    compactAttenuationForPolicyCapabilities [kv, decrypt] = .ok (.obj
        [(resource, grantsOf (.kv resource selector actions)), (network, grantsOf (.encryption network))]) ∧
      compactAttenuationForPolicyCapabilities [decrypt, kv] = .ok (.obj
        [(network, grantsOf (.encryption network)), (resource, grantsOf (.kv resource selector actions))]) := by
  have hne := resource_ne hr hn
  have hfresh : (inheritedNames.map js).contains resource = false ∧ (inheritedNames.map js).contains network = false := by
    rw [← Bool.not_eq_true, ← Bool.not_eq_true, List.contains_iff_mem, List.contains_iff_mem]
    exact ⟨(not_inherited (.inl hr)).1, (not_inherited (.inr hn)).1⟩
  simp only [← Bool.not_eq_true] at hfresh
  constructor
  · simp only [compactAttenuationForPolicyCapabilities, attenuationEntries, hkv, hdecrypt, bind, Except.bind,
      Capability.resource, List.map_nil, List.nil_append, List.map_cons, List.cons_append, if_neg hfresh.1]
    rw [List.contains_cons, beq_false_of_ne hne.symm, Bool.false_or, if_neg hfresh.2]
    rfl
  · simp only [compactAttenuationForPolicyCapabilities, attenuationEntries, hkv, hdecrypt, bind, Except.bind,
      Capability.resource, List.map_nil, List.nil_append, List.map_cons, List.cons_append, if_neg hfresh.2]
    rw [List.contains_cons, beq_false_of_ne hne, Bool.false_or, if_neg hfresh.1]
    rfl

end Grants

section Ceiling

variable [NumberFormat N] {localeCompare : JsString → JsString → ℤ} {kv decrypt : Json N} {inputs : List (Json N)}
  {resource space path network text : JsString} {selector : SelectorKind} {actions : List JsString}
  {ceiling : List Capability}

omit [NumberFormat N] in
lemma sortBy_ok {α : Type} {compare : JsString → JsString → ℤ} {text : α → Except String JsString}
    {values sorted : List α} (hlen : 1 < values.length) (h : sortBy compare text values = .ok sorted) :
    ∀ v ∈ values, ∃ t, text v = .ok t := by
  rw [sortBy, if_neg (by omega)] at h
  obtain ⟨keyed, hkeyed, -⟩ := bind_eq_ok h
  clear h hlen
  induction values generalizing keyed with
  | nil => exact fun v hv => absurd hv List.not_mem_nil
  | cons v values ih =>
    rw [List.mapM_cons] at hkeyed
    obtain ⟨p, hp, hkeyed⟩ := bind_eq_ok hkeyed
    obtain ⟨rest, hrest, -⟩ := bind_eq_ok hkeyed
    intro w hw
    rcases List.mem_cons.mp hw with rfl | hw
    · cases ht : text w with
      | error e =>
        rw [ht] at hp
        cases hp
      | ok t => exact ⟨t, rfl⟩
    · exact ih rest hrest w hw

omit [NumberFormat N] in
/-- The normalised capabilities, in the order of the inputs. -/
lemma normalized_pair {β : Type} {f : Json N → Except String β} {a b : β} (hkv : f kv = .ok a)
    (hdecrypt : f decrypt = .ok b) : [kv, decrypt].mapM f = .ok [a, b] ∧ [decrypt, kv].mapM f = .ok [b, a] := by
  simp [hkv, hdecrypt, bind, Except.bind, pure, Except.pure]

/-- A ceiling that has a text consists of capabilities that have one. -/
lemma normal_of_text (hkv : normalizeUnifiedPolicyCapability kv = .ok (.kv resource selector actions))
    (hdecrypt : normalizeUnifiedPolicyCapability decrypt = .ok (.encryption network))
    (hinputs : inputs = [kv, decrypt] ∨ inputs = [decrypt, kv]) (htext : normalizedCeilingText inputs = .ok text) :
    jcsNormal ((Capability.kv resource selector actions).json : Json N) = true ∧
      jcsNormal ((Capability.encryption network).json : Json N) = true := by
  obtain ⟨capabilities, hcapabilities, htext⟩ := bind_eq_ok htext
  obtain ⟨sorted, hsorted, -⟩ := bind_eq_ok htext
  obtain ⟨hfirst, hlast⟩ := normalized_pair hkv hdecrypt
  rcases hinputs with rfl | rfl
  · rw [hfirst] at hcapabilities
    cases hcapabilities
    have hall := sortBy_ok (by simp) hsorted
    obtain ⟨s, hs⟩ := hall _ List.mem_cons_self
    obtain ⟨t, ht⟩ := hall _ (List.mem_cons_of_mem _ List.mem_cons_self)
    exact ⟨jcsNormal_of_ok hs, jcsNormal_of_ok ht⟩
  · rw [hlast] at hcapabilities
    cases hcapabilities
    have hall := sortBy_ok (by simp) hsorted
    obtain ⟨s, hs⟩ := hall _ List.mem_cons_self
    obtain ⟨t, ht⟩ := hall _ (List.mem_cons_of_mem _ List.mem_cons_self)
    exact ⟨jcsNormal_of_ok ht, jcsNormal_of_ok hs⟩

omit [NumberFormat N] in
lemma scalar_resources (hkv : jcsNormal ((Capability.kv resource selector actions).json : Json N) = true)
    (hdecrypt : jcsNormal ((Capability.encryption network).json : Json N) = true) :
    isUnicodeScalarString resource = true ∧ isUnicodeScalarString network = true := by
  simp only [Capability.json, jcsNormal, jcsNormalMembers, Bool.and_eq_true] at hkv hdecrypt
  exact ⟨hkv.2.2.1.2, hdecrypt.2.2.1.2⟩

variable {α : Type} {compare : JsString → JsString → ℤ} {f : α → Except String JsString} {x y : α}

/-- Either side's sort puts the decrypt capability first. -/
lemma sorted_json (hcompare : Collates compare)
    (hx : f x = .ok ((Capability.kv resource selector actions).json : Json N).serialize)
    (hy : f y = .ok ((Capability.encryption network).json : Json N).serialize) :
    sortBy compare f [x, y] = .ok [y, x] ∧ sortBy compare f [y, x] = .ok [y, x] := by
  obtain ⟨s, hs⟩ := encryption_text (N := N) network
  obtain ⟨t, ht⟩ := kv_text (N := N) resource selector actions
  rw [ht] at hx
  rw [hs] at hy
  obtain ⟨hlt, hgt⟩ := hcompare.quote_s s t
  exact (sortBy_pair hy hx hlt hgt).symm

lemma sorted_native (hcompare : Collates compare) (hne : actions ≠ []) (hall : ∀ a ∈ actions, a ∈ kvActions.map js)
    (hx : f x = .ok (nativeKv space (some path) resource selector actions : Json N).serialize)
    (hy : f y = .ok (nativeEncryption network : Json N).serialize) :
    sortBy compare f [x, y] = .ok [y, x] ∧ sortBy compare f [y, x] = .ok [y, x] := by
  obtain ⟨s, hs⟩ := nativeEncryption_text (N := N) network
  obtain ⟨t, ht⟩ := nativeKv_text (N := N) hne hall space path resource selector
  rw [ht] at hx
  rw [hs] at hy
  obtain ⟨hlt, hgt⟩ := hcompare.e_k s t
  exact (sortBy_pair hy hx hlt hgt).symm

/-- The verifier's order of the ceiling, however it is listed. -/
lemma sorted_ceiling (hcollate : Collates localeCompare)
    (hkv : jcsNormal ((Capability.kv resource selector actions).json : Json N) = true)
    (hdecrypt : jcsNormal ((Capability.encryption network).json : Json N) = true)
    (hceiling : ceiling = [.kv resource selector actions, .encryption network] ∨
      ceiling = [.encryption network, .kv resource selector actions]) :
    sortedCapabilities (N := N) localeCompare ceiling = .ok [.encryption network, .kv resource selector actions] := by
  obtain ⟨hfirst, hlast⟩ := sorted_json (N := N) (x := Capability.kv resource selector actions)
    (y := .encryption network) (f := fun capability => canonicalize (capability.json : Json N)) hcollate
    (canonicalize_of_normal hkv).1 (canonicalize_of_normal hdecrypt).1
  rcases hceiling with rfl | rfl
  · exact hfirst
  · exact hlast

lemma serialize_ceiling (hkv : jcsNormal ((Capability.kv resource selector actions).json : Json N) = true)
    (hdecrypt : jcsNormal ((Capability.encryption network).json : Json N) = true) :
    canonicalize (.arr [(Capability.encryption network).json, (Capability.kv resource selector actions).json] : Json N) =
      jcsCanonicalize
        (.arr [(Capability.encryption network).json, (Capability.kv resource selector actions).json] : Json N) := by
  have hnormal : jcsNormal (.arr [(Capability.encryption network).json,
      (Capability.kv resource selector actions).json] : Json N) = true := by
    simp only [jcsNormal, jcsNormalItems, hkv, hdecrypt, Bool.and_true]
  obtain ⟨hleft, hright⟩ := canonicalize_of_normal hnormal
  rw [hleft, hright]

/-- The ceiling's text is the same on both sides. -/
lemma ceilingText_eq (hcollate : Collates localeCompare)
    (hkv : normalizeUnifiedPolicyCapability kv = .ok (.kv resource selector actions))
    (hdecrypt : normalizeUnifiedPolicyCapability decrypt = .ok (.encryption network))
    (hinputs : inputs = [kv, decrypt] ∨ inputs = [decrypt, kv])
    (hceiling : ceiling = [.kv resource selector actions, .encryption network] ∨
      ceiling = [.encryption network, .kv resource selector actions])
    (htext : normalizedCeilingText inputs = .ok text) :
    verifierCeilingText (N := N) localeCompare ceiling = normalizedCeilingText inputs := by
  obtain ⟨hkvNormal, hdecryptNormal⟩ := normal_of_text hkv hdecrypt hinputs htext
  obtain ⟨hkvFirst, hdecryptFirst⟩ := normalized_pair hkv hdecrypt
  obtain ⟨hfirst, hlast⟩ := sorted_json (x := ((Capability.kv resource selector actions).json : Json N))
    (y := (Capability.encryption network).json) (f := jcsCanonicalize) collates_units
    (canonicalize_of_normal hkvNormal).2 (canonicalize_of_normal hdecryptNormal).2
  have hbuilder : normalizedCeilingText inputs =
      jcsCanonicalize (.arr [(Capability.encryption network).json, (Capability.kv resource selector actions).json] : Json N) := by
    rcases hinputs with rfl | rfl
    · simp only [normalizedCeilingText, hkvFirst, bind, Except.bind, List.map_cons, List.map_nil, hfirst]
    · simp only [normalizedCeilingText, hdecryptFirst, bind, Except.bind, List.map_cons, List.map_nil, hlast]
  rw [hbuilder, ← serialize_ceiling hkvNormal hdecryptNormal, verifierCeilingText,
    sorted_ceiling hcollate hkvNormal hdecryptNormal hceiling]
  rfl

/-- So is the attenuation's, whose members the canonical text sorts. -/
lemma attenuationText_eq (hcollate : Collates localeCompare)
    (hkv : normalizeUnifiedPolicyCapability kv = .ok (.kv resource selector actions))
    (hdecrypt : normalizeUnifiedPolicyCapability decrypt = .ok (.encryption network))
    (hparse : parseKvResource resource = .ok (space, path))
    (hinputs : inputs = [kv, decrypt] ∨ inputs = [decrypt, kv])
    (hceiling : ceiling = [.kv resource selector actions, .encryption network] ∨
      ceiling = [.encryption network, .kv resource selector actions])
    (htext : normalizedCeilingText inputs = .ok text) :
    verifierAttenuationText (N := N) localeCompare ceiling = attenuationText inputs := by
  obtain ⟨hkvNormal, hdecryptNormal⟩ := normal_of_text hkv hdecrypt hinputs htext
  obtain ⟨hresource, hnetwork⟩ := scalar_resources hkvNormal hdecryptNormal
  obtain ⟨-, hnodup, hall⟩ := kv_of_normalize hkv
  have hr := (parts_of_parse hparse).starts
  have hn := encryption_of_normalize hdecrypt
  have hne := resource_ne hr hn
  obtain ⟨hfirst, hlast⟩ := compactAttenuation_pair hkv hdecrypt hr hn
  have hkvGrants := normal_grants (N := N) hresource hnodup hall selector
  have hdecryptGrants := normal_decrypt (N := N) network
  have hrKey := (not_inherited (.inl hr)).2
  have hnKey := (not_inherited (.inr hn)).2
  have hsorted : verifierAttenuationText (N := N) localeCompare ceiling = .ok (Json.obj
      [(network, (grantsOf (.encryption network) : Json N)), (resource, grantsOf (.kv resource selector actions))]).serialize := by
    have hnormal : jcsNormal (.obj [(network, (grantsOf (.encryption network) : Json N)),
        (resource, grantsOf (.kv resource selector actions))]) = true := by
      simp only [jcsNormal, jcsNormalMembers, hresource, hnetwork, hrKey, hnKey, hkvGrants, hdecryptGrants,
        Bool.not_false, Bool.and_true]
    rw [verifierAttenuationText, sorted_ceiling hcollate hkvNormal hdecryptNormal hceiling]
    simp only [bind, Except.bind, List.map_cons, List.map_nil, Capability.resource]
    rw [fromEntries_of_nodup (by simpa using hne.symm), (canonicalize_of_normal hnormal).1]
  rw [hsorted]
  rcases hinputs with rfl | rfl
  · have hnormal : jcsNormal (.obj [(resource, grantsOf (.kv resource selector actions)),
        (network, (grantsOf (.encryption network) : Json N))]) = true := by
      simp only [jcsNormal, jcsNormalMembers, hresource, hnetwork, hrKey, hnKey, hkvGrants, hdecryptGrants,
        Bool.not_false, Bool.and_true]
    rw [attenuationText, hfirst, serialize_swap hne.symm]
    exact (canonicalize_of_normal hnormal).2.symm
  · have hnormal : jcsNormal (.obj [(network, (grantsOf (.encryption network) : Json N)),
        (resource, grantsOf (.kv resource selector actions))]) = true := by
      simp only [jcsNormal, jcsNormalMembers, hresource, hnetwork, hrKey, hnKey, hkvGrants, hdecryptGrants,
        Bool.not_false, Bool.and_true]
    rw [attenuationText, hlast]
    exact (canonicalize_of_normal hnormal).2.symm

omit [NumberFormat N] in
/-- The text of a decrypt capability's and a KV capability's projections. -/
lemma projected_text {space path : JsString} (selector : SelectorKind) (hspace : isUnicodeScalarString space = true)
    (hpath : isUnicodeScalarString path = true) (hresource : isUnicodeScalarString resource = true)
    (hnetwork : isUnicodeScalarString network = true) (hall : ∀ a ∈ actions, a ∈ kvActions.map js) :
    jcsNormal (.arr [nativeEncryption network, nativeKv space (some path) resource selector actions] : Json N) = true := by
  have hkv := normal_nativeKv (N := N) hspace (fun p (hp : some path = some p) => Option.some.inj hp ▸ hpath) hresource
    hall selector
  have hdecrypt := normal_nativeEncryption (N := N) hnetwork
  simp only [jcsNormal, jcsNormalItems, hkv, hdecrypt, Bool.and_true]

omit [NumberFormat N] in
lemma proper_pair {v w : Json N} (hv : v.Proper) (hw : w.Proper) : (Json.arr [v, w]).Proper := by
  refine .arr fun u hu => ?_
  simp only [List.mem_cons, List.not_mem_nil, or_false] at hu
  rcases hu with rfl | rfl
  · exact hv
  · exact hw

/-- The projections have one text exactly if both splitters find the same space and path. -/
lemma projectionText_eq_iff (hcollate : Collates localeCompare)
    (hkv : normalizeUnifiedPolicyCapability kv = .ok (.kv resource selector actions))
    (hdecrypt : normalizeUnifiedPolicyCapability decrypt = .ok (.encryption network))
    (hparse : parseKvResource resource = .ok (space, path))
    (hinputs : inputs = [kv, decrypt] ∨ inputs = [decrypt, kv])
    (hceiling : ceiling = [.kv resource selector actions, .encryption network] ∨
      ceiling = [.encryption network, .kv resource selector actions])
    (htext : normalizedCeilingText inputs = .ok text) :
    verifierProjectionText (N := N) localeCompare ceiling = projectionText inputs ↔
      sliceSpace resource = space ∧ splitPath resource = some path := by
  obtain ⟨hkvNormal, hdecryptNormal⟩ := normal_of_text hkv hdecrypt hinputs htext
  obtain ⟨hresource, hnetwork⟩ := scalar_resources hkvNormal hdecryptNormal
  obtain ⟨hne, -, hall⟩ := kv_of_normalize hkv
  have hparts := parts_of_parse hparse
  obtain ⟨hspace, hpath, hslice, hsplit⟩ := hparts.scalar hresource
  obtain ⟨p, hp⟩ := hparts.splitPath_some
  have henc := normal_nativeEncryption (N := N) hnetwork
  have hbuilt := normal_nativeKv (N := N) hspace (fun q (hq : some path = some q) => Option.some.inj hq ▸ hpath) hresource
    hall selector
  have hread := normal_nativeKv (N := N) hslice (fun q (hq : some p = some q) => Option.some.inj hq ▸ hsplit p hp) hresource
    hall selector
  have hbuilder : projectionText inputs =
      .ok (Json.arr [nativeEncryption network, (nativeKv space (some path) resource selector actions : Json N)]).serialize := by
    have hkvNative : projectUnifiedPolicyCapability kv = .ok (nativeKv space (some path) resource selector actions) := by
      simp only [projectUnifiedPolicyCapability, hkv, hparse, bind, Except.bind, pure, Except.pure]
    have hencNative : projectUnifiedPolicyCapability decrypt = .ok (nativeEncryption network) := by
      simp only [projectUnifiedPolicyCapability, hdecrypt, bind, Except.bind, pure, Except.pure]
    obtain ⟨hkvFirst, hencFirst⟩ := normalized_pair hkvNative hencNative
    obtain ⟨hfirst, hlast⟩ := sorted_native (f := jcsCanonicalize) collates_units hne hall
      (canonicalize_of_normal hbuilt).2 (canonicalize_of_normal henc).2
    have harr := (canonicalize_of_normal
      (projected_text (N := N) selector hspace hpath hresource hnetwork hall)).2
    rw [← harr]
    rcases hinputs with rfl | rfl
    · simp only [projectionText, projectUnifiedPolicyCapabilities, hkvFirst, bind, Except.bind, hfirst]
    · simp only [projectionText, projectUnifiedPolicyCapabilities, hencFirst, bind, Except.bind, hlast]
  have hverifier : verifierProjectionText (N := N) localeCompare ceiling =
      .ok (Json.arr [nativeEncryption network,
        (nativeKv (sliceSpace resource) (some p) resource selector actions : Json N)]).serialize := by
    obtain ⟨-, hlast⟩ := sorted_native (f := canonicalize) hcollate hne hall
      (canonicalize_of_normal hread).1 (canonicalize_of_normal henc).1
    have harr := (canonicalize_of_normal
      (projected_text (N := N) selector hslice (hsplit p hp) hresource hnetwork hall)).1
    rw [← harr, verifierProjectionText, sorted_ceiling hcollate hkvNormal hdecryptNormal hceiling]
    simp only [bind, Except.bind, List.map_cons, List.map_nil, verifierNative, hp, hlast]
  rw [hbuilder, hverifier, Except.ok.injEq,
    serialize_eq_iff (proper_pair (proper_nativeEncryption _) (proper_nativeKv _ _ _ _ _))
      (proper_pair (proper_nativeEncryption _) (proper_nativeKv _ _ _ _ _)),
    canonical_arr, canonical_arr, hp]
  simp only [List.map_cons, List.map_nil, Json.arr.injEq, List.cons.injEq, and_true, true_and]
  rw [native_canonical, Option.some.injEq]

/-- The verifier computes what the builder signed exactly if the KV marker does not come again in the path and
the resource is not in the old form; the ceiling's and the attenuation's texts always agree. -/
theorem verifier_projects (hcollate : Collates localeCompare)
    (hkv : normalizeUnifiedPolicyCapability kv = .ok (.kv resource selector actions))
    (hdecrypt : normalizeUnifiedPolicyCapability decrypt = .ok (.encryption network))
    (hparse : parseKvResource resource = .ok (space, path))
    (hinputs : inputs = [kv, decrypt] ∨ inputs = [decrypt, kv])
    (hceiling : ceiling = [.kv resource selector actions, .encryption network] ∨
      ceiling = [.encryption network, .kv resource selector actions])
    (htext : normalizedCeilingText inputs = .ok text) :
    verifierCeilingText (N := N) localeCompare ceiling = normalizedCeilingText inputs ∧
      verifierAttenuationText (N := N) localeCompare ceiling = attenuationText inputs ∧
      (verifierProjectionText (N := N) localeCompare ceiling = projectionText inputs ↔
        ¬ kvMarker <:+: path ∧ ¬ legacyPrefix <+: resource) := by
  refine ⟨ceilingText_eq hcollate hkv hdecrypt hinputs hceiling htext,
    attenuationText_eq hcollate hkv hdecrypt hparse hinputs hceiling htext, ?_⟩
  have hparts := parts_of_parse hparse
  rw [projectionText_eq_iff hcollate hkv hdecrypt hparse hinputs hceiling htext, hparts.space_iff, hparts.path_iff,
    and_comm]

def sampleNetwork : JsString := js "urn:tinycloud:encryption:did:pkh:eip155:1:0xab:notes"

def sampleKv (resource : JsString) : Json Double :=
  (Capability.kv resource .below [js "tinycloud.kv/get", js "tinycloud.kv/metadata"]).json

def sampleInputs (resource : JsString) : List (Json Double) :=
  [sampleKv resource, (Capability.encryption sampleNetwork).json]

def sampleCeiling (resource : JsString) : List Capability :=
  [.encryption sampleNetwork, .kv resource .below [js "tinycloud.kv/get", js "tinycloud.kv/metadata"]]

def plainResource : JsString := js "tinycloud:did:pkh:eip155:1:0xab:notes/kv/drafts/a"
def nestedResource : JsString := js "tinycloud:did:pkh:eip155:1:0xab:notes/kv/backup/kv/a"

theorem verifier_projects_plain :
    @verifierProjectionText Double exactNumbers compareUtf16CodeUnits (sampleCeiling plainResource) =
      @projectionText Double exactNumbers (sampleInputs plainResource) := by
  have hkv : normalizeUnifiedPolicyCapability (sampleKv plainResource) =
      .ok (.kv plainResource .below [js "tinycloud.kv/get", js "tinycloud.kv/metadata"]) := by rfl
  have hdecrypt : normalizeUnifiedPolicyCapability ((Capability.encryption sampleNetwork).json : Json Double) =
      .ok (.encryption sampleNetwork) := by rfl
  have hparse : parseKvResource plainResource = .ok (js "tinycloud:did:pkh:eip155:1:0xab:notes", js "drafts/a") := by
    rfl
  obtain ⟨text, htext⟩ := eq_ok_of_isOk (by decide +kernel :
    (@normalizedCeilingText Double exactNumbers (sampleInputs plainResource)).isOk = true)
  exact (@verifier_projects Double exactNumbers _ _ _ _ _ _ _ _ _ _ _ _ collates_units hkv hdecrypt hparse
    (.inl rfl) (.inr rfl) htext).2.2.mpr ⟨by decide +kernel, by decide +kernel⟩

/-- A path that names the marker again is cut off by the verifier. -/
theorem verifier_cuts_path :
    @verifierProjectionText Double exactNumbers compareUtf16CodeUnits (sampleCeiling nestedResource) ≠
        @projectionText Double exactNumbers (sampleInputs nestedResource) ∧
      (@normalizedCeilingText Double exactNumbers (sampleInputs nestedResource)).isOk = true ∧
      splitPath nestedResource = some (js "backup") := by
  refine ⟨?_, by decide +kernel, by decide +kernel⟩
  decide +kernel

end Ceiling

end TinyCloud.Policy
