import TinyCloud.Runs.Fallible
import TinyCloud.Text.Encoders
import TinyCloud.Text.Escapes
import Mathlib.Data.List.Dedup
import Mathlib.Data.List.Infix

/-! The capabilities of a policy's ceiling: their canonical form, their digest and which contains which. -/

namespace TinyCloud.Ceiling

open TinyCloud.Text TinyCloud.Encoders TinyCloud.Runs

section Registry

structure RegistryEntry where
  urn : String
  service : String
  aliasOf : Option String
  implies : Bool

/-- The registry's entries of the ceiling's services. -/
def CAPABILITY_REGISTRY : List RegistryEntry :=
  [⟨"tinycloud.kv/get", "tinycloud.kv", none, false⟩, ⟨"tinycloud.kv/list", "tinycloud.kv", none, false⟩,
    ⟨"tinycloud.kv/metadata", "tinycloud.kv", none, false⟩, ⟨"tinycloud.kv/put", "tinycloud.kv", none, false⟩,
    ⟨"tinycloud.kv/del", "tinycloud.kv", none, false⟩,
    ⟨"tinycloud.kv/delete", "tinycloud.kv", some "tinycloud.kv/del", false⟩,
    ⟨"tinycloud.kv/sync", "tinycloud.kv", none, false⟩, ⟨"tinycloud.kv/retain", "tinycloud.kv", none, false⟩,
    ⟨"tinycloud.sql/read", "tinycloud.sql", none, false⟩,
    ⟨"tinycloud.sql/select", "tinycloud.sql", some "tinycloud.sql/read", false⟩,
    ⟨"tinycloud.sql/write", "tinycloud.sql", none, false⟩, ⟨"tinycloud.sql/schema", "tinycloud.sql", none, false⟩,
    ⟨"tinycloud.sql/admin", "tinycloud.sql", none, true⟩, ⟨"tinycloud.sql/*", "tinycloud.sql", none, true⟩,
    ⟨"tinycloud.vfs/get", "tinycloud.vfs", none, false⟩, ⟨"tinycloud.vfs/list", "tinycloud.vfs", none, false⟩,
    ⟨"tinycloud.vfs/metadata", "tinycloud.vfs", none, false⟩, ⟨"tinycloud.vfs/put", "tinycloud.vfs", none, false⟩,
    ⟨"tinycloud.vfs/delete", "tinycloud.vfs", none, false⟩]

def CEILING_SERVICES : List JsString := [js "tinycloud.kv", js "tinycloud.sql", js "tinycloud.vfs"]

def grantableActions (service : JsString) : List JsString :=
  (CAPABILITY_REGISTRY.filter fun entry => js entry.service == service && entry.aliasOf.isNone && !entry.implies &&
    !(js "/*").isSuffixOf (js entry.urn)).map fun entry => js entry.urn

end Registry

section Model

/-- What a `PolicyCapabilityError` carries. -/
structure CeilingError where
  code : String
  message : JsString
  deriving DecidableEq

variable {N : Type}

abbrev JsonObject (N : Type) := List (JsString × Json (Finite N))

structure PolicyCapability (N : Type) where
  service : JsString
  space : JsString
  path : JsString
  actions : List JsString
  caveats : Option (JsonObject N)

structure NormalizeOptions where
  allowPrefixPaths : Bool
  requireCanonical : Bool

/-- The normalization form C, SHA-256, and which numbers are indices. -/
structure Platform (N : Type) where
  nfc : JsString → JsString
  sha256Hex : Bytes → JsString
  isIndex : N → Bool

def refuse {α : Type} (code : String) (message : JsString) : Except CeilingError α := .error ⟨code, message⟩

def expectObject (input : Input N) : Except CeilingError (JsonObject N) :=
  match normalizeJson input (js "$") with
  | .error message => refuse "policy-capability-malformed" message
  | .ok (.obj members) => .ok members
  | .ok _ => refuse "policy-capability-malformed" (js "$ must be an object")

def assertExactKeys (object : JsonObject N) (allowed : List String) : Except CeilingError Unit :=
  match object.find? fun m => !(allowed.map js).contains m.1 with
  | none => .ok ()
  | some (key, _) =>
    refuse
      (if key = js "id" ∨ key = js "scope" then "policy-capability-malformed" else "policy-capability-unknown-key")
      (js "$ has unknown field " ++ key)

def requiredValue (object : JsonObject N) (key code : String) : Except CeilingError (Json (Finite N)) :=
  match object.lookup (js key) with
  | some value => .ok value
  | none => refuse code (dotted (js "$") (js key) ++ js " is required")

def requiredString (object : JsonObject N) (key code : String) : Except CeilingError JsString := do
  match ← requiredValue object key code with
  | .str value =>
    if value = [] then refuse code (dotted (js "$") (js key) ++ js " must be a non-empty string") else .ok value
  | _ => refuse code (dotted (js "$") (js key) ++ js " must be a non-empty string")

def requiredArray (object : JsonObject N) (key code : String) : Except CeilingError (List (Json (Finite N))) := do
  match ← requiredValue object key code with
  | .arr items => .ok items
  | _ => refuse code (dotted (js "$") (js key) ++ js " must be an array")

/-- `*`, `?` and `/` -/
def validateConcreteSpace (space : JsString) : Except CeilingError Unit :=
  if space.contains 42 || space.contains 63 || space.contains 47 then
    refuse "policy-capability-malformed-space" (js "$.space must be concrete")
  else .ok ()

def malformedPath (message : String) : Except CeilingError Unit := refuse "policy-capability-malformed-path" (js message)

def validateSegments (allowPrefixPaths : Bool) : List JsString → Except CeilingError Unit
  | [] => .ok ()
  | segment :: segments =>
    if segment = [] ∧ !(allowPrefixPaths && segments.isEmpty) then malformedPath "$.path has an empty segment"
    else if segment = js "." ∨ segment = js ".." then malformedPath "$.path has a traversal segment"
    else if segment.contains 42 || segment.contains 63 then malformedPath "$.path has a wildcard segment"
    else validateSegments allowPrefixPaths segments

def validateRawPath (path : JsString) (options : NormalizeOptions) : Except CeilingError Unit :=
  if path = [] then malformedPath "$.path is empty"
  else if !options.allowPrefixPaths && (js "/").isSuffixOf path then
    malformedPath "$.path must be an exact concrete path, not a prefix"
  else if (js "/*").isSuffixOf path || decide (js "**" <:+: path) then malformedPath "$.path is a prefix form"
  else validateSegments options.allowPrefixPaths (path.splitOn 47)

def actionText (index : ℕ) (text : String) : JsString := indexed (js "$.actions") index ++ js text

def isGrantable (service action : JsString) : Bool :=
  (service ++ js "/").isPrefixOf action && !action.contains 42 && (grantableActions service).contains action

def rawActions (service : JsString) : ℕ → List (Json (Finite N)) → Except CeilingError (List JsString)
  | _, [] => .ok []
  | index, .str action :: actions =>
    if action = [] then
      refuse "policy-capability-malformed-action" (actionText index " must be a non-empty action URN")
    else if !isGrantable service action then
      refuse "policy-capability-malformed-action" (actionText index " is not a grantable action URN")
    else (rawActions service (index + 1) actions).map (action :: ·)
  | index, _ :: _ => refuse "policy-capability-malformed-action" (actionText index " must be a non-empty action URN")

/-- `[...new Set(actions)].sort()` -/
def sortedUnique (actions : List JsString) : List JsString := actions.dedup.insertionSort UnitsLe

def normalizeActions (actions : List (Json (Finite N))) (service : JsString) (options : NormalizeOptions) :
    Except CeilingError (List JsString) := do
  if grantableActions service = [] then
    refuse "policy-capability-malformed-service" (js "$.service is unsupported")
  else
    let raw ← rawActions service 0 actions
    if raw = [] then refuse "policy-capability-empty-actions" (js "$.actions must not be empty")
    else if options.requireCanonical && raw != sortedUnique raw then
      refuse "policy-capability-malformed-action"
        (js "$.actions must already be sorted, deduplicated canonical action URNs")
    else .ok (sortedUnique raw)

end Model

section Caveats

variable {N : Type} (P : Platform N)

def malformedCaveats {α : Type} (message : JsString) : Except CeilingError α :=
  refuse "policy-capability-malformed-caveats" message

def assertCaveatKeys (object : JsonObject N) (allowed : List String) (path : JsString) : Except CeilingError Unit :=
  match object.find? fun m => !(allowed.map js).contains m.1 with
  | none => .ok ()
  | some (key, _) => malformedCaveats (path ++ js " has unknown field " ++ key)

def requiredCaveat (object : JsonObject N) (key : String) (path : JsString) : Except CeilingError (Json (Finite N)) :=
  match object.lookup (js key) with
  | some value => .ok value
  | none => malformedCaveats (dotted path (js key) ++ js " is required")

def caveatString (object : JsonObject N) (key : String) (path : JsString) : Except CeilingError JsString := do
  match ← requiredCaveat object key path with
  | .str value =>
    if value = [] then malformedCaveats (dotted path (js key) ++ js " must be a non-empty string") else .ok value
  | _ => malformedCaveats (dotted path (js key) ++ js " must be a non-empty string")

def objectAt (path : JsString) : Json (Finite N) → Except CeilingError (JsonObject N)
  | .obj members => .ok members
  | _ => malformedCaveats (path ++ js " must be an object")

/-- The negative zero is a safe integer that is not below zero. -/
def isCaveatIndex : Json (Finite N) → Bool
  | .num (.value n) => P.isIndex n
  | .num .negativeZero => true
  | _ => false

def validateFixedParam (input : Json (Finite N)) (path : JsString) : Except CeilingError Unit := do
  let object ← objectAt path input
  assertCaveatKeys object ["index", "value"] path
  let index ← requiredCaveat object "index" path
  if !isCaveatIndex P index then malformedCaveats (dotted path (js "index") ++ js " must be a non-negative integer")
  else (requiredCaveat object "value" path).map fun _ => ()

def eachAt (check : Json (Finite N) → JsString → Except CeilingError Unit) (path : JsString) :
    ℕ → List (Json (Finite N)) → Except CeilingError Unit
  | _, [] => .ok ()
  | index, item :: items => do
    check item (indexed path index)
    eachAt check path (index + 1) items

def validateSqlStatement (input : Json (Finite N)) (path : JsString) : Except CeilingError Unit := do
  let object ← objectAt path input
  assertCaveatKeys object ["name", "sql", "fixedParams"] path
  let _ ← caveatString object "name" path
  let _ ← caveatString object "sql" path
  match ← requiredCaveat object "fixedParams" path with
  | .arr fixedParams => eachAt (validateFixedParam P) (dotted path (js "fixedParams")) 0 fixedParams
  | _ => malformedCaveats (dotted path (js "fixedParams") ++ js " must be an array")

def validateSqlCaveats (input : JsonObject N) : Except CeilingError (JsonObject N) := do
  assertCaveatKeys input ["mode", "readOnly", "statements"] (js "$.caveats")
  let mode ← caveatString input "mode" (js "$.caveats")
  if mode ≠ js "constrained-statements" then malformedCaveats (js "$.caveats.mode is unsupported")
  else
    match ← requiredCaveat input "readOnly" (js "$.caveats") with
    | .bool true =>
      match ← requiredCaveat input "statements" (js "$.caveats") with
      | .arr (statement :: statements) => do
        eachAt (validateSqlStatement P) (js "$.caveats.statements") 0 (statement :: statements)
        .ok input
      | _ => malformedCaveats (js "$.caveats.statements must be a non-empty array")
    | _ => malformedCaveats (js "$.caveats.readOnly must be true")

def validateCaveats (input : Json (Finite N)) (service : JsString) : Except CeilingError (JsonObject N) := do
  let object ← objectAt (js "$.caveats") input
  if service = js "tinycloud.sql" then validateSqlCaveats P object
  else malformedCaveats (js "$.caveats are not defined for this service")

end Caveats

section Canonicalize

variable {N : Type} (P : Platform N)

def optionalCaveats (object : JsonObject N) (service : JsString) : Except CeilingError (Option (JsonObject N)) :=
  match object.lookup (js "caveats") with
  | some value => (validateCaveats P value service).map some
  | none => .ok none

def normalizePolicyCapabilityWithOptions (input : Input N) (options : NormalizeOptions) :
    Except CeilingError (PolicyCapability N) := do
  let object ← expectObject input
  assertExactKeys object ["service", "space", "path", "actions", "caveats"]
  let service ← requiredString object "service" "policy-capability-malformed-service"
  throwIf (!CEILING_SERVICES.contains service) ⟨"policy-capability-malformed-service",
    js "$.service is outside the frozen permissionsCeiling vocabulary"⟩
  let space ← requiredString object "space" "policy-capability-malformed-space"
  validateConcreteSpace space
  throwIf (options.requireCanonical && P.nfc space != space) ⟨"policy-capability-malformed-space",
    js "$.space must already be canonical NFC"⟩
  let rawPath ← requiredString object "path" "policy-capability-malformed-path"
  validateRawPath rawPath options
  throwIf (options.requireCanonical && normalizePath P.nfc rawPath != rawPath) ⟨"policy-capability-malformed-path",
    js "$.path must already be canonical"⟩
  validateRawPath (normalizePath P.nfc rawPath) options
  let items ← requiredArray object "actions" "policy-capability-malformed-action"
  let actions ← normalizeActions items service options
  let caveats ← optionalCaveats P object service
  .ok ⟨service, P.nfc space, normalizePath P.nfc rawPath, actions, caveats⟩

def AUTHORING : NormalizeOptions where
  allowPrefixPaths := false
  requireCanonical := true

def CANONICALIZE : NormalizeOptions where
  allowPrefixPaths := true
  requireCanonical := false

def normalizePolicyCapability (input : Input N) : Except CeilingError (PolicyCapability N) :=
  normalizePolicyCapabilityWithOptions P input AUTHORING

def canonicalizePolicyCapability (input : Input N) : Except CeilingError (PolicyCapability N) :=
  normalizePolicyCapabilityWithOptions P input CANONICALIZE

/-- The capability as the object that the functions return. -/
def PolicyCapability.members (c : PolicyCapability N) : JsonObject N :=
  [(js "service", .str c.service), (js "space", .str c.space), (js "path", .str c.path),
    (js "actions", .arr (c.actions.map .str))] ++ (c.caveats.map fun caveats => (js "caveats", .obj caveats)).toList

def PolicyCapability.input (c : PolicyCapability N) : Input N := Input.ofJson (.obj c.members)

variable [NumberFormat N] [Zero N]

def policyCapabilityDigestHex (input : Input N) : Except CeilingError JsString := do
  let canonical ← canonicalizePolicyCapability P input
  match jcsCanonicalize canonical.input with
  | .ok text => .ok (P.sha256Hex (textEncode (js "xyz.tinycloud.policy/PolicyCapability/v0" ++ [0]) ++ textEncode text))
  | .error message => .error ⟨"SignedObjectCanonicalizationError", message⟩

def pathContains (authority request : JsString) : Bool :=
  authority == request || (js "/").isSuffixOf authority && authority.isPrefixOf request

/-- Statements are compared by their canonical text; those of a capability always have one. -/
def sameStatement (a b : Json (Finite N)) : Bool :=
  match jcsCanonicalize (Input.ofJson a), jcsCanonicalize (Input.ofJson b) with
  | .ok s, .ok t => s == t
  | _, _ => false

def isConstrained (caveats : JsonObject N) : Bool :=
  match caveats.lookup (js "mode") with
  | some (.str mode) => mode == js "constrained-statements"
  | _ => false

def statementsOf (caveats : JsonObject N) : List (Json (Finite N)) :=
  match caveats.lookup (js "statements") with
  | some (.arr statements) => statements
  | _ => []

def caveatsContain : Option (JsonObject N) → Option (JsonObject N) → Bool
  | none, request => request.isNone
  | some authority, none => authority.isEmpty
  | some authority, some request =>
    isConstrained authority && isConstrained request &&
      (statementsOf request).all fun statement => (statementsOf authority).any fun candidate =>
        sameStatement candidate statement

def policyCapabilityContains (authority request : Input N) : Bool :=
  match canonicalizePolicyCapability P authority, canonicalizePolicyCapability P request with
  | .ok auth, .ok req =>
    auth.service == req.service && auth.space == req.space && pathContains auth.path req.path &&
      req.actions.all (auth.actions.contains ·) && caveatsContain auth.caveats req.caveats
  | _, _ => false

end Canonicalize

section Accepted

variable {N : Type} {P : Platform N} {x : Input N} {c : PolicyCapability N} {object : JsonObject N}

/-- What the canonicalizer found in an input that it accepts. -/
structure Accepted (P : Platform N) (object : JsonObject N) (c : PolicyCapability N) (space rawPath : JsString)
    (items : List (Json (Finite N))) : Prop where
  keys : assertExactKeys object ["service", "space", "path", "actions", "caveats"] = .ok ()
  service : requiredString object "service" "policy-capability-malformed-service" = .ok c.service
  known : CEILING_SERVICES.contains c.service = true
  hasSpace : requiredString object "space" "policy-capability-malformed-space" = .ok space
  concrete : validateConcreteSpace space = .ok ()
  space : c.space = P.nfc space
  hasPath : requiredString object "path" "policy-capability-malformed-path" = .ok rawPath
  rawValid : validateRawPath rawPath CANONICALIZE = .ok ()
  path : c.path = normalizePath P.nfc rawPath
  valid : validateRawPath c.path CANONICALIZE = .ok ()
  hasActions : requiredArray object "actions" "policy-capability-malformed-action" = .ok items
  actions : normalizeActions items c.service CANONICALIZE = .ok c.actions
  caveats : optionalCaveats P object c.service = .ok c.caveats

lemma expectObject_ok (h : expectObject x = .ok object) : normalizeJson x (js "$") = .ok (.obj object) := by
  unfold expectObject at h
  split at h
  · cases h
  · rename_i members hnormal
    cases h
    exact hnormal
  · cases h

lemma accepted_of_ok (h : canonicalizePolicyCapability P x = .ok c) : ∃ object space rawPath items,
    normalizeJson x (js "$") = .ok (.obj object) ∧ Accepted P object c space rawPath items := by
  obtain ⟨object, hobject, h⟩ := bind_eq_ok h
  obtain ⟨_, hkeys, h⟩ := bind_eq_ok h
  obtain ⟨service, hservice, h⟩ := bind_eq_ok h
  obtain ⟨_, hknown, h⟩ := bind_eq_ok h
  obtain ⟨space, hspace, h⟩ := bind_eq_ok h
  obtain ⟨_, hconcrete, h⟩ := bind_eq_ok h
  obtain ⟨_, -, h⟩ := bind_eq_ok h
  obtain ⟨rawPath, hrawPath, h⟩ := bind_eq_ok h
  obtain ⟨_, hrawValid, h⟩ := bind_eq_ok h
  obtain ⟨_, -, h⟩ := bind_eq_ok h
  obtain ⟨_, hvalid, h⟩ := bind_eq_ok h
  obtain ⟨items, hitems, h⟩ := bind_eq_ok h
  obtain ⟨actions, hactions, h⟩ := bind_eq_ok h
  obtain ⟨caveats, hcaveats, h⟩ := bind_eq_ok h
  cases h
  exact ⟨object, space, rawPath, items, expectObject_ok hobject, {
    keys := hkeys
    service := hservice
    known := by simpa using throwIf_eq_ok hknown
    hasSpace := hspace
    concrete := hconcrete
    space := rfl
    hasPath := hrawPath
    rawValid := hrawValid
    path := rfl
    valid := hvalid
    hasActions := hitems
    actions := hactions
    caveats := hcaveats }⟩

lemma not_required (b : Bool) (e : CeilingError) :
    throwIf (CANONICALIZE.requireCanonical && b) e = .ok () := rfl

lemma ok_of_accepted {space rawPath : JsString} {items : List (Json (Finite N))}
    (hobject : normalizeJson x (js "$") = .ok (.obj object)) (h : Accepted P object c space rawPath items) :
    canonicalizePolicyCapability P x = .ok c := by
  have hexpect : expectObject x = .ok object := by rw [expectObject, hobject]
  obtain ⟨service, cspace, path, actions, caveats⟩ := c
  obtain rfl : cspace = P.nfc space := h.space
  obtain rfl : path = normalizePath P.nfc rawPath := h.path
  have hknown : throwIf (!CEILING_SERVICES.contains service) (⟨"policy-capability-malformed-service",
      js "$.service is outside the frozen permissionsCeiling vocabulary"⟩ : CeilingError) = .ok () := by
    rw [h.known]
    rfl
  rw [canonicalizePolicyCapability, normalizePolicyCapabilityWithOptions, bind_of_ok hexpect, bind_of_ok h.keys,
    bind_of_ok h.service, bind_of_ok hknown, bind_of_ok h.hasSpace, bind_of_ok h.concrete,
    bind_of_ok (not_required _ _), bind_of_ok h.hasPath, bind_of_ok h.rawValid, bind_of_ok (not_required _ _),
    bind_of_ok h.valid, bind_of_ok h.hasActions, bind_of_ok h.actions, bind_of_ok h.caveats]

end Accepted

section Again

variable {N : Type} {P : Platform N} {service : JsString} {actions raw : List JsString}

lemma rawActions_inv {items : List (Json (Finite N))} {i : ℕ} (h : rawActions service i items = .ok raw) :
    items = raw.map .str ∧ ∀ a ∈ raw, a ≠ [] ∧ isGrantable service a = true := by
  induction items generalizing raw i with
  | nil =>
    cases h
    simp
  | cons item items ih =>
    cases item with
    | str action =>
      rw [rawActions] at h
      split_ifs at h with hempty hbad
      · cases h
      · cases h
      · cases hrest : rawActions service (i + 1) items with
        | error e =>
          rw [hrest] at h
          cases h
        | ok rest =>
          rw [hrest] at h
          cases h
          obtain ⟨rfl, hall⟩ := ih hrest
          exact ⟨rfl, List.forall_mem_cons.mpr ⟨⟨hempty, by simpa using hbad⟩, hall⟩⟩
    | null | bool | num | arr | obj =>
      rw [rawActions] at h
      · cases h
      all_goals simp

lemma rawActions_of (h : ∀ a ∈ raw, a ≠ [] ∧ isGrantable service a = true) (i : ℕ) :
    rawActions service i (raw.map (.str : JsString → Json (Finite N))) = .ok raw := by
  induction raw generalizing i with
  | nil => rfl
  | cons a raw ih =>
    obtain ⟨⟨hempty, hgrantable⟩, hall⟩ := List.forall_mem_cons.mp h
    rw [List.map_cons, rawActions, if_neg hempty, hgrantable, ih hall]
    rfl

lemma mem_sortedUnique {a : JsString} : a ∈ sortedUnique actions ↔ a ∈ actions := by
  rw [sortedUnique, List.mem_insertionSort, List.mem_dedup]

lemma sortedUnique_again (actions : List JsString) : sortedUnique (sortedUnique actions) = sortedUnique actions := by
  have hnodup : (sortedUnique actions).Nodup :=
    (List.perm_insertionSort UnitsLe actions.dedup).nodup_iff.mpr (List.nodup_dedup actions)
  have hsorted : (sortedUnique actions).Pairwise UnitsLe := List.pairwise_insertionSort UnitsLe actions.dedup
  rw [sortedUnique, hnodup.dedup, hsorted.insertionSort_eq]

/-- Accepted actions are accepted again as they are. -/
lemma normalizeActions_again {items : List (Json (Finite N))}
    (h : normalizeActions items service CANONICALIZE = .ok actions) :
    normalizeActions (actions.map (.str : JsString → Json (Finite N))) service CANONICALIZE = .ok actions ∧
      ∀ a ∈ actions, .str a ∈ items := by
  unfold normalizeActions at h ⊢
  split_ifs at h with hservice
  · cases h
  · obtain ⟨raw, hraw, hrest⟩ := bind_eq_ok h
    obtain ⟨rfl, hall⟩ := rawActions_inv hraw
    split_ifs at hrest with hempty hcanonical
    · cases hrest
    · cases hrest
    · cases hrest
      have hsorted : ∀ a ∈ sortedUnique raw, a ≠ [] ∧ isGrantable service a = true :=
        fun a ha => hall a (mem_sortedUnique.mp ha)
      have hne : sortedUnique raw ≠ [] := by
        obtain ⟨a, ha⟩ := List.exists_mem_of_ne_nil raw hempty
        exact List.ne_nil_of_mem (mem_sortedUnique.mpr ha)
      refine ⟨?_, fun a ha => List.mem_map_of_mem (mem_sortedUnique.mp ha)⟩
      rw [if_neg hservice, bind_of_ok (rawActions_of hsorted 0), if_neg hne, if_neg (by simp [CANONICALIZE]),
        sortedUnique_again]

lemma objectAt_ok {path : JsString} {value : Json (Finite N)} {object : JsonObject N}
    (h : objectAt path value = .ok object) : value = .obj object := by
  unfold objectAt at h
  split at h
  · cases h
    rfl
  · cases h

lemma validateSqlCaveats_ok {input object : JsonObject N} (h : validateSqlCaveats P input = .ok object) :
    object = input := by
  obtain ⟨_, -, hmode⟩ := bind_eq_ok h
  obtain ⟨_, -, hread⟩ := bind_eq_ok hmode
  split_ifs at hread
  · cases hread
  · obtain ⟨_, -, hstatements⟩ := bind_eq_ok hread
    split at hstatements
    · obtain ⟨_, -, heach⟩ := bind_eq_ok hstatements
      split at heach
      · obtain ⟨_, -, hend⟩ := bind_eq_ok heach
        cases hend
        rfl
      · cases heach
    · cases hstatements

/-- Caveats are returned as they were given. -/
lemma validateCaveats_ok {value : Json (Finite N)} {object : JsonObject N}
    (h : validateCaveats P value service = .ok object) : value = .obj object := by
  obtain ⟨input, hinput, hrest⟩ := bind_eq_ok h
  split_ifs at hrest
  · rw [validateSqlCaveats_ok hrest]
    exact objectAt_ok hinput
  · cases hrest

variable {c : PolicyCapability N} {object : JsonObject N} {space rawPath : JsString} {items : List (Json (Finite N))}

lemma lookup_members (c : PolicyCapability N) : c.members.lookup (js "service") = some (.str c.service) ∧
    c.members.lookup (js "space") = some (.str c.space) ∧ c.members.lookup (js "path") = some (.str c.path) ∧
    c.members.lookup (js "actions") = some (.arr (c.actions.map .str)) ∧
    c.members.lookup (js "caveats") = c.caveats.map .obj := by
  obtain ⟨service, space, path, actions, caveats⟩ := c
  cases caveats <;> exact ⟨rfl, rfl, rfl, rfl, rfl⟩

lemma keys_members (c : PolicyCapability N) :
    assertExactKeys c.members ["service", "space", "path", "actions", "caveats"] = .ok () := by
  obtain ⟨service, space, path, actions, caveats⟩ := c
  cases caveats <;> rfl

lemma requiredString_of {key code : String} {value : JsString} (h : object.lookup (js key) = some (.str value))
    (hne : value ≠ []) : requiredString object key code = .ok value := by
  rw [requiredString, requiredValue, h]
  exact if_neg hne

lemma requiredString_inv {key code : String} {value : JsString} (h : requiredString object key code = .ok value) :
    object.lookup (js key) = some (.str value) ∧ value ≠ [] := by
  obtain ⟨found, hfound, hvalue⟩ := bind_eq_ok h
  unfold requiredValue at hfound
  split at hfound
  · rename_i member hlookup
    cases hfound
    split at hvalue
    · split_ifs at hvalue with hempty
      · cases hvalue
      · cases hvalue
        exact ⟨hlookup, hempty⟩
    · cases hvalue
  · cases hfound

lemma requiredArray_inv {key code : String} (h : requiredArray object key code = .ok items) :
    object.lookup (js key) = some (.arr items) := by
  obtain ⟨found, hfound, hvalue⟩ := bind_eq_ok h
  unfold requiredValue at hfound
  split at hfound
  · rename_i member hlookup
    cases hfound
    split at hvalue
    · cases hvalue
      exact hlookup
    · cases hvalue
  · cases hfound

lemma member_normal (hobject : Normal (.obj object : Json (Finite N))) {k : JsString} {v : Json (Finite N)}
    (h : object.lookup k = some v) : Normal v := by
  cases hobject with
  | obj _ hvalues => exact hvalues _ (mem_of_lookup h)

lemma scalar_of_normal {s : JsString} (h : Normal (.str s : Json (Finite N))) : isUnicodeScalarString s = true := by
  cases h with
  | str h => exact h

lemma item_normal (h : Normal (.arr items : Json (Finite N))) : ∀ v ∈ items, Normal v := by
  cases h with
  | arr h => exact h

lemma known_scalar {service : JsString} (h : CEILING_SERVICES.contains service = true) :
    isUnicodeScalarString service = true ∧ service ≠ [] := by
  simp only [CEILING_SERVICES, List.contains_cons, List.contains_nil, Bool.or_false, Bool.or_eq_true, beq_iff_eq] at h
  obtain rfl | rfl | rfl := h <;> decide

lemma optionalCaveats_inv (h : optionalCaveats P object service = .ok c.caveats) :
    object.lookup (js "caveats") = c.caveats.map .obj := by
  unfold optionalCaveats at h
  split at h
  · rename_i value hlookup
    cases hvalidate : validateCaveats P value service with
    | error e =>
      rw [hvalidate] at h
      cases h
    | ok caveats =>
      rw [hvalidate] at h
      rw [hlookup, validateCaveats_ok hvalidate, ← Except.ok.inj h]
      rfl
  · rename_i hlookup
    rw [hlookup, ← Except.ok.inj h]
    rfl

/-- The object that is returned passes the checks of the encoder. -/
lemma members_normal (std : NfcStandard P.nfc) (hobject : Normal (.obj object : Json (Finite N)))
    (h : Accepted P object c space rawPath items) : Normal (.obj c.members : Json (Finite N)) := by
  have hspace : isUnicodeScalarString c.space = true := by
    rw [h.space]
    exact std.scalar _ (scalar_of_normal (member_normal hobject (requiredString_inv h.hasSpace).1))
  have hpath : isUnicodeScalarString c.path = true := by
    rw [h.path]
    exact std.scalar _ (scalar_decode _ []
      (scalar_of_normal (member_normal hobject (requiredString_inv h.hasPath).1)))
  have hactions : ∀ v ∈ c.actions.map .str, Normal (v : Json (Finite N)) := by
    have hitems := item_normal (member_normal hobject (requiredArray_inv h.hasActions))
    exact List.forall_mem_map.mpr fun a ha => hitems _ ((normalizeActions_again h.actions).2 a ha)
  have hcaveats : ∀ caveats, c.caveats = some caveats → Normal (.obj caveats : Json (Finite N)) := by
    intro caveats heq
    have hlookup := optionalCaveats_inv h.caveats
    rw [heq] at hlookup
    exact member_normal hobject hlookup
  have hbase : ∀ m ∈ ([(js "service", .str c.service), (js "space", .str c.space), (js "path", .str c.path),
      (js "actions", .arr (c.actions.map .str))] : JsonObject N), PlainKey m.1 ∧ Normal m.2 := by
    simp only [List.forall_mem_cons, PlainKey]
    exact ⟨⟨by decide, .str (known_scalar h.known).1⟩, ⟨by decide, .str hspace⟩, ⟨by decide, .str hpath⟩,
      ⟨by decide, .arr hactions⟩, by simp⟩
  have hall : ∀ m ∈ c.members, PlainKey m.1 ∧ Normal m.2 := by
    intro m hm
    rcases List.mem_append.mp hm with hm | hm
    · exact hbase m hm
    · obtain ⟨caveats, hcav, rfl⟩ := Option.map_eq_some_iff.mp (Option.mem_toList.mp hm)
      have hname : PlainKey (js "caveats") := by
        unfold PlainKey
        decide
      exact ⟨hname, hcaveats caveats hcav⟩
  exact .obj (fun m hm => (hall m hm).1) fun m hm => (hall m hm).2

lemma concrete_again (std : NfcStandard P.nfc) (h : validateConcreteSpace space = .ok ()) :
    validateConcreteSpace (P.nfc space) = .ok () := by
  have hnot : ∀ u : CodeUnit, isPlain u = true → u ∉ space → (P.nfc space).contains u = false := by
    intro u hu hmem
    simpa using fun hin => hmem (std.mem hu hin)
  unfold validateConcreteSpace at h ⊢
  split_ifs at h with hbad
  · cases h
  · simp only [Bool.or_eq_true, List.contains_iff_mem, not_or] at hbad
    rw [hnot 42 (by decide) hbad.1.1, hnot 63 (by decide) hbad.1.2, hnot 47 (by decide) hbad.2]
    rfl

lemma validateRawPath_inv {path : JsString} {options : NormalizeOptions} (h : validateRawPath path options = .ok ()) :
    path ≠ [] ∧ validateSegments options.allowPrefixPaths (path.splitOn 47) = .ok () := by
  unfold validateRawPath at h
  split_ifs at h with hempty
  · cases h
  · cases h
  · cases h
  · exact ⟨hempty, h⟩

/-- What was accepted is accepted again, as long as another pass leaves its path as it is. -/
lemma accepted_again (std : NfcStandard P.nfc) (h : Accepted P object c space rawPath items)
    (hstable : normalizePath P.nfc c.path = c.path) :
    Accepted P c.members c c.space c.path (c.actions.map .str) where
  keys := keys_members c
  service := requiredString_of (lookup_members c).1 (known_scalar h.known).2
  known := h.known
  hasSpace := by
    refine requiredString_of (lookup_members c).2.1 ?_
    rw [h.space]
    exact std.nonempty _ (requiredString_inv h.hasSpace).2
  concrete := by
    rw [h.space]
    exact concrete_again std h.concrete
  space := by rw [h.space, std.idempotent]
  hasPath := requiredString_of (lookup_members c).2.2.1 (validateRawPath_inv h.valid).1
  rawValid := h.valid
  path := hstable.symm
  valid := h.valid
  hasActions := by
    rw [requiredArray, requiredValue, (lookup_members c).2.2.2.1]
    rfl
  actions := (normalizeActions_again h.actions).1
  caveats := by
    rw [← h.caveats, optionalCaveats, optionalCaveats, (lookup_members c).2.2.2.2, optionalCaveats_inv h.caveats]

end Again

section Final

variable {N : Type} {P : Platform N} {x : Input N} {c : PolicyCapability N}

/-- The text that an input has as its path. -/
def pathOf : Input N → Option JsString
  | .obj _ _ members =>
    match members.lookup (js "path") with
    | some (_, .str path) => some path
    | _ => none
  | _ => none

lemma str_of_normalizeJson {input : Input N} {path s : JsString} (h : normalizeJson input path = .ok (.str s)) :
    input = .str s := by
  cases input with
  | str t =>
    rw [normalizeJson] at h
    cases hassert : assertUnicodeScalarString t path with
    | error e =>
      rw [hassert] at h
      cases h
    | ok =>
      rw [hassert] at h
      cases h
      rfl
  | arr symbols others items =>
    obtain ⟨_, -, h₁⟩ := bind_eq_ok h
    obtain ⟨_, -, h₂⟩ := bind_eq_ok h₁
    obtain ⟨_, -, h₃⟩ := bind_eq_ok h₂
    cases hitems : normalizeItems items path 0 <;> rw [hitems] at h₃ <;> cases h₃
  | obj symbols plain members =>
    obtain ⟨_, -, h₁⟩ := bind_eq_ok h
    split_ifs at h₁
    cases hmembers : normalizeMembers members path <;> rw [hmembers] at h₁ <;> cases h₁
  | undefined | other | null | bool | num | nonFinite => cases h

lemma pathOf_eq {object : JsonObject N} {rawPath : JsString} (h : normalizeJson x (js "$") = .ok (.obj object))
    (hpath : object.lookup (js "path") = some (.str rawPath)) : pathOf x = some rawPath := by
  cases x with
  | obj symbols plain members =>
    obtain ⟨_, -, h₁⟩ := bind_eq_ok h
    split_ifs at h₁
    cases hmembers : normalizeMembers members (js "$") with
    | error e =>
      rw [hmembers] at h₁
      cases h₁
    | ok values =>
      rw [hmembers] at h₁
      cases h₁
      obtain ⟨property, input, hlookup, hinput⟩ := lookup_normalizeMembers hmembers hpath
      rw [pathOf, hlookup, str_of_normalizeJson hinput]
  | str t =>
    rw [normalizeJson] at h
    cases hassert : assertUnicodeScalarString t (js "$") <;> rw [hassert] at h <;> cases h
  | arr symbols others items =>
    obtain ⟨_, -, h₁⟩ := bind_eq_ok h
    obtain ⟨_, -, h₂⟩ := bind_eq_ok h₁
    obtain ⟨_, -, h₃⟩ := bind_eq_ok h₂
    cases hitems : normalizeItems items (js "$") 0 <;> rw [hitems] at h₃ <;> cases h₃
  | undefined | other | null | bool | num | nonFinite => cases h

/-- Canonicalizing again gives the same capability exactly if its path is left as it is. -/
lemma again_iff (std : NfcStandard P.nfc) (h : canonicalizePolicyCapability P x = .ok c) :
    canonicalizePolicyCapability P c.input = .ok c ↔ ∀ path ∈ pathOf x, opensEscape P.nfc path = false := by
  obtain ⟨object, space, rawPath, items, hnormal, haccepted⟩ := accepted_of_ok h
  have hmembers := members_normal std (normal_of_normalizeJson x hnormal) haccepted
  have hinput : normalizeJson c.input (js "$") = .ok (.obj c.members) := normalizeJson_normal hmembers _
  rw [pathOf_eq hnormal (requiredString_inv haccepted.hasPath).1]
  simp only [Option.mem_some_iff, forall_eq']
  rw [← std.normalizePath_stable_iff, ← haccepted.path]
  constructor
  · intro hagain
    obtain ⟨object', space', rawPath', items', hnormal', haccepted'⟩ := accepted_of_ok hagain
    rw [hinput] at hnormal'
    cases hnormal'
    have hlookup := (requiredString_inv haccepted'.hasPath).1
    rw [(lookup_members c).2.2.1] at hlookup
    cases hlookup
    exact haccepted'.path.symm
  · intro hstable
    exact ok_of_accepted hinput (accepted_again std haccepted hstable)

lemma validateSegments_inv {allowPrefixPaths : Bool} {segments : List JsString}
    (h : validateSegments allowPrefixPaths segments = .ok ()) :
    ∀ segment ∈ segments, (segment ≠ js "." ∧ segment ≠ js "..") ∧ 42 ∉ segment ∧ 63 ∉ segment := by
  induction segments with
  | nil => simp
  | cons segment segments ih =>
    unfold validateSegments at h
    split_ifs at h with hempty htraversal hwildcard
    · cases h
    · cases h
    · cases h
    · refine List.forall_mem_cons.mpr ⟨⟨not_or.mp htraversal, ?_⟩, ih h⟩
      simpa only [Bool.or_eq_true, List.contains_iff_mem, not_or] using hwildcard

lemma decode_segments : ∀ (n : ℕ) (path : JsString), path.length ≤ n → decodeUnreserved path = path →
    ∀ segment ∈ path.splitOn 47, decodeUnreserved segment = segment := by
  intro n
  induction n with
  | zero =>
    intro path hn _ segment hsegment
    obtain rfl := List.length_eq_zero_iff.mp (Nat.le_zero.mp hn)
    rw [List.splitOn_nil, List.mem_singleton] at hsegment
    rw [hsegment]
    rfl
  | succ n ih =>
    intro path hn hpath segment hsegment
    by_cases hslash : (47 : CodeUnit) ∈ path
    · obtain ⟨front, back, rfl⟩ := List.append_of_mem hslash
      obtain ⟨hfront, hback⟩ := decode_sides (by decide) (by decide) hpath
      rw [List.length_append, List.length_cons] at hn
      rw [List.splitOn_append_cons_self, List.mem_append] at hsegment
      rcases hsegment with hsegment | hsegment
      · exact ih front (by omega) hfront segment hsegment
      · exact ih back (by omega) hback segment hsegment
    · rw [List.splitOn_eq_singleton hslash, List.mem_singleton] at hsegment
      rw [hsegment, hpath]

variable [NumberFormat N] [Zero N]

/-- The canonical form stands for the input, and no segment of its path is decoded to a traversal. -/
structure Final (P : Platform N) (x : Input N) (c : PolicyCapability N) : Prop where
  again : canonicalizePolicyCapability P c.input = .ok c
  digest : policyCapabilityDigestHex P c.input = policyCapabilityDigestHex P x
  authority (y : Input N) : policyCapabilityContains P c.input y = policyCapabilityContains P x y
  request (y : Input N) : policyCapabilityContains P y c.input = policyCapabilityContains P y x
  segments : ∀ segment ∈ c.path.splitOn 47, (∀ n, decodeUnreserved^[n] segment ≠ js "." ∧
    decodeUnreserved^[n] segment ≠ js "..") ∧ 42 ∉ segment ∧ 63 ∉ segment

/-- The canonical form is final exactly if decoding the path once makes no further escape. -/
theorem final_iff (std : NfcStandard P.nfc) (h : canonicalizePolicyCapability P x = .ok c) :
    Final P x c ↔ ∀ path ∈ pathOf x, opensEscape P.nfc path = false := by
  refine ⟨fun hfinal => (again_iff std h).mp hfinal.again, fun hpath => ?_⟩
  have hagain := (again_iff std h).mpr hpath
  obtain ⟨object, space, rawPath, items, hnormal, haccepted⟩ := accepted_of_ok h
  have hdecode : decodeUnreserved c.path = c.path := by
    rw [haccepted.path]
    exact std.settled (hpath rawPath (pathOf_eq hnormal (requiredString_inv haccepted.hasPath).1))
  exact {
    again := hagain
    digest := by rw [policyCapabilityDigestHex, policyCapabilityDigestHex, hagain, h]
    authority := fun y => by rw [policyCapabilityContains, policyCapabilityContains, hagain, h]
    request := fun y => by rw [policyCapabilityContains, policyCapabilityContains, hagain, h]
    segments := fun segment hsegment => by
      obtain ⟨htraversal, hwildcard⟩ := validateSegments_inv (validateRawPath_inv haccepted.valid).2 segment hsegment
      refine ⟨fun n => ?_, hwildcard⟩
      rw [Function.iterate_fixed (decode_segments _ _ le_rfl hdecode segment hsegment)]
      exact htraversal }

end Final

section Sample

lemma plain_id : NfcStandard id where
  idempotent _ := rfl
  nonempty _ h := h
  scalar _ h := h
  ascii _ _ := rfl
  boundary _ _ _ _ := rfl
  plain _ := List.Sublist.refl _
  composed s c _ := ⟨c, s, rfl, .inl rfl, List.Sublist.refl _⟩
  alone _ _ _ h := h

/-- On ASCII text the normalization form C is the text. -/
def samplePlatform : Platform Double where
  nfc := id
  sha256Hex _ := []
  isIndex _ := false

def capabilitySample (path : JsString) : PolicyCapability Double where
  service := js "tinycloud.kv"
  space := js "notes"
  path := path
  actions := [js "tinycloud.kv/get"]
  caveats := none

lemma sample_normal {path : JsString} (h : isUnicodeScalarString path = true) :
    Normal (.obj (capabilitySample path).members : Json (Finite Double)) := by
  have hactions : Normal (.arr [.str (js "tinycloud.kv/get")] : Json (Finite Double)) :=
    .arr (by simp [Normal.str (by decide : isUnicodeScalarString (js "tinycloud.kv/get") = true)])
  have hall : ∀ m ∈ (capabilitySample path).members, PlainKey m.1 ∧ Normal m.2 := by
    simp only [PolicyCapability.members, capabilitySample, Option.map_none, Option.toList_none, List.append_nil,
      List.forall_mem_cons, PlainKey]
    exact ⟨⟨by decide, .str (by decide)⟩, ⟨by decide, .str (by decide)⟩, ⟨by decide, .str h⟩, ⟨by decide, hactions⟩,
      by simp⟩
  exact .obj (fun m hm => (hall m hm).1) fun m hm => (hall m hm).2

lemma sample_actions : normalizeActions [(.str (js "tinycloud.kv/get") : Json (Finite Double))] (js "tinycloud.kv")
    CANONICALIZE = .ok [js "tinycloud.kv/get"] := by
  have hraw : rawActions (js "tinycloud.kv") 0 ([js "tinycloud.kv/get"].map (.str : JsString → Json (Finite Double))) =
      .ok [js "tinycloud.kv/get"] := rawActions_of (by decide +kernel) 0
  have hservice : grantableActions (js "tinycloud.kv") ≠ [] := by decide +kernel
  unfold normalizeActions
  rw [if_neg hservice]
  exact bind_of_ok hraw

/-- Of the sample only the path is left to be judged. -/
lemma canonicalize_sample {path : JsString} (hscalar : isUnicodeScalarString path = true)
    (hraw : validateRawPath path CANONICALIZE = .ok ()) :
    canonicalizePolicyCapability samplePlatform (capabilitySample path).input =
      (validateRawPath (normalizePath id path) CANONICALIZE).map fun _ => capabilitySample (normalizePath id path) := by
  have hinput : normalizeJson (capabilitySample path).input (js "$") = .ok (.obj (capabilitySample path).members) :=
    normalizeJson_normal (sample_normal hscalar) _
  have hexpect : expectObject (capabilitySample path).input = .ok (capabilitySample path).members := by
    rw [expectObject, hinput]
  have hservice : requiredString (capabilitySample path).members "service" "policy-capability-malformed-service" =
      .ok (js "tinycloud.kv") := requiredString_of (lookup_members (capabilitySample path)).1 (by decide)
  have hspace : requiredString (capabilitySample path).members "space" "policy-capability-malformed-space" =
      .ok (js "notes") := requiredString_of (lookup_members (capabilitySample path)).2.1 (by decide)
  have hpath : requiredString (capabilitySample path).members "path" "policy-capability-malformed-path" = .ok path :=
    requiredString_of (lookup_members (capabilitySample path)).2.2.1 (validateRawPath_inv hraw).1
  have hactions : requiredArray (capabilitySample path).members "actions" "policy-capability-malformed-action" =
      .ok [.str (js "tinycloud.kv/get")] := by
    rw [requiredArray, requiredValue, (lookup_members (capabilitySample path)).2.2.2.1]
    rfl
  have hconcrete : validateConcreteSpace (js "notes") = .ok () := by decide
  have hknown (e : CeilingError) : throwIf (!CEILING_SERVICES.contains (js "tinycloud.kv")) e = .ok () := by
    rw [show CEILING_SERVICES.contains (js "tinycloud.kv") = true by decide]
    rfl
  rw [canonicalizePolicyCapability, normalizePolicyCapabilityWithOptions, bind_of_ok hexpect,
    bind_of_ok (keys_members _), bind_of_ok hservice, bind_of_ok (hknown _), bind_of_ok hspace,
    bind_of_ok hconcrete, bind_of_ok (not_required _ _), bind_of_ok hpath, bind_of_ok hraw,
    bind_of_ok (not_required _ _)]
  change (validateRawPath (normalizePath id path) CANONICALIZE >>= fun _ => _) = _
  cases validateRawPath (normalizePath id path) CANONICALIZE with
  | error e => rfl
  | ok =>
    have hcaveats : optionalCaveats samplePlatform (capabilitySample path).members (js "tinycloud.kv") = .ok none := by
      rw [optionalCaveats, (lookup_members (capabilitySample path)).2.2.2.2]
      rfl
    rw [bind_of_ok rfl, bind_of_ok hactions, bind_of_ok sample_actions, bind_of_ok hcaveats]
    rfl

lemma canonicalize_sample_to {path canonical : JsString} (hscalar : isUnicodeScalarString path = true)
    (hraw : validateRawPath path CANONICALIZE = .ok ()) (hpath : normalizePath id path = canonical)
    (hvalid : validateRawPath canonical CANONICALIZE = .ok ()) :
    canonicalizePolicyCapability samplePlatform (capabilitySample path).input = .ok (capabilitySample canonical) := by
  rw [canonicalize_sample hscalar hraw, hpath, hvalid]
  rfl

lemma first_canonical : canonicalizePolicyCapability samplePlatform (capabilitySample (js "%2%65")).input =
    .ok (capabilitySample (js "%2e")) :=
  canonicalize_sample_to (by decide) (by decide +kernel) (by decide +kernel) (by decide +kernel)

theorem final_sample : @Final Double exactNumbers _ samplePlatform (capabilitySample (js "a%2Fb/%7Ec")).input
    (capabilitySample (js "a%2Fb/~c")) := by
  have h : canonicalizePolicyCapability samplePlatform (capabilitySample (js "a%2Fb/%7Ec")).input =
      .ok (capabilitySample (js "a%2Fb/~c")) :=
    canonicalize_sample_to (by decide) (by decide +kernel) (by decide +kernel) (by decide +kernel)
  refine (@final_iff Double samplePlatform _ _ exactNumbers _ plain_id h).mpr ?_
  rw [show pathOf (capabilitySample (js "a%2Fb/%7Ec")).input = some (js "a%2Fb/%7Ec") from rfl]
  simp only [Option.mem_some_iff, forall_eq']
  decide +kernel

/-- Decoding the last digit makes the escape of a dot, which another pass refuses as a traversal. -/
theorem canonical_not_final : canonicalizePolicyCapability samplePlatform (capabilitySample (js "%2%65")).input =
      .ok (capabilitySample (js "%2e")) ∧
    canonicalizePolicyCapability samplePlatform (capabilitySample (js "%2e")).input =
      .error ⟨"policy-capability-malformed-path", js "$.path has a traversal segment"⟩ ∧
    decodeUnreserved (js "%2e") = js "." := by
  have hraw : validateRawPath (js "%2e") CANONICALIZE = .ok () := by decide +kernel
  have hpath : normalizePath id (js "%2e") = js "." := by decide +kernel
  have hdot : validateRawPath (js ".") CANONICALIZE =
      .error ⟨"policy-capability-malformed-path", js "$.path has a traversal segment"⟩ := by decide +kernel
  refine ⟨first_canonical, ?_, by decide +kernel⟩
  rw [canonicalize_sample (by decide) hraw, hpath, hdot]
  rfl

end Sample

end TinyCloud.Ceiling
