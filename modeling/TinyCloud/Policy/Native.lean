import TinyCloud.Policy.Projection
import TinyCloud.Text.Meaning

/-! Native capabilities: reading one back gives the capability that was projected, and what it stands for. -/

namespace TinyCloud.Policy

open TinyCloud.Text TinyCloud.Runs

variable {N : Type}

section Model

/-- `===` of two values of a JSON document; two of its arrays or objects are never the same one. -/
def strictEquals [DecidableEq N] : Option (Json N) → Option (Json N) → Bool
  | none, none => true
  | some .null, some .null => true
  | some (.bool a), some (.bool b) => a == b
  | some (.num a), some (.num b) => a == b
  | some (.str a), some (.str b) => a == b
  | _, _ => false

def selectorType : JsString := js "xyz.tinycloud.resource/selector"

def nativeResource (space path : JsString) : JsString :=
  (if (js "tinycloud:").isPrefixOf space then space else legacyPrefix ++ space) ++ kvMarker ++ path

/-- The capability that a KV value and its selector caveat are read as. -/
def kvFromNative (space path : JsString) (caveat : List (JsString × Json N)) (actions : List (Json N)) :
    Except String Capability := do
  exactKeys caveat ["type", "kind", "value"]
  match caveat.lookup (js "type"), caveat.lookup (js "kind"), caveat.lookup (js "value") with
  | some (.str type), some (.str kind), some (.str value) =>
    if type ≠ selectorType ∨ selectorKind kind = none ∨ value ≠ nativeResource space path then
      .error "native selector caveat does not match capability"
    else normalizeUnifiedPolicyCapability (.obj [(js "kind", .str (js "kv")), (js "resource", .str value),
      (js "selector", .str kind), (js "actions", .arr actions)] : Json N)
  | _, _, _ => .error "native selector caveat does not match capability"

def isDecrypt : List (Json N) → Bool
  | [.str action] => action == decryptAction
  | _ => false

def unifiedPolicyCapabilityFromNative [DecidableEq N] : Json N → Except String Capability
  | .obj value => do
    exactKeys value ["service", "space", "path", "actions", "caveat"]
    let service ← nonEmptyText value "service"
    match value.lookup (js "actions") with
    | some (.arr actions) =>
      if service = js "tinycloud.encryption" ∧ (value.lookup (js "caveat")).isNone ∧
          strictEquals (value.lookup (js "space")) (value.lookup (js "path")) ∧ isDecrypt actions then
        normalizeUnifiedPolicyCapability (.obj ((js "kind", .str (js "encryption")) ::
          ((value.lookup (js "space")).map fun space => (js "resource", space)).toList ++
          [(js "action", .str decryptAction)]) : Json N)
      else if service ≠ js "tinycloud.kv" then .error "native capability is not supported"
      else
        match value.lookup (js "space"), value.lookup (js "path") with
        | some (.str space), some (.str path) =>
          match value.lookup (js "caveat") with
          | some (.obj caveat) => kvFromNative space path caveat actions
          | _ => .error "native.caveat must be an object"
        | _, _ => .error "native capability is not supported"
    | _ => .error "native.actions is invalid"
  | _ => .error "native capability must be an object"

end Model

section Readings

variable {members : List (JsString × Json N)} {capability : Capability} {resource space path : JsString}
  {kind : SelectorKind} {raw : List JsString}

lemma nonEmptyText_iff {key : String} {s : JsString} :
    nonEmptyText members key = .ok s ↔ members.lookup (js key) = some (.str s) ∧ s ≠ [] := by
  constructor
  · intro h
    have hne := nonEmptyText_ne h
    unfold nonEmptyText at h
    split at h
    · rename_i hlookup
      split_ifs at h with hempty
      cases h
      exact ⟨hlookup, hempty⟩
    · cases h
  · rintro ⟨hlookup, hne⟩
    rw [nonEmptyText, hlookup]
    exact if_neg hne

lemma mapM_capabilityAction {items : List (Json N)} :
    items.mapM capabilityAction = .ok raw ↔ items = raw.map .str ∧ [] ∉ raw := by
  induction items generalizing raw with
  | nil =>
    constructor
    · intro h
      cases h
      exact ⟨rfl, List.not_mem_nil⟩
    · rintro ⟨h, -⟩
      rw [List.map_eq_nil_iff.mp h.symm]
      rfl
  | cons item items ih =>
    rw [List.mapM_cons]
    constructor
    · intro h
      obtain ⟨action, haction, hrest⟩ := bind_eq_ok h
      obtain ⟨actions, hactions, hend⟩ := bind_eq_ok hrest
      cases hend
      obtain ⟨rfl, hmem⟩ := ih.mp hactions
      unfold capabilityAction at haction
      split at haction
      · split_ifs at haction with hempty
        cases haction
        exact ⟨rfl, by simp [hmem, Ne.symm hempty]⟩
      · cases haction
    · rintro ⟨h, hmem⟩
      obtain ⟨action, actions, rfl, rfl, rfl⟩ := List.map_eq_cons_iff.mp h.symm
      rw [List.mem_cons, not_or] at hmem
      have haction : capabilityAction (.str action : Json N) = .ok action := if_neg (Ne.symm hmem.1)
      rw [bind_of_ok haction, bind_of_ok (ih.mpr ⟨rfl, hmem.2⟩)]
      rfl

/-- A resource and actions that a KV capability may have. -/
structure KvValid (resource : JsString) (raw : List JsString) : Prop where
  canonical : ∃ parts, parseKvResource resource = .ok parts
  nonempty : raw ≠ []
  nodup : raw.Nodup
  known : ∀ a ∈ raw, a ∈ kvActions.map js

/-- What a KV capability says before it is normalised. -/
structure KvGiven (members : List (JsString × Json N)) (resource : JsString) (kind : SelectorKind)
    (raw : List JsString) : Prop extends KvValid resource raw where
  keys : exactKeys members ["kind", "resource", "selector", "actions"] = .ok ()
  hasResource : members.lookup (js "resource") = some (.str resource)
  hasSelector : members.lookup (js "selector") = some (.str kind.text)
  hasActions : members.lookup (js "actions") = some (.arr (raw.map .str))

lemma selectorKind_iff {s : JsString} : selectorKind s = some kind ↔ s = kind.text := by
  have hne : js "prefix" ≠ js "exact" := by decide
  unfold selectorKind
  cases kind with
  | exactly =>
    simp only [SelectorKind.text]
    split_ifs <;> simp [*]
  | below =>
    simp only [SelectorKind.text]
    split_ifs with hexact hpre
    · simp [hexact, hne.symm]
    · simp [hpre]
    · simp [hpre]

lemma nonempty_of_parse {parts : JsString × JsString} (h : parseKvResource resource = .ok parts) : resource ≠ [] := by
  rintro rfl
  cases h

lemma normalizeKv_iff : normalizeKv members = .ok capability ↔
    ∃ resource kind raw, KvGiven members resource kind raw ∧
      capability = .kv resource kind (raw.insertionSort UnitsLe) := by
  constructor
  · intro h
    obtain ⟨_, hkeys, h₁⟩ := bind_eq_ok h
    obtain ⟨resource, hresource, h₂⟩ := bind_eq_ok h₁
    obtain ⟨parts, hparts, h₃⟩ := bind_eq_ok h₂
    split at h₃
    · rename_i selector items hselector hitems
      split at h₃
      · cases h₃
      · rename_i kind hkind
        split_ifs at h₃ with hempty
        obtain ⟨raw, hraw, h₄⟩ := bind_eq_ok h₃
        split_ifs at h₄ with hvalid
        cases h₄
        simp only [Bool.and_eq_true, decide_eq_true_eq, List.all_eq_true, List.contains_iff_mem] at hvalid
        obtain ⟨rfl, -⟩ := mapM_capabilityAction.mp hraw
        rw [selectorKind_iff.mp hkind] at hselector
        refine ⟨resource, kind, raw, ⟨⟨⟨parts, hparts⟩, by simpa using hempty, hvalid.1, hvalid.2⟩, hkeys, ?_, hselector,
          hitems⟩, rfl⟩
        exact (nonEmptyText_iff.mp hresource).1
    · cases h₃
    · cases h₃
  · rintro ⟨resource, kind, raw, given, rfl⟩
    obtain ⟨parts, hparts⟩ := given.canonical
    have hresource := nonEmptyText_iff.mpr ⟨given.hasResource, nonempty_of_parse hparts⟩
    have hmem : [] ∉ raw := fun hin => absurd (given.known _ hin) (by decide)
    have hitems : raw.map (.str : JsString → Json N) ≠ [] := by simpa using given.nonempty
    have hvalid : (decide raw.Nodup && raw.all ((kvActions.map js).contains ·)) = true := by
      simpa [given.nodup] using given.known
    rw [normalizeKv, bind_of_ok given.keys, bind_of_ok hresource, bind_of_ok hparts, given.hasSelector,
      given.hasActions]
    simp only [selectorKind_iff.mpr rfl]
    rw [if_neg hitems, bind_of_ok (mapM_capabilityAction.mpr ⟨rfl, hmem⟩), if_pos hvalid]

lemma normalizeEncryption_iff : normalizeEncryption members = .ok capability ↔
    ∃ resource, exactKeys members ["kind", "resource", "action"] = .ok () ∧
      members.lookup (js "resource") = some (.str resource) ∧ resource ≠ [] ∧
      members.lookup (js "action") = some (.str decryptAction) ∧ isEncryptionResource resource = true ∧
      capability = .encryption resource := by
  constructor
  · intro h
    obtain ⟨_, hkeys, h₁⟩ := bind_eq_ok h
    obtain ⟨resource, hresource, h₂⟩ := bind_eq_ok h₁
    obtain ⟨hlookup, hne⟩ := nonEmptyText_iff.mp hresource
    split at h₂
    · rename_i action haction
      split_ifs at h₂ with hvalid
      cases h₂
      rw [hvalid.1] at haction
      exact ⟨resource, hkeys, hlookup, hne, haction, hvalid.2, rfl⟩
    · cases h₂
  · rintro ⟨resource, hkeys, hlookup, hne, haction, hvalid, rfl⟩
    rw [normalizeEncryption, bind_of_ok hkeys, bind_of_ok (nonEmptyText_iff.mpr ⟨hlookup, hne⟩), haction]
    exact if_pos ⟨rfl, hvalid⟩

lemma normalize_kv (h : members.lookup (js "kind") = some (.str (js "kv"))) :
    normalizeUnifiedPolicyCapability (.obj members) = normalizeKv members := by
  rw [normalizeUnifiedPolicyCapability, bind_of_ok (nonEmptyText_iff.mpr ⟨h, by decide⟩)]
  exact if_pos rfl

lemma normalize_encryption (h : members.lookup (js "kind") = some (.str (js "encryption"))) :
    normalizeUnifiedPolicyCapability (.obj members) = normalizeEncryption members := by
  rw [normalizeUnifiedPolicyCapability, bind_of_ok (nonEmptyText_iff.mpr ⟨h, by decide⟩), if_neg (by decide)]
  exact if_pos rfl

lemma text_injective {kind' : SelectorKind} (h : kind.text = kind'.text) : kind = kind' := by
  revert h
  cases kind <;> cases kind' <;> decide

/-- The capability that the reader of native values builds. -/
lemma normalize_built {actions : List (Json N)} :
    normalizeUnifiedPolicyCapability (.obj [(js "kind", .str (js "kv")), (js "resource", .str resource),
      (js "selector", .str kind.text), (js "actions", .arr actions)] : Json N) = .ok capability ↔
    ∃ raw, KvValid resource raw ∧ actions = raw.map .str ∧
      capability = .kv resource kind (raw.insertionSort UnitsLe) := by
  rw [normalize_kv rfl, normalizeKv_iff]
  constructor
  · rintro ⟨resource', kind', raw, ⟨hvalid, hkeys, hresource, hselector, hactions⟩, rfl⟩
    obtain rfl : resource = resource' := Json.str.inj (Option.some.inj hresource)
    obtain rfl : kind = kind' := text_injective (Json.str.inj (Option.some.inj hselector))
    exact ⟨raw, hvalid, Json.arr.inj (Option.some.inj hactions), rfl⟩
  · rintro ⟨raw, hvalid, rfl, rfl⟩
    exact ⟨resource, kind, raw, ⟨hvalid, rfl, rfl, rfl, rfl⟩, rfl⟩

/-- Normalised capabilities. -/
inductive Normalized : Capability → Prop
  | kv {resource : JsString} {kind : SelectorKind} {actions : List JsString} (valid : KvValid resource actions)
      (sorted : actions.Pairwise UnitsLe) : Normalized (.kv resource kind actions)
  | encryption {resource : JsString} (nonempty : resource ≠ []) (valid : isEncryptionResource resource = true) :
      Normalized (.encryption resource)

lemma KvValid.sort (h : KvValid resource raw) : KvValid resource (raw.insertionSort UnitsLe) := by
  have hperm := List.perm_insertionSort UnitsLe raw
  refine ⟨h.canonical, ?_, hperm.nodup_iff.mpr h.nodup, fun a ha => h.known a (hperm.mem_iff.mp ha)⟩
  exact fun hnil => h.nonempty (List.nil_perm.mp (hnil ▸ hperm))

lemma normalized_of_ok {input : Json N} (h : normalizeUnifiedPolicyCapability input = .ok capability) :
    Normalized capability := by
  unfold normalizeUnifiedPolicyCapability at h
  split at h
  · obtain ⟨kind, -, h₁⟩ := bind_eq_ok h
    split_ifs at h₁
    · obtain ⟨resource, kind, raw, hgiven, rfl⟩ := normalizeKv_iff.mp h₁
      exact .kv hgiven.sort (List.pairwise_insertionSort UnitsLe raw)
    · obtain ⟨resource, -, -, hne, -, hvalid, rfl⟩ := normalizeEncryption_iff.mp h₁
      exact .encryption hne hvalid
  · cases h

/-- A normalised capability is normalised to itself. -/
lemma normalize_json (h : Normalized capability) :
    normalizeUnifiedPolicyCapability (capability.json : Json N) = .ok capability := by
  cases h with
  | @kv resource kind actions valid sorted =>
    rw [Capability.json, normalize_kv rfl, normalizeKv_iff]
    exact ⟨resource, kind, actions, ⟨valid, rfl, rfl, rfl, rfl⟩, by rw [sorted.insertionSort_eq]⟩
  | encryption nonempty valid =>
    rw [Capability.json, normalize_encryption rfl, normalizeEncryption_iff]
    exact ⟨_, rfl, rfl, nonempty, rfl, valid, rfl⟩

end Readings

section Natives

variable {value : List (JsString × Json N)} {capability : Capability} {resource space path : JsString}
  {kind : SelectorKind} {raw : List JsString}

/-- The native values that are read, and as which capabilities. -/
inductive NativeRead (value : List (JsString × Json N)) : Capability → Prop
  | kv {space path resource : JsString} {kind : SelectorKind} {raw actions : List JsString}
      {caveat : List (JsString × Json N)}
      (hasService : value.lookup (js "service") = some (.str (js "tinycloud.kv")))
      (hasSpace : value.lookup (js "space") = some (.str space))
      (hasPath : value.lookup (js "path") = some (.str path))
      (hasActions : value.lookup (js "actions") = some (.arr (raw.map .str)))
      (hasCaveat : value.lookup (js "caveat") = some (.obj caveat))
      (caveatKeys : exactKeys caveat ["type", "kind", "value"] = .ok ())
      (hasType : caveat.lookup (js "type") = some (.str selectorType))
      (hasKind : caveat.lookup (js "kind") = some (.str kind.text))
      (hasValue : caveat.lookup (js "value") = some (.str resource))
      (same : resource = nativeResource space path)
      (valid : KvValid resource raw)
      (sorted : actions = raw.insertionSort UnitsLe) :
      NativeRead value (.kv resource kind actions)
  | encryption {resource : JsString}
      (hasService : value.lookup (js "service") = some (.str (js "tinycloud.encryption")))
      (hasSpace : value.lookup (js "space") = some (.str resource))
      (hasPath : value.lookup (js "path") = some (.str resource))
      (hasActions : value.lookup (js "actions") = some (.arr [.str decryptAction]))
      (noCaveat : value.lookup (js "caveat") = none)
      (nonempty : resource ≠ [])
      (valid : isEncryptionResource resource = true) :
      NativeRead value (.encryption resource)

lemma strictEquals_text [DecidableEq N] {s : JsString} {v : Option (Json N)}
    (h : strictEquals (some (.str s)) v = true) : v = some (.str s) := by
  unfold strictEquals at h
  split at h <;> simp_all

lemma isDecrypt_iff {actions : List (Json N)} : isDecrypt actions = true ↔ actions = [.str decryptAction] := by
  unfold isDecrypt
  split
  · simp
  · rename_i hnot
    simp only [Bool.false_eq_true, false_iff]
    exact hnot _

lemma fromNative_iff [DecidableEq N] : unifiedPolicyCapabilityFromNative (.obj value) = .ok capability ↔
    exactKeys value ["service", "space", "path", "actions", "caveat"] = .ok () ∧ NativeRead value capability := by
  constructor
  · intro h
    obtain ⟨_, hkeys, h₁⟩ := bind_eq_ok h
    obtain ⟨service, hservice, h₂⟩ := bind_eq_ok h₁
    have hasService := (nonEmptyText_iff.mp hservice).1
    refine ⟨hkeys, ?_⟩
    split at h₂
    · rename_i actions hactions
      split_ifs at h₂ with hencryption hkv
      · obtain ⟨rfl, hcaveat, hsame, hdecrypt⟩ := hencryption
        rw [normalize_encryption rfl, normalizeEncryption_iff] at h₂
        obtain ⟨resource, -, hresource, hne, -, hvalid, rfl⟩ := h₂
        obtain rfl := isDecrypt_iff.mp hdecrypt
        cases hspace : value.lookup (js "space") with
        | none =>
          rw [hspace] at hresource
          cases hresource
        | some space =>
          rw [hspace] at hresource hsame
          cases hresource
          exact .encryption hasService hspace (strictEquals_text hsame) hactions (Option.isNone_iff_eq_none.mp hcaveat)
            hne hvalid
      · obtain rfl := not_not.mp hkv
        split at h₂
        · rename_i space path hspace hpath
          split at h₂
          · rename_i caveat hcaveat
            obtain ⟨_, hcaveatKeys, h₃⟩ := bind_eq_ok h₂
            split at h₃
            · rename_i type kind resource htype hkind hresource
              split_ifs at h₃ with hbad
              obtain ⟨htypeEq, hkindNe, hresourceEq⟩ : type = selectorType ∧ selectorKind kind ≠ none ∧
                  resource = nativeResource space path := by simpa [not_or] using hbad
              obtain ⟨selector, hselector⟩ := Option.ne_none_iff_exists'.mp hkindNe
              obtain rfl := selectorKind_iff.mp hselector
              obtain ⟨raw, hvalid, rfl, rfl⟩ := normalize_built.mp h₃
              subst htypeEq hresourceEq
              exact .kv hasService hspace hpath hactions hcaveat hcaveatKeys htype hkind hresource rfl hvalid rfl
            · cases h₃
          · cases h₂
        · cases h₂
    · cases h₂
  · rintro ⟨hkeys, hread⟩
    cases hread with
    | @kv space path resource kind raw actions caveat hasService hasSpace hasPath hasActions hasCaveat caveatKeys hasType
        hasKind hasValue same valid sorted =>
      subst same sorted
      have hkind : selectorKind kind.text = some kind := selectorKind_iff.mpr rfl
      have hkv : ¬ (js "tinycloud.kv" = js "tinycloud.encryption") := by decide
      have hgood : ¬ (selectorType ≠ selectorType ∨ selectorKind kind.text = none ∨
          nativeResource space path ≠ nativeResource space path) := by simp [hkind]
      rw [unifiedPolicyCapabilityFromNative, bind_of_ok hkeys,
        bind_of_ok (nonEmptyText_iff.mpr ⟨hasService, by decide⟩), hasActions]
      simp only
      rw [if_neg fun h => hkv h.1, if_neg (not_not.mpr rfl), hasSpace, hasPath, hasCaveat]
      simp only
      rw [kvFromNative, bind_of_ok caveatKeys, hasType, hasKind, hasValue]
      simp only
      rw [if_neg hgood]
      exact normalize_built.mpr ⟨raw, valid, rfl, rfl⟩
    | @encryption resource hasService hasSpace hasPath hasActions noCaveat nonempty valid =>
      have hsame : strictEquals (some (.str resource : Json N)) (some (.str resource)) = true := by simp [strictEquals]
      rw [unifiedPolicyCapabilityFromNative, bind_of_ok hkeys,
        bind_of_ok (nonEmptyText_iff.mpr ⟨hasService, by decide⟩), hasActions]
      simp only
      rw [hasSpace, hasPath, noCaveat, if_pos (by simp [hsame, isDecrypt]), normalize_encryption rfl,
        normalizeEncryption_iff]
      exact ⟨resource, rfl, rfl, nonempty, rfl, valid, rfl⟩

end Natives

section Splitting

variable {resource space path : JsString}

/-- The reader writes the resource of a space and a path as it was split. -/
lemma nativeResource_of_parse (h : parseKvResource resource = .ok (space, path)) :
    nativeResource space path = resource ∧ slash ∉ space := by
  unfold parseKvResource at h
  split at h
  · cases h
  · rename_i encoded tail hfirst
    by_cases hlegacy : legacyPrefix.isPrefixOf encoded = true
    · simp only [if_pos hlegacy] at h
      split_ifs at h with hbad
      cases h
      simp only [Bool.or_eq_true, not_or, Bool.not_eq_true] at hbad
      obtain ⟨rest, rfl⟩ := List.isPrefixOf_iff_prefix.mp hlegacy
      rw [List.drop_left] at hbad ⊢
      have hplain : ∀ u ∈ rest, isAnyOf ":/?#%" u = false := by simpa using hbad.1.1.1.1.2
      have hscheme : ¬ (js "tinycloud:").isPrefixOf rest = true := by
        intro hpre
        have hcolon : (58 : CodeUnit) ∈ rest := (List.isPrefixOf_iff_prefix.mp hpre).subset (by decide)
        exact absurd (hplain 58 hcolon) (by decide)
      refine ⟨?_, fun hin => absurd (hplain slash hin) (by decide)⟩
      rw [nativeResource, if_neg hscheme, splitFirst_some hfirst]
    · simp only [if_neg hlegacy] at h
      split_ifs at h with hbad
      cases h
      simp only [Bool.or_eq_true, not_or, Bool.not_eq_true, Bool.not_eq_false'] at hbad
      obtain ⟨⟨⟨⟨⟨-, hscheme, hplain⟩, -⟩, -⟩, -⟩, -⟩ := hbad
      refine ⟨?_, fun hin => List.any_eq_false.mp hplain slash hin (by decide)⟩
      rw [nativeResource, if_pos hscheme, splitFirst_some hfirst]

/-- Texts are told apart by the first unit that neither part before it holds. -/
lemma parts_unique {u : CodeUnit} {a b s t : JsString} (ha : u ∉ a) (hb : u ∉ b) (h : a ++ u :: s = b ++ u :: t) :
    a = b ∧ s = t := by
  induction a generalizing b with
  | nil =>
    cases b with
    | nil => exact ⟨rfl, (List.cons.inj h).2⟩
    | cons v b => exact absurd ((List.cons.inj h).1 ▸ List.mem_cons_self) hb
  | cons v a ih =>
    cases b with
    | nil => exact absurd ((List.cons.inj h).1 ▸ List.mem_cons_self) ha
    | cons w b =>
      obtain ⟨rfl, hrest⟩ := List.cons.inj h
      obtain ⟨rfl, rfl⟩ := ih (List.not_mem_of_not_mem_cons ha) (List.not_mem_of_not_mem_cons hb) hrest
      exact ⟨rfl, rfl⟩

/-- The two spellings of spaces without a slash never meet. -/
lemma nativeResource_injective {space' path' : JsString} (hspace : slash ∉ space) (hspace' : slash ∉ space')
    (h : nativeResource space path = nativeResource space' path') : space = space' ∧ path = path' := by
  have hmarker : kvMarker = slash :: js "kv/" := by decide
  have hlegacy : legacyPrefix = js "tinycloud:" ++ slash :: [slash] := by decide
  have hplain : slash ∉ js "tinycloud:" := by decide
  -- behind the scheme stands a slash in the old spelling, and the marker in the new one
  have hmixed : ∀ {a b : JsString} (s t : JsString), slash ∉ b →
      ¬ (legacyPrefix ++ a ++ kvMarker ++ s = b ++ kvMarker ++ t) := by
    intro a b s t hb heq
    rw [hmarker, hlegacy] at heq
    simp only [List.append_assoc, List.cons_append] at heq
    exact absurd (List.cons.inj (parts_unique hplain hb heq).2).1 (by decide)
  unfold nativeResource at h
  split_ifs at h with h₁ h₂ h₂
  · rw [hmarker, List.append_assoc, List.append_assoc, List.cons_append, List.cons_append] at h
    obtain ⟨rfl, hpath⟩ := parts_unique hspace hspace' h
    exact ⟨rfl, List.append_cancel_left hpath⟩
  · exact absurd h.symm (hmixed _ _ hspace)
  · exact absurd h (hmixed _ _ hspace')
  · rw [hmarker, List.append_assoc, List.append_assoc, List.append_assoc, List.append_assoc,
      List.append_cancel_left_eq, List.cons_append, List.cons_append] at h
    obtain ⟨rfl, hpath⟩ := parts_unique hspace hspace' h
    exact ⟨rfl, List.append_cancel_left hpath⟩

end Splitting

section Projected

variable {input : Json N} {capability : Capability} {resource space path : JsString}
  {kind : SelectorKind} {actions : List JsString}

lemma project_kv (h : normalizeUnifiedPolicyCapability input = .ok (.kv resource kind actions))
    (hparse : parseKvResource resource = .ok (space, path)) :
    projectUnifiedPolicyCapability input = .ok (nativeKv space (some path) resource kind actions) := by
  rw [projectUnifiedPolicyCapability, bind_of_ok h]
  exact bind_of_ok hparse

lemma project_encryption (h : normalizeUnifiedPolicyCapability input = .ok (.encryption resource)) :
    projectUnifiedPolicyCapability input = .ok (nativeEncryption resource) := by
  rw [projectUnifiedPolicyCapability, bind_of_ok h]
  rfl

/-- Reading a projection gives the capability that was projected. -/
lemma fromNative_project [DecidableEq N] (h : normalizeUnifiedPolicyCapability input = .ok capability) :
    ∃ native, projectUnifiedPolicyCapability input = .ok native ∧
      unifiedPolicyCapabilityFromNative native = .ok capability := by
  cases normalized_of_ok h with
  | @kv resource kind actions valid sorted =>
    obtain ⟨⟨space, path⟩, hparse⟩ := valid.canonical
    obtain ⟨hresource, -⟩ := nativeResource_of_parse hparse
    refine ⟨_, project_kv h hparse, ?_⟩
    exact fromNative_iff.mpr
      ⟨rfl, .kv rfl rfl rfl rfl rfl rfl rfl rfl rfl hresource.symm valid sorted.insertionSort_eq.symm⟩
  | @encryption resource nonempty valid =>
    exact ⟨_, project_encryption h, fromNative_iff.mpr ⟨rfl, .encryption rfl rfl rfl rfl rfl nonempty valid⟩⟩

example : parseKvResource (nativeResource (js "tinycloud:a") (js "b/kv/c")) = .ok (js "tinycloud:a", js "b/kv/c") := by
  decide +kernel

end Projected

section Converse

variable {value : List (JsString × Json N)} {capability : Capability}

/-- The values are the same but for the order of their actions. -/
def UpToActions (v w : Json N) : Prop :=
  ∃ members given sorted, v = .obj members ∧ members.lookup (js "actions") = some (.arr given) ∧ given.Perm sorted ∧
    (Json.obj (setMember members (js "actions", .arr sorted))).Same w

/-- The space that a native KV value gives. -/
def kvSpaceOf : Json N → Option JsString
  | .obj value =>
    match value.lookup (js "service"), value.lookup (js "space") with
    | some (.str service), some (.str space) => if service = js "tinycloud.kv" then some space else none
    | _, _ => none
  | _ => none

lemma same_of_members {l r : List (JsString × Json N)} (hl : (l.map Prod.fst).Nodup) (hr : (r.map Prod.fst).Nodup)
    (hkeys : ∀ k ∈ l.map Prod.fst, k ∈ r.map Prod.fst) (h : ∀ m ∈ r, ∃ w, l.lookup m.1 = some w ∧ w.Same m.2) :
    (Json.obj l).Same (.obj r) := by
  have hback : ∀ k ∈ r.map Prod.fst, k ∈ l.map Prod.fst := by
    intro k hk
    obtain ⟨m, hm, rfl⟩ := List.mem_map.mp hk
    obtain ⟨w, hw, -⟩ := h m hm
    exact List.mem_map.mpr ⟨_, mem_of_lookup hw, rfl⟩
  have hperm := (List.perm_ext_iff_of_nodup hl hr).mpr fun k => ⟨hkeys k, hback k⟩
  have hlen : l.length = r.length := by simpa using hperm.length_eq
  rw [Json.Same, sameMembers_iff]
  refine ⟨hlen, fun m hm => ?_⟩
  obtain ⟨m', hm', hkey⟩ := List.mem_map.mp (hkeys m.1 (List.mem_map_of_mem hm))
  obtain ⟨w, hw, hsame⟩ := h m' hm'
  rw [hkey, lookup_of_mem hl hm] at hw
  cases hw
  exact ⟨m'.2, hkey ▸ lookup_of_mem hr hm', hsame⟩

lemma exactKeys_iff {members : List (JsString × Json N)} {allowed : List String} :
    exactKeys members allowed = .ok () ↔ ∀ k ∈ members.map Prod.fst, k ∈ allowed.map js := by
  unfold exactKeys
  rw [List.forall_mem_map]
  split_ifs with h
  · simpa using h
  · simpa using h

lemma same_text (s : JsString) : (Json.str s : Json N).Same (.str s) := by rw [Json.Same]

lemma same_texts (items : List JsString) : (textArray items : Json N).Same (textArray items) := by
  rw [textArray, Json.Same]
  induction items with
  | nil => trivial
  | cons t items ih => exact ⟨same_text t, ih⟩

lemma same_caveat {caveat : List (JsString × Json N)} {kind : SelectorKind} {resource : JsString}
    (hproper : (Json.obj caveat).Proper) (hkeys : exactKeys caveat ["type", "kind", "value"] = .ok ())
    (hasType : caveat.lookup (js "type") = some (.str selectorType))
    (hasKind : caveat.lookup (js "kind") = some (.str kind.text))
    (hasValue : caveat.lookup (js "value") = some (.str resource)) :
    (Json.obj caveat).Same (caveatOf kind resource) := by
  have hnodup : (caveat.map Prod.fst).Nodup := by
    cases hproper with
    | obj hk _ => exact hk
  have hnames : [js "kind", js "type", js "value"].Nodup := by decide
  refine same_of_members hnodup hnames ?_ ?_
  · intro k hk
    have hallowed : ∀ k ∈ ["type", "kind", "value"].map js, k ∈ [js "kind", js "type", js "value"] := by decide
    exact hallowed k (exactKeys_iff.mp hkeys k hk)
  · simp only [List.forall_mem_cons]
    exact ⟨⟨_, hasKind, same_text _⟩, ⟨_, hasType, same_text _⟩, ⟨_, hasValue, same_text _⟩, by simp⟩

lemma replaced_keys {v : Json N} (h : value.lookup (js "actions") = some v) (w : Json N) :
    (setMember value (js "actions", w)).map Prod.fst = value.map Prod.fst := by
  rw [keys_setMember, if_pos (List.mem_map.mpr ⟨_, mem_of_lookup h, rfl⟩)]

lemma replaced_lookup {key : JsString} {v : Option (Json N)} (h : value.lookup key = v) (hne : key ≠ js "actions")
    (w : Json N) : (setMember value (js "actions", w)).lookup key = v := by
  rw [lookup_setMember, if_neg hne, h]

lemma replaced_actions (w : Json N) : (setMember value (js "actions", w)).lookup (js "actions") = some w := by
  rw [lookup_setMember, if_pos rfl]

/-- Of a native KV value everything but the order of the actions is the projection's, if its space has no slash. -/
lemma kv_upToActions {space path resource : JsString} {kind : SelectorKind} {raw : List JsString}
    {caveat : List (JsString × Json N)} (hproper : (Json.obj value).Proper)
    (hkeys : exactKeys value ["service", "space", "path", "actions", "caveat"] = .ok ())
    (hasService : value.lookup (js "service") = some (.str (js "tinycloud.kv")))
    (hasSpace : value.lookup (js "space") = some (.str space))
    (hasPath : value.lookup (js "path") = some (.str path))
    (hasActions : value.lookup (js "actions") = some (.arr (raw.map .str)))
    (hasCaveat : value.lookup (js "caveat") = some (.obj caveat))
    (hcaveat : (Json.obj caveat).Same (caveatOf kind resource)) :
    UpToActions (.obj value) (nativeKv space (some path) resource kind (raw.insertionSort UnitsLe)) := by
  have hnodup : (value.map Prod.fst).Nodup := by
    cases hproper with
    | obj hk _ => exact hk
  have hnames : [js "actions", js "caveat", js "path", js "service", js "space"].Nodup := by decide
  have hallowed : ∀ k ∈ ["service", "space", "path", "actions", "caveat"].map js,
      k ∈ [js "actions", js "caveat", js "path", js "service", js "space"] := by decide
  refine ⟨value, raw.map .str, (raw.insertionSort UnitsLe).map .str, rfl, hasActions,
    (List.perm_insertionSort UnitsLe raw).symm.map _, same_of_members ?_ hnames ?_ ?_⟩
  · rw [replaced_keys hasActions]
    exact hnodup
  · rw [replaced_keys hasActions]
    exact fun k hk => hallowed k (exactKeys_iff.mp hkeys k hk)
  · simp only [Option.map_some, Option.toList_some, List.cons_append, List.nil_append, List.forall_mem_cons]
    exact ⟨⟨_, replaced_actions _, same_texts _⟩, ⟨_, replaced_lookup hasCaveat (by decide) _, hcaveat⟩,
      ⟨_, replaced_lookup hasPath (by decide) _, same_text _⟩,
      ⟨_, replaced_lookup hasService (by decide) _, same_text _⟩,
      ⟨_, replaced_lookup hasSpace (by decide) _, same_text _⟩, by simp⟩

lemma encryption_upToActions {resource : JsString} (hproper : (Json.obj value).Proper)
    (hkeys : exactKeys value ["service", "space", "path", "actions", "caveat"] = .ok ())
    (hasService : value.lookup (js "service") = some (.str (js "tinycloud.encryption")))
    (hasSpace : value.lookup (js "space") = some (.str resource))
    (hasPath : value.lookup (js "path") = some (.str resource))
    (hasActions : value.lookup (js "actions") = some (.arr [.str decryptAction]))
    (noCaveat : value.lookup (js "caveat") = none) :
    UpToActions (.obj value) (nativeEncryption resource) := by
  have hnodup : (value.map Prod.fst).Nodup := by
    cases hproper with
    | obj hk _ => exact hk
  have hnames : [js "actions", js "path", js "service", js "space"].Nodup := by decide
  have hallowed : ∀ k ∈ ["service", "space", "path", "actions", "caveat"].map js, k ≠ js "caveat" →
      k ∈ [js "actions", js "path", js "service", js "space"] := by decide
  refine ⟨value, [.str decryptAction], [.str decryptAction], rfl, hasActions, .refl _, same_of_members ?_ hnames ?_ ?_⟩
  · rw [replaced_keys hasActions]
    exact hnodup
  · rw [replaced_keys hasActions]
    intro k hk
    refine hallowed k (exactKeys_iff.mp hkeys k hk) ?_
    rintro rfl
    obtain ⟨m, hm, hkey⟩ := List.mem_map.mp hk
    have hnone := List.lookup_eq_none_iff.mp noCaveat m hm
    rw [hkey] at hnone
    exact absurd hnone (by decide)
  · simp only [List.forall_mem_cons]
    exact ⟨⟨_, replaced_actions _, same_texts [decryptAction]⟩,
      ⟨_, replaced_lookup hasPath (by decide) _, same_text _⟩,
      ⟨_, replaced_lookup hasService (by decide) _, same_text _⟩,
      ⟨_, replaced_lookup hasSpace (by decide) _, same_text _⟩, by simp⟩

/-- Values that agree up to their actions give the same space. -/
lemma space_of_upToActions {space space' path resource : JsString} {kind : SelectorKind} {actions : List JsString}
    (hasSpace : value.lookup (js "space") = some (.str space))
    (h : UpToActions (.obj value) (nativeKv space' (some path) resource kind actions)) : space = space' := by
  obtain ⟨members, given, items, hvalue, -, -, hsame⟩ := h
  cases hvalue
  rw [nativeKv, Json.Same, sameMembers_iff] at hsame
  obtain ⟨w, hw, hspace⟩ := hsame.2 _ (mem_of_lookup (replaced_lookup hasSpace (by decide) (.arr items)))
  obtain rfl : Json.str space' = w := Option.some.inj hw
  rwa [Json.Same] at hspace

/-- A native value that is read stands for the projection of what it is read as exactly if its space has no slash. -/
lemma stands_iff [DecidableEq N] {native : Json N} (hproper : native.Proper)
    (h : unifiedPolicyCapabilityFromNative native = .ok capability) :
    ∃ projected, projectUnifiedPolicyCapability (capability.json : Json N) = .ok projected ∧
      (UpToActions native projected ↔ ∀ space ∈ kvSpaceOf native, slash ∉ space) := by
  obtain ⟨value, rfl⟩ : ∃ value, native = .obj value := by
    cases native with
    | obj value => exact ⟨value, rfl⟩
    | null | bool | num | str | arr => cases h
  obtain ⟨hkeys, hread⟩ := fromNative_iff.mp h
  cases hread with
  | @kv space path resource kind raw actions caveat hasService hasSpace hasPath hasActions hasCaveat caveatKeys hasType
      hasKind hasValue same valid sorted =>
    obtain ⟨⟨space', path'⟩, hparse⟩ := valid.canonical
    obtain ⟨hresource, hslash⟩ := nativeResource_of_parse hparse
    have hnormal : Normalized (.kv resource kind actions) :=
      .kv (by rw [sorted]; exact valid.sort) (by rw [sorted]; exact List.pairwise_insertionSort UnitsLe raw)
    refine ⟨_, project_kv (normalize_json hnormal) hparse, ?_⟩
    have hspaceOf : kvSpaceOf (.obj value) = some space := by
      rw [kvSpaceOf, hasService, hasSpace]
      exact if_pos rfl
    rw [hspaceOf]
    simp only [Option.mem_some_iff, forall_eq']
    constructor
    · intro hup
      rw [space_of_upToActions hasSpace hup]
      exact hslash
    · intro hfree
      obtain ⟨rfl, rfl⟩ := nativeResource_injective hfree hslash (same.symm.trans hresource.symm)
      have hcaveatProper : (Json.obj caveat).Proper := by
        cases hproper with
        | obj _ hmembers => exact hmembers _ (mem_of_lookup hasCaveat)
      rw [sorted]
      exact kv_upToActions hproper hkeys hasService hasSpace hasPath hasActions hasCaveat
        (same_caveat hcaveatProper caveatKeys hasType hasKind hasValue)
  | @encryption resource hasService hasSpace hasPath hasActions noCaveat nonempty valid =>
    refine ⟨_, project_encryption (normalize_json (.encryption nonempty valid)), ?_⟩
    have hspaceOf : kvSpaceOf (.obj value) = none := by
      rw [kvSpaceOf, hasService, hasSpace]
      exact if_neg (by decide)
    rw [hspaceOf]
    exact iff_of_true (encryption_upToActions hproper hkeys hasService hasSpace hasPath hasActions noCaveat) (by simp)

end Converse

section Order

variable {α : Type} {compare : JsString → JsString → ℤ} {text : α → Except String JsString} {values sorted : List α}

/-- A sort by texts that tell the values apart does not depend on the order in which they come. -/
lemma sortBy_perm {values' : List α} (hperm : values.Perm values')
    (htexts : ∀ x ∈ values, ∀ y ∈ values, ∀ t, text x = .ok t → text y = .ok t → x = y)
    (h : sortBy compareUtf16CodeUnits text values = .ok sorted) :
    sortBy compareUtf16CodeUnits text values' = .ok sorted := by
  unfold sortBy at h ⊢
  rw [← hperm.length_eq]
  split_ifs at h ⊢ with hshort
  · cases h
    match values, hshort with
    | [], _ => rw [List.nil_perm.mp hperm]
    | [x], _ => rw [List.singleton_perm.mp hperm]
  · obtain ⟨keyed, hkeyed, hsorted⟩ := bind_eq_ok h
    cases hsorted
    obtain ⟨keyed', hkeyed', hkeys⟩ := mapM_perm hperm hkeyed
    have htext : ∀ p ∈ keyed, p.2 ∈ values ∧ text p.2 = .ok p.1 := by
      intro p hp
      obtain ⟨v, hv, htag⟩ := mem_of_mapM hkeyed p hp
      cases hread : text v with
      | error e =>
        rw [hread] at htag
        cases htag
      | ok t =>
        rw [hread] at htag
        cases htag
        exact ⟨hv, hread⟩
    have hsame : keyed.insertionSort KeyLe = keyed'.insertionSort KeyLe := by
      have hp := ((List.perm_insertionSort KeyLe keyed).trans hkeys).trans (List.perm_insertionSort KeyLe keyed').symm
      refine hp.eq_of_pairwise ?_ (List.pairwise_insertionSort KeyLe keyed) (List.pairwise_insertionSort KeyLe keyed')
      intro p q hpmem hqmem hpq hqp
      obtain ⟨hp, hptext⟩ := htext p ((List.mem_insertionSort KeyLe).mp hpmem)
      obtain ⟨hq, hqtext⟩ := htext q (hkeys.mem_iff.mpr ((List.mem_insertionSort KeyLe).mp hqmem))
      have hkey : p.1 = q.1 := Std.Antisymm.antisymm (r := UnitsLe) p.1 q.1 hpq hqp
      rw [← hkey] at hqtext
      exact Prod.ext hkey (htexts p.2 hp q.2 hq p.1 hptext hqtext)
    rw [bind_of_ok hkeyed']
    exact congrArg (fun l => Except.ok (l.map Prod.snd)) hsame.symm

variable {input v w : Json N}

lemma canonical_texts (items : List JsString) : (textArray items : Json N).canonical = textArray items := by
  rw [textArray, canonical_arr, List.map_map]
  rfl

/-- Projections list their members in order. -/
lemma projected_canonical (h : projectUnifiedPolicyCapability input = .ok v) : v.Proper ∧ v.canonical = v := by
  obtain ⟨capability, hnormal, hproject⟩ := bind_eq_ok h
  cases capability with
  | encryption resource =>
    cases hproject
    refine ⟨proper_nativeEncryption resource, ?_⟩
    rw [nativeEncryption, canonical_obj, (sorted_of_keys (by exact nativeEncryption_keys)).insertionSort_eq]
    simp only [List.map_cons, List.map_nil, canonical_texts]
    rfl
  | kv resource kind actions =>
    obtain ⟨⟨space, path⟩, -, hend⟩ := bind_eq_ok hproject
    cases hend
    have hcaveat : (caveatOf kind resource : Json N).canonical = caveatOf kind resource := by
      rw [caveatOf, canonical_obj, (sorted_of_keys (by exact caveat_keys)).insertionSort_eq]
      rfl
    refine ⟨proper_nativeKv space path resource kind actions, ?_⟩
    rw [nativeKv, canonical_obj]
    simp only [Option.map_some, Option.toList_some, List.cons_append, List.nil_append]
    rw [(sorted_of_keys (by exact nativeKv_keys)).insertionSort_eq]
    simp only [List.map_cons, List.map_nil, canonical_texts, hcaveat]
    rfl

variable [NumberFormat N]

/-- No two projections have one canonical text. -/
lemma projected_eq {input' : Json N} (h : projectUnifiedPolicyCapability input = .ok v)
    (h' : projectUnifiedPolicyCapability input' = .ok w) {text : JsString} (hv : jcsCanonicalize v = .ok text)
    (hw : jcsCanonicalize w = .ok text) : v = w := by
  obtain ⟨hvp, hvc⟩ := projected_canonical h
  obtain ⟨hwp, hwc⟩ := projected_canonical h'
  have hv' := (canonicalize_of_normal (jcsNormal_of_ok hv)).2
  have hw' := (canonicalize_of_normal (jcsNormal_of_ok hw)).2
  rw [hv] at hv'
  rw [hw] at hw'
  have htext : v.serialize = w.serialize := (Except.ok.inj hv').symm.trans (Except.ok.inj hw')
  rw [← hvc, ← hwc]
  exact (serialize_eq_iff hvp hwp).mp htext

lemma projectAll_perm {inputs inputs' natives : List (Json N)} (hperm : inputs.Perm inputs')
    (h : projectUnifiedPolicyCapabilities inputs = .ok natives) :
    projectUnifiedPolicyCapabilities inputs' = .ok natives := by
  obtain ⟨projected, hprojected, hsorted⟩ := bind_eq_ok h
  obtain ⟨projected', hprojected', hp⟩ := mapM_perm hperm hprojected
  rw [projectUnifiedPolicyCapabilities, bind_of_ok hprojected']
  refine sortBy_perm hp ?_ hsorted
  intro x hx y hy t htx hty
  obtain ⟨a, -, ha⟩ := mem_of_mapM hprojected x hx
  obtain ⟨b, -, hb⟩ := mem_of_mapM hprojected y hy
  exact projected_eq ha hb htx hty

/-- A capability is read back from its projection, and projections do not depend on the order of the capabilities. A
native value that is read is the projection of what it is read as exactly if its space has no slash. -/
theorem projection_lossless_iff [DecidableEq N] :
    (∀ (input : Json N) (capability : Capability), normalizeUnifiedPolicyCapability input = .ok capability →
      ∃ native, projectUnifiedPolicyCapability input = .ok native ∧
        unifiedPolicyCapabilityFromNative native = .ok capability) ∧
    (∀ (native : Json N) (capability : Capability), native.Proper →
      unifiedPolicyCapabilityFromNative native = .ok capability →
      ((∃ projected, projectUnifiedPolicyCapability (capability.json : Json N) = .ok projected ∧
        UpToActions native projected) ↔ ∀ space ∈ kvSpaceOf native, slash ∉ space)) ∧
    ∀ (inputs inputs' natives : List (Json N)), inputs.Perm inputs' →
      (projectUnifiedPolicyCapabilities inputs = .ok natives ↔
        projectUnifiedPolicyCapabilities inputs' = .ok natives) := by
  refine ⟨fun input capability h => fromNative_project h, ?_, ?_⟩
  · intro native capability hproper h
    obtain ⟨projected, hprojected, hstands⟩ := stands_iff hproper h
    rw [← hstands]
    constructor
    · rintro ⟨projected', hprojected', hup⟩
      rw [hprojected] at hprojected'
      cases hprojected'
      exact hup
    · exact fun hup => ⟨projected, hprojected, hup⟩
  · exact fun inputs inputs' natives hperm => ⟨projectAll_perm hperm, projectAll_perm hperm.symm⟩

end Order

section Sample

/-- A KV value with one action. -/
def nativeSample (space path resource : JsString) : Json Double :=
  nativeKv space (some path) resource .exactly [js "tinycloud.kv/get"]

lemma sample_read {space path resource : JsString} (h : nativeResource space path = resource)
    (hparse : (parseKvResource resource).isOk = true) :
    unifiedPolicyCapabilityFromNative (nativeSample space path resource) =
      .ok (.kv resource .exactly [js "tinycloud.kv/get"]) := by
  have hvalid : KvValid resource [js "tinycloud.kv/get"] :=
    ⟨eq_ok_of_isOk hparse, by simp, by simp, by decide⟩
  exact fromNative_iff.mpr ⟨rfl, .kv rfl rfl rfl rfl rfl rfl rfl rfl rfl h.symm hvalid rfl⟩

/-- A space of a chain, and a path that holds a marker. -/
theorem projection_lossless_sample :
    ∃ projected, @projectUnifiedPolicyCapability Double
        ((Capability.kv (js "tinycloud:did:a/kv/b/kv/c") .exactly [js "tinycloud.kv/get"]).json) = .ok projected ∧
      UpToActions (nativeSample (js "tinycloud:did:a") (js "b/kv/c") (js "tinycloud:did:a/kv/b/kv/c")) projected := by
  have hproper : (nativeSample (js "tinycloud:did:a") (js "b/kv/c") (js "tinycloud:did:a/kv/b/kv/c")).Proper :=
    proper_nativeKv _ _ _ _ _
  refine ((@projection_lossless_iff Double exactNumbers _).2.1 _ _ hproper
    (sample_read (by decide) (by decide))).mpr ?_
  rw [show kvSpaceOf (nativeSample (js "tinycloud:did:a") (js "b/kv/c") (js "tinycloud:did:a/kv/b/kv/c")) =
    some (js "tinycloud:did:a") from rfl]
  simp only [Option.mem_some_iff, forall_eq']
  decide

/-- The space ends behind the first marker of the resource, not where the value says. -/
theorem projection_moves_space :
    unifiedPolicyCapabilityFromNative (nativeSample (js "tinycloud:a/kv/b") (js "c") (js "tinycloud:a/kv/b/kv/c")) =
      .ok (.kv (js "tinycloud:a/kv/b/kv/c") .exactly [js "tinycloud.kv/get"]) ∧
    @projectUnifiedPolicyCapability Double
        ((Capability.kv (js "tinycloud:a/kv/b/kv/c") .exactly [js "tinycloud.kv/get"]).json) =
      .ok (nativeSample (js "tinycloud:a") (js "b/kv/c") (js "tinycloud:a/kv/b/kv/c")) ∧
    ¬ UpToActions (nativeSample (js "tinycloud:a/kv/b") (js "c") (js "tinycloud:a/kv/b/kv/c"))
      (nativeSample (js "tinycloud:a") (js "b/kv/c") (js "tinycloud:a/kv/b/kv/c")) := by
  have hparse : parseKvResource (js "tinycloud:a/kv/b/kv/c") = .ok (js "tinycloud:a", js "b/kv/c") := by decide
  have hvalid : KvValid (js "tinycloud:a/kv/b/kv/c") [js "tinycloud.kv/get"] :=
    ⟨⟨_, hparse⟩, by simp, by simp, by decide⟩
  refine ⟨sample_read (by decide) (by rw [hparse]; rfl), ?_, fun hup => ?_⟩
  · exact project_kv (normalize_json (.kv hvalid (by simp))) hparse
  · exact absurd (space_of_upToActions rfl hup) (by decide)

end Sample

end TinyCloud.Policy
