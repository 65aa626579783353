import TinyCloud.Capability.Resource
import TinyCloud.Text.Json

/-!
# Capability subset

`isCapabilitySubset` and the rules it combines: spaces, paths, actions, caveats and named keys. It is
transitive exactly where no wildcard is covered by a wildcard of itself alone.
-/

namespace TinyCloud.Capability

open TinyCloud.Text

/-- A JSON value as the engine holds it: no object has two members of one name. -/
abbrev JsonValue (N : Type) := { v : Json N // v.Proper }

structure PermissionEntry (N : Type) where
  service : JsString
  space : Option JsString
  path : JsString
  actions : List JsString
  caveats : Option (List (JsonValue N))
  skipPrefix : Option Bool
  expiry : Option JsString
  description : Option JsString

structure SubsetCheckResult (N : Type) where
  subset : Bool
  missing : List (PermissionEntry N)

def DEFAULT_MANIFEST_SPACE : JsString := js "applications"
def ENCRYPTION_SERVICE : JsString := js "tinycloud.encryption"

def normalizeSpace (space : JsString) : JsString :=
  if !(js "tinycloud:").isPrefixOf space then space
  else
    match splitLast colon space with
    | none => space
    | some (_, name) => if name = [] then space else name

def isExplicitOnlyAction (action : JsString) : Bool :=
  action == js "tinycloud.kv/sync" || action == js "tinycloud.kv/retain"

def actionContains (grantedAction requestedAction : JsString) : Bool :=
  if grantedAction = requestedAction then true
  else if isExplicitOnlyAction requestedAction then false
  else if grantedAction = js "*" then true
  else if !(js "/*").isSuffixOf grantedAction then false
  else
    requestedAction == grantedAction.take (grantedAction.length - 2) ||
      (grantedAction.take (grantedAction.length - 2) ++ [slash]).isPrefixOf requestedAction

def pathContains (grantedPath requestedPath : JsString) : Bool :=
  if grantedPath = [] ∨ grantedPath = [slash] then true
  else if [slash].isSuffixOf grantedPath then grantedPath.isPrefixOf requestedPath
  else requestedPath == grantedPath

def expandActionShortNames (service : JsString) (actions : List JsString) : List JsString :=
  actions.map fun a => if a.contains slash then a else service ++ slash :: a

/-- The pattern of everything under `service`. -/
def wildcard (service : JsString) : JsString := service ++ [slash, 42]

lemma js_wildcard : js "/*" = [slash, 42] := by
  decide

lemma actionContains_iff {g r : JsString} :
    actionContains g r = true ↔ g = r ∨ (isExplicitOnlyAction r = false ∧
      (g = js "*" ∨ ∃ s, g = wildcard s ∧ (r = s ∨ s ++ [slash] <+: r))) := by
  unfold actionContains
  split_ifs with h1 h2 h3 h4
  · simp [h1]
  · simp [h1, h2]
  · simp [h2, h3]
  · rw [Bool.not_eq_true', js_wildcard] at h4
    constructor
    · simp
    · rintro (h | ⟨-, h | ⟨s, rfl, -⟩⟩)
      · exact absurd h h1
      · exact absurd h h3
      · rw [wildcard, Bool.eq_false_iff] at h4
        exact h4 (List.isSuffixOf_iff_suffix.mpr (List.suffix_append s _))
  · simp only [Bool.not_eq_true', Bool.not_eq_false, js_wildcard] at h4
    obtain ⟨s, rfl⟩ := List.isSuffixOf_iff_suffix.mp h4
    have ht : (s ++ [slash, 42]).take ((s ++ [slash, 42]).length - 2) = s := by simp
    rw [ht]
    simp only [Bool.or_eq_true, beq_iff_eq, List.isPrefixOf_iff_prefix, h1, h3, false_or,
      Bool.eq_false_iff.mpr h2, true_and]
    constructor
    · intro h
      exact ⟨s, rfl, h⟩
    · rintro ⟨t, ht, h⟩
      obtain rfl : s = t := List.append_cancel_right ht
      exact h

lemma pathContains_iff {g r : JsString} :
    pathContains g r = true ↔ g = [] ∨ g = [slash] ∨ ([slash] <:+ g ∧ g <+: r) ∨ r = g := by
  unfold pathContains
  split_ifs with h1 h2
  · simp [or_assoc.symm, h1]
  · have hs := List.isSuffixOf_iff_suffix.mp h2
    simp only [not_or] at h1
    simp only [List.isPrefixOf_iff_prefix, h1, hs, true_and, false_or]
    constructor
    · exact .inl
    · rintro (h | rfl)
      · exact h
      · exact List.prefix_refl _
  · have hs : ¬[slash] <:+ g := fun h => h2 (List.isSuffixOf_iff_suffix.mpr h)
    simp only [not_or] at h1
    simp [h1, hs]

lemma pathContains_trans {a b c : JsString} (hab : pathContains a b = true)
    (hbc : pathContains b c = true) : pathContains a c = true := by
  rw [pathContains_iff] at hab hbc ⊢
  rcases hab with h | h | ⟨hs, hp⟩ | rfl
  · exact .inl h
  · exact .inr (.inl h)
  · rcases hbc with rfl | rfl | ⟨-, hp'⟩ | rfl
    · exact .inl (List.prefix_nil.mp hp)
    · rcases List.prefix_cons_iff.mp hp with h | ⟨t, rfl, ht⟩
      · exact .inl h
      · exact .inr (.inl (by rw [List.prefix_nil.mp ht]))
    · exact .inr (.inr (.inl ⟨hs, hp.trans hp'⟩))
    · exact .inr (.inr (.inl ⟨hs, hp⟩))
  · exact hbc

lemma isNamedKeyPath_of_pathContains {g r : JsString} (h : pathContains g r = true)
    (hg : isNamedKeyPath g = true) : isNamedKeyPath r = true := by
  rcases pathContains_iff.mp h with rfl | rfl | ⟨-, hp⟩ | rfl
  · exact absurd hg (by decide)
  · exact absurd hg (by decide)
  · simp only [isNamedKeyPath, Bool.and_eq_true, List.isPrefixOf_iff_prefix, List.contains_iff_mem] at hg ⊢
    exact ⟨hg.1.trans hp, hp.subset hg.2⟩
  · exact hg

section Check

variable {N : Type} [NumberFormat N] (assertAddress : JsString → Option JsString)

def canonicalizeRecapCaveats (caveats : Option (List (JsonValue N))) : JsString :=
  let branches := ((caveats.getD []).map fun v => v.1.serialize).insertionSort UnitsLe
  if branches = [] ∨ branches = [js "\x7b\x7d"] then js "[]" else 91 :: (joinComma branches ++ [93])

def recapCaveatsEqual (left right : Option (List (JsonValue N))) : Bool :=
  canonicalizeRecapCaveats left == canonicalizeRecapCaveats right

def PermissionEntry.spaceOrDefault (e : PermissionEntry N) : JsString := e.space.getD DEFAULT_MANIFEST_SPACE

def PermissionEntry.expandedActions (e : PermissionEntry N) : List JsString :=
  expandActionShortNames e.service e.actions

def PermissionEntry.namedKey (e : PermissionEntry N) : Bool :=
  e.service == ENCRYPTION_SERVICE && isNamedKeyPath e.path

def canonicalizeEntryScopeMatches (requested granted : PermissionEntry N) : Bool :=
  requested.service == granted.service &&
    normalizeSpace requested.spaceOrDefault == normalizeSpace granted.spaceOrDefault &&
    (if requested.namedKey then encryptionResourceContains assertAddress granted.path requested.path
      else pathContains granted.path requested.path) &&
    recapCaveatsEqual requested.caveats granted.caveats

/-- The description is not copied. -/
def cloneEntry (e : PermissionEntry N) : PermissionEntry N := { e with description := none }

def entryCovered (req : PermissionEntry N) (granted : List (PermissionEntry N)) : Bool :=
  let matchingScope := granted.filter (canonicalizeEntryScopeMatches assertAddress req)
  let grantedActions := matchingScope.flatMap PermissionEntry.expandedActions
  req.expandedActions.all fun requestedAction => grantedActions.any fun grantedAction =>
    if req.namedKey then grantedAction == requestedAction
    else actionContains grantedAction requestedAction

def isCapabilitySubset (requested granted : List (PermissionEntry N)) : SubsetCheckResult N :=
  let missing := (requested.filter fun req => !entryCovered assertAddress req granted).map cloneEntry
  { subset := missing.isEmpty, missing := missing }

variable {assertAddress}

lemma entryCovered_iff {req : PermissionEntry N} {granted : List (PermissionEntry N)} :
    entryCovered assertAddress req granted = true ↔ ∀ y ∈ req.expandedActions, ∃ g ∈ granted,
      canonicalizeEntryScopeMatches assertAddress req g = true ∧ ∃ x ∈ g.expandedActions,
        (if req.namedKey then x = y else actionContains x y = true) := by
  simp only [entryCovered, List.all_eq_true, List.any_eq_true, List.mem_flatMap, List.mem_filter]
  refine forall₂_congr fun y _ => ?_
  constructor
  · rintro ⟨x, ⟨g, ⟨hg, hm⟩, hx⟩, h⟩
    refine ⟨g, hg, hm, x, hx, ?_⟩
    split_ifs at h ⊢
    · exact eq_of_beq h
    · exact h
  · rintro ⟨g, hg, hm, x, hx, h⟩
    refine ⟨x, ⟨g, ⟨hg, hm⟩, hx⟩, ?_⟩
    split_ifs at h ⊢
    · exact beq_iff_eq.mpr h
    · exact h

lemma subset_iff {requested granted : List (PermissionEntry N)} :
    (isCapabilitySubset assertAddress requested granted).subset = true ↔
      ∀ req ∈ requested, entryCovered assertAddress req granted = true := by
  simp [isCapabilitySubset, List.isEmpty_iff]

lemma scopeMatches_iff {r g : PermissionEntry N} :
    canonicalizeEntryScopeMatches assertAddress r g = true ↔ r.service = g.service ∧
      normalizeSpace r.spaceOrDefault = normalizeSpace g.spaceOrDefault ∧
      (if r.namedKey then encryptionResourceContains assertAddress g.path r.path = true
        else pathContains g.path r.path = true) ∧
      canonicalizeRecapCaveats r.caveats = canonicalizeRecapCaveats g.caveats := by
  simp only [canonicalizeEntryScopeMatches, recapCaveatsEqual, Bool.and_eq_true, beq_iff_eq, and_assoc]
  split_ifs <;> rfl

/-- The rule for named keys is kept from hop to hop. -/
lemma namedKey_of_scopeMatches {r g : PermissionEntry N}
    (h : canonicalizeEntryScopeMatches assertAddress r g = true) : r.namedKey = g.namedKey := by
  obtain ⟨hs, -, hp, -⟩ := scopeMatches_iff.mp h
  simp only [PermissionEntry.namedKey, hs] at hp ⊢
  by_cases he : g.service = ENCRYPTION_SERVICE
  · rw [he, beq_self_eq_true, Bool.true_and] at hp
    rw [he, beq_self_eq_true, Bool.true_and, Bool.true_and]
    cases hr : isNamedKeyPath r.path with
    | true =>
      simp only [hr, if_true] at hp
      exact (named_of_contains hp hr).1.symm
    | false =>
      simp only [hr, Bool.false_eq_true, if_false] at hp
      by_contra hg
      rw [isNamedKeyPath_of_pathContains hp (by simpa using Ne.symm hg)] at hr
      cases hr
  · rw [beq_eq_false_iff_ne.mpr he, Bool.false_and, Bool.false_and]

lemma scopeMatches_trans {r g h : PermissionEntry N}
    (hrg : canonicalizeEntryScopeMatches assertAddress r g = true)
    (hgh : canonicalizeEntryScopeMatches assertAddress g h = true) :
    canonicalizeEntryScopeMatches assertAddress r h = true := by
  have hn := namedKey_of_scopeMatches hrg
  rw [scopeMatches_iff] at hrg hgh ⊢
  obtain ⟨hs, hsp, hp, hc⟩ := hrg
  obtain ⟨hs', hsp', hp', hc'⟩ := hgh
  refine ⟨hs.trans hs', hsp.trans hsp', ?_, hc.trans hc'⟩
  rw [← hn] at hp'
  split_ifs at hp hp' ⊢
  · exact encryptionResourceContains_trans hp' hp
  · exact pathContains_trans hp' hp

omit [NumberFormat N] in
lemma slash_mem_of_expanded {e : PermissionEntry N} {x : JsString} (h : x ∈ e.expandedActions) :
    slash ∈ x := by
  obtain ⟨a, -, rfl⟩ := List.mem_map.mp h
  split_ifs with ha
  · exact List.contains_iff_mem.mp ha
  · simp

omit [NumberFormat N] in
lemma ne_star_of_expanded {e : PermissionEntry N} {x : JsString} (h : x ∈ e.expandedActions) :
    x ≠ js "*" := by
  rintro rfl
  exact absurd (slash_mem_of_expanded h) (by decide)

omit [NumberFormat N] in
/-- Between expanded actions only a pattern covers a different action. -/
lemma expanded_covers {e : PermissionEntry N} {x y : JsString} (hx : x ∈ e.expandedActions) :
    actionContains x y = true ↔ x = y ∨ (isExplicitOnlyAction y = false ∧
      ∃ s, x = wildcard s ∧ (y = s ∨ s ++ [slash] <+: y)) := by
  simp only [actionContains_iff, ne_star_of_expanded hx, false_or]

lemma wildcard_injective : Function.Injective wildcard := fun _ _ h => List.append_cancel_right h

lemma isExplicitOnlyAction_wildcard (s : JsString) : isExplicitOnlyAction (wildcard s) = false := by
  simp only [isExplicitOnlyAction, Bool.or_eq_false_iff, beq_eq_false_iff_ne]
  constructor <;>
  · intro h
    have hl := congrArg List.getLast? h
    rw [wildcard, List.getLast?_append_of_ne_nil _ (by simp)] at hl
    exact absurd hl (by decide)

/-- A prefix that ends in a slash and covers a pattern covers the pattern's service. -/
lemma prefix_of_wildcard {t s : JsString} (h : t ++ [slash] <+: wildcard s) :
    t ++ [slash] <+: s ++ [slash] := by
  have hw : wildcard s = (s ++ [slash]) ++ [42] := by simp [wildcard]
  rw [hw] at h
  rcases List.prefix_concat_iff.mp h with h | h
  · exact absurd (List.append_inj_right' h rfl) (by decide)
  · exact h

omit [NumberFormat N] in
/-- Coverage composes, save for a pattern that is covered by a pattern of itself. -/
lemma covers_trans {e e' : PermissionEntry N} {x y z : JsString} (hz : z ∈ e.expandedActions)
    (hx : x ∈ e'.expandedActions) (hzx : actionContains z x = true) (hxy : actionContains x y = true)
    (hne : ∀ s, x = wildcard s → z ≠ wildcard x) : actionContains z y = true := by
  rcases (expanded_covers hx).mp hxy with rfl | ⟨he, s, rfl, hy⟩
  · exact hzx
  rcases (expanded_covers hz).mp hzx with rfl | ⟨-, t, rfl, ht⟩
  · exact hxy
  rcases ht with rfl | ht
  · exact absurd rfl (hne s rfl)
  have hts := prefix_of_wildcard ht
  rcases hy with rfl | hy
  · rcases List.prefix_concat_iff.mp hts with h | h
    · obtain rfl : t = y := List.append_cancel_right h
      exact hxy
    · exact (expanded_covers hz).mpr (.inr ⟨he, t, rfl, .inr h⟩)
  · exact (expanded_covers hz).mpr (.inr ⟨he, t, rfl, .inr (hts.trans hy)⟩)

/-- An action under `s` that no action of at most `n` units names. -/
def freshAction (s : JsString) (n : ℕ) : JsString := s ++ [slash] ++ List.replicate (n + 1) 97

lemma isExplicitOnlyAction_fresh (s : JsString) (n : ℕ) : isExplicitOnlyAction (freshAction s n) = false := by
  simp only [isExplicitOnlyAction, Bool.or_eq_false_iff, beq_eq_false_iff_ne]
  constructor <;>
  · intro h
    have hl := congrArg List.getLast? h
    rw [freshAction, List.getLast?_append_of_ne_nil _ (by simp), List.getLast?_replicate,
      if_neg (by omega)] at hl
    exact absurd hl (by decide)

lemma prefix_of_fresh {t s : JsString} {n : ℕ} (h : t ++ [slash] <+: freshAction s n) :
    t ++ [slash] <+: s ++ [slash] := by
  rcases List.prefix_or_prefix_of_prefix h (List.prefix_append (s ++ [slash]) _) with hp | ⟨w, hw⟩
  · exact hp
  · rw [← hw, freshAction, List.prefix_append_right_inj] at h
    rcases List.eq_nil_or_concat w with rfl | ⟨v, u, rfl⟩
    · have he : t ++ [slash] = s ++ [slash] := by rw [← hw, List.append_nil]
      exact he ▸ List.prefix_refl _
    · have hu : u = slash := by
        have := congrArg List.getLast? hw
        simpa [← List.append_assoc] using this
      have := List.eq_of_mem_replicate (h.subset (by simp : u ∈ v.concat u))
      rw [hu] at this
      exact absurd this (by decide)

omit [NumberFormat N] in
/-- What covers a fresh action under `s` covers the pattern of `s`, and is no pattern of it. -/
lemma covers_of_fresh {e : PermissionEntry N} {z s : JsString} {n : ℕ} (hz : z ∈ e.expandedActions)
    (hn : z.length ≤ n) (h : actionContains z (freshAction s n) = true) :
    actionContains z (wildcard s) = true ∧ z ≠ wildcard (wildcard s) := by
  have hlen : n < (freshAction s n).length := by simp [freshAction]; omega
  rcases (expanded_covers hz).mp h with rfl | ⟨-, t, rfl, ht⟩
  · omega
  rcases ht with rfl | ht
  · simp only [wildcard, List.length_append] at hn
    omega
  have hts := prefix_of_fresh ht
  refine ⟨(expanded_covers hz).mpr (.inr ⟨isExplicitOnlyAction_wildcard s, t, rfl, .inr ?_⟩), ?_⟩
  · exact hts.trans ⟨[42], by simp [wildcard]⟩
  · intro heq
    obtain rfl := wildcard_injective heq
    have := hts.length_le
    simp [wildcard] at this

lemma exists_length_bound (l : List JsString) : ∃ n, ∀ z ∈ l, z.length ≤ n := by
  induction l with
  | nil => exact ⟨0, by simp⟩
  | cons a l ih =>
    obtain ⟨n, hn⟩ := ih
    refine ⟨max a.length n, fun z hz => ?_⟩
    rcases List.mem_cons.mp hz with rfl | hz
    · exact le_max_left _ _
    · exact (hn z hz).trans (le_max_right _ _)

variable (assertAddress) in
/-- Every pattern of `b` is covered in `c` by something else than a pattern of that pattern. -/
def NoDoubledWildcard (b c : List (PermissionEntry N)) : Prop :=
  ∀ g ∈ b, g.namedKey = false → ∀ s, wildcard s ∈ g.expandedActions → ∃ h ∈ c,
    canonicalizeEntryScopeMatches assertAddress g h = true ∧ ∃ z ∈ h.expandedActions,
      actionContains z (wildcard s) = true ∧ z ≠ wildcard (wildcard s)

lemma entryCovered_trans {r : PermissionEntry N} {b c : List (PermissionEntry N)}
    (hw : NoDoubledWildcard assertAddress b c) (hbc : ∀ g ∈ b, entryCovered assertAddress g c = true)
    (hr : entryCovered assertAddress r b = true) : entryCovered assertAddress r c = true := by
  rw [entryCovered_iff] at hr ⊢
  intro y hy
  obtain ⟨g, hg, hm, x, hx, hxy⟩ := hr y hy
  have hn := namedKey_of_scopeMatches hm
  cases hk : r.namedKey with
  | true =>
    simp only [hk, if_true] at hxy ⊢
    obtain ⟨h, hh, hmh, z, hz, hzx⟩ := entryCovered_iff.mp (hbc g hg) x hx
    simp only [← hn, hk, if_true] at hzx
    exact ⟨h, hh, scopeMatches_trans hm hmh, z, hz, hzx.trans hxy⟩
  | false =>
    simp only [hk, Bool.false_eq_true, if_false] at hxy ⊢
    have hstep : ∃ h ∈ c, canonicalizeEntryScopeMatches assertAddress g h = true ∧
        ∃ z ∈ h.expandedActions, actionContains z x = true ∧ ∀ s, x = wildcard s → z ≠ wildcard x := by
      by_cases hp : ∃ s, x = wildcard s
      · obtain ⟨s, rfl⟩ := hp
        obtain ⟨h, hh, hmh, z, hz, hzx, hne⟩ := hw g hg (hn.symm.trans hk) s hx
        exact ⟨h, hh, hmh, z, hz, hzx, fun _ _ => hne⟩
      · obtain ⟨h, hh, hmh, z, hz, hzx⟩ := entryCovered_iff.mp (hbc g hg) x hx
        simp only [← hn, hk, Bool.false_eq_true, if_false] at hzx
        exact ⟨h, hh, hmh, z, hz, hzx, fun s hs => absurd ⟨s, hs⟩ hp⟩
    obtain ⟨h, hh, hmh, z, hz, hzx, hne⟩ := hstep
    exact ⟨h, hh, scopeMatches_trans hm hmh, z, hz, covers_trans hz hx hzx hxy hne⟩

lemma noDoubledWildcard_of_trans {b c : List (PermissionEntry N)}
    (h : ∀ a, (isCapabilitySubset assertAddress a b).subset = true →
      (isCapabilitySubset assertAddress a c).subset = true) : NoDoubledWildcard assertAddress b c := by
  intro g hg hk s hs
  obtain ⟨n, hn⟩ := exists_length_bound (c.flatMap PermissionEntry.expandedActions)
  let r : PermissionEntry N := { g with actions := [freshAction s n] }
  have hra : r.expandedActions = [freshAction s n] := by
    simp [r, PermissionEntry.expandedActions, expandActionShortNames, freshAction]
  have hrk : r.namedKey = false := hk
  have hself : canonicalizeEntryScopeMatches assertAddress r g = true := by
    refine scopeMatches_iff.mpr ⟨rfl, rfl, ?_, rfl⟩
    rw [hrk]
    exact pathContains_iff.mpr (.inr (.inr (.inr rfl)))
  have hrb : entryCovered assertAddress r b = true := by
    refine entryCovered_iff.mpr fun y hy => ⟨g, hg, hself, wildcard s, hs, ?_⟩
    rw [hra, List.mem_singleton] at hy
    rw [hrk, hy]
    exact (expanded_covers hs).mpr (.inr ⟨isExplicitOnlyAction_fresh s n, s, rfl, .inr ⟨_, rfl⟩⟩)
  have hrc := subset_iff.mp (h [r] (subset_iff.mpr (by simpa using hrb))) r (by simp)
  obtain ⟨e, he, hm, z, hz, hzy⟩ := entryCovered_iff.mp hrc (freshAction s n) (by simp [hra])
  simp only [hrk, Bool.false_eq_true, if_false] at hzy
  have hzn := hn z (List.mem_flatMap.mpr ⟨e, he, hz⟩)
  exact ⟨e, he, hm, z, hz, covers_of_fresh hz hzn hzy⟩

variable (assertAddress) (N) in
/-- Two hops compose exactly when the second covers no pattern by a pattern of it alone; containment
of encryption resources is reflexive where it parses, and transitive. -/
theorem subset_transitive :
    (∀ b c : List (PermissionEntry N), (isCapabilitySubset assertAddress b c).subset = true →
      ((∀ a, (isCapabilitySubset assertAddress a b).subset = true →
        (isCapabilitySubset assertAddress a c).subset = true) ↔ NoDoubledWildcard assertAddress b c)) ∧
    (∀ s r, parseEncryptionResource assertAddress s = .ok r →
      encryptionResourceContains assertAddress s s = true) ∧
    (∀ a b c, encryptionResourceContains assertAddress a b = true →
      encryptionResourceContains assertAddress b c = true →
      encryptionResourceContains assertAddress a c = true) := by
  refine ⟨fun b c hbc => ⟨noDoubledWildcard_of_trans, fun hw a hab => ?_⟩,
    fun _ _ => encryptionResourceContains_refl, fun _ _ _ => encryptionResourceContains_trans⟩
  rw [subset_iff] at hab hbc ⊢
  exact fun r hr => entryCovered_trans hw hbc (hab r hr)

end Check

section Samples

/-- A format for the samples, which hold no numbers. -/
@[reducible] def noNumbers : NumberFormat Empty where
  text n := n.elim
  read _ := none
  literal_text n := n.elim
  read_text n := n.elim

def sampleEntry (path action : String) : PermissionEntry Empty where
  service := js "tinycloud.kv"
  space := some (js "default")
  path := js path
  actions := [js action]
  caveats := none
  skipPrefix := none
  expiry := none
  description := none

/-- A read allowed by `kv/*`, which `kv/*/*` covers as a name, is refused under `kv/*/*`. -/
theorem subset_not_transitive :
    letI := noNumbers
    let a := [sampleEntry "notes/" "tinycloud.kv/get"]
    let b := [sampleEntry "notes/" "tinycloud.kv/*"]
    let c := [sampleEntry "notes/" "tinycloud.kv/*/*"]
    (isCapabilitySubset some a b).subset = true ∧ (isCapabilitySubset some b c).subset = true ∧
      (isCapabilitySubset some a c).subset = false := by
  decide

theorem subset_transitive_sample :
    letI := noNumbers
    (isCapabilitySubset some [sampleEntry "notes/a" "tinycloud.kv/get"]
      [sampleEntry "" "tinycloud.kv/*"]).subset = true := by
  let := noNumbers
  have h := (subset_transitive Empty some).1 [sampleEntry "notes/" "tinycloud.kv/*"]
    [sampleEntry "" "tinycloud.kv/*"] (by decide)
  refine h.mpr ?_ [sampleEntry "notes/a" "tinycloud.kv/get"] (by decide)
  intro g hg _ s hs
  obtain rfl := List.mem_singleton.mp hg
  have ha : (sampleEntry "notes/" "tinycloud.kv/*").expandedActions = [wildcard (js "tinycloud.kv")] := by
    decide
  rw [ha, List.mem_singleton] at hs
  obtain rfl := wildcard_injective hs
  exact ⟨_, List.mem_singleton_self _, by decide, wildcard (js "tinycloud.kv"),
    by decide, by decide, by decide⟩

end Samples

end TinyCloud.Capability
