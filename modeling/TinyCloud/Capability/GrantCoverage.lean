import TinyCloud.Capability.Soundness
import Mathlib.Data.List.Infix

/-!
# Three readings of a signed attenuation

The Node adapter (`ucanAttCovers`), the replica (`grantCovers`) and the capability subset check read
whether an attenuation grants `get` and `sync` on a folder. They agree exactly where no authority
hangs on an ability that only some of them know.
-/

namespace TinyCloud.Capability

open TinyCloud.Text

variable {N : Type}

/-- A signed attenuation map: resource, ability, caveats. -/
structure Attenuation (N : Type) where
  resources : List (JsString × List (JsString × JsonValue N))
  abilities_nodup : ∀ r ∈ resources, (r.2.map Prod.fst).Nodup

def KV_SERVICE : JsString := js "tinycloud.kv"
def KV_GET : JsString := js "tinycloud.kv/get"
def KV_SYNC : JsString := js "tinycloud.kv/sync"

section Replica

def authorityPathCovers (grantPath requestedPath : JsString) : Bool :=
  if grantPath = [slash] then true
  else if [slash].isSuffixOf grantPath then grantPath.isPrefixOf requestedPath
  else requestedPath == grantPath

/-- The KV path a signed resource names in `space`. -/
def kvPathIn (resource space : JsString) : Option JsString :=
  let roots := [space ++ js "/kv", js "tinycloud://" ++ space ++ js "/kv"]
  if roots.any fun root => resource == root || resource == root ++ [slash] then some [slash]
  else roots.findSome? fun root =>
    if (root ++ [slash]).isPrefixOf resource then some (resource.drop (root ++ [slash]).length) else none

def grantCovers (att : Attenuation N) (space folder ability : JsString) : Bool :=
  att.resources.any fun r =>
    match kvPathIn r.1 space with
    | none => false
    | some path => authorityPathCovers path folder &&
        (decide (ability ∈ r.2.map Prod.fst) ||
          (ability != KV_SYNC && ability != js "tinycloud.kv/retain" &&
            decide (js "tinycloud.kv/*" ∈ r.2.map Prod.fst)))

def caveatsUnconstrained (value : JsonValue N) : Bool :=
  match value.1 with
  | .null => true
  | .arr [] => true
  | .arr [.obj []] => true
  | .obj [] => true
  | _ => false

def grantUnconstrained (att : Attenuation N) (space folder : JsString) : Bool :=
  [KV_GET, KV_SYNC].all fun ability => att.resources.any fun r =>
    match kvPathIn r.1 space with
    | none => false
    | some path => authorityPathCovers path folder &&
        (if ability = KV_SYNC then [ability] else [ability, js "tinycloud.kv/*"]).any fun name =>
          match r.2.lookup name with
          | none => false
          | some caveats => caveatsUnconstrained caveats

end Replica

section NodeAdapter

variable [NumberFormat N] (assertAddress : JsString → Option JsString)

def arrayItems (value : JsonValue N) : Option (List (JsonValue N)) :=
  match value with
  | ⟨.arr items, h⟩ => some (items.attach.map fun v => ⟨v.1, by cases h with | arr h => exact h v.1 v.2⟩)
  | _ => none

/-- Only array branch sets are known; anything else but nothing at all counts as constrained. -/
def caveatBranchesUnconstrained (value : JsonValue N) : Bool :=
  match value.1 with
  | .null => true
  | .obj [] => true
  | _ =>
    match arrayItems value with
    | none => false
    | some items => canonicalizeRecapCaveats (some items) == canonicalizeRecapCaveats (N := N) none

def kvPathInResource (resource space : JsString) : Option JsString := kvPathIn resource space

def kvEntry (space path : JsString) (actions : List JsString) (caveats : Option (List (JsonValue N))) :
    PermissionEntry N where
  service := KV_SERVICE
  space := some space
  path := path
  actions := actions
  caveats := caveats
  skipPrefix := none
  expiry := none
  description := none

def ucanAttCovers (att : Attenuation N) (space folder ability : JsString) (ignoreCaveats : Bool) : Bool :=
  att.resources.any fun r =>
    match kvPathInResource r.1 space with
    | none => false
    | some path => r.2.any fun a =>
        actionContains a.1 ability &&
          (isCapabilitySubset assertAddress [kvEntry (N := N) space folder [ability] none]
            [kvEntry space path [a.1] none]).subset &&
          (ignoreCaveats || caveatBranchesUnconstrained a.2)

def ucanAttUnconstrainedFor (att : Attenuation N) (space folder : JsString) : Bool :=
  ucanAttCovers assertAddress att space folder KV_GET false &&
    ucanAttCovers assertAddress att space folder KV_SYNC false

/-- The branch set of a signed caveat value, as a permission entry holds it. -/
def entryCaveats (value : JsonValue N) : Option (List (JsonValue N)) :=
  match value.1 with
  | .null => none
  | _ => some ((arrayItems value).getD [value])

/-- The permission entries of an attenuation in a space, one for each ability. -/
def attEntries (att : Attenuation N) (space : JsString) (ignoreCaveats : Bool) : List (PermissionEntry N) :=
  att.resources.flatMap fun r =>
    match kvPathIn r.1 space with
    | none => []
    | some path => r.2.map fun a =>
        kvEntry space path [a.1] (if ignoreCaveats then none else entryCaveats a.2)

end NodeAdapter

section Caveats

variable [NumberFormat N]

omit [NumberFormat N] in
lemma canonical_eq_empty {v : Json N} : v.canonical = .obj [] ↔ v = .obj [] := by
  cases v with
  | obj members =>
    rw [canonical_obj, Json.obj.injEq, Json.obj.injEq, List.map_eq_nil_iff]
    constructor
    · intro h
      have := List.perm_insertionSort KeyLe members
      rw [h] at this
      exact this.nil_eq.symm
    · rintro rfl
      rfl
  | arr items => simp [canonical_arr]
  | _ => simp [Json.canonical]

omit [NumberFormat N] in
lemma caveatSet_some {items : List (JsonValue N)} :
    caveatSet (some items) = 0 ↔ items = [] ∨ ∃ v, items = [v] ∧ v.1 = .obj [] := by
  have hb : branches (some items) = (items.map fun v => v.1.canonical : List (Json N)) := rfl
  unfold caveatSet
  split_ifs with h
  · rw [hb, Multiset.coe_eq_singleton, List.map_eq_singleton_iff] at h
    obtain ⟨v, rfl, hv⟩ := h
    exact ⟨fun _ => .inr ⟨v, rfl, canonical_eq_empty.mp hv⟩, fun _ => rfl⟩
  · rw [hb, Multiset.coe_eq_zero, List.map_eq_nil_iff]
    constructor
    · exact .inl
    · rintro (rfl | ⟨v, rfl, hv⟩)
      · rfl
      · refine absurd ?_ h
        rw [hb, List.map_singleton, canonical_eq_empty.mpr hv]
        rfl

omit [NumberFormat N] in
lemma caveatSet_none : caveatSet (none : Option (List (JsonValue N))) = 0 := by
  have h : branches (none : Option (List (JsonValue N))) = 0 := rfl
  unfold caveatSet
  split_ifs
  · rfl
  · exact h

omit [NumberFormat N] in
lemma unconstrained_iff (v : JsonValue N) :
    caveatSet (entryCaveats v) = 0 ↔ caveatsUnconstrained v = true := by
  obtain ⟨v, hv⟩ := v
  cases v with
  | null => simp [entryCaveats, caveatSet_none, caveatsUnconstrained]
  | arr items =>
    have he : entryCaveats ⟨.arr items, hv⟩ = arrayItems ⟨.arr items, hv⟩ := rfl
    rw [he, arrayItems, caveatSet_some]
    rcases items with _ | ⟨w, _ | ⟨u, items⟩⟩
    · simp [caveatsUnconstrained]
    · cases w with
      | obj members => cases members <;> simp [caveatsUnconstrained]
      | _ => simp [caveatsUnconstrained]
    · simp [caveatsUnconstrained]
  | obj members =>
    have he : entryCaveats ⟨.obj members, hv⟩ = some [⟨.obj members, hv⟩] := rfl
    rw [he, caveatSet_some]
    cases members <;> simp [caveatsUnconstrained]
  | bool b =>
    have he : entryCaveats ⟨.bool b, hv⟩ = some [⟨.bool b, hv⟩] := rfl
    rw [he, caveatSet_some]
    simp [caveatsUnconstrained]
  | num n =>
    have he : entryCaveats ⟨.num n, hv⟩ = some [⟨.num n, hv⟩] := rfl
    rw [he, caveatSet_some]
    simp [caveatsUnconstrained]
  | str t =>
    have he : entryCaveats ⟨.str t, hv⟩ = some [⟨.str t, hv⟩] := rfl
    rw [he, caveatSet_some]
    simp [caveatsUnconstrained]

/-- Both adapters read a caveat value alike. -/
theorem caveatBranchesUnconstrained_eq (v : JsonValue N) :
    caveatBranchesUnconstrained v = caveatsUnconstrained v := by
  have hcanon : ∀ items : List (JsonValue N),
      (canonicalizeRecapCaveats (some items) == canonicalizeRecapCaveats (N := N) none) = true ↔
        caveatSet (some items) = 0 := by
    intro items
    rw [beq_iff_eq, recapCaveatsEqual_iff, caveatSet_none]
  rw [Bool.eq_iff_iff, ← unconstrained_iff]
  obtain ⟨v, hv⟩ := v
  cases v with
  | null => simp [caveatBranchesUnconstrained, entryCaveats, caveatSet_none]
  | arr items => exact hcanon _
  | obj members =>
    cases members with
    | nil => simp [unconstrained_iff, caveatBranchesUnconstrained, caveatsUnconstrained]
    | cons m members => simp [unconstrained_iff, caveatBranchesUnconstrained, caveatsUnconstrained, arrayItems]
  | _ => simp [unconstrained_iff, caveatBranchesUnconstrained, caveatsUnconstrained, arrayItems]

end Caveats

section Abilities

/-- What all three readings take for `get`. -/
def getAbilities : List JsString := [KV_GET, js "tinycloud.kv/*"]

/-- Patterns that the Node adapter and the subset check take for `get`, and the replica does not. -/
def wideAbilities : List JsString := [js "*", js "tinycloud.kv/get/*"]

lemma service_of_prefix_get {s : JsString} (h : s ++ [slash] <+: KV_GET) : s = KV_SERVICE := by
  have hall : ∀ p ∈ KV_GET.inits, p.getLast? = some slash → p = KV_SERVICE ++ [slash] := by decide
  exact List.append_cancel_right (hall _ ((List.mem_inits _ _).mpr h) (by simp))

lemma actionContains_get {a : JsString} :
    actionContains a KV_GET = true ↔ a ∈ getAbilities ++ wideAbilities := by
  have hex : isExplicitOnlyAction KV_GET = false := by decide
  have hkv : wildcard KV_SERVICE = js "tinycloud.kv/*" := by decide
  have hget : wildcard KV_GET = js "tinycloud.kv/get/*" := by decide
  simp only [actionContains_iff, hex, true_and, getAbilities, wideAbilities, List.cons_append,
    List.nil_append, List.mem_cons, List.not_mem_nil, or_false]
  constructor
  · rintro (h | h | ⟨s, rfl, rfl | h⟩)
    · exact .inl h
    · exact .inr (.inr (.inl h))
    · exact .inr (.inr (.inr hget))
    · rw [service_of_prefix_get h]
      exact .inr (.inl hkv)
  · rintro (h | rfl | h | rfl)
    · exact .inl h
    · exact .inr (.inr ⟨KV_SERVICE, hkv.symm, .inr (by decide)⟩)
    · exact .inr (.inl h)
    · exact .inr (.inr ⟨KV_GET, hget.symm, .inl rfl⟩)

lemma actionContains_sync {a : JsString} : actionContains a KV_SYNC = true ↔ a ∈ [KV_SYNC] := by
  have hex : isExplicitOnlyAction KV_SYNC = true := by decide
  simp [actionContains_iff, hex]

def expandAction (a : JsString) : JsString := if a.contains slash then a else KV_SERVICE ++ slash :: a

lemma expandAction_eq_iff {a t : JsString} (ht : slash ∉ t) {b : JsString} (hb : b = KV_SERVICE ++ slash :: t) :
    expandAction a = b ↔ a = b ∨ a = t := by
  subst hb
  unfold expandAction
  split_ifs with ha
  · constructor
    · exact .inl
    · rintro (h | rfl)
      · exact h
      · exact absurd (List.contains_iff_mem.mp ha) ht
  · constructor
    · intro h
      exact .inr (List.cons.inj (List.append_cancel_left h)).2
    · rintro (rfl | rfl)
      · exact absurd (List.contains_iff_mem.mpr (by simp)) ha
      · rfl

lemma expandAction_eq_iff_of_mem {a t : JsString} (ht : slash ∈ t) {b : JsString}
    (hb : b = KV_SERVICE ++ slash :: t) : expandAction a = b ↔ a = b := by
  subst hb
  unfold expandAction
  split_ifs with ha
  · rfl
  · constructor
    · intro h
      obtain rfl := (List.cons.inj (List.append_cancel_left h)).2
      exact absurd (List.contains_iff_mem.mpr ht) ha
    · rintro rfl
      exact absurd (List.contains_iff_mem.mpr (by simp)) ha

lemma slash_mem_expandAction (a : JsString) : slash ∈ expandAction a := by
  unfold expandAction
  split_ifs with h
  · exact List.contains_iff_mem.mp h
  · simp

lemma expandAction_get {a : JsString} :
    actionContains (expandAction a) KV_GET = true ↔ a ∈ getAbilities ++ wideAbilities ++ [js "get"] := by
  have h1 := @expandAction_eq_iff a (js "get") (by decide) KV_GET (by decide)
  have h2 := @expandAction_eq_iff a (js "*") (by decide) (js "tinycloud.kv/*") (by decide)
  have h3 := @expandAction_eq_iff_of_mem a (js "get/*") (by decide) (js "tinycloud.kv/get/*")
    (by decide)
  have h4 : expandAction a ≠ js "*" := by
    intro h
    have hm := slash_mem_expandAction a
    rw [h] at hm
    exact absurd hm (by decide)
  rw [actionContains_get]
  simp only [getAbilities, wideAbilities, List.cons_append, List.nil_append, List.mem_cons,
    List.not_mem_nil, or_false, h1, h2, h3, h4, false_or]
  simp only [or_assoc, or_left_comm, or_comm]

lemma expandAction_sync {a : JsString} :
    actionContains (expandAction a) KV_SYNC = true ↔ a ∈ [KV_SYNC, js "sync"] := by
  have h := @expandAction_eq_iff a (js "sync") (by decide) KV_SYNC (by decide)
  simp only [actionContains_sync, List.mem_cons, List.not_mem_nil, or_false, h]

end Abilities

section Agreement

lemma kvPathIn_ne_nil {resource space path : JsString} (h : kvPathIn resource space = some path) :
    path ≠ [] := by
  unfold kvPathIn at h
  dsimp only at h
  split_ifs at h with hroot
  · rw [← Option.some.inj h]
    simp
  · rintro rfl
    obtain ⟨root, hr, hd⟩ := List.exists_of_findSome?_eq_some h
    split_ifs at hd with hp
    obtain ⟨t, rfl⟩ := List.isPrefixOf_iff_prefix.mp hp
    rw [Option.some.injEq, List.drop_left] at hd
    refine hroot (List.any_eq_true.mpr ⟨root, hr, ?_⟩)
    simp [hd]

lemma pathContains_eq {path folder : JsString} (h : path ≠ []) :
    pathContains path folder = authorityPathCovers path folder := by
  unfold pathContains authorityPathCovers
  simp only [h, false_or]

variable (att : Attenuation N) (space folder : JsString)

/-- A resource that covers the folder carries one of the abilities, without caveats if `free`. -/
def Carries (abilities : List JsString) (free : Bool) : Prop :=
  ∃ r ∈ att.resources, ∃ path, kvPathIn r.1 space = some path ∧ authorityPathCovers path folder = true ∧
    ∃ a ∈ r.2, a.1 ∈ abilities ∧ (free = true → caveatsUnconstrained a.2 = true)

variable {att space folder}

lemma carries_append {l m : List JsString} {free : Bool} :
    Carries att space folder (l ++ m) free ↔
      Carries att space folder l free ∨ Carries att space folder m free := by
  simp only [Carries, List.mem_append]
  constructor
  · rintro ⟨r, hr, path, hp, hc, a, ha, hl | hm, hf⟩
    · exact .inl ⟨r, hr, path, hp, hc, a, ha, hl, hf⟩
    · exact .inr ⟨r, hr, path, hp, hc, a, ha, hm, hf⟩
  · rintro (⟨r, hr, path, hp, hc, a, ha, hl, hf⟩ | ⟨r, hr, path, hp, hc, a, ha, hm, hf⟩)
    · exact ⟨r, hr, path, hp, hc, a, ha, .inl hl, hf⟩
    · exact ⟨r, hr, path, hp, hc, a, ha, .inr hm, hf⟩

lemma grantCovers_sync : grantCovers att space folder KV_SYNC = true ↔ Carries att space folder [KV_SYNC] false := by
  simp only [grantCovers, List.any_eq_true, Carries]
  refine exists_congr fun r => and_congr_right fun _ => ?_
  cases kvPathIn r.1 space with
  | none => simp
  | some path => simp [List.mem_map]

lemma grantCovers_get : grantCovers att space folder KV_GET = true ↔ Carries att space folder getAbilities false := by
  have h1 : (KV_GET != KV_SYNC) = true := by decide
  have h2 : (KV_GET != js "tinycloud.kv/retain") = true := by decide
  simp only [grantCovers, List.any_eq_true, Carries, h1, h2, Bool.true_and]
  refine exists_congr fun r => and_congr_right fun _ => ?_
  cases kvPathIn r.1 space with
  | none => simp
  | some path =>
    simp only [Bool.and_eq_true, Bool.or_eq_true, decide_eq_true_eq, List.mem_map, Option.some.injEq,
      exists_eq_left', getAbilities, List.mem_cons, List.not_mem_nil, or_false, Bool.false_eq_true,
      false_implies, and_true]
    refine and_congr_right fun _ => ?_
    constructor
    · rintro (⟨a, ha, h⟩ | ⟨a, ha, h⟩)
      · exact ⟨a, ha, .inl h⟩
      · exact ⟨a, ha, .inr h⟩
    · rintro ⟨a, ha, h | h⟩
      · exact .inl ⟨a, ha, h⟩
      · exact .inr ⟨a, ha, h⟩

lemma lookup_iff {l : List (JsString × JsonValue N)} (h : (l.map Prod.fst).Nodup) {name : JsString} :
    (match l.lookup name with
      | none => false
      | some caveats => caveatsUnconstrained caveats) = true ↔
      ∃ a ∈ l, a.1 = name ∧ caveatsUnconstrained a.2 = true := by
  induction l with
  | nil => simp
  | cons e l ih =>
    obtain ⟨k, v⟩ := e
    rw [List.map_cons, List.nodup_cons] at h
    by_cases hk : name = k
    · subst hk
      rw [List.lookup_cons_self]
      constructor
      · intro hv
        exact ⟨(name, v), by simp, rfl, hv⟩
      · rintro ⟨a, ha, rfl, hv⟩
        rcases List.mem_cons.mp ha with he | ha
        · rw [he] at hv
          exact hv
        · exact absurd (List.mem_map_of_mem ha) h.1
    · rw [List.lookup_cons, beq_eq_false_iff_ne.mpr hk]
      rw [ih h.2]
      constructor
      · rintro ⟨a, ha, h⟩
        exact ⟨a, by simp [ha], h⟩
      · rintro ⟨a, ha, rfl, hv⟩
        rcases List.mem_cons.mp ha with he | ha
        · exact absurd (by rw [he]) hk
        · exact ⟨a, ha, rfl, hv⟩

lemma grantUnconstrained_iff : grantUnconstrained att space folder = true ↔
    Carries att space folder getAbilities true ∧ Carries att space folder [KV_SYNC] true := by
  have hcase : ∀ names : List JsString, (∃ r ∈ att.resources, (match kvPathIn r.1 space with
      | none => false
      | some path => authorityPathCovers path folder && names.any fun name =>
          match r.2.lookup name with
          | none => false
          | some caveats => caveatsUnconstrained caveats) = true) ↔
      Carries att space folder names true := by
    intro names
    unfold Carries
    refine exists_congr fun r => and_congr_right fun hr => ?_
    cases kvPathIn r.1 space with
    | none => simp
    | some path =>
      simp only [Bool.and_eq_true, List.any_eq_true, lookup_iff (att.abilities_nodup r hr),
        Option.some.injEq, exists_eq_left', true_implies]
      refine and_congr_right fun _ => ?_
      constructor
      · rintro ⟨name, hn, a, ha, rfl, hf⟩
        exact ⟨a, ha, hn, hf⟩
      · rintro ⟨a, ha, hn, hf⟩
        exact ⟨a.1, hn, a, ha, rfl, hf⟩
  have hne : KV_GET ≠ KV_SYNC := by decide
  rw [← hcase, ← hcase]
  simp only [grantUnconstrained, List.all_cons, List.all_nil, Bool.and_true, Bool.and_eq_true,
    List.any_eq_true (l := att.resources), if_neg hne, if_true]
  rfl

section Entries

variable [NumberFormat N] {assertAddress : JsString → Option JsString}

omit [NumberFormat N] in
lemma kv_namedKey {l : List JsString} :
    (kvEntry space folder l (none : Option (List (JsonValue N)))).namedKey = false := by
  have h : (KV_SERVICE == ENCRYPTION_SERVICE) = false := by decide
  simp [PermissionEntry.namedKey, kvEntry, h]

lemma kv_scopeMatches {path : JsString} {l m : List JsString} {c : Option (List (JsonValue N))} :
    canonicalizeEntryScopeMatches assertAddress (kvEntry space folder l none) (kvEntry space path m c) = true ↔
      pathContains path folder = true ∧ caveatSet c = 0 := by
  rw [scopeMatches_iff, kv_namedKey, recapCaveatsEqual_iff]
  exact ⟨fun ⟨_, _, hp, hc⟩ => ⟨hp, (hc.symm.trans caveatSet_none)⟩,
    fun ⟨hp, hc⟩ => ⟨rfl, rfl, hp, caveatSet_none.trans hc.symm⟩⟩

omit [NumberFormat N] in
lemma kv_expanded {path : JsString} {l : List JsString} {c : Option (List (JsonValue N))} :
    (kvEntry space path l c).expandedActions = l.map expandAction := rfl

/-- A request for one named action of the folder, against any entries of the space. -/
lemma kv_covered {l : List JsString} {entries : List (PermissionEntry N)}
    (hl : ∀ y ∈ l, slash ∈ y) :
    (isCapabilitySubset assertAddress [kvEntry space folder l none] entries).subset = true ↔
      ∀ y ∈ l, ∃ g ∈ entries,
        canonicalizeEntryScopeMatches assertAddress (kvEntry space folder l none) g = true ∧
        ∃ x ∈ g.expandedActions, actionContains x y = true := by
  have he : l.map expandAction = l :=
    (List.map_congr_left fun y hy => if_pos (List.contains_iff_mem.mpr (hl y hy))).trans (List.map_id l)
  simp only [subset_iff, List.mem_singleton, forall_eq, entryCovered_iff, kv_expanded, he, kv_namedKey,
    Bool.false_eq_true, if_false]

lemma kv_single {path a ability : JsString} (hs : slash ∈ ability) :
    (isCapabilitySubset assertAddress [kvEntry (N := N) space folder [ability] none]
      [kvEntry space path [a] none]).subset = true ↔
      pathContains path folder = true ∧ actionContains (expandAction a) ability = true := by
  rw [kv_covered (by simpa using hs)]
  simp only [List.mem_singleton, forall_eq, exists_eq_left, kv_scopeMatches, caveatSet_none, and_true,
    kv_expanded, List.map_singleton]

lemma ucanAttCovers_iff {ability : JsString} {free : Bool} (hs : slash ∈ ability) {names : List JsString}
    (hnames : ∀ a, actionContains a ability = true ↔ a ∈ names)
    (hexp : ∀ a, actionContains a ability = true → actionContains (expandAction a) ability = true) :
    ucanAttCovers assertAddress att space folder ability (!free) = true ↔
      Carries att space folder names free := by
  simp only [ucanAttCovers, List.any_eq_true, Carries, kvPathInResource]
  refine exists_congr fun r => and_congr_right fun _ => ?_
  cases hp : kvPathIn r.1 space with
  | none => simp
  | some path =>
    simp only [List.any_eq_true, Bool.and_eq_true, Bool.or_eq_true, kv_single hs, Option.some.injEq,
      exists_eq_left', pathContains_eq (kvPathIn_ne_nil hp), caveatBranchesUnconstrained_eq, hnames]
    constructor
    · rintro ⟨a, ha, ⟨hn, hc, -⟩, hf⟩
      refine ⟨hc, a, ha, hn, fun h => ?_⟩
      rcases hf with hf | hf
      · simp [h] at hf
      · exact hf
    · rintro ⟨hc, a, ha, hn, hf⟩
      refine ⟨a, ha, ⟨hn, hc, (hnames _).mp (hexp a.1 ((hnames a.1).mpr hn))⟩, ?_⟩
      cases free with
      | true => exact .inr (hf rfl)
      | false => exact .inl rfl

lemma entries_iff {ability : JsString} (free : Bool) {l names : List JsString}
    (hnames : ∀ a, actionContains (expandAction a) ability = true ↔ a ∈ names) :
    (∃ g ∈ attEntries att space (!free),
      canonicalizeEntryScopeMatches assertAddress (kvEntry space folder l none) g = true ∧
      ∃ x ∈ g.expandedActions, actionContains x ability = true) ↔ Carries att space folder names free := by
  simp only [attEntries, List.mem_flatMap, Carries]
  constructor
  · rintro ⟨g, ⟨r, hr, hg⟩, hm, x, hx, hxa⟩
    cases hp : kvPathIn r.1 space with
    | none => simp [hp] at hg
    | some path =>
      simp only [hp, List.mem_map] at hg
      obtain ⟨a, ha, rfl⟩ := hg
      rw [kv_scopeMatches, pathContains_eq (kvPathIn_ne_nil hp)] at hm
      rw [kv_expanded, List.map_singleton, List.mem_singleton] at hx
      refine ⟨r, hr, path, hp, hm.1, a, ha, (hnames a.1).mp (hx ▸ hxa), fun h => ?_⟩
      subst h
      exact (unconstrained_iff a.2).mp (by simpa using hm.2)
  · rintro ⟨r, hr, path, hp, hc, a, ha, hn, hf⟩
    refine ⟨kvEntry space path [a.1] (if !free then none else entryCaveats a.2), ⟨r, hr, ?_⟩, ?_,
      expandAction a.1, by simp [kv_expanded], (hnames a.1).mpr hn⟩
    · rw [hp]
      exact List.mem_map.mpr ⟨a, ha, rfl⟩
    · rw [kv_scopeMatches, pathContains_eq (kvPathIn_ne_nil hp)]
      refine ⟨hc, ?_⟩
      cases free with
      | true => exact (unconstrained_iff a.2).mpr (hf rfl)
      | false => exact caveatSet_none

lemma slash_mem_get : slash ∈ KV_GET := by decide

lemma slash_mem_sync : slash ∈ KV_SYNC := by decide

lemma ucanAttCovers_get (free : Bool) : ucanAttCovers assertAddress att space folder KV_GET (!free) = true ↔
    Carries att space folder (getAbilities ++ wideAbilities) free :=
  ucanAttCovers_iff slash_mem_get (fun _ => actionContains_get) fun _ h =>
    expandAction_get.mpr (List.mem_append_left _ (actionContains_get.mp h))

lemma ucanAttCovers_sync (free : Bool) : ucanAttCovers assertAddress att space folder KV_SYNC (!free) = true ↔
    Carries att space folder [KV_SYNC] free :=
  ucanAttCovers_iff slash_mem_sync (fun _ => actionContains_sync) fun _ h =>
    expandAction_sync.mpr (List.mem_cons.mpr (.inl (List.mem_singleton.mp (actionContains_sync.mp h))))

lemma ucanAttUnconstrainedFor_iff : ucanAttUnconstrainedFor assertAddress att space folder = true ↔
    Carries att space folder (getAbilities ++ wideAbilities) true ∧
      Carries att space folder [KV_SYNC] true := by
  rw [ucanAttUnconstrainedFor, Bool.and_eq_true]
  exact and_congr (ucanAttCovers_get true) (ucanAttCovers_sync true)

lemma subset_get_iff :
    (isCapabilitySubset assertAddress [kvEntry space folder [KV_GET] none] (attEntries att space true)).subset =
      true ↔ Carries att space folder (getAbilities ++ wideAbilities ++ [js "get"]) false := by
  rw [kv_covered (by simpa using slash_mem_get)]
  simp only [List.mem_singleton, forall_eq]
  exact entries_iff false fun _ => expandAction_get

lemma subset_sync_iff :
    (isCapabilitySubset assertAddress [kvEntry space folder [KV_SYNC] none] (attEntries att space true)).subset =
      true ↔ Carries att space folder [KV_SYNC, js "sync"] false := by
  rw [kv_covered (by simpa using slash_mem_sync)]
  simp only [List.mem_singleton, forall_eq]
  exact entries_iff false fun _ => expandAction_sync

lemma subset_both_iff :
    (isCapabilitySubset assertAddress [kvEntry space folder [KV_GET, KV_SYNC] none]
      (attEntries att space false)).subset = true ↔
      Carries att space folder (getAbilities ++ wideAbilities ++ [js "get"]) true ∧
        Carries att space folder [KV_SYNC, js "sync"] true := by
  rw [kv_covered (by simp [slash_mem_get, slash_mem_sync])]
  simp only [List.mem_cons, List.not_mem_nil, or_false, forall_eq_or_imp, forall_eq]
  exact and_congr (entries_iff true fun _ => expandAction_get)
    (entries_iff true fun _ => expandAction_sync)

end Entries

end Agreement

section Result

variable [NumberFormat N] (assertAddress : JsString → Option JsString)

/-- The Node adapter, the replica and the subset check read the attenuation alike. -/
structure ChecksAgree (att : Attenuation N) (space folder : JsString) : Prop where
  covers_get : ucanAttCovers assertAddress att space folder KV_GET true = grantCovers att space folder KV_GET
  covers_sync : ucanAttCovers assertAddress att space folder KV_SYNC true =
    grantCovers att space folder KV_SYNC
  unconstrained : ucanAttUnconstrainedFor assertAddress att space folder = grantUnconstrained att space folder
  subset_get : (isCapabilitySubset assertAddress [kvEntry space folder [KV_GET] none]
    (attEntries att space true)).subset = ucanAttCovers assertAddress att space folder KV_GET true
  subset_sync : (isCapabilitySubset assertAddress [kvEntry space folder [KV_SYNC] none]
    (attEntries att space true)).subset = ucanAttCovers assertAddress att space folder KV_SYNC true
  subset_unconstrained : (isCapabilitySubset assertAddress [kvEntry space folder [KV_GET, KV_SYNC] none]
    (attEntries att space false)).subset = ucanAttUnconstrainedFor assertAddress att space folder

/-- No authority on the folder hangs on `*`, on `tinycloud.kv/get/*` or on a short name alone. -/
structure OnlyKnownAbilities (att : Attenuation N) (space folder : JsString) : Prop where
  wide : Carries att space folder wideAbilities false → Carries att space folder getAbilities false
  wide_free : Carries att space folder wideAbilities true → Carries att space folder [KV_SYNC] true →
    Carries att space folder getAbilities true
  short_get : Carries att space folder [js "get"] false →
    Carries att space folder (getAbilities ++ wideAbilities) false
  short_sync : Carries att space folder [js "sync"] false → Carries att space folder [KV_SYNC] false
  short_free : Carries att space folder (getAbilities ++ wideAbilities ++ [js "get"]) true →
    Carries att space folder ([KV_SYNC] ++ [js "sync"]) true →
    Carries att space folder (getAbilities ++ wideAbilities) true ∧ Carries att space folder [KV_SYNC] true

theorem coverage_checks_agree (att : Attenuation N) (space folder : JsString) :
    ChecksAgree assertAddress att space folder ↔ OnlyKnownAbilities att space folder := by
  have hget := @ucanAttCovers_get N att space folder _ assertAddress false
  have hsync := @ucanAttCovers_sync N att space folder _ assertAddress false
  have hfree := @ucanAttUnconstrainedFor_iff N att space folder _ assertAddress
  have hgrant := @grantUnconstrained_iff N att space folder
  have hsget := @subset_get_iff N att space folder _ assertAddress
  have hssync : _ ↔ Carries att space folder ([KV_SYNC] ++ [js "sync"]) false :=
    @subset_sync_iff N att space folder _ assertAddress
  have hsboth : _ ↔ _ ∧ Carries att space folder ([KV_SYNC] ++ [js "sync"]) true :=
    @subset_both_iff N att space folder _ assertAddress
  rw [Bool.not_false] at hget hsync
  constructor
  · intro h
    refine ⟨fun hw => ?_, fun hw hs => ?_, fun hg => ?_, fun hs => ?_, fun hg hs => ?_⟩
    · rw [← grantCovers_get, ← h.covers_get, hget]
      exact carries_append.mpr (.inr hw)
    · have := hfree.mpr ⟨carries_append.mpr (.inr hw), hs⟩
      rw [h.unconstrained, hgrant] at this
      exact this.1
    · rw [← hget, ← h.subset_get, hsget]
      exact carries_append.mpr (.inr hg)
    · rw [← hsync, ← h.subset_sync, hssync]
      exact carries_append.mpr (.inr hs)
    · rw [← hfree, ← h.subset_unconstrained, hsboth]
      exact ⟨hg, hs⟩
  · intro h
    refine ⟨?_, ?_, ?_, ?_, ?_, ?_⟩ <;> rw [Bool.eq_iff_iff]
    · rw [hget, grantCovers_get, carries_append]
      exact ⟨fun hc => hc.elim id h.wide, .inl⟩
    · rw [hsync, grantCovers_sync]
    · rw [hfree, hgrant, carries_append]
      exact ⟨fun ⟨hc, hs⟩ => ⟨hc.elim id fun hw => h.wide_free hw hs, hs⟩, fun ⟨hc, hs⟩ => ⟨.inl hc, hs⟩⟩
    · rw [hget, hsget, carries_append (l := getAbilities ++ wideAbilities)]
      exact ⟨fun hc => hc.elim id h.short_get, .inl⟩
    · rw [hsync, hssync, carries_append]
      exact ⟨fun hc => hc.elim id h.short_sync, .inl⟩
    · rw [hfree, hsboth]
      exact ⟨fun ⟨hg, hs⟩ => h.short_free hg hs,
        fun ⟨hg, hs⟩ => ⟨carries_append.mpr (.inl hg), carries_append.mpr (.inl hs)⟩⟩

end Result

section Samples

def wildcardAttenuation : Attenuation Empty where
  resources := [(js "default/kv/notes/", [(js "*", ⟨.arr [], .arr (by simp)⟩), (KV_SYNC, ⟨.arr [], .arr (by simp)⟩)])]
  abilities_nodup := by decide

/-- An attenuation that grants `*` covers `get` for the Node adapter and not for the replica. -/
theorem wildcard_disagrees :
    letI := noNumbers
    ucanAttCovers some wildcardAttenuation (js "default") (js "notes/") KV_GET true = true ∧
      grantCovers wildcardAttenuation (js "default") (js "notes/") KV_GET = false ∧
      ucanAttUnconstrainedFor some wildcardAttenuation (js "default") (js "notes/") = true ∧
      grantUnconstrained wildcardAttenuation (js "default") (js "notes/") = false := by
  decide

end Samples

end TinyCloud.Capability
