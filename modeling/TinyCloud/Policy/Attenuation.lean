import TinyCloud.Policy.Compact

/-!
# Containment of attenuations

`compactAttenuationContains` and what it says of each resource and action: containment composes.
-/

namespace TinyCloud.Policy

open TinyCloud.Text TinyCloud.Runs

section Checks

variable {ε α : Type} {p : α → Except ε Bool}

lemma allM_eq_ok {l : List α} : l.allM p = .ok true ↔ ∀ a ∈ l, p a = .ok true := by
  induction l with
  | nil => simp [List.allM, pure, Except.pure]
  | cons a l ih =>
    rw [List.allM, List.forall_mem_cons, ← ih]
    cases h : p a with
    | error e => simp [bind, Except.bind]
    | ok b => cases b <;> simp [bind, Except.bind, pure, Except.pure]

lemma exists_of_anyM {l : List α} (h : l.anyM p = .ok true) : ∃ a ∈ l, p a = .ok true := by
  induction l with
  | nil => cases h
  | cons a l ih =>
    rw [List.anyM] at h
    obtain ⟨b, hb, h⟩ := bind_eq_ok h
    cases b with
    | true => exact ⟨a, by simp, hb⟩
    | false =>
      obtain ⟨c, hc, hp⟩ := ih h
      exact ⟨c, by simp [hc], hp⟩

/-- No element before the first that passes may throw. -/
lemma anyM_of_split {l r : List α} {a : α} (ha : p a = .ok true) (hl : ∀ b ∈ l, ∃ v, p b = .ok v) :
    (l ++ a :: r).anyM p = .ok true := by
  induction l with
  | nil =>
    rw [List.nil_append, List.anyM, ha]
    rfl
  | cons b l ih =>
    obtain ⟨v, hv⟩ := hl b (by simp)
    rw [List.cons_append, List.anyM, hv]
    cases v with
    | true => rfl
    | false => exact ih fun c hc => hl c (by simp [hc])

end Checks

lemma unitsLe_append (a b : JsString) : UnitsLe a (a ++ b) := by
  induction a with
  | nil => cases b <;> simp [UnitsLe, compareUtf16CodeUnits]
  | cons u a ih => exact unitsLe_cons.mpr (.inr ⟨rfl, ih⟩)

section Contains

variable [NumberFormat Double]

inductive SelectorKind where
  | exactly
  | below
  deriving DecidableEq

structure Selector where
  kind : SelectorKind
  value : JsString

def selectorKind (s : JsString) : Option SelectorKind :=
  if s = js "exact" then some .exactly else if s = js "prefix" then some .below else none

def selectorMembers (caveat : List (JsString × Json Double)) : Option Selector :=
  match caveat.lookup (js "type"), caveat.lookup (js "kind"), caveat.lookup (js "value") with
  | some (.str t), some (.str k), some (.str v) =>
    if t = js "xyz.tinycloud.resource/selector" then (selectorKind k).map fun kind => ⟨kind, v⟩
    else none
  | _, _, _ => none

def selector : List (Json Double) → Option Selector
  | [.obj caveat] => if caveat.length = 3 then selectorMembers caveat else none
  | _ => none

/-- Properties that every object of the runtime inherits. -/
def inheritedNames : List String :=
  ["__defineGetter__", "__defineSetter__", "__lookupGetter__", "__lookupSetter__", "__proto__",
    "constructor", "hasOwnProperty", "isPrototypeOf", "propertyIsEnumerable", "toLocaleString",
    "toString", "valueOf"]

def equalCaveats (left right : List (Json Double)) : Except String Bool := do
  let l ← jcsCanonicalize (.arr left)
  let r ← jcsCanonicalize (.arr right)
  pure (l == r)

/-- `parentResource === childResource && equal(parentCaveats, childCaveats)` -/
def sameGrant (parentResource : JsString) (parentCaveats : List (Json Double))
    (childResource : JsString) (childCaveats : List (Json Double)) : Except String Bool :=
  if parentResource = childResource then equalCaveats parentCaveats childCaveats else .ok false

/-- A prefix selector of the parent reaches the selector of the child. -/
def prefixReaches (parentResource : JsString) (parentCaveats : List (Json Double))
    (childResource : JsString) (childCaveats : List (Json Double)) : Bool :=
  match selector parentCaveats, selector childCaveats with
  | some parentSelector, some childSelector =>
    parentSelector.kind = .below && parentSelector.value == parentResource &&
      childSelector.value == childResource &&
      (childResource == parentResource || (parentResource ++ [47]).isPrefixOf childResource)
  | _, _ => false

def parentGrants (childResource action : JsString) (childCaveats : List (Json Double))
    (parent : JsString × List (JsString × List (Json Double))) : Except String Bool :=
  match parent.2.lookup action with
  | none =>
    -- an inherited property is found instead: it has no canonical text and no selector
    if (inheritedNames.map js).contains action && parent.1 == childResource then
      .error "SignedObjectCanonicalizationError"
    else .ok false
  | some parentCaveats => do
    let same ← sameGrant parent.1 parentCaveats childResource childCaveats
    pure (same || prefixReaches parent.1 parentCaveats childResource childCaveats)

def compactAttenuationContains (parent child : Attenuation) : Except String Bool :=
  child.allM fun resource => resource.2.allM fun action =>
    parent.anyM (parentGrants resource.1 action.1 action.2)

/-- One grant of the parent carries one grant of the child. -/
def Covers (parentResource : JsString) (parentCaveats : List (Json Double)) (childResource : JsString)
    (childCaveats : List (Json Double)) : Prop :=
  (parentResource = childResource ∧
      (Json.arr parentCaveats).serialize = (Json.arr childCaveats).serialize) ∨
    prefixReaches parentResource parentCaveats childResource childCaveats = true

def Grants (parent : Attenuation) (resource action : JsString) (caveats : List (Json Double)) : Prop :=
  ∃ g ∈ parent, ∃ parentCaveats, g.2.lookup action = some parentCaveats ∧
    Covers g.1 parentCaveats resource caveats

/-- Every grant of the child is carried by one of the parent. -/
def Within (parent child : Attenuation) : Prop :=
  ∀ resource ∈ child, ∀ action ∈ resource.2, Grants parent resource.1 action.1 action.2

lemma equalCaveats_eq_ok {left right : List (Json Double)} {b : Bool}
    (h : equalCaveats left right = .ok b) :
    b = ((Json.arr left).serialize == (Json.arr right).serialize) := by
  obtain ⟨l, hl, h⟩ := bind_eq_ok h
  obtain ⟨r, hr, h⟩ := bind_eq_ok h
  unfold jcsCanonicalize at hl hr
  split_ifs at hl hr
  cases hl
  cases hr
  cases h
  rfl

lemma equalCaveats_of_normal {left right : List (Json Double)} (hl : jcsNormal (.arr left) = true)
    (hr : jcsNormal (.arr right) = true) :
    equalCaveats left right = .ok ((Json.arr left).serialize == (Json.arr right).serialize) := by
  rw [equalCaveats, jcsCanonicalize, if_pos hl, jcsCanonicalize, if_pos hr]
  rfl

lemma covers_of_grants {resource action : JsString} {caveats : List (Json Double)}
    {g : JsString × List (JsString × List (Json Double))}
    (h : parentGrants resource action caveats g = .ok true) :
    ∃ parentCaveats, g.2.lookup action = some parentCaveats ∧
      Covers g.1 parentCaveats resource caveats := by
  unfold parentGrants at h
  split at h
  · split_ifs at h
    cases h
  next parentCaveats hp =>
    refine ⟨parentCaveats, hp, ?_⟩
    obtain ⟨same, hs, h⟩ := bind_eq_ok h
    simp only [pure, Except.pure, Except.ok.injEq, Bool.or_eq_true] at h
    rcases h with rfl | h
    · unfold sameGrant at hs
      split_ifs at hs with hr
      · exact .inl ⟨hr, beq_iff_eq.mp (equalCaveats_eq_ok hs).symm⟩
      · cases hs
    · exact .inr h

lemma within_of_contains {parent child : Attenuation}
    (h : compactAttenuationContains parent child = .ok true) : Within parent child := by
  intro resource hr action ha
  have h1 := allM_eq_ok.mp (allM_eq_ok.mp h resource hr) action ha
  obtain ⟨g, hg, hp⟩ := exists_of_anyM h1
  obtain ⟨parentCaveats, hl, hc⟩ := covers_of_grants hp
  exact ⟨g, hg, parentCaveats, hl, hc⟩

/-- Sorted resources, each once, with caveats that have canonical text. -/
structure WellFormed (att : Attenuation) : Prop where
  sorted : att.Pairwise KeyLe
  nodup : (att.map Prod.fst).Nodup
  normal : ∀ resource ∈ att, ∀ action ∈ resource.2, jcsNormal (.arr action.2) = true
  proper : ∀ resource ∈ att, ∀ action ∈ resource.2, (Json.arr action.2).Proper

lemma parentGrants_of_covers {resource action : JsString} {caveats parentCaveats : List (Json Double)}
    {g : JsString × List (JsString × List (Json Double))} (hl : g.2.lookup action = some parentCaveats)
    (hp : jcsNormal (.arr parentCaveats) = true) (hn : jcsNormal (.arr caveats) = true)
    (hc : Covers g.1 parentCaveats resource caveats) :
    parentGrants resource action caveats g = .ok true := by
  unfold parentGrants
  rw [hl]
  by_cases hr : g.1 = resource
  · simp only [sameGrant, if_pos hr, equalCaveats_of_normal hp hn]
    rcases hc with hc | hc
    · simp [bind, Except.bind, pure, Except.pure, hc.2]
    · simp [bind, Except.bind, pure, Except.pure, hc]
  · simp only [sameGrant, if_neg hr]
    rcases hc with hc | hc
    · exact absurd hc.1 hr
    · simp [bind, Except.bind, pure, Except.pure, hc]

/-- Only the resource itself can throw. -/
lemma parentGrants_ne {resource action : JsString} {caveats : List (Json Double)}
    {g : JsString × List (JsString × List (Json Double))} (hr : g.1 ≠ resource) :
    ∃ v, parentGrants resource action caveats g = .ok v := by
  unfold parentGrants
  split
  · rw [beq_eq_false_iff_ne.mpr hr, Bool.and_false]
    exact ⟨false, rfl⟩
  · rw [sameGrant, if_neg hr]
    exact ⟨_, rfl⟩

/-- The resource of a covering grant sorts no later than the covered one. -/
lemma unitsLe_of_covers {parentResource childResource : JsString}
    {parentCaveats childCaveats : List (Json Double)}
    (h : Covers parentResource parentCaveats childResource childCaveats) :
    UnitsLe parentResource childResource := by
  rcases h with ⟨rfl, -⟩ | h
  · have := unitsLe_append parentResource []
    rwa [List.append_nil] at this
  · unfold prefixReaches at h
    split at h
    · simp only [Bool.and_eq_true, Bool.or_eq_true, beq_iff_eq] at h
      rcases h.2 with rfl | h
      · have := unitsLe_append childResource []
        rwa [List.append_nil] at this
      · obtain ⟨rest, rfl⟩ := List.isPrefixOf_iff_prefix.mp h
        rw [List.append_assoc]
        exact unitsLe_append _ _
    · cases h

lemma contains_of_within {parent child : Attenuation} (hp : WellFormed parent) (hc : WellFormed child)
    (h : Within parent child) : compactAttenuationContains parent child = .ok true := by
  refine allM_eq_ok.mpr fun resource hr => allM_eq_ok.mpr fun action ha => ?_
  obtain ⟨g, hg, parentCaveats, hl, hcov⟩ := h resource hr action ha
  have hgrant := parentGrants_of_covers hl (hp.normal g hg _ (mem_of_lookup hl))
    (hc.normal resource hr action ha) hcov
  obtain ⟨l, r, rfl⟩ := List.append_of_mem hg
  -- the grants before it have smaller resources than the covered one, so none of them throws
  refine anyM_of_split hgrant fun b hb => parentGrants_ne fun he => ?_
  have hle : UnitsLe b.1 g.1 :=
    (List.pairwise_append.mp hp.sorted).2.2 b hb g (by simp)
  have heq : g.1 = b.1 :=
    Std.Antisymm.antisymm (r := UnitsLe) g.1 b.1 (he ▸ unitsLe_of_covers hcov) hle
  have hn := hp.nodup
  rw [List.map_append, List.map_cons, List.nodup_append] at hn
  exact hn.2.2 b.1 (List.mem_map_of_mem hb) g.1 (by simp) heq.symm

omit [NumberFormat Double] in
lemma canonical_eq_str {v : Json Double} {s : JsString} : v.canonical = .str s ↔ v = .str s := by
  cases v with
  | null | bool | num | str => rfl
  | arr items => simp [canonical_arr]
  | obj members => simp [canonical_obj]

omit [NumberFormat Double] in
/-- The lookup of a canonical object finds the same strings. -/
lemma selectorMembers_eq {caveat caveat' : List (JsString × Json Double)}
    (h : ∀ k, (caveat.lookup k).map Json.canonical = (caveat'.lookup k).map Json.canonical) :
    selectorMembers caveat = selectorMembers caveat' := by
  have hstr : ∀ k s, caveat.lookup k = some (.str s) ↔ caveat'.lookup k = some (.str s) := by
    intro k s
    have := h k
    cases hc : caveat.lookup k <;> cases hc' : caveat'.lookup k <;> simp [hc, hc'] at this ⊢
    rw [← canonical_eq_str, this, canonical_eq_str]
  unfold selectorMembers
  split
  next t k v ht hk hv =>
    rw [(hstr _ _).mp ht, (hstr _ _).mp hk, (hstr _ _).mp hv]
  next hnone =>
    split
    next t k v ht hk hv =>
      exact absurd ((hstr _ _).mpr hv) (hnone t k v ((hstr _ _).mpr ht) ((hstr _ _).mpr hk))
    · rfl

omit [NumberFormat Double] in
lemma obj_of_canonical {v : Json Double} {members : List (JsString × Json Double)}
    (h : v.canonical = .obj members) : ∃ members', v = .obj members' := by
  cases v with
  | null | bool | num | str => cases h
  | arr items => simp [canonical_arr] at h
  | obj members' => exact ⟨members', rfl⟩

omit [NumberFormat Double] in
lemma selector_iff {value : List (Json Double)} {s : Selector} : selector value = some s ↔
    ∃ caveat, value = [.obj caveat] ∧ caveat.length = 3 ∧ selectorMembers caveat = some s := by
  constructor
  · intro h
    unfold selector at h
    split at h
    next caveat =>
      split_ifs at h with hlen
      exact ⟨caveat, rfl, hlen, h⟩
    · cases h
  · rintro ⟨caveat, rfl, hlen, h⟩
    rw [selector, if_pos hlen, h]

omit [NumberFormat Double] in
lemma keys_of_caveat {caveat : List (JsString × Json Double)} (h : (Json.arr [.obj caveat]).Proper) :
    (caveat.map Prod.fst).Nodup := by
  cases h with
  | arr hall =>
    have hobj := hall (.obj caveat) (by simp)
    cases hobj with
    | obj hnd _ => exact hnd

omit [NumberFormat Double] in
lemma selector_le_of_canonical {left right : List (Json Double)} (hl : (Json.arr left).Proper)
    (hr : (Json.arr right).Proper) (h : (Json.arr left).canonical = (Json.arr right).canonical)
    {s : Selector} (hs : selector left = some s) : selector right = some s := by
  obtain ⟨caveat, rfl, hlen, hm⟩ := selector_iff.mp hs
  rw [canonical_arr, canonical_arr, Json.arr.injEq, List.map_cons, List.map_nil] at h
  obtain ⟨w, rfl, hw⟩ := List.map_eq_singleton_iff.mp h.symm
  rw [canonical_obj] at hw
  obtain ⟨caveat', rfl⟩ := obj_of_canonical hw
  rw [canonical_obj, Json.obj.injEq] at hw
  refine selector_iff.mpr ⟨caveat', rfl, ?_, ?_⟩
  · have := congrArg List.length hw
    simp only [List.length_map, List.length_insertionSort] at this
    rw [this, hlen]
  · rw [← hm]
    refine selectorMembers_eq fun k => ?_
    rw [← lookup_canonical (keys_of_caveat hr), ← lookup_canonical (keys_of_caveat hl), hw]

omit [NumberFormat Double] in
lemma selector_of_canonical {left right : List (Json Double)} (hl : (Json.arr left).Proper)
    (hr : (Json.arr right).Proper) (h : (Json.arr left).canonical = (Json.arr right).canonical) :
    selector left = selector right := by
  refine Option.ext fun s => ?_
  exact ⟨selector_le_of_canonical hl hr h, selector_le_of_canonical hr hl h.symm⟩

/-- Covering looks at canonical text only. -/
lemma covers_congr {parentResource childResource : JsString}
    {parentCaveats childCaveats childCaveats' : List (Json Double)}
    (hp : (Json.arr childCaveats).Proper) (hp' : (Json.arr childCaveats').Proper)
    (he : (Json.arr childCaveats).serialize = (Json.arr childCaveats').serialize)
    (h : Covers parentResource parentCaveats childResource childCaveats) :
    Covers parentResource parentCaveats childResource childCaveats' := by
  rcases h with ⟨hr, hs⟩ | h
  · exact .inl ⟨hr, hs.trans he⟩
  · refine .inr ?_
    have := selector_of_canonical hp hp' ((serialize_eq_iff hp hp').mp he)
    unfold prefixReaches at h ⊢
    rwa [← this]

omit [NumberFormat Double] in
lemma prefixReaches_iff {parentResource childResource : JsString}
    {parentCaveats childCaveats : List (Json Double)} :
    prefixReaches parentResource parentCaveats childResource childCaveats = true ↔
      selector parentCaveats = some ⟨.below, parentResource⟩ ∧
        (∃ kind, selector childCaveats = some ⟨kind, childResource⟩) ∧
        (childResource = parentResource ∨ parentResource ++ [47] <+: childResource) := by
  unfold prefixReaches
  cases selector parentCaveats with
  | none => simp
  | some p =>
    cases selector childCaveats with
    | none => simp
    | some c =>
      obtain ⟨pk, pv⟩ := p
      obtain ⟨ck, cv⟩ := c
      simp [and_assoc]

omit [NumberFormat Double] in
lemma reach_trans {a b c : JsString} (hab : b = a ∨ a ++ [47] <+: b) (hbc : c = b ∨ b ++ [47] <+: c) :
    c = a ∨ a ++ [47] <+: c := by
  rcases hbc with rfl | hbc
  · exact hab
  · rcases hab with rfl | hab
    · exact .inr hbc
    · exact .inr ((hab.trans (List.prefix_append b [47])).trans hbc)

lemma covers_trans {grandResource parentResource childResource : JsString}
    {grandCaveats parentCaveats childCaveats : List (Json Double)}
    (hg : (Json.arr grandCaveats).Proper) (hp : (Json.arr parentCaveats).Proper)
    (hc : (Json.arr childCaveats).Proper)
    (h1 : Covers grandResource grandCaveats parentResource parentCaveats)
    (h2 : Covers parentResource parentCaveats childResource childCaveats) :
    Covers grandResource grandCaveats childResource childCaveats := by
  rcases h2 with ⟨rfl, hs⟩ | h2
  · exact covers_congr hp hc hs h1
  · rcases h1 with ⟨rfl, hs⟩ | h1
    · refine .inr ?_
      have := selector_of_canonical hg hp ((serialize_eq_iff hg hp).mp hs)
      rw [prefixReaches_iff] at h2 ⊢
      rwa [this]
    · rw [prefixReaches_iff] at h1 h2
      exact .inr (prefixReaches_iff.mpr ⟨h1.1, h2.2.1, reach_trans h1.2.2 h2.2.2⟩)

/-- Containment composes. -/
theorem within_trans {grand parent child : Attenuation} (hg : WellFormed grand) (hp : WellFormed parent)
    (hc : WellFormed child) (h1 : Within grand parent) (h2 : Within parent child) :
    Within grand child := by
  intro resource hr action ha
  obtain ⟨p, hpm, parentCaveats, hl, hcov⟩ := h2 resource hr action ha
  have hpl := mem_of_lookup hl
  obtain ⟨g, hgm, grandCaveats, hgl, hgcov⟩ := h1 p hpm _ hpl
  exact ⟨g, hgm, grandCaveats, hgl, covers_trans (hg.proper g hgm _ (mem_of_lookup hgl))
    (hp.proper p hpm _ hpl) (hc.proper resource hr action ha) hgcov hcov⟩

end Contains

end TinyCloud.Policy
