import TinyCloud.Feed.Runs
import TinyCloud.Feed.Tables
import TinyCloud.Runs.Fallible

/-!
# What the records of a restore and the metadata of a response say

The groups of a restore carry all that its records say. The metadata of a response permits a delivery exactly where
each of its origins has policies of the recipient and all of these agree.
-/

namespace TinyCloud.Feed

open TinyCloud.Runs

section Grouping

variable {J : Type} {record : FeedRestoreResponse J}

/-- The group carries what the record says. -/
structure Covers (record : FeedRestoreResponse J) (group : RestoreGroup J) : Prop where
  content : group.content = ⟨record.response, record.payload⟩
  evidence : ∃ e ∈ group.origins, e.origin = record.origin ∧ ∀ p ∈ record.deliveries, p ∈ e.policies

/-- The policies of an origin are about it and name a recipient. -/
def Exact (source : FeedRestoreOrigin) (policies : List FeedRestoreDeliveryPolicy) : Prop :=
  ∀ p ∈ policies, p.source = source ∧ p.recipient ≠ "*"

lemma addPolicy_ok {source : FeedRestoreOrigin} {policies policies' : List FeedRestoreDeliveryPolicy}
    {p : FeedRestoreDeliveryPolicy} (h : addPolicy source policies p = .ok policies') :
    p ∈ policies' ∧ policies ⊆ policies' ∧ (Exact source policies → Exact source policies') := by
  unfold addPolicy at h
  split_ifs at h with hbad hmem
  · rw [← Except.ok.inj h]
    exact ⟨hmem, List.Subset.refl _, fun he => he⟩
  · rw [← Except.ok.inj h]
    rw [not_or, not_not] at hbad
    have hp : p.source = source ∧ p.recipient ≠ "*" := hbad.symm
    refine ⟨List.mem_append_right _ List.mem_cons_self, List.subset_append_left _ _, fun he q hq => ?_⟩
    rcases List.mem_append.mp hq with hq | hq
    · exact he q hq
    · rw [List.mem_singleton.mp hq]
      exact hp

lemma addPolicies_ok {source : FeedRestoreOrigin} {deliveries policies policies' : List FeedRestoreDeliveryPolicy}
    (h : deliveries.foldlM (addPolicy source) policies = .ok policies') :
    deliveries ⊆ policies' ∧ policies ⊆ policies' ∧ (Exact source policies → Exact source policies') := by
  refine ⟨?_, ?_, ?_⟩
  · have hmem : ∀ p ∈ deliveries, p ∈ policies' := foldlM_reaches (fun _ _ _ he => (addPolicy_ok he).1)
      (fun _ _ _ _ hk he => (addPolicy_ok he).2.1 hk) h
    exact hmem
  · have hstep : ∀ l, ∀ p ∈ deliveries, ∀ l', policies ⊆ l → addPolicy source l p = .ok l' → policies ⊆ l' :=
      fun _ _ _ _ hi he => List.Subset.trans hi (addPolicy_ok he).2.1
    exact foldlM_keeps hstep (List.Subset.refl _) h
  · exact fun he => foldlM_keeps (fun _ _ _ _ hi he => (addPolicy_ok he).2.2 hi) he h

lemma addEvidence_ok {origins origins' : List RestoreOriginEvidence} (h : addEvidence record origins = .ok origins') :
    (∃ e ∈ origins', e.origin = record.origin ∧ record.deliveries ⊆ e.policies) ∧
    (∀ e ∈ origins, ∃ e' ∈ origins', e'.origin = e.origin ∧ e.policies ⊆ e'.policies) ∧
    ((∀ e ∈ origins, Exact e.origin e.policies) → ∀ e ∈ origins', Exact e.origin e.policies) := by
  induction origins generalizing origins' with
  | nil =>
    obtain ⟨policies, hpolicies, hend⟩ := bind_eq_ok h
    cases hend
    obtain ⟨hall, -, hexact⟩ := addPolicies_ok hpolicies
    exact ⟨⟨_, List.mem_singleton_self _, rfl, hall⟩, nofun, fun _ => List.forall_mem_singleton.mpr (hexact nofun)⟩
  | cons e rest ih =>
    rw [addEvidence] at h
    split_ifs at h with he
    · obtain ⟨policies, hpolicies, hend⟩ := bind_eq_ok h
      cases hend
      obtain ⟨hall, hsub, hexact⟩ := addPolicies_ok hpolicies
      refine ⟨⟨_, List.mem_cons_self, he, hall⟩, ?_, fun hx => ?_⟩
      · refine List.forall_mem_cons.mpr ⟨⟨_, List.mem_cons_self, rfl, hsub⟩, fun e' he' => ?_⟩
        exact ⟨e', List.mem_cons_of_mem _ he', rfl, List.Subset.refl _⟩
      · obtain ⟨hfirst, hrest⟩ := List.forall_mem_cons.mp hx
        refine List.forall_mem_cons.mpr ⟨?_, hrest⟩
        rw [← he] at hexact
        exact hexact hfirst
    · obtain ⟨rest', hrest, hend⟩ := bind_eq_ok h
      cases hend
      obtain ⟨⟨e', he', hfrom⟩, hkeep, hexact⟩ := ih hrest
      refine ⟨⟨e', List.mem_cons_of_mem _ he', hfrom⟩, ?_, fun hx => ?_⟩
      · refine List.forall_mem_cons.mpr ⟨⟨e, List.mem_cons_self, rfl, List.Subset.refl _⟩, fun a ha => ?_⟩
        obtain ⟨b, hb, hab⟩ := hkeep a ha
        exact ⟨b, List.mem_cons_of_mem _ hb, hab⟩
      · obtain ⟨hfirst, hothers⟩ := List.forall_mem_cons.mp hx
        exact List.forall_mem_cons.mpr ⟨hfirst, hexact hothers⟩

lemma groupOk_of_evidence {content : RestoreContent J} {origins : List RestoreOriginEvidence}
    (hsome : ∃ e ∈ origins, e.origin = record.origin ∧ record.deliveries ⊆ e.policies)
    (hexact : ∀ e ∈ origins, Exact e.origin e.policies) : GroupOk (⟨content, origins⟩ : RestoreGroup J) := by
  obtain ⟨e, he, -⟩ := hsome
  exact ⟨List.ne_nil_of_mem he, hexact⟩

variable [DecidableEq J]

/-- A group is kept under its content, with more evidence. -/
lemma addRecord_ok {groups groups' : List (RestoreGroup J)} (h : addRecord record groups = .ok groups') :
    (∃ group ∈ groups', Covers record group) ∧
    (∀ other, (∃ group ∈ groups, Covers other group) → ∃ group ∈ groups', Covers other group) ∧
    ((∀ group ∈ groups, GroupOk group) → ∀ group ∈ groups', GroupOk group) ∧
    ∀ group ∈ groups', group.content = ⟨record.response, record.payload⟩ ∨
      ∃ old ∈ groups, old.content = group.content := by
  induction groups generalizing groups' with
  | nil =>
    obtain ⟨origins, horigins, hend⟩ := bind_eq_ok h
    cases hend
    obtain ⟨hsome, -, hexact⟩ := addEvidence_ok horigins
    refine ⟨⟨_, List.mem_singleton_self _, rfl, hsome⟩, fun _ hother => ?_, fun _ => ?_, ?_⟩
    · obtain ⟨group, hgroup, -⟩ := hother
      cases hgroup
    · exact List.forall_mem_singleton.mpr (groupOk_of_evidence hsome (hexact nofun))
    · exact List.forall_mem_singleton.mpr (.inl rfl)
  | cons group rest ih =>
    rw [addRecord] at h
    split_ifs at h with hid hcontent hbinding
    · obtain ⟨origins, horigins, hend⟩ := bind_eq_ok h
      cases hend
      obtain ⟨hsome, hkeep, hexact⟩ := addEvidence_ok horigins
      have hsame := not_not.mp hcontent
      refine ⟨⟨_, List.mem_cons_self, hsame, hsome⟩, ?_, fun hok => ?_, ?_⟩
      · rintro other ⟨old, hold, hcovers⟩
        rcases List.mem_cons.mp hold with rfl | hold
        · obtain ⟨e, he, hfrom, hall⟩ := hcovers.evidence
          obtain ⟨e', he', horigin, hsub⟩ := hkeep e he
          exact ⟨_, List.mem_cons_self, hcovers.content, e', he', horigin.trans hfrom, fun p hp => hsub (hall p hp)⟩
        · exact ⟨old, List.mem_cons_of_mem _ hold, hcovers⟩
      · obtain ⟨hfirst, hrest⟩ := List.forall_mem_cons.mp hok
        exact List.forall_mem_cons.mpr ⟨groupOk_of_evidence hsome (hexact hfirst.policies), hrest⟩
      · refine List.forall_mem_cons.mpr ⟨.inl hsame, fun old hold => .inr ⟨old, List.mem_cons_of_mem _ hold, rfl⟩⟩
    · obtain ⟨rest', hrest, hend⟩ := bind_eq_ok h
      cases hend
      obtain ⟨⟨new, hnew, hcovers⟩, hkeep, hok, hfrom⟩ := ih hrest
      refine ⟨⟨new, List.mem_cons_of_mem _ hnew, hcovers⟩, ?_, fun hall => ?_, ?_⟩
      · rintro other ⟨old, hold, hother⟩
        rcases List.mem_cons.mp hold with rfl | hold
        · exact ⟨old, List.mem_cons_self, hother⟩
        · obtain ⟨g, hg, hcov⟩ := hkeep other ⟨old, hold, hother⟩
          exact ⟨g, List.mem_cons_of_mem _ hg, hcov⟩
      · obtain ⟨hfirst, hothers⟩ := List.forall_mem_cons.mp hall
        exact List.forall_mem_cons.mpr ⟨hfirst, hok hothers⟩
      · refine List.forall_mem_cons.mpr ⟨.inr ⟨group, List.mem_cons_self, rfl⟩, fun g hg => ?_⟩
        rcases hfrom g hg with hg | ⟨old, hold, he⟩
        · exact .inl hg
        · exact .inr ⟨old, List.mem_cons_of_mem _ hold, he⟩

/-- Every record is in a group, and no group has anything else than the records. -/
lemma groupRecords_ok {T : Timestamps} {records : List (FeedRestoreResponse J)} {groups : List (RestoreGroup J)}
    (h : groupRecords T records = .ok groups) :
    (∀ record ∈ records, ∃ group ∈ groups, Covers record group) ∧
    ∀ group ∈ groups, GroupOk group ∧ group.content.response.parses = true := by
  unfold groupRecords at h
  split_ifs at h with hparses
  refine ⟨?_, ?_⟩
  · exact foldlM_reaches (K := fun record groups => ∃ group ∈ groups, Covers record group)
      (fun _ _ _ he => (addRecord_ok he).1) (fun _ _ _ record hk he => (addRecord_ok he).2.1 record hk) h
  · have hok : ∀ group ∈ groups, GroupOk group :=
      foldlM_keeps (fun _ _ _ _ hi he => (addRecord_ok he).2.2.1 hi) (List.forall_mem_nil _) h
    have hstep : ∀ old, ∀ record ∈ records, ∀ new : List (RestoreGroup J),
        (∀ group ∈ old, ∃ record ∈ records, group.content = ⟨record.response, record.payload⟩) →
        addRecord record old = .ok new →
        ∀ group ∈ new, ∃ record ∈ records, group.content = ⟨record.response, record.payload⟩ := by
      intro old record hmem new hi he group hgroup
      rcases (addRecord_ok he).2.2.2 group hgroup with hnew | ⟨g, hg, hsame⟩
      · exact ⟨record, hmem, hnew⟩
      · obtain ⟨r, hr, hc⟩ := hi g hg
        exact ⟨r, hr, hsame.symm.trans hc⟩
    have hfrom := foldlM_keeps hstep (List.forall_mem_nil _) h
    refine fun group hgroup => ⟨hok group hgroup, ?_⟩
    obtain ⟨record, hrecord, hcontent⟩ := hfrom group hgroup
    have hvalid := List.all_eq_true.mp hparses record hrecord
    simp only [FeedRestoreResponse.parses, Bool.and_eq_true] at hvalid
    rw [hcontent]
    exact hvalid.1.1.1

end Grouping

section Metadata

variable {J : Type} {db : FeedTables J} {id recipient : String} {T : Timestamps} {now : ℤ} {cutoff : Option String}

lemma metadataOf_origins {o : FeedRestoreOrigin} : o ∈ (metadataOf db id).origins ↔ (id, o) ∈ db.origins := by
  simp only [metadataOf, List.mem_map, List.mem_filter, decide_eq_true_eq]
  constructor
  · rintro ⟨⟨id', o'⟩, ⟨hmem, rfl⟩, rfl⟩
    exact hmem
  · exact fun h => ⟨(id, o), ⟨h, rfl⟩, rfl⟩

lemma metadataOf_policies {p : FeedRestoreDeliveryPolicy} :
    p ∈ (metadataOf db id).policies ↔ (id, p) ∈ db.policies := by
  simp only [metadataOf, List.mem_map, List.mem_filter, decide_eq_true_eq]
  constructor
  · rintro ⟨⟨id', p'⟩, ⟨hmem, rfl⟩, rfl⟩
    exact hmem
  · exact fun h => ⟨(id, p), ⟨h, rfl⟩, rfl⟩

lemma metadataOf_marker {m : ImportMarker} (h : (metadataOf db id).marker = some m) : (id, m) ∈ db.imports := by
  obtain ⟨row, hrow, rfl⟩ := Option.map_eq_some_iff.mp h
  have hid : row.1 = id := by simpa using List.find?_some hrow
  rw [← hid]
  exact List.mem_of_find?_eq_some hrow

lemma metadataOf_no_marker (h : (metadataOf db id).marker = none) (m : ImportMarker) : (id, m) ∉ db.imports := by
  intro hm
  have hnone := List.find?_eq_none.mp (Option.map_eq_none_iff.mp h) _ hm
  exact hnone (by simp)

lemma verified_restored {m : RestoreMetadata} {identity : FeedCardIdentity} {hash : Option String}
    (h : verifyRestoreMetadata m identity hash = some true) : ∃ marker, m.marker = some marker ∧
      marker.identity = identity ∧ hash.all (marker.contentSha256 = ·) = true := by
  unfold verifyRestoreMetadata at h
  split at h
  · split_ifs at h
    cases h
  · rename_i marker hmarker
    split_ifs at h with hall
    exact ⟨marker, hmarker, hall.1, hall.2.1⟩

lemma verified_live {m : RestoreMetadata} {identity : FeedCardIdentity} {hash : Option String}
    (h : verifyRestoreMetadata m identity hash = some false) : m.marker = none := by
  unfold verifyRestoreMetadata at h
  split at h
  · assumption
  · split_ifs at h
    cases h

/-- At the time `now` every origin of the response has policies of the recipient, and all of these permit the delivery
up to the same cutoff. -/
structure Permits (T : Timestamps) (db : FeedTables J) (id recipient : String) (now : ℤ) (cutoff : Option String) :
    Prop where
  origin : ∃ o, (id, o) ∈ db.origins
  each : ∀ o, (id, o) ∈ db.origins → ∃ p, (id, p) ∈ db.policies ∧ p.recipient = recipient ∧ p.source = o
  agree : ∀ p, (id, p) ∈ db.policies → p.recipient = recipient → (id, p.source) ∈ db.origins →
    p.state = .pending ∧ p.dispatch = .resolvedPending ∧ p.resolvedOwnerMapping = true ∧ p.dispatchBefore = cutoff
  time : ∀ t, cutoff = some t → now < T.parse t

lemma mem_evidenceFor {p : FeedRestoreDeliveryPolicy} {o : FeedRestoreOrigin} :
    p ∈ evidenceFor (metadataOf db id) recipient o ↔
      (id, p) ∈ db.policies ∧ p.recipient = recipient ∧ p.source = o := by
  simp only [evidenceFor, List.mem_filter, metadataOf_policies, decide_eq_true_eq]

lemma mem_judged {p : FeedRestoreDeliveryPolicy} :
    p ∈ (metadataOf db id).origins.flatMap (evidenceFor (metadataOf db id) recipient) ↔
      (id, p) ∈ db.policies ∧ p.recipient = recipient ∧ (id, p.source) ∈ db.origins := by
  simp only [List.mem_flatMap, metadataOf_origins, mem_evidenceFor]
  constructor
  · rintro ⟨o, ho, hp, hrecipient, rfl⟩
    exact ⟨hp, hrecipient, ho⟩
  · rintro ⟨hp, hrecipient, ho⟩
    exact ⟨_, ho, hp, hrecipient, rfl⟩

lemma permittedDeadline_iff :
    permittedDeadline T (metadataOf db id) recipient now = some cutoff ↔ Permits T db id recipient now cutoff := by
  unfold permittedDeadline
  split_ifs with hempty
  · -- an origin without a policy of the recipient
    simp only [List.any_eq_true, List.isEmpty_iff, metadataOf_origins] at hempty
    obtain ⟨o, ho, hnone⟩ := hempty
    refine ⟨nofun, fun h => ?_⟩
    obtain ⟨p, hp, hrecipient, hsource⟩ := h.each o ho
    have hmem := mem_evidenceFor.mpr ⟨hp, hrecipient, hsource⟩
    rw [hnone] at hmem
    cases hmem
  · have heach : ∀ o, (id, o) ∈ db.origins → ∃ p, (id, p) ∈ db.policies ∧ p.recipient = recipient ∧ p.source = o := by
      intro o ho
      simp only [List.any_eq_true, not_exists, not_and, List.isEmpty_iff, metadataOf_origins] at hempty
      obtain ⟨p, hp⟩ := List.exists_mem_of_ne_nil _ (hempty o ho)
      exact ⟨p, mem_evidenceFor.mp hp⟩
    have hmem := fun p => @mem_judged J db id recipient p
    dsimp only
    split
    · rename_i hrows
      refine ⟨nofun, fun h => ?_⟩
      obtain ⟨o, ho⟩ := h.origin
      obtain ⟨p, hp, hrecipient, rfl⟩ := h.each o ho
      have := (hmem p).mpr ⟨hp, hrecipient, ho⟩
      rw [hrows] at this
      cases this
    · rename_i first rest hrows
      have hfirst := (hmem first).mp (hrows ▸ List.mem_cons_self)
      split_ifs with hall
      · simp only [List.all_eq_true, decide_eq_true_eq] at hall
        constructor
        · intro h
          cases h
          refine ⟨⟨_, hfirst.2.2⟩, heach, fun p hp hrecipient ho => ?_, fun t ht => ?_⟩
          · obtain ⟨hstate, hdispatch, howner, hcutoff, -⟩ := hall p ((hmem p).mpr ⟨hp, hrecipient, ho⟩)
            exact ⟨hstate, hdispatch, howner, hcutoff⟩
          · obtain ⟨-, -, -, -, htime⟩ := hall first ((hmem first).mpr hfirst)
            rw [ht] at htime
            simpa using htime
        · intro h
          rw [(h.agree first hfirst.1 hfirst.2.1 hfirst.2.2).2.2.2]
      · refine ⟨nofun, fun h => absurd ?_ hall⟩
        obtain ⟨-, -, -, hcutoff⟩ := h.agree first hfirst.1 hfirst.2.1 hfirst.2.2
        simp only [List.all_eq_true, decide_eq_true_eq]
        intro p hp
        obtain ⟨hpolicy, hrecipient, ho⟩ := (hmem p).mp hp
        obtain ⟨hstate, hdispatch, howner, hbefore⟩ := h.agree p hpolicy hrecipient ho
        refine ⟨hstate, hdispatch, howner, hbefore.trans hcutoff.symm, ?_⟩
        rw [hbefore, Option.all_eq_true]
        exact fun t ht => decide_eq_true (h.time t ht)

end Metadata

section Pages

variable {β : Type} {first rest : List (ℕ × β)} {after : ℕ}

/-- Of rows in order, those behind a first part come after its last one. -/
lemma last_lt (hs : (first ++ rest).Pairwise fun a b => a.1 < b.1) (hafter : ∀ row ∈ first ++ rest, after < row.1)
    {row : ℕ × β} (hrow : row ∈ rest) : (first.map Prod.fst).getLastD after < row.1 := by
  rcases List.eq_nil_or_concat' first with rfl | ⟨start, last, rfl⟩
  · exact hafter row hrow
  · obtain ⟨-, -, hcross⟩ := List.pairwise_append.mp hs
    have hlast := hcross last (List.mem_append_right _ List.mem_cons_self) row hrow
    simpa using hlast

lemma le_last (hs : first.Pairwise fun a b => a.1 < b.1) {row : ℕ × β} (hrow : row ∈ first) :
    row.1 ≤ (first.map Prod.fst).getLastD after := by
  rcases List.eq_nil_or_concat' first with rfl | ⟨start, last, rfl⟩
  · cases hrow
  · obtain ⟨-, -, hcross⟩ := List.pairwise_append.mp hs
    have hle : row.1 ≤ last.1 := by
      rcases List.mem_append.mp hrow with hrow | hrow
      · exact (hcross row hrow last List.mem_cons_self).le
      · rw [List.mem_singleton.mp hrow]
    simpa using hle

/-- Of rows in order, a first part holds exactly those up to its last one. -/
lemma filter_le_last (hs : (first ++ rest).Pairwise fun a b => a.1 < b.1)
    (hafter : ∀ row ∈ first ++ rest, after < row.1) :
    (first ++ rest).filter (fun row => row.1 ≤ (first.map Prod.fst).getLastD after) = first := by
  rw [List.filter_append, List.filter_eq_self.mpr, List.filter_eq_nil_iff.mpr, List.append_nil]
  · intro row hrow
    have := last_lt hs hafter hrow
    simpa using this
  · exact fun row hrow => decide_eq_true (le_last (List.pairwise_append.mp hs).1 hrow)

/-- The rows of a page are those of any later time up to the last of them. -/
lemma page_rows {J : Type} {db db' : FeedTables J} (hg : Grows db db') (hok : ResponsesOk db') (limit : ℕ) :
    db'.responses.filter (fun row => after < row.1 ∧ row.1 ≤ ((((db.responses.filter fun row =>
      decide (after < row.1)).take limit).map Prod.fst).getLastD after)) =
      (db.responses.filter fun row => decide (after < row.1)).take limit := by
  obtain ⟨later, hlater⟩ := hg.responses
  set first := (db.responses.filter fun row => decide (after < row.1)).take limit with hfirst
  have hsplit : db'.responses.filter (fun row => decide (after < row.1)) =
      first ++ ((db.responses.filter fun row => decide (after < row.1)).drop limit ++
        later.filter fun row => decide (after < row.1)) := by
    rw [← List.append_assoc, hfirst, List.take_append_drop, ← List.filter_append, hlater]
  have hsorted := hok.sequences.filter (fun row => decide (after < row.1))
  have hafter : ∀ row ∈ db'.responses.filter (fun row => decide (after < row.1)), after < row.1 :=
    fun row hrow => of_decide_eq_true (List.mem_filter.mp hrow).2
  rw [hsplit] at hsorted hafter
  have hpage := filter_le_last hsorted hafter
  rw [← hsplit, List.filter_filter] at hpage
  refine (List.filter_congr fun row _ => ?_).trans hpage
  rw [← Bool.decide_and]
  exact decide_eq_decide.mpr and_comm

/-- A row behind those of a page. -/
lemma page_more {J : Type} {db : FeedTables J} (hok : ResponsesOk db) {limit : ℕ}
    (h : limit < (db.selectPage after (limit + 1)).length) : ∃ row ∈ db.responses,
      (((db.responses.filter fun row => decide (after < row.1)).take limit).map Prod.fst).getLastD after < row.1 := by
  set found := db.responses.filter fun row => decide (after < row.1) with hfound
  have hlen : limit < found.length := by
    rw [FeedTables.selectPage, List.length_map, List.length_take, ← hfound] at h
    omega
  obtain ⟨row, hrow⟩ := List.exists_mem_of_ne_nil (found.drop limit) (by simpa using hlen)
  have hsorted := hok.sequences.filter (fun row => decide (after < row.1))
  have hafter : ∀ row ∈ found, after < row.1 := fun row hrow => of_decide_eq_true (List.mem_filter.mp hrow).2
  rw [← hfound, ← List.take_append_drop limit found] at hsorted
  rw [← List.take_append_drop limit found] at hafter
  exact ⟨row, List.mem_of_mem_filter (List.mem_of_mem_drop hrow), last_lt hsorted hafter hrow⟩

end Pages

end TinyCloud.Feed
