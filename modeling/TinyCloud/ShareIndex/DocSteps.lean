import TinyCloud.ShareIndex.Consistency

/-!
# One step of a change

What one op, one finding or one status can do to the rows and the tombstones of a document. Only a compaction
touches the archives.
-/

namespace TinyCloud.ShareIndex

open TinyCloud.Collections

variable {H : Host} {limits : Limits} {now : ℤ} {grow : Bool} {doc doc' base : Doc} {key k : String} {row row' : Row}

section Confirmed

/-- `a` is not later than `b`. -/
def notLater (H : Host) (a b : String) : Bool := a == b || earlier H a b

lemma earlier_trans {a b c : String} (h : earlier H a b = true) (h' : earlier H b c = true) : earlier H a c = true := by
  unfold earlier at *
  split at h
  · rename_i s t hs ht
    rw [ht] at h'
    rw [hs]
    split at h'
    · rename_i t' u ht' hu
      cases ht'
      rw [hu]
      simp only [decide_eq_true_eq] at *
      omega
    · cases h'
  · cases h

lemma notLater_trans {a b c : String} (h : notLater H a b = true) (h' : notLater H b c = true) :
    notLater H a c = true := by
  simp only [notLater, Bool.or_eq_true, beq_iff_eq] at *
  rcases h with rfl | h
  · exact h'
  · rcases h' with rfl | h'
    · exact .inr h
    · exact .inr (earlier_trans h h')

/-- The row shows a confirmed revocation that is not later than `at_`. -/
def confirms (H : Host) (at_ : String) (row : Row) : Bool :=
  row.r.any fun r => r.confirmed && notLater H r.at_ at_

lemma confirms_revoked {at_ : String} (h : confirms H at_ row = true) : row.revoked = true := by
  unfold confirms at h
  unfold Row.revoked
  obtain ⟨r, hr, h⟩ := (Option.any_eq_true _ _).mp h
  exact (Option.any_eq_true _ _).mpr ⟨r, hr, ((Bool.and_eq_true _ _).mp h).1⟩

/-- The row has another revocation, which confirms what the old one confirmed. -/
def Revises (H : Host) (row row' : Row) : Prop :=
  (∃ r, row' = { row with r := r }) ∧ ∀ at_, confirms H at_ row = true → confirms H at_ row' = true

lemma revokedRow_revises (at_ : String) (confirmed : Bool) (row : Row) : Revises H row (revokedRow H at_ confirmed row) := by
  unfold revokedRow
  cases hr : row.r with
  | none =>
    refine ⟨⟨_, rfl⟩, fun at_ h => ?_⟩
    rw [confirms, hr] at h
    cases h
  | some r =>
    refine ⟨⟨_, rfl⟩, fun since h => ?_⟩
    rw [confirms, hr, Option.any_some, Bool.and_eq_true] at h
    simp only [confirms, Option.any_some, Bool.and_eq_true]
    refine ⟨by rw [h.1]; rfl, ?_⟩
    split
    · rename_i hlt
      exact notLater_trans (by simp [notLater, hlt]) h.2
    · exact h.2

lemma revises_unconfirmed (h : row.revoked = false) (r : Option Revocation) : Revises H row { row with r := r } := by
  refine ⟨⟨r, rfl⟩, fun at_ hc => ?_⟩
  rw [confirms_revoked hc] at h
  cases h

end Confirmed

section Step

/-- What happens to rows and tombstones in one step. -/
inductive DocStep (H : Host) (now : ℤ) (doc doc' : Doc) : Prop
  | same (hr : ∀ k, doc'.rows.get? k = doc.rows.get? k) (ht : doc'.tombstones = doc.tombstones)
  | admit_ (key : String) (row : Row) (displaced : List String) (hnew : doc.rows.get? key = none)
      (hret : doc.isRetired key = false)
      (hd : ∀ k ∈ displaced, ∃ other, doc.rows.get? k = some other ∧ Rivals row other ∧ Outranks row other)
      (hr : ∀ k, doc'.rows.get? k = if k = key then some row else if k ∈ displaced then none else doc.rows.get? k)
      (ht : doc'.tombstones = doc.tombstones)
  | revise (key : String) (row row' : Row) (hrow : doc.rows.get? key = some row) (hrev : Revises H row row')
      (hr : ∀ k, doc'.rows.get? k = if k = key then some row' else doc.rows.get? k)
      (ht : doc'.tombstones = doc.tombstones)
  | delete (key : String) (row : Row) (hrow : doc.rows.get? key = some row)
      (hr : ∀ k, doc'.rows.get? k = if k = key then none else doc.rows.get? k)
      (ht : doc'.tombstones = doc.tombstones ++ [⟨key, H.toISOString now⟩])

lemma DocStep.refl (doc : Doc) : DocStep H now doc doc := .same (fun _ => rfl) rfl

lemma DocStep.of_neutral (h : doc.Neutral doc') : DocStep H now doc doc' :=
  .same (fun k => by rw [h.rows]) h.tombstones

lemma DocStep.setRow (hrow : doc.rows.get? key = some row) (hrev : Revises H row row') :
    DocStep H now doc (doc.setRow key row') :=
  .revise key row row' hrow hrev (fun k => Dict.get?_set doc.rows key row' k) rfl

lemma decideClaim_displaced {displaced : List String} (hd : decideClaim doc.rows key row = .admit_ displaced) :
    ∀ k ∈ displaced, ∃ other, doc.rows.get? k = some other ∧ Rivals row other ∧ Outranks row other := by
  intro k hk
  obtain ⟨other, ho, hne, hr⟩ := ((decideClaim_admitted hd).1 k).mp hk
  exact ⟨other, ho, hr, (decideClaim_admitted hd).2 k other ho hne hr⟩

lemma DocStep.admitRow {displaced : List String} (hnew : doc.rows.get? key = none) (hret : doc.isRetired key = false)
    (hd : decideClaim doc.rows key row = .admit_ displaced) :
    DocStep H now doc ((displaced.foldl (displace H limits now grow) doc).setRow key row) := by
  refine .admit_ key row displaced hnew hret (decideClaim_displaced hd) (fun k => ?_) ?_
  · rw [Doc.setRow, Dict.get?_set, displaceAll_rows]
  · exact (displaceAll_retired H limits now grow displaced doc).2

lemma applyOp_step (op : ShareIndexOp) : DocStep H now doc (applyOp H limits now grow doc op).1 := by
  unfold applyOp
  split
  · split
    · exact .refl doc
    · exact .of_neutral (modifyAgent_neutral _ _ (release_rows _))
  · split
    · exact .refl doc
    · rename_i hret
      split
      · exact .refl doc
      · rename_i hnew
        split
        · exact .refl doc
        · rename_i displaced hd
          exact .admitRow hnew (by simpa using hret) hd
  · split
    · exact .refl doc
    · rename_i row hrow
      exact .setRow hrow (revokedRow_revises _ _ row)
  · rename_i key _
    split
    · exact .refl doc
    · rename_i row hrow
      split
      · have hd := displaceForDelete_drops doc key row
        refine .delete key row hrow (fun k => ?_) ?_
        · change (displaceForDelete doc key row).rows.get? k = _
          rw [hd.frame, Dict.get?_delete]
        · change (displaceForDelete doc key row).tombstones ++ _ = _
          rw [hd.retired.2]
      · exact .refl doc

lemma applyOp_archives (op : ShareIndexOp) : (applyOp H limits now grow doc op).1.archives = doc.archives := by
  unfold applyOp
  split
  · split
    · rfl
    · exact (modifyAgent_neutral _ _ (release_rows _)).archives
  · split
    · rfl
    · split
      · rfl
      · split
        · rfl
        · exact (displaceAll_retired H limits now grow _ doc).1
  · split <;> rfl
  · rename_i key _
    split
    · rfl
    · rename_i row _
      split
      · exact (displaceForDelete_drops doc key row).retired.1
      · rfl

lemma applyFinding_step (pass : Pass) (finding : Finding) :
    DocStep H now pass.doc (applyFinding H limits now grow pass finding).doc ∧
      (applyFinding H limits now grow pass finding).doc.archives = pass.doc.archives ∧
      (applyFinding H limits now grow pass finding).doc.tombstones = pass.doc.tombstones := by
  have hneutral : ∀ {doc'}, pass.doc.Neutral doc' → DocStep H now pass.doc doc' ∧ doc'.archives = pass.doc.archives ∧
      doc'.tombstones = pass.doc.tombstones :=
    fun h => ⟨.of_neutral h, h.archives, h.tombstones⟩
  cases finding with
  | reject agentId suffix reason => exact hneutral (recordRejection_neutral ..)
  | clearNewer agentId => exact hneutral (modifyAgent_neutral _ _ fun _ => rfl)
  | gc agentId =>
    simp only [applyFinding]
    split
    · exact ⟨.refl _, rfl, rfl⟩
    · split
      · exact ⟨.same (fun _ => rfl) rfl, rfl, rfl⟩
      · exact ⟨.refl _, rfl, rfl⟩
  | newer agentId suffix recordV =>
    have hensured : pass.doc.Neutral (ensureAgent H now grow pass.doc agentId) := ensureAgent_neutral pass.doc agentId
    simp only [applyFinding]
    split
    · exact hneutral (hensured.trans (modifyAgent_neutral _ _ (noteNewer_rows _ _)))
    · exact hneutral hensured
  | web key row =>
    simp only [applyFinding]
    split
    · exact ⟨.refl _, rfl, rfl⟩
    · rename_i hc
      simp only [Bool.or_eq_true, not_or, Bool.not_eq_true, Option.isSome_eq_false_iff, Option.isNone_iff_eq_none] at hc
      unfold applyWebFinding
      split
      · split
        · refine ⟨.admit_ key row.claimless [] hc.1 hc.2 (fun k hk => by cases hk) (fun k => ?_) rfl, rfl, rfl⟩
          simp only [Doc.setRow, Dict.get?_set, List.not_mem_nil, if_false]
        · exact ⟨.refl _, rfl, rfl⟩
      · rename_i displaced hd
        simp only [displaceAll_doc]
        exact ⟨.admitRow hc.1 hc.2 hd, displaceAll_retired H limits now grow displaced pass.doc⟩
  | agent key agentId did row =>
    simp only [applyFinding]
    split
    · exact ⟨.refl _, rfl, rfl⟩
    · rename_i hc
      simp only [Bool.or_eq_true, not_or, Bool.not_eq_true, Option.isSome_eq_false_iff, Option.isNone_iff_eq_none] at hc
      have hn : pass.doc.Neutral (ensureAgent H now grow pass.doc agentId) := ensureAgent_neutral pass.doc agentId
      unfold applyAgentFinding
      simp only
      split
      · exact hneutral hn
      · split_ifs
        · exact hneutral hn
        · exact hneutral (hn.trans (modifyAgent_neutral _ _ pauseAtCap_rows))
        · exact hneutral hn
        · split
          · exact hneutral (hn.trans (recordRejection_neutral ..))
          · rename_i displaced hd
            rw [hn.rows] at hd
            simp only [displaceAll_doc]
            have hframe := modifyAgent_frame ((displaced.foldl (displace H limits now grow)
              (ensureAgent H now grow pass.doc agentId)).setRow key row) agentId
              fun entry => (entry.addRow did).pauseAtCap H limits now
            obtain ⟨ha, ht⟩ := displaceAll_retired H limits now grow displaced (ensureAgent H now grow pass.doc agentId)
            rw [hframe]
            refine ⟨.admit_ key row displaced hc.1 hc.2 (decideClaim_displaced hd) (fun k => ?_) ?_, ?_, ?_⟩
            · simp only [Doc.setRow, Dict.get?_set, displaceAll_rows, hn.rows]
            · exact ht.trans hn.tombstones
            · exact ha.trans hn.archives
            · exact ht.trans hn.tombstones

lemma applyStatus_step (result : String × Bool) : DocStep H now doc (applyStatus H now doc result) ∧
    (applyStatus H now doc result).archives = doc.archives ∧
      (applyStatus H now doc result).tombstones = doc.tombstones := by
  unfold applyStatus
  split
  · exact ⟨.refl doc, rfl, rfl⟩
  · rename_i row hrow
    split_ifs with hc
    · exact ⟨.refl doc, rfl, rfl⟩
    · exact ⟨.setRow hrow (revises_unconfirmed (by simpa using hc) _), rfl, rfl⟩
    · exact ⟨.setRow hrow (revises_unconfirmed (by simpa using hc) _), rfl, rfl⟩
    · exact ⟨.refl doc, rfl, rfl⟩

end Step

section Displaced

/-- Between the two documents the row has gone and its key is not tombstoned. -/
def displacedIn (doc doc' : Doc) (k : String) : Bool :=
  (doc.rows.get? k).isSome && (doc'.rows.get? k).isNone && !doc'.isTombstoned k

def headerFull (H : Host) (limits : Limits) (now : ℤ) (doc : Doc) (found : List Finding) : Bool :=
  let trial := (applyFindings H limits now true doc found).doc
  limits.headerBytes < H.headerBytes trial && H.headerBytes doc < H.headerBytes trial

lemma mem_of_append_tombstone {t : Tombstone} (ht : doc'.tombstones = doc.tombstones ++ [t]) :
    doc'.isTombstoned t.key = true := by
  simp [Doc.isTombstoned, ht]

lemma DocStep.displaced_outranked (h : DocStep H now doc doc') (hk : displacedIn doc doc' k = true) :
    ∃ key row other, doc'.rows.get? key = some row ∧ doc.rows.get? k = some other ∧ Rivals row other ∧
      Outranks row other := by
  simp only [displacedIn, Bool.and_eq_true, Option.isNone_iff_eq_none, Bool.not_eq_true'] at hk
  obtain ⟨⟨hlive, hgone⟩, hout⟩ := hk
  obtain ⟨row, hrow⟩ := Option.isSome_iff_exists.mp hlive
  cases h with
  | same hr ht =>
    rw [hr, hrow] at hgone
    cases hgone
  | admit_ key new displaced hnew hret hd hr ht =>
    have hne : k ≠ key := by
      rintro rfl
      rw [hnew] at hrow
      cases hrow
    rw [hr, if_neg hne] at hgone
    split at hgone
    · rename_i hin
      obtain ⟨other, ho, hrival, hrank⟩ := hd k hin
      exact ⟨key, new, other, by rw [hr, if_pos rfl], ho, hrival, hrank⟩
    · rw [hrow] at hgone
      cases hgone
  | revise key old new hold hrev hr ht =>
    rw [hr] at hgone
    split at hgone
    · cases hgone
    · rw [hrow] at hgone
      cases hgone
  | delete key old hold hr ht =>
    rw [hr] at hgone
    split at hgone
    · rename_i hk
      rw [hk, mem_of_append_tombstone ht] at hout
      cases hout
    · rw [hrow] at hgone
      cases hgone

lemma DocStep.keeps {at_ : String} (h : DocStep H now doc doc') (hk : doc.rows.get? k = some row)
    (hc : confirms H at_ row = true) :
    (∃ row', doc'.rows.get? k = some row' ∧ confirms H at_ row' = true) ∨ doc'.isTombstoned k = true ∨
      displacedIn doc doc' k = true := by
  cases hk' : doc'.rows.get? k with
  | some row' =>
    refine .inl ⟨row', rfl, ?_⟩
    cases h with
    | same hr ht =>
      rw [hr, hk] at hk'
      cases hk'
      exact hc
    | admit_ key new displaced hnew hret hd hr ht =>
      rw [hr] at hk'
      split at hk'
      · rename_i heq
        rw [← heq, hk] at hnew
        cases hnew
      · split at hk'
        · cases hk'
        · rw [hk] at hk'
          cases hk'
          exact hc
    | revise key old new hold hrev hr ht =>
      rw [hr] at hk'
      split at hk'
      · rename_i heq
        cases hk'
        rw [← heq, hk] at hold
        cases hold
        exact hrev.2 at_ hc
      · rw [hk] at hk'
        cases hk'
        exact hc
    | delete key old hold hr ht =>
      rw [hr] at hk'
      split at hk'
      · cases hk'
      · rw [hk] at hk'
        cases hk'
        exact hc
  | none =>
    right
    cases ht : doc'.isTombstoned k with
    | true => exact .inl rfl
    | false => exact .inr (by simp [displacedIn, hk, hk', ht])

lemma DocStep.tombstones (h : DocStep H now doc doc') : doc.tombstones <+: doc'.tombstones := by
  cases h with
  | delete key row hrow hr ht =>
    rw [ht]
    exact List.prefix_append ..
  | same hr ht => exact ht ▸ List.prefix_rfl
  | admit_ key row displaced hnew hret hd hr ht => exact ht ▸ List.prefix_rfl
  | revise key row row' hrow hrev hr ht => exact ht ▸ List.prefix_rfl

/-- A key of the archives never becomes live again. -/
lemma DocStep.archived (h : DocStep H now doc doc') (hk : doc.rows.get? k = none) (ha : doc.isArchived k = true) :
    doc'.rows.get? k = none := by
  cases h with
  | same hr ht => rw [hr, hk]
  | admit_ key row displaced hnew hret hd hr ht =>
    rw [hr, if_neg, hk, ite_self]
    rintro rfl
    rw [Doc.isRetired, ha, Bool.or_true] at hret
    cases hret
  | revise key row row' hrow hrev hr ht =>
    rw [hr, if_neg, hk]
    rintro rfl
    rw [hk] at hrow
    cases hrow
  | delete key row hrow hr ht => rw [hr, hk, ite_self]

lemma isArchived_congr (h : doc'.archives = doc.archives) (k : String) : doc'.isArchived k = doc.isArchived k := by
  rw [Doc.isArchived, h, Doc.isArchived]

lemma applyOps_archives (batch : List ShareIndexOp) (doc : Doc) :
    (applyOps H limits now doc batch).1.archives = doc.archives := by
  induction batch generalizing doc with
  | nil => rfl
  | cons op batch ih => exact (ih _).trans (applyOp_archives op)

lemma applyOps_archived (batch : List ShareIndexOp) (hk : doc.rows.get? k = none) (ha : doc.isArchived k = true) :
    (applyOps H limits now doc batch).1.rows.get? k = none := by
  induction batch generalizing doc with
  | nil => exact hk
  | cons op batch ih =>
    exact ih ((applyOp_step op).archived hk ha) ((isArchived_congr (applyOp_archives op) k).trans ha)

end Displaced

section Growth

def reaches (rank : ℕ) (row : Row) : Bool := rank ≤ claimRank row

/-- The number of rows of at least this rank. -/
def Doc.ranked (doc : Doc) (rank : ℕ) : ℕ := doc.rows.count (reaches rank)

/-- From some rank on no rows are lost, and there are more of that rank. -/
def Doc.Grows (doc doc' : Doc) : Prop :=
  ∃ rank, doc.ranked rank < doc'.ranked rank ∧ ∀ rank', rank ≤ rank' → doc.ranked rank' ≤ doc'.ranked rank'

lemma Doc.Grows.trans {doc'' : Doc} (h : doc.Grows doc') (h' : doc'.Grows doc'') : doc.Grows doc'' := by
  obtain ⟨r, hlt, hle⟩ := h
  obtain ⟨r', hlt', hle'⟩ := h'
  rcases Nat.le_total r r' with hr | hr
  · exact ⟨r', lt_of_le_of_lt (hle r' hr) hlt', fun s hs => le_trans (hle s (le_trans hr hs)) (hle' s hs)⟩
  · exact ⟨r, lt_of_lt_of_le hlt (hle' r hr), fun s hs => le_trans (hle s hs) (hle' s (le_trans hr hs))⟩

lemma Revises.rank (h : Revises H row row') : claimRank row' = claimRank row := by
  obtain ⟨⟨r, rfl⟩, -⟩ := h
  rfl

/-- A step that deletes nothing admits a row, or keeps all of them. -/
lemma DocStep.grows (h : DocStep H now doc doc') (ht : doc'.tombstones = doc.tombstones) :
    doc.Grows doc' ∨ (∀ rank, doc.ranked rank ≤ doc'.ranked rank) ∧ ∀ k, displacedIn doc doc' k = false := by
  cases h with
  | same hr _ =>
    refine .inr ⟨fun rank => Dict.count_le fun k row hk hp => ⟨row, (hr k).trans hk, hp⟩, fun k => ?_⟩
    rw [displacedIn, hr]
    cases doc.rows.get? k <;> rfl
  | revise key row row' hrow hrev hr _ =>
    refine .inr ⟨fun rank => Dict.count_le fun k other hk hp => ?_, fun k => ?_⟩
    · by_cases hkey : k = key
      · rw [hkey, hrow] at hk
        cases hk
        refine ⟨row', by rw [hr, if_pos hkey], ?_⟩
        rw [reaches, hrev.rank]
        exact hp
      · exact ⟨other, by rw [hr, if_neg hkey, hk], hp⟩
    · rw [displacedIn, hr]
      split
      · simp
      · cases doc.rows.get? k <;> rfl
  | delete key row hrow hr ht' =>
    rw [ht] at ht'
    exact absurd (congrArg List.length ht') (by simp)
  | admit_ key row displaced hnew hret hd hr _ =>
    have hkeep : ∀ rank, claimRank row ≤ rank → ∀ k other, doc.rows.get? k = some other → reaches rank other = true →
        ∃ other', doc'.rows.get? k = some other' ∧ reaches rank other' = true := by
      intro rank hrank k other hk hp
      have hne : k ≠ key := by
        rintro rfl
        rw [hnew] at hk
        cases hk
      have hout : k ∉ displaced := by
        intro hin
        obtain ⟨other', ho, -, hlt, -⟩ := hd k hin
        rw [hk] at ho
        cases ho
        exact absurd (le_trans hrank (of_decide_eq_true hp)) (not_le.mpr hlt)
      exact ⟨other, by rw [hr, if_neg hne, if_neg hout, hk], hp⟩
    refine .inl ⟨claimRank row, ?_, fun rank hrank => Dict.count_le (hkeep rank hrank)⟩
    exact Dict.count_lt (hkeep _ (le_refl _)) (by rw [hr, if_pos rfl]) (decide_eq_true (le_refl _)) hnew

lemma sameContent_archives (h : sameContent doc doc' = true) : doc.archives = doc'.archives := by
  simp only [sameContent, Bool.and_eq_true, beq_iff_eq] at h
  exact h.1.1.1.1.2

end Growth

section Retired

variable {name : String} {groups : List Group}

/-- The document lists the key under the archive's name. -/
def Doc.lists (doc : Doc) (name k : String) : Bool :=
  doc.archives.any fun archive => archive.name == name && archive.ids.contains k

lemma lists_iff : doc.lists name k = true ↔ ∃ archive ∈ doc.archives, archive.name = name ∧ k ∈ archive.ids := by
  simp [Doc.lists]

lemma isArchived_lists : doc.isArchived k = true ↔ ∃ name, doc.lists name k = true := by
  simp only [isArchived_iff, lists_iff]
  exact ⟨fun ⟨archive, ha, hk⟩ => ⟨archive.name, archive, ha, rfl, hk⟩, fun ⟨_, archive, ha, _, hk⟩ => ⟨archive, ha, hk⟩⟩

lemma lists_addArchive {name' : String} {keys : List String} {archives : List Archive} :
    (∃ archive ∈ addArchive name keys archives, archive.name = name' ∧ k ∈ archive.ids) ↔
      (∃ archive ∈ archives, archive.name = name' ∧ k ∈ archive.ids) ∨ name = name' ∧ k ∈ keys := by
  induction archives with
  | nil => simp [addArchive, mem_addIds]
  | cons archive archives ih =>
    unfold addArchive
    split
    · rename_i hn
      simp only [List.exists_mem_cons_iff, mem_addIds, ← hn]
      constructor
      · rintro (⟨h, h' | h'⟩ | h)
        · exact .inl (.inl ⟨h, h'⟩)
        · exact .inr ⟨h, h'⟩
        · exact .inl (.inr h)
      · rintro ((⟨h, h'⟩ | h) | ⟨h, h'⟩)
        · exact .inl ⟨h, .inl h'⟩
        · exact .inr h
        · exact .inl ⟨h, .inr h'⟩
    · rw [List.exists_mem_cons_iff, ih, List.exists_mem_cons_iff, or_assoc]

lemma retireGroups_lists : (groups.foldl retireGroup doc).lists name k = true ↔
    doc.lists name k = true ∨ ∃ group ∈ groups, group.name = name ∧ k ∈ group.rows.keys := by
  induction groups generalizing doc with
  | nil => simp
  | cons group groups ih =>
    rw [List.foldl_cons, ih, lists_iff, retireGroup_archives, lists_addArchive, ← lists_iff, List.exists_mem_cons_iff,
      or_assoc]

lemma retireGroups_rows : (groups.foldl retireGroup doc).rows.get? k =
    if ∃ group ∈ groups, k ∈ group.rows.keys then none else doc.rows.get? k := by
  induction groups generalizing doc with
  | nil => simp
  | cons group groups ih =>
    rw [List.foldl_cons, ih, retireGroup_rows]
    by_cases hk : k ∈ group.rows.keys
    · simp [hk]
    · simp [hk]

lemma retireGroups_tombstones : (groups.foldl retireGroup doc).tombstones = doc.tombstones := by
  induction groups generalizing doc with
  | nil => rfl
  | cons group groups ih => exact ih.trans (retireGroup_tombstones doc group)

lemma findings_archives (found : List Finding) (pass : Pass) :
    (found.foldl (applyFinding H limits now grow) pass).doc.archives = pass.doc.archives ∧
      (found.foldl (applyFinding H limits now grow) pass).doc.tombstones = pass.doc.tombstones := by
  induction found generalizing pass with
  | nil => exact ⟨rfl, rfl⟩
  | cons finding found ih =>
    exact ⟨(ih _).1.trans (applyFinding_step pass finding).2.1, (ih _).2.trans (applyFinding_step pass finding).2.2⟩

lemma findings_archived (found : List Finding) (pass : Pass) (hk : pass.doc.rows.get? k = none)
    (ha : pass.doc.isArchived k = true) : (found.foldl (applyFinding H limits now grow) pass).doc.rows.get? k = none := by
  induction found generalizing pass with
  | nil => exact hk
  | cons finding found ih =>
    exact ih _ (DocStep.archived (applyFinding_step pass finding).1 hk ha)
      ((isArchived_congr (applyFinding_step pass finding).2.1 k).trans ha)

lemma statuses_same (results : List (String × Bool)) (doc : Doc) :
    (results.foldl (applyStatus H now) doc).archives = doc.archives ∧
      (results.foldl (applyStatus H now) doc).tombstones = doc.tombstones := by
  induction results generalizing doc with
  | nil => exact ⟨rfl, rfl⟩
  | cons result results ih =>
    exact ⟨(ih _).1.trans (applyStatus_step result).2.1, (ih _).2.trans (applyStatus_step result).2.2⟩

lemma statuses_archived (results : List (String × Bool)) (hk : doc.rows.get? k = none) (ha : doc.isArchived k = true) :
    (results.foldl (applyStatus H now) doc).rows.get? k = none := by
  induction results generalizing doc with
  | nil => exact hk
  | cons result results ih =>
    exact ih (DocStep.archived (applyStatus_step result).1 hk ha)
      ((isArchived_congr (applyStatus_step result).2.1 k).trans ha)

/-- The names under which a change lists a key: the old ones, and those of a compaction. -/
def Change.moves (change : Change) (name k : String) : Bool :=
  match change with
  | .compaction groups _ => groups.any fun group => group.name == name && group.rows.keys.contains k
  | _ => false

lemma apply_lists (change : Change) : (change.apply H limits now doc).1.lists name k = true ↔
    doc.lists name k = true ∨ change.moves name k = true := by
  have hkeep : ∀ {doc' : Doc}, doc'.archives = doc.archives → (doc'.lists name k = true ↔ doc.lists name k = true ∨
      false = true) := fun h => by simp only [Doc.lists, h, Bool.false_eq_true, or_false]
  cases change with
  | ops batch => exact hkeep (applyOps_archives batch doc)
  | findings found cursor => exact hkeep (findings_archives found _).1
  | statuses results => exact hkeep (statuses_same results doc).1
  | compaction groups expired =>
    change (groups.foldl retireGroup doc).lists name k = true ↔ _
    rw [retireGroups_lists]
    simp [Change.moves]

lemma apply_archived (change : Change) (hk : doc.rows.get? k = none) (ha : doc.isArchived k = true) :
    (change.apply H limits now doc).1.rows.get? k = none := by
  cases change with
  | ops batch => exact applyOps_archived batch hk ha
  | findings found cursor => exact findings_archived found _ hk ha
  | statuses results => exact statuses_archived results hk ha
  | compaction groups expired =>
    change (groups.foldl retireGroup doc).rows.get? k = none
    rw [retireGroups_rows, hk, ite_self]

/-- What is archived is not live: so it stays. -/
lemma apply_retired (change : Change) (h : ∀ k, doc.isArchived k = true → doc.rows.get? k = none)
    (ha : (change.apply H limits now doc).1.isArchived k = true) : (change.apply H limits now doc).1.rows.get? k = none := by
  obtain ⟨name, hl⟩ := isArchived_lists.mp ha
  rcases (apply_lists change).mp hl with hl | hm
  · have hold := isArchived_lists.mpr ⟨name, hl⟩
    exact apply_archived change (h k hold) hold
  · cases change with
    | compaction groups expired =>
      change (groups.foldl retireGroup doc).rows.get? k = none
      rw [retireGroups_rows, if_pos]
      obtain ⟨group, hg, hk⟩ := List.any_eq_true.mp hm
      exact ⟨group, hg, List.contains_iff_mem.mp ((Bool.and_eq_true _ _).mp hk).2⟩
    | _ => cases hm

end Retired

end TinyCloud.ShareIndex
