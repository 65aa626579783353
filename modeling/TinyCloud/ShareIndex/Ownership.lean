import Mathlib.Data.List.Perm.Subperm
import TinyCloud.ShareIndex.Consistency

/-!
# Who holds a CID

Rows are admitted one by one, by flushes and by passes. Whoever arrives first, the row with the highest
rank is to hold a CID; rows that are displaced or refused lose all their CIDs.
-/

namespace TinyCloud.ShareIndex

open TinyCloud.Collections

variable {H : Host} {limits : Limits} {now : ℤ} {grow : Bool} {doc doc' : Doc} {key k : String} {row : Row}
  {agentId cid : String} {rows arrived : List (String × Row)}

section Arrivals

def OpBody.arrival : OpBody → Option (String × Row)
  | .upsert key row => some (key, row)
  | _ => none

def Finding.arrival : Finding → Option (String × Row)
  | .web key row => some (key, row)
  | .agent key _ _ row => some (key, row)
  | _ => none

def Change.arrivals : Change → List (String × Row)
  | .ops batch => batch.filterMap (·.body.arrival)
  | .findings found _ => found.filterMap (·.arrival)
  | _ => []

/-- The change does nothing but admit rows. -/
def Change.Admits : Change → Prop
  | .ops batch => ∀ op ∈ batch, op.body.arrival.isSome
  | .findings found _ => ∀ finding ∈ found, finding.arrival.isSome ∧ finding.Sourced
  | _ => False

variable (H limits now)

/-- No cap keeps the finding out: its agent is not paused and has room, and so have the agents' rows. -/
def Finding.Roomy (pass : Pass) : Finding → Prop
  | .agent _ agentId _ row =>
    ∀ entry, (ensureAgent H now true pass.doc agentId).agents.get? agentId = some entry →
      entry.paused = none ∧ entry.rows < limits.liveRowsPerAgent ∧
        ((pass.agentBytes + H.bytesOf row : ℤ) : Rat) ≤ agentBudget limits
  | _ => True

def AllRoomy (pass : Pass) : List Finding → Prop
  | [] => True
  | finding :: found => finding.Roomy H limits now pass ∧ AllRoomy (applyFinding H limits now true pass finding) found

def Change.Uncapped (doc : Doc) (change : Change) : Prop :=
  match change with
  | .findings found _ =>
    AllRoomy H limits now ⟨doc, agentRowBytes H doc.rows, 0⟩ found ∧
      (change.apply H limits now doc).2.headerFull = false
  | _ => True

omit now

/-- Changes one after the other, each with the time at which it is applied. -/
def applyAll (doc : Doc) : List (ℤ × Change) → Doc
  | [] => doc
  | (now, change) :: changes => applyAll (change.apply H limits now doc).1 changes

def UncappedRun (doc : Doc) : List (ℤ × Change) → Prop
  | [] => True
  | (now, change) :: changes =>
    change.Uncapped H limits now doc ∧ UncappedRun (change.apply H limits now doc).1 changes

variable {H limits}

def arrivals (changes : List (ℤ × Change)) : List (String × Row) := changes.flatMap (·.2.arrivals)

/-- A live row of the highest rank among the arrived claimants holds the CID. -/
def HeldAtTop (doc : Doc) (arrived : List (String × Row)) (cid : String) : Prop :=
  ∃ k row, doc.rows.get? k = some row ∧ cid ∈ row.claims ∧ (k, row) ∈ arrived ∧
    ∀ e ∈ arrived, cid ∈ e.2.claims → claimRank e.2 ≤ claimRank row

variable (H)

structure Admissible (rows : List (String × Row)) : Prop where
  keys : (rows.map Prod.fst).Nodup
  unrevoked : ∀ e ∈ rows, e.2.revoked = false
  placed : ∀ e ∈ rows, ∀ agentId, agentOf e.2 = some agentId → e.1 = "agents/" ++ agentId ++ "/" ++ basename e.1
  digests : ∀ e ∈ rows, ∀ f ∈ rows,
    H.rejectedKeyEntry (basename e.1) = H.rejectedKeyEntry (basename f.1) → basename e.1 = basename f.1

/-- A row gives its CIDs up only to a rival that claims all of them. -/
def Nested (rows : List (String × Row)) : Prop :=
  ∀ e ∈ rows, ∀ f ∈ rows, e.1 ≠ f.1 → Rivals e.2 f.2 → claimRank e.2 ≤ claimRank f.2 →
    ∀ cid ∈ e.2.claims, cid ∈ f.2.claims

end Arrivals

section Rejections

def Doc.rejectedBy (doc : Doc) (agentId : String) : List String := (doc.agents.get? agentId).elim [] (·.rejectedKeys)

lemma rejectedBy_ensureAgent (doc : Doc) (agentId other : String) :
    (ensureAgent H now grow doc agentId).rejectedBy other = doc.rejectedBy other := by
  unfold ensureAgent
  split
  · rfl
  · rename_i h
    simp only [Bool.or_eq_true, not_or, Bool.not_eq_true, Option.isSome_eq_false_iff, Option.isNone_iff_eq_none] at h
    simp only [Doc.rejectedBy, Dict.get?_set]
    split
    · rename_i ho
      simp [ho, h.1, newAgent]
    · rfl

lemma rejectedBy_modifyAgent {d other : String} (f : Agent → Agent)
    (h : d ∈ (doc.modifyAgent agentId f).rejectedBy other) :
    d ∈ doc.rejectedBy other ∨
      other = agentId ∧ ∃ entry, doc.agents.get? agentId = some entry ∧ d ∈ (f entry).rejectedKeys := by
  unfold Doc.modifyAgent at h
  split at h
  · exact .inl h
  · rename_i entry he
    simp only [Doc.rejectedBy, Dict.get?_set] at h
    split at h
    · rename_i ho
      exact .inr ⟨ho, entry, he, h⟩
    · exact .inl h

lemma mem_rejectedBy {d : String} {entry : Agent} (h : doc.agents.get? agentId = some entry)
    (hd : d ∈ entry.rejectedKeys) : d ∈ doc.rejectedBy agentId := by
  rw [Doc.rejectedBy, h]
  exact hd

lemma mem_reject {d entryKey : String} {reason : RejectReason} {entry : Agent}
    (h : d ∈ (entry.reject H limits now entryKey reason).rejectedKeys) : d ∈ entry.rejectedKeys ∨ d = entryKey := by
  unfold Agent.reject at h
  split at h
  · exact .inl h
  · simp only at h
    split at h
    · exact (List.mem_append.mp h).imp id List.mem_singleton.mp
    · exact .inl h

lemma rejectedBy_recordRejection {d other suffix : String} {reason : RejectReason}
    (h : d ∈ (recordRejection H limits now grow doc agentId suffix reason).rejectedBy other) :
    d ∈ doc.rejectedBy other ∨ other = agentId ∧ d = H.rejectedKeyEntry suffix := by
  unfold recordRejection at h
  simp only at h
  split at h
  · rcases rejectedBy_modifyAgent _ h with h | ⟨ho, entry, he, hd⟩
    · rw [rejectedBy_ensureAgent] at h
      exact .inl h
    · rcases mem_reject hd with hd | hd
      · left
        have hin := mem_rejectedBy he hd
        rw [rejectedBy_ensureAgent] at hin
        rwa [ho]
      · exact .inr ⟨ho, hd⟩
  · rw [rejectedBy_ensureAgent] at h
    exact .inl h

lemma rejectedBy_dropRow {d other : String} (h : d ∈ (doc.modifyAgent agentId Agent.dropRow).rejectedBy other) :
    d ∈ doc.rejectedBy other := by
  rcases rejectedBy_modifyAgent _ h with h | ⟨ho, entry, he, hd⟩
  · exact h
  · rw [ho]
    exact mem_rejectedBy he hd

lemma rejectedBy_displace {d other : String} (h : d ∈ (displace H limits now grow doc key).rejectedBy other) :
    d ∈ doc.rejectedBy other ∨
      ∃ row, doc.rows.get? key = some row ∧ agentOf row = some other ∧ d = H.rejectedKeyEntry (basename key) := by
  unfold displace at h
  split at h
  · exact .inl h
  · rename_i row hrow
    simp only at h
    split at h
    · exact .inl h
    · rename_i agentId ha
      rcases rejectedBy_recordRejection h with h | ⟨ho, hd⟩
      · have hin := rejectedBy_dropRow h
        rw [rejectedBy_ensureAgent] at hin
        exact .inl hin
      · exact .inr ⟨row, hrow, ho ▸ ha, hd⟩

lemma rejectedBy_displaceAll {d other : String} (displaced : List String)
    (h : d ∈ (displaced.foldl (displace H limits now grow) doc).rejectedBy other) :
    d ∈ doc.rejectedBy other ∨ ∃ k ∈ displaced, ∃ row, doc.rows.get? k = some row ∧ agentOf row = some other ∧
      d = H.rejectedKeyEntry (basename k) := by
  induction displaced generalizing doc with
  | nil => exact .inl h
  | cons key displaced ih =>
    rcases ih h with h | ⟨k, hk, row, hrow, hrest⟩
    · rcases rejectedBy_displace h with h | ⟨row, hrow, hrest⟩
      · exact .inl h
      · exact .inr ⟨key, List.mem_cons_self, row, hrow, hrest⟩
    · rw [displace_rows] at hrow
      split at hrow
      · cases hrow
      · exact .inr ⟨k, List.mem_cons_of_mem _ hk, row, hrow, hrest⟩

end Rejections

section Admission

variable (H)

/-- What the document knows of the rows that have arrived. -/
structure Reflects (doc : Doc) (arrived : List (String × Row)) : Prop where
  live : ∀ k row, doc.rows.get? k = some row → k ∈ arrived.map Prod.fst ∧ (row.claims = [] ∨ (k, row) ∈ arrived)
  apart : ∀ k k' row row', doc.rows.get? k = some row → doc.rows.get? k' = some row' → k ≠ k' → ¬ Rivals row row'
  top : ∀ e ∈ arrived, ∀ cid ∈ e.2.claims, HeldAtTop doc arrived cid
  rejected : ∀ agentId, ∀ d ∈ doc.rejectedBy agentId,
    ∃ e ∈ arrived, agentOf e.2 = some agentId ∧ d = H.rejectedKeyEntry (basename e.1)
  unretired : ∀ k, doc.isRetired k = false

variable {H}

lemma Reflects.new (h : Reflects H doc arrived) (hk : key ∉ arrived.map Prod.fst) : doc.rows.get? key = none := by
  rw [Option.eq_none_iff_forall_ne_some]
  intro row hrow
  exact hk (h.live key row hrow).1

lemma Reflects.mem_of_rivals (h : Reflects H doc arrived) {other : Row} (hk : doc.rows.get? k = some other)
    (hr : Rivals row other) : (k, other) ∈ arrived := by
  obtain ⟨⟨cid, -, hcid⟩, -⟩ := hr
  rcases (h.live k other hk).2 with hnone | hin
  · rw [hnone] at hcid
    cases hcid
  · exact hin

lemma heldAtTop_other (h : HeldAtTop doc arrived cid) (hrows : ∀ k row, doc.rows.get? k = some row →
    cid ∈ row.claims → (k, row) ∈ arrived → doc'.rows.get? k = some row) (hcid : cid ∉ row.claims) :
    HeldAtTop doc' (arrived ++ [(key, row)]) cid := by
  obtain ⟨k, holder, hk, hclaims, hin, htop⟩ := h
  refine ⟨k, holder, hrows k holder hk hclaims hin, hclaims, List.mem_append_left _ hin, fun e he hce => ?_⟩
  rcases List.mem_append.mp he with he | he
  · exact htop e he hce
  · obtain rfl := List.mem_singleton.mp he
    exact absurd hce hcid

lemma Rivals.of_shared {row other : Row} (hr : cid ∈ row.claims) (ho : cid ∈ other.claims) :
    Rivals row other ∨ isWebRow row = true ∧ isWebRow other = true := by
  by_cases hweb : isWebRow row = true ∧ isWebRow other = true
  · exact .inr hweb
  · exact .inl ⟨⟨cid, hr, ho⟩, hweb⟩

/-- The row gets in: it holds its own CIDs, and the rows it displaces claimed no others. -/
lemma Reflects.admitted {displaced : List String} (h : Reflects H doc arrived) (hk : key ∉ arrived.map Prod.fst)
    (hd : decideClaim doc.rows key row = .admit_ displaced)
    (hnested : ∀ e ∈ arrived, e.1 ≠ key → Rivals e.2 row → claimRank e.2 ≤ claimRank row →
      ∀ cid ∈ e.2.claims, cid ∈ row.claims)
    (hrows : ∀ k, doc'.rows.get? k = if k = key then some row else if k ∈ displaced then none else doc.rows.get? k)
    (hrej : ∀ agentId, ∀ d ∈ doc'.rejectedBy agentId, d ∈ doc.rejectedBy agentId ∨
      ∃ k ∈ displaced, ∃ row, doc.rows.get? k = some row ∧ agentOf row = some agentId ∧
        d = H.rejectedKeyEntry (basename k))
    (hret : ∀ k, doc'.isRetired k = doc.isRetired k) : Reflects H doc' (arrived ++ [(key, row)]) := by
  obtain ⟨hdisplaced, houts⟩ := decideClaim_admitted hd
  have hkeep {k other} (hk' : doc'.rows.get? k = some other) (hne : k ≠ key) :
      doc.rows.get? k = some other ∧ ¬ Rivals row other := by
    rw [hrows, if_neg hne] at hk'
    split at hk'
    · cases hk'
    · rename_i hout
      exact ⟨hk', fun hr => hout ((hdisplaced k).mpr ⟨other, hk', hne, hr⟩)⟩
  have hself : doc'.rows.get? key = some row := by rw [hrows, if_pos rfl]
  constructor
  · intro k other hk'
    by_cases hne : k = key
    · subst hne
      rw [hself] at hk'
      cases hk'
      simp
    · obtain ⟨hin, hclaims⟩ := h.live k other (hkeep hk' hne).1
      rw [List.map_append]
      exact ⟨List.mem_append_left _ hin, hclaims.imp id (List.mem_append_left _)⟩
  · intro k k' r r' hk' hk'' hne
    by_cases hkey : k = key
    · subst hkey
      rw [hself] at hk'
      cases hk'
      exact (hkeep hk'' (Ne.symm hne)).2
    · by_cases hkey' : k' = key
      · subst hkey'
        rw [hself] at hk''
        cases hk''
        exact fun hr => (hkeep hk' hkey).2 hr.symm
      · exact h.apart k k' r r' (hkeep hk' hkey).1 (hkeep hk'' hkey').1 hne
  · intro e he cid hcid
    by_cases hrow : cid ∈ row.claims
    · refine ⟨key, row, hself, hrow, List.mem_append_right _ List.mem_cons_self, fun f hf hcf => ?_⟩
      rcases List.mem_append.mp hf with hf | hf
      · obtain ⟨k, holder, hkh, hclaims, hin, htop⟩ := h.top f hf cid hcf
        refine le_trans (htop f hf hcf) ?_
        rcases Rivals.of_shared hrow hclaims with hr | ⟨hweb, -⟩
        · have hne : k ≠ key := by
            rintro rfl
            rw [h.new hk] at hkh
            cases hkh
          exact Nat.le_of_lt (houts k holder hkh hne hr).1
        · rw [claimRank_web hweb]
          exact claimRank_le holder
      · obtain rfl := List.mem_singleton.mp hf
        exact le_refl _
    · have he' : e ∈ arrived := by
        rcases List.mem_append.mp he with he | he
        · exact he
        · obtain rfl := List.mem_singleton.mp he
          exact absurd hcid hrow
      refine heldAtTop_other (h.top e he' cid hcid) (fun k holder hkh hclaims hin => ?_) hrow
      have hne : k ≠ key := by
        rintro rfl
        rw [h.new hk] at hkh
        cases hkh
      rw [hrows, if_neg hne, if_neg, hkh]
      intro hdis
      obtain ⟨other, hko, -, hr⟩ := (hdisplaced k).mp hdis
      rw [hkh] at hko
      cases hko
      exact hrow (hnested (k, holder) hin hne hr.symm (Nat.le_of_lt (houts k holder hkh hne hr).1) cid hclaims)
  · intro agentId d hd'
    rcases hrej agentId d hd' with hd' | ⟨k, hkd, other, hko, hsrc, hdig⟩
    · obtain ⟨e, he, hrest⟩ := h.rejected agentId d hd'
      exact ⟨e, List.mem_append_left _ he, hrest⟩
    · obtain ⟨other', hko', -, hr⟩ := (hdisplaced k).mp hkd
      rw [hko] at hko'
      cases hko'
      exact ⟨(k, other), List.mem_append_left _ (h.mem_of_rivals hko hr), hsrc, hdig⟩
  · intro k
    rw [hret, h.unretired]

/-- The row is kept out: a row that stays holds all its CIDs. -/
lemma Reflects.refused {heldBy : String} (h : Reflects H doc arrived) (hk : key ∉ arrived.map Prod.fst)
    (hd : decideClaim doc.rows key row = .refuse heldBy) (hunrevoked : ∀ e ∈ arrived, e.2.revoked = false)
    (hnested : ∀ e ∈ arrived, key ≠ e.1 → Rivals row e.2 → claimRank row ≤ claimRank e.2 →
      ∀ cid ∈ row.claims, cid ∈ e.2.claims)
    (hrows : doc'.rows = doc.rows ∨ doc'.rows = doc.rows.set key row.claimless)
    (hrej : ∀ agentId, ∀ d ∈ doc'.rejectedBy agentId, d ∈ doc.rejectedBy agentId ∨
      agentOf row = some agentId ∧ d = H.rejectedKeyEntry (basename key))
    (hret : ∀ k, doc'.isRetired k = doc.isRetired k) : Reflects H doc' (arrived ++ [(key, row)]) := by
  obtain ⟨other, hother, hne, hr, hout⟩ := decideClaim_refuse hd
  have hin := h.mem_of_rivals hother hr
  have hrank : claimRank row ≤ claimRank other := by
    by_contra hlt
    exact hout ⟨not_le.mp hlt, fun hc => by simp [hunrevoked _ hin] at hc⟩
  have hclaims := hnested _ hin (Ne.symm hne) hr hrank
  have hsame {k} (hk' : k ≠ key) : doc'.rows.get? k = doc.rows.get? k := by
    rcases hrows with hrows | hrows
    · rw [hrows]
    · rw [hrows, Dict.get?_set_of_ne _ _ hk']
  have hself {r} (hr' : doc'.rows.get? key = some r) : r = row.claimless := by
    rcases hrows with hrows | hrows
    · rw [hrows, h.new hk] at hr'
      cases hr'
    · rw [hrows, Dict.get?_set_self] at hr'
      cases hr'
      rfl
  constructor
  · intro k r hk'
    by_cases hkey : k = key
    · subst hkey
      rw [hself hk']
      exact ⟨by simp, .inl rfl⟩
    · obtain ⟨hin', hc⟩ := h.live k r ((hsame hkey).symm.trans hk')
      rw [List.map_append]
      exact ⟨List.mem_append_left _ hin', hc.imp id (List.mem_append_left _)⟩
  · intro k k' r r' hk' hk'' hne'
    by_cases hkey : k = key
    · subst hkey
      rw [hself hk']
      exact rivals_claimless row r'
    · by_cases hkey' : k' = key
      · subst hkey'
        rw [hself hk'']
        exact fun hr' => rivals_claimless row r hr'.symm
      · exact h.apart k k' r r' ((hsame hkey).symm.trans hk') ((hsame hkey').symm.trans hk'') hne'
  · -- Whatever the row claims, the row that keeps it out claims too.
    have hsome {e} (he : e ∈ arrived ++ [(key, row)]) {cid} (hcid : cid ∈ e.2.claims) : HeldAtTop doc arrived cid := by
      rcases List.mem_append.mp he with he | he
      · exact h.top e he cid hcid
      · obtain rfl := List.mem_singleton.mp he
        exact h.top _ hin cid (hclaims cid hcid)
    intro e he cid hcid
    obtain ⟨k, holder, hkh, hch, hinh, htop⟩ := hsome he hcid
    have hkey : k ≠ key := by
      rintro rfl
      exact hk (List.mem_map_of_mem (f := Prod.fst) hinh)
    refine ⟨k, holder, (hsame hkey).trans hkh, hch, List.mem_append_left _ hinh, fun f hf hcf => ?_⟩
    rcases List.mem_append.mp hf with hf | hf
    · exact htop f hf hcf
    · obtain rfl := List.mem_singleton.mp hf
      exact le_trans hrank (htop _ hin (hclaims cid hcf))
  · intro agentId d hd'
    rcases hrej agentId d hd' with hd' | ⟨hsrc, hdig⟩
    · obtain ⟨e, he, hrest⟩ := h.rejected agentId d hd'
      exact ⟨e, List.mem_append_left _ he, hrest⟩
    · exact ⟨(key, row), List.mem_append_right _ List.mem_cons_self, hsrc, hdig⟩
  · intro k
    rw [hret, h.unretired]

/-- The next row: it has not arrived before, and the rows it meets and those it joins are nested. -/
structure Next (rows arrived : List (String × Row)) (key : String) (row : Row) : Prop where
  mem : (key, row) ∈ rows
  new : key ∉ arrived.map Prod.fst
  among : ∀ e ∈ arrived, e ∈ rows

lemma Next.into (h : Next rows arrived key row) (hn : Nested rows) : ∀ e ∈ arrived, e.1 ≠ key → Rivals e.2 row →
    claimRank e.2 ≤ claimRank row → ∀ cid ∈ e.2.claims, cid ∈ row.claims :=
  fun e he hne => hn e (h.among e he) (key, row) h.mem hne

lemma Next.under (h : Next rows arrived key row) (hn : Nested rows) : ∀ e ∈ arrived, key ≠ e.1 → Rivals row e.2 →
    claimRank row ≤ claimRank e.2 → ∀ cid ∈ row.claims, cid ∈ e.2.claims :=
  fun e he hne => hn (key, row) h.mem e (h.among e he) hne

lemma displaceAll_setRow_rows {displaced : List String} (doc : Doc) (key : String) (row : Row) (k : String) :
    ((displaced.foldl (displace H limits now grow) doc).setRow key row).rows.get? k =
      if k = key then some row else if k ∈ displaced then none else doc.rows.get? k := by
  rw [Doc.setRow, Dict.get?_set, displaceAll_rows]

lemma Reflects.applyOp (h : Reflects H doc arrived) (ha : Admissible H rows) (hn : Nested rows)
    (hnext : Next rows arrived key row) (id : String) :
    Reflects H (applyOp H limits now true doc ⟨id, .upsert key row⟩).1 (arrived ++ [(key, row)]) := by
  simp only [ShareIndex.applyOp, h.unretired key, Bool.false_eq_true, if_false, h.new hnext.new]
  split
  · rename_i heldBy hd
    exact h.refused hnext.new hd (fun e he => ha.unrevoked e (hnext.among e he)) (hnext.under hn) (.inl rfl)
      (fun _ _ hd' => .inl hd') fun _ => rfl
  · rename_i displaced hd
    exact h.admitted hnext.new hd (hnext.into hn) (displaceAll_setRow_rows doc key row)
      (fun _ _ hd' => rejectedBy_displaceAll displaced hd') (displaceAll_isRetired displaced)

/-- Its own key has not been rejected before. -/
lemma Reflects.unrejected (h : Reflects H doc arrived) (ha : Admissible H rows) (hnext : Next rows arrived key row)
    (hsrc : agentOf row = some agentId) : H.rejectedKeyEntry (basename key) ∉ doc.rejectedBy agentId := by
  intro hin
  obtain ⟨e, he, hesrc, hdig⟩ := h.rejected agentId _ hin
  have hbase := ha.digests _ hnext.mem e (hnext.among e he) hdig
  have hkey : key = e.1 := by
    have hplaced := ha.placed _ hnext.mem agentId hsrc
    simp only at hplaced hbase
    rw [hplaced, ha.placed e (hnext.among e he) agentId hesrc, hbase]
  exact hnext.new (hkey ▸ List.mem_map_of_mem (f := Prod.fst) he)

lemma Reflects.neutral (h : Reflects H doc arrived) (hf : doc.Neutral doc')
    (hrej : ∀ agentId, doc'.rejectedBy agentId = doc.rejectedBy agentId) : Reflects H doc' arrived := by
  constructor
  · rw [hf.rows]
    exact h.live
  · rw [hf.rows]
    exact h.apart
  · intro e he cid hcid
    obtain ⟨k, holder, hk, hrest⟩ := h.top e he cid hcid
    exact ⟨k, holder, hf.rows ▸ hk, hrest⟩
  · intro agentId
    rw [hrej]
    exact h.rejected agentId
  · intro k
    rw [isRetired_congr hf.archives hf.tombstones, h.unretired]

lemma rejectedBy_admitAgent {d other did : String} (displaced : List String)
    (h : d ∈ (((displaced.foldl (displace H limits now grow) doc).setRow key row).modifyAgent agentId
      fun entry => (entry.addRow did).pauseAtCap H limits now).rejectedBy other) :
    d ∈ doc.rejectedBy other ∨ ∃ k ∈ displaced, ∃ row, doc.rows.get? k = some row ∧ agentOf row = some other ∧
      d = H.rejectedKeyEntry (basename k) := by
  apply rejectedBy_displaceAll displaced
  rcases rejectedBy_modifyAgent _ h with h | ⟨ho, entry, he, hd⟩
  · exact h
  · have hkeys : ((entry.addRow did).pauseAtCap H limits now).rejectedKeys = entry.rejectedKeys := by
      unfold Agent.pauseAtCap
      split <;> rfl
    rw [hkeys] at hd
    rw [ho]
    have hmem : d ∈ ((displaced.foldl (displace H limits now grow) doc).setRow key row).rejectedBy agentId :=
      mem_rejectedBy he hd
    exact hmem

lemma Reflects.applyAgentFinding {pass : Pass} {did : String} (h : Reflects H pass.doc arrived)
    (ha : Admissible H rows) (hn : Nested rows) (hnext : Next rows arrived key row)
    (hsrc : agentOf row = some agentId)
    (hroomy : (Finding.agent key agentId did row).Roomy H limits now pass) :
    Reflects H (applyAgentFinding H limits now true pass key agentId did row).doc (arrived ++ [(key, row)]) := by
  have hneutral : pass.doc.Neutral (ensureAgent H now true pass.doc agentId) := ensureAgent_neutral pass.doc agentId
  have hensured : Reflects H (ensureAgent H now true pass.doc agentId) arrived :=
    h.neutral hneutral fun other => rejectedBy_ensureAgent pass.doc agentId other
  obtain ⟨entry, hentry⟩ : ∃ entry, (ensureAgent H now true pass.doc agentId).agents.get? agentId = some entry := by
    rw [← Option.isSome_iff_exists]
    unfold ensureAgent
    split
    · rename_i hc
      simpa using hc
    · simp
  obtain ⟨hpaused, hrows, hbytes⟩ := hroomy entry hentry
  have hfree : entry.rejectedKeys.contains (H.rejectedKeyEntry (basename key)) = false := by
    rw [← Bool.not_eq_true, List.contains_iff_mem]
    exact fun hin => hensured.unrejected ha hnext hsrc (mem_rejectedBy hentry hin)
  simp only [ShareIndex.applyAgentFinding, hentry, hpaused, hfree, Option.isSome_none, Bool.or_self,
    Bool.false_eq_true, if_false, if_neg (not_le.mpr hrows), if_neg (Rat.not_lt.mpr hbytes)]
  split
  · rename_i heldBy hd
    have hrec : (ensureAgent H now true pass.doc agentId).Neutral (recordRejection H limits now true
        (ensureAgent H now true pass.doc agentId) agentId (basename key) .proof) := recordRejection_neutral ..
    refine hensured.refused hnext.new hd (fun e he => ha.unrevoked e (hnext.among e he)) (hnext.under hn)
      (.inl hrec.rows) (fun other d hd' => ?_) (isRetired_congr hrec.archives hrec.tombstones)
    rcases rejectedBy_recordRejection hd' with hd' | ⟨rfl, hdig⟩
    · exact .inl hd'
    · exact .inr ⟨hsrc, hdig⟩
  · rename_i displaced hd
    simp only [displaceAll_doc]
    refine hensured.admitted hnext.new hd (hnext.into hn) (fun k => ?_)
      (fun _ _ hd' => rejectedBy_admitAgent displaced hd') fun k => ?_
    · rw [modifyAgent_frame]
      exact displaceAll_setRow_rows _ key row k
    · rw [modifyAgent_frame]
      exact displaceAll_isRetired displaced k

lemma Reflects.applyWebFinding {pass : Pass} (h : Reflects H pass.doc arrived) (ha : Admissible H rows)
    (hn : Nested rows) (hnext : Next rows arrived key row) :
    Reflects H (applyWebFinding H limits now true pass key row).doc (arrived ++ [(key, row)]) := by
  unfold ShareIndex.applyWebFinding
  split
  · rename_i heldBy hd
    have hunrevoked : ∀ e ∈ arrived, e.2.revoked = false := fun e he => ha.unrevoked e (hnext.among e he)
    split
    · exact h.refused hnext.new hd hunrevoked (hnext.under hn) (.inr rfl) (fun _ _ hd' => .inl hd') fun _ => rfl
    · exact h.refused hnext.new hd hunrevoked (hnext.under hn) (.inl rfl) (fun _ _ hd' => .inl hd') fun _ => rfl
  · rename_i displaced hd
    simp only [displaceAll_doc]
    exact h.admitted hnext.new hd (hnext.into hn) (displaceAll_setRow_rows pass.doc key row)
      (fun _ _ hd' => rejectedBy_displaceAll displaced hd') (displaceAll_isRetired displaced)

lemma Reflects.applyFinding {pass : Pass} {finding : Finding} (h : Reflects H pass.doc arrived)
    (ha : Admissible H rows) (hn : Nested rows) (hnext : Next rows arrived key row)
    (harr : finding.arrival = some (key, row)) (hs : finding.Sourced) (hroomy : finding.Roomy H limits now pass) :
    Reflects H (applyFinding H limits now true pass finding).doc (arrived ++ [(key, row)]) := by
  cases finding with
  | web key' row' =>
    cases harr
    simp only [ShareIndex.applyFinding, h.new hnext.new, h.unretired, Option.isSome_none, Bool.or_self,
      Bool.false_eq_true, if_false]
    exact h.applyWebFinding ha hn hnext
  | agent key' agentId did row' =>
    cases harr
    simp only [ShareIndex.applyFinding, h.new hnext.new, h.unretired, Option.isSome_none, Bool.or_self,
      Bool.false_eq_true, if_false]
    exact h.applyAgentFinding ha hn hnext hs hroomy
  | reject agentId suffix reason => cases harr
  | newer agentId suffix recordV => cases harr
  | gc agentId => cases harr
  | clearNewer agentId => cases harr

end Admission

section Runs

lemma subperm_next {later : List (String × Row)} (ha : Admissible H rows)
    (h : (arrived ++ (key, row) :: later).Subperm rows) : Next rows arrived key row := by
  have hkeys : ((arrived ++ (key, row) :: later).map Prod.fst).Nodup := by
    obtain ⟨l, hperm, hsub⟩ := h
    exact (hperm.map Prod.fst).nodup_iff.mp (ha.keys.sublist (hsub.map Prod.fst))
  refine ⟨h.subset (by simp), fun hin => ?_, fun e he => h.subset (List.mem_append_left _ he)⟩
  rw [List.map_append, List.map_cons] at hkeys
  exact List.disjoint_of_nodup_append hkeys hin List.mem_cons_self

lemma Reflects.applyOps {batch : List ShareIndexOp} {later : List (String × Row)} (h : Reflects H doc arrived)
    (ha : Admissible H rows) (hn : Nested rows) (hb : ∀ op ∈ batch, op.body.arrival.isSome)
    (hsub : (arrived ++ (batch.filterMap (·.body.arrival) ++ later)).Subperm rows) :
    Reflects H (applyOps H limits now doc batch).1 (arrived ++ batch.filterMap (·.body.arrival)) := by
  induction batch generalizing doc arrived with
  | nil => simpa [ShareIndex.applyOps] using h
  | cons op batch ih =>
    obtain ⟨id, body⟩ := op
    obtain ⟨⟨key, row⟩, harr⟩ := Option.isSome_iff_exists.mp (hb _ List.mem_cons_self)
    have hbody : body = .upsert key row := by
      cases body <;> simp_all [OpBody.arrival]
    subst hbody
    rw [List.filterMap_cons_some (f := fun op : ShareIndexOp => op.body.arrival) harr, List.cons_append] at hsub
    have hstep : Reflects H (ShareIndex.applyOp H limits now true doc ⟨id, .upsert key row⟩).1 (arrived ++ [(key, row)]) :=
      h.applyOp ha hn (subperm_next ha hsub) id
    rw [List.filterMap_cons_some (f := fun op : ShareIndexOp => op.body.arrival) harr, List.append_cons]
    rw [List.append_cons] at hsub
    exact ih hstep (fun op' h' => hb op' (List.mem_cons_of_mem _ h')) hsub

lemma Reflects.applyFindings {found : List Finding} {later : List (String × Row)} {pass : Pass}
    (h : Reflects H pass.doc arrived) (ha : Admissible H rows) (hn : Nested rows)
    (hf : ∀ finding ∈ found, finding.arrival.isSome ∧ finding.Sourced) (hroomy : AllRoomy H limits now pass found)
    (hsub : (arrived ++ (found.filterMap (·.arrival) ++ later)).Subperm rows) :
    Reflects H (found.foldl (ShareIndex.applyFinding H limits now true) pass).doc
      (arrived ++ found.filterMap (·.arrival)) := by
  induction found generalizing pass arrived with
  | nil => simpa using h
  | cons finding found ih =>
    obtain ⟨harrives, hsourced⟩ := hf _ List.mem_cons_self
    obtain ⟨⟨key, row⟩, harr⟩ := Option.isSome_iff_exists.mp harrives
    rw [List.filterMap_cons_some harr, List.cons_append] at hsub
    have hstep := h.applyFinding ha hn (subperm_next ha hsub) harr hsourced hroomy.1
    rw [List.filterMap_cons_some harr, List.append_cons]
    rw [List.append_cons] at hsub
    exact ih hstep (fun f h' => hf f (List.mem_cons_of_mem _ h')) hroomy.2 hsub

lemma Reflects.apply {change : Change} {later : List (String × Row)} (h : Reflects H doc arrived)
    (ha : Admissible H rows) (hn : Nested rows) (hc : change.Admits) (hroomy : change.Uncapped H limits now doc)
    (hsub : (arrived ++ (change.arrivals ++ later)).Subperm rows) :
    Reflects H (change.apply H limits now doc).1 (arrived ++ change.arrivals) := by
  cases change with
  | ops batch => exact h.applyOps ha hn hc hsub
  | findings found cursor =>
    obtain ⟨hall, hfull⟩ := hroomy
    simp only [Change.apply] at hfull ⊢
    rw [hfull]
    have hstart : Reflects H (⟨doc, agentRowBytes H doc.rows, 0⟩ : Pass).doc arrived := h
    have hpass := hstart.applyFindings ha hn hc hall hsub
    exact ⟨hpass.live, hpass.apart, hpass.top, hpass.rejected, hpass.unretired⟩
  | statuses results => exact hc.elim
  | compaction groups expired => exact hc.elim

lemma Reflects.applyAll {changes : List (ℤ × Change)} (h : Reflects H doc arrived) (ha : Admissible H rows)
    (hn : Nested rows) (hc : ∀ change ∈ changes, change.2.Admits) (hroomy : UncappedRun H limits doc changes)
    (hsub : (arrived ++ arrivals changes).Subperm rows) :
    Reflects H (applyAll H limits doc changes) (arrived ++ arrivals changes) := by
  induction changes generalizing doc arrived with
  | nil => simpa [ShareIndex.applyAll, arrivals] using h
  | cons change changes ih =>
    obtain ⟨now, change⟩ := change
    have hcons : arrivals ((now, change) :: changes) = change.arrivals ++ arrivals changes := List.flatMap_cons
    rw [hcons] at hsub ⊢
    have hstep := h.apply ha hn (hc _ List.mem_cons_self) hroomy.1 hsub
    rw [← List.append_assoc] at hsub ⊢
    exact ih hstep (fun c h' => hc c (List.mem_cons_of_mem _ h')) hroomy.2 hsub

/-- Dates as they print, rows of one byte, and no hashing. -/
def sampleHost : Host where
  dateParse := String.toInt?
  toISOString := toString
  fullYear _ := "2026"
  bytesOf _ := 1
  headerBytes _ := 0
  rejectedKeyEntry := id

def sampleRow (src : Source) (ps : Option ProofState) (cc : List String) : Row where
  n := "Untitled share"
  k := "file"
  ak := "bearer"
  al := "Anyone with the link"
  a := []
  c := "1"
  x := "9"
  r := none
  rk := .delegation
  cid := none
  cc := some cc
  src := src
  ps := ps
  migrated := false
  na := false

/-- An unproven, a chained and a proven claim; the middle one overlaps with both others. -/
def sampleRows : List (String × Row) :=
  [("agents/A/a", sampleRow (.agent "A") (some .unproven) ["cid1"]),
    ("agents/B/b", sampleRow (.agent "B") (some .chained) ["cid1", "cid2"]),
    ("agents/C/c", sampleRow (.agent "C") (some .proven) ["cid2"])]

def sampleFindings : List Finding :=
  sampleRows.map fun e => .agent e.1 ((agentOf e.2).getD "") "did:key:agent" e.2

end Runs

end TinyCloud.ShareIndex
