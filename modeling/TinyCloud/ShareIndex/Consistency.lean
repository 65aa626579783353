import TinyCloud.ShareIndex.Document

/-!
# Consistent documents

Rows that claim a common CID are web rows, an agent's counter counts its rows, and no live row is
retired. Every change keeps a document consistent.
-/

namespace TinyCloud.ShareIndex

open TinyCloud.Collections

variable {H : Host} {limits : Limits} {now : ℤ} {grow : Bool} {doc doc' doc'' : Doc} {key k : String}
  {row row' : Row} {agentId : String}

section Neutral

def ofAgent (agentId : String) (row : Row) : Bool := agentOf row == some agentId

def Doc.counter (doc : Doc) (agentId : String) : ℕ := (doc.agents.get? agentId).elim 0 Agent.rows

/-- Only the agents' header state differs, and no row counter does. -/
structure Doc.Neutral (doc doc' : Doc) : Prop where
  frame : doc' = { doc with agents := doc'.agents }
  counter : ∀ agentId, doc'.counter agentId = doc.counter agentId

lemma Doc.Neutral.refl (doc : Doc) : doc.Neutral doc := ⟨rfl, fun _ => rfl⟩

lemma Doc.Neutral.trans (h : doc.Neutral doc') (h' : doc'.Neutral doc'') : doc.Neutral doc'' := by
  refine ⟨?_, fun agentId => (h'.counter agentId).trans (h.counter agentId)⟩
  rw [h'.frame, h.frame]

lemma Doc.Neutral.rows (h : doc.Neutral doc') : doc'.rows = doc.rows := by
  rw [h.frame]

lemma Doc.Neutral.archives (h : doc.Neutral doc') : doc'.archives = doc.archives := by
  rw [h.frame]

lemma Doc.Neutral.tombstones (h : doc.Neutral doc') : doc'.tombstones = doc.tombstones := by
  rw [h.frame]

lemma modifyAgent_frame (doc : Doc) (agentId : String) (f : Agent → Agent) :
    doc.modifyAgent agentId f = { doc with agents := (doc.modifyAgent agentId f).agents } := by
  unfold Doc.modifyAgent
  split <;> rfl

lemma modifyAgent_counter (doc : Doc) (agentId : String) (f : Agent → Agent) (other : String) :
    (doc.modifyAgent agentId f).counter other =
      if other = agentId then (doc.agents.get? agentId).elim 0 (fun entry => (f entry).rows)
      else doc.counter other := by
  unfold Doc.modifyAgent Doc.counter
  split
  · rename_i h
    split
    · rename_i ho
      simp [ho, h]
    · rfl
  · rename_i entry h
    simp only [Dict.get?_set]
    split <;> simp [h]

lemma modifyAgent_neutral (doc : Doc) (agentId : String) {f : Agent → Agent} (hf : ∀ entry, (f entry).rows = entry.rows) :
    doc.Neutral (doc.modifyAgent agentId f) := by
  refine ⟨modifyAgent_frame .., fun other => ?_⟩
  rw [modifyAgent_counter]
  split
  · rename_i h
    simp [Doc.counter, hf, h]
  · rfl

lemma ensureAgent_neutral (doc : Doc) (agentId : String) : doc.Neutral (ensureAgent H now grow doc agentId) := by
  unfold ensureAgent
  split
  · exact .refl doc
  · rename_i h
    simp only [Bool.or_eq_true, not_or, Bool.not_eq_true, Option.isSome_eq_false_iff, Option.isNone_iff_eq_none] at h
    refine ⟨rfl, fun other => ?_⟩
    simp only [Doc.counter, Dict.get?_set]
    split
    · rename_i ho
      simp [ho, h.1, newAgent]
    · rfl

@[simp] lemma reject_rows (entryKey : String) (reason : RejectReason) (entry : Agent) :
    (entry.reject H limits now entryKey reason).rows = entry.rows := by
  unfold Agent.reject
  split <;> rfl

@[simp] lemma noteNewer_rows (entryKey : String) (recordV : ℕ) (entry : Agent) :
    (entry.noteNewer H limits now entryKey recordV).rows = entry.rows := by
  unfold Agent.noteNewer
  simp only
  split
  · rfl
  · split <;> rfl

@[simp] lemma release_rows (action : AgentAction) (entry : Agent) : (entry.release action).rows = entry.rows := by
  cases action <;> rfl

@[simp] lemma pauseAtCap_rows (entry : Agent) : (entry.pauseAtCap H limits now).rows = entry.rows := by
  unfold Agent.pauseAtCap
  split <;> rfl

lemma recordRejection_neutral (doc : Doc) (agentId suffix : String) (reason : RejectReason) :
    doc.Neutral (recordRejection H limits now grow doc agentId suffix reason) := by
  have hensured : doc.Neutral (ensureAgent H now grow doc agentId) := ensureAgent_neutral doc agentId
  unfold recordRejection
  simp only
  split
  · exact hensured.trans (modifyAgent_neutral _ _ (reject_rows _ _))
  · exact hensured

end Neutral

section Removal

/-- The row of a key is gone, its agent's counter has followed, and the rest is as it was. -/
structure Doc.Drops (doc doc' : Doc) (key : String) (row : Row) : Prop where
  frame : doc' = { doc with
    agents := doc'.agents
    rows := doc.rows.delete key }
  counter : ∀ agentId, doc'.counter agentId = doc.counter agentId - if ofAgent agentId row then 1 else 0

lemma Doc.Drops.neutral (h : doc.Drops doc' key row) (h' : doc'.Neutral doc'') : doc.Drops doc'' key row := by
  refine ⟨?_, fun agentId => (h'.counter agentId).trans (h.counter agentId)⟩
  rw [h'.frame, h.frame]

lemma dropRow_drops (key : String) (doc : Doc) (h : agentOf row = some agentId) :
    doc.Drops ((doc.removeRow key).modifyAgent agentId Agent.dropRow) key row := by
  refine ⟨?_, fun other => ?_⟩
  · rw [modifyAgent_frame]
    rfl
  · rw [modifyAgent_counter, ofAgent, h]
    split
    · rename_i ho
      subst ho
      simp only [beq_self_eq_true, if_true]
      change (doc.agents.get? other).elim 0 (fun entry => entry.dropRow.rows) = _
      unfold Doc.counter
      cases doc.agents.get? other <;> rfl
    · rename_i ho
      have hne : (some agentId == some other) = false := by simpa using Ne.symm ho
      rw [hne]
      rfl

lemma drops_of_web (doc : Doc) (h : agentOf row = none) : doc.Drops (doc.removeRow key) key row := by
  refine ⟨rfl, fun other => ?_⟩
  simp only [ofAgent, h]
  rfl

lemma displaceForDelete_drops (doc : Doc) (key : String) (row : Row) :
    doc.Drops (displaceForDelete doc key row) key row := by
  unfold displaceForDelete
  simp only
  split
  · rename_i h
    exact drops_of_web doc h
  · rename_i agentId h
    exact dropRow_drops key doc h

lemma ensureAgent_removeRow (doc : Doc) (key agentId : String) :
    ensureAgent H now grow (doc.removeRow key) agentId = (ensureAgent H now grow doc agentId).removeRow key := by
  unfold ensureAgent
  change (if ((doc.agents.get? agentId).isSome || !grow) = true then _ else _) = _
  split <;> rfl

lemma displace_drops (h : doc.rows.get? key = some row) :
    doc.Drops (displace H limits now grow doc key) key row := by
  unfold displace
  rw [h]
  simp only
  split
  · rename_i ha
    exact drops_of_web doc ha
  · rename_i agentId ha
    have hensured : doc.Neutral (ensureAgent H now grow doc agentId) := ensureAgent_neutral doc agentId
    rw [ensureAgent_removeRow]
    have hdrop := dropRow_drops key (ensureAgent H now grow doc agentId) ha
    have hdropped : doc.Drops
        (((ensureAgent H now grow doc agentId).removeRow key).modifyAgent agentId Agent.dropRow) key row := by
      refine ⟨?_, fun other => ?_⟩
      · rw [hdrop.frame, hensured.frame]
      · rw [hdrop.counter, hensured.counter]
    exact hdropped.neutral (recordRejection_neutral ..)

lemma displace_absent (h : doc.rows.get? key = none) : displace H limits now grow doc key = doc := by
  unfold displace
  rw [h]

lemma displace_rows (doc : Doc) (key : String) :
    (displace H limits now grow doc key).rows.get? k = if k = key then none else doc.rows.get? k := by
  cases h : doc.rows.get? key with
  | none =>
    rw [displace_absent h]
    split
    · rename_i hk
      rw [hk, h]
    · rfl
  | some row => rw [(displace_drops h).frame, Dict.get?_delete]

lemma Doc.Drops.retired (h : doc.Drops doc' key row) :
    doc'.archives = doc.archives ∧ doc'.tombstones = doc.tombstones := by
  rw [h.frame]
  exact ⟨rfl, rfl⟩

lemma displace_retired (H : Host) (limits : Limits) (now : ℤ) (grow : Bool) (doc : Doc) (key : String) :
    (displace H limits now grow doc key).archives = doc.archives ∧
      (displace H limits now grow doc key).tombstones = doc.tombstones := by
  cases h : doc.rows.get? key with
  | none =>
    rw [displace_absent h]
    exact ⟨rfl, rfl⟩
  | some row => exact (displace_drops h).retired

lemma displaceAll_rows (displaced : List String) (doc : Doc) :
    (displaced.foldl (displace H limits now grow) doc).rows.get? k =
      if k ∈ displaced then none else doc.rows.get? k := by
  induction displaced generalizing doc with
  | nil => rfl
  | cons key displaced ih =>
    rw [List.foldl_cons, ih, displace_rows]
    by_cases hk : k = key
    · simp [hk]
    · simp [hk]

lemma displaceAll_retired (H : Host) (limits : Limits) (now : ℤ) (grow : Bool) (displaced : List String) (doc : Doc) :
    (displaced.foldl (displace H limits now grow) doc).archives = doc.archives ∧
      (displaced.foldl (displace H limits now grow) doc).tombstones = doc.tombstones := by
  induction displaced generalizing doc with
  | nil => exact ⟨rfl, rfl⟩
  | cons key displaced ih =>
    obtain ⟨ha, ht⟩ := ih (displace H limits now grow doc key)
    obtain ⟨ha', ht'⟩ := displace_retired H limits now grow doc key
    exact ⟨ha.trans ha', ht.trans ht'⟩

end Removal

section Entered

def Doc.Entered (doc : Doc) (agentId : String) : Prop := (doc.agents.get? agentId).isSome = true

lemma entered_modifyAgent (h : doc.Entered agentId) (other : String) (f : Agent → Agent) :
    (doc.modifyAgent other f).Entered agentId := by
  unfold Doc.modifyAgent
  split
  · exact h
  · simp only [Doc.Entered, Dict.get?_set]
    split
    · rfl
    · exact h

lemma entered_ensureAgent (h : doc.Entered agentId) (other : String) :
    (ensureAgent H now grow doc other).Entered agentId := by
  unfold ensureAgent
  split
  · exact h
  · simp only [Doc.Entered, Dict.get?_set]
    split
    · rfl
    · exact h

lemma entered_displace (h : doc.Entered agentId) (key : String) :
    (displace H limits now grow doc key).Entered agentId := by
  unfold displace
  split
  · exact h
  · have hrem : (doc.removeRow key).Entered agentId := h
    simp only
    split
    · exact hrem
    · unfold recordRejection
      simp only
      split
      · apply entered_modifyAgent
        apply entered_ensureAgent
        apply entered_modifyAgent
        exact entered_ensureAgent hrem _
      · apply entered_ensureAgent
        apply entered_modifyAgent
        exact entered_ensureAgent hrem _

lemma entered_displaceAll (H : Host) (limits : Limits) (now : ℤ) (grow : Bool) (displaced : List String)
    (h : doc.Entered agentId) :
    (displaced.foldl (displace H limits now grow) doc).Entered agentId := by
  induction displaced generalizing doc with
  | nil => exact h
  | cons key displaced ih => exact ih (entered_displace h key)

end Entered

section Consistent

structure Doc.Consistent (doc : Doc) : Prop where
  rivals : ∀ k k' row row', doc.rows.get? k = some row → doc.rows.get? k' = some row' → k ≠ k' →
    ¬ Rivals row row'
  counted : ∀ agentId, doc.counter agentId = doc.rows.count (ofAgent agentId)
  retired : ∀ k row, doc.rows.get? k = some row → doc.isRetired k = false

lemma isRetired_congr (ha : doc'.archives = doc.archives) (ht : doc'.tombstones = doc.tombstones) (k : String) :
    doc'.isRetired k = doc.isRetired k := by
  unfold Doc.isRetired Doc.isTombstoned Doc.isArchived
  rw [ha, ht]

lemma Doc.Consistent.neutral (h : doc.Consistent) (hn : doc.Neutral doc') : doc'.Consistent := by
  constructor
  · rw [hn.rows]
    exact h.rivals
  · intro agentId
    rw [hn.rows, hn.counter, h.counted]
  · intro k row
    rw [hn.rows, isRetired_congr hn.archives hn.tombstones]
    exact h.retired k row

lemma Doc.Drops.counted (h : doc.Drops doc' key row) (hrow : doc.rows.get? key = some row)
    (hc : ∀ agentId, doc.counter agentId = doc.rows.count (ofAgent agentId)) (agentId : String) :
    doc'.counter agentId = doc'.rows.count (ofAgent agentId) := by
  have hrows : doc'.rows = doc.rows.delete key := by rw [h.frame]
  have hcount := doc.rows.count_delete (p := ofAgent agentId) hrow
  rw [h.counter, hc, hrows]
  omega

/-- Fewer rows, of which none is newly retired. -/
lemma Doc.Consistent.shrink (h : doc.Consistent)
    (hrows : ∀ k row, doc'.rows.get? k = some row → doc.rows.get? k = some row ∧ doc'.isRetired k = false)
    (hc : ∀ agentId, doc'.counter agentId = doc'.rows.count (ofAgent agentId)) : doc'.Consistent := by
  refine ⟨fun k k' row row' hk hk' => ?_, hc, fun k row hk => (hrows k row hk).2⟩
  exact h.rivals k k' row row' (hrows k row hk).1 (hrows k' row' hk').1

lemma Doc.Consistent.drops (h : doc.Consistent) (hd : doc.Drops doc' key row) (hrow : doc.rows.get? key = some row) :
    doc'.Consistent := by
  refine h.shrink (fun k other hk => ?_) (hd.counted hrow h.counted)
  have hrows : doc'.rows = doc.rows.delete key := by rw [hd.frame]
  rw [hrows, Dict.get?_delete] at hk
  split at hk
  · cases hk
  · rw [isRetired_congr hd.retired.1 hd.retired.2]
    exact ⟨hk, h.retired k other hk⟩

lemma Doc.Consistent.displace (h : doc.Consistent) (key : String) :
    (displace H limits now grow doc key).Consistent := by
  cases hrow : doc.rows.get? key with
  | none =>
    rw [displace_absent hrow]
    exact h
  | some row => exact h.drops (displace_drops hrow) hrow

lemma Doc.Consistent.displaceAll (h : doc.Consistent) (displaced : List String) :
    (displaced.foldl (ShareIndex.displace H limits now grow) doc).Consistent := by
  induction displaced generalizing doc with
  | nil => exact h
  | cons key displaced ih => exact ih (h.displace key)

/-- A row that no live row rivals is added at a new key. -/
lemma Doc.Consistent.add (h : doc.Consistent) (hnew : doc.rows.get? key = none) (hret : doc.isRetired key = false)
    (hfree : ∀ k other, doc.rows.get? k = some other → ¬ Rivals row other)
    (hrows : doc'.rows = doc.rows.set key row) (hretired : ∀ k, doc'.isRetired k = doc.isRetired k)
    (hc : ∀ agentId, doc'.counter agentId = doc.counter agentId + if ofAgent agentId row then 1 else 0) :
    doc'.Consistent := by
  constructor
  · intro k k' r r' hk hk' hne
    rw [hrows, Dict.get?_set] at hk hk'
    split at hk
    · cases hk
      rename_i hkey
      rw [if_neg (by rintro rfl; exact hne hkey)] at hk'
      exact hfree k' r' hk'
    · split at hk'
      · cases hk'
        exact fun hr => hfree k r hk hr.symm
      · exact h.rivals k k' r r' hk hk' hne
  · intro agentId
    rw [hc, h.counted, hrows, Dict.count_set_new _ hnew]
  · intro k r hk
    rw [hretired]
    rw [hrows, Dict.get?_set] at hk
    split at hk
    · rename_i hkey
      rw [hkey]
      exact hret
    · exact h.retired k r hk

/-- The fields that decide claims and counters. -/
structure Row.SameClaim (row row' : Row) : Prop where
  cc : row'.cc = row.cc
  src : row'.src = row.src
  migrated : row'.migrated = row.migrated
  ps : row'.ps = row.ps

lemma Row.SameClaim.isWebRow (h : row.SameClaim row') : isWebRow row' = isWebRow row := by
  unfold ShareIndex.isWebRow
  rw [h.src, h.migrated]

lemma Row.SameClaim.claims (h : row.SameClaim row') : row'.claims = row.claims := by
  unfold Row.claims
  rw [h.cc]

lemma Row.SameClaim.rank (h : row.SameClaim row') : claimRank row' = claimRank row := by
  unfold claimRank
  rw [h.isWebRow, h.ps]

lemma Row.SameClaim.rivals (h : row.SameClaim row') (other : Row) : Rivals row' other ↔ Rivals row other := by
  unfold Rivals
  rw [h.claims, h.isWebRow]

lemma Row.SameClaim.ofAgent (h : row.SameClaim row') (agentId : String) : ofAgent agentId row' = ofAgent agentId row := by
  unfold ShareIndex.ofAgent agentOf
  rw [h.src]

lemma Doc.Consistent.setRow (h : doc.Consistent) (hrow : doc.rows.get? key = some row) (hs : row.SameClaim row') :
    (doc.setRow key row').Consistent := by
  constructor
  · intro k k' r r' hk hk' hne
    change (doc.rows.set key row').get? k = _ at hk
    change (doc.rows.set key row').get? k' = _ at hk'
    rw [Dict.get?_set] at hk hk'
    split at hk
    · cases hk
      rename_i hkey
      rw [if_neg (by rintro rfl; exact hne hkey)] at hk'
      rw [hs.rivals]
      exact h.rivals key k' row r' hrow hk' (hkey ▸ hne)
    · split at hk'
      · cases hk'
        rename_i hkey
        intro hr
        exact h.rivals k key r row hk hrow (hkey ▸ hne) ((hs.rivals r).mp hr.symm).symm
      · exact h.rivals k k' r r' hk hk' hne
  · intro agentId
    exact (h.counted agentId).trans (Dict.count_set_same _ hrow (hs.ofAgent agentId)).symm
  · intro k r hk
    change (doc.rows.set key row').get? k = _ at hk
    rw [Dict.get?_set] at hk
    split at hk
    · rename_i hkey
      rw [hkey]
      exact h.retired key row hrow
    · exact h.retired k r hk

end Consistent

section Changes

/-- Web clients enqueue web rows; a finding's row comes from the layout its key lies in. -/
def OpBody.Sourced : OpBody → Prop
  | .upsert _ row => agentOf row = none
  | _ => True

def Finding.Sourced : Finding → Prop
  | .web _ row => agentOf row = none
  | .agent _ agentId _ row => agentOf row = some agentId
  | _ => True

def Change.Sourced : Change → Prop
  | .ops batch => ∀ op ∈ batch, op.body.Sourced
  | .findings found _ => ∀ finding ∈ found, finding.Sourced
  | _ => True

lemma admitted_free {displaced : List String} (hnew : doc.rows.get? key = none)
    (hd : decideClaim doc.rows key row = .admit_ displaced) (k : String) (other : Row)
    (hk : (displaced.foldl (displace H limits now grow) doc).rows.get? k = some other) : ¬ Rivals row other := by
  rw [displaceAll_rows] at hk
  split at hk
  · cases hk
  · rename_i hout
    intro hr
    apply hout
    apply ((decideClaim_admitted hd).1 k).mpr
    refine ⟨other, hk, ?_, hr⟩
    rintro rfl
    rw [hnew] at hk
    cases hk

lemma displaceAll_new {displaced : List String} (hnew : doc.rows.get? key = none) :
    (displaced.foldl (displace H limits now grow) doc).rows.get? key = none := by
  rw [displaceAll_rows, hnew, ite_self]

lemma displaceAll_isRetired (displaced : List String) (k : String) :
    (displaced.foldl (displace H limits now grow) doc).isRetired k = doc.isRetired k := by
  obtain ⟨ha, ht⟩ := displaceAll_retired H limits now grow displaced doc
  exact isRetired_congr ha ht k

lemma Doc.Consistent.admitWeb {displaced : List String} (h : doc.Consistent) (hnew : doc.rows.get? key = none)
    (hret : doc.isRetired key = false) (hd : decideClaim doc.rows key row = .admit_ displaced)
    (hsrc : agentOf row = none) :
    ((displaced.foldl (ShareIndex.displace H limits now grow) doc).setRow key row).Consistent := by
  have hall : (displaced.foldl (ShareIndex.displace H limits now grow) doc).Consistent := h.displaceAll displaced
  refine hall.add (displaceAll_new hnew) ((displaceAll_isRetired displaced key).trans hret)
    (admitted_free hnew hd) ?_ ?_ ?_
  · rfl
  · exact fun _ => rfl
  · intro agentId
    rw [ofAgent, hsrc]
    rfl

lemma addRow_rows (did : String) (entry : Agent) :
    ((entry.addRow did).pauseAtCap H limits now).rows = entry.rows + 1 := by
  rw [pauseAtCap_rows]
  rfl

lemma Doc.Consistent.admitAgent {displaced : List String} (h : doc.Consistent) (hnew : doc.rows.get? key = none)
    (hret : doc.isRetired key = false) (hd : decideClaim doc.rows key row = .admit_ displaced)
    (hsrc : agentOf row = some agentId) (hentry : doc.Entered agentId) (did : String) :
    (((displaced.foldl (ShareIndex.displace H limits now grow) doc).setRow key row).modifyAgent agentId
      fun entry => (entry.addRow did).pauseAtCap H limits now).Consistent := by
  have hframe := modifyAgent_frame ((displaced.foldl (ShareIndex.displace H limits now grow) doc).setRow key row)
    agentId fun entry => (entry.addRow did).pauseAtCap H limits now
  have hall : (displaced.foldl (ShareIndex.displace H limits now grow) doc).Consistent := h.displaceAll displaced
  refine hall.add (displaceAll_new hnew) ((displaceAll_isRetired displaced key).trans hret)
    (admitted_free hnew hd) ?_ ?_ ?_
  · rw [hframe]
    rfl
  · intro k
    rw [hframe]
    rfl
  · intro other
    rw [modifyAgent_counter, ofAgent, hsrc]
    have hin := entered_displaceAll H limits now grow displaced hentry
    unfold Doc.Entered at hin
    change (if other = agentId then
      ((displaced.foldl (ShareIndex.displace H limits now grow) doc).agents.get? agentId).elim 0 _ else _) = _
    obtain ⟨entry, he⟩ := Option.isSome_iff_exists.mp hin
    split
    · rename_i ho
      rw [he, ho, beq_self_eq_true, if_pos rfl, Doc.counter, he]
      exact addRow_rows did entry
    · rename_i ho
      have hne : (some agentId == some other) = false := by simpa using Ne.symm ho
      rw [hne]
      rfl

lemma Doc.Consistent.applyOp (h : doc.Consistent) (op : ShareIndexOp) (hs : op.body.Sourced) :
    (applyOp H limits now grow doc op).1.Consistent := by
  unfold ShareIndex.applyOp
  split
  · split
    · exact h
    · exact h.neutral (modifyAgent_neutral _ _ (release_rows _))
  · rename_i key row hbody
    rw [hbody] at hs
    split
    · exact h
    · rename_i hret
      split
      · exact h
      · rename_i hnew
        split
        · exact h
        · rename_i displaced hd
          exact h.admitWeb hnew (by simpa using hret) hd hs
  · split
    · exact h
    · rename_i key at_ confirmed _ row hrow
      apply h.setRow hrow
      unfold revokedRow
      split <;> exact ⟨rfl, rfl, rfl, rfl⟩
  · rename_i key _
    split
    · exact h
    · rename_i row hrow
      split
      · have hd := displaceForDelete_drops doc key row
        have hdropped := h.drops hd hrow
        have hrows : (displaceForDelete doc key row).rows = doc.rows.delete key := by rw [hd.frame]
        refine hdropped.shrink (fun k other hk => ⟨hk, ?_⟩) hdropped.counted
        have hne : k ≠ key := by
          rintro rfl
          change (displaceForDelete doc k row).rows.get? k = _ at hk
          rw [hrows, Dict.get?_delete_self] at hk
          cases hk
        have hout := hdropped.retired k other hk
        simp only [Doc.isRetired, Doc.isTombstoned, Doc.isArchived, Bool.or_eq_false_iff, List.any_append,
          List.any_cons, List.any_nil, Bool.or_false] at hout ⊢
        exact ⟨⟨hout.1, by simpa using Ne.symm hne⟩, hout.2⟩
      · exact h

lemma Doc.Consistent.applyOps (h : doc.Consistent) (batch : List ShareIndexOp) (hs : ∀ op ∈ batch, op.body.Sourced) :
    (applyOps H limits now doc batch).1.Consistent := by
  induction batch generalizing doc with
  | nil => exact h
  | cons op batch ih =>
    exact ih (h.applyOp op (hs op List.mem_cons_self)) (fun op' h' => hs op' (List.mem_cons_of_mem _ h'))

lemma displaceAll_doc (pass : Pass) (displaced : List String) :
    (pass.displaceAll H limits now grow displaced).doc = displaced.foldl (displace H limits now grow) pass.doc := by
  unfold Pass.displaceAll
  induction displaced generalizing pass with
  | nil => rfl
  | cons key displaced ih => exact ih _

lemma entered_ensure (hgrow : ((ensureAgent H now grow doc agentId).agents.get? agentId) = some entry) :
    (ensureAgent H now grow doc agentId).Entered agentId := by
  rw [Doc.Entered, hgrow]
  rfl

lemma Doc.Consistent.applyAgentFinding {pass : Pass} (h : pass.doc.Consistent) (hnew : pass.doc.rows.get? key = none)
    (hret : pass.doc.isRetired key = false) (hsrc : agentOf row = some agentId) (did : String) :
    (applyAgentFinding H limits now grow pass key agentId did row).doc.Consistent := by
  have hn : pass.doc.Neutral (ensureAgent H now grow pass.doc agentId) := ensureAgent_neutral pass.doc agentId
  have hensured := h.neutral hn
  have hnew' : (ensureAgent H now grow pass.doc agentId).rows.get? key = none := by rw [hn.rows, hnew]
  have hret' : (ensureAgent H now grow pass.doc agentId).isRetired key = false := by
    rw [isRetired_congr hn.archives hn.tombstones, hret]
  unfold ShareIndex.applyAgentFinding
  simp only
  split
  · exact hensured
  · rename_i entry hentry
    split_ifs
    · exact hensured
    · exact hensured.neutral (modifyAgent_neutral _ _ pauseAtCap_rows)
    · exact hensured
    · split
      · exact hensured.neutral (recordRejection_neutral ..)
      · rename_i displaced hd
        simp only [displaceAll_doc]
        exact hensured.admitAgent hnew' hret' hd hsrc (entered_ensure hentry) did

lemma rivals_claimless (row other : Row) : ¬ Rivals row.claimless other := by
  rintro ⟨⟨cid, hcid, -⟩, -⟩
  cases hcid

lemma Doc.Consistent.applyWebFinding {pass : Pass} (h : pass.doc.Consistent) (hnew : pass.doc.rows.get? key = none)
    (hret : pass.doc.isRetired key = false) (hsrc : agentOf row = none) :
    (applyWebFinding H limits now grow pass key row).doc.Consistent := by
  unfold ShareIndex.applyWebFinding
  split
  · split
    · refine h.add hnew hret (fun _ other _ => rivals_claimless row other) ?_ ?_ ?_
      · rfl
      · exact fun _ => rfl
      · intro agentId
        have hsrc' : agentOf row.claimless = none := hsrc
        rw [ofAgent, hsrc']
        rfl
    · exact h
  · rename_i displaced hd
    simp only [displaceAll_doc]
    exact h.admitWeb hnew hret hd hsrc

lemma Doc.Consistent.applyFinding {pass : Pass} (h : pass.doc.Consistent) (finding : Finding) (hs : finding.Sourced) :
    (applyFinding H limits now grow pass finding).doc.Consistent := by
  cases finding with
  | web key row =>
    simp only [ShareIndex.applyFinding]
    split
    · exact h
    · rename_i hc
      simp only [Bool.or_eq_true, not_or, Bool.not_eq_true, Option.isSome_eq_false_iff, Option.isNone_iff_eq_none] at hc
      exact h.applyWebFinding hc.1 hc.2 hs
  | agent key agentId did row =>
    simp only [ShareIndex.applyFinding]
    split
    · exact h
    · rename_i hc
      simp only [Bool.or_eq_true, not_or, Bool.not_eq_true, Option.isSome_eq_false_iff, Option.isNone_iff_eq_none] at hc
      exact h.applyAgentFinding hc.1 hc.2 hs did
  | reject agentId suffix reason => exact h.neutral (recordRejection_neutral ..)
  | newer agentId suffix recordV =>
    have hensured : pass.doc.Neutral (ensureAgent H now grow pass.doc agentId) := ensureAgent_neutral pass.doc agentId
    simp only [ShareIndex.applyFinding]
    split
    · exact h.neutral (hensured.trans (modifyAgent_neutral _ _ (noteNewer_rows _ _)))
    · exact h.neutral hensured
  | gc agentId =>
    simp only [ShareIndex.applyFinding]
    split
    · exact h
    · rename_i entry hentry
      split
      · rename_i hzero
        refine h.neutral ⟨rfl, fun other => ?_⟩
        simp only [Doc.counter, Dict.get?_delete]
        split
        · rename_i ho
          simp [ho, hentry, hzero]
        · rfl
      · exact h
  | clearNewer agentId => exact h.neutral (modifyAgent_neutral _ _ (fun _ => rfl))

lemma Doc.Consistent.applyFindings (h : doc.Consistent) (H : Host) (limits : Limits) (now : ℤ) (grow : Bool)
    (found : List Finding) (hs : ∀ finding ∈ found, finding.Sourced) :
    (applyFindings H limits now grow doc found).doc.Consistent := by
  unfold ShareIndex.applyFindings
  generalize (⟨doc, _, 0⟩ : Pass).agentBytes = bytes
  suffices hall : ∀ pass : Pass, pass.doc.Consistent →
      (found.foldl (ShareIndex.applyFinding H limits now grow) pass).doc.Consistent from hall _ h
  induction found with
  | nil => exact fun _ hp => hp
  | cons finding found ih =>
    intro pass hp
    exact ih (fun f hf => hs f (List.mem_cons_of_mem _ hf)) _ (hp.applyFinding finding (hs finding List.mem_cons_self))

lemma Doc.Consistent.applyStatus (h : doc.Consistent) (result : String × Bool) :
    (applyStatus H now doc result).Consistent := by
  unfold ShareIndex.applyStatus
  split
  · exact h
  · rename_i row hrow
    split_ifs
    · exact h
    · exact h.setRow hrow ⟨rfl, rfl, rfl, rfl⟩
    · exact h.setRow hrow ⟨rfl, rfl, rfl, rfl⟩
    · exact h

lemma Doc.Consistent.applyStatuses (h : doc.Consistent) (results : List (String × Bool)) :
    (results.foldl (ShareIndex.applyStatus H now) doc).Consistent := by
  induction results generalizing doc with
  | nil => exact h
  | cons result results ih => exact ih (h.applyStatus result)

lemma removeLive_rows (doc : Doc) (key : String) :
    (removeLive doc key).rows.get? k = if k = key then none else doc.rows.get? k := by
  unfold removeLive
  cases h : doc.rows.get? key with
  | none =>
    simp only
    split
    · rename_i hk
      rw [hk, h]
    · rfl
  | some row =>
    simp only
    rw [(displaceForDelete_drops doc key row).frame, Dict.get?_delete]

lemma removeLive_retired (doc : Doc) (key : String) :
    (removeLive doc key).archives = doc.archives ∧ (removeLive doc key).tombstones = doc.tombstones := by
  unfold removeLive
  split
  · exact ⟨rfl, rfl⟩
  · exact (displaceForDelete_drops ..).retired

lemma removeAll_rows (keys : List String) (doc : Doc) :
    (keys.foldl removeLive doc).rows.get? k = if k ∈ keys then none else doc.rows.get? k := by
  induction keys generalizing doc with
  | nil => rfl
  | cons key keys ih =>
    rw [List.foldl_cons, ih, removeLive_rows]
    by_cases hk : k = key
    · simp [hk]
    · simp [hk]

lemma removeAll_retired (keys : List String) (doc : Doc) :
    (keys.foldl removeLive doc).archives = doc.archives ∧ (keys.foldl removeLive doc).tombstones = doc.tombstones := by
  induction keys generalizing doc with
  | nil => exact ⟨rfl, rfl⟩
  | cons key keys ih =>
    obtain ⟨ha, ht⟩ := ih (removeLive doc key)
    obtain ⟨ha', ht'⟩ := removeLive_retired doc key
    exact ⟨ha.trans ha', ht.trans ht'⟩

lemma removeAll_counted (keys : List String) (doc : Doc)
    (hc : ∀ agentId, doc.counter agentId = doc.rows.count (ofAgent agentId)) (agentId : String) :
    (keys.foldl removeLive doc).counter agentId = (keys.foldl removeLive doc).rows.count (ofAgent agentId) := by
  induction keys generalizing doc with
  | nil => exact hc agentId
  | cons key keys ih =>
    apply ih
    unfold removeLive
    split
    · exact hc
    · rename_i row hrow
      exact (displaceForDelete_drops doc key row).counted hrow hc

lemma mem_addIds {ids keys : List String} : k ∈ addIds ids keys ↔ k ∈ ids ∨ k ∈ keys := by
  unfold addIds
  induction keys generalizing ids with
  | nil => simp
  | cons key keys ih =>
    rw [List.foldl_cons, ih, List.mem_cons, ← or_assoc]
    apply or_congr_left
    split
    · rename_i hin
      rw [List.contains_iff_mem] at hin
      exact ⟨.inl, fun h => h.elim id fun he => he ▸ hin⟩
    · simp

lemma mem_addArchive {name : String} {keys : List String} {archives : List Archive} :
    (∃ archive ∈ addArchive name keys archives, k ∈ archive.ids) ↔ (∃ archive ∈ archives, k ∈ archive.ids) ∨ k ∈ keys := by
  induction archives with
  | nil => simp [addArchive, mem_addIds]
  | cons archive archives ih =>
    unfold addArchive
    split
    · simp only [List.exists_mem_cons_iff, mem_addIds]
      exact or_right_comm
    · rw [List.exists_mem_cons_iff, ih, List.exists_mem_cons_iff, or_assoc]

lemma isArchived_iff : doc.isArchived k = true ↔ ∃ archive ∈ doc.archives, k ∈ archive.ids := by
  simp [Doc.isArchived]

lemma isTombstoned_iff : doc.isTombstoned k = true ↔ ∃ tombstone ∈ doc.tombstones, tombstone.key = k := by
  simp [Doc.isTombstoned]

lemma retireGroup_rows (doc : Doc) (group : Group) :
    (retireGroup doc group).rows.get? k = if k ∈ group.rows.keys then none else doc.rows.get? k :=
  removeAll_rows ..

lemma retireGroup_archives (doc : Doc) (group : Group) :
    (retireGroup doc group).archives = addArchive group.name group.rows.keys doc.archives :=
  (removeAll_retired ..).1

lemma retireGroup_tombstones (doc : Doc) (group : Group) : (retireGroup doc group).tombstones = doc.tombstones :=
  (removeAll_retired ..).2

lemma Doc.Consistent.retireGroup (h : doc.Consistent) (group : Group) : (retireGroup doc group).Consistent := by
  refine h.shrink (fun k row hk => ?_) (removeAll_counted _ _ h.counted)
  rw [retireGroup_rows] at hk
  split at hk
  · cases hk
  · rename_i hout
    refine ⟨hk, ?_⟩
    have hret := h.retired k row hk
    rw [Doc.isRetired, Bool.or_eq_false_iff, ← Bool.not_eq_true, ← Bool.not_eq_true, isTombstoned_iff,
      isArchived_iff] at hret ⊢
    rw [retireGroup_tombstones, retireGroup_archives, mem_addArchive]
    exact ⟨hret.1, fun h => h.elim hret.2 hout⟩

lemma Doc.Consistent.retireGroups (h : doc.Consistent) (groups : List Group) :
    (groups.foldl ShareIndex.retireGroup doc).Consistent := by
  induction groups generalizing doc with
  | nil => exact h
  | cons group groups ih => exact ih (h.retireGroup group)

lemma Doc.Consistent.dropTombstones (h : doc.Consistent) (p : Tombstone → Bool) :
    Doc.Consistent { doc with tombstones := doc.tombstones.filter p } := by
  refine h.shrink (fun k row hk => ⟨hk, ?_⟩) h.counted
  have hret := h.retired k row hk
  rw [Doc.isRetired, Bool.or_eq_false_iff, ← Bool.not_eq_true, ← Bool.not_eq_true, isTombstoned_iff,
    isArchived_iff] at hret ⊢
  exact ⟨fun ⟨t, ht, hkey⟩ => hret.1 ⟨t, List.mem_of_mem_filter ht, hkey⟩, hret.2⟩

theorem Doc.Consistent.apply (h : doc.Consistent) (change : Change) (hs : change.Sourced) :
    (change.apply H limits now doc).1.Consistent := by
  cases change with
  | ops batch => exact h.applyOps batch hs
  | findings found cursor =>
    simp only [Change.apply]
    have hfound := h.applyFindings H limits now (!(decide (limits.headerBytes <
      H.headerBytes (ShareIndex.applyFindings H limits now true doc found).doc) && decide (H.headerBytes doc <
      H.headerBytes (ShareIndex.applyFindings H limits now true doc found).doc))) found hs
    exact ⟨hfound.rivals, hfound.counted, hfound.retired⟩
  | statuses results => exact h.applyStatuses results
  | compaction groups expired => exact (h.retireGroups groups).dropTombstones _

end Changes

end TinyCloud.ShareIndex
