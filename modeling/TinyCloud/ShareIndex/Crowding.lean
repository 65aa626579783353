import Mathlib.Algebra.GroupWithZero.Nat
import Mathlib.Algebra.Order.Ring.Rat
import Mathlib.Data.Finset.Card
import TinyCloud.ShareIndex.Ownership

/-!
# What agents can take from the owner

One pass over a list of findings: the bytes that agent rows may take, the live rows of one agent, what
a refused key adds to its agent's counts, and that the owner's own rows stay.
-/

namespace TinyCloud.ShareIndex

open TinyCloud.Collections

variable {H : Host} {limits : Limits} {now : ℤ} {grow : Bool} {doc doc' : Doc} {key k : String} {row : Row}
  {agentId : String} {pass : Pass}

section Step

/-- What one finding does to rows, to their counters and to the bytes the pass counts. -/
inductive FindingStep (H : Host) (limits : Limits) (now : ℤ) (grow : Bool) (pass pass' : Pass) : Finding → Prop
  | quiet {finding : Finding} (hrows : pass'.doc.rows = pass.doc.rows) (hbytes : pass'.agentBytes = pass.agentBytes)
      (hcounter : ∀ agentId, pass'.doc.counter agentId = pass.doc.counter agentId) :
      FindingStep H limits now grow pass pass' finding
  | claimless {key : String} {row : Row} (hnew : pass.doc.rows.get? key = none)
      (hdoc : pass'.doc = pass.doc.setRow key row.claimless) (hbytes : pass'.agentBytes = pass.agentBytes) :
      FindingStep H limits now grow pass pass' (.web key row)
  | web {key : String} {row : Row} {displaced : List String} (hnew : pass.doc.rows.get? key = none)
      (hd : decideClaim pass.doc.rows key row = .admit_ displaced)
      (hdoc : pass'.doc = (pass.displaceAll H limits now grow displaced).doc.setRow key row)
      (hbytes : pass'.agentBytes = (pass.displaceAll H limits now grow displaced).agentBytes) :
      FindingStep H limits now grow pass pass' (.web key row)
  | agent {key agentId did : String} {row : Row} {displaced : List String} {ensured : Pass} {entry : Agent}
      (hensured : ensured = { pass with doc := ensureAgent H now grow pass.doc agentId })
      (hnew : pass.doc.rows.get? key = none) (hentry : ensured.doc.agents.get? agentId = some entry)
      (hcap : entry.rows < limits.liveRowsPerAgent)
      (hbudget : ((pass.agentBytes + H.bytesOf row : ℤ) : Rat) ≤ agentBudget limits)
      (hd : decideClaim pass.doc.rows key row = .admit_ displaced)
      (hdoc : pass'.doc = ((ensured.displaceAll H limits now grow displaced).doc.setRow key row).modifyAgent agentId
        fun entry => (entry.addRow did).pauseAtCap H limits now)
      (hbytes : pass'.agentBytes = (ensured.displaceAll H limits now grow displaced).agentBytes + H.bytesOf row) :
      FindingStep H limits now grow pass pass' (.agent key agentId did row)

lemma FindingStep.refl (pass : Pass) (finding : Finding) : FindingStep H limits now grow pass pass finding :=
  .quiet rfl rfl fun _ => rfl

lemma FindingStep.of_neutral (h : pass.doc.Neutral doc') (finding : Finding) :
    FindingStep H limits now grow pass { pass with doc := doc' } finding :=
  .quiet h.rows rfl h.counter

lemma applyFinding_cases (pass : Pass) (finding : Finding) :
    FindingStep H limits now grow pass (applyFinding H limits now grow pass finding) finding := by
  cases finding with
  | reject agentId suffix reason => exact .of_neutral (recordRejection_neutral ..) _
  | clearNewer agentId => exact .of_neutral (modifyAgent_neutral _ agentId (f := Agent.clearNewer) fun _ => rfl) _
  | newer agentId suffix recordV =>
    have hn : pass.doc.Neutral (ensureAgent H now grow pass.doc agentId) := ensureAgent_neutral pass.doc agentId
    simp only [applyFinding]
    split
    · exact .of_neutral (hn.trans (modifyAgent_neutral _ _ (noteNewer_rows _ _))) _
    · exact .of_neutral hn _
  | gc agentId =>
    simp only [applyFinding]
    split
    · exact .refl _ _
    · rename_i entry hentry
      split
      · rename_i hzero
        refine .quiet rfl rfl fun other => ?_
        simp only [Doc.counter, Dict.get?_delete]
        split
        · rename_i ho
          simp [ho, hentry, hzero]
        · rfl
      · exact .refl _ _
  | web key row =>
    simp only [applyFinding]
    split
    · exact .refl _ _
    · rename_i hc
      simp only [Bool.or_eq_true, not_or, Bool.not_eq_true, Option.isSome_eq_false_iff,
        Option.isNone_iff_eq_none] at hc
      unfold applyWebFinding
      split
      · split
        · exact .claimless hc.1 rfl rfl
        · exact .refl _ _
      · rename_i displaced hd
        exact .web hc.1 hd rfl rfl
  | agent key agentId did row =>
    simp only [applyFinding]
    split
    · exact .refl _ _
    · rename_i hc
      simp only [Bool.or_eq_true, not_or, Bool.not_eq_true, Option.isSome_eq_false_iff,
        Option.isNone_iff_eq_none] at hc
      have hn : pass.doc.Neutral (ensureAgent H now grow pass.doc agentId) := ensureAgent_neutral pass.doc agentId
      unfold applyAgentFinding
      simp only
      split
      · exact .of_neutral hn _
      · rename_i entry hentry
        split_ifs with hskip hcap hbudget
        · exact .of_neutral hn _
        · exact .of_neutral (hn.trans (modifyAgent_neutral _ _ pauseAtCap_rows)) _
        · exact .of_neutral hn _
        · split
          · exact .of_neutral (hn.trans (recordRejection_neutral ..)) _
          · rename_i displaced hd
            rw [hn.rows] at hd
            exact .agent rfl hc.1 hentry (by omega) (Rat.not_lt.mp hbudget) hd rfl rfl

end Step

section Web

lemma displaced_not_web {rows : Rows} {displaced : List String} (hd : decideClaim rows key row = .admit_ displaced)
    (hk : k ∈ displaced) : ∃ other, rows.get? k = some other ∧ isWebRow other = false := by
  obtain ⟨hmem, houts⟩ := decideClaim_admitted hd
  obtain ⟨other, ho, hne, hr⟩ := (hmem k).mp hk
  refine ⟨other, ho, ?_⟩
  cases hweb : isWebRow other with
  | false => rfl
  | true =>
    have hlt := (houts k other ho hne hr).1
    rw [claimRank_web hweb] at hlt
    have := claimRank_le row
    omega

/-- The rows after an admission: the new one, and those that it does not displace. -/
lemma admitted_rows {displaced : List String} (pass : Pass) (k : String) :
    ((pass.displaceAll H limits now grow displaced).doc.setRow key row).rows.get? k =
      if k = key then some row else if k ∈ displaced then none else pass.doc.rows.get? k := by
  rw [Doc.setRow, Dict.get?_set, displaceAll_doc, displaceAll_rows]

lemma admitted_keeps {displaced : List String} (hd : decideClaim pass.doc.rows key row = .admit_ displaced)
    (hnew : pass.doc.rows.get? key = none) {other : Row} (hk : pass.doc.rows.get? k = some other)
    (hweb : isWebRow other = true) :
    ((pass.displaceAll H limits now grow displaced).doc.setRow key row).rows.get? k = some other := by
  have hne : k ≠ key := by
    rintro rfl
    rw [hnew] at hk
    cases hk
  have hout : k ∉ displaced := by
    intro hin
    obtain ⟨o, ho, hn⟩ := displaced_not_web hd hin
    rw [hk] at ho
    cases ho
    rw [hweb] at hn
    cases hn
  rw [admitted_rows, if_neg hne, if_neg hout, hk]

/-- A row the owner wrote on the web stays. -/
lemma applyFinding_web (pass : Pass) (finding : Finding) {other : Row} (hk : pass.doc.rows.get? k = some other)
    (hweb : isWebRow other = true) :
    (applyFinding H limits now grow pass finding).doc.rows.get? k = some other := by
  have hstep : FindingStep H limits now grow pass _ finding := applyFinding_cases pass finding
  cases hstep with
  | quiet hrows => rw [hrows, hk]
  | @claimless key row hnew hdoc hbytes =>
    have hne : k ≠ key := by
      rintro rfl
      rw [hnew] at hk
      cases hk
    rw [hdoc, Doc.setRow, Dict.get?_set_of_ne _ _ hne, hk]
  | web hnew hd hdoc =>
    rw [hdoc]
    exact admitted_keeps hd hnew hk hweb
  | @agent key agentId did row displaced ensured entry hensured hnew hentry hcap hbudget hd hdoc hbytes =>
    subst hensured
    have hn : pass.doc.Neutral (ensureAgent H now grow pass.doc agentId) := ensureAgent_neutral pass.doc agentId
    rw [hdoc, modifyAgent_frame]
    apply admitted_keeps
    · exact hn.rows ▸ hd
    · exact hn.rows ▸ hnew
    · exact hn.rows ▸ hk
    · exact hweb

end Web

section Bytes

def agentBytesOf (H : Host) (row : Row) : ℕ := if (agentOf row).isSome then H.bytesOf row else 0

lemma agentRowBytes_eq (rows : Rows) : agentRowBytes H rows = rows.total (agentBytesOf H) := by
  unfold agentRowBytes Dict.values Dict.total
  induction rows.entries with
  | nil => rfl
  | cons e es ih =>
    rw [List.map_cons, List.map_cons, List.sum_cons, ← ih, agentBytesOf]
    cases h : (agentOf e.2).isSome with
    | true => rw [List.filter_cons_of_pos (by simpa using h), List.map_cons, List.sum_cons, if_pos rfl]
    | false =>
      rw [List.filter_cons_of_neg (by simp [h]), if_neg (by simp)]
      omega

/-- The pass counts its agent rows' bytes as they are. -/
def Pass.Counted (H : Host) (pass : Pass) : Prop := pass.agentBytes = agentRowBytes H pass.doc.rows

lemma displaceAll_cons (pass : Pass) (key : String) (displaced : List String) :
    pass.displaceAll H limits now grow (key :: displaced) =
      (pass.displaceAll H limits now grow [key]).displaceAll H limits now grow displaced := rfl

lemma displaceOne_bytes (H : Host) (limits : Limits) (now : ℤ) (grow : Bool) (pass : Pass) (key : String) :
    let after := pass.displaceAll H limits now grow [key]
    agentRowBytes H after.doc.rows ≤ agentRowBytes H pass.doc.rows ∧
      (pass.Counted H → (∀ other, pass.doc.rows.get? key = some other → (agentOf other).isSome = true) →
        after.Counted H) := by
  simp only [Pass.displaceAll, List.foldl_cons, List.foldl_nil, Pass.Counted, agentRowBytes_eq]
  cases hrow : pass.doc.rows.get? key with
  | none =>
    rw [displace_absent hrow]
    simp
  | some row =>
    have hrows : (displace H limits now grow pass.doc key).rows = pass.doc.rows.delete key := by
      rw [(displace_drops hrow).frame]
    have htotal := pass.doc.rows.total_delete (f := agentBytesOf H) hrow
    rw [hrows]
    refine ⟨by omega, fun hc hagent => ?_⟩
    have hbytes : agentBytesOf H row = H.bytesOf row := if_pos (hagent row rfl)
    simp only [Option.elim_some]
    omega

lemma displaceAll_bytes (H : Host) (limits : Limits) (now : ℤ) (grow : Bool) (displaced : List String) (pass : Pass) :
    let after := pass.displaceAll H limits now grow displaced
    agentRowBytes H after.doc.rows ≤ agentRowBytes H pass.doc.rows ∧
      (pass.Counted H →
        (∀ k ∈ displaced, ∀ other, pass.doc.rows.get? k = some other → (agentOf other).isSome = true) →
        after.Counted H) := by
  induction displaced generalizing pass with
  | nil => exact ⟨le_rfl, fun h _ => h⟩
  | cons key displaced ih =>
    simp only
    rw [displaceAll_cons]
    obtain ⟨hle, hcount⟩ : _ ∧ _ := displaceOne_bytes H limits now grow pass key
    obtain ⟨hle', hcount'⟩ : _ ∧ _ := ih (pass.displaceAll H limits now grow [key])
    refine ⟨le_trans hle' hle, fun hc hagent => hcount' (hcount hc ?_) ?_⟩
    · exact fun other ho => hagent key List.mem_cons_self other ho
    · intro k hk other ho
      rw [displaceAll_doc, displaceAll_rows] at ho
      split at ho
      · cases ho
      · exact hagent k (List.mem_cons_of_mem _ hk) other ho

/-- A finding takes away a row that no agent wrote. -/
def displacesImport (pass pass' : Pass) : Bool :=
  pass.doc.rows.entries.any fun e => (agentOf e.2).isNone && (pass'.doc.rows.get? e.1).isNone

def keepsImports (H : Host) (limits : Limits) (now : ℤ) (grow : Bool) : Pass → List Finding → Bool
  | _, [] => true
  | pass, finding :: found =>
    !displacesImport pass (applyFinding H limits now grow pass finding) &&
      keepsImports H limits now grow (applyFinding H limits now grow pass finding) found

lemma displaced_agents {displaced : List String} {pass' : Pass} (hkeep : displacesImport pass pass' = false)
    (hnew : pass.doc.rows.get? key = none)
    (hrows : ∀ k, pass'.doc.rows.get? k = if k = key then some row else if k ∈ displaced then none
      else pass.doc.rows.get? k)
    (hk : k ∈ displaced) {other : Row} (ho : pass.doc.rows.get? k = some other) : (agentOf other).isSome = true := by
  have hne : k ≠ key := by
    rintro rfl
    rw [hnew] at ho
    cases ho
  have hgone : pass'.doc.rows.get? k = none := by rw [hrows, if_neg hne, if_pos hk]
  simp only [displacesImport, List.any_eq_false, Bool.and_eq_true, not_and, Option.isNone_iff_eq_none] at hkeep
  have hsome := hkeep (k, other) ((pass.doc.rows.mem_entries).mpr ho)
  exact Option.isSome_iff_ne_none.mpr fun hnone => hsome hnone hgone

lemma applyFinding_bytes (pass : Pass) (finding : Finding) (hs : finding.Sourced)
    (hkeep : displacesImport pass (applyFinding H limits now grow pass finding) = false) (hc : pass.Counted H)
    {bound : Rat} (hle : (agentRowBytes H pass.doc.rows : Rat) ≤ bound) (hbound : agentBudget limits ≤ bound) :
    (applyFinding H limits now grow pass finding).Counted H ∧
      (agentRowBytes H (applyFinding H limits now grow pass finding).doc.rows : Rat) ≤ bound := by
  have hstep : FindingStep H limits now grow pass _ finding := applyFinding_cases pass finding
  generalize applyFinding H limits now grow pass finding = pass' at *
  cases hstep with
  | quiet hrows hbytes =>
    refine ⟨?_, by rwa [hrows]⟩
    unfold Pass.Counted
    rw [hbytes, hrows]
    exact hc
  | @claimless key row hnew hdoc hbytes =>
    have hzero : agentBytesOf H row.claimless = 0 := by
      have hsrc : agentOf row.claimless = none := hs
      rw [agentBytesOf, hsrc]
      rfl
    have hsame : agentRowBytes H pass'.doc.rows = agentRowBytes H pass.doc.rows := by
      rw [agentRowBytes_eq, agentRowBytes_eq, hdoc, Doc.setRow, Dict.total_set_new _ hnew, hzero, Nat.add_zero]
    refine ⟨?_, by rwa [hsame]⟩
    unfold Pass.Counted
    rw [hbytes, hsame]
    exact hc
  | @web key row displaced hnew hd hdoc hbytes =>
    obtain ⟨hless, hcount⟩ : _ ∧ _ := displaceAll_bytes H limits now grow displaced pass
    have hzero : agentBytesOf H row = 0 := by
      have hsrc : agentOf row = none := hs
      rw [agentBytesOf, hsrc]
      rfl
    have hnew' : (pass.displaceAll H limits now grow displaced).doc.rows.get? key = none := by
      rw [displaceAll_doc]
      exact displaceAll_new hnew
    have hsame : agentRowBytes H pass'.doc.rows =
        agentRowBytes H (pass.displaceAll H limits now grow displaced).doc.rows := by
      rw [agentRowBytes_eq, agentRowBytes_eq, hdoc, Doc.setRow, Dict.total_set_new _ hnew', hzero, Nat.add_zero]
    have hafter : ∀ k, pass'.doc.rows.get? k = if k = key then some row else if k ∈ displaced then none
        else pass.doc.rows.get? k := by
      intro k
      rw [hdoc, admitted_rows]
    have hagents : ∀ k ∈ displaced, ∀ other, pass.doc.rows.get? k = some other → (agentOf other).isSome = true :=
      fun _ hk _ ho => displaced_agents hkeep hnew hafter hk ho
    refine ⟨?_, ?_⟩
    · unfold Pass.Counted
      rw [hbytes, hsame]
      exact hcount hc hagents
    · rw [hsame]
      exact le_trans (by exact_mod_cast hless) hle
  | @agent key agentId did row displaced ensured entry hensured hnew hentry hcap hbudget hd hdoc hbytes =>
    have hn : pass.doc.Neutral (ensureAgent H now grow pass.doc agentId) := ensureAgent_neutral pass.doc agentId
    have hrows : ensured.doc.rows = pass.doc.rows := by
      rw [hensured]
      exact hn.rows
    have hcounted : ensured.Counted H := by
      unfold Pass.Counted
      rw [hrows, hensured]
      exact hc
    obtain ⟨hless, hcount⟩ : _ ∧ _ := displaceAll_bytes H limits now grow displaced ensured
    have hone : agentBytesOf H row = H.bytesOf row := by
      have hsrc : agentOf row = some agentId := hs
      rw [agentBytesOf, hsrc]
      rfl
    have hnew' : (ensured.displaceAll H limits now grow displaced).doc.rows.get? key = none := by
      rw [displaceAll_doc]
      exact displaceAll_new (hrows ▸ hnew)
    have hmore : agentRowBytes H pass'.doc.rows =
        agentRowBytes H (ensured.displaceAll H limits now grow displaced).doc.rows + H.bytesOf row := by
      rw [agentRowBytes_eq, agentRowBytes_eq, hdoc, modifyAgent_frame]
      change ((ensured.displaceAll H limits now grow displaced).doc.rows.set key row).total _ = _
      rw [Dict.total_set_new _ hnew', hone]
    have hafter : ∀ k, pass'.doc.rows.get? k = if k = key then some row else if k ∈ displaced then none
        else pass.doc.rows.get? k := by
      intro k
      rw [hdoc, modifyAgent_frame]
      change ((ensured.displaceAll H limits now grow displaced).doc.setRow key row).rows.get? k = _
      rw [admitted_rows, hrows]
    have hagents : ∀ k ∈ displaced, ∀ other, pass.doc.rows.get? k = some other → (agentOf other).isSome = true :=
      fun _ hk _ ho => displaced_agents hkeep hnew hafter hk ho
    refine ⟨?_, ?_⟩
    · have := hcount hcounted (by rwa [hrows])
      unfold Pass.Counted at this ⊢
      rw [hbytes, hmore, this]
      rfl
    · -- the budget was checked before anything was displaced, which only makes room
      refine le_trans ?_ (le_trans hbudget hbound)
      rw [hrows] at hless
      unfold Pass.Counted at hc
      rw [hmore, hc]
      exact_mod_cast Nat.add_le_add_right hless _

end Bytes

section Rows

lemma displaceAll_counter (H : Host) (limits : Limits) (now : ℤ) (grow : Bool) (displaced : List String) (pass : Pass)
    (hc : ∀ agentId, pass.doc.counter agentId = pass.doc.rows.count (ofAgent agentId)) (agentId : String) :
    let after := pass.displaceAll H limits now grow displaced
    after.doc.counter agentId = after.doc.rows.count (ofAgent agentId) ∧
      after.doc.rows.count (ofAgent agentId) ≤ pass.doc.rows.count (ofAgent agentId) := by
  induction displaced generalizing pass with
  | nil => exact ⟨hc agentId, le_rfl⟩
  | cons key displaced ih =>
    simp only
    rw [displaceAll_cons]
    have hone : ∀ agentId, (pass.displaceAll H limits now grow [key]).doc.counter agentId =
        (pass.displaceAll H limits now grow [key]).doc.rows.count (ofAgent agentId) ∧
        (pass.displaceAll H limits now grow [key]).doc.rows.count (ofAgent agentId) ≤
          pass.doc.rows.count (ofAgent agentId) := by
      intro agentId
      simp only [Pass.displaceAll, List.foldl_cons, List.foldl_nil]
      cases hrow : pass.doc.rows.get? key with
      | none =>
        rw [displace_absent hrow]
        exact ⟨hc agentId, le_rfl⟩
      | some row =>
        have hdrop : pass.doc.Drops (displace H limits now grow pass.doc key) key row := displace_drops hrow
        have hrows : (displace H limits now grow pass.doc key).rows = pass.doc.rows.delete key := by rw [hdrop.frame]
        refine ⟨hdrop.counted hrow hc agentId, ?_⟩
        have := pass.doc.rows.count_delete (p := ofAgent agentId) hrow
        rw [hrows]
        omega
    obtain ⟨hcount, hle⟩ : _ ∧ _ := ih (pass.displaceAll H limits now grow [key]) fun agentId => (hone agentId).1
    exact ⟨hcount, le_trans hle (hone agentId).2⟩

lemma applyFinding_rows (H : Host) (limits : Limits) (now : ℤ) (grow : Bool) (pass : Pass) (finding : Finding) (hs : finding.Sourced)
    (hc : ∀ agentId, pass.doc.counter agentId = pass.doc.rows.count (ofAgent agentId)) {bound : String → ℕ}
    (hle : ∀ agentId, pass.doc.rows.count (ofAgent agentId) ≤ bound agentId)
    (hbound : ∀ agentId, limits.liveRowsPerAgent ≤ bound agentId) (agentId : String) :
    (applyFinding H limits now grow pass finding).doc.counter agentId =
        (applyFinding H limits now grow pass finding).doc.rows.count (ofAgent agentId) ∧
      (applyFinding H limits now grow pass finding).doc.rows.count (ofAgent agentId) ≤ bound agentId := by
  have hstep : FindingStep H limits now grow pass _ finding := applyFinding_cases pass finding
  generalize applyFinding H limits now grow pass finding = pass' at *
  cases hstep with
  | quiet hrows hbytes hcounter =>
    rw [hcounter, hrows]
    exact ⟨hc agentId, hle agentId⟩
  | @claimless key row hnew hdoc hbytes =>
    have hsrc : agentOf row.claimless = none := hs
    have hsame : pass'.doc.rows.count (ofAgent agentId) = pass.doc.rows.count (ofAgent agentId) := by
      rw [hdoc, Doc.setRow, Dict.count_set_new _ hnew, ofAgent, hsrc]
      rfl
    rw [hsame, hdoc]
    exact ⟨hc agentId, hle agentId⟩
  | @web key row displaced hnew hd hdoc hbytes =>
    obtain ⟨hcount, hless⟩ : _ ∧ _ := displaceAll_counter H limits now grow displaced pass hc agentId
    have hsrc : agentOf row = none := hs
    have hnew' : (pass.displaceAll H limits now grow displaced).doc.rows.get? key = none := by
      rw [displaceAll_doc]
      exact displaceAll_new hnew
    have hsame : pass'.doc.rows.count (ofAgent agentId) =
        (pass.displaceAll H limits now grow displaced).doc.rows.count (ofAgent agentId) := by
      rw [hdoc, Doc.setRow, Dict.count_set_new _ hnew', ofAgent, hsrc]
      rfl
    rw [hsame, hdoc]
    exact ⟨hcount, le_trans hless (hle agentId)⟩
  | @agent key writer did row displaced ensured entry hensured hnew hentry hcap hbudget hd hdoc hbytes =>
    have hn : pass.doc.Neutral (ensureAgent H now grow pass.doc writer) := ensureAgent_neutral pass.doc writer
    have hrows : ensured.doc.rows = pass.doc.rows := by
      rw [hensured]
      exact hn.rows
    have hcounter : ∀ agentId, ensured.doc.counter agentId = pass.doc.counter agentId := by
      rw [hensured]
      exact hn.counter
    have hcounted : ∀ agentId, ensured.doc.counter agentId = ensured.doc.rows.count (ofAgent agentId) := by
      intro agentId
      rw [hcounter, hrows, hc]
    obtain ⟨hcount, hless⟩ : _ ∧ _ := displaceAll_counter H limits now grow displaced ensured hcounted agentId
    have hsrc : agentOf row = some writer := hs
    have hin : (ensured.displaceAll H limits now grow displaced).doc.Entered writer := by
      rw [displaceAll_doc]
      apply entered_displaceAll
      rw [Doc.Entered, hentry]
      rfl
    obtain ⟨kept, hkept⟩ := Option.isSome_iff_exists.mp hin
    have hnew' : (ensured.displaceAll H limits now grow displaced).doc.rows.get? key = none := by
      rw [displaceAll_doc]
      exact displaceAll_new (hrows ▸ hnew)
    have hmore : pass'.doc.rows.count (ofAgent agentId) =
        (ensured.displaceAll H limits now grow displaced).doc.rows.count (ofAgent agentId) +
          if ofAgent agentId row then 1 else 0 := by
      rw [hdoc, modifyAgent_frame]
      change ((ensured.displaceAll H limits now grow displaced).doc.rows.set key row).count _ = _
      rw [Dict.count_set_new _ hnew']
    rw [hmore]
    by_cases ho : agentId = writer
    · subst ho
      have hone : ofAgent agentId row = true := by
        rw [ofAgent, hsrc]
        exact beq_self_eq_true _
      have hrowCount : entry.rows = pass.doc.rows.count (ofAgent agentId) := by
        rw [← hc, ← hcounter, Doc.counter, hentry]
        rfl
      rw [hone, if_pos rfl, hdoc, modifyAgent_counter, if_pos rfl]
      constructor
      · change ((ensured.displaceAll H limits now grow displaced).doc.agents.get? agentId).elim 0 _ = _
        rw [← hcount, Doc.counter, hkept]
        exact addRow_rows did kept
      · have := hbound agentId
        rw [hrows] at hless
        omega
    · have hnone : ofAgent agentId row = false := by
        rw [ofAgent, hsrc]
        simpa using Ne.symm ho
      rw [hnone, if_neg (by simp), Nat.add_zero, hdoc, modifyAgent_counter, if_neg ho]
      refine ⟨hcount, le_trans hless ?_⟩
      rw [hrows]
      exact hle agentId

end Rows

section Tally

/-- How often an agent's keys were refused, and the keys recorded as refused. -/
def Doc.tally (doc : Doc) (agentId : String) : ℕ × List String :=
  (doc.agents.get? agentId).elim (0, []) fun entry => (entry.rejected.total id, entry.rejectedKeys)

/-- One more refused key: counted once, and recorded while there is room. -/
def countKey (limit : ℕ) (tally : ℕ × List String) (entryKey : String) : ℕ × List String :=
  if entryKey ∈ tally.2 then tally
  else (tally.1 + 1, if tally.2.length < limit then tally.2 ++ [entryKey] else tally.2)

lemma values_sum (d : Dict RejectReason ℕ) : d.values.sum = d.total id := by
  rfl

lemma reject_tally (entryKey : String) (reason : RejectReason) (entry : Agent) :
    ((entry.reject H limits now entryKey reason).rejected.total id,
      (entry.reject H limits now entryKey reason).rejectedKeys) =
      countKey limits.rejectionsBeforePause (entry.rejected.total id, entry.rejectedKeys) entryKey := by
  unfold Agent.reject countKey
  simp only [List.contains_iff_mem]
  split_ifs
  · rfl
  all_goals
    simp only [Prod.mk.injEq, and_true]
    cases h : entry.rejected.get? reason with
    | none => simpa using entry.rejected.total_set_new (v := 1) (f := id) h
    | some n =>
      have := entry.rejected.total_set_same (v := n + 1) (f := id) h
      simp only [id_eq] at this
      simp only [Option.getD_some]
      omega

lemma tally_modifyAgent (doc : Doc) (agentId : String) (f : Agent → Agent) (other : String) :
    (doc.modifyAgent agentId f).tally other =
      if other = agentId then
        (doc.agents.get? agentId).elim (0, []) fun entry => ((f entry).rejected.total id, (f entry).rejectedKeys)
      else doc.tally other := by
  unfold Doc.modifyAgent Doc.tally
  split
  · rename_i h
    split
    · rename_i ho
      simp [ho, h]
    · rfl
  · rename_i entry h
    simp only [Dict.get?_set]
    split <;> simp [h]

/-- A change of an agent's entry that leaves its rejections alone. -/
lemma tally_same (doc : Doc) (agentId : String) {f : Agent → Agent}
    (hf : ∀ entry, (f entry).rejected = entry.rejected ∧ (f entry).rejectedKeys = entry.rejectedKeys) (other : String) :
    (doc.modifyAgent agentId f).tally other = doc.tally other := by
  rw [tally_modifyAgent]
  split
  · rename_i h
    rw [h, Doc.tally]
    simp only [hf]
  · rfl

lemma tally_ensureAgent (doc : Doc) (agentId other : String) :
    (ensureAgent H now grow doc agentId).tally other = doc.tally other := by
  unfold ensureAgent
  split
  · rfl
  · rename_i h
    simp only [Bool.or_eq_true, not_or, Bool.not_eq_true, Option.isSome_eq_false_iff,
      Option.isNone_iff_eq_none] at h
    simp only [Doc.tally, Dict.get?_set]
    split
    · rename_i ho
      rw [ho, h.1]
      rfl
    · rfl

/-- Where a header grows, a rejection counts its key for its agent alone; elsewhere it counts nothing. -/
lemma tally_recordRejection (doc : Doc) (agentId suffix : String) (reason : RejectReason) (other : String) :
    (recordRejection H limits now grow doc agentId suffix reason).tally other =
      if grow = true ∧ other = agentId then
        countKey limits.rejectionsBeforePause (doc.tally other) (H.rejectedKeyEntry suffix)
      else doc.tally other := by
  unfold recordRejection
  cases grow with
  | false => simp [tally_ensureAgent]
  | true =>
    simp only [if_true, true_and]
    rw [tally_modifyAgent]
    split
    · rename_i ho
      have hin : ∃ entry, (ensureAgent H now true doc agentId).agents.get? agentId = some entry := by
        unfold ensureAgent
        split
        · rename_i h
          exact Option.isSome_iff_exists.mp (by simpa using h)
        · exact ⟨newAgent H now, Dict.get?_set_self _ _ _⟩
      obtain ⟨entry, he⟩ := hin
      have hsame : (ensureAgent H now true doc agentId).tally other = doc.tally other :=
        tally_ensureAgent doc agentId other
      rw [he, Option.elim_some, reject_tally, ← hsame, ho, Doc.tally, he]
      rfl
    · exact tally_ensureAgent doc agentId other

/-- The agents whose rows a claim displaces, with the refused key of each row. -/
def displacedClaims (H : Host) (rows : Rows) (displaced : List String) : List (String × String) :=
  displaced.filterMap fun k => (rows.get? k).bind fun row =>
    (agentOf row).map fun agentId => (agentId, H.rejectedKeyEntry (basename k))

/-- The agents and keys that a finding refuses: its own key, or those of the rows it displaces. -/
def refusals (H : Host) (limits : Limits) (now : ℤ) (grow : Bool) (pass : Pass) :
    Finding → List (String × String)
  | .reject agentId suffix _ => [(agentId, H.rejectedKeyEntry suffix)]
  | .web key row =>
    if (pass.doc.rows.get? key).isSome || pass.doc.isRetired key then []
    else match decideClaim pass.doc.rows key row with
      | .refuse _ => []
      | .admit_ displaced => displacedClaims H pass.doc.rows displaced
  | .agent key agentId _ row =>
    if (pass.doc.rows.get? key).isSome || pass.doc.isRetired key then []
    else match (ensureAgent H now grow pass.doc agentId).agents.get? agentId with
      | none => []
      | some entry =>
        if entry.paused.isSome || entry.rejectedKeys.contains (H.rejectedKeyEntry (basename key)) then []
        else if limits.liveRowsPerAgent ≤ entry.rows then []
        else if agentBudget limits < ((pass.agentBytes + H.bytesOf row : ℤ) : Rat) then []
        else match decideClaim pass.doc.rows key row with
          | .refuse _ => [(agentId, H.rejectedKeyEntry (basename key))]
          | .admit_ displaced => displacedClaims H pass.doc.rows displaced
  | _ => []

def keysOf (agentId : String) (refused : List (String × String)) : List String :=
  (refused.filter fun r => r.1 = agentId).map Prod.snd

/-- The keys of an agent that a list of findings refuses, in their order. -/
def refusedKeys (H : Host) (limits : Limits) (now : ℤ) (grow : Bool) (agentId : String) :
    Pass → List Finding → List String
  | _, [] => []
  | pass, finding :: found =>
    keysOf agentId (refusals H limits now grow pass finding) ++
      refusedKeys H limits now grow agentId (applyFinding H limits now grow pass finding) found

/-- The tally after more refused keys; a header that may not grow counts none. -/
def countKeys (limits : Limits) (grow : Bool) (tally : ℕ × List String) (keys : List String) : ℕ × List String :=
  if grow then keys.foldl (countKey limits.rejectionsBeforePause) tally else tally

lemma countKeys_nil (tally : ℕ × List String) : countKeys limits grow tally [] = tally := by
  cases grow <;> rfl

lemma countKeys_append (tally : ℕ × List String) (a b : List String) :
    countKeys limits grow tally (a ++ b) = countKeys limits grow (countKeys limits grow tally a) b := by
  cases grow with
  | false => rfl
  | true => exact List.foldl_append

lemma tally_refuse (doc : Doc) (agentId suffix : String) (reason : RejectReason) (other : String) :
    (recordRejection H limits now grow doc agentId suffix reason).tally other =
      countKeys limits grow (doc.tally other) (keysOf other [(agentId, H.rejectedKeyEntry suffix)]) := by
  rw [tally_recordRejection]
  cases grow with
  | false => rfl
  | true =>
    by_cases ho : other = agentId
    · simp [countKeys, keysOf, ho]
    · simp [countKeys, keysOf, ho, Ne.symm ho]

lemma displacedClaims_cons (H : Host) (rows : Rows) (key : String) (displaced : List String) :
    displacedClaims H rows (key :: displaced) =
      displacedClaims H rows [key] ++ displacedClaims H rows displaced := by
  unfold displacedClaims
  rw [← List.filterMap_append]
  rfl

lemma keysOf_append (agentId : String) (a b : List (String × String)) :
    keysOf agentId (a ++ b) = keysOf agentId a ++ keysOf agentId b := by
  rw [keysOf, List.filter_append, List.map_append]
  rfl

lemma tally_displace (doc : Doc) (key other : String) :
    (displace H limits now grow doc key).tally other =
      countKeys limits grow (doc.tally other) (keysOf other (displacedClaims H doc.rows [key])) := by
  cases hrow : doc.rows.get? key with
  | none =>
    rw [displace_absent hrow]
    simp [displacedClaims, hrow, keysOf, countKeys_nil]
  | some row =>
    unfold displace
    rw [hrow]
    simp only
    cases ha : agentOf row with
    | none =>
      simp only [displacedClaims, List.filterMap_cons, hrow, Option.bind_some, ha, Option.map_none,
        List.filterMap_nil]
      exact (countKeys_nil _).symm
    | some agentId =>
      simp only
      rw [tally_refuse, tally_same _ _ (f := Agent.dropRow) (fun _ => ⟨rfl, rfl⟩), tally_ensureAgent]
      simp only [displacedClaims, List.filterMap_cons, hrow, Option.bind_some, ha, Option.map_some,
        List.filterMap_nil]
      rfl

lemma tally_displaceAll {displaced : List String} (hn : displaced.Nodup) (doc : Doc) (other : String) :
    (displaced.foldl (displace H limits now grow) doc).tally other =
      countKeys limits grow (doc.tally other) (keysOf other (displacedClaims H doc.rows displaced)) := by
  induction displaced generalizing doc with
  | nil => exact (countKeys_nil _).symm
  | cons key displaced ih =>
    rw [List.nodup_cons] at hn
    rw [displacedClaims_cons H doc.rows key displaced, keysOf_append, countKeys_append, ← tally_displace,
      List.foldl_cons, ih hn.2]
    -- the other displaced rows are still there
    have hrest : displacedClaims H (displace H limits now grow doc key).rows displaced =
        displacedClaims H doc.rows displaced := by
      apply List.filterMap_congr
      intro k hk
      rw [displace_rows, if_neg]
      rintro rfl
      exact hn.1 hk
    rw [hrest]

lemma decideAmong_sublist {displaced found : List String} {entries : List (String × Row)}
    (h : decideAmong key row displaced entries = .admit_ found) :
    ∃ rest, found = displaced ++ rest ∧ rest.Sublist (entries.map Prod.fst) := by
  induction entries generalizing displaced with
  | nil =>
    cases h
    exact ⟨[], (List.append_nil _).symm, List.Sublist.slnil⟩
  | cons e entries ih =>
    obtain ⟨otherKey, other⟩ := e
    rcases decideAmong_cons key row other displaced otherKey entries with ⟨-, he⟩ | ⟨-, he⟩ | ⟨-, he⟩
    · obtain ⟨rest, hf, hs⟩ := ih (he ▸ h)
      exact ⟨rest, hf, hs.cons _⟩
    · rw [he] at h
      cases h
    · obtain ⟨rest, hf, hs⟩ := ih (he ▸ h)
      exact ⟨otherKey :: rest, by rw [hf, List.append_assoc]; rfl, hs.cons_cons _⟩

lemma decideClaim_nodup {rows : Rows} {displaced : List String}
    (h : decideClaim rows key row = .admit_ displaced) : displaced.Nodup := by
  unfold decideClaim at h
  split at h
  · cases h
    exact List.nodup_nil
  · obtain ⟨rest, hf, hs⟩ := decideAmong_sublist h
    rw [hf, List.nil_append]
    exact rows.nodup.sublist hs

lemma pauseAtCap_tally (entry : Agent) : (entry.pauseAtCap H limits now).rejected = entry.rejected ∧
    (entry.pauseAtCap H limits now).rejectedKeys = entry.rejectedKeys := by
  unfold Agent.pauseAtCap
  split <;> exact ⟨rfl, rfl⟩

lemma noteNewer_tally (entryKey : String) (recordV : ℕ) (entry : Agent) :
    (entry.noteNewer H limits now entryKey recordV).rejected = entry.rejected ∧
      (entry.noteNewer H limits now entryKey recordV).rejectedKeys = entry.rejectedKeys := by
  unfold Agent.noteNewer
  simp only
  split_ifs <;> exact ⟨rfl, rfl⟩

/-- One finding counts the keys it refuses, and no others. -/
lemma applyFinding_tally (pass : Pass) {finding : Finding} (hgc : finding ≠ .gc agentId) :
    (applyFinding H limits now grow pass finding).doc.tally agentId =
      countKeys limits grow (pass.doc.tally agentId)
        (keysOf agentId (refusals H limits now grow pass finding)) := by
  have hnone : ∀ tally, tally = countKeys limits grow tally (keysOf agentId []) := fun tally =>
    (countKeys_nil tally).symm
  cases finding with
  | reject writer suffix reason => exact tally_refuse pass.doc writer suffix reason agentId
  | clearNewer writer =>
    simp only [applyFinding, refusals]
    rw [tally_same _ _ (f := Agent.clearNewer) fun _ => ⟨rfl, rfl⟩]
    exact hnone _
  | newer writer suffix recordV =>
    simp only [applyFinding, refusals]
    split
    · rw [tally_same _ _ (noteNewer_tally _ _), tally_ensureAgent]
      exact hnone _
    · rw [tally_ensureAgent]
      exact hnone _
  | gc writer =>
    have hne : agentId ≠ writer := fun h => hgc (by rw [h])
    simp only [applyFinding, refusals]
    split
    · exact hnone _
    · split
      · simp only [Doc.tally, Dict.get?_delete, if_neg hne]
        exact hnone _
      · exact hnone _
  | web key row =>
    simp only [applyFinding, refusals]
    split
    · exact hnone _
    · unfold applyWebFinding
      cases hd : decideClaim pass.doc.rows key row with
      | refuse heldBy =>
        simp only
        split <;> exact hnone _
      | admit_ displaced =>
        simp only [displaceAll_doc]
        exact tally_displaceAll (decideClaim_nodup hd) pass.doc agentId
  | agent key writer did row =>
    have hn : pass.doc.Neutral (ensureAgent H now grow pass.doc writer) := ensureAgent_neutral pass.doc writer
    simp only [applyFinding, refusals]
    split
    · exact hnone _
    · unfold applyAgentFinding
      simp only [hn.rows]
      cases hentry : (ensureAgent H now grow pass.doc writer).agents.get? writer with
      | none =>
        simp only
        rw [tally_ensureAgent]
        exact hnone _
      | some entry =>
        simp only
        by_cases hskip : (entry.paused.isSome || entry.rejectedKeys.contains (H.rejectedKeyEntry (basename key))) = true
        · simp only [if_pos hskip]
          rw [tally_ensureAgent]
          exact hnone _
        simp only [if_neg hskip]
        by_cases hcap : limits.liveRowsPerAgent ≤ entry.rows
        · simp only [if_pos hcap]
          rw [tally_same _ _ pauseAtCap_tally, tally_ensureAgent]
          exact hnone _
        simp only [if_neg hcap]
        by_cases hbudget : agentBudget limits < ((pass.agentBytes + H.bytesOf row : ℤ) : Rat)
        · simp only [if_pos hbudget]
          rw [tally_ensureAgent]
          exact hnone _
        simp only [if_neg hbudget]
        cases hd : decideClaim pass.doc.rows key row with
        | refuse heldBy =>
          simp only
          rw [tally_refuse, tally_ensureAgent]
        | admit_ displaced =>
          simp only [displaceAll_doc]
          rw [tally_same _ _ fun entry => pauseAtCap_tally (entry.addRow did)]
          change Doc.tally (List.foldl _ _ displaced) agentId = _
          rw [tally_displaceAll (decideClaim_nodup hd), tally_ensureAgent, hn.rows]

/-- While the recorded keys have room, each key not recorded before is counted once. -/
lemma countKey_fold {limit : ℕ} (keys : List String) {tally : ℕ × List String}
    (hroom : tally.2.length + keys.length ≤ limit) :
    (keys.foldl (countKey limit) tally).1 = tally.1 + (keys.toFinset \ tally.2.toFinset).card := by
  induction keys generalizing tally with
  | nil => simp
  | cons key keys ih =>
    rw [List.length_cons] at hroom
    rw [List.foldl_cons, List.toFinset_cons, countKey]
    by_cases hk : key ∈ tally.2
    · rw [if_pos hk, ih (by omega), Finset.insert_sdiff_of_mem _ (List.mem_toFinset.mpr hk)]
    · rw [if_neg hk, if_pos (by omega), ih (by simp only [List.length_append, List.length_singleton]; omega)]
      have hset : insert key keys.toFinset \ tally.2.toFinset =
          insert key (keys.toFinset \ (tally.2 ++ [key]).toFinset) := by
        ext k
        simp only [Finset.mem_sdiff, Finset.mem_insert, List.mem_toFinset, List.mem_append, List.mem_singleton]
        constructor
        · rintro ⟨rfl | hin, hout⟩
          · exact .inl rfl
          · by_cases he : k = key
            · exact .inl he
            · exact .inr ⟨hin, fun h => h.elim hout he⟩
        · rintro (rfl | ⟨hin, hout⟩)
          · exact ⟨.inl rfl, hk⟩
          · exact ⟨.inr hin, fun h => hout (.inl h)⟩
      rw [hset, Finset.card_insert_of_notMem (by simp)]
      simp only
      omega

end Tally

section Runs

lemma run_web (found : List Finding) (pass : Pass) (hk : pass.doc.rows.get? k = some row) (hweb : isWebRow row = true) :
    (found.foldl (applyFinding H limits now grow) pass).doc.rows.get? k = some row := by
  induction found generalizing pass with
  | nil => exact hk
  | cons finding found ih => exact ih _ (applyFinding_web pass finding hk hweb)

lemma run_bytes (found : List Finding) (pass : Pass) (hs : ∀ finding ∈ found, finding.Sourced)
    (hkeep : keepsImports H limits now grow pass found = true) (hc : pass.Counted H) {bound : Rat}
    (hle : (agentRowBytes H pass.doc.rows : Rat) ≤ bound) (hbound : agentBudget limits ≤ bound) :
    (agentRowBytes H (found.foldl (applyFinding H limits now grow) pass).doc.rows : Rat) ≤ bound := by
  induction found generalizing pass with
  | nil => exact hle
  | cons finding found ih =>
    simp only [keepsImports, Bool.and_eq_true, Bool.not_eq_true'] at hkeep
    obtain ⟨hc', hle'⟩ := applyFinding_bytes pass finding (hs finding List.mem_cons_self) hkeep.1 hc hle hbound
    exact ih _ (fun f hf => hs f (List.mem_cons_of_mem _ hf)) hkeep.2 hc' hle'

lemma run_rows (found : List Finding) (pass : Pass) (hs : ∀ finding ∈ found, finding.Sourced)
    (hc : ∀ agentId, pass.doc.counter agentId = pass.doc.rows.count (ofAgent agentId)) {bound : String → ℕ}
    (hle : ∀ agentId, pass.doc.rows.count (ofAgent agentId) ≤ bound agentId)
    (hbound : ∀ agentId, limits.liveRowsPerAgent ≤ bound agentId) (agentId : String) :
    (found.foldl (applyFinding H limits now grow) pass).doc.rows.count (ofAgent agentId) ≤ bound agentId := by
  induction found generalizing pass with
  | nil => exact hle agentId
  | cons finding found ih =>
    have hstep := fun a => applyFinding_rows H limits now grow pass finding (hs finding List.mem_cons_self) hc hle hbound a
    exact ih _ (fun f hf => hs f (List.mem_cons_of_mem _ hf)) (fun a => (hstep a).1) fun a => (hstep a).2

lemma run_tally (found : List Finding) (pass : Pass) (hgc : .gc agentId ∉ found) :
    (found.foldl (applyFinding H limits now grow) pass).doc.tally agentId =
      countKeys limits grow (pass.doc.tally agentId) (refusedKeys H limits now grow agentId pass found) := by
  induction found generalizing pass with
  | nil => exact (countKeys_nil _).symm
  | cons finding found ih =>
    rw [List.mem_cons, not_or] at hgc
    rw [List.foldl_cons, ih _ hgc.2, applyFinding_tally pass (Ne.symm hgc.1), refusedKeys, countKeys_append]

/-- The pass that a list of findings starts with. -/
def startPass (H : Host) (doc : Doc) : Pass := ⟨doc, agentRowBytes H doc.rows, 0⟩

/-- What a pass leaves to the owner: agent rows within their share, no agent beyond its rows, each
refused key counted once, and every web row. -/
theorem agents_contained (H : Host) (limits : Limits) (now : ℤ) (grow : Bool) (doc : Doc) (found : List Finding)
    (hs : ∀ finding ∈ found, finding.Sourced) :
    let after := (applyFindings H limits now grow doc found).doc
    (keepsImports H limits now grow (startPass H doc) found = true →
      (agentRowBytes H after.rows : Rat) ≤ max (agentRowBytes H doc.rows : Rat) (agentBudget limits)) ∧
    ((∀ agentId, doc.counter agentId = doc.rows.count (ofAgent agentId)) →
      ∀ agentId, after.rows.count (ofAgent agentId) ≤
        max (doc.rows.count (ofAgent agentId)) limits.liveRowsPerAgent) ∧
    (∀ agentId, .gc agentId ∉ found →
      let keys := refusedKeys H limits now grow agentId (startPass H doc) found
      after.tally agentId = countKeys limits grow (doc.tally agentId) keys ∧
      (grow = true → (doc.tally agentId).2.length + keys.length ≤ limits.rejectionsBeforePause →
        (after.tally agentId).1 =
          (doc.tally agentId).1 + (keys.toFinset \ (doc.tally agentId).2.toFinset).card)) ∧
    ∀ k row, doc.rows.get? k = some row → isWebRow row = true → after.rows.get? k = some row := by
  refine ⟨fun hkeep => ?_, fun hc agentId => ?_, fun agentId hgc => ?_, fun k row hk hweb => ?_⟩
  · exact run_bytes found (startPass H doc) hs hkeep rfl (le_max_left _ _) (le_max_right _ _)
  · have hbefore : ∀ a, doc.rows.count (ofAgent a) ≤ max (doc.rows.count (ofAgent a)) limits.liveRowsPerAgent :=
      fun a => le_max_left _ _
    exact run_rows found (startPass H doc) hs hc hbefore (fun a => le_max_right _ _) agentId
  · have htally : (applyFindings H limits now grow doc found).doc.tally agentId = countKeys limits grow
        (doc.tally agentId) (refusedKeys H limits now grow agentId (startPass H doc) found) :=
      run_tally found (startPass H doc) hgc
    refine ⟨htally, fun hgrow hroom => ?_⟩
    subst hgrow
    exact (congrArg Prod.fst htally).trans (countKey_fold _ hroom)
  · exact run_web found (startPass H doc) hk hweb

/-- Three agents claim one CID: the last is refused, the first displaced, each counted once. -/
theorem agents_contained_sample :
    let doc := emptyIndexDocument sampleHost 0 "owner" "space" "web"
    let after := (applyFindings sampleHost DEFAULT_SHARE_INDEX_LIMITS 0 true doc sampleFindings).doc
    (after.tally "A").1 = 1 ∧ (after.tally "B").1 = 1 ∧ (after.tally "C").1 = 0 := by
  have hs : ∀ finding ∈ sampleFindings, finding.Sourced := by
    intro finding hf
    simp only [sampleFindings, sampleRows, List.map_cons, List.map_nil, List.mem_cons, List.not_mem_nil,
      or_false] at hf
    rcases hf with rfl | rfl | rfl <;> rfl
  obtain ⟨-, -, hcount, -⟩ := agents_contained sampleHost DEFAULT_SHARE_INDEX_LIMITS 0 true
    (emptyIndexDocument sampleHost 0 "owner" "space" "web") sampleFindings hs
  refine ⟨?_, ?_, ?_⟩
  · rw [((hcount "A") (by decide)).2 rfl (by decide +kernel)]
    decide +kernel
  · rw [((hcount "B") (by decide)).2 rfl (by decide +kernel)]
    decide +kernel
  · rw [((hcount "C") (by decide)).2 rfl (by decide +kernel)]
    decide +kernel

/-- A header of one byte for each agent and each recorded key, and rows of ten bytes. -/
def crowdedHost : Host := { sampleHost with
  bytesOf := fun _ => 10
  headerBytes := fun doc => (doc.agents.values.map fun entry => 1 + entry.rejectedKeys.length).sum }

def crowdedLimits : Limits := { DEFAULT_SHARE_INDEX_LIMITS with
  headerBytes := 1
  mainRowBytes := 20 }

/-- One known agent, and one migrated row that claims a CID. -/
def crowdedDoc : Doc := { emptyIndexDocument crowdedHost 0 "owner" "space" "web" with
  agents := Dict.empty.set "A" (newAgent crowdedHost 0)
  rows := Dict.empty.set "old" { sampleRow .web (some .unproven) ["cid1"] with migrated := true } }

/-- With the header at its cap a refused key is not counted; and where the first row displaces the
migrated one, the second exceeds the budget that ten bytes are. -/
theorem refusal_uncounted :
    ((Change.findings [.reject "A" "key" .size] none).apply crowdedHost crowdedLimits 0 crowdedDoc).1.tally "A" =
        crowdedDoc.tally "A" ∧
      agentBudget crowdedLimits = 10 ∧ agentRowBytes crowdedHost crowdedDoc.rows = 0 ∧
      agentRowBytes crowdedHost
        ((Change.findings [.agent "agents/A/a" "A" "did" (sampleRow (.agent "A") (some .proven) ["cid1"]),
          .agent "agents/A/b" "A" "did" (sampleRow (.agent "A") (some .proven) ["cid2"])] none).apply
            crowdedHost crowdedLimits 0 crowdedDoc).1.rows = 20 := by
  decide +kernel

end Runs

end TinyCloud.ShareIndex
