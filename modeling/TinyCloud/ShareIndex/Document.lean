import TinyCloud.ShareIndex.Precedence

/-!
# The index document

The changes that a writer applies to the main document between its read and its conditional write:
outbox ops, the findings of a reconcile pass, the results of a status sync, and the rows that a
compaction has archived.
-/

namespace TinyCloud.ShareIndex

open TinyCloud.Collections

structure Archive where
  name : String
  ids : List String
  deriving DecidableEq

structure Tombstone where
  key : String
  at_ : String
  deriving DecidableEq

inductive PauseReason
  | rejections
  | rowCap
  | newer
  deriving DecidableEq

structure Pause where
  reason : PauseReason
  at_ : String
  deriving DecidableEq

inductive RejectReason
  | size
  | shape
  | header
  | decrypt
  | schema
  | provenance
  | link
  | proof
  deriving DecidableEq

structure Agent where
  did : Option String
  rows : ℕ
  rejected : Dict RejectReason ℕ
  rejectedKeys : List String
  newerKeys : Option (List String)
  newerV : Option ℕ
  paused : Option Pause
  firstSeen : String
  deriving DecidableEq

structure Doc where
  ownerDid : String
  spaceId : String
  updatedAt : String
  updatedBy : String
  archives : List Archive
  tombstones : List Tombstone
  cursor : Option String
  agents : Dict String Agent
  rows : Rows
  deriving DecidableEq

structure Limits where
  listPagesPerPass : ℕ
  fetchesPerPass : ℕ
  newRowsPerAgentPerPass : ℕ
  liveRowsPerAgent : ℕ
  rejectionsBeforePause : ℕ
  agentRowShare : Rat
  mainRowBytes : ℕ
  headerBytes : ℕ
  tombstoneTtlMs : ℤ
  archiveAgeMs : ℤ
  statusChecksPerSync : ℕ

def DAY_MS : ℤ := 24 * 60 * 60 * 1000

def DEFAULT_SHARE_INDEX_LIMITS : Limits where
  listPagesPerPass := 10
  fetchesPerPass := 200
  newRowsPerAgentPerPass := 50
  liveRowsPerAgent := 500
  rejectionsBeforePause := 100
  agentRowShare := 1 / 2
  mainRowBytes := 1024 * 1024
  headerBytes := 64 * 1024
  tombstoneTtlMs := 30 * DAY_MS
  archiveAgeMs := 90 * DAY_MS
  statusChecksPerSync := 200

/-- What the code takes from its platform: dates, the sizes of JSON text, and truncated hashes. -/
structure Host where
  dateParse : String → Option ℤ
  toISOString : ℤ → String
  fullYear : ℤ → String
  bytesOf : Row → ℕ
  headerBytes : Doc → ℕ
  rejectedKeyEntry : String → String

inductive AgentAction
  | resume
  | recheck
  deriving DecidableEq

inductive OpBody
  | upsert (key : String) (row : Row)
  | revoke (key : String) (at_ : String) (confirmed : Bool)
  | delete (key : String)
  | agent (agentId : String) (action : AgentAction)
  deriving DecidableEq

structure ShareIndexOp where
  id : String
  body : OpBody
  deriving DecidableEq

inductive Finding
  | web (key : String) (row : Row)
  | agent (key : String) (agentId : String) (did : String) (row : Row)
  | reject (agentId : String) (suffix : String) (reason : RejectReason)
  | newer (agentId : String) (suffix : String) (recordV : ℕ)
  | gc (agentId : String)
  | clearNewer (agentId : String)
  deriving DecidableEq

def basename (key : String) : String :=
  String.ofList (key.toList.reverse.takeWhile (· != '/')).reverse

variable (H : Host) (limits : Limits) (now : ℤ) (grow : Bool)

/-- `Date.parse(a) < Date.parse(b)` -/
def earlier (a b : String) : Bool :=
  match H.dateParse a, H.dateParse b with
  | some s, some t => s < t
  | _, _ => false

def isAfter (a : String) (t : ℤ) : Bool := (H.dateParse a).any (t < ·)

section Helpers

def newAgent : Agent := ⟨none, 0, Dict.empty, [], none, none, none, H.toISOString now⟩

def Doc.modifyAgent (doc : Doc) (agentId : String) (f : Agent → Agent) : Doc :=
  match doc.agents.get? agentId with
  | none => doc
  | some entry => { doc with agents := doc.agents.set agentId (f entry) }

def ensureAgent (doc : Doc) (agentId : String) : Doc :=
  if (doc.agents.get? agentId).isSome || !grow then doc
  else { doc with agents := doc.agents.set agentId (newAgent H now) }

def Agent.reject (entryKey : String) (reason : RejectReason) (entry : Agent) : Agent :=
  if entry.rejectedKeys.contains entryKey then entry
  else
    let rejected := entry.rejected.set reason ((entry.rejected.get? reason).getD 0 + 1)
    { entry with
      rejected := rejected
      rejectedKeys := if entry.rejectedKeys.length < limits.rejectionsBeforePause
        then entry.rejectedKeys ++ [entryKey] else entry.rejectedKeys
      paused := if entry.paused.isNone && limits.rejectionsBeforePause ≤ rejected.values.sum
        then some ⟨.rejections, H.toISOString now⟩ else entry.paused }

/-- Counts a rejection once for each key. -/
def recordRejection (doc : Doc) (agentId suffix : String) (reason : RejectReason) : Doc :=
  let doc := ensureAgent H now grow doc agentId
  if grow then doc.modifyAgent agentId (Agent.reject H limits now (H.rejectedKeyEntry suffix) reason)
  else doc

def Agent.dropRow (entry : Agent) : Agent := { entry with rows := entry.rows - 1 }

def Doc.removeRow (doc : Doc) (key : String) : Doc := { doc with rows := doc.rows.delete key }

def Doc.setRow (doc : Doc) (key : String) (row : Row) : Doc := { doc with rows := doc.rows.set key row }

/-- Removes a displaced row; a displaced agent claim counts as `proof`. -/
def displace (doc : Doc) (key : String) : Doc :=
  match doc.rows.get? key with
  | none => doc
  | some row =>
    let doc := doc.removeRow key
    match agentOf row with
    | none => doc
    | some agentId =>
      let doc := (ensureAgent H now grow doc agentId).modifyAgent agentId Agent.dropRow
      recordRejection H limits now grow doc agentId (basename key) .proof

def displaceForDelete (doc : Doc) (key : String) (row : Row) : Doc :=
  let doc := doc.removeRow key
  match agentOf row with
  | none => doc
  | some agentId => doc.modifyAgent agentId Agent.dropRow

def Doc.isTombstoned (doc : Doc) (key : String) : Bool := doc.tombstones.any (·.key == key)

def Doc.isArchived (doc : Doc) (key : String) : Bool := doc.archives.any fun archive => archive.ids.contains key

def Doc.isRetired (doc : Doc) (key : String) : Bool := doc.isTombstoned key || doc.isArchived key

end Helpers

section Ops

inductive OpResult
  | applied
  | refused
  deriving DecidableEq

def Agent.release (action : AgentAction) (entry : Agent) : Agent :=
  match action with
  | .resume => { entry with paused := none }
  | .recheck => { entry with
      paused := none
      rejected := Dict.empty
      rejectedKeys := []
      newerKeys := none
      newerV := none }

def revokedRow (at_ : String) (confirmed : Bool) (row : Row) : Row :=
  match row.r with
  | none => { row with r := some ⟨at_, confirmed⟩ }
  | some r => { row with r := some ⟨if earlier H at_ r.at_ then at_ else r.at_, r.confirmed || confirmed⟩ }

/-- Only revoked, expired or unreadable rows are deleted. -/
def deletable (row : Row) : Bool := row.r.isSome || !isAfter H row.x now || row.na

def applyOp (doc : Doc) (op : ShareIndexOp) : Doc × OpResult :=
  match op.body with
  | .agent agentId action =>
    match doc.agents.get? agentId with
    | none => (doc, .refused)
    | some _ => (doc.modifyAgent agentId (Agent.release action), .applied)
  | .upsert key row =>
    if doc.isRetired key then (doc, .refused)
    else match doc.rows.get? key with
      | some _ => (doc, .applied)
      | none =>
        match decideClaim doc.rows key row with
        | .refuse _ => (doc, .refused)
        | .admit_ displaced => ((displaced.foldl (displace H limits now grow) doc).setRow key row, .applied)
  | .revoke key at_ confirmed =>
    match doc.rows.get? key with
    | none => (doc, if doc.isRetired key then .applied else .refused)
    | some row => (doc.setRow key (revokedRow H at_ confirmed row), .applied)
  | .delete key =>
    match doc.rows.get? key with
    | none => (doc, if doc.isTombstoned key then .applied else .refused)
    | some row =>
      if deletable H now row then
        let doc := displaceForDelete doc key row
        ({ doc with tombstones := doc.tombstones ++ [⟨key, H.toISOString now⟩] }, .applied)
      else (doc, .refused)

/-- The document after the ops, and the ids of the refused ones. -/
def applyOps : Doc → List ShareIndexOp → Doc × List String
  | doc, [] => (doc, [])
  | doc, op :: ops =>
    let (doc, result) := applyOp H limits now true doc op
    let (doc, refused) := applyOps doc ops
    (doc, if result = .refused then op.id :: refused else refused)

end Ops

section Findings

/-- The document of a pass, the bytes of its agent rows as the pass counts them, and the admissions. -/
structure Pass where
  doc : Doc
  agentBytes : ℤ
  admitted : ℕ

def Agent.noteNewer (entryKey : String) (recordV : ℕ) (entry : Agent) : Agent :=
  let keys := entry.newerKeys.getD []
  let entry := { entry with newerKeys := some keys }
  if keys.contains entryKey then entry
  else if limits.rejectionsBeforePause ≤ keys.length then
    { entry with paused := entry.paused <|> some ⟨.newer, H.toISOString now⟩ }
  else
    { entry with
      newerKeys := some (keys ++ [entryKey])
      newerV := some (max (entry.newerV.getD 0) recordV) }

def Agent.clearNewer (entry : Agent) : Agent :=
  { entry with
    newerKeys := none
    newerV := none
    paused := entry.paused.filter (·.reason != .newer) }

def Agent.pauseAtCap (entry : Agent) : Agent :=
  if limits.liveRowsPerAgent ≤ entry.rows then
    { entry with paused := entry.paused <|> some ⟨.rowCap, H.toISOString now⟩ }
  else entry

def Agent.addRow (did : String) (entry : Agent) : Agent :=
  { entry with
    rows := entry.rows + 1
    did := entry.did <|> some did }

def Pass.displaceAll (pass : Pass) (displaced : List String) : Pass :=
  displaced.foldl (fun pass key =>
    { pass with
      doc := displace H limits now grow pass.doc key
      agentBytes := pass.agentBytes - ((pass.doc.rows.get? key).elim 0 H.bytesOf : ℕ) }) pass

def agentBudget : Rat := limits.mainRowBytes * limits.agentRowShare

def applyAgentFinding (pass : Pass) (key agentId did : String) (row : Row) : Pass :=
  let pass := { pass with doc := ensureAgent H now grow pass.doc agentId }
  match pass.doc.agents.get? agentId with
  | none => pass
  | some entry =>
    if entry.paused.isSome || entry.rejectedKeys.contains (H.rejectedKeyEntry (basename key)) then pass
    else if limits.liveRowsPerAgent ≤ entry.rows then
      { pass with doc := pass.doc.modifyAgent agentId (Agent.pauseAtCap H limits now) }
    else if agentBudget limits < ((pass.agentBytes + H.bytesOf row : ℤ) : Rat) then pass
    else match decideClaim pass.doc.rows key row with
      | .refuse _ =>
        { pass with doc := recordRejection H limits now grow pass.doc agentId (basename key) .proof }
      | .admit_ displaced =>
        let pass := pass.displaceAll H limits now grow displaced
        let doc := (pass.doc.setRow key row).modifyAgent agentId
          fun entry => (entry.addRow did).pauseAtCap H limits now
        ⟨doc, pass.agentBytes + H.bytesOf row, pass.admitted + 1⟩

def Row.claimless (row : Row) : Row :=
  { row with
    cid := none
    cc := none
    na := true }

/-- A migrated import that loses precedence stays visible without a claim. -/
def applyWebFinding (pass : Pass) (key : String) (row : Row) : Pass :=
  match decideClaim pass.doc.rows key row with
  | .refuse _ => if row.migrated then { pass with doc := pass.doc.setRow key row.claimless } else pass
  | .admit_ displaced =>
    let pass := pass.displaceAll H limits now grow displaced
    { pass with
      doc := pass.doc.setRow key row
      admitted := pass.admitted + 1 }

def applyFinding (pass : Pass) (finding : Finding) : Pass :=
  match finding with
  | .reject agentId suffix reason =>
    { pass with doc := recordRejection H limits now grow pass.doc agentId suffix reason }
  | .gc agentId =>
    match pass.doc.agents.get? agentId with
    | none => pass
    | some entry =>
      if entry.rows = 0 then { pass with doc := { pass.doc with agents := pass.doc.agents.delete agentId } }
      else pass
  | .clearNewer agentId => { pass with doc := pass.doc.modifyAgent agentId Agent.clearNewer }
  | .newer agentId suffix recordV =>
    let doc := ensureAgent H now grow pass.doc agentId
    { pass with doc := if grow
        then doc.modifyAgent agentId (Agent.noteNewer H limits now (H.rejectedKeyEntry suffix) recordV)
        else doc }
  | .web key row =>
    if (pass.doc.rows.get? key).isSome || pass.doc.isRetired key then pass
    else applyWebFinding H limits now grow pass key row
  | .agent key agentId did row =>
    if (pass.doc.rows.get? key).isSome || pass.doc.isRetired key then pass
    else applyAgentFinding H limits now grow pass key agentId did row

def agentRowBytes (rows : Rows) : ℕ :=
  ((rows.values.filter fun row => (agentOf row).isSome).map H.bytesOf).sum

def applyFindings (doc : Doc) (findings : List Finding) : Pass :=
  findings.foldl (applyFinding H limits now grow) ⟨doc, agentRowBytes H doc.rows, 0⟩

end Findings

def emptyIndexDocument (ownerDid spaceId writer : String) : Doc :=
  ⟨ownerDid, spaceId, H.toISOString now, writer, [], [], none, Dict.empty, Dict.empty⟩

section Changes

/-- The rows that one compaction archives under one name. -/
structure Group where
  name : String
  rows : Rows
  deriving DecidableEq

inductive Change
  | ops (ops : List ShareIndexOp)
  | findings (findings : List Finding) (cursor : Option String)
  | statuses (results : List (String × Bool))
  | compaction (groups : List Group) (expired : List String)
  deriving DecidableEq

/-- What the last application of a change reports beside the document. -/
structure Feedback where
  refused : List String
  admitted : ℕ
  headerFull : Bool

/-- The outcome of a status check, `true` for revoked. -/
def applyStatus (doc : Doc) (result : String × Bool) : Doc :=
  match doc.rows.get? result.1 with
  | none => doc
  | some row =>
    if row.revoked then doc
    else if result.2 then
      doc.setRow result.1 { row with r := some ⟨row.r.elim (H.toISOString now) (·.at_), true⟩ }
    else if row.r.isSome then doc.setRow result.1 { row with r := none }
    else doc

def addIds (ids keys : List String) : List String :=
  keys.foldl (fun ids key => if ids.contains key then ids else ids ++ [key]) ids

def addArchive (name : String) (keys : List String) : List Archive → List Archive
  | [] => [⟨name, addIds [] keys⟩]
  | archive :: archives =>
    if archive.name = name then { archive with ids := addIds archive.ids keys } :: archives
    else archive :: addArchive name keys archives

def removeLive (doc : Doc) (key : String) : Doc :=
  match doc.rows.get? key with
  | none => doc
  | some row => displaceForDelete doc key row

def retireGroup (doc : Doc) (group : Group) : Doc :=
  let doc := { doc with archives := addArchive group.name group.rows.keys doc.archives }
  group.rows.keys.foldl removeLive doc

def Change.apply (change : Change) (doc : Doc) : Doc × Feedback :=
  match change with
  | .ops batch =>
    let (doc, refused) := applyOps H limits now doc batch
    (doc, ⟨refused, 0, false⟩)
  | .findings found cursor =>
    -- Findings that would grow the header past its cap are applied without new agent state.
    let trial := (applyFindings H limits now true doc found).doc
    let headerFull := limits.headerBytes < H.headerBytes trial && H.headerBytes doc < H.headerBytes trial
    let pass := applyFindings H limits now (!headerFull) doc found
    ({ pass.doc with cursor := cursor }, ⟨[], pass.admitted, headerFull⟩)
  | .statuses results => (results.foldl (applyStatus H now) doc, ⟨[], 0, false⟩)
  | .compaction groups expired =>
    let doc := groups.foldl retireGroup doc
    ({ doc with tombstones := doc.tombstones.filter fun t => !expired.contains t.key }, ⟨[], 0, false⟩)

def sameDict {κ α : Type} [DecidableEq κ] [DecidableEq α] (left right : Dict κ α) : Bool :=
  left.entries.isPerm right.entries

/-- Equal but for `updatedAt` and `updatedBy`, and for the order of keys. -/
def sameContent (left right : Doc) : Bool :=
  left.ownerDid == right.ownerDid && left.spaceId == right.spaceId && left.archives == right.archives &&
    left.tombstones == right.tombstones && left.cursor == right.cursor &&
    sameDict left.agents right.agents && sameDict left.rows right.rows

end Changes

end TinyCloud.ShareIndex
