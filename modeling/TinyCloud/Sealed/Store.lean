import TinyCloud.Collections.Dict
import TinyCloud.Replica.Store
import TinyCloud.Runs.Fallible
import TinyCloud.Runs.Interleaved
import TinyCloud.Runs.Machine

/-! The sealed replica store of the browser. A write prepares its rows from a snapshot outside of any transaction,
and commits them in one if the revision is still that of the snapshot. -/

namespace TinyCloud.Sealed

open TinyCloud.Collections TinyCloud.Replica TinyCloud.Runs

inductive SealedError
  | busy
  | notFound
  | storageError
  | resetRequired
  | consentExpired
  | grantNotYetValid
  | grantExpired
  | grantRevoked
  deriving DecidableEq, Repr

structure Live extends ReplicaRow where
  writerEpoch : ℕ
  writerHolder : Option String
  serial : ℕ
  purgePending : Bool
  syncedThroughEpoch : ℕ
  deriving DecidableEq, Repr

structure Counters where
  keys : ℤ
  contentMissing : ℤ
  tombstones : ℤ
  contentBytes : ℤ
  deriving DecidableEq, Repr

/-- A row without a state is the tombstone of a purge. -/
structure SealedMeta where
  revision : ℕ
  generation : ℕ
  coverage : Coverage
  syncedThroughEpoch : ℕ
  counters : Counters
  state : Option Live
  deriving DecidableEq, Repr

structure SealedEntry where
  hashId : Option String
  row : EntryRow
  deriving DecidableEq, Repr

structure SealedBlob where
  hash : String
  bytes : ByteArray

structure Partition where
  metaRow : Option SealedMeta
  entries : Dict String SealedEntry
  blobs : Dict String SealedBlob

/-- The opaque primary keys of entries and of contents. -/
structure Ids where
  entry : String → String
  blob : String → String

structure Handle where
  holder : String
  generation : ℕ

structure Deadlines where
  consent : ℕ
  grant : String → Option ℕ

/-- What a readwrite transaction stores once its checks have passed. -/
inductive Write
  | commitMeta (row : SealedMeta)
  | applyPage (row : SealedMeta) (newBlobs : List (String × SealedBlob)) (newEntries : List (String × SealedEntry))
  | eraseRows (row : SealedMeta)
  | collectGarbage (row : SealedMeta) (remove : List String)

def putAll {α : Type} (d : Dict String α) (rows : List (String × α)) : Dict String α :=
  rows.foldl (fun d r => d.set r.1 r.2) d

def deleteAll {α : Type} (d : Dict String α) (ids : List String) : Dict String α := ids.foldl Dict.delete d

def Write.apply (s : Partition) : Write → Partition
  | .commitMeta row => { s with metaRow := some row }
  | .applyPage row newBlobs newEntries => ⟨some row, putAll s.entries newEntries, putAll s.blobs newBlobs⟩
  | .eraseRows row => ⟨some row, .empty, .empty⟩
  | .collectGarbage row remove => { s with metaRow := some row, blobs := deleteAll s.blobs remove }

inductive Op
  | now
  | policyView
  | getMeta
  | getRows
  | commit (revision : Option ℕ) (check : ℕ → Except SealedError Unit) (w : Write)

inductive Committed
  | done
  | conflict
  | refused (e : SealedError)

abbrev Op.Res : Op → Type
  | .now => ℕ
  | .policyView => Deadlines
  | .getMeta => Option SealedMeta
  | .getRows => Dict String SealedEntry × Dict String SealedBlob
  | .commit .. => Committed

/-- What an operation meets: it fails at the gate, the quota or the database, the clock, and the policy's deadlines. -/
structure Choice where
  fails : Bool
  now : ℕ
  deadlines : Deadlines

/-- Each operation is one transaction; a refused one stores nothing. -/
def runOp (c : Choice) (s : Partition) : (o : Op) → Option o.Res × Partition
  | .now => (some c.now, s)
  | .policyView => (if c.fails then none else some c.deadlines, s)
  | .getMeta => (if c.fails then none else some s.metaRow, s)
  | .getRows => (if c.fails then none else some (s.entries, s.blobs), s)
  | .commit revision check w =>
    if c.fails then (none, s)
    else if s.metaRow.map SealedMeta.revision ≠ revision then (some .conflict, s)
    else match check c.now with
      | .error e => (some (.refused e), s)
      | .ok () => (some .done, w.apply s)

abbrev Call := Code SealedError Op Op.Res

def perform (o : Op) : Call o.Res := TinyCloud.Runs.perform .storageError o

def check {α : Type} : Except SealedError α → Call α
  | .ok a => pure a
  | .error e => throw e

/-- One transaction that stores the write, or finds another revision. -/
def commit (row : Option SealedMeta) (checks : ℕ → Except SealedError Unit) (w : Write) : Call Bool := do
  match ← perform (.commit (row.map SealedMeta.revision) checks w) with
  | .done => return true
  | .conflict => return false
  | .refused e => throw e

def maxCasAttempts : ℕ := 8

/-- An attempt without a result met a conflict. -/
def withAttempts {α : Type} (attempt : Call (Option α)) : ℕ → Call α
  | 0 => throw .busy
  | n + 1 => do
    match ← attempt with
    | some a => return a
    | none => withAttempts attempt n

section Guards

/-- The controls of a row agree with its sealed state. -/
def authentic (row : Option SealedMeta) : Except SealedError (Option SealedMeta) :=
  match row.bind SealedMeta.state with
  | none => .ok row
  | some state =>
    if row.any fun r => decide (state.generation = r.generation ∧ state.coverage = r.coverage ∧
        state.syncedThroughEpoch = r.syncedThroughEpoch) then .ok row
    else .error .storageError

def snapshot : Call (Option SealedMeta) := do
  check (authentic (← perform .getMeta))

def live (h : Handle) : Option SealedMeta → Except SealedError Live
  | none => .error .notFound
  | some row => match row.state with
    | none => .error .resetRequired
    | some state => if state.generation ≠ h.generation then .error .resetRequired else .ok state

def fence (h : Handle) (state : Live) (token : LeaseToken) (now : ℕ) : Except SealedError Unit :=
  if state.revokedDetail.isSome then .error .grantRevoked
  else if state.leaseToken ≠ token.token ∨ state.leaseHolder ≠ some token.holder ∨ state.writerHolder ≠ some h.holder ∨
      state.leaseExpiresAt.all (· ≤ now) then .error .busy
  else .ok ()

/-- Counters that are not given are those of the old row. -/
def sealedMeta (state : Live) (old : Option SealedMeta) (counters : Option Counters) : SealedMeta where
  revision := (old.map SealedMeta.revision).getD 0 + 1
  generation := state.generation
  coverage := state.coverage
  syncedThroughEpoch := state.syncedThroughEpoch
  counters := (counters <|> old.map SealedMeta.counters).getD ⟨0, 0, 0, 0⟩
  state := some state

end Guards

section CommitMeta

/-- A metadata write: what it makes of the state (nothing, if it stops), and its checks in the transaction. -/
structure MetaWrite where
  initial : Bool
  change : ℕ → Deadlines → Option Live → Option SealedMeta → Except SealedError (Option Live)
  checks : Deadlines → Live → ℕ → Except SealedError Unit

def commitMetaAttempt (h : Handle) (w : MetaWrite) : Call (Option Unit) := do
  let row ← snapshot
  let state ← check (if w.initial then .ok (row.bind SealedMeta.state) else (live h row).map some)
  let deadlines ← perform .policyView
  let now ← perform .now
  match ← check (w.change now deadlines state row) with
  | none => return some ()
  | some next =>
    let committed ← commit row (w.checks deadlines next) (.commitMeta (sealedMeta next row none))
    return if committed then some () else none

def commitMeta (h : Handle) (w : MetaWrite) : Call Unit := withAttempts (commitMetaAttempt h w) maxCasAttempts

def unchecked : Deadlines → Live → ℕ → Except SealedError Unit := fun _ _ _ => .ok ()

/-- A write that makes a new state of the current one. -/
def MetaWrite.of (change : ℕ → Live → Option Live) : MetaWrite :=
  ⟨false, fun now _ state _ => .ok (state.bind (change now)), unchecked⟩

def init (space folder : String) (localReadPolicy : LocalReadPolicy) (retentionGrantCid : Option String) : MetaWrite where
  initial := true
  change _ _ state row := .ok <| match state with
    | some _ => none
    | none => some {
        initRow space folder localReadPolicy retentionGrantCid with
        generation := row.elim 0 fun r => if r.state.isNone then r.generation + 1 else 0
        writerEpoch := 0
        writerHolder := none
        serial := 0
        purgePending := false
        syncedThroughEpoch := 0 }
  checks := unchecked

def setRetentionGrant (cid : Option String) : MetaWrite := .of fun _ state =>
  if state.retentionGrantCid = cid then none
  else some { state with
    retentionGrantCid := cid
    localReadPolicy := if cid.isNone then .whileGrantValid else .retainAfterExpiry
    retainUntil := none }

def installGrant (grant : GrantRecord) : MetaWrite := .of fun _ state =>
  if state.grant.any (·.cid == grant.cid) || state.pendingGrant.any (·.cid == grant.cid) then none
  else some { state with pendingGrant := some grant }

def claimWriterLock (h : Handle) : MetaWrite := .of fun _ state =>
  let state := { state with writerEpoch := state.writerEpoch + 1, writerHolder := some h.holder }
  if state.leaseHolder.any (· ≠ h.holder) then some { state with leaseHolder := none, leaseExpiresAt := none }
  else some state

def acquireSyncLease (h : Handle) (ttlMs : ℕ) : MetaWrite := .of fun now state =>
  if state.leaseHolder.isSome && state.leaseExpiresAt.any (now < ·) then none
  else some { state with
    writerEpoch := state.writerEpoch + 1
    writerHolder := some h.holder
    leaseToken := state.leaseToken + 1
    leaseHolder := some h.holder
    leaseExpiresAt := some (now + ttlMs) }

def renewLease (h : Handle) (token : LeaseToken) (ttlMs : ℕ) : MetaWrite where
  initial := false
  change now _ state _ := do
    let state ← orThrow state .notFound
    fence h state token now
    return some { state with leaseExpiresAt := some (now + ttlMs) }
  checks := unchecked

def releaseLease (token : LeaseToken) : MetaWrite := .of fun _ state =>
  if state.leaseToken ≠ token.token ∨ state.leaseHolder ≠ some token.holder then none
  else some { state with leaseHolder := none, leaseExpiresAt := none }

def completeSync (h : Handle) (token : LeaseToken) (syncStartEpoch : ℕ) : MetaWrite where
  initial := false
  change now _ state _ := do
    let state ← orThrow state .notFound
    fence h state token now
    return some { state with syncedThroughEpoch := syncStartEpoch }
  checks deadlines state now :=
    if deadlines.consent ≤ now then .error .consentExpired
    else if (state.grant.bind fun g => deadlines.grant g.cid).all (· ≤ now) then .error .grantExpired
    else .ok ()

def discardPendingGrant (cid : String) : MetaWrite := .of fun _ state =>
  if state.pendingGrant.any (·.cid == cid) then some { state with pendingGrant := none } else none

def markRetentionRevoked (cid detail : String) : MetaWrite := .of fun _ state =>
  if state.retentionGrantCid = some cid then
    some { state with
      retentionGrantCid := none
      localReadPolicy := .whileGrantValid
      retainUntil := none
      retentionRevoked := some detail }
  else some state

end CommitMeta

end TinyCloud.Sealed
