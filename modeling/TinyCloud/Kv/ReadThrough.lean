import TinyCloud.Kv.PendingWrites
import TinyCloud.Runs.Machine
import Mathlib.Logic.Function.Basic

/-! Read-through replication of one identity: clients write through the shared
pending-write state, replicas sync from the server, and gets are served locally
when the pending state allows it. Every step is one atomic action of the
controller, the pending store, a replica or the server. -/

namespace TinyCloud.Kv.ReadThrough

open PendingWriteState

variable {V : Type*}

inductive Coverage
  | empty
  | bootstrapping
  | complete
  deriving DecidableEq, Repr

inductive AuthorityState
  | valid
  | expired
  | revoked
  | notYetValid
  deriving DecidableEq, Repr

structure LocalReplicaStatus where
  coverage : Coverage
  authority : AuthorityState
  syncedThroughEpoch : ℕ
  deriving DecidableEq, Repr

inductive ReplicationReason
  | pendingWrite (state : RecordState)
  | replicaUnprovenSinceStart
  | replicaBehindOwnWrites
  | grantExpired
  | grantRevoked
  | grantNotYetValid
  | coverageIncomplete
  deriving DecidableEq, Repr

def authorityReason : AuthorityState → Option ReplicationReason
  | .valid => none
  | .expired => some .grantExpired
  | .revoked => some .grantRevoked
  | .notYetValid => some .grantNotYetValid

def getFallback (path : String) (durable proven : Bool) (status : LocalReplicaStatus)
    (pending : PendingWriteState) : Option ReplicationReason :=
  match pending.records.find? (fun r => r.key == path) with
  | some record => some (.pendingWrite record.state)
  | none =>
    if !durable && !proven then some .replicaUnprovenSinceStart
    else if status.syncedThroughEpoch < pending.committedEpoch then some .replicaBehindOwnWrites
    else authorityReason status.authority <|>
      if status.coverage ≠ .complete then some .coverageIncomplete else none

abbrev WriteEntry (V : Type*) := String × Option V

def WriteEntry.op (e : WriteEntry V) : WriteOp :=
  if e.2.isSome then .put else .delete

structure Write (V : Type*) where
  unapplied : List (WriteEntry V)
  outcome : Option WriteOutcome

structure Applied (V : Type*) where
  opId : String
  key : String
  content : Option V

-- `asOf` counts the writes the server had applied.
structure Snapshot (V : Type*) where
  asOf : ℕ
  content : String → Option V

structure Replica (V : Type*) where
  folder : String
  rows : Option (Snapshot V)
  syncedThroughEpoch : ℕ
  lease : Option ℕ

inductive SyncPhase (V : Type*)
  | captured (replica syncStartEpoch : ℕ)
  | fetched (replica syncStartEpoch : ℕ) (snapshot : Snapshot V)
  | installed (folder : String) (syncStartEpoch : ℕ)

inductive GetPhase
  | status (replica : ℕ) (key : String) (status : LocalReplicaStatus)
  | checked (replica : ℕ) (key : String) (checkedAt : ℕ)

structure Served (V : Type*) where
  key : String
  content : Option V
  checkedAt : ℕ

structure State (V : Type*) where
  pending : PendingWriteState
  log : List (Applied V)
  writes : String → Option (Write V)
  replicas : ℕ → Replica V
  syncs : ℕ → Option (SyncPhase V)
  gets : ℕ → Option GetPhase
  served : List (Served V)

-- The server's content once it has applied the first `n` writes.
def contentAt (base : String → Option V) (log : List (Applied V)) (n : ℕ) (key : String) : Option V :=
  match (log.take n).reverse.find? (fun e => e.key == key) with
  | some e => e.content
  | none => base key

-- The position just past the last of these writes to the key, or 0.
def lastWrite (log : List (Applied V)) (key : String) : ℕ :=
  log.length - log.reverse.findIdx (fun e => e.key == key)

inductive Action (V : Type*)
  | beginWrite (opId : String) (entries : List (WriteEntry V)) (startedAt : String)
  | apply (opId : String) (entry : ℕ)
  | settle (opId : String) (outcome : WriteOutcome) (settledAt : String) (code : Option String)
  | captureEpoch (sync replica : ℕ)
  | fetch (sync : ℕ)
  | install (sync : ℕ)
  | afterSync (sync : ℕ)
  | abandonSync (sync : ℕ)
  | readStatus (get replica : ℕ) (key : String) (authority : AuthorityState)
  | checkPending (get : ℕ) (durable proven : Bool)
  | serve (get : ℕ)

def maySettle (s : State V) (opId : String) (w : Write V) (outcome : WriteOutcome) : Bool :=
  w.outcome.isNone && match outcome with
    | .committed => w.unapplied.isEmpty
    | .failed => s.log.all (fun e => e.opId != opId)
    | .ambiguous => true

def beginWrite (s : State V) (opId : String) (entries : List (WriteEntry V)) (startedAt : String) :
    State V :=
  { s with
    pending := s.pending.begin opId (entries.map fun e => (e.1, WriteEntry.op e)) startedAt
    writes := Function.update s.writes opId (some ⟨entries, none⟩) }

def applyWrite (s : State V) (opId : String) (w : Write V) (i : ℕ) (e : WriteEntry V) : State V :=
  { s with
    log := s.log ++ [⟨opId, e.1, e.2⟩]
    writes := Function.update s.writes opId (some { w with unapplied := w.unapplied.eraseIdx i }) }

def settleWrite (s : State V) (opId : String) (w : Write V) (outcome : WriteOutcome)
    (settledAt : String) (code : Option String) : State V :=
  { s with
    pending := s.pending.settle opId outcome settledAt code
    writes := Function.update s.writes opId (some { w with outcome := some outcome }) }

def fetchSnapshot (base : String → Option V) (s : State V) (y r e : ℕ) : State V :=
  { s with
    replicas := Function.update s.replicas r { s.replicas r with lease := some y }
    syncs := Function.update s.syncs y
      (some (.fetched r e ⟨s.log.length, contentAt base s.log s.log.length⟩)) }

def installSnapshot (s : State V) (y r e : ℕ) (snap : Snapshot V) : State V :=
  { s with
    replicas := Function.update s.replicas r
      { s.replicas r with rows := some snap, syncedThroughEpoch := e, lease := none }
    syncs := Function.update s.syncs y (some (.installed (s.replicas r).folder e)) }

def afterSyncPending (s : State V) (y : ℕ) (folder : String) (e : ℕ) : State V :=
  { s with
    pending := s.pending.afterSync folder e
    syncs := Function.update s.syncs y none }

def dropSync (s : State V) (y : ℕ) : State V :=
  { s with syncs := Function.update s.syncs y none }

-- A crashed sync loses its lease by expiry, so that a later one may take it.
def dropLease (s : State V) (y r : ℕ) : State V :=
  { s with
    replicas := Function.update s.replicas r
      { s.replicas r with
        lease := if (s.replicas r).lease = some y then none else (s.replicas r).lease }
    syncs := Function.update s.syncs y none }

def eraseReplica (s : State V) (r : ℕ) : State V :=
  { s with replicas := Function.update s.replicas r ⟨(s.replicas r).folder, none, 0, none⟩ }

def statusOf (rep : Replica V) (authority : AuthorityState) : LocalReplicaStatus :=
  ⟨if rep.rows.isSome then .complete else .empty, authority, rep.syncedThroughEpoch⟩

def step (base : String → Option V) (s : State V) : Action V → Option (State V)
  | .beginWrite opId entries startedAt =>
    if (s.writes opId).isNone then some (beginWrite s opId entries startedAt) else none
  | .apply opId i => do
    let w ← s.writes opId
    let e ← w.unapplied[i]?
    if w.outcome = some .failed then none else some (applyWrite s opId w i e)
  | .settle opId outcome settledAt code => do
    let w ← s.writes opId
    if maySettle s opId w outcome then some (settleWrite s opId w outcome settledAt code) else none
  | .captureEpoch y r =>
    if (s.syncs y).isNone then
      some { s with syncs := Function.update s.syncs y (some (.captured r s.pending.committedEpoch)) }
    else none
  | .fetch y =>
    match s.syncs y with
    | some (.captured r e) =>
      if (s.replicas r).lease.isNone then some (fetchSnapshot base s y r e) else none
    | _ => none
  | .install y =>
    match s.syncs y with
    | some (.fetched r e snap) =>
      if (s.replicas r).lease = some y then some (installSnapshot s y r e snap) else none
    | _ => none
  | .afterSync y =>
    match s.syncs y with
    | some (.installed folder e) => some (afterSyncPending s y folder e)
    | _ => none
  | .abandonSync y =>
    match s.syncs y with
    | some (.fetched r _ _) => some (dropLease s y r)
    | some _ => some (dropSync s y)
    | none => none
  | .readStatus g r key authority =>
    if (s.gets g).isNone && kvPrefixCovers (s.replicas r).folder key then
      some { s with
        gets := Function.update s.gets g (some (.status r key (statusOf (s.replicas r) authority))) }
    else none
  | .checkPending g durable proven =>
    match s.gets g with
    | some (.status r key status) =>
      some { s with
        gets := Function.update s.gets g
          (match getFallback key durable proven status s.pending with
          | none => some (.checked r key s.log.length)
          | some _ => none) }
    | _ => none
  | .serve g =>
    match s.gets g with
    | some (.checked r key checkedAt) =>
      (s.replicas r).rows.map fun snap =>
        { s with
          gets := Function.update s.gets g none
          served := s.served ++ [⟨key, snap.content key, checkedAt⟩] }
    | _ => none

def init (identity : ReplicationIdentity) (folders : ℕ → String) : State V where
  pending := emptyPendingState identity
  log := []
  writes _ := none
  replicas r := ⟨folders r, none, 0, none⟩
  syncs _ := none
  gets _ := none
  served := []

def machine (identity : ReplicationIdentity) (folders : ℕ → String) (base : String → Option V) :
    Runs.Machine (State V) (Action V) where
  initial s := s = init identity folders
  step := step base

-- `checkedAt` counts the writes the server had applied at the get's pending check.
def Current (base : String → Option V) (log : List (Applied V)) (d : Served V) : Prop :=
  ∃ i, lastWrite (log.take d.checkedAt) d.key ≤ i ∧ i ≤ log.length ∧ contentAt base log i d.key = d.content

instance [DecidableEq V] (base : String → Option V) (log : List (Applied V)) (d : Served V) :
    Decidable (Current base log d) :=
  decidable_of_iff ((List.range (log.length + 1)).any fun i =>
    decide (lastWrite (log.take d.checkedAt) d.key ≤ i) && decide (contentAt base log i d.key = d.content)) <| by
  simp only [List.any_eq_true, Bool.and_eq_true, decide_eq_true_eq, Current, List.mem_range, Nat.lt_succ_iff]
  exact exists_congr fun i => and_left_comm

end TinyCloud.Kv.ReadThrough
