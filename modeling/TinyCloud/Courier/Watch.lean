import Mathlib.Algebra.Group.Nat.Defs
import Mathlib.Data.Nat.Notation
import Mathlib.Logic.Function.Basic
import TinyCloud.Runs.Machine

/-! The watchers of one profile: the state each keeps and writes with if-match, the pause markers,
the claims of wakes and the adapter runs, one request or one synchronous stretch of code at a time. -/

namespace TinyCloud.Courier

structure ThreadKey where
  peer : String
  threadId : String
  deriving DecidableEq, Repr

structure WakeMessage where
  messageId : String
  intent : String
  deriving DecidableEq, Repr

structure WakeApproval where
  approvalId : String
  decision : String
  deriving DecidableEq, Repr

structure PendingWake where
  messages : List WakeMessage
  approvals : List WakeApproval
  firstSeenAt : ℕ
  lastSeenAt : ℕ
  deriving DecidableEq, Repr

structure WakeRetry where
  failures : ℕ
  nextAttemptAt : ℕ
  deriving DecidableEq, Repr

structure WatchState where
  pending : ThreadKey → Option PendingWake
  woken : List String
  approvalsSeen : List String
  wakes : ThreadKey → List ℕ
  paused : List ThreadKey
  wakeRetries : ThreadKey → Option WakeRetry
  approvalRetries : ThreadKey → Option WakeRetry
  held : ThreadKey → List WakeMessage

def emptyWatchState : WatchState :=
  ⟨fun _ => none, [], [], fun _ => [], [], fun _ => none, fun _ => none, fun _ => []⟩

structure WatchOptions where
  debounceMs : ℕ
  wakeBudget : ℕ

def WAKE_INTENTS : List String := ["request", "ask", "answer", "update"]
def WAKEN_MEMORY : ℕ := 500
def WAKE_RETRY_MS : ℕ := 60000
def OWN_CLAIM_LEASE_MS : ℕ := 35 * 60000
def FOREIGN_CLAIM_LEASE_MS : ℕ := 45 * 60000
def CLAIM_SKIP_MS : ℕ := 30000
def DAY_MS_ : ℕ := 24 * 3600 * 1000
def MAX_HELD_PER_THREAD : ℕ := 100

/-- The UTC day. -/
def dayOf (at_ : ℕ) : ℕ := at_ / DAY_MS_

def wakeDueAt (pending : PendingWake) (debounceMs : ℕ) : ℕ :=
  if pending.approvals.isEmpty then
    min (pending.lastSeenAt + debounceMs) (pending.firstSeenAt + 2 * debounceMs)
  else pending.firstSeenAt

structure Delivered where
  key : ThreadKey
  messageId : String
  intent : Option String
  deriving DecidableEq, Repr

abbrev MessageKey := ThreadKey × String

section State

def lastOf {α : Type} (n : ℕ) (l : List α) : List α := l.drop (l.length - n)

def hasMessage (messages : List WakeMessage) (id : String) : Bool := messages.any (·.messageId == id)

namespace WatchState

def recentWakes (s : WatchState) (key : ThreadKey) (now : ℕ) : List ℕ :=
  (s.wakes key).filter fun at_ => dayOf at_ = dayOf now

def hold (s : WatchState) (key : ThreadKey) (m : WakeMessage) : WatchState :=
  if hasMessage (s.held key) m.messageId then s
  else { s with held := Function.update s.held key (lastOf MAX_HELD_PER_THREAD (s.held key ++ [m])) }

/-- What `hold` pushes out of the backlog. -/
def pushedOut (s : WatchState) (key : ThreadKey) (m : WakeMessage) : List MessageKey :=
  if hasMessage (s.held key) m.messageId then []
  else ((s.held key ++ [m]).take ((s.held key).length + 1 - MAX_HELD_PER_THREAD)).map (fun m => (key, m.messageId))

def addMessage (s : WatchState) (key : ThreadKey) (at_ : ℕ) (m : WakeMessage) : WatchState :=
  let entry := (s.pending key).getD ⟨[], [], at_, at_⟩
  if hasMessage entry.messages m.messageId then { s with pending := Function.update s.pending key (some entry) }
  else
    { s with
      pending := Function.update s.pending key
        (some { entry with messages := entry.messages ++ [m], lastSeenAt := at_ }) }

def addApproval (at_ : ℕ) (s : WatchState) (wake : ThreadKey × WakeApproval) : WatchState :=
  let entry := (s.pending wake.1).getD ⟨[], [], at_, at_⟩
  let approvals := if entry.approvals.any (·.approvalId == wake.2.approvalId) then entry.approvals
    else entry.approvals ++ [wake.2]
  { s with
    pending := Function.update s.pending wake.1
      (some { entry with approvals := approvals, lastSeenAt := at_ }) }

def deliverOne (pausedKeys : List ThreadKey) (at_ : ℕ) (s : WatchState) (item : Delivered) :
    WatchState × List MessageKey :=
  match item.intent with
  | none => (s, [])
  | some intent =>
    if !WAKE_INTENTS.contains intent || s.woken.contains item.messageId then (s, [])
    else
      let m : WakeMessage := ⟨item.messageId, intent⟩
      if item.key ∈ pausedKeys then (s.hold item.key m, s.pushedOut item.key m)
      else (s.addMessage item.key at_ m, [])

def deliver (pausedKeys : List ThreadKey) (at_ : ℕ) : WatchState → List Delivered → WatchState × List MessageKey
  | s, [] => (s, [])
  | s, item :: items =>
    let (s, out) := s.deliverOne pausedKeys at_ item
    let (s, out') := deliver pausedKeys at_ s items
    (s, out ++ out')

def holdAll (key : ThreadKey) : WatchState → List WakeMessage → WatchState × List MessageKey
  | s, [] => (s, [])
  | s, m :: messages =>
    let out := s.pushedOut key m
    let (s, out') := holdAll key (s.hold key m) messages
    (s, out ++ out')

/-- Takes messages and approvals out of the pending wake of a thread. -/
def settle (s : WatchState) (key : ThreadKey) (messageIds approvalIds : List String) : WatchState :=
  match s.pending key with
  | none => s
  | some entry =>
    let messages := entry.messages.filter fun m => !messageIds.contains m.messageId
    let approvals := entry.approvals.filter fun a => !approvalIds.contains a.approvalId
    { s with
      pending := Function.update s.pending key
        (if messages.isEmpty && approvals.isEmpty then none else some { entry with messages, approvals }) }

def backOff (retries : ThreadKey → Option WakeRetry) (key : ThreadKey) (now : ℕ) : ThreadKey → Option WakeRetry :=
  let failures := ((retries key).map WakeRetry.failures).getD 0 + 1
  Function.update retries key
    (some ⟨failures, now + min (15 * 60000) (WAKE_RETRY_MS * 2 ^ (failures - 1))⟩)

/-- The backlog of a resumed thread becomes pending; the budget starts over. -/
def resume (at_ : ℕ) (s : WatchState) (key : ThreadKey) : WatchState :=
  let pending := if (s.held key).isEmpty then s.pending
    else ((s.held key).foldl (fun s m => s.addMessage key at_ m) s).pending
  { s with
    pending := if (s.held key).isEmpty then pending else
      Function.update pending key ((pending key).map fun entry => { entry with lastSeenAt := at_ })
    wakes := Function.update s.wakes key []
    wakeRetries := Function.update s.wakeRetries key none
    held := Function.update s.held key [] }

def resync (s : WatchState) (resumed added : List ThreadKey) (at_ : ℕ) : WatchState :=
  let s := resumed.foldl (resume at_) s
  { s with paused := (s.paused.filter fun key => key ∉ resumed) ++ added }

def prune (s : WatchState) (now : ℕ) : WatchState :=
  { s with
    wakes := fun key => if (s.recentWakes key now).isEmpty then [] else s.wakes key
    wakeRetries := fun key => if (s.pending key).isNone then none else s.wakeRetries key
    approvalRetries := fun key =>
      if (s.pending key).all (fun entry => entry.approvals.isEmpty) then none else s.approvalRetries key }

end WatchState

/-- The callers of `mutate`. -/
inductive Mutation
  | deliver (items : List Delivered) (at_ : ℕ)
  | approvals (handled : List String) (wakes : List (ThreadKey × WakeApproval)) (at_ : ℕ)
  | hold (key : ThreadKey) (messages : List WakeMessage)
  | count (key : ThreadKey) (carries : Bool)
  | backOff (key : ThreadKey) (messages approvals : Bool)
  | woke (key : ThreadKey) (woken approvedIds : List String)
  | recordPause (key : ThreadKey)
  | resync (resumed added : List ThreadKey) (at_ : ℕ)
  | prune
  /-- Notices and the outbox. -/
  | other

def Mutation.apply (pausedKeys : List ThreadKey) (now : ℕ) (s : WatchState) : Mutation → WatchState × List MessageKey
  | .deliver items at_ => s.deliver pausedKeys at_ items
  | .approvals handled wakes at_ =>
    (wakes.foldl (WatchState.addApproval at_) { s with
      approvalsSeen := s.approvalsSeen ++ handled.filter fun id => !s.approvalsSeen.contains id }, [])
  | .hold key messages =>
    let (s, out) := s.holdAll key messages
    (s.settle key (messages.map (·.messageId)) [], out)
  | .count key carries =>
    (if carries then { s with wakes := Function.update s.wakes key (s.recentWakes key now ++ [now]) } else s, [])
  | .backOff key forMessages forApprovals =>
    ({ s with
      wakeRetries := if forMessages then WatchState.backOff s.wakeRetries key now else s.wakeRetries
      approvalRetries := if forApprovals then WatchState.backOff s.approvalRetries key now
        else s.approvalRetries }, [])
  | .woke key woken approvedIds =>
    let s := s.settle key woken approvedIds
    ({ s with
      woken := lastOf WAKEN_MEMORY (s.woken ++ woken)
      wakeRetries := if woken.isEmpty then s.wakeRetries else Function.update s.wakeRetries key none
      approvalRetries := if approvedIds.isEmpty then s.approvalRetries
        else Function.update s.approvalRetries key none }, [])
  | .recordPause key => ({ s with paused := if key ∈ s.paused then s.paused else s.paused ++ [key] }, [])
  | .resync resumed added at_ => (s.resync resumed added at_, [])
  | .prune => (s.prune now, [])
  | .other => (s, [])

end State

section Watchers

/-- What one wake carries. -/
structure Snapshot where
  messages : List WakeMessage
  approvals : List WakeApproval
  deriving DecidableEq, Repr

def Snapshot.woken (s : Snapshot) : List String := s.messages.map (·.messageId)
def Snapshot.approvedIds (s : Snapshot) : List String := s.approvals.map (·.approvalId)
def Snapshot.claimId (s : Snapshot) : String := (s.woken ++ s.approvedIds).headD ""

structure Claim where
  profile : ℕ
  run : ℕ
  pid : ℕ
  at_ : ℕ
  deriving DecidableEq, Repr

abbrev ClaimKey := ThreadKey × String

inductive WakePhase
  | syncing
  | noticing (s : Snapshot)
  | pausing (s : Snapshot)
  | recording (s : Snapshot)
  | holding (approvals : List WakeApproval)
  | claiming (s : Snapshot) (stamp attempt : ℕ)
  | refused (s : Snapshot) (stamp attempt : ℕ)
  | judging (s : Snapshot) (stamp : ℕ) (held : Claim) (etag : Option ℕ)
  | taking (s : Snapshot) (stamp : ℕ) (etag : ℕ)
  | claimed (s : Snapshot)
  | counting (s : Snapshot)
  | running (s : Snapshot)
  | waking (s : Snapshot)
  | backingOff (s : Snapshot)
  | releasing (s : Snapshot)
  | deleting (s : Snapshot)
  deriving DecidableEq, Repr

/-- A run of `wakeThread`, with the time of the tick that started it. -/
structure WakeTask where
  at_ : ℕ
  phase : WakePhase
  deriving DecidableEq, Repr

inductive SyncPhase
  | waiting
  | listed (keys : List ThreadKey)
  | mutating
  deriving DecidableEq, Repr

/-- What `exclusive` runs: `syncPaused`, and the marker written by `pauseThread`. -/
inductive PauseJob
  | sync (waiter : Option ThreadKey) (phase : SyncPhase)
  | write (key : ThreadKey)
  | wrote (key : ThreadKey) (created : Option Bool)
  deriving DecidableEq, Repr

inductive Owner
  | wake (key : ThreadKey)
  | sync
  | receipts (items : List Delivered)
  | nobody

inductive WriteResult
  | ok (etag : Option ℕ)
  | conflict
  | failed
  deriving DecidableEq, Repr

inductive JobPhase
  | queued
  | ran (at_ : ℕ)
  | sent (at_ : ℕ) (result : WriteResult)
  deriving DecidableEq, Repr

structure Job where
  mutation : Mutation
  owner : Owner
  phase : JobPhase

inductive StateEtag
  | unknown
  | absent
  | known (etag : ℕ)
  deriving DecidableEq, Repr

structure Watcher where
  profile : ℕ
  pid : ℕ
  state : WatchState
  stateEtag : StateEtag
  pausedKeys : List ThreadKey
  retryAt : ThreadKey → ℕ
  stateQueue : List Job
  pausedLock : List PauseJob
  wake : ThreadKey → Option WakeTask
  committing : List (List Delivered)
  fatal : Bool
  stopping : Bool

inductive WatchEvent
  | started (run : ℕ) (key : ThreadKey) (s : Snapshot) (at_ : ℕ)
  | recorded (run : ℕ) (key : ThreadKey) (at_ : ℕ)
  | resumed (key : ThreadKey)
  | conflict (run : ℕ)
  | woke (key : ThreadKey) (s : Snapshot)
  | dropped (message : MessageKey)

structure WatchStore where
  watch : Option (WatchState × ℕ)
  etags : ℕ
  markers : List ThreadKey
  claims : ClaimKey → Option (Claim × ℕ)
  receipts : List Delivered

structure WatchWorld where
  store : WatchStore
  runs : ℕ → Option Watcher
  nextRun : ℕ
  now : ℕ
  log : List WatchEvent

namespace Watcher

variable (W : Watcher)

def setWake (key : ThreadKey) (task : Option WakeTask) : Watcher :=
  { W with wake := Function.update W.wake key task }

def enqueue (m : Mutation) (owner : Owner) : Watcher :=
  { W with stateQueue := W.stateQueue ++ [⟨m, owner, .queued⟩] }

def lock (job : PauseJob) : Watcher := { W with pausedLock := W.pausedLock ++ [job] }

def isHeldBack (retry : Option WakeRetry) (at_ : ℕ) : Bool := retry.any fun r => at_ < r.nextAttemptAt

/-- The part of `wakeThread` after the pause: what is not held back by its retry clock is claimed. -/
def proceed (key : ThreadKey) (at_ now : ℕ) (s : Snapshot) : Watcher :=
  let messages := if isHeldBack (W.state.wakeRetries key) at_ then [] else s.messages
  let approvals := if isHeldBack (W.state.approvalRetries key) at_ then [] else s.approvals
  W.setWake key (if messages.isEmpty && approvals.isEmpty then none
    else some ⟨at_, .claiming ⟨messages, approvals⟩ now 0⟩)

/-- Messages of a paused thread are moved to the held backlog. -/
def checkPaused (key : ThreadKey) (at_ now : ℕ) (s : Snapshot) : Watcher :=
  if key ∈ W.pausedKeys then
    (W.enqueue (.hold key s.messages) (.wake key)).setWake key (some ⟨at_, .holding s.approvals⟩)
  else W.proceed key at_ now s

/-- The part of `wakeThread` that follows its `syncPaused`. -/
def synced (opts : WatchOptions) (now : ℕ) (key : ThreadKey) (at_ : ℕ) : Watcher :=
  match W.state.pending key with
  | none => W.setWake key none
  | some pending =>
    let s : Snapshot := ⟨pending.messages, pending.approvals⟩
    if s.messages.isEmpty then W.proceed key at_ now s
    else if key ∉ W.pausedKeys ∧ opts.wakeBudget ≤ (W.state.recentWakes key now).length then
      W.setWake key (some ⟨at_, .noticing s⟩)
    else W.checkPaused key at_ now s

/-- `syncPaused` is over: the lock is free and a wake that waited goes on. -/
def finishSync (opts : WatchOptions) (now : ℕ) : Watcher :=
  match W.pausedLock with
  | .sync waiter _ :: rest =>
    let W' := { W with pausedLock := rest }
    match waiter with
    | none => W'
    | some key =>
      match W'.wake key with
      | some ⟨at_, .syncing⟩ => W'.synced opts now key at_
      | _ => W'
  | _ => W

def skip (key : ThreadKey) (at_ : ℕ) : Watcher :=
  { W with retryAt := Function.update W.retryAt key (at_ + CLAIM_SKIP_MS) }.setWake key none

/-- A wake goes on after its `mutate`. -/
def mutated (now : ℕ) (key : ThreadKey) (ok : Bool) : Watcher × Option Snapshot :=
  match W.wake key with
  | some ⟨at_, .recording s⟩ => (if ok then W.checkPaused key at_ now s else W.setWake key none, none)
  | some ⟨at_, .holding approvals⟩ =>
    (if ok && !approvals.isEmpty then W.proceed key at_ now ⟨[], approvals⟩ else W.setWake key none, none)
  | some ⟨at_, .counting s⟩ =>
    if ok && !W.stopping then (W.setWake key (some ⟨at_, .running s⟩), some s)
    else (W.setWake key (some ⟨at_, .releasing s⟩), none)
  | some ⟨_, .waking _⟩ =>
    (if ok then { W with retryAt := Function.update W.retryAt key 0 }.setWake key none
      else W.setWake key none, none)
  | some ⟨at_, .backingOff s⟩ => (W.setWake key (if ok then some ⟨at_, .releasing s⟩ else none), none)
  | _ => (W, none)

/-- The answer to a state write is taken in. -/
def acknowledge (result : WriteResult) : Watcher :=
  match result with
  | .ok etag => { W with stateEtag := match etag with
      | some e => .known e
      | none => .unknown }
  | .conflict => { W with fatal := true, stopping := true }
  | .failed => W

def isOk : WriteResult → Bool
  | .ok _ => true
  | _ => false

/-- The caller of `mutate` goes on; a wake may start its adapter. -/
def continue_ (opts : WatchOptions) (now : ℕ) (owner : Owner) (ok : Bool) :
    Watcher × Option (ThreadKey × Snapshot) :=
  match owner with
  | .wake key => let (W', started) := W.mutated now key ok; (W', started.map fun s => (key, s))
  | .sync => (W.finishSync opts now, none)
  | .receipts items => (if ok then { W with committing := W.committing ++ [items] } else W, none)
  | .nobody => (W, none)

end Watcher

end Watchers

section System

/-- How a conditional write is answered: from the store, with or without the new ETag, or by an
error, whether it took effect or not. -/
inductive PutAnswer
  | answered (shown : Bool)
  | failed (lands : Bool)
  deriving DecidableEq, Repr

inductive WatchAction
  | clock (now : ℕ)
  | pause (key : ThreadKey)
  | unpause (key : ThreadKey)
  | start (profile pid : ℕ) (shown : Bool)
  | stop (w : ℕ)
  | crash (w : ℕ)
  | tick (w : ℕ) (key : ThreadKey) (force : Bool)
  | syncPaused (w : ℕ)
  | list (w : ℕ) (fails : Bool)
  | apply (w : ℕ)
  | noticeId (w : ℕ) (key : ThreadKey) (fails : Bool)
  | writeMarker (w : ℕ) (answer : PutAnswer)
  | wroteMarker (w : ℕ)
  | deliver (w : ℕ) (items : List Delivered)
  | approve (w : ℕ) (handled : List String) (wakes : List (ThreadKey × WakeApproval))
  | prune (w : ℕ)
  | other (w : ℕ)
  | run (w : ℕ)
  | fetch (w : ℕ) (fails shown : Bool)
  | put (w : ℕ) (answer : PutAnswer)
  | acknowledge (w : ℕ)
  | commit (w : ℕ) (fails lands : Bool)
  | claim (w : ℕ) (key : ThreadKey) (answer : PutAnswer)
  | readClaim (w : ℕ) (key : ThreadKey) (fails shown : Bool)
  | judge (w : ℕ) (key : ThreadKey) (alive : Bool)
  | takeOver (w : ℕ) (key : ThreadKey) (answer : PutAnswer)
  | count (w : ℕ) (key : ThreadKey)
  | woken (w : ℕ) (key : ThreadKey) (ok : Bool)
  | releaseRead (w : ℕ) (key : ThreadKey) (fails : Bool)
  | releaseDelete (w : ℕ) (key : ThreadKey) (lands : Bool)
  | pruneClaim (w : ℕ) (claim : ClaimKey) (lands : Bool)

namespace WatchStore

def matches_ (store : WatchStore) : StateEtag → Bool
  | .known e => store.watch.any fun v => v.2 == e
  | .absent => store.watch.isNone
  | .unknown => false

def putState (store : WatchStore) (state : WatchState) : WatchStore :=
  { store with
    watch := some (state, store.etags + 1)
    etags := store.etags + 1 }

def putClaim (store : WatchStore) (key : ClaimKey) (claim : Claim) : WatchStore :=
  { store with
    claims := Function.update store.claims key (some (claim, store.etags + 1))
    etags := store.etags + 1 }

def deleteClaim (store : WatchStore) (key : ClaimKey) : WatchStore :=
  { store with claims := Function.update store.claims key none }

def addMarker (store : WatchStore) (key : ThreadKey) : WatchStore :=
  if key ∈ store.markers then store else { store with markers := key :: store.markers }

end WatchStore

namespace WatchWorld

variable (opts : WatchOptions) (b : WatchWorld)

def setRun (w : ℕ) (W : Option Watcher) : WatchWorld := { b with runs := Function.update b.runs w W }

/-- A step of a live watcher on itself. -/
def onRun (w : ℕ) (f : Watcher → Option Watcher) : Option WatchWorld :=
  (b.runs w).bind fun W => (f W).map fun W' => b.setRun w (some W')

/-- A step of the wake of a thread. -/
def onWake (w : ℕ) (key : ThreadKey) (f : Watcher → ℕ → WakePhase → Option WatchWorld) : Option WatchWorld :=
  (b.runs w).bind fun W => (W.wake key).bind fun task => f W task.at_ task.phase

def setPhase (w : ℕ) (W : Watcher) (key : ThreadKey) (at_ : ℕ) (phase : WakePhase) : WatchWorld :=
  b.setRun w (some (W.setWake key (some ⟨at_, phase⟩)))

def record (events : List WatchEvent) : WatchWorld := { b with log := events ++ b.log }

/-- `loadState`; a response without an ETag reads as an absent record. -/
def startRun (profile pid : ℕ) (shown : Bool) : WatchWorld :=
  let W : Watcher :=
    { profile, pid
      state := (b.store.watch.map Prod.fst).getD emptyWatchState
      stateEtag := match b.store.watch with
        | some (_, e) => if shown then .known e else .absent
        | none => .absent
      pausedKeys := []
      retryAt := fun _ => 0
      stateQueue := []
      pausedLock := []
      wake := fun _ => none
      committing := []
      fatal := false
      stopping := false }
  { b with runs := Function.update b.runs b.nextRun (some W), nextRun := b.nextRun + 1 }

def isDue (W : Watcher) (key : ThreadKey) (pending : PendingWake) (force : Bool) : Bool :=
  force || (wakeDueAt pending opts.debounceMs ≤ b.now && (!pending.approvals.isEmpty || W.retryAt key ≤ b.now))

def tickOne (w : ℕ) (key : ThreadKey) (force : Bool) : Option WatchWorld :=
  b.onRun w fun W =>
    match W.state.pending key with
    | none => none
    | some pending =>
      if !W.fatal && !W.stopping && (W.wake key).isNone && b.isDue opts W key pending force then
        some ((W.setWake key (some ⟨b.now, .syncing⟩)).lock (.sync (some key) .waiting))
      else none

/-- The listing of the pause markers; an error is only logged. -/
def listMarkers (w : ℕ) (fails : Bool) : Option WatchWorld :=
  b.onRun w fun W =>
    match W.pausedLock with
    | .sync waiter .waiting :: rest =>
      if fails then some (W.finishSync opts b.now)
      else some { W with pausedLock := .sync waiter (.listed b.store.markers) :: rest }
    | _ => none

/-- What a listing changes: the markers that are gone, and those that are new. -/
def applyListing (w : ℕ) : Option WatchWorld :=
  (b.runs w).bind fun W =>
    match W.pausedLock with
    | .sync waiter (.listed listed) :: rest =>
      let resumed := W.state.paused.filter fun key => key ∉ listed
      let added := listed.filter fun key => key ∉ W.state.paused
      let W := { W with pausedKeys := listed }
      if resumed.isEmpty && added.isEmpty then some (b.setRun w (some (W.finishSync opts b.now)))
      else
        let W := { W with pausedLock := .sync waiter .mutating :: rest }
        some ((b.record (resumed.map .resumed)).setRun w
          (some (W.enqueue (.resync resumed added b.now) .sync)))
    | _ => none

def noticeId (w : ℕ) (key : ThreadKey) (fails : Bool) : Option WatchWorld :=
  b.onWake w key fun W at_ phase =>
    match phase with
    | .noticing s =>
      if fails then some (b.setRun w (some (W.setWake key none)))
      else some (b.setRun w (some ((W.setWake key (some ⟨at_, .pausing s⟩)).lock (.write key))))
    | _ => none

def writeMarker (w : ℕ) (answer : PutAnswer) : Option WatchWorld :=
  (b.runs w).bind fun W =>
    match W.pausedLock with
    | .write key :: rest =>
      let wrote (created : Option Bool) := { W with pausedLock := .wrote key created :: rest }
      match answer with
      | .answered _ =>
        some ({ b with store := b.store.addMarker key }.setRun w (some (wrote (some (key ∉ b.store.markers)))))
      | .failed lands =>
        some ({ b with store := if lands then b.store.addMarker key else b.store }.setRun w (some (wrote none)))
    | _ => none

def wroteMarker (w : ℕ) : Option WatchWorld :=
  b.onRun w fun W =>
    match W.pausedLock with
    | .wrote key created :: rest =>
      let W := { W with pausedLock := rest }
      match created, W.wake key with
      | some created, some ⟨at_, .pausing s⟩ =>
        let W := { W with pausedKeys := if key ∈ W.pausedKeys then W.pausedKeys else key :: W.pausedKeys }
        if created then
          some ((W.enqueue (.recordPause key) (.wake key)).setWake key (some ⟨at_, .recording s⟩))
        else some (W.checkPaused key at_ b.now s)
      | none, some ⟨_, .pausing _⟩ => some (W.setWake key none)
      | _, _ => some W
    | _ => none

def runJob (w : ℕ) : Option WatchWorld :=
  (b.runs w).bind fun W =>
    match W.stateQueue with
    | ⟨mutation, owner, .queued⟩ :: rest =>
      let (state, out) := mutation.apply W.pausedKeys b.now W.state
      some ((b.record (out.map .dropped)).setRun w
        (some { W with state, stateQueue := ⟨mutation, owner, .ran b.now⟩ :: rest }))
    | _ => none

def fetchEtag (w : ℕ) (fails shown : Bool) : Option WatchWorld :=
  b.onRun w fun W =>
    match W.stateEtag, W.stateQueue with
    | .unknown, ⟨mutation, owner, .ran at_⟩ :: rest =>
      if fails then some { W with stateQueue := ⟨mutation, owner, .sent at_ .failed⟩ :: rest }
      else some { W with
        stateEtag := match b.store.watch with
          | some (_, e) => if shown then .known e else .absent
          | none => .absent }
    | _, _ => none

/-- The attempts of a wake that are counted by a state write. -/
def counted (w : ℕ) (at_ : ℕ) : Mutation → List WatchEvent
  | .count key true => [.recorded w key at_]
  | _ => []

def putState (w : ℕ) (answer : PutAnswer) : Option WatchWorld :=
  (b.runs w).bind fun W =>
    match W.stateQueue with
    | ⟨mutation, owner, .ran at_⟩ :: rest =>
      let sent (result : WriteResult) := some { W with stateQueue := ⟨mutation, owner, .sent at_ result⟩ :: rest }
      if W.stateEtag = .unknown then none
      else
        match answer with
        | .answered shown =>
          if b.store.matches_ W.stateEtag then
            some (({ b with store := b.store.putState W.state }.record (counted w at_ mutation)).setRun w
              (sent (.ok (if shown then some (b.store.etags + 1) else none))))
          else some ((b.record [.conflict w]).setRun w (sent .conflict))
        | .failed lands =>
          some ({ b with
            store := if lands && b.store.matches_ W.stateEtag then b.store.putState W.state
              else b.store }.setRun w (sent .failed))
    | _ => none

/-- The answer to the write arrives, and the caller of `mutate` goes on. -/
def acknowledge (w : ℕ) : Option WatchWorld :=
  (b.runs w).bind fun W =>
    match W.stateQueue with
    | ⟨_, owner, .sent _ result⟩ :: rest =>
      let W := { W with stateQueue := rest }.acknowledge result
      let (W, started) := W.continue_ opts b.now owner (Watcher.isOk result)
      some ((b.record (started.toList.map fun p => .started w p.1 p.2 b.now)).setRun w (some W))
    | _ => none

def commit (w : ℕ) (fails lands : Bool) : Option WatchWorld :=
  (b.runs w).bind fun W =>
    match W.committing with
    | items :: rest =>
      some ({ b with
        store := if fails && !lands then b.store
          else { b.store with receipts := b.store.receipts ++ items } }.setRun w
            (some { W with committing := rest }))
    | [] => none

def myClaim (w : ℕ) (W : Watcher) (stamp : ℕ) : Claim := ⟨W.profile, w, W.pid, stamp⟩

def claim (w : ℕ) (key : ThreadKey) (answer : PutAnswer) : Option WatchWorld :=
  b.onWake w key fun W at_ phase =>
    match phase with
    | .claiming s stamp attempt =>
      let absent := (b.store.claims (key, s.claimId)).isNone
      let claimed := b.store.putClaim (key, s.claimId) (myClaim w W stamp)
      match answer with
      | .answered _ =>
        if absent then some ({ b with store := claimed }.setPhase w W key at_ (.claimed s))
        else some (b.setPhase w W key at_ (.refused s stamp attempt))
      | .failed lands =>
        some ({ b with store := if lands && absent then claimed else b.store }.setRun w
          (some (W.setWake key none)))
    | _ => none

def readClaim (w : ℕ) (key : ThreadKey) (fails shown : Bool) : Option WatchWorld :=
  b.onWake w key fun W at_ phase =>
    match phase with
    | .refused s stamp attempt =>
      if fails then some (b.setRun w (some (W.setWake key none)))
      else
        match b.store.claims (key, s.claimId) with
        | some (held, e) => some (b.setPhase w W key at_ (.judging s stamp held (if shown then some e else none)))
        | none =>
          if attempt = 0 then some (b.setPhase w W key at_ (.claiming s stamp 1))
          else some (b.setRun w (some (W.skip key at_)))
    | _ => none

/-- Why a marker may be taken over: its holder is this process number or gone, or its lease is out. -/
def mayTake (W : Watcher) (held : Claim) (alive : Bool) : Bool :=
  if held.profile = W.profile then
    held.pid == W.pid || !alive || !decide (b.now < held.at_ + OWN_CLAIM_LEASE_MS)
  else !decide (b.now < held.at_ + FOREIGN_CLAIM_LEASE_MS)

def judge (w : ℕ) (key : ThreadKey) (alive : Bool) : Option WatchWorld :=
  b.onWake w key fun W at_ phase =>
    match phase with
    | .judging s stamp held etag =>
      if held.run = w then some (b.setPhase w W key at_ (.claimed s))
      else
        match b.mayTake W held alive, etag with
        | true, some e => some (b.setPhase w W key at_ (.taking s stamp e))
        | _, _ => some (b.setRun w (some (W.skip key at_)))
    | _ => none

def takeOver (w : ℕ) (key : ThreadKey) (answer : PutAnswer) : Option WatchWorld :=
  b.onWake w key fun W at_ phase =>
    match phase with
    | .taking s stamp e =>
      let unchanged := (b.store.claims (key, s.claimId)).any fun v => v.2 == e
      let taken := b.store.putClaim (key, s.claimId) (myClaim w W stamp)
      match answer with
      | .answered _ =>
        if unchanged then some ({ b with store := taken }.setPhase w W key at_ (.claimed s))
        else some (b.setRun w (some (W.skip key at_)))
      | .failed lands =>
        some ({ b with store := if lands && unchanged then taken else b.store }.setRun w
          (some (W.setWake key none)))
    | _ => none

/-- The attempt is counted before the adapter runs. -/
def count (w : ℕ) (key : ThreadKey) : Option WatchWorld :=
  b.onWake w key fun W at_ phase =>
    match phase with
    | .claimed s =>
      some (b.setRun w (some ((W.enqueue (.count key (!s.messages.isEmpty)) (.wake key)).setWake key
        (some ⟨at_, .counting s⟩))))
    | _ => none

/-- The adapter returns. -/
def woken (w : ℕ) (key : ThreadKey) (ok : Bool) : Option WatchWorld :=
  b.onWake w key fun W at_ phase =>
    match phase with
    | .running s =>
      if ok then
        some ((b.record [.woke key s]).setRun w (some ((W.enqueue (.woke key s.woken s.approvedIds)
          (.wake key)).setWake key (some ⟨at_, .waking s⟩))))
      else
        some (b.setRun w (some ((W.enqueue (.backOff key (!s.messages.isEmpty) (!s.approvals.isEmpty))
          (.wake key)).setWake key (some ⟨at_, .backingOff s⟩))))
    | _ => none

def releaseRead (w : ℕ) (key : ThreadKey) (fails : Bool) : Option WatchWorld :=
  b.onWake w key fun W at_ phase =>
    match phase with
    | .releasing s =>
      if !fails && (b.store.claims (key, s.claimId)).any (fun v => v.1.run == w) then
        some (b.setPhase w W key at_ (.deleting s))
      else some (b.setRun w (some (W.setWake key none)))
    | _ => none

def releaseDelete (w : ℕ) (key : ThreadKey) (lands : Bool) : Option WatchWorld :=
  b.onWake w key fun W _ phase =>
    match phase with
    | .deleting s =>
      some ({ b with store := if lands then b.store.deleteClaim (key, s.claimId) else b.store }.setRun w
        (some (W.setWake key none)))
    | _ => none

/-- `sentAt` is the time that an id carries. -/
def pruneClaim (sentAt : String → Option ℕ) (w : ℕ) (key : ClaimKey) (lands : Bool) : Option WatchWorld :=
  if (b.runs w).isSome && (sentAt key.2).any (fun at_ => at_ + 2 * DAY_MS_ < b.now) then
    some { b with store := if lands then b.store.deleteClaim key else b.store }
  else none

/-- Another part of the watcher calls `mutate`. -/
def enqueue (w : ℕ) (m : Mutation) (owner : Owner) : Option WatchWorld :=
  b.onRun w fun W => some (W.enqueue m owner)

end WatchWorld

variable (opts : WatchOptions) (sentAt : String → Option ℕ)

def watchStep (b : WatchWorld) : WatchAction → Option WatchWorld
  | .clock now => if b.now ≤ now then some { b with now } else none
  | .pause key => some { b with store := b.store.addMarker key }
  | .unpause key => some { b with store := { b.store with markers := b.store.markers.filter (· ≠ key) } }
  | .start profile pid shown => some (b.startRun profile pid shown)
  | .stop w => b.onRun w fun W => some { W with stopping := true }
  | .crash w => some (b.setRun w none)
  | .tick w key force => b.tickOne opts w key force
  | .syncPaused w => b.onRun w fun W => some (W.lock (.sync none .waiting))
  | .list w fails => b.listMarkers opts w fails
  | .apply w => b.applyListing opts w
  | .noticeId w key fails => b.noticeId w key fails
  | .writeMarker w answer => b.writeMarker w answer
  | .wroteMarker w => b.wroteMarker w
  | .deliver w items => b.enqueue w (.deliver items b.now) (.receipts items)
  | .approve w handled wakes => b.enqueue w (.approvals handled wakes b.now) .nobody
  | .prune w => b.enqueue w .prune .nobody
  | .other w => b.enqueue w .other .nobody
  | .run w => b.runJob w
  | .fetch w fails shown => b.fetchEtag w fails shown
  | .put w answer => b.putState w answer
  | .acknowledge w => b.acknowledge opts w
  | .commit w fails lands => b.commit w fails lands
  | .claim w key answer => b.claim w key answer
  | .readClaim w key fails shown => b.readClaim w key fails shown
  | .judge w key alive => b.judge w key alive
  | .takeOver w key answer => b.takeOver w key answer
  | .count w key => b.count w key
  | .woken w key ok => b.woken w key ok
  | .releaseRead w key fails => b.releaseRead w key fails
  | .releaseDelete w key lands => b.releaseDelete w key lands
  | .pruneClaim w key lands => b.pruneClaim sentAt w key lands

def watchMachine : Runs.Machine WatchWorld WatchAction where
  initial b := b.store = ⟨none, 0, [], fun _ => none, []⟩ ∧ (∀ w, b.runs w = none) ∧ b.log = []
  step := watchStep opts sentAt

variable {b b' : WatchWorld} {w : ℕ} {key : ThreadKey}

lemma addMarker_watch (store : WatchStore) (key : ThreadKey) : (store.addMarker key).watch = store.watch := by
  unfold WatchStore.addMarker
  split <;> rfl

lemma addMarker_etags (store : WatchStore) (key : ThreadKey) : (store.addMarker key).etags = store.etags := by
  unfold WatchStore.addMarker
  split <;> rfl

lemma onRun_eq_some {f : Watcher → Option Watcher} (h : b.onRun w f = some b') :
    ∃ W W', b.runs w = some W ∧ f W = some W' ∧ b' = b.setRun w (some W') := by
  obtain ⟨W, hW, h⟩ := Option.bind_eq_some_iff.mp h
  obtain ⟨W', hW', rfl⟩ := Option.map_eq_some_iff.mp h
  exact ⟨W, W', hW, hW', rfl⟩

lemma onWake_eq_some {f : Watcher → ℕ → WakePhase → Option WatchWorld} (h : b.onWake w key f = some b') :
    ∃ W task, b.runs w = some W ∧ W.wake key = some task ∧ f W task.at_ task.phase = some b' := by
  obtain ⟨W, hW, h⟩ := Option.bind_eq_some_iff.mp h
  obtain ⟨task, ht, h⟩ := Option.bind_eq_some_iff.mp h
  exact ⟨W, task, hW, ht, h⟩

def sampleThread : ThreadKey := ⟨"bob", "t1"⟩

def emptyWorld : WatchWorld := ⟨⟨none, 0, [], fun _ => none, []⟩, fun _ => none, 0, 0, []⟩

/-- A mutation that is queued is applied, written and acknowledged. -/
def sampleWrite (w : ℕ) : List WatchAction := [.run w, .put w (.answered true), .acknowledge w]

end System

end TinyCloud.Courier
