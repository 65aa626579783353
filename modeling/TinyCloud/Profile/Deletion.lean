import TinyCloud.Profile.TurnLock

/-! Deletions and writes of one profile: any number of calls of `withProfileLock`,
each waiting for its turn and then doing its critical section, one file operation
at a time. -/

namespace TinyCloud.Profile

inductive ProfileStoreName
  | session
  | additionalDelegations
  | authRequests
  deriving DecidableEq, Repr

/-- What a profile's directory holds beside its lock. -/
inductive ProfileFile
  | profileJson
  | store (name : ProfileStoreName)
  | metadata (name : ProfileStoreName)
  | other (name : ℕ)
  deriving DecidableEq, Repr

/-- What is done in a critical section. Calls nested in one take no turn of their
own, so a section is a list of these. -/
inductive Job
  | deleteProfile
  | writeProfile
  | writeStore (name : ProfileStoreName)
  deriving DecidableEq, Repr

inductive Work
  | next
  | listing
  | removing (entries : List ProfileFile)
  | recording
  | writingProfile
  | refusing (name : ProfileStoreName)
  | writingStore (name : ProfileStoreName)
  | writingMetadata (name : ProfileStoreName)
  deriving DecidableEq, Repr

inductive Outcome
  | returned
  | profileDeleted
  | failed
  deriving DecidableEq, Repr

inductive CallPhase
  | entering
  | acquiring
  | requiring
  | readingDeletion
  | checking
  | publishing
  | working (rest : List Job) (work : Work)
  | over (outcome : Outcome)
  deriving DecidableEq, Repr

structure Taken where
  turn : Turn
  firstWaitedTurn : ℕ
  deriving DecidableEq, Repr

/-- `startedAt` and `lookedAt` are how many turns were over when the call began and
when it first listed the turn directory; `sawProfile` and `wrote` record whether
`profile.json` was there at a step it took with its turn, and the store files it wrote. -/
structure ProfileCall where
  process : ℕ
  requireProfile : Bool
  jobs : List Job
  phase : CallPhase
  taken : Option Taken
  deletedWhileWaiting : Bool
  startedAt : ℕ
  lookedAt : Option ℕ
  sawProfile : Bool
  wrote : List ProfileFile
  deriving DecidableEq, Repr

/-- `deleted` is the slot in `deleted.json`; `deletions` lists all that
`recordProfileDeletion` has recorded. -/
structure ProfileState where
  lock : TurnLock
  files : List ProfileFile
  deleted : Option ℕ
  deletions : List ℕ
  calls : ℕ → Option ProfileCall

/-- Turns end in the order of their numbers: those below it are over. -/
def TurnDirectory.finishedTurns (D : TurnDirectory) : ℕ :=
  let last := D.granted.length - 1
  if (D.grant last).any fun token => D.hasMarker last token .done then D.granted.length else last

def TurnDirectory.isPresent (D : TurnDirectory) (n : ℕ) : Bool :=
  (D.turns n).any fun e => decide (D.grant n = some e.owner.token)

namespace ProfileState

variable (s : ProfileState)

def hasProfile : Bool := s.files.contains .profileJson

def finished : ℕ := s.lock.directory.finishedTurns

def put (x : ℕ) (c : ProfileCall) (phase : CallPhase) : ProfileState :=
  { s with calls := Function.update s.calls x (some { c with phase := phase }) }

def write (f : ProfileFile) : ProfileState :=
  { s with files := s.files.insert f }

def remove (f : ProfileFile) : ProfileState :=
  { s with files := s.files.filter (· != f) }

def recordProfileDeletion (slot : ℕ) : ProfileState :=
  { s with deleted := some slot, deletions := slot :: s.deletions }

/-- The next operation of a critical section, in the turn numbered `slot`. -/
def work (x : ℕ) (c : ProfileCall) (slot : ℕ) (rest : List Job) : Work → ProfileState
  | .next => match rest with
    | [] => s.put x c (.over .returned)
    | .deleteProfile :: rest => s.put x c (.working rest .listing)
    | .writeProfile :: rest => s.put x c (.working rest .writingProfile)
    | .writeStore name :: rest => s.put x c (.working rest (.refusing name))
  | .listing => s.put x c (.working rest (.removing (s.files.filter (· != .profileJson))))
  | .removing [] => (s.remove .profileJson).put x c (.working rest .recording)
  | .removing (f :: fs) => (s.remove f).put x c (.working rest (.removing fs))
  | .recording => (s.recordProfileDeletion slot).put x c (.working rest .next)
  | .writingProfile => (s.write .profileJson).put x c (.working rest .next)
  | .refusing name =>
    if c.deletedWhileWaiting && !s.hasProfile then s.put x c (.over .profileDeleted)
    else s.put x c (.working rest (.writingStore name))
  | .writingStore name =>
    (s.write (.store name)).put x { c with wrote := .store name :: c.wrote }
      (.working rest (.writingMetadata name))
  | .writingMetadata name =>
    (s.write (.metadata name)).put x { c with wrote := .metadata name :: c.wrote } (.working rest .next)

/-- The next step of a call, outside the turn lock. -/
def advance (x : ℕ) (c : ProfileCall) : CallPhase → Option ProfileState
  | .entering =>
    if c.requireProfile && !s.hasProfile then some (s.put x c (.over .profileDeleted))
    else (turnStep s.lock (.start x c.process)).map fun lock => { s with lock := lock }.put x c .acquiring
  | .acquiring => (s.lock.acquisitions x).bind fun a => match a.phase, a.firstWaitedTurn with
    | .holding turn, some firstWaitedTurn =>
      some (s.put x { c with taken := some ⟨turn, firstWaitedTurn⟩ } .requiring)
    | _, _ => none
  | .requiring =>
    if c.requireProfile && !s.hasProfile then some (s.put x c (.over .profileDeleted))
    else some (s.put x c .readingDeletion)
  | .readingDeletion => c.taken.map fun t =>
    s.put x { c with deletedWhileWaiting := s.deleted.any fun slot => decide (t.firstWaitedTurn ≤ slot) }
      .checking
  | .checking =>
    if c.deletedWhileWaiting && !s.hasProfile then some (s.put x c (.over .profileDeleted))
    else some (s.put x c .publishing)
  | .publishing => some (s.put x c (.working c.jobs .next))
  | .working rest w => c.taken.map fun t => s.work x c t.turn.slot rest w
  | .over _ => none

end ProfileState

def ProfileCall.observe (s : ProfileState) (c : ProfileCall) : ProfileCall :=
  { c with sawProfile := c.sawProfile || (c.taken.isSome && s.hasProfile) }

/-- `acquireTurn` has thrown: its acquisition is gone, or left settles the turn it gave up. -/
def threw : Option Acquisition → Bool
  | none => true
  | some a => match a.phase with
    | .reading (.own _) _ _ | .reading (.settle (.background _) _ _) _ _ | .settlingHeld (.background _) _
    | .settlingDone (.background _) _ => true
    | _ => false

def CallPhase.holds : CallPhase → Bool
  | .requiring | .readingDeletion | .checking | .publishing | .working _ _ => true
  | _ => false

inductive ProfileAction
  | call (x process : ℕ) (requireProfile : Bool) (jobs : List Job)
  | advance (x : ℕ)
  | list (x : ℕ) (listing : Option (List ℕ))
  | turn (act : TurnAction)
  | abort (x : ℕ)
  | release (x : ℕ)
  | die (process : ℕ)
  deriving DecidableEq, Repr

-- A listing shows every entry that is there throughout: here the turns that were over
-- before the call and are there still.
def showsPresent (D : TurnDirectory) (startedAt : ℕ) : Option (List ℕ) → Bool
  | none => true
  | some slots => (List.range startedAt).all fun n => !D.isPresent n || slots.contains n

/-- `abort` is an error of a call outside the turn lock, or the lock's refusal. -/
def profileStep (s : ProfileState) : ProfileAction → Option ProfileState
  | .call x process requireProfile jobs =>
    if (s.calls x).isNone && s.lock.alive process then
      some (s.put x ⟨process, requireProfile, jobs, .entering, none, false, s.finished, none, false, []⟩
        .entering)
    else none
  | .advance x => (s.calls x).bind fun c => s.advance x (c.observe s) c.phase
  | .list x listing => (s.calls x).bind fun c =>
    if c.phase == .acquiring && showsPresent s.lock.directory c.startedAt listing then
      (turnStep s.lock (.list x listing)).map fun lock =>
        { s with lock := lock }.put x { c with lookedAt := c.lookedAt <|> some s.finished } c.phase
    else none
  | .turn act => match act with
    | .start _ _ | .list _ _ | .release _ | .die _ => none
    | _ => (turnStep s.lock act).map fun lock => { s with lock := lock }
  | .abort x => (s.calls x).bind fun c =>
    if c.phase == .entering || (c.phase == .acquiring && threw (s.lock.acquisitions x)) || c.phase.holds then
      some (s.put x c (.over .failed))
    else none
  | .release x => (s.calls x).bind fun c => match c.phase with
    | .over _ => (turnStep s.lock (.release x)).map fun lock => { s with lock := lock }
    | _ => none
  | .die process => (turnStep s.lock (.die process)).map fun lock =>
    { s with lock := lock, calls := fun x => (s.calls x).filter (·.process != process) }

def initProfile (files : List ProfileFile) : ProfileState :=
  ⟨initLock, files, none, [], fun _ => none⟩

def profileMachine : Runs.Machine ProfileState ProfileAction where
  initial s := ∃ files, s = initProfile files
  step := profileStep

end TinyCloud.Profile
