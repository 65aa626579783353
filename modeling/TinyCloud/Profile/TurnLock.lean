import TinyCloud.Profile.TurnDirectory
import TinyCloud.Runs.Machine

/-! Any number of processes on one turn directory, each running any number of
acquisitions, one file operation at a time. -/

namespace TinyCloud.Profile

/-- Who settles a turn: an acquisition that waits for it, or in the background
the process that gave it up. -/
inductive Settler
  | acquisition
  | background (turn : Turn)
  deriving DecidableEq, Repr

/-- What a turn is being read for. -/
inductive Reading
  | latest
  | check (turn : Turn) (after : ℕ)
  | settle (settler : Settler) (abandoned : TurnState) (after : ℕ)
  | own (turn : Turn)
  | candidate (turn : Turn) (rest : List ℕ)
  | next (turn : Turn) (slot : ℕ) (rest : List ℕ)
  deriving DecidableEq, Repr

inductive TurnPhase
  | looking
  | creating (token : ℕ)
  | reading (r : Reading) (slot : ℕ) (pc : ReadPc)
  | judging (latest : TurnState)
  | publishing (latest : TurnState) (token : ℕ)
  | granting (turn : Turn)
  | voiding (turn : Turn)
  | holding (turn : Turn)
  | releasing (turn : Turn)
  | settlingHeld (settler : Settler) (abandoned : TurnState)
  | settlingDone (settler : Settler) (abandoned : TurnState)
  | listing (turn : Turn)
  | checkingOlder (turn : Turn) (slot : ℕ) (rest : List ℕ)
  | removing (turn : Turn) (slot : ℕ) (rest : List ℕ)
  deriving DecidableEq, Repr

structure Acquisition where
  process : ℕ
  firstWaitedTurn : Option ℕ
  phase : TurnPhase
  deriving DecidableEq, Repr

/-- `returned` records the turns `acquireTurn` returned, in order. -/
structure TurnLock where
  directory : TurnDirectory
  alive : ℕ → Bool
  relinquished : ℕ → List ℕ
  acquisitions : ℕ → Option Acquisition
  nextToken : ℕ
  returned : List Turn

namespace TurnLock

def put (s : TurnLock) (x : ℕ) (a : Acquisition) (phase : TurnPhase) : TurnLock :=
  { s with acquisitions := Function.update s.acquisitions x (some { a with phase := phase }) }

def drop (s : TurnLock) (x : ℕ) : TurnLock :=
  { s with acquisitions := Function.update s.acquisitions x none }

def freshToken (s : TurnLock) : TurnLock :=
  { s with nextToken := s.nextToken + 1 }

def relinquish (s : TurnLock) (process token : ℕ) : TurnLock :=
  { s with
    relinquished := Function.update s.relinquished process (token :: s.relinquished process) }

def settled (s : TurnLock) (process token : ℕ) : TurnLock :=
  { s with
    relinquished := Function.update s.relinquished process
      ((s.relinquished process).filter (· != token)) }

end TurnLock

inductive TurnAction
  | start (x process : ℕ)
  | list (x : ℕ) (listing : Option (List ℕ))
  | judge (x : ℕ) (dead : Bool)
  | op (x : ℕ)
  | release (x : ℕ)
  | listOlder (x : ℕ) (listing : List ℕ)
  | fail (x : ℕ)
  | quit (x : ℕ)
  | die (process : ℕ)
  deriving DecidableEq, Repr

def TurnState.turn (t : TurnState) : Turn :=
  ⟨t.slot, t.owner.token⟩

/-- `isFinishedTurn`; none if the turn is damaged, and it throws. -/
def isFinishedTurn (token : ℕ) : TurnRead → Option Bool
  | .gone => some false
  | .damaged => none
  | .turn t => some (t.owner.token == token && t.held && t.done)

def settleAbandonedTurn (settler : Settler) (abandoned : TurnState) : TurnPhase :=
  match abandoned.held, abandoned.owner.after with
  | false, some after => .reading (.settle settler abandoned after) (abandoned.slot - 1) .owner
  | _, _ => .settlingDone settler abandoned

def settleOwnTurn (s : TurnLock) (x : ℕ) (a : Acquisition) (turn : Turn) : TurnLock :=
  (s.relinquish a.process turn.token).put x a (.reading (.own turn) turn.slot .owner)

def afterLatest (s : TurnLock) (x : ℕ) (a : Acquisition) (t : TurnState) : TurnLock :=
  let a := { a with
    firstWaitedTurn := a.firstWaitedTurn <|> some (if t.done then t.slot + 1 else t.slot) }
  if t.held && t.done then s.freshToken.put x a (.publishing t s.nextToken)
  else if t.done then s.put x a .looking
  else if t.owner.process == a.process && (s.relinquished a.process).contains t.owner.token then
    s.put x a (settleAbandonedTurn .acquisition t)
  else s.put x a (.judging t)

-- The turns before `turn` still to visit, lowest first.
def collectNext (s : TurnLock) (x : ℕ) (a : Acquisition) (turn : Turn) : List ℕ → TurnLock
  | [] => s.drop x
  | slot :: rest => s.put x a (.reading (.candidate turn rest) slot .owner)

def afterRead (s : TurnLock) (x : ℕ) (a : Acquisition) (r : Reading) (result : TurnRead) : TurnLock :=
  match r with
  | .latest => match result with
    | .turn t => afterLatest s x a t
    | _ => s.put x a .looking
  | .check turn after => match isFinishedTurn after result with
    | none => settleOwnTurn s x a turn
    | some true => s.put x a (.granting turn)
    | some false => s.put x a (.voiding turn)
  | .settle settler abandoned after => match isFinishedTurn after result with
    | none => match settler with
      | .acquisition => s.drop x
      | .background turn => s.put x a (.reading (.own turn) turn.slot .owner)
    | some true => s.put x a (.settlingHeld settler abandoned)
    | some false => s.put x a (.settlingDone settler abandoned)
  | .own turn => match result with
    | .turn t =>
      if t.owner.token = turn.token ∧ t.done = false then
        s.put x a (settleAbandonedTurn (.background turn) t)
      else (s.settled a.process turn.token).drop x
    | _ => (s.settled a.process turn.token).drop x
  | .candidate turn rest => match result with
    | .turn t =>
      if !t.done then collectNext s x a turn rest
      else if t.held then s.put x a (.checkingOlder turn t.slot rest)
      else s.put x a (.removing turn t.slot rest)
    | _ => collectNext s x a turn rest
  | .next turn slot rest => match result with
    | .turn t =>
      if t.held && t.done then s.put x a (.removing turn slot rest) else collectNext s x a turn rest
    | _ => collectNext s x a turn rest

/-- The next file operation of an acquisition, where it succeeds. -/
def fileOp (s : TurnLock) (x : ℕ) (a : Acquisition) : TurnPhase → Option TurnLock
  | .creating token =>
    some ({ s with directory := s.directory.createTurnDirectory a.process token }.put x a .looking)
  | .reading r slot pc =>
    some (match s.directory.readTurn slot pc with
      | .inl pc => s.put x a (.reading r slot pc)
      | .inr result => afterRead s x a r result)
  | .publishing latest token =>
    let slot := latest.slot + 1
    some (if (s.directory.turns slot).isSome then s.put x a .looking
      else { s with
        directory := s.directory.publish slot ⟨a.process, token, some latest.owner.token⟩ }.put x a
          (.reading (.check ⟨slot, token⟩ latest.owner.token) latest.slot .owner))
  | .granting turn =>
    some (if (s.directory.turns turn.slot).isSome then
        { s with
          directory := s.directory.markTurn turn.slot turn.token .held
          returned := s.returned ++ [turn] }.put x a (.holding turn)
      else s.put x a (.voiding turn))
  | .voiding turn =>
    some ({ s with directory := s.directory.markTurn turn.slot turn.token .done }.put x a .looking)
  | .releasing turn =>
    some ({ s with directory := s.directory.markTurn turn.slot turn.token .done }.put x a (.listing turn))
  | .settlingHeld settler t =>
    some ({ s with directory := s.directory.markTurn t.slot t.owner.token .held }.put x a
      (.settlingDone settler t))
  | .settlingDone settler t =>
    let s := { s with directory := s.directory.markTurn t.slot t.owner.token .done }
    some (match settler with
      | .acquisition => (s.settled a.process t.owner.token).put x a .looking
      | .background turn => (s.settled a.process turn.token).drop x)
  | .checkingOlder turn slot rest =>
    some (if 0 < slot ∧ (s.directory.turns (slot - 1)).isSome then collectNext s x a turn rest
      else s.put x a (.reading (.next turn slot rest) (slot + 1) .owner))
  | .removing turn slot rest =>
    some (collectNext { s with directory := s.directory.remove slot } x a turn rest)
  | _ => none

/-- An error of the current file operation, that had no effect. -/
def failOp (s : TurnLock) (x : ℕ) (a : Acquisition) : TurnPhase → Option TurnLock
  | .reading (.check turn _) _ _ | .granting turn | .voiding turn | .releasing turn =>
    some (settleOwnTurn s x a turn)
  | .reading (.own turn) _ _ | .reading (.settle (.background turn) _ _) _ _
  | .settlingHeld (.background turn) _ | .settlingDone (.background turn) _ =>
    some (s.put x a (.reading (.own turn) turn.slot .owner))
  | .removing turn _ rest => some (collectNext s x a turn rest)
  | .holding _ => none
  | _ => some (s.drop x)

/-- A listing may miss or repeat turns, as a directory changes while it is read;
no live process is answered dead. -/
def turnStep (s : TurnLock) : TurnAction → Option TurnLock
  | .start x process =>
    if (s.acquisitions x).isNone && s.alive process then
      some (s.put x ⟨process, none, .looking⟩ .looking)
    else none
  | .list x listing =>
    match s.acquisitions x with
    | some a =>
      if a.phase = .looking then
        match listing with
        | none =>
          if s.directory.created then none else some (s.freshToken.put x a (.creating s.nextToken))
        | some slots =>
          if s.directory.created then
            some (match slots.max? with
              | none => s.put x a .looking
              | some slot => s.put x a (.reading .latest slot .owner))
          else none
      else none
    | none => none
  | .judge x dead =>
    match s.acquisitions x with
    | some a => match a.phase with
      | .judging t =>
        if dead then
          if s.alive t.owner.process then none else some (s.put x a (settleAbandonedTurn .acquisition t))
        else some (s.put x a .looking)
      | _ => none
    | none => none
  | .op x => (s.acquisitions x).bind fun a => fileOp s x a a.phase
  | .release x =>
    (s.acquisitions x).bind fun a => match a.phase with
      | .holding turn => some (s.put x a (.releasing turn))
      | _ => none
  | .listOlder x slots =>
    (s.acquisitions x).bind fun a => match a.phase with
      | .listing turn =>
        some (collectNext s x a turn ((slots.filter (· < turn.slot)).mergeSort (· ≤ ·)))
      | _ => none
  | .fail x => (s.acquisitions x).bind fun a => failOp s x a a.phase
  | .quit x =>
    (s.acquisitions x).bind fun a => match a.phase with
      | .looking | .reading (.own _) _ _ => some (s.drop x)
      | _ => none
  | .die process =>
    some { s with
      alive := Function.update s.alive process false
      acquisitions := fun x => (s.acquisitions x).filter (·.process != process) }

def initLock : TurnLock where
  directory := emptyDirectory
  alive _ := true
  relinquished _ := []
  acquisitions _ := none
  nextToken := 0
  returned := []

def turnMachine : Runs.Machine TurnLock TurnAction where
  initial s := s = initLock
  step := turnStep

end TinyCloud.Profile
