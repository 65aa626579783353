import Mathlib.Data.Int.Notation
import Mathlib.Data.Nat.Notation
import TinyCloud.Runs.Machine

/-! The gate file of a node or CLI profile and the deny floor beside it. Every
operation runs under the profile lock; each atomic file write may fail or be the
last thing its process does, before or after the file is in place. -/

namespace TinyCloud.Profile

structure DenyFloor where
  epoch : ℕ
  deniedAt : ℕ
  deriving DecidableEq, Repr

inductive PurgeIntent
  | partition (id partitionId principalHash : String) (recordedAt : ℕ)
  | pending (id identityKeyHash principalHash : String) (recordedAt : ℕ)
  deriving DecidableEq, Repr

namespace PurgeIntent

def id : PurgeIntent → String
  | .partition id _ _ _ => id
  | .pending id _ _ _ => id

def principalHash : PurgeIntent → String
  | .partition _ _ principalHash _ => principalHash
  | .pending _ _ principalHash _ => principalHash

def recordedAt : PurgeIntent → ℕ
  | .partition _ _ _ recordedAt => recordedAt
  | .pending _ _ _ recordedAt => recordedAt

end PurgeIntent

-- A JavaScript object used as a map.
abbrev Record := List (String × ℕ)

def Record.set (r : Record) (k : String) (v : ℕ) : Record :=
  (k, v) :: r.filter (fun p => p.1 ≠ k)

structure NodeGateState where
  incarnation : String
  salt : String
  principalHash : Option String
  lifecycleEpoch : ℕ
  deniedAt : Option ℕ
  intents : List PurgeIntent
  firstInstall : Record
  grantInstall : Record
  pendingGenerations : Record
  eraseDeferred : Bool
  deferredPrincipalHash : Option String
  deriving DecidableEq, Repr

structure SessionStamp where
  incarnation : String
  lifecycleEpoch : ℕ
  deriving DecidableEq, Repr

structure GateAccess where
  stamp : Option SessionStamp
  incarnation : String
  principalHash : String
  partitionId : Option String
  identityKeyHash : Option String
  deriving DecidableEq, Repr

inductive GateReason
  | notEstablished
  | stampStale
  | principalMismatch
  | purgePending
  | gateUnavailable
  deriving DecidableEq, Repr

/-- How a call ends without a result; `crashed` is the death of its process. -/
inductive Stop
  | gated (gate : GateReason) (message : String)
  | storage (code : String)
  | typeError (message : String)
  | crashed
  deriving DecidableEq, Repr

inductive DenyReason
  | signOut
  | accountSwitch
  | consentExpired
  deriving DecidableEq, Repr

structure DenyInput where
  reason : DenyReason
  principal : String
  next : Option String
  deriving DecidableEq, Repr

inductive DenyOutcome
  | denied (lifecycleEpoch intents : ℕ)
  | stale
  | unguarded (code : String)
  deriving DecidableEq, Repr

structure DeferredEraseToken where
  deniedEpoch : ℕ
  principalHash : String
  deriving DecidableEq, Repr

/-- What became of one atomic write; `lands` tells whether the rename took place. -/
inductive WriteFate
  | written
  | failed (lands : Bool) (code : String)
  | crashed (lands : Bool)
  deriving DecidableEq, Repr

inductive GateEvent
  | denied (floor : DenyFloor)
  | returned (stamp : SessionStamp)
  | accepted (stamp : SessionStamp)
  | established (siweIssuedAt : ℤ)
  deriving DecidableEq, Repr

/-- The two files, every gate file written so far, what has been observed so far,
and the fates of the writes to come. -/
structure GateFiles where
  gate : Option NodeGateState
  floor : Option DenyFloor
  copies : List NodeGateState
  log : List GateEvent
  fates : List WriteFate
  deriving DecidableEq, Repr

namespace GateFiles

def writeGate (w : GateFiles) (g : NodeGateState) : GateFiles :=
  { w with gate := some g, copies := g :: w.copies }

def writeFloor (w : GateFiles) (f : DenyFloor) : GateFiles :=
  { w with floor := some f, log := w.log ++ [.denied f] }

def record (w : GateFiles) (events : List GateEvent) : GateFiles :=
  { w with log := w.log ++ events }

def principal (w : GateFiles) : Option String :=
  w.gate.bind NodeGateState.principalHash

end GateFiles

abbrev GateM := EStateM Stop GateFiles

def isSafeInteger (n : ℤ) : Bool :=
  n.natAbs ≤ 9007199254740991

def isSaltedHash (s : String) : Bool :=
  s.toList.length == 64 && s.toList.all (fun c => c.isDigit || ('a' ≤ c && c ≤ 'f'))

def base64url : List Char :=
  "ABCDEFGHIJKLMNOPQRSTUVWXYZabcdefghijklmnopqrstuvwxyz0123456789-_".toList

-- Canonical base64url of at least 32 bytes: the unused low bits of the last character are zero.
def isSalt (s : String) : Bool :=
  let digits := s.toList.map (fun c => base64url.idxOf c)
  let last := digits.getLastD 0
  digits.all (· < 64) && 32 ≤ digits.length * 3 / 4 &&
    match digits.length % 4 with
    | 0 => true
    | 1 => false
    | 2 => last % 16 == 0
    | _ => last % 4 == 0

def gateRefusal {α : Type} (gate : GateReason) (message : String) : Except Stop α :=
  .error (.gated gate message)

def isIntent : PurgeIntent → Bool
  | .pending id identityKeyHash principalHash recordedAt =>
    isSaltedHash principalHash && isSafeInteger recordedAt && isSaltedHash identityKeyHash &&
      id == "pending:" ++ identityKeyHash
  | .partition id partitionId principalHash recordedAt =>
    isSaltedHash principalHash && isSafeInteger recordedAt && partitionId != "" && id == partitionId

def isEntry (p : String × ℕ) : Bool :=
  isSaltedHash p.1 && isSafeInteger p.2

def parseState (s : NodeGateState) : Except Stop NodeGateState :=
  if s.incarnation = "" then
    gateRefusal .gateUnavailable "The replica gate file has no incarnation."
  else if !isSalt s.salt then
    gateRefusal .gateUnavailable "The replica gate file has an invalid salt."
  else if !s.principalHash.all isSaltedHash then
    gateRefusal .gateUnavailable "The replica gate file has an invalid principal hash."
  else if !isSafeInteger s.lifecycleEpoch then
    gateRefusal .gateUnavailable "The replica gate file has an invalid lifecycle epoch."
  else if !s.deniedAt.all (fun d => isSafeInteger d) then
    gateRefusal .gateUnavailable "The replica gate file has an invalid deniedAt."
  else if !s.intents.all isIntent then
    gateRefusal .gateUnavailable "The replica gate file has an invalid purge intent."
  else if !s.firstInstall.all isEntry then
    gateRefusal .gateUnavailable "The replica gate file has an invalid firstInstall entry."
  else if !s.grantInstall.all isEntry then
    gateRefusal .gateUnavailable "The replica gate has an invalid grant install time."
  else if !s.pendingGenerations.all isEntry then
    gateRefusal .gateUnavailable "The replica gate file has an invalid pending generation."
  else if !s.deferredPrincipalHash.all isSaltedHash ||
      (s.eraseDeferred && (s.principalHash.isSome || s.deferredPrincipalHash.isNone)) then
    gateRefusal .gateUnavailable "The replica gate has an invalid deferred erase state."
  else .ok s

/-- The gate file exactly as stored, without the deny-floor check. -/
def readStoredState (w : GateFiles) : Except Stop (Option NodeGateState) :=
  match w.gate with
  | none => .ok none
  | some s => (parseState s).map some

def readDenyFloor (w : GateFiles) : Except Stop (Option DenyFloor) :=
  match w.floor with
  | none => .ok none
  | some f =>
    if !isSafeInteger f.epoch || f.epoch < 1 || !isSafeInteger f.deniedAt then
      gateRefusal .gateUnavailable "The replica deny floor is malformed."
    else .ok (some f)

def lostGateRecovery : String :=
  "Local replicas stay disabled for this profile; to start over, delete it (`tc profile delete <name>`; " ++
  "for the default profile, switch the default first with `tc profile switch <other>`) and sign in again."

def interruptedSignOut : String :=
  "A previous sign-out was interrupted; re-running `tc auth logout` completes it."

def behindFloor (state : NodeGateState) (floor : DenyFloor) : Bool :=
  state.lifecycleEpoch < floor.epoch ||
    match state.deniedAt with
    | none => true
    | some deniedAt => deniedAt < floor.deniedAt

def readState (w : GateFiles) : Except Stop (Option NodeGateState) := do
  let state ← readStoredState w
  let floor ← readDenyFloor w
  match floor, state with
  | none, _ => return state
  | some _, none =>
    gateRefusal .gateUnavailable ("The replica gate is missing after a sign-out. " ++ lostGateRecovery)
  | some floor, some state =>
    if behindFloor state floor then
      gateRefusal .gateUnavailable ("The replica gate is behind its last sign-out. " ++ interruptedSignOut)
    else return some state

def reading {α : Type} (read : GateFiles → Except Stop α) : GateM α := do
  match read (← get) with
  | .ok a => pure a
  | .error e => throw e

def refuse {α : Type} (gate : GateReason) (message : String) : GateM α :=
  throw (.gated gate message)

def nextFate : GateM WriteFate := do
  let w ← get
  match w.fates with
  | [] => pure .written
  | fate :: fates =>
    set { w with fates := fates }
    pure fate

/-- temp + fsync + rename + directory fsync: the target is the old or the new file. -/
def writeAtomic (put : GateFiles → GateFiles) : GateM Unit := do
  match ← nextFate with
  | .written => modify put
  | .failed lands code =>
    modify (fun w => if lands then put w else w)
    throw (.storage code)
  | .crashed lands =>
    modify (fun w => if lands then put w else w)
    throw .crashed

def writeState (state : NodeGateState) : GateM Unit :=
  writeAtomic (·.writeGate state)

def writeDenyFloor (floor : DenyFloor) : GateM Unit :=
  writeAtomic (·.writeFloor floor)

/-- The random incarnation and salt of a new gate. -/
structure Fresh where
  incarnation : String
  salt : String
  deriving DecidableEq, Repr

def freshState (fresh : Fresh) : NodeGateState where
  incarnation := fresh.incarnation
  salt := fresh.salt
  principalHash := none
  lifecycleEpoch := 0
  deniedAt := none
  intents := []
  firstInstall := []
  grantInstall := []
  pendingGenerations := []
  eraseDeferred := false
  deferredPrincipalHash := none

def readGateState (fresh : Fresh) : GateM NodeGateState := do
  match ← reading readState with
  | some existing => pure existing
  | none =>
    let created := freshState fresh
    writeState created
    pure created

def covers (access : GateAccess) : PurgeIntent → Bool
  | .partition _ partitionId _ _ => access.partitionId == some partitionId
  | .pending _ identityKeyHash _ _ => access.identityKeyHash == some identityKeyHash

def assertGateAccess (access : GateAccess) (salt : String) : GateM NodeGateState := do
  match access.stamp with
  | none => refuse .notEstablished "The replica session has no stamp."
  | some stamp =>
    match ← reading readState with
    | none => refuse .gateUnavailable "The replica gate is unavailable or was replaced."
    | some state =>
      if state.salt ≠ salt then
        refuse .gateUnavailable "The replica gate is unavailable or was replaced."
      else if state.incarnation ≠ access.incarnation then
        refuse .stampStale "The replica gate was replaced."
      else if state.lifecycleEpoch ≠ stamp.lifecycleEpoch ∨ state.incarnation ≠ stamp.incarnation then
        refuse .stampStale "The replica session stamp has changed."
      else if state.principalHash ≠ some access.principalHash then
        refuse .principalMismatch "The replica belongs to a different account."
      else if state.intents.any (covers access) then
        refuse .purgePending "This replica has a pending erase."
      else pure state

def clearGateIntent (id : String) : GateM Unit := do
  match ← reading readState with
  | none => pure ()
  | some state =>
    if !state.intents.any (·.id == id) then pure ()
    else if state.eraseDeferred then
      refuse .purgePending "Deferred replica erase has not been resumed."
    else writeState { state with intents := state.intents.filter (·.id != id) }

def recordFirstInstall (fresh : Fresh) (identityKeyHash : String) (atMs : ℤ) : GateM ℕ := do
  if !isSaltedHash identityKeyHash || !isSafeInteger atMs || atMs < 0 then
    refuse .gateUnavailable "A salted identity hash and finite first-install time are required."
  else
    let state ← readGateState fresh
    if state.eraseDeferred then
      refuse .purgePending "Deferred replica erase has not been resumed."
    else
      match state.firstInstall.lookup identityKeyHash with
      | some existing => pure existing
      | none =>
        writeState { state with firstInstall := state.firstInstall.set identityKeyHash atMs.toNat }
        pure atMs.toNat

def recordGrantInstall (hash : String) (atMs : ℤ) : GateM ℕ := do
  if !isSaltedHash hash || !isSafeInteger atMs || atMs < 0 then
    refuse .gateUnavailable "A salted grant hash and finite install time are required."
  else
    match ← reading readState with
    | none => refuse .gateUnavailable "The replica account gate is not established."
    | some state =>
      if state.principalHash.isNone then
        refuse .gateUnavailable "The replica account gate is not established."
      else if state.eraseDeferred || !state.intents.isEmpty then
        refuse .purgePending "A purge is pending for this profile."
      else
        match state.grantInstall.lookup hash with
        | some previous =>
          if previous ≤ atMs then pure previous
          else
            writeState { state with grantInstall := state.grantInstall.set hash atMs.toNat }
            pure atMs.toNat
        | none =>
          writeState { state with grantInstall := state.grantInstall.set hash atMs.toNat }
          pure atMs.toNat

def afterDenial : Option ℕ → ℕ
  | none => 0
  | some deniedAt => deniedAt + 1

def floorEpoch : Option DenyFloor → ℕ
  | none => 0
  | some floor => floor.epoch

/-- Past both the gate and its floor. -/
def nextFloor (now : ℕ) (state : NodeGateState) (floor : Option DenyFloor) : DenyFloor where
  epoch := max state.lifecycleEpoch (floorEpoch floor) + 1
  deniedAt := max (max now (afterDenial state.deniedAt)) (afterDenial (floor.map DenyFloor.deniedAt))

def canAdvance (floor : DenyFloor) : Bool :=
  isSafeInteger floor.epoch && isSafeInteger floor.deniedAt

def advanceInactiveGate (now : ℕ) : GateM NodeGateState := do
  let state ← reading readStoredState
  let floor ← reading readDenyFloor
  match state with
  | none => refuse .stampStale "Only an inactive replica gate can be advanced past its floor."
  | some state =>
    if state.principalHash.isSome || state.eraseDeferred then
      refuse .stampStale "Only an inactive replica gate can be advanced past its floor."
    else
      let past := nextFloor now state floor
      if !canAdvance past then
        refuse .gateUnavailable "The replica deny floor cannot advance."
      else
        let next := { state with lifecycleEpoch := past.epoch, deniedAt := some past.deniedAt }
        writeDenyFloor past
        writeState next
        pure next

section Hashing

variable (principalHashOf : String → String → String)

def establishSessionStamp (fresh : Fresh) (now : ℕ) (principal : String) (siweIssuedAt : ℤ) :
    GateM SessionStamp := do
  if !isSafeInteger siweIssuedAt || siweIssuedAt < 0 then
    refuse .notEstablished "A finite signed SIWE issued-at time is required."
  else
    let issuedAt := min siweIssuedAt.toNat now
    let state ← readGateState fresh
    if state.eraseDeferred || !state.intents.isEmpty then
      refuse .purgePending "A purge is pending for this profile."
    else if state.deniedAt.any (fun deniedAt => issuedAt ≤ deniedAt) then
      refuse .stampStale "The sign-in predates the last sign-out."
    else
      let hash := principalHashOf state.salt principal
      match state.principalHash with
      | none =>
        writeState { state with principalHash := some hash, deferredPrincipalHash := none }
        pure ⟨state.incarnation, state.lifecycleEpoch⟩
      | some principalHash =>
        if principalHash ≠ hash then
          refuse .principalMismatch "The profile belongs to another account."
        else pure ⟨state.incarnation, state.lifecycleEpoch⟩

def restoreSessionStamp (principal : String) (persisted : Option SessionStamp) :
    GateM SessionStamp := do
  let state ← reading readState
  if state.any (fun state => state.eraseDeferred || !state.intents.isEmpty) then
    refuse .purgePending "A purge is pending for this profile."
  else
    match persisted with
    | none => refuse .notEstablished "The session has no replica stamp."
    | some persisted =>
      if persisted.incarnation = "" ∨ !isSafeInteger persisted.lifecycleEpoch then
        refuse .stampStale "The persisted replica stamp is malformed."
      else
        match state with
        | none => refuse .stampStale "The replica gate no longer exists."
        | some state =>
          if persisted.incarnation ≠ state.incarnation ∨
              persisted.lifecycleEpoch ≠ state.lifecycleEpoch then
            refuse .stampStale "The session stamp is from an earlier sign-in."
          else if state.principalHash ≠ some (principalHashOf state.salt principal) then
            refuse .principalMismatch "The profile belongs to another account."
          else pure ⟨persisted.incarnation, persisted.lifecycleEpoch⟩

def addIntents (recorded : List PurgeIntent) : List PurgeIntent → List PurgeIntent → List PurgeIntent
  | [], added => added
  | intent :: intents, added =>
    if (recorded ++ added).any (·.id == intent.id) then addIntents recorded intents added
    else addIntents recorded intents (added ++ [intent])

def advanceGenerations : List PurgeIntent → Record → Except Stop Record
  | [], generations => .ok generations
  | .partition _ _ _ _ :: added, generations => advanceGenerations added generations
  | .pending id hash _ _ :: added, generations =>
    let generation := (generations.lookup hash).getD 0 + 1
    if !isSaltedHash hash || id != "pending:" ++ hash || !isSafeInteger generation then
      gateRefusal .gateUnavailable "A pending purge intent has an invalid identity generation."
    else advanceGenerations added (generations.set hash generation)

structure Precomputed where
  salt : String
  principalHash : String
  deriving DecidableEq, Repr

def denyStored (now : ℕ) (input : DenyInput) (collectIntents : String → Except Stop (List PurgeIntent))
    (precomputed : Option Precomputed) (deferErase : Bool) : GateM DenyOutcome := do
  -- Read past the floor check: a deny may always move a gate that fell behind its floor forward.
  let state ← reading readStoredState
  let floor ← reading readDenyFloor
  match state with
  | none =>
    if floor.isSome then
      refuse .gateUnavailable ("The replica gate is missing after a sign-out. " ++ lostGateRecovery)
    else pure .stale
  | some state =>
    match state.principalHash with
    | none => pure .stale
    | some principalHash =>
      if precomputed.any (fun p => state.salt != p.salt) then
        refuse .gateUnavailable "The replica gate salt changed before denial."
      else if principalHash ≠
          (precomputed.map Precomputed.principalHash).getD (principalHashOf state.salt input.principal) then
        pure .stale
      else
        let intents ← reading (fun _ => collectIntents principalHash)
        let added := addIntents state.intents intents []
        let pendingGenerations ← reading (fun _ => advanceGenerations added state.pendingGenerations)
        let merged := state.intents ++ added
        let past := nextFloor now state floor
        if !canAdvance past then
          refuse .gateUnavailable "The replica deny floor cannot advance."
        else
          let next : NodeGateState := { state with
            principalHash := none
            lifecycleEpoch := past.epoch
            deniedAt := some past.deniedAt
            intents := merged
            firstInstall := []
            grantInstall := []
            pendingGenerations := pendingGenerations
            eraseDeferred := deferErase
            deferredPrincipalHash := if deferErase then some principalHash else none }
          -- The floor commits first, so a crash between the two writes leaves the gate behind it.
          writeDenyFloor past
          writeState next
          pure (.denied next.lifecycleEpoch merged.length)

def denyGate (now : ℕ) (input : DenyInput) (collectIntents : String → Except Stop (List PurgeIntent))
    (precomputed : Option Precomputed) (deferErase : Bool) : GateM DenyOutcome := do
  if input.reason = .accountSwitch ∧ input.next = none then
    throw (.typeError "An account switch needs the incoming principal.")
  else if deferErase ∧ input.reason ≠ .signOut then
    throw (.typeError "Deferred erase is only available for sign-out.")
  else
    tryCatch (denyStored principalHashOf now input collectIntents precomputed deferErase) fun
      | .crashed => throw .crashed
      | .gated _ _ => pure (.unguarded "REPLICA_GATED")
      | .storage code => pure (.unguarded code)
      | .typeError _ => pure (.unguarded "STORAGE_ERROR")

end Hashing

def deferredGateToken : GateM (Option DeferredEraseToken) := do
  match ← reading readState with
  | none => pure none
  | some state =>
    if state.eraseDeferred then
      pure (state.deferredPrincipalHash.map (fun hash => ⟨state.lifecycleEpoch, hash⟩))
    else pure none

def resumeDeferredGate (token : DeferredEraseToken) : GateM Bool := do
  match ← reading readState with
  | none => refuse .gateUnavailable "The replica gate no longer exists."
  | some state =>
    if !isSafeInteger token.deniedEpoch || !isSaltedHash token.principalHash ||
        state.lifecycleEpoch ≠ token.deniedEpoch ||
        state.deferredPrincipalHash ≠ some token.principalHash || state.principalHash.isSome then
      refuse .stampStale "The deferred erase token is stale or belongs to another account."
    else if !state.eraseDeferred then pure false
    else
      writeState { state with eraseDeferred := false }
      pure true

end TinyCloud.Profile
