import Mathlib.Data.Int.Notation
import Mathlib.Order.Lattice
import TinyCloud.Runs.Interleaved
import TinyCloud.Runs.Machine

/-! The browser lifecycle gate: the deny tombstone and the logout marker in the origin's
`localStorage`, the gate and its keys in a database that can be lost, one view per tab,
and the calls of any number of tabs over them. -/

namespace TinyCloud.Browser

open TinyCloud.Runs

structure Tombstone where
  epoch : ℕ
  deniedAt : ℕ
  deriving DecidableEq, Repr

structure BrowserGate where
  incarnation : String
  principalHash : Option String
  lifecycleEpoch : ℕ
  deniedAt : Option ℕ
  keyId : String
  accountKeyId : String
  consentDeadline : Option ℕ
  deriving DecidableEq, Repr

structure GateHmacRecord where
  incarnation : String
  keyId : String
  hmac : ℕ
  deriving DecidableEq, Repr

structure AccountKeyRecord where
  incarnation : String
  lifecycleEpoch : ℕ
  principalHash : String
  keyId : String
  deriving DecidableEq, Repr

structure Keys where
  hash : GateHmacRecord
  account : AccountKeyRecord
  deriving DecidableEq, Repr

inductive PurgeIntent
  | partition (partitionId principalHash : String) (recordedAt : ℕ)
  | pending (identityKeyHash principalHash : String) (recordedAt : ℕ)
  deriving DecidableEq, Repr

def PurgeIntent.id : PurgeIntent → String
  | .partition partitionId _ _ => partitionId
  | .pending identityKeyHash _ _ => "pending:" ++ identityKeyHash

structure PartitionIndexEntry where
  partitionId : String
  principalHash : String
  identityKeyHash : String
  deriving DecidableEq, Repr

structure Stores where
  gate : Option BrowserGate
  hmac : Option GateHmacRecord
  account : Option AccountKeyRecord
  purgeIntents : List PurgeIntent
  partitions : List PartitionIndexEntry
  pending : List String
  deriving DecidableEq, Repr

def emptyStores : Stores := ⟨none, none, none, [], [], []⟩

structure LegacyGate where
  lifecycleEpoch : ℕ
  deniedAt : Option ℕ
  deriving DecidableEq, Repr

/-- The origin database; `legacy` is version 1, of which only the gate is ever read. -/
inductive Database
  | absent
  | legacy (gate : Option LegacyGate)
  | current (stores : Stores)
  deriving DecidableEq, Repr

structure SessionStamp where
  incarnation : String
  lifecycleEpoch : ℕ
  deriving DecidableEq, Repr

structure View where
  incarnation : String
  lifecycleEpoch : ℕ
  consentDeadline : ℕ
  principal : String
  deriving DecidableEq, Repr

def View.stamp (v : View) : SessionStamp := ⟨v.incarnation, v.lifecycleEpoch⟩

/-- `issued` records the anchor and what was outstanding when the stamp was issued. -/
inductive Event
  | denied (t : Tombstone)
  | preserved (t : Tombstone)
  | issued (stamp : SessionStamp) (anchor : ℕ) (marker : Bool) (intents : List PurgeIntent)
  | restored (stamp : SessionStamp)
  | allowed (stamp : SessionStamp)
  deriving DecidableEq, Repr

/-- A call of a tab. -/
abbrev Thread := ℕ × ℕ

structure Origin where
  tombstone : Option Tombstone
  marker : Bool
  db : Database
  lock : Option Thread
  views : ℕ → Option View
  log : List Event

namespace Origin

def stores (s : Origin) : Stores :=
  match s.db with
  | .current stores => stores
  | _ => emptyStores

def record (s : Origin) (e : Event) : Origin :=
  { s with log := s.log ++ [e] }

def setView (s : Origin) (tab : ℕ) (v : Option View) : Origin :=
  { s with views := Function.update s.views tab v }

end Origin

structure Random where
  incarnation : String
  keyId : String
  hmac : ℕ
  accountKeyId : String
  deriving DecidableEq, Repr

/-- Why a tombstone is put in `localStorage`: to deny, to keep the floor of a legacy gate,
or to probe that it can be written, with the value just read. -/
inductive TombstoneWrite
  | deny
  | preserve
  | rewrite
  deriving DecidableEq, Repr

inductive DenyOutcome
  | denied (lifecycleEpoch intents : ℕ)
  | stale
  | deleted
  | marker (code : String)
  | unguarded (code : String)
  deriving DecidableEq, Repr

inductive DeleteOutcome
  | deleted
  | failed (code : String)
  deriving DecidableEq, Repr

inductive Op
  | acquire
  | release
  | clock
  | random
  | aborted
  | leaveView (principal : String)
  | clearView
  | adopt (view : View) (anchor : Option ℕ)
  | getTombstone
  | setTombstone (why : TombstoneWrite) (t : Tombstone)
  | probeTombstone
  | getMarker
  | setMarker
  | removeMarker
  | readIntents
  | readGate
  | readKeys
  | readLegacy
  | createDatabase
  | writeGate (gate : BrowserGate) (previous : Option BrowserGate) (keys : Keys)
  | commitDeny (gate : BrowserGate) (callerHash : String) (t : Tombstone)
  | eraseIntent (intent : PurgeIntent)
  | deleteDatabase

def Op.Res : Op → Type
  | .clock => ℕ
  | .random => Random
  | .aborted => Bool
  | .getTombstone => Option Tombstone
  | .getMarker => Bool
  | .readIntents => List PurgeIntent
  | .readGate => Option BrowserGate
  | .readKeys => Option (Option GateHmacRecord × Option AccountKeyRecord)
  | .readLegacy => Option (Option LegacyGate)
  | .commitDeny _ _ _ => DenyOutcome
  | .deleteDatabase => DeleteOutcome
  | _ => Unit

def put (intents : List PurgeIntent) (intent : PurgeIntent) : List PurgeIntent :=
  intents.filter (·.id != intent.id) ++ [intent]

/-- The purge intents of a denied principal: its partitions, and every pending identity. -/
def denyIntents (stores : Stores) (callerHash : String) (recordedAt : ℕ) : List PurgeIntent :=
  let owned := stores.partitions.filter (·.principalHash == callerHash)
  let identities := (owned.map (·.identityKeyHash) ++ stores.pending).eraseDups
  owned.map (fun entry => .partition entry.partitionId callerHash recordedAt) ++
    identities.map (fun hash => .pending hash callerHash recordedAt)

def denyStores (stores : Stores) (gate : BrowserGate) (callerHash : String) (t : Tombstone) :
    DenyOutcome × Stores :=
  match stores.gate with
  | none => (.stale, stores)
  | some current =>
    if current.incarnation ≠ gate.incarnation ∨ current.principalHash ≠ some callerHash ∨
        current.lifecycleEpoch ≠ gate.lifecycleEpoch ∨ current.keyId ≠ gate.keyId ∨
        current.accountKeyId ≠ gate.accountKeyId then (.stale, stores)
    else
      let intents := denyIntents stores callerHash t.deniedAt
      (.denied t.epoch intents.length,
        { stores with
          gate := some { current with
            principalHash := none
            consentDeadline := none
            lifecycleEpoch := t.epoch
            deniedAt := some t.deniedAt }
          hmac := none
          account := none
          purgeIntents := intents.foldl put stores.purgeIntents })

def eraseStores (stores : Stores) (intent : PurgeIntent) : Stores :=
  let cleared := stores.purgeIntents.filter (·.id != intent.id)
  match intent with
  | .partition partitionId _ _ =>
    { stores with
      partitions := stores.partitions.filter (·.partitionId != partitionId)
      purgeIntents := cleared }
  | .pending identityKeyHash _ _ =>
    { stores with pending := stores.pending.filter (· != identityKeyHash), purgeIntents := cleared }

/-- What the browser decides about one operation: whether it fails, and what it answers. -/
structure Choice where
  fails : Bool
  blocked : Bool
  now : ℕ
  random : Random
  aborted : Bool
  deriving DecidableEq, Repr

def sameGate (current previous : Option BrowserGate) : Bool :=
  current.map (·.incarnation) == previous.map (·.incarnation) &&
    current.map (·.lifecycleEpoch) == previous.map (·.lifecycleEpoch) &&
    current.map (·.principalHash) == previous.map (·.principalHash)

def logWrite (why : TombstoneWrite) (t : Tombstone) (s : Origin) : Origin :=
  match why with
  | .deny => s.record (.denied t)
  | .preserve => s.record (.preserved t)
  | .rewrite => s

/-- One operation of a call: `none` where it has to wait, and no answer where it throws. -/
def runOp (x : Thread) (c : Choice) (s : Origin) : (o : Op) → Option (Option o.Res × Origin)
  | .acquire =>
    if c.fails then some (none, s)
    else if s.lock = none then some (some (), { s with lock := some x })
    else none
  | .release => some (some (), { s with lock := none })
  | .clock => some (if c.fails then none else some c.now, s)
  | .random => some (if c.fails then none else some c.random, s)
  | .aborted => some (some c.aborted, s)
  | .leaveView principal =>
    some (some (), if (s.views x.1).any (·.principal == principal.toLower) then s.setView x.1 none else s)
  | .clearView => some (some (), s.setView x.1 none)
  | .adopt view anchor =>
    let event := match anchor with
      | none => .restored view.stamp
      | some anchor => .issued view.stamp anchor s.marker s.stores.purgeIntents
    some (some (), (s.setView x.1 (some view)).record event)
  | .getTombstone => some (if c.fails then none else some s.tombstone, s)
  | .setTombstone why t =>
    if c.fails then some (none, s) else some (some (), logWrite why t { s with tombstone := some t })
  | .probeTombstone => some (if c.fails then none else some (), s)
  | .getMarker => some (if c.fails then none else some s.marker, s)
  | .setMarker => if c.fails then some (none, s) else some (some (), { s with marker := true })
  | .removeMarker => if c.fails then some (none, s) else some (some (), { s with marker := false })
  | .readIntents => some (if c.fails then none else some s.stores.purgeIntents, s)
  | .readGate => some (if c.fails then none else some s.stores.gate, s)
  | .readKeys =>
    some (if c.fails then none else
      some (match s.db with
        | .current stores => some (stores.hmac, stores.account)
        | _ => none), s)
  | .readLegacy =>
    some (if c.fails then none else
      some (match s.db with
        | .legacy gate => some gate
        | _ => none), s)
  | .createDatabase =>
    if c.fails then some (none, s)
    else some (some (), { s with db := .current s.stores })
  | .writeGate gate previous keys =>
    match s.db with
    | .current stores =>
      if c.fails || !sameGate stores.gate previous then some (none, s)
      else some (some (), { s with db := .current { stores with
        gate := some gate
        hmac := some keys.hash
        account := some keys.account } })
    | _ => some (none, s)
  | .commitDeny gate callerHash t =>
    if c.fails then some (none, s)
    else
      match s.db with
      | .current stores =>
        let (outcome, stores) := denyStores stores gate callerHash t
        some (some outcome, { s with db := .current stores })
      | _ => some (some DenyOutcome.stale, s)
  | .eraseIntent intent =>
    if c.fails then some (none, s)
    else
      match s.db with
      | .current stores => some (some (), { s with db := .current (eraseStores stores intent) })
      | _ => some (some (), s)
  | .deleteDatabase =>
    if c.fails then
      some (some (DeleteOutcome.failed (if c.blocked then "DELETE_BLOCKED" else "STORAGE_ERROR")), s)
    else some (some DeleteOutcome.deleted, { s with db := .absent })

inductive GateReason
  | notEstablished
  | stampStale
  | principalMismatch
  | purgePending
  | logoutPending
  | gateUnavailable
  deriving DecidableEq, Repr

inductive Stop
  | gated (gate : GateReason) (message : String)
  | consentExpired
  | invalid (message : String)
  | storage
  deriving DecidableEq, Repr

def GateReason.code : GateReason → String
  | .notEstablished => "not_established"
  | .stampStale => "stamp_stale"
  | .principalMismatch => "principal_mismatch"
  | .purgePending => "purge_pending"
  | .logoutPending => "logout_pending"
  | .gateUnavailable => "gate_unavailable"

def codeOf : Stop → String
  | .gated gate _ => gate.code
  | .consentExpired => "CONSENT_EXPIRED"
  | _ => "STORAGE_ERROR"

abbrev Call := Code Stop Op Op.Res

def ask (o : Op) : Call o.Res := perform .storage o

def clock : Call ℕ := ask .clock

def aborted : Call Bool := ask .aborted

def storedTombstone : Call (Option Tombstone) := ask .getTombstone

def storedMarker : Call Bool := ask .getMarker

def readGate : Call (Option BrowserGate) := ask .readGate

def deleteKvDatabase : Call DeleteOutcome := ask .deleteDatabase

def readIntents : Call (List PurgeIntent) := ask .readIntents

def refuse {α : Type} (gate : GateReason) (message : String) : Call α :=
  throw (.gated gate message)

def isSafeInteger (n : ℤ) : Bool :=
  n.natAbs ≤ 9007199254740991

def checkedNow : Call ℕ := do
  let now ← tryCatch clock fun _ => refuse .gateUnavailable "The replica clock is unavailable."
  if isSafeInteger now then pure now
  else refuse .gateUnavailable "The replica clock is unavailable."

def deadlineOf (gate : BrowserGate) : Call ℕ :=
  match gate.consentDeadline with
  | some deadline =>
    if isSafeInteger deadline then pure deadline
    else refuse .gateUnavailable "The account gate has no valid consent deadline."
  | none => refuse .gateUnavailable "The account gate has no valid consent deadline."

/-- Fail closed: no readable `localStorage` means no proof the logout completed. -/
def logoutMarkerSet : Call Bool :=
  tryCatch storedMarker fun _ => pure true

def validTombstone (t : Tombstone) : Bool :=
  isSafeInteger t.epoch && 1 ≤ t.epoch && isSafeInteger t.deniedAt

def readTombstone : Call (Option Tombstone) := do
  let stored ← tryCatch storedTombstone fun _ =>
    refuse .gateUnavailable "The origin deny tombstone cannot be read."
  match stored with
  | none => pure none
  | some t =>
    if validTombstone t then pure (some t)
    else refuse .gateUnavailable "The origin deny tombstone cannot be read."

def tombstoneUnwritable {α : Type} : Call α :=
  refuse .gateUnavailable "The origin deny tombstone cannot be written."

def writeTombstone (why : TombstoneWrite) (t : Tombstone) : Call Unit :=
  tryCatch (do
    ask (.setTombstone why t)
    let stored ← storedTombstone
    if stored ≠ some t then throw .storage else pure ()) fun _ => tombstoneUnwritable

/-- A readable but read-only origin must not establish a session it could not later deny. -/
def assertTombstoneWritable : Call Unit := do
  let stored ← tryCatch storedTombstone fun _ => tombstoneUnwritable
  match stored with
  | none => tryCatch (ask .probeTombstone) fun _ => tombstoneUnwritable
  | some t => writeTombstone .rewrite t

structure Floor where
  epoch : ℕ
  deniedAt : Option ℕ
  deriving DecidableEq, Repr

def denyFloor (gate : Option BrowserGate) (tombstone : Option Tombstone) : Except Stop Floor :=
  match gate, tombstone with
  | none, none => .ok ⟨0, none⟩
  | none, some t => .ok ⟨t.epoch, some t.deniedAt⟩
  | some g, none =>
    if g.lifecycleEpoch > 0 ∨ g.deniedAt ≠ none then
      .error (.gated .gateUnavailable "A denied gate has no origin deny tombstone.")
    else .ok ⟨g.lifecycleEpoch, none⟩
  | some g, some t =>
    if g.lifecycleEpoch < t.epoch then
      .error (.gated .gateUnavailable "The gate is behind the origin deny tombstone.")
    else
      .ok ⟨max g.lifecycleEpoch t.epoch,
        some (match g.deniedAt with
          | none => t.deniedAt
          | some deniedAt => max deniedAt t.deniedAt)⟩

def floorOf (gate : Option BrowserGate) (tombstone : Option Tombstone) : Call Floor :=
  match denyFloor gate tombstone with
  | .ok floor => pure floor
  | .error e => throw e

def legacyFloor (gate : Option LegacyGate) : Option Floor :=
  match gate with
  | none => some ⟨0, none⟩
  | some g =>
    if !isSafeInteger g.lifecycleEpoch || !g.deniedAt.all (fun d => isSafeInteger d) ||
        (g.lifecycleEpoch == 0) != g.deniedAt.isNone then none
    else some ⟨g.lifecycleEpoch, g.deniedAt⟩

def readLegacyGateFloor : Call (Option Floor) := do
  let found ← tryCatch (ask .readLegacy) fun _ =>
    refuse .gateUnavailable "The legacy gate deny floor cannot be read."
  match (found : Option (Option LegacyGate)) with
  | none => pure none
  | some gate =>
    match legacyFloor gate with
    | none => refuse .gateUnavailable "The legacy gate deny floor is invalid."
    | some floor => pure (some floor)

-- A version 2 gate has no legacy gate beside it.
def legacyBeside (current : Option BrowserGate) : Call (Option Floor) :=
  if current.isNone then readLegacyGateFloor else pure none

/-- Preserve a legacy denial outside the store before the upgrade can destroy its gate. -/
def preserveLegacyFloor (legacy : Option Floor) (tombstone : Option Tombstone) :
    Call (Option Tombstone × Bool) := do
  match legacy with
  | none => pure (tombstone, false)
  | some legacy =>
    match legacy.deniedAt with
    | none => pure (tombstone, false)
    | some deniedAt =>
      let floor : Tombstone :=
        ⟨max legacy.epoch ((tombstone.map Tombstone.epoch).getD 0),
          max deniedAt ((tombstone.map Tombstone.deniedAt).getD 0)⟩
      if tombstone.any (fun t => t.epoch ≥ floor.epoch && t.deniedAt ≥ floor.deniedAt) then
        pure (tombstone, false)
      else
        writeTombstone .preserve floor
        pure (some floor, true)

def isKeyId (s : String) : Bool :=
  s.toList.length == 32 && s.toList.all (fun c => c.isDigit || ('a' ≤ c && c ≤ 'f'))

def validGateHmac (record : GateHmacRecord) (gate : BrowserGate) : Bool :=
  record.incarnation == gate.incarnation && record.keyId == gate.keyId && isKeyId record.keyId

def validAccountKey (record : AccountKeyRecord) (gate : BrowserGate) : Bool :=
  record.incarnation == gate.incarnation && record.lifecycleEpoch == gate.lifecycleEpoch &&
    some record.principalHash == gate.principalHash && record.keyId == gate.accountKeyId &&
    isKeyId record.keyId

def activeKeys (gate : BrowserGate) : Call Keys := do
  match (← ask .readKeys : Option (Option GateHmacRecord × Option AccountKeyRecord)) with
  | some (some hash, some account) =>
    if validGateHmac hash gate && validAccountKey account gate then pure ⟨hash, account⟩
    else refuse .gateUnavailable "The account gate encryption keys are missing or mismatched."
  | _ => refuse .gateUnavailable "The account gate encryption keys are missing or mismatched."

/-- `anchor` is the consent anchor of a stamp issued now; a restored stamp has none. -/
def adopt (gate : BrowserGate) (principal : String) (anchor : Option ℕ) : Call SessionStamp := do
  let deadline ← deadlineOf gate
  ask (.adopt ⟨gate.incarnation, gate.lifecycleEpoch, deadline, principal.toLower⟩ anchor)
  -- Arming the expiry timer reads the clock.
  let _ ← checkedNow
  pure ⟨gate.incarnation, gate.lifecycleEpoch⟩

/-- The origin Web Lock; a tab that dies gives it up as well. -/
def exclusive {α : Type} (section_ : Call α) : Call α := do
  tryCatch (ask .acquire) fun _ => refuse .gateUnavailable "The origin Web Lock is unavailable."
  let result ← tryCatch (do let a ← section_; pure (Except.ok a)) fun e => pure (Except.error e)
  ask .release
  match (result : Except Stop α) with
  | .ok a => pure a
  | .error e => throw e

def setLogoutMarker : Call Bool :=
  tryCatch (do
    ask .setMarker
    storedMarker) fun _ => pure false

/-- Commit failed: delete the whole origin database. Blocked or failed delete: set the marker. -/
def wipe : Call DenyOutcome := do
  match ← deleteKvDatabase with
  | .deleted => pure .deleted
  | .failed code => if ← setLogoutMarker then pure (.marker code) else pure (.unguarded code)

def advanceDeny (gate : BrowserGate) (floor : Floor) : Call DenyOutcome := do
  match gate.principalHash with
  | none => pure .stale
  | some callerHash =>
    let now ← checkedNow
    let t : Tombstone :=
      ⟨floor.epoch + 1, max now (match floor.deniedAt with | none => 0 | some deniedAt => deniedAt + 1)⟩
    if !isSafeInteger t.epoch || !isSafeInteger t.deniedAt then
      refuse .gateUnavailable "The origin deny tombstone cannot advance."
    else
      writeTombstone .deny t
      tryCatch (ask (.commitDeny gate callerHash t)) fun _ => wipe

def expireConsentLocked : Call DenyOutcome := do
  let gate ← readGate
  let floor ← floorOf gate (← readTombstone)
  match gate with
  | none => pure .stale
  | some gate =>
    if gate.principalHash.isNone then pure .stale
    else if (← checkedNow) < (← deadlineOf gate) then pure .stale
    else
      ask .clearView
      advanceDeny gate floor

def expireConsent : Call DenyOutcome :=
  tryCatch (exclusive expireConsentLocked) fun e => pure (.unguarded (codeOf e))

@[irreducible] def consentWindowMs : ℕ := 7 * 24 * 60 * 60 * 1000

section Hashing

variable (gateHash : ℕ → String → String → String)

def principalHashOf (hmac : ℕ) (principal : String) : String :=
  gateHash hmac "principal" principal.toLower

structure ConsentAnchor where
  source : String
  at_ : ℤ
  deriving DecidableEq, Repr

def validAnchor (anchor : ConsentAnchor) : Bool :=
  ["siwe", "delegation_iat", "delegation_nbf"].contains anchor.source && isSafeInteger anchor.at_ &&
    0 ≤ anchor.at_

def establishLocked (principal : String) (anchor : Option ConsentAnchor) : Call SessionStamp := do
  let tombstone ← readTombstone
  if ← logoutMarkerSet then refuse .logoutPending "A logout is still pending on this origin."
  else
    match anchor.filter validAnchor with
    | none => refuse .notEstablished "A verified finite consent anchor is required."
    | some anchor =>
      let anchor := anchor.at_.toNat
      let issuedAt := min anchor (← checkedNow)
      if !(← readIntents).isEmpty then refuse .purgePending "A purge is still pending on this origin."
      else
        let current ← readGate
        let legacy ← legacyBeside current
        let (tombstone, advanced) ← preserveLegacyFloor legacy tombstone
        let floor ← floorOf current tombstone
        if advanced then
          refuse .stampStale "The legacy deny floor was preserved; a new consent proof is required."
        else if floor.deniedAt.any (fun deniedAt => issuedAt ≤ deniedAt) then
          refuse .stampStale "This sign-in predates the last sign-out."
        else
          assertTombstoneWritable
          match current.bind (fun gate => gate.principalHash.map (fun hash => (gate, hash))) with
          | none =>
            let fresh ← ask .random
            let hash : GateHmacRecord := ⟨(fresh : Random).incarnation, fresh.keyId, fresh.hmac⟩
            let principalHash := principalHashOf gateHash hash.hmac principal
            let account : AccountKeyRecord :=
              ⟨fresh.incarnation, floor.epoch, principalHash, fresh.accountKeyId⟩
            let created : BrowserGate :=
              { incarnation := fresh.incarnation
                principalHash := some principalHash
                lifecycleEpoch := floor.epoch
                deniedAt := floor.deniedAt
                keyId := hash.keyId
                accountKeyId := account.keyId
                consentDeadline := some (issuedAt + consentWindowMs) }
            if !isSafeInteger (issuedAt + consentWindowMs : ℕ) then
              refuse .notEstablished "The consent deadline is invalid."
            else
              tryCatch (ask .createDatabase) fun _ =>
                refuse .gateUnavailable "The origin database could not be created."
              ask (.writeGate created current ⟨hash, account⟩)
              adopt created principal (some anchor)
          | some (gate, hash) =>
            let keys ← activeKeys gate
            if hash ≠ principalHashOf gateHash keys.hash.hmac principal then
              refuse .principalMismatch "The origin is bound to another account."
            else if (← checkedNow) ≥ (← deadlineOf gate) then
              let _ ← expireConsentLocked
              throw .consentExpired
            else adopt gate principal (some anchor)

def establishSessionStamp (principal : String) (anchor : Option ConsentAnchor) : Call SessionStamp :=
  exclusive (establishLocked gateHash principal anchor)

def restoreSessionStamp (principal : String) (persisted : Option SessionStamp) : Call SessionStamp := do
  let gate ← readGate
  let _ ← floorOf gate (← readTombstone)
  match gate, persisted with
  | some gate, some persisted =>
    if persisted.incarnation = "" ∨ !isSafeInteger persisted.lifecycleEpoch then
      refuse .stampStale "The persisted replica stamp is malformed."
    else if persisted.incarnation ≠ gate.incarnation ∨ persisted.lifecycleEpoch ≠ gate.lifecycleEpoch then
      refuse .stampStale "The persisted session stamp is stale."
    else if gate.principalHash.isNone then
      refuse .principalMismatch "The origin has no active account."
    else
      let keys ← activeKeys gate
      if some (principalHashOf gateHash keys.hash.hmac principal) ≠ gate.principalHash then
        refuse .principalMismatch "The origin is bound to another account."
      else if ← logoutMarkerSet then refuse .logoutPending "A logout is still pending on this origin."
      else if !(← readIntents).isEmpty then
        refuse .purgePending "A purge is still pending on this origin."
      else
        assertTombstoneWritable
        if (← checkedNow) ≥ (← deadlineOf gate) then
          let _ ← expireConsent
          throw .consentExpired
        else adopt gate principal none
  | _, _ => refuse .notEstablished "No session stamp is established for this origin."

inductive DenyReason
  | signOut
  | accountSwitch
  | consentExpired
  deriving DecidableEq, Repr

structure DenyInput where
  reason : DenyReason
  principal : String
  next : Option String
  deriving DecidableEq, Repr

def denyLocked (input : DenyInput) : Call DenyOutcome := do
  let gate ← readGate
  let floor ← floorOf gate (← readTombstone)
  match gate with
  | none => pure .stale
  | some gate =>
    if gate.principalHash.isNone then pure .stale
    else
      let keys ← activeKeys gate
      if some (principalHashOf gateHash keys.hash.hmac input.principal) ≠ gate.principalHash then
        pure .stale
      else if input.reason = .accountSwitch ∧ input.next = none then
        throw (.invalid "account_switch requires the next principal")
      else advanceDeny gate floor

def deny (input : DenyInput) : Call DenyOutcome := do
  -- Disable this tab before the first await, but never clear a successor's view.
  ask (.leaveView input.principal)
  tryCatch (exclusive (denyLocked gateHash input)) fun e => pure (.unguarded (codeOf e))

end Hashing

def eraseIntent (intent : PurgeIntent) : Call Unit := ask (.eraseIntent intent)

structure EraseReport where
  erased : List String
  failed : List (String × String)
  remaining : ℕ
  deriving DecidableEq, Repr

def erasePass : List PurgeIntent → List String → List (String × String) →
    Call (List String × List (String × String))
  | [], erased, failed => pure (erased, failed)
  | intent :: intents, erased, failed => do
    if ← aborted then pure (erased, failed)
    else
      match ← tryCatch (do eraseIntent intent; pure none) fun e => pure (some (codeOf e)) with
      | none => erasePass intents (erased ++ [intent.id]) failed
      | some code => erasePass intents erased (failed ++ [(intent.id, code)])

def erasePendingLocked : Call EraseReport := do
  let (erased, failed) ← erasePass (← readIntents) [] []
  pure ⟨erased, failed, (← readIntents).length⟩

def erasePending : Call EraseReport := exclusive erasePendingLocked

inductive EraseOutcome
  | refused (code : String)
  | failed (code : String) (marker : Bool)
  | erased
  deriving DecidableEq, Repr

def clearMarker : Call Unit := do
  ask .removeMarker
  if ← storedMarker then throw .storage else pure ()

/-- Whether nothing live is at stake: no gate, a denied one, or one behind the tombstone. -/
def isDenied (gate : Option BrowserGate) (tombstone : Option Tombstone) : Bool :=
  match gate with
  | none => true
  | some gate => gate.principalHash.isNone || tombstone.any (fun t => gate.lifecycleEpoch < t.epoch)

def eraseFailed (code : String) (marker : Bool) (tombstone : Option Tombstone) : Call EraseOutcome := do
  if marker then pure (.failed code true)
  else if tombstone.isSome then pure (.failed code (← setLogoutMarker))
  else pure (.failed code false)

def eraseDatabase (marker : Bool) (tombstone : Option Tombstone) : Call EraseOutcome := do
  if ← aborted then pure (.failed "ABORTED" (← logoutMarkerSet))
  else
    match ← deleteKvDatabase with
    | .failed code => eraseFailed code marker tombstone
    | .deleted =>
      if marker then tryCatch (do clearMarker; pure .erased) fun _ => pure (.failed "STORAGE_ERROR" true)
      else pure .erased

def eraseLocalCopyLocked : Call EraseOutcome := do
  let marker ← logoutMarkerSet
  let tombstone ← readTombstone
  if marker && tombstone.isNone then pure (.refused "gate_unavailable")
  else if marker then eraseDatabase marker tombstone
  else
    let gate ← readGate
    if !isDenied gate tombstone then pure (.refused "principal_active")
    else
      -- Rows go first so a blocked delete still leaves no readable data behind.
      if gate.any (·.principalHash.isNone) then
        tryCatch (do let _ ← erasePendingLocked; pure ()) fun _ => pure ()
      eraseDatabase marker tombstone

def eraseLocalCopy : Call EraseOutcome :=
  tryCatch (exclusive eraseLocalCopyLocked) fun e => do
    match e with
    | .gated gate _ => pure (.refused gate.code)
    | _ => pure (.failed (codeOf e) (← logoutMarkerSet))

def unfinished (id code : String) : EraseReport := ⟨[], [(id, code)], 1⟩

-- A pending logout: the tombstone already authorises the delete that finishes it.
def recoverMarker : Call (Option EraseReport) := do
  if !(← logoutMarkerSet) then pure none
  else if (← readTombstone).isNone then
    refuse .gateUnavailable "The pending logout has no deny tombstone."
  else
    match ← deleteKvDatabase with
    | .failed code => pure (some (unfinished "database" code))
    | .deleted => tryCatch (do clearMarker; pure none) fun _ => pure (some (unfinished "marker" "STORAGE_ERROR"))

-- A crash between the tombstone and the denial leaves an older gate behind.
def recoverGate : Call (Option EraseReport) := do
  let gate ← readGate
  let tombstone ← readTombstone
  if gate.any (fun gate => tombstone.any (fun t => gate.lifecycleEpoch < t.epoch)) then
    match ← wipe with
    | .marker code => pure (some (unfinished "database" code))
    | .unguarded code => pure (some (unfinished "database" code))
    | _ => pure none
  else pure none

def recoverLegacy : Call Unit := do
  match ← readLegacyGateFloor with
  | none => pure ()
  | some legacy =>
    let tombstone ← readTombstone
    let _ ← preserveLegacyFloor (some legacy) tombstone
    assertTombstoneWritable
    tryCatch (ask .createDatabase) fun _ =>
      refuse .gateUnavailable "The legacy origin could not be migrated."

def recoverLocked : Call EraseReport := do
  match ← recoverMarker with
  | some report => pure report
  | none =>
    match ← recoverGate with
    | some report => pure report
    | none =>
      recoverLegacy
      match ← expireConsentLocked with
      | .marker code => pure (unfinished "expiry" code)
      | .unguarded code => pure (unfinished "expiry" code)
      | _ => erasePendingLocked

def recover : Call EraseReport :=
  tryCatch (exclusive recoverLocked) fun e => pure (unfinished "recover" (codeOf e))

inductive DeliveryDecision
  | allow
  | consentExpired
  | gated (gate : GateReason)
  deriving DecidableEq, Repr

/-- Synchronous; `readable` and `now` are what `localStorage` and the clock answer. What it
reads after the tombstone can only refuse, so its reads are one step. -/
def checkDelivery (s : Origin) (tab : ℕ) (stamp : Option SessionStamp) (readable : Bool)
    (now : Option ℕ) : DeliveryDecision :=
  match stamp, s.views tab with
  | none, _ => .gated .notEstablished
  | some _, none => .gated .stampStale
  | some stamp, some view =>
    if view.stamp ≠ stamp then .gated .stampStale
    else if !readable then .gated .gateUnavailable
    else if s.tombstone.any (fun t => !validTombstone t) then .gated .gateUnavailable
    else if s.marker then .gated .logoutPending
    else if s.tombstone.isNone && stamp.lifecycleEpoch != 0 then .gated .gateUnavailable
    else if s.tombstone.any (fun t => stamp.lifecycleEpoch < t.epoch) then .gated .stampStale
    else
      match now with
      | none => .gated .gateUnavailable
      | some now => if now ≥ view.consentDeadline then .consentExpired else .allow

end TinyCloud.Browser
