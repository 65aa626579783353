import TinyCloud.Replica.Store
import TinyCloud.Runs.Machine
import Mathlib.Logic.Function.Basic

/-! The sync engine over one shared replica: any number of syncs and resets, in
any processes, each advancing one await at a time. -/

namespace TinyCloud.Replica

inductive Change
  | deleted (key : String)
  | live (key etag : String) (metadata : Metadata)
  deriving DecidableEq, Repr

def Change.key : Change → String
  | .deleted key => key
  | .live key _ _ => key

structure SyncPage where
  changes : List Change
  more : Bool
  cursor : String
  source : SyncSource
  authority : AuthorityWindow
  deriving DecidableEq, Repr

inductive FetchedContent
  | found (bytes : ByteArray) (etag : String)
  | missing

def quote : Char := Char.ofNat 34

def isHexDigit (c : Char) : Bool :=
  c.isDigit || ('a' ≤ c && c ≤ 'f')

-- The ETag with or without its quotes, down to its 64 hex digits.
def hashFromEtag (etag : String) : Option String :=
  let body := if etag.toList.head? = some quote then etag.toList.tail else etag.toList
  let hash := (body.drop 7).take 64
  let rest := body.drop 71
  if body.take 7 = "blake3-".toList ∧ hash.length = 64 ∧ hash.all isHexDigit ∧
      (rest = [] ∨ rest = [quote]) then
    some (String.ofList hash)
  else none

def unquoted (etag : String) : List Char :=
  let body := if etag.toList.head? = some quote then etag.toList.tail else etag.toList
  if body.getLast? = some quote then body.dropLast else body

def sameEtag (a b : String) : Bool :=
  unquoted a == unquoted b

structure EffectiveAuthority where
  state : AuthorityState
  notBefore : Option ℕ
  expiresAt : Option ℕ
  retainUntil : Option ℕ
  retentionRevoked : Bool

def minIso (a bSeconds : Option ℕ) : Option ℕ :=
  match bSeconds, a with
  | none, a => a
  | some b, none => some (b * 1000)
  | some b, some a => some (if a ≤ b * 1000 then a else b * 1000)

def maxIso (a bSeconds : Option ℕ) : Option ℕ :=
  match bSeconds, a with
  | none, a => a
  | some b, none => some (b * 1000)
  | some b, some a => some (if b * 1000 ≤ a then a else b * 1000)

def effectiveAuthority (window : Option AuthorityWindow) (grant : Option GrantRecord)
    (revoked retentionRevoked : Option String) (policy : LocalReadPolicy) (now : ℕ) :
    EffectiveAuthority :=
  let notBefore := maxIso (window.bind AuthorityWindow.notBefore) (grant.bind GrantRecord.notBefore)
  let expiresAt := minIso (window.bind AuthorityWindow.expiresAt) (grant.bind GrantRecord.expiresAt)
  let retainUntil :=
    if policy = .retainAfterExpiry then window.bind AuthorityWindow.retainUntil else none
  let state :=
    if revoked.isSome then .revoked
    else if notBefore.any (now < ·) then .notYetValid
    else if expiresAt.any (· ≤ now) then .expired
    else .valid
  ⟨state, notBefore, expiresAt, retainUntil, retentionRevoked.isSome⟩

def assertReadable (a : EffectiveAuthority) (now : ℕ) : Except ReplicaErrorCode AuthorityState :=
  match a.state with
  | .valid => .ok .valid
  | .revoked => .error .grantRevoked
  | .notYetValid => .error .grantNotYetValid
  | .expired =>
    if a.retentionRevoked then .error .grantRevoked
    else if a.retainUntil.any (now < ·) then .ok .expired
    else .error .grantExpired

def syncWindow (window : Option AuthorityWindow) (grant : GrantRecord) (now : ℕ) :
    Except ReplicaErrorCode CommitWindow := do
  let a := effectiveAuthority window (some grant) none none .whileGrantValid now
  let _ ← assertReadable { a with retainUntil := none } now
  return ⟨a.notBefore, a.expiresAt⟩

def checkPage (page : SyncPage) (space folder : String) (pinned : Option String) :
    Except ReplicaErrorCode Unit :=
  if page.source.space ≠ space ∨ page.source.folder ≠ folder then .error .protocolError
  else if pinned.any (· ≠ page.source.nodeDid) then .error .sourceChanged
  else if page.changes.all (fun c => kvPrefixCovers folder c.key) then .ok ()
  else .error .scopeViolation

structure Candidate where
  key : String
  etag : String
  hash : String

def acceptContent (contentHash : ByteArray → String) (expected : Candidate) :
    Option FetchedContent → Except ReplicaErrorCode (Option ByteArray)
  | none => .ok none
  | some .missing => .ok none
  | some (.found bytes etag) =>
    if contentHash bytes = expected.hash then .ok (some bytes)
    else if sameEtag etag expected.etag then .error .contentMismatch
    else .ok none

def setBlob (blobs : List (String × ByteArray)) (hash : String) (bytes : ByteArray) :
    List (String × ByteArray) :=
  blobs.filter (fun b => b.1 != hash) ++ [(hash, bytes)]

/-- What the verification of one page read: each key's entry, the hashes held,
and the node's content of each key it fetched. -/
structure PageReads where
  previous : String → Option LocalEntry
  held : String → Bool
  contents : String → Option FetchedContent

def unchanged (previous : Option LocalEntry) (etag : String) : Bool :=
  match previous with
  | some (.live row) => row.etag == etag && row.content
  | _ => false

def verifyChange (contentHash : ByteArray → String) (reads : PageReads)
    (blobs : List (String × ByteArray)) :
    Change → Except ReplicaErrorCode (VerifiedChange × List (String × ByteArray))
  | .deleted key => .ok (.deleted key, blobs)
  | .live key etag metadata =>
    match hashFromEtag etag with
    | none => .error .protocolError
    | some hash =>
      if unchanged (reads.previous key) etag || reads.held hash then
        .ok (.live ⟨key, etag, hash, metadata, true⟩, blobs)
      else
        match acceptContent contentHash ⟨key, etag, hash⟩ (reads.contents key) with
        | .error e => .error e
        | .ok none => .ok (.live ⟨key, etag, hash, metadata, false⟩, blobs)
        | .ok (some bytes) => .ok (.live ⟨key, etag, hash, metadata, true⟩, setBlob blobs hash bytes)

def verifyChanges (contentHash : ByteArray → String) (reads : PageReads) :
    List Change → List (String × ByteArray) →
      Except ReplicaErrorCode (List VerifiedChange × List (String × ByteArray))
  | [], blobs => .ok ([], blobs)
  | c :: cs, blobs => do
    let (v, blobs) ← verifyChange contentHash reads blobs c
    let (vs, blobs) ← verifyChanges contentHash reads cs blobs
    return (v :: vs, blobs)

-- One repair batch: the entries whose fetched bytes hash to their ETag.
def repairChanges (contentHash : ByteArray → String) (contents : String → Option FetchedContent) :
    List LiveRow → List (String × ByteArray) →
      Except ReplicaErrorCode (List VerifiedChange × List (String × ByteArray))
  | [], blobs => .ok ([], blobs)
  | row :: rows, blobs => do
    match ← acceptContent contentHash ⟨row.key, row.etag, row.hash⟩ (contents row.key) with
    | none => repairChanges contentHash contents rows blobs
    | some bytes =>
      let (vs, blobs) ← repairChanges contentHash contents rows (setBlob blobs row.hash bytes)
      return (.live { row with content := true } :: vs, blobs)

def repairBatch : ℕ := 100

structure SyncError where
  code : ReplicaErrorCode
  byNode : Bool
  retentionRevoked : Option String
  deriving DecidableEq, Repr

def SyncError.ofStore (code : ReplicaErrorCode) : SyncError :=
  ⟨code, false, none⟩

def pendingRefusal : ReplicaErrorCode → Bool
  | .grantUnauthorized => true
  | .grantExpired => true
  | .grantNotYetValid => true
  | _ => false

structure Attempt where
  lease : LeaseToken
  grant : GrantRecord
  promote : Option GrantRecord
  pendingCid : Option String
  fallback : Option GrantRecord

def startAttempt (lease : LeaseToken) (pendingCid : Option String) (grant : GrantRecord)
    (fallback : Option GrantRecord) : Attempt where
  lease := lease
  grant := grant
  promote := if pendingCid = some grant.cid then some grant else none
  pendingCid := pendingCid
  fallback := fallback

/-- What one attempt keeps in memory between its pages. -/
structure Memory where
  cursor : Option String
  pinned : Option String
  coverage : Coverage
  retentionGrantCid : Option String
  wasReset : Bool

inductive Origin
  | feed (reply : ℕ) (requested : Option String) (page : SyncPage)
  | repair (rest : List LiveRow)

inductive Session
  | opened (pending active : Option GrantRecord)
  | attempting (a : Attempt)
  | requesting (a : Attempt) (m : Memory)
  | verifying (a : Attempt) (m : Memory) (reply : ℕ) (page : SyncPage) (window : CommitWindow)
  | applying (a : Attempt) (m : Memory) (o : Origin) (p : VerifiedPage)
  | writing (a : Attempt) (m : Memory) (o : Origin) (p : VerifiedPage) (reused : String → Option ℕ)
      (unwritten : List (String × ByteArray))
  | committed (a : Attempt) (m : Memory) (o : Origin) (p : VerifiedPage)
  | drained (a : Attempt) (m : Memory)
  | repairing (a : Attempt) (m : Memory) (rest : List LiveRow)
  | failing (a : Attempt) (e : SyncError)
  | marking (lease : LeaseToken) (refused : GrantRecord)
  | resetting (lease : LeaseToken)
  | releasing (lease : LeaseToken)

def Session.attempt : Session → Option Attempt
  | .attempting a | .requesting a _ | .verifying a _ _ _ _ | .applying a _ _ _
  | .writing a _ _ _ _ _ | .committed a _ _ _ | .drained a _ | .repairing a _ _ => some a
  | _ => none

def Session.lease : Session → Option LeaseToken
  | .attempting a | .requesting a _ | .verifying a _ _ _ _ | .applying a _ _ _
  | .writing a _ _ _ _ _ | .committed a _ _ _ | .drained a _ | .repairing a _ _ | .failing a _ =>
    some a.lease
  | .marking lease _ | .resetting lease | .releasing lease => some lease
  | .opened _ _ => none

-- A committed page with its own reads, or the clearing of the replica.
inductive Event
  | feed (reply : ℕ) (requested : Option String) (page : SyncPage) (p : VerifiedPage)
      (reused : String → Option ℕ)
  | repair (p : VerifiedPage) (reused : String → Option ℕ)
  | cleared

/-- `collecting` is the session whose garbage collection holds the write lock;
`replies` and `history` record the node's answers and the commits. -/
structure State where
  db : Db
  collecting : Option ℕ
  sessions : ℕ → Option Session
  replies : ℕ
  history : List Event

namespace State

def put (s : State) (x : ℕ) (c : Session) : State :=
  { s with sessions := Function.update s.sessions x (some c) }

def drop (s : State) (x : ℕ) : State :=
  { s with sessions := Function.update s.sessions x none }

end State

inductive SessionAction
  | start
  | acquire (holder : String) (ttlMs now : ℕ)
  | readState (now : ℕ)
  | reply (page : SyncPage) (now : ℕ)
  | resetRequired (now : ℕ)
  | verify (reads : PageReads)
  | fence (now : ℕ)
  | writeBlob
  | commit (now : ℕ)
  | advance
  | renew (ttlMs now : ℕ)
  | startRepair (due : String → Bool)
  | repairBatch (contents : String → Option FetchedContent) (now : ℕ)
  | finish
  | fail (e : SyncError)
  | learn (detail : String)
  | mark (detail : String)
  | beginReset (holder : String) (ttlMs now : ℕ)
  | resetStore (now : ℕ)
  | giveUp
  | release

inductive Action
  | session (x : ℕ) (a : SessionAction)
  | crash (x : ℕ)
  | beginCollect (x now : ℕ)
  | unlink (hash : String)
  | endCollect
  | purge (hash : String)
  | installGrant (g : GrantRecord)
  | setRetentionGrant (cid : Option String)

-- Write transactions wait for the lock a garbage collection holds.
def SessionAction.writes : SessionAction → Bool
  | .acquire _ _ _ | .resetRequired _ | .commit _ | .renew _ _ | .learn _ | .mark _
  | .beginReset _ _ _ | .resetStore _ | .release => true
  | _ => false

def firstAttempt (lease : LeaseToken) : Option GrantRecord → Option GrantRecord → Option Attempt
  | some pending, active => some (startAttempt lease (some pending.cid) pending active)
  | none, some active => some (startAttempt lease none active none)
  | none, none => none

def canFallBack (a : Attempt) : Option GrantRecord :=
  if a.promote.isSome then a.fallback else none

def attemptState (row : ReplicaRow) (a : Attempt) (now : ℕ) : Except ReplicaErrorCode Memory := do
  let _ ← syncWindow (if a.promote.isNone then row.authority else none) a.grant now
  return ⟨row.cursor, row.nodeDid, row.coverage, row.retentionGrantCid, false⟩

def acceptPage (row : ReplicaRow) (a : Attempt) (m : Memory) (page : SyncPage) (now : ℕ) :
    Except ReplicaErrorCode CommitWindow := do
  checkPage page row.space row.folder m.pinned
  syncWindow (some page.authority) a.grant now

def nextCoverage (m : Memory) (page : SyncPage) : Coverage :=
  if page.more then (if m.coverage = .complete then .complete else .bootstrapping) else .complete

def feedPage (a : Attempt) (m : Memory) (page : SyncPage) (window : CommitWindow)
    (verified : List VerifiedChange × List (String × ByteArray)) : VerifiedPage where
  changes := verified.1
  blobs := verified.2
  cursor := some page.cursor
  source := page.source
  authority := some page.authority
  coverage := nextCoverage m page
  retentionGrantCid := m.retentionGrantCid
  window := window
  complete := !page.more
  promoteGrant := a.promote

def repairPage (row : ReplicaRow) (m : Memory) (window : CommitWindow)
    (verified : List VerifiedChange × List (String × ByteArray)) : VerifiedPage where
  changes := verified.1
  blobs := verified.2
  cursor := m.cursor
  source := ⟨m.pinned.getD "", row.space, row.folder⟩
  authority := none
  coverage := m.coverage
  retentionGrantCid := m.retentionGrantCid
  window := window
  complete := false
  promoteGrant := none

def afterPage (m : Memory) (page : SyncPage) (p : VerifiedPage) : Memory :=
  ⟨some page.cursor, some page.source.nodeDid, p.coverage, m.retentionGrantCid, m.wasReset⟩

def Origin.event (o : Origin) (p : VerifiedPage) (reused : String → Option ℕ) : Event :=
  match o with
  | .feed reply requested page => .feed reply requested page p reused
  | .repair _ => .repair p reused

/-- The errors an await of the session can throw: only the node, or a store
already revoked, answers that the grant is revoked. -/
def mayFail (row : ReplicaRow) (c : Session) (e : SyncError) : Bool :=
  (e.code != .grantRevoked || e.byNode || row.revokedDetail.isSome) &&
    match c with
    | .requesting _ _ | .verifying _ _ _ _ _ | .repairing _ _ _ => true
    | .committed _ _ _ _ => !e.byNode && !pendingRefusal e.code
    | _ => !e.byNode

/-- What the catch of `sync` does with an error: fall back to the active grant,
or learn from it. -/
def catchError (s : State) (x : ℕ) (a : Attempt) (e : SyncError) (detail : String) : State :=
  match canFallBack a with
  | some grant =>
    if e.code = .grantRevoked then
      { s with db := discardPendingGrant s.db a.grant.cid }.put x
        (.attempting (startAttempt a.lease a.pendingCid grant none))
    else if pendingRefusal e.code then
      s.put x (.attempting (startAttempt a.lease a.pendingCid grant none))
    else learnError
  | none => learnError
where
  learnError : State :=
    if e.code = .grantRevoked then
      if s.db.row.revokedDetail.isSome then s.put x (.releasing a.lease)
      else s.put x (.marking a.lease a.grant)
    else match e.retentionRevoked with
      | some cid => { s with db := markRetentionRevoked s.db cid detail }.put x (.releasing a.lease)
      | none => s.put x (.releasing a.lease)

def throwing {α : Type} (s : State) (x : ℕ) (a : Attempt) (r : Except ReplicaErrorCode α)
    (next : α → State) : State :=
  match r with
  | .ok v => next v
  | .error code => s.put x (.failing a (.ofStore code))

def sessionStep (contentHash : ByteArray → String) (s : State) (x : ℕ) :
    Option Session → SessionAction → Option State
  | none, .start =>
    if s.db.row.revokedDetail.isSome || (s.db.row.pendingGrant.isNone && s.db.row.grant.isNone) then none
    else some (s.put x (.opened s.db.row.pendingGrant s.db.row.grant))
  | some (.opened pending active), .acquire holder ttlMs now =>
    match acquireSyncLease s.db holder ttlMs now with
    | none => some (s.drop x)
    | some (db, lease) =>
      (firstAttempt lease pending active).map fun a => { s with db := db }.put x (.attempting a)
  | some (.attempting a), .readState now =>
    some (throwing s x a (attemptState s.db.row a now) fun m => s.put x (.requesting a m))
  | some (.requesting a m), .reply page now =>
    some (throwing s x a (acceptPage s.db.row a m page now) fun window =>
      { s with replies := s.replies + 1 }.put x (.verifying a m s.replies page window))
  | some (.requesting a m), .resetRequired now =>
    if m.wasReset then none
    else some (throwing s x a (reset s.db a.lease true now) fun db =>
      { s with db := db, history := s.history ++ [Event.cleared] }.put x
        (.requesting a { m with cursor := none, coverage := .empty, wasReset := true }))
  | some (.verifying a m reply page window), .verify reads =>
    some (throwing s x a (verifyChanges contentHash reads page.changes []) fun verified =>
      s.put x (.applying a m (.feed reply m.cursor page) (feedPage a m page window verified)))
  | some (.applying a m o p), .fence now =>
    some (throwing s x a (applyPageFence s.db a.lease p now) fun reused =>
      s.put x (.writing a m o p reused p.blobs))
  | some (.writing a m o p reused ((hash, bytes) :: unwritten)), .writeBlob =>
    some ({ s with db := writeBlob s.db hash bytes }.put x (.writing a m o p reused unwritten))
  | some (.writing a m o p reused []), .commit now =>
    some (throwing s x a (commitPage s.db a.lease p reused now) fun db =>
      { s with db := db, history := s.history ++ [o.event p reused] }.put x (.committed a m o p))
  | some (.committed a m (.feed _ _ page) p), .advance =>
    let a := { a with promote := none }
    some (s.put x (if page.more then .requesting a (afterPage m page p)
      else .drained a (afterPage m page p)))
  | some (.committed a m (.repair rest) _), .advance => some (s.put x (.repairing a m rest))
  | some (.drained a m), .startRepair due =>
    some (s.put x (.repairing a m ((pendingRepairs s.db).filter fun row => due row.key)))
  | some (.repairing a m rest), .repairBatch contents now =>
    if rest.isEmpty then none
    else some (throwing s x a (repairChanges contentHash contents (rest.take repairBatch) []) fun verified =>
      if verified.1.isEmpty then s.put x (.repairing a m (rest.drop repairBatch))
      else throwing s x a (syncWindow s.db.row.authority a.grant now) fun window =>
        s.put x (.applying a m (.repair (rest.drop repairBatch))
          (repairPage s.db.row m window verified)))
  | some (.repairing a _ []), .finish => some (s.put x (.releasing a.lease))
  | some (.failing a e), .learn detail => some (catchError s x a e detail)
  | some (.marking lease _), .mark detail =>
    some ({ s with db := markRevoked s.db detail, history := s.history ++ [Event.cleared] }.put x
      (.releasing lease))
  | some (.marking lease _), .giveUp => some (s.put x (.releasing lease))
  | none, .beginReset holder ttlMs now =>
    (acquireSyncLease s.db holder ttlMs now).map fun (db, lease) =>
      { s with db := db }.put x (.resetting lease)
  | some (.resetting lease), .resetStore now =>
    match reset s.db lease false now with
    | .ok db => some ({ s with db := db, history := s.history ++ [Event.cleared] }.put x (.releasing lease))
    | .error _ => some (s.put x (.releasing lease))
  | some (.resetting lease), .giveUp => some (s.put x (.releasing lease))
  | some (.releasing lease), .release => some ({ s with db := releaseLease s.db lease }.drop x)
  | some c, .renew ttlMs now =>
    c.attempt.map fun a => throwing s x a (renewLease s.db a.lease ttlMs now) fun db => { s with db := db }
  | some c, .fail e =>
    if mayFail s.db.row c e then c.attempt.map fun a => s.put x (.failing a e) else none
  | _, _ => none

def step (contentHash : ByteArray → String) (s : State) : Action → Option State
  | .session x a =>
    if s.collecting = some x || (a.writes && s.collecting.isSome) then none
    else sessionStep contentHash s x (s.sessions x) a
  | .crash x =>
    some { s.drop x with collecting := if s.collecting = some x then none else s.collecting }
  | .beginCollect x now =>
    if s.collecting.isSome then none
    else match s.sessions x with
      | some (.writing _ _ _ _ _ _) | none => none
      | some c =>
        c.lease.bind fun lease => match checkLease s.db.row lease now with
          | .ok _ => some { s with collecting := some x }
          | .error _ => none
  | .unlink hash =>
    if s.collecting.isSome && !referenced s.db.entries hash then
      some { s with db := unlinkBlob s.db hash }
    else none
  | .endCollect => if s.collecting.isSome then some { s with collecting := none } else none
  | .purge hash =>
    if s.db.row.revokedDetail.isSome then some { s with db := unlinkBlob s.db hash } else none
  | .installGrant g =>
    if s.collecting.isSome then none else some { s with db := installGrant s.db g }
  | .setRetentionGrant cid =>
    if s.collecting.isSome then none else some { s with db := setRetentionGrant s.db cid }

def initState (space folder : String) (localReadPolicy : LocalReadPolicy)
    (retentionGrantCid : Option String) : State where
  db := initDb space folder localReadPolicy retentionGrantCid
  collecting := none
  sessions _ := none
  replies := 0
  history := []

def machine (contentHash : ByteArray → String) : Runs.Machine State Action where
  initial s := ∃ space folder localReadPolicy retentionGrantCid,
    s = initState space folder localReadPolicy retentionGrantCid
  step := step contentHash

end TinyCloud.Replica
