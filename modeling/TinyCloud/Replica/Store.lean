import Mathlib.Data.List.Sort
import Mathlib.Data.Nat.Basic

/-! The SQLite replica of one folder: its row, its entries and its content files,
and the write transactions over them. -/

namespace TinyCloud.Replica

inductive ReplicaErrorCode
  | busy
  | notFound
  | storageError
  | notCovered
  | grantMissing
  | grantNotYetValid
  | grantExpired
  | grantRevoked
  | grantUnauthorized
  | retentionGrantRefused
  | networkError
  | nodeError
  | protocolError
  | resetRequired
  | sourceChanged
  | scopeViolation
  | contentMismatch
  | integrityError
  | storageBudget
  deriving DecidableEq, Repr

def kvPrefixCovers (folder key : String) : Bool :=
  folder == "/" || key.startsWith folder

abbrev Metadata := List (String × String)

structure GrantRecord where
  cid : String
  notBefore : Option ℕ
  expiresAt : Option ℕ
  deriving DecidableEq, Repr

structure GrantInstall where
  installedAt : ℕ
  effectiveExpiresAt : ℕ
  consentDeadline : ℕ
  deriving DecidableEq, Repr

structure AuthorityWindow where
  notBefore : Option ℕ
  expiresAt : Option ℕ
  retainUntil : Option ℕ
  deriving DecidableEq, Repr

inductive LocalReadPolicy
  | whileGrantValid
  | retainAfterExpiry
  deriving DecidableEq, Repr

inductive Coverage
  | empty
  | bootstrapping
  | complete
  deriving DecidableEq, Repr

inductive AuthorityState
  | valid
  | expired
  | revoked
  | notYetValid
  deriving DecidableEq, Repr

structure LiveRow where
  key : String
  etag : String
  hash : String
  metadata : Metadata
  content : Bool
  deriving DecidableEq, Repr

inductive LocalEntry
  | deleted (key : String)
  | live (row : LiveRow)
  deriving DecidableEq, Repr

abbrev VerifiedChange := LocalEntry

def LocalEntry.key : LocalEntry → String
  | .deleted key => key
  | .live row => row.key

def LocalEntry.hasContent : LocalEntry → Bool
  | .deleted _ => false
  | .live row => row.content

structure EntryRow where
  entry : LocalEntry
  size : Option ℕ
  deriving DecidableEq, Repr

structure LeaseToken where
  token : ℕ
  holder : String
  deriving DecidableEq, Repr

structure ReplicaRow where
  space : String
  folder : String
  localReadPolicy : LocalReadPolicy
  retentionGrantCid : Option String
  grant : Option GrantRecord
  pendingGrant : Option GrantRecord
  nodeDid : Option String
  attested : Bool
  notBefore : Option ℕ
  expiresAt : Option ℕ
  retainUntil : Option ℕ
  revokedDetail : Option String
  retentionRevoked : Option String
  cursor : Option String
  coverage : Coverage
  generation : ℕ
  leaseToken : ℕ
  leaseHolder : Option String
  leaseExpiresAt : Option ℕ
  deriving DecidableEq, Repr

def ReplicaRow.authority (row : ReplicaRow) : Option AuthorityWindow :=
  if row.attested then some ⟨row.notBefore, row.expiresAt, row.retainUntil⟩ else none

structure Db where
  row : ReplicaRow
  grantInstall : String → Option GrantInstall
  entries : List EntryRow
  blobs : String → Option ByteArray

def initRow (space folder : String) (localReadPolicy : LocalReadPolicy)
    (retentionGrantCid : Option String) : ReplicaRow where
  space := space
  folder := folder
  localReadPolicy := localReadPolicy
  retentionGrantCid := retentionGrantCid
  grant := none
  pendingGrant := none
  nodeDid := none
  attested := false
  notBefore := none
  expiresAt := none
  retainUntil := none
  revokedDetail := none
  retentionRevoked := none
  cursor := none
  coverage := .empty
  generation := 0
  leaseToken := 0
  leaseHolder := none
  leaseExpiresAt := none

def initDb (space folder : String) (localReadPolicy : LocalReadPolicy)
    (retentionGrantCid : Option String) : Db :=
  ⟨initRow space folder localReadPolicy retentionGrantCid, fun _ => none, [], fun _ => none⟩

def lookup (entries : List EntryRow) (key : String) : Option EntryRow :=
  entries.find? (fun e => e.entry.key == key)

def upsert (entries : List EntryRow) (e : EntryRow) : List EntryRow :=
  if entries.any (fun o => o.entry.key == e.entry.key) then
    entries.map (fun o => if o.entry.key == e.entry.key then e else o)
  else entries ++ [e]

def checkLease (row : ReplicaRow) (t : LeaseToken) (now : ℕ) : Except ReplicaErrorCode Unit :=
  if row.revokedDetail.isSome then .error .grantRevoked
  else if row.leaseToken ≠ t.token ∨ row.leaseHolder ≠ some t.holder then .error .busy
  else if row.leaseExpiresAt.all (· ≤ now) then .error .busy
  else .ok ()

def acquireSyncLease (db : Db) (holder : String) (ttlMs now : ℕ) : Option (Db × LeaseToken) :=
  if db.row.leaseHolder.isSome ∧ db.row.leaseExpiresAt.any (now < ·) then none
  else
    let token := db.row.leaseToken + 1
    some ({ db with
      row := { db.row with
        leaseToken := token
        leaseHolder := some holder
        leaseExpiresAt := some (now + ttlMs) } }, ⟨token, holder⟩)

def renewLease (db : Db) (t : LeaseToken) (ttlMs now : ℕ) : Except ReplicaErrorCode Db := do
  checkLease db.row t now
  return { db with row := { db.row with leaseExpiresAt := some (now + ttlMs) } }

def releaseLease (db : Db) (t : LeaseToken) : Db :=
  if db.row.leaseToken = t.token ∧ db.row.leaseHolder = some t.holder then
    { db with row := { db.row with leaseHolder := none, leaseExpiresAt := none } }
  else db

def assertInstalledGrantTime (db : Db) (now : ℕ) : Except ReplicaErrorCode Unit :=
  match (db.row.pendingGrant <|> db.row.grant).bind (fun g => db.grantInstall g.cid) with
  | none => .ok ()
  | some installed =>
    if installed.effectiveExpiresAt ≤ now ∨ installed.consentDeadline ≤ now then .error .grantExpired
    else .ok ()

def installGrant (db : Db) (g : GrantRecord) : Db :=
  if db.row.grant.any (·.cid == g.cid) || db.row.pendingGrant.any (·.cid == g.cid) then db
  else { db with row := { db.row with pendingGrant := some g } }

def discardPendingGrant (db : Db) (cid : String) : Db :=
  if db.row.pendingGrant.any (·.cid == cid) then
    { db with row := { db.row with pendingGrant := none } }
  else db

def setRetentionGrant (db : Db) (cid : Option String) : Db :=
  if db.row.retentionGrantCid = cid then db
  else { db with
    row := { db.row with
      retentionGrantCid := cid
      localReadPolicy := if cid.isNone then .whileGrantValid else .retainAfterExpiry
      retainUntil := none } }

def markRetentionRevoked (db : Db) (cid detail : String) : Db :=
  if db.row.retentionGrantCid = some cid then
    { db with
      row := { db.row with
        retentionGrantCid := none
        localReadPolicy := .whileGrantValid
        retainUntil := none
        retentionRevoked := some detail } }
  else db

structure SyncSource where
  nodeDid : String
  space : String
  folder : String
  deriving DecidableEq, Repr

structure CommitWindow where
  notBefore : Option ℕ
  expiresAt : Option ℕ
  deriving DecidableEq, Repr

structure VerifiedPage where
  changes : List VerifiedChange
  blobs : List (String × ByteArray)
  cursor : Option String
  source : SyncSource
  authority : Option AuthorityWindow
  coverage : Coverage
  retentionGrantCid : Option String
  window : CommitWindow
  complete : Bool
  promoteGrant : Option GrantRecord

def reusedSize (entries : List EntryRow) (hash : String) : Option ℕ :=
  entries.findSome? fun e => match e.entry with
    | .live row => if row.hash == hash && row.content then e.size else none
    | .deleted _ => none

/-- The checks of `applyPage` before it writes anything: the fence, the installed
grant's own bounds, and a stored size for every content the page reuses. -/
def applyPageFence (db : Db) (t : LeaseToken) (p : VerifiedPage) (now : ℕ) :
    Except ReplicaErrorCode (String → Option ℕ) := do
  checkLease db.row t now
  assertInstalledGrantTime db now
  let resolved := p.changes.all fun c => match c with
    | .live row => !row.content || (p.blobs.lookup row.hash).isSome || (reusedSize db.entries row.hash).isSome
    | .deleted _ => true
  if resolved then return reusedSize db.entries else throw .storageError

def changeRow (p : VerifiedPage) (reused : String → Option ℕ) : VerifiedChange → EntryRow
  | .deleted key => ⟨.deleted key, none⟩
  | .live row => ⟨.live row,
      if row.content then ((p.blobs.lookup row.hash).map ByteArray.size <|> reused row.hash) else none⟩

def applyChanges (entries : List EntryRow) (p : VerifiedPage) (reused : String → Option ℕ) :
    List EntryRow :=
  p.changes.foldl (fun t c => upsert t (changeRow p reused c)) entries

def attestRow (row : ReplicaRow) (p : VerifiedPage) : ReplicaRow :=
  match p.authority with
  | none => row
  | some a =>
    if row.retentionGrantCid = p.retentionGrantCid then
      { row with
        nodeDid := some p.source.nodeDid
        attested := true
        notBefore := a.notBefore
        expiresAt := a.expiresAt
        retainUntil := a.retainUntil
        retentionRevoked := if a.retainUntil.isSome then none else row.retentionRevoked }
    else
      { row with
        nodeDid := some p.source.nodeDid
        attested := true
        notBefore := a.notBefore
        expiresAt := a.expiresAt }

def promoteRow (row : ReplicaRow) (promoteGrant : Option GrantRecord) : ReplicaRow :=
  match promoteGrant with
  | none => row
  | some g =>
    { row with
      grant := some g
      pendingGrant := if row.pendingGrant.any (·.cid == g.cid) then none else row.pendingGrant }

def commitRow (row : ReplicaRow) (p : VerifiedPage) : ReplicaRow :=
  promoteRow { attestRow row p with cursor := p.cursor, coverage := p.coverage } p.promoteGrant

def checkWindow (window : CommitWindow) (now : ℕ) : Except ReplicaErrorCode Unit :=
  if window.notBefore.any (now < ·) then .error .grantNotYetValid
  else if window.expiresAt.any (· ≤ now) then .error .grantExpired
  else .ok ()

def commitPage (db : Db) (t : LeaseToken) (p : VerifiedPage) (reused : String → Option ℕ) (now : ℕ) :
    Except ReplicaErrorCode Db := do
  checkLease db.row t now
  assertInstalledGrantTime db now
  checkWindow p.window now
  return { db with
    row := commitRow db.row p
    entries := applyChanges db.entries p reused }

def writeBlob (db : Db) (hash : String) (bytes : ByteArray) : Db :=
  { db with blobs := Function.update db.blobs hash (db.blobs hash <|> some bytes) }

def unlinkBlob (db : Db) (hash : String) : Db :=
  { db with blobs := Function.update db.blobs hash none }

def referenced (entries : List EntryRow) (hash : String) : Bool :=
  entries.any fun e => match e.entry with
    | .live row => row.content && row.hash == hash
    | .deleted _ => false

def reset (db : Db) (t : LeaseToken) (keepSource : Bool) (now : ℕ) : Except ReplicaErrorCode Db := do
  checkLease db.row t now
  return { db with
    row := { db.row with
      cursor := none
      nodeDid := if keepSource then db.row.nodeDid else none
      coverage := .empty
      generation := db.row.generation + 1 }
    entries := [] }

def markRevoked (db : Db) (detail : String) : Db :=
  { db with
    row := { db.row with
      revokedDetail := some detail
      cursor := none
      coverage := .empty
      leaseToken := db.row.leaseToken + 1
      leaseHolder := none
      leaseExpiresAt := none
      generation := db.row.generation + 1 }
    entries := [] }

def get (db : Db) (key : String) : Option LocalEntry :=
  (lookup db.entries key).map EntryRow.entry

structure ListOpts where
  folder : Option String
  after : Option String
  limit : Option ℕ

def inRange (o : ListOpts) (key : String) : Bool :=
  o.folder.all (fun f => key.startsWith f) && o.after.all (fun a => decide (a < key))

def LocalEntry.liveRow : LocalEntry → Option LiveRow
  | .deleted _ => none
  | .live row => some row

def liveRows (entries : List EntryRow) : List LiveRow :=
  (entries.filterMap (fun e => e.entry.liveRow)).mergeSort (fun a b => decide (a.key ≤ b.key))

def list (db : Db) (o : ListOpts) : List LiveRow :=
  let rows := (liveRows db.entries).filter (fun row => inRange o row.key)
  match o.limit with
  | none => rows
  | some n => rows.take n

def pendingRepairs (db : Db) : List LiveRow :=
  (liveRows db.entries).filter (fun row => !row.content)

end TinyCloud.Replica
