import TinyCloud.Replica.Engine

/-! Local reads beside the engine: any number of get and list calls, in any
processes, each advancing one read of the store at a time and holding no lock. -/

namespace TinyCloud.Replica

structure ReadMeta where
  nodeDid : Option String
  space : String
  folder : String
  coverage : Coverage
  authority : AuthorityState
  deriving DecidableEq, Repr

def readMeta (row : ReplicaRow) (now : ℕ) : Except ReplicaErrorCode ReadMeta := do
  let authority ← assertReadable
    (effectiveAuthority row.authority row.grant row.revokedDetail row.retentionRevoked
      row.localReadPolicy now) now
  return ⟨row.nodeDid, row.space, row.folder, row.coverage, authority⟩

inductive GetStatus
  | notCovered
  | absent
  | coverageIncomplete
  | deleted
  | contentMissing (etag : String) (metadata : Metadata)
  | present (value : ByteArray) (etag : String) (metadata : Metadata)

structure ListEntry where
  key : String
  etag : String
  metadata : Metadata
  content : Bool
  deriving DecidableEq, Repr

inductive Result
  | got (key : String) (status : GetStatus) (readMeta : ReadMeta)
  | listed (o : ListOpts) (entries : List ListEntry) (readMeta : ReadMeta)
  | threw (code : ReplicaErrorCode)

inductive Verdict
  | status (status : GetStatus)
  | corrupt

inductive Phase
  | getRow (key : String) (verify : Bool) (coverage : Coverage) (retried : Bool)
  | getContent (key : String) (verify : Bool) (coverage : Coverage) (retried : Bool) (row : LiveRow)
  | getConfirm (key : String) (v : Verdict)
  | listRows (o : ListOpts)
  | listConfirm (o : ListOpts) (entries : List ListEntry)

/-- `seen` are the states of the replica from the call's first read to now. -/
structure Reader where
  seen : List Db
  phase : Phase

structure ReadState where
  core : State
  readers : ℕ → Option Reader
  tampered : Bool
  results : List (Result × List Db)

inductive ReadAction
  | replica (a : Action)
  | tamper (hash : String) (content : Option ByteArray)
  | get (r : ℕ) (key : String) (verify : Bool) (now : ℕ)
  | list (r : ℕ) (o : ListOpts) (now : ℕ)
  | readRow (r : ℕ)
  | readContent (r : ℕ)
  | readRows (r : ℕ)
  | confirm (r now : ℕ)
  | abandon (r : ℕ)

def isHash (hash : String) : Bool :=
  hash.toList.length == 64 && hash.toList.all isHexDigit

def readContent (db : Db) (hash : String) : Option ByteArray :=
  if isHash hash then db.blobs hash else none

def listEntries (db : Db) (o : ListOpts) : List ListEntry :=
  (list db o).map fun row => ⟨row.key, row.etag, row.metadata, row.content⟩

def listCovered (scope folder : String) : Bool :=
  folder == "" || scope.startsWith folder || kvPrefixCovers scope folder

def afterRow (key : String) (verify : Bool) (coverage : Coverage) (retried : Bool) :
    Option LocalEntry → Phase
  | none => .getConfirm key (.status (if coverage = .complete then .absent else .coverageIncomplete))
  | some (.deleted _) => .getConfirm key (.status .deleted)
  | some (.live row) =>
    if row.content then .getContent key verify coverage retried row
    else .getConfirm key (.status (.contentMissing row.etag row.metadata))

def intact (contentHash : ByteArray → String) (verify : Bool) (row : LiveRow) (value : ByteArray) : Bool :=
  !verify || contentHash value == row.hash

def afterContent (contentHash : ByteArray → String) (key : String) (verify : Bool) (coverage : Coverage)
    (retried : Bool) (row : LiveRow) (content : Option ByteArray) : Phase :=
  match content.filter (intact contentHash verify row) with
  | some value => .getConfirm key (.status (.present value row.etag row.metadata))
  | none => if retried then .getConfirm key .corrupt else .getRow key verify coverage true

def confirmGet (key : String) : Verdict → Except ReplicaErrorCode ReadMeta → Result
  | _, .error code => .threw code
  | .status st, .ok m => .got key st m
  | .corrupt, .ok _ => .threw .integrityError

def confirmList (o : ListOpts) (entries : List ListEntry) : Except ReplicaErrorCode ReadMeta → Result
  | .error code => .threw code
  | .ok m => .listed o entries m

namespace ReadState

def put (s : ReadState) (r : ℕ) (rd : Reader) : ReadState :=
  { s with readers := Function.update s.readers r (some rd) }

def drop (s : ReadState) (r : ℕ) : ReadState :=
  { s with readers := Function.update s.readers r none }

def finish (s : ReadState) (r : ℕ) (seen : List Db) (result : Result) : ReadState :=
  { s.drop r with results := s.results ++ [(result, seen)] }

def observe (s : ReadState) (core : State) : ReadState :=
  { s with
    core := core
    readers := fun r => (s.readers r).map fun rd => { rd with seen := rd.seen ++ [core.db] } }

end ReadState

def tamperBlob (s : State) (hash : String) (content : Option ByteArray) : State :=
  { s with db := { s.db with blobs := Function.update s.db.blobs hash content } }

def startGet (s : ReadState) (r : ℕ) (key : String) (verify : Bool) (now : ℕ) : ReadState :=
  let row := s.core.db.row
  match readMeta row now with
  | .error code => s.finish r [s.core.db] (.threw code)
  | .ok _ =>
    s.put r ⟨[s.core.db],
      if kvPrefixCovers row.folder key then .getRow key verify row.coverage false
      else .getConfirm key (.status .notCovered)⟩

def startList (s : ReadState) (r : ℕ) (o : ListOpts) (now : ℕ) : ReadState :=
  let row := s.core.db.row
  match readMeta row now with
  | .error code => s.finish r [s.core.db] (.threw code)
  | .ok _ =>
    if listCovered row.folder (o.folder.getD "") then s.put r ⟨[s.core.db], .listRows o⟩
    else s.finish r [s.core.db] (.threw .notCovered)

def readStep (contentHash : ByteArray → String) (s : ReadState) : ReadAction → Option ReadState
  | .replica a => (step contentHash s.core a).map s.observe
  | .tamper hash content => some { s.observe (tamperBlob s.core hash content) with tampered := true }
  | .get r key verify now =>
    if (s.readers r).isSome then none else some (startGet s r key verify now)
  | .list r o now => if (s.readers r).isSome then none else some (startList s r o now)
  | .readRow r =>
    match s.readers r with
    | some ⟨seen, .getRow key verify coverage retried⟩ =>
      some (s.put r ⟨seen, afterRow key verify coverage retried (get s.core.db key)⟩)
    | _ => none
  | .readContent r =>
    match s.readers r with
    | some ⟨seen, .getContent key verify coverage retried row⟩ =>
      some (s.put r ⟨seen,
        afterContent contentHash key verify coverage retried row (readContent s.core.db row.hash)⟩)
    | _ => none
  | .readRows r =>
    match s.readers r with
    | some ⟨seen, .listRows o⟩ => some (s.put r ⟨seen, .listConfirm o (listEntries s.core.db o)⟩)
    | _ => none
  | .confirm r now =>
    match s.readers r with
    | some ⟨seen, .getConfirm key v⟩ =>
      some (s.finish r seen (confirmGet key v (readMeta s.core.db.row now)))
    | some ⟨seen, .listConfirm o entries⟩ =>
      some (s.finish r seen (confirmList o entries (readMeta s.core.db.row now)))
    | _ => none
  | .abandon r => some (s.drop r)

def isLive (db : Db) (key : String) : Bool :=
  match get db key with
  | some (.live _) => true
  | _ => false

def AbsentIn (db : Db) (key : String) : Prop :=
  db.row.coverage = .complete ∧ isLive db key = false

def ListedIn (db : Db) (o : ListOpts) (entries : List ListEntry) : Prop :=
  db.row.coverage = .complete ∧ entries = listEntries db o

def HeldIn (db : Db) (key : String) (content : Bool) (etag : String) (metadata : Metadata) : Prop :=
  ∃ hash, get db key = some (.live ⟨key, etag, hash, metadata, content⟩)

/-- One committed state during the call explains what it returned; only a content
file changed from outside explains an integrity error. -/
def ExplainedBy (tampered : Bool) (seen : List Db) : Result → Prop
  | .got key .absent _ => ∃ db ∈ seen, AbsentIn db key
  | .got key .deleted _ => ∃ db ∈ seen, get db key = some (.deleted key)
  | .got key (.contentMissing etag metadata) _ => ∃ db ∈ seen, HeldIn db key false etag metadata
  | .got key (.present _ etag metadata) _ => ∃ db ∈ seen, HeldIn db key true etag metadata
  | .got _ _ _ => True
  | .listed o entries m => m.coverage = .complete → ∃ db ∈ seen, ListedIn db o entries
  | .threw code => code = .integrityError → tampered = true

end TinyCloud.Replica
