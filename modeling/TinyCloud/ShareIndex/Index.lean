import Mathlib.Data.List.Sort
import TinyCloud.Runs.Interleaved
import TinyCloud.Runs.Machine
import TinyCloud.ShareIndex.Document

/-!
# The sender's share index

`SenderShareIndex` as programs of single requests: `flush`, `reconcile`, `syncStatus` and `compact` of any
number of writers over one main document and its archives, which are only written by compare-and-swap.
-/

namespace TinyCloud.ShareIndex

open TinyCloud.Collections TinyCloud.Runs

section Keys

inductive ClassifiedRecordKey
  | index (name : String)
  | web (shareId : String)
  | agent (agentId shareId : String)
  | rejected (owner : Option (String × String))
  deriving DecidableEq

def isIdChar (c : Char) : Bool := c.isAlphanum || c == '_' || c == '-'

def isShareId (s : String) : Bool :=
  0 < s.length && s.length ≤ 512 && s.toList.all isIdChar && s != "_index" && s != "agents"

def isAgentId (s : String) : Bool := s.length == 22 && s.toList.all isIdChar

def isIndexDocumentName (s : String) : Bool :=
  s == "main" || s.toList.take 8 == "archive-".toList && s.length == 12 && (s.toList.drop 8).all Char.isDigit

def segments (key : String) : List String := (key.toList.splitOn '/').map String.ofList

def hasUnsafeShape (key : String) : Bool :=
  (key.toList.any fun c => c == '%' || c == '\\') ||
    (segments key).any fun segment => segment == "" || segment == "." || segment == ".."

/-- `agents/<agentId>/<suffix>` -/
def ownerOfKey (key : String) : Option (String × String) :=
  let rest := key.toList.drop 7
  if key.toList.take 7 == "agents/".toList && (rest.take 22).length == 22 && (rest.take 22).all isIdChar && rest[22]? == some '/' then
    some (String.ofList (rest.take 22), String.ofList (rest.drop 23))
  else none

def classifyRecordKey (key : String) : ClassifiedRecordKey :=
  if hasUnsafeShape key then .rejected (ownerOfKey key)
  else match segments key with
    | [_] => if isShareId key then .web key else .rejected none
    | ["_index", name] => if isIndexDocumentName name then .index name else .rejected none
    | "_index" :: _ => .rejected none
    | ["agents", agentId, shareId] =>
      if isAgentId agentId && isShareId shareId then .agent agentId shareId else .rejected (ownerOfKey key)
    | _ => .rejected (ownerOfKey key)

end Keys

section Documents

def INDEX_SCHEMA_VERSION : ℤ := 1

def SUPPORTED_AGENT_RECORD_V : ℕ := 1

/-- A decrypted value at the main key: an object with a version, whose fields may have the shapes of version 1. -/
inductive MainValue
  | object (v : ℤ) (doc : Option Doc)
  | other

inductive ParsedIndexDocument
  | ok (doc : Doc)
  | newer (v : ℤ)
  | invalid

def parseIndexDocument : MainValue → ParsedIndexDocument
  | .other => .invalid
  | .object v doc =>
    if INDEX_SCHEMA_VERSION < v then .newer v
    else if v ≠ INDEX_SCHEMA_VERSION then .invalid
    else match doc with
      | some doc => .ok doc
      | none => .invalid

inductive ArchiveValue
  | object (v : ℤ) (rows : Option Rows)
  | other

def parseArchiveDocument : ArchiveValue → Option Rows
  | .other => none
  | .object v rows => if v ≠ INDEX_SCHEMA_VERSION then none else rows

inductive DocumentRead (α : Type)
  | ok (value : α) (etag : ℕ)
  | notFound
  | corrupt (etag : Option ℕ)
  | unavailable

def archiveRows : DocumentRead ArchiveValue → Option Rows
  | .ok value _ => parseArchiveDocument value
  | _ => none

inductive Condition
  | ifMatch (etag : ℕ)
  | ifNoneMatch
  deriving DecidableEq

inductive WriteResult
  | ok
  | conflict
  | outcomeUnknown
  | busy
  | unauthorized
  | failed
  | invalidEtag
  deriving DecidableEq

inductive ListResult
  | ok (keys : List String) (cursor : Option String)
  | unavailable

end Documents

section Records

/-- What a row shows of a verified record. -/
structure ShareRecord where
  shareId : String
  n : String
  k : String
  ak : String
  al : String
  actions : List String
  registeredAt : String
  expiresAt : String
  revokedAt : Option String
  revokeKind : RevokeKind
  enforcementDelegationCid : Option String
  cids : List String
  migrated : Bool

def project (record : ShareRecord) (key : String) (src : Source) (claims : List String) (proof : Option ProofState) :
    Row where
  n := record.n
  k := record.k
  ak := record.ak
  al := record.al
  a := record.actions
  c := record.registeredAt
  x := record.expiresAt
  r := record.revokedAt.map (⟨·, false⟩)
  rk := record.revokeKind
  cid := record.enforcementDelegationCid.filter claims.contains
  cc := if claims.isEmpty then none else some claims
  src := src
  ps := proof
  migrated := record.migrated
  na := record.shareId != basename key

def unreadableRow (H : Host) (now : ℤ) : Row where
  n := "Unreadable share"
  k := "file"
  ak := "bearer"
  al := ""
  a := []
  c := H.toISOString now
  x := H.toISOString now
  r := none
  rk := .none
  cid := none
  cc := none
  src := .web
  ps := none
  migrated := false
  na := true

/-- The schema, link and chain checks of one record. -/
inductive Checked
  | reject (reason : RejectReason)
  | verified (record : ShareRecord) (claims : List String) (state : ProofState)

inductive WebRead
  | absent
  | corrupt
  | unreadable
  | record (record : ShareRecord)
  | migrated (checked : Checked)

inductive AgentRead
  | skip
  | newer (recordV : ℕ)
  | checked (did : String) (checked : Checked)

inductive ShareStatus
  | revoked
  | active
  | unknown
  deriving DecidableEq

end Records

section Requests

inductive WriteStatus
  | written
  | unchanged
  | readOnly
  | unavailable
  deriving DecidableEq

/-- What a flush returns; it has no status when the outbox is empty. -/
structure FlushResult where
  status : Option WriteStatus
  refused : List String

/-- Why an archive document is read. -/
inductive ArchiveUse
  | rebuild
  | claims
  | merge
  deriving DecidableEq

/-- A request. `mutate` is the moment at which a change is applied to the document that was read; it answers with the
time. A write carries what it was computed from. -/
inductive Op
  | readMain
  | mutate (change : Change) (base : Doc)
  | writeMain (change : Change) (base : Doc) (now : ℤ) (next : Doc) (condition : Condition)
  | readArchive (name : String) (use : ArchiveUse)
  | writeArchive (group : Group) (next : Rows) (condition : Condition)
  | listKeys (under : String) (cursor : Option String)
  | readRecord (key : String)
  | readAgentRecord (key agentId shareId : String)
  | recordGone (key : String)
  | status (key : String) (row : Row)
  | now
  | outboxList
  | outboxRemove (ids : List String)
  | flushed (result : FlushResult)

def Op.Res : Op → Type
  | .readMain => DocumentRead MainValue
  | .mutate _ _ => ℤ
  | .writeMain _ _ _ _ _ => WriteResult
  | .readArchive _ _ => DocumentRead ArchiveValue
  | .writeArchive _ _ _ => WriteResult
  | .listKeys _ _ => ListResult
  | .readRecord _ => WebRead
  | .readAgentRecord _ _ _ => AgentRead
  | .recordGone _ => Bool
  | .status _ _ => ShareStatus
  | .now => ℤ
  | .outboxList => List ShareIndexOp
  | .outboxRemove _ => Unit
  | .flushed _ => Unit

inductive Failure
  | invalidEtag
  | failed
  | exhausted
  | archiveUnavailable
  | thrown
  deriving DecidableEq

abbrev Call := Code Failure Op Op.Res

def ask (o : Op) : Call o.Res := perform .thrown o

inductive Attempt (α : Type)
  | done (a : α)
  | write (result : WriteResult) (a : α)

/-- The compare-and-swap loop; what the attempts keep between them is `s`. -/
def runCas {α σ : Type} (attempt : σ → Call (Attempt α × σ)) : ℕ → σ → Call (α × σ)
  | 0, _ => throw .exhausted
  | attempts + 1, s => do
    match ← attempt s with
    | (.done a, s) => pure (a, s)
    | (.write .ok a, s) => pure (a, s)
    | (.write .invalidEtag _, _) => throw .invalidEtag
    | (.write .unauthorized _, _) => throw .failed
    | (.write .failed _, _) => throw .failed
    | (.write _ _, s) => runCas attempt attempts s

end Requests

structure Settings where
  host : Host
  limits : Limits
  maxAttempts : ℕ
  ownerDid : String
  spaceId : String
  /-- `updatedBy` label of each writer. -/
  label : ℕ → String

variable (S : Settings) (writer : ℕ)

def Settings.emptyDoc (now : ℤ) : Doc := emptyIndexDocument S.host now S.ownerDid S.spaceId (S.label writer)

section Update

/-- The archives found under `_index/`. -/
def rediscover (doc : Doc) : List String → Call Doc
  | [] => pure doc
  | key :: keys =>
    match classifyRecordKey key with
    | .index name => do
      if name = "main" then rediscover doc keys
      else
        let read : DocumentRead ArchiveValue ← ask (.readArchive name .rebuild)
        match archiveRows read with
        | none => rediscover doc keys
        | some rows => rediscover { doc with archives := doc.archives ++ [⟨name, rows.keys⟩] } keys
    | _ => rediscover doc keys

def rebuildBase : Call Doc := do
  let now ← ask .now
  let doc := S.emptyDoc writer now
  match ← ask (.listKeys "_index/" none) with
  | ListResult.unavailable => pure doc
  | ListResult.ok keys _ => rediscover doc keys

structure WriteOutcome where
  status : WriteStatus
  doc : Option Doc

def stamp (now : ℤ) (doc : Doc) : Doc :=
  { doc with
    updatedAt := S.host.toISOString now
    updatedBy := S.label writer }

/-- Mutates the base and writes it; a change of nothing is not written. -/
def writeChange (change : Change) (base : Doc) (condition : Condition) (existed : Bool) :
    Call (Attempt WriteOutcome × Feedback) := do
  let now : ℤ ← ask (.mutate change base)
  let (next, feedback) := change.apply S.host S.limits now base
  if existed && sameContent base next then pure (.done ⟨.unchanged, some base⟩, feedback)
  else
    let next := stamp S writer now next
    let result ← ask (.writeMain change base now next condition)
    pure (.write result ⟨.written, some next⟩, feedback)

def updateAttempt (change : Change) (feedback : Feedback) : Call (Attempt WriteOutcome × Feedback) := do
  match ← ask .readMain with
  | DocumentRead.unavailable => pure (.done ⟨.unavailable, none⟩, feedback)
  | DocumentRead.notFound => do
    let now ← ask .now
    writeChange S writer change (S.emptyDoc writer now) .ifNoneMatch false
  | DocumentRead.corrupt none => pure (.done ⟨.unavailable, none⟩, feedback)
  | DocumentRead.corrupt (some etag) => do
    let base ← rebuildBase S writer
    writeChange S writer change base (.ifMatch etag) false
  | DocumentRead.ok value etag =>
    match parseIndexDocument value with
    | .newer _ => pure (.done ⟨.readOnly, none⟩, feedback)
    | .ok doc => writeChange S writer change doc (.ifMatch etag) true
    | .invalid => do
      let base ← rebuildBase S writer
      writeChange S writer change base (.ifMatch etag) false

def noFeedback : Feedback := ⟨[], 0, false⟩

def update (change : Change) : Call (WriteOutcome × Feedback) :=
  runCas (updateAttempt S writer change) S.maxAttempts noFeedback

end Update

section Methods

inductive Load
  | ok (doc : Doc)
  | readOnly
  | notFound
  | corrupt
  | unavailable

def load : Call Load := do
  match ← ask .readMain with
  | DocumentRead.notFound => pure .notFound
  | DocumentRead.unavailable => pure .unavailable
  | DocumentRead.corrupt _ => pure .corrupt
  | DocumentRead.ok value _ =>
    match parseIndexDocument value with
    | .newer _ => pure .readOnly
    | .ok doc => pure (.ok doc)
    | .invalid => pure .corrupt

/-- Ops leave the outbox only after the write is confirmed, or when the change was already there. -/
def flush : Call FlushResult := do
  let ops : List ShareIndexOp ← ask .outboxList
  if ops.isEmpty then pure ⟨none, []⟩
  else
    let (outcome, feedback) ← update S writer (.ops ops)
    if outcome.status = .written ∨ outcome.status = .unchanged then
      let _ ← ask (.outboxRemove (ops.map (·.id)))
      pure ⟨some outcome.status, feedback.refused⟩
    else pure ⟨some outcome.status, feedback.refused⟩

structure Statuses where
  results : List (String × Bool)
  checked : ℕ

/-- The statuses of the rows; `checks` are left. -/
def checkStatuses : ℕ → List (String × Row) → Call Statuses
  | 0, _ => pure ⟨[], 0⟩
  | _ + 1, [] => pure ⟨[], 0⟩
  | checks + 1, (key, row) :: entries => do
    if row.rk = .none ∨ row.revoked then checkStatuses (checks + 1) entries
    else
      let status : ShareStatus ← ask (.status key row)
      let rest ← checkStatuses checks entries
      pure ⟨match status with
        | .revoked => (key, true) :: rest.results
        | .active => (key, false) :: rest.results
        | .unknown => rest.results, rest.checked + 1⟩

def Load.failure : Load → WriteStatus
  | .readOnly => .readOnly
  | _ => .unavailable

def syncStatus : Call (WriteStatus × ℕ) := do
  match ← load with
  | .ok doc =>
    let statuses ← checkStatuses S.limits.statusChecksPerSync doc.rows.entries
    let (outcome, _) ← update S writer (.statuses statuses.results)
    pure (outcome.status, statuses.checked)
  | loaded => pure (loaded.failure, 0)

end Methods

section Compaction

structure Chosen where
  keys : List String
  total : ℤ
  agentTotal : ℤ

def take (rows : Rows) (chosen : Chosen) (key : String) : Chosen :=
  if chosen.keys.contains key then chosen
  else
    let size : ℤ := ((rows.get? key).elim 0 S.host.bytesOf : ℕ)
    let isAgent := (rows.get? key).any fun row => (agentOf row).isSome
    ⟨chosen.keys ++ [key], chosen.total - size, if isAgent then chosen.agentTotal - size else chosen.agentTotal⟩

def byAge (rows : Rows) : List (String × Row) :=
  rows.entries.insertionSort fun left right =>
    (match S.host.dateParse left.2.c, S.host.dateParse right.2.c with
      | some s, some t => decide (s ≤ t)
      | _, _ => true) = true

/-- The rows that go to archives: done and old ones, then agent rows over their share, then the oldest. -/
def choose (doc : Doc) (now : ℤ) : List String :=
  let rows := doc.rows
  let limit : ℤ := S.limits.mainRowBytes
  let old : Row → Bool := fun row =>
    (row.r.isSome || (S.host.dateParse row.x).any (· ≤ now)) &&
      (S.host.dateParse row.c).any (S.limits.archiveAgeMs < now - ·)
  let isOver : Chosen → Bool := fun chosen => limit < chosen.total
  let start : Chosen := ⟨[], ((rows.values.map S.host.bytesOf).sum : ℕ), agentRowBytes S.host rows⟩
  let first := (byAge S rows).foldl (fun chosen e => if isOver chosen && old e.2 then take S rows chosen e.1 else chosen) start
  let second := (byAge S rows).foldl (fun chosen e =>
    if isOver chosen && agentBudget S.limits < (chosen.agentTotal : Rat) && (agentOf e.2).isSome
    then take S rows chosen e.1 else chosen) first
  let third := (byAge S rows).foldl (fun chosen e => if isOver chosen then take S rows chosen e.1 else chosen) second
  if isOver start then third.keys else []

def archiveName (row : Row) (now : ℤ) : String :=
  "archive-" ++ S.host.fullYear (match S.host.dateParse row.c with
    | some t => if t = 0 then now else t
    | none => now)

def addToGroup (name key : String) (row : Row) : List Group → List Group
  | [] => [⟨name, Dict.empty.set key row⟩]
  | group :: groups =>
    if group.name = name then { group with rows := group.rows.set key row } :: groups
    else group :: addToGroup name key row groups

def groupsOf (doc : Doc) (now : ℤ) (keys : List String) : List Group :=
  keys.foldl (fun groups key => match doc.rows.get? key with
    | none => groups
    | some row => addToGroup (archiveName S row now) key row groups) []

def mergeRows (existing rows : Rows) : Rows := rows.entries.foldl (fun merged e => merged.set e.1 e.2) existing

/-- One attempt to merge a group into its archive document. -/
def archiveAttempt (group : Group) (_ : Unit) : Call (Attempt Unit × Unit) := do
  match ← ask (.readArchive group.name .merge) with
  | DocumentRead.unavailable => throw .archiveUnavailable
  | DocumentRead.corrupt none => throw .archiveUnavailable
  | DocumentRead.corrupt (some etag) => do
    let result ← ask (.writeArchive group (mergeRows Dict.empty group.rows) (.ifMatch etag))
    pure (.write result (), ())
  | DocumentRead.notFound => do
    let result ← ask (.writeArchive group (mergeRows Dict.empty group.rows) .ifNoneMatch)
    pure (.write result (), ())
  | DocumentRead.ok value etag => do
    let existing := (parseArchiveDocument value).getD Dict.empty
    let result ← ask (.writeArchive group (mergeRows existing group.rows) (.ifMatch etag))
    pure (.write result (), ())

def archiveGroups : List Group → Call Unit
  | [] => pure ()
  | group :: groups => do
    let _ ← runCas (archiveAttempt group) S.maxAttempts ()
    archiveGroups groups

/-- The tombstones that are past their time and whose record is gone. -/
def expiredTombstones (now : ℤ) : List Tombstone → Call (List String)
  | [] => pure []
  | tombstone :: tombstones => do
    if (S.host.dateParse tombstone.at_).any (fun at_ => now - at_ ≤ S.limits.tombstoneTtlMs) then
      expiredTombstones now tombstones
    else
      let gone : Bool ← ask (.recordGone tombstone.key)
      let rest ← expiredTombstones now tombstones
      pure (if gone then tombstone.key :: rest else rest)

/-- Archive documents first, so that a crash leaves rows in both places, never in neither. -/
def compact : Call (WriteStatus × ℕ) := do
  match ← load with
  | .ok doc =>
    let now : ℤ ← ask .now
    let chosen := choose S doc now
    let groups := groupsOf S doc now chosen
    archiveGroups S groups
    let expired ← expiredTombstones S now doc.tombstones
    let (outcome, _) ← update S writer (.compaction groups expired)
    pure (outcome.status, chosen.length)
  | loaded => pure (loaded.failure, 0)

end Compaction

section Reconcile

structure AgentScan where
  known : List String
  attempted : ℕ
  rejections : ℕ
  paused : Bool
  rows : ℕ

/-- What a pass has seen so far; `archived` are the claims of the archived rows, once they are read. -/
structure Scan where
  findings : List Finding
  agents : Dict String AgentScan
  archived : Option (Dict String ℕ)
  fetches : ℕ
  deferred : ℕ
  rejectedCounts : Dict RejectReason ℕ

def Scan.agent (doc : Doc) (scan : Scan) (agentId : String) : AgentScan :=
  (scan.agents.get? agentId).getD (match doc.agents.get? agentId with
    | none => ⟨[], 0, 0, false, 0⟩
    | some entry =>
      ⟨entry.rejectedKeys ++ entry.newerKeys.getD [], 0, entry.rejected.values.sum, entry.paused.isSome, entry.rows⟩)

def Scan.reject (doc : Doc) (scan : Scan) (agentId suffix : String) (reason : RejectReason) : Scan :=
  let state := scan.agent doc agentId
  let rejections := state.rejections + 1
  { scan with
    agents := scan.agents.set agentId { state with
      known := state.known ++ [S.host.rejectedKeyEntry suffix]
      rejections := rejections
      paused := state.paused || S.limits.rejectionsBeforePause ≤ rejections }
    rejectedCounts := scan.rejectedCounts.set reason ((scan.rejectedCounts.get? reason).getD 0 + 1)
    findings := scan.findings ++ [.reject agentId suffix reason] }

/-- The CIDs that archived rows claim, with the highest rank for each. -/
def addClaims (claims : Dict String ℕ) (rows : Rows) : Dict String ℕ :=
  rows.values.foldl (fun claims row => row.claims.foldl (fun claims cid =>
    claims.set cid (max ((claims.get? cid).getD 0) (claimRank row))) claims) claims

def archivedClaims (claims : Dict String ℕ) : List Archive → Call (Dict String ℕ)
  | [] => pure claims
  | archive :: archives => do
    let read : DocumentRead ArchiveValue ← ask (.readArchive archive.name .claims)
    archivedClaims (addClaims claims ((archiveRows read).getD Dict.empty)) archives

def archivedOnce (doc : Doc) (scan : Scan) : Call (Dict String ℕ × Scan) := do
  match scan.archived with
  | some claims => pure (claims, scan)
  | none =>
    let claims ← archivedClaims Dict.empty doc.archives
    pure (claims, { scan with archived := some claims })

/-- The last of the record checks: a CID that an archived row of the same or a higher rank claims is refused. -/
def checkRecord (doc : Doc) (scan : Scan) (key : String) (src : Source) (checked : Checked) :
    Call (Except RejectReason Row × Scan) := do
  match checked with
  | .reject reason => pure (.error reason, scan)
  | .verified record claims state =>
    let row := project record key src claims (some state)
    if state = .proven then pure (.ok row, scan)
    else
      let (archived, scan) ← archivedOnce doc scan
      if claims.any fun cid => (archived.get? cid).any (claimRank row ≤ ·) then pure (.error .proof, scan)
      else pure (.ok row, scan)

def scanWeb (doc : Doc) (scan : Scan) (key : String) : Call Scan := do
  let scan := { scan with fetches := scan.fetches + 1 }
  let note := fun (scan : Scan) (row : Row) => { scan with findings := scan.findings ++ [.web key row] }
  match ← ask (.readRecord key) with
  | WebRead.absent => pure scan
  | WebRead.migrated checked => do
    let (result, scan) ← checkRecord doc scan key .web checked
    match result with
    | .ok row => pure (note scan row)
    | .error _ => do
      let now ← ask .now
      pure (note scan { unreadableRow S.host now with migrated := true })
  | WebRead.record record => pure (note scan (project record key .web record.cids none))
  | _ => do
    let now ← ask .now
    pure (note scan (unreadableRow S.host now))

def scanAgent (doc : Doc) (scan : Scan) (key agentId shareId : String) : Call Scan := do
  let state := scan.agent doc agentId
  if state.paused || state.known.contains (S.host.rejectedKeyEntry shareId) then pure scan
  else if S.limits.newRowsPerAgentPerPass ≤ state.attempted || S.limits.liveRowsPerAgent ≤ state.rows + state.attempted then
    pure { scan with deferred := scan.deferred + 1 }
  else
    let state := { state with attempted := state.attempted + 1 }
    let scan := { scan with
      fetches := scan.fetches + 1
      agents := scan.agents.set agentId state }
    match ← ask (.readAgentRecord key agentId shareId) with
    | AgentRead.skip => pure scan
    | AgentRead.newer recordV =>
      pure { scan with
        agents := scan.agents.set agentId { state with known := state.known ++ [S.host.rejectedKeyEntry shareId] }
        findings := scan.findings ++ [.newer agentId shareId recordV] }
    | AgentRead.checked did checked => do
      let (result, scan) ← checkRecord doc scan key (.agent agentId) checked
      match result with
      | .ok row => pure { scan with findings := scan.findings ++ [.agent key agentId did row] }
      | .error reason => pure (scan.reject S doc agentId shareId reason)

def knownKeys (doc : Doc) : List String :=
  doc.rows.keys ++ doc.tombstones.map (·.key) ++ doc.archives.flatMap (·.ids)

/-- One page of keys; `true` when the fetch budget ended it. -/
def scanKeys (doc : Doc) (scan : Scan) : List String → Call (Scan × Bool)
  | [] => pure (scan, false)
  | key :: keys => do
    match classifyRecordKey key with
    | .index _ => scanKeys doc scan keys
    | .rejected none => scanKeys doc scan keys
    | .rejected (some (agentId, suffix)) =>
      let state := scan.agent doc agentId
      if state.paused || state.known.contains (S.host.rejectedKeyEntry suffix) then scanKeys doc scan keys
      else scanKeys doc (scan.reject S doc agentId suffix .shape) keys
    | .web _ =>
      if (knownKeys doc).contains key then scanKeys doc scan keys
      else if S.limits.fetchesPerPass ≤ scan.fetches then pure (scan, true)
      else
        let scan ← scanWeb S doc scan key
        scanKeys doc scan keys
    | .agent agentId shareId =>
      if (knownKeys doc).contains key then scanKeys doc scan keys
      else if S.limits.fetchesPerPass ≤ scan.fetches then pure (scan, true)
      else
        let scan ← scanAgent S doc scan key agentId shareId
        scanKeys doc scan keys

structure Listing where
  scan : Scan
  pages : ℕ
  cursor : Option String
  cycleComplete : Bool

/-- A stored cursor can go stale: the first page is asked for again from the top. -/
def firstPage (cursor : Option String) (pages : ℕ) : Call (ListResult × ℕ) := do
  let page : ListResult ← ask (.listKeys "" cursor)
  match page with
  | .unavailable =>
    if cursor.isSome ∧ pages = 0 then
      let page : ListResult ← ask (.listKeys "" none)
      pure (page, 2)
    else pure (page, pages + 1)
  | _ => pure (page, pages + 1)

/-- The page loop; it stops at the end of the listing, at an outage and at its budgets. -/
def scanPages (doc : Doc) : ℕ → Listing → Call Listing
  | 0, listing => pure listing
  | fuel + 1, listing => do
    if S.limits.listPagesPerPass ≤ listing.pages then pure listing
    else
      let (page, pages) ← firstPage listing.cursor listing.pages
      match page with
      | .unavailable => pure { listing with
        pages := pages
        cursor := if listing.cursor.isSome ∧ listing.pages = 0 then none else listing.cursor }
      | .ok keys cursor =>
        let (scan, budgetHit) ← scanKeys S doc listing.scan keys
        if budgetHit then pure ⟨scan, pages, doc.cursor, false⟩
        else if cursor.isNone then pure ⟨scan, pages, none, true⟩
        else scanPages doc fuel ⟨scan, pages, cursor, false⟩

def agentRecordPrefix (agentId : String) : String := "agents/" ++ agentId ++ "/"

/-- Entries without rows whose records are gone leave the header; `pages` have been listed. -/
def scanEntries (scan : Scan) (pages : ℕ) : List (String × Agent) → Call (List Finding × ℕ)
  | [] => pure ([], pages)
  | (agentId, entry) :: entries => do
    let clear := if entry.newerKeys.isSome && entry.newerV.any (· ≤ SUPPORTED_AGENT_RECORD_V)
      then [Finding.clearNewer agentId] else []
    let attempted := ((scan.agents.get? agentId).elim 0 AgentScan.attempted)
    if entry.rows ≠ 0 ∨ attempted ≠ 0 ∨ S.limits.listPagesPerPass ≤ pages then
      let (rest, pages) ← scanEntries scan pages entries
      pure (clear ++ rest, pages)
    else
      let page : ListResult ← ask (.listKeys (agentRecordPrefix agentId) none)
      let gc := match page with
        | .ok [] _ => [Finding.gc agentId]
        | _ => []
      let (rest, pages) ← scanEntries scan (pages + 1) entries
      pure (clear ++ gc ++ rest, pages)

structure ReconcileReport where
  status : WriteStatus
  pages : ℕ
  fetches : ℕ
  admitted : ℕ
  rejected : Dict RejectReason ℕ
  deferred : ℕ
  cycleComplete : Bool
  headerFull : Bool

def reconcileFrom (doc : Doc) : Call ReconcileReport := do
  let listing ← scanPages S doc S.limits.listPagesPerPass
    ⟨⟨[], Dict.empty, none, 0, 0, Dict.empty⟩, 0, doc.cursor, false⟩
  let scan := listing.scan
  let (entries, pages) ← scanEntries S scan listing.pages doc.agents.entries
  let (outcome, feedback) ← update S writer (.findings (scan.findings ++ entries) listing.cursor)
  pure ⟨outcome.status, pages, scan.fetches, feedback.admitted, scan.rejectedCounts, scan.deferred,
    listing.cycleComplete, feedback.headerFull⟩

def reconcile : Call ReconcileReport := do
  let loaded ← load
  let nothing := fun status => ReconcileReport.mk status 0 0 0 Dict.empty 0 false false
  match loaded with
  | .readOnly => pure (nothing .readOnly)
  | .unavailable => pure (nothing .unavailable)
  | .ok doc => reconcileFrom S writer doc
  | _ => do
    let now ← ask .now
    reconcileFrom S writer (S.emptyDoc writer now)

end Reconcile

section System

structure StoredMain where
  etag : ℕ
  /-- Nothing when the document does not decrypt. -/
  value : Option MainValue

/-- What was written into the document stays its value when it no longer decrypts. -/
structure StoredArchive where
  etag : ℕ
  readable : Bool
  value : ArchiveValue

structure CallId where
  writer : ℕ
  serial : ℕ
  deriving DecidableEq

structure Entry where
  call : CallId
  op : Op
  answer : Option op.Res
  landed : Bool

/-- The stored documents, the outboxes with all ops that were ever put there, and every request so far, the newest first. -/
structure World where
  main : Option StoredMain
  archives : Dict String StoredArchive
  writes : ℕ
  outbox : ℕ → List ShareIndexOp
  enqueued : ℕ → List ShareIndexOp
  log : List Entry

/-- What the outside decides about one request: whether it fails, whether a read is answered and shows an etag, how a
write ends and whether it landed when nobody knows, and what lies outside the documents. -/
structure Choice where
  fails : Bool
  unavailable : Bool
  hidesEtag : Bool
  write : WriteResult
  lands : Bool
  list : ListResult
  webRead : WebRead
  agentRead : AgentRead
  gone : Bool
  status : ShareStatus
  now : ℤ

def World.readMain (w : World) (c : Choice) : DocumentRead MainValue :=
  if c.unavailable then .unavailable
  else match w.main with
    | none => .notFound
    | some ⟨etag, none⟩ => .corrupt (if c.hidesEtag then none else some etag)
    | some ⟨etag, some value⟩ => .ok value etag

def World.readArchive (w : World) (c : Choice) (name : String) : DocumentRead ArchiveValue :=
  if c.unavailable then .unavailable
  else match w.archives.get? name with
    | none => .notFound
    | some ⟨etag, false, _⟩ => .corrupt (if c.hidesEtag then none else some etag)
    | some ⟨etag, true, value⟩ => .ok value etag

def Condition.holds (etag : Option ℕ) : Condition → Bool
  | .ifMatch e => etag == some e
  | .ifNoneMatch => etag.isNone

/-- An acknowledged write found its condition true; one with an unknown outcome may have. -/
def landing (c : Choice) (met : Bool) : Option Bool :=
  match c.write with
  | .ok => if met then some true else none
  | .outcomeUnknown => some (c.lands && met)
  | _ => some false

def World.putMain (w : World) (doc : Doc) : World :=
  { w with
    main := some ⟨w.writes, some (.object INDEX_SCHEMA_VERSION (some doc))⟩
    writes := w.writes + 1 }

def World.putArchive (w : World) (name : String) (rows : Rows) : World :=
  { w with
    archives := w.archives.set name ⟨w.writes, true, .object INDEX_SCHEMA_VERSION (some rows)⟩
    writes := w.writes + 1 }

/-- A listing of the index documents that ends with its first page has them all. -/
def World.lists (w : World) (under : String) (answer : ListResult) : Bool :=
  match answer with
  | .ok keys none => under != "_index/" || w.archives.keys.all fun name => keys.contains ("_index/" ++ name)
  | _ => true

def putOp (ops : List ShareIndexOp) (op : ShareIndexOp) : List ShareIndexOp := ops ++ [op]

def removeOps (ids : List String) (ops : List ShareIndexOp) : List ShareIndexOp :=
  ops.filter fun op => !ids.contains op.id

def World.record (w : World) (x : CallId) (o : Op) (answer : Option o.Res) (landed : Bool) : World :=
  { w with log := ⟨x, o, answer, landed⟩ :: w.log }

/-- One request: its answer and the world after it. -/
def runOp (c : Choice) (x : CallId) (w : World) : (o : Op) → Option (Option o.Res × World)
  | .readMain => some (some (w.readMain c), w.record x .readMain (some (w.readMain c)) false)
  | .mutate change base => some (some c.now, w.record x (.mutate change base) (some c.now) false)
  | .writeMain change base now next condition =>
    (landing c (condition.holds (w.main.map StoredMain.etag))).map fun landed =>
      (some c.write, (if landed then w.putMain next else w).record x (.writeMain change base now next condition)
        (some c.write) landed)
  | .readArchive name use =>
    some (some (w.readArchive c name), w.record x (.readArchive name use) (some (w.readArchive c name)) false)
  | .writeArchive group next condition =>
    (landing c (condition.holds ((w.archives.get? group.name).map StoredArchive.etag))).map fun landed =>
      (some c.write,
        (if landed then w.putArchive group.name next else w).record x (.writeArchive group next condition)
          (some c.write) landed)
  | .listKeys under cursor =>
    if w.lists under c.list then some (some c.list, w.record x (.listKeys under cursor) (some c.list) false) else none
  | .readRecord key => some (some c.webRead, w.record x (.readRecord key) (some c.webRead) false)
  | .readAgentRecord key agentId shareId =>
    some (some c.agentRead, w.record x (.readAgentRecord key agentId shareId) (some c.agentRead) false)
  | .recordGone key => some (some c.gone, w.record x (.recordGone key) (some c.gone) false)
  | .status key row =>
    let answer := if c.fails then none else some c.status
    some (answer, w.record x (.status key row) answer false)
  | .now => some (some c.now, w.record x .now (some c.now) false)
  | .outboxList =>
    let answer := if c.fails then none else some (w.outbox x.writer)
    some (answer, w.record x .outboxList answer false)
  | .outboxRemove ids =>
    let answer := if c.fails then none else some ()
    let w' := if c.fails then w
      else { w with outbox := Function.update w.outbox x.writer (removeOps ids (w.outbox x.writer)) }
    some (answer, w'.record x (.outboxRemove ids) answer (!c.fails))
  | .flushed result => some (some (), w.record x (.flushed result) (some ()) false)

inductive Method
  | flush
  | reconcile
  | syncStatus
  | compact
  deriving DecidableEq

def program (x : CallId) : Method → Prog Op Op.Res Unit
  | .flush => (flush S x.writer >>= fun result => ask (.flushed result)).run.bind fun _ => .pure ()
  | .reconcile => (reconcile S x.writer).run.bind fun _ => .pure ()
  | .syncStatus => (syncStatus S x.writer).run.bind fun _ => .pure ()
  | .compact => (compact S x.writer).run.bind fun _ => .pure ()

structure Index where
  world : World
  calls : CallId → Option (Prog Op Op.Res Unit)

inductive IndexAction
  | start (x : CallId) (method : Method)
  | answer (x : CallId) (c : Choice)
  | crash (x : CallId)
  | enqueue (writer : ℕ) (op : ShareIndexOp)
  /-- The main document no longer decrypts, or is another value. -/
  | damageMain (value : Option MainValue)
  /-- An archive document no longer decrypts, or is of another version. -/
  | damageArchive (name : String) (readable : Bool) (v : ℤ)

/-- What may be wrong with a main document that was not written by a writer: everything but a valid one. -/
def isDamaged : Option MainValue → Bool
  | none => true
  | some value => match parseIndexDocument value with
    | .ok _ => false
    | _ => true

def StoredArchive.damage (etag : ℕ) (readable : Bool) (v : ℤ) (stored : StoredArchive) : StoredArchive :=
  ⟨etag, readable, match stored.value with
    | .object _ rows => .object v rows
    | .other => .other⟩

def World.enqueue (w : World) (writer : ℕ) (op : ShareIndexOp) : World :=
  { w with
    outbox := Function.update w.outbox writer (putOp (w.outbox writer) op)
    enqueued := Function.update w.enqueued writer (putOp (w.enqueued writer) op) }

def World.damageMain (w : World) (value : Option MainValue) : World :=
  { w with
    main := some ⟨w.writes, value⟩
    writes := w.writes + 1 }

def World.damageArchive (w : World) (name : String) (stored : StoredArchive) (readable : Bool) (v : ℤ) : World :=
  { w with
    archives := w.archives.set name (stored.damage w.writes readable v)
    writes := w.writes + 1 }

def indexStep (b : Index) : IndexAction → Option Index
  | .start x method =>
    if (b.calls x).isNone && b.world.log.all (fun e => e.call != x) then
      some { b with calls := Function.update b.calls x (some (program S x method)) }
    else none
  | .answer x c =>
    match b.calls x with
    | some (.op o next) =>
      (runOp c x b.world o).map fun (answer, world) => ⟨world, Function.update b.calls x (some (next answer))⟩
    | _ => none
  | .crash x => some { b with calls := Function.update b.calls x none }
  | .enqueue writer op =>
    if (b.world.enqueued writer).all fun op' => op'.id != op.id then
      some { b with world := b.world.enqueue writer op }
    else none
  | .damageMain value => if isDamaged value then some { b with world := b.world.damageMain value } else none
  | .damageArchive name readable v =>
    (b.world.archives.get? name).map fun stored => { b with world := b.world.damageArchive name stored readable v }

def emptyWorld : World := ⟨none, Dict.empty, 0, fun _ => [], fun _ => [], []⟩

def indexMachine : Machine Index IndexAction where
  initial b := b.world = emptyWorld ∧ ∀ x, b.calls x = none
  step := indexStep S

end System

end TinyCloud.ShareIndex
