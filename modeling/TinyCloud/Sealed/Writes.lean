import TinyCloud.Sealed.Store

/-! The writes of the sealed store that change entries or contents: `applyPage`, `reset`, `markRevoked` and
`collectGarbage`, and the handles of one partition that run them side by side. -/

namespace TinyCloud.Sealed

open TinyCloud.Collections TinyCloud.Replica TinyCloud.Runs

section ApplyPage

/-- The last change of each key, in the order of their first. -/
def latest (changes : List VerifiedChange) : List VerifiedChange :=
  (changes.foldl (fun d c => d.set c.key c) (Dict.empty : Dict String VerifiedChange)).values

def isContentHash (hash : String) : Bool :=
  decide (hash.toList.length = 64) && hash.toList.all fun c => ('0' ≤ c && c ≤ '9') || ('a' ≤ c && c ≤ 'f')

def encodeBlob (hash : String) (bytes : ByteArray) : Except SealedError SealedBlob :=
  if isContentHash hash then .ok ⟨hash, bytes⟩ else .error .storageError

def newBlobs (ids : Ids) (blobs : List (String × ByteArray)) : Except SealedError (List (String × SealedBlob)) :=
  blobs.mapM fun (hash, bytes) => do return (ids.blob hash, ← encodeBlob hash bytes)

/-- The contents that the page refers to without bringing them. -/
def heldIds (ids : Ids) (page : VerifiedPage) (changes : List VerifiedChange) : List String :=
  changes.filterMap fun
    | .deleted _ => none
    | .live row => if row.content && decide (row.hash ∉ page.blobs.map Prod.fst) then some (ids.blob row.hash) else none

/-- `available` has the length of each content that backs an entry. -/
structure Prepared where
  counters : Counters
  available : Dict String ℕ
  newEntries : List (String × SealedEntry)

/-- The counters without the entry that is replaced. -/
def withdraw (c : Counters) (previous : EntryRow) : Counters :=
  match previous.entry with
  | .deleted _ => { c with tombstones := c.tombstones - 1 }
  | .live row =>
    let c := { c with keys := c.keys - 1 }
    if row.content then { c with contentBytes := c.contentBytes - previous.size.getD 0 }
    else { c with contentMissing := c.contentMissing - 1 }

/-- The length of a content that the page or the store has. -/
def backed (held : String → Option SealedBlob) (available : Dict String ℕ) (hashId hash : String) :
    Except SealedError (Dict String ℕ × ℕ) :=
  match available.get? hashId with
  | some length => .ok (available, length)
  | none => match held hashId with
    | some old =>
      if old.hash = hash then .ok (available.set hashId old.bytes.size, old.bytes.size) else .error .storageError
    | none => .error .storageError

def prepareChange (ids : Ids) (oldEntries : Dict String SealedEntry) (held : String → Option SealedBlob)
    (a : Prepared) (change : VerifiedChange) : Except SealedError Prepared := do
  let id := ids.entry change.key
  let counters := match oldEntries.get? id with
    | some previous => withdraw a.counters previous.row
    | none => a.counters
  match change with
  | .deleted _ =>
    return { a with
      counters := { counters with tombstones := counters.tombstones + 1 }
      newEntries := a.newEntries ++ [(id, ⟨none, ⟨change, none⟩⟩)] }
  | .live row =>
    let hashId := ids.blob row.hash
    let counters := { counters with keys := counters.keys + 1 }
    if row.content then
      let (available, length) ← backed held a.available hashId row.hash
      return ⟨{ counters with contentBytes := counters.contentBytes + length }, available,
        a.newEntries ++ [(id, ⟨some hashId, ⟨change, some length⟩⟩)]⟩
    else
      return { a with
        counters := { counters with contentMissing := counters.contentMissing + 1 }
        newEntries := a.newEntries ++ [(id, ⟨some hashId, ⟨change, none⟩⟩)] }

def prepare (ids : Ids) (oldEntries : Dict String SealedEntry) (held : String → Option SealedBlob)
    (a : Prepared) (changes : List VerifiedChange) : Except SealedError Prepared :=
  changes.foldlM (prepareChange ids oldEntries held) a

def promote (signedPromotion : Option GrantRecord) (state : Live) : Live :=
  match signedPromotion with
  | none => state
  | some signed =>
    if state.pendingGrant.any (·.cid == signed.cid) then { state with grant := state.pendingGrant, pendingGrant := none }
    else if state.grant.any (·.cid == signed.cid) then state
    else { state with grant := some signed }

/-- The state after a page. -/
def advance (page : VerifiedPage) (state : Live) : Live :=
  let state := { state with cursor := page.cursor, coverage := page.coverage, serial := state.serial + 1 }
  let state := match page.authority with
    | none => state
    | some window =>
      let retainUntil := if state.retentionGrantCid = page.retentionGrantCid then window.retainUntil
        else state.authority.bind AuthorityWindow.retainUntil
      { state with
        nodeDid := some page.source.nodeDid
        attested := true
        notBefore := window.notBefore
        expiresAt := window.expiresAt
        retainUntil := retainUntil
        retentionRevoked := if retainUntil.isSome then none else state.retentionRevoked }
  promote page.promoteGrant state

/-- The checks of a page in the transaction that stores it. -/
def pageChecks (h : Handle) (state : Live) (token : LeaseToken) (deadlines : Deadlines) (grantDeadline : Option ℕ)
    (window : CommitWindow) (now : ℕ) : Except SealedError Unit := do
  fence h state token now
  throwIf (decide (deadlines.consent ≤ now)) .consentExpired
  throwIf (grantDeadline.all (· ≤ now)) .grantExpired
  throwIf (window.notBefore.any (now < ·)) .grantNotYetValid
  throwIf (window.expiresAt.any (· ≤ now)) .grantExpired

def applyPageAttempt (ids : Ids) (h : Handle) (token : LeaseToken) (page : VerifiedPage) : Call (Option Unit) := do
  let row ← snapshot
  let state ← check (live h row)
  check (fence h state token (← perform .now))
  let deadlines ← perform .policyView
  let servingCid := (page.promoteGrant <|> state.grant).map GrantRecord.cid
  let grantDeadline := servingCid.bind deadlines.grant
  let changes := latest page.changes
  let held := heldIds ids page changes
  let (oldEntries, oldBlobs) ← perform .getRows
  let blobs ← check (newBlobs ids page.blobs)
  let available := putAll .empty (blobs.map fun (id, blob) => (id, blob.bytes.size))
  let prepared ← check (prepare ids oldEntries (fun id => if id ∈ held then oldBlobs.get? id else none)
    ⟨(row.map SealedMeta.counters).getD ⟨0, 0, 0, 0⟩, available, []⟩ changes)
  let next := sealedMeta (advance page state) row (some prepared.counters)
  let committed ← commit row (pageChecks h (advance page state) token deadlines grantDeadline page.window)
    (.applyPage next blobs prepared.newEntries)
  return if committed then some () else none

def applyPage (ids : Ids) (h : Handle) (token : LeaseToken) (page : VerifiedPage) : Call Unit :=
  withAttempts (applyPageAttempt ids h token page) maxCasAttempts

end ApplyPage

section EraseRows

def fenceIf (h : Handle) (state : Live) (token : Option LeaseToken) (now : ℕ) : Except SealedError Unit :=
  match token with
  | none => .ok ()
  | some token => fence h state token now

/-- Without a lease there may be nothing to erase. -/
def eraseRowsAttempt (h : Handle) (change : Live → Live) (token : Option LeaseToken) : Call (Option Unit) := do
  let row ← snapshot
  if (row.bind SealedMeta.state).isNone && token.isNone then return some ()
  else
    let state ← check (live h row)
    check (fenceIf h state token (← perform .now))
    let next := sealedMeta (change state) row (some ⟨0, 0, 0, 0⟩)
    let committed ← commit row (fenceIf h (change state) token) (.eraseRows next)
    return if committed then some () else none

def eraseRows (h : Handle) (change : Live → Live) (token : Option LeaseToken) : Call Unit :=
  withAttempts (eraseRowsAttempt h change token) maxCasAttempts

def reset (h : Handle) (token : LeaseToken) (keepSource : Bool) : Call Unit :=
  eraseRows h (fun state => { state with
    cursor := none
    nodeDid := if keepSource then state.nodeDid else none
    coverage := .empty
    generation := state.generation + 1 }) (some token)

def markRevoked (h : Handle) (detail : String) : Call Unit :=
  eraseRows h (fun state => { state with
    cursor := none
    coverage := .empty
    writerEpoch := state.writerEpoch + 1
    writerHolder := none
    leaseToken := state.leaseToken + 1
    leaseHolder := none
    leaseExpiresAt := none
    revokedDetail := some detail
    purgePending := false }) none

end EraseRows

section CollectGarbage

/-- The opaque ids of the contents that live entries hold. -/
def keep (entries : Dict String SealedEntry) : List String :=
  entries.values.filterMap fun e => if e.row.entry.hasContent then e.hashId else none

def collectGarbageAttempt (h : Handle) (token : LeaseToken) : Call (Option ℕ) := do
  let row ← snapshot
  let state ← check (live h row)
  check (fence h state token (← perform .now))
  let (entries, blobs) ← perform .getRows
  let remove := blobs.keys.filter fun id => decide (id ∉ keep entries)
  if remove = [] then return some 0
  else
    let committed ← commit row (fence h state token) (.collectGarbage (sealedMeta state row none) remove)
    return if committed then some remove.length else none

def collectGarbage (h : Handle) (token : LeaseToken) : Call ℕ :=
  withAttempts (collectGarbageAttempt h token) maxCasAttempts

end CollectGarbage

section System

/-- A purge in one transaction: the rows go, and the metadata becomes a tombstone unless it is one. -/
def erasePartition (s : Partition) : Partition :=
  match s.metaRow with
  | none => { s with entries := .empty, blobs := .empty }
  | some old => match old.state with
    | none => s
    | some _ => ⟨some ⟨old.revision + 1, old.generation + 1, .empty, 0, ⟨0, 0, 0, 0⟩, none⟩, .empty, .empty⟩

inductive Request
  | commitMeta (w : MetaWrite)
  | applyPage (token : LeaseToken) (page : VerifiedPage)
  | reset (token : LeaseToken) (keepSource : Bool)
  | markRevoked (detail : String)
  | collectGarbage (token : LeaseToken)

def discard {α : Type} (call : Call α) : Prog Op Op.Res Unit := Prog.bind call.run fun _ => .pure ()

def program (ids : Ids) (h : Handle) : Request → Prog Op Op.Res Unit
  | .commitMeta w => discard (commitMeta h w)
  | .applyPage token page => discard (applyPage ids h token page)
  | .reset token keepSource => discard (reset h token keepSource)
  | .markRevoked detail => discard (markRevoked h detail)
  | .collectGarbage token => discard (collectGarbage h token)

structure System where
  partition : Partition
  calls : ℕ → Option (Prog Op Op.Res Unit)

inductive Action
  | start (x : ℕ) (h : Handle) (request : Request)
  | run (x : ℕ) (c : Choice)
  | crash (x : ℕ)
  | purge

/-- Any number of calls are under way, and each takes one transaction at a time. -/
def step (ids : Ids) (s : System) : Action → Option System
  | .start x h request => match s.calls x with
    | some (.op _ _) => none
    | _ => some { s with calls := Function.update s.calls x (some (program ids h request)) }
  | .run x c => match s.calls x with
    | some (.op o next) =>
      let (r, t) := runOp c s.partition o
      some { partition := t, calls := Function.update s.calls x (some (next r)) }
    | _ => none
  | .crash x => some { s with calls := Function.update s.calls x none }
  | .purge => some { s with partition := erasePartition s.partition }

def machine (ids : Ids) : Machine System Action where
  initial s := s = ⟨⟨none, .empty, .empty⟩, fun _ => none⟩
  step := step ids

end System

end TinyCloud.Sealed
