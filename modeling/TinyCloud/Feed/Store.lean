import TinyCloud.Feed.Records
import TinyCloud.Runs.Interleaved

/-!
# The functions over a feed

Every query, statement and batch is one operation on the tables. Any of them can fail, and one that writes can fail
although its write was committed.
-/

namespace TinyCloud.Feed

open TinyCloud.Runs

inductive FeedError
  /-- What the database answered. -/
  | database
  | invalidInput (message : String)
  /-- `responseDataFailure`. -/
  | responseData (message : String)
  | aborted
  deriving DecidableEq, Repr

section Restored

structure FeedRestoreResponse (J : Type) where
  response : FeedHeader
  payload : Option (FeedResponsePayload J)
  origin : FeedRestoreOrigin
  deliveries : List FeedRestoreDeliveryPolicy
  deriving DecidableEq, Repr

structure FeedRestoreRecords (J : Type) where
  cards : List (FeedCard J)
  responses : List (FeedRestoreResponse J)
  deriving DecidableEq, Repr

structure RestoreMetadata where
  marker : Option ImportMarker
  origins : List FeedRestoreOrigin
  policies : List FeedRestoreDeliveryPolicy
  deriving DecidableEq, Repr

/-- A response of a page, and when its policies were judged. -/
structure Delivery where
  response : FeedResponse
  judgedAt : ℤ
  deriving DecidableEq, Repr

structure FeedResponseDeliveryPage where
  responses : List Delivery
  nextSequence : ℕ
  hasMore : Bool
  deriving DecidableEq, Repr

end Restored

/-- A call that returned ok, with what it was called with. A page comes with the tables its policies were read from. -/
inductive FeedReport (J : Type)
  | card (card : FeedCard J)
  | response (header : FeedHeader) (payload : Option (FeedResponsePayload J)) (stored : FeedResponse)
  | handling (handling : FeedHandling J)
  | restored (records : FeedRestoreRecords J)
  | page (recipient : String) (afterSequence : ℕ) (evidence : FeedTables J) (page : FeedResponseDeliveryPage)
  deriving DecidableEq

section Program

variable (J : Type)

inductive FeedOp
  | insertCard (card : FeedCard J)
  | selectCard (i : FeedCardIdentity)
  | selectHandlings (responseId : String)
  | insertHandling (handling : FeedHandling J)
  | selectHandling (handlingId : String)
  | selectHeader (responseId : String)
  | selectResponse (responseId : String)
  | insertResponse (header : FeedHeader) (payload : Option (FeedResponsePayload J))
  | selectPage (after limit : ℕ)
  | selectMetadata
  | restore (hash : String) (group : RestoreGroup J)
  | signal
  | now
  | report (r : FeedReport J)

/-- The metadata of a response is selected from all tables at one time. -/
def FeedOp.Res : FeedOp J → Type
  | .insertCard _ => Unit
  | .selectCard _ => Option (FeedCard J)
  | .selectHandlings _ => List (FeedHandling J)
  | .insertHandling _ => Unit
  | .selectHandling _ => Option (FeedHandling J)
  | .selectHeader _ => Option (ℕ × FeedHeader)
  | .selectResponse _ => Option (StoredResponse J)
  | .insertResponse _ _ => Unit
  | .selectPage _ _ => List (StoredResponse J)
  | .selectMetadata => FeedTables J
  | .restore _ _ => Unit
  | .signal => Bool
  | .now => ℤ
  | .report _ => Unit

abbrev FeedCode := Code FeedError (FeedOp J) (FeedOp.Res J)

variable {J} [DecidableEq J]

def ask (e : FeedError) (o : FeedOp J) : FeedCode J (o.Res J) := perform e o

def refuse {α : Type} (message : String) : FeedCode J α := throw (.invalidInput message)

def storeFeedCard (card : FeedCard J) : FeedCode J (FeedCard J) := do
  if !validIdentity card.identity then
    refuse "A card requires its full ID, positive revision and issuance ID"
  else
    let _ ← ask .database (.insertCard card)
    match ← ask .database (.selectCard card.identity) with
    | none => refuse "A published card identity cannot be silently changed"
    | some stored =>
      if stored ≠ card then refuse "A published card identity cannot be silently changed" else pure stored

/-- The checks on a response that is not a message. -/
def checkActionable (header : FeedHeader) (card : FeedCard J) : FeedCode J Unit := do
  if header.kind = .message then pure ()
  else if !card.needsResponse then
    refuse "The response does not identify a published actionable card issuance"
  else if header.choiceId.any fun id => !card.choices.any (·.any (·.id = id)) then
    refuse "The response choice is not part of this card issuance"
  else match header.supersedesResponseId with
    | none => pure ()
    | some previous =>
      let row ← ask (.responseData "Could not verify the corrected response") (.selectHeader previous)
      if (row : Option (ℕ × FeedHeader)).all (·.2.identity ≠ header.identity) then
        refuse "A correction must reference a response to the same card issuance"
      else pure ()

variable (T : Timestamps)

def matchStored (header : FeedHeader) (payload : Option (FeedResponsePayload J)) (stored : StoredResponse J) :
    FeedCode J FeedResponse :=
  if stored.response.header = header ∧ stored.payload = payload then
    pure (projectFeedResponseNotification T stored.response)
  else refuse "A response ID cannot be reused for different header or private payload content"

/-- The write of a response, and what is saved then. -/
def saveResponse (header : FeedHeader) (payload : Option (FeedResponsePayload J)) : FeedCode J FeedResponse := do
  let failure := .responseData "Could not save the feed response and private payload"
  let failed ← tryCatch (do let _ ← ask .database (.insertResponse header payload); pure false) fun _ => pure true
  match ← ask (if failed then failure else .responseData "Could not read the saved feed response")
      (.selectResponse header.responseId) with
  | none => throw failure
  | some committed => matchStored T header payload committed

def appendResponse (header : FeedHeader) (payload : Option (FeedResponsePayload J)) : FeedCode J FeedResponse := do
  if payload.any fun p => !p.parses then refuse "Invalid private feed response payload"
  else
    match ← ask (.responseData "Could not verify the response card issuance") (.selectCard header.identity) with
    | none => refuse "The response does not identify a published card issuance"
    | some card =>
      if card.identity ≠ header.identity then
        refuse "The response does not identify a published card issuance"
      else
        checkActionable header card
        match ← ask (.responseData "Could not read the saved feed response") (.selectResponse header.responseId) with
        | some existing => matchStored T header payload existing
        | none => saveResponse T header payload

def appendFeedResponse (header : FeedHeader) (payload : Option (FeedResponsePayload J)) : FeedCode J FeedResponse :=
  if !header.isResponse then refuse "Invalid feed response header" else appendResponse T header payload

def appendFeedMessage (header : FeedHeader) (payload : Option (FeedResponsePayload J)) : FeedCode J FeedResponse :=
  if !header.isMessage then refuse "Invalid feed message header" else appendResponse T header payload

/-- The write of a handling, and what is stored then. -/
def saveHandling (h : FeedHandling J) : FeedCode J (FeedHandling J) := do
  let _ ← ask .database (.insertHandling h)
  match ← ask .database (.selectHandling h.handlingId) with
  | none => refuse "Handling conflicts with an existing outcome or response issuance"
  | some stored => if stored = h then pure stored else refuse "A handling ID cannot change content"

def recordFeedHandling (h : FeedHandling J) : FeedCode J (FeedHandling J) := do
  if !validIdentity h.identity || h.handlingId == "" || h.responseId == "" then
    refuse "Handling requires full response and card identities and a known phase"
  else
    let previous ← ask .database (.selectHandlings h.responseId)
    if (previous : List (FeedHandling J)).any (·.identity ≠ h.identity) then
      refuse "Handling cannot move a response to another card issuance"
    else match (previous : List (FeedHandling J)).find? (·.handlingId = h.handlingId) with
      | some duplicate => if duplicate = h then pure duplicate else refuse "A handling ID cannot change content"
      | none =>
        if (previous : List (FeedHandling J)).any (·.phase ≠ .acknowledged) ∧ h.phase ≠ .acknowledged then
          refuse "An existing outcome requires an explicit follow-up response, not a replacement"
        else saveHandling h

end Program

section Restore

variable {J : Type} [DecidableEq J] (T : Timestamps) (contentSha256 : RestoreContent J → String)

/-- What an error that is thrown becomes. -/
def unverified : FeedError := .responseData "Could not validate or restore generic feed records"

/-- `feedCardSchema`, as far as the fields are modelled. -/
def FeedCard.parses (card : FeedCard J) : Bool :=
  card.identity.parses && card.choices.all (·.all (·.id != ""))

/-- `Map.set` of a policy under its text. -/
def addPolicy (source : FeedRestoreOrigin) (policies : List FeedRestoreDeliveryPolicy)
    (p : FeedRestoreDeliveryPolicy) : Except FeedError (List FeedRestoreDeliveryPolicy) :=
  if p.recipient = "*" ∨ p.source ≠ source then .error unverified
  else .ok (if p ∈ policies then policies else policies ++ [p])

/-- The evidence of an origin, which is added where it is new. -/
def addEvidence (record : FeedRestoreResponse J) :
    List RestoreOriginEvidence → Except FeedError (List RestoreOriginEvidence)
  | [] => do
    let policies ← record.deliveries.foldlM (addPolicy record.origin) []
    pure [⟨record.origin, policies⟩]
  | e :: rest =>
    if e.origin = record.origin then do
      let policies ← record.deliveries.foldlM (addPolicy record.origin) e.policies
      pure (⟨e.origin, policies⟩ :: rest)
    else do
      let rest ← addEvidence record rest
      pure (e :: rest)

/-- The group of a response, which is added where its ID is new. -/
def addRecord (record : FeedRestoreResponse J) : List (RestoreGroup J) → Except FeedError (List (RestoreGroup J))
  | [] => do
    let origins ← addEvidence record []
    pure [⟨⟨record.response, record.payload⟩, origins⟩]
  | group :: rest =>
    if group.content.id = record.response.responseId then do
      if group.content ≠ ⟨record.response, record.payload⟩ then throw unverified
      else if group.first.any fun source => !sameOriginBinding source record.origin then throw unverified
      else
        let origins ← addEvidence record group.origins
        pure ({ group with origins := origins } :: rest)
    else do
      let rest ← addRecord record rest
      pure (group :: rest)

def FeedRestoreResponse.parses (record : FeedRestoreResponse J) : Bool :=
  record.response.parses && record.payload.all (·.parses) && record.origin.parses &&
    record.deliveries.all (·.parses T)

def groupRecords (records : List (FeedRestoreResponse J)) : Except FeedError (List (RestoreGroup J)) :=
  if records.all (·.parses T) then records.foldlM (fun groups record => addRecord record groups) []
  else .error unverified

def metadataOf (db : FeedTables J) (responseId : String) : RestoreMetadata where
  marker := (db.imports.find? (·.1 = responseId)).map Prod.snd
  origins := (db.origins.filter (·.1 = responseId)).map Prod.snd
  policies := (db.policies.filter (·.1 = responseId)).map Prod.snd

/-- `false` is for live data without any metadata; metadata that does not hold together is an error. -/
def verifyRestoreMetadata (m : RestoreMetadata) (identity : FeedCardIdentity) (hash : Option String) : Option Bool :=
  match m.marker with
  | none => if m.origins.isEmpty && m.policies.isEmpty then some false else none
  | some marker =>
    if marker.identity = identity ∧ hash.all (marker.contentSha256 = ·) ∧ !m.origins.isEmpty ∧
        m.origins.Pairwise (fun a b => sameOriginBinding a b) ∧
        (∀ p ∈ m.policies, p.source ∈ m.origins ∧ (p.recipient = "*" → p = baselinePolicy p.source)) ∧
        ∀ source ∈ m.origins, baselinePolicy source ∈ m.policies then some true
    else none

def checked {α : Type} (e : FeedError) : Option α → FeedCode J α
  | some a => pure a
  | none => throw e

def stopIfAborted (stop : FeedError) : FeedCode J Unit := do
  match (← ask .database .signal : Bool) with
  | true => throw stop
  | false => pure ()

def validMarker (m : ImportMarker) : Bool :=
  validIdentity m.identity && m.contentSha256.length == 64 &&
    m.contentSha256.toList.all fun c => ('0' ≤ c && c ≤ '9') || ('a' ≤ c && c ≤ 'f')

def RestoreMetadata.wellFormed (m : RestoreMetadata) : Bool :=
  m.marker.all validMarker && m.origins.all (·.parses) && m.policies.all (·.parses T)

/-- The tables at one time, where the metadata of the responses is well formed. -/
def readRestoreMetadata (stop : FeedError) (responseIds : List String) : FeedCode J (FeedTables J) := do
  stopIfAborted stop
  let db ← ask (.responseData "Could not read feed restore policy metadata") .selectMetadata
  stopIfAborted stop
  if responseIds.all fun id => (metadataOf db id).wellFormed T then pure db
  else throw (.responseData "Could not verify feed restore policy metadata")

/-- A response that is saved is left to the batch only where it was restored with the same content and source. -/
def checkPrevious (group : RestoreGroup J) (hash : String) (previous : Option (StoredResponse J))
    (before : RestoreMetadata) : FeedCode J Unit := do
  match previous with
  | some stored =>
    if !(← checked unverified (verifyRestoreMetadata before group.content.response.identity (some hash))) then
      refuse "A live response ID cannot be restored or reclassified"
    else if stored.response.header ≠ group.content.response ∨ stored.payload ≠ group.content.payload then
      refuse "A restored response ID cannot change header or private payload"
    else if before.origins.head?.any fun known =>
        group.origins.any fun e => !sameOriginBinding known e.origin then
      refuse "A restored response cannot alias its source binding"
    else pure ()
  | none =>
    if before.marker.isSome || !before.origins.isEmpty || !before.policies.isEmpty then
      refuse "Orphan restore metadata cannot authorize a new header"
    else pure ()

/-- What is stored after the batch must be the group. -/
def checkRestored (group : RestoreGroup J) (hash : String) (failed : Bool) (stored : StoredResponse J)
    (actual : RestoreMetadata) : FeedCode J Unit := do
  let verified ← checked unverified (verifyRestoreMetadata actual group.content.response.identity (some hash))
  if !verified || stored.response.header ≠ group.content.response || stored.payload ≠ group.content.payload then
    refuse "Restore conflicts with an existing live or different response"
  else if group.origins.any fun e =>
      !(actual.origins.contains e.origin && actual.policies.contains (baselinePolicy e.origin)) then
    if failed then throw (.responseData "Could not restore atomic provenance and default policy")
    else refuse "Restore source binding conflicts with existing provenance"
  else if group.origins.any fun e => e.policies.any fun p => !actual.policies.contains p then
    throw (.responseData "Could not retain requested immutable delivery evidence")
  else pure ()

/-- The batch of a restore, and what is stored then. -/
def saveGroup (group : RestoreGroup J) (hash : String) : FeedCode J Unit := do
  let failure := .responseData "Could not restore response and atomic import policy"
  let failed ← tryCatch (do let _ ← ask .database (.restore hash group); pure false) fun _ => pure true
  let stop := if failed then failure else .aborted
  stopIfAborted stop
  let stored ← ask (.responseData "Could not read the saved feed response") (.selectResponse group.content.id)
  let actual ← readRestoreMetadata T stop [group.content.id]
  match (stored : Option (StoredResponse J)) with
  | none => throw failure
  | some stored =>
    checkRestored group hash failed stored (metadataOf actual group.content.id)
    stopIfAborted stop

def restoreGroup (group : RestoreGroup J) : FeedCode J Unit := do
  let response := group.content.response
  let card ← ask (.responseData "Could not verify a restored response card issuance") (.selectCard response.identity)
  stopIfAborted .aborted
  if (card : Option (FeedCard J)).all (·.identity ≠ response.identity) then
    refuse "Restored response requires a published full card issuance"
  else
    let hash := contentSha256 group.content
    stopIfAborted .aborted
    let previous ← ask (.responseData "Could not read the saved feed response") (.selectResponse group.content.id)
    let before ← readRestoreMetadata T .aborted [group.content.id]
    checkPrevious group hash previous (metadataOf before group.content.id)
    stopIfAborted .aborted
    saveGroup T group hash

def restoreCards : List (FeedCard J) → FeedCode J Unit
  | [] => pure ()
  | card :: rest => do
    stopIfAborted .aborted
    let _ ← tryCatch (storeFeedCard card) fun _ => throw (.responseData "Could not publish a restored card")
    restoreCards rest

def restoreGroups : List (RestoreGroup J) → FeedCode J Unit
  | [] => pure ()
  | group :: rest => do
    stopIfAborted .aborted
    restoreGroup T contentSha256 group
    restoreGroups rest

def restoreFeedRecords (records : FeedRestoreRecords J) : FeedCode J Unit := do
  stopIfAborted .aborted
  if !records.cards.all (·.parses) then throw unverified
  else match groupRecords T records.responses with
    | .error e => throw e
    | .ok groups =>
      restoreCards records.cards
      restoreGroups T contentSha256 groups
      stopIfAborted .aborted

end Restore

section Delivery

variable {J : Type} [DecidableEq J] (T : Timestamps) (contentSha256 : RestoreContent J → String)

/-- The policies of a recipient about an origin. -/
def evidenceFor (m : RestoreMetadata) (recipient : String) (source : FeedRestoreOrigin) :
    List FeedRestoreDeliveryPolicy :=
  m.policies.filter fun p => p.recipient = recipient ∧ p.source = source

/-- The cutoff that all policies have in common, where every origin permits the delivery at the time `now`. -/
def permittedDeadline (m : RestoreMetadata) (recipient : String) (now : ℤ) : Option (Option String) :=
  if m.origins.any fun source => (evidenceFor m recipient source).isEmpty then none
  else
    let rows := m.origins.flatMap (evidenceFor m recipient)
    match rows with
    | [] => none
    | first :: _ =>
      if rows.all fun p => p.state = .pending ∧ p.dispatch = .resolvedPending ∧ p.resolvedOwnerMapping ∧
          p.dispatchBefore = first.dispatchBefore ∧ p.dispatchBefore.all (now < T.parse ·) then
        some first.dispatchBefore
      else none

/-- The sequences of a page grow, and its responses differ. -/
def pageInOrder (after : ℕ) : List (StoredResponse J) → Bool
  | [] => true
  | row :: rest => decide (after < row.response.sequence) &&
      rest.all (·.response.header.responseId ≠ row.response.header.responseId) && pageInOrder row.response.sequence rest

def undelivered : FeedError := .responseData "Could not verify feed response delivery policy"

/-- What a page has for the recipient, row by row. -/
def deliveriesOf (recipient : String) (evidence : FeedTables J) : List (StoredResponse J) → FeedCode J (List Delivery)
  | [] => pure []
  | row :: rest => do
    let response := row.response
    let m := metadataOf evidence response.header.responseId
    let now ← ask .database .now
    if !(← checked undelivered (verifyRestoreMetadata m response.header.identity none)) then
      let more ← deliveriesOf recipient evidence rest
      pure (⟨projectFeedResponseNotification T response, now⟩ :: more)
    else
      stopIfAborted .aborted
      let hash := contentSha256 ⟨response.header, row.payload⟩
      let _ ← checked undelivered (verifyRestoreMetadata m response.header.identity (some hash))
      let more ← deliveriesOf recipient evidence rest
      match permittedDeadline T m recipient now with
      | none => pure more
      | some cutoff =>
        pure (⟨projectFeedResponseNotification T { response with dispatchBefore := some cutoff }, now⟩ :: more)

/-- The page of the deliveries, with the tables that its metadata was read from. -/
def listFeedResponseDeliveries (recipient : String) (afterSequence limit : ℕ) :
    FeedCode J (FeedTables J × FeedResponseDeliveryPage) := do
  if recipient == "" || recipient == "*" || decide (2 ^ 53 ≤ afterSequence) || limit == 0 || decide (1000 < limit) then
    refuse "Delivery pages require an exact recipient and valid sequence pagination"
  else
    stopIfAborted .aborted
    let found ← ask (.responseData "Could not read feed response delivery headers")
      (.selectPage afterSequence (limit + 1))
    stopIfAborted .aborted
    let rows := (found : List (StoredResponse J)).take limit
    if !pageInOrder afterSequence rows then throw undelivered
    else
      let evidence ← readRestoreMetadata T .aborted (rows.map (·.response.header.responseId))
      let deliveries ← deliveriesOf T contentSha256 recipient evidence rows
      stopIfAborted .aborted
      pure (evidence, {
        responses := deliveries
        nextSequence := (rows.map (·.response.sequence)).getLastD afterSequence
        hasMore := decide (limit < (found : List (StoredResponse J)).length) })

end Delivery

end TinyCloud.Feed
