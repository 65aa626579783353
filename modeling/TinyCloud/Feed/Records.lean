import Mathlib.Algebra.Group.Int.Defs
import Mathlib.Algebra.Group.Nat.Defs
import Mathlib.Data.Int.Notation
import Mathlib.Data.Nat.Notation
import Mathlib.Data.Option.Basic

/-!
# The records of a feed and their tables

Cards and handlings are in the output database, responses, their private payloads and what a restore left beside them
in the response database. A record stands for the JSON text that `feedJson` makes of it: two texts are equal when the
records are. What no function looks into is JSON of a type `J`.
-/

namespace TinyCloud.Feed

section Records

structure FeedCardIdentity where
  cardId : String
  revision : ℤ
  issuanceId : String
  deriving DecidableEq, Repr

structure FeedChoice where
  id : String
  label : String
  deriving DecidableEq, Repr

structure FeedCard (J : Type) where
  identity : FeedCardIdentity
  needsResponse : Bool
  choices : Option (List FeedChoice)
  content : J
  deriving DecidableEq, Repr

inductive ResponseKind
  | answer
  | followup
  | message
  deriving DecidableEq, Repr

/-- `NewFeedResponse` and `NewFeedMessage`. -/
structure FeedHeader where
  identity : FeedCardIdentity
  responseId : String
  kind : ResponseKind
  choiceId : Option String
  text : Option String
  supersedesResponseId : Option String
  createdAt : String
  deriving DecidableEq, Repr

structure FeedResponsePayload (J : Type) where
  type : String
  version : ℤ
  data : J
  deriving DecidableEq, Repr

inductive HandlingPhase
  | acknowledged
  | succeeded
  | failed
  deriving DecidableEq, Repr

structure FeedHandling (J : Type) where
  identity : FeedCardIdentity
  handlingId : String
  responseId : String
  phase : HandlingPhase
  createdAt : String
  detail : Option J
  deriving DecidableEq, Repr

structure FeedRestoreOrigin where
  sourceSpaceId : String
  space : String
  snapshotId : String
  sourceKey : String
  eventKey : Option String
  deriving DecidableEq, Repr

inductive DeliveryState
  | pending
  | held
  | delivered
  | unconfirmed
  | refused
  | unknown
  deriving DecidableEq, Repr

inductive PolicyDispatch
  | never
  | resolvedPending
  | held
  deriving DecidableEq, Repr

structure FeedRestoreDeliveryPolicy where
  recipient : String
  state : DeliveryState
  dispatch : PolicyDispatch
  resolvedOwnerMapping : Bool
  dispatchBefore : Option String
  source : FeedRestoreOrigin
  deriving DecidableEq, Repr

/-- A saved response; `dispatchBefore` is absent where nothing was restored. -/
structure FeedResponse where
  header : FeedHeader
  sequence : ℕ
  payloadType : Option String
  payloadVersion : Option ℤ
  dispatchBefore : Option (Option String)
  deriving DecidableEq, Repr

end Records

section Validity

/-- How the platform reads times: what the schema of a timestamp accepts, and `Date.parse`. -/
structure Timestamps where
  accepts : String → Bool
  parse : String → ℤ

def validIdentity (i : FeedCardIdentity) : Bool :=
  i.cardId != "" && decide (0 < i.revision ∧ i.revision < 2 ^ 53) && i.issuanceId != ""

/-- The identity fields of a schema, where a revision is any positive integer. -/
def FeedCardIdentity.parses (i : FeedCardIdentity) : Bool :=
  i.cardId != "" && decide (0 < i.revision) && i.issuanceId != ""

/-- `newFeedResponseSchema`. -/
def FeedHeader.isResponse (h : FeedHeader) : Bool :=
  h.identity.parses && h.responseId != "" && h.kind != .message && h.choiceId != some "" &&
    h.supersedesResponseId != some "" && h.createdAt != ""

/-- `newFeedMessageSchema`, which refuses every other key. -/
def FeedHeader.isMessage (h : FeedHeader) : Bool :=
  h.identity.parses && h.responseId != "" && h.kind == .message && h.choiceId.isNone && h.text.isSome &&
    h.supersedesResponseId.isNone && h.createdAt != ""

def FeedHeader.parses (h : FeedHeader) : Bool := h.isResponse || h.isMessage

def FeedResponsePayload.parses {J : Type} (p : FeedResponsePayload J) : Bool :=
  p.type != "" && decide (0 < p.version)

def FeedRestoreOrigin.parses (o : FeedRestoreOrigin) : Bool :=
  o.sourceSpaceId != "" && o.space != "" && o.snapshotId != "" && o.sourceKey != "" && o.eventKey != some ""

def validDispatchBefore (T : Timestamps) (cutoff : Option String) : Bool := cutoff.all T.accepts

def FeedRestoreDeliveryPolicy.parses (T : Timestamps) (p : FeedRestoreDeliveryPolicy) : Bool :=
  p.recipient != "" && validDispatchBefore T p.dispatchBefore && p.source.parses

def sameOriginBinding (a b : FeedRestoreOrigin) : Bool :=
  a.sourceSpaceId == b.sourceSpaceId && a.space == b.space && a.sourceKey == b.sourceKey && a.eventKey == b.eventKey

def baselinePolicy (source : FeedRestoreOrigin) : FeedRestoreDeliveryPolicy where
  recipient := "*"
  state := .unknown
  dispatch := .never
  resolvedOwnerMapping := false
  dispatchBefore := none
  source := source

def projectFeedResponseNotification (T : Timestamps) (r : FeedResponse) : FeedResponse where
  header := if r.header.kind = .message then { r.header with choiceId := none, supersedesResponseId := none }
    else r.header
  sequence := r.sequence
  payloadType := r.payloadType
  payloadVersion := r.payloadVersion
  dispatchBefore := r.dispatchBefore.filter (validDispatchBefore T)

end Validity

section Tables

structure ImportMarker where
  identity : FeedCardIdentity
  contentSha256 : String
  deriving DecidableEq, Repr

/-- The rows of both databases. A row of a response is its sequence and its header; the other rows of a response are
under its ID. -/
structure FeedTables (J : Type) where
  cards : List (FeedCard J)
  handlings : List (FeedHandling J)
  responses : List (ℕ × FeedHeader)
  payloads : List (String × FeedResponsePayload J)
  imports : List (String × ImportMarker)
  origins : List (String × FeedRestoreOrigin)
  policies : List (String × FeedRestoreDeliveryPolicy)
  deriving DecidableEq, Repr

structure RestoreContent (J : Type) where
  response : FeedHeader
  payload : Option (FeedResponsePayload J)
  deriving DecidableEq, Repr

structure RestoreOriginEvidence where
  origin : FeedRestoreOrigin
  policies : List FeedRestoreDeliveryPolicy
  deriving DecidableEq, Repr

structure RestoreGroup (J : Type) where
  content : RestoreContent J
  origins : List RestoreOriginEvidence
  deriving DecidableEq, Repr

/-- A saved response as `storedResponse` reads it. -/
structure StoredResponse (J : Type) where
  response : FeedResponse
  payload : Option (FeedResponsePayload J)
  deriving DecidableEq, Repr

variable {J : Type} [DecidableEq J]

namespace FeedTables

variable (db : FeedTables J)

def selectCard (i : FeedCardIdentity) : Option (FeedCard J) := db.cards.find? (·.identity = i)

def selectHandlings (responseId : String) : List (FeedHandling J) := db.handlings.filter (·.responseId = responseId)

def selectHandling (handlingId : String) : Option (FeedHandling J) := db.handlings.find? (·.handlingId = handlingId)

def selectHeader (responseId : String) : Option (ℕ × FeedHeader) := db.responses.find? (·.2.responseId = responseId)

def payload (responseId : String) : Option (FeedResponsePayload J) :=
  (db.payloads.find? (·.1 = responseId)).map Prod.snd

def storedRow (row : ℕ × FeedHeader) : StoredResponse J where
  response :=
    { header := row.2, sequence := row.1, payloadType := (db.payload row.2.responseId).map (·.type)
      payloadVersion := (db.payload row.2.responseId).map (·.version), dispatchBefore := none }
  payload := db.payload row.2.responseId

def selectResponse (responseId : String) : Option (StoredResponse J) := (db.selectHeader responseId).map db.storedRow

/-- The check on the column refuses a revision that is not positive. -/
def insertCard (card : FeedCard J) : Option (FeedTables J) :=
  if card.identity.revision ≤ 0 then none
  else if db.cards.any (·.identity = card.identity) then some db
  else some { db with cards := db.cards ++ [card] }

/-- The insert runs only where no handling of the response names another issuance and, for an outcome, no outcome is
recorded. -/
def insertHandling (h : FeedHandling J) : FeedTables J :=
  if (db.selectHandlings h.responseId).any (·.identity ≠ h.identity) then db
  else if h.phase ≠ .acknowledged ∧ (db.selectHandlings h.responseId).any (·.phase ≠ .acknowledged) then db
  else if db.handlings.any (·.handlingId = h.handlingId) then db
  else { db with handlings := db.handlings ++ [h] }

/-- A sequence is greater than every earlier one. -/
def fresh (sequence : ℕ) : Bool := db.responses.all (·.1 < sequence)

/-- The header and its payload in one batch; a row that exists aborts it. -/
def insertResponse (sequence : ℕ) (header : FeedHeader) (payload : Option (FeedResponsePayload J)) :
    Option (FeedTables J) :=
  if (db.selectHeader header.responseId).isSome then none
  else match payload with
    | none => some { db with responses := db.responses ++ [(sequence, header)] }
    | some p =>
      if (db.payload header.responseId).isSome then none
      else some { db with
        responses := db.responses ++ [(sequence, header)], payloads := db.payloads ++ [(header.responseId, p)] }

end FeedTables

end Tables

section Restore

variable {J : Type} [DecidableEq J] (db : FeedTables J) (content : RestoreContent J) (hash : String)

def RestoreContent.id : String := content.response.responseId

def markerGuard : Bool := db.imports.contains (content.id, ⟨content.response.identity, hash⟩)

def bindingGuard (responseId : String) (source : FeedRestoreOrigin) : Bool :=
  db.origins.all fun row => row.1 != responseId || sameOriginBinding row.2 source

def headerGuard : Bool := db.responses.any (·.2 = content.response)

def payloadGuard : Bool :=
  match content.payload with
  | none => (db.payload content.id).isNone
  | some p => db.payloads.contains (content.id, p)

/-- The origin that the guards of a batch are built from. -/
def RestoreGroup.first (group : RestoreGroup J) : Option FeedRestoreOrigin := group.origins.head?.map (·.origin)

def claimGuard (first : Option FeedRestoreOrigin) : Bool :=
  markerGuard db content hash && first.all (bindingGuard db content.id)

def completeGuard (first : Option FeedRestoreOrigin) : Bool :=
  claimGuard db content hash first && headerGuard db content && payloadGuard db content

/-- One statement of the batch of a restore. -/
inductive RestoreStatement
  | marker
  | header (sequence : ℕ)
  | payload
  | origin (source : FeedRestoreOrigin)
  | policy (source : FeedRestoreOrigin) (p : FeedRestoreDeliveryPolicy)
  deriving DecidableEq, Repr

def runStatement (first : Option FeedRestoreOrigin) : RestoreStatement → FeedTables J
  | .marker =>
    if (db.selectHeader content.id).isSome || (db.payload content.id).isSome || db.origins.any (·.1 = content.id) ||
        db.policies.any (·.1 = content.id) || db.imports.any (·.1 = content.id) then db
    else { db with imports := db.imports ++ [(content.id, ⟨content.response.identity, hash⟩)] }
  | .header sequence =>
    if claimGuard db content hash first && (db.selectHeader content.id).isNone then
      { db with responses := db.responses ++ [(sequence, content.response)] }
    else db
  | .payload =>
    match content.payload with
    | none => db
    | some p =>
      if claimGuard db content hash first && headerGuard db content && (db.payload content.id).isNone then
        { db with payloads := db.payloads ++ [(content.id, p)] }
      else db
  | .origin source =>
    if completeGuard db content hash first && !db.origins.contains (content.id, source) then
      { db with origins := db.origins ++ [(content.id, source)] }
    else db
  | .policy source p =>
    if completeGuard db content hash first && db.origins.contains (content.id, source) &&
        !db.policies.contains (content.id, p) then
      { db with policies := db.policies ++ [(content.id, p)] }
    else db

def RestoreOriginEvidence.statements (e : RestoreOriginEvidence) : List RestoreStatement :=
  .origin e.origin :: (baselinePolicy e.origin :: e.policies).map (.policy e.origin)

def restoreStatements (sequence : ℕ) (group : RestoreGroup J) : List RestoreStatement :=
  [.marker, .header sequence, .payload] ++ group.origins.flatMap RestoreOriginEvidence.statements

/-- What the last statement of the batch makes sure of. -/
def committedGuard (group : RestoreGroup J) : Bool :=
  completeGuard db group.content hash group.first && group.origins.all fun e =>
    db.origins.contains (group.content.id, e.origin) &&
      (baselinePolicy e.origin :: e.policies).all fun p => db.policies.contains (group.content.id, p)

/-- The batch of a restore, which a guard that does not hold at its end aborts. -/
def restoreBatch (sequence : ℕ) (group : RestoreGroup J) : Option (FeedTables J) :=
  let after := (restoreStatements sequence group).foldl
    (fun db st => runStatement db group.content hash group.first st) db
  if committedGuard after hash group then some after else none

end Restore

end TinyCloud.Feed
