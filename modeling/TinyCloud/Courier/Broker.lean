import TinyCloud.Courier.Approval
import TinyCloud.Runs.Interleaved
import TinyCloud.Runs.Machine

/-!
# The broker

`runApproved` as a program of single operations, and any number of its calls over one KV. A read may
answer anything: requests and approvals are rewritten, and a replica may be behind. A create of a
marker succeeds only where the marker is absent; any other answer leaves open whether it took effect.
-/

namespace TinyCloud.Courier

open TinyCloud.Text TinyCloud.Runs

structure BrokerCredential where
  ghBin : JsString
  token : JsString

structure ExecResult where
  code : Option ℤ
  stdout : JsString
  stderr : JsString

structure KvError where
  status : Option JsString
  metaStatus : Option JsString
  code : Option JsString
  causeCode : Option JsString
  message : JsString

inductive Answer (α : Type) : Type
  | ok (data : α)
  | error (e : KvError)
  | threw (transient : Bool)

inductive KvKey
  | request (id : JsString)
  | approval (id : JsString)
  | approvalUsed (id : JsString)
  deriving DecidableEq

section Errors

def isHttpStatus (s : JsString) : Bool := s.length == 3 && s.all isDigit

def httpStatuses (e : KvError) : List JsString :=
  ([e.status, e.metaStatus, e.code].filterMap id).filter isHttpStatus

def isPreconditionError (e : KvError) : Bool :=
  e.code == some (js "KV_PRECONDITION_FAILED") || (httpStatuses e).contains (js "412")

def isNotFoundError (e : KvError) : Bool :=
  e.code == some (js "KV_NOT_FOUND") || (httpStatuses e).contains (js "404")

def TRANSIENT_CODES : List JsString := [js "NETWORK_ERROR", js "ECONNRESET", js "ETIMEDOUT"]

def isTransientError (e : KvError) : Bool :=
  (httpStatuses e).any (fun s => s.head? == some 53) ||
    TRANSIENT_CODES.any fun code => e.code == some code || e.causeCode == some code

/-- The code of the error that `unwrap` throws. -/
def unwrapCode (e : KvError) : JsString := ((e.code <|> e.status) <|> e.metaStatus).getD (js "sdk-error")

/-- A missing space also answers 404 and must not read as "unused". -/
def isKeyMissing (e : KvError) : Bool :=
  if includes (js "space") (toLower e.message) then false
  else e.code == some (js "KV_NOT_FOUND") || (e.status <|> e.metaStatus) == some (js "404") ||
    e.code == some (js "404")

end Errors

section Program

inductive Op
  | get (key : KvKey)
  | getNetwork (key : KvKey)
  | putCreate (key : KvKey) (requestId : JsString) (usedAt : ℤ)
  | now
  | credential
  | makeScratch
  | exec (credential : BrokerCredential) (scratch : JsString) (args : List JsString)
  | removeScratch (scratch : JsString)

def Op.Res : Op → Type
  | .get _ => Answer (Option Value)
  | .getNetwork _ => Answer Unit
  | .putCreate _ _ _ => Answer Unit
  | .now => ℤ
  | .credential => BrokerCredential
  | .makeScratch => JsString
  | .exec _ _ _ => ExecResult
  | .removeScratch _ => Unit

abbrev Call := Code Failure Op Op.Res

def ask (o : Op) : Call o.Res := perform .thrown o

def fail {α : Type} (code : String) : Call α := throw (courierError code)

def settled {α : Type} : Except Failure α → Call α
  | .ok a => pure a
  | .error e => throw e

/-- Bounded retry for reads; `retries` are left. -/
def readRetry (key : KvKey) : ℕ → Call (Answer (Option Value))
  | 0 => do
    match (← ask (.get key) : Answer (Option Value)) with
    | .threw _ => throw .thrown
    | r => pure r
  | retries + 1 => do
    match (← ask (.get key) : Answer (Option Value)) with
    | .error e => if isTransientError e then readRetry key retries else pure (.error e)
    | .threw transient => if transient then readRetry key retries else throw .thrown
    | .ok data => pure (.ok data)

/-- Objects come back as JSON text; text that does not parse stays text. -/
def parsed : Value → Value
  | .str s => (parseJson s).getD (.str s)
  | v => v

def getJson (key : KvKey) : Call (Option Value) := do
  match ← readRetry key 2 with
  | .ok data => pure (data.map parsed)
  | .error e =>
    if includes (js "space not found") (toLower e.message) then fail "no-space"
    else if isNotFoundError e then pure none
    else throw (.courier (unwrapCode e))
  | .threw _ => throw .thrown

def putCreate (key : KvKey) (requestId : JsString) (usedAt : ℤ) : Call Unit := do
  match (← ask (.putCreate key requestId usedAt) : Answer Unit) with
  | .ok () => pure ()
  | .error e => if isPreconditionError e then fail "conflict" else throw (.courier (unwrapCode e))
  | .threw _ => throw .thrown

def isConsumed (id : JsString) : Call Bool := do
  let r ← tryCatch (ask (.getNetwork (.approvalUsed id))) fun _ => fail "approval-state-unknown"
  match (r : Answer Unit) with
  | .ok () => pure true
  | .error e => if isKeyMissing e then pure false else fail "approval-state-unknown"
  | .threw _ => fail "approval-state-unknown"

def markConsumed (id : JsString) (usedAt : ℤ) : Call Unit :=
  tryCatch (putCreate (.approvalUsed id) id usedAt) fun e =>
    if e = courierError "conflict" then fail "approval-used" else throw e

structure Template where
  repo : JsString
  number : JsString
  deriving DecidableEq

def Template.view (t : Template) : List JsString :=
  [js "pr", js "view", t.number, js "--repo=" ++ t.repo, js "--json", js "state,headRefOid,isDraft,baseRefName"]

def Template.merge (t : Template) (sha : JsString) : List JsString :=
  [js "pr", js "merge", t.number, js "--repo=" ++ t.repo, js "--squash", js "--match-head-commit=" ++ sha]

def Template.display (t : Template) : JsString :=
  js "gh pr merge " ++ t.number ++ js " --repo " ++ t.repo ++ js " --squash"

/-- `[a-z0-9_][a-z0-9_.-]{0,99}` -/
def isRepoPart (s : JsString) : Bool :=
  match s with
  | [] => false
  | u :: rest => (isLowerAlnum u || oneOf "_" u) && rest.length ≤ 99 &&
      rest.all fun v => isLowerAlnum v || oneOf "_.-" v

def isRepo (s : JsString) : Bool := (cut 47 s).any fun (owner, repo) => isRepoPart owner && isRepoPart repo

/-- `[1-9][0-9]{0,8}` -/
def isPullNumber (s : JsString) : Bool :=
  s.head?.any (fun u => isDigit u && u != 48) && s.length ≤ 9 && s.all isDigit

def templateFor (verb rawTarget : JsString) : Except Failure Template := do
  let unsupported := courierError "broker-unsupported"
  throwIf (verb != js "merge") unsupported
  let target ← orThrow (canonicalTarget (js "merge") rawTarget) unsupported
  let (repo, number) ← orThrow (cut 35 target) unsupported
  throwIf (repo.isEmpty || repo.contains 64 || !isPullNumber number || !isRepo repo) unsupported
  pure ⟨repo, number⟩

/-- The members of what `gh pr view` printed; a value that is not an object has none. -/
def viewState (stdout : JsString) : Except Failure Record := do
  match ← orThrow (parseJson stdout) (courierError "broker-view-failed") with
  | (.null : Value) => .error .thrown
  | .obj members => pure members
  | _ => pure []

/-- The state that a view reports must be open and have exactly the pins. -/
def checkView (pins : Option Pins) (view : ExecResult) : Except Failure JsString := do
  throwIf (view.code != some 0) (courierError "broker-view-failed")
  let state ← viewState view.stdout
  throwIf (state.text "state" != some (js "OPEN") || (match state.get "isDraft" with
    | some (.bool true) => true
    | _ => false)) (courierError "broker-not-mergeable")
  let headRefOid ← orThrow ((state.text "headRefOid").filter isHeadSha) (courierError "broker-view-failed")
  let sha ← orThrow (pins.map Pins.headSha) (courierError "broker-pin-mismatch")
  throwIf (headRefOid != sha) (courierError "broker-pin-mismatch")
  let baseRefName ← orThrow ((state.text "baseRefName").filter fun base => !base.isEmpty)
    (courierError "broker-pin-mismatch")
  throwIf (pins.map Pins.base != some baseRefName) (courierError "broker-pin-mismatch")
  pure sha

structure BrokerResult where
  ok : Bool
  requestId : JsString
  fields : RequestFields
  consumed : Bool
  headSha : JsString
  command : JsString
  exitCode : Option ℤ

/-- What runs in the scratch directory. -/
def runPinned (id : JsString) (verified : VerifiedApproval) (template : Template)
    (credential : BrokerCredential) (scratch : JsString) : Call BrokerResult := do
  let view ← ask (.exec credential scratch template.view)
  let sha ← settled (checkView verified.fields.pins view)
  let at_ ← ask .now
  markConsumed id at_
  let merged ← ask (.exec credential scratch (template.merge sha))
  let exitCode := ExecResult.code merged
  pure ⟨exitCode == some 0, id, verified.fields, true, sha, template.display, exitCode⟩

def finally_ {α : Type} (body : Call α) (o : Op) : Call α := do
  let result ← tryCatch (do let a ← body; pure (Except.ok a)) fun e => pure (Except.error e)
  let _ ← ask o
  settled result

variable (P : Platform)

def noOptions : ApprovalOptions := ⟨none, none, none, none⟩

/-- Everything before the scratch directory: read-only. -/
def runVerified (id : JsString) : Call (VerifiedApproval × Template × BrokerCredential) := do
  if !isUlid id then fail "usage"
  else
    match ← getJson (.request id) with
    | none => fail "approval-mismatch"
    | some request =>
      match ← getJson (.approval id) with
      | none => fail "approval-missing"
      | some approval =>
        let now ← ask .now
        let verified ← settled (verifyApproval P id request approval now noOptions)
        if verified.decision ≠ .approved then fail "approval-denied"
        else
          let template ← settled (templateFor verified.fields.verb verified.fields.target)
          let credential ← ask .credential
          if ← isConsumed id then fail "approval-used"
          else pure (verified, template, credential)

def runApproved (id : JsString) : Call BrokerResult := do
  let (verified, template, credential) ← runVerified P id
  let scratch ← ask .makeScratch
  finally_ (runPinned id verified template credential scratch) (.removeScratch scratch)

end Program

section System

structure CallId where
  requestId : JsString
  serial : ℕ
  deriving DecidableEq

structure Entry where
  call : CallId
  op : Op
  answer : Option op.Res

/-- The markers that exist, and every operation so far, the newest first. -/
structure World where
  used : KvKey → Bool
  log : List Entry

/-- What the outside decides about one operation. `lands` says whether a create that is not
acknowledged took effect. -/
structure Choice where
  fails : Bool
  value : Answer (Option Value)
  marker : Answer Unit
  lands : Bool
  now : ℤ
  credential : BrokerCredential
  scratch : JsString
  result : ExecResult

def mark (used : KvKey → Bool) (key : KvKey) : KvKey → Bool := Function.update used key true

/-- The answer of one operation and the markers after it; a create of a marker that exists is not
acknowledged. -/
def runOp (c : Choice) (used : KvKey → Bool) : (o : Op) → Option (Option o.Res × (KvKey → Bool))
  | .putCreate key _ _ =>
    match c.marker with
    | .ok () => if used key || c.fails then none else some (some (.ok ()), mark used key)
    | answer =>
      some (if c.fails then none else some answer, if c.lands then mark used key else used)
  | .get _ => some (if c.fails then none else some c.value, used)
  | .getNetwork _ => some (if c.fails then none else some c.marker, used)
  | .now => some (if c.fails then none else some c.now, used)
  | .credential => some (if c.fails then none else some c.credential, used)
  | .makeScratch => some (if c.fails then none else some c.scratch, used)
  | .exec _ _ _ => some (if c.fails then none else some c.result, used)
  | .removeScratch _ => some (if c.fails then none else some (), used)

structure Broker where
  world : World
  calls : CallId → Option (Prog Op Op.Res Unit)

variable (P : Platform)

def program (x : CallId) : Prog Op Op.Res Unit :=
  (runApproved P x.requestId).run.bind fun _ => .pure ()

inductive BrokerAction
  | start (x : CallId)
  | answer (x : CallId) (c : Choice)
  | crash (x : CallId)
  /-- Another writer creates or overwrites a marker. -/
  | mark (key : KvKey)

def brokerStep (b : Broker) : BrokerAction → Option Broker
  | .start x =>
    if (b.calls x).isNone && b.world.log.all (fun e => e.call != x) then
      some { b with calls := Function.update b.calls x (some (program P x)) }
    else none
  | .answer x c =>
    match b.calls x with
    | some (.op o next) =>
      (runOp c b.world.used o).map fun (answer, used) =>
        { world := ⟨used, ⟨x, o, answer⟩ :: b.world.log⟩
          calls := Function.update b.calls x (some (next answer)) }
    | _ => none
  | .crash x => some { b with calls := Function.update b.calls x none }
  | .mark key => some { b with world := { b.world with used := mark b.world.used key } }

def brokerMachine : Machine Broker BrokerAction where
  initial b := b.world.log = [] ∧ ∀ x, b.calls x = none
  step := brokerStep P

end System

end TinyCloud.Courier
