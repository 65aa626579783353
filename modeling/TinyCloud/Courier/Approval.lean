import TinyCloud.Courier.Request

/-!
# Approvals

`verifyApproval` and what it establishes of a request and an approval that it accepts. Of an error
only the code is kept.
-/

namespace TinyCloud.Courier

open TinyCloud.Text TinyCloud.Runs

inductive Failure
  | courier (code : JsString)
  | thrown
  deriving DecidableEq

def courierError (code : String) : Failure := .courier (js code)

def DAY_MS : ℤ := 24 * 3600 * 1000
def MAX_NOTE : ℕ := 2000
/-- The view stamps `decidedAt` with the browser's clock. -/
def FUTURE_SKEW_MS : ℤ := 5 * 60 * 1000

inductive Decision
  | approved
  | denied
  deriving DecidableEq

structure VerifiedApproval where
  requestId : JsString
  requestHash : JsString
  decision : Decision
  note : JsString
  decidedAt : JsString
  fields : RequestFields
  peer : JsString
  threadId : JsString
  taskId : JsString

structure ApprovalOptions where
  verb : Option JsString
  target : Option JsString
  headSha : Option JsString
  base : Option JsString

def readDecision (approval : Record) : Option Decision :=
  if approval.text "decision" = some (js "approved") then some .approved
  else if approval.text "decision" = some (js "denied") then some .denied
  else none

section Verify

variable (P : Platform)

def noteProblem (approval : Record) : Bool :=
  match approval.get "note" with
  | none => false
  | some (.str []) => false
  | some (.str s) => (plainTextProblem P (some (.str s)) MAX_NOTE).isSome
  | some _ => true

def ms (record : Record) (key : String) : Option ℤ := (record.text key).bind P.dateParse

def freeTextProblem (request : Record) : Bool :=
  [("action", MAX_ACTION), ("reason", MAX_REASON), ("risk", MAX_RISK)].any fun (name, max) =>
    request.has name && (plainTextProblem P (request.get name) max).isSome

def isOther (option field : Option JsString) : Bool := option.isSome && option != field

def verifyApproval (id : JsString) (request approval : Value) (now : ℤ) (options : ApprovalOptions) :
    Except Failure VerifiedApproval := do
  let mismatch := courierError "approval-mismatch"
  let requested ← orThrow (isRecord request) mismatch
  throwIf (requested.text "id" != some id) mismatch
  let approval ← orThrow (isRecord approval) (courierError "approval-missing")
  throwIf (approval.text "requestId" != some id) mismatch
  let decision ← orThrow (readDecision approval) mismatch
  let hash ← orThrow (requestHash P request) mismatch
  throwIf ((allStrings 0 request).any fun text => (hiddenTextProblem P text true).isSome) mismatch
  throwIf (approval.text "requestHash" != some hash) mismatch
  throwIf (noteProblem P approval) mismatch
  throwIf (plainLineProblem P (approval.get "decidedAt") 40).isSome mismatch
  let decidedAt ← orThrow (ms P approval "decidedAt") mismatch
  let created ← orThrow (ms P requested "createdAt") mismatch
  let expires ← orThrow (ms P requested "expiresAt") mismatch
  -- The decision lies in [createdAt, expiresAt); both timestamps come from different clocks.
  throwIf (decidedAt < created) mismatch
  throwIf (now + FUTURE_SKEW_MS < decidedAt) mismatch
  throwIf (expires ≤ decidedAt) (courierError "approval-expired")
  throwIf (DAY_MS ≤ now - decidedAt) (courierError "approval-expired")
  let peer ← orThrow (requested.text "peer") mismatch
  let threadId ← orThrow (requested.text "threadId") mismatch
  let taskId ← orThrow (requested.text "taskId") mismatch
  throwIf (requestShapeProblem requested).isSome mismatch
  throwIf (freeTextProblem P requested) mismatch
  let fields ← orThrow (storedRequestFields P requested) mismatch
  throwIf (isOther options.verb (some fields.verb)) mismatch
  throwIf (isOther options.target (some fields.target)) mismatch
  throwIf (isOther options.headSha (fields.pins.map Pins.headSha)) mismatch
  throwIf (isOther options.base (fields.pins.map Pins.base)) mismatch
  pure ⟨id, hash, decision, (approval.text "note").getD [], (approval.text "decidedAt").getD [], fields,
    peer, threadId, taskId⟩

def textAt (value : Value) (key : String) : Option JsString := (isRecord value).bind fun record => record.text key

/-- The approval decides `decision` on exactly this request, in its window, at the time `now`. -/
structure Decides (id : JsString) (request approval : Value) (now : ℤ) (decision : String) : Prop where
  names : textAt request "id" = some id ∧ textAt approval "requestId" = some id
  decision : textAt approval "decision" = some (js decision)
  hash : ∃ hash, requestHash P request = some hash ∧ textAt approval "requestHash" = some hash
  window : ∃ created decided expires,
    (textAt request "createdAt").bind P.dateParse = some created ∧
    (textAt approval "decidedAt").bind P.dateParse = some decided ∧
    (textAt request "expiresAt").bind P.dateParse = some expires ∧
    created ≤ decided ∧ decided < expires ∧ decided ≤ now + FUTURE_SKEW_MS ∧ now < decided + DAY_MS

/-- The structured fields of the request, with its target in the one spelling of its verb. -/
structure Carries (request : Value) (fields : RequestFields) : Prop where
  verb : textAt request "verb" = some fields.verb
  target : textAt request "target" = some fields.target
  canonical : canonicalTarget fields.verb fields.target = some fields.target
  pins : fields.verb = js "merge" →
    ∃ pins, fields.pins = some pins ∧ isHeadSha pins.headSha = true ∧
      textAt request "headSha" = some pins.headSha ∧ textAt request "base" = some pins.base

end Verify

section Facts

variable {P : Platform} {id : JsString} {request approval : Value} {now : ℤ} {options : ApprovalOptions}
  {v : VerifiedApproval} {record : Record} {fields : RequestFields}

lemma textAt_obj (members : Record) (key : String) : textAt (.obj members) key = members.text key := rfl

lemma isRecord_eq {value : Value} (h : isRecord value = some record) : value = .obj record := by
  cases value with
  | obj members =>
    cases h
    rfl
  | _ => cases h

lemma readDecision_approved (h : readDecision record = some .approved) :
    record.text "decision" = some (js "approved") := by
  unfold readDecision at h
  split at h
  · assumption
  · split at h <;> cases h

lemma storedPins_merge {request : Record} {pins : Option Pins} (h : storedPins (js "merge") request = some pins) :
    ∃ p, pins = some p ∧ isHeadSha p.headSha = true ∧
      request.text "headSha" = some p.headSha ∧ request.text "base" = some p.base := by
  rw [storedPins, if_pos rfl] at h
  split_ifs at h with hp
  obtain ⟨headSha, hs, h⟩ := Option.bind_eq_some_iff.mp h
  obtain ⟨base, hb, h⟩ := Option.bind_eq_some_iff.mp h
  cases h
  refine ⟨⟨headSha, base⟩, rfl, ?_, hs, hb⟩
  have hg : (request.get "headSha").bind asString = some headSha := hs
  simp only [headShaProblem, hg, Option.any_some, Bool.or_eq_true, Bool.not_eq_true', not_or,
    Bool.not_eq_false] at hp
  exact hp.1

lemma storedRequestFields_carries {request : Record} (h : storedRequestFields P request = some fields) :
    Carries (.obj request) fields := by
  obtain ⟨verb, hv, h⟩ := Option.bind_eq_some_iff.mp h
  obtain ⟨target, ht, h⟩ := Option.bind_eq_some_iff.mp h
  obtain ⟨summary, -, h⟩ := Option.bind_eq_some_iff.mp h
  split_ifs at h with hc
  obtain ⟨pins, hp, h⟩ := Option.bind_eq_some_iff.mp h
  cases h
  refine ⟨(Option.filter_eq_some_iff.mp hv).1, (Option.filter_eq_some_iff.mp ht).1,
    by simpa using hc, ?_⟩
  rintro rfl
  exact storedPins_merge hp

/-- What `verifyApproval` establishes of what it accepts as approved. -/
theorem decides_of_verifyApproval (h : verifyApproval P id request approval now options = .ok v)
    (hd : v.decision = .approved) :
    Decides P id request approval now "approved" ∧ Carries request v.fields := by
  obtain ⟨requested, hr, h⟩ := bind_eq_ok h
  obtain ⟨_, hid, h⟩ := bind_eq_ok h
  obtain ⟨decision', ha, h⟩ := bind_eq_ok h
  obtain ⟨_, haid, h⟩ := bind_eq_ok h
  obtain ⟨decision, hdec, h⟩ := bind_eq_ok h
  obtain ⟨hash, hh, h⟩ := bind_eq_ok h
  obtain ⟨_, -, h⟩ := bind_eq_ok h
  obtain ⟨_, hah, h⟩ := bind_eq_ok h
  obtain ⟨_, -, h⟩ := bind_eq_ok h
  obtain ⟨_, -, h⟩ := bind_eq_ok h
  obtain ⟨decidedAt, hda, h⟩ := bind_eq_ok h
  obtain ⟨created, hc, h⟩ := bind_eq_ok h
  obtain ⟨expires, he, h⟩ := bind_eq_ok h
  obtain ⟨_, h1, h⟩ := bind_eq_ok h
  obtain ⟨_, h2, h⟩ := bind_eq_ok h
  obtain ⟨_, h3, h⟩ := bind_eq_ok h
  obtain ⟨_, h4, h⟩ := bind_eq_ok h
  obtain ⟨peer, -, h⟩ := bind_eq_ok h
  obtain ⟨threadId, -, h⟩ := bind_eq_ok h
  obtain ⟨taskId, -, h⟩ := bind_eq_ok h
  obtain ⟨_, -, h⟩ := bind_eq_ok h
  obtain ⟨_, -, h⟩ := bind_eq_ok h
  obtain ⟨fields, hf, h⟩ := bind_eq_ok h
  obtain ⟨_, -, h⟩ := bind_eq_ok h
  obtain ⟨_, -, h⟩ := bind_eq_ok h
  obtain ⟨_, -, h⟩ := bind_eq_ok h
  obtain ⟨_, -, h⟩ := bind_eq_ok h
  cases h
  have hro := isRecord_eq (orThrow_eq_ok hr)
  have hao := isRecord_eq (orThrow_eq_ok ha)
  have h1 := throwIf_eq_ok h1
  have h2 := throwIf_eq_ok h2
  have h3 := throwIf_eq_ok h3
  have h4 := throwIf_eq_ok h4
  simp only [decide_eq_false_iff_not, not_lt, not_le] at h1 h2 h3 h4
  subst hro hao
  cases hd
  refine ⟨⟨⟨by simpa [textAt_obj] using throwIf_eq_ok hid, by simpa [textAt_obj] using throwIf_eq_ok haid⟩,
    readDecision_approved (orThrow_eq_ok hdec),
    ⟨hash, orThrow_eq_ok hh, by simpa [textAt_obj] using throwIf_eq_ok hah⟩,
    ⟨created, decidedAt, expires, orThrow_eq_ok hc, orThrow_eq_ok hda, orThrow_eq_ok he, h1, h3, h2,
      by omega⟩⟩, ?_⟩
  exact storedRequestFields_carries (orThrow_eq_ok hf)

end Facts

end TinyCloud.Courier
