import Mathlib.Algebra.Group.Nat.Defs
import Mathlib.Logic.Function.Basic
import TinyCloud.Collections.Dict
import TinyCloud.Runs.Machine

/-!
# Owner lookups

The verdict on one answer of the location registry, and the calls that look owners up while they share
a store of the highest sequences seen: one page's memory, or `localStorage` beside each tab's memory.
-/

namespace TinyCloud.Registry

open TinyCloud.Collections

section Verdicts

structure V1Record where
  subject : String
  multiaddrs : List String
  updatedAt : String
  sequence : ℕ
  signature : String
  deriving DecidableEq

inductive UnavailableReason
  | networkError
  | timeout
  | httpStatus
  | malformedResponse
  | oversizeResponse
  | subjectMismatch
  | invalidSignature
  | rollback
  | notFoundAfterRegistered
  deriving DecidableEq

structure RegistryHost where
  urls : List String
  deriving DecidableEq

inductive RegistryVerdict
  | registered (subject : String) (sequence : ℕ) (hosts : List RegistryHost)
  | unregistered (subject : String)
  | unavailable (subject : String) (reason : UnavailableReason) (message : String)
  deriving DecidableEq

inductive RegistryLookupResponse
  | http (status : ℕ) (body : String)
  | networkError
  | timeout
  deriving DecidableEq

inductive RegistryObservation
  | response (r : RegistryLookupResponse)
  | oversize
  | invalidUtf8
  deriving DecidableEq

/-- Subjects, record documents, signatures and URLs as the checks beside this one read them. -/
structure Formats where
  isCanonicalSubject : String → Bool
  parseRecordResponse : String → Except String V1Record
  verifyRecordSignature : V1Record → Bool
  multiaddrOrigin : String → Option String
  exactHttpOrigin : String → Option String
  httpOrigin : String → Option String

inductive RegistryLookupInputError
  | invalidSubject
  | invalidRememberedSequence
  deriving DecidableEq

def REGISTRY_LOOKUP_MAX_BODY_BYTES : ℕ := 64 * 1024

def REGISTRY_NOT_FOUND_BODY : String := "\x7b\"error\":\"location record not found\"\x7d"

def MAX_SAFE_INTEGER : ℕ := 2 ^ 53 - 1

def isJsonSpace (c : Char) : Bool := c == ' ' || c == '\t' || c == '\n' || c == '\r'

/-- The body without leading and trailing JSON whitespace. -/
def trimJson (body : String) : String :=
  String.ofList ((body.toList.dropWhile isJsonSpace).reverse.dropWhile isJsonSpace).reverse

variable (F : Formats)

def recordVerdict (subject : String) (remembered : Option ℕ) (record : V1Record) : RegistryVerdict :=
  if record.subject ≠ subject then
    .unavailable subject .subjectMismatch "location record subject does not match requested subject"
  else if !F.verifyRecordSignature record then
    .unavailable subject .invalidSignature "location record signature is invalid"
  else if remembered.any (record.sequence < ·) then
    .unavailable subject .rollback ("location record sequence " ++ toString record.sequence ++
      " is below remembered sequence " ++ toString (remembered.getD 0))
  else
    .registered subject record.sequence ((record.multiaddrs.filterMap F.multiaddrOrigin).map fun origin => ⟨[origin]⟩)

def notFoundVerdict (subject : String) (remembered : Option ℕ) (body : String) : RegistryVerdict :=
  if trimJson body ≠ REGISTRY_NOT_FOUND_BODY then
    .unavailable subject .malformedResponse "location registry 404 is not the registry's not-found response"
  else match remembered with
    | some n => .unavailable subject .notFoundAfterRegistered
        ("location registry has no record, but sequence " ++ toString n ++ " was seen before")
    | none => .unregistered subject

def classifyRegistryLookup (subject : String) (response : RegistryLookupResponse) (remembered : Option ℕ) :
    Except RegistryLookupInputError RegistryVerdict :=
  if !F.isCanonicalSubject subject then .error .invalidSubject
  else if remembered.any (MAX_SAFE_INTEGER < ·) then .error .invalidRememberedSequence
  else .ok <| match response with
    | .networkError => .unavailable subject .networkError "location registry could not be reached"
    | .timeout => .unavailable subject .timeout "location registry lookup timed out"
    | .http status body =>
      if status ≠ 200 ∧ status ≠ 404 then
        .unavailable subject .httpStatus ("location registry returned HTTP " ++ toString status)
      else if REGISTRY_LOOKUP_MAX_BODY_BYTES < body.utf8ByteSize then
        .unavailable subject .oversizeResponse "location registry response is too large"
      else if status = 404 then notFoundVerdict subject remembered body
      else match F.parseRecordResponse body with
        | .error message => .unavailable subject .malformedResponse message
        | .ok record => recordVerdict F subject remembered record

/-- The verdict of a lookup on what it observed. -/
def observedVerdict (subject : String) (remembered : Option ℕ) :
    RegistryObservation → Except RegistryLookupInputError RegistryVerdict
  | .oversize => .ok (.unavailable subject .oversizeResponse "location registry response is too large")
  | .invalidUtf8 => .ok (.unavailable subject .malformedResponse "location registry response is not UTF-8")
  | .response r => classifyRegistryLookup F subject r remembered

end Verdicts

section Store

/-- The value under the storage key. -/
inductive Stored
  | absent
  | corrupt
  | sequences (found : Dict String ℕ)
  deriving DecidableEq

/-- A corrupt value throws. -/
def Stored.read : Stored → Option (Dict String ℕ)
  | .absent => some Dict.empty
  | .corrupt => none
  | .sequences found => some found

/-- The larger of two sequences. -/
def highest : Option ℕ → Option ℕ → Option ℕ
  | some a, some b => some (max a b)
  | some a, none => some a
  | none, b => b

structure Store where
  storage : Stored
  memory : ℕ → String → Option ℕ

def Store.remember (s : Store) (tab : ℕ) (subject : String) (sequence : ℕ) : Store :=
  let known := s.memory tab
  { s with memory := Function.update s.memory tab (Function.update known subject (highest (known subject) (some sequence))) }

end Store

section Calls

/-- Where a call of `resolveOwnerHosts` is; it waits for others before each of these. -/
inductive Phase
  /-- Before the store is read. -/
  | asked
  /-- `localStorage` is read, the tab's memory is not. -/
  | readStorage (found : Option ℕ)
  | looking (remembered : Option ℕ)
  /-- The verdict is to be remembered. -/
  | remembering (verdict : RegistryVerdict) (sequence : ℕ)
  /-- It is in the tab's memory. -/
  | saving (verdict : RegistryVerdict) (sequence : ℕ)
  /-- `localStorage` is read again, and about to be written. -/
  | writing (verdict : RegistryVerdict) (sequence : ℕ) (found : Dict String ℕ)
  | returning (verdict : RegistryVerdict)
  deriving DecidableEq

/-- `since` is how many sequences had been remembered when the call read the store. -/
structure Call where
  tab : ℕ
  subject : String
  phase : Phase
  since : ℕ

/-- `writer` is the call of a tab that holds its thread between a read and a write of `localStorage`; `log` are the
sequences that were successfully remembered. -/
structure Lookups where
  store : Store
  calls : ℕ → Option Call
  writer : ℕ → Option ℕ
  log : List (String × ℕ)

inductive Action
  | start (c tab : ℕ) (subject : String)
  | readStorage (c : ℕ) (throws : Bool)
  | readMemory (c : ℕ)
  | observe (c : ℕ) (observed : RegistryObservation)
  | remember (c : ℕ)
  | readAgain (c : ℕ) (throws : Bool)
  | write (c : ℕ) (throws : Bool)
  | finish (c : ℕ)

variable (F : Formats) (backed : Bool)

def Lookups.put (s : Lookups) (c : ℕ) (call : Option Call) : Lookups := { s with calls := Function.update s.calls c call }

def Lookups.go (s : Lookups) (c : ℕ) (call : Call) (phase : Phase) : Lookups := s.put c (some { call with phase := phase })

/-- The sequence is remembered and the verdict goes back. -/
def Lookups.remembered (s : Lookups) (c : ℕ) (call : Call) (verdict : RegistryVerdict) (sequence : ℕ) : Lookups :=
  let s := { s with log := s.log ++ [(call.subject, sequence)] }
  s.go c call (.returning verdict)

/-- The call, when its tab's thread is free. -/
def Lookups.turn (s : Lookups) (c : ℕ) : Option Call :=
  (s.calls c).bind fun call => if (s.writer call.tab).isSome then none else some call

/-- The store is asked only for verdicts above what is remembered. -/
def toRemember (remembered : Option ℕ) : RegistryVerdict → Option ℕ
  | .registered _ sequence _ => if remembered.all (· < sequence) then some sequence else none
  | _ => none

def lookupStep (s : Lookups) : Action → Option Lookups
  | .start c tab subject =>
    if (s.calls c).isSome || (s.writer tab).isSome || !(backed || tab == 0) || !F.isCanonicalSubject subject then none
    else some (s.put c (some ⟨tab, subject, .asked, 0⟩))
  | .readStorage c throws => do
    let call ← s.turn c
    match call.phase with
    | .asked =>
      if !backed then none
      else match (if throws then none else s.store.storage.read) with
        | none => some (s.put c none)
        | some found =>
          some (s.put c (some { call with phase := .readStorage (found.get? call.subject), since := s.log.length }))
    | _ => none
  | .readMemory c => do
    let call ← s.turn c
    match call.phase with
    | .asked =>
      if backed then none
      else some (s.put c
        (some { call with phase := .looking (s.store.memory call.tab call.subject), since := s.log.length }))
    | .readStorage found => some (s.go c call (.looking (highest found (s.store.memory call.tab call.subject))))
    | _ => none
  | .observe c observed => do
    let call ← s.turn c
    match call.phase with
    | .looking remembered =>
      match observedVerdict F call.subject remembered observed with
      | .error _ => some (s.put c none)
      | .ok verdict =>
        match toRemember remembered verdict with
        | some sequence => some (s.go c call (.remembering verdict sequence))
        | none => some (s.go c call (.returning verdict))
    | _ => none
  | .remember c => do
    let call ← s.turn c
    match call.phase with
    | .remembering verdict sequence =>
      let s := { s with store := s.store.remember call.tab call.subject sequence }
      some (if backed then s.go c call (.saving verdict sequence) else s.remembered c call verdict sequence)
    | _ => none
  | .readAgain c throws => do
    let call ← s.turn c
    match call.phase with
    | .saving verdict sequence =>
      match (if throws then none else s.store.storage.read) with
      -- a failed write is logged, and the verdict stands
      | none => some (s.go c call (.returning verdict))
      | some found =>
        if (found.get? call.subject).any (sequence ≤ ·) then some (s.remembered c call verdict sequence)
        else
          let s := { s with writer := Function.update s.writer call.tab (some c) }
          some (s.go c call (.writing verdict sequence found))
    | _ => none
  | .write c throws => do
    let call ← s.calls c
    match call.phase with
    | .writing verdict sequence found =>
      let s := { s with writer := Function.update s.writer call.tab none }
      if throws then some (s.go c call (.returning verdict))
      else
        let s := { s with store := { s.store with storage := .sequences (found.set call.subject sequence) } }
        some (s.remembered c call verdict sequence)
    | _ => none
  | .finish c => do
    let call ← s.turn c
    match call.phase with
    | .returning _ => some (s.put c none)
    | _ => none

/-- Any value in `localStorage`, and new pages. -/
def lookupMachine : Runs.Machine Lookups Action where
  initial s := (∀ c, s.calls c = none) ∧ (∀ tab, s.writer tab = none) ∧ (∀ tab x, s.store.memory tab x = none) ∧ s.log = []
  step := lookupStep F backed

end Calls

end TinyCloud.Registry
