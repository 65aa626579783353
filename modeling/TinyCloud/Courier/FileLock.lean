import Mathlib.Data.Nat.Notation
import Mathlib.Logic.Function.Basic
import TinyCloud.Runs.Machine

/-! The lock file of the courier commands: `acquireLock`, `breakDead` and the release, by any
number of calls on one file, one file operation at a time. -/

namespace TinyCloud.Courier

structure LockRecord where
  pid : ℕ
  nonce : String
  deriving DecidableEq, Repr

/-- The text of a file, as `parseRecord` reads it. -/
inductive Body
  | record (r : LockRecord)
  | corrupt (text : String)
  deriving DecidableEq, Repr

inductive Liveness
  | alive
  | dead
  | unknown
  deriving DecidableEq, Repr

def isJsSpace (c : Char) : Bool :=
  ['\t', '\n', '\x0b', '\x0c', '\r', ' ', '\u00a0', '\u1680', '\u2028', '\u2029', '\u202f', '\u205f',
    '\u3000', '\ufeff'].contains c || ('\u2000' ≤ c && c ≤ '\u200a')

def isTagChar (c : Char) : Bool :=
  ('A' ≤ c && c ≤ 'Z') || ('a' ≤ c && c ≤ 'z') || ('0' ≤ c && c ≤ '9') || c == '_' || c == '-'

-- A character outside the basic plane is two code units, each of them replaced.
def tagChars (c : Char) : List Char :=
  if isTagChar c then [c] else if c.toNat < 0x10000 then ['_'] else ['_', '_']

/-- The part of a guard's name that says which lock record it breaks. -/
def breakTag (nonce : String) : String :=
  let trimmed := ((nonce.toList.dropWhile isJsSpace).reverse.dropWhile isJsSpace).reverse
  String.ofList ((trimmed.flatMap tagChars).take 64)

def maxAttempts : ℕ := 3

def maxBreakGuards : ℕ := 8

/-- A run of `breakDead`: its lock record, and the guards it found dead. -/
structure Break where
  attempt : ℕ
  stale : LockRecord
  retries : ℕ
  dead : List (ℕ × Body)
  deriving DecidableEq, Repr

def Break.tag (b : Break) : String := breakTag b.stale.nonce

inductive LockTask
  | reading (attempt : ℕ)
  | creating (attempt : ℕ)
  | rereading (attempt : ℕ)
  | judging (attempt : ℕ) (seen : LockRecord)
  | undoing
  | undoRemoving (seen : LockRecord)
  | claiming (b : Break) (k : ℕ)
  | observing (b : Break) (k : ℕ)
  | judgingGuard (b : Break) (k : ℕ) (seen : LockRecord)
  | checking (b : Break) (own : ℕ)
  | breaking (b : Break) (own : ℕ) (seen : LockRecord)
  | clearing (b : Break) (own : Option ℕ) (rest : List (ℕ × Body)) (threw : Bool)
  | removing (b : Break) (own : Option ℕ) (k : ℕ) (text : Body) (rest : List (ℕ × Body)) (threw : Bool)
  | leaving (b : Break) (own : ℕ) (threw : Bool)
  | removingOwn (b : Break) (own : ℕ) (threw : Bool)
  | holding
  | releasing
  | releaseRemoving (seen : LockRecord)
  deriving DecidableEq, Repr

structure LockCall where
  self : LockRecord
  task : LockTask
  deriving DecidableEq, Repr

/-- `live` says which records' writers run, `named` which nonce a guard name stands for. -/
structure LockFiles where
  lock : Option Body
  guards : String → ℕ → Option Body
  live : String → Bool
  named : String → Option String

structure LockState where
  files : LockFiles
  calls : ℕ → Option LockCall

/-- How an operation ends; `late` is a `writeNew` that throws after its link. -/
inductive Outcome
  | done
  | late
  | failed
  deriving DecidableEq, Repr

inductive LockAction
  | start (x : ℕ) (self : LockRecord)
  | op (x : ℕ) (o : Outcome)
  | judge (x : ℕ) (answer : Liveness)
  | release (x : ℕ)
  | kill (x : ℕ)
  deriving DecidableEq, Repr

def LockFiles.setLock (f : LockFiles) (body : Option Body) : LockFiles := { f with lock := body }

def LockFiles.setGuard (f : LockFiles) (tag : String) (k : ℕ) (body : Option Body) : LockFiles :=
  { f with guards := Function.update f.guards tag (Function.update (f.guards tag) k body) }

def retry (attempt : ℕ) : Option LockTask :=
  if attempt + 1 < maxAttempts then some (.reading (attempt + 1)) else none

def finishBreak (b : Break) (threw : Bool) : Option LockTask :=
  if threw then none else retry b.attempt

/-- One file operation of a call: the files after it and what the call does next, if anything. -/
def lockOp (f : LockFiles) (self : LockRecord) : LockTask → Outcome → LockFiles × Option LockTask
  | .reading n, .done =>
    match f.lock with
    | none => (f, some (.creating n))
    | some (.corrupt _) => (f, none)
    | some (.record r) => (f, some (.judging n r))
  | .creating n, .done =>
    match f.lock with
    | none => (f.setLock (some (.record self)), some .holding)
    | some _ => (f, some (.rereading n))
  | .creating _, .late =>
    match f.lock with
    | none => (f.setLock (some (.record self)), some .undoing)
    | some _ => (f, some .undoing)
  | .creating _, .failed => (f, some .undoing)
  | .undoing, .done =>
    match f.lock with
    | some (.record r) => (f, if r.nonce = self.nonce then some (.undoRemoving r) else none)
    | _ => (f, none)
  | .undoRemoving _, .done => (f.setLock none, none)
  | .rereading n, .done =>
    match f.lock with
    | none => (f, retry n)
    | some (.corrupt _) => (f, none)
    | some (.record r) => (f, some (.judging n r))
  | .claiming b k, .done =>
    match f.guards b.tag k with
    | none => (f.setGuard b.tag k (some (.record self)), some (.checking b k))
    | some _ => (f, some (.observing b k))
  | .claiming b k, .late =>
    match f.guards b.tag k with
    | none => (f.setGuard b.tag k (some (.record self)), none)
    | some _ => (f, none)
  | .observing b k, .done =>
    match f.guards b.tag k with
    | none =>
      (f, if b.retries < maxBreakGuards then some (.claiming { b with retries := b.retries + 1 } k) else none)
    | some (.corrupt _) => (f, none)
    | some (.record r) => (f, some (.judgingGuard b k r))
  | .checking b own, .done =>
    match f.lock with
    | some (.record r) =>
      (f, some (if r.nonce = b.stale.nonce then .breaking b own r else .clearing b (some own) b.dead false))
    | _ => (f, some (.clearing b (some own) b.dead false))
  | .checking b own, _ => (f, some (.clearing b (some own) b.dead true))
  | .breaking b own _, .done => (f.setLock none, some (.clearing b (some own) b.dead false))
  | .breaking b own _, _ => (f, some (.clearing b (some own) b.dead true))
  | .clearing b (some own) [] threw, _ => (f, some (.leaving b own threw))
  | .clearing b none [] _, _ => (f, retry b.attempt)
  | .clearing b own ((k, text) :: rest) threw, .done =>
    (f, some (if f.guards b.tag k = some text then .removing b own k text rest threw
      else .clearing b own rest threw))
  | .clearing b own (_ :: rest) threw, _ => (f, some (.clearing b own rest threw))
  | .removing b own k _ rest threw, .done => (f.setGuard b.tag k none, some (.clearing b own rest threw))
  | .removing b own _ _ rest threw, _ => (f, some (.clearing b own rest threw))
  | .leaving b own threw, .done =>
    (f, if f.guards b.tag own = some (.record self) then some (.removingOwn b own threw)
      else finishBreak b threw)
  | .leaving b _ threw, _ => (f, finishBreak b threw)
  | .removingOwn b own threw, .done => (f.setGuard b.tag own none, finishBreak b threw)
  | .removingOwn b _ threw, _ => (f, finishBreak b threw)
  | .releasing, .done =>
    match f.lock with
    | some (.record r) => (f, if r.nonce = self.nonce then some (.releaseRemoving r) else none)
    | _ => (f, none)
  | .releasing, _ => (f, some .holding)
  | .releaseRemoving _, .done => (f.setLock none, none)
  | .releaseRemoving _, _ => (f, some .holding)
  | .holding, _ => (f, some .holding)
  | _, _ => (f, none)

/-- What a call does once `state` has answered; only the record of a writer that no longer runs is dead. -/
def lockJudge (f : LockFiles) : LockTask → Liveness → Option (Option LockTask)
  | .judging n seen, .dead =>
    if f.live seen.nonce then none else some (some (.claiming ⟨n, seen, 0, []⟩ 1))
  | .judging _ _, _ => some none
  | .judgingGuard b k seen, .dead =>
    if f.live seen.nonce then none
    else
      let b' := { b with dead := b.dead ++ [(k, .record seen)] }
      some (some (if k < maxBreakGuards then .claiming b' (k + 1) else .clearing b' none b'.dead false))
  | .judgingGuard _ _ _, _ => some none
  | _, _ => none

def LockState.next (s : LockState) (x : ℕ) (self : LockRecord) (f : LockFiles) (task : Option LockTask) :
    LockState where
  files := if task.isNone then { f with live := Function.update f.live self.nonce false } else f
  calls := Function.update s.calls x (task.map (LockCall.mk self))

def LockTask.isJudging : LockTask → Bool
  | .judging _ _ | .judgingGuard _ _ _ => true
  | _ => false

def lockStep (s : LockState) : LockAction → Option LockState
  | .start x self =>
    if (s.calls x).isSome || (s.files.named (breakTag self.nonce)).isSome then none
    else some {
      files := { s.files with
        live := Function.update s.files.live self.nonce true
        named := Function.update s.files.named (breakTag self.nonce) (some self.nonce) }
      calls := Function.update s.calls x (some ⟨self, .reading 0⟩) }
  | .op x o => do
    let c ← s.calls x
    if c.task.isJudging then none
    else
      let r := lockOp s.files c.self c.task o
      some (s.next x c.self r.1 r.2)
  | .judge x answer => do
    let c ← s.calls x
    let task ← lockJudge s.files c.task answer
    some (s.next x c.self s.files task)
  | .release x => do
    let c ← s.calls x
    match c.task with
    | .holding => some (s.next x c.self s.files (some .releasing))
    | _ => none
  | .kill x => do
    let c ← s.calls x
    some (s.next x c.self s.files none)

/-- Any lock and guards left behind, all of writers that no longer run. -/
structure LockState.Initial (s : LockState) : Prop where
  calls : ∀ x, s.calls x = none
  live : ∀ n, s.files.live n = false
  lock : ∀ r, s.files.lock = some (.record r) → s.files.named (breakTag r.nonce) = some r.nonce
  guards : ∀ t k r, s.files.guards t k = some (.record r) → (s.files.named (breakTag r.nonce)).isSome = true

def lockMachine : Runs.Machine LockState LockAction where
  initial := LockState.Initial
  step := lockStep

end TinyCloud.Courier
