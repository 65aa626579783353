import Mathlib.Order.Lattice
import TinyCloud.Registry.Lookup

/-!
# Remembered owners

While nothing is remembered for its subject between a call's read of the store and its return, and no
tab writes between another's read and write, a call takes no registered owner for a new one and accepts
no older record, and what the store reports never goes down.
-/

namespace TinyCloud.Registry

open TinyCloud.Collections TinyCloud.Runs

variable {F : Formats} {backed : Bool} {s s' : Lookups} {call : Call} {verdict : RegistryVerdict} {c tab n m : ℕ}
  {x : String} {log : List (String × ℕ)}

section Reports

/-- A sequence of at least `n` is known. -/
def Covers (known : Option ℕ) (n : ℕ) : Prop := ∃ m, known = some m ∧ n ≤ m

lemma covers_highest {a b : Option ℕ} : Covers (highest a b) n ↔ Covers a n ∨ Covers b n := by
  unfold Covers
  cases a with
  | none => simp [highest]
  | some a =>
    cases b with
    | none => simp [highest]
    | some b =>
      simp only [highest, Option.some.injEq, exists_eq_left']
      omega

/-- A tab that remembers 1 learns of 3 from the storage. -/
example : highest (some 3) (some 1) = some 3 := by decide +kernel

/-- What the store of a tab reports; `none` when the read throws. -/
def Store.get (s : Store) (backed : Bool) (tab : ℕ) (x : String) : Option (Option ℕ) :=
  if backed then s.storage.read.map fun found => highest (found.get? x) (s.memory tab x) else some (s.memory tab x)

/-- The store of a tab reports at least `n`. -/
def Store.Reports (s : Store) (backed : Bool) (tab : ℕ) (x : String) (n : ℕ) : Prop :=
  ∃ known, s.get backed tab x = some known ∧ Covers known n

lemma covers_remember (s : Store) (tab tab' : ℕ) (x y : String) (q : ℕ) (h : Covers (s.memory tab' y) n) :
    Covers ((s.remember tab x q).memory tab' y) n := by
  unfold Store.remember
  simp only
  rw [Function.update_apply]
  split
  · rename_i ht
    rw [ht] at h
    rw [Function.update_apply]
    split
    · rename_i hy
      rw [hy] at h
      exact covers_highest.mpr (.inl h)
    · exact h
  · exact h

lemma covers_remembered (s : Store) (tab : ℕ) (x : String) (q : ℕ) : Covers ((s.remember tab x q).memory tab x) q := by
  simp only [Store.remember, Function.update_self]
  exact covers_highest.mpr (.inr ⟨q, rfl, Nat.le_refl q⟩)

lemma Store.Reports.remember {s : Store} (h : s.Reports backed tab x n) (tab' : ℕ) (y : String) (q : ℕ) :
    (s.remember tab' y q).Reports backed tab x n := by
  obtain ⟨known, hk, hn⟩ := h
  unfold Store.Reports Store.get at *
  cases backed with
  | false =>
    cases hk
    exact ⟨_, rfl, covers_remember s tab' tab y x q hn⟩
  | true =>
    obtain ⟨found, hf, rfl⟩ := Option.map_eq_some_iff.mp hk
    refine ⟨_, Option.map_eq_some_iff.mpr ⟨found, hf, rfl⟩, covers_highest.mpr ?_⟩
    exact (covers_highest.mp hn).imp_right fun h => covers_remember s tab' tab y x q h

/-- A write over what was read keeps what the other subjects have, and raises its own. -/
lemma Store.Reports.write {s : Store} {found : Dict String ℕ} {y : String} {q : ℕ} (hread : s.storage.read = some found)
    (hlow : (found.get? y).any (q ≤ ·) = false) (h : s.Reports true tab x n) :
    Store.Reports { s with storage := .sequences (found.set y q) } true tab x n := by
  obtain ⟨known, hk, hn⟩ := h
  unfold Store.Reports Store.get at *
  simp only [if_true, hread, Option.map_some, Option.some.injEq] at hk
  subst hk
  refine ⟨_, rfl, covers_highest.mpr ((covers_highest.mp hn).imp_left fun hcover => ?_)⟩
  obtain ⟨m, hm, hle⟩ := hcover
  rw [Dict.get?_set]
  split
  · rename_i he
    subst he
    rw [hm] at hlow
    simp only [Option.any_some, decide_eq_false_iff_not] at hlow
    exact ⟨q, rfl, by omega⟩
  · exact ⟨m, hm, hle⟩

end Reports

section Verdicts

/-- The record behind a registered verdict is for its subject and carries a valid signature. -/
def Signed (F : Formats) (x : String) (n : ℕ) : Prop :=
  ∃ body record, F.parseRecordResponse body = .ok record ∧ F.verifyRecordSignature record = true ∧
    record.subject = x ∧ record.sequence = n

def RegistryVerdict.subject : RegistryVerdict → String
  | .registered x _ _ => x
  | .unregistered x => x
  | .unavailable x _ _ => x

/-- The verdict is right although `m` has been seen for its subject. -/
def RegistryVerdict.Allows (m : ℕ) : RegistryVerdict → Prop
  | .registered _ n _ => m ≤ n
  | .unregistered _ => False
  | .unavailable _ _ _ => True

structure Judged (F : Formats) (log : List (String × ℕ)) (x : String) (verdict : RegistryVerdict) : Prop where
  subject : verdict.subject = x
  allows : ∀ m, (x, m) ∈ log → verdict.Allows m
  signed : ∀ n hosts, verdict = .registered x n hosts → Signed F x n

lemma judged_unavailable {reason : UnavailableReason} {message : String} :
    Judged F log x (.unavailable x reason message) :=
  ⟨rfl, fun _ _ => trivial, fun _ _ h => (nomatch h)⟩

lemma judged_notFound {remembered : Option ℕ} {body : String} (hknown : ∀ n, (x, n) ∈ log → Covers remembered n) :
    Judged F log x (notFoundVerdict x remembered body) := by
  unfold notFoundVerdict
  split
  · exact judged_unavailable
  · split
    · exact judged_unavailable
    · refine ⟨rfl, fun m hm => ?_, fun _ _ h => (nomatch h)⟩
      obtain ⟨k, hk, -⟩ := hknown m hm
      cases hk

lemma judged_record {remembered : Option ℕ} {body : String} {record : V1Record}
    (hrecord : F.parseRecordResponse body = .ok record) (hknown : ∀ n, (x, n) ∈ log → Covers remembered n) :
    Judged F log x (recordVerdict F x remembered record) := by
  unfold recordVerdict
  split_ifs with hsubject hsigned hlow
  · exact judged_unavailable
  · exact judged_unavailable
  · exact judged_unavailable
  · refine ⟨rfl, fun m hm => ?_, fun n hosts h => ?_⟩
    · obtain ⟨k, rfl, hle⟩ := hknown m hm
      simp only [Option.any_some, decide_eq_true_eq, not_lt] at hlow
      exact Nat.le_trans hle hlow
    · cases h
      exact ⟨body, record, hrecord, by simpa using hsigned, not_not.mp hsubject, rfl⟩

lemma judged_observed {remembered : Option ℕ} {observed : RegistryObservation}
    (hknown : ∀ n, (x, n) ∈ log → Covers remembered n) (h : observedVerdict F x remembered observed = .ok verdict) :
    Judged F log x verdict := by
  unfold observedVerdict at h
  split at h
  · cases h
    exact judged_unavailable
  · cases h
    exact judged_unavailable
  · unfold classifyRegistryLookup at h
    split_ifs at h
    cases h
    split
    · exact judged_unavailable
    · exact judged_unavailable
    · split_ifs
      · exact judged_unavailable
      · exact judged_unavailable
      · exact judged_notFound hknown
      · split
        · exact judged_unavailable
        · rename_i record hrecord
          exact judged_record hrecord hknown

end Verdicts

section Invariant

/-- The sequences remembered before the call read the store. -/
def Call.before (call : Call) (log : List (String × ℕ)) : List (String × ℕ) := log.take call.since

inductive Phase.Sound (F : Formats) (backed : Bool) (log : List (String × ℕ)) (subject : String) : Phase → Prop
  | asked : Phase.Sound F backed log subject .asked
  | readStorage {found : Option ℕ} (h : ∀ n, (subject, n) ∈ log → Covers found n) :
      Phase.Sound F backed log subject (.readStorage found)
  | looking {remembered : Option ℕ} (h : ∀ n, (subject, n) ∈ log → Covers remembered n) :
      Phase.Sound F backed log subject (.looking remembered)
  | remembering {verdict : RegistryVerdict} {sequence : ℕ} (h : Judged F log subject verdict) :
      Phase.Sound F backed log subject (.remembering verdict sequence)
  | saving {verdict : RegistryVerdict} {sequence : ℕ} (hb : backed = true) (h : Judged F log subject verdict) :
      Phase.Sound F backed log subject (.saving verdict sequence)
  | writing {verdict : RegistryVerdict} {sequence : ℕ} {found : Dict String ℕ} (hb : backed = true)
      (h : Judged F log subject verdict) (hlow : (found.get? subject).any (sequence ≤ ·) = false) :
      Phase.Sound F backed log subject (.writing verdict sequence found)
  | returning {verdict : RegistryVerdict} (h : Judged F log subject verdict) :
      Phase.Sound F backed log subject (.returning verdict)

structure Call.Sound (F : Formats) (backed : Bool) (log : List (String × ℕ)) (call : Call) : Prop where
  tab : backed = true ∨ call.tab = 0
  since : call.since ≤ log.length
  phase : Phase.Sound F backed (call.before log) call.subject call.phase

/-- What is remembered is in `localStorage`, or in the one page's memory. -/
structure Lookups.Sound (F : Formats) (backed : Bool) (s : Lookups) : Prop where
  kept : ∀ x n, (x, n) ∈ s.log →
    if backed then ∃ found, s.store.storage.read = some found ∧ Covers (found.get? x) n
    else Covers (s.store.memory 0 x) n
  calls : ∀ c call, s.calls c = some call → call.Sound F backed s.log

lemma Call.Sound.grow (h : call.Sound F backed log) (more : List (String × ℕ)) : call.Sound F backed (log ++ more) := by
  refine ⟨h.tab, by rw [List.length_append]; exact Nat.le_add_right_of_le h.since, ?_⟩
  rw [Call.before, List.take_append_of_le_length h.since]
  exact h.phase

lemma Lookups.Sound.put (h : s.Sound F backed) {next : Option Call}
    (hnext : ∀ call, next = some call → call.Sound F backed s.log) : (s.put c next).Sound F backed := by
  refine ⟨h.kept, fun d call hd => ?_⟩
  simp only [Lookups.put, Function.update_apply] at hd
  split at hd
  · exact hnext call hd
  · exact h.calls d call hd

lemma Lookups.Sound.go (h : s.Sound F backed) (hcall : call.Sound F backed s.log) {phase : Phase}
    (hphase : Phase.Sound F backed (call.before s.log) call.subject phase) : (s.go c call phase).Sound F backed := by
  refine h.put fun next hnext => ?_
  cases hnext
  exact ⟨hcall.tab, hcall.since, hphase⟩

lemma Lookups.Sound.remembered (h : s.Sound F backed) (hcall : call.Sound F backed s.log) {sequence : ℕ}
    (hjudged : Judged F (call.before s.log) call.subject verdict)
    (hkept : if backed then ∃ found, s.store.storage.read = some found ∧ Covers (found.get? call.subject) sequence
      else Covers (s.store.memory 0 call.subject) sequence) :
    (s.remembered c call verdict sequence).Sound F backed := by
  have hgrown : Lookups.Sound F backed { s with log := s.log ++ [(call.subject, sequence)] } := by
    refine ⟨fun x n hin => ?_, fun d call hd => (h.calls d call hd).grow _⟩
    rcases List.mem_append.mp hin with hin | hin
    · exact h.kept x n hin
    · cases List.mem_singleton.mp hin
      exact hkept
  refine hgrown.go (hcall.grow _) (.returning ?_)
  rw [Call.before, List.take_append_of_le_length hcall.since]
  exact hjudged

lemma calls_of_turn (h : s.turn c = some call) : s.calls c = some call := by
  obtain ⟨found, hf, h⟩ := Option.bind_eq_some_iff.mp h
  split at h
  · cases h
  · cases h
    exact hf

/-- A call may write over what it read while that is still there, and may return while nothing that contradicts its
verdict has been remembered since it read the store. -/
def Undisturbed (s : Lookups) : Action → Prop
  | .write c false => ∀ call verdict sequence found, s.calls c = some call →
      call.phase = .writing verdict sequence found → s.store.storage.read = some found
  | .finish c => ∀ call verdict, s.calls c = some call → call.phase = .returning verdict →
      ∀ m, (call.subject, m) ∈ s.log.drop call.since → verdict.Allows m
  | _ => True

lemma sound_readStorage {throws : Bool} (h : s.Sound F backed) (hs : lookupStep F backed s (.readStorage c throws) = some s') :
    s'.Sound F backed := by
  obtain ⟨call, hturn, hs⟩ := Option.bind_eq_some_iff.mp hs
  have hcall := h.calls c call (calls_of_turn hturn)
  split at hs
  · cases backed with
    | false => cases hs
    | true =>
      simp only [Bool.not_true, Bool.false_eq_true, if_false] at hs
      split at hs
      · cases hs
        exact h.put fun _ hnext => by cases hnext
      · rename_i found hread
        cases hs
        refine h.put fun next hnext => ?_
        cases hnext
        refine ⟨.inl rfl, Nat.le_refl _, .readStorage fun n hn => ?_⟩
        obtain ⟨kept, hkept, hcover⟩ := h.kept _ n (List.mem_of_mem_take hn)
        cases throws with
        | true => cases hread
        | false =>
          cases hkept.symm.trans hread
          exact hcover
  · cases hs

lemma sound_readMemory (h : s.Sound F backed) (hs : lookupStep F backed s (.readMemory c) = some s') :
    s'.Sound F backed := by
  obtain ⟨call, hturn, hs⟩ := Option.bind_eq_some_iff.mp hs
  have hcall := h.calls c call (calls_of_turn hturn)
  have hphase := hcall.phase
  split at hs
  · cases backed with
    | true => cases hs
    | false =>
      cases hs
      refine h.put fun next hnext => ?_
      cases hnext
      refine ⟨hcall.tab, Nat.le_refl _, .looking fun n hn => ?_⟩
      have htab : call.tab = 0 := hcall.tab.resolve_left (by simp)
      rw [htab]
      exact h.kept _ n (List.mem_of_mem_take hn)
  · rename_i found hat
    rw [hat] at hphase
    cases hs
    cases hphase with
    | readStorage hknown => exact h.go hcall (.looking fun n hn => covers_highest.mpr (.inl (hknown n hn)))
  · cases hs

lemma sound_observe {observed : RegistryObservation} (h : s.Sound F backed)
    (hs : lookupStep F backed s (.observe c observed) = some s') : s'.Sound F backed := by
  obtain ⟨call, hturn, hs⟩ := Option.bind_eq_some_iff.mp hs
  have hcall := h.calls c call (calls_of_turn hturn)
  have hphase := hcall.phase
  split at hs
  · rename_i remembered hat
    rw [hat] at hphase
    cases hphase with
    | looking hknown =>
      split at hs
      · cases hs
        exact h.put fun _ hnext => (nomatch hnext)
      · rename_i verdict hverdict
        have hjudged : Judged F (call.before s.log) call.subject verdict := judged_observed hknown hverdict
        split at hs
        · cases hs
          exact h.go hcall (.remembering hjudged)
        · cases hs
          exact h.go hcall (.returning hjudged)
  · cases hs

/-- Memory that grew keeps what it had. -/
lemma Lookups.Sound.memory (h : s.Sound F backed) (tab : ℕ) (x : String) (q : ℕ) :
    Lookups.Sound F backed { s with store := s.store.remember tab x q } := by
  refine ⟨fun y n hin => ?_, h.calls⟩
  have hkept := h.kept y n hin
  cases backed with
  | true => exact hkept
  | false => exact covers_remember s.store tab 0 x y q hkept

lemma sound_remember (h : s.Sound F backed) (hs : lookupStep F backed s (.remember c) = some s') : s'.Sound F backed := by
  obtain ⟨call, hturn, hs⟩ := Option.bind_eq_some_iff.mp hs
  have hcall := h.calls c call (calls_of_turn hturn)
  have hphase := hcall.phase
  split at hs
  · rename_i verdict sequence hat
    rw [hat] at hphase
    cases hphase with
    | remembering hjudged =>
      have hmemory := h.memory call.tab call.subject sequence
      cases backed with
      | true =>
        cases hs
        exact hmemory.go hcall (.saving rfl hjudged)
      | false =>
        cases hs
        have htab : call.tab = 0 := hcall.tab.resolve_left (by simp)
        refine hmemory.remembered hcall hjudged ?_
        rw [htab]
        exact covers_remembered s.store 0 call.subject sequence
  · cases hs

lemma Lookups.Sound.writer (h : s.Sound F backed) (writer : ℕ → Option ℕ) :
    Lookups.Sound F backed { s with writer := writer } := ⟨h.kept, h.calls⟩

lemma sound_readAgain {throws : Bool} (h : s.Sound F backed)
    (hs : lookupStep F backed s (.readAgain c throws) = some s') : s'.Sound F backed := by
  obtain ⟨call, hturn, hs⟩ := Option.bind_eq_some_iff.mp hs
  have hcall := h.calls c call (calls_of_turn hturn)
  have hphase := hcall.phase
  split at hs
  · rename_i verdict sequence hat
    rw [hat] at hphase
    cases hphase with
    | saving hb hjudged =>
      split at hs
      · cases hs
        exact h.go hcall (.returning hjudged)
      · rename_i found hread
        have hread : s.store.storage.read = some found := by
          cases throws with
          | true => cases hread
          | false => exact hread
        split at hs
        · rename_i hseen
          cases hs
          refine h.remembered hcall hjudged ?_
          subst hb
          cases hm : found.get? call.subject with
          | none =>
            rw [hm] at hseen
            cases hseen
          | some m =>
            rw [hm] at hseen
            exact ⟨found, hread, m, hm, by simpa using hseen⟩
        · rename_i hlow
          cases hs
          have hheld := h.writer (Function.update s.writer call.tab (some c))
          exact hheld.go hcall (.writing hb hjudged (by simpa using hlow))
  · cases hs

lemma sound_write {throws : Bool} (h : s.Sound F backed) (ha : Undisturbed s (.write c throws))
    (hs : lookupStep F backed s (.write c throws) = some s') : s'.Sound F backed := by
  obtain ⟨call, hturn, hs⟩ := Option.bind_eq_some_iff.mp hs
  have hcall := h.calls c call hturn
  have hphase := hcall.phase
  split at hs
  · rename_i verdict sequence found hat
    rw [hat] at hphase
    cases hphase with
    | writing hb hjudged hlow =>
      have hfree := h.writer (Function.update s.writer call.tab none)
      cases throws with
      | true =>
        cases hs
        exact hfree.go hcall (.returning hjudged)
      | false =>
        cases hs
        subst hb
        have hread : s.store.storage.read = some found := ha call verdict sequence found hturn hat
        have hwritten : Lookups.Sound F true { s with
            writer := Function.update s.writer call.tab none
            store := { s.store with storage := .sequences (found.set call.subject sequence) } } := by
          refine ⟨fun x n hin => ?_, h.calls⟩
          obtain ⟨kept, hkept, m, hm, hle⟩ := h.kept x n hin
          cases hkept.symm.trans hread
          refine ⟨_, rfl, ?_⟩
          rw [Dict.get?_set]
          split
          · rename_i he
            subst he
            rw [hm] at hlow
            simp only [Option.any_some, decide_eq_false_iff_not, not_le] at hlow
            exact ⟨sequence, rfl, Nat.le_trans hle (Nat.le_of_lt hlow)⟩
          · exact ⟨m, hm, hle⟩
        exact hwritten.remembered hcall hjudged ⟨_, rfl, sequence, Dict.get?_set_self _ _ _, Nat.le_refl _⟩
  · cases hs

lemma sound_step {a : Action} (h : s.Sound F backed) (ha : Undisturbed s a) (hs : lookupStep F backed s a = some s') :
    s'.Sound F backed := by
  cases a with
  | start c tab subject =>
    rw [lookupStep] at hs
    split at hs
    · cases hs
    · rename_i hok
      cases hs
      refine h.put fun next hnext => ?_
      cases hnext
      refine ⟨?_, Nat.zero_le _, .asked⟩
      simp only [Bool.or_eq_true, not_or, Bool.not_eq_true', Bool.not_eq_false] at hok
      simpa using hok.1.2
  | readStorage c throws => exact sound_readStorage h hs
  | readMemory c => exact sound_readMemory h hs
  | observe c observed => exact sound_observe h hs
  | remember c => exact sound_remember h hs
  | readAgain c throws => exact sound_readAgain h hs
  | write c throws => exact sound_write h ha hs
  | finish c =>
    obtain ⟨call, hturn, hs⟩ := Option.bind_eq_some_iff.mp hs
    split at hs
    · cases hs
      exact h.put fun _ hnext => (nomatch hnext)
    · cases hs

lemma sound_of_within (h : (lookupMachine F backed).Within Undisturbed s) : s.Sound F backed := by
  refine h.invariant (fun s hs => ?_) fun s a t _ hsound ha hstep => sound_step hsound ha hstep
  obtain ⟨hcalls, -, -, hlog⟩ := hs
  refine ⟨fun x n hin => ?_, fun c call hc => ?_⟩
  · rw [hlog] at hin
    cases hin
  · rw [hcalls] at hc
    cases hc

end Invariant

section Owners

def answered (c : ℕ) (subject : String) : Action := .observe c (.response (.http 200 subject))

def notFound (c : ℕ) : Action := .observe c (.response (.http 404 REGISTRY_NOT_FOUND_BODY))

end Owners

end TinyCloud.Registry
