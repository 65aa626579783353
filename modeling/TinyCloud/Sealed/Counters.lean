import TinyCloud.Sealed.Recount

/-! The revision covers every write of a sealed partition: what a call has read since its snapshot is what it replaces. -/

namespace TinyCloud.Sealed

open TinyCloud.Collections TinyCloud.Replica TinyCloud.Runs

section Revision

/-- Zero before there is any metadata. -/
def stageOf (row : Option SealedMeta) : ℕ := row.elim 0 fun r => r.revision + 1

/-- The others leave the partition alone, or raise its revision. -/
def Later (s t : Partition) : Prop := t = s ∨ stageOf s.metaRow < stageOf t.metaRow

def protocol (ids : Ids) : Protocol ℕ Partition Op Op.Res where
  exec _ o s r t := ∃ c, runOp c s o = (r, t)
  inv := Sound ids
  rely _ := Later
  guar _ := Later
  compatible _ h := h

/-- What holds of the partition for as long as its revision is that of the row. -/
def While (row : Option SealedMeta) (Q : Partition → Prop) (s : Partition) : Prop :=
  stageOf row ≤ stageOf s.metaRow ∧ (stageOf s.metaRow = stageOf row → Q s)

variable {ids : Ids} {x : ℕ} {s t : Partition} {row : Option SealedMeta} {Q : Partition → Prop} {o : Op} {h : Handle}

lemma stable_while : (protocol ids).Stable x (While row Q) := by
  rintro s t ⟨hle, hQ⟩ (rfl | hlt)
  · exact ⟨hle, hQ⟩
  · exact ⟨by omega, fun heq => by omega⟩

lemma stageOf_of_revision (h : s.metaRow.map SealedMeta.revision = row.map SealedMeta.revision) :
    stageOf s.metaRow = stageOf row := by
  cases hs : s.metaRow with
  | none => cases row with
    | none => rfl
    | some r => simp [hs] at h
  | some r' => cases row with
    | none => simp [hs] at h
    | some r =>
      simp only [hs, Option.map_some, Option.some.injEq] at h
      simp [stageOf, h]

lemma stageOf_sealedMeta (state : Live) (counters : Option Counters) :
    stageOf row < stageOf (some (sealedMeta state row counters)) := by
  cases row with
  | none => exact Nat.succ_pos _
  | some r => exact Nat.lt_succ_self _

lemma erasePartition_later (hs : Sound ids s) : Later s (erasePartition s) := by
  cases hrow : s.metaRow with
  | none =>
    left
    rw [erasePartition, hrow]
    obtain ⟨metaRow, entries, blobs⟩ := s
    obtain rfl : metaRow = none := hrow
    obtain ⟨rfl, rfl⟩ := hs.blank rfl
    rfl
  | some old =>
    cases hstate : old.state with
    | none =>
      left
      simp only [erasePartition, hrow, hstate]
    | some state =>
      right
      simp only [erasePartition, hrow, hstate, stageOf, Option.elim_some]
      exact Nat.lt_succ_self _

end Revision

section Rules

variable {ids : Ids} {x : ℕ} {α β : Type} {row : Option SealedMeta} {P Q : Partition → Prop} {R : β → Partition → Prop}

/-- A call that needs nothing, whatever it finds. -/
def Safe (ids : Ids) (x : ℕ) (P : Partition → Prop) (m : Call α) : Prop :=
  (protocol ids).Spec x P m (fun _ _ => True) fun _ _ => True

lemma Safe.pure (a : α) : Safe ids x P (Pure.pure a) := Protocol.Spec.pure fun _ _ _ => trivial

lemma Safe.throw (e : SealedError) : Safe ids x P (MonadExcept.throw e : Call α) := Protocol.Spec.throw fun _ _ _ => trivial

lemma Safe.mono {P' : Partition → Prop} {m : Call α} (h : Safe ids x P m) (hP : ∀ s, P' s → P s) : Safe ids x P' m :=
  Protocol.Spec.mono h (fun s _ hs => hP s hs) (fun _ _ _ h => h) (fun _ _ _ h => h)

lemma Safe.bind {m : Call α} {f : α → Call β} {Q : α → Partition → Prop}
    (hm : (protocol ids).Spec x P m Q fun _ _ => True) (hf : ∀ a, Safe ids x (Q a) (f a)) : Safe ids x P (m >>= f) :=
  Protocol.Spec.bind hm hf

lemma Safe.check {r : Except SealedError α} {f : α → Call β} (hf : ∀ a, r = .ok a → Safe ids x P (f a)) :
    Safe ids x P (check r >>= f) := by
  cases r with
  | ok a => exact hf a rfl
  | error e => exact Safe.throw e

lemma perform_spec {o : Op} {R : o.Res → Partition → Prop} (hR : ∀ a, (protocol ids).Stable x (R a))
    (h : ∀ s c r t, Sound ids s → P s → runOp c s o = (r, t) → Sound ids t ∧ Later s t ∧ ∀ a, r = some a → R a t) :
    (protocol ids).Spec x P (perform o) R fun _ _ => True := by
  refine Protocol.Spec.perform hR Protocol.Stable.const ?_
  rintro s hs hP r t ⟨c, hc⟩
  obtain ⟨ht, hlater, hr⟩ := h s c r t hs hP hc
  refine ⟨ht, hlater, ?_⟩
  cases r with
  | none => trivial
  | some a => exact hr a rfl

lemma now_spec (hP : (protocol ids).Stable x P) : (protocol ids).Spec x P (perform .now) (fun _ => P) fun _ _ => True := by
  refine perform_spec (fun _ => hP) fun s c r t hs hp hc => ?_
  cases hc
  exact ⟨hs, .inl rfl, fun _ _ => hp⟩

lemma policyView_spec (hP : (protocol ids).Stable x P) :
    (protocol ids).Spec x P (perform .policyView) (fun _ => P) fun _ _ => True := by
  refine perform_spec (fun _ => hP) fun s c r t hs hp hc => ?_
  cases hc
  exact ⟨hs, .inl rfl, fun _ _ => hp⟩

lemma getMeta_spec : (protocol ids).Spec x P (perform .getMeta)
    (fun row => While row fun s => s.metaRow = row) fun _ _ => True := by
  refine perform_spec (fun _ => stable_while) fun s c r t hs _ hc => ?_
  cases hc
  refine ⟨hs, .inl rfl, fun row hr => ?_⟩
  split_ifs at hr
  cases hr
  exact ⟨le_rfl, fun _ => rfl⟩

lemma getRows_spec : (protocol ids).Spec x (While row fun s => s.metaRow = row) (perform .getRows)
    (fun rows => While row fun s => s.metaRow = row ∧ s.entries = rows.1 ∧ s.blobs = rows.2) fun _ _ => True := by
  refine perform_spec (fun _ => stable_while) fun s c r t hs hP hc => ?_
  cases hc
  refine ⟨hs, .inl rfl, fun rows hr => ?_⟩
  split_ifs at hr
  cases hr
  exact ⟨hP.1, fun heq => ⟨hP.2 heq, rfl, rfl⟩⟩

/-- A commit stores its write at the given revision, or nothing. -/
lemma runOp_commit {c : Choice} {s t : Partition} {revision : Option ℕ} {checks : ℕ → Except SealedError Unit} {w : Write}
    {r : Option Committed} (hc : runOp c s (.commit revision checks w) = (r, t)) :
    t = s ∨ s.metaRow.map SealedMeta.revision = revision ∧ t = w.apply s := by
  simp only [runOp] at hc
  split_ifs at hc with hfails hrevision
  · cases hc
    exact .inl rfl
  · cases hc
    exact .inl rfl
  · rw [not_not] at hrevision
    cases hchecks : checks c.now with
    | error e =>
      rw [hchecks] at hc
      cases hc
      exact .inl rfl
    | ok u =>
      rw [hchecks] at hc
      cases hc
      exact .inr ⟨hrevision, rfl⟩

/-- A commit is safe if its write is, on any partition that the call may take for the one it has read. -/
lemma commit_spec {checks : ℕ → Except SealedError Unit} {w : Write}
    (h : ∀ s, Sound ids s → Q s → Sound ids (w.apply s) ∧ stageOf row < stageOf (w.apply s).metaRow) :
    (protocol ids).Spec x (While row Q) (commit row checks w) (fun _ _ => True) fun _ _ => True := by
  refine Safe.bind (Q := fun _ _ => True) (perform_spec (fun _ => Protocol.Stable.const) ?_) fun a => ?_
  · intro s c r t hs hP hc
    obtain rfl | ⟨hrevision, rfl⟩ := runOp_commit hc
    · exact ⟨hs, .inl rfl, fun _ _ => trivial⟩
    · have heq := stageOf_of_revision hrevision
      obtain ⟨ht, hlt⟩ := h s hs (hP.2 heq)
      exact ⟨ht, .inr (heq ▸ hlt), fun _ _ => trivial⟩
  · cases a with
    | done => exact Safe.pure _
    | conflict => exact Safe.pure _
    | refused e => exact Safe.throw e

lemma snapshot_spec : (protocol ids).Spec x P snapshot (fun row => While row fun s => s.metaRow = row) fun _ _ => True := by
  refine Protocol.Spec.bind getMeta_spec fun row => ?_
  unfold authentic
  split
  · exact Protocol.Spec.pure fun _ _ h => h
  · split
    · exact Protocol.Spec.pure fun _ _ h => h
    · exact Protocol.Spec.throw fun _ _ _ => trivial

lemma Safe.withAttempts {attempt : Call (Option α)} (h : ∀ P, Safe ids x P attempt) (n : ℕ) :
    Safe ids x P (withAttempts attempt n) := by
  induction n generalizing P with
  | zero => exact Safe.throw _
  | succ n ih =>
    refine Safe.bind (h P) fun a => ?_
    cases a with
    | some a => exact Safe.pure a
    | none => exact ih

end Rules

section Calls

variable {ids : Ids} {x : ℕ} {P : Partition → Prop} {h : Handle}

lemma live_ne_none {row : Option SealedMeta} {state : Live} (hlive : live h row = .ok state) : row ≠ none := by
  rintro rfl
  cases hlive

lemma commitMeta_safe (w : MetaWrite) : Safe ids x P (commitMeta h w) := by
  refine Safe.withAttempts (fun P => ?_) _
  refine Safe.bind snapshot_spec fun row => Safe.check fun state _ => ?_
  refine Safe.bind (policyView_spec stable_while) fun deadlines => Safe.bind (now_spec stable_while) fun now => ?_
  refine Safe.check fun next _ => ?_
  cases next with
  | none => exact Safe.pure _
  | some next =>
    refine Safe.bind (commit_spec fun s hs hrow => ?_) fun committed => Safe.pure _
    subst hrow
    exact ⟨hs.commitMeta next, stageOf_sealedMeta next none⟩

lemma eraseRows_safe (change : Live → Live) (token : Option LeaseToken) : Safe ids x P (eraseRows h change token) := by
  refine Safe.withAttempts (fun P => ?_) _
  refine Safe.bind snapshot_spec fun row => Protocol.Spec.ite (fun _ => Safe.pure _) fun _ => Safe.check fun state _ => ?_
  refine Safe.bind (now_spec stable_while) fun now => Safe.check fun _ _ => ?_
  refine Safe.bind (commit_spec fun s hs hrow => ?_) fun committed => Safe.pure _
  exact ⟨sound_empty _ rfl, stageOf_sealedMeta (change state) _⟩

lemma collectGarbage_safe (token : LeaseToken) : Safe ids x P (collectGarbage h token) := by
  refine Safe.withAttempts (fun P => ?_) _
  refine Safe.bind snapshot_spec fun row => Safe.check fun state _ => ?_
  refine Safe.bind (now_spec stable_while) fun now => Safe.check fun _ _ => ?_
  refine Safe.bind getRows_spec fun ⟨entries, blobs⟩ => Protocol.Spec.ite (fun _ => Safe.pure _) fun _ => ?_
  refine Safe.bind (commit_spec fun s hs hread => ?_) fun committed => Safe.pure _
  obtain ⟨rfl, rfl, rfl⟩ := hread
  exact ⟨hs.collectGarbage state, stageOf_sealedMeta state none⟩

lemma applyPage_safe (hids : Function.Injective ids.entry) (token : LeaseToken) (page : VerifiedPage) :
    Safe ids x P (applyPage ids h token page) := by
  refine Safe.withAttempts (fun P => ?_) _
  refine Safe.bind snapshot_spec fun row => Safe.check fun state hlive => ?_
  refine Safe.bind (now_spec stable_while) fun now => Safe.check fun _ _ => ?_
  refine Safe.bind (policyView_spec stable_while) fun deadlines => ?_
  refine Safe.bind getRows_spec fun ⟨oldEntries, oldBlobs⟩ => Safe.check fun blobs _ => Safe.check fun prepared hprepared => ?_
  refine Safe.bind (commit_spec fun s hs hread => ?_) fun committed => Safe.pure _
  obtain ⟨rfl, rfl, rfl⟩ := hread
  refine ⟨hs.applyPage hids _ (live_ne_none hlive) (fun id hid => ?_) hprepared, stageOf_sealedMeta _ _⟩
  split_ifs at hid
  · exact hid
  · exact absurd rfl hid

lemma discard_sat {α : Type} {call : Call α} (hcall : Safe ids x P call) :
    (protocol ids).Sat x (fun _ _ => True) (discard call) P :=
  Protocol.Sat.bind hcall fun _ _ _ _ => trivial

lemma program_sat (hids : Function.Injective ids.entry) (request : Request) :
    (protocol ids).Sat x (fun _ _ => True) (program ids h request) fun _ => True := by
  cases request with
  | commitMeta w => exact discard_sat (commitMeta_safe w)
  | applyPage token page => exact discard_sat (applyPage_safe hids token page)
  | reset token keepSource => exact discard_sat (eraseRows_safe _ _)
  | markRevoked detail => exact discard_sat (eraseRows_safe _ _)
  | collectGarbage token => exact discard_sat (collectGarbage_safe token)

end Calls

section Runs

variable {ids : Ids} {s t : System} {a : Action}

def Kept (ids : Ids) (s : System) : Prop := (protocol ids).Settled s.calls s.partition

lemma Kept.start (hids : Function.Injective ids.entry) (hs : Kept ids s) {x : ℕ} (h : Handle) (request : Request) :
    Kept ids { s with calls := Function.update s.calls x (some (program ids h request)) } :=
  Protocol.Settled.start hs Protocol.Stable.const trivial (program_sat hids request)

lemma Kept.step (hids : Function.Injective ids.entry) (hs : Kept ids s) (ht : step ids s a = some t) : Kept ids t := by
  cases a with
  | start x h request =>
    simp only [Sealed.step] at ht
    split at ht
    · cases ht
    · cases ht
      exact hs.start hids h request
  | run x c =>
    simp only [Sealed.step] at ht
    split at ht
    · rename_i o next hx
      cases ht
      exact Protocol.Settled.step hs hx ⟨c, rfl⟩
    · cases ht
  | crash x =>
    cases ht
    refine Protocol.Settled.fewer hs fun y p hy => ?_
    by_cases hyx : y = x
    · simp [hyx] at hy
    · exact (Function.update_of_ne hyx _ _).symm.trans hy
  | purge =>
    cases ht
    exact Protocol.Settled.outside hs hs.1.erasePartition fun _ _ => erasePartition_later hs.1

/-- In every reachable state the counters are those that decrypting all entries gives, and the content of every live
entry that has one is stored under the entry's opaque id. -/
theorem counters_recount (hids : Function.Injective ids.entry) (hs : (machine ids).Reachable s) :
    (∀ row, s.partition.metaRow = some row → row.counters = recount s.partition.entries) ∧
    (s.partition.metaRow = none → s.partition.entries = .empty) ∧
    ∀ id e, s.partition.entries.get? id = some e → e.hasContent = true → ∃ row, e.row.entry = .live row ∧
      e.hashId = some (ids.blob row.hash) ∧ s.partition.blobs.get? (ids.blob row.hash) ≠ none := by
  have hkept : Kept ids s := by
    refine Machine.Reachable.invariant hs ?_ fun s a t hs ht => hs.step hids ht
    rintro s rfl
    refine ⟨⟨fun row hrow => (by cases hrow), fun _ => ⟨rfl, rfl⟩, fun id e he => (by cases he)⟩, fun x p hx => ?_⟩
    cases hx
  exact ⟨hkept.1.counted, fun hrow => (hkept.1.blank hrow).1, hkept.1.backed⟩

section Sample

def plainIds : Ids := ⟨fun key => key, fun hash => hash⟩

def sampleHash : String := String.ofList (List.replicate 64 'a')

def liveRow (key : String) (content : Bool) : VerifiedChange := .live ⟨key, "etag", sampleHash, [], content⟩

/-- A key that comes twice, one without its content, and a deletion. -/
def sampleFeed : VerifiedPage where
  changes := [liveRow "a" false, .deleted "b", liveRow "a" true, liveRow "c" false]
  blobs := [(sampleHash, ⟨#[1, 2, 3]⟩)]
  cursor := some "cursor"
  source := ⟨"did", "space", "/"⟩
  authority := none
  coverage := .complete
  retentionGrantCid := none
  window := ⟨none, none⟩
  complete := true
  promoteGrant := some ⟨"cid", none, none⟩

def sampleChoice : Choice := ⟨false, 10, ⟨1000, fun _ => some 1000⟩⟩

def callAll (x : ℕ) (request : Request) (n : ℕ) : List Action :=
  .start x ⟨"tab", 0⟩ request :: List.replicate n (.run x sampleChoice)

def sampleRun : List Action :=
  callAll 0 (.commitMeta (init "space" "/" .whileGrantValid none)) 4 ++
    callAll 1 (.commitMeta (acquireSyncLease ⟨"tab", 0⟩ 100)) 4 ++ callAll 2 (.applyPage ⟨1, "tab"⟩ sampleFeed) 5

def blank : System := ⟨⟨none, .empty, .empty⟩, fun _ => none⟩

def counted (s : System) : Option Counters × ℕ :=
  (s.partition.metaRow.map SealedMeta.counters, s.partition.entries.entries.length)

theorem counters_recount_sample : ∃ s, (machine plainIds).run blank sampleRun = some s ∧
    counted s = (some ⟨2, 1, 1, 3⟩, 3) ∧
    (∀ row, s.partition.metaRow = some row → row.counters = recount s.partition.entries) := by
  have hrun : ((machine plainIds).run blank sampleRun).map counted = some (some ⟨2, 1, 1, 3⟩, 3) := by decide +kernel
  obtain ⟨s, hs, hcounted⟩ := Option.map_eq_some_iff.mp hrun
  have hreach : (machine plainIds).Reachable s := Machine.Reachable.of_run (.start rfl) hs
  exact ⟨s, hs, hcounted, (counters_recount (fun _ _ h => h) hreach).1⟩

end Sample

end Runs

end TinyCloud.Sealed
