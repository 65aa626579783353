import TinyCloud.Courier.WatchQueue

/-! The wake budget over whole runs: the attempts that state writes record, the copies of the
watchers that may still write, and the adapters started since a thread was last resumed. -/

namespace TinyCloud.Courier

open TinyCloud.Runs

section Log

namespace WatchEvent

def isResumed (key : ThreadKey) : WatchEvent → Bool
  | .resumed k => k == key
  | _ => false

def startsOn (key : ThreadKey) (day : ℕ) : WatchEvent → Bool
  | .started _ k s at_ => k == key && !s.messages.isEmpty && dayOf at_ == day
  | _ => false

def recordsOn (key : ThreadKey) (day : ℕ) : WatchEvent → Bool
  | .recorded _ k at_ => k == key && dayOf at_ == day
  | _ => false

def run : WatchEvent → Option ℕ
  | .started w _ _ _ => some w
  | .recorded w _ _ => some w
  | _ => none

def Quiet : WatchEvent → Prop
  | .woke _ _ => True
  | .dropped _ => True
  | _ => False

end WatchEvent

variable {key k : ThreadKey} {p q : WatchEvent → Bool} {e : WatchEvent} {es log : List WatchEvent} {w day : ℕ}

/-- The events since the thread was last seen to be resumed. -/
def tally (p : WatchEvent → Bool) (key : ThreadKey) (log : List WatchEvent) : ℕ :=
  (log.takeWhile fun e => !e.isResumed key).countP p

/-- The adapter runs of a thread that carry messages, by the day they were started on. -/
def wakesOn (key : ThreadKey) (day : ℕ) : List WatchEvent → ℕ := tally (WatchEvent.startsOn key day) key

def recordedOn (key : ThreadKey) (day : ℕ) : List WatchEvent → ℕ := tally (WatchEvent.recordsOn key day) key

def startedBy (w : ℕ) (key : ThreadKey) (day : ℕ) : List WatchEvent → ℕ :=
  tally (fun e => e.startsOn key day && decide (e.run = some w)) key

def recordedBy (w : ℕ) (key : ThreadKey) (day : ℕ) : List WatchEvent → ℕ :=
  tally (fun e => e.recordsOn key day && decide (e.run = some w)) key

lemma tally_cons (p : WatchEvent → Bool) (key : ThreadKey) (e : WatchEvent) (log : List WatchEvent) :
    tally p key (e :: log) = if e.isResumed key then 0 else tally p key log + if p e then 1 else 0 := by
  unfold tally
  rw [List.takeWhile_cons]
  cases e.isResumed key <;> simp [List.countP_cons]

lemma tally_quiet (h : ∀ e ∈ es, e.isResumed key = false ∧ p e = false) :
    tally p key (es ++ log) = tally p key log := by
  induction es with
  | nil => rfl
  | cons e es ih =>
    obtain ⟨hr, hp⟩ := h e List.mem_cons_self
    have := ih fun e he => h e (List.mem_cons_of_mem _ he)
    simp [tally_cons, hr, hp, this]

lemma tally_resumed (hp : ∀ k, p (.resumed k) = false) (resumed : List ThreadKey) :
    tally p key (resumed.map .resumed ++ log) = if key ∈ resumed then 0 else tally p key log := by
  induction resumed with
  | nil => simp
  | cons k resumed ih =>
    rw [List.map_cons, List.cons_append, tally_cons, ih]
    by_cases hk : k = key
    · simp [WatchEvent.isResumed, hk]
    · simp [WatchEvent.isResumed, hk, hp, Ne.symm hk]

/-- What is counted for every run apart is counted for all of them. -/
lemma tally_le_of_runs
    (h : ∀ r, tally (fun e => p e && decide (e.run = r)) key log ≤ tally (fun e => q e && decide (e.run = r)) key log) :
    tally p key log ≤ tally q key log := by
  unfold tally at h ⊢
  generalize log.takeWhile _ = l at h ⊢
  have hcount (p : WatchEvent → Bool) (r : Option ℕ) :
      ((l.filter p).map WatchEvent.run).count r = l.countP fun e => p e && decide (e.run = r) := by
    rw [List.count, List.countP_map, List.countP_filter]
    exact List.countP_congr fun e _ => by simp [and_comm]
  have hle : ((l.filter p).map WatchEvent.run).Subperm ((l.filter q).map WatchEvent.run) := by
    apply List.subperm_ext_iff.mpr
    intro r _
    rw [hcount, hcount]
    exact h r
  simpa [List.countP_eq_length_filter] using hle.length_le

lemma wakesOn_le_recordedOn (h : ∀ w, startedBy w key day log ≤ recordedBy w key day log) :
    wakesOn key day log ≤ recordedOn key day log := by
  apply tally_le_of_runs
  intro r
  cases r with
  | some w => exact h w
  | none =>
    have : tally (fun e => WatchEvent.startsOn key day e && decide (e.run = none)) key log = 0 := by
      apply List.countP_eq_zero.mpr
      intro e _
      cases e <;> simp [WatchEvent.startsOn, WatchEvent.run]
    exact this.trans_le (Nat.zero_le _)

lemma WatchEvent.Quiet.not_resumed (h : e.Quiet) : e.isResumed key = false := by
  cases e <;> first | rfl | cases h

lemma WatchEvent.Quiet.not_starts (h : e.Quiet) : e.startsOn key day = false := by
  cases e <;> first | rfl | cases h

lemma WatchEvent.Quiet.not_records (h : e.Quiet) : e.recordsOn key day = false := by
  cases e <;> first | rfl | cases h

lemma recordedOn_eq_zero (h : ∀ w at_, .recorded w key at_ ∈ log → dayOf at_ ≠ day) :
    recordedOn key day log = 0 := by
  apply List.countP_eq_zero.mpr
  intro e he
  cases e with
  | recorded w k at_ =>
    simp only [WatchEvent.recordsOn, Bool.and_eq_true, beq_iff_eq, not_and]
    rintro rfl
    exact h w at_ (List.takeWhile_sublist _ |>.mem he)
  | started => simp [WatchEvent.recordsOn]
  | resumed => simp [WatchEvent.recordsOn]
  | conflict => simp [WatchEvent.recordsOn]
  | woke => simp [WatchEvent.recordsOn]
  | dropped => simp [WatchEvent.recordsOn]

end Log

section Heads

def Mutation.countsFor (key : ThreadKey) : Mutation → Bool
  | .count k true => k == key
  | _ => false

namespace Job

/-- The tag a watcher will know once its job is over. -/
def tag (known : StateEtag) (j : Job) : StateEtag :=
  match j.phase with
  | .sent _ (.ok (some e)) => .known e
  | .sent _ (.ok none) => .unknown
  | _ => known

/-- An attempt that is counted in the copy, and not yet in the store. -/
def ranOn (key : ThreadKey) (day : ℕ) (j : Job) : ℕ :=
  match j.phase with
  | .ran at_ => if j.mutation.countsFor key && dayOf at_ == day then 1 else 0
  | _ => 0

/-- An attempt that is counted in the store, and whose adapter is not started. -/
def sentOn (key : ThreadKey) (day : ℕ) (j : Job) : ℕ :=
  match j.phase with
  | .sent at_ (.ok _) => if j.mutation.countsFor key && dayOf at_ == day then 1 else 0
  | _ => 0

end Job

namespace Watcher

def tag (W : Watcher) : StateEtag := W.stateQueue.head?.elim W.stateEtag (Job.tag W.stateEtag)

def ranOn (key : ThreadKey) (day : ℕ) (W : Watcher) : ℕ := W.stateQueue.head?.elim 0 (Job.ranOn key day)

def sentOn (key : ThreadKey) (day : ℕ) (W : Watcher) : ℕ := W.stateQueue.head?.elim 0 (Job.sentOn key day)

/-- The watcher lost a race, and knows it or has the answer on its way. -/
def Lost (W : Watcher) : Prop :=
  W.stopping = true ∨ ∃ j at_, W.stateQueue.head? = some j ∧ j.phase = .sent at_ .conflict

end Watcher

variable {W W' : Watcher} {key : ThreadKey} {day : ℕ} {j : Job} {rest : List Job}

lemma countsFor_iff {m : Mutation} : m.countsFor key = true ↔ m = .count key true := by
  cases m with
  | count k carries => cases carries <;> simp [Mutation.countsFor]
  | _ => simp [Mutation.countsFor]

lemma Job.tag_of_queued (h : j.phase = .queued) (known : StateEtag) : j.tag known = known := by simp [Job.tag, h]

lemma Job.ranOn_of_queued (h : j.phase = .queued) : j.ranOn key day = 0 := by simp [Job.ranOn, h]

lemma Job.sentOn_of_queued (h : j.phase = .queued) : j.sentOn key day = 0 := by simp [Job.sentOn, h]

lemma Job.ranOn_le (j : Job) : j.ranOn key day ≤ 1 := by
  unfold Job.ranOn
  split
  · split <;> omega
  · omega

/-- Only the front of the queue matters, and it stays unless the queue was empty. -/
lemma Local.head (h : Local W W') : W'.stateQueue.head? = W.stateQueue.head? ∨
    W.stateQueue.head? = none ∧ ∀ j, W'.stateQueue.head? = some j → j.phase = .queued := by
  obtain ⟨jobs, hq, hjobs⟩ := h.queue
  cases hW : W.stateQueue with
  | nil =>
    refine .inr ⟨rfl, fun j hj => ?_⟩
    rw [hq, hW] at hj
    exact (hjobs j (List.mem_of_head? hj)).1
  | cons j rest =>
    left
    simp [hq, hW]

lemma Local.tag (h : Local W W') : W'.tag = W.tag := by
  unfold Watcher.tag
  rw [h.etag]
  rcases h.head with h | ⟨h, hj⟩
  · rw [h]
  · rw [h]
    cases hW : W'.stateQueue.head? with
    | none => rfl
    | some j => exact Job.tag_of_queued (hj j hW) _

lemma Local.ranOn (h : Local W W') : W'.ranOn key day = W.ranOn key day := by
  unfold Watcher.ranOn
  rcases h.head with h | ⟨h, hj⟩
  · rw [h]
  · rw [h]
    cases hW : W'.stateQueue.head? with
    | none => rfl
    | some j => exact Job.ranOn_of_queued (hj j hW)

lemma Local.sentOn (h : Local W W') : W'.sentOn key day = W.sentOn key day := by
  unfold Watcher.sentOn
  rcases h.head with h | ⟨h, hj⟩
  · rw [h]
  · rw [h]
    cases hW : W'.stateQueue.head? with
    | none => rfl
    | some j => exact Job.sentOn_of_queued (hj j hW)

lemma Local.hasReset (h : Local W W') (hr : HasReset key W') : HasReset key W := by
  obtain ⟨jobs, hq, hjobs⟩ := h.queue
  obtain ⟨j, hj, hp, resumed, added, at_, hm, hk⟩ := hr
  rw [hq] at hj
  rcases List.mem_append.mp hj with hj | hj
  · exact ⟨j, hj, hp, resumed, added, at_, hm, hk⟩
  · exact absurd hm ((hjobs j hj).2 resumed added at_)

lemma Local.lost (h : Local W W') (hl : W.Lost) : W'.Lost := by
  refine hl.imp h.stopping ?_
  rintro ⟨j, at_, hj, hp⟩
  rcases h.head with h | ⟨h, -⟩
  · exact ⟨j, at_, h.trans hj, hp⟩
  · rw [h] at hj
    cases hj

end Heads

section Kept

variable (opts : WatchOptions)

/-- What holds of a live watcher: if its next write would be accepted, its copy counts every attempt
the store has recorded since the thread was resumed. -/
structure RunKept (b : WatchWorld) (w : ℕ) (W : Watcher) : Prop where
  born : w < b.nextRun
  sane : Sane opts b.now W
  shown : W.tag ≠ .unknown ∧ W.stateEtag ≠ .unknown
  tags : ∀ e, W.tag = .known e → e ≤ b.store.etags
  current : b.store.matches_ W.tag = true → ∀ key day, day = dayOf b.now ∨ 0 < W.ranOn key day →
    recordedOn key day b.log + W.ranOn key day ≤ entriesOn W.state key day
  reset : b.store.matches_ W.tag = true → ∀ key, HasReset key W → ∀ day, recordedOn key day b.log = 0
  lost : .conflict w ∈ b.log → W.Lost

structure BudgetKept (b : WatchWorld) : Prop where
  runs : ∀ w W, b.runs w = some W → RunKept opts b w W
  etags : ∀ s e, b.store.watch = some (s, e) → e ≤ b.store.etags
  stored : ∀ s e, b.store.watch = some (s, e) →
    (∀ key day, entriesOn s key day ≤ opts.wakeBudget) ∧ (∀ key, ∀ at_ ∈ s.wakes key, at_ ≤ b.now)
  covered : ∀ key, recordedOn key (dayOf b.now) b.log ≤
    entriesOn ((b.store.watch.map Prod.fst).getD emptyWatchState) key (dayOf b.now)
  stamps : ∀ w key at_, .recorded w key at_ ∈ b.log → at_ ≤ b.now
  bounded : ∀ key day, recordedOn key day b.log ≤ opts.wakeBudget
  spent : ∀ w key day, startedBy w key day b.log + (b.runs w).elim 0 (Watcher.sentOn key day) ≤
    recordedBy w key day b.log
  gone : ∀ w, .conflict w ∈ b.log → w < b.nextRun
  after : b.log.Pairwise fun e e' => ∀ w key s at_, e = .started w key s at_ → e' ≠ .conflict w

variable {opts} {b b' : WatchWorld} {w : ℕ} {W W' : Watcher} {key : ThreadKey} {day : ℕ}

/-- A watcher that takes no part in a step. -/
lemma RunKept.frame (h : RunKept opts b w W) (hnow : b'.now = b.now) (hnext : b.nextRun ≤ b'.nextRun)
    (he : b.store.etags ≤ b'.store.etags)
    (hm : b'.store.matches_ W.tag = true → b.store.matches_ W.tag = true ∧
      ∀ key day, recordedOn key day b'.log ≤ recordedOn key day b.log)
    (hc : .conflict w ∈ b'.log → .conflict w ∈ b.log) : RunKept opts b' w W := by
  refine ⟨h.born.trans_le hnext, hnow ▸ h.sane, h.shown, fun e ht => (h.tags e ht).trans he, ?_, ?_, h.lost ∘ hc⟩
  · intro ht key day hd
    rw [hnow] at hd
    obtain ⟨ht, hr⟩ := hm ht
    exact (Nat.add_le_add_right (hr key day) _).trans (h.current ht key day hd)
  · intro ht key hk day
    obtain ⟨ht, hr⟩ := hm ht
    exact Nat.le_zero.mp ((hr key day).trans (h.reset ht key hk day).le)

lemma RunKept.local_ (h : RunKept opts b w W) (hl : Local W W') (hs : Sane opts b.now W') :
    RunKept opts b w W' := by
  refine ⟨h.born, hs, ?_, ?_, ?_, ?_, hl.lost ∘ h.lost⟩
  · rw [hl.tag, hl.etag]
    exact h.shown
  · rw [hl.tag]
    exact h.tags
  · intro ht key day
    rw [hl.tag] at ht
    rw [hl.ranOn, hl.state]
    exact h.current ht key day
  · intro ht key hk
    rw [hl.tag] at ht
    exact h.reset ht key (hl.hasReset hk)

lemma matches_congr {store store' : WatchStore} (h : store'.watch = store.watch) (tag : StateEtag) :
    store'.matches_ tag = store.matches_ tag := by
  cases tag <;> simp [WatchStore.matches_, h]

lemma runs_update (h : ∀ w' W', b.runs w' = some W' → w' ≠ w → RunKept opts b' w' W')
    {R : Option Watcher} (hr : b'.runs = Function.update b.runs w R)
    (hw : ∀ W', R = some W' → RunKept opts b' w W') : ∀ w' W', b'.runs w' = some W' → RunKept opts b' w' W' := by
  intro w' W' hW
  rw [hr] at hW
  by_cases hk : w' = w
  · subst hk
    rw [Function.update_self] at hW
    exact hw W' hW
  · rw [Function.update_of_ne hk] at hW
    exact h w' W' hW hk

lemma tally_of_quiet {p : WatchEvent → Bool} {events : List WatchEvent} (hq : ∀ e ∈ events, e.Quiet)
    (hp : ∀ e : WatchEvent, e.Quiet → p e = false) :
    tally p key (events ++ b.log) = tally p key b.log :=
  tally_quiet fun e he => ⟨(hq e he).not_resumed, hp e (hq e he)⟩

lemma recordedOn_quiet {events : List WatchEvent} (hq : ∀ e ∈ events, e.Quiet) :
    recordedOn key day (events ++ b.log) = recordedOn key day b.log :=
  tally_of_quiet hq fun _ => WatchEvent.Quiet.not_records

lemma mem_quiet {events : List WatchEvent} (hq : ∀ e ∈ events, e.Quiet) {e : WatchEvent} (he : ¬ e.Quiet)
    (h : e ∈ events ++ b.log) : e ∈ b.log :=
  (List.mem_append.mp h).resolve_left fun h => he (hq e h)

/-- Steps that the budget does not depend on. -/
lemma BudgetKept.quiet (h : BudgetKept opts b) {R : Option Watcher} {store : WatchStore}
    (events : List WatchEvent) (hR : ∀ W', R = some W' → RunKept opts b w W' ∧
      ∀ key day, W'.sentOn key day ≤ (b.runs w).elim 0 (Watcher.sentOn key day))
    (hwatch : store.watch = b.store.watch) (he : b.store.etags ≤ store.etags) (hq : ∀ e ∈ events, e.Quiet) :
    BudgetKept opts { b with
      store
      runs := Function.update b.runs w R
      log := events ++ b.log } := by
  have hframe (w' : ℕ) (W' : Watcher) (hW : RunKept opts b w' W') : RunKept opts { b with
      store
      runs := Function.update b.runs w R
      log := events ++ b.log } w' W' := by
    refine hW.frame rfl le_rfl he (fun hm => ⟨?_, fun key day => (recordedOn_quiet hq).le⟩) (mem_quiet hq id)
    rwa [matches_congr hwatch] at hm
  refine ⟨runs_update (fun w' W' hW _ => hframe w' W' (h.runs w' W' hW)) rfl ?_, ?_, ?_, ?_, ?_, ?_, ?_, ?_, ?_⟩
  · exact fun W' hW' => hframe w W' (hR W' hW').1
  · intro s e hw
    exact (h.etags s e (hwatch ▸ hw)).trans he
  · intro s e hw
    exact h.stored s e (hwatch ▸ hw)
  · intro key
    simp only [hwatch]
    exact (recordedOn_quiet hq).trans_le (h.covered key)
  · exact fun w key at_ he => h.stamps w key at_ (mem_quiet hq id he)
  · exact fun key day => (recordedOn_quiet hq).trans_le (h.bounded key day)
  · intro w' key day
    have h₁ : startedBy w' key day (events ++ b.log) = startedBy w' key day b.log :=
      tally_of_quiet hq fun e he => by simp [he.not_starts]
    have h₂ : recordedBy w' key day (events ++ b.log) = recordedBy w' key day b.log :=
      tally_of_quiet hq fun e he => by simp [he.not_records]
    have h₃ := h.spent w' key day
    simp only [h₁, h₂]
    by_cases hk : w' = w
    · subst hk
      rw [Function.update_self]
      cases R with
      | none => exact (Nat.le_add_right _ _).trans h₃
      | some W' =>
        exact (Nat.add_le_add_left ((hR W' rfl).2 key day) _).trans h₃
    · rwa [Function.update_of_ne hk]
  · exact fun w hc => h.gone w (mem_quiet hq id hc)
  · apply List.pairwise_append.mpr
    refine ⟨?_, h.after, ?_⟩
    · apply List.pairwise_of_forall_mem_list
      rintro e he e' - w key s at_ rfl
      exact absurd (hq _ he) id
    · rintro e he e' - w key s at_ rfl
      exact absurd (hq _ he) id

lemma BudgetKept.runs_local (h : BudgetKept opts b) (hW : b.runs w = some W) (hl : Local W W')
    (hs : Sane opts b.now W') : RunKept opts b w W' ∧
      ∀ key day, W'.sentOn key day ≤ (b.runs w).elim 0 (Watcher.sentOn key day) := by
  refine ⟨(h.runs w W hW).local_ hl hs, fun key day => ?_⟩
  rw [hW]
  exact hl.sentOn.le

lemma BudgetKept.local_ (h : BudgetKept opts b) (hW : b.runs w = some W) (hl : Local W W')
    (hs : Sane opts b.now W → Sane opts b.now W') {store : WatchStore} (hwatch : store.watch = b.store.watch)
    (he : b.store.etags ≤ store.etags) : BudgetKept opts ({ b with store }.setRun w (some W')) := by
  refine h.quiet [] ?_ hwatch he nofun
  rintro _ ⟨⟩
  exact h.runs_local hW hl (hs (h.runs w W hW).sane)

lemma BudgetKept.onStore (h : BudgetKept opts b) {store : WatchStore} (hwatch : store.watch = b.store.watch)
    (he : b.store.etags ≤ store.etags) : BudgetKept opts { b with store } := by
  have := h.quiet (w := b.nextRun) (R := b.runs b.nextRun) [] ?_ hwatch he nofun
  · simpa using this
  · intro W' hW'
    exact h.runs_local hW' (.refl W') (h.runs _ W' hW').sane

lemma BudgetKept.rephase (h : BudgetKept opts b) (hW : b.runs w = some W) {task : WakeTask}
    (ht : W.wake key = some task) (hw : ∀ m, ¬ Waits key task.phase m) {next : Option WakeTask}
    (ha : ∀ t s, next = some t → t.phase.attempt = some s → task.phase.attempt = some s)
    (hr : ∀ t s, next = some t → t.phase ≠ .recording s) {store : WatchStore}
    (hwatch : store.watch = b.store.watch) (he : b.store.etags ≤ store.etags) :
    BudgetKept opts ({ b with store }.setRun w (some (W.setWake key next))) :=
  h.local_ hW (.setWake W key next) (fun hs => hs.rephase ht hw ha hr) hwatch he

lemma BudgetKept.skip (h : BudgetKept opts b) (hW : b.runs w = some W) {task : WakeTask}
    (ht : W.wake key = some task) (hw : ∀ m, ¬ Waits key task.phase m) {at_ : ℕ} :
    BudgetKept opts (b.setRun w (some (W.skip key at_))) := by
  refine h.local_ hW (Drift.skip W key at_).local_ (fun hs => hs.skip (hs.free ?_)) rfl le_rfl
  intro task' m ht'
  rw [ht] at ht'
  cases ht'
  exact hw m

end Kept

section Steps

variable {opts : WatchOptions} {sentAt : String → Option ℕ} {b b' : WatchWorld} {w : ℕ} {key : ThreadKey}

lemma tickOne_keeps (h : BudgetKept opts b) {force : Bool} (hs : b.tickOne opts w key force = some b') :
    BudgetKept opts b' := by
  obtain ⟨W, W', hW, hf, rfl⟩ := onRun_eq_some hs
  split at hf
  · cases hf
  · rw [Option.ite_none_right_eq_some] at hf
    obtain ⟨hc, hf⟩ := hf
    cases hf
    simp only [Bool.and_eq_true, Option.isNone_iff_eq_none] at hc
    refine h.local_ hW ((Local.setWake W key _).trans (.lock _ _)) (fun hs => ?_) rfl le_rfl
    apply Sane.lock
    apply hs.setWake
    · apply hs.free
      intro task m ht
      rw [hc.1.2] at ht
      cases ht
    · rintro t s ⟨⟩ ⟨⟩
    · rintro t s ⟨⟩ ⟨⟩

lemma listMarkers_keeps (h : BudgetKept opts b) {fails : Bool} (hs : b.listMarkers opts w fails = some b') :
    BudgetKept opts b' := by
  obtain ⟨W, W', hW, hf, rfl⟩ := onRun_eq_some hs
  split at hf
  · split at hf
    · cases hf
      exact h.local_ hW (Drift.finishSync opts b.now W).local_ Sane.finishSync rfl le_rfl
    · cases hf
      refine h.local_ hW ?_ (fun hs => ?_) rfl le_rfl
      · exact .of_eq rfl rfl rfl rfl rfl rfl
      · exact hs.congr rfl rfl rfl fun _ _ _ _ _ hk => .inl hk
  · cases hf

lemma noticeId_keeps (h : BudgetKept opts b) {fails : Bool} (hs : b.noticeId w key fails = some b') :
    BudgetKept opts b' := by
  obtain ⟨W, task, hW, ht, hf⟩ := onWake_eq_some hs
  split at hf
  · rename_i s hp
    split at hf
    · cases hf
      exact h.rephase hW ht (by simp [hp, Waits]) (by rintro t s ⟨⟩) (by rintro t s ⟨⟩) rfl le_rfl
    · cases hf
      refine h.local_ hW ((Local.setWake W key _).trans (.lock _ _)) (fun hs => ?_) rfl le_rfl
      apply Sane.lock
      exact hs.rephase ht (by simp [hp, Waits]) (by rintro t s ⟨⟩ ⟨⟩) (by rintro t s ⟨⟩ ⟨⟩)
  · cases hf

lemma writeMarker_keeps (h : BudgetKept opts b) {answer : PutAnswer} (hs : b.writeMarker w answer = some b') :
    BudgetKept opts b' := by
  obtain ⟨W, hW, hf⟩ := Option.bind_eq_some_iff.mp hs
  split at hf
  · rename_i k rest hl
    have hlocal (job : PauseJob) : Local W { W with pausedLock := job :: rest } := .of_eq rfl rfl rfl rfl rfl rfl
    have hsane (job : PauseJob) (hs : Sane opts b.now W) : Sane opts b.now { W with pausedLock := job :: rest } :=
      hs.congr rfl rfl rfl fun _ _ _ _ _ hk => .inl hk
    cases answer with
    | answered shown =>
      cases hf
      exact h.local_ hW (hlocal _) (hsane _) (addMarker_watch _ k) (addMarker_etags _ k).ge
    | failed lands =>
      cases hf
      cases lands with
      | true => exact h.local_ hW (hlocal _) (hsane _) (addMarker_watch _ k) (addMarker_etags _ k).ge
      | false => exact h.local_ hW (hlocal _) (hsane _) rfl le_rfl
  · cases hf

lemma wroteMarker_keeps (h : BudgetKept opts b) (hs : b.wroteMarker w = some b') : BudgetKept opts b' := by
  obtain ⟨W, W', hW, hf, rfl⟩ := onRun_eq_some hs
  split at hf
  · rename_i k created rest hl
    have hlocal (keys : List ThreadKey) : Local W { W with
        pausedKeys := keys
        pausedLock := rest } := .of_eq rfl rfl rfl rfl rfl rfl
    simp only at hf
    split at hf
    · rename_i created at_ s ht
      have hsane (hs : Sane opts b.now W) : Sane opts b.now { W with
          pausedKeys := if k ∈ W.pausedKeys then W.pausedKeys else k :: W.pausedKeys
          pausedLock := rest } := by
        refine hs.congr rfl rfl rfl fun k' _ _ _ _ hk' => .inl ?_
        split
        · exact hk'
        · exact List.mem_cons_of_mem _ hk'
      have hfree {W' : Watcher} (hq : W'.stateQueue = W.stateQueue) (hs : Sane opts b.now W) : Free W' k := by
        intro j hj
        rw [hq] at hj
        refine hs.free (fun task m ht' => ?_) j hj
        rw [show W.wake k = _ from ht] at ht'
        cases ht'
        exact id
      have hpaused : k ∈ (if k ∈ W.pausedKeys then W.pausedKeys else k :: W.pausedKeys) := by
        split
        · assumption
        · exact List.mem_cons_self
      split at hf
      · cases hf
        refine h.local_ hW ((hlocal _).trans (.await _ k _ (by rintro _ _ _ ⟨⟩))) (fun hs => ?_) rfl le_rfl
        exact (hsane hs).await (hfree rfl hs) rfl rfl (fun _ _ => hpaused) nofun nofun nofun
      · cases hf
        refine h.local_ hW ((hlocal _).trans (Drift.checkPaused _ _ _ _ _).local_) (fun hs => ?_) rfl le_rfl
        exact (hsane hs).checkPaused (hfree rfl hs) fun hk => absurd hpaused hk
    · rename_i at_ s ht
      cases hf
      refine h.local_ hW ((hlocal _).trans (.setWake _ k _)) (fun hs => ?_) rfl le_rfl
      have hs' : Sane opts b.now { W with pausedLock := rest } := hs.congr rfl rfl rfl fun _ _ _ _ _ hk => .inl hk
      exact hs'.rephase ht (fun _ => id) (by rintro t s ⟨⟩) (by rintro t s ⟨⟩)
    · cases hf
      refine h.local_ hW (hlocal _) (fun hs => ?_) rfl le_rfl
      exact hs.congr rfl rfl rfl fun _ _ _ _ _ hk => .inl hk
  · cases hf

lemma enqueue_keeps (h : BudgetKept opts b) {m : Mutation} {o : Owner} (ho : ∀ k, o ≠ .wake k)
    (hc : ∀ k carries, m ≠ .count k carries) (hr : ∀ resumed added at_, m ≠ .resync resumed added at_)
    (hs : b.enqueue w m o = some b') : BudgetKept opts b' := by
  obtain ⟨W, W', hW, hf, rfl⟩ := onRun_eq_some hs
  cases hf
  refine h.local_ hW (.enqueue W o hr) (fun hs => ?_) rfl le_rfl
  apply hs.enqueue
  · exact fun k hk => absurd hk (ho k)
  · exact fun k carries hm => absurd hm (hc k carries)
  · exact fun k hm => absurd hm (hc k true)
  · exact fun resumed added at_ k hm => absurd hm (hr resumed added at_)

lemma commit_keeps (h : BudgetKept opts b) {fails lands : Bool} (hs : b.commit w fails lands = some b') :
    BudgetKept opts b' := by
  obtain ⟨W, hW, hf⟩ := Option.bind_eq_some_iff.mp hs
  split at hf
  · cases hf
    refine h.local_ hW ?_ (fun hs => ?_) ?_ ?_
    · exact .of_eq rfl rfl rfl rfl rfl rfl
    · exact hs.congr rfl rfl rfl fun _ _ _ _ _ hk => .inl hk
    · split <;> rfl
    · split <;> rfl
  · cases hf

lemma claim_keeps (h : BudgetKept opts b) {answer : PutAnswer} (hs : b.claim w key answer = some b') :
    BudgetKept opts b' := by
  obtain ⟨W, task, hW, ht, hf⟩ := onWake_eq_some hs
  split at hf
  · rename_i s stamp attempt hp
    have hw (m : Mutation) : ¬ Waits key task.phase m := by simp [hp, Waits]
    cases answer with
    | answered shown =>
      simp only at hf
      split at hf
      · cases hf
        refine h.rephase hW ht hw ?_ (by rintro t s ⟨⟩ ⟨⟩) rfl (Nat.le_succ _)
        rintro t s' ⟨⟩ ⟨⟩
        rw [hp]
        rfl
      · cases hf
        refine h.rephase hW ht hw ?_ (by rintro t s ⟨⟩ ⟨⟩) rfl le_rfl
        rintro t s' ⟨⟩ ⟨⟩
        rw [hp]
        rfl
    | failed lands =>
      cases hf
      refine h.rephase hW ht hw (by rintro t s ⟨⟩) (by rintro t s ⟨⟩) ?_ ?_
      · split <;> rfl
      · split
        · exact Nat.le_succ _
        · exact le_rfl
  · cases hf

lemma readClaim_keeps (h : BudgetKept opts b) {fails shown : Bool} (hs : b.readClaim w key fails shown = some b') :
    BudgetKept opts b' := by
  obtain ⟨W, task, hW, ht, hf⟩ := onWake_eq_some hs
  split at hf
  · rename_i s stamp attempt hp
    have hw (m : Mutation) : ¬ Waits key task.phase m := by simp [hp, Waits]
    have hmove {phase : WakePhase} (ha : phase.attempt = some s) (hr : ∀ s, phase ≠ .recording s) :
        BudgetKept opts (b.setPhase w W key task.at_ phase) := by
      refine h.rephase hW ht hw ?_ ?_ rfl le_rfl
      · rintro t s' ⟨⟩ hs'
        rw [ha] at hs'
        rw [hp, ← hs']
        rfl
      · rintro t s' ⟨⟩
        exact hr s'
    split at hf
    · cases hf
      exact h.rephase hW ht hw (by rintro t s ⟨⟩) (by rintro t s ⟨⟩) rfl le_rfl
    · split at hf
      · cases hf
        exact hmove rfl nofun
      · split at hf
        · cases hf
          exact hmove rfl nofun
        · cases hf
          exact h.skip hW ht hw
  · cases hf

lemma judge_keeps (h : BudgetKept opts b) {alive : Bool} (hs : b.judge w key alive = some b') :
    BudgetKept opts b' := by
  obtain ⟨W, task, hW, ht, hf⟩ := onWake_eq_some hs
  split at hf
  · rename_i s stamp held etag hp
    have hw (m : Mutation) : ¬ Waits key task.phase m := by simp [hp, Waits]
    split at hf
    · cases hf
      refine h.rephase hW ht hw ?_ (by rintro t s ⟨⟩ ⟨⟩) rfl le_rfl
      rintro t s' ⟨⟩ ⟨⟩
      rw [hp]
      rfl
    · split at hf
      · cases hf
        refine h.rephase hW ht hw ?_ (by rintro t s ⟨⟩ ⟨⟩) rfl le_rfl
        rintro t s' ⟨⟩ ⟨⟩
        rw [hp]
        rfl
      · cases hf
        exact h.skip hW ht hw
  · cases hf

lemma takeOver_keeps (h : BudgetKept opts b) {answer : PutAnswer} (hs : b.takeOver w key answer = some b') :
    BudgetKept opts b' := by
  obtain ⟨W, task, hW, ht, hf⟩ := onWake_eq_some hs
  split at hf
  · rename_i s stamp e hp
    have hw (m : Mutation) : ¬ Waits key task.phase m := by simp [hp, Waits]
    cases answer with
    | answered shown =>
      simp only at hf
      split at hf
      · cases hf
        refine h.rephase hW ht hw ?_ (by rintro t s ⟨⟩ ⟨⟩) rfl (Nat.le_succ _)
        rintro t s' ⟨⟩ ⟨⟩
        rw [hp]
        rfl
      · cases hf
        exact h.skip hW ht hw
    | failed lands =>
      cases hf
      refine h.rephase hW ht hw (by rintro t s ⟨⟩) (by rintro t s ⟨⟩) ?_ ?_
      · split <;> rfl
      · split
        · exact Nat.le_succ _
        · exact le_rfl
  · cases hf

lemma count_keeps (h : BudgetKept opts b) (hs : b.count w key = some b') : BudgetKept opts b' := by
  obtain ⟨W, task, hW, ht, hf⟩ := onWake_eq_some hs
  split at hf
  · rename_i s hp
    cases hf
    refine h.local_ hW (.await W key _ (by rintro _ _ _ ⟨⟩)) (fun hs => ?_) rfl le_rfl
    apply hs.await
    · apply hs.free
      intro task' m ht'
      rw [ht] at ht'
      cases ht'
      simp [hp, Waits]
    · rfl
    · rfl
    · nofun
    · rintro k carries ⟨⟩
      rfl
    · intro hm
      apply hs.allowed key task s ht (by rw [hp]; rfl)
      rintro hm'
      simp [hm'] at hm
    · rintro _ _ _ ⟨⟩
  · cases hf

lemma woken_keeps (h : BudgetKept opts b) {ok : Bool} (hs : b.woken w key ok = some b') : BudgetKept opts b' := by
  obtain ⟨W, task, hW, ht, hf⟩ := onWake_eq_some hs
  split at hf
  · rename_i s hp
    have hfree (hs : Sane opts b.now W) : Free W key := by
      apply hs.free
      intro task' m ht'
      rw [ht] at ht'
      cases ht'
      simp [hp, Waits]
    have hsane {m : Mutation} {phase : WakePhase} (hm : Waits key phase m) (ha : phase.attempt = none)
        (hr : ∀ s, phase ≠ .recording s) (hc : ∀ k carries, m ≠ .count k carries)
        (hn : ∀ resumed added at_, m ≠ .resync resumed added at_) (hs : Sane opts b.now W) :
        Sane opts b.now ((W.enqueue m (.wake key)).setWake key (some ⟨task.at_, phase⟩)) := by
      apply hs.await (hfree hs) hm ha
      · exact fun s hp => absurd hp (hr s)
      · exact fun k carries hm => absurd hm (hc k carries)
      · exact fun hm => absurd hm (hc key true)
      · exact hn
    split at hf
    · cases hf
      refine h.quiet [.woke key s] ?_ rfl le_rfl (by simp [WatchEvent.Quiet])
      rintro _ ⟨⟩
      apply h.runs_local hW (.await W key _ (by rintro _ _ _ ⟨⟩))
      exact hsane rfl rfl nofun (by rintro _ _ ⟨⟩) (by rintro _ _ _ ⟨⟩) (h.runs w W hW).sane
    · cases hf
      refine h.local_ hW (.await W key _ (by rintro _ _ _ ⟨⟩)) ?_ rfl le_rfl
      exact hsane rfl rfl nofun (by rintro _ _ ⟨⟩) (by rintro _ _ _ ⟨⟩)
  · cases hf

lemma releaseRead_keeps (h : BudgetKept opts b) {fails : Bool} (hs : b.releaseRead w key fails = some b') :
    BudgetKept opts b' := by
  obtain ⟨W, task, hW, ht, hf⟩ := onWake_eq_some hs
  split at hf
  · rename_i s hp
    have hw (m : Mutation) : ¬ Waits key task.phase m := by simp [hp, Waits]
    split at hf
    · cases hf
      exact h.rephase hW ht hw (by rintro t s ⟨⟩ ⟨⟩) (by rintro t s ⟨⟩ ⟨⟩) rfl le_rfl
    · cases hf
      exact h.rephase hW ht hw (by rintro t s ⟨⟩) (by rintro t s ⟨⟩) rfl le_rfl
  · cases hf

lemma releaseDelete_keeps (h : BudgetKept opts b) {lands : Bool} (hs : b.releaseDelete w key lands = some b') :
    BudgetKept opts b' := by
  obtain ⟨W, task, hW, ht, hf⟩ := onWake_eq_some hs
  split at hf
  · rename_i s hp
    cases hf
    refine h.rephase hW ht (by simp [hp, Waits]) (by rintro t s ⟨⟩) (by rintro t s ⟨⟩) ?_ ?_
    · split <;> rfl
    · split <;> rfl
  · cases hf

lemma pruneClaim_keeps (h : BudgetKept opts b) {claim : ClaimKey} {lands : Bool}
    (hs : b.pruneClaim sentAt w claim lands = some b') : BudgetKept opts b' := by
  unfold WatchWorld.pruneClaim at hs
  split at hs
  · cases hs
    apply h.onStore
    · split <;> rfl
    · split <;> rfl
  · cases hs

lemma stop_keeps (h : BudgetKept opts b) (hs : b.onRun w (fun W => some { W with stopping := true }) = some b') :
    BudgetKept opts b' := by
  obtain ⟨W, W', hW, hf, rfl⟩ := onRun_eq_some hs
  cases hf
  refine h.local_ hW ?_ (fun hs => ?_) rfl le_rfl
  · exact ⟨rfl, rfl, rfl, rfl, ⟨[], by simp, nofun⟩, fun _ => rfl⟩
  · exact hs.congr rfl rfl rfl fun _ _ _ _ _ hk => .inl hk

lemma clock_keeps (h : BudgetKept opts b) (hb : 0 < opts.wakeBudget) {now : ℕ} (hle : b.now ≤ now) :
    BudgetKept opts { b with now } := by
  have hnew (hd : dayOf now ≠ dayOf b.now) (k : ThreadKey) : recordedOn k (dayOf now) b.log = 0 := by
    apply recordedOn_eq_zero
    intro w at_ he
    have h₁ : dayOf at_ ≤ dayOf b.now := Nat.div_le_div_right (h.stamps w k at_ he)
    have h₂ : dayOf b.now ≤ dayOf now := Nat.div_le_div_right hle
    omega
  refine ⟨?_, h.etags, ?_, ?_, ?_, h.bounded, h.spent, h.gone, h.after⟩
  · intro w W hW
    have hr := h.runs w W hW
    refine ⟨hr.born, hr.sane.clock hle hb, hr.shown, hr.tags, ?_, hr.reset, hr.lost⟩
    intro ht k day hd
    by_cases hp : 0 < W.ranOn k day
    · exact hr.current ht k day (.inr hp)
    · obtain rfl := hd.resolve_right hp
      by_cases hday : dayOf now = dayOf b.now
      · exact hr.current ht k _ (.inl hday)
      · have hran : W.ranOn k (dayOf now) = 0 := Nat.eq_zero_of_not_pos hp
        simp only [hnew hday k, hran]
        exact Nat.zero_le _
  · intro s e hw
    exact ⟨(h.stored s e hw).1, fun k at_ hat => ((h.stored s e hw).2 k at_ hat).trans hle⟩
  · intro k
    by_cases hday : dayOf now = dayOf b.now
    · simp only [hday]
      exact h.covered k
    · simp only [hnew hday k]
      exact Nat.zero_le _
  · exact fun w k at_ he => (h.stamps w k at_ he).trans hle

lemma start_keeps (h : BudgetKept opts b) (profile pid : ℕ) (shown : Bool) :
    BudgetKept opts (b.startRun profile pid shown) := by
  have hframe (w : ℕ) (W : Watcher) (hr : RunKept opts b w W) :
      RunKept opts (b.startRun profile pid shown) w W :=
    hr.frame rfl (Nat.le_succ _) le_rfl (fun ht => ⟨ht, fun _ _ => le_rfl⟩) id
  refine ⟨runs_update (w := b.nextRun) (fun w W hW _ => hframe w W (h.runs w W hW)) rfl ?_, h.etags, h.stored,
    h.covered, h.stamps, h.bounded, ?_, fun w hc => (h.gone w hc).trans (Nat.lt_succ_self _), h.after⟩
  · rintro W ⟨⟩
    refine ⟨Nat.lt_succ_self _, ?_, ?_, ?_, ?_, ?_, ?_⟩
    · apply Sane.start rfl (fun _ => rfl)
      · intro k day
        cases hw : b.store.watch with
        | none => simp [entriesOn, emptyWatchState]
        | some v => simpa [WatchWorld.startRun, hw] using (h.stored v.1 v.2 hw).1 k day
      · intro k
        cases hw : b.store.watch with
        | none => simp [WatchWorld.startRun, hw, emptyWatchState]
        | some v => simpa [WatchWorld.startRun, hw] using (h.stored v.1 v.2 hw).2 k
    · simp only [Watcher.tag, List.head?_nil, Option.elim_none, and_self]
      split
      · split <;> simp
      · simp
    · intro e he
      simp only [Watcher.tag, List.head?_nil, Option.elim_none] at he
      split at he
      · rename_i s e' hw
        split at he
        · cases he
          exact h.etags s e hw
        · cases he
      · cases he
    · intro _ k day hd
      obtain rfl := hd.resolve_right (by simp [Watcher.ranOn])
      simpa [Watcher.ranOn, WatchWorld.startRun] using h.covered k
    · rintro _ k ⟨j, hj, -⟩
      cases hj
    · exact fun hc => absurd (h.gone _ hc) (Nat.lt_irrefl _)
  · intro w k day
    have := h.spent w k day
    by_cases hk : w = b.nextRun
    · simp only [WatchWorld.startRun, hk, Function.update_self, Option.elim_some, Watcher.sentOn, List.head?_nil,
        Option.elim_none, Nat.add_zero]
      exact hk ▸ (Nat.le_add_right _ _).trans this
    · simpa [WatchWorld.startRun, Function.update_of_ne hk] using this

lemma crash_keeps (h : BudgetKept opts b) : BudgetKept opts (b.setRun w none) :=
  h.quiet [] nofun rfl le_rfl nofun

/-- Every state write shows its ETag, an attempt is counted and started on one day, and when a listing
is applied no wake waits for the record of a pause that it lacks, and no attempt of a resumed thread
is counted and not started. -/
def Steady (b : WatchWorld) : WatchAction → Prop
  | .put _ (.answered shown) => shown = true
  | .acknowledge w => ∀ W key owner at_ etag rest, b.runs w = some W →
    W.stateQueue = ⟨.count key true, owner, .sent at_ (.ok etag)⟩ :: rest → dayOf at_ = dayOf b.now
  | .apply w => ∀ W waiter listed rest, b.runs w = some W → W.pausedLock = .sync waiter (.listed listed) :: rest →
    (∀ key at_ s, W.wake key = some ⟨at_, .recording s⟩ → key ∈ listed ∨ key ∈ W.state.paused) ∧
      ∀ key ∈ W.state.paused, key ∉ listed →
        (∀ j ∈ W.stateQueue, j.mutation ≠ .count key true) ∧
          ∀ w' W' day, b.runs w' = some W' → W'.sentOn key day = 0
  | _ => True

lemma RunKept.run {W : Watcher} (h : RunKept opts b w W) (hb : 0 < opts.wakeBudget) {m : Mutation} {owner : Owner}
    {rest : List Job} (hq : W.stateQueue = ⟨m, owner, .queued⟩ :: rest) :
    RunKept opts b w { W with
      state := (m.apply W.pausedKeys b.now W.state).1
      stateQueue := ⟨m, owner, .ran b.now⟩ :: rest } := by
  have hstep (k : ThreadKey) := apply_wakes W.pausedKeys b.now W.state k m
  have htag : Watcher.tag { W with
      state := (m.apply W.pausedKeys b.now W.state).1
      stateQueue := ⟨m, owner, .ran b.now⟩ :: rest } = W.tag := by simp [Watcher.tag, hq, Job.tag]
  have hreset {k : ThreadKey} (hk : HasReset k { W with
      state := (m.apply W.pausedKeys b.now W.state).1
      stateQueue := ⟨m, owner, .ran b.now⟩ :: rest }) : HasReset k W := by
    obtain ⟨j, hj, hr⟩ := hk
    rcases List.mem_cons.mp hj with rfl | hj
    · cases hr.1
    · exact ⟨j, hq ▸ List.mem_cons_of_mem _ hj, hr⟩
  refine ⟨h.born, h.sane.run hb hq, ?_, ?_, ?_, ?_, ?_⟩
  · rw [htag]
    exact h.shown
  · rw [htag]
    exact h.tags
  · intro ht k day hd
    rw [htag] at ht
    have hcur := h.current ht k (dayOf b.now) (.inl rfl)
    obtain rfl : day = dayOf b.now := by
      rcases hd with hd | hd
      · exact hd
      · simp only [Watcher.ranOn, List.head?_cons, Option.elim_some, Job.ranOn] at hd
        split at hd
        · rename_i hc
          exact (by simpa using hc : _ ∧ dayOf b.now = day).2.symm
        · exact absurd hd (Nat.lt_irrefl 0)
    by_cases hm : m = .count k true
    · have hran : Watcher.ranOn k (dayOf b.now) { W with
          state := (m.apply W.pausedKeys b.now W.state).1
          stateQueue := ⟨m, owner, .ran b.now⟩ :: rest } = 1 := by
        simp [Watcher.ranOn, Job.ranOn, countsFor_iff.mpr hm]
      subst hm
      have hent := (entriesOn_count (hstep k)).1
      rw [hran, hent]
      omega
    · have hran : Watcher.ranOn k (dayOf b.now) { W with
          state := (m.apply W.pausedKeys b.now W.state).1
          stateQueue := ⟨m, owner, .ran b.now⟩ :: rest } = 0 := by
        have : m.countsFor k ≠ true := mt countsFor_iff.mp hm
        simp [Watcher.ranOn, Job.ranOn, this]
      rw [hran]
      by_cases hr : ∃ resumed added at_, m = .resync resumed added at_ ∧ k ∈ resumed
      · have := h.reset ht k ⟨_, hq ▸ List.mem_cons_self, rfl, hr⟩ (dayOf b.now)
        rw [this]
        exact Nat.zero_le _
      · have hent := entriesOn_today (hstep k) hm fun resumed added at_ hm hk => hr ⟨resumed, added, at_, hm, hk⟩
        rw [hent]
        omega
  · intro ht k hk
    rw [htag] at ht
    exact h.reset ht k (hreset hk)
  · intro hc
    refine (h.lost hc).imp id ?_
    rintro ⟨j, at_, hj, hp⟩
    rw [hq] at hj
    cases hj
    cases hp

lemma runJob_keeps (h : BudgetKept opts b) (hb : 0 < opts.wakeBudget) (hs : b.runJob w = some b') :
    BudgetKept opts b' := by
  obtain ⟨W, hW, hf⟩ := Option.bind_eq_some_iff.mp hs
  split at hf
  · rename_i m owner rest hq
    cases hf
    refine h.quiet _ ?_ rfl le_rfl ?_
    · rintro _ ⟨⟩
      refine ⟨(h.runs w W hW).run hb hq, fun k day => ?_⟩
      simp [Watcher.sentOn, Job.sentOn]
    · intro e he
      obtain ⟨d, -, rfl⟩ := List.mem_map.mp he
      trivial
  · cases hf

lemma fetchEtag_keeps (h : BudgetKept opts b) {fails shown : Bool} (hs : b.fetchEtag w fails shown = some b') :
    BudgetKept opts b' := by
  obtain ⟨W, W', hW, hf, rfl⟩ := onRun_eq_some hs
  split at hf
  · rename_i he hq
    exact absurd he (h.runs w W hW).shown.2
  · cases hf

lemma mem_counted {m : Mutation} {at_ : ℕ} {e : WatchEvent} (h : e ∈ WatchWorld.counted w at_ m) :
    ∃ k, e = .recorded w k at_ := by
  cases m with
  | count k carries =>
    cases carries with
    | true => exact ⟨k, List.mem_singleton.mp h⟩
    | false => cases h
  | _ => cases h

lemma recordedOn_counted (m : Mutation) (at_ day : ℕ) (key : ThreadKey) (log : List WatchEvent) :
    recordedOn key day (WatchWorld.counted w at_ m ++ log) =
      recordedOn key day log + if m.countsFor key && dayOf at_ == day then 1 else 0 := by
  cases m with
  | count k carries =>
    cases carries with
    | true =>
      rw [WatchWorld.counted, List.singleton_append, recordedOn, tally_cons]
      rfl
    | false => rfl
  | _ => rfl

lemma recordedBy_counted (m : Mutation) (w' at_ day : ℕ) (key : ThreadKey) (log : List WatchEvent) :
    recordedBy w' key day (WatchWorld.counted w at_ m ++ log) =
      recordedBy w' key day log + if (m.countsFor key && dayOf at_ == day) && decide (w = w') then 1 else 0 := by
  cases m with
  | count k carries =>
    cases carries with
    | true =>
      rw [WatchWorld.counted, List.singleton_append, recordedBy, tally_cons]
      simp [WatchEvent.isResumed, WatchEvent.recordsOn, WatchEvent.run, Mutation.countsFor]
    | false => rfl
  | _ => rfl

lemma startedBy_counted (m : Mutation) (w' at_ day : ℕ) (key : ThreadKey) (log : List WatchEvent) :
    startedBy w' key day (WatchWorld.counted w at_ m ++ log) = startedBy w' key day log := by
  cases m with
  | count k carries =>
    cases carries with
    | true =>
      rw [WatchWorld.counted, List.singleton_append, startedBy, tally_cons]
      rfl
    | false => rfl
  | _ => rfl

variable {W : Watcher} {m : Mutation} {owner : Owner} {at_ : ℕ} {rest : List Job} {result : WriteResult}

lemma hasReset_sent (hq : W.stateQueue = ⟨m, owner, .ran at_⟩ :: rest)
    (h : HasReset key { W with stateQueue := ⟨m, owner, .sent at_ result⟩ :: rest }) : HasReset key W := by
  obtain ⟨j, hj, hr⟩ := h
  rcases List.mem_cons.mp hj with rfl | hj
  · cases hr.1
  · exact ⟨j, hq ▸ List.mem_cons_of_mem _ hj, hr⟩

lemma ranOn_of_ran (hq : W.stateQueue = ⟨m, owner, .ran at_⟩ :: rest) (day : ℕ) :
    W.ranOn key day = if m.countsFor key && dayOf at_ == day then 1 else 0 := by
  simp [Watcher.ranOn, hq, Job.ranOn]

lemma matches_of_putState {store : WatchStore} {state : WatchState} {tag : StateEtag}
    (h : (store.putState state).matches_ tag = true) : tag = .known (store.etags + 1) := by
  cases tag with
  | known e =>
    have : (store.etags + 1 == e) = true := h
    rw [beq_iff_eq.mp this]
  | absent => cases h
  | unknown => cases h

/-- A write that fails changes nothing that its watcher relies on. -/
lemma RunKept.refused (h : RunKept opts b w W) (hq : W.stateQueue = ⟨m, owner, .ran at_⟩ :: rest)
    (hr : ∀ etag, result ≠ .ok etag) :
    RunKept opts b w { W with stateQueue := ⟨m, owner, .sent at_ result⟩ :: rest } := by
  have htag : Watcher.tag { W with stateQueue := ⟨m, owner, .sent at_ result⟩ :: rest } = W.tag := by
    cases result with
    | ok etag => exact absurd rfl (hr etag)
    | conflict => simp [Watcher.tag, hq, Job.tag]
    | failed => simp [Watcher.tag, hq, Job.tag]
  refine ⟨h.born, h.sane.sent hq result, ?_, ?_, ?_, ?_, ?_⟩
  · rw [htag]
    exact h.shown
  · rw [htag]
    exact h.tags
  · intro ht k day hd
    rw [htag] at ht
    obtain rfl := hd.resolve_right (by simp [Watcher.ranOn, Job.ranOn])
    have := h.current ht k _ (.inl rfl)
    simp only [Watcher.ranOn, List.head?_cons, Option.elim_some, Job.ranOn, Nat.add_zero]
    exact (Nat.le_add_right _ _).trans this
  · intro ht k hk
    rw [htag] at ht
    exact h.reset ht k (hasReset_sent hq hk)
  · intro hc
    refine (h.lost hc).imp id ?_
    rintro ⟨j, at', hj, hp⟩
    rw [hq] at hj
    cases hj
    cases hp

/-- A write that takes effect, whether its answer says so or not. -/
lemma stored_keeps (h : BudgetKept opts b) (hW : b.runs w = some W)
    (hq : W.stateQueue = ⟨m, owner, .ran at_⟩ :: rest) (ht : b.store.matches_ W.stateEtag = true)
    {events : List WatchEvent}
    (hev : events = WatchWorld.counted w at_ m ∧ result = .ok (some (b.store.etags + 1)) ∨
      events = [] ∧ result = .failed) :
    BudgetKept opts { b with
      store := b.store.putState W.state
      runs := Function.update b.runs w
        (some { W with stateQueue := ⟨m, owner, .sent at_ result⟩ :: rest })
      log := events ++ b.log } := by
  have hr := h.runs w W hW
  have hold : W.tag = W.stateEtag := by simp [Watcher.tag, hq, Job.tag]
  have htag : b.store.matches_ W.tag = true := hold ▸ ht
  have hrec (k : ThreadKey) (day : ℕ) :
      recordedOn k day (events ++ b.log) ≤ recordedOn k day b.log + W.ranOn k day := by
    obtain ⟨rfl, -⟩ | ⟨rfl, -⟩ := hev
    · rw [recordedOn_counted, ranOn_of_ran hq]
    · exact Nat.le_add_right _ _
  have hran : ⟨m, owner, .ran at_⟩ ∈ W.stateQueue := hq ▸ List.mem_cons_self
  have hmem {e : WatchEvent} (he : e ∈ events) : ∃ k, e = .recorded w k at_ := by
    obtain ⟨rfl, -⟩ | ⟨rfl, -⟩ := hev
    · exact mem_counted he
    · cases he
  have hcur (k : ThreadKey) (day : ℕ) (hd : day = dayOf b.now ∨ 0 < W.ranOn k day) :
      recordedOn k day (events ++ b.log) ≤ entriesOn W.state k day :=
    (hrec k day).trans (hr.current htag k day hd)
  have hconflict {w' : ℕ} (hc : .conflict w' ∈ events ++ b.log) : .conflict w' ∈ b.log := by
    refine (List.mem_append.mp hc).resolve_left fun hc => ?_
    obtain ⟨k, hk⟩ := hmem hc
    cases hk
  refine ⟨runs_update ?_ rfl ?_, ?_, ?_, ?_, ?_, ?_, ?_, fun w' hc => h.gone w' (hconflict hc), ?_⟩
  · intro w' W' hW' _
    refine (h.runs w' W' hW').frame rfl le_rfl (Nat.le_succ _) (fun hm => ?_) hconflict
    have := (h.runs w' W' hW').tags _ (matches_of_putState hm)
    omega
  · rintro _ ⟨⟩
    refine ⟨hr.born, hr.sane.sent hq result, ?_, ?_, ?_, ?_, ?_⟩
    · obtain ⟨-, rfl⟩ | ⟨-, rfl⟩ := hev
      · exact ⟨nofun, hr.shown.2⟩
      · exact ⟨hr.shown.2, hr.shown.2⟩
    · obtain ⟨-, rfl⟩ | ⟨-, rfl⟩ := hev
      · rintro e ⟨⟩
        exact le_rfl
      · intro e he
        exact (hr.tags e (hold.trans he)).trans (Nat.le_succ _)
    · intro _ k day hd
      obtain rfl := hd.resolve_right (by simp [Watcher.ranOn, Job.ranOn])
      simpa [Watcher.ranOn, Job.ranOn] using hcur k _ (.inl rfl)
    · intro _ k hk day
      have hk := hasReset_sent hq hk
      have hran : W.ranOn k day = 0 := by
        rw [ranOn_of_ran hq, if_neg]
        intro hc
        simp only [Bool.and_eq_true] at hc
        exact hr.sane.not_reset hq (countsFor_iff.mp hc.1) hk
      have := hrec k day
      rw [hran, hr.reset htag k hk day] at this
      exact Nat.le_zero.mp this
    · intro hc
      refine (hr.lost (hconflict hc)).imp id ?_
      rintro ⟨j, at', hj, hp⟩
      rw [hq] at hj
      cases hj
      cases hp
  · rintro s e ⟨⟩
    exact le_rfl
  · rintro s e ⟨⟩
    exact ⟨hr.sane.bound, hr.sane.stamps⟩
  · exact fun k => hcur k _ (.inl rfl)
  · intro w' k at' he
    rcases List.mem_append.mp he with he | he
    · obtain ⟨k', hk'⟩ := hmem he
      cases hk'
      exact hr.sane.ran _ hran at_ rfl
    · exact h.stamps w' k at' he
  · intro k day
    by_cases hp : 0 < W.ranOn k day
    · exact (hcur k day (.inr hp)).trans (hr.sane.bound k day)
    · have := hrec k day
      rw [Nat.eq_zero_of_not_pos hp] at this
      exact this.trans (h.bounded k day)
  · intro w' k day
    have hold := h.spent w' k day
    obtain ⟨rfl, rfl⟩ | ⟨rfl, rfl⟩ := hev
    · simp only [startedBy_counted, recordedBy_counted]
      by_cases hw' : w' = w
      · subst hw'
        simp only [Function.update_self, Option.elim_some, Watcher.sentOn, List.head?_cons, Job.sentOn, decide_true,
          Bool.and_true]
        have := (Nat.le_add_right _ _).trans hold
        omega
      · simp only [Function.update_of_ne hw']
        omega
    · simp only [List.nil_append]
      by_cases hw' : w' = w
      · subst hw'
        simp only [Function.update_self, Option.elim_some, Watcher.sentOn, List.head?_cons, Job.sentOn, Nat.add_zero]
        exact (Nat.le_add_right _ _).trans hold
      · simpa only [Function.update_of_ne hw'] using hold
  · apply List.pairwise_append.mpr
    refine ⟨?_, h.after, ?_⟩
    · apply List.pairwise_of_forall_mem_list
      rintro e he e' - w' k s at' rfl
      obtain ⟨k', hk'⟩ := hmem he
      cases hk'
    · rintro e he e' - w' k s at' rfl
      obtain ⟨k', hk'⟩ := hmem he
      cases hk'

lemma conflict_keeps (h : BudgetKept opts b) (hW : b.runs w = some W)
    (hq : W.stateQueue = ⟨m, owner, .ran at_⟩ :: rest) :
    BudgetKept opts ((b.record [.conflict w]).setRun w
      (some { W with stateQueue := ⟨m, owner, .sent at_ .conflict⟩ :: rest })) := by
  have hr := h.runs w W hW
  have hrec {p : WatchEvent → Bool} (hp : ∀ w, p (.conflict w) = false) (k : ThreadKey) :
      tally p k (.conflict w :: b.log) = tally p k b.log := by
    rw [tally_cons, hp]
    rfl
  have hrecord (k : ThreadKey) (day : ℕ) : recordedOn k day (.conflict w :: b.log) = recordedOn k day b.log :=
    hrec (fun _ => rfl) k
  have hframe (w' : ℕ) (W' : Watcher) (hW' : RunKept opts b w' W') (hne : w' ≠ w ∨ W'.Lost) :
      RunKept opts ((b.record [.conflict w]).setRun w
        (some { W with stateQueue := ⟨m, owner, .sent at_ .conflict⟩ :: rest })) w' W' := by
    refine ⟨hW'.born, hW'.sane, hW'.shown, hW'.tags, ?_, ?_, ?_⟩
    · intro ht k day hd
      exact (Nat.add_le_add_right (hrecord k day).le _).trans (hW'.current ht k day hd)
    · intro ht k hk day
      exact (hrecord k day).trans (hW'.reset ht k hk day)
    · intro hc
      rcases hne with hne | hl
      · refine hW'.lost ((List.mem_cons.mp hc).resolve_left ?_)
        rintro ⟨⟩
        exact hne rfl
      · exact hl
  refine ⟨runs_update (fun w' W' hW' hne => hframe w' W' (h.runs w' W' hW') (.inl hne)) rfl ?_, h.etags, h.stored,
    ?_, ?_, ?_, ?_, ?_, ?_⟩
  · rintro _ ⟨⟩
    exact hframe w _ (hr.refused hq nofun) (.inr (.inr ⟨_, at_, rfl, rfl⟩))
  · exact fun k => (hrecord k _).trans_le (h.covered k)
  · exact fun w' k at' he => h.stamps w' k at' (by simpa [WatchWorld.record, WatchWorld.setRun] using he)
  · exact fun k day => (hrecord k day).trans_le (h.bounded k day)
  · intro w' k day
    have hold := h.spent w' k day
    have h₁ : startedBy w' k day (.conflict w :: b.log) = startedBy w' k day b.log := hrec (fun _ => rfl) k
    have h₂ : recordedBy w' k day (.conflict w :: b.log) = recordedBy w' k day b.log := hrec (fun _ => rfl) k
    simp only [WatchWorld.record, WatchWorld.setRun, List.singleton_append, h₁, h₂]
    by_cases hw' : w' = w
    · subst hw'
      simp only [Function.update_self, Option.elim_some, Watcher.sentOn, List.head?_cons, Job.sentOn, Nat.add_zero]
      exact (Nat.le_add_right _ _).trans hold
    · simpa only [Function.update_of_ne hw'] using hold
  · intro w' hc
    rcases List.mem_cons.mp hc with hc | hc
    · cases hc
      exact hr.born
    · exact h.gone w' hc
  · refine List.pairwise_cons.mpr ⟨?_, h.after⟩
    rintro e' - w' k s at' ⟨⟩

lemma putState_keeps (h : BudgetKept opts b) {answer : PutAnswer} (hg : Steady b (.put w answer))
    (hs : b.putState w answer = some b') : BudgetKept opts b' := by
  obtain ⟨W, hW, hf⟩ := Option.bind_eq_some_iff.mp hs
  split at hf
  · rename_i m owner at_ rest hq
    simp only at hf
    split at hf
    · cases hf
    · cases answer with
      | answered shown =>
        obtain rfl : shown = true := hg
        simp only at hf
        split at hf
        · rename_i ht
          cases hf
          exact stored_keeps h hW hq ht (.inl ⟨rfl, rfl⟩)
        · cases hf
          exact conflict_keeps h hW hq
      | failed lands =>
        cases hf
        split
        · rename_i hc
          simp only [Bool.and_eq_true] at hc
          exact stored_keeps h hW hq hc.2 (.inr ⟨rfl, rfl⟩)
        · refine h.quiet [] ?_ rfl le_rfl nofun
          rintro _ ⟨⟩
          refine ⟨(h.runs w W hW).refused hq nofun, fun k day => ?_⟩
          simp [Watcher.sentOn, Job.sentOn]
  · cases hf

/-- The watcher once the answer is taken in. -/
def Watcher.taken (W : Watcher) (rest : List Job) (result : WriteResult) : Watcher :=
  Watcher.acknowledge { W with stateQueue := rest } result

lemma Watcher.taken_queue (W : Watcher) (rest : List Job) (result : WriteResult) :
    (W.taken rest result).stateQueue = rest := by
  cases result <;> rfl

lemma Watcher.taken_wake (W : Watcher) (rest : List Job) (result : WriteResult) :
    (W.taken rest result).wake = W.wake := by
  cases result <;> rfl

lemma Watcher.taken_state (W : Watcher) (rest : List Job) (result : WriteResult) :
    (W.taken rest result).state = W.state := by
  cases result <;> rfl

lemma RunKept.taken (h : RunKept opts b w W) (hq : W.stateQueue = ⟨m, owner, .sent at_ result⟩ :: rest) :
    RunKept opts b w (W.taken rest result) ∧ ∀ k day, (W.taken rest result).sentOn k day = 0 := by
  have hhead (j : Job) (hj : rest.head? = some j) : j.phase = .queued := by
    apply h.sane.tail
    rw [hq]
    exact List.mem_of_head? hj
  have hnone {α : Type} (f : Job → α) (d : α) (hf : ∀ j : Job, j.phase = .queued → f j = d) :
      (W.taken rest result).stateQueue.head?.elim d f = d := by
    rw [W.taken_queue]
    cases hr : rest.head? with
    | none => rfl
    | some j => exact hf j (hhead j hr)
  have hetag : (W.taken rest result).stateEtag = W.tag := by
    simp only [Watcher.tag, hq, List.head?_cons, Option.elim_some, Job.tag]
    cases result with
    | ok etag => cases etag <;> rfl
    | conflict => rfl
    | failed => rfl
  have htag : (W.taken rest result).tag = W.tag :=
    (hnone _ _ fun j hj => Job.tag_of_queued hj _).trans hetag
  have hran (k : ThreadKey) (day : ℕ) : (W.taken rest result).ranOn k day = 0 :=
    hnone _ _ fun j hj => Job.ranOn_of_queued hj
  refine ⟨⟨h.born, ?_, ?_, ?_, ?_, ?_, ?_⟩, fun k day => hnone _ _ fun j hj => Job.sentOn_of_queued hj⟩
  · exact (h.sane.pop hq nofun).acknowledge
  · rw [htag, hetag]
    exact ⟨h.shown.1, h.shown.1⟩
  · rw [htag]
    exact h.tags
  · intro ht k day hd
    rw [htag] at ht
    rw [hran] at hd ⊢
    obtain rfl := hd.resolve_right (Nat.lt_irrefl 0)
    rw [W.taken_state]
    exact (Nat.le_add_right _ _).trans (h.current ht k _ (.inl rfl))
  · intro ht k hk
    rw [htag] at ht
    obtain ⟨j, hj, hr⟩ := hk
    rw [W.taken_queue] at hj
    exact h.reset ht k ⟨j, hq ▸ List.mem_cons_of_mem _ hj, hr⟩
  · intro hc
    left
    rcases h.lost hc with hl | ⟨j, at', hj, hp⟩
    · cases result <;> first | exact hl | rfl
    · rw [hq] at hj
      cases hj
      cases hp
      rfl

/-- An adapter is started once its attempt is recorded. -/
lemma started_keeps (h : BudgetKept opts b) {s : Snapshot} (hr : RunKept opts b w W)
    (hsent : ∀ k day, W.sentOn k day = 0) (hc : .conflict w ∉ b.log)
    (hm : s.messages ≠ [] → (b.runs w).elim 0 (Watcher.sentOn key (dayOf b.now)) = 1) :
    BudgetKept opts ((b.record [.started w key s b.now]).setRun w (some W)) := by
  have hrecord (k : ThreadKey) (day : ℕ) :
      recordedOn k day (.started w key s b.now :: b.log) = recordedOn k day b.log := by
    rw [recordedOn, tally_cons]
    rfl
  have hmem {e : WatchEvent} (he : e ∈ .started w key s b.now :: b.log) (hne : ∀ k s at_, e ≠ .started w k s at_) :
      e ∈ b.log :=
    (List.mem_cons.mp he).resolve_left (hne _ _ _)
  have hframe (w' : ℕ) (W' : Watcher) (hW' : RunKept opts b w' W') :
      RunKept opts ((b.record [.started w key s b.now]).setRun w (some W)) w' W' :=
    hW'.frame rfl le_rfl le_rfl (fun ht => ⟨ht, fun k day => (hrecord k day).le⟩) fun hc => hmem hc nofun
  refine ⟨runs_update (fun w' W' hW' _ => hframe w' W' (h.runs w' W' hW')) rfl ?_, h.etags, h.stored, ?_, ?_, ?_, ?_,
    fun w' hc => h.gone w' (hmem hc nofun), ?_⟩
  · rintro _ ⟨⟩
    exact hframe w W hr
  · exact fun k => (hrecord k _).trans_le (h.covered k)
  · exact fun w' k at_ he => h.stamps w' k at_ (hmem he nofun)
  · exact fun k day => (hrecord k day).trans_le (h.bounded k day)
  · intro w' k day
    have hold := h.spent w' k day
    have h₁ : recordedBy w' k day (.started w key s b.now :: b.log) = recordedBy w' k day b.log := by
      rw [recordedBy, tally_cons]
      rfl
    have h₂ : startedBy w' k day (.started w key s b.now :: b.log) = startedBy w' k day b.log +
        if (key == k && !s.messages.isEmpty && dayOf b.now == day) && decide (w = w') then 1 else 0 := by
      rw [startedBy, tally_cons]
      simp [WatchEvent.isResumed, WatchEvent.startsOn, WatchEvent.run]
    simp only [WatchWorld.record, WatchWorld.setRun, List.singleton_append, h₁, h₂]
    by_cases hw' : w' = w
    · subst hw'
      simp only [Function.update_self, Option.elim_some, hsent, Nat.add_zero]
      split
      · rename_i hc
        simp only [Bool.and_eq_true, beq_iff_eq, decide_true, and_true, Bool.not_eq_true'] at hc
        obtain ⟨⟨rfl, hne⟩, rfl⟩ := hc
        rwa [hm (by simpa using hne)] at hold
      · exact (Nat.le_add_right _ _).trans hold
    · simpa [Function.update_of_ne hw', Ne.symm hw'] using hold
  · refine List.pairwise_cons.mpr ⟨?_, h.after⟩
    rintro e' he' w' k s' at_ ⟨⟩ rfl
    exact hc he'

lemma acknowledge_keeps (h : BudgetKept opts b) (hg : Steady b (.acknowledge w))
    (hs : b.acknowledge opts w = some b') : BudgetKept opts b' := by
  obtain ⟨W, hW, hf⟩ := Option.bind_eq_some_iff.mp hs
  split at hf
  · rename_i m owner at_ result rest hq
    cases hf
    have hr := h.runs w W hW
    obtain ⟨htaken, hsent⟩ := hr.taken hq
    have hlocal := Local.continue_ opts b.now (W.taken rest result) owner (Watcher.isOk result)
    have hfree (k : ThreadKey) (ho : owner = .wake k) : Free (W.taken rest result) k := by
      intro j hj
      rw [W.taken_queue] at hj
      exact hr.sane.free_pop hq ho j hj
    have hnew := htaken.local_ hlocal (htaken.sane.continue_ hfree)
    have hsent' (k : ThreadKey) (day : ℕ) : Watcher.sentOn k day
        ((W.taken rest result).continue_ opts b.now owner (Watcher.isOk result)).1 = 0 :=
      hlocal.sentOn.trans (hsent k day)
    change BudgetKept opts ((b.record (((W.taken rest result).continue_ opts b.now owner
      (Watcher.isOk result)).2.toList.map fun p => .started w p.1 p.2 b.now)).setRun w
        (some ((W.taken rest result).continue_ opts b.now owner (Watcher.isOk result)).1))
    cases hst : ((W.taken rest result).continue_ opts b.now owner (Watcher.isOk result)).2 with
    | none =>
      refine h.quiet [] ?_ rfl le_rfl nofun
      rintro _ ⟨⟩
      exact ⟨hnew, fun k day => (hsent' k day).trans_le (Nat.zero_le _)⟩
    | some p =>
      obtain ⟨k, s⟩ := p
      obtain ⟨rfl, hok, hstop, at', hwake⟩ := continue_started hst
      obtain ⟨task, ht, hm⟩ := hr.sane.waits _ (hq ▸ List.mem_cons_self) k rfl
      rw [W.taken_wake, ht] at hwake
      cases hwake
      refine started_keeps h hnew hsent' ?_ ?_
      · rintro hc
        rcases htaken.lost hc with hl | ⟨j, at₂, hj, hp⟩
        · rw [hl] at hstop
          cases hstop
        · rw [W.taken_queue] at hj
          have := hr.sane.tail j (by rw [hq]; exact List.mem_of_head? hj)
          rw [hp] at this
          cases this
      · intro hne
        cases result with
        | ok etag =>
          have hne : s.messages.isEmpty = false := by simpa using hne
          obtain rfl : m = .count k true := by rw [show m = _ from hm, hne]; rfl
          have hday := hg W k _ at_ etag rest hW hq
          rw [hW]
          simp [Watcher.sentOn, hq, Job.sentOn, Mutation.countsFor, hday]
        | conflict => cases hok
        | failed => cases hok
  · cases hf

lemma elim_head_append {α : Type} {f : Job → α} {d : α} {j : Job} (hf : f j = d) (l : List Job) :
    (l ++ [j]).head?.elim d f = l.head?.elim d f := by
  cases l with
  | nil => exact hf
  | cons j' l => rfl

lemma recordedOn_resumed (resumed : List ThreadKey) (k : ThreadKey) (day : ℕ) (log : List WatchEvent) :
    recordedOn k day (resumed.map .resumed ++ log) = if k ∈ resumed then 0 else recordedOn k day log :=
  tally_resumed (fun _ => rfl) resumed

/-- Paused threads are seen to be resumed, and the job that resets their budget is queued. -/
lemma resumed_keeps (h : BudgetKept opts b) (hW : b.runs w = some W) {waiter : Option ThreadKey}
    {jobs : List PauseJob} {listed resumed added : List ThreadKey} {at_ : ℕ}
    (hrec : ∀ k task s, W.wake k = some task → task.phase = .recording s → k ∈ listed ∨ k ∈ resumed)
    (hcount : ∀ k ∈ resumed, (∀ j ∈ W.stateQueue, j.mutation ≠ .count k true) ∧
      ∀ w' W' day, b.runs w' = some W' → W'.sentOn k day = 0) :
    BudgetKept opts ((b.record (resumed.map .resumed)).setRun w (some (Watcher.enqueue { W with
      pausedKeys := listed
      pausedLock := .sync waiter .mutating :: jobs } (.resync resumed added at_) .sync))) := by
  have hr := h.runs w W hW
  set W' : Watcher := Watcher.enqueue { W with
      pausedKeys := listed
      pausedLock := .sync waiter .mutating :: jobs } (.resync resumed added at_) .sync with hW'
  have htag : W'.tag = W.tag :=
    elim_head_append (f := Job.tag W.stateEtag) (j := ⟨.resync resumed added at_, .sync, .queued⟩) rfl W.stateQueue
  have hran (k : ThreadKey) (day : ℕ) : W'.ranOn k day = W.ranOn k day :=
    elim_head_append (f := Job.ranOn k day) (j := ⟨.resync resumed added at_, .sync, .queued⟩) rfl W.stateQueue
  have hsent (k : ThreadKey) (day : ℕ) : W'.sentOn k day = W.sentOn k day :=
    elim_head_append (f := Job.sentOn k day) (j := ⟨.resync resumed added at_, .sync, .queued⟩) rfl W.stateQueue
  have hle (k : ThreadKey) (day : ℕ) :
      recordedOn k day (resumed.map .resumed ++ b.log) ≤ recordedOn k day b.log := by
    rw [recordedOn_resumed]
    split
    · exact Nat.zero_le _
    · exact le_rfl
  have hmem {e : WatchEvent} (he : e ∈ resumed.map .resumed ++ b.log) (hne : ∀ k, e ≠ .resumed k) : e ∈ b.log := by
    refine (List.mem_append.mp he).resolve_left fun he => ?_
    obtain ⟨k, -, hk⟩ := List.mem_map.mp he
    exact hne k hk.symm
  have hframe (w' : ℕ) (X : Watcher) (hX : RunKept opts b w' X) :
      RunKept opts ((b.record (resumed.map .resumed)).setRun w (some W')) w' X :=
    hX.frame rfl le_rfl le_rfl (fun ht => ⟨ht, hle⟩) fun hc => hmem hc (by simp)
  refine ⟨runs_update (fun w' X hX _ => hframe w' X (h.runs w' X hX)) rfl ?_, h.etags, h.stored, ?_, ?_, ?_, ?_,
    fun w' hc => h.gone w' (hmem hc (by simp)), ?_⟩
  · rintro _ ⟨⟩
    refine ⟨hr.born, ?_, ?_, ?_, ?_, ?_, ?_⟩
    · apply hr.sane.resync hrec
      exact fun k hk j hj hc => (hcount k hk).1 j hj hc
    · rw [htag]
      exact hr.shown
    · rw [htag]
      exact hr.tags
    · intro ht k day hd
      rw [htag] at ht
      rw [hran] at hd ⊢
      exact (Nat.add_le_add_right (hle k day) _).trans (hr.current ht k day hd)
    · rintro ht k ⟨j, hj, hreset⟩ day
      rw [htag] at ht
      rcases List.mem_append.mp hj with hj | hj
      · exact Nat.le_zero.mp ((hle k day).trans (hr.reset ht k ⟨j, hj, hreset⟩ day).le)
      · obtain ⟨-, _, _, _, hm, hk⟩ := hreset
        rw [List.mem_singleton.mp hj] at hm
        cases hm
        exact (recordedOn_resumed resumed k day b.log).trans (if_pos hk)
    · intro hc
      refine (hr.lost (hmem hc (by simp))).imp id ?_
      rintro ⟨j, at', hj, hp⟩
      refine ⟨j, at', ?_, hp⟩
      rw [List.head?_eq_some_iff] at hj ⊢
      obtain ⟨rest, hq⟩ := hj
      exact ⟨rest ++ [⟨.resync resumed added at_, .sync, .queued⟩], by simp [hW', Watcher.enqueue, hq]⟩
  · exact fun k => (hle k _).trans (h.covered k)
  · exact fun w' k at' he => h.stamps w' k at' (hmem he (by simp))
  · exact fun k day => (hle k day).trans (h.bounded k day)
  · intro w' k day
    have hold := h.spent w' k day
    have h₁ : startedBy w' k day (resumed.map .resumed ++ b.log) =
        if k ∈ resumed then 0 else startedBy w' k day b.log := tally_resumed (fun _ => rfl) resumed
    have h₂ : recordedBy w' k day (resumed.map .resumed ++ b.log) =
        if k ∈ resumed then 0 else recordedBy w' k day b.log := tally_resumed (fun _ => rfl) resumed
    have h₃ : (Function.update b.runs w (some W') w').elim 0 (Watcher.sentOn k day) =
        (b.runs w').elim 0 (Watcher.sentOn k day) := by
      by_cases hw' : w' = w
      · subst hw'
        rw [Function.update_self, hW]
        exact hsent k day
      · rw [Function.update_of_ne hw']
    simp only [WatchWorld.record, WatchWorld.setRun, h₁, h₂, h₃]
    split
    · rename_i hk
      cases hX : b.runs w' with
      | none => exact le_rfl
      | some X => exact (Nat.zero_add _).trans_le ((hcount k hk).2 w' X day hX).le
    · exact hold
  · apply List.pairwise_append.mpr
    refine ⟨?_, h.after, ?_⟩
    · apply List.pairwise_of_forall_mem_list
      rintro e he e' - w' k s at' rfl
      obtain ⟨k', -, hk'⟩ := List.mem_map.mp he
      cases hk'
    · rintro e he e' - w' k s at' rfl
      obtain ⟨k', -, hk'⟩ := List.mem_map.mp he
      cases hk'

lemma applyListing_keeps (h : BudgetKept opts b) (hg : Steady b (.apply w))
    (hs : b.applyListing opts w = some b') : BudgetKept opts b' := by
  obtain ⟨W, hW, hf⟩ := Option.bind_eq_some_iff.mp hs
  split at hf
  · rename_i waiter listed jobs hl
    obtain ⟨hrec, hcount⟩ := hg W waiter listed jobs hW hl
    have hrec (k : ThreadKey) (task : WakeTask) (s : Snapshot) (ht : W.wake k = some task)
        (hp : task.phase = .recording s) :
        k ∈ listed ∨ k ∈ W.state.paused.filter fun key => key ∉ listed := by
      by_cases hk : k ∈ listed
      · exact .inl hk
      · obtain ⟨at_, phase⟩ := task
        cases hp
        exact .inr (by simpa [hk] using (hrec k at_ s ht).resolve_left hk)
    simp only at hf
    split at hf
    · rename_i hnone
      cases hf
      simp only [Bool.and_eq_true, List.isEmpty_iff] at hnone
      have hlocal : Local W { W with pausedKeys := listed } := .of_eq rfl rfl rfl rfl rfl rfl
      refine h.local_ hW (hlocal.trans (Drift.finishSync opts b.now _).local_) (fun hs => ?_) rfl le_rfl
      apply Sane.finishSync
      apply hs.listed
      intro k task s ht hp
      have := hrec k task s ht hp
      rw [hnone.1] at this
      exact this.resolve_right nofun
    · cases hf
      apply resumed_keeps h hW hrec
      intro k hk
      simp only [List.mem_filter, decide_eq_true_eq] at hk
      exact hcount k hk.1 hk.2
  · cases hf

lemma watchStep_keeps (h : BudgetKept opts b) (hb : 0 < opts.wakeBudget) {a : WatchAction} (hg : Steady b a)
    (hs : watchStep opts sentAt b a = some b') : BudgetKept opts b' := by
  cases a with
  | clock now =>
    simp only [watchStep, Option.ite_none_right_eq_some] at hs
    obtain ⟨hle, hs⟩ := hs
    cases hs
    exact clock_keeps h hb hle
  | pause key =>
    cases hs
    exact h.onStore (addMarker_watch _ key) (addMarker_etags _ key).ge
  | unpause key =>
    cases hs
    exact h.onStore rfl le_rfl
  | start profile pid shown =>
    cases hs
    exact start_keeps h profile pid shown
  | stop w => exact stop_keeps h hs
  | crash w =>
    cases hs
    exact crash_keeps h
  | tick w key force => exact tickOne_keeps h hs
  | syncPaused w =>
    obtain ⟨W, W', hW, hf, rfl⟩ := onRun_eq_some hs
    cases hf
    exact h.local_ hW (.lock W _) (fun hs => hs.lock _) rfl le_rfl
  | list w fails => exact listMarkers_keeps h hs
  | apply w => exact applyListing_keeps h hg hs
  | noticeId w key fails => exact noticeId_keeps h hs
  | writeMarker w answer => exact writeMarker_keeps h hs
  | wroteMarker w => exact wroteMarker_keeps h hs
  | deliver w items => exact enqueue_keeps h (by rintro _ ⟨⟩) (by rintro _ _ ⟨⟩) (by rintro _ _ _ ⟨⟩) hs
  | approve w handled wakes => exact enqueue_keeps h (by rintro _ ⟨⟩) (by rintro _ _ ⟨⟩) (by rintro _ _ _ ⟨⟩) hs
  | prune w => exact enqueue_keeps h (by rintro _ ⟨⟩) (by rintro _ _ ⟨⟩) (by rintro _ _ _ ⟨⟩) hs
  | other w => exact enqueue_keeps h (by rintro _ ⟨⟩) (by rintro _ _ ⟨⟩) (by rintro _ _ _ ⟨⟩) hs
  | run w => exact runJob_keeps h hb hs
  | fetch w fails shown => exact fetchEtag_keeps h hs
  | put w answer => exact putState_keeps h hg hs
  | acknowledge w => exact acknowledge_keeps h hg hs
  | commit w fails lands => exact commit_keeps h hs
  | claim w key answer => exact claim_keeps h hs
  | readClaim w key fails shown => exact readClaim_keeps h hs
  | judge w key alive => exact judge_keeps h hs
  | takeOver w key answer => exact takeOver_keeps h hs
  | count w key => exact count_keeps h hs
  | woken w key ok => exact woken_keeps h hs
  | releaseRead w key fails => exact releaseRead_keeps h hs
  | releaseDelete w key lands => exact releaseDelete_keeps h hs
  | pruneClaim w claim lands => exact pruneClaim_keeps h hs

end Steps

section Runs

variable {opts : WatchOptions} {sentAt : String → Option ℕ} {b : WatchWorld}

lemma budgetKept_initial (h : (watchMachine opts sentAt).initial b) : BudgetKept opts b := by
  obtain ⟨hstore, hruns, hlog⟩ := h
  have hzero (p : WatchEvent → Bool) (key : ThreadKey) : tally p key b.log = 0 := by
    rw [hlog]
    rfl
  refine ⟨?_, ?_, ?_, ?_, ?_, ?_, ?_, ?_, ?_⟩
  · intro w W hW
    rw [hruns] at hW
    cases hW
  · intro s e hw
    rw [hstore] at hw
    cases hw
  · intro s e hw
    rw [hstore] at hw
    cases hw
  · exact fun key => (hzero _ key).trans_le (Nat.zero_le _)
  · intro w key at_ he
    rw [hlog] at he
    cases he
  · exact fun key day => (hzero _ key).trans_le (Nat.zero_le _)
  · intro w key day
    rw [hruns]
    exact (hzero _ key).trans_le (Nat.zero_le _)
  · intro w hc
    rw [hlog] at hc
    cases hc
  · rw [hlog]
    exact .nil

lemma budgetKept_within (hb : 0 < opts.wakeBudget) (h : (watchMachine opts sentAt).Within Steady b) :
    BudgetKept opts b :=
  h.invariant (fun _ => budgetKept_initial) fun _ _ _ _ hk hg hs => watchStep_keeps hk hb hg hs

/-- The adapters of a thread that carry messages and were started on one day since the thread was
last resumed are within its budget, and no adapter is started by a watcher that lost a race. -/
theorem wakes_within_budget (hb : 0 < opts.wakeBudget) (h : (watchMachine opts sentAt).Within Steady b) :
    (∀ key day, wakesOn key day b.log ≤ opts.wakeBudget) ∧
      ∀ newer older w key s at_, b.log = newer ++ .started w key s at_ :: older → .conflict w ∉ older := by
  have hk := budgetKept_within hb h
  constructor
  · intro key day
    refine (wakesOn_le_recordedOn fun w => ?_).trans (hk.bounded key day)
    exact (Nat.le_add_right _ _).trans (hk.spent w key day)
  · intro newer older w key s at_ hlog hc
    have hafter := hk.after
    rw [hlog] at hafter
    have := (List.pairwise_cons.mp (List.pairwise_append.mp hafter).2.1).1 _ hc
    exact this w key s at_ rfl rfl

/-- A test that leaves listings out. -/
def steadyCheck (b : WatchWorld) : WatchAction → Bool
  | .put _ (.answered shown) => shown
  | .acknowledge w => (b.runs w).all fun W =>
    match W.stateQueue with
    | ⟨.count _ true, _, .sent at_ (.ok _)⟩ :: _ => dayOf at_ == dayOf b.now
    | _ => true
  | .apply _ => false
  | _ => true

lemma steady_of_check {a : WatchAction} (h : steadyCheck b a = true) : Steady b a := by
  cases a with
  | put w answer =>
    cases answer with
    | answered shown => exact h
    | failed lands => trivial
  | acknowledge w =>
    intro W key owner at_ etag rest hW hq
    simpa [steadyCheck, hW, hq] using h
  | apply w => cases h
  | _ => trivial

def sampleOpts : WatchOptions := ⟨0, 1⟩

/-- A message arrives, its wake is due and its listing fails or is applied, and its adapter runs. -/
def sampleWake (w : ℕ) (id : String) (listing : List WatchAction) : List WatchAction :=
  [WatchAction.deliver w [⟨sampleThread, id, some "ask"⟩]] ++ sampleWrite w ++
    [WatchAction.commit w false false, .tick w sampleThread true] ++
    listing ++ [WatchAction.claim w sampleThread (.answered true), .count w sampleThread] ++ sampleWrite w ++
    [WatchAction.woken w sampleThread true] ++ sampleWrite w

theorem wakes_within_budget_sample : ∃ b, (watchMachine sampleOpts fun _ => none).Within Steady b ∧
    wakesOn sampleThread 0 b.log = 1 ∧ wakesOn sampleThread 0 b.log ≤ 1 := by
  have hrun : ((watchMachine sampleOpts fun _ => none).runIf steadyCheck emptyWorld
      (.start 0 7 true :: sampleWake 0 "m1" [.list 0 true])).map (fun b => wakesOn sampleThread 0 b.log) = some 1 := by
    decide +kernel
  obtain ⟨b, hb, hw⟩ := Option.map_eq_some_iff.mp hrun
  have hwithin : (watchMachine sampleOpts fun _ => none).Within Steady b :=
    Machine.Within.of_runIf (P := fun _ => True) (.start ⟨rfl, fun _ => rfl, rfl⟩) trivial
      (fun _ _ _ hc => steady_of_check hc) (fun _ _ _ _ _ _ => trivial) hb
  exact ⟨b, hwithin, hw, (wakes_within_budget (by decide) hwithin).1 sampleThread 0⟩

/-- The owner resumes the thread while the pause of a wake over budget waits to be recorded. -/
def sampleLostPause : List WatchAction :=
  [WatchAction.start 0 7 true] ++ sampleWake 0 "m1" [.list 0 false, .apply 0] ++
    [WatchAction.deliver 0 [⟨sampleThread, "m2", some "ask"⟩]] ++ sampleWrite 0 ++
    [WatchAction.commit 0 false false] ++
    [WatchAction.tick 0 sampleThread true, .list 0 false, .apply 0, .noticeId 0 sampleThread false] ++
    [WatchAction.writeMarker 0 (.answered true), .wroteMarker 0, .unpause sampleThread] ++
    [WatchAction.syncPaused 0, .list 0 false, .apply 0] ++ sampleWrite 0 ++
    [WatchAction.claim 0 sampleThread (.answered true), .count 0 sampleThread] ++ sampleWrite 0

/-- A budget of one wake, and two adapters started. -/
theorem wakes_over_budget : ∃ b, (watchMachine sampleOpts fun _ => none).Reachable b ∧
    sampleOpts.wakeBudget < wakesOn sampleThread 0 b.log := by
  have hrun : ((watchMachine sampleOpts fun _ => none).run emptyWorld sampleLostPause).map
      (fun b => wakesOn sampleThread 0 b.log) = some 2 := by
    decide +kernel
  obtain ⟨b, hb, hw⟩ := Option.map_eq_some_iff.mp hrun
  exact ⟨b, .of_run (.start ⟨rfl, fun _ => rfl, rfl⟩) hb, by rw [hw]; decide⟩

end Runs

end TinyCloud.Courier
