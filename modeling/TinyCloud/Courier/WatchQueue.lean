import Mathlib.Data.List.Basic
import Mathlib.Data.Multiset.Count
import Mathlib.Tactic.SplitIfs
import TinyCloud.Courier.Watch

/-! What holds of the copy, the queue and the wakes of one watcher: every attempt that is on its way
to be counted has room in the budget of its day. -/

namespace TinyCloud.Courier

open TinyCloud.Runs

def entriesOn (s : WatchState) (key : ThreadKey) (day : ℕ) : ℕ := (s.wakes key).countP fun at_ => dayOf at_ = day

def Counts (key : ThreadKey) (j : Job) : Prop := j.mutation = .count key true

def Resets (key : ThreadKey) (j : Job) : Prop :=
  j.phase = .queued ∧ ∃ resumed added at_, j.mutation = .resync resumed added at_ ∧ key ∈ resumed

/-- What a wake in this phase waits for. -/
def Waits (key : ThreadKey) : WakePhase → Mutation → Prop
  | .recording _, m => m = .recordPause key
  | .holding _, m => ∃ messages, m = .hold key messages
  | .counting s, m => m = .count key (!s.messages.isEmpty)
  | .waking s, m => m = .woke key s.woken s.approvedIds
  | .backingOff s, m => m = .backOff key (!s.messages.isEmpty) (!s.approvals.isEmpty)
  | _, _ => False

/-- The snapshot of a wake that is on its way to be counted. -/
def WakePhase.attempt : WakePhase → Option Snapshot
  | .claiming s _ _ => some s
  | .refused s _ _ => some s
  | .judging s _ _ _ => some s
  | .taking s _ _ => some s
  | .claimed s => some s
  | _ => none

def HasReset (key : ThreadKey) (W : Watcher) : Prop := ∃ j ∈ W.stateQueue, Resets key j

section Sane

variable (opts : WatchOptions) (now : ℕ)

/-- The budget leaves room for one more attempt, or starts over before it is counted. -/
def Allowed (W : Watcher) (key : ThreadKey) : Prop :=
  entriesOn W.state key (dayOf now) < opts.wakeBudget ∨ HasReset key W

/-- What holds of the copy, the queue and the wakes of one watcher. -/
structure Sane (W : Watcher) : Prop where
  tail : ∀ j ∈ W.stateQueue.tail, j.phase = .queued
  owners : W.stateQueue.Pairwise fun j j' => ∀ key, j.owner = .wake key → j'.owner ≠ .wake key
  waits : ∀ j ∈ W.stateQueue, ∀ key, j.owner = .wake key →
    ∃ task, W.wake key = some task ∧ Waits key task.phase j.mutation
  counts : ∀ j ∈ W.stateQueue, ∀ key carries, j.mutation = .count key carries → j.owner = .wake key
  order : W.stateQueue.Pairwise fun j j' => ∀ key, Counts key j → ¬ Resets key j'
  bound : ∀ key day, entriesOn W.state key day ≤ opts.wakeBudget
  stamps : ∀ key, ∀ at_ ∈ W.state.wakes key, at_ ≤ now
  ran : ∀ j ∈ W.stateQueue, ∀ at_, j.phase = .ran at_ → at_ ≤ now
  allowed : ∀ key task s, W.wake key = some task → task.phase.attempt = some s → s.messages ≠ [] →
    Allowed opts now W key
  counting : ∀ j ∈ W.stateQueue, ∀ key, Counts key j → j.phase = .queued → Allowed opts now W key
  recording : ∀ key task s, W.wake key = some task → task.phase = .recording s →
    key ∈ W.pausedKeys ∨ Allowed opts now W key

variable {opts now} {W W' : Watcher} {key : ThreadKey} {s : Snapshot} {task : WakeTask}

lemma recentWakes_length (s : WatchState) : (s.recentWakes key now).length = entriesOn s key (dayOf now) := by
  rw [entriesOn, List.countP_eq_length_filter, WatchState.recentWakes]

/-- Only the parts of a watcher that a wake neither owns nor waits for differ. -/
lemma Sane.congr (h : Sane opts now W) (hs : W'.state = W.state) (hq : W'.stateQueue = W.stateQueue)
    (hw : W'.wake = W.wake)
    (hp : ∀ key task s, W.wake key = some task → task.phase = .recording s → key ∈ W.pausedKeys →
      key ∈ W'.pausedKeys ∨ Allowed opts now W key) : Sane opts now W' := by
  have ha (key : ThreadKey) : Allowed opts now W' key ↔ Allowed opts now W key := by
    simp only [Allowed, HasReset, hs, hq]
  refine ⟨?_, ?_, ?_, ?_, ?_, ?_, ?_, ?_, ?_, ?_, ?_⟩
  · rw [hq]
    exact h.tail
  · rw [hq]
    exact h.owners
  · rw [hq, hw]
    exact h.waits
  · rw [hq]
    exact h.counts
  · rw [hq]
    exact h.order
  · rw [hs]
    exact h.bound
  · rw [hs]
    exact h.stamps
  · rw [hq]
    exact h.ran
  · intro key task s ht hp hm
    rw [hw] at ht
    exact (ha key).mpr (h.allowed key task s ht hp hm)
  · intro j hj key hc hp
    rw [hq] at hj
    exact (ha key).mpr (h.counting j hj key hc hp)
  · intro key task s ht hr
    rw [hw] at ht
    rcases h.recording key task s ht hr with hk | hk
    · exact (hp key task s ht hr hk).imp id (ha key).mpr
    · exact .inr ((ha key).mpr hk)

/-- No job belongs to the wake of the thread. -/
def Free (W : Watcher) (key : ThreadKey) : Prop := ∀ j ∈ W.stateQueue, j.owner ≠ .wake key

lemma Sane.free (h : Sane opts now W) (hw : ∀ task m, W.wake key = some task → ¬ Waits key task.phase m) :
    Free W key := by
  intro j hj ho
  obtain ⟨task, ht, hm⟩ := h.waits j hj key ho
  exact hw task j.mutation ht hm

/-- A wake that no job belongs to changes its phase. -/
lemma Sane.setWake (h : Sane opts now W) (hf : Free W key) {task : Option WakeTask}
    (ha : ∀ t s, task = some t → t.phase.attempt = some s → s.messages ≠ [] → Allowed opts now W key)
    (hr : ∀ t s, task = some t → t.phase = .recording s → key ∈ W.pausedKeys ∨ Allowed opts now W key) :
    Sane opts now (W.setWake key task) := by
  have hwake {k : ThreadKey} {t : WakeTask} (ht : (W.setWake key task).wake k = some t) :
      (k = key ∧ task = some t) ∨ (k ≠ key ∧ W.wake k = some t) := by
    by_cases hk : k = key
    · subst hk
      exact .inl ⟨rfl, by simpa [Watcher.setWake] using ht⟩
    · exact .inr ⟨hk, by simpa [Watcher.setWake, hk] using ht⟩
  refine ⟨h.tail, h.owners, ?_, h.counts, h.order, h.bound, h.stamps, h.ran, ?_, h.counting, ?_⟩
  · intro j hj k ho
    obtain ⟨t, ht, hm⟩ := h.waits j hj k ho
    have hk : k ≠ key := fun hk => hf j hj (hk ▸ ho)
    exact ⟨t, by simpa [Watcher.setWake, hk] using ht, hm⟩
  · intro k t s ht hp hm
    obtain ⟨rfl, hk⟩ | ⟨-, hk⟩ := hwake ht
    · exact ha t s hk hp hm
    · exact h.allowed k t s hk hp hm
  · intro k t s ht hp
    obtain ⟨rfl, hk⟩ | ⟨-, hk⟩ := hwake ht
    · exact hr t s hk hp
    · exact h.recording k t s hk hp

lemma mem_tail_append {j j' : Job} {l : List Job} (h : j' ∈ (l ++ [j]).tail) : j' ∈ l.tail ∨ j' = j := by
  cases l with
  | nil => simp at h
  | cons a l => simpa using h

lemma HasReset.append (h : HasReset key W) (m : Mutation) (o : Owner) : HasReset key (W.enqueue m o) := by
  obtain ⟨j, hj, hr⟩ := h
  exact ⟨j, List.mem_append_left _ hj, hr⟩

lemma Allowed.enqueue (h : Allowed opts now W key) (m : Mutation) (o : Owner) :
    Allowed opts now (W.enqueue m o) key :=
  h.imp id fun h => h.append m o

/-- A job is appended to the queue; its owner is the wake that waits for it, if any. -/
lemma Sane.enqueue (h : Sane opts now W) {m : Mutation} {o : Owner}
    (ho : ∀ key, o = .wake key → Free W key ∧ ∃ task, W.wake key = some task ∧ Waits key task.phase m)
    (hc : ∀ key carries, m = .count key carries → o = .wake key)
    (hcount : ∀ key, m = .count key true → Allowed opts now W key)
    (hreset : ∀ resumed added at_ key, m = .resync resumed added at_ → key ∈ resumed →
      ∀ j ∈ W.stateQueue, ¬ Counts key j) : Sane opts now (W.enqueue m o) := by
  have hmem {j : Job} (hj : j ∈ (W.enqueue m o).stateQueue) : j ∈ W.stateQueue ∨ j = ⟨m, o, .queued⟩ := by
    simpa [Watcher.enqueue] using hj
  refine ⟨?_, ?_, ?_, ?_, ?_, h.bound, h.stamps, ?_, ?_, ?_, ?_⟩
  · intro j hj
    rcases mem_tail_append hj with hj | rfl
    · exact h.tail j hj
    · rfl
  · apply List.pairwise_append.mpr
    refine ⟨h.owners, List.pairwise_singleton _ _, ?_⟩
    rintro j hj j' hj' key hk hk'
    rw [List.mem_singleton.mp hj'] at hk'
    exact (ho key hk').1 j hj hk
  · intro j hj key hk
    rcases hmem hj with hj | rfl
    · exact h.waits j hj key hk
    · exact (ho key hk).2
  · intro j hj key carries hm
    rcases hmem hj with hj | rfl
    · exact h.counts j hj key carries hm
    · exact hc key carries hm
  · apply List.pairwise_append.mpr
    refine ⟨h.order, List.pairwise_singleton _ _, ?_⟩
    rintro j hj j' hj' key hk hk'
    rw [List.mem_singleton.mp hj'] at hk'
    obtain ⟨-, resumed, added, at_, hm, hkey⟩ := hk'
    exact hreset resumed added at_ key hm hkey j hj hk
  · intro j hj at_ hp
    rcases hmem hj with hj | rfl
    · exact h.ran j hj at_ hp
    · cases hp
  · intro key task s ht hp hm
    exact (h.allowed key task s ht hp hm).enqueue m o
  · intro j hj key hk hp
    rcases hmem hj with hj | rfl
    · exact (h.counting j hj key hk hp).enqueue m o
    · exact (hcount key hk).enqueue m o
  · intro key task s ht hp
    exact (h.recording key task s ht hp).imp id fun h => h.enqueue m o

/-- A wake starts to wait for a `mutate` of its own. -/
lemma Sane.await (h : Sane opts now W) (hf : Free W key) {at_ : ℕ} {phase : WakePhase} {m : Mutation}
    (hw : Waits key phase m) (ha : phase.attempt = none)
    (hr : ∀ s, phase = .recording s → key ∈ W.pausedKeys)
    (hc : ∀ k carries, m = .count k carries → k = key)
    (hcount : m = .count key true → Allowed opts now W key)
    (hreset : ∀ resumed added at_, m ≠ .resync resumed added at_) :
    Sane opts now ((W.enqueue m (.wake key)).setWake key (some ⟨at_, phase⟩)) := by
  have h' : Sane opts now (W.setWake key (some ⟨at_, phase⟩)) := by
    apply h.setWake hf
    · rintro t s ⟨⟩ hs
      simp [ha] at hs
    · rintro t s ⟨⟩ hs
      exact .inl (hr s hs)
  have := h'.enqueue (m := m) (o := .wake key) ?_ ?_ ?_ ?_
  · exact this
  · rintro k ⟨⟩
    exact ⟨hf, ⟨at_, phase⟩, by simp [Watcher.setWake], hw⟩
  · rintro k carries rfl
    rw [hc k carries rfl]
  · rintro k rfl
    cases hc k true rfl
    exact hcount rfl
  · rintro resumed added at_ k rfl
    exact absurd rfl (hreset resumed added at_)

lemma proceed_eq (W : Watcher) (key : ThreadKey) (at_ now : ℕ) (s : Snapshot) :
    ∃ task, W.proceed key at_ now s = W.setWake key task ∧ ∀ t, task = some t →
      ∃ s', t.phase = .claiming s' now 0 ∧ (s'.messages = [] ∨ s'.messages = s.messages) := by
  refine ⟨_, rfl, fun t ht => ?_⟩
  rw [Option.ite_none_left_eq_some] at ht
  obtain ⟨-, ht⟩ := ht
  cases ht
  refine ⟨_, rfl, ?_⟩
  simp only
  split
  · exact .inl rfl
  · exact .inr rfl

lemma Sane.proceed (h : Sane opts now W) (hf : Free W key) {at_ : ℕ}
    (ha : s.messages ≠ [] → Allowed opts now W key) : Sane opts now (W.proceed key at_ now s) := by
  obtain ⟨task, heq, hp⟩ := proceed_eq W key at_ now s
  rw [heq]
  apply h.setWake hf
  · intro t s' ht hs hm
    obtain ⟨s'', ht, hmsg⟩ := hp t ht
    rw [ht] at hs
    cases hs
    exact ha (hmsg.resolve_left hm ▸ hm)
  · intro t s' ht hs
    obtain ⟨s'', ht, -⟩ := hp t ht
    rw [ht] at hs
    cases hs

lemma Sane.checkPaused (h : Sane opts now W) (hf : Free W key) {at_ : ℕ}
    (ha : key ∉ W.pausedKeys → Allowed opts now W key) : Sane opts now (W.checkPaused key at_ now s) := by
  unfold Watcher.checkPaused
  split
  · exact h.await hf ⟨_, rfl⟩ rfl nofun nofun nofun nofun
  · exact h.proceed hf fun _ => ha ‹_›

lemma Sane.synced (h : Sane opts now W) (hf : Free W key) {at_ : ℕ} :
    Sane opts now (W.synced opts now key at_) := by
  unfold Watcher.synced
  split
  · exact h.setWake hf nofun nofun
  · simp only
    split_ifs with hm hb
    · exact h.proceed hf fun hne => absurd (List.isEmpty_iff.mp hm) hne
    · exact h.setWake hf (by rintro t s ⟨⟩ ⟨⟩) (by rintro t s ⟨⟩ ⟨⟩)
    · apply h.checkPaused hf
      intro hk
      have := not_and.mp hb hk
      rw [recentWakes_length, not_le] at this
      exact .inl this

lemma Sane.finishSync (h : Sane opts now W) : Sane opts now (W.finishSync opts now) := by
  unfold Watcher.finishSync
  split
  · rename_i waiter phase rest hl
    have h' : Sane opts now { W with pausedLock := rest } := h.congr rfl rfl rfl fun _ _ _ _ _ hk => .inl hk
    cases waiter with
    | none => exact h'
    | some key =>
      simp only
      split
      · rename_i at_ ht
        exact h'.synced (h'.free fun task m hw => by rw [ht] at hw; cases hw; exact id)
      · exact h'
  · exact h

lemma Sane.skip (h : Sane opts now W) (hf : Free W key) {at_ : ℕ} : Sane opts now (W.skip key at_) := by
  have h' : Sane opts now { W with retryAt := Function.update W.retryAt key (at_ + CLAIM_SKIP_MS) } :=
    h.congr rfl rfl rfl fun _ _ _ _ _ hk => .inl hk
  exact h'.setWake hf nofun nofun

lemma hasReset_pop {j : Job} {rest : List Job} (hq : W.stateQueue = j :: rest) (hj : j.phase ≠ .queued) :
    HasReset key W ↔ HasReset key { W with stateQueue := rest } := by
  constructor
  · rintro ⟨j', hj', hr⟩
    rw [hq] at hj'
    rcases List.mem_cons.mp hj' with rfl | hj'
    · exact absurd hr.1 hj
    · exact ⟨j', hj', hr⟩
  · rintro ⟨j', hj', hr⟩
    exact ⟨j', by rw [hq]; exact List.mem_cons_of_mem _ hj', hr⟩

lemma Sane.pop (h : Sane opts now W) {j : Job} {rest : List Job} (hq : W.stateQueue = j :: rest)
    (hj : j.phase ≠ .queued) : Sane opts now { W with stateQueue := rest } := by
  have hmem {j' : Job} (h' : j' ∈ rest) : j' ∈ W.stateQueue := hq ▸ List.mem_cons_of_mem _ h'
  have ha (key : ThreadKey) (h : Allowed opts now W key) : Allowed opts now { W with stateQueue := rest } key :=
    h.imp id (hasReset_pop hq hj).mp
  have htail := h.tail
  have howners := h.owners
  have horder := h.order
  rw [hq] at htail howners horder
  refine ⟨?_, (List.pairwise_cons.mp howners).2, ?_, ?_, (List.pairwise_cons.mp horder).2, h.bound, h.stamps, ?_,
    ?_, ?_, ?_⟩
  · intro j' hj'
    exact htail j' (List.mem_of_mem_tail hj')
  · exact fun j' hj' => h.waits j' (hmem hj')
  · exact fun j' hj' => h.counts j' (hmem hj')
  · exact fun j' hj' => h.ran j' (hmem hj')
  · exact fun key task s ht hp hm => ha key (h.allowed key task s ht hp hm)
  · exact fun j' hj' key hc hp => ha key (h.counting j' (hmem hj') key hc hp)
  · exact fun key task s ht hp => (h.recording key task s ht hp).imp id (ha key)

lemma Sane.free_pop (h : Sane opts now W) {j : Job} {rest : List Job} (hq : W.stateQueue = j :: rest)
    (hj : j.owner = .wake key) : Free { W with stateQueue := rest } key := by
  have := h.owners
  rw [hq] at this
  exact fun j' hj' => (List.pairwise_cons.mp this).1 j' hj' key hj

lemma Sane.mutated (h : Sane opts now W) (hf : Free W key) {ok : Bool} :
    Sane opts now (W.mutated now key ok).1 := by
  unfold Watcher.mutated
  split
  · rename_i at_ s ht
    split
    · apply h.checkPaused hf
      exact fun hk => (h.recording key _ s ht rfl).resolve_left hk
    · exact h.setWake hf nofun nofun
  · split
    · exact h.proceed hf fun hm => absurd rfl hm
    · exact h.setWake hf nofun nofun
  · split
    · exact h.setWake hf (by rintro t s ⟨⟩ ⟨⟩) (by rintro t s ⟨⟩ ⟨⟩)
    · exact h.setWake hf (by rintro t s ⟨⟩ ⟨⟩) (by rintro t s ⟨⟩ ⟨⟩)
  · split
    · have h' : Sane opts now { W with retryAt := Function.update W.retryAt key 0 } :=
        h.congr rfl rfl rfl fun _ _ _ _ _ hk => .inl hk
      exact h'.setWake hf nofun nofun
    · exact h.setWake hf nofun nofun
  · cases ok
    · exact h.setWake hf nofun nofun
    · exact h.setWake hf (by rintro t s ⟨⟩ ⟨⟩) (by rintro t s ⟨⟩ ⟨⟩)
  · exact h

lemma Sane.acknowledge (h : Sane opts now W) {result : WriteResult} : Sane opts now (W.acknowledge result) := by
  cases result <;> exact h.congr rfl rfl rfl fun _ _ _ _ _ hk => .inl hk

lemma Sane.continue_ (h : Sane opts now W) {owner : Owner} {ok : Bool}
    (hf : ∀ key, owner = .wake key → Free W key) : Sane opts now (W.continue_ opts now owner ok).1 := by
  cases owner with
  | wake key => exact h.mutated (hf key rfl)
  | sync => exact h.finishSync
  | receipts items =>
    simp only [Watcher.continue_]
    split
    · exact h.congr rfl rfl rfl fun _ _ _ _ _ hk => .inl hk
    · exact h
  | nobody => exact h

lemma mutated_started {ok : Bool} (h : (W.mutated now key ok).2 = some s) :
    ok = true ∧ W.stopping = false ∧ ∃ at_, W.wake key = some ⟨at_, .counting s⟩ := by
  unfold Watcher.mutated at h
  split at h
  · cases h
  · cases h
  · rename_i at_ s' ht
    split at h
    · rename_i hok
      cases h
      simp only [Bool.and_eq_true, Bool.not_eq_true'] at hok
      exact ⟨hok.1, hok.2, at_, ht⟩
    · cases h
  · cases h
  · cases h
  · cases h

lemma continue_started {owner : Owner} {ok : Bool} (h : (W.continue_ opts now owner ok).2 = some (key, s)) :
    owner = .wake key ∧ ok = true ∧ W.stopping = false ∧ ∃ at_, W.wake key = some ⟨at_, .counting s⟩ := by
  cases owner with
  | wake k =>
    obtain ⟨s', hs, heq⟩ := Option.map_eq_some_iff.mp h
    cases heq
    exact ⟨rfl, mutated_started hs⟩
  | sync => cases h
  | receipts items => cases h
  | nobody => cases h

end Sane

section Mutations

variable {opts : WatchOptions} {now : ℕ} {paused : List ThreadKey} {s : WatchState} {key : ThreadKey}

lemma hold_wakes (s : WatchState) (key : ThreadKey) (m : WakeMessage) : (s.hold key m).wakes = s.wakes := by
  unfold WatchState.hold
  split <;> rfl

lemma addMessage_wakes (s : WatchState) (key : ThreadKey) (at_ : ℕ) (m : WakeMessage) :
    (s.addMessage key at_ m).wakes = s.wakes := by
  unfold WatchState.addMessage
  simp only
  split <;> rfl

lemma deliverOne_wakes (s : WatchState) (at_ : ℕ) (item : Delivered) :
    (s.deliverOne paused at_ item).1.wakes = s.wakes := by
  unfold WatchState.deliverOne
  split
  · rfl
  · simp only
    split
    · rfl
    · split
      · exact hold_wakes _ _ _
      · exact addMessage_wakes _ _ _ _

lemma deliver_wakes (s : WatchState) (at_ : ℕ) (items : List Delivered) :
    (s.deliver paused at_ items).1.wakes = s.wakes := by
  induction items generalizing s with
  | nil => rfl
  | cons item items ih => exact (ih _).trans (deliverOne_wakes s at_ item)

lemma holdAll_wakes (s : WatchState) (messages : List WakeMessage) :
    (s.holdAll key messages).1.wakes = s.wakes := by
  induction messages generalizing s with
  | nil => rfl
  | cons m messages ih => exact (ih _).trans (hold_wakes s key m)

lemma settle_wakes (s : WatchState) (key : ThreadKey) (ids approved : List String) :
    (s.settle key ids approved).wakes = s.wakes := by
  unfold WatchState.settle
  split <;> rfl

lemma addApproval_wakes (at_ : ℕ) (s : WatchState) (wakes : List (ThreadKey × WakeApproval)) :
    (wakes.foldl (WatchState.addApproval at_) s).wakes = s.wakes := by
  induction wakes generalizing s with
  | nil => rfl
  | cons wake wakes ih => exact ih _

lemma resume_wakes (at_ : ℕ) (s : WatchState) (resumed : List ThreadKey) (key : ThreadKey) :
    (resumed.foldl (WatchState.resume at_) s).wakes key = if key ∈ resumed then [] else s.wakes key := by
  induction resumed generalizing s with
  | nil => simp
  | cons k resumed ih =>
    rw [List.foldl_cons, ih]
    have : (s.resume at_ k).wakes key = if key = k then [] else s.wakes key := by
      simp [WatchState.resume, Function.update_apply]
    rw [this]
    by_cases h₁ : key ∈ resumed <;> by_cases h₂ : key = k <;> simp [h₁, h₂]

/-- What a mutation does to the attempts of a thread. -/
inductive WakesStep (now : ℕ) (key : ThreadKey) (m : Mutation) (before after : List ℕ) : Prop
  | keeps (hm : m ≠ .count key true) (hr : ∀ resumed added at_, m = .resync resumed added at_ → key ∉ resumed)
      (h : after = before)
  | counts (hm : m = .count key true) (h : after = before.filter (fun at_ => dayOf at_ = dayOf now) ++ [now])
  | resets (hm : ∃ resumed added at_, m = .resync resumed added at_ ∧ key ∈ resumed) (h : after = [])
  | prunes (hm : m = .prune) (hb : ∀ at_ ∈ before, dayOf at_ ≠ dayOf now) (h : after = [])

lemma apply_wakes (paused : List ThreadKey) (now : ℕ) (s : WatchState) (key : ThreadKey) (m : Mutation) :
    WakesStep now key m (s.wakes key) ((m.apply paused now s).1.wakes key) := by
  cases m with
  | deliver items at_ => exact .keeps nofun nofun (congrFun (deliver_wakes s at_ items) key)
  | approvals handled wakes at_ => exact .keeps nofun nofun (congrFun (addApproval_wakes at_ _ wakes) key)
  | hold k messages =>
    exact .keeps nofun nofun (congrFun ((settle_wakes _ k _ _).trans (holdAll_wakes s messages)) key)
  | count k carries =>
    cases carries with
    | false => exact .keeps nofun nofun rfl
    | true =>
      by_cases hk : key = k
      · subst hk
        exact .counts rfl (by simp [Mutation.apply, WatchState.recentWakes])
      · refine .keeps ?_ nofun (by simp [Mutation.apply, hk])
        rintro ⟨⟩
        exact hk rfl
  | backOff k a c => exact .keeps nofun nofun rfl
  | woke k woken approvedIds => exact .keeps nofun nofun (congrFun (settle_wakes s k woken approvedIds) key)
  | recordPause k => exact .keeps nofun nofun rfl
  | resync resumed added at_ =>
    have := resume_wakes at_ s resumed key
    by_cases hk : key ∈ resumed
    · rw [if_pos hk] at this
      exact .resets ⟨resumed, added, at_, rfl, hk⟩ this
    · rw [if_neg hk] at this
      refine .keeps nofun ?_ this
      rintro _ _ _ ⟨⟩
      exact hk
  | prune =>
    have heq : ((Mutation.prune).apply paused now s).1.wakes key =
        if (s.recentWakes key now).isEmpty then [] else s.wakes key := rfl
    split at heq
    · rename_i he
      refine .prunes rfl ?_ heq
      intro at_ hat hd
      rw [List.isEmpty_iff, WatchState.recentWakes, List.filter_eq_nil_iff] at he
      exact he at_ hat (by simpa using hd)
    · exact .keeps nofun nofun heq
  | other => exact .keeps nofun nofun rfl

variable {m : Mutation} {s' : WatchState}

lemma entriesOn_le_of_step (h : WakesStep now key m (s.wakes key) (s'.wakes key)) (hm : m ≠ .count key true)
    (day : ℕ) : entriesOn s' key day ≤ entriesOn s key day := by
  unfold entriesOn
  cases h with
  | keeps _ _ h => exact (congrArg _ h).le
  | counts hm' _ => exact absurd hm' hm
  | resets _ h => simp [h]
  | prunes _ _ h => simp [h]

lemma entriesOn_today (h : WakesStep now key m (s.wakes key) (s'.wakes key)) (hm : m ≠ .count key true)
    (hr : ∀ resumed added at_, m = .resync resumed added at_ → key ∉ resumed) :
    entriesOn s' key (dayOf now) = entriesOn s key (dayOf now) := by
  unfold entriesOn
  cases h with
  | keeps _ _ h => rw [h]
  | counts hm' _ => exact absurd hm' hm
  | resets hm' _ =>
    obtain ⟨resumed, added, at_, hm', hk⟩ := hm'
    exact absurd hk (hr resumed added at_ hm')
  | prunes _ hb h =>
    rw [h, List.countP_nil]
    exact (List.countP_eq_zero.mpr fun at_ hat => by simpa using hb at_ hat).symm

lemma entriesOn_count (h : WakesStep now key (.count key true) (s.wakes key) (s'.wakes key)) :
    entriesOn s' key (dayOf now) = entriesOn s key (dayOf now) + 1 ∧
      ∀ day, day ≠ dayOf now → entriesOn s' key day = 0 := by
  cases h with
  | keeps hm _ _ => exact absurd rfl hm
  | resets hm _ =>
    obtain ⟨_, _, _, hm, _⟩ := hm
    cases hm
  | prunes hm _ _ => cases hm
  | counts _ h =>
    unfold entriesOn
    refine ⟨?_, fun day hday => ?_⟩
    · rw [h, List.countP_append, List.countP_filter]
      simp
    · rw [h, List.countP_append, List.countP_filter, List.countP_eq_zero.mpr]
      · simpa using Ne.symm hday
      · intro at_ _ hat
        simp only [Bool.and_eq_true, decide_eq_true_eq] at hat
        exact hday (hat.1.symm.trans hat.2)

end Mutations

section Steps

variable {opts : WatchOptions} {now : ℕ} {W : Watcher} {key : ThreadKey}

lemma Sane.not_reset (h : Sane opts now W) {j : Job} {rest : List Job} (hq : W.stateQueue = j :: rest)
    (hc : Counts key j) : ¬ HasReset key W := by
  rintro ⟨j', hj', hr⟩
  have horder := h.order
  rw [hq] at horder hj'
  rcases List.mem_cons.mp hj' with rfl | hj'
  · obtain ⟨-, resumed, added, at_, hm, -⟩ := hr
    rw [show j'.mutation = _ from hc] at hm
    cases hm
  · exact (List.pairwise_cons.mp horder).1 j' hj' key hc hr

lemma WakePhase.not_waits {phase : WakePhase} {s : Snapshot} (h : phase.attempt = some s) {m : Mutation} :
    ¬ Waits key phase m := by
  cases phase with
  | claiming | refused | judging | taking | claimed => exact id
  | _ => cases h

/-- The head of the queue is applied to the copy. -/
lemma Sane.run (h : Sane opts now W) (hb : 0 < opts.wakeBudget) {m : Mutation} {owner : Owner} {rest : List Job}
    (hq : W.stateQueue = ⟨m, owner, .queued⟩ :: rest) :
    Sane opts now { W with
      state := (m.apply W.pausedKeys now W.state).1
      stateQueue := ⟨m, owner, .ran now⟩ :: rest } := by
  have hstep (k : ThreadKey) := apply_wakes W.pausedKeys now W.state k m
  have hmem {j : Job} (hj : j ∈ rest) : j ∈ W.stateQueue := hq ▸ List.mem_cons_of_mem _ hj
  have hhead : ⟨m, owner, .queued⟩ ∈ W.stateQueue := hq ▸ List.mem_cons_self
  have howners := h.owners
  have horder := h.order
  have htail := h.tail
  rw [hq] at howners horder htail
  obtain ⟨hown, howners⟩ := List.pairwise_cons.mp howners
  obtain ⟨hord, horder⟩ := List.pairwise_cons.mp horder
  have hless {k : ThreadKey} (hm : m ≠ .count k true) (ha : Allowed opts now W k) :
      Allowed opts now { W with
        state := (m.apply W.pausedKeys now W.state).1
        stateQueue := ⟨m, owner, .ran now⟩ :: rest } k := by
    rcases ha with ha | ⟨j, hj, hr⟩
    · exact .inl ((entriesOn_le_of_step (hstep k) hm _).trans_lt ha)
    · rw [hq] at hj
      rcases List.mem_cons.mp hj with rfl | hj
      · left
        obtain ⟨-, hr⟩ := hr
        have : (m.apply W.pausedKeys now W.state).1.wakes k = [] := by
          cases hstep k with
          | keeps _ hk _ =>
            obtain ⟨resumed, added, at_, hmr, hkr⟩ := hr
            exact absurd hkr (hk resumed added at_ hmr)
          | counts hk _ => exact absurd hk hm
          | resets _ heq => exact heq
          | prunes _ _ heq => exact heq
        simpa [entriesOn, this] using hb
      · exact .inr ⟨j, List.mem_cons_of_mem _ hj, hr⟩
  have hne {k : ThreadKey} (hw : ∀ task, W.wake k = some task → ¬ Waits k task.phase (.count k true)) :
      m ≠ .count k true := by
    rintro rfl
    obtain ⟨task, ht, hwaits⟩ := h.waits _ hhead k (h.counts _ hhead k true rfl)
    exact hw task ht hwaits
  refine ⟨htail, List.pairwise_cons.mpr ⟨hown, howners⟩, ?_, ?_, List.pairwise_cons.mpr ⟨hord, horder⟩, ?_, ?_, ?_,
    ?_, ?_, ?_⟩
  · intro j hj k ho
    rcases List.mem_cons.mp hj with rfl | hj
    · exact h.waits _ hhead k ho
    · exact h.waits j (hmem hj) k ho
  · intro j hj k carries hm
    rcases List.mem_cons.mp hj with rfl | hj
    · exact h.counts _ hhead k carries hm
    · exact h.counts j (hmem hj) k carries hm
  · intro k day
    by_cases hm : m = .count k true
    · subst hm
      obtain ⟨htoday, hother⟩ := entriesOn_count (hstep k)
      by_cases hd : day = dayOf now
      · subst hd
        have := (h.counting _ hhead k rfl rfl).resolve_right (h.not_reset hq rfl)
        exact htoday.trans_le this
      · exact (hother day hd).trans_le (Nat.zero_le _)
    · exact (entriesOn_le_of_step (hstep k) hm day).trans (h.bound k day)
  · intro k at_ hat
    cases hstep k with
    | keeps _ _ heq =>
      rw [show ((m.apply W.pausedKeys now W.state).1.wakes k) = _ from heq] at hat
      exact h.stamps k at_ hat
    | counts _ heq =>
      rw [show ((m.apply W.pausedKeys now W.state).1.wakes k) = _ from heq] at hat
      rcases List.mem_append.mp hat with hat | hat
      · exact h.stamps k at_ (List.mem_of_mem_filter hat)
      · exact (List.mem_singleton.mp hat).le
    | resets _ heq =>
      rw [show ((m.apply W.pausedKeys now W.state).1.wakes k) = _ from heq] at hat
      cases hat
    | prunes _ _ heq =>
      rw [show ((m.apply W.pausedKeys now W.state).1.wakes k) = _ from heq] at hat
      cases hat
  · intro j hj at_ hp
    rcases List.mem_cons.mp hj with rfl | hj
    · cases hp
      exact le_rfl
    · exact h.ran j (hmem hj) at_ hp
  · intro k task s ht hp hm
    refine hless (hne fun task' ht' hw => ?_) (h.allowed k task s ht hp hm)
    rw [ht] at ht'
    cases ht'
    exact WakePhase.not_waits hp hw
  · intro j hj k hc hp
    rcases List.mem_cons.mp hj with rfl | hj'
    · cases hp
    · refine hless (fun hm => ?_) (h.counting j (hmem hj') k hc hp)
      exact hown j hj' k (h.counts _ hhead k true hm) (h.counts j (hmem hj') k true hc)
  · intro k task s ht hp
    refine (h.recording k task s ht hp).imp id (hless (hne fun task' ht' hw => ?_))
    rw [ht] at ht'
    cases ht'
    rw [hp] at hw
    cases hw

lemma Sane.clock (h : Sane opts now W) {now' : ℕ} (hle : now ≤ now') (hb : 0 < opts.wakeBudget) :
    Sane opts now' W := by
  have ha (k : ThreadKey) (h' : Allowed opts now W k) : Allowed opts now' W k := by
    refine h'.imp (fun h' => ?_) id
    by_cases hd : dayOf now' = dayOf now
    · rwa [hd]
    · have : entriesOn W.state k (dayOf now') = 0 := by
        apply List.countP_eq_zero.mpr
        intro at_ hat
        have h₁ := h.stamps k at_ hat
        have h₂ : dayOf at_ ≤ dayOf now := Nat.div_le_div_right h₁
        have h₃ : dayOf now ≤ dayOf now' := Nat.div_le_div_right hle
        simp only [decide_eq_true_eq]
        omega
      exact this ▸ hb
  refine ⟨h.tail, h.owners, h.waits, h.counts, h.order, h.bound, ?_, ?_, ?_, ?_, ?_⟩
  · exact fun k at_ hat => (h.stamps k at_ hat).trans hle
  · exact fun j hj at_ hp => (h.ran j hj at_ hp).trans hle
  · exact fun k task s ht hp hm => ha k (h.allowed k task s ht hp hm)
  · exact fun j hj k hc hp => ha k (h.counting j hj k hc hp)
  · exact fun k task s ht hp => (h.recording k task s ht hp).imp id (ha k)

/-- A watcher that has just loaded the state. -/
lemma Sane.start (hq : W.stateQueue = []) (hw : ∀ k, W.wake k = none)
    (hb : ∀ k day, entriesOn W.state k day ≤ opts.wakeBudget) (hs : ∀ k, ∀ at_ ∈ W.state.wakes k, at_ ≤ now) :
    Sane opts now W := by
  refine ⟨?_, ?_, ?_, ?_, ?_, hb, hs, ?_, ?_, ?_, ?_⟩
  all_goals simp [hq, hw]

/-- A listing is applied: the job that resets the resumed threads is queued. -/
lemma Sane.resync (h : Sane opts now W) {waiter : Option ThreadKey} {rest : List PauseJob} {listed : List ThreadKey}
    {resumed added : List ThreadKey} {at_ : ℕ}
    (hr : ∀ k task s, W.wake k = some task → task.phase = .recording s → k ∈ listed ∨ k ∈ resumed)
    (hc : ∀ k ∈ resumed, ∀ j ∈ W.stateQueue, ¬ Counts k j) :
    Sane opts now (Watcher.enqueue { W with
      pausedKeys := listed
      pausedLock := .sync waiter .mutating :: rest } (.resync resumed added at_) .sync) := by
  have h' : Sane opts now (W.enqueue (.resync resumed added at_) .sync) := by
    apply h.enqueue
    · rintro k ⟨⟩
    · rintro k carries ⟨⟩
    · rintro k ⟨⟩
    · rintro resumed' added' at' k ⟨⟩ hk
      exact hc k hk
  refine h'.congr rfl rfl rfl ?_
  intro k task s ht hp _
  refine (hr k task s ht hp).imp id fun hk => .inr ?_
  exact ⟨_, List.mem_append_right _ (List.mem_singleton_self _), rfl, resumed, added, at_, rfl, hk⟩

lemma Sane.listed (h : Sane opts now W) {listed : List ThreadKey}
    (hr : ∀ k task s, W.wake k = some task → task.phase = .recording s → k ∈ listed) :
    Sane opts now { W with pausedKeys := listed } :=
  h.congr rfl rfl rfl fun k task s ht hp _ => .inl (hr k task s ht hp)

/-- A wake moves on and keeps the snapshot it is on its way to count. -/
lemma Sane.rephase (h : Sane opts now W) {task : WakeTask} (ht : W.wake key = some task)
    (hw : ∀ m, ¬ Waits key task.phase m) {next : Option WakeTask}
    (ha : ∀ t s, next = some t → t.phase.attempt = some s → task.phase.attempt = some s)
    (hr : ∀ t s, next = some t → t.phase ≠ .recording s) : Sane opts now (W.setWake key next) := by
  apply h.setWake
  · apply h.free
    intro task' m ht'
    rw [ht] at ht'
    cases ht'
    exact hw m
  · exact fun t s hn hp hm => h.allowed key task s ht (ha t s hn hp) hm
  · exact fun t s hn hp => absurd hp (hr t s hn)

lemma Sane.lock (h : Sane opts now W) (job : PauseJob) : Sane opts now (W.lock job) :=
  h.congr rfl rfl rfl fun _ _ _ _ _ hk => .inl hk

/-- The write of a state is answered. -/
lemma Sane.sent (h : Sane opts now W) {m : Mutation} {owner : Owner} {at_ : ℕ} {rest : List Job}
    (hq : W.stateQueue = ⟨m, owner, .ran at_⟩ :: rest) (result : WriteResult) :
    Sane opts now { W with stateQueue := ⟨m, owner, .sent at_ result⟩ :: rest } := by
  have hmem {j : Job} (hj : j ∈ rest) : j ∈ W.stateQueue := hq ▸ List.mem_cons_of_mem _ hj
  have hhead : ⟨m, owner, .ran at_⟩ ∈ W.stateQueue := hq ▸ List.mem_cons_self
  have ha (k : ThreadKey) (h : Allowed opts now W k) :
      Allowed opts now { W with stateQueue := ⟨m, owner, .sent at_ result⟩ :: rest } k := by
    refine h.imp id ?_
    rintro ⟨j, hj, hr⟩
    rw [hq] at hj
    rcases List.mem_cons.mp hj with rfl | hj
    · cases hr.1
    · exact ⟨j, List.mem_cons_of_mem _ hj, hr⟩
  have howners := h.owners
  have horder := h.order
  have htail := h.tail
  rw [hq] at howners horder htail
  obtain ⟨hown, howners⟩ := List.pairwise_cons.mp howners
  obtain ⟨hord, horder⟩ := List.pairwise_cons.mp horder
  refine ⟨htail, List.pairwise_cons.mpr ⟨hown, howners⟩, ?_, ?_, List.pairwise_cons.mpr ⟨hord, horder⟩, h.bound,
    h.stamps, ?_, ?_, ?_, ?_⟩
  · intro j hj k ho
    rcases List.mem_cons.mp hj with rfl | hj
    · exact h.waits _ hhead k ho
    · exact h.waits j (hmem hj) k ho
  · intro j hj k carries hm
    rcases List.mem_cons.mp hj with rfl | hj
    · exact h.counts _ hhead k carries hm
    · exact h.counts j (hmem hj) k carries hm
  · intro j hj at' hp
    rcases List.mem_cons.mp hj with rfl | hj
    · cases hp
    · exact h.ran j (hmem hj) at' hp
  · exact fun k task s ht hp hm => ha k (h.allowed k task s ht hp hm)
  · intro j hj k hc hp
    rcases List.mem_cons.mp hj with rfl | hj
    · cases hp
    · exact ha k (h.counting j (hmem hj) k hc hp)
  · exact fun k task s ht hp => (h.recording k task s ht hp).imp id (ha k)

/-- Steps of a watcher that neither run a job nor take an answer in: the queue only grows, and not
by a job that resets a thread. -/
structure Local (W W' : Watcher) : Prop where
  profile : W'.profile = W.profile
  pid : W'.pid = W.pid
  state : W'.state = W.state
  etag : W'.stateEtag = W.stateEtag
  queue : ∃ jobs : List Job, W'.stateQueue = W.stateQueue ++ jobs ∧
    ∀ j ∈ jobs, j.phase = .queued ∧ ∀ resumed added at_, j.mutation ≠ .resync resumed added at_
  stopping : W.stopping = true → W'.stopping = true

variable {W' W'' : Watcher} {s : Snapshot}

lemma Local.trans (h : Local W W') (h' : Local W' W'') : Local W W'' := by
  obtain ⟨jobs, hq, hjobs⟩ := h.queue
  obtain ⟨jobs', hq', hjobs'⟩ := h'.queue
  refine ⟨h'.profile.trans h.profile, h'.pid.trans h.pid, h'.state.trans h.state, h'.etag.trans h.etag,
    ⟨jobs ++ jobs', ?_, ?_⟩, h'.stopping ∘ h.stopping⟩
  · rw [hq', hq, List.append_assoc]
  · intro j hj
    exact (List.mem_append.mp hj).elim (hjobs j) (hjobs' j)

lemma Local.of_eq (hp : W'.profile = W.profile) (hi : W'.pid = W.pid) (hs : W'.state = W.state)
    (he : W'.stateEtag = W.stateEtag) (hq : W'.stateQueue = W.stateQueue) (hst : W'.stopping = W.stopping) :
    Local W W' :=
  ⟨hp, hi, hs, he, ⟨[], by simp [hq], List.forall_mem_nil _⟩, hst.trans⟩

lemma Local.refl (W : Watcher) : Local W W := .of_eq rfl rfl rfl rfl rfl rfl

lemma Local.setWake (W : Watcher) (key : ThreadKey) (task : Option WakeTask) : Local W (W.setWake key task) :=
  .of_eq rfl rfl rfl rfl rfl rfl

lemma Local.lock (W : Watcher) (job : PauseJob) : Local W (W.lock job) := .of_eq rfl rfl rfl rfl rfl rfl

lemma Local.enqueue (W : Watcher) {m : Mutation} (o : Owner)
    (hm : ∀ resumed added at_, m ≠ .resync resumed added at_) : Local W (W.enqueue m o) :=
  ⟨rfl, rfl, rfl, rfl, ⟨[⟨m, o, .queued⟩], rfl, by simpa using hm⟩, id⟩

lemma Local.await (W : Watcher) {m : Mutation} {o : Owner} (key : ThreadKey) (task : Option WakeTask)
    (hm : ∀ resumed added at_, m ≠ .resync resumed added at_) : Local W ((W.enqueue m o).setWake key task) :=
  (Local.enqueue W o hm).trans (.setWake _ _ _)

/-- The wake neither holds a claim nor is about to take one over. -/
def WakePhase.Idle : WakePhase → Prop
  | .judging _ _ _ _ => False
  | .taking _ _ _ => False
  | .claimed _ => False
  | .counting _ => False
  | .running _ => False
  | _ => True

/-- What a wake does on its own between two requests: it becomes idle, and may queue the job that
holds its messages. -/
structure Drift (W W' : Watcher) : Prop where
  profile : W'.profile = W.profile
  pid : W'.pid = W.pid
  state : W'.state = W.state
  etag : W'.stateEtag = W.stateEtag
  committing : W'.committing = W.committing
  stopping : W'.stopping = W.stopping
  queue : ∃ jobs : List Job, W'.stateQueue = W.stateQueue ++ jobs ∧
    ∀ j ∈ jobs, j.phase = .queued ∧ ∃ key messages, j.mutation = .hold key messages ∧ j.owner = .wake key
  wake : ∀ key task, W'.wake key = some task → W.wake key = some task ∨ task.phase.Idle

lemma Drift.trans (h : Drift W W') (h' : Drift W' W'') : Drift W W'' := by
  obtain ⟨jobs, hq, hjobs⟩ := h.queue
  obtain ⟨jobs', hq', hjobs'⟩ := h'.queue
  refine ⟨h'.profile.trans h.profile, h'.pid.trans h.pid, h'.state.trans h.state, h'.etag.trans h.etag,
    h'.committing.trans h.committing, h'.stopping.trans h.stopping, ⟨jobs ++ jobs', ?_, ?_⟩, ?_⟩
  · rw [hq', hq, List.append_assoc]
  · intro j hj
    exact (List.mem_append.mp hj).elim (hjobs j) (hjobs' j)
  · intro key task ht
    rcases h'.wake key task ht with ht | hi
    · exact h.wake key task ht
    · exact .inr hi

lemma Drift.of_eq (hp : W'.profile = W.profile) (hi : W'.pid = W.pid) (hs : W'.state = W.state)
    (he : W'.stateEtag = W.stateEtag) (hc : W'.committing = W.committing) (hst : W'.stopping = W.stopping)
    (hq : W'.stateQueue = W.stateQueue) (hw : W'.wake = W.wake) : Drift W W' :=
  ⟨hp, hi, hs, he, hc, hst, ⟨[], by simp [hq], List.forall_mem_nil _⟩, fun _ _ ht => .inl (hw ▸ ht)⟩

lemma Drift.refl (W : Watcher) : Drift W W := .of_eq rfl rfl rfl rfl rfl rfl rfl rfl

lemma wake_setWake {task : Option WakeTask} {k : ThreadKey} {t : WakeTask}
    (h : (W.setWake key task).wake k = some t) : k = key ∧ task = some t ∨ k ≠ key ∧ W.wake k = some t := by
  by_cases hk : k = key
  · subst hk
    exact .inl ⟨rfl, by simpa [Watcher.setWake] using h⟩
  · exact .inr ⟨hk, by simpa [Watcher.setWake, hk] using h⟩

lemma Drift.setWake (W : Watcher) (key : ThreadKey) {task : Option WakeTask}
    (h : ∀ t, task = some t → t.phase.Idle) : Drift W (W.setWake key task) := by
  refine ⟨rfl, rfl, rfl, rfl, rfl, rfl, ⟨[], by simp [Watcher.setWake], List.forall_mem_nil _⟩, fun k t ht => ?_⟩
  rcases wake_setWake ht with ⟨-, ht⟩ | ⟨-, ht⟩
  · exact .inr (h t ht)
  · exact .inl ht

lemma Drift.drop (W : Watcher) (key : ThreadKey) : Drift W (W.setWake key none) := .setWake W key nofun

lemma Drift.move (W : Watcher) (key : ThreadKey) {at_ : ℕ} {phase : WakePhase} (h : phase.Idle) :
    Drift W (W.setWake key (some ⟨at_, phase⟩)) := by
  apply Drift.setWake
  rintro t ⟨⟩
  exact h

lemma Drift.lock (W : Watcher) (job : PauseJob) : Drift W (W.lock job) := .of_eq rfl rfl rfl rfl rfl rfl rfl rfl

lemma Drift.skip (W : Watcher) (key : ThreadKey) (at_ : ℕ) : Drift W (W.skip key at_) := by
  have h : Drift W { W with retryAt := Function.update W.retryAt key (at_ + CLAIM_SKIP_MS) } :=
    .of_eq rfl rfl rfl rfl rfl rfl rfl rfl
  exact h.trans (.drop _ key)

lemma Drift.hold (W : Watcher) (key : ThreadKey) (messages : List WakeMessage) :
    Drift W (W.enqueue (.hold key messages) (.wake key)) :=
  ⟨rfl, rfl, rfl, rfl, rfl, rfl, ⟨[_], rfl, by simp⟩, fun _ _ => .inl⟩

lemma Drift.proceed (W : Watcher) (key : ThreadKey) (at_ now : ℕ) (s : Snapshot) :
    Drift W (W.proceed key at_ now s) := by
  obtain ⟨task, heq, hp⟩ := proceed_eq W key at_ now s
  rw [heq]
  apply Drift.setWake
  intro t ht
  obtain ⟨s', hphase, -⟩ := hp t ht
  rw [hphase]
  trivial

lemma Drift.checkPaused (W : Watcher) (key : ThreadKey) (at_ now : ℕ) (s : Snapshot) :
    Drift W (W.checkPaused key at_ now s) := by
  unfold Watcher.checkPaused
  split
  · exact (Drift.hold W key _).trans (.move _ key trivial)
  · exact .proceed W key at_ now s

lemma Drift.synced (W : Watcher) (key : ThreadKey) (at_ : ℕ) : Drift W (W.synced opts now key at_) := by
  unfold Watcher.synced
  split
  · exact .drop W key
  · simp only
    split_ifs
    · exact .proceed W key at_ now _
    · exact .move W key trivial
    · exact .checkPaused W key at_ now _

lemma Drift.finishSync (opts : WatchOptions) (now : ℕ) (W : Watcher) : Drift W (W.finishSync opts now) := by
  unfold Watcher.finishSync
  split
  · rename_i waiter phase rest _
    have h : Drift W { W with pausedLock := rest } := .of_eq rfl rfl rfl rfl rfl rfl rfl rfl
    cases waiter with
    | none => exact h
    | some key =>
      simp only
      split
      · exact h.trans (.synced _ _ _)
      · exact h
  · exact .refl W

/-- After its `mutate` a wake drifts, or it starts its adapter. -/
lemma mutated_drift (now : ℕ) (W : Watcher) (key : ThreadKey) (ok : Bool) : Drift W (W.mutated now key ok).1 ∨
    ∃ at_ s, W.wake key = some ⟨at_, .counting s⟩ ∧
      W.mutated now key ok = (W.setWake key (some ⟨at_, .running s⟩), some s) := by
  unfold Watcher.mutated
  split
  · left
    cases ok
    · exact .drop W key
    · exact .checkPaused W key _ now _
  · left
    split
    · exact .proceed W key _ now _
    · exact .drop W key
  · split
    · exact .inr ⟨_, _, by assumption, rfl⟩
    · exact .inl (.move W key trivial)
  · left
    have h : Drift W { W with retryAt := Function.update W.retryAt key 0 } := .of_eq rfl rfl rfl rfl rfl rfl rfl rfl
    cases ok
    · exact .drop W key
    · exact h.trans (.drop _ key)
  · left
    cases ok
    · exact .drop W key
    · exact .move W key trivial
  · exact .inl (.refl W)

lemma Drift.local_ (h : Drift W W') : Local W W' := by
  obtain ⟨jobs, hq, hjobs⟩ := h.queue
  refine ⟨h.profile, h.pid, h.state, h.etag, ⟨jobs, hq, fun j hj => ⟨(hjobs j hj).1, ?_⟩⟩, h.stopping.trans⟩
  obtain ⟨-, k, messages, hm, -⟩ := hjobs j hj
  rintro resumed added at_ hr
  rw [hm] at hr
  cases hr

lemma Local.continue_ (opts : WatchOptions) (now : ℕ) (W : Watcher) (owner : Owner) (ok : Bool) :
    Local W (W.continue_ opts now owner ok).1 := by
  cases owner with
  | wake key =>
    rcases mutated_drift now W key ok with h | ⟨at_, s, -, heq⟩
    · exact h.local_
    · simp only [Watcher.continue_, heq]
      exact .setWake W key _
  | sync => exact (Drift.finishSync opts now W).local_
  | receipts items => cases ok <;> exact .of_eq rfl rfl rfl rfl rfl rfl
  | nobody => exact .refl W

end Steps

end TinyCloud.Courier
