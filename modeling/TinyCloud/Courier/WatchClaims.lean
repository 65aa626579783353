import TinyCloud.Courier.WatchQueue

/-! The claims of wakes over whole runs: a marker names the one watcher that may run an adapter under
it, and adapters that share a marker never run at the same time. -/

namespace TinyCloud.Courier

open TinyCloud.Runs

/-- The wake holds its claim. -/
def WakePhase.engaged : WakePhase → Option Snapshot
  | .claimed s => some s
  | .counting s => some s
  | .running s => some s
  | _ => none

section Calm

/-- Steps of a watcher that leave every wake as it is, or idle. -/
structure Calm (W W' : Watcher) : Prop where
  profile : W'.profile = W.profile
  pid : W'.pid = W.pid
  wake : ∀ key task, W'.wake key = some task → W.wake key = some task ∨ task.phase.Idle

variable {opts : WatchOptions} {now : ℕ} {W W' W'' : Watcher} {key : ThreadKey} {s : Snapshot}

lemma Calm.trans (h : Calm W W') (h' : Calm W' W'') : Calm W W'' := by
  refine ⟨h'.profile.trans h.profile, h'.pid.trans h.pid, fun key task ht => ?_⟩
  rcases h'.wake key task ht with ht | hi
  · exact h.wake key task ht
  · exact .inr hi

lemma Calm.of_eq (hp : W'.profile = W.profile) (hi : W'.pid = W.pid) (hw : W'.wake = W.wake) : Calm W W' :=
  ⟨hp, hi, fun _ _ ht => .inl (hw ▸ ht)⟩

lemma Calm.refl (W : Watcher) : Calm W W := .of_eq rfl rfl rfl

lemma Calm.setWake (W : Watcher) (key : ThreadKey) {task : Option WakeTask}
    (h : ∀ t, task = some t → t.phase.Idle) : Calm W (W.setWake key task) := by
  refine ⟨rfl, rfl, fun k t ht => ?_⟩
  rcases wake_setWake ht with ⟨-, ht⟩ | ⟨-, ht⟩
  · exact .inr (h t ht)
  · exact .inl ht

lemma Calm.drop (W : Watcher) (key : ThreadKey) : Calm W (W.setWake key none) := .setWake W key nofun

lemma Calm.move (W : Watcher) (key : ThreadKey) {at_ : ℕ} {phase : WakePhase} (h : phase.Idle) :
    Calm W (W.setWake key (some ⟨at_, phase⟩)) := by
  apply Calm.setWake
  rintro t ⟨⟩
  exact h

lemma Calm.enqueue (W : Watcher) (m : Mutation) (o : Owner) : Calm W (W.enqueue m o) := .of_eq rfl rfl rfl

lemma Calm.lock (W : Watcher) (job : PauseJob) : Calm W (W.lock job) := .of_eq rfl rfl rfl

lemma Drift.calm (h : Drift W W') : Calm W W' := ⟨h.profile, h.pid, h.wake⟩

lemma Calm.continue_ (W : Watcher) {owner : Owner} {ok : Bool} (h : (W.continue_ opts now owner ok).2 = none) :
    Calm W (W.continue_ opts now owner ok).1 := by
  cases owner with
  | wake key =>
    rcases mutated_drift now W key ok with hd | ⟨at_, s, -, heq⟩
    · exact hd.calm
    · simp [Watcher.continue_, heq] at h
  | sync => exact (Drift.finishSync opts now W).calm
  | receipts items => cases ok <;> exact .of_eq rfl rfl rfl
  | nobody => exact .refl W

lemma continue_running {owner : Owner} {ok : Bool} (h : (W.continue_ opts now owner ok).2 = some (key, s)) :
    ∃ at_, W.wake key = some ⟨at_, .counting s⟩ ∧
      (W.continue_ opts now owner ok).1 = W.setWake key (some ⟨at_, .running s⟩) := by
  obtain ⟨rfl, rfl, hst, at_, ht⟩ := continue_started h
  refine ⟨at_, ht, ?_⟩
  simp [Watcher.continue_, Watcher.mutated, ht, hst]

end Calm

section CalmSteps

variable {opts : WatchOptions} {b b' : WatchWorld} {w : ℕ} {W W' : Watcher} {key : ThreadKey}

/-- A step of a live watcher, or its end, that leaves every wake as it is, or idle, and every marker. -/
def CalmStep (b b' : WatchWorld) : Prop :=
  ∃ w W R, b.runs w = some W ∧ (∀ W', R = some W' → Calm W W') ∧ b'.runs = Function.update b.runs w R ∧
    b'.store.claims = b.store.claims ∧ b.store.etags ≤ b'.store.etags ∧ b'.nextRun = b.nextRun ∧ b'.now = b.now

lemma CalmStep.of (hW : b.runs w = some W) {R : Option Watcher} {store : WatchStore} {log : List WatchEvent}
    (hR : ∀ W', R = some W' → Calm W W') (hc : store.claims = b.store.claims) (he : b.store.etags ≤ store.etags) :
    CalmStep b { b with
      store
      runs := Function.update b.runs w R
      log } :=
  ⟨w, W, R, hW, hR, rfl, hc, he, rfl, rfl⟩

lemma CalmStep.setRun (hW : b.runs w = some W) (hc : Calm W W') : CalmStep b (b.setRun w (some W')) := by
  refine .of hW ?_ rfl le_rfl
  rintro _ ⟨⟩
  exact hc

lemma CalmStep.move (hW : b.runs w = some W) {next : Option WakeTask} (hi : ∀ t, next = some t → t.phase.Idle) :
    CalmStep b (b.setRun w (some (W.setWake key next))) :=
  .setRun hW (.setWake W key hi)

lemma onRun_calm {f : Watcher → Option Watcher}
    (hf : ∀ W W', f W = some W' → Calm W W') (hs : b.onRun w f = some b') : CalmStep b b' := by
  obtain ⟨W, W', hW, he, rfl⟩ := onRun_eq_some hs
  exact CalmStep.setRun hW (hf W W' he)

lemma addMarker_claims (store : WatchStore) (key : ThreadKey) : (store.addMarker key).claims = store.claims := by
  unfold WatchStore.addMarker
  split <;> rfl

lemma tickOne_calm {force : Bool} (hs : b.tickOne opts w key force = some b') :
    CalmStep b b' := by
  refine onRun_calm (fun W W' hf => ?_) hs
  split at hf
  · cases hf
  · rw [Option.ite_none_right_eq_some] at hf
    cases hf.2
    apply Calm.trans ?_ (.lock _ _)
    exact .move W key trivial

lemma listMarkers_calm {fails : Bool} (hs : b.listMarkers opts w fails = some b') :
    CalmStep b b' := by
  refine onRun_calm (fun W W' hf => ?_) hs
  split at hf
  · split at hf
    · cases hf
      exact (Drift.finishSync opts b.now W).calm
    · cases hf
      exact .of_eq rfl rfl rfl
  · cases hf

lemma applyListing_calm (hs : b.applyListing opts w = some b') :
    CalmStep b b' := by
  obtain ⟨W, hW, hf⟩ := Option.bind_eq_some_iff.mp hs
  split at hf
  · rename_i waiter listed rest hl
    simp only at hf
    split at hf
    · cases hf
      have hlisted : Calm W { W with pausedKeys := listed } := .of_eq rfl rfl rfl
      exact CalmStep.setRun hW (hlisted.trans (Drift.finishSync opts b.now _).calm)
    · cases hf
      refine CalmStep.of hW ?_ rfl le_rfl
      rintro _ ⟨⟩
      exact .of_eq rfl rfl rfl
  · cases hf

lemma noticeId_calm {fails : Bool} (hs : b.noticeId w key fails = some b') :
    CalmStep b b' := by
  obtain ⟨W, task, hW, ht, hf⟩ := onWake_eq_some hs
  split at hf
  · split at hf
    · cases hf
      exact CalmStep.move hW nofun
    · rename_i s _ _
      cases hf
      have hmove : Calm W (W.setWake key (some ⟨task.at_, .pausing s⟩)) := .move W key trivial
      exact CalmStep.setRun hW (hmove.trans (.lock _ _))
  · cases hf

lemma writeMarker_calm {answer : PutAnswer} (hs : b.writeMarker w answer = some b') :
    CalmStep b b' := by
  obtain ⟨W, hW, hf⟩ := Option.bind_eq_some_iff.mp hs
  split at hf
  · rename_i k rest hl
    have hquiet (created : Option Bool) (store : WatchStore) (hc : store.claims = b.store.claims)
        (he : b.store.etags ≤ store.etags) : CalmStep b ({ b with store }.setRun w
          (some { W with pausedLock := .wrote k created :: rest })) := by
      refine CalmStep.of hW ?_ hc he
      rintro _ ⟨⟩
      exact .of_eq rfl rfl rfl
    cases answer with
    | answered shown =>
      cases hf
      exact hquiet _ _ (addMarker_claims _ k) (addMarker_etags _ k).ge
    | failed lands =>
      cases hf
      cases lands with
      | true => exact hquiet _ _ (addMarker_claims _ k) (addMarker_etags _ k).ge
      | false => exact hquiet _ _ rfl le_rfl
  · cases hf

lemma wroteMarker_calm (hs : b.wroteMarker w = some b') : CalmStep b b' := by
  refine onRun_calm (fun W W' hf => ?_) hs
  split at hf
  · rename_i k created rest hl
    have hstart (keys : List ThreadKey) : Calm W { W with
        pausedKeys := keys
        pausedLock := rest } := .of_eq rfl rfl rfl
    simp only at hf
    split at hf
    · split at hf
      · cases hf
        exact (hstart _).trans ((Calm.enqueue _ _ _).trans (.move _ k trivial))
      · cases hf
        exact (hstart _).trans (Drift.checkPaused _ k _ _ _).calm
    · cases hf
      exact (hstart _).trans (.drop _ k)
    · cases hf
      exact hstart _
  · cases hf

lemma enqueue_calm {m : Mutation} {o : Owner} (hs : b.enqueue w m o = some b') :
    CalmStep b b' := by
  refine onRun_calm ?_ hs
  rintro W _ ⟨⟩
  exact .enqueue W m o

lemma runJob_calm (hs : b.runJob w = some b') : CalmStep b b' := by
  obtain ⟨W, hW, hf⟩ := Option.bind_eq_some_iff.mp hs
  split at hf
  · cases hf
    refine CalmStep.of hW ?_ rfl le_rfl
    rintro _ ⟨⟩
    exact .of_eq rfl rfl rfl
  · cases hf

lemma fetchEtag_calm {fails shown : Bool}
    (hs : b.fetchEtag w fails shown = some b') : CalmStep b b' := by
  refine onRun_calm (fun W W' hf => ?_) hs
  split at hf
  · split at hf
    · cases hf
      exact .of_eq rfl rfl rfl
    · cases hf
      exact .of_eq rfl rfl rfl
  · cases hf

lemma putState_calm {answer : PutAnswer} (hs : b.putState w answer = some b') :
    CalmStep b b' := by
  obtain ⟨W, hW, hf⟩ := Option.bind_eq_some_iff.mp hs
  split at hf
  · rename_i m owner at_ rest hq
    have hquiet (result : WriteResult) (store : WatchStore) (log : List WatchEvent)
        (hc : store.claims = b.store.claims) (he : b.store.etags ≤ store.etags) : CalmStep b { b with
          store
          runs := Function.update b.runs w
            (some { W with stateQueue := ⟨m, owner, .sent at_ result⟩ :: rest })
          log } := by
      refine CalmStep.of hW ?_ hc he
      rintro _ ⟨⟩
      exact .of_eq rfl rfl rfl
    simp only at hf
    split at hf
    · cases hf
    · cases answer with
      | answered shown =>
        simp only at hf
        split at hf
        · cases hf
          exact hquiet _ _ _ rfl (Nat.le_succ _)
        · cases hf
          exact hquiet _ _ _ rfl le_rfl
      | failed lands =>
        cases hf
        split
        · exact hquiet _ _ _ rfl (Nat.le_succ _)
        · exact hquiet _ _ _ rfl le_rfl
  · cases hf

lemma commit_calm {fails lands : Bool} (hs : b.commit w fails lands = some b') :
    CalmStep b b' := by
  obtain ⟨W, hW, hf⟩ := Option.bind_eq_some_iff.mp hs
  split at hf
  · cases hf
    refine CalmStep.of hW ?_ ?_ ?_
    · rintro _ ⟨⟩
      exact .of_eq rfl rfl rfl
    · split <;> rfl
    · split <;> rfl
  · cases hf

lemma woken_calm {ok : Bool} (hs : b.woken w key ok = some b') :
    CalmStep b b' := by
  obtain ⟨W, task, hW, ht, hf⟩ := onWake_eq_some hs
  split at hf
  · split at hf
    · cases hf
      refine CalmStep.of hW ?_ rfl le_rfl
      rintro _ ⟨⟩
      exact (Calm.enqueue W _ _).trans (.move _ key trivial)
    · cases hf
      exact CalmStep.setRun hW ((Calm.enqueue W _ _).trans (.move _ key trivial))
  · cases hf

lemma releaseRead_calm {fails : Bool} (hs : b.releaseRead w key fails = some b') :
    CalmStep b b' := by
  obtain ⟨W, task, hW, ht, hf⟩ := onWake_eq_some hs
  split at hf
  · split at hf
    · cases hf
      exact CalmStep.setRun hW (.move W key trivial)
    · cases hf
      exact CalmStep.move hW nofun
  · cases hf

end CalmSteps

section Claims

def NoneShared (s s' : Snapshot) : Prop :=
  (∀ id ∈ s.woken, id ∉ s'.woken) ∧ ∀ id ∈ s.approvedIds, id ∉ s'.approvedIds

lemma NoneShared.symm {s s' : Snapshot} (h : NoneShared s s') : NoneShared s' s :=
  ⟨fun id hs hs' => h.1 id hs' hs, fun id hs hs' => h.2 id hs' hs⟩

/-- Watchers of one profile on one machine: live watchers have pids of their own, and a process that
lives is seen to live. -/
def OneMachine (profile : ℕ) (b : WatchWorld) : WatchAction → Prop
  | .start profile' pid _ => profile' = profile ∧ ∀ w < b.nextRun, ∀ W, b.runs w = some W → W.pid ≠ pid
  | .judge w key alive => ∀ W at_ s stamp held etag, b.runs w = some W →
    W.wake key = some ⟨at_, .judging s stamp held etag⟩ →
      (∃ w' W', b.runs w' = some W' ∧ W'.pid = held.pid) → alive = true
  | _ => True

/-- The wake of a thread holds a claim on the marker. -/
def Engaged (b : WatchWorld) (w : ℕ) (claim : ClaimKey) : Prop :=
  ∃ W task s, b.runs w = some W ∧ W.wake claim.1 = some task ∧ task.phase.engaged = some s ∧ s.claimId = claim.2

/-- A claim is held for less than its lease, a marker is deleted when nobody else holds it, and an
adapter that shares an id with one that runs has its thread and its first id too. -/
def Undisturbed (b : WatchWorld) : WatchAction → Prop
  | .clock now => ∀ w claim c e, Engaged b w claim → b.store.claims claim = some (c, e) →
    now < c.at_ + OWN_CLAIM_LEASE_MS
  | .claim w key _ => ∀ W at_ s stamp attempt, b.runs w = some W →
    W.wake key = some ⟨at_, .claiming s stamp attempt⟩ → b.now < stamp + OWN_CLAIM_LEASE_MS
  | .judge w key _ => ∀ W at_ s stamp held etag, b.runs w = some W →
    W.wake key = some ⟨at_, .judging s stamp held etag⟩ → held.run = w →
      (∃ e, b.store.claims (key, s.claimId) = some (held, e)) ∧ b.now < held.at_ + OWN_CLAIM_LEASE_MS
  | .takeOver w key _ => ∀ W at_ s stamp e, b.runs w = some W →
    W.wake key = some ⟨at_, .taking s stamp e⟩ → b.now < stamp + OWN_CLAIM_LEASE_MS
  | .releaseDelete w key _ => ∀ W at_ s, b.runs w = some W → W.wake key = some ⟨at_, .deleting s⟩ →
    ∀ w', ¬ Engaged b w' (key, s.claimId)
  | .pruneClaim _ claim _ => ∀ w, ¬ Engaged b w claim
  | .acknowledge w => ∀ W m key at_ etag rest at' s, b.runs w = some W →
    W.stateQueue = ⟨m, .wake key, .sent at_ (.ok etag)⟩ :: rest → W.wake key = some ⟨at', .counting s⟩ →
      ∀ w' W' key' at' s', b.runs w' = some W' → W'.wake key' = some ⟨at', .running s'⟩ →
        NoneShared s s' ∨ key' = key ∧ s'.claimId = s.claimId
  | _ => True

/-- What holds of a live watcher: the claims it holds name it, and a marker it is about to take over
was left by a watcher that is gone or late. -/
structure RunClaims (profile : ℕ) (b : WatchWorld) (w : ℕ) (W : Watcher) : Prop where
  born : w < b.nextRun
  profile : W.profile = profile
  engaged : ∀ key task s, W.wake key = some task → task.phase.engaged = some s →
    ∃ c e, b.store.claims (key, s.claimId) = some (c, e) ∧ c.run = w ∧ b.now < c.at_ + OWN_CLAIM_LEASE_MS
  judging : ∀ key at_ s stamp held e, W.wake key = some ⟨at_, .judging s stamp held (some e)⟩ →
    e ≤ b.store.etags ∧ ∀ c, b.store.claims (key, s.claimId) = some (c, e) → c = held
  taking : ∀ key at_ s stamp e, W.wake key = some ⟨at_, .taking s stamp e⟩ →
    e ≤ b.store.etags ∧ ∀ c, b.store.claims (key, s.claimId) = some (c, e) →
      b.runs c.run = none ∨ c.at_ + OWN_CLAIM_LEASE_MS ≤ b.now

structure ClaimsKept (profile : ℕ) (b : WatchWorld) : Prop where
  runs : ∀ w W, b.runs w = some W → RunClaims profile b w W
  pids : ∀ w w' W W', b.runs w = some W → b.runs w' = some W' → W.pid = W'.pid → w = w'
  etags : ∀ claim c e, b.store.claims claim = some (c, e) → e ≤ b.store.etags
  profiles : ∀ claim c e, b.store.claims claim = some (c, e) → c.profile = profile
  born : ∀ claim c e, b.store.claims claim = some (c, e) → c.run < b.nextRun
  holders : ∀ claim c e W, b.store.claims claim = some (c, e) → b.runs c.run = some W → W.pid = c.pid
  apart : ∀ w w' W W' key key' at_ at' s s', b.runs w = some W → b.runs w' = some W' →
    W.wake key = some ⟨at_, .running s⟩ → W'.wake key' = some ⟨at', .running s'⟩ →
      w = w' ∧ key = key' ∨ NoneShared s s'

variable {profile : ℕ} {b b' : WatchWorld} {w : ℕ} {W W' : Watcher} {key : ThreadKey}

/-- A watcher that takes no part in a step: markers only get new tags, and the claims that are held
stay as they are. -/
lemma RunClaims.frame (h : RunClaims profile b w W) (hW : b.runs w = some W) (hnow : b'.now = b.now)
    (hnext : b.nextRun ≤ b'.nextRun) (hgone : ∀ r < b.nextRun, b.runs r = none → b'.runs r = none)
    (hborn : ∀ claim c e, b.store.claims claim = some (c, e) → c.run < b.nextRun)
    (he : b.store.etags ≤ b'.store.etags)
    (hc : ∀ claim c e, b'.store.claims claim = some (c, e) → e ≤ b.store.etags →
      b.store.claims claim = some (c, e))
    (heng : ∀ claim, Engaged b w claim → b'.store.claims claim = b.store.claims claim) :
    RunClaims profile b' w W := by
  refine ⟨h.born.trans_le hnext, h.profile, ?_, ?_, ?_⟩
  · intro key task s ht hs
    rw [heng (key, s.claimId) ⟨W, task, s, hW, ht, hs, rfl⟩, hnow]
    exact h.engaged key task s ht hs
  · intro key at_ s stamp held e ht
    obtain ⟨hle, hheld⟩ := h.judging key at_ s stamp held e ht
    exact ⟨hle.trans he, fun c hcl => hheld c (hc _ c e hcl hle)⟩
  · intro key at_ s stamp e ht
    obtain ⟨hle, hleft⟩ := h.taking key at_ s stamp e ht
    refine ⟨hle.trans he, fun c hcl => ?_⟩
    have hcl := hc _ c e hcl hle
    rw [hnow]
    exact (hleft c hcl).imp (hgone c.run (hborn _ c e hcl)) id

lemma RunClaims.calm (h : RunClaims profile b w W) (hc : Calm W W') : RunClaims profile b w W' := by
  refine ⟨h.born, hc.profile.trans h.profile, ?_, ?_, ?_⟩
  · intro key task s ht hs
    rcases hc.wake key task ht with ht | hi
    · exact h.engaged key task s ht hs
    · cases hp : task.phase <;> simp_all [WakePhase.Idle, WakePhase.engaged]
  · intro key at_ s stamp held e ht
    rcases hc.wake key _ ht with ht | hi
    · exact h.judging key at_ s stamp held e ht
    · exact absurd hi id
  · intro key at_ s stamp e ht
    rcases hc.wake key _ ht with ht | hi
    · exact h.taking key at_ s stamp e ht
    · exact absurd hi id

lemma ClaimsKept.engaged_marker (h : ClaimsKept profile b) {claim : ClaimKey} (he : Engaged b w claim) :
    ∃ c e, b.store.claims claim = some (c, e) ∧ c.run = w ∧ b.now < c.at_ + OWN_CLAIM_LEASE_MS := by
  obtain ⟨W, task, s, hW, ht, hs, hid⟩ := he
  obtain ⟨key, id⟩ := claim
  subst hid
  exact (h.runs w W hW).engaged key task s ht hs

/-- A step of a live watcher. It starts at most one adapter, and that one shares nothing with those
that run; a marker it writes is its own and has a new tag. -/
lemma ClaimsKept.step (h : ClaimsKept profile b) (hW : b.runs w = some W) {R : Option Watcher} {store : WatchStore}
    {log : List WatchEvent} (started : Option (ThreadKey × Snapshot)) (hpid : ∀ W', R = some W' → W'.pid = W.pid)
    (hrun : ∀ W' key at_ s, R = some W' → W'.wake key = some ⟨at_, .running s⟩ →
      (∃ at', W.wake key = some ⟨at', .running s⟩) ∨ started = some (key, s))
    (hnew : ∀ k s, started = some (k, s) → ∀ w' X key at_ s', b.runs w' = some X →
      X.wake key = some ⟨at_, .running s'⟩ → NoneShared s s')
    (hR : ∀ W', R = some W' → RunClaims profile { b with
      store
      runs := Function.update b.runs w R
      log } w W')
    (he : b.store.etags ≤ store.etags)
    (hc : ∀ claim c e, store.claims claim = some (c, e) → b.store.claims claim = some (c, e) ∨
      e = store.etags ∧ b.store.etags < e ∧ ∃ stamp, c = WatchWorld.myClaim w W stamp)
    (heng : ∀ w' claim, w' ≠ w → Engaged b w' claim → store.claims claim = b.store.claims claim) :
    ClaimsKept profile { b with
      store
      runs := Function.update b.runs w R
      log } := by
  have hcases {w' : ℕ} {X : Watcher} (hX : Function.update b.runs w R w' = some X) :
      w' = w ∧ R = some X ∨ w' ≠ w ∧ b.runs w' = some X := by
    by_cases hk : w' = w
    · subst hk
      exact .inl ⟨rfl, by simpa using hX⟩
    · exact .inr ⟨hk, by simpa [hk] using hX⟩
  have hmine := (h.runs w W hW).profile
  refine ⟨?_, ?_, ?_, ?_, ?_, ?_, ?_⟩
  · intro w' X hX
    rcases hcases hX with ⟨rfl, hX'⟩ | ⟨hne, hX'⟩
    · exact hR X hX'
    · refine (h.runs w' X hX').frame hX' rfl le_rfl ?_ h.born he ?_ (fun claim => heng w' claim hne)
      · intro r _ hr
        have : r ≠ w := by
          rintro rfl
          rw [hW] at hr
          cases hr
        simpa [this] using hr
      · intro claim c e hcl hle
        refine (hc claim c e hcl).resolve_right ?_
        rintro ⟨-, hlt, -⟩
        omega
  · intro w₁ w₂ X₁ X₂ h₁ h₂ hp
    rcases hcases h₁ with ⟨hr₁, h₁⟩ | ⟨-, h₁⟩ <;> rcases hcases h₂ with ⟨hr₂, h₂⟩ | ⟨-, h₂⟩
    · exact hr₁.trans hr₂.symm
    · exact hr₁.trans (h.pids _ _ _ _ hW h₂ ((hpid _ h₁).symm.trans hp))
    · exact (h.pids _ _ _ _ h₁ hW (hp.trans (hpid _ h₂))).trans hr₂.symm
    · exact h.pids _ _ _ _ h₁ h₂ hp
  · intro claim c e hcl
    rcases hc claim c e hcl with hcl | ⟨rfl, -⟩
    · exact (h.etags claim c e hcl).trans he
    · exact le_rfl
  · intro claim c e hcl
    rcases hc claim c e hcl with hcl | ⟨-, -, stamp, rfl⟩
    · exact h.profiles claim c e hcl
    · exact hmine
  · intro claim c e hcl
    rcases hc claim c e hcl with hcl | ⟨-, -, stamp, rfl⟩
    · exact h.born claim c e hcl
    · exact (h.runs w W hW).born
  · intro claim c e X hcl hX
    rcases hc claim c e hcl with hcl | ⟨-, -, stamp, rfl⟩
    · rcases hcases hX with ⟨hr, hX⟩ | ⟨-, hX⟩
      · exact (hpid X hX).trans (h.holders claim c e W hcl (hr ▸ hW))
      · exact h.holders claim c e X hcl hX
    · rcases hcases hX with ⟨-, hX⟩ | ⟨hne, -⟩
      · exact hpid X hX
      · exact absurd rfl hne
  · intro w₁ w₂ X₁ X₂ k₁ k₂ a₁ a₂ s₁ s₂ h₁ h₂ ht₁ ht₂
    have hold {w' : ℕ} {X : Watcher} {k : ThreadKey} {a : ℕ} {s : Snapshot}
        (hX : Function.update b.runs w R w' = some X) (ht : X.wake k = some ⟨a, .running s⟩) :
        (∃ Y a', b.runs w' = some Y ∧ Y.wake k = some ⟨a', .running s⟩) ∨ w' = w ∧ started = some (k, s) := by
      rcases hcases hX with ⟨hr, hX⟩ | ⟨-, hX⟩
      · refine (hrun X k a s hX ht).imp ?_ fun hs => ⟨hr, hs⟩
        rintro ⟨a', ht⟩
        exact ⟨W, a', hr ▸ hW, ht⟩
      · exact .inl ⟨X, a, hX, ht⟩
    rcases hold h₁ ht₁ with ⟨Y₁, a₁', h₁, ht₁⟩ | ⟨hr₁, hs₁⟩ <;>
      rcases hold h₂ ht₂ with ⟨Y₂, a₂', h₂, ht₂⟩ | ⟨hr₂, hs₂⟩
    · exact h.apart _ _ _ _ _ _ _ _ _ _ h₁ h₂ ht₁ ht₂
    · exact .inr (hnew _ _ hs₂ _ _ _ _ _ h₁ ht₁).symm
    · exact .inr (hnew _ _ hs₁ _ _ _ _ _ h₂ ht₂)
    · rw [hs₁] at hs₂
      cases hs₂
      exact .inl ⟨hr₁.trans hr₂.symm, rfl⟩

/-- A calm step of a live watcher, or its end; the markers stay as they are. -/
lemma ClaimsKept.quiet (h : ClaimsKept profile b) (hW : b.runs w = some W) {R : Option Watcher}
    {store : WatchStore} {log : List WatchEvent} (hR : ∀ W', R = some W' → Calm W W')
    (hc : store.claims = b.store.claims) (he : b.store.etags ≤ store.etags) :
    ClaimsKept profile { b with
      store
      runs := Function.update b.runs w R
      log } := by
  apply h.step hW none (fun W' hW' => (hR W' hW').pid) ?_ nofun ?_ he (fun claim c e hcl => .inl (hc ▸ hcl))
    (fun _ claim _ _ => congrFun hc claim)
  · intro W' key at_ s hW' ht
    exact .inl ⟨at_, ((hR W' hW').wake key _ ht).resolve_right id⟩
  · intro W' hW'
    have hrun := h.runs w W hW
    refine RunClaims.calm (hrun.frame hW rfl le_rfl ?_ h.born he ?_ fun claim _ => congrFun hc claim) (hR W' hW')
    · intro r _ hr
      have : r ≠ w := by
        rintro rfl
        rw [hW] at hr
        cases hr
      simpa [this] using hr
    · exact fun claim c e hcl _ => hc ▸ hcl

lemma ClaimsKept.calm (h : ClaimsKept profile b) (hW : b.runs w = some W) (hc : Calm W W') :
    ClaimsKept profile (b.setRun w (some W')) := by
  apply h.quiet hW ?_ rfl le_rfl
  rintro _ ⟨⟩
  exact hc

lemma ClaimsKept.calmStep (h : ClaimsKept profile b) (hs : CalmStep b b') : ClaimsKept profile b' := by
  obtain ⟨w, W, R, hW, hR, hruns, hc, he, hnext, hnow⟩ := hs
  obtain ⟨store, runs, nextRun, now, log⟩ := b'
  subst hruns hnext hnow
  exact h.quiet hW hR hc he

lemma ClaimsKept.crash (h : ClaimsKept profile b) : ClaimsKept profile (b.setRun w none) := by
  cases hW : b.runs w with
  | none =>
    have : Function.update b.runs w none = b.runs := by rw [← hW, Function.update_eq_self]
    unfold WatchWorld.setRun
    rw [this]
    exact h
  | some W => exact h.quiet hW nofun rfl le_rfl

lemma ClaimsKept.congr (h : ClaimsKept profile b) (hr : b'.runs = b.runs) (hn : b'.nextRun = b.nextRun)
    (hnow : b'.now = b.now) (hc : b'.store.claims = b.store.claims) (he : b'.store.etags = b.store.etags) :
    ClaimsKept profile b' := by
  refine ⟨?_, hr ▸ h.pids, ?_, hc ▸ h.profiles, ?_, hc ▸ hr ▸ h.holders, hr ▸ h.apart⟩
  · intro w W hW
    have hrun := h.runs w W (hr ▸ hW)
    exact ⟨hn ▸ hrun.born, hrun.profile, hc ▸ hnow ▸ hrun.engaged, hc ▸ he ▸ hrun.judging,
      hc ▸ he ▸ hr ▸ hnow ▸ hrun.taking⟩
  · exact hc ▸ he ▸ h.etags
  · exact hc ▸ hn ▸ h.born

lemma RunClaims.setWake (h : RunClaims profile b w W) {next : Option WakeTask}
    (heng : ∀ t s, next = some t → t.phase.engaged = some s → ∃ c e,
      b.store.claims (key, s.claimId) = some (c, e) ∧ c.run = w ∧ b.now < c.at_ + OWN_CLAIM_LEASE_MS)
    (hjudging : ∀ at_ s stamp held e, next = some ⟨at_, .judging s stamp held (some e)⟩ →
      e ≤ b.store.etags ∧ ∀ c, b.store.claims (key, s.claimId) = some (c, e) → c = held)
    (htaking : ∀ at_ s stamp e, next = some ⟨at_, .taking s stamp e⟩ →
      e ≤ b.store.etags ∧ ∀ c, b.store.claims (key, s.claimId) = some (c, e) →
        b.runs c.run = none ∨ c.at_ + OWN_CLAIM_LEASE_MS ≤ b.now) :
    RunClaims profile b w (W.setWake key next) := by
  refine ⟨h.born, h.profile, ?_, ?_, ?_⟩
  · intro k task s ht hs
    rcases wake_setWake ht with ⟨rfl, ht'⟩ | ⟨-, ht'⟩
    · exact heng task s ht' hs
    · exact h.engaged k task s ht' hs
  · intro k at_ s stamp held e ht
    rcases wake_setWake ht with ⟨rfl, ht'⟩ | ⟨-, ht'⟩
    · exact hjudging at_ s stamp held e ht'
    · exact h.judging k at_ s stamp held e ht'
  · intro k at_ s stamp e ht
    rcases wake_setWake ht with ⟨rfl, ht'⟩ | ⟨-, ht'⟩
    · exact htaking at_ s stamp e ht'
    · exact h.taking k at_ s stamp e ht'

/-- The wake of a thread moves on; claims that are held stay, and what its new phase relies on holds. -/
lemma ClaimsKept.rephase (h : ClaimsKept profile b) (hW : b.runs w = some W) (hcalm : Calm W W')
    {next : Option WakeTask} {store : WatchStore} (hnr : ∀ t s, next = some t → t.phase ≠ .running s)
    (he : b.store.etags ≤ store.etags)
    (hc : ∀ claim c e, store.claims claim = some (c, e) → b.store.claims claim = some (c, e) ∨
      e = store.etags ∧ b.store.etags < e ∧ ∃ stamp, c = WatchWorld.myClaim w W stamp)
    (hkeep : ∀ w' claim, Engaged b w' claim → store.claims claim = b.store.claims claim)
    (heng : ∀ t s, next = some t → t.phase.engaged = some s → ∃ c e,
      store.claims (key, s.claimId) = some (c, e) ∧ c.run = w ∧ b.now < c.at_ + OWN_CLAIM_LEASE_MS)
    (hjudging : ∀ at_ s stamp held e, next = some ⟨at_, .judging s stamp held (some e)⟩ →
      e ≤ store.etags ∧ ∀ c, store.claims (key, s.claimId) = some (c, e) → c = held)
    (htaking : ∀ at_ s stamp e, next = some ⟨at_, .taking s stamp e⟩ →
      e ≤ store.etags ∧ ∀ c, store.claims (key, s.claimId) = some (c, e) →
        b.runs c.run = none ∨ c.at_ + OWN_CLAIM_LEASE_MS ≤ b.now) :
    ClaimsKept profile ({ b with store }.setRun w (some (W'.setWake key next))) := by
  have hgone (r : ℕ) (hr : b.runs r = none) (R : Option Watcher) : Function.update b.runs w R r = none := by
    have : r ≠ w := by
      rintro rfl
      rw [hW] at hr
      cases hr
    simpa [this] using hr
  apply h.step hW none ?_ ?_ nofun ?_ he hc fun w' claim _ => hkeep w' claim
  · rintro _ ⟨⟩
    exact hcalm.pid
  · rintro _ k at_ s ⟨⟩ ht
    rcases wake_setWake ht with ⟨-, ht⟩ | ⟨-, ht⟩
    · exact absurd rfl (hnr _ s ht)
    · exact .inl ⟨at_, (hcalm.wake k _ ht).resolve_right id⟩
  · rintro _ ⟨⟩
    apply RunClaims.setWake
    · apply RunClaims.calm ?_ hcalm
      refine (h.runs w W hW).frame hW rfl le_rfl (fun r _ hr => hgone r hr _) h.born he ?_ (hkeep w)
      intro claim c e hcl hle
      refine (hc claim c e hcl).resolve_right ?_
      rintro ⟨-, hlt, -⟩
      omega
    · exact heng
    · exact hjudging
    · intro at_ s stamp e ht
      obtain ⟨hle, hleft⟩ := htaking at_ s stamp e ht
      exact ⟨hle, fun c hcl => (hleft c hcl).imp (fun hnone => hgone c.run hnone _) id⟩

/-- The marker of a wake is deleted, or put with a tag of its own. -/
lemma claims_update {store : WatchStore} {claim : ClaimKey} {v : Option (Claim × ℕ)}
    (hfree : ∀ w', ¬ Engaged b w' claim) (hc : store.claims = Function.update b.store.claims claim v) (w' : ℕ)
    (claim' : ClaimKey) (he : Engaged b w' claim') : store.claims claim' = b.store.claims claim' := by
  have : claim' ≠ claim := by
    rintro rfl
    exact hfree w' he
  rw [hc, Function.update_of_ne this]

lemma put_claim {claim : ClaimKey} {stamp : ℕ} (claim' : ClaimKey) (c : Claim) (e : ℕ)
    (h : (b.store.putClaim claim (WatchWorld.myClaim w W stamp)).claims claim' = some (c, e)) :
    b.store.claims claim' = some (c, e) ∨
      e = (b.store.putClaim claim (WatchWorld.myClaim w W stamp)).etags ∧ b.store.etags < e ∧
        ∃ stamp, c = WatchWorld.myClaim w W stamp := by
  simp only [WatchStore.putClaim, Function.update_apply] at h
  split at h
  · cases h
    exact .inr ⟨rfl, Nat.lt_succ_self _, stamp, rfl⟩
  · exact .inl h

lemma delete_claim {claim : ClaimKey} (claim' : ClaimKey) (c : Claim) (e : ℕ)
    (h : (b.store.deleteClaim claim).claims claim' = some (c, e)) : b.store.claims claim' = some (c, e) := by
  simp only [WatchStore.deleteClaim, Function.update_apply] at h
  split at h
  · cases h
  · exact h

/-- A wake puts its marker: it holds the claim if it learns of it, and ends if not. -/
lemma ClaimsKept.put (h : ClaimsKept profile b) (hW : b.runs w = some W) {s : Snapshot} {stamp : ℕ}
    (hfree : ∀ w', ¬ Engaged b w' (key, s.claimId)) (hlease : b.now < stamp + OWN_CLAIM_LEASE_MS)
    {next : Option WakeTask} (hnext : ∀ t, next = some t → t.phase = .claimed s) :
    ClaimsKept profile ({ b with store := b.store.putClaim (key, s.claimId) (WatchWorld.myClaim w W stamp) }.setRun w
      (some (W.setWake key next))) := by
  apply h.rephase hW (.refl W) ?_ (Nat.le_succ _) put_claim (claims_update hfree rfl)
  · intro t s' ht hs
    rw [hnext t ht] at hs
    cases hs
    exact ⟨WatchWorld.myClaim w W stamp, b.store.etags + 1, Function.update_self .., rfl, hlease⟩
  · intro at_ s' stamp' held e ht
    cases hnext _ ht
  · intro at_ s' stamp' e ht
    cases hnext _ ht
  · intro t s' ht hs
    rw [hnext t ht] at hs
    cases hs

/-- The wake of a thread moves on, or ends, and no marker changes. -/
lemma ClaimsKept.move (h : ClaimsKept profile b) (hW : b.runs w = some W) {next : Option WakeTask}
    (hi : ∀ t, next = some t → t.phase.Idle) : ClaimsKept profile (b.setRun w (some (W.setWake key next))) :=
  h.calm hW (.setWake W key hi)

lemma not_engaged_of_none (h : ClaimsKept profile b) {claim : ClaimKey} (hn : b.store.claims claim = none) (w' : ℕ) :
    ¬ Engaged b w' claim := by
  intro he
  obtain ⟨c, e, hc, -⟩ := h.engaged_marker he
  rw [hn] at hc
  cases hc

lemma claim_claims (h : ClaimsKept profile b) {answer : PutAnswer} (hg : Undisturbed b (.claim w key answer))
    (hs : b.claim w key answer = some b') : ClaimsKept profile b' := by
  obtain ⟨W, task, hW, ht, hf⟩ := onWake_eq_some hs
  split at hf
  · rename_i s stamp attempt hp
    have hlease : b.now < stamp + OWN_CLAIM_LEASE_MS := by
      obtain ⟨at_, phase⟩ := task
      cases hp
      exact hg W at_ s stamp attempt hW ht
    cases answer with
    | answered shown =>
      simp only at hf
      split at hf
      · rename_i hn
        cases hf
        apply h.put hW (not_engaged_of_none h (Option.isNone_iff_eq_none.mp hn)) hlease
        rintro t ⟨⟩
        rfl
      · cases hf
        apply h.move hW
        rintro t ⟨⟩
        trivial
    | failed lands =>
      cases hf
      split
      · rename_i hc
        simp only [Bool.and_eq_true, Option.isNone_iff_eq_none] at hc
        exact h.put hW (not_engaged_of_none h hc.2) hlease nofun
      · exact h.move hW nofun
  · cases hf

lemma readClaim_claims (h : ClaimsKept profile b) {fails shown : Bool}
    (hs : b.readClaim w key fails shown = some b') : ClaimsKept profile b' := by
  obtain ⟨W, task, hW, ht, hf⟩ := onWake_eq_some hs
  split at hf
  · rename_i s stamp attempt hp
    split at hf
    · cases hf
      exact h.move hW nofun
    · split at hf
      · rename_i held e hc
        cases hf
        refine h.rephase hW (.refl W) ?_ le_rfl (fun _ _ _ => .inl) (fun _ _ _ => rfl) ?_ ?_ ?_
        · rintro t s' ⟨⟩ ⟨⟩
        · rintro t s' ⟨⟩ ⟨⟩
        · intro at_ s' stamp' held' e' hn
          simp only [Option.some.injEq, WakeTask.mk.injEq, WakePhase.judging.injEq] at hn
          obtain ⟨-, rfl, -, rfl, hn⟩ := hn
          rw [Option.ite_none_right_eq_some] at hn
          obtain ⟨-, hn⟩ := hn
          cases hn
          refine ⟨h.etags _ _ _ hc, fun c hc' => ?_⟩
          rw [hc] at hc'
          cases hc'
          rfl
        · rintro at_ s' stamp' e' ⟨⟩
      · split at hf
        · cases hf
          apply h.move hW
          rintro t ⟨⟩
          trivial
        · cases hf
          exact h.calm hW (Drift.skip W key _).calm
  · cases hf

/-- Whoever wrote a marker that may be taken over is gone, or its lease is out. -/
lemma ClaimsKept.left (h : ClaimsKept profile b) (hW : b.runs w = some W) {claim : ClaimKey} {held : Claim} {e : ℕ}
    {alive : Bool} (hc : b.store.claims claim = some (held, e)) (hne : held.run ≠ w)
    (hlive : (∃ w' W', b.runs w' = some W' ∧ W'.pid = held.pid) → alive = true)
    (hm : b.mayTake W held alive = true) : b.runs held.run = none ∨ held.at_ + OWN_CLAIM_LEASE_MS ≤ b.now := by
  have hp : held.profile = W.profile := (h.profiles claim held e hc).trans (h.runs w W hW).profile.symm
  rw [WatchWorld.mayTake, if_pos hp] at hm
  simp only [Bool.or_eq_true, beq_iff_eq, Bool.not_eq_true', decide_eq_false_iff_not, not_lt] at hm
  rcases hm with (hpid | hdead) | hlate
  · left
    cases hX : b.runs held.run with
    | none => rfl
    | some X =>
      have := h.holders claim held e X hc hX
      exact absurd (h.pids _ _ _ _ hX hW (this.trans hpid)) hne
  · left
    cases hX : b.runs held.run with
    | none => rfl
    | some X =>
      rw [hlive ⟨held.run, X, hX, h.holders claim held e X hc hX⟩] at hdead
      cases hdead
  · exact .inr hlate

lemma judge_claims (h : ClaimsKept profile b) {alive : Bool} (hm : OneMachine profile b (.judge w key alive))
    (hg : Undisturbed b (.judge w key alive)) (hs : b.judge w key alive = some b') : ClaimsKept profile b' := by
  obtain ⟨W, ⟨at_, phase⟩, hW, ht, hf⟩ := onWake_eq_some hs
  split at hf
  · rename_i s stamp held etag hp
    cases hp
    split at hf
    · rename_i hmine
      cases hf
      obtain ⟨⟨e, hc⟩, hlease⟩ := hg W at_ s stamp held etag hW ht hmine
      refine h.rephase hW (.refl W) ?_ le_rfl (fun _ _ _ => .inl) (fun _ _ _ => rfl) ?_ ?_ ?_
      · rintro t s' ⟨⟩ ⟨⟩
      · rintro t s' ⟨⟩ ⟨⟩
        exact ⟨held, e, hc, hmine, hlease⟩
      · rintro at_ s' stamp' held' e' ⟨⟩
      · rintro at_ s' stamp' e' ⟨⟩
    · rename_i hne
      split at hf
      · rename_i e hmay
        cases hf
        obtain ⟨hle, hheld⟩ := (h.runs w W hW).judging key at_ s stamp held e ht
        refine h.rephase hW (.refl W) ?_ le_rfl (fun _ _ _ => .inl) (fun _ _ _ => rfl) ?_ ?_ ?_
        · rintro t s' ⟨⟩ ⟨⟩
        · rintro t s' ⟨⟩ ⟨⟩
        · rintro at_ s' stamp' held' e' ⟨⟩
        · rintro at' s' stamp' e' ⟨⟩
          refine ⟨hle, fun c hc => ?_⟩
          obtain rfl := hheld c hc
          exact h.left hW hc hne (hm W at_ s stamp c (some e) hW ht) hmay
      · cases hf
        exact h.calm hW (Drift.skip W key _).calm
  · cases hf

lemma takeOver_claims (h : ClaimsKept profile b) {answer : PutAnswer} (hg : Undisturbed b (.takeOver w key answer))
    (hs : b.takeOver w key answer = some b') : ClaimsKept profile b' := by
  obtain ⟨W, ⟨at_, phase⟩, hW, ht, hf⟩ := onWake_eq_some hs
  split at hf
  · rename_i s stamp e hp
    cases hp
    have hlease := hg W at_ s stamp e hW ht
    -- the tag names the marker that was judged, and nobody holds that one any more
    have hfree (hc : (b.store.claims (key, s.claimId)).any (fun v => v.2 == e) = true) (w' : ℕ) :
        ¬ Engaged b w' (key, s.claimId) := by
      intro he
      obtain ⟨c, e', hcl, rfl, hnow⟩ := h.engaged_marker he
      rw [hcl] at hc
      obtain rfl : e' = e := beq_iff_eq.mp hc
      obtain ⟨X, -, -, hX, -⟩ := he
      rcases ((h.runs w W hW).taking key at_ s stamp e' ht).2 c hcl with hnone | hlate
      · rw [hX] at hnone
        cases hnone
      · omega
    cases answer with
    | answered shown =>
      simp only at hf
      split at hf
      · rename_i hc
        cases hf
        apply h.put hW (hfree hc) hlease
        rintro t ⟨⟩
        rfl
      · cases hf
        exact h.calm hW (Drift.skip W key _).calm
    | failed lands =>
      cases hf
      split
      · rename_i hc
        simp only [Bool.and_eq_true] at hc
        exact h.put hW (hfree hc.2) hlease nofun
      · exact h.move hW nofun
  · cases hf

lemma count_claims (h : ClaimsKept profile b) (hs : b.count w key = some b') : ClaimsKept profile b' := by
  obtain ⟨W, task, hW, ht, hf⟩ := onWake_eq_some hs
  split at hf
  · rename_i s hp
    cases hf
    refine h.rephase hW (.enqueue W _ _) ?_ le_rfl (fun _ _ _ => .inl) (fun _ _ _ => rfl) ?_ ?_ ?_
    · rintro t s' ⟨⟩ ⟨⟩
    · rintro t s' ⟨⟩ ⟨⟩
      apply (h.runs w W hW).engaged key task s ht
      rw [hp]
      rfl
    · rintro at_ s' stamp' held' e' ⟨⟩
    · rintro at_ s' stamp' e' ⟨⟩
  · cases hf

lemma releaseDelete_claims (h : ClaimsKept profile b) {lands : Bool}
    (hg : Undisturbed b (.releaseDelete w key lands)) (hs : b.releaseDelete w key lands = some b') :
    ClaimsKept profile b' := by
  obtain ⟨W, ⟨at_, phase⟩, hW, ht, hf⟩ := onWake_eq_some hs
  split at hf
  · rename_i s hp
    cases hp
    cases hf
    have hfree := hg W at_ s hW ht
    split
    · refine h.rephase hW (.refl W) nofun le_rfl (fun claim c e hc => .inl (delete_claim claim c e hc))
        (claims_update hfree rfl) nofun nofun nofun
    · exact h.move hW nofun
  · cases hf

lemma pruneClaim_claims {sentAt : String → Option ℕ} (h : ClaimsKept profile b) {claim : ClaimKey} {lands : Bool}
    (hg : Undisturbed b (.pruneClaim w claim lands)) (hs : b.pruneClaim sentAt w claim lands = some b') :
    ClaimsKept profile b' := by
  unfold WatchWorld.pruneClaim at hs
  split at hs
  · rename_i hc
    cases hs
    simp only [Bool.and_eq_true] at hc
    obtain ⟨W, hW⟩ := Option.isSome_iff_exists.mp hc.1
    have hself : Function.update b.runs w (some W) = b.runs := by rw [← hW, Function.update_eq_self]
    cases lands with
    | false => exact h
    | true =>
      suffices hstep : ClaimsKept profile { b with
          store := b.store.deleteClaim claim
          runs := Function.update b.runs w (some W)
          log := b.log } by rwa [hself] at hstep
      refine h.step hW none ?_ ?_ nofun ?_ le_rfl ?_ ?_
      · rintro _ ⟨⟩
        rfl
      · rintro _ k at_ s ⟨⟩ ht
        exact .inl ⟨at_, ht⟩
      · rintro _ ⟨⟩
        refine (h.runs w W hW).frame hW rfl le_rfl ?_ h.born le_rfl (fun claim' c e hcl _ => delete_claim claim' c e hcl)
          (claims_update hg rfl w)
        intro r _ hr
        rwa [hself]
      · exact fun claim' c e hcl => .inl (delete_claim claim' c e hcl)
      · exact fun w' claim' _ => claims_update hg rfl w' claim'
  · cases hs

lemma clock_claims (h : ClaimsKept profile b) {now : ℕ} (hle : b.now ≤ now) (hg : Undisturbed b (.clock now)) :
    ClaimsKept profile { b with now } := by
  refine ⟨?_, h.pids, h.etags, h.profiles, h.born, h.holders, h.apart⟩
  intro w W hW
  have hr := h.runs w W hW
  refine ⟨hr.born, hr.profile, ?_, hr.judging, ?_⟩
  · intro key task s ht hs
    obtain ⟨c, e, hc, hrun, -⟩ := hr.engaged key task s ht hs
    exact ⟨c, e, hc, hrun, hg w (key, s.claimId) c e ⟨W, task, s, hW, ht, hs, rfl⟩ hc⟩
  · intro key at_ s stamp e ht
    obtain ⟨hetag, hleft⟩ := hr.taking key at_ s stamp e ht
    exact ⟨hetag, fun c hc => (hleft c hc).imp id fun hlate => hlate.trans hle⟩

lemma start_claims (h : ClaimsKept profile b) {profile' pid : ℕ} {shown : Bool}
    (hm : OneMachine profile b (.start profile' pid shown)) : ClaimsKept profile (b.startRun profile' pid shown) := by
  obtain ⟨rfl, hpids⟩ := hm
  have hcases {w : ℕ} {X : Watcher} (hX : (b.startRun profile' pid shown).runs w = some X) :
      w = b.nextRun ∧ X.pid = pid ∧ (∀ k, X.wake k = none) ∧ X.profile = profile' ∨ b.runs w = some X := by
    by_cases hk : w = b.nextRun
    · subst hk
      simp only [WatchWorld.startRun, Function.update_self, Option.some.injEq] at hX
      subst hX
      exact .inl ⟨rfl, rfl, fun _ => rfl, rfl⟩
    · right
      simpa [WatchWorld.startRun, hk] using hX
  have hlive {w : ℕ} {X : Watcher} (hX : b.runs w = some X) : X.pid ≠ pid :=
    hpids w (h.runs w X hX).born X hX
  refine ⟨?_, ?_, h.etags, h.profiles, fun claim c e hc => (h.born claim c e hc).trans (Nat.lt_succ_self _), ?_, ?_⟩
  · intro w X hX
    rcases hcases hX with ⟨rfl, -, hw, hp⟩ | hX
    · refine ⟨Nat.lt_succ_self _, hp, ?_, ?_, ?_⟩
      all_goals
        intro key
        rw [hw key]
        nofun
    · refine (h.runs w X hX).frame hX rfl (Nat.le_succ _) ?_ h.born le_rfl (fun _ _ _ hc _ => hc) fun _ _ => rfl
      intro r hr hnone
      have : r ≠ b.nextRun := hr.ne
      simpa [WatchWorld.startRun, this] using hnone
  · intro w w' X X' hX hX' hp
    rcases hcases hX with ⟨hw, hpid, -⟩ | hX <;> rcases hcases hX' with ⟨hw', hpid', -⟩ | hX'
    · exact hw.trans hw'.symm
    · exact absurd (hp.symm.trans hpid) (hlive hX')
    · exact absurd (hp.trans hpid') (hlive hX)
    · exact h.pids _ _ _ _ hX hX' hp
  · intro claim c e X hc hX
    rcases hcases hX with ⟨hw, -⟩ | hX
    · have := h.born claim c e hc
      omega
    · exact h.holders claim c e X hc hX
  · intro w w' X X' key key' at_ at' s s' hX hX' ht ht'
    rcases hcases hX with ⟨-, -, hw, -⟩ | hX
    · rw [hw key] at ht
      cases ht
    · rcases hcases hX' with ⟨-, -, hw, -⟩ | hX'
      · rw [hw key'] at ht'
        cases ht'
      · exact h.apart _ _ _ _ _ _ _ _ _ _ hX hX' ht ht'

/-- An adapter starts under the claim of its wake. -/
lemma started_claims (h : ClaimsKept profile b) (hW : b.runs w = some W) (hcalm : Calm W W') {s : Snapshot} {at_ : ℕ}
    {log : List WatchEvent} (ht : W.wake key = some ⟨at_, .counting s⟩)
    (hg : ∀ w' X key' at' s', b.runs w' = some X → X.wake key' = some ⟨at', .running s'⟩ →
      NoneShared s s' ∨ key' = key ∧ s'.claimId = s.claimId) :
    ClaimsKept profile { b with
      runs := Function.update b.runs w (some (W'.setWake key (some ⟨at_, .running s⟩)))
      log } := by
  apply h.step hW (some (key, s)) ?_ ?_ ?_ ?_ le_rfl (fun _ _ _ => .inl) (fun _ _ _ _ => rfl)
  · rintro _ ⟨⟩
    exact hcalm.pid
  · rintro _ k at' s' ⟨⟩ hk
    rcases wake_setWake hk with ⟨rfl, hk'⟩ | ⟨-, hk'⟩
    · cases hk'
      exact .inr rfl
    · exact .inl ⟨at', (hcalm.wake k _ hk').resolve_right id⟩
  · rintro k s' ⟨⟩ w' X key' at' s' hX hk
    rcases hg w' X key' at' s' hX hk with hn | ⟨rfl, hid⟩
    · exact hn
    · -- both hold the claim of one marker, so they are one wake, and it does not run yet
      obtain ⟨c, e, hc, rfl, -⟩ := (h.runs w W hW).engaged key' _ s ht rfl
      obtain ⟨c', e', hc', rfl, -⟩ := (h.runs w' X hX).engaged key' _ s' hk rfl
      rw [hid, hc] at hc'
      cases hc'
      rw [hW] at hX
      cases hX
      rw [ht] at hk
      cases hk
  · rintro _ ⟨⟩
    apply RunClaims.setWake
    · apply RunClaims.calm ?_ hcalm
      refine (h.runs w W hW).frame hW rfl le_rfl ?_ h.born le_rfl (fun _ _ _ hc _ => hc) (fun _ _ => rfl)
      intro r _ hr
      have : r ≠ w := by
        rintro rfl
        rw [hW] at hr
        cases hr
      simpa [this] using hr
    · rintro t s' ⟨⟩ ⟨⟩
      exact (h.runs w W hW).engaged key _ s ht rfl
    · rintro at' s' stamp held e ⟨⟩
    · rintro at' s' stamp e ⟨⟩

lemma Calm.acknowledge (W : Watcher) (rest : List Job) (result : WriteResult) :
    Calm W (Watcher.acknowledge { W with stateQueue := rest } result) := by
  cases result <;> exact .of_eq rfl rfl rfl

lemma acknowledge_wake (W : Watcher) (rest : List Job) (result : WriteResult) :
    (Watcher.acknowledge { W with stateQueue := rest } result).wake = W.wake := by
  cases result <;> rfl

lemma acknowledge_claims {opts : WatchOptions} (h : ClaimsKept profile b) (hg : Undisturbed b (.acknowledge w))
    (hs : b.acknowledge opts w = some b') : ClaimsKept profile b' := by
  obtain ⟨W, hW, hf⟩ := Option.bind_eq_some_iff.mp hs
  split at hf
  · rename_i m owner at_ result rest hq
    cases hf
    set T : Watcher := Watcher.acknowledge { W with stateQueue := rest } result with hT
    have hcalm : Calm W T := .acknowledge W rest result
    change ClaimsKept profile ((b.record ((T.continue_ opts b.now owner (Watcher.isOk result)).2.toList.map
      fun p => .started w p.1 p.2 b.now)).setRun w (some (T.continue_ opts b.now owner (Watcher.isOk result)).1))
    cases hst : (T.continue_ opts b.now owner (Watcher.isOk result)).2 with
    | none =>
      refine h.quiet hW ?_ rfl le_rfl
      rintro _ ⟨⟩
      exact hcalm.trans (.continue_ T hst)
    | some p =>
      obtain ⟨k, s⟩ := p
      obtain ⟨rfl, hok, -, -⟩ := continue_started hst
      obtain ⟨at', ht, heq⟩ := continue_running hst
      rw [heq]
      rw [hT, acknowledge_wake] at ht
      refine started_claims h hW hcalm ht fun w' X key' at₂ s' hX hk => ?_
      cases result with
      | ok etag => exact hg W m k at_ etag rest at' s hW hq ht w' X key' at₂ s' hX hk
      | conflict => cases hok
      | failed => cases hok
  · cases hf

variable {sentAt : String → Option ℕ}

lemma watchStep_claims {opts : WatchOptions} (h : ClaimsKept profile b) {a : WatchAction} (hm : OneMachine profile b a)
    (hg : Undisturbed b a) (hs : watchStep opts sentAt b a = some b') : ClaimsKept profile b' := by
  cases a with
  | clock now =>
    simp only [watchStep, Option.ite_none_right_eq_some] at hs
    obtain ⟨hle, hs⟩ := hs
    cases hs
    exact clock_claims h hle hg
  | pause key =>
    cases hs
    exact h.congr rfl rfl rfl (addMarker_claims _ key) (addMarker_etags _ key)
  | unpause key =>
    cases hs
    exact h.congr rfl rfl rfl rfl rfl
  | start profile pid shown =>
    cases hs
    exact start_claims h hm
  | stop w =>
    refine h.calmStep (onRun_calm ?_ hs)
    rintro W _ ⟨⟩
    exact .of_eq rfl rfl rfl
  | crash w =>
    cases hs
    exact h.crash
  | tick w key force => exact h.calmStep (tickOne_calm hs)
  | syncPaused w =>
    refine h.calmStep (onRun_calm ?_ hs)
    rintro W _ ⟨⟩
    exact .lock W _
  | list w fails => exact h.calmStep (listMarkers_calm hs)
  | apply w => exact h.calmStep (applyListing_calm hs)
  | noticeId w key fails => exact h.calmStep (noticeId_calm hs)
  | writeMarker w answer => exact h.calmStep (writeMarker_calm hs)
  | wroteMarker w => exact h.calmStep (wroteMarker_calm hs)
  | deliver w items => exact h.calmStep (enqueue_calm hs)
  | approve w handled wakes => exact h.calmStep (enqueue_calm hs)
  | prune w => exact h.calmStep (enqueue_calm hs)
  | other w => exact h.calmStep (enqueue_calm hs)
  | run w => exact h.calmStep (runJob_calm hs)
  | fetch w fails shown => exact h.calmStep (fetchEtag_calm hs)
  | put w answer => exact h.calmStep (putState_calm hs)
  | acknowledge w => exact acknowledge_claims h hg hs
  | commit w fails lands => exact h.calmStep (commit_calm hs)
  | claim w key answer => exact claim_claims h hg hs
  | readClaim w key fails shown => exact readClaim_claims h hs
  | judge w key alive => exact judge_claims h hm hg hs
  | takeOver w key answer => exact takeOver_claims h hg hs
  | count w key => exact count_claims h hs
  | woken w key ok => exact h.calmStep (woken_calm hs)
  | releaseRead w key fails => exact h.calmStep (releaseRead_calm hs)
  | releaseDelete w key lands => exact releaseDelete_claims h hg hs
  | pruneClaim w claim lands => exact pruneClaim_claims h hg hs

end Claims

section Runs

variable {profile : ℕ} {opts : WatchOptions} {sentAt : String → Option ℕ} {b b' : WatchWorld} {w : ℕ}

lemma claimsKept_initial (h : (watchMachine opts sentAt).initial b) : ClaimsKept profile b := by
  obtain ⟨hstore, hruns, -⟩ := h
  refine ⟨?_, ?_, ?_, ?_, ?_, ?_, ?_⟩
  all_goals simp [hstore, hruns]

/-- Adapters that run at the same time share no message and no approval, and the marker of an adapter
that runs stands and names its watcher. -/
theorem woken_once
    (h : (watchMachine opts sentAt).Within (fun b a => OneMachine profile b a ∧ Undisturbed b a) b) :
    (∀ w w' W W' key key' at_ at' s s', b.runs w = some W → b.runs w' = some W' →
      W.wake key = some ⟨at_, .running s⟩ → W'.wake key' = some ⟨at', .running s'⟩ →
        w = w' ∧ key = key' ∨ NoneShared s s') ∧
      ∀ w W key at_ s, b.runs w = some W → W.wake key = some ⟨at_, .running s⟩ →
        ∃ c e, b.store.claims (key, s.claimId) = some (c, e) ∧ c.run = w := by
  have hk : ClaimsKept profile b :=
    h.invariant (fun _ => claimsKept_initial) fun _ _ _ _ hk hg hs => watchStep_claims hk hg.1 hg.2 hs
  refine ⟨hk.apart, ?_⟩
  intro w W key at_ s hW ht
  obtain ⟨c, e, hc, hrun, -⟩ := (hk.runs w W hW).engaged key _ s ht rfl
  exact ⟨c, e, hc, hrun⟩

def NoneRunning (b : WatchWorld) : Prop :=
  ∀ w W key at_ s, b.runs w = some W → W.wake key ≠ some ⟨at_, .running s⟩

lemma NoneRunning.update (h : NoneRunning b) {W W' : Watcher} (hW : b.runs w = some W)
    (hw : ∀ key at_ s, W'.wake key = some ⟨at_, .running s⟩ → W.wake key = some ⟨at_, .running s⟩)
    (hr : b'.runs = Function.update b.runs w (some W')) : NoneRunning b' := by
  intro w' X key at_ s hX ht
  rw [hr] at hX
  by_cases hk : w' = w
  · subst hk
    rw [Function.update_self] at hX
    cases hX
    exact h w' W key at_ s hW (hw key at_ s ht)
  · rw [Function.update_of_ne hk] at hX
    exact h w' X key at_ s hX ht

lemma CalmStep.noneRunning (hs : CalmStep b b') (h : NoneRunning b) : NoneRunning b' := by
  obtain ⟨w, W, R, hW, hR, hruns, -⟩ := hs
  cases R with
  | none =>
    intro w' X key at_ s hX
    rw [hruns, Function.update_apply] at hX
    split at hX
    · cases hX
    · exact h w' X key at_ s hX
  | some W' => exact h.update hW (fun key at_ s ht => ((hR W' rfl).wake key _ ht).resolve_right id) hruns

/-- A test for runs of one watcher up to its first adapter. -/
def soleCheck (b : WatchWorld) : WatchAction → Bool
  | .start profile _ _ => profile == 1 && b.nextRun == 0
  | .deliver _ _ => true
  | .run _ => true
  | .put _ _ => true
  | .tick _ _ _ => true
  | .list _ _ => true
  | .count _ _ => true
  | .claim w key _ => (b.runs w).all fun W =>
    match W.wake key with
    | some ⟨_, .claiming _ stamp _⟩ => b.now < stamp + OWN_CLAIM_LEASE_MS
    | _ => true
  | .acknowledge w => (b.runs w).all fun W =>
    match W.stateQueue with
    | ⟨_, .receipts _, _⟩ :: _ => true
    | _ => false
  | _ => false

lemma guard_of_soleCheck {a : WatchAction} (hc : soleCheck b a = true) (h : NoneRunning b) :
    OneMachine 1 b a ∧ Undisturbed b a := by
  cases a with
  | start profile pid shown =>
    simp only [soleCheck, Bool.and_eq_true, beq_iff_eq] at hc
    refine ⟨⟨hc.1, fun w hw => ?_⟩, trivial⟩
    omega
  | claim w key answer =>
    refine ⟨trivial, fun W at_ s stamp attempt hW ht => ?_⟩
    simpa [soleCheck, hW, ht] using hc
  | acknowledge w =>
    refine ⟨trivial, ?_⟩
    intro W m key at_ etag rest at' s hW hq ht w' W' key' at₂ s' hW' ht'
    exact absurd ht' (h w' W' key' at₂ s' hW')
  | deliver w items => exact ⟨trivial, trivial⟩
  | run w => exact ⟨trivial, trivial⟩
  | put w answer => exact ⟨trivial, trivial⟩
  | tick w key force => exact ⟨trivial, trivial⟩
  | list w fails => exact ⟨trivial, trivial⟩
  | count w key => exact ⟨trivial, trivial⟩
  | _ => cases hc

lemma noneRunning_of_soleCheck {a : WatchAction} (h : NoneRunning b) (hc : soleCheck b a = true)
    (hs : watchStep opts sentAt b a = some b') : NoneRunning b' := by
  cases a with
  | start profile pid shown =>
    cases hs
    intro w' X key at_ s hX
    simp only [WatchWorld.startRun, Function.update_apply] at hX
    split at hX
    · cases hX
      nofun
    · exact h w' X key at_ s hX
  | deliver w items => exact (enqueue_calm hs).noneRunning h
  | run w => exact (runJob_calm hs).noneRunning h
  | put w answer => exact (putState_calm hs).noneRunning h
  | tick w key force => exact (tickOne_calm hs).noneRunning h
  | list w fails => exact (listMarkers_calm hs).noneRunning h
  | count w key =>
    obtain ⟨W, task, hW, -, hf⟩ := onWake_eq_some (show b.count w key = some b' from hs)
    split at hf
    · cases hf
      refine h.update hW (fun k at_ s ht => ?_) rfl
      rcases wake_setWake ht with ⟨-, ht'⟩ | ⟨-, ht'⟩
      · cases ht'
      · exact ht'
    · cases hf
  | claim w key answer =>
    obtain ⟨W, task, hW, -, hf⟩ := onWake_eq_some (show b.claim w key answer = some b' from hs)
    have hnext {next : Option WakeTask} (hn : ∀ at_ s, next ≠ some ⟨at_, .running s⟩) (k : ThreadKey) (at_ : ℕ)
        (s : Snapshot) (ht : (W.setWake key next).wake k = some ⟨at_, .running s⟩) :
        W.wake k = some ⟨at_, .running s⟩ := by
      rcases wake_setWake ht with ⟨-, ht'⟩ | ⟨-, ht'⟩
      · exact absurd ht' (hn at_ s)
      · exact ht'
    split at hf
    · cases answer with
      | answered shown =>
        simp only at hf
        split at hf
        · cases hf
          exact h.update hW (hnext (by rintro _ _ ⟨⟩)) rfl
        · cases hf
          exact h.update hW (hnext (by rintro _ _ ⟨⟩)) rfl
      | failed lands =>
        cases hf
        exact h.update hW (hnext (by rintro _ _ ⟨⟩)) rfl
    · cases hf
  | acknowledge w =>
    obtain ⟨W, hW, hf⟩ := Option.bind_eq_some_iff.mp (show b.acknowledge opts w = some b' from hs)
    split at hf
    · rename_i m owner at_ result rest hq
      cases owner with
      | receipts items =>
        cases hf
        refine CalmStep.noneRunning (.of hW ?_ rfl le_rfl) h
        rintro _ ⟨⟩
        apply (Calm.acknowledge W rest result).trans
        cases result <;> exact .of_eq rfl rfl rfl
      | _ => simp [soleCheck, hW, hq] at hc
    · cases hf
  | _ => cases hc

theorem woken_once_sample : ∃ b W s, (watchMachine ⟨0, 1⟩ fun _ => none).Within
      (fun b a => OneMachine 1 b a ∧ Undisturbed b a) b ∧
    b.runs 0 = some W ∧ W.wake sampleThread = some ⟨0, .running s⟩ ∧
    ∃ c e, b.store.claims (sampleThread, s.claimId) = some (c, e) ∧ c.run = 0 := by
  have hrun : (((watchMachine ⟨0, 1⟩ fun _ => none).runIf soleCheck emptyWorld
      ([.start 1 7 true, .deliver 0 [⟨sampleThread, "m1", some "ask"⟩]] ++ sampleWrite 0 ++
        [.tick 0 sampleThread true, .list 0 true, .claim 0 sampleThread (.answered true), .count 0 sampleThread,
          .run 0, .put 0 (.answered true)])).bind fun b => ((watchMachine ⟨0, 1⟩ fun _ => none).step b
            (.acknowledge 0)).bind fun b => (b.runs 0).map fun W => W.wake sampleThread) =
      some (some ⟨0, .running ⟨[⟨"m1", "ask"⟩], []⟩⟩) := by
    decide +kernel
  obtain ⟨b, hb, hrun⟩ := Option.bind_eq_some_iff.mp hrun
  obtain ⟨b', hb', hrun⟩ := Option.bind_eq_some_iff.mp hrun
  obtain ⟨W, hW, ht⟩ := Option.map_eq_some_iff.mp hrun
  have hnone : NoneRunning emptyWorld := fun _ _ _ _ _ hW => nomatch hW
  have hstep (b : WatchWorld) (a : WatchAction) (b' : WatchWorld) (h : NoneRunning b) (hc : soleCheck b a = true)
      (hs : (watchMachine ⟨0, 1⟩ fun _ => none).step b a = some b') : NoneRunning b' := noneRunning_of_soleCheck h hc hs
  have hwithin := Machine.Within.of_runIf
    (Machine.Within.start (show (watchMachine ⟨0, 1⟩ fun _ => none).initial emptyWorld from ⟨rfl, fun _ => rfl, rfl⟩))
    hnone (fun _ _ h hc => guard_of_soleCheck hc h) hstep hb
  have hfirst : OneMachine 1 b (.acknowledge 0) ∧ Undisturbed b (.acknowledge 0) := by
    refine ⟨trivial, ?_⟩
    intro W m key at_ etag rest at' s hW hq ht w' W' key' at₂ s' hW' ht'
    exact absurd ht' (Machine.runIf_keeps hnone hstep hb w' W' key' at₂ s' hW')
  have hwithin' := hwithin.step hfirst hb'
  exact ⟨b', W, _, hwithin', hW, ht, (woken_once hwithin').2 0 W sampleThread 0 _ hW ht⟩

/-- A failed wake backs its message off, an approval is woken by itself, and a second watcher that
starts once the message is due again claims the message and carries the approval too. -/
def sampleOverlap : List WatchAction :=
  [WatchAction.start 1 7 true, .deliver 0 [⟨sampleThread, "m1", some "ask"⟩]] ++ sampleWrite 0 ++
    [WatchAction.commit 0 false false, .tick 0 sampleThread true, .list 0 true,
      .claim 0 sampleThread (.answered true)] ++
    [WatchAction.count 0 sampleThread] ++ sampleWrite 0 ++ [WatchAction.woken 0 sampleThread false] ++
    sampleWrite 0 ++ [WatchAction.releaseRead 0 sampleThread false, .releaseDelete 0 sampleThread true] ++
    [WatchAction.approve 0 ["a1"] [(sampleThread, ⟨"a1", "approve"⟩)]] ++ sampleWrite 0 ++
    [WatchAction.tick 0 sampleThread true, .list 0 true, .claim 0 sampleThread (.answered true),
      .count 0 sampleThread] ++
    sampleWrite 0 ++ [WatchAction.start 1 8 true, .clock 60000, .tick 1 sampleThread true, .list 1 true] ++
    [WatchAction.claim 1 sampleThread (.answered true), .count 1 sampleThread] ++ sampleWrite 1

/-- A test that leaves the judging of markers out. -/
def machineCheck (b : WatchWorld) : WatchAction → Bool
  | .start profile pid _ => profile == 1 && (List.range b.nextRun).all fun w => (b.runs w).all (·.pid != pid)
  | .judge _ _ _ => false
  | _ => true

lemma oneMachine_of_check {a : WatchAction} (h : machineCheck b a = true) : OneMachine 1 b a := by
  cases a with
  | start profile pid shown =>
    simp only [machineCheck, Bool.and_eq_true, beq_iff_eq, List.all_eq_true, List.mem_range] at h
    refine ⟨h.1, fun w hw W hW => ?_⟩
    simpa [hW] using h.2 w hw
  | judge w key alive => cases h
  | _ => trivial

/-- Two live watchers wake one approval at the same time, within a minute of the first wake. -/
theorem woken_twice : ∃ b W W' s s', (watchMachine ⟨0, 10⟩ fun _ => none).Within (OneMachine 1) b ∧
    b.now < OWN_CLAIM_LEASE_MS ∧ b.runs 0 = some W ∧ b.runs 1 = some W' ∧
    (∃ at_, W.wake sampleThread = some ⟨at_, .running s⟩) ∧
    (∃ at_, W'.wake sampleThread = some ⟨at_, .running s'⟩) ∧ "a1" ∈ s.approvedIds ∧ "a1" ∈ s'.approvedIds := by
  have hrun : ((watchMachine ⟨0, 10⟩ fun _ => none).runIf machineCheck emptyWorld sampleOverlap).bind
      (fun b => (b.runs 0).bind fun W => (b.runs 1).map fun W' =>
        (b.now, W.wake sampleThread, W'.wake sampleThread)) =
      some (60000, some ⟨0, .running ⟨[], [⟨"a1", "approve"⟩]⟩⟩,
        some ⟨60000, .running ⟨[⟨"m1", "ask"⟩], [⟨"a1", "approve"⟩]⟩⟩) := by
    decide +kernel
  obtain ⟨b, hb, hrun⟩ := Option.bind_eq_some_iff.mp hrun
  obtain ⟨W, hW, hrun⟩ := Option.bind_eq_some_iff.mp hrun
  obtain ⟨W', hW', hrun⟩ := Option.map_eq_some_iff.mp hrun
  simp only [Prod.mk.injEq] at hrun
  obtain ⟨hnow, ht, ht'⟩ := hrun
  have hwithin := Machine.Within.of_runIf (P := fun _ => True)
    (Machine.Within.start (show (watchMachine ⟨0, 10⟩ fun _ => none).initial emptyWorld from ⟨rfl, fun _ => rfl, rfl⟩))
    trivial (fun _ _ _ hc => oneMachine_of_check hc) (fun _ _ _ _ _ _ => trivial) hb
  exact ⟨b, W, W', _, _, hwithin, by rw [hnow]; decide, hW, hW', ⟨0, ht⟩, ⟨60000, ht'⟩, by decide, by decide⟩

end Runs

end TinyCloud.Courier
