import TinyCloud.Profile.Deletion
import TinyCloud.Profile.TurnExclusion

/-! When a deleted profile stays deleted: what the first turn a call finds tells it
about the deletions before and after its look. -/

namespace TinyCloud.Profile

open Runs TurnDirectory

namespace TurnDirectory

variable {D D' : TurnDirectory} {n process : ℕ} {touch : Option ℕ} {e : TurnEntry}

/-- A granted turn that another grant follows is still marked done. -/
def DoneKept (D : TurnDirectory) : Prop :=
  ∀ {n e}, D.turns n = some e → D.grant n = some e.owner.token → n + 1 < D.granted.length →
    (e.owner.token, .done) ∈ e.markers

lemma over_lt (h : D.Over n) : n < D.granted.length := by
  rcases h with h | ⟨e, token, _, hg, _⟩
  · omega
  · exact grant_lt hg

lemma gone_lt (hD : D.Sound) (h : D.Gone n) : n + 1 < D.granted.length := by
  by_contra hlast
  have := h.1
  exact h.2 (hD.latest (by omega))

lemma lt_finished_iff : n < D.finishedTurns ↔ D.Over n := by
  have hlast : ((D.grant (D.granted.length - 1)).any fun token =>
      D.hasMarker (D.granted.length - 1) token .done) = true ↔
      ∃ e token, D.turns (D.granted.length - 1) = some e ∧ D.grant (D.granted.length - 1) = some token ∧
        (token, .done) ∈ e.markers := by
    simp only [Option.any_eq_true, hasMarker_iff]
    constructor
    · rintro ⟨token, hg, e, he, hm⟩
      exact ⟨e, token, he, hg, hm⟩
    · rintro ⟨e, token, he, hg, hm⟩
      exact ⟨token, hg, e, he, hm⟩
  unfold finishedTurns
  dsimp only
  split
  · rename_i h
    have hdone := hlast.mp h
    constructor
    · intro hn
      by_cases hlt : n + 1 < D.granted.length
      · exact .inl hlt
      · obtain rfl : n = D.granted.length - 1 := by omega
        exact .inr hdone
    · exact over_lt
  · rename_i h
    constructor
    · exact fun hn => .inl (by omega)
    · rintro (hn | hdone)
      · omega
      · obtain ⟨e, token, he, hg, hm⟩ := hdone
        have hlt := grant_lt hg
        by_contra hn
        obtain rfl : n = D.granted.length - 1 := by omega
        exact h (hlast.mpr ⟨e, token, he, hg, hm⟩)

lemma finished_le (D : TurnDirectory) : D.finishedTurns ≤ D.granted.length := by
  unfold finishedTurns
  dsimp only
  split <;> omega

lemma length_le_finished (D : TurnDirectory) : D.granted.length ≤ D.finishedTurns + 1 := by
  unfold finishedTurns
  dsimp only
  split <;> omega

lemma finished_mono (hg : D.Grows D') : D.finishedTurns ≤ D'.finishedTurns := by
  cases hf : D.finishedTurns with
  | zero => exact Nat.zero_le _
  | succ k =>
    have hover : D.Over k := (lt_finished_iff).mp (by omega)
    exact (lt_finished_iff).mpr (hg.passed hover)

lemma Held.finished {turn : Turn} (h : D.Held turn) : D.finishedTurns = turn.slot := by
  obtain ⟨hg, hlast, hdone⟩ := h
  have hnot : ¬ D.Over turn.slot := by
    rintro (hn | ⟨e, token, he, hg', hm⟩)
    · omega
    · rw [hg, Option.some.injEq] at hg'
      subst hg'
      rw [hasMarker_iff.mpr ⟨e, he, hm⟩] at hdone
      cases hdone
  have hle : ¬ turn.slot < D.finishedTurns := fun h => hnot ((lt_finished_iff).mp h)
  have := length_le_finished D
  omega

lemma DoneKept.marked (hk : D.DoneKept) (he : D.turns n = some e) (hg : D.grant n = some e.owner.token)
    (ho : D.Over n) : (e.owner.token, .done) ∈ e.markers := by
  rcases ho with hn | ⟨e', token, he', hg', hm⟩
  · exact hk he hg hn
  · rw [he] at he'
    rw [hg] at hg'
    cases he'
    cases hg'
    exact hm

lemma DoneKept.of_effect (hk : D.DoneKept) (hD : D.Sound) (h : D.Effect process touch D') : D'.DoneKept := by
  intro n e he hg hn
  cases h with
  | unchanged => exact hk he hg hn
  | @created token _ =>
    cases hc : D.created with
    | true =>
      rw [createTurnDirectory, if_pos hc] at he hg hn
      exact hk he hg hn
    | false =>
      rw [hD.createTurnDirectory_eq hc] at hn
      simp at hn
  | @published slot o _ hfree hnew _ =>
    by_cases hs : n = slot
    · subst hs
      rw [publish_turns_self] at he
      cases he
      exact (hnew.1.1 n hg).elim
    · rw [publish_turns_of_ne hs] at he
      exact hk he hg hn
  | @marked slot token kind hmay =>
    obtain ⟨e₀, he₀, ho, _⟩ := markTurn_turns he
    obtain ⟨e', he', _, hkeep⟩ := markTurn_kept slot token kind he₀
    rw [he] at he'
    cases he'
    have hlt : n < D.granted.length := by
      rcases hD.markTurn_grant hmay with h | ⟨_, _, _, h⟩
      · rw [h] at hn
        omega
      · rw [h, List.length_append, List.length_singleton] at hn
        omega
    have hg₀ : D.grant n = some e₀.owner.token := by
      obtain ⟨t, ht⟩ := grant_of_lt hlt
      have ht' := (hD.markTurn_grows hmay).grant ht
      rw [hg, ho] at ht'
      exact ht.trans ht'.symm
    rw [ho]
    refine hkeep _ ?_
    by_cases hn₀ : n + 1 < D.granted.length
    · exact hk he₀ hg₀ hn₀
    · rcases hD.markTurn_grant hmay with h | ⟨hs, _, ⟨e₁, he₁, _⟩, _⟩
      · rw [h] at hn
        exact (hn₀ hn).elim
      · obtain rfl : slot = n + 1 := by omega
        obtain ⟨_, _, _, hover⟩ := hD.follows he₁
        exact hk.marked he₀ hg₀ hover
  | removed _ _ => exact hk (remove_turns he).1 hg hn

end TurnDirectory

section Look

variable {s s' : TurnLock} {x : ℕ} {a a' : Acquisition}

/-- No first turn is being read, and no turn is held. -/
def TurnPhase.quiet : TurnPhase → Bool
  | .reading .latest _ _ | .holding _ => false
  | _ => true

/-- What a step makes of the acquisition that takes it. -/
inductive StepCase (s : TurnLock) (a : Acquisition) : Acquisition → Prop
  | quiet {phase} : phase.quiet = true → StepCase s a { a with phase := phase }
  | reading {slot pc pc'} : a.phase = .reading .latest slot pc → s.directory.readTurn slot pc = .inl pc' →
      StepCase s a { a with phase := .reading .latest slot pc' }
  | found {slot pc t phase} : a.phase = .reading .latest slot pc →
      s.directory.readTurn slot pc = .inr (.turn t) → phase.quiet = true →
      StepCase s a ⟨a.process,
        a.firstWaitedTurn <|> some (if t.done then t.slot + 1 else t.slot), phase⟩
  | granted {turn} : a.phase = .granting turn → StepCase s a { a with phase := .holding turn }

lemma settleAbandonedTurn_quiet (settler : Settler) (t : TurnState) :
    (settleAbandonedTurn settler t).quiet = true := by
  unfold settleAbandonedTurn
  split <;> rfl

lemma put_quiet {s₀ : TurnLock} {phase : TurnPhase} (hq : phase.quiet = true)
    (h : (s₀.put x a phase).acquisitions x = some a') : StepCase s a a' := by
  simp only [TurnLock.put, Function.update_self, Option.some.injEq] at h
  subst h
  exact .quiet hq

lemma drop_none {s₀ : TurnLock} : (s₀.drop x).acquisitions x = none :=
  Function.update_self _ _ _

lemma collectNext_case {s₀ : TurnLock} {turn : Turn} {rest : List ℕ}
    (h : (collectNext s₀ x a turn rest).acquisitions x = some a') : StepCase s a a' := by
  cases rest with
  | nil =>
    rw [collectNext, drop_none] at h
    cases h
  | cons slot rest => exact put_quiet rfl h

lemma afterLatest_case {slot : ℕ} {pc : ReadPc} {t : TurnState} (hphase : a.phase = .reading .latest slot pc)
    (hr : s.directory.readTurn slot pc = .inr (.turn t))
    (h : (afterLatest s x a t).acquisitions x = some a') : StepCase s a a' := by
  unfold afterLatest at h
  dsimp only at h
  generalize hfirst : (a.firstWaitedTurn <|> some (if t.done then t.slot + 1 else t.slot)) = first at h
  have hfound : ∀ {s₀ : TurnLock} {phase : TurnPhase}, phase.quiet = true →
      (s₀.put x { a with firstWaitedTurn := first } phase).acquisitions x = some a' → StepCase s a a' := by
    intro s₀ phase hq h
    simp only [TurnLock.put, Function.update_self, Option.some.injEq] at h
    subst h hfirst
    exact .found hphase hr hq
  split at h
  · exact hfound rfl h
  · split at h
    · exact hfound rfl h
    · split at h
      · exact hfound (settleAbandonedTurn_quiet _ _) h
      · exact hfound rfl h

lemma afterRead_case {r : Reading} {slot : ℕ} {pc : ReadPc} {result : TurnRead}
    (hphase : a.phase = .reading r slot pc) (hr : s.directory.readTurn slot pc = .inr result)
    (h : (afterRead s x a r result).acquisitions x = some a') : StepCase s a a' := by
  cases r with
  | latest =>
    cases result with
    | turn t => exact afterLatest_case hphase hr h
    | gone => exact put_quiet rfl h
    | damaged => exact put_quiet rfl h
  | check turn after =>
    simp only [afterRead] at h
    split at h <;> exact put_quiet rfl h
  | settle settler abandoned after =>
    simp only [afterRead] at h
    split at h
    · split at h
      · rw [drop_none] at h
        cases h
      · exact put_quiet rfl h
    · exact put_quiet rfl h
    · exact put_quiet rfl h
  | own turn =>
    simp only [afterRead] at h
    split at h
    · split at h
      · exact put_quiet (settleAbandonedTurn_quiet _ _) h
      · rw [drop_none] at h
        cases h
    · rw [drop_none] at h
      cases h
  | candidate turn rest =>
    simp only [afterRead] at h
    split at h
    · split at h
      · exact collectNext_case h
      · split at h <;> exact put_quiet rfl h
    · exact collectNext_case h
  | next turn c rest =>
    simp only [afterRead] at h
    split at h
    · split at h
      · exact put_quiet rfl h
      · exact collectNext_case h
    · exact collectNext_case h

lemma fileOp_case (h : fileOp s x a a.phase = some s') (ha' : s'.acquisitions x = some a') :
    StepCase s a a' := by
  cases hphase : a.phase with
  | reading r slot pc =>
    rw [hphase, fileOp, Option.some.injEq] at h
    subst h
    split at ha'
    · rename_i pc' hr
      cases r with
      | latest =>
        simp only [TurnLock.put, Function.update_self, Option.some.injEq] at ha'
        subst ha'
        exact .reading hphase hr
      | _ => exact put_quiet rfl ha'
    · rename_i result hr
      exact afterRead_case hphase hr ha'
  | granting turn =>
    rw [hphase, fileOp, Option.some.injEq] at h
    subst h
    split at ha'
    · simp only [TurnLock.put, Function.update_self, Option.some.injEq] at ha'
      subst ha'
      exact .granted hphase
    · exact put_quiet rfl ha'
  | publishing latest token =>
    rw [hphase, fileOp, Option.some.injEq] at h
    subst h
    split at ha' <;> exact put_quiet rfl ha'
  | settlingDone settler t =>
    rw [hphase] at h
    cases settler with
    | acquisition =>
      cases h
      exact put_quiet rfl ha'
    | background turn =>
      cases h
      rw [drop_none] at ha'
      cases ha'
  | checkingOlder turn slot rest =>
    rw [hphase, fileOp, Option.some.injEq] at h
    subst h
    split at ha'
    · exact collectNext_case ha'
    · exact put_quiet rfl ha'
  | removing turn slot rest =>
    rw [hphase, fileOp, Option.some.injEq] at h
    subst h
    exact collectNext_case ha'
  | creating token | voiding turn | releasing turn | settlingHeld settler t =>
    rw [hphase, fileOp, Option.some.injEq] at h
    subst h
    exact put_quiet rfl ha'
  | looking | judging t | holding turn | listing turn =>
    rw [hphase] at h
    cases h

lemma failOp_case (h : failOp s x a a.phase = some s') (ha' : s'.acquisitions x = some a') :
    StepCase s a a' := by
  unfold failOp at h
  split at h
  case h_9 =>
    cases h
    exact collectNext_case ha'
  case h_10 => cases h
  case h_11 =>
    cases h
    rw [drop_none] at ha'
    cases ha'
  all_goals
    cases h
    exact put_quiet rfl ha'

/-- What a step that is neither a start nor a listing makes of its acquisition. -/
lemma step_case {act : TurnAction} (h : turnStep s act = some s') (hx : act.actor = some x)
    (ha : s.acquisitions x = some a) (ha' : s'.acquisitions x = some a')
    (hlist : ∀ listing, act ≠ .list x listing) : StepCase s a a' := by
  cases act with
  | start y process =>
    cases hx
    simp [turnStep, ha] at h
  | list y listing =>
    cases hx
    exact (hlist listing rfl).elim
  | judge y dead =>
    cases hx
    simp only [turnStep, ha] at h
    split at h
    · split at h
      · split at h
        · cases h
        · cases h
          exact put_quiet (settleAbandonedTurn_quiet _ _) ha'
      · cases h
        exact put_quiet rfl ha'
    · cases h
  | op y =>
    cases hx
    simp only [turnStep, ha, Option.bind_some] at h
    exact fileOp_case h ha'
  | release y =>
    cases hx
    simp only [turnStep, ha, Option.bind_some] at h
    split at h
    · cases h
      exact put_quiet rfl ha'
    · cases h
  | listOlder y slots =>
    cases hx
    simp only [turnStep, ha, Option.bind_some] at h
    split at h
    · cases h
      exact collectNext_case ha'
    · cases h
  | fail y =>
    cases hx
    simp only [turnStep, ha, Option.bind_some] at h
    exact failOp_case h ha'
  | quit y =>
    cases hx
    simp only [turnStep, ha, Option.bind_some] at h
    split at h
    · cases h
      rw [drop_none] at ha'
      cases ha'
    · cases h
      rw [drop_none] at ha'
      cases ha'
    · cases h
  | die process => cases hx

lemma list_case {slots : Option (List ℕ)} (h : turnStep s (.list x slots) = some s')
    (ha : s.acquisitions x = some a) (ha' : s'.acquisitions x = some a') :
    s'.directory = s.directory ∧ a'.firstWaitedTurn = a.firstWaitedTurn ∧ a'.process = a.process ∧
      (a'.phase.quiet = true ∨ ∃ slot, a'.phase = .reading .latest slot .owner ∧
        ∃ l, slots = some l ∧ l.max? = some slot) := by
  simp only [turnStep, ha, Option.ite_none_right_eq_some] at h
  obtain ⟨_, h⟩ := h
  cases slots with
  | none =>
    simp only [Option.ite_none_left_eq_some, Option.some.injEq] at h
    obtain ⟨_, rfl⟩ := h
    simp only [TurnLock.put, Function.update_self, Option.some.injEq] at ha'
    subst ha'
    exact ⟨rfl, rfl, rfl, .inl rfl⟩
  | some l =>
    simp only [Option.ite_none_right_eq_some, Option.some.injEq] at h
    obtain ⟨_, rfl⟩ := h
    cases hmax : l.max? with
    | none =>
      simp only [hmax, TurnLock.put, Function.update_self, Option.some.injEq] at ha' ⊢
      subst ha'
      exact ⟨trivial, rfl, rfl, .inl rfl⟩
    | some slot =>
      simp only [hmax, TurnLock.put, Function.update_self, Option.some.injEq] at ha' ⊢
      subst ha'
      exact ⟨trivial, rfl, rfl, .inr ⟨slot, rfl, l, rfl, hmax⟩⟩

lemma holding_release {act : TurnAction} {turn : Turn} (h : turnStep s act = some s')
    (hx : act.actor = some x) (ha : s.acquisitions x = some a) (hphase : a.phase = .holding turn) :
    act = .release x := by
  cases act with
  | release y =>
    cases hx
    rfl
  | die process => cases hx
  | _ =>
    cases hx
    simp [turnStep, ha, hphase, fileOp, failOp] at h

lemma actor_acquisition {act : TurnAction} (h : turnStep s act = some s') (hx : act.actor = some x)
    (hstart : ∀ process, act ≠ .start x process) : ∃ a, s.acquisitions x = some a := by
  cases ha : s.acquisitions x with
  | some a => exact ⟨a, rfl⟩
  | none =>
    cases act with
    | start y process =>
      cases hx
      exact (hstart process rfl).elim
    | die process => cases hx
    | _ =>
      cases hx
      simp [turnStep, ha] at h

-- Only a file operation goes on with a read.
lemma reading_op {act : TurnAction} {slot : ℕ} {pc : ReadPc} (h : turnStep s act = some s')
    (hx : act.actor = some x) (ha : s.acquisitions x = some a) (ha' : s'.acquisitions x = some a')
    (hphase : a.phase = .reading .latest slot pc) : act = .op x := by
  cases act with
  | op y =>
    cases hx
    rfl
  | fail y =>
    cases hx
    simp only [turnStep, ha, Option.bind_some, hphase, failOp, Option.some.injEq] at h
    rw [← h, drop_none] at ha'
    cases ha'
  | die process => cases hx
  | _ =>
    cases hx
    simp [turnStep, ha, hphase] at h

lemma StepCase.unset (h : StepCase s a a') (hf : a'.firstWaitedTurn = none) : a.firstWaitedTurn = none := by
  cases h with
  | found hphase hr hq =>
    cases ha : a.firstWaitedTurn with
    | none => rfl
    | some f =>
      rw [ha] at hf
      cases hf
  | _ => exact hf

end Look

section Found

variable {D D' : TurnDirectory} {started slot : ℕ} {pc pc' : ReadPc} {t : TurnState}

/-- What an acquisition that reads its first turn, number `slot`, knows of the turns that
were over before its call, when `started` of them were. -/
structure Looks (D : TurnDirectory) (started slot : ℕ) (pc : ReadPc) : Prop where
  listed : ∀ n, n < started → slot < n → D.Gone n
  owner : slot < started → ¬ D.Gone slot → ∀ o, pc.reads = some o → D.grant slot = some o.token
  done : slot < started → ¬ D.Gone slot → ∀ o d, pc = .held o d → d = true

lemma Looks.mono (hg : D.Grows D') (h : Looks D started slot pc) : Looks D' started slot pc :=
  ⟨fun n hn hs => hg.gone (h.listed n hn hs),
    fun hs hgone o ho => hg.grant (h.owner hs (fun hp => hgone (hg.gone hp)) o ho),
    fun hs hgone => h.done hs (fun hp => hgone (hg.gone hp))⟩

-- A turn over before the call began is not gone only where the granted one is still there.
lemma present_of_started (hs : started ≤ D.finishedTurns) (hslot : slot < started) (hgone : ¬ D.Gone slot) :
    ∃ e, D.turns slot = some e ∧ D.grant slot = some e.owner.token :=
  (present_or_gone (by have := finished_le D; omega)).resolve_right hgone

lemma Looks.next (hk : D.DoneKept) (hs : started ≤ D.finishedTurns) (h : Looks D started slot pc)
    (hr : D.readTurn slot pc = .inl pc') : Looks D started slot pc' := by
  refine ⟨h.listed, fun hslot hgone o ho => ?_, ?_⟩
  · rcases readTurn_reads hr ho with ho | ⟨e, he, rfl⟩
    · exact h.owner hslot hgone o ho
    · obtain ⟨e', he', hg⟩ := present_of_started hs hslot hgone
      rw [he] at he'
      cases he'
      exact hg
  · rintro hslot hgone o d rfl
    cases pc with
    | owner =>
      simp only [readTurn] at hr
      split at hr <;> cases hr
    | missing => cases hr
    | held o' d' => cases hr
    | done o' =>
      cases hr
      obtain ⟨e, he, hg⟩ := present_of_started hs hslot hgone
      have ho := h.owner hslot hgone o rfl
      rw [hg, Option.some.injEq] at ho
      rw [← ho]
      exact hasMarker_iff.mpr ⟨e, he, hk.marked he hg (lt_finished_iff.mp (by omega))⟩

lemma readTurn_slot (hr : D.readTurn slot pc = .inr (.turn t)) : t.slot = slot ∧ ∃ o, pc = .held o t.done := by
  cases pc with
  | owner =>
    simp only [readTurn] at hr
    split at hr <;> cases hr
  | missing =>
    simp only [readTurn, Sum.inr.injEq] at hr
    split at hr <;> cases hr
  | done o => cases hr
  | held o d =>
    cases hr
    exact ⟨rfl, o, rfl⟩

/-- What `acquireTurn` takes the turn it first found for. -/
def firstWaited (t : TurnState) : ℕ :=
  if t.done then t.slot + 1 else t.slot

lemma firstWaited_le (hD : D.Sound) (hg : t.Good D) : firstWaited t ≤ D.finishedTurns := by
  unfold firstWaited
  split
  · rename_i hdone
    obtain ⟨hlt, hover⟩ := hg.done hdone
    rcases hg.known.2 with (hf | ⟨hn, _⟩) | hgone
    · exact lt_finished_iff.mpr (hover hf)
    · omega
    · exact lt_finished_iff.mpr (.inl (gone_lt hD hgone))
  · cases hslot : t.slot with
    | zero => exact Nat.zero_le _
    | succ k =>
      have hfollows := hg.known.1
      rw [hslot] at hfollows
      obtain ⟨_, _, _, hover⟩ := hfollows
      exact lt_finished_iff.mpr hover

lemma Looks.lt_firstWaited (h : Looks D started slot pc) (hr : D.readTurn slot pc = .inr (.turn t)) {n : ℕ}
    (hn : n < started) (hs : started ≤ D.finishedTurns) (hD : D.Sound)
    (hgone : slot ≤ n → ¬ D.Gone slot) : n < firstWaited t := by
  obtain ⟨rfl, o, rfl⟩ := readTurn_slot hr
  unfold firstWaited
  rcases Nat.lt_trichotomy t.slot n with hlt | heq | hgt
  · -- a granted turn that is there keeps every later one there
    have hpresent := present_of_started hs (hlt.trans hn) (hgone hlt.le)
    have hkept : ∀ m, t.slot ≤ m → m < D.granted.length → D.Present m := by
      intro m hm
      induction m, hm using Nat.le_induction with
      | base => exact fun _ => hpresent
      | succ m hm ih => exact fun hlast => hD.suffix (ih (by omega)) hlast
    have hle := finished_le D
    exact ((h.listed n hn hlt).2 (hkept n hlt.le (by omega))).elim
  · subst heq
    rw [h.done hn (hgone (le_refl _)) o t.done rfl]
    exact Nat.lt_succ_self _
  · split <;> omega

end Found

/-- The call first looked before turn `n` was over, and took its own turn after it. -/
def ProfileCall.Overlapped (c : ProfileCall) (n : ℕ) : Prop :=
  ∃ t b, c.taken = some t ∧ c.lookedAt = some b ∧ b ≤ n ∧ n < t.turn.slot

/-- The section writes a store file next. -/
def CallPhase.writes : CallPhase → Bool
  | .working _ (.writingStore _) | .working _ (.writingMetadata _) => true
  | _ => false

section Invariant

variable {s s' : ProfileState} {x y first : ℕ} {c : ProfileCall}

def CallPhase.decided : CallPhase → Bool
  | .checking | .publishing | .working _ _ => true
  | _ => false

def CallPhase.entered : CallPhase → Bool
  | .publishing | .working _ _ | .over .returned => true
  | _ => false

def CallPhase.early : CallPhase → Bool
  | .entering | .acquiring => true
  | _ => false

/-- What the first turn of a call tells it about the recorded deletions. -/
structure Waits (s : ProfileState) (c : ProfileCall) (first : ℕ) : Prop where
  le : first ≤ s.finished
  overlap : ∀ b, c.lookedAt = some b → ∀ n ∈ s.deletions, b ≤ n → first ≤ n
  before : ∀ n ∈ s.deletions, n < c.startedAt → n < first

structure Acquiring (s : ProfileState) (c : ProfileCall) (a : Acquisition) : Prop where
  process : a.process = c.process
  looks : a.firstWaitedTurn = none → ∀ slot pc, a.phase = .reading .latest slot pc →
    Looks s.lock.directory c.startedAt slot pc
  unfound : a.firstWaitedTurn = none → ∀ b, c.lookedAt = some b → ∀ n ∈ s.deletions, b ≤ n → s.finished ≤ n
  found : ∀ first, a.firstWaitedTurn = some first → Waits s c first
  granted : ∀ turn, a.phase = .holding turn → ∀ n ∈ s.deletions, n < turn.slot

structure CallInv (s : ProfileState) (x : ℕ) (c : ProfileCall) : Prop where
  started : c.startedAt ≤ s.finished
  early : c.phase.early = true → c.taken = none
  unlooked : c.phase = .entering → c.lookedAt = none
  acquiring : c.phase = .acquiring → ∀ a, s.lock.acquisitions x = some a → Acquiring s c a
  holds : c.phase.holds = true → ∃ t a, c.taken = some t ∧ s.lock.acquisitions x = some a ∧
    a.process = c.process ∧ a.phase = .holding t.turn
  taken : ∀ t, c.taken = some t → t.turn.slot < s.lock.directory.granted.length
  waiting : c.phase = .requiring ∨ c.phase = .readingDeletion → ∀ t, c.taken = some t →
    Waits s c t.firstWaitedTurn ∧ ∀ n ∈ s.deletions, n < t.turn.slot
  decided : c.phase.decided = true → (∀ n ∈ s.deletions, c.Overlapped n → c.deletedWhileWaiting = true) ∧
    (c.deletedWhileWaiting = true → ∃ t n, c.taken = some t ∧ n ∈ s.deletions ∧ c.startedAt ≤ n ∧ n < t.turn.slot)
  unwritten : c.phase.entered = false → (∀ o, c.phase ≠ .over o) → c.wrote = []
  spared : ∀ n ∈ s.deletions, c.Overlapped n → c.sawProfile = false → c.phase.entered = false ∧ c.wrote = []
  guarded : c.phase.writes = true → c.deletedWhileWaiting = true → s.hasProfile = true
  refused : c.phase = .over .profileDeleted → c.requireProfile = false →
    ∃ t n, c.taken = some t ∧ n ∈ s.deletions ∧ c.startedAt ≤ n ∧ n < t.turn.slot

structure ProfileInv (s : ProfileState) : Prop where
  lock : LockInv s.lock
  kept : s.lock.directory.DoneKept
  deleted : ∀ n ∈ s.deletions, ∃ m, s.deleted = some m ∧ n ≤ m
  recorded : ∀ m, s.deleted = some m → m ∈ s.deletions
  deletions : ∀ n ∈ s.deletions, n < s.lock.directory.granted.length
  calls : ∀ x c, s.calls x = some c → CallInv s x c

/-- What a step leaves to a call that has not moved. -/
structure Beside (s s' : ProfileState) (y : ℕ) (c : ProfileCall) : Prop where
  holder : c.phase.holds = true → s'.lock.acquisitions y = s.lock.acquisitions y
  grows : s.lock.directory.Grows s'.lock.directory
  old : ∀ n ∈ s.deletions, n ∈ s'.deletions
  recorded : ∀ n ∈ s'.deletions, n ∈ s.deletions ∨ (s'.finished ≤ n ∧ s.lock.directory.granted.length ≤ n + 1 ∧
    ∀ a turn, s.lock.acquisitions y = some a → a.phase ≠ .holding turn)
  profile : c.phase.holds = true → s'.hasProfile = s.hasProfile

lemma CallPhase.writes_holds {p : CallPhase} (h : p.writes = true) : p.holds = true := by
  cases p with
  | working rest w => rfl
  | _ => cases h

lemma Waits.mono (h : Waits s c first) (hle : s.finished ≤ s'.finished) (hstart : c.startedAt ≤ s.finished)
    (hrec : ∀ n ∈ s'.deletions, n ∈ s.deletions ∨ s'.finished ≤ n) : Waits s' c first := by
  refine ⟨h.le.trans hle, fun b hb n hn hbn => ?_, fun n hn hlt => ?_⟩
  · rcases hrec n hn with hn | hn
    · exact h.overlap b hb n hn hbn
    · exact (h.le.trans hle).trans hn
  · rcases hrec n hn with hn | hn
    · exact h.before n hn hlt
    · omega

lemma Waits.congr {c' : ProfileCall} {t : ProfileState} (h : Waits s c first) (hfin : t.finished = s.finished)
    (hdel : t.deletions = s.deletions) (hlook : c'.lookedAt = c.lookedAt) (hstart : c'.startedAt = c.startedAt) :
    Waits t c' first := by
  refine ⟨hfin ▸ h.le, fun b hb n hn => ?_, fun n hn hlt => ?_⟩
  · exact h.overlap b (hlook ▸ hb) n (hdel ▸ hn)
  · exact h.before n (hdel ▸ hn) (hstart ▸ hlt)

lemma ProfileCall.Overlapped.lt {n : ℕ} (h : c.Overlapped n) : ∃ t, c.taken = some t ∧ n < t.turn.slot := by
  obtain ⟨t, _, ht, _, _, hlt⟩ := h
  exact ⟨t, ht, hlt⟩

lemma Beside.finished_le (hb : Beside s s' y c) : s.finished ≤ s'.finished :=
  finished_mono hb.grows

lemma Beside.recorded_or (hb : Beside s s' y c) : ∀ n ∈ s'.deletions, n ∈ s.deletions ∨ s'.finished ≤ n :=
  fun n hn => (hb.recorded n hn).imp id fun h => h.1

lemma Acquiring.beside {a : Acquisition} (h : Acquiring s c a) (hb : Beside s s' y c)
    (hsame : ∀ turn, a.phase = .holding turn → ∀ n ∈ s'.deletions, n ∈ s.deletions)
    (hstart : c.startedAt ≤ s.finished)
    (hmeets : a.firstWaitedTurn = none → c.lookedAt.isSome = true → ∀ n ∈ s.deletions, s.finished ≤ n →
      s'.finished ≤ n) : Acquiring s' c a := by
  refine ⟨h.process, fun hf slot pc hp => (h.looks hf slot pc hp).mono hb.grows, ?_,
    fun first hf => (h.found first hf).mono hb.finished_le hstart hb.recorded_or, ?_⟩
  · intro hf b hlook n hn hbn
    rcases hb.recorded_or n hn with hn | hn
    · exact hmeets hf (by rw [hlook]; rfl) n hn (h.unfound hf b hlook n hn hbn)
    · exact hn
  · exact fun turn hp n hn => h.granted turn hp n (hsame turn hp n hn)

lemma CallInv.beside (h : CallInv s y c) (hb : Beside s s' y c)
    (hacq : c.phase = .acquiring → ∀ a, s'.lock.acquisitions y = some a → Acquiring s' c a) : CallInv s' y c := by
  have hover : ∀ n ∈ s'.deletions, c.Overlapped n → n ∈ s.deletions := by
    intro n hn ho
    rcases hb.recorded n hn with hn | ⟨_, hlen, _⟩
    · exact hn
    · obtain ⟨t, ht, hlt⟩ := ho.lt
      have := h.taken t ht
      omega
  refine ⟨h.started.trans hb.finished_le, h.early, h.unlooked, hacq, ?_,
    fun t ht => (h.taken t ht).trans_le hb.grows.length, ?_, ?_,
    h.unwritten, fun n hn ho => h.spared n (hover n hn ho) ho, ?_, ?_⟩
  · intro hholds
    obtain ⟨t, a, ht, ha, hp⟩ := h.holds hholds
    exact ⟨t, a, ht, (hb.holder hholds).trans ha, hp⟩
  · intro hphase t ht
    obtain ⟨hwaits, hslot⟩ := h.waiting hphase t ht
    refine ⟨hwaits.mono hb.finished_le h.started hb.recorded_or, fun n hn => ?_⟩
    rcases hb.recorded n hn with hn | ⟨_, _, hnot⟩
    · exact hslot n hn
    · have hholds : c.phase.holds = true := by
        rcases hphase with hp | hp <;> rw [hp] <;> rfl
      obtain ⟨t', a, _, ha, _, hp⟩ := h.holds hholds
      exact (hnot a t'.turn ha hp).elim
  · intro hd
    obtain ⟨hall, hsome⟩ := h.decided hd
    refine ⟨fun n hn ho => hall n (hover n hn ho) ho, fun hw => ?_⟩
    obtain ⟨t, n, ht, hn, hlt⟩ := hsome hw
    exact ⟨t, n, ht, hb.old n hn, hlt⟩
  · intro hw hd
    rw [hb.profile (CallPhase.writes_holds hw)]
    exact h.guarded hw hd
  · intro hr hreq
    obtain ⟨t, n, ht, hn, hlt⟩ := h.refused hr hreq
    exact ⟨t, n, ht, hb.old n hn, hlt⟩

lemma ProfileInv.exclusive (hi : ProfileInv s) (hx : s.calls x = some c) (hc : c.phase.holds = true)
    (ha : ∃ a turn, s.lock.acquisitions y = some a ∧ a.phase = .holding turn) :
    x = y := by
  obtain ⟨t, a, _, hax, _, hp⟩ := (hi.calls x c hx).holds hc
  obtain ⟨b, turn, hay, hpb⟩ := ha
  exact hi.lock.holding_unique hax hay hp hpb

lemma CallInv.congr (h : CallInv s x c) (hlock : s'.lock = s.lock) (hdel : s'.deletions = s.deletions)
    (hfiles : s'.files = s.files) : CallInv s' x c := by
  obtain ⟨lock, files, deleted, deletions, calls⟩ := s
  obtain ⟨lock', files', deleted', deletions', calls'⟩ := s'
  obtain rfl : lock' = lock := hlock
  obtain rfl : deletions' = deletions := hdel
  obtain rfl : files' = files := hfiles
  have hacq : ∀ {a}, Acquiring ⟨lock', files', deleted, deletions', calls⟩ c a →
      Acquiring ⟨lock', files', deleted', deletions', calls'⟩ c a :=
    fun ha => ⟨ha.process, ha.looks, ha.unfound, fun f hf => (ha.found f hf).congr rfl rfl rfl rfl, ha.granted⟩
  refine ⟨h.started, h.early, h.unlooked, fun hp a ha => hacq (h.acquiring hp a ha), h.holds, h.taken,
    fun hp t ht => ?_, h.decided, h.unwritten, h.spared, h.guarded, h.refused⟩
  obtain ⟨hw, hslot⟩ := h.waiting hp t ht
  exact ⟨hw.congr rfl rfl rfl rfl, hslot⟩

lemma CallInv.observe (h : CallInv s x c) : CallInv s x (c.observe s) := by
  refine ⟨h.started, h.early, h.unlooked, fun hp a ha => ?_, h.holds, h.taken, fun hp t ht => ?_, h.decided,
    h.unwritten, fun n hn ho hs => ?_, h.guarded, h.refused⟩
  · have hacq := h.acquiring hp a ha
    exact ⟨hacq.process, hacq.looks, hacq.unfound, fun f hf => (hacq.found f hf).congr rfl rfl rfl rfl,
      hacq.granted⟩
  · obtain ⟨hw, hslot⟩ := h.waiting hp t ht
    exact ⟨hw.congr rfl rfl rfl rfl, hslot⟩
  · refine h.spared n hn ho ?_
    simp only [ProfileCall.observe, Bool.or_eq_false_iff] at hs
    exact hs.1

-- A call that ends otherwise than by returning.
lemma CallInv.over (h : CallInv s x c) {o : Outcome} (hne : o ≠ .returned)
    (hrefused : o = .profileDeleted → c.requireProfile = false →
      ∃ t n, c.taken = some t ∧ n ∈ s.deletions ∧ c.startedAt ≤ n ∧ n < t.turn.slot) :
    CallInv s x { c with phase := .over o } := by
  refine ⟨h.started, (fun hp => by cases hp), (fun hp => by cases hp), (fun hp => by cases hp),
    (fun hp => by cases hp), h.taken, (fun hp => by rcases hp with hp | hp <;> cases hp), (fun hp => by cases hp),
    fun _ hnot => (hnot o rfl).elim, ?_, (fun hp => by cases hp), ?_⟩
  · intro n hn ho hs
    refine ⟨?_, (h.spared n hn ho hs).2⟩
    cases o with
    | returned => exact (hne rfl).elim
    | _ => rfl
  · intro hp
    cases hp
    exact hrefused rfl

lemma callInv_early (hstart : c.startedAt ≤ s.finished) (hearly : c.phase.early = true) (htaken : c.taken = none)
    (hwrote : c.wrote = []) (hlook : c.phase = .entering → c.lookedAt = none)
    (hacq : c.phase = .acquiring → ∀ a, s.lock.acquisitions x = some a → Acquiring s c a) : CallInv s x c := by
  have hholds : ∀ {p : CallPhase}, p.early = true → p.holds = false ∧ p.decided = false ∧ p.entered = false ∧
      p.writes = false ∧ p ≠ .requiring ∧ p ≠ .readingDeletion ∧ p ≠ .over .profileDeleted := by
    intro p hp
    cases p with
    | entering => exact ⟨rfl, rfl, rfl, rfl, by simp, by simp, by simp⟩
    | acquiring => exact ⟨rfl, rfl, rfl, rfl, by simp, by simp, by simp⟩
    | _ => cases hp
  obtain ⟨h1, h2, h3, h4, h5, h6, h7⟩ := hholds hearly
  refine ⟨hstart, fun _ => htaken, hlook, hacq, ?_, ?_, fun hp => ?_, ?_, fun _ _ => hwrote, ?_, ?_, ?_⟩
  · rw [h1]
    exact fun h => by cases h
  · rw [htaken]
    exact fun _ h => by cases h
  · rcases hp with hp | hp
    · exact (h5 hp).elim
    · exact (h6 hp).elim
  · rw [h2]
    exact fun h => by cases h
  · rintro n _ ⟨t, _, ht, _⟩
    rw [htaken] at ht
    cases ht
  · rw [h4]
    exact fun h => by cases h
  · exact fun hp => (h7 hp).elim

end Invariant

end TinyCloud.Profile
