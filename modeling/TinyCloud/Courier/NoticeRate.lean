import Mathlib.Algebra.BigOperators.Group.Finset.Piecewise
import Mathlib.Algebra.GroupWithZero.Nat
import Mathlib.Algebra.Order.BigOperators.Group.Finset
import Mathlib.Data.List.Dedup
import TinyCloud.Runs.Machine

/-! The rolling-hour allowance of the watcher's notices and the share that is reserved for each paired peer. -/

namespace TinyCloud.Courier

open TinyCloud.Runs Finset

def NOTICES_PER_PEER_PER_HOUR : ℕ := 10

def NOTICES_PER_HOUR : ℕ := 10

def NOTICE_RESERVE_PER_PEER : ℕ := 3

def HOUR_MS : ℤ := 3600000

section Rate

structure NoticeLogs where
  noticeGlobalLog : List ℤ
  noticeLog : String → List ℤ

def recentAt (now : ℤ) (times : List ℤ) : List ℤ := times.filter fun t => now - t < HOUR_MS

/-- The paired handles together with the one that asks. -/
def sharers (paired : List String) (peer : String) : List String := (paired ++ [peer]).dedup

def noticeShare (peers : ℕ) : ℕ := min NOTICE_RESERVE_PER_PEER (NOTICES_PER_HOUR / peers)

def reservedForOthers (paired : List String) (logs : NoticeLogs) (peer : String) (now : ℤ) : ℕ :=
  let peers := sharers paired peer
  let share := noticeShare peers.length
  ((peers.filter (· ≠ peer)).map fun other => share - (recentAt now (logs.noticeLog other)).length).sum

/-- `Math.min(...times)` -/
def earliest (times : List ℤ) (default : ℤ) : ℤ := times.foldr min (times.headD default)

/-- Zero when an attempt may be made now. -/
def noticeRateDeadline (paired : List String) (logs : NoticeLogs) (peer : String) (now : ℤ) : ℤ :=
  let recent := recentAt now (logs.noticeLog peer)
  let all := recentAt now logs.noticeGlobalLog
  if recent.length < NOTICES_PER_PEER_PER_HOUR ∧
      all.length + reservedForOthers paired logs peer now < NOTICES_PER_HOUR then 0
  else max (if NOTICES_PER_PEER_PER_HOUR ≤ recent.length then earliest recent now + HOUR_MS else 0)
    (earliest all now + HOUR_MS)

/-- `runOutbox` notes an attempt before it makes it. -/
def NoticeLogs.record (logs : NoticeLogs) (peer : String) (now : ℤ) : NoticeLogs where
  noticeGlobalLog := recentAt now logs.noticeGlobalLog ++ [now]
  noticeLog := Function.update logs.noticeLog peer (recentAt now (logs.noticeLog peer) ++ [now])

/-- `pruneState` -/
def NoticeLogs.prune (logs : NoticeLogs) (now : ℤ) : NoticeLogs where
  noticeGlobalLog := recentAt now logs.noticeGlobalLog
  noticeLog peer := if (logs.noticeLog peer).any (fun t => now - t < HOUR_MS) then logs.noticeLog peer else []

end Rate

section Runs

/-- The logs, with every attempt they stand for. -/
structure Noted where
  logs : NoticeLogs
  attempts : List (String × ℤ)

/-- `sent` are the attempts that were made: those whose note was stored. -/
structure NoticeState where
  memory : Noted
  stored : Noted
  now : ℤ
  sent : List (String × ℤ)

/-- A change of the state that could not be stored is lost in the next restart. -/
inductive NoticeAction
  | wait (now : ℤ)
  | attempt (peer : String) (saved : Bool)
  | prune (saved : Bool)
  | save
  | restart

def NoticeState.keep (s : NoticeState) (memory : Noted) (saved : Bool) : NoticeState :=
  { s with
    memory := memory
    stored := if saved then memory else s.stored }

def Noted.record (m : Noted) (peer : String) (now : ℤ) : Noted :=
  ⟨m.logs.record peer now, m.attempts ++ [(peer, now)]⟩

def noticeStep (paired : List String) (s : NoticeState) : NoticeAction → Option NoticeState
  | .wait now => if s.now ≤ now then some { s with now := now } else none
  | .attempt peer saved =>
    if noticeRateDeadline paired s.memory.logs peer s.now = 0 then
      let s := { s with sent := if saved then s.sent ++ [(peer, s.now)] else s.sent }
      some (s.keep (s.memory.record peer s.now) saved)
    else none
  | .prune saved => some (s.keep { s.memory with logs := s.memory.logs.prune s.now } saved)
  | .save => some (s.keep s.memory true)
  | .restart => some { s with memory := s.stored }

def emptyNotes : Noted := ⟨⟨[], fun _ => []⟩, []⟩

/-- The times of all attempts, and those for one peer. -/
def Noted.times (m : Noted) : List ℤ := m.attempts.map Prod.snd

def Noted.timesOf (m : Noted) (peer : String) : List ℤ := (m.attempts.filter (·.1 = peer)).map Prod.snd

/-- The times in the hour that ends at `t`. -/
def inHour (t : ℤ) (times : List ℤ) : List ℤ := times.filter fun a => a ≤ t ∧ t - a < HOUR_MS

end Runs

section Recent

variable {t now : ℤ} {times : List ℤ} {n : ℕ}

@[simp] lemma recentAt_append (t : ℤ) (l r : List ℤ) : recentAt t (l ++ r) = recentAt t l ++ recentAt t r :=
  List.filter_append ..

lemma recentAt_recentAt (h : now ≤ t) (times : List ℤ) : recentAt t (recentAt now times) = recentAt t times := by
  unfold recentAt
  rw [List.filter_filter]
  apply List.filter_congr
  intro a _
  simp only [Bool.and_eq_left_iff_imp, decide_eq_true_eq]
  omega

lemma recentAt_now (now : ℤ) : recentAt now [now] = [now] := by
  simp [recentAt, HOUR_MS]

lemma length_recentAt_mono (h : now ≤ t) (times : List ℤ) :
    (recentAt t times).length ≤ (recentAt now times).length := by
  rw [← recentAt_recentAt h]
  exact List.length_filter_le ..

lemma earliest_pos {default : ℤ} (hd : 0 ≤ default) (h : ∀ a ∈ times, 0 ≤ a) : 0 ≤ earliest times default := by
  have hhead : 0 ≤ times.headD default := by
    cases times with
    | nil => exact hd
    | cons a times => exact h a List.mem_cons_self
  unfold earliest
  generalize times.headD default = head at hhead
  induction times with
  | nil => exact hhead
  | cons a times ih =>
    have hrest := ih fun b hb => h b (List.mem_cons_of_mem _ hb)
    exact le_min (h a List.mem_cons_self) hrest

/-- One more attempt keeps every hour within `n` when the last hour has room. -/
lemma inHour_append (hrate : ∀ t, (inHour t times).length ≤ n)
    (hroom : (recentAt now times).length < n) (t : ℤ) : (inHour t (times ++ [now])).length ≤ n := by
  unfold inHour at hrate ⊢
  rw [List.filter_append, List.length_append]
  by_cases ht : now ≤ t
  · have hold : (times.filter fun a => a ≤ t ∧ t - a < HOUR_MS).length ≤ (recentAt now times).length := by
      apply List.Sublist.length_le
      apply List.monotone_filter_right
      intro a ha
      simp only [decide_eq_true_eq] at ha ⊢
      omega
    have hone := List.length_filter_le (fun a => decide (a ≤ t ∧ t - a < HOUR_MS)) [now]
    rw [List.length_singleton] at hone
    omega
  · have hnone : ([now].filter fun a => decide (a ≤ t ∧ t - a < HOUR_MS)) = [] := by simp [ht]
    rw [hnone]
    exact hrate t

end Recent

section Admission

variable {paired : List String} {logs : NoticeLogs} {peer : String} {now : ℤ}

/-- What an admitted attempt found. -/
lemma admitted (hnow : 0 ≤ now) (hall : ∀ a ∈ logs.noticeGlobalLog, 0 ≤ a)
    (h : noticeRateDeadline paired logs peer now = 0) :
    (recentAt now (logs.noticeLog peer)).length < NOTICES_PER_PEER_PER_HOUR ∧
      (recentAt now logs.noticeGlobalLog).length + reservedForOthers paired logs peer now < NOTICES_PER_HOUR := by
  by_contra hno
  have hlate : 0 ≤ earliest (recentAt now logs.noticeGlobalLog) now :=
    earliest_pos hnow fun a ha => hall a (List.mem_of_mem_filter ha)
  unfold noticeRateDeadline at h
  simp only [if_neg hno] at h
  have hright := le_max_right (if NOTICES_PER_PEER_PER_HOUR ≤ (recentAt now (logs.noticeLog peer)).length
    then earliest (recentAt now (logs.noticeLog peer)) now + HOUR_MS else 0)
    (earliest (recentAt now logs.noticeGlobalLog) now + HOUR_MS)
  rw [h] at hright
  unfold HOUR_MS at hright
  omega

lemma sharers_of_mem (h : peer ∈ paired) : (sharers paired peer).toFinset = paired.toFinset := by
  ext other
  simp only [sharers, List.mem_toFinset, List.mem_dedup, List.mem_append, List.mem_singleton]
  constructor
  · rintro (ho | rfl)
    · exact ho
    · exact h
  · exact Or.inl

lemma sharers_length (h : peer ∈ paired) : (sharers paired peer).length = paired.dedup.length := by
  have hnodup : (sharers paired peer).Nodup := List.nodup_dedup _
  rw [← List.toFinset_card_of_nodup hnodup, sharers_of_mem h, List.card_toFinset]

lemma reservedForOthers_eq (h : peer ∈ paired) :
    reservedForOthers paired logs peer now =
      ∑ other ∈ paired.toFinset.erase peer,
        (noticeShare paired.dedup.length - (recentAt now (logs.noticeLog other)).length) := by
  have hnodup : ((sharers paired peer).filter (· ≠ peer)).Nodup := (List.nodup_dedup _).filter _
  have hset : ((sharers paired peer).filter (· ≠ peer)).toFinset = paired.toFinset.erase peer := by
    ext other
    rw [List.toFinset_filter, sharers_of_mem h]
    simp [and_comm]
  unfold reservedForOthers
  simp only [sharers_length h]
  rw [← hset, List.sum_toFinset _ hnodup]

end Admission

section Invariant

variable {paired : List String} {m : Noted} {now later : ℤ} {peer : String}

/-- The logs stand for the attempts, as far as any later look at them can tell. -/
structure Noted.Kept (m : Noted) (now : ℤ) : Prop where
  started : 0 ≤ now
  logged : ∀ a ∈ m.logs.noticeGlobalLog, 0 ≤ a
  all : ∀ t, now ≤ t → recentAt t m.logs.noticeGlobalLog = recentAt t m.times
  each : ∀ peer t, now ≤ t → recentAt t (m.logs.noticeLog peer) = recentAt t (m.timesOf peer)
  hourly : ∀ t, (inHour t m.times).length ≤ NOTICES_PER_HOUR
  hourlyOf : ∀ peer t, (inHour t (m.timesOf peer)).length ≤ NOTICES_PER_PEER_PER_HOUR

def Noted.count (m : Noted) (peer : String) (now : ℤ) : ℕ := (recentAt now (m.timesOf peer)).length

/-- Every paired peer has used its share or can still use it. -/
structure Noted.Shared (paired : List String) (m : Noted) (now : ℤ) : Prop where
  known : ∀ a ∈ m.attempts, a.1 ∈ paired
  room : ∑ peer ∈ paired.toFinset, max (noticeShare paired.dedup.length) (m.count peer now) ≤ NOTICES_PER_HOUR

lemma Noted.times_record (m : Noted) (peer : String) (now : ℤ) : (m.record peer now).times = m.times ++ [now] := by
  simp [Noted.times, Noted.record]

lemma Noted.timesOf_record (m : Noted) (peer other : String) (now : ℤ) :
    (m.record peer now).timesOf other = if other = peer then m.timesOf other ++ [now] else m.timesOf other := by
  by_cases h : other = peer
  · simp [Noted.timesOf, Noted.record, h]
  · simp [Noted.timesOf, Noted.record, h, Ne.symm h]

lemma Noted.Kept.empty (h : 0 ≤ now) : emptyNotes.Kept now where
  started := h
  logged _ ha := by cases ha
  all _ _ := rfl
  each _ _ _ := rfl
  hourly _ := Nat.zero_le _
  hourlyOf _ _ := Nat.zero_le _

lemma Noted.Kept.wait (h : m.Kept now) (hl : now ≤ later) : m.Kept later where
  started := h.started.trans hl
  logged := h.logged
  all t ht := h.all t (hl.trans ht)
  each peer t ht := h.each peer t (hl.trans ht)
  hourly := h.hourly
  hourlyOf := h.hourlyOf

lemma Noted.Kept.prune (h : m.Kept now) : Noted.Kept { m with logs := m.logs.prune now } now where
  started := h.started
  logged a ha := h.logged a (List.mem_of_mem_filter ha)
  all t ht := (recentAt_recentAt ht _).trans (h.all t ht)
  each peer t ht := by
    refine Eq.trans ?_ (h.each peer t ht)
    simp only [NoticeLogs.prune]
    split
    · rfl
    · rename_i hold
      symm
      apply List.filter_eq_nil_iff.mpr
      intro a ha hr
      simp only [decide_eq_true_eq] at hr
      simp only [List.any_eq_true, decide_eq_true_eq, not_exists, not_and] at hold
      exact hold a ha (by omega)
  hourly := h.hourly
  hourlyOf := h.hourlyOf

lemma Noted.Kept.record (h : m.Kept now) (ha : noticeRateDeadline paired m.logs peer now = 0) :
    (m.record peer now).Kept now := by
  obtain ⟨hown, hall⟩ := admitted h.started h.logged ha
  rw [h.each peer now le_rfl] at hown
  rw [h.all now le_rfl] at hall
  refine ⟨h.started, ?_, ?_, ?_, ?_, ?_⟩
  · intro a ha
    rcases List.mem_append.mp ha with ha | ha
    · exact h.logged a (List.mem_of_mem_filter ha)
    · rw [List.mem_singleton.mp ha]
      exact h.started
  · intro t ht
    rw [Noted.times_record]
    simp only [Noted.record, NoticeLogs.record, recentAt_append, recentAt_recentAt ht, h.all t ht]
  · intro other t ht
    rw [Noted.timesOf_record]
    by_cases ho : other = peer
    · simp [Noted.record, NoticeLogs.record, ho, recentAt_recentAt ht, h.each peer t ht]
    · simp [Noted.record, NoticeLogs.record, ho, h.each other t ht]
  · intro t
    rw [Noted.times_record]
    exact inHour_append h.hourly (Nat.lt_of_le_of_lt (Nat.le_add_right _ _) hall) t
  · intro other t
    rw [Noted.timesOf_record]
    split
    · rename_i ho
      subst ho
      exact inHour_append (h.hourlyOf other) hown t
    · exact h.hourlyOf other t

lemma Noted.Shared.wait (h : m.Shared paired now) (hl : now ≤ later) : m.Shared paired later where
  known := h.known
  room := by
    refine (Finset.sum_le_sum fun peer _ => ?_).trans h.room
    exact max_le_max le_rfl (length_recentAt_mono hl _)

/-- The attempts of all peers are those of the paired ones. -/
lemma Noted.Shared.total (h : ∀ a ∈ m.attempts, a.1 ∈ paired) :
    (recentAt now m.times).length = ∑ peer ∈ paired.toFinset, m.count peer now := by
  unfold Noted.times Noted.count Noted.timesOf
  generalize m.attempts = attempts at h
  induction attempts with
  | nil => simp [recentAt]
  | cons a attempts ih =>
    obtain ⟨peer, t⟩ := a
    have hp := h (peer, t) List.mem_cons_self
    have hrest := ih fun b hb => h b (List.mem_cons_of_mem _ hb)
    have hcons (l : List ℤ) : (recentAt now (t :: l)).length = (recentAt now [t]).length + (recentAt now l).length := by
      rw [← List.length_append, ← recentAt_append, List.singleton_append]
    have hsplit : ∀ other, (recentAt now (((((peer, t) :: attempts).filter (·.1 = other))).map Prod.snd)).length =
        (if other = peer then (recentAt now [t]).length else 0) +
          (recentAt now ((attempts.filter (·.1 = other)).map Prod.snd)).length := by
      intro other
      by_cases ho : other = peer
      · simp only [ho, List.filter_cons, decide_true, if_true, List.map_cons]
        exact hcons _
      · simp [ho, Ne.symm ho]
    rw [Finset.sum_congr rfl fun other _ => hsplit other, Finset.sum_add_distrib, ← hrest, Finset.sum_ite_eq',
      if_pos (List.mem_toFinset.mpr hp)]
    exact hcons _

/-- What is left for a peer: the others' attempts, and what they have not used of their shares. -/
lemma total_with_reserve (hk : m.Kept now) (hs : ∀ a ∈ m.attempts, a.1 ∈ paired) (hp : peer ∈ paired) :
    (recentAt now m.logs.noticeGlobalLog).length + reservedForOthers paired m.logs peer now =
      m.count peer now +
        ∑ other ∈ paired.toFinset.erase peer, max (noticeShare paired.dedup.length) (m.count other now) := by
  have heach : ∀ other, (recentAt now (m.logs.noticeLog other)).length = m.count other now :=
    fun other => congrArg List.length (hk.each other now le_rfl)
  rw [hk.all now le_rfl, Noted.Shared.total hs, reservedForOthers_eq hp]
  simp only [heach]
  rw [← Finset.add_sum_erase _ _ (List.mem_toFinset.mpr hp), Nat.add_assoc, ← Finset.sum_add_distrib]
  congr 1
  apply Finset.sum_congr rfl
  intro other _
  omega

lemma Noted.Shared.record (hk : m.Kept now) (h : m.Shared paired now) (hp : peer ∈ paired)
    (ha : noticeRateDeadline paired m.logs peer now = 0) : (m.record peer now).Shared paired now := by
  have hroom := (admitted hk.started hk.logged ha).2
  rw [total_with_reserve hk h.known hp] at hroom
  have hold := h.room
  rw [← Finset.add_sum_erase _ _ (List.mem_toFinset.mpr hp)] at hold
  have hcount : ∀ other, (m.record peer now).count other now =
      if other = peer then m.count other now + 1 else m.count other now := by
    intro other
    unfold Noted.count
    rw [Noted.timesOf_record]
    split
    · rw [recentAt_append, recentAt_now, List.length_append, List.length_singleton]
    · rfl
  refine ⟨?_, ?_⟩
  · intro a ha
    rcases List.mem_append.mp ha with ha | ha
    · exact h.known a ha
    · rw [List.mem_singleton.mp ha]
      exact hp
  · have hothers : ∑ other ∈ paired.toFinset.erase peer,
        max (noticeShare paired.dedup.length) ((m.record peer now).count other now) =
        ∑ other ∈ paired.toFinset.erase peer, max (noticeShare paired.dedup.length) (m.count other now) := by
      apply Finset.sum_congr rfl
      intro other ho
      rw [hcount, if_neg (Finset.ne_of_mem_erase ho)]
    rw [← Finset.add_sum_erase _ _ (List.mem_toFinset.mpr hp), hothers, hcount, if_pos rfl]
    omega

lemma noticeShare_mul_le (n : ℕ) : n * noticeShare n ≤ NOTICES_PER_HOUR := by
  have hle : noticeShare n ≤ NOTICES_PER_HOUR / n := min_le_right _ _
  exact (Nat.mul_le_mul_left n hle).trans (Nat.mul_div_le _ _)

lemma Noted.Shared.empty (paired : List String) (now : ℤ) : emptyNotes.Shared paired now where
  known _ ha := by cases ha
  room := by
    have hzero : ∀ peer, emptyNotes.count peer now = 0 := fun _ => rfl
    simp only [hzero, Nat.max_zero, Finset.sum_const, Nat.nsmul_eq_mul, List.card_toFinset]
    exact noticeShare_mul_le _

end Invariant

section Runs

variable {paired : List String} {s s' : NoticeState} {a : NoticeAction}

/-- Both copies of the notes stand for all attempts that were made. -/
structure NoticesKept (s : NoticeState) : Prop where
  memory : s.memory.Kept s.now
  stored : s.stored.Kept s.now
  known : s.sent.Sublist s.memory.attempts
  saved : s.sent.Sublist s.stored.attempts

lemma NoticesKept.keep {memory : Noted} (h : NoticesKept s) (hm : memory.Kept s.now)
    (hs : s.sent.Sublist memory.attempts) (saved : Bool) : NoticesKept (s.keep memory saved) := by
  cases saved with
  | false => exact ⟨hm, h.stored, hs, h.saved⟩
  | true => exact ⟨hm, hm, hs, hs⟩

lemma NoticesKept.step (h : NoticesKept s) (hs : noticeStep paired s a = some s') : NoticesKept s' := by
  cases a with
  | wait now =>
    simp only [noticeStep, Option.ite_none_right_eq_some, Option.some.injEq] at hs
    obtain ⟨hl, rfl⟩ := hs
    exact ⟨h.memory.wait hl, h.stored.wait hl, h.known, h.saved⟩
  | attempt peer saved =>
    simp only [noticeStep, Option.ite_none_right_eq_some, Option.some.injEq] at hs
    obtain ⟨ha, rfl⟩ := hs
    have hm := h.memory.record ha
    cases saved with
    | false => exact ⟨hm, h.stored, h.known.trans (List.sublist_append_left ..), h.saved⟩
    | true =>
      have hsent : (s.sent ++ [(peer, s.now)]).Sublist (s.memory.record peer s.now).attempts :=
        h.known.append (List.Sublist.refl _)
      exact ⟨hm, hm, hsent, hsent⟩
  | prune saved =>
    cases hs
    exact h.keep h.memory.prune h.known saved
  | save =>
    cases hs
    exact h.keep h.memory h.known true
  | restart =>
    cases hs
    exact ⟨h.stored, h.stored, h.saved, h.saved⟩

end Runs

end TinyCloud.Courier
