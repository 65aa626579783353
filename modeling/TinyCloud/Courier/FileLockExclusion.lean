import Mathlib.Tactic.SplitIfs
import TinyCloud.Courier.FileLock

/-! One holder of a courier lock at a time, and removals of nothing but what was observed, as long as
no dead guard is cleared under another breaker. -/

namespace TinyCloud.Courier

open Runs

def LockTask.run : LockTask → Option Break
  | .claiming b _ | .observing b _ | .judgingGuard b _ _ | .checking b _ | .breaking b _ _ => some b
  | .clearing b _ _ _ | .removing b _ _ _ _ _ | .leaving b _ _ | .removingOwn b _ _ => some b
  | _ => none

def LockTask.own : LockTask → Option ℕ
  | .checking _ own | .breaking _ own _ | .leaving _ own _ | .removingOwn _ own _ => some own
  | .clearing _ own _ _ | .removing _ own _ _ _ _ => own
  | _ => none

/-- The guards a breaker has read, until it starts to clear them. -/
def LockTask.marks : LockTask → List (ℕ × Body)
  | .claiming b _ | .observing b _ | .checking b _ | .breaking b _ _ => b.dead
  | .judgingGuard b k seen => b.dead ++ [(k, .record seen)]
  | _ => []

def LockTask.judged : LockTask → List (ℕ × Body)
  | .claiming b _ | .observing b _ | .checking b _ | .breaking b _ _ | .judgingGuard b _ _ => b.dead
  | .clearing _ _ rest _ => rest
  | .removing _ _ k text rest _ => (k, text) :: rest
  | _ => []

/-- How far a breaker has scanned the guards. -/
def LockTask.reach : LockTask → Option ℕ
  | .claiming _ k | .observing _ k | .judgingGuard _ k _ | .checking _ k | .breaking _ k _ => some k
  | _ => none

inductive Target
  | lock
  | guard (tag : String) (k : ℕ)
  deriving DecidableEq, Repr

def LockFiles.at (f : LockFiles) : Target → Option Body
  | .lock => f.lock
  | .guard tag k => f.guards tag k

/-- The file whose removal is the call's next step, and what the call observed there. -/
def LockCall.unlinks (c : LockCall) : Option (Target × Body) :=
  match c.task with
  | .breaking _ _ seen | .releaseRemoving seen | .undoRemoving seen => some (.lock, .record seen)
  | .removing b _ k text _ _ => some (.guard b.tag k, text)
  | .removingOwn b own _ => some (.guard b.tag own, .record c.self)
  | _ => none

def LockTask.holds : LockTask → Bool
  | .holding | .releasing | .releaseRemoving _ => true
  | _ => false

/-- The lock is the call's own. -/
def LockTask.isMine : LockTask → Bool
  | .holding | .releasing | .releaseRemoving _ | .undoRemoving _ => true
  | _ => false

def LockFiles.locked (f : LockFiles) (nonce : String) : Prop :=
  ∃ r, f.lock = some (.record r) ∧ r.nonce = nonce

/-- A guard is claimed only when no call stands between its read of an earlier guard of that name and
the removal; and while the lock still holds the record to break, a guard is removed only
when no other call that breaks it has read that guard. -/
def LockApart (s : LockState) : LockAction → Prop
  | .op x o => ∀ c, s.calls x = some c →
    (∀ b k, c.task = .claiming b k → o ≠ .failed → s.files.guards b.tag k = none → ∀ y d,
      s.calls y = some d → d.unlinks.map Prod.fst ≠ some (.guard b.tag k)) ∧
    (∀ b k, c.task.run = some b → c.unlinks.map Prod.fst = some (.guard b.tag k) →
      s.files.locked b.stale.nonce → ∀ y d b', y ≠ x → s.calls y = some d → d.task.run = some b' →
        b'.stale.nonce = b.stale.nonce → k ∉ d.task.marks.map Prod.fst)
  | _ => True

def LockFiles.Gone (f : LockFiles) (nonce : String) : Prop :=
  f.live nonce = false ∧ (f.named (breakTag nonce)).isSome = true

structure CallOk (f : LockFiles) (me : LockRecord) (task : LockTask) : Prop where
  stale : ∀ b, task.run = some b →
    f.live b.stale.nonce = false ∧ f.named b.tag = some b.stale.nonce
  judged : ∀ p ∈ task.judged, ∃ r, p.2 = .record r ∧ f.Gone r.nonce
  own : ∀ b k, task.run = some b → task.own = some k → f.guards b.tag k = some (.record me)
  marks : ∀ b, task.run = some b → f.locked b.stale.nonce → ∀ p ∈ task.marks, f.guards b.tag p.1 = some p.2
  reach : ∀ k, task.reach = some k → 1 ≤ k
  scanned : ∀ k, task.reach = some k → ∀ j, 1 ≤ j → j < k → j ∈ task.judged.map Prod.fst
  unlinks : ∀ t body, (LockCall.mk me task).unlinks = some (t, body) → f.at t = some body ∨
    f.at t = none ∧ ∃ tag k, t = .guard tag k
  seen : ∀ b k seen, task = .breaking b k seen → seen.nonce = b.stale.nonce
  judging : ∀ n seen, task = .judging n seen → f.named (breakTag seen.nonce) = some seen.nonce
  judgingGuard : ∀ b k seen, task = .judgingGuard b k seen → (f.named (breakTag seen.nonce)).isSome = true
  mine : task.isMine = true → f.locked me.nonce

structure LockInv (s : LockState) : Prop where
  live : ∀ {x c}, s.calls x = some c → s.files.live c.self.nonce = true
  unique : ∀ {x y c d}, s.calls x = some c → s.calls y = some d → c.self.nonce = d.self.nonce → x = y
  lockNamed : ∀ {r}, s.files.lock = some (.record r) → s.files.named (breakTag r.nonce) = some r.nonce
  guardNamed : ∀ {t k r}, s.files.guards t k = some (.record r) →
    (s.files.named (breakTag r.nonce)).isSome = true
  liveNamed : ∀ {n}, s.files.live n = true → s.files.named (breakTag n) = some n
  calls : ∀ {x c}, s.calls x = some c → CallOk s.files c.self c.task

variable {s t : LockState} {f f' : LockFiles} {me : LockRecord} {task : LockTask} {x y : ℕ} {c d : LockCall}

lemma LockState.Initial.inv (h : s.Initial) : LockInv s where
  live hx := by
    rw [h.calls] at hx
    cases hx
  unique hx := by
    rw [h.calls] at hx
    cases hx
  lockNamed hr := h.lock _ hr
  guardNamed hr := h.guards _ _ _ hr
  liveNamed hn := by
    rw [h.live] at hn
    cases hn
  calls hx := by
    rw [h.calls] at hx
    cases hx

lemma CallOk.breaking_locked {b : Break} {k : ℕ} {seen : LockRecord}
    (h : CallOk f me (.breaking b k seen)) : f.locked b.stale.nonce := by
  rcases h.unlinks .lock (.record seen) rfl with hl | ⟨-, _, _, he⟩
  · exact ⟨seen, hl, h.seen b k seen rfl⟩
  · cases he

section Unique

variable (hi : LockInv s) (hx : s.calls x = some c) (hy : s.calls y = some d)
include hi hx hy

lemma LockInv.own_inj {b b' : Break} {k : ℕ} (hb : c.task.run = some b) (hb' : d.task.run = some b')
    (htag : b.tag = b'.tag) (hk : c.task.own = some k) (hk' : d.task.own = some k) : x = y := by
  have h := (hi.calls hx).own b k hb hk
  have h' := (hi.calls hy).own b' k hb' hk'
  rw [htag, h', Option.some.injEq, Body.record.injEq] at h
  exact hi.unique hx hy (congrArg LockRecord.nonce h.symm)

-- A breaker passed over every lower guard, so the holder of one of them no longer runs.
lemma LockInv.not_lt_own {b b' : Break} {k k' : ℕ} (hb : c.task.run = some b) (hb' : d.task.run = some b')
    (hstale : b.stale.nonce = b'.stale.nonce) (hl : s.files.locked b.stale.nonce) (hk : c.task.own = some k)
    (hk' : d.task.reach = some k') (hpos : 1 ≤ k) (hjm : ∀ p ∈ d.task.judged, p ∈ d.task.marks) : ¬ k < k' := by
  intro hlt
  obtain ⟨p, hp, rfl⟩ := List.mem_map.mp ((hi.calls hy).scanned k' hk' k hpos hlt)
  have htag : b.tag = b'.tag := congrArg breakTag hstale
  have hm := (hi.calls hy).marks b' hb' (hstale ▸ hl) p (hjm p hp)
  have ho := (hi.calls hx).own b p.1 hb hk
  obtain ⟨r, hr, hgone⟩ := (hi.calls hy).judged p hp
  rw [htag, hm, hr, Option.some.injEq, Body.record.injEq] at ho
  have hlive := hi.live hx
  rw [← ho, hgone.1] at hlive
  cases hlive

lemma LockInv.isMine_inj (hc : c.task.isMine = true) (hd : d.task.isMine = true) : x = y := by
  obtain ⟨r, hr, hn⟩ := (hi.calls hx).mine hc
  obtain ⟨r', hr', hn'⟩ := (hi.calls hy).mine hd
  rw [hr, Option.some.injEq, Body.record.injEq] at hr'
  subst hr'
  exact hi.unique hx hy (hn.symm.trans hn')

lemma LockInv.breaking_not_mine {b : Break} {k : ℕ} {seen : LockRecord} (hc : c.task = .breaking b k seen)
    (hd : d.task.isMine = true) : False := by
  have hok := hi.calls hx
  rw [hc] at hok
  obtain ⟨r, hr, hn⟩ := hok.breaking_locked
  obtain ⟨r', hr', hn'⟩ := (hi.calls hy).mine hd
  rw [hr, Option.some.injEq, Body.record.injEq] at hr'
  subst hr'
  have hlive := hi.live hy
  rw [← hn', hn, (hok.stale b rfl).1] at hlive
  cases hlive

lemma LockInv.breaking_inj {b b' : Break} {k k' : ℕ} {seen seen' : LockRecord}
    (hc : c.task = .breaking b k seen) (hd : d.task = .breaking b' k' seen') : x = y := by
  have hok := hi.calls hx
  have hok' := hi.calls hy
  rw [hc] at hok
  rw [hd] at hok'
  have hl := hok.breaking_locked
  have hl' := hok'.breaking_locked
  have hstale : b.stale.nonce = b'.stale.nonce := by
    obtain ⟨r, hr, hn⟩ := hl
    obtain ⟨r', hr', hn'⟩ := hl'
    rw [hr, Option.some.injEq, Body.record.injEq] at hr'
    subst hr'
    exact hn.symm.trans hn'
  have hrun : c.task.run = some b := by rw [hc]; rfl
  have hrun' : d.task.run = some b' := by rw [hd]; rfl
  have hown : c.task.own = some k := by rw [hc]; rfl
  have hown' : d.task.own = some k' := by rw [hd]; rfl
  have hreach : c.task.reach = some k := by rw [hc]; rfl
  have hreach' : d.task.reach = some k' := by rw [hd]; rfl
  have hmarks : ∀ p ∈ c.task.judged, p ∈ c.task.marks := by rw [hc]; exact fun p hp => hp
  have hmarks' : ∀ p ∈ d.task.judged, p ∈ d.task.marks := by rw [hd]; exact fun p hp => hp
  have hlt := hi.not_lt_own hx hy hrun hrun' hstale hl hown hreach' (hok.reach k rfl) hmarks'
  have hlt' := hi.not_lt_own hy hx hrun' hrun hstale.symm hl' hown' hreach (hok'.reach k' rfl) hmarks
  have hk : k = k' := by omega
  exact hi.own_inj hx hy hrun hrun' (congrArg breakTag hstale) hown (hk ▸ hown')

/-- One call at most stands at the lock, to hold it or to remove it. -/
lemma LockInv.atLock_inj (hc : c.task.isMine = true ∨ ∃ b k seen, c.task = .breaking b k seen)
    (hd : d.task.isMine = true ∨ ∃ b k seen, d.task = .breaking b k seen) : x = y := by
  rcases hc with hc | ⟨b, k, seen, hc⟩ <;> rcases hd with hd | ⟨b', k', seen', hd⟩
  · exact hi.isMine_inj hx hy hc hd
  · exact (hi.breaking_not_mine hy hx hd hc).elim
  · exact (hi.breaking_not_mine hx hy hc hd).elim
  · exact hi.breaking_inj hx hy hc hd

end Unique

lemma atLock_of_unlinks {body : Body} (h : c.unlinks = some (.lock, body)) :
    c.task.isMine = true ∨ ∃ b k seen, c.task = .breaking b k seen := by
  unfold LockCall.unlinks at h
  split at h
  · rename_i b k seen hc
    exact .inr ⟨b, k, seen, hc⟩
  · rename_i seen hc
    rw [hc]
    exact .inl rfl
  · rename_i seen hc
    rw [hc]
    exact .inl rfl
  all_goals cases h

lemma CallOk.rename {live : String → Bool} {named : String → Option String} (h : CallOk f me task)
    (hdead : ∀ n m, f.named (breakTag n) = some m → f.live n = false → live n = false)
    (hkeep : ∀ n m, f.named n = some m → named n = some m) :
    CallOk { f with live := live, named := named } me task := by
  have hsome : ∀ n, (f.named n).isSome = true → (named n).isSome = true := by
    intro n hn
    obtain ⟨m, hm⟩ := Option.isSome_iff_exists.mp hn
    exact Option.isSome_of_eq_some (hkeep n m hm)
  refine ⟨fun b hb => ?_, fun p hp => ?_, h.own, h.marks, h.reach, h.scanned, h.unlinks, h.seen,
    fun n seen hd => hkeep _ _ (h.judging n seen hd), fun b k seen hd => hsome _ (h.judgingGuard b k seen hd),
    h.mine⟩
  · obtain ⟨hl, hn⟩ := h.stale b hb
    exact ⟨hdead _ _ hn hl, hkeep _ _ hn⟩
  · obtain ⟨r, hr, hl, hn⟩ := h.judged p hp
    obtain ⟨m, hm⟩ := Option.isSome_iff_exists.mp hn
    exact ⟨r, hr, hdead _ _ hm hl, hsome _ hn⟩

lemma CallOk.quiet (h : CallOk f me task) (n : String) :
    CallOk { f with live := Function.update f.live n false } me task := by
  refine h.rename (fun m _ _ hm => ?_) fun _ _ hn => hn
  rw [Function.update_apply]
  split_ifs
  · rfl
  · exact hm

lemma next_calls {after : Option LockTask} (h : (s.next x me f after).calls y = some d) :
    (y = x ∧ ∃ t, after = some t ∧ d = ⟨me, t⟩) ∨ (y ≠ x ∧ s.calls y = some d) := by
  simp only [LockState.next, Function.update_apply] at h
  split_ifs at h with hy
  · obtain ⟨t, ht, rfl⟩ := Option.map_eq_some_iff.mp h
    exact .inl ⟨hy, t, ht, rfl⟩
  · exact .inr ⟨hy, h⟩

lemma setGuard_guards (tag t : String) (k j : ℕ) (body : Option Body) :
    (f.setGuard tag k body).guards t j = if t = tag ∧ j = k then body else f.guards t j := by
  unfold LockFiles.setGuard
  by_cases ht : t = tag
  · subst ht
    by_cases hj : j = k
    · subst hj
      simp
    · simp [hj]
  · simp [ht]

lemma locked_setGuard {tag n : String} {k : ℕ} {body : Option Body} :
    (f.setGuard tag k body).locked n ↔ f.locked n := Iff.rfl

lemma setGuard_of_ne {tag t : String} {k j : ℕ} {body : Option Body} (h : ¬ (t = tag ∧ j = k)) :
    (f.setGuard tag k body).guards t j = f.guards t j := by
  rw [setGuard_guards, if_neg h]

lemma gone_setGuard {tag nonce : String} {k : ℕ} {body : Option Body} (h : f.Gone nonce) :
    (f.setGuard tag k body).Gone nonce :=
  ⟨h.1, h.2⟩

lemma setGuard_self {tag : String} {k : ℕ} {body : Option Body} : (f.setGuard tag k body).guards tag k = body := by
  rw [setGuard_guards, if_pos ⟨rfl, rfl⟩]

lemma CallOk.unlinks_body {tag : String} {k : ℕ} {body : Body} (h : CallOk f c.self c.task)
    (hu : c.unlinks = some (.guard tag k, body)) :
    body = .record c.self ∨ ∃ r, body = .record r ∧ f.Gone r.nonce := by
  rw [LockCall.unlinks] at hu
  cases ht : c.task with
  | removing b k' own text rest threw =>
    rw [ht] at hu h
    simp only [Option.some.injEq, Prod.mk.injEq] at hu
    rw [← hu.2]
    exact .inr (h.judged _ List.mem_cons_self)
  | removingOwn b own threw =>
    rw [ht] at hu
    simp only [Option.some.injEq, Prod.mk.injEq] at hu
    exact .inl hu.2.symm
  | _ =>
    rw [ht] at hu
    simp at hu

section Next

variable {after : Option LockTask} (hi : LockInv s) (hx : s.calls x = some c)
include hi hx

/-- A call moves on to `after`, and leaves the files `f`. -/
lemma LockInv.next (hlive : f.live = s.files.live) (hnamed : f.named = s.files.named)
    (hlock : ∀ r, f.lock = some (.record r) → f.named (breakTag r.nonce) = some r.nonce)
    (hguards : ∀ t k r, f.guards t k = some (.record r) → (f.named (breakTag r.nonce)).isSome = true)
    (hothers : ∀ y d, y ≠ x → s.calls y = some d → CallOk f d.self d.task)
    (hself : ∀ t, after = some t → CallOk f c.self t) : LockInv (s.next x c.self f after) := by
  have hcalls : ∀ {y d}, (s.next x c.self f after).calls y = some d → CallOk f d.self d.task := by
    intro y d hy
    rcases next_calls hy with ⟨-, t, ht, rfl⟩ | ⟨hne, hy⟩
    · exact hself t ht
    · exact hothers y d hne hy
  have hrunning : ∀ {y d}, (s.next x c.self f after).calls y = some d →
      ∃ d', s.calls y = some d' ∧ d'.self = d.self := by
    intro y d hy
    rcases next_calls hy with ⟨rfl, t, -, rfl⟩ | ⟨-, hy⟩
    · exact ⟨c, hx, rfl⟩
    · exact ⟨d, hy, rfl⟩
  have hunique : ∀ {y z d e}, (s.next x c.self f after).calls y = some d →
      (s.next x c.self f after).calls z = some e → d.self.nonce = e.self.nonce → y = z := by
    intro y z d e hy hz hn
    obtain ⟨d', hd', he⟩ := hrunning hy
    obtain ⟨e', he', he''⟩ := hrunning hz
    exact hi.unique hd' he' (by rw [he, he'', hn])
  have hold : ∀ {n}, f.live n = true → f.named (breakTag n) = some n := by
    intro n hn
    rw [hlive] at hn
    rw [hnamed]
    exact hi.liveNamed hn
  cases after with
  | some t =>
    refine ⟨fun hy => ?_, hunique, fun hr => hlock _ hr, fun hr => hguards _ _ _ hr, hold, hcalls⟩
    obtain ⟨d', hd', he⟩ := hrunning hy
    rw [← he]
    exact (congrFun hlive _).trans (hi.live hd')
  | none =>
    refine ⟨fun hy => ?_, hunique, fun hr => hlock _ hr, fun hr => hguards _ _ _ hr, fun hn => ?_,
      fun hy => (hcalls hy).quiet _⟩
    · rcases next_calls hy with ⟨-, t, ht, -⟩ | ⟨hne, hy⟩
      · cases ht
      · have hn : _ ≠ c.self.nonce := fun he => hne (hi.unique hy hx he)
        exact (Function.update_of_ne hn ..).trans ((congrFun hlive _).trans (hi.live hy))
    · simp only [LockState.next, Option.isNone_none, if_true, Function.update_apply] at hn
      split_ifs at hn
      exact hold hn

lemma LockInv.pass (hself : ∀ t, after = some t → CallOk s.files c.self t) :
    LockInv (s.next x c.self s.files after) :=
  hi.next hx rfl rfl (fun _ => hi.lockNamed) (fun _ _ _ => hi.guardNamed) (fun _ _ _ hy => hi.calls hy) hself

lemma LockInv.named : s.files.named (breakTag c.self.nonce) = some c.self.nonce :=
  hi.liveNamed (hi.live hx)

/-- The lock is created. -/
lemma LockInv.created (hfree : s.files.lock = none)
    (hself : ∀ t, after = some t → CallOk (s.files.setLock (some (.record c.self))) c.self t) :
    LockInv (s.next x c.self (s.files.setLock (some (.record c.self))) after) := by
  refine hi.next hx rfl rfl (fun r hr => ?_) (fun _ _ _ => hi.guardNamed) (fun y d hne hy => ?_) hself
  · cases hr
    exact hi.named hx
  · have hok := hi.calls hy
    have hfree' : ∀ n, ¬ s.files.locked n := by
      rintro n ⟨r, hr, -⟩
      rw [hfree] at hr
      cases hr
    refine ⟨hok.stale, hok.judged, hok.own, fun b hb hl => ?_, hok.reach, hok.scanned, fun t body ht => ?_,
      hok.seen, hok.judging, hok.judgingGuard, fun hm => (hfree' _ (hok.mine hm)).elim⟩
    · obtain ⟨r, hr, hn⟩ := hl
      cases hr
      have hlive := hi.live hx
      rw [hn, (hok.stale b hb).1] at hlive
      cases hlive
    · cases t with
      | guard tag k => exact hok.unlinks _ body ht
      | lock =>
        rcases hok.unlinks _ body ht with h | ⟨-, _, _, he⟩
        · have h : s.files.lock = some body := h
          rw [hfree] at h
          cases h
        · cases he

/-- The lock is removed by the call that stands at it. -/
lemma LockInv.unlocked {body : Body} (hu : c.unlinks = some (.lock, body))
    (hself : ∀ t, after = some t → CallOk (s.files.setLock none) c.self t) :
    LockInv (s.next x c.self (s.files.setLock none) after) := by
  refine hi.next hx rfl rfl (fun r hr => by cases hr) (fun _ _ _ => hi.guardNamed) (fun y d hne hy => ?_) hself
  have hok := hi.calls hy
  have hapart : ¬ (d.task.isMine = true ∨ ∃ b k seen, d.task = .breaking b k seen) := fun hd =>
    hne (hi.atLock_inj hy hx hd (atLock_of_unlinks hu))
  refine ⟨hok.stale, hok.judged, hok.own, fun b hb hl => ?_, hok.reach, hok.scanned, fun t body ht => ?_,
    hok.seen, hok.judging, hok.judgingGuard, fun hm => (hapart (.inl hm)).elim⟩
  · obtain ⟨r, hr, -⟩ := hl
    cases hr
  · cases t with
    | guard tag k => exact hok.unlinks _ body ht
    | lock => exact (hapart (atLock_of_unlinks ht)).elim

/-- A free guard is claimed. -/
lemma LockInv.claimed {tag : String} {k : ℕ} (hfree : s.files.guards tag k = none)
    (hapart : ∀ y d, s.calls y = some d → d.unlinks.map Prod.fst ≠ some (.guard tag k))
    (hself : ∀ t, after = some t → CallOk (s.files.setGuard tag k (some (.record c.self))) c.self t) :
    LockInv (s.next x c.self (s.files.setGuard tag k (some (.record c.self))) after) := by
  have hkeep : ∀ {t j body}, s.files.guards t j = some body →
      (s.files.setGuard tag k (some (.record c.self))).guards t j = some body := by
    intro t j body h
    apply (setGuard_of_ne ?_).trans h
    rintro ⟨rfl, rfl⟩
    rw [hfree] at h
    cases h
  refine hi.next hx rfl rfl (fun _ => hi.lockNamed) (fun t j r hr => ?_) (fun y d hne hy => ?_) hself
  · rw [setGuard_guards] at hr
    split_ifs at hr
    · cases hr
      exact Option.isSome_of_eq_some (hi.named hx)
    · exact hi.guardNamed hr
  · have hok := hi.calls hy
    refine ⟨hok.stale, hok.judged, fun b j hb hj => hkeep (hok.own b j hb hj),
      fun b hb hl p hp => hkeep (hok.marks b hb hl p hp), hok.reach, hok.scanned, fun t body ht => ?_,
      hok.seen, hok.judging, hok.judgingGuard, hok.mine⟩
    cases t with
    | lock => exact hok.unlinks _ body ht
    | guard t j =>
      have hne : ¬ (t = tag ∧ j = k) := by
        rintro ⟨rfl, rfl⟩
        apply hapart y d hy
        rw [ht]
        rfl
      rw [LockFiles.at, setGuard_of_ne hne]
      exact hok.unlinks _ body ht

/-- A guard is removed by a call that stands at it. -/
lemma LockInv.unguarded {tag : String} {k : ℕ} {body : Body} (hu : c.unlinks = some (.guard tag k, body))
    (hapart : ∀ y d b, y ≠ x → s.calls y = some d → d.task.run = some b → b.tag = tag →
      s.files.locked b.stale.nonce → k ∉ d.task.marks.map Prod.fst)
    (hself : ∀ t, after = some t → CallOk (s.files.setGuard tag k none) c.self t) :
    LockInv (s.next x c.self (s.files.setGuard tag k none) after) := by
  refine hi.next hx rfl rfl (fun _ => hi.lockNamed) (fun t j r hr => ?_) (fun y d hne hy => ?_) hself
  · rw [setGuard_guards] at hr
    split_ifs at hr
    exact hi.guardNamed hr
  · have hok := hi.calls hy
    refine ⟨hok.stale, hok.judged, fun b j hb hj => ?_, fun b hb hl p hp => ?_, hok.reach, hok.scanned,
      fun t body' ht => ?_, hok.seen, hok.judging, hok.judgingGuard, hok.mine⟩
    · have hown := hok.own b j hb hj
      apply (setGuard_of_ne ?_).trans hown
      -- the guard removed is the call's own, or its writer no longer runs
      rintro ⟨htag, rfl⟩
      rw [htag] at hown
      rcases (hi.calls hx).unlinks _ body hu with h | ⟨h, -⟩
      · have h : s.files.guards tag j = some body := h
        rw [hown, Option.some.injEq] at h
        rcases (hi.calls hx).unlinks_body hu with he | ⟨r, he, hgone⟩
        · rw [← h, Body.record.injEq] at he
          exact hne (hi.unique hy hx (congrArg LockRecord.nonce he))
        · rw [← h, Body.record.injEq] at he
          have hlive := hi.live hy
          rw [he, hgone.1] at hlive
          cases hlive
      · have h : s.files.guards tag j = none := h
        rw [hown] at h
        cases h
    · apply (setGuard_of_ne ?_).trans (hok.marks b hb hl p hp)
      rintro ⟨htag, hk⟩
      exact hapart y d b hne hy hb htag hl (List.mem_map.mpr ⟨p, hp, hk⟩)
    · cases t with
      | lock => exact hok.unlinks _ body' ht
      | guard t j =>
        rw [LockFiles.at, setGuard_guards]
        split_ifs
        · exact .inr ⟨rfl, t, j, rfl⟩
        · exact hok.unlinks _ body' ht

end Next

section Tasks

variable {b : Break} {k : ℕ} {own : Option ℕ} {rest : List (ℕ × Body)}

/-- What a breaker that scans the guards, or stands between them and the lock, relies on. -/
structure ScanOk (f : LockFiles) (b : Break) (k : ℕ) : Prop where
  stale : f.live b.stale.nonce = false ∧ f.named b.tag = some b.stale.nonce
  judged : ∀ p ∈ b.dead, ∃ r, p.2 = .record r ∧ f.Gone r.nonce
  marks : f.locked b.stale.nonce → ∀ p ∈ b.dead, f.guards b.tag p.1 = some p.2
  reach : 1 ≤ k
  scanned : ∀ j, 1 ≤ j → j < k → j ∈ b.dead.map Prod.fst

structure ClearOk (f : LockFiles) (me : LockRecord) (b : Break) (own : Option ℕ) (rest : List (ℕ × Body)) :
    Prop where
  stale : f.live b.stale.nonce = false ∧ f.named b.tag = some b.stale.nonce
  judged : ∀ p ∈ rest, ∃ r, p.2 = .record r ∧ f.Gone r.nonce
  own : ∀ k, own = some k → f.guards b.tag k = some (.record me)

lemma CallOk.scan (h : CallOk f me task) (hrun : task.run = some b) (hreach : task.reach = some k)
    (hjudged : task.judged = b.dead) (hmarks : ∀ p ∈ b.dead, p ∈ task.marks) : ScanOk f b k := by
  refine ⟨h.stale b hrun, ?_, fun hl p hp => h.marks b hrun hl p (hmarks p hp), h.reach k hreach, ?_⟩
  · rw [← hjudged]
    exact h.judged
  · rw [← hjudged]
    exact h.scanned k hreach

lemma CallOk.clear (h : CallOk f me task) (hrun : task.run = some b) (hown : task.own = own)
    (hrest : ∀ p ∈ rest, p ∈ task.judged) : ClearOk f me b own rest :=
  ⟨h.stale b hrun, fun p hp => h.judged p (hrest p hp), fun k hk => h.own b k hrun (hown.trans hk)⟩

lemma callOk_reading (n : ℕ) : CallOk f me (.reading n) :=
  ⟨nofun, nofun, nofun, nofun, nofun, nofun, nofun, nofun, nofun, nofun, nofun⟩

lemma callOk_creating (n : ℕ) : CallOk f me (.creating n) :=
  ⟨nofun, nofun, nofun, nofun, nofun, nofun, nofun, nofun, nofun, nofun, nofun⟩

lemma callOk_rereading (n : ℕ) : CallOk f me (.rereading n) :=
  ⟨nofun, nofun, nofun, nofun, nofun, nofun, nofun, nofun, nofun, nofun, nofun⟩

lemma callOk_undoing : CallOk f me .undoing :=
  ⟨nofun, nofun, nofun, nofun, nofun, nofun, nofun, nofun, nofun, nofun, nofun⟩

lemma callOk_holding (h : f.locked me.nonce) : CallOk f me .holding :=
  ⟨nofun, nofun, nofun, nofun, nofun, nofun, nofun, nofun, nofun, nofun, fun _ => h⟩

lemma callOk_releasing (h : f.locked me.nonce) : CallOk f me .releasing :=
  ⟨nofun, nofun, nofun, nofun, nofun, nofun, nofun, nofun, nofun, nofun, fun _ => h⟩

lemma callOk_retry {n : ℕ} (h : retry n = some task) : CallOk f me task := by
  unfold retry at h
  split_ifs at h
  cases h
  exact callOk_reading _

lemma callOk_finishBreak {threw : Bool} (h : finishBreak b threw = some task) : CallOk f me task := by
  unfold finishBreak at h
  split_ifs at h
  exact callOk_retry h

lemma callOk_judging {n : ℕ} {seen : LockRecord} (h : f.named (breakTag seen.nonce) = some seen.nonce) :
    CallOk f me (.judging n seen) := by
  refine ⟨nofun, nofun, nofun, nofun, nofun, nofun, nofun, nofun, fun n' seen' he => ?_, nofun, nofun⟩
  cases he
  exact h

lemma callOk_releaseRemoving {seen : LockRecord} (hl : f.lock = some (.record seen))
    (hn : seen.nonce = me.nonce) : CallOk f me (.releaseRemoving seen) := by
  refine ⟨nofun, nofun, nofun, nofun, nofun, nofun, fun t body ht => ?_, nofun, nofun, nofun,
    fun _ => ⟨seen, hl, hn⟩⟩
  cases ht
  exact .inl hl

lemma callOk_undoRemoving {seen : LockRecord} (hl : f.lock = some (.record seen))
    (hn : seen.nonce = me.nonce) : CallOk f me (.undoRemoving seen) := by
  refine ⟨nofun, nofun, nofun, nofun, nofun, nofun, fun t body ht => ?_, nofun, nofun, nofun,
    fun _ => ⟨seen, hl, hn⟩⟩
  cases ht
  exact .inl hl

lemma ScanOk.claiming (h : ScanOk f b k) : CallOk f me (.claiming b k) := by
  refine ⟨fun b' hb => ?_, h.judged, nofun, fun b' hb => ?_, fun k' hk => ?_, fun k' hk => ?_, nofun, nofun,
    nofun, nofun, nofun⟩
  · cases hb
    exact h.stale
  · cases hb
    exact h.marks
  · cases hk
    exact h.reach
  · cases hk
    exact h.scanned

lemma ScanOk.observing (h : ScanOk f b k) : CallOk f me (.observing b k) := by
  refine ⟨fun b' hb => ?_, h.judged, nofun, fun b' hb => ?_, fun k' hk => ?_, fun k' hk => ?_, nofun, nofun,
    nofun, nofun, nofun⟩
  · cases hb
    exact h.stale
  · cases hb
    exact h.marks
  · cases hk
    exact h.reach
  · cases hk
    exact h.scanned

lemma ScanOk.judgingGuard {seen : LockRecord} (h : ScanOk f b k) (hs : f.guards b.tag k = some (.record seen))
    (hn : (f.named (breakTag seen.nonce)).isSome = true) : CallOk f me (.judgingGuard b k seen) := by
  refine ⟨fun b' hb => ?_, h.judged, nofun, fun b' hb hl p hp => ?_, fun k' hk => ?_, fun k' hk => ?_, nofun,
    nofun, nofun, fun b' k' seen' he => ?_, nofun⟩
  · cases hb
    exact h.stale
  · cases hb
    rcases List.mem_append.mp hp with hp | hp
    · exact h.marks hl p hp
    · rw [List.mem_singleton.mp hp]
      exact hs
  · cases hk
    exact h.reach
  · cases hk
    exact h.scanned
  · cases he
    exact hn

/-- A guard found dead is passed over. -/
lemma CallOk.judged_dead {seen : LockRecord} (h : CallOk f me (.judgingGuard b k seen))
    (hdead : f.live seen.nonce = false) :
    ScanOk f { b with dead := b.dead ++ [(k, .record seen)] } (k + 1) := by
  refine ⟨h.stale b rfl, fun p hp => ?_, h.marks b rfl, by omega, fun j hj hlt => ?_⟩
  · rcases List.mem_append.mp hp with hp | hp
    · exact h.judged p hp
    · rw [List.mem_singleton.mp hp]
      exact ⟨seen, rfl, hdead, h.judgingGuard b k seen rfl⟩
  · rw [List.map_append, List.mem_append]
    by_cases hjk : j = k
    · exact .inr (by rw [hjk]; exact List.mem_singleton.mpr rfl)
    · exact .inl (h.scanned k rfl j hj (by omega))

lemma ScanOk.checking (h : ScanOk f b k) (ho : f.guards b.tag k = some (.record me)) :
    CallOk f me (.checking b k) := by
  refine ⟨fun b' hb => ?_, h.judged, fun b' k' hb hk => ?_, fun b' hb => ?_, fun k' hk => ?_, fun k' hk => ?_,
    nofun, nofun, nofun, nofun, nofun⟩
  · cases hb
    exact h.stale
  · cases hb
    cases hk
    exact ho
  · cases hb
    exact h.marks
  · cases hk
    exact h.reach
  · cases hk
    exact h.scanned

lemma ScanOk.breaking {seen : LockRecord} (h : ScanOk f b k) (ho : f.guards b.tag k = some (.record me))
    (hl : f.lock = some (.record seen)) (hn : seen.nonce = b.stale.nonce) :
    CallOk f me (.breaking b k seen) := by
  refine ⟨fun b' hb => ?_, h.judged, fun b' k' hb hk => ?_, fun b' hb => ?_, fun k' hk => ?_, fun k' hk => ?_,
    fun t body ht => ?_, fun b' k' seen' he => ?_, nofun, nofun, nofun⟩
  · cases hb
    exact h.stale
  · cases hb
    cases hk
    exact ho
  · cases hb
    exact h.marks
  · cases hk
    exact h.reach
  · cases hk
    exact h.scanned
  · cases ht
    exact .inl hl
  · cases he
    exact hn

lemma ClearOk.clearing (h : ClearOk f me b own rest) (threw : Bool) :
    CallOk f me (.clearing b own rest threw) := by
  refine ⟨fun b' hb => ?_, h.judged, fun b' k' hb hk => ?_, fun _ _ _ => nofun, nofun, nofun, nofun, nofun,
    nofun, nofun, nofun⟩
  · cases hb
    exact h.stale
  · cases hb
    exact h.own k' hk

lemma ClearOk.removing {text : Body} (h : ClearOk f me b own ((k, text) :: rest)) (threw : Bool)
    (hg : f.guards b.tag k = some text) : CallOk f me (.removing b own k text rest threw) := by
  refine ⟨fun b' hb => ?_, h.judged, fun b' k' hb hk => ?_, fun _ _ _ => nofun, nofun, nofun,
    fun t body ht => ?_, nofun, nofun, nofun, nofun⟩
  · cases hb
    exact h.stale
  · cases hb
    exact h.own k' hk
  · cases ht
    exact .inl hg

lemma ClearOk.leaving (h : ClearOk f me b (some k) rest) (threw : Bool) : CallOk f me (.leaving b k threw) := by
  refine ⟨fun b' hb => ?_, nofun, fun b' k' hb hk => ?_, fun _ _ _ => nofun, nofun, nofun, nofun, nofun,
    nofun, nofun, nofun⟩
  · cases hb
    exact h.stale
  · cases hb
    exact h.own k' hk

lemma ClearOk.removingOwn (h : ClearOk f me b (some k) rest) (threw : Bool) :
    CallOk f me (.removingOwn b k threw) := by
  refine ⟨fun b' hb => ?_, nofun, fun b' k' hb hk => ?_, fun _ _ _ => nofun, nofun, nofun,
    fun t body ht => ?_, nofun, nofun, nofun, nofun⟩
  · cases hb
    exact h.stale
  · cases hb
    exact h.own k' hk
  · cases ht
    exact .inl (h.own k rfl)

end Tasks

lemma ScanOk.claimed {b : Break} {k : ℕ} {body : Body} (h : ScanOk f b k) (hfree : f.guards b.tag k = none) :
    ScanOk (f.setGuard b.tag k (some body)) b k := by
  refine ⟨h.stale, fun p hp => ?_, fun hl p hp => ?_, h.reach, h.scanned⟩
  · obtain ⟨r, hr, hgone⟩ := h.judged p hp
    exact ⟨r, hr, gone_setGuard hgone⟩
  have hm := h.marks (locked_setGuard.mp hl) p hp
  have hne : ¬ (b.tag = b.tag ∧ p.1 = k) := by
    rintro ⟨-, hk⟩
    rw [hk, hfree] at hm
    cases hm
  exact (setGuard_of_ne hne).trans hm

lemma ClearOk.unguarded {b : Break} {own : Option ℕ} {rest : List (ℕ × Body)} {k : ℕ} {body : Option Body}
    (h : ClearOk f me b own rest) (hk : ∀ j, own = some j → j ≠ k) :
    ClearOk (f.setGuard b.tag k body) me b own rest := by
  refine ⟨h.stale, fun p hp => ?_, fun j hj => ?_⟩
  · obtain ⟨r, hr, hgone⟩ := h.judged p hp
    exact ⟨r, hr, gone_setGuard hgone⟩
  · rw [setGuard_of_ne fun he => hk j hj he.2]
    exact h.own j hj

/-- The guard a breaker clears is not its own, whose writer runs. -/
lemma CallOk.own_ne_removed {b : Break} {own : Option ℕ} {k j : ℕ} {text : Body} {rest : List (ℕ × Body)}
    {threw : Bool} (h : CallOk f me (.removing b own k text rest threw)) (hlive : f.live me.nonce = true)
    (hj : own = some j) : j ≠ k := by
  intro he
  have hown := h.own b j rfl hj
  obtain ⟨r, hr, hgone⟩ := h.judged (k, text) List.mem_cons_self
  have hat := h.unlinks (.guard b.tag k) text rfl
  rw [LockFiles.at, ← he, hown] at hat
  rcases hat with hat | ⟨hat, -⟩
  · rw [Option.some.injEq] at hat
    rw [← hat, Body.record.injEq] at hr
    rw [hr, hgone.1] at hlive
    cases hlive
  · cases hat

section Steps

variable {o : Outcome} {after : Option LockTask}

lemma LockInv.started {named : String → Option String} (hi : LockInv s)
    (hfresh : s.files.named (breakTag me.nonce) = none) (hnew : named (breakTag me.nonce) = some me.nonce)
    (hkeep : ∀ n m, s.files.named n = some m → named n = some m) :
    LockInv ⟨{ s.files with live := Function.update s.files.live me.nonce true, named := named },
      Function.update s.calls x (some ⟨me, .reading 0⟩)⟩ := by
  have hne : ∀ {n m}, s.files.named (breakTag n) = some m → n ≠ me.nonce := by
    rintro n m hn rfl
    rw [hfresh] at hn
    cases hn
  have hcalls : ∀ {y d}, Function.update s.calls x (some (LockCall.mk me (.reading 0))) y = some d →
      (y = x ∧ d = ⟨me, .reading 0⟩) ∨ s.calls y = some d := by
    intro y d hy
    rw [Function.update_apply] at hy
    split_ifs at hy with hyx
    · cases hy
      exact .inl ⟨hyx, rfl⟩
    · exact .inr hy
  have hother : ∀ {y d}, s.calls y = some d → d.self.nonce ≠ me.nonce := fun hy =>
    hne (hi.liveNamed (hi.live hy))
  refine ⟨fun hy => ?_, fun hy hz hn => ?_, fun hr => hkeep _ _ (hi.lockNamed hr), fun hr => ?_, fun hn => ?_,
    fun hy => ?_⟩
  · rcases hcalls hy with ⟨-, rfl⟩ | hy
    · exact Function.update_self ..
    · exact (Function.update_of_ne (hother hy) ..).trans (hi.live hy)
  · rcases hcalls hy with ⟨hyx, rfl⟩ | hy <;> rcases hcalls hz with ⟨hzx, rfl⟩ | hz
    · exact hyx.trans hzx.symm
    · exact (hother hz hn.symm).elim
    · exact (hother hy hn).elim
    · exact hi.unique hy hz hn
  · obtain ⟨m, hm⟩ := Option.isSome_iff_exists.mp (hi.guardNamed hr)
    exact Option.isSome_of_eq_some (hkeep _ _ hm)
  · simp only [Function.update_apply] at hn
    split_ifs at hn with hnm
    · rw [hnm]
      exact hnew
    · exact hkeep _ _ (hi.liveNamed hn)
  · rcases hcalls hy with ⟨-, rfl⟩ | hy
    · exact callOk_reading 0
    · refine (hi.calls hy).rename (fun n m hn hl => ?_) hkeep
      rw [Function.update_of_ne (hne hn)]
      exact hl

lemma update_of_none {named : String → Option String} {tag v n m : String} (htag : named tag = none)
    (h : named n = some m) : Function.update named tag (some v) n = some m := by
  have hn : n ≠ tag := by
    rintro rfl
    rw [htag] at h
    cases h
  rw [Function.update_of_ne hn]
  exact h

lemma LockInv.start (hi : LockInv s) (h : lockStep s (.start x me) = some t) : LockInv t := by
  simp only [lockStep, Option.ite_none_left_eq_some, Bool.or_eq_true, not_or, Bool.not_eq_true,
    Option.isSome_eq_false_iff, Option.isNone_iff_eq_none, Option.some.injEq] at h
  obtain ⟨⟨-, hfresh⟩, rfl⟩ := h
  exact hi.started hfresh (Function.update_self ..) fun n m hn => update_of_none hfresh hn

lemma LockInv.apart_of {b : Break} {k : ℕ} (hi : LockInv s) (hx : s.calls x = some c)
    (hb : c.task.run = some b)
    (h : s.files.locked b.stale.nonce → ∀ y d b', y ≠ x → s.calls y = some d → d.task.run = some b' →
      b'.stale.nonce = b.stale.nonce → k ∉ d.task.marks.map Prod.fst)
    (y : ℕ) (d : LockCall) (b' : Break) (hne : y ≠ x) (hy : s.calls y = some d) (hb' : d.task.run = some b')
    (htag : b'.tag = b.tag) (hl : s.files.locked b'.stale.nonce) : k ∉ d.task.marks.map Prod.fst := by
  have hn := ((hi.calls hx).stale b hb).2
  have hn' := ((hi.calls hy).stale b' hb').2
  rw [htag, hn, Option.some.injEq] at hn'
  exact h (hn' ▸ hl) y d b' hne hy hb' hn'.symm

lemma some_inj {task' : LockTask} (h : CallOk f me task') : ∀ t, some task' = some t → CallOk f me t := by
  intro t ht
  cases ht
  exact h

lemma LockInv.op (hi : LockInv s) (hx : s.calls x = some c) (hg : LockApart s (.op x o)) :
    LockInv (s.next x c.self (lockOp s.files c.self c.task o).1 (lockOp s.files c.self c.task o).2) := by
  have hok := hi.calls hx
  obtain ⟨hclaim, hremove⟩ := hg c hx
  generalize htask : c.task = task at *
  unfold lockOp
  split
  · -- reading
    split
    · exact hi.pass hx (some_inj (callOk_creating _))
    · exact hi.pass hx nofun
    · rename_i r hr
      exact hi.pass hx (some_inj (callOk_judging (hi.lockNamed hr)))
  · -- creating
    split
    · rename_i hfree
      exact hi.created hx hfree (some_inj (callOk_holding ⟨_, rfl, rfl⟩))
    · exact hi.pass hx (some_inj (callOk_rereading _))
  · split
    · rename_i hfree
      exact hi.created hx hfree (some_inj callOk_undoing)
    · exact hi.pass hx (some_inj callOk_undoing)
  · exact hi.pass hx (some_inj callOk_undoing)
  · -- undoing
    split
    · rename_i r hr
      split_ifs with hn
      · exact hi.pass hx (some_inj (callOk_undoRemoving hr hn))
      · exact hi.pass hx nofun
    · exact hi.pass hx nofun
  · rename_i seen
    have hu : c.unlinks = some (.lock, .record seen) := by
      rw [LockCall.unlinks, htask]
    exact hi.unlocked hx hu nofun
  · -- rereading
    split
    · exact hi.pass hx fun t ht => callOk_retry ht
    · exact hi.pass hx nofun
    · rename_i r hr
      exact hi.pass hx (some_inj (callOk_judging (hi.lockNamed hr)))
  · -- claiming
    rename_i b k
    have hscan : ScanOk s.files b k := hok.scan rfl rfl rfl fun p hp => hp
    split
    · rename_i hfree
      refine hi.claimed hx hfree (hclaim b k rfl nofun hfree) (some_inj ?_)
      exact (hscan.claimed hfree).checking setGuard_self
    · exact hi.pass hx (some_inj hscan.observing)
  · rename_i b k
    split
    · rename_i hfree
      exact hi.claimed hx hfree (hclaim b k rfl nofun hfree) nofun
    · exact hi.pass hx nofun
  · -- observing
    rename_i b k
    have hscan : ScanOk s.files b k := hok.scan rfl rfl rfl fun p hp => hp
    split
    · split_ifs
      · have hretry : ScanOk s.files { b with retries := b.retries + 1 } k :=
          ⟨hscan.stale, hscan.judged, hscan.marks, hscan.reach, hscan.scanned⟩
        exact hi.pass hx (some_inj hretry.claiming)
      · exact hi.pass hx nofun
    · exact hi.pass hx nofun
    · rename_i r hr
      exact hi.pass hx (some_inj (hscan.judgingGuard hr (hi.guardNamed hr)))
  · -- checking
    rename_i b own
    have hscan : ScanOk s.files b own := hok.scan rfl rfl rfl fun p hp => hp
    have hclear : ClearOk s.files c.self b (some own) b.dead := hok.clear rfl rfl fun p hp => hp
    split
    · rename_i r hr
      split_ifs with hn
      · exact hi.pass hx (some_inj (hscan.breaking (hok.own b own rfl rfl) hr hn))
      · exact hi.pass hx (some_inj (hclear.clearing false))
    · exact hi.pass hx (some_inj (hclear.clearing false))
  · have hclear : ClearOk s.files c.self _ _ _ := hok.clear rfl rfl fun p hp => hp
    exact hi.pass hx (some_inj (hclear.clearing true))
  · -- breaking
    rename_i b own seen
    have hclear : ClearOk s.files c.self b (some own) b.dead := hok.clear rfl rfl fun p hp => hp
    have hu : c.unlinks = some (.lock, .record seen) := by
      rw [LockCall.unlinks, htask]
    have hkeep : ClearOk (s.files.setLock none) c.self b (some own) b.dead :=
      ⟨hclear.stale, hclear.judged, hclear.own⟩
    exact hi.unlocked hx hu (some_inj (hkeep.clearing false))
  · have hclear : ClearOk s.files c.self _ _ _ := hok.clear rfl rfl fun p hp => hp
    exact hi.pass hx (some_inj (hclear.clearing true))
  · -- clearing
    rename_i o b own threw
    have hclear : ClearOk s.files c.self b (some own) [] := hok.clear rfl rfl fun p hp => hp
    exact hi.pass hx (some_inj (hclear.leaving threw))
  · exact hi.pass hx fun t ht => callOk_retry ht
  · rename_i b own k text rest threw
    have hclear : ClearOk s.files c.self b own ((k, text) :: rest) := hok.clear rfl rfl fun p hp => hp
    have hrest : ClearOk s.files c.self b own rest := hok.clear rfl rfl fun p hp => List.mem_cons_of_mem _ hp
    split_ifs with hg
    · exact hi.pass hx (some_inj (hclear.removing threw hg))
    · exact hi.pass hx (some_inj (hrest.clearing threw))
  · rename_i o b own p rest threw _
    have hrest : ClearOk s.files c.self b own rest := hok.clear rfl rfl fun p hp => List.mem_cons_of_mem _ hp
    exact hi.pass hx (some_inj (hrest.clearing threw))
  · -- removing
    rename_i b own k text rest threw
    have hrest : ClearOk s.files c.self b own rest := hok.clear rfl rfl fun p hp => List.mem_cons_of_mem _ hp
    have hu : c.unlinks = some (.guard b.tag k, text) := by
      rw [LockCall.unlinks, htask]
    have hapart := hremove b k rfl (congrArg _ hu)
    have hcleared : ClearOk (s.files.setGuard b.tag k none) c.self b own rest := hrest.unguarded fun k' hk' => hok.own_ne_removed (hi.live hx) hk'
    exact hi.unguarded hx hu (hi.apart_of hx (by rw [htask]; rfl) hapart) (some_inj (hcleared.clearing threw))
  · rename_i o b own k text rest threw _
    have hrest : ClearOk s.files c.self b own rest := hok.clear rfl rfl fun p hp => List.mem_cons_of_mem _ hp
    exact hi.pass hx (some_inj (hrest.clearing threw))
  · -- leaving
    rename_i b own threw
    have hclear : ClearOk s.files c.self b (some own) [] := hok.clear rfl rfl fun p hp => hp
    split_ifs
    · exact hi.pass hx (some_inj (hclear.removingOwn threw))
    · exact hi.pass hx fun t ht => callOk_finishBreak ht
  · exact hi.pass hx fun t ht => callOk_finishBreak ht
  · -- removingOwn
    rename_i b own threw
    have hu : c.unlinks = some (.guard b.tag own, .record c.self) := by
      rw [LockCall.unlinks, htask]
    have hapart := hremove b own rfl (congrArg _ hu)
    exact hi.unguarded hx hu (hi.apart_of hx (by rw [htask]; rfl) hapart) fun t ht => callOk_finishBreak ht
  · exact hi.pass hx fun t ht => callOk_finishBreak ht
  · -- releasing
    split
    · rename_i r hr
      split_ifs with hn
      · exact hi.pass hx (some_inj (callOk_releaseRemoving hr hn))
      · exact hi.pass hx nofun
    · exact hi.pass hx nofun
  · exact hi.pass hx (some_inj (callOk_holding (hok.mine rfl)))
  · rename_i seen
    have hu : c.unlinks = some (.lock, .record seen) := by
      rw [LockCall.unlinks, htask]
    exact hi.unlocked hx hu nofun
  · exact hi.pass hx (some_inj (callOk_holding (hok.mine rfl)))
  · exact hi.pass hx (some_inj (callOk_holding (hok.mine rfl)))
  · exact hi.pass hx nofun

lemma LockInv.judge (hi : LockInv s) (hx : s.calls x = some c) {answer : Liveness}
    (h : lockJudge s.files c.task answer = some after) : LockInv (s.next x c.self s.files after) := by
  have hok := hi.calls hx
  generalize c.task = task at hok h
  unfold lockJudge at h
  split at h
  · rename_i n seen
    split_ifs at h with hlive
    cases h
    rw [Bool.not_eq_true] at hlive
    have hscan : ScanOk s.files ⟨n, seen, 0, []⟩ 1 :=
      ⟨⟨hlive, hok.judging n seen rfl⟩, nofun, fun _ _ hp => (List.not_mem_nil hp).elim, Nat.le_refl 1,
        fun j hj hlt => absurd hj (by omega)⟩
    exact hi.pass hx (some_inj hscan.claiming)
  · cases h
    exact hi.pass hx nofun
  · rename_i b k seen
    split at h
    · cases h
    rename_i hlive
    cases h
    rw [Bool.not_eq_true] at hlive
    have hscan := hok.judged_dead hlive
    split_ifs
    · exact hi.pass hx (some_inj hscan.claiming)
    · have hclear : ClearOk s.files c.self { b with dead := b.dead ++ [(k, .record seen)] } none
          (b.dead ++ [(k, .record seen)]) := ⟨hscan.stale, hscan.judged, nofun⟩
      exact hi.pass hx (some_inj (hclear.clearing false))
  · cases h
    exact hi.pass hx nofun
  · cases h

lemma lockInv_step {act : LockAction} (hi : LockInv s) (hg : LockApart s act) (h : lockStep s act = some t) :
    LockInv t := by
  cases act with
  | start x self => exact hi.start h
  | op x o =>
    obtain ⟨c, hx, h⟩ := Option.bind_eq_some_iff.mp h
    rw [Option.ite_none_left_eq_some, Option.some.injEq] at h
    obtain ⟨-, rfl⟩ := h
    exact hi.op hx hg
  | judge x answer =>
    obtain ⟨c, hx, h⟩ := Option.bind_eq_some_iff.mp h
    obtain ⟨after, hj, h⟩ := Option.bind_eq_some_iff.mp h
    cases h
    exact hi.judge hx hj
  | release x =>
    obtain ⟨c, hx, h⟩ := Option.bind_eq_some_iff.mp h
    have hok := hi.calls hx
    split at h
    · rename_i hc
      cases h
      exact hi.pass hx (some_inj (callOk_releasing (hok.mine (by rw [hc]; rfl))))
    · cases h
  | kill x =>
    obtain ⟨c, hx, h⟩ := Option.bind_eq_some_iff.mp h
    cases h
    exact hi.pass hx nofun

end Steps

lemma lockInv_within (h : lockMachine.Within LockApart s) : LockInv s :=
  h.invariant (fun _ hs => hs.inv) fun _ _ _ _ hi hg hs => lockInv_step hi hg hs

lemma isMine_of_holds (h : task.holds = true) : task.isMine = true := by
  unfold LockTask.holds at h
  split at h
  · rfl
  · rfl
  · rfl
  · cases h

example : (LockTask.undoRemoving ⟨1, "s"⟩).isMine = true ∧ (LockTask.undoRemoving ⟨1, "s"⟩).holds = false := by decide +kernel

/-- Two calls never hold the lock at once, and a call that is about to remove the lock or a guard finds
there what it observed, or nothing. -/
theorem lock_exclusive (h : lockMachine.Within LockApart s) :
    (∀ x y c d, s.calls x = some c → s.calls y = some d → c.task.holds = true → d.task.holds = true → x = y) ∧
    ∀ x c target seen body, s.calls x = some c → c.unlinks = some (target, seen) →
      s.files.at target = some body → body = seen := by
  have hi := lockInv_within h
  refine ⟨fun x y c d hx hy hc hd => ?_, fun x c target seen body hx hu hat => ?_⟩
  · exact hi.isMine_inj hx hy (isMine_of_holds hc) (isMine_of_holds hd)
  · rcases (hi.calls hx).unlinks target seen hu with he | ⟨he, -⟩
    · rw [he, Option.some.injEq] at hat
      exact hat.symm
    · rw [he] at hat
      cases hat

section Sample

def staleRecord : LockRecord := ⟨1, "s"⟩

/-- A lock and `n` guards left behind by writers that no longer run. -/
def leftBehind (n : ℕ) : LockState where
  files := {
    lock := some (.record staleRecord)
    guards := fun t k => if t = "s" ∧ 1 ≤ k ∧ k ≤ n then some (.record ⟨2, "d"⟩) else none
    live := fun _ => false
    named := fun t => if t = "s" then some "s" else if t = "d" then some "d" else none }
  calls := fun _ => none

def passActions (x n : ℕ) : List LockAction :=
  (List.replicate n [LockAction.op x .done, .op x .done, .judge x .dead]).flatten

def opActions (x n : ℕ) : List LockAction := List.replicate n (.op x .done)

def LockAction.call : LockAction → ℕ
  | .start x _ | .op x _ | .judge x _ | .release x | .kill x => x

/-- The first call breaks the lock past one dead guard. -/
def breakActions : List LockAction :=
  [LockAction.start 0 ⟨3, "p"⟩, .op 0 .done, .judge 0 .dead] ++ passActions 0 1 ++ opActions 0 10

/-- A second call has passed the first guard when the first call clears all eight. -/
def clearActions : List LockAction :=
  [LockAction.start 0 ⟨3, "p"⟩, .op 0 .done, .judge 0 .dead] ++ passActions 0 8 ++
    [LockAction.start 1 ⟨4, "y"⟩, .op 1 .done, .judge 1 .dead] ++ passActions 1 1 ++ opActions 0 17 ++
    opActions 1 2 ++ [LockAction.op 0 .done, .judge 0 .dead] ++ opActions 0 8 ++ opActions 1 7

lemma initial_leftBehind (n : ℕ) : (leftBehind n).Initial := by
  have htag : breakTag "s" = "s" ∧ breakTag "d" = "d" := by decide +kernel
  refine ⟨fun _ => rfl, fun _ => rfl, fun r hr => ?_, fun t k r hr => ?_⟩
  · cases hr
    rw [staleRecord, htag.1]
    rfl
  · simp only [leftBehind, Option.ite_none_right_eq_some] at hr
    obtain ⟨-, hr⟩ := hr
    cases hr
    rw [htag.2]
    rfl

lemma step_call {act : LockAction} (h : lockStep s act = some t) (hne : y ≠ act.call) :
    t.calls y = s.calls y := by
  cases act with
  | start x self =>
    simp only [lockStep, Option.ite_none_left_eq_some, Option.some.injEq] at h
    obtain ⟨-, rfl⟩ := h
    exact Function.update_of_ne hne ..
  | op x o =>
    obtain ⟨c, hx, h⟩ := Option.bind_eq_some_iff.mp h
    rw [Option.ite_none_left_eq_some, Option.some.injEq] at h
    obtain ⟨-, rfl⟩ := h
    exact Function.update_of_ne hne ..
  | judge x answer =>
    obtain ⟨c, hx, h⟩ := Option.bind_eq_some_iff.mp h
    obtain ⟨after, hj, h⟩ := Option.bind_eq_some_iff.mp h
    cases h
    exact Function.update_of_ne hne ..
  | release x =>
    obtain ⟨c, hx, h⟩ := Option.bind_eq_some_iff.mp h
    split at h
    · cases h
      exact Function.update_of_ne hne ..
    · cases h
  | kill x =>
    obtain ⟨c, hx, h⟩ := Option.bind_eq_some_iff.mp h
    cases h
    exact Function.update_of_ne hne ..

lemma lockApart_alone {act : LockAction} (halone : ∀ y, y ≠ act.call → s.calls y = none) :
    LockApart s act := by
  cases act with
  | op x o =>
    have honly : ∀ {y d}, s.calls y = some d → y = x := by
      intro y d hy
      by_contra hne
      rw [halone y hne] at hy
      cases hy
    refine fun c hx => ⟨fun b k hc _ _ y d hy hu => ?_, fun b k _ _ _ y d b' hne hy => (hne (honly hy)).elim⟩
    obtain rfl := honly hy
    rw [hx, Option.some.injEq] at hy
    rw [← hy, LockCall.unlinks, hc] at hu
    cases hu
  | _ => trivial

theorem broken_lock_exclusive : ∃ s, lockMachine.Within LockApart s ∧
    s.calls 0 = some ⟨⟨3, "p"⟩, .holding⟩ ∧ ∀ y d, s.calls y = some d → d.task.holds = true → y = 0 := by
  have hrun : ((lockMachine.runIf (fun _ act => act.call == 0) (leftBehind 1) breakActions).map fun s =>
      s.calls 0) = some (some ⟨⟨3, "p"⟩, .holding⟩) := by
    decide +kernel
  obtain ⟨s, hs, hx⟩ := Option.map_eq_some_iff.mp hrun
  have hw : lockMachine.Within LockApart s :=
    .of_runIf (P := fun s => ∀ y, y ≠ 0 → s.calls y = none) (.start (initial_leftBehind 1)) (fun _ _ => rfl)
      (fun _ _ hp ha => lockApart_alone fun y hy => hp y (beq_iff_eq.mp ha ▸ hy))
      (fun _ _ _ hp ha ht y hy => (step_call ht (beq_iff_eq.mp ha ▸ hy)).trans (hp y hy)) hs
  exact ⟨s, hw, hx, fun y d hy hd => (lock_exclusive hw).1 y 0 d _ hy hx hd rfl⟩

theorem cleared_guards_admit_two : ∃ s c d, lockMachine.Reachable s ∧ s.calls 0 = some c ∧
    s.calls 1 = some d ∧ c.task.holds = true ∧ d.task.holds = true := by
  have hrun : ((lockMachine.run (leftBehind 8) clearActions).map fun s => (s.calls 0, s.calls 1)) =
      some (some ⟨⟨3, "p"⟩, .holding⟩, some ⟨⟨4, "y"⟩, .holding⟩) := by
    decide +kernel
  obtain ⟨s, hs, hm⟩ := Option.map_eq_some_iff.mp hrun
  obtain ⟨hx, hy⟩ := Prod.mk.inj hm
  exact ⟨s, _, _, .of_run (.start (initial_leftBehind 8)) hs, hx, hy, rfl, rfl⟩

end Sample

end TinyCloud.Courier
