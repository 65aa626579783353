import TinyCloud.Replica.SerialFeed

/-! The local bounds of the grant that a page is fetched under, and of the grant whose record the store looks at. -/

namespace TinyCloud.Replica

open TinyCloud.Runs

section Bounds

/-- The grant whose install record `assertInstalledGrantTime` looks at. -/
def checkedGrant (row : ReplicaRow) : Option GrantRecord := row.pendingGrant <|> row.grant

def WithinBounds (db : Db) (now : ℕ) (g : GrantRecord) : Prop :=
  ∀ i ∈ db.grantInstall g.cid, now < i.effectiveExpiresAt ∧ now < i.consentDeadline

def CheckedWithin (db : Db) (now : ℕ) : Prop := ∀ g ∈ checkedGrant db.row, WithinBounds db now g

variable {db : Db} {now : ℕ} {lease : LeaseToken} {p : VerifiedPage} {reused : String → Option ℕ}

lemma assertInstalledGrantTime_cases (db : Db) (now : ℕ) : (assertInstalledGrantTime db now = .ok () ∧ CheckedWithin db now) ∨
    (assertInstalledGrantTime db now = .error .grantExpired ∧ ¬CheckedWithin db now) := by
  unfold assertInstalledGrantTime CheckedWithin WithinBounds checkedGrant
  cases db.row.pendingGrant <|> db.row.grant with
  | none => simp
  | some g =>
    cases hi : db.grantInstall g.cid with
    | none => simp [hi]
    | some i =>
      by_cases hexpired : i.effectiveExpiresAt ≤ now ∨ i.consentDeadline ≤ now
      · right
        simp only [Option.bind_some, hi, if_pos hexpired, true_and, Option.mem_def, Option.some.injEq, forall_eq']
        omega
      · left
        simp only [Option.bind_some, hi, if_neg hexpired, true_and, Option.mem_def, Option.some.injEq, forall_eq']
        omega

lemma checkLease_not_expired : checkLease db.row lease now ≠ .error .grantExpired := by
  intro h
  rcases checkLease_error h with h | ⟨h, -⟩
  · cases h
  · cases h

/-- The first checks of a page say that a grant expired exactly if the checked one did. -/
lemma fence_refused_iff : applyPageFence db lease p now = .error .grantExpired ↔
    checkLease db.row lease now = .ok () ∧ ¬CheckedWithin db now := by
  unfold applyPageFence
  cases hl : checkLease db.row lease now with
  | error code =>
    have hne : code ≠ .grantExpired := fun h => checkLease_not_expired (h ▸ hl)
    simp [bind, Except.bind, hne]
  | ok _ =>
    rcases assertInstalledGrantTime_cases db now with ⟨ha, hc⟩ | ⟨ha, hc⟩
    · simp only [ha, hc, bind, Except.bind, not_true_eq_false, and_false, iff_false]
      split <;> intro h <;> cases h
    · simp [ha, hc, bind, Except.bind]

/-- The active grant expires at 100 and is checked, as nothing is pending. -/
example : (assertInstalledGrantTime ⟨{ initRow "default" "notes/" .whileGrantValid none with grant := some ⟨"older", none, none⟩ },
    fun _ => some ⟨0, 100, 100⟩, [], fun _ => none⟩ 100).isOk = false := by decide +kernel

lemma commit_refused_iff (hwindow : checkWindow p.window now = .ok ()) :
    commitPage db lease p reused now = .error .grantExpired ↔ checkLease db.row lease now = .ok () ∧ ¬CheckedWithin db now := by
  unfold commitPage
  cases hl : checkLease db.row lease now with
  | error code =>
    have hne : code ≠ .grantExpired := fun h => checkLease_not_expired (h ▸ hl)
    simp [bind, Except.bind, hne]
  | ok _ =>
    rcases assertInstalledGrantTime_cases db now with ⟨ha, hc⟩ | ⟨ha, hc⟩
    · simp [ha, hc, hwindow, bind, Except.bind, pure, Except.pure]
    · simp [ha, hc, bind, Except.bind]

lemma commit_ok_iff : (∃ db', commitPage db lease p reused now = .ok db') ↔
    checkLease db.row lease now = .ok () ∧ CheckedWithin db now ∧ checkWindow p.window now = .ok () := by
  unfold commitPage
  cases hl : checkLease db.row lease now with
  | error code => simp [bind, Except.bind]
  | ok _ =>
    rcases assertInstalledGrantTime_cases db now with ⟨ha, hc⟩ | ⟨ha, hc⟩
    · cases hw : checkWindow p.window now <;> simp [ha, hc, bind, Except.bind, pure, Except.pure]
    · simp [ha, hc, bind, Except.bind]

end Bounds

section Steps

variable (contentHash : ByteArray → String) (s : State) (x : ℕ)

def Commits (now : ℕ) : Prop := ∃ t a m o p,
  sessionStep contentHash s x (s.sessions x) (.commit now) = some t ∧ t.sessions x = some (.committed a m o p)

/-- The step fails because a grant expired. -/
def RefusedExpired (act : SessionAction) : Prop := ∃ t a,
  sessionStep contentHash s x (s.sessions x) act = some t ∧ t.sessions x = some (.failing a (.ofStore .grantExpired))

variable {contentHash : ByteArray → String} {s : State} {x now : ℕ} {a : Attempt} {m : Memory} {o : Origin} {p : VerifiedPage}
  {reused : String → Option ℕ}

lemma refused_fence_iff (hx : s.sessions x = some (.applying a m o p)) : RefusedExpired contentHash s x (.fence now) ↔
    checkLease s.db.row a.lease now = .ok () ∧ ¬CheckedWithin s.db now := by
  rw [← @fence_refused_iff _ _ _ p]
  unfold RefusedExpired
  rw [hx]
  simp only [sessionStep, throwing, Option.some.injEq]
  cases applyPageFence s.db a.lease p now with
  | error code => simp [SyncError.ofStore]
  | ok reused => simp

lemma refused_commit_iff (hx : s.sessions x = some (.writing a m o p reused [])) (hwindow : checkWindow p.window now = .ok ()) :
    RefusedExpired contentHash s x (.commit now) ↔ checkLease s.db.row a.lease now = .ok () ∧ ¬CheckedWithin s.db now := by
  rw [← @commit_refused_iff _ _ _ p reused hwindow]
  unfold RefusedExpired
  rw [hx]
  simp only [sessionStep, throwing, Option.some.injEq]
  cases commitPage s.db a.lease p reused now with
  | error code => simp [SyncError.ofStore]
  | ok db => simp

lemma commits_iff (hx : s.sessions x = some (.writing a m o p reused [])) : Commits contentHash s x now ↔
    checkLease s.db.row a.lease now = .ok () ∧ CheckedWithin s.db now ∧ checkWindow p.window now = .ok () := by
  rw [← @commit_ok_iff _ _ _ p reused]
  unfold Commits
  rw [hx]
  simp only [sessionStep, throwing, Option.some.injEq]
  cases commitPage s.db a.lease p reused now with
  | error code => simp
  | ok db => simp

/-- The first checks refuse the page for no other grant: its own one is within its bounds only if the checked one is. -/
def FenceAgrees (s : State) (a : Attempt) (now : ℕ) : Prop :=
  checkLease s.db.row a.lease now = .ok () → WithinBounds s.db now a.grant → CheckedWithin s.db now

/-- Where a page may commit otherwise, its own grant and the checked one are both within their bounds or both beyond. -/
def CommitAgrees (s : State) (a : Attempt) (p : VerifiedPage) (now : ℕ) : Prop :=
  checkLease s.db.row a.lease now = .ok () → checkWindow p.window now = .ok () →
    (WithinBounds s.db now a.grant ↔ CheckedWithin s.db now)

lemma agrees_of_checked (h : checkedGrant s.db.row = some a.grant) : FenceAgrees s a now ∧ CommitAgrees s a p now := by
  have hiff : CheckedWithin s.db now ↔ WithinBounds s.db now a.grant := by simp [CheckedWithin, h]
  exact ⟨fun _ => hiff.mpr, fun _ _ => hiff.symm⟩

/-- A page is committed and refused by the bounds of its own grant exactly where these agree with the checked ones. -/
theorem page_within_own_bounds (contentHash : ByteArray → String) (s : State) (x now : ℕ) :
    (∀ a m o p, s.sessions x = some (.applying a m o p) →
      ((WithinBounds s.db now a.grant → ¬RefusedExpired contentHash s x (.fence now)) ↔ FenceAgrees s a now)) ∧
    ∀ a m o p reused, s.sessions x = some (.writing a m o p reused []) →
      (((Commits contentHash s x now → WithinBounds s.db now a.grant) ∧
        (WithinBounds s.db now a.grant → checkWindow p.window now = .ok () → ¬RefusedExpired contentHash s x (.commit now))) ↔
        CommitAgrees s a p now) := by
  constructor
  · intro a m o p hx
    rw [refused_fence_iff hx, FenceAgrees, not_and, not_not]
    exact ⟨fun h hlease hown => h hown hlease, fun h hown hlease => h hlease hown⟩
  · intro a m o p reused hx
    rw [commits_iff hx]
    constructor
    · rintro ⟨hcommits, hrefused⟩ hlease hwindow
      constructor
      · intro hown
        have hnot := hrefused hown hwindow
        rw [refused_commit_iff hx hwindow, not_and, not_not] at hnot
        exact hnot hlease
      · exact fun hchecked => hcommits ⟨hlease, hchecked, hwindow⟩
    · intro h
      constructor
      · rintro ⟨hlease, hchecked, hwindow⟩
        exact (h hlease hwindow).mpr hchecked
      · intro hown hwindow
        rw [refused_commit_iff hx hwindow, not_and, not_not]
        exact fun hlease => (h hlease hwindow).mp hown

end Steps

section Samples

def olderGrant : GrantRecord := ⟨"older", none, none⟩
def newerGrant : GrantRecord := ⟨"newer", none, none⟩

/-- An active grant with local bounds at 100 and a pending one with bounds at 1000. -/
def twoGrants : State where
  db := {
    row := { initRow "default" "notes/" .whileGrantValid none with grant := some olderGrant, pendingGrant := some newerGrant }
    grantInstall := fun cid =>
      if cid = "older" then some ⟨0, 100, 100⟩ else if cid = "newer" then some ⟨0, 1000, 1000⟩ else none
    entries := []
    blobs := fun _ => none }
  collecting := none
  sessions _ := none
  replies := 0
  history := []

/-- The node refuses the pending grant, and the sync goes on under the active one. -/
def fallingBack (now : ℕ) : List Action :=
  [.session 0 .start, .session 0 (.acquire "p" 10 now), .session 0 (.readState now),
    .session 0 (.fail ⟨.grantUnauthorized, true, none⟩), .session 0 (.learn ""), .session 0 (.readState now),
    .session 0 (.reply (samplePage [] "c1" false) now), .session 0 (.verify missingReads), .session 0 (.fence now),
    .session 0 (.commit now)]

def committedUnder (s : State) : Option GrantRecord :=
  match s.sessions 0 with
  | some (.committed a _ _ _) => some a.grant
  | _ => none

lemma committed_of_under {s : State} {g : GrantRecord} (h : committedUnder s = some g) :
    ∃ a m o p, s.sessions 0 = some (.committed a m o p) ∧ a.grant = g := by
  unfold committedUnder at h
  split at h
  · rename_i a m o p hs
    exact ⟨a, m, o, p, hs, Option.some.inj h⟩
  · cases h

/-- The page commits under a grant that expired locally before. -/
theorem expired_grant_commits : ∃ s a m o p, (machine fun _ => emptyHash).run twoGrants (fallingBack 200) = some s ∧
    s.sessions 0 = some (.committed a m o p) ∧ a.grant = olderGrant ∧ ¬WithinBounds s.db 200 a.grant := by
  have hrun : ((machine fun _ => emptyHash).run twoGrants (fallingBack 200)).map
      (fun s => (committedUnder s, s.db.grantInstall "older")) = some (some olderGrant, some ⟨0, 100, 100⟩) := by
    decide +kernel
  obtain ⟨s, hs, hend⟩ := Option.map_eq_some_iff.mp hrun
  obtain ⟨hunder, hinstall⟩ := Prod.mk.inj hend
  obtain ⟨a, m, o, p, hsession, hgrant⟩ := committed_of_under hunder
  refine ⟨s, a, m, o, p, hs, hsession, hgrant, fun hwithin => ?_⟩
  rw [hgrant] at hwithin
  have hlt : 200 < 100 := (hwithin _ hinstall).1
  omega

def pendingAttempt : Attempt := startAttempt ⟨1, "p"⟩ (some "newer") newerGrant (some olderGrant)

def emptyMemory : Memory := ⟨none, none, .empty, none, false⟩

def emptyPage : VerifiedPage := feedPage pendingAttempt emptyMemory (samplePage [] "c1" false) ⟨none, none⟩ ([], [])

/-- A page that was fetched under the pending grant is about to commit. -/
def aboutToCommit : State :=
  twoGrants.put 0 (.writing pendingAttempt emptyMemory (.feed 0 none (samplePage [] "c1" false)) emptyPage (fun _ => none) [])

theorem page_within_own_bounds_sample :
    (Commits (fun _ => emptyHash) aboutToCommit 0 200 → WithinBounds aboutToCommit.db 200 newerGrant) ∧
      (WithinBounds aboutToCommit.db 200 newerGrant → checkWindow emptyPage.window 200 = .ok () →
        ¬RefusedExpired (fun _ => emptyHash) aboutToCommit 0 (.commit 200)) :=
  ((page_within_own_bounds (fun _ => emptyHash) aboutToCommit 0 200).2 pendingAttempt emptyMemory
    (.feed 0 none (samplePage [] "c1" false)) emptyPage (fun _ => none) put_sessions_self).mpr (agrees_of_checked rfl).2

end Samples

end TinyCloud.Replica
