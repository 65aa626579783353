import TinyCloud.Replica.Engine
import TinyCloud.Runs.Fallible
import Mathlib.Tactic.Common
import Mathlib.Order.Basic

/-! What one step of the engine can do: the store transaction behind it, the
memory it carries over, and the errors it can raise. -/

namespace TinyCloud.Replica

open Runs

variable {contentHash : ByteArray → String} {s t : State} {x : ℕ} {act : SessionAction}

section Transactions

variable {row : ReplicaRow} {db db' : Db} {lease : LeaseToken} {now : ℕ} {code : ReplicaErrorCode}

lemma checkLease_ok (h : checkLease row lease now = .ok ()) :
    row.revokedDetail = none ∧ row.leaseToken = lease.token ∧ row.leaseHolder = some lease.holder := by
  unfold checkLease at h
  split at h
  · cases h
  · rename_i hr
    split at h
    · cases h
    · rename_i ht
      rw [not_or, not_not, not_not] at ht
      exact ⟨by simpa using hr, ht⟩

lemma checkLease_error (h : checkLease row lease now = .error code) :
    code = .busy ∨ (code = .grantRevoked ∧ row.revokedDetail.isSome) := by
  unfold checkLease at h
  split at h
  · rename_i hr
    cases h
    exact .inr ⟨rfl, hr⟩
  · split at h
    · cases h
      exact .inl rfl
    · split at h
      · cases h
        exact .inl rfl
      · cases h

lemma reset_ok {keepSource : Bool} (h : reset db lease keepSource now = .ok db') :
    (db.row.revokedDetail = none ∧ db.row.leaseToken = lease.token) ∧
      db'.entries = [] ∧ db'.row.cursor = none ∧ db'.row.leaseToken = db.row.leaseToken ∧
      db'.row.revokedDetail = db.row.revokedDetail ∧ db'.row.grant = db.row.grant ∧
      db'.row.pendingGrant = db.row.pendingGrant := by
  obtain ⟨_, hl, h⟩ := bind_eq_ok h
  cases h
  have := checkLease_ok hl
  exact ⟨⟨this.1, this.2.1⟩, rfl, rfl, rfl, rfl, rfl, rfl⟩

lemma commitPage_ok {p : VerifiedPage} {reused : String → Option ℕ}
    (h : commitPage db lease p reused now = .ok db') :
    (db.row.revokedDetail = none ∧ db.row.leaseToken = lease.token) ∧
      db' = { db with row := commitRow db.row p, entries := applyChanges db.entries p reused } := by
  obtain ⟨_, hl, h⟩ := bind_eq_ok h
  obtain ⟨_, _, h⟩ := bind_eq_ok h
  obtain ⟨_, _, h⟩ := bind_eq_ok h
  cases h
  have := checkLease_ok hl
  exact ⟨⟨this.1, this.2.1⟩, rfl⟩

/-- A store that answers that the grant is revoked holds the revocation. -/
def Truthful (row : ReplicaRow) (code : ReplicaErrorCode) : Prop :=
  code = .grantRevoked → row.revokedDetail.isSome

lemma truthful_of_ne (h : code ≠ .grantRevoked) : Truthful row code :=
  fun hc => (h hc).elim

lemma truthful_of_checkLease (h : checkLease row lease now = .error code) : Truthful row code := by
  rcases checkLease_error h with rfl | ⟨_, hr⟩
  · intro hc
    cases hc
  · exact fun _ => hr

lemma syncWindow_error {window : Option AuthorityWindow} {grant : GrantRecord}
    (h : syncWindow window grant now = .error code) : code ≠ .grantRevoked := by
  rcases bind_eq_error h with h | ⟨_, _, h⟩
  · rintro rfl
    unfold assertReadable effectiveAuthority at h
    dsimp only at h
    split at h
    · cases h
    · rename_i hs
      split at hs
      · rename_i hr
        cases hr
      · split at hs
        · cases hs
        · split at hs <;> cases hs
    · cases h
    · split at h
      · rename_i hr
        cases hr
      · split at h <;> cases h
  · cases h

lemma attemptState_error {a : Attempt} (h : attemptState row a now = .error code) :
    code ≠ .grantRevoked := by
  rcases bind_eq_error h with h | ⟨_, _, h⟩
  · exact syncWindow_error h
  · cases h

lemma acceptPage_error {a : Attempt} {m : Memory} {page : SyncPage}
    (h : acceptPage row a m page now = .error code) : code ≠ .grantRevoked := by
  rcases bind_eq_error h with h | ⟨_, _, h⟩
  · rintro rfl
    unfold checkPage at h
    split at h
    · cases h
    · split at h
      · cases h
      · split at h <;> cases h
  · exact syncWindow_error h

lemma assertInstalledGrantTime_error (h : assertInstalledGrantTime db now = .error code) :
    code ≠ .grantRevoked := by
  rintro rfl
  unfold assertInstalledGrantTime at h
  split at h
  · cases h
  · split at h <;> cases h

lemma checkWindow_error {window : CommitWindow} (h : checkWindow window now = .error code) :
    code ≠ .grantRevoked := by
  rintro rfl
  unfold checkWindow at h
  split at h
  · cases h
  · split at h <;> cases h

lemma applyPageFence_error {p : VerifiedPage} (h : applyPageFence db lease p now = .error code) :
    Truthful db.row code := by
  rcases bind_eq_error h with h | ⟨_, _, h⟩
  · exact truthful_of_checkLease h
  · rcases bind_eq_error h with h | ⟨_, _, h⟩
    · exact fun hc => (assertInstalledGrantTime_error h hc).elim
    · dsimp only at h
      split at h
      · cases h
      · cases h
        exact fun hc => by cases hc

lemma commitPage_error {p : VerifiedPage} {reused : String → Option ℕ}
    (h : commitPage db lease p reused now = .error code) : Truthful db.row code := by
  rcases bind_eq_error h with h | ⟨_, _, h⟩
  · exact truthful_of_checkLease h
  · rcases bind_eq_error h with h | ⟨_, _, h⟩
    · exact fun hc => (assertInstalledGrantTime_error h hc).elim
    · rcases bind_eq_error h with h | ⟨_, _, h⟩
      · exact fun hc => (checkWindow_error h hc).elim
      · cases h

lemma reset_error {keepSource : Bool} (h : reset db lease keepSource now = .error code) :
    Truthful db.row code := by
  rcases bind_eq_error h with h | ⟨_, _, h⟩
  · exact truthful_of_checkLease h
  · cases h

lemma renewLease_error {ttlMs : ℕ} (h : renewLease db lease ttlMs now = .error code) :
    code = .busy ∨ (code = .grantRevoked ∧ db.row.revokedDetail.isSome) := by
  rcases bind_eq_error h with h | ⟨_, _, h⟩
  · exact checkLease_error h
  · cases h

lemma acceptContent_error {expected : Candidate} {fetched : Option FetchedContent}
    (h : acceptContent contentHash expected fetched = .error code) : code ≠ .grantRevoked := by
  rintro rfl
  unfold acceptContent at h
  split at h
  · cases h
  · cases h
  · split at h
    · cases h
    · split at h <;> cases h

lemma verifyChange_error {reads : PageReads} {blobs : List (String × ByteArray)} {c : Change}
    (h : verifyChange contentHash reads blobs c = .error code) : code ≠ .grantRevoked := by
  unfold verifyChange at h
  split at h
  · cases h
  · split at h
    · cases h
      exact fun hc => by cases hc
    · split at h
      · cases h
      · split at h
        · rename_i he
          cases h
          exact acceptContent_error he
        · cases h
        · cases h

lemma verifyChanges_error {reads : PageReads} {cs : List Change} {blobs : List (String × ByteArray)}
    (h : verifyChanges contentHash reads cs blobs = .error code) : code ≠ .grantRevoked := by
  induction cs generalizing blobs with
  | nil => cases h
  | cons c cs ih =>
    rcases bind_eq_error h with h | ⟨_, _, h⟩
    · exact verifyChange_error h
    · rcases bind_eq_error h with h | ⟨_, _, h⟩
      · exact ih h
      · cases h

lemma repairChanges_error {contents : String → Option FetchedContent} {rows : List LiveRow}
    {blobs : List (String × ByteArray)}
    (h : repairChanges contentHash contents rows blobs = .error code) : code ≠ .grantRevoked := by
  induction rows generalizing blobs with
  | nil => cases h
  | cons row rows ih =>
    rcases bind_eq_error h with h | ⟨_, _, h⟩
    · exact acceptContent_error h
    · split at h
      · exact ih h
      · rcases bind_eq_error h with h | ⟨_, _, h⟩
        · exact ih h
        · cases h

end Transactions

inductive SessionStepped (contentHash : ByteArray → String) (s : State) (x : ℕ) (act : SessionAction) :
    Option Session → State → Prop
  | started : s.db.row.revokedDetail = none →
      SessionStepped contentHash s x act none (s.put x (.opened s.db.row.pendingGrant s.db.row.grant))
  | refused {pending active} : SessionStepped contentHash s x act (some (.opened pending active)) (s.drop x)
  | acquired {pending active holder ttlMs now db lease a} : act = .acquire holder ttlMs now →
      acquireSyncLease s.db holder ttlMs now = some (db, lease) →
      firstAttempt lease pending active = some a →
      SessionStepped contentHash s x act (some (.opened pending active))
        ({ s with db := db }.put x (.attempting a))
  | threw {c a e} : c.attempt = some a → mayFail s.db.row c e = true →
      SessionStepped contentHash s x act (some c) (s.put x (.failing a e))
  | ready {a m now} : attemptState s.db.row a now = .ok m →
      SessionStepped contentHash s x act (some (.attempting a)) (s.put x (.requesting a m))
  | replied {a m page window} :
      SessionStepped contentHash s x act (some (.requesting a m))
        ({ s with replies := s.replies + 1 }.put x (.verifying a m s.replies page window))
  | wasReset {a m now db} : act = .resetRequired now → reset s.db a.lease true now = .ok db →
      SessionStepped contentHash s x act (some (.requesting a m))
        ({ s with db := db, history := s.history ++ [Event.cleared] }.put x
          (.requesting a { m with cursor := none, coverage := .empty, wasReset := true }))
  | verified {a m reply page window reads v} :
      verifyChanges contentHash reads page.changes [] = .ok v →
      SessionStepped contentHash s x act (some (.verifying a m reply page window))
        (s.put x (.applying a m (.feed reply m.cursor page) (feedPage a m page window v)))
  | fenced {a m o p now reused} : applyPageFence s.db a.lease p now = .ok reused →
      SessionStepped contentHash s x act (some (.applying a m o p))
        (s.put x (.writing a m o p reused p.blobs))
  | wroteBlob {a m o p reused hash bytes unwritten} :
      SessionStepped contentHash s x act (some (.writing a m o p reused ((hash, bytes) :: unwritten)))
        ({ s with db := writeBlob s.db hash bytes }.put x (.writing a m o p reused unwritten))
  | committed {a m o p reused now db} : act = .commit now →
      commitPage s.db a.lease p reused now = .ok db →
      SessionStepped contentHash s x act (some (.writing a m o p reused []))
        ({ s with db := db, history := s.history ++ [o.event p reused] }.put x (.committed a m o p))
  | advanced {a m reply requested page p c} :
      c = (if page.more then Session.requesting { a with promote := none } (afterPage m page p)
        else Session.drained { a with promote := none } (afterPage m page p)) →
      SessionStepped contentHash s x act (some (.committed a m (.feed reply requested page) p)) (s.put x c)
  | resumed {a m rest p} :
      SessionStepped contentHash s x act (some (.committed a m (.repair rest) p)) (s.put x (.repairing a m rest))
  | repairsRead {a m} {due : String → Bool} :
      SessionStepped contentHash s x act (some (.drained a m))
        (s.put x (.repairing a m ((pendingRepairs s.db).filter fun row => due row.key)))
  | batchEmpty {a m rest} :
      SessionStepped contentHash s x act (some (.repairing a m rest))
        (s.put x (.repairing a m (rest.drop repairBatch)))
  | batchFetched {a m rest contents v window} :
      repairChanges contentHash contents (rest.take repairBatch) [] = .ok v →
      SessionStepped contentHash s x act (some (.repairing a m rest))
        (s.put x (.applying a m (.repair (rest.drop repairBatch)) (repairPage s.db.row m window v)))
  | finished {a m} : SessionStepped contentHash s x act (some (.repairing a m [])) (s.put x (.releasing a.lease))
  | discarded {a e grant} : canFallBack a = some grant → e.code = .grantRevoked →
      SessionStepped contentHash s x act (some (.failing a e))
        ({ s with db := discardPendingGrant s.db a.grant.cid }.put x
          (.attempting (startAttempt a.lease a.pendingCid grant none)))
  | fellBack {a e grant} : canFallBack a = some grant → pendingRefusal e.code = true →
      SessionStepped contentHash s x act (some (.failing a e))
        (s.put x (.attempting (startAttempt a.lease a.pendingCid grant none)))
  | learned {a e} : SessionStepped contentHash s x act (some (.failing a e)) (s.put x (.releasing a.lease))
  | learnedRetention {a e cid detail} :
      SessionStepped contentHash s x act (some (.failing a e))
        ({ s with db := markRetentionRevoked s.db cid detail }.put x (.releasing a.lease))
  | learnedRevocation {a e} : canFallBack a = none → e.code = .grantRevoked →
      s.db.row.revokedDetail = none →
      SessionStepped contentHash s x act (some (.failing a e)) (s.put x (.marking a.lease a.grant))
  | marked {lease g detail} : act = .mark detail →
      SessionStepped contentHash s x act (some (.marking lease g))
        ({ s with db := markRevoked s.db detail, history := s.history ++ [Event.cleared] }.put x
          (.releasing lease))
  | gaveUp {c lease} : c = .resetting lease ∨ (∃ g, c = .marking lease g) →
      SessionStepped contentHash s x act (some c) (s.put x (.releasing lease))
  | resetBegan {holder ttlMs now db lease} : act = .beginReset holder ttlMs now →
      acquireSyncLease s.db holder ttlMs now = some (db, lease) →
      SessionStepped contentHash s x act none ({ s with db := db }.put x (.resetting lease))
  | resetDone {lease now db} : act = .resetStore now → reset s.db lease false now = .ok db →
      SessionStepped contentHash s x act (some (.resetting lease))
        ({ s with db := db, history := s.history ++ [Event.cleared] }.put x (.releasing lease))
  | released {lease} :
      SessionStepped contentHash s x act (some (.releasing lease))
        ({ s with db := releaseLease s.db lease }.drop x)
  | renewed {c a ttlMs now db} : c.attempt = some a → renewLease s.db a.lease ttlMs now = .ok db →
      SessionStepped contentHash s x act (some c) { s with db := db }

lemma mayFail_ofStore {code : ReplicaErrorCode} {c : Session} (h : Truthful s.db.row code) (hc : ∀ a m o p, c ≠ .committed a m o p) :
    mayFail s.db.row c (.ofStore code) = true := by
  have hcode : (code != .grantRevoked || s.db.row.revokedDetail.isSome) = true := by
    by_cases hr : code = .grantRevoked
    · simp [h hr]
    · simp [hr]
  cases c with
  | committed a m o p => exact (hc a m o p rfl).elim
  | _ => simpa [mayFail, SyncError.ofStore] using hcode

lemma mayFail_of_renewLease {code : ReplicaErrorCode} {c : Session} {lease : LeaseToken} {ttlMs now : ℕ}
    (h : renewLease s.db lease ttlMs now = .error code) :
    mayFail s.db.row c (.ofStore code) = true := by
  rcases renewLease_error h with rfl | ⟨rfl, hr⟩
  · cases c <;> rfl
  · cases c <;> simp [mayFail, SyncError.ofStore, hr, pendingRefusal]

lemma threw_of_throwing {α : Type} {c : Session} {a : Attempt} {r : Except ReplicaErrorCode α}
    {next : α → State} (hc : c.attempt = some a)
    (herr : ∀ code, r = .error code → mayFail s.db.row c (.ofStore code) = true)
    (hok : ∀ v, r = .ok v → SessionStepped contentHash s x act (some c) (next v)) :
    SessionStepped contentHash s x act (some c) (throwing s x a r next) := by
  cases r with
  | ok v => exact hok v rfl
  | error code => exact .threw hc (herr code rfl)

lemma stepped_of_catchError {a : Attempt} {e : SyncError} {detail : String} :
    SessionStepped contentHash s x act (some (.failing a e)) (catchError s x a e detail) := by
  have hlearn : canFallBack a = none ∨ e.code ≠ .grantRevoked →
      SessionStepped contentHash s x act (some (.failing a e)) (catchError.learnError s x a e detail) := by
    intro h
    unfold catchError.learnError
    split
    · rename_i hr
      split
      · exact .learned
      · rename_i hrev
        exact .learnedRevocation (h.resolve_right fun hne => hne hr) hr (by simpa using hrev)
    · split
      · exact .learnedRetention
      · exact .learned
  unfold catchError
  split
  · rename_i grant hg
    split
    · rename_i hr
      exact .discarded hg hr
    · rename_i hr
      split
      · rename_i hp
        exact .fellBack hg hp
      · exact hlearn (.inr hr)
  · rename_i hg
    exact hlearn (.inl hg)

lemma stepped_of_sessionStep {c : Option Session}
    (h : sessionStep contentHash s x c act = some t) : SessionStepped contentHash s x act c t := by
  unfold sessionStep at h
  split at h
  · split at h
    · cases h
    · rename_i hr
      cases h
      rw [Bool.or_eq_true, not_or] at hr
      exact .started (by simpa using hr.1)
  · split at h
    · cases h
      exact .refused
    · rename_i hacq
      obtain ⟨a, ha, rfl⟩ := Option.map_eq_some_iff.mp h
      exact .acquired rfl hacq ha
  · cases h
    refine threw_of_throwing rfl (fun code he => ?_) fun m hm => .ready hm
    exact mayFail_ofStore (truthful_of_ne (attemptState_error he)) (by simp)
  · cases h
    refine threw_of_throwing rfl (fun code he => ?_) fun window hw => .replied
    exact mayFail_ofStore (truthful_of_ne (acceptPage_error he)) (by simp)
  · split at h
    · cases h
    · cases h
      refine threw_of_throwing rfl (fun code he => ?_) fun db hdb => .wasReset rfl hdb
      exact mayFail_ofStore (reset_error he) (by simp)
  · cases h
    refine threw_of_throwing rfl (fun code he => ?_) fun v hv => .verified hv
    exact mayFail_ofStore (truthful_of_ne (verifyChanges_error he)) (by simp)
  · cases h
    refine threw_of_throwing rfl (fun code he => ?_) fun reused hr => .fenced hr
    exact mayFail_ofStore (applyPageFence_error he) (by simp)
  · cases h
    exact .wroteBlob
  · cases h
    refine threw_of_throwing rfl (fun code he => ?_) fun db hdb => .committed rfl hdb
    exact mayFail_ofStore (commitPage_error he) (by simp)
  · cases h
    exact .advanced rfl
  · cases h
    exact .resumed
  · cases h
    exact .repairsRead
  · split at h
    · cases h
    · cases h
      refine threw_of_throwing rfl (fun code he => ?_) fun v hv => ?_
      · exact mayFail_ofStore (truthful_of_ne (repairChanges_error he)) (by simp)
      · split
        · exact .batchEmpty
        · refine threw_of_throwing rfl (fun code he => ?_) fun window hw => .batchFetched hv
          exact mayFail_ofStore (truthful_of_ne (syncWindow_error he)) (by simp)
  · cases h
    exact .finished
  · cases h
    exact stepped_of_catchError
  · cases h
    exact .marked rfl
  · cases h
    exact .gaveUp (.inr ⟨_, rfl⟩)
  · obtain ⟨⟨db, lease⟩, hacq, rfl⟩ := Option.map_eq_some_iff.mp h
    exact .resetBegan rfl hacq
  · split at h
    · rename_i db hdb
      cases h
      exact .resetDone rfl hdb
    · cases h
      exact .gaveUp (.inl rfl)
  · cases h
    exact .gaveUp (.inl rfl)
  · cases h
    exact .released
  · obtain ⟨a, ha, rfl⟩ := Option.map_eq_some_iff.mp h
    refine threw_of_throwing ha (fun code he => ?_) fun db hdb => .renewed ha hdb
    exact mayFail_of_renewLease he
  · split at h
    · rename_i hm
      obtain ⟨a, ha, rfl⟩ := Option.map_eq_some_iff.mp h
      exact .threw ha hm
    · cases h
  · cases h

inductive Stepped (contentHash : ByteArray → String) (s : State) (a : Action) : State → Prop
  | session {y act u} : a = .session y act → (s.collecting = some y → False) →
      (act.writes = true → s.collecting = none) →
      sessionStep contentHash s y (s.sessions y) act = some u →
      SessionStepped contentHash s y act (s.sessions y) u → Stepped contentHash s a u
  | crashed {y} : Stepped contentHash s a
      { s.drop y with collecting := if s.collecting = some y then none else s.collecting }
  | collectBegan {y c lease now} : s.collecting = none → s.sessions y = some c → c.lease = some lease →
      (∀ a m o p reused unwritten, c ≠ .writing a m o p reused unwritten) →
      checkLease s.db.row lease now = .ok () → Stepped contentHash s a { s with collecting := some y }
  | collectEnded : Stepped contentHash s a { s with collecting := none }
  | unlinked {hash} : s.collecting.isSome = true → referenced s.db.entries hash = false →
      Stepped contentHash s a { s with db := unlinkBlob s.db hash }
  | purged {hash} : s.db.row.revokedDetail.isSome = true →
      Stepped contentHash s a { s with db := unlinkBlob s.db hash }
  | installed {g} : a = .installGrant g → s.collecting = none → Stepped contentHash s a { s with db := installGrant s.db g }
  | retention {cid} : Stepped contentHash s a { s with db := setRetentionGrant s.db cid }

lemma stepped_of_step {a : Action} (h : step contentHash s a = some t) : Stepped contentHash s a t := by
  cases a with
  | session x act =>
    simp only [step] at h
    split at h
    · cases h
    · rename_i hc
      rw [Bool.or_eq_true, not_or] at hc
      refine .session rfl (fun he => hc.1 (by simpa using he)) (fun hw => ?_) h (stepped_of_sessionStep h)
      simpa [hw] using hc.2
  | crash x =>
    cases h
    exact .crashed
  | beginCollect x now =>
    simp only [step] at h
    split at h
    · cases h
    · rename_i hc
      split at h
      · cases h
      · cases h
      · rename_i c hw hs
        obtain ⟨lease, hl, h⟩ := Option.bind_eq_some_iff.mp h
        split at h
        · rename_i hl'
          cases h
          refine .collectBegan (by simpa using hc) hs hl ?_ hl'
          intro a m o p reused unwritten he
          exact hw a m o p reused unwritten he
        · cases h
  | unlink hash =>
    simp only [step, Option.ite_none_right_eq_some, Bool.and_eq_true, Bool.not_eq_true',
      Option.some.injEq] at h
    obtain ⟨⟨hc, hr⟩, rfl⟩ := h
    exact .unlinked hc hr
  | endCollect =>
    simp only [step, Option.ite_none_right_eq_some, Option.some.injEq] at h
    obtain ⟨_, rfl⟩ := h
    exact .collectEnded
  | purge hash =>
    simp only [step, Option.ite_none_right_eq_some, Option.some.injEq] at h
    obtain ⟨hr, rfl⟩ := h
    exact .purged hr
  | installGrant g =>
    simp only [step, Option.ite_none_left_eq_some, Option.some.injEq] at h
    obtain ⟨hc, rfl⟩ := h
    exact .installed rfl (by simpa using hc)
  | setRetentionGrant cid =>
    simp only [step, Option.ite_none_left_eq_some, Option.some.injEq] at h
    obtain ⟨_, rfl⟩ := h
    exact .retention

lemma Session.lease_of_attempt {c : Session} {a : Attempt} (h : c.attempt = some a) :
    c.lease = some a.lease := by
  cases c <;> simp_all [Session.attempt, Session.lease]

lemma acquireSyncLease_eq {db db' : Db} {holder : String} {ttlMs now : ℕ} {lease : LeaseToken}
    (h : acquireSyncLease db holder ttlMs now = some (db', lease)) :
    db' = { db with row := { db.row with
        leaseToken := db.row.leaseToken + 1
        leaseHolder := some holder
        leaseExpiresAt := some (now + ttlMs) } } ∧ lease.token = db.row.leaseToken + 1 := by
  simp only [acquireSyncLease, Option.ite_none_left_eq_some, Option.some.injEq, Prod.mk.injEq] at h
  obtain ⟨_, rfl, rfl⟩ := h
  exact ⟨rfl, rfl⟩

lemma firstAttempt_lease {lease : LeaseToken} {pending active : Option GrantRecord} {a : Attempt}
    (h : firstAttempt lease pending active = some a) : a.lease = lease := by
  unfold firstAttempt at h
  split at h <;> cases h <;> rfl

lemma renewLease_eq {db db' : Db} {lease : LeaseToken} {ttlMs now : ℕ}
    (h : renewLease db lease ttlMs now = .ok db') :
    db' = { db with row := { db.row with leaseExpiresAt := some (now + ttlMs) } } := by
  obtain ⟨_, _, h⟩ := bind_eq_ok h
  cases h
  rfl

@[simp] lemma put_sessions_self {c : Session} : (s.put x c).sessions x = some c := by
  simp [State.put]

lemma put_sessions_of_ne {c : Session} {y : ℕ} (h : y ≠ x) : (s.put x c).sessions y = s.sessions y := by
  simp [State.put, h]

@[simp] lemma drop_sessions_self : (s.drop x).sessions x = none := by
  simp [State.drop]

lemma drop_sessions_of_ne {y : ℕ} (h : y ≠ x) : (s.drop x).sessions y = s.sessions y := by
  simp [State.drop, h]

/-- The rows a sync works on, and the two fields that fence it. -/
structure SameContent (db db' : Db) : Prop where
  entries : db'.entries = db.entries
  cursor : db'.row.cursor = db.row.cursor
  coverage : db'.row.coverage = db.row.coverage
  leaseToken : db'.row.leaseToken = db.row.leaseToken
  revokedDetail : db'.row.revokedDetail = db.row.revokedDetail

section SameContent

variable (db : Db)

lemma SameContent.refl : SameContent db db :=
  ⟨rfl, rfl, rfl, rfl, rfl⟩

lemma sameContent_installGrant (g : GrantRecord) : SameContent db (installGrant db g) := by
  unfold installGrant
  split <;> exact ⟨rfl, rfl, rfl, rfl, rfl⟩

lemma sameContent_discardPendingGrant (cid : String) : SameContent db (discardPendingGrant db cid) := by
  unfold discardPendingGrant
  split <;> exact ⟨rfl, rfl, rfl, rfl, rfl⟩

lemma sameContent_setRetentionGrant (cid : Option String) :
    SameContent db (setRetentionGrant db cid) := by
  unfold setRetentionGrant
  split <;> exact ⟨rfl, rfl, rfl, rfl, rfl⟩

lemma sameContent_markRetentionRevoked (cid detail : String) :
    SameContent db (markRetentionRevoked db cid detail) := by
  unfold markRetentionRevoked
  split <;> exact ⟨rfl, rfl, rfl, rfl, rfl⟩

lemma sameContent_releaseLease (lease : LeaseToken) : SameContent db (releaseLease db lease) := by
  unfold releaseLease
  split <;> exact ⟨rfl, rfl, rfl, rfl, rfl⟩

lemma sameContent_writeBlob (hash : String) (bytes : ByteArray) :
    SameContent db (writeBlob db hash bytes) :=
  ⟨rfl, rfl, rfl, rfl, rfl⟩

lemma sameContent_unlinkBlob (hash : String) : SameContent db (unlinkBlob db hash) :=
  ⟨rfl, rfl, rfl, rfl, rfl⟩

variable {db}

lemma sameContent_renewLease {db' : Db} {lease : LeaseToken} {ttlMs now : ℕ}
    (h : renewLease db lease ttlMs now = .ok db') : SameContent db db' := by
  rw [renewLease_eq h]
  exact ⟨rfl, rfl, rfl, rfl, rfl⟩

end SameContent

def Holding (db : Db) (c : Session) : Prop :=
  db.row.revokedDetail = none ∧ ∃ lease, c.lease = some lease ∧ lease.token = db.row.leaseToken

/-- What a session's step does to the rows: nothing, an acquisition, a change by
the holder of the lease, or the revocation. -/
inductive RowsChange (act : SessionAction) (c : Option Session) (s t : State) : Prop
  | same : SameContent s.db t.db → t.history = s.history → RowsChange act c s t
  | acquired : act.writes = true → t.db.entries = s.db.entries → t.db.row.cursor = s.db.row.cursor →
      t.db.row.coverage = s.db.row.coverage → t.db.row.revokedDetail = s.db.row.revokedDetail →
      t.db.row.leaseToken = s.db.row.leaseToken + 1 → t.history = s.history → RowsChange act c s t
  | held {d : Session} : act.writes = true → c = some d → Holding s.db d →
      t.db.row.leaseToken = s.db.row.leaseToken →
      t.db.row.revokedDetail = s.db.row.revokedDetail → RowsChange act c s t
  | revoked : act.writes = true → t.db.row.revokedDetail.isSome = true →
      t.db.row.leaseToken = s.db.row.leaseToken + 1 → RowsChange act c s t

lemma commitRow_row (row : ReplicaRow) (p : VerifiedPage) :
    (commitRow row p).cursor = p.cursor ∧ (commitRow row p).coverage = p.coverage ∧
      (commitRow row p).leaseToken = row.leaseToken ∧
      (commitRow row p).revokedDetail = row.revokedDetail ∧
      (commitRow row p).grant = (p.promoteGrant <|> row.grant) := by
  have hattest : (attestRow row p).leaseToken = row.leaseToken ∧
      (attestRow row p).revokedDetail = row.revokedDetail ∧ (attestRow row p).grant = row.grant := by
    unfold attestRow
    split
    · exact ⟨rfl, rfl, rfl⟩
    · split <;> exact ⟨rfl, rfl, rfl⟩
  unfold commitRow promoteRow
  split
  · rename_i hp
    exact ⟨rfl, rfl, hattest.1, hattest.2.1, by simp [hp, hattest.2.2]⟩
  · rename_i hp
    exact ⟨rfl, rfl, hattest.1, hattest.2.1, by simp [hp]⟩

lemma SessionStepped.rows {c : Option Session} (h : SessionStepped contentHash s x act c t) :
    RowsChange act c s t := by
  cases h with
  | acquired hact hacq ha =>
    obtain ⟨rfl, _⟩ := acquireSyncLease_eq hacq
    exact .acquired (by rw [hact]; rfl) rfl rfl rfl rfl rfl rfl
  | resetBegan hact hacq =>
    obtain ⟨rfl, _⟩ := acquireSyncLease_eq hacq
    exact .acquired (by rw [hact]; rfl) rfl rfl rfl rfl rfl rfl
  | wasReset hact hr | resetDone hact hr =>
    obtain ⟨⟨hrev, htok⟩, _, _, hlt, hrd, _⟩ := reset_ok hr
    exact .held (by rw [hact]; rfl) rfl ⟨hrev, _, rfl, htok.symm⟩ hlt hrd
  | @committed a m o p _ _ _ hact hc =>
    obtain ⟨⟨hrev, htok⟩, rfl⟩ := commitPage_ok hc
    obtain ⟨_, _, hlt, hrd, _⟩ := commitRow_row s.db.row p
    exact .held (by rw [hact]; rfl) rfl ⟨hrev, _, rfl, htok.symm⟩ hlt hrd
  | marked hact => exact .revoked (by rw [hact]; rfl) rfl rfl
  | discarded _ _ => exact .same (sameContent_discardPendingGrant _ _) rfl
  | learnedRetention => exact .same (sameContent_markRetentionRevoked _ _ _) rfl
  | released => exact .same (sameContent_releaseLease _ _) rfl
  | wroteBlob => exact .same (sameContent_writeBlob _ _ _) rfl
  | renewed _ hr => exact .same (sameContent_renewLease hr) rfl
  | _ => exact .same (.refl _) rfl

lemma SessionStepped.other {c : Option Session} (h : SessionStepped contentHash s x act c t) {y : ℕ}
    (hy : y ≠ x) : t.sessions y = s.sessions y := by
  cases h with
  | refused => exact drop_sessions_of_ne hy
  | released => exact drop_sessions_of_ne hy
  | renewed _ _ => rfl
  | _ => exact put_sessions_of_ne hy

lemma SessionStepped.leaseToken_le {c : Option Session} (h : SessionStepped contentHash s x act c t) :
    s.db.row.leaseToken ≤ t.db.row.leaseToken := by
  cases h.rows with
  | same hsame _ => exact hsame.leaseToken.ge
  | acquired _ _ _ _ _ hl _ => omega
  | held _ _ _ hl _ => exact hl.ge
  | revoked _ _ hl => omega

lemma SessionStepped.lease_cases {c : Option Session} (h : SessionStepped contentHash s x act c t)
    (hx : s.sessions x = c) {d : Session} {lease : LeaseToken} (hd : t.sessions x = some d)
    (hl : d.lease = some lease) :
    (∃ c', c = some c' ∧ c'.lease = some lease) ∨
      ((∃ a, d = .attempting a) ∨ d = .resetting lease) ∧
        lease.token = s.db.row.leaseToken + 1 ∧ t.db.row.leaseToken = s.db.row.leaseToken + 1 := by
  cases h with
  | acquired _ hacq ha =>
    rw [put_sessions_self, Option.some.injEq] at hd
    subst hd
    obtain ⟨rfl, htok⟩ := acquireSyncLease_eq hacq
    rw [Session.lease, firstAttempt_lease ha, Option.some.injEq] at hl
    subst hl
    exact .inr ⟨.inl ⟨_, rfl⟩, htok, rfl⟩
  | resetBegan _ hacq =>
    rw [put_sessions_self, Option.some.injEq] at hd
    subst hd
    obtain ⟨rfl, htok⟩ := acquireSyncLease_eq hacq
    rw [Session.lease, Option.some.injEq] at hl
    subst hl
    exact .inr ⟨.inr rfl, htok, rfl⟩
  | refused =>
    rw [drop_sessions_self] at hd
    cases hd
  | released =>
    rw [drop_sessions_self] at hd
    cases hd
  | renewed ha hr =>
    have hd : s.sessions x = some d := hd
    exact .inl ⟨d, hx.symm.trans hd, hl⟩
  | started _ =>
    rw [put_sessions_self, Option.some.injEq] at hd
    subst hd
    cases hl
  | threw ha _ =>
    rw [put_sessions_self, Option.some.injEq] at hd
    subst hd
    exact .inl ⟨_, rfl, (Session.lease_of_attempt ha).trans hl⟩
  | gaveUp hc =>
    rw [put_sessions_self, Option.some.injEq] at hd
    subst hd
    rcases hc with rfl | ⟨g, rfl⟩
    · exact .inl ⟨_, rfl, hl⟩
    · exact .inl ⟨_, rfl, hl⟩
  | advanced hc =>
    rw [put_sessions_self, Option.some.injEq] at hd
    subst hd
    subst hc
    refine .inl ⟨_, rfl, ?_⟩
    split at hl <;> exact hl
  | _ =>
    rw [put_sessions_self, Option.some.injEq] at hd
    subst hd
    exact .inl ⟨_, rfl, hl⟩

end TinyCloud.Replica
