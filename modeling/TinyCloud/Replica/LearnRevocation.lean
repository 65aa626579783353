import TinyCloud.Replica.Steps

/-! A sync that learns a revocation destroys the replica of the grant it asked
under; whether that is still the replica's grant depends on what replaced it meanwhile. -/

namespace TinyCloud.Replica

open Runs

/-- The grant is the active one, or the only candidate. -/
def Bound (row : ReplicaRow) (cid : String) : Prop :=
  row.grant.map GrantRecord.cid = some cid ∨
    (row.grant = none ∧ row.pendingGrant.map GrantRecord.cid = some cid)

instance (row : ReplicaRow) (cid : String) : Decidable (Bound row cid) :=
  inferInstanceAs (Decidable (_ ∨ _))

def Attempt.learnable (a : Attempt) : GrantRecord :=
  (canFallBack a).getD a.grant

/-- The grant whose refusal as revoked the session would learn. -/
def Session.learnable : Session → Option GrantRecord
  | .opened pending active => active <|> pending
  | .attempting a | .requesting a _ | .verifying a _ _ _ _ | .applying a _ _ _
  | .writing a _ _ _ _ _ | .drained a _ | .repairing a _ _ => some a.learnable
  | .committed a _ _ _ => some a.grant
  | .failing a e =>
    match canFallBack a with
    | some grant => if e.code = .grantRevoked ∨ pendingRefusal e.code then some grant else none
    | none => if e.code = .grantRevoked then some a.grant else none
  | .marking _ refused => some refused
  | .resetting _ | .releasing _ => none

/-- A page promotes a grant, and a grant is installed where none is active, only
while no other sync would learn the revocation of another one. -/
def ReplacesAlone (s : State) : Action → Prop
  | .session x (.commit now) => ∀ a m o p reused db, s.sessions x = some (.writing a m o p reused []) →
      commitPage s.db a.lease p reused now = .ok db → ∀ g, p.promoteGrant = some g →
      ∀ y c g', y ≠ x → s.sessions y = some c → c.learnable = some g' → g'.cid = g.cid
  | .installGrant g => s.db.row.grant = none →
      ∀ y c g', s.sessions y = some c → c.learnable = some g' → g'.cid = g.cid
  | _ => True

/-- The promotion a session carries is that of its own grant, and it is over once
its first page is acknowledged. -/
def Session.Promotes : Session → Prop
  | .attempting a | .requesting a _ | .verifying a _ _ _ _ | .failing a _ =>
    ∀ g, a.promote = some g → g = a.grant
  | .applying a _ o p | .writing a _ o p _ _ | .committed a _ o p =>
    (∀ g, a.promote = some g → g = a.grant) ∧ p.promoteGrant = a.promote ∧
      ∀ rest, o = .repair rest → a.promote = none
  | .drained a _ | .repairing a _ _ => a.promote = none
  | _ => True

def Session.fallback : Session → Option GrantRecord
  | .opened pending active => if pending.isSome then active else none
  | .attempting a | .requesting a _ | .verifying a _ _ _ _ | .applying a _ _ _
  | .writing a _ _ _ _ _ | .committed a _ _ _ | .drained a _ | .repairing a _ _ | .failing a _ =>
    a.fallback
  | _ => none

structure LearnInv (s : State) : Prop where
  promotes : ∀ {x c}, s.sessions x = some c → c.Promotes
  fallback : ∀ {x c}, s.sessions x = some c → c.fallback.isSome = true → s.db.row.grant.isSome = true
  bound : ∀ {x c g}, s.sessions x = some c → c.learnable = some g →
    s.db.row.revokedDetail = none ∨ (∃ lease, c = .marking lease g) → Bound s.db.row g.cid

variable {contentHash : ByteArray → String} {s t : State} {x y : ℕ} {c : Option Session} {d : Session}
  {act : SessionAction}

lemma Bound.congr {row row' : ReplicaRow} {cid : String} (h : Bound row cid)
    (hg : row'.grant = row.grant) (hp : row'.pendingGrant = row.pendingGrant) : Bound row' cid := by
  unfold Bound
  rwa [hg, hp]

lemma Bound.of_grant {row row' : ReplicaRow} {cid : String} (h : Bound row cid)
    (hg : row'.grant = row.grant) (hs : row.grant.isSome = true) : Bound row' cid := by
  rcases h with h | ⟨hn, _⟩
  · exact .inl (hg ▸ h)
  · rw [hn] at hs
    cases hs

/-- The grant slots after a session's step: as before, promoted by its page, or
without the pending grant that the node refused beside an active one. -/
inductive SlotsChange (act : SessionAction) (c : Option Session) (s t : State) : Prop
  | same : t.db.row.grant = s.db.row.grant → t.db.row.pendingGrant = s.db.row.pendingGrant →
      SlotsChange act c s t
  | promoted {a m o p reused now g} : act = .commit now → c = some (.writing a m o p reused []) →
      commitPage s.db a.lease p reused now = .ok t.db → p.promoteGrant = some g →
      t.db.row.grant = some g → SlotsChange act c s t
  | discarded {a e} : c = some (.failing a e) → a.fallback.isSome = true →
      t.db.row.grant = s.db.row.grant → SlotsChange act c s t

lemma canFallBack_eq_some {a : Attempt} {grant : GrantRecord} (h : canFallBack a = some grant) :
    a.promote.isSome = true ∧ a.fallback = some grant := by
  simpa only [canFallBack, Option.ite_none_right_eq_some] using h

lemma commitRow_pendingGrant (row : ReplicaRow) (p : VerifiedPage) (h : p.promoteGrant = none) :
    (commitRow row p).pendingGrant = row.pendingGrant := by
  simp only [commitRow, promoteRow, h, attestRow]
  split
  · rfl
  · split <;> rfl

lemma SessionStepped.slots (h : SessionStepped contentHash s x act c t) : SlotsChange act c s t := by
  cases h with
  | @committed a m o p reused now db hact hc =>
    have hc' := hc
    obtain ⟨_, rfl⟩ := commitPage_ok hc
    obtain ⟨_, _, _, _, hg⟩ := commitRow_row s.db.row p
    cases hp : p.promoteGrant with
    | none => exact .same (by simpa [State.put, hp] using hg) (commitRow_pendingGrant _ _ hp)
    | some g => exact .promoted hact rfl hc' hp (by simpa [State.put, hp] using hg)
  | discarded hf _ =>
    refine .discarded rfl ?_ ?_
    · rw [(canFallBack_eq_some hf).2]
      rfl
    · simp only [State.put, discardPendingGrant]
      split <;> rfl
  | acquired _ hacq _ =>
    obtain ⟨rfl, _⟩ := acquireSyncLease_eq hacq
    exact .same rfl rfl
  | resetBegan _ hacq =>
    obtain ⟨rfl, _⟩ := acquireSyncLease_eq hacq
    exact .same rfl rfl
  | wasReset _ hr | resetDone _ hr =>
    obtain ⟨_, _, _, _, _, hg, hp⟩ := reset_ok hr
    exact .same hg hp
  | learnedRetention =>
    refine .same ?_ ?_
    · simp only [State.put, markRetentionRevoked]
      split <;> rfl
    · simp only [State.put, markRetentionRevoked]
      split <;> rfl
  | released =>
    refine .same ?_ ?_
    · simp only [State.drop, releaseLease]
      split <;> rfl
    · simp only [State.drop, releaseLease]
      split <;> rfl
  | renewed _ hr =>
    rw [renewLease_eq hr]
    exact .same rfl rfl
  | _ => exact .same rfl rfl

lemma LearnInv.promotes_self (hi : LearnInv s) (h : SessionStepped contentHash s x act c t)
    (hx : s.sessions x = c) (hd : t.sessions x = some d) : d.Promotes := by
  cases h with
  | refused =>
    rw [drop_sessions_self] at hd
    cases hd
  | released =>
    rw [drop_sessions_self] at hd
    cases hd
  | renewed _ _ => exact hi.promotes hd
  | acquired _ _ ha =>
    rw [put_sessions_self, Option.some.injEq] at hd
    subst hd
    unfold firstAttempt at ha
    split at ha <;> cases ha <;> simp [Session.Promotes, startAttempt]
  | @threw c' a e ha _ =>
    rw [put_sessions_self, Option.some.injEq] at hd
    subst hd
    have hp := hi.promotes hx
    cases c' with
    | applying a' m o p | writing a' m o p reused unwritten | committed a' m o p =>
      cases ha
      exact hp.1
    | drained a' m | repairing a' m rest =>
      cases ha
      intro g hg
      rw [show a.promote = none from hp] at hg
      cases hg
    | attempting a' | requesting a' m | verifying a' m reply page window =>
      cases ha
      exact hp
    | _ => cases ha
  | verified _ =>
    rw [put_sessions_self, Option.some.injEq] at hd
    subst hd
    exact ⟨hi.promotes hx, rfl, fun rest ho => by cases ho⟩
  | @advanced a m reply requested page p d' hd' =>
    rw [put_sessions_self, Option.some.injEq] at hd
    subst hd
    subst hd'
    split
    · intro g hg
      cases hg
    · rfl
  | resumed =>
    rw [put_sessions_self, Option.some.injEq] at hd
    subst hd
    exact (hi.promotes hx).2.2 _ rfl
  | @batchFetched a m rest _ _ _ hv =>
    rw [put_sessions_self, Option.some.injEq] at hd
    subst hd
    have hn : a.promote = none := hi.promotes hx
    refine ⟨fun g hg => ?_, hn.symm, fun _ _ => hn⟩
    rw [hn] at hg
    cases hg
  | discarded _ _ | fellBack _ _ =>
    rw [put_sessions_self, Option.some.injEq] at hd
    subst hd
    simp [Session.Promotes, startAttempt]
  | _ =>
    rw [put_sessions_self, Option.some.injEq] at hd
    subst hd
    first
    | trivial
    | have hp := hi.promotes hx
      exact hp

lemma SessionStepped.fallback_cases (h : SessionStepped contentHash s x act c t)
    (hx : s.sessions x = c) (hd : t.sessions x = some d) (hf : d.fallback.isSome = true) :
    (∃ c', c = some c' ∧ c'.fallback.isSome = true) ∨ s.db.row.grant.isSome = true := by
  cases h with
  | refused =>
    rw [drop_sessions_self] at hd
    cases hd
  | released =>
    rw [drop_sessions_self] at hd
    cases hd
  | renewed _ _ => exact .inl ⟨d, hx.symm.trans hd, hf⟩
  | started _ =>
    rw [put_sessions_self, Option.some.injEq] at hd
    subst hd
    right
    simp only [Session.fallback] at hf
    split at hf
    · exact hf
    · cases hf
  | @acquired pending active _ _ _ _ _ a _ _ ha =>
    rw [put_sessions_self, Option.some.injEq] at hd
    subst hd
    refine .inl ⟨_, rfl, ?_⟩
    unfold firstAttempt at ha
    split at ha
    · cases ha
      exact hf
    · cases ha
      cases hf
    · cases ha
  | @threw c' a e ha _ =>
    rw [put_sessions_self, Option.some.injEq] at hd
    subst hd
    refine .inl ⟨c', rfl, ?_⟩
    cases c' <;> cases ha <;> exact hf
  | @advanced a m reply requested page p d' hd' =>
    rw [put_sessions_self, Option.some.injEq] at hd
    subst hd
    subst hd'
    refine .inl ⟨_, rfl, ?_⟩
    split at hf <;> exact hf
  | discarded _ _ | fellBack _ _ =>
    rw [put_sessions_self, Option.some.injEq] at hd
    subst hd
    cases hf
  | _ =>
    rw [put_sessions_self, Option.some.injEq] at hd
    subst hd
    first
    | cases hf
    | exact .inl ⟨_, rfl, hf⟩

lemma LearnInv.bound_opened {pending active : Option GrantRecord} {row : ReplicaRow} {g : GrantRecord}
    (hp : row.pendingGrant = pending) (ha : row.grant = active) (h : (active <|> pending) = some g) :
    Bound row g.cid := by
  cases active with
  | some a =>
    cases h
    exact .inl (by rw [ha]; rfl)
  | none =>
    have hpending : pending = some g := h
    exact .inr ⟨ha, by rw [hp, hpending]; rfl⟩

lemma learnable_firstAttempt {lease : LeaseToken} {pending active : Option GrantRecord} {a : Attempt}
    (h : firstAttempt lease pending active = some a) :
    (active <|> pending) = some a.learnable := by
  unfold firstAttempt at h
  split at h
  · cases h
    cases active <;> simp [Attempt.learnable, canFallBack, startAttempt]
  · cases h
    simp [Attempt.learnable, canFallBack, startAttempt]
  · cases h

lemma learnable_startAttempt (lease : LeaseToken) (pendingCid : Option String) (grant : GrantRecord) :
    (startAttempt lease pendingCid grant none).learnable = grant := by
  unfold Attempt.learnable canFallBack
  split <;> rfl

lemma learnable_of_promote {a : Attempt} (h : a.promote = none) : a.learnable = a.grant := by
  simp [Attempt.learnable, canFallBack, h]

-- Once its page is committed a session may still fall back, but only when the
-- store is revoked, and then it learns nothing.
lemma learnable_of_threw {c' : Session} {a : Attempt} {e : SyncError} {g : GrantRecord}
    (ha : c'.attempt = some a) (hm : mayFail s.db.row c' e = true)
    (hrev : s.db.row.revokedDetail = none) (hg : (Session.failing a e).learnable = some g) :
    c'.learnable = some g := by
  have hlearn : ∀ a', (Session.failing a' e).learnable = some g → g = a'.learnable := by
    intro a' hg
    simp only [Session.learnable] at hg
    unfold Attempt.learnable
    split at hg
    · rename_i grant hf
      rw [hf]
      split at hg
      · exact (Option.some.inj hg).symm
      · cases hg
    · rename_i hf
      rw [hf]
      split at hg
      · exact (Option.some.inj hg).symm
      · cases hg
  cases c' with
  | committed a' m o p =>
    cases ha
    have hstore : e.byNode = false ∧ pendingRefusal e.code = false := by
      simp only [mayFail, Bool.and_eq_true, Bool.not_eq_true'] at hm
      exact hm.2
    have hcode : e.code ≠ .grantRevoked := by
      intro hc
      simp [mayFail, hc, hstore.1, hrev] at hm
    simp only [Session.learnable] at hg
    split at hg
    · simp [hcode, hstore.2] at hg
    · simp [hcode] at hg
  | _ =>
    first
    | cases ha
      exact congrArg some (hlearn _ hg).symm
    | cases ha

lemma LearnInv.bound_self (hi : LearnInv s) (h : SessionStepped contentHash s x act c t)
    (hx : s.sessions x = c) (hd : t.sessions x = some d) {g : GrantRecord}
    (hg : d.learnable = some g)
    (hlive : t.db.row.revokedDetail = none ∨ ∃ lease, d = .marking lease g) : Bound t.db.row g.cid := by
  cases h with
  | refused =>
    rw [drop_sessions_self] at hd
    cases hd
  | released =>
    rw [drop_sessions_self] at hd
    cases hd
  | renewed _ hr =>
    have hb := renewLease_eq hr
    subst hb
    exact (hi.bound hd hg hlive).congr rfl rfl
  | started _ =>
    rw [put_sessions_self, Option.some.injEq] at hd
    subst hd
    exact LearnInv.bound_opened rfl rfl hg
  | acquired _ hacq ha =>
    rw [put_sessions_self, Option.some.injEq] at hd
    subst hd
    obtain ⟨rfl, _⟩ := acquireSyncLease_eq hacq
    have hrev := hlive.resolve_right (by rintro ⟨_, ⟨⟩⟩)
    exact (hi.bound hx ((learnable_firstAttempt ha).trans hg) (.inl hrev)).congr rfl rfl
  | threw ha hm =>
    rw [put_sessions_self, Option.some.injEq] at hd
    subst hd
    have hrev := hlive.resolve_right (by rintro ⟨_, ⟨⟩⟩)
    exact hi.bound hx (learnable_of_threw ha hm hrev hg) (.inl hrev)
  | wasReset _ hr =>
    rw [put_sessions_self, Option.some.injEq] at hd
    subst hd
    obtain ⟨_, _, _, _, hrd, hgr, hp⟩ := reset_ok hr
    have hrev := hlive.resolve_right (by rintro ⟨_, ⟨⟩⟩)
    exact (hi.bound hx hg (.inl (hrd.symm.trans hrev))).congr hgr hp
  | @committed a m o p reused now db hact hc =>
    rw [put_sessions_self, Option.some.injEq] at hd
    subst hd
    obtain ⟨⟨hrev, _⟩, rfl⟩ := commitPage_ok hc
    obtain ⟨_, _, _, _, hgr⟩ := commitRow_row s.db.row p
    obtain ⟨hown, hpro, _⟩ := hi.promotes hx
    cases hg
    cases hp : p.promoteGrant with
    | some g =>
      have hag := hown g (hpro.symm.trans hp)
      subst hag
      exact .inl (by simp [State.put, hgr, hp])
    | none =>
      have hl : (Session.writing a m o p reused []).learnable = some a.grant :=
        congrArg some (learnable_of_promote (hpro.symm.trans hp))
      refine (hi.bound hx hl (.inl hrev)).congr ?_ (commitRow_pendingGrant _ _ hp)
      simp [State.put, hgr, hp]
  | @advanced a m reply requested page p d' hd' =>
    rw [put_sessions_self, Option.some.injEq] at hd
    subst hd
    subst hd'
    have hag : (Session.committed a m (.feed reply requested page) p).learnable = some g := by
      have hl : ({ a with promote := none } : Attempt).learnable = a.grant := learnable_of_promote rfl
      split at hg <;> exact (congrArg some hl).symm.trans hg
    refine hi.bound hx hag (.inl (hlive.resolve_right ?_))
    rintro ⟨lease, hm⟩
    split at hm <;> cases hm
  | @resumed a m rest p =>
    rw [put_sessions_self, Option.some.injEq] at hd
    subst hd
    have hag : (Session.committed a m (.repair rest) p).learnable = some g :=
      (congrArg some (learnable_of_promote ((hi.promotes hx).2.2 _ rfl))).symm.trans hg
    exact hi.bound hx hag (.inl (hlive.resolve_right (by rintro ⟨_, ⟨⟩⟩)))
  | @discarded a e grant hf hcode =>
    rw [put_sessions_self, Option.some.injEq] at hd
    subst hd
    have hag : (Session.failing a e).learnable = some g := by
      rw [Session.learnable, hf, ← hg]
      simp [hcode, Session.learnable, learnable_startAttempt]
    have hrev := hlive.resolve_right (by rintro ⟨_, ⟨⟩⟩)
    have hb := hi.bound hx hag (.inl ((sameContent_discardPendingGrant s.db _).revokedDetail ▸ hrev))
    refine hb.of_grant ?_ (hi.fallback hx ?_)
    · simp only [State.put, discardPendingGrant]
      split <;> rfl
    · rw [Session.fallback, (canFallBack_eq_some hf).2]
      rfl
  | @fellBack a e grant hf hcode =>
    rw [put_sessions_self, Option.some.injEq] at hd
    subst hd
    have hag : (Session.failing a e).learnable = some g := by
      rw [Session.learnable, hf, ← hg]
      simp [hcode, Session.learnable, learnable_startAttempt]
    exact hi.bound hx hag (.inl (hlive.resolve_right (by rintro ⟨_, ⟨⟩⟩)))
  | @learnedRevocation a e hf hcode hrev =>
    rw [put_sessions_self, Option.some.injEq] at hd
    subst hd
    cases hg
    exact hi.bound hx (by rw [Session.learnable, hf]; simp [hcode]) (.inl hrev)
  | ready _ | replied | verified _ | fenced _ | wroteBlob | repairsRead | batchEmpty | batchFetched _ =>
    rw [put_sessions_self, Option.some.injEq] at hd
    subst hd
    have hrev := hlive.resolve_right (by rintro ⟨_, ⟨⟩⟩)
    have hb := hi.bound hx hg (.inl hrev)
    exact hb
  | _ =>
    rw [put_sessions_self, Option.some.injEq] at hd
    subst hd
    cases hg

lemma SessionStepped.grant_isSome (h : SessionStepped contentHash s x act c t)
    (hg : s.db.row.grant.isSome = true) : t.db.row.grant.isSome = true := by
  cases h.slots with
  | same he _ => rwa [he]
  | promoted _ _ _ _ he =>
    rw [he]
    rfl
  | discarded _ _ he => rwa [he]

lemma LearnInv.bound_other (hi : LearnInv s) (h : SessionStepped contentHash s x act c t)
    (hx : s.sessions x = c) (hd : s.sessions y = some d) {g : GrantRecord}
    (hg : d.learnable = some g)
    (hlive : t.db.row.revokedDetail = none ∨ ∃ lease, d = .marking lease g)
    (hpromote : ∀ a m o p reused now g', act = .commit now → c = some (.writing a m o p reused []) →
      commitPage s.db a.lease p reused now = .ok t.db → p.promoteGrant = some g' → g.cid = g'.cid) :
    Bound t.db.row g.cid := by
  have hlive' : s.db.row.revokedDetail = none ∨ ∃ lease, d = .marking lease g := by
    refine hlive.imp (fun hr => ?_) id
    cases h.rows with
    | same hs _ => exact hs.revokedDetail ▸ hr
    | acquired _ _ _ _ hr' _ _ => exact hr' ▸ hr
    | held _ _ _ _ hr' => exact hr' ▸ hr
    | revoked _ hr' _ =>
      rw [hr] at hr'
      cases hr'
  have hb := hi.bound hd hg hlive'
  cases h.slots with
  | same hgr hp => exact hb.congr hgr hp
  | promoted hact hc hok hp hgr =>
    refine .inl ?_
    rw [hgr]
    exact congrArg some (hpromote _ _ _ _ _ _ _ hact hc hok hp).symm
  | discarded hc hf hgr =>
    subst hc
    exact hb.of_grant hgr (hi.fallback hx hf)

lemma LearnInv.session_step (hi : LearnInv s) (h : SessionStepped contentHash s x act c t)
    (hx : s.sessions x = c)
    (hpromote : ∀ a m o p reused now g', act = .commit now → c = some (.writing a m o p reused []) →
      commitPage s.db a.lease p reused now = .ok t.db → p.promoteGrant = some g' →
      ∀ y d g, y ≠ x → s.sessions y = some d → d.learnable = some g → g.cid = g'.cid) : LearnInv t := by
  refine ⟨?_, ?_, ?_⟩
  · intro y d hd
    by_cases hy : y = x
    · subst hy
      exact hi.promotes_self h hx hd
    · rw [h.other hy] at hd
      exact hi.promotes hd
  · intro y d hd hf
    refine h.grant_isSome ?_
    by_cases hy : y = x
    · subst hy
      rcases h.fallback_cases hx hd hf with ⟨c', rfl, hf'⟩ | hg
      · exact hi.fallback hx hf'
      · exact hg
    · rw [h.other hy] at hd
      exact hi.fallback hd hf
  · intro y d g hd hg hlive
    by_cases hy : y = x
    · subst hy
      exact hi.bound_self h hx hd hg hlive
    · rw [h.other hy] at hd
      exact hi.bound_other h hx hd hg hlive fun a m o p reused now g' hact hc hok hp =>
        hpromote a m o p reused now g' hact hc hok hp y d g hy hd hg

lemma LearnInv.quiet (hi : LearnInv s) (hr : t.db.row.revokedDetail = s.db.row.revokedDetail)
    (hg : t.db.row.grant = s.db.row.grant) (hs : ∀ y d, t.sessions y = some d → s.sessions y = some d)
    (hb : ∀ y d g, s.sessions y = some d → d.learnable = some g → Bound s.db.row g.cid →
      Bound t.db.row g.cid) : LearnInv t := by
  refine ⟨fun hd => hi.promotes (hs _ _ hd), ?_, ?_⟩
  · intro y d hd hf
    rw [hg]
    exact hi.fallback (hs y d hd) hf
  · intro y d g hd hl hlive
    exact hb y d g (hs y d hd) hl (hi.bound (hs y d hd) hl (hr ▸ hlive))

lemma installGrant_cases (db : Db) (g : GrantRecord) :
    (installGrant db g).row = db.row ∨ (installGrant db g).row = { db.row with pendingGrant := some g } := by
  unfold installGrant
  split
  · exact .inl rfl
  · exact .inr rfl

lemma LearnInv.of_stepped (hi : LearnInv s) {a : Action} (hg : ReplacesAlone s a)
    (h : Stepped contentHash s a t) : LearnInv t := by
  cases h with
  | session ha _ _ _ h =>
    subst ha
    refine hi.session_step h rfl ?_
    intro a m o p reused now g' hact hc hok hp y d g hy hd hl
    subst hact
    exact hg a m o p reused _ hc hok g' hp y d g hy hd hl
  | @installed g ha _ =>
    subst ha
    have hgrant : (installGrant s.db g).row.grant = s.db.row.grant := by
      rcases installGrant_cases s.db g with he | he <;> rw [he]
    refine hi.quiet (sameContent_installGrant _ _).revokedDetail hgrant (fun _ _ h => h) ?_
    intro y d g' hd hl hb
    rcases installGrant_cases s.db g with he | he
    · exact hb.congr hgrant (by rw [he])
    · rcases hb with hb | ⟨hn, _⟩
      · exact .inl (hgrant ▸ hb)
      · refine .inr ⟨hgrant.trans hn, ?_⟩
        rw [he]
        exact congrArg some (hg hn y d g' hd hl).symm
  | @crashed z =>
    refine hi.quiet rfl rfl (fun y d hd => ?_) fun _ _ _ _ _ hb => hb
    by_cases hy : y = z
    · subst hy
      rw [show _ = none from drop_sessions_self] at hd
      cases hd
    · exact (drop_sessions_of_ne hy).symm.trans hd
  | @retention cid =>
    have hrow : (setRetentionGrant s.db cid).row.grant = s.db.row.grant ∧
        (setRetentionGrant s.db cid).row.pendingGrant = s.db.row.pendingGrant := by
      unfold setRetentionGrant
      split <;> exact ⟨rfl, rfl⟩
    exact hi.quiet (sameContent_setRetentionGrant _ _).revokedDetail hrow.1 (fun _ _ h => h)
      fun _ _ _ _ _ hb => hb.congr hrow.1 hrow.2
  | _ => exact hi.quiet rfl rfl (fun _ _ h => h) fun _ _ _ _ _ hb => hb

lemma learnInv_of_within (h : (machine contentHash).Within ReplacesAlone s) : LearnInv s := by
  refine Machine.Within.invariant (I := LearnInv) h ?_ ?_
  · rintro s ⟨space, folder, policy, cid, rfl⟩
    refine ⟨fun hd => ?_, fun hd => ?_, fun hd => ?_⟩ <;> cases hd
  · intro s a t _ hi hg hs
    exact hi.of_stepped hg (stepped_of_step hs)

theorem mark_bound (contentHash : ByteArray → String) (s : State)
    (h : (machine contentHash).Within ReplacesAlone s) (x : ℕ) (detail : String)
    (hm : (step contentHash s (.session x (.mark detail))).isSome = true) :
    ∃ lease refused, s.sessions x = some (.marking lease refused) ∧ Bound s.db.row refused.cid := by
  obtain ⟨t, ht⟩ := Option.isSome_iff_exists.mp hm
  simp only [step] at ht
  split at ht
  · cases ht
  · cases hx : s.sessions x with
    | none =>
      rw [hx] at ht
      cases ht
    | some c =>
      rw [hx] at ht
      cases c with
      | marking lease refused =>
        exact ⟨lease, refused, rfl, (learnInv_of_within h).bound hx rfl (.inr ⟨lease, rfl⟩)⟩
      | _ => simp [sessionStep] at ht

def learnGrant (cid : String) : GrantRecord :=
  ⟨cid, none, none⟩

def learnPage : SyncPage where
  changes := [.deleted "notes/a"]
  more := false
  cursor := "c"
  source := ⟨"did:key:node", "default", "notes/"⟩
  authority := ⟨none, none, none⟩

def learnReads : PageReads :=
  ⟨fun _ => none, fun _ => false, fun _ => none⟩

def syncPageActions (x : ℕ) : List Action :=
  [.session x (.readState 0), .session x (.reply learnPage 0), .session x (.verify learnReads),
    .session x (.fence 0), .session x (.commit 0), .session x .advance,
    .session x (.startRepair fun _ => true), .session x .finish, .session x .release]

def refuseActions (x : ℕ) : List Action :=
  [.session x (.readState 0), .session x (.fail ⟨.grantRevoked, true, none⟩), .session x (.learn "")]

def learnStart : State :=
  initState "default" "notes/" .whileGrantValid none

-- For the runs of one sync alone: every other session is absent.
def aloneTest (s : State) : Action → Bool
  | .session x _ => x == 0
  | .installGrant _ => s.db.row.grant.isSome || (s.sessions 0).isNone
  | _ => false

lemma replacesAlone_of_aloneTest {s : State} {a : Action} (hs : ∀ y, y ≠ 0 → s.sessions y = none)
    (h : aloneTest s a = true) : ReplacesAlone s a := by
  cases a with
  | session x act =>
    obtain rfl : x = 0 := by simpa [aloneTest] using h
    cases act with
    | commit now =>
      intro _ _ _ _ _ _ _ _ _ _ y c g' hy hc
      rw [hs y hy] at hc
      cases hc
    | _ => trivial
  | installGrant g =>
    intro hn y c g' hc
    simp only [aloneTest, hn, Option.isSome_none, Bool.false_or, Option.isNone_iff_eq_none] at h
    by_cases hy : y = 0
    · rw [hy, h] at hc
      cases hc
    · rw [hs y hy] at hc
      cases hc
  | _ => trivial

lemma alone_of_step {a : Action} (hs : ∀ y, y ≠ 0 → s.sessions y = none) (h : aloneTest s a = true)
    (ht : step contentHash s a = some t) (y : ℕ) (hy : y ≠ 0) : t.sessions y = none := by
  cases stepped_of_step ht with
  | @session z _ _ ha _ _ _ hst =>
    subst ha
    obtain rfl : z = 0 := by simpa [aloneTest] using h
    exact (hst.other hy).trans (hs y hy)
  | @crashed z =>
    by_cases hz : y = z
    · subst hz
      exact drop_sessions_self
    · exact (drop_sessions_of_ne hz).trans (hs y hy)
  | _ => exact hs y hy

def emptyContentHash : ByteArray → String :=
  fun _ => "af1349b9f5f9a1a6a0404dea36dcc9499bcb25c9adc112b7cc9a93cae41f3262"

theorem mark_bound_sample : ∃ s, (machine emptyContentHash).Within ReplacesAlone s ∧
    (step emptyContentHash s (.session 0 (.mark ""))).isSome = true ∧
    ∃ lease refused, s.sessions 0 = some (.marking lease refused) ∧ Bound s.db.row refused.cid := by
  have hrun : ((machine emptyContentHash).runIf aloneTest learnStart
      ([.installGrant (learnGrant "a"), .session 0 .start, .session 0 (.acquire "p" 10 0)] ++
        syncPageActions 0 ++ [.session 0 .start, .session 0 (.acquire "p" 10 0)] ++ refuseActions 0)).map
        (fun s => (step emptyContentHash s (.session 0 (.mark ""))).isSome) = some true := by
    decide +kernel
  obtain ⟨s, hs, hm⟩ := Option.map_eq_some_iff.mp hrun
  have hw : (machine emptyContentHash).Within ReplacesAlone s :=
    .of_runIf (P := fun s => ∀ y, y ≠ 0 → s.sessions y = none)
      (.start ⟨"default", "notes/", .whileGrantValid, none, rfl⟩) (fun _ _ => rfl)
      (fun _ _ hp ha => replacesAlone_of_aloneTest hp ha)
      (fun _ _ _ hp ha ht => alone_of_step hp ha ht) hs
  exact ⟨s, hw, hm, mark_bound emptyContentHash s hw 0 "" hm⟩

/-- The grant that the second session is about to mark is bound. -/
def marksBound (s : State) : Bool :=
  match s.sessions 1 with
  | some (.marking _ refused) => decide (Bound s.db.row refused.cid)
  | _ => true

/-- A sync that read grant a as its candidate destroys what another sync committed
under grant b, promoted before the node refused a. -/
theorem mark_destroys_replacement : ∃ s, (machine emptyContentHash).Reachable s ∧
    (step emptyContentHash s (.session 1 (.mark ""))).isSome = true ∧
    (∃ lease refused, s.sessions 1 = some (.marking lease refused) ∧ ¬ Bound s.db.row refused.cid) ∧
    s.db.entries ≠ [] := by
  have hrun : ((machine emptyContentHash).run learnStart
      ([.installGrant (learnGrant "a"), .session 0 .start, .session 0 (.acquire "p" 10 0)] ++
        syncPageActions 0 ++ [.session 1 .start, .installGrant (learnGrant "b"), .session 0 .start,
          .session 0 (.acquire "p" 10 0)] ++ syncPageActions 0 ++
        [.session 1 (.acquire "q" 10 0)] ++ refuseActions 1)).map
        (fun s => ((step emptyContentHash s (.session 1 (.mark ""))).isSome, s.db.entries.isEmpty, marksBound s)) =
      some (true, false, false) := by
    decide +kernel
  obtain ⟨s, hs, hm⟩ := Option.map_eq_some_iff.mp hrun
  rw [Prod.mk.injEq, Prod.mk.injEq] at hm
  obtain ⟨hstep, hentries, hbound⟩ := hm
  refine ⟨s, .of_run (.start ⟨"default", "notes/", .whileGrantValid, none, rfl⟩) hs, hstep, ?_, ?_⟩
  · unfold marksBound at hbound
    split at hbound
    · rename_i lease refused hx
      exact ⟨lease, refused, hx, of_decide_eq_false hbound⟩
    · cases hbound
  · intro he
    rw [he] at hentries
    cases hentries

end TinyCloud.Replica
