import TinyCloud.Replica.SerialFeed

/-! The content files under a replica: every file hashes to its name, and no
committed row of a replica that is not revoked is without its content. -/

namespace TinyCloud.Replica

open Runs

def Hashed (contentHash : ByteArray → String) (blobs : List (String × ByteArray)) : Prop :=
  ∀ b ∈ blobs, contentHash b.2 = b.1

def Session.fetched : Session → List (String × ByteArray)
  | .applying _ _ _ p => p.blobs
  | .writing _ _ _ _ _ unwritten => unwritten
  | _ => []

def Session.isWriting : Session → Bool
  | .writing _ _ _ _ _ _ => true
  | _ => false

def Backed (blobs : String → Option ByteArray) (unwritten : List (String × ByteArray)) (hash : String) :
    Prop :=
  hash ∈ unwritten.map Prod.fst ∨ (blobs hash).isSome = true

structure FilesInv (contentHash : ByteArray → String) (s : State) : Prop where
  hashed : ∀ {hash bytes}, s.db.blobs hash = some bytes → contentHash bytes = hash
  backed : s.db.row.revokedDetail = none → ∀ {e row}, e ∈ s.db.entries → e.entry = .live row →
    row.content = true → (s.db.blobs row.hash).isSome = true
  fetched : ∀ {x c}, s.sessions x = some c → Hashed contentHash c.fetched
  written : ∀ {x a m o p reused unwritten}, s.sessions x = some (.writing a m o p reused unwritten) →
    Holding s.db (.writing a m o p reused unwritten) →
    ∀ {row}, .live row ∈ p.changes → row.content = true → Backed s.db.blobs unwritten row.hash
  collector : ∀ {x}, s.collecting = some x →
    ∃ c, s.sessions x = some c ∧ Holding s.db c ∧ c.isWriting = false

variable {contentHash : ByteArray → String} {s t : State} {x y : ℕ} {c : Option Session} {d : Session}
  {act : SessionAction}

section Fetched

variable {blobs : List (String × ByteArray)}

lemma acceptContent_some {expected : Candidate} {fetched : Option FetchedContent} {bytes : ByteArray}
    (h : acceptContent contentHash expected fetched = .ok (some bytes)) :
    contentHash bytes = expected.hash := by
  unfold acceptContent at h
  split at h
  · cases h
  · cases h
  · split at h
    · rename_i hh
      cases h
      exact hh
    · split at h <;> cases h

lemma hashed_setBlob {hash : String} {bytes : ByteArray} (h : Hashed contentHash blobs)
    (hb : contentHash bytes = hash) : Hashed contentHash (setBlob blobs hash bytes) := by
  intro b hm
  rcases List.mem_append.mp hm with hm | hm
  · exact h b (List.mem_of_mem_filter hm)
  · rw [List.mem_singleton.mp hm]
    exact hb

lemma hashed_verifyChange {reads : PageReads} {ch : Change}
    {v : VerifiedChange × List (String × ByteArray)} (h : Hashed contentHash blobs)
    (hv : verifyChange contentHash reads blobs ch = .ok v) : Hashed contentHash v.2 := by
  unfold verifyChange at hv
  split at hv
  · cases hv
    exact h
  · split at hv
    · cases hv
    · split at hv
      · cases hv
        exact h
      · split at hv
        · cases hv
        · cases hv
          exact h
        · rename_i ha
          cases hv
          exact hashed_setBlob h (acceptContent_some ha)

lemma hashed_verifyChanges {reads : PageReads} {cs : List Change}
    {v : List VerifiedChange × List (String × ByteArray)} (h : Hashed contentHash blobs)
    (hv : verifyChanges contentHash reads cs blobs = .ok v) : Hashed contentHash v.2 := by
  induction cs generalizing blobs v with
  | nil =>
    cases hv
    exact h
  | cons ch cs ih =>
    obtain ⟨w, hw, hv⟩ := bind_eq_ok hv
    obtain ⟨ws, hws, hv⟩ := bind_eq_ok hv
    cases hv
    have hn := ih (hashed_verifyChange h hw) hws
    exact hn

lemma hashed_repairChanges {contents : String → Option FetchedContent} {rows : List LiveRow}
    {v : List VerifiedChange × List (String × ByteArray)} (h : Hashed contentHash blobs)
    (hv : repairChanges contentHash contents rows blobs = .ok v) : Hashed contentHash v.2 := by
  induction rows generalizing blobs v with
  | nil =>
    cases hv
    exact h
  | cons row rows ih =>
    obtain ⟨r, hr, hv⟩ := bind_eq_ok hv
    split at hv
    · exact ih h hv
    · obtain ⟨w, hw, hv⟩ := bind_eq_ok hv
      cases hv
      have hn := ih (hashed_setBlob h (acceptContent_some hr)) hw
      exact hn

lemma hashed_nil : Hashed contentHash [] := by
  intro b hb
  cases hb

end Fetched

lemma reusedSize_isSome {entries : List EntryRow} {hash : String}
    (h : (reusedSize entries hash).isSome = true) :
    ∃ e ∈ entries, ∃ row, e.entry = .live row ∧ row.content = true ∧ row.hash = hash := by
  obtain ⟨n, hn⟩ := Option.isSome_iff_exists.mp h
  obtain ⟨e, he, hs⟩ := List.exists_of_findSome?_eq_some hn
  split at hs
  · rename_i row hrow
    split at hs
    · rename_i hc
      rw [Bool.and_eq_true, beq_iff_eq] at hc
      exact ⟨e, he, row, hrow, hc.2, hc.1⟩
    · cases hs
  · cases hs

lemma mem_fst_of_lookup {blobs : List (String × ByteArray)} {hash : String}
    (h : (blobs.lookup hash).isSome = true) : hash ∈ blobs.map Prod.fst := by
  induction blobs with
  | nil => cases h
  | cons b bs ih =>
    rw [List.lookup_cons] at h
    rw [List.map_cons, List.mem_cons]
    cases hb : hash == b.1 with
    | true => exact .inl (beq_iff_eq.mp hb)
    | false =>
      rw [hb] at h
      exact .inr (ih h)

-- The fence accepts a page only when each of its contents is fetched or already referenced.
lemma applyPageFence_ok {db : Db} {lease : LeaseToken} {p : VerifiedPage} {now : ℕ}
    {reused : String → Option ℕ} (h : applyPageFence db lease p now = .ok reused) {row : LiveRow}
    (hm : .live row ∈ p.changes) (hc : row.content = true) :
    row.hash ∈ p.blobs.map Prod.fst ∨
      ∃ e ∈ db.entries, ∃ row', e.entry = .live row' ∧ row'.content = true ∧ row'.hash = row.hash := by
  obtain ⟨_, _, h⟩ := bind_eq_ok h
  obtain ⟨_, _, h⟩ := bind_eq_ok h
  dsimp only at h
  split at h
  · rename_i hall
    have hr := List.all_eq_true.mp hall _ hm
    simp only [hc, Bool.not_true, Bool.false_or, Bool.or_eq_true] at hr
    exact hr.imp mem_fst_of_lookup reusedSize_isSome
  · cases h

lemma SessionStepped.collecting_eq (h : SessionStepped contentHash s x act c t) :
    t.collecting = s.collecting := by
  cases h <;> rfl

lemma SessionStepped.blobs_cases (h : SessionStepped contentHash s x act c t) :
    t.db.blobs = s.db.blobs ∨ ∃ a m o p reused hash bytes unwritten,
      c = some (.writing a m o p reused ((hash, bytes) :: unwritten)) ∧
        t.db.blobs = (writeBlob s.db hash bytes).blobs := by
  cases h with
  | wroteBlob => exact .inr ⟨_, _, _, _, _, _, _, _, rfl, rfl⟩
  | acquired _ hacq _ | resetBegan _ hacq =>
    obtain ⟨rfl, _⟩ := acquireSyncLease_eq hacq
    exact .inl rfl
  | wasReset _ hr | resetDone _ hr =>
    obtain ⟨_, _, hr⟩ := bind_eq_ok hr
    cases hr
    exact .inl rfl
  | committed _ hc =>
    obtain ⟨_, rfl⟩ := commitPage_ok hc
    exact .inl rfl
  | renewed _ hr =>
    rw [renewLease_eq hr]
    exact .inl rfl
  | discarded _ _ =>
    refine .inl ?_
    simp only [State.put, discardPendingGrant]
    split <;> rfl
  | learnedRetention =>
    refine .inl ?_
    simp only [State.put, markRetentionRevoked]
    split <;> rfl
  | released =>
    refine .inl ?_
    simp only [State.drop, releaseLease]
    split <;> rfl
  | _ => exact .inl rfl

lemma SessionStepped.blobs_kept (h : SessionStepped contentHash s x act c t) {hash : String}
    (hb : (s.db.blobs hash).isSome = true) : (t.db.blobs hash).isSome = true := by
  rcases h.blobs_cases with he | ⟨_, _, _, _, _, hash', bytes, _, _, he⟩
  · rwa [he]
  · rw [he]
    simp only [writeBlob, Function.update_apply]
    split
    · rename_i hh
      cases s.db.blobs hash' <;> rfl
    · exact hb

lemma SessionStepped.entries_cases (h : SessionStepped contentHash s x act c t) :
    t.db.entries = s.db.entries ∨ t.db.entries = [] ∨ ∃ a m o p reused,
      c = some (.writing a m o p reused []) ∧ Holding s.db (.writing a m o p reused []) ∧
        t.db.entries = applyChanges s.db.entries p reused := by
  cases h with
  | @committed a m o p reused now db _ hc =>
    obtain ⟨⟨hrev, htok⟩, rfl⟩ := commitPage_ok hc
    exact .inr (.inr ⟨a, m, o, p, reused, rfl, ⟨hrev, _, rfl, htok.symm⟩, rfl⟩)
  | acquired _ hacq _ | resetBegan _ hacq =>
    obtain ⟨rfl, _⟩ := acquireSyncLease_eq hacq
    exact .inl rfl
  | wasReset _ hr | resetDone _ hr => exact .inr (.inl (reset_ok hr).2.1)
  | marked _ => exact .inr (.inl rfl)
  | discarded _ _ => exact .inl (sameContent_discardPendingGrant s.db _).entries
  | learnedRetention => exact .inl (sameContent_markRetentionRevoked s.db _ _).entries
  | released => exact .inl (sameContent_releaseLease s.db _).entries
  | renewed _ hr => exact .inl (sameContent_renewLease hr).entries
  | _ => exact .inl rfl

lemma SessionStepped.fetched_self (h : SessionStepped contentHash s x act c t) (hx : s.sessions x = c)
    (hi : FilesInv contentHash s) (hd : t.sessions x = some d) : Hashed contentHash d.fetched := by
  cases h with
  | refused =>
    rw [drop_sessions_self] at hd
    cases hd
  | released =>
    rw [drop_sessions_self] at hd
    cases hd
  | renewed _ _ =>
    have hd : s.sessions x = some d := hd
    exact hi.fetched hd
  | verified hv =>
    rw [put_sessions_self, Option.some.injEq] at hd
    subst hd
    exact hashed_verifyChanges hashed_nil hv
  | batchFetched hv =>
    rw [put_sessions_self, Option.some.injEq] at hd
    subst hd
    exact hashed_repairChanges hashed_nil hv
  | fenced _ =>
    rw [put_sessions_self, Option.some.injEq] at hd
    subst hd
    have hf := hi.fetched hx
    exact hf
  | wroteBlob =>
    rw [put_sessions_self, Option.some.injEq] at hd
    subst hd
    exact fun b hb => hi.fetched hx b (List.mem_cons_of_mem _ hb)
  | @advanced a m reply requested page p d' hd' =>
    rw [put_sessions_self, Option.some.injEq] at hd
    subst hd
    subst hd'
    split <;> exact hashed_nil
  | _ =>
    rw [put_sessions_self, Option.some.injEq] at hd
    subst hd
    exact hashed_nil

lemma FilesInv.hashed_step (hi : FilesInv contentHash s) (h : SessionStepped contentHash s x act c t)
    (hx : s.sessions x = c) {hash : String} {bytes : ByteArray} (hb : t.db.blobs hash = some bytes) :
    contentHash bytes = hash := by
  rcases h.blobs_cases with he | ⟨a, m, o, p, reused, hash', bytes', unwritten, rfl, he⟩
  · exact hi.hashed (he ▸ hb)
  · rw [he] at hb
    simp only [writeBlob, Function.update_apply] at hb
    split at hb
    · rename_i hh
      subst hh
      cases hold : s.db.blobs hash with
      | some old =>
        rw [hold] at hb
        cases hb
        exact hi.hashed hold
      | none =>
        rw [hold] at hb
        cases hb
        exact hi.fetched hx (hash, bytes) List.mem_cons_self
    · exact hi.hashed hb

lemma FilesInv.backed_step (hi : FilesInv contentHash s) (h : SessionStepped contentHash s x act c t)
    (hx : s.sessions x = c) (hrev : t.db.row.revokedDetail = none) {e : EntryRow} {row : LiveRow}
    (he : e ∈ t.db.entries) (hrow : e.entry = .live row) (hc : row.content = true) :
    (t.db.blobs row.hash).isSome = true := by
  have hrev := h.rows.revokedDetail_eq_none hrev
  rcases h.entries_cases with hs | hs | ⟨a, m, o, p, reused, rfl, hh, hs⟩
  · exact h.blobs_kept (hi.backed hrev (hs ▸ he) hrow hc)
  · rw [hs] at he
    cases he
  · rw [hs] at he
    rcases mem_applyChanges he with he | he
    · exact h.blobs_kept (hi.backed hrev he hrow hc)
    · rw [hrow] at he
      rcases hi.written hx hh he hc with hm | hb
      · cases hm
      · exact h.blobs_kept hb

lemma FilesInv.written_self (hi : FilesInv contentHash s) (hs : SerialInv s)
    (h : SessionStepped contentHash s x act c t) (hx : s.sessions x = c) {a : Attempt} {m : Memory}
    {o : Origin} {p : VerifiedPage} {reused : String → Option ℕ} {unwritten : List (String × ByteArray)}
    (hd : t.sessions x = some (.writing a m o p reused unwritten))
    (hh : Holding t.db (.writing a m o p reused unwritten)) {row : LiveRow} (hm : .live row ∈ p.changes)
    (hc : row.content = true) : Backed t.db.blobs unwritten row.hash := by
  have hbefore := hs.holding_before h hx hd hh
  have hrev := h.rows.revokedDetail_eq_none hh.1
  have hgrow : ∀ {hash}, (s.db.blobs hash).isSome = true → (t.db.blobs hash).isSome = true := h.blobs_kept
  cases h with
  | refused =>
    rw [drop_sessions_self] at hd
    cases hd
  | released =>
    rw [drop_sessions_self] at hd
    cases hd
  | renewed ha hr =>
    have hd : s.sessions x = some _ := hd
    rw [hx] at hd
    cases hd
    rw [renewLease_eq hr] at hh ⊢
    exact hi.written hx hh hm hc
  | fenced hf =>
    rw [put_sessions_self, Option.some.injEq] at hd
    cases hd
    rcases applyPageFence_ok hf hm hc with hb | ⟨e, he, row', hrow, hc', hhash⟩
    · exact .inl hb
    · exact .inr (hhash ▸ hi.backed hrev he hrow hc')
  | @wroteBlob a m o p reused hash bytes unwritten =>
    rw [put_sessions_self, Option.some.injEq] at hd
    cases hd
    rcases hbefore with ⟨_, he⟩ | ⟨_, he⟩ | ⟨c', hc', hold⟩
    · cases he
    · cases he
    · cases hc'
      rcases hi.written hx hold hm hc with hw | hw
      · rw [List.map_cons, List.mem_cons] at hw
        rcases hw with hw | hw
        · refine .inr ?_
          simp only [State.put, writeBlob, hw, Function.update_self]
          cases s.db.blobs hash <;> rfl
        · exact .inl hw
      · exact .inr (hgrow hw)
  | @advanced a m reply requested page p d' hd' =>
    rw [put_sessions_self, Option.some.injEq] at hd
    subst hd'
    split at hd <;> cases hd
  | _ =>
    rw [put_sessions_self, Option.some.injEq] at hd
    cases hd

lemma FilesInv.session_step (hi : FilesInv contentHash s) (hs : SerialInv s)
    (h : SessionStepped contentHash s x act c t) (hx : s.sessions x = c)
    (hself : s.collecting = some x → False) (hlock : act.writes = true → s.collecting = none) :
    FilesInv contentHash t := by
  refine ⟨hi.hashed_step h hx, hi.backed_step h hx, ?_, ?_, ?_⟩
  · intro y d hd
    by_cases hy : y = x
    · subst hy
      exact h.fetched_self hx hi hd
    · rw [h.other hy] at hd
      exact hi.fetched hd
  · intro y a m o p reused unwritten hd hh row hm hc
    by_cases hy : y = x
    · subst hy
      exact hi.written_self hs h hx hd hh hm hc
    · rw [h.other hy] at hd
      obtain ⟨hh, _⟩ := hs.same_of_other h hx hy hd hh
      exact (hi.written hd hh hm hc).imp id h.blobs_kept
  · intro z hz
    rw [h.collecting_eq] at hz
    obtain ⟨d, hd, ⟨hrev, lease, hl, htok⟩, hw⟩ := hi.collector hz
    have hne : z ≠ x := fun he => hself (he ▸ hz)
    have hwrites : act.writes ≠ true := fun hw => by
      rw [hlock hw] at hz
      cases hz
    refine ⟨d, (h.other hne).trans hd, ?_, hw⟩
    cases h.rows with
    | same hsame _ =>
      exact ⟨hsame.revokedDetail.trans hrev, lease, hl, htok.trans hsame.leaseToken.symm⟩
    | acquired hw _ _ _ _ _ _ | held hw _ _ _ _ | revoked hw _ _ => exact (hwrites hw).elim

-- A step that leaves the rows and the files alone, and at most drops a session.
lemma FilesInv.quiet (hi : FilesInv contentHash s) (hdb : SameContent s.db t.db)
    (hb : t.db.blobs = s.db.blobs) (hs : ∀ y d, t.sessions y = some d → s.sessions y = some d)
    (hcollect : ∀ z, t.collecting = some z →
      ∃ c, t.sessions z = some c ∧ Holding t.db c ∧ c.isWriting = false) : FilesInv contentHash t := by
  refine ⟨?_, ?_, fun hd => hi.fetched (hs _ _ hd), ?_, fun hz => hcollect _ hz⟩
  · rw [hb]
    exact hi.hashed
  · rw [hb, hdb.entries, hdb.revokedDetail]
    exact hi.backed
  · intro y a m o p reused unwritten hd ⟨hrev, lease, hl, htok⟩ row hm hc
    rw [hb]
    refine hi.written (hs _ _ hd) ⟨?_, lease, hl, ?_⟩ hm hc
    · exact hdb.revokedDetail ▸ hrev
    · exact htok.trans hdb.leaseToken

lemma FilesInv.collector_same (hi : FilesInv contentHash s) {db : Db} (hdb : SameContent s.db db) (z : ℕ)
    (hz : s.collecting = some z) :
    ∃ c, s.sessions z = some c ∧ Holding db c ∧ c.isWriting = false := by
  obtain ⟨d, hd, ⟨hrev, lease, hl, htok⟩, hw⟩ := hi.collector hz
  exact ⟨d, hd, ⟨hdb.revokedDetail.trans hrev, lease, hl, htok.trans hdb.leaseToken.symm⟩, hw⟩

-- While one holder of the lease collects, no other one has a page half written.
lemma FilesInv.unlinked (hi : FilesInv contentHash s) (hs : SerialInv s) {hash : String}
    (hc : s.collecting.isSome = true) (hr : referenced s.db.entries hash = false) :
    FilesInv contentHash { s with db := unlinkBlob s.db hash } := by
  refine ⟨?_, ?_, hi.fetched, ?_, hi.collector_same (sameContent_unlinkBlob _ _) _⟩
  · intro hash' bytes hb
    simp only [unlinkBlob, Function.update_apply] at hb
    split at hb
    · cases hb
    · exact hi.hashed hb
  · intro hrev e row he hrow hcontent
    simp only [unlinkBlob, Function.update_apply]
    split
    · rename_i hh
      have href : referenced s.db.entries hash = true :=
        List.any_eq_true.mpr ⟨e, he, by simp [hrow, hcontent, hh]⟩
      rw [hr] at href
      cases href
    · exact hi.backed hrev he hrow hcontent
  · intro y a m o p reused unwritten hd ⟨_, lease, hl, htok⟩
    obtain ⟨z, hz⟩ := Option.isSome_iff_exists.mp hc
    obtain ⟨c, hc, ⟨_, lease', hl', htok'⟩, hw⟩ := hi.collector hz
    have hne : y ≠ z := by
      rintro rfl
      rw [hc] at hd
      cases hd
      cases hw
    exact (hs.token_ne hne hd hc hl hl' (htok.trans htok'.symm)).elim

lemma FilesInv.of_stepped (hi : FilesInv contentHash s) (hs : SerialInv s) {a : Action}
    (h : Stepped contentHash s a t) : FilesInv contentHash t := by
  cases h with
  | session _ hself hlock _ h => exact hi.session_step hs h rfl hself hlock
  | @crashed y =>
    refine hi.quiet (.refl _) rfl (fun z d hd => ?_) fun z hz => ?_
    · by_cases hz : z = y
      · subst hz
        rw [show _ = none from drop_sessions_self] at hd
        cases hd
      · exact (drop_sessions_of_ne hz).symm.trans hd
    · simp only at hz
      split at hz
      · cases hz
      · rename_i hne
        have hzy : z ≠ y := fun he => hne (he ▸ hz)
        obtain ⟨c, hc, hh, hw⟩ := hi.collector hz
        exact ⟨c, (drop_sessions_of_ne hzy).trans hc, hh, hw⟩
  | @collectBegan y c lease now _ hc hl hw hlease =>
    refine hi.quiet (.refl _) rfl (fun _ _ h => h) fun z hz => ?_
    cases hz
    obtain ⟨hrev, htok, _⟩ := checkLease_ok hlease
    refine ⟨c, hc, ⟨hrev, lease, hl, htok.symm⟩, ?_⟩
    cases c with
    | writing a m o p reused unwritten => exact (hw _ _ _ _ _ _ rfl).elim
    | _ => rfl
  | collectEnded => exact hi.quiet (.refl _) rfl (fun _ _ h => h) fun z hz => by cases hz
  | unlinked hc hr => exact hi.unlinked hs hc hr
  | @purged hash hr =>
    have hne : ∀ {p : Prop}, s.db.row.revokedDetail = none → p := by
      intro p hrev
      rw [hrev] at hr
      cases hr
    refine ⟨?_, fun hrev => hne hrev, hi.fetched, fun _ hh => hne hh.1,
      hi.collector_same (sameContent_unlinkBlob _ _) _⟩
    intro hash' bytes hb
    simp only [unlinkBlob, Function.update_apply] at hb
    split at hb
    · cases hb
    · exact hi.hashed hb
  | installed _ _ =>
    refine hi.quiet (sameContent_installGrant _ _) ?_ (fun _ _ h => h)
      (hi.collector_same (sameContent_installGrant _ _))
    simp only [installGrant]
    split <;> rfl
  | retention =>
    refine hi.quiet (sameContent_setRetentionGrant _ _) ?_ (fun _ _ h => h)
      (hi.collector_same (sameContent_setRetentionGrant _ _))
    simp only [setRetentionGrant]
    split <;> rfl

end TinyCloud.Replica
