import TinyCloud.Kv.ReadThrough
import Mathlib.Data.Nat.Basic
import Mathlib.Order.Basic
import Mathlib.Tactic.Common

/-! What one action of the read-through protocol can change, and the two ways
an applied write is kept from being read around: its own unsettled record, or an
epoch that every replica still behind it fails to reach. -/

namespace TinyCloud.Kv.ReadThrough

open PendingWriteState

variable {V : Type*} {base : String → Option V} {s t : State V} {a : Action V}

inductive Stepped (base : String → Option V) (s : State V) : State V → Prop
  | beginWrite {opId entries startedAt} : s.writes opId = none →
      Stepped base s (beginWrite s opId entries startedAt)
  | apply {opId w i e} : s.writes opId = some w → w.unapplied[i]? = some e →
      w.outcome ≠ some .failed → Stepped base s (applyWrite s opId w i e)
  | settle {opId w outcome settledAt code} : s.writes opId = some w →
      maySettle s opId w outcome = true →
      Stepped base s (settleWrite s opId w outcome settledAt code)
  | capture {y r} : s.syncs y = none →
      Stepped base s { s with
        syncs := Function.update s.syncs y (some (.captured r s.pending.committedEpoch)) }
  | fetch {y r e} : s.syncs y = some (.captured r e) → (s.replicas r).lease = none →
      Stepped base s (fetchSnapshot base s y r e)
  | install {y r e snap} : s.syncs y = some (.fetched r e snap) →
      (s.replicas r).lease = some y → Stepped base s (installSnapshot s y r e snap)
  | afterSync {y folder e} : s.syncs y = some (.installed folder e) →
      Stepped base s (afterSyncPending s y folder e)
  | loseLease {y r e snap} : s.syncs y = some (.fetched r e snap) →
      Stepped base s (dropLease s y r)
  | loseSync {y} : Stepped base s (dropSync s y)
  | erase {r} : Stepped base s (eraseReplica s r)
  | readStatus {g r key authority} : s.gets g = none →
      kvPrefixCovers (s.replicas r).folder key = true →
      Stepped base s { s with
        gets := Function.update s.gets g (some (.status r key (statusOf (s.replicas r) authority))) }
  | check {g r key durable proven status} : s.gets g = some (.status r key status) →
      Stepped base s { s with
        gets := Function.update s.gets g
          (match getFallback key durable proven status s.pending with
          | none => some (.checked r key s.log.length)
          | some _ => none) }
  | serve {g r key checkedAt snap} : s.gets g = some (.checked r key checkedAt) →
      (s.replicas r).rows = some snap →
      Stepped base s { s with
        gets := Function.update s.gets g none
        served := s.served ++ [⟨key, snap.content key, checkedAt⟩] }

lemma stepped_of_step (h : step base s a = some t) : Stepped base s t := by
  cases a with
  | beginWrite opId entries startedAt =>
    simp only [step, Option.ite_none_right_eq_some, Option.isNone_iff_eq_none, Option.some.injEq] at h
    obtain ⟨hn, rfl⟩ := h
    exact .beginWrite hn
  | apply opId i =>
    simp only [step, Option.bind_eq_bind, Option.bind_eq_some_iff] at h
    obtain ⟨w, hw, e, he, h⟩ := h
    split at h
    · cases h
    · rename_i hf
      cases h
      exact .apply hw he hf
  | settle opId outcome settledAt code =>
    simp only [step, Option.bind_eq_bind, Option.bind_eq_some_iff] at h
    obtain ⟨w, hw, h⟩ := h
    split at h
    · rename_i hm
      cases h
      exact .settle hw hm
    · cases h
  | captureEpoch y r =>
    simp only [step, Option.ite_none_right_eq_some, Option.isNone_iff_eq_none, Option.some.injEq] at h
    obtain ⟨hn, rfl⟩ := h
    exact .capture hn
  | fetch y =>
    simp only [step] at h
    split at h
    · rename_i r e hy
      simp only [Option.ite_none_right_eq_some, Option.isNone_iff_eq_none, Option.some.injEq] at h
      obtain ⟨hl, rfl⟩ := h
      exact .fetch hy hl
    · cases h
  | install y =>
    simp only [step] at h
    split at h
    · rename_i r e snap hy
      simp only [Option.ite_none_right_eq_some, Option.some.injEq] at h
      obtain ⟨hl, rfl⟩ := h
      exact .install hy hl
    · cases h
  | afterSync y =>
    simp only [step] at h
    split at h
    · rename_i folder e hy
      cases h
      exact .afterSync hy
    · cases h
  | abandonSync y =>
    simp only [step] at h
    split at h
    · rename_i r e snap hy
      cases h
      exact .loseLease hy
    · cases h
      exact .loseSync
    · cases h
  | readStatus g r key authority =>
    simp only [step, Option.ite_none_right_eq_some, Option.some.injEq, Bool.and_eq_true,
      Option.isNone_iff_eq_none] at h
    obtain ⟨⟨hg, hc⟩, rfl⟩ := h
    exact .readStatus hg hc
  | checkPending g durable proven =>
    simp only [step] at h
    split at h
    · rename_i r key status hg
      cases h
      exact .check hg
    · cases h
  | serve g =>
    simp only [step] at h
    split at h
    · rename_i r key checkedAt hg
      obtain ⟨snap, hr, rfl⟩ := Option.map_eq_some_iff.mp h
      exact .serve hg hr
    · cases h

/-- Rows that a read of the replica can return, now or once the sync that holds
its lease installs them, with the epoch they are stored under. -/
inductive Held (s : State V) (r : ℕ) : ℕ → Snapshot V → Prop
  | installed {snap} : (s.replicas r).rows = some snap → Held s r (s.replicas r).syncedThroughEpoch snap
  | fetched {y e snap} : (s.replicas r).lease = some y → s.syncs y = some (.fetched r e snap) →
      Held s r e snap

/-- The epoch a pending check compares and the rows the read after it returns. -/
inductive Servable (s : State V) (r : ℕ) : ℕ → Snapshot V → Prop
  | held {e snap} : Held s r e snap → Servable s r e snap
  | seen {g key status e snap} : s.gets g = some (.status r key status) → status.coverage = .complete →
      Held s r e snap → Servable s r status.syncedThroughEpoch snap

def Fenced (s : State V) (key : String) (i : ℕ) : Prop :=
  ∀ r e snap, Servable s r e snap → kvPrefixCovers (s.replicas r).folder key = true →
    snap.asOf ≤ i → e < s.pending.committedEpoch

lemma Held.congr {r e : ℕ} {snap : Snapshot V} (h : Held t r e snap)
    (hr : t.replicas r = s.replicas r) (hs : t.syncs = s.syncs) : Held s r e snap := by
  cases h with
  | installed hrows =>
    rw [hr] at hrows ⊢
    exact .installed hrows
  | fetched hl hy => exact .fetched (hr ▸ hl) (hs ▸ hy)

lemma Fenced.congr {key : String} {i : ℕ} (h : Fenced s key i) (hr : t.replicas = s.replicas)
    (hs : t.syncs = s.syncs) (hg : t.gets = s.gets)
    (he : t.pending.committedEpoch = s.pending.committedEpoch) : Fenced t key i := by
  intro r e snap hv hc hle
  rw [hr] at hc
  rw [he]
  refine h r e snap ?_ hc hle
  cases hv with
  | held h => exact .held (h.congr (congrFun hr r) hs)
  | seen hseen hcov h => exact .seen (hg ▸ hseen) hcov (h.congr (congrFun hr r) hs)

lemma Held.update_other {r e : ℕ} {snap : Snapshot V} {y : ℕ} {p : Option (SyncPhase V)}
    (h : Held t r e snap) (hr : t.replicas r = s.replicas r) (hs : t.syncs = Function.update s.syncs y p)
    (hp : ∀ e snap, p ≠ some (.fetched r e snap)) : Held s r e snap := by
  cases h with
  | installed hrows =>
    rw [hr] at hrows ⊢
    exact .installed hrows
  | @fetched y' _ _ hl hy =>
    rw [hr] at hl
    rw [hs] at hy
    by_cases he : y' = y
    · rw [he, Function.update_self] at hy
      exact (hp _ _ hy).elim
    · rw [Function.update_of_ne he] at hy
      exact .fetched hl hy

lemma Held.of_stepped {r e : ℕ} {snap : Snapshot V} (h : Held t r e snap) (hs : Stepped base s t) :
    Held s r e snap ∨
      ((∃ y, s.syncs y = some (.captured r e)) ∧
        snap = ⟨s.log.length, contentAt base s.log s.log.length⟩) := by
  cases hs with
  | beginWrite _ => exact .inl (h.congr rfl rfl)
  | apply _ _ _ => exact .inl (h.congr rfl rfl)
  | settle _ _ => exact .inl (h.congr rfl rfl)
  | capture _ => exact .inl (h.update_other rfl rfl (by simp))
  | @fetch y r' e' hy hl =>
    by_cases hr : r = r'
    · subst hr
      cases h with
      | installed hrows =>
        left
        have hi : Held s r (s.replicas r).syncedThroughEpoch snap :=
          .installed (by simpa [fetchSnapshot] using hrows)
        simpa [fetchSnapshot] using hi
      | fetched hl' hy' =>
        right
        simp only [fetchSnapshot, Function.update_self, Option.some.injEq] at hl' hy'
        subst hl'
        rw [Function.update_self] at hy'
        cases hy'
        exact ⟨⟨_, hy⟩, rfl⟩
    · refine .inl (h.update_other (Function.update_of_ne hr _ _) rfl ?_)
      intro e snap he
      cases he
      exact hr rfl
  | @install y r' e' snap' hy hl =>
    left
    by_cases hr : r = r'
    · subst hr
      cases h with
      | installed hrows =>
        simp only [installSnapshot, Function.update_self, Option.some.injEq] at hrows ⊢
        subst hrows
        exact .fetched hl hy
      | fetched hl' _ => simp [installSnapshot] at hl'
    · exact h.update_other (Function.update_of_ne hr _ _) rfl (by simp)
  | afterSync _ => exact .inl (h.update_other rfl rfl (by simp))
  | @loseLease y r' e' snap' hy =>
    left
    by_cases hr : r = r'
    · subst hr
      cases h with
      | installed hrows =>
        have hi : Held s r (s.replicas r).syncedThroughEpoch snap :=
          .installed (by simpa [dropLease] using hrows)
        simpa [dropLease] using hi
      | @fetched y' _ _ hl hy' =>
        simp only [dropLease, Function.update_self] at hl hy'
        split at hl
        · cases hl
        · rename_i hne
          have hy₀ : y' ≠ y := fun he => hne (he ▸ hl)
          rw [Function.update_of_ne hy₀] at hy'
          exact .fetched hl hy'
    · exact h.update_other (Function.update_of_ne hr _ _) rfl (by simp)
  | loseSync => exact .inl (h.update_other rfl rfl (by simp))
  | @erase r' =>
    left
    by_cases hr : r = r'
    · subst hr
      cases h with
      | installed hrows => simp [eraseReplica] at hrows
      | fetched hl _ => simp [eraseReplica] at hl
    · exact h.congr (Function.update_of_ne hr _ _) rfl
  | readStatus _ _ => exact .inl (h.congr rfl rfl)
  | check _ => exact .inl (h.congr rfl rfl)
  | serve _ _ => exact .inl (h.congr rfl rfl)

lemma Stepped.log_append (h : Stepped base s t) : ∃ more, t.log = s.log ++ more := by
  cases h with
  | @apply opId _ _ e _ _ _ => exact ⟨[⟨opId, e.1, e.2⟩], rfl⟩
  | _ => exact ⟨[], (List.append_nil _).symm⟩

lemma Stepped.folder (h : Stepped base s t) (r : ℕ) :
    (t.replicas r).folder = (s.replicas r).folder := by
  cases h with
  | @fetch _ r' | @install _ r' | @loseLease _ r' | @erase r' =>
    by_cases hr : r = r'
    · subst hr
      simp [fetchSnapshot, installSnapshot, dropLease, eraseReplica]
    · simp [fetchSnapshot, installSnapshot, dropLease, eraseReplica, Function.update_of_ne hr]
  | _ => rfl

lemma Stepped.rows (h : Stepped base s t) {r : ℕ} {rows : Snapshot V}
    (hr : (t.replicas r).rows = some rows) :
    (s.replicas r).rows = some rows ∨ ((∃ e, Held s r e rows) ∧ (t.replicas r).lease = none) := by
  cases h with
  | @install y r' e snap hy hl =>
    by_cases he : r = r'
    · subst he
      simp only [installSnapshot, Function.update_self, Option.some.injEq] at hr
      subst hr
      exact .inr ⟨⟨e, .fetched hl hy⟩, by simp [installSnapshot]⟩
    · exact .inl (by simpa [installSnapshot, Function.update_of_ne he] using hr)
  | @erase r' =>
    left
    by_cases he : r = r'
    · simp [eraseReplica, he] at hr
    · simpa [eraseReplica, Function.update_of_ne he] using hr
  | @fetch _ r' | @loseLease _ r' =>
    left
    by_cases he : r = r'
    · subst he
      simpa [fetchSnapshot, dropLease] using hr
    · simpa [fetchSnapshot, dropLease, Function.update_of_ne he] using hr
  | _ => exact .inl hr

lemma Stepped.committedEpoch_le (h : Stepped base s t) :
    s.pending.committedEpoch ≤ t.pending.committedEpoch := by
  cases h with
  | settle _ _ => exact settle_committedEpoch_le _ _ _ _ _
  | _ => exact Nat.le_refl _

lemma Stepped.captured (h : Stepped base s t) {y r e : ℕ} (hy : t.syncs y = some (.captured r e)) :
    s.syncs y = some (.captured r e) ∨ e = s.pending.committedEpoch := by
  cases h with
  | @capture y' _ _ =>
    by_cases he : y = y'
    · subst he
      simp only [Function.update_self, Option.some.injEq, SyncPhase.captured.injEq] at hy
      exact .inr hy.2.symm
    · exact .inl (by simpa [Function.update_of_ne he] using hy)
  | @fetch y' | @install y' | @afterSync y' | @loseLease y' | @loseSync y' =>
    left
    by_cases he : y = y'
    · subst he
      simp [fetchSnapshot, installSnapshot, afterSyncPending, dropLease, dropSync] at hy
    · simpa [fetchSnapshot, installSnapshot, afterSyncPending, dropLease, dropSync,
        Function.update_of_ne he] using hy
  | _ => exact .inl hy

lemma Stepped.get (h : Stepped base s t) {g : ℕ} {p : GetPhase} (hg : t.gets g = some p) :
    s.gets g = some p ∨
      (∃ r key authority, p = .status r key (statusOf (s.replicas r) authority) ∧
        kvPrefixCovers (s.replicas r).folder key = true) ∨
      (∃ r key status durable proven, s.gets g = some (.status r key status) ∧
        getFallback key durable proven status s.pending = none ∧ p = .checked r key s.log.length) := by
  cases h with
  | @readStatus g' r key authority _ hc =>
    by_cases he : g = g'
    · subst he
      simp only [Function.update_self, Option.some.injEq] at hg
      exact .inr (.inl ⟨r, key, authority, hg.symm, hc⟩)
    · exact .inl (by simpa [Function.update_of_ne he] using hg)
  | @check g' r key durable proven status hs =>
    by_cases he : g = g'
    · subst he
      simp only [Function.update_self] at hg
      split at hg
      · rename_i hn
        cases hg
        exact .inr (.inr ⟨r, key, status, durable, proven, hs, hn, rfl⟩)
      · cases hg
    · exact .inl (by simpa [Function.update_of_ne he] using hg)
  | @serve g' _ _ _ _ _ _ =>
    left
    by_cases he : g = g'
    · subst he
      simp at hg
    · simpa [Function.update_of_ne he] using hg
  | _ => exact .inl hg

lemma Stepped.serve_cases (h : Stepped base s t) {d : Served V} (hd : d ∈ t.served) :
    d ∈ s.served ∨ ∃ g r snap, s.gets g = some (.checked r d.key d.checkedAt) ∧
      (s.replicas r).rows = some snap ∧ d.content = snap.content d.key := by
  cases h with
  | @serve g r key checkedAt snap hg hr =>
    rcases List.mem_append.mp hd with hd | hd
    · exact .inl hd
    · rw [List.mem_singleton] at hd
      subst hd
      exact .inr ⟨g, r, snap, hg, hr, rfl⟩
  | _ => exact .inl hd

lemma getFallback_eq_none {path : String} {durable proven : Bool} {status : LocalReplicaStatus}
    {pending : PendingWriteState} (h : getFallback path durable proven status pending = none) :
    (∀ r ∈ pending.records, r.key ≠ path) ∧ pending.committedEpoch ≤ status.syncedThroughEpoch ∧
      status.coverage = .complete := by
  unfold getFallback at h
  split at h
  · cases h
  · rename_i hn
    split at h
    · cases h
    · split at h
      · cases h
      · rename_i he
        rw [Option.orElse_eq_orElse, Option.orElse_eq_or, Option.or_eq_none_iff] at h
        refine ⟨fun r hr hk => ?_, Nat.not_lt.mp he, ?_⟩
        · have := List.find?_eq_none.mp hn r hr
          simp [hk] at this
        · by_contra hc
          simp [hc] at h

lemma not_hasUnsettled_of_getFallback {path opId : String} {durable proven : Bool}
    {status : LocalReplicaStatus} {pending : PendingWriteState}
    (h : getFallback path durable proven status pending = none) :
    ¬ pending.HasUnsettled opId path := by
  rintro ⟨r, hr, _, hk, _⟩
  exact (getFallback_eq_none h).1 r hr hk

end TinyCloud.Kv.ReadThrough
