import TinyCloud.Kv.NoStaleServe

/-! Purging a prefix beside other replicas of the identity: the replica is
erased, then every pending record under its prefix is dropped. -/

namespace TinyCloud.Kv.ReadThrough

open PendingWriteState Runs

structure PurgeState (V : Type*) where
  core : State V
  erased : ℕ → Option String

inductive PurgeAction (V : Type*)
  | client (action : Action V)
  | erase (purge replica : ℕ)
  | clearPrefix (purge : ℕ)

def purgeStep {V : Type*} (base : String → Option V) (p : PurgeState V) : PurgeAction V → Option (PurgeState V)
  | .client action => (step base p.core action).map fun s => { p with core := s }
  | .erase g r =>
    if (p.erased g).isNone then
      some ⟨eraseReplica p.core r, Function.update p.erased g (some (p.core.replicas r).folder)⟩
    else none
  | .clearPrefix g =>
    (p.erased g).map fun folder =>
      ⟨{ p.core with pending := p.core.pending.clearPrefix folder }, Function.update p.erased g none⟩

def purgeMachine {V : Type*} (identity : ReplicationIdentity) (folders : ℕ → String)
    (base : String → Option V) : Machine (PurgeState V) (PurgeAction V) where
  initial p := p = ⟨init identity folders, fun _ => none⟩
  step := purgeStep base

variable {V : Type*} {base : String → Option V} {s t : State V} {p q : PurgeState V}

/-- A purge may drop the record of an applied write, and the server may apply a
write whose record is gone, only while no replica can still serve its key from
before that write. -/
def KeepsFence (p : PurgeState V) : PurgeAction V → Prop
  | .client (.apply opId j) => ∀ w e, p.core.writes opId = some w → w.unapplied[j]? = some e →
      p.core.pending.HasUnsettled opId e.1 ∨ Fenced p.core e.1 p.core.log.length
  | .clearPrefix g => ∀ folder, p.erased g = some folder → ∀ i e, p.core.log[i]? = some e →
      kvPrefixCovers folder e.key = true → p.core.pending.HasUnsettled e.opId e.key →
      Fenced p.core e.key i
  | _ => True

lemma Held.of_pending {pending : PendingWriteState} {r e : ℕ} {snap : Snapshot V}
    (h : Held { s with pending := pending } r e snap) : Held s r e snap :=
  h.congr rfl rfl

lemma Sound.clearPrefix (h : Sound base s) (folder : String) :
    Sound base { s with pending := s.pending.clearPrefix folder } where
  asOf_le hh := h.asOf_le hh.of_pending
  content hh := h.content hh.of_pending
  epoch_le hh := h.epoch_le hh.of_pending
  oldest hr hh := h.oldest hr hh.of_pending
  captured hy := h.captured hy
  seen hg := h.seen hg
  checked hg := ⟨(h.checked hg).1, fun i e he hk hlt ep snap hh =>
    (h.checked hg).2 i e he hk hlt ep snap hh.of_pending⟩
  served := h.served

lemma Protected.clearPrefix (h : Protected s) {folder : String}
    (hf : ∀ i e, s.log[i]? = some e → kvPrefixCovers folder e.key = true →
      s.pending.HasUnsettled e.opId e.key → Fenced s e.key i) :
    Protected { s with pending := s.pending.clearPrefix folder } := by
  intro i e he
  rcases h i e he with hu | hfence
  · by_cases hc : kvPrefixCovers folder e.key = true
    · exact .inr ((hf i e he hc hu).congr rfl rfl rfl rfl)
    · exact .inl (hu.clearPrefix (Bool.not_eq_true _ ▸ hc))
  · exact .inr (hfence.congr rfl rfl rfl rfl)

lemma apply_of_log_append {a : Action V} {e : Applied V} (hs : step base s a = some t)
    (hlog : t.log = s.log ++ [e]) : ∃ j w x, a = .apply e.opId j ∧ s.writes e.opId = some w ∧
      w.unapplied[j]? = some x ∧ x.1 = e.key := by
  cases a with
  | apply opId j =>
    simp only [step, Option.bind_eq_bind, Option.bind_eq_some_iff] at hs
    obtain ⟨w, hw, x, hx, hs⟩ := hs
    split at hs
    · cases hs
    · cases hs
      simp only [applyWrite, List.append_cancel_left_eq, List.cons.injEq, and_true] at hlog
      subst hlog
      exact ⟨j, w, x, rfl, hw, hx, rfl⟩
  | _ =>
    have hsame : t.log = s.log := by
      simp only [step, Option.bind_eq_bind, Option.bind_eq_some_iff] at hs
      grind [Option.map_eq_some_iff, beginWrite, settleWrite, fetchSnapshot, installSnapshot, afterSyncPending, dropLease, dropSync]
    exact (List.cons_ne_nil _ _ (List.self_eq_append_right.mp (hsame ▸ hlog))).elim

lemma purge_sound {a : PurgeAction V} (h : Sound base p.core ∧ Protected p.core)
    (hg : KeepsFence p a) (hs : purgeStep base p a = some q) :
    Sound base q.core ∧ Protected q.core := by
  obtain ⟨hi, hp⟩ := h
  cases a with
  | client action =>
    obtain ⟨t, hst, rfl⟩ := Option.map_eq_some_iff.mp hs
    have hst' := stepped_of_step hst
    refine ⟨hi.of_stepped hp hst', hp.of_stepped hi hst' fun e hlog => ?_⟩
    obtain ⟨j, w, x, rfl, hw, hx, hk⟩ := apply_of_log_append hst hlog
    exact hk ▸ hg w x hw hx
  | erase g r =>
    simp only [purgeStep, Option.ite_none_right_eq_some, Option.some.injEq] at hs
    obtain ⟨_, rfl⟩ := hs
    have hst : Stepped base p.core (eraseReplica p.core r) := .erase
    refine ⟨hi.of_stepped hp hst, hp.of_stepped hi hst fun e hlog => ?_⟩
    exact (List.cons_ne_nil _ _ (List.self_eq_append_right.mp hlog)).elim
  | clearPrefix g =>
    obtain ⟨folder, hf, rfl⟩ := Option.map_eq_some_iff.mp hs
    exact ⟨hi.clearPrefix folder, hp.clearPrefix (hg folder hf)⟩

theorem served_current_beside_purges (identity : ReplicationIdentity) (folders : ℕ → String)
    (base : String → Option V) (p : PurgeState V)
    (h : (purgeMachine identity folders base).Within KeepsFence p) :
    ∀ d ∈ p.core.served, Current base p.core.log d := by
  have hp := h.invariant (I := fun p => Sound base p.core ∧ Protected p.core)
    (by rintro p rfl; exact ⟨init_sound _ _, init_protected _ _⟩)
    (fun p a q _ hi hg hs => purge_sound hi hg hs)
  exact fun d hd => (hp.1.served d hd).2

-- No unsettled record of an applied write is dropped, and none is applied without its record.
def keepsRecords (p : PurgeState V) : PurgeAction V → Bool
  | .client (.apply opId j) => (p.core.writes opId).all fun w =>
      (w.unapplied[j]?).all fun e => decide (p.core.pending.HasUnsettled opId e.1)
  | .clearPrefix g => (p.erased g).all fun folder => p.core.log.all fun e =>
      !(kvPrefixCovers folder e.key && decide (p.core.pending.HasUnsettled e.opId e.key))
  | _ => true

lemma keepsFence_of_keepsRecords (p : PurgeState V) (a : PurgeAction V) (h : keepsRecords p a = true) :
    KeepsFence p a := by
  cases a with
  | client action =>
    cases action with
    | apply opId j =>
      intro w e hw he
      simp only [keepsRecords, hw, Option.all_some, he, decide_eq_true_eq] at h
      exact .inl h
    | _ => trivial
  | erase g r => trivial
  | clearPrefix g =>
    intro folder hf i e he hc hu
    simp only [keepsRecords, hf, Option.all_some, List.all_eq_true] at h
    have := h e (List.mem_of_getElem? he)
    simp [hc, hu] at this

def purgeFolders (r : ℕ) : String :=
  if r = 0 then "notes/drafts/" else "notes/"

def samplePurges : Machine (PurgeState ℕ) (PurgeAction ℕ) :=
  purgeMachine sampleIdentity purgeFolders (fun _ => none)

def purgeStart : PurgeState ℕ :=
  ⟨init sampleIdentity purgeFolders, fun _ => none⟩

theorem served_current_beside_purges_sample : ∃ p, samplePurges.Within KeepsFence p ∧
    p.core.served.map (fun d => (d.key, d.content)) = [("notes/drafts/a", some 1)] ∧
    ∀ d ∈ p.core.served, Current (fun _ => none) p.core.log d := by
  have hrun : ((samplePurges.runIf keepsRecords purgeStart
      [.client (.beginWrite "w" [("notes/drafts/a", some 1)] "t0"), .client (.apply "w" 0),
        .client (.settle "w" .committed "t1" none), .erase 0 0, .clearPrefix 0,
        .client (.captureEpoch 0 1), .client (.fetch 0), .client (.install 0),
        .client (.readStatus 0 1 "notes/drafts/a" .valid), .client (.checkPending 0 true false),
        .client (.serve 0)]).map fun p => p.core.served.map fun d => (d.key, d.content)) =
      some [("notes/drafts/a", some 1)] := by
    decide +kernel
  obtain ⟨p, hp, hserved⟩ := Option.map_eq_some_iff.mp hrun
  have hw : samplePurges.Within KeepsFence p :=
    .of_runIf (P := fun _ => True) (.start rfl) trivial (fun p a _ h => keepsFence_of_keepsRecords p a h)
      (fun _ _ _ _ _ _ => trivial) hp
  exact ⟨p, hw, hserved, served_current_beside_purges sampleIdentity purgeFolders _ p hw⟩

/-- The sibling replica answers from before an ambiguous write, whose record the
purge of the nested prefix dropped. -/
theorem purge_serves_stale_sibling : ∃ p, samplePurges.Reachable p ∧
    ∃ d ∈ p.core.served, ¬ Current (fun _ => none) p.core.log d := by
  have hrun : ((samplePurges.run purgeStart
      [.client (.captureEpoch 0 1), .client (.fetch 0), .client (.install 0), .client (.afterSync 0),
        .client (.beginWrite "w" [("notes/drafts/a", some 1)] "t0"), .client (.apply "w" 0),
        .client (.settle "w" .ambiguous "t1" (some "TIMEOUT")), .erase 0 0, .clearPrefix 0,
        .client (.readStatus 0 1 "notes/drafts/a" .valid), .client (.checkPending 0 true false),
        .client (.serve 0)]).map fun p => decide (∃ d ∈ p.core.served,
          ¬ Current (fun _ => none) p.core.log d)) = some true := by
    decide +kernel
  obtain ⟨p, hp, hstale⟩ := Option.map_eq_some_iff.mp hrun
  exact ⟨p, .of_run (.start rfl) hp, of_decide_eq_true hstale⟩

end TinyCloud.Kv.ReadThrough
