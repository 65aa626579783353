import TinyCloud.Kv.Fencing

/-! No local serve is stale: in every run, each served content is one the server
held since the last write of its key applied when the pending check was made. -/

namespace TinyCloud.Kv.ReadThrough

open PendingWriteState Runs

variable {V : Type*} {base : String → Option V} {s t : State V}

lemma contentAt_append {log more : List (Applied V)} {n : ℕ} (h : n ≤ log.length) :
    contentAt base (log ++ more) n = contentAt base log n := by
  funext key
  simp only [contentAt, List.take_append_of_le_length h]

lemma lastWrite_le {log : List (Applied V)} {key : String} {n : ℕ}
    (h : ∀ i e, log[i]? = some e → e.key = key → i < n) : lastWrite log key ≤ n := by
  unfold lastWrite
  by_cases hi : log.reverse.findIdx (fun e => e.key == key) < log.reverse.length
  · have hk := List.findIdx_getElem (w := hi)
    rw [List.length_reverse] at hi
    rw [List.getElem_reverse, beq_iff_eq] at hk
    have := h _ _ (List.getElem?_eq_getElem _) hk
    omega
  · rw [List.length_reverse] at hi
    omega

lemma Current.append {log more : List (Applied V)} {d : Served V} (h : Current base log d)
    (hd : d.checkedAt ≤ log.length) : Current base (log ++ more) d := by
  obtain ⟨i, hlast, hi, hc⟩ := h
  refine ⟨i, ?_, ?_, ?_⟩
  · rwa [List.take_append_of_le_length hd]
  · rw [List.length_append]
    omega
  · rwa [contentAt_append hi]

structure Sound (base : String → Option V) (s : State V) : Prop where
  asOf_le : ∀ {r e snap}, Held s r e snap → snap.asOf ≤ s.log.length
  content : ∀ {r e snap}, Held s r e snap → snap.content = contentAt base s.log snap.asOf
  epoch_le : ∀ {r e snap}, Held s r e snap → e ≤ s.pending.committedEpoch
  oldest : ∀ {r rows e snap}, (s.replicas r).rows = some rows → Held s r e snap →
    rows.asOf ≤ snap.asOf
  captured : ∀ {y r e}, s.syncs y = some (.captured r e) → e ≤ s.pending.committedEpoch
  seen : ∀ {g r key status}, s.gets g = some (.status r key status) →
    kvPrefixCovers (s.replicas r).folder key = true ∧
      (status.coverage = .complete → status.syncedThroughEpoch ≤ s.pending.committedEpoch)
  checked : ∀ {g r key n}, s.gets g = some (.checked r key n) → n ≤ s.log.length ∧
    ∀ i e, s.log[i]? = some e → e.key = key → i < n → ∀ ep snap, Held s r ep snap → i < snap.asOf
  served : ∀ d ∈ s.served, d.checkedAt ≤ s.log.length ∧ Current base s.log d

/-- Every applied write is pinned to the network or fenced. -/
def Protected (s : State V) : Prop :=
  ∀ i e, s.log[i]? = some e → s.pending.HasUnsettled e.opId e.key ∨ Fenced s e.key i

/-- A write that may still be applied has its record. -/
def Pinned (s : State V) : Prop :=
  ∀ opId w, s.writes opId = some w → w.outcome ≠ some .failed →
    ∀ e ∈ w.unapplied, s.pending.HasUnsettled opId e.1

lemma statusOf_complete {r : ℕ} {authority : AuthorityState}
    (h : (statusOf (s.replicas r) authority).coverage = .complete) :
    ∃ rows, (s.replicas r).rows = some rows := by
  unfold statusOf at h
  split at h
  · rename_i hr
    exact Option.isSome_iff_exists.mp hr
  · cases h

lemma Servable.of_stepped (hi : Sound base s) (hs : Stepped base s t) {r e : ℕ} {snap : Snapshot V}
    (h : Servable t r e snap) :
    snap.asOf = s.log.length ∨ ∃ snap₀, snap₀.asOf ≤ snap.asOf ∧ Servable s r e snap₀ := by
  cases h with
  | held h =>
    rcases h.of_stepped hs with h | ⟨_, rfl⟩
    · exact .inr ⟨snap, Nat.le_refl _, .held h⟩
    · exact .inl rfl
  | @seen g key status _ _ hg hc h =>
    rcases h.of_stepped hs with h | ⟨_, rfl⟩
    · right
      rcases hs.get hg with hg | ⟨r', key', authority, hp, _⟩ | ⟨_, _, _, _, _, _, _, hp⟩
      · exact ⟨snap, Nat.le_refl _, .seen hg hc h⟩
      · cases hp
        obtain ⟨rows, hrows⟩ := statusOf_complete hc
        exact ⟨rows, hi.oldest hrows h, .held (.installed hrows)⟩
      · cases hp
    · exact .inl rfl

lemma Servable.epoch_le (hi : Sound base s) {r e : ℕ} {snap : Snapshot V} (h : Servable s r e snap) :
    e ≤ s.pending.committedEpoch := by
  cases h with
  | held h => exact hi.epoch_le h
  | seen hg hc _ => exact (hi.seen hg).2 hc

lemma Fenced.of_stepped (hi : Sound base s) (hs : Stepped base s t) {key : String} {i : ℕ}
    (h : Fenced s key i) (hlt : i < s.log.length) : Fenced t key i := by
  intro r e snap hv hc hle
  rw [hs.folder] at hc
  rcases Servable.of_stepped hi hs hv with hfresh | ⟨snap₀, hle₀, hv⟩
  · omega
  · exact Nat.lt_of_lt_of_le (h r e snap₀ hv hc (hle₀.trans hle)) hs.committedEpoch_le

lemma Sound.fenced_of_epoch_lt (hi : Sound base s) (hs : Stepped base s t)
    (he : s.pending.committedEpoch < t.pending.committedEpoch) {key : String} {i : ℕ}
    (hlt : i < s.log.length) : Fenced t key i := by
  intro r e snap hv _ hle
  rcases Servable.of_stepped hi hs hv with hfresh | ⟨snap₀, _, hv⟩
  · omega
  · exact Nat.lt_of_le_of_lt (hv.epoch_le hi) he

lemma Sound.checked_new (hi : Sound base s) (hp : Protected s) {g r : ℕ} {key : String}
    {status : LocalReplicaStatus} {durable proven : Bool} (hg : s.gets g = some (.status r key status))
    (hf : getFallback key durable proven status s.pending = none) {i : ℕ} {e : Applied V}
    (he : s.log[i]? = some e) (hk : e.key = key) {ep : ℕ} {snap : Snapshot V}
    (hh : Held s r ep snap) : i < snap.asOf := by
  subst hk
  obtain ⟨_, hepoch, hcov⟩ := getFallback_eq_none hf
  rcases hp i e he with hu | hfence
  · exact (not_hasUnsettled_of_getFallback hf hu).elim
  · by_contra hlt
    have := hfence r _ snap (.seen hg hcov hh) (hi.seen hg).1 (Nat.not_lt.mp hlt)
    omega

lemma Sound.current_of_serve (hi : Sound base s) {g r n : ℕ} {key : String} {snap : Snapshot V}
    (hg : s.gets g = some (.checked r key n)) (hr : (s.replicas r).rows = some snap) :
    Current base s.log ⟨key, snap.content key, n⟩ := by
  have hh : Held s r _ snap := .installed hr
  refine ⟨snap.asOf, ?_, hi.asOf_le hh, by rw [hi.content hh]⟩
  refine lastWrite_le fun i e he hk => ?_
  rw [List.getElem?_take] at he
  split at he
  · rename_i hlt
    exact (hi.checked hg).2 i e he hk hlt _ _ hh
  · cases he

lemma Sound.of_stepped (hi : Sound base s) (hp : Protected s) (hs : Stepped base s t) :
    Sound base t := by
  obtain ⟨more, hlog⟩ := hs.log_append
  have hlen : s.log.length ≤ t.log.length := by
    rw [hlog, List.length_append]
    omega
  have hepoch := hs.committedEpoch_le
  refine ⟨?_, ?_, ?_, ?_, ?_, ?_, ?_, ?_⟩
  · intro r e snap h
    rcases h.of_stepped hs with h | ⟨_, rfl⟩
    · exact (hi.asOf_le h).trans hlen
    · exact hlen
  · intro r e snap h
    rcases h.of_stepped hs with h | ⟨_, rfl⟩
    · rw [hlog, contentAt_append (hi.asOf_le h), hi.content h]
    · rw [hlog, contentAt_append (Nat.le_refl _)]
  · intro r e snap h
    rcases h.of_stepped hs with h | ⟨⟨y, hy⟩, _⟩
    · exact (hi.epoch_le h).trans hepoch
    · exact (hi.captured hy).trans hepoch
  · intro r rows e snap hr h
    rcases hs.rows hr with hr | ⟨⟨e', hrows⟩, hl⟩
    · rcases h.of_stepped hs with h | ⟨_, rfl⟩
      · exact hi.oldest hr h
      · exact hi.asOf_le (.installed hr)
    · cases h with
      | installed hr' =>
        rw [hr] at hr'
        cases hr'
        exact Nat.le_refl _
      | fetched hl' _ =>
        rw [hl] at hl'
        cases hl'
  · intro y r e hy
    rcases hs.captured hy with hy | rfl
    · exact (hi.captured hy).trans hepoch
    · exact hepoch
  · intro g r key status hg
    rw [hs.folder]
    rcases hs.get hg with hg | ⟨r', key', authority, he, hc⟩ | ⟨_, _, _, _, _, _, _, he⟩
    · exact ⟨(hi.seen hg).1, fun hc => ((hi.seen hg).2 hc).trans hepoch⟩
    · cases he
      refine ⟨hc, fun hcov => ?_⟩
      obtain ⟨rows, hrows⟩ := statusOf_complete hcov
      exact (hi.epoch_le (.installed hrows)).trans hepoch
    · cases he
  · intro g r key n hg
    have hmore : ∀ i e, t.log[i]? = some e → i < s.log.length → s.log[i]? = some e := by
      intro i e he hlt
      rwa [hlog, List.getElem?_append_left hlt] at he
    rcases hs.get hg with hg | ⟨_, _, _, he, _⟩ | ⟨_, _, status, durable, proven, hg', hf, he⟩
    · obtain ⟨hn, hold⟩ := hi.checked hg
      refine ⟨hn.trans hlen, fun i e he hk hlt ep snap hh => ?_⟩
      rcases hh.of_stepped hs with hh | ⟨_, rfl⟩
      · exact hold i e (hmore i e he (hlt.trans_le hn)) hk hlt ep snap hh
      · exact hlt.trans_le hn
    · cases he
    · cases he
      refine ⟨hlen, fun i e he hk hlt ep snap hh => ?_⟩
      rcases hh.of_stepped hs with hh | ⟨_, rfl⟩
      · exact hi.checked_new hp hg' hf (hmore i e he hlt) hk hh
      · exact hlt
  · intro d hd
    rcases hs.serve_cases hd with hd | ⟨g, r, snap, hg, hr, hc⟩
    · obtain ⟨hn, hcur⟩ := hi.served d hd
      exact ⟨hn.trans hlen, hlog ▸ hcur.append hn⟩
    · have hn := (hi.checked hg).1
      have hcur := hi.current_of_serve hg hr
      rw [← hc] at hcur
      exact ⟨hn.trans hlen, hlog ▸ hcur.append hn⟩

lemma Protected.of_stepped (hi : Sound base s) (hp : Protected s) (hs : Stepped base s t)
    (happly : ∀ e, t.log = s.log ++ [e] →
      s.pending.HasUnsettled e.opId e.key ∨ Fenced s e.key s.log.length) : Protected t := by
  have hold : ∀ i e, s.log[i]? = some e → i < s.log.length := fun i e he =>
    (List.getElem?_eq_some_iff.mp he).1
  have hkeep : t.log = s.log → (∀ opId key, s.pending.HasUnsettled opId key →
      t.pending.HasUnsettled opId key) → Protected t := by
    intro hlog hpending i e he
    rw [hlog] at he
    rcases hp i e he with h | h
    · exact .inl (hpending _ _ h)
    · exact .inr (h.of_stepped hi hs (hold i e he))
  have hs' := hs
  cases hs with
  | beginWrite _ => exact hkeep rfl fun _ _ h => h.begin _ _ _
  | @apply opId w j e hw he hf =>
    intro i x hx
    by_cases hlt : i < s.log.length
    · have hx : s.log[i]? = some x := by rwa [applyWrite, List.getElem?_append_left hlt] at hx
      exact (hp i x hx).imp id (fun h => h.of_stepped hi hs' hlt)
    · have hlen := (List.getElem?_eq_some_iff.mp hx).1
      simp only [applyWrite, List.length_append, List.length_singleton] at hlen
      obtain rfl : i = s.log.length := by omega
      simp only [applyWrite, List.getElem?_concat_length, Option.some.injEq] at hx
      subst hx
      exact (happly _ rfl).imp id (fun h => h.congr rfl rfl rfl rfl)
  | @settle opId w outcome settledAt code hw hm =>
    intro i e he
    rcases hp i e he with h | h
    · rcases h.settle opId outcome settledAt code with h | ⟨ho, hf⟩ | ⟨_, _, hlt⟩
      · exact .inl h
      · simp only [maySettle, hf, Bool.and_eq_true, List.all_eq_true] at hm
        have := hm.2 e (List.mem_of_getElem? he)
        simp [ho] at this
      · exact .inr (hi.fenced_of_epoch_lt hs' (by simp only [settleWrite, hlt]; omega) (hold i e he))
    · exact .inr (h.of_stepped hi hs' (hold i e he))
  | afterSync _ => exact hkeep rfl fun _ _ h => h.afterSync _ _
  | _ => exact hkeep rfl fun _ _ h => h

lemma Pinned.of_stepped (h : Pinned s) (hs : Stepped base s t) : Pinned t := by
  have hkeep : t.writes = s.writes → (∀ opId key, s.pending.HasUnsettled opId key →
      t.pending.HasUnsettled opId key) → Pinned t := by
    intro hw hp opId w ho hf e he
    exact hp _ _ (h opId w (hw ▸ ho) hf e he)
  cases hs with
  | @beginWrite opId entries startedAt hn =>
    intro opId' w ho hf e he
    by_cases hne : opId' = opId
    · subst hne
      simp only [beginWrite, Function.update_self, Option.some.injEq] at ho
      subst ho
      exact begin_hasUnsettled _ _ _ _ (List.mem_map_of_mem (f := fun e => (e.1, WriteEntry.op e)) he)
    · simp only [beginWrite, Function.update_of_ne hne] at ho
      exact (h opId' w ho hf e he).begin _ _ _
  | @apply opId w i x hw hx hf =>
    intro opId' w' ho hf' e he
    by_cases hne : opId' = opId
    · subst hne
      simp only [applyWrite, Function.update_self, Option.some.injEq] at ho
      subst ho
      exact h opId' w hw hf e (List.mem_of_mem_eraseIdx he)
    · simp only [applyWrite, Function.update_of_ne hne] at ho
      exact h opId' w' ho hf' e he
  | @settle opId w outcome settledAt code hw hm =>
    intro opId' w' ho hf e he
    by_cases hne : opId' = opId
    · subst hne
      simp only [settleWrite, Function.update_self, Option.some.injEq] at ho
      subst ho
      simp only [maySettle, Bool.and_eq_true, Option.isNone_iff_eq_none] at hm
      have hu := h opId' w hw (by simp [hm.1]) e he
      rcases hu.settle opId' outcome settledAt code with hu | ⟨_, rfl⟩ | ⟨_, rfl, _⟩
      · exact hu
      · exact (hf rfl).elim
      · have hm := List.isEmpty_iff.mp hm.2
        rw [hm] at he
        cases he
    · simp only [settleWrite, Function.update_of_ne hne] at ho
      rcases (h opId' w' ho hf e he).settle opId outcome settledAt code with hu | ⟨h, _⟩ | ⟨h, _⟩
      · exact hu
      · exact (hne h).elim
      · exact (hne h).elim
  | afterSync _ => exact hkeep rfl fun _ _ h => h.afterSync _ _
  | _ => exact hkeep rfl fun _ _ h => h

lemma Pinned.of_apply (h : Pinned s) (hs : Stepped base s t) {e : Applied V}
    (hlog : t.log = s.log ++ [e]) : s.pending.HasUnsettled e.opId e.key := by
  cases hs with
  | @apply opId w i x hw hx hf =>
    simp only [applyWrite, List.append_cancel_left_eq, List.cons.injEq, and_true] at hlog
    subst hlog
    exact h opId w hw hf x (List.mem_of_getElem? hx)
  | _ => exact (List.cons_ne_nil _ _ (List.self_eq_append_right.mp hlog)).elim

lemma init_sound (identity : ReplicationIdentity) (folders : ℕ → String) :
    Sound base (init (V := V) identity folders) := by
  have hheld : ∀ r e snap, ¬ Held (init (V := V) identity folders) r e snap := by
    intro r e snap h
    cases h with
    | installed h => cases h
    | fetched h _ => cases h
  refine ⟨?_, ?_, ?_, ?_, ?_, ?_, ?_, ?_⟩
  · intro r e snap h
    exact (hheld r e snap h).elim
  · intro r e snap h
    exact (hheld r e snap h).elim
  · intro r e snap h
    exact (hheld r e snap h).elim
  · intro r rows e snap h _
    cases h
  · intro y r e h
    cases h
  · intro g r key status h
    cases h
  · intro g r key n h
    cases h
  · intro d hd
    cases hd

lemma init_protected (identity : ReplicationIdentity) (folders : ℕ → String) :
    Protected (init (V := V) identity folders) := by
  intro i e he
  cases he

lemma init_pinned (identity : ReplicationIdentity) (folders : ℕ → String) :
    Pinned (init (V := V) identity folders) := by
  intro opId w hw
  cases hw

lemma reachable_sound {identity : ReplicationIdentity} {folders : ℕ → String}
    (h : (machine identity folders base).Reachable s) : Sound base s ∧ Protected s ∧ Pinned s := by
  refine Machine.Reachable.invariant (I := fun s => Sound base s ∧ Protected s ∧ Pinned s) h ?_ ?_
  · rintro s rfl
    exact ⟨init_sound _ _, init_protected _ _, init_pinned _ _⟩
  · intro s a t ⟨hi, hp, hpin⟩ hs
    have hs := stepped_of_step hs
    exact ⟨hi.of_stepped hp hs, hp.of_stepped hi hs fun e hlog => .inl (hpin.of_apply hs hlog),
      hpin.of_stepped hs⟩

theorem served_current (identity : ReplicationIdentity) (folders : ℕ → String)
    (base : String → Option V) (s : State V) (h : (machine identity folders base).Reachable s) :
    ∀ d ∈ s.served, Current base s.log d :=
  fun d hd => ((reachable_sound h).1.served d hd).2

def sampleIdentity : ReplicationIdentity := ⟨"https://node", "default", "did:key:z"⟩

def sampleRun : List (Action ℕ) :=
  [.beginWrite "w" [("notes/a", some 1)] "t0", .apply "w" 0, .settle "w" .committed "t1" none,
    .captureEpoch 0 0, .fetch 0, .install 0, .readStatus 0 0 "notes/a" .valid, .afterSync 0,
    .checkPending 0 true false, .beginWrite "v" [("notes/a", none)] "t2", .apply "v" 0, .serve 0]

def sampleMachine : Machine (State ℕ) (Action ℕ) :=
  machine sampleIdentity (fun _ => "notes/") (fun _ => none)

theorem served_current_sample :
    ∃ s, sampleMachine.run (init sampleIdentity fun _ => "notes/") sampleRun = some s ∧
      s.served.map (fun d => (d.key, d.content)) = [("notes/a", some 1)] ∧
      ∀ d ∈ s.served, Current (fun _ => none) s.log d := by
  have hrun : ((sampleMachine.run (init sampleIdentity fun _ => "notes/") sampleRun).map fun s =>
      s.served.map fun d => (d.key, d.content)) = some [("notes/a", some 1)] := by
    decide +kernel
  obtain ⟨s, hs, hserved⟩ := Option.map_eq_some_iff.mp hrun
  refine ⟨s, hs, hserved, ?_⟩
  exact served_current sampleIdentity (fun _ => "notes/") (fun _ => none) s
    (Machine.Reachable.of_run (.start rfl) hs)

end TinyCloud.Kv.ReadThrough
