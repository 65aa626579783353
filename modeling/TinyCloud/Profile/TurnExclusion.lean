import TinyCloud.Profile.TurnLock

/-! Mutual exclusion of the turn lock: whatever processes list, read and settle,
pause and die, one acquisition at a time holds a granted turn. -/

namespace TinyCloud.Profile

open Runs TurnDirectory

namespace TurnDirectory

variable (D : TurnDirectory)

def Untaken (token : ℕ) : Prop :=
  (∀ n, D.grant n ≠ some token) ∧
    ∀ n e kind, D.turns n = some e → (token, kind) ∉ e.markers

def Unpublished (token : ℕ) : Prop :=
  D.Untaken token ∧ ∀ n e, D.turns n = some e → e.owner.token ≠ token

def Known (slot : ℕ) (o : Owner) : Prop :=
  D.Follows o slot ∧ (D.Fresh slot o.token ∨ D.Gone slot)

/-- What a process's file operations on the turn directory are, with the token written. -/
inductive Effect (process : ℕ) : Option ℕ → TurnDirectory → Prop
  | unchanged : Effect process none D
  | created {token} : D.Unpublished token →
      Effect process (some token) (D.createTurnDirectory process token)
  | published {slot o} : o.process = process → D.turns slot = none → D.Unpublished o.token →
      D.Follows o slot → Effect process (some o.token) (D.publish slot o)
  | marked {slot token kind} : D.MayMark slot token kind →
      Effect process (some token) (D.markTurn slot token kind)
  | removed {slot} : slot + 1 < D.granted.length →
      slot = 0 ∨ ¬ D.Present (slot - 1) ∨ ¬ D.Present slot → Effect process none (D.remove slot)

/-- Nothing of `token` is new. -/
structure Untouched (D' : TurnDirectory) (token : ℕ) : Prop where
  grant : ∀ {n}, D'.grant n = some token → D.grant n = some token
  marker : ∀ {n e kind}, D'.turns n = some e → (token, kind) ∈ e.markers →
    ∃ e₀, D.turns n = some e₀ ∧ (token, kind) ∈ e₀.markers
  owner : ∀ {n e}, D'.turns n = some e → e.owner.token = token →
    ∃ e₀, D.turns n = some e₀ ∧ e₀.owner.token = token

variable {D} {D' : TurnDirectory} {touch : Option ℕ} {process token slot : ℕ}

lemma Effect.sound (hD : D.Sound) (h : D.Effect process touch D') : D'.Sound := by
  cases h with
  | unchanged => exact hD
  | created _ => exact hD.createTurnDirectory _ _
  | published _ hfree hnew hf => exact hD.publish hfree hnew.1.1 hf
  | marked hk => exact hD.markTurn hk
  | removed hlt h => exact hD.remove hlt h

lemma Effect.grows (hD : D.Sound) (h : D.Effect process touch D') : D.Grows D' := by
  cases h with
  | unchanged => exact .refl
  | created _ => exact hD.createTurnDirectory_grows _ _
  | published _ hfree hnew _ => exact publish_grows hfree hnew.1.1
  | marked hk => exact hD.markTurn_grows hk
  | removed hlt _ => exact remove_grows hlt

lemma Untouched.refl : D.Untouched D token :=
  ⟨id, fun he hm => ⟨_, he, hm⟩, fun he ht => ⟨_, he, ht⟩⟩

lemma Untouched.untaken (h : D.Untouched D' token) (hu : D.Untaken token) : D'.Untaken token := by
  refine ⟨fun n hg => hu.1 n (h.grant hg), fun n e kind he hm => ?_⟩
  obtain ⟨e₀, he₀, hm₀⟩ := h.marker he hm
  exact hu.2 n e₀ kind he₀ hm₀

lemma Untouched.unpublished (h : D.Untouched D' token) (hu : D.Unpublished token) :
    D'.Unpublished token := by
  refine ⟨h.untaken hu.1, fun n e he ht => ?_⟩
  obtain ⟨e₀, he₀, ht₀⟩ := h.owner he ht
  exact hu.2 n e₀ he₀ ht₀

lemma Effect.untouched (hD : D.Sound) (h : D.Effect process touch D') (ht : touch ≠ some token) :
    D.Untouched D' token := by
  cases h with
  | unchanged => exact .refl
  | @created t _ =>
    have hne : t ≠ token := fun he => ht (congrArg some he)
    cases hc : D.created with
    | true =>
      rw [createTurnDirectory, if_pos hc]
      exact .refl
    | false =>
      rw [hD.createTurnDirectory_eq hc]
      have hturns : ∀ {n e}, Function.update (fun _ => none) 0
          (some (⟨⟨process, t, none⟩, [(t, .held), (t, .done)]⟩ : TurnEntry)) n = some e →
          e = ⟨⟨process, t, none⟩, [(t, .held), (t, .done)]⟩ := by
        intro n e he
        rw [Function.update_apply] at he
        split at he
        · cases he
          rfl
        · cases he
      refine ⟨?_, ?_, ?_⟩
      · intro n hg
        obtain rfl : n = 0 := by simpa using grant_lt hg
        cases hg
        exact (hne rfl).elim
      · intro n e kind he hm
        cases hturns he
        simp only [List.mem_cons, Prod.mk.injEq, List.not_mem_nil, or_false] at hm
        rcases hm with ⟨hm, _⟩ | ⟨hm, _⟩ <;> exact (hne hm.symm).elim
      · intro n e he ht'
        cases hturns he
        exact (hne ht').elim
  | @published slot o _ hfree hnew _ =>
    have hne : o.token ≠ token := fun he => ht (congrArg some he)
    refine ⟨id, ?_, ?_⟩
    · intro n e kind he hm
      by_cases hn : n = slot
      · subst hn
        rw [publish_turns_self] at he
        cases he
        cases hm
      · rw [publish_turns_of_ne hn] at he
        exact ⟨e, he, hm⟩
    · intro n e he ht'
      by_cases hn : n = slot
      · subst hn
        rw [publish_turns_self] at he
        cases he
        exact (hne ht').elim
      · rw [publish_turns_of_ne hn] at he
        exact ⟨e, he, ht'⟩
  | @marked slot t kind hk =>
    have hne : t ≠ token := fun he => ht (congrArg some he)
    refine ⟨?_, ?_, ?_⟩
    · intro n hg
      rcases markTurn_granted D slot t kind with h | ⟨_, _, _, _, _, h⟩
      · rwa [grant, h] at hg
      · rw [grant_append h] at hg
        split at hg
        · cases hg
          exact (hne rfl).elim
        · exact hg
    · intro n e kind' he hm
      obtain ⟨e₀, he₀, _, hmarks⟩ := markTurn_turns he
      rcases hmarks _ hm with hm | ⟨_, heq⟩
      · exact ⟨e₀, he₀, hm⟩
      · cases heq
        exact (hne rfl).elim
    · intro n e he ht'
      obtain ⟨e₀, he₀, ho, _⟩ := markTurn_turns he
      exact ⟨e₀, he₀, ho ▸ ht'⟩
  | removed _ _ =>
    exact ⟨id, fun he hm => ⟨_, (remove_turns he).1, hm⟩, fun he ht' => ⟨_, (remove_turns he).1, ht'⟩⟩

lemma Effect.owner (hD : D.Sound) (h : D.Effect process touch D') {n : ℕ} {e : TurnEntry}
    (he : D'.turns n = some e) : (∃ e₀, D.turns n = some e₀ ∧ e₀.owner = e.owner) ∨
      (touch = some e.owner.token ∧ e.owner.process = process) := by
  cases h with
  | unchanged => exact .inl ⟨e, he, rfl⟩
  | @created t _ =>
    cases hc : D.created with
    | true =>
      rw [createTurnDirectory, if_pos hc] at he
      exact .inl ⟨e, he, rfl⟩
    | false =>
      rw [hD.createTurnDirectory_eq hc] at he
      simp only [Function.update_apply] at he
      split at he
      · cases he
        exact .inr ⟨rfl, rfl⟩
      · cases he
  | @published slot o hp _ _ _ =>
    by_cases hn : n = slot
    · subst hn
      rw [publish_turns_self] at he
      cases he
      exact .inr ⟨rfl, hp⟩
    · rw [publish_turns_of_ne hn] at he
      exact .inl ⟨e, he, rfl⟩
  | marked _ =>
    obtain ⟨e₀, he₀, ho, _⟩ := markTurn_turns he
    exact .inl ⟨e₀, he₀, ho.symm⟩
  | removed _ _ => exact .inl ⟨e, (remove_turns he).1, rfl⟩

/-- The turn is the latest grant, and its own process has not finished it. -/
def Held (D : TurnDirectory) (turn : Turn) : Prop :=
  D.grant turn.slot = some turn.token ∧ turn.slot + 1 = D.granted.length ∧
    D.hasMarker turn.slot turn.token .done = false

-- A turn is granted only after the grant before it is over, so never beside a held one.
lemma Held.length_eq {turn : Turn} (hD : D.Sound) (h : D.Effect process touch D') (hh : D.Held turn) :
    D'.granted.length = D.granted.length := by
  cases h with
  | created _ =>
    have hc : D.created = true := hD.created.mpr (by have := hh.2.1; omega)
    rw [createTurnDirectory, if_pos hc]
  | @marked slot t kind hk =>
    rcases hD.markTurn_grant hk with h | ⟨hs, _, ⟨e, he, _⟩, _⟩
    · rw [h]
    · obtain ⟨hg, hlast, hdone⟩ := hh
      obtain rfl : slot = turn.slot + 1 := by omega
      obtain ⟨t', _, hg', ho⟩ := hD.follows he
      rcases ho with ho | ⟨e', t'', he', hg'', hm⟩
      · omega
      · rw [hg, Option.some.injEq] at hg''
        subst hg''
        rw [hasMarker_iff.mpr ⟨e', he', hm⟩] at hdone
        cases hdone
  | _ => rfl

lemma Held.of_effect {turn : Turn} (hD : D.Sound) (h : D.Effect process touch D') (hh : D.Held turn)
    (ht : touch ≠ some turn.token) : D'.Held turn := by
  refine ⟨(h.grows hD).grant hh.1, hh.2.1.trans (hh.length_eq hD h).symm, ?_⟩
  rw [Bool.eq_false_iff]
  intro hm
  obtain ⟨e, he, hm⟩ := hasMarker_iff.mp hm
  obtain ⟨e₀, he₀, hm₀⟩ := (h.untouched hD ht).marker he hm
  exact Bool.eq_false_iff.mp hh.2.2 (hasMarker_iff.mpr ⟨e₀, he₀, hm₀⟩)

end TurnDirectory

section Reads

variable {D D' : TurnDirectory} {slot token after : ℕ} {pc pc' : ReadPc} {result : TurnRead}
  {t : TurnState} {turn : Turn} {o : Owner}

/-- The turn was seen finished: if it is the granted one, it is over. -/
def SeenDone (D : TurnDirectory) (slot token : ℕ) : Prop :=
  slot < D.granted.length ∧ (D.grant slot = some token → D.Over slot)

def ReadPc.Seen (D : TurnDirectory) (slot : ℕ) : ReadPc → Prop
  | .owner | .missing => True
  | .done o => D.Known slot o
  | .held o d => D.Known slot o ∧ (d = true → SeenDone D slot o.token)

def ReadPc.reads : ReadPc → Option Owner
  | .owner | .missing => none
  | .done o | .held o _ => some o

structure TurnState.Good (D : TurnDirectory) (t : TurnState) : Prop where
  known : D.Known t.slot t.owner
  held : t.held = true → D.grant t.slot = some t.owner.token
  done : t.done = true → SeenDone D t.slot t.owner.token

/-- Turn `slot + 1` is checked against its predecessor, which was granted as `after`. -/
structure Checking (D : TurnDirectory) (turn : Turn) (after slot : ℕ) : Prop where
  slot_eq : turn.slot = slot + 1
  grant : D.grant slot = some after
  passed : D.Over slot
  known : D.Fresh turn.slot turn.token ∨ D.Gone turn.slot

def CheckPc (D : TurnDirectory) (turn : Turn) (after : ℕ) : ReadPc → Prop
  | .owner => True
  | .missing => turn.slot < D.granted.length
  | .done o => (o.token = after → D.Fresh turn.slot turn.token) ∧
      (o.token ≠ after → turn.slot < D.granted.length)
  | .held o done => (o.token = after → D.Fresh turn.slot turn.token) ∧
      (o.token ≠ after ∨ done = false → turn.slot < D.granted.length)

lemma known_mono (hg : D.Grows D') (h : D.Known slot o) : D'.Known slot o :=
  ⟨hg.follows h.1, h.2.imp hg.fresh hg.gone⟩

lemma SeenDone.mono (hg : D.Grows D') (h : SeenDone D slot token) : SeenDone D' slot token := by
  refine ⟨h.1.trans_le hg.length, fun hgr => ?_⟩
  obtain ⟨t, ht⟩ := grant_of_lt h.1
  have ht' := hg.grant ht
  rw [hgr, Option.some.injEq] at ht'
  subst ht'
  exact hg.passed (h.2 ht)

lemma ReadPc.Seen.mono (hg : D.Grows D') (h : pc.Seen D slot) : pc.Seen D' slot := by
  cases pc with
  | owner => trivial
  | missing => trivial
  | done o =>
    have h : D.Known slot o := h
    exact known_mono hg h
  | held o d => exact ⟨known_mono hg h.1, fun hd => (h.2 hd).mono hg⟩

lemma TurnState.Good.mono (hg : D.Grows D') (h : t.Good D) : t.Good D' :=
  ⟨known_mono hg h.known, fun hh => hg.grant (h.held hh), fun hd => (h.done hd).mono hg⟩

lemma Checking.mono (hg : D.Grows D') (h : Checking D turn after slot) : Checking D' turn after slot :=
  ⟨h.slot_eq, hg.grant h.grant, hg.passed h.passed, h.known.imp hg.fresh hg.gone⟩

lemma CheckPc.mono (hg : D.Grows D') (h : CheckPc D turn after pc) : CheckPc D' turn after pc := by
  cases pc with
  | owner => trivial
  | missing => exact Nat.lt_of_lt_of_le h hg.length
  | done o => exact ⟨fun ht => hg.fresh (h.1 ht), fun ht => (h.2 ht).trans_le hg.length⟩
  | held o d => exact ⟨fun ht => hg.fresh (h.1 ht), fun ht => (h.2 ht).trans_le hg.length⟩

lemma seenDone_of_hasMarker (hD : D.Sound) (hk : D.Known slot o)
    (hm : D.hasMarker slot o.token .done = true) : SeenDone D slot o.token := by
  obtain ⟨e, he, hm⟩ := hasMarker_iff.mp hm
  refine ⟨?_, fun hg => .inr ⟨e, o.token, he, hg, hm⟩⟩
  rcases hk.2 with (hf | ⟨hn, e', he', ht⟩) | hgone
  · exact grant_lt hf
  · rw [he'] at he
    cases he
    rw [hn] at he'
    rw [← ht] at hm
    exact (hD.undone he' hm).elim
  · exact hgone.1

lemma readTurn_seen (hD : D.Sound) (h : pc.Seen D slot) (hr : D.readTurn slot pc = .inl pc') :
    pc'.Seen D slot := by
  cases pc with
  | owner =>
    simp only [readTurn] at hr
    split at hr
    · cases hr
      trivial
    · rename_i e he
      cases hr
      exact ⟨hD.follows he, hD.known he⟩
  | missing => cases hr
  | done o =>
    cases hr
    have h : D.Known slot o := h
    exact ⟨h, fun hm => seenDone_of_hasMarker hD h hm⟩
  | held o d => cases hr

lemma readTurn_reads (hr : D.readTurn slot pc = .inl pc') (ho : pc'.reads = some o) :
    pc.reads = some o ∨ ∃ e, D.turns slot = some e ∧ e.owner = o := by
  cases pc with
  | owner =>
    simp only [readTurn] at hr
    split at hr
    · cases hr
      cases ho
    · rename_i e he
      cases hr
      cases ho
      exact .inr ⟨e, he, rfl⟩
  | missing => cases hr
  | done o =>
    cases hr
    exact .inl ho
  | held o d => cases hr

lemma readTurn_turn (hD : D.Sound) (h : pc.Seen D slot) (hr : D.readTurn slot pc = .inr (.turn t)) :
    t.Good D ∧ t.slot = slot ∧ pc.reads = some t.owner ∧
      t.held = D.hasMarker slot t.owner.token .held := by
  cases pc with
  | owner =>
    simp only [readTurn] at hr
    split at hr <;> cases hr
  | missing =>
    simp only [readTurn, Sum.inr.injEq] at hr
    split at hr <;> cases hr
  | done o => cases hr
  | held o d =>
    cases hr
    refine ⟨⟨h.1, fun hm => ?_, h.2⟩, rfl, rfl, rfl⟩
    obtain ⟨e, he, hm⟩ := hasMarker_iff.mp hm
    exact hD.held he hm

-- A turn that waits to be granted has its predecessor granted, present and over.
lemma Checking.present (hD : D.Sound) (h : Checking D turn after slot)
    (hn : ¬ turn.slot < D.granted.length) :
    slot + 1 = D.granted.length ∧ ∃ e, D.turns slot = some e ∧ e.owner.token = after := by
  have hle : turn.slot ≤ D.granted.length := by
    rcases h.known with hf | hgone
    · exact hf.le
    · exact hgone.1.le
  have hs : slot + 1 = D.granted.length := by
    have := h.slot_eq
    omega
  obtain ⟨e, he, hg⟩ := hD.latest hs
  rw [h.grant, Option.some.injEq] at hg
  exact ⟨hs, e, he, hg.symm⟩

lemma readTurn_check (hD : D.Sound) (hc : Checking D turn after slot) (h : CheckPc D turn after pc)
    (hr : D.readTurn slot pc = .inl pc') : CheckPc D turn after pc' := by
  cases pc with
  | owner =>
    simp only [readTurn] at hr
    split at hr
    · rename_i he
      cases hr
      by_contra hn
      obtain ⟨_, e, he', _⟩ := hc.present hD hn
      rw [he] at he'
      cases he'
    · rename_i e he
      cases hr
      refine ⟨fun ht => ?_, fun ht => ?_⟩
      · refine hc.known.resolve_right fun hgone => ?_
        rw [hc.slot_eq] at hgone
        exact (hD.gone_before hgone).2 ⟨e, he, by rw [ht]; exact hc.grant⟩
      · by_contra hn
        obtain ⟨_, e', he', ht'⟩ := hc.present hD hn
        rw [he] at he'
        cases he'
        exact ht ht'
  | missing => cases hr
  | done o =>
    cases hr
    refine ⟨h.1, fun hor => ?_⟩
    by_contra hn
    obtain ⟨hs, e, he, ht⟩ := hc.present hD hn
    rcases hor with hne | hd
    · exact hn (h.2 hne)
    · rcases hc.passed with ho | ⟨e', t', he', hg', hm⟩
      · omega
      · by_cases hta : o.token = after
        · rw [hc.grant, Option.some.injEq] at hg'
          rw [hta, hg'] at hd
          rw [hasMarker_iff.mpr ⟨e', he', hm⟩] at hd
          cases hd
        · exact hn (h.2 hta)
  | held o d => cases hr

lemma isFinishedTurn_true (h : CheckPc D turn after pc) (hr : D.readTurn slot pc = .inr result)
    (hf : isFinishedTurn after result = some true) : D.Fresh turn.slot turn.token := by
  cases pc with
  | owner =>
    simp only [readTurn] at hr
    split at hr <;> cases hr
  | missing =>
    simp only [readTurn, Sum.inr.injEq] at hr
    split at hr <;> · subst hr; cases hf
  | done o => cases hr
  | held o d =>
    cases hr
    simp only [isFinishedTurn, Option.some.injEq, Bool.and_eq_true, beq_iff_eq] at hf
    exact h.1 hf.1.1

lemma isFinishedTurn_false (hD : D.Sound) (hc : Checking D turn after slot) (h : CheckPc D turn after pc)
    (hr : D.readTurn slot pc = .inr result) (hf : isFinishedTurn after result = some false) :
    turn.slot < D.granted.length := by
  cases pc with
  | owner =>
    simp only [readTurn] at hr
    split at hr <;> cases hr
  | missing => exact h
  | done o => cases hr
  | held o d =>
    cases hr
    by_contra hn
    obtain ⟨hs, e, he, ht⟩ := hc.present hD hn
    have hta : o.token = after := by
      by_contra hne
      exact hn (h.2 (.inl hne))
    have hd : d = true := by
      by_contra hd
      exact hn (h.2 (.inr (Bool.eq_false_iff.mpr hd)))
    have hheld := hD.heldOwn he (by rw [ht]; exact hc.grant)
    rw [ht] at hheld
    simp [isFinishedTurn, hta, hd, hasMarker_iff.mpr ⟨e, he, hheld⟩] at hf

end Reads

section Phases

variable {D D' : TurnDirectory} {slot token : ℕ} {pc : ReadPc} {phase : TurnPhase} {r : Reading}
  {turn : Turn} {rest : List ℕ} {settler : Settler} {t : TurnState} {process : ℕ} {touch : Option ℕ}

/-- The turn an acquisition published or is to publish, and has not given up. -/
def TurnPhase.owns : TurnPhase → Option ℕ
  | .creating token | .publishing _ token => some token
  | .reading (.check turn _) _ _ | .granting turn | .voiding turn | .holding turn | .releasing turn =>
    some turn.token
  | _ => none

def Settler.tokens : Settler → List ℕ
  | .acquisition => []
  | .background turn => [turn.token]

def TurnPhase.settles : TurnPhase → List ℕ
  | .reading (.own turn) _ _ => [turn.token]
  | .reading (.settle settler t _) _ _ | .settlingHeld settler t | .settlingDone settler t =>
    t.owner.token :: settler.tokens
  | _ => []

def TurnPhase.reads : TurnPhase → Option Owner
  | .reading _ _ pc => pc.reads
  | .judging t => some t.owner
  | _ => none

structure Older (D : TurnDirectory) (turn : Turn) (slot : ℕ) (rest : List ℕ) : Prop where
  granted : turn.slot < D.granted.length
  slot : slot < turn.slot
  rest : ∀ n ∈ rest, n < turn.slot

def Removable (D : TurnDirectory) (slot : ℕ) : Prop :=
  slot = 0 ∨ ¬ D.Present (slot - 1) ∨ ¬ D.Present slot

def Reading.Good (D : TurnDirectory) (slot : ℕ) (pc : ReadPc) : Reading → Prop
  | .latest | .own _ => True
  | .check turn after => Checking D turn after slot ∧ CheckPc D turn after pc ∧ D.Untaken turn.token
  | .settle _ t after => Checking D t.turn after slot ∧ CheckPc D t.turn after pc
  | .candidate turn rest => Older D turn slot rest
  | .next turn c rest => Older D turn c rest ∧ Removable D c

def TurnPhase.Good (D : TurnDirectory) : TurnPhase → Prop
  | .looking => True
  | .creating token => D.Unpublished token
  | .reading r slot pc => pc.Seen D slot ∧ r.Good D slot pc
  | .judging t => t.Good D
  | .publishing t token => t.Good D ∧ t.held = true ∧ t.done = true ∧ D.Unpublished token
  | .granting turn => D.Fresh turn.slot turn.token ∧ D.Untaken turn.token
  | .voiding turn | .releasing turn | .listing turn => turn.slot < D.granted.length
  | .holding turn => D.Held turn
  | .settlingHeld _ t => D.Fresh t.slot t.owner.token
  | .settlingDone _ t => t.slot < D.granted.length
  | .checkingOlder turn slot rest => Older D turn slot rest
  | .removing turn slot rest => Older D turn slot rest ∧ Removable D slot

lemma Older.mono (hg : D.Grows D') (h : Older D turn slot rest) : Older D' turn slot rest :=
  ⟨h.granted.trans_le hg.length, h.slot, h.rest⟩

lemma Removable.mono (hg : D.Grows D') (hlt : slot < D.granted.length) (h : Removable D slot) :
    Removable D' slot := by
  have hgone : ∀ {n}, n ≤ slot → ¬ D.Present n → ¬ D'.Present n :=
    fun hn hp => (hg.gone ⟨by omega, hp⟩).2
  rcases h with h | h | h
  · exact .inl h
  · exact .inr (.inl (hgone (Nat.sub_le _ _) h))
  · exact .inr (.inr (hgone (le_refl _) h))

lemma TurnPhase.Good.mono (hD : D.Sound) (he : D.Effect process touch D')
    (ht : ∀ token, phase.owns = some token → touch ≠ some token) (h : phase.Good D) :
    phase.Good D' := by
  have hg := he.grows hD
  cases phase with
  | looking => trivial
  | creating token => exact (he.untouched hD (ht token rfl)).unpublished h
  | reading r slot pc =>
    refine ⟨h.1.mono hg, ?_⟩
    have hr := h.2
    cases r with
    | latest => trivial
    | own turn => trivial
    | check turn after =>
      exact ⟨hr.1.mono hg, hr.2.1.mono hg, (he.untouched hD (ht turn.token rfl)).untaken hr.2.2⟩
    | settle settler t after => exact ⟨hr.1.mono hg, hr.2.mono hg⟩
    | candidate turn rest => exact Older.mono hg hr
    | next turn c rest => exact ⟨hr.1.mono hg, hr.2.mono hg (by have := hr.1.slot; have := hr.1.granted; omega)⟩
  | judging t => exact TurnState.Good.mono hg h
  | publishing t token =>
    exact ⟨h.1.mono hg, h.2.1, h.2.2.1, (he.untouched hD (ht token rfl)).unpublished h.2.2.2⟩
  | granting turn => exact ⟨hg.fresh h.1, (he.untouched hD (ht turn.token rfl)).untaken h.2⟩
  | voiding turn | releasing turn | listing turn => exact Nat.lt_of_lt_of_le h hg.length
  | holding turn => exact Held.of_effect hD he h (ht turn.token rfl)
  | settlingHeld settler t => exact hg.fresh h
  | settlingDone settler t => exact Nat.lt_of_lt_of_le h hg.length
  | checkingOlder turn slot rest => exact Older.mono hg h
  | removing turn slot rest =>
    exact ⟨h.1.mono hg, h.2.mono hg (by have := h.1.slot; have := h.1.granted; omega)⟩

lemma settleAbandonedTurn_good (h : t.Good D) : (settleAbandonedTurn settler t).Good D := by
  have hf := h.known.1
  unfold settleAbandonedTurn
  split
  · rename_i after hheld hafter
    obtain ⟨k, hk⟩ : ∃ k, t.slot = k + 1 := by
      cases hs : t.slot with
      | zero =>
        rw [hs] at hf
        rw [hf.1] at hafter
        cases hafter
      | succ k => exact ⟨k, rfl⟩
    rw [hk] at hf
    obtain ⟨token, ha, hg, ho⟩ := hf
    rw [hafter, Option.some.injEq] at ha
    subst ha
    rw [hk, Nat.add_sub_cancel]
    exact ⟨trivial, ⟨hk, hg, ho, h.known.2⟩, trivial⟩
  · rename_i hno
    change t.slot < D.granted.length
    cases hheld : t.held with
    | true => exact grant_lt (h.held hheld)
    | false =>
      cases hs : t.slot with
      | zero =>
        rw [hs] at hf
        exact grant_lt hf.2
      | succ k =>
        rw [hs] at hf
        obtain ⟨token, ha, _⟩ := hf
        exact (hno token hheld ha).elim

lemma settleAbandonedTurn_owns : (settleAbandonedTurn settler t).owns = none := by
  unfold settleAbandonedTurn
  split <;> rfl

lemma settleAbandonedTurn_settles :
    (settleAbandonedTurn settler t).settles = t.owner.token :: settler.tokens := by
  unfold settleAbandonedTurn
  split <;> rfl

lemma settleAbandonedTurn_reads : (settleAbandonedTurn settler t).reads = none := by
  unfold settleAbandonedTurn
  split <;> rfl

end Phases

/-- No acquisition that could still hold the turn has it. -/
def Free (s : TurnLock) (token : ℕ) : Prop :=
  token < s.nextToken ∧ ∀ x a, s.acquisitions x = some a → a.phase.owns ≠ some token

def Recorded (s : TurnLock) (o : Owner) : Prop :=
  o.token < s.nextToken ∧
    ∀ x a, s.acquisitions x = some a → a.phase.owns = some o.token → a.process = o.process

structure LockInv (s : TurnLock) : Prop where
  sound : s.directory.Sound
  unpublished : ∀ token, s.nextToken ≤ token → s.directory.Unpublished token
  recorded : ∀ {n e}, s.directory.turns n = some e → Recorded s e.owner
  owns_lt : ∀ {x a token}, s.acquisitions x = some a → a.phase.owns = some token → token < s.nextToken
  owns_ne : ∀ {x y a b token}, x ≠ y → s.acquisitions x = some a → s.acquisitions y = some b →
    a.phase.owns = some token → b.phase.owns ≠ some token
  alive : ∀ {x a}, s.acquisitions x = some a → s.alive a.process = true
  relinquished : ∀ {p token}, token ∈ s.relinquished p → Free s token
  settles : ∀ {x a token}, s.acquisitions x = some a → token ∈ a.phase.settles → Free s token
  reads : ∀ {x a o}, s.acquisitions x = some a → a.phase.reads = some o → Recorded s o
  good : ∀ {x a}, s.acquisitions x = some a → a.phase.Good s.directory
  returned : ∀ turn ∈ s.returned, s.directory.grant turn.slot = some turn.token
  increasing : (s.returned.map Turn.slot).Pairwise (· < ·)

/-- What acquisition `x` does in one step, before and after. -/
structure Moves (s : TurnLock) (x : ℕ) (s' : TurnLock) : Prop where
  effect : ∃ process touch, s.directory.Effect process touch s'.directory ∧
    (∀ token, touch = some token → Free s token ∨
      ∃ a, s.acquisitions x = some a ∧ a.process = process ∧ a.phase.owns = some token)
  others : ∀ y, y ≠ x → s'.acquisitions y = s.acquisitions y
  alive : s'.alive = s.alive
  next : s.nextToken ≤ s'.nextToken
  process : ∀ a', s'.acquisitions x = some a' → s.alive a'.process = true ∧
    ∀ a, s.acquisitions x = some a → a'.process = a.process
  owns : ∀ a' token, s'.acquisitions x = some a' → a'.phase.owns = some token →
    (∃ a, s.acquisitions x = some a ∧ a.phase.owns = some token) ∨
      (token = s.nextToken ∧ s.nextToken < s'.nextToken)
  relinquished : ∀ p token, token ∈ s'.relinquished p → token ∈ s.relinquished p ∨
    ∃ a a', s.acquisitions x = some a ∧ a.phase.owns = some token ∧ s'.acquisitions x = some a' ∧
      a'.phase.owns = none
  settles : ∀ a', s'.acquisitions x = some a' → ∀ token ∈ a'.phase.settles, Free s token ∨
    ∃ a, s.acquisitions x = some a ∧ a.phase.owns = some token ∧ a'.phase.owns = none
  reads : ∀ a', s'.acquisitions x = some a' → ∀ o, a'.phase.reads = some o → Recorded s o
  good : ∀ a', s'.acquisitions x = some a' → a'.phase.Good s'.directory
  returned : s'.returned = s.returned ∨ ∃ turn, s'.returned = s.returned ++ [turn] ∧
    s.directory.granted.length ≤ turn.slot ∧ s'.directory.grant turn.slot = some turn.token

variable {s s' : TurnLock} {x y token : ℕ} {a : Acquisition} {o : Owner}

lemma Moves.owns_cases (hm : Moves s x s') {b : Acquisition} (hb : s'.acquisitions y = some b)
    (ho : b.phase.owns = some token) :
    (∃ a, s.acquisitions y = some a ∧ a.phase.owns = some token ∧ b.process = a.process) ∨
      (y = x ∧ token = s.nextToken ∧ s.nextToken < s'.nextToken) := by
  by_cases hy : y = x
  · subst hy
    rcases hm.owns b token hb ho with ⟨a, ha, hao⟩ | hnew
    · exact .inl ⟨a, ha, hao, (hm.process b hb).2 a ha⟩
    · exact .inr ⟨rfl, hnew⟩
  · rw [hm.others y hy] at hb
    exact .inl ⟨b, hb, ho, rfl⟩

lemma Moves.free (hm : Moves s x s') (h : Free s token) : Free s' token := by
  refine ⟨h.1.trans_le hm.next, fun y b hb ho => ?_⟩
  rcases hm.owns_cases hb ho with ⟨a, ha, hao, _⟩ | ⟨_, ht, _⟩
  · exact h.2 y a ha hao
  · have := h.1
    omega

lemma Moves.recorded (hm : Moves s x s') (h : Recorded s o) : Recorded s' o := by
  refine ⟨h.1.trans_le hm.next, fun y b hb ho => ?_⟩
  rcases hm.owns_cases hb ho with ⟨a, ha, hao, hp⟩ | ⟨_, ht, _⟩
  · exact hp.trans (h.2 y a ha hao)
  · have := h.1
    omega

lemma LockInv.free_of_owned (hi : LockInv s) (hm : Moves s x s') (ha : s.acquisitions x = some a)
    (ho : a.phase.owns = some token)
    (hgone : ∀ a', s'.acquisitions x = some a' → a'.phase.owns = none) : Free s' token := by
  refine ⟨(hi.owns_lt ha ho).trans_le hm.next, fun y b hb hbo => ?_⟩
  by_cases hy : y = x
  · subst hy
    rw [hgone b hb] at hbo
    cases hbo
  · rw [hm.others y hy] at hb
    exact hi.owns_ne (Ne.symm hy) ha hb ho hbo

lemma LockInv.of_moves (hi : LockInv s) (hm : Moves s x s') : LockInv s' := by
  obtain ⟨process, touch, heffect, htouch⟩ := hm.effect
  have hgrows := heffect.grows hi.sound
  have hother : ∀ {y b token}, y ≠ x → s.acquisitions y = some b → b.phase.owns = some token →
      touch ≠ some token := by
    intro y b token hy hb ho ht
    rcases htouch token ht with hfree | ⟨a, ha, _, hao⟩
    · exact hfree.2 y b hb ho
    · exact hi.owns_ne hy hb ha ho hao
  have htouch_lt : ∀ {token}, touch = some token → token < s.nextToken := by
    intro token ht
    rcases htouch token ht with hfree | ⟨a, ha, _, hao⟩
    · exact hfree.1
    · exact hi.owns_lt ha hao
  refine ⟨heffect.sound hi.sound, ?_, ?_, ?_, ?_, ?_, ?_, ?_, ?_, ?_, ?_, ?_⟩
  · intro token ht
    have hle := hm.next
    refine (heffect.untouched hi.sound fun he => ?_).unpublished (hi.unpublished token (by omega))
    have := htouch_lt he
    omega
  · intro n e he
    rcases heffect.owner hi.sound he with ⟨e₀, he₀, ho⟩ | ⟨ht, hp⟩
    · exact ho ▸ hm.recorded (hi.recorded he₀)
    · refine ⟨(htouch_lt ht).trans_le hm.next, fun y b hb hbo => ?_⟩
      rcases hm.owns_cases hb hbo with ⟨a, ha, hao, hpa⟩ | ⟨_, heq, _⟩
      · rcases htouch _ ht with hfree | ⟨a', ha', hp', hao'⟩
        · exact (hfree.2 y a ha hao).elim
        · by_cases hy : y = x
          · subst hy
            rw [ha] at ha'
            cases ha'
            rw [hpa, hp', hp]
          · exact (hi.owns_ne hy ha ha' hao hao').elim
      · have := htouch_lt ht
        omega
  · intro y b token hb ho
    rcases hm.owns_cases hb ho with ⟨a, ha, hao, _⟩ | ⟨_, rfl, hlt⟩
    · exact (hi.owns_lt ha hao).trans_le hm.next
    · exact hlt
  · intro y z b c token hne hb hc hbo hco
    rcases hm.owns_cases hb hbo with ⟨a, ha, hao, _⟩ | ⟨hy, ht, _⟩
    · rcases hm.owns_cases hc hco with ⟨a', ha', hao', _⟩ | ⟨_, ht, _⟩
      · exact hi.owns_ne hne ha ha' hao hao'
      · have := hi.owns_lt ha hao
        omega
    · rcases hm.owns_cases hc hco with ⟨a', ha', hao', _⟩ | ⟨hz, _, _⟩
      · have := hi.owns_lt ha' hao'
        omega
      · exact hne (hy.trans hz.symm)
  · intro y b hb
    rw [hm.alive]
    by_cases hy : y = x
    · subst hy
      exact (hm.process b hb).1
    · rw [hm.others y hy] at hb
      exact hi.alive hb
  · intro p token ht
    rcases hm.relinquished p token ht with ht | ⟨a, a', ha, hao, ha', hao'⟩
    · exact hm.free (hi.relinquished ht)
    · refine hi.free_of_owned hm ha hao fun b hb => ?_
      rw [ha'] at hb
      cases hb
      exact hao'
  · intro y b token hb ht
    by_cases hy : y = x
    · subst hy
      rcases hm.settles b hb token ht with hf | ⟨a, ha, hao, hnone⟩
      · exact hm.free hf
      · refine hi.free_of_owned hm ha hao fun b' hb' => ?_
        rw [hb] at hb'
        cases hb'
        exact hnone
    · rw [hm.others y hy] at hb
      exact hm.free (hi.settles hb ht)
  · intro y b o hb ho
    by_cases hy : y = x
    · subst hy
      exact hm.recorded (hm.reads b hb o ho)
    · rw [hm.others y hy] at hb
      exact hm.recorded (hi.reads hb ho)
  · intro y b hb
    by_cases hy : y = x
    · subst hy
      exact hm.good b hb
    · rw [hm.others y hy] at hb
      exact (hi.good hb).mono hi.sound heffect fun token ho => hother hy hb ho
  · intro turn ht
    rcases hm.returned with he | ⟨turn', he, _, hg⟩
    · rw [he] at ht
      exact hgrows.grant (hi.returned turn ht)
    · rw [he, List.mem_append, List.mem_singleton] at ht
      rcases ht with ht | rfl
      · exact hgrows.grant (hi.returned turn ht)
      · exact hg
  · rcases hm.returned with he | ⟨turn', he, hle, _⟩
    · rw [he]
      exact hi.increasing
    · rw [he, List.map_append]
      refine List.pairwise_append.mpr ⟨hi.increasing, List.pairwise_singleton _ _, ?_⟩
      intro n hn m hm'
      obtain ⟨turn, ht, rfl⟩ := List.mem_map.mp hn
      obtain rfl : m = turn'.slot := by simpa using hm'
      exact (grant_lt (hi.returned turn ht)).trans_le hle

/-- What `a` may become: its next phase, and what it brings along. -/
structure Fits (s : TurnLock) (a : Acquisition) (next : ℕ) (D : TurnDirectory) (b : Acquisition) :
    Prop where
  process : b.process = a.process
  owns : ∀ token, b.phase.owns = some token →
    a.phase.owns = some token ∨ (token = s.nextToken ∧ s.nextToken < next)
  settles : ∀ token ∈ b.phase.settles, token ∈ a.phase.settles ∨ Free s token ∨
    (a.phase.owns = some token ∧ b.phase.owns = none)
  reads : ∀ o, b.phase.reads = some o → Recorded s o
  good : b.phase.Good D

lemma LockInv.moves (hi : LockInv s) (hx : s.acquisitions x = some a) {touch : Option ℕ}
    {v : Option Acquisition} (he : s.directory.Effect a.process touch s'.directory)
    (ht : ∀ token, touch = some token → token ∈ a.phase.settles ∨ a.phase.owns = some token)
    (hacq : s'.acquisitions = Function.update s.acquisitions x v) (halive : s'.alive = s.alive)
    (hnext : s.nextToken ≤ s'.nextToken)
    (hrel : ∀ p token, token ∈ s'.relinquished p → token ∈ s.relinquished p ∨
      (a.phase.owns = some token ∧ ∃ b, v = some b ∧ b.phase.owns = none))
    (hret : s'.returned = s.returned ∨ ∃ turn, s'.returned = s.returned ++ [turn] ∧
      s.directory.granted.length ≤ turn.slot ∧ s'.directory.grant turn.slot = some turn.token)
    (hv : ∀ b, v = some b → Fits s a s'.nextToken s'.directory b) : Moves s x s' := by
  have hself : s'.acquisitions x = v := by
    rw [hacq]
    exact Function.update_self _ _ _
  refine ⟨⟨a.process, touch, he, ?_⟩, ?_, halive, hnext, ?_, ?_, ?_, ?_, ?_, ?_, hret⟩
  · intro token htok
    rcases ht token htok with hs | ho
    · exact .inl (hi.settles hx hs)
    · exact .inr ⟨a, hx, rfl, ho⟩
  · intro y hy
    rw [hacq]
    exact Function.update_of_ne hy _ _
  · intro b hb
    have hp := (hv b (hself.symm.trans hb)).process
    refine ⟨hp ▸ hi.alive hx, fun a' ha' => ?_⟩
    rw [hx] at ha'
    cases ha'
    exact hp
  · intro b token hb ho
    exact ((hv b (hself.symm.trans hb)).owns token ho).imp (fun h => ⟨a, hx, h⟩) id
  · intro p token htok
    rcases hrel p token htok with h | ⟨ho, b, hb, hnone⟩
    · exact .inl h
    · exact .inr ⟨a, b, hx, ho, hself.trans hb, hnone⟩
  · intro b hb token htok
    rcases (hv b (hself.symm.trans hb)).settles token htok with h | h | ⟨ho, hnone⟩
    · exact .inl (hi.settles hx h)
    · exact .inl h
    · exact .inr ⟨a, hx, ho, hnone⟩
  · exact fun b hb => (hv b (hself.symm.trans hb)).reads
  · exact fun b hb => (hv b (hself.symm.trans hb)).good

-- A step that leaves the directory alone.
lemma LockInv.moves_put (hi : LockInv s) (hx : s.acquisitions x = some a) {b : Acquisition}
    {phase : TurnPhase} (hb : Fits s a s.nextToken s.directory { b with phase := phase }) :
    Moves s x (s.put x b phase) :=
  hi.moves hx .unchanged (fun _ ht => by cases ht) rfl rfl (le_refl _) (fun _ _ ht => .inl ht) (.inl rfl)
    fun _ he => by
      cases he
      exact hb

lemma LockInv.moves_drop (hi : LockInv s) (hx : s.acquisitions x = some a) : Moves s x (s.drop x) :=
  hi.moves hx .unchanged (fun _ ht => by cases ht) rfl rfl (le_refl _) (fun _ _ ht => .inl ht) (.inl rfl)
    fun _ he => by cases he

lemma mem_settled {p q token t : ℕ} (h : t ∈ (s.settled p token).relinquished q) :
    t ∈ s.relinquished q := by
  simp only [TurnLock.settled, Function.update_apply] at h
  split at h
  · rename_i hq
    subst hq
    exact List.mem_of_mem_filter h
  · exact h

lemma LockInv.moves_settled_drop (hi : LockInv s) (hx : s.acquisitions x = some a) (token : ℕ) :
    Moves s x ((s.settled a.process token).drop x) :=
  hi.moves hx .unchanged (fun _ ht => by cases ht) rfl rfl (le_refl _)
    (fun _ _ ht => .inl (mem_settled ht)) (.inl rfl) fun _ he => by cases he

-- A phase that owns, settles and reads nothing.
lemma fits_plain {next : ℕ} {D : TurnDirectory} {b : Acquisition} (hp : b.process = a.process)
    (ho : b.phase.owns = none) (hs : b.phase.settles = []) (hr : b.phase.reads = none)
    (hg : b.phase.Good D) : Fits s a next D b := by
  refine ⟨hp, ?_, ?_, ?_, hg⟩
  · intro token h
    rw [ho] at h
    cases h
  · intro token h
    rw [hs] at h
    cases h
  · intro o h
    rw [hr] at h
    cases h

lemma fits_owned {next : ℕ} {D : TurnDirectory} {b : Acquisition} (hp : b.process = a.process)
    (ho : b.phase.owns = a.phase.owns) (hs : b.phase.settles = []) (hr : b.phase.reads = none)
    (hg : b.phase.Good D) : Fits s a next D b := by
  refine ⟨hp, fun token h => .inl (ho ▸ h), ?_, ?_, hg⟩
  · intro token h
    rw [hs] at h
    cases h
  · intro o h
    rw [hr] at h
    cases h

lemma fits_settling {next : ℕ} {D : TurnDirectory} {b : Acquisition} (hp : b.process = a.process)
    (ho : b.phase.owns = none) (hs : ∀ token ∈ b.phase.settles, token ∈ a.phase.settles)
    (hr : b.phase.reads = none) (hg : b.phase.Good D) : Fits s a next D b := by
  refine ⟨hp, ?_, fun token h => .inl (hs token h), ?_, hg⟩
  · intro token h
    rw [ho] at h
    cases h
  · intro o h
    rw [hr] at h
    cases h

lemma LockInv.moves_settleOwnTurn (hi : LockInv s) (hx : s.acquisitions x = some a) {turn : Turn}
    (ho : a.phase.owns = some turn.token) : Moves s x (settleOwnTurn s x a turn) := by
  refine hi.moves hx .unchanged (fun _ ht => by cases ht) rfl rfl (le_refl _) ?_ (.inl rfl) ?_
  · intro p token ht
    simp only [settleOwnTurn, TurnLock.relinquish, TurnLock.put, Function.update_apply] at ht
    split at ht
    · rename_i hp
      rcases List.mem_cons.mp ht with rfl | ht
      · exact .inr ⟨ho, _, rfl, rfl⟩
      · exact .inl (hp ▸ ht)
    · exact .inl ht
  · intro b hb
    cases hb
    refine ⟨rfl, (fun _ h => by cases h), ?_, (fun _ h => by cases h), trivial, trivial⟩
    intro token ht
    rw [List.mem_singleton.mp ht]
    exact .inr (.inr ⟨ho, rfl⟩)

lemma LockInv.moves_collectNext (hi : LockInv s) (hx : s.acquisitions x = some a) {b : Acquisition}
    (hb : b.process = a.process) {turn : Turn} {rest : List ℕ}
    (hlt : turn.slot < s.directory.granted.length) (hrest : ∀ n ∈ rest, n < turn.slot) :
    Moves s x (collectNext s x b turn rest) := by
  cases rest with
  | nil => exact hi.moves_drop hx
  | cons slot rest =>
    refine hi.moves_put hx (fits_plain hb rfl rfl rfl ?_)
    exact ⟨trivial, hlt, hrest slot List.mem_cons_self, fun n hn => hrest n (List.mem_cons_of_mem _ hn)⟩

lemma LockInv.moves_settle (hi : LockInv s) (hx : s.acquisitions x = some a) {b : Acquisition}
    (hb : b.process = a.process) {settler : Settler} {t : TurnState} (hg : t.Good s.directory)
    (hfree : ∀ token ∈ t.owner.token :: settler.tokens, Free s token) :
    Moves s x (s.put x b (settleAbandonedTurn settler t)) := by
  refine hi.moves_put hx ⟨hb, ?_, ?_, ?_, settleAbandonedTurn_good hg⟩
  · intro token h
    rw [settleAbandonedTurn_owns] at h
    cases h
  · intro token h
    rw [settleAbandonedTurn_settles] at h
    exact .inr (.inl (hfree token h))
  · intro o h
    rw [settleAbandonedTurn_reads] at h
    cases h

lemma LockInv.moves_afterLatest (hi : LockInv s) (hx : s.acquisitions x = some a) {t : TurnState}
    (hg : t.Good s.directory) (hr : Recorded s t.owner) : Moves s x (afterLatest s x a t) := by
  unfold afterLatest
  dsimp only
  split
  · rename_i hfinished
    rw [Bool.and_eq_true] at hfinished
    refine hi.moves hx .unchanged (fun _ ht => by cases ht) rfl rfl (Nat.le_succ _)
      (fun _ _ ht => .inl ht) (.inl rfl) fun b hb => ?_
    cases hb
    refine ⟨rfl, ?_, (fun _ h => (List.not_mem_nil h).elim), (fun _ h => by cases h), ?_⟩
    · intro token h
      cases h
      exact .inr ⟨rfl, Nat.lt_succ_self _⟩
    · exact ⟨hg, hfinished.1, hfinished.2, hi.unpublished _ (le_refl _)⟩
  · split
    · exact hi.moves_put hx (fits_plain rfl rfl rfl rfl trivial)
    · split
      · rename_i hrel
        rw [Bool.and_eq_true, List.contains_iff_mem] at hrel
        refine hi.moves_settle hx ?_ hg fun token h => ?_
        · rfl
        · rw [List.mem_singleton.mp h]
          exact hi.relinquished hrel.2
      · refine hi.moves_put hx ⟨rfl, (fun _ h => by cases h), (fun _ h => (List.not_mem_nil h).elim), ?_, hg⟩
        intro o h
        cases h
        exact hr

lemma not_present_of_not_held {D : TurnDirectory} {t : TurnState} (hD : D.Sound) (hg : t.Good D)
    (hlt : t.slot < D.granted.length) (hh : D.hasMarker t.slot t.owner.token .held = false) :
    ¬ D.Present t.slot := by
  rintro ⟨e, he, hgr⟩
  rcases hg.known.2 with (hf | ⟨hn, _⟩) | hgone
  · rw [hgr, Option.some.injEq] at hf
    rw [← hf, hasMarker_iff.mpr ⟨e, he, hD.heldOwn he hgr⟩] at hh
    cases hh
  · omega
  · exact hgone.2 ⟨e, he, hgr⟩

lemma LockInv.moves_afterRead (hi : LockInv s) (hx : s.acquisitions x = some a) {r : Reading} {slot : ℕ}
    {pc : ReadPc} {result : TurnRead} (hphase : a.phase = .reading r slot pc)
    (hr : s.directory.readTurn slot pc = .inr result) : Moves s x (afterRead s x a r result) := by
  have hgood := hi.good hx
  rw [hphase] at hgood
  obtain ⟨hseen, hread⟩ := hgood
  have hturn : ∀ {t}, result = .turn t → t.Good s.directory ∧ t.slot = slot ∧ Recorded s t.owner ∧
      t.held = s.directory.hasMarker slot t.owner.token .held := by
    rintro t rfl
    obtain ⟨hg, hslot, hreads, hheld⟩ := readTurn_turn hi.sound hseen hr
    exact ⟨hg, hslot, hi.reads hx (by rw [hphase]; exact hreads), hheld⟩
  have hsettles : ∀ {token}, token ∈ (TurnPhase.reading r slot pc).settles → Free s token :=
    fun h => hi.settles hx (hphase ▸ h)
  cases r with
  | latest =>
    simp only [afterRead]
    split
    · rename_i t
      obtain ⟨hg, _, hrec, _⟩ := hturn rfl
      exact hi.moves_afterLatest hx hg hrec
    · exact hi.moves_put hx (fits_plain rfl rfl rfl rfl trivial)
  | check turn after =>
    obtain ⟨hcheck, hpc, hun⟩ := hread
    have ho : a.phase.owns = some turn.token := by
      rw [hphase]
      rfl
    simp only [afterRead]
    split
    · exact hi.moves_settleOwnTurn hx ho
    · rename_i hf
      refine hi.moves_put hx (fits_owned rfl ho.symm rfl rfl ?_)
      exact ⟨isFinishedTurn_true hpc hr hf, hun⟩
    · rename_i hf
      refine hi.moves_put hx (fits_owned rfl ho.symm rfl rfl ?_)
      exact isFinishedTurn_false hi.sound hcheck hpc hr hf
  | settle settler t after =>
    obtain ⟨hcheck, hpc⟩ := hread
    have hkeep : ∀ token ∈ t.owner.token :: settler.tokens, token ∈ a.phase.settles := by
      rw [hphase]
      exact fun _ h => h
    simp only [afterRead]
    split
    · cases settler with
      | acquisition => exact hi.moves_drop hx
      | background turn =>
        refine hi.moves_put hx (fits_settling rfl rfl (fun token h => ?_) rfl ⟨trivial, trivial⟩)
        exact hkeep token (List.mem_cons_of_mem _ h)
    · rename_i hf
      refine hi.moves_put hx (fits_settling rfl rfl hkeep rfl ?_)
      exact isFinishedTurn_true hpc hr hf
    · rename_i hf
      refine hi.moves_put hx (fits_settling rfl rfl hkeep rfl ?_)
      exact isFinishedTurn_false hi.sound hcheck hpc hr hf
  | own turn =>
    simp only [afterRead]
    split
    · rename_i t
      split
      · rename_i ht
        obtain ⟨hg, _, _, _⟩ := hturn rfl
        have hfree : Free s turn.token := hsettles List.mem_cons_self
        refine hi.moves_settle hx rfl hg fun token h => ?_
        rcases List.mem_cons.mp h with rfl | h
        · exact ht.1 ▸ hfree
        · rw [List.mem_singleton.mp h]
          exact hfree
      · exact hi.moves_settled_drop hx _
    · exact hi.moves_settled_drop hx _
  | candidate turn rest =>
    have hread : Older s.directory turn slot rest := hread
    have hlt : slot < s.directory.granted.length := hread.slot.trans hread.granted
    simp only [afterRead]
    split
    · rename_i t
      obtain ⟨hg, hslot, _, hheld⟩ := hturn rfl
      subst hslot
      split
      · exact hi.moves_collectNext hx rfl hread.granted hread.rest
      · split
        · exact hi.moves_put hx (fits_plain rfl rfl rfl rfl hread)
        · rename_i hh
          refine hi.moves_put hx (fits_plain rfl rfl rfl rfl ⟨hread, .inr (.inr ?_)⟩)
          refine not_present_of_not_held hi.sound hg hlt ?_
          rw [← hheld]
          exact Bool.eq_false_iff.mpr hh
    · exact hi.moves_collectNext hx rfl hread.granted hread.rest
  | next turn c rest =>
    obtain ⟨holder, hremovable⟩ := hread
    simp only [afterRead]
    split
    · split
      · exact hi.moves_put hx (fits_plain rfl rfl rfl rfl ⟨holder, hremovable⟩)
      · exact hi.moves_collectNext hx rfl holder.granted holder.rest
    · exact hi.moves_collectNext hx rfl holder.granted holder.rest

lemma LockInv.moves_readTurn (hi : LockInv s) (hx : s.acquisitions x = some a) {r : Reading} {slot : ℕ}
    {pc pc' : ReadPc} (hphase : a.phase = .reading r slot pc)
    (hr : s.directory.readTurn slot pc = .inl pc') : Moves s x (s.put x a (.reading r slot pc')) := by
  have hgood := hi.good hx
  rw [hphase] at hgood
  obtain ⟨hseen, hread⟩ := hgood
  refine hi.moves_put hx ⟨rfl, ?_, ?_, ?_, readTurn_seen hi.sound hseen hr, ?_⟩
  · intro token h
    rw [hphase]
    exact .inl (by cases r <;> exact h)
  · intro token h
    rw [hphase]
    exact .inl (by cases r <;> exact h)
  · intro o h
    rcases readTurn_reads hr h with h | ⟨e, he, rfl⟩
    · exact hi.reads hx (by rw [hphase]; exact h)
    · exact hi.recorded he
  · cases r with
    | check turn after => exact ⟨hread.1, readTurn_check hi.sound hread.1 hread.2.1 hr, hread.2.2⟩
    | settle settler t after => exact ⟨hread.1, readTurn_check hi.sound hread.1 hread.2 hr⟩
    | _ => exact hread

lemma markHeld_grant {D : TurnDirectory} {slot token : ℕ} (hD : D.Sound) (h : D.Fresh slot token) :
    (D.markTurn slot token .held).grant slot = some token := by
  have hmay : D.MayMark slot token .held := h
  rcases h with hg | ⟨hn, e, he, ht⟩
  · exact (hD.markTurn_grows hmay).grant hg
  · obtain ⟨e', he', hm⟩ := markTurn_marked slot token .held he
    exact (hD.markTurn hmay).held he' hm

lemma held_of_markTurn {D : TurnDirectory} {turn : Turn} (hD : D.Sound)
    (hf : D.Fresh turn.slot turn.token) (hu : D.Untaken turn.token) :
    turn.slot = D.granted.length ∧ (D.markTurn turn.slot turn.token .held).Held turn := by
  obtain ⟨hn, e, he, ht⟩ := hf.resolve_left (hu.1 _)
  have hnot : (turn.token, Marker.held) ∉ e.markers := hu.2 _ _ _ he
  refine ⟨hn, markHeld_grant hD hf, ?_, ?_⟩
  · simp [markTurn, he, hnot, addMarker, ht, ← hn]
  · rw [Bool.eq_false_iff]
    intro hm
    obtain ⟨e', he', hm⟩ := hasMarker_iff.mp hm
    obtain ⟨e₀, he₀, _, hmarks⟩ := markTurn_turns he'
    rcases hmarks _ hm with hm | ⟨_, hm⟩
    · exact hu.2 _ _ _ he₀ hm
    · cases hm

lemma known_after_publish {D : TurnDirectory} {slot : ℕ} {o : Owner} (hD : (D.publish slot o).Sound) :
    (D.publish slot o).Fresh slot o.token ∨ (D.publish slot o).Gone slot :=
  hD.known publish_turns_self

lemma publish_untaken {D : TurnDirectory} {slot : ℕ} {o : Owner} (h : D.Unpublished o.token) :
    (D.publish slot o).Untaken o.token := by
  refine ⟨h.1.1, fun n e kind he hm => ?_⟩
  by_cases hn : n = slot
  · subst hn
    rw [publish_turns_self] at he
    cases he
    cases hm
  · rw [publish_turns_of_ne hn] at he
    exact h.1.2 n e kind he hm

lemma LockInv.moves_publish (hi : LockInv s) (hx : s.acquisitions x = some a) {latest : TurnState}
    (hphase : a.phase = .publishing latest token) (hfree : s.directory.turns (latest.slot + 1) = none) :
    Moves s x ({ s with
      directory := s.directory.publish (latest.slot + 1)
        ⟨a.process, token, some latest.owner.token⟩ }.put x a
          (.reading (.check ⟨latest.slot + 1, token⟩ latest.owner.token) latest.slot .owner)) := by
  have hgood := hi.good hx
  rw [hphase] at hgood
  obtain ⟨hg, hheld, hdone, hun⟩ := hgood
  have hgrant := hg.held hheld
  have hover := (hg.done hdone).2 hgrant
  have heffect : s.directory.Effect a.process (some token)
      (s.directory.publish (latest.slot + 1) ⟨a.process, token, some latest.owner.token⟩) :=
    .published (o := ⟨a.process, token, some latest.owner.token⟩) rfl hfree hun ⟨_, rfl, hgrant, hover⟩
  have hgrows := heffect.grows hi.sound
  refine hi.moves hx heffect ?_ rfl rfl (le_refl _) (fun _ _ ht => .inl ht) (.inl rfl) fun b hb => ?_
  · rintro t ht
    rw [hphase]
    exact .inr ht
  · cases hb
    refine fits_owned rfl (by rw [hphase]; rfl) rfl rfl ⟨trivial, ⟨rfl, ?_, ?_, ?_⟩, trivial, ?_⟩
    · exact hgrows.grant hgrant
    · exact hgrows.passed hover
    · exact known_after_publish (heffect.sound hi.sound)
    · exact publish_untaken (o := ⟨a.process, token, some latest.owner.token⟩) hun

lemma LockInv.moves_fileOp (hi : LockInv s) (hx : s.acquisitions x = some a)
    (h : fileOp s x a a.phase = some s') : Moves s x s' := by
  have hgood := hi.good hx
  cases hphase : a.phase with
  | creating token =>
    rw [hphase] at h hgood
    cases h
    refine hi.moves hx (.created hgood) ?_ rfl rfl (le_refl _) (fun _ _ ht => .inl ht) (.inl rfl)
      fun b hb => ?_
    · intro t ht
      rw [hphase]
      exact .inr ht
    · cases hb
      exact fits_plain rfl rfl rfl rfl trivial
  | reading r slot pc =>
    rw [hphase] at h
    cases h
    split
    · rename_i hr
      exact hi.moves_readTurn hx hphase hr
    · rename_i hr
      exact hi.moves_afterRead hx hphase hr
  | publishing latest token =>
    rw [hphase] at h
    simp only [fileOp, Option.some.injEq] at h
    subst h
    split
    · exact hi.moves_put hx (fits_plain rfl rfl rfl rfl trivial)
    · rename_i hfree
      exact hi.moves_publish hx hphase (by simpa using hfree)
  | granting turn =>
    rw [hphase] at h hgood
    obtain ⟨hf, hu⟩ := hgood
    obtain ⟨hn, hheld⟩ := held_of_markTurn hi.sound hf hu
    have hmay : s.directory.MayMark turn.slot turn.token .held := hf
    simp only [fileOp, Option.some.injEq] at h
    subst h
    split
    · refine hi.moves hx (.marked hmay) ?_ rfl rfl (le_refl _) (fun _ _ ht => .inl ht)
        (.inr ⟨turn, rfl, hn.ge, hheld.1⟩) fun b hb => ?_
      · intro t ht
        rw [hphase]
        exact .inr ht
      · cases hb
        exact fits_owned rfl (by rw [hphase]; rfl) rfl rfl hheld
    · rename_i hnone
      obtain ⟨_, e, he, _⟩ := hf.resolve_left (hu.1 _)
      rw [he] at hnone
      exact (hnone rfl).elim
  | voiding turn =>
    rw [hphase] at h hgood
    cases h
    have hmay : s.directory.MayMark turn.slot turn.token .done := hgood
    refine hi.moves hx (.marked hmay) ?_ rfl rfl (le_refl _) (fun _ _ ht => .inl ht)
      (.inl rfl) fun b hb => ?_
    · intro t ht
      rw [hphase]
      exact .inr ht
    · cases hb
      exact fits_plain rfl rfl rfl rfl trivial
  | releasing turn =>
    rw [hphase] at h hgood
    cases h
    have hmay : s.directory.MayMark turn.slot turn.token .done := hgood
    refine hi.moves hx (.marked hmay) ?_ rfl rfl (le_refl _) (fun _ _ ht => .inl ht)
      (.inl rfl) fun b hb => ?_
    · intro t ht
      rw [hphase]
      exact .inr ht
    · cases hb
      exact fits_plain rfl rfl rfl rfl (Nat.lt_of_lt_of_le hgood (hi.sound.markTurn_grows hmay).length)
  | settlingHeld settler t =>
    rw [hphase] at h hgood
    cases h
    have hmay : s.directory.MayMark t.slot t.owner.token .held := hgood
    refine hi.moves hx (.marked hmay) ?_ rfl rfl (le_refl _) (fun _ _ ht => .inl ht)
      (.inl rfl) fun b hb => ?_
    · rintro token ht
      rw [hphase, ← Option.some.inj ht]
      exact .inl List.mem_cons_self
    · cases hb
      refine fits_settling rfl rfl (fun token ht => ?_) rfl (grant_lt (markHeld_grant hi.sound hgood))
      rw [hphase]
      exact ht
  | settlingDone settler t =>
    rw [hphase] at h hgood
    have hmay : s.directory.MayMark t.slot t.owner.token .done := hgood
    have htouch : ∀ token, some t.owner.token = some token →
        token ∈ a.phase.settles ∨ a.phase.owns = some token := by
      intro token ht
      rw [hphase, ← Option.some.inj ht]
      exact .inl List.mem_cons_self
    simp only [fileOp, Option.some.injEq] at h
    subst h
    cases settler with
    | acquisition =>
      refine hi.moves hx (.marked hmay) htouch rfl rfl (le_refl _)
        (fun _ _ ht => .inl (mem_settled ht)) (.inl rfl) fun b hb => ?_
      cases hb
      exact fits_plain rfl rfl rfl rfl trivial
    | background turn =>
      exact hi.moves hx (.marked hmay) htouch rfl rfl (le_refl _)
        (fun _ _ ht => .inl (mem_settled ht)) (.inl rfl) fun b hb => by cases hb
  | checkingOlder turn slot rest =>
    rw [hphase] at h hgood
    have hgood : Older s.directory turn slot rest := hgood
    simp only [fileOp, Option.some.injEq] at h
    subst h
    split
    · exact hi.moves_collectNext hx rfl hgood.granted hgood.rest
    · rename_i hno
      refine hi.moves_put hx (fits_plain rfl rfl rfl rfl ⟨trivial, hgood, ?_⟩)
      by_cases h0 : slot = 0
      · exact .inl h0
      · refine .inr (.inl ?_)
        rintro ⟨e, he, _⟩
        exact hno ⟨Nat.pos_of_ne_zero h0, by rw [he]; rfl⟩
  | removing turn slot rest =>
    rw [hphase] at h hgood
    cases h
    obtain ⟨holder, hremovable⟩ := hgood
    have hlt : slot + 1 < s.directory.granted.length :=
      Nat.lt_of_le_of_lt holder.slot holder.granted
    have heffect : s.directory.Effect a.process none (s.directory.remove slot) := .removed hlt hremovable
    cases rest with
    | nil =>
      exact hi.moves hx heffect (fun _ ht => by cases ht) rfl rfl (le_refl _) (fun _ _ ht => .inl ht)
        (.inl rfl) fun b hb => by cases hb
    | cons n rest =>
      refine hi.moves hx heffect (fun _ ht => by cases ht) rfl rfl (le_refl _) (fun _ _ ht => .inl ht)
        (.inl rfl) fun b hb => ?_
      cases hb
      refine fits_plain rfl rfl rfl rfl ⟨trivial, holder.granted, holder.rest n List.mem_cons_self, ?_⟩
      exact fun m hm => holder.rest m (List.mem_cons_of_mem _ hm)
  | _ =>
    rw [hphase] at h
    cases h

lemma LockInv.moves_failOp (hi : LockInv s) (hx : s.acquisitions x = some a)
    (h : failOp s x a a.phase = some s') : Moves s x s' := by
  have hgood := hi.good hx
  cases hphase : a.phase with
  | granting turn | voiding turn | releasing turn =>
    rw [hphase] at h
    cases h
    exact hi.moves_settleOwnTurn hx (by rw [hphase]; rfl)
  | settlingHeld settler t | settlingDone settler t =>
    rw [hphase] at h
    cases settler with
    | acquisition =>
      cases h
      exact hi.moves_drop hx
    | background turn =>
      cases h
      refine hi.moves_put hx (fits_settling rfl rfl (fun token ht => ?_) rfl ⟨trivial, trivial⟩)
      rw [hphase]
      exact List.mem_cons_of_mem _ ht
  | removing turn slot rest =>
    rw [hphase] at h hgood
    cases h
    exact hi.moves_collectNext hx rfl hgood.1.granted hgood.1.rest
  | holding turn =>
    rw [hphase] at h
    cases h
  | reading r slot pc =>
    rw [hphase] at h
    cases r with
    | check turn after =>
      cases h
      exact hi.moves_settleOwnTurn hx (by rw [hphase]; rfl)
    | own turn =>
      cases h
      refine hi.moves_put hx (fits_settling rfl rfl (fun token ht => ?_) rfl ⟨trivial, trivial⟩)
      rw [hphase]
      exact ht
    | settle settler t after =>
      cases settler with
      | acquisition =>
        cases h
        exact hi.moves_drop hx
      | background turn =>
        cases h
        refine hi.moves_put hx (fits_settling rfl rfl (fun token ht => ?_) rfl ⟨trivial, trivial⟩)
        rw [hphase]
        exact List.mem_cons_of_mem _ ht
    | _ =>
      cases h
      exact hi.moves_drop hx
  | _ =>
    rw [hphase] at h
    cases h
    exact hi.moves_drop hx

lemma LockInv.moves_list (hi : LockInv s) (hx : s.acquisitions x = some a) {listing : Option (List ℕ)}
    (h : turnStep s (.list x listing) = some s') : Moves s x s' := by
  simp only [turnStep, hx, Option.ite_none_right_eq_some] at h
  obtain ⟨_, h⟩ := h
  cases listing with
  | none =>
    simp only [Option.ite_none_left_eq_some, Option.some.injEq] at h
    obtain ⟨_, rfl⟩ := h
    refine hi.moves hx .unchanged (fun _ ht => by cases ht) rfl rfl (Nat.le_succ _)
      (fun _ _ ht => .inl ht) (.inl rfl) fun b hb => ?_
    cases hb
    refine ⟨rfl, ?_, (fun _ h => (List.not_mem_nil h).elim), (fun _ h => by cases h),
      hi.unpublished _ (le_refl _)⟩
    intro token ht
    cases ht
    exact .inr ⟨rfl, Nat.lt_succ_self _⟩
  | some slots =>
    simp only [Option.ite_none_right_eq_some, Option.some.injEq] at h
    obtain ⟨_, rfl⟩ := h
    split
    · exact hi.moves_put hx (fits_plain rfl rfl rfl rfl trivial)
    · exact hi.moves_put hx (fits_plain rfl rfl rfl rfl ⟨trivial, trivial⟩)

lemma LockInv.moves_judge (hi : LockInv s) (hx : s.acquisitions x = some a) {dead : Bool}
    (h : turnStep s (.judge x dead) = some s') : Moves s x s' := by
  simp only [turnStep, hx] at h
  split at h
  · rename_i t hphase
    have hgood : t.Good s.directory := by
      have := hi.good hx
      rwa [hphase] at this
    split at h
    · simp only [Option.ite_none_left_eq_some, Option.some.injEq] at h
      obtain ⟨hdead, rfl⟩ := h
      have hrec := hi.reads hx (o := t.owner) (by rw [hphase]; rfl)
      refine hi.moves_settle hx rfl hgood fun token ht => ?_
      rw [List.mem_singleton.mp ht]
      refine ⟨hrec.1, fun y b hb ho => hdead ?_⟩
      rw [← hrec.2 y b hb ho]
      exact hi.alive hb
    · cases h
      exact hi.moves_put hx (fits_plain rfl rfl rfl rfl trivial)
  · cases h

lemma moves_start {process : ℕ} (hx : s.acquisitions x = none)
    (hp : s.alive process = true) : Moves s x (s.put x ⟨process, none, .looking⟩ .looking) := by
  have hself : ∀ {b}, (s.put x ⟨process, none, .looking⟩ .looking).acquisitions x = some b →
      b = ⟨process, none, .looking⟩ := by
    intro b hb
    simp only [TurnLock.put, Function.update_self, Option.some.injEq] at hb
    exact hb.symm
  refine ⟨⟨process, none, .unchanged, fun _ ht => by cases ht⟩, ?_, rfl, le_refl _, ?_, ?_,
    fun _ _ ht => .inl ht, ?_, ?_, ?_, .inl rfl⟩
  · exact fun y hy => Function.update_of_ne hy _ _
  · intro b hb
    rw [hself hb]
    refine ⟨hp, fun a ha => ?_⟩
    rw [hx] at ha
    cases ha
  · intro b token hb ho
    rw [hself hb] at ho
    cases ho
  · intro b hb token ht
    rw [hself hb] at ht
    cases ht
  · intro b hb o ho
    rw [hself hb] at ho
    cases ho
  · intro b hb
    rw [hself hb]
    trivial

lemma LockInv.die (hi : LockInv s) (process : ℕ) : LockInv { s with
    alive := Function.update s.alive process false
    acquisitions := fun x => (s.acquisitions x).filter (·.process != process) } := by
  have hold : ∀ {y b}, (s.acquisitions y).filter (·.process != process) = some b →
      s.acquisitions y = some b ∧ b.process ≠ process := by
    intro y b hb
    obtain ⟨hb, hp⟩ := Option.filter_eq_some_iff.mp hb
    exact ⟨hb, by simpa using hp⟩
  have hfree : ∀ {token}, Free s token → Free { s with
      alive := Function.update s.alive process false
      acquisitions := fun x => (s.acquisitions x).filter (·.process != process) } token :=
    fun h => ⟨h.1, fun y b hb => h.2 y b (hold hb).1⟩
  have hrecorded : ∀ {o}, Recorded s o → Recorded { s with
      alive := Function.update s.alive process false
      acquisitions := fun x => (s.acquisitions x).filter (·.process != process) } o :=
    fun h => ⟨h.1, fun y b hb => h.2 y b (hold hb).1⟩
  refine ⟨hi.sound, hi.unpublished, fun he => hrecorded (hi.recorded he), ?_, ?_, ?_,
    fun ht => hfree (hi.relinquished ht), ?_, ?_, ?_, hi.returned, hi.increasing⟩
  · exact fun hb => hi.owns_lt (hold hb).1
  · exact fun hne hb hc => hi.owns_ne hne (hold hb).1 (hold hc).1
  · intro y b hb
    obtain ⟨hb, hp⟩ := hold hb
    exact (Function.update_of_ne hp _ _).trans (hi.alive hb)
  · exact fun hb ht => hfree (hi.settles (hold hb).1 ht)
  · exact fun hb ho => hrecorded (hi.reads (hold hb).1 ho)
  · exact fun hb => hi.good (hold hb).1

/-- The acquisition that acts. -/
def TurnAction.actor : TurnAction → Option ℕ
  | .start x _ | .list x _ | .judge x _ | .op x | .release x | .listOlder x _ | .fail x | .quit x => some x
  | .die _ => none

lemma LockInv.moves_release (hi : LockInv s) (hx : s.acquisitions x = some a)
    (h : turnStep s (.release x) = some s') : Moves s x s' := by
  simp only [turnStep, hx, Option.bind_some] at h
  split at h
  · rename_i turn hphase
    cases h
    have hheld : s.directory.Held turn := by
      have := hi.good hx
      rwa [hphase] at this
    refine hi.moves_put hx (fits_owned rfl ?_ rfl rfl (grant_lt hheld.1))
    rw [hphase]
    rfl
  · cases h

lemma LockInv.moves_listOlder (hi : LockInv s) (hx : s.acquisitions x = some a) {slots : List ℕ}
    (h : turnStep s (.listOlder x slots) = some s') : Moves s x s' := by
  simp only [turnStep, hx, Option.bind_some] at h
  split at h
  · rename_i turn hphase
    cases h
    have hlt : turn.slot < s.directory.granted.length := by
      have := hi.good hx
      rwa [hphase] at this
    refine hi.moves_collectNext hx rfl hlt fun n hn => ?_
    rw [List.mem_mergeSort] at hn
    simpa using (List.mem_filter.mp hn).2
  · cases h

lemma LockInv.moves_of_step (hi : LockInv s) {act : TurnAction} (h : turnStep s act = some s')
    (hact : ∀ process, act ≠ .die process) : ∃ x, act.actor = some x ∧ Moves s x s' := by
  cases act with
  | start x process =>
    simp only [turnStep, Option.ite_none_right_eq_some, Bool.and_eq_true, Option.isNone_iff_eq_none,
      Option.some.injEq] at h
    obtain ⟨⟨hx, hp⟩, rfl⟩ := h
    exact ⟨x, rfl, moves_start hx hp⟩
  | list x listing =>
    cases hx : s.acquisitions x with
    | none => simp [turnStep, hx] at h
    | some a => exact ⟨x, rfl, hi.moves_list hx h⟩
  | judge x dead =>
    cases hx : s.acquisitions x with
    | none => simp [turnStep, hx] at h
    | some a => exact ⟨x, rfl, hi.moves_judge hx h⟩
  | op x =>
    obtain ⟨a, hx, h⟩ := Option.bind_eq_some_iff.mp h
    exact ⟨x, rfl, hi.moves_fileOp hx h⟩
  | release x =>
    obtain ⟨a, hx, _⟩ := Option.bind_eq_some_iff.mp h
    exact ⟨x, rfl, hi.moves_release hx h⟩
  | listOlder x slots =>
    obtain ⟨a, hx, _⟩ := Option.bind_eq_some_iff.mp h
    exact ⟨x, rfl, hi.moves_listOlder hx h⟩
  | fail x =>
    obtain ⟨a, hx, h⟩ := Option.bind_eq_some_iff.mp h
    exact ⟨x, rfl, hi.moves_failOp hx h⟩
  | quit x =>
    obtain ⟨a, hx, h⟩ := Option.bind_eq_some_iff.mp h
    split at h
    · cases h
      exact ⟨x, rfl, hi.moves_drop hx⟩
    · cases h
      exact ⟨x, rfl, hi.moves_drop hx⟩
    · cases h
  | die process => exact (hact process rfl).elim

lemma LockInv.of_step (hi : LockInv s) {act : TurnAction} (h : turnStep s act = some s') :
    LockInv s' := by
  by_cases hdie : ∃ process, act = .die process
  · obtain ⟨process, rfl⟩ := hdie
    cases h
    exact hi.die process
  · obtain ⟨x, _, hm⟩ := hi.moves_of_step h fun process he => hdie ⟨process, he⟩
    exact hi.of_moves hm

lemma unpublished_empty (token : ℕ) : emptyDirectory.Unpublished token := by
  refine ⟨⟨fun n => ?_, fun n e kind he => ?_⟩, fun n e he => ?_⟩
  · simp [grant, emptyDirectory]
  · cases he
  · cases he

lemma lockInv_of_reachable (h : turnMachine.Reachable s) : LockInv s := by
  refine Machine.Reachable.invariant (I := LockInv) h ?_ fun _ _ _ hi hs => hi.of_step hs
  rintro s rfl
  refine ⟨sound_empty, fun token _ => unpublished_empty token, ?_, ?_, ?_, ?_, ?_, ?_, ?_, ?_, ?_, ?_⟩
  · intro n e he
    cases he
  · intro x a token ha
    cases ha
  · intro x y a b token _ ha
    cases ha
  · intro x a ha
    cases ha
  · intro p token ht
    cases ht
  · intro x a token ha
    cases ha
  · intro x a o ha
    cases ha
  · intro x a ha
    cases ha
  · intro turn ht
    cases ht
  · exact List.Pairwise.nil

lemma mem_granted {D : TurnDirectory} (hD : D.Sound) {n token : ℕ} :
    (n, token) ∈ D.granted ↔ D.grant n = some token := by
  have hfst : ∀ {i : ℕ} {p : ℕ × ℕ}, D.granted[i]? = some p → p.1 = i := by
    intro i p hp
    have hmap : (D.granted.map Prod.fst)[i]? = some p.1 := by
      rw [List.getElem?_map, hp]
      rfl
    rw [hD.numbered] at hmap
    obtain ⟨_, hi⟩ := List.getElem?_eq_some_iff.mp hmap
    rw [List.getElem_range] at hi
    exact hi.symm
  constructor
  · intro h
    obtain ⟨i, hi⟩ := List.getElem?_of_mem h
    obtain rfl : n = i := hfst hi
    rw [grant, hi]
    rfl
  · intro h
    obtain ⟨p, hp, rfl⟩ := Option.map_eq_some_iff.mp h
    have hn := hfst hp
    obtain ⟨m, t⟩ := p
    obtain rfl : m = n := hn
    exact List.mem_of_getElem? hp

lemma LockInv.holding_unique (hi : LockInv s) {b : Acquisition} {turn turn' : Turn}
    (ha : s.acquisitions x = some a) (hb : s.acquisitions y = some b)
    (hpa : a.phase = .holding turn) (hpb : b.phase = .holding turn') : x = y := by
  by_contra hne
  have hga := hi.good ha
  have hgb := hi.good hb
  rw [hpa] at hga
  rw [hpb] at hgb
  obtain ⟨hg, hlast, _⟩ := hga
  obtain ⟨hg', hlast', _⟩ := hgb
  have hslot : turn.slot = turn'.slot := by omega
  rw [hslot, hg', Option.some.injEq] at hg
  have ho : a.phase.owns = some turn.token := by
    rw [hpa]
    rfl
  refine hi.owns_ne hne ha hb ho ?_
  rw [hpb, ← hg]
  rfl

/-- At most one live acquisition holds a turn, a number is granted to one token, the
numbers returned increase, and the highest granted turn is still there. -/
structure TurnLockSafe (s : TurnLock) : Prop where
  exclusive : ∀ x y a b turn turn', s.acquisitions x = some a → s.acquisitions y = some b →
    a.phase = .holding turn → b.phase = .holding turn' → x = y
  holder_alive : ∀ x a, s.acquisitions x = some a → s.alive a.process = true
  granted_once : ∀ n token token', (n, token) ∈ s.directory.granted →
    (n, token') ∈ s.directory.granted → token = token'
  returned_granted : ∀ turn ∈ s.returned, (turn.slot, turn.token) ∈ s.directory.granted
  increasing : (s.returned.map Turn.slot).Pairwise (· < ·)
  latest_kept : ∀ n token, (n, token) ∈ s.directory.granted →
    (∀ m token', (m, token') ∈ s.directory.granted → m ≤ n) →
    ∃ e, s.directory.turns n = some e ∧ e.owner.token = token

theorem turn_lock_safe (s : TurnLock) (h : turnMachine.Reachable s) : TurnLockSafe s := by
  have hi := lockInv_of_reachable h
  refine ⟨?_, fun x a ha => hi.alive ha, ?_, ?_, hi.increasing, ?_⟩
  · exact fun x y a b turn turn' ha hb hpa hpb => hi.holding_unique ha hb hpa hpb
  · intro n token token' ht ht'
    rw [mem_granted hi.sound] at ht ht'
    exact Option.some.inj (ht.symm.trans ht')
  · exact fun turn ht => (mem_granted hi.sound).mpr (hi.returned turn ht)
  · intro n token ht hmax
    have hg := (mem_granted hi.sound).mp ht
    have hlt := grant_lt hg
    have hlast : n + 1 = s.directory.granted.length := by
      have hlt' : s.directory.granted.length - 1 < s.directory.granted.length := by omega
      obtain ⟨token', ht'⟩ := grant_of_lt hlt'
      have := hmax _ token' ((mem_granted hi.sound).mpr ht')
      omega
    obtain ⟨e, he, hge⟩ := hi.sound.latest hlast
    refine ⟨e, he, ?_⟩
    rw [hg, Option.some.injEq] at hge
    exact hge.symm

-- From a listing that ends with finished turn `slot` to the next turn, held.
def takeActions (x slot : ℕ) : List TurnAction :=
  .list x (some [slot]) :: List.replicate 8 (.op x)

-- One process takes turn 1 and dies in it; another settles it and takes turn 2.
def turnSample : List TurnAction :=
  [TurnAction.start 0 7, .list 0 none, .op 0] ++ takeActions 0 0 ++
    [TurnAction.start 1 8, .list 1 (some [0, 1]), .op 1, .op 1, .op 1, .judge 1 false, .die 7,
      .list 1 (some [0, 1]), .op 1, .op 1, .op 1, .judge 1 true, .op 1] ++ takeActions 1 1

theorem turn_lock_safe_sample : ∃ s, turnMachine.Reachable s ∧ s.returned = [⟨1, 1⟩, ⟨2, 2⟩] ∧
    TurnLockSafe s := by
  have hrun : (turnMachine.run initLock turnSample).map TurnLock.returned =
      some [⟨1, 1⟩, ⟨2, 2⟩] := by
    decide
  obtain ⟨s, hs, hret⟩ := Option.map_eq_some_iff.mp hrun
  have hreach : turnMachine.Reachable s := .of_run (.start rfl) hs
  exact ⟨s, hreach, hret, turn_lock_safe s hreach⟩

end TinyCloud.Profile
