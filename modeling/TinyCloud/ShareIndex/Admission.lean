import TinyCloud.ShareIndex.Stored

/-!
# The document under all writers

Every document that a writer stores is consistent, whatever the races, and an agent row enters only over rows of a
lower rank.
-/

namespace TinyCloud.ShareIndex

open TinyCloud.Collections TinyCloud.Runs Evidence

variable {S : Settings} {b : Index} {w w' : World} {doc base : Doc}

/-- Web clients enqueue web rows. -/
def OwnerUpserts (_ : Index) : IndexAction → Prop
  | .enqueue _ op => op.body.Sourced
  | _ => True

structure World.Sourced (w : World) : Prop where
  outbox : ∀ writer, ∀ op ∈ w.outbox writer, op.body.Sourced
  batches : ∀ x (batch : List ShareIndexOp) landed, ⟨x, .outboxList, some batch, landed⟩ ∈ w.log → ∀ op ∈ batch, op.body.Sourced

lemma World.Sourced.record (h : w.Sourced) {x : CallId} {o : Op} {answer : Option o.Res} {landed : Bool}
    (ho : o = .outboxList → answer = none) : (w.record x o answer landed).Sourced := by
  refine ⟨h.outbox, fun y batch landed' hmem => ?_⟩
  rcases List.mem_cons.mp hmem with heq | hmem
  · cases heq
    cases ho rfl
  · exact h.batches y batch landed' hmem

lemma World.Sourced.putOutbox (h : w.Sourced) (writer : ℕ) {ops : List ShareIndexOp}
    (ho : ∀ op ∈ ops, op.body.Sourced) : World.Sourced { w with outbox := Function.update w.outbox writer ops } := by
  refine ⟨fun writer' op hop => ?_, h.batches⟩
  dsimp only at hop
  by_cases hw : writer' = writer
  · subst hw
    rw [Function.update_self] at hop
    exact ho op hop
  · rw [Function.update_of_ne hw] at hop
    exact h.outbox writer' op hop

lemma sourced_keeps : Keeps S OwnerUpserts World.Sourced where
  empty := by
    refine ⟨?_, ?_⟩
    · rintro writer op ⟨⟩
    · rintro x batch landed ⟨⟩
  request b a b' x o answer _ hb _ _ _ ha := by
    have happens := ha.happens
    revert happens
    generalize b'.world = w'
    intro happens
    cases happens with
    | outboxList =>
      refine ⟨hb.outbox, fun y batch landed hmem => ?_⟩
      rcases List.mem_cons.mp hmem with heq | hmem
      · cases heq
        exact hb.outbox x.writer
      · exact hb.batches y batch landed hmem
    | @wroteMain change base now next condition result h =>
      have hput : World.Sourced (b.world.putMain next) := ⟨hb.outbox, hb.batches⟩
      exact hput.record nofun
    | @wroteArchive group next condition result h =>
      have hput : World.Sourced (b.world.putArchive group.name next) := ⟨hb.outbox, hb.batches⟩
      exact hput.record nofun
    | outboxRemove ids =>
      have hput := hb.putOutbox x.writer (fun op (hop : op ∈ removeOps ids (b.world.outbox x.writer)) =>
        hb.outbox _ op (List.mem_of_mem_filter hop))
      exact hput.record nofun
    | plain o answer h =>
      refine hb.record ?_
      rintro rfl
      exact h.resolve_left nofun
    | _ => exact hb.record nofun
  enqueue b writer op _ hb hg _ := by
    have hput := hb.putOutbox writer (fun op' (hop : op' ∈ putOp (b.world.outbox writer) op) => by
      rcases List.mem_append.mp hop with hop | hop
      · exact hb.outbox _ op' hop
      · rw [List.mem_singleton.mp hop]
        exact hg)
    exact ⟨hput.outbox, hput.batches⟩
  damageMain _ _ _ hb _ _ := ⟨hb.outbox, hb.batches⟩
  damageArchive _ _ _ _ _ _ hb _ _ := ⟨hb.outbox, hb.batches⟩

section Consistent

lemma empty_consistent (archives : List Archive) (t : ℤ) (writer : ℕ) :
    Doc.Consistent { S.emptyDoc writer t with archives := archives } where
  rivals k k' row row' h := by cases h
  counted agentId := rfl
  retired k row h := by cases h

lemma Replaces.consistent {x : CallId} (h : Replaces S x w base) (hdoc : ∀ doc, w.doc = some doc → doc.Consistent) :
    base.Consistent := by
  cases h with
  | nothing t h hb =>
    rw [hb]
    exact empty_consistent [] t x.writer
  | document h => exact hdoc base h
  | damaged found stored h hd hf hb =>
    obtain ⟨t, ht⟩ := hb.empty
    rw [ht]
    exact empty_consistent base.archives t x.writer

/-- Every stored document is consistent. -/
lemma consistent_keeps : Keeps S OwnerUpserts fun w => ∀ doc, w.doc = some doc → doc.Consistent where
  empty := by rintro doc ⟨⟩
  request b a b' x o answer hw hb _ _ hfit ha := by
    have happens := ha.happens
    revert happens
    generalize b'.world = w'
    intro happens
    cases happens with
    | @wroteMain change base now next condition result hcond =>
      intro doc hdoc
      obtain rfl : next = doc := Option.some.inj ((World.doc_of_main rfl).symm.trans hdoc)
      obtain ⟨hm, rfl⟩ := hfit
      obtain ⟨hbase, hchange⟩ := hm.fit
      have hsourced : change.Sourced := by
        refine hchange.sourced fun batch hbatch => ?_
        subst hbatch
        obtain ⟨landed, hmem⟩ := Evidence.mem_first hchange
        exact (sourced_keeps.holds hw).batches x batch landed hmem
      have hreplaced := ((sound_keeps.holds hw).replaces hbase hcond).consistent hb
      have happlied : (change.apply S.host S.limits now base).1.Consistent := hreplaced.apply change hsourced
      exact ⟨happlied.rivals, happlied.counted, happlied.retired⟩
    | _ => exact hb
  enqueue _ _ _ _ hb _ _ := hb
  damageMain b value _ _ _ hd := by
    intro doc hdoc
    rw [isDamaged_doc hd rfl] at hdoc
    cases hdoc
  damageArchive _ _ _ _ _ _ hb _ _ := hb

end Consistent

section Admission

/-- The write `e` has landed, and its pass admits the agent row of `key` into the document of `pass`. -/
structure Entry.Admits (S : Settings) (e : Entry) (pass : Pass) (key : String) (row : Row) : Prop where
  lands : e.landed = true
  turn : ∃ found earlier agentId did later cursor base now next condition grow,
    e.op = .writeMain (.findings found cursor) base now next condition ∧
      found = earlier ++ .agent key agentId did row :: later ∧
      pass = earlier.foldl (applyFinding S.host S.limits now grow) ⟨base, agentRowBytes S.host base.rows, 0⟩ ∧
      (applyFinding S.host S.limits now grow pass (.agent key agentId did row)).admitted = pass.admitted + 1

lemma applyFinding_agent_admitted {H : Host} {limits : Limits} {now : ℤ} {grow : Bool} {pass : Pass}
    {key agentId did : String} {row : Row}
    (h : (applyFinding H limits now grow pass (.agent key agentId did row)).admitted = pass.admitted + 1) :
    ∃ displaced, decideClaim pass.doc.rows key row = .admit_ displaced := by
  have hne : pass.admitted ≠ pass.admitted + 1 := (Nat.succ_ne_self _).symm
  simp only [applyFinding] at h
  split at h
  · exact absurd h hne
  simp only [applyAgentFinding] at h
  have hrows : (ensureAgent H now grow pass.doc agentId).rows = pass.doc.rows :=
    (ensureAgent_neutral (H := H) pass.doc agentId).rows
  split at h
  · exact absurd h hne
  split at h
  · exact absurd h hne
  split at h
  · exact absurd h hne
  split at h
  · exact absurd h hne
  split at h
  · exact absurd h hne
  · rename_i displaced hd
    rw [hrows] at hd
    exact ⟨displaced, hd⟩

/-- An admitted agent row outranks every live row that claims one of its CIDs. -/
lemma admitted_outranks {H : Host} {limits : Limits} {now : ℤ} {grow : Bool} {pass : Pass} {key agentId did : String}
    {row : Row} (hagent : agentOf row = some agentId)
    (h : (applyFinding H limits now grow pass (.agent key agentId did row)).admitted = pass.admitted + 1) :
    ∀ k other, pass.doc.rows.get? k = some other → ∀ cid ∈ row.claims, cid ∈ other.claims →
      claimRank other < claimRank row := by
  intro k other hk cid hcid hcid'
  have hnew : k ≠ key := by
    rintro rfl
    simp only [applyFinding, hk, Option.isSome_some, Bool.true_or, if_true] at h
    exact absurd h (Nat.succ_ne_self _).symm
  obtain ⟨displaced, hd⟩ := applyFinding_agent_admitted h
  have hrival : Rivals row other := by
    refine ⟨⟨cid, hcid, hcid'⟩, fun hweb => ?_⟩
    have hsrc := ((Bool.and_eq_true _ _).mp hweb.1).1
    simp only [agentOf, beq_iff_eq.mp hsrc] at hagent
    cases hagent
  exact ((decideClaim_admitted hd).2 k other hk hnew hrival).1

/-- In every reachable state the document is consistent. An agent row that a landed write admits outranks the live
rows on its CIDs, and, unless it is proven, also the rows of the archives that its pass has read. -/
theorem document_invariant (h : (indexMachine S).Within OwnerUpserts b) :
    (∀ doc, b.world.doc = some doc → doc.Consistent) ∧
      ∀ later e before, b.world.log = later ++ e :: before → ∀ pass key row, e.Admits S pass key row →
        (∀ k other, pass.doc.rows.get? k = some other → ∀ cid ∈ row.claims, cid ∈ other.claims →
          claimRank other < claimRank row) ∧
        (row.ps ≠ some .proven → ∃ found, (first e.call .readMain found).holds before ∧
          ∀ doc, documentOf found = some doc → Unclaimed e.call doc row before) := by
  refine ⟨consistent_keeps.holds h, fun later e before hlog pass key row hadm => ?_⟩
  have hfit := fit_of_reachable h.reachable later e before hlog
  obtain ⟨-, found, earlier, agentId, did, rest, cursor, base, now, next, condition, grow, hop, hfound, -, hadm⟩ := hadm
  rw [hop] at hfit
  have hchange : ChangeFit e.call before (.findings found cursor) := hfit.1.fit.2
  have hfinding := hchange (.agent key agentId did row) (by rw [hfound]; simp)
  exact ⟨admitted_outranks hfinding.1 hadm, hfinding.2⟩

def Doc.newAgentRows (doc doc' : Doc) : List Row :=
  (doc'.rows.entries.filter fun e => (agentOf e.2).isSome && (doc.rows.get? e.1).isNone).map Prod.snd

/-- Between the two states an agent row has entered on a CID that an archived row of the same or a higher rank claims. -/
def trespasses (ps : ProofState) (w w' : World) : Bool :=
  match w.doc, w'.doc with
  | some doc, some doc' => (doc.newAgentRows doc').any fun row => row.ps == some ps &&
      doc.archives.any fun archive => (w.archives.get? archive.name).any fun stored =>
        stored.rows.values.any fun other => collides row other && claimRank row ≤ claimRank other
  | _, _ => false

def IndexAction.isSourced : IndexAction → Bool
  | .enqueue _ ⟨_, .upsert _ row⟩ => agentOf row == none
  | _ => true

lemma IndexAction.isSourced.owner {a : IndexAction} (h : a.isSourced = true) : OwnerUpserts b a := by
  cases a with
  | enqueue writer op =>
    obtain ⟨id, body⟩ := op
    cases body with
    | upsert key row => exact beq_iff_eq.mp h
    | _ => trivial
  | _ => trivial

def agentRecord : ShareRecord where
  shareId := "s1"
  n := "Untitled share"
  k := "file"
  ak := "bearer"
  al := "Anyone with the link"
  actions := ["tinycloud.kv/get"]
  registeredAt := "2026-01-01T00:00:00.000Z"
  expiresAt := "2027-01-01T00:00:00.000Z"
  revokedAt := none
  revokeKind := .delegation
  enforcementDelegationCid := some "bafyone"
  cids := ["bafyone"]
  migrated := false

/-- A pass that finds an agent's record of the archived row's CID, up to its last two requests. -/
def agentPass (ps : ProofState) : List IndexAction :=
  .start ⟨0, 2⟩ .reconcile :: answers ⟨0, 2⟩ [calm,
    { calm with list := .ok ["agents/abcdefghijklmnopqrstuv/s1"] none },
    { calm with agentRead := .checked "did:key:agent" (.verified agentRecord ["bafyone"] ps) }]

lemma within_of_run {as : List IndexAction} {t : Index}
    (h : (indexMachine S).runIf (fun _ a => a.isSourced) startIndex as = some t) :
    (indexMachine S).Within OwnerUpserts t :=
  Machine.Within.of_runIf (P := fun _ => True) (.start start_initial) trivial
    (fun _ _ _ ha => IndexAction.isSourced.owner ha) (fun _ _ _ _ _ _ => trivial) h

theorem document_invariant_sample :
    ∃ b, (indexMachine sampleSettings).Within OwnerUpserts b ∧
      ∃ doc, b.world.doc = some doc ∧ doc.rows.keys = ["mid", "new"] ∧ doc.archives = [⟨"archive-2025", ["old"]⟩] ∧
        doc.Consistent := by
  have hrun : (((indexMachine sampleSettings).runIf (fun _ a => a.isSourced) startIndex
      (threeRows ++ archiveOldest)).any fun b => b.world.doc.any fun doc =>
        doc.rows.keys = ["mid", "new"] ∧ doc.archives = [⟨"archive-2025", ["old"]⟩]) = true := by
    decide +kernel
  obtain ⟨b, hb, hany⟩ := (Option.any_eq_true _ _).mp hrun
  obtain ⟨doc, hdoc, hd⟩ := (Option.any_eq_true _ _).mp hany
  obtain ⟨hrows, harchives⟩ := of_decide_eq_true hd
  exact ⟨b, within_of_run hb, doc, hdoc, hrows, harchives, (document_invariant (within_of_run hb)).1 doc hdoc⟩

lemma trespass_of_run {ps : ProofState} (as : List IndexAction)
    (hrun : (((indexMachine S).runIf (fun _ a => a.isSourced) startIndex as).any fun b =>
      (indexStep S b (.answer ⟨0, 2⟩ calm)).any fun b' => trespasses ps b.world b'.world) = true) :
    ∃ b b' a, (indexMachine S).Within OwnerUpserts b ∧ indexStep S b a = some b' ∧
      trespasses ps b.world b'.world = true := by
  obtain ⟨b, hb, hany⟩ := (Option.any_eq_true _ _).mp hrun
  obtain ⟨b', hb', ht⟩ := (Option.any_eq_true _ _).mp hany
  exact ⟨b, b', _, within_of_run hb, hb', ht⟩

/-- A proven claim is not compared with the archives, and a chained one not with a row that is archived during its pass. -/
theorem archived_claim_taken :
    (∃ b b' a, (indexMachine sampleSettings).Within OwnerUpserts b ∧ indexStep sampleSettings b a = some b' ∧
      trespasses .proven b.world b'.world = true) ∧
    ∃ b b' a, (indexMachine sampleSettings).Within OwnerUpserts b ∧ indexStep sampleSettings b a = some b' ∧
      trespasses .chained b.world b'.world = true := by
  constructor
  · apply trespass_of_run (threeRows ++ archiveOldest ++ agentPass .proven ++ answers ⟨0, 2⟩ [calm, calm])
    decide +kernel
  · apply trespass_of_run (threeRows ++ agentPass .chained ++ archiveOldest ++ answers ⟨0, 2⟩ [calm, calm])
    decide +kernel

end Admission

end TinyCloud.ShareIndex
