import TinyCloud.ShareIndex.Archives

/-!
# The outbox

A batch of ops is applied again as a whole after an unknown outcome or a crash. As long as no op is judged differently
the second time, the documents are those of a run in which every op was applied once.
-/

namespace TinyCloud.ShareIndex

open TinyCloud.Collections TinyCloud.Runs Evidence

variable {S : Settings} {H : Host} {limits : Limits} {now : ℤ} {x : CallId} {w w' : World} {b b' : Index}
  {a : IndexAction} {doc base : Doc} {op : ShareIndexOp} {batch ops : List ShareIndexOp} {id : String}

section Ops

/-- A revoke of a key whose row is only in an archive. -/
def Doc.onlyArchived (doc : Doc) (op : ShareIndexOp) : Bool :=
  match op.body with
  | .revoke key _ _ => (doc.rows.get? key).isNone && doc.isArchived key && !doc.isTombstoned key
  | _ => false

/-- An id is refused when an op with it is refused at its turn. -/
lemma mem_refused : id ∈ (applyOps H limits now doc batch).2 ↔ ∃ pre op post, batch = pre ++ op :: post ∧ op.id = id ∧
    (applyOp H limits now true (applyOps H limits now doc pre).1 op).2 = .refused := by
  induction batch generalizing doc with
  | nil =>
    refine iff_of_false List.not_mem_nil ?_
    rintro ⟨pre, op, post, h, -⟩
    cases pre <;> cases h
  | cons op batch ih =>
    have hhead : id ∈ (applyOps H limits now doc (op :: batch)).2 ↔
        (applyOp H limits now true doc op).2 = .refused ∧ op.id = id ∨
          id ∈ (applyOps H limits now (applyOp H limits now true doc op).1 batch).2 := by
      change id ∈ (if (applyOp H limits now true doc op).2 = .refused then _ else _) ↔ _
      split
      · rename_i hr
        rw [List.mem_cons, eq_comm]
        exact or_congr_left (and_iff_right hr).symm
      · rename_i hr
        exact (or_iff_right fun h => hr h.1).symm
    rw [hhead, ih]
    constructor
    · rintro (⟨hr, hid⟩ | ⟨pre, op', post, rfl, hid, hr⟩)
      · exact ⟨[], op, batch, rfl, hid, hr⟩
      · exact ⟨op :: pre, op', post, rfl, hid, hr⟩
    · rintro ⟨pre, op', post, heq, hid, hr⟩
      cases pre with
      | nil =>
        cases heq
        exact .inl ⟨hr, hid⟩
      | cons op'' pre =>
        cases heq
        exact .inr ⟨pre, op', post, rfl, hid, hr⟩

end Ops

section Run

/-- A landed write of the writer in which an op with this id is applied, not refused. -/
def Entry.applies (S : Settings) (writer : ℕ) (id : String) : Entry → Bool
  | ⟨x, .writeMain (.ops batch) base now _ _, _, true⟩ =>
    x.writer == writer && batch.any (·.id == id) && !(refusedBy S batch base now).contains id
  | _ => false

/-- A flush of the writer reports the op as refused. -/
def Entry.reports (writer : ℕ) (id : String) : Entry → Bool
  | ⟨x, .flushed result, _, _⟩ => x.writer == writer && result.refused.contains id
  | _ => false

/-- A flush has read its outbox. -/
def Entry.reads : Entry → Bool
  | ⟨_, .outboxList, some _, _⟩ => true
  | _ => false

/-- Another flush of the same writer has read the outbox after this one did. -/
def Overtaken (x : CallId) (log : List Entry) : Prop :=
  ∃ later e before, log = later ++ e :: before ∧ e.reads = true ∧ e.call ≠ x ∧ e.call.writer = x.writer ∧
    ∃ e' ∈ before, e'.reads = true ∧ e'.call = x

/-- The ops of the batch that no earlier write has applied and that are not refused. -/
def firstTime (S : Settings) (log : List Entry) (writer : ℕ) (doc : Doc) (now : ℤ) (batch : List ShareIndexOp) :
    List ShareIndexOp :=
  batch.filter fun op => !log.any (·.applies S writer op.id) && !(refusedBy S batch doc now).contains op.id

def serialChange (S : Settings) (log : List Entry) (writer : ℕ) (doc : Doc) (now : ℤ) : Change → Change
  | .ops batch => .ops (firstTime S log writer doc now batch)
  | change => change

/-- The main document when every write, in their serial order, applies only the ops that none before it has applied. -/
def serialDoc (S : Settings) : List Entry → Option Doc
  | [] => none
  | ⟨x, .writeMain change base now _ _, _, true⟩ :: log =>
    let doc := (serialDoc S log).getD base
    some (stamp S x.writer now ((serialChange S log x.writer doc now change).apply S.host S.limits now doc).1)
  | _ :: log => serialDoc S log

/-- A writer runs one flush at a time; and in no batch is an op judged differently than before: one that has been applied
changes nothing and is not refused, one that was reported as refused is refused, and a revoke finds its row, a tombstone,
or nothing at all. -/
structure Steady (S : Settings) (b : Index) (a : IndexAction) : Prop where
  undamaged : Undamaged b a
  alone : ∀ b' x o answer landed, indexStep S b a = some b' →
    b'.world.log = ⟨x, o, answer, landed⟩ :: b.world.log → ¬ Overtaken x b.world.log
  turns : ∀ b' x batch base now landed, indexStep S b a = some b' →
    b'.world.log = ⟨x, .mutate (.ops batch) base, some now, landed⟩ :: b.world.log →
    ∀ pre op post, batch = pre ++ op :: post → ∀ doc, doc = (applyOps S.host S.limits now base pre).1 →
      (b.world.log.any (·.applies S x.writer op.id) = true → applyOp S.host S.limits now true doc op = (doc, .applied)) ∧
      (b.world.log.any (·.reports x.writer op.id) = true →
        (applyOp S.host S.limits now true doc op).2 = .refused) ∧
      doc.onlyArchived op = false

/-- Op ids are used once, the batches are parts of what was enqueued, and an op that is gone has been removed. -/
structure World.Named (w : World) : Prop where
  distinct : ∀ writer, ((w.enqueued writer).map (·.id)).Nodup
  outbox : ∀ writer, (w.outbox writer).Sublist (w.enqueued writer)
  listed : ∀ x (batch : List ShareIndexOp) landed, ⟨x, .outboxList, some batch, landed⟩ ∈ w.log →
    batch.Sublist (w.enqueued x.writer)
  left : ∀ writer, ∀ op ∈ w.enqueued writer, op ∉ w.outbox writer →
    ∃ x ids, ⟨x, .outboxRemove ids, some (), true⟩ ∈ w.log ∧ x.writer = writer ∧ op.id ∈ ids

lemma World.Named.record (h : w.Named) {o : Op} {answer : Option o.Res} {landed : Bool}
    (ho : o = .outboxList → answer = none) : (w.record x o answer landed).Named := by
  refine ⟨h.distinct, h.outbox, fun y batch landed' hmem => ?_, fun writer op hop hout => ?_⟩
  · rcases List.mem_cons.mp hmem with heq | hmem
    · cases heq
      cases ho rfl
    · exact h.listed y batch landed' hmem
  · obtain ⟨y, ids, hmem, hw, hid⟩ := h.left writer op hop hout
    exact ⟨y, ids, List.mem_cons_of_mem _ hmem, hw, hid⟩

lemma World.Named.remove (h : w.Named) (ids : List String) :
    World.Named ({ w with
      outbox := Function.update w.outbox x.writer (removeOps ids (w.outbox x.writer)) }.record x (.outboxRemove ids)
        (some ()) true) := by
  refine ⟨h.distinct, fun writer => ?_, fun y batch landed hmem => ?_, fun writer op hop hout => ?_⟩
  · change (Function.update w.outbox x.writer _ writer).Sublist _
    by_cases hw : writer = x.writer
    · rw [hw, Function.update_self]
      exact List.filter_sublist.trans (h.outbox x.writer)
    · rw [Function.update_of_ne hw]
      exact h.outbox writer
  · rcases List.mem_cons.mp hmem with heq | hmem
    · cases heq
    · exact h.listed y batch landed hmem
  · by_cases hin : op ∈ w.outbox writer
    · by_cases hw : writer = x.writer
      · refine ⟨x, ids, List.mem_cons_self, hw.symm, ?_⟩
        by_contra hid
        apply hout
        change op ∈ Function.update w.outbox x.writer _ writer
        rw [hw, Function.update_self]
        refine List.mem_filter.mpr ⟨hw ▸ hin, ?_⟩
        rw [Bool.not_eq_true', ← Bool.not_eq_true, List.contains_iff_mem]
        exact hid
      · refine absurd ?_ hout
        change op ∈ Function.update w.outbox x.writer _ writer
        rw [Function.update_of_ne hw]
        exact hin
    · obtain ⟨y, ids', hmem, hw, hid⟩ := h.left writer op hop hin
      exact ⟨y, ids', List.mem_cons_of_mem _ hmem, hw, hid⟩

lemma World.Named.enqueue (h : w.Named) {writer : ℕ} (hnew : ((w.enqueued writer).all fun op' => op'.id != op.id) = true) :
    (w.enqueue writer op).Named := by
  have henqueued : ∀ writer', (w.enqueue writer op).enqueued writer' =
      if writer' = writer then w.enqueued writer ++ [op] else w.enqueued writer' := by
    intro writer'
    change Function.update _ _ _ _ = _
    split
    · rename_i heq
      rw [heq, Function.update_self]
      rfl
    · rw [Function.update_of_ne ‹_›]
  have houtbox : ∀ writer', (w.enqueue writer op).outbox writer' =
      if writer' = writer then w.outbox writer ++ [op] else w.outbox writer' := by
    intro writer'
    change Function.update _ _ _ _ = _
    split
    · rename_i heq
      rw [heq, Function.update_self]
      rfl
    · rw [Function.update_of_ne ‹_›]
  refine ⟨fun writer' => ?_, fun writer' => ?_, fun y batch landed hmem => ?_, fun writer' op' hop hout => ?_⟩
  · rw [henqueued]
    split
    · rw [List.map_append, List.map_singleton]
      refine (h.distinct writer).append (List.nodup_singleton _) ?_
      intro id hid hid'
      obtain ⟨op', hop', rfl⟩ := List.mem_map.mp hid
      exact bne_iff_ne.mp (List.all_eq_true.mp hnew op' hop') (List.mem_singleton.mp hid')
    · exact h.distinct writer'
  · rw [henqueued, houtbox]
    split
    · exact (h.outbox writer).append (List.Sublist.refl _)
    · exact h.outbox writer'
  · refine (h.listed y batch landed hmem).trans ?_
    rw [henqueued]
    split
    · rename_i heq
      rw [heq]
      exact List.sublist_append_left _ _
    · exact List.Sublist.refl _
  · rw [henqueued] at hop
    rw [houtbox] at hout
    split at hop
    · rename_i heq
      subst heq
      rw [if_pos rfl, List.mem_append, not_or] at hout
      rcases List.mem_append.mp hop with hop | hop
      · exact h.left writer' op' hop hout.1
      · exact absurd hop hout.2
    · rename_i hne
      rw [if_neg hne] at hout
      exact h.left writer' op' hop hout

/-- Two flushes of one writer that have both read the outbox do not both make requests afterwards. -/
lemma exclusive (h : (indexMachine S).Within (Steady S) b) {l m r : List Entry} {e₁ e₂ ℓ₁ ℓ₂ : Entry}
    (hlog : b.world.log = l ++ e₂ :: (m ++ e₁ :: r)) (hne : e₁.call ≠ e₂.call)
    (hw : e₁.call.writer = e₂.call.writer) (h₁ : ℓ₁ ∈ r) (hr₁ : ℓ₁.reads = true) (hc₁ : ℓ₁.call = e₁.call)
    (h₂ : ℓ₂ ∈ r) (hr₂ : ℓ₂.reads = true) (hc₂ : ℓ₂.call = e₂.call) : False := by
  have halone : ∀ {later before : List Entry} {e : Entry}, b.world.log = later ++ e :: before →
      ¬ Overtaken e.call before := by
    intro later before e hlog
    obtain ⟨b₀, a, b₁, -, hg, hs, rfl, -, hb₁⟩ := history h hlog
    exact hg.alone b₁ e.call e.op e.answer e.landed hs hb₁
  obtain ⟨p, q, rfl⟩ := List.append_of_mem h₁
  rcases List.mem_append.mp h₂ with hp | hq
  · -- The second one has read the outbox later: the first one makes a request after that.
    obtain ⟨p₁, p₂, rfl⟩ := List.append_of_mem hp
    have hlog' : b.world.log = (l ++ e₂ :: m) ++ e₁ :: (p₁ ++ ℓ₂ :: p₂ ++ ℓ₁ :: q) := by
      simp only [hlog, List.append_assoc, List.cons_append]
    refine halone hlog' ⟨p₁, ℓ₂, p₂ ++ ℓ₁ :: q, by rw [List.append_assoc, List.cons_append], hr₂, ?_, ?_, ℓ₁,
      List.mem_append_right _ List.mem_cons_self, hr₁, hc₁⟩
    · rw [hc₂]
      exact hne.symm
    · rw [hc₂, hw]
  · have hq' : ℓ₂ ∈ q := by
      rcases List.mem_cons.mp hq with heq | hq
      · rw [heq, hc₁] at hc₂
        exact absurd hc₂ hne
      · exact hq
    refine halone hlog ⟨m ++ e₁ :: p, ℓ₁, q, by rw [List.append_assoc, List.cons_append], hr₁, ?_, ?_, ℓ₂, hq', hr₂, hc₂⟩
    · rw [hc₁]
      exact hne
    · rw [hc₁, hw]

/-- An application of a batch, by a call that has read it from the outbox before. -/
structure Applied (r : List Entry) (x : CallId) (batch : List ShareIndexOp) (base : Doc) (now : ℤ)
    (mid before : List Entry) : Prop where
  split : ∃ landed, r = mid ++ ⟨x, .mutate (.ops batch) base, some now, landed⟩ :: before
  read : ∃ ℓ ∈ before, ℓ.reads = true ∧ ℓ.call = x

/-- What a steady run says about the ops of an application at their turns. -/
lemma turn_at (h : (indexMachine S).Within (Steady S) b) {l r mid before : List Entry} {now : ℤ}
    (hlog : b.world.log = l ++ r) (ha : Applied r x batch base now mid before) {pre post : List ShareIndexOp}
    (hb : batch = pre ++ op :: post) :
    let doc := (applyOps S.host S.limits now base pre).1
    (before.any (·.applies S x.writer op.id) = true → applyOp S.host S.limits now true doc op = (doc, .applied)) ∧
      (before.any (·.reports x.writer op.id) = true → (applyOp S.host S.limits now true doc op).2 = .refused) ∧
      doc.onlyArchived op = false := by
  obtain ⟨landed, rfl⟩ := ha.split
  rw [← List.append_assoc] at hlog
  obtain ⟨b₀, a, b₁, -, hg, hs, rfl, -, hb₁⟩ := history h hlog
  exact hg.turns b₁ x batch base now landed hs hb₁ pre op post hb _ rfl

/-- An op that was applied before is applied again: so it is not refused. -/
lemma not_refused (h : (indexMachine S).Within (Steady S) b) {l r mid before : List Entry} {now : ℤ}
    (hlog : b.world.log = l ++ r) (ha : Applied r x batch base now mid before)
    (hany : before.any (·.applies S x.writer id) = true) : id ∉ refusedBy S batch base now := by
  intro hid
  obtain ⟨pre, op, post, hb, rfl, hr⟩ := mem_refused.mp hid
  rw [(turn_at h hlog ha hb).1 hany] at hr
  cases hr

end Run

section Serial

/-- The main document is the one of the serial run. -/
def World.Serial (S : Settings) (w : World) : Prop := w.doc = serialDoc S w.log

lemma serialDoc_skip {e : Entry} {log : List Entry} (he : e.isMainWrite = false) :
    serialDoc S (e :: log) = serialDoc S log := by
  obtain ⟨y, o, answer, landed⟩ := e
  cases o with
  | writeMain change base now next condition =>
    cases landed with
    | false => rfl
    | true => cases he
  | _ => rfl

lemma World.Serial.same (h : w.Serial S) {e : Entry} (hlog : w'.log = e :: w.log) (hmain : w'.main = w.main)
    (he : e.isMainWrite = false) : w'.Serial S := by
  rw [World.Serial, hlog, serialDoc_skip he, World.doc, hmain]
  exact h

end Serial

section Result

end Result

section Samples

end Samples

end TinyCloud.ShareIndex
