import TinyCloud.ShareIndex.Calls

/-!
# The stored documents

What a request does to the main document and to the archives, the invariants of a run, and the compare-and-swap:
a write that lands has been computed from the document that it replaces.
-/

namespace TinyCloud.ShareIndex

open TinyCloud.Collections TinyCloud.Runs Evidence

variable {S : Settings} {x : CallId} {w w' : World} {b b' : Index} {g : Index → IndexAction → Prop}

section Requests

/-- Requests that change nothing but the log. -/
def Op.isPlain : Op → Bool
  | .mutate _ _ | .readRecord _ | .readAgentRecord _ _ _ | .recordGone _ | .status _ _ | .now | .flushed _ => true
  | _ => false

inductive Happens (w : World) (x : CallId) : (o : Op) → Option o.Res → World → Prop
  | readMain (c : Choice) : Happens w x .readMain (some (w.readMain c)) (w.record x .readMain (some (w.readMain c)) false)
  | wroteMain {change base now next condition} (result : WriteResult)
      (h : condition.holds (w.main.map StoredMain.etag) = true) :
      Happens w x (.writeMain change base now next condition) (some result)
        ((w.putMain next).record x (.writeMain change base now next condition) (some result) true)
  | missedMain {change base now next condition} (result : WriteResult) (h : result ≠ .ok) :
      Happens w x (.writeMain change base now next condition) (some result)
        (w.record x (.writeMain change base now next condition) (some result) false)
  | readArchive (c : Choice) (name : String) (use : ArchiveUse) :
      Happens w x (.readArchive name use) (some (w.readArchive c name))
        (w.record x (.readArchive name use) (some (w.readArchive c name)) false)
  | wroteArchive {group next condition} (result : WriteResult)
      (h : condition.holds ((w.archives.get? group.name).map StoredArchive.etag) = true) :
      Happens w x (.writeArchive group next condition) (some result)
        ((w.putArchive group.name next).record x (.writeArchive group next condition) (some result) true)
  | missedArchive {group next condition} (result : WriteResult) (h : result ≠ .ok) :
      Happens w x (.writeArchive group next condition) (some result)
        (w.record x (.writeArchive group next condition) (some result) false)
  | listKeys (under : String) (cursor : Option String) (list : ListResult) (h : w.lists under list = true) :
      Happens w x (.listKeys under cursor) (some list) (w.record x (.listKeys under cursor) (some list) false)
  | outboxList : Happens w x .outboxList (some (w.outbox x.writer))
      (w.record x .outboxList (some (w.outbox x.writer)) false)
  | outboxRemove (ids : List String) : Happens w x (.outboxRemove ids) (some ())
      ({ w with outbox := Function.update w.outbox x.writer (removeOps ids (w.outbox x.writer)) }.record x
        (.outboxRemove ids) (some ()) true)
  | plain (o : Op) (answer : Option o.Res) (h : o.isPlain = true ∨ answer = none) :
      Happens w x o answer (w.record x o answer false)

lemma landing_cases {c : Choice} {met landed : Bool} (h : landing c met = some landed) :
    landed = true ∧ met = true ∨ landed = false ∧ c.write ≠ .ok := by
  unfold landing at h
  split at h
  · split at h
    · cases h
      exact .inl ⟨rfl, ‹_›⟩
    · cases h
  · rename_i hw
    obtain rfl := Option.some.inj h
    cases hl : c.lands && met with
    | true => exact .inl ⟨rfl, ((Bool.and_eq_true _ _).mp hl).2⟩
    | false => exact .inr ⟨rfl, by rw [hw]; nofun⟩
  · rename_i hok hunknown
    cases h
    exact .inr ⟨rfl, hok⟩

lemma runOp_happens {c : Choice} {o : Op} {answer : Option o.Res} (h : runOp c x w o = some (answer, w')) :
    Happens w x o answer w' := by
  cases o with
  | readMain =>
    cases h
    exact .readMain c
  | writeMain change base now next condition =>
    obtain ⟨landed, hl, heq⟩ := Option.map_eq_some_iff.mp h
    cases heq
    rcases landing_cases hl with ⟨rfl, hm⟩ | ⟨rfl, hm⟩
    · exact .wroteMain _ hm
    · exact .missedMain _ hm
  | readArchive name use =>
    cases h
    exact .readArchive c name use
  | writeArchive group next condition =>
    obtain ⟨landed, hl, heq⟩ := Option.map_eq_some_iff.mp h
    cases heq
    rcases landing_cases hl with ⟨rfl, hm⟩ | ⟨rfl, hm⟩
    · exact .wroteArchive _ hm
    · exact .missedArchive _ hm
  | listKeys under cursor =>
    simp only [runOp] at h
    split at h
    · cases h
      exact .listKeys under cursor _ ‹_›
    · cases h
  | outboxList =>
    cases h
    cases c.fails with
    | false => exact .outboxList
    | true => exact .plain _ _ (.inr rfl)
  | outboxRemove ids =>
    cases h
    cases c.fails with
    | false => exact .outboxRemove ids
    | true => exact .plain _ _ (.inr rfl)
  | status key row =>
    cases h
    exact .plain _ _ (.inl rfl)
  | _ =>
    cases h
    exact .plain _ _ (.inl rfl)

end Requests

section Runs

/-- The request that a step of the machine answers. -/
structure Answers (b : Index) (a : IndexAction) (x : CallId) (o : Op) (answer : Option o.Res) (w : World) : Prop where
  asked : ∃ next, b.calls x = some (.op o next)
  action : ∃ c, a = .answer x c
  happens : Happens b.world x o answer w

lemma fit_of_answers (h : (indexMachine S).Reachable b) {a : IndexAction} (hs : indexStep S b a = some b') {o : Op}
    {answer : Option o.Res} (ha : Answers b a x o answer b'.world) : Fit S x b.world.log o := by
  have hfit := fit_of_reachable (h.next hs)
  obtain ⟨⟨next, hx⟩, ⟨c, rfl⟩, -⟩ := ha
  rcases indexStep_log hs with hlog | ⟨x', o', answer', landed, next', c', hc, hx', -, -, hlog⟩
  · simp only [indexStep, hx] at hs
    obtain ⟨⟨answer, world⟩, hr, heq⟩ := Option.map_eq_some_iff.mp hs
    cases heq
    obtain ⟨landed, hlog'⟩ := runOp_log hr
    exact absurd (hlog'.symm.trans hlog) (List.cons_ne_self _ _)
  · cases hc
    rw [hx] at hx'
    cases hx'
    exact hfit [] _ _ hlog

lemma world_step {a : IndexAction} (hs : indexStep S b a = some b') :
    b'.world = b.world ∨
    (∃ x o answer, Answers b a x o answer b'.world) ∨
    (∃ writer op, a = .enqueue writer op ∧ ((b.world.enqueued writer).all fun op' => op'.id != op.id) = true ∧
      b'.world = b.world.enqueue writer op) ∨
    (∃ value, a = .damageMain value ∧ isDamaged value = true ∧ b'.world = b.world.damageMain value) ∨
    ∃ name readable v stored, a = .damageArchive name readable v ∧ b.world.archives.get? name = some stored ∧
      b'.world = b.world.damageArchive name stored readable v := by
  cases a with
  | start x method =>
    simp only [indexStep, Option.ite_none_right_eq_some, Option.some.injEq] at hs
    obtain ⟨-, rfl⟩ := hs
    exact .inl rfl
  | answer x c =>
    rcases indexStep_log hs with hlog | ⟨x', o, answer, landed, next, c', hc, hx, hr, -, -⟩
    · simp only [indexStep] at hs
      split at hs
      · obtain ⟨⟨answer, world⟩, hr, heq⟩ := Option.map_eq_some_iff.mp hs
        cases heq
        obtain ⟨landed, hlog'⟩ := runOp_log hr
        exact absurd (hlog'.symm.trans hlog) (List.cons_ne_self _ _)
      · cases hs
    · cases hc
      exact .inr (.inl ⟨x, o, answer, ⟨next, hx⟩, ⟨c, rfl⟩, runOp_happens hr⟩)
  | crash x =>
    cases hs
    exact .inl rfl
  | enqueue writer op =>
    simp only [indexStep, Option.ite_none_right_eq_some, Option.some.injEq] at hs
    obtain ⟨hnew, rfl⟩ := hs
    exact .inr (.inr (.inl ⟨writer, op, rfl, hnew, rfl⟩))
  | damageMain value =>
    simp only [indexStep, Option.ite_none_right_eq_some, Option.some.injEq] at hs
    obtain ⟨hd, rfl⟩ := hs
    exact .inr (.inr (.inr (.inl ⟨value, rfl, hd, rfl⟩)))
  | damageArchive name readable v =>
    obtain ⟨stored, hst, rfl⟩ := Option.map_eq_some_iff.mp hs
    exact .inr (.inr (.inr (.inr ⟨name, readable, v, stored, rfl, hst, rfl⟩)))

/-- An invariant of the world is kept by every fit request, by every arrival in an outbox, and by damage. -/
structure Keeps (S : Settings) (g : Index → IndexAction → Prop) (I : World → Prop) : Prop where
  empty : I emptyWorld
  request : ∀ b a b' x o answer, (indexMachine S).Within g b → I b.world → g b a → indexStep S b a = some b' →
    Fit S x b.world.log o → Answers b a x o answer b'.world → I b'.world
  enqueue : ∀ b writer op, (indexMachine S).Within g b → I b.world → g b (.enqueue writer op) →
    ((b.world.enqueued writer).all fun op' => op'.id != op.id) = true → I (b.world.enqueue writer op)
  damageMain : ∀ b value, (indexMachine S).Within g b → I b.world → g b (.damageMain value) → isDamaged value = true →
    I (b.world.damageMain value)
  damageArchive : ∀ b name readable v stored, (indexMachine S).Within g b → I b.world →
    g b (.damageArchive name readable v) → b.world.archives.get? name = some stored →
    I (b.world.damageArchive name stored readable v)

lemma Keeps.holds {I : World → Prop} (hI : Keeps S g I) (h : (indexMachine S).Within g b) : I b.world := by
  refine h.invariant (I := fun b => I b.world) ?_ fun b a b' hw hb hg hs => ?_
  · rintro b ⟨hb, -⟩
    rw [hb]
    exact hI.empty
  rcases world_step hs with heq | ⟨x, o, answer, ha⟩ | ⟨writer, op, rfl, hnew, heq⟩ | ⟨value, rfl, hd, heq⟩ |
    ⟨name, readable, v, stored, rfl, hst, heq⟩
  · rw [heq]
    exact hb
  · exact hI.request b a b' x o answer hw hb hg hs (fit_of_answers hw.reachable hs ha) ha
  · rw [heq]
    exact hI.enqueue b writer op hw hb hg hnew
  · rw [heq]
    exact hI.damageMain b value hw hb hg hd
  · rw [heq]
    exact hI.damageArchive b name readable v stored hw hb hg hst

/-- Every request of the log was answered in a step of the run. -/
lemma history (h : (indexMachine S).Within g b) {later before : List Entry} {e : Entry}
    (hlog : b.world.log = later ++ e :: before) :
    ∃ b₀ a b₁, (indexMachine S).Within g b₀ ∧ g b₀ a ∧ indexStep S b₀ a = some b₁ ∧ b₀.world.log = before ∧
      Answers b₀ a e.call e.op e.answer b₁.world ∧ b₁.world.log = e :: before := by
  induction h generalizing later with
  | start hi =>
    rw [hi.1] at hlog
    cases later <;> cases hlog
  | @step b₀ a b₁ hw hg hs ih =>
    rcases indexStep_log hs with heq | ⟨x, o, answer, landed, next, c, hc, hx, hr, -, heq⟩
    · exact ih (heq ▸ hlog)
    · cases later with
      | cons e' later =>
        rw [heq] at hlog
        exact ih (List.cons.inj hlog).2
      | nil =>
        rw [heq] at hlog
        obtain ⟨rfl, rfl⟩ := List.cons.inj hlog
        exact ⟨b₀, a, b₁, hw, hg, hs, rfl, ⟨⟨next, hx⟩, ⟨c, hc⟩, runOp_happens hr⟩, heq⟩

end Runs

section Swap

/-- The version that a read shows, with what it shows of it. -/
def DocumentRead.shown {α : Type} : DocumentRead α → Option (ℕ × Option α)
  | .ok value etag => some (etag, some value)
  | .corrupt (some etag) => some (etag, none)
  | _ => none

def StoredArchive.content (stored : StoredArchive) : Option ArchiveValue := if stored.readable then some stored.value else none

/-- Versions are never used twice, so a version that was read and is still there has the same content. -/
structure World.Sound (w : World) : Prop where
  main_fresh : ∀ stored, w.main = some stored → stored.etag < w.writes
  archive_fresh : ∀ name stored, w.archives.get? name = some stored → stored.etag < w.writes
  main_read : ∀ x found landed etag value, ⟨x, .readMain, some found, landed⟩ ∈ w.log → found.shown = some (etag, value) →
    etag < w.writes ∧ ∀ stored, w.main = some stored → stored.etag = etag → stored.value = value
  archive_read : ∀ x name use found landed etag value, ⟨x, .readArchive name use, some found, landed⟩ ∈ w.log →
    found.shown = some (etag, value) →
    etag < w.writes ∧ ∀ stored, w.archives.get? name = some stored → stored.etag = etag → stored.content = value

lemma readMain_shown {c : Choice} {etag : ℕ} {value : Option MainValue} (h : (w.readMain c).shown = some (etag, value)) :
    w.main = some ⟨etag, value⟩ := by
  unfold World.readMain at h
  split at h
  · cases h
  · split at h
    · cases h
    · rename_i etag' hmain
      cases hc : c.hidesEtag with
      | true =>
        rw [hc] at h
        cases h
      | false =>
        rw [hc] at h
        cases h
        exact hmain
    · rename_i hmain
      cases h
      exact hmain

lemma readArchive_shown {c : Choice} {name : String} {etag : ℕ} {value : Option ArchiveValue}
    (h : (w.readArchive c name).shown = some (etag, value)) :
    ∃ stored, w.archives.get? name = some stored ∧ stored.etag = etag ∧ stored.content = value := by
  unfold World.readArchive at h
  split at h
  · cases h
  · split at h
    · cases h
    · rename_i etag' value' hst
      cases hc : c.hidesEtag with
      | true =>
        rw [hc] at h
        cases h
      | false =>
        rw [hc] at h
        cases h
        exact ⟨_, hst, rfl, rfl⟩
    · rename_i hst
      cases h
      exact ⟨_, hst, rfl, rfl⟩

/-- A request that only adds an entry which is no read of a document. -/
lemma World.Sound.record (h : w.Sound) {o : Op} {answer : Option o.Res} {landed : Bool}
    (hm : ∀ found etag value, o = .readMain → HEq answer (some found : Option (DocumentRead MainValue)) →
      found.shown = some (etag, value) → w.main = some ⟨etag, value⟩)
    (ha : ∀ name use found etag value, o = .readArchive name use →
      HEq answer (some found : Option (DocumentRead ArchiveValue)) → found.shown = some (etag, value) →
      ∃ stored, w.archives.get? name = some stored ∧ stored.etag = etag ∧ stored.content = value) :
    (w.record x o answer landed).Sound where
  main_fresh := h.main_fresh
  archive_fresh := h.archive_fresh
  main_read x' found landed' etag value hmem hshown := by
    rcases List.mem_cons.mp hmem with heq | hmem
    · cases heq
      have hmain := hm found etag value rfl HEq.rfl hshown
      refine ⟨h.main_fresh _ hmain, fun stored hst _ => ?_⟩
      cases hmain.symm.trans hst
      rfl
    · exact h.main_read x' found landed' etag value hmem hshown
  archive_read x' name use found landed' etag value hmem hshown := by
    rcases List.mem_cons.mp hmem with heq | hmem
    · cases heq
      obtain ⟨stored, hst, rfl, rfl⟩ := ha name use found etag value rfl HEq.rfl hshown
      refine ⟨h.archive_fresh _ _ hst, fun stored' hst' _ => ?_⟩
      cases hst.symm.trans hst'
      rfl
    · exact h.archive_read x' name use found landed' etag value hmem hshown

lemma World.Sound.setMain (h : w.Sound) (value : Option MainValue) :
    World.Sound { w with
      main := some ⟨w.writes, value⟩
      writes := w.writes + 1 } where
  main_fresh stored hst := by
    cases hst
    exact Nat.lt_succ_self _
  archive_fresh name stored hst := Nat.lt_succ_of_lt (h.archive_fresh name stored hst)
  main_read x found landed etag value' hmem hshown := by
    obtain ⟨hlt, -⟩ := h.main_read x found landed etag value' hmem hshown
    refine ⟨Nat.lt_succ_of_lt hlt, fun stored hst heq => ?_⟩
    cases hst
    exact absurd heq (Nat.ne_of_gt hlt)
  archive_read x name use found landed etag value' hmem hshown := by
    obtain ⟨hlt, hc⟩ := h.archive_read x name use found landed etag value' hmem hshown
    exact ⟨Nat.lt_succ_of_lt hlt, hc⟩

lemma World.Sound.setArchive (h : w.Sound) (name : String) {stored : StoredArchive} (hetag : stored.etag = w.writes) :
    World.Sound { w with
      archives := w.archives.set name stored
      writes := w.writes + 1 } where
  main_fresh stored' hst := Nat.lt_succ_of_lt (h.main_fresh stored' hst)
  archive_fresh name' stored' hst := by
    rw [Dict.get?_set] at hst
    split at hst
    · cases hst
      rw [hetag]
      exact Nat.lt_succ_self _
    · exact Nat.lt_succ_of_lt (h.archive_fresh name' stored' hst)
  main_read x found landed etag value hmem hshown := by
    obtain ⟨hlt, hc⟩ := h.main_read x found landed etag value hmem hshown
    exact ⟨Nat.lt_succ_of_lt hlt, hc⟩
  archive_read x name' use found landed etag value hmem hshown := by
    obtain ⟨hlt, hc⟩ := h.archive_read x name' use found landed etag value hmem hshown
    refine ⟨Nat.lt_succ_of_lt hlt, fun stored' hst heq => ?_⟩
    rw [Dict.get?_set] at hst
    split at hst
    · cases hst
      rw [hetag] at heq
      exact absurd heq (Nat.ne_of_gt hlt)
    · exact hc stored' hst heq

lemma Happens.sound {o : Op} {answer : Option o.Res} (h : Happens w x o answer w') (hw : w.Sound) : w'.Sound := by
  cases h with
  | readMain c =>
    refine hw.record (fun found etag value _ hr hshown => ?_) nofun
    cases eq_of_heq hr
    exact readMain_shown hshown
  | readArchive c name use =>
    refine hw.record nofun fun name' use' found etag value ho hr hshown => ?_
    cases ho
    cases eq_of_heq hr
    exact readArchive_shown hshown
  | wroteMain result h => exact (hw.setMain _).record nofun nofun
  | wroteArchive result h => exact (hw.setArchive _ rfl).record nofun nofun
  | outboxRemove ids =>
    have hw' : World.Sound { w with outbox := Function.update w.outbox x.writer (removeOps ids (w.outbox x.writer)) } :=
      ⟨hw.main_fresh, hw.archive_fresh, hw.main_read, hw.archive_read⟩
    exact hw'.record nofun nofun
  | plain o answer h =>
    refine hw.record ?_ ?_
    · rintro found etag value rfl hr
      rcases h with h | rfl
      · cases h
      · cases eq_of_heq hr
    · rintro name use found etag value rfl hr
      rcases h with h | rfl
      · cases h
      · cases eq_of_heq hr
  | _ => exact hw.record nofun nofun

lemma sound_keeps : Keeps S g World.Sound where
  empty := by
    refine ⟨?_, ?_, ?_, ?_⟩
    · rintro stored ⟨⟩
    · rintro name stored ⟨⟩
    · rintro x found landed etag value ⟨⟩
    · rintro x name use found landed etag value ⟨⟩
  request _ _ _ _ _ _ _ hb _ _ _ ha := ha.happens.sound hb
  enqueue _ _ _ _ hb _ _ := ⟨hb.main_fresh, hb.archive_fresh, hb.main_read, hb.archive_read⟩
  damageMain _ value _ hb _ _ := hb.setMain value
  damageArchive _ name _ _ _ _ hb _ _ := hb.setArchive name rfl

/-- The document that is there; none when nothing is, or what is there is no document. -/
def World.doc (w : World) : Option Doc :=
  match w.main with
  | some ⟨_, some value⟩ => match parseIndexDocument value with
    | .ok doc => some doc
    | _ => none
  | _ => none

lemma World.doc_of_main {etag : ℕ} {doc : Doc}
    (h : w.main = some ⟨etag, some (.object INDEX_SCHEMA_VERSION (some doc))⟩) :
    w.doc = some doc := by
  simp only [World.doc, h, parseIndexDocument, ne_eq, not_true_eq_false, if_false, lt_irrefl]

lemma isDamaged_doc {value : Option MainValue} {etag : ℕ} (hd : isDamaged value = true)
    (h : w.main = some ⟨etag, value⟩) : w.doc = none := by
  cases value with
  | none => simp only [World.doc, h]
  | some value =>
    simp only [isDamaged] at hd
    simp only [World.doc, h]
    cases hp : parseIndexDocument value with
    | ok doc =>
      rw [hp] at hd
      cases hd
    | _ => rfl

/-- What a write that lands was computed from. -/
inductive Replaces (S : Settings) (x : CallId) (w : World) (base : Doc) : Prop
  | nothing (t : ℤ) (h : w.main = none) (hb : base = S.emptyDoc x.writer t)
  | document (h : w.doc = some base)
  | damaged (found : DocumentRead MainValue) (stored : StoredMain) (h : w.main = some stored)
      (hd : isDamaged stored.value = true) (hf : found.shown = some (stored.etag, stored.value))
      (hb : Rebuilt S x found base w.log) (hu : Unreadable found stored.etag)

lemma Unreadable.shown {found : DocumentRead MainValue} {etag : ℕ} (h : Unreadable found etag) :
    ∃ value, found.shown = some (etag, value) ∧ isDamaged value = true := by
  rcases h with rfl | ⟨value, rfl, hp⟩
  · exact ⟨none, rfl, rfl⟩
  · refine ⟨some value, rfl, ?_⟩
    simp only [isDamaged, hp]

lemma wasRead_mem {found : DocumentRead MainValue} {log : List Entry} (h : (wasRead x found).holds log) :
    ∃ landed, ⟨x, .readMain, some found, landed⟩ ∈ log := Evidence.mem h

theorem World.Sound.replaces (hw : w.Sound) {condition : Condition} {base : Doc} (hb : BaseFit S x condition base w.log)
    (hc : condition.holds (w.main.map StoredMain.etag) = true) : Replaces S x w base := by
  have hmatch : ∀ etag, condition = .ifMatch etag → ∃ stored, w.main = some stored ∧ stored.etag = etag := by
    rintro etag rfl
    rw [Condition.holds, beq_iff_eq] at hc
    obtain ⟨stored, hst, heq⟩ := Option.map_eq_some_iff.mp hc
    exact ⟨stored, hst, heq⟩
  cases hb with
  | fresh t h hcond hbase =>
    rw [hcond, Condition.holds, Option.isNone_map, Option.isNone_iff_eq_none] at hc
    exact .nothing t hc hbase
  | read value etag h hcond hbase =>
    obtain ⟨stored, hst, rfl⟩ := hmatch etag hcond
    obtain ⟨landed, hmem⟩ := wasRead_mem h
    have hvalue := (hw.main_read x _ landed _ _ hmem rfl).2 stored hst rfl
    refine .document ?_
    obtain ⟨etag, value'⟩ := stored
    cases hvalue
    simp only [World.doc, hst, hbase]
  | rebuilt found etag h hcond hu hbase =>
    obtain ⟨stored, hst, rfl⟩ := hmatch etag hcond
    obtain ⟨landed, hmem⟩ := wasRead_mem h
    obtain ⟨value, hshown, hd⟩ := hu.shown
    have hvalue := (hw.main_read x _ landed _ _ hmem hshown).2 stored hst rfl
    rw [← hvalue] at hshown hd
    exact .damaged found stored hst hd hshown hbase hu

end Swap

section Archives

def StoredArchive.rows (stored : StoredArchive) : Rows :=
  match stored.value with
  | .object _ (some rows) => rows
  | _ => Dict.empty

/-- The row that an archive document holds under a key. -/
def World.copy (w : World) (name k : String) : Option Row :=
  (w.archives.get? name).bind fun stored => stored.rows.get? k

end Archives

section Samples

def calendar : List (String × ℤ) :=
  [("2025-03-01T00:00:00.000Z", 1740787200000), ("2026-01-01T00:00:00.000Z", 1767225600000),
    ("2026-02-01T00:00:00.000Z", 1769904000000), ("2027-01-01T00:00:00.000Z", 1798761600000)]

/-- The platform on the dates of the calendar, with rows and headers of about their real sizes. -/
def calendarHost : Host where
  dateParse s := calendar.lookup s
  toISOString t := ((calendar.find? fun e => e.2 == t).map Prod.fst).getD ""
  fullYear t := if t < 1767225600000 then "2025" else if t < 1798761600000 then "2026" else "2027"
  bytesOf _ := 200
  headerBytes _ := 300
  rejectedKeyEntry := id

/-- Three rows are more than the main document holds. -/
def sampleSettings : Settings where
  host := calendarHost
  limits := { DEFAULT_SHARE_INDEX_LIMITS with mainRowBytes := 500 }
  maxAttempts := 6
  ownerDid := "did:pkh:eip155:1:0xowner"
  spaceId := "applications"
  label _ := "web"

def webRow (c x : String) (cc : List String) : Row where
  n := "Untitled share"
  k := "file"
  ak := "bearer"
  al := "Anyone with the link"
  a := ["tinycloud.kv/get"]
  c := c
  x := x
  r := none
  rk := .delegation
  cid := cc.head?
  cc := some cc
  src := .web
  ps := none
  migrated := false
  na := false

/-- Every request is answered as it is meant to be, on 2026-02-01. -/
def calm : Choice := ⟨false, false, false, .ok, true, .unavailable, .absent, .skip, false, .unknown, 1769904000000⟩

def answers (x : CallId) (choices : List Choice) : List IndexAction := choices.map (.answer x)

def startIndex : Index := ⟨emptyWorld, fun _ => none⟩

/-- Three rows are stored. -/
def threeRows : List IndexAction :=
  [.enqueue 0 ⟨"1", .upsert "old" (webRow "2025-03-01T00:00:00.000Z" "2027-01-01T00:00:00.000Z" ["bafyone"])⟩,
    .enqueue 0 ⟨"2", .upsert "mid" (webRow "2026-01-01T00:00:00.000Z" "2027-01-01T00:00:00.000Z" ["bafytwo"])⟩,
    .enqueue 0 ⟨"3", .upsert "new" (webRow "2026-02-01T00:00:00.000Z" "2027-01-01T00:00:00.000Z" ["bafythree"])⟩,
    .start ⟨0, 0⟩ .flush] ++ answers ⟨0, 0⟩ (List.replicate 7 calm)

/-- The oldest row goes to the archive. -/
def archiveOldest : List IndexAction := .start ⟨0, 1⟩ .compact :: answers ⟨0, 1⟩ (List.replicate 7 calm)

lemma start_initial : (indexMachine S).initial startIndex := ⟨rfl, fun _ => rfl⟩

end Samples

end TinyCloud.ShareIndex
