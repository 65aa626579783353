import TinyCloud.ShareIndex.Replay

/-!
# Archived rows

What an archive document once held it keeps, and a key that a compaction has moved stays listed in every main
document, as long as no write lands over an archive that could not be read and every rebuild has seen all archives.
-/

namespace TinyCloud.ShareIndex

open TinyCloud.Collections TinyCloud.Runs Evidence

variable {S : Settings} {x : CallId} {w w' : World} {b b' : Index} {base : Doc} {k name : String} {row : Row}

section Entries

/-- The row that a landed write has put under the key of an archive. -/
def Entry.stores (name k : String) : Entry → Option Row
  | ⟨_, .writeArchive group next _, _, true⟩ => if group.name = name then next.get? k else none
  | _ => none

/-- The row that a landed write has copied from the main document to an archive. -/
def Entry.copies (name k : String) : Entry → Option Row
  | ⟨_, .writeArchive group _ _, _, true⟩ => if group.name = name then group.rows.get? k else none
  | _ => none

/-- A landed write that records the key under the name of an archive. -/
def Entry.moves (name k : String) : Entry → Bool
  | ⟨_, .writeMain change _ _ _ _, _, true⟩ => change.moves name k
  | _ => false

def Entry.isMainWrite : Entry → Bool
  | ⟨_, .writeMain _ _ _ _ _, _, true⟩ => true
  | _ => false

lemma moves_isMainWrite {e : Entry} (h : e.moves name k = true) : e.isMainWrite = true := by
  obtain ⟨y, o, answer, landed⟩ := e
  cases o with
  | writeMain change base now next condition => cases landed with
    | true => rfl
    | false => cases h
  | _ => cases h

def StoredArchive.isLegible (stored : StoredArchive) : Bool :=
  stored.readable && (parseArchiveDocument stored.value).isSome

/-- The name under which a rebuild finds the archive document again. -/
def IsListable (name : String) : Prop := classifyRecordKey ("_index/" ++ name) = .index name ∧ name ≠ "main"

/-- The rebuild over the version that a write replaces has seen one whole page of the archives, and has read each. -/
structure Surveyed (x : CallId) (condition : Condition) (log : List Entry) : Prop where
  listed : ∀ found etag list, condition = .ifMatch etag → Unreadable found etag →
    (wasListed x found list).holds log → ∃ keys, list = .ok keys none
  read : ∀ found etag list name read, condition = .ifMatch etag → Unreadable found etag →
    ((wasListed x found list).after x (.readArchive name .rebuild) read).holds log →
      read = .notFound ∨ (archiveRows read).isSome = true

/-- No archive is written over a document that cannot be parsed, and no main document after a partial survey. -/
structure Preserving (S : Settings) (b : Index) (a : IndexAction) : Prop where
  merges : ∀ b' x group next condition answer, indexStep S b a = some b' →
    b'.world.log = ⟨x, .writeArchive group next condition, answer, true⟩ :: b.world.log →
    IsListable group.name ∧ ∀ stored, b.world.archives.get? group.name = some stored → stored.isLegible = true
  rebuilds : ∀ b' x change base now next condition answer, indexStep S b a = some b' →
    b'.world.log = ⟨x, .writeMain change base now next condition, answer, true⟩ :: b.world.log →
    Surveyed x condition b.world.log

end Entries

section Copies

lemma isLegible_rows {stored : StoredArchive} (h : stored.isLegible = true) :
    stored.readable = true ∧ ∃ rows, stored.value = .object INDEX_SCHEMA_VERSION (some rows) := by
  obtain ⟨etag, readable, value⟩ := stored
  obtain ⟨hr, hp⟩ := (Bool.and_eq_true _ _).mp h
  refine ⟨hr, ?_⟩
  cases value with
  | other => cases hp
  | object v rows =>
    simp only [parseArchiveDocument] at hp
    split at hp
    · cases hp
    · rename_i hv
      obtain ⟨rows, rfl⟩ := Option.isSome_iff_exists.mp hp
      exact ⟨rows, by rw [not_not.mp hv]⟩

lemma MergeFit.contains {group : Group} {next : Rows} {condition : Condition} {log : List Entry}
    (h : MergeFit x group next condition log) (hk : group.rows.get? k = some row) : next.get? k = some row := by
  cases h with
  | _ =>
    rename_i hn
    rw [hn, mergeRows_get?, hk]
    rfl

lemma stores_missed {o : Op} {answer : Option o.Res} : Entry.stores name k ⟨x, o, answer, false⟩ = none := by
  cases o <;> rfl

/-- The copies that were stored are there, as they were or as they were copied again later. -/
structure World.Kept (w : World) : Prop where
  stored : ∀ later e before, w.log = later ++ e :: before → ∀ name k row, e.stores name k = some row →
    ∃ row', w.copy name k = some row' ∧ (row' = row ∨ ∃ e' ∈ later, e'.copies name k = some row')
  listable : ∀ e ∈ w.log, ∀ name k row, e.stores name k = some row → IsListable name

lemma World.Kept.cons (h : w.Kept) {e : Entry} (hlog : w'.log = e :: w.log)
    (hcopy : ∀ name k row, w.copy name k = some row →
      ∃ row', w'.copy name k = some row' ∧ (row' = row ∨ e.copies name k = some row'))
    (hself : ∀ name k row, e.stores name k = some row → w'.copy name k = some row ∧ IsListable name) : w'.Kept := by
  constructor
  · intro later e' before hl name k row hs
    rw [hlog] at hl
    cases later with
    | nil =>
      obtain ⟨rfl, -⟩ := List.cons.inj hl
      exact ⟨row, (hself name k row hs).1, .inl rfl⟩
    | cons e₀ later =>
      obtain ⟨rfl, hl'⟩ := List.cons.inj hl
      obtain ⟨row₁, hrow₁, hor⟩ := h.stored later e' before hl' name k row hs
      obtain ⟨row₂, hrow₂, hor'⟩ := hcopy name k row₁ hrow₁
      refine ⟨row₂, hrow₂, ?_⟩
      rcases hor' with rfl | hnew
      · rcases hor with heq | ⟨e₁, he₁, hc⟩
        · exact .inl heq
        · exact .inr ⟨e₁, List.mem_cons_of_mem _ he₁, hc⟩
      · exact .inr ⟨e, List.mem_cons_self, hnew⟩
  · intro e' he name k row hs
    rw [hlog] at he
    rcases List.mem_cons.mp he with rfl | he
    · exact (hself name k row hs).2
    · exact h.listable e' he name k row hs

lemma World.Kept.putArchive (h : w.Kept) (hw : w.Sound) {group : Group} {next : Rows} {condition : Condition}
    (hfit : MergeFit x group next condition w.log)
    (hc : condition.holds ((w.archives.get? group.name).map StoredArchive.etag) = true)
    (hl : IsListable group.name)
    (hst : ∀ stored, w.archives.get? group.name = some stored → stored.isLegible = true) (result : WriteResult) :
    ((w.putArchive group.name next).record x (.writeArchive group next condition) (some result) true).Kept := by
  have hcopy : ∀ name k, ((w.putArchive group.name next).record x (.writeArchive group next condition)
      (some result) true).copy name k = if name = group.name then next.get? k else w.copy name k :=
    fun name k => copy_putArchive w next name
  refine h.cons rfl (fun name k row hrow => ?_) fun name k row hs => ?_
  · rw [hcopy]
    split
    · rename_i hn
      subst hn
      rw [hw.merged (fun stored hs => isLegible_rows (hst stored hs)) hfit hc]
      cases hk : group.rows.get? k with
      | none => exact ⟨row, hrow, .inl rfl⟩
      | some row' => exact ⟨row', rfl, .inr ((if_pos rfl).trans hk)⟩
    · exact ⟨row, hrow, .inl rfl⟩
  · simp only [Entry.stores] at hs
    split at hs
    · rename_i hn
      subst hn
      rw [hcopy, if_pos rfl]
      exact ⟨hs, hl⟩
    · cases hs

lemma World.Kept.same (h : w.Kept) {e : Entry} (hlog : w'.log = e :: w.log)
    (hcopy : ∀ name k, w'.copy name k = w.copy name k) (hs : ∀ name k, e.stores name k = none) : w'.Kept := by
  refine h.cons hlog (fun name k row hrow => ⟨row, (hcopy name k).trans hrow, .inl rfl⟩) fun name k row hself => ?_
  rw [hs name k] at hself
  cases hself

lemma copy_damageArchive {stored : StoredArchive} (hst : w.archives.get? name = some stored) (readable : Bool) (v : ℤ)
    (name' : String) : (w.damageArchive name stored readable v).copy name' k = w.copy name' k := by
  change ((w.archives.set name _).get? name').bind _ = _
  rw [Dict.get?_set]
  split
  · rename_i hn
    rw [World.copy, hn, hst]
    obtain ⟨etag, readable', value⟩ := stored
    cases value with
    | other => rfl
    | object v' rows => cases rows <;> rfl
  · rfl

lemma kept_keeps : Keeps S (Preserving S) World.Kept where
  empty := by
    refine ⟨fun later e before h => ?_, fun e he => ?_⟩
    · cases later <;> cases h
    · cases he
  request b a b' x o answer hw hb hg hs hfit ha := by
    have happens := ha.happens
    have hmerges := hg.merges b'
    revert happens
    generalize b'.world = w' at hmerges
    intro happens
    cases happens with
    | wroteArchive result hc =>
      obtain ⟨hl, hst⟩ := hmerges x _ _ _ _ hs rfl
      exact hb.putArchive (sound_keeps.holds hw) hfit.1 hc hl hst result
    | plain o answer _ => exact hb.same rfl (fun _ _ => rfl) fun _ _ => stores_missed
    | _ => exact hb.same rfl (fun _ _ => rfl) fun _ _ => rfl
  enqueue _ _ _ _ hb _ _ := ⟨hb.stored, hb.listable⟩
  damageMain _ _ _ hb _ _ := ⟨hb.stored, hb.listable⟩
  damageArchive b name readable v stored _ hb _ hst := by
    refine ⟨fun later e before hl name' k row hrow => ?_, hb.listable⟩
    rw [copy_damageArchive hst]
    exact hb.stored later e before hl name' k row hrow

end Copies

section Listed

lemma acknowledged_lands {group : Group} {next : Rows} {condition : Condition}
    (h : Happens w x (.writeArchive group next condition) (some .ok) w') :
    w' = (w.putArchive group.name next).record x (.writeArchive group next condition) (some .ok) true := by
  cases h with
  | wroteArchive _ h => rfl
  | missedArchive _ h => exact absurd rfl h
  | plain _ _ h => rcases h with h | h <;> cases h

/-- A key that a compaction has moved has its copy in the archive. -/
lemma moved_copy (h : (indexMachine S).Within (Preserving S) b) {e : Entry} (he : e ∈ b.world.log)
    (hm : e.moves name k = true) :
    IsListable name ∧ ∃ row, b.world.copy name k = some row ∧ ∃ e' ∈ b.world.log, e'.copies name k = some row := by
  have hkept := kept_keeps.holds h
  obtain ⟨later, before, hlog⟩ := List.append_of_mem he
  have hfit := fit_of_reachable h.reachable later e before hlog
  obtain ⟨y, o, answer, landed⟩ := e
  cases o with
  | writeMain change base now next condition =>
    cases landed with
    | false => cases hm
    | true =>
      change change.moves name k = true at hm
      have hchange := hfit.1.fit.2
      cases change with
      | compaction groups expired =>
        obtain ⟨group, hg, hin⟩ := List.any_eq_true.mp hm
        obtain ⟨hn, hkey⟩ := (Bool.and_eq_true _ _).mp hin
        obtain rfl := beq_iff_eq.mp hn
        obtain ⟨next', condition', l, r, landed, rfl, -⟩ := hchange group hg
        have hlog' : b.world.log =
            (later ++ ⟨y, .writeMain (.compaction groups expired) base now next condition, answer, true⟩ :: l) ++
              ⟨y, .writeArchive group next' condition', some .ok, landed⟩ :: r := by
          rw [hlog, List.append_assoc, List.cons_append]
        obtain ⟨b₀, a, b₁, hw, hg', hs, rfl, ha, hb₁⟩ := history h hlog'
        rw [acknowledged_lands ha.happens] at hb₁
        obtain rfl : true = landed := congrArg Entry.landed (List.cons.inj hb₁).1
        obtain ⟨row, hrow⟩ := Option.ne_none_iff_exists'.mp ((Dict.mem_keys _).mp (List.contains_iff_mem.mp hkey))
        have hnext := (fit_of_answers hw.reachable hs ha).1.contains hrow
        have hstores : Entry.stores group.name k ⟨y, .writeArchive group next' condition', some .ok, true⟩ = some row :=
          (if_pos rfl).trans hnext
        have hcopies : Entry.copies group.name k ⟨y, .writeArchive group next' condition', some .ok, true⟩ = some row :=
          (if_pos rfl).trans hrow
        have hmem : ⟨y, .writeArchive group next' condition', some .ok, true⟩ ∈ b.world.log :=
          hlog' ▸ List.mem_append_right _ List.mem_cons_self
        refine ⟨hkept.listable _ hmem _ _ _ hstores, ?_⟩
        obtain ⟨row', hrow', rfl | ⟨e', he', hc⟩⟩ := hkept.stored _ _ _ hlog' _ _ _ hstores
        · exact ⟨row', hrow', _, hmem, hcopies⟩
        · exact ⟨row', hrow', e', hlog' ▸ List.mem_append_left _ he', hc⟩
      | _ => cases hm
  | _ => cases hm

/-- A version that was read before the last write of the main document is older than the one that is there. -/
structure World.Ordered (w : World) : Prop where
  started : w.log.any Entry.isMainWrite = true → w.main ≠ none
  read : ∀ later x found landed before etag value, w.log = later ++ ⟨x, .readMain, some found, landed⟩ :: before →
    found.shown = some (etag, value) → later.any Entry.isMainWrite = true →
    ∀ stored, w.main = some stored → etag < stored.etag

lemma World.Ordered.same (h : w.Ordered) {e : Entry} (hlog : w'.log = e :: w.log) (hmain : w'.main = w.main)
    (he : e.isMainWrite = false) : w'.Ordered := by
  constructor
  · intro hany
    rw [hlog, List.any_cons, he, Bool.false_or] at hany
    rw [hmain]
    exact h.started hany
  · intro later y found landed before etag value hl hshown hany stored hst
    rw [hlog] at hl
    cases later with
    | nil => cases hany
    | cons e' later =>
      obtain ⟨rfl, hl'⟩ := List.cons.inj hl
      rw [List.any_cons, he, Bool.false_or] at hany
      exact h.read later y found landed before etag value hl' hshown hany stored (hmain ▸ hst)

/-- The next version is newer than every one that was read. -/
lemma World.Sound.newer (h : w.Sound) {later before : List Entry} {found : DocumentRead MainValue} {landed : Bool}
    {etag : ℕ} {value : Option MainValue} (hlog : w.log = later ++ ⟨x, .readMain, some found, landed⟩ :: before)
    (hs : found.shown = some (etag, value)) : etag < w.writes :=
  (h.main_read x found landed etag value (hlog ▸ List.mem_append_right _ List.mem_cons_self) hs).1

lemma ordered_keeps {g : Index → IndexAction → Prop} : Keeps S g World.Ordered where
  empty := by
    refine ⟨nofun, fun later x found landed before etag value h => ?_⟩
    cases later <;> cases h
  request b a b' x o answer hw hb _ _ _ ha := by
    have happens := ha.happens
    revert happens
    generalize b'.world = w'
    intro happens
    cases happens with
    | wroteMain result hc =>
      refine ⟨fun _ => nofun, fun later y found landed before etag value hl hshown hany stored hst => ?_⟩
      cases hst
      cases later with
      | nil => cases hany
      | cons e later => exact (sound_keeps.holds hw).newer (List.cons.inj hl).2 hshown
    | plain o answer _ => exact hb.same rfl rfl (by cases o <;> rfl)
    | _ => exact hb.same rfl rfl rfl
  enqueue _ _ _ _ hb _ _ := ⟨hb.started, hb.read⟩
  damageMain b value hw hb _ _ := by
    refine ⟨fun _ => nofun, fun later y found landed before etag value hl hshown hany stored hst => ?_⟩
    cases hst
    exact (sound_keeps.holds hw).newer hl hshown
  damageArchive _ _ _ _ _ _ hb _ _ := ⟨hb.started, hb.read⟩

lemma World.Ordered.old (h : w.Ordered) {later before : List Entry} {found : DocumentRead MainValue} {landed : Bool}
    {stored : StoredMain} {value : Option MainValue} {e : Entry}
    (hlog : w.log = later ++ ⟨x, .readMain, some found, landed⟩ :: before)
    (hs : found.shown = some (stored.etag, value)) (hst : w.main = some stored) (he : e ∈ w.log)
    (hm : e.isMainWrite = true) : e ∈ before := by
  rw [hlog] at he
  rcases List.mem_append.mp he with he | he
  · have hlt := h.read later x found landed before _ _ hlog hs (List.any_eq_true.mpr ⟨e, he, hm⟩) stored hst
    exact absurd hlt (lt_irrefl _)
  · rcases List.mem_cons.mp he with rfl | he
    · cases hm
    · exact he

lemma copy_stored (h : w.copy name k = some row) :
    ∃ stored, w.archives.get? name = some stored ∧ stored.rows.get? k = some row :=
  Option.bind_eq_some_iff.mp h

lemma Happens.listed {under : String} {cursor : Option String} {list : ListResult}
    (h : Happens w x (.listKeys under cursor) (some list) w') : w.lists under list = true := by
  cases h with
  | listKeys under cursor list h => exact h
  | plain _ _ h => rcases h with h | h <;> cases h

lemma Happens.archiveRead {use : ArchiveUse} {read : DocumentRead ArchiveValue}
    (h : Happens w x (.readArchive name use) (some read) w') : ∃ c, read = w.readArchive c name := by
  cases h with
  | readArchive c name use => exact ⟨c, rfl⟩
  | plain _ _ h => rcases h with h | h <;> cases h

/-- A whole page of the archives has the archive of every copy. -/
lemma listed_key {keys : List String} (h : w.lists "_index/" (.ok keys none) = true) (hk : w.copy name k = some row) :
    "_index/" ++ name ∈ keys := by
  obtain ⟨stored, hst, -⟩ := copy_stored hk
  have hall : w.archives.keys.all (fun name => keys.contains ("_index/" ++ name)) = true := h
  exact List.contains_iff_mem.mp (List.all_eq_true.mp hall name (Dict.mem_keys_of_get? _ hst))

lemma readArchive_copy {c : Choice} (hk : w.copy name k = some row) :
    w.readArchive c name ≠ .notFound ∧
      ∀ rows, archiveRows (w.readArchive c name) = some rows → rows.get? k = some row := by
  obtain ⟨stored, hst, hrow⟩ := copy_stored hk
  obtain ⟨etag, readable, value⟩ := stored
  simp only [World.readArchive, hst]
  cases c.unavailable with
  | true => exact ⟨by simp, fun rows hr => by cases hr⟩
  | false =>
    cases readable with
    | false => exact ⟨by simp, fun rows hr => by cases hr⟩
    | true =>
      refine ⟨by simp, fun rows hr => ?_⟩
      cases value with
      | other => cases hr
      | object v stored =>
        simp only [Bool.false_eq_true, if_false, archiveRows, parseArchiveDocument] at hr
        split at hr
        · cases hr
        · rw [hr] at hrow
          exact hrow

/-- A key that was moved before the read that a rebuild starts from is listed by the rebuild. -/
lemma rebuilt_lists (h : (indexMachine S).Within (Preserving S) b) {found : DocumentRead MainValue}
    {stored : StoredMain} {value : Option MainValue} {e : Entry} (hst : b.world.main = some stored)
    (hshown : found.shown = some (stored.etag, value)) (hu : Unreadable found stored.etag)
    (hb : Rebuilt S x found base b.world.log) (hsurvey : Surveyed x (.ifMatch stored.etag) b.world.log)
    (he : e ∈ b.world.log) (hm : e.moves name k = true) : base.lists name k = true := by
  have hold : ∀ (later before : List Entry) (list : ListResult), b.world.log = later ++ before →
      (wasListed x found list).holds before → ∃ l landed r,
        before = l ++ ⟨x, .listKeys "_index/" none, some list, landed⟩ :: r ∧ e ∈ r := by
    rintro later before list hlog ⟨l, r, landed, rfl, l', r', landed', rfl, -⟩
    refine ⟨l, landed, _, rfl, List.mem_append_right _ (List.mem_cons_of_mem _ ?_)⟩
    have hread : b.world.log = (later ++ l ++ ⟨x, .listKeys "_index/" none, some list, landed⟩ :: l') ++
        ⟨x, .readMain, some found, landed'⟩ :: r' := by
      rw [hlog]
      simp only [List.append_assoc, List.cons_append]
    exact (ordered_keeps.holds h).old hread hshown hst he (moves_isMainWrite hm)
  obtain ⟨list, hlisted, hkeys⟩ := hb.listed
  obtain ⟨keys, rfl⟩ := hsurvey.listed found _ list rfl hu hlisted
  -- The page was listed after the key was moved.
  obtain ⟨l, landed, r, hlog, her⟩ := hold [] _ _ rfl hlisted
  obtain ⟨b₁, a₁, b₁', hw₁, -, -, rfl, ha₁, -⟩ := history h hlog
  obtain ⟨⟨hclass, hname⟩, row, hrow, -⟩ := moved_copy hw₁ her hm
  have hpage := ha₁.happens.listed
  obtain ⟨read, hread, hrows⟩ := hkeys keys none rfl _ (listed_key hpage hrow) name hclass hname
  -- So was its archive read.
  have hfull := hsurvey.read found _ _ name read rfl hu hread
  obtain ⟨m, r', landed', hlog', hlisted'⟩ := hread
  obtain ⟨l', landed'', r'', rfl, her'⟩ := hold (m ++ [⟨x, .readArchive name .rebuild, some read, landed'⟩]) _ _
    (by rw [hlog', List.append_assoc, List.singleton_append]) hlisted'
  obtain ⟨b₂, a₂, b₂', hw₂, -, -, hbefore, ha₂, -⟩ := history h hlog'
  have hmem : e ∈ b₂.world.log := by
    rw [hbefore]
    exact List.mem_append_right _ (List.mem_cons_of_mem _ her')
  obtain ⟨-, row', hrow', -⟩ := moved_copy hw₂ hmem hm
  obtain ⟨c, hc⟩ := ha₂.happens.archiveRead
  obtain ⟨hfound, hget⟩ := readArchive_copy (c := c) hrow'
  rw [← hc] at hfound hget
  rcases hfull with hnone | hsome
  · exact absurd hnone hfound
  · obtain ⟨rows, hr⟩ := Option.isSome_iff_exists.mp hsome
    exact lists_iff.mpr ⟨_, hrows rows hr, rfl, Dict.mem_keys_of_get? _ (hget rows hr)⟩

/-- Every key that was moved is listed in the document that is there. -/
def World.Recorded (w : World) : Prop :=
  ∀ e ∈ w.log, ∀ name k, e.moves name k = true → ∀ doc, w.doc = some doc → doc.lists name k = true

lemma World.Recorded.same (h : w.Recorded) {e : Entry} (hlog : w'.log = e :: w.log) (hmain : w'.main = w.main)
    (he : e.isMainWrite = false) : w'.Recorded := by
  intro e' he' name k hm doc hd
  rw [hlog] at he'
  rcases List.mem_cons.mp he' with rfl | he'
  · rw [moves_isMainWrite hm] at he
    cases he
  · refine h e' he' name k hm doc ?_
    rw [World.doc, hmain] at hd
    exact hd

lemma recorded_putMain (h : (indexMachine S).Within (Preserving S) b) (hr : b.world.Recorded) {change : Change}
    {now : ℤ} {next : Doc} {condition : Condition}
    (hfit : Fit S x b.world.log (.writeMain change base now next condition))
    (hc : condition.holds (b.world.main.map StoredMain.etag) = true) (hsurvey : Surveyed x condition b.world.log)
    (result : WriteResult) :
    ((b.world.putMain next).record x (.writeMain change base now next condition) (some result) true).Recorded := by
  obtain ⟨hm, rfl⟩ := hfit
  intro e he name k hmove doc hd
  obtain rfl := Option.some.inj ((World.doc_of_main rfl).symm.trans hd)
  refine (apply_lists change).mpr ?_
  rcases List.mem_cons.mp he with rfl | he
  · exact .inr hmove
  · left
    have hstarted := (ordered_keeps.holds h).started (List.any_eq_true.mpr ⟨e, he, moves_isMainWrite hmove⟩)
    cases (sound_keeps.holds h).replaces hm.fit.1 hc with
    | nothing t hmain hb => exact absurd hmain hstarted
    | document hdoc => exact hr e he name k hmove base hdoc
    | damaged found stored hst hdam hshown hb hu =>
      have hcond : condition = .ifMatch stored.etag := by
        rw [hst] at hc
        cases condition with
        | ifNoneMatch => cases hc
        | ifMatch etag => rw [Option.some.inj (beq_iff_eq.mp hc)]
      exact rebuilt_lists h hst hshown hu hb (hcond ▸ hsurvey) he hmove

lemma recorded_keeps : Keeps S (Preserving S) World.Recorded where
  empty := by rintro e ⟨⟩
  request b a b' x o answer hw hb hg hs hfit ha := by
    have happens := ha.happens
    have hrebuilds := hg.rebuilds b'
    revert happens
    generalize b'.world = w' at hrebuilds
    intro happens
    cases happens with
    | wroteMain result hc =>
      exact recorded_putMain hw hb hfit hc (hrebuilds x _ _ _ _ _ _ hs rfl) result
    | plain o answer _ => exact hb.same rfl rfl (by cases o <;> rfl)
    | _ => exact hb.same rfl rfl rfl
  enqueue _ _ _ _ hb _ _ := hb
  damageMain b value _ _ _ hd e he name k hm doc hdoc := by
    rw [isDamaged_doc hd rfl] at hdoc
    cases hdoc
  damageArchive _ _ _ _ _ _ hb _ _ := hb

end Listed

section Run

/-- Copies stay in their archive, moved keys stay listed, a removed row has its copy in an archive that lists it, and
the copies are rows that the copying call had read from the main document. -/
structure ArchivesKept (b : Index) : Prop where
  kept : ∀ later e before, b.world.log = later ++ e :: before → ∀ name k row, e.stores name k = some row →
    ∃ row', b.world.copy name k = some row' ∧ (row' = row ∨ ∃ e' ∈ later, e'.copies name k = some row')
  listed : ∀ e ∈ b.world.log, ∀ name k, e.moves name k = true → ∀ doc, b.world.doc = some doc →
    doc.lists name k = true
  removed : ∀ x groups expired base now next condition answer,
    ⟨x, .writeMain (.compaction groups expired) base now next condition, answer, true⟩ ∈ b.world.log →
    ∀ k row, base.rows.get? k = some row → next.rows.get? k = none → ∃ name row', next.lists name k = true ∧
      b.world.copy name k = some row' ∧ ∃ e ∈ b.world.log, e.copies name k = some row'
  copied : ∀ later e before, b.world.log = later ++ e :: before → ∀ name k row, e.copies name k = some row →
    ∃ found landed doc, ⟨e.call, .readMain, some found, landed⟩ ∈ before ∧ documentOf found = some doc ∧
      doc.rows.get? k = some row

lemma removed_moves {groups : List Group} {expired : List String} (now : ℤ) (hk : base.rows.get? k = some row)
    (hn : ((Change.compaction groups expired).apply S.host S.limits now base).1.rows.get? k = none) :
    ∃ name, (Change.compaction groups expired).moves name k = true := by
  change (groups.foldl retireGroup base).rows.get? k = none at hn
  rw [retireGroups_rows] at hn
  split at hn
  · rename_i hgroup
    obtain ⟨group, hg, hin⟩ := hgroup
    exact ⟨group.name, List.any_eq_true.mpr ⟨group, hg,
      Bool.and_eq_true_iff.mpr ⟨beq_self_eq_true _, List.contains_iff_mem.mpr hin⟩⟩⟩
  · rw [hk] at hn
    cases hn

theorem archives_kept (h : (indexMachine S).Within (Preserving S) b) : ArchivesKept b where
  kept := (kept_keeps.holds h).stored
  listed := recorded_keeps.holds h
  removed x groups expired base now next condition answer he k row hk hn := by
    obtain ⟨later, before, hlog⟩ := List.append_of_mem he
    have hfit : Fit S x before (.writeMain (.compaction groups expired) base now next condition) :=
      fit_of_reachable h.reachable later _ before hlog
    obtain ⟨-, rfl⟩ := hfit
    obtain ⟨name, hm⟩ := removed_moves (S := S) now hk hn
    obtain ⟨-, row', hrow', hcopies⟩ := moved_copy h he hm
    exact ⟨name, row', (apply_lists _).mpr (.inr hm), hrow', hcopies⟩
  copied later e before hlog name k row hc := by
    have hfit := fit_of_reachable h.reachable later e before hlog
    obtain ⟨y, o, answer, landed⟩ := e
    cases o with
    | writeArchive group next condition =>
      cases landed with
      | false => cases hc
      | true =>
        simp only [Entry.copies] at hc
        split at hc
        · obtain ⟨found, doc, hf, hd, hrows⟩ := hfit.2
          obtain ⟨landed, hmem⟩ := Evidence.mem_first hf
          exact ⟨found, landed, doc, hmem, hd, hrows k row hc⟩
        · cases hc
    | _ => cases hc

end Run

section Samples

instance (name : String) : Decidable (IsListable name) := inferInstanceAs (Decidable (_ ∧ _))

/-- A request of a rebuild that shows what a survey needs. -/
def Entry.isSurveyed : Entry → Bool
  | ⟨_, .listKeys _ _, some (.ok _ none), _⟩ => true
  | ⟨_, .listKeys _ _, _, _⟩ => false
  | ⟨_, .readArchive _ _, some .notFound, _⟩ => true
  | ⟨_, .readArchive _ _, some read, _⟩ => (archiveRows read).isSome
  | _ => true

def isPreserving (b : Index) : IndexAction → Bool
  | .answer x _ => match b.calls x with
    | some (.op (.writeArchive group _ _) _) =>
      decide (IsListable group.name) && (b.world.archives.get? group.name).all StoredArchive.isLegible
    | some (.op (.writeMain _ _ _ _ _) _) => b.world.log.all fun e => e.call != x || e.isSurveyed
    | _ => true
  | _ => true

lemma surveyed_of_log {condition : Condition} {log : List Entry}
    (h : log.all (fun e => e.call != x || e.isSurveyed) = true) : Surveyed x condition log := by
  have hown : ∀ {o : Op} {a : o.Res} {E : Evidence}, (E.after x o a).holds log →
      ∃ landed, Entry.isSurveyed ⟨x, o, some a, landed⟩ = true := by
    intro o a E ha
    obtain ⟨landed, hmem⟩ := Evidence.mem ha
    refine ⟨landed, ?_⟩
    have := List.all_eq_true.mp h _ hmem
    simpa only [bne_self_eq_false, Bool.false_or] using this
  constructor
  · intro found etag list _ _ hl
    obtain ⟨landed, hs⟩ := hown hl
    cases list with
    | unavailable => cases hs
    | ok keys cursor => cases cursor with
      | none => exact ⟨keys, rfl⟩
      | some cursor => cases hs
  · intro found etag list name read _ _ hr
    obtain ⟨landed, hs⟩ := hown hr
    cases read with
    | notFound => exact .inl rfl
    | _ => exact .inr hs

lemma isPreserving_preserving {a : IndexAction} (ha : isPreserving b a = true) : Preserving S b a where
  merges b' x group next condition answer hs hlog := by
    rcases indexStep_log hs with heq | ⟨x', o', answer', landed', next', c, rfl, hx, -, -, heq⟩
    · exact absurd (hlog.symm.trans heq) (List.cons_ne_self _ _)
    · cases (List.cons.inj (hlog.symm.trans heq)).1
      simp only [isPreserving, hx, Bool.and_eq_true, decide_eq_true_eq] at ha
      refine ⟨ha.1, fun stored hst => ?_⟩
      have hall := ha.2
      rw [hst] at hall
      exact hall
  rebuilds b' x change base now next condition answer hs hlog := by
    rcases indexStep_log hs with heq | ⟨x', o', answer', landed', next', c, rfl, hx, -, -, heq⟩
    · exact absurd (hlog.symm.trans heq) (List.cons_ne_self _ _)
    · cases (List.cons.inj (hlog.symm.trans heq)).1
      simp only [isPreserving, hx] at ha
      exact surveyed_of_log ha

def recheck : List IndexAction := [.enqueue 0 ⟨"4", .agent "agent" .recheck⟩, .start ⟨0, 3⟩ .flush]

/-- The main document is lost after a compaction, and rebuilt from its archive. -/
theorem archives_kept_sample :
    ∃ b, (indexMachine sampleSettings).Within (Preserving sampleSettings) b ∧
      (∃ doc, b.world.doc = some doc ∧ doc.lists "archive-2025" "old" = true ∧ doc.rows.get? "mid" = none) ∧
      ArchivesKept b := by
  have hrun : (((indexMachine sampleSettings).runIf isPreserving startIndex (threeRows ++ archiveOldest ++
      [.damageMain none] ++ recheck ++ answers ⟨0, 3⟩ (List.replicate 9
        { calm with list := .ok ["_index/archive-2025", "_index/main"] none }))).any fun b =>
        b.world.doc.any fun doc => doc.lists "archive-2025" "old" && (doc.rows.get? "mid").isNone) = true := by
    decide +kernel
  obtain ⟨b, hb, hany⟩ := (Option.any_eq_true _ _).mp hrun
  obtain ⟨doc, hd, hany⟩ := (Option.any_eq_true _ _).mp hany
  obtain ⟨hl, hgone⟩ := (Bool.and_eq_true _ _).mp hany
  have hwithin : (indexMachine sampleSettings).Within (Preserving sampleSettings) b :=
    Machine.Within.of_runIf (P := fun _ => True) (.start start_initial) trivial
      (fun _ _ _ ha => isPreserving_preserving ha) (fun _ _ _ _ _ _ => trivial) hb
  exact ⟨b, hwithin, ⟨doc, hd, hl, Option.isNone_iff_eq_none.mp hgone⟩, archives_kept hwithin⟩

/-- Every archive document is listed with its keys in each main document written later. -/
def StoredListed (b : Index) : Prop :=
  ∀ later e before, b.world.log = later ++ e :: before → later.any Entry.isMainWrite = true →
    ∀ name k, (e.stores name k).isSome = true → ∀ doc, b.world.doc = some doc → doc.lists name k = true

/-- Every row that was written to an archive document stays there. -/
def StoredStay (b : Index) : Prop :=
  ∀ e ∈ b.world.log, ∀ name k, (e.stores name k).isSome = true → (b.world.copy name k).isSome = true

/-- A compaction stops after the archive write, and the next flush writes a main document that does not list it; an
archive of a newer version is replaced; and a rebuild without a listing forgets the archive. -/
theorem archives_dropped :
    (∃ b, (indexMachine sampleSettings).Within Undamaged b ∧ ¬ StoredListed b) ∧
      (∃ b, (indexMachine sampleSettings).Reachable b ∧ ¬ StoredStay b) ∧
      ∃ b, (indexMachine sampleSettings).Reachable b ∧ ¬ ArchivesKept b := by
  have hreach : ∀ {as b}, (indexMachine sampleSettings).run startIndex as = some b →
      (indexMachine sampleSettings).Reachable b := fun h => Machine.Reachable.of_run (.start start_initial) h
  refine ⟨?_, ?_, ?_⟩
  · have hrun : (((indexMachine sampleSettings).runIf isUndamaged startIndex
        (threeRows ++ [.start ⟨0, 1⟩ .compact] ++ answers ⟨0, 1⟩ (List.replicate 4 calm) ++
        [.crash ⟨0, 1⟩, .enqueue 0 ⟨"4", .revoke "mid" "2026-02-01T00:00:00.000Z" false⟩, .start ⟨0, 3⟩ .flush] ++
        answers ⟨0, 3⟩ (List.replicate 6 calm))).any fun b =>
          ((b.world.log.drop 6).head?.any fun e => (e.stores "archive-2025" "old").isSome) &&
            (b.world.log.take 6).any Entry.isMainWrite &&
            b.world.doc.any fun doc => !doc.lists "archive-2025" "old") = true := by
      decide +kernel
    obtain ⟨b, hb, hany⟩ := (Option.any_eq_true _ _).mp hrun
    simp only [Bool.and_eq_true, Option.any_eq_true, Bool.not_eq_true'] at hany
    obtain ⟨⟨⟨e, he, hs⟩, hw⟩, doc, hd, hl⟩ := hany
    refine ⟨b, Machine.Within.of_runIf (P := fun _ => True) (.start start_initial) trivial
      (fun _ _ _ ha => isUndamaged_undamaged ha) (fun _ _ _ _ _ _ => trivial) hb, fun hall => ?_⟩
    have hlog : b.world.log = b.world.log.take 6 ++ e :: (b.world.log.drop 6).tail := by
      rw [← List.eq_cons_of_mem_head? he, List.take_append_drop]
    rw [hall _ e _ hlog hw _ _ hs doc hd] at hl
    cases hl
  · have hrun : (((indexMachine sampleSettings).run startIndex (threeRows ++ archiveOldest ++
        [.damageArchive "archive-2025" true 2, .enqueue 0 ⟨"4", .upsert "elder"
          (webRow "2025-03-01T00:00:00.000Z" "2027-01-01T00:00:00.000Z" ["bafyfour"])⟩, .start ⟨0, 3⟩ .flush] ++
        answers ⟨0, 3⟩ (List.replicate 6 calm) ++ [.start ⟨0, 4⟩ .compact] ++
        answers ⟨0, 4⟩ (List.replicate 7 calm))).any fun b =>
          (b.world.log.any fun e => (e.stores "archive-2025" "old").isSome) &&
            (b.world.copy "archive-2025" "old").isNone) = true := by
      decide +kernel
    obtain ⟨b, hb, hany⟩ := (Option.any_eq_true _ _).mp hrun
    simp only [Bool.and_eq_true, List.any_eq_true] at hany
    obtain ⟨⟨e, he, hs⟩, hnone⟩ := hany
    refine ⟨b, hreach hb, fun hall => ?_⟩
    have hsome := hall e he _ _ hs
    rw [Option.isNone_iff_eq_none.mp hnone] at hsome
    cases hsome
  · have hrun : (((indexMachine sampleSettings).run startIndex (threeRows ++ archiveOldest ++ [.damageMain none] ++
        recheck ++ answers ⟨0, 3⟩ (List.replicate 8 calm))).any fun b =>
          (b.world.log.any fun e => e.moves "archive-2025" "old") &&
            b.world.doc.any fun doc => !doc.lists "archive-2025" "old") = true := by
      decide +kernel
    obtain ⟨b, hb, hany⟩ := (Option.any_eq_true _ _).mp hrun
    simp only [Bool.and_eq_true, List.any_eq_true, Option.any_eq_true, Bool.not_eq_true'] at hany
    obtain ⟨⟨e, he, hm⟩, doc, hd, hl⟩ := hany
    refine ⟨b, hreach hb, fun hkept => ?_⟩
    rw [hkept.listed e he _ _ hm doc hd] at hl
    cases hl

end Samples

end TinyCloud.ShareIndex
