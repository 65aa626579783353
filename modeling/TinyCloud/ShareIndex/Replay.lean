import TinyCloud.ShareIndex.DocSteps
import TinyCloud.ShareIndex.Stored

/-!
# Undamaged runs

Without damage the documents are what the landed writes of the log make of them, and every write replaces the document
it was computed from.
-/

namespace TinyCloud.ShareIndex

open TinyCloud.Collections TinyCloud.Runs Evidence

variable {S : Settings} {x : CallId} {w w' : World} {b b' : Index} {g : Index → IndexAction → Prop} {base : Doc}
  {k name : String}

/-- The documents after these requests. -/
def replay : List Entry → World
  | [] => emptyWorld
  | ⟨_, .writeMain _ _ _ next _, _, true⟩ :: log => (replay log).putMain next
  | ⟨_, .writeArchive group next _, _, true⟩ :: log => (replay log).putArchive group.name next
  | _ :: log => replay log

def Undamaged (_ : Index) : IndexAction → Prop
  | .damageMain _ => False
  | .damageArchive _ _ _ => False
  | _ => True

def isUndamaged (_ : Index) : IndexAction → Bool
  | .damageMain _ => false
  | .damageArchive _ _ _ => false
  | _ => true

lemma isUndamaged_undamaged {b : Index} {a : IndexAction} (ha : isUndamaged b a = true) : Undamaged b a := by
  cases a with
  | damageMain value => cases ha
  | damageArchive name readable v => cases ha
  | _ => trivial

structure World.SameDocs (w w' : World) : Prop where
  main : w.main = w'.main
  archives : w.archives = w'.archives
  writes : w.writes = w'.writes

structure World.Whole (w : World) : Prop where
  replayed : w.SameDocs (replay w.log)
  main : ∀ stored, w.main = some stored → ∃ doc, stored.value = some (.object INDEX_SCHEMA_VERSION (some doc))
  archives : ∀ name stored, w.archives.get? name = some stored →
    stored.readable = true ∧ ∃ rows, stored.value = .object INDEX_SCHEMA_VERSION (some rows)
  retired : ∀ doc, w.doc = some doc → ∀ k, doc.isArchived k = true → doc.rows.get? k = none

lemma World.SameDocs.doc (h : w.SameDocs w') : w.doc = w'.doc := by
  rw [World.doc, h.main, World.doc]

lemma World.SameDocs.copy (h : w.SameDocs w') (name k : String) : w.copy name k = w'.copy name k := by
  rw [World.copy, h.archives, World.copy]

lemma isDamaged_object {doc : Doc} : isDamaged (some (.object INDEX_SCHEMA_VERSION (some doc))) = false := by
  simp [isDamaged, parseIndexDocument]

/-- A write that lands replaces the document it was computed from, or is the first. -/
lemma World.Whole.replaces (h : w.Whole) (hr : Replaces S x w base) :
    (w.main = none ∧ ∃ t, base = S.emptyDoc x.writer t) ∨ w.doc = some base := by
  cases hr with
  | nothing t hm hb => exact .inl ⟨hm, t, hb⟩
  | document hd => exact .inr hd
  | damaged found stored hm hd hf hb =>
    obtain ⟨doc, hv⟩ := h.main stored hm
    rw [hv, isDamaged_object] at hd
    cases hd

lemma World.doc_some (h : w.Whole) {stored : StoredMain} (hm : w.main = some stored) : ∃ doc, w.doc = some doc := by
  obtain ⟨doc, hv⟩ := h.main stored hm
  obtain ⟨etag, value⟩ := stored
  cases hv
  exact ⟨doc, World.doc_of_main hm⟩

lemma World.Whole.record (h : w.Whole) {o : Op} {answer : Option o.Res} {landed : Bool}
    (hl : landed = true → (∀ change base now next condition, o ≠ .writeMain change base now next condition) ∧
      ∀ group next condition, o ≠ .writeArchive group next condition) :
    (w.record x o answer landed).Whole := by
  have hreplay : replay (⟨x, o, answer, landed⟩ :: w.log) = replay w.log := by
    cases landed with
    | false => cases o <;> rfl
    | true =>
      obtain ⟨hm, ha⟩ := hl rfl
      cases o with
      | writeMain change base now next condition => exact absurd rfl (hm change base now next condition)
      | writeArchive group next condition => exact absurd rfl (ha group next condition)
      | _ => rfl
  have hdocs : w.SameDocs (replay (⟨x, o, answer, landed⟩ :: w.log)) := by
    rw [hreplay]
    exact h.replayed
  exact ⟨⟨hdocs.main, hdocs.archives, hdocs.writes⟩, h.main, h.archives, h.retired⟩

lemma World.Whole.putMain (h : w.Whole) (hw : w.Sound) {change : Change} {base : Doc} {now : ℤ} {next : Doc}
    {condition : Condition} (hfit : Fit S x w.log (.writeMain change base now next condition))
    (hc : condition.holds (w.main.map StoredMain.etag) = true) (result : WriteResult) :
    ((w.putMain next).record x (.writeMain change base now next condition) (some result) true).Whole := by
  obtain ⟨hm, rfl⟩ := hfit
  refine ⟨⟨?_, h.replayed.archives, ?_⟩, fun stored hst => ?_, h.archives, fun doc hd k ha => ?_⟩
  · exact congrArg (fun n => some (StoredMain.mk n _)) h.replayed.writes
  · exact congrArg Nat.succ h.replayed.writes
  · cases hst
    exact ⟨_, rfl⟩
  · obtain rfl := Option.some.inj ((World.doc_of_main rfl).symm.trans hd)
    refine apply_retired change ?_ ha
    rcases h.replaces (hw.replaces hm.fit.1 hc) with ⟨-, t, rfl⟩ | hdoc
    · intro k _
      rfl
    · exact h.retired base hdoc

lemma World.Whole.putArchive (h : w.Whole) (group : Group) (next : Rows) (condition : Condition) (result : WriteResult) :
    ((w.putArchive group.name next).record x (.writeArchive group next condition) (some result) true).Whole := by
  refine ⟨⟨h.replayed.main, ?_, ?_⟩, h.main, fun name stored hst => ?_, h.retired⟩
  · exact congrArg₂ (fun archives n => Dict.set archives group.name (StoredArchive.mk n true
      (.object INDEX_SCHEMA_VERSION (some next)))) h.replayed.archives h.replayed.writes
  · exact congrArg Nat.succ h.replayed.writes
  · change (w.archives.set _ _).get? name = _ at hst
    rw [Dict.get?_set] at hst
    split at hst
    · cases hst
      exact ⟨rfl, next, rfl⟩
    · exact h.archives name stored hst

section History

variable {before later : List Entry}

lemma Happens.read {found : DocumentRead MainValue} (h : Happens w x .readMain (some found) w') :
    ∃ c, found = w.readMain c := by
  cases h with
  | readMain c => exact ⟨c, rfl⟩
  | plain _ _ h => rcases h with h | h <;> cases h

end History

section Copies

/-- A merge keeps the copies that it does not replace. -/
lemma mergeRows_get? (existing rows : Rows) (k : String) :
    (mergeRows existing rows).get? k = ((rows.get? k) <|> existing.get? k) := by
  have hfold : ∀ (entries : List (String × Row)) (existing : Rows), (entries.map Prod.fst).Nodup →
      (entries.foldl (fun merged e => merged.set e.1 e.2) existing).get? k =
        ((Dict.getIn k entries) <|> existing.get? k) := by
    intro entries
    induction entries with
    | nil => exact fun _ _ => rfl
    | cons e entries ih =>
      intro existing hn
      rw [List.map_cons, List.nodup_cons] at hn
      rw [List.foldl_cons, ih _ hn.2, Dict.get?_set, Dict.getIn]
      by_cases hk : k = e.1
      · have hnone : Dict.getIn k entries = none := Dict.getIn_eq_none.mpr (hk ▸ hn.1)
        rw [hnone, if_pos hk, if_pos hk.symm]
        rfl
      · rw [if_neg hk, if_neg (Ne.symm hk)]
  exact hfold rows.entries existing rows.nodup

/-- What a landed archive write does to the copies under its name, when the document there could be read. -/
lemma World.Sound.merged (hw : w.Sound) {group : Group} {next : Rows} {condition : Condition}
    (hst : ∀ stored, w.archives.get? group.name = some stored →
      stored.readable = true ∧ ∃ rows, stored.value = .object INDEX_SCHEMA_VERSION (some rows))
    (hfit : MergeFit x group next condition w.log)
    (hc : condition.holds ((w.archives.get? group.name).map StoredArchive.etag) = true) (k : String) :
    next.get? k = ((group.rows.get? k) <|> w.copy group.name k) := by
  have hmatch : ∀ etag, condition = .ifMatch etag → ∃ stored, w.archives.get? group.name = some stored ∧
      stored.etag = etag := by
    rintro etag rfl
    rw [Condition.holds, beq_iff_eq] at hc
    exact Option.map_eq_some_iff.mp hc
  cases hfit with
  | fresh hr hcond hn =>
    rw [hcond, Condition.holds, Option.isNone_map, Option.isNone_iff_eq_none] at hc
    rw [hn, mergeRows_get?, World.copy, hc]
    rfl
  | corrupt etag hr hcond hn =>
    obtain ⟨stored, hs, rfl⟩ := hmatch etag hcond
    obtain ⟨landed, hmem⟩ := Evidence.mem hr
    have hcontent := (hw.archive_read x _ _ _ landed _ _ hmem rfl).2 stored hs rfl
    rw [StoredArchive.content, if_pos (hst stored hs).1] at hcontent
    cases hcontent
  | read value etag hr hcond hn =>
    obtain ⟨stored, hs, rfl⟩ := hmatch etag hcond
    obtain ⟨landed, hmem⟩ := Evidence.mem hr
    have hcontent := (hw.archive_read x _ _ _ landed _ _ hmem rfl).2 stored hs rfl
    obtain ⟨hreadable, rows, hv⟩ := hst stored hs
    rw [StoredArchive.content, if_pos hreadable, hv] at hcontent
    cases hcontent
    have hparse : parseArchiveDocument (.object INDEX_SCHEMA_VERSION (some rows)) = some rows := rfl
    rw [hn, mergeRows_get?, hparse, World.copy, hs, Option.bind_some, StoredArchive.rows, hv]
    rfl

lemma copy_putArchive (w : World) (rows : Rows) (name' : String) :
    (w.putArchive name rows).copy name' k = if name' = name then rows.get? k else w.copy name' k := by
  change ((w.archives.set name _).get? name').bind _ = _
  rw [Dict.get?_set]
  split
  · rfl
  · rfl

end Copies

end TinyCloud.ShareIndex
