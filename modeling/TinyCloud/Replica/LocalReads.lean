import TinyCloud.Replica.ContentFiles
import TinyCloud.Replica.Reads
import Mathlib.Data.List.Induction

/-! What local reads return beside syncs, resets and collections: which steps of
the others a read in flight survives, and the state that then explains it. -/

namespace TinyCloud.Replica

open Runs

variable {contentHash : ByteArray → String} {db db' : Db} {seen : List Db} {tampered tampered' : Bool}
  {key : String}

/-- What a step of the others, or a change from outside, must not do under a read
in flight: take complete coverage from a get that never saw its key missing, complete
the coverage under a list of other rows, remove the content of a get's second row. -/
structure Undisturbed (tampered : Bool) (db db' : Db) (rd : Reader) : Prop where
  absent : ∀ key, (∃ verify retried, rd.phase = .getRow key verify .complete retried) ∨
      (∃ verify row, rd.phase = .getContent key verify .complete false row) →
    db.row.coverage = .complete → db'.row.coverage ≠ .complete → db'.row.revokedDetail = none →
    ∃ d ∈ rd.seen, AbsentIn d key
  listed : ∀ o entries, rd.phase = .listConfirm o entries → db.row.coverage ≠ .complete →
    db'.row.coverage = .complete → (∃ d ∈ rd.seen, ListedIn d o entries) ∨ entries = listEntries db' o
  kept : ∀ key verify coverage row, rd.phase = .getContent key verify coverage true row →
    tampered = false → db.row.revokedDetail = none → (db.blobs row.hash).isSome = true →
    (db'.blobs row.hash).isSome = true

def ReadsUndisturbed (contentHash : ByteArray → String) (s : ReadState) : ReadAction → Prop
  | .replica a => ∀ t, step contentHash s.core a = some t → ∀ r rd, s.readers r = some rd →
      Undisturbed s.tampered s.core.db t.db rd
  | _ => True

/-- A get that read complete coverage either still finds it, or has an answer. -/
def CoverageHeld (db : Db) (seen : List Db) (key : String) (coverage : Coverage) : Prop :=
  coverage = .complete → db.row.revokedDetail.isSome = true ∨ db.row.coverage = .complete ∨
    ∃ d ∈ seen, AbsentIn d key

def Verdict.Good (db : Db) (tampered : Bool) (seen : List Db) (key : String) : Verdict → Prop
  | .status st => db.row.revokedDetail.isSome = true ∨ ∀ m, ExplainedBy tampered seen (.got key st m)
  | .corrupt => db.row.revokedDetail.isSome = true ∨ tampered = true

def Phase.Good (db : Db) (tampered : Bool) (seen : List Db) : Phase → Prop
  | .getRow key _ coverage _ => CoverageHeld db seen key coverage
  | .getContent key _ coverage retried row =>
    (retried = false → CoverageHeld db seen key coverage) ∧ isHash row.hash = true ∧
      (∃ d ∈ seen, HeldIn d key true row.etag row.metadata) ∧ (retried = true → db.row.revokedDetail.isSome = true ∨ tampered = true ∨
        (db.blobs row.hash).isSome = true)
  | .getConfirm key v => v.Good db tampered seen key
  | .listRows _ => True
  | .listConfirm o entries => db.row.revokedDetail.isSome = true ∨ db.row.coverage ≠ .complete ∨
      ∃ d ∈ seen, ListedIn d o entries

structure ReadInv (contentHash : ByteArray → String) (s : ReadState) : Prop where
  serial : SerialInv s.core
  files : s.tampered = false → FilesInv contentHash s.core
  current : ∀ {r rd}, s.readers r = some rd → s.core.db ∈ rd.seen
  good : ∀ {r rd}, s.readers r = some rd → rd.phase.Good s.core.db s.tampered rd.seen
  results : ∀ {result seen}, (result, seen) ∈ s.results → ExplainedBy s.tampered seen result

lemma readMeta_ok {row : ReplicaRow} {now : ℕ} {m : ReadMeta} (h : readMeta row now = .ok m) :
    row.revokedDetail = none ∧ m.coverage = row.coverage := by
  obtain ⟨authority, ha, h⟩ := bind_eq_ok h
  cases h
  refine ⟨?_, rfl⟩
  cases hr : row.revokedDetail with
  | none => rfl
  | some detail => simp [effectiveAuthority, assertReadable, hr] at ha

lemma readMeta_error {row : ReplicaRow} {now : ℕ} {code : ReplicaErrorCode}
    (h : readMeta row now = .error code) : code ≠ .integrityError := by
  rcases bind_eq_error h with h | ⟨_, _, h⟩
  · rintro rfl
    unfold assertReadable at h
    split at h
    · cases h
    · cases h
    · cases h
    · split at h
      · cases h
      · split at h <;> cases h
  · cases h

lemma isHash_of_hashFromEtag {etag hash : String} (h : hashFromEtag etag = some hash) :
    isHash hash = true := by
  simp only [hashFromEtag, Option.ite_none_right_eq_some, Option.some.injEq] at h
  obtain ⟨⟨_, hlen, hall, _⟩, rfl⟩ := h
  simp only [isHash, String.toList_ofList, Bool.and_eq_true, beq_iff_eq]
  exact ⟨hlen, hall⟩

lemma attests_hash {cs : List VerifiedChange} {changes : List Change} {row : LiveRow}
    (h : List.Forall₂ Attests cs changes) (hm : .live row ∈ cs) :
    hashFromEtag row.etag = some row.hash := by
  induction h with
  | nil => cases hm
  | @cons c change cs changes hc _ ih =>
    rcases List.mem_cons.mp hm with rfl | hm
    · cases change with
      | deleted key => cases hc
      | live key etag metadata =>
        obtain ⟨_, he, _, hh⟩ := hc
        rwa [he]
    · exact ih hm

-- By induction on the history: a page attests its hashes, a repair keeps its rows'.
lemma hash_of_replay {history : List Event}
    (h : ∀ i e, history[i]? = some e → Serial (history.take i) e) {e : EntryRow} {row : LiveRow}
    (he : e ∈ replay history) (hrow : e.entry = .live row) : hashFromEtag row.etag = some row.hash := by
  induction history using List.reverseRecOn generalizing e row with
  | nil => cases he
  | append_singleton history ev ih =>
    have hbefore : ∀ i e, history[i]? = some e → Serial (history.take i) e := by
      intro i e hi
      have hlt := (List.getElem?_eq_some_iff.mp hi).1
      have := h i e (by rw [List.getElem?_append_left hlt, hi])
      rwa [List.take_append_of_le_length hlt.le] at this
    have hlast : Serial history ev := by
      have := h history.length ev List.getElem?_concat_length
      rwa [List.take_left] at this
    rw [replay, List.foldl_append] at he
    cases ev with
    | cleared => cases he
    | feed reply requested page p reused =>
      rcases mem_applyChanges he with he | he
      · exact ih hbefore he hrow
      · exact attests_hash hlast.2 (hrow ▸ he)
    | repair p reused =>
      rcases mem_applyChanges he with he | he
      · exact ih hbefore he hrow
      · obtain ⟨row', hlive, _, hl⟩ := hlast e.entry he
        obtain ⟨e', hl, he'⟩ := Option.map_eq_some_iff.mp hl
        have hh := ih hbefore (mem_of_lookup hl).1 he'
        rw [hrow] at hlive
        cases hlive
        exact hh

lemma SerialInv.isHash {s : State} (hi : SerialInv s) {row : LiveRow}
    (h : get s.db key = some (.live row)) : Replica.isHash row.hash = true := by
  obtain ⟨e, hl, hrow⟩ := Option.map_eq_some_iff.mp h
  refine isHash_of_hashFromEtag (hash_of_replay hi.explained.serial ?_ hrow)
  rw [← hi.explained.entries]
  exact (mem_of_lookup hl).1

lemma key_of_get {entry : LocalEntry} (h : get db key = some entry) : entry.key = key := by
  obtain ⟨e, hl, rfl⟩ := Option.map_eq_some_iff.mp h
  exact (mem_of_lookup hl).2

lemma Stepped.revoked {s t : State} {a : Action} (h : Stepped contentHash s a t)
    (hr : s.db.row.revokedDetail.isSome = true) : t.db.row.revokedDetail.isSome = true := by
  cases h with
  | session _ _ _ _ h =>
    cases ht : t.db.row.revokedDetail with
    | some detail => rfl
    | none =>
      rw [h.rows.revokedDetail_eq_none ht] at hr
      cases hr
  | installed _ _ => rwa [(sameContent_installGrant _ _).revokedDetail]
  | retention => rwa [(sameContent_setRetentionGrant _ _).revokedDetail]
  | _ => exact hr

lemma ExplainedBy.mono {result : Result} {seen' : List Db} (h : ExplainedBy tampered seen result)
    (ht : tampered = true → tampered' = true) (hs : ∀ d ∈ seen, d ∈ seen') :
    ExplainedBy tampered' seen' result := by
  have hmono : ∀ {P : Db → Prop}, (∃ d ∈ seen, P d) → ∃ d ∈ seen', P d :=
    fun ⟨d, hd, hp⟩ => ⟨d, hs d hd, hp⟩
  cases result with
  | got key status m =>
    cases status with
    | notCovered | coverageIncomplete => trivial
    | _ => exact hmono h
  | listed o entries m => exact fun hm => hmono (h hm)
  | threw code => exact fun hc => ht (h hc)

lemma Phase.Good.next {phase : Phase} (h : phase.Good db tampered seen)
    (hu : Undisturbed tampered' db db' ⟨seen, phase⟩) (ht : tampered = true → tampered' = true)
    (hr : db.row.revokedDetail.isSome = true → db'.row.revokedDetail.isSome = true) :
    phase.Good db' tampered' (seen ++ [db']) := by
  have hs : ∀ d ∈ seen, d ∈ seen ++ [db'] := fun d hd => List.mem_append_left _ hd
  have hmono : ∀ {P : Db → Prop}, (∃ d ∈ seen, P d) → ∃ d ∈ seen ++ [db'], P d :=
    fun ⟨d, hd, hp⟩ => ⟨d, hs d hd, hp⟩
  have hheld : ∀ {key coverage}, CoverageHeld db seen key coverage →
      (coverage = .complete → (∃ verify retried, phase = .getRow key verify .complete retried) ∨
        (∃ verify row, phase = .getContent key verify .complete false row)) →
      CoverageHeld db' (seen ++ [db']) key coverage := by
    intro key coverage hc hphase hcomplete
    rcases hc hcomplete with hrev | hcov | habsent
    · exact .inl (hr hrev)
    · by_cases hcov' : db'.row.coverage = .complete
      · exact .inr (.inl hcov')
      · cases hrev : db'.row.revokedDetail with
        | some detail => exact .inl rfl
        | none => exact .inr (.inr (hmono (hu.absent key (hphase hcomplete) hcov hcov' hrev)))
    · exact .inr (.inr (hmono habsent))
  cases phase with
  | getRow key verify coverage retried =>
    refine hheld h fun hcomplete => ?_
    subst hcomplete
    exact .inl ⟨verify, retried, rfl⟩
  | getContent key verify coverage retried row =>
    obtain ⟨hcov, hhash, hrow, hblob⟩ := h
    refine ⟨?_, hhash, hmono hrow, ?_⟩
    · rintro rfl
      refine hheld (hcov rfl) fun hcomplete => ?_
      subst hcomplete
      exact .inr ⟨verify, row, rfl⟩
    · rintro rfl
      rcases hblob rfl with hrev | htam | hb
      · exact .inl (hr hrev)
      · exact .inr (.inl (ht htam))
      · cases htam : tampered' with
        | true => exact .inr (.inl rfl)
        | false =>
          cases hrev : db.row.revokedDetail with
          | some detail => exact .inl (hr (by rw [hrev]; rfl))
          | none => exact .inr (.inr (hu.kept _ _ _ _ rfl htam hrev hb))
  | getConfirm key v =>
    cases v with
    | status st => exact h.imp hr fun he m => (he m).mono ht hs
    | corrupt => exact h.imp hr ht
  | listRows o => trivial
  | listConfirm o entries =>
    rcases h with hrev | hcov | hlisted
    · exact .inl (hr hrev)
    · by_cases hcov' : db'.row.coverage = .complete
      · refine .inr (.inr ?_)
        rcases hu.listed o entries rfl hcov hcov' with hd | he
        · exact hmono hd
        · exact ⟨db', List.mem_append_right _ (List.mem_singleton_self _), hcov', he⟩
      · exact .inr (.inl hcov')
    · exact .inr (.inr (hmono hlisted))

lemma afterRow_good {s : State} {verify retried : Bool} {coverage : Coverage} (hs : SerialInv s)
    (hf : tampered = false → FilesInv contentHash s) (hm : s.db ∈ seen)
    (h : CoverageHeld s.db seen key coverage) :
    (afterRow key verify coverage retried (get s.db key)).Good s.db tampered seen := by
  cases hg : get s.db key with
  | none =>
    by_cases hcov : coverage = .complete
    · rw [afterRow, if_pos hcov]
      refine (h hcov).imp id fun h m => ?_
      rcases h with hnow | habsent
      · exact ⟨s.db, hm, hnow, by simp [isLive, hg]⟩
      · exact habsent
    · rw [afterRow, if_neg hcov]
      exact .inr fun _ => trivial
  | some entry =>
    have hk := key_of_get hg
    cases entry with
    | deleted key' =>
      cases hk
      exact .inr fun _ => ⟨s.db, hm, hg⟩
    | live row =>
      obtain ⟨key', etag, hash, metadata, content⟩ := row
      obtain rfl : key' = key := hk
      cases content with
      | false => exact .inr fun _ => ⟨s.db, hm, hash, hg⟩
      | true =>
        refine ⟨fun _ => h, hs.isHash hg, ⟨s.db, hm, hash, hg⟩, fun _ => ?_⟩
        cases htam : tampered with
        | true => exact .inr (.inl rfl)
        | false =>
          cases hrev : s.db.row.revokedDetail with
          | some detail => exact .inl rfl
          | none =>
            obtain ⟨e, hl, hrow⟩ := Option.map_eq_some_iff.mp hg
            exact .inr (.inr ((hf htam).backed hrev (mem_of_lookup hl).1 hrow rfl))

lemma afterContent_good {s : State} {verify retried : Bool} {coverage : Coverage} {row : LiveRow}
    (hf : tampered = false → FilesInv contentHash s)
    (h : (Phase.getContent key verify coverage retried row).Good s.db tampered seen) :
    (afterContent contentHash key verify coverage retried row (readContent s.db row.hash)).Good
      s.db tampered seen := by
  obtain ⟨hcov, hhash, hrow, hblob⟩ := h
  unfold afterContent
  cases hv : (readContent s.db row.hash).filter (intact contentHash verify row) with
  | some value => exact .inr fun _ => hrow
  | none =>
    cases retried with
    | false => exact hcov rfl
    | true =>
      refine (hblob rfl).imp id fun h => ?_
      rcases h with htam | hb
      · exact htam
      · cases htam : tampered with
        | true => rfl
        | false =>
          obtain ⟨bytes, hbytes⟩ := Option.isSome_iff_exists.mp hb
          have hh := (hf htam).hashed hbytes
          rw [readContent, if_pos hhash, hbytes, Option.filter_some, if_pos] at hv
          · cases hv
          · simp [intact, hh]

section Step

variable {s t : ReadState} {r : ℕ}

lemma ReadInv.put (hi : ReadInv contentHash s) {rd : Reader} (hc : s.core.db ∈ rd.seen)
    (hg : rd.phase.Good s.core.db s.tampered rd.seen) : ReadInv contentHash (s.put r rd) := by
  refine ⟨hi.serial, hi.files, ?_, ?_, hi.results⟩
  · intro r' rd' h
    simp only [ReadState.put, Function.update_apply] at h
    split at h
    · cases h
      exact hc
    · exact hi.current h
  · intro r' rd' h
    simp only [ReadState.put, Function.update_apply] at h
    split at h
    · cases h
      exact hg
    · exact hi.good h

lemma ReadInv.drop (hi : ReadInv contentHash s) : ReadInv contentHash (s.drop r) := by
  have hold : ∀ {r' rd}, (s.drop r).readers r' = some rd → s.readers r' = some rd := by
    intro r' rd h
    simp only [ReadState.drop, Function.update_apply] at h
    split at h
    · cases h
    · exact h
  exact ⟨hi.serial, hi.files, fun h => hi.current (hold h), fun h => hi.good (hold h), hi.results⟩

lemma ReadInv.finish (hi : ReadInv contentHash s) {result : Result}
    (hr : ExplainedBy s.tampered seen result) : ReadInv contentHash (s.finish r seen result) := by
  have hd := hi.drop (r := r)
  refine ⟨hd.serial, hd.files, hd.current, hd.good, ?_⟩
  intro result' seen' h
  rcases List.mem_append.mp h with h | h
  · exact hi.results h
  · cases List.mem_singleton.mp h
    exact hr

lemma ReadInv.observe (hi : ReadInv contentHash s) {core : State} (hs : SerialInv core)
    (hf : tampered' = false → FilesInv contentHash core) (ht : s.tampered = true → tampered' = true)
    (hr : s.core.db.row.revokedDetail.isSome = true → core.db.row.revokedDetail.isSome = true)
    (hu : ∀ r rd, s.readers r = some rd → Undisturbed tampered' s.core.db core.db rd) :
    ReadInv contentHash { s.observe core with tampered := tampered' } := by
  refine ⟨hs, hf, ?_, ?_, ?_⟩
  · intro r rd h
    obtain ⟨rd', _, rfl⟩ := Option.map_eq_some_iff.mp h
    exact List.mem_append_right _ (List.mem_singleton_self _)
  · intro r rd h
    obtain ⟨rd', hrd, rfl⟩ := Option.map_eq_some_iff.mp h
    exact (hi.good hrd).next (hu r rd' hrd) ht hr
  · intro result seen h
    exact (hi.results h).mono ht fun _ hd => hd

lemma ReadInv.replica (hi : ReadInv contentHash s) {a : Action} {core : State}
    (hg : ReadsUndisturbed contentHash s (.replica a)) (h : step contentHash s.core a = some core) :
    ReadInv contentHash (s.observe core) := by
  have hst := stepped_of_step h
  have hn : ReadInv contentHash { s.observe core with tampered := s.tampered } :=
    hi.observe (hi.serial.of_stepped hst) (fun ht => (hi.files ht).of_stepped hi.serial hst) id
      hst.revoked (hg core h)
  exact hn

lemma ReadInv.tamper (hi : ReadInv contentHash s) (hash : String) (content : Option ByteArray) :
    ReadInv contentHash { s.observe (tamperBlob s.core hash content) with tampered := true } := by
  have hsame : SameContent s.core.db (tamperBlob s.core hash content).db := ⟨rfl, rfl, rfl, rfl, rfl⟩
  refine hi.observe (hi.serial.quiet hsame rfl rfl fun _ _ h => h) (fun ht => by cases ht)
    (fun _ => rfl) id fun r rd _ => ⟨?_, ?_, ?_⟩
  · intro key _ hcov hcov'
    exact (hcov' hcov).elim
  · intro o entries _ hcov hcov'
    exact (hcov hcov').elim
  · intro key verify coverage row _ ht
    cases ht

lemma explained_threw {code : ReplicaErrorCode} (h : code ≠ .integrityError) :
    ExplainedBy tampered seen (.threw code) :=
  fun hc => (h hc).elim

lemma ReadInv.startGet (hi : ReadInv contentHash s) (verify : Bool) (now : ℕ) :
    ReadInv contentHash (startGet s r key verify now) := by
  unfold Replica.startGet
  dsimp only
  split
  · rename_i hm
    exact hi.finish (explained_threw (readMeta_error hm))
  · refine hi.put (List.mem_singleton_self _) ?_
    split
    · exact fun hcov => .inr (.inl hcov)
    · exact .inr fun _ => trivial

lemma ReadInv.startList (hi : ReadInv contentHash s) (o : ListOpts) (now : ℕ) :
    ReadInv contentHash (startList s r o now) := by
  unfold Replica.startList
  dsimp only
  split
  · rename_i hm
    exact hi.finish (explained_threw (readMeta_error hm))
  · split
    · exact hi.put (List.mem_singleton_self _) trivial
    · exact hi.finish (explained_threw (by simp))

lemma confirmGet_explained {v : Verdict} {now : ℕ} (h : v.Good db tampered seen key) :
    ExplainedBy tampered seen (confirmGet key v (readMeta db.row now)) := by
  cases hm : readMeta db.row now with
  | error code =>
    have he : ExplainedBy tampered seen (.threw code) := explained_threw (readMeta_error hm)
    cases v <;> exact he
  | ok m =>
    have hrev : ¬ db.row.revokedDetail.isSome = true := by simp [(readMeta_ok hm).1]
    cases v with
    | status st => exact h.resolve_left hrev m
    | corrupt => exact fun _ => h.resolve_left hrev

lemma confirmList_explained {o : ListOpts} {entries : List ListEntry} {now : ℕ}
    (h : (Phase.listConfirm o entries).Good db tampered seen) :
    ExplainedBy tampered seen (confirmList o entries (readMeta db.row now)) := by
  cases hm : readMeta db.row now with
  | error code => exact explained_threw (readMeta_error hm)
  | ok m =>
    obtain ⟨hrev, hcov⟩ := readMeta_ok hm
    intro hcomplete
    rcases h with h | h | h
    · rw [hrev] at h
      cases h
    · exact (h (hcov.symm.trans hcomplete)).elim
    · exact h

lemma ReadInv.of_step (hi : ReadInv contentHash s) {a : ReadAction}
    (hg : ReadsUndisturbed contentHash s a) (h : readStep contentHash s a = some t) :
    ReadInv contentHash t := by
  cases a with
  | replica a =>
    obtain ⟨core, hc, rfl⟩ := Option.map_eq_some_iff.mp h
    exact hi.replica hg hc
  | tamper hash content =>
    cases h
    exact hi.tamper hash content
  | get r key verify now =>
    simp only [readStep, Option.ite_none_left_eq_some, Option.some.injEq] at h
    obtain ⟨_, rfl⟩ := h
    exact hi.startGet verify now
  | list r o now =>
    simp only [readStep, Option.ite_none_left_eq_some, Option.some.injEq] at h
    obtain ⟨_, rfl⟩ := h
    exact hi.startList o now
  | readRow r =>
    simp only [readStep] at h
    split at h
    · rename_i hr
      cases h
      have hc := hi.current hr
      exact hi.put hc (afterRow_good hi.serial hi.files hc (hi.good hr))
    · cases h
  | readContent r =>
    simp only [readStep] at h
    split at h
    · rename_i hr
      cases h
      have hc := hi.current hr
      exact hi.put hc (afterContent_good hi.files (hi.good hr))
    · cases h
  | readRows r =>
    simp only [readStep] at h
    split at h
    · rename_i seen o hr
      cases h
      have hc := hi.current hr
      refine hi.put hc ?_
      by_cases hcov : s.core.db.row.coverage = .complete
      · exact .inr (.inr ⟨s.core.db, hc, hcov, rfl⟩)
      · exact .inr (.inl hcov)
    · cases h
  | confirm r now =>
    simp only [readStep] at h
    split at h
    · rename_i hr
      cases h
      exact hi.finish (confirmGet_explained (hi.good hr))
    · rename_i hr
      cases h
      exact hi.finish (confirmList_explained (hi.good hr))
    · cases h
  | abandon r =>
    cases h
    exact hi.drop

end Step

instance (db : Db) (key : String) : Decidable (AbsentIn db key) :=
  inferInstanceAs (Decidable (_ ∧ _))

instance (db : Db) (o : ListOpts) (entries : List ListEntry) : Decidable (ListedIn db o entries) :=
  inferInstanceAs (Decidable (_ ∧ _))

end TinyCloud.Replica
