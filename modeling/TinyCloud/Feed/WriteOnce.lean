import TinyCloud.Feed.Evidence

/-!
# What is written to a feed is written once

Every operation keeps the tables in order and only adds to them, so what one call has seen stays true while other calls
run. Calls may fail or stop at any operation.
-/

namespace TinyCloud.Feed

open TinyCloud.Runs

section Invariant

variable {J : Type} (T : Timestamps) (contentSha256 : RestoreContent J → String)

/-- An answer is to an actionable card, with one of its choices, and corrects a response to the same card. -/
structure Answers (db : FeedTables J) (card : FeedCard J) (header : FeedHeader) : Prop where
  actionable : header.kind ≠ .message → card.needsResponse = true
  choice : header.kind ≠ .message → ∀ id, header.choiceId = some id →
    ∃ choices, card.choices = some choices ∧ ∃ c ∈ choices, c.id = id
  corrects : header.kind ≠ .message → ∀ previous, header.supersedesResponseId = some previous →
    ∃ row ∈ db.responses, row.2.responseId = previous ∧ row.2.identity = header.identity

/-- The header may be saved: it is well formed, for a published card, and answers it unless it was restored. -/
def Supported (db : FeedTables J) (header : FeedHeader) : Prop :=
  header.parses = true ∧ ∃ card ∈ db.cards, card.identity = header.identity ∧
    ((∃ m, (header.responseId, m) ∈ db.imports) ∨ Answers db card header)

def Published (db : FeedTables J) : Prop := ∀ row ∈ db.responses, Supported db row.2

/-- The response is saved with its payload, and `r` is what a reader is shown of it. -/
def Saved (db : FeedTables J) (header : FeedHeader) (payload : Option (FeedResponsePayload J)) (r : FeedResponse) :
    Prop :=
  ∃ sequence, (sequence, header) ∈ db.responses ∧ db.payload header.responseId = payload ∧
    r = projectFeedResponseNotification T (db.storedRow (sequence, header)).response

/-- The record is stored with its marker, its origin, the policy that denies and its own policies. -/
structure Restored (db : FeedTables J) (record : FeedRestoreResponse J) : Prop where
  header : ∃ sequence, (sequence, record.response) ∈ db.responses
  payload : db.payload record.response.responseId = record.payload
  marker : (record.response.responseId, ⟨record.response.identity, contentSha256 ⟨record.response, record.payload⟩⟩) ∈
    db.imports
  origin : (record.response.responseId, record.origin) ∈ db.origins
  baseline : (record.response.responseId, baselinePolicy record.origin) ∈ db.policies
  deliveries : ∀ p ∈ record.deliveries, (record.response.responseId, p) ∈ db.policies

/-- What the recipient gets of a saved response at the time `now`. -/
inductive Delivers (db : FeedTables J) (recipient : String) (row : ℕ × FeedHeader) (now : ℤ) : Option Delivery → Prop
  | live (live : Live db row.2.responseId) :
      Delivers db recipient row now (some ⟨projectFeedResponseNotification T (db.storedRow row).response, now⟩)
  | permitted {cutoff : Option String} {m : ImportMarker} (imported : (row.2.responseId, m) ∈ db.imports)
      (permits : Permits T db row.2.responseId recipient now cutoff) :
      Delivers db recipient row now (some ⟨projectFeedResponseNotification T
        { (db.storedRow row).response with dispatchBefore := some cutoff }, now⟩)
  | withheld {m : ImportMarker} (imported : (row.2.responseId, m) ∈ db.imports)
      (denies : ∀ cutoff, ¬Permits T db row.2.responseId recipient now cutoff) : Delivers db recipient row now none

/-- The page is made of all responses between the two sequences, each judged once. -/
structure PageOf (recipient : String) (after : ℕ) (db : FeedTables J) (page : FeedResponseDeliveryPage) : Prop where
  named : recipient ≠ "*"
  judged : ∃ judged : List ((ℕ × FeedHeader) × ℤ × Option Delivery),
    judged.map Prod.fst = db.responses.filter (fun row => after < row.1 ∧ row.1 ≤ page.nextSequence) ∧
    (∀ j ∈ judged, Delivers T db recipient j.1 j.2.1 j.2.2) ∧ page.responses = judged.filterMap fun j => j.2.2
  more : page.hasMore = true → ∃ row ∈ db.responses, page.nextSequence < row.1

/-- What a call that returned ok says of the world. -/
def Backed (w : FeedWorld J) : FeedReport J → Prop
  | .card card => card ∈ w.db.cards
  | .response header payload stored => Saved T w.db header payload stored
  | .handling handling => handling ∈ w.db.handlings
  | .restored records =>
    (∀ card ∈ records.cards, card ∈ w.db.cards) ∧ ∀ record ∈ records.responses, Restored contentSha256 w.db record
  | .page recipient after evidence page => evidence ∈ w.history ∧ PageOf T recipient after evidence page

structure FeedInv (w : FeedWorld J) : Prop where
  here : w.db ∈ w.history
  past : ∀ db ∈ w.history, TablesOk contentSha256 db ∧ Grows db w.db
  published : Published w.db
  reports : ∀ r ∈ w.reports, Backed T contentSha256 w r

/-- What any call may make of the world. -/
structure Moves (s t : FeedWorld J) : Prop where
  db : Grows s.db t.db
  history : s.history ⊆ t.history

def feed [DecidableEq J] : Protocol ℕ (FeedWorld J) (FeedOp J) (FeedOp.Res J) where
  exec _ o s r t := ∃ c, runOp c s o = some (r, t)
  inv := FeedInv T contentSha256
  rely _ := Moves
  guar _ := Moves
  compatible _ h := h

/-- What an operation that writes must bring along. -/
def Allowed (w : FeedWorld J) : FeedOp J → Prop
  | .insertResponse header _ => header.parses = true ∧ ∃ card ∈ w.db.cards, card.identity = header.identity ∧
      Answers w.db card header
  | .restore hash group => GroupOk group ∧ hash = contentSha256 group.content ∧
      group.content.response.parses = true ∧ ∃ card ∈ w.db.cards, card.identity = group.content.response.identity
  | .report r => Backed T contentSha256 w r
  | _ => True

end Invariant

section Operations

variable {J : Type} {T : Timestamps} {contentSha256 : RestoreContent J → String} {db db' : FeedTables J}
  {s t u : FeedWorld J}

lemma Moves.refl (s : FeedWorld J) : Moves s s := ⟨.refl _, List.Subset.refl _⟩

lemma Moves.trans (h : Moves s t) (h' : Moves t u) : Moves s u := ⟨h.db.trans h'.db, List.Subset.trans h.history h'.history⟩

lemma Answers.mono {card : FeedCard J} {header : FeedHeader} (h : Answers db card header) (hg : Grows db db') :
    Answers db' card header := by
  refine ⟨h.actionable, h.choice, fun hk previous hp => ?_⟩
  obtain ⟨row, hrow, hid, hidentity⟩ := h.corrects hk previous hp
  exact ⟨row, hg.responses.subset hrow, hid, hidentity⟩

lemma Supported.mono {header : FeedHeader} (h : Supported db header) (hg : Grows db db') : Supported db' header := by
  obtain ⟨hparses, card, hcard, hidentity, hwhy⟩ := h
  refine ⟨hparses, card, hg.cards.subset hcard, hidentity, ?_⟩
  rcases hwhy with ⟨m, hm⟩ | hanswers
  · exact .inl ⟨m, hg.imports.subset hm⟩
  · exact .inr (hanswers.mono hg)

lemma storedRow_eq {row : ℕ × FeedHeader} (hrow : row ∈ db.responses) (hg : Grows db db') :
    db'.storedRow row = db.storedRow row := by
  simp only [FeedTables.storedRow, hg.payload row hrow]

lemma Saved.mono {header : FeedHeader} {payload : Option (FeedResponsePayload J)} {r : FeedResponse}
    (h : Saved T db header payload r) (hg : Grows db db') : Saved T db' header payload r := by
  obtain ⟨sequence, hrow, hpayload, rfl⟩ := h
  refine ⟨sequence, hg.responses.subset hrow, (hg.payload _ hrow).trans hpayload, ?_⟩
  rw [storedRow_eq hrow hg]

lemma Restored.mono {record : FeedRestoreResponse J} (h : Restored contentSha256 db record) (hg : Grows db db') :
    Restored contentSha256 db' record := by
  obtain ⟨sequence, hrow⟩ := h.header
  exact ⟨⟨sequence, hg.responses.subset hrow⟩, (hg.payload _ hrow).trans h.payload, hg.imports.subset h.marker,
    hg.origins.subset h.origin, hg.policies.subset h.baseline, fun p hp => hg.policies.subset (h.deliveries p hp)⟩

lemma Backed.mono {r : FeedReport J} (h : Backed T contentSha256 s r) (hm : Moves s t) :
    Backed T contentSha256 t r := by
  cases r with
  | card card => exact hm.db.cards.subset h
  | response header payload stored => exact Saved.mono h hm.db
  | handling handling => exact hm.db.handlings.subset h
  | restored records => exact ⟨fun card hc => hm.db.cards.subset (h.1 card hc), fun r hr => (h.2 r hr).mono hm.db⟩
  | page recipient after evidence page => exact ⟨hm.history h.1, h.2⟩

lemma FeedInv.tables (hi : FeedInv T contentSha256 s) : TablesOk contentSha256 s.db := (hi.past _ hi.here).1

/-- New tables that grew out of the last ones. -/
lemma put_moves (hi : FeedInv T contentSha256 s) (hok : TablesOk contentSha256 db) (hg : Grows s.db db)
    (hp : Published db) : FeedInv T contentSha256 (s.put db) ∧ Moves s (s.put db) := by
  have hm : Moves s (s.put db) := ⟨hg, List.subset_cons_self _ _⟩
  refine ⟨⟨List.mem_cons_self, ?_, hp, fun r hr => (hi.reports r hr).mono hm⟩, hm⟩
  intro old hold
  rcases List.mem_cons.mp hold with rfl | hold
  · exact ⟨hok, .refl _⟩
  · exact ⟨(hi.past old hold).1, (hi.past old hold).2.trans hg⟩

lemma write_moves {c : FeedOutcome} {r : Option Unit} {result : Option (FeedTables J)}
    (hi : FeedInv T contentSha256 s) (h : s.write c result = (r, t))
    (hresult : ∀ db, result = some db → TablesOk contentSha256 db ∧ Grows s.db db ∧ Published db) :
    FeedInv T contentSha256 t ∧ Moves s t := by
  cases result with
  | none =>
    cases h
    exact ⟨hi, .refl _⟩
  | some db =>
    obtain ⟨hok, hg, hp⟩ := hresult db rfl
    have hput := put_moves hi hok hg hp
    simp only [FeedWorld.write] at h
    split_ifs at h
    · cases h
      exact hput
    · cases h
      exact ⟨hi, .refl _⟩
    · cases h
      exact hput

lemma Published.mono (h : Published db) (hg : Grows db db')
    (hnew : ∀ row ∈ db'.responses, row ∈ db.responses ∨ Supported db' row.2) : Published db' := by
  intro row hrow
  rcases hnew row hrow with hold | hsupported
  · exact (h row hold).mono hg
  · exact hsupported

variable [DecidableEq J] (hsha : ∀ header p, contentSha256 ⟨header, none⟩ ≠ contentSha256 ⟨header, some p⟩)
include hsha

/-- An operation keeps the invariant and adds to the tables only. -/
lemma runOp_moves {c : FeedOutcome} {o : FeedOp J} {r : Option (o.Res J)} (hi : FeedInv T contentSha256 s)
    (ho : Allowed T contentSha256 s o) (h : runOp c s o = some (r, t)) :
    FeedInv T contentSha256 t ∧ Moves s t := by
  have hok := hi.tables
  cases o with
  | insertCard card =>
    refine write_moves hi (Option.some.inj h) fun db hdb => ?_
    obtain ⟨htables, hg⟩ := insertCard_ok hok hdb
    refine ⟨htables, hg, hi.published.mono hg fun row hrow => .inl ?_⟩
    rcases insertCard_some hdb with rfl | ⟨rfl, -⟩ <;> exact hrow
  | insertHandling handling =>
    refine write_moves hi (Option.some.inj h) fun db hdb => ?_
    cases hdb
    obtain ⟨htables, hg⟩ := insertHandling_ok handling hok
    refine ⟨htables, hg, hi.published.mono hg fun row hrow => .inl ?_⟩
    rcases insertHandling_cases s.db handling with he | ⟨he, -⟩ <;> rw [he] at hrow <;> exact hrow
  | insertResponse header payload =>
    simp only [runOp] at h
    split_ifs at h with hfresh
    refine write_moves hi (Option.some.inj h) fun db hdb => ?_
    obtain ⟨htables, hg⟩ := insertResponse_ok hok hfresh hdb
    refine ⟨htables, hg, hi.published.mono hg fun row hrow => ?_⟩
    obtain ⟨-, rfl⟩ := insertResponse_some hdb
    rcases List.mem_append.mp hrow with hrow | hrow
    · exact .inl hrow
    · obtain ⟨hparses, card, hcard, hidentity, hanswers⟩ := ho
      rw [List.mem_singleton.mp hrow]
      exact .inr ⟨hparses, card, hg.cards.subset hcard, hidentity, .inr (hanswers.mono hg)⟩
  | restore hash group =>
    simp only [runOp] at h
    split_ifs at h with hfresh
    refine write_moves hi (Option.some.inj h) fun db hdb => ?_
    obtain ⟨hgroup, rfl, hparses, card, hcard, hidentity⟩ := ho
    obtain ⟨htables, hg⟩ := restoreBatch_ok hok hsha hgroup hfresh hdb
    refine ⟨htables, hg, hi.published.mono hg fun row hrow => ?_⟩
    obtain ⟨base, hbase, hadds, hcommitted⟩ := restoreBatch_some hok hsha hdb
    rw [hadds.responses] at hrow
    rcases hbase with rfl | ⟨rfl, -⟩
    · exact .inl hrow
    · rcases List.mem_append.mp hrow with hrow | hrow
      · exact .inl hrow
      · rw [List.mem_singleton.mp hrow]
        exact .inr ⟨hparses, card, hg.cards.subset hcard, hidentity, .inl ⟨_, hcommitted.marker⟩⟩
  | report r =>
    cases h
    refine ⟨⟨hi.here, hi.past, hi.published, List.forall_mem_cons.mpr ⟨?_, ?_⟩⟩, .refl _, List.Subset.refl _⟩
    · exact Backed.mono ho ⟨.refl _, List.Subset.refl _⟩
    · exact fun r hr => (hi.reports r hr).mono ⟨.refl _, List.Subset.refl _⟩
  | _ =>
    cases h
    exact ⟨hi, .refl _⟩

end Operations

section Calls

variable {J : Type} [DecidableEq J] {T : Timestamps} {contentSha256 : RestoreContent J → String} {x : ℕ}
  {P : FeedWorld J → Prop} {α : Type}

/-- From a world with `P`, a call runs to a result with `Q`, or fails. -/
abbrev Steps (T : Timestamps) (contentSha256 : RestoreContent J → String) (x : ℕ) (P : FeedWorld J → Prop)
    (m : FeedCode J α) (Q : α → FeedWorld J → Prop) : Prop :=
  (feed T contentSha256).Spec x P m Q fun _ _ => True

/-- What was read from the tables at some time since `P` holds. -/
def Seen (T : Timestamps) (contentSha256 : RestoreContent J → String) (P : FeedWorld J → Prop) {β : Type}
    (f : FeedTables J → β) (b : β) (s : FeedWorld J) : Prop :=
  P s ∧ ∃ w, FeedInv T contentSha256 w ∧ P w ∧ b = f w.db ∧ Moves w s

lemma stable_and {P' : FeedWorld J → Prop} (hP : (feed T contentSha256).Stable x P)
    (hP' : (feed T contentSha256).Stable x P') : (feed T contentSha256).Stable x fun s => P s ∧ P' s :=
  Protocol.Stable.and hP hP'

lemma stable_seen {β : Type} {f : FeedTables J → β} {b : β} (hP : (feed T contentSha256).Stable x P) :
    (feed T contentSha256).Stable x (Seen T contentSha256 P f b) := by
  rintro s t ⟨hs, w, hi, hw, hb, hm⟩ hr
  exact ⟨hP s t hs hr, w, hi, hw, hb, hm.trans hr⟩

lemma refuse_steps {message : String} {Q : α → FeedWorld J → Prop} :
    Steps T contentSha256 x P (refuse message) Q := .throw fun _ _ _ => trivial

lemma throw_steps {e : FeedError} {Q : α → FeedWorld J → Prop} : Steps T contentSha256 x P (throw e) Q :=
  .throw fun _ _ _ => trivial

lemma checked_steps {e : FeedError} {v : Option α} :
    Steps T contentSha256 x P (checked e v) fun a s => v = some a ∧ P s := by
  cases v with
  | none => exact throw_steps
  | some a => exact .pure fun s _ hs => ⟨rfl, hs⟩

variable (hsha : ∀ header p, contentSha256 ⟨header, none⟩ ≠ contentSha256 ⟨header, some p⟩)
  (hP : (feed T contentSha256).Stable x P)
include hsha hP

lemma ask_spec {e : FeedError} {o : FeedOp J}
    (ho : ∀ s, FeedInv T contentSha256 s → P s → Allowed T contentSha256 s o) :
    (feed T contentSha256).Spec x P (ask e o) (fun _ => P) fun _ => P := by
  refine .perform (fun _ => hP) hP ?_
  rintro s hi hs r t ⟨c, hr⟩
  obtain ⟨hi', hm⟩ := runOp_moves hsha hi (ho s hi hs) hr
  refine ⟨hi', hm, ?_⟩
  cases r <;> exact hP s t hs hm

lemma ask_steps {e : FeedError} {o : FeedOp J}
    (ho : ∀ s, FeedInv T contentSha256 s → P s → Allowed T contentSha256 s o) :
    Steps T contentSha256 x P (ask e o) fun _ => P :=
  (ask_spec hsha hP ho).mono (fun _ _ h => h) (fun _ _ _ h => h) fun _ _ _ _ => trivial

/-- A write whose failure is looked into later. -/
lemma try_steps {e : FeedError} {o : FeedOp J}
    (ho : ∀ s, FeedInv T contentSha256 s → P s → Allowed T contentSha256 s o) :
    Steps T contentSha256 x P (tryCatch (do let _ ← ask e o; pure false) fun _ => pure true) fun _ => P := by
  refine .tryCatch (G := fun _ => P) (.bind (ask_spec hsha hP ho) fun _ => .pure fun _ _ h => h) fun _ => ?_
  exact .pure fun _ _ h => h

omit hsha in
lemma read_steps {e : FeedError} (o : FeedOp J) (f : FeedTables J → o.Res J)
    (ho : ∀ c w, runOp c w o = some (w.read c (f w.db))) :
    Steps T contentSha256 x P (ask e o) (Seen T contentSha256 P f) := by
  refine .perform (fun _ => stable_seen hP) (Protocol.Stable.const (p := True)) ?_
  rintro s hi hs r t ⟨c, hr⟩
  rw [ho, Option.some.injEq, FeedWorld.read, Prod.mk.injEq] at hr
  obtain ⟨rfl, rfl⟩ := hr
  refine ⟨hi, .refl _, ?_⟩
  split_ifs
  · trivial
  · exact ⟨hs, s, hi, hs, rfl, .refl _⟩

lemma signal_steps {stop : FeedError} : Steps T contentSha256 x P (stopIfAborted stop) fun _ => P := by
  refine .bind (ask_steps hsha hP fun _ _ _ => trivial) fun aborted => ?_
  cases (aborted : Bool) with
  | true => exact throw_steps
  | false => exact .pure fun _ _ h => h

lemma storeFeedCard_steps {card : FeedCard J} :
    Steps T contentSha256 x P (storeFeedCard card) fun stored s => stored = card ∧ P s ∧ card ∈ s.db.cards := by
  refine .ite (fun _ => refuse_steps) fun _ => ?_
  refine .bind (ask_steps hsha hP fun _ _ _ => trivial) fun _ => ?_
  refine .bind (read_steps hP (.selectCard card.identity) (·.selectCard card.identity) fun _ _ => rfl) fun found => ?_
  cases (found : Option (FeedCard J)) with
  | none => exact refuse_steps
  | some stored =>
    refine .ite (fun _ => refuse_steps) fun he => .pure fun s _ hs => ?_
    obtain ⟨hs, w, -, -, hread, hm⟩ := hs
    rw [not_not] at he
    subst he
    exact ⟨rfl, hs, hm.db.cards.subset (List.mem_of_find?_eq_some hread.symm)⟩

omit hsha in
lemma checkActionable_steps {header : FeedHeader} {card : FeedCard J} :
    Steps T contentSha256 x P (checkActionable header card) fun _ s => P s ∧ Answers s.db card header := by
  refine .ite (fun hk => .pure fun s _ hs => ⟨hs, absurd hk, absurd hk, absurd hk⟩) fun _ => ?_
  refine .ite (fun _ => refuse_steps) fun hneeds => ?_
  refine .ite (fun _ => refuse_steps) fun hchoice => ?_
  have hneeds' : card.needsResponse = true := by simpa using hneeds
  have hchoice' : ∀ id, header.choiceId = some id →
      ∃ choices, card.choices = some choices ∧ ∃ c ∈ choices, c.id = id := by
    intro id hid
    rw [hid] at hchoice
    simpa [Option.any_eq_true] using hchoice
  cases hprevious : header.supersedesResponseId with
  | none =>
    refine .pure fun s _ hs => ⟨hs, fun _ => hneeds', fun _ => hchoice', fun _ previous hp => ?_⟩
    rw [hprevious] at hp
    cases hp
  | some previous =>
    refine .bind (read_steps hP (.selectHeader previous) (·.selectHeader previous) fun _ _ => rfl) fun row => ?_
    refine .ite (fun _ => refuse_steps) fun hrow => .pure fun s _ hs => ?_
    obtain ⟨hs, w, -, -, hread, hm⟩ := hs
    refine ⟨hs, fun _ => hneeds', fun _ => hchoice', fun _ id hid => ?_⟩
    rw [hprevious, Option.some.injEq] at hid
    subst hid
    cases hfound : (row : Option (ℕ × FeedHeader)) with
    | none =>
      rw [hfound] at hrow
      exact absurd rfl hrow
    | some found =>
      rw [hfound] at hrow hread
      obtain ⟨hmem, hid⟩ := selectHeader_some hread.symm
      exact ⟨found, hm.db.responses.subset hmem, hid, by simpa using hrow⟩

omit [DecidableEq J] hsha hP in
/-- A stored response that matches is what the caller asked to save. -/
lemma saved_of_seen {header : FeedHeader} {payload : Option (FeedResponsePayload J)} {stored : StoredResponse J}
    {s : FeedWorld J} (h : Seen T contentSha256 P (fun db => db.selectResponse header.responseId) (some stored) s)
    (hheader : stored.response.header = header) (hpayload : stored.payload = payload) :
    Saved T s.db header payload (projectFeedResponseNotification T stored.response) := by
  obtain ⟨-, w, -, -, hread, hm⟩ := h
  obtain ⟨⟨sequence, found⟩, hfound, rfl⟩ := Option.map_eq_some_iff.mp hread.symm
  obtain ⟨hmem, -⟩ := selectHeader_some hfound
  obtain rfl : found = header := hheader
  exact Saved.mono ⟨sequence, hmem, hpayload, rfl⟩ hm.db

omit hsha hP in
lemma matchStored_steps {header : FeedHeader} {payload : Option (FeedResponsePayload J)} {stored : StoredResponse J} :
    Steps T contentSha256 x (Seen T contentSha256 P (fun db => db.selectResponse header.responseId) (some stored))
      (matchStored T header payload stored) fun r s => Saved T s.db header payload r := by
  refine .ite (fun he => .pure fun s _ hs => ?_) fun _ => refuse_steps
  exact saved_of_seen hs he.1 he.2

lemma saveResponse_steps {header : FeedHeader} {payload : Option (FeedResponsePayload J)}
    (ha : ∀ s, FeedInv T contentSha256 s → P s → Allowed T contentSha256 s (.insertResponse header payload)) :
    Steps T contentSha256 x P (saveResponse T header payload) fun r s => Saved T s.db header payload r := by
  refine .bind (try_steps hsha hP ha) fun failed => ?_
  refine .bind (read_steps hP (.selectResponse header.responseId) (·.selectResponse header.responseId)
    fun _ _ => rfl) fun found => ?_
  cases (found : Option (StoredResponse J)) with
  | none => exact throw_steps
  | some committed => exact matchStored_steps

lemma appendResponse_steps {header : FeedHeader} {payload : Option (FeedResponsePayload J)}
    (hparses : header.parses = true) :
    Steps T contentSha256 x P (appendResponse T header payload) fun r s => Saved T s.db header payload r := by
  refine .ite (fun _ => refuse_steps) fun _ => ?_
  refine .bind (read_steps hP (.selectCard header.identity) (·.selectCard header.identity)
    fun _ _ => rfl) fun found => ?_
  cases (found : Option (FeedCard J)) with
  | none => exact refuse_steps
  | some card =>
    refine .ite (fun _ => refuse_steps) fun hidentity => ?_
    have hseen := stable_seen (f := fun db => db.selectCard header.identity) (b := some card) hP
    refine .bind (checkActionable_steps hseen) fun _ => ?_
    have hanswers : (feed T contentSha256).Stable x fun s =>
        Seen T contentSha256 P (fun db => db.selectCard header.identity) (some card) s ∧ Answers s.db card header :=
      stable_and hseen fun s t h hm => h.mono hm.db
    refine .bind (read_steps hanswers (.selectResponse header.responseId) (·.selectResponse header.responseId)
      fun _ _ => rfl) fun existing => ?_
    cases (existing : Option (StoredResponse J)) with
    | some existing => exact matchStored_steps
    | none =>
      refine (saveResponse_steps hsha hanswers fun s _ hs => ⟨hparses, card, ?_, not_not.mp hidentity, hs.2⟩).mono
        (fun s _ hs => hs.1) (fun _ _ _ h => h) fun _ _ _ h => h
      obtain ⟨⟨-, w, -, -, hread, hm⟩, -⟩ := hs
      exact hm.db.cards.subset (List.mem_of_find?_eq_some hread.symm)

lemma recordFeedHandling_steps {handling : FeedHandling J} :
    Steps T contentSha256 x P (recordFeedHandling handling) fun stored s =>
      stored = handling ∧ handling ∈ s.db.handlings := by
  refine .ite (fun _ => refuse_steps) fun _ => ?_
  refine .bind (read_steps hP (.selectHandlings handling.responseId) (·.selectHandlings handling.responseId)
    fun _ _ => rfl) fun previous => .ite (fun _ => refuse_steps) fun _ => ?_
  split
  · rename_i duplicate hfound
    refine .ite (fun he => .pure fun s _ hs => ⟨he, ?_⟩) fun _ => refuse_steps
    obtain ⟨-, w, -, -, rfl, hm⟩ := hs
    subst he
    exact hm.db.handlings.subset (List.mem_filter.mp (List.mem_of_find?_eq_some hfound)).1
  · refine .ite (fun _ => refuse_steps) fun _ => ?_
    refine .bind (ask_steps hsha (stable_seen hP) fun _ _ _ => trivial) fun _ => ?_
    refine .bind (read_steps (stable_seen hP) (.selectHandling handling.handlingId)
      (·.selectHandling handling.handlingId) fun _ _ => rfl) fun found => ?_
    cases (found : Option (FeedHandling J)) with
    | none => exact refuse_steps
    | some stored =>
      refine .ite (fun he => .pure fun s _ hs => ⟨he, ?_⟩) fun _ => refuse_steps
      obtain ⟨-, w, -, -, hread, hm⟩ := hs
      subst he
      exact hm.db.handlings.subset (List.mem_of_find?_eq_some hread.symm)

end Calls

section Restores

variable {J : Type} [DecidableEq J] {T : Timestamps} {contentSha256 : RestoreContent J → String} {x : ℕ}
  {P : FeedWorld J → Prop}
  (hsha : ∀ header p, contentSha256 ⟨header, none⟩ ≠ contentSha256 ⟨header, some p⟩)
  (hP : (feed T contentSha256).Stable x P)
include hsha hP

lemma readRestoreMetadata_steps {stop : FeedError} {responseIds : List String} :
    Steps T contentSha256 x P (readRestoreMetadata T stop responseIds) (Seen T contentSha256 P id) := by
  refine .bind (signal_steps hsha hP) fun _ => ?_
  refine .bind (read_steps hP .selectMetadata id fun _ _ => rfl) fun db => ?_
  refine .bind (signal_steps hsha (stable_seen hP)) fun _ => ?_
  exact .ite (fun _ => .pure fun _ _ hs => hs) fun _ => throw_steps

omit hsha hP in
lemma checkPrevious_steps {group : RestoreGroup J} {hash : String} {previous : Option (StoredResponse J)}
    {before : RestoreMetadata} :
    Steps T contentSha256 x P (checkPrevious group hash previous before) fun _ => P := by
  cases previous with
  | none => exact .ite (fun _ => refuse_steps) fun _ => .pure fun _ _ hs => hs
  | some stored =>
    refine .bind checked_steps fun verified => ?_
    refine .ite (fun _ => refuse_steps) fun _ => .ite (fun _ => refuse_steps) fun _ => ?_
    exact .ite (fun _ => refuse_steps) fun _ => .pure fun _ _ hs => hs.2

/-- What is stored after a batch, where it passes the last check. -/
structure Confirmed (group : RestoreGroup J) (hash : String) (stored : StoredResponse J) (actual : RestoreMetadata) :
    Prop where
  header : stored.response.header = group.content.response
  payload : stored.payload = group.content.payload
  marker : actual.marker = some ⟨group.content.response.identity, hash⟩
  evidence : ∀ e ∈ group.origins, e.origin ∈ actual.origins ∧ baselinePolicy e.origin ∈ actual.policies ∧
    ∀ p ∈ e.policies, p ∈ actual.policies

omit hsha hP in
lemma checkRestored_steps {group : RestoreGroup J} {hash : String} {failed : Bool} {stored : StoredResponse J}
    {actual : RestoreMetadata} : Steps T contentSha256 x P (checkRestored group hash failed stored actual)
      fun _ s => P s ∧ Confirmed group hash stored actual := by
  refine .bind checked_steps fun verified => ?_
  refine .ite (fun _ => refuse_steps) fun hmatch => .ite (fun _ => .ite (fun _ => throw_steps) fun _ => refuse_steps)
    fun horigins => .ite (fun _ => throw_steps) fun hpolicies => .pure fun s _ hs => ⟨hs.2, ?_⟩
  simp only [Bool.or_eq_true, Bool.not_eq_true', decide_eq_true_eq, not_or, not_not, Bool.not_eq_false] at hmatch
  obtain ⟨⟨hverified, hheader⟩, hpayload⟩ := hmatch
  rw [hverified] at hs
  obtain ⟨marker, hmarker, hidentity, hhash⟩ := verified_restored hs.1
  have hhash' : marker.contentSha256 = hash := by simpa using hhash
  refine ⟨hheader, hpayload, by rw [hmarker, ← hidentity, ← hhash'], fun e he => ?_⟩
  simp only [List.any_eq_true, not_exists, not_and, Bool.not_eq_true, Bool.not_eq_false', Bool.and_eq_true,
    List.contains_iff_mem] at horigins hpolicies
  obtain ⟨horigin, hbaseline⟩ := horigins e he
  exact ⟨horigin, hbaseline, fun p hp => hpolicies e he p hp⟩

/-- All that the records of the group say is stored. -/
def GroupStored (contentSha256 : RestoreContent J → String) (group : RestoreGroup J) (db : FeedTables J) : Prop :=
  ∀ record, Covers record group → Restored contentSha256 db record

omit hsha in
lemma stable_groupStored {group : RestoreGroup J} : (feed T contentSha256).Stable x fun s =>
    P s ∧ GroupStored contentSha256 group s.db :=
  stable_and hP fun _ _ h hm record hc => (h record hc).mono hm.db

omit [DecidableEq J] hsha hP in
/-- What was read after the batch is stored still. -/
lemma groupStored_of_confirmed {group : RestoreGroup J} {stored : StoredResponse J} {actual : FeedTables J}
    {s : FeedWorld J}
    (h : Seen T contentSha256 (Seen T contentSha256 P (·.selectResponse group.content.id) (some stored)) id actual s)
    (hc : Confirmed group (contentSha256 group.content) stored (metadataOf actual group.content.id)) :
    GroupStored contentSha256 group s.db := by
  obtain ⟨⟨-, w, -, -, hread, hm⟩, w', -, -, rfl, hm'⟩ := h
  obtain ⟨⟨sequence, header⟩, hfound, rfl⟩ := Option.map_eq_some_iff.mp hread.symm
  obtain ⟨hmem, hid⟩ := selectHeader_some hfound
  obtain rfl : header = group.content.response := hc.header
  intro record hcovers
  obtain ⟨e, he, horigin, hdeliveries⟩ := hcovers.evidence
  obtain ⟨ho, hbaseline, hpolicies⟩ := hc.evidence e he
  rw [metadataOf_origins] at ho
  have hresponse : group.content.response = record.response := by rw [hcovers.content]
  have hpayload : group.content.payload = record.payload := by rw [hcovers.content]
  have hkey : group.content.id = record.response.responseId := by rw [RestoreContent.id, hresponse]
  rw [horigin] at ho hbaseline
  refine ⟨⟨sequence, ?_⟩, ?_, ?_, ?_, ?_, fun p hp => ?_⟩
  · rw [← hresponse]
    exact hm.db.responses.subset hmem
  · rw [← hpayload, ← hresponse, hm.db.payload _ hmem]
    exact hc.payload
  · have hmarker := metadataOf_marker hc.marker
    rw [hkey, hresponse, hcovers.content] at hmarker
    exact hm'.db.imports.subset hmarker
  · rw [← hkey]
    exact hm'.db.origins.subset ho
  · rw [← hkey]
    exact hm'.db.policies.subset (metadataOf_policies.mp hbaseline)
  · rw [← hkey]
    exact hm'.db.policies.subset (metadataOf_policies.mp (hpolicies p (hdeliveries p hp)))

lemma saveGroup_steps {group : RestoreGroup J}
    (ha : ∀ s, FeedInv T contentSha256 s → P s →
      Allowed T contentSha256 s (.restore (contentSha256 group.content) group)) :
    Steps T contentSha256 x P (saveGroup T group (contentSha256 group.content))
      fun _ s => GroupStored contentSha256 group s.db := by
  refine .bind (try_steps hsha hP ha) fun failed => ?_
  refine .bind (signal_steps hsha hP) fun _ => ?_
  refine .bind (read_steps hP (.selectResponse group.content.id) (·.selectResponse group.content.id) fun _ _ => rfl)
    fun found => ?_
  refine .bind (readRestoreMetadata_steps hsha (stable_seen hP)) fun actual => ?_
  cases (found : Option (StoredResponse J)) with
  | none => exact throw_steps
  | some stored =>
    refine .bind checkRestored_steps fun _ => ?_
    have hseen := stable_seen (f := id) (b := actual) (stable_seen (f := (·.selectResponse group.content.id))
      (b := some stored) hP)
    refine (signal_steps hsha (stable_and hseen (Protocol.Stable.const (p := Confirmed group
      (contentSha256 group.content) stored (metadataOf actual group.content.id))))).mono (fun _ _ h => h) ?_
      fun _ _ _ h => h
    exact fun _ s _ hs => groupStored_of_confirmed hs.1 hs.2

lemma restoreGroup_steps {group : RestoreGroup J} (hgroup : GroupOk group)
    (hparses : group.content.response.parses = true) :
    Steps T contentSha256 x P (restoreGroup T contentSha256 group)
      fun _ s => P s ∧ GroupStored contentSha256 group s.db := by
  refine .bind (read_steps hP (.selectCard group.content.response.identity)
    (·.selectCard group.content.response.identity) fun _ _ => rfl) fun found => ?_
  have hseen := stable_seen (f := (·.selectCard group.content.response.identity)) (b := found) hP
  refine .bind (signal_steps hsha hseen) fun _ => .ite (fun _ => refuse_steps) fun hcard => ?_
  refine .bind (signal_steps hsha hseen) fun _ => ?_
  refine .bind (read_steps hseen (.selectResponse group.content.id) (·.selectResponse group.content.id)
    fun _ _ => rfl) fun previous => ?_
  refine .bind (readRestoreMetadata_steps hsha (stable_seen hseen)) fun before => ?_
  refine .bind checkPrevious_steps fun _ => ?_
  have hall := stable_seen (f := id) (b := before) (stable_seen (f := (·.selectResponse group.content.id))
    (b := previous) hseen)
  refine .bind (signal_steps hsha hall) fun _ => ?_
  have hframe := Protocol.Spec.frame (saveGroup_steps hsha hall fun s _ hs => ⟨hgroup, rfl, hparses, ?_⟩) hP
    fun s t h hm => hP s t h hm
  · exact hframe.mono (fun s _ hs => ⟨hs, hs.1.1.1⟩) (fun _ s _ hs => ⟨hs.2, hs.1⟩) fun _ _ _ h => h
  · obtain ⟨⟨⟨-, w, -, -, hread, hm⟩, -⟩, -⟩ := hs
    cases hfound : (found : Option (FeedCard J)) with
    | none =>
      rw [hfound] at hcard
      exact absurd rfl hcard
    | some card =>
      rw [hfound] at hcard hread
      exact ⟨card, hm.db.cards.subset (List.mem_of_find?_eq_some hread.symm), by simpa using hcard⟩

lemma restoreCards_steps {cards : List (FeedCard J)} : Steps T contentSha256 x P (restoreCards cards)
    fun _ s => P s ∧ ∀ card ∈ cards, card ∈ s.db.cards := by
  induction cards generalizing P with
  | nil => exact .pure fun s _ hs => ⟨hs, List.forall_mem_nil _⟩
  | cons card rest ih =>
    refine .bind (signal_steps hsha hP) fun _ => ?_
    have hcard : (feed T contentSha256).Stable x fun s => P s ∧ card ∈ s.db.cards :=
      stable_and hP fun _ _ h hm => hm.db.cards.subset h
    refine .bind (.tryCatch (G := fun _ _ => True) (storeFeedCard_steps hsha hP) fun _ => throw_steps) fun stored => ?_
    refine (ih hcard).mono (fun s _ hs => hs.2) (fun _ s _ hs => ⟨hs.1.1, ?_⟩) fun _ _ _ h => h
    exact List.forall_mem_cons.mpr ⟨hs.1.2, hs.2⟩

lemma restoreGroups_steps {groups : List (RestoreGroup J)}
    (hgroups : ∀ group ∈ groups, GroupOk group ∧ group.content.response.parses = true) :
    Steps T contentSha256 x P (restoreGroups T contentSha256 groups)
      fun _ s => P s ∧ ∀ group ∈ groups, GroupStored contentSha256 group s.db := by
  induction groups generalizing P with
  | nil => exact .pure fun s _ hs => ⟨hs, List.forall_mem_nil _⟩
  | cons group rest ih =>
    obtain ⟨hfirst, hrest⟩ := List.forall_mem_cons.mp hgroups
    refine .bind (signal_steps hsha hP) fun _ => .bind (restoreGroup_steps hsha hP hfirst.1 hfirst.2) fun _ => ?_
    refine (ih (stable_groupStored hP) hrest).mono (fun s _ hs => hs) (fun _ s _ hs => ⟨hs.1.1, ?_⟩) fun _ _ _ h => h
    exact List.forall_mem_cons.mpr ⟨hs.1.2, hs.2⟩

lemma restoreFeedRecords_steps {records : FeedRestoreRecords J} :
    Steps T contentSha256 x P (restoreFeedRecords T contentSha256 records) fun _ s =>
      (∀ card ∈ records.cards, card ∈ s.db.cards) ∧
      ∀ record ∈ records.responses, Restored contentSha256 s.db record := by
  refine .bind (signal_steps hsha hP) fun _ => .ite (fun _ => throw_steps) fun _ => ?_
  cases hgroups : groupRecords T records.responses with
  | error e => exact throw_steps
  | ok groups =>
    obtain ⟨hcovers, hok⟩ := groupRecords_ok hgroups
    have hcards : (feed T contentSha256).Stable x fun s => P s ∧ ∀ card ∈ records.cards, card ∈ s.db.cards :=
      stable_and hP fun _ _ h hm card hc => hm.db.cards.subset (h card hc)
    have hstored : (feed T contentSha256).Stable x fun s => (P s ∧ ∀ card ∈ records.cards, card ∈ s.db.cards) ∧
        ∀ group ∈ groups, GroupStored contentSha256 group s.db :=
      stable_and hcards fun _ _ h hm group hg record hc => (h group hg record hc).mono hm.db
    refine .bind (restoreCards_steps hsha hP) fun _ => .bind (restoreGroups_steps hsha hcards hok) fun _ => ?_
    refine (signal_steps hsha hstored).mono (fun _ _ h => h) (fun _ s _ hs => ⟨hs.1.2, fun record hrecord => ?_⟩)
      fun _ _ _ h => h
    obtain ⟨group, hgroup, hcover⟩ := hcovers record hrecord
    exact hs.2 group hgroup record hcover

end Restores

section Pages

variable {J : Type} [DecidableEq J] {T : Timestamps} {contentSha256 : RestoreContent J → String} {x : ℕ}
  {P : FeedWorld J → Prop}

/-- Rows of the tables with what the recipient gets of each. -/
def Judged (T : Timestamps) (evidence : FeedTables J) (recipient : String) (rows : List (ℕ × FeedHeader))
    (deliveries : List Delivery) : Prop :=
  ∃ judged : List ((ℕ × FeedHeader) × ℤ × Option Delivery), judged.map Prod.fst = rows ∧
    (∀ j ∈ judged, Delivers T evidence recipient j.1 j.2.1 j.2.2) ∧ deliveries = judged.filterMap fun j => j.2.2

omit [DecidableEq J] in
lemma Judged.cons {evidence : FeedTables J} {recipient : String} {row : ℕ × FeedHeader}
    {rows : List (ℕ × FeedHeader)} {deliveries : List Delivery} (h : Judged T evidence recipient rows deliveries)
    {now : ℤ} {d : Option Delivery} (hd : Delivers T evidence recipient row now d) :
    Judged T evidence recipient (row :: rows) (d.toList ++ deliveries) := by
  obtain ⟨judged, hrows, hall, rfl⟩ := h
  refine ⟨(row, now, d) :: judged, by rw [List.map_cons, hrows], List.forall_mem_cons.mpr ⟨hd, hall⟩, ?_⟩
  cases d <;> simp

variable (hsha : ∀ header p, contentSha256 ⟨header, none⟩ ≠ contentSha256 ⟨header, some p⟩)
  (hP : (feed T contentSha256).Stable x P)
include hsha hP

lemma deliveriesOf_steps {evidence : FeedTables J} {recipient : String} {rows : List (ℕ × FeedHeader)}
    (hrows : ∀ row ∈ rows, row ∈ evidence.responses) :
    Steps T contentSha256 x P (deliveriesOf T contentSha256 recipient evidence (rows.map evidence.storedRow))
      fun deliveries s => P s ∧ Judged T evidence recipient rows deliveries := by
  induction rows with
  | nil => exact .pure fun s _ hs => ⟨hs, [], rfl, List.forall_mem_nil _, rfl⟩
  | cons row rows ih =>
    obtain ⟨hrow, hrest⟩ := List.forall_mem_cons.mp hrows
    refine .bind (ask_steps hsha hP fun _ _ _ => trivial) fun now => ?_
    refine .bind checked_steps fun verified => .of_and fun hverified => ?_
    refine .ite (fun hlive => ?_) fun hrestored => ?_
    · obtain rfl : verified = false := by simpa using hlive
      refine .bind (ih hrest) fun more => .pure fun s _ hs => ⟨hs.1, hs.2.cons (.live ⟨⟨row, hrow, rfl⟩, ?_⟩)⟩
      exact metadataOf_no_marker (verified_live hverified)
    · obtain rfl : verified = true := by simpa using hrestored
      obtain ⟨marker, hmarker, -⟩ := verified_restored hverified
      have himport := metadataOf_marker hmarker
      refine .bind (signal_steps hsha hP) fun _ => .bind checked_steps fun _ => .of_and fun _ => ?_
      refine .bind (ih hrest) fun more => ?_
      cases hdeadline : permittedDeadline T (metadataOf evidence (evidence.storedRow row).response.header.responseId)
          recipient now with
      | none =>
        have hdenies : ∀ cutoff, ¬Permits T evidence row.2.responseId recipient now cutoff := fun cutoff hpermits =>
          Option.some_ne_none cutoff ((permittedDeadline_iff.mpr hpermits).symm.trans hdeadline)
        exact .pure fun s _ hs => ⟨hs.1, hs.2.cons (.withheld himport hdenies)⟩
      | some cutoff =>
        exact .pure fun s _ hs => ⟨hs.1, hs.2.cons (.permitted himport (permittedDeadline_iff.mp hdeadline))⟩

lemma listFeedResponseDeliveries_steps {recipient : String} {after limit : ℕ} :
    Steps T contentSha256 x P (listFeedResponseDeliveries T contentSha256 recipient after limit)
      fun r s => r.1 ∈ s.history ∧ PageOf T recipient after r.1 r.2 := by
  refine .ite (fun _ => refuse_steps) fun hvalid => ?_
  have hnamed : recipient ≠ "*" := by
    rintro rfl
    simp at hvalid
  refine .bind (signal_steps hsha hP) fun _ => ?_
  refine .bind (read_steps hP (.selectPage after (limit + 1)) (·.selectPage after (limit + 1)) fun _ _ => rfl)
    fun found => ?_
  have hseen := stable_seen (f := (·.selectPage after (limit + 1))) (b := found) hP
  refine .bind (signal_steps hsha hseen) fun _ => .ite (fun _ => throw_steps) fun _ => ?_
  refine .bind (readRestoreMetadata_steps hsha hseen) fun evidence => ?_
  refine (Protocol.Spec.of_exists (P := fun (db : FeedTables J) s => (found = db.selectPage after (limit + 1) ∧
    Grows db evidence ∧ ResponsesOk db ∧ ResponsesOk evidence) ∧ evidence ∈ s.history) fun db =>
    .of_and fun ⟨hfound, hg, hdb, hok⟩ => ?_).mono
    (fun s _ hs => ?_) (fun _ _ _ h => h) fun _ _ _ h => h
  · obtain rfl := hfound
    set rows := (db.responses.filter fun row => decide (after < row.1)).take limit with hrows
    have hmem : ∀ row ∈ rows, row ∈ db.responses := fun row hrow => List.mem_of_mem_filter (List.mem_of_mem_take hrow)
    have htake : (db.selectPage after (limit + 1)).take limit = rows.map evidence.storedRow := by
      rw [FeedTables.selectPage, ← List.map_take, List.take_take, Nat.min_eq_left (Nat.le_succ limit)]
      exact List.map_congr_left fun row hrow => (storedRow_eq (hmem row hrow) hg).symm
    have hnext : ((rows.map evidence.storedRow).map (·.response.sequence)).getLastD after =
        (rows.map Prod.fst).getLastD after := by
      rw [List.map_map]
      rfl
    have hhistory : (feed T contentSha256).Stable x fun s => evidence ∈ s.history := fun _ _ h hm => hm.history h
    rw [htake]
    refine .bind (deliveriesOf_steps hsha hhistory fun row hrow => hg.responses.subset (hmem row hrow))
      fun deliveries => ?_
    refine .bind (signal_steps hsha (stable_and hhistory (Protocol.Stable.const
      (p := Judged T evidence recipient rows deliveries)))) fun _ => .pure fun s _ hs => ⟨hs.1, hnamed, ?_, fun h => ?_⟩
    · obtain ⟨judged, hjudged, hall, hdeliveries⟩ := hs.2
      refine ⟨judged, ?_, hall, hdeliveries⟩
      rw [hjudged, hnext]
      exact (page_rows hg hok limit).symm
    · rw [hnext]
      obtain ⟨row, hrow, hlt⟩ := page_more hdb (of_decide_eq_true h)
      exact ⟨row, hg.responses.subset hrow, hlt⟩
  · obtain ⟨-, w, hi, ⟨-, w', hi', -, hread, hm⟩, rfl, hm'⟩ := hs
    exact ⟨w'.db, ⟨hread, hm.db, hi'.tables.responses, hi.tables.responses⟩, hm'.history hi.here⟩

end Pages

section Runs

variable {J : Type} [DecidableEq J] {T : Timestamps} {contentSha256 : RestoreContent J → String} {x : ℕ}
  {system : FeedSystem J} (hsha : ∀ header p, contentSha256 ⟨header, none⟩ ≠ contentSha256 ⟨header, some p⟩)

lemma isResponse_parses {header : FeedHeader} (h : header.isResponse = true) : header.parses = true := by
  rw [FeedHeader.parses, h, Bool.true_or]

lemma isMessage_parses {header : FeedHeader} (h : header.isMessage = true) : header.parses = true := by
  rw [FeedHeader.parses, h, Bool.or_true]

include hsha

lemma callCode_steps (call : FeedCall J) : Steps T contentSha256 x (fun _ => True) (callCode T contentSha256 call)
    fun r s => Backed T contentSha256 s r := by
  have hP : (feed T contentSha256).Stable x fun _ => True := Protocol.Stable.const
  cases call with
  | publishFeedCard card =>
    refine .bind (storeFeedCard_steps hsha hP) fun stored => .pure fun s _ hs => ?_
    rw [hs.1]
    exact hs.2.2
  | appendFeedResponse header payload =>
    refine .bind (.ite (fun _ => refuse_steps) fun hvalid => appendResponse_steps hsha hP (isResponse_parses ?_))
      fun stored => .pure fun s _ hs => hs
    simpa using hvalid
  | appendFeedMessage header payload =>
    refine .bind (.ite (fun _ => refuse_steps) fun hvalid => appendResponse_steps hsha hP (isMessage_parses ?_))
      fun stored => .pure fun s _ hs => hs
    simpa using hvalid
  | recordFeedHandling handling =>
    refine .bind (recordFeedHandling_steps hsha hP) fun stored => .pure fun s _ hs => ?_
    rw [hs.1]
    exact hs.2
  | restoreFeedRecords records =>
    exact .bind (restoreFeedRecords_steps hsha hP) fun _ => .pure fun s _ hs => hs
  | listFeedResponseDeliveries recipient afterSequence limit =>
    exact .bind (listFeedResponseDeliveries_steps hsha hP) fun _ => .pure fun s _ hs => hs

lemma program_sat (call : FeedCall J) :
    (feed T contentSha256).Sat x (fun _ _ => True) (program T contentSha256 call) fun _ => True := by
  have hrun : Steps T contentSha256 x (fun _ => True)
      (do let r ← callCode T contentSha256 call; ask .database (.report r)) fun _ _ => True := by
    refine .bind (callCode_steps hsha call) fun r => ?_
    have hbacked : (feed T contentSha256).Stable x fun s => Backed T contentSha256 s r := fun _ _ h hm => h.mono hm
    exact (ask_steps (o := .report r) hsha hbacked fun _ _ hs => hs).mono (fun _ _ h => h)
      (fun _ _ _ _ => trivial) fun _ _ _ h => h
  exact .bind hrun fun _ _ _ _ => trivial

omit [DecidableEq J] hsha in
lemma emptyTables_ok : TablesOk contentSha256 (emptyTables : FeedTables J) := by
  refine ⟨⟨.nil, .nil, nofun, .nil⟩, ⟨.nil, .nil, .nil, nofun⟩, ?_⟩
  exact ⟨.nil, nofun, nofun, nofun, nofun, nofun, nofun⟩

/-- Along every run each call meets its part. -/
lemma settled_of_reachable (h : (feedMachine T contentSha256).Reachable system) :
    (feed T contentSha256).Settled system.calls system.world := by
  induction h with
  | @start system h =>
    refine ⟨?_, fun x p hp => ?_⟩
    · rw [h.1]
      refine ⟨List.mem_singleton_self _, List.forall_mem_singleton.mpr ⟨emptyTables_ok, .refl _⟩, ?_, ?_⟩
      · exact fun row hrow => absurd hrow List.not_mem_nil
      · exact List.forall_mem_nil _
    · rw [h.2 x] at hp
      cases hp
  | @step system action next _ _ hs ih =>
    cases action with
    | start x call =>
      simp only [feedMachine, feedStep] at hs
      split_ifs at hs
      cases hs
      exact ih.start Protocol.Stable.const trivial (program_sat hsha call)
    | answer x c =>
      simp only [feedMachine, feedStep] at hs
      split at hs
      · rename_i o next hx
        obtain ⟨⟨r, world⟩, hr, rfl⟩ := Option.map_eq_some_iff.mp hs
        exact ih.step hx ⟨c, hr⟩
      · cases hs
    | crash x =>
      cases hs
      refine ih.fewer fun y p hy => ?_
      simp only [Function.update_apply] at hy
      split_ifs at hy
      exact hy

/-- Whatever runs side by side or stops: the tables hold together, every saved header is supported, and all tables
there ever were have only been added to. -/
theorem written_once (h : (feedMachine T contentSha256).Reachable system) :
    TablesOk contentSha256 system.world.db ∧ Published system.world.db ∧
      ∀ db ∈ system.world.history, Grows db system.world.db := by
  have hi := (settled_of_reachable hsha h).1
  exact ⟨hi.tables, hi.published, fun db hdb => (hi.past db hdb).2⟩

/-- What a call returned ok for is stored, and two calls that returned ok for one ID agree. -/
theorem results_agree (h : (feedMachine T contentSha256).Reachable system) :
    (∀ card, .card card ∈ system.world.reports → card ∈ system.world.db.cards) ∧
    (∀ handling, .handling handling ∈ system.world.reports → handling ∈ system.world.db.handlings) ∧
    (∀ header payload stored, .response header payload stored ∈ system.world.reports →
      Saved T system.world.db header payload stored ∧
      ∀ header' payload' stored', .response header' payload' stored' ∈ system.world.reports →
        header'.responseId = header.responseId → header' = header ∧ payload' = payload ∧ stored' = stored) ∧
    ∀ first second, .handling first ∈ system.world.reports → .handling second ∈ system.world.reports →
      first.responseId = second.responseId → first.identity = second.identity ∧
        (first.phase ≠ .acknowledged → second.phase ≠ .acknowledged → first = second) := by
  have hi := (settled_of_reachable hsha h).1
  have hok := hi.tables
  refine ⟨fun card hc => hi.reports _ hc, fun handling hh => hi.reports _ hh, fun header payload stored hr => ?_, ?_⟩
  · refine ⟨hi.reports _ hr, fun header' payload' stored' hr' hid => ?_⟩
    obtain ⟨sequence, hrow, hpayload, rfl⟩ := hi.reports _ hr
    obtain ⟨sequence', hrow', hpayload', rfl⟩ := hi.reports _ hr'
    obtain ⟨rfl, rfl⟩ := Prod.mk.inj (hok.responses.row_unique hrow' hrow hid)
    exact ⟨rfl, hpayload'.symm.trans hpayload, rfl⟩
  · intro first second hfirst hsecond hid
    have hmem := hi.reports _ hfirst
    have hmem' := hi.reports _ hsecond
    refine ⟨hok.output.issuance first hmem second hmem' hid, fun hp hp' => ?_⟩
    by_contra hne
    rcases hok.output.outcome.forall hmem hmem' hne hid with hack | hack
    · exact hp hack
    · exact hp' hack

/-- A restore that returned ok has stored every record, and no response is live that it restored. -/
theorem restored_stays (h : (feedMachine T contentSha256).Reachable system) {records : FeedRestoreRecords J}
    (hr : .restored records ∈ system.world.reports) :
    (∀ card ∈ records.cards, card ∈ system.world.db.cards) ∧
    ∀ record ∈ records.responses, Restored contentSha256 system.world.db record ∧
      ∀ db ∈ system.world.history, ¬Live db record.response.responseId := by
  have hi := (settled_of_reachable hsha h).1
  obtain ⟨hcards, hrecords⟩ := hi.reports _ hr
  refine ⟨hcards, fun record hrecord => ⟨hrecords record hrecord, fun db hdb hlive => ?_⟩⟩
  exact ((hi.past db hdb).2.live _ hlive).2 _ (hrecords record hrecord).marker

/-- A page that was returned is exactly what the recipient may get of the responses between its two sequences. -/
theorem pages_exact (h : (feedMachine T contentSha256).Reachable system) {recipient : String} {after : ℕ}
    {evidence : FeedTables J} {page : FeedResponseDeliveryPage}
    (hr : .page recipient after evidence page ∈ system.world.reports) :
    evidence ∈ system.world.history ∧ PageOf T recipient after evidence page :=
  (settled_of_reachable hsha h).1.reports _ hr

end Runs

section Sample

/-- One timestamp, the first of August. -/
def sampleTimestamps : Timestamps := ⟨fun s => s == "2026-08-01T00:00:00Z", fun _ => 1785542400000⟩

def sampleIdentity : FeedCardIdentity := ⟨"c", 1, "i"⟩
def sampleCard : FeedCard Unit := ⟨sampleIdentity, true, none, ()⟩
def sampleAnswer : FeedHeader := ⟨sampleIdentity, "r", .answer, none, none, none, "t"⟩
def sampleMessage : FeedHeader := ⟨sampleIdentity, "m", .message, none, some "hello", none, "t"⟩
def sampleOrigin : FeedRestoreOrigin := ⟨"s", "n", "1", "k", none⟩

/-- The recipient may have the answer until the first of August. -/
def samplePolicy : FeedRestoreDeliveryPolicy :=
  ⟨"a", .pending, .resolvedPending, true, some "2026-08-01T00:00:00Z", sampleOrigin⟩

def sampleRecords : FeedRestoreRecords Unit := ⟨[], [⟨sampleAnswer, none, sampleOrigin, [samplePolicy]⟩]⟩

/-- The hash of the answer without a payload; other contents are told apart by their payloads. -/
def sampleSha256 (content : RestoreContent Unit) : String :=
  if content = ⟨sampleAnswer, none⟩ then "b9ccd45f5c458173018cf6f663f298ab7c560fc38a724fb1b87ee32b9b51f408"
  else if content.payload.isNone then "0" else "1"

lemma sampleSha256_payload (header : FeedHeader) (p : FeedResponsePayload Unit) :
    sampleSha256 ⟨header, none⟩ ≠ sampleSha256 ⟨header, some p⟩ := by
  have hsome : sampleSha256 ⟨header, some p⟩ = "1" := by
    rw [sampleSha256, if_neg (by simp), if_neg (by simp)]
  have hnone : sampleSha256 ⟨header, none⟩ ≠ "1" := by
    by_cases h : header = sampleAnswer
    · simp [sampleSha256, h]
    · simp [sampleSha256, h]
  rw [hsome]
  exact hnone

/-- Every operation succeeds; a new row has the sequence `n`. -/
def sampleOutcome (n : ℕ) : FeedOutcome := ⟨false, false, n, false, 1780000000000⟩

def sampleSystem : FeedSystem Unit := ⟨⟨emptyTables, [emptyTables], []⟩, fun _ => none⟩

/-- A card is published, an answer to it restored, a message sent, and the page read. -/
def sampleRun : List (FeedAction Unit) :=
  .start 0 (.publishFeedCard sampleCard) :: List.replicate 3 (.answer 0 (sampleOutcome 1)) ++
    .start 1 (.restoreFeedRecords sampleRecords) :: List.replicate 19 (.answer 1 (sampleOutcome 1)) ++
    .start 2 (.appendFeedMessage sampleMessage none) :: List.replicate 5 (.answer 2 (sampleOutcome 2)) ++
    .start 3 (.listFeedResponseDeliveries "a" 0 10) :: List.replicate 11 (.answer 3 (sampleOutcome 2))

def sampleTables : FeedTables Unit where
  cards := [sampleCard]
  handlings := []
  responses := [(1, sampleAnswer), (2, sampleMessage)]
  payloads := []
  imports := [("r", ⟨sampleIdentity, sampleSha256 ⟨sampleAnswer, none⟩⟩)]
  origins := [("r", sampleOrigin)]
  policies := [("r", baselinePolicy sampleOrigin), ("r", samplePolicy)]

def samplePage : FeedResponseDeliveryPage where
  responses := [⟨⟨sampleAnswer, 1, none, none, some (some "2026-08-01T00:00:00Z")⟩, 1780000000000⟩,
    ⟨⟨sampleMessage, 2, none, none, none⟩, 1780000000000⟩]
  nextSequence := 2
  hasMore := false

lemma sampleRun_reports : ((feedMachine sampleTimestamps sampleSha256).run sampleSystem sampleRun).map
    (fun system => (system.world.reports, system.world.db)) = some
      ([.page "a" 0 sampleTables samplePage, .response sampleMessage none ⟨sampleMessage, 2, none, none, none⟩,
        .restored sampleRecords, .card sampleCard], sampleTables) := by
  decide +kernel

lemma sampleRun_reached : ∃ system, (feedMachine sampleTimestamps sampleSha256).Reachable system ∧
    system.world.reports = [.page "a" 0 sampleTables samplePage,
      .response sampleMessage none ⟨sampleMessage, 2, none, none, none⟩, .restored sampleRecords, .card sampleCard] ∧
    system.world.db = sampleTables := by
  obtain ⟨system, hrun, hreports⟩ := Option.map_eq_some_iff.mp sampleRun_reports
  obtain ⟨hr, hdb⟩ := Prod.mk.inj hreports
  exact ⟨system, .of_run (.start ⟨rfl, fun _ => rfl⟩) hrun, hr, hdb⟩

theorem written_once_sample : ∃ system, (feedMachine sampleTimestamps sampleSha256).Reachable system ∧
    system.world.db = sampleTables ∧ TablesOk sampleSha256 system.world.db ∧ Published system.world.db ∧
      ∀ db ∈ system.world.history, Grows db system.world.db := by
  obtain ⟨system, hs, -, hdb⟩ := sampleRun_reached
  exact ⟨system, hs, hdb, written_once sampleSha256_payload hs⟩

theorem results_agree_sample : ∃ system, (feedMachine sampleTimestamps sampleSha256).Reachable system ∧
    sampleCard ∈ system.world.db.cards ∧
    Saved sampleTimestamps system.world.db sampleMessage none ⟨sampleMessage, 2, none, none, none⟩ := by
  obtain ⟨system, hs, hr, -⟩ := sampleRun_reached
  obtain ⟨hcards, -, hresponses, -⟩ := results_agree sampleSha256_payload hs
  refine ⟨system, hs, hcards _ ?_, (hresponses sampleMessage none ⟨sampleMessage, 2, none, none, none⟩ ?_).1⟩
  · simp [hr]
  · simp [hr]

theorem restored_stays_sample : ∃ system, (feedMachine sampleTimestamps sampleSha256).Reachable system ∧
    ∀ record ∈ sampleRecords.responses, Restored sampleSha256 system.world.db record ∧
      ∀ db ∈ system.world.history, ¬Live db record.response.responseId := by
  obtain ⟨system, hs, hr, -⟩ := sampleRun_reached
  exact ⟨system, hs, (restored_stays sampleSha256_payload hs (by simp [hr])).2⟩

theorem pages_exact_sample : ∃ system, (feedMachine sampleTimestamps sampleSha256).Reachable system ∧
    sampleTables ∈ system.world.history ∧ PageOf sampleTimestamps "a" 0 sampleTables samplePage := by
  obtain ⟨system, hs, hr, -⟩ := sampleRun_reached
  exact ⟨system, hs, pages_exact sampleSha256_payload hs (by simp [hr])⟩

end Sample

end TinyCloud.Feed
