import Mathlib.Data.List.Infix
import Mathlib.Data.List.Nodup
import Mathlib.Data.List.Pairwise
import TinyCloud.Feed.Records

/-!
# What holds of the tables of a feed

Each statement and batch keeps the rows that are there, and keeps what the tables say of one another.
-/

namespace TinyCloud.Feed

variable {J : Type} {db db' db'' : FeedTables J}

section Invariants

def OneOutcome (a b : FeedHandling J) : Prop :=
  a.responseId = b.responseId → a.phase = .acknowledged ∨ b.phase = .acknowledged

instance : Std.Symm (OneOutcome (J := J)) := ⟨fun _ _ h he => (h he.symm).symm⟩

/-- One content for a card issuance and for a handling, one issuance and one outcome for a response. -/
structure OutputOk (db : FeedTables J) : Prop where
  cards : db.cards.Pairwise fun a b => a.identity ≠ b.identity
  handlings : db.handlings.Pairwise fun a b => a.handlingId ≠ b.handlingId
  issuance : ∀ a ∈ db.handlings, ∀ b ∈ db.handlings, a.responseId = b.responseId → a.identity = b.identity
  outcome : db.handlings.Pairwise OneOutcome

/-- One header and at most one payload for a response. -/
structure ResponsesOk (db : FeedTables J) : Prop where
  unique : db.responses.Pairwise fun a b => a.2.responseId ≠ b.2.responseId
  sequences : db.responses.Pairwise fun a b => a.1 < b.1
  payloads : db.payloads.Pairwise fun a b => a.1 ≠ b.1
  header : ∀ p ∈ db.payloads, ∃ row ∈ db.responses, row.2.responseId = p.1

/-- A restored response has its marker, origins of one source, and the policy that denies for each of them; any other
response has nothing of this. -/
structure ImportsOk (contentSha256 : RestoreContent J → String) (db : FeedTables J) : Prop where
  unique : db.imports.Pairwise fun a b => a.1 ≠ b.1
  content : ∀ id m, (id, m) ∈ db.imports → ∃ row ∈ db.responses, row.2.responseId = id ∧
    row.2.identity = m.identity ∧ m.contentSha256 = contentSha256 ⟨row.2, db.payload id⟩
  marker : ∀ id o, (id, o) ∈ db.origins → ∃ m, (id, m) ∈ db.imports
  source : ∀ id p, (id, p) ∈ db.policies → (id, p.source) ∈ db.origins ∧
    (p.recipient = "*" → p = baselinePolicy p.source)
  origin : ∀ id m, (id, m) ∈ db.imports → ∃ o, (id, o) ∈ db.origins
  binding : ∀ id a b, (id, a) ∈ db.origins → (id, b) ∈ db.origins → sameOriginBinding a b = true
  baseline : ∀ id o, (id, o) ∈ db.origins → (id, baselinePolicy o) ∈ db.policies

structure TablesOk (contentSha256 : RestoreContent J → String) (db : FeedTables J) : Prop where
  output : OutputOk db
  responses : ResponsesOk db
  imports : ImportsOk contentSha256 db

/-- A response that was not restored. -/
def Live (db : FeedTables J) (responseId : String) : Prop :=
  (∃ row ∈ db.responses, row.2.responseId = responseId) ∧ ∀ m, (responseId, m) ∉ db.imports

/-- Rows are only added, never a payload to a response that is saved, and never a marker. -/
structure Grows (db db' : FeedTables J) : Prop where
  cards : db.cards <+: db'.cards
  handlings : db.handlings <+: db'.handlings
  responses : db.responses <+: db'.responses
  payloads : db.payloads <+: db'.payloads
  imports : db.imports <+: db'.imports
  origins : db.origins <+: db'.origins
  policies : db.policies <+: db'.policies
  payload : ∀ row ∈ db.responses, db'.payload row.2.responseId = db.payload row.2.responseId
  live : ∀ id, Live db id → Live db' id

end Invariants

section Growth

lemma Grows.refl (db : FeedTables J) : Grows db db :=
  ⟨List.prefix_rfl, List.prefix_rfl, List.prefix_rfl, List.prefix_rfl, List.prefix_rfl, List.prefix_rfl,
    List.prefix_rfl, fun _ _ => rfl, fun _ h => h⟩

lemma Grows.trans (h : Grows db db') (h' : Grows db' db'') : Grows db db'' where
  cards := h.cards.trans h'.cards
  handlings := h.handlings.trans h'.handlings
  responses := h.responses.trans h'.responses
  payloads := h.payloads.trans h'.payloads
  imports := h.imports.trans h'.imports
  origins := h.origins.trans h'.origins
  policies := h.policies.trans h'.policies
  payload row hr := (h'.payload row (h.responses.subset hr)).trans (h.payload row hr)
  live id hl := h'.live id (h.live id hl)

lemma pairwise_snoc {α : Type} {R : α → α → Prop} {l : List α} {a : α} (h : l.Pairwise R) (ha : ∀ b ∈ l, R b a) :
    (l ++ [a]).Pairwise R :=
  List.pairwise_append.mpr ⟨h, List.pairwise_singleton _ _, fun b hb c hc => by
    rw [List.mem_singleton.mp hc]
    exact ha b hb⟩

lemma payload_snoc (id : String) (p : FeedResponsePayload J) (responseId : String) :
    ({ db with payloads := db.payloads ++ [(id, p)] } : FeedTables J).payload responseId =
      (db.payload responseId).or (if id = responseId then some p else none) := by
  simp only [FeedTables.payload, List.find?_append, Option.map_or]
  congr 1
  by_cases h : id = responseId <;> simp [h]

lemma payload_eq_none {id : String} : db.payload id = none ↔ ∀ p, (id, p) ∉ db.payloads := by
  simp only [FeedTables.payload, Option.map_eq_none_iff, List.find?_eq_none, decide_eq_true_eq]
  exact ⟨fun h p hp => h _ hp rfl, fun h row hr he => h row.2 (he ▸ hr)⟩

lemma mem_of_payload {id : String} {p : FeedResponsePayload J} (h : db.payload id = some p) :
    (id, p) ∈ db.payloads := by
  obtain ⟨row, hrow, rfl⟩ := Option.map_eq_some_iff.mp h
  have hid : row.1 = id := by simpa using List.find?_some hrow
  rw [← hid]
  exact List.mem_of_find?_eq_some hrow

/-- A pair whose key is taken once. -/
lemma eq_of_unique {α : Type} {l : List (String × α)} (hu : l.Pairwise fun a b => a.1 ≠ b.1) {id : String} {a b : α}
    (ha : (id, a) ∈ l) (hb : (id, b) ∈ l) : a = b := by
  have hinj := List.inj_on_of_nodup_map (List.pairwise_map.mpr hu : (l.map Prod.fst).Nodup)
  exact (Prod.mk.inj (hinj ha hb rfl)).2

lemma ResponsesOk.payload_of_mem (h : ResponsesOk db) {id : String} {p : FeedResponsePayload J}
    (hp : (id, p) ∈ db.payloads) : db.payload id = some p := by
  cases hq : db.payload id with
  | none => exact absurd hp (payload_eq_none.mp hq p)
  | some q => rw [eq_of_unique h.payloads (mem_of_payload hq) hp]

lemma ResponsesOk.row_unique (h : ResponsesOk db) {row row' : ℕ × FeedHeader} (hr : row ∈ db.responses)
    (hr' : row' ∈ db.responses) (he : row.2.responseId = row'.2.responseId) : row = row' := by
  have hinj := List.inj_on_of_nodup_map
    (List.pairwise_map.mpr h.unique : (db.responses.map fun row => row.2.responseId).Nodup)
  exact hinj hr hr' he

lemma selectHeader_eq_none {id : String} : db.selectHeader id = none ↔ ∀ row ∈ db.responses, row.2.responseId ≠ id := by
  simp [FeedTables.selectHeader]

lemma selectHeader_some {id : String} {row : ℕ × FeedHeader} (h : db.selectHeader id = some row) :
    row ∈ db.responses ∧ row.2.responseId = id :=
  ⟨List.mem_of_find?_eq_some h, by simpa using List.find?_some h⟩

end Growth

section Statements

lemma ResponsesOk.congr (h : ResponsesOk db) (hr : db'.responses = db.responses) (hp : db'.payloads = db.payloads) :
    ResponsesOk db' := by
  refine ⟨?_, ?_, ?_, ?_⟩
  · exact hr ▸ h.unique
  · exact hr ▸ h.sequences
  · exact hp ▸ h.payloads
  · rw [hr, hp]
    exact h.header

variable {contentSha256 : RestoreContent J → String} {sequence : ℕ} {header : FeedHeader}
  {payload : Option (FeedResponsePayload J)}

lemma insertCard_some {card : FeedCard J} (h : db.insertCard card = some db') : db' = db ∨
    db' = { db with cards := db.cards ++ [card] } ∧ ∀ c ∈ db.cards, c.identity ≠ card.identity := by
  unfold FeedTables.insertCard at h
  split_ifs at h with hr hc
  · exact .inl (Option.some.inj h).symm
  · refine .inr ⟨(Option.some.inj h).symm, fun c hcard he => hc ?_⟩
    exact List.any_eq_true.mpr ⟨c, hcard, by simpa using he⟩

lemma insertCard_ok {card : FeedCard J} (hok : TablesOk contentSha256 db) (h : db.insertCard card = some db') :
    TablesOk contentSha256 db' ∧ Grows db db' := by
  rcases insertCard_some h with rfl | ⟨rfl, hnew⟩
  · exact ⟨hok, .refl _⟩
  · refine ⟨⟨⟨pairwise_snoc hok.output.cards hnew, hok.output.handlings, hok.output.issuance, hok.output.outcome⟩,
      hok.responses.congr rfl rfl, ?_⟩, ?_⟩
    · exact ⟨hok.imports.unique, hok.imports.content, hok.imports.marker, hok.imports.source, hok.imports.origin,
        hok.imports.binding, hok.imports.baseline⟩
    · exact ⟨List.prefix_append _ _, List.prefix_rfl, List.prefix_rfl, List.prefix_rfl, List.prefix_rfl,
        List.prefix_rfl, List.prefix_rfl, fun _ _ => rfl, fun _ hl => hl⟩

lemma insertHandling_cases (db : FeedTables J) (handling : FeedHandling J) : db.insertHandling handling = db ∨
    db.insertHandling handling = { db with handlings := db.handlings ++ [handling] } ∧
      (∀ a ∈ db.handlings, a.handlingId ≠ handling.handlingId) ∧
      (∀ a ∈ db.handlings, a.responseId = handling.responseId → a.identity = handling.identity) ∧
      ∀ a ∈ db.handlings, a.responseId = handling.responseId →
        a.phase = .acknowledged ∨ handling.phase = .acknowledged := by
  unfold FeedTables.insertHandling
  split_ifs with hi ho hd
  · exact .inl rfl
  · exact .inl rfl
  · exact .inl rfl
  · simp only [FeedTables.selectHandlings, List.any_filter, List.any_eq_true, Bool.and_eq_true, decide_eq_true_eq,
      not_exists, not_and, not_not] at hi ho hd
    refine .inr ⟨rfl, fun a ha => hd a ha, fun a ha => hi a ha, fun a ha he => ?_⟩
    by_cases hp : handling.phase = .acknowledged
    · exact .inr hp
    · exact .inl (ho hp a ha he)

lemma insertHandling_ok (handling : FeedHandling J) (hok : TablesOk contentSha256 db) :
    TablesOk contentSha256 (db.insertHandling handling) ∧ Grows db (db.insertHandling handling) := by
  rcases insertHandling_cases db handling with h | ⟨h, hnew, hissuance, houtcome⟩
  · rw [h]
    exact ⟨hok, .refl _⟩
  · rw [h]
    refine ⟨⟨⟨hok.output.cards, pairwise_snoc hok.output.handlings hnew, ?_,
      pairwise_snoc hok.output.outcome houtcome⟩, hok.responses.congr rfl rfl, ?_⟩, ?_⟩
    · intro a ha b hb he
      rcases List.mem_append.mp ha with ha | ha <;> rcases List.mem_append.mp hb with hb | hb
      · exact hok.output.issuance a ha b hb he
      · rw [List.mem_singleton.mp hb] at he ⊢
        exact hissuance a ha he
      · rw [List.mem_singleton.mp ha] at he ⊢
        exact (hissuance b hb he.symm).symm
      · rw [List.mem_singleton.mp ha, List.mem_singleton.mp hb]
    · exact ⟨hok.imports.unique, hok.imports.content, hok.imports.marker, hok.imports.source, hok.imports.origin,
        hok.imports.binding, hok.imports.baseline⟩
    · exact ⟨List.prefix_rfl, List.prefix_append _ _, List.prefix_rfl, List.prefix_rfl, List.prefix_rfl,
        List.prefix_rfl, List.prefix_rfl, fun _ _ => rfl, fun _ hl => hl⟩

/-- A new header with its payload. -/
def FeedTables.addResponse (db : FeedTables J) (sequence : ℕ) (header : FeedHeader)
    (payload : Option (FeedResponsePayload J)) : FeedTables J :=
  { db with
    responses := db.responses ++ [(sequence, header)]
    payloads := db.payloads ++ payload.toList.map (header.responseId, ·) }

lemma addResponse_payload (responseId : String) : (db.addResponse sequence header payload).payload responseId =
    (db.payload responseId).or (if header.responseId = responseId then payload else none) := by
  cases payload with
  | none => simp [FeedTables.addResponse, FeedTables.payload]
  | some p => exact payload_snoc header.responseId p responseId

lemma insertResponse_some (h : db.insertResponse sequence header payload = some db') :
    (∀ row ∈ db.responses, row.2.responseId ≠ header.responseId) ∧ db' = db.addResponse sequence header payload := by
  unfold FeedTables.insertResponse at h
  split at h
  · cases h
  · rename_i hexists
    have hnone := selectHeader_eq_none.mp (Option.not_isSome_iff_eq_none.mp hexists)
    cases payload with
    | none =>
      refine ⟨hnone, (Option.some.inj h).symm.trans ?_⟩
      simp [FeedTables.addResponse]
    | some p =>
      simp only at h
      split_ifs at h
      exact ⟨hnone, (Option.some.inj h).symm⟩

lemma addResponse_ok (h : ResponsesOk db) (hfresh : db.fresh sequence = true)
    (hnew : ∀ row ∈ db.responses, row.2.responseId ≠ header.responseId) :
    ResponsesOk (db.addResponse sequence header payload) := by
  refine ⟨pairwise_snoc h.unique hnew, pairwise_snoc h.sequences ?_, ?_, ?_⟩
  · simpa [FeedTables.fresh] using hfresh
  · cases payload with
    | none => simpa [FeedTables.addResponse] using h.payloads
    | some p =>
      refine pairwise_snoc h.payloads fun row hrow he => ?_
      obtain ⟨old, hold, hid⟩ := h.header row hrow
      exact hnew old hold (hid.trans he)
  · intro row hrow
    rcases List.mem_append.mp hrow with hrow | hrow
    · obtain ⟨old, hold, hid⟩ := h.header row hrow
      exact ⟨old, List.mem_append_left _ hold, hid⟩
    · obtain ⟨p, -, rfl⟩ := List.mem_map.mp hrow
      exact ⟨(sequence, header), List.mem_append_right _ List.mem_cons_self, rfl⟩

lemma addResponse_payload_of_ne {responseId : String} (hne : responseId ≠ header.responseId) :
    (db.addResponse sequence header payload).payload responseId = db.payload responseId := by
  rw [addResponse_payload, if_neg (Ne.symm hne), Option.or_none]

lemma addResponse_grows (sequence : ℕ) (payload : Option (FeedResponsePayload J))
    (hnew : ∀ row ∈ db.responses, row.2.responseId ≠ header.responseId) :
    Grows db (db.addResponse sequence header payload) where
  cards := List.prefix_rfl
  handlings := List.prefix_rfl
  responses := List.prefix_append _ _
  payloads := List.prefix_append _ _
  imports := List.prefix_rfl
  origins := List.prefix_rfl
  policies := List.prefix_rfl
  payload row hr := addResponse_payload_of_ne (hnew row hr)
  live _ hl := ⟨hl.1.imp fun _ hr => ⟨List.mem_append_left _ hr.1, hr.2⟩, hl.2⟩

lemma insertResponse_ok (hok : TablesOk contentSha256 db) (hfresh : db.fresh sequence = true)
    (h : db.insertResponse sequence header payload = some db') : TablesOk contentSha256 db' ∧ Grows db db' := by
  obtain ⟨hnew, rfl⟩ := insertResponse_some h
  refine ⟨⟨⟨hok.output.cards, hok.output.handlings, hok.output.issuance, hok.output.outcome⟩,
    addResponse_ok hok.responses hfresh hnew, ?_⟩, addResponse_grows _ _ hnew⟩
  refine ⟨hok.imports.unique, fun id m hm => ?_, hok.imports.marker, hok.imports.source, hok.imports.origin,
    hok.imports.binding, hok.imports.baseline⟩
  obtain ⟨row, hrow, hid, hidentity, hhash⟩ := hok.imports.content id m hm
  refine ⟨row, List.mem_append_left _ hrow, hid, hidentity, ?_⟩
  rw [addResponse_payload_of_ne (hid ▸ hnew row hrow)]
  exact hhash

end Statements

section Batch

variable [DecidableEq J] {contentSha256 : RestoreContent J → String} {group : RestoreGroup J} {hash : String}
  {first : Option FeedRestoreOrigin} {sequence : ℕ}

/-- What the records of a restore make of a group. -/
structure GroupOk (group : RestoreGroup J) : Prop where
  nonempty : group.origins ≠ []
  policies : ∀ e ∈ group.origins, ∀ p ∈ e.policies, p.source = e.origin ∧ p.recipient ≠ "*"

/-- Only rows of the group's evidence are added. -/
structure AddsEvidence (group : RestoreGroup J) (db db' : FeedTables J) : Prop where
  cards : db'.cards = db.cards
  handlings : db'.handlings = db.handlings
  responses : db'.responses = db.responses
  payloads : db'.payloads = db.payloads
  imports : db'.imports = db.imports
  origins : db.origins <+: db'.origins
  policies : db.policies <+: db'.policies
  fromOrigin : ∀ row ∈ db'.origins, row ∈ db.origins ∨ ∃ e ∈ group.origins, row = (group.content.id, e.origin)
  fromPolicy : ∀ row ∈ db'.policies, row ∈ db.policies ∨ ∃ e ∈ group.origins,
    ∃ p ∈ baselinePolicy e.origin :: e.policies, row = (group.content.id, p)

omit [DecidableEq J] in
lemma AddsEvidence.refl (db : FeedTables J) : AddsEvidence group db db :=
  ⟨rfl, rfl, rfl, rfl, rfl, List.prefix_rfl, List.prefix_rfl, fun _ h => .inl h, fun _ h => .inl h⟩

omit [DecidableEq J] in
lemma AddsEvidence.trans (h : AddsEvidence group db db') (h' : AddsEvidence group db' db'') :
    AddsEvidence group db db'' where
  cards := h'.cards.trans h.cards
  handlings := h'.handlings.trans h.handlings
  responses := h'.responses.trans h.responses
  payloads := h'.payloads.trans h.payloads
  imports := h'.imports.trans h.imports
  origins := h.origins.trans h'.origins
  policies := h.policies.trans h'.policies
  fromOrigin row hr := (h'.fromOrigin row hr).elim (h.fromOrigin row) .inr
  fromPolicy row hr := (h'.fromPolicy row hr).elim (h.fromPolicy row) .inr

lemma addsEvidence_statement {e : RestoreOriginEvidence} {st : RestoreStatement} (he : e ∈ group.origins)
    (hst : st ∈ e.statements) : AddsEvidence group db (runStatement db group.content hash first st) := by
  rcases List.mem_cons.mp hst with rfl | hst
  · simp only [runStatement]
    split_ifs
    · refine ⟨rfl, rfl, rfl, rfl, rfl, List.prefix_append _ _, List.prefix_rfl, fun row hrow => ?_, fun _ h => .inl h⟩
      exact (List.mem_append.mp hrow).imp id fun hrow => ⟨e, he, List.mem_singleton.mp hrow⟩
    · exact .refl _
  · obtain ⟨p, hp, rfl⟩ := List.mem_map.mp hst
    simp only [runStatement]
    split_ifs
    · refine ⟨rfl, rfl, rfl, rfl, rfl, List.prefix_rfl, List.prefix_append _ _, fun _ h => .inl h, fun row hrow => ?_⟩
      exact (List.mem_append.mp hrow).imp id fun hrow => ⟨e, he, p, hp, List.mem_singleton.mp hrow⟩
    · exact .refl _

lemma addsEvidence_statements {sts : List RestoreStatement}
    (hsts : ∀ st ∈ sts, ∃ e ∈ group.origins, st ∈ e.statements) :
    AddsEvidence group db (sts.foldl (fun db st => runStatement db group.content hash first st) db) := by
  induction sts generalizing db with
  | nil => exact .refl _
  | cons st sts ih =>
    obtain ⟨e, he, hst⟩ := hsts st List.mem_cons_self
    exact (addsEvidence_statement he hst).trans (ih fun st' h => hsts st' (List.mem_cons_of_mem _ h))

/-- The marker, the header and the payload of a group that is new. -/
def FeedTables.addGroup (db : FeedTables J) (sequence : ℕ) (hash : String) (content : RestoreContent J) :
    FeedTables J :=
  { db.addResponse sequence content.response content.payload with
    imports := db.imports ++ [(content.id, ⟨content.response.identity, hash⟩)] }

lemma runStatement_marker (db : FeedTables J) (content : RestoreContent J) :
    runStatement db content hash first .marker = db ∨
    runStatement db content hash first .marker =
        { db with imports := db.imports ++ [(content.id, ⟨content.response.identity, hash⟩)] } ∧
      (∀ row ∈ db.responses, row.2.responseId ≠ content.id) ∧ (∀ o, (content.id, o) ∉ db.origins) ∧
      ∀ m, (content.id, m) ∉ db.imports := by
  simp only [runStatement]
  split_ifs with h
  · exact .inl rfl
  · simp only [Bool.or_eq_true, not_or, Option.not_isSome_iff_eq_none, List.any_eq_true, decide_eq_true_eq,
      not_exists, not_and] at h
    obtain ⟨⟨⟨⟨hheader, -⟩, horigins⟩, -⟩, himports⟩ := h
    exact .inr ⟨rfl, selectHeader_eq_none.mp hheader, fun o ho => horigins _ ho rfl, fun m hm => himports _ hm rfl⟩

lemma runStatement_header (db : FeedTables J) (content : RestoreContent J) :
    runStatement db content hash first (.header sequence) = db ∨
    runStatement db content hash first (.header sequence) =
        { db with responses := db.responses ++ [(sequence, content.response)] } ∧
      ∀ row ∈ db.responses, row.2.responseId ≠ content.id := by
  simp only [runStatement]
  split_ifs with h
  · simp only [Bool.and_eq_true, Option.isNone_iff_eq_none] at h
    exact .inr ⟨rfl, selectHeader_eq_none.mp h.2⟩
  · exact .inl rfl

lemma runStatement_payload (db : FeedTables J) (content : RestoreContent J) :
    runStatement db content hash first .payload = db ∨
    ∃ p, content.payload = some p ∧ db.payload content.id = none ∧
      runStatement db content hash first .payload = { db with payloads := db.payloads ++ [(content.id, p)] } := by
  simp only [runStatement]
  split
  · exact .inl rfl
  · rename_i p hp
    split_ifs with h
    · simp only [Bool.and_eq_true, Option.isNone_iff_eq_none] at h
      exact .inr ⟨p, hp, h.2, rfl⟩
    · exact .inl rfl

/-- What the guards say at the end of a batch. -/
structure Committed (group : RestoreGroup J) (hash : String) (db : FeedTables J) : Prop where
  marker : (group.content.id, ⟨group.content.response.identity, hash⟩) ∈ db.imports
  header : ∃ row ∈ db.responses, row.2 = group.content.response
  payload : db.payload group.content.id = group.content.payload ∨
    ∃ p, group.content.payload = some p ∧ (group.content.id, p) ∈ db.payloads
  binding : ∀ source, group.first = some source → ∀ o, (group.content.id, o) ∈ db.origins →
    sameOriginBinding o source = true
  origins : ∀ e ∈ group.origins, (group.content.id, e.origin) ∈ db.origins
  policies : ∀ e ∈ group.origins, ∀ p ∈ baselinePolicy e.origin :: e.policies, (group.content.id, p) ∈ db.policies

lemma committed_of_guard (h : committedGuard db hash group = true) : Committed group hash db := by
  simp only [committedGuard, completeGuard, claimGuard, Bool.and_eq_true, List.all_eq_true, List.contains_iff_mem] at h
  obtain ⟨⟨⟨⟨hmarker, hbinding⟩, hheader⟩, hpayload⟩, hevidence⟩ := h
  refine ⟨by simpa [markerGuard] using hmarker, by simpa [headerGuard] using hheader, ?_, ?_,
    fun e he => (hevidence e he).1, fun e he => (hevidence e he).2⟩
  · unfold payloadGuard at hpayload
    split at hpayload
    · rename_i hnone
      rw [hnone]
      exact .inl (Option.isNone_iff_eq_none.mp hpayload)
    · rename_i p hp
      exact .inr ⟨p, hp, by simpa using hpayload⟩
  · intro source hs o ho
    rw [hs] at hbinding
    simp only [Option.all_some, bindingGuard, List.all_eq_true] at hbinding
    simpa using hbinding _ ho

variable (hok : TablesOk contentSha256 db)
  (hsha : ∀ header p, contentSha256 ⟨header, none⟩ ≠ contentSha256 ⟨header, some p⟩)
include hok hsha

/-- A batch that is committed finds all of the group's response, or nothing of it. -/
lemma restoreBatch_some (h : restoreBatch db (contentSha256 group.content) sequence group = some db') :
    ∃ base, (base = db ∨ base = db.addGroup sequence (contentSha256 group.content) group.content ∧
        (∀ row ∈ db.responses, row.2.responseId ≠ group.content.id) ∧ (∀ o, (group.content.id, o) ∉ db.origins) ∧
        ∀ m, (group.content.id, m) ∉ db.imports) ∧
      AddsEvidence group base db' ∧ Committed group (contentSha256 group.content) db' := by
  simp only [restoreBatch, restoreStatements, List.foldl_append, List.foldl_cons, List.foldl_nil] at h
  split_ifs at h with hguard
  generalize hone : runStatement db group.content (contentSha256 group.content) group.first .marker = db₁ at h hguard
  generalize htwo : runStatement db₁ group.content (contentSha256 group.content) group.first (.header sequence) = db₂
    at h hguard
  generalize hthree : runStatement db₂ group.content (contentSha256 group.content) group.first .payload = db₃
    at h hguard
  have hadds : AddsEvidence group db₃ db' := by
    rw [← Option.some.inj h]
    exact addsEvidence_statements fun st hst => List.mem_flatMap.mp hst
  have hcommitted : Committed group (contentSha256 group.content) db' := by
    rw [← Option.some.inj h]
    exact committed_of_guard hguard
  refine ⟨db₃, ?_, hadds, hcommitted⟩
  have hid : group.content.id = group.content.response.responseId := rfl
  obtain ⟨row, hrow, hresponse⟩ := hcommitted.header
  rw [hadds.responses] at hrow
  have hmarker := hcommitted.marker
  rw [hadds.imports] at hmarker
  rcases runStatement_marker db group.content with hm | ⟨hm, hnew, hnone, hfree⟩
  · -- no marker is added, so the response was restored before
    left
    obtain rfl : db = db₁ := hm.symm.trans hone
    have himports : db₃.imports = db.imports := by
      rcases runStatement_header db group.content with h₂ | ⟨h₂, -⟩ <;> rw [htwo] at h₂ <;>
        rcases runStatement_payload db₂ group.content with h₃ | ⟨p, -, -, h₃⟩ <;> rw [hthree] at h₃ <;>
        rw [h₃, h₂]
    rw [himports] at hmarker
    obtain ⟨old, hold, holdId, -, hhash⟩ := hok.imports.content _ _ hmarker
    have hsecond : db₂ = db := by
      rcases runStatement_header db group.content with h₂ | ⟨-, hne⟩
      · exact htwo.symm.trans h₂
      · exact absurd holdId (hne old hold)
    subst hsecond
    rcases runStatement_payload db₂ group.content with h₃ | ⟨p, hp, hempty, h₃⟩
    · exact hthree.symm.trans h₃
    · -- a late payload would have another hash
      rw [hthree] at h₃
      rw [h₃] at hrow
      obtain rfl := hok.responses.row_unique hrow hold (by rw [hresponse, holdId, hid])
      rw [hresponse, hempty] at hhash
      refine absurd hhash.symm ?_
      have := hsha group.content.response p
      rwa [← hp] at this
  · right
    rw [hone] at hm
    refine ⟨?_, hnew, hnone, hfree⟩
    have hsecond : db₂ = { db₁ with responses := db₁.responses ++ [(sequence, group.content.response)] } := by
      rcases runStatement_header db₁ group.content with h₂ | ⟨h₂, -⟩
      · exfalso
        have hresponses : db₃.responses = db.responses := by
          rcases runStatement_payload db₂ group.content with h₃ | ⟨p, -, -, h₃⟩ <;> rw [hthree] at h₃ <;>
            rw [h₃, ← htwo, h₂, hm]
        rw [hresponses] at hrow
        exact hnew row hrow (by rw [hresponse, hid])
      · exact htwo.symm.trans h₂
    have hpayload : db₂.payload group.content.id = none := by
      rw [hsecond, hm]
      refine payload_eq_none.mpr fun p hp => ?_
      obtain ⟨old, hold, he⟩ := hok.responses.header _ hp
      exact hnew old hold he
    rcases runStatement_payload db₂ group.content with h₃ | ⟨p, hp, -, h₃⟩
    · have hnopayload : group.content.payload = none := by
        have hfinal : db'.payload group.content.id = none := by
          rw [FeedTables.payload, hadds.payloads, ← hthree, h₃]
          exact hpayload
        rcases hcommitted.payload with he | ⟨p, hp, hmem⟩
        · rw [← he, hfinal]
        · exact absurd hmem (payload_eq_none.mp hfinal p)
      rw [← hthree, h₃, hsecond, hm]
      simp [FeedTables.addGroup, FeedTables.addResponse, hnopayload]
    · rw [← hthree, h₃, hsecond, hm]
      simp [FeedTables.addGroup, FeedTables.addResponse, hp, RestoreContent.id]

omit [DecidableEq J] hsha in
lemma addGroup_ok (hfresh : db.fresh sequence = true)
    (hnew : ∀ row ∈ db.responses, row.2.responseId ≠ group.content.id) :
    ResponsesOk (db.addGroup sequence hash group.content) ∧ Grows db (db.addGroup sequence hash group.content) := by
  have hnew' : ∀ row ∈ db.responses, row.2.responseId ≠ group.content.response.responseId := hnew
  have hgrows := addResponse_grows sequence group.content.payload hnew'
  refine ⟨(addResponse_ok hok.responses hfresh hnew').congr rfl rfl, ?_⟩
  refine ⟨hgrows.cards, hgrows.handlings, hgrows.responses, hgrows.payloads, List.prefix_append _ _, hgrows.origins,
    hgrows.policies, hgrows.payload, fun id hl => ⟨(hgrows.live id hl).1, fun m hm => ?_⟩⟩
  rcases List.mem_append.mp hm with hm | hm
  · exact hl.2 m hm
  · obtain ⟨row, hrow, hid⟩ := hl.1
    have he : id = group.content.id := (Prod.mk.inj (List.mem_singleton.mp hm)).1
    exact hnew row hrow (hid.trans he)

omit [DecidableEq J] hok hsha in
lemma AddsEvidence.grows (h : AddsEvidence group db db') : Grows db db' where
  cards := h.cards ▸ List.prefix_rfl
  handlings := h.handlings ▸ List.prefix_rfl
  responses := h.responses ▸ List.prefix_rfl
  payloads := h.payloads ▸ List.prefix_rfl
  imports := h.imports ▸ List.prefix_rfl
  origins := h.origins
  policies := h.policies
  payload row _ := by rw [FeedTables.payload, h.payloads, FeedTables.payload]
  live id hl := by
    rw [Live, h.responses, h.imports]
    exact hl

omit [DecidableEq J] hok hsha in
lemma sameOriginBinding_of {a b c : FeedRestoreOrigin} (ha : sameOriginBinding a c = true)
    (hb : sameOriginBinding b c = true) : sameOriginBinding a b = true := by
  simp only [sameOriginBinding, Bool.and_eq_true, beq_iff_eq] at ha hb ⊢
  exact ⟨⟨⟨ha.1.1.1.trans hb.1.1.1.symm, ha.1.1.2.trans hb.1.1.2.symm⟩, ha.1.2.trans hb.1.2.symm⟩,
    ha.2.trans hb.2.symm⟩

/-- A batch keeps the tables in order. -/
lemma restoreBatch_ok (hgroup : GroupOk group) (hfresh : db.fresh sequence = true)
    (h : restoreBatch db (contentSha256 group.content) sequence group = some db') :
    TablesOk contentSha256 db' ∧ Grows db db' := by
  obtain ⟨base, hbase, hadds, hcommitted⟩ := restoreBatch_some hok hsha h
  have hresponses : ResponsesOk base ∧ Grows db base := by
    rcases hbase with rfl | ⟨rfl, hnew, -, -⟩
    · exact ⟨hok.responses, .refl _⟩
    · exact addGroup_ok hok hfresh hnew
  have hr : ResponsesOk db' := hresponses.1.congr hadds.responses hadds.payloads
  have hgrows : Grows db db' := hresponses.2.trans hadds.grows
  -- what the rows under another ID were before
  have horigin : ∀ id o, (id, o) ∈ db'.origins → (id, o) ∈ db.origins ∨ id = group.content.id := by
    intro id o ho
    rcases hadds.fromOrigin _ ho with ho | ⟨e, -, he⟩
    · left
      rcases hbase with rfl | ⟨rfl, -⟩ <;> exact ho
    · exact .inr (Prod.mk.inj he).1
  have hpolicy : ∀ id p, (id, p) ∈ db'.policies → (id, p) ∈ db.policies ∨ id = group.content.id ∧
      ∃ e ∈ group.origins, p ∈ baselinePolicy e.origin :: e.policies := by
    intro id p hp
    rcases hadds.fromPolicy _ hp with hp | ⟨e, he, q, hq, heq⟩
    · left
      rcases hbase with rfl | ⟨rfl, -⟩ <;> exact hp
    · obtain ⟨rfl, rfl⟩ := Prod.mk.inj heq
      exact .inr ⟨rfl, e, he, hq⟩
  have himport : ∀ id m, (id, m) ∈ db'.imports → (id, m) ∈ db.imports ∨
      (id = group.content.id ∧ m = ⟨group.content.response.identity, contentSha256 group.content⟩) := by
    intro id m hm
    rw [hadds.imports] at hm
    rcases hbase with rfl | ⟨rfl, -⟩
    · exact .inl hm
    · exact (List.mem_append.mp hm).imp (fun hm => hm) fun hm => Prod.mk.inj (List.mem_singleton.mp hm)
  have hunique : db'.imports.Pairwise fun a b => a.1 ≠ b.1 := by
    rw [hadds.imports]
    rcases hbase with rfl | ⟨rfl, -, -, hfree⟩
    · exact hok.imports.unique
    · refine pairwise_snoc hok.imports.unique fun row hrow he => hfree row.2 ?_
      have hid : row.1 = group.content.id := he
      rw [← hid]
      exact hrow
  have hpayload : db'.payload group.content.id = group.content.payload := by
    rcases hcommitted.payload with he | ⟨p, hp, hmem⟩
    · exact he
    · rw [hr.payload_of_mem hmem, hp]
  have hkept : ∀ id m, (id, m) ∈ db.imports → ∃ row ∈ db'.responses, row.2.responseId = id ∧
      row.2.identity = m.identity ∧ m.contentSha256 = contentSha256 ⟨row.2, db'.payload id⟩ := by
    intro id m hm
    obtain ⟨row, hrow, hid, hidentity, hhash⟩ := hok.imports.content id m hm
    refine ⟨row, hgrows.responses.subset hrow, hid, hidentity, ?_⟩
    rw [← hid, hgrows.payload row hrow, hid]
    exact hhash
  refine ⟨⟨?_, hr, ⟨hunique, ?_, ?_, ?_, ?_, ?_, ?_⟩⟩, hgrows⟩
  · have hcards : db'.cards = db.cards := by
      rw [hadds.cards]
      rcases hbase with rfl | ⟨rfl, -⟩ <;> rfl
    have hhandlings : db'.handlings = db.handlings := by
      rw [hadds.handlings]
      rcases hbase with rfl | ⟨rfl, -⟩ <;> rfl
    refine ⟨hcards ▸ hok.output.cards, hhandlings ▸ hok.output.handlings, ?_, hhandlings ▸ hok.output.outcome⟩
    rw [hhandlings]
    exact hok.output.issuance
  · intro id m hm
    rcases himport id m hm with hm | ⟨rfl, rfl⟩
    · exact hkept id m hm
    · obtain ⟨row, hrow, hresponse⟩ := hcommitted.header
      refine ⟨row, hrow, by rw [hresponse, RestoreContent.id], by rw [hresponse], ?_⟩
      rw [hresponse, hpayload]
  · intro id o ho
    rcases horigin id o ho with ho | rfl
    · obtain ⟨m, hm⟩ := hok.imports.marker id o ho
      exact ⟨m, hgrows.imports.subset hm⟩
    · exact ⟨_, hcommitted.marker⟩
  · intro id p hp
    rcases hpolicy id p hp with hp | ⟨rfl, e, he, hp⟩
    · exact ⟨hgrows.origins.subset (hok.imports.source id p hp).1, (hok.imports.source id p hp).2⟩
    · rcases List.mem_cons.mp hp with rfl | hp
      · exact ⟨hcommitted.origins e he, fun _ => rfl⟩
      · obtain ⟨hsource, hrecipient⟩ := hgroup.policies e he p hp
        exact ⟨hsource ▸ hcommitted.origins e he, fun h => absurd h hrecipient⟩
  · intro id m hm
    rcases himport id m hm with hm | ⟨rfl, -⟩
    · obtain ⟨o, ho⟩ := hok.imports.origin id m hm
      exact ⟨o, hgrows.origins.subset ho⟩
    · obtain ⟨e, he⟩ := List.exists_mem_of_ne_nil _ hgroup.nonempty
      exact ⟨e.origin, hcommitted.origins e he⟩
  · intro id a b ha hb
    rcases horigin id a ha with ha' | rfl
    · rcases horigin id b hb with hb' | rfl
      · exact hok.imports.binding id a b ha' hb'
      · obtain ⟨e, es, hcons⟩ := List.exists_cons_of_ne_nil hgroup.nonempty
        have hfirst : group.first = some e.origin := by rw [RestoreGroup.first, hcons]; rfl
        exact sameOriginBinding_of (hcommitted.binding _ hfirst a ha) (hcommitted.binding _ hfirst b hb)
    · obtain ⟨e, es, hcons⟩ := List.exists_cons_of_ne_nil hgroup.nonempty
      have hfirst : group.first = some e.origin := by rw [RestoreGroup.first, hcons]; rfl
      exact sameOriginBinding_of (hcommitted.binding _ hfirst a ha) (hcommitted.binding _ hfirst b hb)
  · intro id o ho
    rcases hadds.fromOrigin _ ho with ho' | ⟨e, he, heq⟩
    · have : (id, o) ∈ db.origins := by
        rcases hbase with rfl | ⟨rfl, -⟩ <;> exact ho'
      exact hgrows.policies.subset (hok.imports.baseline id o this)
    · obtain ⟨rfl, rfl⟩ := Prod.mk.inj heq
      exact hcommitted.policies e he _ List.mem_cons_self

end Batch

end TinyCloud.Feed
