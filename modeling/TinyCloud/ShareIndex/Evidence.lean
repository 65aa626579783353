import TinyCloud.ShareIndex.Consistency
import TinyCloud.ShareIndex.Index

/-!
# What a request rests on

A call decides from its own earlier requests. The log of all requests only grows, so what it shows for
a call stays shown, whatever the other writers do.
-/

namespace TinyCloud.ShareIndex

open TinyCloud.Collections TinyCloud.Runs

/-- A property of logs that more requests do not take away. -/
structure Evidence where
  holds : List Entry → Prop
  grows : ∀ e log, holds log → holds (e :: log)

namespace Evidence

variable {E E' : Evidence} {x : CallId} {o : Op} {a : o.Res} {log : List Entry}

def always : Evidence := ⟨fun _ => True, fun _ _ _ => trivial⟩

/-- The call `x` was answered `a`, and there was the evidence `E` before. -/
def after (E : Evidence) (x : CallId) (o : Op) (a : o.Res) : Evidence where
  holds log := ∃ later before landed, log = later ++ ⟨x, o, some a, landed⟩ :: before ∧ E.holds before
  grows e log := by
    rintro ⟨later, before, landed, rfl, h⟩
    exact ⟨e :: later, before, landed, rfl, h⟩

lemma append (later : List Entry) (h : E.holds log) : E.holds (later ++ log) := by
  induction later with
  | nil => exact h
  | cons e later ih => exact E.grows e _ ih

lemma before (h : (E.after x o a).holds log) : E.holds log := by
  obtain ⟨later, before, landed, rfl, h⟩ := h
  exact E.append later (E.grows _ _ h)

lemma mem (h : (E.after x o a).holds log) : ∃ landed, ⟨x, o, some a, landed⟩ ∈ log := by
  obtain ⟨later, before, landed, rfl, -⟩ := h
  exact ⟨landed, List.mem_append_right _ List.mem_cons_self⟩

lemma mono (hE : ∀ log, E.holds log → E'.holds log) (h : (E.after x o a).holds log) : (E'.after x o a).holds log := by
  obtain ⟨later, before, landed, rfl, h⟩ := h
  exact ⟨later, before, landed, rfl, hE _ h⟩

/-- The first answer to the call `x`. -/
def first (x : CallId) (o : Op) (a : o.Res) : Evidence where
  holds log := ∃ later before landed, log = later ++ ⟨x, o, some a, landed⟩ :: before ∧ ∀ e ∈ before, e.call ≠ x
  grows e log := by
    rintro ⟨later, before, landed, rfl, h⟩
    exact ⟨e :: later, before, landed, rfl, h⟩

lemma mem_first (h : (first x o a).holds log) : ∃ landed, ⟨x, o, some a, landed⟩ ∈ log := by
  obtain ⟨later, before, landed, rfl, -⟩ := h
  exact ⟨landed, List.mem_append_right _ List.mem_cons_self⟩

def and (E E' : Evidence) : Evidence :=
  ⟨fun log => E.holds log ∧ E'.holds log, fun e log h => ⟨E.grows e log h.1, E'.grows e log h.2⟩⟩

def pure (p : Prop) : Evidence := ⟨fun _ => p, fun _ _ h => h⟩

end Evidence

open Evidence

section Fit

variable (S : Settings) (x : CallId)

/-- What was read is there and is not a document. -/
def Unreadable (found : DocumentRead MainValue) (etag : ℕ) : Prop :=
  found = .corrupt (some etag) ∨ ∃ value, found = .ok value etag ∧ parseIndexDocument value = .invalid

def wasRead (found : DocumentRead MainValue) : Evidence := always.after x .readMain found

def wasListed (found : DocumentRead MainValue) (list : ListResult) : Evidence :=
  (wasRead x found).after x (.listKeys "_index/" none) list

/-- Every archive document on the listed page has been read, and is listed with its keys if it could be. -/
def Rediscovered (E : Evidence) (base : Doc) (keys : List String) (log : List Entry) : Prop :=
  ∀ key ∈ keys, ∀ name, classifyRecordKey key = .index name → name ≠ "main" →
    ∃ read, (E.after x (.readArchive name .rebuild) read).holds log ∧
      ∀ rows, archiveRows read = some rows → ⟨name, rows.keys⟩ ∈ base.archives

structure Rebuilt (found : DocumentRead MainValue) (base : Doc) (log : List Entry) : Prop where
  empty : ∃ t, base = { S.emptyDoc x.writer t with archives := base.archives }
  listed : ∃ list, (wasListed x found list).holds log ∧
    ∀ keys cursor, list = .ok keys cursor → Rediscovered x (wasListed x found list) base keys log

/-- The document that a change is applied to, and the condition of the write, come from one read. -/
inductive BaseFit (condition : Condition) (base : Doc) (log : List Entry) : Prop
  | fresh (t : ℤ) (h : (wasRead x .notFound).holds log) (hc : condition = .ifNoneMatch)
      (hb : base = S.emptyDoc x.writer t)
  | read (value : MainValue) (etag : ℕ) (h : (wasRead x (.ok value etag)).holds log)
      (hc : condition = .ifMatch etag) (hb : parseIndexDocument value = .ok base)
  | rebuilt (found : DocumentRead MainValue) (etag : ℕ) (h : (wasRead x found).holds log)
      (hc : condition = .ifMatch etag) (hu : Unreadable found etag) (hb : Rebuilt S x found base log)

def documentOf : DocumentRead MainValue → Option Doc
  | .ok value _ => match parseIndexDocument value with
    | .ok doc => some doc
    | _ => none
  | _ => none

/-- The document that the call has loaded; any other when there was none. -/
def Loaded (doc : Doc) (log : List Entry) : Prop :=
  ∃ found, (first x .readMain found).holds log ∧ ∀ doc', documentOf found = some doc' → doc' = doc

/-- The archive documents of `doc` have been read, and those that could be read show no such claim. -/
def Unclaimed (doc : Doc) (row : Row) (log : List Entry) : Prop :=
  ∀ archive ∈ doc.archives, ∃ read, (always.after x (.readArchive archive.name .claims) read).holds log ∧
    ∀ rows, archiveRows read = some rows → ∀ other ∈ rows.values, ∀ cid ∈ row.claims, cid ∈ other.claims →
      claimRank other < claimRank row

def FindingFit (log : List Entry) : Finding → Prop
  | .agent _ agentId _ row => agentOf row = some agentId ∧
      (row.ps ≠ some .proven → ∃ found, (first x .readMain found).holds log ∧
        ∀ doc, documentOf found = some doc → Unclaimed x doc row log)
  | .web _ row => agentOf row = none
  | _ => True

def ChangeFit (log : List Entry) : Change → Prop
  | .ops batch => (first x .outboxList batch).holds log
  | .findings found _ => ∀ finding ∈ found, FindingFit x log finding
  | .statuses _ => True
  | .compaction groups _ => ∀ group ∈ groups, ∃ next condition,
      (always.after x (.writeArchive group next condition) .ok).holds log

/-- The change and its document at the moment of the mutation. -/
def MutateFit (change : Change) (base : Doc) (condition : Condition) (log : List Entry) : Prop :=
  BaseFit S x condition base log ∧ ChangeFit x log change

def Mutated (change : Change) (base : Doc) (condition : Condition) (now : ℤ) (log : List Entry) : Prop :=
  ∃ later before landed, log = later ++ ⟨x, .mutate change base, some now, landed⟩ :: before ∧
    MutateFit S x change base condition before

/-- The application of the change is the last request of the call. -/
def JustMutated (change : Change) (base : Doc) (condition : Condition) (now : ℤ) (log : List Entry) : Prop :=
  ∃ later before landed, log = later ++ ⟨x, .mutate change base, some now, landed⟩ :: before ∧
    (∀ e ∈ later, e.call ≠ x) ∧ MutateFit S x change base condition before

def Op.isMutate : Op → Bool
  | .mutate _ _ => true
  | _ => false

/-- The last application of the call. -/
def LastMutated (change : Change) (base : Doc) (now : ℤ) (log : List Entry) : Prop :=
  ∃ later before landed, log = later ++ ⟨x, .mutate change base, some now, landed⟩ :: before ∧
    ∀ e ∈ later, e.call = x → e.op.isMutate = false

/-- The conditions of a merge: nothing is stored, or what was read. -/
inductive MergeFit (group : Group) (next : Rows) (condition : Condition) (log : List Entry) : Prop
  | fresh (h : (always.after x (.readArchive group.name .merge) .notFound).holds log)
      (hc : condition = .ifNoneMatch) (hn : next = mergeRows Dict.empty group.rows)
  | corrupt (etag : ℕ) (h : (always.after x (.readArchive group.name .merge) (.corrupt (some etag))).holds log)
      (hc : condition = .ifMatch etag) (hn : next = mergeRows Dict.empty group.rows)
  | read (value : ArchiveValue) (etag : ℕ)
      (h : (always.after x (.readArchive group.name .merge) (.ok value etag)).holds log)
      (hc : condition = .ifMatch etag) (hn : next = mergeRows ((parseArchiveDocument value).getD Dict.empty) group.rows)

/-- The rows of a group are rows of the document that the call has loaded. -/
def CopiedFrom (group : Group) (log : List Entry) : Prop :=
  ∃ found doc, (first x .readMain found).holds log ∧ documentOf found = some doc ∧
    ∀ k row, group.rows.get? k = some row → doc.rows.get? k = some row

/-- The last application of the change settles it: its write is acknowledged, or it changes nothing. -/
def Decided (change : Change) (base : Doc) (now : ℤ) (log : List Entry) : Prop :=
  (∃ value etag, Mutated S x change base (.ifMatch etag) now log ∧ parseIndexDocument value = .ok base ∧
      (wasRead x (.ok value etag)).holds log ∧
      sameContent base (change.apply S.host S.limits now base).1 = true) ∨
    ∃ next condition, Mutated S x change base condition now log ∧
      (always.after x (.writeMain change base now next condition) .ok).holds log

def refusedBy (batch : List ShareIndexOp) (base : Doc) (now : ℤ) : List String :=
  ((Change.ops batch).apply S.host S.limits now base).2.refused

def Fit (log : List Entry) : Op → Prop
  | .mutate change base => ∃ condition, MutateFit S x change base condition log
  | .writeMain change base now next condition =>
    JustMutated S x change base condition now log ∧
      next = stamp S x.writer now (change.apply S.host S.limits now base).1
  | .writeArchive group next condition => MergeFit x group next condition log ∧ CopiedFrom x group log
  | .outboxRemove ids => ∃ batch base now, Decided S x (.ops batch) base now log ∧ ids = batch.map (·.id)
  | .flushed result => (result.status = some .written ∨ result.status = some .unchanged →
        ∃ batch base now, Decided S x (.ops batch) base now log ∧ result.refused = refusedBy S batch base now) ∧
      (result.refused = [] ∨ ∃ batch base now, LastMutated x (.ops batch) base now log ∧
        result.refused = refusedBy S batch base now)
  | _ => True

end Fit

section Growth

variable {S : Settings} {x : CallId} {e : Entry} {log : List Entry} {base doc : Doc} {condition : Condition}

lemma Rebuilt.grows {found : DocumentRead MainValue} (h : Rebuilt S x found base log) :
    Rebuilt S x found base (e :: log) := by
  obtain ⟨list, hl, hr⟩ := h.listed
  refine ⟨h.empty, list, (wasListed x found list).grows e log hl, fun keys cursor hlist key hk name hc hn => ?_⟩
  obtain ⟨read, hread, hrows⟩ := hr keys cursor hlist key hk name hc hn
  exact ⟨read, Evidence.grows _ e log hread, hrows⟩

lemma BaseFit.grows (h : BaseFit S x condition base log) : BaseFit S x condition base (e :: log) := by
  cases h with
  | fresh t h hc hb => exact .fresh t ((wasRead x _).grows e log h) hc hb
  | read value etag h hc hb => exact .read value etag ((wasRead x _).grows e log h) hc hb
  | rebuilt found etag h hc hu hb => exact .rebuilt found etag ((wasRead x _).grows e log h) hc hu hb.grows

lemma Loaded.grows (h : Loaded x doc log) : Loaded x doc (e :: log) := by
  obtain ⟨found, hf, hd⟩ := h
  exact ⟨found, Evidence.grows _ e log hf, hd⟩

lemma CopiedFrom.grows {group : Group} (h : CopiedFrom x group log) : CopiedFrom x group (e :: log) := by
  obtain ⟨found, doc, hf, hd, hrows⟩ := h
  exact ⟨found, doc, Evidence.grows _ e log hf, hd, hrows⟩

lemma Unclaimed.grows {row : Row} (h : Unclaimed x doc row log) : Unclaimed x doc row (e :: log) := by
  intro archive ha
  obtain ⟨read, hread, hrows⟩ := h archive ha
  exact ⟨read, Evidence.grows _ e log hread, hrows⟩

lemma FindingFit.grows {finding : Finding} (h : FindingFit x log finding) : FindingFit x (e :: log) finding := by
  cases finding with
  | agent key agentId did row =>
    refine ⟨h.1, fun hps => ?_⟩
    obtain ⟨found, hf, hu⟩ := h.2 hps
    exact ⟨found, Evidence.grows _ e log hf, fun doc hd => (hu doc hd).grows⟩
  | _ => exact h

lemma ChangeFit.grows {change : Change} (h : ChangeFit x log change) : ChangeFit x (e :: log) change := by
  cases change with
  | ops batch => exact Evidence.grows _ e log h
  | findings found cursor => exact fun finding hf => FindingFit.grows (h finding hf)
  | statuses results => trivial
  | compaction groups expired =>
    intro group hg
    obtain ⟨next, condition, hw⟩ := h group hg
    exact ⟨next, condition, Evidence.grows _ e log hw⟩

lemma ChangeFit.sourced {change : Change} (h : ChangeFit x log change)
    (hops : ∀ batch, change = .ops batch → change.Sourced) : change.Sourced := by
  cases change with
  | ops batch => exact hops batch rfl
  | findings found cursor =>
    intro finding hf
    have hfit := h finding hf
    cases finding with
    | agent key agentId did row => exact hfit.1
    | web key row => exact hfit
    | _ => trivial
  | statuses results => trivial
  | compaction groups expired => trivial

lemma Mutated.grows {change : Change} {now : ℤ} (h : Mutated S x change base condition now log) :
    Mutated S x change base condition now (e :: log) := by
  obtain ⟨later, before, landed, rfl, h⟩ := h
  exact ⟨e :: later, before, landed, rfl, h⟩

lemma Mutated.fit {change : Change} {now : ℤ} (h : Mutated S x change base condition now log) :
    MutateFit S x change base condition log := by
  obtain ⟨later, before, landed, rfl, hb, hc⟩ := h
  induction later with
  | nil => exact ⟨hb.grows, hc.grows⟩
  | cons e later ih => exact ⟨ih.1.grows, ih.2.grows⟩

lemma JustMutated.mutated {change : Change} {now : ℤ} (h : JustMutated S x change base condition now log) :
    Mutated S x change base condition now log := by
  obtain ⟨later, before, landed, rfl, -, h⟩ := h
  exact ⟨later, before, landed, rfl, h⟩

lemma JustMutated.fit {change : Change} {now : ℤ} (h : JustMutated S x change base condition now log) :
    MutateFit S x change base condition log := h.mutated.fit

lemma Decided.grows {change : Change} {now : ℤ} (h : Decided S x change base now log) :
    Decided S x change base now (e :: log) := by
  rcases h with ⟨value, etag, hm, hp, hr, hs⟩ | ⟨next, condition, hm, hw⟩
  · exact .inl ⟨value, etag, hm.grows, hp, Evidence.grows _ e log hr, hs⟩
  · exact .inr ⟨next, condition, hm.grows, Evidence.grows _ e log hw⟩

def changeFit (x : CallId) (change : Change) : Evidence :=
  ⟨fun log => ChangeFit x log change, fun _ _ h => h.grows⟩

def baseFit (S : Settings) (x : CallId) (condition : Condition) (base : Doc) : Evidence :=
  ⟨BaseFit S x condition base, fun _ _ h => h.grows⟩

def rebuilt (S : Settings) (x : CallId) (found : DocumentRead MainValue) (base : Doc) : Evidence :=
  ⟨Rebuilt S x found base, fun _ _ h => h.grows⟩

/-- What an update reports comes from its last application, or there was none. -/
def reported (S : Settings) (x : CallId) (change : Change) (feedback : Feedback) : Evidence where
  holds log := feedback = noFeedback ∨ ∃ base condition now, Mutated S x change base condition now log ∧
    feedback = (change.apply S.host S.limits now base).2
  grows e log := by
    rintro (h | ⟨base, condition, now, hm, hf⟩)
    · exact .inl h
    · exact .inr ⟨base, condition, now, hm.grows, hf⟩

/-- The end of an update: when it says that the change is there, the change was settled by its last application. -/
def ended (S : Settings) (x : CallId) (change : Change) (r : WriteOutcome × Feedback) : Evidence where
  holds log := (reported S x change r.2).holds log ∧ (r.1.status = .written ∨ r.1.status = .unchanged →
    ∃ base now, Decided S x change base now log ∧ r.2 = (change.apply S.host S.limits now base).2)
  grows e log h := by
    refine ⟨(reported S x change r.2).grows e log h.1, fun hs => ?_⟩
    obtain ⟨base, now, hd, hf⟩ := h.2 hs
    exact ⟨base, now, hd.grows, hf⟩

end Growth

end TinyCloud.ShareIndex
