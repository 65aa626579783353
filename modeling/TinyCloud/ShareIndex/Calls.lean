import TinyCloud.ShareIndex.Evidence

/-!
# The requests of a call

Every request of a call is fit at its moment: a write was computed from a document the call has read, ops leave the
outbox after an application has settled them, and a finding rests on the archives that the pass has read.
-/

namespace TinyCloud.ShareIndex

open TinyCloud.Collections TinyCloud.Runs Evidence

variable (S : Settings)

def requestsOf (fits : CallId → List Entry → Op → Prop) : Protocol CallId (List Entry) Op Op.Res where
  exec x o log answer log' := ∃ landed, log' = ⟨x, o, answer, landed⟩ :: log
  inv _ := True
  rely x log log' := ∃ later, log' = later ++ log ∧ ∀ e ∈ later, e.call ≠ x
  guar x log log' := ∃ e, log' = e :: log ∧ e.call = x ∧ fits x log e.op
  compatible := by
    rintro x y s t hxy ⟨e, rfl, rfl, -⟩
    exact ⟨[e], rfl, fun e' he => (List.mem_singleton.mp he) ▸ hxy⟩

abbrev requests : Protocol CallId (List Entry) Op Op.Res := requestsOf (Fit S)

variable {α β : Type} (x : CallId)

/-- With the evidence `E`, all requests of `m` are fit, and its result comes with the evidence `Q`. -/
abbrev Steps (E : Evidence) (m : Call α) (Q : α → Evidence) : Prop :=
  (requests S).Spec x E.holds m (fun a => (Q a).holds) fun _ _ => True

section Rules

variable {S x} {E E' F : Evidence} {m : Call α} {Q Q' : α → Evidence} {R : β → Evidence}

lemma stable (E : Evidence) : (requests S).Stable x E.holds := by
  rintro log _ hE ⟨later, rfl, -⟩
  exact E.append later hE

lemma Steps.bind {f : α → Call β} (hm : Steps S x E m Q) (hf : ∀ a, Steps S x (Q a) (f a) R) :
    Steps S x E (m >>= f) R :=
  Protocol.Spec.bind hm hf

lemma Steps.pure {a : α} (h : ∀ log, E.holds log → (Q a).holds log) : Steps S x E (pure a) Q :=
  Protocol.Spec.pure fun log _ => h log

lemma Steps.throw {failure : Failure} : Steps S x E (throw failure : Call α) Q :=
  Protocol.Spec.throw fun _ _ _ => trivial

lemma Steps.pre (h : Steps S x E m Q) (hE : ∀ log, E'.holds log → E.holds log) : Steps S x E' m Q :=
  Protocol.Spec.mono h (fun log _ => hE log) (fun _ _ _ h => h) fun _ _ _ h => h

lemma Steps.post (h : Steps S x E m Q) (hQ : ∀ a log, (Q a).holds log → (Q' a).holds log) : Steps S x E m Q' :=
  Protocol.Spec.mono h (fun _ _ h => h) (fun a log _ => hQ a log) fun _ _ _ h => h

lemma Steps.frame (h : Steps S x E m Q) (F : Evidence) : Steps S x (E.and F) m fun a => (Q a).and F := by
  refine Protocol.Spec.frame h (stable F) ?_
  rintro log _ hF ⟨e, rfl, -⟩
  exact F.grows e log hF

lemma asked {o : Op} {P : List Entry → Prop} (h : ∀ log, P log → E.holds log ∧ Fit S x log o) :
    (requests S).Spec x P (ask o) (fun a => (E.after x o a).holds) fun _ _ => True := by
  refine Protocol.Spec.perform (fun a => stable _) Protocol.Stable.const ?_
  rintro log - hP answer _ ⟨landed, rfl⟩
  refine ⟨trivial, ⟨_, rfl, rfl, (h log hP).2⟩, ?_⟩
  cases answer with
  | some a => exact ⟨[], log, landed, rfl, (h log hP).1⟩
  | none => trivial

lemma Steps.ask {o : Op} (h : ∀ log, E.holds log → Fit S x log o) :
    Steps S x E (ask o) fun a => E.after x o a :=
  asked fun log hE => ⟨hE, h log hE⟩

lemma runCas_spec {Γ : Protocol CallId (List Entry) Op Op.Res} {σ : Type} {attempt : σ → Call (Attempt α × σ)}
    {I : σ → List Entry → Prop} {Q : α × σ → List Entry → Prop}
    (h : ∀ s, Γ.Spec x (I s) (attempt s) (fun r => match r with
      | (.done a, s) => Q (a, s)
      | (.write .ok a, s) => Q (a, s)
      | (.write _ _, s) => I s) fun _ _ => True)
    (attempts : ℕ) (s : σ) : Γ.Spec x (I s) (runCas attempt attempts s) Q fun _ _ => True := by
  have hthrow : ∀ {P : List Entry → Prop} {failure : Failure},
      Γ.Spec x P (throw failure : Call (α × σ)) Q fun _ _ => True := Protocol.Spec.throw fun _ _ _ => trivial
  induction attempts generalizing s with
  | zero => exact hthrow
  | succ attempts ih =>
    refine Protocol.Spec.bind (h s) fun r => ?_
    obtain ⟨a | ⟨result, a⟩, s⟩ := r
    · exact Protocol.Spec.pure fun _ _ h => h
    · cases result with
      | ok => exact Protocol.Spec.pure fun _ _ h => h
      | conflict => exact ih s
      | outcomeUnknown => exact ih s
      | busy => exact ih s
      | unauthorized => exact hthrow
      | failed => exact hthrow
      | invalidEtag => exact hthrow

lemma Steps.runCas {σ : Type} {attempt : σ → Call (Attempt α × σ)} {I : σ → Evidence} {Q : α × σ → Evidence}
    (h : ∀ s, Steps S x (I s) (attempt s) fun r => match r with
      | (.done a, s) => Q (a, s)
      | (.write .ok a, s) => Q (a, s)
      | (.write _ _, s) => I s)
    (attempts : ℕ) (s : σ) : Steps S x (I s) (runCas attempt attempts s) Q := by
  refine runCas_spec (I := fun s => (I s).holds) (fun s => Protocol.Spec.mono (h s) (fun _ _ h => h)
    (fun r log _ hr => ?_) fun _ _ _ h => h) attempts s
  obtain ⟨a | ⟨result, a⟩, s⟩ := r
  · exact hr
  · cases result <;> exact hr

end Rules

section Updates

variable {S x} {E : Evidence} {change : Change} {base doc : Doc} {condition : Condition} {feedback : Feedback}
  {found : DocumentRead MainValue}

def rediscovered (x : CallId) (E : Evidence) (doc : Doc) (keys : List String) (base : Doc) : Evidence where
  holds log := base = { doc with archives := base.archives } ∧ (∀ archive ∈ doc.archives, archive ∈ base.archives) ∧
    Rediscovered x E base keys log
  grows e log := by
    rintro ⟨hb, ha, h⟩
    refine ⟨hb, ha, fun key hk name hc hn => ?_⟩
    obtain ⟨read, hread, hrows⟩ := h key hk name hc hn
    exact ⟨read, Evidence.grows _ e log hread, hrows⟩

lemma rediscovered_skip {key : String} {keys : List String} {log : List Entry}
    (hk : ∀ name, classifyRecordKey key = .index name → name = "main")
    (h : (rediscovered x E doc keys base).holds log) : (rediscovered x E doc (key :: keys) base).holds log := by
  obtain ⟨hb, ha, h⟩ := h
  refine ⟨hb, ha, fun key' hk' name hc hn => ?_⟩
  rcases List.mem_cons.mp hk' with rfl | hk'
  · exact absurd (hk name hc) hn
  · exact h key' hk' name hc hn

lemma rediscovered_read {key name : String} {keys : List String} {log : List Entry} {read : DocumentRead ArchiveValue}
    {doc' : Doc} (hk : classifyRecordKey key = .index name) (hd : doc' = { doc with archives := doc'.archives })
    (ha : ∀ archive ∈ doc.archives, archive ∈ doc'.archives)
    (hrows : ∀ rows, archiveRows read = some rows → ⟨name, rows.keys⟩ ∈ doc'.archives)
    (hread : (E.after x (.readArchive name .rebuild) read).holds log)
    (h : (rediscovered x E doc' keys base).holds log) : (rediscovered x E doc (key :: keys) base).holds log := by
  obtain ⟨hb, ha', h⟩ := h
  refine ⟨?_, fun archive hm => ha' archive (ha archive hm), fun key' hk' name' hc hn => ?_⟩
  · rw [hd] at hb
    exact hb
  · rcases List.mem_cons.mp hk' with rfl | hk'
    · rw [hk] at hc
      cases hc
      exact ⟨read, hread, fun rows hr => ha' _ (hrows rows hr)⟩
    · exact h key' hk' name' hc hn

lemma rediscover_steps (keys : List String) (doc : Doc) :
    Steps S x E (rediscover doc keys) (rediscovered x E doc keys) := by
  induction keys generalizing doc with
  | nil =>
    refine Steps.pure fun log _ => ⟨rfl, fun _ h => h, ?_⟩
    rintro key ⟨⟩
  | cons key keys ih =>
    simp only [rediscover]
    split
    · rename_i name hk
      split
      · rename_i hn
        refine (ih doc).post fun base log => rediscovered_skip fun name' hk' => ?_
        rw [hk] at hk'
        cases hk'
        exact hn
      · refine Steps.bind (Steps.ask fun _ _ => trivial) fun read => ?_
        have hframe : ∀ doc', Steps S x (E.after x (.readArchive name .rebuild) read) (rediscover doc' keys)
            fun base => (rediscovered x E doc' keys base).and (E.after x (.readArchive name .rebuild) read) :=
          fun doc' => ((ih doc').frame _).pre fun log h => ⟨Evidence.before h, h⟩
        cases hr : archiveRows read with
        | none =>
          exact (hframe doc).post fun base log h => rediscovered_read hk rfl (fun _ h => h)
            (fun rows hr' => by simp [hr] at hr') h.2 h.1
        | some rows =>
          refine (hframe _).post fun base log h => rediscovered_read hk rfl
            (fun _ h => List.mem_append_left _ h) (fun rows' hr' => ?_) h.2 h.1
          rw [hr] at hr'
          cases hr'
          exact List.mem_append_right _ (List.mem_singleton_self _)
    · rename_i hk
      exact (ih doc).post fun base log => rediscovered_skip fun name' hk' => absurd hk' (hk name')

lemma rebuildBase_steps : Steps S x (wasRead x found) (rebuildBase S x.writer) (rebuilt S x found) := by
  refine Steps.bind (Steps.ask fun _ _ => trivial) fun now => ?_
  refine Steps.bind (Steps.ask fun _ _ => trivial) fun list => ?_
  have hlist : ∀ log, (((wasRead x found).after x .now now).after x (.listKeys "_index/" none) list).holds log →
      (wasListed x found list).holds log := fun log => Evidence.mono fun log h => Evidence.before h
  cases list with
  | unavailable =>
    exact Steps.pure fun log h => ⟨⟨now, rfl⟩, .unavailable, hlist log h, fun _ _ h => by cases h⟩
  | ok keys cursor =>
    refine (((rediscover_steps keys _).frame (wasListed x found (.ok keys cursor))).pre
      fun log h => ⟨hlist log h, hlist log h⟩).post fun base log h => ?_
    obtain ⟨⟨hb, -, hr⟩, hl⟩ := h
    refine ⟨⟨now, hb⟩, .ok keys cursor, hl, fun keys' cursor' heq => ?_⟩
    cases heq
    exact hr

/-- How an attempt of an update may end. -/
def attempted (S : Settings) (x : CallId) (change : Change) : Attempt WriteOutcome × Feedback → Evidence
  | (.done outcome, feedback) => ended S x change (outcome, feedback)
  | (.write .ok outcome, feedback) => ended S x change (outcome, feedback)
  | (.write _ _, feedback) => reported S x change feedback

def mutated (S : Settings) (x : CallId) (change : Change) (base : Doc) (condition : Condition) (now : ℤ) : Evidence :=
  ⟨Mutated S x change base condition now, fun _ _ h => h.grows⟩

lemma mutate_steps {E : Evidence} (hbase : ∀ log, E.holds log → BaseFit S x condition base log)
    (hchange : ∀ log, E.holds log → ChangeFit x log change) :
    (requests S).Spec x E.holds (ask (.mutate change base)) (fun now log =>
      (E.after x (.mutate change base) now).holds log ∧ JustMutated S x change base condition now log)
      fun _ _ => True := by
  refine Protocol.Spec.perform (fun now => ?_) Protocol.Stable.const ?_
  · refine (stable _).and ?_
    rintro log _ ⟨later, before, landed, rfl, hlater, h⟩ ⟨later', rfl, hown⟩
    refine ⟨later' ++ later, before, landed, (List.append_assoc ..).symm, fun e he => ?_, h⟩
    exact (List.mem_append.mp he).elim (hown e) (hlater e)
  · rintro log - hE answer _ ⟨landed, rfl⟩
    refine ⟨trivial, ⟨_, rfl, rfl, condition, hbase log hE, hchange log hE⟩, ?_⟩
    cases answer with
    | some now =>
      exact ⟨⟨[], log, landed, rfl, hE⟩, [], log, landed, rfl, by rintro e ⟨⟩, hbase log hE, hchange log hE⟩
    | none => trivial

lemma writeChange_steps {E : Evidence} {existed : Bool} (hbase : ∀ log, E.holds log → BaseFit S x condition base log)
    (hchange : ∀ log, E.holds log → ChangeFit x log change)
    (hexisted : existed = true → ∃ value etag, condition = .ifMatch etag ∧ parseIndexDocument value = .ok base ∧
      ∀ log, E.holds log → (wasRead x (.ok value etag)).holds log) :
    Steps S x E (writeChange S x.writer change base condition existed) (attempted S x change) := by
  refine Protocol.Spec.bind (mutate_steps hbase hchange) fun now => ?_
  rcases happ : change.apply S.host S.limits now base with ⟨next, feedback⟩
  have hreported : ∀ log, Mutated S x change base condition now log → (reported S x change feedback).holds log :=
    fun log hm => .inr ⟨base, condition, now, hm, by rw [happ]⟩
  dsimp only
  split
  · rename_i hsame
    obtain ⟨hexists, hsame⟩ := (Bool.and_eq_true _ _).mp hsame
    obtain ⟨value, etag, rfl, hparse, hread⟩ := hexisted hexists
    refine Protocol.Spec.pure fun log _ h => ⟨hreported log h.2.mutated, fun _ => ⟨base, now, .inl ?_, by rw [happ]⟩⟩
    exact ⟨value, etag, h.2.mutated, hparse, hread log (Evidence.before h.1), by rw [happ]; exact hsame⟩
  · have hwrite : (requests S).Spec x (fun log => (E.after x (.mutate change base) now).holds log ∧
        JustMutated S x change base condition now log)
        (ask (.writeMain change base now (stamp S x.writer now next) condition))
        (fun result => ((mutated S x change base condition now).after x
          (.writeMain change base now (stamp S x.writer now next) condition) result).holds) fun _ _ => True :=
      asked fun log h => ⟨h.2.mutated, h.2, by rw [happ]⟩
    refine Protocol.Spec.bind hwrite fun result => Steps.pure fun log h => ?_
    have hm : Mutated S x change base condition now log := Evidence.before h
    cases result with
    | ok =>
      refine ⟨hreported log hm, fun _ => ⟨base, now, .inr ?_, by rw [happ]⟩⟩
      exact ⟨stamp S x.writer now next, condition, hm, Evidence.mono (fun _ _ => trivial) h⟩
    | _ => exact hreported log hm

lemma updateAttempt_steps (feedback : Feedback) :
    Steps S x ((changeFit x change).and (reported S x change feedback)) (updateAttempt S x.writer change feedback)
      fun r => (changeFit x change).and (attempted S x change r) := by
  have hframe : ∀ {E : Evidence} {m : Call (Attempt WriteOutcome × Feedback)},
      Steps S x E m (attempted S x change) → (∀ log, E.holds log → ChangeFit x log change) →
      Steps S x E m fun r => (changeFit x change).and (attempted S x change r) :=
    fun h hc => ((h.frame (changeFit x change)).pre fun log hE => ⟨hE, hc log hE⟩).post fun _ _ h => ⟨h.2, h.1⟩
  have hkeep : ∀ {status doc} {found : DocumentRead MainValue}, (status = .readOnly ∨ status = .unavailable) →
      Steps S x (((changeFit x change).and (reported S x change feedback)).after x .readMain found)
        (pure (.done ⟨status, doc⟩, feedback)) fun r => (changeFit x change).and (attempted S x change r) := by
    intro status doc found hs
    refine Steps.pure fun log h => ⟨(Evidence.before h).1, (Evidence.before h).2, fun h => ?_⟩
    rcases hs with rfl | rfl <;> rcases h with h | h <;> cases h
  have hread : ∀ {found log},
      (((changeFit x change).and (reported S x change feedback)).after x .readMain found).holds log →
        (wasRead x found).holds log := fun h => Evidence.mono (fun _ _ => trivial) h
  have hrebuild : ∀ {found etag}, Unreadable found etag →
      Steps S x (((changeFit x change).and (reported S x change feedback)).after x .readMain found)
        (rebuildBase S x.writer >>= fun base => writeChange S x.writer change base (.ifMatch etag) false)
        fun r => (changeFit x change).and (attempted S x change r) := by
    intro found etag hu
    have hbase : Steps S x (wasRead x found) (rebuildBase S x.writer) (rebuilt S x found) := rebuildBase_steps
    refine Steps.bind ((hbase.frame ((wasRead x found).and (changeFit x change))).pre
      fun log h => ⟨hread h, hread h, (Evidence.before h).1⟩) fun base => ?_
    exact hframe (writeChange_steps (fun log h => .rebuilt found etag h.2.1 rfl hu h.1) (fun log h => h.2.2) nofun)
      fun log h => h.2.2
  refine Steps.bind (Steps.ask fun _ _ => trivial) fun found => ?_
  cases found with
  | unavailable => exact hkeep (.inr rfl)
  | notFound =>
    refine Steps.bind (Steps.ask fun _ _ => trivial) fun now => ?_
    have hc : ∀ log, ((((changeFit x change).and (reported S x change feedback)).after x .readMain
        DocumentRead.notFound).after x .now now).holds log → ChangeFit x log change :=
      fun log h => (Evidence.before (Evidence.before h)).1
    exact hframe (writeChange_steps (fun log h => .fresh now (hread (Evidence.before h)) rfl rfl) hc nofun) hc
  | corrupt etag =>
    cases etag with
    | none => exact hkeep (.inr rfl)
    | some etag => exact hrebuild (.inl rfl)
  | ok value etag =>
    dsimp only
    cases hparse : parseIndexDocument value with
    | newer v => exact hkeep (.inl rfl)
    | ok doc =>
      have hc : ∀ log, (((changeFit x change).and (reported S x change feedback)).after x .readMain
          (DocumentRead.ok value etag)).holds log → ChangeFit x log change := fun log h => (Evidence.before h).1
      exact hframe (writeChange_steps (fun log h => .read value etag (hread h) rfl hparse) hc
        fun _ => ⟨value, etag, rfl, hparse, fun log h => hread h⟩) hc
    | invalid => exact hrebuild (.inr ⟨value, rfl, hparse⟩)

lemma update_steps (change : Change) :
    Steps S x (changeFit x change) (update S x.writer change) (ended S x change) := by
  refine ((Steps.runCas (I := fun feedback => (changeFit x change).and (reported S x change feedback))
    (Q := fun r => (changeFit x change).and (ended S x change r)) (fun feedback => ?_) S.maxAttempts noFeedback).pre
    fun log h => ⟨h, .inl rfl⟩).post fun _ _ h => h.2
  refine (updateAttempt_steps feedback).post fun r log h => ?_
  obtain ⟨outcome | ⟨result, outcome⟩, feedback⟩ := r
  · exact h
  · cases result <;> exact h

end Updates

section Applications

variable {S x} {P : List Entry → Prop} {change : Change}

/-- The call has made no request. -/
def Fresh (x : CallId) (log : List Entry) : Prop := ∀ e ∈ log, e.call ≠ x

abbrev free : Protocol CallId (List Entry) Op Op.Res := requestsOf fun _ _ _ => True

/-- What only an application by the call itself can end. -/
def UntilApplied (x : CallId) (P : List Entry → Prop) : Prop :=
  ∀ e log, (e.call = x → e.op.isMutate = false) → P log → P (e :: log)

lemma UntilApplied.stable (hP : UntilApplied x P) : free.Stable x P := by
  rintro log _ h ⟨later, rfl, hlater⟩
  induction later with
  | nil => exact h
  | cons e later ih =>
    exact hP e _ (fun he => absurd he (hlater e List.mem_cons_self))
      (ih fun e he => hlater e (List.mem_cons_of_mem _ he))

lemma UntilApplied.ask (hP : UntilApplied x P) {o : Op} (ho : o.isMutate = false) :
    free.Spec x P (ask o) (fun _ => P) fun _ _ => True := by
  refine Protocol.Spec.perform (fun _ => hP.stable) Protocol.Stable.const ?_
  rintro log - h answer _ ⟨landed, rfl⟩
  refine ⟨trivial, ⟨_, rfl, rfl, trivial⟩, ?_⟩
  cases answer with
  | some a => exact hP _ log (fun _ => ho) h
  | none => trivial

lemma UntilApplied.rediscover (hP : UntilApplied x P) (keys : List String) (doc : Doc) :
    free.Spec x P (rediscover doc keys) (fun _ => P) fun _ _ => True := by
  induction keys generalizing doc with
  | nil => exact Protocol.Spec.pure fun _ _ h => h
  | cons key keys ih =>
    simp only [ShareIndex.rediscover]
    split
    · split
      · exact ih doc
      · refine Protocol.Spec.bind (hP.ask rfl) fun read => ?_
        cases archiveRows read with
        | none => exact ih doc
        | some rows => exact ih _
    · exact ih doc

lemma UntilApplied.rebuildBase (hP : UntilApplied x P) :
    free.Spec x P (rebuildBase S x.writer) (fun _ => P) fun _ _ => True := by
  refine Protocol.Spec.bind (hP.ask rfl) fun now => Protocol.Spec.bind (hP.ask rfl) fun list => ?_
  cases list with
  | unavailable => exact Protocol.Spec.pure fun _ _ h => h
  | ok keys cursor => exact hP.rediscover keys _

/-- The feedback is the one of the last application, if there was any. -/
def lastReported (S : Settings) (x : CallId) (change : Change) (feedback : Feedback) (log : List Entry) : Prop :=
  feedback = noFeedback ∨ ∃ base now, LastMutated x change base now log ∧
    feedback = (change.apply S.host S.limits now base).2

lemma lastReported_until (feedback : Feedback) : UntilApplied x (lastReported S x change feedback) := by
  rintro e log he (h | ⟨base, now, ⟨later, before, landed, rfl, hlater⟩, hf⟩)
  · exact .inl h
  · refine .inr ⟨base, now, ⟨e :: later, before, landed, rfl, fun e' he' hx => ?_⟩, hf⟩
    rcases List.mem_cons.mp he' with rfl | he'
    · exact he hx
    · exact hlater e' he' hx

lemma writeChange_last {base : Doc} {condition : Condition} {existed : Bool} :
    free.Spec x P (writeChange S x.writer change base condition existed)
      (fun r => lastReported S x change r.2) fun _ _ => True := by
  have hask : free.Spec x P (ask (.mutate change base))
      (fun now => lastReported S x change (change.apply S.host S.limits now base).2) fun _ _ => True := by
    refine Protocol.Spec.perform (fun now => (lastReported_until _).stable) Protocol.Stable.const ?_
    rintro log - - answer _ ⟨landed, rfl⟩
    refine ⟨trivial, ⟨_, rfl, rfl, trivial⟩, ?_⟩
    cases answer with
    | some now => exact .inr ⟨base, now, ⟨[], log, landed, rfl, by rintro e ⟨⟩⟩, rfl⟩
    | none => trivial
  refine Protocol.Spec.bind hask fun now => ?_
  rcases happ : change.apply S.host S.limits now base with ⟨next, feedback⟩
  dsimp only
  split
  · exact Protocol.Spec.pure fun _ _ h => h
  · exact Protocol.Spec.bind ((lastReported_until _).ask rfl) fun result => Protocol.Spec.pure fun _ _ h => h

lemma update_last (P : List Entry → Prop) :
    free.Spec x P (update S x.writer change) (fun r => lastReported S x change r.2) fun _ _ => True := by
  have hattempt : ∀ feedback, free.Spec x (lastReported S x change feedback) (updateAttempt S x.writer change feedback)
      (fun r => lastReported S x change r.2) fun _ _ => True := by
    intro feedback
    have hu : UntilApplied x (lastReported S x change feedback) := lastReported_until feedback
    refine Protocol.Spec.bind (hu.ask rfl) fun found => ?_
    cases found with
    | unavailable => exact Protocol.Spec.pure fun _ _ h => h
    | notFound => exact Protocol.Spec.bind (hu.ask rfl) fun now => writeChange_last
    | corrupt etag => cases etag with
      | none => exact Protocol.Spec.pure fun _ _ h => h
      | some etag => exact Protocol.Spec.bind hu.rebuildBase fun base => writeChange_last
    | ok value etag =>
      dsimp only
      cases parseIndexDocument value with
      | newer v => exact Protocol.Spec.pure fun _ _ h => h
      | ok doc => exact writeChange_last
      | invalid => exact Protocol.Spec.bind hu.rebuildBase fun base => writeChange_last
  have hloop := runCas_spec (I := lastReported S x change) (Q := fun r => lastReported S x change r.2)
    (fun feedback => (hattempt feedback).mono (fun _ _ h => h) (fun r log _ h => ?_) fun _ _ _ h => h)
    S.maxAttempts noFeedback
  · exact Protocol.Spec.mono hloop (fun _ _ _ => .inl rfl) (fun _ _ _ h => h) fun _ _ _ h => h
  · obtain ⟨outcome | ⟨result, outcome⟩, feedback⟩ := r
    · exact h
    · cases result <;> exact h

lemma flush_last : free.Spec x (Fresh x) (flush S x.writer) (fun result log => result.refused = [] ∨
    ∃ batch base now, LastMutated x (.ops batch) base now log ∧ result.refused = refusedBy S batch base now)
    fun _ _ => True := by
  have hask : free.Spec x (Fresh x) (ask .outboxList) (fun _ _ => True) fun _ _ => True := by
    refine Protocol.Spec.perform (fun _ => Protocol.Stable.const) Protocol.Stable.const ?_
    rintro log - - answer _ ⟨landed, rfl⟩
    exact ⟨trivial, ⟨_, rfl, rfl, trivial⟩, by cases answer <;> trivial⟩
  have hreport : ∀ {batch feedback log}, lastReported S x (.ops batch) feedback log → feedback.refused = [] ∨
      ∃ batch base now, LastMutated x (.ops batch) base now log ∧ feedback.refused = refusedBy S batch base now := by
    rintro batch feedback log (rfl | ⟨base, now, hm, rfl⟩)
    · exact .inl rfl
    · exact .inr ⟨batch, base, now, hm, rfl⟩
  refine Protocol.Spec.bind hask fun batch => ?_
  dsimp only
  split
  · exact Protocol.Spec.pure fun _ _ _ => .inl rfl
  · refine Protocol.Spec.bind (update_last _) fun r => ?_
    obtain ⟨outcome, feedback⟩ := r
    dsimp only
    split
    · exact Protocol.Spec.bind ((lastReported_until _).ask rfl) fun _ => Protocol.Spec.pure fun _ _ h => hreport h
    · exact Protocol.Spec.pure fun _ _ h => hreport h

end Applications

section Methods

variable {S x} {E : Evidence} {doc : Doc}

def loaded (x : CallId) (l : Load) : Evidence where
  holds log := ∃ found, (first x .readMain found).holds log ∧ ∀ doc, documentOf found = some doc ↔ l = .ok doc
  grows e log := by
    rintro ⟨found, h, hd⟩
    exact ⟨found, Evidence.grows _ e log h, hd⟩

lemma fresh_stable : (requests S).Stable x (Fresh x) := by
  rintro log _ hE ⟨later, rfl, hl⟩ e he
  exact (List.mem_append.mp he).elim (hl e) (hE e)

lemma first_steps {o : Op} (h : ∀ log, Fit S x log o) :
    (requests S).Spec x (Fresh x) (ask o) (fun a => (first x o a).holds) fun _ _ => True := by
  refine Protocol.Spec.perform (fun a => stable _) Protocol.Stable.const ?_
  rintro log - hE answer _ ⟨landed, rfl⟩
  refine ⟨trivial, ⟨_, rfl, rfl, h log⟩, ?_⟩
  cases answer with
  | some a => exact ⟨[], log, landed, rfl, hE⟩
  | none => trivial

lemma load_steps : (requests S).Spec x (Fresh x) load (fun l => (loaded x l).holds) fun _ _ => True := by
  refine Protocol.Spec.bind (first_steps fun _ => trivial) fun found => ?_
  cases found with
  | ok value etag =>
    dsimp only
    cases hparse : parseIndexDocument value with
    | ok doc =>
      refine Protocol.Spec.pure fun log _ h => ⟨_, h, fun doc' => ?_⟩
      rw [documentOf, hparse, Option.some.injEq, Load.ok.injEq]
    | _ =>
      refine Protocol.Spec.pure fun log _ h => ⟨_, h, fun doc' => ?_⟩
      rw [documentOf, hparse]
      exact iff_of_false nofun nofun
  | _ => exact Protocol.Spec.pure fun log _ h => ⟨_, h, fun doc => iff_of_false nofun nofun⟩

lemma Steps.afterLoad {f : Load → Call β} {R : β → Evidence} (h : ∀ l, Steps S x (loaded x l) (f l) R) :
    (requests S).Spec x (Fresh x) (load >>= f) (fun b => (R b).holds) fun _ _ => True :=
  Protocol.Spec.bind load_steps h

/-- The first part of what a flush owes for its report: the last application has settled what it says is there. -/
def mayReport (S : Settings) (x : CallId) (result : FlushResult) : Evidence where
  holds log := result.status = some .written ∨ result.status = some .unchanged →
    ∃ batch base now, Decided S x (.ops batch) base now log ∧ result.refused = refusedBy S batch base now
  grows e log h hs := by
    obtain ⟨batch, base, now, hd, hr⟩ := h hs
    exact ⟨batch, base, now, hd.grows, hr⟩

lemma flush_settled :
    (requests S).Spec x (Fresh x) (flush S x.writer) (fun r => (mayReport S x r).holds) fun _ _ => True := by
  refine Protocol.Spec.bind (first_steps fun _ => trivial) fun batch => ?_
  change Steps S x (first x .outboxList batch) _ (mayReport S x)
  dsimp only
  split
  · refine Steps.pure fun log _ h => ?_
    rcases h with h | h <;> cases h
  · refine Steps.bind (update_steps (.ops batch)) fun r => ?_
    obtain ⟨outcome, feedback⟩ := r
    have hreport : ∀ log, (ended S x (.ops batch) (outcome, feedback)).holds log →
        (mayReport S x ⟨some outcome.status, feedback.refused⟩).holds log := by
      intro log h hs
      obtain ⟨base, now, hd, rfl⟩ := h.2 (hs.imp Option.some.inj Option.some.inj)
      exact ⟨batch, base, now, hd, rfl⟩
    dsimp only
    split
    · rename_i hs
      refine Steps.bind (Steps.ask fun log h => ?_) fun _ => Steps.pure fun log h => hreport log (Evidence.before h)
      obtain ⟨base, now, hd, -⟩ := h.2 hs
      exact ⟨batch, base, now, hd, rfl⟩
    · exact Steps.pure hreport

lemma flush_steps : (requests S).Spec x (Fresh x) (flush S x.writer)
    (fun result log => Fit S x log (.flushed result)) fun _ _ => True := by
  have hboth := Protocol.Spec.both (flush_settled (S := S) (x := x)) flush_last (fun _ _ _ _ h => h) (fun _ h => h)
    fun _ _ h => h
  exact hboth.mono (fun _ _ h => ⟨h, h⟩) (fun _ _ _ h => h) fun _ _ _ h => h

lemma checkStatuses_steps (checks : ℕ) (entries : List (String × Row)) :
    Steps S x E (checkStatuses checks entries) fun _ => always := by
  induction entries generalizing checks E with
  | nil => cases checks <;> exact Steps.pure fun _ _ => trivial
  | cons e entries ih =>
    cases checks with
    | zero => exact Steps.pure fun _ _ => trivial
    | succ checks =>
      simp only [checkStatuses]
      split
      · exact ih (checks + 1)
      · refine Steps.bind (Steps.ask fun _ _ => trivial) fun status => ?_
        exact Steps.bind (ih checks) fun rest => Steps.pure fun _ _ => trivial

lemma syncStatus_steps :
    (requests S).Spec x (Fresh x) (syncStatus S x.writer) (fun _ => always.holds) fun _ _ => True := by
  refine Steps.afterLoad (R := fun _ => always) fun l => ?_
  cases l with
  | ok doc =>
    refine Steps.bind (checkStatuses_steps _ _) fun statuses => ?_
    refine Steps.bind ((update_steps (.statuses statuses.results)).pre fun _ _ => trivial) fun r => ?_
    exact Steps.pure fun _ _ => trivial
  | _ => exact Steps.pure fun _ _ => trivial

def archived (x : CallId) (group : Group) : Evidence where
  holds log := ∃ next condition, (always.after x (.writeArchive group next condition) .ok).holds log
  grows e log := by
    rintro ⟨next, condition, h⟩
    exact ⟨next, condition, Evidence.grows _ e log h⟩

def copied (x : CallId) (group : Group) : Evidence := ⟨CopiedFrom x group, fun _ _ h => h.grows⟩

def tried (x : CallId) (group : Group) : Attempt Unit × Unit → Evidence
  | (.done _, _) => archived x group
  | (.write .ok _, _) => archived x group
  | (.write _ _, _) => copied x group

lemma archiveAttempt_steps (group : Group) :
    Steps S x (copied x group) (archiveAttempt group ()) (tried x group) := by
  have hwrite : ∀ {found : DocumentRead ArchiveValue} {next condition},
      (∀ log, (always.after x (.readArchive group.name .merge) found).holds log → MergeFit x group next condition log) →
      Steps S x ((copied x group).after x (.readArchive group.name .merge) found)
        ((ask (.writeArchive group next condition) : Call WriteResult) >>= fun result =>
        pure (.write result (), ())) (tried x group) := by
    intro found next condition hfit
    refine Steps.bind (Steps.ask fun log h => ⟨hfit log (Evidence.mono (fun _ _ => trivial) h), Evidence.before h⟩)
      fun result => Steps.pure fun log h => ?_
    cases result with
    | ok => exact ⟨next, condition, Evidence.mono (fun _ _ => trivial) h⟩
    | _ => exact Evidence.before (Evidence.before h)
  refine Steps.bind (Steps.ask fun _ _ => trivial) fun found => ?_
  cases found with
  | unavailable => exact Steps.throw
  | notFound => exact hwrite fun log h => .fresh h rfl rfl
  | corrupt etag =>
    cases etag with
    | none => exact Steps.throw
    | some etag => exact hwrite fun log h => .corrupt etag h rfl rfl
  | ok value etag => exact hwrite fun log h => .read value etag h rfl rfl

def allCopied (x : CallId) (groups : List Group) : Evidence :=
  ⟨fun log => ∀ group ∈ groups, CopiedFrom x group log, fun _ _ h group hg => (h group hg).grows⟩

lemma archiveGroups_steps (groups : List Group) :
    Steps S x (allCopied x groups) (archiveGroups S groups) fun _ => changeFit x (.compaction groups []) := by
  induction groups with
  | nil =>
    refine Steps.pure fun log _ => ?_
    rintro group ⟨⟩
  | cons group groups ih =>
    have hfirst : Steps S x (copied x group) (runCas (archiveAttempt group) S.maxAttempts ())
        fun _ => archived x group := by
      refine Steps.runCas (I := fun _ => copied x group) (Q := fun _ => archived x group) (fun _ => ?_) _ ()
      refine (archiveAttempt_steps group).post fun r log h => ?_
      obtain ⟨_ | ⟨result, _⟩, _⟩ := r
      · exact h
      · cases result <;> exact h
    refine Steps.bind ((hfirst.frame (allCopied x groups)).pre fun log h => ⟨h group List.mem_cons_self,
      fun group' hg => h group' (List.mem_cons_of_mem _ hg)⟩) fun _ => ?_
    have hrest : Steps S x ((archived x group).and (allCopied x groups)) (archiveGroups S groups)
        fun _ => (changeFit x (.compaction groups [])).and (archived x group) :=
      (ih.frame _).pre fun log h => ⟨h.2, h.1⟩
    refine hrest.post fun _ log h => ?_
    intro group' hg
    rcases List.mem_cons.mp hg with rfl | hg
    · exact h.2
    · exact h.1 group' hg

lemma addToGroup_rows {name k : String} {row : Row} {rows : Rows} {groups : List Group}
    (h : ∀ group ∈ groups, ∀ j r, group.rows.get? j = some r → rows.get? j = some r) (hk : rows.get? k = some row) :
    ∀ group ∈ addToGroup name k row groups, ∀ j r, group.rows.get? j = some r → rows.get? j = some r := by
  have hset : ∀ {old : Rows}, (∀ j r, old.get? j = some r → rows.get? j = some r) →
      ∀ j r, (old.set k row).get? j = some r → rows.get? j = some r := by
    intro old hold j r hj
    rw [Dict.get?_set] at hj
    split at hj
    · rename_i heq
      cases hj
      rw [heq]
      exact hk
    · exact hold j r hj
  induction groups with
  | nil =>
    intro group hg
    rw [addToGroup, List.mem_singleton] at hg
    rw [hg]
    exact hset fun j r hj => by cases hj
  | cons group groups ih =>
    intro group' hg
    simp only [addToGroup] at hg
    split at hg
    · rcases List.mem_cons.mp hg with rfl | hg
      · exact hset (h group List.mem_cons_self)
      · exact h group' (List.mem_cons_of_mem _ hg)
    · rcases List.mem_cons.mp hg with rfl | hg
      · exact h group' List.mem_cons_self
      · exact ih (fun group hg => h group (List.mem_cons_of_mem _ hg)) group' hg

lemma groupsOf_rows (doc : Doc) (now : ℤ) (keys : List String) :
    ∀ group ∈ groupsOf S doc now keys, ∀ k row, group.rows.get? k = some row → doc.rows.get? k = some row := by
  unfold groupsOf
  refine List.foldlRecOn (motive := fun groups : List Group => ∀ group ∈ groups, ∀ k row,
    group.rows.get? k = some row → doc.rows.get? k = some row) keys _ (List.forall_mem_nil _) fun groups h key _ => ?_
  cases hk : doc.rows.get? key with
  | none => exact h
  | some row => exact addToGroup_rows h hk

lemma expiredTombstones_steps (now : ℤ) (tombstones : List Tombstone) :
    Steps S x E (expiredTombstones S now tombstones) fun _ => E := by
  induction tombstones generalizing E with
  | nil => exact Steps.pure fun _ h => h
  | cons tombstone tombstones ih =>
    simp only [expiredTombstones]
    split
    · exact ih
    · refine Steps.bind (Steps.ask fun _ _ => trivial) fun gone => ?_
      exact Steps.bind ih fun rest => Steps.pure fun _ h => Evidence.before h

lemma compact_steps :
    (requests S).Spec x (Fresh x) (compact S x.writer) (fun _ => always.holds) fun _ _ => True := by
  refine Steps.afterLoad (R := fun _ => always) fun l => ?_
  cases l with
  | ok doc =>
    refine Steps.bind (Steps.ask fun _ _ => trivial) fun now => ?_
    refine Steps.bind ((archiveGroups_steps _).pre fun log h group hg => ?_) fun _ => ?_
    · obtain ⟨found, hf, hd⟩ := Evidence.before h
      exact ⟨found, doc, hf, (hd doc).mpr rfl, groupsOf_rows doc now _ group hg⟩
    refine Steps.bind (expiredTombstones_steps now doc.tombstones) fun expired => ?_
    refine Steps.bind ((update_steps (.compaction _ expired)).pre fun _ h => h) fun r => ?_
    exact Steps.pure fun _ _ => trivial
  | _ => exact Steps.pure fun _ _ => trivial

end Methods

section Reconcile

variable {S x} {E : Evidence} {doc : Doc} {scan : Scan}

/-- `ranks` bounds the rank of the archived claims on each CID. -/
def Bounds (ranks : Dict String ℕ) (rows : Rows) : Prop :=
  ∀ other ∈ rows.values, ∀ cid ∈ other.claims, ∃ rank, ranks.get? cid = some rank ∧ claimRank other ≤ rank

def Extends (ranks ranks' : Dict String ℕ) : Prop :=
  ∀ cid rank, ranks.get? cid = some rank → ∃ rank', ranks'.get? cid = some rank' ∧ rank ≤ rank'

lemma Extends.refl (ranks : Dict String ℕ) : Extends ranks ranks := fun _ rank h => ⟨rank, h, le_refl rank⟩

lemma Extends.trans {ranks ranks' ranks'' : Dict String ℕ} (h : Extends ranks ranks') (h' : Extends ranks' ranks'') :
    Extends ranks ranks'' := by
  intro cid rank hr
  obtain ⟨rank', hr', hle⟩ := h cid rank hr
  obtain ⟨rank'', hr'', hle'⟩ := h' cid rank' hr'
  exact ⟨rank'', hr'', le_trans hle hle'⟩

lemma Bounds.extend {ranks ranks' : Dict String ℕ} {rows : Rows} (h : Bounds ranks rows) (he : Extends ranks ranks') :
    Bounds ranks' rows := by
  intro other ho cid hcid
  obtain ⟨rank, hr, hle⟩ := h other ho cid hcid
  obtain ⟨rank', hr', hle'⟩ := he cid rank hr
  exact ⟨rank', hr', le_trans hle hle'⟩

lemma addClaim_extends (ranks : Dict String ℕ) (cid : String) (rank : ℕ) :
    Extends ranks (ranks.set cid (max ((ranks.get? cid).getD 0) rank)) := by
  intro cid' rank' h
  by_cases hc : cid' = cid
  · subst hc
    refine ⟨_, Dict.get?_set_self .., ?_⟩
    rw [h]
    exact le_max_left rank' rank
  · exact ⟨rank', (Dict.get?_set_of_ne ranks _ hc).trans h, le_refl _⟩

lemma addRow_extends (row : Row) (cids : List String) (ranks : Dict String ℕ) :
    Extends ranks (cids.foldl (fun ranks cid => ranks.set cid (max ((ranks.get? cid).getD 0) (claimRank row))) ranks) ∧
      ∀ cid ∈ cids, ∃ rank, (cids.foldl (fun ranks cid =>
        ranks.set cid (max ((ranks.get? cid).getD 0) (claimRank row))) ranks).get? cid = some rank ∧
          claimRank row ≤ rank := by
  induction cids generalizing ranks with
  | nil =>
    refine ⟨Extends.refl ranks, ?_⟩
    rintro cid ⟨⟩
  | cons cid cids ih =>
    obtain ⟨hext, hmem⟩ := ih (ranks.set cid (max ((ranks.get? cid).getD 0) (claimRank row)))
    refine ⟨(addClaim_extends ranks cid _).trans hext, fun cid' hc => ?_⟩
    rcases List.mem_cons.mp hc with rfl | hc
    · obtain ⟨rank, hr, hle⟩ := hext cid' _ (Dict.get?_set_self ..)
      exact ⟨rank, hr, le_trans (le_max_right _ _) hle⟩
    · exact hmem cid' hc

lemma addClaims_bounds (ranks : Dict String ℕ) (rows : Rows) :
    Extends ranks (addClaims ranks rows) ∧ Bounds (addClaims ranks rows) rows := by
  suffices h : ∀ (others : List Row) (ranks : Dict String ℕ),
      let ranks' := others.foldl (fun ranks row => row.claims.foldl (fun ranks cid =>
        ranks.set cid (max ((ranks.get? cid).getD 0) (claimRank row))) ranks) ranks
      Extends ranks ranks' ∧ ∀ other ∈ others, ∀ cid ∈ other.claims, ∃ rank, ranks'.get? cid = some rank ∧
        claimRank other ≤ rank from h rows.values ranks
  intro others
  induction others with
  | nil =>
    refine fun ranks => ⟨Extends.refl ranks, ?_⟩
    rintro other ⟨⟩
  | cons row others ih =>
    intro ranks
    obtain ⟨hrow, hcids⟩ := addRow_extends row row.claims ranks
    obtain ⟨hext, hmem⟩ := ih (row.claims.foldl (fun ranks cid =>
      ranks.set cid (max ((ranks.get? cid).getD 0) (claimRank row))) ranks)
    refine ⟨hrow.trans hext, fun other ho cid hcid => ?_⟩
    rcases List.mem_cons.mp ho with rfl | ho
    · obtain ⟨rank, hr, hle⟩ := hcids cid hcid
      obtain ⟨rank', hr', hle'⟩ := hext cid rank hr
      exact ⟨rank', hr', le_trans hle hle'⟩
    · exact hmem other ho cid hcid

/-- The archives have been read, and `ranks` bounds the claims of those that could be. -/
def bounded (x : CallId) (archives : List Archive) (ranks : Dict String ℕ) : Evidence where
  holds log := ∀ archive ∈ archives, ∃ read, (always.after x (.readArchive archive.name .claims) read).holds log ∧
    ∀ rows, archiveRows read = some rows → Bounds ranks rows
  grows e log h archive ha := by
    obtain ⟨read, hread, hrows⟩ := h archive ha
    exact ⟨read, Evidence.grows _ e log hread, hrows⟩

lemma archivedClaims_steps (archives : List Archive) (ranks : Dict String ℕ) :
    Steps S x always (archivedClaims ranks archives)
      fun ranks' => (Evidence.pure (Extends ranks ranks')).and (bounded x archives ranks') := by
  induction archives generalizing ranks with
  | nil =>
    refine Steps.pure fun log _ => ⟨Extends.refl ranks, ?_⟩
    rintro archive ⟨⟩
  | cons archive archives ih =>
    refine Steps.bind (Steps.ask fun _ _ => trivial) fun read => ?_
    obtain ⟨hext, hbound⟩ := addClaims_bounds ranks ((archiveRows read).getD Dict.empty)
    refine (((ih _).frame _).pre fun log h => ⟨trivial, h⟩).post fun ranks' log h => ?_
    obtain ⟨⟨hext', hrest⟩, hread⟩ := h
    refine ⟨hext.trans hext', fun archive' ha => ?_⟩
    rcases List.mem_cons.mp ha with rfl | ha
    · refine ⟨read, hread, fun rows hr => ?_⟩
      rw [hr] at hbound hext'
      exact hbound.extend hext'
    · exact hrest archive' ha

/-- What a pass over `doc` has found so far. -/
structure ScanFit (x : CallId) (doc : Doc) (scan : Scan) (log : List Entry) : Prop where
  loaded : Loaded x doc log
  findings : ∀ finding ∈ scan.findings, FindingFit x log finding
  archived : ∀ ranks, scan.archived = some ranks → (bounded x doc.archives ranks).holds log

def scanFit (x : CallId) (doc : Doc) (scan : Scan) : Evidence where
  holds := ScanFit x doc scan
  grows e log h := ⟨h.loaded.grows, fun finding hf => (h.findings finding hf).grows,
    fun ranks hr => Evidence.grows _ e log (h.archived ranks hr)⟩

lemma ScanFit.congr {scan' : Scan} {log : List Entry} (h : ScanFit x doc scan log)
    (hf : scan'.findings = scan.findings) (ha : scan'.archived = scan.archived) : ScanFit x doc scan' log :=
  ⟨h.loaded, hf ▸ h.findings, ha ▸ h.archived⟩

lemma ScanFit.add {scan' : Scan} {log : List Entry} {finding : Finding} (h : ScanFit x doc scan log)
    (hf : scan'.findings = scan.findings ++ [finding]) (ha : scan'.archived = scan.archived)
    (hfit : FindingFit x log finding) : ScanFit x doc scan' log := by
  refine ⟨h.loaded, fun finding' hm => ?_, ha ▸ h.archived⟩
  rw [hf, List.mem_append, List.mem_singleton] at hm
  rcases hm with hm | rfl
  · exact h.findings finding' hm
  · exact hfit

def checkedRow (x : CallId) (doc : Doc) (src : Source) : Except RejectReason Row → Evidence
  | .ok row => ⟨fun log => row.src = src ∧ (row.ps ≠ some .proven → Unclaimed x doc row log),
      fun _ _ h => ⟨h.1, fun hps => (h.2 hps).grows⟩⟩
  | .error _ => always

lemma archivedOnce_steps :
    Steps S x (scanFit x doc scan) (archivedOnce doc scan)
      fun r => (bounded x doc.archives r.1).and (scanFit x doc r.2) := by
  unfold archivedOnce
  cases ha : scan.archived with
  | some ranks => exact Steps.pure fun log h => ⟨h.archived ranks ha, h⟩
  | none =>
    refine Steps.bind (((archivedClaims_steps doc.archives Dict.empty).frame (scanFit x doc scan)).pre
      fun log h => ⟨trivial, h⟩) fun ranks => Steps.pure fun log h => ?_
    obtain ⟨⟨-, hb⟩, hs⟩ := h
    refine ⟨hb, hs.loaded, hs.findings, fun ranks' hr => ?_⟩
    cases hr
    exact hb

lemma project_claims (record : ShareRecord) (key : String) (src : Source) (claims : List String)
    (proof : Option ProofState) : (project record key src claims proof).claims = claims := by
  cases claims <;> rfl

lemma checkRecord_steps (key : String) (src : Source) (checked : Checked) :
    Steps S x (scanFit x doc scan) (checkRecord doc scan key src checked)
      fun r => (checkedRow x doc src r.1).and (scanFit x doc r.2) := by
  cases checked with
  | reject reason => exact Steps.pure fun log h => ⟨trivial, h⟩
  | verified record claims state =>
    simp only [checkRecord]
    split
    · rename_i hs
      refine Steps.pure fun log h => ⟨⟨rfl, fun hps => ?_⟩, h⟩
      exact absurd (congrArg some hs) hps
    · refine Steps.bind archivedOnce_steps fun r => ?_
      obtain ⟨ranks, scan'⟩ := r
      dsimp only
      split
      · exact Steps.pure fun log h => ⟨trivial, h.2⟩
      · rename_i hfree
        refine Steps.pure fun log h => ⟨⟨rfl, fun _ archive ha => ?_⟩, h.2⟩
        obtain ⟨read, hread, hrows⟩ := h.1 archive ha
        refine ⟨read, hread, fun rows hr other ho cid hcid hcid' => ?_⟩
        obtain ⟨rank, hrank, hle⟩ := hrows rows hr other ho cid hcid'
        rw [project_claims] at hcid
        rw [Bool.not_eq_true, List.any_eq_false] at hfree
        have hlt := hfree cid hcid
        rw [hrank, Option.any_some, decide_eq_true_eq, not_le] at hlt
        exact lt_of_le_of_lt hle hlt

lemma scanWeb_steps (key : String) :
    Steps S x (scanFit x doc scan) (scanWeb S doc scan key) (scanFit x doc) := by
  refine Steps.bind (Steps.ask fun _ _ => trivial) fun read => ?_
  have hscan : ∀ log, ((scanFit x doc scan).after x (.readRecord key) read).holds log →
      (scanFit x doc { scan with fetches := scan.fetches + 1 }).holds log :=
    fun log h => ScanFit.congr (Evidence.before h) rfl rfl
  cases read with
  | absent => exact Steps.pure hscan
  | record record => exact Steps.pure fun log h => (hscan log h).add rfl rfl rfl
  | migrated checked =>
    refine Steps.bind ((checkRecord_steps key .web checked).pre hscan) fun r => ?_
    obtain ⟨result, scan'⟩ := r
    cases result with
    | ok row =>
      refine Steps.pure fun log h => h.2.add rfl rfl ?_
      simp only [FindingFit, agentOf, h.1.1]
    | error reason =>
      refine Steps.bind (Steps.ask fun _ _ => trivial) fun now => Steps.pure fun log h => ?_
      exact (Evidence.before h).2.add rfl rfl rfl
  | _ =>
    refine Steps.bind (Steps.ask fun _ _ => trivial) fun now => Steps.pure fun log h => ?_
    exact (hscan log (Evidence.before h)).add rfl rfl rfl

lemma scanAgent_steps (key agentId shareId : String) :
    Steps S x (scanFit x doc scan) (scanAgent S doc scan key agentId shareId) (scanFit x doc) := by
  simp only [scanAgent]
  split
  · exact Steps.pure fun _ h => h
  split
  · exact Steps.pure fun log h => ScanFit.congr h rfl rfl
  refine Steps.bind (Steps.ask fun _ _ => trivial) fun read => ?_
  have hscan : ∀ scan' log, ((scanFit x doc scan).after x (.readAgentRecord key agentId shareId) read).holds log →
      scan'.findings = scan.findings → scan'.archived = scan.archived → ScanFit x doc scan' log :=
    fun scan' log h hf ha => ScanFit.congr (Evidence.before h) hf ha
  cases read with
  | skip => exact Steps.pure fun log h => hscan _ log h rfl rfl
  | newer recordV => exact Steps.pure fun log h => (hscan scan log h rfl rfl).add rfl rfl trivial
  | checked did checked =>
    refine Steps.bind ((checkRecord_steps key (.agent agentId) checked).pre fun log h => hscan _ log h rfl rfl)
      fun r => ?_
    obtain ⟨result, scan'⟩ := r
    cases result with
    | ok row =>
      refine Steps.pure fun log h => h.2.add rfl rfl ⟨?_, fun hps => ?_⟩
      · simp only [agentOf, h.1.1]
      · obtain ⟨found, hf, hd⟩ := h.2.loaded
        refine ⟨found, hf, fun doc' hdoc => ?_⟩
        rw [hd doc' hdoc]
        exact h.1.2 hps
    | error reason => exact Steps.pure fun log h => h.2.add rfl rfl trivial

lemma scanKeys_steps (keys : List String) :
    Steps S x (scanFit x doc scan) (scanKeys S doc scan keys) fun r => scanFit x doc r.1 := by
  induction keys generalizing scan with
  | nil => exact Steps.pure fun _ h => h
  | cons key keys ih =>
    simp only [scanKeys]
    split
    · exact ih
    · exact ih
    · split
      · exact ih
      · exact ih.pre fun log h => ScanFit.add h rfl rfl trivial
    · split
      · exact ih
      split
      · exact Steps.pure fun _ h => h
      · exact Steps.bind (scanWeb_steps key) fun _ => ih
    · split
      · exact ih
      split
      · exact Steps.pure fun _ h => h
      · exact Steps.bind (scanAgent_steps key _ _) fun _ => ih

lemma firstPage_steps (cursor : Option String) (pages : ℕ) :
    Steps S x E (firstPage cursor pages) fun _ => E := by
  refine Steps.bind (Steps.ask fun _ _ => trivial) fun page => ?_
  cases page with
  | ok keys cursor => exact Steps.pure fun _ h => Evidence.before h
  | unavailable =>
    dsimp only
    split
    · refine Steps.bind (Steps.ask fun _ _ => trivial) fun page => ?_
      exact Steps.pure fun _ h => Evidence.before (Evidence.before h)
    · exact Steps.pure fun _ h => Evidence.before h

lemma scanPages_steps (fuel : ℕ) (listing : Listing) :
    Steps S x (scanFit x doc listing.scan) (scanPages S doc fuel listing) fun l => scanFit x doc l.scan := by
  induction fuel generalizing listing with
  | zero => exact Steps.pure fun _ h => h
  | succ fuel ih =>
    simp only [scanPages]
    split
    · exact Steps.pure fun _ h => h
    · refine Steps.bind (firstPage_steps _ _) fun r => ?_
      obtain ⟨page, pages⟩ := r
      cases page with
      | unavailable => exact Steps.pure fun _ h => h
      | ok keys cursor =>
        refine Steps.bind (scanKeys_steps keys) fun r => ?_
        obtain ⟨scan', budgetHit⟩ := r
        dsimp only
        split
        · exact Steps.pure fun _ h => h
        split
        · exact Steps.pure fun _ h => h
        · exact ih _

def Finding.isCleanup : Finding → Bool
  | .gc _ => true
  | .clearNewer _ => true
  | _ => false

lemma scanEntries_steps (scan : Scan) (entries : List (String × Agent)) (pages : ℕ) :
    Steps S x E (scanEntries S scan pages entries)
      fun r => (Evidence.pure (∀ finding ∈ r.1, finding.isCleanup = true)).and E := by
  induction entries generalizing pages E with
  | nil =>
    refine Steps.pure fun log h => ⟨?_, h⟩
    rintro finding ⟨⟩
  | cons e entries ih =>
    obtain ⟨agentId, entry⟩ := e
    have hclear : ∀ finding ∈ (if entry.newerKeys.isSome && entry.newerV.any (· ≤ SUPPORTED_AGENT_RECORD_V)
        then [Finding.clearNewer agentId] else []), finding.isCleanup = true := by
      intro finding hf
      split at hf
      · rw [List.mem_singleton.mp hf]
        rfl
      · cases hf
    simp only [scanEntries]
    split
    · refine Steps.bind (ih pages) fun r => Steps.pure fun log h => ⟨fun finding hf => ?_, h.2⟩
      exact (List.mem_append.mp hf).elim (hclear finding) (h.1 finding)
    · refine Steps.bind (Steps.ask fun _ _ => trivial) fun page => ?_
      refine Steps.bind (ih (pages + 1)) fun r => Steps.pure fun log h => ⟨fun finding hf => ?_, Evidence.before h.2⟩
      rcases List.mem_append.mp hf with hf | hf
      · rcases List.mem_append.mp hf with hf | hf
        · exact hclear finding hf
        · split at hf
          · rw [List.mem_singleton.mp hf]
            rfl
          · cases hf
      · exact h.1 finding hf

lemma FindingFit.cleanup {finding : Finding} {log : List Entry} (h : finding.isCleanup = true) :
    FindingFit x log finding := by
  cases finding with
  | gc agentId => trivial
  | clearNewer agentId => trivial
  | _ => cases h

def emptyScan : Scan := ⟨[], Dict.empty, none, 0, 0, Dict.empty⟩

lemma ScanFit.empty {log : List Entry} (h : Loaded x doc log) : ScanFit x doc emptyScan log := by
  refine ⟨h, fun finding hf => ?_, fun ranks hr => ?_⟩
  · cases hf
  · cases hr

lemma reconcileFrom_steps (doc : Doc) :
    Steps S x (scanFit x doc emptyScan) (reconcileFrom S x.writer doc) fun _ => always := by
  refine Steps.bind (scanPages_steps _ ⟨emptyScan, 0, doc.cursor, false⟩) fun listing => ?_
  refine Steps.bind (scanEntries_steps listing.scan doc.agents.entries listing.pages) fun r => ?_
  refine Steps.bind ((update_steps (.findings (listing.scan.findings ++ r.1) listing.cursor)).pre
    fun log h finding hf => ?_) fun _ => Steps.pure fun _ _ => trivial
  rcases List.mem_append.mp hf with hf | hf
  · exact h.2.findings finding hf
  · exact .cleanup (h.1 finding hf)

lemma reconcile_steps :
    (requests S).Spec x (Fresh x) (reconcile S x.writer) (fun _ => always.holds) fun _ _ => True := by
  refine Steps.afterLoad (R := fun _ => always) fun l => ?_
  cases l with
  | readOnly => exact Steps.pure fun _ _ => trivial
  | unavailable => exact Steps.pure fun _ _ => trivial
  | ok doc =>
    refine (reconcileFrom_steps doc).pre fun log h => .empty ?_
    obtain ⟨found, hf, hd⟩ := h
    exact ⟨found, hf, fun doc' hdoc => (Load.ok.inj ((hd doc').mp hdoc)).symm⟩
  | _ =>
    refine Steps.bind (Steps.ask fun _ _ => trivial) fun now => ?_
    refine (reconcileFrom_steps _).pre fun log h => .empty ?_
    obtain ⟨found, hf, hd⟩ := Evidence.before h
    refine ⟨found, hf, fun doc' hdoc => ?_⟩
    cases (hd doc').mp hdoc

end Reconcile

section System

variable {S} {b b' : Index} {a : IndexAction} {x : CallId}

lemma program_sat (method : Method) :
    (requests S).Sat x (fun _ _ => True) (program S x method) (Fresh x) := by
  have hdone : ∀ {α : Type} {m : Call α}, (requests S).Spec x (Fresh x) m (fun _ => always.holds) (fun _ _ => True) →
      (requests S).Sat x (fun _ _ => True) (m.run.bind fun _ => .pure ()) (Fresh x) :=
    fun hm => Protocol.Sat.bind hm fun _ _ _ _ => trivial
  cases method with
  | flush =>
    have hreport : ∀ result, (requests S).Spec x (fun log => Fit S x log (.flushed result)) (ask (.flushed result))
        (fun a => (always.after x (.flushed result) a).holds) fun _ _ => True :=
      fun result => asked fun log h => ⟨trivial, h⟩
    exact hdone (Protocol.Spec.bind flush_steps fun result =>
      (hreport result).mono (fun _ _ h => h) (fun _ _ _ _ => trivial) fun _ _ _ h => h)
  | reconcile => exact hdone reconcile_steps
  | syncStatus => exact hdone syncStatus_steps
  | compact => exact hdone compact_steps

lemma runOp_log {c : Choice} {w w' : World} {o : Op} {answer : Option o.Res} (h : runOp c x w o = some (answer, w')) :
    ∃ landed, w'.log = ⟨x, o, answer, landed⟩ :: w.log := by
  cases o with
  | writeMain change base now next condition =>
    obtain ⟨landed, -, heq⟩ := Option.map_eq_some_iff.mp h
    cases heq
    cases landed <;> exact ⟨_, rfl⟩
  | writeArchive group next condition =>
    obtain ⟨landed, -, heq⟩ := Option.map_eq_some_iff.mp h
    cases heq
    cases landed <;> exact ⟨_, rfl⟩
  | listKeys under cursor =>
    simp only [runOp] at h
    split at h
    · cases h
      exact ⟨_, rfl⟩
    · cases h
  | outboxRemove ids =>
    cases h
    cases c.fails <;> exact ⟨_, rfl⟩
  | _ =>
    cases h
    exact ⟨_, rfl⟩

/-- All requests of the log were fit when they were made. -/
def AllFit (S : Settings) (log : List Entry) : Prop :=
  ∀ later e before, log = later ++ e :: before → Fit S e.call before e.op

lemma AllFit.cons {log : List Entry} {e : Entry} (h : AllFit S log) (he : Fit S e.call log e.op) :
    AllFit S (e :: log) := by
  intro later e' before heq
  cases later with
  | nil =>
    cases heq
    exact he
  | cons e'' later =>
    cases heq
    exact h later e' before rfl

lemma indexStep_log (h : indexStep S b a = some b') : b'.world.log = b.world.log ∨
    ∃ x o answer landed next c, a = .answer x c ∧ b.calls x = some (.op o next) ∧
      runOp c x b.world o = some (answer, b'.world) ∧ b'.calls = Function.update b.calls x (some (next answer)) ∧
      b'.world.log = ⟨x, o, answer, landed⟩ :: b.world.log := by
  cases a with
  | answer x c =>
    right
    simp only [indexStep] at h
    split at h
    · rename_i o next hx
      obtain ⟨⟨answer, world⟩, hr, heq⟩ := Option.map_eq_some_iff.mp h
      cases heq
      obtain ⟨landed, hlog⟩ := runOp_log hr
      exact ⟨x, o, answer, landed, next, c, rfl, hx, hr, rfl, hlog⟩
    · cases h
  | start x method =>
    simp only [indexStep, Option.ite_none_right_eq_some, Option.some.injEq] at h
    obtain ⟨-, rfl⟩ := h
    exact .inl rfl
  | crash x =>
    cases h
    exact .inl rfl
  | enqueue writer op =>
    simp only [indexStep, Option.ite_none_right_eq_some, Option.some.injEq] at h
    obtain ⟨-, rfl⟩ := h
    exact .inl rfl
  | damageMain value =>
    simp only [indexStep, Option.ite_none_right_eq_some, Option.some.injEq] at h
    obtain ⟨-, rfl⟩ := h
    exact .inl rfl
  | damageArchive name readable v =>
    obtain ⟨stored, -, rfl⟩ := Option.map_eq_some_iff.mp h
    exact .inl rfl

lemma fit_step (h : (requests S).Settled b.calls b.world.log ∧ AllFit S b.world.log) (hs : indexStep S b a = some b') :
    (requests S).Settled b'.calls b'.world.log ∧ AllFit S b'.world.log := by
  rcases indexStep_log hs with hlog | ⟨x, o, answer, landed, next, c, rfl, hx, -, hcalls, hlog⟩
  · rw [hlog]
    refine ⟨?_, h.2⟩
    cases a with
    | start x method =>
      simp only [indexStep, Option.ite_none_right_eq_some, Option.some.injEq] at hs
      obtain ⟨hnew, rfl⟩ := hs
      refine h.1.start fresh_stable (fun e he => ?_) (program_sat method)
      exact bne_iff_ne.mp (List.all_eq_true.mp ((Bool.and_eq_true _ _).mp hnew).2 e he)
    | crash x =>
      cases hs
      refine h.1.fewer fun y p hy => ?_
      dsimp only at hy
      by_cases hyx : y = x
      · rw [hyx, Function.update_self] at hy
        cases hy
      · rwa [Function.update_of_ne hyx] at hy
    | answer x c =>
      simp only [indexStep] at hs
      split at hs
      · obtain ⟨⟨answer, world⟩, hr, heq⟩ := Option.map_eq_some_iff.mp hs
        cases heq
        obtain ⟨landed, hlog'⟩ := runOp_log hr
        exact absurd (hlog'.symm.trans hlog) (by simp)
      · cases hs
    | enqueue writer op =>
      simp only [indexStep, Option.ite_none_right_eq_some, Option.some.injEq] at hs
      obtain ⟨-, rfl⟩ := hs
      exact h.1
    | damageMain value =>
      simp only [indexStep, Option.ite_none_right_eq_some, Option.some.injEq] at hs
      obtain ⟨-, rfl⟩ := hs
      exact h.1
    | damageArchive name readable v =>
      obtain ⟨stored, -, rfl⟩ := Option.map_eq_some_iff.mp hs
      exact h.1
  · rw [hlog, hcalls]
    have hexec : (requests S).exec x o b.world.log answer (⟨x, o, answer, landed⟩ :: b.world.log) := ⟨landed, rfl⟩
    refine ⟨h.1.step hx hexec, h.2.cons ?_⟩
    obtain ⟨P, -, hP, hsat⟩ := h.1.2 x _ hx
    obtain ⟨-, ⟨e, he, -, hfit⟩, -⟩ := hsat _ trivial hP answer _ hexec
    cases he
    exact hfit

theorem fit_of_reachable (h : (indexMachine S).Reachable b) : AllFit S b.world.log := by
  refine (h.invariant (I := fun b => (requests S).Settled b.calls b.world.log ∧ AllFit S b.world.log) ?_
    fun b a b' hI hs => fit_step hI hs).2
  rintro b ⟨hw, hc⟩
  rw [hw]
  refine ⟨⟨trivial, fun x p hx => ?_⟩, fun later e before heq => ?_⟩
  · rw [hc x] at hx
    cases hx
  · cases later <;> cases heq

end System

end TinyCloud.ShareIndex
