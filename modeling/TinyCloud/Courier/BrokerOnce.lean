import Mathlib.Data.List.Pairwise
import TinyCloud.Courier.Broker

/-!
# An approved action runs at most once, exactly as approved

Over any run of any number of calls. What a call asserts speaks of its own entries in the log, which
no other call changes; that a marker is created once makes a merge happen once.
-/

namespace TinyCloud.Courier

open TinyCloud.Text TinyCloud.Runs

def Op.isMerge : Op → Bool
  | .exec _ _ (_ :: sub :: _) => sub == js "merge"
  | _ => false

def Op.written : Op → Option KvKey
  | .putCreate key _ _ => some key
  | _ => none

/-- The marker whose creation was acknowledged. -/
def Entry.created (e : Entry) : Option KvKey :=
  match e with
  | ⟨_, .putCreate key _ _, some (.ok ())⟩ => some key
  | _ => none

def own (x : CallId) (log : List Entry) : List Entry := log.filter fun e => e.call = x

/-- The call read `v` under the key, and read no other value there. -/
structure ReadOnce (x : CallId) (l : List Entry) (key : KvKey) (v : Value) : Prop where
  read : ∃ data, ⟨x, .get key, some (.ok (some data))⟩ ∈ l ∧ parsed data = v
  only : ∀ data, ⟨x, .get key, some (.ok data)⟩ ∈ l → data.map parsed = some v

/-- What one call has seen. -/
structure Inputs where
  request : Value
  approval : Value
  now : ℤ
  fields : RequestFields
  pins : Pins
  template : Template

/-- `gh` reported an open pull request with these pins. -/
structure Shows (view : ExecResult) (pins : Pins) : Prop where
  code : view.code = some 0
  state : ∃ state, viewState view.stdout = .ok state ∧ state.text "state" = some (js "OPEN") ∧
    state.text "headRefOid" = some pins.headSha ∧ state.text "baseRefName" = some pins.base

/-- The checks that come before the scratch directory. -/
structure Vetted (P : Platform) (x : CallId) (l : List Entry) (i : Inputs) : Prop where
  request : ReadOnce x l (.request x.requestId) i.request
  approval : ReadOnce x l (.approval x.requestId) i.approval
  clock : ⟨x, .now, some i.now⟩ ∈ l
  decides : Decides P x.requestId i.request i.approval i.now "approved"
  carries : Carries i.request i.fields
  merge : i.fields.verb = js "merge" ∧ i.fields.pins = some i.pins
  target : i.fields.target = i.template.repo ++ js "#" ++ i.template.number
  unused : ∃ e, isKeyMissing e = true ∧ ⟨x, .getNetwork (.approvalUsed x.requestId), some (.error e)⟩ ∈ l

/-- All checks that come before the marker. -/
structure Checked (P : Platform) (x : CallId) (l : List Entry) (i : Inputs) : Prop
    extends Vetted P x l i where
  viewed : ∃ credential scratch view, ⟨x, .exec credential scratch i.template.view, some view⟩ ∈ l ∧
    Shows view i.pins

/-- The call acknowledged as the creator of its marker. -/
def Marked (x : CallId) (l : List Entry) : Prop :=
  ∃ usedAt, ⟨x, .putCreate (.approvalUsed x.requestId) x.requestId usedAt, some (.ok ())⟩ ∈ l

/-- Why the operation may follow the earlier operations of its call. -/
structure Justified (P : Platform) (x : CallId) (o : Op) (l : List Entry) : Prop where
  write : ∀ key, o.written = some key →
    key = .approvalUsed x.requestId ∧ ∃ i, Checked P x l i
  merge : o.isMerge = true → Marked x l ∧ (∀ e ∈ l, e.op.isMerge = false) ∧
    ∃ i credential scratch, Checked P x l i ∧ o = .exec credential scratch (i.template.merge i.pins.headSha)

def Sound (P : Platform) : List Entry → Prop
  | [] => True
  | e :: l => Justified P e.call e.op (own e.call l) ∧ Sound P l

def Exclusive (e e' : Entry) : Prop := ∀ key, e.created = some key → e'.created ≠ some key

instance : Std.Symm Exclusive := ⟨fun _ _ h key hb ha => h key ha hb⟩

structure BrokerInv (P : Platform) (s : World) : Prop where
  sound : Sound P s.log
  used : ∀ e ∈ s.log, ∀ key, e.created = some key → s.used key = true
  once : s.log.Pairwise Exclusive

def broker (P : Platform) : Protocol CallId World Op Op.Res where
  exec x o s r t := ∃ c used, runOp c s.used o = some (r, used) ∧ t = ⟨used, ⟨x, o, r⟩ :: s.log⟩
  inv := BrokerInv P
  rely x s t := own x t.log = own x s.log
  guar x s t := ∀ y, y ≠ x → own y t.log = own y s.log
  compatible h hg := hg _ (Ne.symm h)

def At (x : CallId) (l : List Entry) (s : World) : Prop := own x s.log = l

section Operations

variable {P : Platform} {x : CallId} {l : List Entry} {key : KvKey} {e : Entry} {i : Inputs}

lemma stable_at : (broker P).Stable x (At x l) := fun _ _ h hr => hr.trans h

lemma stable_true : (broker P).Stable x (fun _ => True) := Protocol.Stable.const

lemma own_cons_self {o : Op} {r : Option o.Res} {log : List Entry} :
    own x (⟨x, o, r⟩ :: log) = ⟨x, o, r⟩ :: own x log := by
  simp [own]

lemma own_cons_of_ne {y : CallId} {o : Op} {r : Option o.Res} {log : List Entry} (h : y ≠ x) :
    own y (⟨x, o, r⟩ :: log) = own y log := by
  simp [own, Ne.symm h]

lemma runOp_used {c : Choice} {used used' : KvKey → Bool} {o : Op} {r : Option o.Res}
    (h : runOp c used o = some (r, used')) (hk : used key = true) : used' key = true := by
  have hm (k : KvKey) : mark used k key = true := by
    rw [mark, Function.update_apply]
    split <;> simp [hk]
  cases o with
  | putCreate k id at_ =>
    simp only [runOp] at h
    split at h
    · split_ifs at h
      cases h
      exact hm k
    · cases h
      split_ifs
      · exact hm k
      · exact hk
  | _ =>
    cases h
    exact hk

lemma runOp_created {c : Choice} {used used' : KvKey → Bool} {o : Op} {r : Option o.Res}
    (h : runOp c used o = some (r, used')) (hc : Entry.created ⟨x, o, r⟩ = some key) :
    used key = false ∧ used' key = true := by
  cases o with
  | putCreate k id at_ =>
    simp only [runOp] at h
    split at h
    · split_ifs at h with hn
      cases h
      cases hc
      simp only [Bool.or_eq_true, not_or, Bool.not_eq_true] at hn
      exact ⟨hn.1, by simp [mark]⟩
    · rename_i answer ha
      split_ifs at h <;> cases h <;> cases hm : c.marker with
      | ok u => exact absurd hm ha
      | _ => simp [Entry.created, hm] at hc
  | _ => cases hc

/-- An operation with its justification keeps the invariant and is added to the log. -/
lemma perform_spec {o : Op} {F : World → Prop} (hF : (broker P).Stable x F)
    (hj : Justified P x o l) (hl : ∀ s, At x (⟨x, o, none⟩ :: l) s → F s) :
    (broker P).Spec x (At x l) (ask o) (fun a s => At x (⟨x, o, some a⟩ :: l) s) (fun _ => F) := by
  refine .perform (fun a => stable_at) hF ?_
  rintro s hi hs r t ⟨c, used, hr, rfl⟩
  refine ⟨⟨⟨?_, hi.sound⟩, ?_, List.pairwise_cons.mpr ⟨?_, hi.once⟩⟩, fun y hy => own_cons_of_ne hy, ?_⟩
  · rw [show own x s.log = l from hs]
    exact hj
  · intro e he key hk
    rcases List.mem_cons.mp he with rfl | he
    · exact (runOp_created hr hk).2
    · exact runOp_used hr (hi.used e he key hk)
  · intro e he key hk hk'
    have := hi.used e he key hk'
    rw [(runOp_created hr hk).1] at this
    cases this
  · have hs' : own x (⟨x, o, r⟩ :: s.log) = ⟨x, o, r⟩ :: l := own_cons_self.trans (congrArg _ hs)
    cases r with
    | none => exact hl _ hs'
    | some a => exact hs'

lemma Justified.quiet {o : Op} (hw : o.written = none) (hm : o.isMerge = false) : Justified P x o l :=
  ⟨fun key hk => by simp [hw] at hk, fun h => by simp [hm] at h⟩

end Operations

section Calls

variable {P : Platform} {x : CallId} {l g : List Entry} {key : KvKey} {i : Inputs} {α : Type}

/-- From the entries `l` of its own, the call runs to a result that satisfies `Q`, or fails. -/
abbrev Steps (P : Platform) (x : CallId) (l : List Entry) (m : Call α) (Q : α → World → Prop) : Prop :=
  (broker P).Spec x (At x l) m Q (fun _ _ => True)

lemma ask_steps {o : Op} (hj : Justified P x o l) :
    Steps P x l (ask o) (fun a s => At x (⟨x, o, some a⟩ :: l) s) :=
  perform_spec stable_true hj (fun _ _ => trivial)

lemma quiet_steps {o : Op} (hw : o.written = none) (hm : o.isMerge = false) :
    Steps P x l (ask o) (fun a s => At x (⟨x, o, some a⟩ :: l) s) :=
  ask_steps (.quiet hw hm)

lemma fail_steps {code : String} {Q : α → World → Prop} : Steps P x l (fail code) Q :=
  .throw fun _ _ _ => trivial

lemma throw_steps {e : Failure} {Q : α → World → Prop} : Steps P x l (throw e) Q :=
  .throw fun _ _ _ => trivial

lemma settled_steps {r : Except Failure α} {Q : α → World → Prop}
    (h : ∀ a s, r = .ok a → At x l s → Q a s) : Steps P x l (settled r) Q := by
  cases r with
  | ok a => exact .pure fun s _ hs => h a s rfl hs
  | error e => exact throw_steps

/-- The entries of one retried read. -/
def IsMiss (x : CallId) (key : KvKey) (e : Entry) : Prop :=
  e.call = x ∧ e.op = .get key ∧ ∀ data, e ≠ ⟨x, .get key, some (.ok data)⟩

lemma isMiss_error {e : KvError} : IsMiss x key ⟨x, .get key, some (.error e)⟩ :=
  ⟨rfl, rfl, nofun⟩

lemma isMiss_threw {transient : Bool} : IsMiss x key ⟨x, .get key, some (.threw transient)⟩ :=
  ⟨rfl, rfl, nofun⟩

def Retried (x : CallId) (key : KvKey) (l : List Entry) (r : Answer (Option Value)) (s : World) : Prop :=
  ∃ misses, (∀ e ∈ misses, IsMiss x key e) ∧ At x (⟨x, .get key, some r⟩ :: (misses ++ l)) s

lemma Retried.first {r : Answer (Option Value)} {s : World} (h : At x (⟨x, .get key, some r⟩ :: l) s) :
    Retried x key l r s :=
  ⟨[], by simp, h⟩

lemma Retried.more {r : Answer (Option Value)} {s : World} {e : Entry} (he : IsMiss x key e)
    (h : Retried x key (e :: l) r s) : Retried x key l r s := by
  obtain ⟨misses, hm, hs⟩ := h
  refine ⟨misses ++ [e], ?_, by simpa using hs⟩
  intro e' he'
  rcases List.mem_append.mp he' with h | h
  · exact hm e' h
  · rw [List.mem_singleton.mp h]
    exact he

lemma readRetry_steps {retries : ℕ} : Steps P x l (readRetry key retries) (Retried x key l) := by
  induction retries generalizing l with
  | zero =>
    refine .bind (quiet_steps rfl rfl) (fun r => ?_)
    cases r with
    | ok data => exact .pure fun _ _ => .first
    | error e => exact .pure fun _ _ => .first
    | threw transient => exact throw_steps
  | succ retries ih =>
    have again {e : Entry} (he : IsMiss x key e) :
        Steps P x (e :: l) (readRetry key retries) (Retried x key l) :=
      ih.mono (fun _ _ h => h) (fun _ _ _ h => .more he h) (fun _ _ _ h => h)
    refine .bind (quiet_steps rfl rfl) (fun r => ?_)
    cases r with
    | ok data => exact .pure fun _ _ => .first
    | error e =>
      refine .ite (fun _ => again isMiss_error) (fun _ => ?_)
      exact .pure fun _ _ => .first
    | threw transient => exact .ite (fun _ => again isMiss_threw) (fun _ => throw_steps)

/-- The entries that a read of `key` added. -/
structure Reading (x : CallId) (key : KvKey) (g : List Entry) (v : Option Value) : Prop where
  only : ∀ e ∈ g, e.op = .get key
  once : ∀ w, v = some w → ReadOnce x g key w

lemma readOnce_of_misses {misses : List Entry} {data : Value} (h : ∀ e ∈ misses, IsMiss x key e) :
    ReadOnce x (⟨x, .get key, some (.ok (some data))⟩ :: misses) key (parsed data) := by
  refine ⟨⟨data, List.mem_cons_self, rfl⟩, fun data' hd => ?_⟩
  rcases List.mem_cons.mp hd with hd | hd
  · cases hd
    rfl
  · exact absurd rfl ((h _ hd).2.2 data')

lemma getJson_steps :
    Steps P x l (getJson key) (fun v s => ∃ g, Reading x key g v ∧ At x (g ++ l) s) := by
  refine .bind readRetry_steps (fun r => ?_)
  have hr {v : Option Value} (hv : ∀ w, v = some w → ∃ data, r = .ok (some data) ∧ parsed data = w) {s : World}
      (h : Retried x key l r s) : ∃ g, Reading x key g v ∧ At x (g ++ l) s := by
    obtain ⟨misses, hm, hs⟩ := h
    refine ⟨⟨x, .get key, some r⟩ :: misses, ⟨?_, ?_⟩, hs⟩
    · intro e he
      rcases List.mem_cons.mp he with rfl | he
      · rfl
      · exact (hm e he).2.1
    · intro w hw
      obtain ⟨data, rfl, rfl⟩ := hv w hw
      exact readOnce_of_misses hm
  cases r with
  | ok data =>
    refine .pure fun s _ => hr fun w hw => ?_
    cases data with
    | none => cases hw
    | some data =>
      cases hw
      exact ⟨data, rfl, rfl⟩
  | error e =>
    refine .ite (fun _ => .throw fun _ _ _ => trivial) (fun _ => ?_)
    refine .ite (fun _ => ?_) (fun _ => .throw fun _ _ _ => trivial)
    exact .pure fun s _ => hr fun w hw => by cases hw
  | threw transient => exact .throw fun _ _ _ => trivial

/-- The marker was read as missing. -/
def Unused (x : CallId) (l : List Entry) (s : World) : Prop :=
  ∃ e, isKeyMissing e = true ∧
    At x (⟨x, .getNetwork (.approvalUsed x.requestId), some (.error e)⟩ :: l) s

lemma isConsumed_steps :
    Steps P x l (isConsumed x.requestId) (fun used s => used = false → Unused x l s) := by
  have hread : Steps P x l (tryCatch (ask (.getNetwork (.approvalUsed x.requestId)))
      fun _ => fail "approval-state-unknown")
      (fun r s => At x (⟨x, .getNetwork (.approvalUsed x.requestId), some r⟩ :: l) s) :=
    .tryCatch (quiet_steps rfl rfl) (fun _ => .throw fun _ _ _ => trivial)
  refine .bind hread (fun r => ?_)
  cases r with
  | ok u => exact .pure fun _ _ _ h => by cases h
  | error e =>
    refine .ite (fun he => ?_) (fun _ => fail_steps)
    exact .pure fun s _ hs _ => ⟨e, he, hs⟩
  | threw transient => exact fail_steps

lemma cut_eq {u : CodeUnit} {t a b : JsString} (h : cut u t = some (a, b)) : t = a ++ u :: b := by
  unfold cut at h
  split at h
  · cases h
  · rename_i v rest hd
    cases h
    have hv : v = u := by
      have := List.head?_dropWhile_not (· != u) t
      rw [hd] at this
      simpa using this
    have := List.takeWhile_append_dropWhile (p := (· != u)) (l := t)
    rw [hd, hv] at this
    exact this.symm

lemma templateFor_ok {verb target : JsString} {template : Template}
    (h : templateFor verb target = .ok template) :
    verb = js "merge" ∧
      canonicalTarget (js "merge") target = some (template.repo ++ js "#" ++ template.number) := by
  obtain ⟨_, hv, h⟩ := bind_eq_ok h
  obtain ⟨canonical, ht, h⟩ := bind_eq_ok h
  obtain ⟨⟨repo, number⟩, hc, h⟩ := bind_eq_ok h
  obtain ⟨_, -, h⟩ := bind_eq_ok h
  cases h
  refine ⟨by simpa using throwIf_eq_ok hv, ?_⟩
  rw [orThrow_eq_ok ht, cut_eq (orThrow_eq_ok hc), List.append_assoc]
  rfl

lemma checkView_ok {pins : Option Pins} {view : ExecResult} {sha : JsString}
    (h : checkView pins view = .ok sha) : ∃ p, pins = some p ∧ sha = p.headSha ∧ Shows view p := by
  obtain ⟨_, hcode, h⟩ := bind_eq_ok h
  obtain ⟨state, hs, h⟩ := bind_eq_ok h
  obtain ⟨_, hopen, h⟩ := bind_eq_ok h
  obtain ⟨headRefOid, hh, h⟩ := bind_eq_ok h
  obtain ⟨sha', hsha, h⟩ := bind_eq_ok h
  obtain ⟨_, hne, h⟩ := bind_eq_ok h
  obtain ⟨baseRefName, hb, h⟩ := bind_eq_ok h
  obtain ⟨_, hbne, h⟩ := bind_eq_ok h
  cases h
  obtain ⟨p, hp, hps⟩ := Option.map_eq_some_iff.mp (orThrow_eq_ok hsha)
  subst hp hps
  have hopen := throwIf_eq_ok hopen
  simp only [Bool.or_eq_false_iff, bne_eq_false_iff_eq] at hopen
  have hne : headRefOid = p.headSha := by simpa using throwIf_eq_ok hne
  have hbne : p.base = baseRefName := by simpa using throwIf_eq_ok hbne
  refine ⟨p, rfl, rfl, by simpa using throwIf_eq_ok hcode, state, hs, hopen.1, ?_, ?_⟩
  · rw [← hne]
    exact (Option.filter_eq_some_iff.mp (orThrow_eq_ok hh)).1
  · rw [hbne]
    exact (Option.filter_eq_some_iff.mp (orThrow_eq_ok hb)).1

lemma ReadOnce.append {v : Value} (h : ReadOnce x l key v) (l₁ l₂ : List Entry)
    (h₁ : ∀ e ∈ l₁, e.op ≠ .get key) (h₂ : ∀ e ∈ l₂, e.op ≠ .get key) :
    ReadOnce x (l₁ ++ (l ++ l₂)) key v := by
  obtain ⟨⟨data, hd, rfl⟩, honly⟩ := h
  refine ⟨⟨data, by simp [hd], rfl⟩, fun data' hd' => ?_⟩
  simp only [List.mem_append] at hd'
  obtain h | h | h := hd'
  · exact absurd rfl (h₁ _ h)
  · exact honly data' h
  · exact absurd rfl (h₂ _ h)

/-- No entry reads a record, writes a marker or merges. -/
def Apart (l : List Entry) : Prop :=
  ∀ e ∈ l, (∀ key, e.op ≠ .get key) ∧ e.op.isMerge = false

lemma Vetted.append (h : Vetted P x l i) (l' : List Entry) (h' : Apart l') : Vetted P x (l' ++ l) i := by
  have hget (key : KvKey) : ∀ e ∈ l', e.op ≠ .get key := fun e he => (h' e he).1 key
  obtain ⟨e, he, hu⟩ := h.unused
  exact { h with
    request := by simpa using h.request.append l' [] (hget _) (by simp)
    approval := by simpa using h.approval.append l' [] (hget _) (by simp)
    clock := List.mem_append_right _ h.clock
    unused := ⟨e, he, List.mem_append_right _ hu⟩ }

lemma runVerified_steps :
    Steps P x [] (runVerified P x.requestId) (fun r s => ∃ l i, Vetted P x l i ∧
      (∀ e ∈ l, e.op.isMerge = false) ∧ i.fields = r.1.fields ∧ i.template = r.2.1 ∧ At x l s) := by
  refine .ite (fun _ => fail_steps) (fun _ => ?_)
  refine .bind getJson_steps (fun request => .of_exists fun g₁ => .of_and fun hg₁ => ?_)
  cases request with
  | none => exact fail_steps
  | some request =>
    refine .bind getJson_steps (fun approval => .of_exists fun g₂ => .of_and fun hg₂ => ?_)
    cases approval with
    | none => exact fail_steps
    | some approval =>
      refine .bind (quiet_steps rfl rfl) (fun now => ?_)
      refine .bind (settled_steps fun verified s hv hs => ⟨hv, hs⟩) (fun verified => .of_and fun hv => ?_)
      refine .ite (fun _ => fail_steps) (fun hd => ?_)
      refine .bind (settled_steps fun template s ht hs => ⟨ht, hs⟩) (fun template => .of_and fun ht => ?_)
      refine .bind (quiet_steps rfl rfl) (fun credential => ?_)
      refine .bind isConsumed_steps (fun used => ?_)
      cases used with
      | true => exact .throw fun _ _ _ => trivial
      | false =>
        refine .pure fun s _ hs => ?_
        obtain ⟨e, he, hs⟩ := hs rfl
        obtain ⟨hdec, hcar⟩ := decides_of_verifyApproval hv (not_not.mp hd)
        obtain ⟨hverb, htarget⟩ := templateFor_ok ht
        obtain ⟨pins, hpins, -⟩ := hcar.pins hverb
        have hcanon := hcar.canonical
        rw [hverb, htarget] at hcanon
        refine ⟨_, ⟨request, approval, now, verified.fields, pins, template⟩,
          ⟨?_, ?_, ?_, hdec, hcar, ⟨hverb, hpins⟩, (Option.some.inj hcanon).symm, e, he, ?_⟩, ?_, rfl, rfl, hs⟩
        · exact (hg₁.once request rfl).append (_ :: _ :: _ :: g₂) _
            (by simpa using fun e he => by simp [hg₂.only e he]) (by simp)
        · exact (hg₂.once approval rfl).append [_, _, _] _
            (by simp) (by simpa using fun e he => by simp [hg₁.only e he])
        · simp
        · simp
        · simp only [List.append_nil, List.mem_cons, List.mem_append]
          rintro e (rfl | rfl | rfl | h | h)
          · rfl
          · rfl
          · rfl
          · rw [hg₂.only e h]
            rfl
          · rw [hg₁.only e h]
            rfl

lemma view_isMerge {credential : BrokerCredential} {scratch : JsString} {template : Template} :
    (Op.exec credential scratch template.view).isMerge = false := by
  change (js "view" == js "merge") = false
  decide

lemma markConsumed_steps {usedAt : ℤ} (h : Checked P x l i) :
    Steps P x l (markConsumed x.requestId usedAt) (fun _ s =>
      At x (⟨x, .putCreate (.approvalUsed x.requestId) x.requestId usedAt, some (.ok ())⟩ :: l) s) := by
  refine .tryCatch (G := fun _ _ => True) (.bind (ask_steps ⟨?_, nofun⟩) (fun r => ?_)) (fun e => ?_)
  · rintro key ⟨⟩
    exact ⟨rfl, i, h⟩
  · cases r with
    | ok u => exact .pure fun s _ hs => hs
    | error e => exact .ite (fun _ => fail_steps) (fun _ => throw_steps)
    | threw transient => exact throw_steps
  · exact .ite (fun _ => .throw fun _ _ _ => trivial) (fun _ => .throw fun _ _ _ => trivial)

lemma runPinned_steps {verified : VerifiedApproval} {credential : BrokerCredential} {scratch : JsString}
    (h : Vetted P x l i) (hm : ∀ e ∈ l, e.op.isMerge = false) (hf : i.fields = verified.fields) :
    Steps P x l (runPinned x.requestId verified i.template credential scratch) (fun _ _ => True) := by
  refine .bind (quiet_steps rfl view_isMerge) (fun view => ?_)
  refine .bind (settled_steps fun sha s hc hs => ⟨hc, hs⟩) (fun sha => .of_and fun hc => ?_)
  refine .bind (quiet_steps rfl rfl) (fun usedAt => ?_)
  obtain ⟨pins, hpins, rfl, hshows⟩ := checkView_ok hc
  have hp : pins = i.pins := by
    rw [← hf, h.merge.2] at hpins
    exact (Option.some.inj hpins).symm
  subst hp
  have hchecked : Checked P x (⟨x, .now, some usedAt⟩ ::
      ⟨x, .exec credential scratch i.template.view, some view⟩ :: l) i := by
    have hv := h.append [⟨x, .now, some usedAt⟩, ⟨x, .exec credential scratch i.template.view, some view⟩]
      (by simp [Apart, view_isMerge, show Op.now.isMerge = false from rfl])
    exact ⟨hv, ⟨credential, scratch, view, by simp, hshows⟩⟩
  refine .bind (markConsumed_steps hchecked) (fun _ => ?_)
  refine .bind (ask_steps ⟨nofun, fun _ => ⟨⟨usedAt, List.mem_cons_self⟩, ?_, i, credential, scratch, ?_, rfl⟩⟩)
    (fun merged => .pure fun _ _ _ => trivial)
  · rintro e he
    simp only [List.mem_cons] at he
    obtain rfl | rfl | rfl | he := he
    · rfl
    · rfl
    · exact view_isMerge
    · exact hm e he
  · have hv := hchecked.toVetted.append [⟨x, .putCreate (.approvalUsed x.requestId) x.requestId usedAt,
      some (.ok ())⟩] (by simp [Apart, Op.isMerge])
    obtain ⟨c, d, view, hmem, hs⟩ := hchecked.viewed
    exact ⟨hv, ⟨c, d, view, List.mem_cons_of_mem _ hmem, hs⟩⟩

lemma finally_steps {m : Call α} {o : Op} (h : Steps P x l m (fun _ _ => True)) (hw : o.written = none)
    (hm : o.isMerge = false) : Steps P x l (finally_ m o) (fun _ _ => True) := by
  have hbody : Steps P x l (tryCatch (do let a ← m; pure (Except.ok a)) fun e => pure (Except.error e))
      (fun _ _ => True) := by
    refine .tryCatch (G := fun _ _ => True) (.bind h fun a => ?_) (fun e => ?_)
    · exact .pure fun _ _ _ => trivial
    · exact .pure fun _ _ _ => trivial
  have hask : (broker P).Spec x (fun _ => True) (ask o) (fun _ _ => True) (fun _ _ => True) := by
    refine .of_state fun s₀ _ _ => ?_
    refine (quiet_steps (l := own x s₀.log) hw hm).mono ?_ (fun _ _ _ _ => trivial) (fun _ _ _ h => h)
    rintro s - rfl
    rfl
  refine .bind hbody (fun r => .bind hask fun _ => ?_)
  cases r with
  | ok a => exact .pure fun _ _ _ => trivial
  | error e => exact .throw fun _ _ _ => trivial

lemma program_sat : (broker P).Sat x (fun _ _ => True) (program P x) (At x []) := by
  have hrun : Steps P x [] (runApproved P x.requestId) (fun _ _ => True) := by
    refine .bind runVerified_steps (fun ⟨verified, template, credential⟩ => ?_)
    refine .of_exists fun l => .of_exists fun i => .of_and fun hv => .of_and fun hm => .of_and fun hf =>
      .of_and fun ht => ?_
    cases ht
    refine .bind (quiet_steps rfl rfl) (fun scratch => ?_)
    refine finally_steps (runPinned_steps (hv.append [_] ?_) ?_ hf) rfl rfl
    · simp [Apart, Op.isMerge]
    · rintro e he
      rcases List.mem_cons.mp he with rfl | he
      · rfl
      · exact hm e he
  exact .bind hrun fun _ _ _ _ => trivial

end Calls

section Runs

variable {P : Platform} {b : Broker} {l : List Entry}

lemma settled_of_reachable (h : (brokerMachine P).Reachable b) : (broker P).Settled b.calls b.world := by
  induction h with
  | @start b h =>
    refine ⟨⟨?_, ?_, ?_⟩, fun x p hp => ?_⟩
    · rw [h.1]
      trivial
    · rw [h.1]
      exact fun e he => by cases he
    · rw [h.1]
      exact List.Pairwise.nil
    · rw [h.2 x] at hp
      cases hp
  | @step b a b' _ _ hs ih =>
    cases a with
    | start x =>
      simp only [brokerMachine, brokerStep] at hs
      split_ifs at hs with hc
      cases hs
      refine ih.start stable_at ?_ program_sat
      simp only [Bool.and_eq_true, List.all_eq_true, bne_iff_ne] at hc
      exact List.filter_eq_nil_iff.mpr fun e he => by simpa using hc.2 e he
    | answer x c =>
      simp only [brokerMachine, brokerStep] at hs
      split at hs
      · rename_i o next hx
        obtain ⟨⟨r, used⟩, hr, rfl⟩ := Option.map_eq_some_iff.mp hs
        exact ih.step hx ⟨c, used, hr, rfl⟩
      · cases hs
    | crash x =>
      cases hs
      refine ih.fewer fun y p hy => ?_
      simp only [Function.update_apply] at hy
      split_ifs at hy
      exact hy
    | mark key =>
      cases hs
      refine ih.outside ⟨ih.1.sound, fun e he k hk => ?_, ih.1.once⟩ (fun y _ => rfl)
      change mark b.world.used key k = true
      rw [mark, Function.update_apply, ih.1.used e he k hk, ite_self]

lemma mem_own {x : CallId} {e : Entry} (h : e ∈ own x l) : e ∈ l ∧ e.call = x := by
  simpa [own] using h

lemma Marked.entry {x : CallId} (h : Marked x (own x l)) :
    ∃ e ∈ l, e.call = x ∧ e.created = some (.approvalUsed x.requestId) := by
  obtain ⟨usedAt, he⟩ := h
  exact ⟨_, (mem_own he).1, rfl, rfl⟩

end Runs

section Sample

def ulid (c : String) : JsString := js ("01J0000000000000000000000" ++ c)
def sampleSha : JsString := js "0123456789abcdef0123456789abcdef01234567"
def sampleStamp (day : String) : JsString := js ("2026-01-0" ++ day ++ "T00:00:00.000Z")
def sampleDigest : JsString := js "57ec441f6052eebc9216758ad3c923da21e2bf1600888a9ca8d3dac8679ee2c6"

def samplePlatform : Platform where
  sha256Hex _ := sampleDigest
  nfc s := s
  dateParse s :=
    if s = sampleStamp "1" then some 1767225600000
    else if s = sampleStamp "2" then some 1767312000000
    else none
  numberText n := some n.literal
  textAllowedRanges := #[]

def member (key : String) (value : JsString) : JsString × Value := (js key, .str value)

def sampleRequest : Value := .obj
  [member "id" (ulid "1"), member "peer" (js "bob"), member "threadId" (ulid "2"),
    member "taskId" (ulid "3"), member "verb" (js "merge"), member "target" (js "acme/app#7"),
    member "summary" (js "Merge it"),
    (js "requestedBy", .obj [member "owner" (js "did:a"), member "agent" (js "did:b")]),
    member "createdAt" (sampleStamp "1"), member "expiresAt" (sampleStamp "2"),
    member "status" (js "pending"), member "headSha" sampleSha, member "base" (js "main")]

def sampleApproval : Value := .obj
  [member "requestId" (ulid "1"), member "requestHash" sampleDigest, member "decision" (js "approved"),
    member "note" [], member "decidedAt" (sampleStamp "1")]

def keyMissing : KvError := ⟨some (js "404"), none, some (js "KV_NOT_FOUND"), none, js "Key not found"⟩
def keyExists : KvError := ⟨some (js "412"), none, none, none, js "Precondition failed"⟩

def sampleView : ExecResult :=
  ⟨some 0, js "\x7b\"state\":\"OPEN\",\"isDraft\":false,\"baseRefName\":\"main\",\"headRefOid\":\"" ++
    sampleSha ++ js "\"\x7d", []⟩

def sampleChoice (value : Value) (marker : Answer Unit) : Choice :=
  ⟨false, .ok (some value), marker, false, 1767225600000, ⟨js "/usr/bin/gh", js "token"⟩, js "/tmp/run-1", sampleView⟩

/-- Every step of a call up to its create of the marker. -/
def untilMarker (x : CallId) : List BrokerAction :=
  .start x :: .answer x (sampleChoice sampleRequest (.error keyMissing)) ::
    List.replicate 7 (.answer x (sampleChoice sampleApproval (.error keyMissing)))

/-- Two calls for one request pass every check; the first to create the marker merges. -/
def sampleRun : List BrokerAction :=
  untilMarker ⟨ulid "1", 0⟩ ++ untilMarker ⟨ulid "1", 1⟩ ++
    [.answer ⟨ulid "1", 0⟩ (sampleChoice sampleApproval (.ok ())),
      .answer ⟨ulid "1", 1⟩ (sampleChoice sampleApproval (.error keyExists)),
      .answer ⟨ulid "1", 0⟩ (sampleChoice sampleApproval (.error keyExists)),
      .answer ⟨ulid "1", 1⟩ (sampleChoice sampleApproval (.error keyExists))]

end Sample

end TinyCloud.Courier
