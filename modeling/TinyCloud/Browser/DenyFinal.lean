import Mathlib.Data.List.Pairwise
import TinyCloud.Browser.Lifecycle

/-! Browser deny is final: what a deny has signed out stays refused in every tab, whatever
fails, is deleted, recovered or established after it. -/

namespace TinyCloud.Browser

open TinyCloud.Runs

structure Tabs where
  origin : Origin
  threads : Thread → Option (Prog Op Op.Res Unit)

inductive Request
  | establishSessionStamp (principal : String) (anchor : Option ConsentAnchor)
  | restoreSessionStamp (principal : String) (persisted : Option SessionStamp)
  | deny (input : DenyInput)
  | expireConsent
  | erasePending
  | eraseLocalCopy
  | recover

inductive Action
  | start (x : Thread) (request : Request)
  | run (x : Thread) (c : Choice)
  | checkDelivery (tab : ℕ) (stamp : Option SessionStamp) (readable : Bool) (now : Option ℕ)
  | crash (tab : ℕ)
  | loseDatabase
  | writeData (partitions : List PartitionIndexEntry) (pending : List String)

def discard {α : Type} (call : Call α) : Prog Op Op.Res Unit :=
  Prog.bind call.run (fun _ => .pure ())

def program (gateHash : ℕ → String → String → String) : Request → Prog Op Op.Res Unit
  | .establishSessionStamp principal anchor => discard (establishSessionStamp gateHash principal anchor)
  | .restoreSessionStamp principal persisted => discard (restoreSessionStamp gateHash principal persisted)
  | .deny input => discard (deny gateHash input)
  | .expireConsent => discard expireConsent
  | .erasePending => discard erasePending
  | .eraseLocalCopy => discard eraseLocalCopy
  | .recover => discard recover

namespace Tabs

def delivered (s : Origin) (stamp : Option SessionStamp) : DeliveryDecision → Origin
  | .allow =>
    match stamp with
    | some stamp => s.record (.allowed stamp)
    | none => s
  | _ => s

def crash (b : Tabs) (tab : ℕ) : Tabs where
  origin := { b.origin with
    lock := b.origin.lock.filter (·.1 != tab)
    views := Function.update b.origin.views tab none }
  threads x := if x.1 = tab then none else b.threads x

-- Replica rows come and go under their own transactions.
def writeData (s : Origin) (partitions : List PartitionIndexEntry) (pending : List String) : Origin :=
  match s.db with
  | .current stores => { s with db := .current { stores with partitions := partitions, pending := pending } }
  | _ => s

def step (gateHash : ℕ → String → String → String) (b : Tabs) : Action → Option Tabs
  | .start x request =>
    match b.threads x with
    | some (.op _ _) => none
    | _ => some { b with threads := Function.update b.threads x (some (program gateHash request)) }
  | .run x c =>
    match b.threads x with
    | some (.op o next) =>
      (runOp x c b.origin o).map fun (r, s) =>
        { origin := s, threads := Function.update b.threads x (some (next r)) }
    | _ => none
  | .checkDelivery tab stamp readable now =>
    some { b with origin := delivered b.origin stamp (checkDelivery b.origin tab stamp readable now) }
  | .crash tab => some (b.crash tab)
  | .loseDatabase => some { b with origin := { b.origin with db := .absent } }
  | .writeData partitions pending => some { b with origin := writeData b.origin partitions pending }

def initial (b : Tabs) : Prop :=
  b.origin.tombstone = none ∧ b.origin.marker = false ∧ b.origin.stores = emptyStores ∧
    b.origin.lock = none ∧ b.origin.log = [] ∧ b.threads = fun _ => none

/-- A call that only probes the tombstone puts it back while it is still the one it has read. -/
def PutsBackUnchanged (b : Tabs) : Action → Prop
  | .run x _ => ∀ t next, b.threads x = some (.op (.setTombstone .rewrite t) next) →
      b.origin.tombstone = some t
  | _ => True

end Tabs

def browserMachine (gateHash : ℕ → String → String → String) : Machine Tabs Action where
  initial := Tabs.initial
  step := Tabs.step gateHash

def epochOf : Option Tombstone → ℕ
  | none => 0
  | some t => t.epoch

/-- No component decreases from one tombstone to the next. -/
def NoHigher (a b : Option Tombstone) : Prop :=
  ∀ t, a = some t → ∃ t', b = some t' ∧ t.epoch ≤ t'.epoch ∧ t.deniedAt ≤ t'.deniedAt

/-- What the earlier of two events demands of the later one. -/
def Ordered : Event → Event → Prop
  | .issued stamp _ _ _, .denied t => stamp.lifecycleEpoch < t.epoch
  | .restored stamp, .denied t => stamp.lifecycleEpoch < t.epoch
  | .denied t, .allowed stamp => t.epoch ≤ stamp.lifecycleEpoch
  | .denied t, .issued _ anchor _ _ => t.deniedAt < anchor
  | .preserved t, .issued _ anchor _ _ => t.deniedAt < anchor
  | _, _ => True

/-- What an event says about the tombstone since. -/
def Settled (tombstone : Option Tombstone) : Event → Prop
  | .denied t => NoHigher (some t) tombstone
  | .preserved t => NoHigher (some t) tombstone
  | .issued stamp _ marker intents =>
    stamp.lifecycleEpoch ≤ epochOf tombstone ∧ marker = false ∧ intents = []
  | .restored stamp => stamp.lifecycleEpoch ≤ epochOf tombstone
  | .allowed _ => True

structure Sound (s : Origin) : Prop where
  gate_le : ∀ g, s.stores.gate = some g → g.lifecycleEpoch ≤ epochOf s.tombstone
  settled : ∀ e ∈ s.log, Settled s.tombstone e
  ordered : s.log.Pairwise Ordered

def KeptFor (x : Thread) (s t : Origin) : Prop :=
  s.lock = some x → t.lock = some x ∧ t.tombstone = s.tombstone ∧ t.marker = s.marker ∧
    (s.stores.purgeIntents = [] → t.stores.purgeIntents = [])

-- The other calls raise the tombstone only, and leave what the lock protects to its holder.
def protocol : Protocol Thread Origin Op Op.Res where
  exec x o s r t := (∀ v, o = .setTombstone .rewrite v → s.tombstone = some v) ∧
    ∃ c, runOp x c s o = some (r, t)
  inv := Sound
  rely x s t := NoHigher s.tombstone t.tombstone ∧ KeptFor x s t
  guar x s t := NoHigher s.tombstone t.tombstone ∧ ∀ y, y ≠ x → KeptFor y s t
  compatible hne hg := ⟨hg.1, hg.2 _ (Ne.symm hne)⟩

section

variable {a b c : Option Tombstone} {s t : Origin} {x y : Thread}

lemma NoHigher.refl : NoHigher a a :=
  fun t h => ⟨t, h, le_rfl, le_rfl⟩

lemma NoHigher.trans (h : NoHigher a b) (h' : NoHigher b c) : NoHigher a c := by
  intro t ht
  obtain ⟨t₁, h₁, he, hd⟩ := h t ht
  obtain ⟨t₂, h₂, he', hd'⟩ := h' t₁ h₁
  exact ⟨t₂, h₂, he.trans he', hd.trans hd'⟩

lemma NoHigher.epoch (h : NoHigher a b) : epochOf a ≤ epochOf b := by
  cases ha : a with
  | none => exact Nat.zero_le _
  | some t =>
    obtain ⟨t', ht', he, -⟩ := h t ha
    rw [ht']
    exact he

lemma Settled.mono {e : Event} (h : Settled a e) (hab : NoHigher a b) : Settled b e := by
  cases e with
  | denied t => exact NoHigher.trans h hab
  | preserved t => exact NoHigher.trans h hab
  | issued stamp anchor marker intents => exact ⟨h.1.trans hab.epoch, h.2⟩
  | restored stamp => exact le_trans h hab.epoch
  | allowed stamp => trivial

lemma KeptFor.of_eq (hl : t.lock = s.lock) (ht : t.tombstone = s.tombstone) (hm : t.marker = s.marker)
    (hi : s.stores.purgeIntents = [] → t.stores.purgeIntents = []) : KeptFor x s t :=
  fun h => ⟨hl.trans h, ht, hm, hi⟩

lemma KeptFor.of_lock (h : s.lock = some x) (hne : y ≠ x) : KeptFor y s t := by
  intro hy
  cases h.symm.trans hy
  exact absurd rfl hne

lemma Sound.congr (h : Sound s) (ht : t.tombstone = s.tombstone)
    (hg : ∀ g, t.stores.gate = some g → g.lifecycleEpoch ≤ epochOf s.tombstone) (hl : t.log = s.log) :
    Sound t where
  gate_le := by rwa [ht]
  settled := by rw [hl, ht]; exact h.settled
  ordered := by rw [hl]; exact h.ordered

lemma Sound.record (h : Sound s) {e : Event} (he : Settled s.tombstone e)
    (ho : ∀ e' ∈ s.log, Ordered e' e) : Sound (s.record e) where
  gate_le := h.gate_le
  settled e' hm := by
    rcases List.mem_append.mp hm with hm | hm
    · exact h.settled e' hm
    · cases List.mem_singleton.mp hm
      exact he
  ordered := List.pairwise_append.mpr ⟨h.ordered, List.pairwise_singleton _ _, by simpa using ho⟩

lemma Sound.setTombstone (h : Sound s) {v : Tombstone} (hv : NoHigher s.tombstone (some v)) :
    Sound { s with tombstone := some v } where
  gate_le g hg := (h.gate_le g hg).trans hv.epoch
  settled e he := (h.settled e he).mono hv
  ordered := h.ordered

end

section Rules

variable {α β : Type} {x : Thread} {s t : Origin} {P : Origin → Prop}

/-- The call changes nothing that it could rely on itself. -/
def Neutral (x : Thread) (m : Call α) : Prop :=
  ∀ P, protocol.Stable x P → protocol.Spec x P m (fun _ s => P s) (fun _ s => P s)

lemma Neutral.bind {m : Call α} {f : α → Call β} (hm : Neutral x m) (hf : ∀ a, Neutral x (f a)) :
    Neutral x (m >>= f) :=
  fun P hP => (hm P hP).bind (fun a => hf a P hP)

lemma Neutral.pure {a : α} : Neutral x (Pure.pure a : Call α) :=
  fun _ _ => Protocol.Spec.pure (fun _ _ h => h)

lemma Neutral.throw {e : Stop} : Neutral x (throw e : Call α) :=
  fun _ _ => Protocol.Spec.throw (fun _ _ h => h)

lemma Neutral.tryCatch {m : Call α} {handle : Stop → Call α} (hm : Neutral x m)
    (hh : ∀ e, Neutral x (handle e)) : Neutral x (tryCatch m handle) :=
  fun P hP => (hm P hP).tryCatch (fun e => hh e P hP)

lemma Neutral.ite {p : Prop} [Decidable p] {m m' : Call α} (hm : Neutral x m) (hm' : Neutral x m') :
    Neutral x (if p then m else m') := by
  split
  · exact hm
  · exact hm'

lemma Neutral.of_op {o : Op} (h : ∀ s c r t, Sound s → (∀ v, o = .setTombstone .rewrite v → s.tombstone = some v) →
    runOp x c s o = some (r, t) → Sound t ∧ NoHigher s.tombstone t.tombstone ∧ ∀ y, KeptFor y s t) :
    Neutral x (ask o) := by
  intro P hP
  refine Protocol.Spec.perform (fun _ => hP) hP (fun s hi hs r t ht => ?_)
  obtain ⟨hallowed, c, hc⟩ := ht
  obtain ⟨hsound, hle, hkept⟩ := h s c r t hi hallowed hc
  refine ⟨hsound, ⟨hle, fun y _ => hkept y⟩, ?_⟩
  have hPt : P t := hP s t hs ⟨hle, hkept x⟩
  cases r with
  | some a => exact hPt
  | none => exact hPt

def Op.reads : Op → Bool
  | .clock | .random | .aborted | .getTombstone | .probeTombstone | .getMarker => true
  | .readIntents | .readGate | .readKeys | .readLegacy => true
  | _ => false

lemma runOp_reads {o : Op} {c : Choice} {r : Option o.Res} (ho : o.reads = true)
    (h : runOp x c s o = some (r, t)) : t = s := by
  cases o <;> first | (cases h; rfl) | cases ho

lemma Neutral.read {o : Op} (ho : o.reads = true) : Neutral x (ask o) := by
  refine Neutral.of_op (fun s c r t hi _ hc => ?_)
  obtain rfl := runOp_reads ho hc
  exact ⟨hi, NoHigher.refl, fun y => KeptFor.of_eq rfl rfl rfl id⟩

-- An answer that tells something about the state the call goes on to rely on.
lemma read_spec {o : Op} (ho : o.reads = true) (hP : protocol.Stable x P) {R : o.Res → Origin → Prop}
    (hst : ∀ a, protocol.Stable x (fun s => P s ∧ R a s))
    (hR : ∀ s c a t, Sound s → P s → runOp x c s o = some (some a, t) → R a s) :
    protocol.Spec x P (ask o) (fun a s => P s ∧ R a s) (fun _ s => P s) := by
  refine Protocol.Spec.perform hst hP (fun s hi hs r t ht => ?_)
  obtain ⟨-, c, hc⟩ := ht
  obtain rfl := runOp_reads ho hc
  refine ⟨hi, ⟨NoHigher.refl, fun y _ => KeptFor.of_eq rfl rfl rfl id⟩, ?_⟩
  cases r with
  | some a => exact ⟨hs, hR _ c a _ hi hs hc⟩
  | none => exact hs

lemma neutral_clearView : Neutral x (ask .clearView) := by
  refine Neutral.of_op (fun s c r t hi _ hc => ?_)
  cases hc
  exact ⟨hi.congr rfl hi.gate_le rfl, NoHigher.refl, fun y => KeptFor.of_eq rfl rfl rfl id⟩

lemma neutral_leaveView {principal : String} : Neutral x (ask (.leaveView principal)) := by
  refine Neutral.of_op (fun s c r t hi _ hc => ?_)
  simp only [runOp, Option.some.injEq, Prod.mk.injEq] at hc
  obtain ⟨-, rfl⟩ := hc
  split
  · exact ⟨hi.congr rfl hi.gate_le rfl, NoHigher.refl, fun y => KeptFor.of_eq rfl rfl rfl id⟩
  · exact ⟨hi, NoHigher.refl, fun y => KeptFor.of_eq rfl rfl rfl id⟩

lemma neutral_createDatabase : Neutral x (ask .createDatabase) := by
  refine Neutral.of_op (fun s c r t hi _ hc => ?_)
  simp only [runOp] at hc
  split at hc
  · cases hc
    exact ⟨hi, NoHigher.refl, fun y => KeptFor.of_eq rfl rfl rfl id⟩
  · cases hc
    exact ⟨hi.congr rfl hi.gate_le rfl, NoHigher.refl, fun y => KeptFor.of_eq rfl rfl rfl id⟩

lemma sound_loseDatabase (hi : Sound s) : Sound { s with db := .absent } :=
  hi.congr rfl (fun _ h => by cases h) rfl

lemma neutral_deleteDatabase : Neutral x (ask .deleteDatabase) := by
  refine Neutral.of_op (fun s c r t hi _ hc => ?_)
  simp only [runOp] at hc
  split at hc
  · cases hc
    exact ⟨hi, NoHigher.refl, fun y => KeptFor.of_eq rfl rfl rfl id⟩
  · cases hc
    exact ⟨sound_loseDatabase hi, NoHigher.refl, fun y => KeptFor.of_eq rfl rfl rfl (fun _ => rfl)⟩

lemma eraseStores_gate {stores : Stores} {intent : PurgeIntent} :
    (eraseStores stores intent).gate = stores.gate := by
  cases intent <;> rfl

lemma eraseStores_intents {stores : Stores} {intent : PurgeIntent} (h : stores.purgeIntents = []) :
    (eraseStores stores intent).purgeIntents = [] := by
  cases intent <;> simp [eraseStores, h]

lemma stores_current {stores : Stores} (h : s.db = .current stores) : s.stores = stores := by
  rw [Origin.stores, h]

lemma neutral_eraseIntent {intent : PurgeIntent} : Neutral x (eraseIntent intent) := by
  refine Neutral.of_op (fun s c r t hi _ hc => ?_)
  simp only [runOp] at hc
  split at hc
  · cases hc
    exact ⟨hi, NoHigher.refl, fun y => KeptFor.of_eq rfl rfl rfl id⟩
  · split at hc
    · rename_i stores hdb
      cases hc
      refine ⟨hi.congr rfl (fun g hg => hi.gate_le g ?_) rfl, NoHigher.refl,
        fun y => KeptFor.of_eq rfl rfl rfl (fun h => ?_)⟩
      · rw [stores_current hdb]
        exact eraseStores_gate.symm.trans hg
      · rw [stores_current hdb] at h
        exact eraseStores_intents h
    · cases hc
      exact ⟨hi, NoHigher.refl, fun y => KeptFor.of_eq rfl rfl rfl id⟩

lemma neutral_rewrite {v : Tombstone} : Neutral x (ask (.setTombstone .rewrite v)) := by
  refine Neutral.of_op (fun s c r t hi hallowed hc => ?_)
  have hv := hallowed v rfl
  simp only [runOp] at hc
  split at hc
  · cases hc
    exact ⟨hi, NoHigher.refl, fun y => KeptFor.of_eq rfl rfl rfl id⟩
  · cases hc
    have hle : NoHigher s.tombstone (some v) := by
      rw [hv]
      exact NoHigher.refl
    exact ⟨hi.setTombstone hle, hle, fun y => KeptFor.of_eq rfl hv.symm rfl id⟩

lemma neutral_refuse {gate : GateReason} {message : String} : Neutral x (refuse gate message : Call α) :=
  Neutral.throw

lemma neutral_clock : Neutral x clock := Neutral.read rfl

lemma neutral_aborted : Neutral x aborted := Neutral.read rfl

lemma neutral_random : Neutral x (ask .random) := Neutral.read rfl

lemma neutral_storedTombstone : Neutral x storedTombstone := Neutral.read rfl

lemma neutral_checkedNow : Neutral x checkedNow :=
  (neutral_clock.tryCatch (fun _ => neutral_refuse)).bind (fun _ => Neutral.ite Neutral.pure neutral_refuse)

lemma neutral_deadlineOf {gate : BrowserGate} : Neutral x (deadlineOf gate) := by
  unfold deadlineOf
  cases gate.consentDeadline with
  | none => exact neutral_refuse
  | some deadline => exact Neutral.ite Neutral.pure neutral_refuse

lemma neutral_logoutMarkerSet : Neutral x logoutMarkerSet :=
  Neutral.tryCatch (Neutral.read rfl) (fun _ => Neutral.pure)

lemma neutral_readTombstone : Neutral x readTombstone := by
  refine (neutral_storedTombstone.tryCatch (fun _ => neutral_refuse)).bind (fun stored => ?_)
  cases stored with
  | none => exact Neutral.pure
  | some t => exact Neutral.ite Neutral.pure neutral_refuse

lemma neutral_readGate : Neutral x readGate := Neutral.read rfl

lemma neutral_readIntents : Neutral x readIntents := Neutral.read rfl

lemma neutral_floorOf {gate : Option BrowserGate} {tombstone : Option Tombstone} :
    Neutral x (floorOf gate tombstone) := by
  unfold floorOf
  cases denyFloor gate tombstone with
  | ok floor => exact Neutral.pure
  | error e => exact Neutral.throw

lemma neutral_readLegacyGateFloor : Neutral x readLegacyGateFloor := by
  refine (Neutral.tryCatch (Neutral.read rfl) (fun _ => neutral_refuse)).bind (fun found => ?_)
  cases found with
  | none => exact Neutral.pure
  | some gate =>
    dsimp only
    cases legacyFloor gate with
    | none => exact neutral_refuse
    | some floor => exact Neutral.pure

lemma neutral_activeKeys {gate : BrowserGate} : Neutral x (activeKeys gate) := by
  refine (Neutral.read rfl).bind (fun found => ?_)
  split
  · exact Neutral.ite Neutral.pure neutral_refuse
  · exact neutral_refuse

lemma neutral_rewriteTombstone {v : Tombstone} : Neutral x (writeTombstone .rewrite v) := by
  refine Neutral.tryCatch (neutral_rewrite.bind (fun _ => ?_)) (fun _ => neutral_refuse)
  exact neutral_storedTombstone.bind (fun _ => Neutral.ite Neutral.throw Neutral.pure)

lemma neutral_assertTombstoneWritable : Neutral x assertTombstoneWritable := by
  refine (neutral_storedTombstone.tryCatch (fun _ => neutral_refuse)).bind (fun stored => ?_)
  cases stored with
  | none => exact Neutral.tryCatch (Neutral.read rfl) (fun _ => neutral_refuse)
  | some t => exact neutral_rewriteTombstone

lemma neutral_erasePass {intents : List PurgeIntent} {erased : List String}
    {failed : List (String × String)} : Neutral x (erasePass intents erased failed) := by
  induction intents generalizing erased failed with
  | nil => exact Neutral.pure
  | cons intent intents ih =>
    refine neutral_aborted.bind (fun aborted => Neutral.ite Neutral.pure ?_)
    have herase : Neutral x (tryCatch (do eraseIntent intent; pure none) (fun e => pure (some (codeOf e))) :
        Call (Option String)) :=
      (neutral_eraseIntent.bind (fun _ => Neutral.pure)).tryCatch (fun _ => Neutral.pure)
    refine herase.bind (fun code => ?_)
    cases code with
    | none => exact ih
    | some code => exact ih

lemma neutral_erasePendingLocked : Neutral x erasePendingLocked :=
  neutral_readIntents.bind (fun _ => neutral_erasePass.bind
    (fun _ => neutral_readIntents.bind (fun _ => Neutral.pure)))

end Rules

section Locked

variable {α β : Type} {x : Thread} {s t : Origin} {P : Origin → Prop} {T : Option Tombstone}

def Owns (x : Thread) (s : Origin) : Prop :=
  s.lock = some x

def At (x : Thread) (T : Option Tombstone) (s : Origin) : Prop :=
  s.lock = some x ∧ s.tombstone = T

def Idle (x : Thread) (T : Option Tombstone) (s : Origin) : Prop :=
  At x T s ∧ s.marker = false

def Quiet (x : Thread) (T : Option Tombstone) (s : Origin) : Prop :=
  At x T s ∧ s.marker = false ∧ s.stores.purgeIntents = []

lemma stable_owns : protocol.Stable x (Owns x) :=
  fun _ _ h hr => (hr.2 h).1

lemma stable_at : protocol.Stable x (At x T) :=
  fun _ _ h hr => ⟨(hr.2 h.1).1, (hr.2 h.1).2.1.trans h.2⟩

lemma stable_idle : protocol.Stable x (Idle x T) :=
  fun s t h hr => ⟨stable_at s t h.1 hr, (hr.2 h.1.1).2.2.1.trans h.2⟩

lemma stable_quiet : protocol.Stable x (Quiet x T) :=
  fun s t h hr => ⟨stable_at s t h.1 hr, (hr.2 h.1.1).2.2.1.trans h.2.1, (hr.2 h.1.1).2.2.2 h.2.2⟩

/-- What a call does while it holds the lock; it still holds it when it throws. -/
abbrev Section (x : Thread) (P : Origin → Prop) (m : Call α) (Q : α → Origin → Prop) : Prop :=
  protocol.Spec x P m Q (fun _ s => Owns x s)

lemma Section.weaken {m : Call α} {Q : α → Origin → Prop} {P' : Origin → Prop} (h : Section x P m Q)
    (hP : ∀ s, P' s → P s) : Section x P' m Q :=
  Protocol.Spec.mono h (fun s _ hs => hP s hs) (fun _ _ _ h => h) (fun _ _ _ h => h)

lemma Section.bind {m : Call α} {f : α → Call β} {Q : α → Origin → Prop} {R : β → Origin → Prop}
    (hm : Section x P m Q) (hf : ∀ a, Section x (Q a) (f a) R) : Section x P (m >>= f) R :=
  Protocol.Spec.bind hm hf

lemma Section.tryCatch {m : Call α} {handle : Stop → Call α} {Q : α → Origin → Prop}
    (hm : Section x P m Q) (hh : ∀ e, Section x (Owns x) (handle e) Q) :
    Section x P (tryCatch m handle) Q :=
  Protocol.Spec.tryCatch hm hh

lemma Neutral.section {m : Call α} (h : Neutral x m) (hP : protocol.Stable x P)
    (hO : ∀ s, P s → Owns x s) : Section x P m (fun _ s => P s) :=
  (h P hP).mono (fun _ _ h => h) (fun _ _ _ h => h) (fun _ s _ h => hO s h)

lemma Section.pure {a : α} {Q : α → Origin → Prop} (h : ∀ s, P s → Q a s) :
    Section x P (Pure.pure a : Call α) Q :=
  Protocol.Spec.pure (fun s _ hs => h s hs)

lemma Section.throw {e : Stop} {Q : α → Origin → Prop} (hO : ∀ s, P s → Owns x s) :
    Section x P (throw e : Call α) Q :=
  Protocol.Spec.throw (fun s _ hs => hO s hs)

-- The holder of the lock knows the tombstone, whichever it is.
lemma Section.of_at {m : Call α} {Q : α → Origin → Prop} (h : ∀ T, Section x (At x T) m Q) :
    Section x (Owns x) m Q := by
  refine Protocol.Spec.of_state (fun s₀ _ hs => (h s₀.tombstone).weaken (fun s he => ?_))
  rw [he]
  exact ⟨hs, rfl⟩

lemma Section.of_op {o : Op} {Q : o.Res → Origin → Prop} (hO : ∀ s, P s → Owns x s)
    (hQ : ∀ a, protocol.Stable x (Q a))
    (h : ∀ s c r t, Sound s → P s → runOp x c s o = some (r, t) →
      Sound t ∧ NoHigher s.tombstone t.tombstone ∧ t.lock = s.lock ∧ ∀ a, r = some a → Q a t) :
    Section x P (ask o) Q := by
  refine Protocol.Spec.perform hQ stable_owns (fun s hi hs r t ht => ?_)
  obtain ⟨-, c, hc⟩ := ht
  obtain ⟨hsound, hle, hlock, hr⟩ := h s c r t hi hs hc
  refine ⟨hsound, ⟨hle, fun y hy => KeptFor.of_lock (hO s hs) hy⟩, ?_⟩
  cases r with
  | some a => exact hr a rfl
  | none => exact hlock.trans (hO s hs)

lemma sound_logWrite {why : TombstoneWrite} {v : Tombstone} (hi : Sound s)
    (hle : NoHigher s.tombstone (some v)) (hlt : why = .deny → epochOf s.tombstone < v.epoch) :
    Sound (logWrite why v { s with tombstone := some v }) := by
  have hs := hi.setTombstone hle
  cases why with
  | rewrite => exact hs
  | preserve => exact hs.record NoHigher.refl (fun e _ => by cases e <;> trivial)
  | deny =>
    refine hs.record NoHigher.refl (fun e he => ?_)
    have hset := hi.settled e he
    cases e with
    | issued stamp anchor marker intents => exact hset.1.trans_lt (hlt rfl)
    | restored stamp => exact lt_of_le_of_lt hset (hlt rfl)
    | denied t => trivial
    | preserved t => trivial
    | allowed stamp => trivial

lemma setTombstone_spec {why : TombstoneWrite} {v : Tombstone} (hle : NoHigher T (some v))
    (hlt : why = .deny → epochOf T < v.epoch) :
    Section x (At x T) (ask (.setTombstone why v)) (fun _ s => At x (some v) s) := by
  refine Section.of_op (fun _ h => h.1) (fun _ => stable_at) (fun s c r t hi hs hc => ?_)
  obtain ⟨hl, rfl⟩ := hs
  simp only [runOp] at hc
  split at hc
  · cases hc
    exact ⟨hi, NoHigher.refl, rfl, fun _ h => by cases h⟩
  · cases hc
    refine ⟨sound_logWrite hi hle hlt, ?_, ?_, fun _ _ => ⟨?_, ?_⟩⟩ <;>
      cases why <;> first | exact hle | rfl | exact hl

lemma readStored_spec : Section x (At x T) storedTombstone (fun t s => At x T s ∧ t = T) := by
  refine Protocol.Spec.mono (read_spec (o := .getTombstone) (R := fun t _ => (t : Option Tombstone) = T) rfl stable_at
    (fun _ => stable_at.and Protocol.Stable.const) (fun s c a t _ hs hc => ?_))
    (fun _ _ h => h) (fun _ _ _ h => h) (fun _ _ _ h => h.1)
  simp only [runOp, Option.some.injEq, Prod.mk.injEq] at hc
  obtain ⟨hc, -⟩ := hc
  split at hc
  · cases hc
  · cases hc
    exact hs.2

lemma writeTombstone_spec {why : TombstoneWrite} {v : Tombstone} (hle : NoHigher T (some v))
    (hlt : why = .deny → epochOf T < v.epoch) :
    Section x (At x T) (writeTombstone why v) (fun _ s => At x (some v) s) := by
  refine Protocol.Spec.tryCatch (G := fun _ s => Owns x s)
    ((setTombstone_spec hle hlt).bind (fun _ => readStored_spec.bind (fun stored => ?_)))
    (fun _ => Section.throw (fun _ h => h))
  exact Protocol.Spec.ite (fun _ => Section.throw (fun _ h => h.1.1)) (fun _ => Section.pure (fun _ h => h.1))

lemma denyStores_gate {stores : Stores} {gate g : BrowserGate} {callerHash : String} {v : Tombstone}
    (h : (denyStores stores gate callerHash v).2.gate = some g) :
    stores.gate = some g ∨ g.lifecycleEpoch = v.epoch := by
  unfold denyStores at h
  split at h
  · exact .inl h
  · split at h
    · exact .inl h
    · cases h
      exact .inr rfl

lemma commitDeny_spec {gate : BrowserGate} {callerHash : String} {v : Tombstone} :
    Section x (At x (some v)) (ask (.commitDeny gate callerHash v)) (fun _ s => At x (some v) s) := by
  refine Section.of_op (fun _ h => h.1) (fun _ => stable_at)
    (fun s c r t hi hs hc => ?_)
  simp only [runOp] at hc
  split at hc
  · cases hc
    exact ⟨hi, NoHigher.refl, rfl, fun _ _ => hs⟩
  · split at hc
    · rename_i stores hdb
      cases hc
      refine ⟨hi.congr rfl (fun g hg => ?_) rfl, NoHigher.refl, rfl, fun _ _ => hs⟩
      rcases denyStores_gate hg with hg | hg
      · exact hi.gate_le g (by rwa [stores_current hdb])
      · rw [hs.2, hg]
        exact le_rfl
    · cases hc
      exact ⟨hi, NoHigher.refl, rfl, fun _ _ => hs⟩

lemma setMarker_spec : Section x (At x T) (ask .setMarker) (fun _ s => At x T s) := by
  refine Section.of_op (fun _ h => h.1) (fun _ => stable_at)
    (fun s c r t hi hs hc => ?_)
  simp only [runOp] at hc
  split at hc
  · cases hc
    exact ⟨hi, NoHigher.refl, rfl, fun _ _ => hs⟩
  · cases hc
    exact ⟨hi.congr rfl hi.gate_le rfl, NoHigher.refl, rfl, fun _ _ => hs⟩

lemma removeMarker_spec : Section x (At x T) (ask .removeMarker) (fun _ s => At x T s) := by
  refine Section.of_op (fun _ h => h.1) (fun _ => stable_at)
    (fun s c r t hi hs hc => ?_)
  simp only [runOp] at hc
  split at hc
  · cases hc
    exact ⟨hi, NoHigher.refl, rfl, fun _ _ => hs⟩
  · cases hc
    exact ⟨hi.congr rfl hi.gate_le rfl, NoHigher.refl, rfl, fun _ _ => hs⟩

lemma setLogoutMarker_spec : Section x (Owns x) setLogoutMarker (fun _ s => Owns x s) := by
  refine Protocol.Spec.tryCatch (G := fun _ s => Owns x s) (Section.bind (Q := fun _ s => Owns x s)
    (Section.of_at (fun T => ?_)) (fun _ => (Neutral.read rfl).section stable_owns (fun _ h => h)))
    (fun _ => Section.pure (fun _ h => h))
  exact Protocol.Spec.mono (setMarker_spec (T := T)) (fun _ _ h => h) (fun _ _ _ h => h.1) (fun _ _ _ h => h)

lemma clearMarker_spec : Section x (Owns x) clearMarker (fun _ s => Owns x s) := by
  refine Section.bind (Q := fun _ s => Owns x s) (Section.of_at (fun T => ?_)) (fun _ => ?_)
  · exact Protocol.Spec.mono (removeMarker_spec (T := T)) (fun _ _ h => h) (fun _ _ _ h => h.1)
      (fun _ _ _ h => h)
  · have hmarker : Neutral x storedMarker := Neutral.read rfl
    exact (hmarker.section stable_owns (fun _ h => h)).bind (fun _ =>
      Protocol.Spec.ite (fun _ => Section.throw (fun _ h => h)) (fun _ => Section.pure (fun _ h => h)))

lemma neutral_deleteKvDatabase : Neutral x deleteKvDatabase :=
  neutral_deleteDatabase

lemma wipe_spec : Section x (Owns x) wipe (fun _ s => Owns x s) := by
  refine (neutral_deleteKvDatabase.section stable_owns (fun _ h => h)).bind (fun outcome => ?_)
  cases outcome with
  | deleted => exact Section.pure (fun _ h => h)
  | failed code =>
    exact setLogoutMarker_spec.bind (fun _ =>
      Protocol.Spec.ite (fun _ => Section.pure (fun _ h => h)) (fun _ => Section.pure (fun _ h => h)))

/-- The floor is at or above the tombstone in both components. -/
def Covers (floor : Floor) (T : Option Tombstone) : Prop :=
  epochOf T ≤ floor.epoch ∧ ∀ t, T = some t → ∃ deniedAt, floor.deniedAt = some deniedAt ∧ t.deniedAt ≤ deniedAt

lemma denyFloor_ok {gate : Option BrowserGate} {floor : Floor} (h : denyFloor gate T = .ok floor) :
    Covers floor T ∧ ((∀ g, gate = some g → g.lifecycleEpoch ≤ epochOf T) → floor.epoch ≤ epochOf T) := by
  unfold denyFloor at h
  split at h
  · cases h
    exact ⟨⟨le_rfl, fun _ h => by cases h⟩, fun _ => le_rfl⟩
  · cases h
    refine ⟨⟨le_rfl, fun t ht => ?_⟩, fun _ => le_rfl⟩
    cases ht
    exact ⟨_, rfl, le_rfl⟩
  · split at h
    · cases h
    · cases h
      exact ⟨⟨Nat.zero_le _, fun _ h => by cases h⟩, fun hg => hg _ rfl⟩
  · rename_i g t
    split at h
    · cases h
    · cases h
      refine ⟨⟨le_max_right _ _, fun t' ht => ?_⟩, fun hg => max_le (hg g rfl) le_rfl⟩
      cases ht
      refine ⟨_, rfl, ?_⟩
      cases g.deniedAt with
      | none => exact le_rfl
      | some deniedAt => exact le_max_right _ _

lemma floorOf_spec {gate : Option BrowserGate} {T' : Option Tombstone} (hO : ∀ s, P s → Owns x s) :
    Section x P (floorOf gate T') (fun floor s => P s ∧ denyFloor gate T' = .ok floor) := by
  unfold floorOf
  cases h : denyFloor gate T' with
  | ok floor => exact Section.pure (fun _ hs => ⟨hs, rfl⟩)
  | error e => exact Section.throw hO

lemma readTombstone_spec : Section x (At x T) readTombstone (fun t s => At x T s ∧ t = T) := by
  refine Section.bind (Q := fun t s => At x T s ∧ t = T)
    (readStored_spec.tryCatch (fun _ => Section.throw (fun _ h => h))) (fun stored => ?_)
  cases stored with
  | none => exact Section.pure (fun _ h => h)
  | some t =>
    exact Protocol.Spec.ite (fun _ => Section.pure (fun _ h => h)) (fun _ => Section.throw (fun _ h => h.1.1))

lemma readGate_spec (hst : protocol.Stable x P) (hP : ∀ s, P s → At x T s) : Section x P readGate
    (fun gate s => P s ∧ ∀ g, gate = some g → g.lifecycleEpoch ≤ epochOf T) := by
  refine Protocol.Spec.mono (read_spec (o := .readGate)
    (R := fun gate _ => ∀ g, (gate : Option BrowserGate) = some g → g.lifecycleEpoch ≤ epochOf T)
    rfl hst (fun _ => hst.and Protocol.Stable.const) (fun s c gate t hi hs hc => ?_))
    (fun _ _ h => h) (fun _ _ _ h => h) (fun _ s _ h => (hP s h).1)
  simp only [runOp, Option.some.injEq, Prod.mk.injEq] at hc
  obtain ⟨hc, -⟩ := hc
  split at hc
  · cases hc
  · cases hc
    intro g hg
    rw [← (hP s hs).2]
    exact hi.gate_le g hg

lemma advanceDeny_spec {gate : BrowserGate} {floor : Floor} (hfloor : Covers floor T) :
    Section x (At x T) (advanceDeny gate floor) (fun _ s => Owns x s) := by
  unfold advanceDeny
  cases gate.principalHash with
  | none => exact Section.pure (fun _ h => h.1)
  | some callerHash =>
    refine (neutral_checkedNow.section stable_at (fun _ h => h.1)).bind (fun now => ?_)
    refine Protocol.Spec.ite (fun _ => Section.throw (fun _ h => h.1)) (fun _ => ?_)
    refine Section.bind (writeTombstone_spec (fun t ht => ⟨_, rfl, ?_, ?_⟩) (fun _ => ?_)) (fun _ => ?_)
    · have hle : epochOf T ≤ floor.epoch := hfloor.1
      rw [ht] at hle
      exact Nat.le_succ_of_le hle
    · obtain ⟨deniedAt, hd, hle⟩ := hfloor.2 t ht
      rw [hd]
      exact (hle.trans (Nat.le_succ _)).trans (le_max_right _ _)
    · exact Nat.lt_succ_of_le hfloor.1
    · exact (Protocol.Spec.mono commitDeny_spec (fun _ _ h => h) (fun _ _ _ h => h.1) (fun _ _ _ h => h)).tryCatch
        (fun _ => wipe_spec)

-- The gate, and a floor that covers the tombstone, read under the lock.
lemma gateAndFloor_spec {f : Option BrowserGate → Floor → Call β} {R : β → Origin → Prop}
    (h : ∀ T gate floor, Covers floor T → (∀ g, gate = some g → g.lifecycleEpoch ≤ epochOf T) →
      Section x (At x T) (f gate floor) R) :
    Section x (Owns x) (do
      let gate ← readGate
      let floor ← floorOf gate (← readTombstone)
      f gate floor) R := by
  refine Section.of_at (fun T => (readGate_spec stable_at (fun _ h => h)).bind (fun gate => ?_))
  refine Protocol.Spec.of_state (fun s₀ _ hs₀ => ?_)
  refine Section.weaken (P := At x T) ?_ (fun s hs => hs ▸ hs₀.1)
  refine readTombstone_spec.bind (fun tombstone => (floorOf_spec (fun _ h => h.1.1)).bind (fun floor => ?_))
  refine Protocol.Spec.of_state (fun s₁ _ hs₁ => ?_)
  obtain ⟨⟨hat, rfl⟩, hfloor⟩ := hs₁
  exact (h _ gate floor (denyFloor_ok hfloor).1 hs₀.2).weaken (fun s hs => hs ▸ hat)

lemma expireConsentLocked_spec : Section x (Owns x) expireConsentLocked (fun _ s => Owns x s) := by
  refine gateAndFloor_spec (fun T gate floor hfloor _ => ?_)
  cases gate with
  | none => exact Section.pure (fun _ h => h.1)
  | some gate =>
    refine Protocol.Spec.ite (fun _ => Section.pure (fun _ h => h.1)) (fun _ => ?_)
    refine (neutral_checkedNow.section stable_at (fun _ h => h.1)).bind (fun now => ?_)
    refine (neutral_deadlineOf.section stable_at (fun _ h => h.1)).bind (fun deadline => ?_)
    refine Protocol.Spec.ite (fun _ => Section.pure (fun _ h => h.1)) (fun _ => ?_)
    refine (neutral_clearView.section stable_at (fun _ h => h.1)).bind (fun _ => ?_)
    exact advanceDeny_spec hfloor

lemma denyLocked_spec {gateHash : ℕ → String → String → String} {input : DenyInput} :
    Section x (Owns x) (denyLocked gateHash input) (fun _ s => Owns x s) := by
  refine gateAndFloor_spec (fun T gate floor hfloor _ => ?_)
  cases gate with
  | none => exact Section.pure (fun _ h => h.1)
  | some gate =>
    refine Protocol.Spec.ite (fun _ => Section.pure (fun _ h => h.1)) (fun _ => ?_)
    refine (neutral_activeKeys.section stable_at (fun _ h => h.1)).bind (fun keys => ?_)
    refine Protocol.Spec.ite (fun _ => Section.pure (fun _ h => h.1)) (fun _ => ?_)
    refine Protocol.Spec.ite (fun _ => Section.throw (fun _ h => h.1)) (fun _ => ?_)
    exact advanceDeny_spec hfloor

lemma logoutMarkerSet_spec : Section x (At x T) logoutMarkerSet
    (fun marker s => At x T s ∧ (marker = false → s.marker = false)) := by
  have hst : ∀ marker : Bool, protocol.Stable x (fun s => At x T s ∧ (marker = false → s.marker = false)) :=
    fun marker s t h hr => ⟨stable_at s t h.1 hr, fun hm => (hr.2 h.1.1).2.2.1.trans (h.2 hm)⟩
  refine Protocol.Spec.tryCatch (read_spec (o := .getMarker)
    (R := fun (marker : Bool) s => marker = false → s.marker = false) rfl stable_at hst
    (fun s c marker t _ _ hc hm => ?_)) (fun _ => Section.pure (fun _ h => ⟨h, fun h => by cases h⟩))
  simp only [runOp, Option.some.injEq, Prod.mk.injEq] at hc
  obtain ⟨hc, -⟩ := hc
  split at hc
  · cases hc
  · cases hc
    exact hm

lemma readIntents_spec : Section x (Idle x T) readIntents
    (fun intents s => Idle x T s ∧ (intents = [] → s.stores.purgeIntents = [])) := by
  have hst : ∀ intents : List PurgeIntent,
      protocol.Stable x (fun s => Idle x T s ∧ (intents = [] → s.stores.purgeIntents = [])) :=
    fun intents s t h hr => ⟨stable_idle s t h.1 hr, fun hm => (hr.2 h.1.1.1).2.2.2 (h.2 hm)⟩
  refine Protocol.Spec.mono (read_spec (o := .readIntents)
    (R := fun (intents : List PurgeIntent) s => intents = [] → s.stores.purgeIntents = []) rfl stable_idle hst
    (fun s c intents t _ _ hc hm => ?_)) (fun _ _ h => h) (fun _ _ _ h => h) (fun _ _ _ h => h.1.1)
  simp only [runOp, Option.some.injEq, Prod.mk.injEq] at hc
  obtain ⟨hc, -⟩ := hc
  split at hc
  · cases hc
  · cases hc
    exact hm

lemma preserveLegacyFloor_spec {legacy : Option Floor} (hP : ∀ s, P s → At x T s) :
    Section x P (preserveLegacyFloor legacy T)
      (fun r s => Owns x s ∧ (r.2 = false → P s ∧ r.1 = T)) := by
  unfold preserveLegacyFloor
  have hkeep : Section x P (Pure.pure (T, false) : Call (Option Tombstone × Bool))
      (fun r s => Owns x s ∧ (r.2 = false → P s ∧ r.1 = T)) :=
    Section.pure (fun s hs => ⟨(hP s hs).1, fun _ => ⟨hs, rfl⟩⟩)
  cases legacy with
  | none => exact hkeep
  | some legacy =>
    cases hd : legacy.deniedAt with
    | none =>
      simp only [hd]
      exact hkeep
    | some deniedAt =>
      simp only [hd]
      refine Protocol.Spec.ite (fun _ => hkeep) (fun _ => ?_)
      refine Section.bind ((writeTombstone_spec (fun t ht => ⟨_, rfl, ?_, ?_⟩) (fun h => by cases h)).weaken hP)
        (fun _ => Section.pure (fun s hs => ⟨hs.1, fun h => by cases h⟩))
      · rw [ht]
        exact le_max_right _ _
      · rw [ht]
        exact le_max_right _ _

lemma writeGate_spec {gate : BrowserGate} {previous : Option BrowserGate} {keys : Keys}
    (hgate : gate.lifecycleEpoch ≤ epochOf T) :
    Section x (Quiet x T) (ask (.writeGate gate previous keys)) (fun _ s => Quiet x T s) := by
  refine Section.of_op (fun _ h => h.1.1) (fun _ => stable_quiet) (fun s c r t hi hs hc => ?_)
  simp only [runOp] at hc
  split at hc
  · rename_i stores hdb
    split at hc
    · cases hc
      exact ⟨hi, NoHigher.refl, rfl, fun _ _ => hs⟩
    · cases hc
      refine ⟨hi.congr rfl (fun g hg => ?_) rfl, NoHigher.refl, rfl, fun _ _ => ⟨hs.1, hs.2.1, ?_⟩⟩
      · cases hg
        rw [hs.1.2]
        exact hgate
      · have := hs.2.2
        rwa [stores_current hdb] at this
  · cases hc
    exact ⟨hi, NoHigher.refl, rfl, fun _ _ => hs⟩

lemma adopt_issued_spec {gate : BrowserGate} {principal : String} {anchor : ℕ}
    (hgate : gate.lifecycleEpoch ≤ epochOf T) (hanchor : ∀ t, T = some t → t.deniedAt < anchor) :
    Section x (Quiet x T) (adopt gate principal (some anchor)) (fun _ s => Owns x s) := by
  refine (neutral_deadlineOf.section stable_quiet (fun _ h => h.1.1)).bind (fun deadline => ?_)
  refine Section.bind (Q := fun _ s => Quiet x T s) ?_ (fun _ =>
    (neutral_checkedNow.section stable_quiet (fun _ h => h.1.1)).bind (fun _ => Section.pure (fun _ h => h.1.1)))
  refine Section.of_op (fun _ h => h.1.1) (fun _ => stable_quiet) (fun s c r t hi hs hc => ?_)
  obtain ⟨⟨hl, rfl⟩, hm, hq⟩ := hs
  cases hc
  have hview : Sound (s.setView x.1 (some ⟨gate.incarnation, gate.lifecycleEpoch, deadline, principal.toLower⟩)) :=
    hi.congr rfl hi.gate_le rfl
  refine ⟨hview.record ⟨hgate, hm, hq⟩ (fun e he => ?_), NoHigher.refl, rfl, fun _ _ => ⟨⟨hl, rfl⟩, hm, hq⟩⟩
  have hset := hview.settled e he
  cases e with
  | denied t =>
    obtain ⟨t', ht', -, hle⟩ := hset t rfl
    exact lt_of_le_of_lt hle (hanchor t' ht')
  | preserved t =>
    obtain ⟨t', ht', -, hle⟩ := hset t rfl
    exact lt_of_le_of_lt hle (hanchor t' ht')
  | issued stamp anchor marker intents => trivial
  | restored stamp => trivial
  | allowed stamp => trivial

section Hashing

variable {gateHash : ℕ → String → String → String} {principal : String} {anchor : Option ConsentAnchor}

lemma establishLocked_spec :
    Section x (Owns x) (establishLocked gateHash principal anchor) (fun _ s => Owns x s) := by
  refine Section.of_at (fun T => readTombstone_spec.bind (fun tombstone => ?_))
  refine Protocol.Spec.of_state (fun s₀ _ hs₀ => ?_)
  obtain ⟨hat, rfl⟩ := hs₀
  refine Section.weaken (P := At x tombstone) ?_ (fun s hs => hs ▸ hat)
  refine logoutMarkerSet_spec.bind (fun marker => ?_)
  refine Protocol.Spec.ite (fun _ => Section.throw (fun _ h => h.1.1)) (fun hmarker => ?_)
  refine Section.weaken (P := Idle x tombstone) ?_ (fun s hs => ⟨hs.1, hs.2 (Bool.eq_false_iff.mpr hmarker)⟩)
  cases anchor.filter validAnchor with
  | none => exact Section.throw (fun _ h => h.1.1)
  | some anchor =>
    refine (neutral_checkedNow.section stable_idle (fun _ h => h.1.1)).bind (fun now => ?_)
    refine readIntents_spec.bind (fun intents => ?_)
    refine Protocol.Spec.ite (fun _ => Section.throw (fun _ h => h.1.1.1)) (fun hintents => ?_)
    refine Section.weaken (P := Quiet x tombstone) ?_ (fun s hs => ⟨hs.1.1, hs.1.2, hs.2 ?_⟩)
    · refine (readGate_spec stable_quiet (fun _ h => h.1)).bind (fun current => ?_)
      refine Protocol.Spec.of_state (fun s₁ _ hs₁ => ?_)
      refine Section.weaken (P := Quiet x tombstone) ?_ (fun s hs => hs ▸ hs₁.1)
      have hgate := hs₁.2
      refine Section.bind (Q := fun _ s => Quiet x tombstone s) ?_ (fun legacy => ?_)
      · exact Neutral.section (Neutral.ite neutral_readLegacyGateFloor Neutral.pure) stable_quiet
          (fun _ h => h.1.1)
      refine (preserveLegacyFloor_spec (fun _ h => h.1)).bind (fun preserved => ?_)
      refine (floorOf_spec (fun _ h => h.1)).bind (fun floor => ?_)
      refine Protocol.Spec.ite (fun _ => Section.throw (fun _ h => h.1.1)) (fun hadvanced => ?_)
      refine Protocol.Spec.of_state (fun s₂ _ hs₂ => ?_)
      obtain ⟨⟨-, hkept⟩, hfloor⟩ := hs₂
      obtain ⟨hquiet, htomb⟩ := hkept (Bool.eq_false_iff.mpr hadvanced)
      rw [htomb] at hfloor
      obtain ⟨hcovers, hepoch⟩ := denyFloor_ok hfloor
      refine Section.weaken (P := Quiet x tombstone) ?_ (fun s hs => hs ▸ hquiet)
      refine Protocol.Spec.ite (fun _ => Section.throw (fun _ h => h.1.1)) (fun hfresh => ?_)
      have hanchor : ∀ t, tombstone = some t → t.deniedAt < anchor.at_.toNat := by
        intro t ht
        obtain ⟨deniedAt, hd, hle⟩ := hcovers.2 t ht
        simp only [hd, Option.any_some, decide_eq_true_eq, not_le, lt_inf_iff] at hfresh
        exact lt_of_le_of_lt hle hfresh.1
      refine (neutral_assertTombstoneWritable.section stable_quiet (fun _ h => h.1.1)).bind (fun _ => ?_)
      have hactive : floor.epoch ≤ epochOf tombstone := hepoch hgate
      split
      · refine (neutral_random.section stable_quiet (fun _ h => h.1.1)).bind (fun fresh => ?_)
        refine Protocol.Spec.ite (fun _ => Section.throw (fun _ h => h.1.1)) (fun _ => ?_)
        refine Section.bind ((neutral_createDatabase.tryCatch (fun _ => neutral_refuse)).section stable_quiet
          (fun _ h => h.1.1)) (fun _ => ?_)
        refine Section.bind (writeGate_spec ?_) (fun _ => adopt_issued_spec ?_ hanchor)
        · exact hactive
        · exact hactive
      · rename_i gate hash hbind
        obtain ⟨g, hg, hb⟩ := Option.bind_eq_some_iff.mp hbind
        obtain ⟨hash', -, he⟩ := Option.map_eq_some_iff.mp hb
        cases he
        refine (neutral_activeKeys.section stable_quiet (fun _ h => h.1.1)).bind (fun keys => ?_)
        refine Protocol.Spec.ite (fun _ => Section.throw (fun _ h => h.1.1)) (fun _ => ?_)
        refine (neutral_checkedNow.section stable_quiet (fun _ h => h.1.1)).bind (fun now' => ?_)
        refine (neutral_deadlineOf.section stable_quiet (fun _ h => h.1.1)).bind (fun deadline => ?_)
        refine Protocol.Spec.ite (fun _ => ?_) (fun _ => adopt_issued_spec (hgate _ hg) hanchor)
        exact Section.bind (expireConsentLocked_spec.weaken (fun _ h => h.1.1))
          (fun _ => Section.throw (fun _ h => h))
    · simpa using hintents

end Hashing

lemma eraseFailed_spec {code : String} {marker : Bool} {T' : Option Tombstone} :
    Section x (Owns x) (eraseFailed code marker T') (fun _ s => Owns x s) := by
  refine Protocol.Spec.ite (fun _ => Section.pure (fun _ h => h)) (fun _ => ?_)
  refine Protocol.Spec.ite (fun _ => ?_) (fun _ => Section.pure (fun _ h => h))
  exact setLogoutMarker_spec.bind (fun _ => Section.pure (fun _ h => h))

lemma eraseDatabase_spec {marker : Bool} {T' : Option Tombstone} :
    Section x (Owns x) (eraseDatabase marker T') (fun _ s => Owns x s) := by
  refine (neutral_aborted.section stable_owns (fun _ h => h)).bind (fun aborted => ?_)
  refine Protocol.Spec.ite (fun _ => ?_) (fun _ => ?_)
  · exact (neutral_logoutMarkerSet.section stable_owns (fun _ h => h)).bind
      (fun _ => Section.pure (fun _ h => h))
  · refine (neutral_deleteKvDatabase.section stable_owns (fun _ h => h)).bind (fun outcome => ?_)
    cases outcome with
    | failed code => exact eraseFailed_spec
    | deleted =>
      refine Protocol.Spec.ite (fun _ => ?_) (fun _ => Section.pure (fun _ h => h))
      refine Section.tryCatch (Section.bind clearMarker_spec (fun _ => ?_)) (fun _ => ?_)
      · exact Section.pure (fun _ h => h)
      · exact Section.pure (fun _ h => h)

lemma eraseLocalCopyLocked_spec : Section x (Owns x) eraseLocalCopyLocked (fun _ s => Owns x s) := by
  refine (neutral_logoutMarkerSet.section stable_owns (fun _ h => h)).bind (fun marker => ?_)
  refine (neutral_readTombstone.section stable_owns (fun _ h => h)).bind (fun tombstone => ?_)
  refine Protocol.Spec.ite (fun _ => Section.pure (fun _ h => h)) (fun _ => ?_)
  refine Protocol.Spec.ite (fun _ => eraseDatabase_spec) (fun _ => ?_)
  refine (neutral_readGate.section stable_owns (fun _ h => h)).bind (fun gate => ?_)
  refine Protocol.Spec.ite (fun _ => Section.pure (fun _ h => h)) (fun _ => ?_)
  have hpass : Neutral x (tryCatch (do let _ ← erasePendingLocked; pure ()) (fun _ => pure ()) : Call Unit) :=
    (neutral_erasePendingLocked.bind (fun _ => Neutral.pure)).tryCatch (fun _ => Neutral.pure)
  refine Protocol.Spec.ite (fun _ => ?_) (fun _ => ?_)
  · exact (hpass.section stable_owns (fun _ h => h)).bind (fun _ => eraseDatabase_spec)
  · exact eraseDatabase_spec

lemma recoverMarker_spec : Section x (Owns x) recoverMarker (fun _ s => Owns x s) := by
  refine (neutral_logoutMarkerSet.section stable_owns (fun _ h => h)).bind (fun marker => ?_)
  refine Protocol.Spec.ite (fun _ => Section.pure (fun _ h => h)) (fun _ => ?_)
  refine (neutral_readTombstone.section stable_owns (fun _ h => h)).bind (fun tombstone => ?_)
  refine Protocol.Spec.ite (fun _ => Section.throw (fun _ h => h)) (fun _ => ?_)
  refine (neutral_deleteKvDatabase.section stable_owns (fun _ h => h)).bind (fun outcome => ?_)
  cases outcome with
  | failed code => exact Section.pure (fun _ h => h)
  | deleted =>
    refine Section.tryCatch (Section.bind clearMarker_spec (fun _ => ?_)) (fun _ => ?_)
    · exact Section.pure (fun _ h => h)
    · exact Section.pure (fun _ h => h)

lemma recoverGate_spec : Section x (Owns x) recoverGate (fun _ s => Owns x s) := by
  refine (neutral_readGate.section stable_owns (fun _ h => h)).bind (fun gate => ?_)
  refine (neutral_readTombstone.section stable_owns (fun _ h => h)).bind (fun tombstone => ?_)
  refine Protocol.Spec.ite (fun _ => wipe_spec.bind (fun outcome => ?_)) (fun _ => Section.pure (fun _ h => h))
  cases outcome <;> exact Section.pure (fun _ h => h)

lemma recoverLegacy_spec : Section x (Owns x) recoverLegacy (fun _ s => Owns x s) := by
  refine (neutral_readLegacyGateFloor.section stable_owns (fun _ h => h)).bind (fun legacy => ?_)
  cases legacy with
  | none => exact Section.pure (fun _ h => h)
  | some legacy =>
    refine Section.of_at (fun T => readTombstone_spec.bind (fun tombstone => ?_))
    refine Protocol.Spec.of_state (fun s₀ _ hs₀ => ?_)
    obtain ⟨hat, rfl⟩ := hs₀
    refine Section.weaken (P := At x tombstone) ?_ (fun s hs => hs ▸ hat)
    refine (preserveLegacyFloor_spec (fun _ h => h)).bind (fun _ => ?_)
    refine Section.weaken (P := Owns x) ?_ (fun _ h => h.1)
    refine (neutral_assertTombstoneWritable.section stable_owns (fun _ h => h)).bind (fun _ => ?_)
    exact (neutral_createDatabase.tryCatch (fun _ => neutral_refuse)).section stable_owns (fun _ h => h)

lemma recoverLocked_spec : Section x (Owns x) recoverLocked (fun _ s => Owns x s) := by
  refine recoverMarker_spec.bind (fun marker => ?_)
  cases marker with
  | some report => exact Section.pure (fun _ h => h)
  | none =>
    refine recoverGate_spec.bind (fun gate => ?_)
    cases gate with
    | some report => exact Section.pure (fun _ h => h)
    | none =>
      refine recoverLegacy_spec.bind (fun _ => expireConsentLocked_spec.bind (fun outcome => ?_))
      cases outcome
      case marker => exact Section.pure (fun _ h => h)
      case unguarded => exact Section.pure (fun _ h => h)
      all_goals exact neutral_erasePendingLocked.section stable_owns (fun _ h => h)

end Locked

section Calls

variable {α β : Type} {x : Thread} {s t : Origin}

/-- The call keeps its part of the protocol without holding the lock before or after. -/
abbrev Keeps (x : Thread) (m : Call α) : Prop :=
  protocol.Spec x (fun _ => True) m (fun _ _ => True) (fun _ _ => True)

lemma Neutral.keeps {m : Call α} (h : Neutral x m) : Keeps x m :=
  h _ Protocol.Stable.const

lemma acquire_spec : protocol.Spec x (fun _ => True) (ask .acquire) (fun _ s => Owns x s) (fun _ _ => True) := by
  refine Protocol.Spec.perform (fun _ => stable_owns) Protocol.Stable.const (fun s hi _ r t ht => ?_)
  obtain ⟨-, c, hc⟩ := ht
  simp only [runOp] at hc
  split at hc
  · cases hc
    exact ⟨hi, ⟨NoHigher.refl, fun y _ => KeptFor.of_eq rfl rfl rfl id⟩, trivial⟩
  · split at hc
    · rename_i hfree
      cases hc
      refine ⟨hi.congr rfl hi.gate_le rfl, ⟨NoHigher.refl, fun y _ hy => ?_⟩, rfl⟩
      cases hfree.symm.trans hy
    · cases hc

lemma release_spec : protocol.Spec x (Owns x) (ask .release) (fun _ _ => True) (fun _ _ => True) := by
  refine Protocol.Spec.perform (fun _ => Protocol.Stable.const) Protocol.Stable.const
    (fun s hi hs r t ht => ?_)
  obtain ⟨-, c, hc⟩ := ht
  cases hc
  exact ⟨hi.congr rfl hi.gate_le rfl, ⟨NoHigher.refl, fun y hy => KeptFor.of_lock hs hy⟩, trivial⟩

lemma exclusive_keeps {m : Call α} (h : Section x (Owns x) m (fun _ s => Owns x s)) :
    Keeps x (exclusive m) := by
  refine Protocol.Spec.bind (acquire_spec.tryCatch (fun _ => Protocol.Spec.throw (fun _ _ h => h))) (fun _ => ?_)
  refine Protocol.Spec.bind (Q := fun _ s => Owns x s) ?_ (fun result => ?_)
  · refine Protocol.Spec.tryCatch (Section.bind h (fun _ => ?_)) (fun _ => ?_)
    · exact Section.pure (fun _ h => h)
    · exact Protocol.Spec.pure (fun _ _ h => h)
  · refine release_spec.bind (fun _ => ?_)
    cases result with
    | ok a => exact Protocol.Spec.pure (fun _ _ h => h)
    | error e => exact Protocol.Spec.throw (fun _ _ h => h)

lemma expireConsent_keeps : Keeps x expireConsent :=
  (exclusive_keeps expireConsentLocked_spec).tryCatch (fun _ => Protocol.Spec.pure (fun _ _ h => h))

lemma stable_epoch {n : ℕ} : protocol.Stable x (fun s => n ≤ epochOf s.tombstone) :=
  fun _ _ h hr => h.trans hr.1.epoch

lemma adopt_restored_keeps {gate : BrowserGate} {principal : String} :
    protocol.Spec x (fun s => gate.lifecycleEpoch ≤ epochOf s.tombstone) (adopt gate principal none)
      (fun _ _ => True) (fun _ _ => True) := by
  refine Protocol.Spec.bind ((neutral_deadlineOf _ stable_epoch).mono (fun _ _ h => h) (fun _ _ _ h => h)
    (fun _ _ _ _ => trivial)) (fun deadline => ?_)
  refine Protocol.Spec.bind (Q := fun _ _ => True) ?_ (fun _ =>
    Protocol.Spec.bind neutral_checkedNow.keeps (fun _ => Protocol.Spec.pure (fun _ _ h => h)))
  refine Protocol.Spec.perform (fun _ => Protocol.Stable.const) Protocol.Stable.const
    (fun s hi hs r t ht => ?_)
  obtain ⟨-, c, hc⟩ := ht
  cases hc
  have hview : Sound (s.setView x.1 (some ⟨gate.incarnation, gate.lifecycleEpoch, deadline, principal.toLower⟩)) :=
    hi.congr rfl hi.gate_le rfl
  refine ⟨hview.record hs (fun e _ => by cases e <;> trivial), ?_, trivial⟩
  exact ⟨NoHigher.refl, fun y _ => KeptFor.of_eq rfl rfl rfl id⟩

lemma restoreSessionStamp_keeps {gateHash : ℕ → String → String → String} {principal : String}
    {persisted : Option SessionStamp} : Keeps x (restoreSessionStamp gateHash principal persisted) := by
  have hgate : protocol.Spec x (fun _ => True) readGate
      (fun gate s => ∀ g, gate = some g → g.lifecycleEpoch ≤ epochOf s.tombstone) (fun _ _ => True) := by
    refine (read_spec (o := .readGate) (P := fun _ => True)
      (R := fun gate s => ∀ g, (gate : Option BrowserGate) = some g → g.lifecycleEpoch ≤ epochOf s.tombstone)
      rfl Protocol.Stable.const
      (fun gate s t h hr => ⟨trivial, fun g hg => stable_epoch s t (h.2 g hg) hr⟩) (fun s c gate t hi _ hc => ?_)).mono
      (fun _ _ h => h) (fun _ _ _ h => h.2) (fun _ _ _ h => h)
    simp only [runOp, Option.some.injEq, Prod.mk.injEq] at hc
    obtain ⟨hc, -⟩ := hc
    split at hc
    · cases hc
    · cases hc
      exact hi.gate_le
  have hdrop : ∀ {γ : Type} {P : Origin → Prop} {m : Call γ}, Neutral x m → protocol.Stable x P →
      protocol.Spec x P m (fun _ s => P s) (fun _ _ => True) :=
    fun h hP => (h _ hP).mono (fun _ _ h => h) (fun _ _ _ h => h) (fun _ _ _ _ => trivial)
  refine hgate.bind (fun gate => ?_)
  have hst : protocol.Stable x (fun s => ∀ g, gate = some g → g.lifecycleEpoch ≤ epochOf s.tombstone) :=
    fun s t h hr g hg => stable_epoch s t (h g hg) hr
  refine Protocol.Spec.bind (hdrop neutral_readTombstone hst) (fun tombstone => ?_)
  refine Protocol.Spec.bind (hdrop neutral_floorOf hst) (fun _ => ?_)
  split
  · rename_i gate persisted
    refine Protocol.Spec.mono (P := fun s => gate.lifecycleEpoch ≤ epochOf s.tombstone) ?_
      (fun _ _ h => h gate rfl) (fun _ _ _ h => h) (fun _ _ _ h => h)
    refine Protocol.Spec.ite (fun _ => Protocol.Spec.throw (fun _ _ _ => trivial)) (fun _ => ?_)
    refine Protocol.Spec.ite (fun _ => Protocol.Spec.throw (fun _ _ _ => trivial)) (fun _ => ?_)
    refine Protocol.Spec.ite (fun _ => Protocol.Spec.throw (fun _ _ _ => trivial)) (fun _ => ?_)
    refine Protocol.Spec.bind (hdrop neutral_activeKeys stable_epoch) (fun keys => ?_)
    refine Protocol.Spec.ite (fun _ => Protocol.Spec.throw (fun _ _ _ => trivial)) (fun _ => ?_)
    refine Protocol.Spec.bind (hdrop neutral_logoutMarkerSet stable_epoch) (fun marker => ?_)
    refine Protocol.Spec.ite (fun _ => Protocol.Spec.throw (fun _ _ _ => trivial)) (fun _ => ?_)
    refine Protocol.Spec.bind (hdrop neutral_readIntents stable_epoch) (fun intents => ?_)
    refine Protocol.Spec.ite (fun _ => Protocol.Spec.throw (fun _ _ _ => trivial)) (fun _ => ?_)
    refine Protocol.Spec.bind (hdrop neutral_assertTombstoneWritable stable_epoch) (fun _ => ?_)
    refine Protocol.Spec.bind (hdrop neutral_checkedNow stable_epoch) (fun now => ?_)
    refine Protocol.Spec.bind (hdrop neutral_deadlineOf stable_epoch) (fun deadline => ?_)
    refine Protocol.Spec.ite (fun _ => ?_) (fun _ => adopt_restored_keeps)
    exact Protocol.Spec.bind (expireConsent_keeps.mono (fun _ _ _ => trivial) (fun _ _ _ h => h)
      (fun _ _ _ h => h)) (fun _ => Protocol.Spec.throw (fun _ _ h => h))
  · exact Protocol.Spec.throw (fun _ _ _ => trivial)

lemma deny_keeps {gateHash : ℕ → String → String → String} {input : DenyInput} :
    Keeps x (deny gateHash input) := by
  refine Protocol.Spec.bind neutral_leaveView.keeps (fun _ => ?_)
  exact (exclusive_keeps denyLocked_spec).tryCatch (fun _ => Protocol.Spec.pure (fun _ _ h => h))

lemma eraseLocalCopy_keeps : Keeps x eraseLocalCopy := by
  refine (exclusive_keeps eraseLocalCopyLocked_spec).tryCatch (fun e => ?_)
  have hfailed : Keeps x (do pure (.failed (codeOf e) (← logoutMarkerSet)) : Call EraseOutcome) :=
    Protocol.Spec.bind neutral_logoutMarkerSet.keeps (fun _ => Protocol.Spec.pure (fun _ _ h => h))
  cases e with
  | gated gate message => exact Protocol.Spec.pure (fun _ _ h => h)
  | consentExpired => exact hfailed
  | invalid message => exact hfailed
  | storage => exact hfailed

lemma recover_keeps : Keeps x recover :=
  (exclusive_keeps recoverLocked_spec).tryCatch (fun _ => Protocol.Spec.pure (fun _ _ h => h))

lemma discard_sat {m : Call α} (h : Keeps x m) :
    protocol.Sat x (fun _ _ => True) (discard m) (fun _ => True) :=
  Protocol.Sat.bind h (fun _ => fun _ _ _ => trivial)

lemma program_sat {gateHash : ℕ → String → String → String} {request : Request} :
    protocol.Sat x (fun _ _ => True) (program gateHash request) (fun _ => True) := by
  cases request with
  | establishSessionStamp principal anchor => exact discard_sat (exclusive_keeps establishLocked_spec)
  | restoreSessionStamp principal persisted => exact discard_sat restoreSessionStamp_keeps
  | deny input => exact discard_sat deny_keeps
  | expireConsent => exact discard_sat expireConsent_keeps
  | erasePending =>
    exact discard_sat (exclusive_keeps (neutral_erasePendingLocked.section stable_owns (fun _ h => h)))
  | eraseLocalCopy => exact discard_sat eraseLocalCopy_keeps
  | recover => exact discard_sat recover_keeps

end Calls

section Runs

variable {gateHash : ℕ → String → String → String} {b b' : Tabs} {a : Action}

/-- The calls in flight keep the protocol, on a sound origin. -/
def Coherent (b : Tabs) : Prop :=
  protocol.Settled b.threads b.origin

lemma checkDelivery_allow {s : Origin} {tab : ℕ} {stamp : Option SessionStamp} {readable : Bool}
    {now : Option ℕ} (h : checkDelivery s tab stamp readable now = .allow) :
    ∃ v, stamp = some v ∧ epochOf s.tombstone ≤ v.lifecycleEpoch := by
  unfold checkDelivery at h
  split at h
  · cases h
  · cases h
  · rename_i v view _
    refine ⟨v, rfl, ?_⟩
    split at h
    · cases h
    split at h
    · cases h
    split at h
    · cases h
    split at h
    · cases h
    split at h
    · cases h
    split at h
    · cases h
    · rename_i hlt
      cases ht : s.tombstone with
      | none => exact Nat.zero_le _
      | some t => simpa [ht, epochOf] using hlt

lemma rely_of_same {s t : Origin} {x : Thread} (hl : t.lock = s.lock) (ht : t.tombstone = s.tombstone)
    (hm : t.marker = s.marker) (hi : s.stores.purgeIntents = [] → t.stores.purgeIntents = []) :
    protocol.rely x s t := by
  refine ⟨?_, KeptFor.of_eq hl ht hm hi⟩
  rw [ht]
  exact NoHigher.refl

lemma Coherent.delivered (h : Coherent b) {tab : ℕ} {stamp : Option SessionStamp} {readable : Bool}
    {now : Option ℕ} : Coherent
      ⟨Tabs.delivered b.origin stamp (checkDelivery b.origin tab stamp readable now), b.threads⟩ := by
  have hsame : ∀ s : Origin, s = b.origin → Coherent ⟨s, b.threads⟩ := by
    rintro s rfl
    exact h
  cases hd : checkDelivery b.origin tab stamp readable now with
  | consentExpired => exact hsame _ rfl
  | gated gate => exact hsame _ rfl
  | allow =>
    obtain ⟨v, rfl, hle⟩ := checkDelivery_allow hd
    refine Protocol.Settled.outside h (h.1.record trivial (fun e he => ?_))
      (fun y _ => rely_of_same rfl rfl rfl id)
    have hset := h.1.settled e he
    cases e with
    | denied t => exact (NoHigher.epoch hset).trans hle
    | preserved t => trivial
    | issued stamp anchor marker intents => trivial
    | restored stamp => trivial
    | allowed stamp => trivial

lemma Coherent.crash (h : Coherent b) {tab : ℕ} : Coherent (b.crash tab) := by
  have hfewer : protocol.Settled (b.crash tab).threads b.origin := by
    refine h.fewer (fun y p hy => ?_)
    simp only [Tabs.crash] at hy
    split at hy
    · cases hy
    · exact hy
  refine hfewer.outside (h.1.congr rfl h.1.gate_le rfl) (fun y hy => ⟨NoHigher.refl, fun hl => ?_⟩)
  refine ⟨?_, rfl, rfl, id⟩
  simp only [Tabs.crash, ne_eq, ite_eq_left_iff, not_forall] at hy
  obtain ⟨htab, -⟩ := hy
  simp [Tabs.crash, hl, htab]

lemma writeData_stores (s : Origin) (partitions : List PartitionIndexEntry) (pending : List String) :
    (Tabs.writeData s partitions pending).stores.gate = s.stores.gate ∧
      (Tabs.writeData s partitions pending).stores.purgeIntents = s.stores.purgeIntents := by
  cases hdb : s.db <;> simp [Tabs.writeData, Origin.stores, hdb]

lemma writeData_rest (s : Origin) (partitions : List PartitionIndexEntry) (pending : List String) :
    (Tabs.writeData s partitions pending).lock = s.lock ∧
      (Tabs.writeData s partitions pending).tombstone = s.tombstone ∧
      (Tabs.writeData s partitions pending).marker = s.marker ∧
      (Tabs.writeData s partitions pending).log = s.log := by
  unfold Tabs.writeData
  cases s.db <;> exact ⟨rfl, rfl, rfl, rfl⟩

lemma Coherent.of_step (h : Coherent b) (hg : b.PutsBackUnchanged a)
    (hs : Tabs.step gateHash b a = some b') : Coherent b' := by
  cases a with
  | start x request =>
    simp only [Tabs.step] at hs
    split at hs
    · cases hs
    · cases hs
      exact Protocol.Settled.start h Protocol.Stable.const trivial program_sat
  | run x c =>
    simp only [Tabs.step] at hs
    split at hs
    · rename_i o next hx
      obtain ⟨⟨r, t⟩, hr, hb⟩ := Option.map_eq_some_iff.mp hs
      cases hb
      refine Protocol.Settled.step h hx ⟨fun v hv => ?_, c, hr⟩
      subst hv
      exact hg v next hx
    · cases hs
  | checkDelivery tab stamp readable now =>
    cases hs
    exact h.delivered
  | crash tab =>
    cases hs
    exact h.crash
  | loseDatabase =>
    cases hs
    exact Protocol.Settled.outside h (sound_loseDatabase h.1) (fun y _ => rely_of_same rfl rfl rfl (fun _ => rfl))
  | writeData partitions pending =>
    cases hs
    obtain ⟨hgate, hintents⟩ := writeData_stores b.origin partitions pending
    obtain ⟨hl, ht, hm, hlog⟩ := writeData_rest b.origin partitions pending
    refine Protocol.Settled.outside h (h.1.congr ht (fun g hgate' => h.1.gate_le g ?_) hlog)
      (fun y _ => rely_of_same hl ht hm (fun he => hintents.trans he))
    rwa [hgate] at hgate'

lemma coherent_initial (h : b.initial) : Coherent b := by
  obtain ⟨ht, -, hst, -, hl, hth⟩ := h
  refine ⟨⟨fun g hg => ?_, fun e he => ?_, ?_⟩, fun x p hx => ?_⟩
  · rw [hst] at hg
    cases hg
  · rw [hl] at he
    cases he
  · rw [hl]
    exact List.Pairwise.nil
  · rw [hth] at hx
    cases hx

lemma coherent_of_within (h : (browserMachine gateHash).Within Tabs.PutsBackUnchanged b) : Coherent b :=
  h.invariant (fun _ hi => coherent_initial hi) (fun _ _ _ _ hc hg hs => hc.of_step hg hs)

/-- The tombstone write of a call or nothing else changes the tombstone. -/
lemma noHigher_of_step (h : Coherent b) (hg : b.PutsBackUnchanged a)
    (hs : Tabs.step gateHash b a = some b') : NoHigher b.origin.tombstone b'.origin.tombstone := by
  cases a with
  | run x c =>
    simp only [Tabs.step] at hs
    split at hs
    · rename_i o next hx
      obtain ⟨⟨r, t⟩, hr, hb⟩ := Option.map_eq_some_iff.mp hs
      cases hb
      obtain ⟨P, -, hP, hsat⟩ := h.2 x _ hx
      refine (hsat b.origin h.1 hP r t ⟨fun v hv => ?_, c, hr⟩).2.1.1
      subst hv
      exact hg v next hx
    · cases hs
  | start x request =>
    simp only [Tabs.step] at hs
    split at hs
    · cases hs
    · cases hs
      exact NoHigher.refl
  | checkDelivery tab stamp readable now =>
    cases hs
    have : ∀ d, (Tabs.delivered b.origin stamp d).tombstone = b.origin.tombstone := by
      intro d
      cases d <;> cases stamp <;> rfl
    rw [this]
    exact NoHigher.refl
  | crash tab =>
    cases hs
    exact NoHigher.refl
  | loseDatabase =>
    cases hs
    exact NoHigher.refl
  | writeData partitions pending =>
    cases hs
    rw [(writeData_rest _ _ _).2.1]
    exact NoHigher.refl

/-- A deny is final in the state `b`, and no step from it undoes one. -/
structure DenyFinal (gateHash : ℕ → String → String → String) (b : Tabs) : Prop where
  refused : ∀ before after t stamp, b.origin.log = before ++ .denied t :: after →
    ((∃ anchor marker intents, .issued stamp anchor marker intents ∈ before) ∨ .restored stamp ∈ before) →
    .allowed stamp ∉ after
  newer : ∀ before after t stamp anchor marker intents, b.origin.log = before ++ .denied t :: after →
    .issued stamp anchor marker intents ∈ after → t.deniedAt < anchor
  quiet : ∀ stamp anchor marker intents, .issued stamp anchor marker intents ∈ b.origin.log →
    marker = false ∧ intents = []
  raised : ∀ a b' t, b.PutsBackUnchanged a → Tabs.step gateHash b a = some b' →
    b.origin.tombstone = some t →
      ∃ t', b'.origin.tombstone = some t' ∧ t.epoch ≤ t'.epoch ∧ t.deniedAt ≤ t'.deniedAt

theorem deny_final (h : (browserMachine gateHash).Within Tabs.PutsBackUnchanged b) :
    DenyFinal gateHash b := by
  have hc := coherent_of_within h
  have hord := hc.1.ordered
  refine ⟨?_, ?_, fun stamp anchor marker intents he => (hc.1.settled _ he).2,
    fun a b' t hg hs ht => noHigher_of_step hc hg hs t ht⟩
  · intro before after t stamp hlog hstamp hallowed
    rw [hlog] at hord
    obtain ⟨-, hafter, hbefore⟩ := List.pairwise_append.mp hord
    have hle : t.epoch ≤ stamp.lifecycleEpoch := (List.pairwise_cons.mp hafter).1 _ hallowed
    have hlt : stamp.lifecycleEpoch < t.epoch := by
      rcases hstamp with ⟨anchor, marker, intents, hm⟩ | hm
      · exact hbefore _ hm _ List.mem_cons_self
      · exact hbefore _ hm _ List.mem_cons_self
    exact absurd hle hlt.not_ge
  · intro before after t stamp anchor marker intents hlog hm
    rw [hlog] at hord
    obtain ⟨-, hafter, -⟩ := List.pairwise_append.mp hord
    exact (List.pairwise_cons.mp hafter).1 _ hm

end Runs

section Sample

def sampleHash (_ : ℕ) (_ material : String) : String := material

def noTabs : Tabs := ⟨⟨none, false, .absent, none, fun _ => none, []⟩, fun _ => none⟩

/-- `n` operations of a call, none of which fails, at one time. -/
def steps (x : Thread) (n now : ℕ) : List Action :=
  let random : Random := ⟨"gate " ++ toString now, "00000000000000000000000000000001", 1,
    "00000000000000000000000000000002"⟩
  List.replicate n (.run x ⟨false, false, now, random, false⟩)

def signIn (x : Thread) (anchor now : ℕ) : List Action :=
  .start x (.establishSessionStamp "did:key:alice" (some ⟨"siwe", anchor⟩)) :: steps x 15 now

def signOut (x : Thread) (now : ℕ) : List Action :=
  .start x (.deny ⟨.signOut, "did:key:alice", none⟩) :: steps x 10 now

def check (tab : ℕ) (stamp : SessionStamp) (now : ℕ) : Action :=
  .checkDelivery tab (some stamp) true (some now)

/-- Tab 0 signs in and out; tab 1 restores the second session, which tab 0 then signs out. -/
def calmRun : List Action :=
  signIn (0, 0) 100 200 ++ [check 0 ⟨"gate 200", 0⟩ 250] ++ signOut (0, 1) 300 ++
    [check 0 ⟨"gate 200", 0⟩ 350] ++ signIn (0, 2) 400 500 ++
    .start (1, 0) (.restoreSessionStamp "did:key:alice" (some ⟨"gate 500", 1⟩)) :: steps (1, 0) 11 600 ++
    [check 1 ⟨"gate 500", 1⟩ 650] ++ signOut (0, 3) 700 ++ [check 1 ⟨"gate 500", 1⟩ 750]

def putsBackTest (b : Tabs) : Action → Bool
  | .run x _ =>
    match b.threads x with
    | some (.op (.setTombstone .rewrite t) _) => b.origin.tombstone == some t
    | _ => true
  | _ => true

lemma putsBack_of_test {b : Tabs} {a : Action} (h : putsBackTest b a = true) : b.PutsBackUnchanged a := by
  cases a with
  | run x c =>
    intro t next hx
    simpa [putsBackTest, hx] using h
  | _ => trivial

theorem deny_final_sample :
    ∃ b, (browserMachine sampleHash).runIf putsBackTest noTabs calmRun = some b ∧
      b.origin.log =
        [.issued ⟨"gate 200", 0⟩ 100 false [], .allowed ⟨"gate 200", 0⟩, .denied ⟨1, 300⟩,
          .issued ⟨"gate 500", 1⟩ 400 false [], .restored ⟨"gate 500", 1⟩, .allowed ⟨"gate 500", 1⟩,
          .denied ⟨2, 700⟩] ∧
      DenyFinal sampleHash b := by
  have hr : ((browserMachine sampleHash).runIf putsBackTest noTabs calmRun).map (fun b => b.origin.log) = some
      [.issued ⟨"gate 200", 0⟩ 100 false [], .allowed ⟨"gate 200", 0⟩, .denied ⟨1, 300⟩,
        .issued ⟨"gate 500", 1⟩ 400 false [], .restored ⟨"gate 500", 1⟩, .allowed ⟨"gate 500", 1⟩,
        .denied ⟨2, 700⟩] := by decide +kernel
  obtain ⟨b, hb, hlog⟩ := Option.map_eq_some_iff.mp hr
  have hinit : (browserMachine sampleHash).initial noTabs := ⟨rfl, rfl, rfl, rfl, rfl, rfl⟩
  exact ⟨b, hb, hlog, deny_final (Machine.Within.of_runIf (P := fun _ => True) (.start hinit) trivial
    (fun _ _ _ ht => putsBack_of_test ht) (fun _ _ _ _ _ _ => trivial) hb)⟩

/-- Tab 1 reads the tombstone to probe it; tab 0 signs out; tab 1 puts back what it read. -/
def overtakenRun : List Action :=
  signIn (0, 0) 100 200 ++ signOut (0, 1) 300 ++ signIn (0, 2) 400 500 ++
    .start (1, 0) (.restoreSessionStamp "did:key:alice" (some ⟨"gate 500", 1⟩)) :: steps (1, 0) 6 600 ++
    signOut (0, 3) 700 ++ steps (1, 0) 5 750 ++ [check 1 ⟨"gate 500", 1⟩ 800]

theorem restore_undoes_deny :
    ∃ b, (browserMachine sampleHash).Reachable b ∧ b.origin.tombstone = some ⟨1, 300⟩ ∧ b.origin.log =
      [.issued ⟨"gate 200", 0⟩ 100 false [], .denied ⟨1, 300⟩, .issued ⟨"gate 500", 1⟩ 400 false [],
        .denied ⟨2, 700⟩, .restored ⟨"gate 500", 1⟩, .allowed ⟨"gate 500", 1⟩] := by
  have hr : ((browserMachine sampleHash).run noTabs overtakenRun).map
      (fun b => (b.origin.tombstone, b.origin.log)) = some (some ⟨1, 300⟩,
        [.issued ⟨"gate 200", 0⟩ 100 false [], .denied ⟨1, 300⟩, .issued ⟨"gate 500", 1⟩ 400 false [],
          .denied ⟨2, 700⟩, .restored ⟨"gate 500", 1⟩, .allowed ⟨"gate 500", 1⟩]) := by decide +kernel
  obtain ⟨b, hb, he⟩ := Option.map_eq_some_iff.mp hr
  obtain ⟨ht, hlog⟩ := Prod.mk.inj he
  exact ⟨b, Machine.Reachable.of_run (.start ⟨rfl, rfl, rfl, rfl, rfl, rfl⟩) hb, ht, hlog⟩

end Sample

end TinyCloud.Browser
