import Mathlib.Data.List.Pairwise
import Mathlib.Order.Lattice
import TinyCloud.Profile.GateFile
import TinyCloud.Runs.Effectful
import TinyCloud.Runs.Fallible

/-! Node deny floor fencing: what a deny has signed out stays signed out, whatever
crashes, failed writes and restored gate files follow it. -/

namespace TinyCloud.Profile

open TinyCloud.Runs

inductive GateCall
  | establishSessionStamp (principal : String) (siweIssuedAt : ℤ)
  | restoreSessionStamp (principal : String) (persisted : Option SessionStamp)
  | assertGateAccess (access : GateAccess) (salt : String)
  | denyGate (input : DenyInput) (collectIntents : String → Except Stop (List PurgeIntent))
      (precomputed : Option Precomputed) (deferErase : Bool)
  | advanceInactiveGate
  | resumeDeferredGate (token : DeferredEraseToken)
  | clearGateIntent (id : String)
  | recordFirstInstall (identityKeyHash : String) (atMs : ℤ)
  | recordGrantInstall (hash : String) (atMs : ℤ)

/-- A call of one process under the profile lock, or the return of an earlier gate file. -/
inductive GateAction
  | call (call : GateCall) (now : ℕ) (fresh : Fresh) (fates : List WriteFate)
  | restoreFile (copy : Option NodeGateState)

def finish {α : Type} (m : GateM α) (events : α → List GateEvent) (w : GateFiles) : GateFiles :=
  match m w with
  | .ok a t => t.record (events a)
  | .error _ t => t

section Hashing

variable (principalHashOf : String → String → String)

-- A sign-in that stops after its principal is in the gate file has been established as well.
def finishEstablish (fresh : Fresh) (now : ℕ) (principal : String) (siweIssuedAt : ℤ)
    (w : GateFiles) : GateFiles :=
  match establishSessionStamp principalHashOf fresh now principal siweIssuedAt w with
  | .ok stamp t => t.record [.established siweIssuedAt, .returned stamp]
  | .error _ t => if t.principal = w.principal then t else t.record [.established siweIssuedAt]

def callStep (now : ℕ) (fresh : Fresh) (w : GateFiles) : GateCall → GateFiles
  | .establishSessionStamp principal siweIssuedAt =>
    finishEstablish principalHashOf fresh now principal siweIssuedAt w
  | .restoreSessionStamp principal persisted =>
    finish (restoreSessionStamp principalHashOf principal persisted)
      (fun stamp => [.accepted stamp, .returned stamp]) w
  | .assertGateAccess access salt =>
    finish (assertGateAccess access salt) (fun _ => access.stamp.toList.map .accepted) w
  | .denyGate input collectIntents precomputed deferErase =>
    finish (denyGate principalHashOf now input collectIntents precomputed deferErase) (fun _ => []) w
  | .advanceInactiveGate => finish (advanceInactiveGate now) (fun _ => []) w
  | .resumeDeferredGate token => finish (resumeDeferredGate token) (fun _ => []) w
  | .clearGateIntent id => finish (clearGateIntent id) (fun _ => []) w
  | .recordFirstInstall hash atMs => finish (recordFirstInstall fresh hash atMs) (fun _ => []) w
  | .recordGrantInstall hash atMs => finish (recordGrantInstall hash atMs) (fun _ => []) w

def gateStep (w : GateFiles) : GateAction → Option GateFiles
  | .call call now fresh fates => some (callStep principalHashOf now fresh { w with fates := fates } call)
  | .restoreFile none => some { w with gate := none }
  | .restoreFile (some copy) => if copy ∈ w.copies then some { w with gate := some copy } else none

def initGate : GateFiles := ⟨none, none, [], [], []⟩

def gateMachine : Machine GateFiles GateAction where
  initial w := w = initGate
  step := gateStep principalHashOf

end Hashing

/-- What the earlier of two events demands of the later one. -/
def Ordered : GateEvent → GateEvent → Prop
  | .returned stamp, .denied f => stamp.lifecycleEpoch < f.epoch
  | .denied f, .accepted stamp => f.epoch ≤ stamp.lifecycleEpoch
  | .denied f, .established siweIssuedAt => (f.deniedAt : ℤ) < siweIssuedAt
  | _, _ => True

def Inactive (g : NodeGateState) : Prop :=
  g.principalHash ≠ none → g.intents = [] ∧ g.eraseDeferred = false

namespace GateFiles

structure Sound (w : GateFiles) : Prop where
  gate_mem : ∀ g, w.gate = some g → g ∈ w.copies
  bounded : ∀ g ∈ w.copies, g.lifecycleEpoch ≤ floorEpoch w.floor
  closed : ∀ g ∈ w.copies, Inactive g
  stamps : ∀ stamp, .returned stamp ∈ w.log → stamp.lifecycleEpoch ≤ floorEpoch w.floor
  floors : ∀ f, .denied f ∈ w.log →
    ∃ f', w.floor = some f' ∧ f.epoch ≤ f'.epoch ∧ f.deniedAt ≤ f'.deniedAt
  ordered : w.log.Pairwise Ordered

/-- The gate file holds `g` and the floor check lets it pass. -/
def Opened (w : GateFiles) (g : NodeGateState) : Prop :=
  w.gate = some g ∧ ∀ f, w.floor = some f → f.epoch ≤ g.lifecycleEpoch ∧
    ∃ deniedAt, g.deniedAt = some deniedAt ∧ f.deniedAt ≤ deniedAt

/-- No deny so far was at or after the sign-in. -/
def Later (w : GateFiles) (siweIssuedAt : ℤ) : Prop :=
  ∀ f, w.floor = some f → (f.deniedAt : ℤ) < siweIssuedAt

variable {w : GateFiles} {g : NodeGateState} {f : DenyFloor}

lemma sound_init : initGate.Sound where
  gate_mem _ h := by cases h
  bounded _ h := by cases h
  closed _ h := by cases h
  stamps _ h := by cases h
  floors _ h := by cases h
  ordered := List.Pairwise.nil

lemma Sound.fates (h : w.Sound) (fates : List WriteFate) : { w with fates := fates }.Sound :=
  ⟨h.gate_mem, h.bounded, h.closed, h.stamps, h.floors, h.ordered⟩

lemma Sound.restoreFile (h : w.Sound) {copy : Option NodeGateState} (hc : ∀ g, copy = some g → g ∈ w.copies) :
    { w with gate := copy }.Sound :=
  ⟨hc, h.bounded, h.closed, h.stamps, h.floors, h.ordered⟩

lemma Sound.writeGate (h : w.Sound) (he : g.lifecycleEpoch ≤ floorEpoch w.floor) (hc : Inactive g) :
    (w.writeGate g).Sound where
  gate_mem _ hg := by
    cases hg
    exact List.mem_cons_self
  bounded := List.forall_mem_cons.mpr ⟨he, h.bounded⟩
  closed := List.forall_mem_cons.mpr ⟨hc, h.closed⟩
  stamps := h.stamps
  floors := h.floors
  ordered := h.ordered

lemma Sound.floor_le (h : w.Sound) (hf : .denied f ∈ w.log) : f.epoch ≤ floorEpoch w.floor := by
  obtain ⟨f', hf', he, -⟩ := h.floors f hf
  rw [hf']
  exact he

lemma ordered_append {log : List GateEvent} {e : GateEvent} (h : log.Pairwise Ordered)
    (he : ∀ e' ∈ log, Ordered e' e) : (log ++ [e]).Pairwise Ordered :=
  List.pairwise_append.mpr ⟨h, List.pairwise_singleton _ _, by simpa using he⟩

lemma Sound.writeFloor (h : w.Sound) (he : floorEpoch w.floor < f.epoch)
    (hd : ∀ f', w.floor = some f' → f'.deniedAt ≤ f.deniedAt) : (w.writeFloor f).Sound where
  gate_mem := h.gate_mem
  bounded g hg := (h.bounded g hg).trans he.le
  closed := h.closed
  stamps stamp hs := by
    have hs : GateEvent.returned stamp ∈ w.log := by simpa [GateFiles.writeFloor] using hs
    exact (h.stamps stamp hs).trans he.le
  floors f₁ hf := by
    refine ⟨f, rfl, ?_⟩
    rcases List.mem_append.mp hf with hf | hf
    · obtain ⟨f', hf', -, hle⟩ := h.floors f₁ hf
      exact ⟨(h.floor_le hf).trans he.le, hle.trans (hd f' hf')⟩
    · cases List.mem_singleton.mp hf
      exact ⟨le_rfl, le_rfl⟩
  ordered := by
    refine ordered_append h.ordered (fun e hm => ?_)
    cases e with
    | returned stamp => exact (h.stamps stamp hm).trans_lt he
    | denied f => trivial
    | accepted stamp => trivial
    | established siweIssuedAt => trivial

lemma Sound.returned (h : w.Sound) {stamp : SessionStamp}
    (hs : stamp.lifecycleEpoch ≤ floorEpoch w.floor) : (w.record [.returned stamp]).Sound where
  gate_mem := h.gate_mem
  bounded := h.bounded
  closed := h.closed
  stamps stamp' hm := by
    rcases List.mem_append.mp hm with hm | hm
    · exact h.stamps stamp' hm
    · cases List.mem_singleton.mp hm
      exact hs
  floors f hf := h.floors f (by simpa [record] using hf)
  ordered := ordered_append h.ordered (fun e _ => by cases e <;> trivial)

lemma Sound.accepted (h : w.Sound) {stamp : SessionStamp}
    (hs : floorEpoch w.floor ≤ stamp.lifecycleEpoch) : (w.record [.accepted stamp]).Sound where
  gate_mem := h.gate_mem
  bounded := h.bounded
  closed := h.closed
  stamps stamp' hm := h.stamps stamp' (by simpa [record] using hm)
  floors f hf := h.floors f (by simpa [record] using hf)
  ordered := by
    refine ordered_append h.ordered (fun e hm => ?_)
    cases e with
    | denied f => exact (h.floor_le hm).trans hs
    | returned stamp => trivial
    | accepted stamp => trivial
    | established siweIssuedAt => trivial

lemma Sound.established (h : w.Sound) {siweIssuedAt : ℤ} (hs : w.Later siweIssuedAt) :
    (w.record [.established siweIssuedAt]).Sound where
  gate_mem := h.gate_mem
  bounded := h.bounded
  closed := h.closed
  stamps stamp hm := h.stamps stamp (by simpa [record] using hm)
  floors f hf := h.floors f (by simpa [record] using hf)
  ordered := by
    refine ordered_append h.ordered (fun e hm => ?_)
    cases e with
    | denied f =>
      obtain ⟨f', hf', -, hle⟩ := h.floors f hm
      have hlt : (f'.deniedAt : ℤ) < siweIssuedAt := hs f' hf'
      change (f.deniedAt : ℤ) < siweIssuedAt
      omega
    | returned stamp => trivial
    | accepted stamp => trivial
    | established siweIssuedAt => trivial

lemma Opened.epoch (h : w.Opened g) : floorEpoch w.floor ≤ g.lifecycleEpoch := by
  cases hf : w.floor with
  | none => exact Nat.zero_le _
  | some f => exact (h.2 f hf).1

lemma Sound.opened_epoch (h : w.Sound) (ho : w.Opened g) : g.lifecycleEpoch ≤ floorEpoch w.floor :=
  h.bounded g (h.gate_mem g ho.1)

lemma Sound.opened_inactive (h : w.Sound) (ho : w.Opened g) : Inactive g :=
  h.closed g (h.gate_mem g ho.1)

end GateFiles

open GateFiles

variable {w : GateFiles} {g : NodeGateState}

lemma not_refused {c : Prop} [Decidable c] {gate : GateReason} {message : String} {r : Except Stop NodeGateState}
    {t : NodeGateState} (h : (if c then gateRefusal gate message else r) = .ok t) : r = .ok t := by
  split_ifs at h
  · cases h
  · exact h

lemma parseState_ok {s t : NodeGateState} (h : parseState s = .ok t) : t = s := by
  unfold parseState at h
  iterate 10 replace h := not_refused h
  cases h
  rfl

lemma readStoredState_ok {state : Option NodeGateState} (h : readStoredState w = .ok state) :
    state = w.gate := by
  unfold readStoredState at h
  split at h
  next hg =>
    cases h
    exact hg.symm
  next s hg =>
    cases hp : parseState s with
    | error e => simp [hp, Except.map] at h
    | ok t =>
      rw [hp] at h
      cases h
      rw [parseState_ok hp, hg]

lemma readDenyFloor_ok {floor : Option DenyFloor} (h : readDenyFloor w = .ok floor) : floor = w.floor := by
  unfold readDenyFloor at h
  split at h
  next hf =>
    cases h
    exact hf.symm
  next f hf =>
    split at h
    · cases h
    · cases h
      exact hf.symm

lemma of_not_behindFloor {f : DenyFloor} (h : ¬ behindFloor g f = true) :
    f.epoch ≤ g.lifecycleEpoch ∧ ∃ deniedAt, g.deniedAt = some deniedAt ∧ f.deniedAt ≤ deniedAt := by
  unfold behindFloor at h
  cases hd : g.deniedAt with
  | none => simp [hd] at h
  | some deniedAt =>
    simp only [hd, Bool.or_eq_true, decide_eq_true_eq, not_or, not_lt] at h
    exact ⟨h.1, deniedAt, rfl, h.2⟩

lemma readState_ok {state : Option NodeGateState} (h : readState w = .ok state) :
    state = w.gate ∧ ∀ f, w.floor = some f → ∃ g, state = some g ∧ f.epoch ≤ g.lifecycleEpoch ∧
      ∃ deniedAt, g.deniedAt = some deniedAt ∧ f.deniedAt ≤ deniedAt := by
  obtain ⟨state', hs, h⟩ := bind_eq_ok h
  obtain ⟨floor, hf, h⟩ := bind_eq_ok h
  obtain rfl := readStoredState_ok hs
  obtain rfl := readDenyFloor_ok hf
  split at h
  next hf' =>
    cases h
    exact ⟨rfl, fun f hf => by simp [hf'] at hf⟩
  next => cases h
  next f g hf' hg =>
    split at h
    · cases h
    · rename_i hb
      cases h
      refine ⟨hg.symm, fun f' hf'' => ?_⟩
      cases hf'.symm.trans hf''
      exact ⟨g, rfl, of_not_behindFloor hb⟩

section Programs

variable {α : Type} {P Q : GateFiles → Prop} {E : Stop → GateFiles → Prop}

lemma reading_spec {read : GateFiles → Except Stop α} :
    Triple P (reading read) (fun a w => P w ∧ read w = .ok a) (fun _ w => P w) := by
  refine Triple.get.bind (fun w => ?_)
  cases h : read w with
  | ok a =>
    refine Triple.pure (fun s hs => ?_)
    obtain ⟨rfl, hs⟩ := hs
    exact ⟨hs, h⟩
  | error e => exact Triple.throw (fun s hs => hs.2)

lemma refuse_spec {R : α → GateFiles → Prop} {gate : GateReason} {message : String} :
    Triple P (refuse gate message) R (fun _ w => P w) :=
  Triple.throw (fun _ hs => hs)

lemma nextFate_spec (hP : ∀ w fates, P w → P { w with fates := fates }) :
    Triple P nextFate (fun _ w => P w) E := by
  refine Triple.get.bind (fun w => ?_)
  cases w.fates with
  | nil => exact Triple.pure (fun s hs => hs.2)
  | cons fate fates =>
    intro s hs
    obtain ⟨rfl, hs⟩ := hs
    exact hP w fates hs

lemma writeAtomic_spec {put : GateFiles → GateFiles} (hP : ∀ w fates, P w → P { w with fates := fates })
    (hQ : ∀ w, P w → Q (put w)) :
    Triple P (writeAtomic put) (fun _ w => Q w) (fun _ w => P w ∨ Q w) := by
  have hland : ∀ (lands : Bool) (e : Stop), Triple P
      (do modify (fun w => if lands then put w else w); throw e : GateM Unit)
      (fun _ w => Q w) (fun _ w => P w ∨ Q w) := by
    intro lands e
    refine Triple.bind (Q := fun _ w => P w ∨ Q w) (Triple.modify (fun w hw => ?_))
      (fun _ => Triple.throw (fun _ h => h))
    cases lands with
    | false => exact .inl hw
    | true => exact .inr (hQ w hw)
  refine (nextFate_spec hP).bind (fun fate => ?_)
  cases fate with
  | written => exact Triple.modify hQ
  | failed lands code => exact hland lands _
  | crashed lands => exact hland lands _

end Programs

section Operations

variable {α : Type} {R : GateFiles → Prop} {fresh : Fresh} {now : ℕ}

lemma readState_spec : Triple (fun w => w.Sound ∧ R w) (reading readState)
    (fun state w => (w.Sound ∧ R w) ∧ state = w.gate ∧ (∀ g, state = some g → w.Opened g) ∧
      (state = none → w.floor = none)) (fun _ w => w.Sound ∧ R w) := by
  refine reading_spec.mono (fun _ h => h) (fun state w h => ?_) (fun _ _ h => h)
  obtain ⟨hw, hr⟩ := h
  obtain ⟨rfl, hf⟩ := readState_ok hr
  refine ⟨hw, rfl, fun g hg => ⟨hg, fun f hfloor => ?_⟩, fun hn => ?_⟩
  · obtain ⟨g', hg', h⟩ := hf f hfloor
    cases hg.symm.trans hg'
    exact h
  · cases hfloor : w.floor with
    | none => rfl
    | some f =>
      obtain ⟨g', hg', -⟩ := hf f hfloor
      cases hn.symm.trans hg'

lemma writeState_spec {g' : NodeGateState} (he : g'.lifecycleEpoch = g.lifecycleEpoch)
    (hc : Inactive g → Inactive g') :
    Triple (fun w => w.Sound ∧ w.Opened g) (writeState g') (fun _ w => w.Sound) (fun _ w => w.Sound) := by
  refine (writeAtomic_spec (Q := fun w => w.Sound) (fun w fates h => ⟨h.1.fates fates, h.2⟩)
    (fun w h => ?_)).mono (fun _ h => h) (fun _ _ h => h) (fun _ _ h => h.elim And.left id)
  have hle := h.1.opened_epoch h.2
  exact h.1.writeGate (he ▸ hle) (hc (h.1.opened_inactive h.2))

lemma readGateState_spec {p : Option String} :
    Triple (fun w => w.Sound ∧ w.principal = p) (readGateState fresh)
      (fun g w => w.Sound ∧ w.Opened g ∧ w.principal = p) (fun _ w => w.Sound ∧ w.principal = p) := by
  refine readState_spec.bind (fun state => ?_)
  cases state with
  | some g => exact Triple.pure (fun w h => ⟨h.1.1, h.2.2.1 g rfl, h.1.2⟩)
  | none =>
    refine Triple.bind (Q := fun _ w => w.Sound ∧ w.Opened (freshState fresh) ∧ w.principal = p) ?_
      (fun _ => Triple.pure (fun _ h => h))
    have hnone : ∀ w : GateFiles, none = w.gate → w.principal = none := by
      intro w hw
      unfold principal
      rw [← hw]
      rfl
    refine (writeAtomic_spec (Q := fun w => w.Sound ∧ w.Opened (freshState fresh) ∧ w.principal = p)
      (fun w fates h => ⟨⟨h.1.1.fates fates, h.1.2⟩, h.2⟩) (fun w h => ?_)).mono (fun _ h => h)
      (fun _ _ h => h) (fun _ w h => h.elim And.left (fun h => ⟨h.1, h.2.2⟩))
    obtain ⟨⟨hs, hp⟩, hg, -, hf⟩ := h
    refine ⟨hs.writeGate (Nat.zero_le _) (fun h => absurd rfl h), ⟨rfl, fun f hfloor => ?_⟩, ?_⟩
    · cases (hf rfl).symm.trans hfloor
    · rw [← hp, hnone w hg]
      rfl

lemma opened_bind {f : Option NodeGateState → GateM α} {Q : α → GateFiles → Prop}
    (hnone : Triple Sound (f none) Q (fun _ w => w.Sound))
    (hsome : ∀ g, Triple (fun w => w.Sound ∧ w.Opened g) (f (some g)) Q (fun _ w => w.Sound)) :
    Triple Sound (reading readState >>= f) Q (fun _ w => w.Sound) := by
  refine Triple.mono (P := fun w => w.Sound ∧ True)
    (Triple.bind (readState_spec.mono (fun _ h => h) (fun _ _ h => h) (fun _ _ h => h.1)) (fun state => ?_))
    (fun _ h => ⟨h, trivial⟩) (fun _ _ h => h) (fun _ _ h => h)
  cases state with
  | none => exact hnone.mono (fun _ h => h.1.1) (fun _ _ h => h) (fun _ _ h => h)
  | some g => exact (hsome g).mono (fun _ h => ⟨h.1.1, h.2.2.1 g rfl⟩) (fun _ _ h => h) (fun _ _ h => h)

lemma createdGate_spec : Triple Sound (readGateState fresh)
    (fun g w => w.Sound ∧ w.Opened g) (fun _ w => w.Sound) := by
  intro w hw
  have hread : Triple (fun t => t.Sound ∧ t.principal = w.principal) (readGateState fresh) _ _ :=
    readGateState_spec
  exact hread.mono (fun _ h => h) (fun _ _ h => ⟨h.1, h.2.1⟩) (fun _ _ h => h.1) w ⟨hw, rfl⟩

lemma stored_bind {f : Option NodeGateState → Option DenyFloor → GateM α}
    (h : ∀ state floor, Triple (fun w => w.Sound ∧ floor = w.floor) (f state floor)
      (fun _ w => w.Sound) (fun _ w => w.Sound)) :
    Triple Sound (do f (← reading readStoredState) (← reading readDenyFloor))
      (fun _ w => w.Sound) (fun _ w => w.Sound) := by
  refine Triple.bind (reading_spec (P := Sound)) (fun state => ?_)
  refine Triple.bind (reading_spec.mono (fun _ h => h.1) (fun _ _ h => h) (fun _ _ h => h)) (fun floor => ?_)
  exact (h state floor).mono (fun _ h => ⟨h.1, readDenyFloor_ok h.2⟩) (fun _ _ h => h) (fun _ _ h => h)

def Keeps (m : GateM α) : Prop :=
  Triple Sound m (fun _ w => w.Sound) (fun _ w => w.Sound)

lemma clearGateIntent_keeps {id : String} : Keeps (clearGateIntent id) := by
  refine opened_bind (Triple.pure (fun _ h => h)) (fun g => ?_)
  refine Triple.ite (fun _ => Triple.pure (fun _ h => h.1)) (fun _ => ?_)
  refine Triple.ite (fun _ => Triple.throw (fun _ h => h.1)) (fun _ => ?_)
  exact writeState_spec rfl (fun hg hp => ⟨by rw [(hg hp).1]; rfl, (hg hp).2⟩)

lemma recordFirstInstall_keeps {hash : String} {atMs : ℤ} :
    Keeps (recordFirstInstall fresh hash atMs) := by
  refine Triple.ite (fun _ => Triple.throw (fun _ h => h)) (fun _ => ?_)
  refine createdGate_spec.bind (fun g => ?_)
  refine Triple.ite (fun _ => Triple.throw (fun _ h => h.1)) (fun _ => ?_)
  cases g.firstInstall.lookup hash with
  | some existing => exact Triple.pure (fun _ h => h.1)
  | none =>
    refine Triple.bind (Q := fun _ w => w.Sound) ?_ (fun _ => Triple.pure (fun _ h => h))
    exact writeState_spec (g := g) rfl id

lemma recordGrantInstall_keeps {hash : String} {atMs : ℤ} : Keeps (recordGrantInstall hash atMs) := by
  refine Triple.ite (fun _ => Triple.throw (fun _ h => h)) (fun _ => ?_)
  refine opened_bind (Triple.throw (fun _ h => h)) (fun g => ?_)
  refine Triple.ite (fun _ => Triple.throw (fun _ h => h.1)) (fun _ => ?_)
  refine Triple.ite (fun _ => Triple.throw (fun _ h => h.1)) (fun _ => ?_)
  have hwrite : Triple (fun w => w.Sound ∧ w.Opened g)
      (do writeState { g with grantInstall := g.grantInstall.set hash atMs.toNat }
          pure atMs.toNat : GateM ℕ) (fun _ w => w.Sound) (fun _ w => w.Sound) := by
    refine Triple.bind (Q := fun _ w => w.Sound) ?_ (fun _ => Triple.pure (fun _ h => h))
    exact writeState_spec (g := g) rfl id
  cases g.grantInstall.lookup hash with
  | none => exact hwrite
  | some previous => exact Triple.ite (fun _ => Triple.pure (fun _ h => h.1)) (fun _ => hwrite)

lemma resumeDeferredGate_keeps {token : DeferredEraseToken} : Keeps (resumeDeferredGate token) := by
  refine opened_bind (Triple.throw (fun _ h => h)) (fun g => ?_)
  refine Triple.ite (fun _ => Triple.throw (fun _ h => h.1)) (fun _ => ?_)
  refine Triple.ite (fun _ => Triple.pure (fun _ h => h.1)) (fun _ => ?_)
  refine Triple.bind (Q := fun _ w => w.Sound) ?_ (fun _ => Triple.pure (fun _ h => h))
  exact writeState_spec (g := g) rfl (fun hg hp => ⟨(hg hp).1, rfl⟩)

lemma denial_lt_nextFloor {floor : Option DenyFloor} {f : DenyFloor} (hf : floor = some f) :
    f.deniedAt < (nextFloor now g floor).deniedAt := by
  have hle : afterDenial (floor.map DenyFloor.deniedAt) ≤ (nextFloor now g floor).deniedAt :=
    Nat.le_max_right _ _
  rwa [congrArg (fun floor => afterDenial (Option.map DenyFloor.deniedAt floor)) hf] at hle

lemma nextFloor_spec {next : NodeGateState} {r : α} {floor : Option DenyFloor}
    (he : next.lifecycleEpoch = (nextFloor now g floor).epoch) (hc : Inactive next) :
    Triple (fun w => w.Sound ∧ floor = w.floor)
      (do writeDenyFloor (nextFloor now g floor)
          writeState next
          pure r : GateM α) (fun _ w => w.Sound) (fun _ w => w.Sound) := by
  refine Triple.bind (Q := fun _ w => w.Sound ∧ w.floor = some (nextFloor now g floor)) ?_ (fun _ => ?_)
  · refine (writeAtomic_spec (Q := fun w => w.Sound ∧ w.floor = some (nextFloor now g floor))
      (fun w fates h => ⟨h.1.fates fates, h.2⟩) (fun w h => ⟨h.1.writeFloor ?_ (fun f hf => ?_), rfl⟩)).mono
      (fun _ h => h) (fun _ _ h => h) (fun _ _ h => h.elim And.left And.left)
    · rw [← h.2]
      exact Nat.lt_succ_of_le (Nat.le_max_right _ _)
    · exact (denial_lt_nextFloor (h.2.trans hf)).le
  · refine Triple.bind (Q := fun _ w => w.Sound) ?_ (fun _ => Triple.pure (fun _ h => h))
    refine (writeAtomic_spec (Q := Sound) (fun w fates h => ⟨h.1.fates fates, h.2⟩)
      (fun w h => h.1.writeGate ?_ hc)).mono (fun _ h => h) (fun _ _ h => h) (fun _ _ h => h.elim And.left id)
    rw [h.2, he]
    exact le_rfl

lemma advanceInactiveGate_keeps : Keeps (advanceInactiveGate now) := by
  refine stored_bind (fun state floor => ?_)
  cases state with
  | none => exact Triple.throw (fun _ h => h.1)
  | some g =>
    refine Triple.ite (fun _ => Triple.throw (fun _ h => h.1)) (fun hc => ?_)
    refine Triple.ite (fun _ => Triple.throw (fun _ h => h.1)) (fun _ => ?_)
    refine nextFloor_spec rfl (fun hp => absurd ?_ hp)
    cases hp' : g.principalHash with
    | none => rfl
    | some p => simp [hp'] at hc

section Hashing

variable {principalHashOf : String → String → String} {input : DenyInput}
  {collectIntents : String → Except Stop (List PurgeIntent)} {precomputed : Option Precomputed}
  {deferErase : Bool} {principal : String} {siweIssuedAt : ℤ}

lemma denyStored_keeps :
    Keeps (denyStored principalHashOf now input collectIntents precomputed deferErase) := by
  refine stored_bind (fun state floor => ?_)
  cases state with
  | none =>
    exact Triple.ite (fun _ => Triple.throw (fun _ h => h.1)) (fun _ => Triple.pure (fun _ h => h.1))
  | some g =>
    cases hp : g.principalHash with
    | none =>
      simp only [hp]
      exact Triple.pure (fun _ h => h.1)
    | some principalHash =>
      simp only [hp]
      refine Triple.ite (fun _ => Triple.throw (fun _ h => h.1)) (fun _ => ?_)
      refine Triple.ite (fun _ => Triple.pure (fun _ h => h.1)) (fun _ => ?_)
      refine Triple.bind (reading_spec.mono (fun _ h => h) (fun _ _ h => h.1) (fun _ _ h => h.1)) (fun _ => ?_)
      refine Triple.bind (reading_spec.mono (fun _ h => h) (fun _ _ h => h.1) (fun _ _ h => h.1)) (fun _ => ?_)
      refine Triple.ite (fun _ => Triple.throw (fun _ h => h.1)) (fun _ => ?_)
      exact nextFloor_spec rfl (fun hp => absurd rfl hp)

lemma denyGate_keeps :
    Keeps (denyGate principalHashOf now input collectIntents precomputed deferErase) := by
  refine Triple.ite (fun _ => Triple.throw (fun _ h => h)) (fun _ => ?_)
  refine Triple.ite (fun _ => Triple.throw (fun _ h => h)) (fun _ => ?_)
  refine Triple.tryCatch denyStored_keeps (fun e => ?_)
  cases e with
  | crashed => exact Triple.throw (fun _ h => h)
  | gated gate message => exact Triple.pure (fun _ h => h)
  | storage code => exact Triple.pure (fun _ h => h)
  | typeError message => exact Triple.pure (fun _ h => h)

lemma establishSessionStamp_spec {p : Option String} :
    Triple (fun w => w.Sound ∧ w.principal = p)
      (establishSessionStamp principalHashOf fresh now principal siweIssuedAt)
      (fun stamp w => w.Sound ∧ stamp.lifecycleEpoch ≤ floorEpoch w.floor ∧ w.Later siweIssuedAt)
      (fun _ w => w.Sound ∧ (w.principal = p ∨ w.Later siweIssuedAt)) := by
  refine Triple.ite (fun _ => Triple.throw (fun _ h => ⟨h.1, .inl h.2⟩)) (fun _ => ?_)
  refine Triple.bind (readGateState_spec.mono (fun _ h => h) (fun _ _ h => h)
    (fun _ _ h => ⟨h.1, .inl h.2⟩)) (fun g => ?_)
  refine Triple.ite (fun _ => Triple.throw (fun _ h => ⟨h.1, .inl h.2.2⟩)) (fun hidle => ?_)
  refine Triple.ite (fun _ => Triple.throw (fun _ h => ⟨h.1, .inl h.2.2⟩)) (fun hdenied => ?_)
  have hlater : ∀ w : GateFiles, w.Opened g → w.Later siweIssuedAt := by
    intro w ho f hf
    obtain ⟨-, deniedAt, hd, hle⟩ := ho.2 f hf
    simp only [hd, Option.any_some, decide_eq_true_eq, inf_le_iff] at hdenied
    omega
  cases hp : g.principalHash with
  | some principalHash =>
    simp only
    refine Triple.ite (fun _ => Triple.throw (fun _ h => ⟨h.1, .inl h.2.2⟩)) (fun _ => ?_)
    exact Triple.pure (fun w h => ⟨h.1, h.1.opened_epoch h.2.1, hlater w h.2.1⟩)
  | none =>
    simp only
    refine Triple.bind (Q := fun _ w => w.Sound ∧ g.lifecycleEpoch ≤ floorEpoch w.floor ∧ w.Later siweIssuedAt)
      ?_ (fun _ => Triple.pure (fun _ h => h))
    refine (writeAtomic_spec
      (Q := fun w => w.Sound ∧ g.lifecycleEpoch ≤ floorEpoch w.floor ∧ w.Later siweIssuedAt)
      (fun w fates h => ⟨h.1.fates fates, h.2⟩) (fun w h => ?_)).mono (fun _ h => h) (fun _ _ h => h)
      (fun _ w h => h.elim (fun h => ⟨h.1, .inl h.2.2⟩) (fun h => ⟨h.1, .inr h.2.2⟩))
    have hle := h.1.opened_epoch h.2.1
    have hclosed : g.intents = [] ∧ g.eraseDeferred = false := by simpa [and_comm] using hidle
    exact ⟨h.1.writeGate hle (fun _ => hclosed), hle, hlater w h.2.1⟩

lemma restoreSessionStamp_spec {persisted : Option SessionStamp} :
    Triple Sound (restoreSessionStamp principalHashOf principal persisted)
      (fun stamp w => w.Sound ∧ stamp.lifecycleEpoch = floorEpoch w.floor) (fun _ w => w.Sound) := by
  have hcheck : ∀ stamp : SessionStamp, ∀ g : NodeGateState, ¬ (stamp.incarnation ≠ g.incarnation ∨
      stamp.lifecycleEpoch ≠ g.lifecycleEpoch) → ∀ w : GateFiles, w.Sound → w.Opened g →
      stamp.lifecycleEpoch = floorEpoch w.floor := by
    intro stamp g hsame w hw ho
    rw [not_or, not_not, not_not] at hsame
    rw [hsame.2]
    exact le_antisymm (hw.opened_epoch ho) ho.epoch
  refine opened_bind ?_ (fun g => ?_)
  · refine Triple.ite (fun _ => Triple.throw (fun _ h => h)) (fun _ => ?_)
    cases persisted with
    | none => exact Triple.throw (fun _ h => h)
    | some stamp =>
      exact Triple.ite (fun _ => Triple.throw (fun _ h => h)) (fun _ => Triple.throw (fun _ h => h))
  · refine Triple.ite (fun _ => Triple.throw (fun _ h => h.1)) (fun _ => ?_)
    cases persisted with
    | none => exact Triple.throw (fun _ h => h.1)
    | some stamp =>
      refine Triple.ite (fun _ => Triple.throw (fun _ h => h.1)) (fun _ => ?_)
      refine Triple.ite (fun _ => Triple.throw (fun _ h => h.1)) (fun hsame => ?_)
      refine Triple.ite (fun _ => Triple.throw (fun _ h => h.1)) (fun _ => ?_)
      exact Triple.pure (fun w h => ⟨h.1, hcheck stamp g hsame w h.1 h.2⟩)

end Hashing

lemma assertGateAccess_spec {access : GateAccess} {salt : String} :
    Triple Sound (assertGateAccess access salt)
      (fun _ w => w.Sound ∧ ∃ stamp, access.stamp = some stamp ∧ floorEpoch w.floor ≤ stamp.lifecycleEpoch)
      (fun _ w => w.Sound) := by
  cases hs : access.stamp with
  | none =>
    simp only [assertGateAccess, hs]
    exact Triple.throw (fun _ h => h)
  | some stamp =>
    simp only [assertGateAccess, hs]
    refine opened_bind (Triple.throw (fun _ h => h)) (fun g => ?_)
    refine Triple.ite (fun _ => Triple.throw (fun _ h => h.1)) (fun _ => ?_)
    refine Triple.ite (fun _ => Triple.throw (fun _ h => h.1)) (fun _ => ?_)
    refine Triple.ite (fun _ => Triple.throw (fun _ h => h.1)) (fun hsame => ?_)
    refine Triple.ite (fun _ => Triple.throw (fun _ h => h.1)) (fun _ => ?_)
    refine Triple.ite (fun _ => Triple.throw (fun _ h => h.1)) (fun _ => ?_)
    refine Triple.pure (fun w h => ⟨h.1, stamp, rfl, ?_⟩)
    rw [not_or, not_not, not_not] at hsame
    rw [← hsame.1]
    exact h.2.epoch

end Operations

lemma sound_finish {α : Type} {m : GateM α} {Q : α → GateFiles → Prop} {events : α → List GateEvent}
    (h : Triple Sound m Q (fun _ w => w.Sound)) (hQ : ∀ a w, Q a w → (w.record (events a)).Sound)
    (hw : w.Sound) : (finish m events w).Sound := by
  unfold finish
  cases hm : m w with
  | ok a t => exact hQ a t (h.ok hw hm)
  | error e t => exact h.error hw hm

lemma Keeps.finish {α : Type} {m : GateM α} (h : Keeps m) (hw : w.Sound) :
    (finish m (fun _ => []) w).Sound := by
  refine sound_finish h (fun _ t ht => ?_) hw
  rwa [record, List.append_nil]

section Hashing

variable {principalHashOf : String → String → String}

lemma sound_finishEstablish {fresh : Fresh} {now : ℕ} {principal : String} {siweIssuedAt : ℤ} (hw : w.Sound) :
    (finishEstablish principalHashOf fresh now principal siweIssuedAt w).Sound := by
  have hspec : Triple (fun v => v.Sound ∧ v.principal = w.principal)
      (establishSessionStamp principalHashOf fresh now principal siweIssuedAt) _ _ :=
    establishSessionStamp_spec
  unfold finishEstablish
  cases hm : establishSessionStamp principalHashOf fresh now principal siweIssuedAt w with
  | ok stamp t =>
    obtain ⟨ht, hle, hlater⟩ := hspec.ok ⟨hw, rfl⟩ hm
    have := (ht.established hlater).returned hle
    rwa [record, record, List.append_assoc] at this
  | error e t =>
    obtain ⟨ht, h⟩ := hspec.error ⟨hw, rfl⟩ hm
    dsimp only
    split
    · exact ht
    · rename_i hne
      exact ht.established (h.resolve_left hne)

lemma sound_callStep {now : ℕ} {fresh : Fresh} {call : GateCall} (hw : w.Sound) :
    (callStep principalHashOf now fresh w call).Sound := by
  cases call with
  | establishSessionStamp principal siweIssuedAt => exact sound_finishEstablish hw
  | restoreSessionStamp principal persisted =>
    refine sound_finish restoreSessionStamp_spec (fun stamp t ht => ?_) hw
    have := (ht.1.accepted ht.2.ge).returned ht.2.le
    rwa [record, record, List.append_assoc] at this
  | assertGateAccess access salt =>
    refine sound_finish assertGateAccess_spec (fun _ t ht => ?_) hw
    obtain ⟨ht, stamp, hs, hle⟩ := ht
    rw [hs]
    exact ht.accepted hle
  | denyGate input collectIntents precomputed deferErase => exact denyGate_keeps.finish hw
  | advanceInactiveGate => exact advanceInactiveGate_keeps.finish hw
  | resumeDeferredGate token => exact resumeDeferredGate_keeps.finish hw
  | clearGateIntent id => exact clearGateIntent_keeps.finish hw
  | recordFirstInstall hash atMs => exact recordFirstInstall_keeps.finish hw
  | recordGrantInstall hash atMs => exact recordGrantInstall_keeps.finish hw

lemma sound_of_reachable (h : (gateMachine principalHashOf).Reachable w) : w.Sound := by
  refine h.invariant (fun w hw => ?_) (fun w a t hw ht => ?_)
  · cases hw
    exact sound_init
  · cases a with
    | call call now fresh fates =>
      cases ht
      exact sound_callStep (hw.fates fates)
    | restoreFile copy =>
      cases copy with
      | none =>
        cases ht
        exact hw.restoreFile (fun _ h => by cases h)
      | some copy =>
        simp only [gateMachine, gateStep, Option.ite_none_right_eq_some, Option.some.injEq] at ht
        obtain ⟨hm, rfl⟩ := ht
        refine hw.restoreFile (fun g hg => ?_)
        cases hg
        exact hm

/-- After the floor write of a deny no stamp returned before it is accepted and no sign-in
issued at or before its `deniedAt` is established, and the gate file never has an active
principal beside a purge intent or a deferred erase. -/
structure GateFenced (w : GateFiles) : Prop where
  stale : ∀ before after f stamp, w.log = before ++ .denied f :: after →
    .returned stamp ∈ before → .accepted stamp ∉ after
  late : ∀ before after f siweIssuedAt, w.log = before ++ .denied f :: after →
    .established siweIssuedAt ∈ after → (f.deniedAt : ℤ) < siweIssuedAt
  closed : ∀ g, w.gate = some g → g.principalHash ≠ none → g.intents = [] ∧ g.eraseDeferred = false

theorem deny_floor_fences (h : (gateMachine principalHashOf).Reachable w) : GateFenced w := by
  have hw := sound_of_reachable h
  refine ⟨?_, ?_, fun g hg => hw.closed g (hw.gate_mem g hg)⟩
  · intro before after f stamp hlog hret hacc
    have hord := hlog ▸ hw.ordered
    obtain ⟨-, hafter, hbefore⟩ := List.pairwise_append.mp hord
    have hlt : stamp.lifecycleEpoch < f.epoch := hbefore _ hret _ List.mem_cons_self
    have hle : f.epoch ≤ stamp.lifecycleEpoch := (List.pairwise_cons.mp hafter).1 _ hacc
    exact absurd hle hlt.not_ge
  · intro before after f siweIssuedAt hlog hest
    have hord := hlog ▸ hw.ordered
    obtain ⟨-, hafter, -⟩ := List.pairwise_append.mp hord
    exact (List.pairwise_cons.mp hafter).1 _ hest

end Hashing

def sampleSalt : String := "AAAAAAAAAAAAAAAAAAAAAAAAAAAAAAAAAAAAAAAAAAA"

-- HMAC-SHA-256 of the sample's lower-cased principal under 32 zero bytes.
def sampleHash (_salt _principal : String) : String :=
  "6b94e2c04c3244be2e512f501fd4cc0237504fed5a91441a0e227cf474adaafb"

/-- A sign-out that dies between its two writes, its repetition, and the return of the gate file
from before both. -/
def sampleCalls : List GateAction :=
  let call (c : GateCall) (now : ℕ) (fates : List WriteFate) : GateAction :=
    .call c now ⟨"gate", sampleSalt⟩ fates
  let signOut : GateCall := .denyGate ⟨.signOut, "did:key:z6MkAlice", none⟩
    (fun hash => .ok [.partition "replica" "replica" hash 30]) none false
  let signIn (issuedAt : ℤ) : GateCall := .establishSessionStamp "did:key:z6MkAlice" issuedAt
  let restore : GateCall := .restoreSessionStamp "did:key:z6MkAlice" (some ⟨"gate", 0⟩)
  let active : NodeGateState :=
    { freshState ⟨"gate", sampleSalt⟩ with principalHash := some (sampleHash sampleSalt "did:key:z6MkAlice") }
  [call (signIn 10) 20 [], call restore 21 [], call signOut 30 [.written, .crashed false],
    call restore 31 [], call signOut 32 [], .restoreFile (some active), call restore 33 [],
    call (signIn 35) 36 [], call signOut 40 [], call (.clearGateIntent "replica") 41 [],
    call (signIn 35) 42 [], call (signIn 45) 50 []]

theorem deny_floor_fences_sample :
    ∃ w, (gateMachine sampleHash).run initGate sampleCalls = some w ∧ w.log =
      [.established 10, .returned ⟨"gate", 0⟩, .accepted ⟨"gate", 0⟩, .returned ⟨"gate", 0⟩,
        .denied ⟨1, 30⟩, .denied ⟨2, 32⟩, .denied ⟨3, 40⟩, .established 45, .returned ⟨"gate", 3⟩] ∧
      GateFenced w := by
  have hr : ((gateMachine sampleHash).run initGate sampleCalls).isSome = true := by decide
  obtain ⟨w, hw⟩ := Option.isSome_iff_exists.mp hr
  refine ⟨w, hw, ?_, deny_floor_fences (Machine.Reachable.of_run (.start rfl) hw)⟩
  have hlog : ((gateMachine sampleHash).run initGate sampleCalls).map GateFiles.log = some
      [.established 10, .returned ⟨"gate", 0⟩, .accepted ⟨"gate", 0⟩, .returned ⟨"gate", 0⟩,
        .denied ⟨1, 30⟩, .denied ⟨2, 32⟩, .denied ⟨3, 40⟩, .established 45, .returned ⟨"gate", 3⟩] := by
    decide
  rw [hw] at hlog
  exact Option.some.inj hlog

end TinyCloud.Profile
