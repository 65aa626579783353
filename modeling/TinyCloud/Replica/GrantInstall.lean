import TinyCloud.Replica.Store
import TinyCloud.Runs.Effectful
import TinyCloud.Runs.Machine
import TinyCloud.Text.SafeInteger

/-! The install records of gated grants: when a grant was first installed, the consent deadline, and
the local expiry that follows from them. -/

namespace TinyCloud.Grants

open TinyCloud.Runs TinyCloud.Text
open TinyCloud.Replica (ReplicaErrorCode)

inductive AnchorSource
  | siwe
  | delegationIat
  | delegationNbf
  | firstInstall
  deriving DecidableEq

structure SqliteGrantPolicy where
  at_ : JsNumber
  ttlMs : JsNumber
  consentDeadline : JsNumber
  anchorAt : JsNumber
  anchorSource : AnchorSource
  deriving DecidableEq

/-- A row of `grant_install`. -/
structure SqliteGrantInstall where
  installedAt : SafeNat
  effectiveExpiresAt : SafeNat
  consentDeadline : SafeNat
  anchorAt : SafeNat
  anchorSource : AnchorSource
  deriving DecidableEq

structure Grant where
  cid : String
  notBefore : Option JsNumber
  expiresAt : Option JsNumber
  deriving DecidableEq

structure Slots where
  grant : Option Grant
  pendingGrant : Option Grant
  deriving DecidableEq

structure Store where
  row : Option Slots
  grantInstall : String → Option SqliteGrantInstall

structure Refusal where
  code : ReplicaErrorCode
  message : String
  deriving DecidableEq

abbrev Section := EStateM Refusal Store

/-- The signed expiry in milliseconds. -/
def Grant.signedExpiry (g : Grant) : JsNumber := (g.expiresAt.map (JsNumber.scale 1000)).getD .infinity

/-- The row that a policy gives a grant, unless one of its numbers is no safe integer. -/
def policyInstall (g : Grant) (policy : SqliteGrantPolicy) (existing : Option SqliteGrantInstall) :
    Option SqliteGrantInstall := do
  let installedAt := (existing.map (·.installedAt.toNumber)).getD policy.at_
  let kept := existing.filter fun old => old.consentDeadline.toNumber.lt policy.consentDeadline
  let consentDeadline := (kept.map (·.consentDeadline.toNumber)).getD policy.consentDeadline
  let anchorAt := (kept.map (·.anchorAt.toNumber)).getD policy.anchorAt
  let anchorSource := (kept.map (·.anchorSource)).getD policy.anchorSource
  let effectiveExpiresAt := (g.signedExpiry.min (installedAt.add policy.ttlMs)).min consentDeadline
  let ttl ← policy.ttlMs.toSafeNat
  if ttl.val = 0 then none
  else
    return ⟨← installedAt.toSafeNat, ← effectiveExpiresAt.toSafeNat, ← consentDeadline.toSafeNat,
      ← anchorAt.toSafeNat, anchorSource⟩

def Store.setInstall (s : Store) (cid : String) (i : SqliteGrantInstall) : Store :=
  { s with grantInstall := Function.update s.grantInstall cid (some i) }

def storeGrantPolicy (g : Grant) (policy : SqliteGrantPolicy) (existing : Option SqliteGrantInstall) :
    Section SqliteGrantInstall := do
  match policyInstall g policy existing with
  | none => throw ⟨.grantExpired, "The replica grant has no finite effective expiry."⟩
  | some next => do
    modify (·.setInstall g.cid next)
    return next

def Slots.holds (row : Slots) (cid : String) : Bool :=
  row.grant.any (·.cid == cid) || row.pendingGrant.any (·.cid == cid)

/-- The transaction of `installGatedGrant`. -/
def installGatedGrant (g : Grant) (policy : SqliteGrantPolicy) (now : JsNumber) :
    Section (Option SqliteGrantInstall) := do
  let s ← get
  match s.row with
  | none => throw ⟨.notFound, "The replica has not been created."⟩
  | some row => do
    let previous := s.grantInstall g.cid
    if previous.isNone ∧ row.holds g.cid then
      throw ⟨.grantExpired, "The installed grant has no durable first-install time."⟩
    let next ← storeGrantPolicy g policy previous
    if next.effectiveExpiresAt.toNumber.le now then
      throw ⟨.grantExpired, "The replica grant expired under the current policy."⟩
    if !row.holds g.cid then
      modify fun s => { s with row := some { row with pendingGrant := some g } }
    return some next

/-- The transaction of `recomputeGrantInstall`. -/
def recomputeGrantInstall (g : Grant) (policy : SqliteGrantPolicy) : Section (Option SqliteGrantInstall) := do
  let s ← get
  match s.grantInstall g.cid with
  | none => return none
  | some previous => do
    let next ← storeGrantPolicy g policy (some previous)
    return some next

/-- What can go wrong around a transaction: it is not started, it does not commit, or the guard throws after it. -/
inductive Trouble
  | refused
  | uncommitted
  | late
  deriving DecidableEq

inductive Outcome
  | returned (i : Option SqliteGrantInstall)
  | threw
  deriving DecidableEq

structure Done where
  store : Store
  outcome : Outcome
  /-- The row that was written, when the transaction committed. -/
  written : Option SqliteGrantInstall

/-- `#write` under the guard: the transaction is rolled back when its body throws or it does not commit. -/
def write (body : Section (Option SqliteGrantInstall)) (trouble : Option Trouble) (s : Store) : Done :=
  if trouble = some .refused then ⟨s, .threw, none⟩
  else match body s with
    | .error _ _ => ⟨s, .threw, none⟩
    | .ok i t =>
      if trouble = some .uncommitted then ⟨s, .threw, none⟩
      else ⟨t, if trouble = some .late then .threw else .returned i, i⟩

inductive Method
  | install (now : JsNumber)
  | recompute
  deriving DecidableEq

structure Call where
  grant : Grant
  policy : SqliteGrantPolicy
  method : Method
  trouble : Option Trouble
  deriving DecidableEq

def Call.body (c : Call) : Section (Option SqliteGrantInstall) :=
  match c.method with
  | .install now => installGatedGrant c.grant c.policy now
  | .recompute => recomputeGrantInstall c.grant c.policy

def Call.run (c : Call) (s : Store) : Done := write c.body c.trouble s

/-- A store with the calls whose policy was applied, in order. -/
structure Installed where
  store : Store
  applied : List Call

/-- Other methods only change the slots. -/
inductive Action
  | call (c : Call)
  | slots (row : Option Slots)

def step (s : Installed) : Action → Installed
  | .call c =>
    let done := c.run s.store
    ⟨done.store, if done.written.isSome then s.applied ++ [c] else s.applied⟩
  | .slots row => { s with store := { s.store with row := row } }

def installMachine : Machine Installed Action where
  initial s := (∀ cid, s.store.grantInstall cid = none) ∧ s.applied = []
  step s a := some (step s a)

section Policies

variable {g : Grant} {policy : SqliteGrantPolicy} {existing : Option SqliteGrantInstall} {next : SqliteGrantInstall}

/-- The local expiry is the least of the signed expiry, the policy's term and the consent deadline. -/
structure ExpiresAsBound (next : SqliteGrantInstall) (g : Grant) (policy : SqliteGrantPolicy) : Prop where
  signed : next.effectiveExpiresAt.toNumber.le g.signedExpiry = true
  term : ∃ ttl : SafeNat, policy.ttlMs = ttl.toNumber ∧
    next.effectiveExpiresAt.val ≤ next.installedAt.val + ttl.val ∧
      (g.signedExpiry = next.effectiveExpiresAt.toNumber ∨
        next.effectiveExpiresAt.val = next.installedAt.val + ttl.val ∨
        next.effectiveExpiresAt = next.consentDeadline)
  consent : next.effectiveExpiresAt.val ≤ next.consentDeadline.val

lemma toNumber_injective {m n : SafeNat} (h : m.toNumber = n.toNumber) : m = n := by
  have := congrArg JsNumber.toSafeNat h
  simpa using this

/-- What an applied policy leaves in the row. -/
lemma policyInstall_eq (h : policyInstall g policy existing = some next) :
    next.installedAt.toNumber = (existing.map (·.installedAt.toNumber)).getD policy.at_ ∧
      next.consentDeadline.toNumber =
        ((existing.filter fun old => old.consentDeadline.toNumber.lt policy.consentDeadline).map
          (·.consentDeadline.toNumber)).getD policy.consentDeadline ∧
      ExpiresAsBound next g policy := by
  unfold policyInstall at h
  obtain ⟨ttl, httl, h⟩ := Option.bind_eq_some_iff.mp h
  split at h
  · cases h
  obtain ⟨installedAt, hinstalled, h⟩ := Option.bind_eq_some_iff.mp h
  obtain ⟨expires, hexpires, h⟩ := Option.bind_eq_some_iff.mp h
  obtain ⟨deadline, hdeadline, h⟩ := Option.bind_eq_some_iff.mp h
  obtain ⟨anchor, -, h⟩ := Option.bind_eq_some_iff.mp h
  cases h
  replace httl := eq_of_toSafeNat httl
  replace hinstalled := eq_of_toSafeNat hinstalled
  replace hexpires := eq_of_toSafeNat hexpires
  replace hdeadline := eq_of_toSafeNat hdeadline
  refine ⟨hinstalled.symm, hdeadline.symm, ?_⟩
  rw [hinstalled, httl, hdeadline] at hexpires
  have hleast := JsNumber.min_spec (hexpires ▸ toNumber_ne_nan)
  rw [hexpires] at hleast
  obtain ⟨hfirst, hconsent, hone⟩ := hleast
  obtain ⟨hsigned, hterm, hother⟩ := JsNumber.min_spec (JsNumber.ne_nan_of_le hfirst).2
  refine ⟨JsNumber.le_trans hfirst hsigned, ⟨ttl, httl, le_of_le_add (JsNumber.le_trans hfirst hterm), ?_⟩,
    le_toNumber.mp hconsent⟩
  rcases hone with hone | hone
  · rw [← hone] at hother
    rcases hother with hother | hother
    · exact .inl hother.symm
    · exact .inr (.inl (add_eq_toNumber hother.symm))
  · exact .inr (.inr (toNumber_injective hone))

end Policies

section Transactions

variable {g : Grant} {policy : SqliteGrantPolicy} {now : JsNumber} {s t : Store} {i : Option SqliteGrantInstall} {c : Call}

/-- A transaction that writes the row of a grant. -/
def Applies (g : Grant) (policy : SqliteGrantPolicy) (s t : Store) (next : SqliteGrantInstall) : Prop :=
  policyInstall g policy (s.grantInstall g.cid) = some next ∧
    t.grantInstall = Function.update s.grantInstall g.cid (some next)

lemma storeGrantPolicy_ok {existing : Option SqliteGrantInstall} {next : SqliteGrantInstall}
    (h : storeGrantPolicy g policy existing s = .ok next t) :
    policyInstall g policy existing = some next ∧ t = s.setInstall g.cid next := by
  unfold storeGrantPolicy at h
  cases hp : policyInstall g policy existing with
  | none =>
    rw [hp] at h
    exact (effect_throw_ok h).elim
  | some next' =>
    rw [hp] at h
    obtain ⟨_, u, hu, h⟩ := effect_bind_ok h
    cases hu
    cases h
    exact ⟨rfl, rfl⟩

lemma installGatedGrant_ok (h : installGatedGrant g policy now s = .ok i t) :
    ∃ next, i = some next ∧ Applies g policy s t next := by
  unfold installGatedGrant at h
  obtain ⟨u, s', hu, h⟩ := effect_bind_ok h
  cases hu
  cases hrow : s.row with
  | none =>
    rw [hrow] at h
    exact (effect_throw_ok h).elim
  | some row =>
    rw [hrow] at h
    dsimp only at h
    by_cases hfirst : (s.grantInstall g.cid).isNone ∧ row.holds g.cid
    · rw [if_pos hfirst] at h
      obtain ⟨_, _, hthrow, -⟩ := effect_bind_ok h
      exact (effect_throw_ok hthrow).elim
    rw [if_neg hfirst] at h
    obtain ⟨next, s₁, hstore, h⟩ := effect_bind_ok h
    obtain ⟨hp, rfl⟩ := storeGrantPolicy_ok hstore
    by_cases hexpired : next.effectiveExpiresAt.toNumber.le now
    · rw [if_pos hexpired] at h
      obtain ⟨_, _, hthrow, -⟩ := effect_bind_ok h
      exact (effect_throw_ok hthrow).elim
    rw [if_neg hexpired] at h
    by_cases hholds : (!row.holds g.cid) = true
    · rw [if_pos hholds] at h
      obtain ⟨_, s₂, hpending, h⟩ := effect_bind_ok h
      cases hpending
      cases h
      exact ⟨next, rfl, hp, rfl⟩
    · rw [if_neg hholds] at h
      cases h
      exact ⟨next, rfl, hp, rfl⟩

lemma recomputeGrantInstall_ok (h : recomputeGrantInstall g policy s = .ok i t) :
    (i = none ∧ t = s) ∨ ∃ next, i = some next ∧ (s.grantInstall g.cid).isSome ∧ Applies g policy s t next := by
  unfold recomputeGrantInstall at h
  obtain ⟨u, s', hu, h⟩ := effect_bind_ok h
  cases hu
  cases hprevious : s.grantInstall g.cid with
  | none =>
    rw [hprevious] at h
    cases h
    exact .inl ⟨rfl, rfl⟩
  | some previous =>
    rw [hprevious] at h
    obtain ⟨next, s₁, hstore, h⟩ := effect_bind_ok h
    obtain ⟨hp, rfl⟩ := storeGrantPolicy_ok hstore
    cases h
    refine .inr ⟨next, rfl, rfl, ?_, rfl⟩
    rw [hprevious]
    exact hp

/-- What the guarded write of a body comes to. -/
lemma write_cases (body : Section (Option SqliteGrantInstall)) (trouble : Option Trouble) (s : Store) :
    write body trouble s = ⟨s, .threw, none⟩ ∨
      ∃ i t, body s = .ok i t ∧ write body trouble s = ⟨t, if trouble = some .late then .threw else .returned i, i⟩ := by
  unfold write
  by_cases hrefused : trouble = some .refused
  · rw [if_pos hrefused]
    exact .inl rfl
  rw [if_neg hrefused]
  cases hbody : body s with
  | error e u => exact .inl rfl
  | ok i t =>
    by_cases hcommit : trouble = some .uncommitted
    · left
      simp only [if_pos hcommit]
    · right
      refine ⟨i, t, rfl, ?_⟩
      simp only [if_neg hcommit]

/-- A call leaves the rows as they are, or has written the one of its grant. -/
lemma Call.run_cases (c : Call) (s : Store) :
    ((c.run s).written = none ∧ (c.run s).store = s) ∨
      ∃ next, (c.run s).written = some next ∧ Applies c.grant c.policy s (c.run s).store next ∧
        (c.method = .recompute → (s.grantInstall c.grant.cid).isSome) := by
  unfold Call.run
  rcases write_cases c.body c.trouble s with hw | ⟨i, t, hbody, hw⟩
  · rw [hw]
    exact .inl ⟨rfl, rfl⟩
  rw [hw]
  unfold Call.body at hbody
  cases hmethod : c.method with
  | install now =>
    rw [hmethod] at hbody
    obtain ⟨next, rfl, ha⟩ := installGatedGrant_ok hbody
    exact .inr ⟨next, rfl, ha, nofun⟩
  | recompute =>
    rw [hmethod] at hbody
    rcases recomputeGrantInstall_ok hbody with ⟨rfl, rfl⟩ | ⟨next, rfl, hsome, ha⟩
    · exact .inl ⟨rfl, rfl⟩
    · exact .inr ⟨next, rfl, ha, fun _ => hsome⟩

/-- Unless its guard throws after the transaction, a call that throws has changed nothing. -/
lemma Call.threw_unchanged (h : (c.run s).outcome = .threw) (hlate : c.trouble ≠ some .late) : (c.run s).store = s := by
  unfold Call.run at h ⊢
  rcases write_cases c.body c.trouble s with hw | ⟨i, t, -, hw⟩
  · rw [hw]
  · rw [hw, if_neg hlate] at h
    cases h

end Transactions

section History

variable {s : Installed} {cid : String} {i next : SqliteGrantInstall} {c : Call} {applied : List Call}

/-- The applied calls for one grant. -/
def callsFor (cid : String) (applied : List Call) : List Call := applied.filter (·.grant.cid = cid)

/-- The row of a grant is what the applied calls make of it. -/
structure Recorded (cid : String) (i : SqliteGrantInstall) (applied : List Call) : Prop where
  installed : ∃ c now, (callsFor cid applied).head? = some c ∧ c.method = .install now ∧
    c.policy.at_ = i.installedAt.toNumber
  least : ∀ c ∈ callsFor cid applied, i.consentDeadline.toNumber.le c.policy.consentDeadline = true
  attained : ∃ c ∈ callsFor cid applied, c.policy.consentDeadline = i.consentDeadline.toNumber
  expires : ∃ c, (callsFor cid applied).getLast? = some c ∧ ExpiresAsBound i c.grant c.policy

/-- Every row is accounted for; a grant without a row has no applied call. -/
def Accounted (s : Installed) : Prop :=
  ∀ cid, match s.store.grantInstall cid with
    | none => callsFor cid s.applied = []
    | some i => Recorded cid i s.applied

lemma callsFor_append (cid : String) (c : Call) (applied : List Call) :
    callsFor cid (applied ++ [c]) = callsFor cid applied ++ if c.grant.cid = cid then [c] else [] := by
  unfold callsFor
  rw [List.filter_append]
  by_cases h : c.grant.cid = cid <;> simp [h]

/-- How the next policy moves the consent deadline. -/
lemma deadline_cases {old : SqliteGrantInstall} {g : Grant} {policy : SqliteGrantPolicy}
    (h : policyInstall g policy (some old) = some next) :
    (next.consentDeadline = old.consentDeadline ∧ old.consentDeadline.toNumber.le policy.consentDeadline = true) ∨
      (policy.consentDeadline = next.consentDeadline.toNumber ∧ next.consentDeadline.val ≤ old.consentDeadline.val) := by
  obtain ⟨-, hdeadline, -⟩ := policyInstall_eq h
  by_cases hkept : old.consentDeadline.toNumber.lt policy.consentDeadline = true
  · left
    simp only [Option.filter_some, hkept, if_true, Option.map_some, Option.getD_some] at hdeadline
    exact ⟨toNumber_injective hdeadline, JsNumber.le_of_lt hkept⟩
  · right
    simp only [Option.filter_some, hkept, Bool.false_eq_true, if_false, Option.map_none, Option.getD_none] at hdeadline
    refine ⟨hdeadline.symm, ?_⟩
    rw [← hdeadline, lt_toNumber, not_lt] at hkept
    exact hkept

lemma Recorded.first (hp : policyInstall c.grant c.policy none = some next)
    (hmethod : ∃ now, c.method = .install now) (hnone : callsFor c.grant.cid applied = []) :
    Recorded c.grant.cid next (applied ++ [c]) := by
  obtain ⟨now, hmethod⟩ := hmethod
  obtain ⟨hinstalled, hdeadline, hexpires⟩ := policyInstall_eq hp
  have hcalls : callsFor c.grant.cid (applied ++ [c]) = [c] := by
    rw [callsFor_append, hnone, if_pos rfl, List.nil_append]
  simp only [Option.map_none, Option.getD_none, Option.filter_none] at hinstalled hdeadline
  refine ⟨⟨c, now, by rw [hcalls]; rfl, hmethod, hinstalled.symm⟩, ?_, ?_, ⟨c, by rw [hcalls]; rfl, hexpires⟩⟩
  · intro c' hc
    rw [hcalls, List.mem_singleton] at hc
    subst hc
    rw [← hdeadline]
    exact toNumber_le_self _
  · exact ⟨c, by simp [hcalls], hdeadline.symm⟩

lemma Recorded.again (h : Recorded c.grant.cid i applied) (hp : policyInstall c.grant c.policy (some i) = some next) :
    Recorded c.grant.cid next (applied ++ [c]) := by
  obtain ⟨hinstalled, -, hexpires⟩ := policyInstall_eq hp
  have hcalls : callsFor c.grant.cid (applied ++ [c]) = callsFor c.grant.cid applied ++ [c] := by
    rw [callsFor_append, if_pos rfl]
  simp only [Option.map_some, Option.getD_some] at hinstalled
  obtain ⟨first, now, hhead, hmethod, hat⟩ := h.installed
  refine ⟨⟨first, now, ?_, hmethod, hat.trans hinstalled.symm⟩, ?_, ?_, ⟨c, by rw [hcalls, List.getLast?_concat], hexpires⟩⟩
  · rw [hcalls, List.head?_append, hhead]
    rfl
  · have hle : next.consentDeadline.val ≤ i.consentDeadline.val := by
      rcases deadline_cases hp with ⟨heq, -⟩ | ⟨-, hle⟩
      · rw [heq]
      · exact hle
    intro c' hc
    rw [hcalls, List.mem_append, List.mem_singleton] at hc
    rcases hc with hc | rfl
    · exact JsNumber.le_trans (le_toNumber.mpr hle) (h.least c' hc)
    · rcases deadline_cases hp with ⟨heq, hle⟩ | ⟨heq, -⟩
      · rw [heq]
        exact hle
      · rw [heq]
        exact toNumber_le_self _
  · rcases deadline_cases hp with ⟨heq, -⟩ | ⟨heq, -⟩
    · obtain ⟨c', hc, hd⟩ := h.attained
      exact ⟨c', by rw [hcalls]; exact List.mem_append_left _ hc, by rw [heq]; exact hd⟩
    · exact ⟨c, by simp [hcalls], heq⟩

lemma Recorded.other (h : c.grant.cid ≠ cid) (hr : Recorded cid i applied) : Recorded cid i (applied ++ [c]) := by
  have hcalls : callsFor cid (applied ++ [c]) = callsFor cid applied := by
    rw [callsFor_append, if_neg h, List.append_nil]
  exact ⟨hcalls ▸ hr.installed, hcalls ▸ hr.least, hcalls ▸ hr.attained, hcalls ▸ hr.expires⟩

lemma Accounted.call (h : Accounted s) (c : Call) : Accounted (step s (.call c)) := by
  rcases c.run_cases s.store with ⟨hw, hstore⟩ | ⟨next, hw, ⟨hp, hstore⟩, hmethod⟩
  · have hsame : step s (.call c) = s := by
      simp [step, hw, hstore]
    rw [hsame]
    exact h
  intro cid
  have hgrant : (step s (.call c)).store.grantInstall cid =
      if cid = c.grant.cid then some next else s.store.grantInstall cid := by
    simp only [step, hstore, Function.update_apply]
  have happlied : (step s (.call c)).applied = s.applied ++ [c] := by
    simp [step, hw]
  rw [hgrant, happlied]
  have hold := h cid
  by_cases hcid : cid = c.grant.cid
  · subst hcid
    rw [if_pos rfl]
    cases hprevious : s.store.grantInstall c.grant.cid with
    | none =>
      rw [hprevious] at hold hp hmethod
      refine .first hp ?_ hold
      cases hm : c.method with
      | install now => exact ⟨now, rfl⟩
      | recompute => cases hmethod hm
    | some previous =>
      rw [hprevious] at hold hp
      exact .again hold hp
  · rw [if_neg hcid]
    cases hprevious : s.store.grantInstall cid with
    | none =>
      rw [hprevious] at hold
      rw [callsFor_append, if_neg (Ne.symm hcid), List.append_nil]
      exact hold
    | some previous =>
      rw [hprevious] at hold
      exact hold.other (Ne.symm hcid)

lemma accounted (h : installMachine.Reachable s) : Accounted s := by
  refine h.invariant ?_ ?_
  · rintro s ⟨hnone, happlied⟩ cid
    rw [hnone, happlied]
    rfl
  · intro s a t hI hs
    cases hs
    cases a with
    | call c => exact hI.call c
    | slots row => exact hI

/-- What one call does to the row of any grant that has one. -/
lemma Call.run_tightens (c : Call) (s : Store) (hi : s.grantInstall cid = some i) :
    ∃ j, (c.run s).store.grantInstall cid = some j ∧ j.installedAt = i.installedAt ∧
      j.consentDeadline.val ≤ i.consentDeadline.val := by
  rcases c.run_cases s with ⟨-, hstore⟩ | ⟨next, -, ⟨hp, hstore⟩, -⟩
  · exact ⟨i, by rw [hstore]; exact hi, rfl, le_rfl⟩
  rw [hstore]
  by_cases hcid : cid = c.grant.cid
  · subst hcid
    rw [hi] at hp
    refine ⟨next, Function.update_self .., toNumber_injective (policyInstall_eq hp).1, ?_⟩
    rcases deadline_cases hp with ⟨heq, -⟩ | ⟨-, hle⟩
    · rw [heq]
    · exact hle
  · exact ⟨i, by rw [Function.update_of_ne hcid]; exact hi, rfl, le_rfl⟩

/-- Install records only tighten, and account for the calls whose transaction committed. -/
theorem install_bounds_tighten : ∀ s, installMachine.Reachable s → Accounted s ∧
    ∀ c : Call,
      (∀ cid i, s.store.grantInstall cid = some i → ∃ j, (c.run s.store).store.grantInstall cid = some j ∧
        j.installedAt = i.installedAt ∧ j.consentDeadline.val ≤ i.consentDeadline.val) ∧
      ((c.run s.store).outcome = .threw → c.trouble ≠ some .late → (c.run s.store).store = s.store) :=
  fun s h => ⟨accounted h, fun c => ⟨fun _ _ hi => c.run_tightens s.store hi, Call.threw_unchanged⟩⟩

def number (n : ℕ) (h : n < 2 ^ 53) : JsNumber := SafeNat.toNumber ⟨n, h⟩

def emptyStore : Store := ⟨some ⟨none, none⟩, fun _ => none⟩

/-- A grant that is signed until second 2000 and may be used for 600 seconds. -/
def sampleGrant : Grant := ⟨"cid", none, some (number 2000 (by decide))⟩

def samplePolicy (deadline : ℕ) (h : deadline < 2 ^ 53) : SqliteGrantPolicy :=
  ⟨number 1000 (by decide), number 600000 (by decide), number deadline h, number 0 zero_small, .siwe⟩

def firstCall : Call := ⟨sampleGrant, samplePolicy 900000 (by decide), .install (number 1000 (by decide)), none⟩

def tighterCall : Call := ⟨sampleGrant, samplePolicy 500000 (by decide), .recompute, none⟩

theorem install_bounds_tighten_sample : ∃ s i, installMachine.run ⟨emptyStore, []⟩ [.call firstCall, .call tighterCall] = some s ∧
    s.store.grantInstall "cid" = some i ∧ i.effectiveExpiresAt.val = 500000 ∧ Accounted s ∧
    ∃ j, (firstCall.run s.store).store.grantInstall "cid" = some j ∧ j.installedAt = i.installedAt ∧
      j.consentDeadline.val ≤ i.consentDeadline.val := by
  have hrun : ∃ s i, installMachine.run ⟨emptyStore, []⟩ [.call firstCall, .call tighterCall] = some s ∧
      s.store.grantInstall "cid" = some i ∧ i.effectiveExpiresAt.val = 500000 := by
    have hval : ((installMachine.run ⟨emptyStore, []⟩ [.call firstCall, .call tighterCall]).bind fun s =>
        s.store.grantInstall "cid").map (·.effectiveExpiresAt.val) = some 500000 := by decide +kernel
    obtain ⟨i, hi, hexpires⟩ := Option.map_eq_some_iff.mp hval
    obtain ⟨s, hs, hi⟩ := Option.bind_eq_some_iff.mp hi
    exact ⟨s, i, hs, hi, hexpires⟩
  obtain ⟨s, i, hs, hi, hexpires⟩ := hrun
  have hstart : installMachine.Reachable ⟨emptyStore, []⟩ := .start ⟨fun _ => rfl, rfl⟩
  obtain ⟨haccounted, hcalls⟩ := install_bounds_tighten s (hstart.of_run hs)
  exact ⟨s, i, hs, hi, hexpires, haccounted, (hcalls firstCall).1 "cid" i hi⟩

/-- The guard throws after the transaction has committed, as when a logout has begun. -/
def lateCall : Call := { firstCall with trouble := some .late }

/-- The call throws and the row stays. -/
theorem late_throw_installs : (lateCall.run emptyStore).outcome = .threw ∧
    (lateCall.run emptyStore).store.grantInstall "cid" ≠ emptyStore.grantInstall "cid" := by
  decide +kernel

end History

end TinyCloud.Grants
