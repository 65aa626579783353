import TinyCloud.Capability.GrantCoverage
import TinyCloud.Text.Instant
import TinyCloud.Text.SafeInteger

/-! The window that local reads are enforced against: the attested one, bounded by the signed one of the leaf grant. -/

namespace TinyCloud.Authority

open TinyCloud.Text TinyCloud.Text.Dates TinyCloud.Capability

section Grants

/-- A member of a parsed payload. -/
inductive Member
  | missing
  | null
  | number (x : JsNumber)
  | other

/-- The parts of a payload that bear on what a grant may do and when. -/
structure Payload where
  aud : JsString
  att : Attenuation JsNumber
  nbf : Member
  exp : Member

structure ParsedUcanGrant where
  audience : JsString
  att : Attenuation JsNumber
  notBefore : Option Double
  expiresAt : Option Double

inductive Thrown
  | invalid (message : String)
  | audienceMismatch
  | notCovering (ability : JsString)
  | notYetValid (at_ : String)
  | expired (at_ : String)
  | rangeError

def signedTime (name : String) : Member → Except Thrown (Option Double)
  | .missing => .ok none
  | .null => .ok none
  | .number (.finite x) => .ok (some x)
  | _ => .error (.invalid ("The grant's signed " ++ name ++ " is not a number."))

def parseUcanGrant (payload : Payload) : Except Thrown ParsedUcanGrant := do
  if payload.aud = [] then throw (.invalid "The grant has no signed issuer or audience.")
  return ⟨payload.aud, payload.att, ← signedTime "nbf" payload.nbf, ← signedTime "exp" payload.exp⟩

/-- `new Date(seconds * 1000)` -/
def dateOfSeconds (seconds : Double) : Option ℤ := timeClip (JsNumber.scale 1000 (.finite seconds))

/-- `new Date(seconds * 1000).toISOString()` -/
def isoOfSeconds (seconds : Double) : Except Thrown String :=
  match (dateOfSeconds seconds).bind toISOString with
  | some text => .ok text
  | none => .error .rangeError

def principalOf (did : JsString) : JsString := did.takeWhile (· ≠ 35)

structure Device where
  deviceDid : JsString
  space : JsString
  folder : JsString
  now : Double

def assertGrantInstallable (grant : ParsedUcanGrant) (input : Device) : Except Thrown Unit := do
  if principalOf grant.audience ≠ principalOf input.deviceDid then throw .audienceMismatch
  if !grantCovers grant.att input.space input.folder KV_SYNC then throw (.notCovering KV_SYNC)
  if !grantCovers grant.att input.space input.folder KV_GET then throw (.notCovering KV_GET)
  let nowSeconds := JsNumber.over 1000 (.finite input.now)
  match grant.notBefore with
  | some t => if nowSeconds.lt (.finite t) then throw (.notYetValid (← isoOfSeconds t))
  | none => pure ()
  match grant.expiresAt with
  | some t => if (JsNumber.finite t).le nowSeconds then throw (.expired (← isoOfSeconds t))
  | none => pure ()

end Grants

section Authority

structure AuthorityWindow where
  notBefore : Option String
  expiresAt : Option String
  retainUntil : Option String

/-- A window is stored with valid instants only. -/
def AuthorityWindow.valid (w : AuthorityWindow) : Bool :=
  w.notBefore.all isInstant && w.expiresAt.all isInstant && w.retainUntil.all isInstant

inductive AuthorityState
  | valid
  | revoked
  | notYetValid
  | expired
  deriving DecidableEq

inductive LocalReadPolicy
  | whileGrantValid
  | retainAfterExpiry
  deriving DecidableEq

structure EffectiveAuthority where
  state : AuthorityState
  notBefore : Option String
  expiresAt : Option String
  retainUntil : Option String
  retentionRevoked : Bool

/-- `Date.parse(a) <= Date.parse(b)` -/
def parsedLe (a b : String) : Bool := (dateParse a).any fun x => (dateParse b).any (x ≤ ·)

/-- The one of an attested and a signed bound that `first` prefers. -/
def chooseIso (first : String → String → Bool) (a : Option String) (seconds : Option Double) :
    Except Thrown (Option String) :=
  match seconds with
  | none => .ok a
  | some seconds => do
    let b ← isoOfSeconds seconds
    match a with
    | none => return some b
    | some a => return some (if first a b then a else b)

def minIso : Option String → Option Double → Except Thrown (Option String) := chooseIso parsedLe

def maxIso : Option String → Option Double → Except Thrown (Option String) := chooseIso fun a b => parsedLe b a

/-- `now < Date.parse(bound)` -/
def before (now : Double) (bound : String) : Bool := (dateParse bound).any (now.units < · * UNITS)

structure Reading where
  window : Option AuthorityWindow
  grant : Option ParsedUcanGrant
  revoked : Option String
  retentionRevoked : Option String
  policy : LocalReadPolicy
  now : Double

def authorityState (input : Reading) (notBefore expiresAt : Option String) : AuthorityState :=
  if input.revoked.isSome then .revoked
  else if notBefore.any (before input.now) then .notYetValid
  else if expiresAt.any fun bound => (dateParse bound).any (· * UNITS ≤ input.now.units) then .expired
  else .valid

def effectiveAuthority (input : Reading) : Except Thrown EffectiveAuthority := do
  let notBefore ← maxIso (input.window.bind (·.notBefore)) (input.grant.bind (·.notBefore))
  let expiresAt ← minIso (input.window.bind (·.expiresAt)) (input.grant.bind (·.expiresAt))
  return {
    state := authorityState input notBefore expiresAt
    notBefore := notBefore
    expiresAt := expiresAt
    retainUntil := if input.policy = .retainAfterExpiry then input.window.bind (·.retainUntil) else none
    retentionRevoked := input.retentionRevoked.isSome }

end Authority

section Bounds

/-- The time values that bound a window on one side. -/
def bounds (attested : Option String) (signed : Option Double) : List ℤ :=
  (attested.bind dateParse).toList ++ (signed.bind dateOfSeconds).toList

variable {first : String → String → Bool} {bad : ℤ → Bool} {a : Option String} {seconds : Option Double}

lemma isoOfSeconds_of_date {s : Double} {t : ℤ} (h : dateOfSeconds s = some t) :
    ∃ text, isoOfSeconds s = .ok text ∧ dateParse text = some t := by
  obtain ⟨text, htext⟩ := toISOString_timeClip h
  refine ⟨text, ?_, dateParse_toISOString htext⟩
  unfold isoOfSeconds
  rw [h, Option.bind_some, htext]

lemma isoOfSeconds_of_none {s : Double} (h : dateOfSeconds s = none) : isoOfSeconds s = .error .rangeError := by
  unfold isoOfSeconds
  rw [h, Option.bind_none]

/-- The chosen bound is passed exactly when one of the two is. -/
lemma chooseIso_spec
    (hfirst : ∀ a b s t, dateParse a = some s → dateParse b = some t →
      if first a b then bad t = true → bad s = true else bad s = true → bad t = true)
    (ha : a.all isInstant = true) (hs : ∀ s, seconds = some s → (dateOfSeconds s).isSome) :
    ∃ r, chooseIso first a seconds = .ok r ∧ (r.any fun s => (dateParse s).any bad) = (bounds a seconds).any bad := by
  cases seconds with
  | none =>
    refine ⟨a, rfl, ?_⟩
    cases a with
    | none => rfl
    | some a => cases h : dateParse a <;> simp [bounds, h]
  | some seconds =>
    obtain ⟨t, ht⟩ := Option.isSome_iff_exists.mp (hs seconds rfl)
    obtain ⟨b, hb, hparse⟩ := isoOfSeconds_of_date ht
    cases a with
    | none =>
      refine ⟨some b, by simp only [chooseIso, hb]; rfl, ?_⟩
      simp [bounds, hparse, ht]
    | some a =>
      have hinstant : (dateParse a).isSome = true := (Bool.and_eq_true_iff.mp ha).2
      obtain ⟨u, hu⟩ := Option.isSome_iff_exists.mp hinstant
      refine ⟨some (if first a b then a else b), by simp only [chooseIso, hb]; rfl, ?_⟩
      have hstrong := hfirst a b u t hu hparse
      simp only [bounds, Option.bind_some, hu, ht, Option.any_some]
      split
      · rename_i hf
        rw [if_pos hf] at hstrong
        rw [hu]
        cases hbu : bad u <;> cases hbt : bad t <;> simp_all
      · rename_i hf
        rw [if_neg hf] at hstrong
        rw [hparse]
        cases hbu : bad u <;> cases hbt : bad t <;> simp_all

lemma chooseIso_error {s : Double} (h : dateOfSeconds s = none) : chooseIso first a (some s) = .error .rangeError := by
  simp only [chooseIso, isoOfSeconds_of_none h]
  rfl

lemma parsedLe_eq {a b : String} {s t : ℤ} (ha : dateParse a = some s) (hb : dateParse b = some t) :
    parsedLe a b = decide (s ≤ t) := by
  simp [parsedLe, ha, hb]

lemma maxIso_spec (now : Double) (ha : a.all isInstant = true) (hs : ∀ s, seconds = some s → (dateOfSeconds s).isSome) :
    ∃ r, maxIso a seconds = .ok r ∧ r.any (before now) = (bounds a seconds).any fun b => now.units < b * UNITS := by
  apply chooseIso_spec _ ha hs
  intro a b s t hs ht
  have hunits : (0 : ℤ) ≤ UNITS := Int.natCast_nonneg _
  rw [parsedLe_eq ht hs]
  split
  · rename_i hle
    have hmul := Int.mul_le_mul_of_nonneg_right (of_decide_eq_true hle) hunits
    intro h
    exact decide_eq_true (lt_of_lt_of_le (of_decide_eq_true h) hmul)
  · rename_i hle
    have hle : s ≤ t := by
      rw [decide_eq_true_eq] at hle
      omega
    have hmul := Int.mul_le_mul_of_nonneg_right hle hunits
    intro h
    exact decide_eq_true (lt_of_lt_of_le (of_decide_eq_true h) hmul)

lemma minIso_spec (now : Double) (ha : a.all isInstant = true) (hs : ∀ s, seconds = some s → (dateOfSeconds s).isSome) :
    ∃ r, minIso a seconds = .ok r ∧ (r.any fun bound => (dateParse bound).any (· * UNITS ≤ now.units)) =
      (bounds a seconds).any fun b => b * UNITS ≤ now.units := by
  apply chooseIso_spec _ ha hs
  intro a b s t hs ht
  have hunits : (0 : ℤ) ≤ UNITS := Int.natCast_nonneg _
  rw [parsedLe_eq hs ht]
  split
  · rename_i hle
    have hmul := Int.mul_le_mul_of_nonneg_right (of_decide_eq_true hle) hunits
    intro h
    exact decide_eq_true (hmul.trans (of_decide_eq_true h))
  · rename_i hle
    have hle : t ≤ s := by
      rw [decide_eq_true_eq] at hle
      omega
    have hmul := Int.mul_le_mul_of_nonneg_right hle hunits
    intro h
    exact decide_eq_true (hmul.trans (of_decide_eq_true h))

end Bounds

section Evaluation

variable {input : Reading} {grant : ParsedUcanGrant}

/-- A result, which is valid exactly between the bounds and while nothing is revoked. -/
def Evaluates (input : Reading) : Prop :=
  ∃ r, effectiveAuthority input = .ok r ∧ (r.state = .valid ↔ input.revoked = none ∧
    (∀ b ∈ bounds (input.window.bind (·.notBefore)) (input.grant.bind (·.notBefore)), b * UNITS ≤ input.now.units) ∧
    ∀ b ∈ bounds (input.window.bind (·.expiresAt)) (input.grant.bind (·.expiresAt)), input.now.units < b * UNITS)

/-- A signed time is a date: a thousand times it is at most the largest time value. -/
def InDates (seconds : Double) : Prop :=
  ∃ x, JsNumber.scale 1000 (.finite seconds) = .finite x ∧ x.units.natAbs ≤ MAX_TIME * UNITS

lemma inDates_iff (seconds : Double) : InDates seconds ↔ (dateOfSeconds seconds).isSome = true := by
  unfold InDates dateOfSeconds
  cases h : JsNumber.scale 1000 (.finite seconds) with
  | finite x =>
    simp only [JsNumber.finite.injEq, exists_eq_left', timeClip]
    split <;> simp_all only [Option.isSome_some, Option.isSome_none, Bool.false_eq_true]
  | _ => simp only [reduceCtorEq, false_and, exists_false, timeClip, Option.isSome_none, Bool.false_eq_true]

lemma AuthorityWindow.bounds_valid {w : Option AuthorityWindow} (h : w.all AuthorityWindow.valid = true) :
    (w.bind (·.notBefore)).all isInstant = true ∧ (w.bind (·.expiresAt)).all isInstant = true := by
  cases w with
  | none => exact ⟨rfl, rfl⟩
  | some w =>
    simp only [Option.all_some, AuthorityWindow.valid, Bool.and_eq_true] at h
    exact ⟨h.1.1, h.1.2⟩

lemma authorityState_valid {notBefore expiresAt : Option String} :
    authorityState input notBefore expiresAt = .valid ↔ input.revoked = none ∧ notBefore.any (before input.now) = false ∧
      (expiresAt.any fun bound => (dateParse bound).any (· * UNITS ≤ input.now.units)) = false := by
  unfold authorityState
  split_ifs with hr hn he
  · simp only [Option.isSome_iff_ne_none.mp hr, false_and]
  · simp only [hn, Bool.true_eq_false, false_and, and_false]
  · simp only [he, Bool.true_eq_false, and_false]
  · simp only [true_iff]
    exact ⟨Option.not_isSome_iff_eq_none.mp hr, Bool.eq_false_iff.mpr hn, Bool.eq_false_iff.mpr he⟩

lemma effectiveAuthority_far {s : Double} (hnb : input.grant.bind (·.notBefore) = none)
    (hexp : input.grant.bind (·.expiresAt) = some s) (h : dateOfSeconds s = none) :
    effectiveAuthority input = .error .rangeError := by
  unfold effectiveAuthority
  rw [hnb, hexp, minIso, chooseIso_error h]
  rfl

/-- Evaluation succeeds and is right exactly when the signed times are dates. -/
theorem authority_evaluates (payload : Payload) (device : Device) (grant : ParsedUcanGrant)
    (_ : parseUcanGrant payload = .ok grant) (_ : assertGrantInstallable grant device = .ok ()) (input : Reading)
    (hgrant : input.grant = some grant) (hwindow : input.window.all AuthorityWindow.valid = true) :
    Evaluates input ↔ ∀ s, grant.notBefore = some s ∨ grant.expiresAt = some s → InDates s := by
  have hnb : input.grant.bind (·.notBefore) = grant.notBefore := by rw [hgrant]; rfl
  have hexp : input.grant.bind (·.expiresAt) = grant.expiresAt := by rw [hgrant]; rfl
  obtain ⟨hwnb, hwexp⟩ := AuthorityWindow.bounds_valid hwindow
  constructor
  · rintro ⟨r, hr, -⟩ s hs
    by_contra hno
    rw [inDates_iff, Bool.not_eq_true, Option.isSome_eq_false_iff, Option.isNone_iff_eq_none] at hno
    unfold effectiveAuthority at hr
    rw [hnb, hexp] at hr
    rcases hs with hs | hs
    · rw [hs, maxIso, chooseIso_error hno] at hr
      cases hr
    · rw [hs, minIso, chooseIso_error hno] at hr
      cases hm : maxIso (input.window.bind (·.notBefore)) grant.notBefore <;> rw [hm] at hr <;> cases hr
  · intro hdates
    have hdates_nb : ∀ s, grant.notBefore = some s → (dateOfSeconds s).isSome :=
      fun s hs => (inDates_iff s).mp (hdates s (.inl hs))
    have hdates_exp : ∀ s, grant.expiresAt = some s → (dateOfSeconds s).isSome :=
      fun s hs => (inDates_iff s).mp (hdates s (.inr hs))
    obtain ⟨nb, hmax, hnbs⟩ := maxIso_spec input.now hwnb hdates_nb
    obtain ⟨exp, hmin, hexps⟩ := minIso_spec input.now hwexp hdates_exp
    unfold Evaluates effectiveAuthority
    rw [hnb, hexp, hmax, hmin]
    refine ⟨_, rfl, ?_⟩
    change authorityState input nb exp = .valid ↔ _
    rw [authorityState_valid, hnbs, hexps]
    simp only [List.any_eq_false, decide_eq_true_eq, not_lt, not_le]

end Evaluation

section Samples

def sampleAttenuation : Attenuation JsNumber where
  resources := [(js "default/kv/notes/", [(KV_SYNC, ⟨.arr [], .arr (by simp)⟩), (KV_GET, ⟨.arr [], .arr (by simp)⟩)])]
  abilities_nodup := by decide

/-- A grant of one folder that expires this many seconds after the epoch. -/
def samplePayload (seconds : Double) : Payload := ⟨js "did:key:z", sampleAttenuation, .missing, .number (.finite seconds)⟩

def sampleGrant (seconds : Double) : ParsedUcanGrant := ⟨js "did:key:z", sampleAttenuation, none, some seconds⟩

def seconds (m : ℕ) (h : m < 2 ^ 53) : Double := Double.whole m 0 h unshifted

def sampleDevice : Device := ⟨js "did:key:z", js "default", js "notes/", seconds 0 zero_small⟩

def sampleReading (s : Double) : Reading where
  window := none
  grant := some (sampleGrant s)
  revoked := none
  retentionRevoked := none
  policy := .whileGrantValid
  now := seconds 0 zero_small

lemma sample_installable {m : ℕ} {h : m < 2 ^ 53} (hm : (JsNumber.finite (seconds m h)).le
    (JsNumber.over 1000 (.finite (seconds 0 (by decide)))) = false) :
    assertGrantInstallable (sampleGrant (seconds m h)) sampleDevice = .ok () := by
  have hdid : principalOf (sampleGrant (seconds m h)).audience = principalOf sampleDevice.deviceDid := rfl
  have hsync : grantCovers sampleAttenuation (js "default") (js "notes/") KV_SYNC = true := by decide
  have hget : grantCovers sampleAttenuation (js "default") (js "notes/") KV_GET = true := by decide
  unfold assertGrantInstallable
  simp only [sampleGrant, sampleDevice, hsync, hget, hm]
  rfl

lemma sample_parses (s : Double) : parseUcanGrant (samplePayload s) = .ok (sampleGrant s) := rfl

def farSeconds : Double := seconds 10000000000000 (by decide)

/-- A grant that expires a little after the last date is installed and cannot be evaluated. -/
theorem far_expiry_throws :
    parseUcanGrant (samplePayload farSeconds) = .ok (sampleGrant farSeconds) ∧
      assertGrantInstallable (sampleGrant farSeconds) sampleDevice = .ok () ∧
      effectiveAuthority (sampleReading farSeconds) = .error .rangeError :=
  ⟨sample_parses _, sample_installable (by decide +kernel), effectiveAuthority_far rfl rfl (by decide +kernel)⟩

theorem authority_evaluates_sample :
    Evaluates (sampleReading (seconds 2000000000 (by decide))) ↔
      ∀ s, (sampleGrant (seconds 2000000000 (by decide))).notBefore = some s ∨
        (sampleGrant (seconds 2000000000 (by decide))).expiresAt = some s → InDates s :=
  authority_evaluates (samplePayload (seconds 2000000000 (by decide))) sampleDevice _ rfl
    (sample_installable (by decide +kernel)) _ rfl rfl

end Samples

end TinyCloud.Authority
