import TinyCloud.Text.Double

/-! Safe integers among the JavaScript numbers, and the sums and minima that stay exact on them. -/

namespace TinyCloud.Text

/-- `a < b` -/
def JsNumber.lt : JsNumber → JsNumber → Bool
  | .nan, _ => false
  | _, .nan => false
  | a, b => !b.le a

/-- `a + b` -/
def JsNumber.add : JsNumber → JsNumber → JsNumber
  | .nan, _ => .nan
  | _, .nan => .nan
  | .infinity, .negInfinity => .nan
  | .negInfinity, .infinity => .nan
  | .infinity, _ => .infinity
  | _, .infinity => .infinity
  | .negInfinity, _ => .negInfinity
  | _, .negInfinity => .negInfinity
  | .finite a, .finite b => .round (a.units + b.units)

/-- `a * k` -/
def JsNumber.scale (k : ℕ) : JsNumber → JsNumber
  | .finite a => .round (a.units * k)
  | a => a

/-- The double nearest to `n / k`, in units. -/
def roundRatio (n k : ℕ) : ℕ :=
  let unit := 2 ^ lastBit (n / k)
  let step := k * unit
  let rest := n % step
  if step < 2 * rest ∨ (2 * rest = step ∧ n / step % 2 = 1) then (n / step + 1) * unit else n / step * unit

/-- `a / k` -/
def JsNumber.over (k : ℕ) : JsNumber → JsNumber
  | .finite a =>
    let nearest := a.units.sign * roundRatio a.units.natAbs k
    if h : isDouble nearest = true then .finite ⟨nearest, h⟩ else if a.units < 0 then .negInfinity else .infinity
  | a => a

/-- A safe integer that is not negative. -/
structure SafeNat where
  val : ℕ
  safe : val < 2 ^ 53
  deriving DecidableEq

namespace SafeNat

def toDouble (n : SafeNat) : Double where
  units := n.val * UNITS
  finite := isDouble_scaled (by rw [Int.natAbs_mul, Int.natAbs_natCast, Int.natAbs_natCast, UNITS]) n.safe le_rfl (by decide)

def toNumber (n : SafeNat) : JsNumber := .finite n.toDouble

end SafeNat

/-- `Number.isSafeInteger(a) && a >= 0` -/
def JsNumber.toSafeNat : JsNumber → Option SafeNat
  | .finite a =>
    if h : a.units % UNITS = 0 ∧ 0 ≤ a.units ∧ (a.units / UNITS).toNat < 2 ^ 53 then some ⟨(a.units / UNITS).toNat, h.2.2⟩
    else none
  | _ => none

section Safe

variable {a b : JsNumber} {m n : SafeNat}

@[simp] lemma toSafeNat_toNumber (n : SafeNat) : n.toNumber.toSafeNat = some n := by
  have hpos : (UNITS : ℤ) ≠ 0 := Int.natCast_ne_zero.mpr units_pos.ne'
  have hdiv : ((n.val : ℤ) * UNITS / UNITS).toNat = n.val := by
    rw [Int.mul_ediv_cancel _ hpos, Int.toNat_natCast]
  simp only [SafeNat.toNumber, JsNumber.toSafeNat, SafeNat.toDouble]
  have hsafe : ((n.val : ℤ) * UNITS / UNITS).toNat < 2 ^ 53 := by
    rw [hdiv]
    exact n.safe
  rw [dif_pos ⟨Int.mul_emod_left _ _, Int.mul_nonneg (Int.natCast_nonneg _) (Int.natCast_nonneg _), hsafe⟩]
  simp only [hdiv]

lemma eq_of_toSafeNat (h : a.toSafeNat = some n) : a = n.toNumber := by
  cases a with
  | finite a =>
    simp only [JsNumber.toSafeNat, Option.dite_none_right_eq_some, Option.some.injEq] at h
    obtain ⟨⟨hmod, hpos, -⟩, rfl⟩ := h
    have hdiv : 0 ≤ a.units / (UNITS : ℤ) := Int.ediv_nonneg hpos (Int.natCast_nonneg _)
    have hunits : a.units = ((a.units / (UNITS : ℤ)).toNat : ℤ) * UNITS := by
      rw [Int.toNat_of_nonneg hdiv, Int.ediv_mul_cancel (Int.dvd_of_emod_eq_zero hmod)]
    obtain ⟨units, finite⟩ := a
    simp only [SafeNat.toNumber, SafeNat.toDouble, JsNumber.finite.injEq, Double.mk.injEq]
    exact hunits
  | _ => cases h

lemma le_toNumber : m.toNumber.le n.toNumber = true ↔ m.val ≤ n.val := by
  have hpos : (0 : ℤ) < UNITS := Int.natCast_pos.mpr units_pos
  simp only [SafeNat.toNumber, JsNumber.le, SafeNat.toDouble, decide_eq_true_eq]
  rw [Int.mul_le_mul_right hpos, Int.ofNat_le]

lemma lt_toNumber : m.toNumber.lt n.toNumber = true ↔ m.val < n.val := by
  have h : m.toNumber.lt n.toNumber = !n.toNumber.le m.toNumber := by
    simp only [SafeNat.toNumber, JsNumber.lt, JsNumber.le, ← decide_not, not_le]
  rw [h, Bool.not_eq_true', ← Bool.not_eq_true, le_toNumber, not_le]

lemma toNumber_ne_nan : n.toNumber ≠ .nan := nofun

@[simp] lemma toNumber_le_self (n : SafeNat) : n.toNumber.le n.toNumber = true := le_toNumber.mpr le_rfl

lemma JsNumber.le_trans {c : JsNumber} (h : a.le b = true) (h' : b.le c = true) : a.le c = true := by
  cases a <;> cases b <;> cases c <;> simp_all [JsNumber.le]
  omega

lemma JsNumber.le_total (ha : a ≠ .nan) (hb : b ≠ .nan) : a.le b = true ∨ b.le a = true := by
  cases a <;> cases b <;> simp_all [JsNumber.le]
  omega

lemma JsNumber.le_refl (ha : a ≠ .nan) : a.le a = true := by
  cases a <;> simp_all [JsNumber.le]

lemma JsNumber.ne_nan_of_le (h : a.le b = true) : a ≠ .nan ∧ b ≠ .nan := by
  cases a <;> cases b <;> simp_all [JsNumber.le]

/-- A minimum is one of the two numbers and bounds both. -/
lemma JsNumber.min_spec (h : a.min b ≠ .nan) :
    (a.min b).le a = true ∧ (a.min b).le b = true ∧ (a.min b = a ∨ a.min b = b) := by
  have hnan : ¬ (a = .nan ∨ b = .nan) := fun hn => h (if_pos hn)
  unfold JsNumber.min
  rw [if_neg hnan]
  rw [not_or] at hnan
  split
  · rename_i hle
    exact ⟨JsNumber.le_refl hnan.1, hle, .inl rfl⟩
  · rename_i hle
    exact ⟨(JsNumber.le_total hnan.1 hnan.2).resolve_left hle, JsNumber.le_refl hnan.2, .inr rfl⟩

lemma JsNumber.le_of_lt (h : a.lt b = true) : a.le b = true := by
  cases a <;> cases b <;> simp_all [JsNumber.lt, JsNumber.le]
  omega

end Safe

section Sums

variable {m n k : SafeNat}

/-- What is at least `2 ^ w` stays so when it is rounded. -/
lemma roundNat_ge {w x : ℕ} (h : 2 ^ w ≤ x) : 2 ^ w ≤ roundNat x := by
  have hx : x ≠ 0 := by
    have := Nat.two_pow_pos w
    omega
  have hlog : 2 ^ x.log2 ≤ x := Nat.log2_self_le hx
  have hw : w ≤ x.log2 := (Nat.le_log2 hx).mpr h
  have hfloor : 2 ^ x.log2 ≤ x / 2 ^ lastBit x * 2 ^ lastBit x := by
    have hsplit : 2 ^ x.log2 = 2 ^ (x.log2 - lastBit x) * 2 ^ lastBit x := by
      rw [← pow_add]
      congr 1
      unfold lastBit
      omega
    rw [hsplit]
    apply Nat.mul_le_mul_right
    rw [Nat.le_div_iff_mul_le (Nat.two_pow_pos _), ← hsplit]
    exact hlog
  have hround : x / 2 ^ lastBit x * 2 ^ lastBit x ≤ roundNat x := by
    unfold roundNat
    simp only
    split
    · exact Nat.mul_le_mul_right _ (Nat.le_succ _)
    · exact le_rfl
  exact (Nat.pow_le_pow_right (by omega) hw).trans (hfloor.trans hround)

lemma round_natCast (x : ℕ) :
    JsNumber.round x = if h : isDouble (roundNat x) = true then .finite ⟨roundNat x, h⟩ else .infinity := by
  have hnearest : ((x : ℤ).sign * roundNat (x : ℤ).natAbs : ℤ) = roundNat x := by
    rcases Nat.eq_zero_or_pos x with rfl | hx
    · simp [roundNat]
    · rw [Int.sign_natCast_of_ne_zero hx.ne', Int.one_mul, Int.natAbs_natCast]
  have hpos : ¬ (x : ℤ) < 0 := by omega
  simp only [JsNumber.round, hnearest, if_neg hpos]

lemma roundNat_of_isDouble {x : ℕ} (h : isDouble x = true) : roundNat x = x := by
  simp only [isDouble, Bool.and_eq_true, decide_eq_true_eq, Int.natAbs_natCast] at h
  exact roundNat_of_exact h.2

lemma roundNat_small {x : ℕ} (h : x < 2 ^ 53) : roundNat (x * UNITS) = x * UNITS := by
  apply roundNat_of_isDouble
  rw [Int.natCast_mul]
  exact (SafeNat.toDouble ⟨x, h⟩).finite

lemma roundNat_large {x : ℕ} (h : 2 ^ 53 ≤ x) : 2 ^ 53 * UNITS ≤ roundNat (x * UNITS) := by
  have hunits : UNITS = 2 ^ 1074 := rfl
  rw [hunits, ← pow_add]
  apply roundNat_ge
  rw [pow_add]
  exact Nat.mul_le_mul_right _ h

lemma add_toNumber (m n : SafeNat) :
    m.toNumber.add n.toNumber = JsNumber.round (((m.val + n.val) * UNITS : ℕ) : ℤ) := by
  simp only [SafeNat.toNumber, JsNumber.add, SafeNat.toDouble]
  rw [← Int.add_mul, ← Int.natCast_add, ← Int.natCast_mul]

/-- A sum that is a safe integer is exact. -/
lemma add_eq_toNumber (h : m.toNumber.add n.toNumber = k.toNumber) : k.val = m.val + n.val := by
  rw [add_toNumber, round_natCast] at h
  split_ifs at h with hd
  swap
  · cases h
  simp only [SafeNat.toNumber, SafeNat.toDouble, JsNumber.finite.injEq, Double.mk.injEq] at h
  rw [← Int.natCast_mul, Int.natCast_inj] at h
  rcases Nat.lt_or_ge (m.val + n.val) (2 ^ 53) with hsmall | hlarge
  · rw [roundNat_small hsmall] at h
    exact (Nat.eq_of_mul_eq_mul_right units_pos h).symm
  · have hge := roundNat_large hlarge
    rw [h] at hge
    exact absurd k.safe (not_lt.mpr (Nat.le_of_mul_le_mul_right hge units_pos))

/-- What a rounded sum bounds, the sum bounds. -/
lemma le_of_le_add (h : k.toNumber.le (m.toNumber.add n.toNumber) = true) : k.val ≤ m.val + n.val := by
  rcases Nat.lt_or_ge (m.val + n.val) (2 ^ 53) with hsmall | hlarge
  · have hsum : m.toNumber.add n.toNumber = SafeNat.toNumber ⟨m.val + n.val, hsmall⟩ := by
      have hd := (SafeNat.toDouble ⟨m.val + n.val, hsmall⟩).finite
      rw [add_toNumber, Int.natCast_mul]
      exact round_of_isDouble hd
    rw [hsum] at h
    exact le_toNumber.mp h
  · exact k.safe.le.trans hlarge

end Sums

end TinyCloud.Text
