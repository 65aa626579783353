import TinyCloud.Text.Json
import Mathlib.Algebra.Order.Group.Unbundled.Int
import Mathlib.Algebra.Order.Ring.Abs
import Mathlib.Data.Nat.Log

/-!
# Double-precision numbers

A finite double is a whole number of units of `2 ^ -1074` whose magnitude has at most 53 significant
bits. Sums are rounded to the nearest double, ties to the even one; minus zero is zero here.
-/

namespace TinyCloud.Text

/-- Units in one. -/
def UNITS : ℕ := 2 ^ 1074

/-- Bits of the largest magnitude, in units. -/
def WIDTH : ℕ := 2098

/-- Position of the last of the 53 significant bits. -/
def lastBit (n : ℕ) : ℕ := n.log2 - 52

def isDouble (n : ℤ) : Bool :=
  decide (n.natAbs < 2 ^ WIDTH) && decide (n.natAbs % 2 ^ lastBit n.natAbs = 0)

structure Double where
  units : ℤ
  finite : isDouble units = true
  deriving DecidableEq

inductive JsNumber where
  | nan
  | negInfinity
  | finite (a : Double)
  | infinity
  deriving DecidableEq

def roundNat (n : ℕ) : ℕ :=
  let step := 2 ^ lastBit n
  let rest := n % step
  if step < 2 * rest ∨ (2 * rest = step ∧ n / step % 2 = 1) then (n / step + 1) * step
  else n / step * step

/-- The double nearest to a number of units. -/
def JsNumber.round (n : ℤ) : JsNumber :=
  let nearest := n.sign * roundNat n.natAbs
  if h : isDouble nearest = true then .finite ⟨nearest, h⟩
  else if n < 0 then .negInfinity else .infinity

def Double.plusOne (a : Double) : JsNumber := .round (a.units + UNITS)
def Double.minusOne (a : Double) : JsNumber := .round (a.units - UNITS)

/-- `Number.isInteger` -/
def Double.isInteger (a : Double) : Bool := decide (a.units % UNITS = 0)

/-- `a <= b` -/
def JsNumber.le : JsNumber → JsNumber → Bool
  | .nan, _ => false
  | _, .nan => false
  | .negInfinity, _ => true
  | _, .infinity => true
  | .finite a, .finite b => decide (a.units ≤ b.units)
  | _, _ => false

/-- `Math.max` -/
def JsNumber.max (a b : JsNumber) : JsNumber :=
  if a = .nan ∨ b = .nan then .nan else if a.le b then b else a

/-- `Math.min` -/
def JsNumber.min (a b : JsNumber) : JsNumber :=
  if a = .nan ∨ b = .nan then .nan else if a.le b then a else b

/-- A finite maximum bounds both. -/
lemma JsNumber.finite_of_max {a b : JsNumber} {c : Double} (h : a.max b = .finite c) :
    (∀ d, a = .finite d → d.units ≤ c.units) ∧ ∀ d, b = .finite d → d.units ≤ c.units := by
  unfold JsNumber.max at h
  split_ifs at h with h1 h2
  · subst h
    refine ⟨?_, fun d hd => by cases hd; rfl⟩
    rintro d rfl
    simpa [JsNumber.le] using h2
  · subst h
    refine ⟨fun d hd => by cases hd; rfl, ?_⟩
    rintro d rfl
    simp only [JsNumber.le, decide_eq_true_eq] at h2
    omega

/-- A finite minimum is bounded by both. -/
lemma JsNumber.finite_of_min {a b : JsNumber} {c : Double} (h : a.min b = .finite c) :
    (∀ d, a = .finite d → c.units ≤ d.units) ∧ ∀ d, b = .finite d → c.units ≤ d.units := by
  unfold JsNumber.min at h
  split_ifs at h with h1 h2
  · subst h
    refine ⟨fun d hd => by cases hd; rfl, ?_⟩
    rintro d rfl
    simpa [JsNumber.le] using h2
  · subst h
    refine ⟨?_, fun d hd => by cases hd; rfl⟩
    rintro d rfl
    simp only [JsNumber.le, decide_eq_true_eq] at h2
    omega

lemma roundNat_of_exact {n : ℕ} (h : n % 2 ^ lastBit n = 0) : roundNat n = n := by
  have hpos : 0 < 2 ^ lastBit n := Nat.two_pow_pos _
  have hdiv := Nat.div_mul_cancel (Nat.dvd_of_mod_eq_zero h)
  simp only [roundNat, h, Nat.mul_zero]
  rw [if_neg (by omega), hdiv]

/-- What needs no rounding is not rounded. -/
lemma round_of_isDouble {n : ℤ} (h : isDouble n = true) : JsNumber.round n = .finite ⟨n, h⟩ := by
  have he : n.sign * roundNat n.natAbs = n := by
    simp only [isDouble, Bool.and_eq_true, decide_eq_true_eq] at h
    rw [roundNat_of_exact h.2, Int.sign_mul_natAbs]
  unfold JsNumber.round
  simp only [he]
  rw [dif_pos h]

lemma isDouble_scaled {n : ℤ} {m w e : ℕ} (hn : n.natAbs = m * 2 ^ e) (h : m < 2 ^ w) (hw : w ≤ 53)
    (he : w + e ≤ WIDTH) : isDouble n = true := by
  simp only [isDouble, hn, Bool.and_eq_true, decide_eq_true_eq]
  have hlt : m * 2 ^ e < 2 ^ (w + e) := by
    rw [pow_add]
    exact Nat.mul_lt_mul_of_pos_right h (Nat.two_pow_pos e)
  refine ⟨hlt.trans_le (Nat.pow_le_pow_right (by omega) he), ?_⟩
  rcases Nat.eq_zero_or_pos m with rfl | hm
  · simp
  have hlog : (m * 2 ^ e).log2 < w + e := (Nat.log2_lt (by positivity)).mpr hlt
  exact Nat.mod_eq_zero_of_dvd (Dvd.dvd.mul_left (pow_dvd_pow 2 (by unfold lastBit; omega)) m)

/-- `m * 2 ^ e` -/
def Double.whole (m e : ℕ) (h : m < 2 ^ 53) (he : e ≤ 900) : Double where
  units := (m * 2 ^ (e + 1074) : ℕ)
  finite := isDouble_scaled (Int.natAbs_natCast _) h le_rfl (by unfold WIDTH; omega)

lemma zero_small : 0 < 2 ^ 53 := by decide

lemma one_small : 1 < 2 ^ 53 := by decide

lemma two_small : 2 < 2 ^ 53 := by decide

lemma thirty_small : 30 < 2 ^ 53 := by decide

lemma unshifted : 0 ≤ 900 := Nat.zero_le _

/-- A whole number that is a safe integer together with its neighbours. -/
def Double.IsSafe (a : Double) : Prop := ∃ k : ℤ, a.units = k * UNITS ∧ k.natAbs + 1 < 2 ^ 53

lemma round_of_safe {k : ℤ} (h : k.natAbs < 2 ^ 53) :
    ∃ b : Double, JsNumber.round (k * UNITS) = .finite b ∧ b.units = k * UNITS := by
  have hunits : (k * (UNITS : ℤ)).natAbs = k.natAbs * 2 ^ 1074 := by
    rw [Int.natAbs_mul, Int.natAbs_natCast, UNITS]
  have hd := isDouble_scaled hunits h le_rfl (by decide)
  exact ⟨_, round_of_isDouble hd, rfl⟩

lemma Double.plusOne_of_safe {a : Double} (h : a.IsSafe) :
    ∃ b : Double, a.plusOne = .finite b ∧ b.units = a.units + UNITS := by
  obtain ⟨k, hk, hlt⟩ := h
  obtain ⟨b, hb, hu⟩ := @round_of_safe (k + 1) (by omega)
  rw [Int.add_mul, one_mul, ← hk] at hb hu
  exact ⟨b, hb, hu⟩

lemma Double.minusOne_of_safe {a : Double} (h : a.IsSafe) :
    ∃ b : Double, a.minusOne = .finite b ∧ b.units = a.units - UNITS := by
  obtain ⟨k, hk, hlt⟩ := h
  obtain ⟨b, hb, hu⟩ := @round_of_safe (k - 1) (by omega)
  rw [Int.sub_mul, one_mul, ← hk] at hb hu
  exact ⟨b, hb, hu⟩

lemma units_pos : 0 < UNITS := by
  unfold UNITS
  positivity

end TinyCloud.Text
