import TinyCloud.Text.Double

/-!
# A number format

Whole doubles in plain decimal, all others as a whole multiple of `5 ^ 1074` with the exponent
`-1074`. Both are exact, so every double reads back.
-/

namespace TinyCloud.Text

/-- The decimal digits, most significant first. -/
def digitsWithin : ℕ → ℕ → List ℕ
  | 0, _ => []
  | fuel + 1, n => if n < 10 then [n] else digitsWithin fuel (n / 10) ++ [n % 10]

def natText (n : ℕ) : JsString :=
  (digitsWithin (n.log2 + 1) n).map fun d => UInt16.ofNat (48 + d)

def readNat (s : JsString) : ℕ := s.foldl (fun n u => 10 * n + (u.toNat - 48)) 0

/-- What a unit comes to in the last decimal place. -/
def FIVES : ℕ := 5 ^ 1074

def unitExponent : JsString := js "e-1074"

def magnitudeText (n : ℕ) : JsString :=
  if n % UNITS = 0 then natText (n / UNITS) else natText (n * FIVES) ++ unitExponent

def readMagnitude (s : JsString) : Option ℕ :=
  let n := readNat (s.takeWhile isDigit)
  if s.dropWhile isDigit = [] then some (n * UNITS)
  else if s.dropWhile isDigit = unitExponent ∧ n % FIVES = 0 then some (n / FIVES)
  else none

def readUnits : JsString → Option ℤ
  | [] => none
  | u :: s => if u = 45 then (readMagnitude s).map fun n : ℕ => -(n : ℤ)
      else (readMagnitude (u :: s)).map fun n : ℕ => (n : ℤ)

def Double.text (a : Double) : JsString :=
  if a.units < 0 then 45 :: magnitudeText a.units.natAbs else magnitudeText a.units.natAbs

def Double.read (s : JsString) : Option Double :=
  (readUnits s).bind fun n => if h : isDouble n = true then some ⟨n, h⟩ else none

lemma digitsWithin_spec {fuel n : ℕ} (h : n < 10 ^ fuel) :
    (∀ d ∈ digitsWithin fuel n, d < 10) ∧
      (digitsWithin fuel n).foldl (fun m d => 10 * m + d) 0 = n := by
  induction fuel generalizing n with
  | zero =>
    simp only [pow_zero, Nat.lt_one_iff] at h
    simp [digitsWithin, h]
  | succ fuel ih =>
    rw [digitsWithin]
    split_ifs with hn
    · simp [hn]
    · rw [pow_succ] at h
      obtain ⟨h1, h2⟩ := ih (n := n / 10) (by omega)
      constructor
      · intro d hd
        rcases List.mem_append.mp hd with hd | hd
        · exact h1 d hd
        · obtain rfl : d = n % 10 := by simpa using hd
          omega
      · rw [List.foldl_append, h2, List.foldl_cons, List.foldl_nil]
        omega

/-- A decimal starts with a nonzero digit, or is the digit zero. -/
lemma digitsWithin_head {fuel n : ℕ} (h : n < 10 ^ (fuel + 1)) :
    ∃ d rest, digitsWithin (fuel + 1) n = d :: rest ∧ (d = 0 → rest = []) := by
  induction fuel generalizing n with
  | zero =>
    rw [digitsWithin, if_pos (by simpa using h)]
    exact ⟨n, [], rfl, fun _ => rfl⟩
  | succ fuel ih =>
    rw [digitsWithin]
    split_ifs with hn
    · exact ⟨n, [], rfl, fun _ => rfl⟩
    · rw [pow_succ] at h
      obtain ⟨d, rest, hd, hz⟩ := ih (n := n / 10) (by omega)
      refine ⟨d, rest ++ [n % 10], by rw [hd, List.cons_append], fun h0 => ?_⟩
      have hv := (@digitsWithin_spec (fuel + 1) (n / 10) (by omega)).2
      rw [hd, h0, hz h0] at hv
      simp only [List.foldl_cons, List.foldl_nil] at hv
      omega

lemma digits_fuel (n : ℕ) : n < 10 ^ (n.log2 + 1) :=
  Nat.lt_log2_self.trans_le (Nat.pow_le_pow_left (by omega) _)

lemma digit_toNat {d : ℕ} (h : d < 10) : (UInt16.ofNat (48 + d)).toNat = 48 + d :=
  unit_toNat (by omega)

lemma isDigit_natText (n : ℕ) : ∀ u ∈ natText n, isDigit u = true := by
  intro u hu
  obtain ⟨d, hd, rfl⟩ := List.mem_map.mp hu
  have hlt := (digitsWithin_spec (digits_fuel n)).1 d hd
  rw [isDigit, digit_toNat hlt]
  simp only [decide_eq_true_eq]
  omega

lemma readNat_natText (n : ℕ) : readNat (natText n) = n := by
  have hspec := digitsWithin_spec (digits_fuel n)
  rw [readNat, natText, List.foldl_map]
  refine Eq.trans ?_ hspec.2
  refine List.foldl_ext _ _ _ fun m d hd => ?_
  rw [digit_toNat (hspec.1 d hd)]
  omega

lemma takeWhile_natText (n : ℕ) {t : JsString} (ht : t = [] ∨ t = unitExponent) :
    (natText n ++ t).takeWhile isDigit = natText n ∧ (natText n ++ t).dropWhile isDigit = t := by
  have h : t.takeWhile isDigit = [] ∧ t.dropWhile isDigit = t := by
    rcases ht with rfl | rfl
    · exact ⟨rfl, rfl⟩
    · decide
  rw [List.takeWhile_append_of_pos (isDigit_natText n), List.dropWhile_append_of_pos (isDigit_natText n),
    h.1, h.2, List.append_nil]
  exact ⟨rfl, rfl⟩

lemma fives_pos : 0 < FIVES := by
  unfold FIVES
  positivity

lemma readMagnitude_text (n : ℕ) : readMagnitude (magnitudeText n) = some n := by
  unfold magnitudeText
  split_ifs with h
  · obtain ⟨h1, h2⟩ := takeWhile_natText (n / UNITS) (.inl rfl)
    rw [List.append_nil] at h1 h2
    rw [readMagnitude, h1, h2, if_pos rfl, readNat_natText, Nat.div_mul_cancel (Nat.dvd_of_mod_eq_zero h)]
  · obtain ⟨h1, h2⟩ := takeWhile_natText (n * FIVES) (.inr rfl)
    have hne : unitExponent ≠ [] := by decide
    rw [readMagnitude, h1, h2, if_neg hne, readNat_natText,
      if_pos ⟨rfl, Nat.mul_mod_left _ _⟩, Nat.mul_div_cancel _ fives_pos]

lemma magnitudeText_head (n : ℕ) : ∃ u rest, magnitudeText n = u :: rest ∧ u ≠ 45 := by
  have hhead : ∀ m, ∃ u rest, natText m = u :: rest ∧ u ≠ 45 := by
    intro m
    obtain ⟨d, rest, hd, -⟩ := digitsWithin_head (digits_fuel m)
    have hlt := (digitsWithin_spec (digits_fuel m)).1 d (by simp [hd])
    refine ⟨UInt16.ofNat (48 + d), rest.map fun d => UInt16.ofNat (48 + d), by rw [natText, hd]; rfl, ?_⟩
    intro h
    have := congrArg UInt16.toNat h
    rw [digit_toNat hlt] at this
    simp at this
    omega
  unfold magnitudeText
  split_ifs
  · exact hhead _
  · obtain ⟨u, rest, h, hu⟩ := hhead (n * FIVES)
    exact ⟨u, rest ++ unitExponent, by rw [h, List.cons_append], hu⟩

lemma readUnits_text (a : Double) : readUnits a.text = some a.units := by
  obtain ⟨u, rest, h, hu⟩ := magnitudeText_head a.units.natAbs
  unfold Double.text
  split_ifs with hneg
  · rw [readUnits, if_pos rfl, readMagnitude_text, Option.map_some, Option.some.injEq]
    omega
  · rw [h, readUnits, if_neg hu, ← h, readMagnitude_text, Option.map_some, Option.some.injEq]
    omega

theorem read_text (a : Double) : Double.read a.text = some a := by
  rw [Double.read, readUnits_text, Option.bind_some, dif_pos a.finite]

lemma accepts_digits {s t : JsString} (hs : ∀ u ∈ s, isDigit u = true) :
    NumberState.int.accepts (s ++ t) = NumberState.int.accepts t := by
  induction s with
  | nil => rfl
  | cons u s ih =>
    have hstep : NumberState.int.step u = some .int := if_pos (hs u (by simp))
    rw [List.cons_append, NumberState.accepts, hstep]
    exact ih fun v hv => hs v (by simp [hv])

lemma step_digit : ∀ d < 10, 0 < d → NumberState.start.step (UInt16.ofNat (48 + d)) = some .int ∧
    NumberState.minus.step (UInt16.ofNat (48 + d)) = some .int := by
  decide

lemma accepts_natText {q : NumberState} (hq : q = .start ∨ q = .minus) (n : ℕ) {t : JsString}
    (hz : NumberState.zero.accepts t = true) (hi : NumberState.int.accepts t = true) :
    q.accepts (natText n ++ t) = true := by
  obtain ⟨d, rest, hd, h0⟩ := digitsWithin_head (digits_fuel n)
  have hspec := (digitsWithin_spec (digits_fuel n)).1
  have hlt := hspec d (by simp [hd])
  have hrest : ∀ u ∈ rest.map fun d => UInt16.ofNat (48 + d), isDigit u = true := by
    intro u hu
    refine isDigit_natText n u ?_
    rw [natText, hd, List.map_cons]
    exact List.mem_cons_of_mem _ hu
  have hn : natText n = UInt16.ofNat (48 + d) :: rest.map fun d => UInt16.ofNat (48 + d) := by
    rw [natText, hd, List.map_cons]
  rcases Nat.eq_zero_or_pos d with rfl | hpos
  · have hstep : q.step (UInt16.ofNat (48 + 0)) = some .zero := by
      rcases hq with rfl | rfl <;> decide
    rw [hn, h0 rfl, List.map_nil, List.singleton_append, NumberState.accepts, hstep]
    exact hz
  · have hstep : q.step (UInt16.ofNat (48 + d)) = some .int := by
      rcases hq with rfl | rfl
      · exact (step_digit d hlt hpos).1
      · exact (step_digit d hlt hpos).2
    rw [hn, List.cons_append, NumberState.accepts, hstep]
    exact (accepts_digits hrest).trans hi

lemma accepts_magnitude {q : NumberState} (hq : q = .start ∨ q = .minus) (n : ℕ) :
    q.accepts (magnitudeText n) = true := by
  unfold magnitudeText
  split_ifs
  · have h := accepts_natText hq (n / UNITS) (t := []) rfl rfl
    rwa [List.append_nil] at h
  · exact accepts_natText hq (n * FIVES) (by decide) (by decide)

theorem literal_text (a : Double) : isNumberLiteral a.text = true := by
  unfold Double.text
  split_ifs
  · exact accepts_magnitude (.inr rfl) _
  · exact accepts_magnitude (.inl rfl) _

/-- Every double written and read exactly. -/
@[reducible] def exactNumbers : NumberFormat Double where
  text := Double.text
  read := Double.read
  literal_text := literal_text
  read_text := read_text

end TinyCloud.Text
