import Mathlib.Tactic.Ring
import TinyCloud.Text.Double

/-!
# Instants

Time values are milliseconds of the proleptic Gregorian calendar since 1970. `Date.prototype.toISOString` and
`Date.parse` on the date-time strings with a zone.
-/

namespace TinyCloud.Text.Dates

section Calendar

structure CivilDate where
  year : ℤ
  month : ℕ
  day : ℕ
  deriving DecidableEq

/-- Years start in March here, so that the leap day is the last one. -/
def civilOfDays (days : ℤ) : CivilDate :=
  let z := days + 719468
  let era := z / 146097
  let doe := z % 146097
  let century := min (doe / 36524) 3
  let doc := doe - 36524 * century
  let yoc := doc / 1461 * 4 + min (doc % 1461 / 365) 3
  let doy := doc % 1461 - 365 * min (doc % 1461 / 365) 3
  let mp := (5 * doy + 2) / 153
  let month := if mp < 10 then mp + 3 else mp - 9
  ⟨era * 400 + (century * 100 + yoc) + if month ≤ 2 then 1 else 0, month.toNat, (doy - (153 * mp + 2) / 5 + 1).toNat⟩

def daysOfCivil (d : CivilDate) : ℤ :=
  let month : ℤ := d.month
  let y := d.year - if month ≤ 2 then 1 else 0
  let yoe := y % 400
  let mp := if month ≤ 2 then month + 9 else month - 3
  let doy := (153 * mp + 2) / 5 + d.day - 1
  y / 400 * 146097 + (365 * yoe + yoe / 4 - yoe / 100 + doy) - 719468

/-- The years before a day of an era, and the days of its own year. -/
lemma year_of_era {doe : ℤ} (h : 0 ≤ doe) (h' : doe < 146097) :
    ∃ yoe doy : ℤ, 0 ≤ yoe ∧ yoe < 400 ∧ 0 ≤ doy ∧ doy ≤ 365 ∧ 365 * yoe + yoe / 4 - yoe / 100 + doy = doe ∧
      min (doe / 36524) 3 * 100 + ((doe - 36524 * min (doe / 36524) 3) / 1461 * 4 +
        min ((doe - 36524 * min (doe / 36524) 3) % 1461 / 365) 3) = yoe ∧
      (doe - 36524 * min (doe / 36524) 3) % 1461 - 365 * min ((doe - 36524 * min (doe / 36524) 3) % 1461 / 365) 3 = doy := by
  obtain ⟨century, hcentury⟩ : ∃ c, c = min (doe / 36524) 3 := ⟨_, rfl⟩
  have hdoc : 0 ≤ doe - 36524 * century ∧ doe - 36524 * century ≤ 36524 ∧ 0 ≤ century ∧ century ≤ 3 ∧
      (century < 3 → doe - 36524 * century < 36524) := by omega
  rw [← hcentury]
  generalize hd : doe - 36524 * century = doc at *
  obtain ⟨q, hq⟩ : ∃ q, q = doc / 1461 := ⟨_, rfl⟩
  obtain ⟨r, hr⟩ : ∃ r, r = doc % 1461 := ⟨_, rfl⟩
  have hqr : doc = 1461 * q + r ∧ 0 ≤ r ∧ r < 1461 ∧ 0 ≤ q ∧ q ≤ 24 := by omega
  rw [← hq, ← hr]
  obtain ⟨y, hy⟩ : ∃ y, y = min (r / 365) 3 := ⟨_, rfl⟩
  have hyr : 0 ≤ y ∧ y ≤ 3 ∧ 365 * y ≤ r ∧ r ≤ 365 * y + 365 := by omega
  rw [← hy]
  have hfour : (century * 100 + (q * 4 + y)) / 4 = century * 25 + q := by omega
  have hhundred : (century * 100 + (q * 4 + y)) / 100 = century := by omega
  refine ⟨_, _, ?_, ?_, ?_, ?_, ?_, rfl, rfl⟩
  · omega
  · omega
  · omega
  · omega
  · rw [hfour, hhundred]
    omega

lemma month_of_year {doy : ℤ} (h : 0 ≤ doy) (h' : doy ≤ 365) :
    ∃ mp : ℤ, mp = (5 * doy + 2) / 153 ∧ 0 ≤ mp ∧ mp < 12 ∧ 1 ≤ doy - (153 * mp + 2) / 5 + 1 ∧
      doy - (153 * mp + 2) / 5 + 1 ≤ 31 :=
  ⟨_, rfl, by omega, by omega, by omega, by omega⟩

/-- The parts of a date and how they make up its days. -/
lemma civilOfDays_spec (days : ℤ) : ∃ era yoe doy mp : ℤ,
    days = era * 146097 + (365 * yoe + yoe / 4 - yoe / 100 + doy) - 719468 ∧ 0 ≤ yoe ∧ yoe < 400 ∧
    0 ≤ mp ∧ mp < 12 ∧ 1 ≤ doy - (153 * mp + 2) / 5 + 1 ∧ doy - (153 * mp + 2) / 5 + 1 ≤ 31 ∧
    civilOfDays days = ⟨era * 400 + yoe + if (if mp < 10 then mp + 3 else mp - 9) ≤ 2 then 1 else 0,
      (if mp < 10 then mp + 3 else mp - 9).toNat, (doy - (153 * mp + 2) / 5 + 1).toNat⟩ := by
  obtain ⟨yoe, doy, hy, hy', hd, hd', hsum, hyoe, hdoy⟩ :=
    @year_of_era ((days + 719468) % 146097) (Int.emod_nonneg _ (by decide)) (Int.emod_lt_of_pos _ (by decide))
  obtain ⟨mp, hmp, hm, hm', hday, hday'⟩ := month_of_year hd hd'
  refine ⟨(days + 719468) / 146097, yoe, doy, mp, ?_, hy, hy', hm, hm', hday, hday', ?_⟩
  · rw [hsum]
    omega
  · simp only [civilOfDays, hyoe, hdoy, ← hmp]

/-- The days of a date are the ones it was made of. -/
lemma daysOfCivil_civilOfDays (days : ℤ) : daysOfCivil (civilOfDays days) = days := by
  obtain ⟨era, yoe, doy, mp, hdays, hy, hy', hm, hm', hday, hday', hcivil⟩ := civilOfDays_spec days
  rw [hcivil]
  simp only [daysOfCivil]
  have hdayc : ((doy - (153 * mp + 2) / 5 + 1).toNat : ℤ) = doy - (153 * mp + 2) / 5 + 1 := Int.toNat_of_nonneg (by omega)
  have hera : (era * 400 + yoe) / 400 = era := by omega
  have hyoe : (era * 400 + yoe) % 400 = yoe := by omega
  rw [hdayc]
  by_cases hmp : mp < 10
  · have hmonth : ((mp + 3).toNat : ℤ) = mp + 3 := Int.toNat_of_nonneg (by omega)
    rw [if_pos hmp, hmonth, if_neg (by omega), if_neg (by omega), Int.add_zero, Int.sub_zero, hera, hyoe]
    have hback : mp + 3 - 3 = mp := by omega
    rw [hback]
    omega
  · have hmonth : ((mp - 9).toNat : ℤ) = mp - 9 := Int.toNat_of_nonneg (by omega)
    rw [if_neg hmp, hmonth, if_pos (by omega), if_pos (by omega), Int.add_sub_cancel, hera, hyoe]
    have hback : mp - 9 + 9 = mp := by omega
    rw [hback]
    omega

lemma civilOfDays_ranges (days : ℤ) : 1 ≤ (civilOfDays days).month ∧ (civilOfDays days).month ≤ 12 ∧
    1 ≤ (civilOfDays days).day ∧ (civilOfDays days).day ≤ 31 := by
  obtain ⟨era, yoe, doy, mp, -, -, -, hm, hm', hday, hday', hcivil⟩ := civilOfDays_spec days
  rw [hcivil]
  dsimp only
  split <;> omega

lemma civilOfDays_year {days : ℤ} (h : days.natAbs ≤ 100000000) : (civilOfDays days).year.natAbs ≤ 999999 := by
  obtain ⟨era, yoe, doy, mp, hdays, hy, hy', hm, hm', hday, hday', hcivil⟩ := civilOfDays_spec days
  rw [hcivil]
  dsimp only
  have hera : -1000 ≤ era ∧ era ≤ 1000 := by omega
  split_ifs <;> omega

end Calendar

section Digits

def digitsOf : ℕ → ℕ → List Char
  | 0, _ => []
  | w + 1, n => Nat.digitChar (n / 10 ^ w % 10) :: digitsOf w n

/-- Exactly `w` digits, after a number that was read before them. -/
def readDigits : ℕ → ℕ → List Char → Option (ℕ × List Char)
  | 0, n, cs => some (n, cs)
  | w + 1, n, c :: cs => if c.isDigit then readDigits w (10 * n + (c.toNat - 48)) cs else none
  | _ + 1, _, [] => none

def expect (c : Char) : List Char → Option (List Char)
  | [] => none
  | d :: cs => if d = c then some cs else none

lemma digitChar_spec {d : ℕ} (h : d < 10) :
    (Nat.digitChar d).isDigit = true ∧ (Nat.digitChar d).toNat - 48 = d ∧ Nat.digitChar d ≠ '+' ∧ Nat.digitChar d ≠ '-' := by
  have hall : ∀ d : Fin 10, (Nat.digitChar d).isDigit = true ∧ (Nat.digitChar d).toNat - 48 = d ∧
      Nat.digitChar d ≠ '+' ∧ Nat.digitChar d ≠ '-' := by decide
  exact hall ⟨d, h⟩

lemma readDigits_digitsOf (w m n : ℕ) (rest : List Char) :
    readDigits w m (digitsOf w n ++ rest) = some (m * 10 ^ w + n % 10 ^ w, rest) := by
  induction w generalizing m with
  | zero => simp [digitsOf, readDigits, Nat.mod_one]
  | succ w ih =>
    obtain ⟨hdigit, hval, -, -⟩ := @digitChar_spec (n / 10 ^ w % 10) (Nat.mod_lt _ (by decide))
    rw [digitsOf, List.cons_append, readDigits, if_pos hdigit, hval, ih, Nat.mod_pow_succ, pow_succ]
    congr 2
    ring

lemma expect_cons (c : Char) (cs : List Char) : expect c (c :: cs) = some cs := if_pos rfl

end Digits

section Text

/-- The largest time value. -/
def MAX_TIME : ℕ := 8640000000000000

def DAY : ℤ := 86400000

def yearText (y : ℤ) : List Char :=
  if 0 ≤ y ∧ y ≤ 9999 then digitsOf 4 y.toNat else (if y < 0 then '-' else '+') :: digitsOf 6 y.natAbs

def field (c : Char) (n : ℕ) : List Char := c :: digitsOf 2 n

def instantText (t : ℤ) : List Char :=
  let d := civilOfDays (t / DAY)
  let ms := (t % DAY).toNat
  yearText d.year ++ (field '-' d.month ++ (field '-' d.day ++ (field 'T' (ms / 3600000) ++
    (field ':' (ms / 60000 % 60) ++ (field ':' (ms / 1000 % 60) ++ '.' :: (digitsOf 3 (ms % 1000) ++ ['Z']))))))

/-- `toISOString` of a date with this time value; no other number is one. -/
def toISOString (t : ℤ) : Option String :=
  if t.natAbs ≤ MAX_TIME then some (String.ofList (instantText t)) else none

def readYear : List Char → Option (ℤ × List Char)
  | '+' :: cs => (readDigits 6 0 cs).map fun r => (r.1, r.2)
  | '-' :: cs => (readDigits 6 0 cs).bind fun r => if r.1 = 0 then none else some (-r.1, r.2)
  | cs => (readDigits 4 0 cs).map fun r => (r.1, r.2)

def readField (c : Char) (cs : List Char) : Option (ℕ × List Char) := (expect c cs).bind (readDigits 2 0)

/-- The fraction of a second in milliseconds; further digits are dropped. -/
def readFraction : List Char → Option (ℕ × List Char)
  | '.' :: cs =>
    let digits := cs.takeWhile Char.isDigit
    if digits.isEmpty then none
    else (readDigits 3 0 (digits ++ "00".toList)).map fun r => (r.1, cs.dropWhile Char.isDigit)
  | cs => some (0, cs)

/-- The zone in minutes. -/
def readZone : List Char → Option ℤ
  | ['Z'] => some 0
  | '+' :: cs => offset cs
  | '-' :: cs => (offset cs).map (- ·)
  | _ => none
where
  offset (cs : List Char) : Option ℤ := do
    let (hour, cs) ← readDigits 2 0 cs
    let (minute, cs) ← readField ':' cs
    if hour < 24 ∧ minute < 60 ∧ cs.isEmpty then some (60 * hour + minute) else none

/-- `Date.parse` on a date-time with a zone. A day past the end of its month counts on into the next one. -/
def dateParse (s : String) : Option ℤ := do
  let (year, cs) ← readYear s.toList
  let (month, cs) ← readField '-' cs
  let (day, cs) ← readField '-' cs
  let (hour, cs) ← readField 'T' cs
  let (minute, cs) ← readField ':' cs
  let (second, cs) ← readField ':' cs
  let (ms, cs) ← readFraction cs
  let zone ← readZone cs
  let time := 3600000 * hour + 60000 * minute + 1000 * second + ms
  if 1 ≤ month ∧ month ≤ 12 ∧ 1 ≤ day ∧ day ≤ 31 ∧ hour ≤ 24 ∧ minute < 60 ∧ second < 60 ∧ time ≤ 86400000 then
    let t := daysOfCivil ⟨year, month, day⟩ * DAY + time - 60000 * zone
    if t.natAbs ≤ MAX_TIME then some t else none
  else none

lemma readYear_yearText {y : ℤ} (h : y.natAbs ≤ 999999) (rest : List Char) : readYear (yearText y ++ rest) = some (y, rest) := by
  unfold yearText
  split
  · rename_i hy
    obtain ⟨-, -, hplus, hminus⟩ := @digitChar_spec (y.toNat / 10 ^ 3 % 10) (Nat.mod_lt _ (by decide))
    have hread := readDigits_digitsOf 4 0 y.toNat rest
    have hmod : y.toNat % 10 ^ 4 = y.toNat := Nat.mod_eq_of_lt (by omega)
    rw [digitsOf, List.cons_append] at hread ⊢
    unfold readYear
    split
    · rename_i cs hcs
      exact absurd (List.cons.inj hcs).1 hplus
    · rename_i cs hcs
      exact absurd (List.cons.inj hcs).1 hminus
    · rw [hread, Option.map_some, Nat.zero_mul, Nat.zero_add, hmod, Int.toNat_of_nonneg hy.1]
  · have hread := readDigits_digitsOf 6 0 y.natAbs rest
    have hmod : y.natAbs % 10 ^ 6 = y.natAbs := Nat.mod_eq_of_lt (by omega)
    rw [Nat.zero_mul, Nat.zero_add, hmod] at hread
    by_cases hneg : y < 0
    · rw [if_pos hneg, List.cons_append, readYear, hread, Option.bind_some, if_neg (by omega)]
      congr 2
      omega
    · rw [if_neg hneg, List.cons_append, readYear, hread, Option.map_some]
      congr 2
      omega

lemma readField_field {c : Char} {n : ℕ} (h : n < 100) (rest : List Char) :
    readField c (field c n ++ rest) = some (n, rest) := by
  rw [readField, field, List.cons_append, expect_cons, Option.bind_some, readDigits_digitsOf, Nat.zero_mul, Nat.zero_add,
    Nat.mod_eq_of_lt (by omega)]

lemma digitsOf_isDigit (w n : ℕ) : ∀ c ∈ digitsOf w n, c.isDigit = true := by
  induction w with
  | zero => nofun
  | succ w ih =>
    intro c hc
    rcases List.mem_cons.mp hc with rfl | hc
    · exact (digitChar_spec (Nat.mod_lt _ (by decide))).1
    · exact ih c hc

lemma readFraction_digitsOf {n : ℕ} (h : n < 1000) :
    readFraction ('.' :: (digitsOf 3 n ++ ['Z'])) = some (n, ['Z']) := by
  have htake : (digitsOf 3 n ++ ['Z']).takeWhile Char.isDigit = digitsOf 3 n := by
    rw [List.takeWhile_append_of_pos (digitsOf_isDigit 3 n)]
    exact List.append_nil _
  have hdrop : (digitsOf 3 n ++ ['Z']).dropWhile Char.isDigit = ['Z'] := by
    rw [List.dropWhile_append_of_pos (digitsOf_isDigit 3 n)]
    rfl
  simp only [readFraction, htake, hdrop]
  rw [readDigits_digitsOf, Nat.zero_mul, Nat.zero_add, Nat.mod_eq_of_lt (by omega)]
  rfl

/-- What `toISOString` writes reads back. -/
theorem dateParse_toISOString {t : ℤ} {s : String} (h : toISOString t = some s) : dateParse s = some t := by
  unfold toISOString at h
  split at h
  swap
  · cases h
  rename_i hmax
  cases h
  obtain ⟨ms, hms⟩ : ∃ ms, ms = (t % DAY).toNat := ⟨_, rfl⟩
  obtain ⟨d, hd⟩ : ∃ d, d = civilOfDays (t / DAY) := ⟨_, rfl⟩
  have hrange : ms < 86400000 ∧ t = t / DAY * DAY + ms ∧ (t / DAY).natAbs ≤ 100000000 := by
    unfold DAY MAX_TIME at *
    omega
  obtain ⟨hlt, hsum, hdays⟩ := hrange
  obtain ⟨hm, hm', hday, hday'⟩ := civilOfDays_ranges (t / DAY)
  have hyear := civilOfDays_year hdays
  have hback := daysOfCivil_civilOfDays (t / DAY)
  rw [← hd] at hm hm' hday hday' hyear hback
  have htime : 3600000 * (ms / 3600000) + 60000 * (ms / 60000 % 60) + 1000 * (ms / 1000 % 60) + ms % 1000 = ms := by omega
  have hmonth := fun rest => @readField_field '-' d.month (by omega) rest
  have hdate := fun rest => @readField_field '-' d.day (by omega) rest
  have hhour := fun rest => @readField_field 'T' (ms / 3600000) (by omega) rest
  have hminute := fun rest => @readField_field ':' (ms / 60000 % 60) (by omega) rest
  have hsecond := fun rest => @readField_field ':' (ms / 1000 % 60) (by omega) rest
  have hfraction := @readFraction_digitsOf (ms % 1000) (by omega)
  unfold dateParse instantText
  rw [String.toList_ofList, ← hd, ← hms]
  simp only [readYear_yearText hyear, hmonth, hdate, hhour, hminute, hsecond, hfraction, Option.bind_eq_bind,
    Option.bind_some, readZone, htime, hback]
  rw [if_pos ⟨hm, hm', hday, hday', by omega, by omega, by omega, by omega⟩]
  have hzone : t / DAY * DAY + (ms : ℤ) - 60000 * 0 = t := by omega
  rw [hzone, if_pos hmax]

end Text

section Numbers

/-- The time value of `new Date(x)`. -/
def timeClip : JsNumber → Option ℤ
  | .finite a => if a.units.natAbs ≤ MAX_TIME * UNITS then some (a.units.tdiv UNITS) else none
  | _ => none

/-- A time value of a date has an ISO text. -/
lemma toISOString_timeClip {x : JsNumber} {t : ℤ} (h : timeClip x = some t) : ∃ s, toISOString t = some s := by
  cases x with
  | finite a =>
    simp only [timeClip, Option.ite_none_right_eq_some, Option.some.injEq] at h
    obtain ⟨hmax, rfl⟩ := h
    refine ⟨_, if_pos ?_⟩
    rw [Int.natAbs_tdiv, Int.natAbs_natCast]
    exact Nat.div_le_of_le_mul (by rw [Nat.mul_comm]; exact hmax)
  | _ => cases h

/-- The dates of RFC 3339, whose years have four digits. -/
def isInstant (s : String) : Bool := (s.toList.take 4).all Char.isDigit && (dateParse s).isSome

end Numbers

end TinyCloud.Text.Dates
