import Mathlib.Algebra.Order.Round
import SerialPort.Proofs.Divisor

namespace SerialPort.Baud

theorem tdiv_sub_le {x y k : ℤ} (hk : 0 ≤ k) (h : x - 1024 * k ≤ y) :
    x.tdiv 1024 - k ≤ y.tdiv 1024 := by
  rw [tdiv_eq, tdiv_eq]
  split <;> split <;> omega

theorem adjusted_le_adjusted {n m : ℤ} (h : n ≤ m) (t : Int8) :
    adjusted n t.toInt ≤ adjusted m t.toInt := by
  have hk : 0 ≤ m - n := by omega
  have hx := (mul_trim_near hk t).1
  rw [sub_mul] at hx
  have hd := tdiv_sub_le hk (x := n * t.toInt) (y := m * t.toInt) (by omega)
  unfold adjusted
  omega

theorem adjusted_le_of_trim_le {n : ℤ} (hn : 0 ≤ n) {t u : ℤ} (h : t ≤ u) :
    adjusted n t ≤ adjusted n u := by
  have hd := Int.tdiv_le_tdiv (by decide : (0 : ℤ) < 1024) (mul_le_mul_of_nonneg_left h hn)
  unfold adjusted
  omega

variable {clockHz clockHz' baud baud' : UInt32} {trim trim' : Int8}

theorem nominal_le_of_baud_le (hb : 0 < baud) (h : baud ≤ baud') :
    (nominal clockHz baud').toNat ≤ (nominal clockHz baud).toNat := by
  rw [toNat_nominal, toNat_nominal]
  have hq : 8 * clockHz.toNat / baud'.toNat ≤ 8 * clockHz.toNat / baud.toNat :=
    Nat.div_le_div_left (UInt32.le_iff_toNat_le.1 h) (UInt32.lt_iff_toNat_lt.1 hb)
  omega

theorem nominal_le_of_clock_le (h : clockHz ≤ clockHz') :
    (nominal clockHz baud).toNat ≤ (nominal clockHz' baud).toNat := by
  rw [toNat_nominal, toNat_nominal]
  have hc := UInt32.le_iff_toNat_le.1 h
  have hq : 8 * clockHz.toNat / baud.toNat ≤ 8 * clockHz'.toNat / baud.toNat :=
    Nat.div_le_div_right (by omega)
  omega

theorem ideal_le_of_nominal_le (h : (nominal clockHz baud).toNat ≤ (nominal clockHz' baud').toNat) :
    ideal clockHz baud trim ≤ ideal clockHz' baud' trim := by
  rw [Int64.le_iff_toInt_le, (exact_words clockHz baud trim).sum,
    (exact_words clockHz' baud' trim).sum]
  exact adjusted_le_adjusted (Int.ofNat_le.2 h) trim

theorem ideal_le_of_trim_le (h : trim ≤ trim') :
    ideal clockHz baud trim ≤ ideal clockHz baud trim' := by
  rw [Int64.le_iff_toInt_le, (exact_words clockHz baud trim).sum,
    (exact_words clockHz baud trim').sum]
  exact adjusted_le_of_trim_le (Int.natCast_nonneg _) (Int8.le_iff_toInt_le.1 h)

/-- The baud rate can be had from the clock. -/
def Accepts (clockHz baud : UInt32) (trim : Int8) : Prop := ∃ d, divisor clockHz baud trim = .ok d

theorem accepts_iff :
    Accepts clockHz baud trim ↔ 0 < baud ∧ InRange (ideal clockHz baud trim) := by
  by_cases hb : baud = 0
  · subst hb
    constructor
    · rintro ⟨d, hd⟩
      cases hd
    · rintro ⟨hlt, _⟩
      exact absurd hlt (by decide)
  have hpos : 0 < baud := UInt32.pos_iff_ne_zero.2 hb
  by_cases hr : InRange (ideal clockHz baud trim)
  · obtain ⟨d, hd, _⟩ := divisor_of_inRange hb hr
    exact ⟨fun _ => ⟨hpos, hr⟩, fun _ => ⟨d, hd⟩⟩
  · constructor
    · rintro ⟨d, hd⟩
      rw [divisor_of_not_inRange hb hr] at hd
      cases hd
    · exact fun h => absurd h.2 hr

theorem inRange_of_between {a b c : Int64} (hab : a ≤ b) (hbc : b ≤ c) (ha : InRange a)
    (hc : InRange c) : InRange b := by
  rw [Int64.le_iff_toInt_le] at hab hbc
  rw [inRange_iff] at *
  omega

/-- Two roundings: the quotient's costs a half of the corrected unit, the correction's less than
one. -/
theorem abs_adjusted_sub_lt (x : ℚ) {t : ℤ} (ht : -1024 ≤ t) :
    |(adjusted ⌊x + 1 / 2⌋ t : ℚ) - x * (1 + t / 1024)| < 1 + (1024 + t) / 2048 := by
  have hx := abs_sub_round x
  rw [round_eq] at hx
  generalize ⌊x + 1 / 2⌋ = n at hx ⊢
  have ht' : (0 : ℚ) ≤ 1 + t / 1024 := by
    have : (-1024 : ℚ) ≤ t := by exact_mod_cast ht
    linarith
  obtain ⟨hl, hu⟩ := tdiv_near (n * t)
  have hd : |((n * t).tdiv 1024 : ℚ) - n * t / 1024| < 1 := by
    have hl' : (n * t - 1024 : ℚ) < 1024 * (n * t).tdiv 1024 := by exact_mod_cast hl
    have hu' : (1024 * (n * t).tdiv 1024 : ℚ) < n * t + 1024 := by exact_mod_cast hu
    rw [abs_lt]
    constructor <;> linarith
  have hsplit : (adjusted n t : ℚ) - x * (1 + t / 1024) =
      ((n * t).tdiv 1024 - n * t / 1024) + (n - x) * (1 + t / 1024) := by
    unfold adjusted
    push_cast
    ring
  rw [abs_sub_comm] at hx
  calc |(adjusted n t : ℚ) - x * (1 + t / 1024)|
      ≤ |((n * t).tdiv 1024 : ℚ) - n * t / 1024| + |(n - x) * (1 + t / 1024)| := by
        rw [hsplit]
        exact abs_add_le _ _
    _ < 1 + 1 / 2 * (1 + t / 1024) := by
        rw [abs_mul, abs_of_nonneg ht']
        exact add_lt_add_of_lt_of_le hd (mul_le_mul_of_nonneg_right hx ht')
    _ = 1 + (1024 + t) / 2048 := by ring

theorem abs_divisor_sub_lt {d : UInt16} (h : divisor clockHz baud trim = .ok d) :
    |(d.toNat : ℚ) - 4 * clockHz.toNat / baud.toNat * (1 + trim.toInt / 1024)| <
      1 + (1024 + trim.toInt) / 2048 := by
  obtain ⟨hpos, hr⟩ := accepts_iff.1 ⟨d, h⟩
  have hb : baud ≠ 0 := UInt32.pos_iff_ne_zero.1 hpos
  obtain ⟨e, he, hd⟩ := divisor_of_inRange hb hr
  rw [h] at he
  cases he
  rw [toInt_ideal hb] at hd
  have hd' : (d.toNat : ℚ) = exactDivisor clockHz baud trim := by exact_mod_cast hd
  rw [hd']
  obtain ⟨hl, _⟩ := trim_near trim
  exact abs_adjusted_sub_lt _ (by omega)

/-- The divisor before its range is tested falls with the baud rate and rises with the clock and the
calibration, so the baud rates that a clock gives, and the clocks that give a baud rate, have no
gaps; and the divisor is near the exact value. -/
theorem divisor_monotone_and_near :
    (∀ (clockHz baud baud' : UInt32) (trim : Int8), 0 < baud → baud ≤ baud' →
      ideal clockHz baud' trim ≤ ideal clockHz baud trim) ∧
    (∀ (clockHz clockHz' baud : UInt32) (trim : Int8), 0 < baud → clockHz ≤ clockHz' →
      ideal clockHz baud trim ≤ ideal clockHz' baud trim) ∧
    (∀ (clockHz baud : UInt32) (trim trim' : Int8), 0 < baud → trim ≤ trim' →
      ideal clockHz baud trim ≤ ideal clockHz baud trim') ∧
    (∀ (clockHz low baud high : UInt32) (trim : Int8), low ≤ baud → baud ≤ high →
      Accepts clockHz low trim → Accepts clockHz high trim → Accepts clockHz baud trim) ∧
    (∀ (low clockHz high baud : UInt32) (trim : Int8), low ≤ clockHz → clockHz ≤ high →
      Accepts low baud trim → Accepts high baud trim → Accepts clockHz baud trim) ∧
    (∀ (clockHz baud : UInt32) (trim : Int8) (d : UInt16), divisor clockHz baud trim = .ok d →
      |(d.toNat : ℚ) - 4 * clockHz.toNat / baud.toNat * (1 + trim.toInt / 1024)| <
        1 + (1024 + trim.toInt) / 2048) := by
  refine ⟨fun _ _ _ _ hb h => ?_, fun _ _ _ _ _ h => ?_, fun _ _ _ _ _ h => ?_, ?_, ?_, ?_⟩
  · exact ideal_le_of_nominal_le (nominal_le_of_baud_le hb h)
  · exact ideal_le_of_nominal_le (nominal_le_of_clock_le h)
  · exact ideal_le_of_trim_le h
  · intro clockHz low baud high trim hl hh hlow hhigh
    obtain ⟨hpos, hlow⟩ := accepts_iff.1 hlow
    obtain ⟨_, hhigh⟩ := accepts_iff.1 hhigh
    have hb : 0 < baud := UInt32.lt_of_lt_of_le hpos hl
    refine accepts_iff.2 ⟨hb, inRange_of_between ?_ ?_ hhigh hlow⟩
    · exact ideal_le_of_nominal_le (nominal_le_of_baud_le hb hh)
    · exact ideal_le_of_nominal_le (nominal_le_of_baud_le hpos hl)
  · intro low clockHz high baud trim hl hh hlow hhigh
    obtain ⟨hpos, hlow⟩ := accepts_iff.1 hlow
    obtain ⟨_, hhigh⟩ := accepts_iff.1 hhigh
    refine accepts_iff.2 ⟨hpos, inRange_of_between ?_ ?_ hlow hhigh⟩
    · exact ideal_le_of_nominal_le (nominal_le_of_clock_le hl)
    · exact ideal_le_of_nominal_le (nominal_le_of_clock_le hh)
  · exact fun _ _ _ _ h => abs_divisor_sub_lt h

theorem divisor_monotone_and_near_slow :
    ideal 16000000 115200 (-10) ≤ ideal 16000000 9600 (-10) ∧
      ideal 16000000 9600 (-10) ≤ ideal 20000000 9600 (-10) ∧
      ideal 16000000 9600 (-10) ≤ ideal 16000000 9600 10 ∧
      Accepts 16000000 57600 (-10) ∧ Accepts 18000000 9600 (-10) ∧
      |(6602 : ℚ) - 4 * 16000000 / 9600 * (1 + (-10 : ℤ) / 1024)| <
        1 + (1024 + (-10 : ℤ)) / 2048 := by
  obtain ⟨hbaud, hclock, htrim, hbauds, hclocks, hnear⟩ := divisor_monotone_and_near
  refine ⟨hbaud _ _ _ _ (by decide) (by decide), hclock _ _ _ _ (by decide) (by decide),
    htrim _ _ _ _ (by decide) (by decide), ?_, ?_, ?_⟩
  · exact hbauds 16000000 9600 57600 115200 (-10) (by decide) (by decide) ⟨6602, rfl⟩ ⟨551, rfl⟩
  · exact hclocks 16000000 18000000 20000000 9600 (-10) (by decide) (by decide) ⟨6602, rfl⟩
      ⟨8252, rfl⟩
  · exact hnear 16000000 9600 (-10) 6602 rfl

end SerialPort.Baud
