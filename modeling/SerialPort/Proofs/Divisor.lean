import Mathlib.Data.Rat.Floor
import Mathlib.Tactic.FieldSimp
import Mathlib.Tactic.Linarith
import Mathlib.Tactic.Ring
import SerialPort.Baud

namespace SerialPort.Baud

/-- `n` corrected by `t` parts in 1024, the correction rounded toward zero. -/
def adjusted (n t : ℤ) : ℤ := n + (n * t).tdiv 1024

/-- The exact quotient rounded half up. -/
def rounded (clockHz baud : UInt32) : ℤ := ⌊(4 * clockHz.toNat : ℚ) / baud.toNat + 1 / 2⌋

def exactDivisor (clockHz baud : UInt32) (trim : Int8) : ℤ :=
  adjusted (rounded clockHz baud) trim.toInt

theorem floor_add_half (c : Nat) {b : Nat} (hb : 0 < b) :
    ⌊(4 * c : ℚ) / b + 1 / 2⌋ = ((8 * c / b + 1) / 2 : Nat) := by
  have hq : (4 * c : ℚ) / b + 1 / 2 = ((8 * c + b : Nat) : ℤ) / (b * 2 : Nat) := by
    have hb' : (b : ℚ) ≠ 0 := by exact_mod_cast hb.ne'
    push_cast
    field_simp
    ring
  rw [hq, Rat.floor_intCast_div_natCast, ← Int.natCast_div, ← Nat.div_div_eq_div_mul,
    Nat.add_div_right _ hb]

theorem tdiv_eq (x : ℤ) :
    x.tdiv 1024 = x / 1024 + if 0 ≤ x ∨ (1024 : ℤ) ∣ x then 0 else 1 := Int.tdiv_eq_ediv

theorem tdiv_near (x : ℤ) : x - 1024 < 1024 * x.tdiv 1024 ∧ 1024 * x.tdiv 1024 < x + 1024 := by
  rw [tdiv_eq]
  split <;> omega

theorem trim_near (t : Int8) : -128 ≤ t.toInt ∧ t.toInt ≤ 127 := by
  have hl := t.le_toInt
  have hu := t.toInt_lt
  omega

theorem mul_trim_near {n : ℤ} (hn : 0 ≤ n) (t : Int8) :
    -(128 * n) ≤ n * t.toInt ∧ n * t.toInt ≤ 127 * n := by
  obtain ⟨hl, hu⟩ := trim_near t
  constructor
  · linarith [mul_le_mul_of_nonneg_left hl hn]
  · linarith [mul_le_mul_of_nonneg_left hu hn]

theorem adjusted_nonneg {n : ℤ} (hn : 0 ≤ n) (t : Int8) : 0 ≤ adjusted n t.toInt := by
  have hx := (mul_trim_near hn t).1
  have hd := (tdiv_near (n * t.toInt)).1
  unfold adjusted
  omega

theorem toInt_toInt64 {x : UInt64} (h : x.toNat < 2 ^ 63) : x.toInt64.toInt = x.toNat :=
  BitVec.toInt_eq_toNat_of_lt (x := x.toBitVec) (by rw [UInt64.toNat_toBitVec]; omega)

theorem toInt_mul_of_fits {a b : Int64} (hl : -2 ^ 63 ≤ a.toInt * b.toInt)
    (hu : a.toInt * b.toInt < 2 ^ 63) : (a * b).toInt = a.toInt * b.toInt := by
  rw [Int64.toInt_mul]
  exact Int.bmod_eq_of_le (by omega) (by omega)

theorem toInt_add_of_fits {a b : Int64} (hl : -2 ^ 63 ≤ a.toInt + b.toInt)
    (hu : a.toInt + b.toInt < 2 ^ 63) : (a + b).toInt = a.toInt + b.toInt := by
  rw [Int64.toInt_add]
  exact Int.bmod_eq_of_le (by omega) (by omega)

theorem toInt_div_1024 (a : Int64) : (a / 1024).toInt = a.toInt.tdiv 1024 :=
  Int64.toInt_div_of_ne_right a 1024 (by decide)

/-- Each step on words gives what it gives on numbers without bounds: none overflows. -/
structure Exact (clockHz baud : UInt32) (trim : Int8) : Prop where
  product : (8 * clockHz.toUInt64).toNat = 8 * clockHz.toNat
  quotient : (8 * clockHz.toUInt64 / baud.toUInt64).toNat = 8 * clockHz.toNat / baud.toNat
  raised : (8 * clockHz.toUInt64 / baud.toUInt64 + 1).toNat = 8 * clockHz.toNat / baud.toNat + 1
  halved : (nominal clockHz baud).toNat = (8 * clockHz.toNat / baud.toNat + 1) / 2
  signed : (nominal clockHz baud).toInt64.toInt = (nominal clockHz baud).toNat
  scaled : ((nominal clockHz baud).toInt64 * trim.toInt64).toInt =
    (nominal clockHz baud).toNat * trim.toInt
  correction : ((nominal clockHz baud).toInt64 * trim.toInt64 / 1024).toInt =
    ((nominal clockHz baud).toNat * trim.toInt).tdiv 1024
  sum : (ideal clockHz baud trim).toInt = adjusted (nominal clockHz baud).toNat trim.toInt

variable (clockHz baud : UInt32) (trim : Int8)

theorem toNat_product : (8 * clockHz.toUInt64).toNat = 8 * clockHz.toNat := by
  have hc := clockHz.toNat_lt
  rw [UInt64.toNat_mul, UInt32.toNat_toUInt64]
  exact Nat.mod_eq_of_lt (by change 8 * clockHz.toNat < _; omega)

theorem toNat_quotient :
    (8 * clockHz.toUInt64 / baud.toUInt64).toNat = 8 * clockHz.toNat / baud.toNat := by
  rw [UInt64.toNat_div, toNat_product, UInt32.toNat_toUInt64]

theorem quotient_lt : 8 * clockHz.toNat / baud.toNat < 2 ^ 35 := by
  have hc := clockHz.toNat_lt
  have hq := Nat.div_le_self (8 * clockHz.toNat) baud.toNat
  omega

theorem toNat_raised :
    (8 * clockHz.toUInt64 / baud.toUInt64 + 1).toNat = 8 * clockHz.toNat / baud.toNat + 1 := by
  have hq := quotient_lt clockHz baud
  rw [UInt64.toNat_add, toNat_quotient]
  exact Nat.mod_eq_of_lt (by change _ + 1 < _; omega)

theorem toNat_nominal :
    (nominal clockHz baud).toNat = (8 * clockHz.toNat / baud.toNat + 1) / 2 := by
  rw [nominal, UInt64.toNat_div, toNat_raised]
  rfl

theorem toNat_nominal_le : (nominal clockHz baud).toNat ≤ 2 ^ 34 := by
  have hq := quotient_lt clockHz baud
  rw [toNat_nominal]
  omega

theorem exact_words : Exact clockHz baud trim := by
  -- at most 2 ^ 34 times 128, so nothing comes near the end of a signed word
  have hn := toNat_nominal_le clockHz baud
  have hs : (nominal clockHz baud).toInt64.toInt = (nominal clockHz baud).toNat :=
    toInt_toInt64 (by omega)
  obtain ⟨hl, hu⟩ := mul_trim_near (Int.natCast_nonneg (nominal clockHz baud).toNat) trim
  have hx : ((nominal clockHz baud).toInt64 * trim.toInt64).toInt =
      (nominal clockHz baud).toNat * trim.toInt := by
    rw [toInt_mul_of_fits] <;> rw [hs, Int8.toInt_toInt64]
    · omega
    · omega
  have hd : ((nominal clockHz baud).toInt64 * trim.toInt64 / 1024).toInt =
      ((nominal clockHz baud).toNat * trim.toInt).tdiv 1024 := by
    rw [toInt_div_1024, hx]
  obtain ⟨hdl, hdu⟩ := tdiv_near ((nominal clockHz baud).toNat * trim.toInt)
  refine ⟨toNat_product clockHz, toNat_quotient clockHz baud, toNat_raised clockHz baud,
    toNat_nominal clockHz baud, hs, hx, hd, ?_⟩
  rw [ideal, corrected, toInt_add_of_fits] <;> rw [hs, hd]
  · rfl
  · omega
  · omega

variable {clockHz baud trim}

theorem toInt_ideal (hb : baud ≠ 0) :
    (ideal clockHz baud trim).toInt = exactDivisor clockHz baud trim := by
  have hpos : 0 < baud.toNat := by
    rw [Nat.pos_iff_ne_zero]
    exact fun h => hb (UInt32.toNat_inj.1 h)
  have hr : rounded clockHz baud = (nominal clockHz baud).toNat := by
    rw [toNat_nominal]
    exact floor_add_half clockHz.toNat hpos
  rw [(exact_words clockHz baud trim).sum, exactDivisor, hr]

variable (clockHz baud trim)

theorem toInt_ideal_nonneg : 0 ≤ (ideal clockHz baud trim).toInt := by
  rw [(exact_words clockHz baud trim).sum]
  exact adjusted_nonneg (Int.natCast_nonneg _) trim

theorem divisor_zero : divisor clockHz 0 trim = .error .invalidBaudRate := rfl

theorem inRange_iff (d : Int64) : InRange d ↔ 64 ≤ d.toInt ∧ d.toInt ≤ 65535 := by
  change (64 : ℤ) ≤ d.toInt ∧ d.toInt < 65536 ↔ _
  omega

variable {clockHz baud trim}

theorem divisor_of_inRange (hb : baud ≠ 0) (h : InRange (ideal clockHz baud trim)) :
    ∃ d, divisor clockHz baud trim = .ok d ∧ (d.toNat : ℤ) = (ideal clockHz baud trim).toInt := by
  refine ⟨.ofNat (ideal clockHz baud trim).toInt.toNat, ?_, ?_⟩
  · rw [divisor, if_neg hb]
    exact if_pos h
  · have hd := (inRange_iff _).1 h
    rw [UInt16.toNat_ofNat']
    omega

theorem divisor_of_not_inRange (hb : baud ≠ 0) (h : ¬ InRange (ideal clockHz baud trim)) :
    divisor clockHz baud trim = .error .divisorOutOfRange := by
  rw [divisor, if_neg hb]
  exact if_neg h

/-- The baud register gets the exact quotient, rounded half up and corrected toward zero, if the
result fits; the computation overflows nowhere and its result is never negative. -/
theorem divisor_rounds_exact_quotient (clockHz baud : UInt32) (trim : Int8) :
    Exact clockHz baud trim ∧ 0 ≤ (ideal clockHz baud trim).toInt ∧
    (divisor clockHz baud trim = .error .invalidBaudRate ↔ baud = 0) ∧
    (∀ d : UInt16, divisor clockHz baud trim = .ok d ↔
      baud ≠ 0 ∧ (d.toNat : ℤ) = exactDivisor clockHz baud trim ∧
        64 ≤ exactDivisor clockHz baud trim ∧ exactDivisor clockHz baud trim ≤ 65535) ∧
    (divisor clockHz baud trim = .error .divisorOutOfRange ↔
      baud ≠ 0 ∧
        ¬ (64 ≤ exactDivisor clockHz baud trim ∧ exactDivisor clockHz baud trim ≤ 65535)) := by
  refine ⟨exact_words clockHz baud trim, toInt_ideal_nonneg clockHz baud trim, ?_⟩
  by_cases hb : baud = 0
  · subst hb
    rw [divisor_zero]
    simp
  have hrange := inRange_iff (ideal clockHz baud trim)
  rw [toInt_ideal hb] at hrange
  by_cases hr : InRange (ideal clockHz baud trim)
  · obtain ⟨w, hw, he⟩ := divisor_of_inRange hb hr
    rw [toInt_ideal hb] at he
    rw [hw]
    refine ⟨⟨nofun, fun h => absurd h hb⟩, fun d => ⟨?_, ?_⟩, nofun, ?_⟩
    · intro e
      cases e
      exact ⟨hb, he, hrange.1 hr⟩
    · rintro ⟨_, hd, _⟩
      exact congrArg _ (UInt16.toNat_inj.1 (Int.natCast_inj.1 (he.trans hd.symm)))
    · rintro ⟨_, hn⟩
      exact absurd (hrange.1 hr) hn
  · rw [divisor_of_not_inRange hb hr]
    refine ⟨⟨nofun, fun h => absurd h hb⟩, fun d => ⟨nofun, ?_⟩, fun _ => ⟨hb, ?_⟩, fun _ => rfl⟩
    · rintro ⟨_, _, hd⟩
      exact absurd (hrange.2 hd) hr
    · exact fun hd => hr (hrange.2 hd)

example : divisor 16000000 9600 (-10) = .ok 6602 := rfl

end SerialPort.Baud
