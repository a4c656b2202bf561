import Mathlib.Tactic.Linarith

/-!
# Exact arithmetic on `Int64`

`Int64` arithmetic wraps. These lemmas give the integer value of a result when the exact one is
in range, and relate non-negative values to the same bits read as a `UInt64`. Counting up by one
comes to every value, after the largest one from the least one on.
-/

namespace ToMathlib

variable {a b : Int64}

theorem toInt_nonneg (h : 0 ≤ a) : 0 ≤ a.toInt := by
  rw [Int64.le_iff_toInt_le] at h
  exact h

/-- A non-negative integer is at least the `Int64` it reduces to. -/
theorem toInt_ofInt_le {v : ℤ} (hv : 0 ≤ v) : (Int64.ofInt v).toInt ≤ v := by
  have hsize : Int64.size = 18446744073709551616 := rfl
  rw [Int64.toInt_ofInt, Int.bmod_def, hsize]
  split <;> omega

theorem bmod_eq_self {v : ℤ} (hle : -2 ^ 63 ≤ v) (hlt : v < 2 ^ 63) : v.bmod (2 ^ 64) = v :=
  Int.bmod_eq_of_le (by omega) (by omega)

theorem toInt_add_of_bounds (hle : -2 ^ 63 ≤ a.toInt + b.toInt) (hlt : a.toInt + b.toInt < 2 ^ 63) :
    (a + b).toInt = a.toInt + b.toInt := by
  rw [Int64.toInt_add, bmod_eq_self hle hlt]

theorem toInt_sub_of_bounds (hle : -2 ^ 63 ≤ a.toInt - b.toInt) (hlt : a.toInt - b.toInt < 2 ^ 63) :
    (a - b).toInt = a.toInt - b.toInt := by
  rw [Int64.toInt_sub, bmod_eq_self hle hlt]

theorem toInt_mul_of_bounds (hle : -2 ^ 63 ≤ a.toInt * b.toInt) (hlt : a.toInt * b.toInt < 2 ^ 63) :
    (a * b).toInt = a.toInt * b.toInt := by
  rw [Int64.toInt_mul, bmod_eq_self hle hlt]

/-- The truncating division is the floor for a dividend that is not negative. -/
theorem toInt_div_of_nonneg (ha : 0 ≤ a.toInt) (hb : 0 < b.toInt) :
    (a / b).toInt = a.toInt / b.toInt := by
  have hne : b ≠ -1 := by
    rintro rfl
    exact absurd hb (by decide)
  rw [Int64.toInt_div_of_ne_right _ _ hne, Int.tdiv_eq_ediv_of_nonneg ha]

/-- The bits of a value, read without sign. -/
theorem toNat_toUInt64_emod (a : Int64) : (a.toUInt64.toNat : ℤ) = a.toInt % 2 ^ 64 := by
  have hcast : a.toUInt64.toNat = a.toBitVec.toNat := rfl
  have hint : a.toInt = (a.toBitVec.toNat : ℤ).bmod (2 ^ 64) := BitVec.toInt_eq_toNat_bmod _
  have hlt := a.toBitVec.isLt
  rw [hint, hcast, Int.bmod_def]
  split <;> omega

theorem toNat_toUInt64 (ha : 0 ≤ a.toInt) : (a.toUInt64.toNat : ℤ) = a.toInt := by
  have hlt := Int64.toInt_lt a
  rw [toNat_toUInt64_emod]
  omega

/-- An unsigned word as a `long`. -/
theorem toInt_toInt64_toUInt64 (v : UInt32) : v.toUInt64.toInt64.toInt = v.toNat := by
  have hlt := v.toNat_lt
  have hbits : v.toUInt64.toInt64.toInt = (v.toUInt64.toNat : ℤ).bmod (2 ^ 64) :=
    BitVec.toInt_eq_toNat_bmod _
  rw [hbits, UInt32.toNat_toUInt64, bmod_eq_self] <;> omega

/-! ## Counting up -/

theorem iterate_add_one (a : Int64) (n : ℕ) : (· + 1)^[n] a = a + Int64.ofNat n := by
  induction n with
  | zero => exact (Int64.add_zero a).symm
  | succ n ih =>
    rw [Function.iterate_succ_apply', ih, Int64.ofNat_add, Int64.add_assoc]
    rfl

theorem toInt_add_ofNat (a : Int64) (n : ℕ) :
    (a + Int64.ofNat n).toInt = (a.toInt + n).bmod (2 ^ 64) := by
  rw [Int64.toInt_add, Int64.toInt_ofNat']
  exact Int.add_bmod_bmod

theorem toInt_add_ofNat_of_lt {n : ℕ} (hlt : a.toInt + n < 2 ^ 63) :
    (a + Int64.ofNat n).toInt = a.toInt + n := by
  have hle := a.le_toInt
  rw [toInt_add_ofNat, bmod_eq_self (by omega) hlt]

/-- Counting up from `a` comes to every value. -/
theorem exists_add_ofNat_eq (a b : Int64) :
    ∃ n : ℕ, a + Int64.ofNat n = b ∧ (a ≤ b → a.toInt + n = b.toInt) := by
  have ha := a.toInt_lt
  have ha' := a.le_toInt
  have hb := b.toInt_lt
  have hb' := b.le_toInt
  refine ⟨((b.toInt - a.toInt) % 2 ^ 64).toNat, Int64.toInt_inj.1 ?_, fun hle => ?_⟩
  · rw [toInt_add_ofNat, Int.bmod_def]
    split <;> omega
  · rw [Int64.le_iff_toInt_le] at hle
    omega

/-- The larger of two values is the one of their integers. -/
instance instLawfulOrderMaxInt64 : Std.LawfulOrderMax Int64 where
  max_le_iff a b c := by
    show (if a ≤ b then b else a) ≤ c ↔ _
    simp only [Int64.le_iff_toInt_le]
    split <;> omega
  max_eq_or a b := by
    show (if a ≤ b then b else a) = a ∨ (if a ≤ b then b else a) = b
    split <;> simp

end ToMathlib
