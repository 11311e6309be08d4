import Mathlib.Algebra.Order.Ring.Int

/-!
# Arithmetic on machine integers

Values of type `uint32_t` are natural numbers, and the operations that can wrap say so. A value
that is already below `2 ^ 32` is left alone by `U32.ofNat`. Values of a signed type of 64 bits are
integers.

## Main definitions

* `U32.ofNat`, `U32.ofInt`: conversion to `uint32_t`.
* `U32.add`, `U32.sub`, `U32.mul`: the operations modulo `2 ^ 32`.
* `I64.mul`: signed multiplication modulo `2 ^ 64`.

## Main results

* `U32.sub_of_le`: a subtraction that does not go below zero does not wrap.
-/

namespace U32

/-- The number of values of the type. -/
def size : ℕ := 2 ^ 32

/-- `UINT32_MAX`. -/
def max : ℕ := size - 1

/-- Conversion to `uint32_t`. -/
def ofNat (n : ℕ) : ℕ := n % size

/-- Conversion of a signed integer to `uint32_t`. -/
def ofInt (n : ℤ) : ℕ := (n % size).toNat

/-- Addition of `uint32_t` values. -/
def add (a b : ℕ) : ℕ := (a + b) % size

/-- Subtraction of `uint32_t` values. -/
def sub (a b : ℕ) : ℕ := (a + (size - b % size)) % size

/-- Multiplication of `uint32_t` values. -/
def mul (a b : ℕ) : ℕ := (a * b) % size

theorem ofNat_lt (n : ℕ) : ofNat n < size := Nat.mod_lt n (by decide)

theorem ofNat_of_lt {n : ℕ} (h : n < size) : ofNat n = n := Nat.mod_eq_of_lt h

@[simp] theorem ofNat_ofNat (n : ℕ) : ofNat (ofNat n) = ofNat n := Nat.mod_mod n size

/-- A number that is not negative is its conversion if and only if it is below `2 ^ 32`. -/
theorem ofInt_eq_iff {n : ℤ} (h : 0 ≤ n) : (ofInt n : ℤ) = n ↔ n < 2 ^ 32 := by
  rw [ofInt, size]
  omega

theorem add_of_lt {a b : ℕ} (h : a + b < size) : add a b = a + b := Nat.mod_eq_of_lt h

theorem mul_of_lt {a b : ℕ} (h : a * b < size) : mul a b = a * b := Nat.mod_eq_of_lt h

theorem sub_of_le {a b : ℕ} (ha : a < size) (h : b ≤ a) : sub a b = a - b := by
  rw [sub, Nat.mod_eq_of_lt (h.trans_lt ha), show a + (size - b) = a - b + size by omega,
    Nat.add_mod_right, Nat.mod_eq_of_lt (by omega)]

end U32

namespace I64

/-- Multiplication of signed integers of 64 bits. -/
def mul (a b : ℤ) : ℤ := (a * b).bmod (2 ^ 64)

theorem bmod_mul (a b : ℤ) : mul (a.bmod (2 ^ 64)) b = (a * b).bmod (2 ^ 64) :=
  Int.bmod_mul_bmod

end I64
