import Mathlib.Data.Nat.Basic
import Mathlib.Data.Nat.Bitwise

/-!
# Machine words and the macros of `include/kernel/base.h` and `include/kernel/mm_types.h`

Addresses and sizes are natural numbers below `2 ^ 64`. Where the C code can wrap, the
model says so with an explicit `% word`; elsewhere plain arithmetic is used.
-/

namespace Osdev

variable {a b v k : Nat}

/-- The number of values of a 64-bit word (`uintptr_t`, `size_t`). -/
def word : Nat := 2 ^ 64

theorem word_eq : word = 2 ^ 64 := rfl

/-- `a - b` on `size_t`. -/
def subWord (a b : Nat) : Nat := (word + a - b % word) % word

/-- `a + b` on `size_t`. -/
def addWord (a b : Nat) : Nat := (a + b) % word

/-- `align(v, a) = v + ((a - v) & (a - 1))`, on 64-bit words. -/
def align (v a : Nat) : Nat := (v + ((word + a - v) % word &&& (a - 1))) % word

/-- `align_down(v, a) = v & ~(a - 1)`, on 64-bit words. -/
def alignDown (v a : Nat) : Nat := v &&& (word - 1 - (a - 1))

/-- `is_aligned(v, a)`. -/
def isAligned (v a : Nat) : Bool := (v &&& (a - 1)) == 0

/-- `is_pow2(v)`, as `kmalloc` spells it: it also holds for `0`. -/
def isPow2 (v : Nat) : Bool := (v &&& (v - 1)) == 0

/-- `PAGE_SIZE`. -/
def pageSize : Nat := 4096

/-- `PAGES_TO_SIZE`, on 64-bit words. -/
def pagesToSize (count : Nat) : Nat := count * pageSize % word

/-- `SIZE_TO_PAGES`. -/
def sizeToPages (size : Nat) : Nat := size / pageSize + if size % pageSize = 0 then 0 else 1

theorem word_add_sub_mod (h : b ≤ a) (ha : a < word + b) :
    (word + a - b) % word = a - b := by
  rw [show word + a - b = a - b + word by omega, Nat.add_mod_right, Nat.mod_eq_of_lt (by omega)]

theorem subWord_of_le (h : b ≤ a) (ha : a < word) : subWord a b = a - b := by
  rw [subWord, Nat.mod_eq_of_lt (h.trans_lt ha), word_add_sub_mod h (by omega)]

theorem addWord_of_lt (h : a + b < word) : addWord a b = a + b :=
  Nat.mod_eq_of_lt h

theorem isAligned_two_pow (v k : Nat) : isAligned v (2 ^ k) = decide (v % 2 ^ k = 0) := by
  rw [isAligned, Nat.and_two_pow_sub_one_eq_mod]
  rfl

theorem isPow2_two_pow (k : Nat) : isPow2 (2 ^ k) = true := by
  rw [isPow2]
  simp

/-- The distance `align` adds brings a word to the next multiple of `2 ^ k`. -/
theorem align_two_pow (hk : k < 64) :
    align v (2 ^ k) = (v + (word + 2 ^ k - v) % 2 ^ k) % word := by
  unfold align
  have hdvd : 2 ^ k ∣ word := Nat.pow_dvd_pow 2 (by omega)
  rw [Nat.and_two_pow_sub_one_eq_mod, Nat.mod_mod_of_dvd _ hdvd]

theorem add_gap_mod_two_pow (hk : k < 64) (hv : v < word) :
    (v + (word + 2 ^ k - v) % 2 ^ k) % 2 ^ k = 0 := by
  have hdvd : 2 ^ k ∣ word := Nat.pow_dvd_pow 2 (by omega)
  rw [Nat.add_mod, Nat.mod_mod, ← Nat.add_mod]
  have hsum : v + (word + 2 ^ k - v) = word + 2 ^ k := by omega
  rw [hsum]
  exact Nat.mod_eq_zero_of_dvd (Nat.dvd_add hdvd (Nat.dvd_refl _))

/--
**`align` rounds up when it does not wrap.**

The only inputs for which it wraps are those above the last multiple of `2 ^ k` below `2 ^ 64`.
-/
theorem align_spec (hk : k < 64) (hv : v + 2 ^ k ≤ word) :
    v ≤ align v (2 ^ k) ∧ align v (2 ^ k) < v + 2 ^ k ∧ align v (2 ^ k) % 2 ^ k = 0 := by
  have hpos : 0 < 2 ^ k := Nat.two_pow_pos k
  have hlt : v < word := by omega
  have hmod := add_gap_mod_two_pow hk hlt
  rw [align_two_pow hk, Nat.mod_eq_of_lt (by omega)]
  exact ⟨by omega, by omega, hmod⟩

/-- Rounding an aligned word up leaves it alone. -/
theorem align_of_aligned (hk : k < 64) (hv : v + 2 ^ k ≤ word)
    (h : v % 2 ^ k = 0) : align v (2 ^ k) = v := by
  obtain ⟨hle, hlt, hmod⟩ := align_spec hk hv
  have hsub : (align v (2 ^ k) - v) % 2 ^ k = 0 := by
    rw [Nat.sub_mod_eq_zero_of_mod_eq (by rw [hmod, h])]
  have hzero : align v (2 ^ k) - v = 0 := by
    rwa [Nat.mod_eq_of_lt (by omega)] at hsub
  omega

/-- Rounding down clears the low bits. -/
theorem alignDown_two_pow (hk : k < 64) (hv : v < word) :
    alignDown v (2 ^ k) = 2 ^ k * (v / 2 ^ k) := by
  have hpow : 2 ^ k - 1 < 2 ^ 64 :=
    (Nat.sub_le _ _).trans_lt (Nat.pow_lt_pow_right (by decide) hk)
  refine Nat.eq_of_testBit_eq fun i => ?_
  unfold alignDown
  rw [word_eq, Nat.testBit_and, show 2 ^ 64 - 1 - (2 ^ k - 1) = 2 ^ 64 - (2 ^ k - 1 + 1) by omega,
    Nat.testBit_two_pow_sub_succ hpow, Nat.testBit_two_pow_mul,
    Nat.testBit_div_two_pow]
  by_cases hi : i < k
  · simp [hi, Nat.not_le.mpr hi]
  · by_cases hi' : i < 64
    · simp [hi, hi', Nat.le_of_not_lt hi]
    · have hzero : v.testBit i = false :=
        Nat.testBit_lt_two_pow (hv.trans_le (Nat.pow_le_pow_right (by decide) (by omega)))
      simp [hi', hzero, Nat.le_of_not_lt hi]

end Osdev
