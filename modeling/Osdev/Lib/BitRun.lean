import Mathlib.Data.Nat.Basic

/-!
# Runs of ones in a machine word

A run is named by its first bit and its length. The lemmas say what the usual tricks on words
(trailing zeros, population count, shifted masks) tell about runs.
-/

namespace Osdev.Lib

variable {w : Nat} {x : BitVec w} {p q k n : Nat}

/-- The `n` bits of `x` from bit `q` on are ones. Bits past the width are zeros. -/
def OnesAt (x : BitVec w) (q n : Nat) : Prop :=
  ∀ j < n, x.getLsbD (q + j) = true

instance (x : BitVec w) (q n : Nat) : Decidable (OnesAt x q n) :=
  inferInstanceAs (Decidable (∀ j < n, _))

theorem OnesAt.bit (h : OnesAt x q n) (hq : q ≤ k) (hk : k < q + n) : x.getLsbD k = true := by
  have hj := h (k - q) (by omega)
  rwa [show q + (k - q) = k by omega] at hj

/-- A run that is not empty ends inside the word. -/
theorem OnesAt.le_width (h : OnesAt x q n) (hn : 0 < n) : q + n ≤ w := by
  have hlast := BitVec.lt_of_getLsbD (h.bit (k := q + n - 1) (by omega) (by omega))
  omega

/-! ## Counting ones -/

/-- The population count goes bit by bit. -/
theorem cpopNatRec_eq (pos acc : Nat) :
    x.cpopNatRec pos acc = acc + (List.range pos).countP x.getLsbD := by
  induction pos generalizing acc with
  | zero => simp
  | succ pos ih =>
    rw [BitVec.cpopNatRec_succ, ih, List.range_succ, List.countP_append, List.countP_singleton]
    cases x.getLsbD pos <;> simp
    omega

theorem cpop_toNat : x.cpop.toNat = (List.range w).countP x.getLsbD := by
  rw [BitVec.toNat_cpop, cpopNatRec_eq, Nat.zero_add]

theorem range_split {m : Nat} (h : q + n ≤ m) :
    List.range m = List.range' 0 q ++ (List.range' q n ++ List.range' (q + n) (m - (q + n))) := by
  have hall : List.range' 0 q ++ List.range' (0 + q) (n + (m - (q + n))) = List.range' 0 m := by
    rw [List.range'_append_1]
    congr 1
    omega
  rw [List.range'_append_1, List.range_eq_range', ← hall, Nat.zero_add]

theorem OnesAt.le_cpop (h : OnesAt x q n) : n ≤ x.cpop.toNat := by
  rcases Nat.eq_zero_or_pos n with rfl | hn
  · exact Nat.zero_le _
  · have hall : (List.range' q n).countP x.getLsbD = n := by
      rw [List.countP_eq_length.mpr, List.length_range']
      intro k hk
      rw [List.mem_range'_1] at hk
      exact h.bit hk.1 hk.2
    rw [cpop_toNat, range_split (h.le_width hn), List.countP_append, List.countP_append]
    omega

/-! ## Skipping zeros, then ones -/

/-- No run starts below the trailing zeros' end. -/
theorem not_onesAt_of_lt_ctz (hn : 0 < n) (hq : q < x.ctz.toNat) : ¬ OnesAt x q n := by
  intro h
  have hone := h 0 hn
  rw [Nat.add_zero, BitVec.getLsbD_false_of_lt_ctz hq] at hone
  cases hone

theorem ctz_zero_toNat : (0#w).ctz.toNat = w := by
  have hrev : (0#w).reverse = 0#w := BitVec.reverse_eq_zero_iff.mpr rfl
  rw [BitVec.ctz, hrev, BitVec.clz_eq_iff_eq_zero.mpr rfl]
  simp

theorem ctz_toNat_le : x.ctz.toNat ≤ w := by
  by_cases hx : x = 0#w
  · rw [hx, ctz_zero_toNat]
  · exact Nat.le_of_lt (BitVec.lt_of_getLsbD (BitVec.getLsbD_true_ctz_of_ne_zero hx))

/-- The trailing zeros of the complement are the trailing ones. -/
theorem onesAt_ctz_not : OnesAt x 0 (~~~x).ctz.toNat := by
  intro j hj
  have hbit := BitVec.getLsbD_false_of_lt_ctz hj
  have hw := Nat.lt_of_lt_of_le hj ctz_toNat_le
  rw [BitVec.getLsbD_not, decide_eq_true hw] at hbit
  simpa using hbit

/-- The trailing ones end at a zero, or at the end of the word. -/
theorem getLsbD_ctz_not : x.getLsbD (~~~x).ctz.toNat = false := by
  by_cases hx : ~~~x = 0#w
  · rw [hx, ctz_zero_toNat]
    exact BitVec.getLsbD_of_ge _ _ le_rfl
  · have hbit := BitVec.getLsbD_true_ctz_of_ne_zero hx
    rw [BitVec.getLsbD_not, Bool.and_eq_true, Bool.not_eq_true'] at hbit
    exact hbit.2

/-- A run cannot pass the first zero. -/
theorem not_onesAt_of_zero (hk : x.getLsbD k = false) (hq : q ≤ k) (hn : k < q + n) :
    ¬ OnesAt x q n := by
  intro h
  rw [h.bit hq hn] at hk
  cases hk

theorem onesAt_ushiftRight : OnesAt (x >>> p) q n ↔ OnesAt x (p + q) n := by
  unfold OnesAt
  simp only [BitVec.getLsbD_ushiftRight, Nat.add_assoc]

/-! ## Masks -/

/-- A block of `n` low ones, moved up by `p`. -/
theorem getLsbD_allOnes_shift {j : Nat} (hn : n ≤ w) (hj : j < w) :
    ((BitVec.allOnes w >>> (w - n)) <<< p).getLsbD j = decide (p ≤ j ∧ j < p + n) := by
  rw [BitVec.getLsbD_shiftLeft, BitVec.getLsbD_ushiftRight, BitVec.getLsbD_allOnes]
  rw [decide_eq_true hj, Bool.true_and, Bool.eq_iff_iff]
  simp only [Bool.and_eq_true, Bool.not_eq_true', decide_eq_false_iff_not, decide_eq_true_eq]
  omega

/-- The same block, written as a power of two less one. -/
theorem twoPow_sub_one (hn : n < w) :
    (1#w <<< n) - 1#w = BitVec.allOnes w >>> (w - n) := by
  apply BitVec.eq_of_toNat_eq
  have hlt : 2 ^ n < 2 ^ w := Nat.pow_lt_pow_right (by omega) hn
  have hpos : 0 < 2 ^ n := Nat.two_pow_pos n
  have hone : 1 < 2 ^ w := by omega
  have hdiv : (2 ^ w - 1) / 2 ^ (w - n) = 2 ^ n - 1 := by
    have hsplit : 2 ^ w = 2 ^ n * 2 ^ (w - n) := by rw [← Nat.pow_add]; congr 1; omega
    rw [hsplit, Nat.mul_comm, Nat.mul_sub_div _ _ _ (by
      rw [← Nat.mul_comm, ← hsplit]; omega), Nat.zero_div]
  rw [BitVec.toNat_ushiftRight, BitVec.toNat_allOnes, Nat.shiftRight_eq_div_pow, hdiv]
  rw [BitVec.toNat_sub, BitVec.toNat_shiftLeft, BitVec.toNat_ofNat, Nat.mod_eq_of_lt hone,
    Nat.one_shiftLeft, Nat.mod_eq_of_lt hlt]
  rw [show 2 ^ w - 1 + 2 ^ n = 2 ^ n - 1 + 2 ^ w by omega, Nat.add_mod_right,
    Nat.mod_eq_of_lt (by omega)]

end Osdev.Lib
