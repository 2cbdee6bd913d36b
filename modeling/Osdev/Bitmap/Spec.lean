import Osdev.Bitmap.Model
import Osdev.Lib.Except

/-!
# What the bitmap functions do to the bits

Every function is described by the bits it sets or clears: `Marks b b' k n` says that `b'` is `b`
with the `n` bits from `k` on set, `Clears b b' k n` that only those bits may have been cleared. The
counters `free` and `used` are not part of these descriptions; the functions do not keep them equal
to the number of bits.
-/

namespace Osdev.Bmp

open Osdev.Lib

variable {b b' b'' : Bitmap} {i j k n m index : Nat} {x : Word}
variable {mask : Word} {p q : Nat} {r : Int}

structure Marks (b b' : Bitmap) (k n : Nat) : Prop where
  bit : ∀ j, b'.bit j = (b.bit j || decide (k ≤ j ∧ j < k + n))
  size : b'.size = b.size

structure Clears (b b' : Bitmap) (k n : Nat) : Prop where
  bit : ∀ j, ¬ (k ≤ j ∧ j < k + n) → b'.bit j = b.bit j
  size : b'.size = b.size

/-- `b'` is `b` with the `n` bits from `k` on cleared. -/
structure Resets (b b' : Bitmap) (k n : Nat) : Prop where
  bit : ∀ j, b'.bit j = (b.bit j && !decide (k ≤ j ∧ j < k + n))
  size : b'.size = b.size

/-- The number of ones among the `n` bits from `k` on. -/
def Bitmap.ones (b : Bitmap) (k n : Nat) : Nat := (List.range' k n).countP b.bit

/-- `n` free bits from `k` on, all in one word. -/
def FreeRun (b : Bitmap) (n k : Nat) : Prop :=
  k % 64 + n ≤ 64 ∧ ∀ j < n, b.bit (k + j) = false

/-- The bits of `mask` are the `n` bits from `p` on. -/
def IsMask (mask : Word) (p n : Nat) : Prop :=
  ∀ j < 64, mask.getLsbD j = decide (p ≤ j ∧ j < p + n)

/-! ## Words and bits -/

theorem bit_setWord : (b.setWord (i : Nat) x).bit k =
    if k / 64 = i then x.getLsbD (k % 64) else b.bit k := by
  show (Function.update b.map i x (k / 64)).getLsbD (k % 64) = _
  by_cases h : k / 64 = i
  · rw [h, Function.update_self, if_pos rfl]
  · rw [Function.update_of_ne h, if_neg h]
    rfl

theorem setWord_size {i : Int} : (b.setWord i x).size = b.size := by
  cases i <;> rfl

/-- Setting the bits of a mask in word `i`. -/
theorem marks_setWord_or (hmask : IsMask mask m n) (hend : m + n ≤ 64) :
    Marks b (b.setWord (i : Nat) (b.map i ||| mask)) (64 * i + m) n where
  bit k := by
    rw [bit_setWord]
    split
    next h =>
      rw [BitVec.getLsbD_or, hmask _ (Nat.mod_lt _ (by decide)), ← h]
      congr 1
      exact decide_eq_decide.mpr (by omega)
    next h => rw [decide_eq_false (by omega), Bool.or_false]
  size := setWord_size

/-- Clearing the bits of a mask in word `i`. -/
theorem resets_setWord_and (hmask : IsMask mask m n) (hend : m + n ≤ 64) :
    Resets b (b.setWord (i : Nat) (b.map i &&& ~~~ mask)) (64 * i + m) n where
  bit k := by
    rw [bit_setWord]
    split
    next h =>
      have hlt : k % 64 < 64 := Nat.mod_lt _ (by decide)
      rw [BitVec.getLsbD_and, BitVec.getLsbD_not, hmask _ hlt, decide_eq_true hlt,
        Bool.true_and, ← h]
      congr 2
      exact decide_eq_decide.mpr (by omega)
    next h => rw [decide_eq_false (by omega), Bool.not_false, Bool.and_true]
  size := setWord_size

/-- Counting the ones under a mask in word `i`. -/
theorem popcnt64_and (hmask : IsMask mask m n) (hend : m + n ≤ 64) :
    popcnt64 (b.map i &&& mask) = b.ones (64 * i + m) n := by
  have hbit : ∀ j < 64, (b.map i &&& mask).getLsbD j =
      (b.bit (64 * i + j) && decide (m ≤ j ∧ j < m + n)) := by
    intro j hj
    rw [BitVec.getLsbD_and, hmask j hj, Bitmap.bit, show (64 * i + j) / 64 = i by omega,
      show (64 * i + j) % 64 = j by omega]
  have hin : (List.range' m n).countP (b.map i &&& mask).getLsbD =
      (List.range' m n).countP (b.bit ∘ (64 * i + ·)) := by
    refine List.countP_congr fun j hj => ?_
    rw [List.mem_range'_1] at hj
    simp [hbit j (by omega), hj]
  have hzero : ∀ {s t}, s + t ≤ 64 → (s + t ≤ m ∨ m + n ≤ s) →
      (List.range' s t).countP (b.map i &&& mask).getLsbD = 0 := by
    intro s t hle hst
    refine List.countP_eq_zero.mpr fun j hj => ?_
    rw [List.mem_range'_1] at hj
    simp [hbit j (by omega), show ¬ (m ≤ j ∧ j < m + n) by omega]
  rw [popcnt64, cpop_toNat, range_split hend, List.countP_append, List.countP_append, hin,
    hzero (by omega) (.inl (by omega)), hzero (by omega) (.inr (by omega)), ← List.countP_map,
    List.map_add_range', Nat.zero_add, Nat.add_zero, Bitmap.ones]

theorem ones_add : b.ones k (n + m) = b.ones k n + b.ones (k + n) m := by
  unfold Bitmap.ones
  rw [← List.range'_append_1, List.countP_append]

theorem ones_eq_zero : b.ones k n = 0 ↔ ∀ j, k ≤ j → j < k + n → b.bit j = false := by
  simp [Bitmap.ones, List.countP_eq_zero, List.mem_range'_1]

theorem marks_setWord_maxNum : Marks b (b.setWord (i : Nat) maxNum) (64 * i) 64 where
  bit k := by
    rw [bit_setWord]
    split
    next h =>
      rw [maxNum, BitVec.getLsbD_allOnes, decide_eq_true (Nat.mod_lt _ (by decide)),
        decide_eq_true (by omega), Bool.or_true]
    next h => rw [decide_eq_false (by omega), Bool.or_false]
  size := setWord_size

theorem Marks.refl (hn : n = 0) : Marks b b k n :=
  ⟨fun j => by rw [decide_eq_false (by omega), Bool.or_false], rfl⟩

theorem Resets.refl (hn : n = 0) : Resets b b k n :=
  ⟨fun j => by rw [decide_eq_false (by omega), Bool.not_false, Bool.and_true], rfl⟩

/-- Two steps together, where `[p, p + q)` is what the two of them go through. -/
theorem Marks.trans (h : Marks b b' k n) (h' : Marks b' b'' i m)
    (hpq : ∀ j, (k ≤ j ∧ j < k + n) ∨ (i ≤ j ∧ j < i + m) ↔ p ≤ j ∧ j < p + q) :
    Marks b b'' p q where
  bit j := by rw [h'.bit, h.bit, Bool.or_assoc, ← Bool.decide_or, decide_eq_decide.mpr (hpq j)]
  size := h'.size.trans h.size

theorem Resets.trans (h : Resets b b' k n) (h' : Resets b' b'' i m)
    (hpq : ∀ j, (k ≤ j ∧ j < k + n) ∨ (i ≤ j ∧ j < i + m) ↔ p ≤ j ∧ j < p + q) :
    Resets b b'' p q where
  bit j := by
    rw [h'.bit, h.bit, Bool.and_assoc, ← Bool.not_or, ← Bool.decide_or,
      decide_eq_decide.mpr (hpq j)]
  size := h'.size.trans h.size

/-- The counters play no part. -/
theorem Marks.counters (h : Marks b b' k n) (free used : Nat) :
    Marks b { b' with free := free, used := used } k n :=
  ⟨h.bit, h.size⟩

theorem Resets.counters (h : Resets b b' k n) (free used : Nat) :
    Resets b { b' with free := free, used := used } k n :=
  ⟨h.bit, h.size⟩

theorem Resets.clears (h : Resets b b' k n) (hin : n = 0 ∨ (i ≤ k ∧ k + n ≤ i + m)) :
    Clears b b' i m where
  bit j hj := by rw [h.bit, decide_eq_false (by omega), Bool.not_false, Bool.and_true]
  size := h.size

/-! ## Masks -/

theorem isMask_ones (hn : 0 < n) (hn' : n ≤ 64) (hm : m < 64) :
    IsMask (shl (shr maxNum (64 - n)) m) m n := by
  intro j hj
  rw [shl, shr, Nat.mod_eq_of_lt hm, Nat.mod_eq_of_lt (by omega)]
  exact getLsbD_allOnes_shift hn' hj

theorem isMask_twoPow (hn : n < 64) (hm : m < 64) : IsMask (shl (shl 1 n - 1) m) m n := by
  intro j hj
  unfold shl
  rw [Nat.mod_eq_of_lt hm, Nat.mod_eq_of_lt hn]
  have hones : (1#64 <<< n) - 1#64 = BitVec.allOnes 64 >>> (64 - n) := twoPow_sub_one hn
  exact hones ▸ getLsbD_allOnes_shift (by omega) hj

theorem isMask_low (hn : n < 64) : IsMask (shl 1 n - 1) 0 n := by
  have hmask := isMask_twoPow hn (m := 0) (by decide)
  have hshl : ∀ y : Word, shl y 0 = y := fun y => by simp [shl]
  rwa [hshl] at hmask

theorem isMask_one (hm : m < 64) : IsMask (shl 1 m) m 1 := by
  have hone : (shl 1 1 - 1 : Word) = 1 := by decide
  exact hone ▸ isMask_twoPow (by decide) hm

theorem isMask_maxNum : IsMask maxNum 0 64 := by
  intro j hj
  rw [maxNum, BitVec.getLsbD_allOnes]
  exact decide_eq_decide.mpr (by omega)

/-- The mask of a full first word is empty: the shift by 64 shifts by 0. -/
theorem isMask_full : IsMask (shl (shl 1 64 - 1) m) k 0 := by
  intro j _
  simp [shl]

/-! ## Single bits -/

theorem bitmapGet_eq {r : Bool} (h : bitmapGet b index = .ok r) : r = b.bit index := by
  obtain ⟨-, h⟩ := check_eq_ok.mp h
  cases h
  rfl

theorem bitmapSet_spec {r : Bool} (h : bitmapSet b index = .ok (r, b')) :
    r = b.bit index ∧ Marks b b' index 1 := by
  obtain ⟨-, h⟩ := check_eq_ok.mp h
  cases h
  have hmod : index % 64 < 64 := Nat.mod_lt _ (by decide)
  have hmarks := marks_setWord_or (b := b) (i := index / 64) (isMask_one hmod) (by omega)
  rw [Nat.div_add_mod] at hmarks
  exact ⟨rfl, hmarks.counters _ _⟩

theorem bitmapSet_bit {r : Bool} (h : bitmapSet b k = .ok (r, b')) (j : Nat) :
    b'.bit j = (b.bit j || decide (j = k)) := by
  rw [(bitmapSet_spec h).2.bit j]
  congr 1
  exact decide_eq_decide.mpr (by omega)

theorem bitmapClear_spec {r : Bool} (h : bitmapClear b index = .ok (r, b')) :
    Resets b b' index 1 := by
  obtain ⟨-, h⟩ := check_eq_ok.mp h
  cases h
  have hmod : index % 64 < 64 := Nat.mod_lt _ (by decide)
  have hresets := resets_setWord_and (b := b) (i := index / 64) (isMask_one hmod) (by omega)
  rw [Nat.div_add_mod] at hresets
  exact hresets.counters _ _

theorem bitmapClear_bit {r : Bool} (h : bitmapClear b k = .ok (r, b')) (j : Nat) :
    b'.bit j = (b.bit j && decide (j ≠ k)) := by
  rw [(bitmapClear_spec h).bit j, ← decide_not]
  congr 1
  exact decide_eq_decide.mpr (by omega)

/-! ## Ranges of bits -/

theorem chunkCount_eq (hn : 0 < n) : 64 * (chunkCount n - 1) < n ∧ n ≤ 64 * chunkCount n := by
  unfold chunkCount
  split <;> omega

/-- The mask of the first word: a shift by 64 leaves it empty, and bits past the word are lost. -/
theorem chunkMask_first (chunks : Nat) {startBit : Nat} (hbit : startBit < 64) (hm : m ≤ 64) :
    IsMask (chunkMask chunks startBit 0 n m) startBit
      (if m < 64 then min m (64 - startBit) else 0) := by
  rw [chunkMask, if_pos rfl]
  split
  next hlt =>
    intro j hj
    rw [isMask_twoPow hlt hbit j hj]
    exact decide_eq_decide.mpr (by omega)
  next hfull =>
    rw [show m = 64 by omega]
    exact isMask_full

theorem chunkMask_later (chunks startBit : Nat) (hi : i ≠ 0) (hlast : i = chunks - 1 ∨ 64 ≤ n) :
    IsMask (chunkMask chunks startBit i n (min n 64)) 0 (min n 64) := by
  rw [chunkMask, if_neg hi]
  split
  next hlow => rw [Nat.min_eq_left (by omega)]; exact isMask_low hlow.2
  next hlow => rw [Nat.min_eq_right (by omega)]; exact isMask_maxNum

section Loops

variable {chunks startIndex startBit c : Nat}

section

variable (hi : 1 ≤ i) (hk : i + k = chunks) (hn : k = 0 ∨ 64 * (k - 1) < n)

include hi hk hn

/-- From the second word on, the loops go through the bits that are left, as far as their words
go. -/
theorem getNLoop_later :
    getNLoop b chunks startIndex startBit k i n c =
      c + b.ones (64 * (startIndex + i)) (min n (64 * k)) := by
  induction k generalizing i n c with
  | zero => simp [getNLoop, Bitmap.ones]
  | succ k ih =>
    have hword := popcnt64_and (b := b) (i := startIndex + i)
      (chunkMask_later chunks startBit (i := i) (n := n)
        (by omega) (by omega)) (by omega)
    simp only [getNLoop]
    rw [ih (by omega) (by omega) (by omega), hword, Nat.add_assoc, Nat.add_zero]
    congr 1
    rcases Nat.eq_zero_or_pos k with rfl | hpos
    · simp [Bitmap.ones]
    · rw [show min n (64 * (k + 1)) = min n 64 + min (n - min n 64) (64 * k) by omega, ones_add,
        show 64 * (startIndex + (i + 1)) = 64 * (startIndex + i) + min n 64 by omega]

theorem setNLoop_later :
    Marks b (setNLoop chunks startIndex startBit k i n c b).2 (64 * (startIndex + i))
      (min n (64 * k)) := by
  induction k generalizing i n c b with
  | zero => exact Marks.refl (by omega)
  | succ k ih =>
    have hword := marks_setWord_or (b := b) (i := startIndex + i)
      (chunkMask_later chunks startBit (i := i) (n := n)
        (by omega) (by omega)) (by omega)
    exact (hword.counters _ _).trans
      (ih (by omega) (by omega) (by omega)) (by omega)

theorem clearNLoop_later :
    Resets b (clearNLoop chunks startIndex startBit k i n b) (64 * (startIndex + i))
      (min n (64 * k)) := by
  induction k generalizing i n b with
  | zero => exact Resets.refl (by omega)
  | succ k ih =>
    have hword := resets_setWord_and (b := b) (i := startIndex + i)
      (chunkMask_later chunks startBit (i := i) (n := n)
        (by omega) (by omega)) (by omega)
    simp only [clearNLoop, if_neg (show i ≠ 0 by omega), Nat.sub_zero]
    exact (hword.counters _ _).trans
      (ih (by omega) (by omega) (by omega)) (by omega)

end

end Loops

/-- The first bit that `bitmap_get_n` and `bitmap_set_n` go through. -/
def reachStart (index n : Nat) : Nat := if n < 64 then index else 64 * (index / 64 + 1)

/-- How many bits `bitmap_get_n` and `bitmap_set_n` go through. -/
def reachCount (index n : Nat) : Nat := if n < 64 then min n (64 - index % 64) else n - 64

theorem reach_oneWord (hn : n < 64) (hend : index % 64 + n ≤ 64) :
    reachStart index n = index ∧ reachCount index n = n := by
  rw [reachStart, reachCount, if_pos hn, if_pos hn]
  omega

/-- The words of a range: none, or a first one and `c` more. -/
theorem chunkCount_cases (n : Nat) :
    (n = 0 ∧ chunkCount n = 0) ∨ ∃ c, chunkCount n = c + 1 ∧ 64 * c < n ∧ n ≤ 64 * (c + 1) := by
  rcases Nat.eq_zero_or_pos n with rfl | hn
  · exact .inl ⟨rfl, rfl⟩
  · obtain ⟨hlow, hhigh⟩ := chunkCount_eq hn
    exact .inr ⟨chunkCount n - 1, by omega, by omega, by omega⟩

/-- The first word and the later words together. -/
theorem reach_parts (index : Nat) {c : Nat} (hlow : 64 * c < n) (hhigh : n ≤ 64 * (c + 1)) :
    let first := if min n 64 < 64 then min (min n 64) (64 - index % 64) else 0
    let later := min (n - min n 64) (64 * c)
    (first = 0 ∧ reachStart index n = 64 * (index / 64 + 1) ∧ reachCount index n = later) ∨
      (later = 0 ∧ reachStart index n = index ∧ reachCount index n = first) := by
  unfold reachStart reachCount
  by_cases hn : n < 64
  · rw [if_pos hn, if_pos hn, if_pos (by omega)]
    omega
  · rw [if_neg hn, if_neg hn, if_neg (by omega)]
    omega

/-- **`bitmap_get_n` counts the ones it reaches.** -/
theorem bitmapGetN_eq (hn : n ≤ b.free) :
    bitmapGetN b index n = .ok (b.ones (reachStart index n) (reachCount index n)) := by
  rw [bitmapGetN, if_pos hn]
  rcases chunkCount_cases n with ⟨rfl, hc⟩ | ⟨c, hc, hlow, hhigh⟩
  · rw [hc]
    simp [getNLoop, reachCount, Bitmap.ones]
  · have hfirst := popcnt64_and (b := b) (i := index / 64)
      (chunkMask_first (c + 1) (n := n) (m := min n 64)
        (Nat.mod_lt index (by decide)) (by omega)) (by split <;> omega)
    rw [Nat.div_add_mod] at hfirst
    rw [hc]
    simp only [getNLoop, Nat.add_zero, Nat.zero_add]
    rw [getNLoop_later (Nat.le_refl 1) (by omega) (by omega), hfirst]
    rcases reach_parts index hlow hhigh with ⟨hzero, hs, hr⟩ | ⟨hzero, hs, hr⟩
    · rw [hs, hr, hzero]
      simp [Bitmap.ones]
    · rw [hs, hr, hzero]
      simp [Bitmap.ones]

/-- **`bitmap_set_n` marks the bits it reaches.** -/
theorem bitmapSetN_eq (index : Nat) (hn : n ≤ b.free) : ∃ r b', bitmapSetN b index n = .ok (r, b') ∧
    Marks b b' (reachStart index n) (reachCount index n) := by
  rw [bitmapSetN, if_pos hn]
  refine ⟨_, _, rfl, ?_⟩
  rcases chunkCount_cases n with ⟨rfl, hc⟩ | ⟨c, hc, hlow, hhigh⟩
  · exact Marks.refl rfl
  · have hfirst := marks_setWord_or (b := b) (i := index / 64)
      (chunkMask_first (c + 1) (n := n) (m := min n 64)
        (Nat.mod_lt index (by decide)) (by omega)) (by split <;> omega)
    have hlater : ∀ d c', Marks d
        (setNLoop (c + 1) (index / 64) (index % 64) c 1 (n - min n 64) c' d).2
        (64 * (index / 64 + 1)) (min (n - min n 64) (64 * c)) :=
      fun d c' => setNLoop_later (Nat.le_refl 1) (by omega) (by omega)
    rw [hc]
    refine (hfirst.counters _ _).trans (hlater _ _) fun j => ?_
    rcases reach_parts index hlow hhigh with ⟨hzero, hs, hr⟩ | ⟨hzero, hs, hr⟩ <;>
      rw [hs, hr, hzero] <;> omega

/-- The first bit that `bitmap_clear_n` goes through. -/
def clearStart (index n : Nat) : Nat := if 64 ≤ n ∧ index % 64 = 0 then index + 64 else index

/-- How many bits `bitmap_clear_n` goes through: its words are counted from bit 0 of the first. -/
def clearCount (index n : Nat) : Nat :=
  if 64 ≤ n ∧ index % 64 = 0 then n - 64 else min n (64 * chunkCount n - index % 64)

/-- **`bitmap_clear_n` clears the bits it reaches.** -/
theorem bitmapClearN_eq (index : Nat) (hn : n ≤ b.used) : ∃ b', bitmapClearN b index n = .ok b' ∧
    Resets b b' (clearStart index n) (clearCount index n) := by
  rw [bitmapClearN, clearStart, clearCount, if_pos hn]
  refine ⟨_, rfl, ?_⟩
  rcases chunkCount_cases n with ⟨rfl, hc⟩ | ⟨c, hc, hlow, hhigh⟩
  · exact Resets.refl (by split <;> omega)
  · have hmod : index % 64 < 64 := Nat.mod_lt _ (by decide)
    have hfirst := resets_setWord_and (b := b) (i := index / 64)
      (chunkMask_first (c + 1) (n := n) (m := min n (64 - index % 64)) hmod (by omega))
      (by split <;> omega)
    rw [hc]
    simp only [clearNLoop, Nat.add_zero, Nat.zero_add, if_pos]
    refine (hfirst.counters _ _).trans
      (clearNLoop_later (Nat.le_refl 1) (by omega) (by omega)) fun j => ?_
    split <;> split <;> omega

/-- A range inside one word that counts no ones has no ones. -/
theorem bitmapGetN_spec (hn : n < 64) (hend : index % 64 + n ≤ 64)
    (h : bitmapGetN b index n = .ok 0) : FreeRun b n index := by
  by_cases hfree : n ≤ b.free
  · obtain ⟨hs, hr⟩ := reach_oneWord hn hend
    rw [bitmapGetN_eq hfree] at h
    exact ⟨hend, fun j hj => ones_eq_zero.mp (Except.ok.inj h) _ (by omega) (by omega)⟩
  · simp [bitmapGetN, hfree] at h

theorem bitmapSetN_spec {r : Nat} (hn : n < 64) (hend : index % 64 + n ≤ 64)
    (h : bitmapSetN b index n = .ok (r, b')) : Marks b b' index n := by
  by_cases hfree : n ≤ b.free
  · obtain ⟨r', b'', hset, hmarks⟩ := bitmapSetN_eq index hfree
    obtain ⟨hs, hr⟩ := reach_oneWord hn hend
    cases h.symm.trans hset
    rwa [hs, hr] at hmarks
  · simp [bitmapSetN, hfree] at h

/-- `bitmap_clear_n` clears no bit outside its range. -/
theorem bitmapClearN_spec (h : bitmapClearN b index n = .ok b') : Clears b b' index n := by
  by_cases hused : n ≤ b.used
  · obtain ⟨b'', hclear, hresets⟩ := bitmapClearN_eq index hused
    cases h.symm.trans hclear
    refine hresets.clears ?_
    unfold clearStart clearCount
    split <;> omega
  · simp [bitmapClearN, hused] at h

/-! ## Searches for a run inside one word -/

/--
The outcome of a search for `n` free bits in one word, among the runs that start in `[lo, hi)`:
either there is none, or the first one was found and marked.
-/
def Searched (b b' : Bitmap) (n lo hi : Nat) (r : Int) : Prop :=
  (r = -1 ∧ b' = b ∧ ∀ k, lo ≤ k → k < hi → ¬ FreeRun b n k) ∨
    ∃ k : Nat, r = k ∧ lo ≤ k ∧ k < hi ∧ FreeRun b n k ∧
      (∀ k', lo ≤ k' → k' < k → ¬ FreeRun b n k') ∧ Marks b b' k n

theorem Searched.skip {lo mid hi : Nat} (hlo : lo ≤ mid)
    (hno : ∀ k, lo ≤ k → k < mid → ¬ FreeRun b n k) (h : Searched b b' n mid hi r) :
    Searched b b' n lo hi r := by
  have hless : ∀ k, lo ≤ k → (mid ≤ k → ¬ FreeRun b n k) → ¬ FreeRun b n k := by
    intro k hk hmid
    by_cases hlt : k < mid
    · exact hno k hk hlt
    · exact hmid (by omega)
  rcases h with ⟨hr, hb, hall⟩ | ⟨k, hr, hk, hhi, hfree, hfirst, hmarks⟩
  · exact .inl ⟨hr, hb, fun k hk hk' => hless k hk fun hmid => hall k hmid hk'⟩
  · exact .inr ⟨k, hr, by omega, hhi, hfree,
      fun k' hk' hlt => hless k' hk' fun hmid => hfirst k' hmid hlt, hmarks⟩

/-- Free runs are runs of ones of the complemented word. -/
theorem freeRun_iff (hn : 0 < n) (hj : j < 64) :
    FreeRun b n (64 * i + j) ↔ OnesAt (~~~ b.map i) j n := by
  have hdiv : ∀ t, j + t < 64 → (64 * i + j + t) / 64 = i := by omega
  have hmod : ∀ t, j + t < 64 → (64 * i + j + t) % 64 = j + t := by omega
  constructor
  · intro h t ht
    have hlt : j + t < 64 := by have := h.1; omega
    have hbit := h.2 t ht
    rw [Bitmap.bit, hdiv t hlt, hmod t hlt] at hbit
    rw [BitVec.getLsbD_not, hbit, decide_eq_true hlt]
    rfl
  · intro h
    have hend := h.le_width hn
    refine ⟨by omega, fun t ht => ?_⟩
    have hbit := h t ht
    rw [BitVec.getLsbD_not, Bool.and_eq_true, Bool.not_eq_true'] at hbit
    rw [Bitmap.bit, hdiv t (by omega), hmod t (by omega)]
    exact hbit.2

theorem no_freeRun_of_word (hn : 0 < n) (hno : ∀ q, ¬ OnesAt (~~~ b.map i) q n) (k : Nat)
    (hlo : 64 * i ≤ k) (hhi : k < 64 * (i + 1)) : ¬ FreeRun b n k := by
  obtain ⟨j, rfl⟩ : ∃ j, k = 64 * i + j := ⟨k - 64 * i, by omega⟩
  rw [freeRun_iff hn (by omega)]
  exact hno j

/-- A word whose first run of `n` ones in the complement is at `q` ends the search. -/
theorem searched_here {hi : Nat} (hn : 0 < n) (hi' : i < hi) (hq : OnesAt (~~~ b.map i) q n)
    (hfirst : ∀ q' < q, ¬ OnesAt (~~~ b.map i) q' n) (hmarks : Marks b b' (64 * i + q) n) :
    Searched b b' n (64 * i) (64 * hi) ((i * 64 + q : Nat) : Int) := by
  have hend := hq.le_width hn
  refine .inr ⟨64 * i + q, by rw [Nat.mul_comm], by omega, by omega,
    (freeRun_iff hn (by omega)).mpr hq, fun k' hlo hlt => ?_, hmarks⟩
  obtain ⟨j, rfl⟩ : ∃ j, k' = 64 * i + j := ⟨k' - 64 * i, by omega⟩
  rw [freeRun_iff hn (by omega)]
  exact hfirst j (by omega)

theorem not_onesAt_zero (hn : 0 < n) (q : Nat) : ¬ OnesAt (0 : Word) q n := by
  intro h
  have hbit : (0#64).getLsbD (q + 0) = true := h 0 hn
  rw [BitVec.getLsbD_zero] at hbit
  cases hbit

theorem onesAt_maxNum (hn : n ≤ 64) : OnesAt maxNum 0 n := by
  intro t ht
  rw [maxNum, BitVec.getLsbD_allOnes]
  exact decide_eq_true (by omega)

theorem getSetFreeLoop_spec :
    Searched b (getSetFreeLoop b k i).2 1 (64 * i) (64 * (i + k)) (getSetFreeLoop b k i).1 := by
  induction k generalizing i with
  | zero => exact .inl ⟨rfl, rfl, fun k h1 h2 => by omega⟩
  | succ k ih =>
    unfold getSetFreeLoop
    dsimp only
    split
    next hfull =>
      rw [show i + (k + 1) = i + 1 + k by omega]
      refine Searched.skip (by omega) (no_freeRun_of_word (by decide) fun q => ?_) ih
      rw [hfull]
      exact not_onesAt_zero (by decide) q
    next hfull =>
      split
      next hzero =>
        have hmarks := marks_setWord_or (b := b) (i := i) (isMask_one (m := 0) (by decide))
          (by decide)
        rw [hzero] at hmarks
        refine searched_here (q := 0) (by decide) (by omega) ?_ (fun q' hq' => by omega) hmarks
        rw [hzero]
        exact onesAt_maxNum (by decide)
      next hzero =>
        have hne : ~~~ b.map i ≠ 0#64 := by
          intro h
          have hnot := congrArg (~~~ ·) h
          simp only [BitVec.not_not] at hnot
          exact hfull (hnot.trans BitVec.not_zero)
        have hbit := BitVec.getLsbD_true_ctz_of_ne_zero hne
        have hlt := BitVec.lt_of_getLsbD hbit
        refine searched_here (by decide) (by omega) ?_
          (fun q' hq' => not_onesAt_of_lt_ctz (by decide) hq')
          (marks_setWord_or (isMask_one hlt) hlt)
        intro t ht
        obtain rfl : t = 0 := by omega
        exact hbit

/-- `bitmap_get_set_free` marks the first free bit. -/
theorem bitmapGetSetFree_spec (h : bitmapGetSetFree b = (r, b')) (hr : 0 ≤ r) :
    Searched b b' 1 0 (64 * b.words) r := by
  unfold bitmapGetSetFree at h
  split at h
  next =>
    cases h
    exact absurd hr (by decide)
  next =>
    have hloop := getSetFreeLoop_spec (b := b) (k := b.words) (i := 0)
    rwa [h, Nat.mul_zero, Nat.zero_add] at hloop

/--
**`findOnes` finds the first run of `n` ones.**

The word left is `x` moved down by the `p` bits already skipped, and no run starts in those.
-/
theorem findOnes_spec {x qw : Word} {rounds : Nat} (hn : 0 < n) (hqw : qw = x >>> p)
    (hskip : ∀ q < p, ¬ OnesAt x q n) (hrounds : 64 ≤ p + rounds) :
    (∀ q, findOnes n rounds qw p = some q → OnesAt x q n ∧ ∀ q' < q, ¬ OnesAt x q' n) ∧
      (findOnes n rounds qw p = none → ∀ q, ¬ OnesAt x q n) := by
  induction rounds generalizing qw p with
  | zero =>
    refine ⟨fun q h => (by cases h), fun _ q hones => ?_⟩
    have hend := hones.le_width hn
    exact hskip q (by omega) hones
  | succ rounds ih =>
    unfold findOnes
    split
    next hzero =>
      refine ⟨fun q h => (by cases h), fun _ q hones => ?_⟩
      by_cases hq : q < p
      · exact hskip q hq hones
      · have hmoved : OnesAt (x >>> p) (q - p) n := by
          rwa [onesAt_ushiftRight, show p + (q - p) = q by omega]
        rw [← hqw, hzero] at hmoved
        exact not_onesAt_zero hn _ hmoved
    next hne =>
      -- `z` zeros, then `k` ones, then a zero
      dsimp only
      generalize hz : bsf64 qw = z
      generalize hk : bsf64 (~~~ (qw >>> z)) = k
      have hzeros : ∀ q < p + z, ¬ OnesAt x q n := by
        intro q hq hones
        by_cases hlt : q < p
        · exact hskip q hlt hones
        · refine not_onesAt_of_lt_ctz (x := qw) hn (q := q - p) ?_ ?_
          · unfold bsf64 at hz
            omega
          · rwa [hqw, onesAt_ushiftRight, show p + (q - p) = q by omega]
      have hmoved : qw >>> z = x >>> (p + z) := by rw [hqw, BitVec.shiftRight_add]
      have hrun : OnesAt x (p + z) k := by
        have hones := onesAt_ctz_not (x := qw >>> z)
        rw [hmoved, onesAt_ushiftRight, ← hmoved] at hones
        exact hk ▸ hones
      have hstop : x.getLsbD (p + z + k) = false := by
        have hbit := getLsbD_ctz_not (x := qw >>> z)
        rwa [show (~~~ (qw >>> z)).ctz.toNat = k from hk, hmoved,
          BitVec.getLsbD_ushiftRight] at hbit
      split
      next hle =>
        refine ⟨fun q h => ?_, fun h => (by cases h)⟩
        cases h
        exact ⟨fun t ht => hrun t (by omega), hzeros⟩
      next hlt =>
        have hpos : 0 < k := by
          rcases Nat.eq_zero_or_pos k with h0 | hpos
          · have hone := BitVec.getLsbD_true_ctz_of_ne_zero hne
            rw [show qw.ctz.toNat = z from hz, hqw, BitVec.getLsbD_ushiftRight] at hone
            rw [h0, Nat.add_zero, hone] at hstop
            cases hstop
          · exact hpos
        refine ih ?_ ?_ (by omega)
        · rw [hmoved, ← BitVec.shiftRight_add]
        · intro q hq
          by_cases hq' : q < p + z
          · exact hzeros q hq'
          · exact not_onesAt_of_zero hstop (by omega) (by omega)

theorem getSetNfreeSmall_spec (hn : 0 < n) (hn' : n ≤ 64) :
    Searched b (getSetNfreeSmall b n k i).2 n (64 * i) (64 * (i + k))
      (getSetNfreeSmall b n k i).1 := by
  induction k generalizing i with
  | zero => exact .inl ⟨rfl, rfl, fun k h1 h2 => by omega⟩
  | succ k ih =>
    have hnext : (∀ q, ¬ OnesAt (~~~ b.map i) q n) →
        Searched b (getSetNfreeSmall b n k (i + 1)).2 n (64 * i) (64 * (i + (k + 1)))
          (getSetNfreeSmall b n k (i + 1)).1 := by
      intro hno
      rw [show i + (k + 1) = i + 1 + k by omega]
      exact Searched.skip (by omega) (no_freeRun_of_word hn hno) ih
    unfold getSetNfreeSmall
    dsimp only
    split
    next hskip =>
      refine hnext fun q hones => ?_
      rcases hskip with hzero | hfew
      · rw [hzero] at hones
        exact not_onesAt_zero hn q hones
      · exact absurd hones.le_cpop (by unfold popcnt64 at hfew; omega)
    next =>
      split
      next hempty =>
        have hmask := isMask_ones hn hn' (m := 0) (by decide)
        have hshl : ∀ y : Word, shl y 0 = y := fun y => by simp [shl]
        rw [hshl] at hmask
        refine searched_here (q := 0) hn (by omega) ?_ (fun q' hq' => by omega)
          ((marks_setWord_or hmask (by omega)).counters _ _)
        rw [hempty]
        exact onesAt_maxNum hn'
      next =>
        have hrounds : 64 ≤ 0 + 64 := Nat.le_refl 64
        obtain ⟨hsome, hnone⟩ := findOnes_spec hn
          (BitVec.ushiftRight_zero _).symm (fun q hq => by omega) hrounds
        split
        next p hp =>
          obtain ⟨hones, hfirst⟩ := hsome p hp
          have hend := hones.le_width hn
          exact searched_here hn (by omega) hones hfirst
            ((marks_setWord_or (isMask_ones hn hn' (by omega)) hend).counters _ _)
        next hp => exact hnext (hnone hp)

/-! ## The search for whole words -/

/-- The words from `i` to before `j` are zero. -/
def ZeroWords (b : Bitmap) (i j : Nat) : Prop := ∀ t, i ≤ t → t < j → b.map t = 0

/-- A place for `chunks` zero words: inside the map and aligned. -/
structure Fits (b : Bitmap) (al chunks i : Nat) : Prop where
  inside : i + chunks ≤ b.words
  aligned : i * 64 % al = 0
  zero : ZeroWords b i (i + chunks)

/-- What the inner loop says about the words from `start` on. -/
def Inner.Says (b : Bitmap) (chunks start : Nat) : Inner → Prop
  | .enough => start + chunks ≤ b.words ∧ ZeroWords b start (start + chunks)
  | .hit j => start ≤ j ∧ j < start + chunks ∧ j < b.words ∧ ZeroWords b start j ∧ b.map j ≠ 0
  | .short => b.words < start + chunks ∧ ZeroWords b start b.words

theorem countZero_spec {chunks start : Nat} (found : Nat) (hj : j = start + found)
    (hzero : ZeroWords b start j) (hk : j + k = b.words) (hfound : found < chunks) :
    (countZero b chunks k j found).Says b chunks start := by
  induction k generalizing j found with
  | zero =>
    rw [countZero, if_pos hfound]
    obtain rfl : j = b.words := by omega
    exact ⟨by omega, hzero⟩
  | succ k ih =>
    unfold countZero
    split
    next hword => exact ⟨by omega, by omega, by omega, hzero, hword⟩
    next hword =>
      have hzero' : ZeroWords b start (j + 1) := by
        intro t ht htj
        rcases Nat.lt_succ_iff_lt_or_eq.mp htj with hlt | rfl
        · exact hzero t ht hlt
        · exact Decidable.not_not.mp hword
      split
      next hdone =>
        rw [show j + 1 = start + chunks by omega] at hzero'
        exact ⟨by omega, hzero'⟩
      next hmore => exact ih (found + 1) (by omega) hzero' (by omega) (by omega)

/--
`Looks b al i s`: from word `i` on, the long search comes to word `s` and tries it as a start. When
a run of zeros from a tried start ends at word `j`, the search goes on at `j + 2`.
-/
inductive Looks (b : Bitmap) (al : Nat) : Nat → Nat → Prop
  | here {i : Nat} : Looks b al i i
  | next {i s : Nat} : b.map i ≠ 0 ∨ i * 64 % al ≠ 0 → Looks b al (i + 1) s → Looks b al i s
  | pass {i j s : Nat} : i * 64 % al = 0 → i < j → ZeroWords b i j → b.map j ≠ 0 →
    Looks b al (j + 2) s → Looks b al i s

/-- From word `i` on the map is zero to its end. -/
structure Ends (b : Bitmap) (al i : Nat) : Prop where
  inside : i < b.words
  aligned : i * 64 % al = 0
  zero : ZeroWords b i b.words

/-- What the outer loop, from word `i` on, says about the starts it tries. -/
def Outer.Says (b : Bitmap) (al chunks i : Nat) : Outer → Prop
  | .found s => Looks b al i s ∧ Fits b al chunks s ∧
    ∀ s', Looks b al i s' → Fits b al chunks s' → s ≤ s'
  | .short => (∃ s, Looks b al i s ∧ Ends b al s) ∧ ∀ s, Looks b al i s → ¬ Fits b al chunks s
  | .exhausted => ∀ s, Looks b al i s → ¬ Fits b al chunks s ∧ ¬ Ends b al s

section Long

variable {al chunks s : Nat}

theorem Looks.le (h : Looks b al i s) : i ≤ s := by
  induction h with
  | here => exact le_rfl
  | next _ _ ih => omega
  | pass _ hlt _ _ _ ih => omega

/-- A start that does not do leads on to the next one. -/
theorem Outer.Says.before {o : Outer} (h : o.Says b al chunks j)
    (hto : ∀ s, Looks b al j s → Looks b al i s)
    (hof : ∀ s, Looks b al i s → s = i ∨ Looks b al j s)
    (hfits : ¬ Fits b al chunks i) (hends : ¬ Ends b al i) : o.Says b al chunks i := by
  cases o with
  | found s =>
    refine ⟨hto s h.1, h.2.1, fun s' hs' hf => ?_⟩
    rcases hof s' hs' with rfl | hlook
    · exact absurd hf hfits
    · exact h.2.2 s' hlook hf
  | short =>
    obtain ⟨⟨s, hs, he⟩, hno⟩ := h
    refine ⟨⟨s, hto s hs, he⟩, fun s' hs' => ?_⟩
    rcases hof s' hs' with rfl | hlook
    · exact hfits
    · exact hno s' hlook
  | exhausted =>
    intro s' hs'
    rcases hof s' hs' with rfl | hlook
    · exact ⟨hfits, hends⟩
    · exact h s' hlook

theorem says_exhausted (hc : 0 < chunks) (hle : b.words ≤ i) :
    Outer.exhausted.Says b al chunks i := by
  intro s hs
  have his := hs.le
  exact ⟨fun hf => absurd hf.inside (by omega), fun he => absurd he.inside (by omega)⟩

/-- **The outer loop** tries the starts it looks at, in order. -/
theorem findZeroWords_spec (b : Bitmap) (al rounds : Nat) (hc : 0 < chunks)
    (hr : b.words ≤ i + rounds) :
    (findZeroWords b al chunks rounds i).Says b al chunks i := by
  induction rounds generalizing i with
  | zero => exact says_exhausted hc hr
  | succ rounds ih =>
    unfold findZeroWords
    split
    next hle => exact says_exhausted hc hle
    next hin =>
      split
      next hbad =>
        refine (ih (by omega)).before (fun s hs => .next hbad hs) (fun s hs => ?_) ?_ ?_
        · cases hs with
          | here => exact .inl rfl
          | next _ hs => exact .inr hs
          | pass hal hlt hz _ _ =>
            exact absurd hbad (not_or.mpr ⟨not_not.mpr (hz i le_rfl hlt), not_not.mpr hal⟩)
        · exact fun hf => hbad.elim (· (hf.zero i le_rfl (by omega))) (· hf.aligned)
        · exact fun he => hbad.elim (· (he.zero i le_rfl (by omega))) (· he.aligned)
      next hgood =>
        rw [not_or, not_not, not_not] at hgood
        have hcount := countZero_spec (b := b) (k := b.words - i) (j := i) 0 rfl
          (fun t _ _ => by omega) (by omega) hc
        split
        next hin' =>
          rw [hin'] at hcount
          exact ⟨.here, ⟨hcount.1, hgood.2, hcount.2⟩, fun s' hs' _ => hs'.le⟩
        next j hj =>
          rw [hj] at hcount
          obtain ⟨hij, hjc, hjw, hz, hne⟩ := hcount
          have hlt : i < j := Nat.lt_of_le_of_ne hij fun h => hne (h ▸ hgood.1)
          refine (ih (by omega)).before (fun s hs => .pass hgood.2 hlt hz hne hs)
            (fun s hs => ?_) ?_ ?_
          · cases hs with
            | here => exact .inl rfl
            | next hbad _ =>
              exact absurd hbad (not_or.mpr ⟨not_not.mpr hgood.1, not_not.mpr hgood.2⟩)
            | @pass _ j' _ _ hlt' hz' hne' hs =>
              have hjj : j' = j := by
                by_contra hdiff
                rcases Nat.lt_or_gt_of_ne hdiff with h | h
                · exact hne' (hz j' (by omega) h)
                · exact hne (hz' j (by omega) h)
              exact .inr (hjj ▸ hs)
          · exact fun hf => hne (hf.zero j hij hjc)
          · exact fun he => hne (he.zero j hij hjw)
        next hj =>
          rw [hj] at hcount
          refine ⟨⟨i, .here, by omega, hgood.2, hcount.2⟩, fun s hs hf => ?_⟩
          have his := hs.le
          have hse := hf.inside
          have hsh := hcount.1
          omega

end Long

theorem shr_maxNum_full : shr maxNum (64 - 0) = maxNum := BitVec.ushiftRight_zero _

theorem markLoop_index {remaining : Nat} {s : Int}
    (h : markLoop n s k i remaining b = .ok (r, b')) : r = s * 64 := by
  induction k generalizing i remaining b with
  | zero => cases h
  | succ k ih =>
    unfold markLoop at h
    dsimp only at h
    split at h
    next => exact ih h
    next => cases h; rfl

/-- The marking loop sets all the bits of its words. -/
theorem markLoop_spec {remaining s : Nat} (hlow : 64 * k < remaining)
    (hhigh : remaining ≤ 64 * (k + 1)) (h : markLoop n s (k + 1) i remaining b = .ok (r, b')) :
    Marks b b' (64 * (s + i)) (64 * (k + 1)) := by
  have hword : Marks b (b.setWord ((s : Int) + i) maxNum) (64 * (s + i)) 64 := marks_setWord_maxNum
  induction k generalizing i remaining b with
  | zero =>
    unfold markLoop at h
    rw [if_neg (by omega)] at h
    have hlast : (if min remaining 64 = 64 then maxNum
        else shr maxNum (64 - (remaining - min remaining 64))) = maxNum := by
      rw [show remaining - min remaining 64 = 0 by omega, shr_maxNum_full, ite_self]
    rw [hlast] at h
    cases h
    exact hword.counters _ _
  | succ k ih =>
    unfold markLoop at h
    rw [if_pos (by omega)] at h
    have hmarks := ih (by omega) (by omega) h marks_setWord_maxNum
    exact hword.trans hmarks (by omega)

/-- The run of a long search: whole free words, all marked. -/
structure LongRun (b b' : Bitmap) (n i : Nat) : Prop where
  inside : i + chunkCount n ≤ b.words
  zero : ∀ t < chunkCount n, b.map (i + t) = 0
  marks : Marks b b' (64 * i) (64 * chunkCount n)

/-- **A search of `bitmap_get_set_nfree` that does not fail** found and marked free bits. -/
theorem bitmapGetSetNfree_spec {al : Nat} (hn : 0 < n)
    (h : bitmapGetSetNfree b n al = .ok (r, b')) (hr : 0 ≤ r) :
    (n ≤ 64 → Searched b b' n 0 (64 * b.words) r) ∧
      (64 < n → ∃ i : Nat, r = ((64 * i : Nat) : Int) ∧ LongRun b b' n i) := by
  obtain ⟨hlow, hhigh⟩ := chunkCount_eq hn
  obtain ⟨c, hc⟩ : ∃ c, chunkCount n = c + 1 := ⟨chunkCount n - 1, by omega⟩
  unfold bitmapGetSetNfree at h
  split at h
  next => cases h; exact absurd hr (by decide)
  split at h
  next => cases h; exact absurd hr (by decide)
  split at h
  next hsmall =>
    refine ⟨fun _ => ?_, fun hlong => absurd hlong (by omega)⟩
    split at h
    next => cases h
    next =>
      have hloop := getSetNfreeSmall_spec (b := b) (k := b.words) (i := 0) hn hsmall
      rwa [Except.ok.inj h, Nat.mul_zero, Nat.zero_add] at hloop
  next hlong =>
    refine ⟨fun hsmall => absurd hsmall hlong, fun _ => ?_⟩
    dsimp only at h
    split at h
    next i hfound =>
      have hout := findZeroWords_spec b (if al = 0 then 1 else al) b.words (i := 0)
        (show 0 < chunkCount n by omega) (by omega)
      rw [hfound] at hout
      obtain ⟨-, hfits, -⟩ := hout
      have hindex := markLoop_index h
      rw [hc] at h
      have hmarks := markLoop_spec (by omega) (by omega) h
      rw [← hc] at hmarks
      exact ⟨i, by omega, hfits.inside, fun t ht => hfits.zero _ (by omega) (by omega), hmarks⟩
    next => cases h; cases hr
    next =>
      have hindex := markLoop_index h
      omega

end Osdev.Bmp
