import Osdev.Base
import Osdev.Lib.Run

/-!
# The clock count

`clock_do_read_sync` adds up the distances between the samples of a counter of `w` bits. For a
sample after a wrap it adds `value_mask - last_count + count`, which is one less than the distance:
`value_mask` is the largest value of the counter, and not the number of its values.
-/

namespace Osdev.Clock

open Osdev.Lib

/-- The fields of `clock_source_t` that a read uses, and `current_clock_count`. -/
structure State where
  valueMask : Nat
  scaleNs : Nat
  lastCount : Nat
  currentClockCount : Nat

/-- `clock_do_read_sync`; `count` is what `source->read` returns. -/
def clockDoReadSync (s : State) (count : Nat) : State :=
  let delta :=
    if count < s.lastCount then addWord (subWord s.valueMask s.lastCount) count
    else count - s.lastCount
  { s with lastCount := count, currentClockCount := addWord s.currentClockCount delta }

/-- `clock_read_sync_nanos`. -/
def clockReadSyncNanos (s : State) (count : Nat) : Nat × State :=
  let s := clockDoReadSync s count
  (s.currentClockCount * s.scaleNs % word, s)

/-- A clock with the true counts at its first and its last sample. -/
structure Sampled where
  clock : State
  first : Nat
  last : Nat

variable {w start scale t : Nat} {x x' : Sampled}

/-- The state that `clock_init` leaves: the first sample is taken. -/
def initial (w scale start : Nat) : Sampled where
  clock := ⟨2 ^ w - 1, scale, start % 2 ^ w, 0⟩
  first := start
  last := start

/-- A read at the true count `t`: the counter shows its low `w` bits. -/
def Sampled.read (w : Nat) (x : Sampled) (t : Nat) : Sampled :=
  { x with clock := (clockReadSyncNanos x.clock (t % 2 ^ w)).2, last := t }

/-- One step of a run. -/
def Reads (w : Nat) (x : Sampled) (t : Nat) (x' : Sampled) : Prop := x' = x.read w t

/-- The true count grows, by less than the number of values of the counter. -/
def InTime (w : Nat) (x : Sampled) (t : Nat) : Prop := x.last ≤ t ∧ t < x.last + 2 ^ w

/-- After a read, the accumulated count is the true count minus the first one. -/
def Exact (w : Nat) (x : Sampled) (t : Nat) : Prop :=
  (x.read w t).clock.currentClockCount = (t - x.first) % word

/-- The counter does not wrap between the last sample and this one. -/
def NoWrap (w : Nat) (x : Sampled) (t : Nat) : Prop := t / 2 ^ w = x.last / 2 ^ w

/-- What holds as long as every read was exact. -/
structure Synced (w : Nat) (x : Sampled) : Prop where
  mask : x.clock.valueMask = 2 ^ w - 1
  sample : x.clock.lastCount = x.last % 2 ^ w
  count : x.clock.currentClockCount = (x.last - x.first) % word
  order : x.first ≤ x.last

theorem read_noWrap (hx : Synced w x) (ht : InTime w x t) (h : NoWrap w x t) : Exact w x t := by
  have hlast := Nat.div_add_mod x.last (2 ^ w)
  have hthis := Nat.div_add_mod t (2 ^ w)
  rw [h] at hthis
  have hle : ¬ t % 2 ^ w < x.last % 2 ^ w := by have := ht.1; omega
  have hsum : x.last - x.first + (t % 2 ^ w - x.last % 2 ^ w) = t - x.first := by
    have := ht.1; have := hx.order; omega
  simp only [Exact, Sampled.read, clockReadSyncNanos, clockDoReadSync, hx.sample, hx.count,
    if_neg hle]
  rw [addWord, Nat.mod_add_mod, hsum]

/-- A sample after a wrap is in the next round of the counter. -/
theorem div_of_wrap (ht : InTime w x t) (h : ¬ NoWrap w x t) : t / 2 ^ w = x.last / 2 ^ w + 1 := by
  have hge : x.last / 2 ^ w ≤ t / 2 ^ w := Nat.div_le_div_right ht.1
  have hle : t / 2 ^ w ≤ (x.last + 2 ^ w) / 2 ^ w := Nat.div_le_div_right ht.2.le
  rw [Nat.add_div_right _ (Nat.two_pow_pos w)] at hle
  have : t / 2 ^ w ≠ x.last / 2 ^ w := h
  omega

/-- A read after a wrap adds one too few. -/
theorem read_wrap (hw : w ≤ 64) (hx : Synced w x) (ht : InTime w x t) (h : ¬ NoWrap w x t) :
    (x.read w t).clock.currentClockCount = (t - x.first - 1) % word ∧ x.first < t := by
  have hpos : 0 < 2 ^ w := Nat.two_pow_pos w
  have hword : 2 ^ w ≤ word := Nat.pow_le_pow_right (by decide) hw
  have hlast := Nat.div_add_mod x.last (2 ^ w)
  have hnext := div_of_wrap ht h
  have hthis := Nat.div_add_mod t (2 ^ w)
  rw [hnext, Nat.mul_succ] at hthis
  have hwrap : t % 2 ^ w < x.last % 2 ^ w := by have := ht.2; omega
  have hsum : x.last - x.first + (2 ^ w - 1 - x.last % 2 ^ w + t % 2 ^ w) = t - x.first - 1 := by
    have := ht.1; have := hx.order; omega
  have hsub : subWord (2 ^ w - 1) (x.last % 2 ^ w) = 2 ^ w - 1 - x.last % 2 ^ w :=
    subWord_of_le (by omega) (by omega)
  refine ⟨?_, by have := hx.order; omega⟩
  simp only [Sampled.read, clockReadSyncNanos, clockDoReadSync, hx.sample, hx.count, hx.mask,
    if_pos hwrap, hsub]
  rw [addWord, addWord, Nat.mod_add_mod, Nat.add_mod_mod, hsum]

theorem exact_iff_noWrap (hw : w ≤ 64) (hx : Synced w x) (ht : InTime w x t) :
    Exact w x t ↔ NoWrap w x t := by
  refine ⟨fun hexact => ?_, read_noWrap hx ht⟩
  by_contra h
  obtain ⟨hcount, hlt⟩ := read_wrap hw hx ht h
  -- two numbers that follow each other differ modulo `2 ^ 64`
  rw [Exact, hcount, word_eq] at hexact
  omega

theorem Synced.read (hx : Synced w x) (ht : InTime w x t) (h : Exact w x t) :
    Synced w (x.read w t) :=
  ⟨hx.mask, rfl, h, hx.order.trans ht.1⟩

/-- **For every sequence of samples in time, the accumulated count is exact after each read exactly
if the counter never wraps between two samples.** -/
theorem reads_exact_iff (hw : w ≤ 64) (scale start : Nat) (ts : List Nat)
    (hts : AllSteps (Reads w) (InTime w) ts (initial w scale start)) :
    AllSteps (Reads w) (Exact w) ts (initial w scale start) ↔
      AllSteps (Reads w) (NoWrap w) ts (initial w scale start) := by
  refine allSteps_congr (fun _ _ => exact_iff_noWrap hw) ?_ ⟨rfl, rfl, ?_, le_rfl⟩ hts
  · rintro x t x' hx ht hexact rfl
    exact hx.read ht hexact
  · simp [initial]

theorem reads_exact_early : AllSteps (Reads 8) (InTime 8) [7, 250] (initial 8 1 5) ∧
    AllSteps (Reads 8) (Exact 8) [7, 250] (initial 8 1 5) := by
  have hts : AllSteps (Reads 8) (InTime 8) [7, 250] (initial 8 1 5) := by
    simp [AllSteps, InTime, initial, Reads, Sampled.read]
  refine ⟨hts, (reads_exact_iff (by decide) 1 5 _ hts).mpr ?_⟩
  simp [AllSteps, NoWrap, initial, Reads, Sampled.read]

/-- **A counter of 8 bits that is sampled at 250 and at 260 has advanced by 10, but 9 is added.** -/
theorem eight_bits_lose_one : InTime 8 (initial 8 1 250) 260 ∧
    ((initial 8 1 250).read 8 260).clock.currentClockCount = 9 ∧
      ¬ Exact 8 (initial 8 1 250) 260 := by
  have hcount : ((initial 8 1 250).read 8 260).clock.currentClockCount = 9 := by rfl
  refine ⟨⟨by decide, by decide⟩, hcount, fun h => ?_⟩
  rw [Exact] at h
  revert h
  decide

/-- The first count, later by the wraps up to `t`. -/
def shifted (w : Nat) (x : Sampled) (t : Nat) : Nat := x.first + (t / 2 ^ w - x.first / 2 ^ w)

/-- A clock behind by its wraps is one that started later. -/
def Behind (w : Nat) (x : Sampled) : Prop :=
  x.first ≤ x.last ∧ Synced w { x with first := shifted w x x.last }

theorem Behind.read (hw : w ≤ 64) (hx : Behind w x) (ht : InTime w x t) :
    Behind w (x.read w t) := by
  obtain ⟨hle, hx⟩ := hx
  refine ⟨hle.trans ht.1, ?_⟩
  show Synced w { x.read w t with first := shifted w x t }
  by_cases h : NoWrap w x t
  · rw [show shifted w x t = shifted w x x.last by rw [shifted, h, shifted]]
    exact hx.read ht (read_noWrap hx ht h)
  · obtain ⟨hcount, hlt⟩ := read_wrap hw hx ht h
    have hnext : shifted w x t = shifted w x x.last + 1 := by
      have := Nat.div_le_div_right (c := 2 ^ w) hle
      rw [shifted, div_of_wrap ht h, shifted]
      omega
    rw [hnext]
    exact ⟨hx.mask, rfl, hcount.trans (by rw [Nat.sub_sub]; rfl), hlt⟩

/-- **Each wrap loses one: over every sequence of samples in time, the accumulated count is the true
one less the number of wraps.** -/
theorem reads_lose_wraps (hw : w ≤ 64)
    (h : Reach (fun x => ∃ scale start, x = initial w scale start)
    (fun x t x' => InTime w x t ∧ Reads w x t x') x) : shifted w x x.last ≤ x.last ∧
      x.clock.currentClockCount = (x.last - shifted w x x.last) % word := by
  obtain ⟨-, hx⟩ : Behind w x := h.invariant
    (by
      rintro _ ⟨scale, start, rfl⟩
      exact ⟨le_rfl, rfl, rfl, by simp [initial, shifted], by simp [initial, shifted]⟩)
    (by
      rintro x t _ hx ⟨ht, rfl⟩
      exact hx.read hw ht)
  exact ⟨hx.order, hx.count⟩

theorem reads_lose_wraps_once : ((initial 8 1 250).read 8 260).clock.currentClockCount = 9 :=
  (reads_lose_wraps (w := 8) (by decide)
    (.next 260 (.start ⟨1, 250, rfl⟩) ⟨⟨by decide, by decide⟩, rfl⟩)).2

end Osdev.Clock
