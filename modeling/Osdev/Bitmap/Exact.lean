import Osdev.Bitmap.Spec
import Osdev.Lib.Except

/-!
# When the bitmap functions do what they are for

* the search for at most 64 bits is right for every bitmap (`bitmapGetSetNfree_short`);
* the search for more bits passes over the word after a run that was too short, marks whole words,
  and marks the word before the map when it finds nothing (`bitmapGetSetNfree_long_iff`);
* the functions on ranges of bits go through fewer bits than the range has, unless it lies in one
  word (`rangeOps_iff`).
-/

namespace Osdev.Bmp

open Osdev.Lib

variable {b b' : Bitmap} {i j k n index : Nat}

/-! ## The search in one word -/

/-- **A search for at most 64 bits** marks a free run inside one word, or there is none, or `free`
says that there is not room enough. -/
theorem bitmapGetSetNfree_short (b : Bitmap) (n : Nat) (hn : 0 < n) (hn' : n ≤ 64) :
    ∃ r b', bitmapGetSetNfree b n 0 = .ok (r, b') ∧
      ((∃ k : Nat, r = k ∧ k + n ≤ 64 * b.words ∧ FreeRun b n k ∧ Marks b b' k n) ∨
        (r = -1 ∧ b' = b ∧ (b.free < n ∨ ∀ k < 64 * b.words, ¬ FreeRun b n k))) := by
  unfold bitmapGetSetNfree
  split
  next hfree => exact ⟨-1, b, rfl, .inr ⟨rfl, rfl, .inl hfree⟩⟩
  next =>
    have hloop := getSetNfreeSmall_spec (b := b) (k := b.words) (i := 0) hn hn'
    rw [Nat.zero_add] at hloop
    refine ⟨_, _, rfl, ?_⟩
    rcases hloop with ⟨hr, hb, hno⟩ | ⟨k, hr, -, hk, hrun, -, hmarks⟩
    · exact .inr ⟨hr, hb, .inr fun k hk => hno k (Nat.zero_le _) hk⟩
    · have hword := hrun.1
      exact .inl ⟨k, hr, by omega, hrun, hmarks⟩

/-- Two words, the first with bits 0 to 2 and bit 5 in use, the second free. -/
def sampleMap : Bitmap where
  map i := if i = 0 then 0x27 else 0
  front := 0
  size := 16
  free := 124
  used := 4

theorem bitmapGetSetNfree_short_sample : ∃ r b', bitmapGetSetNfree sampleMap 3 0 = .ok (r, b') ∧
    ((∃ k : Nat, r = k ∧ k + 3 ≤ 64 * sampleMap.words ∧ FreeRun sampleMap 3 k ∧
      Marks sampleMap b' k 3) ∨
      (r = -1 ∧ b' = sampleMap ∧
        (sampleMap.free < 3 ∨ ∀ k < 64 * sampleMap.words, ¬ FreeRun sampleMap 3 k))) :=
  bitmapGetSetNfree_short sampleMap 3 (by decide) (by decide)

/-! ## The search for whole words -/

/-- The alignment the long search works with. -/
def step (al : Nat) : Nat := if al = 0 then 1 else al

/-- What a search for more than 64 bits is for: the first place with enough zero words gets its `n`
bits marked; if there is none, nothing changes. -/
structure LongSearch (b : Bitmap) (n al : Nat) : Prop where
  none : (∀ i, ¬ Fits b (step al) (chunkCount n) i) → bitmapGetSetNfree b n al = .ok (-1, b)
  first : ∀ i, Fits b (step al) (chunkCount n) i →
    (∀ i' < i, ¬ Fits b (step al) (chunkCount n) i') →
    ∃ b', bitmapGetSetNfree b n al = .ok ((64 * i : Nat), b') ∧ Marks b b' (64 * i) n

/-- When the search does that. -/
structure LongServed (b : Bitmap) (n al : Nat) : Prop where
  none : (∀ i, ¬ Fits b (step al) (chunkCount n) i) →
    b.free < n ∨ ∃ i, Looks b (step al) 0 i ∧ Ends b (step al) i
  first : ∀ i, Fits b (step al) (chunkCount n) i →
    (∀ i' < i, ¬ Fits b (step al) (chunkCount n) i') →
    n ≤ b.free ∧ n % 64 = 0 ∧ Looks b (step al) 0 i

theorem markLoop_returns {remaining : Nat} {s : Int} (hlow : 64 * k < remaining)
    (hhigh : remaining ≤ 64 * (k + 1)) :
    ∃ b', markLoop n s (k + 1) i remaining b = .ok (s * 64, b') := by
  induction k generalizing i remaining b with
  | zero =>
    unfold markLoop
    rw [if_neg (by omega)]
    exact ⟨_, rfl⟩
  | succ k ih =>
    unfold markLoop
    rw [if_pos (by omega)]
    exact ih (by omega) (by omega)

/-- The search after its tests, in terms of what the outer loop says. -/
theorem bitmapGetSetNfree_long {al : Nat} (hn : 64 < n) (hfree : n ≤ b.free)
    (hal : al = 0 ∨ ∃ e < 64, al = 2 ^ e) :
    ∃ o : Outer, o.Says b (step al) (chunkCount n) 0 ∧ match o with
      | .found i => ∃ b', bitmapGetSetNfree b n al = .ok ((64 * i : Nat), b') ∧
        Marks b b' (64 * i) (64 * chunkCount n)
      | .short => bitmapGetSetNfree b n al = .ok (-1, b)
      | .exhausted => ∃ b', bitmapGetSetNfree b n al = .ok (-64, b') := by
  have hpow : al &&& subWord al 1 = 0 := by
    rcases hal with rfl | ⟨e, he, rfl⟩
    · decide
    · have hpos := Nat.two_pow_pos e
      have hlt : 2 ^ e < word := Nat.pow_lt_pow_right (by decide) he
      rw [subWord_of_le (by omega) hlt, Nat.and_two_pow_sub_one_eq_mod, Nat.mod_self]
  obtain ⟨c, hc, hlow, hhigh⟩ := (chunkCount_cases n).resolve_left (by omega)
  have hout := findZeroWords_spec b (step al) b.words (i := 0) (show 0 < chunkCount n by omega)
    (by omega)
  refine ⟨_, hout, ?_⟩
  rw [bitmapGetSetNfree, if_neg (by omega), if_neg (not_not.mpr hpow), if_neg (by omega)]
  dsimp only
  rw [← step]
  cases findZeroWords b (step al) (chunkCount n) b.words 0 with
  | found i =>
    obtain ⟨b', hmark⟩ := markLoop_returns (s := i) hlow hhigh
    have hmarks := markLoop_spec hlow hhigh hmark
    dsimp only
    rw [hc, hmark]
    exact ⟨b', by rw [Int.mul_comm]; rfl, hmarks⟩
  | short => rfl
  | exhausted =>
    obtain ⟨b', hmark⟩ := markLoop_returns hlow hhigh
    exact ⟨b', by rwa [hc]⟩

/-- Marking whole words marks `n` bits only if `n` fills them. -/
theorem Marks.whole (hz : ZeroWords b i (i + chunkCount n))
    (h : Marks b b' (64 * i) (64 * chunkCount n)) : Marks b b' (64 * i) n ↔ n % 64 = 0 := by
  constructor
  · intro h'
    by_contra hmod
    have hlt : n < 64 * chunkCount n := by
      rw [chunkCount, if_pos (by omega)]
      omega
    -- the first bit after the `n` bits
    have hbit := (h.bit (64 * i + n)).symm.trans (h'.bit (64 * i + n))
    have hword : b.map ((64 * i + n) / 64) = 0 := hz _ (by omega) (by omega)
    simp [Bitmap.bit, hword, hlt] at hbit
  · intro hmod
    have hn : 64 * chunkCount n = n := by
      rw [chunkCount, if_neg (by omega)]
      omega
    rwa [hn] at h

/--
**The search for more than 64 bits** does what it is for exactly in the bitmaps that `LongServed`
describes.
-/
theorem bitmapGetSetNfree_long_iff (b : Bitmap) (n al : Nat) (hn : 64 < n)
    (hal : al = 0 ∨ ∃ e < 64, al = 2 ^ e) : LongSearch b n al ↔ LongServed b n al := by
  by_cases hfree : b.free < n
  · have hres : bitmapGetSetNfree b n al = .ok (-1, b) := by
      rw [bitmapGetSetNfree, if_pos hfree]
    constructor
    · intro h
      refine ⟨fun _ => .inl hfree, fun i hi hfirst => ?_⟩
      obtain ⟨b', hb', -⟩ := h.first i hi hfirst
      rw [hres] at hb'
      cases hb'
    · intro h
      refine ⟨fun _ => hres, fun i hi hfirst => ?_⟩
      exact absurd (h.first i hi hfirst).1 (by omega)
  · rw [Nat.not_lt] at hfree
    obtain ⟨o, hout, hres⟩ := bitmapGetSetNfree_long hn hfree hal
    constructor
    · intro h
      refine ⟨fun hno => .inr ?_, fun i hi hfirst => ⟨hfree, ?_⟩⟩
      · have hkeep := h.none hno
        cases o with
        | found s => exact absurd hout.2.1 (hno s)
        | short => exact hout.1
        | exhausted =>
          obtain ⟨b', hb'⟩ := hres
          cases hkeep.symm.trans hb'
      · obtain ⟨b', hb', hmarks⟩ := h.first i hi hfirst
        cases o with
        | found s =>
          obtain ⟨b'', hb'', hwhole⟩ := hres
          have heq := hb'.symm.trans hb''
          simp only [Except.ok.injEq, Prod.mk.injEq] at heq
          obtain rfl : i = s := by omega
          obtain rfl := heq.2
          exact ⟨(hwhole.whole hi.zero).mp hmarks, hout.1⟩
        | short => cases hb'.symm.trans hres
        | exhausted =>
          obtain ⟨b'', hb''⟩ := hres
          cases hb'.symm.trans hb''
    · intro h
      refine ⟨fun hno => ?_, fun i hi hfirst => ?_⟩
      · obtain ⟨s, hlook, hends⟩ := (h.none hno).resolve_left (by omega)
        cases o with
        | found s => exact absurd hout.2.1 (hno s)
        | short => exact hres
        | exhausted => exact absurd hends (hout s hlook).2
      · obtain ⟨-, hmod, hlook⟩ := h.first i hi hfirst
        cases o with
        | found s =>
          obtain ⟨b', hb', hmarks⟩ := hres
          have hle := hout.2.2 i hlook hi
          obtain rfl : s = i := by
            by_contra hne
            exact hfirst s (by omega) hout.2.1
          exact ⟨b', hb', (hmarks.whole hi.zero).mpr hmod⟩
        | short => exact absurd hi (hout.2 i hlook)
        | exhausted => exact absurd hi (hout i hlook).1

/-- Four free words: 128 bits fit at word 0. -/
def freeMap : Bitmap where
  map _ := 0
  front := 0
  size := 32
  free := 256
  used := 0

theorem bitmapGetSetNfree_long_iff_free : LongSearch freeMap 128 0 ↔ LongServed freeMap 128 0 :=
  bitmapGetSetNfree_long_iff freeMap 128 0 (by decide) (.inl rfl)

/-- Three words with one bit of the middle one in use. -/
def splitMap : Bitmap :=
  { freeMap with map := fun i => if i = 1 then 1 else 0, size := 24, free := 191, used := 1 }

/-- No two words of this map are free together; the search runs past its end, marks the word before
the map and returns -64. -/
theorem not_longSearch_split : ¬ LongSearch splitMap 128 0 := by
  intro h
  have hno : ∀ i, ¬ Fits splitMap (step 0) (chunkCount 128) i := by
    intro i hi
    have hin : i + 2 ≤ 3 := hi.inside
    exact absurd (hi.zero 1 (by omega) (by change 1 < i + 2; omega)) (by decide)
  have hres : (bitmapGetSetNfree splitMap 128 0).toOption.any (fun x => x.1 == -64) := by
    rfl
  rw [h.none hno] at hres
  cases hres

/-! ## Ranges of bits -/

/-- `bitmap_get_n` counts the ones of the range. -/
def GetsRange (b : Bitmap) (index n : Nat) : Prop := bitmapGetN b index n = .ok (b.ones index n)

/-- `bitmap_set_n` sets the bits of the range and no other. -/
def SetsRange (b : Bitmap) (index n : Nat) : Prop :=
  ∃ r b', bitmapSetN b index n = .ok (r, b') ∧ Marks b b' index n

/-- `bitmap_clear_n` clears the bits of the range and no other. -/
def ClearsRange (b : Bitmap) (index n : Nat) : Prop :=
  ∃ b', bitmapClearN b index n = .ok b' ∧ Resets b b' index n

/-- The bits of the range that `bitmap_get_n` and `bitmap_set_n` do not come to: those of the first
word when there are at least 64, and those in the word after the last one of `n` bits counted from
the start of the first word. -/
def Missed (index n j : Nat) : Prop :=
  (64 ≤ n ∧ j < 64 * (index / 64 + 1)) ∨ 64 * (index / 64) + max n 64 ≤ j

/-- The bits of the range that `bitmap_clear_n` does not come to. -/
def MissedByClear (index n j : Nat) : Prop :=
  (64 ≤ n ∧ index % 64 = 0 ∧ j < index + 64) ∨ 64 * (index / 64 + chunkCount n) ≤ j

theorem missed_iff (hlow : index ≤ j) (hhigh : j < index + n) :
    Missed index n j ↔
      ¬ (reachStart index n ≤ j ∧ j < reachStart index n + reachCount index n) := by
  unfold Missed reachStart reachCount
  split <;> omega

theorem missedByClear_iff (hlow : index ≤ j) (hhigh : j < index + n) : MissedByClear index n j ↔
    ¬ (clearStart index n ≤ j ∧ j < clearStart index n + clearCount index n) := by
  obtain ⟨c, hc, hlow', hhigh'⟩ := (chunkCount_cases n).resolve_left (by omega)
  rw [MissedByClear, clearStart, clearCount]
  split <;> omega

/-- What is reached lies in the range. -/
theorem reach_inside (hlow : reachStart index n ≤ j)
    (hhigh : j < reachStart index n + reachCount index n) : index ≤ j ∧ j < index + n := by
  unfold reachStart reachCount at *
  split at hlow <;> split at hhigh <;> omega

/-- The ones of the range are those reached and those missed before and after. -/
theorem ones_range (b : Bitmap) (index n : Nat) : ∃ before after,
    b.ones index n = before + b.ones (reachStart index n) (reachCount index n) + after ∧
      (before + after = 0 ↔
        ∀ j, index ≤ j → j < index + n → Missed index n j → b.bit j = false) := by
  obtain ⟨hlow, hhigh⟩ : index ≤ reachStart index n ∧
      reachStart index n + reachCount index n ≤ index + n := by
    unfold reachStart reachCount
    split <;> omega
  refine ⟨b.ones index (reachStart index n - index),
    b.ones (reachStart index n + reachCount index n)
    (index + n - (reachStart index n + reachCount index n)), ?_, ?_⟩
  · generalize reachStart index n = s at *
    generalize reachCount index n = c at *
    obtain ⟨d, rfl⟩ := Nat.exists_eq_add_of_le hlow
    rw [show n = d + c + (n - (d + c)) by omega, ones_add, ones_add, Nat.add_sub_cancel_left]
    congr 2 <;> omega
  · rw [Nat.add_eq_zero_iff, ones_eq_zero, ones_eq_zero]
    constructor
    · intro h j hj hj' hm
      rw [missed_iff hj hj'] at hm
      by_cases hs : j < reachStart index n
      · exact h.1 j hj (by omega)
      · exact h.2 j (by omega) (by omega)
    · intro h
      refine ⟨fun j hj hj' => ?_, fun j hj hj' => ?_⟩
      · exact h j hj (by omega) ((missed_iff hj (by omega)).mpr (by omega))
      · exact h j (by omega) (by omega) ((missed_iff (by omega) (by omega)).mpr (by omega))

theorem getsRange_iff : GetsRange b index n ↔
    n ≤ b.free ∧ ∀ j, index ≤ j → j < index + n → Missed index n j → b.bit j = false := by
  by_cases hfree : n ≤ b.free
  · obtain ⟨before, after, hsum, hzero⟩ := ones_range b index n
    rw [GetsRange, bitmapGetN_eq hfree, ← hzero]
    simp only [Except.ok.injEq, hfree, true_and]
    omega
  · simp [GetsRange, bitmapGetN, hfree]

theorem or_decide_iff {x : Bool} {p q : Prop} [Decidable p] [Decidable q] (h : p → q) :
    (x || decide p) = (x || decide q) ↔ (q → ¬ p → x = true) := by
  by_cases hp : p <;> by_cases hq : q <;> cases x <;> simp_all

theorem and_not_decide_iff {x : Bool} {p q : Prop} [Decidable p] [Decidable q] (h : p → q) :
    (x && !decide p) = (x && !decide q) ↔ (q → ¬ p → x = false) := by
  by_cases hp : p <;> by_cases hq : q <;> cases x <;> simp_all

/-- Marking fewer bits is marking the range if the others were set before. -/
theorem Marks.range_iff (h : Marks b b' k n) (hin : ∀ j, k ≤ j ∧ j < k + n → i ≤ j ∧ j < i + m) :
    Marks b b' i m ↔
      ∀ j, i ≤ j → j < i + m → ¬ (k ≤ j ∧ j < k + n) → b.bit j = true := by
  constructor
  · intro h' j hlow hhigh
    exact (or_decide_iff (hin j)).mp ((h.bit j).symm.trans (h'.bit j)) ⟨hlow, hhigh⟩
  · intro hrest
    refine ⟨fun j => ?_, h.size⟩
    rw [h.bit, or_decide_iff (hin j)]
    exact fun hr => hrest j hr.1 hr.2

/-- Clearing fewer bits is clearing the range if the others were clear before. -/
theorem Resets.range_iff (h : Resets b b' k n) (hin : ∀ j, k ≤ j ∧ j < k + n → i ≤ j ∧ j < i + m) :
    Resets b b' i m ↔
      ∀ j, i ≤ j → j < i + m → ¬ (k ≤ j ∧ j < k + n) → b.bit j = false := by
  constructor
  · intro h' j hlow hhigh
    exact (and_not_decide_iff (hin j)).mp ((h.bit j).symm.trans (h'.bit j)) ⟨hlow, hhigh⟩
  · intro hrest
    refine ⟨fun j => ?_, h.size⟩
    rw [h.bit, and_not_decide_iff (hin j)]
    exact fun hr => hrest j hr.1 hr.2

theorem setsRange_iff : SetsRange b index n ↔
    n ≤ b.free ∧ ∀ j, index ≤ j → j < index + n → Missed index n j → b.bit j = true := by
  by_cases hfree : n ≤ b.free
  · obtain ⟨r, b', hset, hmarks⟩ := bitmapSetN_eq index hfree
    have hiff : SetsRange b index n ↔ Marks b b' index n := by
      simp [SetsRange, hset, and_assoc]
    rw [hiff, hmarks.range_iff fun j hj => reach_inside hj.1 hj.2]
    simp +contextual [hfree, missed_iff]
  · simp [SetsRange, bitmapSetN, hfree]

theorem clearsRange_iff : ClearsRange b index n ↔
    n ≤ b.used ∧ ∀ j, index ≤ j → j < index + n → MissedByClear index n j → b.bit j = false := by
  by_cases hused : n ≤ b.used
  · obtain ⟨b', hclear, hresets⟩ := bitmapClearN_eq index hused
    have hiff : ClearsRange b index n ↔ Resets b b' index n := by
      simp [ClearsRange, hclear]
    rw [hiff, hresets.range_iff fun j hj => by
      unfold clearStart clearCount at hj
      split at hj <;> omega]
    simp +contextual [hused, missedByClear_iff]
  · simp [ClearsRange, bitmapClearN, hused]

/--
**The functions on ranges** are right exactly if the counter they test covers the range and the bits
they do not come to have the value that the function would have given or counted.
-/
theorem rangeOps_iff (b : Bitmap) (index n : Nat) :
    (GetsRange b index n ↔
      n ≤ b.free ∧ ∀ j, index ≤ j → j < index + n → Missed index n j → b.bit j = false) ∧
    (SetsRange b index n ↔
      n ≤ b.free ∧ ∀ j, index ≤ j → j < index + n → Missed index n j → b.bit j = true) ∧
    (ClearsRange b index n ↔
      n ≤ b.used ∧ ∀ j, index ≤ j → j < index + n → MissedByClear index n j → b.bit j = false) :=
  ⟨getsRange_iff, setsRange_iff, clearsRange_iff⟩

/-- Four words, the second one in use. -/
def halfMap : Bitmap :=
  { freeMap with map := fun i => if i = 1 then maxNum else 0, free := 192, used := 64 }

/-- A range over the end of a word, counted and marked; and a range that is a whole word. -/
theorem halfMap_ranges :
    ¬ GetsRange halfMap 60 8 ∧ ¬ SetsRange halfMap 124 8 ∧ ¬ ClearsRange halfMap 64 64 := by
  refine ⟨fun h => ?_, fun h => ?_, fun h => ?_⟩
  · exact absurd ((getsRange_iff.mp h).2 64 (by decide) (by decide) (.inr (by decide))) (by decide)
  · exact absurd ((setsRange_iff.mp h).2 128 (by decide) (by decide) (.inr (by decide))) (by decide)
  · exact absurd ((clearsRange_iff.mp h).2 64 (by decide) (by decide)
      (.inl ⟨by decide, by decide, by decide⟩)) (by decide)

end Osdev.Bmp
