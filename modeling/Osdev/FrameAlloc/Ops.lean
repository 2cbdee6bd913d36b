import Osdev.Bitmap.Spec
import Osdev.FrameAlloc.Model
import Osdev.Lib.Except
import Osdev.Lib.Range

/-!
# What the frame allocator functions do

`Grants fa fa' k n` says that a call took the `n` frames from index `k` on, which were free and lie
inside the range. It is what `fa_alloc_pages` and `fa_reserve_pages` do when they succeed, provided
the search cannot run into the padding of the bitmap (`AllocFits`) and the reserved frames lie in
one word of the bitmap (`ReserveFits`).
-/

namespace Osdev.Frames

open Osdev.Bmp Osdev.Lib

variable {fa fa' : FrameAllocator} {frame count pgSize k n : Nat}
variable {b : Bitmap} {id : Nat}

/-- The range and the size of the bitmap are those of `new_frame_allocator`. -/
structure FrameAllocator.Ok (fa : FrameAllocator) : Prop where
  base : fa.base % pageSize = 0
  size : fa.size % pageSize = 0
  top : fa.base + fa.size ≤ word
  words : 64 * fa.frames.words ≤ fa.numFrames + 63

/-- `fa'` is `fa` after a call that cleared no bit. -/
structure Keeps (fa fa' : FrameAllocator) : Prop where
  base : fa'.base = fa.base
  size : fa'.size = fa.size
  words : fa'.frames.size = fa.frames.size
  bit : ∀ j, fa.frames.bit j = true → fa'.frames.bit j = true

structure Grants (fa fa' : FrameAllocator) (k n : Nat) : Prop extends Keeps fa fa' where
  inside : k + n ≤ fa.numFrames
  free : ∀ j < n, fa.frames.bit (k + j) = false
  taken : ∀ j < n, fa'.frames.bit (k + j) = true

theorem Keeps.refl : Keeps fa fa := ⟨rfl, rfl, rfl, fun _ h => h⟩

/-- Only the bitmap and the counter change, and the bitmap by setting bits. -/
theorem keeps_of_marks {m : Nat} (h : Marks fa.frames b k m) (free : Nat) :
    Keeps fa { fa with frames := b, free := free } :=
  ⟨rfl, rfl, h.size, fun j hj => by rw [h.bit, hj, Bool.true_or]⟩

theorem grants_of_marks {m : Nat} (h : Marks fa.frames b k m) (hm : n ≤ m)
    (hin : k + n ≤ fa.numFrames) (hfree : ∀ j < n, fa.frames.bit (k + j) = false) (free : Nat) :
    Grants fa { fa with frames := b, free := free } k n where
  toKeeps := keeps_of_marks h free
  inside := hin
  free := hfree
  taken j hj := by rw [h.bit, decide_eq_true (by omega), Bool.or_true]

/-! ## Conditions -/

/--
A search for `n` frames cannot end in the padding bits of the last word.

For at most 64 frames: if one word has `n` free bits in a row, then some word has them inside the
range. For more: the last words of the bitmap are not all free, or a run there ends inside the
range.
-/
def AllocFits (fa : FrameAllocator) (n : Nat) : Prop :=
  if n ≤ 64 then
    (∃ k < 64 * fa.frames.words, FreeRun fa.frames n k) →
      ∃ k, FreeRun fa.frames n k ∧ k + n ≤ fa.numFrames
  else
    fa.frames.words < chunkCount n ∨
      64 * (fa.frames.words - chunkCount n) + n ≤ fa.numFrames ∨
      ∃ t < chunkCount n, fa.frames.map (fa.frames.words - chunkCount n + t) ≠ 0

/-- The reserved frames end inside the range, and are one frame or fewer than 64 in one word. -/
def ReserveFits (fa : FrameAllocator) (frame n : Nat) : Prop :=
  frame + n * pageSize ≤ fa.base + fa.size ∧
    (n = 1 ∨ n < 64 ∧ (frame - fa.base) / pageSize % 64 + n ≤ 64)

/-! ## Pages -/

theorem isPageSize_iff : isPageSize pgSize = true ↔
    pgSize = pageSize ∨ pgSize = pageSize2Mb ∨ pgSize = pageSize1Gb := by
  unfold isPageSize
  simp only [Bool.or_eq_true, beq_iff_eq, or_assoc]

section

variable (h : isPageSize pgSize = true)

include h

/-- A page size is a power of two, at least a frame. -/
theorem isPageSize_pow :
    ∃ e, 12 ≤ e ∧ e < 64 ∧ pgSize = 2 ^ e := by
  rcases isPageSize_iff.mp h with rfl | rfl | rfl
  · exact ⟨12, by decide, by decide, rfl⟩
  · exact ⟨21, by decide, by decide, rfl⟩
  · exact ⟨30, by decide, by decide, rfl⟩

theorem isPageSize_dvd : ∃ m, 0 < m ∧ pgSize = pageSize * m := by
  rcases isPageSize_iff.mp h with rfl | rfl | rfl
  · exact ⟨1, by decide, rfl⟩
  · exact ⟨512, by decide, rfl⟩
  · exact ⟨262144, by decide, rfl⟩

theorem isAligned_iff :
    isAligned frame pgSize = true ↔ frame % pgSize = 0 := by
  obtain ⟨e, -, -, rfl⟩ := isPageSize_pow h
  rw [isAligned_two_pow, decide_eq_true_eq]

/-- The failure value of `fa_alloc` is not aligned to any page size. -/
theorem not_aligned_failure : isAligned (toWord (-1)) pgSize = false := by
  rcases isPageSize_iff.mp h with rfl | rfl | rfl <;> rfl

def Page.range (p : Page) : Range := ⟨p.address, p.size⟩

theorem newPage_size :
    (newPage id pgSize frame).size = pgSize := by
  rcases isPageSize_iff.mp h with rfl | rfl | rfl <;> rfl

end

/-- The pages of an allocation follow one another from `frame` on. -/
theorem allocPageStructs_eq (htop : frame + count * pgSize ≤ word) (hpg : 0 < pgSize) :
    allocPageStructs id pgSize count frame =
      (List.range count).map fun t => newPage id pgSize (frame + t * pgSize) := by
  induction count generalizing frame with
  | zero => rfl
  | succ count ih =>
    rw [Nat.succ_mul] at htop
    have hrest : allocPageStructs id pgSize count ((frame + pgSize) % word) =
        (List.range count).map fun t => newPage id pgSize (frame + pgSize + t * pgSize) := by
      rcases Nat.eq_zero_or_pos count with rfl | hpos
      · rfl
      · have hmul : pgSize ≤ count * pgSize := Nat.le_mul_of_pos_left _ hpos
        rw [Nat.mod_eq_of_lt (by omega)]
        exact ih (by omega)
    rw [allocPageStructs, hrest, List.range_succ_eq_map, List.map_cons, List.map_map]
    refine congrArg₂ List.cons (by rw [Nat.zero_mul, Nat.add_zero]) ?_
    refine List.map_congr_left fun t _ => ?_
    rw [Function.comp_apply, Nat.succ_mul, Nat.add_assoc, Nat.add_comm pgSize]

theorem range_disjoint_of_le {p q : Page} (h : p.address + p.size ≤ q.address) :
    p.range.Disjoint q.range :=
  Range.disjoint_of_le h

theorem allocPageStructs_pairwise (hpg : isPageSize pgSize = true)
    (htop : frame + count * pgSize ≤ word) :
    (allocPageStructs id pgSize count frame).Pairwise fun p q => p.range.Disjoint q.range := by
  obtain ⟨m, hm, hdvd⟩ := isPageSize_dvd hpg
  rw [allocPageStructs_eq htop (by rw [hdvd]; exact Nat.mul_pos (by decide) hm), List.pairwise_map]
  refine List.pairwise_lt_range.imp fun {t u} htu => range_disjoint_of_le ?_
  rw [newPage_size hpg]
  have hmul : (t + 1) * pgSize ≤ u * pgSize := Nat.mul_le_mul_right _ htu
  rw [Nat.succ_mul] at hmul
  show frame + t * pgSize + pgSize ≤ frame + u * pgSize
  omega

/-! ## Allocation -/

/-- The words of the bitmap before its last one belong to the range. -/
theorem FrameAllocator.Ok.fits {i c : Nat} (h : fa.Ok) (hin : i + c < fa.frames.words)
    (hn : n ≤ 64 * c) : 64 * i + n ≤ fa.numFrames := by
  have hwords := h.words
  omega

/-- The first of the free runs is not after one that ends inside the range. -/
theorem grants_of_searched {r : Int} (hfits : AllocFits fa n) (hn : n ≤ 64)
    (h : Searched fa.frames b n 0 (64 * fa.frames.words) r) (hr : 0 ≤ r) (free : Nat) :
    ∃ k : Nat, r = k ∧ Grants fa { fa with frames := b, free := free } k n := by
  rcases h with ⟨rfl, -, -⟩ | ⟨k, rfl, -, hk, hrun, hfirst, hmarks⟩
  · cases hr
  · unfold AllocFits at hfits
    rw [if_pos hn] at hfits
    obtain ⟨k', hrun', hin⟩ := hfits ⟨k, hk, hrun⟩
    have hle : k ≤ k' := by
      by_contra hlt
      exact hfirst k' (Nat.zero_le _) (by omega) hrun'
    exact ⟨k, rfl, grants_of_marks hmarks (Nat.le_refl n) (by omega) hrun.2 free⟩

/-- Only the last possible run of words can end in the padding. -/
theorem grants_of_longRun {i : Nat} (hok : fa.Ok) (hfits : AllocFits fa n) (hn : 64 < n)
    (h : LongRun fa.frames b n i) (free : Nat) :
    Grants fa { fa with frames := b, free := free } (64 * i) n := by
  obtain ⟨-, hhigh⟩ := chunkCount_eq (n := n) (by omega)
  unfold AllocFits at hfits
  rw [if_neg (by omega)] at hfits
  refine grants_of_marks h.marks hhigh ?_ (fun j hj => ?_) free
  · by_cases hlast : i + chunkCount n < fa.frames.words
    · exact hok.fits hlast hhigh
    · have hin := h.inside
      have hi : fa.frames.words - chunkCount n = i := by omega
      rw [hi] at hfits
      rcases hfits with hshort | hend | ⟨t, ht, hne⟩
      · omega
      · exact hend
      · exact absurd (h.zero t ht) hne
  · have hword := h.zero (j / 64) (by omega)
    rw [Bitmap.bit, show (64 * i + j) / 64 = i + j / 64 by omega, hword]
    exact BitVec.getLsbD_zero

theorem num4kPages_eq (hpg : isPageSize pgSize = true) (hwrap : count * pgSize < word) :
    num4kPages count pgSize * pageSize = count * pgSize := by
  obtain ⟨m, -, rfl⟩ := isPageSize_dvd hpg
  rw [num4kPages, Nat.mod_eq_of_lt hwrap, show count * (pageSize * m) = count * m * pageSize by
    rw [Nat.mul_comm pageSize, Nat.mul_assoc], Nat.mul_div_cancel _ (by decide)]

theorem num4kPages_pos (hpg : isPageSize pgSize = true) (hwrap : count * pgSize < word)
    (hcount : count ≠ 0) : 0 < num4kPages count pgSize := by
  have heq := num4kPages_eq hpg hwrap
  obtain ⟨e, -, -, rfl⟩ := isPageSize_pow hpg
  have hpos : 0 < count * 2 ^ e := Nat.mul_pos (by omega) (Nat.two_pow_pos e)
  rcases Nat.eq_zero_or_pos (num4kPages count (2 ^ e)) with h0 | hn
  · rw [h0] at heq
    omega
  · exact hn

/-- `bitmap_fa_alloc` takes free frames, or returns `-1`. -/
theorem bitmapFaAlloc_spec {address : Int} (hok : fa.Ok)
    (hfits : AllocFits fa (num4kPages count pgSize)) (hn : 0 < num4kPages count pgSize)
    (h : bitmapFaAlloc fa count pgSize = .ok (address, fa')) :
    address = -1 ∨ ∃ k : Nat, address = ((fa.base + k * pageSize : Nat) : Int) ∧
      Grants fa fa' k (num4kPages count pgSize) := by
  unfold bitmapFaAlloc at h
  split at h
  next => cases h; exact .inl rfl
  next =>
    obtain ⟨⟨r, b⟩, hsearch, hres⟩ := bind_ok h
    dsimp only at hres
    split at hres
    next hr =>
      cases hres
      refine .inr ?_
      have hgrant : ∃ k : Nat, r = k ∧ Grants fa
          { fa with frames := b, free := subWord fa.free (count * pgSize) } k
          (num4kPages count pgSize) := by
        unfold takeFrames at hsearch
        split at hsearch
        next hone =>
          have hfound := bitmapGetSetFree_spec (Except.ok.inj hsearch) hr
          rw [hone] at hfits ⊢
          exact grants_of_searched hfits (by decide) hfound hr _
        next =>
          obtain ⟨hsmall, hlong⟩ := bitmapGetSetNfree_spec hn (mapError_eq_ok.mp hsearch) hr
          by_cases hle : num4kPages count pgSize ≤ 64
          · exact grants_of_searched hfits hle (hsmall hle) hr _
          · obtain ⟨i, rfl, hrun⟩ := hlong (by omega)
            exact ⟨_, rfl, grants_of_longRun hok hfits (by omega) hrun _⟩
      obtain ⟨k, rfl, hgrant⟩ := hgrant
      exact ⟨k, by push_cast; rfl, hgrant⟩
    next => cases hres; exact .inl rfl

/-- Frames of an allocator have addresses below `2 ^ 64`. -/
theorem Grants.top (h : Grants fa fa' k n) :
    fa.base + k * pageSize + n * pageSize ≤ fa.base + fa.size := by
  have hin := h.inside
  unfold FrameAllocator.numFrames pageSize at *
  omega

/-- **`fa_alloc_pages` hands out frames that were free, or nothing.** -/
theorem faAllocPages_spec {pages : Option (List Page)} (hok : fa.Ok)
    (hwrap : count * pgSize < word) (hfits : AllocFits fa (num4kPages count pgSize))
    (h : faAllocPages id fa count pgSize = .ok (pages, fa')) :
    (pages = none ∧ Keeps fa fa') ∨ ∃ k, isPageSize pgSize = true ∧
      Grants fa fa' k (num4kPages count pgSize) ∧ (fa.base + k * pageSize) % pgSize = 0 ∧
      pages = some (allocPageStructs id pgSize count (fa.base + k * pageSize)) := by
  obtain ⟨hpg, h⟩ := guard_eq_ok.mp h
  rw [Decidable.not_not] at hpg
  split at h
  next => cases h; exact .inl ⟨rfl, .refl⟩
  next hcount =>
    obtain ⟨⟨address, fa''⟩, halloc, hres⟩ := bind_ok h
    have hn := num4kPages_pos hpg hwrap (fun h0 => hcount (.inr h0))
    dsimp only at hres
    rcases bitmapFaAlloc_spec hok hfits hn halloc with rfl | ⟨k, rfl, hgrant⟩
    · rw [not_aligned_failure hpg] at hres
      cases hres
    · have htop := hgrant.top
      have hfa := hok.top
      have hpos : 0 < num4kPages count pgSize * pageSize := Nat.mul_pos hn (by decide)
      have hword : toWord ((fa.base + k * pageSize : Nat) : Int) = fa.base + k * pageSize := by
        rw [toWord, ← Int.natCast_emod, Int.toNat_natCast, Nat.mod_eq_of_lt (by omega)]
      rw [hword] at hres
      split at hres
      next =>
        cases hres
        exact .inl ⟨rfl, hgrant.toKeeps⟩
      next =>
        obtain ⟨hal, hres⟩ := guard_eq_ok.mp hres
        rw [Decidable.not_not, isAligned_iff hpg] at hal
        cases hres
        exact .inr ⟨k, hpg, hgrant, hal, rfl⟩

/-! ## Reservation -/

/-- A frame of the range has the index that its distance from the base gives. -/
theorem FrameAllocator.Ok.frameIndex_eq (hok : fa.Ok) (hframe : frame % pageSize = 0)
    (hbase : fa.base ≤ frame) (htop : frame < word) :
    fa.frameIndex frame = (frame - fa.base) / pageSize ∧
      fa.base + fa.frameIndex frame * pageSize = frame := by
  have hb := hok.base
  have hsub : subWord frame fa.base = frame - fa.base := subWord_of_le hbase htop
  have hmod : (frame - fa.base) % pageSize = 0 := by
    unfold pageSize at *
    omega
  rw [FrameAllocator.frameIndex, sizeToPages, hsub, if_pos hmod, Nat.add_zero]
  refine ⟨rfl, ?_⟩
  have hmul := Nat.div_mul_cancel (Nat.dvd_of_mod_eq_zero hmod)
  omega

/-- `bitmap_fa_reserve` takes the frames if they are free. -/
theorem bitmapFaReserve_spec {reserved : Bool}
    (hin : fa.frameIndex frame + num4kPages count pgSize ≤ fa.numFrames)
    (hword : num4kPages count pgSize = 1 ∨ num4kPages count pgSize < 64 ∧
      fa.frameIndex frame % 64 + num4kPages count pgSize ≤ 64)
    (h : bitmapFaReserve fa frame count pgSize = .ok (reserved, fa')) :
    (reserved = false ∧ Keeps fa fa') ∨
      (reserved = true ∧ Grants fa fa' (fa.frameIndex frame) (num4kPages count pgSize)) := by
  unfold bitmapFaReserve at h
  split at h
  next => cases h; exact .inl ⟨rfl, .refl⟩
  next =>
    obtain ⟨⟨before, b⟩, hbits, hres⟩ := bind_ok h
    dsimp only at hres
    -- Either the frames were free and are marked, or some was taken and no bit was cleared.
    have hcase : (before = 0 → Marks fa.frames b (fa.frameIndex frame) (num4kPages count pgSize) ∧
          ∀ j < num4kPages count pgSize, fa.frames.bit (fa.frameIndex frame + j) = false) ∧
        (before ≠ 0 → Keeps fa { fa with frames := b }) := by
      unfold reserveFrames at hbits
      split at hbits
      next hone =>
        obtain ⟨⟨old, b'⟩, hset, hok⟩ := bind_ok hbits
        obtain ⟨hold, hmarks⟩ := bitmapSet_spec (mapError_eq_ok.mp hset)
        cases hok
        rw [hone]
        refine ⟨fun h0 => ⟨hmarks, fun j hj => ?_⟩, fun _ => keeps_of_marks hmarks _⟩
        obtain rfl : j = 0 := by omega
        rw [Nat.add_zero, ← hold]
        exact Bool.toNat_eq_zero.mp h0
      next hmany =>
        obtain ⟨hlt, hend⟩ := hword.resolve_left hmany
        obtain ⟨count', hget, hok⟩ := bind_ok hbits
        have hget' := mapError_eq_ok.mp hget
        split at hok
        next hzero =>
          obtain ⟨⟨c, b'⟩, hset, hok⟩ := bind_ok hok
          cases hok
          rw [hzero] at hget'
          have hmarks := bitmapSetN_spec hlt hend (mapError_eq_ok.mp hset)
          exact ⟨fun _ => ⟨hmarks, (bitmapGetN_spec hlt hend hget').2⟩,
            fun hne => absurd hzero hne⟩
        next hne =>
          cases hok
          exact ⟨fun h0 => absurd h0 hne, fun _ => ⟨rfl, rfl, rfl, fun _ h => h⟩⟩
    split at hres
    next hzero =>
      cases hres
      obtain ⟨hmarks, hfree⟩ := hcase.1 hzero
      exact .inr ⟨rfl, grants_of_marks hmarks le_rfl hin hfree _⟩
    next hne =>
      cases hres
      exact .inl ⟨rfl, hcase.2 hne⟩

/-- **`fa_reserve_pages` takes the frames that were asked for, if they were free.** -/
theorem faReservePages_spec {reserved : Bool} (hok : fa.Ok) (hwrap : count * pgSize < word)
    (hfits : ReserveFits fa frame (num4kPages count pgSize))
    (h : faReservePages fa frame count pgSize = .ok (reserved, fa')) :
    (reserved = false ∧ Keeps fa fa') ∨ ∃ k, reserved = true ∧ isPageSize pgSize = true ∧
      Grants fa fa' k (num4kPages count pgSize) ∧ frame % pgSize = 0 ∧
      frame = fa.base + k * pageSize := by
  obtain ⟨hpg, h⟩ := guard_eq_ok.mp h
  obtain ⟨hal, h⟩ := guard_eq_ok.mp h
  obtain ⟨hrange, h⟩ := guard_eq_ok.mp h
  rw [Decidable.not_not] at hpg hal hrange
  rw [isAligned_iff hpg] at hal
  split at h
  next => cases h; exact .inl ⟨rfl, .refl⟩
  next hcount =>
    have hlt : frame < word := hrange.2.trans (Nat.mod_lt _ (Nat.two_pow_pos 64))
    have hframe : frame % pageSize = 0 := by
      obtain ⟨m, -, rfl⟩ := isPageSize_dvd hpg
      rw [← Nat.mod_mod_of_dvd frame (Nat.dvd_mul_right pageSize m), hal, Nat.zero_mod]
    obtain ⟨hindex, haddr⟩ := hok.frameIndex_eq hframe hrange.1 hlt
    obtain ⟨hend, hword⟩ := hfits
    rw [← hindex] at hword
    have hin : fa.frameIndex frame + num4kPages count pgSize ≤ fa.numFrames := by
      unfold FrameAllocator.numFrames pageSize at *
      omega
    rcases bitmapFaReserve_spec hin hword h with hno | ⟨hyes, hgrant⟩
    · exact .inl hno
    · exact .inr ⟨_, hyes, hpg, hgrant, hal, haddr.symm⟩

/-! ## Freeing -/

/-- `fa'` is `fa` after a call that cleared bits of the `n` frames from `k` on only. -/
structure Frees (fa fa' : FrameAllocator) (k n : Nat) : Prop where
  base : fa'.base = fa.base
  size : fa'.size = fa.size
  words : fa'.frames.size = fa.frames.size
  bit : ∀ j, ¬ (k ≤ j ∧ j < k + n) → fa'.frames.bit j = fa.frames.bit j

/-- **`bitmap_fa_free` gives back no other frame.** -/
theorem bitmapFaFree_spec (h : bitmapFaFree fa frame count pgSize = .ok fa') :
    Frees fa fa' (fa.frameIndex frame) (num4kPages count pgSize) := by
  obtain ⟨b, hbits, hres⟩ := bind_ok h
  have hclears : Clears fa.frames b (fa.frameIndex frame) (num4kPages count pgSize) := by
    unfold clearFrames at hbits
    split at hbits
    next hone =>
      obtain ⟨⟨old, b'⟩, hclear, hok⟩ := bind_ok hbits
      cases hok
      rw [hone]
      exact (bitmapClear_spec (mapError_eq_ok.mp hclear)).clears (.inr ⟨le_rfl, le_rfl⟩)
    next => exact bitmapClearN_spec (mapError_eq_ok.mp hbits)
  cases hres
  exact ⟨rfl, rfl, hclears.size, hclears.bit⟩

end Osdev.Frames
