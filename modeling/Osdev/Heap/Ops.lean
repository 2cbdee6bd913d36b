import Osdev.Heap.Inv
import Mathlib.Data.List.Perm.Subperm

/-!
# The heap operations keep the invariant

One theorem for each operation: `kmallocInternal_spec` for the three allocation functions, and
`kfree_spec`. Both say that the operation returns: the search ends within its fuel, and no panic
but running out of memory is reached.

Allocation assumes an alignment of at most `2 ^ 38`. The heap ends `2 ^ 39 - 0xA00000` bytes below
the top of the address space, so rounding up to such an alignment cannot wrap.
-/

namespace Osdev.Heap

open Osdev.Lib

variable {h h' : MmHeap} {live : List Block} {ss : List Slot} {fl : List Nat}
variable {n gap k : Nat}
variable {al q u : Nat} {s : Slot}

/-! ## The search -/

/--
The search visits the free list once. What holds of `best` and of every chunk of the list that is
large enough and lies on the alignment holds of the result.
-/
theorem searchChunks_spec {Q : Nat → Prop} {m : Mem} {prev : Nat → Nat} {l : List Nat} :
    ∀ {p best fuel : Nat}, Seg (listNext m) prev p l 0 →
      (∀ a ∈ l, a ≠ 0) → l.length < fuel → Q best →
      (∀ a ∈ l, n ≤ size m a → (a + chunkHeader) % word % al = 0 → Q a) →
      ∃ r, searchChunks m n al fuel (l.headD 0) best = .ok r ∧ Q r := by
  induction l with
  | nil =>
    intro p best fuel _ _ hfuel hbest _
    obtain ⟨f, rfl⟩ : ∃ f, fuel = f + 1 := ⟨fuel - 1, by simp at hfuel; omega⟩
    exact ⟨best, by simp [searchChunks], hbest⟩
  | cons a l ih =>
    intro p best fuel hseg hne hfuel hbest hQ
    obtain ⟨f, rfl⟩ : ∃ f, fuel = f + 1 := ⟨fuel - 1, by simp at hfuel; omega⟩
    have hrec : ∀ best', Q best' → ∃ r, searchChunks m n al f
        (listNext m a) best' = .ok r ∧ Q r := by
      intro best' hbest'
      rw [show listNext m a = l.headD 0 from hseg.2.1]
      exact ih hseg.2.2 (fun b hb => hne b (by simp [hb])) (by simpa using hfuel) hbest'
        fun b hb => hQ b (by simp [hb])
    rw [List.headD_cons, searchChunks, if_neg (hne a (by simp))]
    split
    · exact hrec best hbest
    · next hal =>
      split
      · next hsz =>
        split
        · exact hrec a (hQ a (by simp) hsz (by simpa using hal))
        · exact hrec best hbest
      · split
        · next hsz heq => exact absurd (Nat.le_of_eq heq.symm) hsz
        · exact hrec best hbest

/-- The free list is shorter than the heap is large, so the fuel of the search suffices. -/
theorem Inv.length_fl_lt (hi : Inv h live ss fl) : fl.length < h.size := by
  have hsub : fl ⊆ ss.map Slot.addr := by
    intro a ha
    obtain ⟨s, hs, he⟩ := hi.isChunk a ha
    exact List.mem_map.mpr ⟨s, hs, he⟩
  have hle := (List.Nodup.subperm hi.list.nodup hsub).length_le
  have ht := hi.tiled.le
  have hend := hi.lastEnd_le
  rw [hi.hsize]
  rw [List.length_map] at hle
  unfold chunkHeader heapEnd at *
  unfold kernelHeapSize at *
  omega

/-! ## New chunks -/

/-- The end of `last_chunk`. -/
theorem Layout.lastChunk_end (hl : Layout h ss) (hlast : h.lastChunk = lastAddr ss) :
    (if h.lastChunk = 0 then h.virtAddr
      else h.lastChunk + chunkHeader + size h.mem h.lastChunk) = lastEnd ss := by
  rw [hlast, hl.virtAddr]
  unfold lastAddr lastEnd
  cases hg : ss.getLast? with
  | none => rfl
  | some s =>
    have hs := List.mem_of_getLast? hg
    simp only [Option.map_some, Option.getD_some]
    rw [if_neg (hl.addr_pos ⟨s, hs, rfl⟩), (hl.ok s hs).size]
    rfl

/-- Where `__kmalloc` looks for new space. -/
theorem Layout.chunkAddr_eq (hl : Layout h ss) (hlast : h.lastChunk = lastAddr ss) :
    (if h.lastChunk = 0 then h.virtAddr
      else (h.lastChunk + chunkHeader + size h.mem h.lastChunk) % word) = lastEnd ss := by
  have hend := hl.lastChunk_end hlast
  split at hend
  next h0 => rwa [if_pos h0]
  next h0 =>
    rw [if_neg h0, hend]
    exact Nat.mod_eq_of_lt (hl.lastEnd_le.trans_lt heapEnd_lt_word)

/-- What `placeChunk` writes, with the value of `prev_offset` left open. -/
theorem placeChunk_mem (h : MmHeap) (n q : Nat) :
    ∃ v, (placeChunk h n q).2.mem = setPrevOffset (setListPrev (setListNext (setFree
      (setSize (setMagic h.mem q chunkMagic) q n) q false) q 0) q 0) q v := by
  dsimp only [placeChunk]
  split
  · exact ⟨_, rfl⟩
  · exact ⟨_, rfl⟩

/-- `placeChunk` writes nothing outside the header. -/
theorem placeChunk_frame (h : MmHeap) (n q : Nat) {x len : Nat}
    (hd : q + chunkHeader ≤ x ∨ x + len ≤ q) :
    h.mem.AgreeOn (placeChunk h n q).2.mem x len := by
  obtain ⟨v, hv⟩ := placeChunk_mem h n q
  rw [hv]
  unfold chunkHeader at hd
  have h1 : h.mem.AgreeOn (setMagic h.mem q chunkMagic) x len := Mem.agreeOn_write (by omega)
  exact ((((h1.write (by omega)).write (by omega)).write (by omega)).write (by omega)).write
    (by omega)

/-- The header of the new chunk. -/
theorem placeChunk_header (h : MmHeap) (hn : n < 2 ^ 31) :
    magic (placeChunk h n q).2.mem q = chunkMagic ∧ size (placeChunk h n q).2.mem q = n ∧
      free (placeChunk h n q).2.mem q = false ∧ listNext (placeChunk h n q).2.mem q = 0 ∧
      listPrev (placeChunk h n q).2.mem q = 0 := by
  obtain ⟨v, hv⟩ := placeChunk_mem h n q
  rw [hv]
  unfold setPrevOffset setListPrev setListNext
  have hagree : ∀ m : Mem, m.AgreeOn (((m.write (q + 8) 8 0).write (q + 16) 8 0).write (q + 2) 2 v)
      (q + 4) 4 := fun m =>
    ((Mem.agreeOn_write (by omega)).write (by omega)).write (by omega)
  obtain ⟨hsz, hfr⟩ := size_congr (hagree (setFree (setSize (setMagic h.mem q chunkMagic) q n)
    q false))
  refine ⟨?_, ?_, ?_, ?_, ?_⟩
  · rw [magic, Mem.read_write_disjoint (by omega), Mem.read_write_disjoint (by omega),
      Mem.read_write_disjoint (by omega)]
    rw [setFree, setSize, Mem.read_write_disjoint (by omega), Mem.read_write_disjoint (by omega)]
    exact Mem.read_write_same (by decide)
  · rw [hsz, size_setFree, size_setSize hn]
  · rw [hfr, free_setFree]
  · rw [listNext, Mem.read_write_disjoint (by omega), Mem.read_write_disjoint (by omega)]
    exact Mem.read_write_same (by decide)
  · rw [listPrev, Mem.read_write_disjoint (by omega)]
    exact Mem.read_write_same (by decide)

/-- **Placing a chunk behind a hole of `gap` bytes keeps the invariant.** -/
theorem Inv.place (hi : Inv h live ss fl) (gap : Nat) (hq : q = lastEnd ss + gap)
    (hend : q + chunkHeader + n ≤ heapEnd) (hsh : Slot.Shape ⟨gap, q, n, false⟩)
    (hhole : gap ≠ 0 → h.mem.read (lastEnd ss) 2 = holeMagic ∧ h.mem.read (lastEnd ss + 2) 2 = gap)
    {k : Block} (hk : k.ptr = q + chunkHeader) (hks : k.size ≤ n) (hka : k.ptr % k.align = 0) :
    Inv (placeChunk h n q).2 (k :: live) (ss ++ [⟨gap, q, n, false⟩]) fl := by
  have hva : kernelHeapVa ≤ lastEnd ss := by
    have := hi.tiled.le
    omega
  have hn : n < 2 ^ 31 := by
    unfold heapEnd kernelHeapSize at hend
    omega
  obtain ⟨hmg, hsz, hfr, hnx, hpv⟩ := placeChunk_header h hn
  have hstart : Slot.start ⟨gap, q, n, false⟩ = lastEnd ss := by
    show q - gap = lastEnd ss
    omega
  refine hi.pushUsed (placeChunk h n q).2 rfl rfl rfl rfl
    (placeChunk_frame h n q ?_) hq hend hsh ⟨hmg, hsz, hfr, fun hg => ?_⟩ rfl ⟨hnx, hpv⟩ hk hks hka
  · omega
  · have hg8 := hsh.gap
    simp only at hg hg8
    obtain ⟨h1, h2⟩ := hhole hg
    rw [hstart, Mem.read_congr (placeChunk_frame h n q (by omega)),
      Mem.read_congr (placeChunk_frame h n q (by omega))]
    exact ⟨h1, h2⟩

/-- A small gap becomes a hole. -/
theorem Inv.fillHole (hi : Inv h live ss fl) (hg : gap < chunkHeader + chunkMinSize) :
    Inv (fillGap h (lastEnd ss) gap) live ss fl ∧
      (fillGap h (lastEnd ss) gap).mem.read (lastEnd ss) 2 = holeMagic ∧
      (fillGap h (lastEnd ss) gap).mem.read (lastEnd ss + 2) 2 = gap := by
  rw [fillGap, if_pos hg]
  refine ⟨hi.congr rfl rfl rfl rfl (fun s hs => ?_), ?_, ?_⟩
  · obtain ⟨-, h2, -, h4⟩ := hi.bounds hs
    unfold Slot.stop at h2
    exact (Mem.agreeOn_write (by unfold Slot.start; omega)).trans
      (Mem.agreeOn_write (by unfold Slot.start; omega))
  · show Mem.read (Mem.write _ _ _ _) _ _ = _
    rw [Mem.read_write_disjoint (by omega)]
    exact Mem.read_write_same (by decide)
  · refine Mem.read_write_same ?_
    unfold chunkHeader chunkMinSize at hg
    omega

/-- A large gap becomes a free chunk. -/
theorem Inv.fillChunk (hi : Inv h live ss fl) (hg : chunkHeader + chunkMinSize ≤ gap)
    (hg8 : gap % 8 = 0) (hend : lastEnd ss + gap ≤ heapEnd) :
    Inv (fillGap h (lastEnd ss) gap) live (ss ++ [⟨0, lastEnd ss, gap - chunkHeader, true⟩])
      (lastEnd ss :: fl) := by
  have hva : kernelHeapVa ≤ lastEnd ss := by
    have := hi.tiled.le
    omega
  have hn : gap - chunkHeader < 2 ^ 31 := by
    unfold heapEnd kernelHeapSize at hend
    omega
  have hm8 := hi.lastEnd_mod
  unfold chunkHeader chunkMinSize at hg
  rw [fillGap, if_neg (by unfold chunkHeader chunkMinSize; omega)]
  refine hi.pushFree { h with mem := setFree (setSize (setMagic h.mem (lastEnd ss) chunkMagic)
      (lastEnd ss) (gap - chunkHeader)) (lastEnd ss) true }
    (s := ⟨0, lastEnd ss, gap - chunkHeader, true⟩) rfl rfl rfl rfl ?_ rfl ?_ ?_ ?_ rfl
  · exact ((Mem.agreeOn_write (by omega)).trans (Mem.agreeOn_write (by omega))).trans
      (Mem.agreeOn_write (by omega))
  · unfold Slot.stop chunkHeader
    simp only
    omega
  · refine ⟨hm8, ?_, rfl, Nat.zero_lt_succ _⟩
    unfold chunkHeader
    simp only
    omega
  · refine ⟨?_, ?_, free_setFree _ _ _, fun h0 => absurd rfl h0⟩
    · show Mem.read (Mem.write (Mem.write _ _ _ _) _ _ _) _ _ = _
      rw [Mem.read_write_disjoint (by simp), Mem.read_write_disjoint (by simp)]
      exact Mem.read_write_same (by decide)
    · exact (size_setFree _ _ _).trans (size_setSize hn)

theorem fillGap_frame (h : MmHeap) (c gap : Nat) :
    (fillGap h c gap).virtAddr = h.virtAddr ∧ (fillGap h c gap).size = h.size := by
  unfold fillGap
  split
  · exact ⟨rfl, rfl⟩
  · dsimp only [ListStore.addFront]
    split <;> exact ⟨rfl, rfl⟩

/-- Rounding up the address behind a new header, for alignments that cannot wrap. -/
theorem align_chunk {c : Nat} (hk : k ≤ 38) (hc : c ≤ heapEnd) (hc8 : c % 8 = 0) :
    ∃ gap, align ((c + chunkHeader) % word) (2 ^ k) = c + gap + chunkHeader ∧ gap % 8 = 0 ∧
      gap < 2 ^ 38 ∧ (c + gap + chunkHeader) % 2 ^ k = 0 := by
  have hpow : 2 ^ k ≤ 2 ^ 38 := Nat.pow_le_pow_right (by norm_num) hk
  have hroom : c + chunkHeader + 2 ^ 38 ≤ word := by
    unfold heapEnd at hc
    unfold kernelHeapVa kernelHeapSize at hc
    unfold chunkHeader word
    omega
  have hmod : (c + chunkHeader) % word = c + chunkHeader := Nat.mod_eq_of_lt (by omega)
  rw [hmod]
  obtain ⟨h1, h2, h3⟩ := align_spec (v := c + chunkHeader) (k := k) (by omega) (by omega)
  refine ⟨align (c + chunkHeader) (2 ^ k) - (c + chunkHeader), by omega, ?_, by omega, ?_⟩
  · by_cases hk3 : 3 ≤ k
    · have hdvd : (2 : Nat) ^ 3 ∣ 2 ^ k := Nat.pow_dvd_pow 2 hk3
      have h8 : align (c + chunkHeader) (2 ^ k) % 8 = 0 :=
        Nat.mod_eq_zero_of_dvd (hdvd.trans (Nat.dvd_of_mod_eq_zero h3))
      unfold chunkHeader at *
      omega
    · have hdvd : (2 : Nat) ^ k ∣ 8 := Nat.pow_dvd_pow 2 (show k ≤ 3 by omega)
      have hal : (c + chunkHeader) % 2 ^ k = 0 :=
        Nat.mod_eq_zero_of_dvd (hdvd.trans (Nat.dvd_of_mod_eq_zero (by unfold chunkHeader; omega)))
      rw [align_of_aligned (by omega) (by omega) hal]
      omega
  · rwa [show c + (align (c + chunkHeader) (2 ^ k) - (c + chunkHeader)) + chunkHeader
      = align (c + chunkHeader) (2 ^ k) by omega]

/-- The heap is in a state that the run so far explains. -/
def Good (h : MmHeap) (live : List Block) : Prop :=
  ∃ ss fl, Inv h live ss fl ∧ h.lastChunk = lastAddr ss

theorem Layout.endAddr_eq (hl : Layout h ss) : h.endAddr = heapEnd := by
  rw [MmHeap.endAddr, hl.virtAddr, hl.hsize]
  exact Nat.mod_eq_of_lt heapEnd_lt_word

/-- `newChunk` with its address arithmetic carried out. -/
theorem newChunk_eq (hi : Inv h live ss fl) (hlast : h.lastChunk = lastAddr ss)
    (hn : n ≤ chunkMaxSize) (hglt : gap < 2 ^ 38)
    (hal : align ((lastEnd ss + chunkHeader) % word) al = lastEnd ss + gap + chunkHeader) :
    newChunk h n al =
      if heapEnd < lastEnd ss + gap + chunkHeader + n then .error .outOfMemory
      else .ok (placeChunk (if gap = 0 then h else fillGap h (lastEnd ss) gap) n
        (lastEnd ss + gap)) := by
  have hend := hi.lastEnd_le
  have hE : heapEnd + 2 ^ 38 + chunkHeader + chunkMaxSize < word := by decide
  have hchunk : (word + (lastEnd ss + gap + chunkHeader) - chunkHeader) % word
      = lastEnd ss + gap := by
    rw [word_add_sub_mod (by omega) (by omega), Nat.add_sub_cancel]
  have hgapc : (word + (lastEnd ss + gap) - lastEnd ss) % word = gap := by
    rw [word_add_sub_mod (by omega) (by omega), Nat.add_sub_cancel_left]
  have hsum : (lastEnd ss + gap + chunkHeader + n) % word = lastEnd ss + gap + chunkHeader + n :=
    Nat.mod_eq_of_lt (by omega)
  unfold newChunk
  simp only [hi.chunkAddr_eq hlast, hal, hchunk, hsum, hgapc]
  obtain rfl | hg := eq_or_ne gap 0
  · simp only [Nat.add_zero, ne_eq, not_true_eq_false, if_false, if_true, hi.endAddr_eq]
  · obtain ⟨hv, hz⟩ := fillGap_frame h (lastEnd ss) gap
    have he : (fillGap h (lastEnd ss) gap).endAddr = h.endAddr := by
      unfold MmHeap.endAddr
      rw [hv, hz]
    have hne : lastEnd ss + gap ≠ lastEnd ss := by omega
    simp only [if_pos hne, if_neg hg, he, hi.endAddr_eq]

/-- **A new chunk is created properly, or memory is out.** -/
theorem newChunk_spec (hi : Inv h live ss fl) (hlast : h.lastChunk = lastAddr ss)
    (hk : k ≤ 38) (hn : n % 8 = 0) (hn' : n ≤ chunkMaxSize) (hu : u ≤ n) :
    newChunk h n (2 ^ k) = .error .outOfMemory ∨
      ∃ p h', newChunk h n (2 ^ k) = .ok (p, h') ∧ Good h' (⟨p, u, 2 ^ k⟩ :: live) := by
  have hm8 := hi.lastEnd_mod
  obtain ⟨gap, hal, hg8, hglt, halm⟩ := align_chunk hk hi.lastEnd_le hm8
  rw [newChunk_eq hi hlast hn' hglt hal]
  split
  · exact Or.inl rfl
  · next hfit =>
    right
    have hptr : (lastEnd ss + gap + chunkHeader) % word = lastEnd ss + gap + chunkHeader :=
      Nat.mod_eq_of_lt (by have := heapEnd_lt_word; omega)
    have halp : (lastEnd ss + gap + chunkHeader) % word % 2 ^ k = 0 := by
      rwa [hptr]
    have hend : lastEnd ss + gap + chunkHeader + n ≤ heapEnd := Nat.le_of_not_lt hfit
    have hq8 : (lastEnd ss + gap) % 8 = 0 := by omega
    refine ⟨_, _, rfl, ?_⟩
    by_cases hg0 : gap = 0
    · rw [if_pos hg0]
      refine ⟨_, fl, hi.place gap rfl hend ⟨hq8, hn, hg8, ?_⟩ (fun h0 => absurd hg0 h0)
        hptr hu halp, ?_⟩
      · exact (Nat.le_of_eq hg0).trans_lt (by decide)
      · rw [lastAddr_push]
    · rw [if_neg hg0]
      by_cases hsmall : gap < chunkHeader + chunkMinSize
      · obtain ⟨hi1, hh1, hh2⟩ := hi.fillHole hsmall
        refine ⟨_, fl, hi1.place gap rfl hend ⟨hq8, hn, hg8, hsmall⟩
          (fun _ => ⟨hh1, hh2⟩) hptr hu halp, ?_⟩
        rw [lastAddr_push]
      · have hi1 := hi.fillChunk (Nat.le_of_not_lt hsmall) hg8 (by omega)
        have hstop : lastEnd (ss ++ [⟨0, lastEnd ss, gap - chunkHeader, true⟩])
            = lastEnd ss + gap := by
          rw [lastEnd_push]
          unfold Slot.stop
          simp only
          omega
        refine ⟨_, _, hi1.place 0 (by rw [hstop]; rfl) hend
          ⟨hq8, hn, rfl, Nat.zero_lt_succ _⟩ (fun h0 => absurd rfl h0) hptr hu halp, ?_⟩
        rw [lastAddr_push]

/-! ## `__kmalloc` -/

/-- The size that is searched for: at least the request, and a multiple of 8. -/
theorem align_size (hn : n ≤ chunkMaxSize) :
    n ≤ align (max n chunkMinSize) chunkSizeAlign ∧
      align (max n chunkMinSize) chunkSizeAlign % 8 = 0 ∧
      align (max n chunkMinSize) chunkSizeAlign ≤ chunkMaxSize := by
  have hroom : max n chunkMinSize + 2 ^ 3 ≤ word := by
    unfold chunkMaxSize at hn
    unfold chunkMinSize word
    omega
  obtain ⟨h1, h2, h3⟩ := align_spec (by omega) hroom
  have h8 : (2 : Nat) ^ 3 = chunkSizeAlign := rfl
  rw [h8] at h1 h2 h3
  unfold chunkMaxSize at *
  unfold chunkMinSize at *
  unfold chunkSizeAlign at *
  omega

/-- Counters do not matter. -/
theorem Good.congr (hg : Good h live) (hv : h'.virtAddr = h.virtAddr) (hz : h'.size = h.size)
    (hl : h'.lastChunk = h.lastChunk) (hf : h'.first = h.first) (hla : h'.last = h.last)
    (hm : h'.mem = h.mem) : Good h' live := by
  obtain ⟨ss, fl, hi, hlast⟩ := hg
  refine ⟨ss, fl, hi.congr hv hz hf hla (fun s _ => ?_), hl.trans hlast⟩
  rw [hm]
  exact fun _ _ _ => rfl

/-- **Reuse or a new chunk**: the part of `__kmalloc` after the size is fixed. -/
theorem Good.find (hg : Good h live) (hk : k ≤ 38) (hn : n % 8 = 0)
    (hn' : n ≤ chunkMaxSize) (hu : u ≤ n) :
    ∃ chunk, searchChunks h.mem n (2 ^ k) h.size h.first 0 = .ok chunk ∧
      (chunk ≠ 0 → Good (reuseChunk h n chunk).2 (⟨(reuseChunk h n chunk).1, u, 2 ^ k⟩ :: live)) ∧
      (newChunk h n (2 ^ k) = .error .outOfMemory ∨
        ∃ p h', newChunk h n (2 ^ k) = .ok (p, h') ∧ Good h' (⟨p, u, 2 ^ k⟩ :: live)) := by
  obtain ⟨ss, fl, hi, hlast⟩ := hg
  obtain ⟨r, hr, hcase⟩ := searchChunks_spec
    (Q := fun r => r = 0 ∨ r ∈ fl ∧ n ≤ size h.mem r ∧ (r + chunkHeader) % word % 2 ^ k = 0)
    hi.list.seg hi.list.ne_zero hi.length_fl_lt (.inl rfl) fun a ha hsz hal => .inr ⟨ha, hsz, hal⟩
  refine ⟨r, ?_, fun hr0 => ?_, newChunk_spec hi hlast hk hn hn' hu⟩
  · rw [← hr]
    congr 1
    exact hi.list.first
  · rcases hcase with h0 | ⟨hmem, hsz, hal⟩
    · exact absurd h0 hr0
    · obtain ⟨xs, ys, rfl⟩ := List.append_of_mem hmem
      have hptr : (r + chunkHeader) % word = r + chunkHeader := by
        obtain ⟨s, hs, rfl⟩ := hi.isChunk r hmem
        have hb := (hi.bounds hs).2.2.1
        have := heapEnd_lt_word
        unfold Slot.stop at hb
        exact Nat.mod_eq_of_lt (by omega)
      refine ⟨_, _, hi.reuse hptr (hu.trans hsz) hal n, ?_⟩
      rw [lastAddr_setFlag, ← hlast]
      exact hi.linksOnly_remove.lastChunk

/--
**Allocation.** In a good state, `__kmalloc` either runs out of memory or returns a block of the
requested size and alignment, and the state is good with that block added.
-/
theorem kmallocInternal_spec (hg : Good h live) (hk : k ≤ 38) (hn : 0 < n)
    (hn' : n ≤ chunkMaxSize) :
    kmallocInternal h n (2 ^ k) = .error .outOfMemory ∨
      ∃ p h', kmallocInternal h n (2 ^ k) = .ok (p, h') ∧ Good h' (⟨p, n, 2 ^ k⟩ :: live) := by
  have hpow : ¬ (2 ^ k = 0 ∨ isPow2 (2 ^ k) = false) := by
    rw [isPow2_two_pow]
    simp
  obtain ⟨hsz, hsz8, hszm⟩ := align_size hn'
  rw [kmallocInternal, if_neg hpow, if_neg (by omega), if_neg (by omega)]
  have hg1 : Good (countAlloc h n) live := hg.congr rfl rfl rfl rfl rfl rfl
  obtain ⟨chunk, hs, hre, hnew⟩ := hg1.find hk hsz8 hszm hsz
  by_cases h0 : (countAlloc h n).first ≠ 0
  · simp only [if_pos h0, hs]
    by_cases hc : chunk ≠ 0
    · rw [if_pos hc]
      exact Or.inr ⟨_, _, rfl, hre hc⟩
    · rwa [if_neg hc]
  · rwa [if_neg h0]

/-! ## `__kfree` -/

/-- The slot after a slot, if it is not the last one. -/
theorem Tiled.next {e : Nat} : ∀ {b : Nat} {ss : List Slot}, Tiled b ss e → s ∈ ss →
    ss.getLast? = some s ∨ ∃ t ∈ ss, t.start = s.stop ∧ t.gap ≤ t.addr
  | _, [u], _, hs => by
    rw [List.mem_singleton.mp hs]
    exact Or.inl rfl
  | _, u :: t :: ss, ht, hs => by
    rcases List.mem_cons.mp hs with rfl | hs'
    · have h1 : t.addr = s.stop + t.gap := ht.2.1
      exact Or.inr ⟨t, by simp, by unfold Slot.start; omega, by omega⟩
    · rcases Tiled.next ht.2 hs' with hlast | ⟨v, hv, hrest⟩
      · exact Or.inl (by rwa [List.getLast?_cons_cons])
      · exact Or.inr ⟨v, List.mem_cons_of_mem _ hv, hrest⟩

/-- From a chunk, `get_next_chunk` finds the next header and does not panic. -/
theorem getNextChunk_ok (hl : Layout h ss) (hlast : h.lastChunk = lastAddr ss)
    (hs : s ∈ ss) : ∃ r, getNextChunk h s.addr = .ok r := by
  unfold getNextChunk
  rcases hl.tiled.next hs with hg | ⟨t, ht, hst, htg⟩
  · have he : s.addr = h.lastChunk := by
      rw [hlast]
      rw [lastAddr, hg]
      rfl
    rw [if_pos he]
    exact ⟨0, rfl⟩
  · have hb := (hl.bounds ht).2.2.1
    have hE := heapEnd_lt_word
    have hsz := (hl.ok s hs).size
    have hmg := (hl.ok t ht).magic
    have hle : s.stop + t.gap = t.addr := by
      rw [← hst]
      unfold Slot.start
      omega
    have hin : t.addr < heapEnd := by
      unfold Slot.stop chunkHeader at hb
      omega
    have hmod : (s.addr + chunkHeader + s.size) % word = s.stop :=
      Nat.mod_eq_of_lt (by unfold Slot.stop at hle; omega)
    simp only [hsz, hmod, hl.endAddr_eq]
    split
    · exact ⟨0, rfl⟩
    · have hnext : (if s.stop < heapEnd ∧ h.mem.read s.stop 2 = holeMagic then
          (s.stop + h.mem.read (s.stop + 2) 2) % word else s.stop) = t.addr := by
        by_cases hgap : t.gap = 0
        · have heq : s.stop = t.addr := by omega
          rw [if_neg, heq]
          rintro ⟨-, hm⟩
          rw [heq, show h.mem.read t.addr 2 = chunkMagic from hmg] at hm
          cases hm
        · obtain ⟨hm, hgs⟩ := (hl.ok t ht).hole hgap
          rw [hst] at hm hgs
          rw [if_pos ⟨by omega, hm⟩, hgs, hle]
          exact Nat.mod_eq_of_lt (by omega)
      rw [hnext, if_neg (by omega), if_neg (not_not.mpr hmg)]
      exact ⟨_, rfl⟩

/--
**Release.** In a good state, `__kfree` of a live block returns, and the state is good without
that block.
-/
theorem kfree_spec (hg : Good h live) {k : Block} (hk : k ∈ live) :
    ∃ h', kfree h k.ptr = .ok h' ∧ Good h' (live.filter fun c => c.ptr ≠ k.ptr) := by
  obtain ⟨ss, fl, hi, hlast⟩ := hg
  obtain ⟨s, hs, hsf, hptr, -, -⟩ := hi.owned k hk
  have hok := hi.ok s hs
  have hb := (hi.bounds hs).2.2.1
  have hE := heapEnd_lt_word
  have hchunk : (word + k.ptr - chunkHeader) % word = s.addr := by
    unfold Slot.stop at hb
    rw [hptr, word_add_sub_mod (by omega) (by omega), Nat.add_sub_cancel]
  -- the state after the counter and the flag were written
  have hi1 : Inv { h with freeCount := (h.freeCount + 1) % word } live ss fl :=
    hi.congr rfl rfl rfl rfl (fun _ _ _ _ _ => rfl)
  have hlay : Layout { h with freeCount := (h.freeCount + 1) % word,
                              mem := setFree h.mem s.addr true } (setFlag s.addr true ss) :=
    hi1.toLayout.setFlag ⟨s, hs, rfl⟩ rfl rfl rfl
  obtain ⟨t, ht, hta, -⟩ := setFlag_mem_of_mem hs
  obtain ⟨r, hr⟩ := getNextChunk_ok hlay (by rwa [lastAddr_setFlag]) ht
  rw [hta] at hr
  have hrel := hi1.release hs hsf
  rw [← hptr] at hrel
  rw [kfree, if_neg (by rw [hptr]; unfold chunkHeader; omega)]
  simp only [hchunk]
  rw [if_neg (not_not.mpr hok.magic), if_neg (by rw [hok.free, hsf]; simp),
    if_neg (not_not.mpr (hi.unlinked s hs hsf))]
  simp only [hr]
  refine ⟨_, rfl, _, _, hrel.congr rfl rfl rfl rfl (fun _ _ _ _ _ => rfl), ?_⟩
  rw [lastAddr_setFlag, ← hlast]
  dsimp only [ListStore.addFront]
  split <;> rfl

end Osdev.Heap
