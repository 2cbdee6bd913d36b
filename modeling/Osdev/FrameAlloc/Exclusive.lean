import Mathlib
import Osdev.FrameAlloc.Ops
import Osdev.Lib.Run

/-!
# Physical frames are exclusive

The invariant ties every live page to the bitmap of its allocator: the bits of its frames are set
(`Held`). A search or a reservation takes frames whose bits are not set, so what it hands out is
apart from every live page; freeing a page clears no bit of another one.

The bitmap has whole words, so its last bits may stand for no frame, and a search does not know
where the range ends. `Op.Fits` says what keeps an operation away from those bits and from the
ranges that `bitmap_set_n` does not mark in full.
-/

namespace Osdev.Frames

open Osdev.Bmp Osdev.Lib

variable {s s' : Mem} {fa fa' : FrameAllocator} {p q : Page} {i k n count pgSize : Nat}

def FrameAllocator.range (fa : FrameAllocator) : Range := ⟨fa.base, fa.size⟩

/-- Every live page lies inside the range of its allocator and is aligned to its size, and no two
live pages share a frame. -/
structure Mem.Exclusive (s : Mem) : Prop where
  inside : ∀ p ∈ s.live, ∃ fa, s.fas[p.fa]? = some fa ∧ p.range.Inside fa.range
  aligned : ∀ p ∈ s.live, p.address % p.size = 0
  apart : s.live.Pairwise fun p q => p.range.Disjoint q.range

/-- New allocators over disjoint page-aligned ranges, and no live page. -/
structure Mem.Init (s : Mem) : Prop where
  live : s.live = []
  built : ∀ fa ∈ s.fas, ∃ mem front reservedPages,
    newFrameAllocator mem front reservedPages fa.base fa.size = .ok fa
  base : ∀ fa ∈ s.fas, fa.base % pageSize = 0
  size : ∀ fa ∈ s.fas, fa.size % pageSize = 0 ∧ fa.size < word ∧ fa.base + fa.size ≤ word
  apart : s.fas.Pairwise fun a b => a.range.Disjoint b.range

/-- What an operation must meet in state `s`. -/
def Op.Fits (s : Mem) : Op → Prop
  | .alloc i count pgSize => count * pgSize < word ∧
    ∀ fa, s.fas[i]? = some fa → AllocFits fa (num4kPages count pgSize)
  | .reserve i frame count pgSize => count * pgSize < word ∧
    ∀ fa, s.fas[i]? = some fa → ReserveFits fa frame (num4kPages count pgSize)
  | .free p => p ∈ s.live

/-- One operation that meets its condition and does not panic. -/
def Call (s : Mem) (o : Op) (s' : Mem) : Prop := o.Fits s ∧ s.step o = .ok s'

/-! ## The invariant -/

/-- The page is made of frames of the allocator, all of them marked. -/
def Held (fa : FrameAllocator) (p : Page) : Prop :=
  ∃ k, p.address = fa.base + k * pageSize ∧ k + p.size / pageSize ≤ fa.numFrames ∧
    p.address % p.size = 0 ∧ ∀ j < p.size / pageSize, fa.frames.bit (k + j) = true

structure Good (s : Mem) : Prop where
  ok : ∀ fa ∈ s.fas, fa.Ok
  apart : s.fas.Pairwise fun a b => a.range.Disjoint b.range
  held : ∀ p ∈ s.live, ∃ fa, s.fas[p.fa]? = some fa ∧ Held fa p
  pages : s.live.Pairwise fun p q => p.range.Disjoint q.range

theorem Page.isPageSize_size : isPageSize p.size = true := by
  unfold Page.size
  split
  · rfl
  · split <;> rfl

theorem Page.size_eq : p.size = p.size / pageSize * pageSize ∧ 0 < p.size / pageSize := by
  obtain ⟨m, hm, heq⟩ := isPageSize_dvd (Page.isPageSize_size)
  rw [heq, Nat.mul_div_cancel_left _ (by decide : 0 < pageSize)]
  exact ⟨Nat.mul_comm _ _, hm⟩

theorem Held.inside (h : Held fa p) : p.range.Inside fa.range := by
  obtain ⟨k, haddr, hin, -, -⟩ := h
  have hp := Page.size_eq (p := p)
  apply Range.inside_of_le
  · show fa.base ≤ p.address
    omega
  · show p.address + p.size ≤ fa.base + fa.size
    unfold FrameAllocator.numFrames pageSize at *
    omega

/-- The bit of the frame that holds an address of the page. -/
theorem Held.bit {x : Nat} (h : Held fa p) (hx : p.range.Has x) :
    fa.frames.bit ((x - fa.base) / pageSize) = true := by
  obtain ⟨k, haddr, -, -, hbit⟩ := h
  have hp := Page.size_eq (p := p)
  obtain ⟨hlo, hhi⟩ := hx
  change p.address ≤ x at hlo
  change x < p.address + p.size at hhi
  have hj := hbit ((x - fa.base) / pageSize - k) (by unfold pageSize at *; omega)
  rwa [show k + ((x - fa.base) / pageSize - k) = (x - fa.base) / pageSize by
    unfold pageSize at *; omega] at hj

theorem Held.of_bits (h : Held fa p) (hbase : fa'.base = fa.base) (hsize : fa'.size = fa.size)
    (hbits : ∀ x, p.range.Has x → fa'.frames.bit ((x - fa.base) / pageSize) = true) :
    Held fa' p := by
  obtain ⟨k, haddr, hin, hal, hbit⟩ := h
  refine ⟨k, by rw [hbase, haddr], ?_, hal, fun j hj => ?_⟩
  · unfold FrameAllocator.numFrames at *
    rwa [hsize]
  · have hx := hbits (fa.base + (k + j) * pageSize) (by
      refine ⟨?_, ?_⟩
      · show p.address ≤ _
        unfold pageSize at *
        omega
      · show _ < p.address + p.size
        unfold pageSize at *
        omega)
    rwa [Nat.add_sub_cancel_left, Nat.mul_div_cancel _ (by decide : 0 < pageSize)] at hx

theorem Held.keeps (h : Held fa p) (hk : Keeps fa fa') : Held fa' p :=
  h.of_bits hk.base hk.size fun _ hx => hk.bit _ (h.bit hx)

theorem FrameAllocator.Ok.congr (hok : fa.Ok) (hbase : fa'.base = fa.base)
    (hsize : fa'.size = fa.size) (hwords : fa'.frames.size = fa.frames.size) : fa'.Ok where
  base := hbase ▸ hok.base
  size := hsize ▸ hok.size
  top := hbase ▸ hsize ▸ hok.top
  words := by
    have hw := hok.words
    unfold FrameAllocator.numFrames Bitmap.words at *
    rwa [hwords, hsize]

namespace Good

theorem exclusive (h : Good s) : s.Exclusive where
  inside p hp := by
    obtain ⟨fa, hfa, hheld⟩ := h.held p hp
    exact ⟨fa, hfa, hheld.inside⟩
  aligned p hp := by
    obtain ⟨fa, -, k, -, -, hal, -⟩ := h.held p hp
    exact hal
  apart := h.pages

/-- Ranges of allocators at different places are disjoint. -/
theorem disjoint (h : Good s) {j : Nat} (hi : s.fas[i]? = some fa) (hj : s.fas[j]? = some fa')
    (hne : i ≠ j) : fa.range.Disjoint fa'.range := by
  obtain ⟨hli, rfl⟩ := List.getElem?_eq_some_iff.mp hi
  obtain ⟨hlj, rfl⟩ := List.getElem?_eq_some_iff.mp hj
  rcases Nat.lt_or_gt_of_ne hne with hlt | hlt
  · exact List.pairwise_iff_getElem.mp h.apart i j hli hlj hlt
  · exact (List.pairwise_iff_getElem.mp h.apart j i hlj hli hlt).symm

/-- Replacing one allocator by one with the same range. -/
theorem set (h : Good s) (hi : s.fas[i]? = some fa) (hbase : fa'.base = fa.base)
    (hsize : fa'.size = fa.size) (hwords : fa'.frames.size = fa.frames.size) {live : List Page}
    (hnew : ∀ p ∈ live, p.fa = i → Held fa' p) (hold : ∀ p ∈ live, p.fa ≠ i → p ∈ s.live)
    (hpages : live.Pairwise fun p q => p.range.Disjoint q.range) :
    Good { fas := s.fas.set i fa', live := live } where
  ok a ha := by
    rcases List.mem_or_eq_of_mem_set ha with ha | rfl
    · exact h.ok a ha
    · exact (h.ok fa (List.mem_of_getElem? hi)).congr hbase hsize hwords
  apart := by
    have hrange : (s.fas.set i fa').map FrameAllocator.range = s.fas.map FrameAllocator.range := by
      have hsame : fa'.range = fa.range := by
        unfold FrameAllocator.range
        rw [hbase, hsize]
      rw [List.map_set, hsame]
      refine List.ext_getElem? fun j => ?_
      obtain rfl | hij := eq_or_ne i j
      · rw [List.getElem?_set_self', List.getElem?_map, hi]
        rfl
      · rw [List.getElem?_set_ne hij]
    have hpw := h.apart
    rw [← List.pairwise_map] at hpw ⊢
    rwa [hrange]
  held p hp := by
    by_cases hpi : p.fa = i
    · have hlt := (List.getElem?_eq_some_iff.mp hi).1
      exact ⟨fa', by rw [hpi, List.getElem?_set_self hlt], hnew p hp hpi⟩
    · obtain ⟨a, ha, hheld⟩ := h.held p (hold p hp hpi)
      exact ⟨a, by rwa [List.getElem?_set_ne (Ne.symm hpi)], hheld⟩
  pages := hpages

/-- A call that hands out nothing and clears no bit. -/
theorem keeps (h : Good s) (hi : s.fas[i]? = some fa) (hk : Keeps fa fa') :
    Good { fas := s.fas.set i fa', live := s.live } := by
  refine h.set hi hk.base hk.size hk.words (fun p hp hpi => ?_) (fun p hp _ => hp) h.pages
  obtain ⟨a, ha, hheld⟩ := h.held p hp
  rw [hpi, hi] at ha
  cases ha
  exact hheld.keeps hk

end Good

/-- The pages made of the frames of a grant. -/
theorem Grants.held (hok : fa.Ok) (hg : Grants fa fa' k (num4kPages count pgSize))
    (hpg : isPageSize pgSize = true) (hwrap : count * pgSize < word)
    (hal : (fa.base + k * pageSize) % pgSize = 0)
    (hp : p ∈ allocPageStructs i pgSize count (fa.base + k * pageSize)) :
    p.fa = i ∧ Held fa' p ∧ ∀ x, p.range.Has x →
      fa.frames.bit ((x - fa.base) / pageSize) = false := by
  obtain ⟨m, hm, hdvd⟩ := isPageSize_dvd hpg
  have htotal := num4kPages_eq hpg hwrap
  have htop := hg.top
  have hword := hok.top
  rw [allocPageStructs_eq (by omega) (by rw [hdvd]; exact Nat.mul_pos (by decide) hm)] at hp
  obtain ⟨t, ht, rfl⟩ := List.mem_map.mp hp
  rw [List.mem_range] at ht
  have hsize : (newPage i pgSize (fa.base + k * pageSize + t * pgSize)).size = pgSize :=
    newPage_size hpg
  have hframes : pgSize / pageSize = m := by
    rw [hdvd, Nat.mul_div_cancel_left _ (by decide : 0 < pageSize)]
  -- `t` pages of `m` frames come before this one
  have hlast : t * m + m ≤ num4kPages count pgSize := by
    have hn : num4kPages count pgSize = count * m := by
      refine Nat.eq_of_mul_eq_mul_right (show 0 < pageSize by decide) ?_
      rw [htotal, hdvd, Nat.mul_assoc, Nat.mul_comm m]
    rw [hn, ← Nat.succ_mul]
    exact Nat.mul_le_mul_right _ ht
  have hstart : fa.base + k * pageSize + t * pgSize = fa.base + (k + t * m) * pageSize := by
    rw [hdvd, Nat.add_mul, Nat.mul_assoc, Nat.mul_comm m, Nat.add_assoc]
  refine ⟨rfl, ⟨k + t * m, ?_, ?_, ?_, fun j hj => ?_⟩, fun x hx => ?_⟩
  · rwa [hg.base]
  · rw [hsize]
    have hin := hg.inside
    unfold FrameAllocator.numFrames at *
    rw [hg.size]
    omega
  · rw [hsize]
    show (fa.base + k * pageSize + t * pgSize) % pgSize = 0
    rw [Nat.add_mul_mod_self_right, hal]
  · rw [hsize] at hj
    rw [Nat.add_assoc]
    exact hg.taken _ (by omega)
  · obtain ⟨hlo, hhi⟩ := hx
    change fa.base + k * pageSize + t * pgSize ≤ x at hlo
    change x < fa.base + k * pageSize + t * pgSize + (newPage i pgSize _).size at hhi
    have hj := hg.free ((x - fa.base) / pageSize - k) (by unfold pageSize at *; omega)
    rwa [show k + ((x - fa.base) / pageSize - k) = (x - fa.base) / pageSize by
      unfold pageSize at *; omega] at hj

/-- **Handing out granted frames keeps the invariant.** -/
theorem Good.grant (h : Good s) (hi : s.fas[i]? = some fa)
    (hg : Grants fa fa' k (num4kPages count pgSize)) (hpg : isPageSize pgSize = true)
    (hwrap : count * pgSize < word) (hal : (fa.base + k * pageSize) % pgSize = 0) :
    Good { fas := s.fas.set i fa',
           live := allocPageStructs i pgSize count (fa.base + k * pageSize) ++ s.live } := by
  have hok := h.ok fa (List.mem_of_getElem? hi)
  have hnew := fun p => hg.held (p := p) (i := i) hok hpg hwrap hal
  refine h.set hi hg.base hg.size hg.words (fun p hp hpi => ?_) (fun p hp hpi => ?_) ?_
  · rcases List.mem_append.mp hp with hp | hp
    · exact (hnew p hp).2.1
    · obtain ⟨a, ha, hheld⟩ := h.held p hp
      rw [hpi, hi] at ha
      cases ha
      exact hheld.keeps hg.toKeeps
  · rcases List.mem_append.mp hp with hp | hp
    · exact absurd (hnew p hp).1 hpi
    · exact hp
  · have htop := hg.top
    have hword := hok.top
    have htotal := num4kPages_eq hpg hwrap
    refine List.pairwise_append.mpr
      ⟨allocPageStructs_pairwise hpg (by omega), h.pages, fun p hp q hq x hx hx' => ?_⟩
    obtain ⟨hpi, hheld, hfree⟩ := hnew p hp
    obtain ⟨a, ha, hheldq⟩ := h.held q hq
    by_cases hqi : q.fa = i
    · -- the frame of `x` was marked for `q`, and free for `p`
      rw [hqi, hi] at ha
      cases ha
      have hset := hheldq.bit hx'
      rw [hfree x hx] at hset
      cases hset
    · have hin := hheld.inside x hx
      have hrange : fa'.range = fa.range := by
        unfold FrameAllocator.range
        rw [hg.base, hg.size]
      rw [hrange] at hin
      exact h.disjoint hi ha (Ne.symm hqi) x hin
        (hheldq.inside x hx')

/-- **Freeing a live page keeps the invariant.** -/
theorem Good.free (h : Good s) (hp : p ∈ s.live) (hi : s.fas[p.fa]? = some fa)
    (hfree : bitmapFaFree fa p.address 1 p.size = .ok fa') :
    Good { fas := s.fas.set p.fa fa', live := s.live.erase p } := by
  obtain ⟨a, ha, hheld⟩ := h.held p hp
  rw [hi] at ha
  cases ha
  have hok := h.ok fa (List.mem_of_getElem? hi)
  have hpg := Page.isPageSize_size (p := p)
  have hwrap : 1 * p.size < word := by
    rcases isPageSize_iff.mp hpg with he | he | he <;> rw [he] <;> decide
  have hspec := bitmapFaFree_spec hfree
  have htotal := num4kPages_eq hpg hwrap
  obtain ⟨k, haddr, hin, -, -⟩ := hheld
  have hsize := Page.size_eq (p := p)
  have hindex : fa.frameIndex p.address = k := by
    have htop := hok.top
    have hbase := hok.base
    have hlt : p.address < word := by
      unfold FrameAllocator.numFrames pageSize at *
      omega
    have heq := (hok.frameIndex_eq (show p.address % pageSize = 0 by unfold pageSize at *; omega)
      (by omega) hlt).2
    unfold pageSize at *
    omega
  have hothers : ∀ q ∈ s.live.erase p, p.range.Disjoint q.range :=
    (List.pairwise_cons.mp (((List.perm_cons_erase hp).pairwise_iff Range.Disjoint.symm).mp
      h.pages)).1
  refine h.set hi hspec.base hspec.size hspec.words (fun q hq hqi => ?_)
    (fun q hq _ => List.mem_of_mem_erase hq) (h.pages.sublist List.erase_sublist)
  obtain ⟨a, ha, hheldq⟩ := h.held q (List.mem_of_mem_erase hq)
  rw [hqi, hi] at ha
  cases ha
  refine hheldq.of_bits hspec.base hspec.size fun x hx => ?_
  rw [hspec.bit]
  · exact hheldq.bit hx
  · -- a frame of `p` would hold `x`
    intro hbits
    have hlo : fa.base ≤ x := (hheldq.inside x hx).1
    refine hothers q hq x ⟨?_, ?_⟩ hx
    · show p.address ≤ x
      unfold pageSize at *
      omega
    · show x < p.address + p.size
      unfold pageSize at *
      omega

/-! ## Runs -/

theorem FrameAllocator.ok_of_new {mem : Nat → Word} {front : Word} {reservedPages base size : Nat}
    (hbase : base % pageSize = 0) (hsize : size % pageSize = 0) (hlt : size < word)
    (htop : base + size ≤ word)
    (h : newFrameAllocator mem front reservedPages base size = .ok fa) : fa.Ok := by
  obtain ⟨frames, hinit, hres⟩ := bind_ok h
  cases hres
  refine ⟨hbase, hsize, htop, ?_⟩
  show 64 * (frames.size / 8) ≤ size / pageSize + 63
  have hword : word = 4096 * 2 ^ 52 := rfl
  have halign : align size pageSize = size :=
    align_of_aligned (k := 12) (by decide) (by unfold pageSize at *; omega) hsize
  have hframes : size / pageSize < 2 ^ 52 := by
    unfold pageSize
    omega
  unfold bitmapFaInit at hinit
  rw [halign] at hinit
  dsimp only at hinit
  split at hinit
  next =>
    obtain ⟨-, hinit⟩ := guard_eq_ok.mp hinit
    have hup : align (size / pageSize) 8 < size / pageSize + 8 :=
      (align_spec (k := 3) (by decide) (by omega)).2.1
    rw [← Except.ok.inj hinit]
    dsimp only
    omega
  next =>
    have hup : align (size / pageSize) 64 < size / pageSize + 64 :=
      (align_spec (k := 6) (by decide) (by omega)).2.1
    rw [← Except.ok.inj hinit]
    dsimp only [createBitmap]
    omega

theorem Good.init (h : s.Init) : Good s where
  ok fa hfa := by
    obtain ⟨mem, front, reservedPages, hnew⟩ := h.built fa hfa
    obtain ⟨hsize, hlt, htop⟩ := h.size fa hfa
    exact FrameAllocator.ok_of_new (h.base fa hfa) hsize hlt htop hnew
  apart := h.apart
  held p hp := by
    simp [h.live] at hp
  pages := by
    rw [h.live]
    exact .nil

theorem Good.step {o : Op} (h : Good s) (hcall : Call s o s') : Good s' := by
  obtain ⟨hfits, hstep⟩ := hcall
  cases o with
  | alloc i count pgSize =>
    unfold Mem.step at hstep
    dsimp only at hstep
    split at hstep
    next => cases hstep; exact h
    next fa hi =>
      obtain ⟨⟨pages, fa'⟩, halloc, hres⟩ := bind_ok hstep
      cases hres
      rcases faAllocPages_spec (h.ok fa (List.mem_of_getElem? hi)) hfits.1 (hfits.2 fa hi)
        halloc with
        ⟨rfl, hkeeps⟩ | ⟨k, hpg, hgrant, hal, rfl⟩
      · exact h.keeps hi hkeeps
      · exact h.grant hi hgrant hpg hfits.1 hal
  | reserve i frame count pgSize =>
    unfold Mem.step at hstep
    dsimp only at hstep
    split at hstep
    next => cases hstep; exact h
    next fa hi =>
      obtain ⟨⟨reserved, fa'⟩, hreserve, hres⟩ := bind_ok hstep
      cases hres
      rcases faReservePages_spec (h.ok fa (List.mem_of_getElem? hi)) hfits.1 (hfits.2 fa hi)
        hreserve with ⟨rfl, hkeeps⟩ | ⟨k, rfl, hpg, hgrant, hal, rfl⟩
      · exact h.keeps hi hkeeps
      · exact h.grant hi hgrant hpg hfits.1 hal
  | free p =>
    unfold Mem.step at hstep
    dsimp only at hstep
    split at hstep
    next => cases hstep; exact h
    next fa hi =>
      obtain ⟨fa', hfree, hres⟩ := bind_ok hstep
      cases hres
      exact h.free hfits hi hfree

/--
**Physical frames are exclusive** in every state that a run reaches whose operations stay clear of
the padding bits and of reservations that span words.
-/
theorem frames_exclusive (h : Reach Mem.Init Call s) : s.Exclusive :=
  (h.invariant (fun _ => Good.init) fun _ _ _ hg hc => hg.step hc).exclusive

/-! ## Runs on one allocator of 130 frames

The bitmap has three words, 192 bits, of which the last 62 stand for no frame.
-/

def sampleAllocator : FrameAllocator :=
  { base := 0x100000, size := 130 * 4096, free := 130 * 4096,
    frames := createBitmap (fun _ => 0) 0 130 }

def sampleMem : Mem := { fas := [sampleAllocator], live := [] }

theorem sampleMem_init : sampleMem.Init where
  live := rfl
  built fa hfa := by
    obtain rfl := List.mem_singleton.mp hfa
    exact ⟨fun _ => 0, 0, 128, rfl⟩
  base fa hfa := by
    obtain rfl := List.mem_singleton.mp hfa
    rfl
  size fa hfa := by
    obtain rfl := List.mem_singleton.mp hfa
    decide
  apart := List.pairwise_singleton _ _

/-- The ranges of the allocators and the live pages. -/
def Mem.view (s : Mem) : List (Nat × Nat) × List Page :=
  (s.fas.map fun fa => (fa.base, fa.size), s.live)

theorem sampleAllocator_fits : AllocFits sampleAllocator (num4kPages 3 4096) := by
  have hbits : ∀ j < 3, sampleAllocator.frames.bit (0 + j) = false := by decide
  exact fun _ => ⟨0, ⟨by decide, hbits⟩, by decide⟩

/-- Three frames are allocated and the first of them is freed. -/
theorem frames_exclusive_two_live : ∃ s, Reach Mem.Init Call s ∧
    s.live = [newPage 0 4096 0x101000, newPage 0 4096 0x102000] ∧ s.Exclusive := by
  have hrun : (Mem.live <$> (sampleMem.step (.alloc 0 3 4096) >>= fun s =>
      s.step (.free (newPage 0 4096 0x100000)))) =
        .ok [newPage 0 4096 0x101000, newPage 0 4096 0x102000] := by rfl
  have hfirst : (Mem.live <$> sampleMem.step (.alloc 0 3 4096)) =
      .ok [newPage 0 4096 0x100000, newPage 0 4096 0x101000, newPage 0 4096 0x102000] := by
    rfl
  obtain ⟨s2, hboth, hlive⟩ := map_eq_ok.mp hrun
  obtain ⟨s1, h1, h2⟩ := bind_ok hboth
  obtain ⟨s', h', hlive'⟩ := map_eq_ok.mp hfirst
  obtain rfl : s1 = s' := Except.ok.inj (h1.symm.trans h')
  have hreach1 : Reach Mem.Init Call s1 := by
    refine .next (.alloc 0 3 4096) (.start sampleMem_init) ⟨⟨by decide, fun fa hfa => ?_⟩, h1⟩
    cases hfa
    exact sampleAllocator_fits
  have hreach2 : Reach Mem.Init Call s2 :=
    .next _ hreach1 ⟨by rw [Op.Fits, hlive']; exact List.mem_cons_self, h2⟩
  exact ⟨s2, hreach2, hlive, frames_exclusive hreach2⟩

/-- After one frame is taken, a run of 128 frames is found in the last two words of the bitmap. -/
theorem padding_handed_out : ∃ s₁ s₂, sampleMem.Init ∧
    sampleMem.step (.alloc 0 1 4096) = .ok s₁ ∧ s₁.step (.alloc 0 128 4096) = .ok s₂ ∧
      ¬ s₂.Exclusive := by
  have hrun : ((fun s : Mem => (s.view.1, s.live.any (· = newPage 0 4096 0x1BF000))) <$>
      (sampleMem.step (.alloc 0 1 4096) >>= fun s => s.step (.alloc 0 128 4096))) =
        .ok ([(0x100000, 130 * 4096)], true) := by decide_cbv
  obtain ⟨s₂, hboth, hview⟩ := map_eq_ok.mp hrun
  obtain ⟨s₁, h1, h2⟩ := bind_ok hboth
  obtain ⟨hfas, hany⟩ := Prod.mk.inj hview
  refine ⟨s₁, s₂, sampleMem_init, h1, h2, fun hex => ?_⟩
  obtain ⟨p, hp, hpage⟩ := List.any_eq_true.mp hany
  obtain rfl := of_decide_eq_true hpage
  obtain ⟨fa, hfa, hin⟩ := hex.inside _ hp
  have hrange : (fa.base, fa.size) ∈ s₂.view.1 :=
    List.mem_map_of_mem (List.mem_of_getElem? hfa)
  rw [hfas, List.mem_singleton, Prod.mk.injEq] at hrange
  have hhas := hin 0x1BF000 ⟨le_rfl, by decide⟩
  have hend : 0x1BF000 < fa.base + fa.size := hhas.2
  rw [hrange.1, hrange.2] at hend
  exact absurd hend (by decide)

end Osdev.Frames
