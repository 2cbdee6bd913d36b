import Osdev.Heap.Layout

/-!
# The invariant of the heap

The invariant has three parts, over a list of slots `ss`:

* `Layout h ss`: the slots tile the managed part of the heap, and the bytes of the heap are the
  headers and holes of these slots,
* `FreeList h ss fl`: the linked list through the headers is `fl`, and holds exactly the free
  chunks,
* `Owns live ss`: the chunks that are not free are the blocks `live` that callers hold.

Each operation is one of three moves: a chunk is taken off the free list (`Inv.reuse`), a chunk is
put on the free list (`Inv.release`), or a chunk is added at the end (`Inv.pushUsed`,
`Inv.pushFree`).
-/

namespace Osdev.Heap

open Osdev.Lib

variable {s : Slot}

/-- A block handed out by the allocator, with what its owner asked for. -/
structure Block where
  ptr : Nat
  size : Nat
  align : Nat
  deriving DecidableEq, Repr

/-- Address of the last chunk, `0` if there is none. -/
def lastAddr (ss : List Slot) : Nat := (ss.getLast?.map Slot.addr).getD 0

/-- End of the last chunk, the heap base if there is none. -/
def lastEnd (ss : List Slot) : Nat := (ss.getLast?.map Slot.stop).getD kernelHeapVa

/-- First address after the kernel heap. -/
def heapEnd : Nat := kernelHeapVa + kernelHeapSize

structure Layout (h : MmHeap) (ss : List Slot) : Prop where
  virtAddr : h.virtAddr = kernelHeapVa
  hsize : h.size = kernelHeapSize
  tiled : Tiled kernelHeapVa ss (lastEnd ss)
  lastEnd_le : lastEnd ss ≤ heapEnd
  ok : ∀ s ∈ ss, s.Ok h.mem
  shape : ∀ s ∈ ss, s.Shape

structure FreeList (h : MmHeap) (ss : List Slot) (fl : List Nat) : Prop where
  list : chunks.Holds h fl
  mem_fl : ∀ a, a ∈ fl ↔ ∃ s ∈ ss, s.addr = a ∧ s.free = true
  unlinked : ∀ s ∈ ss, s.free = false → listNext h.mem s.addr = 0 ∧ listPrev h.mem s.addr = 0

structure Owns (live : List Block) (ss : List Slot) : Prop where
  owned : ∀ b ∈ live, ∃ s ∈ ss, s.free = false ∧ b.ptr = s.addr + chunkHeader ∧
    b.size ≤ s.size ∧ b.ptr % b.align = 0
  used : ∀ s ∈ ss, s.free = false → ∃ b ∈ live, b.ptr = s.addr + chunkHeader
  nodup : (live.map Block.ptr).Nodup

structure Inv (h : MmHeap) (live : List Block) (ss : List Slot) (fl : List Nat) : Prop
    extends Layout h ss, FreeList h ss fl, Owns live ss

variable {h h' : MmHeap} {live : List Block} {ss : List Slot} {fl : List Nat} {a : Nat} {b : Bool}
variable {c : Nat} {xs ys : List Nat} {k : Block}

theorem heapEnd_lt_word : heapEnd < word := by decide

/-! ## The last chunk -/

@[simp] theorem lastEnd_push (ss : List Slot) (s : Slot) : lastEnd (ss ++ [s]) = s.stop := by
  simp [lastEnd]

@[simp] theorem lastAddr_push (ss : List Slot) (s : Slot) : lastAddr (ss ++ [s]) = s.addr := by
  simp [lastAddr]

theorem getLast?_setFlag (a : Nat) (b : Bool) (ss : List Slot) :
    (setFlag a b ss).getLast? = ss.getLast?.map fun s =>
      if s.addr = a then { s with free := b } else s := List.getLast?_map

@[simp] theorem lastAddr_setFlag (a : Nat) (b : Bool) (ss : List Slot) :
    lastAddr (setFlag a b ss) = lastAddr ss := by
  unfold lastAddr
  rw [getLast?_setFlag]
  cases ss.getLast? with
  | none => rfl
  | some s => simp only [Option.map_some]; split <;> rfl

@[simp] theorem lastEnd_setFlag (a : Nat) (b : Bool) (ss : List Slot) :
    lastEnd (setFlag a b ss) = lastEnd ss := by
  unfold lastEnd
  rw [getLast?_setFlag]
  cases ss.getLast? with
  | none => rfl
  | some s => simp only [Option.map_some]; split <;> rfl

/-! ## Slots under a change of flag -/

theorem mem_setFlag_addr {t : Slot} (ht : t ∈ setFlag a b ss) :
    ∃ s ∈ ss, t.addr = s.addr ∧ t.gap = s.gap ∧ t.size = s.size ∧
      t.free = if s.addr = a then b else s.free := by
  obtain ⟨s, hs, rfl⟩ := mem_setFlag.mp ht
  refine ⟨s, hs, ?_⟩
  split <;> simp

theorem setFlag_mem_of_mem (hs : s ∈ ss) :
    ∃ t ∈ setFlag a b ss, t.addr = s.addr ∧ t.gap = s.gap ∧ t.size = s.size ∧
      t.free = if s.addr = a then b else s.free := by
  refine ⟨_, mem_setFlag.mpr ⟨s, hs, rfl⟩, ?_⟩
  split <;> simp

/-- Which addresses carry which flag after one flag was set. -/
theorem exists_setFlag_iff (ha : IsChunk ss a) (c : Nat) (f : Bool) :
    (∃ t ∈ setFlag a b ss, t.addr = c ∧ t.free = f) ↔
      if c = a then b = f else ∃ s ∈ ss, s.addr = c ∧ s.free = f := by
  constructor
  · rintro ⟨t, ht, rfl, hf⟩
    obtain ⟨s, hs, h1, -, -, h4⟩ := mem_setFlag_addr ht
    rw [h1]
    split
    · next he =>
      rwa [h4, if_pos he] at hf
    · next hne =>
      rw [h4, if_neg hne] at hf
      exact ⟨s, hs, rfl, hf⟩
  · split
    · next he =>
      intro hbf
      obtain ⟨s, hs, hsa⟩ := ha
      obtain ⟨t, ht, h1, -, -, h4⟩ := setFlag_mem_of_mem hs
      rw [if_pos hsa] at h4
      exact ⟨t, ht, by rw [h1, hsa, he], h4.trans hbf⟩
    · next hne =>
      rintro ⟨s, hs, rfl, hf⟩
      obtain ⟨t, ht, h1, -, -, h4⟩ := setFlag_mem_of_mem hs
      rw [if_neg hne] at h4
      exact ⟨t, ht, h1, h4.trans hf⟩

/-! ## The layout -/

namespace Layout

section

variable (hl : Layout h ss)

include hl

/-- Every slot lies inside the heap. -/
theorem bounds (hs : s ∈ ss) :
    kernelHeapVa ≤ s.start ∧ s.stop ≤ lastEnd ss ∧ s.stop ≤ heapEnd ∧ s.gap ≤ s.addr := by
  obtain ⟨h1, h2, h3⟩ := hl.tiled.mem_bounds s hs
  exact ⟨h1, h2, h2.trans hl.lastEnd_le, h3⟩

theorem addr_pos (ha : IsChunk ss a) : a ≠ 0 := by
  obtain ⟨s, hs, rfl⟩ := ha
  have h1 := (hl.bounds hs).1
  unfold Slot.start kernelHeapVa at h1
  omega

theorem lawful : chunks.Lawful (IsChunk ss) :=
  hl.tiled.chunks_lawful (Nat.lt_of_le_of_lt hl.lastEnd_le heapEnd_lt_word).le

/-- Headers of two chunks coincide or do not meet. -/
theorem headers_apart (ha : IsChunk ss a) (hc : IsChunk ss c) :
    a = c ∨ a + chunkHeader ≤ c ∨ c + chunkHeader ≤ a := by
  obtain ⟨s, hs, rfl⟩ := ha
  obtain ⟨t, ht, rfl⟩ := hc
  refine (hl.tiled.apart hs ht).imp (congrArg Slot.addr) fun hlt => ?_
  omega

/-- Changes outside the holes and the first eight bytes of the headers do not matter. -/
theorem congr (hv : h'.virtAddr = h.virtAddr) (hz : h'.size = h.size)
    (hm : ∀ s ∈ ss, h.mem.AgreeOn h'.mem s.start (s.gap + 8)) : Layout h' ss where
  virtAddr := hv.trans hl.virtAddr
  hsize := hz.trans hl.hsize
  tiled := hl.tiled
  lastEnd_le := hl.lastEnd_le
  ok s hs := (hl.ok s hs).congr (hl.bounds hs).2.2.2 (hm s hs)
  shape := hl.shape

/-- List operations leave the layout alone. -/
theorem linksOnly (hlo : LinksOnly (IsChunk ss) h h') : Layout h' ss := by
  refine hl.congr hlo.virtAddr hlo.size (fun s hs => hlo.agreeOn ?_)
  rintro c ⟨t, ht, rfl⟩
  have hsb := (hl.bounds hs).2.2.2
  unfold Slot.start
  rcases hl.tiled.apart hs ht with rfl | hlt
  · omega
  · omega

/-- Writing the flag of one header changes the flag of that slot only. -/
theorem setFlag (ha : IsChunk ss a) (hv : h'.virtAddr = h.virtAddr)
    (hz : h'.size = h.size) (hm : h'.mem = setFree h.mem a b) :
    Layout h' (setFlag a b ss) where
  virtAddr := hv.trans hl.virtAddr
  hsize := hz.trans hl.hsize
  tiled := by rw [lastEnd_setFlag]; exact hl.tiled.setFlag
  lastEnd_le := by rw [lastEnd_setFlag]; exact hl.lastEnd_le
  shape t ht := by
    obtain ⟨s, hs, h1, h2, h3, -⟩ := mem_setFlag_addr ht
    have hsh := hl.shape s hs
    exact ⟨h1 ▸ hsh.addr, h3 ▸ hsh.size, h2 ▸ hsh.gap, h2 ▸ hsh.gap_lt⟩
  ok t ht := by
    rw [hm]
    obtain ⟨s, hs, rfl⟩ := mem_setFlag.mp ht
    obtain ⟨sa, hsa, rfl⟩ := ha
    have hsb := (hl.bounds hs).2.2.2
    have hab := (hl.bounds hsa).2.2.2
    have hok := hl.ok s hs
    have hsh := hl.shape s hs
    split
    · next he =>
      have hse := hl.tiled.eq_of_addr hs hsa he
      subst hse
      refine ⟨?_, ?_, free_setFree h.mem s.addr b, ?_⟩
      · exact (Mem.read_write_disjoint (b := s.addr) (k := 2) (by omega)).trans hok.magic
      · exact (size_setFree h.mem s.addr b).trans hok.size
      · intro hg
        have hg' : s.gap ≠ 0 := hg
        have hg8 := hsh.gap
        have hst : s.start + 8 ≤ s.addr := by
          unfold Slot.start
          omega
        obtain ⟨h1, h2⟩ := hok.hole hg'
        exact ⟨(Mem.read_write_disjoint (b := s.start) (by omega)).trans h1,
          (Mem.read_write_disjoint (b := s.start + 2) (by omega)).trans h2⟩
    · next hne =>
      refine hok.congr hsb (Mem.agreeOn_write ?_)
      rcases hl.tiled.apart hs hsa with he | hlt
      · exact absurd (congrArg Slot.addr he) hne
      · unfold Slot.start chunkHeader at *
        omega

/-- A new slot at the end of the managed part. -/
theorem push (hv : h'.virtAddr = h.virtAddr)
    (hz : h'.size = h.size) (hm : h.mem.AgreeOn h'.mem kernelHeapVa (lastEnd ss - kernelHeapVa))
    (hsa : s.addr = lastEnd ss + s.gap) (hend : s.stop ≤ heapEnd) (hsh : s.Shape)
    (hok : s.Ok h'.mem) : Layout h' (ss ++ [s]) where
  virtAddr := hv.trans hl.virtAddr
  hsize := hz.trans hl.hsize
  tiled := by
    rw [lastEnd_push]
    exact hl.tiled.append ⟨hsa, rfl⟩
  lastEnd_le := by rwa [lastEnd_push]
  ok t ht := by
    rcases List.mem_append.mp ht with ht | ht
    · obtain ⟨h1, h2, -, h4⟩ := hl.bounds ht
      refine (hl.ok t ht).congr h4 (hm.mono h1 ?_)
      unfold Slot.stop Slot.start chunkHeader at *
      omega
    · rwa [List.mem_singleton.mp ht]
  shape t ht := by
    rcases List.mem_append.mp ht with ht | ht
    · exact hl.shape t ht
    · rwa [List.mem_singleton.mp ht]

theorem lastEnd_mod : lastEnd ss % 8 = 0 := by
  unfold lastEnd
  cases hg : ss.getLast? with
  | none => decide
  | some s =>
    have hsh := hl.shape s (List.mem_of_getLast? hg)
    have h1 := hsh.addr
    have h2 := hsh.size
    show s.stop % 8 = 0
    unfold Slot.stop chunkHeader
    omega

end

end Layout

/-- The list pointers of all chunks survive a change of flag. -/
theorem Layout.links_setFree (hl : Layout h ss) (ha : IsChunk ss a) (hc : IsChunk ss c) (m : Mem) :
    listNext (setFree m a b) c = listNext m c ∧ listPrev (setFree m a b) c = listPrev m c := by
  have hd := hl.headers_apart ha hc
  unfold chunkHeader at hd
  exact ⟨Mem.read_write_disjoint (by omega), Mem.read_write_disjoint (by omega)⟩

/-! ## The free list -/

namespace FreeList

theorem isChunk (hf : FreeList h ss fl) : ∀ c ∈ fl, IsChunk ss c := by
  intro c hc
  obtain ⟨s, hs, he, -⟩ := (hf.mem_fl c).mp hc
  exact ⟨s, hs, he⟩

theorem congr (hf : FreeList h ss fl) (hfi : h'.first = h.first) (hla : h'.last = h.last)
    (hlk : ∀ c, IsChunk ss c → listNext h'.mem c = listNext h.mem c ∧
      listPrev h'.mem c = listPrev h.mem c) : FreeList h' ss fl where
  list := ⟨hfi.trans hf.list.first, hla.trans hf.list.last,
    seg_congr hf.list.seg (fun c hc => hlk c (hf.isChunk c hc)), hf.list.nodup, hf.list.ne_zero⟩
  mem_fl := hf.mem_fl
  unlinked s hs hsf := by
    rw [(hlk _ ⟨s, hs, rfl⟩).1, (hlk _ ⟨s, hs, rfl⟩).2]
    exact hf.unlinked s hs hsf

/-- A chunk in use is not on the free list. -/
theorem not_mem (hf : FreeList h ss fl) (hl : Layout h ss) (hs : s ∈ ss)
    (hsf : s.free = false) : s.addr ∉ fl := by
  intro hc
  obtain ⟨t, ht, he, htf⟩ := (hf.mem_fl s.addr).mp hc
  rw [hl.tiled.eq_of_addr ht hs he, hsf] at htf
  cases htf

/-- Take `a` off the list and mark it used. -/
theorem remove (hf : FreeList h ss (xs ++ a :: ys)) (hl : Layout h ss)
    (hfi : h'.first = (chunks.remove a h).first) (hla : h'.last = (chunks.remove a h).last)
    (hm : h'.mem = setFree (chunks.remove a h).mem a false) :
    FreeList h' (setFlag a false ss) (xs ++ ys) := by
  have hL := hl.lawful
  have hcell := hf.isChunk
  have ha : IsChunk ss a := hcell a (by simp)
  have hrem := hf.list.remove hL hcell
  have hlk : ∀ c, IsChunk ss c → listNext h'.mem c = listNext (chunks.remove a h).mem c ∧
      listPrev h'.mem c = listPrev (chunks.remove a h).mem c := by
    intro c hc
    rw [hm]
    exact hl.links_setFree ha hc _
  have hnd : (a :: (xs ++ ys)).Nodup := (List.perm_middle.nodup_iff).mp hf.list.nodup
  have hmem : ∀ c, c ∈ xs ++ ys ↔ c ≠ a ∧ c ∈ xs ++ a :: ys := by
    intro c
    rw [List.perm_middle.mem_iff, List.mem_cons]
    constructor
    · intro hc
      exact ⟨fun he => (List.nodup_cons.mp hnd).1 (he ▸ hc), .inr hc⟩
    · rintro ⟨hne, he | hc⟩
      · exact absurd he hne
      · exact hc
  refine ⟨⟨hfi.trans hrem.first, hla.trans hrem.last, ?_, hrem.nodup, hrem.ne_zero⟩, ?_, ?_⟩
  · exact seg_congr hrem.seg (fun c hc => hlk c (hcell c ((hmem c).mp hc).2))
  · intro c
    rw [exists_setFlag_iff ha, hmem c, hf.mem_fl c]
    by_cases hca : c = a <;> simp [hca]
  · intro t ht htf
    obtain ⟨s, hs, h1, -, -, h4⟩ := mem_setFlag_addr ht
    rw [h1, (hlk _ ⟨s, hs, rfl⟩).1, (hlk _ ⟨s, hs, rfl⟩).2]
    have hn := ListStore.remove_next hL hf.list hcell ⟨s, hs, rfl⟩
    have hp := ListStore.remove_prev hL hf.list hcell ⟨s, hs, rfl⟩
    by_cases hsa : s.addr = a
    · rw [if_pos hsa] at hn hp
      exact ⟨hn, hp⟩
    · rw [h4, if_neg hsa] at htf
      have hnm := hf.not_mem hl hs htf
      obtain ⟨hu1, hu2⟩ := hf.unlinked s hs htf
      -- a used chunk is not a neighbour of `a`, so its pointers are not touched
      rw [if_neg hsa, if_neg (fun hc => hnm ?_)] at hn
      · rw [if_neg hsa, if_neg (fun hc => hnm ?_)] at hp
        · exact ⟨hn.trans hu1, hp.trans hu2⟩
        · rw [hc.1]
          exact List.mem_append_right _ (List.mem_cons_of_mem _ (headD_mem hc.2 0))
      · rw [hc.1]
        exact List.mem_append_left _ (getLastD_mem hc.2 0)

/-- Put a chunk `a` that is marked free but not linked at the front of the list. -/
theorem addFront (hl : Layout h ss) (hh : chunks.Holds h fl) (ha : IsChunk ss a) (hnew : a ∉ fl)
    (hmem : ∀ c, c ∈ a :: fl ↔ ∃ s ∈ ss, s.addr = c ∧ s.free = true)
    (hun : ∀ s ∈ ss, s.free = false → listNext h.mem s.addr = 0 ∧ listPrev h.mem s.addr = 0) :
    FreeList (chunks.addFront a h) ss (a :: fl) := by
  have hL := hl.lawful
  have hcell : ∀ c ∈ fl, IsChunk ss c := by
    intro c hc
    obtain ⟨s, hs, he, -⟩ := (hmem c).mp (by simp [hc])
    exact ⟨s, hs, he⟩
  refine ⟨hh.addFront hL hcell ha (hl.addr_pos ha) hnew, hmem, ?_⟩
  intro s hs hsf
  have hnm : s.addr ∉ a :: fl := by
    intro hc
    obtain ⟨t, ht, he, htf⟩ := (hmem s.addr).mp hc
    rw [hl.tiled.eq_of_addr ht hs he, hsf] at htf
    cases htf
  have hsa : s.addr ≠ a := fun he => hnm (he ▸ (by simp))
  have hn := ListStore.addFront_next hL hh hcell ha ⟨s, hs, rfl⟩
  have hp := ListStore.addFront_prev hL hh hcell ha ⟨s, hs, rfl⟩
  obtain ⟨hu1, hu2⟩ := hun s hs hsf
  rw [if_neg hsa] at hn
  rw [if_neg hsa, if_neg (fun hc => hnm ?_)] at hp
  · exact ⟨hn.trans hu1, hp.trans hu2⟩
  · rw [hc.1]
    exact List.mem_cons_of_mem _ (headD_mem hc.2 0)

end FreeList

/-! ## Ownership -/

namespace Owns

/-- A free chunk gets an owner. -/
theorem take (ho : Owns live ss) {sa : Slot} (hsa : sa ∈ ss) (hfree : sa.free = true)
    (huniq : ∀ s ∈ ss, s.addr = sa.addr → s = sa) (hk : k.ptr = sa.addr + chunkHeader)
    (hks : k.size ≤ sa.size) (hka : k.ptr % k.align = 0) :
    Owns (k :: live) (setFlag sa.addr false ss) where
  owned c hc := by
    rcases List.mem_cons.mp hc with rfl | hc
    · obtain ⟨t, ht, h1, -, h3, h4⟩ := setFlag_mem_of_mem hsa
      rw [if_pos rfl] at h4
      exact ⟨t, ht, h4, by rw [h1, hk], by rwa [h3], hka⟩
    · obtain ⟨s, hs, hf, h2, h3, h4⟩ := ho.owned c hc
      obtain ⟨t, ht, h1, -, h3', h4'⟩ := setFlag_mem_of_mem hs
      rw [hf, ite_self] at h4'
      exact ⟨t, ht, h4', by rw [h1, h2], by rwa [h3'], h4⟩
  used t ht htf := by
    obtain ⟨s, hs, h1, -, -, h4⟩ := mem_setFlag_addr ht
    by_cases hsa' : s.addr = sa.addr
    · exact ⟨k, by simp, by rw [h1, hsa', hk]⟩
    · rw [h4, if_neg hsa'] at htf
      obtain ⟨c, hc, he⟩ := ho.used s hs htf
      exact ⟨c, List.mem_cons_of_mem _ hc, by rw [h1, he]⟩
  nodup := by
    rw [List.map_cons, List.nodup_cons]
    refine ⟨fun hc => ?_, ho.nodup⟩
    obtain ⟨c, hc, he⟩ := List.mem_map.mp hc
    obtain ⟨s, hs, hf, h2, -, -⟩ := ho.owned c hc
    rw [huniq s hs (by omega), hfree] at hf
    cases hf

/-- The owner of a chunk gives it back. -/
theorem drop (ho : Owns live ss) (a : Nat) :
    Owns (live.filter fun k => k.ptr ≠ a + chunkHeader) (setFlag a true ss) where
  owned c hc := by
    obtain ⟨hc, hne⟩ := List.mem_filter.mp hc
    simp only [ne_eq, decide_not, Bool.not_eq_eq_eq_not, Bool.not_true,
      decide_eq_false_iff_not] at hne
    obtain ⟨s, hs, hf, h2, h3, h4⟩ := ho.owned c hc
    obtain ⟨t, ht, h1, -, h3', h4'⟩ := setFlag_mem_of_mem hs
    rw [if_neg (fun he => hne (by rw [h2, he]))] at h4'
    exact ⟨t, ht, h4'.trans hf, by rw [h1, h2], by rwa [h3'], h4⟩
  used t ht htf := by
    obtain ⟨s, hs, h1, -, -, h4⟩ := mem_setFlag_addr ht
    have hsa : s.addr ≠ a := by
      intro he
      rw [h4, if_pos he] at htf
      cases htf
    rw [h4, if_neg hsa] at htf
    obtain ⟨c, hc, he⟩ := ho.used s hs htf
    refine ⟨c, List.mem_filter.mpr ⟨hc, ?_⟩, by rw [h1, he]⟩
    simp only [ne_eq, decide_not, Bool.not_eq_eq_eq_not, Bool.not_true, decide_eq_false_iff_not]
    omega
  nodup := (List.filter_sublist.map Block.ptr).nodup ho.nodup

theorem pushFree (ho : Owns live ss) (hs : s.free = true) : Owns live (ss ++ [s]) where
  owned c hc := by
    obtain ⟨t, ht, hrest⟩ := ho.owned c hc
    exact ⟨t, List.mem_append_left _ ht, hrest⟩
  used t ht htf := by
    rcases List.mem_append.mp ht with ht | ht
    · exact ho.used t ht htf
    · rw [List.mem_singleton.mp ht, hs] at htf
      cases htf
  nodup := ho.nodup

theorem pushUsed (ho : Owns live ss) (hs : s.free = false)
    (hnew : ∀ t ∈ ss, t.addr ≠ s.addr) (hk : k.ptr = s.addr + chunkHeader) (hks : k.size ≤ s.size)
    (hka : k.ptr % k.align = 0) : Owns (k :: live) (ss ++ [s]) where
  owned c hc := by
    rcases List.mem_cons.mp hc with rfl | hc
    · exact ⟨s, by simp, hs, hk, hks, hka⟩
    · obtain ⟨t, ht, hrest⟩ := ho.owned c hc
      exact ⟨t, List.mem_append_left _ ht, hrest⟩
  used t ht htf := by
    rcases List.mem_append.mp ht with ht | ht
    · obtain ⟨c, hc, he⟩ := ho.used t ht htf
      exact ⟨c, List.mem_cons_of_mem _ hc, he⟩
    · exact ⟨k, by simp, by rw [List.mem_singleton.mp ht, hk]⟩
  nodup := by
    rw [List.map_cons, List.nodup_cons]
    refine ⟨fun hc => ?_, ho.nodup⟩
    obtain ⟨c, hc, he⟩ := List.mem_map.mp hc
    obtain ⟨t, ht, -, h2, -, -⟩ := ho.owned c hc
    exact hnew t ht (by omega)

end Owns

/-! ## The invariant as a whole -/

namespace Inv

theorem init (physAddr : Nat) (m : Mem) : Inv (initKheap physAddr m) [] [] [] where
  virtAddr := rfl
  hsize := rfl
  tiled := rfl
  lastEnd_le := by decide
  ok := by simp
  shape := by simp
  list := ⟨rfl, rfl, trivial, List.nodup_nil, by simp⟩
  mem_fl := by simp
  unlinked := by simp
  owned := by simp
  used := by simp
  nodup := by simp

/--
Changes outside the holes and headers do not matter. This covers the counters, what owners store
in their blocks, and the `memset` of `kmallocz`.
-/
theorem congr (hi : Inv h live ss fl) (hv : h'.virtAddr = h.virtAddr) (hz : h'.size = h.size)
    (hf : h'.first = h.first) (hla : h'.last = h.last)
    (hm : ∀ s ∈ ss, h.mem.AgreeOn h'.mem s.start (s.gap + chunkHeader)) : Inv h' live ss fl where
  toLayout := hi.toLayout.congr hv hz
    (fun s hs => (hm s hs).mono le_rfl (by unfold chunkHeader; omega))
  toFreeList := by
    refine hi.toFreeList.congr hf hla ?_
    rintro c ⟨s, hs, rfl⟩
    exact ⟨Mem.read_congr ((hm s hs).mono (by unfold Slot.start; omega)
        (by unfold Slot.start chunkHeader; omega)),
      Mem.read_congr ((hm s hs).mono (by unfold Slot.start; omega)
        (by unfold Slot.start chunkHeader; omega))⟩
  toOwns := hi.toOwns

theorem linksOnly_remove (hi : Inv h live ss (xs ++ a :: ys)) :
    LinksOnly (IsChunk ss) h (chunks.remove a h) :=
  (linksOnly_stable _ h).remove hi.lawful hi.list hi.isChunk (LinksOnly.refl _ h)

/-- **Reusing a free chunk keeps the invariant.** -/
theorem reuse (hi : Inv h live ss (xs ++ a :: ys)) (hk : k.ptr = a + chunkHeader)
    (hks : k.size ≤ size h.mem a) (hka : k.ptr % k.align = 0) (n : Nat) :
    Inv (reuseChunk h n a).2 (k :: live) (setFlag a false ss) (xs ++ ys) := by
  obtain ⟨sa, hsa, rfl, hsaf⟩ := (hi.mem_fl a).mp (by simp)
  have hlay := hi.toLayout.linksOnly hi.linksOnly_remove
  rw [(hi.ok sa hsa).size] at hks
  exact
    { toLayout := hlay.setFlag ⟨sa, hsa, rfl⟩ rfl rfl rfl
      toFreeList := hi.toFreeList.remove hi.toLayout rfl rfl rfl
      toOwns := hi.toOwns.take hsa hsaf (fun s hs he => hi.tiled.eq_of_addr hs hsa he) hk hks hka }

/-- **Releasing a block keeps the invariant.** -/
theorem release (hi : Inv h live ss fl) (hs : s ∈ ss) (hsf : s.free = false) :
    Inv (chunks.addFront s.addr { h with mem := setFree h.mem s.addr true })
      (live.filter fun k => k.ptr ≠ s.addr + chunkHeader) (setFlag s.addr true ss)
      (s.addr :: fl) := by
  have ha : IsChunk ss s.addr := ⟨s, hs, rfl⟩
  have ha' : IsChunk (setFlag s.addr true ss) s.addr := isChunk_setFlag.mpr ha
  have hnew := hi.not_mem hi.toLayout hs hsf
  have hlay : Layout { h with mem := setFree h.mem s.addr true } (setFlag s.addr true ss) :=
    hi.toLayout.setFlag ha rfl rfl rfl
  have hfl : FreeList { h with mem := setFree h.mem s.addr true } ss fl :=
    hi.toFreeList.congr rfl rfl (fun c hc => hi.links_setFree ha hc _)
  have hcell : ∀ c ∈ fl, IsChunk (setFlag s.addr true ss) c :=
    fun c hc => isChunk_setFlag.mpr (hi.isChunk c hc)
  refine ⟨hlay.linksOnly ?_, FreeList.addFront hlay hfl.list ha' hnew ?_ ?_, hi.toOwns.drop s.addr⟩
  · exact (linksOnly_stable _ _).addFront hlay.lawful hfl.list hcell ha' (LinksOnly.refl _ _)
  · intro c
    rw [exists_setFlag_iff ha, List.mem_cons, hi.mem_fl c]
    by_cases hca : c = s.addr <;> simp [hca]
  · intro t ht htf
    obtain ⟨u, hu, h1, -, -, h4⟩ := mem_setFlag_addr ht
    rw [h1]
    refine hfl.unlinked u hu ?_
    split at h4
    · rw [htf] at h4
      cases h4
    · rw [← h4, htf]

/-- Memory up to the end of the last chunk determines all list pointers. -/
theorem links_of_agreeOn (hi : Inv h live ss fl)
    (hm : h.mem.AgreeOn h'.mem kernelHeapVa (lastEnd ss - kernelHeapVa)) (hc : IsChunk ss c) :
    listNext h'.mem c = listNext h.mem c ∧ listPrev h'.mem c = listPrev h.mem c := by
  obtain ⟨s, hs, rfl⟩ := hc
  obtain ⟨h1, h2, -, -⟩ := hi.bounds hs
  unfold Slot.start at h1
  unfold Slot.stop chunkHeader at h2
  exact ⟨Mem.read_congr (hm.mono (by omega) (by omega)),
    Mem.read_congr (hm.mono (by omega) (by omega))⟩

theorem addr_lt_lastEnd (hi : Inv h live ss fl) (hc : IsChunk ss c) :
    c < lastEnd ss := by
  obtain ⟨s, hs, rfl⟩ := hc
  have h2 := (hi.bounds hs).2.1
  unfold Slot.stop chunkHeader at h2
  omega

section Push

variable {s : Slot} (h') (hi : Inv h live ss fl) (hv : h'.virtAddr = h.virtAddr)
  (hz : h'.size = h.size) (hfi : h'.first = h.first) (hla : h'.last = h.last)
  (hm : h.mem.AgreeOn h'.mem kernelHeapVa (lastEnd ss - kernelHeapVa))
  (hsa : s.addr = lastEnd ss + s.gap) (hend : s.stop ≤ heapEnd) (hsh : s.Shape)
  (hok : s.Ok h'.mem)

include hi hv hz hfi hla hm hsa hend hsh hok

/-- **A new chunk in use keeps the invariant.** -/
theorem pushUsed (hsf : s.free = false)
    (hlinks : listNext h'.mem s.addr = 0 ∧ listPrev h'.mem s.addr = 0)
    (hk : k.ptr = s.addr + chunkHeader) (hks : k.size ≤ s.size) (hka : k.ptr % k.align = 0) :
    Inv h' (k :: live) (ss ++ [s]) fl := by
  have hfl := hi.toFreeList.congr hfi hla (fun c hc => hi.links_of_agreeOn hm hc)
  refine ⟨hi.toLayout.push hv hz hm hsa hend hsh hok, ⟨hfl.list, ?_, ?_⟩,
    hi.toOwns.pushUsed hsf (fun t ht he => ?_) hk hks hka⟩
  · intro c
    rw [hi.mem_fl c]
    simp [or_and_right, exists_or, hsf]
  · intro t ht htf
    rcases List.mem_append.mp ht with ht | ht
    · exact hfl.unlinked t ht htf
    · rwa [List.mem_singleton.mp ht]
  · have := hi.addr_lt_lastEnd ⟨t, ht, he⟩
    omega

/-- **A new free chunk keeps the invariant.** -/
theorem pushFree (hsf : s.free = true) :
    Inv (chunks.addFront s.addr h') live (ss ++ [s]) (s.addr :: fl) := by
  have hfl := hi.toFreeList.congr hfi hla (fun c hc => hi.links_of_agreeOn hm hc)
  have hlay := hi.toLayout.push hv hz hm hsa hend hsh hok
  have ha : IsChunk (ss ++ [s]) s.addr := ⟨s, by simp, rfl⟩
  have hcell : ∀ c ∈ fl, IsChunk (ss ++ [s]) c := by
    intro c hc
    obtain ⟨t, ht, he⟩ := hi.isChunk c hc
    exact ⟨t, List.mem_append_left _ ht, he⟩
  have hnew : s.addr ∉ fl := by
    intro hc
    have := hi.addr_lt_lastEnd (hi.isChunk _ hc)
    omega
  refine ⟨hlay.linksOnly ?_, FreeList.addFront hlay hfl.list ha hnew ?_ ?_,
    hi.toOwns.pushFree hsf⟩
  · exact (linksOnly_stable _ _).addFront hlay.lawful hfl.list hcell ha (LinksOnly.refl _ _)
  · intro c
    rw [List.mem_cons, hi.mem_fl c]
    simp only [List.mem_append, List.mem_singleton, or_and_right, exists_or, exists_eq_left, hsf,
      and_true]
    rw [or_comm, eq_comm]
  · intro t ht htf
    rcases List.mem_append.mp ht with ht | ht
    · exact hfl.unlinked t ht htf
    · rw [List.mem_singleton.mp ht, hsf] at htf
      cases htf

end Push

end Inv

end Osdev.Heap
