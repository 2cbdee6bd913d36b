import Osdev.Heap.Ops
import Osdev.Lib.Run

/-!
# Heap safety over whole runs

A run starts from a fresh heap with arbitrary memory contents and makes allocation and release
calls; between the calls, owners store bytes in their blocks. `Run` records the heap and the
blocks that are live.

The property `Safe` holds in every state reached when all alignments are at most `2 ^ 38`
(`heap_safe`). For larger ones `align` wraps around to `0` and the check against the end of the
heap does not notice (`wrapped_alignment_unsafe`).
-/

namespace Osdev.Heap

open Osdev.Lib

/-- A heap, and the blocks that callers hold. -/
structure Run where
  heap : MmHeap
  live : List Block

/-- The operations of a run. -/
inductive Op where
  | kmalloc (size : Nat)
  | kmallocz (size : Nat)
  | kmalloca (size alignment : Nat)
  | kfree (ptr : Nat)
  /-- an owner stores a byte in a live block -/
  | store (addr : Nat) (byte : UInt8)
  deriving DecidableEq

namespace Run

/-- Record the block that an allocation returned. -/
def grant (r : Run) (size alignment : Nat) (res : Except Panic (Nat × MmHeap)) :
    Except Panic Run :=
  match res with
  | .error e => .error e
  | .ok (p, h) => .ok { heap := h, live := ⟨p, size, alignment⟩ :: r.live }

def step (r : Run) : Op → Except Panic Run
  | .kmalloc n => r.grant n chunkMinAlign (kmalloc r.heap n)
  | .kmallocz n => r.grant n chunkMinAlign (kmallocz r.heap n)
  | .kmalloca n a => r.grant n a (kmalloca r.heap n a)
  | .kfree p =>
    match kfree r.heap p with
    | .error e => .error e
    | .ok h => .ok { heap := h, live := r.live.filter fun b => b.ptr ≠ p }
  | .store x v => .ok { r with heap := { r.heap with mem := r.heap.mem.write x 1 v.toNat } }

/-- `mm_init_kheap` has run, nothing is allocated. -/
def Fresh (r : Run) : Prop := ∃ physAddr mem, r = ⟨initKheap physAddr mem, []⟩

end Run

/-- What callers may do: sizes in range, alignments powers of two, and only live pointers. -/
def Op.Valid (r : Run) : Op → Prop
  | .kmalloc n => 0 < n ∧ n ≤ chunkMaxSize
  | .kmallocz n => 0 < n ∧ n ≤ chunkMaxSize
  | .kmalloca n a => 0 < n ∧ n ≤ chunkMaxSize ∧ ∃ k < 64, a = 2 ^ k
  | .kfree p => ∃ b ∈ r.live, b.ptr = p
  | .store x _ => ∃ b ∈ r.live, b.ptr ≤ x ∧ x < b.ptr + b.size

/-- Rounding up to the alignment does not leave the address space. -/
def Op.AlignFits : Op → Prop
  | .kmalloca _ a => a ≤ 2 ^ 38
  | _ => True

/-- A call that is valid and returns. -/
def Call (r : Run) (o : Op) (r' : Run) : Prop := o.Valid r ∧ r.step o = .ok r'

/-- A call that is valid, returns, and does not ask for a huge alignment. -/
def FittingCall (r : Run) (o : Op) (r' : Run) : Prop := o.AlignFits ∧ Call r o r'

/-! ## Safety -/

/-- End of `last_chunk`, the heap base if there is no chunk. -/
def managedEnd (h : MmHeap) : Nat :=
  if h.lastChunk = 0 then h.virtAddr else h.lastChunk + chunkHeader + size h.mem h.lastChunk

/-- Length of a block: what the header in front of it says. -/
def Block.len (h : MmHeap) (b : Block) : Nat := Heap.size h.mem (b.ptr - chunkHeader)

structure Safe (r : Run) : Prop where
  disjoint : r.live.Pairwise fun a b =>
    a.ptr + a.len r.heap ≤ b.ptr ∨ b.ptr + b.len r.heap ≤ a.ptr
  inside : ∀ b ∈ r.live, r.heap.virtAddr ≤ b.ptr ∧
    b.ptr + b.len r.heap ≤ r.heap.virtAddr + r.heap.size
  large : ∀ b ∈ r.live, b.size ≤ b.len r.heap
  aligned : ∀ b ∈ r.live, b.ptr % b.align = 0
  /-- chunks and holes tile the managed part, and the free list holds the free chunks once each -/
  tiled : ∃ ss, Tiled r.heap.virtAddr ss (managedEnd r.heap) ∧ (∀ s ∈ ss, s.Ok r.heap.mem) ∧
    ∃ fl, chunks.Holds r.heap fl ∧ fl.Nodup ∧ ∀ a, a ∈ fl ↔ ∃ s ∈ ss, s.addr = a ∧ s.free = true

variable {h : MmHeap} {live : List Block} {r r' : Run} {o : Op}

/-- A block and its slot. -/
theorem Inv.len_eq {ss : List Slot} {fl : List Nat} (hi : Inv h live ss fl) {b : Block}
    (hb : b ∈ live) :
    ∃ s ∈ ss, s.free = false ∧ b.ptr = s.addr + chunkHeader ∧ b.len h = s.size ∧
      b.size ≤ s.size ∧ b.ptr % b.align = 0 := by
  obtain ⟨s, hs, hsf, h1, h2, h3⟩ := hi.owned b hb
  refine ⟨s, hs, hsf, h1, ?_, h2, h3⟩
  rw [Block.len, h1]
  exact (hi.ok s hs).size

theorem Layout.managedEnd_eq {ss : List Slot} (hl : Layout h ss)
    (hlast : h.lastChunk = lastAddr ss) : managedEnd h = lastEnd ss := hl.lastChunk_end hlast

theorem Good.disjoint (hg : Good h live) : live.Pairwise fun a b =>
    a.ptr + a.len h ≤ b.ptr ∨ b.ptr + b.len h ≤ a.ptr := by
  obtain ⟨ss, fl, hi, -⟩ := hg
  have hnd : live.Pairwise fun a b => a.ptr ≠ b.ptr := List.pairwise_map.mp hi.nodup
  refine hnd.imp_of_mem (fun {a b} ha hb hne => ?_)
  obtain ⟨s, hs, -, hsp, hsl, -, -⟩ := hi.len_eq ha
  obtain ⟨t, ht, -, htp, htl, -, -⟩ := hi.len_eq hb
  rcases hi.tiled.apart hs ht with he | hlt
  · exact absurd (by rw [hsp, htp, he]) hne
  · omega

theorem Good.safe (hg : Good r.heap r.live) : Safe r := by
  have hdis := hg.disjoint
  obtain ⟨ss, fl, hi, hlast⟩ := hg
  refine ⟨hdis, fun b hb => ?_, fun b hb => ?_, fun b hb => ?_, ss, ?_, hi.ok, fl, hi.list,
    hi.list.nodup, hi.mem_fl⟩
  · obtain ⟨s, hs, -, hsp, hsl, -, -⟩ := hi.len_eq hb
    obtain ⟨h1, -, h2, -⟩ := hi.bounds hs
    rw [hi.virtAddr, hi.hsize]
    unfold Slot.start at h1
    unfold Slot.stop heapEnd at h2
    omega
  · obtain ⟨s, -, -, -, hsl, hsz, -⟩ := hi.len_eq hb
    exact hsz.trans (Nat.le_of_eq hsl.symm)
  · obtain ⟨s, -, -, -, -, -, hal⟩ := hi.len_eq hb
    exact hal
  · rw [hi.managedEnd_eq hlast, hi.virtAddr]
    exact hi.tiled

/-! ## One call -/

/-- Bytes of a live block may change. -/
theorem Good.ownerWrite (hg : Good h live) {b : Block} (hb : b ∈ live) {m : Mem}
    (hm : ∀ x len, x + len ≤ b.ptr ∨ b.ptr + b.size ≤ x → h.mem.AgreeOn m x len) :
    Good { h with mem := m } live := by
  obtain ⟨ss, fl, hi, hlast⟩ := hg
  refine ⟨ss, fl, hi.congr rfl rfl rfl rfl (fun s hs => hm _ _ ?_), hlast⟩
  obtain ⟨t, ht, -, hp, hsz, -⟩ := hi.owned b hb
  have hsb := (hi.bounds hs).2.2.2
  unfold Slot.start
  rcases hi.tiled.apart hs ht with rfl | hlt
  · omega
  · omega

theorem grant_good {n a : Nat} {res : Except Panic (Nat × MmHeap)}
    (hres : res = .error .outOfMemory ∨
      ∃ p h', res = .ok (p, h') ∧ Good h' (⟨p, n, a⟩ :: r.live)) :
    r.grant n a res = .error .outOfMemory ∨
      ∃ r', r.grant n a res = .ok r' ∧ Good r'.heap r'.live := by
  rcases hres with he | ⟨p, h', he, hg⟩
  · exact Or.inl (by rw [he]; rfl)
  · exact Or.inr ⟨⟨h', ⟨p, n, a⟩ :: r.live⟩, by rw [he]; rfl, hg⟩

theorem kmallocz_spec (hg : Good h live) {n : Nat} (hn : 0 < n) (hn' : n ≤ chunkMaxSize) :
    kmallocz h n = .error .outOfMemory ∨
      ∃ p h', kmallocz h n = .ok (p, h') ∧ Good h' (⟨p, n, chunkMinAlign⟩ :: live) := by
  unfold kmallocz
  rcases kmallocInternal_spec hg (k := 2) (by omega) hn hn' with he | ⟨p, h', he, hg'⟩
  · exact Or.inl (by rw [show chunkMinAlign = 2 ^ 2 from rfl, he])
  · right
    rw [show chunkMinAlign = 2 ^ 2 from rfl, he]
    refine ⟨p, _, rfl, hg'.ownerWrite List.mem_cons_self (fun x len hd => ?_)⟩
    exact Mem.agreeOn_fill (Or.symm hd)

/-- **One call.** In a good state, a valid call returns to a good state or is out of memory. -/
theorem step_good (hg : Good r.heap r.live) (hv : o.Valid r) (hf : o.AlignFits) :
    r.step o = .error .outOfMemory ∨ ∃ r', r.step o = .ok r' ∧ Good r'.heap r'.live := by
  cases o with
  | kmalloc n => exact grant_good (kmallocInternal_spec hg (k := 2) (by omega) hv.1 hv.2)
  | kmallocz n => exact grant_good (kmallocz_spec hg hv.1 hv.2)
  | kmalloca n a =>
    obtain ⟨hn, hn', k, -, rfl⟩ := hv
    have hk : k ≤ 38 := (Nat.pow_le_pow_iff_right (by omega)).mp hf
    exact grant_good (kmallocInternal_spec hg hk hn hn')
  | kfree p =>
    obtain ⟨b, hb, rfl⟩ := hv
    obtain ⟨h', he, hg'⟩ := kfree_spec hg hb
    right
    dsimp only [Run.step]
    rw [he]
    exact ⟨_, rfl, hg'⟩
  | store x v =>
    obtain ⟨b, hb, h1, h2⟩ := hv
    exact Or.inr ⟨_, rfl, hg.ownerWrite hb (fun y len hd => Mem.agreeOn_write (by omega))⟩

theorem reach_good (hr : Reach Run.Fresh FittingCall r) : Good r.heap r.live := by
  refine hr.invariant (P := fun r => Good r.heap r.live) ?_ ?_
  · rintro r ⟨pa, m, rfl⟩
    exact ⟨[], [], Inv.init pa m, rfl⟩
  · rintro r o r' hg ⟨hf, hv, hs⟩
    rcases step_good hg hv hf with he | ⟨r'', he, hg'⟩
    · rw [hs] at he
      cases he
    · rw [hs] at he
      rwa [Except.ok.inj he]

/-! ## Whole runs -/

/--
**Heap safety.** In every state of a run whose alignments are at most `2 ^ 38`, the heap is safe,
a further call can only fail for lack of memory, and releasing a live block does not fail.
-/
theorem heap_safe (hr : Reach Run.Fresh FittingCall r) :
    Safe r ∧
      (∀ o e, o.Valid r → o.AlignFits → r.step o = .error e → e = .outOfMemory) ∧
      ∀ b ∈ r.live, ∃ h', kfree r.heap b.ptr = .ok h' := by
  have hg := reach_good hr
  refine ⟨hg.safe, fun o e hv hf he => ?_, fun b hb => ?_⟩
  · rcases step_good hg hv hf with h1 | ⟨r', h1, -⟩
    · rw [h1] at he
      exact (Except.error.inj he).symm
    · rw [h1] at he
      cases he
  · obtain ⟨h', he, -⟩ := kfree_spec hg hb
    exact ⟨h', he⟩

/-- **No chunk is lost.** The free list holds exactly the chunks whose blocks no caller holds. -/
theorem free_iff_unheld (hr : Reach Run.Fresh FittingCall r) :
    ∃ ss fl, Tiled r.heap.virtAddr ss (managedEnd r.heap) ∧ chunks.Holds r.heap fl ∧
      ∀ s ∈ ss, s.Ok r.heap.mem ∧ (s.addr ∈ fl ↔ ∀ b ∈ r.live, b.ptr ≠ s.addr + chunkHeader) := by
  obtain ⟨ss, fl, hi, hlast⟩ := reach_good hr
  refine ⟨ss, fl, by rw [hi.managedEnd_eq hlast, hi.virtAddr]; exact hi.tiled, hi.list,
    fun s hs => ⟨hi.ok s hs, ?_⟩⟩
  rw [hi.mem_fl]
  constructor
  · rintro ⟨t, ht, hts, hfree⟩ b hb hbs
    obtain ⟨u, hu, hused, hbu, -⟩ := hi.owned b hb
    rw [hi.tiled.eq_of_addr hu ht (by omega), hfree] at hused
    cases hused
  · intro hno
    refine ⟨s, hs, rfl, ?_⟩
    by_contra hf
    obtain ⟨b, hb, hbs⟩ := hi.used s hs (Bool.eq_false_iff.mpr hf)
    exact hno b hb hbs

/-- A fresh heap over cleared memory. -/
def zeroRun : Run := ⟨initKheap 0 (fun _ => 0), []⟩

instance (r : Run) (o : Op) : Decidable (o.Valid r) := by
  cases o <;> unfold Op.Valid <;> infer_instance

instance (o : Op) : Decidable o.AlignFits := by
  cases o <;> unfold Op.AlignFits <;> infer_instance

/-- Two blocks that are held, one of them in the alignment gap of the other, and a free chunk. -/
theorem smallRun_reach : ∃ r, Reach Run.Fresh FittingCall r ∧
    r.live = [⟨0xFFFFFF8000400018, 8, 4⟩, ⟨0xFFFFFF8000400040, 8, 64⟩] := by
  have hlive :
      (checkedRun (fun r o => decide (Op.AlignFits o ∧ o.Valid r)) Run.step [.kmalloca 8 64,
      .kmallocz 100, .store 0xFFFFFF8000400041 7, .kmalloc 8, .kfree 0xFFFFFF8000400060]
        zeroRun).map
      Run.live = some [⟨0xFFFFFF8000400018, 8, 4⟩, ⟨0xFFFFFF8000400040, 8, 64⟩] := by decide +kernel
  obtain ⟨r, hrun, hlive⟩ := Option.map_eq_some_iff.mp hlive
  refine ⟨r, .of_checkedRun (fun s o s' hok hs => ?_) (.start ⟨0, _, rfl⟩) hrun, hlive⟩
  obtain ⟨hfit, hvalid⟩ := of_decide_eq_true hok
  exact ⟨hfit, hvalid, hs⟩

theorem heap_safe_small_run : ∃ r, Reach Run.Fresh FittingCall r ∧
    r.live = [⟨0xFFFFFF8000400018, 8, 4⟩, ⟨0xFFFFFF8000400040, 8, 64⟩] ∧ Safe r := by
  obtain ⟨r, hr, hlive⟩ := smallRun_reach
  exact ⟨r, hr, hlive, (heap_safe hr).1⟩

theorem free_iff_unheld_small_run :
    ∃ r : Run, Reach Run.Fresh FittingCall r ∧
      r.live = [⟨0xFFFFFF8000400018, 8, 4⟩, ⟨0xFFFFFF8000400040, 8, 64⟩] ∧
      ∃ ss fl, Tiled r.heap.virtAddr ss (managedEnd r.heap) ∧ chunks.Holds r.heap fl ∧
        ∀ s ∈ ss, s.Ok r.heap.mem ∧ (s.addr ∈ fl ↔ ∀ b ∈ r.live, b.ptr ≠ s.addr + chunkHeader) := by
  obtain ⟨r, hr, hlive⟩ := smallRun_reach
  exact ⟨r, hr, hlive, free_iff_unheld hr⟩

/--
**A huge alignment breaks the heap.** The first call of a run asks for 8 bytes on a `2 ^ 63`
boundary. The address wraps to `0`, which passes the check against the end of the heap.
-/
theorem wrapped_alignment_unsafe : ∃ r', Call zeroRun (.kmalloca 8 (2 ^ 63)) r' ∧ ¬ Safe r' := by
  refine ⟨_, ⟨⟨by decide, by decide, 63, by decide, rfl⟩, rfl⟩, fun hs => ?_⟩
  have hin := (hs.inside ⟨0, 8, 2 ^ 63⟩ List.mem_cons_self).1
  cases hin

end Osdev.Heap
