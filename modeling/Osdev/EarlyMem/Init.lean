import Osdev.EarlyMem.Model
import Mathlib.Data.List.Basic

/-!
# Early memory before the zones

What `mm_early_init` accepts (`earlyInit_spec`), and what a sequence of early calls does to the
reserved entry (`runCalls_phase`).

`Phase` counts bytes: `a` handed out, `p` reserved since the last allocation and `l` reserved before
it. `mm_early_alloc_pages` sets the base of the entry from the reserved pointer, so it forgets the
`p` bytes in the base; `mm_early_reserve_pages` and `mm_early_alloc_pages` both subtract from the
size, so the size remembers all three.
-/

namespace Osdev.EarlyMem

open Osdev.Lib

variable {k r addr : Nat}

/-- A boot memory map that makes sense, and images that do not overlap. -/
structure BootInfo.WellFormed (b : BootInfo) : Prop where
  /-- physical addresses have 52 bits -/
  bound : ∀ e ∈ b.memMap, e.range.stop ≤ 2 ^ 52
  disjoint : b.memMap.Pairwise fun e e' => e.range.Disjoint e'.range
  kernel_bound : b.kernel.stop ≤ 2 ^ 52
  initrd_bound : b.initrd.stop ≤ 2 ^ 52
  images : b.kernel.Disjoint b.initrd

variable {b : BootInfo} {s s' : Early} {t t' : Scan}
variable {i : Nat} {e : Entry}

/-! ## The scan of the memory map -/

theorem pickKernel_ok (h : t.pickKernel b i e = .ok t') :
    t' = t ∨ t' = { t with kernelEntry := some i } ∧ e.base = b.kernelPhysAddr ∧
      (b.kernelPhysAddr + b.kernelSize) % word ≤ (e.base + e.size) % word := by
  unfold Scan.pickKernel at h
  dsimp only at h
  split at h
  · next hin =>
    obtain ⟨-, h⟩ := guard_eq_ok.mp h
    obtain ⟨heq, h⟩ := guard_eq_ok.mp h
    cases h
    exact .inr ⟨rfl, (not_not.mp heq).symm, hin.2⟩
  · cases h
    exact .inl rfl

theorem pickReserved_kernelEntry (b : BootInfo) (i : Nat) (e : Entry) (t : Scan) :
    (t.pickReserved b i e).kernelEntry = t.kernelEntry := by
  unfold Scan.pickReserved
  split
  · split <;> rfl
  · rfl

theorem scan_cons {es : List Entry} (h : scan b i (e :: es) t = .ok t') :
    ∃ u, (t.pickReserved b i e).pickKernel b i e = .ok u ∧ scan b (i + 1) es u = .ok t' := by
  obtain ⟨-, h⟩ := guard_eq_ok.mp h
  exact bind_ok h

/-- The kernel entry is an entry that starts with the kernel and holds all of it. -/
theorem scan_kernel : ∀ {es : List Entry} {i : Nat} {t : Scan},
    scan b i es t = .ok t' → t'.kernelEntry = some k → t.kernelEntry = some k ∨
      ∃ j e, k = i + j ∧ es[j]? = some e ∧ e.base = b.kernelPhysAddr ∧
        (b.kernelPhysAddr + b.kernelSize) % word ≤ (e.base + e.size) % word
  | [], i, t, h, hk => by
    cases h
    exact .inl hk
  | e :: es, i, t, h, hk => by
    obtain ⟨u, hu, hs⟩ := scan_cons h
    rcases scan_kernel hs hk with hku | ⟨j, e', hj, he', hrest⟩
    · rcases pickKernel_ok hu with rfl | ⟨rfl, hb, hend⟩
      · rw [pickReserved_kernelEntry] at hku
        exact .inl hku
      · exact .inr ⟨0, e, (Option.some.inj hku).symm, rfl, hb, hend⟩
    · exact .inr ⟨j + 1, e', by omega, he', hrest⟩

/-- The fields that describe the reserved entry agree. -/
def Scan.SameReserved (t t' : Scan) : Prop :=
  t'.reservedEntry = t.reservedEntry ∧ t'.reservedStart = t.reservedStart ∧
    t'.reservedEnd = t.reservedEnd ∧ t'.reservedPtr = t.reservedPtr ∧
    t'.initrdReserved = t.initrdReserved

theorem pickKernel_sameReserved (h : t.pickKernel b i e = .ok t') :
    t.SameReserved t' := by
  rcases pickKernel_ok h with rfl | ⟨rfl, -⟩
  · exact ⟨rfl, rfl, rfl, rfl, rfl⟩
  · exact ⟨rfl, rfl, rfl, rfl, rfl⟩

theorem pickReserved_of_not (h : ¬ (t.reservedEntry = none ∧ e.suitable = true)) :
    t.pickReserved b i e = t := if_neg h

/-- Once an entry is picked, it stays. -/
theorem scan_sameReserved : ∀ {es : List Entry} {i : Nat} {t : Scan},
    scan b i es t = .ok t' → t.reservedEntry ≠ none → t.SameReserved t'
  | [], i, t, h, _ => by
    cases h
    exact ⟨rfl, rfl, rfl, rfl, rfl⟩
  | e :: es, i, t, h, hne => by
    obtain ⟨u, hu, hs⟩ := scan_cons h
    rw [pickReserved_of_not (fun hc => hne hc.1)] at hu
    obtain ⟨h1, h2, h3, h4, h5⟩ := pickKernel_sameReserved hu
    obtain ⟨g1, g2, g3, g4, g5⟩ := scan_sameReserved hs (by rwa [h1])
    exact ⟨g1.trans h1, g2.trans h2, g3.trans h3, g4.trans h4, g5.trans h5⟩

/-- What the scan says about the entry `e` it picked. -/
structure Picked (b : BootInfo) (e : Entry) (r : Nat) (t : Scan) : Prop where
  reservedEntry : t.reservedEntry = some r
  reservedEnd : t.reservedEnd = (e.base + e.size) % word
  initrd : t.initrdReserved = true → b.initrdAddr ≠ 0 ∧ e.base = b.initrdAddr ∧
    t.reservedStart = (e.base + b.initrdSize) % word ∧ t.reservedPtr = t.reservedStart

theorem Picked.of_same (h : Picked b e r t) (hs : t.SameReserved t') :
    Picked b e r t' where
  reservedEntry := hs.1.trans h.reservedEntry
  reservedEnd := hs.2.2.1.trans h.reservedEnd
  initrd hi := by
    obtain ⟨h1, h2, h3, h4⟩ := h.initrd (hs.2.2.2.2.symm.trans hi)
    exact ⟨h1, h2, hs.2.1.trans h3, by rw [hs.2.2.2.1, h4, hs.2.1]⟩

theorem picked_of_pick (hn : t.reservedEntry = none) (hi : t.initrdReserved = false)
    (he : e.suitable = true) :
    Picked b e i (t.pickReserved b i e) := by
  rw [Scan.pickReserved, if_pos ⟨hn, he⟩]
  split
  · next hin => exact ⟨rfl, rfl, fun _ => ⟨hin.1, hin.2, rfl, rfl⟩⟩
  · refine ⟨rfl, rfl, fun h => ?_⟩
    rw [show t.initrdReserved = true from h] at hi
    cases hi

/-- The first suitable entry is picked. -/
theorem scan_reserved : ∀ {es : List Entry} {i : Nat} {t : Scan},
    scan b i es t = .ok t' → t.reservedEntry = none → t.initrdReserved = false →
    t'.reservedEntry = some r →
      ∃ j e, r = i + j ∧ es[j]? = some e ∧ e.suitable = true ∧
        (∀ j' < j, ∀ e', es[j']? = some e' → e'.suitable = false) ∧ Picked b e r t'
  | [], i, t, h, hn, _, hr => by
    cases h
    rw [hn] at hr
    cases hr
  | e :: es, i, t, h, hn, hi, hr => by
    obtain ⟨u, hu, hs⟩ := scan_cons h
    by_cases he : e.suitable = true
    · have hp : Picked b e i u := (picked_of_pick hn hi he).of_same (pickKernel_sameReserved hu)
      have hp' := hp.of_same (scan_sameReserved hs (by rw [hp.reservedEntry]; simp))
      have hri : r = i := by
        rw [hp'.reservedEntry] at hr
        exact (Option.some.inj hr).symm
      subst hri
      exact ⟨0, e, rfl, rfl, he, fun j' hj' => absurd hj' (by omega), hp'⟩
    · rw [pickReserved_of_not (fun hc => he hc.2)] at hu
      obtain ⟨h1, -, -, -, h5⟩ := pickKernel_sameReserved hu
      obtain ⟨j, e', hj, he', hsu, hfirst, hp⟩ :=
        scan_reserved hs (h1.trans hn) (h5.trans hi) hr
      refine ⟨j + 1, e', by omega, he', hsu, fun j' hj' e'' he'' => ?_, hp⟩
      cases j' with
      | zero =>
        rw [← Option.some.inj he'']
        simpa using he
      | succ j' => exact hfirst j' (by omega) e'' (by simpa using he'')

/-! ## The reserved entry -/

/-- The entry of the kernel after `mm_early_init`. -/
def kernelUpdate (b : BootInfo) (e : Entry) : Entry :=
  { e with base := b.kernelPhysAddr + b.kernelSize, size := e.size - b.kernelSize }

/--
The boot data as `mm_early_init` accepted it: `r` is the reserved entry, with the initrd at its
start, and `k` the entry with the kernel at its start.
-/
structure Accepted (b : BootInfo) (k r : Nat) (eK eR : Entry) : Prop where
  hk : b.memMap[k]? = some eK
  hr : b.memMap[r]? = some eR
  suitable : eR.suitable = true
  first : ∀ j < r, ∀ e, b.memMap[j]? = some e → e.suitable = false
  kernel_base : eK.base = b.kernelPhysAddr
  kernel_le : b.kernelSize ≤ eK.size
  initrd_base : eR.base = b.initrdAddr
  initrd_pos : 0 < b.initrdSize

namespace Accepted

variable {k r : Nat} {eK eR : Entry}

theorem usable (ha : Accepted b k r eK eR) : eR.type = .usable := by
  have h := ha.suitable
  unfold Entry.suitable at h
  simp only [Bool.and_eq_true, beq_iff_eq] at h
  exact h.1.1

/-- An image in the reserved entry that does not meet the initrd is empty. -/
theorem kernelSize_eq_zero (ha : Accepted b k r eK eR) (hw : b.WellFormed) (hkr : k = r) :
    b.kernelSize = 0 := by
  subst hkr
  have he : eK = eR := Option.some.inj (ha.hk.symm.trans ha.hr)
  have hb := ha.kernel_base
  have hi := ha.initrd_base
  have hp := ha.initrd_pos
  have hd := hw.images b.kernelPhysAddr
  rw [he] at hb
  unfold Range.Has Range.stop BootInfo.kernel BootInfo.initrd at hd
  simp only at hd
  omega

end Accepted

/-- `a` bytes were handed out, and `n` bytes were subtracted from the size of the entry. -/
structure Taken (b : BootInfo) (k r : Nat) (eR : Entry) (s : Early) (a n : Nat) : Prop where
  reservedEntry : s.reservedEntry = r
  reservedEnd : s.reservedEnd = eR.range.stop
  reservedPages : s.reservedPages = 128
  zones : s.zones = []
  ptr : s.reservedPtr = eR.base + b.initrdSize + a
  ptr_le : s.reservedPtr ≤ 2 ^ 52
  entry_size : ∃ base, s.memMap[r]? = some ⟨.usable, base, eR.size - n⟩
  other : ∀ j, j ≠ r → s.memMap[j]? = (b.memMap.modify k (kernelUpdate b))[j]?
  length : s.memMap.length = b.memMap.length
  handed_inside : ∀ x ∈ s.handed, eR.base + b.initrdSize ≤ x.base ∧ x.stop ≤ s.reservedPtr ∧
    x.stop ≤ eR.range.stop
  handed_disjoint : s.handed.Pairwise Range.Disjoint

/-- `a` bytes handed out, `p` reserved since the last allocation, `l` reserved before it. -/
structure Phase (b : BootInfo) (k r : Nat) (eR : Entry) (s : Early) (a p l : Nat) : Prop
    extends Taken b k r eR s a (a + p + l) where
  base_le : eR.base + b.initrdSize + a + p ≤ eR.range.stop
  entry : s.memMap[r]? =
    some ⟨.usable, eR.base + b.initrdSize + a + p, eR.size - (a + p + l)⟩

theorem pagesToSize_eq {n : Nat} (h : n * pageSize < word) : pagesToSize n = n * pageSize :=
  Nat.mod_eq_of_lt h

section Step

variable {k r : Nat} {eR : Entry} {a p l n : Nat}

/-- `mm_early_alloc_pages` sets the base from the pointer, whatever was reserved before. -/
theorem Taken.alloc (hp : Taken b k r eR s a (a + l)) (hb : eR.range.stop ≤ 2 ^ 52)
    (hfit : a + l + n * pageSize ≤ eR.size) (h : earlyAllocPages s n = .ok (addr, s')) :
    Phase b k r eR s' (a + n * pageSize) 0 l := by
  have hpl := hp.ptr_le
  have hptr := hp.ptr
  have hstop : eR.range.stop = eR.base + eR.size := rfl
  have hsz : pagesToSize n = n * pageSize := pagesToSize_eq (by unfold word; omega)
  have hnew : (s.reservedPtr + n * pageSize) % word = s.reservedPtr + n * pageSize :=
    Nat.mod_eq_of_lt (by unfold word; omega)
  obtain ⟨base, hentry⟩ := hp.entry_size
  unfold earlyAllocPages at h
  simp only [hsz, hnew] at h
  obtain ⟨hle, h⟩ := guard_eq_ok.mp h
  rw [hp.reservedEnd] at hle
  cases h
  have hentry' : (s.memMap.modify s.reservedEntry fun e : Entry =>
      { e with base := s.reservedPtr + n * pageSize
               size := (word + e.size - n * pageSize) % word })[r]? =
      some ⟨.usable, eR.base + b.initrdSize + (a + n * pageSize) + 0,
        eR.size - (a + n * pageSize + 0 + l)⟩ := by
    rw [hp.reservedEntry, List.getElem?_modify_eq, hentry]
    simp only [Option.map_eq_map, Option.map_some, hptr, Option.some.injEq, Entry.mk.injEq,
      true_and]
    refine ⟨by omega, ?_⟩
    rw [word_add_sub_mod (by omega) (by unfold word; omega)]
    omega
  refine ⟨⟨hp.reservedEntry, hp.reservedEnd, hp.reservedPages, hp.zones, ?_, ?_, ⟨_, hentry'⟩,
    ?_, ?_, ?_, ?_⟩, ?_, hentry'⟩
  · simp only [hptr]
    omega
  · simp only
    omega
  · intro j hj
    simp only [hp.reservedEntry]
    rw [List.getElem?_modify_ne _ _ (Ne.symm hj)]
    exact hp.other j hj
  · simp only [List.length_modify]
    exact hp.length
  · intro x hx
    rcases List.mem_append.mp hx with hx | hx
    · obtain ⟨h1, h2, h3⟩ := hp.handed_inside x hx
      exact ⟨h1, h2.trans (Nat.le_add_right _ _), h3⟩
    · rw [List.mem_singleton.mp hx]
      exact ⟨by simp only [hptr]; omega, le_rfl, Nat.le_of_not_lt hle⟩
  · refine List.pairwise_append.mpr ⟨hp.handed_disjoint, List.pairwise_singleton _ _, ?_⟩
    intro x hx y hy
    rw [List.mem_singleton.mp hy]
    exact Range.disjoint_of_le (hp.handed_inside x hx).2.1
  · omega

/-- An allocation moves what was reserved to the lost bytes. -/
theorem Phase.alloc (hp : Phase b k r eR s a p l) (hb : eR.range.stop ≤ 2 ^ 52)
    (hfit : a + p + l + n * pageSize ≤ eR.size) (h : earlyAllocPages s n = .ok (addr, s')) :
    Phase b k r eR s' (a + n * pageSize) 0 (l + p) := by
  have ht : Taken b k r eR s a (a + (l + p)) := by
    rw [show a + (l + p) = a + p + l by omega]
    exact hp.toTaken
  exact ht.alloc hb (by omega) h

theorem earlyReservePages_ok (h : earlyReservePages s n = .ok s') :
    s' = { s with memMap := s.memMap.modify s.reservedEntry fun e =>
        { e with base := (e.base + pagesToSize n) % word
                 size := (word + e.size - pagesToSize n) % word } } ∧
      ∀ e, s'.memMap[s.reservedEntry]? = some e → e.base ≤ s.reservedEnd := by
  obtain ⟨hle, h⟩ := guard_eq_ok.mp h
  cases h
  refine ⟨rfl, fun e he => ?_⟩
  rw [he] at hle
  simpa using hle

/-- `mm_early_reserve_pages` moves the base. -/
theorem Phase.reserve (hp : Phase b k r eR s a p l) (hb : eR.range.stop ≤ 2 ^ 52)
    (hfit : a + p + l + n * pageSize ≤ eR.size) (h : earlyReservePages s n = .ok s') :
    Phase b k r eR s' a (p + n * pageSize) l := by
  have hbl := hp.base_le
  have hstop : eR.range.stop = eR.base + eR.size := rfl
  have hsz : pagesToSize n = n * pageSize := pagesToSize_eq (by unfold word; omega)
  have hentry : (s.memMap.modify r fun e : Entry =>
      { e with base := (e.base + n * pageSize) % word
               size := (word + e.size - n * pageSize) % word })[r]? =
      some ⟨.usable, eR.base + b.initrdSize + a + (p + n * pageSize),
        eR.size - (a + (p + n * pageSize) + l)⟩ := by
    rw [List.getElem?_modify_eq, hp.entry]
    simp only [Option.map_eq_map, Option.map_some, Option.some.injEq, Entry.mk.injEq, true_and]
    refine ⟨?_, ?_⟩
    · rw [Nat.mod_eq_of_lt (by unfold word; omega)]
      omega
    · rw [word_add_sub_mod (by omega) (by unfold word; omega)]
      omega
  obtain ⟨rfl, hle⟩ := earlyReservePages_ok h
  simp only [hsz, hp.reservedEntry] at hle ⊢
  have hle := hle _ hentry
  rw [hp.reservedEnd] at hle
  refine ⟨⟨rfl, hp.reservedEnd, hp.reservedPages, hp.zones, hp.ptr, hp.ptr_le, ⟨_, hentry⟩, ?_,
    ?_, hp.handed_inside, hp.handed_disjoint⟩, hle, hentry⟩
  · intro j hj
    rw [List.getElem?_modify_ne _ _ (Ne.symm hj)]
    exact hp.other j hj
  · simp only [List.length_modify]
    exact hp.length

end Step

/-! ## Sequences of calls -/

/-- All pages that the calls ask for. -/
def callPages : List Call → Nat
  | [] => 0
  | .alloc n :: cs => n + callPages cs
  | .reserve n :: cs => n + callPages cs

/-- Bytes reserved before the last allocation, when `p` bytes were reserved before the calls. -/
def lostBytes : List Call → Nat → Nat
  | [], _ => 0
  | .alloc _ :: cs, p => p + lostBytes cs 0
  | .reserve n :: cs, p => lostBytes cs (p + n * pageSize)

theorem runCalls_phase {eR : Entry} (hb : eR.range.stop ≤ 2 ^ 52) :
    ∀ {cs : List Call} {s : Early} {a p l : Nat}, Phase b k r eR s a p l →
      a + p + l + callPages cs * pageSize ≤ eR.size → runCalls s cs = .ok s' →
      ∃ a' p', Phase b k r eR s' a' p' (l + lostBytes cs p) ∧
        a' + p' + (l + lostBytes cs p) = a + p + l + callPages cs * pageSize
  | [], s, a, p, l, hp, _, h => by
    cases h
    exact ⟨a, p, hp, by unfold callPages lostBytes; omega⟩
  | .alloc n :: cs, s, a, p, l, hp, hfit, h => by
    obtain ⟨u, hu, hs⟩ := bind_ok h
    obtain ⟨⟨addr, u'⟩, hu', rfl⟩ := map_eq_ok.mp hu
    have hfit' : a + p + l + (n + callPages cs) * pageSize ≤ eR.size := hfit
    rw [Nat.add_mul] at hfit'
    obtain ⟨a', p', hp', he⟩ :=
      runCalls_phase hb (hp.alloc hb (by omega) hu') (by omega) hs
    have hl : l + lostBytes (.alloc n :: cs) p = l + p + lostBytes cs 0 := by
      simp only [lostBytes]
      omega
    rw [hl]
    refine ⟨a', p', hp', ?_⟩
    simp only [callPages, Nat.add_mul]
    omega
  | .reserve n :: cs, s, a, p, l, hp, hfit, h => by
    obtain ⟨u, hu, hs⟩ := bind_ok h
    have hfit' : a + p + l + (n + callPages cs) * pageSize ≤ eR.size := hfit
    rw [Nat.add_mul] at hfit'
    obtain ⟨a', p', hp', he⟩ :=
      runCalls_phase hb (hp.reserve hb (by omega) hu) (by omega) hs
    refine ⟨a', p', hp', ?_⟩
    simp only [callPages, lostBytes, Nat.add_mul] at he ⊢
    omega

/-! ## `mm_early_init` -/

/-- **What `mm_early_init` accepts, and the state it leaves.** -/
theorem earlyInit_spec (hw : b.WellFormed) (h : earlyInit b = .ok s) :
    ∃ k r eK eR, Accepted b k r eK eR ∧ ∀ _ : heapPages * pageSize ≤ eR.size,
      Phase b k r eR s (heapPages * pageSize) 0 0 := by
  obtain ⟨t, ht, h⟩ := bind_ok h
  split at h
  · cases h
  · cases h
  · next k r hk hr =>
    obtain ⟨hir, h⟩ := guard_eq_ok.mp h
    obtain ⟨hin, h⟩ := guard_eq_ok.mp h
    obtain ⟨⟨addr, s'⟩, halloc, rfl⟩ := map_eq_ok.mp h
    rcases scan_kernel ht hk with hno | ⟨jk, eK, hjk, heK, hkb, hke⟩
    · exact absurd hno (by simp [Scan.empty])
    · obtain ⟨jr, eR, hjr, heR, hsu, hfirst, hpick⟩ := scan_reserved ht rfl rfl hr
      obtain ⟨hi0, hib, hst, hpt⟩ := hpick.initrd (by simpa using hir)
      have hrk : k = jk := by omega
      have hrj : r = jr := by omega
      subst hrk hrj
      have hbK := hw.bound eK (List.mem_of_getElem? heK)
      have hbR := hw.bound eR (List.mem_of_getElem? heR)
      have hstK : eK.range.stop = eK.base + eK.size := rfl
      have hstR : eR.range.stop = eR.base + eR.size := rfl
      have hkb' : b.kernelPhysAddr + b.kernelSize ≤ 2 ^ 52 := hw.kernel_bound
      have hib' : b.initrdAddr + b.initrdSize ≤ 2 ^ 52 := hw.initrd_bound
      have hkend : (b.kernelPhysAddr + b.kernelSize) % word
          = b.kernelPhysAddr + b.kernelSize := Nat.mod_eq_of_lt (by unfold word; omega)
      have heKe : (eK.base + eK.size) % word = eK.base + eK.size :=
        Nat.mod_eq_of_lt (by unfold word; omega)
      have hReend : t.reservedEnd = eR.base + eR.size := by
        rw [hpick.reservedEnd]
        exact Nat.mod_eq_of_lt (by unfold word; omega)
      have hsize8 : size8Mb ≤ eR.size := by
        unfold Entry.suitable at hsu
        simp only [Bool.and_eq_true, decide_eq_true_eq] at hsu
        exact hsu.2
      have h8 : 0 < size8Mb := by decide
      have hstart : t.reservedStart = eR.base + b.initrdSize := by
        rw [hst]
        exact Nat.mod_eq_of_lt (by unfold word; omega)
      have hpos : 0 < b.initrdSize := by
        by_contra hc
        refine hin ⟨hi0, fun hor => ?_⟩
        rcases hor with hor | hor
        · omega
        · omega
      have hacc : Accepted b k r eK eR :=
        ⟨heK, heR, hsu, hfirst, hkb, by omega, hib, hpos⟩
      refine ⟨k, r, eK, eR, hacc, fun hheap => ?_⟩
      have hmap : b.memMap.modify k (fun e : Entry =>
          { e with base := (b.kernelPhysAddr + b.kernelSize) % word
                   size := (word + e.size - b.kernelSize) % word })
          = b.memMap.modify k (kernelUpdate b) := by
        refine List.ext_getElem? fun j => ?_
        rw [List.getElem?_modify, List.getElem?_modify]
        obtain rfl | hj := eq_or_ne k j
        · rw [heK]
          simp only [if_true, Option.map_eq_map, Option.map_some, kernelUpdate, hkend,
            Option.some.injEq, Entry.mk.injEq, true_and]
          exact word_add_sub_mod (by omega) (by unfold word; omega)
        · simp [hj]
      rw [hmap] at halloc
      have hkeep : (b.memMap.modify k (kernelUpdate b))[r]? = some eR := by
        by_cases hkr : k = r
        · have hz := hacc.kernelSize_eq_zero hw hkr
          subst hkr
          have he : eK = eR := Option.some.inj (heK.symm.trans heR)
          rw [List.getElem?_modify_eq, heR]
          simp only [Option.map_eq_map, Option.map_some, kernelUpdate, hz, Nat.add_zero,
            Nat.sub_zero, Option.some.injEq]
          rw [← hkb, he]
        · rwa [List.getElem?_modify_ne _ _ hkr]
      have hfresh : Taken b k r eR ⟨b.memMap.modify k (kernelUpdate b), r, t.reservedStart,
          t.reservedEnd, t.reservedPtr, kernelReservedVa, 128, [], []⟩ 0 (0 + 0) :=
        { reservedEntry := rfl
          reservedEnd := hReend
          reservedPages := rfl
          zones := rfl
          ptr := by simp only [hpt, hstart, Nat.add_zero]
          ptr_le := by simp only; omega
          entry_size := ⟨eR.base, by rw [hkeep, ← hacc.usable]; rfl⟩
          other := fun _ _ => rfl
          length := List.length_modify _ _ _
          handed_inside := by simp
          handed_disjoint := .nil }
      have hend := hfresh.alloc hbR (by omega) halloc
      rwa [Nat.zero_add] at hend

end Osdev.EarlyMem
