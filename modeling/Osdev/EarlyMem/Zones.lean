import Osdev.EarlyMem.HandOver

/-!
# Frame allocators partition what is left of memory

After the early calls `init_mem_zones` reserves 128 pages of the reserved entry and gives the rest
of the usable memory to frame allocators, each in the list of one zone. `locate_owning_allocator`
picks the list from the address alone.

* `BootInfo.Left` is the memory that should be left: what the boot loader reported as usable, less
  the kernel image and less the initrd, the early pages and the reserved pages behind it
* `Partition` says that the allocators share out exactly this memory, each inside its zone, and that
  the lookup finds the allocator of every such address and of no other
* `partition_iff`: this holds exactly if as many bytes were reserved and then forgotten as the
  initrd has. Otherwise the allocator of the reserved entry ends too late, or too early
-/

namespace Osdev.EarlyMem

open Osdev.Lib

variable {b : BootInfo} {cs : List Call} {s u : Early} {newTables : Nat → Nat}
variable {zones : List (Zone × Range)} {left : Nat → Prop} {x j : Nat} {e : Entry}

/-- The start of the reserved entry: the initrd, then the early pages, then the reserved pages. A
reservation that a later allocation forgets does not count. -/
def BootInfo.taken (b : BootInfo) (cs : List Call) : Range :=
  ⟨b.initrdAddr,
    b.initrdSize + ((heapPages + callPages cs + 128) * pageSize - lostBytes cs 0)⟩

/-- The address is reported as usable, and nothing has taken it. -/
def BootInfo.Left (b : BootInfo) (cs : List Call) (x : Nat) : Prop :=
  (∃ e ∈ b.memMap, e.type = .usable ∧ e.range.Has x) ∧ ¬ b.kernel.Has x ∧ ¬ (b.taken cs).Has x

/-- The allocators share out the memory that is left, and the lookup agrees with them. -/
structure Partition (left : Nat → Prop) (zones : List (Zone × Range)) : Prop where
  disjoint : (zones.map Prod.snd).Pairwise Range.Disjoint
  union : ∀ x, (∃ f ∈ zones, f.2.Has x) ↔ left x
  zone : ∀ f ∈ zones, ∀ x, f.2.Has x → getMemZoneType x = f.1
  locate : ∀ x, left x → ∃ (i : Nat) (f : Zone × Range),
    locateOwningAllocator zones x = some i ∧ zones[i]? = some f ∧ f.2.Has x
  locate_none : ∀ x, ¬ left x → locateOwningAllocator zones x = none

/-! ## Lookup -/

/-- The allocator that the lookup returns holds the address. -/
theorem locateOwningAllocator_some {i : Nat} (hstop : ∀ f ∈ zones, f.2.stop < word)
    (h : locateOwningAllocator zones x = some i) : ∃ f, zones[i]? = some f ∧ f.2.Has x := by
  obtain ⟨hi, hp, -⟩ := List.findIdx?_eq_some_iff_getElem.mp h
  simp only [Bool.and_eq_true, decide_eq_true_eq] at hp
  have hmod : (zones[i].2.base + zones[i].2.size) % word = zones[i].2.stop :=
    Nat.mod_eq_of_lt (hstop _ (List.getElem_mem hi))
  exact ⟨zones[i], List.getElem?_eq_getElem hi, hp.2.1, hmod ▸ hp.2.2⟩

theorem locateOwningAllocator_ne_none {f : Zone × Range} (hf : f ∈ zones)
    (hz : getMemZoneType x = f.1) (hx : f.2.Has x) (hstop : f.2.stop < word) :
    locateOwningAllocator zones x ≠ none := by
  intro h
  have hnot := List.findIdx?_eq_none_iff.mp h f hf
  have hmod : (f.2.base + f.2.size) % word = f.2.stop := Nat.mod_eq_of_lt hstop
  simp [hz, hmod, hx.1, hx.2] at hnot

/-- Where the allocators share out memory below `2 ^ 64`, the lookup agrees with them. -/
theorem Partition.of_union (hdisj : (zones.map Prod.snd).Pairwise Range.Disjoint)
    (hunion : ∀ x, (∃ f ∈ zones, f.2.Has x) ↔ left x)
    (hzone : ∀ f ∈ zones, ∀ x, f.2.Has x → getMemZoneType x = f.1)
    (hstop : ∀ f ∈ zones, f.2.stop < word) : Partition left zones := by
  refine ⟨hdisj, hunion, hzone, fun x hx => ?_, fun x hx => ?_⟩
  · obtain ⟨f, hf, hfx⟩ := (hunion x).mpr hx
    have hne := locateOwningAllocator_ne_none hf (hzone f hf x hfx) hfx (hstop f hf)
    obtain ⟨i, hi⟩ := Option.ne_none_iff_exists'.mp hne
    obtain ⟨g, hg, hgx⟩ := locateOwningAllocator_some hstop hi
    exact ⟨i, g, hi, hg, hgx⟩
  · cases hi : locateOwningAllocator zones x with
    | none => rfl
    | some i =>
      obtain ⟨f, hf, hfx⟩ := locateOwningAllocator_some hstop hi
      exact absurd ((hunion x).mp ⟨f, List.mem_of_getElem? hf, hfx⟩) hx

/-! ## The map at the time of the loop -/

section Loop

variable {k r : Nat} {eK eR : Entry} {a p l : Nat} (hw : b.WellFormed)
  (ha : Accepted b k r eK eR) (hp : Phase b k r eR u a p l)
  (hl : l = lostBytes cs 0) (htot : a + p + l = (heapPages + callPages cs + 128) * pageSize)

include ha hp hl htot

omit hp in
/-- What is taken ends where the reserved entry starts now. -/
theorem taken_eq : b.taken cs = ⟨eR.base, b.initrdSize + (a + p)⟩ := by
  rw [BootInfo.taken, ← htot, ← hl, Nat.add_sub_cancel, ha.initrd_base]

theorem taken_inside : (b.taken cs).Inside eR.range := by
  have := hp.base_le
  rw [taken_eq ha hl htot]
  refine Range.inside_of_le le_rfl ?_
  simp only [Range.stop, Entry.range] at *
  omega

omit hl htot
include hw

/-- An entry other than the reserved one is left, except for the kernel. -/
theorem current_has (hj : j ≠ r) (he : b.memMap[j]? = some e) :
    ∃ e', u.memMap[j]? = some e' ∧ e'.type = e.type ∧
      ∀ x, e'.range.Has x ↔ e.range.Has x ∧ ¬ b.kernel.Has x := by
  rw [hp.other j hj]
  obtain rfl | hkj := eq_or_ne k j
  · cases ha.hk.symm.trans he
    rw [List.getElem?_modify_eq, he]
    refine ⟨_, rfl, rfl, fun x => ?_⟩
    have h1 := ha.kernel_base
    have h2 := ha.kernel_le
    simp only [Range.Has, Range.stop, Entry.range, kernelUpdate, BootInfo.kernel]
    omega
  · rw [List.getElem?_modify_ne _ _ hkj]
    refine ⟨e, he, rfl, fun x => ⟨fun hx => ⟨hx, fun hk => ?_⟩, fun hx => hx.1⟩⟩
    exact hw.apart he ha.hk (Ne.symm hkj) x hx (ha.kernel_inside x hk)

include hl htot

/-- **If as much was forgotten as the initrd has, the map shows what is left.** -/
theorem left_iff (hle : b.initrdSize = l) (hfit : a + p + l ≤ eR.size) (x : Nat) :
    b.Left cs x ↔
      ∃ (j : Nat) (e : Entry), u.memMap[j]? = some e ∧ e.type = .usable ∧ e.range.Has x := by
  have htaken : (b.taken cs).Has x ↔ eR.base ≤ x ∧ x < eR.base + (b.initrdSize + (a + p)) := by
    rw [taken_eq ha hl htot]
    rfl
  have hnow :
      (⟨.usable, eR.base + b.initrdSize + a + p, eR.size - (a + p + l)⟩ : Entry).range.Has x ↔
      eR.range.Has x ∧ ¬ (b.taken cs).Has x := by
    rw [htaken]
    simp only [Range.Has, Range.stop, Entry.range]
    omega
  constructor
  · rintro ⟨⟨e, he, hus, hx⟩, hkx, htx⟩
    obtain ⟨j, hj⟩ := List.getElem?_of_mem he
    obtain rfl | hjr := eq_or_ne j r
    · cases ha.hr.symm.trans hj
      exact ⟨j, _, hp.entry, rfl, hnow.mpr ⟨hx, htx⟩⟩
    · obtain ⟨e', he', ht, hiff⟩ := current_has hw ha hp hjr hj
      exact ⟨j, e', he', ht.trans hus, (hiff x).mpr ⟨hx, hkx⟩⟩
  · rintro ⟨j, e, he, hus, hx⟩
    obtain rfl | hjr := eq_or_ne j r
    · rw [hp.current_reserved he] at hx
      obtain ⟨hx, htx⟩ := hnow.mp hx
      refine ⟨⟨eR, List.mem_of_getElem? ha.hr, ha.usable, hx⟩, fun hk => ?_, htx⟩
      exact ha.kernel_disjoint hw (fun _ h => h) x hk hx
    · obtain ⟨e0, he0, ht, hin, hkern, -⟩ := current_other hw ha hp hjr he
      refine ⟨⟨e0, List.mem_of_getElem? he0, ht.symm.trans hus, hin x hx⟩, hkern x hx,
        fun htx => ?_⟩
      exact hw.apart he0 ha.hr hjr x (hin x hx) (taken_inside ha hp hl htot x htx)

variable (hspan : ∀ i < u.memMap.length, SpansOf u.memMap[i]?)

include hspan

/-- **Then the allocators partition what is left.** -/
theorem partition_of_eq (hle : b.initrdSize = l) (hfit : a + p + l ≤ eR.size) :
    Partition (b.Left cs) (givenRanges u) := by
  have hb : ∀ (j : Nat) e, u.memMap[j]? = some e → e.type = .usable → e.base + e.size ≤ word :=
    fun j e he _ => (current_bound hw ha hp he).le
  have hdisj := givenRanges_disjoint hb hspan fun i j e e' he he' _ _ hlt =>
    current_disjoint hw ha hp hle.le hfit he he' (Nat.ne_of_lt hlt)
  refine Partition.of_union hdisj (fun x => ?_) (fun f hf => ?_) (fun f hf => ?_)
  · rw [left_iff hw ha hp hl htot hle hfit]
    constructor
    · rintro ⟨f, hf, hx⟩
      obtain ⟨j, e, he, hus, hsp, hf⟩ := mem_givenRanges hspan hf
      exact ⟨j, e, he, hus, parts_inside (hb j e he hus) hsp hf x hx⟩
    · rintro ⟨j, e, he, hus, hx⟩
      obtain ⟨f, -, hf, hfx⟩ := partsOf_cover hb hspan he hus hx
      exact ⟨f, hf, hfx⟩
  · obtain ⟨j, e, he, hus, hsp, hf⟩ := mem_givenRanges hspan hf
    exact ((parts_spec (hb j e he hus) hsp).1 f hf).2.2
  · obtain ⟨j, e, he, hus, hsp, hf⟩ := mem_givenRanges hspan hf
    exact ((parts_spec (hb j e he hus) hsp).1 f hf).2.1.trans_lt (current_bound hw ha hp he)

omit hspan in
/-- A partition is a disjoint hand-over, so the allocator of the reserved entry does not end too
late. -/
theorem handOver_of_partition (h : Partition (b.Left cs) (givenRanges u)) :
    HandOver b u.handed (givenRanges u) := by
  have hptr := hp.ptr
  have hleft : ∀ f ∈ givenRanges u, ∀ x, f.2.Has x → b.Left cs x :=
    fun f hf x hx => (h.union x).mp ⟨f, hf, hx⟩
  refine ⟨List.pairwise_append.mpr ⟨early_disjoint hw ha hp, h.disjoint, ?_⟩, fun f hf x hx =>
    (hleft f hf x hx).1⟩
  -- what was handed out and the initrd are in the part that is taken
  have htaken : ∀ y : Range, eR.base ≤ y.base → y.stop ≤ u.reservedPtr → y.Inside (b.taken cs) := by
    intro y hy hy'
    rw [taken_eq ha hl htot]
    refine Range.inside_of_le hy ?_
    simp only [Range.stop] at *
    omega
  intro y hy g hg x hxy hxg
  obtain ⟨f, hf, rfl⟩ := List.mem_map.mp hg
  obtain ⟨-, hkern, htk⟩ := hleft f hf x hxg
  rcases List.mem_append.mp hy with hy | hy
  · obtain ⟨h1, h2, -⟩ := hp.handed_inside y hy
    exact htk (htaken y (by omega) h2 x hxy)
  · rcases List.mem_pair.mp hy with rfl | rfl
    · exact hkern hxy
    · refine htk (htaken _ ha.initrd_base.le ?_ x hxy)
      have := ha.initrd_base
      simp only [Range.stop, BootInfo.initrd]
      omega

/-- If more was forgotten, the last address of the reserved entry is not given to anybody. -/
theorem eq_of_partition (hfit : a + p + l ≤ eR.size) (h : Partition (b.Left cs) (givenRanges u)) :
    b.initrdSize = l := by
  refine Nat.le_antisymm (le_of_handOver hw ha hp hspan hfit
    (handOver_of_partition hw ha hp hl htot h)) (Nat.le_of_not_lt fun hlt => ?_)
  have hlast : eR.range.Has (eR.base + eR.size - 1) := by
    simp only [Range.Has, Range.stop, Entry.range]
    omega
  have hleft : b.Left cs (eR.base + eR.size - 1) := by
    refine ⟨⟨eR, List.mem_of_getElem? ha.hr, ha.usable, hlast⟩, fun hk => ?_, ?_⟩
    · exact ha.kernel_disjoint hw (fun _ h => h) _ hk hlast
    · rw [taken_eq ha hl htot]
      simp only [Range.Has, Range.stop]
      omega
  obtain ⟨f, hf, hx⟩ := (h.union _).mpr hleft
  obtain ⟨j, e, he, hus, hsp, hf⟩ := mem_givenRanges hspan hf
  have hx := parts_inside (current_bound hw ha hp he).le hsp hf _ hx
  obtain rfl | hjr := eq_or_ne j r
  · rw [hp.current_reserved he] at hx
    simp only [Range.Has, Range.stop] at hx
    omega
  · obtain ⟨e0, he0, -, hin, -⟩ := current_other hw ha hp hjr he
    exact hw.apart he0 ha.hr hjr _ (hin _ hx) hlast

end Loop

end Osdev.EarlyMem
