import Mathlib
import Osdev.EarlyMem.Init

/-!
# Handing early memory over to the frame allocators

`init_mem_zones` gives each usable entry of the memory map, as it stands then, to one or two frame
allocators. `parts` lists the ranges for one entry; they partition it. What the whole loop gives is
`givenRanges`, a list that is read off the map before the loop as long as no entry in front of the
reserved one needs a large bitmap.

The size of the reserved entry is not reduced by the size of the initrd in front of it. So the
range of the reserved entry ends `initrd_size` bytes too late, unless as many bytes were reserved
and then forgotten (`handOver_iff`).
-/

namespace Osdev.EarlyMem

open Osdev.Lib

variable {b : BootInfo} {s s' : Early} {newTables : Nat → Nat}
variable {x base size n i : Nat} {f : Zone × Range} {is : List Nat} {e : Entry}
variable {y j : Nat} {zone : Zone} {e' : Entry}

/-! ## The ranges of one entry -/

/-- The frame allocators for the range `[base, base + size)`. -/
def parts (base size : Nat) : List (Zone × Range) :=
  let type := getMemZoneType base
  let endType := getMemZoneType ((word + base + size - 1) % word)
  if type ≠ endType then
    [(endType, ⟨type.limit, (word + base + size - type.limit) % word⟩),
      (type, ⟨base, (word + type.limit - base) % word⟩)]
  else [(type, ⟨base, size⟩)]

/-- Neighbouring zones meet at the limit of the lower one. -/
theorem zone_limit_between (h : (getMemZoneType y).toNat = (getMemZoneType x).toNat + 1) :
    x < (getMemZoneType x).limit ∧ (getMemZoneType x).limit ≤ y ∧
      ∀ z, (x ≤ z → z < (getMemZoneType x).limit → getMemZoneType z = getMemZoneType x) ∧
        ((getMemZoneType x).limit ≤ z → z ≤ y → getMemZoneType z = getMemZoneType y) := by
  unfold getMemZoneType at *
  split_ifs at h ⊢ <;> simp only [Zone.toNat] at h <;>
    simp only [Zone.limit, size1Mb, size16Mb] at * <;> grind

theorem zone_between {z : Nat} (h : getMemZoneType x = getMemZoneType y) (hxz : x ≤ z)
    (hzy : z ≤ y) : getMemZoneType z = getMemZoneType x := by
  unfold getMemZoneType at *
  grind

/-- The range ends in the zone where it starts, or in the next one. -/
def Spans (base size : Nat) : Prop :=
  getMemZoneType base = getMemZoneType ((word + base + size - 1) % word) ∨
    (getMemZoneType ((word + base + size - 1) % word)).toNat = (getMemZoneType base).toNat + 1

section

variable (hb : base + size ≤ word) (hs : Spans base size)

include hb hs

/-- A range is one part in the zone of its start, or two parts that meet at the limit of that
zone. -/
theorem parts_cases :
    ((∀ x, Range.Has ⟨base, size⟩ x → getMemZoneType x = getMemZoneType base) ∧
        parts base size = [(getMemZoneType base, ⟨base, size⟩)]) ∨
      ∃ (lim : Nat) (endType : Zone), base < lim ∧ lim < base + size ∧
        (∀ x, base ≤ x → x < lim → getMemZoneType x = getMemZoneType base) ∧
        (∀ x, lim ≤ x → x < base + size → getMemZoneType x = endType) ∧
        parts base size =
          [(endType, ⟨lim, base + size - lim⟩), (getMemZoneType base, ⟨base, lim - base⟩)] := by
  have hlast : 0 < base + size → (word + base + size - 1) % word = base + size - 1 := by
    intro hpos
    rw [Nat.add_assoc, word_add_sub_mod hpos (by omega)]
  unfold parts
  dsimp only
  split
  · next hne =>
    have hstep := hs.resolve_left hne
    have hpos : 0 < base + size := by
      by_contra h0
      have hb0 : base = 0 := by omega
      have hs0 : size = 0 := by omega
      subst hb0 hs0
      cases hstep
    obtain ⟨h1, h2, h3⟩ := zone_limit_between hstep
    generalize (getMemZoneType base).limit = lim at *
    have hhi : (word + base + size - lim) % word = base + size - lim := by
      rw [Nat.add_assoc, word_add_sub_mod (by omega) (by omega)]
    rw [hhi, word_add_sub_mod h1.le (by omega)]
    exact .inr ⟨lim, _, h1, by omega, fun x => (h3 x).1,
      fun x hx hx' => (h3 x).2 hx (by omega), rfl⟩
  · next he =>
    refine .inl ⟨fun x hx => ?_, rfl⟩
    have hx1 : base ≤ x := hx.1
    have hx2 : x < base + size := hx.2
    exact zone_between (not_not.mp he) hx1 (by omega)

/-- **The parts of a range partition it**, and each lies in its zone. -/
theorem parts_spec :
    (∀ f ∈ parts base size, base ≤ f.2.base ∧ f.2.stop ≤ base + size ∧
        ∀ x, f.2.Has x → getMemZoneType x = f.1) ∧
      ((parts base size).map Prod.snd).Pairwise Range.Disjoint ∧
      ∀ x, Range.Has ⟨base, size⟩ x → ∃ f ∈ parts base size, f.2.Has x := by
  rcases parts_cases hb hs with ⟨hz, hp⟩ | ⟨lim, endType, h1, h2, hlo, hhi, hp⟩
  · rw [hp]
    refine ⟨fun f hf => ?_, List.pairwise_singleton _ _, fun x hx => ⟨_, List.mem_cons_self, hx⟩⟩
    rw [List.mem_singleton.mp hf]
    exact ⟨le_rfl, le_rfl, hz⟩
  · rw [hp]
    refine ⟨fun f hf => ?_, ?_, fun x hx => ?_⟩
    · rcases List.mem_pair.mp hf with rfl | rfl <;> simp only [Range.stop, Range.Has]
      · exact ⟨by omega, by omega, fun x hx => hhi x hx.1 (by omega)⟩
      · exact ⟨by omega, by omega, fun x hx => hlo x hx.1 (by omega)⟩
    · simp only [List.map_cons, List.map_nil, List.pairwise_cons, List.mem_singleton, forall_eq,
        List.not_mem_nil, false_imp_iff, implies_true, List.Pairwise.nil, and_true]
      exact (Range.disjoint_of_le (by simp only [Range.stop]; omega)).symm
    · have hx1 : base ≤ x := hx.1
      have hx2 : x < base + size := hx.2
      by_cases hxl : lim ≤ x
      · exact ⟨_, List.mem_cons_self, hxl, by simp only [Range.stop]; omega⟩
      · exact ⟨_, List.mem_cons_of_mem _ List.mem_cons_self, hx1,
          by simp only [Range.stop]; omega⟩

theorem parts_inside (hf : f ∈ parts base size) :
    f.2.Inside ⟨base, size⟩ := by
  obtain ⟨h1, h2, -⟩ := (parts_spec hb hs).1 f hf
  exact Range.inside_of_le h1 h2

end

/-! ## What the loop keeps -/

/-- Early allocations change no entry but the reserved one, and create no frame allocator. -/
structure Keeps (s s' : Early) : Prop where
  reservedEntry : s'.reservedEntry = s.reservedEntry
  other : ∀ j, j ≠ s.reservedEntry → s'.memMap[j]? = s.memMap[j]?

theorem Keeps.refl (s : Early) : Keeps s s := ⟨rfl, fun _ _ => rfl⟩

theorem Keeps.trans {s'' : Early} (h : Keeps s s') (h' : Keeps s' s'') : Keeps s s'' where
  reservedEntry := h'.reservedEntry.trans h.reservedEntry
  other j hj := (h'.other j (by rwa [h.reservedEntry])).trans (h.other j hj)

theorem earlyAllocPages_keeps {addr : Nat} (h : earlyAllocPages s n = .ok (addr, s')) :
    Keeps s s' ∧ s'.zones = s.zones := by
  obtain ⟨-, h⟩ := guard_eq_ok.mp h
  cases h
  exact ⟨⟨rfl, fun j hj => List.getElem?_modify_ne _ _ (Ne.symm hj)⟩, rfl⟩

theorem allocTables_keeps (h : allocTables n s = .ok s') :
    Keeps s s' ∧ s'.zones = s.zones := by
  induction n generalizing s with
  | zero =>
    cases h
    exact ⟨.refl _, rfl⟩
  | succ n ih =>
    obtain ⟨⟨addr, u⟩, hu, hs⟩ := bind_ok h
    obtain ⟨hk, hz⟩ := earlyAllocPages_keeps hu
    obtain ⟨hk', hz'⟩ := ih hs
    exact ⟨hk.trans hk', hz'.trans hz⟩

theorem bitmapFaInit_keeps (h : bitmapFaInit newTables s size = .ok s') :
    Keeps s s' ∧ s'.zones = s.zones := by
  unfold bitmapFaInit at h
  dsimp only at h
  split at h
  · obtain ⟨-, h⟩ := guard_eq_ok.mp h
    obtain ⟨⟨addr, u⟩, hu, h⟩ := bind_ok h
    obtain ⟨v, hv, h⟩ := bind_ok h
    cases h
    obtain ⟨hk, hz⟩ := earlyAllocPages_keeps hu
    obtain ⟨hk', hz'⟩ := allocTables_keeps hv
    have hkv := hk.trans ⟨hk'.reservedEntry, hk'.other⟩
    exact ⟨⟨hkv.reservedEntry, hkv.other⟩, hz'.trans hz⟩
  · cases h
    exact ⟨.refl s, rfl⟩

/-- The largest entry whose bitmap comes from the heap: 65528 frames. -/
def smallEntry : Nat := 65528 * pageSize

theorem bitmapFaInit_small (hsz : size ≤ smallEntry) :
    bitmapFaInit newTables s size = .ok s := by
  have hsz' : size ≤ 268402688 := hsz
  have hframes : align size pageSize / pageSize ≤ 65528 := by
    obtain ⟨-, h2, h3⟩ := align_spec (v := size) (k := 12) (by omega) (by unfold word; omega)
    change align size 4096 < size + 4096 at h2
    unfold pageSize
    omega
  generalize hg : align size pageSize / pageSize = frames at hframes
  have hbytes : align frames 8 / 8 ≤ 8191 := by
    obtain ⟨-, h2, h3⟩ := align_spec (v := frames) (k := 3) (by omega) (by unfold word; omega)
    change align frames 8 < frames + 8 at h2
    omega
  have htwo : pagesToSize 2 = 8192 := rfl
  unfold bitmapFaInit
  rw [hg, if_neg (by omega)]

theorem newFrameAllocator_keeps
    (h : newFrameAllocator newTables zone base size s = .ok s') :
    Keeps s s' ∧ s'.zones = s.zones ++ [(zone, ⟨base, size⟩)] := by
  obtain ⟨u, hu, h⟩ := bind_ok h
  cases h
  obtain ⟨hk, hz⟩ := bitmapFaInit_keeps hu
  exact ⟨⟨hk.reservedEntry, hk.other⟩, by rw [hz]⟩

theorem newFrameAllocator_small (hsz : size ≤ smallEntry)
    (h : newFrameAllocator newTables zone base size s = .ok s') : s'.memMap = s.memMap := by
  obtain ⟨u, hu, h⟩ := bind_ok h
  cases (bitmapFaInit_small hsz).symm.trans hu
  cases h
  rfl

theorem zoneRange_keeps (h : zoneRange newTables base size s = .ok s') :
    Spans base size ∧ Keeps s s' ∧ s'.zones = s.zones ++ parts base size := by
  unfold zoneRange at h
  dsimp only at h
  split at h
  · next hne =>
    obtain ⟨hstep, h⟩ := guard_eq_ok.mp h
    obtain ⟨u, hu, h⟩ := bind_ok h
    obtain ⟨hk, hz⟩ := newFrameAllocator_keeps hu
    obtain ⟨hk', hz'⟩ := newFrameAllocator_keeps h
    refine ⟨.inr (not_not.mp hstep), hk.trans hk', ?_⟩
    rw [hz', hz]
    rw [parts, if_pos hne, List.append_assoc]
    rfl
  · next he =>
    obtain ⟨hk, hz⟩ := newFrameAllocator_keeps h
    refine ⟨.inl (not_not.mp he), hk, ?_⟩
    rw [hz]
    rw [parts, if_neg he]

/-- A small range changes nothing but the list of frame allocators. -/
theorem zoneRange_small (hb : base + size ≤ word) (hsz : size ≤ smallEntry)
    (h : zoneRange newTables base size s = .ok s') : s'.memMap = s.memMap := by
  obtain ⟨hspan, -, -⟩ := zoneRange_keeps h
  have hin := fun f hf => (parts_inside hb hspan (f := f) hf).size_le
  unfold zoneRange at h
  unfold parts at hin
  dsimp only at h hin
  split at h
  · next hne =>
    rw [if_pos hne] at hin
    obtain ⟨-, h⟩ := guard_eq_ok.mp h
    obtain ⟨u, hu, h⟩ := bind_ok h
    have hhigh := newFrameAllocator_small ((hin _ List.mem_cons_self).trans hsz) hu
    have hlow := (hin _ (List.mem_cons_of_mem _ List.mem_cons_self)).trans hsz
    exact (newFrameAllocator_small hlow h).trans hhigh
  · exact newFrameAllocator_small hsz h

/-! ## The loop -/

/-- The ranges for one entry of the map. -/
def partsOf : Option Entry → List (Zone × Range)
  | some e => if e.type = .usable then parts e.base e.size else []
  | none => []

/-- The entry is not usable, or it spans at most two zones. -/
def SpansOf (o : Option Entry) : Prop := ∀ e, o = some e → e.type = .usable → Spans e.base e.size

theorem zoneEntry_keeps (h : zoneEntry newTables i s = .ok s') :
    SpansOf s.memMap[i]? ∧ Keeps s s' ∧ s'.zones = s.zones ++ partsOf s.memMap[i]? := by
  unfold zoneEntry at h
  split at h
  · next hn =>
    cases h
    rw [hn]
    exact ⟨fun e he => by simp at he, .refl _, by simp [partsOf]⟩
  · next e he =>
    rw [he]
    split at h
    · next hu =>
      cases h
      refine ⟨fun e' he' hu' => ?_, .refl _, by simp [partsOf, hu]⟩
      cases he'
      exact absurd hu' hu
    · next hu =>
      obtain ⟨hsp, hk, hz⟩ := zoneRange_keeps h
      refine ⟨fun e' he' _ => ?_, hk, ?_⟩
      · cases he'
        exact hsp
      · rw [hz, partsOf, if_pos (not_not.mp hu)]

/-- The entry is not usable, or its bitmap comes from the heap. -/
def SmallOf (o : Option Entry) : Prop :=
  ∀ e, o = some e → e.type = .usable → e.base + e.size ≤ word ∧ e.size ≤ smallEntry

theorem zoneEntry_small (hsm : SmallOf s.memMap[i]?) (h : zoneEntry newTables i s = .ok s') :
    s'.memMap = s.memMap := by
  unfold zoneEntry at h
  split at h
  · cases h
    rfl
  · next e he =>
    split at h
    · cases h
      rfl
    · next hu =>
      obtain ⟨hb, hsz⟩ := hsm e he (not_not.mp hu)
      exact zoneRange_small hb hsz h

/-- **The loop gives what the map said before it**, when no entry in front of the reserved one is
large. -/
theorem zoneLoop_spec (hsm : is.Pairwise fun i j => j = s.reservedEntry → SmallOf s.memMap[i]?)
    (h : zoneLoop newTables is s = .ok s') :
    (∀ i ∈ is, SpansOf s.memMap[i]?) ∧
      s'.zones = s.zones ++ is.flatMap fun i => partsOf s.memMap[i]? := by
  induction is generalizing s with
  | nil =>
    cases h
    exact ⟨by simp, by simp⟩
  | cons i is ih =>
    obtain ⟨u, hu, hs⟩ := bind_ok h
    obtain ⟨hsp, hk, hz⟩ := zoneEntry_keeps hu
    obtain ⟨hi, hsm⟩ := List.pairwise_cons.mp hsm
    have hmap : ∀ j ∈ is, u.memMap[j]? = s.memMap[j]? := by
      intro j hj
      by_cases hjr : j = s.reservedEntry
      · rw [zoneEntry_small (hi j hj hjr) hu]
      · exact hk.other j hjr
    obtain ⟨hsp', hz'⟩ := ih (hsm.imp_of_mem fun hi _ h hj => by
      rw [hmap _ hi]
      exact h (hj.trans hk.reservedEntry)) hs
    refine ⟨fun j hj => ?_, ?_⟩
    · rcases List.mem_cons.mp hj with rfl | hj
      · exact hsp
      · rw [← hmap j hj]
        exact hsp' j hj
    · rw [hz', hz, List.append_assoc]
      congr 2
      exact List.flatMap_congr fun j hj => by rw [hmap j hj]

theorem zoneLoop_range (hsm : ∀ i < s.reservedEntry, SmallOf s.memMap[i]?)
    (h : zoneLoop newTables (List.range n) s = .ok s') : (∀ i < n, SpansOf s.memMap[i]?) ∧
      s'.zones = s.zones ++ (List.range n).flatMap fun i => partsOf s.memMap[i]? := by
  simpa using zoneLoop_spec (List.pairwise_lt_range.imp fun hlt hj => hsm _ (hj ▸ hlt)) h

/-! ## What the loop gives -/

/-- All that the loop gives out, for the map as it was before the loop. -/
def givenRanges (s : Early) : List (Zone × Range) :=
  (List.range s.memMap.length).flatMap fun i => partsOf s.memMap[i]?

theorem mem_partsOf {o : Option Entry} :
    f ∈ partsOf o ↔ ∃ e, o = some e ∧ e.type = .usable ∧ f ∈ parts e.base e.size := by
  cases o <;> simp [partsOf]

section Given

variable (hb : ∀ (j : Nat) e, s.memMap[j]? = some e → e.type = .usable → e.base + e.size ≤ word)
  (hspan : ∀ i < s.memMap.length, SpansOf s.memMap[i]?)

include hspan

theorem mem_givenRanges (hf : f ∈ givenRanges s) :
    ∃ (j : Nat) (e : Entry), s.memMap[j]? = some e ∧ e.type = .usable ∧ Spans e.base e.size ∧
      f ∈ parts e.base e.size := by
  obtain ⟨j, hj, hf⟩ := List.mem_flatMap.mp hf
  obtain ⟨e, he, hu, hf⟩ := mem_partsOf.mp hf
  exact ⟨j, e, he, hu, hspan j (List.mem_range.mp hj) e he hu, hf⟩

include hb

/-- Every address of a usable entry is given to some allocator of that entry. -/
theorem partsOf_cover (he : s.memMap[j]? = some e) (hu : e.type = .usable)
    (hx : e.range.Has x) :
    ∃ f ∈ partsOf s.memMap[j]?, f ∈ givenRanges s ∧ f.2.Has x := by
  have hj : j < s.memMap.length := (List.getElem?_eq_some_iff.mp he).1
  obtain ⟨f, hf, hfx⟩ := (parts_spec (hb j e he hu) (hspan j hj e he hu)).2.2 x hx
  have hf' : f ∈ partsOf s.memMap[j]? := mem_partsOf.mpr ⟨e, he, hu, hf⟩
  exact ⟨f, hf', List.mem_flatMap.mpr ⟨j, List.mem_range.mpr hj, hf'⟩, hfx⟩

/-- **Disjoint entries are given to disjoint allocators.** -/
theorem givenRanges_disjoint
    (hd : ∀ (i j : Nat) e e', s.memMap[i]? = some e → s.memMap[j]? = some e' → e.type = .usable →
      e'.type = .usable → i < j → e.range.Disjoint e'.range) :
    ((givenRanges s).map Prod.snd).Pairwise Range.Disjoint := by
  rw [List.pairwise_map]
  refine List.pairwise_flatMap.mpr ⟨fun j hj => ?_, ?_⟩
  · cases hg : s.memMap[j]? with
    | none => simp [partsOf]
    | some e =>
      rw [partsOf]
      split
      · next hu =>
        have hsp := hspan j (List.mem_range.mp hj) e hg hu
        exact List.pairwise_map.mp (parts_spec (hb j e hg hu) hsp).2.1
      · exact .nil
  · refine List.pairwise_lt_range.imp_of_mem fun {i j} hi hj hlt f hf g hg => ?_
    obtain ⟨e, he, hu, hf⟩ := mem_partsOf.mp hf
    obtain ⟨e', he', hu', hg⟩ := mem_partsOf.mp hg
    exact (hd i j e e' he he' hu hu' hlt).mono
      (parts_inside (hb i e he hu) (hspan i (List.mem_range.mp hi) e he hu) hf)
      (parts_inside (hb j e' he' hu') (hspan j (List.mem_range.mp hj) e' he' hu') hg)

end Given

/-! ## The entries at the time of the loop -/

theorem BootInfo.WellFormed.apart (hw : b.WellFormed)
    (hi : b.memMap[i]? = some e) (hj : b.memMap[j]? = some e') (hne : i ≠ j) :
    e.range.Disjoint e'.range := by
  obtain ⟨hi', rfl⟩ := List.getElem?_eq_some_iff.mp hi
  obtain ⟨hj', rfl⟩ := List.getElem?_eq_some_iff.mp hj
  have hp := List.pairwise_iff_getElem.mp hw.disjoint
  rcases Nat.lt_or_gt_of_ne hne with hlt | hlt
  · exact hp i j hi' hj' hlt
  · exact (hp j i hj' hi' hlt).symm

section Current

variable {k r : Nat} {eK eR : Entry} {a p l : Nat}

theorem Accepted.kernel_inside (ha : Accepted b k r eK eR) : b.kernel.Inside eK.range := by
  refine Range.inside_of_le (Nat.le_of_eq ha.kernel_base) ?_
  have h1 := ha.kernel_base
  have h2 := ha.kernel_le
  simp only [Range.stop, BootInfo.kernel, Entry.range]
  omega

/-- A range in the reserved entry does not meet the kernel. -/
theorem Accepted.kernel_disjoint (ha : Accepted b k r eK eR) (hw : b.WellFormed) {y : Range}
    (hy : y.Inside eR.range) : b.kernel.Disjoint y := by
  by_cases hkr : k = r
  · intro x hx
    have hx1 := hx.1
    have hx2 := hx.2
    simp only [Range.stop, BootInfo.kernel, ha.kernelSize_eq_zero hw hkr] at hx1 hx2
    omega
  · exact (hw.apart ha.hk ha.hr hkr).mono ha.kernel_inside hy

theorem Phase.current_reserved (hp : Phase b k r eR s a p l) (he : s.memMap[r]? = some e) :
    e = ⟨.usable, eR.base + b.initrdSize + a + p, eR.size - (a + p + l)⟩ := by
  rw [hp.entry] at he
  exact (Option.some.inj he).symm

variable (hw : b.WellFormed) (ha : Accepted b k r eK eR) (hp : Phase b k r eR s a p l)

include hw ha hp

/-- An entry other than the reserved one keeps its range, less the kernel. -/
theorem current_other (hj : j ≠ r) (he : s.memMap[j]? = some e) :
    ∃ e0, b.memMap[j]? = some e0 ∧ e.type = e0.type ∧ e.range.Inside e0.range ∧
      e.range.Disjoint b.kernel ∧ e.size ≤ e0.size ∧ (b.kernelSize = 0 → e = e0) := by
  rw [hp.other j hj] at he
  obtain rfl | hjk := eq_or_ne k j
  · rw [List.getElem?_modify_eq, ha.hk] at he
    cases he
    have h1 := ha.kernel_base
    have h2 := ha.kernel_le
    refine ⟨eK, ha.hk, rfl, ?_, ?_, Nat.sub_le _ _, fun h0 => ?_⟩
    · exact Range.inside_of_le (by simp only [Entry.range, kernelUpdate]; omega)
        (by simp only [Range.stop, Entry.range, kernelUpdate]; omega)
    · exact (Range.disjoint_of_le le_rfl).symm
    · simp only [kernelUpdate, h0, Nat.add_zero, Nat.sub_zero, ← h1]
  · rw [List.getElem?_modify_ne _ _ hjk] at he
    refine ⟨e, he, rfl, fun _ hx => hx, ?_, le_rfl, fun _ => rfl⟩
    exact (hw.apart he ha.hk (Ne.symm hjk)).mono (fun _ hx => hx) (ha.kernel_inside)

/-- No entry comes near the end of the address space. -/
theorem current_bound (he : s.memMap[j]? = some e) :
    e.base + e.size < word := by
  unfold word
  obtain rfl | hj := eq_or_ne j r
  · rw [hp.current_reserved he]
    have h1 := hw.bound eR (List.mem_of_getElem? ha.hr)
    have h2 := hp.base_le
    have h3 : eR.range.stop = eR.base + eR.size := rfl
    simp only
    omega
  · obtain ⟨e0, he0, -, hin, -, hsz, -⟩ := current_other hw ha hp hj he
    have h1 := hw.bound e0 (List.mem_of_getElem? he0)
    by_cases h0 : e.size = 0
    · rw [hp.other j hj] at he
      obtain rfl | hjk := eq_or_ne k j
      · rw [List.getElem?_modify_eq, ha.hk] at he
        cases he
        have h2 : b.kernelPhysAddr + b.kernelSize ≤ 2 ^ 52 := hw.kernel_bound
        simp only [kernelUpdate] at h0 ⊢
        omega
      · rw [List.getElem?_modify_ne _ _ hjk, he0] at he
        cases he
        have h3 : e.range.stop = e.base + e.size := rfl
        omega
    · have hlast := (hin (e.base + e.size - 1) ⟨by simp only [Entry.range]; omega,
        by simp only [Range.stop, Entry.range]; omega⟩).2
      omega

/-- Early memory below `x` is what is left of the reserved entry at its start. -/
theorem current_early (he : s.memMap[j]? = some e) {x : Range} (hx : eR.base ≤ x.base)
    (hx1 : x.stop ≤ s.reservedPtr) (hx2 : x.stop ≤ eR.range.stop) :
    x.Disjoint e.range := by
  obtain rfl | hj := eq_or_ne j r
  · rw [hp.current_reserved he]
    refine Range.disjoint_of_le (Nat.le_trans hx1 ?_)
    rw [hp.ptr]
    exact Nat.le_add_right _ _
  · obtain ⟨e0, he0, -, hin, -⟩ := current_other hw ha hp hj he
    exact (hw.apart ha.hr he0 (Ne.symm hj)).mono (Range.inside_of_le hx hx2) hin

section Enough

variable (hle : b.initrdSize ≤ l) (hfit : a + p + l ≤ eR.size)

include hle hfit

/-- When enough was forgotten, every entry lies inside what the boot loader reported. -/
theorem current_inside (he : s.memMap[j]? = some e) :
    ∃ e0, b.memMap[j]? = some e0 ∧ e.type = e0.type ∧ e.range.Inside e0.range := by
  obtain rfl | hj := eq_or_ne j r
  · rw [hp.current_reserved he]
    refine ⟨eR, ha.hr, ha.usable.symm, Range.inside_of_le ?_ ?_⟩
    · simp only [Entry.range]
      omega
    · simp only [Range.stop, Entry.range]
      omega
  · obtain ⟨e0, he0, ht, hin, -⟩ := current_other hw ha hp hj he
    exact ⟨e0, he0, ht, hin⟩

theorem current_disjoint (hi : s.memMap[i]? = some e)
    (hj : s.memMap[j]? = some e') (hne : i ≠ j) : e.range.Disjoint e'.range := by
  obtain ⟨e0, he0, -, hin⟩ := current_inside hw ha hp hle hfit hi
  obtain ⟨e1, he1, -, hin'⟩ := current_inside hw ha hp hle hfit hj
  exact (hw.apart he0 he1 hne).mono hin hin'

theorem current_kernel (he : s.memMap[j]? = some e) :
    b.kernel.Disjoint e.range := by
  obtain rfl | hj := eq_or_ne j r
  · obtain ⟨e0, he0, -, hin⟩ := current_inside hw ha hp hle hfit he
    cases ha.hr.symm.trans he0
    exact ha.kernel_disjoint hw hin
  · obtain ⟨e0, -, -, -, hd, -⟩ := current_other hw ha hp hj he
    exact hd.symm

end Enough

end Current

/-! ## The hand-over -/

/--
The ranges handed out early, the two images and the ranges of the frame allocators do not overlap,
and the frame allocators have only usable memory.
-/
def HandOver (b : BootInfo) (handed : List Range) (zones : List (Zone × Range)) : Prop :=
  (handed ++ [b.kernel, b.initrd] ++ zones.map Prod.snd).Pairwise Range.Disjoint ∧
    ∀ f ∈ zones, ∀ x, f.2.Has x → ∃ e ∈ b.memMap, e.type = .usable ∧ e.range.Has x

section Zones

variable {k r : Nat} {eK eR : Entry} {a p l : Nat} (hw : b.WellFormed)
  (ha : Accepted b k r eK eR) (hp : Phase b k r eR s a p l)
  (hspan : ∀ i < s.memMap.length, SpansOf s.memMap[i]?)

include hw ha hp

/-- What was handed out does not meet the two images. -/
theorem early_disjoint : (s.handed ++ [b.kernel, b.initrd]).Pairwise Range.Disjoint := by
  refine List.pairwise_append.mpr ⟨hp.handed_disjoint, List.pairwise_pair.mpr hw.images, ?_⟩
  intro x hx y hy
  obtain ⟨h1, h2, h3⟩ := hp.handed_inside x hx
  rcases List.mem_pair.mp hy with rfl | rfl
  · have hin : x.Inside eR.range := Range.inside_of_le (by simp only [Entry.range]; omega) h3
    exact (ha.kernel_disjoint hw hin).symm
  · refine (Range.disjoint_of_le ?_).symm
    have := ha.initrd_base
    simp only [Range.stop, BootInfo.initrd]
    omega

include hspan

/-- **Enough forgotten reservations make the hand-over disjoint.** -/
theorem handOver_of_le (hle : b.initrdSize ≤ l) (hfit : a + p + l ≤ eR.size) :
    HandOver b s.handed (givenRanges s) := by
  have hb : ∀ (j : Nat) e, s.memMap[j]? = some e → e.type = .usable → e.base + e.size ≤ word :=
    fun j e he _ => (current_bound hw ha hp he).le
  have hcur : ∀ f ∈ givenRanges s, ∃ (j : Nat) (e : Entry),
      s.memMap[j]? = some e ∧ e.type = .usable ∧ f.2.Inside e.range := by
    intro f hf
    obtain ⟨j, e, he, hu, hsp, hf⟩ := mem_givenRanges hspan hf
    exact ⟨j, e, he, hu, parts_inside (hb j e he hu) hsp hf⟩
  have hbl := hp.ptr
  have hinit : b.initrd.stop ≤ s.reservedPtr := by
    have := ha.initrd_base
    simp only [Range.stop, BootInfo.initrd]
    omega
  have hinit' : b.initrd.stop ≤ eR.range.stop := by
    have := ha.initrd_base
    simp only [Range.stop, BootInfo.initrd, Entry.range]
    omega
  refine ⟨List.pairwise_append.mpr ⟨early_disjoint hw ha hp, ?_, ?_⟩, ?_⟩
  · exact givenRanges_disjoint hb hspan fun i j e e' he he' _ _ hlt =>
      current_disjoint hw ha hp hle hfit he he' (Nat.ne_of_lt hlt)
  · intro x hx g hg
    obtain ⟨f, hf, rfl⟩ := List.mem_map.mp hg
    obtain ⟨j, e, he, -, hin⟩ := hcur f hf
    refine Range.Disjoint.mono ?_ (fun _ hx => hx) hin
    rcases List.mem_append.mp hx with hx | hx
    · obtain ⟨h1, h2, h3⟩ := hp.handed_inside x hx
      exact current_early hw ha hp he (by omega) h2 h3
    · rcases List.mem_pair.mp hx with rfl | rfl
      · exact current_kernel hw ha hp hle hfit he
      · exact current_early hw ha hp he (Nat.le_of_eq ha.initrd_base) hinit hinit'
  · intro f hf x hx
    obtain ⟨j, e, he, hu, hin⟩ := hcur f hf
    obtain ⟨e0, he0, ht, hin'⟩ := current_inside hw ha hp hle hfit he
    exact ⟨e0, List.mem_of_getElem? he0, ht.symm.trans hu, hin' x (hin x hx)⟩

/-- **Otherwise the range of the reserved entry runs past its end.** -/
theorem le_of_handOver (hfit : a + p + l ≤ eR.size)
    (h : HandOver b s.handed (givenRanges s)) : b.initrdSize ≤ l := by
  by_contra hlt
  have hb : ∀ (j : Nat) e, s.memMap[j]? = some e → e.type = .usable → e.base + e.size ≤ word :=
    fun j e he _ => (current_bound hw ha hp he).le
  obtain ⟨hpw, hus⟩ := h
  obtain ⟨-, hzones, hcross⟩ := List.pairwise_append.mp hpw
  have hbl := hp.base_le
  have hr : r < s.memMap.length := (List.getElem?_eq_some_iff.mp hp.entry).1
  -- the first address after the reserved entry is given away
  have hx : (⟨.usable, eR.base + b.initrdSize + a + p, eR.size - (a + p + l)⟩ : Entry).range.Has
      eR.range.stop := ⟨hbl, by simp only [Range.stop, Entry.range]; omega⟩
  obtain ⟨f, hf, hfg, hfx⟩ := partsOf_cover hb hspan hp.entry rfl hx
  obtain ⟨e, he, hu, hex⟩ := hus f hfg _ hfx
  obtain ⟨j, hj⟩ := List.getElem?_of_mem he
  have hjr : j ≠ r := by
    intro hjr
    rw [hjr, ha.hr] at hj
    cases hj
    exact absurd hex.2 (Nat.lt_irrefl _)
  -- so it is the first address of another usable entry
  have hbase : e.base = eR.range.stop := by
    have hd := hw.apart hj ha.hr hjr (eR.range.stop - 1)
    have h1 : e.base ≤ eR.range.stop := hex.1
    have h2 : eR.range.stop < e.base + e.size := hex.2
    unfold Range.Has at hd
    simp only [Range.stop, Entry.range] at *
    omega
  by_cases hkern : k = j ∧ b.kernelSize ≠ 0
  · obtain ⟨rfl, h0⟩ := hkern
    have heK : e = eK := Option.some.inj (hj.symm.trans ha.hk)
    refine hcross b.kernel (by simp) f.2 (List.mem_map_of_mem hfg) _ ?_ hfx
    rw [← hbase, heK]
    refine ⟨Nat.le_of_eq ha.kernel_base.symm, ?_⟩
    rw [ha.kernel_base]
    simp only [Range.stop, BootInfo.kernel]
    omega
  · have hcur : s.memMap[j]? = some e := by
      rw [hp.other j hjr]
      obtain rfl | hkj := eq_or_ne k j
      · have h0 : b.kernelSize = 0 := by
          by_contra hc
          exact hkern ⟨rfl, hc⟩
        have heK : e = eK := Option.some.inj (hj.symm.trans ha.hk)
        rw [List.getElem?_modify_eq, hj]
        simp only [Option.map_eq_map, Option.map_some, kernelUpdate, h0, Nat.add_zero,
          Nat.sub_zero, ← ha.kernel_base, heK]
      · rwa [List.getElem?_modify_ne _ _ hkj]
    obtain ⟨g, hg, -, hgx⟩ := partsOf_cover hb hspan hcur hu hex
    have hjl : j < s.memMap.length := (List.getElem?_eq_some_iff.mp hcur).1
    have hpr := (List.pairwise_flatMap.mp (List.pairwise_map.mp hzones)).2
    rw [List.pairwise_iff_getElem] at hpr
    rcases Nat.lt_or_gt_of_ne hjr with hlt' | hlt'
    · have hd := hpr j r (by simpa using hjl) (by simpa using hr) hlt'
      simp only [List.getElem_range] at hd
      exact hd g hg f hf _ hgx hfx
    · have hd := hpr r j (by simpa using hr) (by simpa using hjl) hlt'
      simp only [List.getElem_range] at hd
      exact hd f hf g hg _ hfx hgx

end Zones

/-! ## Whole boots -/

/--
The calls and the 128 pages of `init_mem_zones` fit in the reserved entry, and no usable entry in
front of it has more than 65528 frames.
-/
structure Fits (b : BootInfo) (cs : List Call) : Prop where
  small : ∀ e ∈ b.memMap.takeWhile (fun e => !e.suitable), e.type = .usable → e.size ≤ smallEntry
  room : ∀ e, b.memMap.find? Entry.suitable = some e →
    (heapPages + callPages cs + 128) * pageSize ≤ e.size

theorem reserveInitrd_ok (h : reserveInitrd b s = .ok s') : s' = s := by
  unfold reserveInitrd at h
  dsimp only at h
  split_ifs at h <;> cases h <;> rfl

/-- The first suitable entry, by index. -/
theorem Accepted.split {k r : Nat} {eK eR : Entry} (ha : Accepted b k r eK eR) :
    b.memMap.find? Entry.suitable = some eR ∧
      ∀ j < r, ∀ e, b.memMap[j]? = some e →
        e ∈ b.memMap.takeWhile (fun e => !e.suitable) := by
  obtain ⟨hr, he⟩ := List.getElem?_eq_some_iff.mp ha.hr
  have hfirst : ∀ j (hj : j < r), (!(b.memMap[j]).suitable) = true := by
    intro j hj
    rw [ha.first j hj _ (List.getElem?_eq_getElem (by omega))]
    rfl
  refine ⟨List.find?_eq_some_iff_getElem.mpr ⟨ha.suitable, r, hr, he, hfirst⟩, ?_⟩
  intro j hj e hje
  obtain ⟨hjl, rfl⟩ := List.getElem?_eq_some_iff.mp hje
  have hall : ∀ x ∈ b.memMap.take r, (!x.suitable) = true := by
    intro x hx
    obtain ⟨i, hi, rfl⟩ := List.getElem_of_mem hx
    rw [List.getElem_take]
    exact hfirst i (by simp at hi; omega)
  have htw := @List.takeWhile_append_of_pos _ _ (b.memMap.take r) (b.memMap.drop r) hall
  rw [List.take_append_drop] at htw
  rw [htw]
  exact List.mem_append_left _ (List.mem_take_iff_getElem.mpr ⟨j, by omega, rfl⟩)

/-- The map and the phase when the loop of `init_mem_zones` starts, and what the loop gives. -/
theorem initMemZones_phase {cs : List Call} {s0 s1 s2 : Early} (hw : b.WellFormed)
    (hinit : earlyInit b = .ok s0)
    (hcalls : runCalls s0 cs = .ok s1) (hzones : initMemZones newTables b s1 = .ok s2)
    (hfit : Fits b cs) :
    ∃ k r eK eR a p u, Accepted b k r eK eR ∧ Phase b k r eR u a p (lostBytes cs 0) ∧
      a + p + lostBytes cs 0 = (heapPages + callPages cs + 128) * pageSize ∧
      a + p + lostBytes cs 0 ≤ eR.size ∧ (∀ i < u.memMap.length, SpansOf u.memMap[i]?) ∧
      s1.handed = u.handed ∧ s2.zones = givenRanges u := by
  obtain ⟨k, r, eK, eR, ha, hphase⟩ := earlyInit_spec hw hinit
  obtain ⟨hfind, hbefore⟩ := ha.split
  have hroom := hfit.room eR hfind
  rw [Nat.add_mul, Nat.add_mul] at hroom ⊢
  have hbR := hw.bound eR (List.mem_of_getElem? ha.hr)
  obtain ⟨a, p, hp1, htot⟩ := runCalls_phase hbR (hphase (by omega)) (by omega) hcalls
  obtain ⟨u, hu, hz⟩ := bind_ok hzones
  obtain ⟨v, hv, hz⟩ := bind_ok hz
  have hs2 := reserveInitrd_ok hz
  subst hs2
  rw [hp1.reservedPages] at hu
  have hp2 := hp1.reserve hbR (by omega) hu
  have hhanded : s1.handed = u.handed := by
    rw [(earlyReservePages_ok hu).1]
  obtain ⟨hspan, hgiven⟩ := zoneLoop_range (fun i hi e he hus => by
    rw [hp2.reservedEntry] at hi
    obtain ⟨e0, he0, ht, -, -, hsz, -⟩ := current_other hw ha hp2 (Nat.ne_of_lt hi) he
    have hsm := hfit.small e0 (hbefore i hi e0 he0) (ht.symm.trans hus)
    exact ⟨(current_bound hw ha hp2 he).le, hsz.trans hsm⟩) hv
  rw [hp2.zones] at hgiven
  rw [Nat.zero_add] at hp2 htot
  exact ⟨k, r, eK, eR, a, _, u, ha, hp2, by omega, by omega, hspan, hhanded, hgiven⟩

/--
**The hand-over is disjoint exactly when the initrd is no larger than what was reserved and then
forgotten.**

`cs` are the early calls between `mm_early_init` and `init_mem_zones`. The bytes that count are
those of `mm_early_reserve_pages` calls that a later `mm_early_alloc_pages` call follows.
-/
theorem handOver_iff {cs : List Call} {s0 s1 s2 : Early} (hw : b.WellFormed)
    (hinit : earlyInit b = .ok s0) (hcalls : runCalls s0 cs = .ok s1)
    (hzones : initMemZones newTables b s1 = .ok s2) (hfit : Fits b cs) :
    HandOver b s1.handed s2.zones ↔ b.initrdSize ≤ lostBytes cs 0 := by
  obtain ⟨k, r, eK, eR, a, p, u, ha, hp, -, hroom, hspan, hhanded, hz⟩ :=
    initMemZones_phase hw hinit hcalls hzones hfit
  rw [hz, hhanded]
  exact ⟨le_of_handOver hw ha hp hspan hroom, fun hle => handOver_of_le hw ha hp hspan hle hroom⟩

/-- Two usable entries: the kernel in the first, a small initrd at the start of the second. -/
def sampleBoot : BootInfo where
  kernelPhysAddr := size1Mb
  kernelSize := 2 * size1Mb
  initrdAddr := size16Mb
  initrdSize := pageSize
  memMap := [⟨.usable, size1Mb, 15 * size1Mb⟩, ⟨.usable, size16Mb, 64 * size1Mb⟩]

theorem sampleBoot_wellFormed : sampleBoot.WellFormed where
  bound := by decide
  disjoint := by
    refine List.pairwise_pair.mpr (Range.disjoint_of_le ?_)
    decide
  kernel_bound := by decide
  initrd_bound := by decide
  images := Range.disjoint_of_le (by decide)

theorem sampleBoot_fits : Fits sampleBoot [.reserve 1, .alloc 1] where
  small := by decide
  room := by decide

/-- The three states of a boot: after `mm_early_init`, after the calls, and after the zones. -/
def bootWith (cs : List Call) : Except Panic (Early × Early × Early) := do
  let s0 ← earlyInit sampleBoot
  let s1 ← runCalls s0 cs
  let s2 ← initMemZones (fun _ => 0) sampleBoot s1
  .ok (s0, s1, s2)

theorem bootWith_ok {cs : List Call} {t : Early × Early × Early} (h : bootWith cs = .ok t) :
    earlyInit sampleBoot = .ok t.1 ∧ runCalls t.1 cs = .ok t.2.1 ∧
      initMemZones (fun _ => 0) sampleBoot t.2.1 = .ok t.2.2 := by
  obtain ⟨s0, h0, h⟩ := bind_ok h
  obtain ⟨s1, h1, h⟩ := bind_ok h
  obtain ⟨s2, h2, h⟩ := bind_ok h
  cases h
  exact ⟨h0, h1, h2⟩

/-- With one page reserved before an allocation, the page of the initrd is made up for. -/
theorem handOver_sampleBoot : ∃ s0 s1 s2, earlyInit sampleBoot = .ok s0 ∧
    runCalls s0 [.reserve 1, .alloc 1] = .ok s1 ∧
    initMemZones (fun _ => 0) sampleBoot s1 = .ok s2 ∧
    HandOver sampleBoot s1.handed s2.zones := by
  obtain ⟨t, ht⟩ := exists_of_toBool (x := bootWith [.reserve 1, .alloc 1]) (by rfl)
  obtain ⟨h0, h1, h2⟩ := bootWith_ok ht
  exact ⟨_, _, _, h0, h1, h2,
    (handOver_iff sampleBoot_wellFormed h0 h1 h2 sampleBoot_fits).mpr (by decide)⟩

/-- Without calls the second allocator has one page too many. -/
theorem sampleBoot_zones : (bootWith []).map (fun t => t.2.2.zones) = .ok
    [(.dma, ⟨0x300000, 0xD00000⟩), (.normal, ⟨0x1681000, 0x3980000⟩)] := by decide_cbv

/--
**Without such calls the last page given away is not usable memory.** The boot is accepted and no
further early call is made; the last frame allocator ends one page after the second entry.
-/
theorem sampleBoot_not_handOver : ∃ s0 s1 s2, earlyInit sampleBoot = .ok s0 ∧
    runCalls s0 [] = .ok s1 ∧ initMemZones (fun _ => 0) sampleBoot s1 = .ok s2 ∧
    ¬ HandOver sampleBoot s1.handed s2.zones := by
  obtain ⟨t, ht⟩ := exists_of_toBool (x := bootWith []) (by rfl)
  have hz := sampleBoot_zones
  rw [ht] at hz
  have hzones : t.2.2.zones = _ := Except.ok.inj hz
  obtain ⟨h0, h1, h2⟩ := bootWith_ok ht
  refine ⟨_, _, _, h0, h1, h2, fun h => ?_⟩
  obtain ⟨e, he, -, hex⟩ := h.2 (.normal, ⟨0x1681000, 0x3980000⟩)
    (by rw [hzones]; decide) (80 * size1Mb) ⟨by decide, by decide⟩
  have hall : ∀ e ∈ sampleBoot.memMap, e.range.stop ≤ 80 * size1Mb := by decide
  exact absurd hex.2 (Nat.not_lt.mpr (hall e he))

end Osdev.EarlyMem
