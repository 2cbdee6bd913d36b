import Mathlib.Order.Bounds.Basic
import Osdev.Vm.Locks
import Osdev.Vm.Tree

/-!
# Placement of new mappings

`SpaceOk v sp l`: the tree of space `sp` holds the ranges `l`, one for each mapping of the space.
From such a space `vmap_internal` either fails and changes nothing, or adds one mapping, at the
least free place that the request allows (`vmapInternal_placement`).
-/

namespace Osdev.Vm

open Osdev.Intvl Osdev.Lib

/-- The tree and the list of a space agree with its mappings. -/
structure SpaceOk (v : VmState) (sp : Nat) (l : List Item) : Prop where
  tree : TreeOk (v.space sp).tree v.brk l
  list : (l.map Prod.snd).Perm (v.space sp).mappings
  count : (v.space sp).numMappings = (v.space sp).mappings.length
  mapping : ∀ x ∈ l, x.2 ≠ 0 ∧ x.2 < v.brk ∧ x.1 = vmVirtInterval (v.mapping x.2)

namespace VmapArgs

/-- The size of the virtual range of a mapping that is not a stack. -/
def virtSize (a : VmapArgs) : Nat := max a.vmSize a.size

/-- The address from which the place of a mapping that is not a stack is searched. -/
def base (a : VmapArgs) : Nat :=
  if a.vmFlags.has vmFixed then a.hint else chooseBestHint a.hint (readableFlags a.vmFlags)

/-- The addresses where a mapping of the request may start, in a space with the ranges `l`. -/
def Places (a : VmapArgs) (l : List Item) : Set Nat :=
  { y | a.base ≤ y ∧ y % a.pgSize = 0 ∧ FreeAt (l.map Prod.fst) a.virtSize y }

/-- The address arithmetic of a request does not overflow: a fixed range ends below `2 ^ 64`, and so
does some place where another one may start. -/
def Fits (a : VmapArgs) (l : List Item) : Prop :=
  if a.vmFlags.has vmFixed then a.hint + a.virtSize < word
  else ∃ y ∈ a.Places l, y + a.virtSize < word

end VmapArgs

variable {v v' : VmState} {sp : Nat} {l : List Item} {a : VmapArgs} {x : Space} {brk : Nat}
variable {base size c id : Nat}

/-! ## The request -/

theorem vmFlagsToSize_eq (flags : Flags) : ∃ e, e < 64 ∧ vmFlagsToSize flags = 2 ^ e := by
  unfold vmFlagsToSize
  split
  · exact ⟨21, by decide, rfl⟩
  · split
    · exact ⟨30, by decide, rfl⟩
    · exact ⟨12, by decide, rfl⟩

/-- The checks on the sizes of a request. -/
theorem areValidVmapArgs_aligned {b : Backing} (h : areValidVmapArgs b a = .ok true) :
    a.size % a.pgSize = 0 ∧ a.virtSize % a.pgSize = 0 := by
  obtain ⟨e, -, he⟩ := vmFlagsToSize_eq a.vmFlags
  unfold areValidVmapArgs at h
  iterate 5
    split at h
    · cases h
  split at h
  · cases h
  next h1 =>
    split at h
    · cases h
    next h2 =>
      unfold VmapArgs.pgSize at h1 h2 ⊢
      rw [he, isAligned_two_pow, decide_eq_true_eq, not_not] at h1 h2
      rw [he]
      refine ⟨h1, ?_⟩
      unfold VmapArgs.virtSize
      rcases Nat.le_total a.vmSize a.size with hle | hle
      · rwa [Nat.max_eq_right hle]
      · rwa [Nat.max_eq_left hle]

theorem virtRange_eq (h : a.vmFlags.has vmStack = false) :
    virtRange a = some (a.virtSize, 0, a.base) := by
  unfold virtRange VmapArgs.base
  simp only [h, Bool.false_eq_true, if_false]
  split <;> rfl

/-- A chosen hint is never `NULL`. -/
theorem chooseBestHint_pos (hint : Nat) (flags : Flags) : 0 < chooseBestHint hint flags := by
  unfold chooseBestHint
  split
  · split
    next h => exact h.1
    · split
      · decide
      · split <;> decide
  · split
    next h => exact (Nat.zero_le _).trans_lt h.1
    · split
      · decide
      · split <;> decide

/-! ## The search for a place -/

theorem checkRangeFree_free (h : TreeOk x.tree brk l) (hsize : 0 < size)
    (hword : base + size < word) (hfree : FreeAt (l.map Prod.fst) size base) :
    ∃ c, checkRangeFree x base size = .ok (some c) ∧ GapAt l ⟨base, base + size⟩ c := by
  obtain ⟨r, rec, hrun, hgap, -⟩ := h.freeGap (by decide)
    (show (if (0 : Nat) = 0 then 1 else 0) = 2 ^ 0 from rfl) hsize
    (Nat.mod_one _) (Nat.le_refl base) (Nat.mod_one _) hfree hword
  have hstart : r.start = base := Nat.le_antisymm
    (hgap.least.least base le_rfl (Nat.mod_one _) hfree) hgap.least.lower
  have hr : (⟨base, base + size⟩ : Interval) = r := by
    rw [← hstart, ← hgap.stop]
  refine ⟨closest x.tree rec, ?_, by rw [hr]; exact hgap.place⟩
  unfold checkRangeFree closest
  dsimp only
  rw [addWord_of_lt hword, hrun]
  show (if (⟨base, base + size⟩ : Interval) ≠ r then _ else _) = _
  rw [if_neg (not_not.mpr hr)]
  split <;> rfl

theorem checkRangeFree_not_free (h : TreeOk x.tree brk l) (hsize : 0 < size)
    (hword : base + size < word) (hfree : ¬ FreeAt (l.map Prod.fst) size base) :
    checkRangeFree x base size = .ok none := by
  obtain ⟨r, rec, hrun, hlt⟩ := h.freeGap_gt hsize hfree hword
  unfold checkRangeFree
  dsimp only
  rw [addWord_of_lt hword, hrun]
  show (if (⟨base, base + size⟩ : Interval) ≠ r then _ else _) = _
  refine if_pos fun hr => ?_
  rw [← hr] at hlt
  exact Nat.lt_irrefl _ hlt

/-- **`get_free_region` returns the least place.** -/
theorem getFreeRegion_spec (h : TreeOk x.tree brk l) {e y b : Nat} (he : e < 64)
    (hsize : 0 < size) (hal : size % 2 ^ e = 0) (hy : base ≤ y) (hya : y % 2 ^ e = 0)
    (hfree : FreeAt (l.map Prod.fst) size y) (hyw : y + size < word)
    (hrun : getFreeRegion x base size (2 ^ e) = .ok (b, c)) :
    LeastFree (l.map Prod.fst) base size e b ∧ b + size < word ∧ GapAt l ⟨b, b + size⟩ c := by
  have hpos : 0 < 2 ^ e := Nat.two_pow_pos e
  obtain ⟨hbw, hby⟩ := align_le_of_aligned he hy hya (by omega)
  obtain ⟨hle, -, hmod⟩ := align_spec he hbw
  have hsw : size + 2 ^ e ≤ word := (align_le_of_aligned he (Nat.le_refl size) hal (by omega)).1
  unfold getFreeRegion doAlign at hrun
  simp only [gt_iff_lt, hpos, if_true, align_of_aligned he hsw hal] at hrun
  rw [addWord_of_lt (show align base (2 ^ e) + size < word by omega)] at hrun
  obtain ⟨r, rec, hgap, hok, hzero⟩ := h.freeGap he
    (show (if 2 ^ e = 0 then 1 else 2 ^ e) = 2 ^ e from if_neg (Nat.pos_iff_ne_zero.mp hpos)) hsize
      hmod hby hya hfree hyw
  rw [hgap] at hrun
  obtain ⟨-, hrun⟩ := guard_eq_ok.mp hrun
  have hbc : b = r.start ∧ c = closest x.tree rec := by
    unfold closest
    change (if rec = 0 then _ else _) = _ at hrun
    split at hrun
    next hrec =>
      cases hrun
      exact ⟨(hzero hrec).symm, by rw [if_pos hrec]⟩
    next hrec =>
      cases hrun
      exact ⟨rfl, by rw [if_neg hrec]⟩
  obtain ⟨rfl, rfl⟩ := hbc
  refine ⟨⟨hle.trans hok.least.lower, hok.least.aligned, hok.least.free, ?_⟩, ?_, ?_⟩
  · intro z hz hza hzf
    -- an aligned address at or above the base is also at or above the rounded base
    by_cases hzy : z < y
    · exact hok.least.least z (align_le_of_aligned he hz hza (by omega)).2 hza hzf
    · exact (hok.least.least y hby hya hfree).trans (Nat.le_of_not_lt hzy)
  · rw [← hok.stop]
    exact hok.word
  · rw [← hok.stop]
    exact hok.place

/-! ## The new mapping -/

/-- Both parts of a list, before and from the first `c` on. -/
theorem split_at_first {xs ys : List Nat} (h : c ∉ xs) :
    (xs ++ c :: ys).takeWhile (· ≠ c) = xs ∧ (xs ++ c :: ys).dropWhile (· ≠ c) = c :: ys := by
  have hne : ∀ x ∈ xs, decide (x ≠ c) = true := fun x hx => by
    simp only [ne_eq, decide_not, Bool.not_eq_true', decide_eq_false_iff_not]
    exact fun hxc => h (hxc ▸ hx)
  constructor
  · rw [List.takeWhile_append_of_pos hne, List.takeWhile_cons_of_neg (by simp), List.append_nil]
  · rw [List.dropWhile_append_of_pos hne, List.dropWhile_cons_of_neg (by simp)]

theorem listAdd_spec {mappings : List Nat} (hc : c = 0 ∨ c ∈ mappings) (id : Nat) :
    ∃ xs ys, mappings = xs ++ ys ∧ listAdd mappings id c = .ok (xs ++ id :: ys) := by
  unfold listAdd
  split
  next h0 =>
    obtain ⟨xs, ys, rfl, hxs⟩ := List.eq_append_cons_of_mem (hc.resolve_left h0)
    obtain ⟨htake, hdrop⟩ := split_at_first hxs
    refine ⟨xs ++ [c], ys, by simp, ?_⟩
    rw [listInsert, if_pos (by simp), htake, hdrop, List.append_assoc]
    rfl
  next h0 => exact ⟨mappings, [], (List.append_nil _).symm, rfl⟩

theorem updatedFlags_vmStack (flags prot : Flags) :
    (updatedFlags flags prot).has vmStack = flags.has vmStack := by
  simp only [has_vmStack, updatedFlags]
  split <;> simp [vmProtMask, vmMapped]

/-- A mapping with other flags that are both for stacks or both not. -/
theorem vmVirtInterval_flags (vm : VmMapping) {flags : Flags}
    (h : flags.has vmStack = vm.flags.has vmStack) :
    vmVirtInterval { vm with flags } = vmVirtInterval vm := by
  unfold vmVirtInterval vmVirtualStart
  simp only [h]

/-- Mapping a region changes the flags of the mapping and what stands behind it. -/
structure OnlyFlags (v v' : VmState) (id : Nat) : Prop where
  space : v'.space = v.space
  kernelSpace : v'.kernelSpace = v.kernelSpace
  brk : v'.brk = v.brk
  others : ∀ q, q ≠ id → v'.mapping q = v.mapping q
  flags : ∃ flags, v'.mapping id = { v.mapping id with flags } ∧
    flags.has vmStack = (v.mapping id).flags.has vmStack

theorem updateMapping_onlyFlags {prot : Flags} (h : updateMapping v id prot = .ok v') :
    OnlyFlags v v' id := by
  obtain ⟨⟨vm, backing⟩, hupd, h⟩ := bind_ok h
  obtain ⟨b, -, hupd⟩ := bind_ok hupd
  cases hupd
  cases h
  exact ⟨rfl, rfl, rfl, fun q hq => if_neg hq, _, if_pos rfl, updatedFlags_vmStack _ _⟩

theorem mapNew_onlyFlags (h : mapNew v id = .ok v') : OnlyFlags v v' id := by
  unfold mapNew at h
  dsimp only at h
  split at h
  · split at h
    · cases h
      refine ⟨rfl, rfl, rfl, fun q hq => if_neg hq, _, if_pos rfl, ?_⟩
      simp [has_vmStack, vmNomap, vmMapped]
    · exact updateMapping_onlyFlags h
  · cases h
    exact ⟨rfl, rfl, rfl, fun q _ => rfl, (v.mapping id).flags, rfl, rfl⟩

/-- `v'` is `v` with one mapping more in space `sp`: the mapping `id`, for the request `a`, with the
virtual range `i`. -/
structure Added (v v' : VmState) (sp : Nat) (a : VmapArgs) (l : List Item) (i : Interval)
    (id : Nat) : Prop where
  tree : ∃ xs ys, l = xs ++ ys ∧ SpaceOk v' sp (xs ++ (i, id) :: ys)
  list : ∃ xs ys, (v.space sp).mappings = xs ++ ys ∧ (v'.space sp).mappings = xs ++ id :: ys
  new : id ∉ (v.space sp).mappings
  count : (v'.space sp).numMappings = (v.space sp).numMappings + 1
  address : (v'.mapping id).address = i.start
  type : (v'.mapping id).type = a.type
  size : (v'.mapping id).size = a.size
  virtSize : (v'.mapping id).virtSize = a.virtSize
  spaces : ∀ q, q ≠ sp → v'.space q = v.space q
  mappings : ∀ q, q ≠ id → v'.mapping q = v.mapping q

/-- The mapping that `vmap_internal` makes for a request. -/
def newMapping (a : VmapArgs) (sp base virtOff virtSize : Nat) : VmMapping :=
  { type := a.type
    flags := if a.type = .rsvd then readableFlags a.vmFlags &&& ~~~vmProtMask
      else readableFlags a.vmFlags
    address := addWord base virtOff, size := a.size, virtSize, space := sp
    data := if a.type = .rsvd then 0 else a.data }

theorem newMapping_vmStack (a : VmapArgs) (sp base off size : Nat) :
    (newMapping a sp base off size).flags.has vmStack = a.vmFlags.has vmStack := by
  rw [newMapping, readableFlags, has_vmStack, has_vmStack]
  split <;> split <;> simp [vmProtMask, vmRead]

theorem vmVirtInterval_newMapping (h : a.vmFlags.has vmStack = false) (hword : base + size < word)
    (sp : Nat) :
    vmVirtInterval (newMapping a sp base 0 size) = ⟨base, base + size⟩ := by
  have haddr : (newMapping a sp base 0 size).address = base := addWord_of_lt (by omega)
  rw [vmVirtInterval, vmVirtualStart, newMapping_vmStack, h, haddr]
  exact congrArg _ (addWord_of_lt hword)

theorem treeInsert_spec {i : Interval} (htree : TreeOk (v.space sp).tree v.brk l)
    (hne : i.start < i.stop) (hword : i.stop < word) (hdis : ∀ x ∈ l, i.Disjoint x.1) (id : Nat) :
    ∃ st xs ys, treeInsert v sp i id = .ok { v.setTree sp st with brk := v.brk + 2 } ∧
      l = xs ++ ys ∧ TreeOk st (v.brk + 2) (xs ++ (i, id) :: ys) := by
  obtain ⟨st, xs, ys, hst, hl, hok⟩ := htree.insert hne hword hdis id
  refine ⟨st, xs, ys, ?_, hl, hok⟩
  rw [treeInsert, hst]
  rfl

theorem SpaceOk.mem_mappings (hok : SpaceOk v sp l) {x : Item} (hx : x ∈ l) :
    x.2 ∈ (v.space sp).mappings :=
  hok.list.mem_iff.mp (List.mem_map_of_mem hx)

theorem SpaceOk.brk_notMem (hok : SpaceOk v sp l) : v.brk ∉ (v.space sp).mappings := by
  intro hmem
  obtain ⟨x, hx, hbrk⟩ := List.mem_map.mp (hok.list.mem_iff.mpr hmem)
  exact Nat.ne_of_lt (hok.mapping x hx).2.1 hbrk

theorem SpaceOk.brk_pos (hok : SpaceOk v sp l) : 0 < v.brk := by
  obtain ⟨t, ht⟩ := hok.tree
  exact (Nat.zero_le _).trans_lt ht.nil

theorem updatedFlags_vmUser (flags prot : Flags) :
    (updatedFlags flags prot).has vmUser = flags.has vmUser := by
  simp only [has_vmUser, updatedFlags]
  split <;> simp [vmProtMask, vmMapped]

/-- Mapping a region does not make it one of another half. -/
theorem mapNew_vmUser (h : mapNew v id = .ok v') :
    (v'.mapping id).flags.has vmUser = (v.mapping id).flags.has vmUser := by
  unfold mapNew at h
  dsimp only at h
  split at h
  · split at h
    · cases h
      simp [has_vmUser, vmNomap, vmMapped]
    · obtain ⟨⟨vm, backing⟩, hupd, h⟩ := bind_ok h
      obtain ⟨b, -, hupd⟩ := bind_ok hupd
      cases hupd
      cases h
      rw [VmState.setMapping_mapping_self]
      exact updatedFlags_vmUser _ _
  · cases h
    rfl

/-- `v'` is `v` with the mapping `vm`, up to its flags, in space `sp` with the ranges `l`; in the
list it stands behind `c`. -/
structure Inserts (v v' : VmState) (sp : Nat) (l : List Item) (vm : VmMapping)
    (c : Nat) : Prop where
  space : ∃ tree xs ys mappings, l = xs ++ ys ∧
    TreeOk tree v'.brk (xs ++ (vmVirtInterval vm, v.brk) :: ys) ∧
    listAdd (v.space sp).mappings v.brk c = .ok mappings ∧
    v'.space sp = { v.space sp with tree, numMappings := (v.space sp).numMappings + 1, mappings }
  mapping : ∃ flags, v'.mapping v.brk = { vm with flags } ∧
    flags.has vmStack = vm.flags.has vmStack ∧ flags.has vmUser = vm.flags.has vmUser
  others : ∀ q, q ≠ v.brk → v'.mapping q = v.mapping q
  spaces : ∀ q, q ≠ sp → v'.space q = v.space q
  kernelSpace : v'.kernelSpace = v.kernelSpace
  brk : v.brk < v'.brk

/-- **A free place takes a new mapping.** -/
theorem addMapping_inserts {off : Nat} (htree : TreeOk (v.space sp).tree v.brk l)
    (hne : (vmVirtInterval (newMapping a sp base off size)).start <
    (vmVirtInterval (newMapping a sp base off size)).stop)
    (hword : (vmVirtInterval (newMapping a sp base off size)).stop < word)
    (hfree : ∀ x ∈ l, (vmVirtInterval (newMapping a sp base off size)).Disjoint x.1)
    (hrun : addMapping v sp a base off size c = .ok v') :
    Inserts v v' sp l (newMapping a sp base off size) c := by
  obtain ⟨st, xs, ys, hst, hl, htree⟩ := treeInsert_spec
    (v := VmState.setMapping { v with brk := v.brk + 1 } v.brk (newMapping a sp base off size))
    (htree.mono (Nat.le_succ _)) hne hword hfree v.brk
  obtain ⟨v1, hins, hrun⟩ := bind_ok hrun
  cases hst.symm.trans hins
  obtain ⟨mappings, hlist, hrun⟩ := bind_ok hrun
  simp only [VmState.setTree_space_self, VmState.setMapping_space] at hlist hrun
  have hmap := mapNew_onlyFlags hrun
  have huser := mapNew_vmUser hrun
  obtain ⟨flags, hnew, hflags⟩ := hmap.flags
  simp only [VmState.setSpace_mapping, VmState.setTree_mapping,
    VmState.setMapping_mapping_self] at hnew hflags huser
  rw [hnew] at huser
  have hbrk : v'.brk = v.brk + 1 + 2 := hmap.brk
  refine ⟨⟨st, xs, ys, mappings, hl, ?_, hlist, ?_⟩, ⟨flags, hnew, hflags, huser⟩, fun q hq => ?_,
    fun q hq => ?_, hmap.kernelSpace, by omega⟩
  · rwa [hmap.brk]
  · rw [hmap.space, VmState.setSpace_space_self]
  · rw [hmap.others q hq]
    exact VmState.setMapping_mapping_ne _ _ _ hq
  · rw [hmap.space, VmState.setSpace_space_ne _ _ _ hq]
    exact VmState.setTree_space_ne _ _ _ hq

/-- The tree and the list still agree. -/
theorem Inserts.spaceOk {vm : VmMapping} (h : Inserts v v' sp l vm c) (hok : SpaceOk v sp l)
    (hc : c = 0 ∨ ∃ y ∈ l, y.2 = c) :
    ∃ xs ys, l = xs ++ ys ∧ SpaceOk v' sp (xs ++ (vmVirtInterval vm, v.brk) :: ys) := by
  obtain ⟨st, xs, ys, mappings, hl, htree, hlist, hspace⟩ := h.space
  obtain ⟨flags, hnew, hflags, -⟩ := h.mapping
  have hc' : c = 0 ∨ c ∈ (v.space sp).mappings :=
    hc.imp_right fun ⟨y, hy, hyc⟩ => hyc ▸ hok.mem_mappings hy
  obtain ⟨as, bs, hsplit, hadd⟩ := listAdd_spec hc' v.brk
  rw [hadd] at hlist
  cases hlist
  have hbrk := h.brk
  refine ⟨xs, ys, hl, ?_, ?_, ?_, fun x hx => ?_⟩
  · rwa [hspace]
  · rw [hspace]
    rw [List.map_append]
    refine (List.perm_middle.trans (.cons _ ?_)).trans List.perm_middle.symm
    rw [← List.map_append, ← hl, ← hsplit]
    exact hok.list
  · rw [hspace]
    rw [hok.count, hsplit, List.length_append, List.length_append, List.length_cons, Nat.add_assoc]
  · rw [List.mem_append, List.mem_cons, or_left_comm, ← List.mem_append, ← hl] at hx
    rcases hx with rfl | hx
    · refine ⟨Nat.pos_iff_ne_zero.mp hok.brk_pos, hbrk, ?_⟩
      rw [hnew, vmVirtInterval_flags _ hflags]
    · obtain ⟨h0, hlt, hint⟩ := hok.mapping x hx
      refine ⟨h0, by omega, ?_⟩
      rwa [h.others x.2 (Nat.ne_of_lt hlt)]

theorem addMapping_spec (hok : SpaceOk v sp l) (hstack : a.vmFlags.has vmStack = false)
    (hsize : 0 < a.virtSize) (hword : base + a.virtSize < word)
    (hfree : FreeAt (l.map Prod.fst) a.virtSize base) (hc : c = 0 ∨ ∃ y ∈ l, y.2 = c)
    (hrun : addMapping v sp a base 0 a.virtSize c = .ok v') :
    Added v v' sp a l ⟨base, base + a.virtSize⟩ v.brk := by
  have hi := vmVirtInterval_newMapping hstack hword sp
  have haddr : (newMapping a sp base 0 a.virtSize).address = base := addWord_of_lt (by omega)
  have hins := addMapping_inserts hok.tree (by rw [hi]; exact Nat.lt_add_of_pos_right hsize)
    (by rwa [hi]) (by rw [hi]; exact fun x hx => hfree _ (List.mem_map_of_mem hx)) hrun
  have hspaceOk := hins.spaceOk hok hc
  rw [hi] at hspaceOk
  obtain ⟨st, xs, ys, mappings, hl, -, hlist, hspace⟩ := hins.space
  obtain ⟨flags, hnew, -, -⟩ := hins.mapping
  have hc' : c = 0 ∨ c ∈ (v.space sp).mappings :=
    hc.imp_right fun ⟨y, hy, hyc⟩ => hyc ▸ hok.mem_mappings hy
  obtain ⟨as, bs, hsplit, hadd⟩ := listAdd_spec hc' v.brk
  rw [hadd] at hlist
  cases hlist
  refine ⟨hspaceOk, ⟨as, bs, hsplit, ?_⟩, hok.brk_notMem, ?_, ?_, ?_, ?_, ?_, hins.spaces,
    hins.others⟩
  · rw [hspace]
  · rw [hspace]
  · rwa [hnew]
  · rw [hnew]
    rfl
  · rw [hnew]
    rfl
  · rw [hnew]
    rfl

/-! ## Placement -/

/-- A place found for a request, and the mapping right before it. -/
structure Place (a : VmapArgs) (l : List Item) (base c : Nat) : Prop where
  aligned : base % a.pgSize = 0
  free : FreeAt (l.map Prod.fst) a.virtSize base
  word : base + a.virtSize < word
  before : c = 0 ∨ ∃ y ∈ l, y.2 = c

theorem findPlace_fixed (h : TreeOk x.tree brk l) (hfixed : a.vmFlags.has vmFixed = true)
    {start : Nat} (hsize : 0 < size) (hword : start + size < word) :
    (FreeAt (l.map Prod.fst) size start →
      ∃ c, findPlace x a start size = .ok (.ok (start, c)) ∧ GapAt l ⟨start, start + size⟩ c) ∧
    (¬ FreeAt (l.map Prod.fst) size start →
      findPlace x a start size = .ok (.error .eaddrnotavail)) := by
  rw [findPlace, if_pos hfixed]
  constructor
  · intro hfree
    obtain ⟨c, hcheck, hc⟩ := checkRangeFree_free h hsize hword hfree
    refine ⟨c, ?_, hc⟩
    rw [hcheck]
    rfl
  · intro hfree
    rw [checkRangeFree_not_free h hsize hword hfree]
    rfl

theorem findPlace_dynamic (h : TreeOk x.tree brk l) (hfixed : a.vmFlags.has vmFixed = false)
    {start y : Nat} (hstart : 0 < start) (hsize : 0 < size) (hal : size % a.pgSize = 0)
    (hy : start ≤ y) (hya : y % a.pgSize = 0) (hfree : FreeAt (l.map Prod.fst) size y)
    (hyw : y + size < word) {r : Except Errno (Nat × Nat)}
    (hrun : findPlace x a start size = .ok r) :
    ∃ base c, r = .ok (base, c) ∧ base + size < word ∧ GapAt l ⟨base, base + size⟩ c ∧
      IsLeast { z | start ≤ z ∧ z % a.pgSize = 0 ∧ FreeAt (l.map Prod.fst) size z } base := by
  obtain ⟨e, he, hpg⟩ : ∃ e, e < 64 ∧ a.pgSize = 2 ^ e := vmFlagsToSize_eq a.vmFlags
  unfold findPlace at hrun
  rw [hfixed, hpg] at hrun
  rw [hpg] at hal hya ⊢
  obtain ⟨⟨base, c⟩, hreg, hrun⟩ := bind_ok hrun
  obtain ⟨hleast, hword, hc⟩ := getFreeRegion_spec h he hsize hal hy hya hfree hyw hreg
  have hne : base ≠ 0 := Nat.pos_iff_ne_zero.mp (hstart.trans_le hleast.lower)
  dsimp only at hrun
  rw [if_neg hne] at hrun
  cases hrun
  exact ⟨base, c, rfl, hword, hc, ⟨hleast.lower, hleast.aligned, hleast.free⟩,
    fun z ⟨hz, hza, hzf⟩ => hleast.least z hz hza hzf⟩

variable {s s' : Sys} {user : Nat} {r : Except Errno Nat}

/-- The mapping at the place that was found. -/
theorem vmapLocked_place (hok : SpaceOk v sp l) (hstack : a.vmFlags.has vmStack = false)
    (hsize : 0 < a.virtSize) (hplace : Place a l base c)
    (hfind : findPlace (v.space sp) a a.base a.virtSize = .ok (.ok (base, c)))
    (hrun : vmapLocked v sp a a.virtSize 0 a.base = .ok (r, v')) :
    r = .ok base ∧ Added v v' sp a l ⟨base, base + a.virtSize⟩ v.brk := by
  obtain ⟨found, hfound, hrun⟩ := bind_ok hrun
  rw [hfind] at hfound
  cases hfound
  obtain ⟨v1, hadd, hrun⟩ := bind_ok hrun
  cases hrun
  have hword := hplace.word
  exact ⟨congrArg _ (addWord_of_lt (by omega)),
    addMapping_spec hok hstack hsize hword hplace.free hplace.before hadd⟩

/--
**New mappings are placed soundly.**

The request is valid, not for a stack and not empty, its hint is a multiple of the page size and its
address arithmetic does not overflow. A call that returns adds one mapping, aligned and apart from
all others, or changes nothing. A fixed mapping lies at its hint, and it is made iff that range is
free. Another one lies at the least place at or above the chosen hint.
-/
theorem vmapInternal_placement (hvalid : areValidVmapArgs s.vm.backing a = .ok true)
    (hstack : a.vmFlags.has vmStack = false) (hsize : 0 < a.size) (hhint : a.hint % a.pgSize = 0)
    (hok : SpaceOk s.vm (selectSpace s.vm user a.base) l) (hfits : a.Fits l)
    (hrun : vmapInternal s user a = .ok (r, s')) :
    (∀ addr, r = .ok addr → addr % a.pgSize = 0 ∧
      (∀ x ∈ l, Interval.Disjoint ⟨addr, addr + a.virtSize⟩ x.1) ∧
      ∃ id, Added s.vm s'.vm (selectSpace s.vm user a.base) a l ⟨addr, addr + a.virtSize⟩ id) ∧
    (a.vmFlags.has vmFixed = true → (∀ addr, r = .ok addr → addr = a.hint) ∧
      ((∃ addr, r = .ok addr) ↔
        ∀ x ∈ l, Interval.Disjoint ⟨a.hint, a.hint + a.virtSize⟩ x.1)) ∧
    (a.vmFlags.has vmFixed = false → ∃ addr, r = .ok addr ∧ IsLeast (a.Places l) addr) ∧
    ∀ e, r = .error e → s' = s := by
  have hal := (areValidVmapArgs_aligned hvalid).2
  have hvirt : 0 < a.virtSize := hsize.trans_le (Nat.le_max_right _ _)
  have hdis : ∀ base, FreeAt (l.map Prod.fst) a.virtSize base ↔
      ∀ x ∈ l, Interval.Disjoint ⟨base, base + a.virtSize⟩ x.1 := fun base => List.forall_mem_map
  unfold vmapInternal at hrun
  rw [hvalid, virtRange_eq hstack] at hrun
  obtain ⟨hlocked, hlock⟩ := finish_spec hrun
  change vmapLocked s.vm _ a _ _ _ = _ at hlocked
  cases hfixed : a.vmFlags.has vmFixed with
  | true =>
    have hword : a.hint + a.virtSize < word := by
      unfold VmapArgs.Fits at hfits
      rwa [if_pos hfixed] at hfits
    have hbase : a.base = a.hint := if_pos hfixed
    rw [← hbase] at hword hhint ⊢
    obtain ⟨hyes, hno⟩ := findPlace_fixed hok.tree hfixed hvirt hword
    by_cases hfree : FreeAt (l.map Prod.fst) a.virtSize a.base
    · obtain ⟨c, hfind, hgap⟩ := hyes hfree
      have hplace : Place a l a.base c := ⟨hhint, hfree, hword, hgap.before⟩
      obtain ⟨rfl, hadded⟩ := vmapLocked_place hok hstack hvirt hplace hfind hlocked
      refine ⟨fun addr haddr => ?_, fun _ => ⟨fun addr haddr => ?_, ?_⟩, fun h => (by cases h),
        fun e he => (by cases he)⟩
      · cases haddr
        exact ⟨hplace.aligned, (hdis _).mp hfree, _, hadded⟩
      · cases haddr
        rfl
      · exact ⟨fun _ => (hdis _).mp hfree, fun _ => ⟨_, rfl⟩⟩
    · obtain ⟨found, hfound, hlocked⟩ := bind_ok hlocked
      rw [hno hfree] at hfound
      cases hfound
      obtain ⟨rfl, hvm⟩ := Prod.mk.inj (Except.ok.inj hlocked)
      refine ⟨fun addr haddr => (by cases haddr), fun _ => ⟨fun addr haddr => (by cases haddr), ?_⟩,
        fun h => (by cases h), fun e _ => ?_⟩
      · exact ⟨fun ⟨addr, haddr⟩ => (by cases haddr), fun h => absurd ((hdis _).mpr h) hfree⟩
      · calc
          s' = ⟨s'.vm, s'.lock⟩ := rfl
          _ = s := by rw [← hvm, hlock]
  | false =>
    unfold VmapArgs.Fits at hfits
    rw [hfixed] at hfits
    obtain ⟨y, ⟨hy, hya, hyf⟩, hyw⟩ := hfits
    -- the search starts at a chosen hint, which is not `NULL`
    have hpos : 0 < a.base := by
      rw [VmapArgs.base, hfixed]
      exact chooseBestHint_pos _ _
    obtain ⟨found, hfind, -⟩ := bind_ok hlocked
    obtain ⟨base, c, rfl, hword, hgap, hleast⟩ :=
      findPlace_dynamic hok.tree hfixed hpos hvirt hal hy hya hyf hyw hfind
    have hplace : Place a l base c := ⟨hleast.1.2.1, hgap.free, hword, hgap.before⟩
    obtain ⟨rfl, hadded⟩ := vmapLocked_place hok hstack hvirt hplace hfind hlocked
    refine ⟨fun addr haddr => ?_, fun h => (by cases h), fun _ => ⟨base, rfl, hleast⟩,
      fun e he => by cases he⟩
    cases haddr
    exact ⟨hplace.aligned, (hdis _).mp hplace.free, _, hadded⟩

/-- One page anywhere from `0x100000` on. -/
def onePage : VmapArgs :=
  { type := .phys, hint := 0x100000, size := 0x1000, vmSize := 0
    vmFlags := vmUser ||| vmRead ||| vmNomap, data := 0x9000 }

/-- Two mappings, one after the other, in an empty space. -/
def mapTwice : Except Fault (Except Errno Nat × Except Errno Nat) := do
  let (r, s) ← vmapInternal emptySys 1 twoPages
  let (r', _) ← vmapInternal s 1 onePage
  .ok (r, r')

theorem spaceOk_emptySys : SpaceOk emptySys.vm 1 [] where
  tree := treeOk_create Rb.blank 3 ⟨id, id, id, id, id, id⟩ 5 (by decide)
  list := .refl _
  count := rfl
  mapping x hx := by cases hx

/-- The theorem at a fixed mapping, and at one that is placed behind it. -/
theorem vmapInternal_placement_two_calls :
    ∃ r s r' s', vmapInternal emptySys 1 twoPages = .ok (r, s) ∧
      vmapInternal s 1 onePage = .ok (r', s') ∧ (∀ addr, r = .ok addr → addr = twoPages.hint) ∧
      ∃ id addr, r' = .ok addr ∧
        IsLeast (onePage.Places [(⟨0x100000, 0x102000⟩, id)]) addr := by
  have hrun : mapTwice.toBool = true := by rfl
  obtain ⟨rs, hrs⟩ := exists_of_toBool hrun
  obtain ⟨⟨r, s⟩, hs, hrs⟩ := bind_ok hrs
  obtain ⟨⟨r', s'⟩, hs', -⟩ := bind_ok hrs
  have hfix : twoPages.vmFlags.has vmFixed = true := by decide
  have hdyn : onePage.vmFlags.has vmFixed = false := by decide
  obtain ⟨hadd, hfixed, -, -⟩ := vmapInternal_placement rfl (by decide)
    (by decide) (by decide)
    (show SpaceOk emptySys.vm (selectSpace emptySys.vm 1 twoPages.base) [] from spaceOk_emptySys)
    (by unfold VmapArgs.Fits; rw [if_pos hfix]; decide) hs
  obtain ⟨heq, hiff⟩ := hfixed hfix
  obtain ⟨addr, haddr⟩ := hiff.mpr (fun x hx => by cases hx)
  obtain ⟨-, -, id, hadded⟩ := hadd addr haddr
  obtain ⟨xs, ys, hl, hok⟩ := hadded.tree
  obtain ⟨rfl, rfl⟩ := List.append_eq_nil_iff.mp hl.symm
  obtain rfl := heq addr haddr
  have hplace : 0x102000 ∈ onePage.Places [(⟨0x100000, 0x102000⟩, id)] :=
    ⟨by decide, by decide, fun i hi => by
      rw [List.map_singleton, List.mem_singleton] at hi
      subst hi
      exact .inr le_rfl⟩
  obtain ⟨-, -, hleast, -⟩ := vmapInternal_placement rfl (by decide)
    (by decide) (by decide) (show SpaceOk s.vm (selectSpace s.vm 1 onePage.base) _ from hok)
    (by unfold VmapArgs.Fits; rw [hdyn, if_neg Bool.false_ne_true]; exact ⟨_, hplace, by decide⟩)
      hs'
  exact ⟨r, s, r', s', hs, hs', heq, id, hleast hdyn⟩

end Osdev.Vm
