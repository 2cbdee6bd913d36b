import Osdev.Vm.Order

/-!
# Sequences of operations on address spaces

The mapping list of a space visits the mappings in the order of their addresses as long as no
mapping is made below all others, stacks are resized and protected as a whole, and mappings grow
only into their own empty space or by being moved (`reach_ordered`).
-/

namespace Osdev.Vm

open Osdev.Intvl Osdev.Lib

variable {v v' v₁ : VmState} {sp : Nat} {l xs ys : List Item} {i : Interval} {vm : VmMapping}
variable {x : Item} {newSize : Nat} {allowMove : Bool} {a : VmapArgs} {va : UInt64}
  {r : Except Errno Unit} {prot : Flags}

/-! ## Resizing in place -/

/-- A mapping of the same range with another size and address. -/
theorem InOrder.resized (hok : InOrder v sp l) (hx : x ∈ l) {size address : Nat}
    (hshape : Shaped { v.mapping x.2 with size, address } sp x.1) :
    InOrder (v.setMapping x.2 { v.mapping x.2 with size, address }) sp l ∧
      Local v (v.setMapping x.2 { v.mapping x.2 with size, address }) sp := by
  obtain ⟨h0, hlt, hs⟩ := hok.mapping x hx
  refine ⟨hok.update hok.tree hok.list hok.length_eq le_rfl fun z hz => ?_,
    fun _ _ => rfl, fun q _ hspq => ?_, le_rfl⟩
  · by_cases hzx : z.2 = x.2
    · -- ranges with one mapping are one range
      have hz1 : z.1 = x.1 := by
        rw [(hok.spaceOk.mapping z hz).2.2, (hok.spaceOk.mapping x hx).2.2, hzx]
      refine .inr ⟨by rwa [hzx], by rwa [hzx], ?_⟩
      rwa [hzx, hz1, VmState.setMapping_mapping_self]
    · exact .inl ⟨hz, VmState.setMapping_mapping_ne _ _ _ hzx⟩
  · refine VmState.setMapping_mapping_ne _ _ _ ?_
    rintro rfl
    exact hspq hs.space

/-- The room that a mapping has in its own empty space and up to its neighbour: the mapping below a
stack, and the one above any other mapping. -/
def room (v : VmState) (sp id : Nat) : Nat :=
  let vm := v.mapping id
  if vm.flags.has vmStack then
    (vmVirtInterval vm).start -
      (vmVirtInterval (v.mapping (listPrev (v.space sp).mappings id))).stop + vmEmptySpace vm
  else
    (vmVirtInterval (v.mapping (listNext (v.space sp).mappings id))).start -
      (vmVirtInterval vm).stop + vmEmptySpace vm

/-- A mapping may get smaller if it is not a stack. It may get larger within its empty space.
Otherwise there must be no room for it where it is, and a place where it can go if it may be
moved. -/
def Resizable (v : VmState) (sp id newSize : Nat) (allowMove : Bool) : Prop :=
  (newSize < (v.mapping id).size ∧ (v.mapping id).flags.has vmStack = false) ∨
    ((v.mapping id).size < newSize ∧
      (newSize ≤ vmEmptySpace (v.mapping id) ∨
        (room v sp id < newSize - (v.mapping id).size ∧
          (allowMove = true → CanMove (v.mapping id) (ranges v sp) newSize))))

theorem Shaped.vmEmptySpace_eq (h : Shaped vm sp i) (hw : i.stop < word) :
    vmEmptySpace vm =
      if vm.flags.has vmStack then vm.virtSize - vm.size - pageSize else vm.virtSize - vm.size := by
  have hsize := h.size
  have hstop := h.stop
  unfold vmEmptySpace
  rw [subWord_of_le hsize (by omega)]
  split
  next hs =>
    have hpage := h.stack hs
    rw [subWord_of_le (by omega) (by omega)]
  · rfl

/-- The list before a mapping and from it on. -/
theorem InOrder.split_list (hok : InOrder v sp (xs ++ x :: ys)) :
    (v.space sp).mappings.takeWhile (· ≠ x.2) = xs.map Prod.snd ∧
      (v.space sp).mappings.dropWhile (· ≠ x.2) = x.2 :: ys.map Prod.snd := by
  have hnot : x.2 ∉ xs.map Prod.snd := by
    have hnd := hok.nodup
    rw [List.map_append] at hnd
    exact fun hmem => (List.nodup_append.mp hnd).2.2 x.2 hmem x.2 (by simp) rfl
  rw [hok.list, List.map_append]
  exact split_at_first hnot

/-- Both neighbours in the list. -/
theorem InOrder.neighbours (hok : InOrder v sp (xs ++ x :: ys)) :
    listNext (v.space sp).mappings x.2 = (ys.map Prod.snd).headD 0 ∧
      listPrev (v.space sp).mappings x.2 = (xs.map Prod.snd).getLastD 0 := by
  obtain ⟨htake, hdrop⟩ := hok.split_list
  rw [listNext, listPrev, htake, hdrop]
  exact ⟨rfl, rfl⟩

/-- Above a mapping without room nothing grows. -/
theorem growUp_no_room {node : Nat} {r : Bool × VmState} (hok : InOrder v sp l) (hx : x ∈ l)
    (hstack : (v.mapping x.2).flags.has vmStack = false)
    (hroom : room v sp x.2 < newSize - (v.mapping x.2).size)
    (hrun : growUp v x.2 node newSize = .ok r) : r = (false, v) := by
  obtain ⟨xs, ys, rfl⟩ := List.append_of_mem hx
  obtain ⟨-, -, hs⟩ := hok.mapping x hx
  obtain ⟨hne, hw⟩ := hok.tree.nonempty hx
  have hnext := hok.neighbours.1
  unfold room at hroom
  simp only [hstack, Bool.false_eq_true, if_false, hnext, hs.vmVirtInterval_eq hw] at hroom
  unfold growUp at hrun
  simp only [hs.space, hnext, hs.vmVirtInterval_eq hw] at hrun
  cases ys with
  | nil => cases hrun
  | cons y ys =>
    have hy : y ∈ xs ++ x :: y :: ys :=
      List.mem_append_right _ (by simp)
    obtain ⟨hy0, -, -⟩ := hok.mapping y hy
    obtain ⟨hney, hwy⟩ := hok.tree.nonempty hy
    obtain ⟨-, hcons, -⟩ := List.pairwise_append.mp hok.tree.order
    have hxy := (List.pairwise_cons.mp hcons).1 y (by simp)
    obtain ⟨hint, node', hfind, hnode, hstart, -⟩ := hok.treeFind_run hy
    simp only [List.map_cons, List.headD_cons, hint] at hroom hrun
    rw [if_neg hy0, hfind, ok_bind] at hrun
    have hempty := hs.vmEmptySpace_eq hw
    rw [hstack, if_neg Bool.false_ne_true] at hempty
    have hstop := hs.stop
    rw [if_neg hnode, hstart, subWord_of_le hxy (by omega), addWord_of_lt (by omega),
      if_pos hroom] at hrun
    exact (Except.ok.inj hrun).symm

/-- Below a stack without room nothing grows. -/
theorem growStack_no_room {node : Nat} {r : Bool × VmState} (hok : InOrder v sp l) (hx : x ∈ l)
    (hstack : (v.mapping x.2).flags.has vmStack = true)
    (hroom : room v sp x.2 < newSize - (v.mapping x.2).size)
    (hrun : growStack v x.2 node newSize = .ok r) : r = (false, v) := by
  obtain ⟨xs, ys, rfl⟩ := List.append_of_mem hx
  obtain ⟨-, -, hs⟩ := hok.mapping x hx
  obtain ⟨hne, hw⟩ := hok.tree.nonempty hx
  have hprev := hok.neighbours.2
  unfold room at hroom
  simp only [hstack, if_true, hprev, hs.vmVirtInterval_eq hw] at hroom
  unfold growStack at hrun
  simp only [hs.space, hprev, hs.vmVirtualStart_eq hw] at hrun
  rcases List.eq_nil_or_concat' xs with rfl | ⟨xs, y, rfl⟩
  · cases hrun
  · have hy : y ∈ (xs ++ [y]) ++ x :: ys :=
      List.mem_append_left _ (List.mem_append_right _ (by simp))
    obtain ⟨hy0, -, -⟩ := hok.mapping y hy
    obtain ⟨hney, hwy⟩ := hok.tree.nonempty hy
    obtain ⟨-, -, hmid⟩ := List.pairwise_append.mp hok.tree.order
    have hyx := hmid y (List.mem_append_right _ (by simp)) x (by simp)
    obtain ⟨hint, node', hfind, hnode, -, hstop'⟩ := hok.treeFind_run hy
    simp only [List.map_append, List.map_cons, List.map_nil, List.getLastD_concat, hint]
      at hroom hrun
    rw [if_neg hy0, hfind, ok_bind] at hrun
    have hempty := hs.vmEmptySpace_eq hw
    rw [if_pos hstack] at hempty
    have hstop := hs.stop
    rw [if_neg hnode, hstop', subWord_of_le hyx (by omega), addWord_of_lt (by omega),
      if_pos hroom] at hrun
    exact (Except.ok.inj hrun).symm

/-- **Resizing in place keeps the order**, or gives up and changes nothing. -/
theorem resizeMappingInplace_inOrder {inplace : Bool} (hok : InOrder v sp l) (hx : x ∈ l)
    (hr : Resizable v sp x.2 newSize allowMove)
    (hrun : resizeMappingInplace v x.2 newSize = .ok (inplace, v')) :
    (InOrder v' sp l ∧ Local v v' sp ∧ inplace = true) ∨
      (v' = v ∧ inplace = false ∧ 0 < newSize ∧
        (allowMove = true → CanMove (v.mapping x.2) (ranges v sp) newSize)) := by
  obtain ⟨-, -, hs⟩ := hok.mapping x hx
  obtain ⟨hne, hw⟩ := hok.tree.nonempty hx
  have hsize := hs.size
  have hstop := hs.stop
  have haddr := hs.address
  have hempty := hs.vmEmptySpace_eq hw
  obtain ⟨node, -, hrun⟩ := bind_ok hrun
  obtain ⟨-, hrun⟩ := guard_eq_ok.mp hrun
  split at hrun
  next hlt =>
    -- a smaller mapping that is not a stack
    have hstack : (v.mapping x.2).flags.has vmStack = false := by
      rcases hr with hr | hr
      · exact hr.2
      · omega
    rw [hstack] at hrun haddr
    cases hrun
    obtain ⟨h1, h2⟩ := hok.resized hx (show Shaped { v.mapping x.2 with
        size := newSize, address := (v.mapping x.2).address } sp x.1 from
      ⟨hs.space, hstop, by dsimp only; rw [hstack, if_neg Bool.false_ne_true]; exact haddr,
        by dsimp only; omega, fun h => absurd (hstack.symm.trans h) Bool.false_ne_true⟩)
    exact .inl ⟨h1, h2, rfl⟩
  next hlt =>
    split at hrun
    next hgrow =>
      cases hrun
      refine .inl ?_
      obtain ⟨h1, h2⟩ := hok.resized hx (show Shaped { v.mapping x.2 with
          size := newSize
          address := if (v.mapping x.2).flags.has vmStack then
            subWord (v.mapping x.2).address (newSize - (v.mapping x.2).size)
            else (v.mapping x.2).address } sp x.1 from by
        cases hstack : (v.mapping x.2).flags.has vmStack with
        | false =>
          rw [hstack, if_neg Bool.false_ne_true] at hempty haddr
          refine ⟨hs.space, hstop, ?_, ?_, fun h => absurd (hstack.symm.trans h) Bool.false_ne_true⟩
          · rwa [hstack, if_neg Bool.false_ne_true]
          · show newSize ≤ (v.mapping x.2).virtSize
            omega
        | true =>
          rw [if_pos hstack] at hempty haddr
          refine ⟨hs.space, hstop, ?_, ?_, fun _ => ?_⟩
          · dsimp only
            rw [if_pos hstack, if_pos rfl, subWord_of_le (by omega) (by omega)]
            omega
          · show newSize ≤ (v.mapping x.2).virtSize
            omega
          · show 0 < newSize ∧ newSize + pageSize ≤ (v.mapping x.2).virtSize
            omega)
      exact ⟨h1, h2, rfl⟩
    next hgrow =>
      obtain ⟨hlt', hroom, hmove⟩ : (v.mapping x.2).size < newSize ∧
          room v sp x.2 < newSize - (v.mapping x.2).size ∧
          (allowMove = true → CanMove (v.mapping x.2) (ranges v sp) newSize) := by
        rcases hr with hr | ⟨h1, h2 | ⟨h2, h3⟩⟩
        · omega
        · exact absurd ⟨h1, h2⟩ hgrow
        · exact ⟨h1, h2, h3⟩
      refine .inr ?_
      split at hrun
      next hstack =>
        obtain ⟨rfl, rfl⟩ := Prod.mk.inj (growStack_no_room hok hx hstack hroom hrun)
        exact ⟨rfl, rfl, by omega, hmove⟩
      next hstack =>
        obtain ⟨rfl, rfl⟩ := Prod.mk.inj
          (growUp_no_room hok hx (Bool.eq_false_iff.mpr hstack) hroom hrun)
        exact ⟨rfl, rfl, by omega, hmove⟩

/-! ## The interface -/

/-- The lists of all spaces are in order. -/
def AllInOrder (v : VmState) : Prop := ∀ sp, ∃ l, InOrder v sp l

theorem AllInOrder.step (h : AllInOrder v) (hlocal : Local v v' sp) (hsp : ∃ l, InOrder v' sp l) :
    AllInOrder v' := by
  intro q
  obtain rfl | hq := eq_or_ne q sp
  · exact hsp
  · obtain ⟨l, hl⟩ := h q
    exact ⟨l, hl.elsewhere hlocal hq⟩

variable {s s' : Sys} {user : Nat}

/-- A request after which the list is still in order: its range fits into the address space, a stack
is not empty, and no place that it allows lies below all other mappings. -/
structure VmapArgs.Orderly (a : VmapArgs) (rs : List Interval) : Prop where
  fit : a.Fit rs (word - 1)
  stack : a.vmFlags.has vmStack = true → 0 < a.size
  above : rs = [] ∨ ∀ y ∈ a.Spots rs, ∃ i ∈ rs, i.start < y + a.need

/-- The mapping that a request makes has its shape. -/
theorem VmapArgs.Orderly.shaped {rs : List Interval} (h : a.Orderly rs) {b : Nat}
    (hb : b + a.need ≤ word - 1) (sp : Nat) :
    Shaped (newMapping a sp b a.off a.need) sp ⟨b, b + a.need⟩ := by
  obtain ⟨hle, haddr, -⟩ := h.fit.vmVirtInterval_eq (by decide) hb sp
  have hoff := h.fit.off_eq
  refine ⟨rfl, rfl, ?_, ?_, fun hs => ?_⟩
  · rw [haddr, newMapping_vmStack]
    exact congrArg _ hoff
  · show a.size ≤ a.need
    omega
  · rw [newMapping_vmStack] at hs
    refine ⟨h.stack hs, ?_⟩
    show a.size + pageSize ≤ a.need
    have hsize := a.size_le_virtSize
    rw [VmapArgs.need, if_pos hs]
    omega

theorem vmapInternal_inOrder {r : Except Errno Nat} (hs : AllInOrder s.vm)
    (ha : areValidVmapArgs s.vm.backing a = .ok true →
    a.Orderly (ranges s.vm (selectSpace s.vm user a.start)))
    (hrun : vmapInternal s user a = .ok (r, s')) : AllInOrder s'.vm := by
  by_cases hvalid : areValidVmapArgs s.vm.backing a = .ok true
  · have ho := ha hvalid
    obtain ⟨l, hok⟩ := hs (selectSpace s.vm user a.start)
    cases vmapInternal_grant hvalid hok.spaceOk ho.fit (by decide) hrun with
    | refused _ heq =>
      subst heq
      exact hs
    | @placed b c hleast hb hgap hi hins =>
      refine hs.step hins.isLocal (hins.inOrder hok (ho.shaped hb _) hi
        (Nat.lt_add_of_pos_right ho.fit.nonempty) hgap fun hc => ?_)
      -- without a mapping below, the place is below all of them
      obtain ⟨xs, ys, rfl, hlast, -, hys⟩ := hgap
      have hnil : xs = [] := by
        cases hx : xs.getLast? with
        | none => exact List.getLast?_eq_none_iff.mp hx
        | some x =>
          rw [hx] at hlast
          have hmem := List.mem_append_left ys (List.mem_of_getLast? hx)
          exact absurd (hlast.symm.trans hc) (hok.mapping x hmem).1
      subst hnil
      rcases ho.above with hrs | habove
      · have hmap : ys.map Prod.fst = [] := by
          refine List.eq_nil_iff_forall_not_mem.mpr fun i hmem => ?_
          have := (hok.spaceOk.mem_ranges i).mpr hmem
          simp [hrs] at this
        exact List.map_eq_nil_iff.mp hmap
      · obtain ⟨i, hmem, hlt⟩ := habove b hleast.1
        obtain ⟨y, hy, rfl⟩ := List.mem_map.mp ((hok.spaceOk.mem_ranges i).mp hmem)
        have := hys y hy
        dsimp only at this
        omega
  · rwa [vmapInternal_not_valid hvalid hrun]

/-- `space_get_mapping` finds the one mapping with an address. -/
theorem spaceGetMapping_run (hok : InOrder v sp l) {p : Nat} (hp : p < word) :
    ∃ id, spaceGetMapping v sp p = .ok id ∧
      ∀ id', (∃ x ∈ l, x.2 = id' ∧ x.1.start ≤ p ∧ p < x.1.stop) ↔ id' = id ∧ id ≠ 0 := by
  unfold spaceGetMapping
  rcases hok.tree.getPoint hp with ⟨x, hx, hin, hget⟩ | ⟨hno, hget⟩
  · refine ⟨x.2, by rw [hget]; rfl, fun id' => ⟨?_, fun h => ⟨x, hx, h.1.symm, hin⟩⟩⟩
    rintro ⟨y, hy, rfl, hyin⟩
    exact ⟨by rw [hok.tree.eq_of_overlaps hy hx (by omega)], (hok.mapping x hx).1⟩
  · refine ⟨0, by rw [hget]; rfl, fun id' => ⟨?_, fun h => absurd rfl h.2⟩⟩
    rintro ⟨y, hy, -, hyin⟩
    exact absurd hyin (hno y hy)

theorem spaceGetMapping_spec (hok : InOrder v sp l) {p id : Nat} (hp : p < word)
    (hrun : spaceGetMapping v sp p = .ok id) (hid : id ≠ 0) :
    ∃ x ∈ l, x.2 = id ∧ x.1.start ≤ p ∧ p < x.1.stop := by
  obtain ⟨id', hrun', hfound⟩ := spaceGetMapping_run hok hp
  cases hrun.symm.trans hrun'
  exact (hfound id).mpr ⟨rfl, hid⟩

/-! ## Freeing -/

/-- **Freeing a run of mappings keeps the order.** -/
theorem freeLoop_inOrder {last fuel : Nat} (hlast : last ≠ 0) (hok : InOrder v sp l) (hx : x ∈ l)
    (hrun : freeLoop last fuel v x.2 = .ok v') :
    Local v v' sp ∧ ∃ l', InOrder v' sp l' := by
  induction fuel generalizing v l x with
  | zero => cases hrun
  | succ fuel ih =>
    unfold freeLoop at hrun
    split at hrun
    next heq =>
      rw [← heq] at hrun
      obtain ⟨xs, ys, -, hok', hlocal⟩ := freeMapping_inOrder hok hx hrun
      exact ⟨hlocal, _, hok'⟩
    · obtain ⟨-, hrun⟩ := guard_eq_ok.mp hrun
      obtain ⟨v₁, hfree, hrun⟩ := bind_ok hrun
      rw [(hok.mapping x hx).2.2.space] at hrun
      obtain ⟨xs, ys, rfl, hok1, hlocal1⟩ := freeMapping_inOrder hok hx hfree
      rw [hok.neighbours.1] at hrun
      cases ys with
      | nil =>
        -- the end of the list is not the last mapping to free
        cases fuel with
        | zero => cases hrun
        | succ fuel =>
          unfold freeLoop at hrun
          simp [if_neg hlast.symm] at hrun
      | cons y ys =>
        obtain ⟨hlocal2, hl'⟩ := ih hok1 (List.mem_append_right _ (by simp)) hrun
        exact ⟨hlocal1.trans hlocal2, hl'⟩

theorem vmapFree_inOrder {size : UInt64} (hs : AllInOrder s.vm)
    (hrun : vmapFree s user va.toNat size.toNat = .ok (r, s')) : AllInOrder s'.vm := by
  obtain ⟨l, hok⟩ := hs (selectSpace s.vm user va.toNat)
  unfold vmapFree at hrun
  split at hrun
  · cases hrun
    exact hs
  obtain ⟨id, hid, hrun⟩ := bind_ok hrun
  obtain ⟨last, -, hrun⟩ := bind_ok hrun
  split at hrun
  · rwa [(unlockRet_spec hrun).2]
  next hnull =>
    obtain ⟨hid0, hlast0⟩ := not_or.mp hnull
    dsimp only at hrun
    split at hrun
    · rwa [(unlockRet_spec hrun).2]
    split at hrun
    · cases hrun
      exact hs
    obtain ⟨reserved, -, hrun⟩ := bind_ok hrun
    split at hrun
    · cases hrun
      exact hs
    obtain ⟨x, hx, rfl, -⟩ := spaceGetMapping_spec hok va.toNat_lt hid hid0
    obtain ⟨v₁, hloop, hrun⟩ := bind_ok (finish_spec hrun).1
    cases hrun
    obtain ⟨hlocal, hl'⟩ := freeLoop_inOrder hlast0 hok hx hloop
    exact hs.step hlocal hl'

/-! ## Protecting -/

theorem Shaped.vmRealInterval_eq (h : Shaped vm sp i) (hw : i.stop < word) :
    vmRealInterval vm = ⟨vm.address, vm.address + vm.size⟩ ∧ vm.address + vm.size ≤ i.stop := by
  have hsize := h.size
  have hstop := h.stop
  have haddr := h.address
  have hle : vm.address + vm.size ≤ i.stop := by
    split at haddr <;> omega
  exact ⟨congrArg _ (addWord_of_lt (by omega)), hle⟩

/-- Mappings are joined only one at a time. -/
theorem joinLoop_inOrder (hok : InOrder v sp (xs ++ x :: ys))
    (hstack : (v.mapping x.2).flags.has vmStack = false)
    (hrun : joinLoop x.2 (ys.map Prod.snd) v = .ok v') :
    Local v v' sp ∧ (v'.mapping x.2).space = sp ∧ ∃ l', InOrder v' sp l' := by
  cases ys with
  | nil =>
    cases hrun
    exact ⟨.refl _ _, (hok.mapping x (List.mem_append_right _ (by simp))).2.2.space, _, hok⟩
  | cons y ys =>
    obtain ⟨v₁, hjoin, hrun⟩ := bind_ok hrun
    obtain ⟨hlocal, hok1, hlinked⟩ := joinMappings_inOrder hok hstack hjoin
    cases ys with
    | nil =>
      cases hrun
      exact ⟨hlocal,
        (hok1.mapping _ (List.mem_append_right _ List.mem_cons_self)).2.2.space, _, hok1⟩
    | cons z ys =>
      -- the first join has cleared the flag that the next one asserts
      obtain ⟨v2, hjoin2, -⟩ := bind_ok hrun
      cases hlinked.symm.trans (joinMappings_internal hjoin2).1

/-- Changing the protection of a mapping that is in its place. -/
theorem updateMapping_inOrder (hok : InOrder v sp l) (hx : x ∈ l)
    (hrun : updateMapping v x.2 prot = .ok v') : Local v v' sp ∧ InOrder v' sp l := by
  have hflags := updateMapping_onlyFlags hrun
  exact ⟨hflags.isLocal (hok.mapping x hx).2.2.space, hok.onlyFlags hflags⟩

/-- The range `[va, va + len)` is not empty, does not overflow, and covers a stack as a whole if it
starts in one. -/
structure Protectable (v : VmState) (sp va len : Nat) : Prop where
  nonempty : 0 < len
  word : va + len < word
  stack : ∀ id ∈ (v.space sp).mappings, containsPoint (vmVirtInterval (v.mapping id)) va = true →
    (v.mapping id).flags.has vmStack = true → (v.mapping id).address = va ∧
      (v.mapping id).size = len

/-! ### The cases of `vmap_protect` -/

/-- A stack that is hit is hit as a whole. -/
theorem Protectable.stack_whole {z : Item} {va len : Nat} (hp : Protectable v sp va len)
    (hok : InOrder v sp l) (hx : x ∈ l) (hz : z ∈ l) (hva : x.1.start ≤ va ∧ va < x.1.stop)
    (hlast : z.1.start ≤ va + len - 1 ∧ va + len - 1 < z.1.stop)
    (hst : (v.mapping x.2).flags.has vmStack = true) :
    x.2 = z.2 ∧ (⟨va, va + len⟩ : Interval) = vmRealInterval (v.mapping x.2) := by
  obtain ⟨-, -, hs⟩ := hok.mapping x hx
  obtain ⟨hne, hw⟩ := hok.tree.nonempty hx
  obtain ⟨hreal, hle⟩ := hs.vmRealInterval_eq hw
  have hpos := hp.nonempty
  have hmem : x.2 ∈ (v.space sp).mappings := hok.spaceOk.mem_mappings hx
  obtain ⟨rfl, rfl⟩ := hp.stack x.2 hmem (by
    rw [hs.vmVirtInterval_eq hw]
    exact decide_eq_true hva) hst
  refine ⟨congrArg Prod.snd (hok.tree.eq_of_overlaps hx hz ?_), hreal.symm⟩
  omega

section Pieces

variable {newId newId' off len : Nat} {v₂ : VmState}

/-- The front of a mapping is split off and protected. -/
theorem protectFront_inOrder (hok : InOrder v sp (xs ++ x :: ys))
    (hnot : (v.mapping x.2).flags.has vmStack = false) (hpos : 0 < len)
    (hlt : len < (v.mapping x.2).size) (hsplit : splitMapping v x.2 len = .ok (newId, v₁))
    (hupd : updateMapping v₁ x.2 prot = .ok v') : Local v v' sp ∧ ∃ l', InOrder v' sp l' := by
  obtain ⟨-, hlocal, hok1, -⟩ := splitMapping_inOrder hok hnot hpos hlt hsplit
  obtain ⟨hlocal2, hok2⟩ :=
    updateMapping_inOrder hok1 (List.mem_append_right _ List.mem_cons_self) hupd
  exact ⟨hlocal.trans hlocal2, _, hok2⟩

/-- The back of a mapping is split off and protected. -/
theorem protectBack_inOrder (hok : InOrder v sp (xs ++ x :: ys))
    (hnot : (v.mapping x.2).flags.has vmStack = false) (hpos : 0 < off)
    (hlt : off < (v.mapping x.2).size) (hsplit : splitMapping v x.2 off = .ok (newId, v₁))
    (hupd : updateMapping v₁ newId prot = .ok v') : Local v v' sp ∧ ∃ l', InOrder v' sp l' := by
  obtain ⟨rfl, hlocal, hok1, -⟩ := splitMapping_inOrder hok hnot hpos hlt hsplit
  obtain ⟨hlocal2, hok2⟩ := updateMapping_inOrder hok1
    (List.mem_append_right _ (List.mem_cons_of_mem _ List.mem_cons_self)) hupd
  exact ⟨hlocal.trans hlocal2, _, hok2⟩

/-- A mapping is split twice, and the piece in the middle is protected. -/
theorem protectMiddle_inOrder (hok : InOrder v sp (xs ++ x :: ys))
    (hnot : (v.mapping x.2).flags.has vmStack = false) (hoff : 0 < off) (hpos : 0 < len)
    (hlt : off + len < (v.mapping x.2).size) (hsplit : splitMapping v x.2 off = .ok (newId, v₁))
    (hsplit2 : splitMapping v₁ newId len = .ok (newId', v₂))
    (hupd : updateMapping v₂ newId prot = .ok v') : Local v v' sp ∧ ∃ l', InOrder v' sp l' := by
  obtain ⟨rfl, hlocal, hok1, hnot1, hsize1⟩ :=
    splitMapping_inOrder hok hnot hoff (by omega) hsplit
  rw [List.append_cons] at hok1
  obtain ⟨hlocal2, hl'⟩ :=
    protectFront_inOrder hok1 hnot1 hpos (by rw [hsize1]; omega) hsplit2 hupd
  exact ⟨hlocal.trans hlocal2, hl'⟩

end Pieces

/-- The range `[va, va + len)` lies in an interval that has its first and last point. -/
theorem bounds_of_containsPoint {start stop va len : Nat}
    (hfirst : containsPoint ⟨start, stop⟩ va = true)
    (hlast : containsPoint ⟨start, stop⟩ (va + len - 1) = true) :
    start ≤ va ∧ va + len ≤ stop := by
  unfold containsPoint at hfirst hlast
  simp only [decide_eq_true_eq] at hfirst hlast
  omega

theorem protectCases_inOrder {z : Item} {va len : Nat} (hok : InOrder v sp l) (hx : x ∈ l)
    (hz : z ∈ l) (hp : Protectable v sp va len) (hva : x.1.start ≤ va ∧ va < x.1.stop)
    (hlast : z.1.start ≤ va + len - 1 ∧ va + len - 1 < z.1.stop)
    (hrun : protectCases v sp x.2 z.2 va len prot = .ok (r, v')) :
    Local v v' sp ∧ ∃ l', InOrder v' sp l' := by
  obtain ⟨-, -, hs⟩ := hok.mapping x hx
  obtain ⟨-, hw⟩ := hok.tree.nonempty hx
  obtain ⟨hreal, -⟩ := hs.vmRealInterval_eq hw
  have hword := hp.word
  have hpos := hp.nonempty
  have hend : subWord (va + len) 1 = va + len - 1 := subWord_of_le (by omega) hword
  have hstack := hp.stack_whole hok hx hz hva hlast
  unfold protectCases at hrun
  dsimp only at hrun
  rw [addWord_of_lt hword, hend] at hrun
  split at hrun
  · cases hrun
    exact ⟨.refl _ _, l, hok⟩
  next hin =>
    obtain ⟨hin1, hin2⟩ := (not_or.mp hin).imp of_not_not of_not_not
    split at hrun
    · obtain ⟨v₁, hupd, hrun⟩ := bind_ok hrun
      cases hrun
      obtain ⟨hlocal, hok'⟩ := updateMapping_inOrder hok hx hupd
      exact ⟨hlocal, l, hok'⟩
    next hwhole =>
      have hnot : (v.mapping x.2).flags.has vmStack = false :=
        Bool.eq_false_iff.mpr fun hst => hwhole (hstack hst)
      have hone : x.2 = z.2 → (v.mapping x.2).address ≤ va ∧
          va + len ≤ (v.mapping x.2).address + (v.mapping x.2).size := by
        intro heq
        rw [← heq, hreal] at hin2
        exact bounds_of_containsPoint (hreal ▸ hin1) hin2
      obtain ⟨xs, ys, rfl⟩ := List.append_of_mem hx
      rw [hreal] at hrun hwhole
      split at hrun
      next hcase =>
        obtain ⟨heq, hstart⟩ := hcase
        obtain ⟨-, h2⟩ := hone heq
        obtain ⟨⟨newId, v₁⟩, hsplit, hrun⟩ := bind_ok hrun
        obtain ⟨v2, hupd, hrun⟩ := bind_ok hrun
        cases hrun
        have hlt : len ≠ (v.mapping x.2).size := fun h => hwhole ⟨heq, by rw [hstart, h]⟩
        exact protectFront_inOrder hok hnot hpos (by omega) hsplit hupd
      next hcase =>
        split at hrun
        next hcase3 =>
          obtain ⟨h1, h2⟩ := hone hcase3.1
          have hstart : va ≠ (v.mapping x.2).address := fun h => hcase ⟨hcase3.1, h⟩
          obtain ⟨⟨newId, v₁⟩, hsplit, hrun⟩ := bind_ok hrun
          obtain ⟨v2, hupd, hrun⟩ := bind_ok hrun
          cases hrun
          rw [subWord_of_le h1 (by omega)] at hsplit
          exact protectBack_inOrder hok hnot (by omega) (by omega) hsplit hupd
        next hcase3 =>
          split at hrun
          next heq =>
            obtain ⟨h1, h2⟩ := hone heq
            have hstart : va ≠ (v.mapping x.2).address := fun h => hcase ⟨heq, h⟩
            have hstop : va + len ≠ (v.mapping x.2).address + (v.mapping x.2).size := fun h =>
              hcase3 ⟨heq, by rwa [← heq, hreal]⟩
            obtain ⟨⟨newId, v₁⟩, hsplit, hrun⟩ := bind_ok hrun
            obtain ⟨⟨newId', v2⟩, hsplit2, hrun⟩ := bind_ok hrun
            obtain ⟨v3, hupd, hrun⟩ := bind_ok hrun
            cases hrun
            rw [subWord_of_le h1 (by omega)] at hsplit
            exact protectMiddle_inOrder hok hnot (by omega) hpos (by omega) hsplit hsplit2 hupd
          · split at hrun
            · obtain ⟨v₁, hjoin, hrun⟩ := bind_ok hrun
              obtain ⟨v2, hupd, hrun⟩ := bind_ok hrun
              cases hrun
              rw [hok.split_list.2] at hjoin
              obtain ⟨hlocal, hspace, l', hok1⟩ := joinLoop_inOrder hok hnot hjoin
              have hflags := updateMapping_onlyFlags hupd
              exact ⟨hlocal.trans (hflags.isLocal hspace), l', hok1.onlyFlags hflags⟩
            · cases hrun
              exact ⟨.refl _ _, _, hok⟩

theorem vmapProtect_inOrder {len : UInt64} (hs : AllInOrder s.vm)
    (hp : Protectable s.vm (selectSpace s.vm user va.toNat) va.toNat len.toNat)
    (hrun : vmapProtect s user va.toNat len.toNat prot = .ok (r, s')) : AllInOrder s'.vm := by
  obtain ⟨l, hok⟩ := hs (selectSpace s.vm user va.toNat)
  unfold vmapProtect at hrun
  split at hrun
  · cases hrun
    exact hs
  obtain ⟨id, hid, hrun⟩ := bind_ok hrun
  obtain ⟨last, hlast, hrun⟩ := bind_ok hrun
  split at hrun
  · rwa [(unlockRet_spec hrun).2]
  next hnull =>
    obtain ⟨hid0, hlast0⟩ := not_or.mp hnull
    split at hrun
    · rwa [(unlockRet_spec hrun).2]
    have hword := hp.word
    have hpos := hp.nonempty
    rw [addWord_of_lt hword, subWord_of_le (by omega) hword] at hlast
    obtain ⟨x, hx, rfl, hva⟩ := spaceGetMapping_spec hok va.toNat_lt hid hid0
    obtain ⟨z, hz, rfl, hend⟩ := spaceGetMapping_spec hok (by omega) hlast hlast0
    obtain ⟨hlocal, hl'⟩ := protectCases_inOrder hok hx hz hp hva hend (finish_spec hrun).1
    exact hs.step hlocal hl'

/-! ## Resizing -/

theorem truncate_frame {id oldSize : Nat} (h : truncate v id oldSize newSize = .ok v') :
    v'.space = v.space ∧ v'.mapping = v.mapping ∧ v'.brk = v.brk := by
  unfold truncate at h
  dsimp only at h
  split at h
  · split at h
    · obtain ⟨backing, -, h⟩ := bind_ok h
      cases h
      exact ⟨rfl, rfl, rfl⟩
    · obtain ⟨backing, -, h⟩ := bind_ok h
      cases h
      exact ⟨rfl, rfl, rfl⟩
    · cases h
      exact ⟨rfl, rfl, rfl⟩
  · cases h
    exact ⟨rfl, rfl, rfl⟩

theorem resizeMapping_inOrder {oldSize : Nat} {r : Except Errno (Option Nat)}
    (hok : InOrder v sp l) (hx : x ∈ l) (hr : Resizable v sp x.2 newSize allowMove)
    (hrun : resizeMapping v x.2 oldSize newSize allowMove = .ok (r, v')) :
    Local v v' sp ∧ ∃ l', InOrder v' sp l' := by
  obtain ⟨⟨inplace, v₁⟩, hin, hrun⟩ := bind_ok hrun
  rcases resizeMappingInplace_inOrder hok hx hr
    hin with ⟨hok1, hlocal, rfl⟩ | ⟨rfl, rfl, hnew, hmove⟩
  · obtain ⟨v2, htrunc, hrun⟩ := bind_ok hrun
    cases hrun
    obtain ⟨h1, h2, h3⟩ := truncate_frame htrunc
    exact ⟨hlocal.trans (.of_eq h1 h2 h3), l, hok1.congr h1 h2 h3⟩
  · obtain ⟨⟨moved, v2⟩, hmv, hrun⟩ := bind_ok hrun
    obtain ⟨hlocal, l', hok2⟩ : Local v₁ v2 sp ∧ ∃ l', InOrder v2 sp l' := by
      unfold moveIf at hmv
      split at hmv
      next hallow => exact moveMapping_inOrder hok hx hnew (hmove hallow) hmv
      · cases hmv
        exact ⟨.refl _ _, l, hok⟩
    dsimp only at hrun
    split at hrun
    · obtain ⟨v3, htrunc, hrun⟩ := bind_ok hrun
      cases hrun
      obtain ⟨h1, h2, h3⟩ := truncate_frame htrunc
      exact ⟨hlocal.trans (.of_eq h1 h2 h3), l', hok2.congr h1 h2 h3⟩
    · cases hrun
      exact ⟨hlocal, l', hok2⟩

theorem vmapResize_inOrder {oldSize newSize : UInt64} {r : Except Errno (Option Nat)}
    (hs : AllInOrder s.vm)
    (hr : ∀ id ∈ (s.vm.space (selectSpace s.vm user va.toNat)).mappings,
    containsPoint (vmVirtInterval (s.vm.mapping id)) va.toNat = true →
      (s.vm.mapping id).size = oldSize.toNat → oldSize ≠ newSize →
        Resizable s.vm (selectSpace s.vm user va.toNat) id newSize.toNat allowMove)
    (hrun : vmapResize s user va.toNat oldSize.toNat newSize.toNat allowMove = .ok (r, s')) :
    AllInOrder s'.vm := by
  obtain ⟨l, hok⟩ := hs (selectSpace s.vm user va.toNat)
  unfold vmapResize at hrun
  split at hrun
  · cases hrun
    exact hs
  obtain ⟨id, hid, hrun⟩ := bind_ok hrun
  dsimp only at hrun
  split at hrun
  · rwa [(unlockRet_spec hrun).2]
  next hid0 =>
  split at hrun
  · rwa [(unlockRet_spec hrun).2]
  split at hrun
  · rwa [(unlockRet_spec hrun).2]
  next hold =>
  split at hrun
  · rwa [(unlockRet_spec hrun).2]
  split at hrun
  · rwa [(unlockRet_spec hrun).2]
  next hsame =>
    have hsize : (s.vm.mapping id).size = oldSize.toNat := not_not.mp (not_or.mp hold).2
    obtain ⟨x, hx, rfl, hva⟩ := spaceGetMapping_spec hok va.toNat_lt hid hid0
    have hw := (hok.tree.nonempty hx).2
    have hres := hr x.2 (hok.spaceOk.mem_mappings hx) (by
      rw [(hok.mapping x hx).2.2.vmVirtInterval_eq hw]
      exact decide_eq_true hva) hsize (fun heq => hsame (by rwa [← heq]))
    obtain ⟨hlocal, hl'⟩ := resizeMapping_inOrder hok hx hres (finish_spec hrun).1
    exact hs.step hlocal hl'

/-! ## Runs -/

/-- The operations on address spaces. -/
inductive Op where
  | vmap (args : VmapArgs)
  | free (va size : UInt64)
  | protect (va len : UInt64) (prot : Flags)
  | resize (va oldSize newSize : UInt64) (allowMove : Bool)

/-- An operation of a process with the address space `user`. -/
structure Call where
  user : Nat
  op : Op

def Call.run (c : Call) (s : Sys) : Except Fault Sys :=
  match c.op with
  | .vmap args => Prod.snd <$> vmapInternal s c.user args
  | .free va size => Prod.snd <$> vmapFree s c.user va.toNat size.toNat
  | .protect va len prot => Prod.snd <$> vmapProtect s c.user va.toNat len.toNat prot
  | .resize va oldSize newSize allowMove =>
    Prod.snd <$> vmapResize s c.user va.toNat oldSize.toNat newSize.toNat allowMove

/-- The calls that keep the order. -/
def Call.Orderly (c : Call) (s : Sys) : Prop :=
  match c.op with
  | .vmap args => areValidVmapArgs s.vm.backing args = .ok true →
      args.Orderly (ranges s.vm (selectSpace s.vm c.user args.start))
  | .free _ _ => True
  | .protect va len _ => Protectable s.vm (selectSpace s.vm c.user va.toNat) va.toNat len.toNat
  | .resize va oldSize newSize allowMove =>
    ∀ id ∈ (s.vm.space (selectSpace s.vm c.user va.toNat)).mappings,
      containsPoint (vmVirtInterval (s.vm.mapping id)) va.toNat = true →
      (s.vm.mapping id).size = oldSize.toNat → oldSize ≠ newSize →
      Resizable s.vm (selectSpace s.vm c.user va.toNat) id newSize.toNat allowMove

/-- An orderly call that returns. -/
def OrderlyStep (s : Sys) (c : Call) (s' : Sys) : Prop := c.Orderly s ∧ c.run s = .ok s'

/-- The list of a space visits its mappings in the order of their addresses, and `num_mappings`
counts them. -/
def Ordered (v : VmState) (sp : Nat) : Prop :=
  ((v.space sp).mappings.map fun id => (v.mapping id).address).Pairwise (· < ·) ∧
    (v.space sp).numMappings = (v.space sp).mappings.length

theorem InOrder.ordered (hok : InOrder v sp l) : Ordered v sp := by
  refine ⟨?_, hok.count⟩
  rw [hok.list, List.map_map, List.pairwise_map]
  refine hok.tree.order.imp_of_mem fun {x y} hx hy hle => ?_
  have h1 := ((hok.mapping x hx).2.2.address_mem (hok.tree.nonempty hx).1).2
  have h2 := ((hok.mapping y hy).2.2.address_mem (hok.tree.nonempty hy).1).1
  show (v.mapping x.2).address < (v.mapping y.2).address
  omega

theorem OrderlyStep.inOrder {c : Call} (h : OrderlyStep s c s') (hs : AllInOrder s.vm) :
    AllInOrder s'.vm := by
  obtain ⟨ho, hrun⟩ := h
  unfold Call.Orderly at ho
  unfold Call.run at hrun
  cases hop : c.op with
  | vmap args =>
    rw [hop] at ho hrun
    obtain ⟨⟨r, s1⟩, hret, rfl⟩ := map_eq_ok.mp hrun
    exact vmapInternal_inOrder hs ho hret
  | free va size =>
    rw [hop] at hrun
    obtain ⟨⟨r, s1⟩, hret, rfl⟩ := map_eq_ok.mp hrun
    exact vmapFree_inOrder hs hret
  | protect va len prot =>
    rw [hop] at ho hrun
    obtain ⟨⟨r, s1⟩, hret, rfl⟩ := map_eq_ok.mp hrun
    exact vmapProtect_inOrder hs ho hret
  | resize va oldSize newSize allowMove =>
    rw [hop] at ho hrun
    obtain ⟨⟨r, s1⟩, hret, rfl⟩ := map_eq_ok.mp hrun
    exact vmapResize_inOrder hs ho hret

/-- A mapping that is made below all others stands at the end of the list. -/
theorem not_ordered_of_below {addr : Nat} {y : Nat} (hs : AllInOrder s.vm)
    (hvalid : areValidVmapArgs s.vm.backing a = .ok true)
    (hfit : a.Fit (ranges s.vm (selectSpace s.vm user a.start)) (word - 1))
    (hne : ranges s.vm (selectSpace s.vm user a.start) ≠ [])
    (hy : y ∈ a.Spots (ranges s.vm (selectSpace s.vm user a.start)))
    (hbelow : ∀ i ∈ ranges s.vm (selectSpace s.vm user a.start), y + a.need ≤ i.start)
    (hrun : vmapInternal s user a = .ok (.ok addr, s')) :
    ¬ Ordered s'.vm (selectSpace s.vm user a.start) := by
  obtain ⟨l, hok⟩ := hs (selectSpace s.vm user a.start)
  cases vmapInternal_grant hvalid hok.spaceOk hfit (by decide) hrun with
  | @placed b c hleast hb hgap hi hins =>
    have hby := hleast.2 hy
    have hbelow' : ∀ x ∈ l, b + a.need ≤ x.1.start := fun x hx =>
      Nat.le_trans (Nat.add_le_add_right hby _)
        (hbelow _ ((hok.spaceOk.mem_ranges _).mpr (List.mem_map_of_mem hx)))
    obtain ⟨xs, ys, hl, hc, hxs, -⟩ := hgap
    -- no range lies below the place
    have hnil : xs = [] := by
      refine List.eq_nil_iff_forall_not_mem.mpr fun x hx => ?_
      have hmem : x ∈ l := by
        rw [hl]
        exact List.mem_append_left _ hx
      have h1 := hxs x hx
      have h2 := hbelow' x hmem
      have h3 := (hok.tree.nonempty hmem).1
      dsimp only at h1
      omega
    subst hnil
    obtain ⟨st, _, _, mappings, -, -, hlist, hspace⟩ := hins.space
    obtain ⟨flags, hnew, -, -⟩ := hins.mapping
    have hc0 : c = 0 := hc
    unfold listAdd at hlist
    rw [if_neg (not_not.mpr hc0)] at hlist
    cases hlist
    obtain ⟨x, hx⟩ : ∃ x, x ∈ l := by
      refine List.exists_mem_of_ne_nil l fun hnil => hne ?_
      refine List.eq_nil_iff_forall_not_mem.mpr fun i hmem => ?_
      have := (hok.spaceOk.mem_ranges i).mp hmem
      rw [hnil] at this
      cases this
    intro hord
    have hpw := hord.1
    rw [hspace, List.map_append] at hpw
    have hlt := (List.pairwise_append.mp hpw).2.2 (s'.vm.mapping x.2).address
      (List.mem_map_of_mem (hok.spaceOk.mem_mappings hx)) (s'.vm.mapping s.vm.brk).address
      (List.mem_map_of_mem (List.mem_singleton_self _))
    obtain ⟨-, hlt', hshape⟩ := hok.mapping x hx
    obtain ⟨hle, haddr, -⟩ := hfit.vmVirtInterval_eq (by decide) hb (selectSpace s.vm user a.start)
    rw [hins.others x.2 (Nat.ne_of_lt hlt'), hnew, haddr] at hlt
    have h1 := (hshape.address_mem (hok.tree.nonempty hx).1).1
    have h2 := hbelow' x hx
    omega

/--
**The mapping list is the address order, after any sequence of orderly calls.**

The system starts with all its lists in order, for example empty. In every state that orderly calls
reach, the list of each space visits the mappings in strictly increasing order of their addresses,
and `num_mappings` is its length. One more request that fits into the address space and makes a
mapping keeps this iff no place that it allows lies below all other mappings.
-/
theorem reach_ordered (h : Reach (fun s => AllInOrder s.vm) OrderlyStep s) :
    (∀ sp, Ordered s.vm sp) ∧ ∀ (user : Nat) (a : VmapArgs) (addr : Nat) (s' : Sys),
      areValidVmapArgs s.vm.backing a = .ok true →
      a.Fit (ranges s.vm (selectSpace s.vm user a.start)) (word - 1) →
      (a.vmFlags.has vmStack = true → 0 < a.size) →
      vmapInternal s user a = .ok (.ok addr, s') →
      ((∀ sp, Ordered s'.vm sp) ↔
        a.Orderly (ranges s.vm (selectSpace s.vm user a.start))) := by
  have hs : AllInOrder s.vm := h.invariant (fun _ hs => hs) fun _ _ _ hs hstep => hstep.inOrder hs
  have hord : ∀ v, AllInOrder v → ∀ sp, Ordered v sp := fun v hv sp => by
    obtain ⟨l, hok⟩ := hv sp
    exact hok.ordered
  refine ⟨hord _ hs, fun user a addr s' hvalid hfit hstack hrun => ⟨fun hs' => ?_, fun ho => ?_⟩⟩
  · refine ⟨hfit, hstack, ?_⟩
    by_contra hnot
    obtain ⟨hne, hnot⟩ := not_or.mp hnot
    simp only [not_forall, not_exists, not_and, Nat.not_lt] at hnot
    obtain ⟨y, hy, hbelow⟩ := hnot
    exact not_ordered_of_below hs hvalid hfit hne hy hbelow hrun (hs' _)
  · exact hord _ (vmapInternal_inOrder hs (fun _ => ho) hrun)

theorem allInOrder_emptySys : AllInOrder emptySys.vm := by
  intro sp
  obtain ⟨htree, hlist, hcount⟩ := emptySys_space sp
  exact ⟨[], htree, hlist, by rw [hlist, hcount]; rfl, fun x hx => (by cases hx)⟩

/-- A user mapping of two pages without any protection. -/
def pagesAt (hint : Nat) : VmapArgs :=
  { type := .phys, hint, size := 0x2000, vmSize := 0, vmFlags := vmUser ||| vmFixed,
    data := 0x5000 }

theorem pagesAt_orderly {hint : Nat} {rs : List Interval} (hend : hint + 0x2000 ≤ word - 1)
    (habove : rs = [] ∨ ∃ i ∈ rs, i.start < hint + 0x2000) : (pagesAt hint).Orderly rs := by
  have hfix : (pagesAt hint).vmFlags.has vmFixed = true :=
    (by decide : (vmUser ||| vmFixed).has vmFixed = true)
  have hstack : ¬ (pagesAt hint).vmFlags.has vmStack = true :=
    (by decide : ¬ (vmUser ||| vmFixed).has vmStack = true)
  have hneed : (pagesAt hint).need = 0x2000 := by rw [VmapArgs.need, if_neg hstack]; rfl
  have hoff : (pagesAt hint).off = 0 := if_neg hstack
  have hstart : (pagesAt hint).start = hint := by rw [VmapArgs.start, if_pos hfix, hoff]; rfl
  rw [← hstart, ← hneed] at hend habove
  refine ⟨⟨hneed ▸ (by decide : 0 < 0x2000), fun h => absurd h hstack,
    fun _ => ⟨hoff ▸ Nat.zero_le _, hend⟩, fun h =>
      absurd (hfix.symm.trans h) Bool.true_eq_false.mp⟩, fun h => absurd h hstack,
    habove.imp_right fun hi y hy => ?_⟩
  obtain rfl := (iff_of_eq (if_pos hfix)).mp hy.1
  exact hi

/-- The states after two mappings were made, and after the first one was freed again. -/
def mapAndFree : Except Fault (Sys × Sys) := do
  let s ← (⟨1, .vmap (pagesAt 0x100000)⟩ : Call).run emptySys
  let s ← (⟨1, .vmap (pagesAt 0x200000)⟩ : Call).run s
  let s' ← (⟨1, .free 0x100000 0x2000⟩ : Call).run s
  .ok (s, s')

theorem mapAndFree_reach : ∃ s s', mapAndFree = .ok (s, s') ∧
    Reach (fun s => AllInOrder s.vm) OrderlyStep s ∧
      Reach (fun s => AllInOrder s.vm) OrderlyStep s' := by
  have hfirst : ((⟨1, .vmap (pagesAt 0x100000)⟩ : Call).run emptySys).toOption.all
      (fun s => (ranges s.vm 1).any (·.start < 0x202000)) = true := by rfl
  obtain ⟨⟨s, s'⟩, hrun⟩ := exists_of_toBool (show mapAndFree.toBool = true by rfl)
  obtain ⟨s₁, hs₁, hrest⟩ := bind_ok hrun
  obtain ⟨s₂, hs₂, hrest⟩ := bind_ok hrest
  obtain ⟨s₃, hs₃, hrest⟩ := bind_ok hrest
  cases hrest
  rw [hs₁] at hfirst
  obtain ⟨i, hi, hlt⟩ := List.any_eq_true.mp hfirst
  have h₁ : Reach (fun s => AllInOrder s.vm) OrderlyStep s₁ := .next
    (⟨1, .vmap (pagesAt 0x100000)⟩ : Call) (.start allInOrder_emptySys)
    ⟨fun _ => pagesAt_orderly (by decide) (.inl rfl), hs₁⟩
  have h₂ := h₁.next (⟨1, .vmap (pagesAt 0x200000)⟩ : Call)
    ⟨fun _ => pagesAt_orderly (by decide) (.inr ⟨i, hi, of_decide_eq_true hlt⟩), hs₂⟩
  exact ⟨s, s', hrun, h₂, h₂.next (⟨1, .free 0x100000 0x2000⟩ : Call) ⟨trivial, hs₃⟩⟩

/-- The list after two mappings, and after the first one was freed. -/
theorem reach_ordered_mapAndFree :
    ∃ s s', mapAndFree = .ok (s, s') ∧ Ordered s.vm 1 ∧ Ordered s'.vm 1 := by
  obtain ⟨s, s', hrun, h, h'⟩ := mapAndFree_reach
  exact ⟨s, s', hrun, (reach_ordered h).1 1, (reach_ordered h').1 1⟩

/-- **After any orderly calls, the lookup of an address returns the one mapping of the space that
contains it**, or none. -/
theorem reach_lookup (h : Reach (fun s => AllInOrder s.vm) OrderlyStep s) (sp : Nat) {p : Nat}
    (hp : p < word) : ∃ id, spaceGetMapping s.vm sp p = .ok id ∧
      ∀ id', id' ∈ (s.vm.space sp).mappings ∧
      containsPoint (vmVirtInterval (s.vm.mapping id')) p = true ↔ id' = id ∧ id ≠ 0 := by
  obtain ⟨l, hok⟩ := h.invariant (fun _ hs => hs) (fun _ _ _ hs hstep => hstep.inOrder hs) sp
  obtain ⟨id, hrun, hfound⟩ := spaceGetMapping_run hok hp
  refine ⟨id, hrun, fun id' => .trans ?_ (hfound id')⟩
  have hin : ∀ x ∈ l, containsPoint (vmVirtInterval (s.vm.mapping x.2)) p = true ↔
      x.1.start ≤ p ∧ p < x.1.stop := fun x hx => by simp [(hok.treeFind_run hx).1, containsPoint]
  rw [hok.list, List.mem_map]
  constructor
  · rintro ⟨⟨x, hx, rfl⟩, hp⟩
    exact ⟨x, hx, rfl, (hin x hx).mp hp⟩
  · rintro ⟨x, hx, rfl, hp⟩
    exact ⟨⟨x, hx, rfl⟩, (hin x hx).mpr hp⟩

/-- An address of the second mapping is found in it, and one of the freed mapping in none. -/
theorem reach_lookup_mapAndFree : ∃ s s', mapAndFree = .ok (s, s') ∧
    (∃ id ∈ (s.vm.space 1).mappings,
      containsPoint (vmVirtInterval (s.vm.mapping id)) 0x201000 = true) ∧
    ∀ id ∈ (s'.vm.space 1).mappings,
      containsPoint (vmVirtInterval (s'.vm.mapping id)) 0x101000 = false := by
  obtain ⟨s, s', hrun, h, h'⟩ := mapAndFree_reach
  have hget : mapAndFree.toOption.all
      (fun r => (spaceGetMapping r.1.vm 1 0x201000).toOption.any (· ≠ 0) &&
      (spaceGetMapping r.2.vm 1 0x101000).toOption == some 0) = true := by rfl
  rw [hrun] at hget
  obtain ⟨id, hid, hfound⟩ := reach_lookup h 1 (show 0x201000 < word by decide)
  obtain ⟨id', hid', hfound'⟩ := reach_lookup h' 1 (show 0x101000 < word by decide)
  obtain ⟨hid0, rfl⟩ : id ≠ 0 ∧ id' = 0 := by simpa [hid, hid', Except.toOption] using hget
  refine ⟨s, s', hrun, ⟨id, (hfound id).mpr ⟨rfl, hid0⟩⟩, fun i hi => ?_⟩
  exact Bool.eq_false_iff.mpr fun hp => ((hfound' i).mp ⟨hi, hp⟩).2 rfl

/-- A page below the two pages of `twoPages`. -/
def lowPage : VmapArgs :=
  { type := .phys, hint := 0x50000, size := 0x1000, vmSize := 0
    vmFlags := vmUser ||| vmFixed ||| vmRead ||| vmNomap, data := 0x9000 }

instance (v : VmState) (sp : Nat) : Decidable (Ordered v sp) := inferInstanceAs (Decidable (_ ∧ _))

/-- A mapping that is made below the only other one comes behind it in the list. -/
theorem lowPage_not_ordered :
    ∃ s s', (⟨1, .vmap twoPages⟩ : Call).run emptySys = .ok s ∧
      (⟨1, .vmap lowPage⟩ : Call).run s = .ok s' ∧ ¬ Ordered s'.vm 1 := by
  have hrun :
      ((⟨1, .vmap twoPages⟩ : Call).run emptySys >>= (⟨1, .vmap lowPage⟩ : Call).run).toOption.any
      (fun s => !decide (Ordered s.vm 1)) = true := by
    rfl
  obtain ⟨s', hs', hnot⟩ := exists_ok_of_any hrun
  obtain ⟨s, hs, hs'⟩ := bind_ok hs'
  exact ⟨s, s', hs, hs', by simpa using hnot⟩

end Osdev.Vm
