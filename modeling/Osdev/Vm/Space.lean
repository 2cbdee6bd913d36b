import Osdev.IntervalTree.Model
import Osdev.Vm.Backing

/-!
# Address spaces (`kernel/mm/vmalloc.c`)

An address space has a list of mappings and an interval tree over their virtual ranges. The
functions of this module search the tree, and add, split, join, resize, move and free mappings. All
of them run under the lock of the space. The lock is part of the interface functions in
`Osdev.Vm.Api`, so its assertions do not appear here.

Pointers to mappings are natural numbers and `0` is `NULL`. `kmalloc` hands out pointers that were
not used before. Names of mappings are left out.
-/

namespace Osdev.Vm

open Osdev.Intvl Osdev.Lib

/-- `address_space_t` without its lock; `table_pages` is part of `Backing`. -/
structure Space where
  minAddr : Nat
  maxAddr : Nat
  numMappings : Nat
  mappings : List Nat
  tree : Rb.State Intervals
  pageTable : Nat

/-- All address spaces, mappings and what stands behind them. -/
structure VmState where
  space : Nat → Space
  kernelSpace : Nat
  mapping : Nat → VmMapping
  brk : Nat
  backing : Backing

namespace VmState

def setSpace (v : VmState) (sp : Nat) (x : Space) : VmState :=
  { v with space := fun q => if q = sp then x else v.space q }

def setMapping (v : VmState) (id : Nat) (vm : VmMapping) : VmState :=
  { v with mapping := fun q => if q = id then vm else v.mapping q }

/-- Changing the tree of a space. -/
def setTree (v : VmState) (sp : Nat) (tree : Rb.State Intervals) : VmState :=
  v.setSpace sp { v.space sp with tree }

section

variable (v : VmState) (sp id : Nat) (x : Space) (vm : VmMapping) (tree : Rb.State Intervals)

@[simp] theorem setSpace_space_self : (v.setSpace sp x).space sp = x := if_pos rfl

@[simp] theorem setSpace_space_ne {q : Nat} (h : q ≠ sp) :
    (v.setSpace sp x).space q = v.space q := if_neg h

@[simp] theorem setSpace_mapping : (v.setSpace sp x).mapping = v.mapping := rfl

@[simp] theorem setSpace_brk : (v.setSpace sp x).brk = v.brk := rfl

@[simp] theorem setMapping_mapping_self : (v.setMapping id vm).mapping id = vm := if_pos rfl

@[simp] theorem setMapping_mapping_ne {q : Nat} (h : q ≠ id) :
    (v.setMapping id vm).mapping q = v.mapping q := if_neg h

@[simp] theorem setMapping_space : (v.setMapping id vm).space = v.space := rfl

@[simp] theorem setMapping_brk : (v.setMapping id vm).brk = v.brk := rfl

@[simp] theorem setTree_space_self : (v.setTree sp tree).space sp = { v.space sp with tree } :=
  if_pos rfl

@[simp] theorem setTree_space_ne {q : Nat} (h : q ≠ sp) :
    (v.setTree sp tree).space q = v.space q := if_neg h

@[simp] theorem setTree_mapping : (v.setTree sp tree).mapping = v.mapping := rfl

end

end VmState

/-- The result of an interval-tree function; its loops end. -/
def ofTree {α : Type} : Option α → Except Fault α
  | none => .error .diverged
  | some a => .ok a

/-! ## Lists -/

/-- `LIST_NEXT`. -/
def listNext (l : List Nat) (id : Nat) : Nat := ((l.dropWhile (· ≠ id)).drop 1).headD 0

/-- `LIST_PREV`. -/
def listPrev (l : List Nat) (id : Nat) : Nat := (l.takeWhile (· ≠ id)).getLastD 0

/-- `LIST_INSERT`. The links of what is not in the list are `NULL`, and are dereferenced. -/
def listInsert (l : List Nat) (id after : Nat) : Except Fault (List Nat) :=
  if after ∈ l then
    .ok (l.takeWhile (· ≠ after) ++ after :: id :: (l.dropWhile (· ≠ after)).drop 1)
  else .error .null

/-! ## Ranges of mappings -/

/-- `vm_virtual_start`. -/
def vmVirtualStart (vm : VmMapping) : Nat :=
  if vm.flags.has vmStack then subWord vm.address (subWord vm.virtSize vm.size) else vm.address

/-- `vm_virt_interval`. -/
def vmVirtInterval (vm : VmMapping) : Interval :=
  ⟨vmVirtualStart vm, addWord (vmVirtualStart vm) vm.virtSize⟩

/-- `vm_real_interval`. -/
def vmRealInterval (vm : VmMapping) : Interval := ⟨vm.address, addWord vm.address vm.size⟩

/-- `vm_empty_space`. -/
def vmEmptySpace (vm : VmMapping) : Nat :=
  let size := subWord vm.virtSize vm.size
  if vm.flags.has vmStack then subWord size pageSize else size

/-- `magnitude`. -/
def magnitude (i : Interval) : Nat := subWord i.stop i.start

/-- `contains_point`. -/
def containsPoint (i : Interval) (p : Nat) : Bool := i.start ≤ p ∧ p < i.stop

/-- `contiguous`. -/
def contiguous (i j : Interval) : Bool :=
  !overlaps i j && (j.start == i.stop || i.start == j.stop)

/-- `vm_are_siblings`, in the mapping list `l`. -/
def vmAreSiblings (v : VmState) (l : List Nat) (a b : Nat) : Bool :=
  let (a, b) := if (v.mapping a).address > (v.mapping b).address then (b, a) else (a, b)
  if a = b ∨ (v.mapping a).type ≠ (v.mapping b).type ∨ ¬ (v.mapping b).flags.has vmSplit then false
  else decide (b ∈ (l.dropWhile (· ≠ a)).drop 1)

/-! ## Free ranges -/

/-- `choose_best_hint`. -/
def chooseBestHint (hint : Nat) (vmFlags : Flags) : Nat :=
  if vmFlags.has vmUser then
    if hint > 0 ∧ hint < userSpaceEnd then hint
    else if vmFlags.has vmStack then 0x0000800000000000
    else if vmFlags.has vmMalloc then 0x0000050000000000
    else 0x0000000050000000
  else
    if hint > kernelSpaceStart ∧ hint < kernelSpaceEnd then hint
    else if vmFlags.has vmStack then 0xFFFFFF8040000000
    else if vmFlags.has vmMalloc then 0xFFFFC01000000000
    else 0xFFFFC00000000000

/-- `do_align`. -/
def doAlign (x al : Nat) : Nat := if al > 0 then align x al else x

/-- `get_free_region`: the address, and the mapping right before it. -/
def getFreeRegion (x : Space) (base size al : Nat) : Except Fault (Nat × Nat) := do
  let base := doAlign base al
  let size := doAlign size al
  if size > uint64Max - base ∨ addWord base size > x.maxAddr then .error .panic
  else do
    let (range, node) ← ofTree (intvlTreeFindFreeGap x.tree.tree x.tree.data
      ⟨base, addWord base size⟩ al)
    if node = 0 then .ok (base, 0) else .ok (range.start, x.tree.data.data node)

/-- `check_range_free`: the mapping right before the range, if it is free. -/
def checkRangeFree (x : Space) (base size : Nat) : Except Fault (Option Nat) := do
  let intvl : Interval := ⟨base, addWord base size⟩
  let (result, node) ← ofTree (intvlTreeFindFreeGap x.tree.tree x.tree.data intvl 0)
  if intvl ≠ result then .ok none
  else if node = 0 then .ok (some 0)
  else .ok (some (x.tree.data.data node))

/-! ## Changes of the tree -/

/-- `intvl_tree_insert`, with two new pointers for the record and the node. -/
def treeInsert (v : VmState) (sp : Nat) (i : Interval) (id : Nat) : Except Fault VmState := do
  let tree ← ofTree (intvlTreeInsert (v.space sp).tree v.brk (v.brk + 1) i id)
  .ok { v.setTree sp tree with brk := v.brk + 2 }

/-- `intvl_tree_delete`. -/
def treeDelete (v : VmState) (sp : Nat) (i : Interval) : Except Fault VmState := do
  let tree ← ofTree (intvlTreeDelete (v.space sp).tree i)
  .ok (v.setTree sp tree)

/-- `intvl_tree_find`. -/
def treeFind (v : VmState) (sp : Nat) (i : Interval) : Except Fault Nat :=
  ofTree (intvlTreeFind (v.space sp).tree.tree (v.space sp).tree.data i)

/-- `intvl_tree_update_interval`. -/
def treeUpdate (v : VmState) (sp node : Nat) (ds de : Int) : Except Fault VmState :=
  if node = 0 then .error .null
  else do
    let tree ← ofTree (intvlTreeUpdateInterval (v.space sp).tree node ds de)
    .ok (v.setTree sp tree)

/-- `space_get_mapping`. -/
def spaceGetMapping (v : VmState) (sp va : Nat) : Except Fault Nat :=
  ofTree (intvlTreeGetPoint (v.space sp).tree.tree (v.space sp).tree.data va)

/-! ## Resizing -/

/-- The part of `resize_mapping_inplace` for growth past the virtual range of a stack. -/
def growStack (v : VmState) (id node : Nat) (newSize : Nat) : Except Fault (Bool × VmState) := do
  let vm := v.mapping id
  let x := v.space vm.space
  let delta := newSize - vm.size
  let prev := listPrev x.mappings id
  if prev = 0 then .error .null
  else do
    let prevNode ← treeFind v vm.space (vmVirtInterval (v.mapping prev))
    if prevNode = 0 then .error .null
    else
      let emptySpace := addWord (subWord (vmVirtualStart vm) (x.tree.data.stop prevNode))
        (vmEmptySpace vm)
      if emptySpace < delta then .ok (false, v)
      else do
        let v ← treeUpdate v vm.space node (-delta) 0
        .ok (true, v.setMapping id { vm with address := subWord vm.address delta, size := newSize })

/-- The same for other mappings. -/
def growUp (v : VmState) (id node : Nat) (newSize : Nat) : Except Fault (Bool × VmState) := do
  let vm := v.mapping id
  let x := v.space vm.space
  let delta := newSize - vm.size
  let next := listNext x.mappings id
  if next = 0 then .error .null
  else do
    let nextNode ← treeFind v vm.space (vmVirtInterval (v.mapping next))
    if nextNode = 0 then .error .null
    else
      let emptySpace := addWord (subWord (x.tree.data.start nextNode) (vmVirtInterval vm).stop)
        (vmEmptySpace vm)
      if emptySpace < delta then .ok (false, v)
      else do
        let v ← treeUpdate v vm.space node 0 delta
        .ok (true, v.setMapping id { vm with size := newSize })

/-- `resize_mapping_inplace`. `diff` of two unsigned sizes is their difference modulo `2 ^ 64`, so a
mapping that shrinks has a negative `delta`. -/
def resizeMappingInplace (v : VmState) (id : Nat) (newSize : Nat) :
    Except Fault (Bool × VmState) := do
  let vm := v.mapping id
  let x := v.space vm.space
  let node ← treeFind v vm.space (vmVirtInterval vm)
  if node = 0 ∨ x.tree.data.data node ≠ id then .error .assertion
  else if newSize < vm.size then
    let address :=
      if vm.flags.has vmStack then addWord vm.address (subWord newSize vm.size) else vm.address
    .ok (true, v.setMapping id { vm with size := newSize, address })
  else if newSize > vm.size ∧ newSize ≤ vmEmptySpace vm then
    let address :=
      if vm.flags.has vmStack then subWord vm.address (newSize - vm.size) else vm.address
    .ok (true, v.setMapping id { vm with size := newSize, address })
  else if vm.flags.has vmStack then growStack v id node newSize
  else growUp v id node newSize

/-! ## Splitting and joining -/

/-- `split_mapping`: the new mapping. -/
def splitMapping (v : VmState) (id off : Nat) : Except Fault (Nat × VmState) := do
  let vm := v.mapping id
  let sp := vm.space
  if off % vmFlagsToSize vm.flags ≠ 0 then .error .assertion
  else do
    let intvl := vmVirtInterval vm
    let (data, newData, backing) ← vmSplitInternal v.backing vm off
    let newId := v.brk
    let stack := vm.flags.has vmStack
    let newSize := subWord vm.size off
    let newVm : VmMapping :=
      { type := vm.type, flags := vm.flags ||| vmSplit, address := addWord vm.address off
        size := newSize, virtSize := if stack then newSize else subWord vm.virtSize off
        space := sp, data := newData }
    let vm : VmMapping :=
      { vm with flags := vm.flags ||| vmLinked, size := off
                virtSize := if stack then vm.virtSize else off, data }
    let v := ({ v with brk := v.brk + 1, backing }.setMapping id vm).setMapping newId newVm
    let node ← treeFind v sp intvl
    let v ← treeUpdate v sp node 0 (-(subWord (magnitude intvl) off : Int))
    let v ← treeInsert v sp (vmVirtInterval newVm) newId
    if ¬ contiguous (vmVirtInterval vm) (vmVirtInterval newVm) then .error .assertion
    else do
      let x := v.space sp
      let mappings ← listInsert x.mappings newId id
      .ok (newId, v.setSpace sp { x with numMappings := x.numMappings + 1, mappings })

/-- `join_mappings`. -/
def joinMappings (v : VmState) (a b : Nat) : Except Fault VmState := do
  let vmA := v.mapping a
  let vmB := v.mapping b
  let sp := vmA.space
  if ¬ vmA.flags.has vmLinked ∨ ¬ vmB.flags.has vmSplit then .error .assertion
  else do
    let node ← treeFind v sp (vmVirtInterval vmA)
    let v ← treeDelete v sp (vmVirtInterval vmB)
    let v ← treeUpdate v sp node 0 (magnitude (vmVirtInterval vmB))
    let x := v.space sp
    let v :=
      v.setSpace sp { x with mappings := x.mappings.erase b, numMappings := x.numMappings - 1 }
    let (data, backing) ← vmJoinInternal v.backing vmA vmB
    .ok ({ v with backing }.setMapping a
      { vmA with flags := vmA.flags &&& ~~~vmLinked, size := addWord vmA.size vmB.size
                 virtSize := addWord vmA.virtSize vmB.virtSize, data })

/-! ## Moving and freeing -/

/-- `move_mapping`. -/
def moveMapping (v : VmState) (id newSize : Nat) : Except Fault (Bool × VmState) := do
  let vm := v.mapping id
  let sp := vm.space
  let stack := vm.flags.has vmStack
  let virtSize := if stack then addWord newSize pageSize else newSize
  let off := if stack then pageSize else 0
  let base := if stack then subWord vm.address virtSize else vm.address
  let (virtAddr, closest) ← getFreeRegion (v.space sp) base virtSize (vmFlagsToSize vm.flags)
  if virtAddr = 0 then .ok (false, v)
  else do
    let v ← treeDelete v sp (vmVirtInterval vm)
    let v ← treeInsert v sp ⟨virtAddr, addWord virtAddr virtSize⟩ id
    let x := v.space sp
    let mappings := x.mappings.erase id
    -- `closest` is dereferenced, and it may be `NULL`
    if closest = 0 then .error .null
    else do
      let closest :=
        if (v.mapping closest).address > virtAddr then listPrev mappings closest else closest
      let mappings ← listInsert mappings id closest
      .ok (true, (v.setSpace sp { x with mappings }).setMapping id
        { vm with address := addWord virtAddr off, size := newSize, virtSize })

/-- `free_mapping`. -/
def freeMapping (v : VmState) (id : Nat) : Except Fault VmState := do
  let vm := v.mapping id
  let sp := vm.space
  let v ← treeDelete v sp (vmVirtInterval vm)
  let x := v.space sp
  let v :=
    v.setSpace sp { x with mappings := x.mappings.erase id, numMappings := x.numMappings - 1 }
  if vm.flags.has vmMapped then do
    let backing ← vmFreeInternal v.backing vm
    .ok { v with backing }
  else .ok v

/-- `vm_update_internal` of a mapping in its place. -/
def updateMapping (v : VmState) (id : Nat) (prot : Flags) : Except Fault VmState := do
  let (vm, backing) ← vmUpdateInternal v.backing (v.mapping id) prot
  .ok ({ v with backing }.setMapping id vm)

end Osdev.Vm
