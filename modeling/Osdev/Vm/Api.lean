import Osdev.Vm.Space

/-!
# The interface of the virtual memory manager (`kernel/mm/vmalloc.c`)

The functions that other parts of the kernel call. Each of them takes the lock of one address space
and gives it back. The locks are recursive; `lock sp` is the number of times that the running thread
holds the lock of space `sp`, and giving back a lock that is not held is a panic.
-/

namespace Osdev.Vm

open Osdev.Intvl Osdev.Lib

/-- The error codes that the functions return, without their sign. -/
inductive Errno where
  | einval
  | enomem
  | eaddrnotavail
  deriving DecidableEq, Repr

/-- The locks of the running thread, and everything that they protect. -/
structure Sys where
  vm : VmState
  lock : Nat → Nat

namespace Sys

/-- `space_lock`. -/
def spaceLock (s : Sys) (sp : Nat) : Sys :=
  { s with lock := fun q => if q = sp then s.lock q + 1 else s.lock q }

/-- `space_unlock`. -/
def spaceUnlock (s : Sys) (sp : Nat) : Except Fault Sys :=
  if s.lock sp = 0 then .error .panic
  else .ok { s with lock := fun q => if q = sp then s.lock q - 1 else s.lock q }

end Sys

/-- What a function returns: an error code or a result, and the state. -/
abbrev Ret (α : Type) := Except Errno α × Sys

/-- `space_unlock` and `return`, at the end of a function. -/
def unlockRet {α : Type} (s : Sys) (sp : Nat) (r : Except Errno α) :
    Except Fault (Ret α) := do
  let s ← s.spaceUnlock sp
  .ok (r, s)

/-- The end of a function that has worked on the protected state. -/
def finish {α : Type} (s : Sys) (sp : Nat) (r : Except Fault (Except Errno α × VmState)) :
    Except Fault (Ret α) := do
  let (r, vm) ← r
  unlockRet { s with vm } sp r

/-- `select_space`. -/
def selectSpace (v : VmState) (user addr : Nat) : Nat :=
  if addr ≥ kernelSpaceStart then v.kernelSpace else user

/-- `is_valid_range`. -/
def isValidRange (start len : Nat) : Bool :=
  if start ≥ kernelSpaceStart then addWord start len ≤ kernelSpaceEnd
  else addWord start len ≤ userSpaceEnd

/-! ## `vmap_internal` -/

/-- The arguments of `vmap_internal`. -/
structure VmapArgs where
  type : VmType
  hint : Nat
  size : Nat
  vmSize : Nat
  vmFlags : Flags
  data : Nat

/-- The page size that `are_valid_vmap_args` computes. -/
def VmapArgs.pgSize (a : VmapArgs) : Nat := vmFlagsToSize a.vmFlags

/-- The last part of `are_valid_vmap_args`: what stands behind the mapping covers its size. -/
def coversSize (b : Backing) (a : VmapArgs) : Except Fault Bool :=
  match a.type with
  | .rsvd | .phys => .ok true
  | .page => do
    let x ← b.derefPage a.data
    .ok (x.head && decide (a.size = x.count * a.pgSize % word))
  | .file => do
    let f ← b.derefFile a.data
    .ok (decide (a.size = f.size))

/-- `are_valid_vmap_args`. -/
def areValidVmapArgs (b : Backing) (a : VmapArgs) : Except Fault Bool :=
  if a.vmSize ≠ 0 ∧ a.vmSize < a.size then .ok false
  else if a.vmFlags.has vmHuge2Mb ∧ a.vmFlags.has vmHuge1Gb then .ok false
  else if a.pgSize ≠ pageSize ∧ a.vmFlags.has vmStack then .ok false
  else if a.vmFlags.has vmFixed ∧ a.vmFlags.has vmUser ∧ ¬ a.hint < userSpaceEnd then .ok false
  else if a.vmFlags.has vmFixed ∧ ¬ a.vmFlags.has vmUser ∧
      ¬ (kernelSpaceStart ≤ a.hint ∧ a.hint < kernelSpaceEnd) then .ok false
  else if ¬ isAligned a.size a.pgSize then .ok false
  else if ¬ isAligned a.vmSize a.pgSize then .ok false
  else coversSize b a

/-- The flags after `VM_READ` was added where `VM_WRITE` or `VM_EXEC` asks for it. -/
def readableFlags (flags : Flags) : Flags :=
  if flags.has vmWrite ∨ flags.has vmExec then flags ||| vmRead else flags

/-- The size, offset and base of the virtual range that `vmap_internal` looks for; `none` if the
hint of a fixed stack is too low. -/
def virtRange (a : VmapArgs) : Option (Nat × Nat × Nat) :=
  let virtSize := max a.vmSize a.size
  if a.vmFlags.has vmFixed then
    if a.vmFlags.has vmStack then
      let virtSize := addWord virtSize pageSize
      let virtOff := subWord virtSize a.size
      if a.hint < virtOff then none else some (virtSize, virtOff, a.hint - virtOff)
    else some (virtSize, 0, a.hint)
  else
    let hint := chooseBestHint a.hint (readableFlags a.vmFlags)
    if a.vmFlags.has vmStack then
      let virtSize := addWord virtSize pageSize
      some (virtSize, pageSize, max hint virtSize)
    else some (virtSize, 0, hint)

/-- The place of the mapping and the mapping before it, or an error code. -/
def findPlace (x : Space) (a : VmapArgs) (virtBase virtSize : Nat) :
    Except Fault (Except Errno (Nat × Nat)) :=
  if a.vmFlags.has vmFixed then do
    match ← checkRangeFree x virtBase virtSize with
    | none => .ok (.error .eaddrnotavail)
    | some closest => .ok (.ok (virtBase, closest))
  else do
    let (base, closest) ← getFreeRegion x virtBase virtSize a.pgSize
    if base = 0 then .ok (.error .enomem) else .ok (.ok (base, closest))

/-- The mapping list with a new element. -/
def listAdd (l : List Nat) (id closest : Nat) : Except Fault (List Nat) :=
  if closest ≠ 0 then listInsert l id closest else .ok (l ++ [id])

/-- The end of `vmap_internal`: the region is mapped if any protection is given. -/
def mapNew (v : VmState) (id : Nat) : Except Fault VmState :=
  let vm := v.mapping id
  if vm.flags.has vmProtMask then
    if vm.flags.has vmNomap then
      .ok (v.setMapping id { vm with flags := (vm.flags ^^^ vmNomap) ||| vmMapped })
    else updateMapping v id vm.flags
  else .ok v

/-- The middle of `vmap_internal`: a new mapping at a place that was found. -/
def addMapping (v : VmState) (sp : Nat) (a : VmapArgs) (base virtOff virtSize closest : Nat) :
    Except Fault VmState := do
  let id := v.brk
  let flags := readableFlags a.vmFlags
  let vm : VmMapping :=
    { type := a.type, flags := if a.type = .rsvd then flags &&& ~~~vmProtMask else flags
      address := addWord base virtOff, size := a.size, virtSize, space := sp
      data := if a.type = .rsvd then 0 else a.data }
  let v := { v with brk := v.brk + 1 }.setMapping id vm
  let v ← treeInsert v sp (vmVirtInterval vm) id
  let x := v.space sp
  let mappings ← listAdd x.mappings id closest
  mapNew (v.setSpace sp { x with numMappings := x.numMappings + 1, mappings }) id

/-- What `vmap_internal` does under the lock. -/
def vmapLocked (v : VmState) (sp : Nat) (a : VmapArgs) (virtSize virtOff virtBase : Nat) :
    Except Fault (Except Errno Nat × VmState) := do
  match ← findPlace (v.space sp) a virtBase virtSize with
  | .error e => .ok (.error e, v)
  | .ok (base, closest) => do
    let v ← addMapping v sp a base virtOff virtSize closest
    .ok (.ok (addWord base virtOff), v)

/-- `vmap_internal`: the address of the new mapping. -/
def vmapInternal (s : Sys) (user : Nat) (a : VmapArgs) : Except Fault (Ret Nat) := do
  let valid ← areValidVmapArgs s.vm.backing a
  if ¬ valid then .ok (.error .einval, s)
  else match virtRange a with
    | none => .ok (.error .einval, s)
    | some (virtSize, virtOff, virtBase) =>
      let sp := selectSpace s.vm user virtBase
      let s := s.spaceLock sp
      finish s sp (vmapLocked s.vm sp a virtSize virtOff virtBase)

/-! ## `vmap_free` -/

/-- The loop of `vmap_free` that looks for reserved mappings: from a mapping up to `stop`, which is
the one behind the last. -/
def checkLoop (v : VmState) (stop : Nat) : List Nat → Except Fault Bool
  | [] => if stop = 0 then .ok false else .error .null
  | id :: ids =>
    if id = stop then .ok false
    else if (v.mapping id).type = .rsvd then .ok true
    else checkLoop v stop ids

/-- The freeing loop of `vmap_free`. -/
def freeLoop (last : Nat) : Nat → VmState → Nat → Except Fault VmState
  | 0, _, _ => .error .diverged
  | fuel + 1, v, id =>
    if id = last then freeMapping v last
    else if id = 0 then .error .null
    else do
      let next := listNext (v.space (v.mapping id).space).mappings id
      let v ← freeMapping v id
      freeLoop last fuel v next

/-- What `vmap_free` does in the end. -/
def freeAll (v : VmState) (id last : Nat) : Except Fault (Except Errno Unit × VmState) := do
  let v ← freeLoop last ((v.space (v.mapping id).space).mappings.length + 1) v id
  .ok (.ok (), v)

/-- `vmap_free`. Two of its error paths return with the lock held. -/
def vmapFree (s : Sys) (user va size : Nat) : Except Fault (Ret Unit) :=
  if ¬ isValidRange va size ∨ ¬ isAligned size pageSize then .ok (.error .einval, s)
  else do
    let sp := selectSpace s.vm user va
    let s := s.spaceLock sp
    let id ← spaceGetMapping s.vm sp va
    let last ← spaceGetMapping s.vm sp (subWord (addWord va size) 1)
    if id = 0 ∨ last = 0 then unlockRet s sp (.error .enomem)
    else
      let i : Interval := ⟨va, addWord va size⟩
      let iStart := vmRealInterval (s.vm.mapping id)
      let iEnd := vmRealInterval (s.vm.mapping last)
      let l := (s.vm.space sp).mappings
      if i.start < iStart.start ∨ i.stop > iEnd.stop then unlockRet s sp (.error .enomem)
      else if i ≠ ⟨iStart.start, iEnd.stop⟩ then .ok (.error .einval, s)
      else do
        let reserved ← checkLoop s.vm (listNext l last) (l.dropWhile (· ≠ id))
        if reserved then .ok (.error .einval, s)
        else finish s sp (freeAll s.vm id last)

/-! ## `vmap_protect` -/

/-- The protection that `vmap_protect` makes of its argument: `PROT_READ` is 1, `PROT_WRITE` is 2
and `PROT_EXEC` is 4. -/
def vmProt (prot : Flags) : Flags :=
  (if prot.has 1 then vmRead else 0) ||| (if prot.has 2 then vmWrite else 0) |||
    (if prot.has 4 then vmExec else 0)

/-- The loop of case 5, which joins what follows in the list. -/
def joinLoop (id : Nat) : List Nat → VmState → Except Fault VmState
  | [], v => .ok v
  | sibling :: rest, v => do
    let v ← joinMappings v id sibling
    joinLoop id rest v

/-- The cases of `vmap_protect`, for the mappings `id` and `last` at the ends of the range. -/
def protectCases (v : VmState) (sp id last va len : Nat) (prot : Flags) :
    Except Fault (Except Errno Unit × VmState) :=
  let iStart := vmRealInterval (v.mapping id)
  let iEnd := vmRealInterval (v.mapping last)
  let i : Interval := ⟨va, addWord va len⟩
  let siblings := vmAreSiblings v (v.space sp).mappings id last
  if ¬ containsPoint iStart i.start ∨ ¬ containsPoint iEnd (subWord i.stop 1) then
    .ok (.error .enomem, v)
  else if id = last ∧ i = iStart then do
    let v ← updateMapping v id prot
    .ok (.ok (), v)
  else if id = last ∧ i.start = iStart.start then do
    let (_, v) ← splitMapping v id len
    let v ← updateMapping v id prot
    .ok (.ok (), v)
  else if id = last ∧ i.stop = iEnd.stop then do
    let (newId, v) ← splitMapping v id (subWord i.start iStart.start)
    let v ← updateMapping v newId prot
    .ok (.ok (), v)
  else if id = last then do
    let (a, v) ← splitMapping v id (subWord i.start iStart.start)
    let (_, v) ← splitMapping v a len
    let v ← updateMapping v a prot
    .ok (.ok (), v)
  else if siblings ∧ i.start = iStart.start ∧ i.stop = iEnd.stop then do
    let v ← joinLoop id (((v.space sp).mappings.dropWhile (· ≠ id)).drop 1) v
    let v ← updateMapping v id prot
    .ok (.ok (), v)
  else .ok (.error .enomem, v)

/-- `vmap_protect`. -/
def vmapProtect (s : Sys) (user va len : Nat) (prot : Flags) : Except Fault (Ret Unit) :=
  if ¬ isValidRange va len ∨ ¬ isAligned len pageSize then .ok (.error .einval, s)
  else do
    let sp := selectSpace s.vm user va
    let s := s.spaceLock sp
    let id ← spaceGetMapping s.vm sp va
    let last ← spaceGetMapping s.vm sp (subWord (addWord va len) 1)
    if id = 0 ∨ last = 0 then unlockRet s sp (.error .enomem)
    else if (s.vm.mapping id).type = .rsvd ∨ (s.vm.mapping last).type = .rsvd then
      unlockRet s sp (.error .enomem)
    else finish s sp (protectCases s.vm sp id last va len (vmProt prot))

/-! ## `vmap_resize` -/

/-- The last part of `vmap_resize`, for a mapping that has become smaller. -/
def truncate (v : VmState) (id oldSize newSize : Nat) : Except Fault VmState :=
  let vm := v.mapping id
  if newSize < oldSize then
    match vm.type with
    | .page => do
      let backing ← pageTypeUnmapInternal v.backing vm (oldSize - newSize) newSize
      .ok { v with backing }
    | .file => do
      let backing ← fileUpdate v.backing vm false newSize oldSize
      .ok { v with backing }
    | _ => .ok v
  else .ok v

/-- `move_mapping`, if it is allowed. -/
def moveIf (allow : Bool) (v : VmState) (id newSize : Nat) : Except Fault (Bool × VmState) :=
  if allow then moveMapping v id newSize else .ok (false, v)

/-- What `vmap_resize` does to a mapping; the result is the new address if it was moved. -/
def resizeMapping (v : VmState) (id oldSize newSize : Nat) (allowMove : Bool) :
    Except Fault (Except Errno (Option Nat) × VmState) := do
  let (inplace, v) ← resizeMappingInplace v id newSize
  if inplace then do
    let v ← truncate v id oldSize newSize
    .ok (.ok none, v)
  else do
    let (moved, v) ← moveIf allowMove v id newSize
    if moved then do
      let address := (v.mapping id).address
      let v ← truncate v id oldSize newSize
      .ok (.ok (some address), v)
    else .ok (.error .enomem, v)

/-- `vmap_resize`. -/
def vmapResize (s : Sys) (user va oldSize newSize : Nat) (allowMove : Bool) :
    Except Fault (Ret (Option Nat)) :=
  if ¬ isValidRange va oldSize ∨ ¬ isAligned oldSize pageSize ∨ ¬ isAligned newSize pageSize then
    .ok (.error .einval, s)
  else do
    let sp := selectSpace s.vm user va
    let s := s.spaceLock sp
    let id ← spaceGetMapping s.vm sp va
    let vm := s.vm.mapping id
    if id = 0 then unlockRet s sp (.error .enomem)
    else if vm.type = .rsvd then unlockRet s sp (.error .enomem)
    else if (vm.type ≠ .page ∧ vm.type ≠ .file) ∨ vm.size ≠ oldSize then
      unlockRet s sp (.error .einval)
    else if vm.flags.has vmLinked ∨ vm.flags.has vmSplit then unlockRet s sp (.error .einval)
    else if vm.size = newSize then unlockRet s sp (.ok none)
    else finish s sp (resizeMapping s.vm id oldSize newSize allowMove)

end Osdev.Vm
