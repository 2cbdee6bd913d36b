import Osdev.Pages.Model
import Osdev.Vm.PageTable

/-!
# What stands behind a mapping (`kernel/mm/vmalloc.c`, `kernel/mm/file.c`, `kernel/mm/pgcache.c`)

A mapping is backed by a range of physical memory, by a list of page structs or by a file whose
pages sit in a page cache. The functions of this module put these into the page tables and take them
out again. They do not know about address spaces: a mapping record goes in and comes out changed.

`vn_release` belongs to the file system and is left out.
-/

namespace Osdev.Vm

open Osdev.Lib

/-! ## Mappings and files -/

/-- `vm_mapping_t`. `data` is the union of `vm_phys`, `vm_pages` and `vm_file`. -/
structure VmMapping where
  type : VmType
  flags : Flags
  address : Nat
  size : Nat
  virtSize : Nat
  space : Nat
  data : Nat
  deriving DecidableEq, Repr

/-- `vm_file_t`. -/
structure VmFile where
  size : Nat
  off : Nat
  pgSize : Nat
  vnode : Nat
  pgcache : Nat
  deriving DecidableEq, Repr

/-- `struct pgcache`. `page i` is the page struct for page `i` of the file, or `0`. -/
structure PgCache where
  order : Nat
  pgSize : Nat
  page : Nat → Nat
  refcount : Nat

/-- Page structs, files, page caches and page tables. -/
structure Backing where
  tables : Tables
  /-- `table_pages` of each space, as frames -/
  tablePages : Nat → List Nat
  store : Pages.Store
  file : Nat → Option VmFile
  cache : Nat → Option PgCache
  brk : Nat

/-- The faults of the page structs. -/
def ofPages : Pages.Fault → Fault
  | .null => .null
  | .freed => .freed
  | .assertion => .assertion
  | .diverged => .diverged

namespace Backing

def derefPage (b : Backing) (p : Nat) : Except Fault Pages.Page :=
  (b.store.deref p).mapError ofPages

def derefFile (b : Backing) (p : Nat) : Except Fault VmFile :=
  if p = 0 then .error .null
  else match b.file p with
    | none => .error .freed
    | some f => .ok f

def derefCache (b : Backing) (p : Nat) : Except Fault PgCache :=
  if p = 0 then .error .null
  else match b.cache p with
    | none => .error .freed
    | some c => .ok c

def setFile (b : Backing) (p : Nat) (f : VmFile) : Backing :=
  { b with file := fun q => if q = p then some f else b.file q }

def setCache (b : Backing) (p : Nat) (c : Option PgCache) : Backing :=
  { b with cache := fun q => if q = p then c else b.cache q }

/-- `kmallocz` of a `vm_file_t`. -/
def allocFile (b : Backing) (f : VmFile) : Nat × Backing :=
  (b.brk, { b.setFile b.brk f with brk := b.brk + 1 })

def dropPages (b : Backing) (p : Nat) : Except Fault Backing := do
  let store ← (Pages.dropPages b.store p).mapError ofPages
  .ok { b with store }

end Backing

/-- `vm_flags_to_size`. -/
def vmFlagsToSize (flags : Flags) : Nat :=
  if flags.has vmHuge2Mb then Frames.pageSize2Mb
  else if flags.has vmHuge1Gb then Frames.pageSize1Gb
  else pageSize

/-! ## Entries of one page -/

/-- `recursive_map_entry` for a mapping, with the new tables added to `vm->space`. -/
def mapEntry (b : Backing) (vm : VmMapping) (ptr phys : Nat) : Except Fault (Nat × Backing) := do
  let (entry, pages, tables) ← recursiveMapEntry ptr phys vm.flags b.tables
  .ok (entry, { b with
    tables
    tablePages := fun s => if s = vm.space then b.tablePages s ++ pages else b.tablePages s })

/-- `pgtable_update_entry_flags`. -/
def updateEntry (b : Backing) (entry : Nat) (flags : Flags) : Except Fault Backing := do
  let tables ← pgtableUpdateEntryFlags entry flags b.tables
  .ok { b with tables }

/-- `page_get_mapping`. -/
def pageGetMapping (x : Pages.Page) (vm : VmMapping) : Option Pages.Pte :=
  x.entries.find? fun pte => pte.address = vm.address

/-- `page_add_mapping(page, pte_struct_alloc(page, entry, vm))`. -/
def pageAddMapping (b : Backing) (page entry : Nat) (vm : VmMapping) : Except Fault Backing := do
  let store ← (Pages.getref b.store page).mapError ofPages
  let store ← (store.modify page fun x =>
    { x with entries := ⟨entry, vm.address⟩ :: x.entries }).mapError ofPages
  .ok { b with store }

/-- Map a page of a mapping, or update the entry that maps it. -/
def mapPage (b : Backing) (vm : VmMapping) (page ptr : Nat) : Except Fault Backing := do
  let x ← b.derefPage page
  match pageGetMapping x vm with
  | some pte => updateEntry b pte.entry vm.flags
  | none => do
    let (entry, b) ← mapEntry b vm ptr x.address
    pageAddMapping b page entry vm

/-- Take a page of a mapping out: `page_remove_mapping`, clear the flags of the entry, and
`pte_struct_free`. -/
def unmapPage (b : Backing) (vm : VmMapping) (page : Nat) : Except Fault Backing := do
  let x ← b.derefPage page
  match pageGetMapping x vm with
  | none => .ok b
  | some pte => do
    let store ← (b.store.modify page fun x =>
      { x with entries := x.entries.eraseP fun pte => pte.address = vm.address }).mapError ofPages
    let b ← updateEntry { b with store } pte.entry 0
    b.dropPages page

/-! ## `VM_TYPE_PHYS` -/

/-- The loop of `phys_type_map_internal`. -/
def physMapLoop (vm : VmMapping) (stride : Nat) :
    Nat → Nat → Nat → Backing → Except Fault Backing
  | 0, _, _, b => .ok b
  | count + 1, ptr, physPtr, b => do
    let (_, b) ← mapEntry b vm ptr physPtr
    physMapLoop vm stride count (addWord ptr stride) (addWord physPtr stride) b

/-- The assertions that the map and unmap functions begin with. -/
def rangeOk (vm : VmMapping) (size off : Nat) : Bool :=
  off % vmFlagsToSize vm.flags = 0 ∧ off + size ≤ vm.size

/-- `phys_type_map_internal`. -/
def physTypeMapInternal (b : Backing) (vm : VmMapping) (phys size off : Nat) :
    Except Fault Backing :=
  if ¬ rangeOk vm size off then .error .assertion
  else
    let stride := vmFlagsToSize vm.flags
    physMapLoop vm stride (size / stride) (addWord vm.address off) (addWord phys off) b

def physUnmapLoop (vm : VmMapping) (stride : Nat) : Nat → Nat → Backing → Except Fault Backing
  | 0, _, b => .ok b
  | count + 1, ptr, b => do
    let tables ← recursiveUnmapEntry ptr vm.flags b.tables
    physUnmapLoop vm stride count (addWord ptr stride) { b with tables }

/-- `phys_type_unmap_internal`. -/
def physTypeUnmapInternal (b : Backing) (vm : VmMapping) (size off : Nat) : Except Fault Backing :=
  if ¬ rangeOk vm size off then .error .assertion
  else
    let stride := vmFlagsToSize vm.flags
    physUnmapLoop vm stride (size / stride) (addWord vm.address off) b

/-! ## `VM_TYPE_PAGE` -/

def pageMapLoop (vm : VmMapping) (stride : Nat) : Nat → Nat → Nat → Backing → Except Fault Backing
  | 0, _, _, b => .ok b
  | count + 1, ptr, curr, b =>
    -- the list ends before the mapping does
    if curr = 0 then .error .panic
    else do
      let b ← mapPage b vm curr ptr
      let x ← b.derefPage curr
      pageMapLoop vm stride count (addWord ptr stride) x.next b

/-- `page_type_map_internal`. -/
def pageTypeMapInternal (b : Backing) (vm : VmMapping) (pages size off : Nat) :
    Except Fault Backing :=
  if ¬ rangeOk vm size off then .error .assertion
  else
    let stride := vmFlagsToSize vm.flags
    pageMapLoop vm stride (size / stride) (addWord vm.address off) pages b

/-- The first loop of `page_type_unmap_internal`: the page at an offset. -/
def pageAtOffset (b : Backing) : Nat → Nat → Except Fault Nat
  | 0, curr => .ok curr
  | n + 1, curr =>
    if curr = 0 then .error .panic
    else do
      let x ← b.derefPage curr
      pageAtOffset b n x.next

def pageUnmapLoop (vm : VmMapping) (stride maxPtr : Nat) :
    Nat → Nat → Nat → Backing → Except Fault Backing
  | 0, _, _, _ => .error .diverged
  | fuel + 1, ptr, curr, b =>
    if ptr < maxPtr ∧ curr ≠ 0 then do
      let b ← unmapPage b vm curr
      let x ← b.derefPage curr
      pageUnmapLoop vm stride maxPtr fuel (addWord ptr stride) x.next b
    else .ok b

/-- `page_type_unmap_internal`. -/
def pageTypeUnmapInternal (b : Backing) (vm : VmMapping) (size off : Nat) : Except Fault Backing :=
  if ¬ rangeOk vm size off then .error .assertion
  else do
    let stride := vmFlagsToSize vm.flags
    let curr ← pageAtOffset b (off / stride) vm.data
    let ptr := addWord vm.address off
    pageUnmapLoop vm stride (addWord ptr size) (size / stride + 2) ptr curr b

/-- `page_type_split_internal`: the pages that stay, and those of the sibling. -/
def pageTypeSplitInternal (b : Backing) (pages off : Nat) : Except Fault (Nat × Nat × Backing) := do
  let x ← b.derefPage pages
  if ¬ x.head then .error .assertion
  else do
    let (store, head, tail) ← (Pages.pageListSplit b.store pages (off / x.size) 0).mapError ofPages
    .ok (head, tail, { b with store })

/-- `page_type_join_internal`. -/
def pageTypeJoinInternal (b : Backing) (pages other : Nat) : Except Fault (Nat × Backing) :=
  if pages = 0 then .ok (other, b)
  else do
    let x ← b.derefPage pages
    let y ← b.derefPage other
    if ¬ x.head ∨ ¬ y.head then .error .assertion
    else do
      let (store, head) ← (Pages.pageListJoin b.store pages other).mapError ofPages
      .ok (head, { b with store })

/-! ## Page caches -/

/-- `PGCACHE_FANOUT`. -/
def pgcacheFanout : Nat := 16

/-- `slot_start` of the visitor: the shift is done on an `int`, with the count modulo `32`. -/
def slotStart (i s : Nat) : Nat := ((BitVec.ofNat 32 i <<< (s % 32)).signExtend 64).toNat

/-- `slot_end` of the visitor. -/
def slotEnd (i s : Nat) : Nat := addWord (slotStart i s) (2 ^ s % word)

/-- The pages below one node of the tree, in the order of the visitor: `depth` levels are left, and
the levels above have fixed the page number up to multiples of `scale`. -/
def visitNode (startOff endOff : Nat) : Nat → Nat → Nat → List Nat
  | 0, idx, scale => (List.range pgcacheFanout).flatMap fun i =>
    if slotEnd i 0 ≤ startOff ∨ endOff ≤ slotStart i 0 then [] else [idx + i * scale]
  | depth + 1, idx, scale => (List.range pgcacheFanout).flatMap fun i =>
    if slotEnd i (4 * (depth + 1)) ≤ startOff ∨ endOff ≤ slotStart i (4 * (depth + 1)) then []
    else visitNode startOff endOff depth (idx + i * scale) (scale * pgcacheFanout)

namespace PgCache

/-- `max_capacity`. -/
def maxCapacity (c : PgCache) : Nat := 2 ^ ((c.order + 1) * 4) * c.pgSize % word

/-- The page structs that `pgcache_visit_pages` visits, in order. -/
def visited (c : PgCache) (startOff endOff : Nat) : List Nat :=
  let endOff := if endOff = 0 then c.maxCapacity else min endOff c.maxCapacity
  if endOff ≤ startOff then []
  else ((visitNode startOff endOff c.order 0 1).map c.page).filter (· ≠ 0)

end PgCache

/-- Dropping the pages of a cache. -/
def dropAll : List Nat → Backing → Except Fault Backing
  | [], b => .ok b
  | p :: ps, b => do
    let b ← b.dropPages p
    dropAll ps b

/-- `pgcache_free`. -/
def pgcacheFree (b : Backing) (cache : Nat) : Except Fault Backing :=
  if cache = 0 then .ok b
  else do
    let c ← b.derefCache cache
    if c.refcount = 1 then do
      let b ← dropAll (c.visited 0 c.maxCapacity) (b.setCache cache (some { c with refcount := 0 }))
      .ok (b.setCache cache none)
    else .ok (b.setCache cache (some { c with refcount := c.refcount - 1 }))

/-- `getref` of a page cache. -/
def pgcacheGetref (b : Backing) (cache : Nat) : Except Fault Backing :=
  if cache = 0 then .ok b
  else do
    let c ← b.derefCache cache
    .ok (b.setCache cache (some { c with refcount := c.refcount + 1 }))

/-! ## Files -/

/-- `vm_file_free`. -/
def vmFileFree (b : Backing) (file : Nat) : Except Fault Backing := do
  let f ← b.derefFile file
  if f.vnode ≠ 0 then .ok (b.setFile file { f with vnode := 0, pgcache := 0 })
  else do
    let b ← pgcacheFree b f.pgcache
    .ok (b.setFile file { f with pgcache := 0 })

/-- `vm_file_split`: the new file, or `0`. -/
def vmFileSplit (b : Backing) (file off : Nat) : Except Fault (Nat × Backing) := do
  let f ← b.derefFile file
  if off % f.pgSize ≠ 0 then .error .assertion
  else if f.size ≤ off then .ok (0, b)
  else do
    let b ← pgcacheGetref b f.pgcache
    let (new, b) := b.allocFile { f with size := f.size - off, off := f.off + off }
    .ok (new, b.setFile file { f with size := off })

/-- `vm_file_merge`. -/
def vmFileMerge (b : Backing) (file other : Nat) : Except Fault Backing := do
  let f ← b.derefFile file
  let o ← b.derefFile other
  if f.pgSize ≠ o.pgSize ∨ f.vnode ≠ o.vnode ∨ f.pgcache ≠ o.pgcache then .error .assertion
  else vmFileFree (b.setFile file { f with size := f.size + o.size }) other

/-- `file_map_update_cb` on a list of pages; `off` is `cb->off`. -/
def fileUpdateLoop (vm : VmMapping) (unmap : Bool) :
    List Nat → Nat → Backing → Except Fault Backing
  | [], _, b => .ok b
  | page :: pages, off, b => do
    let x ← b.derefPage page
    let b ← if unmap then unmapPage b vm page else mapPage b vm page (addWord vm.address off)
    fileUpdateLoop vm unmap pages (off + x.size) b

/-- `vm_file_visit_pages` with `file_map_update_cb`. -/
def fileUpdate (b : Backing) (vm : VmMapping) (unmap : Bool) (startOff endOff : Nat) :
    Except Fault Backing := do
  let f ← b.derefFile vm.data
  let c ← b.derefCache f.pgcache
  fileUpdateLoop vm unmap (c.visited startOff endOff) startOff b

/-- `file_type_map_internal`. -/
def fileTypeMapInternal (b : Backing) (vm : VmMapping) (off : Nat) : Except Fault Backing :=
  fileUpdate b vm false off vm.size

/-- `file_type_unmap_internal`. -/
def fileTypeUnmapInternal (b : Backing) (vm : VmMapping) (off : Nat) : Except Fault Backing :=
  fileUpdate b vm true off vm.size

/-! ## All types -/

/-- The protection and the `VM_MAPPED` flag that `vm_update_internal` leaves. -/
def updatedFlags (flags prot : Flags) : Flags :=
  let prot := prot &&& vmProtMask
  let flags := flags &&& ~~~vmProtMask ||| prot
  if prot ≠ 0 then flags ||| vmMapped else flags &&& ~~~vmMapped

/-- The second half of `vm_update_internal`, with the new flags in `vm`. -/
def updateTables (b : Backing) (vm : VmMapping) (mapped : Bool) : Except Fault Backing :=
  match vm.type, mapped with
  | .rsvd, _ => .error .panic
  | .phys, true => physTypeMapInternal b vm vm.data vm.size 0
  | .phys, false => physTypeUnmapInternal b vm vm.size 0
  | .page, true => pageTypeMapInternal b vm vm.data vm.size 0
  | .page, false => pageTypeUnmapInternal b vm vm.size 0
  | .file, true => fileTypeMapInternal b vm 0
  | .file, false => fileTypeUnmapInternal b vm 0

/-- `vm_update_internal`. -/
def vmUpdateInternal (b : Backing) (vm : VmMapping) (prot : Flags) :
    Except Fault (VmMapping × Backing) := do
  let vm := { vm with flags := updatedFlags vm.flags prot }
  let b ← updateTables b vm (decide (prot &&& vmProtMask ≠ 0))
  .ok (vm, b)

/-- `vm_split_internal`: the data of the mapping and of its sibling. -/
def vmSplitInternal (b : Backing) (vm : VmMapping) (off : Nat) :
    Except Fault (Nat × Nat × Backing) :=
  match vm.type with
  | .rsvd => .error .panic
  -- the sibling keeps the zero of `kmallocz`
  | .phys => .ok (vm.data, 0, b)
  | .page => pageTypeSplitInternal b vm.data off
  | .file => do
    let (new, b) ← vmFileSplit b vm.data off
    .ok (vm.data, new, b)

/-- `vm_join_internal`: the data of the joined mapping. -/
def vmJoinInternal (b : Backing) (vm other : VmMapping) : Except Fault (Nat × Backing) :=
  match vm.type with
  | .rsvd => .error .panic
  | .phys => .ok (vm.data, b)
  | .page => pageTypeJoinInternal b vm.data other.data
  | .file => do
    let b ← vmFileMerge b vm.data other.data
    .ok (vm.data, b)

/-- `vm_free_internal`. -/
def vmFreeInternal (b : Backing) (vm : VmMapping) : Except Fault Backing :=
  match vm.type with
  | .rsvd => .error .panic
  | .phys => physTypeUnmapInternal b vm vm.size 0
  | .page => do
    let b ← pageTypeUnmapInternal b vm vm.size 0
    b.dropPages vm.data
  | .file => do
    let b ← fileTypeUnmapInternal b vm 0
    vmFileFree b vm.data

end Osdev.Vm
