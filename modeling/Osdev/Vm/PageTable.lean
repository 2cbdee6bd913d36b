import Osdev.Vm.Flags

/-!
# Page tables (`kernel/mm/pgtable.c`)

The tables are words of physical memory. The kernel reaches them through virtual addresses: entry
`R_ENTRY` of the top table points to the top table itself, so that a walk which passes through it
ends one level early and reads a table as if it were a page. The model does what the processor does:
every access of the kernel to a table is a walk from `cr3`, and an access that is not mapped is a
page fault. Translation caches are left out; the source flushes them after each change.
-/

namespace Osdev.Vm

/-- How the kernel can fail. -/
inductive Fault where
  | assertion
  /-- a call of `panic` -/
  | panic
  | null
  /-- an access of the kernel to an address that is not mapped -/
  | pageFault
  /-- an access to a freed object -/
  | freed
  /-- a loop that does not end -/
  | diverged
  deriving DecidableEq, Repr

/-! ## Entries -/

abbrev Entry := BitVec 64

/-- `PE_PRESENT`. -/
def pePresent : Entry := 1#64 <<< 0
/-- `PE_WRITE`. -/
def peWrite : Entry := 1#64 <<< 1
/-- `PE_USER`. -/
def peUser : Entry := 1#64 <<< 2
/-- `PE_WRITE_THROUGH`. -/
def peWriteThrough : Entry := 1#64 <<< 3
/-- `PE_CACHE_DISABLE`. -/
def peCacheDisable : Entry := 1#64 <<< 4
/-- `PE_SIZE`. -/
def peSize : Entry := 1#64 <<< 7
/-- `PE_GLOBAL`. -/
def peGlobal : Entry := 1#64 <<< 8
/-- `PE_NO_EXECUTE`. -/
def peNoExecute : Entry := 1#64 <<< 63

/-- `PE_FLAGS_MASK`. -/
def peFlagsMask : Entry := 0xFFF#64
/-- `PE_FRAME_MASK`. -/
def peFrameMask : Entry := 0xFFFFFFFFFFFFF000#64

namespace Entry

def present (e : Entry) : Bool := e.getLsbD 0

/-- Bit 7: the entry maps a large page, unless it stands in a table of the last level. -/
def large (e : Entry) : Bool := e.getLsbD 7

/-- The physical address in an entry that maps a page of `2 ^ k` bytes, or a table for `k = 12`. -/
def base (e : Entry) (k : Nat) : Nat := e.toNat % 2 ^ 52 / 2 ^ k * 2 ^ k

end Entry

/-- `flag` if the condition holds. -/
def flagIf (c : Bool) (flag : Entry) : Entry := if c then flag else 0

/-- `vm_flags_to_pe_flags`. The result is a `uint16_t`, so `PE_NO_EXECUTE` does not survive. -/
def vmFlagsToPeFlags (vmFlags : Flags) : BitVec 16 :=
  (pePresent ||| flagIf (vmFlags.has vmWrite) peWrite ||| flagIf (vmFlags.has vmUser) peUser |||
    flagIf (vmFlags.has vmNocache) peCacheDisable |||
    flagIf (vmFlags.has vmWritethru) peWriteThrough |||
    flagIf (!vmFlags.has vmExec) peNoExecute ||| flagIf (vmFlags.has vmGlobal) peGlobal |||
    flagIf (vmFlags.has vmHuge2Mb || vmFlags.has vmHuge1Gb) peSize).setWidth 16

/-! ## Levels -/

/-- `pg_level_t`. -/
inductive PgLevel where
  | pt
  | pd
  | pdp
  | pml4
  deriving DecidableEq, Repr

namespace PgLevel

def toNat : PgLevel → Nat
  | pt => 0
  | pd => 1
  | pdp => 2
  | pml4 => 3

/-- `pg_level_to_shift`. -/
def shift (level : PgLevel) : Nat := 12 + level.toNat * 9

/-- The levels that a loop from `PG_LEVEL_PML4` down to above `level` visits. -/
def above : PgLevel → List PgLevel
  | pt => [pml4, pdp, pd]
  | pd => [pml4, pdp]
  | pdp => [pml4]
  | pml4 => []

/-- `level - 1`. -/
def below : PgLevel → PgLevel
  | pml4 => pdp
  | pdp => pd
  | _ => pt

end PgLevel

/-- `NUM_ENTRIES`. -/
def numEntries : Nat := 512

/-- `R_ENTRY`. -/
def rEntry : Nat := 510

/-- `index_for_pg_level`. -/
def indexForPgLevel (addr : Nat) (level : PgLevel) : Nat := addr / 2 ^ level.shift % numEntries

/-- `get_virt_addr`. The indices are below `512`, so the bits do not overlap. -/
def getVirtAddr (l4 l3 l2 l1 : Nat) : Nat :=
  0xFFFF * 2 ^ 48 + l4 * 2 ^ 39 + l3 * 2 ^ 30 + l2 * 2 ^ 21 + l1 * 2 ^ 12

/-- `get_pgtable_address`: where the table of a level on the path of an address can be seen. -/
def getPgtableAddress (va : Nat) : PgLevel → Nat
  | .pml4 => getVirtAddr rEntry rEntry rEntry rEntry
  | .pdp => getVirtAddr rEntry rEntry rEntry (indexForPgLevel va .pml4)
  | .pd => getVirtAddr rEntry rEntry (indexForPgLevel va .pml4) (indexForPgLevel va .pdp)
  | .pt => getVirtAddr rEntry (indexForPgLevel va .pml4) (indexForPgLevel va .pdp)
      (indexForPgLevel va .pd)

/-- The level of the entries of a mapping, as `recursive_map_entry` and its siblings choose it. -/
def mapLevel (vmFlags : Flags) : PgLevel :=
  if vmFlags.has vmHuge2Mb then .pd else if vmFlags.has vmHuge1Gb then .pdp else .pt

/-! ## The processor -/

/-- The words of physical memory, by their address. -/
abbrev Phys := Nat → Entry

namespace Phys

/-- Entry `i` of the table at `table`. -/
def entry (m : Phys) (table i : Nat) : Entry := m (table + 8 * i)

def set (m : Phys) (a : Nat) (e : Entry) : Phys := fun b => if b = a then e else m b

/-- Clear the page at `a`. -/
def zeroPage (m : Phys) (a : Nat) : Phys := fun b => if a ≤ b ∧ b < a + pageSize then 0 else m b

/-- The walk from the last table. -/
def walkPt (m : Phys) (table va : Nat) : Option Nat :=
  let e := m.entry table (indexForPgLevel va .pt)
  if e.present then some (e.base 12 + va % 2 ^ 12) else none

/-- The walk from a page directory. -/
def walkPd (m : Phys) (table va : Nat) : Option Nat :=
  let e := m.entry table (indexForPgLevel va .pd)
  if ¬ e.present then none
  else if e.large then some (e.base 21 + va % 2 ^ 21)
  else m.walkPt (e.base 12) va

/-- The walk from a page-directory-pointer table. -/
def walkPdp (m : Phys) (table va : Nat) : Option Nat :=
  let e := m.entry table (indexForPgLevel va .pdp)
  if ¬ e.present then none
  else if e.large then some (e.base 30 + va % 2 ^ 30)
  else m.walkPd (e.base 12) va

/-- The walk from the top table: the physical address of `va`. Bit 7 of a top entry is reserved. -/
def translate (m : Phys) (cr3 va : Nat) : Option Nat :=
  let e := m.entry cr3 (indexForPgLevel va .pml4)
  if ¬ e.present ∨ e.large then none
  else m.walkPdp (e.base 12) va

end Phys

/-- The tables in use, and the frames that `alloc_pages` will return: frame `n` for call `n`. -/
structure Tables where
  phys : Phys
  cr3 : Nat
  supply : Nat → Nat
  used : Nat

namespace Tables

def load (t : Tables) (va : Nat) : Except Fault Entry :=
  match t.phys.translate t.cr3 va with
  | none => .error .pageFault
  | some pa => .ok (t.phys pa)

def store (t : Tables) (va : Nat) (e : Entry) : Except Fault Tables :=
  match t.phys.translate t.cr3 va with
  | none => .error .pageFault
  | some pa => .ok { t with phys := t.phys.set pa e }

/-- `memset(ptr, 0, PAGE_SIZE)`. -/
def clear (t : Tables) (va : Nat) : Except Fault Tables :=
  match t.phys.translate t.cr3 va with
  | none => .error .pageFault
  | some pa => .ok { t with phys := t.phys.zeroPage pa }

/-- `alloc_pages(1)`, as the address of the frame. -/
def allocPage (t : Tables) : Nat × Tables := (t.supply t.used, { t with used := t.used + 1 })

end Tables

/-! ## The recursive interface -/

/-- `USER_SPACE_START`. -/
def userSpaceStart : Nat := 0x0000000000000000

/-- `USER_SPACE_END`. -/
def userSpaceEnd : Nat := 0x00007FFFFFFFFFFF

/-- `KERNEL_SPACE_START`. -/
def kernelSpaceStart : Nat := 0xFFFF800000000000

/-- `KERNEL_SPACE_END`. -/
def kernelSpaceEnd : Nat := 0xFFFFFFFFFFFFFFFF

/-- The flags of a new table entry in `recursive_map_entry`. -/
def tablePgFlags (va : Nat) (vmFlags : Flags) : Entry :=
  peWrite ||| pePresent ||| flagIf (va < userSpaceEnd) peUser |||
    flagIf (vmFlags.has vmHuge2Mb || vmFlags.has vmHuge1Gb) peSize

/-- One round of the loop of `recursive_map_entry`, with the frames that became tables. -/
def mapStep (va : Nat) (vmFlags : Flags) (level : PgLevel) (t : Tables) (pages : List Nat) :
    Except Fault (Tables × List Nat) := do
  let slot := getPgtableAddress va level + 8 * indexForPgLevel va level
  let e ← t.load slot
  let next := e &&& peFrameMask
  if next = 0 then do
    let (frame, t) := t.allocPage
    let t ← t.store slot (BitVec.ofNat 64 frame ||| tablePgFlags va vmFlags)
    let t ← t.clear (getPgtableAddress va level.below)
    .ok (t, pages ++ [frame])
  else if ¬ e.present then do
    let t ← t.store slot (next ||| tablePgFlags va vmFlags)
    .ok (t, pages)
  else .ok (t, pages)

def mapLoop (va : Nat) (vmFlags : Flags) :
    List PgLevel → Tables → List Nat → Except Fault (Tables × List Nat)
  | [], t, pages => .ok (t, pages)
  | level :: levels, t, pages => do
    let (t, pages) ← mapStep va vmFlags level t pages
    mapLoop va vmFlags levels t pages

/-- `SIZE_2MB` or `SIZE_1GB` alignment of a large mapping. -/
def largeAligned (va : Nat) (vmFlags : Flags) : Bool :=
  if vmFlags.has vmHuge2Mb then isAligned va (2 ^ 21)
  else if vmFlags.has vmHuge1Gb then isAligned va (2 ^ 30)
  else true

/-- `recursive_map_entry`: the address of the entry, and the frames that became tables. -/
def recursiveMapEntry (va pa : Nat) (vmFlags : Flags) (t : Tables) :
    Except Fault (Nat × List Nat × Tables) :=
  if ¬ largeAligned va vmFlags then .error .assertion
  else do
    let level := mapLevel vmFlags
    let (t, pages) ← mapLoop va vmFlags level.above t []
    let slot := getPgtableAddress va level + 8 * indexForPgLevel va level
    let t ← t.store slot (BitVec.ofNat 64 pa ||| (vmFlagsToPeFlags vmFlags).setWidth 64)
    .ok (slot, pages, t)

/-- `recursive_unmap_entry`. -/
def recursiveUnmapEntry (va : Nat) (vmFlags : Flags) (t : Tables) : Except Fault Tables :=
  let level := mapLevel vmFlags
  t.store (getPgtableAddress va level + 8 * indexForPgLevel va level) 0

/-- `pgtable_update_entry_flags`, for the entry that is seen at `pte`. -/
def pgtableUpdateEntryFlags (pte : Nat) (vmFlags : Flags) (t : Tables) : Except Fault Tables := do
  let e ← t.load pte
  t.store pte (e &&& peFrameMask ||| (vmFlagsToPeFlags vmFlags).setWidth 64)

end Osdev.Vm
