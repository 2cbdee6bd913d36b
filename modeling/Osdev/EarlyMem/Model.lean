import Osdev.Base
import Osdev.Lib.Except
import Osdev.Lib.Range

/-!
# Early physical memory (`kernel/mm/init.c`, `init_mem_zones` of `kernel/mm/pmalloc.c`)

Before the frame allocators exist, pages come from one usable entry of the boot memory map: the
*reserved entry*. `mm_early_init` picks it, `mm_early_alloc_pages` and `mm_early_reserve_pages` take
from it, and `init_mem_zones` gives what the entries of the map still say to frame allocators.

The state keeps, besides the C variables, the list of ranges that `mm_early_alloc_pages` returned
(`handed`) and the list of ranges that frame allocators were created for (`zones`). The page tables
that a mapping has to create depend on tables that the boot loader left, which the model does not
hold: `newTables va` is their number for a mapping at `va`. Heap allocations do not fail here.
-/

namespace Osdev.EarlyMem

open Osdev.Lib

/-- `SIZE_1MB`. -/
def size1Mb : Nat := 0x100000
/-- `SIZE_8MB`. -/
def size8Mb : Nat := 8 * size1Mb
/-- `SIZE_16MB`. -/
def size16Mb : Nat := 16 * size1Mb
/-- `KERNEL_RESERVED_VA`. -/
def kernelReservedVa : Nat := 0xFFFFFF8000C00000

/-- Pages of `KERNEL_HEAP_SIZE`. -/
def heapPages : Nat := 1536

/-- The `type` field of a memory map entry; `invalid` is any number that is not listed. -/
inductive MemType where
  | unknown
  | unusable
  | usable
  | reserved
  | acpi
  | acpiNvs
  | mappedIo
  | efiRuntimeCode
  | efiRuntimeData
  | invalid
  deriving DecidableEq, Repr

/-- `memory_map_entry_t`. -/
structure Entry where
  type : MemType
  base : Nat
  size : Nat
  deriving DecidableEq, Repr

def Entry.range (e : Entry) : Range := ⟨e.base, e.size⟩

/-- The fields of `boot_info_v2_t` that early memory reads. -/
structure BootInfo where
  kernelPhysAddr : Nat
  kernelSize : Nat
  initrdAddr : Nat
  initrdSize : Nat
  memMap : List Entry

def BootInfo.kernel (b : BootInfo) : Range := ⟨b.kernelPhysAddr, b.kernelSize⟩
def BootInfo.initrd (b : BootInfo) : Range := ⟨b.initrdAddr, b.initrdSize⟩

/-- The panics of the early allocator. -/
inductive Panic where
  | badMemoryMap
  | twoKernelEntries
  | kernelNotAtStart
  | noKernelEntry
  | noReservedEntry
  | initrdNotReserved
  | initrdInReserved
  | outOfReserved
  | noMoreReservedPages
  | zoneSpan
  | initrdUnaligned
  | crossesZone
  | crossesRegion
  | initrdManaged
  deriving DecidableEq, Repr

/-! ## Zones -/

/-- `zone_type_t`. -/
inductive Zone where
  | low
  | dma
  | normal
  | high
  deriving DecidableEq, Repr

namespace Zone

def toNat : Zone → Nat
  | low => 0
  | dma => 1
  | normal => 2
  | high => 3

/-- `zone_limits`. -/
def limit : Zone → Nat
  | low => size1Mb
  | dma => size16Mb
  | normal => 0x100000000
  | high => word - 1

end Zone

/-- `get_mem_zone_type`. -/
def getMemZoneType (addr : Nat) : Zone :=
  if addr < Zone.low.limit then .low
  else if addr < Zone.dma.limit then .dma
  else if addr < Zone.normal.limit then .normal
  else .high

/-! ## The state -/

structure Early where
  memMap : List Entry
  /-- index of `reserved_map_entry` -/
  reservedEntry : Nat
  reservedStart : Nat
  reservedEnd : Nat
  reservedPtr : Nat
  reservedVaPtr : Nat
  /-- `reserved_pages` of `pmalloc.c` -/
  reservedPages : Nat
  handed : List Range
  zones : List (Zone × Range)
  deriving DecidableEq, Repr

/-! ## `mm_early_init` -/

/-- The variables of the loop over the memory map. -/
structure Scan where
  kernelEntry : Option Nat
  reservedEntry : Option Nat
  reservedStart : Nat
  reservedEnd : Nat
  reservedPtr : Nat
  initrdReserved : Bool
  deriving DecidableEq

def Scan.empty : Scan := ⟨none, none, 0, 0, 0, false⟩

/-- Whether the loop takes this entry for the reserved one. -/
def Entry.suitable (e : Entry) : Bool :=
  e.type == .usable && decide (size16Mb ≤ e.base) && decide (size8Mb ≤ e.size)

/-- Pick the entry for the heap and reserved memory, and skip the initrd at its start. -/
def Scan.pickReserved (b : BootInfo) (i : Nat) (e : Entry) (s : Scan) : Scan :=
  if s.reservedEntry = none ∧ e.suitable then
    let stop := (e.base + e.size) % word
    if b.initrdAddr ≠ 0 ∧ e.base = b.initrdAddr then
      { s with reservedEntry := some i, reservedStart := (e.base + b.initrdSize) % word,
               reservedEnd := stop, reservedPtr := (e.base + b.initrdSize) % word,
               initrdReserved := true }
    else
      { s with reservedEntry := some i, reservedStart := e.base, reservedEnd := stop,
               reservedPtr := e.base }
  else s

/-- Recognise the entry that holds the kernel image. -/
def Scan.pickKernel (b : BootInfo) (i : Nat) (e : Entry) (s : Scan) : Except Panic Scan :=
  let kernelEnd := (b.kernelPhysAddr + b.kernelSize) % word
  if e.base ≤ b.kernelPhysAddr ∧ kernelEnd ≤ (e.base + e.size) % word then
    if s.kernelEntry ≠ none then .error .twoKernelEntries
    else if b.kernelPhysAddr ≠ e.base then .error .kernelNotAtStart
    else .ok { s with kernelEntry := some i }
  else .ok s

/-- The loop of `mm_early_init` over the memory map. -/
def scan (b : BootInfo) : Nat → List Entry → Scan → Except Panic Scan
  | _, [], s => .ok s
  | i, e :: es, s =>
    if e.type = .invalid then .error .badMemoryMap
    else do
      let s ← Scan.pickKernel b i e (s.pickReserved b i e)
      scan b (i + 1) es s

/-- `mm_early_alloc_pages`. -/
def earlyAllocPages (s : Early) (count : Nat) : Except Panic (Nat × Early) :=
  let addr := s.reservedPtr
  let size := pagesToSize count
  let ptr := (s.reservedPtr + size) % word
  if s.reservedEnd < ptr then .error .outOfReserved
  else
    .ok (addr, { s with
      reservedPtr := ptr
      memMap := s.memMap.modify s.reservedEntry fun e =>
        { e with base := ptr, size := (word + e.size - size) % word }
      handed := s.handed ++ [⟨addr, count * pageSize⟩] })

/-- `mm_early_reserve_pages`. -/
def earlyReservePages (s : Early) (count : Nat) : Except Panic Early :=
  let memMap := s.memMap.modify s.reservedEntry fun e =>
    { e with base := (e.base + pagesToSize count) % word
             size := (word + e.size - pagesToSize count) % word }
  if (memMap[s.reservedEntry]?.any fun e => decide (s.reservedEnd < e.base)) then
    .error .outOfReserved
  else .ok { s with memMap := memMap }

/-- `mm_early_init`, up to the first allocation of `mm_init_kheap`. -/
def earlyInit (b : BootInfo) : Except Panic Early := do
  let s ← scan b 0 b.memMap Scan.empty
  match s.kernelEntry, s.reservedEntry with
  | none, _ => .error .noKernelEntry
  | some _, none => .error .noReservedEntry
  | some k, some r =>
    let kernelEnd := (b.kernelPhysAddr + b.kernelSize) % word
    let memMap := b.memMap.modify k fun e =>
      { e with base := kernelEnd, size := (word + e.size - b.kernelSize) % word }
    if s.initrdReserved = false then .error .initrdNotReserved
    else
      let initrdEnd := (b.initrdAddr + b.initrdSize) % word
      if b.initrdAddr ≠ 0 ∧ ¬ ((b.initrdAddr < s.reservedStart ∧ initrdEnd ≤ s.reservedStart) ∨
          s.reservedEnd ≤ b.initrdAddr) then .error .initrdInReserved
      else
        let early : Early :=
          { memMap := memMap, reservedEntry := r, reservedStart := s.reservedStart,
            reservedEnd := s.reservedEnd, reservedPtr := s.reservedPtr,
            reservedVaPtr := kernelReservedVa, reservedPages := 128, handed := [], zones := [] }
        (·.2) <$> earlyAllocPages early heapPages

/-! ## Calls before `init_mem_zones` -/

inductive Call where
  | alloc (count : Nat)
  | reserve (count : Nat)
  deriving DecidableEq, Repr

def Call.run (s : Early) : Call → Except Panic Early
  | .alloc n => (·.2) <$> earlyAllocPages s n
  | .reserve n => earlyReservePages s n

def runCalls : Early → List Call → Except Panic Early
  | s, [] => .ok s
  | s, c :: cs => do
    let s ← c.run s
    runCalls s cs

/-! ## `init_mem_zones` -/

/-- `n` page tables, each taken with its own `mm_early_alloc_pages(1)`. -/
def allocTables : Nat → Early → Except Panic Early
  | 0, s => .ok s
  | n + 1, s => do
    let (_, s) ← earlyAllocPages s 1
    allocTables n s

/-- `bitmap_fa_init`: a large bitmap is taken from early memory, a small one from the heap. -/
def bitmapFaInit (newTables : Nat → Nat) (s : Early) (size : Nat) : Except Panic Early :=
  let numFrames := align size pageSize / pageSize
  let nbytes := align numFrames 8 / 8
  if pagesToSize 2 ≤ nbytes then
    let numBmpPages := sizeToPages nbytes
    if s.reservedPages < numBmpPages then .error .noMoreReservedPages
    else do
      let (_, s) ← earlyAllocPages s numBmpPages
      let s ← allocTables (newTables s.reservedVaPtr)
        { s with reservedVaPtr := (s.reservedVaPtr + pageSize) % word }
      .ok { s with reservedPages := s.reservedPages - numBmpPages }
  else .ok s

/-- `new_frame_allocator`, and its insertion in the list of `zone`. -/
def newFrameAllocator (newTables : Nat → Nat) (zone : Zone) (base size : Nat) (s : Early) :
    Except Panic Early := do
  let s ← bitmapFaInit newTables s size
  .ok { s with zones := s.zones ++ [(zone, ⟨base, size⟩)] }

/-- The body of the loop of `init_mem_zones`, for the entry `e` as it stands now. -/
def zoneRange (newTables : Nat → Nat) (base size : Nat) (s : Early) : Except Panic Early :=
  let type := getMemZoneType base
  let endType := getMemZoneType ((word + base + size - 1) % word)
  if type ≠ endType then
    if endType.toNat ≠ type.toNat + 1 then .error .zoneSpan
    else do
      let endBase := type.limit
      let endSize := (word + base + size - endBase) % word
      let s ← newFrameAllocator newTables endType endBase endSize s
      newFrameAllocator newTables type base ((word + endBase - base) % word) s
  else newFrameAllocator newTables type base size s

def zoneEntry (newTables : Nat → Nat) (i : Nat) (s : Early) : Except Panic Early :=
  match s.memMap[i]? with
  | none => .ok s
  | some e => if e.type ≠ .usable then .ok s else zoneRange newTables e.base e.size s

/-- The loop of `init_mem_zones`. -/
def zoneLoop (newTables : Nat → Nat) : List Nat → Early → Except Panic Early
  | [], s => .ok s
  | i :: is, s => do
    let s ← zoneEntry newTables i s
    zoneLoop newTables is s

/-- `locate_owning_allocator`: the position of the allocator. -/
def locateOwningAllocator (zones : List (Zone × Range)) (addr : Nat) : Option Nat :=
  zones.findIdx? fun f =>
    f.1 == getMemZoneType addr && decide (f.2.base ≤ addr ∧ addr < (f.2.base + f.2.size) % word)

/-- `reserve_pages(PG_RSRV_PHYS, address, count, PAGE_SIZE)` for the initrd. -/
def reserveInitrd (b : BootInfo) (s : Early) : Except Panic Early :=
  if b.initrdAddr = 0 then .ok s
  else
    let count := sizeToPages b.initrdSize
    let last := (word + b.initrdAddr + pagesToSize count - 1) % word
    if isAligned b.initrdAddr pageSize = false then .error .initrdUnaligned
    else if count = 0 then .error .initrdManaged
    else if getMemZoneType b.initrdAddr ≠ getMemZoneType last then .error .crossesZone
    else if locateOwningAllocator s.zones b.initrdAddr ≠ locateOwningAllocator s.zones last then
      .error .crossesRegion
    else if locateOwningAllocator s.zones b.initrdAddr = none then .ok s
    else .error .initrdManaged

/-- `init_mem_zones`. -/
def initMemZones (newTables : Nat → Nat) (b : BootInfo) (s : Early) : Except Panic Early := do
  let s ← earlyReservePages s s.reservedPages
  let s ← zoneLoop newTables (List.range s.memMap.length) s
  reserveInitrd b s

end Osdev.EarlyMem
