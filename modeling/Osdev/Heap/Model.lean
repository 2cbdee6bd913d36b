import Osdev.Base
import Osdev.Queue
import Osdev.Lib.Mem

/-!
# The kernel heap (`kernel/mm/heap.c`)

The heap is a run of chunks inside `[virt_addr, virt_addr + size)`. Each chunk starts with a
24-byte header in the heap memory itself; free chunks are linked through their headers. The model
keeps the memory as bytes, so a header is whatever the bytes say, and owners of live blocks may
store anything inside their blocks.

Locks and the messages of `kprintf` are left out. A `panic` ends the run: it is the error of
`Except`.
-/

namespace Osdev.Heap

open Osdev.Lib

/-! ## Constants of `heap.h` and `mm_types.h` -/

/-- `CHUNK_MIN_SIZE`. -/
def chunkMinSize : Nat := 8
/-- `CHUNK_MAX_SIZE`. -/
def chunkMaxSize : Nat := 524288
/-- `CHUNK_SIZE_ALIGN`. -/
def chunkSizeAlign : Nat := 8
/-- `CHUNK_MIN_ALIGN`. -/
def chunkMinAlign : Nat := 4
/-- `CHUNK_MAGIC`. -/
def chunkMagic : Nat := 0xC0DE
/-- `HOLE_MAGIC`. -/
def holeMagic : Nat := 0xDEAD
/-- `KERNEL_HEAP_VA`. -/
def kernelHeapVa : Nat := 0xFFFFFF8000400000
/-- `KERNEL_HEAP_SIZE`. -/
def kernelHeapSize : Nat := 6 * 0x100000

/-- `sizeof(mm_chunk_t)`. -/
def chunkHeader : Nat := 24

/-- The ways the heap code panics. `diverge` is a loop that does not end. -/
inductive Panic where
  | invalidAlignment
  | requestTooLarge
  | outOfMemory
  | chunkLinked
  | nextChunkMagic
  | diverge
  deriving DecidableEq, Repr

/-! ## Chunk headers

`magic` and `prev_offset` are 16-bit fields, then a 32-bit word with `size` in its low 31 bits and
`free` in the top one, then the two list pointers.
-/

section Header

variable (m : Mem) (c : Nat)

def magic : Nat := m.read c 2
def sizeWord : Nat := m.read (c + 4) 4
def size : Nat := sizeWord m c % 2 ^ 31
def free : Bool := decide (2 ^ 31 ≤ sizeWord m c)
def listNext : Nat := m.read (c + 8) 8
def listPrev : Nat := m.read (c + 16) 8

def setMagic (v : Nat) : Mem := m.write c 2 v
def setPrevOffset (v : Nat) : Mem := m.write (c + 2) 2 v
def setSize (v : Nat) : Mem :=
  m.write (c + 4) 4 (v % 2 ^ 31 + if free m c then 2 ^ 31 else 0)
def setFree (b : Bool) : Mem := m.write (c + 4) 4 (size m c + if b then 2 ^ 31 else 0)
def setListNext (v : Nat) : Mem := m.write (c + 8) 8 v
def setListPrev (v : Nat) : Mem := m.write (c + 16) 8 v

end Header

/-! ## The heap -/

/-- `mm_heap_t` without its lock, with the memory it manages. -/
structure MmHeap where
  physAddr : Nat
  virtAddr : Nat
  /-- address of the last created chunk, `0` for `NULL` -/
  lastChunk : Nat
  /-- `chunks.first` -/
  first : Nat
  /-- `chunks.last` -/
  last : Nat
  size : Nat
  used : Nat
  allocCount : Nat
  freeCount : Nat
  allocSizes : List Nat
  mem : Mem

/-- The list of free chunks. -/
def chunks : ListStore MmHeap where
  first h := h.first
  last h := h.last
  next h a := listNext h.mem a
  prev h a := listPrev h.mem a
  setFirst v h := { h with first := v }
  setLast v h := { h with last := v }
  setNext a v h := { h with mem := setListNext h.mem a v }
  setPrev a v h := { h with mem := setListPrev h.mem a v }

/-- `END_ADDR(heap)`. -/
def MmHeap.endAddr (h : MmHeap) : Nat := (h.virtAddr + h.size) % word

/-- What `mm_init_kheap` leaves behind. The memory itself is not cleared. -/
def initKheap (physAddr : Nat) (mem : Mem) : MmHeap where
  physAddr := physAddr
  virtAddr := kernelHeapVa
  lastChunk := 0
  first := 0
  last := 0
  size := kernelHeapSize
  used := 0
  allocCount := 0
  freeCount := 0
  allocSizes := List.replicate 9 0
  mem := mem

/-- `get_hist_bucket`. -/
def getHistBucket (size : Nat) : Nat :=
  if 1 ≤ size ∧ size ≤ 8 then 0
  else if 9 ≤ size ∧ size ≤ 16 then 1
  else if 17 ≤ size ∧ size ≤ 32 then 2
  else if 33 ≤ size ∧ size ≤ 64 then 3
  else if 65 ≤ size ∧ size ≤ 128 then 4
  else if 129 ≤ size ∧ size ≤ 512 then 5
  else if 513 ≤ size ∧ size ≤ 1024 then 6
  else 7

/-- `get_next_chunk`. `0` is `NULL`. -/
def getNextChunk (h : MmHeap) (chunk : Nat) : Except Panic Nat :=
  if chunk = h.lastChunk then .ok 0
  else
    let nextAddr := (chunk + chunkHeader + size h.mem chunk) % word
    let nextAddr :=
      if nextAddr < h.endAddr ∧ h.mem.read nextAddr 2 = holeMagic then
        (nextAddr + h.mem.read (nextAddr + 2) 2) % word
      else nextAddr
    if h.endAddr ≤ nextAddr then .ok 0
    else if magic h.mem nextAddr ≠ chunkMagic then .error .nextChunkMagic
    else .ok nextAddr

/-! ## `__kmalloc` -/

/--
The best-fit loop over the free list. `best` is the C variable `chunk`.

The exact-match branch of the source is dead (`curr->size >= size` catches equality first), and is
kept as it stands.
-/
def searchChunks (m : Mem) (size alignment : Nat) : Nat → Nat → Nat → Except Panic Nat
  | 0, _, _ => .error .diverge
  | fuel + 1, curr, best =>
    if curr = 0 then .ok best
    else if (curr + chunkHeader) % word % alignment ≠ 0 then
      searchChunks m size alignment fuel (listNext m curr) best
    else if size ≤ Heap.size m curr then
      if best = 0 ∨ Heap.size m curr < Heap.size m best then
        searchChunks m size alignment fuel (listNext m curr) curr
      else
        searchChunks m size alignment fuel (listNext m curr) best
    else if Heap.size m curr = size then .ok curr
    else searchChunks m size alignment fuel (listNext m curr) best

/-- Hand out the free chunk that the search found. -/
def reuseChunk (h : MmHeap) (size chunk : Nat) : Nat × MmHeap :=
  let h := chunks.remove chunk h
  let h := { h with mem := setFree h.mem chunk false }
  let h := { h with used := (h.used + size + chunkHeader) % word }
  ((chunk + chunkHeader) % word, h)

/-- The space skipped to align a new chunk becomes a hole, or a free chunk if it is large enough. -/
def fillGap (h : MmHeap) (chunkAddr holeSize : Nat) : MmHeap :=
  if holeSize < chunkHeader + chunkMinSize then
    let m := h.mem.write chunkAddr 2 holeMagic
    let m := m.write (chunkAddr + 2) 2 holeSize
    { h with mem := m, used := (h.used + holeSize) % word }
  else
    let m := setMagic h.mem chunkAddr chunkMagic
    let m := setSize m chunkAddr (holeSize - chunkHeader)
    let m := setFree m chunkAddr true
    chunks.addFront chunkAddr { h with mem := m }

/-- Write the header of a new chunk and make it the last one. -/
def placeChunk (h : MmHeap) (size alignedChunk : Nat) : Nat × MmHeap :=
  let m := setMagic h.mem alignedChunk chunkMagic
  let m := setSize m alignedChunk size
  let m := setFree m alignedChunk false
  let m := setListNext m alignedChunk 0
  let m := setListPrev m alignedChunk 0
  let m :=
    if h.lastChunk ≠ 0 then
      setPrevOffset m alignedChunk ((word + alignedChunk - h.lastChunk) % word)
    else setPrevOffset m alignedChunk 0
  let h := { h with mem := m, lastChunk := alignedChunk,
                    used := (h.used + size + chunkHeader) % word }
  ((alignedChunk + chunkHeader) % word, h)

/-- Create a new chunk in the unmanaged part of the heap. -/
def newChunk (h : MmHeap) (size alignment : Nat) : Except Panic (Nat × MmHeap) :=
  let chunkAddr :=
    if h.lastChunk = 0 then h.virtAddr
    else (h.lastChunk + chunkHeader + Heap.size h.mem h.lastChunk) % word
  let alignedMem := align ((chunkAddr + chunkHeader) % word) alignment
  let alignedChunk := (word + alignedMem - chunkHeader) % word
  let h :=
    if alignedChunk ≠ chunkAddr then
      fillGap h chunkAddr ((word + alignedChunk - chunkAddr) % word)
    else h
  if h.endAddr < (alignedMem + size) % word then .error .outOfMemory
  else .ok (placeChunk h size alignedChunk)

/-- The statistics that `__kmalloc` keeps. -/
def countAlloc (h : MmHeap) (size : Nat) : MmHeap :=
  { h with allocCount := (h.allocCount + 1) % word,
           allocSizes := h.allocSizes.modify (getHistBucket size) (fun n => (n + 1) % word) }

/-- `__kmalloc`. -/
def kmallocInternal (h : MmHeap) (size alignment : Nat) : Except Panic (Nat × MmHeap) :=
  if alignment = 0 ∨ isPow2 alignment = false then .error .invalidAlignment
  else if size = 0 then .ok (0, h)
  else if chunkMaxSize < size then .error .requestTooLarge
  else
    let h := countAlloc h size
    let size := align (max size chunkMinSize) chunkSizeAlign
    if h.first ≠ 0 then
      match searchChunks h.mem size alignment h.size h.first 0 with
      | .error e => .error e
      | .ok chunk =>
        if chunk ≠ 0 then .ok (reuseChunk h size chunk) else newChunk h size alignment
    else newChunk h size alignment

/-- `kmalloc`. -/
def kmalloc (h : MmHeap) (size : Nat) : Except Panic (Nat × MmHeap) :=
  kmallocInternal h size chunkMinAlign

/-- `kmallocz`. -/
def kmallocz (h : MmHeap) (size : Nat) : Except Panic (Nat × MmHeap) :=
  match kmallocInternal h size chunkMinAlign with
  | .error e => .error e
  | .ok (p, h) => .ok (p, { h with mem := h.mem.fill p size 0 })

/-- `kmalloca`. -/
def kmalloca (h : MmHeap) (size alignment : Nat) : Except Panic (Nat × MmHeap) :=
  kmallocInternal h size alignment

/-! ## `__kfree` -/

/-- `__kfree`. An invalid pointer and a double free only print a message. -/
def kfree (h : MmHeap) (ptr : Nat) : Except Panic MmHeap :=
  if ptr = 0 then .ok h
  else
    let h := { h with freeCount := (h.freeCount + 1) % word }
    let chunk := (word + ptr - chunkHeader) % word
    if magic h.mem chunk ≠ chunkMagic then .ok h
    else if free h.mem chunk then .ok h
    else if ¬ (listNext h.mem chunk = 0 ∧ listPrev h.mem chunk = 0) then .error .chunkLinked
    else
      let h := { h with mem := setFree h.mem chunk true }
      match getNextChunk h chunk with
      | .error e => .error e
      | .ok _ =>
        let h := chunks.addFront chunk h
        .ok { h with used := (word + h.used - (Heap.size h.mem chunk + chunkHeader)) % word }

end Osdev.Heap
