import Osdev.Bitmap.Model

/-!
# Frame allocators (`kernel/mm/pmalloc.c`)

A frame allocator owns a physical range and keeps a bitmap with one bit for each 4K frame. The pages
of an allocation are page structs; the model keeps their address, their size flags and the allocator
they came from, which is what freeing reads.

`Mem` is the set of allocators with the list of live pages: those that `fa_alloc_pages` returned or
that were reserved, and that have not been freed.
-/

namespace Osdev.Frames

open Osdev.Bmp

/-- `PAGE_SIZE_2MB`. -/
def pageSize2Mb : Nat := 0x200000
/-- `PAGE_SIZE_1GB`. -/
def pageSize1Gb : Nat := 0x40000000

/-- The page sizes that the API accepts. -/
def isPageSize (pgSize : Nat) : Bool :=
  pgSize == pageSize || pgSize == pageSize2Mb || pgSize == pageSize1Gb

/-- A negative `intptr_t` read as a `uintptr_t`. -/
def toWord (x : Int) : Nat := (x % (word : Int)).toNat

/-- `frame_allocator_t`. -/
structure FrameAllocator where
  base : Nat
  size : Nat
  free : Nat
  /-- the bitmap, `fa->data` -/
  frames : Bitmap

/-- The number of frames of the range. -/
def FrameAllocator.numFrames (fa : FrameAllocator) : Nat := fa.size / pageSize

/-- The fields of `page_t` that freeing reads; `fa` is the place of the allocator in the list. -/
structure Page where
  address : Nat
  bigpage : Bool
  hugepage : Bool
  fa : Nat
  deriving DecidableEq, Repr

/-- `pg_flags_to_size`. -/
def Page.size (p : Page) : Nat :=
  if p.bigpage then pageSize2Mb else if p.hugepage then pageSize1Gb else pageSize

/-- Panics of the allocator. -/
inductive Panic where
  | bitmap (p : Bmp.Panic)
  | noReservedPages
  | pageSize
  | unaligned
  | outside
  deriving DecidableEq, Repr

/-! ## The bitmap allocator -/

/-- `bitmap_fa_init`. A bitmap of two pages or more is taken from the reserved pages, and its `size`
is then not rounded to whole words. -/
def bitmapFaInit (mem : Nat → Word) (front : Word) (reservedPages size : Nat) :
    Except Panic Bitmap :=
  let numFrames := align size pageSize / pageSize
  let nbytes := align numFrames 8 / 8
  if pagesToSize 2 ≤ nbytes then
    if reservedPages < sizeToPages nbytes then .error .noReservedPages
    else
      .ok { map := zeroBytes mem nbytes, front, size := nbytes, free := numFrames, used := 0 }
  else .ok (createBitmap mem front numFrames)

/-- `new_frame_allocator`, over memory for the bitmap that holds `mem`. -/
def newFrameAllocator (mem : Nat → Word) (front : Word) (reservedPages base size : Nat) :
    Except Panic FrameAllocator := do
  let frames ← bitmapFaInit mem front reservedPages size
  return { base := base, size := size, free := size, frames := frames }

/-- `num_4k_pages`, as the three functions below compute it. -/
def num4kPages (count pagesize : Nat) : Nat := count * pagesize % word / pageSize

/-- The search of `bitmap_fa_alloc`. -/
def takeFrames (frames : Bitmap) (count pagesize : Nat) : Except Panic (Int × Bitmap) :=
  if num4kPages count pagesize = 1 then .ok (bitmapGetSetFree frames)
  else
    let align := if pagesize = pageSize then 0 else sizeToPages pagesize
    (bitmapGetSetNfree frames (num4kPages count pagesize) align).mapError .bitmap

/-- `bitmap_fa_alloc`. -/
def bitmapFaAlloc (fa : FrameAllocator) (count pagesize : Nat) :
    Except Panic (Int × FrameAllocator) :=
  if fa.frames.free = 0 then .ok (-1, fa)
  else do
    let (frameIndex, frames) ← takeFrames fa.frames count pagesize
    if 0 ≤ frameIndex then
      .ok (fa.base + frameIndex * pageSize,
        { fa with frames := frames, free := subWord fa.free (count * pagesize) })
    else .ok (-1, { fa with frames := frames })

/-- The index of a frame: `SIZE_TO_PAGES(frame - fa->base)`. -/
def FrameAllocator.frameIndex (fa : FrameAllocator) (frame : Nat) : Nat :=
  sizeToPages (subWord frame fa.base)

/-- The marking of `bitmap_fa_reserve`, with `before_count`: the ones that it met. -/
def reserveFrames (frames : Bitmap) (frameIndex n : Nat) : Except Panic (Nat × Bitmap) :=
  if n = 1 then do
    let (result, frames) ← (bitmapSet frames frameIndex).mapError .bitmap
    .ok (result.toNat, frames)
  else do
    let beforeCount ← (bitmapGetN frames frameIndex n).mapError .bitmap
    if beforeCount = 0 then do
      let (_, frames) ← (bitmapSetN frames frameIndex n).mapError .bitmap
      .ok (beforeCount, frames)
    else .ok (beforeCount, frames)

/-- `bitmap_fa_reserve`. The result says whether the frames were free. -/
def bitmapFaReserve (fa : FrameAllocator) (frame count pagesize : Nat) :
    Except Panic (Bool × FrameAllocator) :=
  if fa.frames.free = 0 then .ok (false, fa)
  else do
    let (beforeCount, frames) ←
      reserveFrames fa.frames (fa.frameIndex frame) (num4kPages count pagesize)
    if beforeCount = 0 then
      .ok (true, { fa with frames := frames, free := subWord fa.free (count * pagesize) })
    else .ok (false, { fa with frames := frames })

/-- The clearing of `bitmap_fa_free`. -/
def clearFrames (frames : Bitmap) (frameIndex n : Nat) : Except Panic Bitmap :=
  if n = 1 then do
    let (_, frames) ← (bitmapClear frames frameIndex).mapError .bitmap
    .ok frames
  else (bitmapClearN frames frameIndex n).mapError .bitmap

/-- `bitmap_fa_free`. -/
def bitmapFaFree (fa : FrameAllocator) (frame count pagesize : Nat) :
    Except Panic FrameAllocator := do
  let frames ← clearFrames fa.frames (fa.frameIndex frame) (num4kPages count pagesize)
  .ok { fa with frames := frames, free := addWord fa.free (count * pagesize) }

/-! ## The allocator API -/

/-- One page struct of `alloc_page_structs`. -/
def newPage (fa pgSize address : Nat) : Page :=
  { address := address, bigpage := pgSize == pageSize2Mb,
    hugepage := pgSize == pageSize1Gb, fa := fa }

/-- `alloc_page_structs`, with `remaining` page structs to go. -/
def allocPageStructs (fa pgSize : Nat) : Nat → Nat → List Page
  | 0, _ => []
  | remaining + 1, address =>
    newPage fa pgSize address :: allocPageStructs fa pgSize remaining ((address + pgSize) % word)

/-- `fa_alloc_pages` on the allocator at place `id`. The failure value `-1` of `fa_alloc` is not 0,
so it reaches the alignment assertion. -/
def faAllocPages (id : Nat) (fa : FrameAllocator) (count pgSize : Nat) :
    Except Panic (Option (List Page) × FrameAllocator) :=
  if ¬ isPageSize pgSize then .error .pageSize
  else if fa.free = 0 ∨ count = 0 then .ok (none, fa)
  else do
    let (address, fa) ← bitmapFaAlloc fa count pgSize
    let frame := toWord address
    if frame = 0 then .ok (none, fa)
    else if ¬ isAligned frame pgSize then .error .unaligned
    else .ok (some (allocPageStructs id pgSize count frame), fa)

/-- `fa_reserve_pages`. -/
def faReservePages (fa : FrameAllocator) (frame count pgSize : Nat) :
    Except Panic (Bool × FrameAllocator) :=
  if ¬ isPageSize pgSize then .error .pageSize
  else if ¬ isAligned frame pgSize then .error .unaligned
  else if ¬ (fa.base ≤ frame ∧ frame < (fa.base + fa.size) % word) then .error .outside
  else if fa.free = 0 ∨ count = 0 then .ok (false, fa)
  else bitmapFaReserve fa frame count pgSize

/-! ## The system -/

structure Mem where
  fas : List FrameAllocator
  live : List Page

/-- The operations of a run. -/
inductive Op where
  /-- `fa_alloc_pages` on the allocator at place `i` -/
  | alloc (i count pgSize : Nat)
  /-- `fa_reserve_pages` on the allocator at place `i`, then `alloc_page_structs` for the frames -/
  | reserve (i frame count pgSize : Nat)
  /-- `fa_free_page` on a page that owns its frame -/
  | free (p : Page)
  deriving DecidableEq, Repr

namespace Mem

def step (s : Mem) : Op → Except Panic Mem
  | .alloc i count pgSize =>
    match s.fas[i]? with
    | none => .ok s
    | some fa => do
      let (pages, fa) ← faAllocPages i fa count pgSize
      .ok { fas := s.fas.set i fa, live := pages.getD [] ++ s.live }
  | .reserve i frame count pgSize =>
    match s.fas[i]? with
    | none => .ok s
    | some fa => do
      let (reserved, fa) ← faReservePages fa frame count pgSize
      let pages := if reserved then allocPageStructs i pgSize count frame else []
      .ok { fas := s.fas.set i fa, live := pages ++ s.live }
  | .free p =>
    match s.fas[p.fa]? with
    | none => .ok s
    | some fa => do
      let fa ← bitmapFaFree fa p.address 1 p.size
      .ok { fas := s.fas.set p.fa fa, live := s.live.erase p }

end Mem

end Osdev.Frames
