import Osdev.FrameAlloc.Model

/-!
# Page structs and their reference counts (`kernel/mm/pmalloc.c`, `include/kernel/ref.h`)

A page struct is reached through a pointer; `0` is `NULL`. `kmallocz` hands out pointers that were
not used before, and a freed struct is gone from the store, so that touching it is a fault and not a
read of stale data. A reference counter is an `int` in the source. It counts pointers that are
stored in kernel memory, so the model keeps it as a natural number.

The store also keeps two logs that no function reads: the frames that page structs were made to own,
and the frames that `fa_free_page` gave back to their allocator.
-/

namespace Osdev.Pages

open Osdev.Frames (pageSize2Mb pageSize1Gb)

/-- `struct pte`: a page-table entry that maps the page, and the address of the mapping. -/
structure Pte where
  entry : Nat
  address : Nat
  deriving DecidableEq, Repr

/-- `page_t`, with a field for each flag. -/
structure Page where
  address : Nat
  bigpage : Bool
  hugepage : Bool
  owning : Bool
  head : Bool
  cow : Bool
  /-- `head.count` and `head.contiguous` -/
  count : Nat
  contiguous : Bool
  /-- the union of `fa` and `source` -/
  owner : Nat
  entries : List Pte
  next : Nat
  refcount : Nat
  deriving DecidableEq, Repr

/-- `pg_flags_to_size`. -/
def Page.size (x : Page) : Nat :=
  if x.bigpage then pageSize2Mb else if x.hugepage then pageSize1Gb else pageSize

/-- The arguments of a call of `fa_free`, with the struct it was made for. -/
structure Frame where
  page : Nat
  fa : Nat
  address : Nat
  size : Nat
  deriving DecidableEq, Repr

/-- How an operation can fail. -/
inductive Fault where
  | null
  | freed
  | assertion
  /-- a loop or a recursion that does not end -/
  | diverged
  deriving DecidableEq, Repr

structure Store where
  page : Nat → Option Page
  brk : Nat
  owned : List Frame
  returned : List Frame

namespace Store

/-- Reading through a pointer. -/
def deref (s : Store) (p : Nat) : Except Fault Page :=
  if p = 0 then .error .null
  else match s.page p with
    | none => .error .freed
    | some x => .ok x

/-- Writing through a pointer that is known to be good. -/
def set (s : Store) (p : Nat) (x : Page) : Store :=
  { s with page := fun q => if q = p then some x else s.page q }

/-- Changing fields through a pointer. -/
def modify (s : Store) (p : Nat) (f : Page → Page) : Except Fault Store := do
  let x ← s.deref p
  .ok (s.set p (f x))

/-- `kmallocz`, filled with `x`. -/
def alloc (s : Store) (x : Page) : Store :=
  { s with
    page := fun q => if q = s.brk then some x else s.page q
    brk := s.brk + 1
    owned := if x.owning then ⟨s.brk, x.owner, x.address, x.size⟩ :: s.owned else s.owned }

/-- `kfree`. -/
def kfree (s : Store) (p : Nat) : Store :=
  { s with page := fun q => if q = p then none else s.page q }

/-- The call of `fa->impl->fa_free`. -/
def faFree (s : Store) (f : Frame) : Store := { s with returned := f :: s.returned }

end Store

/-! ## References -/

/-- `getref`. -/
def getref (s : Store) (p : Nat) : Except Fault Store :=
  if p = 0 then .ok s else s.modify p fun x => { x with refcount := x.refcount + 1 }

/-- The first half of `fa_free_page`: what the page stands for is given up. -/
def releaseFrame (put : Store → Nat → Except Fault Store) (s : Store) (p : Nat) (x : Page) :
    Except Fault Store :=
  if x.cow then do
    let s ← put s x.owner
    s.modify p fun x => { x with owner := 0 }
  else if x.owning then .ok (s.faFree ⟨p, x.owner, x.address, x.size⟩)
  else .ok s

/-- `fa_free_page`, where `put` is `putref`. -/
def faFreePage (put : Store → Nat → Except Fault Store) (s : Store) (p : Nat) :
    Except Fault Store := do
  let x ← s.deref p
  let s ← releaseFrame put s p x
  let x ← s.deref p
  let s ← put s x.next
  let s ← s.modify p fun x => { x with next := 0 }
  .ok (s.kfree p)

/-- `putref(&p, fa_free_page)`; clearing the pointer variable is left to the caller. -/
def putref : Nat → Store → Nat → Except Fault Store
  | 0, _, _ => .error .diverged
  | fuel + 1, s, p =>
    if p = 0 then .ok s
    else do
      let x ← s.deref p
      let s := s.set p { x with refcount := x.refcount - 1 }
      if x.refcount = 1 then faFreePage (putref fuel) s p else .ok s

/-- `drop_pages`. -/
def dropPages (s : Store) (p : Nat) : Except Fault Store := putref (s.brk + 1) s p

/-! ## Allocation -/

/-- The struct that `alloc_page_structs` fills in for one frame. -/
def ownedPage (fa pgSize address : Nat) : Page :=
  { address := address, bigpage := pgSize == pageSize2Mb, hugepage := pgSize == pageSize1Gb,
    owning := true, head := false, cow := false, count := 0, contiguous := false, owner := fa,
    entries := [], next := 0, refcount := 1 }

/-- The struct that `alloc_nonowned_structs` fills in for one frame. -/
def nonownedPage (pgSize address : Nat) : Page :=
  { ownedPage 0 pgSize address with owning := false }

/-- The struct that `alloc_cow_structs` fills in for one page of the source list. -/
def cowPage (curr : Nat) (x : Page) : Page :=
  { address := x.address, bigpage := x.bigpage, hugepage := x.hugepage, owning := false,
    head := false, cow := true, count := 0, contiguous := false, owner := curr, entries := [],
    next := 0, refcount := 1 }

/-- Appending a new struct to the list from `first` to `last`; gives the new `first`. -/
def append (s : Store) (x : Page) (first last : Nat) : Except Fault (Store × Nat) :=
  let page := s.brk
  if first = 0 then .ok (s.alloc x, page)
  else do
    let s ← (s.alloc x).modify last fun x => { x with next := page }
    .ok (s, first)

/-- The loop of `alloc_page_structs` and `alloc_nonowned_structs`, where `mk` fills in a struct. -/
def structsLoop (mk : Nat → Page) (pgSize : Nat) :
    Nat → Store → Nat → Nat → Nat → Except Fault (Store × Nat)
  | 0, s, _, first, _ => .ok (s, first)
  | remaining + 1, s, address, first, last => do
    let page := s.brk
    let (s, first) ← append s (mk address) first last
    structsLoop mk pgSize remaining s (addWord address pgSize) first page

/-- The last lines of the three allocation functions. -/
def markHead (s : Store) (first count : Nat) (contiguous : Bool) : Except Fault (Store × Nat) := do
  let s ← s.modify first fun x => { x with head := true, count := count, contiguous := contiguous }
  .ok (s, first)

/-- `alloc_page_structs`. -/
def allocPageStructs (s : Store) (fa frame count pgSize : Nat) : Except Fault (Store × Nat) :=
  if count = 0 then .error .assertion
  else do
    let (s, first) ← structsLoop (ownedPage fa pgSize) pgSize count s frame 0 0
    markHead s first count true

/-- `alloc_nonowned_structs`. -/
def allocNonownedStructs (s : Store) (frame count pgSize : Nat) : Except Fault (Store × Nat) :=
  if count = 0 ∨ frame % pgSize ≠ 0 then .error .assertion
  else do
    let (s, first) ← structsLoop (nonownedPage pgSize) pgSize count s frame 0 0
    markHead s first count true

/-- The loop of `alloc_cow_structs`. -/
def cowLoop : Nat → Store → Nat → Nat → Nat → Except Fault (Store × Nat)
  | 0, _, _, _, _ => .error .diverged
  | fuel + 1, s, curr, first, last =>
    if curr = 0 then .ok (s, first)
    else do
      let x ← s.deref curr
      let s ← getref s curr
      let page := s.brk
      let (s, first) ← append s (cowPage curr x) first last
      let x ← s.deref curr
      cowLoop fuel s x.next first page

/-- `alloc_cow_structs`. -/
def allocCowStructs (s : Store) (pages : Nat) : Except Fault (Store × Nat) := do
  let x ← s.deref pages
  if x.head then do
    let (s, first) ← cowLoop (s.brk + 1) s pages 0 0
    let x ← s.deref pages
    markHead s first x.count x.contiguous
  else .error .assertion

/-! ## Splitting and joining lists -/

/-- `SLIST_GET_LAST` on a pointer that is not `NULL`. -/
def slistGetLast : Nat → Store → Nat → Except Fault Nat
  | 0, _, _ => .error .diverged
  | fuel + 1, s, p => do
    let x ← s.deref p
    if x.next = 0 then .ok p else slistGetLast fuel s x.next

/-- The part of `page_list_join` where both lists are there. -/
def joinLists (s : Store) (head tail : Nat) : Except Fault (Store × Nat) := do
  let h ← s.deref head
  let t ← s.deref tail
  if ¬ h.head ∨ ¬ t.head then .error .assertion
  else do
    let last ← slistGetLast (s.brk + 1) s head
    let l ← s.deref last
    let contiguous := decide (addWord l.address h.size = t.address) && t.contiguous
    let s ← s.modify head fun x => { x with count := x.count + t.count, contiguous := contiguous }
    let s ← s.modify tail fun x => { x with head := !x.head, count := 0, contiguous := false }
    let s ← s.modify last fun x => { x with next := tail }
    .ok (s, head)

/-- `page_list_join`. -/
def pageListJoin (s : Store) (head tail : Nat) : Except Fault (Store × Nat) :=
  if head = 0 then .ok (s, tail)
  else if tail = 0 then .ok (s, head)
  else joinLists s head tail

/-- The walk of `page_list_split`: `count` steps from `ptr`, with the page before it. -/
def splitWalk (s : Store) : Nat → Nat → Nat → Except Fault (Nat × Nat)
  | 0, pptr, ptr => .ok (pptr, ptr)
  | ccount + 1, _, ptr =>
    if ptr = 0 then .error .assertion
    else do
      let x ← s.deref ptr
      splitWalk s ccount ptr x.next

/-- Cutting the list between `pptr` and `ptr`. -/
def splitAt (s : Store) (head count pptr ptr : Nat) : Except Fault Store := do
  let s ← getref s ptr
  let h ← s.deref head
  let s ← s.modify ptr fun x =>
    { x with head := true, count := h.count - count, contiguous := h.contiguous }
  let s ← s.modify head fun x => { x with count := count }
  let p ← s.deref pptr
  let s ← putref (s.brk + 1) s p.next
  s.modify pptr fun x => { x with next := 0 }

/-- `page_list_split`: the head, and what the tail variable holds afterwards (it held `tail`). -/
def pageListSplit (s : Store) (head count tail : Nat) : Except Fault (Store × Nat × Nat) :=
  if head = 0 ∨ count = 0 then .ok (s, head, tail)
  else do
    let h ← s.deref head
    if ¬ h.head ∨ h.count < count then .error .assertion
    else if h.count = count then .ok (s, head, 0)
    else do
      let (pptr, ptr) ← splitWalk s count 0 head
      let s ← splitAt s head count pptr ptr
      .ok (s, head, ptr)

/-! ## The system -/

/-- The store with the references that callers hold, one entry for each reference. -/
structure Mem where
  store : Store
  held : List Nat

/-- The operations of a run. -/
inductive Op where
  /-- `alloc_page_structs` for the frames of an allocator -/
  | alloc (fa frame count pgSize : Nat)
  /-- `alloc_nonowned_structs` -/
  | allocNonowned (frame count pgSize : Nat)
  /-- `alloc_cow_pages` -/
  | cow (pages : Nat)
  /-- `getref` -/
  | take (page : Nat)
  /-- `page_list_split` into a tail variable that is `NULL` -/
  | split (head count : Nat)
  /-- `page_list_join` -/
  | join (head tail : Nat)
  /-- `drop_pages` -/
  | drop (page : Nat)
  deriving DecidableEq, Repr

/-- The references with the one that a function returned, unless it is `NULL`. -/
def holding (p : Nat) (held : List Nat) : List Nat := if p = 0 then held else p :: held

def Mem.step (m : Mem) : Op → Except Fault Mem
  | .alloc fa frame count pgSize => do
    let (s, first) ← allocPageStructs m.store fa frame count pgSize
    .ok ⟨s, holding first m.held⟩
  | .allocNonowned frame count pgSize => do
    let (s, first) ← allocNonownedStructs m.store frame count pgSize
    .ok ⟨s, holding first m.held⟩
  | .cow pages => do
    let (s, first) ← allocCowStructs m.store pages
    .ok ⟨s, holding first m.held⟩
  | .take page => do
    let s ← getref m.store page
    .ok ⟨s, holding page m.held⟩
  | .split head count => do
    let (s, head', tail) ← pageListSplit m.store head count 0
    .ok ⟨s, holding head' (holding tail (m.held.erase head))⟩
  | .join head tail => do
    let (s, head') ← pageListJoin m.store head tail
    .ok ⟨s, holding head' ((m.held.erase head).erase tail)⟩
  | .drop page => do
    let s ← dropPages m.store page
    .ok ⟨s, m.held.erase page⟩

end Osdev.Pages
