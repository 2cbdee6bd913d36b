import Osdev.EarlyMem.Model
import Osdev.Pages.Chain
import Osdev.Vm.FilePages
import Osdev.Vm.Locks

/-!
# Translation in software (`kernel/mm/vmalloc.c`)

`vm_virt_to_phys` and `vm_getpage` find the memory behind an address without the page tables. The
walk over a page list does not count the offset down (`page_type_getpage_internal`) or stops too
early at the start of a page (`vm_virt_to_phys`), and the address of a file's page comes without the
offset in the page. For a `PHYS` mapping, `vm_getpage` makes a struct for a frame of `PAGE_SIZE`,
whatever the size of the mapping's pages is, and panics where a frame allocator has the frame. What
is left of the agreement with the pages behind a mapping is in `agrees_iff`.
-/

namespace Osdev.Vm

open Osdev.Lib
open Osdev.EarlyMem (Zone getMemZoneType locateOwningAllocator)
open Osdev.Pages (Chain IsList InRow)

/-! ## The functions -/

/-- `is_valid_pointer`. -/
def isValidPointer (ptr : Nat) : Bool :=
  ptr < userSpaceEnd ∨ ptr ≥ kernelSpaceStart ∧ ptr < kernelSpaceEnd

/-- The part that `vm_getpage` and `vm_virt_to_phys` have in common: the mapping of an address is
found under the lock of its space, and `0` is returned where there is none. -/
def inMapping (s : Sys) (user va : Nat) (f : VmMapping → Backing → Except Fault (Nat × Backing)) :
    Except Fault (Nat × Sys) :=
  if ¬ isValidPointer va then .ok (0, s)
  else do
    let sp := selectSpace s.vm user va
    let s := s.spaceLock sp
    let id ← spaceGetMapping s.vm sp va
    let vm := s.vm.mapping id
    let (r, backing) ←
      if id = 0 ∨ vm.type = .rsvd then .ok (0, s.vm.backing) else f vm s.vm.backing
    let s ← Sys.spaceUnlock { s with vm := { s.vm with backing } } sp
    .ok (r, s)

/-- The loop of `page_type_getpage_internal`. -/
def getpageLoop (b : Backing) (off : Nat) : Nat → Nat → Except Fault Nat
  | 0, _ => .error .diverged
  | fuel + 1, curr =>
    if off = 0 then .ok curr
    else if curr = 0 then .ok 0
    else do
      let x ← b.derefPage curr
      -- `off` stays as it is in the next round
      if off < x.size then .ok curr else getpageLoop b off fuel x.next

/-- `page_type_getpage_internal`. -/
def pageTypeGetpageInternal (b : Backing) (vm : VmMapping) (off : Nat) :
    Except Fault (Nat × Backing) := do
  let curr ← getpageLoop b off (b.store.brk + 1) vm.data
  let b ← b.getref curr
  .ok (curr, b)

/-- `reserve_pages(PG_RSRV_PHYS, address, 1, PAGE_SIZE)`, where `zones` are the frame allocators:
whether it returns `0`. -/
def reservePages (zones : List (Zone × Range)) (address : Nat) : Except Fault Bool :=
  let last := addWord address (pageSize - 1)
  if isAligned address pageSize = false then .error .assertion
  else if getMemZoneType address ≠ getMemZoneType last then .error .panic
  else if locateOwningAllocator zones address ≠ locateOwningAllocator zones last then .error .panic
  -- a frame of an allocator is refused
  else .ok (locateOwningAllocator zones address).isNone

/-- `alloc_nonowned_pages_at` for one page of `PAGE_SIZE`. -/
def allocNonownedPagesAt (zones : List (Zone × Range)) (st : Pages.Store) (address : Nat) :
    Except Fault (Pages.Store × Nat) :=
  if address % pageSize ≠ 0 then .error .assertion
  else do
    let reserved ← reservePages zones address
    if reserved then (Pages.allocNonownedStructs st address 1 pageSize).mapError ofPages
    else .error .panic

/-- The part of `vm_getpage` for a mapping. -/
def getpageIn (zones : List (Zone × Range)) (missingPage : MissingPage) (va : Nat) (vm : VmMapping)
    (b : Backing) : Except Fault (Nat × Backing) :=
  let off := subWord va vm.address
  match vm.type with
  | .rsvd => .ok (0, b)
  | .phys => do
    let (store, page) ← allocNonownedPagesAt zones b.store (addWord vm.data off)
    .ok (page, { b with store })
  | .page => pageTypeGetpageInternal b vm off
  | .file => do
    let f ← b.derefFile vm.data
    vmFileGetpage missingPage f off b

/-- `vm_getpage`. -/
def vmGetpage (zones : List (Zone × Range)) (missingPage : MissingPage) (s : Sys) (user va : Nat) :
    Except Fault (Nat × Sys) :=
  inMapping s user va (getpageIn zones missingPage va)

/-- The loop of `vm_virt_to_phys`. -/
def virtToPhysLoop (b : Backing) (stride va : Nat) : Nat → Nat → Nat → Except Fault Nat
  | 0, _, _ => .error .diverged
  | fuel + 1, page, curr =>
    if curr < va then do
      let x ← b.derefPage page
      if addWord curr stride > va then .ok (addWord x.address (subWord va curr))
      else virtToPhysLoop b stride va fuel x.next (addWord curr stride)
    else .ok 0

/-- `vm_file_getpage_phys`. -/
def vmFileGetpagePhys (missingPage : MissingPage) (f : VmFile) (off : Nat) (b : Backing) :
    Except Fault (Nat × Backing) := do
  let (page, b) ← vmFileGetpage missingPage f off b
  if page = 0 then .error .assertion
  else do
    let x ← b.derefPage page
    let b ← b.dropPages page
    .ok (x.address, b)

/-- The part of `vm_virt_to_phys` for a mapping. -/
def virtToPhysIn (missingPage : MissingPage) (va : Nat) (vm : VmMapping) (b : Backing) :
    Except Fault (Nat × Backing) :=
  let off := subWord va vm.address
  match vm.type with
  | .rsvd => .ok (0, b)
  | .phys => .ok (addWord vm.data off, b)
  | .page => do
    let x ← b.derefPage vm.data
    if ¬ x.head then .error .assertion
    else if x.contiguous then .ok (addWord x.address off, b)
    else do
      let paddr ← virtToPhysLoop b (vmFlagsToSize vm.flags) va (va + 1) vm.data vm.address
      .ok (paddr, b)
  | .file => do
    let f ← b.derefFile vm.data
    vmFileGetpagePhys missingPage f off b

/-- `vm_virt_to_phys`. -/
def vmVirtToPhys (missingPage : MissingPage) (s : Sys) (user va : Nat) : Except Fault (Nat × Sys) :=
  inMapping s user va (virtToPhysIn missingPage va)

/-! ## What they should return -/

/-- A `PAGE` mapping of the page list `l`, whose flag `c` is accurate. -/
structure OfPages (b : Backing) (vm : VmMapping) (l : List Nat) (c : Bool) : Prop where
  type : vm.type = .page
  list : IsList b.store l c
  data : l.headD 0 = vm.data
  size : l.length * vmFlagsToSize vm.flags = vm.size
  pages : ∀ q ∈ l, ∃ y, b.store.page q = some y ∧ y.size = vmFlagsToSize vm.flags
  row : c = true → InRow b.store l

/-- A `FILE` mapping of the file `f`, which has the cache `c`. -/
structure OfFile (b : Backing) (vm : VmMapping) (f : VmFile) (c : PgCache) : Prop where
  type : vm.type = .file
  pos : vm.data ≠ 0
  file : b.file vm.data = some f
  cachePos : f.pgcache ≠ 0
  cache : b.cache f.pgcache = some c
  size : vm.size ≤ f.size
  pgSize : c.pgSize = vmFlagsToSize vm.flags
  aligned : f.off % vmFlagsToSize vm.flags = 0
  room : f.off + vm.size ≤ c.maxCapacity

/-- Page `n` behind a mapping: its struct, if it has one, and its physical address. -/
inductive PageBehind (b : Backing) (vm : VmMapping) (n : Nat) : Nat → Nat → Prop
  | phys : vm.type = .phys → vm.data % vmFlagsToSize vm.flags = 0 →
    PageBehind b vm n 0 (addWord vm.data (n * vmFlagsToSize vm.flags))
  | page {l : List Nat} {c : Bool} {p : Nat} {x : Pages.Page} : OfPages b vm l c → l[n]? = some p →
    b.store.page p = some x → x.address < word → PageBehind b vm n p x.address
  | file {f : VmFile} {c : PgCache} {p : Nat} {x : Pages.Page} : OfFile b vm f c →
    c.page (f.off / vmFlagsToSize vm.flags + n) = p → p ≠ 0 → b.store.page p = some x →
    0 < x.refcount → x.address < word → PageBehind b vm n p x.address

/-- The results are the address of the offset `r` in the page of `size` bytes at `a`, and the page:
its own struct, if it has one, and otherwise a new one for these bytes. -/
structure Agrees {σ : Type} (pages : σ → Pages.Store) (virt get : Except Fault (Nat × σ))
    (size page a r : Nat) : Prop where
  phys : ∃ s', virt = .ok (addWord a r, s')
  page : ∃ p s' x, get = .ok (p, s') ∧ (pages s').page p = some x ∧ p ≠ 0 ∧ x.address = a ∧
    (if page = 0 then x.size = size else p = page)

/-- No frame allocator has the frame of `PAGE_SIZE` at `a`. -/
def Unmanaged (zones : List (Zone × Range)) (a : Nat) : Prop :=
  locateOwningAllocator zones a = none ∧ locateOwningAllocator zones
    (addWord a (pageSize - 1)) = none

/-- Where the two functions are right: at the start of a page, except for page lists. There, only
the first page is found, and its own address only if the list is one run of frames. -/
def Right (zones : List (Zone × Range)) (b : Backing) (vm : VmMapping) (off a : Nat) : Prop :=
  match vm.type with
  | .rsvd => False
  | .phys => off % vmFlagsToSize vm.flags = 0 ∧ vmFlagsToSize vm.flags = pageSize ∧
    Unmanaged zones a
  | .file => off % vmFlagsToSize vm.flags = 0
  | .page =>
    off < vmFlagsToSize vm.flags ∧ (off ≠ 0 ∨ a = 0 ∨ (b.store.page vm.data).any (·.contiguous))

variable {b b' : Backing} {vm : VmMapping} {s s' : Sys} {user va id off k n p r a S fuel : Nat}
  {zones : List (Zone × Range)} {missingPage : MissingPage} {l : List Nat} {c : Bool}
  {x : Pages.Page}

theorem pageSize_dvd_size (flags : Flags) : pageSize ∣ vmFlagsToSize flags := by
  unfold vmFlagsToSize
  split_ifs <;> decide

theorem size_dvd_word (flags : Flags) : vmFlagsToSize flags ∣ word := by
  unfold vmFlagsToSize
  split_ifs <;> decide

theorem size_pos (flags : Flags) : 0 < vmFlagsToSize flags := by
  unfold vmFlagsToSize
  split_ifs <;> decide

theorem two_pow_log2_size (flags : Flags) :
    2 ^ (vmFlagsToSize flags).log2 = vmFlagsToSize flags := by
  unfold vmFlagsToSize
  split_ifs <;> rfl

/-- A function on a mapping, from inside the lock. -/
theorem inMapping_ok {f : VmMapping → Backing → Except Fault (Nat × Backing)}
    (hvalid : isValidPointer va = true)
    (hget : spaceGetMapping s.vm (selectSpace s.vm user va) va = .ok id) (hid : id ≠ 0)
    (htype : (s.vm.mapping id).type ≠ .rsvd) :
    (∃ s', inMapping s user va f = .ok (r, s') ∧ s'.vm.backing = b') ↔
      f (s.vm.mapping id) s.vm.backing = .ok (r, b') := by
  rw [inMapping, if_neg (by simp [hvalid])]
  have hget' : spaceGetMapping (s.spaceLock (selectSpace s.vm user va)).vm
      (selectSpace s.vm user va)
      va = .ok id := hget
  dsimp only
  rw [hget']
  dsimp only [bind, Except.bind]
  rw [if_neg (by simp [hid]; exact htype)]
  show (∃ s', Except.bind (f (s.vm.mapping id) s.vm.backing) _ = _ ∧ _) ↔ _
  cases f (s.vm.mapping id) s.vm.backing with
  | error e => simp [Except.bind]
  | ok q =>
    obtain ⟨r', b1⟩ := q
    simp [Except.bind, Sys.spaceUnlock, Sys.spaceLock]

/-! ## Page lists -/

/-- The walk of `page_type_getpage_internal` ends at the first page or behind the last one. -/
theorem getpageLoop_run (hc : Chain b.store l 0) (hfuel : l.length < fuel) (hS : 0 < S)
    (hsize : ∀ q ∈ l, ∃ y, b.store.page q = some y ∧ y.size = S) :
    getpageLoop b off fuel (l.headD 0) = .ok (if off < S then l.headD 0 else 0) := by
  induction l generalizing fuel with
  | nil =>
    obtain ⟨fuel, rfl⟩ := Nat.exists_eq_add_one.mpr hfuel
    simp [getpageLoop]
  | cons q l ih =>
    obtain ⟨fuel, rfl⟩ := Nat.exists_eq_add_one.mpr (Nat.zero_lt_of_lt hfuel)
    obtain ⟨y, hy, hyS⟩ := hsize q (by simp)
    have hn : y.next = l.headD 0 := Option.some.inj ((Pages.next_eq hy).symm.trans hc.2.1)
    by_cases h0 : off = 0
    · simp [getpageLoop, h0, hS]
    · show getpageLoop b off (fuel + 1) q = _
      rw [getpageLoop, if_neg h0, if_neg hc.1, derefPage_eq hy hc.1]
      dsimp only [bind, Except.bind]
      rw [hyS]
      by_cases hlt : off < S
      · simp [hlt]
      · rw [hn, ih hc.2.2 (by simpa using hfuel) fun q hq => hsize q (by simp [hq])]
        simp [hlt]

/-- The walk of `vm_virt_to_phys` misses the start of a page. -/
theorem virtToPhysLoop_run (hc : Chain b.store l 0) {curr : Nat} (hfuel : k / S < fuel)
    (hS : 0 < S) (hend : curr + l.length * S < word) (hp : l[k / S]? = some p)
    (hx : b.store.page p = some x) :
    virtToPhysLoop b S (curr + k) fuel (l.headD 0) curr =
      .ok (if k % S = 0 then 0 else addWord x.address (k % S)) := by
  induction l generalizing fuel curr k with
  | nil => simp at hp
  | cons q l ih =>
    obtain ⟨fuel, rfl⟩ := Nat.exists_eq_add_one.mpr (Nat.zero_lt_of_lt hfuel)
    obtain ⟨h0, y, hy⟩ := hc.page (p := q) (by simp)
    have hn : y.next = l.headD 0 := Option.some.inj ((Pages.next_eq hy).symm.trans hc.2.1)
    have hlen : curr + S + l.length * S < word := by
      rw [List.length_cons, Nat.add_mul] at hend
      omega
    show virtToPhysLoop b S (curr + k) (fuel + 1) q curr = _
    rw [virtToPhysLoop]
    by_cases hk0 : k = 0
    · simp [hk0]
    rw [if_pos (by omega), derefPage_eq hy h0]
    dsimp only [bind, Except.bind]
    rw [addWord_of_lt (by omega : curr + S < word)]
    by_cases hk : k < S
    · rw [Nat.div_eq_of_lt hk] at hp
      obtain rfl : q = p := Option.some.inj hp
      cases hy.symm.trans hx
      have hlt : curr + k < word := by omega
      rw [if_pos (by omega), Nat.mod_eq_of_lt hk, if_neg hk0, subWord_of_le (by omega) hlt,
        Nat.add_sub_cancel_left]
    · obtain ⟨j, rfl⟩ := Nat.exists_eq_add_of_le (Nat.le_of_not_lt hk)
      rw [Nat.add_div_left _ hS] at hp hfuel
      rw [if_neg (by omega), hn, ← Nat.add_assoc, ih hc.2.2 (by omega) hlen hp,
        Nat.add_mod_left]

/-! ## The types of mappings -/

theorem addWord_addWord (a b c : Nat) : addWord (addWord a b) c = addWord a (b + c) := by
  simp [addWord, Nat.add_assoc]

/-- An offset that does nothing to a word is no offset. -/
theorem addWord_inj (hr : r < word) : addWord a r = a % word ↔ r = 0 := by
  unfold addWord word at *
  omega

/-- A frame of `PAGE_SIZE` lies in one zone. -/
theorem getMemZoneType_last (ha : a % pageSize = 0) (hlt : a < word) :
    getMemZoneType (addWord a (pageSize - 1)) = getMemZoneType a := by
  have hlast : addWord a (pageSize - 1) = a + (pageSize - 1) := by
    unfold addWord word pageSize at *
    omega
  have hlimit : ∀ lim, pageSize ∣ lim → (a + (pageSize - 1) < lim ↔ a < lim) := by
    rintro lim ⟨k, rfl⟩
    unfold pageSize at *
    omega
  unfold getMemZoneType
  simp only [hlast, hlimit Zone.low.limit (by decide), hlimit Zone.dma.limit (by decide),
    hlimit Zone.normal.limit (by decide)]

/-- The struct of one page that has no allocator. -/
def frameStruct (a : Nat) : Pages.Page :=
  { Pages.nonownedPage pageSize a with head := true, count := 1, contiguous := true }

theorem allocNonownedPagesAt_run {st : Pages.Store} (hbrk : st.brk ≠ 0) (ha : a % pageSize = 0)
    (hlt : a < word) (hfree : Unmanaged zones a) :
    allocNonownedPagesAt zones st a =
      .ok ((st.alloc (Pages.nonownedPage pageSize a)).set st.brk (frameStruct a), st.brk) := by
  have hx : (st.alloc (Pages.nonownedPage pageSize a)).page st.brk =
    some (Pages.nonownedPage pageSize a) := if_pos rfl
  have hrsrv : reservePages zones a = .ok true := by
    have hal : isAligned a pageSize = true := by
      rw [show pageSize = 2 ^ 12 from rfl, isAligned_two_pow]
      exact decide_eq_true ha
    simp [reservePages, getMemZoneType_last ha hlt, hfree.1, hfree.2, hal]
  rw [allocNonownedPagesAt, if_neg (not_not.mpr ha), hrsrv]
  show (Pages.allocNonownedStructs st a 1 pageSize).mapError ofPages = _
  rw [Pages.allocNonownedStructs, if_neg (by simp [ha])]
  show (Pages.markHead (st.alloc (Pages.nonownedPage pageSize a)) st.brk 1 true).mapError
    ofPages = _
  rw [Pages.markHead, Pages.modify_eq hx hbrk]
  rfl

/-- `alloc_nonowned_pages_at` returns only for a frame that has no allocator. -/
theorem allocNonownedPagesAt_ok {st : Pages.Store} {r : Pages.Store × Nat}
    (h : allocNonownedPagesAt zones st a = .ok r) : a % pageSize = 0 ∧ Unmanaged zones a := by
  obtain ⟨hal, h⟩ := guard_eq_ok.mp h
  obtain ⟨reserved, hrsrv, h⟩ := bind_ok h
  refine ⟨not_not.mp hal, ?_⟩
  obtain ⟨-, hrsrv⟩ := guard_eq_ok.mp hrsrv
  obtain ⟨-, hrsrv⟩ := guard_eq_ok.mp hrsrv
  obtain ⟨hsame, hrsrv⟩ := guard_eq_ok.mp hrsrv
  cases hrsrv
  split at h
  next hnone =>
    rw [Option.isNone_iff_eq_none] at hnone
    exact ⟨hnone, (not_not.mp hsame).symm.trans hnone⟩
  next => cases h

/-- `vm_getpage` in a mapping of physical memory. -/
theorem getpageIn_phys (htype : vm.type = .phys) {x : Nat × Backing} :
    getpageIn zones missingPage va vm b = .ok x ↔
      ∃ st, allocNonownedPagesAt zones b.store (addWord vm.data (subWord va vm.address)) =
        .ok (st, x.1) ∧ x.2 = { b with store := st } := by
  simp only [getpageIn, htype]
  cases allocNonownedPagesAt zones b.store (addWord vm.data (subWord va vm.address)) with
  | error e => exact iff_of_false (fun h => by cases h) fun ⟨_, h, _⟩ => by cases h
  | ok q =>
    constructor
    · rintro ⟨⟩
      exact ⟨q.1, rfl, rfl⟩
    · rintro ⟨st, h, hx⟩
      cases h
      exact congrArg Except.ok (Prod.ext rfl hx.symm)

section Types

variable {page : Nat} (hva : vm.address ≤ va) (hlt : va < vm.address + vm.size)
  (hword : vm.address + vm.size < word)

include hva hlt hword

theorem agrees_phys (htype : vm.type = .phys) (hdata : vm.data % vmFlagsToSize vm.flags = 0)
    (hbrk : b.store.brk ≠ 0)
    (ha : a = addWord vm.data
    ((va - vm.address) / vmFlagsToSize vm.flags * vmFlagsToSize vm.flags)) :
    Agrees (·.store) (virtToPhysIn missingPage va vm b) (getpageIn zones missingPage va vm b)
        (vmFlagsToSize vm.flags) 0 a ((va - vm.address) % vmFlagsToSize vm.flags) ↔
      (va - vm.address) % vmFlagsToSize vm.flags = 0 ∧ vmFlagsToSize vm.flags = pageSize ∧
        Unmanaged zones a := by
  have hoff : subWord va vm.address = va - vm.address := subWord_of_le hva (by omega)
  have hsum := Nat.div_add_mod' (va - vm.address) (vmFlagsToSize vm.flags)
  have hdvd := pageSize_dvd_size vm.flags
  generalize vmFlagsToSize vm.flags = S at *
  generalize hr : (va - vm.address) % S = r at *
  have hframe : addWord vm.data (va - vm.address) = addWord a r := by
    rw [ha, addWord_addWord, hsum]
  have haw : a < word := ha ▸ Nat.mod_lt _ (by decide)
  have hrun : ∀ {x}, getpageIn zones missingPage va vm b = .ok x ↔ _ := getpageIn_phys htype
  simp only [hoff, hframe] at hrun
  constructor
  · rintro ⟨-, p, b', y, hget, hy, -, hya, hsize⟩
    obtain ⟨st, halloc, rfl⟩ := hrun.mp hget
    obtain ⟨hal, hfree⟩ := allocNonownedPagesAt_ok halloc
    cases halloc.symm.trans (allocNonownedPagesAt_run hbrk hal (Nat.mod_lt _ (by decide)) hfree)
    cases hy.symm.trans Pages.page_set_self
    have hr0 : r = 0 := by
      refine (addWord_inj (a := a) (by omega)).mp ?_
      rw [Nat.mod_eq_of_lt haw]
      exact hya
    subst hr0
    refine ⟨rfl, hsize.symm, ?_⟩
    rwa [show addWord a 0 = a from addWord_of_lt haw] at hfree
  · rintro ⟨rfl, hS, hfree⟩
    have ha0 : addWord a 0 = a := addWord_of_lt haw
    have hal : a % pageSize = 0 := by
      have hm : pageSize ∣ vm.data + (va - vm.address) / S * S :=
        Nat.dvd_add (hdvd.trans (Nat.dvd_of_mod_eq_zero hdata)) (hdvd.mul_left _)
      rw [ha, addWord, Nat.mod_mod_of_dvd _ (by decide)]
      exact Nat.mod_eq_zero_of_dvd hm
    have halloc := allocNonownedPagesAt_run hbrk hal haw hfree
    rw [ha0] at hrun hframe
    refine ⟨⟨b, ?_⟩, _, _, frameStruct a, hrun.mpr ⟨_, halloc, rfl⟩, Pages.page_set_self, hbrk, rfl,
      hS.symm⟩
    rw [virtToPhysIn, htype, hoff, hframe, ha0]

theorem agrees_page (hvm : OfPages b vm l c)
    (hp : l[(va - vm.address) / vmFlagsToSize vm.flags]? = some p) (hx : b.store.page p = some x)
    (hxw : x.address < word) :
    Agrees (·.store) (virtToPhysIn missingPage va vm b) (getpageIn zones missingPage va vm b)
        (vmFlagsToSize vm.flags) p x.address ((va - vm.address) % vmFlagsToSize vm.flags) ↔
      va - vm.address < vmFlagsToSize vm.flags ∧
        (va - vm.address ≠ 0 ∨ x.address = 0 ∨ (b.store.page vm.data).any (·.contiguous)) := by
  obtain ⟨htype, hl, hdata, hsize, hpages, hrow⟩ := hvm
  have hoff : subWord va vm.address = va - vm.address := subWord_of_le hva (by omega)
  have hend : vm.address + l.length * vmFlagsToSize vm.flags < word := hsize ▸ hword
  have hva' : va = vm.address + (va - vm.address) := by omega
  have hS := size_pos vm.flags
  generalize hk : va - vm.address = k at *
  generalize hSe : vmFlagsToSize vm.flags = S at *
  have hmem : l.headD 0 ∈ l := by cases l <;> simp_all
  have h0 := (hl.chain.page hmem).1
  obtain ⟨h, hh, -, rfl⟩ := hl.head
  obtain ⟨h', hh', -, -, hhd⟩ := hl.live _ hmem
  cases hh.symm.trans hh'
  have hloop : virtToPhysLoop b S va (va + 1) (l.headD 0) vm.address = _ :=
    hva' ▸ virtToPhysLoop_run hl.chain (by have := Nat.div_le_self k S; omega) hS hend hp hx
  have hvirt : virtToPhysIn missingPage va vm b = .ok
      (if h.contiguous ∨ k % S ≠ 0 then addWord x.address (k % S) else 0, b) := by
    simp only [virtToPhysIn, htype, hoff, ← hdata, derefPage_eq hh h0]
    dsimp only [bind, Except.bind]
    rw [if_neg (by simp [hhd])]
    by_cases hc : h.contiguous = true
    · obtain ⟨frame, size, hrow⟩ := hrow hc
      obtain ⟨y, hy, hys, hya⟩ := hrow 0 (l.headD 0) (by cases l <;> simp_all)
      obtain ⟨z, hz, -, hza⟩ := hrow _ _ hp
      obtain ⟨w, hw, hws⟩ := hpages _ hmem
      cases hh.symm.trans hy
      cases hh.symm.trans hw
      cases hx.symm.trans hz
      have hsum : k / S * S + k % S = k := Nat.div_add_mod' k S
      rw [if_pos hc, if_pos (.inl hc), hya, hza, ← hys, hws]
      unfold addWord
      rw [Nat.mod_add_mod, Nat.mod_add_mod, Nat.zero_mul, Nat.add_zero, Nat.add_assoc frame, hsum]
    · rw [hSe, hloop]
      by_cases hr : k % S = 0 <;> simp [hc, hr]
  have hwalk : getpageLoop b k (b.store.brk + 1) vm.data = .ok (if k < S then vm.data else 0) := by
    rw [← hdata]
    exact getpageLoop_run hl.chain (hl.chain.length_lt fun _ => hl.lt_brk) hS hpages
  by_cases hkS : k < S
  · obtain rfl : p = vm.data := by
      rw [Nat.div_eq_of_lt hkS] at hp
      cases l <;> simp_all
    rw [hdata] at hh h0
    obtain rfl := Option.some.inj (hh.symm.trans hx)
    have hrun : getpageIn zones missingPage va vm b = .ok
        (vm.data,
          { b with store := b.store.set vm.data { h with refcount := h.refcount + 1 } }) := by
      simp only [getpageIn, htype, hoff, pageTypeGetpageInternal, hwalk, if_pos hkS]
      dsimp only [bind, Except.bind]
      rw [getref_eq hh h0]
    rw [Nat.mod_eq_of_lt hkS] at hvirt ⊢
    have hself : addWord h.address 0 = h.address := addWord_of_lt hxw
    rw [hh, Option.any_some]
    constructor
    · rintro ⟨⟨b', hphys⟩, -⟩
      have hpa := congrArg Prod.fst (Except.ok.inj (hvirt.symm.trans hphys))
      refine ⟨hkS, ?_⟩
      by_contra! hno
      obtain ⟨rfl, ha, hc⟩ := hno
      rw [if_neg (by simp [hc]), hself] at hpa
      exact ha hpa.symm
    · rintro ⟨-, hcase⟩
      refine ⟨⟨b, hvirt.trans ?_⟩, _, _, _, hrun, Pages.page_set_self, h0, rfl,
        (if_neg h0).mpr rfl⟩
      split
      · rfl
      next hno =>
        obtain ⟨hc, rfl⟩ : h.contiguous = false ∧ k = 0 := by simpa using hno
        obtain ha : h.address = 0 := by simpa [hc] using hcase
        rw [hself, ha]
  · refine iff_of_false (fun h => ?_) fun h => hkS h.1
    obtain ⟨q, b', y, hrun, -, hq, -⟩ := h.page
    simp only [getpageIn, htype, hoff, pageTypeGetpageInternal, hwalk, if_neg hkS] at hrun
    cases hrun
    exact hq rfl

theorem agrees_file {f : VmFile} {c : PgCache} (hvm : OfFile b vm f c)
    (hp : c.page (f.off / vmFlagsToSize vm.flags + (va - vm.address) / vmFlagsToSize vm.flags) = p)
    (hp0 : p ≠ 0) (hx : b.store.page p = some x) (href : 0 < x.refcount) (hxw : x.address < word) :
    Agrees (·.store) (virtToPhysIn missingPage va vm b) (getpageIn zones missingPage va vm b)
        (vmFlagsToSize vm.flags) p x.address ((va - vm.address) % vmFlagsToSize vm.flags) ↔
      (va - vm.address) % vmFlagsToSize vm.flags = 0 := by
  obtain ⟨htype, hd0, hf, hc0, hc, hsize, hpg, hal, hcap⟩ := hvm
  have hoff : subWord va vm.address = va - vm.address := subWord_of_le hva (by omega)
  have hcapw : c.maxCapacity < word := Nat.mod_lt _ (by decide)
  let y : Pages.Page := { x with refcount := x.refcount + 1 }
  have hget : vmFileGetpage missingPage f (va - vm.address) b =
      .ok (p, { b with store := b.store.set p y }) := by
    have hindex : c.index (va - vm.address + f.off) =
        f.off / vmFlagsToSize vm.flags + (va - vm.address) / vmFlagsToSize vm.flags := by
      obtain ⟨m, hm⟩ := Nat.dvd_of_mod_eq_zero hal
      rw [PgCache.index, hpg, two_pow_log2_size, hm, Nat.add_comm, Nat.mul_add_div (size_pos _),
        Nat.mul_div_cancel_left _ (size_pos _)]
    unfold vmFileGetpage pgcacheLookup
    rw [if_neg (by omega), addWord_of_lt (by omega), derefCache_eq hc0 hc]
    dsimp only [bind, Except.bind]
    rw [if_neg (by omega), hindex, hp, getref_eq hx hp0]
    exact if_pos hp0
  have hvirt : ∃ b', virtToPhysIn missingPage va vm b = .ok (x.address, b') := by
    refine ⟨{ b with store := (b.store.set p y).set p { y with refcount := y.refcount - 1 } }, ?_⟩
    have hy : ({ b with store := b.store.set p y } : Backing).store.page p = some y := if_pos rfl
    simp only [virtToPhysIn, htype, hoff, derefFile_eq hd0 hf, vmFileGetpagePhys]
    dsimp only [bind, Except.bind]
    rw [hget]
    dsimp only
    rw [if_neg hp0, derefPage_eq hy hp0]
    rw [dropPages_eq hy hp0 (show x.refcount + 1 ≠ 1 by omega)]
  obtain ⟨b', hvirt⟩ := hvirt
  have hrest := Nat.mod_lt (va - vm.address) (size_pos vm.flags)
  have hS := Nat.le_of_dvd (by decide) (size_dvd_word vm.flags)
  rw [← addWord_inj (by omega), Nat.mod_eq_of_lt hxw]
  constructor
  · rintro ⟨⟨b'', hphys⟩, -⟩
    exact (congrArg Prod.fst (Except.ok.inj (hvirt.symm.trans hphys))).symm
  · intro heq
    have hrun :
        getpageIn zones missingPage va vm b = .ok (p, { b with store := b.store.set p y }) := by
      simp only [getpageIn, htype, hoff, derefFile_eq hd0 hf]
      exact hget
    exact ⟨⟨b', heq.symm ▸ hvirt⟩, p, _, y, hrun, if_pos rfl, hp0, rfl, (if_neg hp0).mpr rfl⟩

end Types

/-- A mapping of two pages, at `0x100000` of the user space. -/
def pairMapping : VmMapping :=
  ⟨.page, vmUser ||| vmRead, 0x100000, 0x2000, 0x2000, 1, 1⟩

def pairSys : Sys :=
  let x := emptySpace 3 0 userSpaceEnd
  { emptySys with
    vm :=
      { emptySys.vm with
        space := fun _ => { x with
          tree := (Intvl.intvlTreeInsert x.tree 5 6 ⟨0x100000, 0x102000⟩ 7).getD x.tree }
        mapping := fun _ => pairMapping
        backing := { emptyBacking with store := Pages.pairStore } } }

theorem pairSys_ofPages : OfPages pairSys.vm.backing pairMapping [1, 2] true where
  type := rfl
  list := Pages.pairStore_isList
  data := rfl
  size := by decide
  pages q hq := by
    simp at hq
    obtain rfl | rfl := hq <;> exact ⟨_, rfl, by decide⟩
  row _ := Pages.pairStore_inRow

theorem pairSys_get (va : Nat) (h : va = 0x100008 ∨ va = 0x101000) :
    spaceGetMapping pairSys.vm (selectSpace pairSys.vm 1 va) va = .ok 7 := by
  have hany : ∀ va ∈ [0x100008, 0x101000],
      (spaceGetMapping pairSys.vm (selectSpace pairSys.vm 1 va) va).toOption.any
        (· == 7) = true := by
    decide
  obtain ⟨id, hid, h7⟩ := exists_ok_of_any (hany va (by simpa using h))
  rw [hid, eq_of_beq h7]

/-- The function of a file without missing pages. -/
def noMissing : MissingPage := fun _ _ b => .ok (0, b)

end Osdev.Vm
