import Osdev.Vm.Translate

/-!
# Files of vnodes (`kernel/mm/file.c`, `kernel/vfs/vnode.c`, `fs/initrd`, `fs/ramfs`)

A file mapping of a vnode gets the pages that are not in its cache from the file system: from the
RAM disk (`drivers/ramdisk.c`), which is mapped physical memory, or from the memory of a ramfs file.
A failure is an error code, but `vn_getpage` also returns without an error and without a page,
behind the end of the vnode, and `vnode_getpage_missing` then returns a variable that it has not
set.
-/

namespace Osdev.Vm

open Osdev.Lib
open Osdev.EarlyMem (Zone)

/-! ## The functions -/

inductive GetpageErrno where
  | enotsup
  | einval
  | erange
  | eio
  deriving DecidableEq, Repr

/-- What `vm_getpage` reads and leaves as it is: the frame allocators, the callback of mapped files,
the address spaces and the current one. -/
structure Spaces where
  zones : List (Zone × Range)
  missingPage : MissingPage
  sys : Sys
  curspace : Nat

/-- `vm_getpage`, on the backing `b`. -/
def Spaces.getpage (e : Spaces) (va : Nat) (b : Backing) : Except Fault (Nat × Backing) := do
  let (page, s) ←
    vmGetpage e.zones e.missingPage { e.sys with vm := { e.sys.vm with backing := b } }
      e.curspace va
  .ok (page, s.vm.backing)

/-- `vm_getpage_cow`. -/
def vmGetpageCow (e : Spaces) (va : Nat) (b : Backing) : Except Fault (Nat × Backing) := do
  let (page, b) ← e.getpage va b
  if page = 0 then .ok (0, b)
  else do
    let x ← b.derefPage page
    if x.cow then .error .assertion
    else do
      let (store, cowPage) ← (Pages.allocCowStructs b.store page).mapError ofPages
      let b ← Backing.dropPages { b with store } page
      .ok (cowPage, b)

/-- `struct ramdisk`. -/
structure Ramdisk where
  base : Nat
  size : Nat

/-- `ramdisk_d_getpage`. -/
def ramdiskDGetpage (e : Spaces) (rd : Ramdisk) (off : Nat) (b : Backing) :
    Except Fault (Nat × Backing) :=
  if rd.size ≤ off then .ok (0, b) else vmGetpageCow e (addWord rd.base off) b

/-- `initrd_node_t` with its device. `data_offset` has 32 bits. -/
structure InitrdNode where
  rd : Ramdisk
  dataOffset : Nat
  small : dataOffset < 2 ^ 32

/-- `initrd_vn_getpage` for a vnode of `size` bytes. -/
def initrdVnGetpage (e : Spaces) (size : Nat) (node : InitrdNode) (off : Nat) (b : Backing) :
    Except Fault (Except GetpageErrno Nat × Backing) :=
  if size ≤ off then .ok (.error .erange, b)
  else do
    let (page, b) ← ramdiskDGetpage e node.rd (addWord node.dataOffset off) b
    .ok (if page = 0 then .error .eio else .ok page, b)

/-- `memfile_t`. Every one is made by `memfile_alloc(0)`, and nothing calls `memfile_falloc`. -/
structure Memfile where
  base : Nat
  size : Nat
  empty : size = 0

/-- `memfile_getpage`. -/
def memfileGetpage (e : Spaces) (memf : Memfile) (off : Nat) (b : Backing) :
    Except Fault (Nat × Backing) :=
  if memf.size ≤ off then .ok (0, b) else e.getpage (addWord memf.base off) b

/-- `ramfs_vn_getpage`. -/
def ramfsVnGetpage (e : Spaces) (memf : Memfile) (off : Nat) (b : Backing) :
    Except Fault (Except GetpageErrno Nat × Backing) := do
  let (page, b) ← memfileGetpage e memf off b
  .ok (if page = 0 then .error .eio else .ok page, b)

/-- The operations that have a `v_getpage`, each with its node. -/
inductive FsNode where
  | initrd (node : InitrdNode)
  | ramfs (memf : Memfile)

/-- What `vn_getpage` reads of a vnode. -/
structure VnodePages where
  size : Nat
  pgcache : Nat
  ops : Option FsNode

/-- `VN_OPS(vn)->v_getpage`. -/
def VnodePages.vGetpage (e : Spaces) (vn : VnodePages) :
    FsNode → Nat → Backing → Except Fault (Except GetpageErrno Nat × Backing)
  | .initrd node => initrdVnGetpage e vn.size node
  | .ramfs memf => ramfsVnGetpage e memf

/-- `vn_getpage`: an error, or what it stores in `*result`, if it stores something. -/
def vnGetpage (e : Spaces) (vn : VnodePages) (off : Nat) (pgcache : Bool) (b : Backing) :
    Except Fault (Except GetpageErrno (Option Nat) × Backing) :=
  match vn.ops with
  | none => .ok (.error .enotsup, b)
  | some node =>
    if 2 ^ 63 ≤ off then .ok (.error .einval, b)
    else if vn.size ≤ off then .ok (.ok none, b)
    else do
      let (page, b) ←
        if pgcache ∧ vn.pgcache ≠ 0 then pgcacheLookup b vn.pgcache off else .ok (0, b)
      if page ≠ 0 then .ok (.ok (some page), b)
      else do
        let (r, b) ← vn.vGetpage e node off b
        .ok (r.map some, b)

/-- `vnode_getpage_missing`, where the variable `page` holds `page` before it is set. -/
def vnodeGetpageMissing (e : Spaces) (vn : VnodePages) (page : Nat) : MissingPage :=
  fun _ off b => do
  let (r, b) ← vnGetpage e vn off false b
  match r with
  | .error _ => .ok (0, b)
  | .ok result => .ok (result.getD page, b)

/-! ## What they should return -/

/-- The struct `p` is alive, and its frame has the bytes of page `i` of a vnode of `size` bytes. -/
def PageOk (mem bytes : Nat → UInt8) (size : Nat) (s : Pages.Store) (i p : Nat) : Prop :=
  p ≠ 0 ∧ p < s.brk ∧ ∃ x, s.page p = some x ∧ 0 < x.refcount ∧
    ∀ k < pageSize, i * pageSize + k < size → mem (x.address + k) = bytes (i * pageSize + k)

/-- The cache has pages of the vnode. -/
def CacheOk (mem bytes : Nat → UInt8) (size : Nat) (b : Backing) (c : PgCache) : Prop :=
  c.pgSize = pageSize ∧ ∀ i, c.page i ≠ 0 → PageOk mem bytes size b.store i (c.page i)

/-- The result is `NULL` or page `i` of the vnode, and the cache still has pages of the vnode. -/
def PageSound (mem bytes : Nat → UInt8) (size cache i : Nat) (run : Except Fault (Nat × Backing)) :
    Prop :=
  ∃ p b' c, run = .ok (p, b') ∧ (p = 0 ∨ PageOk mem bytes size b'.store i p) ∧
    b'.cache cache = some c ∧ CacheOk mem bytes size b' c

/-- The RAM disk is mapped by `vm`, as `ramdisk_initrd_module_init` maps it, and the vnode has the
bytes that its data has there. -/
structure OnDisk (e : Spaces) (vm : VmMapping) (mem bytes : Nat → UInt8)
    (node : InitrdNode) : Prop where
  type : vm.type = .phys
  address : vm.address = node.rd.base
  inSpace : node.rd.base + node.rd.size ≤ word
  inMemory : vm.data + node.rd.size ≤ word
  get : ∀ va, node.rd.base ≤ va → va < node.rd.base + node.rd.size → isValidPointer va = true ∧
    ∃ id, id ≠ 0 ∧ spaceGetMapping e.sys.vm (selectSpace e.sys.vm e.curspace va) va = .ok id ∧
      e.sys.vm.mapping id = vm
  bytes : ∀ o, bytes o = mem (vm.data + node.dataOffset + o)

/-- Where `initrd_vn_getpage` is right, for a disk at the physical address `phys`: behind the disk,
where it fails, and where the data at the offset starts a frame that no allocator has. The page is
then right if the offset is at the start of a page of the vnode, or the bytes happen to be the
same. -/
def Served (zones : List (Zone × Range)) (phys : Nat) (bytes : Nat → UInt8) (size : Nat)
    (node : InitrdNode) (off : Nat) : Prop :=
  node.rd.size ≤ node.dataOffset + off ∨
    (phys + node.dataOffset + off) % pageSize = 0 ∧
      Unmanaged zones (phys + node.dataOffset + off) ∧
      ∀ k < pageSize, off / pageSize * pageSize + k < size →
        bytes (off + k) = bytes (off / pageSize * pageSize + k)

variable {mem bytes : Nat → UInt8} {size i p q n off va phys : Nat} {s : Pages.Store}
  {x : Pages.Page}
  {b b' : Backing} {f : VmFile} {c : PgCache} {e : Spaces} {vm : VmMapping} {node : InitrdNode}
  {vn : VnodePages}

/-! ## The RAM disk -/

/-- The copy of a list of one page. -/
theorem allocCowStructs_single (h0 : p ≠ 0) (hp : p < s.brk) (hx : s.page p = some x)
    (hhead : x.head = true) (hnext : x.next = 0) :
    ∃ s' y, Pages.allocCowStructs s p = .ok (s', s.brk) ∧ s'.brk = s.brk + 1 ∧
      s'.page p = some { x with refcount := x.refcount + 1 } ∧ s'.page s.brk = some y ∧
      y.refcount = 1 ∧ y.address = x.address ∧ ∀ q < s.brk, q ≠ p → s'.page q = s.page q := by
  have hend : ∀ s' first last, Pages.cowLoop s.brk s' 0 first last = .ok (s', first) := by
    obtain ⟨m, hm⟩ : ∃ m, s.brk = m + 1 := ⟨s.brk - 1, by omega⟩
    intro s' first last
    rw [hm, Pages.cowLoop, if_pos rfl]
  have hne : p ≠ s.brk := Nat.ne_of_lt hp
  let s₁ := s.set p { x with refcount := x.refcount + 1 }
  have hx₁ : s₁.page p = some { x with refcount := x.refcount + 1 } := if_pos rfl
  let s₂ := s₁.alloc (Pages.cowPage p x)
  have hx₂ : s₂.page p = some { x with refcount := x.refcount + 1 } := (if_neg hne).trans hx₁
  have hy₂ : s₂.page s.brk = some (Pages.cowPage p x) := if_pos rfl
  refine ⟨s₂.set s.brk { Pages.cowPage p x with
    head := true, count := x.count, contiguous := x.contiguous }, _, ?_, rfl,
      (if_neg hne).trans hx₂,
    if_pos rfl, rfl, rfl, fun q hq hqp => ?_⟩
  · rw [Pages.allocCowStructs, Pages.deref_eq hx h0]
    dsimp only [bind, Except.bind]
    have hloop : Pages.cowLoop (s.brk + 1) s p 0 0 = .ok (s₂, s.brk) := by
      rw [Pages.cowLoop, if_neg h0, Pages.deref_eq hx h0]
      dsimp only [bind, Except.bind]
      rw [Pages.getref, if_neg h0, Pages.modify_eq hx h0]
      dsimp only [Pages.append]
      rw [if_pos rfl]
      dsimp only
      rw [Pages.deref_eq (s := s₂) hx₂ h0]
      show Pages.cowLoop s.brk s₂ x.next s.brk s.brk = _
      rw [hnext, hend]
    rw [if_pos hhead, hloop]
    dsimp only
    rw [Pages.deref_eq hx₂ h0]
    dsimp only [Pages.markHead]
    rw [Pages.modify_eq hy₂ (by omega)]
    rfl
  · have hqb : q ≠ s.brk := Nat.ne_of_lt hq
    exact (if_neg hqb).trans ((if_neg hqb).trans (if_neg hqp))

/-- The mapping of the disk. -/
theorem OnDisk.getpage_iff (h : OnDisk e vm mem bytes node) (hlo : node.rd.base ≤ va)
    (hhi : va < node.rd.base + node.rd.size) {r : Nat × Backing} :
    e.getpage va b = .ok r ↔ ∃ st, allocNonownedPagesAt e.zones b.store
        (vm.data + (va - node.rd.base)) = .ok (st, r.1) ∧ r.2 = { b with store := st } := by
  obtain ⟨hvalid, id, hid, hget, hvm⟩ := h.get va hlo hhi
  have hword := h.inSpace
  have hphys := h.inMemory
  have haddr : addWord vm.data (subWord va vm.address) = vm.data + (va - node.rd.base) := by
    rw [h.address, subWord_of_le hlo (by omega), addWord_of_lt (by omega)]
  have hphysIn : getpageIn e.zones e.missingPage va vm b = .ok r ↔ _ := getpageIn_phys h.type
  rw [haddr] at hphysIn
  let s : Sys := { e.sys with vm := { e.sys.vm with backing := b } }
  have hin : (∃ s', inMapping s e.curspace va (getpageIn e.zones e.missingPage va) = .ok (r.1, s') ∧
      s'.vm.backing = r.2) ↔ _ :=
    inMapping_ok hvalid hget hid (by rw [show s.vm.mapping id = vm from hvm, h.type]; decide)
  rw [show s.vm.mapping id = vm from hvm] at hin
  rw [← hphysIn, ← hin]
  constructor
  · intro hrun
    obtain ⟨⟨page, s'⟩, hs, hrun⟩ := bind_ok hrun
    cases hrun
    exact ⟨s', hs, rfl⟩
  · rintro ⟨s', hs, hb⟩
    show (vmGetpage _ _ s _ _ >>= _) = _
    rw [vmGetpage, hs]
    exact congrArg Except.ok (Prod.ext rfl hb)

/-- A frame of the disk comes in a new struct. -/
theorem OnDisk.vmGetpageCow (h : OnDisk e vm mem bytes node) (hlo : node.rd.base ≤ va)
    (hhi : va < node.rd.base + node.rd.size) (hbrk : b.store.brk ≠ 0)
    (hal : (vm.data + (va - node.rd.base)) % pageSize = 0)
    (hfree : Unmanaged e.zones (vm.data + (va - node.rd.base))) :
    ∃ st y, vmGetpageCow e va b = .ok (b.store.brk + 1, { b with store := st }) ∧
      st.brk = b.store.brk + 2 ∧ st.page (b.store.brk + 1) = some y ∧ y.refcount = 1 ∧
      y.address = vm.data + (va - node.rd.base) ∧ ∀ q < b.store.brk,
        st.page q = b.store.page q := by
  have hphys := h.inMemory
  generalize ha : vm.data + (va - node.rd.base) = a at *
  let st₁ := (b.store.alloc (Pages.nonownedPage pageSize a)).set b.store.brk (frameStruct a)
  have hrun : e.getpage va b = .ok (b.store.brk, { b with store := st₁ }) := by
    refine (h.getpage_iff hlo hhi).mpr ⟨st₁, ?_, rfl⟩
    rw [ha]
    exact allocNonownedPagesAt_run hbrk hal (by omega) hfree
  have hx₁ : st₁.page b.store.brk = some (frameStruct a) := if_pos rfl
  have hold₁ : ∀ q < b.store.brk, st₁.page q = b.store.page q := fun q hq =>
    (if_neg (Nat.ne_of_lt hq)).trans (if_neg (Nat.ne_of_lt hq))
  obtain ⟨st₂, y, hcow, hbrk₂, hx₂, hy, href, haddr, hold₂⟩ :=
    allocCowStructs_single hbrk (Nat.lt_succ_self b.store.brk) hx₁ rfl rfl
  have hdrop := dropPages_eq (b := { b with store := st₂ }) hx₂ hbrk (show 1 + 1 ≠ 1 by decide)
  refine ⟨st₂.set b.store.brk (frameStruct a), y, ?_, hbrk₂, (if_neg (by omega)).trans hy, href,
    haddr, fun q hq =>
    (if_neg (Nat.ne_of_lt hq)).trans ((hold₂ q (Nat.lt_succ_of_lt hq) (Nat.ne_of_lt hq)).trans
      (hold₁ q hq))⟩
  rw [Vm.vmGetpageCow, hrun]
  dsimp only [bind, Except.bind]
  rw [if_neg hbrk, derefPage_eq (b := { b with store := st₁ }) hx₁ hbrk]
  dsimp only
  rw [if_neg (show ¬ (frameStruct a).cow = true from Bool.false_ne_true),
    show Pages.allocCowStructs st₁ b.store.brk = _ from hcow]
  dsimp only [Except.mapError]
  rw [hdrop]
  rfl

/-- A page of the disk comes only from a frame without an allocator. -/
theorem OnDisk.frame (h : OnDisk e vm mem bytes node) (hlo : node.rd.base ≤ va)
    (hhi : va < node.rd.base + node.rd.size) {r : Nat × Backing}
    (hrun : Vm.vmGetpageCow e va b = .ok r) :
    (vm.data + (va - node.rd.base)) % pageSize = 0 ∧
      Unmanaged e.zones (vm.data + (va - node.rd.base)) := by
  obtain ⟨⟨page, b₁⟩, hget, -⟩ := bind_ok hrun
  obtain ⟨st, halloc, -⟩ := (h.getpage_iff hlo hhi).mp hget
  exact allocNonownedPagesAt_ok halloc

/-! ## The page cache -/

/-- A page with another number of references. -/
theorem PageOk.set_iff (hx : s.page q = some x) (href : 0 < x.refcount) (hn : 0 < n) :
    PageOk mem bytes size (s.set q { x with refcount := n }) i p ↔ PageOk mem bytes size s i p := by
  unfold PageOk
  obtain rfl | hq := eq_or_ne p q
  · rw [Pages.page_set_self, hx]
    simp only [Option.some.injEq, exists_eq_left']
    rw [iff_true_intro hn, iff_true_intro href]
    rfl
  · rw [Pages.page_set_ne hq]
    rfl

theorem index_eq (hpg : c.pgSize = pageSize) (off : Nat) : c.index off = off / pageSize := by
  rw [PgCache.index, hpg]
  rfl

/-- A page that is in the cache. -/
theorem pageSound_hit {missingPage : MissingPage} (hoff : off < f.size) (hc0 : f.pgcache ≠ 0)
    (hc : b.cache f.pgcache = some c) (hok : CacheOk mem bytes size b c)
    (hcap : addWord off f.off < c.maxCapacity) (hp : c.page (addWord off f.off / pageSize) ≠ 0) :
    PageSound mem bytes size f.pgcache (addWord off f.off / pageSize)
      (vmFileGetpage missingPage f off b) := by
  obtain ⟨-, -, x, hx, href, -⟩ := id (hok.2 _ hp)
  let b' : Backing := { b with
    store := b.store.set (c.page (addWord off f.off / pageSize))
      { x with refcount := x.refcount + 1 } }
  have hset : ∀ {i q}, PageOk mem bytes size b.store i q → PageOk mem bytes size b'.store i q :=
    fun h => (PageOk.set_iff hx href (Nat.succ_pos _)).mpr h
  refine ⟨_, b', c, ?_, .inr (hset (hok.2 _ hp)), hc, hok.1, fun i hi => hset (hok.2 i hi)⟩
  unfold vmFileGetpage pgcacheLookup
  rw [if_neg (by omega), derefCache_eq hc0 hc]
  dsimp only [bind, Except.bind]
  rw [if_neg (by omega), index_eq hok.1, getref_eq hx hp]
  exact if_pos hp

/-- A page that is not in the cache comes from `missing_page`. -/
theorem vmFileGetpage_miss {missingPage : MissingPage} (hoff : off < f.size) (hc0 : f.pgcache ≠ 0)
    (hc : b.cache f.pgcache = some c) (hpg : c.pgSize = pageSize)
    (hmiss : addWord off f.off < c.maxCapacity → c.page (addWord off f.off / pageSize) = 0) :
    vmFileGetpage missingPage f off b = (missingPage f (addWord off f.off) b).bind
      fun r => insertMissing f (addWord off f.off) r.1 r.2 := by
  have hlookup : pgcacheLookup b f.pgcache (addWord off f.off) = .ok (0, b) := by
    rw [pgcacheLookup, derefCache_eq hc0 hc]
    dsimp only [bind, Except.bind]
    split
    · rfl
    next hcap =>
      rw [index_eq hpg, hmiss (by omega)]
      rfl
  rw [vmFileGetpage, if_neg (by omega)]
  dsimp only
  rw [hlookup]
  rfl

/-- A new page goes to the cache, if it has a place for it, and is returned. -/
theorem insertMissing_run (hc0 : f.pgcache ≠ 0) (hc : b.cache f.pgcache = some c)
    (hpg : c.pgSize = pageSize) (hmiss : off < c.maxCapacity → c.page (off / pageSize) = 0)
    (h0 : p ≠ 0) (hx : b.store.page p = some x) (href : 0 < x.refcount) :
    ∃ b' c' n, insertMissing f off p b = .ok (p, b') ∧ 0 < n ∧
      b'.store = b.store.set p { x with refcount := n } ∧ b'.cache f.pgcache = some c' ∧
      c'.pgSize = pageSize ∧ ∀ i, c'.page i = c.page i ∨ i = off / pageSize ∧ c'.page i = p := by
  let b₁ : Backing := { b with store := b.store.set p { x with refcount := x.refcount + 1 } }
  have hx₁ : b₁.store.page p = some { x with refcount := x.refcount + 1 } := if_pos rfl
  unfold insertMissing pgcacheInsert
  rw [if_neg h0, getref_eq hx h0]
  dsimp only [bind, Except.bind]
  rw [derefCache_eq (b := b₁) hc0 hc]
  dsimp only [bind, Except.bind]
  by_cases hcap : c.maxCapacity ≤ off
  · rw [if_pos hcap, dropPages_eq hx₁ h0 (show x.refcount + 1 ≠ 1 by omega)]
    refine ⟨_, c, x.refcount, rfl, href, ?_, hc, hpg, fun i => .inl rfl⟩
    show (b₁.store.set p _ : Pages.Store) = _
    simp only [b₁, Pages.Store.set, Nat.add_sub_cancel, Pages.Store.mk.injEq, and_true]
    funext r
    split_ifs <;> rfl
  · rw [if_neg hcap, index_eq hpg, hmiss (by omega)]
    refine ⟨_, _, x.refcount + 1, rfl, Nat.succ_pos _, rfl, if_pos rfl, hpg, fun i => ?_⟩
    by_cases hi : i = off / pageSize
    · exact .inr ⟨hi, if_pos hi⟩
    · exact .inl (if_neg hi)

/-- What is returned and cached is right if the new page is. -/
theorem pageSound_insert_iff (hc0 : f.pgcache ≠ 0) (hc : b.cache f.pgcache = some c)
    (hok : CacheOk mem bytes size b c) (hmiss : off < c.maxCapacity → c.page (off / pageSize) = 0)
    (h0 : p ≠ 0) (hx : b.store.page p = some x) (href : 0 < x.refcount) :
    PageSound mem bytes size f.pgcache (off / pageSize) (insertMissing f off p b) ↔
      PageOk mem bytes size b.store (off / pageSize) p := by
  obtain ⟨b', c', n, hrun, hn, hstore, hc', hpg, hpage⟩ :=
    insertMissing_run hc0 hc hok.1 hmiss h0 hx href
  have hset : ∀ {i q}, PageOk mem bytes size b'.store i q ↔ PageOk mem bytes size b.store i q := by
    rw [hstore]
    exact PageOk.set_iff hx href hn
  constructor
  · rintro ⟨q, b₁, c₁, hrun', hq, -⟩
    cases hrun.symm.trans hrun'
    exact hset.mp (hq.resolve_left h0)
  · intro h
    refine ⟨p, b', c', hrun, .inr (hset.mpr h), hc', hpg, fun i hi => hset.mpr ?_⟩
    rcases hpage i with hpi | ⟨rfl, hpi⟩
    · rw [hpi] at hi ⊢
      exact hok.2 i hi
    · rwa [hpi]

/-! ## Files -/

section Files

variable (hc0 : f.pgcache ≠ 0) (hc : b.cache f.pgcache = some c) (hok : CacheOk mem bytes size b c)
  (hmiss : off < c.maxCapacity → c.page (off / pageSize) = 0)

include hc0 hc hok hmiss

/-- A page of an initrd file that is not in the cache. -/
theorem initrd_pageSound_iff (hdisk : OnDisk e vm mem bytes node) (hbrk : b.store.brk ≠ 0)
    (hneg : off < 2 ^ 63) (hsize : off < size) :
    PageSound mem bytes size f.pgcache (off / pageSize)
        (((initrdVnGetpage e size node off b).map fun r => (r.1.toOption.getD 0, r.2)).bind
          fun r => insertMissing f off r.1 r.2) ↔
      Served e.zones vm.data bytes size node off := by
  have hd : addWord node.dataOffset off = node.dataOffset + off :=
    addWord_of_lt (by have := node.small; unfold word; omega)
  unfold initrdVnGetpage ramdiskDGetpage
  rw [if_neg (by omega), hd]
  by_cases hend : node.rd.size ≤ node.dataOffset + off
  · rw [if_pos hend]
    exact iff_of_true ⟨0, b, c, rfl, .inl rfl, hc, hok⟩ (.inl hend)
  have hspace := hdisk.inSpace
  have hva : addWord node.rd.base (node.dataOffset + off) = node.rd.base +
      (node.dataOffset + off) :=
    addWord_of_lt (by omega)
  have ha : vm.data + (node.rd.base + (node.dataOffset + off) - node.rd.base) =
      vm.data + node.dataOffset + off := by omega
  rw [if_neg hend, hva, Served, or_iff_right hend, ← ha]
  have hlo : node.rd.base ≤ node.rd.base + (node.dataOffset + off) := Nat.le_add_right _ _
  have hhi : node.rd.base + (node.dataOffset + off) < node.rd.base + node.rd.size := by omega
  by_cases hframe :
      (vm.data + (node.rd.base + (node.dataOffset + off) - node.rd.base)) % pageSize = 0 ∧
      Unmanaged e.zones (vm.data + (node.rd.base + (node.dataOffset + off) - node.rd.base))
  · obtain ⟨st, y, hrun, hst, hy, href, haddr, hold⟩ :=
      hdisk.vmGetpageCow hlo hhi hbrk hframe.1 hframe.2
    have hok' : CacheOk mem bytes size { b with store := st } c := by
      refine ⟨hok.1, fun i hi => ?_⟩
      obtain ⟨h0, hlt, z, hz⟩ := hok.2 i hi
      exact ⟨h0, Nat.lt_of_lt_of_le hlt (by rw [hst]; omega), z, (hold _ hlt).trans hz.1, hz.2⟩
    have hpage := pageSound_insert_iff (b := { b with store := st }) hc0 hc hok' hmiss
      (Nat.succ_ne_zero _) hy (by omega)
    rw [hrun]
    refine hpage.trans ?_
    rw [iff_true_intro hframe.1, iff_true_intro hframe.2, true_and, true_and, PageOk]
    have hbytes : ∀ k, mem (y.address + k) = bytes (off + k) := by
      intro k
      rw [hdisk.bytes, haddr, ha, Nat.add_assoc]
    constructor
    · rintro ⟨-, -, z, hz, -, h⟩
      cases hy.symm.trans hz
      simpa only [hbytes] using h
    · intro h
      refine ⟨Nat.succ_ne_zero _, by rw [hst]; omega, y, hy, by omega, ?_⟩
      simpa only [hbytes] using h
  · refine iff_of_false (fun h => ?_) fun h => hframe ⟨h.1, h.2.1⟩
    obtain ⟨q, b', c', hrun, -⟩ := h
    cases hcow : vmGetpageCow e (node.rd.base + (node.dataOffset + off)) b with
    | error err =>
      rw [hcow] at hrun
      cases hrun
    | ok r => exact hframe (hdisk.frame hlo hhi hcow)

end Files

/-- **What a file of a vnode returns and puts into the cache is right, whatever the variable `page`
of `vnode_getpage_missing` holds, exactly if the page is in the cache, or `vn_getpage` fails, or the
offset is below the size of the vnode and the file system has a page of the vnode for it.** -/
theorem vnodeFile_pageSound_iff (hoff : off < f.size) (hc0 : f.pgcache ≠ 0)
    (hc : b.cache f.pgcache = some c) (hok : CacheOk mem bytes vn.size b c) (hbrk : b.store.brk ≠ 0)
    (hdisk : ∀ node, vn.ops = some (.initrd node) → OnDisk e vm mem bytes node)
    (hq0 : q ≠ 0) (hq : b.store.page q = none) :
    (∀ page, PageSound mem bytes vn.size f.pgcache (addWord off f.off / pageSize)
        (vmFileGetpage (vnodeGetpageMissing e vn page) f off b)) ↔
      (addWord off f.off < c.maxCapacity ∧ c.page (addWord off f.off / pageSize) ≠ 0) ∨
        vn.ops = none ∨ 2 ^ 63 ≤ addWord off f.off ∨
        addWord off f.off < vn.size ∧ ∀ node, vn.ops = some (.initrd node) →
          Served e.zones vm.data bytes vn.size node (addWord off f.off) := by
  by_cases hhit : addWord off f.off < c.maxCapacity ∧ c.page (addWord off f.off / pageSize) ≠ 0
  · exact iff_of_true (fun _ => pageSound_hit hoff hc0 hc hok hhit.1 hhit.2) (.inl hhit)
  have hmiss : addWord off f.off < c.maxCapacity → c.page (addWord off f.off / pageSize) = 0 :=
    fun h => by_contra fun h' => hhit ⟨h, h'⟩
  have hnull : PageSound mem bytes vn.size f.pgcache (addWord off f.off / pageSize) (.ok (0, b)) :=
    ⟨0, b, c, rfl, .inl rfl, hc, hok⟩
  have hrun : ∀ page, vmFileGetpage (vnodeGetpageMissing e vn page) f off b = _ :=
    fun _ => vmFileGetpage_miss hoff hc0 hc hok.1 hmiss
  simp only [hrun, hhit, false_or]
  generalize addWord off f.off = o at *
  cases hg : vn.ops with
  | none =>
    refine iff_of_true (fun page => ?_) (.inl rfl)
    have hmissing : vnodeGetpageMissing e vn page f o b = .ok (0, b) := by
      rw [vnodeGetpageMissing, vnGetpage, hg]
      rfl
    rwa [hmissing]
  | some fs =>
    have hmissing : ∀ page, vnodeGetpageMissing e vn page f o b =
        if 2 ^ 63 ≤ o then .ok (0, b) else if vn.size ≤ o then .ok (page, b)
        else (vn.vGetpage e fs o b).map fun r => (r.1.toOption.getD 0, r.2) := by
      intro page
      rw [vnodeGetpageMissing, vnGetpage, hg]
      simp only [Bool.false_eq_true, false_and, if_false]
      split_ifs
      · rfl
      · rfl
      · dsimp only [bind, Except.bind]
        rcases vn.vGetpage e fs o b with e | ⟨e | p, b'⟩ <;> rfl
    simp only [hmissing, reduceCtorEq, false_or, Option.some.injEq]
    by_cases hneg : 2 ^ 63 ≤ o
    · simp only [if_pos hneg]
      exact iff_of_true (fun _ => hnull) (.inl hneg)
    simp only [hneg, false_or]
    by_cases hsize : vn.size ≤ o
    · refine iff_of_false (fun h => ?_) fun h => absurd h.1 (by omega)
      obtain ⟨p, b', c', hrun, -⟩ := h q
      rw [if_pos hsize] at hrun
      obtain ⟨b1, href, -⟩ := bind_ok ((if_neg hq0).symm.trans hrun)
      obtain ⟨st, hst, -⟩ := bind_ok href
      simp [Pages.getref, hq0, Pages.Store.modify, Pages.Store.deref, hq, Except.mapError] at hst
      cases hst
    · simp only [if_neg hsize, forall_const]
      rw [and_iff_right (by omega)]
      cases fs with
      | initrd node =>
        simp only [FsNode.initrd.injEq, forall_eq']
        exact initrd_pageSound_iff hc0 hc hok hmiss (hdisk node hg) hbrk (by omega) (by omega)
      | ramfs memf =>
        -- the memory of the file is empty: `-EIO`
        refine iff_of_true ?_ (fun _ h => by cases h)
        have hempty : memf.size ≤ o := memf.empty ▸ Nat.zero_le o
        rw [VnodePages.vGetpage, ramfsVnGetpage, memfileGetpage, if_pos hempty]
        exact hnull

/-! ## A file on a disk -/

/-- The mapping of a RAM disk of two pages. -/
def diskMapping : VmMapping :=
  ⟨.phys, vmRead, 0xFFFFC00000000000, 0x2000, 0x2000, 2, 0x1000000⟩

/-- The address spaces with it, and a frame allocator for other memory. -/
def diskSpaces : Spaces where
  zones := [(.normal, ⟨0x2000000, 0x1000000⟩)]
  missingPage := noMissing
  sys :=
    let x := emptySpace 4 kernelSpaceStart kernelSpaceEnd
    let tree := Intvl.intvlTreeInsert x.tree 5 6 ⟨0xFFFFC00000000000, 0xFFFFC00000002000⟩ 7
    { emptySys with vm := { emptySys.vm with
        space := fun _ => { x with tree := tree.getD x.tree }
        mapping := fun _ => diskMapping } }
  curspace := 1

/-- The second page of the disk has a file of 2048 bytes. -/
def diskNode : InitrdNode := ⟨⟨0xFFFFC00000000000, 0x2000⟩, 0x1000, by decide⟩

def diskVnode : VnodePages := ⟨0x800, 1, some (.initrd diskNode)⟩

/-- A mapping of two pages of the file. -/
def diskFile : VmFile := { size := 0x2000, off := 0, pgSize := pageSize, vnode := 1, pgcache := 1 }

def diskBacking : Backing := { anonBacking with store := Pages.pairStore }

/-- The bytes of the file, in a memory where the bytes count up. -/
def diskByte (o : Nat) : UInt8 := .ofNat (0x1000000 + 0x1000 + o)

/-- The mapping at the root of the tree is found for each of its addresses. -/
theorem intvlTreeGetPoint_root {t : Rb.RbTree} {m : Intvl.Intervals} {lo hi : Nat}
    (hroot : t.root ≠ t.nil) (hi' : Intvl.getInterval t m t.root = ⟨lo, hi⟩) (hlo : lo ≤ va)
    (hhi : va < hi) (hword : va + 1 < word) :
    Intvl.intvlTreeGetPoint t m va = some (m.data (t.data t.root)) := by
  have hover : Intvl.overlaps ⟨va, (va + 1) % word⟩ (Intvl.getInterval t m t.root) = true := by
    rw [hi', Nat.mod_eq_of_lt hword, Intvl.overlaps_iff]
    exact ⟨Nat.lt_succ_of_le hlo, hhi⟩
  rw [Intvl.intvlTreeGetPoint, Intvl.searchLoop, if_neg (by simp [hover])]
  exact if_pos hroot

theorem diskSpaces_onDisk : OnDisk diskSpaces diskMapping UInt8.ofNat diskByte diskNode where
  type := rfl
  address := rfl
  inSpace := by decide
  inMemory := by decide
  get va hlo hhi := by
    have hlo : 0xFFFFC00000000000 ≤ va := hlo
    have hhi : va < 0xFFFFC00000000000 + 0x2000 := hhi
    refine ⟨?_, 7, by decide, ?_, rfl⟩
    · unfold isValidPointer kernelSpaceStart kernelSpaceEnd
      exact decide_eq_true (.inr ⟨by omega, by omega⟩)
    · show ofTree (Intvl.intvlTreeGetPoint (diskSpaces.sys.vm.space 2).tree.tree
        (diskSpaces.sys.vm.space 2).tree.data va) = _
      rw [intvlTreeGetPoint_root (by decide) rfl hlo hhi (by unfold word; omega)]
      rfl
  bytes _ := rfl

/-- The first page of the file comes from the disk, whatever the variable holds. -/
theorem diskFile_sound : diskVnode.size = 0x800 ∧
    ∀ page, PageSound UInt8.ofNat diskByte diskVnode.size 1 0
      (vmFileGetpage (vnodeGetpageMissing diskSpaces diskVnode page) diskFile 0 diskBacking) := by
  have hdisk : ∀ node, diskVnode.ops = some (.initrd node) →
      OnDisk diskSpaces diskMapping UInt8.ofNat diskByte node := by
    rintro node ⟨⟩
    exact diskSpaces_onDisk
  have hok : CacheOk UInt8.ofNat diskByte diskVnode.size diskBacking ⟨0, pageSize, fun _ => 0, 1⟩ :=
    ⟨rfl, fun _ hi => absurd rfl hi⟩
  have hserved : ∀ node, diskVnode.ops = some (.initrd node) →
      Served diskSpaces.zones diskMapping.data diskByte diskVnode.size node 0 := by
    rintro node ⟨⟩
    exact .inr ⟨by decide, ⟨by decide, by decide⟩, fun k _ _ => by rw [Nat.zero_div, Nat.zero_mul]⟩
  exact ⟨rfl, (vnodeFile_pageSound_iff (by decide) (by decide) rfl hok (by decide) hdisk
    (show 3 ≠ 0 by decide) rfl).mpr (.inr (.inr (.inr ⟨by decide, hserved⟩)))⟩

/-- **Behind the end of the vnode, the variable is taken for a page; inside a page, the frame of the
disk is not aligned.** -/
theorem diskFile_not_sound :
    vmFileGetpage (vnodeGetpageMissing diskSpaces diskVnode 3) diskFile 0x1000 diskBacking =
        .error .freed ∧
      ¬ PageSound UInt8.ofNat diskByte diskVnode.size 1 1
        (vmFileGetpage (vnodeGetpageMissing diskSpaces diskVnode 3) diskFile 0x1000 diskBacking) ∧
      ¬ PageSound UInt8.ofNat diskByte diskVnode.size 1 0
        (vmFileGetpage (vnodeGetpageMissing diskSpaces diskVnode 3) diskFile 8 diskBacking) := by
  have hrun := eq_error_of_errorOf
    (show errorOf (vmFileGetpage (vnodeGetpageMissing diskSpaces diskVnode 3)
    diskFile 0x1000 diskBacking) = some .freed by rfl)
  have hrun8 := eq_error_of_errorOf
    (show errorOf (vmFileGetpage (vnodeGetpageMissing diskSpaces diskVnode 3)
    diskFile 8 diskBacking) = some .assertion by decide +kernel)
  refine ⟨hrun, ?_, ?_⟩
  · rintro ⟨p, b', c, hok, -⟩
    cases hrun.symm.trans hok
  · rintro ⟨p, b', c, hok, -⟩
    cases hrun8.symm.trans hok

end Osdev.Vm
