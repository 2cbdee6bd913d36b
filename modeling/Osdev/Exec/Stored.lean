import Osdev.Exec.Contain
import Osdev.Pages.Fill

/-!
# Programs on a RAM disk

The loader of `kernel/loadelf.c` together with the parts of the kernel that give it pages: the page
cache of a vnode, the RAM disk (`drivers/ramdisk.c`) with `vm_getpage_cow`, the page allocator and
`fill_unmapped_pages`. A page of the file that is not cached comes as a new copy-on-write struct,
and its frame is the frame of the RAM disk itself.

The mapped file shows these frames too, so the loader reads its headers from the memory that it
clears. Loading an interpreter is a load of another file.
-/

namespace Osdev.Elf

open Osdev.Lib
open Osdev.Pages (Store Entry PageList Linked Extends Owned getref dropPages allocNonownedStructs
  allocCowStructs allocPageStructs freshEntries)

/-! ## The model -/

/-- A page of the page cache: the struct and the address of its frame. -/
structure CachedPage where
  page : Nat
  frame : Nat
  deriving DecidableEq, Repr

/-- A file on a RAM disk that starts at `diskPhys`, and the page cache of its vnode. A physical
address has 52 bits. -/
structure StoredFile where
  size : Nat
  dataOffset : Nat
  diskPhys : Nat
  diskSize : Nat
  pgcache : Nat → Option CachedPage
  onDisk : dataOffset + size ≤ diskSize
  inMemory : diskPhys + diskSize ≤ 2 ^ 52

namespace StoredFile

/-- The frame of page `k` of the file. -/
def frame (file : StoredFile) (k : Nat) : Nat :=
  match file.pgcache k with
  | some c => c.frame
  | none => file.diskPhys + file.dataOffset + pageSize * k

/-- Byte `o` of the stored file. -/
def byte (file : StoredFile) (m : Mem) (o : Nat) : UInt8 :=
  m (file.frame (o / pageSize) + o % pageSize)

/-- The file as it is mapped at `base`. -/
def view (file : StoredFile) (base : Nat) (hfits : base + file.size ≤ word) (m : Mem) :
    FileMap where
  base := base
  bytes := (List.range file.size).map (file.byte m)
  fits := by
    rwa [List.length_map, List.length_range]
  inMemory := by
    rw [List.length_map, List.length_range]
    have := file.onDisk
    have := file.inMemory
    omega

end StoredFile

/-- Free frames of a frame allocator. -/
structure Region where
  fa : Nat
  frame : Nat
  count : Nat
  deriving DecidableEq, Repr

/-- Page structs, physical memory, and the free regions in the order in which they are handed
out. -/
structure Machine where
  store : Store
  mem : Mem
  free : List Region

/-- `vm_getpage_cow` for an address that is mapped to `phys` by a mapping of physical memory. -/
def vmGetpageCow (s : Store) (phys : Nat) : Except Pages.Fault (Store × Nat) := do
  let (s, page) ← allocNonownedStructs s phys 1 pageSize
  let (s, cowPage) ← allocCowStructs s page
  let s ← dropPages s page
  .ok (s, cowPage)

/-- `ramdisk_d_getpage`. -/
def ramdiskDGetpage (file : StoredFile) (off : Nat) (s : Store) : Except Pages.Fault
    (Store × Nat) :=
  if file.diskSize ≤ off then .ok (s, 0) else vmGetpageCow s (addWord file.diskPhys off)

/-- `vn_getpage` with the page cache, where 0 stands for no page. -/
def vnGetpage (file : StoredFile) (off : Nat) (s : Store) : Except Pages.Fault (Store × Nat) :=
  if 2 ^ 63 ≤ off ∨ file.size ≤ off then .ok (s, 0)
  else
    match file.pgcache (off / pageSize) with
    | some c => do
      let s ← getref s c.page
      .ok (s, c.page)
    | none => ramdiskDGetpage file (addWord file.dataOffset off) s

/-- A call that changes the page structs. -/
def onStore (f : Store → Except Pages.Fault (Store × Nat)) : StateT Machine Option Nat := fun s =>
  match f s.store with
  | .ok (store, page) => some (page, { s with store := store })
  | .error _ => none

/-- `alloc_pages`, which panics when it is out of memory. -/
def allocPages (count : Nat) : StateT Machine Option Nat := fun s =>
  match s.free with
  | [] => none
  | r :: free =>
    if r.count < count then none
    else onStore (allocPageStructs · r.fa r.frame count pageSize) { s with free := free }

/-- `fill_unmapped_pages`. -/
def fillUnmappedPages (pages : Nat) (v : UInt8) (off len : Nat) :
    StateT Machine Option Unit := fun s =>
  match Pages.fillUnmappedPages s.store pages v off len s.mem with
  | .ok mem => some ((), { s with mem := mem })
  | .error _ => none

/-- The kernel around the loader, where the file is mapped at `base` and `interp` loads the
interpreter. -/
def storedKernel (file : StoredFile) (base : Nat) (hfits : base + file.size ≤ word)
    (interp : Nat → List UInt8 → StateT Machine Option (Int × Nat)) : Kernel Machine Nat where
  file s := file.view base hfits s.mem
  null := 0
  fsGetpage _ off := onStore (vnGetpage file off)
  pageListJoin head tail := onStore (Pages.pageListJoin · head tail)
  allocPages := allocPages
  fillUnmappedPages := fillUnmappedPages
  execLoadImage := interp

/-! ## Segments -/

/-- The fields of a `PT_LOAD` header. -/
structure Seg where
  offset : Nat
  vaddr : Nat
  filesz : Nat
  memsz : Nat
  flags : Nat
  deriving DecidableEq, Repr

/-- Program header `i`, if it is a segment with memory. -/
def FileMap.seg (f : FileMap) (phoff i : Nat) : Option Seg :=
  if f.prog phoff i pType = ptLoad ∧ f.prog phoff i pMemsz ≠ 0 then
    some ⟨f.prog phoff i pOffset, f.prog phoff i pVaddr, f.prog phoff i pFilesz,
      f.prog phoff i pMemsz, f.prog phoff i pFlags⟩
  else none

/-- The segments of the program headers from `i` on. -/
def segments (f : FileMap) (phoff : Nat) : Nat → Nat → List Seg
  | 0, _ => []
  | n + 1, i => (f.seg phoff i).toList ++ segments f phoff n (i + 1)

namespace Seg

/-- The descriptor that the loader makes. -/
def desc {π : Type} (g : Seg) (base : Nat) (pages : π) : SegDesc π :=
  segDesc base (alignDown g.vaddr pageSize)
    (subWord (align (addWord g.vaddr g.memsz) pageSize) (alignDown g.vaddr pageSize)) g.flags pages

/-- The size of the segment in the file, in whole pages. -/
def fileSpan (g : Seg) : Nat :=
  subWord (align (addWord g.offset g.filesz) pageSize) (alignDown g.offset pageSize)

/-- The size of the segment in memory, in whole pages. -/
def memSpan (g : Seg) : Nat :=
  subWord (align (addWord g.vaddr g.memsz) pageSize) (alignDown g.vaddr pageSize)

/-- A segment of a well-formed executable of `size` bytes. -/
structure WellFormed (size : Nat) (g : Seg) : Prop where
  filesz_le : g.filesz ≤ g.memsz
  congruent : g.offset % pageSize = g.vaddr % pageSize
  inFile : g.offset + g.filesz ≤ size
  inSpace : g.vaddr + g.memsz + pageSize ≤ word

/-- The number of pages of the file that the segment is made of. -/
def filePages (g : Seg) : Nat :=
  (g.offset + g.filesz + pageSize - 1) / pageSize - g.offset / pageSize

/-- The number of pages from `page_trunc(p_vaddr)` to `page_align(p_vaddr + p_memsz)`. -/
def pages (g : Seg) : Nat := (g.vaddr + g.memsz + pageSize - 1) / pageSize - g.vaddr / pageSize

/-- The pages of the file that the loader asks for. -/
def fileIdx (g : Seg) : List Nat := List.range' (g.offset / pageSize) g.filePages

end Seg

/-- The pages of a segment, as the loader gets them. -/
def loadPages {σ π : Type} (k : Kernel σ π) (fd : Int) (g : Seg) : LoadM σ π :=
  if g.filesz = g.memsz then
    getPages k fd (g.fileSpan / pageSize) (alignDown g.offset pageSize) k.null
  else if g.filesz < g.memsz then do
    let pages ← getPages k fd (g.fileSpan / pageSize) (alignDown g.offset pageSize) k.null
    bssPages k pages g.fileSpan g.memSpan (addWord (g.vaddr - alignDown g.vaddr pageSize) g.filesz)
      (g.memsz - g.filesz)
  else throw .panic

section Headers

variable {σ π : Type} {k : Kernel σ π} {fd : Int} {base phoff i : Nat}
  {p p' : Progress π} {s s' : σ}
  (hin : phoff + sizeofPhdr * (i + 1) ≤ (k.file s).len)

include hin

/-- A field of a header that is in the file. -/
theorem look_phdr (x : Field) (hx : x.off + x.size ≤ sizeofPhdr) (hpos : 0 < x.size) :
    look k (·.phdr phoff i x) s = .ok ((k.file s).prog phoff i x, s) :=
  look_run (FileMap.phdr_inside hin hx hpos)

/-- The case of a segment. -/
theorem loadSegment_cases (htype : (k.file s).prog phoff i pType = ptLoad)
    (hrun : loadSegment k fd base phoff i p s = .ok (p', s')) :
    ((k.file s).seg phoff i = none ∧ p'.descs = p.descs ∧ s' = s) ∨
      ∃ g pages, (k.file s).seg phoff i = some g ∧ loadPages k fd g s = .ok (pages, s') ∧
        p'.descs = p.descs ++ [g.desc base pages] := by
  rw [loadSegment, run_bind (look_phdr hin pMemsz (by decide) (by decide))] at hrun
  split at hrun
  next hzero =>
    cases hrun
    exact .inl ⟨if_neg fun h => h.2 hzero, rfl, rfl⟩
  next hmem =>
    rw [run_bind (look_phdr hin pVaddr (by decide) (by decide)),
      run_bind (look_phdr hin pOffset (by decide) (by decide)),
      run_bind (look_phdr hin pFilesz (by decide) (by decide)),
      run_bind (look_phdr hin pFlags (by decide) (by decide))] at hrun
    have hseg : (k.file s).seg phoff i = some _ := if_pos ⟨htype, hmem⟩
    refine .inr ?_
    split at hrun
    next heq =>
      obtain ⟨pages, s2, hpages, hdone⟩ := run_bind_ok hrun
      cases hdone
      exact ⟨_, pages, hseg, (congrFun (if_pos heq) s).trans hpages, rfl⟩
    next hne =>
      split at hrun
      next hlt =>
        obtain ⟨pages, s2, hpages, hrest⟩ := run_bind_ok hrun
        obtain ⟨pages2, s3, hbss, hdone⟩ := run_bind_ok hrest
        cases hdone
        refine ⟨_, pages2, hseg, ?_, rfl⟩
        rw [loadPages, if_neg hne, if_pos hlt]
        exact run_bind_eq_ok.mpr ⟨pages, s2, hpages, hbss⟩
      next => cases hrun

/-- Either a header is no segment and changes nothing here, or its pages are loaded. -/
theorem loadPhdr_cases (hrun : loadPhdr k fd base phoff i p s = .ok (p', s')) :
    ((k.file s).seg phoff i = none ∧ p'.descs = p.descs ∧ s' = s) ∨
      ∃ g pages, (k.file s).seg phoff i = some g ∧ loadPages k fd g s = .ok (pages, s') ∧
        p'.descs = p.descs ++ [g.desc base pages] := by
  rw [loadPhdr, run_bind (look_phdr hin pType (by decide) (by decide))] at hrun
  split at hrun
  next hload => exact loadSegment_cases hin hload hrun
  next hload =>
    refine .inl ⟨if_neg fun h => hload h.1, ?_⟩
    split at hrun
    next =>
      rw [run_bind (look_phdr hin pVaddr (by decide) (by decide))] at hrun
      cases hrun
      exact ⟨rfl, rfl⟩
    next =>
      split at hrun
      next =>
        obtain ⟨-, hrun⟩ := run_guard_eq_ok.mp hrun
        rw [run_bind (look_phdr hin pOffset (by decide) (by decide))] at hrun
        obtain ⟨interp, s1, hlook, hrun⟩ := run_bind_ok hrun
        cases hrun
        unfold look at hlook
        split at hlook
        · cases hlook
          exact ⟨rfl, rfl⟩
        · cases hlook
      next =>
        cases hrun
        exact ⟨rfl, rfl⟩

end Headers

end Osdev.Elf
