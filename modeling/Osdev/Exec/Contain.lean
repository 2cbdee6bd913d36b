import Mathlib
import Osdev.Exec.Elf
import Osdev.Lib.Except

/-!
# What the loader does with a hostile file

The loader compares the length of the file with the size of the ELF header and with a sum of table
sizes, and with nothing else. A file that passes these checks is handled safely exactly if its
program headers, the name of its interpreter and its segments lie in the file to begin with, and
still do so when the loader comes to them: the pages of a segment are the frames of the file, so
that the zeros behind the data of a segment go to the file, and to the program headers if these are
in the way.
-/

namespace Osdev.Elf

open Osdev.Lib

/-! ## The fields of a file -/

namespace FileMap

variable {f : FileMap}

/-- A field of the struct at an offset in the file. -/
def field (f : FileMap) (off : Nat) (x : Field) : Nat :=
  (readLE f.byte (f.base + off + x.off) x.size).getD 0

/-- A field of the ELF header. -/
def hdr (f : FileMap) (x : Field) : Nat := f.field 0 x

/-- A field of program header `i`, where the headers start at `phoff`. -/
def prog (f : FileMap) (phoff i : Nat) (x : Field) : Nat :=
  f.field (phoff + sizeofPhdr * i) x

theorem byte_inside {i : Nat} (h : i < f.len) : (f.byte (f.base + i)).isSome := by
  rw [byte]
  simpa [len] using h

theorem read_inside {off : Nat} {x : Field} (h : off + x.off + x.size ≤ f.len) :
    f.read (f.base + off + x.off) x.size = .ok (f.field off x) := by
  have hsome : (readLE f.byte (f.base + off + x.off) x.size).isSome := by
    refine isSome_readLE fun j hj => ?_
    rw [show f.base + off + x.off + j = f.base + (off + x.off + j) by omega]
    exact byte_inside (by omega)
  obtain ⟨v, hv⟩ := Option.isSome_iff_exists.mp hsome
  simp [read, field, hv]

theorem ehdr_inside {x : Field} (hlen : sizeofEhdr ≤ f.len) (hx : x.off + x.size ≤ sizeofEhdr)
    (hpos : 0 < x.size) : f.ehdr x = .ok (f.hdr x) := by
  have hfits : f.base + f.len ≤ word := f.fits
  rw [ehdr, addWord_of_lt (by omega)]
  exact @read_inside f 0 x (by omega)

theorem phdr_inside {phoff i : Nat} {x : Field} (h : phoff + sizeofPhdr * (i + 1) ≤ f.len)
    (hx : x.off + x.size ≤ sizeofPhdr) (hpos : 0 < x.size) :
    f.phdr phoff i x = .ok (f.prog phoff i x) := by
  have hfits : f.base + f.len ≤ word := f.fits
  rw [Nat.mul_succ] at h
  rw [phdr, Nat.mod_eq_of_lt (by omega), Nat.add_assoc f.base]
  exact read_inside (by omega)

theorem cstr_of_mem {l : List UInt8} (h : 0 ∈ l) : ∃ s, cstr l = some s := by
  induction l with
  | nil => cases h
  | cons c cs ih =>
    unfold cstr
    by_cases hc : c = 0
    · exact ⟨[], if_pos hc⟩
    · obtain ⟨s, hs⟩ := ih ((List.mem_cons.mp h).resolve_left (Ne.symm hc))
      exact ⟨c :: s, by rw [if_neg hc, hs]; rfl⟩

theorem strFrom_inside {off : Nat} (h : 0 ∈ f.bytes.drop off) :
    ∃ r, f.strFrom (addWord f.base off) = .ok r := by
  have hoff : off < f.len := by
    by_contra hge
    simp [List.drop_eq_nil_of_le (Nat.le_of_not_lt hge)] at h
  have hfits : f.base + f.len ≤ word := f.fits
  obtain ⟨s, hs⟩ := cstr_of_mem h
  rw [strFrom, addWord_of_lt (by omega), if_pos (Nat.le_add_right _ _), Nat.add_sub_cancel_left, hs]
  split
  · exact ⟨none, rfl⟩
  · exact ⟨some s, rfl⟩

end FileMap

/-! ## Checks and what they leave open -/

/-- The value of `elf_get_image_filesz`. -/
def imageFilesz (f : FileMap) : Nat :=
  ((BitVec.ofNat 32 (f.hdr eEhsize) + BitVec.ofNat 32 (f.hdr ePhnum) * BitVec.ofNat 32
    (f.hdr ePhentsize) +
    BitVec.ofNat 32 (f.hdr eShnum) * BitVec.ofNat 32 (f.hdr eShentsize)).signExtend 64).toNat

/-- The file begins with the header of a 64-bit ELF file for this system. -/
def ValidHeader (f : FileMap) : Prop :=
  sizeofEhdr ≤ f.len ∧
    (List.range 9).map (fun i => f.hdr (eIdent i)) = [0x7f, 0x45, 0x4c, 0x46, 2, 1, 1, 0, 0]

instance (f : FileMap) : Decidable (ValidHeader f) := instDecidableAnd

/-- The file passes the checks of the loader. -/
structure PassesChecks (f : FileMap) (type : Nat) : Prop where
  header : ValidHeader f
  filesz : imageFilesz f ≤ f.len
  type_eq : f.hdr eType = type

/-- Program header `i` lies in the file, with the interpreter name or the segment that it
describes. -/
structure PhdrInside (f : FileMap) (phoff i : Nat) : Prop where
  entry : phoff + sizeofPhdr * (i + 1) ≤ f.len
  interp : f.prog phoff i pType = ptInterp → 0 ∈ f.bytes.drop (f.prog phoff i pOffset)
  segment : f.prog phoff i pType = ptLoad → f.prog phoff i pMemsz ≠ 0 →
    f.prog phoff i pOffset + f.prog phoff i pFilesz ≤ f.len

namespace FileMap

/-- The bytes from `lo` to `hi` are set to `v`. -/
def fill (f : FileMap) (v : UInt8) (lo hi : Nat) : FileMap where
  base := f.base
  bytes := f.bytes.mapIdx fun j b => if lo ≤ j ∧ j < hi then v else b
  fits := by
    rw [List.length_mapIdx]
    exact f.fits
  inMemory := by
    rw [List.length_mapIdx]
    exact f.inMemory

/-- The size of a segment in the file, in whole pages. -/
def fileSpan (f : FileMap) (phoff i : Nat) : Nat :=
  subWord (align (addWord (f.prog phoff i pOffset) (f.prog phoff i pFilesz)) pageSize)
    (alignDown (f.prog phoff i pOffset) pageSize)

/-- The file after program header `i` was handled. The zeros of a segment start as far behind the
start of its first page as its data ends in memory, and they reach to the end of its pages. -/
def after (f : FileMap) (phoff i : Nat) : FileMap :=
  if f.prog phoff i pType = ptLoad ∧ f.prog phoff i pFilesz < f.prog phoff i pMemsz then
    let vaddr := f.prog phoff i pVaddr
    let off := alignDown (f.prog phoff i pOffset) pageSize
    let bss := addWord (vaddr - alignDown vaddr pageSize) (f.prog phoff i pFilesz)
    f.fill 0 (off + bss) (min (off + bss + (f.prog phoff i pMemsz - f.prog phoff i pFilesz))
      (off + f.fileSpan phoff i))
  else f

/-- The file when the loader comes to program header `i`. -/
def contents (f : FileMap) : Nat → FileMap
  | 0 => f
  | i + 1 => (f.contents i).after (f.hdr ePhoff) i

end FileMap

/-- The headers, the name of the interpreter and the segments lie in the file, as it is given and as
the loader meets it. -/
structure Inside (f : FileMap) : Prop where
  header : sizeofEhdr ≤ f.len
  given : ∀ i < f.hdr ePhnum, PhdrInside f (f.hdr ePhoff) i
  met : ∀ i, i < (f.contents i).hdr ePhnum → PhdrInside (f.contents i) (f.hdr ePhoff) i

/-- Loading the file reads only bytes of it, returns an error if a part that the headers name is not
in it, and returns no image with a segment that is not. -/
structure Contained {σ π : Type} (k : Kernel σ π) (fd : Int) (type base : Nat) (s : σ) : Prop where
  reads : ∀ addr, loadFile k fd type base s ≠ .error (.outside addr)
  rejects : ¬ Inside (k.file s) →
    ∃ res image s', loadFile k fd type base s = .ok ((res, image), s') ∧ res < 0
  segments : ∀ res image s', loadFile k fd type base s = .ok ((res, image), s') → 0 ≤ res →
    ∀ f, f = k.file s → ∀ i, i < (f.contents i).hdr ePhnum →
      (f.contents i).prog (f.hdr ePhoff) i pType = ptLoad →
      (f.contents i).prog (f.hdr ePhoff) i pMemsz ≠ 0 →
      (f.contents i).prog (f.hdr ePhoff) i pOffset + (f.contents i).prog (f.hdr ePhoff) i pFilesz ≤
        f.len

section Checks

variable {f : FileMap}

theorem isElfMagic_eq (hlen : sizeofEhdr ≤ f.len) :
    isElfMagic f = .ok (f.hdr (eIdent 0) == 0x7f && f.hdr (eIdent 1) == 0x45 &&
      f.hdr (eIdent 2) == 0x4c && f.hdr (eIdent 3) == 0x46) := by
  have hident : ∀ i < 4, f.ehdr (eIdent i) = .ok (f.hdr (eIdent i)) := fun i hi =>
    FileMap.ehdr_inside hlen (by unfold eIdent sizeofEhdr; dsimp only; omega) Nat.one_pos
  unfold isElfMagic
  rw [hident 0 (by decide), hident 1 (by decide), hident 2 (by decide), hident 3 (by decide)]
  rfl

theorem elfIsValidFile_eq : elfIsValidFile f = .ok (decide (ValidHeader f)) := by
  unfold elfIsValidFile
  by_cases hlen : f.len < sizeofEhdr
  · rw [if_pos hlen, decide_eq_false fun h => Nat.not_lt_of_le h.1 hlen]
  have hle : sizeofEhdr ≤ f.len := Nat.le_of_not_lt hlen
  have hident : ∀ i < 9, f.ehdr (eIdent i) = .ok (f.hdr (eIdent i)) := fun i hi =>
    FileMap.ehdr_inside hle (by unfold eIdent sizeofEhdr; dsimp only; omega) Nat.one_pos
  rw [if_neg hlen, isElfMagic_eq hle, hident 4 (by decide), hident 5 (by decide),
    hident 6 (by decide),
    hident 7 (by decide), hident 8 (by decide)]
  change (if _ then _ else _) = _
  split
  next hmagic =>
    rw [decide_eq_false]
    rintro ⟨-, hvalid⟩
    simp [List.range_succ] at hvalid
    simp [hvalid] at hmagic
  next hmagic =>
    refine congrArg Except.ok (Bool.eq_iff_iff.mpr ?_)
    simp only [Bool.not_eq_true, Bool.not_eq_false', Bool.and_eq_true, beq_iff_eq] at hmagic
    simp [ValidHeader, hle, List.range_succ, hmagic]
    tauto

theorem elfGetImageFilesz_eq (hlen : sizeofEhdr ≤ f.len) :
    elfGetImageFilesz f = .ok (imageFilesz f) := by
  unfold elfGetImageFilesz
  rw [FileMap.ehdr_inside hlen (by decide) (by decide),
    FileMap.ehdr_inside hlen (by decide) (by decide),
    FileMap.ehdr_inside hlen (by decide) (by decide), FileMap.ehdr_inside hlen (by decide)
      (by decide),
    FileMap.ehdr_inside hlen (by decide) (by decide)]
  rfl

end Checks

/-! ## Pages of the file -/

/-- What the loader does not know of the kernel: whether pages can be allocated, and what becomes of
the interpreter. -/
structure Env (ε : Type) where
  alloc : Nat → ε → Option ε
  interp : Nat → List UInt8 → ε → Option ((Int × Nat) × ε)

/-- `fill_unmapped_pages` on a list of pages, each given by the offset of its frame in the file, or
by `none` if it has a frame of its own. -/
def FileMap.fillPages (v : UInt8) : List (Option Nat) → Nat → Nat → FileMap → FileMap
  | [], _, _, f => f
  | page :: pages, off, len, f =>
    if pageSize ≤ off then fillPages v pages (off - pageSize) len f
    else
      let n := min (pageSize - off) len
      fillPages v pages 0 (len - n)
        (match page with
        | some o => f.fill v (o + off) (o + off + n)
        | none => f)

/-- The kernel around a file on a RAM disk: `fs_getpage` gives a page struct of its own for the
frame of the file. -/
def ramKernel {ε : Type} (e : Env ε) : Kernel (FileMap × ε) (List (Option Nat)) where
  file := Prod.fst
  null := []
  fsGetpage _ off := fun s => some (if 2 ^ 63 ≤ off ∨ s.1.len ≤ off then [] else [some off], s)
  pageListJoin head tail := pure (head ++ tail)
  allocPages count := fun s => (e.alloc count s.2).map fun x =>
    (List.replicate count none, (s.1, x))
  fillUnmappedPages pages v off len := fun s =>
    if pages = [] ∨ pageSize * pages.length < addWord off len then none
    else some ((), (FileMap.fillPages v pages off len s.1, s.2))
  execLoadImage base path := fun s => (e.interp base path s.2).map fun r => (r.1, (s.1, r.2))

namespace FileMap

variable {f : FileMap} {v : UInt8} {lo hi off len n : Nat}

theorem eq_of_bytes {f' : FileMap} (hbase : f'.base = f.base) (hbytes : f'.bytes = f.bytes) :
    f' = f := by
  cases f
  cases f'
  cases hbase
  cases hbytes
  rfl

theorem fill_empty (h : hi ≤ lo) : f.fill v lo hi = f := by
  refine eq_of_bytes rfl (List.ext_getElem? fun j => ?_)
  have hno : ¬ (lo ≤ j ∧ j < hi) := by omega
  simp [fill, hno]

/-- Two ranges that make up a third. -/
theorem fill_fill {lo' hi' lo'' hi'' : Nat}
    (h : ∀ j, (lo ≤ j ∧ j < hi ∨ lo' ≤ j ∧ j < hi') ↔ lo'' ≤ j ∧ j < hi'') :
    (f.fill v lo hi).fill v lo' hi' = f.fill v lo'' hi'' := by
  refine eq_of_bytes rfl (List.ext_getElem? fun j => ?_)
  have hj := h j
  simp only [fill, List.getElem?_mapIdx, Option.map_map]
  congr 1
  funext b
  dsimp only [Function.comp]
  split_ifs <;> first | rfl | tauto

@[simp]
theorem len_fill : (f.fill v lo hi).len = f.len := List.length_mapIdx

theorem len_after (phoff i : Nat) : (f.after phoff i).len = f.len := by
  unfold after
  split
  · exact len_fill
  · rfl

theorem len_contents (f : FileMap) (i : Nat) : (f.contents i).len = f.len := by
  induction i with
  | zero => rfl
  | succ i ih => exact (len_after _ _).trans ih

/-- The pages of the file from `off` on. -/
def pagesFrom (off : Nat) : Nat → List (Option Nat)
  | 0 => []
  | n + 1 => some off :: pagesFrom (off + pageSize) n

theorem fillPages_own {m : Nat} : fillPages v (List.replicate m none) off len f = f := by
  induction m generalizing off len with
  | zero => rfl
  | succ m ih =>
    rw [List.replicate_succ, fillPages]
    split <;> exact ih

/-- Filling pages of the file fills a range of the file. -/
theorem fillPages_pagesFrom {o m : Nat} :
    fillPages v (pagesFrom o n ++ List.replicate m none) off len f =
      f.fill v (o + off) (min (o + off + len) (o + pageSize * n)) := by
  induction n generalizing o off len f with
  | zero =>
    rw [pagesFrom, List.nil_append, fillPages_own, fill_empty]
    omega
  | succ n ih =>
    rw [pagesFrom, List.cons_append, fillPages, Nat.mul_succ]
    split
    next hskip =>
      rw [ih, show o + pageSize + (off - pageSize) = o + off by omega,
        show o + pageSize + pageSize * n = o + (pageSize * n + pageSize) by omega]
    next hhere =>
      dsimp only
      rw [ih]
      refine fill_fill fun j => ?_
      omega

end FileMap

/-! ## Runs of the loader -/

section Runs

variable {σ π α β : Type} {k : Kernel σ π} {fd : Int} {type base : Nat} {s : σ} {f : FileMap}

theorem look_run {x : FileMap → Except Stop α} {a : α} (h : x (k.file s) = .ok a) :
    look k x s = .ok (a, s) := by
  rw [look, h]

/-- The checks of `elf_load_image`. -/
theorem elfLoadSegments_fails (hvalid : ValidHeader (k.file s)) (h : ¬ PassesChecks (k.file s) type)
    (fd : Int) (base : Nat) (image : Image π) :
    ∃ e < 0, elfLoadSegments k fd type base image s = .ok (.error e, s) := by
  rw [elfLoadSegments, run_bind (look_run (x := fun f => .ok f.len) rfl),
    run_bind (look_run (elfGetImageFilesz_eq hvalid.1))]
  by_cases hsize : (k.file s).len < imageFilesz (k.file s)
  · rw [if_pos hsize]
    exact ⟨_, by decide, rfl⟩
  · rw [if_neg hsize, run_bind (look_run (FileMap.ehdr_inside hvalid.1 (by decide) (by decide))),
      if_pos fun htype => h ⟨hvalid, Nat.le_of_not_lt hsize, htype⟩]
    exact ⟨_, by decide, rfl⟩

/-- A file that does not pass the checks is rejected. -/
theorem loadFile_rejects (h : ¬ PassesChecks (k.file s) type) :
    ∃ res image, loadFile k fd type base s = .ok ((res, image), s) ∧ res < 0 := by
  rw [loadFile, run_bind (look_run elfIsValidFile_eq)]
  by_cases hvalid : ValidHeader (k.file s)
  · obtain ⟨e, he, hrun⟩ := elfLoadSegments_fails hvalid h fd base .zero
    rw [if_pos (decide_eq_true hvalid), elfLoadImage, run_bind hrun]
    exact ⟨e, .zero, rfl, he⟩
  · rw [if_neg (by simpa using hvalid)]
    exact ⟨_, _, rfl, by decide⟩

/-- A file that passes the checks is loaded header by header. -/
theorem elfLoadSegments_passes (h : PassesChecks (k.file s) type) (image : Image π) :
    elfLoadSegments k fd type base image s =
      (loadPhdrs k fd base ((k.file s).hdr ePhoff) (2 ^ 16) 0 (.init image) >>= fun p =>
        pure (.ok p)) s := by
  have hlen := h.header.1
  rw [elfLoadSegments, run_bind (look_run (x := fun f => .ok f.len) rfl),
    run_bind (look_run (elfGetImageFilesz_eq hlen)),
    if_neg (Nat.not_lt_of_le h.filesz),
    run_bind (look_run (FileMap.ehdr_inside hlen (by decide) (by decide))),
    if_neg (not_not_intro h.type_eq),
    run_bind (look_run (FileMap.ehdr_inside hlen (by decide) (by decide)))]

theorem loadFile_passes (h : PassesChecks (k.file s) type) :
    loadFile k fd type base s = elfLoadImage k fd type base .zero s := by
  rw [loadFile, run_bind (look_run elfIsValidFile_eq), if_pos (decide_eq_true h.header)]

/-- If the interpreter is loaded, a file that passes the checks is never rejected. -/
theorem loadFile_res (h : PassesChecks (k.file s) type) {r : Int × Image π} {s' : σ}
    (hinterp : ∀ base path s r s', k.execLoadImage base path s = some (r, s') → 0 ≤ r.1)
    (hrun : loadFile k fd type base s = .ok (r, s')) : r.1 = 0 := by
  rw [loadFile_passes h, elfLoadImage] at hrun
  obtain ⟨x, s1, hsegs, hrest⟩ := run_bind_ok hrun
  rw [elfLoadSegments_passes h] at hsegs
  obtain ⟨p, s2, -, hp⟩ := run_bind_ok hsegs
  cases hp
  have hret : Returns (do
      let entry ← look k (·.ehdr eEntry)
      let phnum ← look k (·.ehdr ePhnum)
      loadInterp k p.interp
        { p.image with
          base := addWord base p.minVaddr
          entry := addWord base entry
          size := 0
          phnum := phnum
          descs := p.descs }) fun r => r.1 = 0 := by
    refine .seq fun entry => .seq fun phnum => ?_
    cases p.interp with
    | none => exact .pure rfl
    | some path =>
      refine .bind (Q := fun r => 0 ≤ r.1) (fun s r s' hcall => ?_) fun r hr => ?_
      · unfold call at hcall
        split at hcall
        next hsome =>
          cases hcall
          exact hinterp _ _ _ _ _ hsome
        next => cases hcall
      · exact .ite (fun hneg => absurd hr (Int.not_le_of_gt hneg)) fun _ => .pure rfl
  exact hret _ _ _ hrest

/-- The loader is safe on a file that passes the checks only if the file contains all that it names,
unless the interpreter cannot be loaded. -/
theorem inside_of_contained
    (hinterp : ∀ base path s r s', k.execLoadImage base path s = some (r, s') → 0 ≤ r.1)
    (h : Contained k fd type base s) (hpass : PassesChecks (k.file s) type) :
    Inside (k.file s) := by
  by_contra hnot
  obtain ⟨res, image, s', hrun, hneg⟩ := h.rejects hnot
  have hzero : res = 0 := loadFile_res hpass hinterp hrun
  omega

end Runs

section Safe

variable {ε α β : Type} {e : Env ε} {fd : Int} {type base phoff i : Nat} {f g : FileMap}
  {S : β → FileMap × ε → Prop}

/-- From a state with the file `f` the program stops only by a panic. -/
abbrev Safe (f : FileMap) (m : LoadM (FileMap × ε) α) (Q : α → FileMap × ε → Prop) : Prop :=
  Triple (fun s => s.1 = f) m Q (· = .panic)

theorem safe_call {m : StateT (FileMap × ε) Option α} {Q : α → FileMap × ε → Prop}
    (h : ∀ s a s', s.1 = f → m s = some (a, s') → Q a s') : Safe f (call m) Q := by
  refine fun s hs => ⟨fun a s' hrun => ?_, fun err herr => ?_⟩
  · unfold call at hrun
    split at hrun
    next r hr =>
      cases hrun
      exact h s a s' hs hr
    next => cases hrun
  · unfold call at herr
    split at herr
    · cases herr
    · exact (Except.error.inj herr).symm

theorem safe_look {x : FileMap → Except Stop α} {a : α} {m : α → LoadM (FileMap × ε) β}
    (h : x f = .ok a) (hm : Safe f (m a) S) : Safe f (look (ramKernel e) x >>= m) S := by
  intro s hs
  obtain rfl : s.1 = f := hs
  rw [run_bind (look_run (k := ramKernel e) h)]
  exact hm s rfl

/-- The pages of a segment that starts in the file. -/
theorem getPages_safe {n off : Nat} {pages : List (Option Nat)}
    (h : ∀ j < n, off + pageSize * j < f.len) : Safe f (getPages (ramKernel e) fd n off pages)
      fun l s => s.1 = f ∧ l = pages ++ FileMap.pagesFrom off n := by
  induction n generalizing off pages with
  | zero => exact .pure fun s hs => ⟨hs, (List.append_nil _).symm⟩
  | succ n ih =>
    have hsmall := f.inMemory
    have hoff : off < f.len := h 0 n.succ_pos
    rw [getPages]
    refine Triple.bind (Q := fun page s => page = [some off] ∧ s.1 = f) (safe_call ?_) fun page =>
      .intro ?_
    · rintro s a s' rfl hrun
      cases hrun
      refine ⟨if_neg ?_, rfl⟩
      unfold FileMap.len at *
      omega
    rintro rfl
    refine Triple.bind (Q := fun l s => l = pages ++ [some off] ∧ s.1 = f) (safe_call ?_) fun l =>
      .intro ?_
    · rintro s a s' rfl hrun
      cases hrun
      exact ⟨rfl, rfl⟩
    rintro rfl
    have hnext : addWord off pageSize = off + pageSize := by
      refine addWord_of_lt ?_
      rw [word_eq]
      unfold FileMap.len pageSize at *
      omega
    rw [hnext]
    refine (ih fun j hj => ?_).post fun l s hl => ⟨hl.1, ?_⟩
    · have := h (j + 1) (Nat.succ_lt_succ hj)
      rw [Nat.mul_succ] at this
      omega
    · rw [hl.2, FileMap.pagesFrom, List.append_assoc, List.singleton_append]

/-- The zeros of a segment go to the file. -/
theorem bssPages_safe {n off filesz memsz bssOff bssSize : Nat} :
    Safe f (bssPages (ramKernel e) (FileMap.pagesFrom off n) filesz memsz bssOff bssSize)
      fun _ s =>
        s.1 = f.fill 0 (off + bssOff) (min (off + bssOff + bssSize) (off + pageSize * n)) := by
  have hmore : Safe f (morePages (ramKernel e) (FileMap.pagesFrom off n) filesz memsz)
      fun l s => (∃ m, l = FileMap.pagesFrom off n ++ List.replicate m none) ∧ s.1 = f := by
    refine .ite (fun _ => ?_) fun _ => .pure fun s hs => ⟨⟨0, (List.append_nil _).symm⟩, hs⟩
    refine Triple.bind (Q := fun l s => (∃ m, l = List.replicate m none) ∧ s.1 = f) (safe_call ?_)
      fun l => .intro ?_
    · rintro s a s' rfl hrun
      obtain ⟨x, -, hx⟩ := Option.map_eq_some_iff.mp hrun
      cases hx
      exact ⟨⟨_, rfl⟩, rfl⟩
    rintro ⟨m, rfl⟩
    refine safe_call ?_
    rintro s a s' rfl hrun
    cases hrun
    exact ⟨⟨m, rfl⟩, rfl⟩
  refine hmore.bind fun l => .intro ?_
  rintro ⟨m, rfl⟩
  refine Triple.bind (Q := fun _ s => s.1 = f.fill 0 (off + bssOff)
    (min (off + bssOff + bssSize) (off + pageSize * n))) (safe_call ?_) fun _ => .pure
      fun _ hs => hs
  rintro s a s' rfl hrun
  change (if _ then none else some _) = _ at hrun
  split at hrun
  · cases hrun
  · cases hrun
    exact FileMap.fillPages_pagesFrom

theorem align_page {v : Nat} (h : v + pageSize ≤ word) :
    align v pageSize = pageSize * ((v + pageSize - 1) / pageSize) := by
  obtain ⟨hle, hlt, hmod⟩ := align_spec (k := 12) (by decide) h
  change align v (2 ^ 12) = _
  unfold pageSize
  omega

theorem alignDown_page {v : Nat} (h : v < word) : alignDown v pageSize = pageSize *
    (v / pageSize) :=
  alignDown_two_pow (k := 12) (by decide) h

/-- A segment in the file is made of whole pages that start in the file. -/
theorem fileSpan_spec (h : f.prog phoff i pOffset + f.prog phoff i pFilesz ≤ f.len) :
    f.fileSpan phoff i = pageSize * (f.fileSpan phoff i / pageSize) ∧
      ∀ j < f.fileSpan phoff i / pageSize,
        alignDown (f.prog phoff i pOffset) pageSize + pageSize * j < f.len := by
  have hsmall : f.len ≤ 2 ^ 52 := f.inMemory
  have hword : f.len + pageSize < word := by
    rw [word_eq]
    unfold pageSize
    omega
  unfold FileMap.fileSpan
  rw [addWord_of_lt (by unfold pageSize at hword; omega), align_page (by omega),
    alignDown_page (by unfold pageSize at hword; omega), subWord_of_le]
  · rw [← Nat.mul_sub, Nat.mul_div_cancel_left _ (by decide)]
    refine ⟨rfl, fun j hj => ?_⟩
    unfold pageSize at *
    omega
  · exact Nat.mul_le_mul_left _ (Nat.div_le_div_right (by unfold pageSize; omega))
  · unfold pageSize at *
    omega

/-- **One header reads nothing outside the file, and clears what `after` says.** -/
theorem loadPhdr_safe (h : PhdrInside f phoff i) (p : Progress (List (Option Nat))) :
    Safe f (loadPhdr (ramKernel e) fd base phoff i p) fun _ s => s.1 = f.after phoff i := by
  have hread : ∀ x : Field, x.off + x.size ≤ sizeofPhdr → 0 < x.size →
      f.phdr phoff i x = .ok (f.prog phoff i x) := fun x => FileMap.phdr_inside h.entry
  have hsame (hno : ¬ (f.prog phoff i pType = ptLoad ∧
      f.prog phoff i pFilesz < f.prog phoff i pMemsz)) : f.after phoff i = f := if_neg hno
  rw [loadPhdr]
  refine safe_look (hread pType (by decide) (by decide)) (.ite (fun hload => ?_) fun hload => ?_)
  · rw [loadSegment]
    refine safe_look (hread pMemsz (by decide) (by decide)) (.ite (fun hzero => ?_) fun hmem => ?_)
    · rw [hsame fun hno => by omega]
      exact .pure fun _ hs => hs
    refine safe_look (hread pVaddr (by decide) (by decide)) ?_
    refine safe_look (hread pOffset (by decide) (by decide)) ?_
    refine safe_look (hread pFilesz (by decide) (by decide)) ?_
    refine safe_look (hread pFlags (by decide) (by decide)) ?_
    obtain ⟨hspan, hstart⟩ := fileSpan_spec (h.segment hload hmem)
    refine .ite (fun heq => ?_) fun hne => .ite (fun hlt => ?_) fun _ => .throw rfl
    · rw [hsame fun hno => by omega]
      exact (getPages_safe hstart).bind fun _ => .pure fun _ hs => hs.1
    · refine (getPages_safe hstart).bind fun l => ?_
      refine Triple.pre (P := fun s => l = FileMap.pagesFrom _ _ ∧ s.1 = f) (.intro ?_)
        fun s hs => ⟨hs.2, hs.1⟩
      rintro rfl
      refine bssPages_safe.bind fun _ => .pure fun s hs => ?_
      rw [hs, FileMap.after, if_pos ⟨hload, hlt⟩, ← hspan]
  · rw [hsame fun hno => hload hno.1]
    refine .ite (fun _ => ?_) fun _ => .ite (fun hinterp => .ite (fun _ => .throw rfl) fun _ => ?_)
      fun _ => .pure fun _ hs => hs
    · exact safe_look (hread pVaddr (by decide) (by decide)) (.pure fun _ hs => hs)
    · obtain ⟨r, hr⟩ := FileMap.strFrom_inside (h.interp hinterp)
      exact safe_look (hread pOffset (by decide) (by decide)) (safe_look hr (.pure fun _ hs => hs))

/-- The loop meets the contents of the file one after the other. -/
theorem loadPhdrs_safe (h : Inside f) {n : Nat} (p : Progress (List (Option Nat))) :
    Safe (f.contents i) (loadPhdrs (ramKernel e) fd base (f.hdr ePhoff) n i p)
      fun _ s => ∃ j, s.1 = f.contents j := by
  induction n generalizing i p with
  | zero => exact .pure fun s hs => ⟨i, hs⟩
  | succ n ih =>
    have hlen : sizeofEhdr ≤ (f.contents i).len := (f.len_contents i).symm ▸ h.header
    rw [loadPhdrs]
    refine safe_look (FileMap.ehdr_inside hlen (by decide) (by decide))
      (.ite (fun hi => ?_) fun _ => ?_)
    · exact (loadPhdr_safe (h.met i hi) p).bind fun p' => ih (i := i + 1) p'
    · exact .pure fun s hs => ⟨i, hs⟩

theorem loadInterp_safe (interp : Option (List UInt8)) (image : Image (List (Option Nat))) :
    Safe f (loadInterp (ramKernel e) interp image) fun _ _ => True := by
  cases interp with
  | none => exact .pure fun _ _ => trivial
  | some path =>
    refine Triple.bind (safe_call (Q := fun _ s => s.1 = f) ?_) fun r => ?_
    · rintro s a s' rfl hrun
      obtain ⟨x, -, hx⟩ := Option.map_eq_some_iff.mp hrun
      cases hx
      rfl
    · exact .ite (fun _ => .pure fun _ _ => trivial) fun _ => .pure fun _ _ => trivial

theorem elfLoadSegments_safe (h : Inside f) (hpass : PassesChecks f type)
    (image : Image (List (Option Nat))) :
    Safe f (elfLoadSegments (ramKernel e) fd type base image)
      fun r s => (∃ p, r = .ok p) ∧ ∃ j, s.1 = f.contents j := by
  rintro s rfl
  rw [elfLoadSegments_passes (k := ramKernel e) (s := s) hpass]
  exact ((loadPhdrs_safe h _).bind fun p => .pure fun t ht => ⟨⟨p, rfl⟩, ht⟩) s rfl

/-- The loader reads nothing outside a file that contains all that it names. -/
theorem loadFile_safe (h : Inside f) (hpass : PassesChecks f type) :
    Safe f (loadFile (ramKernel e) fd type base) fun _ _ => True := by
  rintro s rfl
  rw [loadFile_passes (k := ramKernel e) (s := s) hpass, elfLoadImage]
  refine ((elfLoadSegments_safe h hpass _).bind fun r => .intro ?_) s rfl
  rintro ⟨p, rfl⟩ t ⟨j, ht⟩
  have hlen : sizeofEhdr ≤ (s.1.contents j).len := (s.1.len_contents j).symm ▸ h.header
  refine safe_look (x := (·.ehdr eEntry)) (FileMap.ehdr_inside hlen (by decide) (by decide)) ?_ t ht
  exact safe_look (x := (·.ehdr ePhnum)) (FileMap.ehdr_inside hlen (by decide) (by decide))
    (loadInterp_safe _ _)

/-- The loader is safe on files that the checks reject and on files that contain what they name. -/
theorem contained_of_inside (h : PassesChecks f type → Inside f) (x : ε) :
    Contained (ramKernel e) fd type base (f, x) := by
  by_cases hpass : PassesChecks f type
  · have hinside := h hpass
    refine ⟨fun addr hout => ?_, fun hnot => absurd hinside hnot, ?_⟩
    · have := (loadFile_safe hinside hpass (f, x) rfl).2 _ hout
      cases this
    · rintro _ _ _ _ _ _ rfl i hi hload hmem
      rw [← FileMap.len_contents _ i]
      exact (hinside.met i hi).segment hload hmem
  · obtain ⟨res, image, hrun, hneg⟩ := loadFile_rejects (k := ramKernel e) (s := (f, x)) hpass
    refine ⟨fun addr hout => ?_, fun _ => ⟨res, image, (f, x), hrun, hneg⟩, ?_⟩
    · rw [hrun] at hout
      cases hout
    · intro res' image' s' hrun' hres
      rw [hrun] at hrun'
      cases hrun'
      omega

end Safe

/-- A kernel that always has pages and loads every interpreter. -/
def wideEnv : Env Unit where
  alloc _ _ := some ()
  interp _ _ _ := some ((0, 1), ())

/-- A file that consists of an ELF header, with a program header table of one entry behind it. -/
def headerOnly : FileMap where
  base := 0x1000
  bytes := [0x7f, 0x45, 0x4c, 0x46, 2, 1, 1, 0, 0, 0, 0, 0, 0, 0, 0, 0] ++ bytesLE 2 etExec ++
    bytesLE 2 0x3e ++ bytesLE 4 1 ++ bytesLE 8 0x401000 ++ bytesLE 8 64 ++ bytesLE 8 0 ++
      bytesLE 4 0 ++
    bytesLE 2 64 ++ bytesLE 2 0 ++ bytesLE 2 1 ++ bytesLE 2 0 ++ bytesLE 2 0 ++ bytesLE 2 0
  fits := by decide
  inMemory := by decide

/-- The same header with its program header, which describes a segment far behind the end of the
file. -/
def farSegment : FileMap where
  base := 0x1000
  bytes := headerOnly.bytes ++ bytesLE 4 ptLoad ++ bytesLE 4 5 ++ bytesLE 8 0x100000 ++
    bytesLE 8 0x401000 ++ bytesLE 8 0x401000 ++ bytesLE 8 0x1000 ++ bytesLE 8 0x1000 ++
      bytesLE 8 0x1000
  fits := by decide
  inMemory := by decide

end Osdev.Elf
