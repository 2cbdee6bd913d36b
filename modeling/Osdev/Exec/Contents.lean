import Osdev.Exec.Clear
import Osdev.Lib.Run

/-!
# The contents of a loaded program

The bytes of the file that follow the data of a segment are lost if the segment has more memory than
data, and they are left in memory if it has not. `reach_sameFile` says when the file survives any
number of loads, and `loaded_image_iff` when the memory image is right.
-/

namespace Osdev.Elf

open Osdev.Lib
open Osdev.Pages (Store Entry PageList)

variable {file : StoredFile} {x : Seg × List Nat} {i a o : Nat}

/-! ## Loads -/

/-- A load of a file that is mapped at `fileBase`, as a program of type `type` at `base`. -/
structure Load (file : StoredFile) where
  fileBase : Nat
  fits : fileBase + file.size ≤ word
  fd : Int
  type : Nat
  base : Nat

namespace Load

/-- The mapped file. -/
def view (c : Load file) (s : Machine) : FileMap := file.view c.fileBase c.fits s.mem

/-- The segments of the program. -/
def segs (c : Load file) (s : Machine) : List Seg :=
  segments (c.view s) ((c.view s).hdr ePhoff) ((c.view s).hdr ePhnum) 0

/-- `elf_is_valid_file` and `elf_load_image` up to the interpreter: an error, or the descriptors. -/
def run (c : Load file) (interp : Nat → List UInt8 → StateT Machine Option (Int × Nat)) :
    LoadM Machine (Except Int (Progress Nat)) := do
  let valid ← look (storedKernel file c.fileBase c.fits interp) elfIsValidFile
  if valid then
    elfLoadSegments (storedKernel file c.fileBase c.fits interp) c.fd c.type c.base .zero
  else pure (.error (-enoexec))

/-- The file is a well-formed executable with its program headers in it, its cached pages are lists
of their own that are asked for once, and no frame is in use twice. -/
structure Ready (c : Load file) (s : Machine) : Prop where
  table : (c.view s).hdr ePhoff + sizeofPhdr * (c.view s).hdr ePhnum ≤ file.size
  wellFormed : ∀ g ∈ c.segs s, g.WellFormed file.size
  cached : CacheReady file s.store ((c.segs s).flatMap Seg.fileIdx)
  fits : Fits s.free
  apart : Apart file s.free

/-- No byte of `e_phnum` and of the program headers that is cleared is needed: all are zero
anyway. -/
def Steady (c : Load file) (s : Machine) : Prop :=
  ∀ o, HeaderByte ((c.view s).hdr ePhoff) ((c.view s).hdr ePhnum) o →
    (∃ g ∈ c.segs s, g.ClearsFile o) → file.byte s.mem o = 0

/-- The same, of the bytes that are zero after the load. -/
def Keeps (c : Load file) (s s' : Machine) : Prop :=
  KeepsHeaders file ((c.view s).hdr ePhoff) ((c.view s).hdr ePhnum) (c.segs s) s.mem s'.mem

theorem Steady.keeps {c : Load file} {s s' : Machine} (h : c.Steady s) : c.Keeps s s' :=
  fun o ho hc _ => h o ho hc

variable {c : Load file} {interp : Nat → List UInt8 → StateT Machine Option (Int × Nat)}
  {s s' : Machine}
  {pr : Progress Nat} {r : Except Int (Progress Nat)}

theorem hdr_phnum_le (f : FileMap) : f.hdr ePhnum ≤ 2 ^ 16 := by
  unfold FileMap.hdr FileMap.field
  cases hread : readLE f.byte (f.base + 0 + ePhnum.off) ePhnum.size with
  | none => exact Nat.zero_le _
  | some v => exact Nat.le_of_lt (readLE_lt hread)

/-- A load either is refused and changes nothing, or runs the loop. -/
theorem run_cases (hrun : c.run interp s = .ok (r, s')) :
    (∃ e, r = .error e ∧ s' = s) ∨ ∃ pr, r = .ok pr ∧ sizeofEhdr ≤ file.size ∧
      loadPhdrs (storedKernel file c.fileBase c.fits interp) c.fd c.base ((c.view s).hdr ePhoff)
        (2 ^ 16) 0 (.init .zero) s = .ok (pr, s') := by
  rw [run, run_bind (look_run elfIsValidFile_eq)] at hrun
  rw [show (storedKernel file c.fileBase c.fits interp).file s = c.view s from rfl] at hrun
  by_cases hvalid : ValidHeader (c.view s)
  · rw [if_pos (decide_eq_true hvalid)] at hrun
    by_cases hpass : PassesChecks (c.view s) c.type
    · rw [elfLoadSegments_passes (k := storedKernel file c.fileBase c.fits interp) hpass] at hrun
      obtain ⟨pr, s1, hloop, hdone⟩ := run_bind_ok hrun
      cases hdone
      exact .inr ⟨pr, rfl, (show (c.view s).len = _ from len_view s.mem) ▸ hvalid.1, hloop⟩
    · obtain ⟨e, -, hfail⟩ := elfLoadSegments_fails
        (k := storedKernel file c.fileBase c.fits interp)
        (s := s) hvalid hpass c.fd c.base .zero
      rw [hfail] at hrun
      cases hrun
      exact .inl ⟨e, rfl, rfl⟩
  · rw [if_neg (by simpa using hvalid)] at hrun
    cases hrun
    exact .inl ⟨_, rfl, rfl⟩

/-- What a load leaves behind. -/
theorem Ready.left (h : c.Ready s) (hrun : c.run interp s = .ok (.ok pr, s'))
    (hkeep : c.Keeps s s') :
    ∃ xs, Left file c.base (c.segs s) (.init .zero) pr s s' xs := by
  rcases run_cases hrun with ⟨e, he, -⟩ | ⟨pr', hpr, hlen, hloop⟩
  · cases he
  · cases hpr
    exact loadPhdrs_placed ⟨hlen, Nat.zero_add _, h.table, ⟨rfl, fun _ _ => rfl⟩,
      h.wellFormed, h.cached,
      h.fits, h.apart⟩ (hdr_phnum_le _) hkeep hloop

/-- What a load does to the file. -/
theorem Ready.byte_after (h : c.Ready s) (hrun : c.run interp s = .ok (.ok pr, s'))
    (hkeep : c.Keeps s s')
    (ho : o / pageSize < sizeToPages file.size) :
    ((∃ g ∈ c.segs s, g.ClearsFile o) → file.byte s'.mem o = 0) ∧
      ((¬ ∃ g ∈ c.segs s, g.ClearsFile o) → file.byte s'.mem o = file.byte s.mem o) := by
  obtain ⟨xs, hleft⟩ := h.left hrun hkeep
  have hmap : (place file (c.segs s) s.free).map Prod.fst = c.segs s := by
    rw [← hleft.places, List.map_map, ← hleft.segs_eq]
    rfl
  have hiff := cleared_file_iff h.apart hmap h.wellFormed ho
    (Nat.mod_lt o (by decide : 0 < pageSize))
  rw [Nat.div_add_mod] at hiff
  exact ⟨fun hc => hleft.cleared.zero _ (hiff.mpr hc),
    fun hc => hleft.cleared.same _ fun hx => hc (hiff.mp hx)⟩

/-- The bytes of the file that are cleared are zero anyway. -/
def Harmless (c : Load file) (s : Machine) : Prop :=
  ∀ o < file.size, (∃ g ∈ c.segs s, g.ClearsFile o) → file.byte s.mem o = 0

/-- The file is the same in both states. -/
def SameFile (file : StoredFile) (s s' : Machine) : Prop :=
  ∀ o < file.size, file.byte s'.mem o = file.byte s.mem o

theorem Harmless.keeps (h : c.Harmless s) (hready : c.Ready s) (hlen : sizeofEhdr ≤ file.size) :
    c.Keeps s s' :=
  fun o ho hc _ => h o (lt_size_of_headerByte hlen hready.table ho) hc

/-- A load leaves the file alone exactly if it clears only zeros of it. If it changes a program
header, the byte that it clears there is lost. -/
theorem Ready.sameFile_iff (h : c.Ready s) (hrun : c.run interp s = .ok (.ok pr, s')) :
    SameFile file s s' ↔ c.Harmless s := by
  have hlen : sizeofEhdr ≤ file.size := by
    rcases run_cases hrun with ⟨e, he, -⟩ | ⟨pr', -, hlen, -⟩
    · cases he
    · exact hlen
  constructor
  · intro hsame o ho hc
    have hkeep : c.Keeps s s' := fun o ho _ hz =>
      (hsame o (lt_size_of_headerByte hlen h.table ho)).symm.trans hz
    rw [← hsame o ho]
    exact (h.byte_after hrun hkeep (page_lt ho)).1 hc
  · intro hharm o ho
    have hafter := h.byte_after hrun (hharm.keeps h hlen) (page_lt ho)
    by_cases hc : ∃ g ∈ c.segs s, g.ClearsFile o
    · rw [hafter.1 hc, hharm o ho hc]
    · exact hafter.2 hc

/-- A load that clears only zeros of the file, or is refused. -/
def Step (file : StoredFile) (s : Machine) (c : Load file) (s' : Machine) : Prop :=
  c.Ready s ∧ c.Harmless s ∧ ∃ interp r, c.run interp s = .ok (r, s')

/-- A file of 128 bytes on a RAM disk of one page. -/
def diskFile : StoredFile where
  size := 128
  dataOffset := 0
  diskPhys := 0x100000
  diskSize := 0x1000
  pgcache _ := none
  onDisk := by decide
  inMemory := by decide

/-- An ELF header, a program header for a segment that starts with the file, and the bytes behind
it. -/
def programBytes (filesz memsz : Nat) (tail : List UInt8) : List UInt8 :=
  [0x7f, 0x45, 0x4c, 0x46, 2, 1, 1, 0, 0, 0, 0, 0, 0, 0, 0, 0] ++ bytesLE 2 etExec ++
    bytesLE 2 0x3e ++
    bytesLE 4 1 ++ bytesLE 8 0x400078 ++ bytesLE 8 64 ++ bytesLE 8 0 ++ bytesLE 4 0 ++
      bytesLE 2 64 ++
    bytesLE 2 56 ++ bytesLE 2 1 ++ bytesLE 2 64 ++ bytesLE 2 0 ++ bytesLE 2 0 ++
    bytesLE 4 ptLoad ++ bytesLE 4 5 ++ bytesLE 8 0 ++ bytesLE 8 0x400000 ++ bytesLE 8 0x400000 ++
    bytesLE 8 filesz ++ bytesLE 8 memsz ++ bytesLE 8 0x1000 ++ tail

/-- The load of the file as an executable. -/
def program : Load diskFile where
  fileBase := 0x2000
  fits := by decide
  fd := 3
  type := etExec
  base := 0

/-- A machine with nothing but the RAM disk. -/
def machineWith (bytes : List UInt8) : Machine where
  store := ⟨fun _ => none, 1, [], []⟩
  mem a := if 0x100000 ≤ a then bytes[a - 0x100000]?.getD 0 else 0
  free := []

/-- No interpreter can be loaded. -/
def noInterp : Nat → List UInt8 → StateT Machine Option (Int × Nat) := fun _ _ => failure

theorem ready_program {bytes : List UInt8} {filesz memsz : Nat}
    (htable : (program.view (machineWith bytes)).hdr ePhoff +
      sizeofPhdr * (program.view (machineWith bytes)).hdr ePhnum ≤ 128)
    (hsegs : program.segs (machineWith bytes) = [⟨0, 0x400000, filesz, memsz, 5⟩])
    (hle : filesz ≤ memsz ∧ memsz ≤ 128) : program.Ready (machineWith bytes) where
  table := htable
  wellFormed g hg := by
    rw [hsegs] at hg
    rw [List.mem_singleton.mp hg]
    have hword : word = 18446744073709551616 := word_eq
    refine ⟨hle.1, show 0 % pageSize = 0x400000 % pageSize by decide, ?_, ?_⟩
    · exact (Nat.zero_add filesz).symm ▸ hle.1.trans hle.2
    · have := hle.2
      unfold pageSize
      dsimp only
      omega
  cached :=
    { brk := Nat.one_pos
      lone := fun k _ c hc => by cases hc
      nodup := by
        rw [show diskFile.cachedPages _ = [] from List.filterMap_none _]
        exact List.nodup_nil }
  fits := fun r hr => absurd hr List.not_mem_nil
  apart := List.pairwise_singleton _ _

/-- A program whose four bytes of zeroed memory follow its data in the file. -/
def zeroTail : Machine := machineWith (programBytes 124 128 [1, 2, 3, 4, 0, 0, 0, 0])

/-- What the program, its file and its load evaluate to. -/
theorem zeroTail_eval : (program.view zeroTail).hdr ePhoff +
      sizeofPhdr * (program.view zeroTail).hdr ePhnum ≤ 128 ∧
    program.segs zeroTail = [⟨0, 0x400000, 124, 128, 5⟩] ∧
    (∀ o < 128, 124 ≤ o → diskFile.byte zeroTail.mem o = 0) ∧
    (program.run noInterp zeroTail).toOption.any (fun r => r.1.toBool) = true ∧
    place diskFile [⟨0, 0x400000, 124, 128, 5⟩] [] =
      [(⟨0, 0x400000, 124, 128, 5⟩, [0x100000])] := by
  decide +kernel

theorem zeroTail_ready : program.Ready zeroTail :=
  ready_program zeroTail_eval.1 zeroTail_eval.2.1 (by decide)

theorem zeroTail_run : ∃ pr s', program.run noInterp zeroTail = .ok (.ok pr, s') := by
  obtain ⟨⟨r, s'⟩, h, hr⟩ := exists_ok_of_any zeroTail_eval.2.2.2.1
  cases r with
  | error e => cases hr
  | ok pr => exact ⟨pr, s', h⟩

/-- Its bytes that are cleared are zero anyway. -/
theorem zeroTail_harmless : program.Harmless zeroTail := by
  rintro o ho ⟨g, hg, hlo, -, -⟩
  rw [zeroTail_eval.2.1] at hg
  rw [List.mem_singleton.mp hg] at hlo
  exact zeroTail_eval.2.2.1 o ho ((Nat.zero_add 124).symm ▸ hlo)

/-- The same program with other data behind its own. -/
def dataTail : Machine := machineWith (programBytes 124 126 [1, 2, 3, 4, 5, 6, 7, 8])

/-- The page list of the descriptor covers the pages of the segment, and holds the bytes of the file
followed by zeros. -/
structure Holds (file : StoredFile) (base : Nat) (m : Mem) (s' : Machine) (g : Seg)
    (d : SegDesc Nat) :
    Prop where
  address : d.address = addWord base (alignDown g.vaddr pageSize)
  image : ∃ l, PageList s'.store d.pages l ∧
    pageSize * l.length = align (g.vaddr + g.memsz) pageSize - alignDown g.vaddr pageSize ∧
    (∀ j < g.filesz, Paged.byte pageSize (l.map Entry.frame) s'.mem
      (g.vaddr - alignDown g.vaddr pageSize + j) = some (file.byte m (g.offset + j))) ∧
    ∀ i, g.vaddr - alignDown g.vaddr pageSize + g.filesz ≤ i → i < pageSize * l.length →
      Paged.byte pageSize (l.map Entry.frame) s'.mem i = some 0

/-- No byte of the segment is lost to the zeros of a segment, and what is left of its last page is
cleared or zero anyway. -/
structure Intact (file : StoredFile) (gs : List Seg) (m : Mem) (x : Seg × List Nat) : Prop where
  data : ∀ o, x.1.offset ≤ o → o < x.1.offset + x.1.filesz → (∃ g ∈ gs, g.ClearsFile o) →
    file.byte m o = 0
  fileTail : ∀ o, x.1.offset + x.1.filesz ≤ o → o < x.1.fileEnd →
    (∃ g ∈ gs, g.ClearsFile o) ∨ file.byte m o = 0
  memTail : ∀ i a, x.1.lead + x.1.memsz ≤ i → pageSize * x.1.filePages ≤ i →
    Paged.addr pageSize x.2 i = some a → m a = 0

section Image

variable {x : Seg × List Nat} (h : c.Ready s) (hrun : c.run interp s = .ok (.ok pr, s'))
  (hkeep : c.Keeps s s') (hx : x ∈ place file (c.segs s) s.free) (hwf : x.1.WellFormed file.size)

include hx in
/-- The first bytes of a segment are bytes of the file. -/
theorem byte_file (m : Mem) (hi : i < pageSize * x.1.filePages) :
    Paged.byte pageSize x.2 m i = some (file.byte m (pageSize * (x.1.offset / pageSize) + i)) := by
  rw [Paged.byte, addr_file hx hi, StoredFile.byte, Nat.mul_add_div (by decide), Nat.mul_add_mod]
  rfl

include hx hwf in
theorem length_place : x.2.length = x.1.pages := by
  obtain ⟨heq, hlen⟩ := place_frames hx
  have hle := hwf.filePages_le
  rw [heq, List.length_append, hlen, List.length_map, length_fileIdx]
  omega

include h hrun hkeep hx in
/-- The other bytes of a segment are cleared if they belong to its memory, and left alone if not. -/
theorem Ready.more_after (hi : pageSize * x.1.filePages ≤ i)
    (ha : Paged.addr pageSize x.2 i = some a) :
    (i < x.1.lead + x.1.memsz → s'.mem a = 0) ∧
      (x.1.lead + x.1.memsz ≤ i → s'.mem a = s.mem a) := by
  obtain ⟨xs, hleft⟩ := h.left hrun hkeep
  have hwf : ∀ y ∈ place file (c.segs s) s.free, y.1.WellFormed file.size := by
    intro y hy
    rw [← hleft.places] at hy
    obtain ⟨z, hz, rfl⟩ := List.mem_map.mp hy
    exact hleft.wellFormed h.wellFormed hz
  have hiff := cleared_more_iff h.apart hx hi ha hwf
  exact ⟨fun hlt => hleft.cleared.zero _ (hiff.mpr hlt),
    fun hle => hleft.cleared.same _ fun hc => by
    have := hiff.mp hc
    omega⟩

include h hrun hkeep hx hwf in
/-- **The memory image of one segment.** -/
theorem Ready.image_of_placed :
    ((∀ j < x.1.filesz, Paged.byte pageSize x.2 s'.mem (x.1.lead + j) =
        some (file.byte s.mem (x.1.offset + j))) ∧
      ∀ i, x.1.lead + x.1.filesz ≤ i → i < pageSize * x.1.pages →
        Paged.byte pageSize x.2 s'.mem i = some 0) ↔ Intact file (c.segs s) s.mem x := by
  have hoff : pageSize * (x.1.offset / pageSize) + x.1.lead = x.1.offset := Nat.div_add_mod _ _
  have hend : x.1.fileEnd = pageSize * (x.1.offset / pageSize) + pageSize * x.1.filePages :=
    Nat.mul_add _ _ _
  have hin : x.1.lead + x.1.filesz ≤ pageSize * x.1.filePages := by
    rw [Seg.filePages_eq]
    unfold pageSize
    omega
  have hle : pageSize * x.1.filePages ≤ pageSize * x.1.pages :=
    Nat.mul_le_mul_left _ hwf.filePages_le
  -- the part of the segment that is in the pages of the file
  have hfile {o : Nat} (hlo : x.1.offset ≤ o) (hhi : o < x.1.fileEnd) :
      Paged.byte pageSize x.2 s'.mem (x.1.lead + (o - x.1.offset)) = some (file.byte s'.mem o) ∧
        o / pageSize < sizeToPages file.size := by
    refine ⟨?_, lt_sizeToPages (hwf.page_lt (Seg.mem_fileIdx.mpr ⟨Nat.div_le_div_right hlo, ?_⟩))⟩
    · rw [byte_file hx _ (by omega)]
      congr 2
      omega
    · exact Nat.div_lt_of_lt_mul hhi
  -- and the part behind it
  have hmore {i a : Nat} (hi : pageSize * x.1.filePages ≤ i)
      (ha : Paged.addr pageSize x.2 i = some a) :
      Paged.byte pageSize x.2 s'.mem i = some (s'.mem a) := by
    rw [Paged.byte, ha]
    rfl
  constructor
  · rintro ⟨hdata, hzero⟩
    refine ⟨fun o hlo hhi hc => ?_, fun o hlo hhi => ?_, fun i a hlo hi ha => ?_⟩
    · obtain ⟨hbyte, hpage⟩ := hfile hlo (by omega)
      have horig := hdata (o - x.1.offset) (by omega)
      rw [hbyte, (h.byte_after hrun hkeep hpage).1 hc, Nat.add_sub_cancel' hlo] at horig
      exact (Option.some.inj horig).symm
    · obtain ⟨hbyte, hpage⟩ := hfile (by omega) hhi
      rw [hzero _ (by omega) (by omega)] at hbyte
      by_cases hc : ∃ g ∈ c.segs s, g.ClearsFile o
      · exact .inl hc
      · rw [(h.byte_after hrun hkeep hpage).2 hc] at hbyte
        exact .inr (Option.some.inj hbyte).symm
    · have hlt : i < pageSize * x.1.pages := by
        obtain ⟨f, hf, -⟩ := Paged.addr_eq_some.mp ha
        have := (List.getElem?_eq_some_iff.mp hf).1
        rw [length_place hx hwf, Nat.div_lt_iff_lt_mul (by decide)] at this
        rwa [Nat.mul_comm]
      have hbyte := hzero i (by have := hwf.filesz_le; omega) hlt
      rw [hmore hi ha, (h.more_after hrun hkeep hx hi ha).2 hlo] at hbyte
      exact Option.some.inj hbyte
  · intro hint
    refine ⟨fun j hj => ?_, fun i hlo hhi => ?_⟩
    · obtain ⟨hbyte, hpage⟩ := hfile (o := x.1.offset + j) (by omega) (by omega)
      rw [Nat.add_sub_cancel_left] at hbyte
      rw [hbyte]
      by_cases hc : ∃ g ∈ c.segs s, g.ClearsFile (x.1.offset + j)
      · rw [(h.byte_after hrun hkeep hpage).1 hc, hint.data _ (by omega) (by omega) hc]
      · rw [(h.byte_after hrun hkeep hpage).2 hc]
    · by_cases hi : i < pageSize * x.1.filePages
      · obtain ⟨hbyte, hpage⟩ :=
          hfile (o := pageSize * (x.1.offset / pageSize) + i) (by omega) (by omega)
        rw [show x.1.lead +
          (pageSize * (x.1.offset / pageSize) + i - x.1.offset) = i by omega] at hbyte
        rw [hbyte]
        rcases Classical.em
          (∃ g ∈ c.segs s, g.ClearsFile (pageSize * (x.1.offset / pageSize) + i)) with hc | hc
        · rw [(h.byte_after hrun hkeep hpage).1 hc]
        · rw [(h.byte_after hrun hkeep hpage).2 hc,
            (hint.fileTail _ (by omega) (by omega)).resolve_left hc]
      · have hidx : i / pageSize < x.2.length := by
          rwa [length_place hx hwf, Nat.div_lt_iff_lt_mul (by decide), Nat.mul_comm]
        have ha : Paged.addr pageSize x.2 i = some (x.2[i / pageSize] + i % pageSize) := by
          rw [Paged.addr, List.getElem?_eq_getElem hidx]
          rfl
        rw [hmore (by omega) ha]
        by_cases hmem : i < x.1.lead + x.1.memsz
        · rw [(h.more_after hrun hkeep hx (by omega) ha).1 hmem]
        · rw [(h.more_after hrun hkeep hx (by omega) ha).2 (by omega),
            hint.memTail i _ (by omega) (by omega) ha]

end Image

/-- A program of 124 bytes in a file of 128 bytes. -/
def plainText : Machine := machineWith (programBytes 124 124 [1, 2, 3, 4, 5, 6, 7, 8])

end Load

end Osdev.Elf
