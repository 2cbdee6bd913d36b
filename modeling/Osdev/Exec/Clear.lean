import Osdev.Exec.Place

/-!
# What the loader clears

The pages of a segment are the frames of the file itself, and the loader writes its zeros to them:
to the bytes of the file that follow the data of the segment, and to the frames that it gets from
the page allocator (`cleared_file_iff`, `cleared_more_iff`). As long as no program header changes
that way, the loop handles the segments one after the other (`loadPhdrs_placed`).
-/

namespace Osdev.Elf

open Osdev.Lib
open Osdev.Pages (Store Entry PageList Extends)

variable {file : StoredFile} {gs : List Seg} {free : List Region} {x y : Seg × List Nat} {g : Seg}
  {i k r a : Nat}

theorem lt_sizeToPages {size : Nat} (h : pageSize * k < size) : k < sizeToPages size := by
  unfold sizeToPages
  unfold pageSize at *
  split <;> omega

/-! ## Which bytes are cleared -/

/-- The frames of a segment that do not belong to the file. -/
def more (x : Seg × List Nat) : List Nat := x.2.drop x.1.filePages

/-- The end of the pages of the file that the segment is made of. -/
def Seg.fileEnd (g : Seg) : Nat := pageSize * (g.offset / pageSize + g.filePages)

/-- The loader clears byte `o` of the file for the segment. -/
def Seg.ClearsFile (g : Seg) (o : Nat) : Prop :=
  g.offset + g.filesz ≤ o ∧ o < g.offset + g.memsz ∧ o < g.fileEnd

theorem length_fileIdx (g : Seg) : g.fileIdx.length = g.filePages := List.length_range'

theorem place_frames (h : x ∈ place file gs free) :
    x.2 = x.1.fileIdx.map file.frame ++ more x ∧ (more x).length = x.1.pages - x.1.filePages := by
  induction gs generalizing free with
  | nil => cases h
  | cons g gs ih =>
    unfold place at h
    split at h
    next frames free' htake =>
      rcases List.mem_cons.mp h with rfl | h
      · have hlen : (g.fileIdx.map file.frame).length = g.filePages := by
          rw [List.length_map, length_fileIdx]
        unfold more
        rcases take_cases htake with ⟨hle, rfl, -⟩ | ⟨r, -, hlt, hcount, rfl⟩
        · rw [List.drop_eq_nil_of_le (Nat.le_of_eq hlen), List.append_nil]
          exact ⟨rfl, (Nat.sub_eq_zero_of_le hle).symm⟩
        · rw [List.drop_left' hlen, List.length_take, Region.frames, List.length_map,
            List.length_range]
          exact ⟨rfl, Nat.min_eq_left hcount⟩
      · exact ih h
    next => cases h

/-- Every segment has its own part of the free regions. -/
theorem more_sublist :
    ((place file gs free).flatMap more).Sublist (free.flatMap Region.frames) := by
  induction gs generalizing free with
  | nil => exact List.nil_sublist _
  | cons g gs ih =>
    unfold place
    split
    next frames free' htake =>
      have hlen : (g.fileIdx.map file.frame).length = g.filePages := by
        rw [List.length_map, length_fileIdx]
      rw [List.flatMap_cons, more]
      rcases take_cases htake with ⟨hle, rfl, rfl⟩ | ⟨r, rfl, hlt, hcount, rfl⟩
      · rw [List.drop_eq_nil_of_le (Nat.le_of_eq hlen)]
        exact ih
      · rw [List.drop_left' hlen]
        exact (List.take_sublist _ _).append ih
    next => exact List.nil_sublist _

/-- The first pages of a segment are those of the file. -/
theorem addr_file (h : x ∈ place file gs free) (hi : i < pageSize * x.1.filePages) :
    Paged.addr pageSize x.2 i =
      some (file.frame (x.1.offset / pageSize + i / pageSize) + i % pageSize) := by
  have hlt : i / pageSize < x.1.filePages := Nat.div_lt_of_lt_mul hi
  rw [Paged.addr, (place_frames h).1,
    List.getElem?_append_left (by simpa [length_fileIdx] using hlt),
    List.getElem?_map, Seg.fileIdx, List.getElem?_range' hlt, Nat.one_mul]
  rfl

/-- The other pages are the other frames. -/
theorem addr_more (x : Seg × List Nat) (hi : pageSize * x.1.filePages ≤ i) :
    Paged.addr pageSize x.2 i = Paged.addr pageSize (more x) (i - pageSize * x.1.filePages) := by
  rw [more, Paged.addr_drop (by decide), Nat.add_sub_cancel' hi]

theorem addr_more_mem (hi : pageSize * x.1.filePages ≤ i)
    (ha : Paged.addr pageSize x.2 i = some a) :
    ∃ f ∈ more x, ∃ r < pageSize, f + r = a := by
  rw [addr_more x hi] at ha
  obtain ⟨f, hf, rfl⟩ := Paged.addr_eq_some.mp ha
  exact ⟨f, List.mem_of_getElem? hf, _, Nat.mod_lt _ (by decide), rfl⟩

/-- Two segments are the same one, or their frames outside of the file do not overlap. -/
def MoreApart (x y : Seg × List Nat) : Prop :=
  x = y ∨ ∀ f ∈ more x, ∀ g ∈ more y, f + pageSize ≤ g ∨ g + pageSize ≤ f

instance : Std.Symm MoreApart :=
  ⟨fun _ _ h => h.imp Eq.symm fun h f hf g hg => (h g hg f hf).symm⟩

/-- The frames of the file and of the free regions do not overlap. -/
def Apart (file : StoredFile) (free : List Region) : Prop :=
  Paged.Separate pageSize (file.frames ++ free.flatMap Region.frames)

section Apart

variable (hsep : Apart file free)

include hsep

theorem Apart.placed (gs : List Seg) :
    Paged.Separate pageSize (file.frames ++ (place file gs free).flatMap more) :=
  List.Pairwise.sublist ((List.Sublist.refl _).append more_sublist) hsep

/-- Two pages of the file have no byte in common. -/
theorem Apart.frame_inj {k' r' : Nat} (hk : k < sizeToPages file.size)
    (hk' : k' < sizeToPages file.size)
    (hr : r < pageSize) (hr' : r' < pageSize) (h : file.frame k + r = file.frame k' + r') :
    k = k' ∧ r = r' := by
  have hfile : Paged.Separate pageSize file.frames := (List.pairwise_append.mp hsep).1
  have hget {j : Nat} (hj : j < sizeToPages file.size) : file.frames[j]? = some (file.frame j) := by
    simp [StoredFile.frames, hj]
  rcases Nat.lt_trichotomy k k' with hlt | rfl | hgt
  · exact absurd h (Paged.add_ne_add (hfile.of_lt (hget hk) (hget hk') hlt) hr hr')
  · exact ⟨rfl, by omega⟩
  · exact absurd h.symm (Paged.add_ne_add (hfile.of_lt (hget hk') (hget hk) hgt) hr' hr)

/-- A page of the file has no byte in common with the other pages of a segment. -/
theorem Apart.file_more (hx : x ∈ place file gs free) (hk : k < sizeToPages file.size)
    (hr : r < pageSize) (hi : pageSize * x.1.filePages ≤ i) :
    Paged.addr pageSize x.2 i ≠ some (file.frame k + r) := by
  intro ha
  obtain ⟨f, hf, r', hr', heq⟩ := addr_more_mem hi ha
  have hfile : file.frame k ∈ file.frames := List.mem_map_of_mem (List.mem_range.mpr hk)
  have := (List.pairwise_append.mp (hsep.placed gs)).2.2 _ hfile f
    (List.mem_flatMap.mpr ⟨x, hx, hf⟩)
  omega

/-- Two segments have no byte of these pages in common. -/
theorem Apart.more_more {j : Nat} (hx : x ∈ place file gs free) (hy : y ∈ place file gs free)
    (hi : pageSize * x.1.filePages ≤ i) (hj : pageSize * y.1.filePages ≤ j)
    (ha : Paged.addr pageSize x.2 i = some a) (hb : Paged.addr pageSize y.2 j = some a) :
    x = y ∧ i = j := by
  have hmore := (List.pairwise_append.mp (hsep.placed gs)).2.1
  rw [List.pairwise_flatMap] at hmore
  have hpair : (place file gs free).Pairwise MoreApart := hmore.2.imp .inr
  have hall : MoreApart x y := hpair.forall_of_forall (fun _ _ => .inl rfl) hx hy
  obtain ⟨f, hf, r, hr, hfa⟩ := addr_more_mem hi ha
  obtain ⟨g, hg, r', hr', hga⟩ := addr_more_mem hj hb
  rcases hall with rfl | hdisj
  · rw [addr_more x hi] at ha
    rw [addr_more x hj] at hb
    have := Paged.Separate.addr_inj (by decide) (hmore.1 x hx) ha hb
    exact ⟨rfl, by omega⟩
  · exact absurd (hfa.trans hga.symm) (Paged.add_ne_add (hdisj f hf g hg) hr hr')

/-- **A byte of the file is cleared for the segments whose zeros fall on it.** -/
theorem cleared_file_iff (hmap : (place file gs free).map Prod.fst = gs)
    (hwf : ∀ g ∈ gs, g.WellFormed file.size) (hk : k < sizeToPages file.size) (hr : r < pageSize) :
    (∃ x ∈ place file gs free, Clears x (file.frame k + r)) ↔
      ∃ g ∈ gs, g.ClearsFile (pageSize * k + r) := by
  have hoff (g : Seg) : pageSize * (g.offset / pageSize) + g.lead = g.offset := Nat.div_add_mod _ _
  constructor
  · rintro ⟨x, hx, i, hlo, hhi, haddr⟩
    have hseg : x.1 ∈ gs := by
      rw [← hmap]
      exact List.mem_map_of_mem hx
    by_cases hi : i < pageSize * x.1.filePages
    · rw [addr_file hx hi, Option.some.injEq] at haddr
      have hin : x.1.offset / pageSize + i / pageSize ∈ x.1.fileIdx :=
        Seg.mem_fileIdx.mpr ⟨Nat.le_add_right _ _, Nat.add_lt_add_left (Nat.div_lt_of_lt_mul hi) _⟩
      obtain ⟨rfl, rfl⟩ := hsep.frame_inj (lt_sizeToPages ((hwf _ hseg).page_lt hin)) hk
        (Nat.mod_lt _ (by decide)) hr haddr
      have hsum : pageSize * (x.1.offset / pageSize + i / pageSize) + i % pageSize =
          pageSize * (x.1.offset / pageSize) + i := by
        rw [Nat.mul_add, Nat.add_assoc, Nat.div_add_mod]
      have := hoff x.1
      refine ⟨x.1, hseg, ?_⟩
      rw [hsum, Seg.ClearsFile, Seg.fileEnd, Nat.mul_add]
      omega
    · exact absurd haddr (hsep.file_more hx hk hr (Nat.le_of_not_lt hi))
  · rintro ⟨g, hg, hlo, hhi, hend⟩
    rw [← hmap] at hg
    obtain ⟨x, hx, rfl⟩ := List.mem_map.mp hg
    have := hoff x.1
    rw [Seg.fileEnd, Nat.mul_add] at hend
    obtain ⟨i, hi⟩ : ∃ i, pageSize * k + r = pageSize * (x.1.offset / pageSize) + i :=
      Nat.exists_eq_add_of_le (by omega)
    refine ⟨x, hx, i, by omega, by omega, ?_⟩
    rw [addr_file hx (by omega)]
    have hdm := congrArg (· / pageSize) hi
    have hmm := congrArg (· % pageSize) hi
    rw [Nat.mul_add_div (by decide), Nat.mul_add_div (by decide), Nat.div_eq_of_lt hr,
      Nat.add_zero] at hdm
    rw [Nat.mul_add_mod, Nat.mul_add_mod, Nat.mod_eq_of_lt hr] at hmm
    rw [hdm, hmm]

/-- **A byte of the other pages is cleared if it belongs to the memory of the segment.** -/
theorem cleared_more_iff (hx : x ∈ place file gs free) (hi : pageSize * x.1.filePages ≤ i)
    (ha : Paged.addr pageSize x.2 i = some a)
    (hwf : ∀ y ∈ place file gs free, y.1.WellFormed file.size) :
    (∃ y ∈ place file gs free, Clears y a) ↔ i < x.1.lead + x.1.memsz := by
  constructor
  · rintro ⟨y, hy, j, hlo, hhi, haddr⟩
    by_cases hj : j < pageSize * y.1.filePages
    · rw [addr_file hy hj] at haddr
      have hin : y.1.offset / pageSize + j / pageSize ∈ y.1.fileIdx :=
        Seg.mem_fileIdx.mpr ⟨Nat.le_add_right _ _, Nat.add_lt_add_left (Nat.div_lt_of_lt_mul hj) _⟩
      exact absurd (ha.trans haddr.symm)
        (hsep.file_more hx (lt_sizeToPages ((hwf y hy).page_lt hin))
        (Nat.mod_lt _ (by decide)) hi)
    · obtain ⟨rfl, rfl⟩ := hsep.more_more hx hy hi (Nat.le_of_not_lt hj) ha haddr
      exact hhi
  · intro hlt
    refine ⟨x, hx, i, Nat.le_trans ?_ hi, hlt, ha⟩
    rw [Seg.filePages_eq]
    unfold pageSize
    omega

end Apart

/-! ## The loop over the headers -/

/-- Byte `o` of the file belongs to `e_phnum` or to a program header. -/
def HeaderByte (phoff phnum o : Nat) : Prop :=
  ePhnum.off ≤ o ∧ o < ePhnum.off + ePhnum.size ∨ phoff ≤ o ∧ o < phoff + sizeofPhdr * phnum

/-- The files have the same bytes there. -/
structure SameHeaders (phoff phnum : Nat) (f f' : FileMap) : Prop where
  base : f'.base = f.base
  bytes : ∀ o, HeaderByte phoff phnum o → f'.bytes[o]? = f.bytes[o]?

section SameHeaders

variable {phoff phnum : Nat} {f f' : FileMap} (h : SameHeaders phoff phnum f f')

include h

theorem SameHeaders.field {off : Nat} {x : Field}
    (hx : ∀ j < x.size, HeaderByte phoff phnum (off + x.off + j)) :
    f'.field off x = f.field off x := by
  rw [FileMap.field, FileMap.field, h.base, readLE_congr fun j hj => ?_]
  rw [FileMap.byte, FileMap.byte, h.base, if_pos (by omega), if_pos (by omega),
    show f.base + off + x.off + j - f.base = off + x.off + j by omega]
  exact h.bytes _ (hx j hj)

theorem SameHeaders.phnum_eq : f'.hdr ePhnum = f.hdr ePhnum :=
  h.field fun j hj => .inl ⟨by omega, by omega⟩

theorem SameHeaders.seg (hi : i < phnum) : f'.seg phoff i = f.seg phoff i := by
  have hprog (x : Field) (hx : x.off + x.size ≤ sizeofPhdr) :
      f'.prog phoff i x = f.prog phoff i x := by
    have hmul : sizeofPhdr * (i + 1) ≤ sizeofPhdr * phnum := Nat.mul_le_mul_left _ hi
    rw [Nat.mul_succ] at hmul
    exact h.field fun j hj => .inr ⟨by omega, by omega⟩
  rw [FileMap.seg, FileMap.seg, hprog pType (by decide), hprog pMemsz (by decide),
    hprog pOffset (by decide), hprog pVaddr (by decide), hprog pFilesz (by decide),
    hprog pFlags (by decide)]

end SameHeaders

/-- Bytes of memory that are zero stay zero. -/
def ZerosStay (s s' : Machine) : Prop := ∀ a, s.mem a = 0 → s'.mem a = 0

instance : Std.Refl ZerosStay := ⟨fun _ _ h => h⟩

instance : Trans ZerosStay ZerosStay ZerosStay := ⟨fun h h' a ha => h' a (h a ha)⟩

section Loader

variable {fileBase phoff phnum base : Nat} {hmap : fileBase + file.size ≤ word}
  {interp : Nat → List UInt8 → StateT Machine Option (Int × Nat)} {fd : Int} {s s' : Machine}
  {f : FileMap} {n fuel o : Nat} {pr pr' : Progress Nat}

theorem view_getElem? (ho : o < file.size) (m : Mem) :
    (file.view fileBase hmap m).bytes[o]? = some (file.byte m o) := by
  simp [StoredFile.view, ho]

theorem len_view (m : Mem) : (file.view fileBase hmap m).len = file.size := by
  simp [StoredFile.view, FileMap.len]

instance {α : Type} (x : FileMap → Except Stop α) :
    Keeps ZerosStay (look (storedKernel file fileBase hmap interp) x) where
  keeps s a s' hrun := by
    unfold look at hrun
    split at hrun
    · cases hrun
      exact fun _ h => h
    · cases hrun

theorem zerosStay_call {α : Type} {m : StateT Machine Option α}
    (h : ∀ s a s', m s = some (a, s') → ZerosStay s s') : Keeps ZerosStay (call m) where
  keeps s a s' hrun := h s a s' (call_eq_ok.mp hrun)

theorem zerosStay_onStore (m : Store → Except Pages.Fault (Store × Nat)) :
    Keeps ZerosStay (call (onStore m)) := by
  refine zerosStay_call fun s p s' hrun => ?_
  obtain ⟨st, -, rfl⟩ := onStore_eq_some.mp hrun
  exact fun _ h => h

theorem zerosStay_join (head tail : Nat) :
    Keeps ZerosStay (call ((storedKernel file fileBase hmap interp).pageListJoin head tail)) :=
  zerosStay_onStore (Pages.pageListJoin · head tail)

theorem zerosStay_allocPages (n : Nat) : Keeps ZerosStay (call (allocPages n)) := by
  refine zerosStay_call fun s p s' hrun => ?_
  unfold allocPages at hrun
  split at hrun
  · cases hrun
  · split at hrun
    · cases hrun
    · obtain ⟨st, -, rfl⟩ := onStore_eq_some.mp hrun
      exact fun _ h => h

theorem zerosStay_fill (pages off len : Nat) : Keeps ZerosStay
    (call (fillUnmappedPages pages 0 off len)) := by
  refine zerosStay_call fun s u s' hrun a ha => ?_
  unfold fillUnmappedPages at hrun
  split at hrun
  next m' hfill =>
    cases hrun
    exact Pages.fillUnmappedPages_keep ha hfill
  next => cases hrun

theorem getPages_zeros (n off pages : Nat) :
    Keeps ZerosStay (getPages (storedKernel file fileBase hmap interp) fd n off pages) := by
  induction n generalizing off pages with
  | zero => exact .pure _
  | succ n ih => exact (zerosStay_onStore _).seq fun _ => (zerosStay_join _ _).seq fun _ => ih _ _

theorem loadPhdr_zeros (pr : Progress Nat) :
    Keeps ZerosStay (loadPhdr (storedKernel file fileBase hmap interp) fd base phoff i pr) := by
  have hbss (pages filesz memsz off size : Nat) :
      Keeps ZerosStay
        (bssPages (storedKernel file fileBase hmap interp) pages filesz memsz off size) := by
    refine Keeps.seq
      (.branch ((zerosStay_allocPages _).seq fun _ => zerosStay_join _ _) inferInstance)
      fun pages => (zerosStay_fill _ _ _).seq fun _ => inferInstance
  refine .step fun type => .branch ?_ inferInstance
  refine .step fun memsz => .orElse (.step fun vaddr => .step fun offset => .step fun filesz =>
    .step fun flags => .branch ?_ (.branch ?_ inferInstance))
  · exact (getPages_zeros _ _ _).seq fun _ => inferInstance
  · exact (getPages_zeros _ _ _).seq fun _ => (hbss _ _ _ _ _).seq fun _ => inferInstance

theorem loadPhdrs_zeros (fuel i : Nat) (pr : Progress Nat) :
    Keeps ZerosStay
      (loadPhdrs (storedKernel file fileBase hmap interp) fd base phoff fuel i pr) := by
  induction fuel generalizing i pr with
  | zero => exact .pure _
  | succ fuel ih =>
    exact .step fun phnum => .branch ((loadPhdr_zeros pr).seq fun _ => ih _ _) inferInstance

theorem lt_size_of_headerByte (hlen : sizeofEhdr ≤ file.size)
    (htable : phoff + sizeofPhdr * phnum ≤ file.size) (ho : HeaderByte phoff phnum o) :
    o < file.size := by
  rcases ho with ⟨-, ho⟩ | ⟨-, ho⟩
  · exact ho.trans_le ((show ePhnum.off + ePhnum.size ≤ sizeofEhdr by decide).trans hlen)
  · exact ho.trans_le htable

theorem page_lt (ho : o < file.size) : o / pageSize < sizeToPages file.size :=
  lt_sizeToPages ((Nat.mul_div_le o pageSize).trans_lt ho)

/-- What one segment does to a byte of the file. -/
theorem byte_filled {frames : List Nat} {free free' : List Region} {m m' : Mem}
    (hsep : Apart file free) (hwf : g.WellFormed file.size)
    (htake : g.take file free = some (frames, free'))
    (hfilled : Paged.Filled pageSize frames (g.lead + g.filesz) (g.memsz - g.filesz) 0 m m')
    (ho : o < file.size) :
    (g.ClearsFile o → file.byte m' o = 0) ∧
      (¬ g.ClearsFile o → file.byte m' o = file.byte m o) := by
  have hplace : place file [g] free = [(g, frames)] := by
    rw [place, htake]
    rfl
  have hcl : Cleared (place file [g] free) m m' := by
    rw [hplace]
    exact .cons hwf.filesz_le hfilled ⟨fun a ⟨x, hx, _⟩ => absurd hx List.not_mem_nil,
      fun _ _ => rfl⟩
  have hiff := cleared_file_iff hsep (show _ = [g] by rw [hplace]; rfl)
    (fun g' hg' => List.mem_singleton.mp hg' ▸ hwf) (page_lt ho)
      (Nat.mod_lt o (by decide : 0 < pageSize))
  rw [Nat.div_add_mod] at hiff
  simp only [List.mem_singleton, exists_eq_left] at hiff
  exact ⟨fun hc => hcl.zero _ (hiff.mpr hc), fun hc => hcl.same _ fun hx => hc (hiff.mp hx)⟩

theorem Apart.rest {frames : List Nat} {free free' : List Region} (hsep : Apart file free)
    (htake : g.take file free = some (frames, free')) : Apart file free' := by
  rcases take_cases htake with ⟨-, -, rfl⟩ | ⟨r, rfl, -⟩
  · exact hsep
  · refine List.Pairwise.sublist ((List.Sublist.refl _).append ?_) hsep
    rw [List.flatMap_cons]
    exact List.sublist_append_right _ _

/-- Before round `i` of the loop, with `n` headers left: the headers are those of `f`, the segments
that are left are well-formed, their cached pages are lists of their own, and no frame is in use
twice. -/
structure LoopReady (file : StoredFile) (view f : FileMap) (phoff n i : Nat)
    (s : Machine) : Prop where
  header : sizeofEhdr ≤ file.size
  count : i + n = f.hdr ePhnum
  table : phoff + sizeofPhdr * f.hdr ePhnum ≤ file.size
  same : SameHeaders phoff (f.hdr ePhnum) f view
  wellFormed : ∀ g ∈ segments f phoff n i, g.WellFormed file.size
  cached : CacheReady file s.store ((segments f phoff n i).flatMap Seg.fileIdx)
  fits : Fits s.free
  apart : Apart file s.free

/-- What a load leaves behind: the descriptors and page lists of the segments, and zeros. -/
structure Left (file : StoredFile) (base : Nat) (segs : List Seg) (pr pr' : Progress Nat)
    (s s' : Machine)
    (xs : List Placed) : Prop where
  segs_eq : xs.map Placed.seg = segs
  places : xs.map (fun x => (x.seg, x.frames)) = place file segs s.free
  descs : pr'.descs = pr.descs ++ xs.map fun x => x.seg.desc base x.pages
  lists : ∀ x ∈ xs, PageList s'.store x.pages x.entries
  cleared : Cleared (place file segs s.free) s.mem s'.mem
  ext : Extends (file.cachedPages (segs.flatMap Seg.fileIdx)) s.store s'.store

theorem Left.nil (hdescs : pr'.descs = pr.descs) : Left file base [] pr pr' s s [] where
  segs_eq := rfl
  places := rfl
  descs := by simp [hdescs]
  lists x hx := absurd hx List.not_mem_nil
  cleared := ⟨fun a ⟨x, hx, _⟩ => absurd hx List.not_mem_nil, fun _ _ => rfl⟩
  ext := .refl _ _

theorem Left.wellFormed {segs : List Seg} {xs : List Placed} {x : Placed}
    (h : Left file base segs pr pr' s s' xs) (hwf : ∀ g ∈ segs, g.WellFormed file.size)
    (hx : x ∈ xs) :
    x.seg.WellFormed file.size := by
  refine hwf _ ?_
  rw [← h.segs_eq]
  exact List.mem_map_of_mem hx

/-- One more segment in front. -/
theorem Left.cons {frames : List Nat} {free : List Region} {st1 : Store} {m1 : Mem} {pages : Nat}
    {l : List Entry} {segs : List Seg} {pr1 : Progress Nat} {xs : List Placed}
    (h : Left file base segs pr1 pr' ⟨st1, m1, free⟩ s' xs) (hle : g.filesz ≤ g.memsz)
    (htake : g.take file s.free = some (frames, free)) (hframes : l.map Entry.frame = frames)
    (hgrown : Grown file g.fileIdx (segs.flatMap Seg.fileIdx) [] l pages s.store st1)
    (hfilled : Paged.Filled pageSize frames (g.lead + g.filesz) (g.memsz - g.filesz) 0 s.mem m1)
    (hdescs : pr1.descs = pr.descs ++ [g.desc base pages]) :
    Left file base (g :: segs) pr pr' s s' (⟨g, pages, l⟩ :: xs) := by
  have hplace : place file (g :: segs) s.free = (g, frames) :: place file segs free := by
    rw [place, htake]
  refine ⟨?_, ?_, ?_, ?_, ?_, ?_⟩
  · rw [List.map_cons, h.segs_eq]
  · rw [List.map_cons, hplace, h.places, Placed.frames, hframes]
  · rw [h.descs, hdescs, List.append_assoc]
    rfl
  · intro x hx
    rcases List.mem_cons.mp hx with rfl | hx
    · exact hgrown.own.list.extends h.ext hgrown.own.below hgrown.own.apart
    · exact h.lists x hx
  · rw [hplace]
    exact .cons hle hfilled h.cleared
  · rw [List.flatMap_cons, StoredFile.cachedPages_append]
    exact (hgrown.ext.mono fun q _ hq => List.mem_append_left _ hq).trans h.ext
      fun q _ hq => List.mem_append_right _ hq

/-- The bytes of the headers that a segment clears, and that are zero at the end, are zero
before. -/
def KeepsHeaders (file : StoredFile) (phoff phnum : Nat) (segs : List Seg) (m m' : Mem) : Prop :=
  ∀ o, HeaderByte phoff phnum o → (∃ g ∈ segs, g.ClearsFile o) → file.byte m' o = 0 →
    file.byte m o = 0

section Step

variable (h : LoopReady file (file.view fileBase hmap s.mem) f phoff (n + 1) i s)

include h

theorem LoopReady.inside : phoff + sizeofPhdr * (i + 1) ≤ (file.view fileBase hmap s.mem).len := by
  have hcount := h.count
  rw [len_view]
  exact (Nat.add_le_add_left (Nat.mul_le_mul_left _ (by omega)) _).trans h.table

theorem LoopReady.skip (hnone : f.seg phoff i = none) :
    segments f phoff (n + 1) i = segments f phoff n (i + 1) ∧
      LoopReady file (file.view fileBase hmap s.mem) f phoff n (i + 1) s := by
  have hsegs : segments f phoff (n + 1) i = segments f phoff n (i + 1) := by
    rw [segments, hnone]
    rfl
  have hcount := h.count
  exact ⟨hsegs, h.header, by omega, h.table, h.same, hsegs ▸ h.wellFormed, hsegs ▸ h.cached, h.fits,
    h.apart⟩

variable {frames : List Nat} {free : List Region} {st1 : Store} {m1 : Mem}
  (hsegs : segments f phoff (n + 1) i = g :: segments f phoff n (i + 1))
  (htake : g.take file s.free = some (frames, free))

include hsegs htake

/-- The zeros of a segment are still there at the end, so they change no header. -/
theorem LoopReady.byte_eq
    (hfilled : Paged.Filled pageSize frames (g.lead + g.filesz) (g.memsz - g.filesz) 0 s.mem m1)
    (hkeep : KeepsHeaders file phoff (f.hdr ePhnum) (segments f phoff (n + 1) i) s.mem s'.mem)
    (hzeros : ∀ a, m1 a = 0 → s'.mem a = 0) (ho : HeaderByte phoff (f.hdr ePhnum) o) :
    file.byte m1 o = file.byte s.mem o := by
  have hwf := h.wellFormed
  rw [hsegs] at hwf hkeep
  obtain ⟨hclear, hleave⟩ := byte_filled h.apart (hwf g (by simp)) htake hfilled
    (lt_size_of_headerByte h.header h.table ho)
  by_cases hc : g.ClearsFile o
  · rw [hclear hc, hkeep o ho ⟨g, by simp, hc⟩ (hzeros _ (hclear hc))]
  · exact hleave hc

theorem LoopReady.next
    (hsame : ∀ o, HeaderByte phoff (f.hdr ePhnum) o → file.byte m1 o = file.byte s.mem o)
    (hready : CacheReady file st1 ((segments f phoff n (i + 1)).flatMap Seg.fileIdx)) :
    LoopReady file (file.view fileBase hmap m1) f phoff n (i + 1) ⟨st1, m1, free⟩ where
  header := h.header
  count := by
    have := h.count
    omega
  table := h.table
  same :=
    { base := h.same.base
      bytes := fun o ho => by
        have hlt := lt_size_of_headerByte h.header h.table ho
        rw [← h.same.bytes o ho, view_getElem? hlt, view_getElem? hlt, hsame o ho] }
  wellFormed g' hg' := h.wellFormed g' (by
    rw [hsegs]
    exact List.mem_cons_of_mem _ hg')
  cached := hready
  fits := by
    rcases take_cases htake with ⟨-, -, rfl⟩ | ⟨r, hfree, -⟩
    · exact h.fits
    · exact fun r' hr' => h.fits r' (by rw [hfree]; exact List.mem_cons_of_mem _ hr')
  apart := h.apart.rest htake

end Step

/-- **A load that does not change the program headers, segment by segment.** -/
theorem loadPhdrs_placed
    (h : LoopReady file (file.view fileBase hmap s.mem) f phoff n i s) (hfuel : n ≤ fuel)
    (hkeep : KeepsHeaders file phoff (f.hdr ePhnum) (segments f phoff n i) s.mem s'.mem)
    (hrun : loadPhdrs (storedKernel file fileBase hmap interp) fd base phoff fuel i pr s =
      .ok (pr', s')) :
    ∃ xs, Left file base (segments f phoff n i) pr pr' s s' xs := by
  induction fuel generalizing n i pr s with
  | zero =>
    obtain rfl : n = 0 := by omega
    cases hrun
    exact ⟨[], .nil rfl⟩
  | succ fuel ih =>
    have hlen : sizeofEhdr ≤ (file.view fileBase hmap s.mem).len := by
      rw [len_view]
      exact h.header
    have hnum : look (storedKernel file fileBase hmap interp) (·.ehdr ePhnum) s =
        .ok (f.hdr ePhnum, s) := by
      rw [← h.same.phnum_eq]
      exact look_run (FileMap.ehdr_inside hlen (by decide) (by decide))
    have hcount := h.count
    rw [loadPhdrs, run_bind hnum] at hrun
    cases n with
    | zero =>
      rw [if_neg (by omega)] at hrun
      cases hrun
      exact ⟨[], .nil rfl⟩
    | succ n =>
      rw [if_pos (by omega)] at hrun
      obtain ⟨pr1, s1, hhead, htail⟩ := run_bind_ok hrun
      have hzeros := (loadPhdrs_zeros fuel (i + 1) pr1).keeps _ _ _ htail
      have hcases := loadPhdr_cases (k := storedKernel file fileBase hmap interp) h.inside hhead
      rw [show (storedKernel file fileBase hmap interp).file s = file.view fileBase hmap
        s.mem from rfl,
        h.same.seg (by omega)] at hcases
      rcases hcases with ⟨hnone, hdescs, rfl⟩ | ⟨g, pages, hsome, hpages, hdescs⟩
      · obtain ⟨hsegs, hrest⟩ := h.skip hnone
        rw [hsegs] at hkeep ⊢
        obtain ⟨xs, hleft⟩ := ih hrest (by omega) hkeep htail
        exact ⟨xs, { hleft with descs := hdescs ▸ hleft.descs }⟩
      · have hsegs : segments f phoff (n + 1) i = g :: segments f phoff n (i + 1) := by
          rw [segments, hsome]
          rfl
        have hready := h.cached
        have hg := h.wellFormed g (by simp [hsegs])
        rw [hsegs, List.flatMap_cons] at hready
        obtain ⟨frames, free, st1, m1, l, htake, rfl, hframes, hgrown, hfilled⟩ :=
          loadPages_spec hg hready h.fits hpages
        have hsame := fun o => h.byte_eq (o := o) hsegs htake hfilled hkeep hzeros
        rw [hsegs] at hkeep ⊢
        obtain ⟨xs, hleft⟩ := ih (h.next hsegs htake hsame hgrown.ready) (by omega)
          (fun o ho hex hz => by
            obtain ⟨g', hg', hc⟩ := hex
            rw [hsame o ho]
            exact hkeep o ho ⟨g', List.mem_cons_of_mem _ hg', hc⟩ hz) htail
        exact ⟨_, hleft.cons hg.filesz_le htake hframes hgrown hfilled hdescs⟩

end Loader

end Osdev.Elf
