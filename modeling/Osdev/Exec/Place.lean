import Osdev.Exec.Stored

/-!
# The frames of a loaded program

A segment is a page list whose first frames are those of the file, and whose other frames come from
a free region. `place` says which frames each segment gets. `loadPhdrs_placed` is the specification
of the loop over the program headers: the page lists are the placed ones, and the memory is as
before but for zeros between the file part and the end of each segment.
-/

namespace Osdev.Elf

open Osdev.Lib
open Osdev.Pages (Store Entry PageList Linked Extends Owned getref dropPages allocNonownedStructs
  allocCowStructs allocPageStructs freshEntries)
variable {file : StoredFile} {ks : List Nat} {new : List Entry}

/-! ## Page arithmetic -/

namespace Seg

variable {g : Seg} {size k : Nat}

theorem WellFormed.fileSpan_eq (h : g.WellFormed size) (hsize : size + pageSize ≤ word) :
    g.fileSpan = pageSize * g.filePages := by
  have hin := h.inFile
  rw [fileSpan, filePages, addWord_of_lt (by unfold pageSize at hsize; omega),
    align_page (by omega),
    alignDown_page (by unfold pageSize at hsize; omega), subWord_of_le, Nat.mul_sub]
  · exact Nat.mul_le_mul_left _ (Nat.div_le_div_right (by unfold pageSize; omega))
  · unfold pageSize at *
    omega

theorem WellFormed.memSpan_eq (h : g.WellFormed size) : g.memSpan = pageSize * g.pages := by
  have hin := h.inSpace
  rw [memSpan, pages, addWord_of_lt (by unfold pageSize at hin; omega), align_page (by omega),
    alignDown_page (by unfold pageSize at hin; omega), subWord_of_le, Nat.mul_sub]
  · exact Nat.mul_le_mul_left _ (Nat.div_le_div_right (by unfold pageSize; omega))
  · unfold pageSize at *
    omega

/-- Where the data of the segment starts in its first page. -/
def lead (g : Seg) : Nat := g.offset % pageSize

theorem filePages_eq (g : Seg) : g.filePages = (g.lead + g.filesz + pageSize - 1) / pageSize := by
  unfold filePages lead pageSize
  omega

section

variable (h : g.WellFormed size)

include h

theorem WellFormed.pages_eq :
    g.pages = (g.lead + g.memsz + pageSize - 1) / pageSize := by
  have hcong := h.congruent
  unfold pages lead
  unfold pageSize at *
  omega

theorem WellFormed.filePages_le : g.filePages ≤ g.pages := by
  rw [h.pages_eq, filePages_eq]
  have := h.filesz_le
  exact Nat.div_le_div_right (by omega)

theorem WellFormed.pages_of_eq (heq : g.filesz = g.memsz) :
    g.pages = g.filePages := by
  rw [h.pages_eq, filePages_eq, heq]

theorem WellFormed.lead_eq : g.vaddr - alignDown g.vaddr pageSize = g.lead := by
  have hcong := h.congruent
  have hin := h.inSpace
  rw [alignDown_page (by unfold pageSize at hin; omega)]
  unfold lead
  unfold pageSize at *
  omega

theorem WellFormed.bssOff_eq :
    addWord (g.vaddr - alignDown g.vaddr pageSize) g.filesz = g.lead + g.filesz := by
  have hin := h.inSpace
  have hle := h.filesz_le
  rw [h.lead_eq]
  refine addWord_of_lt ?_
  unfold lead
  unfold pageSize at *
  omega

theorem WellFormed.span_eq :
    align (g.vaddr + g.memsz) pageSize - alignDown g.vaddr pageSize = pageSize * g.pages := by
  have hin := h.inSpace
  rw [align_page hin, alignDown_page (by unfold pageSize at hin; omega), pages, Nat.mul_sub]

end

theorem mem_fileIdx : k ∈ g.fileIdx ↔ g.offset / pageSize ≤ k ∧
    k < g.offset / pageSize + g.filePages := by
  rw [fileIdx, List.mem_range'_1]

/-- Every page that the loader asks for starts in the file. -/
theorem WellFormed.page_lt (h : g.WellFormed size) (hk : k ∈ g.fileIdx) : pageSize * k < size := by
  have hin := h.inFile
  have hlt := (mem_fileIdx.mp hk).2
  unfold filePages pageSize at hlt
  unfold pageSize
  omega

end Seg

/-! ## Frames -/

/-- The frames of a free region. -/
def Region.frames (r : Region) : List Nat := (List.range r.count).map (r.frame + pageSize * ·)

namespace StoredFile

/-- The frames of the file. -/
def frames (file : StoredFile) : List Nat := (List.range (sizeToPages file.size)).map file.frame

/-- The structs of the pages that are cached. -/
def cachedPages (file : StoredFile) (ks : List Nat) : List Nat :=
  ks.filterMap fun k => (file.pgcache k).map CachedPage.page

theorem cachedPages_append (file : StoredFile) (ks js : List Nat) :
    file.cachedPages (ks ++ js) = file.cachedPages ks ++ file.cachedPages js :=
  List.filterMap_append

theorem mem_cachedPages {q : Nat} :
    q ∈ file.cachedPages ks ↔ ∃ k ∈ ks, ∃ c, file.pgcache k = some c ∧ c.page = q := by
  simp [cachedPages, List.mem_filterMap, Option.map_eq_some_iff]

theorem size_le (file : StoredFile) : file.size + pageSize ≤ word := by
  have := file.onDisk
  have := file.inMemory
  rw [word_eq, pageSize]
  omega

theorem frame_cached {k : Nat} {c : CachedPage} (h : file.pgcache k = some c) :
    file.frame k = c.frame := by
  rw [frame, h]

theorem frame_uncached {file : StoredFile} {k : Nat} (h : file.pgcache k = none) :
    file.frame k = file.diskPhys + file.dataOffset + pageSize * k := by
  rw [frame, h]

end StoredFile

/-- The frames of a segment, and the regions that are left. -/
def Seg.take (g : Seg) (file : StoredFile) (free : List Region) : Option (List Nat × List Region) :=
  if g.pages ≤ g.filePages then some (g.fileIdx.map file.frame, free)
  else
    match free with
    | [] => none
    | r :: free =>
      if r.count < g.pages - g.filePages then none
      else some (g.fileIdx.map file.frame ++ r.frames.take (g.pages - g.filePages), free)

/-- The frames of each segment. -/
def place (file : StoredFile) : List Seg → List Region → List (Seg × List Nat)
  | [], _ => []
  | g :: gs, free =>
    match g.take file free with
    | some (frames, free) => (g, frames) :: place file gs free
    | none => []

/-- Either the pages of the file are enough, or the first free region gives the others. -/
theorem take_cases {g : Seg} {file : StoredFile} {free free' : List Region} {frames : List Nat}
    (h : g.take file free = some (frames, free')) :
    (g.pages ≤ g.filePages ∧ frames = g.fileIdx.map file.frame ∧ free' = free) ∨
      ∃ r, free = r :: free' ∧ g.filePages < g.pages ∧ g.pages - g.filePages ≤ r.count ∧
        frames = g.fileIdx.map file.frame ++ r.frames.take (g.pages - g.filePages) := by
  unfold Seg.take at h
  split at h
  next hle =>
    cases h
    exact .inl ⟨hle, rfl, rfl⟩
  next hlt =>
    cases free with
    | nil => cases h
    | cons r free =>
      dsimp only at h
      split at h
      next => cases h
      next hcount =>
        cases h
        exact .inr ⟨r, rfl, by omega, by omega, rfl⟩

/-! ## Pages of the file -/

variable {file : StoredFile} {st st' : Store} {todo : List Nat} {k p q : Nat}

/-- The cached pages that are still asked for are lists of their own, and no struct is asked for
twice. -/
structure CacheReady (file : StoredFile) (st : Store) (todo : List Nat) : Prop where
  brk : 0 < st.brk
  lone : ∀ k ∈ todo, ∀ c, file.pgcache k = some c →
    c.page < st.brk ∧ PageList st c.page [⟨c.page, c.frame⟩]
  nodup : (file.cachedPages todo).Nodup

theorem CacheReady.extends {t : List Nat} (h : CacheReady file st todo) (he : Extends t st st')
    (ht : ∀ q ∈ t, q ∉ file.cachedPages todo) : CacheReady file st' todo where
  brk := h.brk.trans_le he.brk
  lone k hk c hc := by
    obtain ⟨hlt, hlist⟩ := h.lone k hk c hc
    refine ⟨hlt.trans_le he.brk, hlist.extends he (fun e hm => ?_) fun e hm hmt => ?_⟩
    · rwa [List.mem_singleton.mp hm]
    · rw [List.mem_singleton.mp hm] at hmt
      exact ht _ hmt (StoredFile.mem_cachedPages.mpr ⟨k, hk, c, hc, rfl⟩)
  nodup := h.nodup

theorem CacheReady.later (ks : List Nat) (h : CacheReady file st (ks ++ todo)) :
    CacheReady file st todo where
  brk := h.brk
  lone k hk := h.lone k (by simp [hk])
  nodup := by
    have := h.nodup
    rw [StoredFile.cachedPages_append] at this
    exact (List.nodup_append.mp this).2.1

/-- What is asked for first is not asked for later. -/
theorem CacheReady.disjoint (ks : List Nat) (h : CacheReady file st (ks ++ todo))
    (hq : q ∈ file.cachedPages ks) : q ∉ file.cachedPages todo := by
  have hnd := h.nodup
  rw [StoredFile.cachedPages_append] at hnd
  exact fun hm => (List.nodup_append.mp hnd).2.2 q hq q hm rfl

/-- **`vm_getpage_cow` makes a new struct for the frame it is given.** -/
theorem vmGetpageCow_spec {phys : Nat} (hbrk : 0 < st.brk)
    (hs : vmGetpageCow st phys = .ok (st', p)) :
    st.brk ≤ p ∧ p < st'.brk ∧ PageList st' p [⟨p, phys⟩] ∧ Extends [] st st' := by
  obtain ⟨⟨s1, page⟩, hs1, hs⟩ := bind_ok hs
  obtain ⟨⟨s2, cow⟩, hs2, hs⟩ := bind_ok hs
  obtain ⟨s3, hs3, hs⟩ := bind_ok hs
  cases hs
  obtain ⟨rfl, hbrk1, hext1, x, hx, haddr, hsize, hcount, hnext, href⟩ :=
    Pages.allocNonownedStructs_one hs1
  obtain ⟨rfl, hbrk2, hext2, ⟨z, hz, hzref⟩, y, hy, hyaddr, hysize, hyhead, hycount, hynext⟩ :=
    Pages.allocCowStructs_one hx (by omega) (by omega) hnext hs2
  obtain ⟨hbrk3, hext3⟩ := Pages.dropPages_shared hz (by omega) hs3
  have hne : s1.brk ∉ [st.brk] := by
    rw [List.mem_singleton]
    omega
  have hcow := (hext3.same s1.brk (by omega) hne).trans hy
  have hold : ∀ r < st.brk, r ∈ [st.brk] → r ∈ ([] : List Nat) := by
    intro r hr hm
    rw [List.mem_singleton.mp hm] at hr
    omega
  exact
    ⟨by omega, by omega, ⟨⟨rfl, by omega, y, hcow, hyaddr.trans haddr, hysize.trans hsize, hynext⟩,
    fun _ => ⟨y, hcow, hyhead, hycount.trans hcount⟩⟩, (hext1.trans hext2 hold).trans hext3 hold⟩

theorem CacheReady.cached_lt (h : CacheReady file st todo) (hq : q ∈ file.cachedPages todo) :
    q < st.brk := by
  obtain ⟨k, hk, c, hc, rfl⟩ := StoredFile.mem_cachedPages.mp hq
  exact (h.lone k hk c hc).1

/-- A cached page comes with one more reference. -/
theorem getref_lone {e : Entry} (hlist : PageList st e.page [e]) (hs : getref st e.page = .ok st') :
    PageList st' e.page [e] ∧ st'.brk = st.brk ∧ Extends [e.page] st st' := by
  obtain ⟨x, hx, hhead, hcount⟩ := hlist.head (List.cons_ne_nil _ _)
  have h0 : e.page ≠ 0 := hlist.linked.2.1
  rw [getref, if_neg h0, Pages.modify_eq hx h0] at hs
  cases hs
  exact ⟨⟨hlist.linked.set hx rfl rfl rfl, fun _ => ⟨_, Pages.page_set_self, hhead, hcount⟩⟩, rfl,
    Nat.le_refl _, fun q _ hn => Pages.page_set_ne fun he => hn (List.mem_singleton.mpr he)⟩

/-- **A page of the file comes with the frame that holds it.** -/
theorem vnGetpage_spec (hready : CacheReady file st (k :: todo)) (hk : pageSize * k < file.size)
    (hs : vnGetpage file (pageSize * k) st = .ok (st', p)) :
    Owned st' (file.cachedPages todo) p [⟨p, file.frame k⟩] ∧
      Extends (file.cachedPages [k]) st st' ∧
      CacheReady file st' todo ∧ (st.brk ≤ p ∨ p ∈ file.cachedPages [k]) := by
  have hdisk := file.onDisk
  have hmem := file.inMemory
  have hlater : CacheReady file st todo := hready.later [k]
  have hdisj : ∀ q ∈ file.cachedPages [k], q ∉ file.cachedPages todo :=
    fun q hq => hready.disjoint [k] hq
  unfold vnGetpage at hs
  rw [if_neg (by omega), Nat.mul_div_cancel_left k (by decide)] at hs
  cases hc : file.pgcache k with
  | some c =>
    rw [hc] at hs
    obtain ⟨s1, hs1, hs⟩ := bind_ok hs
    cases hs
    obtain ⟨hlt, hlone⟩ := hready.lone k (by simp) c hc
    obtain ⟨hlist, hbrk, hext⟩ := getref_lone (e := ⟨c.page, c.frame⟩) hlone hs1
    have hcached : file.cachedPages [k] = [c.page] := by simp [StoredFile.cachedPages, hc]
    have hin : c.page ∈ file.cachedPages [k] := by rw [hcached]; exact List.mem_singleton_self _
    rw [← hcached] at hext
    rw [StoredFile.frame_cached hc]
    refine ⟨⟨hlist, fun e he => ?_, List.nodup_singleton _, fun e he => ?_⟩, hext,
      hlater.extends hext hdisj, .inr hin⟩
    · rwa [List.mem_singleton.mp he, hbrk]
    · rw [List.mem_singleton.mp he]
      exact hdisj _ hin
  | none =>
    rw [hc] at hs
    have hphys : addWord file.diskPhys (addWord file.dataOffset (pageSize * k)) = file.frame k := by
      rw [StoredFile.frame_uncached hc,
        addWord_of_lt (a := file.dataOffset) (by rw [word_eq]; omega),
        addWord_of_lt (by rw [word_eq]; omega)]
      omega
    unfold ramdiskDGetpage at hs
    rw [hphys, addWord_of_lt (by rw [word_eq]; omega), if_neg (by omega)] at hs
    obtain ⟨hge, hlt, hlist, hext⟩ := vmGetpageCow_spec hready.brk hs
    have hcached : file.cachedPages [k] = [] := by simp [StoredFile.cachedPages, hc]
    rw [hcached]
    refine ⟨⟨hlist, fun e he => ?_, List.nodup_singleton _, fun e he hm => ?_⟩, hext,
      hlater.extends hext fun q hq => absurd hq List.not_mem_nil, .inl hge⟩
    · rwa [List.mem_singleton.mp he]
    · rw [List.mem_singleton.mp he] at hm
      have hold : p < st.brk := hlater.cached_lt hm
      omega

/-! ## Page lists of segments -/

section Loader

variable {fileBase : Nat} {hmap : fileBase + file.size ≤ word}
  {interp : Nat → List UInt8 → StateT Machine Option (Int × Nat)} {fd : Int} {s s' : Machine}
  {pages pages' : Nat} {l : List Entry}

theorem call_eq_ok {σ α : Type} {m : StateT σ Option α} {s : σ} {r : α × σ} :
    call m s = .ok r ↔ m s = some r := by
  unfold call
  split
  next r' hr => rw [hr, Except.ok.injEq, Option.some.injEq]
  next hr => exact ⟨fun h => (by cases h), fun h => (by rw [hr] at h; cases h)⟩

theorem call_bind_eq_ok {σ α β : Type} {m : StateT σ Option α} {g : α → LoadM σ β} {s : σ}
    {r : β × σ} :
    (call m >>= g) s = .ok r ↔ ∃ a s1, m s = some (a, s1) ∧ g a s1 = .ok r := by
  rw [run_bind_eq_ok]
  simp only [call_eq_ok]

theorem onStore_eq_some {f : Store → Except Pages.Fault (Store × Nat)} :
    onStore f s = some (p, s') ↔ ∃ st, f s.store = .ok (st, p) ∧ s' = { s with store := st } := by
  unfold onStore
  cases hf : f s.store with
  | error e => simp
  | ok r => simp [Prod.ext_iff, eq_comm]

/-- The list `l` was made longer by `new`, which consists of new structs and of cached pages
`ks`. -/
structure Grown (file : StoredFile) (ks todo : List Nat) (l new : List Entry) (pages : Nat)
    (st st' : Store) : Prop where
  own : Owned st' (file.cachedPages todo) pages (l ++ new)
  ext : Extends (l.map Entry.page ++ file.cachedPages ks) st st'
  ready : CacheReady file st' todo
  fresh : ∀ e ∈ new, st.brk ≤ e.page ∨ e.page ∈ file.cachedPages ks

theorem Grown.trans {js : List Nat} {new' : List Entry} {st'' : Store}
    (h : Grown file ks (js ++ todo) l new pages st st')
    (h' : Grown file js todo (l ++ new) new' pages' st' st'') :
    Grown file (ks ++ js) todo l (new ++ new') pages' st st'' where
  own := by
    rw [← List.append_assoc]
    exact h'.own
  ext := by
    rw [StoredFile.cachedPages_append, ← List.append_assoc]
    refine (h.ext.mono fun q _ hq => List.mem_append_left _ hq).trans h'.ext fun q hq hm => ?_
    rw [List.map_append, List.mem_append, List.mem_append] at hm
    rcases hm with (hm | hm) | hm
    · exact List.mem_append_left _ (by simp [hm])
    · obtain ⟨e, he, rfl⟩ := List.mem_map.mp hm
      exact List.mem_append_left _
        (List.mem_append_right _ ((h.fresh e he).resolve_left (by omega)))
    · exact List.mem_append_right _ hm
  ready := h'.ready
  fresh e he := by
    rw [StoredFile.cachedPages_append, List.mem_append]
    rcases List.mem_append.mp he with he | he
    · exact (h.fresh e he).imp_right .inl
    · exact (h'.fresh e he).imp (Nat.le_trans h.ext.brk) .inr

/-- Joining a list of new and cached pages. -/
theorem Grown.join {st1 : Store}
    (hown : Owned st (file.cachedPages (ks ++ todo)) pages l)
    (hext : Extends (file.cachedPages ks) st st1) (hready : CacheReady file st1 todo)
    (hnew : Owned st1 (file.cachedPages todo) p new)
    (hfresh : ∀ e ∈ new, st.brk ≤ e.page ∨ e.page ∈ file.cachedPages ks)
    (hs : Pages.pageListJoin st1 pages p = .ok (st', pages')) :
    Grown file ks todo l new pages' st st' := by
  rw [StoredFile.cachedPages_append] at hown
  have hown1 : Owned st1 (file.cachedPages todo) pages l :=
    (hown.mono fun q hq => List.mem_append_right _ hq).extends hext
      fun e he hm => hown.apart e he (by simp [hm])
  have hdisj : ∀ e ∈ l, e.page ∉ new.map Entry.page := by
    intro e he hm
    obtain ⟨e', he', heq⟩ := List.mem_map.mp hm
    rcases hfresh e' he' with hge | hin
    · have := hown.below e he
      omega
    · exact hown.apart e he (List.mem_append_left _ (heq ▸ hin))
  obtain ⟨hown2, hext2⟩ := hown1.join hnew hdisj hs
  refine ⟨hown2, ?_, hready.extends hext2 fun q hq => ?_, hfresh⟩
  · refine (hext.mono fun q _ hq => List.mem_append_right _ hq).trans hext2 fun q hq hm => ?_
    rw [List.map_append, List.mem_append] at hm
    refine List.mem_append.mpr (hm.imp_right fun hm => ?_)
    obtain ⟨e, he, rfl⟩ := List.mem_map.mp hm
    exact (hfresh e he).resolve_left (by omega)
  · obtain ⟨e, he, rfl⟩ := List.mem_map.mp hq
    exact hown2.apart e he

/-- **The loop over the pages of the file appends their frames.** -/
theorem getPages_spec {n : Nat} (hready : CacheReady file s.store (List.range' k n ++ todo))
    (hown : Owned s.store (file.cachedPages (List.range' k n ++ todo)) pages l)
    (hsize : ∀ j ∈ List.range' k n, pageSize * j < file.size)
    (hrun : getPages (storedKernel file fileBase hmap interp) fd n
    (pageSize * k) pages s = .ok (pages', s')) :
    ∃ st' new, s' = { s with store := st' } ∧
      new.map Entry.frame = (List.range' k n).map file.frame ∧
      Grown file (List.range' k n) todo l new pages' s.store st' := by
  induction n generalizing k pages s l with
  | zero =>
    cases hrun
    refine ⟨_, [], rfl, rfl, ?_, .refl _ _, hready, fun e he => absurd he List.not_mem_nil⟩
    rwa [List.append_nil]
  | succ n ih =>
    rw [List.range'_succ] at hready hown hsize ⊢
    obtain ⟨page, s1, hcall, hrest⟩ := call_bind_eq_ok.mp hrun
    obtain ⟨pages1, s2, hcall', hloop⟩ := call_bind_eq_ok.mp hrest
    obtain ⟨st1, hget, hs1⟩ := onStore_eq_some.mp hcall
    subst hs1
    obtain ⟨st2, hjoin, hs2⟩ := onStore_eq_some (f := (Pages.pageListJoin · pages page)).mp hcall'
    subst hs2
    have hlt : pageSize * k < file.size := hsize k (by simp)
    have hoff : addWord (pageSize * k) pageSize = pageSize * (k + 1) := by
      have hle := file.size_le
      rw [addWord_of_lt (by omega), Nat.mul_succ]
    rw [hoff] at hloop
    obtain ⟨hpage, hext, hready1, hnew⟩ := vnGetpage_spec hready hlt hget
    have hstep : Grown file [k] (List.range' (k + 1) n ++ todo) l
        [⟨page, file.frame k⟩] pages1 s.store st2 :=
      .join hown hext hready1 hpage (fun e he => by rwa [List.mem_singleton.mp he]) hjoin
    obtain ⟨st', new, hs', hframes, hgrown⟩ := ih hstep.ready hstep.own
      (fun j hj => hsize j (by simp [hj])) hloop
    refine ⟨st', ⟨page, file.frame k⟩ :: new, hs', ?_, hstep.trans hgrown⟩
    rw [List.map_cons, List.map_cons, hframes]

/-- Free regions lie below the end of the address space. -/
def Fits (free : List Region) : Prop := ∀ r ∈ free, r.frame + pageSize * r.count < word

theorem allocPages_spec {n : Nat} (hready : CacheReady file s.store todo) (hfits : Fits s.free)
    (hs : allocPages n s = some (p, s')) :
    ∃ r free st' new, s.free = r :: free ∧ s' = ⟨st', s.mem, free⟩ ∧ n ≤ r.count ∧
      new.map Entry.frame = r.frames.take n ∧ Extends [] s.store st' ∧ CacheReady file st' todo ∧
      Owned st' (file.cachedPages todo) p new ∧ ∀ e ∈ new, s.store.brk ≤ e.page := by
  unfold allocPages at hs
  cases hfree : s.free with
  | nil =>
    simp [hfree] at hs
  | cons r free =>
    rw [hfree] at hs
    dsimp only at hs
    split at hs
    next => cases hs
    next hle =>
      obtain ⟨st', halloc, hs'⟩ := onStore_eq_some.mp hs
      have hfit : r.frame + pageSize * r.count < word :=
        hfits r (by rw [hfree]; exact List.mem_cons_self)
      have hmul : pageSize * n ≤ pageSize * r.count := Nat.mul_le_mul_left _ (by omega)
      obtain ⟨hlist, hbrk, hext⟩ := Pages.allocPageStructs_pageList hready.brk (by omega) halloc
      refine ⟨r, free, st', _, rfl, hs', by omega, ?_, hext,
        hready.extends hext fun q hq => absurd hq List.not_mem_nil,
        ⟨hlist, fun e he => ?_, Pages.nodup_freshEntries _ _ _, fun e he hm => ?_⟩,
        fun e he => (Pages.mem_freshEntries he).1⟩
      · rw [Pages.frame_freshEntries, Region.frames, ← List.map_take, List.take_range,
          Nat.min_eq_left (by omega)]
      · rw [hbrk]
        exact (Pages.mem_freshEntries he).2
      · have hlt := hready.cached_lt hm
        have hge : s.store.brk ≤ e.page := (Pages.mem_freshEntries he).1
        omega

variable {g : Seg}

theorem sizeToPages_mul (n : Nat) : sizeToPages (pageSize * n) = n := by
  rw [sizeToPages, Nat.mul_div_cancel_left n (by decide), Nat.mul_mod_right]
  rfl

/-- The pages behind those of the file. -/
theorem morePages_spec (hwf : g.WellFormed file.size) (hready : CacheReady file s.store todo)
    (hown : Owned s.store (file.cachedPages todo) pages l) (hfits : Fits s.free)
    (hl : l.map Entry.frame = g.fileIdx.map file.frame)
    (hrun : morePages (storedKernel file fileBase hmap interp) pages g.fileSpan g.memSpan s =
    .ok (pages', s')) :
    ∃ frames free st' new, g.take file s.free = some (frames, free) ∧ s' = ⟨st', s.mem, free⟩ ∧
      (l ++ new).map Entry.frame = frames ∧ Grown file [] todo l new pages' s.store st' := by
  rw [hwf.fileSpan_eq file.size_le, hwf.memSpan_eq] at hrun
  unfold morePages at hrun
  unfold Seg.take
  split at hrun
  next hlt =>
    have hmore : g.filePages < g.pages := Nat.lt_of_mul_lt_mul_left hlt
    obtain ⟨more, s1, halloc, hrest⟩ := call_bind_eq_ok.mp hrun
    rw [← Nat.mul_sub, sizeToPages_mul] at halloc
    obtain ⟨r, free, st1, new, hfree, rfl, hcount, hframes, hext, hready1, hnew, hfresh⟩ :=
      allocPages_spec hready hfits halloc
    obtain ⟨st2, hjoin, hs'⟩ := onStore_eq_some (f := (Pages.pageListJoin · pages more)).mp
      (call_eq_ok.mp hrest)
    rw [if_neg (by omega), hfree]
    have hgrown : Grown file [] todo l new pages' s.store st2 :=
      .join hown hext hready1 hnew (fun e he => .inl (hfresh e he)) hjoin
    refine ⟨_, _, st2, new, if_neg (by omega), hs', ?_, hgrown⟩
    rw [List.map_append, hl, hframes]
  next hnlt =>
    have hall : g.pages ≤ g.filePages := by
      by_contra hlt
      exact hnlt (Nat.mul_lt_mul_of_pos_left (by omega) (by decide))
    cases hrun
    rw [if_pos hall]
    refine ⟨_, _, _, [], rfl, rfl, ?_, ?_, .refl _ _, hready,
      fun e he => absurd he List.not_mem_nil⟩
    · rw [List.append_nil, hl]
    · rwa [List.append_nil]

/-- **The pages of a segment are those of the file and of a free region, with zeros behind the data
of the file.** -/
theorem loadPages_spec (hwf : g.WellFormed file.size)
    (hready : CacheReady file s.store (g.fileIdx ++ todo)) (hfits : Fits s.free)
    (hrun : loadPages (storedKernel file fileBase hmap interp) fd g s = .ok (pages, s')) :
    ∃ frames free st' m' l, g.take file s.free = some (frames, free) ∧ s' = ⟨st', m', free⟩ ∧
      l.map Entry.frame = frames ∧ Grown file g.fileIdx todo [] l pages s.store st' ∧
      Paged.Filled pageSize frames (g.lead + g.filesz) (g.memsz - g.filesz) 0 s.mem m' := by
  have hoff : alignDown g.offset pageSize = pageSize * (g.offset / pageSize) := by
    have := hwf.inFile
    have := file.size_le
    exact alignDown_page (by unfold pageSize at *; omega)
  have hget {pages : Nat} {s1 : Machine} (h : getPages (storedKernel file fileBase hmap interp) fd
      (g.fileSpan / pageSize) (alignDown g.offset pageSize) 0 s = .ok (pages, s1)) :
      ∃ st' new, s1 = { s with store := st' } ∧ new.map Entry.frame = g.fileIdx.map file.frame ∧
        Grown file g.fileIdx todo [] new pages s.store st' := by
    rw [hoff, hwf.fileSpan_eq file.size_le, Nat.mul_div_cancel_left _ (by decide)] at h
    exact getPages_spec hready Pages.owned_nil (fun j hj => hwf.page_lt hj) h
  unfold loadPages at hrun
  split at hrun
  next heq =>
    obtain ⟨st', new, rfl, hframes, hgrown⟩ := hget hrun
    refine ⟨_, _, st', s.mem, new, ?_, rfl, hframes, hgrown, ?_⟩
    · exact if_pos (Nat.le_of_eq (hwf.pages_of_eq heq))
    · rw [heq, Nat.sub_self]
      exact .zero _ _
  next hne =>
    split at hrun
    next hlt =>
      obtain ⟨pages1, s1, hfile, hbss⟩ := run_bind_ok hrun
      obtain ⟨pages2, s2, hmore, hfill⟩ := run_bind_ok hbss
      obtain ⟨u, s3, hcall, hdone⟩ := call_bind_eq_ok.mp hfill
      cases hdone
      obtain ⟨st1, new, rfl, hframes, hgrown⟩ := hget hfile
      obtain ⟨frames, free, st2, new2, htake, rfl, hframes2, hgrown2⟩ :=
        morePages_spec (s := ⟨st1, s.mem, s.free⟩) hwf hgrown.ready hgrown.own hfits hframes hmore
      have hboth : Grown file (g.fileIdx ++ []) todo [] (new ++ new2) pages s.store st2 :=
        hgrown.trans hgrown2
      rw [List.append_nil] at hboth
      change fillUnmappedPages pages 0 _ _ _ = _ at hcall
      unfold fillUnmappedPages at hcall
      split at hcall
      next m' hm' =>
        cases hcall
        refine ⟨frames, free, st2, m', _, htake, rfl, hframes2, hboth, ?_⟩
        rw [hwf.bssOff_eq] at hm'
        rw [← hframes2]
        exact Pages.fillUnmappedPages_filled hgrown2.own.list hm'
      next => cases hcall
    next => cases hrun

/-! ## The loop over the program headers -/

/-- A segment with its page list. -/
structure Placed where
  seg : Seg
  pages : Nat
  entries : List Entry

/-- The frames of the page list. -/
def Placed.frames (x : Placed) : List Nat := x.entries.map Entry.frame

/-- The loader clears the byte at an address for a segment. -/
def Clears (x : Seg × List Nat) (a : Nat) : Prop :=
  ∃ i, x.1.lead + x.1.filesz ≤ i ∧ i < x.1.lead + x.1.memsz ∧ Paged.addr pageSize x.2 i = some a

/-- `m'` is `m` with zeros where a segment is cleared. -/
structure Cleared (places : List (Seg × List Nat)) (m m' : Mem) : Prop where
  zero : ∀ a, (∃ x ∈ places, Clears x a) → m' a = 0
  same : ∀ a, (¬ ∃ x ∈ places, Clears x a) → m' a = m a

theorem Cleared.cons {frames : List Nat} {places : List (Seg × List Nat)} {m m1 m' : Mem}
    (hle : g.filesz ≤ g.memsz)
    (h : Paged.Filled pageSize frames (g.lead + g.filesz) (g.memsz - g.filesz) 0 m m1)
    (hrest : Cleared places m1 m') : Cleared ((g, frames) :: places) m m' where
  zero a ha := by
    by_cases hlater : ∃ x ∈ places, Clears x a
    · exact hrest.zero a hlater
    · obtain ⟨x, hx, i, hi, hi', haddr⟩ := ha
      rcases List.mem_cons.mp hx with rfl | hx
      · rw [hrest.same a hlater]
        exact h.inside i a hi (by dsimp only at hi'; omega) haddr
      · exact absurd ⟨x, hx, i, hi, hi', haddr⟩ hlater
  same a ha := by
    rw [hrest.same a fun ⟨x, hx, hc⟩ => ha ⟨x, List.mem_cons_of_mem _ hx, hc⟩]
    exact h.outside a fun i hi hi' haddr =>
      ha ⟨(g, frames), by simp, i, hi, (by dsimp only; omega), haddr⟩

end Loader

end Osdev.Elf
