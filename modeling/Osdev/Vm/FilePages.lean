import Osdev.Lib.Except
import Osdev.Lib.Run
import Osdev.Pages.Chain
import Osdev.Vm.Backing

/-!
# The pages of a file (`kernel/mm/file.c`, `kernel/mm/pgcache.c`)

`vm_file_getpage` looks in the page cache of a file and asks the file's `missing_page` for what is
not there. The two parts of a split file share the cache: they find the pages that the whole file
would find, however many pages come into the cache in between, and merging them gives the file back.
-/

namespace Osdev.Vm

open Osdev.Lib

/-- `getref` of a page struct. -/
def Backing.getref (b : Backing) (page : Nat) : Except Fault Backing := do
  let store ← (Pages.getref b.store page).mapError ofPages
  .ok { b with store }

/-- The number of the page at an offset; `log2` is found by counting zeros. -/
def PgCache.index (c : PgCache) (off : Nat) : Nat := off / 2 ^ c.pgSize.log2

/-- `pgcache_lookup`: the page with a new reference, or `NULL`. -/
def pgcacheLookup (b : Backing) (cache off : Nat) : Except Fault (Nat × Backing) := do
  let c ← b.derefCache cache
  if c.maxCapacity ≤ off then .ok (0, b)
  else do
    let b ← b.getref (c.page (c.index off))
    .ok (c.page (c.index off), b)

/-- `pgcache_insert` without a place for the old page, which is dropped. -/
def pgcacheInsert (b : Backing) (cache off page : Nat) : Except Fault Backing := do
  let c ← b.derefCache cache
  if c.maxCapacity ≤ off then b.dropPages page
  else (b.setCache cache (some { c with
    page := fun i => if i = c.index off then page else c.page i })).dropPages (c.page (c.index off))

/-- The callback of a file for a page that is not in the cache. -/
abbrev MissingPage := VmFile → Nat → Backing → Except Fault (Nat × Backing)

/-- `anon_getpage_missing`, with the function `alloc_pages_size`. -/
def anonGetpageMissing
    (allocPagesSize : Nat → Nat → Pages.Store → Except Fault (Nat × Pages.Store)) :
    MissingPage := fun f _ b => do
  let (page, store) ← allocPagesSize 1 f.pgSize b.store
  .ok (page, { b with store })

/-- The last lines of `vm_file_getpage`, for the page that `missing_page` returns. -/
def insertMissing (f : VmFile) (off page : Nat) (b : Backing) : Except Fault (Nat × Backing) :=
  if page = 0 then .ok (0, b)
  else do
    let b ← b.getref page
    let b ← pgcacheInsert b f.pgcache off page
    .ok (page, b)

/-- `vm_file_getpage`, with `file->missing_page`. -/
def vmFileGetpage (missingPage : MissingPage) (f : VmFile) (off : Nat) (b : Backing) :
    Except Fault (Nat × Backing) :=
  if f.size ≤ off then .ok (0, b)
  else do
    let off := addWord off f.off
    let (page, b) ← pgcacheLookup b f.pgcache off
    if page ≠ 0 then .ok (page, b)
    else do
      let (page, b) ← missingPage f off b
      insertMissing f off page b

variable {b b' : Backing} {file new k p off : Nat} {f f₁ f₂ : VmFile} {c : PgCache}

/-! ## What a lookup changes -/

/-- The files are the same, and the caches are there with the same references. -/
structure SameFiles (b b' : Backing) : Prop where
  file : b'.file = b.file
  count : ∀ q, (b'.cache q).map PgCache.refcount = (b.cache q).map PgCache.refcount

theorem SameFiles.trans {b1 : Backing} (h : SameFiles b b1) (h' : SameFiles b1 b') :
    SameFiles b b' :=
  ⟨h'.file.trans h.file, fun q => (h'.count q).trans (h.count q)⟩

theorem getref_sameFiles (h : b.getref p = .ok b') : SameFiles b b' := by
  obtain ⟨store, -, h⟩ := bind_ok h
  cases h
  exact ⟨rfl, fun _ => rfl⟩

theorem dropPages_sameFiles (h : b.dropPages p = .ok b') : SameFiles b b' := by
  obtain ⟨store, -, h⟩ := bind_ok h
  cases h
  exact ⟨rfl, fun _ => rfl⟩

theorem derefCache_ok (h : b.derefCache p = .ok c) : b.cache p = some c := by
  obtain ⟨-, h⟩ := guard_eq_ok.mp h
  split at h
  · cases h
  next hc =>
    cases h
    exact hc

theorem pgcacheInsert_sameFiles (h : pgcacheInsert b p off k = .ok b') : SameFiles b b' := by
  obtain ⟨c, hc, h⟩ := bind_ok h
  split at h
  · exact dropPages_sameFiles h
  · have hset : SameFiles b (b.setCache p (some { c with
        page := fun i => if i = c.index off then k else c.page i })) := by
      refine ⟨rfl, fun q => ?_⟩
      by_cases hq : q = p
      · simp [Backing.setCache, hq, derefCache_ok hc]
      · simp [Backing.setCache, hq]
    exact hset.trans (dropPages_sameFiles h)

theorem vmFileGetpage_sameFiles
    {allocPagesSize : Nat → Nat → Pages.Store → Except Fault (Nat × Pages.Store)}
    (h : vmFileGetpage (anonGetpageMissing allocPagesSize) f off b = .ok (p, b')) :
    SameFiles b b' := by
  unfold vmFileGetpage at h
  split at h
  · cases h
    exact ⟨rfl, fun _ => rfl⟩
  · obtain ⟨⟨q, b1⟩, hlookup, h⟩ := bind_ok h
    have h1 : SameFiles b b1 := by
      obtain ⟨c, -, hlookup⟩ := bind_ok hlookup
      split at hlookup
      · cases hlookup
        exact ⟨rfl, fun _ => rfl⟩
      · obtain ⟨b2, href, hlookup⟩ := bind_ok hlookup
        cases hlookup
        exact getref_sameFiles href
    refine h1.trans ?_
    dsimp only at h
    split at h
    · cases h
      exact ⟨rfl, fun _ => rfl⟩
    · obtain ⟨⟨r, b2⟩, hmiss, h⟩ := bind_ok h
      obtain ⟨⟨r', store⟩, -, hmiss⟩ := bind_ok hmiss
      cases hmiss
      have hstore : SameFiles b1 { b1 with store } := ⟨rfl, fun _ => rfl⟩
      refine hstore.trans ?_
      dsimp only [insertMissing] at h
      split at h
      · cases h
        exact ⟨rfl, fun _ => rfl⟩
      · obtain ⟨b2, href, h⟩ := bind_ok h
        obtain ⟨b3, hins, h⟩ := bind_ok h
        cases h
        exact (getref_sameFiles href).trans (pgcacheInsert_sameFiles hins)

/-! ## Splitting and merging -/

/-- One of the two files is asked for a page. -/
def AsksOneOf (missingPage : MissingPage) (f₁ f₂ : VmFile) (b : Backing) (o : Bool × Nat)
    (b' : Backing) : Prop :=
  ∃ page, vmFileGetpage missingPage (if o.1 then f₁ else f₂) o.2 b = .ok (page, b')

theorem derefPage_eq {x : Pages.Page} (hx : b.store.page p = some x) (h0 : p ≠ 0) :
    b.derefPage p = .ok x := by
  rw [Backing.derefPage, Pages.deref_eq hx h0]
  rfl

theorem getref_eq {x : Pages.Page} (hx : b.store.page p = some x) (h0 : p ≠ 0) :
    b.getref p = .ok { b with store := b.store.set p { x with refcount := x.refcount + 1 } } := by
  rw [Backing.getref, Pages.getref, if_neg h0, Pages.modify_eq hx h0]
  rfl

theorem dropPages_eq {x : Pages.Page} (hx : b.store.page p = some x) (h0 : p ≠ 0)
    (href : x.refcount ≠ 1) :
    b.dropPages p =
      .ok { b with store := b.store.set p { x with refcount := x.refcount - 1 } } := by
  rw [Backing.dropPages, Pages.dropPages, Pages.putref_of_ne h0 hx href]
  rfl

theorem derefFile_eq (h0 : p ≠ 0) (hf : b.file p = some f) : b.derefFile p = .ok f := by
  rw [Backing.derefFile, if_neg h0, hf]

theorem derefCache_eq (h0 : p ≠ 0) (hc : b.cache p = some c) : b.derefCache p = .ok c := by
  rw [Backing.derefCache, if_neg h0, hc]

/-- What `vm_file_split` makes of an anonymous file. -/
theorem vmFileSplit_run (hf0 : file ≠ 0) (hf : b.file file = some f) (hc0 : f.pgcache ≠ 0)
    (hc : b.cache f.pgcache = some c) (hne : file ≠ b.brk) (hk : k % f.pgSize = 0)
    (hlt : k < f.size) :
    ∃ b', vmFileSplit b file k = .ok (b.brk, b') ∧ b'.file file = some { f with size := k } ∧
      b'.file b.brk = some { f with size := f.size - k, off := f.off + k } ∧
      b'.cache f.pgcache = some { c with refcount := c.refcount + 1 } := by
  let b1 := b.setCache f.pgcache (some { c with refcount := c.refcount + 1 })
  refine ⟨(b1.allocFile { f with size := f.size - k, off := f.off + k }).2.setFile file
    { f with size := k }, ?_, if_pos rfl, (if_neg hne.symm).trans (if_pos rfl), if_pos rfl⟩
  · unfold vmFileSplit pgcacheGetref
    rw [derefFile_eq hf0 hf]
    refine (if_neg (by simp [hk])).trans ((if_neg (by omega)).trans ?_)
    rw [if_neg hc0, derefCache_eq hc0 hc]
    rfl

/-- `vm_file_merge` undoes a split. -/
theorem vmFileMerge_run (hf0 : file ≠ 0) (hn0 : new ≠ 0) (hne : file ≠ new)
    (h1 : b.file file = some { f with size := k })
    (h2 : b.file new = some { f with size := f.size - k, off := f.off + k }) (hanon : f.vnode = 0)
    (hc0 : f.pgcache ≠ 0) (hc : b.cache f.pgcache = some c) (hlt : k < f.size)
    (href : c.refcount ≠ 1) :
    ∃ b', vmFileMerge b file new = .ok b' ∧ b'.file file = some f ∧
      b'.cache f.pgcache = some { c with refcount := c.refcount - 1 } := by
  have hsize : k + (f.size - k) = f.size := by omega
  let b1 := b.setFile file { f with size := k + (f.size - k) }
  let b2 := b1.setCache f.pgcache (some { c with refcount := c.refcount - 1 })
  refine ⟨b2.setFile new { f with size := f.size - k, off := f.off + k, pgcache := 0 }, ?_,
    (if_neg hne).trans ((if_pos rfl).trans (by rw [hsize])), if_pos rfl⟩
  · rw [vmFileMerge, derefFile_eq hf0 h1]
    show (do let o ← b.derefFile new; _) = _
    rw [derefFile_eq hn0 h2]
    refine (if_neg (by simp)).trans ?_
    unfold vmFileFree pgcacheFree
    rw [derefFile_eq hn0 ((if_neg hne.symm).trans h2)]
    refine (if_neg (not_not.mpr hanon)).trans ?_
    rw [if_neg hc0, derefCache_eq (b := b1) hc0 hc]
    dsimp only [bind, Except.bind]
    rw [if_neg href]

/-- **The parts of an anonymous file have its pages, and merging them gives the file and the
reference to its cache back.** -/
theorem vmFileSplit_pages (hf0 : file ≠ 0) (hf : b.file file = some f) (hanon : f.vnode = 0)
    (hc0 : f.pgcache ≠ 0) (hc : b.cache f.pgcache = some c) (href : 0 < c.refcount)
    (hne : file < b.brk)
    (hk : k % f.pgSize = 0) (hlt : k < f.size)
    (allocPagesSize : Nat → Nat → Pages.Store → Except Fault (Nat × Pages.Store)) :
    ∃ new b₁ f₁ f₂, vmFileSplit b file k = .ok (new, b₁) ∧ b₁.file file = some f₁ ∧
      b₁.file new = some f₂ ∧ f₁.size = k ∧ f₂.size = f.size - k ∧
      (∀ o < k, vmFileGetpage (anonGetpageMissing allocPagesSize) f₁ o =
        vmFileGetpage (anonGetpageMissing allocPagesSize) f o) ∧
      (∀ o < f₂.size, vmFileGetpage (anonGetpageMissing allocPagesSize) f₂ o =
        vmFileGetpage (anonGetpageMissing allocPagesSize) f (k + o)) ∧
      (∀ o b', k ≤ o → vmFileGetpage (anonGetpageMissing allocPagesSize) f₁ o b' = .ok (0, b')) ∧
      (∀ o b', f₂.size ≤ o →
        vmFileGetpage (anonGetpageMissing allocPagesSize) f₂ o b' = .ok (0, b')) ∧
      ∀ b₂, Reach (· = b₁) (AsksOneOf (anonGetpageMissing allocPagesSize) f₁ f₂) b₂ →
        ∃ b₃, vmFileMerge b₂ file new = .ok b₃ ∧ b₃.file file = some f ∧
          (b₃.cache f.pgcache).map PgCache.refcount = some c.refcount := by
  obtain ⟨b₁, hrun, h1, h2, hcache⟩ := vmFileSplit_run hf0 hf hc0 hc (Nat.ne_of_lt hne) hk hlt
  refine ⟨b.brk, b₁, _, _, hrun, h1, h2, rfl, rfl, fun o ho => ?_, fun o ho => ?_,
    fun o b' ho => ?_,
    fun o b' ho => ?_, fun b₂ hreach => ?_⟩
  · funext b'
    unfold vmFileGetpage
    rw [if_neg (by simp; omega), if_neg (by omega)]
    rfl
  · funext b'
    have ho' : o < f.size - k := ho
    have hoff : addWord o (f.off + k) = addWord (k + o) f.off := by
      unfold addWord
      congr 1
      omega
    unfold vmFileGetpage
    rw [if_neg (by simp; omega), if_neg (by omega), hoff]
    rfl
  · exact if_pos ho
  · exact if_pos ho
  · have hsame : SameFiles b₁ b₂ := hreach.invariant (by rintro _ rfl; exact ⟨rfl, fun _ => rfl⟩)
      fun s o s' hs ⟨page, hstep⟩ => hs.trans (vmFileGetpage_sameFiles hstep)
    have hcount := hsame.count f.pgcache
    rw [hcache] at hcount
    obtain ⟨c2, hc2, hcount⟩ := Option.map_eq_some_iff.mp hcount
    have hcount : c2.refcount = c.refcount + 1 := hcount
    rw [← hsame.file] at h1 h2
    obtain ⟨b₃, hmerge, hfile, hcache3⟩ := vmFileMerge_run hf0 (by omega) (Nat.ne_of_lt hne) h1 h2
      hanon hc0 hc2 hlt (by omega)
    refine ⟨b₃, hmerge, hfile, ?_⟩
    rw [hcache3]
    exact congrArg some (by simp [hcount])

/-- A file of three pages, none of them in its cache. -/
def anonFile : VmFile := { size := 0x3000, off := 0, pgSize := pageSize, vnode := 0, pgcache := 1 }

def anonBacking : Backing :=
  { tables := ⟨fun _ => 0, 0, id, 0⟩, tablePages := fun _ => [], store := ⟨fun _ => none, 1, [], []⟩
    file := fun p => if p = 1 then some anonFile else none
    cache := fun p => if p = 1 then some ⟨0, pageSize, fun _ => 0, 1⟩ else none
    brk := 2 }

/-- `alloc_pages_size` with one frame that is free. -/
def oneFrame (count size : Nat) (st : Pages.Store) : Except Fault (Nat × Pages.Store) :=
  (Prod.swap <$> Pages.allocPageStructs st 1 0x5000 count size).mapError ofPages

/-- Between the split and the merge, the second part is asked for its first page, which is new. -/
theorem anonFile_split : ∃ new b₁ f₂ page b₂ b₃, vmFileSplit anonBacking 1 0x1000 = .ok (new, b₁) ∧
    b₁.file new = some f₂ ∧
    vmFileGetpage (anonGetpageMissing oneFrame) f₂ 0 b₁ = .ok (page, b₂) ∧ page ≠ 0 ∧
    vmFileMerge b₂ 1 new = .ok b₃ ∧ b₃.file 1 = some anonFile := by
  obtain ⟨new, b₁, f₁, f₂, hrun, -, hf₂, -, hsize, -, hsame, -, -, hmerge⟩ :=
    vmFileSplit_pages (b := anonBacking) (k := 0x1000)
      (show 1 ≠ 0 by decide) rfl rfl (by decide) rfl
      (by decide) (by decide) (by decide) (by decide) oneFrame
  have hget : (vmFileSplit anonBacking 1 0x1000).toOption.all (fun r =>
      (vmFileGetpage (anonGetpageMissing oneFrame) anonFile 0x1000 r.2).toOption.any (·.1 ≠ 0)) =
        true := by
    rfl
  rw [hrun] at hget
  obtain ⟨⟨page, b₂⟩, hpage, h0⟩ := exists_ok_of_any hget
  have hask : vmFileGetpage (anonGetpageMissing oneFrame) f₂ 0 b₁ = .ok (page, b₂) := by
    rw [hsame 0 (by rw [hsize]; decide)]
    exact hpage
  obtain ⟨b₃, hrun₃, hfile, -⟩ := hmerge b₂ (.next (false, 0) (.start rfl) ⟨page, hask⟩)
  exact ⟨new, b₁, f₂, page, b₂, b₃, hrun, hf₂, hask, by simpa using h0, hrun₃, hfile⟩

end Osdev.Vm
