import Osdev.Bitmap.Spec
import Osdev.Vfs.ReadBack
import Osdev.Vfs.SameTree

/-!
# Opening a file that cannot be opened

`fs_proc_open` takes a descriptor before it does anything else, and gives it back when it fails. If
the caller asks for a descriptor that is in use, it takes none, but it gives that descriptor back
all the same. No other failure has an effect: a file is never created by a call that returns.
-/

namespace Osdev.Vfs

open Osdev.Lib

variable {u : Unit} {tab : Ftable} {f : (Nat → Bool) → Nat → Bool}

-- a function of many steps is a long search
set_option synthInstance.maxSize 1000

/-! ## Locks of vnodes -/

/-- The thread has no lock of a vnode but those it had at the start of the call. -/
def VnFree (s : Sys) : Prop := ∀ v, s.held (.vn v) = s.floor (.vn v)

/-- Locks of vnodes that are taken are given back. -/
def VnBalanced (s s' : Sys) : Prop := VnFree s → VnFree s'

section VnLocks

variable {α : Type} {p : Nat}

instance : Std.Refl VnBalanced := ⟨fun _ h => h⟩
instance : Trans VnBalanced VnBalanced VnBalanced := ⟨fun h h' hs => h' (h hs)⟩

instance {m : FsM α} : Keeps VnBalanced (onFs m) where
  keeps s a s' h := by
    obtain ⟨fs, -, rfl⟩ := onFs_eq_ok h
    exact fun hs => hs

instance : Keeps VnBalanced (acquire (.ve p)) where
  keeps s a s' h hs := by
    cases h
    intro v
    have hne : LockId.vn v ≠ .ve p := LockId.noConfusion
    simp only [if_neg hne]
    exact hs v

instance : Keeps VnBalanced (give (.ve p)) where
  keeps s a s' h hs := by
    unfold give at h
    split at h
    · cases h
    · cases h
      intro v
      have hne : LockId.vn v ≠ .ve p := LockId.noConfusion
      simp only [if_neg hne]
      exact hs v

/-- A lock that was not taken is not given back. -/
theorem vnUnlock_free {s s' : Sys} (hs : VnFree s) : vnUnlock p s ≠ .ok (u, s') := by
  intro h
  obtain ⟨-, n, -, h⟩ := onFs_deref_bind_eq_ok h
  unfold give at h
  simp [if_pos (hs p).le] at h

instance : Keeps VnBalanced (loadVnode p) where
  keeps s u s' h hs := by
    obtain ⟨-, e, -, h⟩ := onFs_deref_bind_eq_ok h
    obtain ⟨-, n, -, h⟩ := onFs_deref_bind_eq_ok h
    split at h
    · cases h
      exact hs
    obtain ⟨b, s₁, hlock, h⟩ := run_bind_ok h
    obtain ⟨_, fs, -, h⟩ := onFs_bind_eq_ok h
    obtain ⟨-, m, -, hlock⟩ := onFs_deref_bind_eq_ok hlock
    split at hlock
    next =>
      -- a dead vnode is not locked, so that it cannot be unlocked
      cases hlock
      exact absurd h (vnUnlock_free hs)
    next =>
      obtain ⟨_, s3, hacquire, hlock⟩ := run_bind_ok hlock
      cases hacquire
      cases hlock
      obtain ⟨-, k, -, h⟩ := onFs_deref_bind_eq_ok h
      unfold give at h
      split at h
      · cases h
      · cases h
        intro v
        by_cases hv : LockId.vn v = .vn e.vn
        · simp only [if_pos hv]
          exact (Nat.add_sub_cancel _ _).trans (hs v)
        · simp only [if_neg hv]
          exact hs v

instance : Steps VnBalanced where
  housekeeping _ := inferInstance
  lock _ := by unfold veLock; infer_instance
  unlock _ := by unfold veUnlock; infer_instance
  load _ := inferInstance

instance : Walks VnBalanced where
  lookup _ _ _ := inferInstance

end VnLocks

/-- A file is never created: the vnode of its directory is not locked when it is to be unlocked. -/
theorem openCreate_never {a : OpenArgs} {dve mode : Nat} {name : Str} {sb : Sbuf} {s s' : Sys}
    {r : Except Errno Int} (hs : VnFree s) : openCreate a dve name mode sb s ≠ .ok (r, s') := by
  intro h
  obtain ⟨d, s₁, hd, h⟩ := run_bind_ok h
  obtain ⟨r1, s2, hcreate, h⟩ := run_bind_ok h
  obtain ⟨_, s3, hunlock, -⟩ := run_bind_ok h
  have hs1 : VnBalanced s s₁ := Keeps.keeps _ _ _ hd
  have hs2 : VnBalanced s₁ s2 := Keeps.keeps _ _ _ hcreate
  exact vnUnlock_free (hs2 (hs1 hs)) hunlock

/-! ## Reading -/

/-- Files, tables of descriptors and the tree are as before. -/
structure Reads (s s' : Fs) : Prop where
  untouched : Untouched s s'
  tree : SameTree s s'

instance : Std.Refl Reads := ⟨fun _ => ⟨Std.Refl.refl _, Std.Refl.refl _⟩⟩

theorem Reads.trans {s s₁ s' : Fs} (h : Reads s s₁) (h' : Reads s₁ s') : Reads s s' :=
  ⟨Trans.trans h.untouched h'.untouched, h.tree.trans h'.tree⟩

instance : Trans Reads Reads Reads := ⟨Reads.trans⟩

instance : Resolves Reads where
  still _ _ h := ⟨h.untouched, h.sameTree⟩
  lookup _ _ _ := ⟨fun _ _ _ h => ⟨Keeps.keeps _ _ _ h, Keeps.keeps _ _ _ h⟩⟩

/-- If the program returns an error, it has given back the descriptor, and otherwise only read. -/
def Undoes (a : OpenArgs) (m : SysM (Except Errno Int)) : Prop :=
  ∀ s e s', VnFree s → m s = .ok (.error e, s') → ∃ s₁ s₂, Reads s.fs s₁ ∧
    ftableFreeFd a.files a.fd s₁ = .ok ((), s₂) ∧ Reads s₂ s'.fs

section Undoes

variable {α : Type} {a : OpenArgs} {ve vn : Nat} {path : Str}

theorem Undoes.after {m : SysM α} {k : α → SysM (Except Errno Int)} [hm : Keeps (OnFs Reads) m]
    [hfree : Keeps VnBalanced m] (hk : ∀ x, Undoes a (k x)) : Undoes a (m >>= k) := by
  intro s e s' hs h
  obtain ⟨x, s₁, hrun, h⟩ := run_bind_ok h
  obtain ⟨s2, s3, hreads, hundo, hend⟩ := hk x s₁ e s' (hfree.keeps _ _ _ hrun hs) h
  exact ⟨s2, s3, Reads.trans (hm.keeps _ _ _ hrun) hreads, hundo, hend⟩

/-- A program that does not return an error. -/
theorem Undoes.of_ok {m : SysM (Except Errno Int)} (h : ∀ s e s', m s ≠ .ok (.error e, s')) :
    Undoes a m :=
  fun s e s' _ hrun => absurd hrun (h s e s')

theorem openRet_undoes (res : Except Errno Int) : Undoes a (openRet a ve res) := by
  intro s e s' _ h
  obtain rfl := openRet_result h
  obtain ⟨_, fs, hundo, h⟩ := onFs_bind_eq_ok h
  have hrest : OnFs Reads { s with fs } s' := by
    have hkeeps : Keeps (OnFs Reads) (do
        onFs (veRelease ve)
        onFs (veRelease a.atVe)
        pure (.error e : Except Errno Int)) := inferInstance
    exact hkeeps.keeps _ _ _ h
  exact ⟨s.fs, fs, Std.Refl.refl _, hundo, hrest⟩

theorem openRetUnlock_undoes (res : Except Errno Int) : Undoes a (openRetUnlock a ve res) :=
  Undoes.after fun _ => openRet_undoes res

theorem openDone_undoes : Undoes a (openDone a ve vn path) := by
  refine Undoes.of_ok fun s e s' h => ?_
  obtain ⟨_, _, -, h⟩ := run_bind_ok h
  obtain ⟨_, _, -, h⟩ := run_bind_ok h
  obtain ⟨_, _, -, h⟩ := run_bind_ok h
  obtain ⟨_, _, -, h⟩ := run_bind_ok h
  obtain ⟨_, _, -, h⟩ := run_bind_ok h
  obtain ⟨_, _, -, h⟩ := run_bind_ok h
  cases openRetUnlock_result h

theorem openDevice_undoes {n : Vnode} : Undoes a (openDevice a ve vn n path) := by
  unfold openDevice
  split
  · exact openRetUnlock_undoes _
  · refine Undoes.after fun d => ?_
    cases d.open_ with
    | none => exact openDone_undoes
    | some dOpen =>
      dsimp only
      cases dOpen a.flags with
      | error e => exact openRetUnlock_undoes _
      | ok _ => exact openDone_undoes

theorem openVe_undoes : Undoes a (openVe a ve path) := by
  refine Undoes.after fun e => ?_
  split
  · exact openRetUnlock_undoes _
  · refine Undoes.after fun n => ?_
    split
    · exact openDevice_undoes
    · refine Undoes.after fun r => ?_
      cases r with
      | error err => exact openRetUnlock_undoes _
      | ok _ => exact openDone_undoes

theorem openPath_undoes {fuel mode : Nat} : Undoes a (openPath fuel a path mode) := by
  refine Undoes.after fun out => ?_
  cases out.res with
  | ok _ => exact openVe_undoes
  | error e =>
    dsimp only
    split
    · exact fun s e s' hs h => absurd h (openCreate_never hs)
    · exact openRet_undoes _

end Undoes

/-! ## Descriptors -/

/-- The descriptors that are taken, and their files. -/
def Ftable.view (t : Ftable) : (Nat → Nat) × Nat × (Nat → Bool) := (t.tree, t.count, t.bitmap.bit)

/-- The descriptor of a process is taken. -/
def Taken (s : Fs) (proc : Nat) (fd : Int) : Prop :=
  0 ≤ fd ∧ ∃ pr t, s.proc proc = some pr ∧ s.ftable pr.files = some t ∧ t.bitmap.bit fd.toNat = true

/-- The descriptors that are taken, the files they stand for, and the tree are as before. -/
structure Unchanged (s s' : Fs) : Prop where
  file : s'.file = s.file
  ftable : ∀ t, (s'.ftable t).map Ftable.view = (s.ftable t).map Ftable.view
  tree : SameTree s s'

section Bits

variable {b b' : Bmp.Bitmap} {k : Nat}

/-- Either nothing is free, or a free bit is taken. -/
theorem bitmapGetSetFree_cases (b : Bmp.Bitmap) :
    Bmp.bitmapGetSetFree b = (-1, b) ∨ ∃ (k : Nat) (b' : Bmp.Bitmap),
      Bmp.bitmapGetSetFree b = ((k : Int), b') ∧ b.bit k = false ∧
        ∀ j, b'.bit j = (b.bit j || decide (j = k)) := by
  unfold Bmp.bitmapGetSetFree
  split
  · exact .inl rfl
  · obtain ⟨hr, hb, -⟩ | ⟨k, hr, -, -, hfree, -, hmarks⟩ :=
      Bmp.getSetFreeLoop_spec
    · exact .inl (Prod.ext hr hb)
    · refine .inr ⟨k, _, Prod.ext hr rfl, hfree.2 0 Nat.one_pos, fun j => ?_⟩
      rw [hmarks.bit j]
      congr 1
      exact decide_eq_decide.mpr (by omega)

end Bits

section Tables

variable {s s₁ s' : Fs} {files : Nat} {fd fd' : Int} {r : Except Errno Unit}

/-- How the tables differ while a call has a descriptor: its table has these bits. -/
structure Marked (s s' : Fs) (files : Nat) (bit : (Nat → Bool) → Nat → Bool) : Prop where
  file : s'.file = s.file
  tree : SameTree s s'
  others : ∀ t, t ≠ files → s'.ftable t = s.ftable t
  table : ∃ tab tab', s.ftable files = some tab ∧ s'.ftable files = some tab' ∧
    tab'.tree = tab.tree ∧
    tab'.count = tab.count ∧ tab'.bitmap.bit = bit tab.bitmap.bit

theorem Marked.refl (h : s.ftable files = some tab) : Marked s s files id :=
  ⟨rfl, Std.Refl.refl _, fun _ _ => rfl, tab, tab, h, h, rfl, rfl, rfl⟩

theorem Marked.trans {g : (Nat → Bool) → Nat → Bool} (h : Marked s s₁ files f)
    (h' : Marked s₁ s' files g) : Marked s s' files fun b => g (f b) := by
  obtain ⟨tab, tab1, ht, ht1, htree, hcount, hbit⟩ := h.table
  obtain ⟨tab₁', tab', ht₁', ht', htree', hcount', hbit'⟩ := h'.table
  cases ht1.symm.trans ht₁'
  refine ⟨h'.file.trans h.file, h.tree.trans h'.tree,
    fun t hne => (h'.others t hne).trans (h.others t hne),
    tab, tab', ht, ht', htree'.trans htree, hcount'.trans hcount, ?_⟩
  rw [hbit', hbit]

theorem Marked.reads (h : Marked s s₁ files f) (h' : Reads s₁ s') :
    Marked s s' files f := by
  have hsame : s'.ftable = s₁.ftable := h'.untouched.ftable
  refine ⟨h'.untouched.file.trans h.file, h.tree.trans h'.tree, fun t hne => ?_, ?_⟩
  · rw [hsame]
    exact h.others t hne
  · rw [hsame]
    exact h.table

theorem Reads.marked (h : Reads s s₁) (h' : Marked s₁ s' files f) :
    Marked s s' files f := by
  have hsame : s₁.ftable = s.ftable := h.untouched.ftable
  refine ⟨h'.file.trans h.untouched.file, h.tree.trans h'.tree, fun t hne => ?_, ?_⟩
  · rw [← hsame]
    exact h'.others t hne
  · rw [← hsame]
    exact h'.table

/-- Another bitmap in the table. -/
theorem setFtable_marked {bitmap : Bmp.Bitmap} (ht : s.ftable files = some tab)
    (hbit : bitmap.bit = f tab.bitmap.bit)
    (h : setFtable files { tab with bitmap } s = .ok (u, s')) : Marked s s' files f := by
  cases h
  exact ⟨rfl, sameTree_of_eq rfl rfl rfl rfl, fun t hne => store_ne hne _, tab, _, ht,
    store_self _ _ _,
    rfl, rfl, hbit⟩

theorem ofBitmap_eq_ok {α : Type} {x : Except Bmp.Panic α} {a : α}
    (h : ofBitmap x s = .ok (a, s')) :
    s = s' ∧ x = .ok a := by
  cases x with
  | error _ => cases h
  | ok _ =>
    cases h
    exact ⟨rfl, rfl⟩

theorem ftableAllocFd_marked (h : ftableAllocFd files s = .ok (fd', s')) :
    (fd' = -1 ∧ Marked s s' files id) ∨
      (0 ≤ fd' ∧ (∃ tab, s.ftable files = some tab ∧ tab.bitmap.bit fd'.toNat = false) ∧
        Marked s s' files fun bit j => bit j || decide (j = fd'.toNat)) := by
  obtain ⟨-, tab, htab, h⟩ := deref_bind_eq_ok h
  obtain hnone | ⟨k, bitmap, hsome, hclear, hbits⟩ := bitmapGetSetFree_cases tab.bitmap
  · rw [hnone] at h
    obtain ⟨_, s₁, hset, h⟩ := run_bind_ok h
    cases h
    exact .inl ⟨rfl, setFtable_marked htab rfl hset⟩
  · rw [hsome] at h
    obtain ⟨_, s₁, hset, h⟩ := run_bind_ok h
    cases h
    exact .inr ⟨Int.natCast_nonneg k, ⟨tab, htab, hclear⟩,
      setFtable_marked htab (funext hbits) hset⟩

theorem ftableClaimFd_marked (hfd : 0 ≤ fd) (h : ftableClaimFd files fd s = .ok (fd', s')) :
    ((∃ tab, s.ftable files = some tab ∧ tab.bitmap.bit fd.toNat = true) ∧ Marked s s' files id) ∨
      ((∃ tab, s.ftable files = some tab ∧ tab.bitmap.bit fd.toNat = false) ∧
        Marked s s' files fun bit j => bit j || decide (j = fd.toNat)) := by
  unfold ftableClaimFd at h
  rw [if_neg (by omega)] at h
  obtain ⟨_, s₁, hassert, h⟩ := run_bind_ok h
  obtain ⟨rfl, -⟩ := kassert_eq_ok hassert
  obtain ⟨-, tab, htab, h⟩ := deref_bind_eq_ok h
  obtain ⟨taken, s₁, hget, h⟩ := run_bind_ok h
  obtain ⟨rfl, hbit⟩ := ofBitmap_eq_ok hget
  have hbit := Bmp.bitmapGet_eq hbit
  cases taken with
  | true =>
    cases h
    exact .inl ⟨⟨tab, htab, hbit.symm⟩, .refl htab⟩
  | false =>
    obtain ⟨⟨_, bitmap⟩, s₁, hmark, h⟩ := run_bind_ok h
    obtain ⟨rfl, hmarked⟩ := ofBitmap_eq_ok hmark
    obtain ⟨_, s₁, hset, h⟩ := run_bind_ok h
    cases h
    exact .inr ⟨⟨tab, htab, hbit.symm⟩,
      setFtable_marked htab (funext (Bmp.bitmapSet_bit hmarked)) hset⟩

/-- Giving a descriptor back. -/
theorem ftableFreeFd_marked (ht : s.ftable files = some tab)
    (h : ftableFreeFd files fd s = .ok (u, s')) :
    Marked s s' files fun bit j => bit j && decide (¬ (0 ≤ fd ∧ j = fd.toNat)) := by
  unfold ftableFreeFd at h
  split at h
  next hfd =>
    cases h
    have hid : (fun (bit : Nat → Bool) j => bit j && decide (¬ (0 ≤ fd ∧ j = fd.toNat))) = id := by
      funext bit j
      rw [decide_eq_true (by omega), Bool.and_true]
      rfl
    rw [hid]
    exact .refl ht
  next hfd =>
    obtain ⟨_, s₁, hassert, h⟩ := run_bind_ok h
    obtain ⟨rfl, -⟩ := kassert_eq_ok hassert
    obtain ⟨-, tab, htab, h⟩ := deref_bind_eq_ok h
    obtain ⟨⟨_, bitmap⟩, s₁, hclear, h⟩ := run_bind_ok h
    obtain ⟨rfl, hcleared⟩ := ofBitmap_eq_ok hclear
    refine setFtable_marked htab (funext fun j => ?_) h
    rw [Bmp.bitmapClear_bit hcleared j]
    congr 1
    exact decide_eq_decide.mpr (by omega)

/-- A call that had a descriptor leaves the state unchanged if the bits of its table are as
before. -/
theorem Marked.unchanged_iff (h : Marked s s' files f) (ht : s.ftable files = some tab) :
    Unchanged s s' ↔ f tab.bitmap.bit = tab.bitmap.bit := by
  obtain ⟨tab1, tab', ht1, ht', htree, hcount, hbit⟩ := h.table
  cases ht.symm.trans ht1
  constructor
  · intro hsame
    have hview := hsame.ftable files
    rw [ht, ht'] at hview
    have hbits : tab'.bitmap.bit = tab.bitmap.bit := congrArg (·.2.2) (Option.some.inj hview)
    exact hbit.symm.trans hbits
  · intro hbits
    refine ⟨h.file, fun t => ?_, h.tree⟩
    obtain rfl | hne := eq_or_ne t files
    · rw [ht, ht']
      simp only [Option.map_some, Ftable.view, htree, hcount, hbit, hbits]
    · rw [h.others t hne]

end Tables

/-! ## Failed calls -/

section Failed

variable {fuel proc mode files : Nat} {fd fd' : Int} {path : Str} {flags : Flags} {e : Errno}

/-- What the first part of a call may do to the descriptors. -/
inductive Takes (tab : Ftable) (fd fd' : Int) : ((Nat → Bool) → Nat → Bool) → Prop
  | full (hfd : fd < 0) (hfd' : fd' < 0) : Takes tab fd fd' id
  | busy (hfd : 0 ≤ fd) (heq : fd' = fd) (hbit : tab.bitmap.bit fd.toNat = true) :
    Takes tab fd fd' id
  | free (hfd' : 0 ≤ fd') (heq : 0 ≤ fd → fd' = fd) (hbit : tab.bitmap.bit fd'.toNat = false) :
    Takes tab fd fd' fun bit j => bit j || decide (j = fd'.toNat)

theorem openFd_takes {s s' : Fs} {r : Except Errno Unit}
    (h : openFd files fd s = .ok ((r, fd'), s')) :
    ∃ tab f, s.ftable files = some tab ∧ Takes tab fd fd' f ∧ Marked s s' files f := by
  unfold openFd at h
  split at h
  next hfd =>
    obtain ⟨k, s₁, halloc, h⟩ := run_bind_ok h
    cases h
    obtain ⟨rfl, hmarked⟩ | ⟨hk, ⟨tab, htab, hbit⟩, hmarked⟩ := ftableAllocFd_marked halloc
    · obtain ⟨tab, _, htab, -⟩ := hmarked.table
      exact ⟨tab, id, htab, .full hfd (by decide), hmarked⟩
    · exact ⟨tab, _, htab, .free hk (fun h => absurd h (by omega)) hbit, hmarked⟩
  next hfd =>
    obtain ⟨k, s₁, hclaim, h⟩ := run_bind_ok h
    cases h
    have hfd : 0 ≤ fd := by omega
    obtain ⟨⟨tab, htab, hbit⟩, hmarked⟩ | ⟨⟨tab, htab, hbit⟩, hmarked⟩ :=
      ftableClaimFd_marked hfd hclaim
    · exact ⟨tab, id, htab, .busy hfd rfl hbit, hmarked⟩
    · exact ⟨tab, _, htab, .free hfd (fun _ => rfl) hbit, hmarked⟩

/-- Giving the descriptor back restores the table, unless the caller's descriptor was taken
before. -/
theorem Takes.restored_iff (h : Takes tab fd fd' f) :
    (fun j => f tab.bitmap.bit j && decide (¬ (0 ≤ fd' ∧ j = fd'.toNat))) = tab.bitmap.bit ↔
      ¬ (0 ≤ fd ∧ tab.bitmap.bit fd.toNat = true) := by
  cases h with
  | full hfd hfd' =>
    refine iff_of_true (funext fun j => ?_) (by omega)
    rw [decide_eq_true (by omega), Bool.and_true]
    rfl
  | busy hfd heq hbit =>
    subst heq
    refine iff_of_false (fun hsame => ?_) (not_not_intro ⟨hfd, hbit⟩)
    have hclear := congrFun hsame fd'.toNat
    rw [hbit, decide_eq_false (not_not_intro ⟨hfd, rfl⟩), Bool.and_false] at hclear
    cases hclear
  | free hfd' heq hbit =>
    refine iff_of_true (funext fun j => ?_) fun ⟨hfd, htaken⟩ => ?_
    · obtain rfl | hj := eq_or_ne j fd'.toNat
      · rw [decide_eq_false (not_not_intro ⟨hfd', rfl⟩), Bool.and_false, hbit]
      · have hother : ¬ (0 ≤ fd' ∧ j = fd'.toNat) := fun h => hj h.2
        rw [decide_eq_true hother, Bool.and_true]
        exact (congrArg _ (decide_eq_false hj)).trans (Bool.or_false _)
    · simp [heq hfd, htaken] at hbit

/-- What a failed call does: it takes a descriptor, or does not, and gives it back. -/
theorem fsProcOpen_fails {s s' : Sys} (hs : VnFree s)
    (h : fsProcOpen fuel proc fd path flags mode s = .ok (.error e, s')) :
    ∃ pr tab fd' f, s.fs.proc proc = some pr ∧ s.fs.ftable pr.files = some tab ∧
      Takes tab fd fd' f ∧ Marked s.fs s'.fs pr.files fun bit j =>
        f bit j && decide (¬ (0 ≤ fd' ∧ j = fd'.toNat)) := by
  obtain ⟨-, pr, hpr, h⟩ := onFs_deref_bind_eq_ok h
  obtain ⟨_, fs1, hgetref, h⟩ := onFs_bind_eq_ok h
  have hstart : Reads s.fs fs1 := Keeps.keeps _ _ _ hgetref
  obtain ⟨⟨r, fd'⟩, fs2, hopenFd, h⟩ := onFs_bind_eq_ok h
  obtain ⟨tab, f, htab, htakes, hmarked⟩ := openFd_takes hopenFd
  have hs2 : VnFree { s with fs := fs2 } := fun v => hs v
  obtain ⟨fs3, fs4, hreads, hfree, hend⟩ : ∃ fs3 fs4, Reads fs2 fs3 ∧
      ftableFreeFd pr.files fd' fs3 = .ok ((), fs4) ∧ Reads fs4 s'.fs := by
    cases r with
    | error _ => exact openRet_undoes _ _ e s' hs2 h
    | ok _ =>
      dsimp only at h
      split at h
      · exact openRet_undoes _ _ e s' hs2 h
      · exact openPath_undoes _ e s' hs2 h
  have hmarked : Marked fs1 fs3 pr.files f := hmarked.reads hreads
  obtain ⟨_, tab3, -, htab3, -⟩ := hmarked.table
  have hsame : fs1.ftable = s.fs.ftable := hstart.untouched.ftable
  refine ⟨pr, tab, fd', f, hpr, hsame ▸ htab, htakes, ?_⟩
  exact hstart.marked ((hmarked.trans (ftableFreeFd_marked htab3 hfree)).reads hend)

/-- **A failed call to open leaves descriptors and tree unchanged unless it asked for a descriptor
that is taken.** That descriptor is then free although its file is still open. -/
theorem fsProcOpen_unchanged_iff {s s' : Sys}
    (h : fsProcOpen fuel proc fd path flags mode s.enter = .ok (.error e, s')) :
    Unchanged s.fs s'.fs ↔ ¬ Taken s.fs proc fd := by
  obtain ⟨pr, tab, fd', f, hpr, htab, htakes, hmarked⟩ := fsProcOpen_fails (fun _ => rfl) h
  refine (Marked.unchanged_iff hmarked htab).trans (htakes.restored_iff.trans (not_congr ?_))
  constructor
  · intro ⟨hfd, hbit⟩
    exact ⟨hfd, pr, tab, hpr, htab, hbit⟩
  · rintro ⟨hfd, pr', tab', hpr', htab', hbit⟩
    cases hpr.symm.trans hpr'
    cases htab.symm.trans htab'
    exact ⟨hfd, hbit⟩

end Failed

theorem fileSys_open_eval : (fsProcOpen 2 2 (-1) [slash, 0x62] oRdonly 0 fileSys.enter).toOption.any
      (fun p => errorOf p.1 == some .enoent) = true ∧
    (fsProcOpen 2 2 0 [slash, 0x61] oRdwr 0 fileSys.enter).toOption.any
      (fun p => errorOf p.1 == some .ebadf && (p.2.fs.ftable 1).any fun t => !t.bitmap.bit 0) =
        true ∧
    (fileSys.fs.ftable 1).any (fun t => t.bitmap.bit 0) = true := by
  decide_cbv

/-- The file `/b` is not there: the call fails, and nothing has changed. -/
theorem fileSys_open_missing :
    ∃ s', fsProcOpen 2 2 (-1) [slash, 0x62] oRdonly 0 fileSys.enter = .ok (.error .enoent, s') ∧
      (Unchanged fileSys.fs s'.fs ↔ ¬ Taken fileSys.fs 2 (-1)) := by
  obtain ⟨⟨r, s'⟩, hrun, hr⟩ := exists_ok_of_any fileSys_open_eval.1
  obtain rfl : r = .error .enoent := eq_error_of_errorOf (eq_of_beq hr)
  exact ⟨s', hrun, fsProcOpen_unchanged_iff hrun⟩

/-- **Descriptor 0 is open: a call that asks for it fails, and it is then free.** -/
theorem fileSys_open_frees :
    ∃ s', fsProcOpen 2 2 0 [slash, 0x61] oRdwr 0 fileSys.enter = .ok (.error .ebadf, s') ∧
      ¬ Unchanged fileSys.fs s'.fs := by
  obtain ⟨-, hany, hopen⟩ := fileSys_open_eval
  obtain ⟨⟨r, s'⟩, hrun, hr⟩ := exists_ok_of_any hany
  obtain ⟨hr, hfree⟩ := Bool.and_eq_true_iff.mp hr
  obtain rfl : r = .error .ebadf := eq_error_of_errorOf (eq_of_beq hr)
  obtain ⟨tab, htab, hset⟩ := (Option.any_eq_true _ _).mp hopen
  obtain ⟨tab', htab', hclear⟩ := (Option.any_eq_true _ _).mp hfree
  refine ⟨s', hrun, fun hsame => ?_⟩
  have hview := hsame.ftable 1
  rw [htab, htab'] at hview
  have hbits : tab'.bitmap.bit = tab.bitmap.bit := congrArg (·.2.2) (Option.some.inj hview)
  simp [hbits, hset] at hclear

end Osdev.Vfs
