import Osdev.Vfs.Frame

/-!
# What the calls do to descriptors

Files keep the flags that they were opened with. Only `fs_proc_open` and `fs_dup` add a descriptor
to a table, and each of them adds one for a new file.
-/

namespace Osdev.Vfs

open Osdev.Lib

variable {α : Type} {s s' : Fs} {p mode : Nat} {res : Except Errno Int} {e : Errno}

set_option synthInstance.maxSize 1000

/-! ## What happens to descriptors -/

/-- Files keep the flags that they were opened with, and tables get no new descriptor. -/
structure FileFrame (s s' : Fs) : Prop where
  brk : s.brk ≤ s'.brk
  file : ∀ p f', p < s.brk → s'.file p = some f' → ∃ f, s.file p = some f ∧ f'.flags = f.flags
  table : ∀ t tab', s'.ftable t = some tab' → ∃ tab, s.ftable t = some tab ∧
    ∀ k, tab'.tree k = tab.tree k ∨ tab'.tree k = 0
  proc : s'.proc = s.proc
  curproc : s'.curproc = s.curproc

theorem Untouched.fileFrame (h : Untouched s s') : FileFrame s s' where
  brk := h.brk
  file _ f' _ hf := ⟨f', h.file ▸ hf, rfl⟩
  table _ tab' ht := ⟨tab', h.ftable ▸ ht, fun _ => .inl rfl⟩
  proc := h.proc
  curproc := h.curproc

theorem FileFrame.trans {s1 : Fs} (h : FileFrame s s1) (h' : FileFrame s1 s') :
    FileFrame s s' where
  brk := h.brk.trans h'.brk
  file p f' hp hf := by
    obtain ⟨f1, hf1, hflags1⟩ := h'.file p f' (hp.trans_le h.brk) hf
    obtain ⟨f, hf, hflags⟩ := h.file p f1 hp hf1
    exact ⟨f, hf, hflags1.trans hflags⟩
  table t tab' ht := by
    obtain ⟨tab1, ht1, hk1⟩ := h'.table t tab' ht
    obtain ⟨tab, ht, hk⟩ := h.table t tab1 ht1
    refine ⟨tab, ht, fun k => ?_⟩
    obtain h1 | h1 := hk1 k
    · rw [h1]
      exact hk k
    · exact .inr h1
  proc := h'.proc.trans h.proc
  curproc := h'.curproc.trans h.curproc

instance : Std.Refl FileFrame := ⟨fun s => Untouched.fileFrame (Std.Refl.refl s)⟩

instance : Trans FileFrame FileFrame FileFrame := ⟨FileFrame.trans⟩

instance (priority := low) {α : Type} {m : FsM α} [hm : Keeps Untouched m] : Keeps FileFrame m :=
  hm.mono fun _ _ => Untouched.fileFrame

instance (priority := low) {α : Type} {m : SysM α} [hm : Keeps (OnFs Untouched) m] :
    Keeps (OnFs FileFrame) m :=
  hm.mono fun _ _ => Untouched.fileFrame

section Store

variable {p : Nat} {f f' : File} {t t' : Ftable} {P : Fs → Prop}

theorem setFile_fileFrame (hflags : f'.flags = f.flags) :
    KeepsFrom (fun s => P s ∧ s.file p = some f) FileFrame (setFile p f') := by
  rintro s a s' ⟨-, hs⟩ h
  cases h
  refine ⟨le_rfl, fun q g _ hg => ?_, fun _ tab ht => ⟨tab, ht, fun _ => .inl rfl⟩, rfl, rfl⟩
  obtain ⟨rfl, rfl⟩ | ⟨-, hg⟩ := store_eq_some hg
  · exact ⟨f, hs, hflags⟩
  · exact ⟨g, hg, rfl⟩

theorem setFtable_fileFrame (htree : ∀ k, t'.tree k = t.tree k ∨ t'.tree k = 0) :
    KeepsFrom (fun s => P s ∧ s.ftable p = some t) FileFrame (setFtable p t') := by
  rintro s a s' ⟨-, hs⟩ h
  cases h
  exact ⟨le_rfl, fun _ g _ hg => ⟨g, hg, rfl⟩, store_related hs htree fun _ _ => .inl rfl, rfl, rfl⟩

instance : Keeps FileFrame (freeFile p) where
  keeps s a s' h := by
    cases h
    exact ⟨le_rfl, fun q g _ hg => ⟨g, (store_none hg).2, rfl⟩,
      fun _ tab ht => ⟨tab, ht, fun _ => .inl rfl⟩, rfl, rfl⟩

end Store

instance : Covers FileFrame := ⟨fun _ _ h => h.untouched.fileFrame⟩

instance : Handles FileFrame where
  setFile := setFile_fileFrame
  setFtable := setFtable_fileFrame
  setVn _ _ := Keeps.weaken
  freeFile _ := inferInstance

instance : Writes FileFrame := ⟨inferInstance, inferInstance⟩

/-! ## New descriptors -/

/-- As `FileFrame`, but the table `files` may have got the descriptor `fd` for a new file with these
flags. -/
structure Opens (files : Nat) (fd : Int) (flags : Flags) (s s' : Fs) : Prop where
  brk : s.brk ≤ s'.brk
  file : ∀ p f', p < s.brk → s'.file p = some f' → ∃ f, s.file p = some f ∧ f'.flags = f.flags
  table : ∀ t tab', s'.ftable t = some tab' → ∃ tab, s.ftable t = some tab ∧
    ∀ k, (¬ (t = files ∧ k = fdKey fd) ∧ tab'.tree k = tab.tree k) ∨ tab'.tree k = 0 ∨
      (t = files ∧ k = fdKey fd ∧ tab'.tree k < s'.brk ∧
        ∀ f, s'.file (tab'.tree k) = some f → f.flags = flags)
  proc : s'.proc = s.proc
  curproc : s'.curproc = s.curproc

section Open

variable {files : Nat} {fd : Int} {flags : Flags} {s₀ s s' : Fs}

theorem Opens.fileFrame (h : Opens files fd flags s₀ s) (h' : FileFrame s s') :
    Opens files fd flags s₀ s' where
  brk := h.brk.trans h'.brk
  file p f' hp hf := by
    obtain ⟨f1, hf1, hflags1⟩ := h'.file p f' (hp.trans_le h.brk) hf
    obtain ⟨f, hf, hflags⟩ := h.file p f1 hp hf1
    exact ⟨f, hf, hflags1.trans hflags⟩
  table t tab' ht := by
    obtain ⟨tab1, ht1, hk1⟩ := h'.table t tab' ht
    obtain ⟨tab, htab, hk⟩ := h.table t tab1 ht1
    refine ⟨tab, htab, fun k => ?_⟩
    obtain h1 | h1 := hk1 k
    · rw [h1]
      obtain h2 | h2 | ⟨h2, h3, h4, h5⟩ := hk k
      · exact .inl h2
      · exact .inr (.inl h2)
      · refine .inr (.inr ⟨h2, h3, h4.trans_le h'.brk, fun f hf => ?_⟩)
        obtain ⟨g, hg, hflags⟩ := h'.file _ f h4 hf
        exact hflags.trans (h5 g hg)
    · exact .inr (.inl h1)
  proc := h'.proc.trans h.proc
  curproc := h'.curproc.trans h.curproc

/-- After `f_alloc`. -/
structure Fresh (fd : Int) (flags : Flags) (s₀ s : Fs) (p : Nat) : Prop where
  frame : FileFrame s₀ s
  fresh : s₀.brk ≤ p
  below : p < s.brk
  file : ∃ f, s.file p = some f ∧ f.fd = fd ∧ f.flags = flags

theorem fAlloc_fresh {vn : Nat} {path : Str} (h0 : FileFrame s₀ s)
    (h : fAlloc fd flags vn path s = .ok (p, s')) : Fresh fd flags s₀ s' p := by
  obtain ⟨-, n, -, h⟩ := deref_bind_eq_ok h
  obtain ⟨u, s2, href, h⟩ := run_bind_ok h
  have h2 := h0.trans (Keeps.keeps _ _ _ href)
  cases h
  refine ⟨⟨h2.brk.trans (Nat.le_succ _), fun q f' hq hf => ?_, h2.table, h2.proc, h2.curproc⟩,
    h2.brk, Nat.lt_succ_self _, _, store_self _ _ _, rfl, rfl⟩
  have hne : q ≠ s2.brk := fun heq => by
    have := h2.brk
    omega
  exact h2.file q f' hq ((store_ne hne _).symm.trans hf)

theorem ftableAddFile_opens {u : Unit} (h0 : Fresh fd flags s₀ s p)
    (h : ftableAddFile files p s = .ok (u, s')) : Opens files fd flags s₀ s' := by
  obtain ⟨f, hf, hfd, hflags⟩ := h0.file
  obtain ⟨-, g, hg, h⟩ := deref_bind_eq_ok h
  obtain rfl : g = f := Option.some.inj (hg.symm.trans hf)
  obtain ⟨u1, s2, hassert, h⟩ := run_bind_ok h
  obtain ⟨rfl, -⟩ := kassert_eq_ok hassert
  obtain ⟨-, t, ht, h⟩ := deref_bind_eq_ok h
  split at h
  · cases h
  · cases h
    refine ⟨h0.frame.brk, h0.frame.file, fun q tab' htab' => ?_, h0.frame.proc, h0.frame.curproc⟩
    obtain rfl | hq := eq_or_ne q files
    · cases (store_self _ _ _).symm.trans htab'
      obtain ⟨tab, htab, hk⟩ := h0.frame.table q t ht
      refine ⟨tab, htab, fun k => ?_⟩
      by_cases hkey : k = fdKey fd
      · subst hkey
        refine .inr (.inr ⟨rfl, rfl, ?_⟩)
        dsimp only
        rw [hfd, Function.update_self]
        exact ⟨h0.below, fun f' hf' => Option.some.inj (hf'.symm.trans hf) ▸ hflags⟩
      · dsimp only
        rw [hfd, Function.update_of_ne hkey]
        obtain h1 | h1 := hk k
        · exact .inl ⟨fun h => hkey h.2, h1⟩
        · exact .inr (.inl h1)
    · obtain ⟨tab, htab, hk⟩ := h0.frame.table q tab' ((store_ne hq _).symm.trans htab')
      refine ⟨tab, htab, fun k => ?_⟩
      obtain h1 | h1 := hk k
      · exact .inl ⟨fun h => hq h.1, h1⟩
      · exact .inr (.inl h1)

end Open

/-! ## `fs_proc_open` -/

section Open

variable {a : OpenArgs} {ve vn fuel : Nat} {rpath name path : Str} {s₀ s s' : Sys}
  {r : Except Errno Int}

/-- What a call to open leads to. -/
def OpenPost (a : OpenArgs) (s₀ : Sys) (r : Except Errno Int) (s : Sys) : Prop :=
  match r with
  | .error _ => OnFs FileFrame s₀ s
  | .ok fd => fd = a.fd ∧ Opens a.files a.fd a.flags s₀.fs s.fs

theorem openRet_result (h : openRet a ve res s = .ok (r, s')) : r = res := by
  obtain ⟨_, s1, _, h⟩ := run_bind_ok h
  obtain ⟨_, s2, _, h⟩ := run_bind_ok h
  obtain ⟨_, s3, _, h⟩ := run_bind_ok h
  cases h
  rfl

theorem openRetUnlock_result
    (h : openRetUnlock a ve res s = .ok (r, s')) : r = res := by
  obtain ⟨_, s1, _, h⟩ := run_bind_ok h
  exact openRet_result h

/-- The end of a call that fails. -/
theorem openRet_error :
    Ends (OnFs FileFrame s₀) (openRet a ve (.error e)) (OpenPost a s₀) := by
  refine fun s hs => ⟨fun r s' h => ?_, fun _ _ => trivial⟩
  obtain rfl := openRet_result h
  exact FileFrame.trans hs (Keeps.keeps (R := OnFs FileFrame) _ _ _ h)

theorem openRetUnlock_error :
    Ends (OnFs FileFrame s₀) (openRetUnlock a ve (.error e)) (OpenPost a s₀) := by
  refine fun s hs => ⟨fun r s' h => ?_, fun _ _ => trivial⟩
  obtain rfl := openRetUnlock_result h
  exact FileFrame.trans hs (Keeps.keeps (R := OnFs FileFrame) _ _ _ h)

/-- The end of a call that has added a file. -/
theorem openRetUnlock_ok :
    Ends (fun s => Opens a.files a.fd a.flags s₀.fs s.fs) (openRetUnlock a ve (.ok a.fd))
      (OpenPost a s₀) := by
  refine fun s hs => ⟨fun r s' h => ?_, fun _ _ => trivial⟩
  obtain rfl := openRetUnlock_result h
  exact ⟨rfl, hs.fileFrame (Keeps.keeps (R := OnFs FileFrame) _ _ _ h)⟩

theorem openDone_opens :
    Ends (OnFs FileFrame s₀) (openDone a ve vn rpath) (OpenPost a s₀) := by
  refine .after fun _ => .after fun n => .after fun _ => .after fun _ => ?_
  refine .bind (Q := fun p s => Fresh a.fd a.flags s₀.fs s.fs p) ?_ fun file => ?_
  · refine fun s hs => ⟨fun p s' h => ?_, fun _ _ => trivial⟩
    obtain ⟨fs, hrun, rfl⟩ := onFs_eq_ok h
    exact fAlloc_fresh hs hrun
  · refine .bind ?_ fun _ =>
      openRetUnlock_ok
    refine fun s hs => ⟨fun u s' h => ?_, fun _ _ => trivial⟩
    obtain ⟨fs, hrun, rfl⟩ := onFs_eq_ok h
    exact ftableAddFile_opens hs hrun

theorem openDevice_opens {n : Vnode} :
    Ends (OnFs FileFrame s₀) (openDevice a ve vn n rpath) (OpenPost a s₀) := by
  refine .ite (fun _ => openRetUnlock_error) fun _ => .after fun d => ?_
  split
  · exact openDone_opens
  · split
    · exact openRetUnlock_error
    · exact openDone_opens

theorem openVe_opens :
    Ends (OnFs FileFrame s₀) (openVe a ve rpath) (OpenPost a s₀) := by
  refine .after fun e => .ite (fun _ => openRetUnlock_error) fun _ => ?_
  refine .after fun n => .ite (fun _ => openDevice_opens) fun _ => .after fun r => ?_
  cases r with
  | error e => exact openRetUnlock_error
  | ok u => exact openDone_opens

theorem openCreate_opens {dve : Nat} {sb : Sbuf} :
    Ends (OnFs FileFrame s₀) (openCreate a dve name mode sb) (OpenPost a s₀) := by
  refine .after fun d => .after fun r => .after fun _ => .after fun _ => ?_
  cases r with
  | error e => exact openRetUnlock_error
  | ok ve => exact .after fun _ => openVe_opens

theorem openPath_opens :
    Ends (OnFs FileFrame s₀) (openPath fuel a path mode) (OpenPost a s₀) := by
  refine .after fun out => ?_
  split
  · exact openVe_opens
  · exact .ite (fun _ => openCreate_opens) fun _ => openRet_error

/-- One of the three access modes. -/
def ValidAccess (flags : Flags) : Prop :=
  accessMode flags = oRdonly ∨ accessMode flags = oWronly ∨ accessMode flags = oRdwr

/-- **What `fs_proc_open` does to descriptors.** -/
theorem fsProcOpen_opens {proc : Nat} {fd : Int} {flags : Flags} {pr : Proc}
    (hpr : s.fs.proc proc = some pr)
    (h : fsProcOpen fuel proc fd path flags mode s = .ok (r, s')) :
    match r with
    | .error _ => OnFs FileFrame s s'
    | .ok fd' => ValidAccess flags ∧ Opens pr.files fd' flags s.fs s'.fs := by
  obtain ⟨-, p, hp, h⟩ := onFs_deref_bind_eq_ok h
  obtain rfl : p = pr := Option.some.inj (hp.symm.trans hpr)
  obtain ⟨_, s2, hpwd, h⟩ := run_bind_ok h
  have h2 : OnFs FileFrame s s2 := Keeps.keeps _ _ _ hpwd
  obtain ⟨⟨rfd, fd1⟩, s3, hfd, h⟩ := run_bind_ok h
  have h3 : OnFs FileFrame s s3 := Trans.trans h2 (Keeps.keeps (R := OnFs FileFrame) _ _ _ hfd)
  cases rfd with
  | error e =>
    obtain rfl := openRet_result h
    exact FileFrame.trans h3 (Keeps.keeps (R := OnFs FileFrame) _ _ _ h)
  | ok u =>
    dsimp only at h
    split at h
    · obtain rfl := openRet_result h
      exact FileFrame.trans h3 (Keeps.keeps (R := OnFs FileFrame) _ _ _ h)
    next hacc =>
      have hpost := (openPath_opens s3 h3).1 _ _ h
      cases r with
      | error e => exact hpost
      | ok fd' =>
        obtain ⟨rfl, hopens⟩ := hpost
        refine ⟨?_, hopens⟩
        tauto

end Open

/-! ## `fs_dup` -/

section Dup

variable {file : Nat} {fd : Int} {s₀ s s' : Sys} {r : Except Errno Int}

theorem fileRetUnlock_result {b res : α} (h : fileRetUnlock file res s = .ok (b, s')) :
    b = res := by
  obtain ⟨_, s1, _, h⟩ := run_bind_ok h
  obtain ⟨_, s2, _, h⟩ := run_bind_ok h
  cases h
  rfl

/-- A new descriptor of the current process for a file with the flags of `file`. -/
def DupPost (file : Nat) (s₀ : Sys) (r : Except Errno Int) (s : Sys) : Prop :=
  match r with
  | .error _ => OnFs FileFrame s₀ s
  | .ok newfd => ∃ (pr : Proc) (f : File), s₀.fs.proc s₀.fs.curproc = some pr ∧
      (file < s₀.fs.brk → ∃ f₀, s₀.fs.file file = some f₀ ∧ f.flags = f₀.flags) ∧
      Opens pr.files newfd (f.flags &&& ~~~oCloexec) s₀.fs s.fs

theorem dupLocked_opens (h0 : OnFs FileFrame s₀ s) (h : dupLocked file s = .ok (r, s')) :
    DupPost file s₀ r s' := by
  obtain ⟨pr, s1, hpr, h⟩ := run_bind_ok h
  obtain ⟨rfl, -, hpr⟩ : s = s1 ∧ s.fs.curproc ≠ 0 ∧ s.fs.proc s.fs.curproc = some pr :=
    onFs_deref_eq_ok hpr
  rw [h0.proc] at hpr
  obtain ⟨newfd, s2, hfd, h⟩ := run_bind_ok h
  have h2 : OnFs FileFrame s₀ s2 := FileFrame.trans h0 (Keeps.keeps (R := OnFs FileFrame) _ _ _ hfd)
  split at h
  · obtain rfl := fileRetUnlock_result h
    exact FileFrame.trans h2 (Keeps.keeps (R := OnFs FileFrame) _ _ _ h)
  · obtain ⟨-, f, hf, h⟩ := onFs_deref_bind_eq_ok h
    obtain ⟨newfile, fs4, hrun4, h⟩ := onFs_bind_eq_ok h
    have hfresh := fAlloc_fresh h2 hrun4
    obtain ⟨_, fs5, hrun5, h⟩ := onFs_bind_eq_ok h
    have hopens := ftableAddFile_opens hfresh hrun5
    obtain rfl := fileRetUnlock_result h
    refine ⟨pr, f, h0.curproc ▸ hpr, fun hlt => h2.file _ f hlt hf, ?_⟩
    exact hopens.fileFrame (Keeps.keeps (R := OnFs FileFrame) _ _ _ h)

end Dup

/-! ## Calls with a descriptor -/

/-- The file with one more reference. -/
def File.used (f : File) : File := { f with refcount := f.refcount + 1 }

/-- The file at another offset. -/
def File.at (f : File) (o : Int) : File := { f with offset := o }

@[simp] theorem File.used_flags (f : File) : f.used.flags = f.flags := rfl

/-- The state with another file at `p`. -/
def Sys.setFile (s : Sys) (p : Nat) (f : File) : Sys :=
  { s with fs := { s.fs with file := store s.fs.file p (some f) } }

/-- The state with the lock `l` taken. -/
def Sys.lock (s : Sys) (l : LockId) : Sys :=
  { s with held := fun q => if q = l then s.held q + 1 else s.held q }

/-- At the start of a call, the locks that the thread has are the ones it may not give back. -/
def Sys.enter (s : Sys) : Sys := { s with floor := s.held }

theorem Sys.setFile_setFile (s : Sys) (p : Nat) (f f' : File) :
    (s.setFile p f).setFile p f' = s.setFile p f' := by
  simp only [Sys.setFile, store_store]

/-- The file that a descriptor of the current process stands for. -/
def fileOf (s : Fs) (fd : Int) : Option File := do
  let pr ← s.proc s.curproc
  let t ← s.ftable pr.files
  if t.tree (fdKey fd) = 0 then none else s.file (t.tree (fdKey fd))

section Descriptor

variable {fd : Int} {p : Nat}

/-- The file that it looks up is the one in the table of the current process. -/
theorem curFile_table (h : curFile fd s = .ok (p, s')) : ∃ pr t, s.proc s.curproc = some pr ∧
    s.ftable pr.files = some t ∧ p = t.tree (fdKey fd) ∧ fGetref p s = .ok ((), s') := by
  obtain ⟨pr, s1, hpr, h⟩ := run_bind_ok h
  obtain ⟨rfl, -, hpr⟩ : s = s1 ∧ s.curproc ≠ 0 ∧ s.proc s.curproc = some pr := deref_eq_ok hpr
  obtain ⟨-, t, ht, h⟩ := deref_bind_eq_ok h
  obtain ⟨_, s3, href, h⟩ := run_bind_ok h
  cases h
  exact ⟨pr, t, hpr, ht, rfl, href⟩

/-- A call looks up its file: there is none, or it gets a reference to it. -/
theorem curFile_eq_ok (h : curFile fd s = .ok (p, s')) :
    (p = 0 ∧ fileOf s fd = none ∧ s' = s) ∨ ∃ f, p ≠ 0 ∧ fileOf s fd = some f ∧
      s.file p = some f ∧ s' = { s with file := store s.file p (some f.used) } := by
  obtain ⟨pr, t, hpr, ht, rfl, href⟩ := curFile_table h
  unfold fGetref at href
  split at href
  next h0 =>
    cases href
    exact .inl ⟨h0, by simp [fileOf, hpr, ht, h0], rfl⟩
  next h0 =>
    obtain ⟨-, f, hf, href⟩ := deref_bind_eq_ok href
    cases href
    exact .inr ⟨f, h0, by simp [fileOf, hpr, ht, h0, hf], hf, rfl⟩

/-- **What `fs_dup` does to descriptors.** -/
theorem fsDup_opens {r : Except Errno Int} {s s' : Sys} (h : fsDup fd s = .ok (r, s')) :
    match r with
    | .error _ => OnFs FileFrame s s'
    | .ok newfd => ∃ (pr : Proc) (t : Ftable) (f : File),
        s.fs.proc s.fs.curproc = some pr ∧ s.fs.ftable pr.files = some t ∧
        t.tree (fdKey fd) ≠ 0 ∧ (t.tree (fdKey fd) < s.fs.brk →
          ∃ f0, s.fs.file (t.tree (fdKey fd)) = some f0 ∧ f.flags = f0.flags) ∧
        Opens pr.files newfd (f.flags &&& ~~~oCloexec) s.fs s'.fs := by
  obtain ⟨p, s1, hcur, h⟩ := run_bind_ok h
  have h1 : OnFs FileFrame s s1 := Keeps.keeps _ _ _ hcur
  obtain ⟨fs1, hrun, -⟩ := onFs_eq_ok hcur
  obtain ⟨pr, t, hpr, ht, rfl, -⟩ := curFile_table hrun
  split at h
  · cases h
    exact h1
  next hp =>
    obtain ⟨b, s2, hlock, h⟩ := run_bind_ok h
    have h2 : OnFs FileFrame s s2 := Trans.trans h1 (Keeps.keeps (R := OnFs FileFrame) _ _ _ hlock)
    split at h
    · have hpost := dupLocked_opens h2 h
      cases r with
      | error e => exact hpost
      | ok newfd =>
        obtain ⟨pr', f, hpr', hfile, hopens⟩ := hpost
        obtain rfl : pr' = pr := Option.some.inj (hpr'.symm.trans hpr)
        exact ⟨pr', t, f, hpr, ht, hp, hfile, hopens⟩
    · cases r with
      | error e => exact FileFrame.trans h2 (Keeps.keeps (R := OnFs FileFrame) _ _ _ h)
      | ok newfd =>
        obtain ⟨_, s3, _, h⟩ := run_bind_ok h
        cases h

/-- The start of a call with a descriptor: there is no file, or the rest `k` runs with the file and
its vnode. -/
theorem withFile_cases {x r : α} {k : Nat → File → Vnode → SysM α} {s s' : Sys}
    (h : (do
      let file ← onFs (curFile fd)
      if file = 0 then pure x
      else do
        let f ← onFs (getFile file)
        let n ← onFs (getVn f.vnode)
        k file f n : SysM α) s = .ok (r, s')) :
    (fileOf s.fs fd = none ∧ r = x ∧ s' = s) ∨ ∃ p f n, p ≠ 0 ∧ fileOf s.fs fd = some f ∧
      s.fs.file p = some f ∧ s.fs.vnode f.vnode = some n ∧
      k p f.used n (s.setFile p f.used) = .ok (r, s') := by
  obtain ⟨p, fs1, hcur1, h⟩ := onFs_bind_eq_ok h
  obtain ⟨rfl, hnone, rfl⟩ | ⟨f, hp, hfile, hf, rfl⟩ := curFile_eq_ok hcur1
  · cases h
    exact .inl ⟨hnone, rfl, rfl⟩
  · rw [if_neg hp] at h
    obtain ⟨-, f1, hf1, h⟩ := onFs_deref_bind_eq_ok h
    cases (store_self _ _ _).symm.trans hf1
    obtain ⟨-, n, hn, h⟩ := onFs_deref_bind_eq_ok h
    exact .inr ⟨p, f, n, hp, hfile, hf, hn, h⟩

end Descriptor

end Osdev.Vfs
