import Mathlib
import Osdev.Vfs.Descriptors
import Osdev.Vfs.Mount

/-!
# Reading back what was written to a new file

A file that `ramfs_vn_create` makes has the size 0, and nothing that a write calls makes it larger:
`vn_write` returns at once for an offset that is not below the size, `memfile_write` stays inside
the mapping, and `fs_lseek` refuses offsets above the size. So each write stores nothing and returns
0.
-/

namespace Osdev.Vfs

open Osdev.Lib

variable {ops : List WriteOp} {f' : File} {o : Int}

/-! ## The byte array that a file should be -/

/-- A write of `buf` at `off`. A gap is filled with zeros. -/
def writeAt (bytes : List UInt8) (off : Nat) (buf : List UInt8) : List UInt8 :=
  if buf = [] then bytes
  else (bytes ++ List.replicate (off - bytes.length) 0).take off ++ buf ++
    bytes.drop (off + buf.length)

/-- A write through a descriptor at an offset. -/
structure WriteOp where
  fd : Int
  offset : Nat
  buf : List UInt8

/-- The content after some writes to an empty file. -/
def contentOf (ops : List WriteOp) : List UInt8 :=
  ops.foldl (fun bytes op => writeAt bytes op.offset op.buf) []

theorem contentOf_of_empty (h : ∀ op ∈ ops, op.buf = []) : contentOf ops = [] := by
  unfold contentOf
  induction ops with
  | nil => rfl
  | cons op ops ih =>
    have hop : writeAt [] op.offset op.buf = [] := if_pos (h op (by simp))
    rw [List.foldl_cons, hop]
    exact ih fun o ho => h o (by simp [ho])

example : contentOf [⟨3, 2, [7]⟩, ⟨3, 0, [1]⟩] = [1, 0, 7] := by decide

/-! ## What a process does -/

/-- Writing at an offset: `fs_lseek` with `SEEK_SET`, then `fs_kwrite`. -/
def doWrite (op : WriteOp) : SysM (Except Errno Nat) := do
  let _ ← fsLseek op.fd op.offset 0
  let r ← fsKwrite op.fd (Kio.newReadable op.buf)
  pure r.1

/-- Several writes, with what they return. -/
def doWrites : List WriteOp → SysM (List (Except Errno Nat))
  | [] => pure []
  | op :: ops => do
    let r ← doWrite op
    let rs ← doWrites ops
    pure (r :: rs)

/-- Reading `len` bytes at an offset: what the call returns, and the bytes that it has
transferred. -/
def doRead (fd : Int) (offset len : Nat) : SysM (Except Errno Nat × List UInt8) := do
  let _ ← fsLseek fd offset 0
  let r ← fsKread fd (Kio.newWritable (List.replicate len 0))
  pure (r.1, r.2.bytes.take r.2.transfered)

/-! ## Descriptors -/

/-- `fd` is a descriptor of the current process for the vnode `vn`: its file is `f`, at `p`. -/
structure Descriptor (s : Sys) (fd : Int) (vn p : Nat) (f : File) : Prop where
  table : ∃ pr t, s.fs.curproc ≠ 0 ∧ s.fs.proc s.fs.curproc = some pr ∧ pr.files ≠ 0 ∧
    s.fs.ftable pr.files = some t ∧ t.tree (fdKey fd) = p
  ptr : p ≠ 0
  file : s.fs.file p = some f
  vnode : f.vnode = vn
  isOpen : f.closed = false
  refs : 1 ≤ f.refcount
  offset : 0 ≤ f.offset
  free : s.held (.file p) = 0 ∧ s.floor (.file p) = 0

/-- The file is open for writing. -/
def Writable (f : File) : Prop := accessMode f.flags = oWronly ∨ accessMode f.flags = oRdwr

/-- The file is open for reading. -/
def Readable (f : File) : Prop := accessMode f.flags = oRdonly ∨ accessMode f.flags = oRdwr

theorem Readable.not_oWronly {f : File} (h : Readable f) : f.flags.has oWronly = false := by
  have hbit : f.flags &&& oWronly = accessMode f.flags &&& oWronly := by
    rw [accessMode, BitVec.and_assoc]
    rfl
  rw [Flags.has, hbit]
  obtain h | h := h <;> rw [h] <;> rfl

/-- The vnode of a regular file as `ramfs` creates it. -/
def NewFile (s : Fs) (vn : Nat) : Prop :=
  vn ≠ 0 ∧ ∃ n v, s.vnode vn = some n ∧ n.type = .reg ∧ n.ops = some .ramfs ∧ n.size = 0 ∧
    n.vfs ≠ 0 ∧ s.vfs n.vfs = some v ∧ v.rdonly = false

section Files

variable {s : Sys} {fd : Int} {vn p : Nat} {f : File} {α : Type}

/-- A function that changes the file at `p`. -/
theorem onFs_file {m : FsM α} {a : α} (h : m s.fs = .ok (a, (s.setFile p f').fs)) :
    onFs m s = .ok (a, s.setFile p f') :=
  onFs_run h

/-- The same, with a lock held. -/
theorem onFs_locked {m : FsM α} {a : α} {l : LockId} (h : m s.fs = .ok (a, (s.setFile p f').fs)) :
    onFs m (s.lock l) = .ok (a, (s.setFile p f').lock l) :=
  onFs_run h

theorem NewFile.locked {l : LockId} (h : NewFile s.fs vn) :
    NewFile ((s.setFile p f').lock l).fs vn := h

theorem getFile_setFile (hp : p ≠ 0) : getFile p (s.setFile p f).fs = .ok (f, (s.setFile p f).fs) :=
  getFile_run hp (store_self _ _ _)

/-- A call finds the file of its descriptor and takes a reference. -/
theorem Descriptor.curFile (h : Descriptor s fd vn p f) :
    onFs (curFile fd) s = .ok (p, s.setFile p f.used) := by
  obtain ⟨pr, t, hcur, hpr, hfiles, ht, rfl⟩ := h.table
  refine onFs_file ?_
  have hproc : getCurproc s.fs = .ok (pr, s.fs) := deref_run hcur hpr
  unfold Vfs.curFile ftableGetFile fGetref
  rw [run_bind hproc, run_bind (getFtable_run hfiles ht), if_neg h.ptr,
    run_bind (run_bind (getFile_run h.ptr h.file) _)]
  rfl

/-- Locking a file that is open. -/
theorem fLock_run (hp : p ≠ 0) (h : s.fs.file p = some f) (hopen : f.closed = false)
    (hfree : s.held (.file p) = 0) : fLock p s = .ok (true, s.lock (.file p)) := by
  rw [fLock, run_bind (onFs_look (getFile_run hp h)), hopen, if_neg (by simp)]
  have hget : (get : SysM Sys) s = .ok (s, s) := rfl
  rw [run_bind hget, if_neg (by simp [hfree])]
  rfl

/-- A call locks the file that it has a reference to. -/
theorem Descriptor.lock (h : Descriptor s fd vn p f) :
    fLock p (s.setFile p f.used) = .ok (true, (s.setFile p f.used).lock (.file p)) :=
  fLock_run h.ptr (store_self _ _ _) h.isOpen h.free.1

/-- The end of a call that has the file locked. -/
theorem fileRetUnlock_run (hp : p ≠ 0) (h : s.fs.file p = some f) (href : f.refcount ≠ 1)
    (hfree : s.floor (.file p) ≤ s.held (.file p)) (r : α) :
    fileRetUnlock p r (s.lock (.file p)) =
      .ok (r, s.setFile p { f with refcount := f.refcount - 1 }) := by
  have hgive : give (.file p) (s.lock (.file p)) = .ok ((), s) := by
    rw [give, Sys.lock, if_neg (by simp only [if_true]; omega)]
    congr 2
    congr 1
    funext q
    by_cases hq : q = .file p <;> simp [hq]
  have hunlock : fUnlock p (s.lock (.file p)) = .ok ((), s) := by
    unfold fUnlock
    rwa [run_bind (onFs_look (s := s.lock (.file p)) (getFile_run hp h))]
  have hrelease : fRelease p s.fs =
      .ok ((), (s.setFile p { f with refcount := f.refcount - 1 }).fs) := by
    rw [fRelease, if_neg hp, run_bind (getFile_run hp h), if_neg href]
    rfl
  rw [fileRetUnlock, fileRet, run_bind hunlock, run_bind (onFs_file hrelease)]
  rfl

/-- The end of a call that took a reference, locked the file and made it `f'`. -/
theorem Descriptor.finish (h : Descriptor s fd vn p f) (f' : File)
    (href : f'.refcount = f.refcount + 1) (r : α) :
    fileRetUnlock p r ((s.setFile p f').lock (.file p)) =
      .ok (r, s.setFile p { f' with refcount := f.refcount }) := by
  have hrefs := h.refs
  have hfree := h.free
  rw [fileRetUnlock_run h.ptr (store_self _ _ _) (by omega)
    (by change s.floor _ ≤ s.held _; omega), Sys.setFile_setFile]
  rw [href, Int.add_sub_cancel]

/-- After a transfer of no bytes the file is as it was. -/
theorem Descriptor.finishTransfer (h : Descriptor s fd vn p f) (f' : File)
    (href : f'.refcount = f.refcount + 1) (kio : Kio) :
    finishTransfer p (.ok 0, kio) ((s.setFile p f').lock (.file p)) =
      .ok ((.ok 0, kio), s.setFile p { f' with refcount := f.refcount }) := by
  have hadvance : advance p (.ok 0) (s.setFile p f').fs =
      .ok ((), ((s.setFile p f').setFile p (f'.at (f'.offset + (0 : Nat)))).fs) := by
    simp only [advance]
    rw [run_bind (getFile_setFile h.ptr)]
    rfl
  unfold Vfs.finishTransfer
  dsimp only
  rw [run_bind (onFs_locked hadvance), Sys.setFile_setFile]
  refine (h.finish (f'.at (f'.offset + (0 : Nat))) href _).trans ?_
  simp [File.at]

/-! ## A file of size 0 -/

theorem vnOps_ramfs {n : Vnode} (h : n.ops = some .ramfs) (fs : Fs) :
    vnOps n fs = .ok (.ramfs, fs) := by
  rw [vnOps, h]
  rfl

theorem writeVnode_newFile {fs : Fs} (h : NewFile fs vn) {off : Int} (hoff : 0 ≤ off) (kio : Kio) :
    writeVnode vn off kio fs = .ok ((.ok 0, kio), fs) := by
  obtain ⟨hvn, n, v, hn, htype, hops, hsize, hvfs, hv, hrw⟩ := h
  rw [writeVnode, run_bind (getVn_run hvn hn), htype, if_neg (by decide)]
  rw [vnWrite, run_bind (getVn_run hvn hn), run_bind (getVfs_run hvfs hv), hrw, if_neg (by simp),
    run_bind (vnOps_ramfs hops fs), if_neg (by decide), if_neg (by omega), hsize]
  rfl

theorem readVnode_newFile {fs : Fs} (h : NewFile fs vn) {off : Int} (hoff : 0 ≤ off) (kio : Kio) :
    readVnode vn off kio fs = .ok ((.ok 0, kio), fs) := by
  obtain ⟨hvn, n, v, hn, htype, hops, hsize, -, -, -⟩ := h
  rw [readVnode, run_bind (getVn_run hvn hn), htype, if_neg (by decide)]
  rw [vnRead, run_bind (getVn_run hvn hn), run_bind (vnOps_ramfs hops fs), if_neg (by omega), hsize]
  rfl

section

variable (h : Descriptor s fd vn p f) (hnew : NewFile s.fs vn)

include h hnew

/-- A write to a new file stores nothing and returns 0. -/
theorem Descriptor.kwrite (buf : List UInt8) :
    ∃ o, 0 ≤ o ∧ fsKwrite fd (Kio.newReadable buf) s =
      .ok ((.ok 0, Kio.newReadable buf), s.setFile p (f.at o)) := by
  obtain ⟨hvn, n, v, hn, htype, -, hsize, -, -, -⟩ := id hnew
  obtain rfl := h.vnode
  have hvnode : getVn f.used.vnode (s.setFile p f.used).fs = .ok (n, _) := getVn_run hvn hn
  have hstart : fsKwrite fd (Kio.newReadable buf) s =
      (do
        let off ← onFs (appendOffset p f.used n)
        let r ← onFs (writeVnode f.vnode off (Kio.newReadable buf))
        Vfs.finishTransfer p r : SysM _) ((s.setFile p f.used).lock (.file p)) := by
    have hdir : kassert ((Kio.newReadable buf).dir == .read) s.fs = .ok ((), s.fs) := rfl
    rw [fsKwrite, run_bind (onFs_look hdir), run_bind h.curFile, if_neg h.ptr,
      run_bind (onFs_look (getFile_setFile h.ptr)),
      run_bind (onFs_look hvnode), htype, if_neg (by decide),
      if_neg (by simp [Flags.has, oRdonly]),
      run_bind h.lock]
    rfl
  by_cases happend : f.flags.has oAppend
  · refine ⟨0, le_refl _, ?_⟩
    have hoff : appendOffset p f.used n (s.setFile p f.used).fs =
        .ok (0, ((s.setFile p f.used).setFile p (f.used.at 0)).fs) := by
      rw [appendOffset, File.used_flags, if_pos happend, hsize]
      rfl
    rw [hstart, run_bind (onFs_locked hoff), Sys.setFile_setFile,
      run_bind (onFs_look (writeVnode_newFile hnew.locked (le_refl _) _))]
    exact h.finishTransfer (f.used.at 0) rfl _
  · refine ⟨f.offset, h.offset, ?_⟩
    have hoff : appendOffset p f.used n (s.setFile p f.used).fs =
        .ok (f.offset, (s.setFile p f.used).fs) := by
      rw [appendOffset, File.used_flags, if_neg happend]
      rfl
    rw [hstart, run_bind (onFs_look (s := (s.setFile p _).lock _) hoff),
      run_bind (onFs_look (writeVnode_newFile hnew.locked h.offset _))]
    exact h.finishTransfer f.used rfl _

/-- A read from a new file finds its end. -/
theorem Descriptor.kread (hread : Readable f)
    (base : List UInt8) :
    fsKread fd (Kio.newWritable base) s = .ok ((.ok 0, Kio.newWritable base), s.setFile p f) := by
  obtain ⟨hvn, n, v, hn, htype, -, -, -, -, -⟩ := id hnew
  obtain rfl := h.vnode
  have hvnode : getVn f.used.vnode (s.setFile p f.used).fs = .ok (n, _) := getVn_run hvn hn
  have hdir : kassert ((Kio.newWritable base).dir == .write) s.fs = .ok ((), s.fs) := rfl
  have htransfer : readVnode f.used.vnode f.used.offset (Kio.newWritable base)
      ((s.setFile p f.used).lock (.file p)).fs = .ok ((.ok 0, Kio.newWritable base), _) :=
    readVnode_newFile hnew.locked h.offset _
  rw [fsKread, run_bind (onFs_look hdir), run_bind h.curFile, if_neg h.ptr,
    run_bind (onFs_look (getFile_setFile h.ptr)),
    run_bind (onFs_look hvnode), htype, if_neg (by decide),
    File.used_flags, if_neg (by rw [hread.not_oWronly]; decide), run_bind h.lock, if_pos rfl,
    run_bind (onFs_look htransfer)]
  exact h.finishTransfer f.used rfl _

/-- A seek leaves the file at an offset that is not negative. -/
theorem Descriptor.lseek (offset : Nat) :
    ∃ r o, 0 ≤ o ∧ fsLseek fd offset 0 s = .ok (r, s.setFile p (f.at o)) := by
  obtain ⟨hvn, n, v, hn, htype, -, -, -, -, -⟩ := id hnew
  obtain rfl := h.vnode
  have hvnode : getVn f.used.vnode (s.setFile p f.used).fs = .ok (n, _) := getVn_run hvn hn
  have hstart : fsLseek fd offset 0 s =
      seekLocked p offset 0 ((s.setFile p f.used).lock (.file p)) := by
    rw [fsLseek, run_bind h.curFile, if_neg h.ptr, run_bind (onFs_look (getFile_setFile h.ptr)),
      run_bind (onFs_look hvnode), htype,
      if_neg (by decide), if_neg (by decide), run_bind h.lock, if_pos rfl]
  have htarget : seekTarget f.used n offset 0 = some (offset : Int) := rfl
  rw [hstart]
  rw [seekLocked, run_bind (onFs_look (s := (s.setFile p f.used).lock _) (getFile_setFile h.ptr)),
    run_bind (onFs_look (s := (s.setFile p f.used).lock _) hvnode), htarget]
  dsimp only
  split
  · exact ⟨_, f.offset, h.offset, h.finish f.used rfl _⟩
  · have hset : setFile p (f.used.at offset) (s.setFile p f.used).fs =
        .ok ((), ((s.setFile p f.used).setFile p (f.used.at offset)).fs) := rfl
    refine ⟨.ok offset, offset, Int.natCast_nonneg _, (run_bind (onFs_locked hset) _).trans ?_⟩
    rw [Sys.setFile_setFile]
    exact h.finish (f.used.at offset) rfl _

end

/-- A descriptor stays one when the offset of a file is changed, also if it shares the file. -/
theorem Descriptor.moved {fd' : Int} {p' : Nat} (h' : Descriptor s fd' vn p' f')
    (h : Descriptor s fd vn p f) (ho : 0 ≤ o) :
    ∃ f'', f''.flags = f'.flags ∧ Descriptor (s.setFile p (f.at o)) fd' vn p' f'' := by
  obtain rfl | hp := eq_or_ne p' p
  · obtain rfl : f' = f := Option.some.inj (h'.file.symm.trans h.file)
    exact ⟨f'.at o, rfl,
      ⟨h'.table, h'.ptr, store_self _ _ _, h'.vnode, h'.isOpen, h'.refs, ho, h'.free⟩⟩
  · exact ⟨f', rfl, ⟨h'.table, h'.ptr, (store_ne hp _).trans h'.file, h'.vnode, h'.isOpen, h'.refs,
      h'.offset, h'.free⟩⟩

/-! ## Writes and reads -/

/-- Each descriptor of the writes is for the file and open for writing. -/
def WriteFds (s : Sys) (vn : Nat) (ops : List WriteOp) : Prop :=
  ∀ op ∈ ops, ∃ p f, Descriptor s op.fd vn p f ∧ Writable f

/-- The writes return what they should, and then each read through a descriptor that is open for
reading does. -/
def ReadsBack (s : Sys) (vn : Nat) (ops : List WriteOp) : Prop :=
  ∃ s', doWrites ops s = .ok (ops.map fun op => .ok op.buf.length, s') ∧
    ∀ fd p f, Descriptor s' fd vn p f → Readable f → ∀ offset len, ∃ s'',
      doRead fd offset len s' =
        .ok ((.ok (((contentOf ops).drop offset).take len).length,
          ((contentOf ops).drop offset).take len), s'')

theorem WriteFds.setFile (h : WriteFds s vn ops) (hd : Descriptor s fd vn p f) (ho : 0 ≤ o) :
    WriteFds (s.setFile p (f.at o)) vn ops := by
  intro op hop
  obtain ⟨q, g, hq, hg⟩ := h op hop
  obtain ⟨g', hflags, hg'⟩ := hq.moved hd ho
  refine ⟨q, g', hg', ?_⟩
  unfold Writable
  rwa [hflags]

/-- The descriptor at another offset. -/
theorem Descriptor.at (h : Descriptor s fd vn p f) (ho : 0 ≤ o) :
    Descriptor (s.setFile p (f.at o)) fd vn p (f.at o) :=
  ⟨h.table, h.ptr, store_self _ _ _, h.vnode, h.isOpen, h.refs, ho, h.free⟩

/-- A write at an offset of a new file returns 0 and leaves a new file. -/
theorem doWrite_newFile (hnew : NewFile s.fs vn) (h : Descriptor s fd vn p f) (offset : Nat)
    (buf : List UInt8) :
    ∃ o, 0 ≤ o ∧ doWrite ⟨fd, offset, buf⟩ s = .ok (.ok 0, s.setFile p (f.at o)) := by
  obtain ⟨r, o, ho, hseek⟩ := h.lseek hnew offset
  obtain ⟨o', ho', hwrite⟩ := (h.at ho).kwrite hnew buf
  refine ⟨o', ho', ?_⟩
  rw [doWrite, run_bind hseek, run_bind hwrite, Sys.setFile_setFile]
  rfl

/-- All writes to a new file return 0. -/
theorem doWrites_newFile (hnew : NewFile s.fs vn) (hfds : WriteFds s vn ops) :
    ∃ s', doWrites ops s = .ok (ops.map fun _ => .ok 0, s') ∧ NewFile s'.fs vn := by
  induction ops generalizing s with
  | nil => exact ⟨s, rfl, hnew⟩
  | cons op ops ih =>
    obtain ⟨p, f, hd, -⟩ := hfds op (by simp)
    obtain ⟨o, ho, hwrite⟩ := doWrite_newFile hnew hd op.offset op.buf
    have hfds' : WriteFds (s.setFile p (f.at o)) vn ops :=
      WriteFds.setFile (fun op' hop' => hfds op' (by simp [hop'])) hd ho
    obtain ⟨s', hrest, hnew'⟩ := ih (s := s.setFile p (f.at o)) hnew hfds'
    refine ⟨s', ?_, hnew'⟩
    rw [doWrites, run_bind hwrite, run_bind hrest]
    rfl

/-- A read from a new file returns nothing. -/
theorem doRead_newFile (hnew : NewFile s.fs vn) (h : Descriptor s fd vn p f) (hread : Readable f)
    (offset len : Nat) : ∃ s', doRead fd offset len s = .ok ((.ok 0, []), s') := by
  obtain ⟨r, o, ho, hseek⟩ := h.lseek hnew offset
  refine ⟨(s.setFile p (f.at o)).setFile p (f.at o), ?_⟩
  rw [doRead, run_bind hseek, run_bind ((h.at ho).kread hnew hread _)]
  rfl

/-- **Data written to a new file reads back exactly if there is none.** -/
theorem newFile_readsBack_iff {ops : List WriteOp} (hnew : NewFile s.fs vn)
    (hfds : WriteFds s vn ops) : ReadsBack s vn ops ↔ ∀ op ∈ ops, op.buf = [] := by
  obtain ⟨s', hrun, hnew'⟩ := doWrites_newFile hnew hfds
  constructor
  · rintro ⟨s'', hrun', -⟩
    have hresults := (Prod.mk.inj (Except.ok.inj (hrun.symm.trans hrun'))).1
    intro op hop
    have hlen := List.map_inj_left.mp hresults op hop
    exact List.length_eq_zero_iff.mp (Except.ok.inj hlen).symm
  · intro hempty
    have hmap : (ops.map fun op => (Except.ok op.buf.length : Except Errno Nat)) =
        ops.map fun _ => .ok 0 :=
      List.map_congr_left fun op hop => by rw [hempty op hop]; rfl
    refine ⟨s', by rwa [hmap], fun fd p f hd hread offset len => ?_⟩
    rw [contentOf_of_empty hempty]
    simpa using doRead_newFile hnew' hd hread offset len

end Files

/-! ## A file of the booted system -/

/-- The system before `fs_init`, with no lock held. -/
def startSys : Sys := ⟨bareFs sumHash, fun _ => 0, fun _ => 0⟩

/-- Boot, create `/a` and open it for reading and writing. -/
def makeFile : SysM Unit := do
  onFs boot
  let s ← get
  let root ← onFs (getVe s.fs.vcache.root)
  let d ← onFs (getVe root.mount)
  let _ ← onFs (vnCreate root.mount d.vn [0x61] 0)
  let _ ← fsProcOpen 2 s.fs.curproc (-1) [slash, 0x61] oRdwr 0
  pure ()

/-- The system after that: descriptor 0 is for the vnode 13. -/
def fileSys : Sys :=
  match makeFile startSys with
  | .ok (_, s) => s
  | .error _ => startSys

/-- A check of `Descriptor` for a file that was opened just now. -/
def justOpened (s : Sys) (fd : Int) (vn p : Nat) : Bool :=
  s.fs.curproc != 0 && p != 0 && s.held (.file p) == 0 && s.floor (.file p) == 0 &&
    (s.fs.proc s.fs.curproc).any (fun pr => pr.files != 0 &&
      (s.fs.ftable pr.files).any fun t => t.tree (fdKey fd) == p) &&
    (s.fs.file p).any fun f => f.vnode == vn && !f.closed && f.refcount == 1 && f.offset == 0

theorem justOpened_sound {fd : Int} {p : Nat} (h : justOpened s fd vn p = true) :
    ∃ f, Descriptor s fd vn p f ∧ f.offset = 0 := by
  simp only [justOpened, Bool.and_eq_true, bne_iff_ne, beq_iff_eq, Option.any_eq_true,
    Bool.not_eq_true'] at h
  obtain ⟨⟨⟨⟨⟨hcur, hp⟩, hheld⟩, hfloor⟩, pr, hpr, hfiles, t, ht, htree⟩, f, hf,
    ⟨⟨hvn, hclosed⟩, href⟩, hoff⟩ := h
  exact ⟨f, ⟨⟨pr, t, hcur, hpr, hfiles, ht, htree⟩, hp, hf, hvn, hclosed, by omega, by omega,
    hheld, hfloor⟩, hoff⟩

theorem fileSys_eval : (fileSys.fs.vnode 13).any (fun n => n.type == .reg && n.ops == some .ramfs &&
      n.size == 0 && n.vfs == 5) = true ∧ (fileSys.fs.vfs 5).any (fun v => !v.rdonly) = true ∧
    justOpened fileSys 0 13 15 = true ∧
    (fileSys.fs.file 15).any (fun f => accessMode f.flags == oRdwr) = true ∧
    (doWrites [⟨0, 0, [7]⟩] fileSys).toOption.any
      (fun r => r.1.map Except.toOption == [some 0]) = true := by
  decide_cbv

theorem fileSys_newFile : NewFile fileSys.fs 13 := by
  obtain ⟨hn, hv, -⟩ := fileSys_eval
  obtain ⟨n, hn, hfields⟩ := (Option.any_eq_true _ _).mp hn
  obtain ⟨v, hv, hrw⟩ := (Option.any_eq_true _ _).mp hv
  simp only [Bool.and_eq_true, beq_iff_eq] at hfields
  obtain ⟨⟨⟨htype, hops⟩, hsize⟩, hvfs⟩ := hfields
  exact ⟨by decide, n, v, hn, htype, hops, hsize, by omega, hvfs ▸ hv, by simpa using hrw⟩

theorem fileSys_descriptor :
    ∃ f, Descriptor fileSys 0 13 15 f ∧ accessMode f.flags = oRdwr := by
  obtain ⟨-, -, hopened, hmode, -⟩ := fileSys_eval
  obtain ⟨f, hf, -⟩ := justOpened_sound hopened
  obtain ⟨f', hf', hmode⟩ := (Option.any_eq_true _ _).mp hmode
  obtain rfl := Option.some.inj (hf.file.symm.trans hf')
  exact ⟨f, hf, beq_iff_eq.mp hmode⟩

theorem fileSys_writeFds {ops : List WriteOp} (h : ∀ op ∈ ops, op.fd = 0) :
    WriteFds fileSys 13 ops := by
  obtain ⟨f, hd, hmode⟩ := fileSys_descriptor
  intro op hop
  exact ⟨15, f, h op hop ▸ hd, Or.inr hmode⟩

/-- Two empty writes read back, an empty one and one of two bytes do not. -/
theorem fileSys_readsBack_iff :
    NewFile fileSys.fs 13 ∧ ReadsBack fileSys 13 [⟨0, 0, []⟩, ⟨0, 4, []⟩] ∧
      ¬ ReadsBack fileSys 13 [⟨0, 0, []⟩, ⟨0, 0, [7, 8]⟩] :=
  ⟨fileSys_newFile,
    (newFile_readsBack_iff fileSys_newFile (fileSys_writeFds (by decide))).mpr (by decide),
    mt (newFile_readsBack_iff fileSys_newFile (fileSys_writeFds (by decide))).mp (by decide)⟩

/-- One byte written at the start of a new file is lost: the write returns 0. -/
theorem fileSys_write_lost :
    NewFile fileSys.fs 13 ∧ WriteFds fileSys 13 [⟨0, 0, [7]⟩] ∧
      ¬ ReadsBack fileSys 13 [⟨0, 0, [7]⟩] := by
  refine ⟨fileSys_newFile, fileSys_writeFds (by decide), ?_⟩
  rintro ⟨s', hrun, -⟩
  obtain ⟨-, -, -, -, hzero⟩ := fileSys_eval
  rw [hrun] at hzero
  simp [Except.toOption] at hzero

end Osdev.Vfs
