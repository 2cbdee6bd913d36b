import Osdev.Vfs.File
import Osdev.Vfs.Resolve

/-!
# The file system calls (`kernel/vfs/fs.c`)

`fuel` bounds the depth of the path resolution. The labels of a function are definitions of their
own, so that each `goto` is a call.
-/

namespace Osdev.Vfs

/-! ## Flags of `open` -/

/-- `O_RDONLY`. -/
def oRdonly : Flags := 0
/-- `O_WRONLY`. -/
def oWronly : Flags := 1#32
/-- `O_RDWR`. -/
def oRdwr : Flags := 2#32
/-- `O_CREAT`. -/
def oCreat : Flags := 0o100#32
/-- `O_EXCL`. -/
def oExcl : Flags := 0o200#32
/-- `O_APPEND`. -/
def oAppend : Flags := 0o2000#32
/-- `O_NOFOLLOW`. -/
def oNofollow : Flags := 0o400000#32
/-- `O_CLOEXEC`. -/
def oCloexec : Flags := 0o2000000#32
/-- `O_PATH`. -/
def oPath : Flags := 0o10000000#32

/-- `O_ACCMODE`. -/
def oAccmode : Flags := 3#32 ||| oPath

/-- The part of the flags that says what a descriptor is opened for. -/
def accessMode (flags : Flags) : Flags := flags &&& oAccmode

/-! ## Locks of files -/

/-- `f_lock`. The lock is not recursive. -/
def fLock (p : Nat) : SysM Bool := do
  let f ← onFs (getFile p)
  if f.closed then pure false
  else do
    let s ← get
    if s.held (.file p) ≠ 0 then throw (.fault .assertion)
    else do
      acquire (.file p)
      pure true

/-- `f_unlock`. -/
def fUnlock (p : Nat) : SysM Unit := do
  let _ ← onFs (getFile p)
  give (.file p)

/-- `curproc`. -/
def getCurproc : FsM Proc := do
  let s ← get
  getProc s.curproc

/-- `ve_getref(curproc->pwd)`. -/
def getPwd : FsM Nat := do
  let p ← getCurproc
  veGetref p.pwd
  pure p.pwd

/-! ## `fs_proc_open` -/

/-- The first part: the descriptor is allocated or claimed. The second component is what the
variable `fd` is afterwards. -/
def openFd (files : Nat) (fd : Int) : FsM (Except Errno Unit × Int) :=
  if fd < 0 then do
    let fd ← ftableAllocFd files
    pure (if fd < 0 then .error .emfile else .ok (), fd)
  else do
    let r ← ftableClaimFd files fd
    pure (if r < 0 then .error .ebadf else .ok (), fd)

/-- The flags for the resolution. -/
def openVrFlags (flags : Flags) : Flags :=
  vrNotdir ||| (if flags.has oNofollow then vrNofollow else 0) |||
    (if flags.has oCreat then vrParent ||| (if flags.has oExcl then vrExclusv else 0) else 0)

/-- What a call to open works with. -/
structure OpenArgs where
  files : Nat
  fd : Int
  flags : Flags
  atVe : Nat

/-- A failed call frees the descriptor, also when it could not claim it. -/
def openFree (a : OpenArgs) : Except Errno Int → FsM Unit
  | .error _ => ftableFreeFd a.files a.fd
  | .ok _ => pure ()

/-- The label `ret`. -/
def openRet (a : OpenArgs) (ve : Nat) (res : Except Errno Int) : SysM (Except Errno Int) := do
  onFs (openFree a res)
  onFs (veRelease ve)
  onFs (veRelease a.atVe)
  pure res

/-- The label `ret_unlock`. -/
def openRetUnlock (a : OpenArgs) (ve : Nat) (res : Except Errno Int) : SysM (Except Errno Int) := do
  veUnlock ve
  openRet a ve res

/-- The label `done`. -/
def openDone (a : OpenArgs) (ve vn : Nat) (rpath : Str) : SysM (Except Errno Int) := do
  let _ ← vnLock vn
  let n ← onFs (getVn vn)
  onFs (setVn vn { n with nopen := n.nopen + 1 })
  vnUnlock vn
  let file ← onFs (fAlloc a.fd a.flags vn rpath)
  onFs (ftableAddFile a.files file)
  openRetUnlock a ve (.ok a.fd)

/-- Opening a device. -/
def openDevice (a : OpenArgs) (ve vn : Nat) (n : Vnode) (rpath : Str) : SysM (Except Errno Int) :=
  if n.vDev = 0 then openRetUnlock a ve (.error .enodev)
  else do
    let d ← onFs (getDevice n.vDev)
    match d.open_ with
    | none => openDone a ve vn rpath
    | some dOpen =>
      match dOpen a.flags with
      | .error e => openRetUnlock a ve (.error e)
      | .ok _ => openDone a ve vn rpath

/-- The part after the resolution. The test for links looks at the flag `VR_NOFOLLOW` in the flags
of `open`, where it is `O_WRONLY`. -/
def openVe (a : OpenArgs) (ve : Nat) (rpath : Str) : SysM (Except Errno Int) := do
  let e ← onFs (getVe ve)
  if a.flags.has vrNofollow ∧ (e.type = .lnk ∨ e.isMount) then openRetUnlock a ve (.error .eloop)
  else do
    let n ← onFs (getVn e.vn)
    if n.type.isDev then openDevice a ve e.vn n rpath
    else do
      match ← onFs (vnOpen e.vn) with
      | .error err => openRetUnlock a ve (.error err)
      | .ok () => openDone a ve e.vn rpath

/-- The part that creates the file in the directory `dve`. The directory comes with the lock of its
entry, but it is the lock of its vnode that is given back. -/
def openCreate (a : OpenArgs) (dve : Nat) (name : Str) (mode : Nat) (rpath : Sbuf) :
    SysM (Except Errno Int) := do
  let d ← onFs (getVe dve)
  let r ← onFs (vnCreate dve d.vn name mode)
  vnUnlock d.vn
  onFs (veRelease dve)
  match r with
  | .error e => openRetUnlock a 0 (.error e)
  | .ok ve => do
    let rpath := (rpath.writeChar slash).write name
    onFs (vcachePut rpath.data ve)
    openVe a ve rpath.data

/-- The part from the resolution on. -/
def openPath (fuel : Nat) (a : OpenArgs) (path : Str) (mode : Nat) : SysM (Except Errno Int) := do
  let out ← vresolve fuel a.atVe path (openVrFlags a.flags) (some (Sbuf.init pathMax))
  let rpath := out.fullpath.getD (Sbuf.init pathMax)
  match out.res with
  | .ok () => openVe a out.ve rpath.data
  | .error e =>
    if a.flags.has oCreat ∧ out.ve ≠ 0 then openCreate a out.ve (cstrBasename path) mode rpath
    else openRet a 0 (.error e)

/-- `fs_proc_open`. -/
def fsProcOpen (fuel proc : Nat) (fd : Int) (path : Str) (flags : Flags) (mode : Nat) :
    SysM (Except Errno Int) := do
  let p ← onFs (getProc proc)
  onFs (veGetref p.pwd)
  let (r, fd) ← onFs (openFd p.files fd)
  let a : OpenArgs := ⟨p.files, fd, flags, p.pwd⟩
  match r with
  | .error e => openRet a 0 (.error e)
  | .ok () =>
    if accessMode flags ≠ oRdonly ∧ accessMode flags ≠ oWronly ∧ accessMode flags ≠ oRdwr then
      openRet a 0 (.error .einval)
    else openPath fuel a path mode

/-! ## `fs_proc_close` -/

/-- The label `ret`. -/
def fileRet {α : Type} (file : Nat) (res : α) : SysM α := do
  onFs (fRelease file)
  pure res

/-- The label `ret_unlock`. -/
def fileRetUnlock {α : Type} (file : Nat) (res : α) : SysM α := do
  fUnlock file
  fileRet file res

/-- The label `done`. The descriptor is removed from the table of the current process. -/
def closeDone (file vn : Nat) (fd : Int) : SysM (Except Errno Unit) := do
  let p ← onFs getCurproc
  onFs (ftableRemoveFile p.files fd)
  onFs (ftableFreeFd p.files fd)
  let f ← onFs (getFile file)
  onFs (setFile file { f with fd := -1, closed := true })
  let _ ← vnLock vn
  let n ← onFs (getVn vn)
  onFs (setVn vn { n with nopen := n.nopen - 1 })
  vnUnlock vn
  fileRetUnlock file (.ok ())

/-- Closing a device. -/
def closeDevice (file vn : Nat) (n : Vnode) (fd : Int) : SysM (Except Errno Unit) :=
  if n.vDev = 0 then fileRetUnlock file (.error .enodev)
  else do
    let d ← onFs (getDevice n.vDev)
    match d.close with
    | some (.error e) => fileRetUnlock file (.error e)
    | _ => closeDone file vn fd

/-- The part with the file locked. -/
def closeLocked (file : Nat) (fd : Int) : SysM (Except Errno Unit) := do
  let f ← onFs (getFile file)
  let n ← onFs (getVn f.vnode)
  if n.type = .dir then fileRetUnlock file (.error .eisdir)
  else if n.type.isDev then closeDevice file f.vnode n fd
  else do
    let _ ← onFs (vnOps n)
    closeDone file f.vnode fd

/-- `fs_proc_close`. -/
def fsProcClose (proc : Nat) (fd : Int) : SysM (Except Errno Unit) := do
  let p ← onFs (getProc proc)
  let file ← onFs (ftableGetFile p.files fd)
  if file = 0 then pure (.error .ebadf)
  else do
    if ← fLock file then closeLocked file fd else fileRet file (.error .ebadf)

/-! ## Reading, writing and seeking -/

/-- The file that a descriptor of the current process stands for. -/
def curFile (fd : Int) : FsM Nat := do
  let p ← getCurproc
  ftableGetFile p.files fd

/-- `(size_t) off`. -/
def offWord (off : Int) : Nat := (off % (word : Int)).toNat

/-- `(off_t) size`. -/
def offT (size : Nat) : Int := (BitVec.ofNat 64 size).toInt

/-- The label `done`: the offset moves by what was transferred. -/
def advance (file : Nat) : Except Errno Nat → FsM Unit
  | .error _ => pure ()
  | .ok n => do
    let f ← getFile file
    setFile file { f with offset := f.offset + n }

/-- The transfer of `fs_kread`: from a device, or from a file. -/
def readVnode (vn : Nat) (off : Int) (kio : Kio) : FsM (Except Errno Nat × Kio) := do
  let n ← getVn vn
  if n.type.isDev then
    if n.vDev = 0 then pure (.error .enodev, kio)
    else do
      let _ ← getDevice n.vDev
      dNread n.vDev (offWord off) kio.remaining kio
  else vnRead vn off kio

/-- The transfer of `fs_kwrite`. -/
def writeVnode (vn : Nat) (off : Int) (kio : Kio) : FsM (Except Errno Nat × Kio) := do
  let n ← getVn vn
  if n.type.isDev then
    if n.vDev = 0 then pure (.error .enodev, kio)
    else do
      let _ ← getDevice n.vDev
      dNwrite n.vDev (offWord off) kio.remaining kio
  else vnWrite vn off kio

/-- The end of `fs_kread` and `fs_kwrite`. -/
def finishTransfer (file : Nat) (r : Except Errno Nat × Kio) : SysM (Except Errno Nat × Kio) := do
  onFs (advance file r.1)
  fileRetUnlock file r

/-- `fs_kread`. -/
def fsKread (fd : Int) (kio : Kio) : SysM (Except Errno Nat × Kio) := do
  onFs (kassert (kio.dir == .write))
  let file ← onFs (curFile fd)
  if file = 0 then pure (.error .ebadf, kio)
  else do
    let f ← onFs (getFile file)
    let n ← onFs (getVn f.vnode)
    if n.type = .dir then fileRet file (.error .eisdir, kio)
    else if f.flags.has oWronly then fileRet file (.error .ebadf, kio)
    else do
      if ← fLock file then do
        let r ← onFs (readVnode f.vnode f.offset kio)
        finishTransfer file r
      else fileRet file (.error .ebadf, kio)

/-- The flag `O_APPEND`. -/
def appendOffset (file : Nat) (f : File) (n : Vnode) : FsM Int :=
  if f.flags.has oAppend then do
    setFile file { f with offset := offT n.size }
    pure (offT n.size)
  else pure f.offset

/-- `fs_kwrite`. The test for descriptors that are open for reading masks with `O_RDONLY`. -/
def fsKwrite (fd : Int) (kio : Kio) : SysM (Except Errno Nat × Kio) := do
  onFs (kassert (kio.dir == .read))
  let file ← onFs (curFile fd)
  if file = 0 then pure (.error .ebadf, kio)
  else do
    let f ← onFs (getFile file)
    let n ← onFs (getVn f.vnode)
    if n.type = .dir then fileRet file (.error .eisdir, kio)
    else if f.flags.has oRdonly then fileRet file (.error .ebadf, kio)
    else do
      if ← fLock file then do
        let off ← onFs (appendOffset file f n)
        let r ← onFs (writeVnode f.vnode off kio)
        finishTransfer file r
      else fileRet file (.error .ebadf, kio)

/-- The new offset that `fs_lseek` computes, for `SEEK_SET`, `SEEK_CUR` and `SEEK_END`. -/
def seekTarget (f : File) (n : Vnode) (offset whence : Int) : Option Int :=
  if whence = 0 then some offset
  else if whence = 1 then some (f.offset + offset)
  else if whence = 2 then some (offT n.size + offset)
  else none

/-- The part of `fs_lseek` with the file locked. -/
def seekLocked (file : Nat) (offset whence : Int) : SysM (Except Errno Int) := do
  let f ← onFs (getFile file)
  let n ← onFs (getVn f.vnode)
  match seekTarget f n offset whence with
  | none => fileRetUnlock file (.error .einval)
  | some res =>
    if res < 0 ∨ offT n.size < res then fileRetUnlock file (.error .einval)
    else do
      onFs (setFile file { f with offset := res })
      fileRetUnlock file (.ok res)

/-- `fs_lseek`. For a pipe or a socket it goes to `ret_unlock` before it takes the lock. -/
def fsLseek (fd offset whence : Int) : SysM (Except Errno Int) := do
  let file ← onFs (curFile fd)
  if file = 0 then pure (.error .ebadf)
  else do
    let f ← onFs (getFile file)
    let n ← onFs (getVn f.vnode)
    if n.type = .dir then fileRet file (.error .eisdir)
    else if n.type = .fifo ∨ n.type = .sock then fileRetUnlock file (.error .espipe)
    else do
      if ← fLock file then seekLocked file offset whence
      else fileRet file (.error .ebadf)

/-! ## `fs_dup` -/

/-- The part with the file locked. -/
def dupLocked (file : Nat) : SysM (Except Errno Int) := do
  let p ← onFs getCurproc
  let newfd ← onFs (ftableAllocFd p.files)
  if newfd < 0 then fileRetUnlock file (.error .emfile)
  else do
    let f ← onFs (getFile file)
    let newfile ← onFs (fAlloc newfd (f.flags &&& ~~~oCloexec) f.vnode f.realPath)
    onFs (ftableAddFile p.files newfile)
    fileRetUnlock file (.ok newfd)

/-- `fs_dup`. -/
def fsDup (fd : Int) : SysM (Except Errno Int) := do
  let file ← onFs (curFile fd)
  if file = 0 then pure (.error .ebadf)
  else do
    if ← fLock file then dupLocked file else fileRet file (.error .ebadf)

/-! ## `fs_stat` and `fs_lstat` -/

/-- The label `ret` of the calls with one path. -/
def pathRet {α : Type} (ve atVe : Nat) (res : Except Errno α) : SysM (Except Errno α) := do
  onFs (veRelease ve)
  onFs (veRelease atVe)
  pure res

/-- The common text of `fs_stat` and `fs_lstat`, which differ in the flags. -/
def fsStatWith (flags : Flags) (fuel : Nat) (path : Str) : SysM (Except Errno Stat) := do
  let atVe ← onFs getPwd
  let out ← vresolve fuel atVe path flags none
  match out.res with
  | .error e => pathRet out.ve atVe (.error e)
  | .ok () => do
    let e ← onFs (getVe out.ve)
    let _ ← vnLock e.vn
    let stat ← onFs (vnStat e.vn)
    vnUnlock e.vn
    pathRet out.ve atVe (.ok stat)

/-- `fs_stat`. -/
def fsStat (fuel : Nat) (path : Str) : SysM (Except Errno Stat) := fsStatWith 0 fuel path

/-- `fs_lstat`. -/
def fsLstat (fuel : Nat) (path : Str) : SysM (Except Errno Stat) := fsStatWith vrNofollow fuel path

/-! ## Making entries -/

/-- The common text of `fs_mkdir`, `fs_mknod` and `fs_symlink`: `make` makes the entry with a name
in a directory. -/
def fsMakeWith (make : Nat → Nat → Str → FsM (Except Errno Nat)) (fuel : Nat) (path : Str) :
    SysM (Except Errno Unit) := do
  let atVe ← onFs getPwd
  let out ← vresolve fuel atVe path vrExclusv (some (Sbuf.init pathMax))
  match out.res with
  | .error e => pathRet out.ve atVe (.error e)
  | .ok () => do
    let d ← onFs (getVe out.ve)
    match ← onFs (make out.ve d.vn (cstrBasename path)) with
    | .error e => do
      veUnlock out.ve
      pathRet out.ve atVe (.error e)
    | .ok ve => do
      let rpath := out.fullpath.getD (Sbuf.init pathMax)
      onFs (vcachePut ((rpath.writeChar slash).write (cstrBasename path)).data ve)
      onFs (veRelease ve)
      veUnlock out.ve
      pathRet out.ve atVe (.ok ())

/-- `fs_mkdir`. -/
def fsMkdir (fuel : Nat) (path : Str) (mode : Nat) : SysM (Except Errno Unit) :=
  fsMakeWith (fun dve dvn name => vnMkdir dve dvn name mode) fuel path

/-- `fs_mknod`. -/
def fsMknod (fuel : Nat) (path : Str) (mode dev : Nat) : SysM (Except Errno Unit) :=
  fsMakeWith (fun dve dvn name => vnMknod dve dvn name mode dev) fuel path

/-- `fs_symlink`. -/
def fsSymlink (fuel : Nat) (target linkpath : Str) : SysM (Except Errno Unit) :=
  fsMakeWith (fun dve dvn name => vnSymlink dve dvn name target) fuel linkpath

/-! ## Removing entries -/

/-- The label `ret` of `fs_unlink` and `fs_rmdir`. -/
def removeRet (ve dve atVe : Nat) (res : Except Errno Unit) : SysM (Except Errno Unit) := do
  onFs (veRelease ve)
  onFs (veRelease dve)
  onFs (veRelease atVe)
  pure res

/-- The label `ret_unlock`. -/
def removeRetUnlock (ve dve atVe : Nat) (res : Except Errno Unit) : SysM (Except Errno Unit) := do
  veUnlock ve
  veUnlock dve
  removeRet ve dve atVe res

/-- The end of both functions after the file system has removed the entry. -/
def removeDone (ve dve atVe : Nat) (rpath : Sbuf) (r : Except Errno Unit) :
    SysM (Except Errno Unit) := do
  match r with
  | .error e => removeRetUnlock ve dve atVe (.error e)
  | .ok () => do
    onFs (vcacheInvalidate rpath.data)
    removeRetUnlock ve dve atVe (.ok ())

/-- The part of `fs_unlink` after the resolution. -/
def unlinkVe (ve atVe : Nat) (rpath : Sbuf) : SysM (Except Errno Unit) := do
  let e ← onFs (getVe ve)
  onFs (veGetref e.parent)
  let _ ← veLock e.parent
  let d ← onFs (getVe e.parent)
  let e' ← onFs (getVe ve)
  let _ ← vnLock e'.vn
  let r ← onFs (vnUnlink e.parent d.vn ve e'.vn)
  vnUnlock e'.vn
  removeDone ve e.parent atVe rpath r

/-- `fs_unlink`. -/
def fsUnlink (fuel : Nat) (path : Str) : SysM (Except Errno Unit) := do
  let atVe ← onFs getPwd
  let out ← vresolve fuel atVe path 0 (some (Sbuf.init pathMax))
  match out.res with
  | .error e => removeRet out.ve 0 atVe (.error e)
  | .ok () => unlinkVe out.ve atVe (out.fullpath.getD (Sbuf.init pathMax))

/-- The part of `fs_rmdir` after the resolution. -/
def rmdirVe (ve atVe : Nat) (rpath : Sbuf) : SysM (Except Errno Unit) := do
  let e ← onFs (getVe ve)
  let n ← onFs (getVn e.vn)
  if n.nlink > 2 then do
    veUnlock ve
    removeRet ve 0 atVe (.error .enotempty)
  else do
    onFs (veGetref e.parent)
    let d ← onFs (getVe e.parent)
    let _ ← veLock e.parent
    let _ ← vnLock e.vn
    let r ← onFs (vnRmdir e.parent d.vn ve e.vn)
    vnUnlock e.vn
    removeDone ve e.parent atVe rpath r

/-- `fs_rmdir`. -/
def fsRmdir (fuel : Nat) (path : Str) : SysM (Except Errno Unit) := do
  let atVe ← onFs getPwd
  let out ← vresolve fuel atVe path 0 (some (Sbuf.init pathMax))
  match out.res with
  | .error e => removeRet out.ve 0 atVe (.error e)
  | .ok () => rmdirVe out.ve atVe (out.fullpath.getD (Sbuf.init pathMax))

/-! ## `fs_link` -/

/-- The part after both resolutions. -/
def linkVe (ove dve atVe : Nat) (name : Str) (rpath : Sbuf) : SysM (Except Errno Unit) := do
  let d ← onFs (getVe dve)
  let o ← onFs (getVe ove)
  let _ ← vnLock o.vn
  let r ← onFs (vnHardlink dve d.vn name o.vn)
  vnUnlock o.vn
  match r with
  | .error e => removeRetUnlock ove dve atVe (.error e)
  | .ok ve => do
    onFs (vcachePut ((rpath.writeChar slash).write name).data ve)
    onFs (veRelease ve)
    removeRetUnlock ove dve atVe (.ok ())

/-- `fs_link`. If the new path cannot be resolved, the entry of the old one stays locked. -/
def fsLink (fuel : Nat) (oldpath newpath : Str) : SysM (Except Errno Unit) := do
  let atVe ← onFs getPwd
  let old ← vresolve fuel atVe oldpath vrNotdir none
  match old.res with
  | .error e => removeRet old.ve 0 atVe (.error e)
  | .ok () => do
    let out ← vresolve fuel atVe newpath vrExclusv (some (Sbuf.init pathMax))
    match out.res with
    | .error e => removeRet old.ve out.ve atVe (.error e)
    | .ok () =>
      linkVe old.ve out.ve atVe (cstrBasename newpath) (out.fullpath.getD (Sbuf.init pathMax))

/-! ## `fs_readlink` -/

/-- `fs_readlink`, into a buffer that holds `buf`. -/
def fsReadlink (fuel : Nat) (path buf : Str) : SysM (Except Errno Unit × Str) := do
  let atVe ← onFs getPwd
  let out ← vresolve fuel atVe path vrLnk none
  match out.res with
  | .error e => do
    let r ← pathRet out.ve atVe (.error e)
    pure (r, buf)
  | .ok () => do
    let e ← onFs (getVe out.ve)
    let (r, kio) ← onFs (vnReadlink e.vn (Kio.newWritable buf))
    veUnlock out.ve
    let r ← pathRet out.ve atVe r
    pure (r, kio.bytes)

end Osdev.Vfs
