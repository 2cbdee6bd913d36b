import Osdev.Vfs.Fs

/-!
# Reading directories (`fs/ramfs/ramfs_vnops.c`, `kernel/vfs/fs.c`)

`fs_readdir` fills a buffer with records of one size, so the buffer is modelled by the list of the
records in it. The size of a record comes from a header of the C library and is a parameter.
-/

namespace Osdev.Vfs

/-- The values of `d_type`. -/
inductive DType where
  | unknown
  | reg
  | dir
  | lnk
  | chr
  | blk
  | fifo
  | sock
  deriving DecidableEq, Repr

/-- `vtype_to_dtype`. -/
def vtypeToDtype : VType → DType
  | .reg => .reg
  | .dir => .dir
  | .lnk => .lnk
  | .chr => .chr
  | .blk => .blk
  | .fifo => .fifo
  | .sock => .sock
  | .none => .unknown

/-- `struct dirent`, with the bytes of `d_name` up to the zero that was written to it. -/
structure Dirent where
  ino : Nat
  off : Int
  type : DType
  dName : Str
  deriving DecidableEq, Repr

/-- The name in a record, as a C string. -/
def Dirent.name (d : Dirent) : Str := d.dName.takeWhile (· ≠ 0)

/-- The length of the array `d_name`. -/
def dNameLen : Nat := 256

/-- `cstr_memcpy` to an array of `len` bytes. The zero is written at `min(cstr_len + 1, len)`, so
the byte right behind the name stays what it was, `stale`. -/
def cstrMemcpy (s : Str) (stale : UInt8) (len : Nat) : Str :=
  if s.length + 1 ≤ len then s ++ [stale, 0] else s ++ [0]

/-- The `kio_t` of `fs_readdir`: the size of a record and of the buffer, what the stack holds behind
the name where a record is put together, and the records that have been written. -/
structure Dirbuf where
  reclen : Nat
  size : Nat
  stale : Nat → UInt8
  records : List Dirent

/-- `kio_remaining`. -/
def Dirbuf.remaining (b : Dirbuf) : Nat := b.size - b.records.length * b.reclen

/-- `kio_write_dirent`. A name that is longer than the array is written beyond its end. -/
def kioWriteDirent (ino : Nat) (off : Int) (type : VType) (name : Str) (buf : Dirbuf) :
    FsM (Nat × Dirbuf) :=
  if name.length > dNameLen then throw .outOfBounds
  else if buf.remaining < buf.reclen then pure (0, buf)
  else
    let dName := cstrMemcpy name (buf.stale buf.records.length) dNameLen
    pure (buf.reclen, { buf with records := buf.records ++ [⟨ino, off, vtypeToDtype type, dName⟩] })

/-- The loop of `ramfs_vn_readdir`. -/
def readdirLoop (off : Nat) : List Nat → Nat → Dirbuf → FsM (Nat × Dirbuf)
  | [], i, buf => pure (i, buf)
  | d :: ds, i, buf =>
    -- get to the right offset
    if i < off then readdirLoop off ds (i + 1) buf
    else do
      let dent ← getDentry d
      let node ← getNode dent.node
      let (n, buf) ← kioWriteDirent node.id i node.type dent.name buf
      if n = 0 then pure (i, buf) else readdirLoop off ds (i + 1) buf

/-- The part of `ramfs_vn_readdir` for the entries of the directory. -/
def readdirEntries (dir : Vnode) (off i : Nat) (buf : Dirbuf) : FsM (Nat × Dirbuf) := do
  let node ← getNode dir.data
  readdirLoop off node.dir i buf

/-- The part of `ramfs_vn_readdir` for `..`. -/
def readdirDotdot (dir : Vnode) (off i : Nat) (buf : Dirbuf) : FsM (Nat × Dirbuf) :=
  if off ≤ 1 then do
    let (n, buf) ← kioWriteDirent dir.parentId off .dir [dot, dot] buf
    if n = 0 then pure (i, buf) else readdirEntries dir off (i + 1) buf
  else readdirEntries dir (off - 2) i buf

/-- `ramfs_vn_readdir`, for an offset that is not negative. The entries that are skipped count in
the result. -/
def ramfsVnReaddir (dir : Vnode) (off : Nat) (buf : Dirbuf) : FsM (Nat × Dirbuf) :=
  if off = 0 then do
    let (n, buf) ← kioWriteDirent dir.id off .dir [dot] buf
    if n = 0 then pure (0, buf) else readdirDotdot dir off 1 buf
  else readdirDotdot dir off 0 buf

/-- `vn_readdir`. Both file systems have `ramfs_vn_readdir` as the operation. -/
def vnReaddir (vn : Nat) (off : Int) (buf : Dirbuf) : FsM (Except Errno Nat × Dirbuf) := do
  let n ← getVn vn
  if n.type ≠ .dir then pure (.error .enotdir, buf)
  else do
    let _ ← vnOps n
    if off < 0 then pure (.error .einval, buf)
    else do
      let (i, buf) ← ramfsVnReaddir n off.toNat buf
      pure (.ok i, buf)

/-- `fs_opendir`. -/
def fsOpendir (fuel : Nat) (path : Str) : SysM (Except Errno Int) := do
  let atVe ← onFs getPwd
  let out ← vresolve fuel atVe path vrDir (some (Sbuf.init pathMax))
  match out.res with
  | .error e => pathRet out.ve atVe (.error e)
  | .ok () => do
    let p ← onFs getCurproc
    let fd ← onFs (ftableAllocFd p.files)
    if fd < 0 then do
      veUnlock out.ve
      pathRet out.ve atVe (.error .emfile)
    else do
      let e ← onFs (getVe out.ve)
      let _ ← vnLock e.vn
      let n ← onFs (getVn e.vn)
      onFs (setVn e.vn { n with nopen := n.nopen + 1 })
      vnUnlock e.vn
      let file ← onFs (fAlloc fd oRdonly e.vn (out.fullpath.getD (Sbuf.init pathMax)).data)
      onFs (ftableAddFile p.files file)
      veUnlock out.ve
      pathRet out.ve atVe (.ok fd)

/-- The part of `fs_readdir` with the file locked. -/
def readdirLocked (reclen file vn len : Nat) (stale : Nat → UInt8) :
    SysM (Except Errno Nat × List Dirent) := do
  let f ← onFs (getFile file)
  let (r, buf) ← onFs (vnReaddir vn f.offset ⟨reclen, len, stale, []⟩)
  match r with
  | .error e => fileRetUnlock file (.error e, [])
  | .ok n => do
    onFs (advance file (.ok n))
    fileRetUnlock file (.ok (buf.records.length * reclen), buf.records)

/-- `fs_readdir` into a buffer of `len` bytes: what it returns, and the records in the buffer. -/
def fsReaddir (reclen : Nat) (fd : Int) (len : Nat) (stale : Nat → UInt8) :
    SysM (Except Errno Nat × List Dirent) := do
  let file ← onFs (curFile fd)
  if file = 0 then pure (.error .ebadf, [])
  else do
    let f ← onFs (getFile file)
    let n ← onFs (getVn f.vnode)
    if n.type ≠ .dir then fileRet file (.error .enotdir, [])
    else do
      if ← fLock file then readdirLocked reclen file f.vnode len stale
      else fileRet file (.error .ebadf, [])

end Osdev.Vfs
