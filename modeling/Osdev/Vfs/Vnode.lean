import Osdev.Vfs.Ramfs

/-!
# Operations on vnodes (`kernel/vfs/vnode.c`)
-/

namespace Osdev.Vfs

/-- `NAME_MAX`. -/
def nameMax : Nat := 255

/-- `PATH_MAX`. -/
def pathMax : Nat := 4096

/-- `VN_OPS`. -/
def vnOps (n : Vnode) : FsM VnOps :=
  match n.ops with
  | none => throw .null
  | some ops => pure ops

/-! ## Files -/

/-- `vn_open`. No file system has an operation for it. -/
def vnOpen (vn : Nat) : FsM (Except Errno Unit) := do
  let n ← getVn vn
  let _ ← vnOps n
  pure (.ok ())

/-- `vn_read`. -/
def vnRead (vn : Nat) (off : Int) (kio : Kio) : FsM (Except Errno Nat × Kio) := do
  let n ← getVn vn
  let ops ← vnOps n
  if off < 0 then pure (.error .einval, kio)
  else if n.size ≤ off.toNat then pure (.ok 0, kio)
  else match ops with
    | .ramfs => ramfsVnRead n off.toNat kio
    | .initrd => initrdVnRead n off.toNat kio

/-- `vn_write`. -/
def vnWrite (vn : Nat) (off : Int) (kio : Kio) : FsM (Except Errno Nat × Kio) := do
  let n ← getVn vn
  let v ← getVfs n.vfs
  if v.rdonly then pure (.error .erofs, kio)
  else do
    let ops ← vnOps n
    if ops = .initrd then pure (.error .enotsup, kio)
    else if off < 0 then pure (.error .einval, kio)
    else if n.size ≤ off.toNat then pure (.ok 0, kio)
    else ramfsVnWrite n off.toNat kio

/-- `vn_load`. No file system has an operation for it. -/
def vnLoad (vn : Nat) : FsM Unit := do
  let n ← getVn vn
  if n.loaded then pure ()
  else do
    let _ ← vnOps n
    pure ()

/-- The first part of `vn_readlink`: the link is read from the file system once. -/
def vnReadlinkCached (vn : Nat) : FsM (Except Errno Str) := do
  let n ← getVn vn
  let _ ← vnOps n
  if n.vLink.length = 0 then do
    let (r, kio) ← ramfsVnReadlink n (Kio.newWritable (List.replicate n.size 0))
    match r with
    | .error e => pure (.error e)
    | .ok () => do
      setVn vn { n with vLink := kio.bytes }
      pure (.ok kio.bytes)
  else pure (.ok n.vLink)

/-- `vn_readlink`. -/
def vnReadlink (vn : Nat) (kio : Kio) : FsM (Except Errno Unit × Kio) := do
  match ← vnReadlinkCached vn with
  | .error e => pure (.error e, kio)
  | .ok link => do
    let (_, kio) ← ofKio (kio.transfer link)
    pure (.ok (), kio)

/-- The fields of `struct stat` that are set. -/
structure Stat where
  ino : Nat
  mode : Nat
  size : Nat
  nlink : Nat
  rdev : Nat
  dev : Nat

/-- `vn_to_mode`. -/
def vnToMode (n : Vnode) : FsM Nat :=
  match n.type with
  | .reg => pure 0o100000
  | .dir => pure 0o040000
  | .lnk => pure sIflnk
  | .blk => pure sIfblk
  | .chr => pure sIfchr
  | .fifo => pure 0o010000
  | .sock => pure 0o140000
  | .none => throw .panic

/-- `make_dev`. -/
def makeDev (device : Nat) : FsM Nat :=
  if device = 0 then pure 0
  else do
    let d ← getDevice device
    pure d.devt

/-- The device number of a device node. -/
def nodeDev (n : Vnode) : FsM Nat := if n.type.isDev then makeDev n.vDev else pure 0

/-- `vn_stat`. -/
def vnStat (vn : Nat) : FsM Stat := do
  let n ← getVn vn
  let mode ← vnToMode n
  let rdev ← makeDev n.device
  let dev ← nodeDev n
  pure { ino := n.id, mode, size := n.size, nlink := n.nlink, rdev, dev }

/-! ## Directories -/

/-- The loop of `vn_lookup` over the entries that are already there. -/
def findChild (name : Str) : List Nat → FsM Nat
  | [] => pure 0
  | c :: cs => do
    if ← veCmpCstr c name then pure c else findChild name cs

/-- The end of the functions that make an entry: it is added to its directory. -/
def addEntry (dve vfs ve : Nat) : FsM Unit := do
  assertNewVentryValid ve
  veAddChild dve ve
  vfsAddNode vfs ve

/-- The part of `vn_lookup` that asks the file system. -/
def vnLookupFs (dve : Nat) (d : Vnode) (name : Str) : FsM (Except Errno Nat) := do
  let v ← getVfs d.vfs
  if v.state = .dead then pure (.error .eio)
  else do
    let _ ← vnOps d
    match ← ramfsVnLookup d name with
    | .error e => pure (.error e)
    | .ok ve => do
      addEntry dve d.vfs ve
      pure (.ok ve)

/-- `vn_lookup`. -/
def vnLookup (dve dvn : Nat) (name : Str) : FsM (Except Errno Nat) := do
  let d ← getVn dvn
  if d.type ≠ .dir then pure (.error .enotdir)
  else if name.length > nameMax then pure (.error .enametoolong)
  else do
    let de ← getVe dve
    let child ← findChild name de.children
    if child ≠ 0 then do
      veGetref child
      pure (.ok child)
    else vnLookupFs dve d name

/-- The checks `CHECK_WRITE`, `CHECK_DIR` and `CHECK_NAMELEN` of the functions that make an entry,
and the test for an operation that only `ramfs` has. -/
def checkCreate (d : Vnode) (names : List Str) : FsM (Except Errno Unit) := do
  let v ← getVfs d.vfs
  if v.rdonly then pure (.error .erofs)
  else if d.type ≠ .dir then pure (.error .enotdir)
  else if names.any fun name => name.length > nameMax then pure (.error .enametoolong)
  else do
    let ops ← vnOps d
    if ops ≠ .ramfs then pure (.error .enotsup) else pure (.ok ())

/-- The rest of these functions: `make` is the operation of the file system, and `add` adds the
entry to its directory. -/
def vnMakeChecked (d : Vnode) (make : FsM (Except Errno Nat)) (add : Nat → FsM Unit) :
    FsM (Except Errno Nat) := do
  let v ← getVfs d.vfs
  if v.state = .dead then pure (.error .eio)
  else do
    match ← make with
    | .error e => pure (.error e)
    | .ok ve => do
      add ve
      pure (.ok ve)

/-- The common part of `vn_create`, `vn_mkdir` and `vn_symlink`. -/
def vnMake (dve dvn : Nat) (names : List Str) (make : Vnode → FsM (Except Errno Nat)) :
    FsM (Except Errno Nat) := do
  let d ← getVn dvn
  match ← checkCreate d names with
  | .error e => pure (.error e)
  | .ok () => vnMakeChecked d (make d) (addEntry dve d.vfs)

/-- `vn_create`. -/
def vnCreate (dve dvn : Nat) (name : Str) (mode : Nat) : FsM (Except Errno Nat) :=
  vnMake dve dvn [name] fun d => ramfsVnCreate d name ⟨.reg, mode⟩

/-- `vn_mkdir`. -/
def vnMkdir (dve dvn : Nat) (name : Str) (mode : Nat) : FsM (Except Errno Nat) :=
  vnMake dve dvn [name] fun d => ramfsVnMkdir d name ⟨.dir, mode⟩

/-- `vn_symlink`. -/
def vnSymlink (dve dvn : Nat) (name target : Str) : FsM (Except Errno Nat) :=
  vnMake dve dvn [name, target] fun d => ramfsVnSymlink d name ⟨.lnk, sIflnk⟩ target

/-- The type that `vn_mknod` reads from the mode. A bit of `S_IFBLK` is enough for a block device,
and `S_IFCHR` is one. -/
def mknodType (mode : Nat) : Option VType :=
  if mode &&& sIfblk ≠ 0 then some .blk
  else if mode &&& sIfchr ≠ 0 then some .chr
  else none

/-- `device_get`. -/
def deviceGet (dev : Nat) : FsM Nat := fun s => .ok (s.devTree dev, s)

/-- The end of `vn_mknod`. -/
def addDevice (dve vfs dev ve : Nat) : FsM Unit := do
  assertNewVentryValid ve
  let e ← getVe ve
  let vDev ← deviceGet dev
  let n ← getVn e.vn
  setVn e.vn { n with vDev }
  veAddChild dve ve
  vfsAddNode vfs ve

/-- `vn_mknod`. -/
def vnMknod (dve dvn : Nat) (name : Str) (mode dev : Nat) : FsM (Except Errno Nat) := do
  let d ← getVn dvn
  match ← checkCreate d [name] with
  | .error e => pure (.error e)
  | .ok () =>
    match mknodType mode with
    | none => pure (.error .einval)
    | some type => vnMakeChecked d (ramfsVnMknod d name ⟨type, mode⟩) (addDevice dve d.vfs dev)

/-- The end of `vn_hardlink`. -/
def addLink (dve ve : Nat) : FsM Unit := do
  assertNewVentryValid ve
  veAddChild dve ve

/-- `vn_hardlink`. -/
def vnHardlink (dve dvn : Nat) (name : Str) (target : Nat) : FsM (Except Errno Nat) := do
  let d ← getVn dvn
  let t ← getVn target
  if d.vfs ≠ t.vfs then pure (.error .exdev)
  else do
    let v ← getVfs d.vfs
    if v.rdonly then pure (.error .erofs)
    else if name.length > nameMax then pure (.error .enametoolong)
    else do
      let ops ← vnOps d
      if ops ≠ .ramfs then pure (.error .enotsup)
      else vnMakeChecked d (ramfsVnHardlink d name target) (addLink dve)

/-- The part of `vn_unlink` in which a vnode dies with its last link. -/
def dropLastLink (vfs ve vn : Nat) : FsM Unit := do
  let n ← getVn vn
  if n.nlink = 1 then do
    vfsRemoveNode vfs vn
    let _ ← veSyncvn ve
    pure ()
  else pure ()

/-- `vn_unlink`. -/
def vnUnlink (dve dvn ve vn : Nat) : FsM (Except Errno Unit) := do
  let d ← getVn dvn
  let n ← getVn vn
  if d.vfs ≠ n.vfs then pure (.error .exdev)
  else do
    let v ← getVfs d.vfs
    if v.rdonly then pure (.error .erofs)
    else if d.type ≠ .dir then pure (.error .enotdir)
    else do
      let ops ← vnOps d
      if ops ≠ .ramfs then pure (.error .enotsup)
      else if v.state = .dead then pure (.error .eio)
      else do
        let _ ← ramfsVnRemove d ve
        dropLastLink d.vfs ve vn
        veRemoveChild dve ve
        veUnlinkVnode ve vn
        pure (.ok ())

/-- `vn_rmdir`. -/
def vnRmdir (dve dvn ve vn : Nat) : FsM (Except Errno Unit) := do
  let n ← getVn vn
  if n.type ≠ .dir then pure (.error .enotdir)
  else do
    let d ← getVn dvn
    let v ← getVfs d.vfs
    if v.rdonly then pure (.error .erofs)
    else do
      let ops ← vnOps d
      if ops ≠ .ramfs then pure (.error .enotsup)
      else if v.state = .dead then pure (.error .eio)
      else do
        let _ ← ramfsVnRemove d ve
        veRemoveChild dve ve
        vfsRemoveNode d.vfs vn
        let _ ← veSyncvn ve
        veUnlinkVnode ve vn
        pure (.ok ())

end Osdev.Vfs
