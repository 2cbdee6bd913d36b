import Osdev.Vfs.File
import Osdev.Vfs.Vcache

/-!
# Mounting, and the state after `fs_init` (`kernel/vfs/vfs.c`, `fs/ramfs/ramfs_vfsops.c`)
-/

namespace Osdev.Vfs

/-- `vfs_alloc`. -/
def vfsAlloc (rdonly : Bool) : FsM Nat := do
  let s ← get
  set { s with uniqueVfsId := s.uniqueVfsId + 1 }
  newVfs
    { id := s.uniqueVfsId, state := .empty, rdonly, data := 0, refcount := 1, vtable := fun _ => 0
      vtableCount := 0, rootVe := 0, device := 0, vnodes := [] }

/-- `ramfs_alloc_mount`. -/
def ramfsAllocMount : FsM Nat := do
  let mount ← newMount ⟨0, 1⟩
  let root ← ramfsAllocNode mount ⟨.dir, 0o755⟩
  let m ← getMount mount
  setMount mount { m with root }
  pure mount

/-- `ramfs_vfs_mount`. -/
def ramfsVfsMount (vfs : Nat) : FsM (Except Errno Nat) := do
  let mount ← ramfsAllocMount
  let v ← getVfs vfs
  setVfs vfs { v with data := mount }
  let vn ← vnAlloc 1 .dir
  let m ← getMount mount
  let n ← getVn vn
  setVn vn { n with data := m.root }
  let ve ← veAllocLinked rootPath vn
  vnRelease vn
  pure (.ok ve)

/-- The reference to the root that a mount point gets. -/
def shadowMount (vfs mount : Nat) : FsM Nat :=
  if vfs = 0 then pure mount
  else do
    let v ← getVfs vfs
    veGetref v.rootVe
    pure v.rootVe

/-- `ve_shadow_mount`. -/
def veShadowMount (mountVe rootVn : Nat) : FsM Unit := do
  let r ← getVn rootVn
  kassert (r.vShadow == 0)
  let m ← getVe mountVe
  kassert (m.chldCount == 0)
  setVn rootVn { r with vShadow := m.vn, isRoot := true }
  veRelease m.mount
  let mount ← shadowMount r.vfs m.mount
  let m ← getVe mountVe
  setVe mountVe { m with mount, vn := rootVn, isMount := true }
  let _ ← veSyncvn mountVe
  pure ()

/-- `vfs_lock` for the file system of a mount point. -/
def hostAlive (vfs : Nat) : FsM Bool :=
  if vfs = 0 then pure true
  else do
    let v ← getVfs vfs
    pure (v.state != .dead)

/-- `device->dtype != D_BLK`, for a device that is there. -/
def notBlk (device : Nat) : FsM Bool :=
  if device = 0 then pure false
  else do
    let d ← getDevice device
    pure (!d.isBlk)

/-- The part of `vfs_mount` after the file system has made its root. -/
def mountRoot (vfs device mountVe rootVe : Nat) : FsM Unit := do
  assertNewVentryValid rootVe
  veGetref mountVe
  let m ← getVe mountVe
  let r ← getVe rootVe
  setVe rootVe { r with parent := mountVe }
  let n ← getVn r.vn
  setVn r.vn { n with isRoot := true, parentId := m.id }
  let v ← getVfs vfs
  setVfs vfs { v with state := .alive, rootVe, device }
  vfsAddNode vfs rootVe
  veShadowMount mountVe r.vn

/-- `vfs_mount`, where `mount` is the operation of the file system. -/
def vfsMount (mount : Nat → FsM (Except Errno Nat)) (vfs device mountVe : Nat) :
    FsM (Except Errno Unit) := do
  let m ← getVe mountVe
  if m.type ≠ .dir then pure (.error .enotdir)
  else if m.isMount then pure (.error .ebusy)
  else if m.chldCount > 0 then pure (.error .enotempty)
  else do
    if ← notBlk device then pure (.error .enotblk)
    else do
      let n ← getVn m.vn
      if ← hostAlive n.vfs then do
        match ← mount vfs with
        | .error e => pure (.error e)
        | .ok rootVe => do
          mountRoot vfs device mountVe rootVe
          pure (.ok ())
      else pure (.error .einval)

/-- `vcache_alloc`. -/
def vcacheAlloc (root : Nat) : FsM Unit := do
  veGetref root
  setVcache { root, size := 0, entries := fun _ => [], dirMap := fun _ => none }

/-- The root entry of `fs_init`. -/
def rootEntry : FsM Nat := do
  let rootVn ← vnAlloc 0 .dir
  let n ← getVn rootVn
  setVn rootVn { n with state := .alive }
  let root ← veAllocLinked rootPath rootVn
  let e ← getVe root
  setVe root { e with state := .alive, isFsroot := true }
  pure root

/-- `fs_init`. -/
def fsInit : FsM Unit := do
  let root ← rootEntry
  let e ← getVe root
  let vfs ← vfsAlloc false
  match ← vfsMount ramfsVfsMount vfs 0 root with
  | .error _ => throw .panic
  | .ok () => do
    veGetref root
    let r ← getVe root
    setVe root { r with parent := root }
    vcacheAlloc root
    vnRelease e.vn
    vfsRelease vfs
    let s ← get
    let p ← getProc s.curproc
    veGetref root
    setProc s.curproc { p with pwd := root }

/-- `ftable_alloc`. -/
def ftableAlloc : FsM Nat :=
  newFtable ⟨fun _ => 0, Bmp.createBitmap (fun _ => 0) 0 ftableMaxFiles, 0⟩

/-- The state before `fs_init`, with the hash function `hash` for paths and no process. -/
def bareFs (hash : Str → Nat) : Fs where
  ventry _ := none
  vnode _ := none
  vfs _ := none
  mount _ := none
  node _ := none
  dentry _ := none
  memfile _ := none
  device _ := none
  devTree _ := 0
  file _ := none
  ftable _ := none
  proc _ := none
  curproc := 0
  vcache := ⟨0, 0, fun _ => [], fun _ => none⟩
  hash := hash
  uniqueVfsId := 1
  brk := 1

/-- A first process, and `fs_init`. -/
def boot : FsM Unit := do
  let files ← ftableAlloc
  let proc ← newProc ⟨0, files⟩
  modify fun s => { s with curproc := proc }
  fsInit

/-- A hash function for runs. -/
def sumHash (path : Str) : Nat := path.foldl (fun h c => 31 * h + c.toNat) 7

end Osdev.Vfs
