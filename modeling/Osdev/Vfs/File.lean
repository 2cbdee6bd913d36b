import Osdev.Vfs.Vnode

/-!
# Open files and tables of descriptors (`kernel/vfs/file.c`)
-/

namespace Osdev.Vfs

/-- `FTABLE_MAX_FILES`. -/
def ftableMaxFiles : Nat := 1024

/-- The key of a descriptor in the tree: an `int` as a 64-bit word. -/
def fdKey (fd : Int) : Nat := (fd % (word : Int)).toNat

/-! ## Files -/

/-- `f_alloc`. -/
def fAlloc (fd : Int) (flags : Flags) (vnode : Nat) (realPath : Str) : FsM Nat := do
  let n ← getVn vnode
  vnGetref vnode
  newFile
    { fd, flags, type := n.type, vnode, realPath, refcount := 1, offset := 0, closed := false }

/-- `f_cleanup`. -/
def fCleanup (p : Nat) : FsM Unit := do
  let f ← getFile p
  kassert f.closed
  vnRelease f.vnode
  freeFile p

/-- `f_release`. -/
def fRelease (p : Nat) : FsM Unit :=
  if p = 0 then pure ()
  else do
    let f ← getFile p
    setFile p { f with refcount := f.refcount - 1 }
    if f.refcount = 1 then fCleanup p else pure ()

/-- `f_getref`. -/
def fGetref (p : Nat) : FsM Unit :=
  if p = 0 then pure ()
  else do
    let f ← getFile p
    setFile p { f with refcount := f.refcount + 1 }

/-! ## Tables of descriptors -/

/-- `ftable_alloc_fd`; `-1` if the bitmap has no free bit. -/
def ftableAllocFd (ftable : Nat) : FsM Int := do
  let t ← getFtable ftable
  let (fd, bitmap) := Bmp.bitmapGetSetFree t.bitmap
  setFtable ftable { t with bitmap }
  pure fd

/-- `ftable_claim_fd`; `-1` if the descriptor is taken. -/
def ftableClaimFd (ftable : Nat) (fd : Int) : FsM Int :=
  if fd < 0 then pure (-1)
  else do
    kassert (fd < ftableMaxFiles)
    let t ← getFtable ftable
    if ← ofBitmap (Bmp.bitmapGet t.bitmap fd.toNat) then pure (-1)
    else do
      let (_, bitmap) ← ofBitmap (Bmp.bitmapSet t.bitmap fd.toNat)
      setFtable ftable { t with bitmap }
      pure fd

/-- `ftable_free_fd`. -/
def ftableFreeFd (ftable : Nat) (fd : Int) : FsM Unit :=
  if fd < 0 then pure ()
  else do
    kassert (fd < ftableMaxFiles)
    let t ← getFtable ftable
    let (_, bitmap) ← ofBitmap (Bmp.bitmapClear t.bitmap fd.toNat)
    setFtable ftable { t with bitmap }

/-- `ftable_get_file`: a new reference to the file, or `NULL`. -/
def ftableGetFile (ftable : Nat) (fd : Int) : FsM Nat := do
  let t ← getFtable ftable
  fGetref (t.tree (fdKey fd))
  pure (t.tree (fdKey fd))

/-- `ftable_add_file`. -/
def ftableAddFile (ftable file : Nat) : FsM Unit := do
  let f ← getFile file
  kassert (0 ≤ f.fd && f.fd < ftableMaxFiles)
  let t ← getFtable ftable
  if t.tree (fdKey f.fd) ≠ 0 then throw .panic
  else
    setFtable ftable { t with
      tree := Function.update t.tree (fdKey f.fd) file, count := t.count + 1 }

/-- `ftable_remove_file`. -/
def ftableRemoveFile (ftable : Nat) (fd : Int) : FsM Unit := do
  kassert (0 ≤ fd && fd < ftableMaxFiles)
  let t ← getFtable ftable
  let file := t.tree (fdKey fd)
  if file = 0 then throw .panic
  else do
    setFtable ftable { t with
      tree := Function.update t.tree (fdKey fd) 0, count := subWord t.count 1 }
    fRelease file

end Osdev.Vfs
