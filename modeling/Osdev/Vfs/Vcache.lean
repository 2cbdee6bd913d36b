import Osdev.Vfs.Ventry

/-!
# The cache of paths (`kernel/vfs/vcache.c`)

Entries are kept under the text of a path. A cached directory also has a list of the hashes of the
entries below it.
-/

namespace Osdev.Vfs

/-- `VCACHE_INITIAL_SIZE`, the number of buckets. -/
def vcacheCapacity : Nat := 1024

/-- The condition of `vcache_find_entry`. -/
def VcEntry.matches (path : Str) (hash : Nat) (e : VcEntry) : Bool :=
  e.hash == hash && cstrEq e.path path

namespace Vcache

/-- `vcache_find_entry`. -/
def findEntry (c : Vcache) (path : Str) (hash : Nat) : Option VcEntry :=
  (c.entries (hash % vcacheCapacity)).find? (VcEntry.matches path hash)

/-- `vcache_insert_entry`. -/
def insertEntry (c : Vcache) (e : VcEntry) : Vcache :=
  { c with
    entries := Function.update c.entries (e.hash % vcacheCapacity)
      (c.entries (e.hash % vcacheCapacity) ++ [e])
    size := c.size + 1 }

/-- `vcache_remove_entry`, of the entry that `vcache_find_entry` finds. -/
def removeEntry (c : Vcache) (path : Str) (hash : Nat) : Vcache :=
  { c with
    entries := Function.update c.entries (hash % vcacheCapacity)
      ((c.entries (hash % vcacheCapacity)).eraseP (VcEntry.matches path hash))
    size := subWord c.size 1 }

/-- Storing the children of a directory. -/
def setDir (c : Vcache) (id : Nat) (dir : Option (List Nat)) : Vcache :=
  { c with dirMap := Function.update c.dirMap id dir }

end Vcache

/-- `"/"`. -/
def rootPath : Str := [slash]

/-- One round of the loop of `vcache_invalidate_nolock` over the children of a directory, for the
child hash `h` before `hs`; `invalidate` is the function itself. The entry of the child is searched
under the path of the directory. -/
def invalidateChild (invalidate : Str → FsM Unit) (c : Vcache) (path : Str) (id h : Nat)
    (hs : List Nat) : FsM Unit :=
  match c.findEntry path h with
  | some child => invalidate child.path
  | none => setVcache (c.setDir id (some hs))

/-- The loop of `vcache_invalidate_nolock` over the children of a directory. -/
def invalidateChildren (invalidate : Str → FsM Unit) (path : Str) (id : Nat) : Nat → FsM Unit
  | 0 => throw .diverged
  | fuel + 1 => do
    let c ← getVcache
    match c.dirMap id with
    | none => throw .freed
    | some [] => pure ()
    | some (h :: hs) => do
      invalidateChild invalidate c path id h hs
      invalidateChildren invalidate path id fuel

/-- The part of `vcache_invalidate_nolock` for directories. -/
def invalidateDir (invalidate : Str → FsM Unit) (path : Str) (ve : Ventry) : FsM Unit :=
  if ve.type = .dir then do
    let c ← getVcache
    match c.dirMap (veUniqueId ve) with
    | none => throw .assertion
    | some hs => do
      invalidateChildren invalidate path (veUniqueId ve) (hs.length + 1)
      let c ← getVcache
      setVcache (c.setDir (veUniqueId ve) none)
  else pure ()

/-- The end of `vcache_invalidate_nolock`: the hash goes out of the directory above. -/
def removeFromParent (path : Str) (hash : Nat) : FsM Unit :=
  if cstrEq path rootPath then pure ()
  else do
    let parentHash ← hashOf (cstrDirname path)
    let c ← getVcache
    match c.findEntry (cstrDirname path) parentHash with
    | none => pure ()
    | some parent => do
      let pe ← getVe parent.ve
      match c.dirMap (veUniqueId pe) with
      | none => throw .null
      | some hs => setVcache (c.setDir (veUniqueId pe) (some (hs.erase hash)))

/-- `vcache_invalidate_nolock`. -/
def vcacheInvalidateLoop : Nat → Str → FsM Unit
  | 0, _ => throw .diverged
  | fuel + 1, path => do
    let hash ← hashOf path
    let c ← getVcache
    match c.findEntry path hash with
    | none => pure ()
    | some entry => do
      let ve ← getVe entry.ve
      invalidateDir (vcacheInvalidateLoop fuel) path ve
      let c ← getVcache
      setVcache (c.removeEntry path hash)
      veRelease entry.ve
      removeFromParent path hash

/-- `vcache_invalidate`. Each level of the recursion has an entry of its own. -/
def vcacheInvalidate (path : Str) : FsM Unit := do
  let c ← getVcache
  vcacheInvalidateLoop (c.size + 2) path

/-- `vcache_get`: a new reference to the entry, or `NULL`. -/
def vcacheGet (path : Str) : FsM Nat := do
  let hash ← hashOf path
  let c ← getVcache
  match c.findEntry path hash with
  | none => pure 0
  | some entry => do
    let ve ← getVe entry.ve
    if ve.state = .dead then do
      vcacheInvalidate path
      pure 0
    else do
      veGetref entry.ve
      pure entry.ve

/-- The part of `vcache_put_nolock` for directories. -/
def putDir (ve : Ventry) : FsM Unit :=
  if ve.type = .dir then do
    let c ← getVcache
    if c.dirMap (veUniqueId ve) ≠ none then throw .panic
    else setVcache (c.setDir (veUniqueId ve) (some []))
  else pure ()

/-- The end of `vcache_put_nolock`: the hash goes into the directory above. -/
def addToParent (path : Str) (hash : Nat) : FsM Unit :=
  if cstrEq path rootPath then pure ()
  else do
    let parentHash ← hashOf (cstrDirname path)
    let c ← getVcache
    match c.findEntry (cstrDirname path) parentHash with
    | none => pure ()
    | some parent => do
      let pe ← getVe parent.ve
      match c.dirMap (veUniqueId pe) with
      | none => throw .null
      | some hs => setVcache (c.setDir (veUniqueId pe) (some (hs ++ [hash])))

/-- The second half of `vcache_put_nolock`: a new entry. -/
def vcachePutNew (path : Str) (hash ve : Nat) : FsM Unit := do
  let e ← getVe ve
  putDir e
  veGetref ve
  let c ← getVcache
  setVcache (c.insertEntry ⟨path, hash, ve⟩)
  addToParent path hash

/-- `vcache_put_nolock`. -/
def vcachePutNolock (path : Str) (ve : Nat) : FsM Unit := do
  let hash ← hashOf path
  let c ← getVcache
  match c.findEntry path hash with
  | none => vcachePutNew path hash ve
  | some entry =>
    if entry.ve = ve then pure ()
    else do
      vcacheInvalidate path
      vcachePutNew path hash ve

/-- `vcache_put`. -/
def vcachePut (path : Str) (ve : Nat) : FsM Unit := do
  let e ← getVe ve
  if e.state = .dead then pure ()
  else if cstrStartsWith path slash = false then pure ()
  else vcachePutNolock path ve

end Osdev.Vfs
