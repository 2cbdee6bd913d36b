import Osdev.Vfs.Ventry

/-!
# The in-memory file system (`fs/ramfs`) and the operations of `fs/initrd`

The mapping behind a `memfile` is its bytes. `memfile_alloc` maps zeroed memory.
-/

namespace Osdev.Vfs

/-- `struct vattr`. -/
structure Vattr where
  type : VType
  mode : Nat

/-- `S_IFCHR`. -/
def sIfchr : Nat := 0o020000

/-- `S_IFBLK`. -/
def sIfblk : Nat := 0o060000

/-- `S_IFLNK`. -/
def sIflnk : Nat := 0o120000

/-! ## Nodes -/

/-- `ramfs_alloc_node`. -/
def ramfsAllocNode (mount : Nat) (attr : Vattr) : FsM Nat := do
  let m ← getMount mount
  setMount mount { m with nextId := (m.nextId + 1) % 2 ^ 32 }
  newNode
    { id := m.nextId, type := attr.type, mode := attr.mode, size := 0, data := none
      parent := 0, mount, ops := none, link := [], file := 0, dir := [] }

/-- `ramfs_alloc_dentry`. -/
def ramfsAllocDentry (node : Nat) (name : Str) : FsM Nat := newDentry ⟨name, node⟩

/-- `ramfs_add_dentry`. -/
def ramfsAddDentry (dir dentry : Nat) : FsM Unit := do
  let d ← getNode dir
  kassert (d.type == .dir)
  let e ← getDentry dentry
  let n ← getNode e.node
  setNode e.node { n with parent := dir }
  let d ← getNode dir
  setNode dir { d with dir := d.dir ++ [dentry] }

/-- `ramfs_remove_dentry`. -/
def ramfsRemoveDentry (dir dentry : Nat) : FsM Unit := do
  let d ← getNode dir
  kassert (d.type == .dir)
  let e ← getDentry dentry
  let n ← getNode e.node
  kassert (n.parent == dir)
  setNode e.node { n with parent := 0 }
  let d ← getNode dir
  setNode dir { d with dir := d.dir.erase dentry }

/-- `LIST_FIND` in `ramfs_lookup_dentry`. -/
def findDentry (name : Str) : List Nat → FsM Nat
  | [] => pure 0
  | d :: ds => do
    let e ← getDentry d
    if cstrEq e.name name then pure d else findDentry name ds

/-- `ramfs_lookup_dentry`. -/
def ramfsLookupDentry (dir : Nat) (name : Str) : FsM Nat := do
  let d ← getNode dir
  kassert (d.type == .dir)
  findDentry name d.dir

/-! ## Memory files -/

/-- `memfile_alloc`. -/
def memfileAlloc (size : Nat) : FsM Nat := newMemfile ⟨size, List.replicate size 0⟩

/-- `memfile_read`. -/
def memfileRead (memf off : Nat) (kio : Kio) : FsM (Nat × Kio) := do
  let m ← getMemfile memf
  let (kio, n) ← ofKio (kio.writeIn (m.bytes.take m.size) off)
  pure (n, kio)

/-- `memfile_write`. -/
def memfileWrite (memf off : Nat) (kio : Kio) : FsM (Nat × Kio) := do
  let m ← getMemfile memf
  let (bs, kio, n) ← ofKio (kio.readOut m.size off)
  let bytes ← ofKio (Kio.splice m.bytes off bs)
  setMemfile memf { m with bytes }
  pure (n, kio)

/-! ## Operations of vnodes -/

/-- `ramfs_vn_read`. -/
def ramfsVnRead (n : Vnode) (off : Nat) (kio : Kio) : FsM (Except Errno Nat × Kio) := do
  let node ← getNode n.data
  let (k, kio) ← memfileRead node.file off kio
  pure (.ok k, kio)

/-- `ramfs_vn_write`. -/
def ramfsVnWrite (n : Vnode) (off : Nat) (kio : Kio) : FsM (Except Errno Nat × Kio) := do
  let node ← getNode n.data
  let (k, kio) ← memfileWrite node.file off kio
  pure (.ok k, kio)

/-- `d_nread`. -/
def dNread (device off nmax : Nat) (kio : Kio) : FsM (Except Errno Nat × Kio) := do
  let d ← getDevice device
  match d.read with
  | none => pure (.error .enotsup, kio)
  | some read => ofDriver (read d.content off nmax kio)

/-- `d_nwrite`. -/
def dNwrite (device off nmax : Nat) (kio : Kio) : FsM (Except Errno Nat × Kio) := do
  let d ← getDevice device
  match d.write with
  | none => pure (.error .enotsup, kio)
  | some write => do
    let (r, kio, content) ← ofDriver (write d.content off nmax kio)
    setDevice device { d with content }
    pure (r, kio)

/-- `initrd_vn_read`, where `off` is below the size. -/
def initrdVnRead (n : Vnode) (off : Nat) (kio : Kio) : FsM (Except Errno Nat × Kio) := do
  let node ← getNode n.data
  match node.data with
  | none => throw .null
  | some start => dNread n.device (start + off) (n.size - off) kio

/-- `ramfs_vn_readlink`. -/
def ramfsVnReadlink (n : Vnode) (kio : Kio) : FsM (Except Errno Unit × Kio) := do
  let node ← getNode n.data
  let (k, kio) ← ofKio (kio.transfer node.link)
  pure (if k ≠ node.link.length then .error .eio else .ok (), kio)

/-- A new vnode for a node, and an entry for it. -/
def ramfsNewEntry (name : Str) (vn node dentry : Nat) : FsM Nat := do
  let n ← getVn vn
  setVn vn { n with data := node }
  let ve ← veAllocLinked name vn
  let e ← getVe ve
  setVe ve { e with data := dentry }
  vnRelease vn
  pure ve

/-- `ramfs_vn_lookup`. -/
def ramfsVnLookup (dir : Vnode) (name : Str) : FsM (Except Errno Nat) := do
  let dent ← ramfsLookupDentry dir.data name
  if dent = 0 then pure (.error .enoent)
  else do
    let d ← getDentry dent
    let node ← getNode d.node
    let vn ← vnAlloc node.id node.type
    let n ← getVn vn
    setVn vn { n with size := node.size, ops := node.ops }
    let ve ← ramfsNewEntry name vn d.node dent
    pure (.ok ve)

/-- The start of the functions that make a new node: the node and its directory entry. -/
def ramfsNewNode (dir : Vnode) (name : Str) (attr : Vattr) : FsM (Nat × Nat) := do
  let dnode ← getNode dir.data
  let node ← ramfsAllocNode dnode.mount attr
  let dent ← ramfsAllocDentry node name
  pure (node, dent)

/-- The end of these functions. -/
def ramfsFinishNode (dir : Vnode) (name : Str) (attr : Vattr) (node dent : Nat) :
    FsM (Except Errno Nat) := do
  ramfsAddDentry dir.data dent
  let n ← getNode node
  let vn ← vnAlloc n.id attr.type
  let ve ← ramfsNewEntry name vn node dent
  pure (.ok ve)

/-- `ramfs_vn_create`. -/
def ramfsVnCreate (dir : Vnode) (name : Str) (attr : Vattr) : FsM (Except Errno Nat) := do
  let (node, dent) ← ramfsNewNode dir name attr
  let file ← memfileAlloc 0
  let n ← getNode node
  setNode node { n with file }
  ramfsFinishNode dir name attr node dent

/-- `ramfs_vn_mknod`. -/
def ramfsVnMknod (dir : Vnode) (name : Str) (attr : Vattr) : FsM (Except Errno Nat) :=
  if attr.mode &&& sIfchr = 0 ∧ attr.mode &&& sIfblk = 0 then pure (.error .einval)
  else do
    let (node, dent) ← ramfsNewNode dir name attr
    ramfsFinishNode dir name attr node dent

/-- `ramfs_vn_symlink`. It does not set the size of the node. -/
def ramfsVnSymlink (dir : Vnode) (name : Str) (attr : Vattr) (target : Str) :
    FsM (Except Errno Nat) := do
  let (node, dent) ← ramfsNewNode dir name attr
  let n ← getNode node
  setNode node { n with link := target }
  ramfsFinishNode dir name attr node dent

/-- `ramfs_vn_hardlink`. -/
def ramfsVnHardlink (dir : Vnode) (name : Str) (target : Nat) : FsM (Except Errno Nat) := do
  let t ← getVn target
  let dent ← ramfsAllocDentry t.data name
  ramfsAddDentry dir.data dent
  let ve ← veAllocLinked name target
  let e ← getVe ve
  setVe ve { e with data := dent }
  pure (.ok ve)

/-- `ramfs_vn_mkdir`. -/
def ramfsVnMkdir (dir : Vnode) (name : Str) (attr : Vattr) : FsM (Except Errno Nat) := do
  let (node, dent) ← ramfsNewNode dir name attr
  ramfsFinishNode dir name attr node dent

/-- `ramfs_vn_unlink` and `ramfs_vn_rmdir`, which are the same. -/
def ramfsVnRemove (dir : Vnode) (ve : Nat) : FsM (Except Errno Unit) := do
  let e ← getVe ve
  ramfsRemoveDentry dir.data e.data
  pure (.ok ())

end Osdev.Vfs
