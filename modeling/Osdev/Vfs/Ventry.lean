import Osdev.Vfs.State

/-!
# References, entries and the table of vnodes (`kernel/vfs/ventry.c`, `kernel/vfs/vfs.c`)

The release functions free an object together with its last reference, and that releases the
references that the object holds.
-/

namespace Osdev.Vfs

/-! ## References -/

/-- `vfs_cleanup`. -/
def vfsCleanup (p : Nat) : FsM Unit := do
  let v ← getVfs p
  kassert (v.state == .dead)
  kassert (v.vtableCount == 0)
  kassert (v.rootVe == 0)
  freeVfs p

/-- `vfs_release`. -/
def vfsRelease (p : Nat) : FsM Unit :=
  if p = 0 then pure ()
  else do
    let v ← getVfs p
    setVfs p { v with refcount := v.refcount - 1 }
    if v.refcount = 1 then vfsCleanup p else pure ()

/-- `vfs_getref`. -/
def vfsGetref (p : Nat) : FsM Unit :=
  if p = 0 then pure ()
  else do
    let v ← getVfs p
    setVfs p { v with refcount := v.refcount + 1 }

/-- `memfile_free`. -/
def memfileFree (p : Nat) : FsM Unit := do
  let _ ← getMemfile p
  freeMemfile p

/-- The part of `ramfs_vn_cleanup` that depends on the type of the node. -/
def ramfsFreeContent (p : Nat) (n : RamfsNode) : FsM Unit :=
  match n.type with
  | .reg => do
    memfileFree n.file
    setNode p { n with file := 0 }
  | .lnk => setNode p { n with link := [] }
  | _ => pure ()

/-- `ramfs_vn_cleanup`. -/
def ramfsVnCleanup (node : Nat) : FsM Unit :=
  if node = 0 then pure ()
  else do
    let n ← getNode node
    ramfsFreeContent node n
    -- `ramfs_free_node`
    kassert (n.data == none)
    freeNode node

/-- `v_cleanup` of a vnode. The one of `initrd` frees what `node->data` points to, but keeps the
pointer. -/
def vnOpsCleanup (n : Vnode) : FsM Unit :=
  match n.ops with
  | none => throw .null
  | some .ramfs => ramfsVnCleanup n.data
  | some .initrd => do
    let _ ← getNode n.data
    ramfsVnCleanup n.data

/-- `vn_cleanup`. -/
def vnCleanup (p : Nat) : FsM Unit := do
  let n ← getVn p
  kassert (n.state == .dead)
  vnOpsCleanup n
  vfsRelease n.vfs
  freeVn p

/-- `vn_release`. -/
def vnRelease (p : Nat) : FsM Unit :=
  if p = 0 then pure ()
  else do
    let n ← getVn p
    setVn p { n with refcount := n.refcount - 1 }
    if n.refcount = 1 then vnCleanup p else pure ()

/-- `vn_getref`. -/
def vnGetref (p : Nat) : FsM Unit :=
  if p = 0 then pure ()
  else do
    let n ← getVn p
    setVn p { n with refcount := n.refcount + 1 }

/-- `v_cleanup` of an entry. -/
def veOpsCleanup (e : Ventry) : FsM Unit :=
  match e.ops with
  | .default => pure ()
  | .ramfs =>
    if e.data = 0 then pure ()
    else do
      let _ ← getDentry e.data
      freeDentry e.data

/-- `ve_cleanup`, where `release` is `ve_release` for the parent. -/
def veCleanup (release : Nat → FsM Unit) (p : Nat) : FsM Unit := do
  let e ← getVe p
  kassert (e.state == .dead)
  kassert (e.chldCount == 0)
  veOpsCleanup e
  release e.parent
  vnRelease e.vn
  freeVe p

/-- `ve_release`. Each step up frees an entry, so `fuel` bounds the number of entries. -/
def veReleaseLoop : Nat → Nat → FsM Unit
  | 0, _ => throw .diverged
  | fuel + 1, p =>
    if p = 0 then pure ()
    else do
      let e ← getVe p
      setVe p { e with refcount := e.refcount - 1 }
      if e.refcount = 1 then veCleanup (veReleaseLoop fuel) p else pure ()

/-- `ve_release`. -/
def veRelease (p : Nat) : FsM Unit := do
  let s ← get
  veReleaseLoop (s.brk + 2) p

/-- `ve_getref`. -/
def veGetref (p : Nat) : FsM Unit :=
  if p = 0 then pure ()
  else do
    let e ← getVe p
    setVe p { e with refcount := e.refcount + 1 }

/-! ## Children -/

/-- `ve_add_child`. -/
def veAddChild (parent child : Nat) : FsM Unit := do
  let p ← getVe parent
  kassert (!p.isMount)
  veGetref parent
  let c ← getVe child
  setVe child { c with parent, refcount := c.refcount + 1 }
  let p ← getVe parent
  setVe parent { p with children := p.children ++ [child], chldCount := p.chldCount + 1 }
  if c.linked then do
    let n ← getVn c.vn
    setVn c.vn { n with parentId := p.id }
  else pure ()

/-- `ve_remove_child`. -/
def veRemoveChild (parent child : Nat) : FsM Unit := do
  let c ← getVe child
  setVe child { c with parent := 0 }
  veRelease c.parent
  let p ← getVe parent
  setVe parent { p with children := p.children.erase child }
  veRelease child
  let p ← getVe parent
  setVe parent { p with chldCount := subWord p.chldCount 1 }

/-! ## Entries and their vnodes -/

/-- The loop of `ve_syncvn` over the children of a dead directory; `sync` is `ve_syncvn`. -/
def dropChildren (sync : Nat → FsM Bool) (p : Nat) : Nat → FsM Unit
  | 0 => throw .diverged
  | fuel + 1 => do
    let e ← getVe p
    match e.children with
    | [] => pure ()
    | child :: _ => do
      let _ ← sync child
      veRemoveChild p child
      dropChildren sync p fuel

/-- `ve_syncvn`, with `fuel` for the depth of the tree. -/
def veSyncvnLoop : Nat → Nat → FsM Bool
  | 0, _ => throw .diverged
  | fuel + 1, p => do
    let e ← getVe p
    if e.linked = false then pure false
    else do
      let n ← getVn e.vn
      kassert (e.type == n.type)
      setVe p { e with state := n.state }
      if n.state = .dead ∧ e.type = .dir then do
        kassert (!e.isMount)
        dropChildren (veSyncvnLoop fuel) p (e.children.length + 1)
        pure false
      else if e.isMount = false ∧ n.state = .alive ∧ n.vfs ≠ 0 then do
        let v ← getVfs n.vfs
        setVe p { e with state := n.state, vfsId := v.id, ops := .ramfs }
        pure true
      else pure true

/-- `ve_syncvn`. -/
def veSyncvn (p : Nat) : FsM Bool := do
  let s ← get
  veSyncvnLoop (s.brk + 2) p

/-- `ve_link_vnode`. -/
def veLinkVnode (ve vn : Nat) : FsM Unit := do
  let e ← getVe ve
  let n ← getVn vn
  kassert (e.type == n.type)
  kassert (!e.linked)
  setVn vn { n with nlink := addWord n.nlink 1, dirty := true, refcount := n.refcount + 1 }
  setVe ve { e with linked := true, id := n.id, vn }

/-- `ve_unlink_vnode`. -/
def veUnlinkVnode (ve vn : Nat) : FsM Unit := do
  let e ← getVe ve
  setVe ve { e with linked := false }
  let n ← getVn vn
  setVn vn { n with nlink := subWord n.nlink 1, dirty := true }

/-- `vn_alloc`. -/
def vnAlloc (id : Nat) (type : VType) : FsM Nat :=
  newVn
    { id, type, state := .empty, loaded := false, dirty := false, isRoot := false, data := 0
      refcount := 1, nopen := 0, parentId := 0, vfs := 0, device := 0, ops := none, nlink := 0
      size := 0, vDev := 0, vLink := [], vShadow := 0 }

/-- The entry operations that `ve_alloc_linked` chooses. -/
def veOpsOf (n : Vnode) : FsM VeOps :=
  if n.vfs ≠ 0 then do
    let _ ← getVfs n.vfs
    pure .ramfs
  else pure .default

/-- `ve_alloc_linked`. -/
def veAllocLinked (name : Str) (vn : Nat) : FsM Nat := do
  let n ← getVn vn
  let ops ← veOpsOf n
  let ve ← newVe
    { id := 0, type := n.type, state := .empty, linked := false, isMount := false
      isFsroot := false, name, data := 0, refcount := 1, vfsId := 0, vn := 0, parent := 0, ops
      chldCount := 0, mount := 0, children := [] }
  veLinkVnode ve vn
  let _ ← veSyncvn ve
  pure ve

/-- `assert_new_ventry_valid`. -/
def assertNewVentryValid (ve : Nat) : FsM Unit := do
  let _ ← veSyncvn ve
  let e ← getVe ve
  if e.linked = false then throw .panic
  else if e.state ≠ .empty then throw .panic
  else do
    let n ← getVn e.vn
    if n.id = 0 then throw .panic else pure ()

/-- `ve_cmp_cstr`; no table of entry operations has a comparison of its own. -/
def veCmpCstr (ve : Nat) (name : Str) : FsM Bool := do
  let e ← getVe ve
  pure (cstrEq e.name name)

/-- `ve_unique_id`. -/
def veUniqueId (e : Ventry) : Nat := e.vfsId ||| e.id * 2 ^ 32

/-! ## The table of vnodes -/

/-- `vfs_add_node`. -/
def vfsAddNode (vfs ve : Nat) : FsM Unit := do
  let e ← getVe ve
  kassert e.linked
  let n ← getVn e.vn
  kassert (n.state == .empty)
  vfsGetref vfs
  let v ← getVfs vfs
  if v.vtable n.id ≠ 0 then throw .panic
  else do
    let ops := if n.ops = none then some .ramfs else n.ops
    setVn e.vn { n with
      state := .alive, vfs, ops, device := v.device, refcount := n.refcount + 1 }
    setVfs vfs { v with
      vtable := Function.update v.vtable n.id e.vn, vtableCount := v.vtableCount + 1
      vnodes := v.vnodes ++ [e.vn] }
    let _ ← veSyncvn ve
    pure ()

/-- `vfs_remove_node`. -/
def vfsRemoveNode (vfs vn : Nat) : FsM Unit := do
  let n ← getVn vn
  kassert (n.state == .alive)
  setVn vn { n with state := .dead }
  let v ← getVfs vfs
  kassert (v.vtable n.id == vn)
  setVfs vfs { v with
    vtable := Function.update v.vtable n.id 0, vtableCount := subWord v.vtableCount 1
    vnodes := v.vnodes.erase vn }
  vnRelease vn

end Osdev.Vfs
