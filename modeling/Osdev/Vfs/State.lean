import Osdev.Bitmap.Model
import Osdev.Kio
import Osdev.Lib.StateProg
import Osdev.Vfs.Path

/-!
# The objects of the virtual file system (`include/kernel/vfs_types.h`, `fs/ramfs/ramfs.h`)

All objects live in one state and are named by pointers; `0` is `NULL`. An object that was freed, or
that never was allocated, is `none`, and its use is a fault. `kmalloc` hands out pointers that were
not used before.

The two file systems of the kernel are `ramfs` and `initrd`; the second is a `ramfs` whose regular
files have an operation table of their own. Read-write locks and the locks inside a single function
are left out, and so are time stamps, block counts and page caches.
-/

namespace Osdev.Vfs

/-- Why a kernel function does not return. -/
inductive Fault where
  | assertion
  | panic
  /-- `NULL` is dereferenced -/
  | null
  /-- an object that is not there any more is used -/
  | freed
  /-- a loop or recursion does not end within its fuel -/
  | diverged
  /-- a transfer leaves its buffers -/
  | outOfBounds
  deriving DecidableEq, Repr

/-- The error codes that the functions return, without their sign. Drivers return codes of their
own. -/
inductive Errno where
  | enoent | eio | ebadf | eexist | exdev | enodev | enotdir | eisdir | einval | emfile | enotblk
  | espipe | erofs | enametoolong | eloop | enotempty | enolink | enotsup | ebusy
  | driver (code : Nat)
  deriving DecidableEq, Repr

/-- `enum vstate`. -/
inductive VState where
  | empty
  | alive
  | dead
  deriving DecidableEq, Repr

/-- `enum vtype`. -/
inductive VType where
  | none
  | reg
  | dir
  | lnk
  | blk
  | chr
  | fifo
  | sock
  deriving DecidableEq, Repr

/-- `V_ISDEV`. -/
def VType.isDev (t : VType) : Bool := t == .blk || t == .chr

/-- The tables of vnode operations, `ramfs_vnode_ops` and `initrd_vnode_ops`. -/
inductive VnOps where
  | ramfs
  | initrd
  deriving DecidableEq, Repr

/-- The tables of entry operations: `ve_default_ops`, and the one of both file systems. -/
inductive VeOps where
  | default
  | ramfs
  deriving DecidableEq, Repr

/-- The words of `int flags`. -/
abbrev Flags := BitVec 32

/-- `flags & mask`, as a condition. -/
def Flags.has (flags mask : Flags) : Bool := flags &&& mask != 0

/-- `ventry_t`. The union of `mount` and `children` is two fields: the first is used while `isMount`
is set, and no child may be added then. -/
structure Ventry where
  id : Nat
  type : VType
  state : VState
  linked : Bool
  isMount : Bool
  isFsroot : Bool
  name : Str
  data : Nat
  refcount : Int
  vfsId : Nat
  vn : Nat
  parent : Nat
  ops : VeOps
  chldCount : Nat
  mount : Nat
  children : List Nat

/-- `vnode_t`. -/
structure Vnode where
  id : Nat
  type : VType
  state : VState
  loaded : Bool
  dirty : Bool
  isRoot : Bool
  data : Nat
  refcount : Int
  nopen : Nat
  parentId : Nat
  vfs : Nat
  device : Nat
  ops : Option VnOps
  nlink : Nat
  size : Nat
  vDev : Nat
  vLink : Str
  vShadow : Nat

/-- `vfs_t`. -/
structure VfsT where
  id : Nat
  state : VState
  rdonly : Bool
  data : Nat
  refcount : Int
  vtable : Nat → Nat
  vtableCount : Nat
  rootVe : Nat
  device : Nat
  vnodes : List Nat

/-- `ramfs_mount_t`. -/
structure RamfsMount where
  root : Nat
  nextId : Nat

/-- `ramfs_node_t`. The `data` of a file of an `initrd` is the offset of its bytes in the image. -/
structure RamfsNode where
  id : Nat
  type : VType
  mode : Nat
  size : Nat
  data : Option Nat
  parent : Nat
  mount : Nat
  ops : Option VnOps
  link : Str
  file : Nat
  dir : List Nat

/-- `ramfs_dentry_t`. -/
structure RamfsDentry where
  name : Str
  node : Nat

/-- `memfile_t`, with the bytes of its mapping. -/
structure Memfile where
  size : Nat
  bytes : List UInt8

/-- `device_t` with its operations. A read or a write takes the data of the device, an offset, the
largest number of bytes and the transfer, and returns the result with the new data and transfer. -/
structure Device where
  isBlk : Bool
  devt : Nat
  content : List UInt8
  open_ : Option (Flags → Except Errno Nat)
  close : Option (Except Errno Nat)
  read : Option (List UInt8 → Nat → Nat → Kio → Except Fault (Except Errno Nat × Kio))
  write : Option (List UInt8 → Nat → Nat → Kio → Except Fault (Except Errno Nat × Kio × List UInt8))

/-- `file_t`. -/
structure File where
  fd : Int
  flags : Flags
  type : VType
  vnode : Nat
  realPath : Str
  refcount : Int
  offset : Int
  closed : Bool

/-- `ftable_t`; the tree maps descriptors to files. -/
structure Ftable where
  tree : Nat → Nat
  bitmap : Bmp.Bitmap
  count : Nat

/-- The fields of `proc_t` that the file system uses. -/
structure Proc where
  pwd : Nat
  files : Nat

/-- `struct vcache_entry`. -/
structure VcEntry where
  path : Str
  hash : Nat
  ve : Nat

/-- `vcache_t`. `dirMap` holds the child hashes of each cached directory. -/
structure Vcache where
  root : Nat
  size : Nat
  entries : Nat → List VcEntry
  dirMap : Nat → Option (List Nat)

/-- The state of the file system. `hash` is the hash function of path strings. -/
structure Fs where
  ventry : Nat → Option Ventry
  vnode : Nat → Option Vnode
  vfs : Nat → Option VfsT
  mount : Nat → Option RamfsMount
  node : Nat → Option RamfsNode
  dentry : Nat → Option RamfsDentry
  memfile : Nat → Option Memfile
  device : Nat → Option Device
  devTree : Nat → Nat
  file : Nat → Option File
  ftable : Nat → Option Ftable
  proc : Nat → Option Proc
  curproc : Nat
  vcache : Vcache
  hash : Str → Nat
  /-- `unique_vfs_id` -/
  uniqueVfsId : Nat
  brk : Nat

/-- A function of the kernel. -/
abbrev FsM := StateT Fs (Except Fault)

/-- An access through the pointer `p`. -/
def deref {α : Type} (table : Fs → Nat → Option α) (p : Nat) : FsM α := fun s =>
  if p = 0 then .error .null
  else match table s p with
    | none => .error .freed
    | some a => .ok (a, s)

/-- `kassert`. -/
def kassert (c : Bool) : FsM Unit := if c then pure () else throw .assertion

/-- Storing through the pointer `p`. -/
def store {α : Type} (table : Nat → Option α) (p : Nat) (x : Option α) : Nat → Option α :=
  fun q => if q = p then x else table q

/-! ## Entries -/

def getVe (p : Nat) : FsM Ventry := deref Fs.ventry p

def setVe (p : Nat) (e : Ventry) : FsM Unit :=
  modify fun s => { s with ventry := store s.ventry p (some e) }

def freeVe (p : Nat) : FsM Unit := modify fun s => { s with ventry := store s.ventry p none }

def newVe (e : Ventry) : FsM Nat := fun s =>
  .ok (s.brk, { s with ventry := store s.ventry s.brk (some e), brk := s.brk + 1 })

/-! ## Vnodes -/

def getVn (p : Nat) : FsM Vnode := deref Fs.vnode p

def setVn (p : Nat) (n : Vnode) : FsM Unit :=
  modify fun s => { s with vnode := store s.vnode p (some n) }

def freeVn (p : Nat) : FsM Unit := modify fun s => { s with vnode := store s.vnode p none }

def newVn (n : Vnode) : FsM Nat := fun s =>
  .ok (s.brk, { s with vnode := store s.vnode s.brk (some n), brk := s.brk + 1 })

/-! ## File systems -/

def getVfs (p : Nat) : FsM VfsT := deref Fs.vfs p

def setVfs (p : Nat) (v : VfsT) : FsM Unit := modify fun s =>
    { s with vfs := store s.vfs p (some v) }

def freeVfs (p : Nat) : FsM Unit := modify fun s => { s with vfs := store s.vfs p none }

def newVfs (v : VfsT) : FsM Nat := fun s =>
  .ok (s.brk, { s with vfs := store s.vfs s.brk (some v), brk := s.brk + 1 })

/-! ## Objects of `ramfs` -/

def getMount (p : Nat) : FsM RamfsMount := deref Fs.mount p

def setMount (p : Nat) (m : RamfsMount) : FsM Unit :=
  modify fun s => { s with mount := store s.mount p (some m) }

def newMount (m : RamfsMount) : FsM Nat := fun s =>
  .ok (s.brk, { s with mount := store s.mount s.brk (some m), brk := s.brk + 1 })

def getNode (p : Nat) : FsM RamfsNode := deref Fs.node p

def setNode (p : Nat) (n : RamfsNode) : FsM Unit :=
  modify fun s => { s with node := store s.node p (some n) }

def freeNode (p : Nat) : FsM Unit := modify fun s => { s with node := store s.node p none }

def newNode (n : RamfsNode) : FsM Nat := fun s =>
  .ok (s.brk, { s with node := store s.node s.brk (some n), brk := s.brk + 1 })

def getDentry (p : Nat) : FsM RamfsDentry := deref Fs.dentry p

def freeDentry (p : Nat) : FsM Unit := modify fun s => { s with dentry := store s.dentry p none }

def newDentry (d : RamfsDentry) : FsM Nat := fun s =>
  .ok (s.brk, { s with dentry := store s.dentry s.brk (some d), brk := s.brk + 1 })

def getMemfile (p : Nat) : FsM Memfile := deref Fs.memfile p

def setMemfile (p : Nat) (m : Memfile) : FsM Unit :=
  modify fun s => { s with memfile := store s.memfile p (some m) }

def freeMemfile (p : Nat) : FsM Unit := modify fun s => { s with memfile := store s.memfile p none }

def newMemfile (m : Memfile) : FsM Nat := fun s =>
  .ok (s.brk, { s with memfile := store s.memfile s.brk (some m), brk := s.brk + 1 })

/-! ## Devices, files and processes -/

def getDevice (p : Nat) : FsM Device := deref Fs.device p

def setDevice (p : Nat) (d : Device) : FsM Unit :=
  modify fun s => { s with device := store s.device p (some d) }

def getFile (p : Nat) : FsM File := deref Fs.file p

def setFile (p : Nat) (f : File) : FsM Unit :=
  modify fun s => { s with file := store s.file p (some f) }

def freeFile (p : Nat) : FsM Unit := modify fun s => { s with file := store s.file p none }

def newFile (f : File) : FsM Nat := fun s =>
  .ok (s.brk, { s with file := store s.file s.brk (some f), brk := s.brk + 1 })

def getFtable (p : Nat) : FsM Ftable := deref Fs.ftable p

def setFtable (p : Nat) (t : Ftable) : FsM Unit :=
  modify fun s => { s with ftable := store s.ftable p (some t) }

def newFtable (t : Ftable) : FsM Nat := fun s =>
  .ok (s.brk, { s with ftable := store s.ftable s.brk (some t), brk := s.brk + 1 })

def getProc (p : Nat) : FsM Proc := deref Fs.proc p

def setProc (p : Nat) (x : Proc) : FsM Unit :=
  modify fun s => { s with proc := store s.proc p (some x) }

def newProc (x : Proc) : FsM Nat := fun s =>
  .ok (s.brk, { s with proc := store s.proc s.brk (some x), brk := s.brk + 1 })

def getVcache : FsM Vcache := fun s => .ok (s.vcache, s)

def setVcache (c : Vcache) : FsM Unit := modify fun s => { s with vcache := c }

/-- The hash of a path. -/
def hashOf (path : Str) : FsM Nat := fun s => .ok (s.hash path, s)

/-- Running the operation of a driver. -/
def ofDriver {α : Type} (x : Except Fault α) : FsM α := fun s => x.map fun a => (a, s)

/-- Running an operation on a bitmap; its assertions are those of the kernel. -/
def ofBitmap {α : Type} (x : Except Bmp.Panic α) : FsM α := fun s =>
  match x with
  | .ok a => .ok (a, s)
  | .error _ => .error .assertion

/-- Running a transfer. -/
def ofKio {α : Type} (x : Except Kio.Fault α) : FsM α := fun s =>
  match x with
  | .ok a => .ok (a, s)
  | .error .assertion => .error .assertion
  | .error .outOfBounds => .error .outOfBounds

/-! ## What an access does -/

section Access

variable {α : Type} {table : Fs → Nat → Option α} {p : Nat} {a : α} {s s' : Fs}

theorem deref_run (hp : p ≠ 0) (h : table s p = some a) : deref table p s = .ok (a, s) := by
  rw [deref, if_neg hp, h]

theorem getVn_run {n : Vnode} (hp : p ≠ 0) (h : s.vnode p = some n) : getVn p s = .ok (n, s) :=
  deref_run hp h

theorem getVfs_run {v : VfsT} (hp : p ≠ 0) (h : s.vfs p = some v) : getVfs p s = .ok (v, s) :=
  deref_run hp h

theorem getFile_run {f : File} (hp : p ≠ 0) (h : s.file p = some f) : getFile p s = .ok (f, s) :=
  deref_run hp h

theorem getFtable_run {t : Ftable} (hp : p ≠ 0) (h : s.ftable p = some t) :
    getFtable p s = .ok (t, s) :=
  deref_run hp h

theorem deref_eq_ok (h : deref table p s = .ok (a, s')) : s = s' ∧ p ≠ 0 ∧ table s p = some a := by
  obtain ⟨hp, h⟩ := Lib.guard_eq_ok.mp h
  split at h
  · cases h
  next ha =>
    cases h
    exact ⟨rfl, hp, ha⟩

/-- A program that goes on with the object that it has read. -/
theorem deref_bind_eq_ok {β : Type} {f : α → FsM β} {b : β}
    (h : (deref table p >>= f) s = .ok (b, s')) :
    p ≠ 0 ∧ ∃ a, table s p = some a ∧ f a s = .ok (b, s') := by
  obtain ⟨a, s1, ha, h⟩ := Lib.run_bind_eq_ok.mp h
  obtain ⟨rfl, hp, ha⟩ := deref_eq_ok ha
  exact ⟨hp, a, ha, h⟩

theorem kassert_run {c : Bool} (h : c = true) (s : Fs) : kassert c s = .ok ((), s) := by
  subst h
  rfl

theorem kassert_eq_ok {c : Bool} {u : Unit} (h : kassert c s = .ok (u, s')) : s = s' ∧
    c = true := by
  cases c with
  | false => cases h
  | true =>
    cases h
    exact ⟨rfl, rfl⟩

theorem store_self (t : Nat → Option α) (p : Nat) (x : Option α) : store t p x p = x :=
  if_pos rfl

theorem store_ne {t : Nat → Option α} {q : Nat} (h : q ≠ p) (x : Option α) : store t p x q = t q :=
  if_neg h

/-- What is found after a store is the new object, or was there before. -/
theorem store_eq_some {t : Nat → Option α} {q : Nat} {x b : α} (h : store t p (some x) q = some b) :
    (q = p ∧ b = x) ∨ (q ≠ p ∧ t q = some b) := by
  obtain rfl | hq := eq_or_ne q p
  · exact .inl ⟨rfl, (Option.some.inj ((store_self _ _ _).symm.trans h)).symm⟩
  · exact .inr ⟨hq, (store_ne hq _).symm.trans h⟩

/-- An object is replaced by a related one: each object has one from before that it is related
to. -/
theorem store_related {t : Nat → Option α} {x x' : α} {R : α → α → Prop} (hold : t p = some x)
    (hnew : R x x') (hrefl : ∀ a, R a a) (q : Nat) (b : α) (h : store t p (some x') q = some b) :
    ∃ a, t q = some a ∧ R a b := by
  obtain ⟨rfl, rfl⟩ | ⟨-, hb⟩ := store_eq_some h
  · exact ⟨x, hold, hnew⟩
  · exact ⟨b, hb, hrefl b⟩

theorem store_store (t : Nat → Option α) (p : Nat) (x y : Option α) :
    store (store t p x) p y = store t p y := by
  funext q
  unfold store
  split <;> rfl

end Access

end Osdev.Vfs
