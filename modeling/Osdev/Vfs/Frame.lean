import Osdev.Vfs.Still

/-!
# What the file system leaves alone

The functions on entries, vnodes, nodes and the cache do not touch open files, tables of descriptors
and processes. For a function that is put together from others this is found by instance search.
-/

namespace Osdev.Vfs

open Osdev.Lib

variable {s s' : Fs} {g : Fs → Fs} {P : Sys → Prop} {f : File}

-- a function of many steps is a long search
set_option synthInstance.maxSize 1000

/-- The open files, tables of descriptors and processes are as before. -/
structure Untouched (s s' : Fs) : Prop where
  brk : s.brk ≤ s'.brk
  file : s'.file = s.file
  ftable : s'.ftable = s.ftable
  proc : s'.proc = s.proc
  curproc : s'.curproc = s.curproc

instance : Std.Refl Untouched := ⟨fun _ => ⟨le_rfl, rfl, rfl, rfl, rfl⟩⟩

instance : Trans Untouched Untouched Untouched where
  trans h h' := ⟨h.brk.trans h'.brk, h'.file.trans h.file, h'.ftable.trans h.ftable,
    h'.proc.trans h.proc, h'.curproc.trans h.curproc⟩

theorem Still.untouched (h : Still s s') : Untouched s s' where
  brk := (congrArg Fs.brk h.core).ge
  file := (congrArg Fs.file h.core :)
  ftable := (congrArg Fs.ftable h.core :)
  proc := (congrArg Fs.proc h.core :)
  curproc := (congrArg Fs.curproc h.core :)

instance : Covers Untouched := ⟨fun _ _ => Still.untouched⟩

/-! ## Storing -/

/-- A store that leaves files, tables and processes alone. -/
theorem keeps_store {α : Type} {a : α} (h : ∀ s, Untouched s (g s)) :
    Keeps Untouched (fun s => .ok (a, g s) : FsM α) where
  keeps s b s' hb := by cases hb; exact h s

theorem keeps_new (h : ∀ s, Untouched s (g s)) :
    Keeps Untouched (fun s => .ok (s.brk, g s) : FsM Nat) where
  keeps s b s' hb := by cases hb; exact h s

section Store

variable {p : Nat}

instance {e : Ventry} : Keeps Untouched (setVe p e) :=
  keeps_store fun _ => ⟨le_rfl, rfl, rfl, rfl, rfl⟩

instance {e : Ventry} : Keeps Untouched (newVe e) := keeps_new fun _ =>
    ⟨Nat.le_succ _, rfl, rfl, rfl, rfl⟩

instance {n : Vnode} : Keeps Untouched (setVn p n) :=
  keeps_store fun _ => ⟨le_rfl, rfl, rfl, rfl, rfl⟩

instance {n : Vnode} : Keeps Untouched (newVn n) := keeps_new fun _ =>
    ⟨Nat.le_succ _, rfl, rfl, rfl, rfl⟩

instance {v : VfsT} : Keeps Untouched (setVfs p v) :=
  keeps_store fun _ => ⟨le_rfl, rfl, rfl, rfl, rfl⟩

instance {m : RamfsMount} : Keeps Untouched (setMount p m) :=
  keeps_store fun _ => ⟨le_rfl, rfl, rfl, rfl, rfl⟩

instance {n : RamfsNode} : Keeps Untouched (setNode p n) :=
  keeps_store fun _ => ⟨le_rfl, rfl, rfl, rfl, rfl⟩

instance {n : RamfsNode} : Keeps Untouched (newNode n) :=
  keeps_new fun _ => ⟨Nat.le_succ _, rfl, rfl, rfl, rfl⟩

instance {d : RamfsDentry} : Keeps Untouched (newDentry d) :=
  keeps_new fun _ => ⟨Nat.le_succ _, rfl, rfl, rfl, rfl⟩

instance {m : Memfile} : Keeps Untouched (setMemfile p m) :=
  keeps_store fun _ => ⟨le_rfl, rfl, rfl, rfl, rfl⟩

instance {m : Memfile} : Keeps Untouched (newMemfile m) :=
  keeps_new fun _ => ⟨Nat.le_succ _, rfl, rfl, rfl, rfl⟩

instance {d : Device} : Keeps Untouched (setDevice p d) :=
  keeps_store fun _ => ⟨le_rfl, rfl, rfl, rfl, rfl⟩

end Store

/-- Writing to a memory file or a device keeps the relation. -/
class Writes (R : Fs → Fs → Prop) : Prop extends Covers R where
  setMemfile : ∀ p m, Keeps R (setMemfile p m)
  setDevice : ∀ p d, Keeps R (setDevice p d)

attribute [instance] Writes.setMemfile Writes.setDevice

section Writes

variable {R : Fs → Fs → Prop} [Std.Refl R] [Trans R R R] [Writes R] {p vn nmax off : Nat}
  {n : Vnode}
  {kio : Kio}

instance : Keeps R (memfileWrite p off kio) := by unfold memfileWrite; infer_instance
instance : Keeps R (ramfsVnWrite n off kio) := by unfold ramfsVnWrite; infer_instance

instance : Keeps R (dNwrite p off nmax kio) := by
  refine .step fun d => ?_
  split <;> infer_instance

instance {off : Int} : Keeps R (vnWrite vn off kio) := by unfold vnWrite; infer_instance
instance {off : Int} : Keeps R (writeVnode vn off kio) := by unfold writeVnode; infer_instance

end Writes

/-! ## Entries and vnodes -/

section Objects

variable {p ve vn : Nat}

instance : Keeps Untouched (veAddChild p ve) := by unfold veAddChild; infer_instance

instance : Keeps Untouched (veLinkVnode ve vn) := by unfold veLinkVnode; infer_instance
instance : Keeps Untouched (veUnlinkVnode ve vn) := by unfold veUnlinkVnode; infer_instance

instance {id : Nat} {type : VType} : Keeps Untouched (vnAlloc id type) := by
  unfold vnAlloc
  infer_instance

instance {name : Str} : Keeps Untouched (veAllocLinked name vn) := by
  unfold veAllocLinked
  infer_instance

instance {vfs : Nat} : Keeps Untouched (vfsAddNode vfs ve) := by unfold vfsAddNode; infer_instance
instance {vfs : Nat} : Keeps Untouched (vfsRemoveNode vfs vn) := by
  unfold vfsRemoveNode
  infer_instance

end Objects

/-! ## `ramfs` and `initrd` -/

section Ramfs

variable {p q node dent vn off : Nat} {name target : Str} {attr : Vattr} {n : Vnode} {kio : Kio}

instance : Keeps Untouched (ramfsAllocNode p attr) := by unfold ramfsAllocNode; infer_instance
instance : Keeps Untouched (ramfsAllocDentry p name) := by unfold ramfsAllocDentry; infer_instance
instance : Keeps Untouched (ramfsAddDentry p q) := by unfold ramfsAddDentry; infer_instance
instance : Keeps Untouched (ramfsRemoveDentry p q) := by unfold ramfsRemoveDentry; infer_instance

instance : Keeps Untouched (memfileAlloc p) := by unfold memfileAlloc; infer_instance
instance : Keeps Untouched (ramfsNewEntry name vn node dent) := by
  unfold ramfsNewEntry
  infer_instance

instance : Keeps Untouched (ramfsVnLookup n name) := by unfold ramfsVnLookup; infer_instance
instance : Keeps Untouched (ramfsNewNode n name attr) := by unfold ramfsNewNode; infer_instance

instance : Keeps Untouched (ramfsFinishNode n name attr node dent) := by
  unfold ramfsFinishNode
  infer_instance

instance : Keeps Untouched (ramfsVnCreate n name attr) := by unfold ramfsVnCreate; infer_instance
instance : Keeps Untouched (ramfsVnMknod n name attr) := by unfold ramfsVnMknod; infer_instance

instance : Keeps Untouched (ramfsVnSymlink n name attr target) := by
  unfold ramfsVnSymlink
  infer_instance

instance : Keeps Untouched (ramfsVnMkdir n name attr) := by unfold ramfsVnMkdir; infer_instance
instance : Keeps Untouched (ramfsVnRemove n p) := by unfold ramfsVnRemove; infer_instance

end Ramfs

/-! ## Operations on vnodes -/

section Vnode

variable {dve dvn ve vn vfs mode dev : Nat} {name target : Str} {n : Vnode} {kio : Kio} {off : Int}

instance : Keeps Untouched (addEntry dve vfs ve) := by unfold addEntry; infer_instance

instance : Keeps Untouched (vnLookupFs dve n name) := by
  refine .step fun v => ?_
  refine .orElse (.step fun _ => ?_)
  refine .step fun r => ?_
  cases r <;> infer_instance

instance : Keeps Untouched (vnLookup dve dvn name) := by unfold vnLookup; infer_instance

instance {make : FsM (Except Errno Nat)} {add : Nat → FsM Unit} [Keeps Untouched make]
    [∀ ve, Keeps Untouched (add ve)] : Keeps Untouched (vnMakeChecked n make add) := by
  refine .step fun v => ?_
  refine .orElse (.step fun r => ?_)
  cases r <;> infer_instance

instance {names : List Str} {make : Vnode → FsM (Except Errno Nat)}
    [∀ d, Keeps Untouched (make d)] : Keeps Untouched (vnMake dve dvn names make) := by
  refine .step fun d => .step fun r => ?_
  cases r <;> infer_instance

instance : Keeps Untouched (vnCreate dve dvn name mode) := by unfold vnCreate; infer_instance
instance : Keeps Untouched (vnMkdir dve dvn name mode) := by unfold vnMkdir; infer_instance
instance : Keeps Untouched (vnSymlink dve dvn name target) := by unfold vnSymlink; infer_instance
instance : Keeps Untouched (addDevice dve vfs dev ve) := by unfold addDevice; infer_instance

instance : Keeps Untouched (vnMknod dve dvn name mode dev) := by
  refine .step fun d => .step fun r => ?_
  cases r with
  | error e => infer_instance
  | ok u =>
    dsimp only
    split <;> infer_instance

instance : Keeps Untouched (vnHardlink dve dvn name vn) := by
  unfold vnHardlink ramfsVnHardlink addLink
  infer_instance

instance : Keeps Untouched (dropLastLink vfs ve vn) := by unfold dropLastLink; infer_instance
instance : Keeps Untouched (vnUnlink dve dvn ve vn) := by unfold vnUnlink; infer_instance

instance : Keeps Untouched (vnRmdir dve dvn ve vn) := by
  refine .step fun n => ?_
  infer_instance

end Vnode

/-! ## Path resolution -/

/-- The functions that path resolution is made of keep the relation. -/
class Resolves (R : Fs → Fs → Prop) : Prop extends Covers R where
  lookup : ∀ dve dvn name, Keeps R (vnLookup dve dvn name)

instance : Resolves Untouched where
  lookup _ _ _ := inferInstance

attribute [instance] Resolves.lookup

/-- The same for a relation on the system. -/
class Walks (Q : Sys → Sys → Prop) : Prop extends Steps Q where
  lookup : ∀ dve dvn name, Keeps Q (onFs (vnLookup dve dvn name))

instance {R : Fs → Fs → Prop} [Resolves R] : Walks (OnFs R) where
  lookup _ _ _ := inferInstance

attribute [instance] Walks.lookup

section Resolve

variable {Q : Sys → Sys → Prop} [Std.Refl Q] [Trans Q Q Q] [Walks Q]
  {ve vn atVe next depth start fuel : Nat} {flags : Flags} {isLast : Bool} {path name : Str}
  {fullpath : Option Sbuf} {curpath : Sbuf} {part : Path}

section Follow

variable {rec : Resolver} [∀ a b c d e, Keeps Q (rec a b c d e)]

instance : Keeps Q (followLink rec ve vn atVe depth fullpath) := by
  refine .step fun n => ?_
  refine .orElse (.step fun r => ?_)
  obtain ⟨r, kio⟩ := r
  cases r with
  | error e => infer_instance
  | ok u =>
    refine .step fun out => ?_
    split <;> infer_instance

instance : Keeps Q (vresolveFollow rec ve flags isLast depth fullpath) := by
  unfold vresolveFollow
  infer_instance

instance : Keeps Q (cacheFollow rec ve flags depth) := by
  refine .step fun out => ?_
  split
  · infer_instance
  · refine .step fun e => ?_
    split <;> infer_instance

instance : Keeps Q (vresolveCache rec path flags depth) := by
  unfold vresolveCache
  infer_instance

instance : Keeps Q
    (walkNext rec flags depth ve next name isLast curpath fullpath) := by
  refine .step fun b => ?_
  refine .branch ?_ inferInstance
  refine .step fun _ => .step fun _ => ?_
  refine .step fun _ => .step fun out => ?_
  split <;> infer_instance

instance : Keeps Q (walkPart rec flags depth part ve curpath fullpath) := by
  refine .step fun e => ?_
  have hlookup : Keeps Q (do
      match ← onFs (vnLookup ve e.vn part.toStr) with
      | .error err => pure (.error (walkMissing flags ve part.iterEnd err curpath fullpath))
      | .ok next => walkNext rec flags depth ve next part.toStr part.iterEnd curpath fullpath) := by
    refine .step fun r => ?_
    cases r <;> infer_instance
  infer_instance

instance keeps_walkLoop :
    Keeps Q (walkLoop rec flags depth fuel part ve curpath fullpath) := by
  induction fuel generalizing part ve curpath fullpath with
  | zero => exact .throw _
  | succ fuel ih =>
    refine .orElse (.step fun r => ?_)
    cases r <;> infer_instance

instance : Keeps Q (vresolveFullwalk rec start path flags depth fullpath) := by
  unfold vresolveFullwalk
  infer_instance

end Follow

instance keeps_vresolveInternal :
    Keeps Q (vresolveInternal fuel start path flags depth fullpath) := by
  induction fuel generalizing start path flags depth fullpath with
  | zero => exact .throw _
  | succ fuel ih =>
    refine .orElse (.step fun out => ?_)
    split <;> infer_instance

instance : Keeps Q (vresolve fuel start path flags fullpath) := by
  unfold vresolve
  infer_instance

end Resolve

/-! ## Calls with a path -/

/-- The operations that make and remove entries keep the relation. -/
class Edits (R : Fs → Fs → Prop) : Prop extends Resolves R where
  create : ∀ dve dvn name mode, Keeps R (vnCreate dve dvn name mode)
  mkdir : ∀ dve dvn name mode, Keeps R (vnMkdir dve dvn name mode)
  mknod : ∀ dve dvn name mode dev, Keeps R (vnMknod dve dvn name mode dev)
  symlink : ∀ dve dvn name target, Keeps R (vnSymlink dve dvn name target)
  hardlink : ∀ dve dvn name target, Keeps R (vnHardlink dve dvn name target)
  unlink : ∀ dve dvn ve vn, Keeps R (vnUnlink dve dvn ve vn)
  rmdir : ∀ dve dvn ve vn, Keeps R (vnRmdir dve dvn ve vn)

attribute [instance] Edits.create Edits.mkdir Edits.mknod Edits.symlink Edits.hardlink
  Edits.unlink Edits.rmdir

instance : Edits Untouched where
  create _ _ _ _ := inferInstance
  mkdir _ _ _ _ := inferInstance
  mknod _ _ _ _ _ := inferInstance
  symlink _ _ _ _ := inferInstance
  hardlink _ _ _ _ := inferInstance
  unlink _ _ _ _ := inferInstance
  rmdir _ _ _ _ := inferInstance

section Paths

variable {R : Fs → Fs → Prop} [Std.Refl R] [Trans R R R] [Edits R] {ve dve atVe fuel : Nat}
  {flags : Flags} {path buf : Str} {rpath : Sbuf}

instance : Keeps (OnFs R) (fsStatWith flags fuel path) := by
  refine .step fun atVe => .step fun out => ?_
  split <;> infer_instance

instance {make : Nat → Nat → Str → FsM (Except Errno Nat)}
    [∀ dve dvn name, Keeps R (make dve dvn name)] :
    Keeps (OnFs R) (fsMakeWith make fuel path) := by
  refine .step fun atVe => .step fun out => ?_
  split
  · infer_instance
  · refine .step fun d => .step fun r => ?_
    cases r <;> infer_instance

instance : Keeps (OnFs R) (fsStat fuel path) := by unfold fsStat; infer_instance
instance : Keeps (OnFs R) (fsLstat fuel path) := by unfold fsLstat; infer_instance

instance {mode : Nat} : Keeps (OnFs R) (fsMkdir fuel path mode) := by
  unfold fsMkdir
  infer_instance

instance {mode dev : Nat} : Keeps (OnFs R) (fsMknod fuel path mode dev) := by
  unfold fsMknod
  infer_instance

instance {target : Str} : Keeps (OnFs R) (fsSymlink fuel target path) := by
  unfold fsSymlink
  infer_instance

instance : Keeps (OnFs R) (unlinkVe ve atVe rpath) := by unfold unlinkVe; infer_instance
instance : Keeps (OnFs R) (rmdirVe ve atVe rpath) := by
  refine .step fun e => .step fun n => ?_
  refine .orElse (.step fun _ => ?_)
  infer_instance

instance : Keeps (OnFs R) (fsUnlink fuel path) := by
  refine .step fun atVe => .step fun out => ?_
  split <;> infer_instance

instance : Keeps (OnFs R) (fsRmdir fuel path) := by
  refine .step fun atVe => .step fun out => ?_
  split <;> infer_instance

instance {ove : Nat} {name : Str} : Keeps (OnFs R) (linkVe ove dve atVe name rpath) := by
  refine .step fun d => .step fun o => .step fun _ => .step fun r => .step fun _ => ?_
  cases r <;> infer_instance

instance {oldpath newpath : Str} : Keeps (OnFs R) (fsLink fuel oldpath newpath) := by
  refine .step fun atVe => .step fun old => ?_
  split
  · infer_instance
  · refine .step fun out => ?_
    split <;> infer_instance

instance : Keeps (OnFs R) (fsReadlink fuel path buf) := by
  refine .step fun atVe => .step fun out => ?_
  split <;> infer_instance

end Paths

/-! ## Calls with a descriptor -/

/-- What the calls with a descriptor store keeps the relation: files with their flags, tables
without a new descriptor, vnodes with their states and data. -/
class Handles (R : Fs → Fs → Prop) : Prop extends Covers R where
  setFile : ∀ {p : Nat} {f f' : File} {P : Fs → Prop}, f'.flags = f.flags →
    KeepsFrom (fun s => P s ∧ s.file p = some f) R (setFile p f')
  setFtable : ∀ {p : Nat} {t t' : Ftable} {P : Fs → Prop},
    (∀ k, t'.tree k = t.tree k ∨ t'.tree k = 0) →
    KeepsFrom (fun s => P s ∧ s.ftable p = some t) R (setFtable p t')
  setVn : ∀ {p : Nat} {n n' : Vnode} {P : Fs → Prop}, n'.state = n.state →
    n'.data = n.data → KeepsFrom (fun s => P s ∧ s.vnode p = some n) R (setVn p n')
  freeFile : ∀ p, Keeps R (freeFile p)

attribute [instance] Handles.freeFile

section Files

variable {R : Fs → Fs → Prop} [Std.Refl R] [Trans R R R] [Handles R] {p t file : Nat} {fd : Int}

instance : Keeps R (fCleanup p) := by unfold fCleanup; infer_instance

instance : Keeps R (fRelease p) := by
  refine .orElse (keeps_deref fun f => ?_)
  exact .seq (Handles.setFile rfl)

instance : Keeps R (fGetref p) :=
  .orElse (keeps_deref fun _ => Handles.setFile rfl)

instance : Keeps R (ftableAllocFd t) := by
  refine keeps_deref fun tab => ?_
  obtain ⟨fd, bitmap⟩ := Bmp.bitmapGetSetFree tab.bitmap
  exact .seq (Handles.setFtable fun _ => .inl rfl)

instance : Keeps R (ftableClaimFd t fd) := by
  refine .orElse (.step fun _ => ?_)
  refine keeps_deref fun tab => .skip fun b => ?_
  refine .ite (fun _ => Keeps.weaken) fun _ => .skip fun r => ?_
  exact .seq (Handles.setFtable fun _ => .inl rfl)

instance : Keeps R (ftableFreeFd t fd) := by
  refine .orElse (.step fun _ => ?_)
  exact keeps_deref fun tab => .skip fun r => Handles.setFtable fun _ => .inl rfl

instance : Keeps R (ftableGetFile t fd) := by unfold ftableGetFile; infer_instance

instance : Keeps R (ftableRemoveFile t fd) := by
  refine .step fun _ => keeps_deref fun tab => ?_
  refine .ite (fun _ => Keeps.weaken) fun _ => ?_
  refine .seq (Handles.setFtable fun k => ?_)
  by_cases hk : k = fdKey fd
  · exact .inr (hk ▸ Function.update_self _ _ _)
  · exact .inl (Function.update_of_ne hk _ _)

instance : Keeps R (curFile fd) := by unfold curFile; infer_instance

instance {a : OpenArgs} {res : Except Errno Int} : Keeps R (openFree a res) := by
  unfold openFree
  split <;> infer_instance

instance : Keeps R (openFd t fd) := by unfold openFd; infer_instance

instance {r : Except Errno Nat} : Keeps R (advance p r) := by
  unfold advance
  split
  · infer_instance
  · exact keeps_deref fun f => Handles.setFile rfl

variable {α : Type} {ve vn : Nat} {a : OpenArgs} {n : Vnode}

omit [Std.Refl R] [Trans R R R] in
theorem onFs_setFile {f' : File} (hflags : f'.flags = f.flags) :
    KeepsFrom (fun s => P s ∧ s.fs.file p = some f) (OnFs R) (onFs (setFile p f')) :=
  (keepsFrom_onFs (Handles.setFile (P := fun _ => True) hflags)).weaken fun _ h => ⟨trivial, h.2⟩

omit [Std.Refl R] [Trans R R R] in
theorem onFs_setVn {n' : Vnode} (hstate : n'.state = n.state) (hdata : n'.data = n.data) :
    KeepsFrom (fun s => P s ∧ s.fs.vnode p = some n) (OnFs R) (onFs (setVn p n')) :=
  (keepsFrom_onFs (Handles.setVn (P := fun _ => True) hstate hdata)).weaken fun _ h =>
    ⟨trivial, h.2⟩

/-- Taking the lock of a file leaves the file system alone. -/
theorem fLock_fs {s s' : Sys} {b : Bool} (h : fLock p s = .ok (b, s')) : s'.fs = s.fs := by
  obtain ⟨-, f, -, h⟩ := onFs_deref_bind_eq_ok h
  split at h
  · cases h
    rfl
  · obtain ⟨s2, s3, hstate, h⟩ := run_bind_ok h
    cases hstate
    split at h
    · cases h
    · cases h
      rfl

/-- It is only refused for a file that is closed. -/
theorem fLock_closed {s s' : Sys} (h : fLock p s = .ok (false, s'))
    (hf : s.fs.file p = some f) : f.closed = true := by
  obtain ⟨-, g, hg, h⟩ := onFs_deref_bind_eq_ok h
  obtain rfl : g = f := Option.some.inj (hg.symm.trans hf)
  split at h
  next hclosed => exact hclosed
  · obtain ⟨s2, s3, hstate, h⟩ := run_bind_ok h
    split at h
    · cases h
    · cases h

instance : Keeps (OnFs R) (fLock p) := by unfold fLock; infer_instance
instance : Keeps (OnFs R) (fUnlock p) := by unfold fUnlock; infer_instance

instance {r : α} : Keeps (OnFs R) (fileRet p r) := by unfold fileRet; infer_instance
instance {r : α} : Keeps (OnFs R) (fileRetUnlock p r) := by
  unfold fileRetUnlock
  infer_instance

instance {res : Except Errno Int} : Keeps (OnFs R) (openRet a ve res) := by
  unfold openRet
  infer_instance

instance {res : Except Errno Int} : Keeps (OnFs R) (openRetUnlock a ve res) := by
  unfold openRetUnlock
  infer_instance

instance : Keeps (OnFs R) (closeDone p vn fd) := by
  refine .step fun pr => .step fun _ => ?_
  refine .step fun _ => keeps_onFs_deref fun f => ?_
  have hvn : Keeps (OnFs R) (do
      let n ← onFs (getVn vn)
      onFs (setVn vn { n with nopen := n.nopen - 1 })
      vnUnlock vn
      fileRetUnlock p (.ok ()) : SysM (Except Errno Unit)) :=
    keeps_onFs_deref fun n => .seq (onFs_setVn rfl rfl)
  exact .seq (onFs_setFile rfl)

instance : Keeps (OnFs R) (closeDevice p vn n fd) := by
  refine .orElse (.step fun d => ?_)
  split <;> infer_instance

instance : Keeps (OnFs R) (closeLocked p fd) := by unfold closeLocked; infer_instance
instance {proc : Nat} : Keeps (OnFs R) (fsProcClose proc fd) := by
  unfold fsProcClose
  infer_instance

instance {r : Except Errno Nat × Kio} : Keeps (OnFs R) (finishTransfer p r) := by
  unfold finishTransfer
  infer_instance

instance {kio : Kio} : Keeps (OnFs R) (fsKread fd kio) := by unfold fsKread; infer_instance

theorem keeps_appendOffset :
    KeepsFrom (fun s => p ≠ 0 ∧ s.file p = some f) R (appendOffset p f n) :=
  .ite (fun _ => .seq (Handles.setFile rfl)) fun _ => Keeps.weaken

instance {kio : Kio} [Writes R] : Keeps (OnFs R) (fsKwrite fd kio) := by
  refine .step fun _ => .step fun file => ?_
  refine .orElse (keeps_onFs_deref fun f => ?_)
  refine .skip fun n => .ite (fun _ => Keeps.weaken) fun _ => ?_
  refine .ite (fun _ => Keeps.weaken) fun _ => ?_
  refine .bind (Q := fun _ s => file ≠ 0 ∧ s.fs.file file = some f) Keeps.weaken ?_ fun b => ?_
  · intro s b s' hs h
    rwa [fLock_fs h]
  · exact .ite (fun _ => .seq (keepsFrom_onFs keeps_appendOffset)) fun _ =>
      Keeps.weaken

instance {offset whence : Int} : Keeps (OnFs R) (seekLocked p offset whence) := by
  refine keeps_onFs_deref fun f => .skip fun n => ?_
  split
  · exact Keeps.weaken
  · exact .ite (fun _ => Keeps.weaken) fun _ => .seq (onFs_setFile rfl)

instance {offset whence : Int} : Keeps (OnFs R) (fsLseek fd offset whence) := by
  unfold fsLseek
  infer_instance

end Files

/-- New files and descriptors keep the relation as well. -/
class OpensFiles (R : Fs → Fs → Prop) : Prop extends Handles R where
  newFile : ∀ f, Keeps R (newFile f)
  setTable : ∀ p t, Keeps R (Vfs.setFtable p t)

attribute [instance] OpensFiles.newFile OpensFiles.setTable

section OpensFiles

variable {R : Fs → Fs → Prop} [Std.Refl R] [Trans R R R] [OpensFiles R] {p ve vn : Nat} {fd : Int}
  {path : Str} {flags : Flags} {n : Vnode} {a : OpenArgs}

instance : Keeps R (fAlloc fd flags vn path) := by unfold fAlloc; infer_instance
instance : Keeps R (ftableAddFile p ve) := by unfold ftableAddFile; infer_instance

instance : Keeps (OnFs R) (openDone a ve vn path) := by
  refine .step fun _ => keeps_onFs_deref fun n => ?_
  exact .seq (onFs_setVn rfl rfl)

instance : Keeps (OnFs R) (openDevice a ve vn n path) := by
  refine .orElse (.step fun d => ?_)
  split
  · infer_instance
  · split <;> infer_instance

instance : Keeps (OnFs R) (openVe a ve path) := by
  refine .step fun e => .orElse ?_
  refine .step fun n => .orElse ?_
  refine .step fun r => ?_
  cases r <;> infer_instance

instance : Keeps (OnFs R) (fsDup fd) := by unfold fsDup dupLocked; infer_instance

end OpensFiles

end Osdev.Vfs
