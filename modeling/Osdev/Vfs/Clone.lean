import Osdev.RbTree.Map
import Osdev.Vfs.Mount

/-!
# Cloning a table of descriptors (`ftable_clone`)

`ftable_clone` walks the nodes of the tree, so here the table is the one in memory, with the
red-black tree of `lib/rb_tree.c`. `FtableMem.Holds` says which table of the file system it is.

The function allocates a tree and a bitmap for the table that it should read, not for the clone, and
the sentinel of the new tree is not `NULL`. It looks at the file of the sentinel and never returns.
-/

namespace Osdev.Vfs

open Osdev.Lib
open Osdev.Rb (RbTree)

/-- `ftable_t` with the memory of its tree; `none` is `NULL`. -/
structure FtableMem where
  tree : Option RbTree
  bitmap : Option Bmp.Bitmap
  count : Nat

/-- What the memory of the new tree and of the two bitmaps held before. -/
structure OldMem where
  tree : RbTree
  bitmap : Nat → Bmp.Word
  clone : Nat → Bmp.Word

/-- The address of a new object. -/
def kmalloc : FsM Nat := fun s => .ok (s.brk, { s with brk := s.brk + 1 })

/-- `f_dup`. The path is not copied. -/
def fDup (p : Nat) : FsM Nat := do
  let f ← getFile p
  vnGetref f.vnode
  newFile { f with realPath := [], refcount := 1, offset := 0, closed := false }

/-- The three updates of the clone for one file. -/
def FtableMem.insert (t : FtableMem) (fd : Int) (file : Nat) : FsM FtableMem :=
  match t.tree with
  | none => throw .null
  | some tree => do
    let z ← kmalloc
    match Rb.rbTreeInsert Rb.noEvents ⟨tree, ()⟩ z (fdKey fd) file with
    | none => throw .diverged
    | some st =>
      match t.bitmap with
      | none => throw .null
      | some bitmap => do
        let (_, bitmap) ← ofBitmap (Bmp.bitmapSet bitmap (fdKey fd))
        pure ⟨some st.tree, some bitmap, addWord t.count 1⟩

/-- The loop of `ftable_clone`. Neither branch goes on to another node. -/
def ftableCloneLoop (tree : RbTree) (node : Nat) : Nat → FtableMem → FsM FtableMem
  | 0, _ => throw .diverged
  | fuel + 1, clone =>
    if node = 0 then pure clone
    else do
      let file := tree.data node
      let f ← getFile file
      if f.closed then ftableCloneLoop tree node fuel clone
      else do
        let dup ← fDup file
        let clone ← clone.insert f.fd dup
        ftableCloneLoop tree node fuel clone

/-- `ftable_clone`: the clone, and the table that was to be cloned as it is left. -/
def ftableClone (fuel : Nat) (old : OldMem) (t : FtableMem) : FsM (FtableMem × FtableMem) := do
  let clone : FtableMem := ⟨none, none, 0⟩
  let nil ← kmalloc
  let tree := Rb.createRbTree old.tree nil
  let bitmap := Bmp.createBitmap old.bitmap 0 ftableMaxFiles
  let bitmap := Bmp.cloneBitmap old.clone 0 bitmap
  let clone ← ftableCloneLoop tree tree.min fuel clone
  pure (clone, { t with tree := some tree, bitmap := some bitmap })

/-! ## What the clone is for -/

/-- The memory holds a table: the tree is one that insertions and deletions make. -/
structure FtableMem.Holds (m : FtableMem) (t : Ftable) : Prop where
  tree : ∃ r, Reach Rb.Run.Empty Rb.Call r ∧ m.tree = some r.tree ∧
    ∀ key, t.tree key = ((r.content key).map Prod.snd).getD 0
  bitmap : m.bitmap = some t.bitmap
  count : m.count = t.count

/-- The table `c` after the call has the descriptors that `t` had before it. -/
structure Inherits (s s' : Fs) (t c : Ftable) : Prop where
  allocated : ∀ fd, c.bitmap.bit fd = t.bitmap.bit fd
  descriptors : ∀ key, c.tree key = 0 ↔ t.tree key = 0
  files : ∀ key f, t.tree key ≠ 0 → s.file (t.tree key) = some f →
    ∃ g, s'.file (c.tree key) = some g ∧ g.vnode = f.vnode ∧ g.flags = f.flags
  unchanged : ∀ key, s'.file (t.tree key) = s.file (t.tree key)

/-- The call returns a table with the same descriptors and leaves its argument as it was. -/
def Clones (old : OldMem) (s : Fs) (m : FtableMem) (t : Ftable) : Prop :=
  ∃ fuel clone m' s' c, ftableClone fuel old m s = .ok ((clone, m'), s') ∧ m'.Holds t ∧
    clone.Holds c ∧ Inherits s s' t c

section Never

variable {fuel : Nat} {old : OldMem} {s : Fs} {m : FtableMem} {t : Ftable}

/-- The first file of the loop is that of the sentinel, which has none. -/
theorem ftableCloneLoop_null {tree : RbTree} {node : Nat} {clone : FtableMem} (hnode : node ≠ 0)
    (hdata : tree.data node = 0) : ftableCloneLoop tree node (fuel + 1) clone s = .error .null := by
  rw [ftableCloneLoop, if_neg hnode, hdata]
  rfl

theorem ftableClone_null (hs : s.brk ≠ 0) : ftableClone (fuel + 1) old m s = .error .null := by
  have hnil : (Rb.createRbTree old.tree s.brk).data s.brk = 0 := if_pos rfl
  rw [ftableClone, run_bind (show kmalloc s = .ok (s.brk, { s with brk := s.brk + 1 }) from rfl)]
  exact run_bind_error (ftableCloneLoop_null hs hnil) _

/-- **`ftable_clone` never clones a table**, whatever files are open: it dereferences `NULL`. -/
theorem not_clones (hs : s.brk ≠ 0) :
    (∀ fuel, ftableClone (fuel + 1) old m s = .error .null) ∧ ¬ Clones old s m t := by
  refine ⟨fun fuel => ftableClone_null hs, ?_⟩
  rintro ⟨fuel, clone, m', s', c, h, -⟩
  cases fuel with
  | zero => cases h
  | succ fuel =>
    simp [ftableClone_null hs] at h

end Never

/-! ## A table with one open file -/

/-- Memory that holds zeros. -/
def blankMem : OldMem := ⟨Rb.blank, fun _ => 0, fun _ => 0⟩

/-- A file at address 1, opened for reading as descriptor 0. -/
def oneFile : Fs :=
  { bareFs sumHash with
    file := store (fun _ => none) 1 (some
      { fd := 0, flags := 0, type := .reg, vnode := 2, realPath := [slash, 0x66], refcount := 1,
        offset := 0, closed := false })
    brk := 5 }

/-- The table of the process that opened it. -/
def oneTable : Ftable where
  tree := Function.update (fun _ => 0) 0 1
  bitmap := { Bmp.createBitmap (fun _ => 0) 0 ftableMaxFiles with
    map := Function.update (fun _ => 0) 0 1, free := 1023, used := 1 }
  count := 1

/-- The tree of the table, with its sentinel at address 3 and its node at address 4. -/
theorem exists_oneTable : ∃ m : FtableMem, m.Holds oneTable := by
  have h0 : Reach Rb.Run.Empty Rb.Call ⟨Rb.createRbTree Rb.blank 3, fun _ => none⟩ :=
    .start ⟨Rb.blank, 3, rfl⟩
  have hv : (Rb.Op.insert 4 0 1).Valid ⟨Rb.createRbTree Rb.blank 3, fun _ => none⟩ :=
    ⟨rfl, by decide, by simp⟩
  obtain ⟨r, hr, -, hcontent⟩ := Rb.exists_insert 4 0 1 h0 hv
  refine ⟨⟨some r.tree, some oneTable.bitmap, 1⟩, ⟨r, hr, rfl, fun key => ?_⟩, rfl, rfl⟩
  rw [hcontent]
  obtain rfl | hkey := eq_or_ne key 0
  · rfl
  · rw [if_neg hkey]
    show Function.update (fun _ => 0) 0 1 key = 0
    rw [Function.update_of_ne hkey]

theorem oneFile_not_clones : ∃ m : FtableMem, m.Holds oneTable ∧
    (∀ fuel, ftableClone (fuel + 1) blankMem m oneFile = .error .null) ∧
      ¬ Clones blankMem oneFile m oneTable := by
  obtain ⟨m, hm⟩ := exists_oneTable
  exact ⟨m, hm, not_clones (by decide)⟩

/-- **The clone of a table with one open file**: the kernel dereferences `NULL`. -/
theorem oneFile_clone_faults : ∃ m : FtableMem, m.Holds oneTable ∧
    (oneFile.file (oneTable.tree 0)).isSome ∧ ftableClone 1 blankMem m oneFile = .error .null := by
  obtain ⟨m, hm⟩ := exists_oneTable
  exact ⟨m, hm, by decide, ftableClone_null (by decide)⟩

end Osdev.Vfs
