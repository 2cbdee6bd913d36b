import Osdev.Lib.ColorTree

/-!
# Red-black trees (`lib/rb_tree.c`)

The model keeps the pointers: a node is an address, and `RbTree.node` is the memory of all nodes,
the shared sentinel `nil` among them. The sentinel is an ordinary node whose `parent` is
overwritten by deletion. Besides the tree, nodes form a list through `next` and `prev`.

The two mirror images of each rotation and of each fix-up body are one definition with a side.
`left` and `right` name the side that a C function names.

Callbacks (`rb_tree_events_t`) see the tree but change only data of their own, so they act on a
separate state `σ`. The callbacks that no user of the tree sets, and `post_delete_node`, whose
only implementation is empty, are left out. A loop that runs out of fuel, in a callback or in the
tree itself, gives `none`, and so does a write through the links of the sentinel, which
`create_rb_tree` leaves unset.
-/

namespace Osdev.Rb

open Osdev.Lib (Side Color)

/--
`rb_tree_t` with the memory of its nodes: one function for each field of `rb_node_t`, from the
address of the node. `child i .left` and `child i .right` are the fields `left` and `right`.
-/
structure RbTree where
  root : Nat
  nil : Nat
  min : Nat
  max : Nat
  /-- the field `nodes`; each insertion and deletion counts twice -/
  nodes : Nat
  key : Nat → Nat
  data : Nat → Nat
  color : Nat → Color
  child : Nat → Side → Nat
  parent : Nat → Nat
  next : Nat → Nat
  prev : Nat → Nat

namespace RbTree

def setChild (t : RbTree) (i : Nat) (d : Side) (v : Nat) : RbTree :=
  { t with child := fun j e => if j = i ∧ e = d then v else t.child j e }

def setParent (t : RbTree) (i v : Nat) : RbTree :=
  { t with parent := fun j => if j = i then v else t.parent j }

def setColor (t : RbTree) (i : Nat) (c : Color) : RbTree :=
  { t with color := fun j => if j = i then c else t.color j }

def setNext (t : RbTree) (i v : Nat) : RbTree :=
  { t with next := fun j => if j = i then v else t.next j }

def setPrev (t : RbTree) (i v : Nat) : RbTree :=
  { t with prev := fun j => if j = i then v else t.prev j }

/-- Make `v` take the place of the child `u` of `p`; `p = nil` is the place of the root. -/
def setLink (t : RbTree) (p u v : Nat) : RbTree :=
  if p = t.nil then { t with root := v }
  else if u = t.child p .left then t.setChild p .left v
  else t.setChild p .right v

end RbTree

/-- `rb_tree_events_t`. -/
structure Events (σ : Type) where
  postRotate : RbTree → Nat → Nat → σ → Option σ
  postInsertNode : RbTree → Nat → σ → Option σ
  replaceNode : RbTree → Nat → Nat → σ → Option σ

/-- A tree with `events == NULL`. -/
def noEvents : Events Unit where
  postRotate _ _ _ := some
  postInsertNode _ _ := some
  replaceNode _ _ _ := some

/-- A tree and the data of its callbacks. -/
structure State (σ : Type) where
  tree : RbTree
  data : σ

variable {σ : Type}

/-! ## Rotations and replacement -/

/-- The pointers that a rotation at `x` changes, with `y` the child that moves up. -/
def rotateTree (d : Side) (t : RbTree) (x y : Nat) : RbTree :=
  let t := t.setChild x d.flip (t.child y d)
  let t := if t.child y d ≠ t.nil then t.setParent (t.child y d) x else t
  let t := t.setParent y (t.parent x)
  let t := t.setLink (t.parent x) x y
  let t := t.setChild y d x
  t.setParent x y

/-- `rotate_left` for `d = left`, `rotate_right` for `d = right`. -/
def rotate (ev : Events σ) (d : Side) (s : State σ) (x : Nat) : Option (State σ) := do
  let y := s.tree.child x d.flip
  let t := rotateTree d s.tree x y
  let data ← ev.postRotate t x y s.data
  some ⟨t, data⟩

/-- The pointers that `replace_node` changes. -/
def replaceTree (t : RbTree) (u v : Nat) : RbTree :=
  let t := t.setLink (t.parent u) u v
  t.setParent v (t.parent u)

/-- `replace_node`. -/
def replaceNode (ev : Events σ) (s : State σ) (u v : Nat) : Option (State σ) := do
  let data ← ev.replaceNode s.tree u v s.data
  some ⟨replaceTree s.tree u v, data⟩

/-- `minimum`. -/
def minimum (t : RbTree) : Nat → Nat → Option Nat
  | 0, _ => none
  | fuel + 1, x =>
    if t.child x .left ≠ t.nil then minimum t fuel (t.child x .left) else some x

/-! ## Insertion -/

/-- One round of `insert_fixup`, when the parent of `z` is the child on side `d`. -/
def insertFixupSide (ev : Events σ) (d : Side) (s : State σ) (z : Nat) :
    Option (State σ × Nat) := do
  let t := s.tree
  let y := t.child (t.parent (t.parent z)) d.flip
  if t.color y = .red then
    let t := t.setColor (t.parent z) .black
    let t := t.setColor y .black
    let t := t.setColor (t.parent (t.parent z)) .red
    some (⟨t, s.data⟩, t.parent (t.parent z))
  else
    let (s, z) ←
      if z = t.child (t.parent z) d.flip then
        (fun s' => (s', t.parent z)) <$> rotate ev d s (t.parent z)
      else some (s, z)
    let t := s.tree
    let t := t.setColor (t.parent z) .black
    let t := t.setColor (t.parent (t.parent z)) .red
    let s ← rotate ev d.flip ⟨t, s.data⟩ (t.parent (t.parent z))
    some (s, z)

/-- The loop of `insert_fixup`. -/
def insertFixupLoop (ev : Events σ) : Nat → State σ → Nat → Option (State σ)
  | 0, _, _ => none
  | fuel + 1, s, z =>
    let t := s.tree
    if t.color (t.parent z) = .red then do
      let d := if t.parent z = t.child (t.parent (t.parent z)) .left then .left else .right
      let (s, z) ← insertFixupSide ev d s z
      insertFixupLoop ev fuel s z
    else some s

/-- `insert_fixup`. -/
def insertFixup (ev : Events σ) (fuel : Nat) (s : State σ) (z : Nat) : Option (State σ) := do
  let s ← insertFixupLoop ev fuel s z
  some { s with tree := s.tree.setColor s.tree.root .black }

/-- The search for the insertion point: the last node on the way down. -/
def insertPoint (t : RbTree) (key : Nat) : Nat → Nat → Nat → Option Nat
  | 0, _, _ => none
  | fuel + 1, x, y =>
    if x ≠ t.nil then
      insertPoint t key fuel (if key < t.key x then t.child x .left else t.child x .right) x
    else some y

/-- The search for the position in the list. -/
def listPoint (t : RbTree) (key : Nat) : Nat → Nat → Option Nat
  | 0, _ => none
  | fuel + 1, curr =>
    if curr ≠ t.nil ∧ t.key curr < key then listPoint t key fuel (t.next curr)
    else some curr

/-- Make `z` a child of `y`, or the root. -/
def linkChild (t : RbTree) (z y : Nat) : RbTree :=
  if y = t.nil then { t with root := z }
  else if t.key z < t.key y then t.setChild y .left z
  else t.setChild y .right z

/-- Link `z` below `y`. -/
def linkTree (t : RbTree) (z y : Nat) : RbTree :=
  let t := t.setParent z y
  let t := linkChild t z y
  let t := t.setColor z .red
  let t := t.setChild z .left t.nil
  t.setChild z .right t.nil

/-- Link `z` in the list, in front of `curr`. -/
def linkList (t : RbTree) (z curr : Nat) : RbTree :=
  if curr = t.nil then
    let t := t.setPrev z t.max
    let t := t.setNext z t.nil
    let t := t.setNext t.max z
    { t with max := z }
  else if curr = t.min then
    let t := t.setNext z t.min
    let t := t.setPrev z t.nil
    let t := t.setPrev t.min z
    { t with min := z }
  else
    let t := t.setNext z curr
    let t := t.setPrev z (t.prev curr)
    let t := t.setNext (t.prev curr) z
    t.setPrev curr z

/-- The first half of `insert_node`: `z` joins the tree and the list. -/
def linkNode (t : RbTree) (z : Nat) (fuel : Nat) : Option RbTree := do
  let y ← insertPoint t (t.key z) fuel t.root t.nil
  let t := linkTree t z y
  if t.nodes = 0 then
    let t := t.setPrev z t.nil
    let t := t.setNext z t.nil
    some { t with min := z, max := z }
  else
    let curr ← listPoint t (t.key z) fuel t.min
    some (linkList t z curr)

/-- `insert_node`. -/
def insertNode (ev : Events σ) (s : State σ) (z : Nat) : Option (State σ) := do
  let fuel := s.tree.nodes + 2
  let t ← linkNode s.tree z fuel
  let s ← insertFixup ev fuel ⟨t, s.data⟩ z
  let t := { s.tree with nodes := s.tree.nodes + 1 }
  let data ← ev.postInsertNode t z s.data
  some ⟨t, data⟩

/-- `rb_tree_insert_node`. -/
def rbTreeInsertNode (ev : Events σ) (s : State σ) (z : Nat) : Option (State σ) := do
  let s ← insertNode ev s z
  let t := s.tree
  let t :=
    if t.nodes = 0 then { t with min := z, max := z }
    else if t.key z < t.key t.min then { t with min := z }
    else if t.key t.max ≤ t.key z then { t with max := z }
    else t
  some { s with tree := { t with nodes := t.nodes + 1 } }

/-- `rb_tree_insert`, when `kmalloc` returns `z`. -/
def rbTreeInsert (ev : Events σ) (s : State σ) (z key data : Nat) : Option (State σ) :=
  let t := s.tree
  let t := { t with key := fun j => if j = z then key else t.key j
                    data := fun j => if j = z then data else t.data j }
  let t := t.setColor z .red
  let t := t.setParent z t.nil
  let t := t.setChild z .left t.nil
  let t := t.setChild z .right t.nil
  rbTreeInsertNode ev { s with tree := t } z

/-! ## Deletion -/

/-- Cases 1 and 5 of `delete_fixup`, when `x` is the child on side `d`: a red sibling. -/
def liftRedSibling (ev : Events σ) (d : Side) (s : State σ) (x : Nat) : Option (State σ) :=
  let t := s.tree
  let w := t.child (t.parent x) d.flip
  if t.color w = .red then
    let t := t.setColor w .black
    let t := t.setColor (t.parent x) .red
    rotate ev d ⟨t, s.data⟩ (t.parent x)
  else some s

/-- Cases 3 and 7: the child of the sibling `w` away from `x` is black. -/
def liftNearNephew (ev : Events σ) (d : Side) (s : State σ) (w : Nat) : Option (State σ) :=
  let t := s.tree
  if t.color (t.child w d.flip) = .black then
    let t := t.setColor (t.child w d) .black
    let t := t.setColor w .red
    rotate ev d.flip ⟨t, s.data⟩ w
  else some s

/-- Cases 4 and 8: the sibling `w` takes the place of its parent. -/
def liftSibling (ev : Events σ) (d : Side) (s : State σ) (x : Nat) : Option (State σ) :=
  let t := s.tree
  let w := t.child (t.parent x) d.flip
  let t := t.setColor w (t.color (t.parent x))
  let t := t.setColor (t.parent x) .black
  let t := t.setColor (t.child w d.flip) .black
  rotate ev d ⟨t, s.data⟩ (t.parent x)

/-- One round of `delete_fixup`, when `x` is the child on side `d`. -/
def deleteFixupSide (ev : Events σ) (d : Side) (s : State σ) (x : Nat) :
    Option (State σ × Nat) := do
  let s ← liftRedSibling ev d s x
  let t := s.tree
  let w := t.child (t.parent x) d.flip
  if t.color (t.child w d) = .black ∧ t.color (t.child w d.flip) = .black then
    some ({ s with tree := t.setColor w .red }, t.parent x)
  else
    let s ← liftNearNephew ev d s w
    let s ← liftSibling ev d s x
    some (s, s.tree.root)

/-- The loop of `delete_fixup`: where `x` is in the end. -/
def deleteFixupLoop (ev : Events σ) : Nat → State σ → Nat → Option (State σ × Nat)
  | 0, _, _ => none
  | fuel + 1, s, x =>
    let t := s.tree
    if x ≠ t.root ∧ t.color x = .black then do
      let d := if x = t.child (t.parent x) .left then .left else .right
      let (s, x) ← deleteFixupSide ev d s x
      deleteFixupLoop ev fuel s x
    else some (s, x)

/-- `delete_fixup`. -/
def deleteFixup (ev : Events σ) (fuel : Nat) (s : State σ) (x : Nat) : Option (State σ) := do
  let (s, x) ← deleteFixupLoop ev fuel s x
  some { s with tree := s.tree.setColor x .black }

/-- Take `z` out of the list. -/
def unlinkList (t : RbTree) (z : Nat) : RbTree :=
  let t :=
    if t.prev z ≠ t.nil then t.setNext (t.prev z) (t.next z) else { t with min := t.next z }
  if t.next z ≠ t.nil then t.setPrev (t.next z) (t.prev z) else { t with max := t.prev z }

/-- Give `y` the left subtree and the colour of `z`. -/
def inherit (t : RbTree) (z y : Nat) : RbTree :=
  let t := t.setChild y .left (t.child z .left)
  let t := t.setParent (t.child y .left) y
  t.setColor y (t.color z)

/-- Take `y`, the leftmost node right of `z`, from its place; `x` is its right child. -/
def detach (ev : Events σ) (s : State σ) (z y x : Nat) : Option (State σ) := do
  if s.tree.parent y = z then some { s with tree := s.tree.setParent x y }
  else
    let s ← replaceNode ev s y x
    let t := s.tree.setChild y .right (s.tree.child z .right)
    some { s with tree := t.setParent (t.child y .right) y }

/-- Take `z` out of the tree; returns `x` and the original colour of `y`. -/
def unlinkTree (ev : Events σ) (fuel : Nat) (s : State σ) (z : Nat) :
    Option (State σ × Nat × Color) := do
  let t := s.tree
  if t.child z .left = t.nil then
    let s ← replaceNode ev s z (t.child z .right)
    some (s, t.child z .right, t.color z)
  else if t.child z .right = t.nil then
    let s ← replaceNode ev s z (t.child z .left)
    some (s, t.child z .left, t.color z)
  else
    let y ← minimum t fuel (t.child z .right)
    let s ← detach ev s z y (t.child y .right)
    let s ← replaceNode ev s z y
    some ({ s with tree := inherit s.tree z y }, t.child y .right, t.color y)

/-- `delete_node`. -/
def deleteNode (ev : Events σ) (s : State σ) (z : Nat) : Option (State σ) := do
  let fuel := s.tree.nodes + 2
  let (s, x, origColor) ← unlinkTree ev fuel { s with tree := unlinkList s.tree z } z
  let s := { s with tree := { s.tree with nodes := s.tree.nodes - 1 } }
  if origColor = .black then deleteFixup ev fuel s x else some s

/-- `rb_tree_delete_node`; returns the data of the node. -/
def rbTreeDeleteNode (ev : Events σ) (s : State σ) (z : Nat) : Option (State σ × Nat) := do
  let s ← deleteNode ev s z
  let t := s.tree
  let t :=
    if t.nodes = 1 then { t with min := t.nil, max := t.nil }
    else if z = t.min then
      if t.nodes = 2 then { t with min := t.max } else { t with min := t.parent z }
    else if z = t.max then { t with max := t.parent z }
    else t
  some ({ s with tree := { t with nodes := t.nodes - 1 } }, t.data z)

/-! ## Lookup -/

/-- The loop of `rb_tree_find_node`. -/
def findLoop (t : RbTree) (key : Nat) : Nat → Nat → Option Nat
  | 0, _ => none
  | fuel + 1, x =>
    if x ≠ t.nil then
      if key = t.key x then some x
      else findLoop t key fuel (if key < t.key x then t.child x .left else t.child x .right)
    else some t.nil

/-- `rb_tree_find_node`. -/
def rbTreeFindNode (t : RbTree) (key : Nat) : Option Nat := findLoop t key (t.nodes + 2) t.root

/-- `rb_node_is_nil`. -/
def rbNodeIsNil (t : RbTree) (x : Nat) : Bool := t.data x = 0 ∧ x = t.parent x

/-- `rb_tree_find`; `0` is `NULL`. -/
def rbTreeFind (t : RbTree) (key : Nat) : Option Nat := do
  let x ← rbTreeFindNode t key
  if rbNodeIsNil t x then some 0 else some (t.data x)

/-- `rb_tree_delete`. If the sentinel is taken for a node, `delete_node` starts with a write through
its link `prev`. -/
def rbTreeDelete (ev : Events σ) (s : State σ) (key : Nat) : Option (State σ × Nat) := do
  let x ← rbTreeFindNode s.tree key
  if rbNodeIsNil s.tree x then some (s, 0)
  else if x = s.tree.nil then none
  else rbTreeDeleteNode ev s x

/-- `create_rb_tree`, in memory `m`, when `kmalloc` returns `nil` for the sentinel. -/
def createRbTree (m : RbTree) (nil : Nat) : RbTree :=
  let t := { m with root := nil, nil := nil, min := nil, max := nil, nodes := 0
                    key := fun j => if j = nil then 0 else m.key j
                    data := fun j => if j = nil then 0 else m.data j }
  let t := t.setColor nil .black
  let t := t.setChild nil .left nil
  let t := t.setChild nil .right nil
  t.setParent nil nil

end Osdev.Rb
