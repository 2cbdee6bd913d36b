import Osdev.Base
import Osdev.RbTree.Model

/-!
# Interval trees (`lib/interval_tree.c`)

An interval tree is a red-black tree whose keys are interval starts and whose data are pointers to
`intvl_node_t` records. The records form the state of the callbacks. They hold the augmented
`max` and `min` values, which the callbacks copy and recompute.
-/

namespace Osdev.Intvl

open Osdev.Rb

/-! ## Intervals -/

/-- `interval_t`; `stop` is the field `end`. -/
structure Interval where
  start : Nat
  stop : Nat
  deriving DecidableEq, Repr

/-- `UINT64_MAX`. -/
def uint64Max : Nat := word - 1

/-- `NULL_SET`. -/
def nullSet : Interval := ⟨uint64Max, 0⟩

/-- `is_null_set`. -/
def isNullSet (i : Interval) : Bool := i.start = uint64Max ∧ i.stop = 0

/-- `intersection`. -/
def intersection (i j : Interval) : Interval :=
  if j.start ≥ i.stop ∨ i.start ≥ j.stop then nullSet
  else ⟨max i.start j.start, min i.stop j.stop⟩

/-- `overlaps`. -/
def overlaps (i j : Interval) : Bool := !isNullSet (intersection i j)

theorem overlaps_iff (i j : Interval) :
    overlaps i j = true ↔ j.start < i.stop ∧ i.start < j.stop := by
  unfold overlaps intersection isNullSet nullSet
  split
  · simp
    omega
  · simp
    omega

/-! ## Records -/

/-- The memory of `intvl_node_t` records: one function for each field, from the address. -/
structure Intervals where
  node : Nat → Nat
  start : Nat → Nat
  stop : Nat → Nat
  max : Nat → Nat
  min : Nat → Nat
  data : Nat → Nat

namespace Intervals

def interval (m : Intervals) (p : Nat) : Interval := ⟨m.start p, m.stop p⟩

def setMinMax (m : Intervals) (p mn mx : Nat) : Intervals :=
  { m with min := fun q => if q = p then mn else m.min q
           max := fun q => if q = p then mx else m.max q }

end Intervals

/-- The test that `get_interval`, `get_max` and `get_min` begin with. -/
def noRecord (t : RbTree) (x : Nat) : Bool := x = 0 ∨ x = t.nil ∨ t.data x = 0

/-- `get_interval`. -/
def getInterval (t : RbTree) (m : Intervals) (x : Nat) : Interval :=
  if noRecord t x then nullSet else m.interval (t.data x)

/-- `get_max`. -/
def getMax (t : RbTree) (m : Intervals) (x : Nat) : Nat :=
  if noRecord t x then 0 else m.max (t.data x)

/-- `get_min`. -/
def getMin (t : RbTree) (m : Intervals) (x : Nat) : Nat :=
  if noRecord t x then uint64Max else m.min (t.data x)

/-! ## Callbacks -/

/-- One round of `recalculate_min_max`. -/
def recalculate (t : RbTree) (m : Intervals) (x : Nat) : Intervals :=
  let xd := t.data x
  m.setMinMax xd
    (min (m.start xd) (min (getMin t m (t.child x .left)) (getMin t m (t.child x .right))))
    (max (m.stop xd) (max (getMax t m (t.child x .left)) (getMax t m (t.child x .right))))

/-- The loop of `recalculate_min_max`. -/
def recalculateLoop (t : RbTree) : Nat → Intervals → Nat → Option Intervals
  | 0, _, _ => none
  | fuel + 1, m, x =>
    if x ≠ t.nil then recalculateLoop t fuel (recalculate t m x) (t.parent x) else some m

/-- `recalculate_min_max`. -/
def recalculateMinMax (t : RbTree) (m : Intervals) (x : Nat) : Option Intervals :=
  recalculateLoop t (t.nodes + 2) m x

/-- `post_rotate_callback`. -/
def postRotateCallback (t : RbTree) (x y : Nat) (m : Intervals) : Option Intervals :=
  let xd := t.data x
  let yd := t.data y
  recalculateMinMax t (m.setMinMax yd (m.min xd) (m.max xd)) x

/-- `post_insert_callback`. -/
def postInsertCallback (t : RbTree) (z : Nat) (m : Intervals) : Option Intervals :=
  recalculateMinMax t { m with node := fun q => if q = t.data z then z else m.node q } z

/-- `replace_node_callback`. -/
def replaceNodeCallback (t : RbTree) (u v : Nat) (m : Intervals) : Option Intervals :=
  if t.data v ≠ 0 then some (m.setMinMax (t.data v) (m.min (t.data u)) (m.max (t.data u)))
  else some m

/-- The callbacks that `create_intvl_tree` installs. -/
def events : Events Intervals where
  postRotate := postRotateCallback
  postInsertNode := postInsertCallback
  replaceNode := replaceNodeCallback

/-! ## Search -/

/--
The loop of `intvl_tree_find` and `intvl_tree_get_point`: the node where it ends. The two compare
the maximum of the left child with the same number, `point`.
-/
def searchLoop (t : RbTree) (m : Intervals) (i : Interval) (point : Nat) : Nat → Nat → Option Nat
  | 0, _ => none
  | fuel + 1, node =>
    if node ≠ t.nil ∧ ¬ overlaps i (getInterval t m node) then
      if t.child node .left ≠ t.nil ∧ getMax t m (t.child node .left) > point then
        searchLoop t m i point fuel (t.child node .left)
      else searchLoop t m i point fuel (t.child node .right)
    else some node

/-- `intvl_tree_find`; `0` is `NULL`. -/
def intvlTreeFind (t : RbTree) (m : Intervals) (i : Interval) : Option Nat := do
  let node ← searchLoop t m i i.start (t.nodes + 2) t.root
  some (t.data node)

/-- `intvl_tree_get_point`; `0` is `NULL`. -/
def intvlTreeGetPoint (t : RbTree) (m : Intervals) (point : Nat) : Option Nat := do
  let node ← searchLoop t m ⟨point, (point + 1) % word⟩ point (t.nodes + 2) t.root
  if node ≠ t.nil then some (m.data (t.data node)) else some 0

/-! ## Gaps -/

/-- `check_gap`. -/
def checkGap (gapStart gapEnd size al : Nat) : Bool :=
  let start := align gapStart al
  start < gapEnd ∧ size ≤ gapEnd - start

/-- `make_aligned_interval`. -/
def makeAlignedInterval (start size al : Nat) : Interval :=
  let start := align start al
  ⟨start, addWord start size⟩

/-- The first node whose interval starts at `start` or above, searched from the root down. -/
def closestGreater (t : RbTree) (m : Intervals) (start : Nat) : Nat → Nat → Nat → Option Nat
  | 0, _, _ => none
  | fuel + 1, current, best =>
    if current ≠ t.nil then
      if start ≤ m.start (t.data current) then
        closestGreater t m start fuel (t.child current .left) current
      else closestGreater t m start fuel (t.child current .right) best
    else some best

/-- Where the gap after `prev` starts; with no node before it, at `start`. -/
def gapStart (t : RbTree) (m : Intervals) (start prev : Nat) : Nat :=
  if prev ≠ t.nil then max start (m.stop (t.data prev)) else start

/-- The record that `prev_node` is set to; `0` is `NULL`. -/
def prevRecord (t : RbTree) (prev : Nat) : Nat := if prev ≠ t.nil then t.data prev else 0

/-- The walk through the list of nodes, and what follows it. -/
def gapLoop (t : RbTree) (m : Intervals) (size al : Nat) :
    Nat → Nat → Nat → Nat → Option (Interval × Nat)
  | 0, _, _, _ => none
  | fuel + 1, current, prev, start =>
    if current ≠ t.nil then
      if checkGap (gapStart t m start prev) (m.start (t.data current)) size al then
        some (makeAlignedInterval (gapStart t m start prev) size al, prevRecord t prev)
      else gapLoop t m size al fuel (t.next current) current (max start (m.stop (t.data current)))
    else some (makeAlignedInterval (gapStart t m start prev) size al, prevRecord t prev)

/-- `intvl_tree_find_free_gap`: the interval, and the record that `prev_node` is set to. -/
def intvlTreeFindFreeGap (t : RbTree) (m : Intervals) (i : Interval) (al : Nat) :
    Option (Interval × Nat) := do
  let size := subWord i.stop i.start
  let al := if al = 0 then 1 else al
  if t.root = t.nil then some (i, 0)
  else do
    let greater ← closestGreater t m i.start (t.nodes + 2) t.root t.nil
    let lesser := if greater ≠ t.nil then t.prev greater else t.max
    if greater ≠ t.nil ∧ checkGap (gapStart t m i.start lesser)
      (m.start (t.data greater)) size al then
      some (makeAlignedInterval (gapStart t m i.start lesser) size al, prevRecord t lesser)
    else gapLoop t m size al (t.nodes + 2) greater lesser i.start

/-! ## Updates -/

/-- `intvl_tree_insert`, when `kmalloc` returns `p` for the record and `z` for the node. -/
def intvlTreeInsert (s : State Intervals) (p z : Nat) (i : Interval) (data : Nat) :
    Option (State Intervals) :=
  let m := { s.data with
    start := fun q => if q = p then i.start else s.data.start q
    stop := fun q => if q = p then i.stop else s.data.stop q
    data := fun q => if q = p then data else s.data.data q }
  rbTreeInsert events ⟨s.tree, m⟩ z i.start p

/-- `intvl_tree_delete`. -/
def intvlTreeDelete (s : State Intervals) (i : Interval) : Option (State Intervals) := do
  let (s, _) ← rbTreeDelete events s i.start
  some s

/-- Adding an `off_t` to a `uint64_t`. -/
def addOffset (x : Nat) (d : Int) : Nat := ((x + d) % word).toNat

/-- `intvl_tree_update_interval`. -/
def intvlTreeUpdateInterval (s : State Intervals) (p : Nat) (ds de : Int) :
    Option (State Intervals) := do
  let m := s.data
  let start := addOffset (m.start p) ds
  let stop := addOffset (m.stop p) de
  let m := { m with start := fun q => if q = p then start else m.start q
                    stop := fun q => if q = p then stop else m.stop q }
  let m := m.setMinMax p (min (m.min p) (m.start p)) (max (m.max p) (m.stop p))
  let m ← recalculateMinMax s.tree m (m.node p)
  some { s with data := m }

end Osdev.Intvl
