import Mathlib.Data.List.TakeWhile
import Mathlib.Data.List.Perm.Subperm
import Osdev.RbTree.Map

/-!
# Deleting a key that is not there

`rb_tree_delete` recognises the sentinel by its fields: it has no data, and it is its own parent. A
deletion that puts the sentinel in the place of a node stores the parent of that node in it, and
from then on the sentinel is taken for a node. Before such a deletion, deleting an absent key is
harmless (`absent_delete_harmless`), whatever keys were inserted, the same key several times
included.

With several nodes of one key the list through the nodes may lose some of them:
`rb_tree_insert_node` makes a node with the greatest key `max` although it is not the last one of
the list. So the invariant `Bagged` says less about the list than `Holds` does.
-/

namespace Osdev.Rb

open Osdev.Lib Osdev.Lib.ColorTree

variable {t : RbTree} {s : ColorTree Nat} {z : Nat}

/-! ## Trees with several nodes of one key -/

/-- The list from `min` on: it ends, it goes through `max`, and it need not have all nodes. -/
structure Chain (t : RbTree) (l : List Nat) : Prop where
  list : Seg t.next t.prev t.nil l t.nil
  nodup : l.Nodup
  min : t.min = l.headD t.nil
  max : l ≠ [] → t.max ∈ l

/-- Linking a node in a list that need not be in order. -/
theorem Chain.link {l : List Nat} {fuel : Nat} (h : Chain t l) (hne : l ≠ [])
    (h0 : ∀ i ∈ l, i ≠ t.nil)
    (hz : z ∉ l) (hz0 : z ≠ t.nil) (hf : l.length < fuel) :
    ∃ c n p mn mx l', listPoint t (t.key z) fuel t.min = some c ∧
      linkList t z c = { t with next := n, prev := p, min := mn, max := mx } ∧
      Chain { t with next := n, prev := p, min := mn, max := mx } l' ∧ z ∈ l' ∧
      (∀ i ∈ l', i = z ∨ i ∈ l) ∧ t.key mn ≤ t.key z := by
  generalize hkey : t.key z = key
  obtain ⟨hlist, hnd, hmin, hmax⟩ := h
  have hsplit := (List.takeWhile_append_dropWhile (p := fun i => t.key i < key) (l := l)).symm
  have hxs : ∀ i ∈ l.takeWhile (fun i => t.key i < key), t.key i < key := fun i hi => by
    simpa using List.mem_takeWhile_imp hi
  have hys : ∀ i ∈ (l.dropWhile (fun i => t.key i < key)).head?, key ≤ t.key i := fun i hi => by
    have := List.head?_dropWhile_not (fun i => decide (t.key i < key)) l
    rw [Option.mem_def.mp hi] at this
    simpa using this
  generalize l.takeWhile (fun i => t.key i < key) = xs at hsplit hxs
  generalize l.dropWhile (fun i => t.key i < key) = ys at hsplit hys
  subst hsplit
  rw [List.length_append] at hf
  have hpoint := listPoint_spec hlist h0 hxs hys (by omega : xs.length < fuel)
  rw [← hmin] at hpoint
  obtain rfl | hne' := eq_or_ne ys []
  · -- the new node comes behind `max`, and what was behind `max` is lost
    rw [List.append_nil] at hlist hnd hmin hmax hz hne h0 ⊢
    obtain ⟨a, b, rfl⟩ := List.append_of_mem (hmax hne)
    have hmax0 := h0 t.max (by simp)
    have heq := linkList_eq (t := t) (z := z) (c := t.nil) (p := t.max) hz0 (.inl ⟨rfl, rfl, hmax0⟩)
    rw [List.append_cons] at hlist hnd
    obtain ⟨hl, -⟩ := (seg_append _ _ _ _).mp hlist
    obtain ⟨hnd, -, -⟩ := List.nodup_append.mp hnd
    refine ⟨_, _, _, _, _, (a ++ [t.max]) ++ [z], hpoint, heq, ⟨?_, ?_, ?_, ?_⟩, by simp, ?_, ?_⟩
    · have hlast : ∀ i ∈ a ++ [t.max], i ≠ z := fun i hi he => hz (by grind)
      refine (seg_append _ _ _ _).mpr
        ⟨seg_relink_right hl hnd (fun i hi => ?_) (fun i hi => ?_), ?_⟩
      · simp [hmax0, hlast i hi]
      · simp [hlast i hi]
      · simp [Seg, (hlast t.max (by simp)).symm]
    · grind
    · grind
    · simp
    · grind
    · rw [if_pos hmax0]
      exact Nat.le_of_lt (hxs t.min (by rw [hmin]; cases a <;> simp))
  · obtain ⟨n, p, mn, mx, heq, hseg, hmn, rfl⟩ := linkList_spec hlist hmin
      (fun he => absurd he hne')
      hne hnd h0 hz hz0
    refine ⟨_, n, p, mn, _, xs ++ z :: ys, hpoint, heq, ⟨hseg, by grind, hmn, fun _ => ?_⟩, by simp,
      by grind, ?_⟩
    · have := hmax hne
      grind
    · cases xs with
      | nil => simp [hmn, hkey]
      | cons x xs => exact hmn ▸ Nat.le_of_lt (hxs x (by simp))

/-- A red-black tree whose sentinel is as `create_rb_tree` makes it; `l` is its list. -/
structure Bagged (t : RbTree) (s : ColorTree Nat) (l : List Nat) : Prop where
  here : Here t [] s
  nodup : s.toList.Nodup
  nodes : t.nodes = 2 * s.toList.length
  nilColor : t.color t.nil = .black
  nilData : t.data t.nil = 0
  nilParent : t.parent t.nil = t.nil
  wellColored : s.WellColored
  balanced : ∃ n, s.Balanced n
  chain : Chain t l
  listed : ∀ i ∈ l, i ∈ s.toList
  nonempty : s.toList ≠ [] → l ≠ []

/-- The tree after its only node was deleted. -/
def emptied (t : RbTree) : RbTree :=
  { t with root := t.nil, min := t.nil, max := t.nil, nodes := 0
           parent := fun j => if j = t.nil then t.nil else t.parent j
           color := fun j => if j = t.nil then .black else t.color j }

namespace Bagged

variable {l : List Nat}

theorem create (m : RbTree) (nil : Nat) : Bagged (createRbTree m nil) leaf [] where
  here := ⟨rfl, trivial⟩
  nodup := List.nodup_nil
  nodes := rfl
  nilColor := if_pos rfl
  nilData := if_pos rfl
  nilParent := if_pos rfl
  wellColored := ⟨rfl, trivial⟩
  balanced := ⟨0, rfl⟩
  chain := ⟨trivial, List.nodup_nil, rfl, fun h => absurd rfl h⟩
  listed := fun _ h => h
  nonempty := id

theorem fresh (h : Bagged t s l) (key data : Nat) (hz0 : z ≠ t.nil) (hz : z ∉ s.toList) :
    Bagged (fresh t z key data) s l where
  here := here_fresh h.here key data hz
  nodup := h.nodup
  nodes := h.nodes
  nilColor := (if_neg (Ne.symm hz0)).trans h.nilColor
  nilData := (if_neg (Ne.symm hz0)).trans h.nilData
  nilParent := (if_neg (Ne.symm hz0)).trans h.nilParent
  wellColored := h.wellColored
  balanced := h.balanced
  chain := ⟨h.chain.list, h.chain.nodup, h.chain.min, h.chain.max⟩
  listed := h.listed
  nonempty := h.nonempty

theorem ne_nil (h : Bagged t s l) : ∀ i ∈ s.toList, i ≠ t.nil := by
  intro i hi
  obtain ⟨k, c, a, b, rfl⟩ := ColorTree.exists_focus hi
  exact (here_plug.mpr h.here).sub.1

theorem length_le (h : Bagged t s l) : l.length ≤ s.toList.length :=
  (List.subperm_of_subset h.chain.nodup h.listed).length_le

/-- Linking a node: it is a red leaf of the tree, and it is in the list. -/
theorem linkNode (h : Bagged t s l) (hz0 : z ≠ t.nil) (hz : z ∉ s.toList) :
    ∃ t' k l', linkNode t z (t.nodes + 2) = some t' ∧ plug leaf k = s ∧
      Here t' k (node .red leaf z leaf) ∧ Chain t' l' ∧ z ∈ l' ∧ (∀ i ∈ l', i = z ∨ i ∈ l) ∧
      t'.key t'.min ≤ t'.key z ∧
      t'.nil = t.nil ∧ t'.key = t.key ∧ t'.data = t.data ∧ t'.nodes = t.nodes ∧
      t'.parent t.nil = t.parent t.nil ∧ t'.color t.nil = t.color t.nil := by
  obtain ⟨k, hy, hk, hguided⟩ := insertPoint_spec (t.key z) (t.nodes + 2) h.here
    (fun _ hf => absurd hf List.not_mem_nil) (by have := h.nodes; omega)
  rw [plug] at hk
  subst hk
  rw [← show t.root = _ from h.here.ctx] at hy
  have hnd := h.nodup
  have hzk := hz
  rw [toList_plug_leaf] at hnd hzk
  have hhere := here_linkTree (here_plug.mpr h.here) hnd hzk hz0 hguided
  have hrest : SameRest t (linkTree t z (up t.nil k)) := SameRest.linkTree hz0
  have hcolor := linkTree_color_nil (y := up t.nil k) hz0
  rw [Rb.linkNode,
    show insertPoint t (t.key z) (t.nodes + 2) t.root t.nil = some (up t.nil k) from hy]
  dsimp only [Option.bind_eq_bind, Option.bind_some]
  generalize linkTree t z (up t.nil k) = t1 at hhere hrest hcolor
  -- what is left is the list
  suffices hlist : ∃ n p mn mx l', (if t1.nodes = 0 then
      some { (t1.setPrev z t1.nil).setNext z t1.nil with min := z, max := z }
      else (listPoint t1 (t1.key z) (t.nodes + 2) t1.min).bind fun c => some (linkList t1 z c)) =
        some { t1 with next := n, prev := p, min := mn, max := mx } ∧
      Chain { t1 with next := n, prev := p, min := mn, max := mx } l' ∧ z ∈ l' ∧
      (∀ i ∈ l', i = z ∨ i ∈ l) ∧ t1.key mn ≤ t1.key z by
    obtain ⟨n, p, mn, mx, l', hrun, hchain, hz', hl', hle⟩ := hlist
    exact ⟨_, k, l', hrun, rfl, hhere.of_list _ _ _ _ _, hchain, hz', hl', hle,
      hrest.nil, hrest.key,
      hrest.data, hrest.nodes, hrest.nilParent, hcolor⟩
  have hchain : Chain t1 l := ⟨by rw [hrest.next, hrest.prev, hrest.nil]; exact h.chain.list,
    h.chain.nodup, by rw [hrest.min, hrest.nil]; exact h.chain.min,
    by rw [hrest.max]; exact h.chain.max⟩
  have hnodes := h.nodes
  by_cases hempty : (plug leaf k).toList = []
  · rw [hempty] at hnodes
    rw [if_pos (show t1.nodes = 0 from hrest.nodes.trans hnodes)]
    exact ⟨_, _, _, _, [z], rfl, ⟨⟨if_pos rfl, if_pos rfl, trivial⟩, List.nodup_singleton z, rfl,
      fun _ => List.mem_singleton_self z⟩, List.mem_singleton_self z, fun i hi =>
      .inl (List.mem_singleton.mp hi), Nat.le_refl _⟩
  · have hpos := List.length_pos_of_ne_nil hempty
    rw [if_neg (fun hx => by rw [hrest.nodes] at hx; omega)]
    have h0 : ∀ i ∈ l, i ≠ t1.nil := fun i hi => hrest.nil ▸ h.ne_nil i (h.listed i hi)
    obtain ⟨c, n, p, mn, mx, l', hpoint, heq, hrun⟩ := hchain.link (h.nonempty hempty) h0
      (fun hzl => hz (h.listed z hzl)) (hrest.nil ▸ hz0)
      (by have := h.length_le; omega : l.length < t.nodes + 2)
    rw [hpoint, Option.bind_some, heq]
    exact ⟨n, p, mn, mx, l', rfl, hrun⟩

/-- **Insertion of any key, in the tree or not, keeps the tree and the sentinel.** -/
theorem insert (h : Bagged t s l) (key data : Nat) (hz0 : z ≠ t.nil) (hz : z ∉ s.toList) :
    ∃ t' s' l', rbTreeInsert noEvents ⟨t, ()⟩ z key data = some ⟨t', ()⟩ ∧ Bagged t' s' l' ∧
      (∀ i, i ∈ s'.toList ↔ i = z ∨ i ∈ s.toList) ∧ t'.nil = t.nil := by
  rw [rbTreeInsert_eq]
  have hf := h.fresh key data hz0 hz
  have hnil : (Rb.fresh t z key data).nil = t.nil := rfl
  generalize Rb.fresh t z key data = t0 at hf hnil
  rw [← hnil] at hz0
  obtain ⟨t1, k, l', hlink, hk, hhere, hchain, hzl, hl', hle1, hnil1, -, hdata1, hnodes1,
    hparent1, hcolor1⟩ := hf.linkNode hz0 hz
  rw [← hk] at hz ⊢
  have hnd : (plug (node .red leaf z leaf) k).toList.Nodup := by
    have := hk ▸ hf.nodup
    rw [toList_plug_leaf] at this hz
    rw [toList_plug_red]
    grind
  obtain ⟨⟨t2, ⟨⟩⟩, s', m', hnode, hfixed, hcol, -⟩ := insertNode_linked noEvents
    ⟨t0, ()⟩ (J := fun _ _ => True) (K := fun _ _ => True) hlink
    ⟨hhere, hnd, SameRest.refl t1, by rw [hnil1, hcolor1]; exact hf.nilColor, trivial⟩
    (noEvents_ok t1) (hk ▸ hf.balanced) (hk ▸ hf.wellColored) (hk ▸ hf.nodes)
    (fun _ _ _ => ⟨(), rfl, trivial⟩)
  have hrest := hfixed.at_root.rest
  have hs' : s'.toList = Ctx.before k ++ z :: Ctx.after k := hfixed.toList.trans toList_plug_red
  have hmem : ∀ i, i ∈ s'.toList ↔ i = z ∨ i ∈ (plug leaf k).toList := fun i => by
    rw [hs', toList_plug_leaf]
    simp only [List.mem_append, List.mem_cons]
    tauto
  have hle : ¬ t2.key z < t2.key t2.min := by
    rw [hrest.key, hrest.min]
    exact Nat.not_lt.mpr hle1
  -- `min` is right already; `max` may become the new node, which is in the list
  obtain ⟨mx, hrun, hmx⟩ : ∃ mx, rbTreeInsertNode noEvents ⟨t0, ()⟩ z =
      some ⟨{ t2 with max := mx, nodes := t2.nodes + 1 + 1 }, ()⟩ ∧ (mx = z ∨ mx = t2.max) := by
    rw [rbTreeInsertNode, hnode]
    dsimp only [Option.bind_eq_bind, Option.bind_some]
    rw [if_neg (Nat.succ_ne_zero _), if_neg hle]
    split_ifs
    · exact ⟨z, rfl, .inl rfl⟩
    · exact ⟨t2.max, rfl, .inr rfl⟩
  refine ⟨_, s', l', hrun, ⟨hfixed.at_root.here.of_list _ _ _ _ _, hfixed.at_root.nodup, ?_,
    hfixed.at_root.black, ?_, ?_, hcol, hfixed.balanced, ⟨?_, hchain.nodup, ?_, fun _ => ?_⟩,
    fun i hi => (hmem i).mpr ((hl' i hi).imp_right fun hi => hk ▸ hf.listed i hi),
    fun _ => List.ne_nil_of_mem hzl⟩, hmem, hrest.nil.trans (hnil1.trans hnil)⟩
  · have hcount := hk ▸ hf.nodes
    rw [toList_plug_leaf, List.length_append] at hcount
    show t2.nodes + 1 + 1 = _
    rw [hrest.nodes, hnodes1, hs', List.length_append, List.length_cons]
    omega
  · show t2.data t2.nil = 0
    rw [hrest.data, hrest.nil, hdata1, hnil1]
    exact hf.nilData
  · show t2.parent t2.nil = t2.nil
    rw [hrest.nil, hrest.nilParent, hnil1, hparent1]
    exact hf.nilParent
  · show Seg t2.next t2.prev t2.nil l' t2.nil
    rw [hrest.next, hrest.prev, hrest.nil]
    exact hchain.list
  · show t2.min = l'.headD t2.nil
    rw [hrest.min, hrest.nil]
    exact hchain.min
  · rcases hmx with rfl | rfl
    · exact hzl
    · exact hrest.max ▸ hchain.max (List.ne_nil_of_mem hzl)

/-- The sentinel is recognised. -/
theorem isNil (h : Bagged t s l) : rbNodeIsNil t t.nil = true := by
  simp [rbNodeIsNil, h.nilData, h.nilParent]

theorem not_isNil (h : Bagged t s l) {x : Nat} (hx : x ∈ s.toList) : rbNodeIsNil t x = false :=
  h.here.not_isNil h.nodup hx

/-- A key that no node has is not found, in whatever order the nodes are. -/
theorem findNode_absent (h : Bagged t s l) {key : Nat} (hkey : ∀ i ∈ s.toList, t.key i ≠ key) :
    rbTreeFindNode t key = some t.nil := by
  have hnodes := h.nodes
  rw [rbTreeFindNode, show t.root = top t.nil s from h.here.ctx]
  revert hkey
  refine h.here.descend (by omega : s.toList.length < t.nodes + 2) ?_ ?_
  · intro k fuel _
    exact if_neg (fun hx => hx rfl)
  · intro k c a x b fuel h ihl ihr hkey
    rw [findLoop_node h, if_neg (Ne.symm (hkey x (by simp)))]
    split_ifs
    · exact ihl fun i hi => hkey i (by simp [hi])
    · exact ihr fun i hi => hkey i (by simp [hi])

/-- **Deleting a key that no node has changes nothing.** -/
theorem delete_absent (h : Bagged t s l) {key : Nat} (hkey : ∀ i ∈ s.toList, t.key i ≠ key) :
    rbTreeDelete noEvents ⟨t, ()⟩ key = some (⟨t, ()⟩, 0) := by
  rw [rbTreeDelete, h.findNode_absent hkey]
  exact if_pos h.isNil

theorem emptied (h : Bagged t s l) : Bagged (Rb.emptied t) leaf [] where
  here := ⟨rfl, trivial⟩
  nodup := List.nodup_nil
  nodes := rfl
  nilColor := if_pos rfl
  nilData := h.nilData
  nilParent := if_pos rfl
  wellColored := ⟨rfl, trivial⟩
  balanced := ⟨0, rfl⟩
  chain := ⟨trivial, List.nodup_nil, rfl, fun h => absurd rfl h⟩
  listed := fun _ h => h
  nonempty := id

/-- **Deleting the only node.** The sentinel takes its place and gets its parent, which is the
sentinel. -/
theorem delete_only {c : Color} (h : Bagged t (node c leaf z leaf) l) :
    rbTreeFindNode t (t.key z) = some z ∧
      rbTreeDelete noEvents ⟨t, ()⟩ (t.key z) = some (⟨Rb.emptied t, ()⟩, t.data z) := by
  obtain ⟨hz0, hp, hc, hleft, hright, -, -⟩ := h.here.sub
  have hp : t.parent z = t.nil := hp
  have hroot : t.root = z := h.here.ctx
  have hfind : rbTreeFindNode t (t.key z) = some z := by
    rw [rbTreeFindNode, hroot]
    exact (findLoop_node h.here _ _).trans (if_pos rfl)
  obtain ⟨hprev, hnext⟩ : t.prev z = t.nil ∧ t.next z = t.nil := by
    have hpos := List.length_pos_of_ne_nil (h.nonempty (List.cons_ne_nil z []))
    obtain ⟨i, rfl⟩ := List.length_eq_one_iff.mp (Nat.le_antisymm h.length_le hpos)
    obtain rfl : i = z := List.mem_singleton.mp (h.listed i (List.mem_singleton_self i))
    exact ⟨h.chain.list.1, h.chain.list.2.1⟩
  have hnodes : t.nodes = 2 := h.nodes
  have hblack : t.color z = .black := hc.trans h.wellColored.1
  have hlist : unlinkList t z = { t with min := t.nil, max := t.nil } := by
    simp [unlinkList, hprev, hnext]
  have hdelete : deleteNode noEvents ⟨t, ()⟩ z = some ⟨{ Rb.emptied t with nodes := 1 }, ()⟩ := by
    simp [deleteNode, hlist, unlinkTree, hleft, hright, top, replaceNode, noEvents, replaceTree,
      RbTree.setLink, RbTree.setParent, hp, hnodes, hblack, deleteFixup, deleteFixupLoop,
      RbTree.setColor, Rb.emptied]
  refine ⟨hfind, ?_⟩
  rw [rbTreeDelete, hfind]
  dsimp only [Option.bind_eq_bind, Option.bind_some]
  rw [if_neg (by simp [h.not_isNil (x := z)]), if_neg hz0, rbTreeDeleteNode, hdelete]
  rfl

end Bagged

theorem exists_node_of_toList (h : s.toList = [z]) : ∃ c, s = node c leaf z leaf := by
  cases s with
  | leaf => cases h
  | node c a x b =>
    have hlen := congrArg List.length h
    cases a <;> cases b <;> simp [toList] at hlen h
    · exact ⟨c, by rw [h]⟩
    all_goals omega

/-! ## Runs -/

/-- A tree, and the nodes that are in it. -/
structure Bag where
  tree : RbTree
  nodes : List Nat

namespace Bag

def step (b : Bag) : Op → Option Bag
  | .insert z key data => do
    let st ← rbTreeInsert noEvents ⟨b.tree, ()⟩ z key data
    some ⟨st.tree, z :: b.nodes⟩
  | .delete key => do
    let x ← rbTreeFindNode b.tree key
    let (st, _) ← rbTreeDelete noEvents ⟨b.tree, ()⟩ key
    some ⟨st.tree, b.nodes.erase x⟩

/-- An empty tree. -/
def Empty (b : Bag) : Prop := ∃ m nil, b = ⟨createRbTree m nil, []⟩

/-- No node has the key. -/
def Absent (b : Bag) (key : Nat) : Prop := ∀ i ∈ b.nodes, b.tree.key i ≠ key

instance (b : Bag) (key : Nat) : Decidable (b.Absent key) := by unfold Absent; infer_instance

/-- Insertions of any key in a node that is not in use; deletions of absent keys, and of a node that
is the only one. -/
def Allowed (b : Bag) : Op → Prop
  | .insert z _ _ => z ≠ b.tree.nil ∧ z ∉ b.nodes
  | .delete key => b.Absent key ∨ b.nodes.length = 1

instance (b : Bag) (o : Op) : Decidable (b.Allowed o) := by
    cases o <;> unfold Allowed <;> infer_instance

/-- The sentinel is recognised and no node is taken for it, and deleting an absent key returns
`NULL` and changes nothing. -/
structure Harmless (b : Bag) : Prop where
  isNil : rbNodeIsNil b.tree b.tree.nil = true
  not_isNil : ∀ i ∈ b.nodes, rbNodeIsNil b.tree i = false
  delete : ∀ key, b.Absent key → rbTreeDelete noEvents ⟨b.tree, ()⟩ key = some (⟨b.tree, ()⟩, 0)
  /-- every such call returns -/
  returns : ∀ o : Op, b.Allowed o → ∃ b', b.step o = some b'

/-- The invariant: the nodes are those of the tree. -/
def Good (b : Bag) : Prop := ∃ s l, Bagged b.tree s l ∧ b.nodes.Perm s.toList

variable {b : Bag}

theorem Good.empty (h : b.Empty) : b.Good := by
  obtain ⟨m, nil, rfl⟩ := h
  exact ⟨leaf, [], .create m nil, .refl _⟩

theorem Good.insert {z key data : Nat} (h : b.Good) (hz0 : z ≠ b.tree.nil) (hz : z ∉ b.nodes) :
    ∃ b', b.step (.insert z key data) = some b' ∧ b'.Good := by
  obtain ⟨s, l, hb, hperm⟩ := h
  obtain ⟨t', s', l', hrun, hb', hmem, -⟩ := hb.insert key data hz0
    (fun hs => hz (hperm.mem_iff.mpr hs))
  refine ⟨⟨t', z :: b.nodes⟩, by simp [step, hrun], s', l', hb', ?_⟩
  refine (List.perm_ext_iff_of_nodup ?_ hb'.nodup).mpr fun i => ?_
  · exact List.nodup_cons.mpr ⟨hz, hperm.nodup_iff.mpr hb.nodup⟩
  · rw [List.mem_cons, hmem, hperm.mem_iff]

theorem Good.step {o : Op} (h : b.Good) (ho : b.Allowed o) : ∃ b', b.step o = some b' ∧
    b'.Good := by
  cases o with
  | insert z key data => exact h.insert ho.1 ho.2
  | delete key =>
    obtain ⟨s, l, hb, hperm⟩ := h
    by_cases habs : b.Absent key
    · have hno : ∀ i ∈ s.toList, b.tree.key i ≠ key := fun i hi => habs i (hperm.mem_iff.mpr hi)
      have hnil : b.tree.nil ∉ b.nodes := fun hm => hb.ne_nil _ (hperm.mem_iff.mp hm) rfl
      refine ⟨b, ?_, s, l, hb, hperm⟩
      simp [Bag.step, hb.findNode_absent hno, hb.delete_absent hno, List.erase_of_not_mem hnil]
    · -- the only node is a root without children
      obtain ⟨z, hz⟩ := List.length_eq_one_iff.mp (ho.resolve_left habs)
      obtain rfl : b.tree.key z = key := by simpa [Absent, hz] using habs
      rw [hz] at hperm
      obtain ⟨c, rfl⟩ := exists_node_of_toList (List.perm_singleton.mp hperm.symm)
      obtain ⟨hfind, hrun⟩ := hb.delete_only
      exact ⟨⟨emptied b.tree,
        []⟩, by simp [Bag.step, hfind, hrun, hz], leaf, [], hb.emptied, .refl _⟩

theorem Good.harmless (h : b.Good) : b.Harmless := by
  have hstep := h
  obtain ⟨s, l, hb, hperm⟩ := h
  refine ⟨hb.isNil, fun i hi => hb.not_isNil (hperm.mem_iff.mp hi), fun key hkey => ?_,
    fun o ho => ?_⟩
  · exact hb.delete_absent fun i hi => hkey i (hperm.mem_iff.mpr hi)
  · obtain ⟨b', hb', -⟩ := hstep.step ho
    exact ⟨b', hb'⟩

end Bag

/-- **Deleting an absent key is harmless as long as no deletion has put the sentinel in the place of
a node that was not the only one.** -/
theorem absent_delete_harmless {b : Bag}
    (h : Reach Bag.Empty (fun b o b' => b.Allowed o ∧ b.step o = some b') b) : b.Harmless :=
  (h.of_calls (fun _ hb => Bag.Good.empty hb) fun _ _ hb ho => hb.step ho).harmless

/-- A run of allowed calls. -/
def Bag.run : List Op → Bag → Option Bag := checkedRun (ε := Unit) (fun b o => b.Allowed o)
  fun b o => (b.step o).elim (.error ()) .ok

theorem Bag.step_of_elim {b b' : Bag} {o : Op}
    (h : (b.step o).elim (.error ()) .ok = Except.ok b') :
    b.step o = some b' := by
  cases hs : b.step o with
  | none => simp [hs] at h
  | some b1 => simpa [hs] using h

/-- A new tree, with the sentinel at address `0`. -/
def newBag : Bag := ⟨createRbTree blank 0, []⟩

/-- Three insertions, two of them of one key, and the deletion of a key that is not there; before
them a node was inserted and deleted again. -/
def bagOps : List Op :=
  [.insert 9 7 1, .delete 7, .insert 1 20 5, .insert 2 10 6, .insert 3 20 8, .delete 30]

theorem absent_delete_harmless_bagOps : ∃ b, Bag.run bagOps newBag = some b ∧ b.nodes = [3, 2, 1] ∧
    b.Harmless ∧ rbTreeDelete noEvents ⟨b.tree, ()⟩ 15 = some (⟨b.tree, ()⟩, 0) := by
  have h : (Bag.run bagOps newBag).any (fun b => b.nodes = [3, 2, 1] ∧ b.Absent 15) = true := by
    decide
  obtain ⟨b, hrun, hb⟩ := (Option.any_eq_true _ _).mp h
  obtain ⟨hnodes, habs⟩ := of_decide_eq_true hb
  have hreach : Reach Bag.Empty (fun b o b' => b.Allowed o ∧ b.step o = some b') b :=
    Reach.of_checkedRun (fun b o b' ho hs => ⟨of_decide_eq_true ho, Bag.step_of_elim hs⟩)
      (.start ⟨blank, 0, rfl⟩) hrun
  have hb := absent_delete_harmless hreach
  exact ⟨b, hrun, hnodes, hb, hb.delete 15 habs⟩

/-- After two insertions and the deletion of one of the nodes, the sentinel has a parent; deleting a
key that is not there takes it for a node and faults. -/
theorem shrunk_not_harmless : ∃ b, ([.insert 1 10 5, .insert 2 20 6, .delete 20] : List Op).foldlM
      Bag.step newBag = some b ∧ b.nodes = [1] ∧ b.Absent 30 ∧
    rbNodeIsNil b.tree b.tree.nil = false ∧ rbTreeDelete noEvents ⟨b.tree, ()⟩ 30 = none := by
  have h : (([.insert 1 10 5, .insert 2 20 6, .delete 20] : List Op).foldlM Bag.step newBag).any
      (fun b => b.nodes = [1] ∧ b.Absent 30 ∧ rbNodeIsNil b.tree b.tree.nil = false ∧
        (rbTreeDelete noEvents ⟨b.tree, ()⟩ 30).isNone) = true := by decide
  obtain ⟨b, hrun, hb⟩ := (Option.any_eq_true _ _).mp h
  obtain ⟨hnodes, habs, hnil, hnone⟩ := of_decide_eq_true hb
  exact ⟨b, hrun, hnodes, habs, hnil, Option.isNone_iff_eq_none.mp hnone⟩

end Osdev.Rb
