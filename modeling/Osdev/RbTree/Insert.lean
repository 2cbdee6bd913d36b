import Osdev.Lib.LinkedList
import Osdev.RbTree.Fixup

/-!
# Insertion

`Holds t s` is the state between calls: the memory holds the search tree `s`, the list links follow
its order, and the counter counts every node twice. Insertion walks down to a hole whose neighbours
bracket the key (`insertPoint_spec`), links a red node there, links it in the list at the same
position, and repairs the colours.
-/

namespace Osdev.Rb

open Osdev.Lib Osdev.Lib.ColorTree

variable {σ : Type} {t : RbTree} {s : ColorTree Nat} {k : List (Frame Nat)}
variable {f : Nat → Nat} {l : List Nat} {z p : Nat}
variable {y c i : Nat} {xs ys : List Nat} {J : σ → ColorTree Nat → Prop}

/-- The state between calls. -/
structure Holds (t : RbTree) (s : ColorTree Nat) : Prop where
  here : Here t [] s
  sorted : s.toList.Pairwise (fun i j => t.key i < t.key j)
  list : Seg t.next t.prev t.nil s.toList t.nil
  min : t.min = s.toList.headD t.nil
  max : t.max = s.toList.getLastD t.nil
  nodes : t.nodes = 2 * s.toList.length
  nilColor : t.color t.nil = .black
  nilData : t.data t.nil = 0
  wellColored : s.WellColored
  balanced : ∃ n, s.Balanced n

theorem nodup_of_sorted (h : l.Pairwise (fun i j => f i < f j)) :
    l.Nodup :=
  h.imp (fun hlt he => absurd (he ▸ hlt) (Nat.lt_irrefl _))

namespace Holds

theorem nodup (h : Holds t s) : s.toList.Nodup := nodup_of_sorted h.sorted

theorem ne_nil (h : Holds t s) : ∀ i ∈ s.toList, i ≠ t.nil := rep_ne_nil h.here.sub

end Holds

/-! ## The insertion point -/

/-- At every node on the way, the hole is on the side to which a search for `key` goes. -/
def Guided (t : RbTree) (key : Nat) (k : List (Frame Nat)) : Prop :=
  ∀ f ∈ k, f.side = .left ↔ key < t.key f.label

/-- The search ends at a hole. -/
theorem insertPoint_spec (key fuel : Nat) (h : Here t k s) (hk : Guided t key k)
    (hf : s.toList.length < fuel) :
    ∃ k', insertPoint t key fuel (top t.nil s) (up t.nil k) = some (up t.nil k') ∧
      plug leaf k' = plug s k ∧ Guided t key k' := by
  revert hk
  refine h.descend hf ?_ ?_
  · intro k fuel hk
    exact ⟨k, if_neg (fun hx => hx rfl), rfl, hk⟩
  · intro k c l a r fuel h ihl ihr hk
    obtain ⟨ha0, -, -, hal, har, -, -⟩ := h.sub
    have hstep : insertPoint t key (fuel + 1) (top t.nil (node c l a r)) (up t.nil k) =
        insertPoint t key fuel (if key < t.key a then top t.nil l else top t.nil r) a := by
      conv_lhs => unfold insertPoint
      rw [← hal, ← har]
      exact if_pos ha0
    rw [hstep]
    split
    · next hlt => exact ihl (List.forall_mem_cons.mpr ⟨iff_of_true rfl hlt, hk⟩)
    · next hlt => exact ihr (List.forall_mem_cons.mpr ⟨iff_of_false (by simp) hlt, hk⟩)

/-- In a search tree without the key, the nodes left of the hole have smaller keys, and those right
of it greater ones. -/
theorem Guided.bounds {key : Nat} (h : Guided t key k)
    (hsort : (plug s k).toList.Pairwise (fun i j => t.key i < t.key j))
    (hkey : ∀ i ∈ (plug s k).toList, t.key i ≠ key) :
    (∀ i ∈ Ctx.before k, t.key i < key) ∧ ∀ i ∈ Ctx.after k, key < t.key i := by
  induction k generalizing s with
  | nil => exact ⟨fun i hi => absurd hi List.not_mem_nil, fun i hi => absurd hi List.not_mem_nil⟩
  | cons f k ih =>
    obtain ⟨d, c, a, u⟩ := f
    obtain ⟨hside, hk⟩ := List.forall_mem_cons.mp h
    obtain ⟨hbefore, hafter⟩ := ih (s := join d c s a u) hk hsort hkey
    have hne := hkey a (by simp [plug])
    rw [plug, toList_plug] at hsort
    have hmid := (List.pairwise_append.mp (List.pairwise_append.mp hsort).1).2.1
    cases d with
    | left =>
      have hlt : key < t.key a := hside.mp rfl
      have hu := (List.pairwise_cons.mp (List.pairwise_append.mp hmid).2.1).1
      refine ⟨hbefore, fun i hi => ?_⟩
      simp only [Ctx.after, List.mem_append, List.mem_cons] at hi
      rcases hi with (rfl | hi) | hi
      · exact hlt
      · exact Nat.lt_trans hlt (hu i hi)
      · exact hafter i hi
    | right =>
      have hlt : ¬ key < t.key a := mt hside.mpr (by simp)
      have hu := (List.pairwise_append.mp hmid).2.2
      refine ⟨fun i hi => ?_, hafter⟩
      simp only [Ctx.before, List.mem_append, List.mem_singleton] at hi
      rcases hi with (hi | hi) | rfl
      · exact hbefore i hi
      · have := hu i hi a (by simp)
        omega
      · omega

/-! ## Linking the node in the tree -/

theorem linkChild_eq_fill {u : Nat} (h : CRep t k u) (hk : Guided t (t.key z) k) :
    linkChild t z (up t.nil k) = fill t k z := by
  cases k with
  | nil => exact if_pos rfl
  | cons f k =>
    obtain ⟨d, c, a, u⟩ := f
    have hside := hk _ List.mem_cons_self
    refine (if_neg h.1).trans ?_
    cases d with
    | left => exact if_pos (hside.mp rfl)
    | right => exact if_neg (mt hside.mpr (by simp))

theorem here_linkTree (h : Here t k leaf) (hnd : (Ctx.labels k).Nodup) (hz : z ∉ Ctx.labels k)
    (hz0 : z ≠ t.nil) (hk : Guided t (t.key z) k) :
    Here (linkTree t z (up t.nil k)) k (node .red leaf z leaf) := by
  have hz' : ∀ i ∈ Ctx.labels k, i ≠ z := fun i hi he => hz (he ▸ hi)
  unfold linkTree
  dsimp only
  generalize ht0 : t.setParent z (up t.nil k) = t0
  have hnil0 : t0.nil = t.nil := by rw [← ht0]; rfl
  have hkey0 : t0.key = t.key := by rw [← ht0]; rfl
  have hpar0 : t0.parent z = up t.nil k := by rw [← ht0]; exact if_pos rfl
  have hctx : CRep t0 k t.nil := by
    refine crep_congr hnil0 (by rw [← ht0]; rfl) (fun i hi => ?_) h.ctx
    rw [← ht0]
    exact ⟨if_neg (hz' i hi), rfl, fun _ => rfl⟩
  rw [← hnil0, linkChild_eq_fill hctx (by rwa [Guided, hkey0])]
  have hc := crep_fill z hctx hnd
  have hfields : (fill t0 k z).nil = t.nil ∧ (fill t0 k z).parent z = up t.nil k := by
    cases k <;> exact ⟨hnil0, hpar0⟩
  generalize fill t0 k z = t1 at hc hfields
  obtain ⟨hnil, hpar⟩ := hfields
  rw [← hnil] at hz0 hpar
  refine ⟨?_, hz0, hpar, if_pos rfl, ?_, if_pos ⟨rfl, rfl⟩, trivial, trivial⟩
  · show CRep (((t1.setColor z .red).setChild z .left t1.nil).setChild z .right t1.nil) k z
    generalize ht2 : ((t1.setColor z .red).setChild z .left t1.nil).setChild z .right t1.nil = t2
    refine crep_congr (by rw [← ht2]; rfl) (by rw [← ht2]; rfl) (fun i hi => ?_) hc
    have hne := hz' i hi
    rw [← ht2]
    exact ⟨rfl, if_neg hne, fun d => (if_neg (fun hx => hne hx.1)).trans
      (if_neg (fun hx => hne hx.1))⟩
  · exact (if_neg (fun hx => absurd hx.2 (by decide))).trans (if_pos ⟨rfl, rfl⟩)

theorem SameRest.linkTree (hz : z ≠ t.nil) : SameRest t (linkTree t z y) := by
  have h1 : SameRest t (t.setParent z y) := SameRest.setParent t y hz
  have h2 : SameRest t (linkChild (t.setParent z y) z y) := by
    unfold linkChild
    split_ifs
    · exact h1.trans ⟨rfl, rfl, rfl, rfl, rfl, rfl, rfl, rfl, rfl⟩
    · exact h1.trans (SameRest.setChild _ _ _ _)
    · exact h1.trans (SameRest.setChild _ _ _ _)
  exact ((h2.setColor z .red).trans (SameRest.setChild _ _ _ _)).trans (SameRest.setChild _ _ _ _)

theorem linkTree_color_nil (hz : z ≠ t.nil) :
    (linkTree t z y).color t.nil = t.color t.nil := by
  have h : (linkChild (t.setParent z y) z y).color = t.color := by
    unfold linkChild
    split_ifs <;> rfl
  exact (if_neg (Ne.symm hz)).trans (by rw [h])

/-! ## Linking the node in the list -/

theorem listPoint_spec {key fuel : Nat}
    (h : Seg t.next t.prev p (xs ++ ys) t.nil) (h0 : ∀ i ∈ xs ++ ys, i ≠ t.nil)
    (hxs : ∀ i ∈ xs, t.key i < key) (hys : ∀ i ∈ ys.head?, key ≤ t.key i) (hf : xs.length < fuel) :
    listPoint t key fuel ((xs ++ ys).headD t.nil) = some (ys.headD t.nil) := by
  induction xs generalizing p fuel with
  | nil =>
    obtain _ | fuel := fuel
    · omega
    cases ys with
    | nil => exact if_neg (fun hx => hx.1 rfl)
    | cons y ys =>
      have := hys y (by simp)
      exact if_neg (fun hx => absurd hx.2 (by simpa using this))
  | cons x xs ih =>
    obtain _ | fuel := fuel
    · omega
    simp only [List.length_cons] at hf
    obtain ⟨-, hn, hs⟩ := h
    unfold listPoint
    rw [if_pos (show (x :: xs ++ ys).headD t.nil ≠ t.nil ∧ t.key ((x :: xs ++ ys).headD t.nil) < key
      from ⟨h0 x (by simp), hxs x (by simp)⟩)]
    show listPoint t key fuel (t.next x) = _
    rw [hn]
    exact ih hs (fun i hi => h0 i (by simp [hi]))
      (fun i hi => hxs i (by simp [hi])) (by omega)

/-- `linkList` changes the list only: `z` comes between `p` and `c`. -/
theorem linkList_eq (hz : z ≠ c)
    (hcase : c = t.nil ∧ p = t.max ∧ p ≠ t.nil ∨ c ≠ t.nil ∧ c = t.min ∧ p = t.nil ∨ c ≠ t.nil ∧
    c ≠ t.min ∧ p = t.prev c ∧ p ≠ t.nil) :
    linkList t z c = { t with
    next := fun j => if j = p ∧ p ≠ t.nil then z else if j = z then c else t.next j
    prev := fun j => if j = c ∧ c ≠ t.nil then z else if j = z then p else t.prev j
    min := if p ≠ t.nil then t.min else z
    max := if c ≠ t.nil then t.max else z } := by
  unfold linkList
  rcases hcase with ⟨rfl, rfl, hp⟩ | ⟨hc, rfl, rfl⟩ | ⟨hc, hmin, rfl, hp⟩
  · simp [hp, RbTree.setNext, RbTree.setPrev]
    rfl
  · simp [hc, RbTree.setNext, RbTree.setPrev]
    rfl
  · simp [hc, hmin, hp, hz.symm, RbTree.setNext, RbTree.setPrev]

/-- The list with `z` in it, before `ys`. -/
theorem linkList_spec (h : Seg t.next t.prev t.nil (xs ++ ys) t.nil)
    (hmin : t.min = (xs ++ ys).headD t.nil) (hmax : ys = [] → t.max = xs.getLastD t.nil)
    (hne : xs ++ ys ≠ []) (hnd : (xs ++ ys).Nodup) (h0 : ∀ i ∈ xs ++ ys, i ≠ t.nil)
    (hz : z ∉ xs ++ ys) (hz0 : z ≠ t.nil) :
    ∃ n p mn mx, linkList t z (ys.headD t.nil) =
      { t with next := n, prev := p, min := mn, max := mx } ∧
      Seg n p t.nil (xs ++ z :: ys) t.nil ∧ mn = (xs ++ z :: ys).headD t.nil ∧
      mx = if ys = [] then z else t.max := by
  obtain ⟨-, hy⟩ := (seg_append xs ys t.nil t.nil).mp h
  have hprev := seg_prev_head hy
  -- where the neighbours of `z` are, and what is first and last
  have hhead := headD_cases ys t.nil
  have hmin' : xs = [] ∧ t.min = ys.headD t.nil ∨ xs ≠ [] ∧ t.min = xs.headD z ∧ t.min ∈ xs := by
    cases xs <;> simp [hmin]
  refine ⟨_, _, _, _, linkList_eq (p := xs.getLastD t.nil) (by grind) (by grind),
    seg_insert h hnd ?_ ?_ (fun a ha => ?_)
    (fun a ha => ?_) (fun a ha => ?_) (fun a ha => ?_), ?_, ?_⟩
  · grind
  · grind
  · grind
  · grind
  · grind
  · grind
  · grind
  · grind

/-- The tree does not depend on the list. -/
theorem Here.of_list (h : Here t k s) (n p : Nat → Nat) (mn mx c : Nat) :
    Here { t with next := n, prev := p, min := mn, max := mx, nodes := c } k s := by
  generalize ht : { t with next := n, prev := p, min := mn, max := mx, nodes := c } = t'
  have hag : ∀ i, Agree t t' i := by
    intro i
    rw [← ht]
    exact ⟨rfl, rfl, fun _ => rfl⟩
  exact h.congr (by rw [← ht]) (by rw [← ht]) (fun i _ => hag i) (fun i _ => hag i)

/-! ## The whole insertion -/

/-- What linking leaves: the order is complete, the colours are not repaired yet. -/
structure Linked (t t' : RbTree) (z : Nat) (k : List (Frame Nat)) : Prop where
  here : Here t' k (node .red leaf z leaf)
  sorted : (plug (node .red leaf z leaf) k).toList.Pairwise (fun i j => t'.key i < t'.key j)
  list : Seg t'.next t'.prev t'.nil (plug (node .red leaf z leaf) k).toList t'.nil
  min : t'.min = (plug (node .red leaf z leaf) k).toList.headD t'.nil
  max : t'.max = (plug (node .red leaf z leaf) k).toList.getLastD t'.nil
  nil : t'.nil = t.nil
  key : t'.key = t.key
  data : t'.data = t.data
  nodes : t'.nodes = t.nodes
  nilColor : t'.color t'.nil = t.color t.nil

theorem toList_plug_leaf (k : List (Frame Nat)) :
    (plug leaf k).toList = Ctx.before k ++ Ctx.after k := by simp [toList_plug]

theorem toList_plug_red :
    (plug (node .red leaf z leaf) k).toList = Ctx.before k ++ z :: Ctx.after k := by
  simp [toList_plug, toList]

theorem linkNode_spec (h : Holds t s) (hz0 : z ≠ t.nil) (hz : z ∉ s.toList)
    (hkey : ∀ i ∈ s.toList, t.key i ≠ t.key z) : ∃ t' k, linkNode t z (t.nodes + 2) = some t' ∧
      plug leaf k = s ∧ Linked t t' z k := by
  have hroot : t.root = top t.nil s := h.here.ctx
  obtain ⟨k, hy, hk, hguided⟩ := insertPoint_spec (t.key z) (t.nodes + 2) h.here
    (fun _ hf => absurd hf List.not_mem_nil) (by have := h.nodes; omega)
  rw [plug] at hk
  subst hk
  obtain ⟨hbefore, hafter⟩ := hguided.bounds h.sorted hkey
  rw [← hroot] at hy
  have hy : insertPoint t (t.key z) (t.nodes + 2) t.root t.nil = some (up t.nil k) := hy
  have hnd := h.nodup
  have hlist := h.list
  have hsort := h.sorted
  have hmin := h.min
  have hmax := h.max
  have hne0 := h.ne_nil
  rw [toList_plug_leaf] at hnd hlist hsort hmin hmax hz hne0
  have hlink : linkNode t z (t.nodes + 2) = if (linkTree t z (up t.nil k)).nodes = 0 then
      some { ((linkTree t z (up t.nil k)).setPrev z (linkTree t z (up t.nil k)).nil).setNext z
        (linkTree t z (up t.nil k)).nil with min := z, max := z }
      else (listPoint (linkTree t z (up t.nil k)) ((linkTree t z (up t.nil k)).key z) (t.nodes + 2)
        (linkTree t z (up t.nil k)).min).bind
          fun c => some (linkList (linkTree t z (up t.nil k)) z c) := by
    rw [linkNode, hy]
    rfl
  have hhere := here_linkTree (here_plug.mpr h.here) hnd hz hz0 hguided
  have hrest : SameRest t (linkTree t z (up t.nil k)) := SameRest.linkTree hz0
  have hcolor := linkTree_color_nil (y := up t.nil k) hz0
  have hsort' : (Ctx.before k ++ z :: Ctx.after k).Pairwise (fun i j => t.key i < t.key j) := by
    obtain ⟨h1, h2, h3⟩ := List.pairwise_append.mp hsort
    refine List.pairwise_append.mpr ⟨h1, List.pairwise_cons.mpr ⟨hafter, h2⟩, ?_⟩
    intro i hi j hj
    rcases List.mem_cons.mp hj with rfl | hj
    · exact hbefore i hi
    · exact h3 i hi j hj
  generalize linkTree t z (up t.nil k) = t1 at hhere hrest hcolor hlink
  have hlinked : ∃ n p mn mx,
      linkNode t z (t.nodes + 2) = some { t1 with next := n, prev := p, min := mn, max := mx } ∧
      Seg n p t1.nil (Ctx.before k ++ z :: Ctx.after k) t1.nil ∧
      mn = (Ctx.before k ++ z :: Ctx.after k).headD t1.nil ∧
      mx = (Ctx.before k ++ z :: Ctx.after k).getLastD t1.nil := by
    have hlen := h.nodes
    rw [toList_plug_leaf] at hlen
    by_cases hnil : Ctx.before k ++ Ctx.after k = []
    · obtain ⟨hb, ha⟩ := List.append_eq_nil_iff.mp hnil
      rw [hnil] at hlen
      rw [if_pos (show t1.nodes = 0 from hrest.nodes.trans hlen)] at hlink
      refine ⟨_, _, _, _, hlink, ?_⟩
      rw [hb, ha]
      exact ⟨⟨if_pos rfl, if_pos rfl, trivial⟩, rfl, rfl⟩
    · have hpos := List.length_pos_of_ne_nil hnil
      rw [if_neg (fun hx => by rw [hrest.nodes] at hx; omega)] at hlink
      rw [← hrest.nil] at hlist hmin hmax hne0 hz0
      rw [← hrest.next, ← hrest.prev] at hlist
      rw [← hrest.min] at hmin
      rw [← hrest.max] at hmax
      have hcurr : listPoint t1 (t1.key z) (t.nodes + 2) t1.min =
          some ((Ctx.after k).headD t1.nil) := by
        rw [hmin]
        rw [List.length_append] at hlen
        refine listPoint_spec hlist hne0 ?_ ?_ (by omega)
        · rwa [hrest.key]
        · rw [hrest.key]
          exact fun i hi => Nat.le_of_lt (hafter i (List.mem_of_mem_head? hi))
      obtain ⟨n, p, mn, mx, heq, hseg, hmn, rfl⟩ := linkList_spec hlist hmin
        (fun ha => by simpa [ha] using hmax) hnil hnd hne0 hz hz0
      rw [hcurr, Option.bind_some, heq] at hlink
      refine ⟨n, p, mn, _, hlink, hseg, hmn, ?_⟩
      rw [hmax]
      cases Ctx.after k <;> grind
  obtain ⟨n, p, mn, mx, hrun, hl, hmn, hmx⟩ := hlinked
  rw [← toList_plug_red] at hl hmn hmx hsort'
  refine ⟨_, k, hrun, rfl, hhere.of_list _ _ _ _ _, ?_, hl, hmn, hmx, hrest.nil, hrest.key,
    hrest.data,
    hrest.nodes, ?_⟩
  · show List.Pairwise (fun i j => t1.key i < t1.key j) _
    rwa [hrest.key]
  · show t1.color t1.nil = _
    rw [hrest.nil, hcolor]

/-- The record of the new node: `rb_tree_insert` up to `rb_tree_insert_node`. -/
def fresh (t : RbTree) (z key data : Nat) : RbTree :=
  { t with key := fun j => if j = z then key else t.key j
           data := fun j => if j = z then data else t.data j
           color := fun j => if j = z then .red else t.color j
           parent := fun j => if j = z then t.nil else t.parent j
           child := fun j e => if j = z then t.nil else t.child j e }

theorem rbTreeInsert_eq (ev : Events σ) (st : State σ) (z key data : Nat) :
    rbTreeInsert ev st z key data =
      rbTreeInsertNode ev { st with tree := fresh st.tree z key data } z := by
  have hchild : ∀ j (e : Side), (if j = z ∧ e = .right then st.tree.nil else
      if j = z ∧ e = .left then st.tree.nil else st.tree.child j e) =
      if j = z then st.tree.nil else st.tree.child j e := by
    intro j e
    cases e <;> simp
  unfold rbTreeInsert fresh
  simp only [RbTree.setChild, RbTree.setColor, RbTree.setParent, hchild]

theorem here_fresh (h : Here t [] s) (key data : Nat) (hz : z ∉ s.toList) :
    Here (fresh t z key data) [] s := by
  have hne : ∀ i ∈ s.toList, i ≠ z := fun i hi he => hz (he ▸ hi)
  exact h.congr rfl rfl
    (fun i hi => ⟨if_neg (hne i hi), if_neg (hne i hi), fun _ => if_neg (hne i hi)⟩)
    (by simp [Ctx.labels, Ctx.before, Ctx.after])

theorem Holds.fresh (h : Holds t s) (key data : Nat) (hz0 : z ≠ t.nil) (hz : z ∉ s.toList) :
    Holds (fresh t z key data) s := by
  have hne : ∀ i ∈ s.toList, i ≠ z := fun i hi he => hz (he ▸ hi)
  generalize ht : Rb.fresh t z key data = t'
  have hnil : t'.nil = t.nil := by rw [← ht]; rfl
  have hkey : ∀ i ∈ s.toList, t'.key i = t.key i := fun i hi => by
    rw [← ht]
    exact if_neg (hne i hi)
  refine ⟨ht ▸ here_fresh h.here key data hz, ?_, ?_, ?_, ?_, ?_, ?_, ?_, h.wellColored, h.balanced⟩
  · refine h.sorted.imp_of_mem fun {i j} hi hj hlt => ?_
    rwa [hkey i hi, hkey j hj]
  · rw [hnil, ← ht]
    exact h.list
  · rw [hnil, ← ht]
    exact h.min
  · rw [hnil, ← ht]
    exact h.max
  · rw [← ht]
    exact h.nodes
  · rw [hnil, ← ht]
    exact (if_neg (Ne.symm hz0)).trans h.nilColor
  · rw [hnil, ← ht]
    exact (if_neg (Ne.symm hz0)).trans h.nilData

/-- The first element of a sorted list has the least key. -/
theorem key_head_le {q : Nat} (h : l.Pairwise (fun i j => f i < f j)) (hi : i ∈ l) :
    f (l.headD q) ≤ f i := by
  cases l with
  | nil => simp at hi
  | cons a l =>
    rcases List.mem_cons.mp hi with rfl | hi
    · exact Nat.le_refl _
    · exact Nat.le_of_lt ((List.pairwise_cons.mp h).1 i hi)

/-- An element with a key as great as the last one is the last one. -/
theorem eq_last_of_key_le (h : l.Pairwise (fun i j => f i < f j)) (hi : i ∈ l)
    (hle : f (l.getLastD p) ≤ f i) :
    i = l.getLastD p := by
  induction l generalizing p with
  | nil => simp at hi
  | cons a l ih =>
    rw [List.getLastD_cons] at hle ⊢
    obtain ⟨ha, hl⟩ := List.pairwise_cons.mp h
    rcases List.mem_cons.mp hi with rfl | hi
    · cases l with
      | nil => rfl
      | cons b l =>
        have := ha _ (getLastD_mem (List.cons_ne_nil b l) i)
        omega
    · exact ih hl hi hle

/-- A tree whose list is in order and whose colours are repaired. -/
theorem Fixed.holds {t0 : RbTree} {st : State σ} {ids : List Nat}
    (h : Fixed t0 J st ids s) (hcol : s.WellColored)
    (hsort : ids.Pairwise (fun i j => t0.key i < t0.key j))
    (hlist : Seg t0.next t0.prev t0.nil ids t0.nil) (hmin : t0.min = ids.headD t0.nil)
    (hmax : t0.max = ids.getLastD t0.nil) (hdata : t0.data t0.nil = 0) (hc : c = 2 * ids.length) :
    Holds { st.tree with nodes := c } s := by
  have hrest := h.at_root.rest
  rw [← h.toList] at hsort hlist hmin hmax hc
  rw [← hrest.key] at hsort
  rw [← hrest.next, ← hrest.prev, ← hrest.nil] at hlist
  rw [← hrest.min, ← hrest.nil] at hmin
  rw [← hrest.max, ← hrest.nil] at hmax
  rw [← hrest.data, ← hrest.nil] at hdata
  exact ⟨h.at_root.here.of_list _ _ _ _ _, hsort, hlist, hmin, hmax, hc, h.at_root.black,
    hdata, hcol,
    h.balanced⟩

/-- `insert_node` after the node was linked at the hole `k`. `J` is what the callbacks keep while
the tree is repaired, `K` what `post_insert_node` makes of it. -/
theorem insertNode_linked (ev : Events σ) (st : State σ) {t1 : RbTree}
    {K : σ → ColorTree Nat → Prop}
    (hlink : linkNode st.tree z (st.tree.nodes + 2) = some t1)
    (hat : At t1 J ⟨t1, st.data⟩ k (node .red leaf z leaf)) (hev : EventsOk ev t1 J)
    (hbal : ∃ n, (plug leaf k).Balanced n) (hcol : (plug leaf k).WellColored)
    (hnodes : st.tree.nodes = 2 * (plug leaf k).toList.length)
    (hpost : ∀ st1 s', Fixed t1 J st1 (plug (node .red leaf z leaf) k).toList s' →
      ∃ m', ev.postInsertNode { st1.tree with nodes := st1.tree.nodes + 1 } z st1.data = some m' ∧
        K m' s') :
    ∃ st1 s' m', insertNode ev st z = some ⟨{ st1.tree with nodes := st1.tree.nodes + 1 }, m'⟩ ∧
      Fixed t1 J st1 (plug (node .red leaf z leaf) k).toList s' ∧ s'.WellColored ∧ K m' s' := by
  obtain ⟨n, hn⟩ := hbal
  obtain ⟨n, hn0, hkb⟩ := balanced_of_plug hn
  subst hn0
  obtain ⟨-, hkc, -⟩ := wellColored_plug.mp hcol
  have hlen : k.length < st.tree.nodes + 2 := by
    have := Ctx.length_le k
    rw [toList_plug_leaf, List.length_append] at hnodes
    omega
  obtain ⟨st1, s', hfix, hfixed, hcol'⟩ := insertFixup_spec hev hat ⟨rfl, rfl⟩
    ⟨trivial, trivial, fun _ => ⟨rfl, rfl⟩⟩ hkb hkc hlen
  obtain ⟨m', hm', hK⟩ := hpost st1 s' hfixed
  refine ⟨st1, s', m', ?_, hfixed, hcol', hK⟩
  unfold insertNode
  dsimp only
  rw [hlink]
  dsimp only [Option.bind_eq_bind, Option.bind_some]
  rw [hfix]
  dsimp only [Option.bind_some]
  rw [hm']
  rfl

/-- `insert_node` has set `min` and `max` already. -/
theorem rbTreeInsertNode_eq {ev : Events σ} {st : State σ} {t : RbTree} {m : σ}
    (h : insertNode ev st z = some ⟨{ t with nodes := t.nodes + 1 }, m⟩)
    (hholds : Holds { t with nodes := t.nodes + 1 + 1 } s) (hz : z ∈ s.toList) :
    rbTreeInsertNode ev st z = some ⟨{ t with nodes := t.nodes + 1 + 1 }, m⟩ := by
  rw [rbTreeInsertNode, h]
  dsimp only [Option.bind_eq_bind, Option.bind_some]
  have hle : ¬ t.key z < t.key t.min := by
    rw [show t.min = s.toList.headD t.nil from hholds.min]
    exact Nat.not_lt.mpr (key_head_le hholds.sorted hz)
  rw [if_neg (Nat.succ_ne_zero _)]
  split_ifs with hge
  · rw [show t.max = s.toList.getLastD t.nil from hholds.max] at hge
    have hz' := eq_last_of_key_le hholds.sorted hz hge
    rw [← show t.max = s.toList.getLastD t.nil from hholds.max] at hz'
    rw [hz']
  · rfl

/--
**Insertion of a key that is not in the tree.**

`J` is what the callbacks keep while the tree is repaired, `K` what `post_insert_node` makes of it.
-/
theorem rbTreeInsert_spec (ev : Events σ) (st : State σ) (z key data : Nat)
    {K : σ → ColorTree Nat → Prop} (h : Holds st.tree s) (hz0 : z ≠ st.tree.nil)
    (hz : z ∉ s.toList) (hkey : ∀ i ∈ s.toList, st.tree.key i ≠ key)
    (hev : ∀ t0, t0.nil = st.tree.nil → t0.key = (fresh st.tree z key data).key →
      t0.data = (fresh st.tree z key data).data → t0.nodes = st.tree.nodes → EventsOk ev t0 J)
    (hJ : ∀ k, plug leaf k = s →
      (plug (node .red leaf z leaf) k).toList.Pairwise
        (fun i j => (fresh st.tree z key data).key i < (fresh st.tree z key data).key j) →
      J st.data (plug (node .red leaf z leaf) k))
    (hpost : ∀ t m s', t.nil = st.tree.nil → t.data = (fresh st.tree z key data).data →
      t.nodes = st.tree.nodes + 1 → Here t [] s' → z ∈ s'.toList → s'.toList.Nodup →
      J m s' → ∃ m', ev.postInsertNode t z m = some m' ∧ K m' s') :
    ∃ st' s' xs ys, rbTreeInsert ev st z key data = some st' ∧ Holds st'.tree s' ∧
      s.toList = xs ++ ys ∧ s'.toList = xs ++ z :: ys ∧
      st'.tree.nil = st.tree.nil ∧ st'.tree.key = (fresh st.tree z key data).key ∧
      st'.tree.data = (fresh st.tree z key data).data ∧ K st'.data s' := by
  have hfresh := h.fresh key data hz0 hz
  have hkz : (fresh st.tree z key data).key z = key := if_pos rfl
  have hkey' : ∀ i ∈ s.toList,
      (fresh st.tree z key data).key i ≠ (fresh st.tree z key data).key z := by
    intro i hi
    rw [hkz]
    have hne : i ≠ z := fun he => hz (he ▸ hi)
    show (if i = z then key else st.tree.key i) ≠ key
    rw [if_neg hne]
    exact hkey i hi
  obtain ⟨t1, k, hlink, hk, hl⟩ := linkNode_spec hfresh hz0 hz hkey'
  have hids : s.toList = Ctx.before k ++ Ctx.after k := hk ▸ toList_plug_leaf k
  have hsort := hl.sorted
  have hnd := nodup_of_sorted hsort
  rw [hl.key] at hsort
  have hat : At t1 J ⟨t1, st.data⟩ k (node .red leaf z leaf) :=
    ⟨hl.here, hnd, SameRest.refl t1, hl.nilColor.trans hfresh.nilColor, hJ k hk hsort⟩
  obtain ⟨st1, s', m', hnode, hfixed, hcol, hK⟩ := insertNode_linked ev
    { st with tree := fresh st.tree z key data } (K := K) hlink hat
    (hev t1 (hl.nil.trans rfl) hl.key hl.data (hl.nodes.trans rfl)) (hk ▸ h.balanced)
    (hk ▸ h.wellColored) (hk ▸ h.nodes) fun st1 s' hfixed => by
      have hrest := hfixed.at_root.rest
      exact hpost _ _ s' (hrest.nil.trans hl.nil) (hrest.data.trans hl.data)
        (congrArg (· + 1) (hrest.nodes.trans hl.nodes)) (hfixed.at_root.here.of_list _ _ _ _ _)
        (by simp [hfixed.toList, toList_plug_red]) hfixed.at_root.nodup hfixed.at_root.aux
  have hrest := hfixed.at_root.rest
  have hs' : s'.toList = Ctx.before k ++ z :: Ctx.after k := hfixed.toList.trans toList_plug_red
  have hcount : st1.tree.nodes + 1 + 1 = 2 * (plug (node .red leaf z leaf) k).toList.length := by
    have hn := h.nodes
    rw [hids, List.length_append] at hn
    rw [hrest.nodes, hl.nodes, toList_plug_red, List.length_append, List.length_cons]
    change st.tree.nodes + 1 + 1 = _
    omega
  have hholds := hfixed.holds hcol hl.sorted hl.list hl.min hl.max
    (by rw [hl.data, hl.nil]; exact hfresh.nilData) hcount
  refine ⟨_, s', Ctx.before k, Ctx.after k, (rbTreeInsert_eq ev st z key data).trans
    (rbTreeInsertNode_eq hnode hholds (by simp [hs'])), hholds, hids, hs', hrest.nil.trans hl.nil,
    hrest.key.trans hl.key, hrest.data.trans hl.data, hK⟩

end Osdev.Rb
