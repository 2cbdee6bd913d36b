import Osdev.RbTree.Insert

/-!
# Deletion

Deletion takes the node out of the list, and out of the tree. If the node has two children, the
next node takes its place and its colour, and leaves a hole where it was. If the node that went
away was black, every path through the hole has one black node too few, and `deleteFixup` repairs
that; the sentinel in the hole then finds its parent through the `parent` field that
`replaceTree` has stored in it.
-/

namespace Osdev.Rb

open Osdev.Lib Osdev.Lib.ColorTree

variable {σ : Type} {t : RbTree} {s : ColorTree Nat} {k : List (Frame Nat)}
variable {fuel : Nat} {k' : List (Frame Nat)}
variable {z : Nat} {J : σ → ColorTree Nat → Prop}

/-! ## The list -/

/-- `unlinkList` changes the list only. -/
theorem unlinkList_eq (hz : z ≠ t.prev z) : unlinkList t z = { t with
    next := fun j => if j = t.prev z ∧ t.prev z ≠ t.nil then t.next z else t.next j
    prev := fun j => if j = t.next z ∧ t.next z ≠ t.nil then t.prev z else t.prev j
    min := if t.prev z ≠ t.nil then t.min else t.next z
    max := if t.next z ≠ t.nil then t.max else t.prev z } := by
  unfold unlinkList
  by_cases hp : t.prev z = t.nil <;> by_cases hn : t.next z = t.nil <;>
    simp [hp, hn, RbTree.setNext, RbTree.setPrev, hz]

theorem unlinkList_spec {xs ys : List Nat}
    (h : Seg t.next t.prev t.nil (xs ++ z :: ys) t.nil)
    (hmin : t.min = (xs ++ z :: ys).headD t.nil) (hmax : t.max = (xs ++ z :: ys).getLastD t.nil)
    (hnd : (xs ++ z :: ys).Nodup) (h0 : ∀ i ∈ xs ++ z :: ys, i ≠ t.nil) :
    ∃ n p mn mx, unlinkList t z = { t with next := n, prev := p, min := mn, max := mx } ∧
      Seg n p t.nil (xs ++ ys) t.nil ∧ mn = (xs ++ ys).headD t.nil ∧
      mx = (xs ++ ys).getLastD t.nil := by
  obtain ⟨-, hp, hn, -⟩ := (seg_append xs (z :: ys) t.nil t.nil).mp h
  obtain ⟨-, -, hxy⟩ := List.nodup_append.mp hnd
  have hlast := getLastD_cases xs t.nil
  have hhead := headD_cases ys t.nil
  have hmin' : xs = [] ∨ xs ≠ [] ∧ t.min = xs.headD (ys.headD t.nil) := by
    cases xs <;> simp [hmin]
  have hmax' : ys = [] ∨ ys ≠ [] ∧ t.max = ys.getLastD (xs.getLastD t.nil) := by
    cases ys <;> simp [hmax, List.getLast?_cons]
  refine ⟨_, _, _, _, unlinkList_eq (by grind), ?_⟩
  refine ⟨seg_remove h hnd (fun a ha => ?_) (fun a ha => ?_) (fun a ha => ?_) (fun a ha => ?_),
    ?_, ?_⟩
  · grind
  · grind
  · grind
  · grind
  · clear hxy hhead hmax' hnd h
    grind
  · clear hxy hlast hmin' hnd h
    grind

/-! ## Replacing a subtree -/

/-- The parent of a hole is not below it. -/
theorem ne_up {i : Nat} (hi : i ∉ Ctx.labels k) (hi0 : i ≠ t.nil) : i ≠ up t.nil k := by
  cases k with
  | nil => exact hi0
  | cons f k => exact fun he => hi (he ▸ up_mem (by simp))

section Replace

variable {u v : Nat}

@[simp] theorem replaceTree_nil : (replaceTree t u v).nil = t.nil := setLink_nil ..

@[simp] theorem replaceTree_color : (replaceTree t u v).color = t.color := setLink_color ..

theorem replaceTree_parent (j : Nat) :
    (replaceTree t u v).parent j = if j = v then t.parent u else t.parent j := by
  have h := setLink_parent t (t.parent u) u v
  show (if j = v then (t.setLink (t.parent u) u v).parent u
    else (t.setLink (t.parent u) u v).parent j) = _
  rw [h]

theorem replaceTree_child {j : Nat} (hj : j ≠ t.parent u) (d : Side) :
    (replaceTree t u v).child j d = t.child j d := setLink_child t hj d

/-- The fields other than the links and colours. -/
structure SameInfo (t t' : RbTree) : Prop where
  nil : t'.nil = t.nil
  min : t'.min = t.min
  max : t'.max = t.max
  nodes : t'.nodes = t.nodes
  key : t'.key = t.key
  data : t'.data = t.data
  next : t'.next = t.next
  prev : t'.prev = t.prev

theorem SameInfo.refl (t : RbTree) : SameInfo t t := ⟨rfl, rfl, rfl, rfl, rfl, rfl, rfl, rfl⟩

theorem SameInfo.trans {t' t'' : RbTree} (h : SameInfo t t') (h' : SameInfo t' t'') :
    SameInfo t t'' :=
  ⟨h'.nil.trans h.nil, h'.min.trans h.min, h'.max.trans h.max, h'.nodes.trans h.nodes,
    h'.key.trans h.key, h'.data.trans h.data, h'.next.trans h.next, h'.prev.trans h.prev⟩

theorem SameInfo.setParent (t : RbTree) (i v : Nat) : SameInfo t (t.setParent i v) :=
  ⟨rfl, rfl, rfl, rfl, rfl, rfl, rfl, rfl⟩

theorem SameInfo.setChild (t : RbTree) (i : Nat) (d : Side) (v : Nat) :
    SameInfo t (t.setChild i d v) :=
  ⟨rfl, rfl, rfl, rfl, rfl, rfl, rfl, rfl⟩

theorem SameInfo.setColor (t : RbTree) (i : Nat) (c : Color) : SameInfo t (t.setColor i c) :=
  ⟨rfl, rfl, rfl, rfl, rfl, rfl, rfl, rfl⟩

theorem SameInfo.replaceTree (t : RbTree) (u v : Nat) : SameInfo t (replaceTree t u v) := by
  have h := SameRest.setLink t (t.parent u) u v
  have h' : SameInfo t (t.setLink (t.parent u) u v) :=
    ⟨h.nil, h.min, h.max, h.nodes, h.key, h.data, h.next, h.prev⟩
  exact h'.trans (SameInfo.setParent _ _ _)

section

variable (hc : CRep t k u) (hp : t.parent u = up t.nil k) (hu0 : u ≠ t.nil) (hu : u ∉ Ctx.labels k)
  (hnd : (Ctx.labels k).Nodup)

include hc hp hu0 hu hnd

/-- The node `v` in the place of `u`, with whatever hangs below it. -/
theorem crep_replace (hv : v ∉ Ctx.labels k) :
    CRep (replaceTree t u v) k v := by
  have h := crep_setLink v hc hnd hu hu0
  rw [← hp] at h
  have hnil : (replaceTree t u v).nil = (t.setLink (t.parent u) u v).nil := rfl
  have hroot : (replaceTree t u v).root = (t.setLink (t.parent u) u v).root := rfl
  refine crep_congr hnil hroot (fun i hi => ?_) h
  have hne : i ≠ v := fun he => hv (he ▸ hi)
  exact ⟨if_neg hne, rfl, fun _ => rfl⟩

/-- A subtree in the place of the node `u`. -/
theorem here_replace {q : Nat} (hs : Rep t q s)
    (hsnd : s.toList.Nodup) (hsk : ∀ i ∈ s.toList, i ∉ Ctx.labels k) :
    Here (replaceTree t u (top t.nil s)) k s := by
  have htop : top t.nil s ∉ Ctx.labels k := by
    by_cases hl : s = leaf
    · rw [hl]
      exact fun hm => crep_ne_nil hc _ hm rfl
    · exact hsk _ (top_mem hl)
  have hup : ∀ i ∈ s.toList, i ≠ t.parent u :=
    fun i hi => hp ▸ ne_up (hsk i hi) (rep_ne_nil hs i hi)
  have hctx := crep_replace hc hp hu0 hu hnd htop
  refine ⟨by rw [replaceTree_nil]; exact hctx, ?_⟩
  rw [replaceTree_nil]
  refine rep_reparent replaceTree_nil hsnd (fun i _ => by rw [replaceTree_color])
    (fun i hi d => replaceTree_child (hup i hi) d) (fun i _ => ?_) hs
  rw [replaceTree_parent, hp]

end

end Replace

/-! ## The next node -/

/-- The leftmost node of a subtree, with the hole it leaves. -/
theorem minimum_spec (h : Here t k s) (hs : s ≠ leaf) (hf : s.toList.length < fuel) :
    ∃ c y r k', minimum t fuel (top t.nil s) = some y ∧ s = plug (node c leaf y r) k' ∧
      Ctx.before k' = [] := by
  induction s generalizing k fuel with
  | leaf => exact absurd rfl hs
  | node c l a r ihl ihr =>
    obtain _ | fuel := fuel
    · omega
    simp only [toList, List.length_append, List.length_cons] at hf
    obtain ⟨-, -, -, hal, -, hl, -⟩ := h.sub
    show ∃ c' y r' k', (if t.child a .left ≠ t.nil then _ else some a) = some y ∧ _
    obtain rfl | hleaf := eq_or_ne l leaf
    · exact ⟨c, a, r, [], if_neg (fun hx => hx hal), rfl, rfl⟩
    · have hne : t.child a .left ≠ t.nil := by
        rw [hal]
        exact fun he => hleaf ((top_eq_nil_iff hl).mp he)
      have hlt : l.toList.length < fuel := by omega
      obtain ⟨c', y, r', k', hmin, rfl, hb⟩ := ihl (k := ⟨.left, c, a, r⟩ :: k)
        (here_cons.mpr h) hleaf hlt
      refine ⟨c', y, r', k' ++ [⟨.left, c, a, r⟩], ?_, ?_, ?_⟩
      · rw [if_pos hne]
        show minimum t fuel (t.child a .left) = some y
        rwa [hal]
      · rw [plug_append]
        rfl
      · rw [Ctx.before_append, hb]
        rfl

/-! ## The next node takes the place -/

section Inherit

variable {l r : ColorTree Nat} {c : Color} {z y : Nat}

theorem inherit_parent (j : Nat) : (inherit t z y).parent j =
    if j = t.child z .left then y else t.parent j := by
  have h : (t.setChild y .left (t.child z .left)).child y .left = t.child z .left :=
    if_pos ⟨rfl, rfl⟩
  show (if j = (t.setChild y .left (t.child z .left)).child y .left then y else t.parent j) = _
  rw [h]

/-- `y`, over the subtree `r`, takes the place of `z`, and its left subtree and colour. -/
theorem here_inherit (hc : CRep t k z) (hzp : t.parent z = up t.nil k) (hz0 : z ≠ t.nil)
    (hzc : t.color z = c) (hzl : t.child z .left = top t.nil l) (hl : Rep t z l) (hleaf : l ≠ leaf)
    (hy0 : y ≠ t.nil) (hyr : t.child y .right = top t.nil r) (hr : Rep t y r)
    (hz : z ∉ Ctx.labels k) (hnd : (plug (node c l y r) k).toList.Nodup) :
    Here (inherit (replaceTree t z y) z y) k (node c l y r) := by
  obtain ⟨hnds, hndk, hsk⟩ := nodup_plug.mp hnd
  obtain ⟨hndl, hndr, hyl, hyr', hlr⟩ := (nodup_join (d := .left)).mp hnds
  have hyk : y ∉ Ctx.labels k := hsk y (by simp)
  have htl : top t.nil l ∈ l.toList := top_mem hleaf
  -- the parent of `z` is none of the nodes below
  have hup : ∀ i ∉ Ctx.labels k, i ≠ t.nil → i ≠ t.parent z := fun i hi hi0 => hzp ▸ ne_up hi hi0
  have hctx := crep_replace hc hzp hz0 hz hndk hyk
  have hzl' : (replaceTree t z y).child z .left = top t.nil l := by
    rw [replaceTree_child (hup z hz hz0), hzl]
  generalize hF : inherit (replaceTree t z y) z y = F
  have hFnil : F.nil = t.nil := by rw [← hF]; exact replaceTree_nil
  have hFcolor : ∀ j, F.color j = if j = y then c else t.color j := fun j => by
    rw [← hF, ← hzc, ← replaceTree_color (t := t)]
    rfl
  have hFparent : ∀ j, F.parent j = if j = top t.nil l then y
      else (replaceTree t z y).parent j := fun j => by
    rw [← hF, inherit_parent, hzl']
  have hFchild : ∀ j e, F.child j e = if j = y ∧ e = .left then top t.nil l
      else (replaceTree t z y).child j e := fun j e => by
    rw [← hF, ← hzl']
    rfl
  have hchild : ∀ i ∉ Ctx.labels k, i ≠ t.nil → i ≠ y → ∀ e, F.child i e = t.child i e :=
    fun i hi hi0 hiy e => by simp [hFchild, hiy, replaceTree_child (hup i hi hi0)]
  refine ⟨?_, by rwa [hFnil], ?_, ?_, ?_, ?_, ?_, ?_⟩
  · refine crep_congr (hFnil.trans replaceTree_nil.symm) (by rw [← hF]; rfl) (fun i hi => ?_) hctx
    have hiy : i ≠ y := fun he => hyk (he ▸ hi)
    have hil : i ≠ top t.nil l := fun he => hsk _ (by simp [htl]) (he ▸ hi)
    exact ⟨by simp [hFparent, hil], by simp [hFcolor, hiy], fun e => by simp [hFchild, hiy]⟩
  · have hytl : y ≠ top t.nil l := fun he => hyl (he ▸ htl)
    simp [hFparent, hytl, replaceTree_parent, hzp, hFnil]
  · simp [hFcolor]
  · simp [hFchild, hFnil]
  · simp [hFchild, replaceTree_child (hup y hyk hy0), hyr, hFnil]
  · have hne : ∀ i ∈ l.toList, i ≠ y := fun i hi he => hyl (he ▸ hi)
    exact rep_reparent hFnil hndl (fun i hi => by simp [hFcolor, hne i hi])
      (fun i hi => hchild i (hsk i (by simp [hi])) (rep_ne_nil hl i hi) (hne i hi))
      (fun i hi => by simp [hFparent, replaceTree_parent, hne i hi]) hl
  · have hne : ∀ i ∈ r.toList, i ≠ y := fun i hi he => hyr' (he ▸ hi)
    have hnt : ∀ i ∈ r.toList, i ≠ top t.nil l := fun i hi he => hlr _ htl (he ▸ hi)
    exact rep_congr hFnil (fun i hi => ⟨by simp [hFparent, replaceTree_parent, hnt i hi, hne i hi],
      by simp [hFcolor, hne i hi],
      hchild i (hsk i (by simp [hi])) (rep_ne_nil hr i hi) (hne i hi)⟩) hr

end Inherit

/-! ## Taking a node out of the tree -/

/--
What `replace_node` asks of the callbacks: the data of the old node serve for the place, first
when its only child takes the place, then when the next node does.
-/
structure ReplaceOk (ev : Events σ) (t₀ : RbTree) (J : σ → ColorTree Nat → Prop) : Prop where
  child : ∀ {t : RbTree} {m : σ} {d : Side} {c : Color} {v : ColorTree Nat} {z : Nat}
    {k : List (Frame Nat)}, SameInfo t₀ t → J m (plug (join d c leaf z v) k) →
    ∃ m', ev.replaceNode t z (top t.nil v) m = some m' ∧ J m' (plug v k)
  near :
    ∀ {t : RbTree} {m : σ} {c e : Color} {l v : ColorTree Nat} {z y : Nat} {k : List (Frame Nat)},
    SameInfo t₀ t → J m (plug (node c l z (node e leaf y v)) k) →
    ∃ m', ev.replaceNode t z y m = some m' ∧ J m' (plug (node c l y v) k)
  far : ∀ {t : RbTree} {m : σ} {c e : Color} {l v : ColorTree Nat} {z y : Nat}
    {k k' : List (Frame Nat)}, SameInfo t₀ t → Ctx.before k' = [] →
    J m (plug (node c l z (plug (node e leaf y v) k')) k) →
    ∃ m₁, ev.replaceNode t y (top t.nil v) m = some m₁ ∧ ∀ t', SameInfo t₀ t' →
      ∃ m₂, ev.replaceNode t' z y m₁ = some m₂ ∧ J m₂ (plug (node c l y (plug v k')) k)

/-- The tree before the deletion, seen from a subtree. -/
structure Before (t₀ : RbTree) (J : σ → ColorTree Nat → Prop) (st : State σ) (k : List (Frame Nat))
    (s : ColorTree Nat) : Prop where
  info : SameInfo t₀ st.tree
  here : Here st.tree k s
  black : st.tree.color st.tree.nil = .black
  nodup : (plug s k).toList.Nodup
  aux : J st.data (plug s k)
  balanced : ∃ n, (plug s k).Balanced n
  wellColored : (plug s k).WellColored

/-- The tree without a node: where the hole was, and what the colour of the lost node was. -/
structure Unlinked (t₀ : RbTree) (J : σ → ColorTree Nat → Prop) (st : State σ) (ids : List Nat)
    (e : Color) (k : List (Frame Nat)) (v : ColorTree Nat) : Prop where
  here : Here st.tree k v
  info : SameInfo t₀ st.tree
  black : st.tree.color st.tree.nil = .black
  /-- the sentinel as the focus knows its parent -/
  leaf_parent : v = leaf → st.tree.parent st.tree.nil = up st.tree.nil k
  toList : (plug v k).toList = ids
  aux : J st.data (plug v k)
  balanced : ∃ n, v.Balanced n ∧ Ctx.Balanced k (n + if e = .black then 1 else 0)
  noRedRed : v.NoRedRed
  ctx_noRedRed : Ctx.NoRedRed k
  /-- below a red node hung no red one -/
  top_black : e = .red → v.color = .black

section Unlink

variable {ev : Events σ} {t₀ : RbTree} {J : σ → ColorTree Nat → Prop} {st : State σ} {c e : Color}
  {l r v : ColorTree Nat} {z y : Nat} {d : Side}

theorem replaceTree_leaf_parent {u : Nat} (hp : t.parent u = up t.nil k) (hv : v = leaf) :
    (replaceTree t u (top t.nil v)).parent t.nil = up t.nil k := by
  rw [replaceTree_parent, hv, hp]
  exact if_pos rfl

/-- The only child takes the place of its parent. -/
theorem replaceNode_child (hrep : ReplaceOk ev t₀ J) (hs : Before t₀ J st k (join d c leaf z v)) :
    ∃ st', replaceNode ev st z (top st.tree.nil v) = some st' ∧
      Unlinked t₀ J st' (Ctx.before k ++ v.toList ++ Ctx.after k) c k v := by
  obtain ⟨hinfo, h, hb, hnd, hJ, ⟨n, hn⟩, hcol⟩ := hs
  obtain ⟨m', hm, hJ'⟩ := hrep.child hinfo hJ
  obtain ⟨hz0, hzp, -, -, -, -, hv⟩ := rep_join.mp h.sub
  have hctx := h.ctx
  rw [top_join] at hctx
  obtain ⟨hnds, hndk, hsk⟩ := nodup_plug.mp hnd
  obtain ⟨-, hndv, -, -, -⟩ := nodup_join.mp hnds
  have hzk := hsk z ((mem_join ..).mpr (Or.inr (Or.inl rfl)))
  have hvk : ∀ i ∈ v.toList, i ∉ Ctx.labels k :=
    fun i hi => hsk i ((mem_join ..).mpr (Or.inr (Or.inr hi)))
  obtain ⟨n', hn', hkb⟩ := balanced_of_plug hn
  obtain ⟨m, -, hvb, rfl⟩ := balanced_of_join hn'
  obtain ⟨hjc, hkc, -⟩ := wellColored_plug.mp hcol
  obtain ⟨-, hvc, hcc⟩ := (join_noRedRed ..).mp hjc
  refine ⟨⟨replaceTree st.tree z (top st.tree.nil v), m'⟩, ?_,
    here_replace hctx hzp hz0 hzk hndk hv hndv hvk, hinfo.trans (SameInfo.replaceTree ..), ?_,
    fun hl => ?_, toList_plug .., hJ', ⟨m, hvb, hkb⟩, hvc, hkc, fun hc => (hcc hc).2⟩
  · rw [replaceNode, hm]
    rfl
  · rwa [replaceTree_color, replaceTree_nil]
  · rw [replaceTree_nil]
    exact replaceTree_leaf_parent hzp hl

/-- `y` has left its place below `z`, and the rest of that subtree hangs below `y`. -/
structure Detached (t₀ : RbTree) (t : RbTree) (k k' : List (Frame Nat)) (c : Color)
    (l v : ColorTree Nat) (z y : Nat) : Prop where
  info : SameInfo t₀ t
  ctx : CRep t k z
  parent : t.parent z = up t.nil k
  color : t.color z = c
  left : t.child z .left = top t.nil l
  repLeft : Rep t z l
  right : t.child y .right = top t.nil (plug v k')
  repRight : Rep t y (plug v k')
  leaf_parent : v = leaf → t.parent t.nil = up t.nil (k' ++ ⟨.right, c, y, l⟩ :: k)

/-- The links inside a tree survive the change of the sentinel's parent. -/
theorem Here.setParent_nil {x : Nat} (h : Here t k s) (v : Nat)
    (hx : x = t.nil ∨ t.parent x = v) : Here (t.setParent x v) k s := by
  generalize ht : t.setParent x v = t'
  have hag : ∀ i, i ≠ t.nil → Agree t t' i := by
    intro i hi
    rw [← ht]
    refine ⟨?_, rfl, fun _ => rfl⟩
    show (if i = x then v else t.parent i) = t.parent i
    split
    · next he =>
      rcases hx with hx | hx
      · exact absurd (he.trans hx) hi
      · rw [he, hx]
    · rfl
  exact h.congr (by rw [← ht]; rfl) (by rw [← ht]; rfl) (fun i hi => hag i (rep_ne_nil h.sub i hi))
    (fun i hi => hag i (crep_ne_nil h.ctx i hi))

theorem detached_near (hinfo : SameInfo t₀ t) (h : Here t k (node c l z (node e leaf y v)))
    (hx : t.child y .right = top t.nil v) :
    Detached t₀ (t.setParent (t.child y .right) y) k [] c l v z y := by
  have hvy : t.child y .right = t.nil ∨ t.parent (t.child y .right) = y := by
    rw [hx]
    cases v with
    | leaf => exact Or.inl rfl
    | node c' l' a r' =>
      obtain ⟨-, -, -, -, -, -, -, -, -, -, -, -, hr⟩ := h.sub
      exact Or.inr hr.2.1
  have h' := h.setParent_nil y hvy
  obtain ⟨-, h2, h3, h4, -, h6, -, -, -, -, h11, -, h13⟩ := h'.sub
  refine ⟨hinfo.trans (SameInfo.setParent ..), h'.ctx, h2, h3, h4, h6, h11, h13, fun hl => ?_⟩
  rw [hx, hl]
  exact if_pos rfl

theorem detached_far {t1 : RbTree} (hinfo : SameInfo t₀ t1)
    (h : Here t1 (k' ++ ⟨.right, c, z, l⟩ :: k) v) (hk' : k' ≠ [])
    (hnd : (plug v (k' ++ ⟨.right, c, z, l⟩ :: k)).toList.Nodup)
    (hy : y ∉ (plug v (k' ++ ⟨.right, c, z, l⟩ :: k)).toList)
    (hleaf : v = leaf → t1.parent t1.nil = up t1.nil (k' ++ ⟨.right, c, z, l⟩ :: k)) :
    Detached t₀ ((t1.setChild y .right (t1.child z .right)).setParent
      ((t1.setChild y .right (t1.child z .right)).child y .right) y) k k' c l v z y := by
  have h1 := here_append.mp h
  obtain ⟨⟨hz0, hzp, hzc, hzr, hzl, hl, hctx⟩, hr⟩ := h1
  rw [plug_append] at hnd hy
  obtain ⟨hndz, hndk, hzk⟩ := nodup_plug (s := node c l z (plug v k')) |>.mp hnd
  obtain ⟨hndl, hndr, hzl', hzr', hlr⟩ := (nodup_join (d := .left)).mp hndz
  have hrleaf : plug v k' ≠ leaf := by
    cases k' with
    | nil => exact absurd rfl hk'
    | cons f k' =>
      intro he
      have hl := congrArg toList he
      rw [toList_plug] at hl
      obtain ⟨d, c, a, u⟩ := f
      cases d <;> simp [Ctx.before, Ctx.after, toList] at hl
  have htop : top t1.nil (plug v k') ∈ (plug v k').toList := top_mem hrleaf
  obtain ⟨hyr, hyz, hyl, hyk⟩ : y ∉ (plug v k').toList ∧ y ≠ z ∧ y ∉ l.toList ∧
    y ∉ Ctx.labels k := by
    simpa [and_assoc] using hy
  have hchild : (t1.setChild y .right (t1.child z .right)).child y .right =
      top t1.nil (plug v k') := (if_pos ⟨rfl, rfl⟩).trans hzr
  rw [hchild]
  generalize ht : (t1.setChild y .right (t1.child z .right)).setParent
    (top t1.nil (plug v k')) y = t2
  have hnil : t2.nil = t1.nil := by rw [← ht]; rfl
  have hparent : ∀ j, t2.parent j = if j = top t1.nil (plug v k') then y else t1.parent j :=
    fun j => by rw [← ht]; rfl
  have hch : ∀ j e, j ≠ y → t2.child j e = t1.child j e := fun j e hj => by
    rw [← ht]
    exact if_neg (fun hx => hj hx.1)
  have hcolor : t2.color = t1.color := by rw [← ht]; rfl
  have hag : ∀ i, i ≠ y → i ≠ top t1.nil (plug v k') → Agree t1 t2 i := fun i hiy hit =>
    ⟨by rw [hparent, if_neg hit], by rw [hcolor], fun e => hch i e hiy⟩
  have hzt : z ≠ top t1.nil (plug v k') := fun he => hzr' (he ▸ htop)
  refine ⟨?_, ?_, ?_, by rwa [hcolor], ?_, ?_, ?_, ?_, fun hv => ?_⟩
  · rw [← ht]
    exact (hinfo.trans (SameInfo.setChild ..)).trans (SameInfo.setParent ..)
  · exact crep_congr hnil (by rw [← ht]; rfl) (fun i hi => hag i (fun he => hyk (he ▸ hi))
      (fun he => hzk _ (by simp [htop]) (he ▸ hi))) hctx
  · rwa [hparent, if_neg hzt, hnil]
  · rwa [hch z _ hyz.symm, hnil]
  · exact rep_congr hnil (fun i hi => hag i (fun he => hyl (he ▸ hi))
      (fun he => hlr _ hi (he ▸ htop))) hl
  · rwa [hnil, ← ht]
  · exact rep_reparent hnil hndr (fun i _ => by rw [hcolor])
      (fun i hi e => hch i e (fun he => hyr (he ▸ hi))) (fun i _ => hparent i) hr
  · rw [hparent, hnil, if_neg (fun he => rep_ne_nil hr _ htop he.symm), hleaf hv]
    cases k' with
    | nil => exact absurd rfl hk'
    | cons f k' => rfl

/-- Taking the next node from its place, with both cases of `detach`. -/
theorem detach_spec (hrep : ReplaceOk ev t₀ J) (hk' : Ctx.before k' = [])
    (hs : Before t₀ J st k (node c l z (plug (node e leaf y v) k'))) :
    ∃ st', detach ev st z y (top st.tree.nil v) = some st' ∧
      Detached t₀ st'.tree k k' c l v z y ∧ st'.tree.color = st.tree.color ∧
      ∀ t', SameInfo t₀ t' → ∃ m, ev.replaceNode t' z y st'.data = some m ∧
        J m (plug (node c l y (plug v k')) k) := by
  obtain ⟨hinfo, h, -, hnd, hJ, -, -⟩ := hs
  -- the focus at `y`
  have hy : Here st.tree (k' ++ ⟨.right, c, z, l⟩ :: k) (node e leaf y v) := here_append.mpr
    (here_cons.mpr h)
  obtain ⟨hy0, hyp, hyc, -, hyr, -, hv⟩ := hy.sub
  have hnd' : (plug (node e leaf y v) (k' ++ ⟨.right, c, z, l⟩ :: k)).toList.Nodup := by
    rwa [plug_append]
  cases k' with
  | nil =>
    refine ⟨{ st with tree := st.tree.setParent (st.tree.child y .right) y }, ?_,
      detached_near hinfo h hyr, rfl, fun t' ht' => hrep.near ht' hJ⟩
    have hyp : st.tree.parent y = z := hyp
    rw [detach, if_pos hyp, hyr]
  | cons f k' =>
    obtain ⟨hnds, hndk, hsk⟩ := nodup_plug.mp hnd'
    obtain ⟨-, hndv, -, hyv, -⟩ := (nodup_join (d := .left)).mp hnds
    have hyk := hsk y (by simp [toList])
    have hvk : ∀ i ∈ v.toList, i ∉ Ctx.labels (f :: k' ++ ⟨.right, c, z, l⟩ :: k) :=
      fun i hi => hsk i (by simp [toList, hi])
    obtain ⟨m1, hm1, hm2⟩ := hrep.far hinfo hk' hJ
    have h1 := here_replace hy.ctx hyp hy0 hyk hndk hv hndv hvk
    have hinfo1 := hinfo.trans (SameInfo.replaceTree st.tree y (top st.tree.nil v))
    have hleaf : v = leaf → (replaceTree st.tree y (top st.tree.nil v)).parent
        (replaceTree st.tree y (top st.tree.nil v)).nil = up (replaceTree st.tree y
          (top st.tree.nil v)).nil (f :: k' ++ ⟨.right, c, z, l⟩ :: k) := fun hl => by
      rw [replaceTree_nil]
      exact replaceTree_leaf_parent hyp hl
    have hdet := detached_far hinfo1 h1 (by simp) (nodup_plug.mpr ⟨hndv, hndk, hvk⟩)
      (fun hm => ((perm_plug _ _).mem_iff.mp hm |> List.mem_append.mp).elim hyv hyk)
      hleaf
    refine ⟨⟨_, m1⟩, ?_, hdet, replaceTree_color, hm2⟩
    have hpz : st.tree.parent y ≠ z := by
      rw [hyp]
      show f.label ≠ z
      rintro rfl
      have hz : f.label ∈ Ctx.labels (k' ++ ⟨.right, c, f.label, l⟩ :: k) := by
        rw [Ctx.labels, Ctx.before_append]
        simp [Ctx.before]
      exact (nodup_labels_cons.mp hndk).2.2.2.1 hz
    rw [detach, if_neg hpz]
    rw [replaceNode, hm1]
    rfl

/-- The next node takes the place of a node with two children. -/
theorem unlinkTree_next (hrep : ReplaceOk ev t₀ J) (hk' : Ctx.before k' = []) (hl : l ≠ leaf)
    (hs : Before t₀ J st k (node c l z (plug (node e leaf y v) k'))) :
    ∃ st', ((detach ev st z y (top st.tree.nil v)).bind fun s => (replaceNode ev s z y).bind
        fun s => some { s with tree := inherit s.tree z y }) = some st' ∧
      Unlinked t₀ J st' (Ctx.before k ++ (l.toList ++ (plug (node e leaf y v) k').toList) ++
        Ctx.after k) e (k' ++ ⟨.right, c, y, l⟩ :: k) v := by
  obtain ⟨st1, hd, hdet, hcolor, hm⟩ := detach_spec hrep hk' hs
  obtain ⟨hinfo, h, hb, hnd, -, hbal, hcol⟩ := hs
  obtain ⟨m, hm, hJ'⟩ := hm _ hdet.info
  obtain ⟨hz0, -⟩ := h.sub
  have hy0 : y ≠ st.tree.nil := (here_append.mpr (here_cons.mpr h) :
    Here st.tree (k' ++ ⟨.right, c, z, l⟩ :: k) (node e leaf y v)).sub.1
  have hnil : st1.tree.nil = st.tree.nil := hdet.info.nil.trans hinfo.nil.symm
  -- without `z` the labels are still distinct
  have hids : (plug (node c l y (plug v k')) k).toList =
      Ctx.before k ++ (l.toList ++ (plug (node e leaf y v) k').toList) ++ Ctx.after k := by
    rw [toList_plug, toList, toList_plug, toList_plug, hk']
    simp [toList]
  have hnd' : (plug (node c l y (plug v k')) k).toList.Nodup := by
    rw [hids]
    rw [toList_plug, toList] at hnd
    refine hnd.sublist ?_
    simp
  have hzk := (nodup_plug.mp hnd).2.2 z (by simp [toList])
  have hhere := here_inherit hdet.ctx hdet.parent (by rw [hnil]; exact hz0) hdet.color hdet.left
    hdet.repLeft hl (by rw [hnil]; exact hy0) hdet.right hdet.repRight hzk hnd'
  refine ⟨⟨inherit (replaceTree st1.tree z y) z y, m⟩, ?_, ?_⟩
  · rw [hd]
    unfold replaceNode
    dsimp only [Option.bind_eq_bind, Option.bind_some]
    rw [hm]
    rfl
  have hinfo' : SameInfo st1.tree (inherit (replaceTree st1.tree z y) z y) :=
    ((SameInfo.replaceTree ..).trans (SameInfo.setChild ..)).trans
      ((SameInfo.setParent ..).trans (SameInfo.setColor ..))
  have hplug : plug v (k' ++ ⟨.right, c, y, l⟩ :: k) = plug (node c l y (plug v k')) k := by
    rw [plug_append]
    rfl
  have hplug' : plug (node e leaf y v) (k' ++ ⟨.right, c, z, l⟩ :: k) =
      plug (node c l z (plug (node e leaf y v) k')) k := by
    rw [plug_append]
    rfl
  rw [← hplug'] at hbal hcol
  obtain ⟨n, hn⟩ := hbal
  obtain ⟨n', hn', hkb⟩ := balanced_of_plug hn
  obtain ⟨m', -, hvb, rfl⟩ := balanced_of_join (d := .left) hn'
  obtain ⟨⟨-, hvc, hec⟩, hkc, -⟩ := wellColored_plug.mp hcol
  refine ⟨here_append.mpr (here_cons.mpr hhere), hdet.info.trans hinfo', ?_, fun hv => ?_, ?_, ?_,
    ⟨m', hvb, Ctx.balanced_relabel hkb⟩, hvc, Ctx.noRedRed_relabel hkc, fun he => (hec he).2⟩
  · rw [hinfo'.nil, hnil]
    refine (if_neg (Ne.symm hy0)).trans ?_
    show (replaceTree st1.tree z y).color _ = _
    rwa [replaceTree_color, hcolor]
  · have hzup := ne_up hzk (by rw [hnil]; exact hz0)
    have hzl : (replaceTree st1.tree z y).child z .left = top st1.tree.nil l := by
      rw [replaceTree_child (hdet.parent ▸ hzup), hdet.left]
    have hltop := rep_ne_nil hdet.repLeft (top st1.tree.nil l) (top_mem hl)
    rw [hinfo'.nil, inherit_parent, hzl, if_neg (Ne.symm hltop), replaceTree_parent,
      if_neg (by rw [hnil]; exact Ne.symm hy0)]
    exact hdet.leaf_parent hv
  · rwa [hplug]
  · rwa [hplug]

variable (st) in
/-- **`unlinkTree` takes `z` out of the tree.** -/
theorem unlinkTree_spec (hrep : ReplaceOk ev t₀ J) (hs : Before t₀ J st k (node c l z r))
    (hf : r.toList.length < fuel) :
    ∃ st' x e k' v, unlinkTree ev fuel st z = some (st', x, e) ∧ x = top st.tree.nil v ∧
      Unlinked t₀ J st' (Ctx.before k ++ (l.toList ++ r.toList) ++ Ctx.after k) e k' v := by
  obtain ⟨-, -, hc, hzl, hzr, hl, hr⟩ := hs.here.sub
  unfold unlinkTree
  dsimp only
  rw [hzl, hzr, hc]
  obtain rfl | hleaf := eq_or_ne l leaf
  · obtain ⟨st', hrun, hu⟩ := replaceNode_child (d := .left) hrep hs
    refine ⟨st', _, c, k, r, ?_, rfl, hu⟩
    rw [if_pos (show top st.tree.nil leaf = st.tree.nil from rfl), hrun]
    rfl
  · rw [if_neg (fun he => hleaf ((top_eq_nil_iff hl).mp he))]
    obtain rfl | hrleaf := eq_or_ne r leaf
    · obtain ⟨st', hrun, hu⟩ := replaceNode_child (d := .right) hrep hs
      refine ⟨st', _, c, k, l, ?_, rfl, ?_⟩
      · rw [if_pos (show top st.tree.nil leaf = st.tree.nil from rfl), hrun]
        rfl
      · simp only [toList, List.append_nil]
        exact hu
    · rw [if_neg (fun he => hrleaf ((top_eq_nil_iff hr).mp he))]
      have hright : Here st.tree (⟨.right, c, z, l⟩ :: k) r := here_cons.mpr hs.here
      obtain ⟨e, y, v, k', hmin, rfl, hk'⟩ := minimum_spec hright hrleaf hf
      have hy := (here_append.mpr hright :
        Here st.tree (k' ++ ⟨.right, c, z, l⟩ :: k) (node e leaf y v)).sub
      obtain ⟨-, -, hyc, -, hyr, -, -⟩ := hy
      obtain ⟨st', hrun, hu⟩ := unlinkTree_next hrep hk' hleaf hs
      refine ⟨st', _, e, _, v, ?_, rfl, hu⟩
      rw [hmin]
      dsimp only [Option.bind_eq_bind, Option.bind_some]
      rw [hyr, hyc]
      obtain ⟨st1, hd, hrun⟩ := Option.bind_eq_some_iff.mp hrun
      obtain ⟨st2, hd', hrun⟩ := Option.bind_eq_some_iff.mp hrun
      rw [hd]
      dsimp only [Option.bind_some]
      rw [hd']
      dsimp only [Option.bind_some]
      rw [Option.some.inj hrun]

end Unlink

/-! ## The whole deletion -/

/-- Repairing the colours, if the node that went away was black. -/
theorem Unlinked.repair {ev : Events σ} {t₀ : RbTree}
    {st : State σ} {ids : List Nat} {e : Color} {v : ColorTree Nat}
    (h : Unlinked t₀ J st ids e k v) (hids : ids.Nodup) (c : Nat)
    (hev : EventsOk ev { st.tree with nodes := c } J) (hf : k.length < fuel) :
    ∃ st' s', (if e = .black then
        deleteFixup ev fuel { st with tree := { st.tree with nodes := c } } (top st.tree.nil v)
        else some { st with tree := { st.tree with nodes := c } }) = some st' ∧
      Fixed { st.tree with nodes := c } J st' ids s' ∧ s'.WellColored := by
  have hat : At { st.tree with nodes := c } J { st with tree := { st.tree with nodes := c } } k v :=
    ⟨h.here.of_list _ _ _ _ c, by rw [h.toList]; exact hids, SameRest.refl _, h.black, h.aux⟩
  obtain ⟨n, hn, hkn⟩ := h.balanced
  cases e with
  | black =>
    have hblack : v.blacken.NoRedRed := (blacken_wellColored h.noRedRed).noRedRed
    have hshort : Short { st.tree with nodes := c } J
        { st with tree := { st.tree with nodes := c } } n k v :=
      ⟨hat, h.leaf_parent, hn, hkn, hblack, h.ctx_noRedRed⟩
    have hspec := deleteFixup_spec hev hshort hf
    rwa [h.toList] at hspec
  | red =>
    have hcol : (plug v k).WellColored := by
      refine wellColored_plug.mpr ⟨h.noRedRed, h.ctx_noRedRed, fun hc => ?_⟩
      rw [h.top_black rfl] at hc
      cases hc
    exact ⟨_, plug v k, rfl, ⟨hat.root, h.toList, hcol.noRedRed, balanced_plug hn hkn⟩, hcol⟩

/-- The tree `t'` is the tree `t` but for the list, which is that of the nodes `ids`. -/
structure Relisted (t t' : RbTree) (ids : List Nat) : Prop where
  nil : t'.nil = t.nil
  key : t'.key = t.key
  data : t'.data = t.data
  nodes : t'.nodes = t.nodes
  list : Seg t'.next t'.prev t'.nil ids t'.nil
  min : t'.min = ids.headD t'.nil
  max : t'.max = ids.getLastD t'.nil

/-- The callbacks keep `J` while a node of the tree is replaced and the colours are repaired. -/
structure DeletesOk (ev : Events σ) (t : RbTree) (J : σ → ColorTree Nat → Prop) : Prop where
  replace : ∀ t₀, t₀.nil = t.nil → t₀.key = t.key → t₀.data = t.data → ReplaceOk ev t₀ J
  fixup : ∀ t₀, t₀.nil = t.nil → t₀.key = t.key → t₀.data = t.data → t₀.nodes + 1 = t.nodes →
    EventsOk ev t₀ J

section Whole

variable {ev : Events σ} {st : State σ}

/-- The node is taken out of the list and out of the tree. -/
theorem Holds.unlink (h : Holds st.tree s) (hz : z ∈ s.toList) (hJ : J st.data s)
    (hev : DeletesOk ev st.tree J) :
    ∃ t₀ st₁ e k v xs ys, unlinkTree ev (st.tree.nodes + 2)
        { st with tree := unlinkList st.tree z } z = some (st₁, top st₁.tree.nil v, e) ∧
      Unlinked t₀ J st₁ (xs ++ ys) e k v ∧ s.toList = xs ++ z :: ys ∧
      Relisted st.tree t₀ (xs ++ ys) := by
  obtain ⟨k, c, l, r, rfl⟩ := ColorTree.exists_focus hz
  have hids : (plug (node c l z r) k).toList =
      (Ctx.before k ++ l.toList) ++ z :: (r.toList ++ Ctx.after k) := by
    rw [toList_plug]
    simp [toList]
  obtain ⟨n, p, mn, mx, heq, hseg, hmn, hmx⟩ := unlinkList_spec (hids ▸ h.list) (hids ▸ h.min)
    (hids ▸ h.max) (hids ▸ h.nodup) (hids ▸ h.ne_nil)
  have hrlen : r.toList.length < st.tree.nodes + 2 := by
    have hlen := h.nodes
    rw [hids] at hlen
    simp only [List.length_append, List.length_cons] at hlen
    omega
  rw [heq]
  obtain ⟨st₁, x, e, k', v, hrun, hx, hu⟩ := unlinkTree_spec
    ⟨{ st.tree with next := n, prev := p, min := mn, max := mx }, st.data⟩
    (hev.replace { st.tree with next := n, prev := p, min := mn, max := mx } rfl rfl rfl) ⟨.refl _,
      here_plug.mpr (h.here.of_list n p mn mx st.tree.nodes), h.nilColor, h.nodup, hJ, h.balanced,
      h.wellColored⟩ hrlen
  have hassoc : Ctx.before k ++ (l.toList ++ r.toList) ++ Ctx.after k =
      (Ctx.before k ++ l.toList) ++ (r.toList ++ Ctx.after k) := by
    simp
  rw [hassoc] at hu
  rw [hx, ← hu.info.nil] at hrun
  exact ⟨_, st₁, e, k', v, _, _, hrun, hu, hids, rfl, rfl, rfl, rfl, hseg, hmn, hmx⟩

/-- `delete_node` on a node of the tree. The count is still one too large. -/
theorem deleteNode_spec (h : Holds st.tree s) (hz : z ∈ s.toList) (hJ : J st.data s)
    (hev : DeletesOk ev st.tree J) :
    ∃ st' s' xs ys, deleteNode ev st z = some st' ∧
      Holds { st'.tree with nodes := st'.tree.nodes - 1 } s' ∧
      s.toList = xs ++ z :: ys ∧ s'.toList = xs ++ ys ∧ st'.tree.nil = st.tree.nil ∧
      st'.tree.key = st.tree.key ∧ st'.tree.data = st.tree.data ∧
      st'.tree.nodes = 2 * s'.toList.length + 1 ∧ J st'.data s' := by
  obtain ⟨t₀, st₁, e, k, v, xs, ys, hrun, hu, hids, hlist⟩ := h.unlink hz hJ hev
  have hsub : (xs ++ ys).Sublist (xs ++ z :: ys) :=
    (List.Sublist.refl _).append (List.sublist_cons_self _ _)
  have hinfo := hu.info
  have hnil : st₁.tree.nil = st.tree.nil := hinfo.nil.trans hlist.nil
  have hkey : st₁.tree.key = st.tree.key := hinfo.key.trans hlist.key
  have hdata : st₁.tree.data = st.tree.data := hinfo.data.trans hlist.data
  have hnodes : st₁.tree.nodes = 2 * (xs ++ ys).length + 2 := by
    rw [hinfo.nodes, hlist.nodes, h.nodes, hids]
    simp only [List.length_append, List.length_cons]
    omega
  have hklen : k.length < st.tree.nodes + 2 := by
    have h1 := Ctx.length_le k
    have h2 := congrArg List.length hu.toList
    rw [toList_plug] at h2
    simp only [List.length_append] at h2 hnodes
    rw [hinfo.nodes, hlist.nodes] at hnodes
    omega
  obtain ⟨st₂, s', hrun₂, hfix, hcol⟩ := hu.repair ((hids ▸ h.nodup).sublist hsub)
    (st₁.tree.nodes - 1) (hev.fixup _ hnil hkey hdata (by
      show st₁.tree.nodes - 1 + 1 = st.tree.nodes
      rw [← hlist.nodes, ← hinfo.nodes]
      omega)) hklen
  have hrest := hfix.at_root.rest
  have hnodes₂ : st₂.tree.nodes = 2 * s'.toList.length + 1 := by
    rw [hrest.nodes, hfix.toList]
    show st₁.tree.nodes - 1 = _
    omega
  refine ⟨st₂, s', xs, ys, ?_, ?_, hids, hfix.toList, hrest.nil.trans hnil, hrest.key.trans hkey,
    hrest.data.trans hdata, hnodes₂, hfix.at_root.aux⟩
  · unfold deleteNode
    dsimp only
    rw [hrun]
    exact hrun₂
  · refine hfix.holds hcol ?_ ?_ ?_ ?_ ?_ ?_
    · show List.Pairwise (fun i j => st₁.tree.key i < st₁.tree.key j) _
      rw [hkey]
      exact (hids ▸ h.sorted).sublist hsub
    · show Seg st₁.tree.next st₁.tree.prev st₁.tree.nil _ st₁.tree.nil
      rw [hinfo.next, hinfo.prev, hinfo.nil]
      exact hlist.list
    · show st₁.tree.min = List.headD _ st₁.tree.nil
      rw [hinfo.min, hinfo.nil]
      exact hlist.min
    · show st₁.tree.max = List.getLastD _ st₁.tree.nil
      rw [hinfo.max, hinfo.nil]
      exact hlist.max
    · show st₁.tree.data st₁.tree.nil = 0
      rw [hdata, hnil]
      exact h.nilData
    · rw [hnodes₂, hfix.toList]
      rfl

/-- `delete_node` has set `min` and `max`, so `rb_tree_delete_node` only counts down. -/
theorem rbTreeDeleteNode_of_deleteNode {st' : State σ} (hdel : deleteNode ev st z = some st')
    (h : Holds { st'.tree with nodes := st'.tree.nodes - 1 } s)
    (hnodes : st'.tree.nodes = 2 * s.toList.length + 1) (hz : z ∉ s.toList)
    (hz0 : z ≠ st'.tree.nil) :
    rbTreeDeleteNode ev st z =
      some ({ st' with tree := { st'.tree with nodes := st'.tree.nodes - 1 } },
        st'.tree.data z) := by
  have hmin : st'.tree.min = s.toList.headD st'.tree.nil := h.min
  have hmax : st'.tree.max = s.toList.getLastD st'.tree.nil := h.max
  have hzmin : z ≠ st'.tree.min := by
    rw [hmin]
    rcases headD_cases s.toList st'.tree.nil with ⟨-, he⟩ | ⟨-, hm⟩
    · rwa [he]
    · exact fun he => hz (he ▸ hm)
  have hzmax : z ≠ st'.tree.max := by
    rw [hmax]
    rcases getLastD_cases s.toList st'.tree.nil with ⟨-, he⟩ | ⟨-, hm⟩
    · rwa [he]
    · exact fun he => hz (he ▸ hm)
  rw [rbTreeDeleteNode, hdel]
  dsimp only [Option.bind_eq_bind, Option.bind_some]
  split_ifs with hone
  · have he : s.toList = [] := List.length_eq_zero_iff.mp (by omega)
    rw [he] at hmin hmax
    have hmn : st'.tree.nil = st'.tree.min := hmin.symm
    have hmx : st'.tree.nil = st'.tree.max := hmax.symm
    simp only [← hmn, ← hmx]
  · rfl

end Whole

/-- **Deletion of a node of the tree.** -/
theorem rbTreeDeleteNode_spec (ev : Events σ) (st : State σ)
    (h : Holds st.tree s) (hz : z ∈ s.toList) (hJ : J st.data s)
    (hev : DeletesOk ev st.tree J) :
    ∃ st' s' xs ys, rbTreeDeleteNode ev st z = some (st', st.tree.data z) ∧ Holds st'.tree s' ∧
      s.toList = xs ++ z :: ys ∧ s'.toList = xs ++ ys ∧ st'.tree.nil = st.tree.nil ∧
      st'.tree.key = st.tree.key ∧ st'.tree.data = st.tree.data ∧ J st'.data s' := by
  obtain ⟨st₂, s', xs, ys, hdel, hholds, hids, hids', hnil, hkey, hdata, hnodes, hJ'⟩ :=
    deleteNode_spec h hz hJ hev
  have hnot : z ∉ s'.toList := by
    have hnd := hids ▸ h.nodup
    rw [List.perm_middle.nodup_iff, List.nodup_cons] at hnd
    rw [hids']
    exact hnd.1
  have hrun := rbTreeDeleteNode_of_deleteNode hdel hholds hnodes hnot (hnil ▸ h.ne_nil z hz)
  rw [hdata] at hrun
  exact ⟨_, s', xs, ys, hrun, hholds, hids, hids', hnil, hkey, hdata, hJ'⟩

end Osdev.Rb
