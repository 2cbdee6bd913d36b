import Osdev.RbTree.Model

/-!
# Pointer trees and abstract trees

`Rep t p s` says that the nodes of `s` are linked in memory as `s` is, and that the top of `s` has
parent `p`. `CRep t k h` says the same of the frames of a context whose hole is filled by node `h`.
Together (`Here t k s`) they describe the tree `plug s k` seen from one of its subtrees, which is
how the fix-up loops see it.

Only the addresses in the tree matter (`rep_congr`, `crep_congr`). In particular the `parent` of the
sentinel may be anything.
-/

namespace Osdev.Rb

open Osdev.Lib Osdev.Lib.ColorTree

variable {t t' : RbTree} {s : ColorTree Nat} {k : List (Frame Nat)}
variable {p nil u v : Nat} {d : Side} {c : Color}

/-! ## The predicates -/

/-- The address of the top node; `nil` for a leaf. -/
def top (nil : Nat) : ColorTree Nat → Nat
  | leaf => nil
  | node _ _ a _ => a

def Rep (t : RbTree) (p : Nat) : ColorTree Nat → Prop
  | leaf => True
  | node c l a r => a ≠ t.nil ∧ t.parent a = p ∧ t.color a = c ∧ t.child a .left = top t.nil l ∧
      t.child a .right = top t.nil r ∧ Rep t a l ∧ Rep t a r

/-- The parent of the hole; `nil` if the hole is the root. -/
def up (nil : Nat) : List (Frame Nat) → Nat
  | [] => nil
  | f :: _ => f.label

def CRep (t : RbTree) : List (Frame Nat) → Nat → Prop
  | [], h => t.root = h
  | f :: k, h => f.label ≠ t.nil ∧ t.parent f.label = up t.nil k ∧ t.color f.label = f.color ∧
      t.child f.label f.side = h ∧ t.child f.label f.side.flip = top t.nil f.sib ∧
      Rep t f.label f.sib ∧ CRep t k f.label

/-- The memory holds `plug s k`. -/
structure Here (t : RbTree) (k : List (Frame Nat)) (s : ColorTree Nat) : Prop where
  ctx : CRep t k (top t.nil s)
  sub : Rep t (up t.nil k) s

theorem top_join (nil : Nat) (d : Side) (c : Color) (s : ColorTree Nat) (a : Nat)
    (u : ColorTree Nat) :
    top nil (join d c s a u) = a := by
  cases d <;> rfl

theorem rep_join {a : Nat} {u : ColorTree Nat} : Rep t p (join d c s a u) ↔
    a ≠ t.nil ∧ t.parent a = p ∧ t.color a = c ∧ t.child a d = top t.nil s ∧
      t.child a d.flip = top t.nil u ∧ Rep t a s ∧ Rep t a u := by
  cases d
  · rfl
  · simp only [join, Rep, Side.flip]
    tauto

/-- The hole can be moved up and down. -/
theorem here_cons {f : Frame Nat} :
    Here t (f :: k) s ↔ Here t k (join f.side f.color s f.label f.sib) := by
  constructor
  · rintro ⟨⟨h1, h2, h3, h4, h5, h6, h7⟩, hs⟩
    exact ⟨by rwa [top_join], rep_join.mpr ⟨h1, h2, h3, h4, h5, hs, h6⟩⟩
  · rintro ⟨hc, hs⟩
    obtain ⟨h1, h2, h3, h4, h5, h6, h7⟩ := rep_join.mp hs
    rw [top_join] at hc
    exact ⟨⟨h1, h2, h3, h4, h5, h7, hc⟩, h6⟩

theorem here_plug : Here t k s ↔ Here t [] (plug s k) := by
  induction k generalizing s with
  | nil => rfl
  | cons f k ih => rw [here_cons, ih]; rfl

theorem here_append {k' : List (Frame Nat)} : Here t (k ++ k') s ↔ Here t k' (plug s k) := by
  rw [here_plug, plug_append, ← here_plug]

/-- An induction for the loops that walk down the tree: what they look at is in memory, and their
fuel is enough. -/
@[elab_as_elim] theorem Here.descend {motive : List (Frame Nat) → ColorTree Nat → Nat → Prop}
    {fuel : Nat}
    (h : Here t k s) (hf : s.toList.length < fuel) (hleaf : ∀ k fuel, motive k leaf (fuel + 1))
    (hnode : ∀ k c l a r fuel, Here t k (node c l a r) → motive (⟨.left, c, a, r⟩ :: k) l fuel →
      motive (⟨.right, c, a, l⟩ :: k) r fuel → motive k (node c l a r) (fuel + 1)) :
    motive k s fuel := by
  induction s generalizing k fuel with
  | leaf =>
    obtain _ | fuel := fuel
    · omega
    exact hleaf k fuel
  | node c l a r ihl ihr =>
    obtain _ | fuel := fuel
    · omega
    simp only [toList, List.length_append, List.length_cons] at hf
    exact hnode k c l a r fuel h (ihl (here_cons.mpr h) (by omega))
      (ihr (here_cons.mpr h) (by omega))

/-! ## What the predicates depend on -/

/-- Node `i` has the same links and colour. -/
structure Agree (t t' : RbTree) (i : Nat) : Prop where
  parent : t'.parent i = t.parent i
  color : t'.color i = t.color i
  child : ∀ d, t'.child i d = t.child i d

theorem rep_congr (hnil : t'.nil = t.nil) :
    ∀ {s : ColorTree Nat} {p : Nat}, (∀ i ∈ s.toList, Agree t t' i) → Rep t p s → Rep t' p s
  | leaf, _, _, _ => trivial
  | node c l a r, p, h, ⟨h1, h2, h3, h4, h5, h6, h7⟩ => by
    have ha := h a (by simp)
    refine ⟨by rwa [hnil], ha.parent.trans h2, ha.color.trans h3, ?_, ?_, ?_, ?_⟩
    · rwa [ha.child, hnil]
    · rwa [ha.child, hnil]
    · exact rep_congr hnil (fun i hi => h i (by simp [hi])) h6
    · exact rep_congr hnil (fun i hi => h i (by simp [hi])) h7

/-- A subtree may hang below another parent. -/
theorem rep_reparent (hnil : t'.nil = t.nil) {p' : Nat} (hnd : s.toList.Nodup)
    (hcolor : ∀ i ∈ s.toList, t'.color i = t.color i)
    (hchild : ∀ i ∈ s.toList, ∀ d, t'.child i d = t.child i d)
    (hparent : ∀ i ∈ s.toList, t'.parent i = if i = top t.nil s then p' else t.parent i)
    (h : Rep t p s) : Rep t' p' s := by
  cases s with
  | leaf => trivial
  | node c l a r =>
    obtain ⟨h1, h2, h3, h4, h5, h6, h7⟩ := h
    obtain ⟨-, -, hal, har, -⟩ := (nodup_join (d := .left)).mp hnd
    have hin : ∀ i ∈ (node c l a r).toList, i ≠ a → Agree t t' i := by
      intro i hi hne
      refine ⟨?_, hcolor i hi, hchild i hi⟩
      rw [hparent i hi]
      exact if_neg hne
    have ham : a ∈ (node c l a r).toList := by simp
    refine ⟨by rwa [hnil], ?_, (hcolor a ham).trans h3, ?_, ?_, ?_, ?_⟩
    · rw [hparent a ham]
      exact if_pos rfl
    · rwa [hchild a ham, hnil]
    · rwa [hchild a ham, hnil]
    · exact rep_congr hnil (fun i hi => hin i (by simp [hi]) (fun he => hal (he ▸ hi))) h6
    · exact rep_congr hnil (fun i hi => hin i (by simp [hi]) (fun he => har (he ▸ hi))) h7

theorem crep_congr (hnil : t'.nil = t.nil) (hroot : t'.root = t.root) :
    ∀ {k : List (Frame Nat)} {h : Nat}, (∀ i ∈ Ctx.labels k, Agree t t' i) → CRep t k h →
      CRep t' k h
  | [], _, _, hc => hroot.trans hc
  | f :: k, h, hag, ⟨h1, h2, h3, h4, h5, h6, h7⟩ => by
    have hf := hag f.label (by simp)
    refine ⟨by rwa [hnil], ?_, hf.color.trans h3, (hf.child _).trans h4, ?_, ?_, ?_⟩
    · rwa [hf.parent, hnil]
    · rwa [hf.child, hnil]
    · exact rep_congr hnil (fun i hi => hag i (by simp [hi])) h6
    · exact crep_congr hnil hroot
        (fun i hi => hag i (by simp [hi])) h7

theorem Here.congr (h : Here t k s) (hnil : t'.nil = t.nil) (hroot : t'.root = t.root)
    (hs : ∀ i ∈ s.toList, Agree t t' i) (hk : ∀ i ∈ Ctx.labels k, Agree t t' i) :
    Here t' k s := by
  refine ⟨?_, ?_⟩
  · rw [hnil]
    exact crep_congr hnil hroot hk h.ctx
  · rw [hnil]
    exact rep_congr hnil hs h.sub

theorem rep_ne_nil : ∀ {p : Nat}, Rep t p s → ∀ i ∈ s.toList, i ≠ t.nil := by
  induction s with
  | leaf => intro p _ i hi; simp [toList] at hi
  | node c l a r ihl ihr =>
    rintro p ⟨h1, -, -, -, -, h6, h7⟩ i hi
    rcases mem_node.mp hi with hi | rfl | hi
    · exact ihl h6 i hi
    · exact h1
    · exact ihr h7 i hi

theorem crep_ne_nil : ∀ {k : List (Frame Nat)} {h : Nat}, CRep t k h →
    ∀ i ∈ Ctx.labels k, i ≠ t.nil
  | [], _, _, i, hi => by simp [Ctx.labels, Ctx.before, Ctx.after] at hi
  | f :: k, h, ⟨h1, _, _, _, _, h6, h7⟩, i, hi => by
    rcases Ctx.mem_labels_cons.mp hi with rfl | hi | hi
    · exact h1
    · exact rep_ne_nil h6 i hi
    · exact crep_ne_nil h7 i hi

theorem top_mem (h : s ≠ leaf) : top nil s ∈ s.toList := by
  cases s with
  | leaf => exact absurd rfl h
  | node c l a r => simp [top, toList]

theorem top_eq_nil_iff (h : Rep t p s) : top t.nil s = t.nil ↔ s = leaf := by
  constructor
  · intro he
    by_contra hne
    exact rep_ne_nil h _ (top_mem hne) he
  · rintro rfl
    rfl

/-- The colour of the top of a subtree is the colour in memory, if the sentinel is black. -/
theorem color_top (hb : t.color t.nil = .black) (h : Rep t p s) :
    t.color (top t.nil s) = s.color := by
  cases s with
  | leaf => exact hb
  | node c l a r => exact h.2.2.1

/-! ## Filling the hole with another node -/

@[simp] theorem setLink_nil (t : RbTree) (p u v : Nat) : (t.setLink p u v).nil = t.nil := by
  unfold RbTree.setLink
  split_ifs <;> rfl

@[simp] theorem setLink_parent (t : RbTree) (p u v : Nat) :
    (t.setLink p u v).parent = t.parent := by
  unfold RbTree.setLink
  split_ifs <;> rfl

@[simp] theorem setLink_color (t : RbTree) (p u v : Nat) : (t.setLink p u v).color = t.color := by
  unfold RbTree.setLink
  split_ifs <;> rfl

theorem setLink_child (t : RbTree) {j : Nat} (hj : j ≠ p) (d : Side) :
    (t.setLink p u v).child j d = t.child j d := by
  unfold RbTree.setLink
  split_ifs
  · rfl
  · exact if_neg (fun h => hj h.1)
  · exact if_neg (fun h => hj h.1)

/-- The parent is never inside the subtree. -/
theorem up_mem (h : k ≠ []) : up nil k ∈ Ctx.labels k := by
  cases k with
  | nil => exact absurd rfl h
  | cons f k => simp [up]

/-- Store `v` where the hole of the context is. -/
def fill (t : RbTree) (k : List (Frame Nat)) (v : Nat) : RbTree :=
  match k with
  | [] => { t with root := v }
  | f :: _ => t.setChild f.label f.side v

theorem crep_fill (v : Nat) (hc : CRep t k u) (hnd : (Ctx.labels k).Nodup) :
    CRep (fill t k v) k v := by
  cases k with
  | nil => rfl
  | cons f k =>
    obtain ⟨h1, h2, h3, h4, h5, h6, h7⟩ := hc
    obtain ⟨-, -, hfs, hfk, -⟩ := nodup_labels_cons.mp hnd
    have hag : ∀ i, i ≠ f.label → Agree t (t.setChild f.label f.side v) i := by
      intro i hi
      exact ⟨rfl, rfl, fun d => if_neg (fun h => hi h.1)⟩
    have hnil : (t.setChild f.label f.side v).nil = t.nil := rfl
    have hroot : (t.setChild f.label f.side v).root = t.root := rfl
    refine ⟨h1, h2, h3, if_pos ⟨rfl, rfl⟩, ?_, ?_, ?_⟩
    · exact (if_neg (fun h => f.side.flip_ne h.2)).trans h5
    · exact rep_congr hnil (fun i hi => hag i (fun he => hfs (he ▸ hi))) h6
    · exact crep_congr hnil hroot (fun i hi => hag i (fun he => hfk (he ▸ hi))) h7

/-- `setLink` finds the place of the node `u` that fills the hole. -/
theorem setLink_eq_fill (hc : CRep t k u) (hu : u ∉ Ctx.labels k) (hu0 : u ≠ t.nil) :
    t.setLink (up t.nil k) u v = fill t k v := by
  cases k with
  | nil => exact if_pos rfl
  | cons f k =>
    obtain ⟨h1, -, -, h4, h5, -, -⟩ := hc
    refine (if_neg h1).trans ?_
    cases hd : f.side with
    | left =>
      rw [hd] at h4
      rw [fill, hd]
      exact if_pos h4.symm
    | right =>
      rw [hd] at h5
      rw [fill, hd]
      refine if_neg fun he => ?_
      have he : u = top t.nil f.sib := he.trans h5
      by_cases hl : f.sib = leaf
      · rw [hl] at he
        exact hu0 he
      · exact hu (by simp [he, top_mem hl])

theorem crep_setLink (v : Nat) (hc : CRep t k u) (hnd : (Ctx.labels k).Nodup)
    (hu : u ∉ Ctx.labels k) (hu0 : u ≠ t.nil) : CRep (t.setLink (up t.nil k) u v) k v := by
  rw [setLink_eq_fill hc hu hu0]
  exact crep_fill v hc hnd

/-! ## Rotation -/

section Rotation

variable {d : Side} {x y : Nat}

/-- The links of a rotation up to the one from the parent. -/
def rotateBelow (d : Side) (t : RbTree) (x y : Nat) : RbTree :=
  let t' := t.setChild x d.flip (t.child y d)
  (if t.child y d ≠ t.nil then t'.setParent (t.child y d) x else t').setParent y (t.parent x)

@[simp] theorem rotateBelow_nil : (rotateBelow d t x y).nil = t.nil := by
  unfold rotateBelow
  dsimp only
  split_ifs <;> rfl

@[simp] theorem rotateBelow_root : (rotateBelow d t x y).root = t.root := by
  unfold rotateBelow
  dsimp only
  split_ifs <;> rfl

@[simp] theorem rotateBelow_color : (rotateBelow d t x y).color = t.color := by
  unfold rotateBelow
  dsimp only
  split_ifs <;> rfl

theorem rotateBelow_child (j : Nat) (e : Side) : (rotateBelow d t x y).child j e =
    if j = x ∧ e = d.flip then t.child y d else t.child j e := by
  unfold rotateBelow
  split_ifs <;> simp_all [RbTree.setChild, RbTree.setParent]

theorem rotateBelow_parent (j : Nat) : (rotateBelow d t x y).parent j =
    if j = y then t.parent x
    else if j = t.child y d ∧ t.child y d ≠ t.nil then x else t.parent j := by
  unfold rotateBelow
  split_ifs <;> simp_all [RbTree.setChild, RbTree.setParent]

theorem rotateTree_eq (hxy : x ≠ y) (hx : x ≠ t.child y d) : rotateTree d t x y =
    (((rotateBelow d t x y).setLink (t.parent x) x y).setChild y d x).setParent x y := by
  have hd : (t.setChild x d.flip (t.child y d)).child y d = t.child y d :=
    if_neg (fun h => d.ne_flip h.2)
  have hp : (rotateBelow d t x y).parent x = t.parent x := by
    rw [rotateBelow_parent, if_neg hxy, if_neg (fun h => hx h.1)]
  have hb : ((if t.child y d ≠ t.nil then
      (t.setChild x d.flip (t.child y d)).setParent (t.child y d) x
      else t.setChild x d.flip (t.child y d)).parent x) = t.parent x := by
    split_ifs
    · exact if_neg hx
    · rfl
  conv_rhs => rw [← hp]
  unfold rotateTree rotateBelow
  dsimp only
  rw [hd]
  have hn : (t.setChild x d.flip (t.child y d)).nil = t.nil := rfl
  rw [hn, hb]

end Rotation

/-- **A rotation rotates.** -/
theorem here_rotate {e : Color} {a b g : ColorTree Nat} {x y : Nat}
    (h : Here t k (join d c a x (join d e b y g)))
    (hnd : (plug (join d c a x (join d e b y g)) k).toList.Nodup) :
    Here (rotateTree d t x y) k (join d e (join d c a x b) y g) := by
  obtain ⟨hc, hs⟩ := h
  rw [top_join] at hc
  obtain ⟨hnds, hndk, hsk⟩ := nodup_plug.mp hnd
  -- the parent of the rotated subtree is none of its nodes
  have hup : ∀ i ∈ (join d c a x (join d e b y g)).toList, i ≠ up t.nil k := by
    intro i hi he
    cases k with
    | nil => exact rep_ne_nil hs i hi he
    | cons f k => exact hsk i hi (he ▸ up_mem (by simp))
  obtain ⟨hx0, hxp, hxc, hxd, hxf, ha, hyy⟩ := rep_join.mp hs
  obtain ⟨hy0, hyp, hyc, hyd, hyf, hb, hg⟩ := rep_join.mp hyy
  obtain ⟨hnda, hndy, hxa, hxy, hay⟩ := nodup_join.mp hnds
  obtain ⟨hndb, hndg, hyb, hyg, hbg⟩ := nodup_join.mp hndy
  simp only [mem_join, not_or, or_imp, forall_and, forall_eq] at hup hsk hxy hay
  obtain ⟨hxb, hxny, hxg⟩ := hxy
  obtain ⟨hab, hya, hag⟩ := hay
  obtain ⟨hak, hxk, hbk, hyk, hgk⟩ := hsk
  obtain ⟨hau, hxu, hbu, hyu, hgu⟩ := hup
  have hB : ∀ i, i ∉ b.toList → i ≠ t.nil → i ≠ t.child y d := by
    intro i hi hi0 he
    rw [hyd] at he
    by_cases hl : b = leaf
    · exact hi0 (by rw [he, hl]; rfl)
    · exact hi (he ▸ top_mem hl)
  rw [rotateTree_eq hxny (hB x hxb hx0), hxp]
  have hctx : CRep (rotateBelow d t x y) k x := by
    refine crep_congr rotateBelow_nil rotateBelow_root (fun i hi => ?_) hc
    have hix : i ≠ x := fun he => hxk (he ▸ hi)
    have hiy : i ≠ y := fun he => hyk (he ▸ hi)
    have hiB := hB i (fun hm => hbk i hm hi) (crep_ne_nil hc i hi)
    exact
      ⟨by simp [rotateBelow_parent, hiy, hiB], by simp, fun e => by simp [rotateBelow_child, hix]⟩
  have hlink := crep_setLink y hctx hndk hxk (by simpa)
  rw [rotateBelow_nil] at hlink
  generalize hF :
    (((rotateBelow d t x y).setLink (up t.nil k) x y).setChild y d x).setParent x y = F
  have hFnil : F.nil = t.nil := by simp [← hF, RbTree.setParent, RbTree.setChild]
  have hFcolor : F.color = t.color := by simp [← hF, RbTree.setParent, RbTree.setChild]
  have hFparent : ∀ j, F.parent j = if j = x then y else if j = y then t.parent x
      else if j = t.child y d ∧ t.child y d ≠ t.nil then x else t.parent j := fun j => by
    simp [← hF, RbTree.setParent, RbTree.setChild, rotateBelow_parent]
  have hFchild : ∀ j e, j ≠ up t.nil k → F.child j e = if j = y ∧ e = d then x
      else if j = x ∧ e = d.flip then t.child y d else t.child j e := fun j e hj => by
    simp [← hF, RbTree.setParent, RbTree.setChild, setLink_child _ hj, rotateBelow_child]
  -- the nodes below `a`, `b` and `g`, apart from the top of `b`
  have hsame : ∀ i, i ≠ x → i ≠ y → i ≠ up t.nil k → i ≠ t.child y d → Agree t F i :=
    fun i hx hy hu hi => ⟨by simp [hFparent, hx, hy, hi], by rw [hFcolor],
      fun e => by simp [hFchild i e hu, hx, hy]⟩
  refine ⟨?_, ?_⟩
  · rw [top_join]
    refine crep_congr (by rw [← hF]; rfl) (by rw [← hF]; rfl) (fun i hi => ?_) hlink
    have hix : i ≠ x := fun he => hxk (he ▸ hi)
    have hiy : i ≠ y := fun he => hyk (he ▸ hi)
    rw [← hF]
    exact ⟨if_neg hix, rfl, fun e => if_neg (fun h => hiy h.1)⟩
  rw [hFnil]
  refine rep_join.mpr ⟨by rwa [hFnil], ?_, by rwa [hFcolor], ?_, ?_,
    rep_join.mpr ⟨by rwa [hFnil], ?_, by rwa [hFcolor], ?_, ?_, ?_, ?_⟩, ?_⟩
  · simp [hFparent, Ne.symm hxny, hxp]
  · simp [hFchild y d hyu, top_join]
  · simp [hFchild y _ hyu, Ne.symm hxny, hyf, hFnil]
  · simp [hFparent]
  · simp [hFchild x d hxu, hxny, hxd, hFnil]
  · simp [hFchild x _ hxu, hxny, hyd, hFnil]
  · refine rep_congr hFnil (fun i hi => hsame i ?_ ?_ (hau i hi) ?_) ha
    · exact fun he => hxa (he ▸ hi)
    · exact fun he => hya i hi he
    · exact hB i (hab i hi) (rep_ne_nil ha i hi)
  · have hi3 : ∀ i ∈ b.toList, i ≠ x ∧ i ≠ y :=
      fun i hi => ⟨fun he => hxb (he ▸ hi), fun he => hyb (he ▸ hi)⟩
    refine rep_reparent hFnil hndb (fun i _ => by rw [hFcolor]) (fun i hi e => ?_)
      (fun i hi => ?_) hb
    · simp [hFchild i e (hbu i hi), hi3 i hi]
    · have hi0 := rep_ne_nil hb i hi
      grind
  · refine rep_congr hFnil (fun i hi => hsame i ?_ ?_ (hgu i hi) ?_) hg
    · exact fun he => hxg (he ▸ hi)
    · exact fun he => hyg (he ▸ hi)
    · exact hB i (fun hm => hbg i hm hi) (rep_ne_nil hg i hi)

end Osdev.Rb
