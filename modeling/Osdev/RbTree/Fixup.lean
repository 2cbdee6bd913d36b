import Osdev.RbTree.Rep

/-!
# The fix-up loops

`insertFixup` and `deleteFixup` move a focus towards the root. Their invariants are stated at the
focus: what is wrong is at the top of the focused subtree, and the subtree and its context are
otherwise as they should be. The callbacks keep a relation `J` between their data and the tree
(`EventsOk`); a plain map takes the trivial relation.
-/

namespace Osdev.Rb

open Osdev.Lib Osdev.Lib.ColorTree

variable {σ : Type}
variable {x fuel : Nat}
variable {i y n : Nat} {c : Color} {f : Frame Nat} {s : ColorTree Nat} {ids : List Nat}

/-! ## What a fix-up leaves alone -/

/-- The fields that rotations and recolouring never touch. -/
structure SameRest (t t' : RbTree) : Prop where
  nil : t'.nil = t.nil
  min : t'.min = t.min
  max : t'.max = t.max
  nodes : t'.nodes = t.nodes
  key : t'.key = t.key
  data : t'.data = t.data
  next : t'.next = t.next
  prev : t'.prev = t.prev
  nilParent : t'.parent t.nil = t.parent t.nil

namespace SameRest

variable {t t' t'' : RbTree}

theorem refl (t : RbTree) : SameRest t t := ⟨rfl, rfl, rfl, rfl, rfl, rfl, rfl, rfl, rfl⟩

theorem trans (h : SameRest t t') (h' : SameRest t' t'') : SameRest t t'' where
  nil := h'.nil.trans h.nil
  min := h'.min.trans h.min
  max := h'.max.trans h.max
  nodes := h'.nodes.trans h.nodes
  key := h'.key.trans h.key
  data := h'.data.trans h.data
  next := h'.next.trans h.next
  prev := h'.prev.trans h.prev
  nilParent := by
    have := h'.nilParent
    rw [h.nil] at this
    exact this.trans h.nilParent

theorem setColor (h : SameRest t t') (i : Nat) (c : Color) : SameRest t (t'.setColor i c) :=
  h.trans ⟨rfl, rfl, rfl, rfl, rfl, rfl, rfl, rfl, rfl⟩

theorem setLink (t : RbTree) (p u v : Nat) : SameRest t (t.setLink p u v) := by
  unfold RbTree.setLink
  split_ifs <;> exact ⟨rfl, rfl, rfl, rfl, rfl, rfl, rfl, rfl, rfl⟩

theorem setChild (t : RbTree) (i : Nat) (d : Side) (v : Nat) : SameRest t (t.setChild i d v) :=
  ⟨rfl, rfl, rfl, rfl, rfl, rfl, rfl, rfl, rfl⟩

theorem setParent (t : RbTree) (v : Nat) (h : i ≠ t.nil) :
    SameRest t (t.setParent i v) :=
  ⟨rfl, rfl, rfl, rfl, rfl, rfl, rfl, rfl, if_neg (Ne.symm h)⟩

theorem rotateTree (d : Side) (t : RbTree) (hx : x ≠ t.nil) (hy : y ≠ t.nil) :
    SameRest t (rotateTree d t x y) := by
  unfold Rb.rotateTree
  dsimp only
  have h1 := setChild t x d.flip (t.child y d)
  generalize t.setChild x d.flip (t.child y d) = t1 at h1 ⊢
  have h2 : SameRest t (if t1.child y d ≠ t1.nil then t1.setParent (t1.child y d) x else t1) := by
    split_ifs with h
    · exact h1.trans (setParent _ _ h)
    · exact h1
  generalize (if t1.child y d ≠ t1.nil then t1.setParent (t1.child y d) x else t1) = t2 at h2 ⊢
  have h3 := h2.trans (setParent t2 (t2.parent x) (by rwa [h2.nil]))
  have h4 := (h3.trans (setLink _ ((t2.setParent y (t2.parent x)).parent x) x y)).trans
    (setChild _ y d x)
  exact h4.trans (setParent _ _ (by rwa [h4.nil]))

end SameRest

theorem rotateTree_color (d : Side) (t : RbTree) (x y : Nat) :
    (rotateTree d t x y).color = t.color := by
  refine (setLink_color ..).trans ?_
  split_ifs <;> rfl

/-! ## Looking around from the focus -/

section Look

variable {t : RbTree} {s : ColorTree Nat} {k : List (Frame Nat)} {f : Frame Nat}

/-- The parent of the focus, also if the focus is the sentinel, when its `parent` says so. -/
theorem Here.parent_top (h : Here t k s) (hl : s = leaf → t.parent t.nil = up t.nil k) :
    t.parent (top t.nil s) = up t.nil k := by
  cases s with
  | leaf => exact hl rfl
  | node c l a r => exact h.sub.2.1

/-- The test by which the loops find out on which side they are. -/
theorem Here.side_eq (h : Here t (f :: k) s) (hne : top t.nil s ≠ top t.nil f.sib) :
    (if top t.nil s = t.child f.label .left then Side.left else .right) = f.side := by
  obtain ⟨-, -, -, h4, h5, -, -⟩ := h.ctx
  cases hd : f.side with
  | left =>
    rw [hd] at h4
    exact if_pos h4.symm
  | right =>
    rw [hd] at h5
    rw [show t.child f.label .left = top t.nil f.sib from h5]
    exact if_neg hne

theorem Here.top_ne_sib (h : Here t (f :: k) s) (hnd : (plug s (f :: k)).toList.Nodup)
    (hs : s ≠ leaf) : top t.nil s ≠ top t.nil f.sib := by
  intro he
  have hmem : top t.nil s ∈ s.toList := top_mem hs
  by_cases hl : f.sib = leaf
  · rw [hl] at he
    exact rep_ne_nil h.sub _ hmem he
  · exact (nodup_plug.mp hnd).2.2 _ hmem
      (Ctx.mem_labels_cons.mpr (Or.inr (Or.inl (he ▸ top_mem hl))))

/-- Recolouring the top of the focus. -/
theorem Here.setColor {d : Side} {u : ColorTree Nat} {a : Nat}
    (h : Here t k (join d c s a u)) (hnd : (plug (join d c s a u) k).toList.Nodup) (c' : Color) :
    Here (t.setColor a c') k (join d c' s a u) := by
  obtain ⟨hnds, -, hk⟩ := nodup_plug.mp hnd
  obtain ⟨-, -, hs, hu, -⟩ := nodup_join.mp hnds
  obtain ⟨h1, h2, h3, h4, h5, h6, h7⟩ := rep_join.mp h.sub
  have hag : ∀ i, i ≠ a → Agree t (t.setColor a c') i :=
    fun i hi => ⟨rfl, if_neg hi, fun _ => rfl⟩
  have hnil : (t.setColor a c').nil = t.nil := rfl
  have hroot : (t.setColor a c').root = t.root := rfl
  refine ⟨?_, rep_join.mpr ⟨h1, h2, if_pos rfl, h4, h5, ?_, ?_⟩⟩
  · have hc := h.ctx
    rw [top_join] at hc ⊢
    refine crep_congr hnil hroot (fun i hi => hag i ?_) hc
    rintro rfl
    exact hk i ((mem_join ..).mpr (Or.inr (Or.inl rfl))) hi
  · exact rep_congr hnil (fun i hi => hag i (fun he => hs (he ▸ hi))) h6
  · exact rep_congr hnil (fun i hi => hag i (fun he => hu (he ▸ hi))) h7

end Look

/-! ## Callbacks -/

/-- What the fix-up loops ask of the callbacks: `J` relates their data to the tree. -/
structure EventsOk (ev : Events σ) (t₀ : RbTree) (J : σ → ColorTree Nat → Prop) : Prop where
  recolor : ∀ {m : σ} {s s' : ColorTree Nat}, s.SameShape s' → J m s → J m s'
  rotate : ∀ {t : RbTree} {m : σ} {d : Side} {c e : Color} {a b g : ColorTree Nat} {x y : Nat}
    {k : List (Frame Nat)}, SameRest t₀ t → Here t k (join d e (join d c a x b) y g) →
    (plug (join d e (join d c a x b) y g) k).toList.Nodup →
    J m (plug (join d c a x (join d e b y g)) k) →
    ∃ m', ev.postRotate t x y m = some m' ∧ J m' (plug (join d e (join d c a x b) y g) k)

/-- A state that holds `plug s k`, and otherwise is as `t₀`. -/
structure At (t₀ : RbTree) (J : σ → ColorTree Nat → Prop) (st : State σ) (k : List (Frame Nat))
    (s : ColorTree Nat) : Prop where
  here : Here st.tree k s
  nodup : (plug s k).toList.Nodup
  rest : SameRest t₀ st.tree
  black : st.tree.color st.tree.nil = .black
  aux : J st.data (plug s k)

section Steps

variable {ev : Events σ} {t₀ : RbTree} {J : σ → ColorTree Nat → Prop} {st : State σ}
  {k : List (Frame Nat)} {s u : ColorTree Nat} {d : Side} {c : Color} {a : Nat}

theorem At.cons :
    At t₀ J st (f :: k) s ↔ At t₀ J st k (join f.side f.color s f.label f.sib) :=
  ⟨fun h => ⟨here_cons.mp h.here, h.nodup, h.rest, h.black, h.aux⟩,
    fun h => ⟨here_cons.mpr h.here, h.nodup, h.rest, h.black, h.aux⟩⟩

/-- The focus as the subtree of its parent. -/
theorem At.down (h : At t₀ J st k (join d c s a u)) : At t₀ J st (⟨d, c, a, u⟩ :: k) s :=
  At.cons.mpr h

theorem At.rise (h : At t₀ J st (⟨d, c, a, u⟩ :: k) s) : At t₀ J st k (join d c s a u) :=
  At.cons.mp h

theorem At.setColor (hev : EventsOk ev t₀ J) (h : At t₀ J st k (join d c s a u)) (c' : Color) :
    At t₀ J { st with tree := st.tree.setColor a c' } k (join d c' s a u) := by
  have hsh : (plug (join d c s a u) k).SameShape (plug (join d c' s a u) k) :=
    plug_sameShape (join_sameShape (.refl _) (.refl _)) k
  have hne : st.tree.nil ≠ a := Ne.symm (rep_join.mp h.here.sub).1
  exact ⟨h.here.setColor h.nodup c', by rw [← hsh.toList_eq]; exact h.nodup, h.rest.setColor _ _,
    (if_neg hne).trans h.black, hev.recolor hsh h.aux⟩

theorem toList_rotate (d : Side) (c e : Color) (a b g : ColorTree Nat) (x y : Nat)
    (k : List (Frame Nat)) : (plug (join d c a x (join d e b y g)) k).toList =
      (plug (join d e (join d c a x b) y g) k).toList := by
  rw [toList_plug, toList_plug]
  cases d <;> simp [join, toList]

theorem At.rotate (hev : EventsOk ev t₀ J) {e : Color} {a b g : ColorTree Nat}
    (h : At t₀ J st k (join d c a x (join d e b y g))) : ∃ st',
      rotate ev d st x = some st' ∧ At t₀ J st' k (join d e (join d c a x b) y g) := by
  obtain ⟨hx0, -, -, -, hxf, -, hy⟩ := rep_join.mp h.here.sub
  have hy0 := (rep_join.mp hy).1
  rw [top_join] at hxf
  have hhere := here_rotate h.here h.nodup
  have hrest := h.rest.trans (SameRest.rotateTree d st.tree hx0 hy0)
  have hnd := h.nodup
  rw [toList_rotate] at hnd
  obtain ⟨m', hm, hJ⟩ := hev.rotate hrest hhere hnd h.aux
  refine ⟨⟨rotateTree d st.tree x y, m'⟩, ?_, hhere, hnd, hrest, ?_, hJ⟩
  · unfold Rb.rotate
    rw [hxf]
    dsimp only
    rw [hm]
    rfl
  · rw [rotateTree_color, (SameRest.rotateTree d st.tree hx0 hy0).nil]
    exact h.black

/-- The other child of the focus. -/
theorem At.other (h : At t₀ J st k (join d c s a u)) : At t₀ J st (⟨d.flip, c, a, s⟩ :: k) u := by
  rw [← join_flip] at h
  exact h.down

theorem At.back (h : At t₀ J st (⟨d.flip, c, a, s⟩ :: k) u) : At t₀ J st k (join d c s a u) := by
  rw [← join_flip]
  exact h.rise

theorem At.root (h : At t₀ J st k s) : At t₀ J st [] (plug s k) :=
  ⟨here_plug.mp h.here, h.nodup, h.rest, h.black, h.aux⟩

section

variable (h : At t₀ J st k (join d c s a u))

include h

theorem At.parent : st.tree.parent a = up st.tree.nil k :=
  (rep_join.mp h.here.sub).2.1

theorem At.color : st.tree.color a = c :=
  (rep_join.mp h.here.sub).2.2.1

theorem At.child : st.tree.child a d = top st.tree.nil s :=
  (rep_join.mp h.here.sub).2.2.2.1

theorem At.child_flip :
    st.tree.child a d.flip = top st.tree.nil u :=
  (rep_join.mp h.here.sub).2.2.2.2.1

end

theorem At.top_color (h : At t₀ J st k s) : st.tree.color (top st.tree.nil s) = s.color :=
  Rb.color_top h.black h.here.sub

end Steps

/-! ## `insert_fixup` -/

section Insert

variable {ev : Events σ} {t₀ : RbTree} {J : σ → ColorTree Nat → Prop} {st : State σ}
  {k : List (Frame Nat)} {d fs : Side} {p gl z : Nat} {l r sib U : ColorTree Nat}

section

variable (hev : EventsOk ev t₀ J)

include hev

/-- A red uncle: recolour, and the grandparent is the new focus. -/
theorem insertFixupSide_red {ul ur : ColorTree Nat} {u : Nat}
    (h : At t₀ J st (⟨fs, .red, p, sib⟩ :: ⟨d, .black, gl, node .red ul u ur⟩ :: k)
      (node .red l z r)) :
    ∃ st', insertFixupSide ev d st z = some (st', gl) ∧
      At t₀ J st' k (join d .red (join fs .black (node .red l z r) p sib) gl
        (node .black ul u ur)) := by
  have hz : st.tree.parent z = p := h.here.sub.2.1
  have hp : st.tree.parent p = gl := h.rise.parent
  have hy : st.tree.child gl d.flip = u := h.rise.rise.child_flip
  have hu : st.tree.color u = .red := (At.color (d := .left) h.rise.rise.other)
  have h1 := (h.rise.setColor hev .black).rise.other
  have h2 := (At.setColor (d := .left) hev h1 .black).back.setColor hev .red
  refine ⟨_, ?_, h2⟩
  unfold insertFixupSide
  simp only [hz, hp, hy, hu, if_true, RbTree.setColor]

/-- The last rotation, when the focus is on the same side as its parent. -/
theorem insertFixup_outer
    (h : At t₀ J st (⟨d, .red, p, sib⟩ :: ⟨d, .black, gl, U⟩ :: k) s) :
    ∃ st', rotate ev d.flip ⟨(st.tree.setColor p .black).setColor gl .red, st.data⟩ gl = some st' ∧
      At t₀ J st' k (join d .black s p (join d .red sib gl U)) := by
  have h1 := (h.rise.setColor hev .black).rise.setColor hev .red
  rw [← join_flip d .red, ← join_flip d .black] at h1
  obtain ⟨st', hr, h2⟩ := At.rotate hev h1
  refine ⟨st', hr, ?_⟩
  rwa [join_flip, join_flip] at h2

/-- A black uncle: one or two rotations, after which the parent of the focus is black. -/
theorem insertFixupSide_black (hU : U.color = .black)
    (h : At t₀ J st (⟨fs, .red, p, sib⟩ :: ⟨d, .black, gl, U⟩ :: k) (node .red l z r))
    (hb : (node .red l z r).Balanced n) (hc : (node .red l z r).NoRedRed)
    (hsb : sib.Balanced n) (hsc : sib.NoRedRed) (hs : sib.color = .black) :
    ∃ st' z' l' r' p' sib', insertFixupSide ev d st z = some (st', z') ∧
      At t₀ J st' (⟨d, .black, p', join d .red sib' gl U⟩ :: k) (node .red l' z' r') ∧
      (node .red l' z' r').Balanced n ∧ (node .red l' z' r').NoRedRed ∧
      sib'.Balanced n ∧ sib'.NoRedRed ∧ sib'.color = .black ∧
      (plug (node .red l' z' r') (⟨d, .black, p', join d .red sib' gl U⟩ :: k)).toList =
        (plug (node .red l z r) (⟨fs, .red, p, sib⟩ :: ⟨d, .black, gl, U⟩ :: k)).toList := by
  have hz : st.tree.parent z = p := h.here.sub.2.1
  have hp : st.tree.parent p = gl := h.rise.parent
  have hy : st.tree.color (st.tree.child gl d.flip) = .black := by
    rw [h.rise.rise.child_flip, h.rise.rise.other.top_color, hU]
  rcases Side.eq_or_flip d fs with rfl | rfl
  · have hne : z ≠ st.tree.child p fs.flip := by
      rw [h.rise.child_flip]
      exact h.here.top_ne_sib h.nodup (by simp)
    obtain ⟨st', hr, h'⟩ := insertFixup_outer hev h
    refine ⟨st', z, l, r, p, sib, ?_, h'.down, hb, hc, hsb, hsc, hs, ?_⟩
    · unfold insertFixupSide
      simp only [hz, hp, hy, hne, if_false, reduceCtorEq, Option.bind_eq_bind, Option.bind_some,
        RbTree.setColor]
      simp only [RbTree.setColor] at hr
      rw [hr]
      rfl
    · rw [toList_plug, toList_plug]
      cases fs <;> simp [Ctx.before, Ctx.after, join, toList]
  · obtain ⟨b, g, hbg⟩ := exists_join d
    have h1 := h.rise
    rw [join_flip, hbg] at h1
    obtain ⟨st1, hr1, h1⟩ := At.rotate hev h1
    have hz1 : st1.tree.parent p = z := h1.down.parent
    have hp1 : st1.tree.parent z = gl := h1.parent
    obtain ⟨st', hr, h'⟩ := insertFixup_outer hev h1.down
    rw [hbg] at hb hc ⊢
    obtain ⟨hbb, hgb⟩ := (join_red_balanced ..).mp hb
    obtain ⟨hbc, hgc, hbl⟩ := (join_noRedRed ..).mp hc
    have he : z = st.tree.child p d.flip := h.rise.child.symm
    obtain ⟨l', r', hlr⟩ := exists_node d .red sib p b
    refine ⟨st', p, l', r', z, g, ?_, ?_, ?_, ?_, hgb, hgc, (hbl rfl).2, ?_⟩
    · unfold insertFixupSide
      simp only [hz, hp, hy, ← he, if_true, if_false, reduceCtorEq, Option.bind_eq_bind, hr1,
        Option.map_eq_map, Option.map_some, Option.bind_some, RbTree.setColor, hz1, hp1]
      simp only [RbTree.setColor] at hr
      rw [hr]
      rfl
    · rw [← hlr]
      exact h'.down
    · rw [← hlr]
      exact (join_red_balanced ..).mpr ⟨hsb, hbb⟩
    · rw [← hlr]
      exact (join_noRedRed ..).mpr ⟨hsc, hbc, fun _ => ⟨hs, (hbl rfl).1⟩⟩
    · rw [← hlr, toList_plug, toList_plug]
      cases d <;> simp [Ctx.before, Ctx.after, join, toList, Side.flip]

/-- A whole tree with the nodes `ids` in order, that a fix-up may leave. -/
structure Fixed (t₀ : RbTree) (J : σ → ColorTree Nat → Prop) (st : State σ) (ids : List Nat)
    (s : ColorTree Nat) : Prop where
  at_root : At t₀ J st [] s
  toList : s.toList = ids
  noRedRed : s.NoRedRed
  balanced : ∃ n, s.Balanced n

/-- **The loop of `insert_fixup`.** The only flaw is a red focus below a red parent. -/
theorem insertFixupLoop_spec
    (h : At t₀ J st k (node .red l z r)) (hb : (node .red l z r).Balanced n)
    (hc : (node .red l z r).NoRedRed) (hkb : Ctx.Balanced k n) (hkc : Ctx.NoRedRed k)
    (hf : k.length < fuel) : ∃ st' s', insertFixupLoop ev fuel st z = some st' ∧
      Fixed t₀ J st' (plug (node .red l z r) k).toList s' := by
  induction fuel generalizing st k l z r n with
  | zero => omega
  | succ fuel ih =>
    have hz : st.tree.parent z = up st.tree.nil k := h.here.sub.2.1
    have hstop : st.tree.color (st.tree.parent z) ≠ .red →
        insertFixupLoop ev (fuel + 1) st z = some st := fun hne => by
      exact if_neg hne
    match k, h, hkb, hkc, hf, hz with
    | [], h, _, _, _, hz =>
      refine ⟨st, _, hstop ?_, h, rfl, hc, n, hb⟩
      rw [hz]
      show st.tree.color st.tree.nil ≠ _
      rw [h.black]
      decide
    | ⟨fs, .black, p, sib⟩ :: k, h, hkb, hkc, _, hz =>
      have hcol := (wellColored_plug).mpr ⟨hc, hkc, fun _ => rfl⟩
      refine ⟨st, _, hstop ?_, h.root, rfl, hcol.noRedRed, balanced_plug hb hkb⟩
      rw [hz]
      show st.tree.color p ≠ _
      rw [h.rise.color]
      decide
    | ⟨fs, .red, p, sib⟩ :: k, h, hkb, hkc, hf, hz =>
      obtain ⟨⟨d, c, gl, U⟩, k, rfl, rfl⟩ := hkc.red_cons rfl
      have hz' : st.tree.parent z = p := hz
      have hp : st.tree.parent p = gl := h.rise.parent
      have hpc : st.tree.color p = .red := h.rise.color
      have hd := h.rise.here.side_eq (h.rise.here.top_ne_sib h.nodup (by cases fs <;> simp [join]))
      rw [top_join] at hd
      simp only [List.length_cons] at hf
      obtain ⟨hsb, hUb, hkb⟩ := hkb
      obtain ⟨hsc, hsk, hUc, -, hkc⟩ := hkc
      have hround : insertFixupLoop ev (fuel + 1) st z =
          (insertFixupSide ev d st z).bind fun sz => insertFixupLoop ev fuel sz.1 sz.2 := by
        conv_lhs => unfold insertFixupLoop
        simp only [hz', hp, hpc, if_true, hd]
        rfl
      rw [hround]
      cases hU : U.color with
      | red =>
        obtain ⟨ul, u, ur, rfl⟩ := exists_join_of_red .left hU
        obtain ⟨st', hr, h'⟩ := insertFixupSide_red hev h
        have hbf : (join fs .black (node .red l z r) p sib).Balanced (n + 1) :=
          (join_black_balanced ..).mpr ⟨hb, hsb⟩
        obtain ⟨l', r', hlr⟩ := exists_node d .red (join fs .black (node .red l z r) p sib) gl
          (node .black ul u ur)
        have hUb' : (node .black ul u ur).Balanced (n + 1) := ⟨hUb.1, hUb.2⟩
        have hb' := (join_red_balanced d _ gl _).mpr ⟨hbf, hUb'⟩
        have hc' := (join_noRedRed d .red (join fs .black (node .red l z r) p sib) gl
          (node .black ul u ur)).mpr ⟨(join_noRedRed ..).mpr ⟨hc, hsc, (by simp)⟩,
            ⟨hUc.1, hUc.2.1, (by simp)⟩, fun _ => ⟨join_color .., rfl⟩⟩
        rw [hlr] at h' hb' hc'
        obtain ⟨st'', s', hr', hfix⟩ := ih h' hb' hc' hkb hkc (by omega)
        refine ⟨st'', s', by rwa [hr], ?_⟩
        rw [← hlr, toList_plug] at hfix
        rw [toList_plug]
        cases d <;> cases fs <;> simpa [Ctx.before, Ctx.after, join, toList] using hfix
      | black =>
        obtain ⟨st', z', l', r', p', sib', hr, h', hb', hc', hsb', hsc', hs', hl⟩ :=
          insertFixupSide_black hev hU h hb hc hsb hsc (hsk rfl).1
        have hkb' : Ctx.Balanced (⟨d, .black, p', join d .red sib' gl U⟩ :: k) n :=
          ⟨(join_red_balanced ..).mpr ⟨hsb', hUb⟩, hkb⟩
        have hkc' : Ctx.NoRedRed (⟨d, .black, p', join d .red sib' gl U⟩ :: k) :=
          ⟨(join_noRedRed ..).mpr ⟨hsc', hUc, fun _ => ⟨hs', hU⟩⟩, (by simp), hkc⟩
        obtain ⟨st'', s', hr', hfix⟩ :=
          ih h' hb' hc' hkb' hkc' (by simp only [List.length_cons]; omega)
        refine ⟨st'', s', by rwa [hr], ?_⟩
        rwa [← hl]

/-- Making the root black. -/
theorem Fixed.blacken
    (h : Fixed t₀ J st ids s) (hs : s ≠ leaf) :
    Fixed t₀ J { st with tree := st.tree.setColor st.tree.root .black } ids s.blacken ∧
      s.blacken.WellColored := by
  have hroot : st.tree.root = top st.tree.nil s := h.at_root.here.ctx
  obtain ⟨n, hn⟩ := h.balanced
  cases s with
  | leaf => exact absurd rfl hs
  | node c l a r =>
    have hcol := blacken_wellColored h.noRedRed
    rw [hroot]
    exact ⟨⟨At.setColor (d := .left) hev h.at_root .black, h.toList, hcol.noRedRed,
      blacken_balanced hn⟩, hcol⟩

/-- **`insert_fixup` restores the rules.** -/
theorem insertFixup_spec (h : At t₀ J st k (node .red l z r))
    (hb : (node .red l z r).Balanced n) (hc : (node .red l z r).NoRedRed) (hkb : Ctx.Balanced k n)
    (hkc : Ctx.NoRedRed k) (hf : k.length < fuel) : ∃ st' s', insertFixup ev fuel st z = some st' ∧
      Fixed t₀ J st' (plug (node .red l z r) k).toList s' ∧ s'.WellColored := by
  obtain ⟨st', s', hr, hfix⟩ := insertFixupLoop_spec hev h hb hc hkb hkc hf
  have hs' : s' ≠ leaf := by
    rintro rfl
    have hl := hfix.toList
    rw [toList_plug] at hl
    simp [toList] at hl
  obtain ⟨hfix', hcol⟩ := hfix.blacken hev hs'
  refine ⟨_, s'.blacken, ?_, hfix', hcol⟩
  rw [insertFixup, hr]
  rfl

end

end Insert

/-! ## `delete_fixup` -/

section Delete

variable {ev : Events σ} {t₀ : RbTree} {J : σ → ColorTree Nat → Prop} {st : State σ}
  {k : List (Frame Nat)} {s sib b g : ColorTree Nat} {d : Side} {c : Color} {n p w : Nat}

/--
The focus has one black node too few on every path, and its top may be red below a red parent, or
above red children: it will be made black.
-/
structure Short (t₀ : RbTree) (J : σ → ColorTree Nat → Prop) (st : State σ) (n : Nat)
    (k : List (Frame Nat)) (s : ColorTree Nat) : Prop where
  at_focus : At t₀ J st k s
  /-- the sentinel as the focus knows its parent -/
  leaf_parent : s = leaf → t₀.parent t₀.nil = up t₀.nil k
  balanced : s.Balanced n
  ctx_balanced : Ctx.Balanced k (n + 1)
  noRedRed : s.blacken.NoRedRed
  ctx_noRedRed : Ctx.NoRedRed k

theorem Short.parent (h : Short t₀ J st n (⟨d, c, p, sib⟩ :: k) s) :
    st.tree.parent (top st.tree.nil s) = p := by
  refine h.at_focus.here.parent_top fun hl => ?_
  have := h.leaf_parent hl
  have hr := h.at_focus.rest
  rwa [hr.nil, hr.nilParent]

theorem blacken_eq_self (h : s.color = .black) : s.blacken = s := by
  cases s with
  | leaf => rfl
  | node c l a r => rw [blacken, show c = .black from h]

/-- A red sibling is rotated above the parent; the new sibling is black. -/
theorem liftRedSibling_spec (hev : EventsOk ev t₀ J)
    (h : Short t₀ J st n (⟨d, c, p, sib⟩ :: k) s) :
    ∃ st' c' sib' k', liftRedSibling ev d st (top st.tree.nil s) = some st' ∧
      Short t₀ J st' n (⟨d, c', p, sib'⟩ :: k') s ∧ sib'.color = .black ∧
      (plug s (⟨d, c', p, sib'⟩ :: k')).toList = (plug s (⟨d, c, p, sib⟩ :: k)).toList ∧
      (k' = k ∨ c' = .red) := by
  have hp := h.parent
  have hw := h.at_focus.rise.child_flip
  have hwc := h.at_focus.rise.other.top_color
  cases hs : sib.color with
  | black =>
    refine ⟨st, c, sib, k, ?_, h, hs, rfl, Or.inl rfl⟩
    unfold liftRedSibling
    dsimp only
    rw [hp, hw, hwc, hs, if_neg (by decide)]
  | red =>
    obtain ⟨hsb, hkb⟩ := h.ctx_balanced
    obtain ⟨hsc, hck, hkc⟩ := h.ctx_noRedRed
    obtain rfl : c = .black := by
      cases c with
      | black => rfl
      | red => exact absurd ((hck rfl).1.symm.trans hs) (by decide)
    obtain ⟨b, w, g, rfl⟩ := exists_join_of_red d hs
    obtain ⟨hbb, hgb⟩ := (join_red_balanced ..).mp hsb
    obtain ⟨hbc, hgc, hbg⟩ := (join_noRedRed ..).mp hsc
    have h1 := (h.at_focus.rise.other.setColor hev .black).back.setColor hev .red
    obtain ⟨st', hr, h2⟩ := At.rotate hev h1
    refine ⟨st', .red, b, ⟨d, .black, w, g⟩ :: k, ?_, ⟨h2.down.down, fun hl => ?_, h.balanced,
      ⟨hbb, hgb, hkb⟩, h.noRedRed, hbc, fun _ => ⟨(hbg rfl).1, rfl⟩, hgc,
        (by simp), hkc⟩,
      (hbg rfl).1, ?_, Or.inr rfl⟩
    · unfold liftRedSibling
      dsimp only
      rw [top_join] at hw hwc
      rw [hp, hw, hwc, hs]
      show rotate ev d ⟨(st.tree.setColor w .black).setColor (st.tree.parent _) .red, st.data⟩
        (st.tree.parent (top st.tree.nil s)) = _
      rwa [hp]
    · exact h.leaf_parent hl
    · rw [toList_plug, toList_plug]
      cases d <;> simp [Ctx.before, Ctx.after, join, toList]

section

variable (hev : EventsOk ev t₀ J) (h : Short t₀ J st n (⟨d, c, p, join d .black b w g⟩ :: k) s)

include hev h

/-- A red nephew on the near side is rotated to the place of the sibling. -/
theorem liftNearNephew_spec
    (hbg : ¬ (b.color = .black ∧ g.color = .black)) :
    ∃ st' b' w' g', liftNearNephew ev d st w = some st' ∧
      Short t₀ J st' n (⟨d, c, p, join d .black b' w' g'⟩ :: k) s ∧ g'.color = .red ∧
      (plug s (⟨d, c, p, join d .black b' w' g'⟩ :: k)).toList =
        (plug s (⟨d, c, p, join d .black b w g⟩ :: k)).toList := by
  have hg := h.at_focus.rise.other.other.top_color
  have hw := h.at_focus.rise.other.child_flip
  cases hgc : g.color with
  | red =>
    refine ⟨st, b, w, g, ?_, h, hgc, rfl⟩
    unfold liftNearNephew
    dsimp only
    rw [hw, hg, hgc, if_neg (by decide)]
  | black =>
    have hbr : b.color = .red := by
      cases hb : b.color with
      | red => rfl
      | black => exact absurd ⟨hb, hgc⟩ hbg
    obtain ⟨b1, v, b2, rfl⟩ := exists_join_of_red d hbr
    obtain ⟨hsb, hkb⟩ := h.ctx_balanced
    obtain ⟨hsc, hck, hkc⟩ := h.ctx_noRedRed
    obtain ⟨hbb, hgb⟩ := (join_black_balanced ..).mp hsb
    obtain ⟨hb1, hb2⟩ := (join_red_balanced ..).mp hbb
    obtain ⟨hbc, hgn, -⟩ := (join_noRedRed ..).mp hsc
    obtain ⟨hb1c, hb2c, hb12⟩ := (join_noRedRed ..).mp hbc
    have hv : st.tree.child w d = v := by
      rw [h.at_focus.rise.other.child, top_join]
    have h1 := (h.at_focus.rise.other.down.setColor hev .black).rise.setColor hev .red
    rw [← join_flip d .red, ← join_flip d .black] at h1
    obtain ⟨st', hr, h2⟩ := At.rotate hev h1
    rw [join_flip, join_flip] at h2
    refine ⟨st', b1, v, join d .red b2 w g, ?_, ⟨h2.back.down, h.leaf_parent, h.balanced,
      ⟨(join_black_balanced ..).mpr ⟨hb1, (join_red_balanced ..).mpr ⟨hb2, hgb⟩⟩, hkb⟩,
      h.noRedRed, (join_noRedRed ..).mpr ⟨hb1c, (join_noRedRed ..).mpr ⟨hb2c, hgn, fun _ =>
        ⟨(hb12 rfl).2, hgc⟩⟩, (by simp)⟩, fun hc => ⟨join_color .., (hck hc).2⟩, hkc⟩,
      join_color .., ?_⟩
    · unfold liftNearNephew
      dsimp only
      rwa [hw, hg, hgc, if_pos rfl, hv]
    · rw [toList_plug, toList_plug]
      cases d <;> simp [Ctx.before, Ctx.after, join, toList]

/-- With a red nephew on the far side, one rotation ends the repair. -/
theorem liftSibling_spec (hs : s.color = .black)
    (hg : g.color = .red) :
    ∃ st' s', liftSibling ev d st (top st.tree.nil s) = some st' ∧
      Fixed t₀ J st' (plug s (⟨d, c, p, join d .black b w g⟩ :: k)).toList s' ∧
      s'.WellColored := by
  obtain ⟨gl, v, gr, rfl⟩ := exists_join_of_red .left hg
  obtain ⟨hsb, hkb⟩ := h.ctx_balanced
  obtain ⟨hsc, hck, hkc⟩ := h.ctx_noRedRed
  obtain ⟨hbb, hgb⟩ := (join_black_balanced ..).mp hsb
  obtain ⟨hbc, hgn, -⟩ := (join_noRedRed ..).mp hsc
  have hsn := h.noRedRed
  rw [blacken_eq_self hs] at hsn
  have h1 := (h.at_focus.rise.other.setColor hev c).back.setColor hev .black
  have h2 := (At.setColor hev h1.other.other .black).back.back
  obtain ⟨st', hr, h3⟩ := At.rotate hev h2
  have hgb' : (node .black gl v gr).Balanced (n + 1) := ⟨hgb.1, hgb.2⟩
  have hb' : (join d c (join d .black s p b) w (node .black gl v gr)).Balanced _ :=
    join_balanced ((join_black_balanced ..).mpr ⟨h.balanced, hbb⟩) hgb'
  have hc' := (wellColored_plug (s := join d c (join d .black s p b) w (node .black gl v gr))
   ).mpr
      ⟨(join_noRedRed ..).mpr ⟨(join_noRedRed ..).mpr ⟨hsn, hbc, (by simp)⟩,
      ⟨hgn.1, hgn.2.1, (by simp)⟩, fun _ => ⟨join_color .., rfl⟩⟩, hkc, fun hc => by
        rw [join_color] at hc
        exact (hck hc).2⟩
  refine ⟨st', _, ?_, ⟨h3.root, ?_, hc'.noRedRed, balanced_plug hb' hkb⟩, hc'⟩
  · have hp := h.parent
    have hpc := h.at_focus.rise.color
    have hw := h.at_focus.rise.child_flip
    rw [top_join] at hw
    have hv : st.tree.child w d.flip = v := h.at_focus.rise.other.child_flip
    unfold liftSibling
    simp only [hp, hw, hpc, RbTree.setColor, hv]
    exact hr
  · rw [toList_plug, toList_plug]
    cases d <;> simp [Ctx.before, Ctx.after, join, toList]

end

/-- Where the loop may stop: making the focus black repairs the tree. -/
structure Stopped (t₀ : RbTree) (J : σ → ColorTree Nat → Prop) (st : State σ) (x : Nat)
    (ids : List Nat) (k : List (Frame Nat)) (s : ColorTree Nat) : Prop where
  at_focus : At t₀ J st k s
  top_eq : x = top st.tree.nil s
  toList : (plug s k).toList = ids
  balanced : ∃ m, s.blacken.Balanced m ∧ Ctx.Balanced k m
  noRedRed : s.blacken.NoRedRed
  ctx_noRedRed : Ctx.NoRedRed k

theorem Stopped.ofFixed (h : Fixed t₀ J st ids s) :
    Stopped t₀ J st st.tree.root ids [] s := by
  obtain ⟨m, hm⟩ := h.balanced
  obtain ⟨m', hm'⟩ := blacken_balanced hm
  exact ⟨h.at_root, h.at_root.here.ctx, h.toList, ⟨m', hm', trivial⟩,
    (blacken_wellColored h.noRedRed).noRedRed, trivial⟩

/-- A red focus, or the whole tree as the focus, stops the loop. -/
theorem Short.stopped (h : Short t₀ J st n k s) (hs : s.color = .red ∨ k = []) :
    Stopped t₀ J st (top st.tree.nil s) (plug s k).toList k s := by
  refine ⟨h.at_focus, rfl, rfl, ?_, h.noRedRed, h.ctx_noRedRed⟩
  rcases hs with hs | rfl
  · refine ⟨n + 1, ?_, h.ctx_balanced⟩
    have hb := h.balanced
    cases s with
    | leaf => cases hs
    | node c l a r =>
      have hc : c = .red := hs
      subst hc
      exact ⟨hb.1, hb.2⟩
  · obtain ⟨m, hm⟩ := blacken_balanced h.balanced
    exact ⟨m, hm, trivial⟩

theorem deleteFixupLoop_stop (h : ¬ (x ≠ st.tree.root ∧ st.tree.color x = .black)) :
    deleteFixupLoop ev (fuel + 1) st x = some (st, x) := by
  exact if_neg h

/-- The top of the focus is the root only if there is no context. -/
theorem At.top_ne_root (h : At t₀ J st (f :: k) s) :
    top st.tree.nil s ≠ st.tree.root := by
  have hroot : st.tree.root = top st.tree.nil (plug s (f :: k)) := h.root.here.ctx
  -- the root is one of the labels of the context
  have hmem : ∀ (f : Frame Nat) (k : List (Frame Nat)) (s : ColorTree Nat),
      top st.tree.nil (plug s (f :: k)) ∈ Ctx.labels (f :: k) := by
    intro f k
    induction k generalizing f with
    | nil =>
      intro s
      rw [plug, plug, top_join]
      exact Ctx.mem_labels_cons.mpr (Or.inl rfl)
    | cons g k ih =>
      intro s
      exact Ctx.mem_labels_cons.mpr (Or.inr (Or.inr (ih g _)))
  intro he
  rw [hroot] at he
  have hm := hmem f k s
  rw [← he] at hm
  by_cases hl : s = leaf
  · rw [hl] at hm
    exact crep_ne_nil h.here.ctx _ hm rfl
  · exact (nodup_plug.mp h.nodup).2.2 _ (top_mem hl) hm

/-- The sibling of the focus is a real node, so the loop finds its side. -/
theorem Short.top_ne_sib (h : Short t₀ J st n (⟨d, c, p, sib⟩ :: k) s) :
    top st.tree.nil s ≠ top st.tree.nil sib := by
  have hsib : sib ≠ leaf := by
    rintro rfl
    exact absurd h.ctx_balanced.1 (Nat.succ_ne_zero n)
  by_cases hl : s = leaf
  · rw [hl]
    obtain ⟨-, -, -, -, -, h6, -⟩ := h.at_focus.here.ctx
    exact Ne.symm (rep_ne_nil h6 _ (top_mem hsib))
  · exact h.at_focus.here.top_ne_sib h.at_focus.nodup hl

/-- A black sibling with two black children turns red, and the parent is the new focus. -/
theorem Short.recolor_sibling (hev : EventsOk ev t₀ J)
    (h : Short t₀ J st n (⟨d, c, p, join d .black b w g⟩ :: k) s) (hs : s.color = .black)
    (hb : b.color = .black) (hg : g.color = .black) :
    Short t₀ J { st with tree := st.tree.setColor w .red }
      (n + if c = .black then 1 else 0) k (join d c s p (join d .red b w g)) := by
  obtain ⟨hsb, hkb⟩ := h.ctx_balanced
  obtain ⟨hsc, hck, hkc⟩ := h.ctx_noRedRed
  obtain ⟨hbb, hgb⟩ := (join_black_balanced ..).mp hsb
  obtain ⟨hbc, hgc, -⟩ := (join_noRedRed ..).mp hsc
  have hsn := h.noRedRed
  rw [blacken_eq_self hs] at hsn
  have hred : (join d .red b w g).NoRedRed := (join_noRedRed ..).mpr ⟨hbc, hgc, fun _ => ⟨hb, hg⟩⟩
  refine ⟨(h.at_focus.rise.other.setColor hev .red).back, ?_, ?_, ?_, ?_, hkc⟩
  · intro hl
    cases d <;> exact absurd hl (by simp [join])
  · exact join_balanced h.balanced ((join_red_balanced ..).mpr ⟨hbb, hgb⟩)
  · rwa [Nat.add_right_comm]
  · have hbl : (join d c s p (join d .red b w g)).blacken =
        join d .black s p (join d .red b w g) := by
      cases d <;> rfl
    rw [hbl]
    exact (join_noRedRed ..).mpr ⟨hsn, hred, (by simp)⟩

/-- **The loop of `delete_fixup`.** -/
theorem deleteFixupLoop_spec (hev : EventsOk ev t₀ J) (h : Short t₀ J st n k s)
    (hf : k.length < fuel) :
    ∃ st' x k' s', deleteFixupLoop ev fuel st (top st.tree.nil s) = some (st', x) ∧
      Stopped t₀ J st' x (plug s k).toList k' s' := by
  induction fuel generalizing st n k s with
  | zero => omega
  | succ fuel ih =>
    cases hs : s.color with
    | red =>
      refine ⟨st, _, k, s, deleteFixupLoop_stop ?_, h.stopped (Or.inl hs)⟩
      rw [h.at_focus.top_color, hs]
      exact fun hx => absurd hx.2 (by decide)
    | black =>
    match k, h, hf with
    | [], h, _ =>
      refine ⟨st, _, [], s, deleteFixupLoop_stop ?_, h.stopped (Or.inr rfl)⟩
      exact fun hx => hx.1 h.at_focus.here.ctx.symm
    | ⟨d, c, p, sib⟩ :: k, h, hf =>
      simp only [List.length_cons] at hf
      have hd := h.at_focus.here.side_eq h.top_ne_sib
      have hx : top st.tree.nil s ≠ st.tree.root ∧ st.tree.color (top st.tree.nil s) = .black :=
        ⟨h.at_focus.top_ne_root, h.at_focus.top_color.trans hs⟩
      have hround : deleteFixupLoop ev (fuel + 1) st (top st.tree.nil s) =
          (deleteFixupSide ev d st (top st.tree.nil s)).bind
            fun sx => deleteFixupLoop ev fuel sx.1 sx.2 := by
        conv_lhs => unfold deleteFixupLoop
        rw [if_pos hx, h.parent, hd]
        rfl
      rw [hround]
      obtain ⟨st1, c', sib', k', hr1, h1, hsib', hids, hk'⟩ := liftRedSibling_spec hev h
      have hnil : st1.tree.nil = st.tree.nil :=
        h1.at_focus.rest.nil.trans h.at_focus.rest.nil.symm
      obtain ⟨bl, w, br, hsibw, -, -⟩ := h1.ctx_balanced.1.exists_black hsib'
      obtain ⟨b, g, hbg⟩ := exists_join d
      rw [hbg] at hsibw
      have hsw : sib' = join d .black b w g := hsibw
      subst hsw
      have hp := h1.parent
      rw [hnil] at hp
      have hw := h1.at_focus.rise.child_flip
      rw [top_join] at hw
      have hwb := h1.at_focus.rise.other.down.top_color
      have hwg := h1.at_focus.rise.other.other.top_color
      rw [← h1.at_focus.rise.other.child] at hwb
      rw [← h1.at_focus.rise.other.child_flip] at hwg
      obtain _ | fuel := fuel
      · omega
      by_cases hbgc : b.color = .black ∧ g.color = .black
      · have hside : deleteFixupSide ev d st (top st.tree.nil s) =
            some ({ st1 with tree := st1.tree.setColor w .red }, p) := by
          rw [deleteFixupSide, hr1]
          simp only [Option.bind_eq_bind, Option.bind_some, hp, hw, hwb, hwg, hbgc, and_self,
            if_true]
        have h2 := h1.recolor_sibling hev hs hbgc.1 hbgc.2
        rw [hside, ← hids]
        have hids' : (plug (join d c' s p (join d .red b w g)) k').toList =
            (plug s (⟨d, c', p, join d .black b w g⟩ :: k')).toList := by
          rw [toList_plug, toList_plug]
          cases d <;> simp [Ctx.before, Ctx.after, join, toList]
        rw [← hids']
        rcases hk' with rfl | rfl
        · have h3 := ih h2 (by omega)
          rwa [top_join] at h3
        · have h3 := h2.stopped (Or.inl (join_color ..))
          rw [top_join] at h3
          refine ⟨_, p, k', _, deleteFixupLoop_stop ?_, h3⟩
          have hpc := h2.at_focus.color
          rw [hpc]
          exact fun hx => absurd hx.2 (by decide)
      · obtain ⟨st2, b', w', g', hr2, h2, hg', hids2⟩ := liftNearNephew_spec hev h1 hbgc
        obtain ⟨st3, s', hr3, hfix, hcol⟩ := liftSibling_spec hev h2 hs hg'
        have hnil2 : st2.tree.nil = st.tree.nil :=
          h2.at_focus.rest.nil.trans h.at_focus.rest.nil.symm
        rw [hnil2] at hr3
        have hside : deleteFixupSide ev d st (top st.tree.nil s) = some (st3, st3.tree.root) := by
          rw [deleteFixupSide, hr1]
          simp only [Option.bind_eq_bind, Option.bind_some, hp, hw, hwb, hwg, hbgc, if_false, hr2,
            hr3]
        rw [hside]
        refine ⟨st3, st3.tree.root, [], s', deleteFixupLoop_stop (fun hx => hx.1 rfl), ?_⟩
        rw [← hids, ← hids2]
        exact Stopped.ofFixed hfix

theorem setColor_self (t : RbTree) (h : t.color i = c) :
    t.setColor i c = t := by
  have hc : (fun j => if j = i then c else t.color j) = t.color := by
    funext j
    split
    · next hj => rw [hj, h]
    · rfl
  rw [RbTree.setColor, hc]

/-- **`delete_fixup` restores the rules.** -/
theorem deleteFixup_spec (hev : EventsOk ev t₀ J) (h : Short t₀ J st n k s) (hf : k.length < fuel) :
    ∃ st' s', deleteFixup ev fuel st (top st.tree.nil s) = some st' ∧
      Fixed t₀ J st' (plug s k).toList s' ∧ s'.WellColored := by
  obtain ⟨st', x, k', s', hr, hstop⟩ := deleteFixupLoop_spec hev h hf
  obtain ⟨m, hm, hkm⟩ := hstop.balanced
  have hat : At t₀ J { st' with tree := st'.tree.setColor x .black } k' s'.blacken := by
    have hat := hstop.at_focus
    rw [hstop.top_eq]
    cases s' with
    | leaf =>
      show At t₀ J { st' with tree := st'.tree.setColor st'.tree.nil .black } k' leaf
      rwa [setColor_self _ hat.black]
    | node c l a r => exact At.setColor (d := .left) hev hat .black
  have hcol : (plug s'.blacken k').WellColored := by
    refine wellColored_plug.mpr ⟨hstop.noRedRed, hstop.ctx_noRedRed, fun hc => ?_⟩
    cases s' with
    | leaf => cases hc
    | node c l a r => exact absurd (show Color.black = .red from hc) (by decide)
  refine ⟨_, plug s'.blacken k', ?_, ⟨hat.root, ?_, hcol.noRedRed, balanced_plug hm hkm⟩, hcol⟩
  · rw [deleteFixup, hr]
    rfl
  · rw [← (plug_sameShape (blacken_sameShape s') k').toList_eq]
    exact hstop.toList

end Delete

end Osdev.Rb
