import Osdev.IntervalTree.Model
import Osdev.Lib.IntervalTree
import Osdev.RbTree.Delete

/-!
# What the callbacks keep

`Ok D m₀ z m s` relates the records to a tree: the intervals are apart, and the maxima fit, except
where the subtree holds `z`. The exempt label is the node under insertion; address `0` stands for
none, since no node is there. Rotation recomputes the maxima from the lower node upwards, and
replacement copies the maximum of the place.
-/

namespace Osdev.Intvl

open Osdev.Lib Osdev.Lib.ColorTree Osdev.Rb

/-- The records of the nodes in `s`; `D` gives the record of a node, `m₀` the intervals. -/
structure Ok (D : Nat → Nat) (N : Nat) (m₀ : Intervals) (z : Nat) (m : Intervals)
    (s : ColorTree Nat) : Prop where
  start : m.start = m₀.start
  stop : m.stop = m₀.stop
  data : m.data = m₀.data
  nodePtr : m.node = m₀.node
  apart : Apart (fun i => m₀.start (D i)) (fun i => m₀.stop (D i)) s.toList
  inj : ∀ i ∈ s.toList, ∀ j ∈ s.toList, D i = D j → i = j
  ne_zero : ∀ i ∈ s.toList, i ≠ 0 ∧ D i ≠ 0
  fits : Fits (fun i => m₀.start (D i)) (fun i => m₀.stop (D i)) (fun i => m.max (D i)) z none s
  /-- the counter of the tree is large enough for the loops -/
  length : s.toList.length ≤ N

variable {t : RbTree} {D : Nat → Nat} {m m₀ : Intervals} {N z : Nat} {s : ColorTree Nat}
  {k : List (Frame Nat)}

/-! ## Recomputing -/

theorem getMax_top {u : ColorTree Nat} {p : Nat} (hu : Rep t p u)
    (h0 : ∀ i ∈ u.toList, i ≠ 0 ∧ t.data i ≠ 0) :
    getMax t m (top t.nil u) = maxOf (fun i => m.max (t.data i)) u := by
  cases u with
  | leaf =>
    unfold getMax noRecord
    simp [top, maxOf]
  | node c l a r =>
    obtain ⟨ha0, had⟩ := h0 a (by simp [toList])
    have hn := hu.1
    unfold getMax noRecord
    simp [top, maxOf, ha0, hn, had]

/-- The maxima of the records fit the intervals. -/
abbrev MaxFits (D : Nat → Nat) (m₀ m : Intervals) (z : Nat) : Option Nat → ColorTree Nat → Prop :=
  Fits (fun i => m₀.start (D i)) (fun i => m₀.stop (D i)) (fun i => m.max (D i)) z

/-- The callbacks change maxima only. -/
structure SameIntervals (m m' : Intervals) : Prop where
  start : m'.start = m.start
  stop : m'.stop = m.stop
  data : m'.data = m.data
  node : m'.node = m.node

/-- One round sets the maximum of the parent of the hole. -/
theorem recalculate_max {f : Frame Nat} (h : Here t (f :: k) s)
    (h0 : ∀ i ∈ (plug s (f :: k)).toList, i ≠ 0 ∧ t.data i ≠ 0) :
    (recalculate t m f.label).max (t.data f.label) =
      max (m.stop (t.data f.label)) (max (maxOf (fun i => m.max (t.data i)) s)
        (maxOf (fun i => m.max (t.data i)) f.sib)) := by
  obtain ⟨-, -, -, h4, h5, h6, -⟩ := h.ctx
  have hs := getMax_top (m := m) h.sub fun i hi => h0 i (by simp [hi])
  have hsib := getMax_top (m := m) h6 fun i hi => h0 i (by simp [hi])
  show (if t.data f.label = t.data f.label then _ else _) = _
  rw [if_pos rfl]
  cases hd : f.side with
  | left =>
    rw [hd] at h4 h5
    rw [h4, show t.child f.label .right = top t.nil f.sib from h5, hs, hsib]
  | right =>
    rw [hd] at h4 h5
    rw [h4, show t.child f.label .left = top t.nil f.sib from h5, hs, hsib]
    rw [Nat.max_comm (maxOf _ f.sib)]

section Recalculate

variable (h : Here t k s)
  (hap : Apart (fun i => m.start (t.data i)) (fun i => m.stop (t.data i)) (plug s k).toList)
  (hinj : ∀ i ∈ (plug s k).toList, ∀ j ∈ (plug s k).toList, t.data i = t.data j → i = j)
  (h0 : ∀ i ∈ (plug s k).toList, i ≠ 0 ∧ t.data i ≠ 0)
  (hs : MaxFits t.data m m z (Ctx.bound (fun i => m.start (t.data i)) k) s)
  (hk : Ctx.Fits (fun i => m.start (t.data i)) (fun i => m.stop (t.data i))
    (fun i => m.max (t.data i)) z k)

include h hap hinj h0 hs hk

/-- The loop makes the maxima fit along the path, from the hole to the root. -/
theorem recalculateLoop_spec {fuel : Nat} (hf : k.length < fuel) :
    ∃ m', recalculateLoop t fuel m (up t.nil k) = some m' ∧ SameIntervals m m' ∧
      MaxFits t.data m m' z none (plug s k) := by
  induction k generalizing m s fuel with
  | nil =>
    obtain _ | fuel := fuel
    · omega
    exact ⟨m, if_neg (fun hx => hx rfl), ⟨rfl, rfl, rfl, rfl⟩, hs⟩
  | cons f k ih =>
    obtain _ | fuel := fuel
    · omega
    obtain ⟨hf0, hfp, -⟩ := h.ctx
    -- the round changes the maximum of the parent only
    have hne : ∀ i ∈ (plug s (f :: k)).toList, i ≠ f.label →
        (recalculate t m f.label).max (t.data i) = m.max (t.data i) :=
      fun i hi hne => if_neg fun he => hne (hinj i hi _ (by simp) he)
    obtain ⟨-, hndk, hsk⟩ := nodup_plug.mp hap.nodup
    obtain ⟨-, -, hfs, hfk, -⟩ := nodup_labels_cons.mp hndk
    have hMs : ∀ i ∈ s.toList, (recalculate t m f.label).max (t.data i) = m.max (t.data i) :=
      fun i hi => hne i (by simp [hi]) fun he => hsk i hi (by simp [he])
    have hMsib : ∀ i ∈ f.sib.toList,
        (recalculate t m f.label).max (t.data i) = m.max (t.data i) :=
      fun i hi => hne i (by simp [hi]) fun he => hfs (he ▸ hi)
    have hMk : ∀ i ∈ Ctx.labels k, (recalculate t m f.label).max (t.data i) = m.max (t.data i) :=
      fun i hi => hne i (by simp [hi]) fun he => hfk (he ▸ hi)
    have hmax := recalculate_max (m := m) h h0
    rw [← maxOf_congr hMs, ← maxOf_congr hMsib] at hmax
    obtain ⟨hs', hk'⟩ := fits_raise (ColorTree.fits_congr hMs hs)
      ⟨ColorTree.fits_congr hMsib hk.1, Ctx.fits_congr hMk hk.2⟩ hap hmax
    obtain ⟨m', hrun, hsame, hfits⟩ := ih (m := recalculate t m f.label)
      (here_cons.mp h) hap hinj h0
      hs' hk' (Nat.lt_of_succ_lt_succ hf)
    refine ⟨m', (if_pos hf0).trans ?_, ⟨hsame.start, hsame.stop, hsame.data, hsame.node⟩, hfits⟩
    show recalculateLoop t fuel (recalculate t m f.label) (t.parent f.label) = some m'
    rwa [hfp]

/-- `recalculate_min_max` from the parent of the hole. -/
theorem recalculateMinMax_spec (hlen : (plug s k).toList.length ≤ t.nodes + 1) :
    ∃ m', recalculateMinMax t m (up t.nil k) = some m' ∧ SameIntervals m m' ∧
      MaxFits t.data m m' z none (plug s k) := by
  refine recalculateLoop_spec h hap hinj h0 hs hk ?_
  have h1 := Ctx.length_le k
  rw [toList_plug, List.length_append, List.length_append] at hlen
  omega

end Recalculate

/-! ## The callbacks -/

theorem Ok.recolor {s' : ColorTree Nat} (hsh : s.SameShape s') (h : Ok D N m₀ z m s) :
    Ok D N m₀ z m s' := by
  obtain ⟨h1, h2, h3, h4, hap, hinj, h0, hfits, hlen⟩ := h
  rw [hsh.toList_eq] at hap hinj h0 hlen
  exact ⟨h1, h2, h3, h4, hap, hinj, h0, fits_sameShape hsh hfits, hlen⟩

/-- A rotation keeps the maxima right. -/
theorem Ok.rotate {d : Side} {c e : Color} {a b g : ColorTree Nat} {x y : Nat} (hD : t.data = D)
    (hN : N ≤ t.nodes + 1) (h : Here t k (join d e (join d c a x b) y g))
    (hok : Ok D N m₀ z m (plug (join d c a x (join d e b y g)) k)) :
    ∃ m', postRotateCallback t x y m = some m' ∧
      Ok D N m₀ z m' (plug (join d e (join d c a x b) y g) k) := by
  subst hD
  obtain ⟨hst, hsp, hda, hno, hap, hinj, h0, hfits, hlen⟩ := hok
  rw [toList_rotate] at hap hinj h0 hlen
  -- only the maximum of `y` is copied before the loop
  have hM : ∀ i ∈ (plug (join d e (join d c a x b) y g) k).toList, i ≠ y →
      (m.setMinMax (t.data y) (m.min (t.data x)) (m.max (t.data x))).max (t.data i) =
        m.max (t.data i) :=
    fun i hi hne => if_neg fun he => hne (hinj i hi y (by simp) he)
  obtain ⟨hnds, -, hsk⟩ := nodup_plug.mp hap.nodup
  obtain ⟨-, -, hyx, hyg, -⟩ := nodup_join.mp hnds
  simp only [mem_join, not_or] at hyx
  obtain ⟨ha, hb, hg, hk⟩ := fits_of_rotate hfits
  have ha' := ColorTree.fits_congr (fun i hi => hM i (by simp [hi]) fun he => hyx.1 (he ▸ hi)) ha
  have hb' := ColorTree.fits_congr (fun i hi => hM i (by simp [hi]) fun he => hyx.2.2 (he ▸ hi)) hb
  have hg' := ColorTree.fits_congr (fun i hi => hM i (by simp [hi]) fun he => hyg (he ▸ hi)) hg
  have hk' := Ctx.fits_congr
    (fun i hi => hM i (by simp [hi]) fun he => hsk y (by simp) (he ▸ hi)) hk
  rw [← hst, ← hsp] at hap ha' hb' hg' hk'
  obtain ⟨m', hrun, hsame, hfits'⟩ := recalculateMinMax_spec
    (m := m.setMinMax (t.data y) (m.min (t.data x)) (m.max (t.data x)))
    (here_cons.mpr (here_cons.mpr h) : Here t (⟨d, c, x, b⟩ :: ⟨d, e, y, g⟩ :: k) a)
    hap hinj h0 ha' ⟨hb', hg', hk'⟩ (hlen.trans hN)
  refine ⟨m', hrun, hsame.start.trans hst, hsame.stop.trans hsp, hsame.data.trans hda,
    hsame.node.trans hno, ?_, hinj, h0, ?_, hlen⟩
  · rwa [← hst, ← hsp]
  · rwa [← hst, ← hsp]

theorem events_ok {t0 : RbTree} (hD : t0.data = D) (hN : N ≤ t0.nodes + 1) :
    EventsOk events t0 (Ok D N m₀ z) where
  recolor := fun hsh h => h.recolor hsh
  rotate := fun hrest hhere _ hok =>
    Ok.rotate (hrest.data.trans hD) (hrest.nodes.symm ▸ hN) hhere hok

/-- Fewer nodes, with maxima that fit. -/
theorem Ok.of_sublist {m' : Intervals} {s' : ColorTree Nat} (h : Ok D N m₀ z m s)
    (hl : s'.toList.Sublist s.toList) (hsame : SameIntervals m m')
    (hfits : MaxFits D m₀ m' z none s') : Ok D N m₀ z m' s' :=
  ⟨hsame.start.trans h.start, hsame.stop.trans h.stop, hsame.data.trans h.data,
    hsame.node.trans h.nodePtr, h.apart.sublist hl,
    fun i hi j hj => h.inj i (hl.subset hi) j (hl.subset hj), fun i hi =>
      h.ne_zero i (hl.subset hi),
    hfits, hl.length_le.trans h.length⟩

theorem zero_notMem (h : Ok D N m₀ z m s) : (0 : Nat) ∉ s.toList :=
  fun hm => (h.ne_zero 0 hm).1 rfl

section Replace

variable {d : Side} {c e : Color} {l v : ColorTree Nat} {x y : Nat} {k' : List (Frame Nat)}

/-- The copy that `replace_node` makes, seen from the nodes of the tree. -/
theorem replaceNodeCallback_spec (hok : Ok D N m₀ z m s) (hD : t.data = D) (hnil : D t.nil = 0)
    (u : Nat) (hv : ∀ i ∈ v.toList, i ∈ s.toList) :
    ∃ m', replaceNodeCallback t u (top t.nil v) m = some m' ∧ SameIntervals m m' ∧
      ∀ i ∈ s.toList, m'.max (D i) = if i = top t.nil v then m.max (D u) else m.max (D i) := by
  rw [replaceNodeCallback, hD]
  obtain rfl | hl := eq_or_ne v leaf
  · rw [if_neg (fun h => h hnil)]
    refine ⟨m, rfl, ⟨rfl, rfl, rfl, rfl⟩, fun i hi => ?_⟩
    have hne : i ≠ t.nil := fun he => (hok.ne_zero i hi).2 (he ▸ hnil)
    exact (if_neg hne).symm
  · have htop := hv (top t.nil v) (top_mem hl)
    rw [if_pos (hok.ne_zero _ htop).2]
    refine ⟨_, rfl, ⟨rfl, rfl, rfl, rfl⟩, fun i hi => ?_⟩
    show (if D i = D (top t.nil v) then m.max (D u) else m.max (D i)) = _
    by_cases he : i = top t.nil v
    · rw [if_pos he, if_pos (by rw [he])]
    · rw [if_neg he, if_neg (fun hx => he (hok.inj i hi _ htop hx))]

/-- A node of the tree is not the top of a subtree that it is outside of. -/
theorem Ok.ne_top (hok : Ok D N m₀ z m s) (hnil : D t.nil = 0) {i : Nat} (hi : i ∈ s.toList)
    (hiv : i ∉ v.toList) : i ≠ top t.nil v := by
  rintro rfl
  by_cases hl : v = leaf
  · rw [hl] at hi
    exact (hok.ne_zero _ hi).2 hnil
  · exact hiv (top_mem hl)

theorem Ok.child (hok : Ok D N m₀ 0 m (plug (join d c leaf x v) k)) (hD : t.data = D)
    (hnil : D t.nil = 0) :
    ∃ m', replaceNodeCallback t x (top t.nil v) m = some m' ∧ Ok D N m₀ 0 m' (plug v k) ∧
      SameIntervals m m' ∧ ∀ i ∈ (plug (join d c leaf x v) k).toList, i ∉ v.toList →
        m'.max (D i) = m.max (D i) := by
  obtain ⟨m', hrun, hsame, hM⟩ :=
    replaceNodeCallback_spec (v := v) hok hD hnil x fun i hi => by simp [hi]
  have hnd := hok.apart.nodup
  have hout : ∀ i ∈ (plug (join d c leaf x v) k).toList, i ∉ v.toList →
      m'.max (D i) = m.max (D i) :=
    fun i hi hiv => (hM i hi).trans (if_neg (hok.ne_top hnil hi hiv))
  refine ⟨m', hrun, hok.of_sublist ?_ hsame ?_, hsame, hout⟩
  · rw [toList_plug, toList_plug]
    refine List.Sublist.append (List.Sublist.append (.refl _) ?_) (.refl _)
    cases d <;> simp [join, toList]
  · refine fits_child hok.fits (zero_notMem hok) hnd hok.apart (fun i hi => ?_) (fun i hi => ?_)
    · exact hout i (by simp [hi]) fun hv => (nodup_plug.mp hnd).2.2 i (by simp [hv]) hi
    · rw [hM i (by simp [hi])]
      split
      · next he =>
        refine Or.inr ⟨rfl, ?_⟩
        cases v with
        | leaf => simp [toList] at hi
        | node c l a r => exact ⟨c, l, r, by rw [he]; rfl⟩
      · exact Or.inl rfl

/-- The next node, taken from its place, becomes the top of the subtree. -/
theorem Ok.next {r : ColorTree Nat} {m1 : Intervals}
    (hok : Ok D N m₀ 0 m (plug (node c l x r) k)) (hD : t.data = D)
    (hr : y ∈ r.toList) {r' : ColorTree Nat} (hr' : r'.toList.Sublist r.toList)
    (hids : (plug (node c l y r') k).toList.Sublist (plug (node c l x r) k).toList)
    (hyr : y ∉ r'.toList) (hsame : SameIntervals m m1)
    (hM : ∀ i ∈ (plug (node c l x r) k).toList, i ∉ r.toList → m1.max (D i) = m.max (D i))
    (hfits : MaxFits D m₀ m1 0 (Ctx.bound (fun i => m₀.start (D i)) k) r') :
    ∃ m2, replaceNodeCallback t x y m1 = some m2 ∧ Ok D N m₀ 0 m2 (plug (node c l y r') k) := by
  obtain ⟨hnds, -, hsk⟩ := nodup_plug.mp hok.apart.nodup
  obtain ⟨-, -, -, hxr, hlr⟩ := (nodup_join (d := .left)).mp hnds
  have hym : y ∈ (plug (node c l x r) k).toList := by simp [toList, hr]
  rw [replaceNodeCallback, hD, if_pos (hok.ne_zero y hym).2]
  have hM2 : ∀ i ∈ (plug (node c l x r) k).toList, i ≠ y →
      (m1.setMinMax (D y) (m1.min (D x)) (m1.max (D x))).max (D i) = m1.max (D i) :=
    fun i hi hne => if_neg (fun he => hne (hok.inj i hi y hym he))
  have hout : ∀ i ∈ (plug (node c l x r) k).toList, i ∉ r.toList →
      (m1.setMinMax (D y) (m1.min (D x)) (m1.max (D x))).max (D i) = m.max (D i) :=
    fun i hi hir => (hM2 i hi fun he => hir (he ▸ hr)).trans (hM i hi hir)
  refine ⟨_, rfl, hok.of_sublist hids ⟨hsame.start, hsame.stop, hsame.data, hsame.node⟩
    (fits_swap hok.fits (zero_notMem hok) (ColorTree.fits_congr (fun i hi => ?_) hfits)
      (fun j hj => hr'.subset hj) hr ?_ ?_ (fun i hi => ?_) (fun i hi => ?_))⟩
  · exact hM2 i (by simp [toList, hr'.subset hi]) fun he => hyr (he ▸ hi)
  · -- `x` comes before `y`
    have hap := hok.apart
    rw [toList_plug] at hap
    have h1 := (List.pairwise_append.mp (List.pairwise_append.mp hap.order).1).2.1
    have h2 := (List.pairwise_cons.mp (List.pairwise_append.mp h1).2.1).1 y hr
    exact ((hok.apart.nonempty x (by simp [toList])).trans_le h2).le
  · show (if D y = D y then m1.max (D x) else _) = m.max (D x)
    rw [if_pos rfl]
    exact hM x (by simp [toList]) hxr
  · exact hout i (by simp [toList, hi]) (hlr i hi)
  · exact hout i (by simp [hi]) fun hm => hsk i (by simp [toList, hm]) hi

theorem events_replaceOk {t0 : RbTree} (hD : t0.data = D) (hnil : D t0.nil = 0) :
    ReplaceOk events t0 (Ok D N m₀ 0) where
  child := fun hinfo hok => by
    obtain ⟨m', hrun, hok', -⟩ := hok.child (hinfo.data.trans hD) (hinfo.nil.symm ▸ hnil)
    exact ⟨m', hrun, hok'⟩
  near := fun {t m c e l v x y k} hinfo hok => by
    obtain ⟨-, -, -, -, hfits⟩ := (fits_of_plug hok.fits).1
    have hnd := (nodup_plug.mp hok.apart.nodup).1
    obtain ⟨-, hndr, -, -, -⟩ := (nodup_join (d := .left)).mp hnd
    obtain ⟨-, -, -, hyv, -⟩ := (nodup_join (d := .left)).mp hndr
    refine hok.next (hinfo.data.trans hD) (by simp [toList]) ?_ ?_ hyv ⟨rfl, rfl, rfl, rfl⟩
      (fun _ _ _ => rfl) hfits
    · simp [toList]
    · rw [toList_plug, toList_plug]
      simp [toList]
  far := fun {t m c e l v x y k k'} hinfo hk' hok => by
    have hplug : ∀ s, plug s (k' ++ ⟨.right, c, x, l⟩ :: k) = plug (node c l x (plug s k')) k :=
      fun s => plug_append ..
    have hok1 := hok
    rw [← hplug] at hok1
    obtain ⟨m1, hrun, hok1, hsame, hM⟩ := Ok.child (d := .left) hok1 (hinfo.data.trans hD)
      (hinfo.nil.symm ▸ hnil)
    refine ⟨m1, hrun, fun t' hinfo' => ?_⟩
    rw [hplug] at hok1
    obtain ⟨-, -, hfits⟩ := (fits_of_plug hok1.fits).1
    have hnd := (nodup_plug.mp hok.apart.nodup).1
    obtain ⟨-, hndr, -, -, -⟩ := (nodup_join (d := .left)).mp hnd
    have hyr : y ∉ (plug v k').toList := by
      obtain ⟨hndy, -, hyk⟩ := nodup_plug.mp hndr
      rw [mem_plug, not_or]
      exact ⟨((nodup_join (d := .left)).mp hndy).2.2.2.1, hyk y (by simp [toList])⟩
    have hsub : (plug v k').toList.Sublist (plug (node e leaf y v) k').toList := by
      rw [toList_plug, toList_plug]
      simp [toList]
    refine hok.next (hinfo'.data.trans hD) (by simp [toList]) hsub ?_ hyr hsame
      (fun i hi hir => hM i (by rwa [← hplug] at hi) fun hv => hir (by simp [toList, hv])) hfits
    rw [toList_plug, toList_plug, toList, toList, toList_plug, toList_plug, hk']
    simp [toList]

end Replace

end Osdev.Intvl
