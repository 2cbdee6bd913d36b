import Osdev.IntervalTree.Ops

/-!
# The search for a free gap

`intvl_tree_find_free_gap` looks for the place among the intervals, in order, where an interval of
the wanted size fits. The nodes are split into those that start before the wanted start and the
rest; the walk moves the first node of the rest over to the front part, and stops when the gap
between the two parts is large enough.
-/

namespace Osdev.Intvl

open Osdev.Lib Osdev.Lib.ColorTree Osdev.Rb

variable {st : State Intervals} {t : RbTree} {m : Intervals} {s : ColorTree Nat}
  {k : List (Frame Nat)} {start size e : Nat}
variable {fuel i y from_ p : Nat} {l xs ys : List Nat}

/-- The descent finds the first node that starts at `start` or above. -/
theorem closestGreater_spec (best : Nat) (h : Here t k s)
    (hsort : s.toList.Pairwise fun i j => m.start (t.data i) < m.start (t.data j))
    (hf : s.toList.length < fuel) :
    closestGreater t m start fuel (top t.nil s) best =
      some ((s.toList.filter fun i => start ≤ m.start (t.data i)).headD best) := by
  revert best hsort
  refine h.descend hf ?_ ?_
  · intro k fuel best _
    exact if_neg (fun hx => hx rfl)
  · intro k c l a r fuel h ihl ihr best hsort
    obtain ⟨ha0, -, -, hal, har, -, -⟩ := h.sub
    obtain ⟨hsl, hsr, hlr⟩ := List.pairwise_append.mp hsort
    have hstep : closestGreater t m start (fuel + 1) (top t.nil (node c l a r)) best =
        if start ≤ m.start (t.data a) then closestGreater t m start fuel (top t.nil l) a
        else closestGreater t m start fuel (top t.nil r) best := by
      conv_lhs => unfold closestGreater
      rw [← hal, ← har]
      exact if_pos ha0
    rw [hstep]
    simp only [toList, List.filter_append, List.filter_cons, headD_append]
    split
    next hle =>
      rw [ihl _ hsl, if_pos (decide_eq_true hle)]
      rfl
    next hle =>
      have hnone : l.toList.filter (fun i => start ≤ m.start (t.data i)) = [] := by
        refine List.filter_eq_nil_iff.mpr fun i hi => ?_
        have hlt := hlr i hi a (by simp)
        simp only [decide_eq_true_eq]
        omega
      rw [ihr _ (List.pairwise_cons.mp hsr).2, hnone, if_neg (by simpa using hle)]
      rfl

/-- A list in order of `f` is its part below `b` followed by the rest. -/
theorem filter_lt_append {f : Nat → Nat} {b : Nat} (h : l.Pairwise fun i j => f i < f j) :
    l.filter (fun i => f i < b) ++ l.filter (fun i => b ≤ f i) = l := by
  induction l with
  | nil => rfl
  | cons a l ih =>
    obtain ⟨hgt, htail⟩ := List.pairwise_cons.mp h
    by_cases ha : f a < b
    · rw [List.filter_cons_of_pos (by simpa using ha), List.filter_cons_of_neg (by simpa using ha),
        List.cons_append, ih htail]
    · have hall : l.filter (fun i => f i < b) = [] := by
        refine List.filter_eq_nil_iff.mpr fun i hi => ?_
        have := hgt i hi
        simp only [decide_eq_true_eq]
        omega
      have htail' := ih htail
      rw [hall, List.nil_append] at htail'
      rw [List.filter_cons_of_neg (by simpa using ha), List.filter_cons_of_pos (by simp; omega),
        hall, List.nil_append, htail']

/-! ## Free places -/

/-- An interval of `size` bytes at `x` meets none of the intervals in `l`. -/
def FreeAt (l : List Interval) (size x : Nat) : Prop :=
  ∀ i ∈ l, Interval.Disjoint ⟨x, x + size⟩ i

/-- The place that a search from `start` up should find: aligned, free, and no such place below. -/
structure LeastFree (l : List Interval) (start size e x : Nat) : Prop where
  lower : start ≤ x
  aligned : x % 2 ^ e = 0
  free : FreeAt l size x
  least : ∀ y, start ≤ y → y % 2 ^ e = 0 → FreeAt l size y → x ≤ y

/-- The intervals of a list of nodes. -/
def intervals (t : RbTree) (m : Intervals) (l : List Nat) : List Interval :=
  l.map fun i => m.interval (t.data i)

/-- What the search promises, for the nodes `l` in order: the least free place, and the record of
the node right before it. -/
structure GapOk (t : RbTree) (m : Intervals) (l : List Nat) (start size e : Nat) (r : Interval)
    (rec : Nat) : Prop where
  least : LeastFree (intervals t m l) start size e r.start
  stop : r.stop = r.start + size
  word : r.stop < word
  place : ∃ xs ys, l = xs ++ ys ∧ rec = prevRecord t (xs.getLastD t.nil) ∧
    (∀ i ∈ xs, m.stop (t.data i) ≤ r.start) ∧ ∀ i ∈ ys, r.stop ≤ m.start (t.data i)

/-- Where the walk stands: the nodes `xs` are behind it, and no free place lies before the gap. -/
structure Before (t : RbTree) (m : Intervals) (xs ys : List Nat) (start size e from_ : Nat) :
    Prop where
  lower : start ≤ from_
  ends : ∀ i ∈ xs, m.stop (t.data i) ≤ gapStart t m from_ (xs.getLastD t.nil)
  least : ∀ y, start ≤ y → y % 2 ^ e = 0 → FreeAt (intervals t m (xs ++ ys)) size y →
    gapStart t m from_ (xs.getLastD t.nil) ≤ y

theorem mem_intervals (hi : i ∈ l) :
    m.interval (t.data i) ∈ intervals t m l :=
  List.mem_map.mpr ⟨i, hi, rfl⟩

/-- Rounding up stays at or below an aligned word. -/
theorem align_le_of_aligned {x : Nat} (he : e < 64) (hxy : x ≤ y) (hy : y % 2 ^ e = 0)
    (hword : y < word) :
    x + 2 ^ e ≤ word ∧ align x (2 ^ e) ≤ y := by
  have hdvd : word % 2 ^ e = 0 := Nat.mod_eq_zero_of_dvd (Nat.pow_dvd_pow 2 (by omega))
  obtain ⟨a, ha⟩ := Nat.dvd_of_mod_eq_zero hy
  obtain ⟨w, hw⟩ := Nat.dvd_of_mod_eq_zero hdvd
  have haw : a + 1 ≤ w := Nat.lt_of_mul_lt_mul_left (a := 2 ^ e) (by omega)
  have hlast : y + 2 ^ e ≤ word := by
    rw [ha, hw]
    exact Nat.mul_le_mul_left _ haw
  obtain ⟨-, hlt, hmod⟩ := align_spec (v := x) he (by omega)
  obtain ⟨b, hb⟩ := Nat.dvd_of_mod_eq_zero hmod
  have hba : b < a + 1 :=
    Nat.lt_of_mul_lt_mul_left (by rw [Nat.mul_succ, ← ha, ← hb]; omega)
  refine ⟨by omega, ?_⟩
  rw [ha, hb]
  exact Nat.mul_le_mul_left _ (by omega)

theorem le_gapStart (t : RbTree) (m : Intervals) (from_ prev : Nat) :
    from_ ≤ gapStart t m from_ prev := by
  unfold gapStart
  split
  · exact Nat.le_max_left _ _
  · exact le_rfl

/-- The gap between the nodes behind and the rest is the place, if it is large enough. -/
theorem Before.gapOk (he : e < 64) (hb : Before t m xs ys start size e from_) (hy : start ≤ y)
    (hya : y % 2 ^ e = 0) (hfree : FreeAt (intervals t m (xs ++ ys)) size y)
    (hyw : y + size < word)
    (hys : ∀ i ∈ ys, align (gapStart t m from_ (xs.getLastD t.nil)) (2 ^ e) + size ≤ m.start
    (t.data i)) :
    GapOk t m (xs ++ ys) start size e
      (makeAlignedInterval (gapStart t m from_ (xs.getLastD t.nil)) size (2 ^ e))
      (prevRecord t (xs.getLastD t.nil)) := by
  obtain ⟨hroom, hle⟩ := align_le_of_aligned he (hb.least y hy hya hfree) hya (by omega)
  obtain ⟨hup, -, hmod⟩ := align_spec he hroom
  have hstop : (makeAlignedInterval (gapStart t m from_ (xs.getLastD t.nil)) size (2 ^ e)).stop =
      align (gapStart t m from_ (xs.getLastD t.nil)) (2 ^ e) + size := addWord_of_lt (by omega)
  have hends : ∀ i ∈ xs, m.stop (t.data i) ≤
      align (gapStart t m from_ (xs.getLastD t.nil)) (2 ^ e) :=
    fun i hi => (hb.ends i hi).trans hup
  refine ⟨⟨?_, hmod, ?_, ?_⟩, hstop, by rw [hstop]; omega, xs, ys, rfl, rfl, hends, fun i hi => ?_⟩
  · exact hb.lower.trans (Nat.le_trans (le_gapStart t m from_ _) hup)
  · intro j hj
    obtain ⟨i, hi, rfl⟩ := List.mem_map.mp hj
    rcases List.mem_append.mp hi with hi | hi
    · exact Or.inr (hends i hi)
    · exact Or.inl (hys i hi)
  · intro z hz hza hzf
    by_cases hzw : z < word
    · exact (align_le_of_aligned he (hb.least z hz hza hzf) hza hzw).2
    · exact hle.trans (by omega)
  · rw [hstop]
    exact hys i hi

/-! ## The walk -/

/-- A gap that is too small: a free place does not lie in it, so it lies behind the next node. -/
theorem Before.step (he : e < 64) (hsize : 0 < size)
    (hb : Before t m xs (i :: ys) start size e from_) (hi : i ≠ t.nil)
    (hne : m.start (t.data i) < m.stop (t.data i)) (hword : m.start (t.data i) < word)
    (hfail : checkGap (gapStart t m from_ (xs.getLastD t.nil)) (m.start (t.data i)) size
    (2 ^ e) = false)
    (hsort : ∀ j ∈ xs, m.stop (t.data j) ≤ m.start (t.data i)) :
    Before t m (xs ++ [i]) ys start size e (max from_ (m.stop (t.data i))) := by
  have hlast : (xs ++ [i]).getLastD t.nil = i := by simp
  have hgap : gapStart t m (max from_ (m.stop (t.data i))) i = max from_ (m.stop (t.data i)) := by
    rw [gapStart, if_pos hi]
    omega
  refine ⟨hb.lower.trans (Nat.le_max_left _ _), fun j hj => ?_, fun y hy hya hfree => ?_⟩
  · rw [hlast, hgap]
    rcases List.mem_append.mp hj with hj | hj
    · have := hsort j hj
      omega
    · obtain rfl : j = i := by simpa using hj
      exact Nat.le_max_right _ _
  · rw [hlast]
    rw [List.append_assoc] at hfree
    have hge := hb.least y hy hya hfree
    have hfrom := le_gapStart t m from_ (xs.getLastD t.nil)
    have hdis := hfree _ (mem_intervals (i := i) (by simp))
    rcases hdis with hdis | hdis
    · -- before the node there was no room
      have hdis : y + size ≤ m.start (t.data i) := hdis
      have hal := (align_le_of_aligned he hge hya (by omega)).2
      have hok : checkGap (gapStart t m from_ (xs.getLastD t.nil)) (m.start (t.data i))
          size (2 ^ e) =
          true := by
        unfold checkGap
        simp only [decide_eq_true_eq]
        omega
      rw [hok] at hfail
      cases hfail
    · have hdis : m.stop (t.data i) ≤ y := hdis
      omega

/-- The walk from the nodes `ys` on finds the place. -/
theorem gapLoop_spec (he : e < 64) (hsize : 0 < size) (hlist : Seg t.next t.prev p ys t.nil)
    (hnil : ∀ i ∈ ys, i ≠ t.nil)
    (hap : (xs ++ ys).Pairwise fun i j => m.stop (t.data i) ≤ m.start (t.data j))
    (hne : ∀ i ∈ ys, m.start (t.data i) < m.stop (t.data i) ∧ m.stop (t.data i) < word)
    (hb : Before t m xs ys start size e from_) (hy : start ≤ y) (hya : y % 2 ^ e = 0)
    (hfree : FreeAt (intervals t m (xs ++ ys)) size y) (hyw : y + size < word)
    (hf : ys.length < fuel) :
    ∃ r rec, gapLoop t m size (2 ^ e) fuel (ys.headD t.nil) (xs.getLastD t.nil) from_ =
      some (r, rec) ∧ GapOk t m (xs ++ ys) start size e r rec := by
  induction ys generalizing xs from_ fuel p with
  | nil =>
    obtain _ | fuel := fuel
    · omega
    refine ⟨_, _, ?_, hb.gapOk he hy hya hfree hyw fun i hi => absurd hi List.not_mem_nil⟩
    exact if_neg (fun hx => hx rfl)
  | cons i ys ih =>
    obtain _ | fuel := fuel
    · omega
    have hi := hnil i (by simp)
    obtain ⟨hii, hiw⟩ := hne i (by simp)
    obtain ⟨-, hcons, hxy⟩ := List.pairwise_append.mp hap
    obtain ⟨hiys, -⟩ := List.pairwise_cons.mp hcons
    obtain ⟨-, hnext, hrest⟩ := hlist
    rw [gapLoop, List.headD_cons, if_pos hi]
    split
    next hcheck =>
      refine ⟨_, _, rfl, hb.gapOk he hy hya hfree hyw fun j hj => ?_⟩
      have hroom : align (gapStart t m from_ (xs.getLastD t.nil)) (2 ^ e) + size ≤
          m.start (t.data i) := by
        unfold checkGap at hcheck
        simp only [decide_eq_true_eq] at hcheck
        omega
      rcases List.mem_cons.mp hj with rfl | hj
      · exact hroom
      · have := hiys j hj
        omega
    next hcheck =>
      have hb' := hb.step he hsize hi hii (by omega) (by simpa using hcheck)
        (fun j hj => hxy j hj i (by simp))
      rw [List.append_cons] at hap hfree ⊢
      obtain ⟨r, rec, hrun, hok⟩ := ih hrest (fun j hj => hnil j (by simp [hj])) hap
        (fun j hj => hne j (by simp [hj])) hb' hfree
        (by rw [List.length_cons] at hf; exact Nat.lt_of_succ_lt_succ hf)
      refine ⟨r, rec, ?_, hok⟩
      rw [hnext, ← hrun]
      simp

/-- The first check of the search is the one that the walk begins with. -/
theorem intvlTreeFindFreeGap_eq {i : Interval} {al : Nat} (hroot : t.root ≠ t.nil)
    {greater lesser : Nat}
    (hg : closestGreater t m i.start (t.nodes + 2) t.root t.nil = some greater)
    (hl : lesser = if greater ≠ t.nil then t.prev greater else t.max) :
    intvlTreeFindFreeGap t m i al = gapLoop t m (subWord i.stop i.start) (if al = 0 then 1 else al)
      (t.nodes + 2) greater lesser i.start := by
  rw [intvlTreeFindFreeGap, if_neg hroot, hg]
  simp only [Option.bind_eq_bind, Option.bind_some, ← hl]
  generalize (if al = 0 then 1 else al) = a
  split
  next hcheck =>
    conv_rhs => unfold gapLoop
    rw [if_pos hcheck.1, if_pos hcheck.2]
  · rfl

/-- In a list of intervals in order the last one has the greatest end. -/
theorem stop_le_last {f g : Nat → Nat} {d : Nat} (h : l.Pairwise fun a b => g a ≤ f b)
    (hne : ∀ a ∈ l, f a < g a) (hi : i ∈ l) :
    g i ≤ g (l.getLastD d) := by
  obtain ⟨xs, z, rfl⟩ : ∃ xs z, l = xs ++ [z] :=
    ⟨_, _, (List.dropLast_append_getLast (List.ne_nil_of_mem hi)).symm⟩
  rw [List.getLastD_concat]
  rcases List.mem_append.mp hi with hx | hx
  · have hle := (List.pairwise_append.mp h).2.2 i hx z (by simp)
    exact Nat.le_of_lt (hle.trans_lt (hne z (by simp)))
  · obtain rfl : i = z := by simpa using hx
    exact le_rfl

/-- Where the walk starts: behind the nodes that start below `start`. -/
structure Split (st : State Intervals) (s : ColorTree Nat) (start : Nat)
    (xs ys : List Nat) : Prop where
  nodes : s.toList = xs ++ ys
  list : Seg st.tree.next st.tree.prev (xs.getLastD st.tree.nil) ys st.tree.nil
  below : ∀ i ∈ xs, st.data.start (st.tree.data i) < start
  above : ∀ i ∈ ys, start ≤ st.data.start (st.tree.data i)
  ends : ∀ i ∈ xs, st.data.stop (st.tree.data i) ≤
    gapStart st.tree st.data start (xs.getLastD st.tree.nil)
  search : ∀ stop al, intvlTreeFindFreeGap st.tree st.data ⟨start, stop⟩ al =
    gapLoop st.tree st.data (subWord stop start) (if al = 0 then 1 else al) (st.tree.nodes + 2)
      (ys.headD st.tree.nil) (xs.getLastD st.tree.nil) start

theorem Stores.sorted_start (h : Stores st s) : s.toList.Pairwise fun i j =>
    st.data.start (st.tree.data i) < st.data.start (st.tree.data j) :=
  h.ok.apart.order.imp_of_mem fun {i _} hi _ hle =>
    (h.ok.apart.nonempty i hi).trans_le hle

theorem Stores.exists_split (h : Stores st s) (hs : s.toList ≠ []) (start : Nat) :
    ∃ xs ys, Split st s start xs ys := by
  have hnn := h.holds.ne_nil
  have hap := h.ok.apart
  have hsorted := h.sorted_start
  have hroot : st.tree.root = top st.tree.nil s := h.holds.here.ctx
  have hne : st.tree.root ≠ st.tree.nil := by
    rw [hroot]
    intro ht
    refine hs ?_
    rw [(top_eq_nil_iff h.holds.here.sub).mp ht]
    rfl
  obtain ⟨xs, hxs⟩ : ∃ xs, xs = s.toList.filter fun i => st.data.start (st.tree.data i) < start :=
    ⟨_, rfl⟩
  obtain ⟨ys, hys⟩ : ∃ ys, ys = s.toList.filter fun i => start ≤ st.data.start (st.tree.data i) :=
    ⟨_, rfl⟩
  have happ : s.toList = xs ++ ys := by
    rw [hxs, hys]
    exact (filter_lt_append hsorted).symm
  have hmem : ∀ i ∈ xs, i ∈ s.toList := fun i hi => by
    rw [happ]
    exact List.mem_append_left _ hi
  have hgreater : closestGreater st.tree st.data start (st.tree.nodes + 2) st.tree.root
      st.tree.nil = some (ys.headD st.tree.nil) := by
    rw [hroot, hys]
    exact closestGreater_spec _ h.holds.here hsorted (by have := h.holds.nodes; omega)
  have hlist := h.holds.list
  rw [happ] at hlist
  obtain ⟨-, hlist⟩ := (seg_append _ _ _ _).mp hlist
  -- the node before the rest is the last one of those that start below
  have hlesser : xs.getLastD st.tree.nil =
      if ys.headD st.tree.nil ≠ st.tree.nil then st.tree.prev (ys.headD st.tree.nil)
      else st.tree.max := by
    cases hc : ys with
    | nil => rw [List.headD_nil, if_neg (fun hx => hx rfl), h.holds.max, happ, hc, List.append_nil]
    | cons i zs =>
      rw [hc] at hlist
      have hi : i ∈ s.toList := by
        rw [happ, hc]
        exact List.mem_append_right _ (by simp)
      rw [List.headD_cons, if_pos (hnn i hi)]
      exact hlist.1.symm
  refine ⟨xs, ys, happ, hlist, fun i hi => ?_, fun i hi => ?_, fun i hi => ?_, fun stop al =>
    intvlTreeFindFreeGap_eq hne hgreater hlesser⟩
  · rw [hxs] at hi
    simpa using (List.mem_filter.mp hi).2
  · rw [hys] at hi
    simpa using (List.mem_filter.mp hi).2
  · have hapx : xs.Pairwise fun i j =>
        st.data.stop (st.tree.data i) ≤ st.data.start (st.tree.data j) := by
      have := hap.order
      rw [happ] at this
      exact (List.pairwise_append.mp this).1
    have hlast := getLastD_mem (List.ne_nil_of_mem hi) st.tree.nil
    have hle := stop_le_last (d := st.tree.nil) hapx (fun j hj => hap.nonempty j (hmem j hj)) hi
    rw [gapStart, if_pos (hnn _ (hmem _ hlast))]
    exact hle.trans (Nat.le_max_right _ _)

/-- A free place at or above `start` does not lie before a node that starts below. -/
theorem Split.before (h : Split st s start xs ys) (hsize : 0 < size) :
    Before st.tree st.data xs ys start size e start := by
  refine ⟨le_rfl, h.ends, fun z hz _ hzf => ?_⟩
  unfold gapStart
  split
  next hn =>
    by_cases hx : xs = []
    · rw [hx] at hn
      exact absurd rfl hn
    · have hlast := getLastD_mem hx st.tree.nil
      have hbelow := h.below _ hlast
      have hz' : z + size ≤ st.data.start (st.tree.data (xs.getLastD st.tree.nil)) ∨
          st.data.stop (st.tree.data (xs.getLastD st.tree.nil)) ≤ z :=
        hzf _ (mem_intervals (List.mem_append_left _ hlast))
      omega
  · exact hz

/-- **The search finds the least free place.** -/
theorem intvlTreeFindFreeGap_spec (h : Stores st s) (hs : s.toList ≠ []) {al : Nat} (he : e < 64)
    (hal : (if al = 0 then 1 else al) = 2 ^ e) (hsize : 0 < size) (hy : start ≤ y)
    (hya : y % 2 ^ e = 0) (hfree : FreeAt (intervals st.tree st.data s.toList) size y)
    (hyw : y + size < word) :
    ∃ r rec, intvlTreeFindFreeGap st.tree st.data ⟨start, start + size⟩ al = some (r, rec) ∧
      GapOk st.tree st.data s.toList start size e r rec := by
  obtain ⟨xs, ys, hsplit⟩ := h.exists_split hs start
  have hmem : ∀ i ∈ ys, i ∈ s.toList := fun i hi => by
    rw [hsplit.nodes]
    exact List.mem_append_right _ hi
  have hfuel : ys.length < st.tree.nodes + 2 := by
    have hnodes := h.holds.nodes
    rw [hsplit.nodes, List.length_append] at hnodes
    omega
  obtain ⟨r, rec, hrun, hok⟩ := gapLoop_spec he hsize hsplit.list
    (fun i hi => h.holds.ne_nil i (hmem i hi)) (by rw [← hsplit.nodes]; exact h.ok.apart.order)
    (fun i hi => ⟨h.ok.apart.nonempty i (hmem i hi), h.word i (hmem i hi)⟩)
    (hsplit.before hsize) hy hya (by rwa [← hsplit.nodes]) hyw hfuel
  rw [← hsplit.nodes] at hok
  refine ⟨r, rec, ?_, hok⟩
  rwa [hsplit.search, hal, subWord_of_le (by omega) (by omega), Nat.add_sub_cancel_left]

/-- **In every run that keeps the intervals apart, the search returns the least free place, and the
record of the interval right before it.** -/
theorem freeGap_least {r : Run} (h : Reach Run.Empty Call r) (hne : r.content ≠ []) {al : Nat}
    (he : e < 64) (hal : (if al = 0 then 1 else al) = 2 ^ e) (hsize : 0 < size)
    (hroom : ∃ y, start ≤ y ∧ y % 2 ^ e = 0 ∧ FreeAt (r.content.map Entry.interval) size y ∧
      y + size < word) :
    ∃ i rec, intvlTreeFindFreeGap r.state.tree r.state.data ⟨start, start + size⟩ al =
        some (i, rec) ∧
      LeastFree (r.content.map Entry.interval) start size e i.start ∧ i.stop = i.start + size ∧
      ((∃ b ∈ r.content, rec = b.ptr ∧ b.interval.stop ≤ i.start ∧
          ∀ c ∈ r.content, c.interval.start ≤ b.interval.start ∨ i.stop ≤ c.interval.start) ∨
        rec = 0 ∧ ∀ c ∈ r.content, i.stop ≤ c.interval.start) := by
  obtain ⟨s, hs, hmem⟩ := Good.of_reach h
  obtain ⟨y, hy, hya, hfree, hyw⟩ := hroom
  have hint : ∀ i, i ∈ r.content.map Entry.interval ↔
      i ∈ intervals r.state.tree r.state.data s.toList := by
    intro i
    simp only [List.mem_map, ← hmem, mem_entries, intervals]
    constructor
    · rintro ⟨a, ⟨j, hj, rfl⟩, rfl⟩
      exact ⟨j, hj, rfl⟩
    · rintro ⟨j, hj, rfl⟩
      exact ⟨_, ⟨j, hj, rfl⟩, rfl⟩
  have hiff : ∀ x, FreeAt (r.content.map Entry.interval) size x ↔
      FreeAt (intervals r.state.tree r.state.data s.toList) size x := fun x =>
    forall_congr' fun i => by rw [hint]
  have hs0 : s.toList ≠ [] := by
    obtain ⟨a, l, ha⟩ := List.exists_cons_of_ne_nil hne
    obtain ⟨j, hj, -⟩ := mem_entries.mp ((hmem a).mpr (by simp [ha]))
    exact List.ne_nil_of_mem hj
  obtain ⟨i, rec, hrun, hok⟩ :=
    intvlTreeFindFreeGap_spec hs hs0 he hal hsize hy hya ((hiff y).mp hfree) hyw
  refine ⟨i, rec, hrun, ⟨hok.least.lower, hok.least.aligned, (hiff _).mpr hok.least.free,
    fun y hy hya hfree => hok.least.least y hy hya ((hiff y).mp hfree)⟩, hok.stop, ?_⟩
  obtain ⟨xs, ys, hl, hrec, hxs, hys⟩ := hok.place
  -- an entry is before the gap or after it
  have hcases : ∀ c ∈ r.content, (∃ j ∈ xs, entry r.state j = c) ∨ i.stop ≤ c.interval.start := by
    intro c hc
    obtain ⟨j, hj, rfl⟩ := mem_entries.mp ((hmem c).mpr hc)
    rw [hl] at hj
    rcases List.mem_append.mp hj with hx | hy
    · exact .inl ⟨j, hx, rfl⟩
    · exact .inr (hys j hy)
  have hsorted := hs.sorted_start
  rw [hl] at hsorted
  rcases List.eq_nil_or_concat xs with rfl | ⟨xs, j, rfl⟩
  · refine .inr ⟨by rw [hrec]; exact if_neg (fun hx => hx rfl), fun c hc => ?_⟩
    rcases hcases c hc with ⟨j, hj, -⟩ | hc
    · cases hj
    · exact hc
  · have hj : j ∈ s.toList := by simp [hl]
    rw [List.concat_eq_append, getLastD_append, List.getLastD_cons, List.getLastD_nil,
      prevRecord, if_pos (hs.holds.ne_nil j hj)] at hrec
    refine .inl ⟨entry r.state j, (hmem _).mp (mem_entries.mpr ⟨j, hj, rfl⟩), hrec,
      hxs j (by simp), fun c hc => ?_⟩
    rcases hcases c hc with ⟨k, hk, rfl⟩ | hc
    · rw [List.concat_eq_append] at hk hsorted
      rcases List.mem_append.mp hk with hk | hk
      · have hlt := (List.pairwise_append.mp (List.pairwise_append.mp hsorted).1).2.2 k hk
          j (by simp)
        exact .inl hlt.le
      · rw [List.mem_singleton.mp hk]
        exact .inl le_rfl
    · exact .inr hc

/-- The gap between two intervals. -/
theorem freeGap_least_two_intervals : ∃ r i rec, Reach Run.Empty Call r ∧ r.content.length = 2 ∧
    intvlTreeFindFreeGap r.state.tree r.state.data ⟨16, 48⟩ 16 = some (i, rec) ∧ i.start = 32 := by
  obtain ⟨r, h, hc⟩ := exists_two_intervals
  have hfree : FreeAt (r.content.map Entry.interval) 32 32 := by
    rw [hc]
    intro i hi
    rcases List.mem_pair.mp hi with rfl | rfl
    · exact .inl (by decide)
    · exact .inr (by decide)
  obtain ⟨i, rec, hrun, ⟨-, -, hat, hleast⟩, -⟩ := freeGap_least h (by simp [hc])
    (show 4 < 64 by decide) (show (if 16 = 0 then 1 else 16) = 2 ^ 4 by decide)
    (show 0 < 32 by decide) ⟨32, show 16 ≤ 32 by decide, by decide, hfree, by decide⟩
  refine ⟨r, i, rec,
    h, by rw [hc]; rfl, hrun, Nat.le_antisymm (hleast 32 (by decide) (by decide) hfree) ?_⟩
  rcases hat ⟨16, 32⟩ (by simp [hc]) with hle | hle
  · exact absurd hle (by dsimp only; omega)
  · exact hle

/-! ## Ranges that are not free -/

theorem align_one {x : Nat} (hx : x < word) : align x 1 = x :=
  align_of_aligned (k := 0) (by decide) (by omega) (Nat.mod_one x)

/-- Without alignment the walk does not go back. -/
theorem gapLoop_ge (size : Nat) {prev : Nat} (hlist : Seg t.next t.prev p ys t.nil)
    (hnil : ∀ i ∈ ys, i ≠ t.nil) (hword : ∀ i ∈ ys, m.stop (t.data i) < word)
    (hg : gapStart t m from_ prev < word) (hf : ys.length < fuel) :
    ∃ r rec, gapLoop t m size 1 fuel (ys.headD t.nil) prev from_ = some (r, rec) ∧
      from_ ≤ r.start := by
  have hstart : from_ ≤ (makeAlignedInterval (gapStart t m from_ prev) size 1).start :=
    (le_gapStart t m from_ prev).trans (Nat.le_of_eq (align_one hg).symm)
  induction ys generalizing from_ prev fuel p with
  | nil =>
    obtain _ | fuel := fuel
    · omega
    refine ⟨_, prevRecord t prev, ?_, hstart⟩
    exact if_neg (fun hx => hx rfl)
  | cons i ys ih =>
    obtain _ | fuel := fuel
    · omega
    obtain ⟨-, hnext, hrest⟩ := hlist
    have hi := hnil i (by simp)
    have hiw := hword i (by simp)
    rw [gapLoop, List.headD_cons, if_pos hi]
    split
    · exact ⟨_, _, rfl, hstart⟩
    · have hfrom := le_gapStart t m from_ prev
      have hgap : gapStart t m (max from_ (m.stop (t.data i))) i < word := by
        rw [gapStart, if_pos hi]
        omega
      obtain ⟨r, rec, hrun, hle⟩ := ih hrest (fun j hj => hnil j (by simp [hj]))
        (fun j hj => hword j (by simp [hj])) hgap
        (by rw [List.length_cons] at hf; exact Nat.lt_of_succ_lt_succ hf)
        ((le_gapStart t m _ i).trans (Nat.le_of_eq (align_one hgap).symm))
      refine ⟨r, rec, ?_, by omega⟩
      rwa [hnext]

/-- A range that meets a node: the walk goes past its start. -/
theorem gapLoop_gt (hsize : 0 < size) (hlist : Seg t.next t.prev p ys t.nil)
    (hnil : ∀ i ∈ xs ++ ys, i ≠ t.nil)
    (hsort : ys.Pairwise fun i j => m.start (t.data i) < m.start (t.data j))
    (hne : ∀ i ∈ xs ++ ys, m.start (t.data i) < m.stop (t.data i) ∧ m.stop (t.data i) < word)
    (hys : ∀ i ∈ ys, start ≤ m.start (t.data i))
    (hends : ∀ i ∈ xs, m.stop (t.data i) ≤ gapStart t m start (xs.getLastD t.nil))
    (hword : start + size < word) (hmeets : ¬ FreeAt (intervals t m (xs ++ ys)) size start)
    (hf : ys.length < fuel) :
    ∃ r rec, gapLoop t m size 1 fuel (ys.headD t.nil) (xs.getLastD t.nil) start = some (r, rec) ∧
      start < r.start := by
  -- a node that the range meets
  obtain ⟨i, hi, hlow, hhigh⟩ : ∃ i ∈ xs ++ ys, m.start (t.data i) < start + size ∧
      start < m.stop (t.data i) := by
    by_contra hno
    refine hmeets fun j hj => ?_
    obtain ⟨i, hi, rfl⟩ := List.mem_map.mp hj
    by_contra hdis
    obtain ⟨h1, h2⟩ := not_or.mp hdis
    exact hno ⟨i, hi, Nat.lt_of_not_le h1, Nat.lt_of_not_le h2⟩
  have hgap : gapStart t m start (xs.getLastD t.nil) < word := by
    unfold gapStart
    split
    next hn =>
      have hlast : xs.getLastD t.nil ∈ xs := by
        by_cases hx : xs = []
        · rw [hx] at hn
          exact absurd rfl hn
        · exact getLastD_mem hx t.nil
      have := (hne _ (List.mem_append_left ys hlast)).2
      omega
    · omega
  have hal := align_one hgap
  obtain _ | fuel := fuel
  · omega
  have hge := le_gapStart t m start (xs.getLastD t.nil)
  unfold gapLoop
  cases ys with
  | nil =>
    have hx : i ∈ xs := by simpa using hi
    refine ⟨_, _, if_neg (fun hx => hx rfl), ?_⟩
    show start < align (gapStart t m start (xs.getLastD t.nil)) 1
    rw [hal]
    exact hhigh.trans_le (hends i hx)
  | cons c ys =>
    obtain ⟨-, hnext, hrest⟩ := hlist
    have hc := hnil c (by simp)
    have hcs := hys c (by simp)
    obtain ⟨hcne, hcw⟩ := hne c (by simp)
    rw [List.headD_cons, if_pos hc]
    split
    next hcheck =>
      -- there is room before the first node of the rest, so the range meets one of the front
      refine ⟨_, _, rfl, ?_⟩
      show start < align (gapStart t m start (xs.getLastD t.nil)) 1
      unfold checkGap at hcheck
      simp only [decide_eq_true_eq] at hcheck
      rw [hal] at hcheck ⊢
      rcases List.mem_append.mp hi with hx | hy
      · exact hhigh.trans_le (hends i hx)
      · have hle : m.start (t.data c) ≤ m.start (t.data i) := by
          rcases List.mem_cons.mp hy with rfl | hy
          · exact le_rfl
          · exact ((List.pairwise_cons.mp hsort).1 i hy).le
        omega
    · have hgap' : gapStart t m (max start (m.stop (t.data c))) c < word := by
        rw [gapStart, if_pos hc]
        omega
      obtain ⟨r, rec, hrun, hle⟩ := gapLoop_ge size hrest
        (fun j hj => hnil j (by simp [hj])) (fun j hj => (hne j (by simp [hj])).2) hgap'
        (Nat.lt_of_succ_lt_succ (by rwa [List.length_cons] at hf))
      refine ⟨r, rec, ?_, by omega⟩
      rwa [hnext]

/-- **A search for a range that is not free goes past it.** -/
theorem intvlTreeFindFreeGap_gt (h : Stores st s) (hsize : 0 < size)
    (hmeets : ¬ FreeAt (intervals st.tree st.data s.toList) size start)
    (hword : start + size < word) :
    ∃ r rec, intvlTreeFindFreeGap st.tree st.data ⟨start, start + size⟩ 0 = some (r, rec) ∧
      start < r.start := by
  have hs : s.toList ≠ [] := fun hnil => hmeets (by rw [hnil]; exact fun i hi => by cases hi)
  obtain ⟨xs, ys, hsplit⟩ := h.exists_split hs start
  have hsorted := h.sorted_start
  rw [hsplit.nodes] at hmeets hsorted
  have hmem : ∀ i ∈ xs ++ ys, i ∈ s.toList := fun i hi => by rwa [hsplit.nodes]
  rw [hsplit.search, subWord_of_le (by omega) (by omega), Nat.add_sub_cancel_left]
  exact gapLoop_gt hsize hsplit.list (fun i hi => h.holds.ne_nil i (hmem i hi))
    (List.pairwise_append.mp hsorted).2.1
    (fun i hi => ⟨h.ok.apart.nonempty i (hmem i hi), h.word i (hmem i hi)⟩) hsplit.above hsplit.ends
    hword hmeets (by have := h.holds.nodes; rw [hsplit.nodes, List.length_append] at this; omega)

end Osdev.Intvl
