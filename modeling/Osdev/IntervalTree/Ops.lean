import Osdev.IntervalTree.Search
import Osdev.Lib.Run

/-!
# Runs of the interval tree

Insertion, deletion and updates of the end of an interval keep `Stores`, and change the entries as
they should. In every run that keeps the intervals apart, both searches answer as a search through
the list of the live intervals would (`intvlTree_search_complete`).
-/

namespace Osdev.Intvl

open Osdev.Lib Osdev.Lib.ColorTree Osdev.Rb

variable {st : State Intervals} {s : ColorTree Nat} {D : Nat → Nat} {m m₀ : Intervals} {N z : Nat}
variable {t : RbTree} {j p data : Nat} {e : Entry} {i : Interval} {de : Int}

/-- Two intervals that do not meet. -/
def Interval.Disjoint (i j : Interval) : Prop := i.stop ≤ j.start ∨ j.stop ≤ i.start

theorem Ok.self (h : Ok D N m₀ z m s) (N' : Nat) (hN : s.toList.length ≤ N') :
    Ok D N' m z m s := by
  obtain ⟨h1, h2, -, -, h5, h6, h7, h8, -⟩ := h
  rw [← h1, ← h2] at h5 h8
  exact ⟨rfl, rfl, rfl, rfl, h5, h6, h7, h8, hN⟩

/-- Recomputing from the exempt node makes the maxima fit along its path. -/
theorem Ok.recalculate (h : Ok t.data N m₀ z m s) (hN : N ≤ t.nodes + 1)
    (hhere : Here t [] s) (hz : z ∈ s.toList) :
    ∃ m', recalculateMinMax t m z = some m' ∧ Ok t.data N m₀ 0 m' s := by
  have hnd := h.apart.nodup
  obtain ⟨k, c, l, r, rfl⟩ := ColorTree.exists_focus hz
  obtain ⟨hst, hsp, hda, hno, hap, hinj, h0, hfits, hlen⟩ := h
  obtain ⟨⟨-, hl, hr⟩, hk⟩ := fits_of_plug hfits
  obtain ⟨hnds, -, hsk⟩ := nodup_plug.mp hnd
  obtain ⟨-, -, hzl, hzr, -⟩ := (nodup_join (d := .left)).mp hnds
  have hl' := ColorTree.fits_transfer (absurd · hzl)
    (fun _ _ => ⟨rfl, fun (_ : _ ≠ 0) => ⟨rfl, rfl⟩⟩) hl
  have hr' := ColorTree.fits_transfer (absurd · hzr)
    (fun _ _ => ⟨rfl, fun (_ : _ ≠ 0) => ⟨rfl, rfl⟩⟩) hr
  have hk' := Ctx.fits_transfer (absurd · (hsk z (by simp)))
    (fun _ _ => ⟨rfl, fun (_ : _ ≠ 0) => ⟨rfl, rfl⟩⟩) hk
  rw [← hst, ← hsp] at hl' hr' hk' hap
  obtain ⟨m', hrun, hsame, hfits'⟩ := recalculateMinMax_spec
    (here_cons.mpr (here_plug.mpr hhere) : Here t (⟨.left, c, z, r⟩ :: k) l)
    hap hinj h0 hl' ⟨hr', hk'⟩ (hlen.trans hN)
  refine ⟨m', hrun, hsame.start.trans hst, hsame.stop.trans hsp, hsame.data.trans hda,
    hsame.node.trans hno, ?_, hinj, h0, ?_, hlen⟩
  · rwa [← hst, ← hsp]
  · rwa [← hst, ← hsp]

/-! ## Records of nodes -/

section Records

variable {st' : State Intervals} {s' : ColorTree Nat} {j : Nat}

/-- The record of a node names the node and its key, and ends before the end of the addresses. -/
structure Filed (st : State Intervals) (j : Nat) : Prop where
  node : st.data.node (st.tree.data j) = j
  key : st.tree.key j = st.data.start (st.tree.data j)
  word : st.data.stop (st.tree.data j) < word

/-- A node has the same record in two states, its minimum and maximum apart. -/
structure SameRecord (st st' : State Intervals) (j : Nat) : Prop where
  ptr : st'.tree.data j = st.tree.data j
  key : st'.tree.key j = st.tree.key j
  node : st'.data.node (st.tree.data j) = st.data.node (st.tree.data j)
  start : st'.data.start (st.tree.data j) = st.data.start (st.tree.data j)
  stop : st'.data.stop (st.tree.data j) = st.data.stop (st.tree.data j)
  data : st'.data.data (st.tree.data j) = st.data.data (st.tree.data j)

theorem Stores.of_filed (hh : Holds st.tree s) (hok : Ok st.tree.data N m₀ 0 st.data s)
    (hf : ∀ j ∈ s.toList, Filed st j) : Stores st s :=
  ⟨hh, hok.self _ le_rfl, fun j hj => (hf j hj).node, fun j hj => (hf j hj).key,
    fun j hj => (hf j hj).word⟩

theorem SameRecord.filed (h : SameRecord st st' j) (hs : Stores st s) (hj : j ∈ s.toList) :
    Filed st' j where
  node := by rw [h.ptr, h.node, hs.nodePtr j hj]
  key := by rw [h.ptr, h.key, h.start, hs.key j hj]
  word := by
    rw [h.ptr, h.stop]
    exact hs.word j hj

theorem SameRecord.entry (h : SameRecord st st' j) : entry st' j = entry st j := by
  rw [Intvl.entry, Intervals.interval, h.ptr, h.start, h.stop, h.data]
  rfl

/-- The entries, when all records but one are as before. -/
theorem entries_middle {xs ys : List Nat} (hids : s'.toList = xs ++ z :: ys)
    (h : ∀ j ∈ xs ++ ys, SameRecord st st' j) :
    entries st' s' = xs.map (entry st) ++ entry st' z :: ys.map (entry st) := by
  rw [entries, hids, List.map_append, List.map_cons,
    List.map_congr_left fun j hj => (h j (by simp [hj])).entry,
    List.map_congr_left fun j hj => (h j (by simp [hj])).entry]

end Records

/-! ## Insertion -/

/-- The records after `intvl_tree_insert` has filled in the one at `p`. -/
def withRecord (m : Intervals) (p : Nat) (i : Interval) (data : Nat) : Intervals :=
  { m with start := fun q => if q = p then i.start else m.start q
           stop := fun q => if q = p then i.stop else m.stop q
           data := fun q => if q = p then data else m.data q }

section Insert

variable {p data : Nat} {i : Interval}

/-- What a caller of `intvl_tree_insert` and `kmalloc` provide. -/
structure CanInsert (st : State Intervals) (l : List Entry) (p z : Nat) (i : Interval) : Prop where
  nonempty : i.start < i.stop
  word : i.stop < word
  disjoint : ∀ e ∈ l, i.Disjoint e.interval
  ptr : p ≠ 0 ∧ ∀ e ∈ l, e.ptr ≠ p
  node : z ≠ 0 ∧ z ≠ st.tree.nil ∧ ∀ e ∈ l, e.node ≠ z

theorem CanInsert.notMem (hc : CanInsert st (entries st s) p z i) : z ∉ s.toList := by
  intro hz
  exact hc.node.2.2 _ (mem_entries.mpr ⟨z, hz, rfl⟩) rfl

theorem CanInsert.ptr_ne (hc : CanInsert st (entries st s) p z i) (hj : j ∈ s.toList) :
    st.tree.data j ≠ p :=
  hc.ptr.2 _ (mem_entries.mpr ⟨j, hj, rfl⟩)

/-- The other records are as before. -/
theorem CanInsert.same (hc : CanInsert st (entries st s) p z i) (data : Nat)
    (hj : j ∈ s.toList) :
    SameRecord st ⟨fresh st.tree z i.start p, withRecord st.data p i data⟩ j := by
  have hjz : j ≠ z := fun he => hc.notMem (he ▸ hj)
  have hjp := hc.ptr_ne hj
  exact ⟨if_neg hjz, if_neg hjz, rfl, if_neg hjp, if_neg hjp, if_neg hjp⟩

/-- Before the new node has a maximum, everything fits except along its path. -/
theorem Stores.ok_linked (h : Stores st s) (hc : CanInsert st (entries st s) p z i)
    {k : List (Frame Nat)} (hk : plug leaf k = s)
    (hsort : (plug (node .red leaf z leaf) k).toList.Pairwise
      (fun a b => (fresh st.tree z i.start p).key a < (fresh st.tree z i.start p).key b)) :
    Ok (fresh st.tree z i.start p).data (s.toList.length + 1) (withRecord st.data p i data) z
      (withRecord st.data p i data) (plug (node .red leaf z leaf) k) := by
  subst hk
  have hmem : ∀ j, j ∈ (plug (node .red leaf z leaf) k).toList ↔ j = z ∨
      j ∈ (plug leaf k).toList := by
    simp
  have hdz : (fresh st.tree z i.start p).data z = p := if_pos rfl
  have hkz : (fresh st.tree z i.start p).key z = i.start := if_pos rfl
  have hpz : (withRecord st.data p i data).start p = i.start ∧
      (withRecord st.data p i data).stop p = i.stop := ⟨if_pos rfl, if_pos rfl⟩
  have hptr : ∀ j ∈ (plug leaf k).toList,
      (fresh st.tree z i.start p).data j = st.tree.data j := fun j hj => (hc.same data hj).ptr
  have hstart : ∀ j ∈ (plug leaf k).toList, (withRecord st.data p i data).start
      ((fresh st.tree z i.start p).data j) = st.data.start (st.tree.data j) :=
    fun j hj => (hptr j hj).symm ▸ (hc.same data hj).start
  have hstop : ∀ j ∈ (plug leaf k).toList, (withRecord st.data p i data).stop
      ((fresh st.tree z i.start p).data j) = st.data.stop (st.tree.data j) :=
    fun j hj => (hptr j hj).symm ▸ (hc.same data hj).stop
  have hkey : ∀ j ∈ (plug leaf k).toList,
      (fresh st.tree z i.start p).key j = st.data.start (st.tree.data j) :=
    fun j hj => (hc.same data hj).key.trans (h.key j hj)
  have hdis : ∀ j ∈ (plug leaf k).toList, i.stop ≤ st.data.start (st.tree.data j) ∨
      st.data.stop (st.tree.data j) ≤ i.start :=
    fun j hj => hc.disjoint _ (mem_entries.mpr ⟨j, hj, rfl⟩)
  have hne := h.ok.apart.nonempty
  refine ⟨rfl, rfl, rfl, rfl, ⟨?_, ?_⟩, ?_, ?_, ?_, ?_⟩
  · -- the order of the keys is the order of the intervals
    refine hsort.imp_of_mem fun {a b} ha hb hlt => ?_
    rcases (hmem a).mp ha with rfl | ha' <;> rcases (hmem b).mp hb with rfl | hb'
    · exact absurd hlt (Nat.lt_irrefl _)
    · rw [hkey b hb'] at hlt
      rw [hdz, hstart b hb']
      have h1 := hdis b hb'
      have h2 : st.data.start (st.tree.data b) < st.data.stop (st.tree.data b) := hne b hb'
      omega
    · rw [hkey a ha'] at hlt
      rw [hdz, hstop a ha']
      have h1 := hdis a ha'
      have h2 := hc.nonempty
      omega
    · rw [hkey a ha', hkey b hb'] at hlt
      rw [hstop a ha', hstart b hb']
      exact h.ok.apart.end_le_start ha' hb' hlt
  · intro j hj
    rcases (hmem j).mp hj with rfl | hj
    · rw [hdz, hpz.1, hpz.2]
      exact hc.nonempty
    · rw [hstart j hj, hstop j hj]
      exact hne j hj
  · intro a ha b hb he
    rcases (hmem a).mp ha with rfl | ha' <;> rcases (hmem b).mp hb with rfl | hb'
    · rfl
    · rw [hdz, hptr b hb'] at he
      exact absurd he.symm (hc.ptr_ne hb')
    · rw [hdz, hptr a ha'] at he
      exact absurd he (hc.ptr_ne ha')
    · rw [hptr a ha', hptr b hb'] at he
      exact h.ok.inj a ha' b hb' he
  · intro j hj
    rcases (hmem j).mp hj with rfl | hj
    · rw [hdz]
      exact ⟨hc.node.1, hc.ptr.1⟩
    · rw [hptr j hj]
      exact h.ok.ne_zero j hj
  · obtain ⟨-, hfk⟩ := fits_of_plug h.ok.fits
    refine fits_plug_exempt ⟨fun hx => absurd (by simp) hx, trivial, trivial⟩
      (by simp) (Ctx.fits_transfer (fun hm => absurd (by simpa using hm) (zero_notMem h.ok))
        (fun j hj => ?_) hfk)
    have hj : j ∈ (plug leaf k).toList := by simpa using hj
    exact ⟨hstart j hj, fun _ => ⟨hstop j hj, congrArg st.data.max (hptr j hj)⟩⟩
  · simp only [toList_plug, toList, List.length_append, List.length_cons, List.length_nil]
    omega

/-- `post_insert_node` makes the maxima fit along the path of the new node. -/
theorem Ok.postInsert (hD : t.data = D) (hN : N ≤ t.nodes + 1) (hhere : Here t [] s)
    (hz : z ∈ s.toList) (h : Ok D N m₀ z m s) : ∃ m', postInsertCallback t z m = some m' ∧
      Ok D N { m₀ with node := fun q => if q = D z then z else m₀.node q } 0 m' s := by
  subst hD
  have hnode : Ok t.data N { m₀ with node := fun q => if q = t.data z then z else m₀.node q } z
      { m with node := fun q => if q = t.data z then z else m.node q } s :=
    ⟨h.start, h.stop, h.data, by rw [h.nodePtr], h.apart, h.inj, h.ne_zero, h.fits, h.length⟩
  exact hnode.recalculate hN hhere hz

/-- **Insertion adds one entry, at its place in the order.** -/
theorem intvlTreeInsert_spec (h : Stores st s) (hc : CanInsert st (entries st s) p z i)
    (data : Nat) : ∃ st' s' xs ys, intvlTreeInsert st p z i data = some st' ∧ Stores st' s' ∧
      entries st s = xs ++ ys ∧ entries st' s' = xs ++ ⟨z, p, i, data⟩ :: ys ∧
      st'.tree.nil = st.tree.nil := by
  have hkey : ∀ j ∈ s.toList, st.tree.key j ≠ i.start := by
    intro j hj
    have h1 := hc.disjoint _ (mem_entries.mpr ⟨j, hj, rfl⟩)
    have h2 : st.data.start (st.tree.data j) < st.data.stop (st.tree.data j) :=
      h.ok.apart.nonempty j hj
    have h3 := hc.nonempty
    have h4 : i.stop ≤ st.data.start (st.tree.data j) ∨
      st.data.stop (st.tree.data j) ≤ i.start := h1
    rw [h.key j hj]
    omega
  have hnodes := h.holds.nodes
  obtain ⟨st', s', xs, ys, hrun, hh, hids, hids', hnil, hk, hd, hK⟩ :=
    rbTreeInsert_spec events ⟨st.tree, withRecord st.data p i data⟩ z i.start p
      h.holds hc.node.2.1 hc.notMem hkey
      (fun t0 _ _ hd hn => events_ok hd (by rw [hn]; dsimp only; omega))
      (fun k hk hsort => h.ok_linked hc hk hsort)
      (fun t m s' _ hd hn hhere hz _ hok => hok.postInsert hd
        (by rw [hn]; dsimp only; omega) hhere hz)
  have hsame : ∀ j ∈ s.toList, SameRecord st st' j := by
    intro j hj
    obtain ⟨h1, h2, -, h4, h5, h6⟩ := hc.same data hj
    have hnode : st'.data.node (st.tree.data j) = st.data.node (st.tree.data j) := by
      rw [hK.nodePtr]
      exact if_neg
        (by rw [show (fresh st.tree z i.start p).data z = p from if_pos rfl]; exact hc.ptr_ne hj)
    exact ⟨hd ▸ h1, hk ▸ h2, hnode, hK.start ▸ h4, hK.stop ▸ h5, hK.data ▸ h6⟩
  have hz : Filed st' z :=
    ⟨by simp [hd, hK.nodePtr], by simp [hd, hk, hK.start, fresh, withRecord],
      by simp [hd, hK.stop, fresh, withRecord, hc.word]⟩
  have hentry : entry st' z = ⟨z, p, i, data⟩ := by
    simp [entry, Intervals.interval, hd, hK.start, hK.stop, hK.data, fresh, withRecord]
  refine ⟨st', s', xs.map (entry st), ys.map (entry st), hrun,
    .of_filed hh (hd ▸ hK) fun j hj => ?_, ?_, ?_, hnil⟩
  · rw [hids', List.perm_middle.mem_iff, List.mem_cons, ← hids] at hj
    rcases hj with rfl | hj
    · exact hz
    · exact (hsame j hj).filed h hj
  · rw [entries, hids, List.map_append]
  · rw [entries_middle hids' (hids ▸ hsame), hentry]

end Insert

/-! ## Deletion -/

theorem Stores.entry_inj (h : Stores st s) {i : Nat} (hi : i ∈ s.toList) (hj : j ∈ s.toList)
    (he : st.data.start (st.tree.data i) = st.data.start (st.tree.data j)) : i = j :=
  h.holds.key_inj hi hj (by rw [h.key i hi, h.key j hj, he])

/-- **Deletion takes one entry out.** -/
theorem intvlTreeDelete_spec (h : Stores st s) (he : e ∈ entries st s)
    (hi : i.start = e.interval.start) : ∃ st' s' xs ys, intvlTreeDelete st i = some st' ∧
      Stores st' s' ∧ entries st s = xs ++ e :: ys ∧ entries st' s' = xs ++ ys ∧
      st'.tree.nil = st.tree.nil := by
  obtain ⟨z, hz, rfl⟩ := mem_entries.mp he
  have hi : i.start = st.data.start (st.tree.data z) := hi
  obtain ⟨x, hx, hxk, hfind⟩ : ∃ x ∈ s.toList, st.tree.key x = i.start ∧
      rbTreeFindNode st.tree i.start = some x := by
    rcases rbTreeFindNode_spec h.holds i.start with hf | ⟨hno, -⟩
    · exact hf
    · exact absurd ((h.key z hz).trans hi.symm) (hno z hz)
  have hxz : x = z := h.entry_inj hx hz (by rw [← h.key x hx, hxk, hi])
  subst hxz
  have hnodes := h.holds.nodes
  obtain ⟨st', s', xs, ys, hrun, hh, hids, hids', hnil, hk, hd, hok⟩ :=
    rbTreeDeleteNode_spec events st h.holds hx h.ok
      ⟨fun t0 hn _ hd => events_replaceOk hd (by rw [hn]; exact h.holds.nilData),
        fun t0 _ _ hd hn => events_ok hd (by omega)⟩
  have hsame : ∀ j, SameRecord st st' j := fun j =>
    ⟨congrFun hd j, congrFun hk j, congrFun hok.nodePtr _, congrFun hok.start _,
      congrFun hok.stop _, congrFun hok.data _⟩
  refine ⟨st', s', xs.map (entry st), ys.map (entry st), ?_,
    .of_filed hh (hd ▸ hok) fun j hj => (hsame j).filed h ?_, ?_, ?_, hnil⟩
  · rw [intvlTreeDelete, rbTreeDelete, hfind]
    simp only [Option.bind_eq_bind, Option.bind_some, h.holds.not_isNil hx, Bool.false_eq_true,
      if_false, if_neg (h.holds.ne_nil x hx), hrun]
  · rw [hids, List.perm_middle.mem_iff, ← hids']
    exact List.mem_cons_of_mem _ hj
  · rw [entries, hids, List.map_append, List.map_cons]
  · rw [entries, List.map_congr_left fun j _ => (hsame j).entry, hids', List.map_append]

/-! ## Updates of the end -/

theorem addOffset_zero {x : Nat} (h : x < word) : addOffset x 0 = x := by
  rw [addOffset, Int.emod_eq_of_lt (by omega) (by omega)]
  rfl

theorem addOffset_lt (x : Nat) (d : Int) : addOffset x d < word := by
  unfold addOffset
  have h1 : (0 : Int) ≤ (x + d) % word := Int.emod_nonneg _ (by decide)
  have h2 : (x + d) % (word : Int) < word := Int.emod_lt_of_pos _ (by decide)
  omega

/-- The records when `recalculate_min_max` starts, for the record `p` with another end. -/
def withStop (m : Intervals) (p stop : Nat) : Intervals :=
  { m with stop := fun q => if q = p then stop else m.stop q
           min := fun q => if q = p then min (m.min p) (m.start p) else m.min q
           max := fun q => if q = p then max (m.max p) stop else m.max q }

theorem intvlTreeUpdateInterval_eq (hw : st.data.start p < word) :
    intvlTreeUpdateInterval st p 0 de =
      (recalculateMinMax st.tree (withStop st.data p (addOffset (st.data.stop p) de))
        (st.data.node p)).map fun m => { st with data := m } := by
  have hstart : (fun q => if q = p then st.data.start p else st.data.start q) = st.data.start := by
    funext q
    split
    · next hq => rw [hq]
    · rfl
  unfold intvlTreeUpdateInterval
  simp only [addOffset_zero hw, hstart, Intervals.setMinMax, if_true]
  cases h : recalculateMinMax st.tree (withStop st.data p (addOffset (st.data.stop p) de))
    (st.data.node p) with
  | none =>
    unfold withStop at h
    rw [h]
    rfl
  | some m =>
    unfold withStop at h
    rw [h]
    rfl

/-- **An update of the end changes one entry.** -/
theorem intvlTreeUpdateInterval_spec (h : Stores st s) (he : e ∈ entries st s) (de : Int)
    (hne : e.interval.start < addOffset e.interval.stop de)
    (hdis : ∀ e' ∈ entries st s, e'.node ≠ e.node →
      Interval.Disjoint ⟨e.interval.start, addOffset e.interval.stop de⟩ e'.interval) :
    ∃ st' xs ys, intvlTreeUpdateInterval st e.ptr 0 de = some st' ∧ Stores st' s ∧
      entries st s = xs ++ e :: ys ∧ entries st' s = xs ++
        { e with interval := ⟨e.interval.start, addOffset e.interval.stop de⟩ } :: ys ∧
      st'.tree = st.tree := by
  obtain ⟨x, hx, rfl⟩ := mem_entries.mp he
  have hxe : st.data.start (st.tree.data x) < st.data.stop (st.tree.data x) :=
    h.ok.apart.nonempty x hx
  have hxw := h.word x hx
  show ∃ st' xs ys, intvlTreeUpdateInterval st (st.tree.data x) 0 de = some st' ∧ _
  rw [intvlTreeUpdateInterval_eq (by omega), h.nodePtr x hx]
  have hne : st.data.start (st.tree.data x) < addOffset (st.data.stop (st.tree.data x)) de := hne
  have hdis : ∀ j ∈ s.toList, j ≠ x →
      addOffset (st.data.stop (st.tree.data x)) de ≤ st.data.start (st.tree.data j) ∨
        st.data.stop (st.tree.data j) ≤ st.data.start (st.tree.data x) :=
    fun j hj hjx => hdis _ (mem_entries.mpr ⟨j, hj, rfl⟩) hjx
  have hstop' := addOffset_lt (st.data.stop (st.tree.data x)) de
  obtain ⟨stop', hstop⟩ : ∃ n, addOffset (st.data.stop (st.tree.data x)) de = n := ⟨_, rfl⟩
  rw [hstop] at hne hstop'
  simp only [hstop] at hdis ⊢
  -- the other nodes have other records
  have hother : ∀ j ∈ s.toList, j ≠ x → st.tree.data j ≠ st.tree.data x :=
    fun j hj hjx he => hjx (h.ok.inj j hj x hx he)
  have hsame : ∀ j ∈ s.toList, j ≠ x →
      (withStop st.data (st.tree.data x) stop').stop (st.tree.data j) =
        st.data.stop (st.tree.data j) ∧
      (withStop st.data (st.tree.data x) stop').max (st.tree.data j) =
        st.data.max (st.tree.data j) :=
    fun j hj hjx => ⟨if_neg (hother j hj hjx), if_neg (hother j hj hjx)⟩
  have hsx : (withStop st.data (st.tree.data x) stop').stop (st.tree.data x) = stop' := if_pos rfl
  have hap : Apart (fun i => (withStop st.data (st.tree.data x) stop').start (st.tree.data i))
      (fun i => (withStop st.data (st.tree.data x) stop').stop (st.tree.data i)) s.toList := by
    constructor
    · refine h.ok.apart.order.imp_of_mem fun {a b} ha hb hle => ?_
      obtain rfl | hax := eq_or_ne a x
      · rw [hsx]
        show stop' ≤ st.data.start (st.tree.data b)
        have hbe : st.data.start (st.tree.data b) < st.data.stop (st.tree.data b) :=
          h.ok.apart.nonempty b hb
        have hba : b ≠ a := by
          rintro rfl
          omega
        have := hdis b hb hba
        omega
      · rwa [(hsame a ha hax).1]
    · intro j hj
      obtain rfl | hjx := eq_or_ne j x
      · rwa [hsx]
      · rw [(hsame j hj hjx).1]
        exact h.ok.apart.nonempty j hj
  have hnodes := h.holds.nodes
  have hexempt : Ok st.tree.data s.toList.length (withStop st.data (st.tree.data x) stop') x
      (withStop st.data (st.tree.data x) stop') s :=
    ⟨rfl, rfl, rfl, rfl, hap, h.ok.inj, h.ok.ne_zero, ColorTree.fits_transfer
      (absurd · (zero_notMem h.ok)) (fun j hj => ⟨rfl, hsame j hj⟩) h.ok.fits, le_rfl⟩
  obtain ⟨m', hrun, hok⟩ := hexempt.recalculate (by omega) h.holds.here hx
  have hrec : ∀ j ∈ s.toList, j ≠ x → SameRecord st { st with data := m' } j := fun j hj hjx =>
    ⟨rfl, rfl, congrFun hok.nodePtr _, congrFun hok.start _,
      (congrFun hok.stop _).trans (hsame j hj hjx).1, congrFun hok.data _⟩
  have hentry : entry { st with data := m' } x =
      { entry st x with interval := ⟨st.data.start (st.tree.data x), stop'⟩ } := by
    rw [entry, Intervals.interval, hok.start, hok.stop, hok.data, hsx]
    rfl
  obtain ⟨xs, ys, hids⟩ := List.append_of_mem hx
  have hnd := h.holds.nodup
  rw [hids, List.perm_middle.nodup_iff, List.nodup_cons] at hnd
  refine ⟨{ st with data := m' }, xs.map (entry st), ys.map (entry st),
    congrArg (Option.map fun m => { st with data := m }) hrun,
    .of_filed h.holds hok fun j hj => ?_, ?_, ?_, rfl⟩
  · obtain rfl | hjx := eq_or_ne j x
    · exact ⟨(congrFun hok.nodePtr _).trans (h.nodePtr j hj),
        (h.key j hj).trans (congrFun hok.start _).symm,
        ((congrFun hok.stop _).trans hsx).trans_lt hstop'⟩
    · exact (hrec j hj hjx).filed h hj
  · rw [entries, hids, List.map_append, List.map_cons]
  · rw [entries_middle hids fun j hj => hrec j ?_ fun he => hnd.1 (he ▸ hj), hentry, ← hstop]
    · rfl
    · rw [hids, List.perm_middle.mem_iff]
      exact List.mem_cons_of_mem _ hj

/-! ## Runs -/

/-- An interval tree, and the intervals that are stored in it. -/
structure Run where
  state : State Intervals
  content : List Entry

/-- The operations of a run. -/
inductive Op where
  /-- `intvl_tree_insert`, when `kmalloc` returns `ptr` and `node` -/
  | insert (ptr node : Nat) (interval : Interval) (data : Nat)
  | delete (interval : Interval)
  /-- `intvl_tree_update_interval` of the end only -/
  | updateEnd (ptr : Nat) (de : Int)

namespace Run

def step (r : Run) : Op → Option Run
  | .insert p z i data => do
    let st ← intvlTreeInsert r.state p z i data
    some ⟨st, ⟨z, p, i, data⟩ :: r.content⟩
  | .delete i => do
    let st ← intvlTreeDelete r.state i
    some ⟨st, r.content.filter fun e => e.interval.start ≠ i.start⟩
  | .updateEnd p de => do
    let st ← intvlTreeUpdateInterval r.state p 0 de
    some ⟨st, r.content.map fun e => if e.ptr = p then
      { e with interval := ⟨e.interval.start, addOffset e.interval.stop de⟩ } else e⟩

/-- An empty tree, made in memory with any contents. -/
def Empty (r : Run) : Prop :=
  ∃ mem nil records, r = ⟨⟨createRbTree mem nil, records⟩, []⟩

end Run

/-- Calls that keep the stored intervals not empty and apart. -/
def Op.Valid (r : Run) : Op → Prop
  | .insert p z i _ => CanInsert r.state r.content p z i
  | .delete i => ∃ e ∈ r.content, i.start = e.interval.start
  | .updateEnd p de => ∃ e ∈ r.content, e.ptr = p ∧
      e.interval.start < addOffset e.interval.stop de ∧
      ∀ e' ∈ r.content, e'.node ≠ e.node →
        Interval.Disjoint ⟨e.interval.start, addOffset e.interval.stop de⟩ e'.interval

def Call (r : Run) (o : Op) (r' : Run) : Prop := o.Valid r ∧ r.step o = some r'

/-- The searches answer as a search through the list of stored intervals would. -/
structure Complete (r : Run) : Prop where
  getPoint : ∀ p < word,
    (∃ e ∈ r.content, (e.interval.start ≤ p ∧ p < e.interval.stop) ∧
        intvlTreeGetPoint r.state.tree r.state.data p = some e.data) ∨
      (∀ e ∈ r.content, ¬ (e.interval.start ≤ p ∧ p < e.interval.stop)) ∧
        intvlTreeGetPoint r.state.tree r.state.data p = some 0
  find : ∀ q : Interval,
    (∃ e ∈ r.content, overlaps q e.interval = true ∧
        intvlTreeFind r.state.tree r.state.data q = some e.ptr) ∨
      (∀ e ∈ r.content, overlaps q e.interval = false) ∧
        intvlTreeFind r.state.tree r.state.data q = some 0
  /-- every valid call returns -/
  returns : ∀ o : Op, o.Valid r → ∃ r', r.step o = some r'

/-- The invariant: the entries of the tree are the stored intervals. -/
def Good (r : Run) : Prop := ∃ s, Stores r.state s ∧ ∀ e, e ∈ entries r.state s ↔ e ∈ r.content

theorem stores_createRbTree (mem : RbTree) (nil : Nat) (records : Intervals) :
    Stores ⟨createRbTree mem nil, records⟩ leaf where
  holds := holds_createRbTree mem nil
  ok := by
    refine ⟨rfl, rfl, rfl, rfl, ⟨.nil, ?_⟩, ?_, ?_, trivial, le_rfl⟩
    · simp [toList]
    · simp [toList]
    · simp [toList]
  nodePtr := by simp [toList]
  key := by simp [toList]
  word := by simp [toList]

theorem Stores.pairwise_start (h : Stores st s) :
    (entries st s).Pairwise fun a b => a.interval.start < b.interval.start := by
  refine List.pairwise_map.mpr (h.holds.sorted.imp_of_mem fun {a b} ha hb hlt => ?_)
  rwa [h.key a ha, h.key b hb] at hlt

theorem Stores.pairwise_ptr (h : Stores st s) :
    (entries st s).Pairwise fun a b => a.ptr ≠ b.ptr := by
  refine List.pairwise_map.mpr (h.holds.nodup.imp_of_mem fun {a b} ha hb hne he => ?_)
  exact hne (h.ok.inj a ha b hb he)

/-- A property of pairs holds between the middle element and every other. -/
theorem pairwise_middle {α : Type} {R : α → α → Prop} {xs ys : List α} {e : α}
    (h : (xs ++ e :: ys).Pairwise R) : ∀ a ∈ xs ++ ys, R a e ∨ R e a := by
  obtain ⟨-, h2, h3⟩ := List.pairwise_append.mp h
  intro a ha
  rcases List.mem_append.mp ha with ha | ha
  · exact Or.inl (h3 a ha e (by simp))
  · exact Or.inr ((List.pairwise_cons.mp h2).1 a ha)

namespace Good

variable {r : Run}

theorem empty (h : r.Empty) : Good r := by
  obtain ⟨mem, nil, records, rfl⟩ := h
  exact ⟨leaf, stores_createRbTree mem nil records, fun e => by simp [entries, toList]⟩

theorem insert (h : Good r)
    (hv : (Op.insert p z i data).Valid r) :
    ∃ r', r.step (.insert p z i data) = some r' ∧ r'.state.tree.nil = r.state.tree.nil ∧
      Good r' := by
  obtain ⟨s, hs, hmem⟩ := h
  have hc : CanInsert r.state (entries r.state s) p z i :=
    ⟨hv.nonempty, hv.word, fun e he => hv.disjoint e ((hmem e).mp he),
      ⟨hv.ptr.1, fun e he => hv.ptr.2 e ((hmem e).mp he)⟩,
      ⟨hv.node.1, hv.node.2.1, fun e he => hv.node.2.2 e ((hmem e).mp he)⟩⟩
  obtain ⟨st', s', xs, ys, hrun, hs', hent, hent', hnil⟩ := intvlTreeInsert_spec hs hc data
  refine ⟨⟨st', ⟨z, p, i, data⟩ :: r.content⟩, ?_, hnil, s', hs', fun e => ?_⟩
  · unfold Run.step
    dsimp only
    rw [hrun]
    rfl
  · rw [hent', List.perm_middle.mem_iff, List.mem_cons, List.mem_cons, ← hent, hmem e]

theorem delete (h : Good r) (hv : (Op.delete i).Valid r) :
    ∃ r', r.step (.delete i) = some r' ∧ Good r' := by
  obtain ⟨s, hs, hmem⟩ := h
  obtain ⟨e, he, hei⟩ := hv
  obtain ⟨st', s', xs, ys, hrun, hs', hent, hent', -⟩ :=
    intvlTreeDelete_spec hs ((hmem e).mpr he) hei
  refine ⟨⟨st', r.content.filter fun e => e.interval.start ≠ i.start⟩, ?_, s', hs', fun a => ?_⟩
  · unfold Run.step
    dsimp only
    rw [hrun]
    rfl
  · have hpw := hs.pairwise_start
    rw [hent] at hpw
    simp only [List.mem_filter, decide_eq_true_eq]
    rw [← hmem a, hent, hent', List.perm_middle.mem_iff, List.mem_cons, hei]
    constructor
    · intro ha
      refine ⟨Or.inr ha, ?_⟩
      have := pairwise_middle hpw a ha
      omega
    · rintro ⟨rfl | ha, hne⟩
      · exact absurd rfl hne
      · exact ha

theorem updateEnd (h : Good r) (hv : (Op.updateEnd p de).Valid r) :
    ∃ r', r.step (.updateEnd p de) = some r' ∧ Good r' := by
  obtain ⟨s, hs, hmem⟩ := h
  obtain ⟨e, he, rfl, hne, hdis⟩ := hv
  obtain ⟨st', xs, ys, hrun, hs', hent, hent', -⟩ := intvlTreeUpdateInterval_spec hs
    ((hmem e).mpr he) de hne (fun e' he' => hdis e' ((hmem e').mp he'))
  refine ⟨⟨st', r.content.map fun a => if a.ptr = e.ptr then
    { a with interval := ⟨a.interval.start, addOffset a.interval.stop de⟩ } else a⟩, ?_, s, hs',
    fun a => ?_⟩
  · unfold Run.step
    dsimp only
    rw [hrun]
    rfl
  · -- only `e` has its record
    have hpw := hs.pairwise_ptr
    rw [hent] at hpw
    have hother : ∀ b ∈ xs ++ ys, b.ptr ≠ e.ptr := by
      intro b hb
      rcases pairwise_middle hpw b hb with hx | hx
      · exact hx
      · exact Ne.symm hx
    simp only [List.mem_map]
    rw [hent', List.perm_middle.mem_iff, List.mem_cons]
    constructor
    · rintro (rfl | ha)
      · exact ⟨e, he, if_pos rfl⟩
      · refine ⟨a, (hmem a).mp ?_, if_neg (hother a ha)⟩
        rw [hent, List.perm_middle.mem_iff]
        exact List.mem_cons_of_mem _ ha
    · rintro ⟨b, hb, rfl⟩
      have hb' := (hmem b).mpr hb
      rw [hent, List.perm_middle.mem_iff, List.mem_cons] at hb'
      rcases hb' with rfl | hb'
      · exact Or.inl (if_pos rfl)
      · rw [if_neg (hother b hb')]
        exact Or.inr hb'

/-- Every valid call returns, and keeps the invariant. -/
theorem step {o : Op} (h : Good r) (hv : o.Valid r) : ∃ r', r.step o = some r' ∧ Good r' := by
  cases o with
  | insert p z i data =>
    obtain ⟨r', hr, -, hg⟩ := h.insert hv
    exact ⟨r', hr, hg⟩
  | delete i => exact h.delete hv
  | updateEnd p de => exact h.updateEnd hv

theorem complete (h : Good r) : Complete r where
  getPoint := by
    obtain ⟨s, hs, hmem⟩ := h
    intro p hp
    simp only [← hmem]
    exact intvlTreeGetPoint_spec hs hp
  find := by
    obtain ⟨s, hs, hmem⟩ := h
    intro q
    simp only [← hmem]
    exact intvlTreeFind_spec hs q
  returns := fun o hv => by
    obtain ⟨r', hr, -⟩ := h.step hv
    exact ⟨r', hr⟩

theorem of_reach (h : Reach Run.Empty Call r) : Good r :=
  h.of_calls (fun _ hr => Good.empty hr) fun _ _ hg hv => hg.step hv

end Good

/-- **In every run that keeps the intervals apart, the searches are complete and sound.** -/
theorem intvlTree_search_complete {r : Run} (h : Reach Run.Empty Call r) : Complete r :=
  (Good.of_reach h).complete

theorem Run.content_insert {r r' : Run}
    (h : r.step (.insert p z i data) = some r') : r'.content = ⟨z, p, i, data⟩ :: r.content := by
  obtain ⟨st, -, h⟩ := Option.bind_eq_some_iff.mp h
  rw [← Option.some.inj h]

/-- A run goes on with an insertion. -/
theorem exists_insert {r : Run} (p z : Nat) (i : Interval) (data : Nat) (h : Reach Run.Empty Call r)
    (hv : (Op.insert p z i data).Valid r) :
    ∃ r', Reach Run.Empty Call r' ∧ r'.state.tree.nil = r.state.tree.nil ∧
      r'.content = ⟨z, p, i, data⟩ :: r.content := by
  obtain ⟨r', hr, hnil, -⟩ := (Good.of_reach h).insert hv
  exact ⟨r', h.next _ ⟨hv, hr⟩, hnil, Run.content_insert hr⟩

/-- A tree with the intervals from `16` to `32` and from `64` to `96`. -/
theorem exists_two_intervals : ∃ r, Reach Run.Empty Call r ∧
    r.content = [⟨4, 5, ⟨64, 96⟩, 8⟩, ⟨2, 3, ⟨16, 32⟩, 7⟩] := by
  have h0 : Reach Run.Empty Call
      ⟨⟨createRbTree blank 1, ⟨id, id, id, id, id, id⟩⟩, []⟩ := .start ⟨_, _, _, rfl⟩
  have hn0 : (createRbTree blank 1).nil = 1 := rfl
  obtain ⟨r1, h1, hn1, hc1⟩ := exists_insert 3 2 ⟨16, 32⟩ 7 h0
    ⟨by decide, by decide, by simp, by simp, by decide, by decide, by simp⟩
  obtain ⟨r2, h2, -, hc2⟩ := exists_insert 5 4 ⟨64, 96⟩ 8 h1
    ⟨by decide, by decide, by simp [hc1, Interval.Disjoint], by simp [hc1], by decide,
      by simp [hn1, hn0], by simp [hc1]⟩
  exact ⟨r2, h2, by rw [hc2, hc1]⟩

/-- Searches in a tree with two intervals. -/
theorem intvlTree_search_complete_two_intervals : ∃ r, Reach Run.Empty Call r ∧
    r.content = [⟨4, 5, ⟨64, 96⟩, 8⟩, ⟨2, 3, ⟨16, 32⟩, 7⟩] ∧
    intvlTreeGetPoint r.state.tree r.state.data 20 = some 7 ∧
    intvlTreeGetPoint r.state.tree r.state.data 40 = some 0 := by
  obtain ⟨r, h, hc⟩ := exists_two_intervals
  have hpoint := (intvlTree_search_complete h).getPoint
  simp only [hc, List.mem_cons, List.not_mem_nil, or_false, exists_eq_or_imp, exists_eq_left,
    forall_eq_or_imp, forall_eq] at hpoint
  refine ⟨r, h, hc, ?_, ?_⟩
  · simpa using hpoint 20 (by decide)
  · simpa using hpoint 40 (by decide)

end Osdev.Intvl
