import Osdev.IntervalTree.Augment
import Osdev.RbTree.Map

/-!
# Operations of the interval tree

`Stores st s` is the state between calls, `entries` what it stores, in order. Each operation has one
specification in terms of the entries; the search is complete although maxima may be stale.
-/

namespace Osdev.Intvl

open Osdev.Lib Osdev.Lib.ColorTree Osdev.Rb

/-- A stored interval: its node, its record, and what it carries. -/
structure Entry where
  node : Nat
  ptr : Nat
  interval : Interval
  data : Nat
  deriving DecidableEq

/-- The entry of node `i`. -/
def entry (st : State Intervals) (i : Nat) : Entry :=
  ⟨i, st.tree.data i, st.data.interval (st.tree.data i), st.data.data (st.tree.data i)⟩

def entries (st : State Intervals) (s : ColorTree Nat) : List Entry := s.toList.map (entry st)

/-- The state between calls. -/
structure Stores (st : State Intervals) (s : ColorTree Nat) : Prop where
  holds : Holds st.tree s
  ok : Ok st.tree.data s.toList.length st.data 0 st.data s
  nodePtr : ∀ i ∈ s.toList, st.data.node (st.tree.data i) = i
  key : ∀ i ∈ s.toList, st.tree.key i = st.data.start (st.tree.data i)
  word : ∀ i ∈ s.toList, st.data.stop (st.tree.data i) < word

variable {st : State Intervals} {t : RbTree} {m m₀ : Intervals} {s : ColorTree Nat}
  {k : List (Frame Nat)} {q : Interval}

/-! ## Search -/

theorem getInterval_node {i : Nat} (h0 : i ≠ 0 ∧ t.data i ≠ 0) (hn : i ≠ t.nil) :
    getInterval t m i = m.interval (t.data i) := by
  unfold getInterval noRecord
  simp [h0.1, h0.2, hn]

/-- The search finds an overlapping interval if there is one, and ends at the sentinel if not. -/
theorem searchLoop_spec {fuel : Nat} (hi : Option Nat) (h : Here t k s)
    (hap : Apart (fun i => m.start (t.data i)) (fun i => m.stop (t.data i)) s.toList)
    (h0 : ∀ i ∈ s.toList, i ≠ 0 ∧ t.data i ≠ 0) (hfits : MaxFits t.data m m 0 hi s)
    (hf : s.toList.length < fuel) :
    Answer t.nil (fun i => overlaps q (m.interval (t.data i)) = true) s
      (searchLoop t m q q.start fuel (top t.nil s)) := by
  revert hi hap h0
  refine h.descend hf ?_ ?_
  · intro k fuel hi _ _ _
    exact .inr ⟨by simp, if_neg (fun hx => hx.1 rfl)⟩
  · intro k c l a r fuel h ihl ihr hi hap h0 hfits
    obtain ⟨ha0, -, -, hal, har, hl, -⟩ := h.sub
    have hz : 0 ∉ (node c l a r).toList := fun hm => (h0 0 hm).1 rfl
    have hmax := getMax_top (m := m) hl (fun i hi => h0 i (by simp [hi]))
    have hstep : searchLoop t m q q.start (fuel + 1) (top t.nil (node c l a r)) =
        if overlaps q (m.interval (t.data a)) = true then some a
        else if top t.nil l ≠ t.nil ∧ q.start < maxOf (fun i => m.max (t.data i)) l then
          searchLoop t m q q.start fuel (top t.nil l)
        else searchLoop t m q q.start fuel (top t.nil r) := by
      conv_lhs => unfold searchLoop
      show (if a ≠ t.nil ∧ ¬ overlaps q (getInterval t m a) = true then _ else some a) = _
      rw [getInterval_node (h0 a (by simp)) ha0,
        show t.child (top t.nil (node c l a r)) .left = top t.nil l from hal,
        show t.child (top t.nil (node c l a r)) .right = top t.nil r from har, hmax]
      by_cases ho : overlaps q (m.interval (t.data a)) = true
      · rw [if_neg (fun hx => hx.2 ho), if_pos ho]
      · rw [if_pos ⟨ha0, ho⟩, if_neg ho]
    rw [hstep]
    have hsubl : l.toList.Sublist (node c l a r).toList := List.sublist_append_left _ _
    have hsubr : r.toList.Sublist (node c l a r).toList :=
      (List.sublist_cons_self _ _).trans (List.sublist_append_right _ _)
    split
    · next ho => exact .inl ⟨a, by simp, ho, rfl⟩
    next hna =>
    have ho := hna
    rw [overlaps_iff] at ho
    split
    · next hleft =>
      -- nothing on the right starts early enough
      have hright := no_overlap_right hfits hz hleft.2 hap ho
      refine (ihl _ (hap.sublist hsubl) (fun i hi => h0 i (hsubl.subset hi)) hfits.2.1).of_left hna
        fun i hi => ?_
      rw [overlaps_iff]
      exact fun hx => absurd hx.1 (Nat.not_lt.mpr (hright i hi))
    · next hleft =>
      -- nothing on the left reaches far enough
      refine (ihr _ (hap.sublist hsubr) (fun i hi => h0 i (hsubr.subset hi)) hfits.2.2).of_right hna
        fun i hi => ?_
      rw [overlaps_iff]
      refine fun hx => absurd hx.2 (Nat.not_lt.mpr (no_overlap_left hfits hz ?_ i hi))
      by_contra hlt
      exact hleft ⟨fun he => by simp [(top_eq_nil_iff hl).mp he] at hi, Nat.lt_of_not_le hlt⟩

theorem Stores.search (h : Stores st s) (q : Interval) :
    Answer st.tree.nil (fun i => overlaps q (st.data.interval (st.tree.data i)) = true) s
      (searchLoop st.tree st.data q q.start (st.tree.nodes + 2) st.tree.root) := by
  have hroot : st.tree.root = top st.tree.nil s := h.holds.here.ctx
  have hn := h.holds.nodes
  rw [hroot]
  exact searchLoop_spec _ h.holds.here h.ok.apart h.ok.ne_zero h.ok.fits (by omega)

theorem mem_entries {e : Entry} : e ∈ entries st s ↔ ∃ i ∈ s.toList, entry st i = e :=
  List.mem_map

/-- **`intvl_tree_find` finds an overlapping entry, or there is none.** -/
theorem intvlTreeFind_spec (h : Stores st s) (q : Interval) :
    (∃ e ∈ entries st s, overlaps q e.interval = true ∧
        intvlTreeFind st.tree st.data q = some e.ptr) ∨
      (∀ e ∈ entries st s, overlaps q e.interval = false) ∧
        intvlTreeFind st.tree st.data q = some 0 := by
  unfold intvlTreeFind
  rcases h.search q with ⟨i, hi, ho, hrun⟩ | ⟨hno, hrun⟩
  · refine Or.inl ⟨entry st i, mem_entries.mpr ⟨i, hi, rfl⟩, ho, ?_⟩
    rw [hrun]
    rfl
  · refine Or.inr ⟨?_, ?_⟩
    · intro e he
      obtain ⟨i, hi, rfl⟩ := mem_entries.mp he
      exact Bool.eq_false_iff.mpr (hno i hi)
    · rw [hrun]
      exact congrArg some h.holds.nilData

/-- **`intvl_tree_get_point` finds the entry that contains the point, or there is none.** -/
theorem intvlTreeGetPoint_spec (h : Stores st s) {p : Nat} (hp : p < word) :
    (∃ e ∈ entries st s, (e.interval.start ≤ p ∧ p < e.interval.stop) ∧
        intvlTreeGetPoint st.tree st.data p = some e.data) ∨
      (∀ e ∈ entries st s, ¬ (e.interval.start ≤ p ∧ p < e.interval.stop)) ∧
        intvlTreeGetPoint st.tree st.data p = some 0 := by
  -- at the last address the query interval wraps, and no interval contains it
  have hiff : ∀ i ∈ s.toList, overlaps ⟨p, (p + 1) % word⟩ (st.data.interval (st.tree.data i)) =
      true ↔ st.data.start (st.tree.data i) ≤ p ∧ p < st.data.stop (st.tree.data i) := by
    intro i hi
    have hw := h.word i hi
    rw [overlaps_iff]
    show st.data.start (st.tree.data i) < (p + 1) % word ∧ p < st.data.stop (st.tree.data i) ↔ _
    rcases Nat.lt_or_ge (p + 1) word with hlt | hge
    · rw [Nat.mod_eq_of_lt hlt]
      omega
    · omega
  unfold intvlTreeGetPoint
  rcases h.search ⟨p, (p + 1) % word⟩ with ⟨i, hi, ho, hrun⟩ | ⟨hno, hrun⟩
  · refine Or.inl ⟨entry st i, mem_entries.mpr ⟨i, hi, rfl⟩, (hiff i hi).mp ho, ?_⟩
    rw [hrun]
    exact if_pos (h.holds.ne_nil i hi)
  · refine Or.inr ⟨?_, ?_⟩
    · intro e he hc
      obtain ⟨i, hi, rfl⟩ := mem_entries.mp he
      exact hno i hi ((hiff i hi).mpr hc)
    · rw [hrun]
      exact if_neg (fun hx => hx rfl)

end Osdev.Intvl
