import Osdev.IntervalTree.Gap
import Osdev.Vm.Space

/-!
# The interval tree of an address space

`TreeOk st brk l`: the tree `st` stores the ranges `l`, in order, each with its mapping, and all its
pointers are below `brk`, where `kmalloc` goes on. The operations of the tree are specified here
once, in terms of the list of ranges, so that proofs about address spaces do not look into the tree.
-/

namespace Osdev.Vm

open Osdev.Intvl Osdev.Lib Osdev.Lib.ColorTree

/-- A range of addresses, and the mapping that it belongs to. -/
abbrev Item := Interval × Nat

def itemOf (e : Intvl.Entry) : Item := (e.interval, e.data)

/-- The tree `st`, whose nodes are those of `t`, stores `l`. -/
structure Stored (st : Rb.State Intervals) (brk : Nat) (t : ColorTree Nat)
    (l : List Item) : Prop where
  stores : Stores st t
  items : (entries st t).map itemOf = l
  fresh : ∀ e ∈ entries st t, e.ptr < brk ∧ e.node < brk
  nil : st.tree.nil < brk

def TreeOk (st : Rb.State Intervals) (brk : Nat) (l : List Item) : Prop := ∃ t, Stored st brk t l

variable {st : Rb.State Intervals} {brk : Nat} {t : ColorTree Nat} {l : List Item}
  {i : Interval} {id : Nat}

theorem TreeOk.mono (h : TreeOk st brk l) {brk' : Nat} (hle : brk ≤ brk') : TreeOk st brk' l := by
  obtain ⟨t, ht⟩ := h
  refine ⟨t, ht.stores, ht.items, fun e he => ?_, ht.nil.trans_le hle⟩
  have := ht.fresh e he
  omega

/-! ## The ranges -/

theorem mem_items {x : Item} (h : Stored st brk t l) : x ∈ l ↔ ∃ e ∈ entries st t,
    itemOf e = x := by
  rw [← h.items, List.mem_map]

theorem TreeOk.order (h : TreeOk st brk l) :
    l.Pairwise fun x y => x.1.stop ≤ y.1.start := by
  obtain ⟨t, ht⟩ := h
  rw [← ht.items, entries, List.map_map, List.pairwise_map]
  exact ht.stores.ok.apart.order

theorem TreeOk.nonempty (h : TreeOk st brk l) {x : Item} (hx : x ∈ l) :
    x.1.start < x.1.stop ∧ x.1.stop < word := by
  obtain ⟨t, ht⟩ := h
  obtain ⟨e, he, rfl⟩ := (mem_items ht).mp hx
  obtain ⟨j, hj, rfl⟩ := mem_entries.mp he
  exact ⟨ht.stores.ok.apart.nonempty j hj, ht.stores.word j hj⟩

/-- Two ranges that overlap are one. -/
theorem TreeOk.eq_of_overlaps (h : TreeOk st brk l) {x y : Item} (hx : x ∈ l) (hy : y ∈ l)
    (ho : x.1.start < y.1.stop ∧ y.1.start < x.1.stop) : x = y := by
  have hpw := List.pairwise_iff_getElem.mp h.order
  obtain ⟨a, ha, rfl⟩ := List.getElem_of_mem hx
  obtain ⟨b, hb, rfl⟩ := List.getElem_of_mem hy
  rcases Nat.lt_trichotomy a b with hab | rfl | hba
  · have := hpw a b ha hb hab
    omega
  · rfl
  · have := hpw b a hb ha hba
    omega

/-- The intervals of the ranges, as the search for a gap sees them. -/
theorem Stored.intervals_eq (h : Stored st brk t l) :
    intervals st.tree st.data t.toList = l.map Prod.fst := by
  rw [← h.items, entries, List.map_map, List.map_map]
  rfl

/-! ## Operations -/

theorem treeOk_create (mem : Rb.RbTree) (nil : Nat) (records : Intervals) (brk : Nat)
    (hnil : nil < brk) : TreeOk ⟨Rb.createRbTree mem nil, records⟩ brk [] :=
  ⟨leaf, stores_createRbTree mem nil records, rfl,
    fun e he => by simp [entries, toList] at he, hnil⟩

/-- **Insertion adds one range, at its place.** -/
theorem TreeOk.insert (h : TreeOk st brk l) (hne : i.start < i.stop) (hword : i.stop < word)
    (hdis : ∀ x ∈ l, i.Disjoint x.1) (id : Nat) :
    ∃ st' xs ys, intvlTreeInsert st brk (brk + 1) i id = some st' ∧ l = xs ++ ys ∧
      TreeOk st' (brk + 2) (xs ++ (i, id) :: ys) := by
  obtain ⟨t, ht⟩ := h
  have hcan : CanInsert st (entries st t) brk (brk + 1) i := by
    refine ⟨hne, hword, fun e he => hdis _ ((mem_items ht).mpr ⟨e, he, rfl⟩), ⟨?_, fun e he => ?_⟩,
      Nat.succ_ne_zero _, ?_, fun e he => ?_⟩
    · have := ht.nil
      omega
    · exact Nat.ne_of_lt (ht.fresh e he).1
    · have := ht.nil
      omega
    · have := (ht.fresh e he).2
      omega
  obtain ⟨st', t', xs, ys, hrun, hst, hl, hl', hnil⟩ := intvlTreeInsert_spec ht.stores hcan id
  refine ⟨st', xs.map itemOf, ys.map itemOf, hrun, ?_, t', hst, ?_, fun e he => ?_, ?_⟩
  · rw [← ht.items, hl, List.map_append]
  · rw [hl', List.map_append]
    rfl
  · rw [hl', List.mem_append, List.mem_cons] at he
    have hold : e ∈ entries st t → e.ptr < brk + 2 ∧ e.node < brk + 2 := fun hmem => by
      have := ht.fresh e hmem
      omega
    rcases he with he | rfl | he
    · exact hold (by rw [hl]; exact List.mem_append_left _ he)
    · exact ⟨by simp, by simp⟩
    · exact hold (by rw [hl]; exact List.mem_append_right _ he)
  · have := ht.nil
    omega

theorem Stored.delete (h : Stored st brk t l) {e : Intvl.Entry} (he : e ∈ entries st t)
    (hi : i.start = e.interval.start) :
    ∃ st' t' xs ys, intvlTreeDelete st i = some st' ∧ entries st t = xs ++ e :: ys ∧
      entries st' t' = xs ++ ys ∧ Stored st' brk t' ((xs ++ ys).map itemOf) := by
  obtain ⟨st', t', xs, ys, hrun, hst, hl, hl', hnil⟩ := intvlTreeDelete_spec h.stores he hi
  refine ⟨st', t', xs, ys, hrun, hl, hl', hst, congrArg _ hl', fun e' he' => h.fresh e' ?_, ?_⟩
  · rw [hl'] at he'
    rw [hl]
    simp only [List.mem_append, List.mem_cons] at he' ⊢
    tauto
  · rw [hnil]
    exact h.nil

/-- **Deletion takes the range with the given start out.** -/
theorem TreeOk.delete (h : TreeOk st brk l) {x : Item} (hx : x ∈ l) (hi : i.start = x.1.start) :
    ∃ st' xs ys, intvlTreeDelete st i = some st' ∧ l = xs ++ x :: ys ∧ TreeOk st' brk
      (xs ++ ys) := by
  obtain ⟨t, ht⟩ := h
  obtain ⟨e, he, rfl⟩ := (mem_items ht).mp hx
  obtain ⟨st', t', xs, ys, hrun, hl, -, hst⟩ := ht.delete he hi
  rw [List.map_append] at hst
  refine ⟨st', xs.map itemOf, ys.map itemOf, hrun, ?_, t', hst⟩
  rw [← ht.items, hl, List.map_append, List.map_cons]

/-- **A range finds its own record.** -/
theorem TreeOk.find (h : TreeOk st brk l) {x : Item} (hx : x ∈ l) :
    ∃ node, intvlTreeFind st.tree st.data x.1 = some node ∧ node ≠ 0 ∧ st.data.data node = x.2 ∧
      st.data.interval node = x.1 ∧ ∀ t, Stored st brk t l →
        ∃ e ∈ entries st t, e.ptr = node ∧ itemOf e = x := by
  have hne := h.nonempty hx
  obtain ⟨t, ht⟩ := id h
  rcases intvlTreeFind_spec ht.stores x.1 with ⟨e, he, ho, hrun⟩ | ⟨hno, -⟩
  · rw [overlaps_iff] at ho
    have hex : itemOf e = x :=
      h.eq_of_overlaps ((mem_items ht).mpr ⟨e, he, rfl⟩) hx ⟨ho.1, ho.2⟩
    obtain ⟨j, hj, rfl⟩ := mem_entries.mp he
    refine ⟨_, hrun, (ht.stores.ok.ne_zero j hj).2, congrArg Prod.snd hex, congrArg Prod.fst hex,
      fun t' ht' => ?_⟩
    obtain ⟨e', he', hx'⟩ := (mem_items ht').mp hx
    refine ⟨e', he', ?_, hx'⟩
    rcases intvlTreeFind_spec ht'.stores x.1 with ⟨e'', he'', ho'', hrun''⟩ | ⟨hno, -⟩
    · rw [overlaps_iff] at ho''
      have heq : e''.ptr = (entry st j).ptr := Option.some.inj (hrun''.symm.trans hrun)
      have hitem : itemOf e'' = itemOf e' := by
        rw [hx']
        exact h.eq_of_overlaps ((mem_items ht').mpr ⟨e'', he'', rfl⟩) hx ⟨ho''.1, ho''.2⟩
      obtain ⟨k, hk, rfl⟩ := mem_entries.mp he'
      obtain ⟨k', hk', rfl⟩ := mem_entries.mp he''
      have hkk : k' = k := ht'.stores.entry_inj hk' hk (congrArg (fun x => x.1.start) hitem)
      rwa [← hkk]
    · have := hno e' he'
      rw [Bool.eq_false_iff, ne_eq, overlaps_iff] at this
      have hint : e'.interval = x.1 := congrArg Prod.fst hx'
      rw [hint] at this
      exact absurd ⟨hne.1, hne.1⟩ this
  · obtain ⟨e, he, rfl⟩ := (mem_items ht).mp hx
    have := hno e he
    rw [Bool.eq_false_iff, ne_eq, overlaps_iff] at this
    exact absurd ⟨hne.1, hne.1⟩ this

/-- Every entry is found by its range. -/
theorem Stored.find_entry (h : Stored st brk t l) {e : Intvl.Entry} (he : e ∈ entries st t) :
    intvlTreeFind st.tree st.data e.interval = some e.ptr := by
  obtain ⟨node, hfind, -, -, -, hrec⟩ := TreeOk.find ⟨t, h⟩ ((mem_items h).mpr ⟨e, he, rfl⟩)
  obtain ⟨e', he', rfl, hitem⟩ := hrec t h
  obtain ⟨j, hj, rfl⟩ := mem_entries.mp he
  obtain ⟨k, hk, rfl⟩ := mem_entries.mp he'
  rwa [h.stores.entry_inj hk hj (congrArg (fun x => x.1.start) hitem)] at hfind

/-- The other ranges find the same records after a deletion. -/
theorem TreeOk.find_delete (h : TreeOk st brk l) {x y : Item} {st' : Rb.State Intervals}
    (hx : x ∈ l)
    (hi : i.start = x.1.start) (hrun : intvlTreeDelete st i = some st') (hy : y ∈ l) (hne : y ≠ x) :
    intvlTreeFind st'.tree st'.data y.1 = intvlTreeFind st.tree st.data y.1 := by
  obtain ⟨t, ht⟩ := h
  obtain ⟨ex, hex, rfl⟩ := (mem_items ht).mp hx
  obtain ⟨e, he, rfl⟩ := (mem_items ht).mp hy
  obtain ⟨st1, t', xs, ys, hrun1, hl, hl', hst'⟩ := ht.delete hex hi
  rw [hrun] at hrun1
  cases hrun1
  have he' : e ∈ entries st' t' := by
    rw [hl, List.mem_append, List.mem_cons] at he
    rw [hl', List.mem_append]
    exact he.imp_right fun h => h.resolve_left fun heq => hne (by rw [heq])
  exact (hst'.find_entry he').trans (ht.find_entry he).symm

/-- **Moving the end of a range changes that range only.** -/
theorem TreeOk.updateStop (h : TreeOk st brk l) {x : Item} (hx : x ∈ l) {de : Int} {stop : Nat}
    (hstop : addOffset x.1.stop de = stop) (hne : x.1.start < stop)
    (hdis : ∀ y ∈ l, y ≠ x → Interval.Disjoint ⟨x.1.start, stop⟩ y.1) :
    ∃ node st' xs ys, intvlTreeFind st.tree st.data x.1 = some node ∧ node ≠ 0 ∧
      intvlTreeUpdateInterval st node 0 de = some st' ∧ l = xs ++ x :: ys ∧
      TreeOk st' brk (xs ++ (⟨x.1.start, stop⟩, x.2) :: ys) := by
  obtain ⟨node, hfind, hnode, -, -, hrec⟩ := h.find hx
  obtain ⟨t, ht⟩ := h
  obtain ⟨e, he, hptr, rfl⟩ := hrec t ht
  obtain ⟨st', xs, ys, hrun, hst, hl, hl', htree⟩ := intvlTreeUpdateInterval_spec ht.stores he de
    (by rwa [show addOffset e.interval.stop de = stop from hstop])
    (fun e' he' hn => by
      rw [show addOffset e.interval.stop de = stop from hstop]
      refine hdis _ ((mem_items ht).mpr ⟨e', he', rfl⟩) fun heq => hn ?_
      obtain ⟨j, hj, rfl⟩ := mem_entries.mp he
      obtain ⟨k, hk, rfl⟩ := mem_entries.mp he'
      exact ht.stores.entry_inj hk hj (congrArg (fun x => x.1.start) heq))
  refine ⟨node, st', xs.map itemOf, ys.map itemOf, hfind, hnode, by rwa [← hptr], ?_,
    t, hst, ?_, fun e' he' => ?_, by rw [htree]; exact ht.nil⟩
  · rw [← ht.items, hl, List.map_append, List.map_cons]
  · rw [hl', List.map_append]
    rw [← hstop]
    rfl
  · rw [hl', List.mem_append, List.mem_cons] at he'
    rcases he' with he' | rfl | he'
    · exact ht.fresh e' (by rw [hl]; exact List.mem_append_left _ he')
    · exact ht.fresh e he
    · exact ht.fresh e' (by rw [hl]; exact List.mem_append_right _ (List.mem_cons_of_mem _ he'))

/-- **A point finds the mapping whose range contains it.** -/
theorem TreeOk.getPoint (h : TreeOk st brk l) {p : Nat} (hp : p < word) :
    (∃ x ∈ l, (x.1.start ≤ p ∧ p < x.1.stop) ∧ intvlTreeGetPoint st.tree st.data p = some x.2) ∨
      (∀ x ∈ l, ¬ (x.1.start ≤ p ∧ p < x.1.stop)) ∧
        intvlTreeGetPoint st.tree st.data p = some 0 := by
  obtain ⟨t, ht⟩ := h
  rcases intvlTreeGetPoint_spec ht.stores hp with ⟨e, he, hin, hrun⟩ | ⟨hno, hrun⟩
  · exact Or.inl ⟨_, (mem_items ht).mpr ⟨e, he, rfl⟩, hin, hrun⟩
  · refine Or.inr ⟨fun x hx => ?_, hrun⟩
    obtain ⟨e, he, rfl⟩ := (mem_items ht).mp hx
    exact hno e he

/-! ## Free places -/

/-- `r` lies in a gap between the ranges, and `prev` is the mapping right before it, if there is
one. -/
def GapAt (l : List Item) (r : Interval) (prev : Nat) : Prop :=
  ∃ xs ys, l = xs ++ ys ∧ prev = (xs.getLast?.map Prod.snd).getD 0 ∧
    (∀ x ∈ xs, x.1.stop ≤ r.start) ∧ ∀ y ∈ ys, r.stop ≤ y.1.start

theorem GapAt.before {r : Interval} {prev : Nat} (h : GapAt l r prev) :
    prev = 0 ∨ ∃ x ∈ l, x.2 = prev := by
  obtain ⟨xs, ys, rfl, rfl, -, -⟩ := h
  cases hlast : xs.getLast? with
  | none => exact .inl rfl
  | some x => exact .inr ⟨x, List.mem_append_left _ (List.mem_of_getLast? hlast), rfl⟩

theorem GapAt.free {b size prev : Nat} (h : GapAt l ⟨b, b + size⟩ prev) :
    FreeAt (l.map Prod.fst) size b := by
  obtain ⟨xs, ys, rfl, -, hxs, hys⟩ := h
  intro i hi
  obtain ⟨x, hx, rfl⟩ := List.mem_map.mp hi
  exact (List.mem_append.mp hx).symm.imp (hys x) (hxs x)

/-- The range that a search found, and the mapping right before it. -/
structure Gap (l : List Item) (start size e : Nat) (r : Interval) (prev : Nat) : Prop where
  least : LeastFree (l.map Prod.fst) start size e r.start
  stop : r.stop = r.start + size
  word : r.stop < word
  place : GapAt l r prev

/-- What the search returns, with the mapping of the record that it found. -/
def closest (st : Rb.State Intervals) (rec : Nat) : Nat := if rec = 0 then 0 else st.data.data rec

/-- The record of the last of some nodes, and its mapping. -/
theorem Stored.closest_prevRecord (h : Stored st brk t l) {xs : List Nat}
    (hxs : ∀ i ∈ xs, i ∈ t.toList) :
    closest st (prevRecord st.tree (xs.getLastD st.tree.nil)) =
      ((xs.map fun i => itemOf (entry st i)).getLast?.map Prod.snd).getD 0 := by
  by_cases hnil : xs = []
  · subst hnil
    simp [closest, prevRecord]
  · have hmem := hxs _ (getLastD_mem hnil st.tree.nil)
    have hrec : prevRecord st.tree (xs.getLastD st.tree.nil) =
        st.tree.data (xs.getLastD st.tree.nil) := if_pos (h.stores.holds.ne_nil _ hmem)
    rw [hrec]
    unfold closest
    rw [if_neg (h.stores.ok.ne_zero _ hmem).2, List.getLast?_map,
      List.getLastD_eq_getLast?, List.getLast?_eq_some_getLast hnil]
    rfl

/-- **The search finds the least free place**, in the gap behind the mapping that it returns. -/
theorem TreeOk.freeGap (h : TreeOk st brk l) {start size e al y : Nat} (he : e < 64)
    (hal : (if al = 0 then 1 else al) = 2 ^ e) (hsize : 0 < size) (hstart : start % 2 ^ e = 0)
    (hy : start ≤ y) (hya : y % 2 ^ e = 0) (hfree : FreeAt (l.map Prod.fst) size y)
    (hyw : y + size < word) :
    ∃ r rec, intvlTreeFindFreeGap st.tree st.data ⟨start, start + size⟩ al = some (r, rec) ∧
      Gap l start size e r (closest st rec) ∧ (rec = 0 → r.start = start) := by
  obtain ⟨t, ht⟩ := h
  rw [← ht.intervals_eq] at hfree
  by_cases hs : t.toList = []
  · -- an empty tree: the range itself
    have hroot : st.tree.root = st.tree.nil := by
      rw [show st.tree.root = Rb.top st.tree.nil t from ht.stores.holds.here.ctx]
      cases t with
      | leaf => rfl
      | node c a x b => simp [toList] at hs
    have hl : l = [] := by
      rw [← ht.items, entries, hs]
      rfl
    subst hl
    refine ⟨⟨start, start + size⟩, 0, ?_, ⟨⟨le_rfl, hstart, ?_, ?_⟩, rfl, ?_, ?_⟩,
      fun _ => rfl⟩
    · rw [intvlTreeFindFreeGap, if_pos hroot]
    · exact fun i hi => by cases hi
    · exact fun z hz _ _ => hz
    · show start + size < Osdev.word
      omega
    · exact ⟨[], [], rfl, rfl, fun _ hx => (by cases hx), fun _ hx => (by cases hx)⟩
  · obtain ⟨r, rec, hrun, hok⟩ :=
      intvlTreeFindFreeGap_spec ht.stores hs he hal hsize hy hya hfree hyw
    obtain ⟨xs, ys, hxy, hpr, hxs, hys⟩ := hok.place
    have hmem : ∀ i ∈ xs, i ∈ t.toList := fun i hi => by
      rw [hxy]
      exact List.mem_append_left _ hi
    have hleast := hok.least
    rw [ht.intervals_eq] at hleast
    refine ⟨r, rec, hrun, ⟨hleast, hok.stop, hok.word, ?_⟩, fun hrec => ?_⟩
    · refine ⟨xs.map fun i => itemOf (entry st i), ys.map fun i => itemOf (entry st i), ?_, ?_,
        fun x hx => ?_, fun x hx => ?_⟩
      · rw [← ht.items, entries, hxy, List.map_map, List.map_append]
        rfl
      · rw [hpr]
        exact ht.closest_prevRecord hmem
      · obtain ⟨i, hi, rfl⟩ := List.mem_map.mp hx
        exact hxs i hi
      · obtain ⟨i, hi, rfl⟩ := List.mem_map.mp hx
        exact hys i hi
    · -- with no node before the place, the start itself is free
      have hx : xs = [] := by
        by_contra hx
        have hlast := hmem _ (getLastD_mem hx st.tree.nil)
        unfold prevRecord at hpr
        rw [if_pos (ht.stores.holds.ne_nil _ hlast), hrec] at hpr
        exact (ht.stores.ok.ne_zero _ hlast).2 hpr.symm
      rw [hx, List.nil_append] at hxy
      refine Nat.le_antisymm (hok.least.least start le_rfl hstart fun i hi => ?_)
        hok.least.lower
      obtain ⟨j, hj, rfl⟩ := List.mem_map.mp hi
      have h1 := hys j (by rwa [← hxy])
      have h2 := hok.stop
      have h3 := hok.least.lower
      exact Or.inl (show start + size ≤ st.data.start (st.tree.data j) by omega)

/-- **A search for a range that is not free goes past it.** -/
theorem TreeOk.freeGap_gt (h : TreeOk st brk l) {start size : Nat} (hsize : 0 < size)
    (hmeets : ¬ FreeAt (l.map Prod.fst) size start) (hword : start + size < word) :
    ∃ r rec, intvlTreeFindFreeGap st.tree st.data ⟨start, start + size⟩ 0 = some (r, rec) ∧
      start < r.start := by
  obtain ⟨t, ht⟩ := h
  rw [← ht.intervals_eq] at hmeets
  exact intvlTreeFindFreeGap_gt ht.stores hsize hmeets hword

end Osdev.Vm
