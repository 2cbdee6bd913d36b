import Mathlib.Algebra.BigOperators.Group.Finset.Basic
import Mathlib.Algebra.Order.BigOperators.Group.Finset
import Mathlib.Order.Interval.Finset.Nat
import Mathlib.Data.Finset.Max

/-!
# Reference counting over a graph of objects

Objects are numbers below a bound. An object that is there has a list of references to others and a
counter. `Counted G refs` says that each counter is the number of references to the object: those in
the list `refs`, which nothing in the graph accounts for, and those from the objects that are there.

Every step of a reference counting program changes one object. A reference moves between `refs` and
the graph (`link`, `unlink`, `alloc`, `release`), or is made or given up (`take`, `put`). A cycle
keeps its objects alive, so that the last result needs an order on the objects (`Ranked`).
-/

namespace Osdev.Lib

open Finset

structure Graph where
  /-- the references of an object that is there -/
  out : Nat → Option (List Nat)
  count : Nat → Nat
  bound : Nat

namespace Graph

/-- The references of an object; one that is not there has none. -/
def outs (G : Graph) (q : Nat) : List Nat := (G.out q).getD []

/-- The number of references from objects to `p`. -/
def inDegree (G : Graph) (p : Nat) : Nat := ∑ q ∈ range G.bound, (G.outs q).count p

/-- The number of objects. -/
def size (G : Graph) : Nat := #{q ∈ range G.bound | (G.out q).isSome}

/-- Changing one object. -/
def set (G : Graph) (q : Nat) (o : Option (List Nat)) (c : Nat) : Graph :=
  { G with
    out := fun p => if p = q then o else G.out p
    count := fun p => if p = q then c else G.count p }

/-- Adding an object at the bound. -/
def push (G : Graph) (o : List Nat) (c : Nat) : Graph :=
  { out := fun p => if p = G.bound then some o else G.out p
    count := fun p => if p = G.bound then c else G.count p
    bound := G.bound + 1 }

end Graph

/-- Each counter is the number of references to its object. -/
structure Counted (G : Graph) (refs : List Nat) : Prop where
  bound : ∀ p, G.out p ≠ none → p < G.bound
  closed : ∀ p, ∀ q ∈ G.outs p, G.out q ≠ none
  live : ∀ p ∈ refs, G.out p ≠ none
  count : ∀ p, G.out p ≠ none → G.count p = refs.count p + G.inDegree p
  pos : ∀ p, G.out p ≠ none → 0 < G.count p

/-- References lead down in some order. -/
def Ranked (G : Graph) : Prop := ∃ rank : Nat → Nat, ∀ p, ∀ q ∈ G.outs p, rank q < rank p

/-- `b` can be reached from `a` along references. -/
inductive Reaches (G : Graph) (a : Nat) : Nat → Prop
  | refl : Reaches G a a
  | step {b c : Nat} : Reaches G a b → c ∈ G.outs b → Reaches G a c

variable {G G' : Graph} {refs : List Nat} {p q a b : Nat} {o : List Nat} {c : Nat}

/-! ## Degrees -/

/-- Two sums over the same range whose terms differ at one place. -/
theorem sum_range_eq_of_eq_off {n : Nat} {f g : Nat → Nat} (hq : q < n)
    (h : ∀ i, i ≠ q → f i = g i) :
    ∑ i ∈ range n, f i + g q = ∑ i ∈ range n, g i + f q := by
  rw [← add_sum_erase _ f (mem_range.mpr hq), ← add_sum_erase _ g (mem_range.mpr hq)]
  have hrest : ∑ i ∈ (range n).erase q, f i = ∑ i ∈ (range n).erase q, g i :=
    sum_congr rfl fun i hi => h i (ne_of_mem_erase hi)
  omega

theorem outs_set (o : Option (List Nat)) :
    (G.set q o c).outs p = if p = q then o.getD [] else G.outs p := by
  unfold Graph.outs Graph.set
  dsimp only
  split <;> rfl

theorem inDegree_set {o : Option (List Nat)} (hq : q < G.bound) :
    (G.set q o c).inDegree p + (G.outs q).count p = G.inDegree p + (o.getD []).count p := by
  have hoff : ∀ i, i ≠ q → ((G.set q o c).outs i).count p = (G.outs i).count p := by
    intro i hi
    rw [outs_set, if_neg hi]
  have hsum := sum_range_eq_of_eq_off hq hoff
  rwa [outs_set, if_pos rfl] at hsum

theorem outs_push : (G.push o c).outs p = if p = G.bound then o else G.outs p := by
  unfold Graph.outs Graph.push
  dsimp only
  split <;> rfl

theorem inDegree_push : (G.push o c).inDegree p = G.inDegree p + o.count p := by
  unfold Graph.inDegree
  rw [show (G.push o c).bound = G.bound + 1 from rfl, sum_range_succ, outs_push, if_pos rfl]
  congr 1
  refine sum_congr rfl fun i hi => ?_
  rw [outs_push, if_neg (Nat.ne_of_lt (mem_range.mp hi))]

theorem outs_eq_nil (h : G.out p = none) : G.outs p = [] := by
  rw [Graph.outs, h]
  rfl

theorem out_ne_none_of_mem (h : q ∈ G.outs p) : G.out p ≠ none := by
  intro hp
  rw [outs_eq_nil hp] at h
  exact List.not_mem_nil h

theorem mem_of_inDegree_pos (h : 0 < G.inDegree p) : ∃ q, p ∈ G.outs q := by
  obtain ⟨q, -, hq⟩ := exists_ne_zero_of_sum_ne_zero (Nat.ne_of_gt h)
  exact ⟨q, List.count_pos_iff.mp (Nat.pos_of_ne_zero hq)⟩

theorem not_mem_of_inDegree (hb : q < G.bound) (h : G.inDegree p = 0) : p ∉ G.outs q := by
  intro hmem
  have hle : (G.outs q).count p ≤ G.inDegree p :=
    single_le_sum (f := fun q => (G.outs q).count p) (fun _ _ => Nat.zero_le _) (mem_range.mpr hb)
  have hpos := List.count_pos_iff.mpr hmem
  omega

/-- Taking an object out leaves fewer. -/
theorem size_set_none (hq : q < G.bound) (h : G.out q ≠ none) :
    (G.set q none c).size + 1 = G.size := by
  unfold Graph.size
  have herase : {i ∈ range (G.set q none c).bound | ((G.set q none c).out i).isSome} =
      {i ∈ range G.bound | (G.out i).isSome}.erase q := by
    ext i
    rw [mem_filter]
    show i ∈ range G.bound ∧ (if i = q then none else G.out i).isSome = true ↔ _
    by_cases hi : i = q
    · simp [hi]
    · simp [hi]
  have hmem : q ∈ {i ∈ range G.bound | (G.out i).isSome} :=
    mem_filter.mpr ⟨mem_range.mpr hq, Option.isSome_iff_ne_none.mpr h⟩
  rw [herase]
  exact card_erase_add_one hmem

theorem size_le (hb : G'.bound = G.bound) (h : ∀ p, G.out p = none → G'.out p = none) :
    G'.size ≤ G.size := by
  rw [Graph.size, hb]
  refine card_le_card fun i hi => ?_
  obtain ⟨hi, hsome⟩ := mem_filter.mp hi
  refine mem_filter.mpr ⟨hi, Option.isSome_iff_ne_none.mpr fun hnone => ?_⟩
  rw [h i hnone] at hsome
  cases hsome

theorem size_le_bound : G.size ≤ G.bound :=
  (card_filter_le _ _).trans (card_range _).le

/-! ## Steps -/

namespace Counted

/-- Only the objects that are there matter. -/
theorem congr (h : Counted G refs) (hout : ∀ p, G'.out p = G.out p)
    (hcount : ∀ p, G.out p ≠ none → G'.count p = G.count p) (hb : G'.bound = G.bound) :
    Counted G' refs := by
  have houts : ∀ p, G'.outs p = G.outs p := fun p => by unfold Graph.outs; rw [hout p]
  have hdeg : ∀ p, G'.inDegree p = G.inDegree p := by
    intro p
    rw [Graph.inDegree, hb]
    exact sum_congr rfl fun q _ => by rw [houts q]
  refine ⟨fun p hp => ?_, fun p q hq => ?_, fun p hp => ?_, fun p hp => ?_, fun p hp => ?_⟩
  · rw [hb]
    exact h.bound p (by rwa [← hout p])
  · rw [houts p] at hq
    rw [hout q]
    exact h.closed p q hq
  · rw [hout p]
    exact h.live p hp
  · rw [hout p] at hp
    rw [hcount p hp, hdeg p]
    exact h.count p hp
  · rw [hout p] at hp
    rw [hcount p hp]
    exact h.pos p hp

theorem perm {refs' : List Nat} (h : Counted G refs) (hp : refs.Perm refs') : Counted G refs' :=
  ⟨h.bound, h.closed, fun p hm => h.live p (hp.mem_iff.mpr hm),
    fun p hm => by rw [← hp.count_eq]; exact h.count p hm, h.pos⟩

/-- An object with one reference is referred to from nowhere else. -/
theorem alone (h : Counted G (p :: refs)) (hone : G.count p = 1) :
    p ∉ refs ∧ G.inDegree p = 0 := by
  have hc := h.count p (h.live p (by simp))
  rw [List.count_cons_self] at hc
  refine ⟨fun hm => ?_, by omega⟩
  have := List.count_pos_iff.mpr hm
  omega

/-- The last reference is given up: the references of the object are nobody's for now. -/
theorem release (h : Counted G (p :: refs)) (hone : G.count p = 1) :
    Counted (G.set p none c) (G.outs p ++ refs) := by
  have hlive := h.live p (by simp)
  obtain ⟨hrefs, hdeg⟩ := h.alone hone
  have hpb := h.bound p hlive
  have hnot : ∀ q, p ∉ G.outs q := by
    intro q hq
    exact not_mem_of_inDegree (h.bound q (out_ne_none_of_mem hq)) hdeg hq
  have hout : ∀ q, q ≠ p → (G.set p none c).out q = G.out q := fun q hq => if_neg hq
  have hself : (G.set p none c).out p = none := if_pos rfl
  have hne : ∀ q, (G.set p none c).out q ≠ none → q ≠ p := fun q hq he => hq (he ▸ hself)
  refine ⟨fun q hq => ?_, fun q r hr => ?_, fun q hq => ?_, fun q hq => ?_, fun q hq => ?_⟩
  · have hqp := hne q hq
    rw [hout q hqp] at hq
    exact h.bound q hq
  · rw [outs_set] at hr
    split at hr
    · exact absurd hr List.not_mem_nil
    · have hrp : r ≠ p := fun he => hnot q (he ▸ hr)
      rw [hout r hrp]
      exact h.closed q r hr
  · rcases List.mem_append.mp hq with hq | hq
    · have hqp : q ≠ p := fun he => hnot p (he ▸ hq)
      rw [hout q hqp]
      exact h.closed p q hq
    · have hqp : q ≠ p := fun he => hrefs (he ▸ hq)
      rw [hout q hqp]
      exact h.live q (by simp [hq])
  · have hqp := hne q hq
    rw [hout q hqp] at hq
    have hc := h.count q hq
    rw [List.count_cons_of_ne (Ne.symm hqp)] at hc
    have hset := inDegree_set (o := none) (c := c) (p := q) hpb
    simp only [Option.getD_none, List.count_nil] at hset
    rw [List.count_append, show (G.set p none c).count q = G.count q from if_neg hqp]
    omega
  · have hqp := hne q hq
    rw [hout q hqp] at hq
    rw [show (G.set p none c).count q = G.count q from if_neg hqp]
    exact h.pos q hq

/-- Changing the references of an object that stays, and the counter of none. -/
theorem relink {o : List Nat} {r : List Nat} (h : Counted G refs) (hq : G.out q ≠ none)
    (hperm : (G.outs q ++ refs).Perm (o ++ r)) :
    Counted (G.set q (some o) (G.count q)) r := by
  have hqb := h.bound q hq
  have hdef : ∀ p, (G.set q (some o) (G.count q)).out p ≠ none ↔ G.out p ≠ none := by
    intro p
    show (if p = q then some o else G.out p) ≠ none ↔ _
    split
    next hp => exact ⟨fun _ => hp ▸ hq, fun _ => by simp⟩
    next => exact Iff.rfl
  have hcount : ∀ p, (G.set q (some o) (G.count q)).count p = G.count p := by
    intro p
    show (if p = q then _ else _) = _
    split
    next hp => rw [hp]
    next => rfl
  have hlive : ∀ p ∈ o ++ r, G.out p ≠ none := by
    intro p hp
    rcases List.mem_append.mp (hperm.mem_iff.mpr hp) with hp | hp
    · exact h.closed q p hp
    · exact h.live p hp
  refine ⟨fun p hp => ?_, fun p r hr => ?_, fun p hp => ?_, fun p hp => ?_, fun p hp => ?_⟩
  · exact h.bound p ((hdef p).mp hp)
  · rw [hdef r]
    rw [outs_set] at hr
    split at hr
    · exact hlive r (List.mem_append_left _ hr)
    · exact h.closed p r hr
  · rw [hdef p]
    exact hlive p (by simp [hp])
  · have hc := h.count p ((hdef p).mp hp)
    have hset := inDegree_set (o := some o) (c := G.count q) (p := p) hqb
    have hpc := hperm.count_eq p
    simp only [List.count_append] at hpc
    simp only [Option.getD_some] at hset
    rw [hcount p]
    omega
  · rw [hcount p]
    exact h.pos p ((hdef p).mp hp)

/-- Changing the counter of one object along with the references that nothing accounts for. -/
theorem recount {refs' : List Nat} {n : Nat} (h : Counted G refs)
    (hlive : ∀ q ∈ refs', G.out q ≠ none) (hn : n = refs'.count p + G.inDegree p) (hpos : 0 < n)
    (hother : ∀ q, q ≠ p → refs'.count q = refs.count q) :
    Counted (G.set p (G.out p) n) refs' := by
  have hout : ∀ q, (G.set p (G.out p) n).out q = G.out q := by
    intro q
    show (if q = p then _ else _) = _
    split
    next hq => rw [hq]
    next => rfl
  have houts : ∀ q, (G.set p (G.out p) n).outs q = G.outs q := by
    intro q
    unfold Graph.outs
    rw [hout q]
  have hdeg : ∀ q, (G.set p (G.out p) n).inDegree q = G.inDegree q :=
    fun q => sum_congr rfl fun i _ => by rw [houts i]
  refine ⟨fun q hq => ?_, fun q r hr => ?_, fun q hq => ?_, fun q hq => ?_, fun q hq => ?_⟩
  · exact h.bound q (by rwa [← hout q])
  · rw [houts q] at hr
    rw [hout r]
    exact h.closed q r hr
  · rw [hout q]
    exact hlive q hq
  · rw [hout q] at hq
    rw [hdeg q]
    show (if q = p then _ else _) = _
    split
    next hqp => rw [hqp, hn]
    next hqp =>
      rw [hother q hqp]
      exact h.count q hq
  · rw [hout q] at hq
    show 0 < (if q = p then _ else _)
    split
    · exact hpos
    · exact h.pos q hq

/-- One more reference. -/
theorem take (h : Counted G refs) (hp : G.out p ≠ none) :
    Counted (G.set p (G.out p) (G.count p + 1)) (p :: refs) := by
  refine h.recount (fun q hq => ?_) ?_ (Nat.succ_pos _)
    fun q hq => List.count_cons_of_ne (Ne.symm hq)
  · rcases List.mem_cons.mp hq with rfl | hq
    · exact hp
    · exact h.live q hq
  · have hc := h.count p hp
    rw [List.count_cons_self]
    omega

/-- One reference less, where it is not the last. -/
theorem put (h : Counted G (p :: refs)) (hone : G.count p ≠ 1) :
    Counted (G.set p (G.out p) (G.count p - 1)) refs := by
  have hp := h.live p (by simp)
  have hpos := h.pos p hp
  refine h.recount (fun q hq => h.live q (by simp [hq])) ?_ (by omega)
    fun q hq => (List.count_cons_of_ne (Ne.symm hq)).symm
  have hc := h.count p hp
  rw [List.count_cons_self] at hc
  omega

/-- A new object takes over some references and is held by one. -/
theorem alloc (h : Counted G (o ++ refs)) : Counted (G.push o 1) (G.bound :: refs) := by
  have hfresh : G.out G.bound = none := by
    by_contra hne
    exact absurd (h.bound _ hne) (Nat.lt_irrefl _)
  have hnot : ∀ q, G.bound ∉ G.outs q := fun q hq => h.closed q _ hq hfresh
  have hno : G.bound ∉ o ++ refs := fun hm => h.live _ hm hfresh
  have hold : ∀ q, G.out q ≠ none → (G.push o 1).out q = G.out q :=
    fun q hq => if_neg fun (he : q = G.bound) => hq (he ▸ hfresh)
  have hself : (G.push o 1).out G.bound = some o := if_pos rfl
  have hdeg : G.inDegree G.bound = 0 := by
    by_contra hne
    obtain ⟨q, hq⟩ := mem_of_inDegree_pos (Nat.pos_of_ne_zero hne)
    exact hnot q hq
  refine ⟨fun q hq => ?_, fun q r hr => ?_, fun q hq => ?_, fun q hq => ?_, fun q hq => ?_⟩
  · show q < G.bound + 1
    by_cases hqb : q = G.bound
    · omega
    · rw [show (G.push o 1).out q = G.out q from if_neg hqb] at hq
      have := h.bound q hq
      omega
  · have hr' : G.out r ≠ none := by
      rw [outs_push] at hr
      split at hr
      · exact h.live r (by simp [hr])
      · exact h.closed q r hr
    rwa [hold r hr']
  · rcases List.mem_cons.mp hq with rfl | hq
    · rw [hself]
      exact Option.some_ne_none _
    · have hq' := h.live q (by simp [hq])
      rwa [hold q hq']
  · rw [inDegree_push]
    obtain rfl | hqb := eq_or_ne q G.bound
    · rw [List.mem_append, not_or] at hno
      rw [show (G.push o 1).count G.bound = 1 from if_pos rfl, List.count_cons_self, hdeg,
        List.count_eq_zero.mpr hno.1, List.count_eq_zero.mpr hno.2]
    · rw [show (G.push o 1).out q = G.out q from if_neg hqb] at hq
      have hc := h.count q hq
      rw [List.count_append] at hc
      rw [show (G.push o 1).count q = G.count q from if_neg hqb,
        List.count_cons_of_ne (Ne.symm hqb)]
      omega
  · obtain rfl | hqb := eq_or_ne q G.bound
    · rw [show (G.push o 1).count G.bound = 1 from if_pos rfl]
      exact Nat.one_pos
    · rw [show (G.push o 1).out q = G.out q from if_neg hqb] at hq
      rw [show (G.push o 1).count q = G.count q from if_neg hqb]
      exact h.pos q hq

/-- What a reference reaches is there. -/
theorem reaches (h : Counted G refs) (ha : G.out a ≠ none) (hr : Reaches G a b) :
    G.out b ≠ none := by
  induction hr with
  | refl => exact ha
  | step _ hc _ => exact h.closed _ _ hc

/-- **Without cycles, every object can be reached from the references that nothing accounts
for.** -/
theorem reaches_of_ranked (h : Counted G refs) (hr : Ranked G) (hp : G.out p ≠ none) :
    ∃ a ∈ refs, Reaches G a p := by
  obtain ⟨rank, hrank⟩ := hr
  classical
  by_contra hno
  -- the lost object of the highest rank has a reference from a lost one of a higher rank
  let lost := {q ∈ range G.bound | G.out q ≠ none ∧ ¬ ∃ a ∈ refs, Reaches G a q}
  have hlost : ∀ {q}, G.out q ≠ none → (¬ ∃ a ∈ refs, Reaches G a q) → q ∈ lost :=
    fun hq hnot => mem_filter.mpr ⟨mem_range.mpr (h.bound _ hq), hq, hnot⟩
  obtain ⟨t, ht, hmax⟩ := exists_max_image lost rank ⟨p, hlost hp hno⟩
  obtain ⟨-, ht, hnot⟩ := mem_filter.mp ht
  have hrefs : refs.count t = 0 := List.count_eq_zero.mpr fun hm => hnot ⟨t, hm, .refl⟩
  have hpos := h.pos t ht
  rw [h.count t ht, hrefs, Nat.zero_add] at hpos
  obtain ⟨q, hq⟩ := mem_of_inDegree_pos hpos
  have hle :=
    hmax q (hlost (out_ne_none_of_mem hq) fun ⟨a, ha, hreach⟩ => hnot ⟨a, ha, hreach.step hq⟩)
  have hlt := hrank q t hq
  omega

/-- **With no reference left and no cycles, nothing is left.** -/
theorem eq_none_of_ranked (h : Counted G []) (hr : Ranked G) (p : Nat) : G.out p = none := by
  by_contra hp
  obtain ⟨a, ha, -⟩ := h.reaches_of_ranked hr hp
  cases ha

end Counted

/-! ## Order -/

theorem Ranked.mono (h : Ranked G) (hsub : ∀ p, ∀ q ∈ G'.outs p, q ∈ G.outs p) : Ranked G' := by
  obtain ⟨rank, hrank⟩ := h
  exact ⟨rank, fun p q hq => hrank p q (hsub p q hq)⟩

theorem Reaches.trans {c : Nat} (h : Reaches G a b) (h' : Reaches G b c) : Reaches G a c := by
  induction h' with
  | refl => exact h
  | step _ hc ih => exact ih.step hc

theorem Reaches.mono (h : Reaches G' a b) (hsub : ∀ p, ∀ q ∈ G'.outs p, q ∈ G.outs p) :
    Reaches G a b := by
  induction h with
  | refl => exact .refl
  | step _ hc ih => exact ih.step (hsub _ _ hc)

/-- A set of objects that refer only to each other is not left. -/
theorem Reaches.of_closed {P : Nat → Prop} (h : Reaches G a b) (ha : P a)
    (hP : ∀ p, P p → ∀ q ∈ G.outs p, P q) : P b := by
  induction h with
  | refl => exact ha
  | step _ hc ih => exact hP _ ih _ hc

/-- A new object may refer to every other. -/
theorem Ranked.push (h : Ranked G) (hc : ∀ p, ∀ q ∈ G.outs p, q ≠ G.bound) (ho : G.bound ∉ o) :
    Ranked (G.push o c) := by
  obtain ⟨rank, hrank⟩ := h
  -- the new object is put above everything it refers to
  obtain ⟨top, htop⟩ : ∃ top, ∀ q ∈ o, rank q < top := by
    refine ⟨(o.map rank).sum + 1, fun q hq => ?_⟩
    exact Nat.lt_succ_of_le
      (List.single_le_sum (fun _ _ => Nat.zero_le _) _ (List.mem_map_of_mem hq))
  refine ⟨fun p => if p = G.bound then top else rank p, fun p q hq => ?_⟩
  rw [outs_push] at hq
  split at hq
  next hp =>
    dsimp only
    rw [if_pos hp, if_neg fun (he : q = G.bound) => ho (he ▸ hq)]
    exact htop q hq
  next hp =>
    dsimp only
    rw [if_neg hp, if_neg (hc p q hq)]
    exact hrank p q hq

/-- A reference to an object that does not lead back makes no cycle. -/
theorem Ranked.link (h : Ranked G) (hback : ¬ Reaches G b a)
    (hsub : ∀ p, ∀ q ∈ G'.outs p, q ∈ G.outs p ∨ p = a ∧ q = b) : Ranked G' := by
  classical
  obtain ⟨rank, hrank⟩ := h
  -- everything that leads to `a` is lifted above `b`
  refine ⟨fun p => if Reaches G p a then rank p + rank b + 1 else rank p, fun p q hq => ?_⟩
  dsimp only
  rcases hsub p q hq with hq | ⟨rfl, rfl⟩
  · have hlt := hrank p q hq
    by_cases hp : Reaches G p a
    · split <;> omega
    · have hqa : ¬ Reaches G q a := fun hr => hp ((Reaches.refl.step hq).trans hr)
      rwa [if_neg hp, if_neg hqa]
  · rw [if_neg hback, if_pos Reaches.refl]
    omega

end Osdev.Lib
