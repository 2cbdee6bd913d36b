import Osdev.Lib.Except
import Osdev.Lib.RefGraph
import Osdev.Pages.Model

/-!
# What giving up a reference does

The store is a graph of page structs: a struct refers to the next one of its list and, if it is a
copy-on-write clone, to its source. While `fa_free_page` runs, the structs on its call stack have no
references left and their own are given up one after the other. They are the list `dying`: the graph
leaves them out, and the references that they still have to give up count as held.

`putref_spec` is the induction on the depth of the recursion. Every level takes one struct out of
the graph, so that the recursion ends.
-/

namespace Osdev.Pages

open Osdev.Lib

variable {s s' : Store} {dying refs : List Nat} {p q : Nat} {x : Page}
variable {l dying' : List Nat} {y : Page}
variable {put : Store → Nat → Except Fault Store} {n : Nat}

/-! ## The graph -/

theorem holding_of_ne (h : p ≠ 0) : holding p l = p :: l := if_neg h

@[simp] theorem holding_zero : holding 0 l = l := if_pos rfl

theorem mem_holding : q ∈ holding p l ↔ (q = p ∧ p ≠ 0) ∨ q ∈ l := by
  unfold holding
  split
  next h => simp [h]
  next h => simp [h]

/-- The references that a struct holds. -/
def Page.outs (x : Page) : List Nat := holding x.next (if x.cow then holding x.owner [] else [])

/-- The structs that are there and not dying. -/
def Store.graph (s : Store) (dying : List Nat) : Graph where
  out q := if q ∈ dying then none else (s.page q).map Page.outs
  count q := ((s.page q).map Page.refcount).getD 0
  bound := s.brk

theorem out_graph (hq : q ∉ dying) : (s.graph dying).out q = (s.page q).map Page.outs := if_neg hq

theorem out_graph_some (hp : s.page p = some x) (hd : p ∉ dying) :
    (s.graph dying).out p = some x.outs := by
  simp [out_graph hd, hp]

theorem outs_graph (hp : s.page p = some x) (hd : p ∉ dying) : (s.graph dying).outs p = x.outs := by
  simp [Graph.outs, out_graph_some hp hd]

theorem count_graph (hp : s.page p = some x) : (s.graph dying).count p = x.refcount := by
  simp [Store.graph, hp]

theorem page_of_out (h : (s.graph dying).out p ≠ none) : p ∉ dying ∧ ∃ x, s.page p = some x := by
  have hd : p ∉ dying := fun hm => h (if_pos hm)
  rw [out_graph hd, ne_eq, Option.map_eq_none_iff] at h
  exact ⟨hd, Option.ne_none_iff_exists'.mp h⟩

theorem deref_eq (hp : s.page p = some x) (h0 : p ≠ 0) : s.deref p = .ok x := by
  rw [Store.deref, if_neg h0, hp]

theorem modify_eq {f : Page → Page} (hp : s.page p = some x) (h0 : p ≠ 0) :
    s.modify p f = .ok (s.set p (f x)) := by
  rw [Store.modify, deref_eq hp h0]
  rfl

@[simp] theorem page_set_self : (s.set p x).page p = some x := if_pos rfl

@[simp] theorem page_set_ne (h : q ≠ p) : (s.set p x).page q = s.page q := if_neg h

@[simp] theorem page_kfree_self : (s.kfree p).page p = none := if_pos rfl

@[simp] theorem page_kfree_ne (h : q ≠ p) : (s.kfree p).page q = s.page q := if_neg h

theorem page_set_none (hp : s.page p = some x) (hq : s.page q = none) :
    (s.set p y).page q = none := by
  rw [page_set_ne, hq]
  rintro rfl
  cases hp.symm.trans hq

/-- A change to one struct that is in the graph changes one object of it. -/
theorem counted_set {refs' : List Nat} (hd : p ∉ dying)
    (h : Counted ((s.graph dying).set p (some y.outs) y.refcount) refs') :
    Counted ((s.set p y).graph dying) refs' := by
  refine h.congr (fun q => ?_) (fun q _ => ?_) rfl
  · by_cases hq : q = p <;> simp [Store.graph, Graph.set, hq, hd]
  · by_cases hq : q = p <;> simp [Store.graph, Graph.set, hq]

/-- The graph of two stores that differ in a struct which neither shows. -/
theorem counted_off (h : Counted (s.graph dying) refs) (hbrk : s'.brk = s.brk)
    (hpage : ∀ q, q ≠ p → s'.page q = s.page q) (hdying : ∀ q, q ≠ p → (q ∈ dying' ↔ q ∈ dying))
    (hp : (s.graph dying).out p = none) (hp' : (s'.graph dying').out p = none) :
    Counted (s'.graph dying') refs := by
  refine h.congr (fun q => ?_) (fun q hq => ?_) hbrk
  · by_cases hqp : q = p
    · rw [hqp, hp, hp']
    · simp [Store.graph, hpage q hqp, hdying q hqp]
  · have hqp : q ≠ p := fun he => hq (he ▸ hp)
    simp [Store.graph, hpage q hqp]

/-- A change to a dying struct is not seen. -/
theorem counted_set_dying (hd : p ∈ dying) (h : Counted (s.graph dying) refs) :
    Counted ((s.set p y).graph dying) refs :=
  counted_off h rfl (fun _ => page_set_ne) (fun _ _ => Iff.rfl) (if_pos hd) (if_pos hd)

/-- A struct without references leaves the graph. -/
theorem counted_dying (hp : s.page p = some x) (hd : p ∉ dying)
    (h : Counted (s.graph dying) (p :: refs)) (hone : x.refcount = 1) :
    Counted ((s.set p y).graph (p :: dying)) (x.outs ++ refs) := by
  have hrel := h.release (c := 0) (by rw [count_graph hp, hone])
  rw [outs_graph hp hd] at hrel
  refine hrel.congr (fun q => ?_) (fun q hq => ?_) rfl
  · by_cases hqp : q = p <;> simp [Store.graph, Graph.set, hqp]
  · have hqp : q ≠ p := fun he => hq (if_pos he)
    simp [Store.graph, Graph.set, hqp]

/-- A dying struct is freed. -/
theorem counted_kfree (h : Counted (s.graph (p :: dying)) refs) :
    Counted ((s.kfree p).graph dying) refs :=
  counted_off h rfl (fun _ => page_kfree_ne) (fun q hq => by simp [hq]) (if_pos (by simp))
    (by simp [Store.graph])

/-! ## The logs -/

/-- The frame that a struct owns. -/
def Page.frame (x : Page) (p : Nat) : Frame := ⟨p, x.owner, x.address, x.size⟩

/-- Freeing the struct gives its frame back. -/
def Page.Owns (x : Page) : Prop := x.cow = false ∧ x.owning = true

/-- A frame that a struct was made to own has been given back, or the struct is there. -/
structure Logged (s : Store) (dying : List Nat) : Prop where
  null : s.page 0 = none
  brk : 0 < s.brk
  fresh : ∀ p, s.brk ≤ p → s.page p = none
  below : ∀ f ∈ s.owned, f.page < s.brk
  once : s.returned.Nodup
  sub : ∀ f ∈ s.returned, f ∈ s.owned
  gone : ∀ f ∈ s.returned, s.page f.page = none ∨ f.page ∈ dying
  kept : ∀ f ∈ s.owned, f ∈ s.returned ∨
    f.page ∉ dying ∧ ∃ x, s.page f.page = some x ∧ x.Owns ∧ f = x.frame f.page
  own : ∀ p x, s.page p = some x → p ∉ dying → x.Owns → x.frame p ∈ s.owned

theorem Logged.ne_zero (h : Logged s dying) (hp : s.page p = some x) : p ≠ 0 := by
  rintro rfl
  simp [h.null] at hp

/-- The struct that owns the frame is there. -/
def Store.Live (s : Store) (dying : List Nat) (f : Frame) : Prop :=
  f.page ∉ dying ∧ ∃ x, s.page f.page = some x ∧ x.Owns ∧ f = x.frame f.page

/-- A step that neither makes nor gives back a frame has only to leave the owners there. -/
theorem Logged.of_live (h : Logged s dying) (hbrk : s'.brk = s.brk) (howned : s'.owned = s.owned)
    (hret : s'.returned = s.returned) (hnone : ∀ q, s.page q = none → s'.page q = none)
    (hdead : ∀ q ∈ dying, q ∈ dying' ∨ s'.page q = none)
    (hlive : ∀ f, s'.Live dying' f ↔ s.Live dying f) : Logged s' dying' := by
  refine ⟨hnone 0 h.null, hbrk ▸ h.brk, fun q hq => hnone q (h.fresh q (hbrk ▸ hq)), ?_,
    hret ▸ h.once,
    ?_, ?_, ?_, fun q z hq hd hz => ?_⟩
  · rw [howned, hbrk]
    exact h.below
  · rw [howned, hret]
    exact h.sub
  · rw [hret]
    intro f hf
    rcases h.gone f hf with hn | hd
    · exact .inl (hnone _ hn)
    · exact (hdead _ hd).symm
  · rw [howned, hret]
    exact fun f hf => (h.kept f hf).imp_right (hlive f).mpr
  · obtain ⟨hd', y, hy, ho, hf⟩ := (hlive (z.frame q)).mp ⟨hd, z, hq, hz, rfl⟩
    rw [howned, hf]
    exact h.own q y hy hd' ho

section

variable (h : Logged s dying) (hp : s.page p = some x)

include h hp

/-- Changes to a struct that leave what it owns alone. -/
theorem Logged.set (hown : y.Owns ↔ x.Owns)
    (hframe : x.Owns → y.frame p = x.frame p) :
    Logged (s.set p y) dying := by
  refine h.of_live rfl rfl rfl (fun _ => page_set_none hp) (fun _ hq => .inl hq) fun f => ?_
  unfold Store.Live
  by_cases hf : f.page = p
  · simp only [hf, page_set_self, hp, Option.some.injEq, exists_eq_left', hown]
    exact and_congr_right fun _ => and_congr_right fun ho => by rw [hframe ho]
  · rw [page_set_ne hf]

theorem Logged.set_dying (hd : p ∈ dying) :
    Logged (s.set p y) dying := by
  refine h.of_live rfl rfl rfl (fun _ => page_set_none hp) (fun _ hq => .inl hq) fun f =>
    and_congr_right fun hf => ?_
  have hfp : f.page ≠ p := fun he => hf (he ▸ hd)
  rw [page_set_ne hfp]

/-- A struct that owns nothing starts to die. -/
theorem Logged.start_dying (ho : ¬ x.Owns) :
    Logged s (p :: dying) := by
  refine h.of_live rfl rfl rfl (fun _ => id) (fun q hq => .inl (by simp [hq])) fun f =>
    and_congr_left fun ⟨z, hz, hzo, _⟩ => ?_
  have hfp : f.page ≠ p := by
    intro he
    cases (he ▸ hz).symm.trans hp
    exact ho hzo
  simp [hfp]

/-- A struct that owns its frame gives it back and starts to die. -/
theorem Logged.faFree (hd : p ∉ dying)
    (ho : x.Owns) : Logged (s.faFree (x.frame p)) (p :: dying) := by
  refine ⟨h.null, h.brk, h.fresh, h.below, ?_, fun f hf => ?_, fun f hf => ?_, fun f hf => ?_,
    fun q z hq hqd hz => ?_⟩
  · refine List.nodup_cons.mpr ⟨fun hm => ?_, h.once⟩
    rcases h.gone _ hm with hnone | hm
    · simp [show (x.frame p).page = p from rfl, hp] at hnone
    · exact hd hm
  · rcases List.mem_cons.mp hf with rfl | hf
    · exact h.own p x hp hd ho
    · exact h.sub f hf
  · rcases List.mem_cons.mp hf with rfl | hf
    · exact .inr List.mem_cons_self
    · exact (h.gone f hf).imp_right (List.mem_cons_of_mem _)
  · rcases h.kept f hf with hret | ⟨hfd, z, hz, hzo, hfz⟩
    · exact .inl (List.mem_cons_of_mem _ hret)
    · by_cases hfp : f.page = p
      · rw [hfp, hp] at hz
        cases hz
        rw [hfp] at hfz
        exact .inl (hfz ▸ List.mem_cons_self)
      · refine .inr ⟨fun hm => ?_, z, hz, hzo, hfz⟩
        rcases List.mem_cons.mp hm with he | hm
        · exact hfp he
        · exact hfd hm
  · exact h.own q z hq (fun hm => hqd (by simp [hm])) hz

end

theorem Logged.kfree (h : Logged s (p :: dying)) : Logged (s.kfree p) dying := by
  refine h.of_live rfl rfl rfl (fun q hq => ?_) (fun q hq => ?_) fun f => ?_
  · by_cases hqp : q = p <;> simp [hqp, hq]
  · rcases List.mem_cons.mp hq with rfl | hq
    · exact .inr page_kfree_self
    · exact .inl hq
  · by_cases hf : f.page = p <;> simp [Store.Live, hf]

/-! ## Giving up references -/

/-- What giving up references leaves alone: a struct that is still there has only another counter,
and the dying ones are not touched. -/
structure Kept (dying : List Nat) (s s' : Store) : Prop where
  brk : s'.brk = s.brk
  owned : s'.owned = s.owned
  same : ∀ q ∈ dying, s'.page q = s.page q
  page : ∀ q x', s'.page q = some x' →
    ∃ x, s.page q = some x ∧ x' = { x with refcount := x'.refcount }

theorem Kept.refl : Kept dying s s := ⟨rfl, rfl, fun _ _ => rfl, fun _ x h => ⟨x, h, rfl⟩⟩

theorem Kept.trans {s'' : Store} (h : Kept dying s s') (h' : Kept dying s' s'') :
    Kept dying s s'' := by
  refine ⟨h'.brk.trans h.brk, h'.owned.trans h.owned,
    fun q hq => (h'.same q hq).trans (h.same q hq), fun q x' hx' => ?_⟩
  obtain ⟨y, hy, he⟩ := h'.page q x' hx'
  obtain ⟨x, hx, he'⟩ := h.page q y hy
  refine ⟨x, hx, ?_⟩
  rw [he, he']

/-- Structs only go. -/
theorem size_graph_le (hbrk : s'.brk = s.brk)
    (h : ∀ q, q ∉ dying' → q ∈ dying ∨ s.page q = none → s'.page q = none) :
    (s'.graph dying').size ≤ (s.graph dying).size := by
  refine Lib.size_le hbrk fun q hq => ?_
  simp only [Store.graph, ite_eq_left_iff, Option.map_eq_none_iff] at hq ⊢
  exact fun hd => h q hd (or_iff_not_imp_left.mpr hq)

theorem Kept.size_le (h : Kept dying s s') : (s'.graph dying).size ≤ (s.graph dying).size := by
  refine size_graph_le h.brk fun q hd hq => ?_
  by_contra hne
  obtain ⟨x', hx'⟩ := Option.ne_none_iff_exists'.mp hne
  obtain ⟨x, hx, -⟩ := h.page q x' hx'
  exact hq.elim hd fun hn => by cases hn.symm.trans hx

/-- What a way of giving up references has to promise while `dying` are on the call stack. -/
def PutSpec (put : Store → Nat → Except Fault Store) (dying : List Nat) (n : Nat) : Prop :=
  ∀ s p refs, Counted (s.graph dying) (holding p refs) → Logged s dying →
    (s.graph dying).size < n →
    ∃ s', put s p = .ok s' ∧ Counted (s'.graph dying) refs ∧ Logged s' dying ∧ Kept dying s s'

section Free

variable (hput : PutSpec put (p :: dying) n) (hp : s.page p = some x) (hd : p ∉ dying)
  (hlog : Logged s dying) (hc : Counted (s.graph (p :: dying)) (x.outs ++ refs))
  (hn : (s.graph (p :: dying)).size < n)

include hput hp hd hlog hc hn

/-- The first half of `fa_free_page` on a struct whose counter has come down to zero. -/
theorem releaseFrame_spec :
    ∃ s' x', releaseFrame put s p x = .ok s' ∧ s'.page p = some x' ∧ x'.next = x.next ∧
      Counted (s'.graph (p :: dying)) (holding x.next refs) ∧ Logged s' (p :: dying) ∧
      s'.brk = s.brk ∧ s'.owned = s.owned ∧ (s'.graph (p :: dying)).size < n ∧
      (∀ q ∈ dying, s'.page q = s.page q) ∧
      ∀ q y', q ≠ p → s'.page q = some y' →
        ∃ y, s.page q = some y ∧ y' = { y with refcount := y'.refcount } := by
  have h0 := hlog.ne_zero hp
  unfold releaseFrame
  by_cases hcow : x.cow = true
  · have hnot : ¬ x.Owns := fun ho => by rw [ho.1] at hcow; cases hcow
    have hperm : (x.outs ++ refs).Perm (holding x.owner (holding x.next refs)) := by
      unfold Page.outs holding
      split_ifs
      · exact .refl _
      · exact .refl _
      · exact .refl _
      · exact .swap _ _ _
    obtain ⟨s1, hs1, hc1, hlog1, hk1⟩ :=
      hput s x.owner (holding x.next refs) (hc.perm hperm) (hlog.start_dying hp hnot) hn
    have hp1 : s1.page p = some x := by rw [hk1.same p (by simp), hp]
    refine ⟨s1.set p { x with owner := 0 }, { x with owner := 0 }, ?_, page_set_self, rfl,
      counted_set_dying (by simp) hc1, hlog1.set_dying hp1 (by simp), hk1.brk,
      hk1.owned, ?_, fun q hq => ?_, fun q y' hq hy' => ?_⟩
    · rw [if_pos hcow, hs1]
      exact modify_eq hp1 h0
    · have hsize : ((s1.set p { x with owner := 0 }).graph (p :: dying)).size ≤
          (s1.graph (p :: dying)).size :=
        size_graph_le rfl fun q hd hq => page_set_none hp1 (hq.resolve_left hd)
      exact (hsize.trans hk1.size_le).trans_lt hn
    · rw [page_set_ne fun (he : q = p) => hd (he ▸ hq)]
      exact hk1.same q (by simp [hq])
    · rw [page_set_ne hq] at hy'
      exact hk1.page q y' hy'
  · have houts : x.outs ++ refs = holding x.next refs := by
      unfold Page.outs holding
      split <;> rfl
    rw [houts] at hc
    rw [if_neg hcow]
    by_cases how : x.owning = true
    · rw [if_pos how]
      have ho : x.Owns := ⟨by simpa using hcow, how⟩
      exact ⟨s.faFree (x.frame p), x, rfl, hp, rfl, hc, hlog.faFree hp hd ho, rfl, rfl, hn,
        fun _ _ => rfl, fun _ y' _ hy' => ⟨y', hy', rfl⟩⟩
    · rw [if_neg how]
      exact ⟨s, x, rfl, hp, rfl, hc, hlog.start_dying hp fun ho => how ho.2, rfl, rfl, hn,
        fun _ _ => rfl, fun _ y' _ hy' => ⟨y', hy', rfl⟩⟩

/-- `fa_free_page` on a struct whose counter has come down to zero. -/
theorem faFreePage_spec :
    ∃ s', faFreePage put s p = .ok s' ∧ Counted (s'.graph dying) refs ∧ Logged s' dying ∧
      Kept dying s s' := by
  have h0 := hlog.ne_zero hp
  obtain ⟨s1, x1, hs1, hp1, hnext, hc1, hlog1, hbrk1, howned1, hn1, hsame1, hpage1⟩ :=
    releaseFrame_spec hput hp hd hlog hc hn
  obtain ⟨s2, hs2, hc2, hlog2, hk2⟩ := hput s1 x.next refs hc1 hlog1 hn1
  have hp2 : s2.page p = some x1 := by rw [hk2.same p (by simp), hp1]
  have hkpage : ∀ q, q ≠ p →
      ((s2.set p { x1 with next := 0 }).kfree p).page q = s2.page q := by
    intro q hq
    simp [hq]
  refine ⟨(s2.set p { x1 with next := 0 }).kfree p, ?_,
    counted_kfree (counted_set_dying (by simp) hc2),
    (hlog2.set_dying hp2 (by simp)).kfree, hk2.brk.trans hbrk1, hk2.owned.trans howned1,
    fun q hq => ?_, fun q x' hx' => ?_⟩
  · simp [faFreePage, deref_eq hp h0, hs1, deref_eq hp1 h0, hnext, hs2, modify_eq hp2 h0]
  · have hqp : q ≠ p := fun he => hd (he ▸ hq)
    rw [hkpage q hqp, hk2.same q (by simp [hq]), hsame1 q hq]
  · have hqp : q ≠ p := by
      rintro rfl
      simp at hx'
    rw [hkpage q hqp] at hx'
    obtain ⟨y, hy, he⟩ := hk2.page q x' hx'
    obtain ⟨z, hz, he'⟩ := hpage1 q y hqp hy
    exact ⟨z, hz, by rw [he, he']⟩

end Free

/-- **Giving up a reference returns, and every counter is right again.** -/
theorem putref_spec (fuel : Nat) (dying : List Nat) : PutSpec (putref fuel) dying fuel := by
  induction fuel generalizing dying with
  | zero =>
    intro s p refs _ _ hn
    exact absurd hn (Nat.not_lt_zero _)
  | succ fuel ih =>
    intro s p refs hc hlog hn
    unfold putref
    by_cases h0 : p = 0
    · rw [h0] at hc
      exact ⟨s, if_pos h0, hc, hlog, .refl⟩
    · rw [holding_of_ne h0] at hc
      obtain ⟨hd, x, hp⟩ := page_of_out (hc.live p (by simp))
      rw [if_neg h0, deref_eq hp h0]
      show ∃ s', (if x.refcount = 1 then
        faFreePage (putref fuel) (s.set p { x with refcount := x.refcount - 1 }) p
        else Except.ok (s.set p { x with refcount := x.refcount - 1 })) = .ok s' ∧ _
      have hkept : Kept dying s (s.set p { x with refcount := x.refcount - 1 }) := by
        refine ⟨rfl, rfl, fun q hq => page_set_ne fun he => hd (he ▸ hq), fun q y hy => ?_⟩
        obtain rfl | hqp := eq_or_ne q p
        · rw [page_set_self] at hy
          cases hy
          exact ⟨x, hp, rfl⟩
        · rw [page_set_ne hqp] at hy
          exact ⟨y, hy, rfl⟩
      have hlog' : Logged (s.set p { x with refcount := x.refcount - 1 }) dying :=
        hlog.set hp Iff.rfl fun _ => rfl
      by_cases hone : x.refcount = 1
      · rw [if_pos hone]
        have hc' : Counted ((s.set p { x with refcount := x.refcount - 1 }).graph (p :: dying))
            (x.outs ++ refs) := counted_dying hp hd hc hone
        have hsize : ((s.set p { x with refcount := x.refcount - 1 }).graph (p :: dying)).size
            < fuel := by
          have hlive := hc.live p (by simp)
          have hdrop := size_set_none (c := 0) (hc.bound p hlive) hlive
          have hle : ((s.set p { x with refcount := x.refcount - 1 }).graph (p :: dying)).size ≤
              ((s.graph dying).set p none 0).size := by
            refine Lib.size_le rfl fun q hq => ?_
            by_cases hqp : q = p
            · simp [Store.graph, hqp]
            · simpa [Store.graph, Graph.set, hqp] using hq
          omega
        obtain ⟨s', hs', hc'', hlog'', hk⟩ :=
          faFreePage_spec (ih (p :: dying)) page_set_self hd hlog' hc' hsize
        exact ⟨s', hs', hc'', hlog'', hkept.trans hk⟩
      · rw [if_neg hone]
        refine ⟨_, rfl, counted_set hd ?_, hlog', hkept⟩
        have hput := hc.put (by rwa [count_graph hp])
        rwa [out_graph_some hp hd, count_graph hp] at hput

end Osdev.Pages
