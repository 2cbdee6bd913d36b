import Osdev.Pages.Count

/-!
# Allocating, splitting and joining page lists

Each statement of these functions keeps `Sound`: the counters are right for the references held, the
logs agree with the store, and references do not run in circles. A new struct is held until it is
linked to the end of its list, and a link moves a reference from the holder into the store.
-/

namespace Osdev.Pages

open Osdev.Lib

variable {s s' : Store} {refs : List Nat} {p q a b first last b0 : Nat} {x y : Page}
variable {first' pgSize count frame fuel head : Nat}
variable {β : Type} {refs' : List Nat} {mk : Nat → Page} {n tail head' pptr ptr : Nat} {z : Page}
  {r : β}

/-- The invariant, for the references `refs` that are held outside of the store. -/
structure Sound (s : Store) (refs : List Nat) : Prop where
  counted : Counted (s.graph []) refs
  logged : Logged s []
  ranked : Ranked (s.graph [])

theorem Sound.perm (h : Sound s refs) (hp : refs.Perm refs') : Sound s refs' :=
  ⟨h.counted.perm hp, h.logged, h.ranked⟩

theorem Sound.page_of_mem (h : Sound s refs) (hp : p ∈ refs) : ∃ x, s.page p = some x :=
  (page_of_out (h.counted.live p hp)).2

theorem Sound.ne_zero (h : Sound s refs) (hp : s.page p = some x) : p ≠ 0 := h.logged.ne_zero hp

theorem Sound.lt_brk (h : Sound s refs) (hp : s.page p = some x) : p < s.brk := by
  by_contra hlt
  simp [h.logged.fresh p (by omega)] at hp

theorem Sound.page_of_outs (h : Sound s refs) (hq : q ∈ (s.graph []).outs p) :
    ∃ x, s.page q = some x :=
  (page_of_out (h.counted.closed p q hq)).2

theorem deref_ok (h : s.deref p = .ok x) : p ≠ 0 ∧ s.page p = some x := by
  obtain ⟨h0, h⟩ := guard_eq_ok.mp h
  split at h
  · cases h
  next y hy =>
    cases h
    exact ⟨h0, hy⟩

theorem deref_bind_ok {f : Page → Except Fault β}
    (h : s.deref p >>= f = .ok r) : ∃ x, p ≠ 0 ∧ s.page p = some x ∧ f x = .ok r := by
  obtain ⟨x, hx, h⟩ := bind_ok h
  exact ⟨x, (deref_ok hx).1, (deref_ok hx).2, h⟩

theorem modify_ok {f : Page → Page} (h : s.modify p f = .ok s') :
    ∃ x, p ≠ 0 ∧ s.page p = some x ∧ s' = s.set p (f x) := by
  obtain ⟨x, h0, hp, hs⟩ := deref_bind_ok h
  exact ⟨x, h0, hp, (Except.ok.inj hs).symm⟩

theorem modify_bind_ok {u : Page → Page} {f : Store → Except Fault β}
    (h : s.modify p u >>= f = .ok r) :
    ∃ x, p ≠ 0 ∧ s.page p = some x ∧ f (s.set p (u x)) = .ok r := by
  obtain ⟨s', hs, h⟩ := bind_ok h
  obtain ⟨x, h0, hp, rfl⟩ := modify_ok hs
  exact ⟨x, h0, hp, h⟩

theorem outs_of_page (hp : s.page p = some x) : (s.graph []).outs p = x.outs :=
  outs_graph hp List.not_mem_nil

theorem mem_outs_graph (h : q ∈ (s.graph []).outs p) : ∃ x, s.page p = some x ∧ q ∈ x.outs := by
  obtain ⟨-, x, hx⟩ := page_of_out (out_ne_none_of_mem h)
  rw [outs_of_page hx] at h
  exact ⟨x, hx, h⟩

/-- After a write to one struct, its references are those of the new value. -/
theorem mem_outs_set (h : q ∈ ((s.set a y).graph []).outs p) :
    (p = a ∧ q ∈ y.outs) ∨ (p ≠ a ∧ q ∈ (s.graph []).outs p) := by
  obtain ⟨x, hx, hq⟩ := mem_outs_graph h
  obtain rfl | hp := eq_or_ne p a
  · cases page_set_self.symm.trans hx
    exact .inl ⟨rfl, hq⟩
  · rw [page_set_ne hp] at hx
    exact .inr ⟨hp, by rwa [outs_of_page hx]⟩

theorem next_mem_outs (h : x.next ≠ 0) : x.next ∈ x.outs := mem_holding.mpr (.inl ⟨rfl, h⟩)

/-! ## Single writes -/

/-- A write that moves references between the struct and the holder. -/
theorem counted_write (h : Counted (s.graph []) refs) (hp : s.page p = some x)
    (hcount : y.refcount = x.refcount) (hperm : (x.outs ++ refs).Perm (y.outs ++ refs')) :
    Counted ((s.set p y).graph []) refs' := by
  refine counted_set List.not_mem_nil ?_
  rw [hcount, ← count_graph hp]
  exact h.relink (by simp [out_graph_some hp List.not_mem_nil]) (by rwa [outs_of_page hp])

/-- Writes that add nothing to what a struct refers to. -/
theorem outs_graph_set (hp : s.page p = some x) (houts : y.outs ⊆ x.outs) (a : Nat) :
    ∀ b ∈ ((s.set p y).graph []).outs a, b ∈ (s.graph []).outs a := by
  intro b hb
  rcases mem_outs_set hb with ⟨rfl, hby⟩ | ⟨-, hbs⟩
  · rw [outs_of_page hp]
    exact houts hby
  · exact hbs

/-- Writing fields that neither refer nor count. -/
theorem Sound.modify (h : Sound s refs) (hp : s.page p = some x) (houts : y.outs = x.outs)
    (hcount : y.refcount = x.refcount) (hown : y.Owns ↔ x.Owns)
    (hframe : x.Owns → y.frame p = x.frame p) : Sound (s.set p y) refs :=
  ⟨counted_write h.counted hp hcount (by rw [houts]), h.logged.set hp hown hframe,
    h.ranked.mono (outs_graph_set hp (by rw [houts]; exact fun _ => id))⟩

/-- `getref`. -/
theorem Sound.getref (h : Sound s refs) (hp : s.page p = some x) (hs : getref s p = .ok s') :
    Sound s' (p :: refs) ∧ s' = s.set p { x with refcount := x.refcount + 1 } := by
  have h0 := h.ne_zero hp
  unfold Osdev.Pages.getref at hs
  rw [if_neg h0, modify_eq hp h0] at hs
  cases hs
  refine ⟨⟨counted_set List.not_mem_nil ?_, h.logged.set hp Iff.rfl fun _ => rfl,
    h.ranked.mono (outs_graph_set hp fun _ => id)⟩, rfl⟩
  have hout := out_graph_some hp List.not_mem_nil
  have htake := h.counted.take (p := p) (by simp [hout])
  rwa [hout, count_graph hp] at htake

/-- Linking a held list to the end of another one. -/
theorem Sound.link (h : Sound s (b :: refs)) (hp : s.page a = some x) (hend : x.next = 0)
    (hback : ¬ Reaches (s.graph []) b a) : Sound (s.set a { x with next := b }) refs := by
  obtain ⟨z, hz⟩ := h.page_of_mem List.mem_cons_self
  have houts : ({ x with next := b } : Page).outs = b :: x.outs := by
    simp [Page.outs, holding_of_ne (h.ne_zero hz), hend]
  refine ⟨counted_write h.counted hp rfl (houts ▸ List.perm_middle),
    h.logged.set hp Iff.rfl fun _ => rfl, h.ranked.link hback fun p q hq => ?_⟩
  rcases mem_outs_set hq with ⟨rfl, hqy⟩ | ⟨-, hqs⟩
  · rw [houts] at hqy
    rw [outs_of_page hp]
    exact (List.mem_cons.mp hqy).symm.imp_right fun he => ⟨rfl, he⟩
  · exact .inl hqs

@[simp] theorem page_alloc_self : (s.alloc x).page s.brk = some x := if_pos rfl

@[simp] theorem page_alloc_ne (h : q ≠ s.brk) : (s.alloc x).page q = s.page q := if_neg h

/-- A new struct takes over the references it is made of. -/
theorem Sound.alloc (h : Sound s (x.outs ++ refs)) (hone : x.refcount = 1)
    (hcow : x.owning = true → x.cow = false) : Sound (s.alloc x) (s.brk :: refs) := by
  have hfresh : s.page s.brk = none := h.logged.fresh _ le_rfl
  have hout : ∀ q, ((s.alloc x).graph []).out q = ((s.graph []).push x.outs 1).out q := by
    intro q
    by_cases hq : q = s.brk <;> simp [Store.graph, Graph.push, hq]
  refine ⟨h.counted.alloc.congr hout (fun q _ => ?_) rfl, ?_, ?_⟩
  · by_cases hq : q = s.brk <;> simp [Store.graph, Graph.push, hq, hone]
  · have hl := h.logged
    have hbelow : ∀ f ∈ s.owned, f.page ≠ s.brk := fun f hf he => by
      have := hl.below f hf
      omega
    have hmem : ∀ f, f ∈ (s.alloc x).owned ↔ f ∈ s.owned ∨ x.owning = true ∧ f = x.frame s.brk := by
      intro f
      show f ∈ (if x.owning then x.frame s.brk :: s.owned else s.owned) ↔ _
      split
      next ho => simp [ho, or_comm]
      next ho => simp [ho]
    refine ⟨?_, Nat.succ_pos _, fun q hq => ?_, fun f hf => ?_, hl.once, fun f hf => ?_,
      fun f hf => ?_,
      fun f hf => ?_, fun q z hq _ hz => ?_⟩
    · rw [page_alloc_ne hl.brk.ne, hl.null]
    · rw [page_alloc_ne (Nat.ne_of_gt hq)]
      exact hl.fresh q (Nat.le_of_lt hq)
    · show f.page < s.brk + 1
      rcases (hmem f).mp hf with hf | ⟨-, rfl⟩
      · have := hl.below f hf
        omega
      · exact Nat.lt_succ_self _
    · exact (hmem f).mpr (.inl (hl.sub f hf))
    · rcases hl.gone f hf with hnone | hd
      · rw [page_alloc_ne (hbelow f (hl.sub f hf))]
        exact .inl hnone
      · exact .inr hd
    · rcases (hmem f).mp hf with hf | ⟨ho, rfl⟩
      · refine (hl.kept f hf).imp_right fun h => ?_
        obtain ⟨hd, z, hz, hzo, hfz⟩ := h
        exact ⟨hd, z, by rw [page_alloc_ne (hbelow f hf), hz], hzo, hfz⟩
      · exact .inr ⟨List.not_mem_nil, x, page_alloc_self, ⟨hcow ho, ho⟩, rfl⟩
    · obtain rfl | hqb := eq_or_ne q s.brk
      · cases page_alloc_self.symm.trans hq
        exact (hmem _).mpr (.inr ⟨hz.2, rfl⟩)
      · rw [page_alloc_ne hqb] at hq
        exact (hmem _).mpr (.inl (hl.own q z hq List.not_mem_nil hz))
  · have hnot : ∀ q, (s.graph []).out q ≠ none → q ≠ s.brk := by
      intro q hq he
      obtain ⟨-, z, hz⟩ := page_of_out hq
      simp [he, hfresh] at hz
    have hpush : Ranked ((s.graph []).push x.outs 1) :=
      h.ranked.push (fun p q hq => hnot q (h.counted.closed p q hq))
        fun hm => hnot s.brk (h.counted.live _ (List.mem_append_left _ hm)) rfl
    refine hpush.mono fun p q hq => ?_
    unfold Graph.outs at hq ⊢
    rwa [← hout p]

/-! ## Allocation -/

/-- The structs below `b0` refer only to each other. -/
def Below (s : Store) (b0 : Nat) : Prop := ∀ q < b0, ∀ r ∈ (s.graph []).outs q, r < b0

theorem Sound.below (h : Sound s refs) : Below s s.brk := by
  intro q _ r hr
  obtain ⟨x, hx⟩ := h.page_of_outs hr
  exact h.lt_brk hx

theorem Below.set (h : Below s b0) (ha : b0 ≤ a ∨ ∀ r ∈ y.outs, r ∈ (s.graph []).outs a) :
    Below (s.set a y) b0 := by
  intro q hq r hr
  rcases mem_outs_set hr with ⟨rfl, hry⟩ | ⟨-, hrs⟩
  · rcases ha with ha | ha
    · omega
    · exact h q hq r (ha r hry)
  · exact h q hq r hrs

theorem Below.alloc (h : Below s b0) (hb : b0 ≤ s.brk) : Below (s.alloc x) b0 := by
  intro q hq r hr
  obtain ⟨z, hz, hrz⟩ := mem_outs_graph hr
  rw [page_alloc_ne (by omega)] at hz
  exact h q hq r (by rwa [outs_of_page hz])

/-- The list being built: its last struct is new and has no next one. -/
def Open (s : Store) (b0 first last : Nat) : Prop :=
  first ≠ 0 → b0 ≤ last ∧ ∃ l, s.page last = some l ∧ l.next = 0

/-- Appending a new struct. -/
theorem append_spec (h : Sound s (x.outs ++ holding first refs)) (hone : x.refcount = 1)
    (hcow : x.owning = true → x.cow = false) (hnext : x.next = 0) (hb : Below s b0)
    (hle : b0 ≤ s.brk) (hold : ∀ r ∈ x.outs, r < b0) (hopen : Open s b0 first last)
    (hs : append s x first last = .ok (s', first')) :
    Sound s' (holding first' refs) ∧ Below s' b0 ∧ s'.brk = s.brk + 1 ∧
      Open s' b0 first' s.brk ∧ ∀ q < b0, s'.page q = s.page q := by
  have halloc := h.alloc hone hcow
  have hpos := h.logged.brk
  unfold append at hs
  split at hs
  next h0 =>
    cases hs
    rw [h0] at halloc
    rw [holding_of_ne (by omega)]
    exact ⟨halloc, hb.alloc hle, rfl, fun _ => ⟨hle, x, page_alloc_self, hnext⟩,
      fun q hq => page_alloc_ne (by omega)⟩
  next h0 =>
    obtain ⟨l', -, hl'', hs⟩ := modify_bind_ok hs
    cases hs
    obtain ⟨hlast, l, hl, hend⟩ := hopen h0
    have hlt := h.lt_brk hl
    have hl' : (s.alloc x).page last = some l := (page_alloc_ne hlt.ne).trans hl
    cases hl'.symm.trans hl''
    -- the new struct refers only to old ones, which do not lead to the list
    have hback : ¬ Reaches ((s.alloc x).graph []) s.brk last := by
      intro hr
      have hP := hr.of_closed (P := fun c => c = s.brk ∨ c < b0) (.inl rfl) (by
        rintro p (rfl | hp) r hr
        · rw [outs_of_page page_alloc_self] at hr
          exact .inr (hold r hr)
        · exact .inr (hb.alloc hle p hp r hr))
      omega
    refine ⟨halloc.link hl' hend hback, (hb.alloc hle).set (.inl hlast), rfl, fun _ => ?_,
      fun q hq => ?_⟩
    · exact ⟨hle, x, (page_set_ne (by omega)).trans page_alloc_self, hnext⟩
    · rw [page_set_ne (by omega), page_alloc_ne (by omega)]

/-- The loop over the frames of an allocation. -/
theorem structsLoop_spec {address : Nat} (hone : ∀ a, (mk a).refcount = 1)
    (hcow : ∀ a, (mk a).cow = false) (hnext : ∀ a, (mk a).next = 0)
    (h : Sound s (holding first refs)) (hb : Below s b0) (hle : b0 ≤ s.brk)
    (hopen : Open s b0 first last)
    (hs : structsLoop mk pgSize n s address first last = .ok (s', first')) :
    Sound s' (holding first' refs) := by
  induction n generalizing s address first last with
  | zero =>
    cases hs
    exact h
  | succ n ih =>
    obtain ⟨⟨s1, first1⟩, hs1, hs2⟩ := bind_ok hs
    have houts : (mk address).outs = [] := by simp [Page.outs, hnext, hcow]
    obtain ⟨h1, hb1, hbrk1, hopen1, -⟩ := append_spec (by rwa [houts]) (hone _)
      (fun _ => hcow _) (hnext _) hb hle (by rw [houts]; simp) hopen hs1
    exact ih h1 hb1 (by omega) hopen1 hs2

theorem markHead_spec {c : Bool} (h : Sound s (holding first refs))
    (hs : markHead s first count c = .ok (s', first')) : Sound s' (holding first' refs) := by
  obtain ⟨x, -, hx, hs⟩ := modify_bind_ok hs
  cases hs
  exact h.modify hx rfl rfl Iff.rfl fun _ => rfl

theorem open_zero : Open s b0 0 last := fun h => absurd rfl h

/-- The list of an allocation, which both allocators build. -/
theorem structs_spec (hone : ∀ a, (mk a).refcount = 1)
    (hcow : ∀ a, (mk a).cow = false) (hnext : ∀ a, (mk a).next = 0) (h : Sound s refs)
    (hs : structsLoop mk pgSize count s frame 0 0 >>=
    (fun r => markHead r.1 r.2 count true) = .ok (s', first)) :
    Sound s' (holding first refs) := by
  obtain ⟨⟨s1, first1⟩, hs1, hs2⟩ := bind_ok hs
  exact markHead_spec (structsLoop_spec hone hcow hnext (by rwa [holding_zero]) h.below
    le_rfl open_zero hs1) hs2

theorem allocPageStructs_spec {fa : Nat} (h : Sound s refs)
    (hs : allocPageStructs s fa frame count pgSize = .ok (s', first)) :
    Sound s' (holding first refs) := by
  obtain ⟨-, hs⟩ := guard_eq_ok.mp hs
  exact structs_spec (fun _ => rfl) (fun _ => rfl) (fun _ => rfl) h hs

theorem allocNonownedStructs_spec (h : Sound s refs)
    (hs : allocNonownedStructs s frame count pgSize = .ok (s', first)) :
    Sound s' (holding first refs) := by
  obtain ⟨-, hs⟩ := guard_eq_ok.mp hs
  exact structs_spec (fun _ => rfl) (fun _ => rfl) (fun _ => rfl) h hs

/-- The loop over the pages of the source list. -/
theorem cowLoop_spec {curr : Nat} (h : Sound s (holding first refs)) (hb : Below s b0)
    (hle : b0 ≤ s.brk) (hopen : Open s b0 first last) (hcurr : curr < b0)
    (hs : cowLoop fuel s curr first last = .ok (s', first')) : Sound s' (holding first' refs) := by
  induction fuel generalizing s curr first last with
  | zero => cases hs
  | succ fuel ih =>
    unfold cowLoop at hs
    split at hs
    · cases hs
      exact h
    next h0 =>
      obtain ⟨x, -, hx, hs⟩ := deref_bind_ok hs
      obtain ⟨s1, hs1, hs⟩ := bind_ok hs
      obtain ⟨⟨s2, first2⟩, hs2, hs⟩ := bind_ok hs
      obtain ⟨z, -, hz, hs⟩ := deref_bind_ok hs
      obtain ⟨h1, rfl⟩ := h.getref hx hs1
      have houts : (cowPage curr x).outs = [curr] := by
        simp [Page.outs, cowPage, holding_of_ne h0]
      have hopen1 : Open (s.set curr { x with refcount := x.refcount + 1 }) b0 first last := by
        intro hf
        obtain ⟨hl, l, hl', hn⟩ := hopen hf
        exact ⟨hl, l, (page_set_ne (by omega)).trans hl', hn⟩
      have hb1 : Below (s.set curr { x with refcount := x.refcount + 1 }) b0 :=
        hb.set (.inr fun r hr => by rwa [outs_of_page hx])
      obtain ⟨h2, hb2, hbrk2, hopen2, hsame⟩ := append_spec (by rwa [houts]) rfl
        (fun ho => by cases ho) rfl hb1 hle (by rw [houts]; simpa using hcurr) hopen1 hs2
      refine ih h2 hb2 (by rw [hbrk2]; exact Nat.le_succ_of_le hle) hopen2 ?_ hs
      by_cases hzn : z.next = 0
      · omega
      · exact hb2 curr hcurr z.next
          (by rw [outs_of_page hz]; exact next_mem_outs hzn)

theorem allocCowStructs_spec {pages : Nat} (h : Sound s refs)
    (hs : allocCowStructs s pages = .ok (s', first)) : Sound s' (holding first refs) := by
  obtain ⟨x, -, hx, hs⟩ := deref_bind_ok hs
  obtain ⟨-, hs⟩ := check_eq_ok.mp hs
  obtain ⟨⟨s1, first1⟩, hs1, hs⟩ := bind_ok hs
  obtain ⟨z, -, hs⟩ := bind_ok hs
  exact markHead_spec (cowLoop_spec (by rwa [holding_zero]) h.below le_rfl
    open_zero (h.lt_brk hx) hs1) hs

/-! ## Joining -/

/-- `q` is on the list that starts at `p`. -/
inductive OnList (s : Store) (p : Nat) : Nat → Prop
  | head : OnList s p p
  | next {q : Nat} {x : Page} : OnList s p q → s.page q = some x → x.next ≠ 0 → OnList s p x.next

/-- No page of one list leads to a page of the other. -/
def Apart (s : Store) (a b : Nat) : Prop :=
  ∀ p q, OnList s a p → OnList s b q →
    ¬ Reaches (s.graph []) p q ∧ ¬ Reaches (s.graph []) q p

theorem slistGetLast_spec (hs : slistGetLast fuel s p = .ok q) :
    (∃ l, s.page q = some l ∧ l.next = 0) ∧ ∀ {r}, OnList s r p → OnList s r q := by
  induction fuel generalizing p with
  | zero => cases hs
  | succ fuel ih =>
    obtain ⟨x, -, hx, hs⟩ := deref_bind_ok hs
    split at hs
    next hn =>
      cases hs
      exact ⟨⟨x, hx, hn⟩, id⟩
    next hn =>
      obtain ⟨hl, hon⟩ := ih hs
      exact ⟨hl, fun hr => hon (hr.next hx hn)⟩

theorem page_next_set (hz : (s.set p y).page q = some z) (hp : s.page p = some x)
    (hn : y.next = x.next) : ∃ w, s.page q = some w ∧ z.next = w.next := by
  obtain rfl | hq := eq_or_ne q p
  · cases page_set_self.symm.trans hz
    exact ⟨x, hp, hn⟩
  · rw [page_set_ne hq] at hz
    exact ⟨z, hz, rfl⟩

theorem joinLists_spec (h : Sound s (tail :: head :: refs))
    (hapart : Apart s head tail) (hs : joinLists s head tail = .ok (s', head')) :
    Sound s' (head :: refs) ∧ head' = head := by
  obtain ⟨x, hx, hs⟩ := bind_ok hs
  obtain ⟨y, hy, hs⟩ := bind_ok hs
  obtain ⟨-, hs⟩ := guard_eq_ok.mp hs
  obtain ⟨l, hl, hs⟩ := bind_ok hs
  obtain ⟨z, hz, hs⟩ := bind_ok hs
  obtain ⟨x1, -, hx1, hs⟩ := modify_bind_ok hs
  obtain ⟨y2, -, hy2, hs⟩ := modify_bind_ok hs
  obtain ⟨w3, -, hw3, hs⟩ := modify_bind_ok hs
  cases hs
  obtain ⟨⟨w, hw, hend⟩, hon⟩ := slistGetLast_spec hl
  have hback := (hapart l tail (hon .head) .head).2
  have h1 := h.modify (y := { x1 with
    count := x1.count + y.count
    contiguous := decide (addWord z.address x.size = y.address) && y.contiguous })
    hx1 rfl rfl Iff.rfl fun _ => rfl
  have h2 := h1.modify (y := { y2 with head := !y2.head, count := 0, contiguous := false })
    hy2 rfl rfl Iff.rfl fun _ => rfl
  obtain ⟨w2, hw2, hn2⟩ := page_next_set hw3 hy2 rfl
  obtain ⟨w1, hw1, hn1⟩ := page_next_set hw2 hx1 rfl
  cases hw.symm.trans hw1
  refine ⟨h2.link hw3 (by rw [hn2, hn1, hend]) fun hr => hback ?_, rfl⟩
  exact (hr.mono (outs_graph_set hy2 fun _ => id)).mono (outs_graph_set hx1 fun _ => id)

/-! ## Splitting -/

theorem splitWalk_spec (hs : splitWalk s n pptr ptr = .ok (a, b)) :
    (n = 0 ∧ a = pptr ∧ b = ptr) ∨ ∃ x, a ≠ 0 ∧ s.page a = some x ∧ x.next = b := by
  induction n generalizing pptr ptr with
  | zero =>
    cases hs
    exact .inl ⟨rfl, rfl, rfl⟩
  | succ n ih =>
    obtain ⟨h0, hs⟩ := guard_eq_ok.mp hs
    obtain ⟨x, -, hx, hs⟩ := deref_bind_ok hs
    rcases ih hs with ⟨-, rfl, rfl⟩ | hr
    · exact .inr ⟨x, h0, hx, rfl⟩
    · exact .inr hr

/-- Giving up a reference that is not the last one. -/
theorem putref_of_ne (h0 : p ≠ 0) (hp : s.page p = some x) (hne : x.refcount ≠ 1) :
    putref (fuel + 1) s p = .ok (s.set p { x with refcount := x.refcount - 1 }) := by
  rw [putref, if_neg h0, deref_eq hp h0]
  exact if_neg hne

theorem set_comm (hab : a ≠ b) : (s.set b y).set a x = (s.set a x).set b y := by
  unfold Store.set
  congr 1
  funext q
  by_cases hqa : q = a <;> simp [hqa, hab]

/-- The link to a page that is held is cut, and its reference given up. -/
theorem Sound.cut (h : Sound s (b :: refs)) (hp : s.page a = some x) (hn : x.next = b)
    (hb : s.page b = some z) (hs' : putref (s.brk + 1) s b = .ok s')
    {s'' : Store} (hs'' : s'.modify a (fun x => { x with next := 0 }) = .ok s'') :
    Sound s'' (b :: refs) := by
  have hb0 := h.ne_zero hb
  have hb_mem : b ∈ x.outs := hn ▸ next_mem_outs (hn ▸ hb0)
  have hab : a ≠ b := by
    rintro rfl
    obtain ⟨rank, hrank⟩ := h.ranked
    exact Nat.lt_irrefl _ (hrank a a (by rwa [outs_of_page hp]))
  -- the link is one reference and the held one another
  have htwo : 1 < z.refcount := by
    have hc := h.counted.count b (h.counted.live b (by simp))
    rw [count_graph hb, List.count_cons_self] at hc
    have hdeg : (s.graph []).inDegree b ≠ 0 := fun hz =>
      not_mem_of_inDegree (h.lt_brk hp) hz (by rwa [outs_of_page hp])
    omega
  rw [putref_of_ne hb0 hb (by omega)] at hs'
  cases hs'
  obtain ⟨x', -, hx', rfl⟩ := modify_ok hs''
  rw [page_set_ne hab, hp] at hx'
  cases hx'
  have houts : x.outs = b :: ({ x with next := 0 } : Page).outs := by
    simp [Page.outs, hn, holding_of_ne hb0]
  have hcut : Counted ((s.set a { x with next := 0 }).graph []) (b :: b :: refs) :=
    counted_write h.counted hp rfl (houts ▸ List.perm_middle.symm)
  have hb' : (s.set a { x with next := 0 }).page b = some z := (page_set_ne (Ne.symm hab)).trans hb
  have hput := hcut.put (by rw [count_graph hb']; omega)
  rw [out_graph_some hb' List.not_mem_nil, count_graph hb'] at hput
  rw [set_comm hab]
  refine ⟨counted_set List.not_mem_nil hput, ?_, (h.ranked.mono
    (outs_graph_set hp (houts ▸ List.subset_cons_self _ _))).mono (outs_graph_set hb' fun _ => id)⟩
  have hlog : Logged (s.set a { x with next := 0 }) [] := h.logged.set hp Iff.rfl fun _ => rfl
  exact hlog.set hb' Iff.rfl fun _ => rfl

theorem splitAt_spec (h : Sound s refs) (hp : s.page pptr = some x)
    (hn : x.next = ptr) (hs : splitAt s head count pptr ptr = .ok s') :
    Sound s' (ptr :: refs) := by
  obtain ⟨s1, hs1, hs⟩ := bind_ok hs
  obtain ⟨y, -, hs⟩ := bind_ok hs
  obtain ⟨z2, hptr0, hz2, hs⟩ := modify_bind_ok hs
  obtain ⟨v, -, hv, hs⟩ := modify_bind_ok hs
  obtain ⟨w, -, hw, hs⟩ := deref_bind_ok hs
  obtain ⟨s4, hs4, hs5⟩ := bind_ok hs
  -- the page after the cut is there, since its struct was written
  have hptr : ptr ∈ (s.graph []).outs pptr := by
    rw [outs_of_page hp, ← hn]
    exact next_mem_outs (hn ▸ hptr0)
  obtain ⟨z, hz⟩ := h.page_of_outs hptr
  obtain ⟨h1, rfl⟩ := h.getref hz hs1
  have h2 := h1.modify (y := { z2 with
    head := true
    count := y.count - count
    contiguous := y.contiguous }) hz2 rfl rfl Iff.rfl fun _ => rfl
  have h3 := h2.modify (y := { v with count := count }) hv rfl rfl Iff.rfl fun _ => rfl
  obtain ⟨w2, hw2, hn2⟩ := page_next_set hw hv rfl
  obtain ⟨w1, hw1, hn1⟩ := page_next_set hw2 hz2 rfl
  obtain ⟨w0, hw0, hn0⟩ := page_next_set hw1 hz rfl
  cases hp.symm.trans hw0
  have hwn : w.next = ptr := by rw [hn2, hn1, hn0, hn]
  rw [hwn] at hs4
  obtain ⟨z3, hz3⟩ := h3.page_of_mem List.mem_cons_self
  exact h3.cut hw hwn hz3 hs4 hs5

/-- The head of a split list stays held, and so is the tail from now on. -/
theorem pageListSplit_spec (h : Sound s refs)
    (hs : pageListSplit s head count 0 = .ok (s', head', tail)) :
    Sound s' (holding tail refs) ∧ head' = head := by
  unfold pageListSplit at hs
  split at hs
  · cases hs
    exact ⟨by rwa [holding_zero], rfl⟩
  next h0 =>
    rw [not_or] at h0
    obtain ⟨x, hx, hs⟩ := bind_ok hs
    obtain ⟨-, hs⟩ := guard_eq_ok.mp hs
    split at hs
    · cases hs
      exact ⟨by rwa [holding_zero], rfl⟩
    · obtain ⟨⟨pptr, ptr⟩, hwalk, hs⟩ := bind_ok hs
      obtain ⟨s1, hs1, hs⟩ := bind_ok hs
      cases hs
      rcases splitWalk_spec hwalk with ⟨hc, -, -⟩ | ⟨y, -, hy, hyn⟩
      · exact absurd hc h0.2
      · have hsound := splitAt_spec h hy hyn hs1
        obtain ⟨z, hz⟩ := hsound.page_of_mem List.mem_cons_self
        rw [holding_of_ne (hsound.ne_zero hz)]
        exact ⟨hsound, rfl⟩

/-! ## Dropping -/

/-- `drop_pages` returns. -/
theorem dropPages_spec (h : Sound s (p :: refs)) :
    ∃ s', dropPages s p = .ok s' ∧ Sound s' refs := by
  obtain ⟨x, hx⟩ := h.page_of_mem List.mem_cons_self
  obtain ⟨s', hs', hc, hl, hk⟩ := putref_spec (s.brk + 1) [] s p refs
    (by rw [holding_of_ne (h.ne_zero hx)]; exact h.counted) h.logged
    (Nat.lt_succ_of_le size_le_bound)
  refine ⟨s', hs', hc, hl, h.ranked.mono fun a b hb => ?_⟩
  obtain ⟨y, hy, hby⟩ := mem_outs_graph hb
  obtain ⟨z, hz, he⟩ := hk.page a y hy
  rw [outs_of_page hz]
  rwa [he] at hby

end Osdev.Pages
