import Osdev.Pages.Chain

/-!
# Page lists as lists of frames

A page list is a chain of page structs, and what its owner cares for are the frames of the chain in
their order. `PageList s p l` says that the list at `p` is the chain `l`, and that its head knows
the length. Joining two lists appends the chains, and an allocation makes a chain over the frames of
one region.
-/

namespace Osdev.Pages

open Osdev.Lib

variable {s s' s'' : Store} {p q a b : Nat} {x y : Page}
variable {t t' : List Nat} {n first last count : Nat}

/-- A page struct of a list, and the address of its frame. -/
structure Entry where
  page : Nat
  frame : Nat
  deriving DecidableEq, Repr

variable {e : Entry} {l la lb : List Entry}

/-- Following `next` from `p` leads through the structs of `l` and then to `NULL`. -/
def Linked (s : Store) : Nat → List Entry → Prop
  | p, [] => p = 0
  | p, e :: l => p = e.page ∧ p ≠ 0 ∧
      ∃ x, s.page p = some x ∧ x.address = e.frame ∧ x.size = pageSize ∧ Linked s x.next l

/-- The list of 4K pages at `p`, where `NULL` is the empty list. -/
structure PageList (s : Store) (p : Nat) (l : List Entry) : Prop where
  linked : Linked s p l
  head : l ≠ [] → ∃ x, s.page p = some x ∧ x.head = true ∧ x.count = l.length

/-- Of the structs that were there, only those in `touched` have changed. -/
structure Extends (touched : List Nat) (s s' : Store) : Prop where
  brk : s.brk ≤ s'.brk
  same : ∀ q < s.brk, q ∉ touched → s'.page q = s.page q

theorem Extends.refl (touched : List Nat) (s : Store) : Extends touched s s :=
  ⟨le_rfl, fun _ _ _ => rfl⟩

/-- What the second step touches may be new. -/
theorem Extends.trans (h : Extends t s s') (h' : Extends t' s' s'')
    (ht : ∀ q < s.brk, q ∈ t' → q ∈ t) : Extends t s s'' where
  brk := h.brk.trans h'.brk
  same q hq hn := (h'.same q (hq.trans_le h.brk) fun hm => hn (ht q hq hm)).trans
    (h.same q hq hn)

theorem Extends.mono (h : Extends t s s') (ht : ∀ q < s.brk, q ∈ t → q ∈ t') :
    Extends t' s s' :=
  ⟨h.brk, fun q hq hn => h.same q hq fun hm => hn (ht q hq hm)⟩

/-! ## Chains -/

theorem linked_nil : Linked s p [] ↔ p = 0 := Iff.rfl

/-- The chain of the structs, and what they say of their frames. -/
theorem linked_iff : Linked s p l ↔ Chain s (l.map Entry.page) 0 ∧ (l.map Entry.page).headD 0 = p ∧
    ∀ e ∈ l, ∃ x, s.page e.page = some x ∧ x.address = e.frame ∧ x.size = pageSize := by
  induction l generalizing p with
  | nil => simp [Linked, Chain, eq_comm]
  | cons e l ih =>
    simp only [Linked, ih, Chain, List.map_cons, List.headD_cons, List.forall_mem_cons]
    constructor
    · rintro ⟨rfl, h0, x, hx, ha, hz, hc, hn, hl⟩
      exact ⟨⟨h0, by rw [next_eq hx, hn], hc⟩, rfl, ⟨x, hx, ha, hz⟩, hl⟩
    · rintro ⟨⟨h0, hn, hc⟩, rfl, ⟨x, hx, ha, hz⟩, hl⟩
      exact ⟨rfl, h0, x, hx, ha, hz, hc, Option.some.inj (hn.symm.trans (next_eq hx)), hl⟩

theorem Linked.unique (ha : Linked s p la) (hb : Linked s p lb) : la = lb := by
  induction la generalizing p lb with
  | nil =>
    cases lb with
    | nil => rfl
    | cons d lb => exact absurd ha hb.2.1
  | cons c la ih =>
    cases lb with
    | nil => exact absurd hb ha.2.1
    | cons d lb =>
      obtain ⟨hc, -, x, hx, hcf, -, hla⟩ := ha
      obtain ⟨hd, -, y, hy, hdf, -, hlb⟩ := hb
      cases hx.symm.trans hy
      have hcd : c = d := by
        cases c
        cases d
        exact congrArg₂ _ (hc.symm.trans hd) (hcf.symm.trans hdf)
      rw [hcd, ih hla hlb]

/-- A chain only depends on its own structs. -/
theorem Linked.congr (h : Linked s p l) (hs : ∀ e ∈ l, s'.page e.page = s.page e.page) :
    Linked s' p l := by
  induction l generalizing p with
  | nil => exact h
  | cons c l ih =>
    obtain ⟨rfl, h0, x, hx, ha, hsz, hrest⟩ := h
    refine ⟨rfl, h0, x, ?_, ha, hsz, ih hrest fun e he => hs e (by simp [he])⟩
    rwa [hs c List.mem_cons_self]

/-- Writing fields that are not part of the chain. -/
theorem Linked.set (h : Linked s p l) (hx : s.page q = some x) (haddr : y.address = x.address)
    (hsize : y.size = x.size) (hnext : y.next = x.next) : Linked (s.set q y) p l := by
  induction l generalizing p with
  | nil => exact h
  | cons c l ih =>
    obtain ⟨rfl, h0, z, hz, ha, hsz, hrest⟩ := h
    obtain rfl | hq := eq_or_ne c.page q
    · cases hx.symm.trans hz
      exact ⟨rfl, h0, y, page_set_self, haddr.trans ha,
        hsize.trans hsz, by rw [hnext]; exact ih hrest⟩
    · exact ⟨rfl, h0, z, (page_set_ne hq).trans hz, ha, hsz, ih hrest⟩

/-- The last struct of a chain links the chain that follows. -/
theorem Linked.append (h : Linked s p (l ++ [e])) (hx : s.page e.page = some x)
    (hb : Linked s b lb) (hl : e.page ∉ l.map Entry.page) (hlb : e.page ∉ lb.map Entry.page) :
    Linked (s.set e.page { x with next := b }) p (l ++ [e] ++ lb) := by
  induction l generalizing p with
  | nil =>
    obtain ⟨rfl, h0, z, hz, ha, hsz, -⟩ := h
    cases hx.symm.trans hz
    refine ⟨rfl, h0, _, page_set_self, ha, hsz, hb.congr fun c hc => page_set_ne fun he => ?_⟩
    exact hlb (he ▸ List.mem_map_of_mem hc)
  | cons c l ih =>
    obtain ⟨rfl, h0, z, hz, ha, hsz, hrest⟩ := h
    rw [List.map_cons, List.mem_cons, not_or] at hl
    exact ⟨rfl, h0, z, (page_set_ne (Ne.symm hl.1)).trans hz, ha, hsz, ih hrest hl.2⟩

theorem PageList.congr (h : PageList s p l) (hs : ∀ e ∈ l, s'.page e.page = s.page e.page) :
    PageList s' p l := by
  refine ⟨h.linked.congr hs, fun hne => ?_⟩
  obtain ⟨x, hx, hh, hc⟩ := h.head hne
  cases l with
  | nil => exact absurd rfl hne
  | cons c l =>
    obtain ⟨rfl, -⟩ := h.linked
    exact ⟨x, (hs c (by simp)).trans hx, hh, hc⟩

/-- A list that no step touches stays as it is. -/
theorem PageList.extends (h : PageList s p l) (he : Extends t s s')
    (hlt : ∀ e ∈ l, e.page < s.brk) (ht : ∀ e ∈ l, e.page ∉ t) : PageList s' p l :=
  h.congr fun e hm => he.same _ (hlt e hm) (ht e hm)

theorem pageList_nil : PageList s 0 [] := ⟨rfl, fun h => absurd rfl h⟩

theorem PageList.head_page (h : PageList s p l) (hne : l ≠ []) : p ∈ l.map Entry.page := by
  cases l with
  | nil => exact absurd rfl hne
  | cons c l =>
    obtain ⟨rfl, -⟩ := h.linked
    simp

/-! ## Joining -/

theorem joinLists_pageList (ha : PageList s a la) (hb : PageList s b lb) (hla : la ≠ [])
    (hlb : lb ≠ []) (hlt : ∀ e ∈ la, e.page < s.brk) (hnd : ((la ++ lb).map Entry.page).Nodup)
    (hs : joinLists s a b = .ok (s', p)) :
    PageList s' p (la ++ lb) ∧ Extends ((la ++ lb).map Entry.page) s s' := by
  obtain ⟨hca, hpa, hxa⟩ := linked_iff.mp ha.linked
  obtain ⟨hcb, hpb, hxb⟩ := linked_iff.mp hb.linked
  obtain ⟨h, hh, hhead, hcount⟩ := ha.head hla
  obtain ⟨t, ht, hthead, htcount⟩ := hb.head hlb
  have hap := ha.head_page hla
  have hbp := hb.head_page hlb
  have hlen := hca.length_lt fun q hq => by
    obtain ⟨e, he, rfl⟩ := List.mem_map.mp hq
    exact hlt e he
  rw [List.map_append] at hnd ⊢
  have hdis : (la.map Entry.page).Disjoint (lb.map Entry.page) := fun q hq hq' =>
    (List.nodup_append.mp hnd).2.2 q hq q hq' rfl
  obtain ⟨as, i, has⟩ := (List.eq_nil_or_concat' (la.map Entry.page)).resolve_left
    (by simpa using hla)
  obtain ⟨bs, hbs⟩ : ∃ bs, lb.map Entry.page = b :: bs := by
    cases lb with
    | nil => exact absurd rfl hlb
    | cons d lb => exact ⟨lb.map Entry.page, congrArg (· :: _) hpb⟩
  rw [has] at hca hpa hap hdis hlen
  rw [hbs] at hcb hbp hdis
  obtain ⟨hi0, x, hx⟩ := hca.page (p := i) (by simp)
  have hab : a ≠ b := fun he => hdis hap (he ▸ hbp)
  rw [List.length_append] at hlen
  have hlast : slistGetLast (s.brk + 1) s _ = .ok i := slistGetLast_run hca (by omega)
  rw [hpa] at hlast
  rw [joinLists_run hh hx ht hlast hhead hthead (hca.page hap).1 hi0 (hcb.page hbp).1 hab] at hs
  cases hs
  refine ⟨⟨linked_iff.mpr ⟨?_, ?_, fun e he => ?_⟩, fun _ => ⟨_, page_relink hh, ?_, ?_⟩⟩, le_rfl,
    fun q _ hn => ?_⟩
  · rw [List.map_append, has, hbs, ← List.append_cons]
    exact chain_linkAt hca hcb hdis
  · rw [List.map_append, has, ← hpa]
    cases as <;> rfl
  · obtain ⟨y, hy, hframe⟩ := (List.mem_append.mp he).elim (hxa e) (hxb e)
    exact ⟨_, page_relink hy, hframe⟩
  · simp [linkAt, hab, hhead]
  · simp [linkAt, hcount, htcount]
  · rw [has, hbs, List.mem_append, not_or] at hn
    have hqi : q ≠ i := fun he => hn.1 (by simp [he])
    have hqp : q ≠ p := fun he => hn.1 (he ▸ hap)
    have hqb : q ≠ b := fun he => hn.2 (he ▸ hbp)
    cases hq : s.page q <;> simp [Store.relink, linkAt, hq, hqi, hqp, hqb]

/-- **Joining two lists appends their frames.** -/
theorem pageListJoin_pageList (ha : PageList s a la) (hb : PageList s b lb)
    (hlt : ∀ e ∈ la, e.page < s.brk) (hnd : ((la ++ lb).map Entry.page).Nodup)
    (hs : pageListJoin s a b = .ok (s', p)) :
    PageList s' p (la ++ lb) ∧ Extends ((la ++ lb).map Entry.page) s s' := by
  unfold pageListJoin at hs
  cases la with
  | nil =>
    rw [if_pos (linked_nil.mp ha.linked)] at hs
    cases hs
    exact ⟨hb, .refl _ _⟩
  | cons c la =>
    rw [if_neg ha.linked.2.1] at hs
    cases lb with
    | nil =>
      rw [if_pos (linked_nil.mp hb.linked)] at hs
      cases hs
      rw [List.append_nil]
      exact ⟨ha, .refl _ _⟩
    | cons d lb =>
      rw [if_neg hb.linked.2.1] at hs
      exact joinLists_pageList ha hb (List.cons_ne_nil _ _) (List.cons_ne_nil _ _) hlt hnd hs

/-! ## Lists in one hand -/

/-- The list at `p` is `l`. Its structs are all different, and none of them is in `avoid`. -/
structure Owned (s : Store) (avoid : List Nat) (p : Nat) (l : List Entry) : Prop where
  list : PageList s p l
  below : ∀ e ∈ l, e.page < s.brk
  nodup : (l.map Entry.page).Nodup
  apart : ∀ e ∈ l, e.page ∉ avoid

variable {avoid avoid' : List Nat}

theorem Owned.mono (h : Owned s avoid p l) (hsub : ∀ q ∈ avoid', q ∈ avoid) : Owned s avoid' p l :=
  ⟨h.list, h.below, h.nodup, fun e he hm => h.apart e he (hsub _ hm)⟩

theorem Owned.extends (h : Owned s avoid p l) (he : Extends t s s')
    (ht : ∀ e ∈ l, e.page ∉ t) : Owned s' avoid p l :=
  ⟨h.list.extends he h.below ht, fun e hm => (h.below e hm).trans_le he.brk, h.nodup, h.apart⟩

theorem owned_nil : Owned s avoid 0 [] :=
  ⟨pageList_nil, fun _ h => absurd h List.not_mem_nil, List.nodup_nil,
    fun _ h => absurd h List.not_mem_nil⟩

theorem Owned.join (ha : Owned s avoid a la) (hb : Owned s avoid b lb)
    (hdisj : ∀ e ∈ la, e.page ∉ lb.map Entry.page) (hs : pageListJoin s a b = .ok (s', p)) :
    Owned s' avoid p (la ++ lb) ∧ Extends ((la ++ lb).map Entry.page) s s' := by
  have hnd : ((la ++ lb).map Entry.page).Nodup := by
    rw [List.map_append]
    refine List.nodup_append.mpr ⟨ha.nodup, hb.nodup, fun q hq r hr he => ?_⟩
    obtain ⟨e, hm, rfl⟩ := List.mem_map.mp hq
    exact hdisj e hm (he ▸ hr)
  obtain ⟨hlist, hext⟩ := pageListJoin_pageList ha.list hb.list ha.below hnd hs
  refine ⟨⟨hlist, fun e he => Nat.lt_of_lt_of_le ?_ hext.brk, hnd, fun e he => ?_⟩, hext⟩
  · exact (List.mem_append.mp he).elim (ha.below e) (hb.below e)
  · exact (List.mem_append.mp he).elim (ha.apart e) (hb.apart e)

/-! ## Allocation -/

/-- The entries for `n` new structs from `b` on, for the frames from `a` on. -/
def freshEntries : Nat → Nat → Nat → List Entry
  | 0, _, _ => []
  | n + 1, b, a => ⟨b, a⟩ :: freshEntries n (b + 1) (a + pageSize)

@[simp]
theorem length_freshEntries (n b a : Nat) : (freshEntries n b a).length = n := by
  induction n generalizing b a with
  | zero => rfl
  | succ n ih => rw [freshEntries, List.length_cons, ih]

theorem mem_freshEntries (h : e ∈ freshEntries n b a) : b ≤ e.page ∧ e.page < b + n := by
  induction n generalizing b a with
  | zero => cases h
  | succ n ih =>
    rcases List.mem_cons.mp h with rfl | h
    · exact ⟨le_rfl, Nat.lt_add_of_pos_right n.succ_pos⟩
    · have := ih h
      omega

theorem nodup_freshEntries (n b a : Nat) : ((freshEntries n b a).map Entry.page).Nodup := by
  induction n generalizing b a with
  | zero => exact List.nodup_nil
  | succ n ih =>
    refine List.nodup_cons.mpr ⟨fun hm => ?_, ih _ _⟩
    obtain ⟨e, he, heq⟩ := List.mem_map.mp hm
    have hge : b + 1 ≤ e.page := (mem_freshEntries he).1
    have heq' : e.page = b := heq
    omega

theorem frame_freshEntries (n b a : Nat) :
    (freshEntries n b a).map Entry.frame = (List.range n).map (a + pageSize * ·) := by
  induction n generalizing b a with
  | zero => rfl
  | succ n ih =>
    rw [freshEntries, List.map_cons, ih, List.range_succ_eq_map, List.map_cons, List.map_map]
    refine congrArg₂ _ rfl (List.map_congr_left fun i _ => ?_)
    rw [Function.comp_apply, Nat.mul_succ]
    omega

/-- Appending a new struct to a chain. -/
theorem append_linked (hl : Linked s first l)
    (hlast : ∀ l' e, l = l' ++ [e] → e.page = last) (hlt : ∀ e ∈ l, e.page < s.brk)
    (hnd : (l.map Entry.page).Nodup) (hbrk : 0 < s.brk) (hsize : x.size = pageSize)
    (hnext : x.next = 0) (hs : append s x first last = .ok (s', p)) :
    Linked s' p (l ++ [⟨s.brk, x.address⟩]) ∧ s'.brk = s.brk + 1 ∧
      Extends (l.map Entry.page) s s' := by
  have hself : (s.alloc x).page s.brk = some x := if_pos rfl
  have hold : ∀ q < s.brk, (s.alloc x).page q = s.page q := fun q hq => if_neg (by omega)
  have hnew : Linked (s.alloc x) s.brk [⟨s.brk, x.address⟩] :=
    ⟨rfl, by omega, x, hself, rfl, hsize, hnext⟩
  unfold append at hs
  rcases List.eq_nil_or_concat' l with rfl | ⟨l', e, rfl⟩
  · rw [if_pos (linked_nil.mp hl)] at hs
    cases hs
    exact ⟨hnew, rfl, Nat.le_succ _, fun q hq _ => hold q hq⟩
  · have hfirst : first ≠ 0 := by
      cases l' with
      | nil => exact hl.2.1
      | cons c l' => exact hl.2.1
    rw [if_neg hfirst] at hs
    obtain ⟨z, -, hz, hs⟩ := modify_bind_ok hs
    obtain ⟨rfl, rfl⟩ := Prod.mk.inj (Except.ok.inj hs)
    obtain rfl := hlast l' e rfl
    have helt := hlt e (by simp)
    have hel : e.page ∉ l'.map Entry.page := by
      rw [List.map_append, List.nodup_append] at hnd
      exact fun hm => hnd.2.2 _ hm _ (by simp) rfl
    have hl1 : Linked (s.alloc x) first (l' ++ [e]) := hl.congr fun c hc => hold _ (hlt c hc)
    refine ⟨hl1.append hz hnew hel ?_, rfl, Nat.le_succ _, fun q hq hn => ?_⟩
    · rw [List.map_singleton, List.mem_singleton]
      exact Nat.ne_of_lt helt
    · rw [page_set_ne fun he => hn (by rw [he]; simp)]
      exact hold q hq

/-- The loop over the frames of a region makes a chain of them. -/
theorem structsLoop_linked {mk : Nat → Page} {address : Nat}
    (haddr : ∀ a, (mk a).address = a) (hsize : ∀ a, (mk a).size = pageSize)
    (hnext : ∀ a, (mk a).next = 0) (hl : Linked s first l)
    (hlast : ∀ l' e, l = l' ++ [e] → e.page = last) (hlt : ∀ e ∈ l, e.page < s.brk)
    (hnd : (l.map Entry.page).Nodup) (hbrk : 0 < s.brk) (hfit : address + pageSize * n < word)
    (hs : structsLoop mk pageSize n s address first last = .ok (s', p)) :
    Linked s' p (l ++ freshEntries n s.brk address) ∧ s'.brk = s.brk + n ∧
      Extends (l.map Entry.page) s s' := by
  induction n generalizing s address first last l with
  | zero =>
    cases hs
    rw [freshEntries, List.append_nil]
    exact ⟨hl, rfl, .refl _ _⟩
  | succ n ih =>
    obtain ⟨⟨s1, first1⟩, hs1, hs2⟩ := bind_ok hs
    rw [Nat.mul_succ] at hfit
    obtain ⟨hl1, hbrk1, hext1⟩ := append_linked hl hlast hlt hnd hbrk (hsize _) (hnext _) hs1
    rw [haddr] at hl1
    rw [addWord_of_lt (by omega)] at hs2
    have hlt1 : ∀ e ∈ l ++ [⟨s.brk, address⟩], e.page < s1.brk := by
      intro e he
      rcases List.mem_append.mp he with he | he
      · have := hlt e he
        omega
      · rw [List.mem_singleton.mp he, hbrk1]
        exact Nat.lt_succ_self _
    have hnd1 : ((l ++ [(⟨s.brk, address⟩ : Entry)]).map Entry.page).Nodup := by
      rw [List.map_append]
      refine List.nodup_append.mpr ⟨hnd, List.nodup_singleton _, fun q hq r hr => ?_⟩
      obtain ⟨e, he, rfl⟩ := List.mem_map.mp hq
      rw [List.mem_singleton.mp hr]
      exact Nat.ne_of_lt (hlt e he)
    have hlast1 : ∀ (l' : List Entry) (e : Entry), l ++ [⟨s.brk, address⟩] = l' ++ [e] →
        e.page = s.brk := by
      intro l' e he
      rw [← List.singleton_inj.mp (List.append_inj' he rfl).2]
    obtain ⟨hl2, hbrk2, hext2⟩ := ih hl1 hlast1 hlt1 hnd1 (by omega) (by omega) hs2
    rw [hbrk1, List.append_assoc] at hl2
    refine ⟨hl2, by omega, hext1.trans hext2 fun q hq hm => ?_⟩
    rw [List.map_append, List.map_singleton, List.mem_append, List.mem_singleton] at hm
    exact hm.resolve_right (Nat.ne_of_lt hq)

theorem markHead_pageList {c : Bool} (hl : Linked s a l) (hcount : count = l.length)
    (hs : markHead s a count c = .ok (s', p)) :
    PageList s' p l ∧ s'.brk = s.brk ∧ Extends [p] s s' := by
  obtain ⟨x, -, hx, hs⟩ := modify_bind_ok hs
  cases hs
  refine ⟨⟨hl.set hx rfl rfl rfl, fun _ => ⟨_, page_set_self, rfl, hcount⟩⟩, rfl, le_rfl,
    fun q _ hn => page_set_ne fun he => hn (List.mem_singleton.mpr he)⟩

/-- **`alloc_page_structs` makes a list of the frames of a region.** -/
theorem allocPageStructs_pageList {fa frame : Nat} (hbrk : 0 < s.brk)
    (hfit : frame + pageSize * count < word)
    (hs : allocPageStructs s fa frame count pageSize = .ok (s', p)) :
    PageList s' p (freshEntries count s.brk frame) ∧ s'.brk = s.brk + count ∧ Extends [] s s' := by
  obtain ⟨hne, hs⟩ := guard_eq_ok.mp hs
  obtain ⟨⟨s1, first⟩, hs1, hs2⟩ := bind_ok hs
  obtain ⟨hl, hbrk1, hext⟩ := structsLoop_linked (fun _ => rfl) (fun _ => rfl) (fun _ => rfl)
    (linked_nil.mpr rfl) (by simp) (by simp) List.nodup_nil hbrk hfit hs1
  obtain ⟨hlist, hbrk2, hext2⟩ := markHead_pageList hl (length_freshEntries _ _ _).symm hs2
  refine ⟨hlist, by omega, hext.trans hext2 fun q hq hm => ?_⟩
  -- the head is one of the new structs
  obtain ⟨e, he, hpage⟩ := List.mem_map.mp (hlist.head_page fun h0 => hne (by
    have := congrArg List.length h0
    simpa using this))
  have hge := (mem_freshEntries he).1
  rw [List.mem_singleton.mp hm] at hq
  omega

/-- `alloc_nonowned_structs` for one frame. -/
theorem allocNonownedStructs_one (hs : allocNonownedStructs s a 1 pageSize = .ok (s', p)) :
    p = s.brk ∧ s'.brk = s.brk + 1 ∧ Extends [] s s' ∧ ∃ x, s'.page p = some x ∧ x.address = a ∧
      x.size = pageSize ∧ x.count = 1 ∧ x.next = 0 ∧ x.refcount = 1 := by
  obtain ⟨-, hs⟩ := guard_eq_ok.mp hs
  obtain ⟨⟨s1, first⟩, hs1, hs2⟩ := bind_ok hs
  cases hs1
  obtain ⟨x, -, hx, hs⟩ := modify_bind_ok hs2
  cases hs
  obtain rfl : nonownedPage pageSize a = x := Option.some.inj ((if_pos rfl).symm.trans hx)
  refine ⟨rfl, rfl, ⟨Nat.le_succ _, fun q hq _ => ?_⟩, _, page_set_self, rfl, rfl, rfl, rfl, rfl⟩
  rw [page_set_ne (Nat.ne_of_lt hq)]
  exact if_neg (Nat.ne_of_lt hq)

/-- Dropping a list that is held elsewhere too. -/
theorem dropPages_shared (hp : s.page p = some x) (href : x.refcount ≠ 1)
    (hs : dropPages s p = .ok s') : s'.brk = s.brk ∧ Extends [p] s s' := by
  unfold dropPages putref at hs
  split at hs
  next =>
    cases hs
    exact ⟨rfl, .refl _ _⟩
  next =>
    obtain ⟨y, -, hy, hput⟩ := deref_bind_ok hs
    cases hp.symm.trans hy
    rw [if_neg href] at hput
    cases hput
    exact ⟨rfl, le_rfl, fun q _ hn => page_set_ne fun he => hn (List.mem_singleton.mpr he)⟩

/-- `alloc_cow_structs` for a list of one page. -/
theorem allocCowStructs_one (hp : s.page p = some x) (hp0 : p ≠ 0) (hlt : p < s.brk)
    (hnext : x.next = 0) (hs : allocCowStructs s p = .ok (s', q)) :
    q = s.brk ∧ s'.brk = s.brk + 1 ∧ Extends [p] s s' ∧
      (∃ z, s'.page p = some z ∧ z.refcount = x.refcount + 1) ∧
      ∃ y, s'.page q = some y ∧ y.address = x.address ∧ y.size = x.size ∧ y.head = true ∧
        y.count = x.count ∧ y.next = 0 := by
  obtain ⟨k, hk⟩ : ∃ k, s.brk = k + 1 := ⟨s.brk - 1, by omega⟩
  obtain ⟨y, -, hy, hs⟩ := deref_bind_ok hs
  cases hp.symm.trans hy
  obtain ⟨-, hs⟩ := check_eq_ok.mp hs
  obtain ⟨⟨s1, first⟩, hloop, hs⟩ := bind_ok hs
  rw [cowLoop, if_neg hp0] at hloop
  obtain ⟨y, -, hy, hloop⟩ := deref_bind_ok hloop
  cases hp.symm.trans hy
  obtain ⟨s2, href, hloop⟩ := bind_ok hloop
  rw [getref, if_neg hp0, modify_eq hp hp0] at href
  cases href
  obtain ⟨⟨s3, first3⟩, happ, hloop⟩ := bind_ok hloop
  cases happ
  obtain ⟨z, -, hz, hloop⟩ := deref_bind_ok hloop
  have hold : ((s.set p { x with refcount := x.refcount + 1 }).alloc (cowPage p x)).page p =
      some { x with refcount := x.refcount + 1 } :=
    (if_neg (Nat.ne_of_lt hlt)).trans page_set_self
  cases hold.symm.trans hz
  rw [hk, cowLoop, if_pos hnext] at hloop
  cases hloop
  obtain ⟨z, -, hz, hs⟩ := deref_bind_ok hs
  cases hold.symm.trans hz
  obtain ⟨w, -, hw, hs⟩ := modify_bind_ok hs
  cases hs
  obtain rfl : cowPage p x = w := Option.some.inj ((if_pos rfl).symm.trans hw)
  refine ⟨rfl, rfl, ⟨Nat.le_succ _, fun r hr hn => ?_⟩,
    ⟨_, (page_set_ne (Nat.ne_of_lt hlt)).trans hold,
    rfl⟩, _, page_set_self, rfl, rfl, rfl, rfl, rfl⟩
  refine (page_set_ne (Nat.ne_of_lt hr)).trans ((if_neg (Nat.ne_of_lt hr)).trans ?_)
  exact page_set_ne fun he => hn (List.mem_singleton.mpr he)

end Osdev.Pages
