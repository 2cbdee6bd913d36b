import Mathlib.Data.List.Nodup
import Osdev.Pages.Lists

/-!
# Splitting and joining page lists

A page list is a chain of page structs of any size. What `page_list_split` and `page_list_join` do
is given by the struct that each pointer leads to afterwards: links, head marks and counts change,
and everything else of a struct stays. Splitting a list and joining the parts gives the list back.
-/

namespace Osdev.Pages

open Osdev.Lib

variable {s s' : Store} {p q a b e k : Nat} {c : Bool} {x y z h t : Page} {l as bs : List Nat}
variable {fuel : Nat} {u : Page → Page} {f : Nat → Page → Page}

/-! ## Chains -/

/-- The field `next` behind a pointer. -/
def Store.next (s : Store) (p : Nat) : Option Nat := (s.page p).map Page.next

/-- Following `next` leads through the structs of `l` and then to `e`. -/
def Chain (s : Store) : List Nat → Nat → Prop
  | [], _ => True
  | p :: l, e => p ≠ 0 ∧ s.next p = some (l.headD e) ∧ Chain s l e

theorem next_eq (hx : s.page p = some x) : s.next p = some x.next := by simp [Store.next, hx]

theorem chain_append : Chain s (as ++ bs) e ↔ Chain s as (bs.headD e) ∧ Chain s bs e := by
  induction as with
  | nil => simp [Chain]
  | cons p as ih => cases as <;> simp_all [Chain, and_assoc]

theorem Chain.congr (hc : Chain s l e) (hn : ∀ p ∈ l, s'.next p = s.next p) : Chain s' l e := by
  induction l with
  | nil => trivial
  | cons p l ih =>
    exact ⟨hc.1, (hn p (by simp)).trans hc.2.1, ih hc.2.2 fun q hq => hn q (by simp [hq])⟩

theorem Chain.page (hc : Chain s l e) (hp : p ∈ l) : p ≠ 0 ∧ ∃ x, s.page p = some x := by
  obtain ⟨as, bs, rfl⟩ := List.append_of_mem hp
  obtain ⟨h0, hn, -⟩ := (chain_append.mp hc).2
  exact ⟨h0, (Option.map_eq_some_iff.mp hn).imp fun _ hx => hx.1⟩

/-- A chain is determined by its first struct. -/
theorem Chain.unique (ha : Chain s as 0) (hb : Chain s bs 0) (hhead : as.headD 0 = bs.headD 0) :
    as = bs := by
  induction as generalizing bs with
  | nil =>
    cases bs with
    | nil => rfl
    | cons q bs => exact absurd hhead.symm hb.1
  | cons p as ih =>
    cases bs with
    | nil => exact absurd hhead ha.1
    | cons q bs =>
      obtain rfl : p = q := hhead
      rw [ih ha.2.2 hb.2.2 (Option.some.inj (ha.2.1.symm.trans hb.2.1))]

/-- A chain that ends does not come back to a struct. -/
theorem Chain.nodup (hc : Chain s l 0) : l.Nodup := by
  induction l with
  | nil => exact List.nodup_nil
  | cons p l ih =>
    refine List.nodup_cons.mpr ⟨fun hp => ?_, ih hc.2.2⟩
    obtain ⟨as, bs, rfl⟩ := List.append_of_mem hp
    have hsame := congrArg List.length (hc.unique (chain_append.mp hc.2.2).2 rfl)
    simp at hsame
    omega

theorem Chain.length_lt (hc : Chain s l 0) (hlt : ∀ q ∈ l, q < s.brk) : l.length < s.brk + 1 := by
  have hsub : l ⊆ List.range s.brk := fun q hq => List.mem_range.mpr (hlt q hq)
  have hle := (hc.nodup.subperm hsub).length_le
  rw [List.length_range] at hle
  omega

/-- `SLIST_GET_LAST` finds the last struct of a chain. -/
theorem slistGetLast_run (hc : Chain s (as ++ [a]) 0) (hfuel : as.length < fuel) :
    slistGetLast fuel s ((as ++ [a]).headD 0) = .ok a := by
  induction as generalizing fuel with
  | nil =>
    obtain ⟨fuel, rfl⟩ := Nat.exists_eq_add_one.mpr hfuel
    obtain ⟨h0, x, hx⟩ := hc.page (p := a) (by simp)
    have hn : x.next = 0 := Option.some.inj ((next_eq hx).symm.trans hc.2.1)
    show slistGetLast (fuel + 1) s a = _
    rw [slistGetLast, deref_eq hx h0]
    exact if_pos hn
  | cons p as ih =>
    obtain ⟨fuel, rfl⟩ := Nat.exists_eq_add_one.mpr (Nat.zero_lt_of_lt hfuel)
    obtain ⟨h0, x, hx⟩ := hc.page (p := p) (by simp)
    have hn : x.next = (as ++ [a]).headD 0 := Option.some.inj ((next_eq hx).symm.trans hc.2.1)
    have hne : x.next ≠ 0 := by
      rw [hn]
      cases as with
      | nil => exact hc.2.2.1
      | cons q as => exact hc.2.2.1
    show slistGetLast (fuel + 1) s p = _
    rw [slistGetLast, deref_eq hx h0]
    refine (if_neg hne).trans ?_
    rw [hn]
    exact ih hc.2.2 (by simpa using hfuel)

/-- The walk of `page_list_split` stops behind the structs that it counts. -/
theorem splitWalk_run (hc : Chain s (as ++ a :: bs) 0) (q : Nat) :
    splitWalk s (as.length + 1) q ((as ++ a :: bs).headD 0) = .ok (a, bs.headD 0) := by
  induction as generalizing q with
  | nil =>
    obtain ⟨h0, x, hx⟩ := hc.page (p := a) (by simp)
    show splitWalk s 1 q a = _
    rw [splitWalk, if_neg h0, deref_eq hx h0]
    exact congrArg (fun n => Except.ok (a, n)) (Option.some.inj ((next_eq hx).symm.trans hc.2.1))
  | cons p as ih =>
    obtain ⟨h0, x, hx⟩ := hc.page (p := p) (by simp)
    show splitWalk s (as.length + 1 + 1) q p = _
    rw [splitWalk, if_neg h0, deref_eq hx h0]
    refine Eq.trans ?_ (ih hc.2.2 p)
    exact congrArg (splitWalk s _ p) (Option.some.inj ((next_eq hx).symm.trans hc.2.1))

/-! ## What the functions store -/

/-- The structs after a change to some of them. -/
def Store.relink (s : Store) (f : Nat → Page → Page) : Store :=
  { s with page := fun q => (s.page q).map (f q) }

section Relink

variable {f g : Nat → Page → Page}

theorem page_relink (hx : s.page q = some x) : (s.relink f).page q = some (f q x) :=
  congrArg (Option.map (f q)) hx

theorem set_eq_relink (hx : s.page p = some x) :
    s.set p (u x) = s.relink fun q y => if q = p then u y else y := by
  unfold Store.set
  congr 1
  funext q
  by_cases hq : q = p
  · simp [hq, hx]
  · simp [hq]

theorem modify_relink (hx : s.page p = some x) (h0 : p ≠ 0) :
    s.modify p u = .ok (s.relink fun q y => if q = p then u y else y) := by
  rw [modify_eq hx h0, set_eq_relink hx]

theorem putref_relink (hx : s.page p = some x) (h0 : p ≠ 0) (hne : x.refcount ≠ 1) :
    putref (fuel + 1) s p =
      .ok (s.relink fun q y => if q = p then { y with refcount := y.refcount - 1 } else y) := by
  rw [putref_of_ne h0 hx hne, ← set_eq_relink hx]

theorem relink_relink : (s.relink f).relink g = s.relink fun q y => g q (f q y) := by
  simp [Store.relink, Function.comp_def]

theorem relink_congr (h : ∀ q y, s.page q = some y → f q y = g q y) : s.relink f = s.relink g := by
  unfold Store.relink
  congr 1
  funext q
  cases hy : s.page q with
  | none => rfl
  | some y => exact congrArg some (h q y hy)

end Relink

/-- What `page_list_split` does to a list at `p` that it cuts between `a` and `b`. -/
def cutAt (p a b k count : Nat) (c : Bool) (q : Nat) (y : Page) : Page :=
  { y with
    head := decide (q = b) || y.head
    count := if q = p then k else if q = b then count - k else y.count
    contiguous := if q = b then c else y.contiguous
    next := if q = a then 0 else y.next }

theorem splitAt_run (hp : s.page p = some h) (hx : s.page a = some x) (hz : s.page b = some z)
    (hn : x.next = b) (hp0 : p ≠ 0) (ha0 : a ≠ 0) (hb0 : b ≠ 0) (hpb : p ≠ b) (hab : a ≠ b)
    (href : 0 < z.refcount) :
    splitAt s p k a b = .ok (s.relink (cutAt p a b k h.count h.contiguous)) := by
  rw [splitAt, getref, if_neg hb0, modify_relink hz hb0]
  show (do let h ← Store.deref _ p; _) = _
  rw [deref_eq ((page_relink hp).trans (congrArg some (if_neg hpb))) hp0]
  show (do let s ← Store.modify _ b _; _) = _
  rw [modify_relink (page_relink hz) hb0, relink_relink]
  show (do let s ← Store.modify _ p _; _) = _
  rw [modify_relink (page_relink hp) hp0, relink_relink]
  show (do let y ← Store.deref _ a; _) = _
  rw [deref_eq (page_relink hx) ha0]
  show (do let s ← putref _ _ (Page.next _); _) = _
  simp only [hab, if_false, apply_ite Page.next, hn, ite_self]
  rw [putref_relink (page_relink hz) hb0 (by simp [hpb.symm]; omega), relink_relink]
  show Store.modify _ a _ = _
  rw [modify_relink (page_relink hx) ha0, relink_relink]
  refine congrArg _ (relink_congr fun q y _ => ?_)
  unfold cutAt
  by_cases hqa : q = a <;> by_cases hqb : q = b <;> by_cases hqp : q = p <;> simp_all

/-- What `page_list_join` does to the lists at `p` and `b`, where the first one ends in `a`. -/
def linkAt (p a b count : Nat) (c : Bool) (q : Nat) (y : Page) : Page :=
  { y with
    head := !decide (q = b) && y.head
    count := if q = p then count else if q = b then 0 else y.count
    contiguous := if q = p then c else if q = b then false else y.contiguous
    next := if q = a then b else y.next }

theorem joinLists_run (hp : s.page p = some h) (hx : s.page a = some x) (ht : s.page b = some t)
    (hlast : slistGetLast (s.brk + 1) s p = .ok a) (hh : h.head = true) (hth : t.head = true)
    (hp0 : p ≠ 0) (ha0 : a ≠ 0) (hb0 : b ≠ 0) (hpb : p ≠ b) :
    joinLists s p b = .ok (s.relink (linkAt p a b (h.count + t.count)
      (decide (addWord x.address h.size = t.address) && t.contiguous)), p) := by
  rw [joinLists, deref_eq hp hp0]
  rw [deref_eq ht hb0]
  refine (if_neg (by simp [hh, hth])).trans ?_
  rw [hlast]
  show (do let l ← s.deref a; _) = _
  rw [deref_eq hx ha0]
  show (do let s ← s.modify p _; _) = _
  rw [modify_relink hp hp0]
  show (do let s ← Store.modify _ b _; _) = _
  rw [modify_relink (page_relink ht) hb0, relink_relink]
  show (do let s ← Store.modify _ a _; _) = _
  rw [modify_relink (page_relink hx) ha0, relink_relink]
  refine congrArg (fun s => Except.ok (s, p)) (relink_congr fun q y hy => ?_)
  unfold linkAt
  by_cases hqa : q = a <;> by_cases hqb : q = b <;> by_cases hqp : q = p <;> simp_all

/-! ## Lists -/

/-- The fields that neither function changes. -/
def Page.core (x : Page) : Page :=
  { x with next := 0, head := false, count := 0, contiguous := false }

/-- Apart from links and marks, the structs are the same. -/
def SameCore (s s' : Store) : Prop := ∀ q, (s'.page q).map Page.core = (s.page q).map Page.core

theorem SameCore.page (hs : SameCore s s') (hx : s.page p = some x) :
    ∃ y, s'.page p = some y ∧ y.core = x.core := by
  have hp := hs p
  rw [hx] at hp
  exact Option.map_eq_some_iff.mp hp

theorem sameCore_relink (hf : ∀ q y, (f q y).core = y.core) :
    SameCore s (s.relink f) := by
  intro q
  cases hy : s.page q <;> simp [Store.relink, hy, hf]

/-- The structs `l` are a page list with the flag `c`: they are linked, alive and counted, and only
the first one is a head. -/
structure IsList (s : Store) (l : List Nat) (c : Bool) : Prop where
  chain : Chain s l 0
  live : ∀ q ∈ l, ∃ x, s.page q = some x ∧ q < s.brk ∧ 0 < x.refcount ∧ x.head = decide
    (q = l.headD 0)
  head : ∃ x, s.page (l.headD 0) = some x ∧ x.count = l.length ∧ x.contiguous = c

theorem IsList.lt_brk (hl : IsList s l c) (hq : q ∈ l) : q < s.brk := by
  obtain ⟨x, -, hlt, -⟩ := hl.live q hq
  exact hlt

/-- Links and marks make a list of structs that are alive. -/
theorem isList_relink (hp : l.headD 0 = p)
    (hf : ∀ q y, (f q y).refcount = y.refcount)
    (hlive : ∀ q ∈ l, ∃ x, s.page q = some x ∧ q < s.brk ∧ 0 < x.refcount ∧
    (f q x).head = decide (q = p))
    (hchain : Chain (s.relink f) l 0) (hh : s.page p = some h) (hcount : (f p h).count = l.length)
    (hflag : (f p h).contiguous = c) : IsList (s.relink f) l c := by
  subst hp
  refine ⟨hchain, fun q hq => ?_, _, page_relink hh, hcount, hflag⟩
  obtain ⟨x, hx, hlt, href, hhead⟩ := hlive q hq
  exact ⟨_, page_relink hx, hlt, (hf q x).symm ▸ href, hhead⟩

theorem next_relink (hf : ∀ y, (f q y).next = y.next) :
    (s.relink f).next q = s.next q := by
  simp [Store.next, Store.relink, Function.comp_def, hf]

/-- The chain of two lists that are joined. -/
theorem chain_linkAt {n : Nat} (ha : Chain s (as ++ [a]) 0) (hb : Chain s (b :: bs) 0)
    (hdis : (as ++ [a]).Disjoint (b :: bs)) :
    Chain (s.relink (linkAt p a b n c)) (as ++ a :: b :: bs) 0 := by
  obtain ⟨hcas, ha0, -⟩ := chain_append.mp ha
  obtain ⟨-, x, hx⟩ := ha.page (p := a) (by simp)
  refine chain_append.mpr ⟨hcas.congr fun q hq => next_relink fun y => if_neg ?_, ha0, ?_,
    hb.congr fun q hq => next_relink fun y => if_neg fun he => hdis (by simp [he]) hq⟩
  · have hnd := ha.nodup
    grind
  · rw [next_eq (page_relink hx)]
    simp [linkAt]

/-- A list is cut behind the struct `a`. -/
theorem IsList.split (hl : IsList s (as ++ a :: b :: bs) c) (tail : Nat) :
    ∃ n, pageListSplit s ((as ++ [a]).headD 0) (as.length + 1) tail =
        .ok (s.relink (cutAt ((as ++ [a]).headD 0) a b (as.length + 1) n c),
          (as ++ [a]).headD 0, b) ∧
      IsList (s.relink (cutAt ((as ++ [a]).headD 0) a b (as.length + 1) n c)) (as ++ [a]) c ∧
      IsList (s.relink (cutAt ((as ++ [a]).headD 0) a b (as.length + 1) n c)) (b :: bs) c := by
  have hhead : (as ++ a :: b :: bs).headD 0 = (as ++ [a]).headD 0 := by cases as <;> rfl
  have hpmem : (as ++ [a]).headD 0 ∈ as ++ [a] := by cases as <;> simp
  obtain ⟨hcas, ha0, han, hcb⟩ := chain_append.mp hl.chain
  have hnd := hl.chain.nodup
  have hwalk := splitWalk_run hl.chain 0
  obtain ⟨h, hh, hcount, rfl⟩ := hl.head
  have hlive := hl.live
  rw [hhead] at hh hwalk hlive
  generalize hp : (as ++ [a]).headD 0 = p at *
  have hmem : ∀ q, q ∈ as ++ [a] → q ∈ as ++ a :: b :: bs := by simp; tauto
  have hp0 : p ≠ 0 := (hl.chain.page (hmem p hpmem)).1
  obtain ⟨x, hx, -⟩ := hlive a (by simp)
  obtain ⟨z, hz, -, href, -⟩ := hlive b (by simp)
  obtain ⟨h', hh', -, -, hhd⟩ := hlive p (hmem p hpmem)
  cases hh.symm.trans hh'
  have hnda : ∀ q ∈ as ++ [a], q ≠ b := by simp [List.nodup_append] at hnd ⊢; grind
  have hndb : ∀ q ∈ b :: bs, q ≠ a ∧ q ≠ p := by simp [List.nodup_append] at hnd hpmem ⊢; grind
  refine ⟨h.count, ?_, ?_, ?_⟩
  · rw [pageListSplit, if_neg (by simp [hp0]), deref_eq hh hp0]
    refine (if_neg (by simp [hhd, hcount])).trans ((if_neg (by simp [hcount])).trans ?_)
    rw [hwalk]
    show (do let s ← splitAt s p (as.length + 1) a b; _) = _
    rw [splitAt_run hh hx hz (Option.some.inj ((next_eq hx).symm.trans han)) hp0 ha0 hcb.1
      (hnda p hpmem) (hnda a (by simp)) href]
    rfl
  · refine isList_relink hp (fun _ _ => rfl) (fun q hq => ?_)
      (chain_append.mpr ⟨?_, ha0, ?_, trivial⟩) hh (by simp [cutAt]) (by simp [cutAt, hnda p hpmem])
    · obtain ⟨y, hy, hlt, hyref, hyhead⟩ := hlive q (hmem q hq)
      exact ⟨y, hy, hlt, hyref, by simp [cutAt, hnda q hq, hyhead]⟩
    · refine hcas.congr fun q hq => next_relink fun y => if_neg ?_
      grind
    · rw [next_eq (page_relink hx)]
      simp [cutAt]
  · refine isList_relink rfl (fun _ _ => rfl) (fun q hq => ?_)
      (hcb.congr fun q hq => next_relink fun y => if_neg (hndb q hq).1) hz ?_ (by simp [cutAt])
    · obtain ⟨y, hy, hlt, hyref, hyhead⟩ := hlive q (by simp at hq ⊢; tauto)
      exact ⟨y, hy, hlt, hyref, by simp [cutAt, hyhead, (hndb q hq).2]⟩
    · simp [cutAt, (hndb b (by simp)).2, hcount]
      omega

/-- Two lists become one; its flag depends on the seam and on the second list. -/
theorem IsList.join {d : Bool} (ha : IsList s (as ++ [a]) d) (hb : IsList s (b :: bs) c)
    (hdis : (as ++ [a]).Disjoint (b :: bs)) (hh : s.page ((as ++ [a]).headD 0) = some h)
    (hx : s.page a = some x) (ht : s.page b = some t) :
    ∃ n, pageListJoin s ((as ++ [a]).headD 0) b = .ok (s.relink (linkAt ((as ++ [a]).headD 0) a b n
        (decide (addWord x.address h.size = t.address) && c)), (as ++ [a]).headD 0) ∧
      IsList (s.relink (linkAt ((as ++ [a]).headD 0) a b n
        (decide (addWord x.address h.size = t.address) && c))) (as ++ a :: b :: bs)
        (decide (addWord x.address h.size = t.address) && c) := by
  have hhead : (as ++ a :: b :: bs).headD 0 = (as ++ [a]).headD 0 := by cases as <;> rfl
  have hpmem : (as ++ [a]).headD 0 ∈ as ++ [a] := by cases as <;> simp
  have hlast : slistGetLast (s.brk + 1) s ((as ++ [a]).headD 0) = .ok a :=
    slistGetLast_run ha.chain
      (by have := ha.chain.length_lt fun q hq => ha.lt_brk hq; simp at this; omega)
  have hlive := ha.live
  have ha0 := (ha.chain.page (p := a) (by simp)).1
  obtain ⟨h', hh', hcount, -⟩ := ha.head
  obtain ⟨t', ht', htcount, rfl⟩ := hb.head
  cases hh.symm.trans hh'
  cases ht.symm.trans ht'
  have hp0 := (ha.chain.page hpmem).1
  generalize hp : (as ++ [a]).headD 0 = p at *
  obtain ⟨h', hh', -, -, hhd⟩ := hlive p hpmem
  obtain ⟨t', ht', -, -, hthd⟩ := hb.live b (by simp)
  cases hh.symm.trans hh'
  cases ht.symm.trans ht'
  have hnda : ∀ q ∈ as ++ [a], q ≠ b := fun q hq he => hdis hq (he ▸ by simp)
  have hndb : ∀ q ∈ b :: bs, q ≠ a ∧ q ≠ p :=
    fun q hq => ⟨fun he => hdis (by simp [he]) hq, fun he => hdis (he ▸ hpmem) hq⟩
  refine ⟨h.count + t.count, ?_, isList_relink hhead (fun _ _ => rfl) (fun q hq => ?_)
    (chain_linkAt ha.chain hb.chain hdis) hh ?_ (by simp [linkAt])⟩
  · rw [pageListJoin, if_neg hp0, if_neg hb.chain.1]
    exact joinLists_run hh hx ht hlast (by simp [hhd]) (by simp [hthd]) hp0 ha0 hb.chain.1
      (hnda p hpmem)
  · by_cases hqa : q ∈ as ++ [a]
    · obtain ⟨y, hy, hlt, hyref, hyhead⟩ := hlive q hqa
      exact ⟨y, hy, hlt, hyref, by simp [linkAt, hyhead, hnda q hqa]⟩
    · have hqb : q ∈ b :: bs := by simp at hq hqa ⊢; tauto
      obtain ⟨y, hy, hlt, hyref, hyhead⟩ := hb.live q hqb
      exact ⟨y, hy, hlt, hyref, by simp [linkAt, hyhead, (hndb q hqb).2]⟩
  · simp [linkAt, hcount, htcount]
    omega

/-! ## Runs of frames -/

/-- The pages of the list have one size, and page `i` lies `i` pages behind the first one. -/
def InRow (s : Store) (l : List Nat) : Prop :=
  ∃ frame size, ∀ i q, l[i]? = some q →
    ∃ x, s.page q = some x ∧ x.size = size ∧ x.address = (frame + i * size) % word

theorem core_frame (hc : y.core = x.core) : y.address = x.address ∧ y.size = x.size :=
  ⟨(congrArg Page.address hc :), (congrArg Page.size hc :)⟩

theorem InRow.sameCore (hr : InRow s l) (hs : SameCore s s') : InRow s' l := by
  obtain ⟨frame, size, hr⟩ := hr
  refine ⟨frame, size, fun i q hq => ?_⟩
  obtain ⟨x, hx, hsize, haddr⟩ := hr i q hq
  obtain ⟨y, hy, hcore⟩ := hs.page hx
  exact ⟨y, hy, (core_frame hcore).2.trans hsize, (core_frame hcore).1.trans haddr⟩

/-- Where a row is cut, one page follows the other. -/
theorem InRow.seam (hr : InRow s (as ++ a :: b :: bs)) (hh : s.page ((as ++ [a]).headD 0) = some h)
    (hx : s.page a = some x) (ht : s.page b = some t) : addWord x.address h.size = t.address := by
  obtain ⟨frame, size, hr⟩ := hr
  obtain ⟨h', hh', hsize, -⟩ := hr 0 ((as ++ [a]).headD 0) (by cases as <;> rfl)
  obtain ⟨x', hx', -, haddr⟩ := hr as.length a (by simp)
  obtain ⟨t', ht', -, htaddr⟩ := hr (as.length + 1) b (by simp)
  cases hh.symm.trans hh'
  cases hx.symm.trans hx'
  cases ht.symm.trans ht'
  rw [haddr, htaddr, hsize, addWord, Nat.mod_add_mod, Nat.add_mul, Nat.one_mul, Nat.add_assoc]

/-- A list that can be cut behind `k` structs. -/
theorem exists_cut (hk : 0 < k) (hn : k < l.length) :
    ∃ as a b bs, l = as ++ a :: b :: bs ∧ k = as.length + 1 ∧ l.take k = as ++ [a] ∧
      l.drop k = b :: bs := by
  obtain ⟨as, a, has⟩ := (List.eq_nil_or_concat' (l.take k)).resolve_left (by
    simp [hk.ne', List.ne_nil_of_length_pos (hk.trans hn)])
  obtain ⟨b, bs, hbs⟩ := List.exists_cons_of_ne_nil (l := l.drop k) (by simpa using hn)
  refine ⟨as, a, b, bs, ?_, ?_, has, hbs⟩
  · rw [← List.take_append_drop k l, has, hbs, List.append_assoc, List.singleton_append]
  · have hlen := congrArg List.length has
    simp at hlen
    omega

/-- A list is cut and joined again. Its flag is as before, unless it was set for pages that are not
in a row. -/
theorem IsList.split_join (hl : IsList s l c) (hk : 0 < k) (hn : k < l.length) (tail : Nat) :
    ∃ s1 t, pageListSplit s (l.headD 0) k tail = .ok (s1, l.headD 0, t) ∧ t = (l.drop k).headD 0 ∧
      IsList s1 (l.take k) c ∧ IsList s1 (l.drop k) c ∧ SameCore s s1 ∧
      ∃ s2 d, pageListJoin s1 (l.headD 0) t = .ok (s2, l.headD 0) ∧ IsList s2 l d ∧ SameCore s s2 ∧
        ((c = true → InRow s l) → d = c) := by
  obtain ⟨as, a, b, bs, rfl, rfl, htake, hdrop⟩ := exists_cut hk hn
  have hhead : (as ++ a :: b :: bs).headD 0 = (as ++ [a]).headD 0 := by cases as <;> rfl
  obtain ⟨n, hrun, h1, h2⟩ := hl.split tail
  have hcore : SameCore s (s.relink (cutAt ((as ++ [a]).headD 0) a b (as.length + 1) n c)) :=
    sameCore_relink fun _ _ => rfl
  generalize s.relink _ = s1 at hrun h1 h2 hcore
  obtain ⟨h, hh, -⟩ := h1.head
  obtain ⟨x, hx, -⟩ := h1.live a (by simp)
  obtain ⟨t, ht, -⟩ := h2.live b (by simp)
  have hdis : (as ++ [a]).Disjoint (b :: bs) := by
    have hnd := hl.chain.nodup
    rw [List.append_cons] at hnd
    exact List.disjoint_of_nodup_append hnd
  obtain ⟨m, hjoin, h3⟩ := h1.join h2 hdis hh hx ht
  rw [htake, hdrop, hhead]
  have hcore' : SameCore s1 (s1.relink (linkAt ((as ++ [a]).headD 0) a b m
      (decide (addWord x.address h.size = t.address) && c))) := sameCore_relink fun _ _ => rfl
  refine ⟨s1, b, hrun, rfl, h1, h2, hcore, _, _, hjoin, h3, fun q => ?_, fun hrow => ?_⟩
  · exact (hcore' q).trans (hcore q)
  · cases c with
    | false => exact Bool.and_false _
    | true => simp [((hrow rfl).sameCore hcore).seam hh hx ht]

/-- **Splitting a page list gives its two parts, and joining them gives the list back.** -/
theorem pageListSplit_join (hl : IsList s l c) (hrow : c = true → InRow s l) (hk : 0 < k)
    (hn : k < l.length) (tail : Nat) :
    ∃ s₁ t, pageListSplit s (l.headD 0) k tail = .ok (s₁, l.headD 0, t) ∧ t = (l.drop k).headD 0 ∧
      IsList s₁ (l.take k) c ∧ IsList s₁ (l.drop k) c ∧ SameCore s s₁ ∧
      ∃ s₂, pageListJoin s₁ (l.headD 0) t = .ok (s₂, l.headD 0) ∧ IsList s₂ l c ∧
        SameCore s s₂ := by
  obtain ⟨s₁, t, hrun, ht, h1, h2, hcore, s₂, d, hjoin, h3, hcore', hflag⟩ :=
    hl.split_join hk hn tail
  obtain rfl := hflag hrow
  exact ⟨s₁, t, hrun, ht, h1, h2, hcore, s₂, hjoin, h3, hcore'⟩

/-- A list of two pages, one behind the other. -/
def pairStore : Store :=
  { page := fun q =>
      if q = 1 then
        some { ownedPage 0 pageSize 0x1000 with
          head := true, count := 2, contiguous := true, next := 2 }
      else if q = 2 then some (ownedPage 0 pageSize 0x2000) else none
    brk := 3, owned := [], returned := [] }

theorem pairStore_isList : IsList pairStore [1, 2] true where
  chain := ⟨by decide, rfl, by decide, rfl, trivial⟩
  live q hq := by
    simp at hq
    obtain rfl | rfl := hq
    · exact ⟨_, rfl, by decide, by decide, rfl⟩
    · exact ⟨_, rfl, by decide, by decide, rfl⟩
  head := ⟨_, rfl, rfl, rfl⟩

theorem pairStore_inRow : InRow pairStore [1, 2] := by
  refine ⟨0x1000, pageSize, fun i q hq => ?_⟩
  match i, hq with
  | 0, hq => exact ⟨_, by cases hq; rfl, rfl, by decide⟩
  | 1, hq => exact ⟨_, by cases hq; rfl, rfl, by decide⟩

theorem pairStore_split_join : ∃ s₁ s₂, pageListSplit pairStore 1 1 0 = .ok (s₁, 1, 2) ∧
    pageListJoin s₁ 1 2 = .ok (s₂, 1) ∧ IsList s₂ [1, 2] true := by
  obtain ⟨s₁, t, hrun, rfl, -, -, -, s₂, hjoin, hl, -⟩ := pageListSplit_join pairStore_isList
    (fun _ => pairStore_inRow) Nat.one_pos (by decide) 0
  exact ⟨s₁, s₂, hrun, hjoin, hl⟩

end Osdev.Pages
