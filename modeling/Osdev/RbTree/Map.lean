import Osdev.Lib.Run
import Osdev.RbTree.Delete

/-!
# The tree is a finite map

Lookup follows the search order (`rbTreeFindNode_spec`). A run of insertions of new keys and
deletions of present keys is followed by an abstract map; in every state reached, the memory holds
a red-black tree, lookup answers as the map does, and the next call returns
(`rbTree_refines_map`) and the links between the nodes visit them in order (`links_spell_order`).
-/

namespace Osdev.Rb

open Osdev.Lib Osdev.Lib.ColorTree

variable {t : RbTree} {s : ColorTree Nat} {k : List (Frame Nat)}

/-! ## Lookup -/

/-- The answer of a search for a node with the property `P`: one of them, or the sentinel. -/
def Answer (nil : Nat) (P : Nat → Prop) (s : ColorTree Nat) (answer : Option Nat) : Prop :=
  (∃ x ∈ s.toList, P x ∧ answer = some x) ∨ (∀ x ∈ s.toList, ¬ P x) ∧ answer = some nil

section Answer

variable {nil a : Nat} {P : Nat → Prop} {c : Color} {l r : ColorTree Nat} {answer : Option Nat}

theorem Answer.of_left (h : Answer nil P l answer) (ha : ¬ P a) (hr : ∀ x ∈ r.toList, ¬ P x) :
    Answer nil P (node c l a r) answer := by
  rcases h with ⟨x, hx, hP, he⟩ | ⟨hno, he⟩
  · exact .inl ⟨x, by simp [hx], hP, he⟩
  · exact .inr ⟨by simpa [or_imp, forall_and] using ⟨hno, ha, hr⟩, he⟩

theorem Answer.of_right (h : Answer nil P r answer) (ha : ¬ P a) (hl : ∀ x ∈ l.toList, ¬ P x) :
    Answer nil P (node c l a r) answer := by
  rcases h with ⟨x, hx, hP, he⟩ | ⟨hno, he⟩
  · exact .inl ⟨x, by simp [hx], hP, he⟩
  · exact .inr ⟨by simpa [or_imp, forall_and] using ⟨hl, ha, hno⟩, he⟩

end Answer

theorem findLoop_node {c : Color} {l r : ColorTree Nat} {a : Nat} (h : Here t k (node c l a r))
    (key fuel : Nat) : findLoop t key (fuel + 1) (top t.nil (node c l a r)) =
      if key = t.key a then some a
      else findLoop t key fuel (if key < t.key a then top t.nil l else top t.nil r) := by
  obtain ⟨ha0, -, -, hal, har, -, -⟩ := h.sub
  conv_lhs => unfold findLoop
  rw [← hal, ← har]
  exact if_pos ha0

theorem findLoop_spec {key fuel : Nat} (h : Here t k s)
    (hsort : s.toList.Pairwise (fun i j => t.key i < t.key j)) (hf : s.toList.length < fuel) :
    Answer t.nil (fun x => t.key x = key) s (findLoop t key fuel (top t.nil s)) := by
  revert hsort
  refine h.descend hf ?_ ?_
  · intro k fuel _
    exact .inr ⟨by simp, if_neg (fun hx => hx rfl)⟩
  · intro k c l a r fuel h ihl ihr hsort
    obtain ⟨ha0, -, -, hal, har, -, -⟩ := h.sub
    obtain ⟨hsl, hsr, hlr⟩ := List.pairwise_append.mp hsort
    obtain ⟨hgt, hsr⟩ := List.pairwise_cons.mp hsr
    rw [findLoop_node h]
    split
    · next he => exact .inl ⟨a, by simp, he.symm, rfl⟩
    next hne =>
    split
    · next hkey =>
      refine (ihl hsl).of_left (Ne.symm hne) fun x hx => ?_
      have := hgt x hx
      omega
    · next hkey =>
      refine (ihr hsr).of_right (Ne.symm hne) fun x hx => ?_
      have := hlr x hx a (by simp)
      omega

theorem rbTreeFindNode_spec (h : Holds t s) (key : Nat) :
    (∃ x ∈ s.toList, t.key x = key ∧ rbTreeFindNode t key = some x) ∨
      (∀ x ∈ s.toList, t.key x ≠ key) ∧ rbTreeFindNode t key = some t.nil := by
  have hroot : t.root = top t.nil s := h.here.ctx
  have hlen := h.nodes
  rw [rbTreeFindNode, hroot]
  exact findLoop_spec h.here h.sorted (by omega)

/-- A real node is never its own parent, so it is not mistaken for the sentinel. -/
theorem Here.not_isNil (h : Here t [] s) (hnd : s.toList.Nodup) {x : Nat} (hx : x ∈ s.toList) :
    rbNodeIsNil t x = false := by
  obtain ⟨k, c, l, r, rfl⟩ := ColorTree.exists_focus hx
  have hh := here_plug.mpr h
  have hxk := (nodup_plug.mp hnd).2.2 x (by simp)
  have hp : t.parent x = up t.nil k := hh.sub.2.1
  have hne := ne_up hxk hh.sub.1
  rw [rbNodeIsNil, hp]
  exact decide_eq_false (fun hx => hne hx.2)

theorem Holds.not_isNil (h : Holds t s) {x : Nat} (hx : x ∈ s.toList) : rbNodeIsNil t x = false :=
  h.here.not_isNil h.nodup hx

/-- Lookup of a key, whatever `parent` field deletions have left in the sentinel. -/
theorem rbTreeFind_spec (h : Holds t s) (key : Nat) :
    (∃ x ∈ s.toList, t.key x = key ∧ rbTreeFind t key = some (t.data x)) ∨
      (∀ x ∈ s.toList, t.key x ≠ key) ∧ rbTreeFind t key = some 0 := by
  unfold rbTreeFind
  rcases rbTreeFindNode_spec h key with ⟨x, hx, hk, hrun⟩ | ⟨hno, hrun⟩
  · refine Or.inl ⟨x, hx, hk, ?_⟩
    rw [hrun]
    simp [h.not_isNil hx]
  · refine Or.inr ⟨hno, ?_⟩
    rw [hrun]
    simp [h.nilData]

/-! ## Trees without callbacks -/

theorem noEvents_ok (t0 : RbTree) : EventsOk noEvents t0 (fun _ _ => True) :=
  ⟨fun _ _ => trivial, fun _ _ _ _ => ⟨(), rfl, trivial⟩⟩

theorem noEvents_replaceOk (t0 : RbTree) : ReplaceOk noEvents t0 (fun _ _ => True) :=
  ⟨fun _ _ => ⟨(), rfl, trivial⟩, fun _ _ => ⟨(), rfl, trivial⟩,
    fun _ _ _ => ⟨(), rfl, fun _ _ => ⟨(), rfl, trivial⟩⟩⟩

/-! ## Runs -/

/-- A tree, and the map it stands for: the node and the data of every key. -/
structure Run where
  tree : RbTree
  content : Nat → Option (Nat × Nat)

/-- The operations of a run. -/
inductive Op where
  /-- `rb_tree_insert`, when `kmalloc` returns `node` -/
  | insert (node key data : Nat)
  | delete (key : Nat)

namespace Run

def step (r : Run) : Op → Option Run
  | .insert z key data => do
    let st ← rbTreeInsert noEvents ⟨r.tree, ()⟩ z key data
    some ⟨st.tree, fun j => if j = key then some (z, data) else r.content j⟩
  | .delete key => do
    let (st, _) ← rbTreeDelete noEvents ⟨r.tree, ()⟩ key
    some ⟨st.tree, fun j => if j = key then none else r.content j⟩

/-- An empty tree. -/
def Empty (r : Run) : Prop := ∃ m nil, r = ⟨createRbTree m nil, fun _ => none⟩

end Run

/-- Insertions of new keys, in nodes that are not in use, and deletions of present keys. -/
def Op.Valid (r : Run) : Op → Prop
  | .insert z key _ => r.content key = none ∧ z ≠ r.tree.nil ∧ ∀ j d, r.content j ≠ some (z, d)
  | .delete key => r.content key ≠ none

def Call (r : Run) (o : Op) (r' : Run) : Prop := o.Valid r ∧ r.step o = some r'

/-- The memory holds a red-black tree that answers as the map does. -/
structure IsMap (r : Run) : Prop where
  /-- a search tree with a black root, no red node below a red one, and equal black heights -/
  redBlack : ∃ s, Here r.tree [] s ∧ s.toList.Pairwise (fun i j => r.tree.key i < r.tree.key j) ∧
    s.color = .black ∧ s.NoRedRed ∧ ∃ n, s.Balanced n
  /-- lookup returns the data of the last insertion, or `NULL` -/
  find : ∀ key, rbTreeFind r.tree key = some (((r.content key).map Prod.snd).getD 0)
  /-- every valid call returns -/
  returns : ∀ o : Op, o.Valid r → ∃ r', r.step o = some r'

/-- The invariant: the map has exactly the nodes of the tree. -/
def Good (r : Run) : Prop := ∃ s, Holds r.tree s ∧ ∀ key z d, r.content key = some (z, d) ↔
  z ∈ s.toList ∧ r.tree.key z = key ∧ r.tree.data z = d

theorem holds_createRbTree (m : RbTree) (nil : Nat) : Holds (createRbTree m nil) leaf where
  here := ⟨rfl, trivial⟩
  sorted := .nil
  list := trivial
  min := rfl
  max := rfl
  nodes := rfl
  nilColor := if_pos rfl
  nilData := if_pos rfl
  wellColored := ⟨rfl, trivial⟩
  balanced := ⟨0, rfl⟩

/-- Two nodes with one key are one node. -/
theorem Holds.key_inj (h : Holds t s) {x y : Nat} (hx : x ∈ s.toList) (hy : y ∈ s.toList)
    (he : t.key x = t.key y) : x = y := by
  have hnd : (s.toList.map t.key).Nodup := List.pairwise_map.mpr (h.sorted.imp Nat.ne_of_lt)
  exact List.inj_on_of_nodup_map hnd hx hy he

namespace Good

variable {r : Run}

theorem empty (h : r.Empty) : Good r := by
  obtain ⟨m, nil, rfl⟩ := h
  refine ⟨leaf, holds_createRbTree m nil, fun key z d => ?_⟩
  simp [toList]

theorem insert {z key data : Nat} (h : Good r) (hv : (Op.insert z key data).Valid r) :
    ∃ r', r.step (.insert z key data) = some r' ∧ r'.tree.nil = r.tree.nil ∧ Good r' := by
  obtain ⟨s, hs, hc⟩ := h
  obtain ⟨hnone, hz0, hfresh⟩ := hv
  have hz : z ∉ s.toList := fun hm => hfresh _ _ ((hc _ z _).mpr ⟨hm, rfl, rfl⟩)
  have hkey : ∀ i ∈ s.toList, r.tree.key i ≠ key := by
    intro i hi he
    have := (hc key i _).mpr ⟨hi, he, rfl⟩
    rw [hnone] at this
    cases this
  obtain ⟨st', s', xs, ys, hrun, hs', hids, hids', hnil, hk, hd, -⟩ :=
    rbTreeInsert_spec noEvents ⟨r.tree, ()⟩ z key data
      (K := fun _ _ => True) hs hz0 hz hkey (fun t0 _ _ _ _ => noEvents_ok t0)
      (fun _ _ _ => trivial) (fun _ _ _ _ _ _ _ _ _ _ => ⟨(), rfl, trivial⟩)
  refine ⟨⟨st'.tree, fun j => if j = key then some (z, data) else r.content j⟩, ?_, hnil,
    s', hs', ?_⟩
  · unfold Run.step
    dsimp only
    rw [hrun]
    rfl
  intro j y d
  have hmem : y ∈ s'.toList ↔ y = z ∨ y ∈ s.toList := by
    rw [hids, hids']
    simp only [List.mem_append, List.mem_cons]
    tauto
  rw [hmem, hk, hd]
  show _ ↔ _ ∧ (if y = z then key else r.tree.key y) = j ∧
    (if y = z then data else r.tree.data y) = d
  obtain rfl | hyz := eq_or_ne y z
  · simp only [if_true, true_or, true_and]
    obtain rfl | hj := eq_or_ne j key
    · simp
    · rw [if_neg hj]
      constructor
      · intro he
        exact absurd he (hfresh j d)
      · rintro ⟨he, -⟩
        exact absurd he.symm hj
  · simp only [hyz, false_or, if_false]
    obtain rfl | hj := eq_or_ne j key
    · rw [if_pos rfl]
      constructor
      · intro he
        exact absurd (Prod.mk.inj (Option.some.inj he)).1.symm hyz
      · rintro ⟨hm, he, -⟩
        exact absurd he (hkey y hm)
    · rw [if_neg hj]
      exact hc j y d

theorem delete {key : Nat} (h : Good r) (hv : (Op.delete key).Valid r) :
    ∃ r', r.step (.delete key) = some r' ∧ Good r' := by
  obtain ⟨s, hs, hc⟩ := h
  obtain ⟨⟨z, d⟩, hz⟩ := Option.ne_none_iff_exists'.mp hv
  obtain ⟨hzs, hzk, -⟩ := (hc key z d).mp hz
  obtain ⟨x, hx, hxk, hfind⟩ : ∃ x ∈ s.toList, r.tree.key x = key ∧
      rbTreeFindNode r.tree key = some x := by
    rcases rbTreeFindNode_spec hs key with hf | ⟨hno, -⟩
    · exact hf
    · exact absurd hzk (hno z hzs)
  obtain ⟨st', s', xs, ys, hrun, hs', hids, hids', hnil, hk, hd, -⟩ :=
    rbTreeDeleteNode_spec noEvents ⟨r.tree, ()⟩ hs hx trivial
      ⟨fun t0 _ _ _ => noEvents_replaceOk t0, fun t0 _ _ _ _ => noEvents_ok t0⟩
  refine ⟨⟨st'.tree, fun j => if j = key then none else r.content j⟩, ?_, s', hs', ?_⟩
  · unfold Run.step rbTreeDelete
    dsimp only
    rw [hfind]
    simp only [Option.bind_eq_bind, Option.bind_some, hs.not_isNil hx, Bool.false_eq_true, if_false,
      if_neg (hs.ne_nil x hx), hrun]
  intro j y e
  have hnd := hs.nodup
  rw [hids, List.perm_middle.nodup_iff, List.nodup_cons] at hnd
  have hmem : y ∈ s'.toList ↔ y ≠ x ∧ y ∈ s.toList := by
    rw [hids, hids', List.perm_middle.mem_iff, List.mem_cons]
    constructor
    · intro hm
      exact ⟨fun he => hnd.1 (he ▸ hm), Or.inr hm⟩
    · rintro ⟨hne, hm⟩
      exact hm.resolve_left hne
  show (if j = key then none else r.content j) = some (y, e) ↔ _
  rw [hmem, hk, hd]
  obtain rfl | hj := eq_or_ne j key
  · constructor
    · intro he
      exact absurd he (by simp)
    · rintro ⟨⟨hne, hm⟩, he, -⟩
      exact absurd (hs.key_inj hm hx (he.trans hxk.symm)) hne
  · rw [if_neg hj, hc j y e]
    constructor
    · rintro ⟨hm, he, hde⟩
      exact ⟨⟨fun hyx => hj (by rwa [← he, hyx]), hm⟩, he, hde⟩
    · rintro ⟨⟨-, hm⟩, he, hde⟩
      exact ⟨hm, he, hde⟩

/-- Every valid call returns, and keeps the invariant. -/
theorem step {o : Op} (h : Good r) (hv : o.Valid r) : ∃ r', r.step o = some r' ∧ Good r' := by
  cases o with
  | insert z key data =>
    obtain ⟨r', hr, -, hg⟩ := h.insert hv
    exact ⟨r', hr, hg⟩
  | delete key => exact h.delete hv

theorem isMap (h : Good r) : IsMap r where
  redBlack := by
    obtain ⟨s, hs, -⟩ := h
    exact ⟨s, hs.here, hs.sorted, hs.wellColored.root, hs.wellColored.noRedRed, hs.balanced⟩
  find := by
    obtain ⟨s, hs, hc⟩ := h
    intro key
    rcases rbTreeFind_spec hs key with ⟨x, hx, hk, hrun⟩ | ⟨hno, hrun⟩
    · rw [hrun, (hc key x _).mpr ⟨hx, hk, rfl⟩]
      rfl
    · rw [hrun]
      cases hr : r.content key with
      | none => rfl
      | some zd =>
        obtain ⟨hm, hk, -⟩ := (hc key zd.1 zd.2).mp hr
        exact absurd hk (hno _ hm)
  returns := fun o hv => by
    obtain ⟨r', hr, -⟩ := h.step hv
    exact ⟨r', hr⟩

theorem of_reach (h : Reach Run.Empty Call r) : Good r :=
  h.of_calls (fun _ hr => Good.empty hr) fun _ _ hg hv => hg.step hv

end Good

/-- **In every run the tree is a red-black tree, and the map of the live insertions.** -/
theorem rbTree_refines_map {r : Run} (h : Reach Run.Empty Call r) : IsMap r :=
  (Good.of_reach h).isMap

/-- Memory that holds zeros. -/
def blank : RbTree where
  root := 0
  nil := 0
  min := 0
  max := 0
  nodes := 0
  key _ := 0
  data _ := 0
  color _ := .black
  child _ _ := 0
  parent _ := 0
  next _ := 0
  prev _ := 0

theorem Run.content_insert {r r' : Run} {z key data : Nat}
    (h : r.step (.insert z key data) = some r') (j : Nat) :
    r'.content j = if j = key then some (z, data) else r.content j := by
  obtain ⟨st, -, h⟩ := Option.bind_eq_some_iff.mp h
  rw [← Option.some.inj h]

/-- A run goes on with an insertion. -/
theorem exists_insert {r : Run} (z key data : Nat) (h : Reach Run.Empty Call r)
    (hv : (Op.insert z key data).Valid r) : ∃ r', Reach Run.Empty Call r' ∧
      r'.tree.nil = r.tree.nil ∧
      ∀ j, r'.content j = if j = key then some (z, data) else r.content j := by
  obtain ⟨r', hr, hnil, -⟩ := (Good.of_reach h).insert hv
  exact ⟨r', h.next _ ⟨hv, hr⟩, hnil, Run.content_insert hr⟩

/-- Three keys that are inserted in ascending order, which takes a rotation. -/
theorem exists_three_nodes : ∃ r, Reach Run.Empty Call r ∧ ∀ j, r.content j =
    if j = 30 then some (3, 7) else if j = 20 then some (2, 6) else if j = 10 then some (1, 5)
    else none := by
  have h0 : Reach Run.Empty Call ⟨createRbTree blank 0, fun _ => none⟩ := .start ⟨blank, 0, rfl⟩
  have hn0 : (createRbTree blank 0).nil = 0 := rfl
  obtain ⟨r1, h1, hn1, hc1⟩ := exists_insert 1 10 5 h0
    ⟨rfl, by decide, by simp⟩
  obtain ⟨r2, h2, hn2, hc2⟩ := exists_insert 2 20 6 h1
    ⟨by simp [hc1], by simp [hn1, hn0], fun j d => by rw [hc1]; split <;> simp⟩
  obtain ⟨r3, h3, -, hc3⟩ := exists_insert 3 30 7 h2
    ⟨by simp [hc1, hc2], by simp [hn1, hn2, hn0], fun j d => by rw [hc2, hc1]; split_ifs <;> simp⟩
  exact ⟨r3, h3, fun j => by rw [hc3, hc2, hc1]⟩

/-- Three insertions and a deletion. -/
theorem rbTree_refines_map_small_run : ∃ r r', Reach Run.Empty Call r ∧
    rbTreeFind r.tree 10 = some 5 ∧ rbTreeFind r.tree 30 = some 7 ∧ Call r (.delete 20) r' ∧
    IsMap r' := by
  obtain ⟨r, h, hc⟩ := exists_three_nodes
  have hv : (Op.delete 20).Valid r := show r.content 20 ≠ none by simp [hc]
  obtain ⟨r', hr'⟩ := (rbTree_refines_map h).returns _ hv
  refine ⟨r, r', h, ?_, ?_, ⟨hv, hr'⟩, rbTree_refines_map (h.next _ ⟨hv, hr'⟩)⟩
  · rw [(rbTree_refines_map h).find 10, hc]
    rfl
  · rw [(rbTree_refines_map h).find 30, hc]
    rfl

/-! ## The list through the nodes -/

/-- The links visit the nodes `l`, from either end. -/
structure Threaded (r : Run) (l : List Nat) : Prop where
  /-- the nodes are those of the map, each of them once -/
  mem : ∀ key z, (∃ d, r.content key = some (z, d)) ↔ z ∈ l ∧ r.tree.key z = key
  nodup : l.Nodup
  sorted : l.Pairwise fun i j => r.tree.key i < r.tree.key j
  forward : follow r.tree.next r.tree.nil (l.length + 1) r.tree.min = some l
  last : r.tree.max = l.getLastD r.tree.nil
  backward : follow r.tree.prev r.tree.nil (l.length + 1) r.tree.max = some l.reverse
  min_nil : r.tree.min = r.tree.nil ↔ ∀ key, r.content key = none
  max_nil : r.tree.max = r.tree.nil ↔ ∀ key, r.content key = none

theorem Good.exists_threaded {r : Run} (h : Good r) : ∃ l, Threaded r l := by
  obtain ⟨s, hs, hc⟩ := h
  have hne := hs.ne_nil
  have hempty : s.toList = [] ↔ ∀ key, r.content key = none := by
    rw [List.eq_nil_iff_forall_not_mem]
    constructor
    · intro hno key
      cases hr : r.content key with
      | none => rfl
      | some zd => exact absurd ((hc key zd.1 zd.2).mp hr).1 (hno _)
    · intro hnone z hz
      have := (hc _ z _).mpr ⟨hz, rfl, rfl⟩
      rw [hnone] at this
      cases this
  refine ⟨s.toList, fun key z => ?_, hs.nodup, hs.sorted, ?_, hs.max, ?_, ?_, ?_⟩
  · constructor
    · rintro ⟨d, hd⟩
      obtain ⟨hz, hk, -⟩ := (hc key z d).mp hd
      exact ⟨hz, hk⟩
    · rintro ⟨hz, hk⟩
      exact ⟨_, (hc key z _).mpr ⟨hz, hk, rfl⟩⟩
  · rw [hs.min]
    exact seg_follow hs.list hne (Nat.lt_succ_self _)
  · rw [hs.max, ← headD_reverse]
    refine seg_follow (seg_reverse hs.list) (fun a ha => hne a (List.mem_reverse.mp ha)) ?_
    rw [List.length_reverse]
    exact Nat.lt_succ_self _
  · rw [← hempty, hs.min]
    exact ⟨fun he => by_contra fun hl => hne _ (headD_mem hl _) he, fun hl => by rw [hl]; rfl⟩
  · rw [← hempty, hs.max]
    exact ⟨fun he => by_contra fun hl => hne _ (getLastD_mem hl _) he, fun hl => by rw [hl]; rfl⟩

/-- **In every run the links visit the nodes in the order of their keys, from the least to the
greatest and back.** -/
theorem links_spell_order {r : Run} (h : Reach Run.Empty Call r) : ∃ l, Threaded r l :=
  (Good.of_reach h).exists_threaded

/-- A tree with three nodes. -/
theorem links_spell_order_three_nodes : ∃ r l, Reach Run.Empty Call r ∧ Threaded r l ∧
    1 ∈ l ∧ 2 ∈ l ∧ 3 ∈ l ∧ r.tree.min ≠ r.tree.nil := by
  obtain ⟨r, h, hc⟩ := exists_three_nodes
  obtain ⟨l, hl⟩ := links_spell_order h
  refine ⟨r, l, h, hl,
    ((hl.mem 10 1).mp ⟨5, by simp [hc]⟩).1, ((hl.mem 20 2).mp ⟨6, by simp [hc]⟩).1,
    ((hl.mem 30 3).mp ⟨7, by simp [hc]⟩).1, fun hmin => ?_⟩
  have hnone := hl.min_nil.mp hmin 10
  simp [hc] at hnone

end Osdev.Rb
