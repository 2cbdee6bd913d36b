import Osdev.Vm.Bounds

/-!
# The order of the mapping list

`InOrder v sp l`: the tree of space `sp` holds the ranges `l`, and the mapping list of the space is
`l`, in the same order. The functions of `Osdev.Vm.Space` that insert, free, split, join and move
mappings are shown to keep this, each for the arguments for which it does.
-/

namespace Osdev.Vm

open Osdev.Intvl Osdev.Lib

variable {as bs l' : List Item} {st : Rb.State Intervals} {a d off newId data size' : Nat}
  {de : Int} {backing : Backing}

/-- The mapping `vm` of space `sp` has the virtual range `i`. -/
structure Shaped (vm : VmMapping) (sp : Nat) (i : Interval) : Prop where
  space : vm.space = sp
  stop : i.stop = i.start + vm.virtSize
  address : vm.address = i.start + if vm.flags.has vmStack then vm.virtSize - vm.size else 0
  size : vm.size ≤ vm.virtSize
  stack : vm.flags.has vmStack = true → 0 < vm.size ∧ vm.size + pageSize ≤ vm.virtSize

/-- The list of a space visits its mappings as they lie in the tree. -/
structure InOrder (v : VmState) (sp : Nat) (l : List Item) : Prop where
  tree : TreeOk (v.space sp).tree v.brk l
  list : (v.space sp).mappings = l.map Prod.snd
  count : (v.space sp).numMappings = (v.space sp).mappings.length
  mapping : ∀ x ∈ l, x.2 ≠ 0 ∧ x.2 < v.brk ∧ Shaped (v.mapping x.2) sp x.1

/-- Only space `sp` and its mappings have changed. -/
structure Local (v v' : VmState) (sp : Nat) : Prop where
  spaces : ∀ q, q ≠ sp → v'.space q = v.space q
  mappings : ∀ id, id < v.brk → (v.mapping id).space ≠ sp → v'.mapping id = v.mapping id
  brk : v.brk ≤ v'.brk

variable {v v' v₁ : VmState} {sp : Nat} {l xs ys : List Item} {i : Interval} {vm : VmMapping}
variable {id c stop b newSize size : Nat} {x y : Item}

/-! ## Shapes -/

theorem Shaped.vmVirtualStart_eq (h : Shaped vm sp i) (hw : i.stop < word) :
    vmVirtualStart vm = i.start := by
  have hstop := h.stop
  have hsize := h.size
  have haddr := h.address
  unfold vmVirtualStart
  split
  next hs =>
    rw [if_pos hs] at haddr
    rw [subWord_of_le hsize (by omega), subWord_of_le (by omega) (by omega)]
    omega
  next hs =>
    rw [haddr, if_neg hs, Nat.add_zero]

theorem Shaped.vmVirtInterval_eq (h : Shaped vm sp i) (hw : i.stop < word) :
    vmVirtInterval vm = i := by
  have hstop := h.stop
  rw [vmVirtInterval, h.vmVirtualStart_eq hw, addWord_of_lt (by omega), ← hstop]

/-- Other flags do not matter if they are both for stacks or both not. -/
theorem Shaped.flags (h : Shaped vm sp i) {flags : Flags}
    (hf : flags.has vmStack = vm.flags.has vmStack) : Shaped { vm with flags } sp i where
  space := h.space
  stop := h.stop
  address := by
    rw [hf]
    exact h.address
  size := h.size
  stack hs := h.stack (hf ▸ hs)

/-- The address of a mapping lies in its range. -/
theorem Shaped.address_mem (h : Shaped vm sp i) (hne : i.start < i.stop) :
    i.start ≤ vm.address ∧ vm.address < i.stop := by
  have haddr := h.address
  have hstop := h.stop
  split at haddr
  next hs =>
    have hstack := h.stack hs
    omega
  · omega

/-! ## Lists -/

/-- Where a range lies among others is determined. -/
theorem gap_unique (hne : i.start < i.stop)
    (hall : ∀ x ∈ as ++ bs, x.1.start < x.1.stop) (h : xs ++ ys = as ++ bs)
    (hord : (xs ++ (i, id) :: ys).Pairwise fun x y => x.1.stop ≤ y.1.start)
    (has : ∀ x ∈ as, x.1.stop ≤ i.start) (hbs : ∀ x ∈ bs, i.stop ≤ x.1.start) :
    xs = as ∧ ys = bs := by
  obtain ⟨-, hcons, hmid⟩ := List.pairwise_append.mp hord
  have hys := (List.pairwise_cons.mp hcons).1
  -- the ranges below are those that start below
  have hfilter : ∀ (us ws : List Item), us ++ ws = as ++ bs → (∀ x ∈ us, x.1.stop ≤ i.start) →
      (∀ x ∈ ws, i.stop ≤ x.1.start) →
      (as ++ bs).filter (fun x => decide (x.1.start < i.start)) = us := by
    intro us ws huw hus hws
    rw [← huw, List.filter_append, List.filter_eq_self.mpr, List.filter_eq_nil_iff.mpr,
      List.append_nil]
    · intro x hx
      have := hws x hx
      simp only [decide_eq_true_eq]
      omega
    · intro x hx
      have h1 := hus x hx
      have h2 := hall x (by rw [← huw]; exact List.mem_append_left _ hx)
      simp only [decide_eq_true_eq]
      omega
  have hxs : xs = as :=
    (hfilter xs ys h (fun x hx => hmid x hx _ List.mem_cons_self) fun x hx => hys x hx).symm.trans
      (hfilter as bs rfl has hbs)
  subst hxs
  exact ⟨rfl, List.append_cancel_left h⟩

theorem listInsert_last {as bs : List Nat} (hnd : (as ++ bs).Nodup) (hc : as.getLast? = some c)
    (id : Nat) :
    listInsert (as ++ bs) id c = .ok (as ++ id :: bs) := by
  obtain ⟨as, rfl⟩ := List.getLast?_eq_some_iff.mp hc
  have hnot : c ∉ as := by
    intro hmem
    have hdis := List.nodup_append.mp (List.nodup_append.mp hnd).1
    exact hdis.2.2 c hmem c (List.mem_singleton_self c) rfl
  rw [List.append_assoc, List.append_assoc, List.singleton_append]
  obtain ⟨htake, hdrop⟩ : (as ++ c :: bs).takeWhile (· ≠ c) = as ∧
      (as ++ c :: bs).dropWhile (· ≠ c) = c :: bs := split_at_first hnot
  rw [listInsert, if_pos (by simp), htake, hdrop]
  rfl

/-- The mapping before a gap, when there is one. -/
theorem getLast?_of_getD (hc : c = (xs.getLast?.map Prod.snd).getD 0) (h0 : c ≠ 0) :
    (xs.map Prod.snd).getLast? = some c := by
  cases hlast : xs.getLast? with
  | none => simp [hlast, h0] at hc
  | some z => simp [hlast, hc]

/-! ## The invariant -/

theorem InOrder.spaceOk (h : InOrder v sp l) : SpaceOk v sp l where
  tree := h.tree
  list := by rw [h.list]
  count := h.count
  mapping x hx :=
    let ⟨h0, hlt, hs⟩ := h.mapping x hx
    ⟨h0, hlt, (hs.vmVirtInterval_eq (h.tree.nonempty hx).2).symm⟩

theorem InOrder.nodup (h : InOrder v sp l) : (l.map Prod.snd).Nodup := by
  rw [List.Nodup, List.pairwise_map]
  refine h.tree.order.imp_of_mem fun {x y} hx hy hle heq => ?_
  have hint : x.1 = y.1 := by
    rw [(h.spaceOk.mapping x hx).2.2, (h.spaceOk.mapping y hy).2.2, heq]
  have := (h.tree.nonempty hy).1
  rw [hint] at hle
  omega

theorem InOrder.length_eq (h : InOrder v sp l) : (v.space sp).numMappings = l.length := by
  rw [h.count, h.list, List.length_map]

/-- After a change, each mapping is one as before or has been given its shape. -/
theorem InOrder.update (hok : InOrder v sp l)
    (htree : TreeOk (v'.space sp).tree v'.brk l') (hlist : (v'.space sp).mappings = l'.map Prod.snd)
    (hcount : (v'.space sp).numMappings = l'.length) (hbrk : v.brk ≤ v'.brk)
    (hmap : ∀ x ∈ l', (x ∈ l ∧ v'.mapping x.2 = v.mapping x.2) ∨
      (x.2 ≠ 0 ∧ x.2 < v'.brk ∧ Shaped (v'.mapping x.2) sp x.1)) : InOrder v' sp l' := by
  refine ⟨htree, hlist, by rw [hcount, hlist, List.length_map], fun x hx => ?_⟩
  rcases hmap x hx with ⟨hxl, heq⟩ | hnew
  · obtain ⟨h0, hlt, hs⟩ := hok.mapping x hxl
    exact ⟨h0, hlt.trans_le hbrk, by rwa [heq]⟩
  · exact hnew

/-- The other mappings around one. -/
theorem InOrder.ne_of_mem {z : Item} (hok : InOrder v sp (xs ++ x :: ys)) (hz : z ∈ xs ++ ys) :
    z ∈ xs ++ x :: ys ∧ z.2 ≠ x.2 := by
  have hnd := hok.nodup
  rw [List.map_append, List.map_cons, List.nodup_middle, List.nodup_cons, ← List.map_append] at hnd
  exact ⟨List.mem_append.mpr ((List.mem_append.mp hz).imp_right (List.mem_cons_of_mem _)),
    fun heq => hnd.1 (heq ▸ List.mem_map_of_mem hz)⟩

/--
An edit of space `sp`: its tree and its list hold `l'` afterwards, and the records change for
mapping `a` of the space and for new mappings only.
-/
theorem InOrder.edit (hok : InOrder v sp l)
    (hspace : v'.space sp =
      { v.space sp with tree := st, mappings := l'.map Prod.snd, numMappings := l'.length })
    (htree : TreeOk st v'.brk l') (hbrk : v.brk ≤ v'.brk)
    (hspaces : ∀ q, q ≠ sp → v'.space q = v.space q) (ha : (v.mapping a).space = sp)
    (hsame : ∀ id, id ≠ a → id < v.brk → v'.mapping id = v.mapping id)
    (hmap : ∀ x ∈ l', (x ∈ l ∧ x.2 ≠ a) ∨
      (x.2 ≠ 0 ∧ x.2 < v'.brk ∧ Shaped (v'.mapping x.2) sp x.1)) :
    Local v v' sp ∧ InOrder v' sp l' := by
  refine ⟨⟨hspaces, fun id hid hsp => hsame id (fun heq => hsp (heq ▸ ha)) hid, hbrk⟩,
    hok.update ?_ ?_ ?_ hbrk fun x hx => (hmap x hx).imp_left fun ⟨hxl, hxa⟩ =>
      ⟨hxl, hsame _ hxa (hok.mapping x hxl).2.1⟩⟩
  · rwa [hspace]
  · rw [hspace]
  · rw [hspace]

theorem Local.refl (v : VmState) (sp : Nat) : Local v v sp :=
  ⟨fun _ _ => rfl, fun _ _ _ => rfl, le_rfl⟩

theorem Local.trans (h : Local v v₁ sp) (h' : Local v₁ v' sp) : Local v v' sp := by
  refine ⟨fun q hq => (h'.spaces q hq).trans (h.spaces q hq), fun id hid hsp => ?_,
    h.brk.trans h'.brk⟩
  have heq := h.mappings id hid hsp
  rw [h'.mappings id (hid.trans_le h.brk) (by rwa [heq]), heq]

/-- The list of another space. -/
theorem InOrder.elsewhere {q : Nat} (hok : InOrder v q l) (h : Local v v' sp) (hq : q ≠ sp) :
    InOrder v' q l := by
  refine ⟨?_, ?_, ?_, fun x hx => ?_⟩
  · rw [h.spaces q hq]
    exact hok.tree.mono h.brk
  · rw [h.spaces q hq]
    exact hok.list
  · rw [h.spaces q hq]
    exact hok.count
  · obtain ⟨h0, hlt, hs⟩ := hok.mapping x hx
    refine ⟨h0, hlt.trans_le h.brk, ?_⟩
    rwa [h.mappings x.2 hlt (by rwa [hs.space])]

/-- What stands behind the mappings does not matter. -/
theorem InOrder.congr (hok : InOrder v sp l) (hspace : v'.space = v.space)
    (hmapping : v'.mapping = v.mapping) (hbrk : v'.brk = v.brk) : InOrder v' sp l := by
  obtain ⟨htree, hlist, hcount, hmap⟩ := hok
  rw [← hspace, ← hbrk] at htree
  rw [← hspace] at hlist hcount
  rw [← hmapping, ← hbrk] at hmap
  exact ⟨htree, hlist, hcount, hmap⟩

theorem Local.of_eq (hspace : v'.space = v.space) (hmapping : v'.mapping = v.mapping)
    (hbrk : v'.brk = v.brk) : Local v v' sp :=
  ⟨fun q _ => congrFun hspace q, fun id _ _ => congrFun hmapping id, Nat.le_of_eq hbrk.symm⟩

/-- A mapping that gets other flags. -/
theorem InOrder.onlyFlags (hok : InOrder v sp l) (h : OnlyFlags v v' id) :
    InOrder v' sp l := by
  refine ⟨?_, ?_, ?_, fun x hx => ?_⟩
  · rw [h.space, h.brk]
    exact hok.tree
  · rw [h.space]
    exact hok.list
  · rw [h.space]
    exact hok.count
  · obtain ⟨h0, hlt, hs⟩ := hok.mapping x hx
    refine ⟨h0, by rwa [h.brk], ?_⟩
    by_cases hid : x.2 = id
    · obtain ⟨flags, hnew, hstack⟩ := h.flags
      rw [hid, hnew]
      rw [hid] at hs
      exact hs.flags hstack
    · rwa [h.others x.2 hid]

theorem OnlyFlags.isLocal (h : OnlyFlags v v' id) (hid : (v.mapping id).space = sp) :
    Local v v' sp := by
  refine ⟨fun q _ => congrFun h.space q, fun q _ hq => h.others q ?_, Nat.le_of_eq h.brk.symm⟩
  rintro rfl
  exact hq hid

/-! ## New mappings -/

theorem treeInsert_place (htree : TreeOk (v.space sp).tree v.brk (xs ++ ys))
    (hne : i.start < i.stop)
    (hword : i.stop < word) (hxs : ∀ x ∈ xs, x.1.stop ≤ i.start)
    (hys : ∀ y ∈ ys, i.stop ≤ y.1.start)
    (id : Nat) :
    ∃ st, treeInsert v sp i id = .ok { v.setTree sp st with brk := v.brk + 2 } ∧
      TreeOk st (v.brk + 2) (xs ++ (i, id) :: ys) := by
  have hdis : ∀ x ∈ xs ++ ys, i.Disjoint x.1 := fun x hx =>
    (List.mem_append.mp hx).symm.imp (hys x) (hxs x)
  obtain ⟨st, as, bs, hrun, hl, hst⟩ := treeInsert_spec htree hne hword hdis id
  obtain ⟨rfl, rfl⟩ := gap_unique hne (fun x hx => (htree.nonempty hx).1) hl.symm hst.order hxs hys
  exact ⟨st, hrun, hst⟩

/-- The list behind the mapping that lies before a gap. -/
theorem listAdd_gap (hnd : (l.map Prod.snd).Nodup) (hl : l = xs ++ ys)
    (hc : c = (xs.getLast?.map Prod.snd).getD 0) (hplace : c = 0 → l = []) (id : Nat) :
    listAdd (l.map Prod.snd) id c = .ok (xs.map Prod.snd ++ id :: ys.map Prod.snd) := by
  unfold listAdd
  by_cases h : c = 0
  · have hnil := hplace h
    rw [hl] at hnil
    obtain ⟨rfl, rfl⟩ := List.append_eq_nil_iff.mp hnil
    simp [hl, h]
  · rw [if_pos h, hl, List.map_append]
    rw [hl, List.map_append] at hnd
    exact listInsert_last hnd (getLast?_of_getD hc h) id

theorem Inserts.isLocal (h : Inserts v v' sp l vm c) : Local v v' sp :=
  ⟨h.spaces, fun id hid _ => h.others id (Nat.ne_of_lt hid), h.brk.le⟩

/-- **A new mapping keeps the order if it has a mapping below it or is the first one.** -/
theorem Inserts.inOrder (h : Inserts v v' sp l vm c) (hok : InOrder v sp l)
    (hshape : Shaped vm sp i) (hi : vmVirtInterval vm = i) (hne : i.start < i.stop)
    (hgap : GapAt l i c) (hplace : c = 0 → l = []) : ∃ l', InOrder v' sp l' := by
  obtain ⟨st, as, bs, mappings, hl, htree, hlist, hspace⟩ := h.space
  obtain ⟨flags, hnew, hflags, -⟩ := h.mapping
  obtain ⟨xs, ys, hxy, hc, hxs, hys⟩ := hgap
  rw [hi] at htree
  have hall : ∀ x ∈ xs ++ ys, x.1.start < x.1.stop := fun x hx =>
    (hok.tree.nonempty (by rwa [hxy])).1
  obtain ⟨rfl, rfl⟩ := gap_unique hne hall (hl.symm.trans hxy) htree.order hxs hys
  rw [hok.list, listAdd_gap hok.nodup hl hc hplace] at hlist
  cases hlist
  refine ⟨as ++ (i, v.brk) :: bs, hok.update ?_ ?_ ?_ h.brk.le fun x hx => ?_⟩
  · rwa [hspace]
  · rw [hspace, List.map_append]
    rfl
  · rw [hspace]
    rw [hok.length_eq, hl, List.length_append, List.length_append, List.length_cons, Nat.add_assoc]
  · rw [List.mem_append, List.mem_cons, or_left_comm, ← List.mem_append, ← hl] at hx
    rcases hx with rfl | hx
    · refine .inr ⟨Nat.pos_iff_ne_zero.mp hok.spaceOk.brk_pos, h.brk, ?_⟩
      rw [hnew]
      exact hshape.flags hflags
    · exact .inl ⟨hx, h.others x.2 (Nat.ne_of_lt (hok.mapping x hx).2.1)⟩

/-! ## Freed mappings -/

theorem treeDelete_spec (htree : TreeOk (v.space sp).tree v.brk l) (hx : x ∈ l) :
    ∃ st xs ys, treeDelete v sp x.1 = .ok (v.setTree sp st) ∧ l = xs ++ x :: ys ∧
      TreeOk st v.brk (xs ++ ys) := by
  obtain ⟨st, xs, ys, hrun, hl, hst⟩ := htree.delete hx rfl
  refine ⟨st, xs, ys, ?_, hl, hst⟩
  rw [treeDelete, hrun]
  rfl

theorem erase_map_snd (hnd : ((xs ++ x :: ys).map Prod.snd).Nodup) :
    ((xs ++ x :: ys).map Prod.snd).erase x.2 = (xs ++ ys).map Prod.snd := by
  rw [List.map_append, List.map_cons] at hnd ⊢
  have hnot : x.2 ∉ xs.map Prod.snd := fun hmem =>
    (List.nodup_append.mp hnd).2.2 x.2 hmem x.2 (by simp) rfl
  rw [List.erase_append_right _ hnot, List.erase_cons_head, List.map_append]

/-- **Freeing a mapping takes it out of the tree and the list.** -/
theorem freeMapping_inOrder (hok : InOrder v sp l) (hx : x ∈ l)
    (hrun : freeMapping v x.2 = .ok v') :
    ∃ xs ys, l = xs ++ x :: ys ∧ InOrder v' sp (xs ++ ys) ∧ Local v v' sp := by
  obtain ⟨-, -, hs⟩ := hok.mapping x hx
  obtain ⟨st, xs, ys, hdel, rfl, hst⟩ := treeDelete_spec hok.tree hx
  have hi := hs.vmVirtInterval_eq (hok.tree.nonempty hx).2
  obtain ⟨v₁, hv1, hrun⟩ := bind_ok hrun
  rw [hs.space, hi, hdel] at hv1
  cases hv1
  rw [hs.space, VmState.setTree_space_self] at hrun
  obtain ⟨backing, rfl⟩ : ∃ backing, v' = { (v.setTree sp st).setSpace sp { v.space sp with
      tree := st, mappings := (v.space sp).mappings.erase x.2,
      numMappings := (v.space sp).numMappings - 1 } with backing } := by
    split at hrun
    · obtain ⟨backing, -, hrun⟩ := bind_ok hrun
      exact ⟨backing, (Except.ok.inj hrun).symm⟩
    · exact ⟨v.backing, (Except.ok.inj hrun).symm⟩
  refine ⟨xs, ys, rfl, And.symm (hok.edit ?_ hst le_rfl (fun q hq => ?_) hs.space
    (fun _ _ _ => rfl) fun z hz => .inl (hok.ne_of_mem hz))⟩
  · simp [hok.list, erase_map_snd hok.nodup, hok.length_eq, -List.map_append]
  · simp [hq]

/-! ## Split mappings -/

/-- The node of a mapping is found with the range of the mapping. -/
theorem InOrder.treeFind_run (h : InOrder v sp l) (hx : x ∈ l) :
    vmVirtInterval (v.mapping x.2) = x.1 ∧ ∃ node, treeFind v sp x.1 = .ok node ∧ node ≠ 0 ∧
      (v.space sp).tree.data.start node = x.1.start ∧
        (v.space sp).tree.data.stop node = x.1.stop := by
  obtain ⟨node, hfind, hne, -, hint, -⟩ := h.tree.find hx
  obtain ⟨-, -, hs⟩ := h.mapping x hx
  rw [treeFind, hfind, ← hint]
  exact ⟨hint ▸ hs.vmVirtInterval_eq (h.tree.nonempty hx).2, node, rfl, hne, rfl, rfl⟩

/-- Every range has one place. -/
theorem TreeOk.split_unique {brk : Nat}
    (h : TreeOk st brk (xs ++ x :: ys)) (hl : xs ++ x :: ys = as ++ x :: bs) : xs = as ∧
    ys = bs := by
  have hnd : (xs ++ x :: ys).Nodup := h.order.imp_of_mem fun {y z} hy hz hle heq => by
    have := (h.nonempty hz).1
    rw [heq] at hle
    omega
  rw [List.nodup_middle, List.nodup_cons, List.mem_append, not_or] at hnd
  obtain ⟨hxs, -, hys⟩ := (List.append_cons_inj_of_notMem hnd.1.1 hnd.1.2).mp hl
  exact ⟨hxs, hys⟩

/-- A range that gets another end, which keeps it apart from those around it. -/
theorem treeUpdate_stop (htree : TreeOk (v.space sp).tree v.brk (xs ++ x :: ys))
    (hstop : addOffset x.1.stop de = stop) (hne : x.1.start < stop)
    (hys : ∀ y ∈ ys, stop ≤ y.1.start) :
    ∃ node st, treeFind v sp x.1 = .ok node ∧ treeUpdate v sp node 0 de = .ok (v.setTree sp st) ∧
      TreeOk st v.brk (xs ++ (⟨x.1.start, stop⟩, x.2) :: ys) := by
  obtain ⟨-, hcons, hmid⟩ := List.pairwise_append.mp htree.order
  have hmem : x ∈ xs ++ x :: ys := List.mem_append_right _ (by simp)
  have hxs : ∀ y ∈ xs, y.1.stop ≤ x.1.start := fun y hy => hmid y hy x (by simp)
  have hdis : ∀ y ∈ xs ++ x :: ys, y ≠ x → Interval.Disjoint ⟨x.1.start, stop⟩ y.1 := by
    intro y hy hyx
    rcases List.mem_append.mp hy with hy | hy
    · exact .inr (hxs y hy)
    · exact .inl (hys y ((List.mem_cons.mp hy).resolve_left hyx))
  obtain ⟨node, st, as, bs, hfind, hnode, hupd, hl, hst⟩ := htree.updateStop hmem hstop hne hdis
  obtain ⟨rfl, rfl⟩ := htree.split_unique hl
  refine ⟨node, st, ?_, ?_, hst⟩
  · rw [treeFind, hfind]
    rfl
  · rw [treeUpdate, if_neg hnode, hupd]
    rfl

theorem addOffset_sub (hd : d ≤ stop) (hstop : stop < word) :
    addOffset stop (-(d : Int)) = stop - d := by
  rw [addOffset, show ((stop : Int) + -(d : Int)) = ((stop - d : Nat) : Int) by omega,
    Int.emod_eq_of_lt (by omega) (by omega), Int.toNat_natCast]

theorem addOffset_add (h : stop + d < word) : addOffset stop d = stop + d := by
  rw [addOffset, show ((stop : Int) + (d : Int)) = ((stop + d : Nat) : Int) by omega,
    Int.emod_eq_of_lt (by omega) (by omega), Int.toNat_natCast]

theorem magnitude_eq (h : i.start ≤ i.stop) (hw : i.stop < word) : magnitude i = i.stop - i.start :=
  subWord_of_le h hw

/-- The tree in a split: the range gets shorter, and its rest becomes a range of its own. -/
theorem treeSplit_spec (htree : TreeOk (v.space sp).tree v.brk (xs ++ x :: ys))
    (hoff : 0 < off) (hlt : x.1.start + off < x.1.stop) (id : Nat) :
    ∃ node st st', treeFind v sp x.1 = .ok node ∧
      treeUpdate v sp node 0 (-(subWord (magnitude x.1) off : Int)) = .ok (v.setTree sp st) ∧
      treeInsert (v.setTree sp st) sp ⟨x.1.start + off, x.1.stop⟩ id =
        .ok { (v.setTree sp st).setTree sp st' with brk := v.brk + 2 } ∧
      TreeOk st' (v.brk + 2) (xs ++ (⟨x.1.start, x.1.start + off⟩, x.2) ::
        (⟨x.1.start + off, x.1.stop⟩, id) :: ys) := by
  obtain ⟨-, hw⟩ := htree.nonempty (List.mem_append_right _ List.mem_cons_self)
  obtain ⟨-, hcons, hmid⟩ := List.pairwise_append.mp htree.order
  have hys := (List.pairwise_cons.mp hcons).1
  have hde : addOffset x.1.stop (-(subWord (magnitude x.1) off : Int)) = x.1.start + off := by
    rw [magnitude_eq (by omega) hw, subWord_of_le (by omega) (by omega),
      addOffset_sub (by omega) hw]
    omega
  obtain ⟨node, st, hfind, hupd, htree2⟩ := treeUpdate_stop htree hde (by omega)
    (fun y hy => Nat.le_trans (by omega) (hys y hy))
  rw [List.append_cons] at htree2
  have htree₂' : TreeOk ((v.setTree sp st).space sp).tree (v.setTree sp st).brk
      ((xs ++ [(⟨x.1.start, x.1.start + off⟩, x.2)]) ++ ys) := by
    rwa [VmState.setTree_space_self]
  obtain ⟨st', hins, htree3⟩ := treeInsert_place (i := ⟨x.1.start + off, x.1.stop⟩) htree₂' hlt hw
    (fun y hy => by
      rcases List.mem_append.mp hy with hy | hy
      · have := hmid y hy x (by simp)
        show y.1.stop ≤ x.1.start + off
        omega
      · rw [List.mem_singleton.mp hy]) hys id
  rw [List.append_assoc] at htree3
  exact ⟨node, st, st', hfind, hupd, hins, htree3⟩

/-- The first part of a mapping that is split, with what stands behind it. -/
def firstPart (vm : VmMapping) (off data : Nat) : VmMapping :=
  { vm with flags := vm.flags ||| vmLinked, size := off
            virtSize := if vm.flags.has vmStack then vm.virtSize else off, data }

/-- The second part. -/
def secondPart (vm : VmMapping) (off data : Nat) : VmMapping :=
  { type := vm.type, flags := vm.flags ||| vmSplit, address := addWord vm.address off
    size := subWord vm.size off
    virtSize := if vm.flags.has vmStack then subWord vm.size off else subWord vm.virtSize off
    space := vm.space, data }

theorem has_or_vmLinked (flags : Flags) : (flags ||| vmLinked).has vmStack = flags.has vmStack := by
  rw [has_vmStack, has_vmStack]
  simp [vmLinked]

theorem has_or_vmSplit (flags : Flags) : (flags ||| vmSplit).has vmStack = flags.has vmStack := by
  rw [has_vmStack, has_vmStack]
  simp [vmSplit]

section

variable {off : Nat} (h : Shaped vm sp i) (hstack : vm.flags.has vmStack = false)
include h hstack

theorem Shaped.firstPart (data : Nat) :
    Shaped (firstPart vm off data) sp ⟨i.start, i.start + off⟩ := by
  have hflags : (vm.flags ||| vmLinked).has vmStack = false := (has_or_vmLinked _).trans hstack
  refine ⟨h.space, ?_, ?_, ?_, fun hs => ?_⟩
  · simp [Vm.firstPart, hstack]
  · simp [Vm.firstPart, hflags, h.address, hstack]
  · simp [Vm.firstPart, hstack]
  · simp [Vm.firstPart, hflags] at hs

theorem Shaped.secondPart (hoff : off ≤ vm.size) (hw : i.stop < word) (data : Nat) :
    Shaped (secondPart vm off data) sp ⟨i.start + off, i.stop⟩ ∧
      (secondPart vm off data).size = vm.size - off := by
  have hflags : (vm.flags ||| vmSplit).has vmStack = false := (has_or_vmSplit _).trans hstack
  have hsize := h.size
  have hstop := h.stop
  have haddr : vm.address = i.start := by simpa [hstack] using h.address
  have hS : subWord vm.size off = vm.size - off := subWord_of_le hoff (by omega)
  have hV : subWord vm.virtSize off = vm.virtSize - off := subWord_of_le (by omega) (by omega)
  refine ⟨⟨h.space, ?_, ?_, ?_, fun hs => ?_⟩, hS⟩
  · simp [Vm.secondPart, hstack, hV]
    omega
  · simp [Vm.secondPart, hflags, haddr, addWord_of_lt (show i.start + off < word by omega)]
  · simp [Vm.secondPart, hstack, hS, hV]
    omega
  · simp [Vm.secondPart, hflags] at hs

end

theorem splitMapping_eq (v : VmState) (id off : Nat) : splitMapping v id off =
    (if off % vmFlagsToSize (v.mapping id).flags ≠ 0 then .error .assertion
    else do
      let (data, newData, backing) ← vmSplitInternal v.backing (v.mapping id) off
      let sp := (v.mapping id).space
      let v₁ := ({ v with brk := v.brk + 1, backing }.setMapping id
        (firstPart (v.mapping id) off data)).setMapping v.brk
          (secondPart (v.mapping id) off newData)
      let node ← treeFind v₁ sp (vmVirtInterval (v.mapping id))
      let v2 ← treeUpdate v₁ sp node 0
        (-(subWord (magnitude (vmVirtInterval (v.mapping id))) off : Int))
      let v3 ← treeInsert v2 sp (vmVirtInterval (secondPart (v.mapping id) off newData)) v.brk
      if ¬ contiguous (vmVirtInterval (firstPart (v.mapping id) off data))
          (vmVirtInterval (secondPart (v.mapping id) off newData)) then .error .assertion
      else do
        let mappings ← listInsert (v3.space sp).mappings v.brk id
        .ok (v.brk, v3.setSpace sp { v3.space sp with
          numMappings := (v3.space sp).numMappings + 1, mappings })) :=
  rfl

/-- A split that returns has split what stands behind the mapping. -/
theorem splitMapping_internal (h : splitMapping v id off = .ok (newId, v')) :
    off % vmFlagsToSize (v.mapping id).flags = 0 ∧ ∃ data newData backing,
      vmSplitInternal v.backing (v.mapping id) off = .ok (data, newData, backing) := by
  obtain ⟨hal, h⟩ := guard_eq_ok.mp h
  obtain ⟨⟨data, newData, backing⟩, hback, -⟩ := bind_ok h
  exact ⟨not_not.mp hal, data, newData, backing, hback⟩

section

variable (hok : InOrder v sp (xs ++ x :: ys)) (hstack : (v.mapping x.2).flags.has vmStack = false)
  (hoff : 0 < off) (hlt : off < (v.mapping x.2).size)

include hok hstack hoff hlt

/-- **A split puts two mappings into the place of one.** -/
theorem splitMapping_run {newData : Nat}
    (hal : off % vmFlagsToSize (v.mapping x.2).flags = 0)
    (hback : vmSplitInternal v.backing (v.mapping x.2) off = .ok (data, newData, backing)) :
    ∃ v', splitMapping v x.2 off = .ok (v.brk, v') ∧ Local v v' sp ∧
      InOrder v' sp (xs ++ (⟨x.1.start, x.1.start + off⟩, x.2) ::
        (⟨x.1.start + off, x.1.stop⟩, v.brk) :: ys) ∧ v'.backing = backing ∧
      v'.mapping x.2 = firstPart (v.mapping x.2) off data ∧
      v'.mapping v.brk = secondPart (v.mapping x.2) off newData := by
  have hmem : x ∈ xs ++ x :: ys := List.mem_append_right _ (by simp)
  obtain ⟨h0, hid, hs⟩ := hok.mapping x hmem
  have hw := (hok.tree.nonempty hmem).2
  have hsize := hs.size
  have hstop := hs.stop
  obtain ⟨hsecond, -⟩ := hs.secondPart hstack hlt.le hw newData
  have hfirst : Shaped (firstPart (v.mapping x.2) off data) sp ⟨x.1.start, x.1.start + off⟩ :=
    hs.firstPart hstack data
  rw [splitMapping_eq, if_neg (not_not.mpr hal), hback]
  dsimp only [bind, Except.bind]
  rw [hs.vmVirtInterval_eq hw, hs.space, hsecond.vmVirtInterval_eq hw,
    hfirst.vmVirtInterval_eq (show _ < word by
      show x.1.start + off < word
      omega)]
  generalize firstPart (v.mapping x.2) off data = vm1 at hfirst ⊢
  generalize secondPart (v.mapping x.2) off newData = vm2 at hsecond ⊢
  generalize hv1 :
    (VmState.setMapping { v with brk := v.brk + 1, backing } x.2 vm1).setMapping v.brk
    vm2 = v₁
  have htree1 : TreeOk (v₁.space sp).tree v₁.brk (xs ++ x :: ys) := by
    rw [← hv1]
    exact hok.tree.mono (Nat.le_succ _)
  obtain ⟨node, st, st', hfind, hupd, hins, htree3⟩ :=
    treeSplit_spec htree1 hoff (by omega) v.brk
  have hcont : contiguous ⟨x.1.start, x.1.start + off⟩ ⟨x.1.start + off, x.1.stop⟩ = true := by
    have hover : overlaps ⟨x.1.start, x.1.start + off⟩ ⟨x.1.start + off, x.1.stop⟩ = false :=
      Bool.eq_false_iff.mpr fun h => Nat.lt_irrefl _ ((overlaps_iff _ _).mp h).1
    simp [contiguous, hover]
  -- the list: the new mapping stands behind the old one
  have hlist : listInsert (v.space sp).mappings v.brk x.2 =
      .ok ((xs ++ (⟨x.1.start, x.1.start + off⟩, x.2) ::
        (⟨x.1.start + off, x.1.stop⟩, v.brk) :: ys).map Prod.snd) := by
    have hnd := hok.nodup
    rw [List.append_cons, List.map_append] at hnd
    rw [hok.list, List.append_cons, List.map_append,
      listInsert_last hnd (by rw [List.map_append]; exact List.getLast?_concat)]
    simp
  subst hv1
  simp only [hfind, hupd, hins, hcont, VmState.setTree_space_self, VmState.setMapping_space, hlist]
  have hne : x.2 ≠ v.brk := Nat.ne_of_lt hid
  refine ⟨_, rfl, ?_⟩
  rw [← and_assoc]
  refine ⟨hok.edit ?_ htree3 ?_ (fun q hq => ?_) hs.space (fun q hqx hq => ?_) fun z hz => ?_,
    rfl, ?_, ?_⟩
  · simp [hok.length_eq, Nat.add_assoc]
  · simp [Nat.add_assoc]
  · simp [hq]
  · simp [hqx, Nat.ne_of_lt hq]
  · rw [List.mem_append, List.mem_cons, List.mem_cons, or_left_comm, or_left_comm (b := z = _),
      ← List.mem_append] at hz
    rcases hz with rfl | rfl | hz
    · exact .inr ⟨h0, by simp; omega, by simpa [hne] using hfirst⟩
    · exact .inr
        ⟨Nat.pos_iff_ne_zero.mp hok.spaceOk.brk_pos, by simp; omega, by simpa using hsecond⟩
    · exact .inl (hok.ne_of_mem hz)
  · simp [hne]
  · simp

theorem splitMapping_inOrder (hrun : splitMapping v x.2 off = .ok (newId, v')) :
    newId = v.brk ∧ Local v v' sp ∧
      InOrder v' sp (xs ++ (⟨x.1.start, x.1.start + off⟩, x.2) ::
        (⟨x.1.start + off, x.1.stop⟩, v.brk) :: ys) ∧
      (v'.mapping v.brk).flags.has vmStack = false ∧
      (v'.mapping v.brk).size = (v.mapping x.2).size - off := by
  have hmem : x ∈ xs ++ x :: ys := List.mem_append_right _ (by simp)
  obtain ⟨-, -, hs⟩ := hok.mapping x hmem
  obtain ⟨hal, data, newData, backing, hback⟩ := splitMapping_internal hrun
  obtain ⟨v₁, hrun1, hlocal, hok1, -, -, hnew⟩ := splitMapping_run hok hstack hoff hlt hal hback
  obtain ⟨rfl, rfl⟩ := Prod.mk.inj (Except.ok.inj (hrun.symm.trans hrun1))
  refine ⟨rfl, hlocal, hok1, ?_, ?_⟩
  · rw [hnew]
    exact (has_or_vmSplit _).trans hstack
  · rw [hnew]
    exact (hs.secondPart hstack hlt.le (hok.tree.nonempty hmem).2 newData).2

end

/-! ## Joined mappings -/

/-- The tree in a join: the second range goes, and the first one grows by its size. -/
theorem treeJoin_spec (htree : TreeOk (v.space sp).tree v.brk (xs ++ x :: y :: ys)) :
    ∃ node st st', treeFind v sp x.1 = .ok node ∧ treeDelete v sp y.1 = .ok (v.setTree sp st) ∧
      treeUpdate (v.setTree sp st) sp node 0 (magnitude y.1) =
        .ok ((v.setTree sp st).setTree sp st') ∧
      TreeOk st' v.brk (xs ++ (⟨x.1.start, x.1.stop + (y.1.stop - y.1.start)⟩, x.2) :: ys) := by
  have hx : x ∈ xs ++ x :: y :: ys := List.mem_append_right _ (by simp)
  have hy : y ∈ xs ++ x :: y :: ys :=
    List.mem_append_right _ (by simp)
  obtain ⟨hnex, -⟩ := htree.nonempty hx
  obtain ⟨hney, hwy⟩ := htree.nonempty hy
  obtain ⟨-, hcons, -⟩ := List.pairwise_append.mp htree.order
  obtain ⟨hxys, hcons⟩ := List.pairwise_cons.mp hcons
  have hxy := hxys y (by simp)
  have hys := (List.pairwise_cons.mp hcons).1
  have hne : x ≠ y := by
    rintro rfl
    omega
  obtain ⟨st, as, bs, hdel, hl, hst⟩ := htree.delete hy rfl
  rw [List.append_cons] at htree hl
  obtain ⟨rfl, rfl⟩ := htree.split_unique hl
  rw [List.append_assoc] at hst
  have hfind := htree.find_delete (by rwa [← List.append_cons]) rfl hdel
    (by rwa [← List.append_cons]) hne
  have htree' : TreeOk ((v.setTree sp st).space sp).tree (v.setTree sp st).brk (xs ++ x :: ys) := by
    rwa [VmState.setTree_space_self]
  have hde : addOffset x.1.stop (magnitude y.1) = x.1.stop + (y.1.stop - y.1.start) := by
    rw [magnitude_eq hney.le hwy]
    exact addOffset_add (by omega)
  obtain ⟨node, st', hnode, hupd, htree2⟩ := treeUpdate_stop htree' hde (by omega)
    (fun z hz => Nat.le_trans (by omega) (hys z hz))
  refine ⟨node, st, st', ?_, ?_, hupd, htree2⟩
  · unfold treeFind at hnode ⊢
    rwa [VmState.setTree_space_self, hfind] at hnode
  · rw [treeDelete, hdel]
    rfl

/-- What becomes of `vm` when `other` is joined to it. -/
def joined (vm other : VmMapping) (data : Nat) : VmMapping :=
  { vm with
    flags := vm.flags &&& ~~~vmLinked, size := addWord vm.size other.size
    virtSize := addWord vm.virtSize other.virtSize, data }

theorem Shaped.joined {other : VmMapping} {j : Interval} (h : Shaped vm sp i)
    (hj : Shaped other sp j)
    (hstack : vm.flags.has vmStack = false) (hij : i.stop ≤ j.start) (hw : j.stop < word)
    (data : Nat) :
    Shaped (joined vm other data) sp ⟨i.start, i.stop + (j.stop - j.start)⟩ := by
  have hflags : (vm.flags &&& ~~~vmLinked).has vmStack = false := by
    rw [← hstack, has_vmStack, has_vmStack]
    simp [vmLinked]
  have h1 := h.size
  have h2 := hj.size
  have h3 := h.stop
  have h4 := hj.stop
  have haddr : vm.address = i.start := by simpa [hstack] using h.address
  have hsize : addWord vm.size other.size = vm.size + other.size := addWord_of_lt (by omega)
  have hvirt : addWord vm.virtSize other.virtSize = vm.virtSize + other.virtSize :=
    addWord_of_lt (by omega)
  refine ⟨h.space, ?_, ?_, ?_, fun hs => ?_⟩
  · simp [Vm.joined, hvirt]
    omega
  · simp [Vm.joined, hflags, haddr]
  · simp [Vm.joined, hsize, hvirt]
    omega
  · simp [Vm.joined, hflags] at hs

theorem treeDelete_backing (h : treeDelete v sp i = .ok v') : v'.backing = v.backing := by
  obtain ⟨st, -, h⟩ := bind_ok h
  cases h
  rfl

theorem treeUpdate_backing {node : Nat} {ds : Int} (h : treeUpdate v sp node ds de = .ok v') :
    v'.backing = v.backing := by
  obtain ⟨-, h⟩ := guard_eq_ok.mp h
  obtain ⟨st, -, h⟩ := bind_ok h
  cases h
  rfl

/-- A join that returns has joined what stands behind the mappings. -/
theorem joinMappings_internal (h : joinMappings v a b = .ok v') :
    (v.mapping a).flags.has vmLinked = true ∧ (v.mapping b).flags.has vmSplit = true ∧
      ∃ data backing, vmJoinInternal v.backing (v.mapping a) (v.mapping b) =
        .ok (data, backing) := by
  obtain ⟨hflags, h⟩ := guard_eq_ok.mp h
  obtain ⟨node, -, h⟩ := bind_ok h
  obtain ⟨v₁, hdel, h⟩ := bind_ok h
  obtain ⟨v2, hupd, h⟩ := bind_ok h
  obtain ⟨⟨data, backing⟩, hback, -⟩ := bind_ok h
  have hback2 : v2.backing = v.backing := (treeUpdate_backing hupd).trans (treeDelete_backing hdel)
  rw [show (v2.setSpace _ _).backing = v.backing from hback2] at hback
  simp only [not_or, not_not] at hflags
  exact ⟨hflags.1, hflags.2, data, backing, hback⟩

/-- **A join makes one mapping of two neighbours.** -/
theorem joinMappings_run
    (hok : InOrder v sp (xs ++ x :: y :: ys)) (hstack : (v.mapping x.2).flags.has vmStack = false)
    (hlinked : (v.mapping x.2).flags.has vmLinked = true)
    (hsplit : (v.mapping y.2).flags.has vmSplit = true)
    (hback : vmJoinInternal v.backing (v.mapping x.2) (v.mapping y.2) = .ok (data, backing)) :
    ∃ v', joinMappings v x.2 y.2 = .ok v' ∧ Local v v' sp ∧
      InOrder v' sp (xs ++ (⟨x.1.start, x.1.stop + (y.1.stop - y.1.start)⟩, x.2) :: ys) ∧
      v'.backing = backing ∧ v'.mapping x.2 = joined (v.mapping x.2) (v.mapping y.2) data := by
  have hx : x ∈ xs ++ x :: y :: ys := List.mem_append_right _ (by simp)
  have hy : y ∈ xs ++ x :: y :: ys :=
    List.mem_append_right _ (by simp)
  obtain ⟨hx0, hxlt, hxs⟩ := hok.mapping x hx
  obtain ⟨-, -, hys⟩ := hok.mapping y hy
  obtain ⟨-, hwx⟩ := hok.tree.nonempty hx
  obtain ⟨hney, hwy⟩ := hok.tree.nonempty hy
  obtain ⟨-, hcons, -⟩ := List.pairwise_append.mp hok.tree.order
  have hxy := (List.pairwise_cons.mp hcons).1 y (by simp)
  obtain ⟨node, st, st', hfind, hdel, hupd, htree⟩ := treeJoin_spec hok.tree
  have hnd := hok.nodup
  rw [List.append_cons] at hnd
  have herase : (v.space sp).mappings.erase y.2 =
      (xs ++ (⟨x.1.start, x.1.stop + (y.1.stop - y.1.start)⟩, x.2) :: ys).map Prod.snd := by
    rw [hok.list, List.append_cons, erase_map_snd hnd]
    simp
  unfold joinMappings
  rw [if_neg (by simp [hlinked, hsplit])]
  dsimp only [bind, Except.bind]
  simp only [hxs.space, hxs.vmVirtInterval_eq hwx, hys.vmVirtInterval_eq hwy, hfind, hdel, hupd,
    VmState.setTree_space_self, herase]
  rw [show (VmState.setSpace ((v.setTree sp st).setTree sp st') sp _).backing = v.backing from rfl,
    hback]
  refine ⟨_, rfl, ?_⟩
  rw [← and_assoc]
  refine ⟨hok.edit ?_ htree le_rfl (fun q hq => ?_) hxs.space (fun q hqx _ => ?_)
    fun z hz => ?_, rfl, by simp [joined, hxs.space]⟩
  · simp [hok.length_eq, VmState.setSpace]
  · simp [hq]
  · simp [hqx]
  · rw [List.mem_append, List.mem_cons, or_left_comm, ← List.mem_append] at hz
    rcases hz with rfl | hz
    · exact .inr ⟨hx0, hxlt, by simpa [joined, hxs.space] using hxs.joined hys hstack hxy hwy data⟩
    · exact .inl (hok.ne_of_mem
        (List.mem_append.mpr ((List.mem_append.mp hz).imp_right (List.mem_cons_of_mem _))))

theorem joinMappings_inOrder (hok : InOrder v sp (xs ++ x :: y :: ys))
    (hstack : (v.mapping x.2).flags.has vmStack = false) (hrun : joinMappings v x.2 y.2 = .ok v') :
    Local v v' sp ∧
      InOrder v' sp (xs ++ (⟨x.1.start, x.1.stop + (y.1.stop - y.1.start)⟩, x.2) :: ys) ∧
      (v'.mapping x.2).flags.has vmLinked = false := by
  obtain ⟨hlinked, hsplit, data, backing, hback⟩ := joinMappings_internal hrun
  obtain ⟨v₁, hrun1, hlocal, hok1, -, hmap⟩ := joinMappings_run hok hstack hlinked hsplit hback
  cases hrun.symm.trans hrun1
  refine ⟨hlocal, hok1, ?_⟩
  rw [hmap]
  show ((v.mapping x.2).flags &&& ~~~vmLinked).has vmLinked = false
  rw [has_vmLinked]
  simp [vmLinked]

/-! ## Moved mappings -/

/-- A gap stays one when a range goes that is not the one before it. -/
theorem GapAt.erase (h : GapAt (xs ++ x :: ys) i c) (hnd : ((xs ++ x :: ys).map Prod.snd).Nodup)
    (hxc : x.2 ≠ c) : GapAt (xs ++ ys) i c := by
  have hndl : (xs ++ x :: ys).Nodup := hnd.of_map
  have herase : (xs ++ x :: ys).erase x = xs ++ ys := by
    rw [List.nodup_middle, List.nodup_cons, List.mem_append, not_or] at hndl
    rw [List.erase_append_right _ hndl.1.1, List.erase_cons_head]
  obtain ⟨as, bs, hl, hc, has, hbs⟩ := h
  rw [hl] at herase
  rw [← herase]
  by_cases hx : x ∈ as
  · refine ⟨as.erase x, bs, List.erase_append_left _ hx, ?_,
      fun y hy => has y (List.mem_of_mem_erase hy),
      hbs⟩
    -- the last range below the gap is not `x`
    rcases List.eq_nil_or_concat' as with rfl | ⟨as', z, rfl⟩
    · cases hx
    · have hcz : c = z.2 := by
        rw [hc, List.getLast?_concat]
        rfl
      have hxz : x ≠ z := fun heq => hxc (by rw [hcz, heq])
      have hx' : x ∈ as' := (List.mem_append.mp hx).resolve_right fun h =>
        hxz (List.mem_singleton.mp h)
      rw [hcz, List.erase_append_left _ hx', List.getLast?_concat]
      rfl
  · exact ⟨as, bs.erase x, List.erase_append_right _ hx, hc, has,
      fun y hy => hbs y (List.mem_of_mem_erase hy)⟩

/-- The size of the range that `move_mapping` looks for. -/
def moveSize (vm : VmMapping) (newSize : Nat) : Nat :=
  if vm.flags.has vmStack then addWord newSize pageSize else newSize

/-- How far above the start of that range the mapping begins. -/
def moveOff (vm : VmMapping) : Nat := if vm.flags.has vmStack then pageSize else 0

/-- Where the search for that range starts. -/
def moveBase (vm : VmMapping) (newSize : Nat) : Nat :=
  if vm.flags.has vmStack then subWord vm.address (moveSize vm newSize) else vm.address

/-- Some free range of whole pages can hold the mapping with its new size. -/
def CanMove (vm : VmMapping) (rs : List Interval) (newSize : Nat) : Prop :=
  ∃ y size, moveBase vm newSize ≤ y ∧ y % vmFlagsToSize vm.flags = 0 ∧
    size % vmFlagsToSize vm.flags = 0 ∧ newSize + moveOff vm ≤ size ∧ FreeAt rs size y ∧
    y + size < word

theorem moveSize_eq (h : newSize + moveOff vm < word) :
    moveSize vm newSize = newSize + moveOff vm := by
  unfold moveSize moveOff at *
  split
  next hs =>
    rw [if_pos hs] at h
    exact addWord_of_lt h
  · rfl

theorem FreeAt.shrink {rs : List Interval} (hle : size ≤ size')
    (h : FreeAt rs size' b) : FreeAt rs size b :=
  fun j hj => (h j hj).imp_left fun h => (Nat.add_le_add_left hle b).trans h

theorem GapAt.shrink (hle : size ≤ size') (h : GapAt l ⟨b, b + size'⟩ c) :
    GapAt l ⟨b, b + size⟩ c := by
  obtain ⟨as, bs, hl, hc, has, hbs⟩ := h
  exact ⟨as, bs, hl, hc, has, fun y hy => (Nat.add_le_add_left hle b).trans (hbs y hy)⟩

/-- `get_free_region` rounds the size up to whole pages. -/
theorem getFreeRegion_round {x : Space} {base e : Nat} (he : e < 64) (hw : size + 2 ^ e ≤ word)
    (hw' : align size (2 ^ e) + 2 ^ e ≤ word) :
    getFreeRegion x base size (2 ^ e) = getFreeRegion x base (align size (2 ^ e)) (2 ^ e) := by
  have hpos : 0 < 2 ^ e := Nat.two_pow_pos e
  obtain ⟨-, -, hmod⟩ := align_spec he hw
  unfold getFreeRegion doAlign
  simp only [gt_iff_lt, hpos, if_true, align_of_aligned he hw' hmod]

/-- The place that a mapping is moved to. -/
theorem getFreeRegion_move (hok : InOrder v sp l) (hmove : CanMove vm (ranges v sp) newSize)
    (hnew : 0 < newSize)
    (hrun : getFreeRegion (v.space sp) (moveBase vm newSize) (moveSize vm newSize)
    (vmFlagsToSize vm.flags) = .ok (b, c)) :
    moveSize vm newSize = newSize + moveOff vm ∧ b + (newSize + moveOff vm) < word ∧
      GapAt l ⟨b, b + (newSize + moveOff vm)⟩ c := by
  obtain ⟨e, he, hpg⟩ := vmFlagsToSize_eq vm.flags
  obtain ⟨y, size, hy, hya, hal, hle, hfree, hyw⟩ := hmove
  rw [hpg] at hya hal hrun
  have hsize := moveSize_eq (show newSize + moveOff vm < word by omega)
  rw [hsize] at hrun
  obtain ⟨hw, hale⟩ := align_le_of_aligned he hle hal (by omega)
  obtain ⟨hge, -, hmod⟩ := align_spec he hw
  have hw' := (align_le_of_aligned he (Nat.le_refl (align (newSize + moveOff vm) (2 ^ e))) hmod
    (by omega)).1
  rw [getFreeRegion_round he hw hw'] at hrun
  have hfree' : FreeAt (l.map Prod.fst) (align (newSize + moveOff vm) (2 ^ e)) y :=
    FreeAt.shrink hale ((hok.spaceOk.freeAt_ranges _ _).mp hfree)
  obtain ⟨-, hbw, hgap⟩ := getFreeRegion_spec hok.tree he (by omega) hmod hy hya hfree'
    (by omega) hrun
  exact ⟨hsize, by omega, hgap.shrink hge⟩

theorem Shaped.moved (h : Shaped vm sp i) (hnew : 0 < newSize)
    (hsize : moveSize vm newSize = newSize + moveOff vm) (hw : b + (newSize + moveOff vm) < word) :
    Shaped { vm with address := addWord b (moveOff vm), size := newSize
                     virtSize := moveSize vm newSize } sp ⟨b, b + (newSize + moveOff vm)⟩ := by
  rw [hsize, addWord_of_lt (show b + moveOff vm < word by omega)]
  refine ⟨h.space, rfl, ?_, Nat.le_add_right _ _, fun hs => ⟨hnew, ?_⟩⟩
  · show b + moveOff vm = b + if vm.flags.has vmStack then newSize + moveOff vm - newSize else 0
    unfold moveOff
    split
    · omega
    · rfl
  · show newSize + pageSize ≤ newSize + moveOff vm
    rw [moveOff, if_pos hs]

theorem treeInsert_frame (h : treeInsert v sp i id = .ok v') :
    v'.mapping = v.mapping ∧ (v'.space sp).mappings = (v.space sp).mappings := by
  obtain ⟨st, -, h⟩ := bind_ok h
  cases h
  refine ⟨rfl, ?_⟩
  rw [VmState.setTree_space_self]

/-- **A moved mapping stands in the list where it lies**, provided that a place for it exists. -/
theorem moveMapping_inOrder {moved : Bool} (hok : InOrder v sp l) (hx : x ∈ l)
    (hnew : 0 < newSize) (hmove : CanMove (v.mapping x.2) (ranges v sp) newSize)
    (hrun : moveMapping v x.2 newSize = .ok (moved, v')) :
    Local v v' sp ∧ ∃ l', InOrder v' sp l' := by
  obtain ⟨h0, hlt, hs⟩ := hok.mapping x hx
  obtain ⟨-, hw⟩ := hok.tree.nonempty hx
  obtain ⟨⟨b, c⟩, hreg, hrun⟩ := bind_ok hrun
  dsimp only at hreg hrun
  rw [hs.space] at hreg hrun
  obtain ⟨hsize, hbw, hgap⟩ := getFreeRegion_move hok hmove hnew hreg
  rw [hs.vmVirtInterval_eq hw] at hrun
  split at hrun
  · cases hrun
    exact ⟨.refl _ _, l, hok⟩
  obtain ⟨st, xs, ys, hdel, hl, hst⟩ := treeDelete_spec hok.tree hx
  subst hl
  obtain ⟨v₁, hv1, hrun⟩ := bind_ok hrun
  rw [hdel] at hv1
  cases hv1
  obtain ⟨v2, hv2, hrun⟩ := bind_ok hrun
  obtain ⟨hmap2, hlist2⟩ := treeInsert_frame hv2
  have hnd := hok.nodup
  rw [hlist2, VmState.setTree_space_self] at hrun
  rw [hok.list, erase_map_snd hnd, hmap2, VmState.setTree_mapping] at hrun
  obtain ⟨hc0, hrun⟩ := guard_eq_ok.mp hrun
  -- the mapping before the gap lies below it
  obtain ⟨as, bs, hab, hc, has, hbs⟩ := id hgap
  obtain ⟨z, hz, hzc⟩ := List.mem_map.mp (List.mem_of_getLast? (getLast?_of_getD hc hc0))
  have hzl : z ∈ xs ++ x :: ys := by
    rw [hab]
    exact List.mem_append_left _ hz
  have hbelow : ¬ (v.mapping c).address > b := by
    have h1 := ((hok.mapping z hzl).2.2.address_mem (hok.tree.nonempty hzl).1).2
    have h2 := has z hz
    rw [hzc] at h1
    dsimp only at h2
    omega
  rw [if_neg hbelow] at hrun
  obtain ⟨mappings, hins, hrun⟩ := bind_ok hrun
  -- it is not the moved mapping itself, which is no longer in the list
  have hxc : x.2 ≠ c := by
    rintro rfl
    unfold listInsert at hins
    rw [if_neg] at hins
    · cases hins
    · intro hmem
      obtain ⟨y, hy, hyx⟩ := List.mem_map.mp hmem
      exact (hok.ne_of_mem hy).2 hyx
  obtain ⟨as, bs, hab, hc, has, hbs⟩ := hgap.erase hnd hxc
  have hst' : TreeOk ((v.setTree sp st).space sp).tree (v.setTree sp st).brk (as ++ bs) := by
    rwa [VmState.setTree_space_self, ← hab]
  have hv2 : treeInsert (v.setTree sp st) sp ⟨b, addWord b (moveSize (v.mapping x.2) newSize)⟩ x.2 =
    .ok v2 := hv2
  rw [hsize, addWord_of_lt hbw] at hv2
  obtain ⟨st', hins', htree⟩ := treeInsert_place hst'
    (show b < b + (newSize + _) by omega) hbw has hbs x.2
  rw [hins'] at hv2
  have hnd' : ((xs ++ ys).map Prod.snd).Nodup :=
    hnd.sublist ((List.Sublist.append (.refl _) (List.sublist_cons_self _ _)).map _)
  rw [hab, List.map_append] at hins hnd'
  rw [listInsert_last hnd' (getLast?_of_getD hc hc0)] at hins
  cases hins
  cases hv2
  cases hrun
  refine And.imp_right
    (fun h => ⟨as ++ (⟨b, b + (newSize + moveOff (v.mapping x.2))⟩, x.2) :: bs, h⟩)
    (hok.edit ?_ htree (Nat.le_add_right _ 2) (fun q hq => ?_) hs.space (fun q hqx _ => ?_)
      fun z hz => ?_)
  · have hlen := congrArg List.length hab
    simp only [List.length_append] at hlen
    simp [hok.length_eq]
    omega
  · simp [hq]
  · simp [hqx]
  · rw [List.mem_append, List.mem_cons, or_left_comm, ← List.mem_append, ← hab] at hz
    rcases hz with rfl | hz
    · refine .inr ⟨h0, Nat.lt_add_right 2 hlt, ?_⟩
      have hm := hs.moved hnew hsize hbw
      rw [hs.space] at hm
      simpa [moveSize, moveOff] using hm
    · exact .inl (hok.ne_of_mem hz)

end Osdev.Vm
