import Osdev.Vfs.Frame

/-!
# Reading the tree

A lookup makes an entry and a vnode for a node that it finds, but it leaves the nodes and directory
entries of the tree as they are, and so does everything that path resolution is made of.
-/

namespace Osdev.Vfs

open Osdev.Lib

variable {n' n : Vnode} {e : Ventry}

-- a function of many steps is a long search
set_option synthInstance.maxSize 1000

/-- No node or directory entry is made or changed, and only those of dead vnodes and entries go
away; and no vnode or entry dies. -/
structure SameTree (s s' : Fs) : Prop where
  node : ∀ d n, s'.node d = some n → s.node d = some n
  dentry : ∀ d x, s'.dentry d = some x → s.dentry d = some x
  nodeKept : ∀ d n, s.node d = some n → s'.node d = some n ∨ DeadNode s d
  dentryKept : ∀ d x, s.dentry d = some x → s'.dentry d = some x ∨ DeadDentry s d
  deadVnode : ∀ v n', s'.vnode v = some n' → n'.state = .dead →
    ∃ n, s.vnode v = some n ∧ n.state = .dead ∧ n.data = n'.data
  deadEntry : ∀ p e', s'.ventry p = some e' → EntryDead s' e' →
    ∃ e, s.ventry p = some e ∧ EntryDead s e ∧ e.data = e'.data

section Relation

variable {s s₁ s' : Fs}

instance : Std.Refl SameTree where
  refl _ :=
    { node := fun _ _ h => h
      dentry := fun _ _ h => h
      nodeKept := fun _ _ h => .inl h
      dentryKept := fun _ _ h => .inl h
      deadVnode := fun _ n h hd => ⟨n, h, hd, rfl⟩
      deadEntry := fun _ e h hd => ⟨e, h, hd, rfl⟩ }

theorem SameTree.deadNode {d : Nat} (h : SameTree s s') (hd : DeadNode s' d) : DeadNode s d := by
  obtain ⟨v, n', hn', hdata, hstate⟩ := hd
  obtain ⟨n, hn, hstate, heq⟩ := h.deadVnode v n' hn' hstate
  exact ⟨v, n, hn, heq.trans hdata, hstate⟩

theorem SameTree.deadDentry {d : Nat} (h : SameTree s s') (hd : DeadDentry s' d) :
    DeadDentry s d := by
  obtain ⟨p, e', he', hdata, hdead⟩ := hd
  obtain ⟨e, he, hdead, heq⟩ := h.deadEntry p e' he' hdead
  exact ⟨p, e, he, heq.trans hdata, hdead⟩

theorem SameTree.trans (h : SameTree s s₁) (h' : SameTree s₁ s') : SameTree s s' where
  node d n hn := h.node d n (h'.node d n hn)
  dentry d x hx := h.dentry d x (h'.dentry d x hx)
  nodeKept d n hn := by
    obtain hn | hdead := h.nodeKept d n hn
    · exact (h'.nodeKept d n hn).imp_right h.deadNode
    · exact .inr hdead
  dentryKept d x hx := by
    obtain hx | hdead := h.dentryKept d x hx
    · exact (h'.dentryKept d x hx).imp_right h.deadDentry
    · exact .inr hdead
  deadVnode v n' hn' hdead := by
    obtain ⟨n1, hn1, hdead, heq1⟩ := h'.deadVnode v n' hn' hdead
    obtain ⟨n, hn, hdead, heq⟩ := h.deadVnode v n1 hn1 hdead
    exact ⟨n, hn, hdead, heq.trans heq1⟩
  deadEntry p e' he' hdead := by
    obtain ⟨e1, he1, hdead, heq1⟩ := h'.deadEntry p e' he' hdead
    obtain ⟨e, he, hdead, heq⟩ := h.deadEntry p e1 he1 hdead
    exact ⟨e, he, hdead, heq.trans heq1⟩

instance : Trans SameTree SameTree SameTree := ⟨SameTree.trans⟩

theorem Still.sameTree (h : Still s s') : SameTree s s' where
  node := h.node
  dentry := h.dentry
  nodeKept := h.nodeKept
  dentryKept := h.dentryKept
  deadVnode v n' hn' hdead := by
    obtain ⟨n, hn, hcore⟩ := h.vnode v n' hn'
    exact ⟨n, hn, (Vnode.state_eq hcore).symm.trans hdead, (Vnode.data_eq hcore).symm⟩
  deadEntry p e' he' hdead := by
    obtain ⟨e, he, htouched, hstate⟩ := h.ventry p e' he'
    refine ⟨e, he, ?_, htouched.data.symm⟩
    obtain hdead | hdead := hdead
    · obtain hs | hs := hstate
      · exact .inl (hs ▸ hdead)
      · exact .inr (hdead ▸ hs)
    · exact .inr (h.takesState htouched hdead)

instance : Covers SameTree := ⟨fun _ _ => Still.sameTree⟩

/-- The tables of the tree and of what is cached of it are as before. -/
theorem sameTree_of_eq (hnode : s'.node = s.node) (hdentry : s'.dentry = s.dentry)
    (hvnode : s'.vnode = s.vnode) (hventry : s'.ventry = s.ventry) : SameTree s s' where
  node d n hn := hnode ▸ hn
  dentry d x hx := hdentry ▸ hx
  nodeKept d n hn := .inl (hnode ▸ hn)
  dentryKept d x hx := .inl (hdentry ▸ hx)
  deadVnode v n hn hdead := ⟨n, hvnode ▸ hn, hdead, rfl⟩
  deadEntry p e he hdead := by
    refine ⟨e, hventry ▸ he, ?_, rfl⟩
    unfold EntryDead TakesState at hdead ⊢
    rwa [hvnode] at hdead

end Relation

/-! ## Alive -/

/-- The vnode is not dead. -/
def LiveVn (v : Nat) (s : Fs) : Prop := ∀ n, s.vnode v = some n → n.state ≠ .dead

/-- The entry is not dead, nor will be. -/
def LiveVe (p : Nat) (s : Fs) : Prop := ∀ e, s.ventry p = some e → ¬ EntryDead s e

section Alive

variable {s s' : Fs} {v p : Nat}

theorem SameTree.liveVn (h : LiveVn v s) (h' : SameTree s s') : LiveVn v s' := by
  intro n' hn' hdead
  obtain ⟨n, hn, hdead, -⟩ := h'.deadVnode v n' hn' hdead
  exact h n hn hdead

theorem SameTree.liveVe (h : LiveVe p s) (h' : SameTree s s') : LiveVe p s' := by
  intro e' he' hdead
  obtain ⟨e, he, hdead, -⟩ := h'.deadEntry p e' he' hdead
  exact h e he hdead

end Alive

/-! ## Stores -/

section Store

variable {α : Type} {p : Nat} {P : Fs → Prop}

theorem keeps_sameTree {a : α} {g : Fs → Fs} (h : ∀ s, SameTree s (g s)) :
    Keeps SameTree (fun s => .ok (a, g s) : FsM α) where
  keeps s b s' hb := by cases hb; exact h s

instance {v : VfsT} : Keeps SameTree (setVfs p v) :=
  keeps_sameTree fun _ => sameTree_of_eq rfl rfl rfl rfl

/-- A vnode is stored that is not dead, or was so before. -/
theorem setVn_sameTree
    (h : ∀ s, P s → n'.state = .dead → ∃ n, s.vnode p = some n ∧ n.state = .dead ∧
    n.data = n'.data) :
    KeepsFrom P SameTree (setVn p n') := by
  intro s a s' hs hrun
  cases hrun
  have hdead : ∀ v m, store s.vnode p (some n') v = some m → m.state = .dead →
      ∃ n, s.vnode v = some n ∧ n.state = .dead ∧ n.data = m.data := by
    intro v m hm hd
    obtain ⟨rfl, rfl⟩ | ⟨-, hm⟩ := store_eq_some hm
    · exact h s hs hd
    · exact ⟨m, hm, hd, rfl⟩
  refine ⟨fun _ _ h => h, fun _ _ h => h, fun _ _ h => .inl h, fun _ _ h => .inl h, hdead,
    fun q e he hd => ⟨e, he, ?_, rfl⟩⟩
  obtain hd | ⟨hl, h0, m, hm, hstate⟩ := hd
  · exact .inl hd
  · obtain ⟨n, hn, hdead, -⟩ := hdead e.vn m hm hstate.symm
    exact .inr ⟨hl, h0, n, hn, hdead.symm⟩

theorem setVn_live (h : n'.state ≠ .dead) : Keeps SameTree (setVn p n') :=
  .of_from (setVn_sameTree fun _ _ hd => absurd hd h)

theorem SameTree.of_setVn {s s' : Fs} {u : Unit} (hrun : setVn p n' s = .ok (u, s'))
    (h : n'.state ≠ .dead) : SameTree s s' :=
  (setVn_live h).keeps s u s' hrun

theorem setVn_sameData (hstate : n'.state = n.state) (hdata : n'.data = n.data) :
    KeepsFrom (fun s => P s ∧ s.vnode p = some n) SameTree (setVn p n') :=
  setVn_sameTree fun _ hs hd => ⟨n, hs.2, hstate ▸ hd, hdata.symm⟩

theorem newVn_sameTree (h : n.state ≠ .dead) : Keeps SameTree (newVn n) where
  keeps s a s' hrun := by
    cases hrun
    have hset : SameTree s { s with vnode := store s.vnode s.brk (some n) } :=
      (setVn_live h).keeps s () _ rfl
    exact hset.trans (sameTree_of_eq rfl rfl rfl rfl)

theorem newVn_live (h : n.state ≠ .dead) :
    Ends (fun _ => True) (newVn n) LiveVn := by
  refine fun s _ => ⟨fun a s' hrun => ?_, fun _ _ => trivial⟩
  cases hrun
  intro m hm
  cases (store_self _ _ _).symm.trans hm
  exact h

/-- An entry is stored that is not dead, or was so before. -/
theorem setVe_sameTree {e' : Ventry}
    (h : ∀ s, P s → EntryDead s e' → ∃ e, s.ventry p = some e ∧ EntryDead s e ∧ e.data = e'.data) :
    KeepsFrom P SameTree (setVe p e') := by
  intro s a s' hs hrun
  cases hrun
  refine ⟨fun _ _ h => h, fun _ _ h => h, fun _ _ h => .inl h, fun _ _ h => .inl h,
    fun v n hn hd => ⟨n, hn, hd, rfl⟩, fun q g hg hd => ?_⟩
  obtain ⟨rfl, rfl⟩ | ⟨-, hg⟩ := store_eq_some hg
  · exact h s hs hd
  · exact ⟨g, hg, hd, rfl⟩

/-- The fields of the entry that matter here are as before. -/
theorem setVe_sameData {e' : Ventry} (hstate : e'.state = e.state)
    (hlinked : e'.linked = e.linked) (hvn : e'.vn = e.vn) (hdata : e'.data = e.data) :
    KeepsFrom (fun s => P s ∧ s.ventry p = some e) SameTree (setVe p e') := by
  refine setVe_sameTree fun s hs hd => ⟨e, hs.2, ?_, hdata.symm⟩
  unfold EntryDead TakesState at hd ⊢
  rwa [hstate, hlinked, hvn] at hd

theorem newVe_sameTree (hstate : e.state ≠ .dead) (hlinked : e.linked = false) :
    Keeps SameTree (newVe e) where
  keeps s a s' hrun := by
    cases hrun
    have hlive : ∀ s', ¬ EntryDead s' e := by
      rintro s' (hd | ⟨hl, -⟩)
      · exact hstate hd
      · simp [hlinked] at hl
    have hset : SameTree s { s with ventry := store s.ventry s.brk (some e) } :=
      setVe_sameTree (P := fun _ => True) (fun s' _ hd => absurd hd (hlive s')) s () _ trivial rfl
    exact hset.trans (sameTree_of_eq rfl rfl rfl rfl)

end Store

/-! ## Lookups -/

section Lookup

variable {ve vn dve dvn p vfs node dent : Nat} {name : Str} {d : Vnode}

instance {id : Nat} {type : VType} : Keeps SameTree (vnAlloc id type) :=
  newVn_sameTree (by simp)

/-- An entry is linked to a vnode that is alive. -/
theorem veLinkVnode_sameTree : KeepsFrom (LiveVn vn) SameTree (veLinkVnode ve vn) := by
  intro s u s' hlive h
  obtain ⟨-, e, he, h⟩ := deref_bind_eq_ok h
  obtain ⟨-, n, hn, h⟩ := deref_bind_eq_ok h
  obtain ⟨_, s₁, hassert, h⟩ := run_bind_ok h
  obtain ⟨rfl, -⟩ := kassert_eq_ok hassert
  obtain ⟨_, s₁, hassert, h⟩ := run_bind_ok h
  obtain ⟨rfl, -⟩ := kassert_eq_ok hassert
  obtain ⟨_, s₁, hset, h⟩ := run_bind_ok h
  have hsame : SameTree s s₁ := .of_setVn hset (hlive n hn)
  have he1 : s₁.ventry ve = some e := by
    cases hset
    exact he
  refine hsame.trans (setVe_sameTree (fun s hs hdead => ?_) s₁ u s' rfl h)
  subst hs
  refine ⟨e, he1, ?_, rfl⟩
  obtain hdead | ⟨-, -, m, hm, hstate⟩ := hdead
  · exact .inl hdead
  · exact absurd hstate.symm (SameTree.liveVn hlive hsame m hm)

theorem newVe_live (hstate : e.state ≠ .dead) (hlinked : e.linked = false) :
    Ends (fun _ => True) (newVe e) LiveVe := by
  refine fun s _ => ⟨fun a s' hrun => ?_, fun _ _ => trivial⟩
  cases hrun
  intro g hg hdead
  cases (store_self _ _ _).symm.trans hg
  obtain hd | ⟨hl, -⟩ := hdead
  · exact hstate hd
  · simp [hlinked] at hl

/-- The new entry of a vnode that is alive is alive. -/
theorem veAllocLinked_sameTree {s s' : Fs} (hlive : LiveVn vn s)
    (h : veAllocLinked name vn s = .ok (ve, s')) : SameTree s s' ∧ LiveVe ve s' := by
  obtain ⟨-, n, -, h⟩ := deref_bind_eq_ok h
  obtain ⟨ops, s₁, hops, h⟩ := run_bind_ok h
  obtain rfl := Keeps.keeps (R := Eq) _ _ _ hops
  obtain ⟨p, s₁, hnew, h⟩ := run_bind_ok h
  have hsame : SameTree s s₁ := (newVe_sameTree (by simp) rfl).keeps _ _ _ hnew
  have hve : LiveVe p s₁ := (newVe_live (by simp) rfl s trivial).1 _ _ hnew
  obtain ⟨_, s2, hlink, h⟩ := run_bind_ok h
  have hlinked := veLinkVnode_sameTree _ _ _ (SameTree.liveVn hlive hsame) hlink
  obtain ⟨b, s3, hsync, h⟩ := run_bind_ok h
  have hsynced : SameTree s2 s3 := Keeps.keeps _ _ _ hsync
  cases h
  exact ⟨(hsame.trans hlinked).trans hsynced, SameTree.liveVe hve (hlinked.trans hsynced)⟩

theorem ramfsNewEntry_sameTree :
    KeepsFrom (LiveVn vn) SameTree (ramfsNewEntry name vn node dent) := by
  intro s a s' hlive h
  obtain ⟨-, n, hn, h⟩ := deref_bind_eq_ok h
  obtain ⟨_, s₁, hset, h⟩ := run_bind_ok h
  have hsame : SameTree s s₁ := .of_setVn hset (hlive n hn)
  obtain ⟨ve, s2, halloc, h⟩ := run_bind_ok h
  obtain ⟨hsame2, hve⟩ := veAllocLinked_sameTree (SameTree.liveVn hlive hsame) halloc
  obtain ⟨-, e, he, h⟩ := deref_bind_eq_ok h
  obtain ⟨_, s3, hstore, h⟩ := run_bind_ok h
  have hsame3 : SameTree s2 s3 := by
    refine setVe_sameTree (fun s hs hdead => ?_) _ _ _ rfl hstore
    subst hs
    exact absurd hdead (hve e he)
  obtain ⟨_, s4, hrelease, h⟩ := run_bind_ok h
  have hsame4 : SameTree s3 s4 := Keeps.keeps _ _ _ hrelease
  cases h
  exact ((hsame.trans hsame2).trans hsame3).trans hsame4

instance : Keeps SameTree (ramfsVnLookup d name) := by
  refine .step fun dent => ?_
  refine .orElse (.step fun x => ?_)
  refine .step fun node => Keeps.of_from ?_
  refine .bind Keeps.weaken
    (fun s vn s' _ hrun => (newVn_live (by simp) s trivial).1 vn s' hrun) fun vn => ?_
  refine keepsFrom_deref fun n => ?_
  refine .bind ?_ ?_ fun _ => .seq ramfsNewEntry_sameTree
  · rintro s a s' ⟨hlive, -, hn⟩ hrun
    exact .of_setVn hrun (hlive n hn)
  · rintro s a s' ⟨hlive, -, hn⟩ hrun
    exact SameTree.liveVn hlive (.of_setVn hrun (hlive n hn))

instance : Keeps SameTree (veAddChild dve ve) :=
  .of_from (keepsFrom_veAddChild (fun _ _ _ _ => trivial)
    (fun _ => setVe_sameData rfl rfl rfl rfl) (fun _ => setVe_sameData rfl rfl rfl rfl)
    fun _ _ _ => setVn_sameData rfl rfl)

instance : Keeps SameTree (vfsAddNode vfs ve) := by
  refine .step fun e => .step fun _ => ?_
  refine .step fun n => .step fun _ => ?_
  refine .step fun _ => .step fun v => ?_
  exact .orElse (.seq (setVn_live (by simp)) inferInstance)

instance : Keeps SameTree (addEntry dve vfs ve) := by unfold addEntry; infer_instance

instance : Keeps SameTree (vnLookup dve dvn name) := by
  refine .step fun d => ?_
  refine .orElse ?_
  refine .orElse (.step fun de => ?_)
  refine .step fun child => ?_
  refine .orElse (.step fun v => ?_)
  refine .orElse (.step fun _ => ?_)
  refine .step fun r => ?_
  cases r <;> infer_instance

end Lookup

end Osdev.Vfs
