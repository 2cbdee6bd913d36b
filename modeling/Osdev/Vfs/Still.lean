import Osdev.Vfs.Fs

/-!
# What housekeeping does to the file system

References are taken and released, entries are synchronised with their vnodes, paths are cached. All
of this leaves the objects of the file system as they are, apart from counts, the states of entries
and what dies with its last reference. For a function that is put together from others this is found
by instance search.
-/

namespace Osdev.Vfs

open Osdev.Lib

variable {β : Type} {s s' : Sys} {p d : Nat} {R : Fs → Fs → Prop} {g : Vcache → Vcache}

-- a function of many steps is a long search
set_option synthInstance.maxSize 1000

/-! ## Looking -/

section Look

variable {R : Fs → Fs → Prop} [Std.Refl R] {α : Type}

instance {table : Fs → Nat → Option α} {p : Nat} : Keeps R (deref table p) where
  keeps s a s' h := by
    obtain ⟨rfl, -⟩ := deref_eq_ok h
    exact Std.Refl.refl _

instance {c : Bool} : Keeps R (kassert c) := by unfold kassert; infer_instance
instance {p : Nat} : Keeps R (getVe p) := by unfold getVe; infer_instance
instance {p : Nat} : Keeps R (getVn p) := by unfold getVn; infer_instance
instance {p : Nat} : Keeps R (getVfs p) := by unfold getVfs; infer_instance
instance {p : Nat} : Keeps R (getMount p) := by unfold getMount; infer_instance
instance {p : Nat} : Keeps R (getNode p) := by unfold getNode; infer_instance
instance {p : Nat} : Keeps R (getDentry p) := by unfold getDentry; infer_instance
instance {p : Nat} : Keeps R (getMemfile p) := by unfold getMemfile; infer_instance
instance {p : Nat} : Keeps R (getDevice p) := by unfold getDevice; infer_instance
instance {p : Nat} : Keeps R (getFile p) := by unfold getFile; infer_instance
instance {p : Nat} : Keeps R (getFtable p) := by unfold getFtable; infer_instance
instance {p : Nat} : Keeps R (getProc p) := by unfold getProc; infer_instance

instance : Keeps R getVcache where
  keeps s a s' h := by cases h; exact Std.Refl.refl _

instance {path : Str} : Keeps R (hashOf path) where
  keeps s a s' h := by cases h; exact Std.Refl.refl _

instance {dev : Nat} : Keeps R (deviceGet dev) where
  keeps s a s' h := by cases h; exact Std.Refl.refl _

instance {x : Except Fault α} : Keeps R (ofDriver x) where
  keeps s a s' h := by
    cases x with
    | error e => cases h
    | ok b => cases h; exact Std.Refl.refl _

instance {x : Except Bmp.Panic α} : Keeps R (ofBitmap x) where
  keeps s a s' h := by
    cases x with
    | error e => cases h
    | ok b => cases h; exact Std.Refl.refl _

instance {x : Except Kio.Fault α} : Keeps R (ofKio x) where
  keeps s a s' h := by
    cases x with
    | error e => cases e <;> cases h
    | ok b => cases h; exact Std.Refl.refl _

instance {n : Vnode} : Keeps R (vnOps n) := by unfold vnOps; split <;> infer_instance

variable [Trans R R R] {ve vn : Nat}

instance : Keeps R (vnLoad vn) := by unfold vnLoad; infer_instance
instance : Keeps R (vnOpen vn) := by unfold vnOpen; infer_instance
instance : Keeps R getCurproc := by unfold getCurproc; infer_instance
instance {n : Vnode} : Keeps R (vnToMode n) := by unfold vnToMode; split <;> infer_instance
instance : Keeps R (makeDev vn) := by unfold makeDev; infer_instance
instance {n : Vnode} : Keeps R (nodeDev n) := by unfold nodeDev; infer_instance
instance : Keeps R (vnStat vn) := by unfold vnStat; infer_instance

instance keeps_getVePath {fuel : Nat} {sb : Sbuf} : Keeps R (getVePath fuel ve sb) := by
  induction fuel generalizing ve sb with
  | zero => exact .throw _
  | succ fuel ih => unfold getVePath; infer_instance

variable {p off nmax : Nat} {n : Vnode} {kio : Kio} {name : Str}

instance : Keeps R (memfileRead p off kio) := by unfold memfileRead; infer_instance
instance : Keeps R (ramfsVnRead n off kio) := by unfold ramfsVnRead; infer_instance
instance : Keeps R (ramfsVnReadlink n kio) := by unfold ramfsVnReadlink; infer_instance

instance : Keeps R (dNread p off nmax kio) := by
  refine .step fun d => ?_
  split <;> infer_instance

instance : Keeps R (initrdVnRead n off kio) := by
  refine .step fun node => ?_
  split <;> infer_instance

instance {off : Int} : Keeps R (vnRead vn off kio) := by
  refine .step fun n => .step fun ops => ?_
  cases ops <;> infer_instance

instance {off : Int} : Keeps R (readVnode vn off kio) := by unfold readVnode; infer_instance

instance {ds : List Nat} : Keeps R (findDentry name ds) := by
  induction ds with
  | nil => exact .pure _
  | cons d ds ih => unfold findDentry; infer_instance

instance : Keeps R (ramfsLookupDentry p name) := by unfold ramfsLookupDentry; infer_instance

instance {cs : List Nat} : Keeps R (findChild name cs) := by
  induction cs with
  | nil => exact .pure _
  | cons c cs ih => unfold findChild veCmpCstr; infer_instance

instance : Keeps R (veOpsOf n) := by unfold veOpsOf; infer_instance
instance {names : List Str} : Keeps R (checkCreate n names) := by unfold checkCreate; infer_instance

end Look

section Read

variable {α β : Type} {p : Nat} {P : Fs → Prop} {R : Fs → Fs → Prop} {table : Fs → Nat → Option β}

/-- The rest of a function knows the object that it has read. -/
theorem keepsFrom_deref {k : β → FsM α}
    (hk : ∀ b, KeepsFrom (fun s => P s ∧ p ≠ 0 ∧ table s p = some b) R (k b)) :
    KeepsFrom P R (deref table p >>= k) := by
  refine .look ?_ hk
  intro s b s' h
  obtain ⟨rfl, hp, hb⟩ := deref_eq_ok h
  exact ⟨rfl, hp, hb⟩

theorem keeps_deref {k : β → FsM α}
    (hk : ∀ b, KeepsFrom (fun s => p ≠ 0 ∧ table s p = some b) R (k b)) :
    Keeps R (deref table p >>= k) :=
  .of_from (keepsFrom_deref fun b => (hk b).weaken fun _ h => h.2)

/-- `ve_add_child` keeps what its three stores keep. -/
theorem keepsFrom_veAddChild {dve ve : Nat} [Std.Refl R] [Trans R R R] [Keeps R (veGetref dve)]
    (hP : ∀ s s', P s → R s s' → P s')
    (hchild : ∀ c, KeepsFrom (fun s => (P s ∧ ve ≠ 0) ∧ s.ventry ve = some c) R
      (setVe ve { c with parent := dve, refcount := c.refcount + 1 }))
    (hparent : ∀ p, KeepsFrom (fun s => dve ≠ 0 ∧ s.ventry dve = some p) R
      (setVe dve { p with children := p.children ++ [ve], chldCount := p.chldCount + 1 }))
    (hvn : ∀ v n id, KeepsFrom (fun s => v ≠ 0 ∧ s.vnode v = some n) R
    (setVn v { n with parentId := id })) :
    KeepsFrom P R (veAddChild dve ve) := by
  refine .skip fun _ => .skip fun _ => ?_
  refine .bind Keeps.weaken (fun _ _ _ hs h => hP _ _ hs (Keeps.keeps _ _ _ h)) fun _ => ?_
  refine keepsFrom_deref fun c => .bind
    ((hchild c).weaken fun _ hs => and_assoc.mpr hs) (fun _ _ _ _ _ => trivial) fun _ => ?_
  refine keepsFrom_deref fun p => .bind
    ((hparent p).weaken fun _ hs => hs.2) (fun _ _ _ _ _ => trivial) fun _ => ?_
  exact .ite (fun _ => keepsFrom_deref fun n => (hvn _ n _).weaken fun _ hs => hs.2)
    fun _ => Keeps.weaken

end Read

/-! ## Programs with locks -/

/-- The relation on the file system part of the state. -/
def OnFs (R : Fs → Fs → Prop) (s s' : Sys) : Prop := R s.fs s'.fs

section Locks

variable {R : Fs → Fs → Prop} {α : Type}

instance [Std.Refl R] : Std.Refl (OnFs R) := ⟨fun s => Std.Refl.refl s.fs⟩

instance [Trans R R R] : Trans (OnFs R) (OnFs R) (OnFs R) where
  trans {a b c} h h' := by
    have hac : R a.fs c.fs := Trans.trans (show R a.fs b.fs from h) (show R b.fs c.fs from h')
    exact hac

theorem onFs_run {m : FsM α} {b : α} {fs : Fs} (h : m s.fs = .ok (b, fs)) :
    onFs m s = .ok (b, { s with fs }) := by
  rw [onFs, h]

/-- A function that only looks. -/
theorem onFs_look {m : FsM α} {b : α} (h : m s.fs = .ok (b, s.fs)) : onFs m s = .ok (b, s) :=
  onFs_run h

theorem onFs_eq_ok {m : FsM α} {b : α} (h : onFs m s = .ok (b, s')) :
    ∃ fs, m s.fs = .ok (b, fs) ∧ s' = { s with fs } := by
  unfold onFs at h
  split at h
  next c fs hrun =>
    cases h
    exact ⟨fs, hrun, rfl⟩
  · cases h

instance {m : FsM α} [hm : Keeps R m] : Keeps (OnFs R) (onFs m) where
  keeps s a s' h := by
    obtain ⟨fs, hrun, rfl⟩ := onFs_eq_ok h
    exact hm.keeps _ _ _ hrun

instance {m : FsM α} [hm : Keeps Eq m] : Keeps Eq (onFs m) where
  keeps s a s' h := by
    obtain ⟨fs, hrun, rfl⟩ := onFs_eq_ok h
    obtain rfl := hm.keeps _ _ _ hrun
    rfl

theorem onFs_deref_eq_ok {table : Fs → Nat → Option α} {b : α}
    (h : onFs (deref table p) s = .ok (b, s')) : s = s' ∧ p ≠ 0 ∧ table s.fs p = some b := by
  obtain ⟨fs, hrun, rfl⟩ := onFs_eq_ok h
  obtain ⟨rfl, hp, hb⟩ := deref_eq_ok hrun
  exact ⟨rfl, hp, hb⟩

/-- A call that goes on with the result of a function. -/
theorem onFs_bind_eq_ok {m : FsM α} {f : α → SysM β} {b : β}
    (h : (onFs m >>= f) s = .ok (b, s')) :
    ∃ a fs, m s.fs = .ok (a, fs) ∧ f a { s with fs } = .ok (b, s') := by
  obtain ⟨a, s₁, ha, h⟩ := run_bind_ok h
  obtain ⟨fs, hrun, rfl⟩ := onFs_eq_ok ha
  exact ⟨a, fs, hrun, h⟩

theorem onFs_deref_bind_eq_ok {table : Fs → Nat → Option α} {f : α → SysM β}
    {b : β} (h : (onFs (deref table p) >>= f) s = .ok (b, s')) :
    p ≠ 0 ∧ ∃ a, table s.fs p = some a ∧ f a s = .ok (b, s') := by
  obtain ⟨a, s₁, ha, h⟩ := run_bind_ok h
  obtain ⟨rfl, hp, ha⟩ := onFs_deref_eq_ok ha
  exact ⟨hp, a, ha, h⟩

theorem keepsFrom_onFs {P : Fs → Prop} {m : FsM α} (hm : KeepsFrom P R m) :
    KeepsFrom (fun s => P s.fs) (OnFs R) (onFs m) := by
  intro s b s' hs h
  obtain ⟨fs, hrun, rfl⟩ := onFs_eq_ok h
  exact hm _ _ _ hs hrun

/-- The rest of a call knows the object that it has read. -/
theorem keeps_onFs_deref {table : Fs → Nat → Option β} {k : β → SysM α}
    (hk : ∀ b, KeepsFrom (fun s => p ≠ 0 ∧ table s.fs p = some b) (OnFs R) (k b)) :
    Keeps (OnFs R) (onFs (deref table p) >>= k) := by
  refine .of_from (.look (Q := fun b s => p ≠ 0 ∧ table s.fs p = some b) ?_ fun b => ?_)
  · intro s b s' h
    obtain ⟨rfl, hp, hb⟩ := onFs_deref_eq_ok h
    exact ⟨rfl, hp, hb⟩
  · exact (hk b).weaken fun _ h => h.2

instance [Std.Refl R] {l : LockId} : Keeps (OnFs R) (acquire l) where
  keeps s a s' h := by cases h; exact Std.Refl.refl s.fs

instance [Std.Refl R] {l : LockId} : Keeps (OnFs R) (give l) where
  keeps s a s' h := by
    unfold give at h
    split at h
    · cases h
    · cases h
      exact Std.Refl.refl s.fs

end Locks

/-! ## Still -/

/-- What stays of an entry. -/
def Ventry.core (e : Ventry) : Ventry :=
  { e with
    refcount := 0, state := .empty, vfsId := 0, ops := .default, parent := 0, children := []
    chldCount := 0 }

/-- What stays of a vnode; `vLink` is a copy of the text of a link. -/
def Vnode.core (n : Vnode) : Vnode := { n with refcount := 0, vLink := [] }

/-- What stays of a file system. -/
def VfsT.core (v : VfsT) : VfsT := { v with refcount := 0 }

/-- What stays of the state, apart from its objects. -/
def Fs.core (s : Fs) : Fs :=
  { s with
    ventry := fun _ => none, vnode := fun _ => none, vfs := fun _ => none, node := fun _ => none
    dentry := fun _ => none, memfile := fun _ => none
    vcache := ⟨s.vcache.root, 0, fun _ => [], fun _ => none⟩ }

/-- The entry may lose its parent and children. -/
structure Touched (e e' : Ventry) : Prop where
  core : e'.core = e.core
  parent : e'.parent = e.parent ∨ e'.parent = 0
  children : e'.children.Sublist e.children

/-- The entry has the state that its vnode has. -/
def TakesState (s : Fs) (e : Ventry) (state : VState) : Prop :=
  e.linked = true ∧ e.vn ≠ 0 ∧ ∃ n, s.vnode e.vn = some n ∧ state = n.state

/-- The entry is dead, or gets to be so. -/
def EntryDead (s : Fs) (e : Ventry) : Prop := e.state = .dead ∨ TakesState s e .dead

/-- The node belongs to a dead vnode. -/
def DeadNode (s : Fs) (d : Nat) : Prop := ∃ v n, s.vnode v = some n ∧ n.data = d ∧ n.state = .dead

/-- The directory entry belongs to a dead entry. -/
def DeadDentry (s : Fs) (d : Nat) : Prop := ∃ p e, s.ventry p = some e ∧ e.data = d ∧ EntryDead s e

/-- Nothing is made, objects keep what matters, entries get no other states than those of their
vnodes, and of the tree only what is dead goes away. -/
structure Still (s s' : Fs) : Prop where
  core : s'.core = s.core
  ventry : ∀ p e', s'.ventry p = some e' → ∃ e, s.ventry p = some e ∧ Touched e e' ∧
    (e'.state = e.state ∨ TakesState s e e'.state)
  vnode : ∀ v n', s'.vnode v = some n' → ∃ n, s.vnode v = some n ∧ n'.core = n.core
  vfs : ∀ v x', s'.vfs v = some x' → ∃ x, s.vfs v = some x ∧ x'.core = x.core
  node : ∀ d n, s'.node d = some n → s.node d = some n
  dentry : ∀ d x, s'.dentry d = some x → s.dentry d = some x
  memfile : ∀ d m, s'.memfile d = some m → s.memfile d = some m
  nodeKept : ∀ d n, s.node d = some n → s'.node d = some n ∨ DeadNode s d
  dentryKept : ∀ d x, s.dentry d = some x → s'.dentry d = some x ∨ DeadDentry s d

section Core

variable {s s₁ s' : Fs} {e e₁ e' : Ventry} {n n' : Vnode} {state : VState}

theorem Touched.refl (e : Ventry) : Touched e e := ⟨rfl, .inl rfl, .refl _⟩

theorem Touched.trans (h : Touched e e₁) (h' : Touched e₁ e') : Touched e e' := by
  refine ⟨h'.core.trans h.core, ?_, h'.children.trans h.children⟩
  obtain hp | hp := h'.parent
  · exact hp ▸ h.parent
  · exact .inr hp

section

variable (h : Touched e e')

include h

theorem Touched.linked : e'.linked = e.linked := (congrArg Ventry.linked h.core :)
theorem Touched.vn : e'.vn = e.vn := (congrArg Ventry.vn h.core :)
theorem Touched.type : e'.type = e.type := (congrArg Ventry.type h.core :)
theorem Touched.data : e'.data = e.data := (congrArg Ventry.data h.core :)
theorem Touched.isMount : e'.isMount = e.isMount := (congrArg Ventry.isMount h.core :)
theorem Touched.mount : e'.mount = e.mount := (congrArg Ventry.mount h.core :)

end

theorem Vnode.state_eq (h : n'.core = n.core) : n'.state = n.state := (congrArg Vnode.state h :)
theorem Vnode.data_eq (h : n'.core = n.core) : n'.data = n.data := (congrArg Vnode.data h :)

/-- The state of a vnode is the one from before. -/
theorem Still.takesState (h : Still s s') (he : Touched e e') (ht : TakesState s' e' state) :
    TakesState s e state := by
  obtain ⟨hl, h0, n', hn', hstate⟩ := ht
  obtain ⟨n, hn, hcore⟩ := h.vnode _ n' hn'
  rw [he.vn] at hn h0
  exact ⟨he.linked ▸ hl, h0, n, hn, hstate.trans (Vnode.state_eq hcore)⟩

theorem Still.deadNode (h : Still s s') (hd : DeadNode s' d) : DeadNode s d := by
  obtain ⟨v, n', hn', hdata, hstate⟩ := hd
  obtain ⟨n, hn, hcore⟩ := h.vnode v n' hn'
  exact ⟨v, n, hn, (Vnode.data_eq hcore).symm.trans hdata, (Vnode.state_eq hcore).symm.trans hstate⟩

theorem Still.deadDentry (h : Still s s') (hd : DeadDentry s' d) : DeadDentry s d := by
  obtain ⟨p, e', he', hdata, hdead⟩ := hd
  obtain ⟨e, he, htouched, hstate⟩ := h.ventry p e' he'
  refine ⟨p, e, he, htouched.data.symm.trans hdata, ?_⟩
  obtain hdead | hdead := hdead
  · obtain hs | hs := hstate
    · exact .inl (hs ▸ hdead)
    · exact .inr (hdead ▸ hs)
  · exact .inr (h.takesState htouched hdead)

instance : Std.Refl Still where
  refl _ :=
    { core := rfl
      ventry := fun _ e he => ⟨e, he, .refl e, .inl rfl⟩
      vnode := fun _ n hn => ⟨n, hn, rfl⟩
      vfs := fun _ x hx => ⟨x, hx, rfl⟩
      node := fun _ _ h => h
      dentry := fun _ _ h => h
      memfile := fun _ _ h => h
      nodeKept := fun _ _ h => .inl h
      dentryKept := fun _ _ h => .inl h }

theorem Still.trans (h : Still s s₁) (h' : Still s₁ s') : Still s s' where
  core := h'.core.trans h.core
  ventry p e' he' := by
    obtain ⟨e₁, he1, ht1, hs1⟩ := h'.ventry p e' he'
    obtain ⟨e, he, ht, hs⟩ := h.ventry p e₁ he1
    refine ⟨e, he, ht.trans ht1, ?_⟩
    obtain hs1 | hs1 := hs1
    · exact hs1 ▸ hs
    · exact .inr (h.takesState ht hs1)
  vnode v n' hn' := by
    obtain ⟨n1, hn1, hc1⟩ := h'.vnode v n' hn'
    obtain ⟨n, hn, hc⟩ := h.vnode v n1 hn1
    exact ⟨n, hn, hc1.trans hc⟩
  vfs v x' hx' := by
    obtain ⟨x1, hx1, hc1⟩ := h'.vfs v x' hx'
    obtain ⟨x, hx, hc⟩ := h.vfs v x1 hx1
    exact ⟨x, hx, hc1.trans hc⟩
  node d n hn := h.node d n (h'.node d n hn)
  dentry d x hx := h.dentry d x (h'.dentry d x hx)
  memfile d m hm := h.memfile d m (h'.memfile d m hm)
  nodeKept d n hn := by
    obtain h1 | h1 := h.nodeKept d n hn
    · obtain h2 | h2 := h'.nodeKept d n h1
      · exact .inl h2
      · exact .inr (h.deadNode h2)
    · exact .inr h1
  dentryKept d x hx := by
    obtain h1 | h1 := h.dentryKept d x hx
    · obtain h2 | h2 := h'.dentryKept d x h1
      · exact .inl h2
      · exact .inr (h.deadDentry h2)
    · exact .inr h1

instance : Trans Still Still Still := ⟨Still.trans⟩

end Core

/-! ## Storing -/

section Store

variable {α : Type} {p d : Nat} {e e' : Ventry} {n n' : Vnode} {v v' : VfsT} {c : Vcache}
  {P : Fs → Prop}

/-- An entry is stored. -/
theorem setVe_still (ht : Touched e e')
    (hstate : ∀ s, P s → e'.state = e.state ∨ TakesState s e e'.state) :
    KeepsFrom (fun s => P s ∧ s.ventry p = some e) Still (setVe p e') := by
  rintro s a s' ⟨hP, hs⟩ h
  cases h
  exact { (Std.Refl.refl s : Still s s) with
    core := rfl, ventry := store_related hs ⟨ht, hstate s hP⟩ fun g => ⟨.refl g, .inl rfl⟩ }

/-- An entry is stored with the state from before. -/
theorem setVe_touch (ht : Touched e e') (hstate : e'.state = e.state) :
    KeepsFrom (fun s => P s ∧ s.ventry p = some e) Still (setVe p e') :=
  setVe_still ht fun _ _ => .inl hstate

theorem setVn_still (hcore : n'.core = n.core) :
    KeepsFrom (fun s => P s ∧ s.vnode p = some n) Still (setVn p n') := by
  rintro s a s' ⟨-, hs⟩ h
  cases h
  exact { (Std.Refl.refl s : Still s s) with
    core := rfl, vnode := store_related hs hcore fun _ => rfl }

theorem setVfs_still (hcore : v'.core = v.core) :
    KeepsFrom (fun s => P s ∧ s.vfs p = some v) Still (setVfs p v') := by
  rintro s a s' ⟨-, hs⟩ h
  cases h
  exact { (Std.Refl.refl s : Still s s) with
    core := rfl, vfs := store_related hs hcore fun _ => rfl }

/-- What is there after an object was freed was there before. -/
theorem store_none {t : Nat → Option β} {q : Nat} {b : β}
    (h : store t p none q = some b) : q ≠ p ∧ t q = some b := by
  obtain rfl | hq := eq_or_ne q p
  · cases (store_self _ _ _).symm.trans h
  · exact ⟨hq, (store_ne hq _).symm.trans h⟩

instance : Keeps Still (freeVe p) where
  keeps s a s' h := by
    cases h
    exact { (Std.Refl.refl s : Still s s) with
      core := rfl, ventry := fun q g hg => ⟨g, (store_none hg).2, .refl g, .inl rfl⟩ }

instance : Keeps Still (freeVn p) where
  keeps s a s' h := by
    cases h
    exact { (Std.Refl.refl s : Still s s) with
      core := rfl, vnode := fun q m hm => ⟨m, (store_none hm).2, rfl⟩ }

instance : Keeps Still (freeVfs p) where
  keeps s a s' h := by
    cases h
    exact { (Std.Refl.refl s : Still s s) with
      core := rfl, vfs := fun q m hm => ⟨m, (store_none hm).2, rfl⟩ }

theorem freeDentry_still : KeepsFrom (fun s => DeadDentry s d) Still (freeDentry d) := by
  intro s a s' hs h
  cases h
  refine { (Std.Refl.refl s : Still s s) with
    core := rfl, dentry := fun q x hx => (store_none hx).2, dentryKept := fun q x hx => ?_ }
  by_cases hq : q = d
  · exact .inr (hq ▸ hs)
  · exact .inl ((store_ne hq _).trans hx)

theorem setVcache_still : KeepsFrom (fun s => s.vcache.root = c.root) Still (setVcache c) := by
  intro s a s' hs h
  cases h
  refine { (Std.Refl.refl s : Still s s) with core := ?_ }
  unfold Fs.core
  rw [hs]

/-- The rest of a function knows the cache that it has read. -/
theorem keepsFrom_getVcache {k : Vcache → FsM α}
    (hk : ∀ c, KeepsFrom (fun s => P s ∧ s.vcache = c) R (k c)) :
    KeepsFrom P R (getVcache >>= k) := by
  refine .look ?_ hk
  intro s c s' h
  cases h
  exact ⟨rfl, rfl⟩

theorem keeps_getVcache {k : Vcache → FsM α}
    (hk : ∀ c, KeepsFrom (fun s => s.vcache = c) R (k c)) : Keeps R (getVcache >>= k) :=
  .of_from (keepsFrom_getVcache fun c => (hk c).weaken fun _ h => h.2)

end Store

/-! ## References -/

/-- Only the node `p` may have changed, and contents of files may be gone. -/
structure ExceptNode (p : Nat) (s s' : Fs) : Prop where
  core : s'.core = s.core
  ventry : s'.ventry = s.ventry
  vnode : s'.vnode = s.vnode
  vfs : s'.vfs = s.vfs
  dentry : s'.dentry = s.dentry
  memfile : ∀ d m, s'.memfile d = some m → s.memfile d = some m
  node : ∀ d, d ≠ p → s'.node d = s.node d

section References

variable {p d ve vn : Nat} {e : Ventry} {n : Vnode} {P : Fs → Prop}

instance : Std.Refl (ExceptNode p) :=
  ⟨fun _ => ⟨rfl, rfl, rfl, rfl, rfl, fun _ _ h => h, fun _ _ => rfl⟩⟩

instance : Trans (ExceptNode p) (ExceptNode p) (ExceptNode p) where
  trans h h' := ⟨h'.core.trans h.core, h'.ventry.trans h.ventry, h'.vnode.trans h.vnode,
    h'.vfs.trans h.vfs, h'.dentry.trans h.dentry, fun d m hm => h.memfile d m (h'.memfile d m hm),
    fun d hd => (h'.node d hd).trans (h.node d hd)⟩

/-- A node that is only gone. -/
theorem ExceptNode.still {s s' : Fs} (h : ExceptNode p s s') (hp : s'.node p = none)
    (hdead : DeadNode s p) : Still s s' where
  core := h.core
  ventry q e he := ⟨e, h.ventry ▸ he, .refl e, .inl rfl⟩
  vnode v n hn := ⟨n, h.vnode ▸ hn, rfl⟩
  vfs v x hx := ⟨x, h.vfs ▸ hx, rfl⟩
  node d n hn := by
    obtain rfl | hd := eq_or_ne d p
    · cases hp.symm.trans hn
    · exact (h.node d hd).symm.trans hn
  dentry d x hx := h.dentry ▸ hx
  memfile := h.memfile
  nodeKept d n hn := by
    by_cases hd : d = p
    · exact .inr (hd ▸ hdead)
    · exact .inl ((h.node d hd).trans hn)
  dentryKept d x hx := .inl (h.dentry ▸ hx)

instance {m : RamfsNode} : Keeps (ExceptNode p) (setNode p m) where
  keeps s a s' h := by
    cases h
    exact ⟨rfl, rfl, rfl, rfl, rfl, fun _ _ h => h, fun d hd => store_ne hd _⟩

instance : Keeps (ExceptNode p) (memfileFree d) := by
  refine .step fun m => ⟨fun s a s' h => ?_⟩
  cases h
  exact ⟨rfl, rfl, rfl, rfl, rfl, fun _ _ hm => (store_none hm).2, fun _ _ => rfl⟩

instance {m : RamfsNode} : Keeps (ExceptNode p) (ramfsFreeContent p m) := by
  unfold ramfsFreeContent
  split <;> infer_instance

theorem ramfsVnCleanup_still : KeepsFrom (fun s => DeadNode s d) Still (ramfsVnCleanup d) := by
  refine .ite (fun _ => Keeps.weaken) fun _ => .skip fun m => ?_
  intro s a s' hdead h
  obtain ⟨_, s₁, hcontent, h⟩ := run_bind_ok h
  obtain ⟨_, s2, hassert, h⟩ := run_bind_ok h
  obtain ⟨rfl, -⟩ := kassert_eq_ok hassert
  have hexcept : ExceptNode d s s₁ := Keeps.keeps _ _ _ hcontent
  cases h
  refine ExceptNode.still ?_ (store_self _ _ _) hdead
  exact { hexcept with node := fun q hq => (store_ne hq _).trans (hexcept.node q hq) }

theorem vnOpsCleanup_still : KeepsFrom (fun s => DeadNode s n.data) Still (vnOpsCleanup n) := by
  unfold vnOpsCleanup
  split
  · exact Keeps.weaken
  · exact ramfsVnCleanup_still
  · exact .skip fun _ => ramfsVnCleanup_still

/-- The rest of a function knows what was asserted. -/
theorem keepsFrom_kassert {α : Type} {c : Bool} {k : Unit → FsM α} {R : Fs → Fs → Prop}
    (hk : c = true → KeepsFrom P R (k ())) : KeepsFrom P R (kassert c >>= k) := by
  intro s a s' hs h
  obtain ⟨_, s₁, hassert, h⟩ := run_bind_ok h
  obtain ⟨rfl, hc⟩ := kassert_eq_ok hassert
  exact hk hc s a s' hs h

instance : Keeps Still (vfsCleanup p) := by unfold vfsCleanup; infer_instance

instance : Keeps Still (vfsRelease p) := by
  refine .orElse (keeps_deref fun v => ?_)
  exact .seq (setVfs_still rfl)

instance : Keeps Still (vfsGetref p) :=
  .orElse (keeps_deref fun _ => setVfs_still rfl)

instance : Keeps Still (vnCleanup p) := by
  refine keeps_deref fun n => keepsFrom_kassert fun hdead => .seq ?_
  exact vnOpsCleanup_still.weaken fun s hs => ⟨p, n, hs.2, rfl, by simpa using hdead⟩

instance : Keeps Still (vnRelease p) := by
  refine .orElse (keeps_deref fun n => ?_)
  exact .seq (setVn_still rfl)

instance : Keeps Still (vnGetref p) :=
  .orElse (keeps_deref fun _ => setVn_still rfl)

theorem veOpsCleanup_still : KeepsFrom (fun s => DeadDentry s e.data) Still (veOpsCleanup e) := by
  unfold veOpsCleanup
  split
  · exact Keeps.weaken
  · exact .ite (fun _ => Keeps.weaken) fun _ => .skip fun _ => freeDentry_still

instance {release : Nat → FsM Unit} [∀ q, Keeps Still (release q)] :
    Keeps Still (veCleanup release p) := by
  refine keeps_deref fun e => keepsFrom_kassert fun hdead => .skip fun _ => .seq ?_
  exact veOpsCleanup_still.weaken fun s hs => ⟨p, e, hs.2, rfl, .inl (by simpa using hdead)⟩

instance veReleaseLoop_still {fuel : Nat} : Keeps Still (veReleaseLoop fuel p) := by
  induction fuel generalizing p with
  | zero => exact .throw _
  | succ fuel ih =>
    refine .orElse (keeps_deref fun e => ?_)
    exact .seq (setVe_touch ⟨rfl, .inl rfl, .refl _⟩ rfl)

instance : Keeps Still (veRelease p) := by unfold veRelease; infer_instance

instance : Keeps Still (veGetref p) := by
  refine .orElse (keeps_deref fun e => ?_)
  exact setVe_touch ⟨rfl, .inl rfl, .refl _⟩ rfl

end References

/-! ## Entries and their vnodes -/

section Sync

variable {p ve : Nat}

instance : Keeps Still (veRemoveChild p ve) := by
  refine keeps_deref fun c => ?_
  have hlast : Keeps Still (do
      let q ← getVe p
      setVe p { q with chldCount := subWord q.chldCount 1 } : FsM Unit) :=
    keeps_deref fun q => setVe_touch ⟨rfl, .inl rfl, .refl _⟩ rfl
  have herase : Keeps Still (do
      let q ← getVe p
      setVe p { q with children := q.children.erase ve }
      veRelease ve
      let q ← getVe p
      setVe p { q with chldCount := subWord q.chldCount 1 } : FsM Unit) :=
    keeps_deref fun q => .seq (setVe_touch ⟨rfl, .inl rfl, List.erase_sublist⟩ rfl)
  exact .seq (setVe_touch ⟨rfl, .inr rfl, .refl _⟩ rfl)

instance dropChildren_still {sync : Nat → FsM Bool} [∀ q, Keeps Still (sync q)] {fuel : Nat} :
    Keeps Still (dropChildren sync p fuel) := by
  induction fuel with
  | zero => exact .throw _
  | succ fuel ih =>
    refine .step fun e => ?_
    split <;> infer_instance

/-- The second store of `ve_syncvn`. -/
theorem setVe_vfs {e : Ventry} {st : VState} {v : VfsT} :
    KeepsFrom (fun s => s.ventry p = some { e with state := st }) Still
      (setVe p { e with state := st, vfsId := v.id, ops := .ramfs }) := by
  have hset : KeepsFrom (fun s => True ∧ s.ventry p = some { e with state := st }) Still
      (setVe p { e with state := st, vfsId := v.id, ops := .ramfs }) :=
    setVe_touch ⟨rfl, .inl rfl, .refl _⟩ rfl
  exact hset.weaken fun _ h => ⟨trivial, h⟩

instance veSyncvnLoop_still {fuel : Nat} : Keeps Still (veSyncvnLoop fuel p) := by
  induction fuel generalizing p with
  | zero => exact .throw _
  | succ fuel ih =>
    refine keeps_deref fun e => .ite (fun _ => Keeps.weaken) fun hlinked => ?_
    refine keepsFrom_deref fun n => .skip fun _ => ?_
    -- the entry gets the state of its vnode
    refine .bind (Q := fun _ s => s.ventry p = some { e with state := n.state }) ?_ ?_
      fun _ => ?_
    · have hset :
        KeepsFrom (fun s => (e.vn ≠ 0 ∧ s.vnode e.vn = some n) ∧ s.ventry p = some e) Still
          (setVe p { e with state := n.state }) :=
        setVe_still ⟨rfl, .inl rfl, .refl _⟩ fun s hs =>
          .inr ⟨by simpa using hlinked, hs.1, n, hs.2, rfl⟩
      exact hset.weaken fun s hs => ⟨hs.2, hs.1.2⟩
    · intro s a s' _ h
      cases h
      exact store_self _ _ _
    · refine .ite (fun _ => Keeps.weaken) fun _ => ?_
      exact .ite (fun _ => .skip fun v => .seq setVe_vfs) fun _ =>
        Keeps.weaken

instance : Keeps Still (veSyncvn p) := by unfold veSyncvn; infer_instance
instance : Keeps Still (assertNewVentryValid ve) := by unfold assertNewVentryValid; infer_instance

end Sync

/-! ## The cache -/

section Cache

variable {p ve id h hash : Nat} {hs : List Nat} {path name : Str} {c : Vcache} {e : Ventry}
  {invalidate : Str → FsM Unit}

theorem invalidateChild_still [∀ q, Keeps Still (invalidate q)] :
    KeepsFrom (fun s => s.vcache = c) Still (invalidateChild invalidate c path id h hs) := by
  unfold invalidateChild
  split
  · exact Keeps.weaken
  · exact setVcache_still.weaken fun _ hc => (congrArg Vcache.root hc :)

instance invalidateChildren_still [∀ q, Keeps Still (invalidate q)] {fuel : Nat} :
    Keeps Still (invalidateChildren invalidate path id fuel) := by
  induction fuel with
  | zero => exact .throw _
  | succ fuel ih =>
    refine keeps_getVcache fun c => ?_
    split
    · exact Keeps.weaken
    · exact Keeps.weaken
    · exact .seq invalidateChild_still

/-- Reading the cache and storing it changed. -/
theorem keeps_setVcache {α : Type} {k : FsM α} [Keeps Still k]
    (hroot : ∀ c, (g c).root = c.root) : Keeps Still (do let c ← getVcache; setVcache (g c); k) :=
  keeps_getVcache fun c => .seq (setVcache_still.weaken fun _ hc => hc ▸ (hroot c).symm)

theorem keeps_setVcache_last (hroot : ∀ c, (g c).root = c.root) :
    Keeps Still (do let c ← getVcache; setVcache (g c)) :=
  keeps_getVcache fun c => setVcache_still.weaken fun _ hc => hc ▸ (hroot c).symm

instance [∀ q, Keeps Still (invalidate q)] : Keeps Still (invalidateDir invalidate path e) := by
  refine .branch (.step fun c => ?_) inferInstance
  split
  · infer_instance
  · exact .step fun _ => keeps_setVcache_last fun _ => rfl

/-- Changing the list of children of a cached directory. -/
theorem keeps_updateDir {g : Vcache → Nat → List Nat → Vcache}
    (hroot : ∀ c id hs, (g c id hs).root = c.root) : Keeps Still (do
      let parentHash ← hashOf (cstrDirname path)
      let c ← getVcache
      match c.findEntry (cstrDirname path) parentHash with
      | none => pure ()
      | some parent => do
        let pe ← getVe parent.ve
        match c.dirMap (veUniqueId pe) with
        | none => throw .null
        | some hs => setVcache (g c (veUniqueId pe) hs) : FsM Unit) := by
  refine .step fun _ => keeps_getVcache fun c => ?_
  split
  · exact Keeps.weaken
  · refine .skip fun pe => ?_
    split
    · exact Keeps.weaken
    · exact setVcache_still.weaken fun _ hc => hc ▸ (hroot _ _ _).symm

instance : Keeps Still (removeFromParent path hash) := by
  exact .orElse
    (keeps_updateDir (g := fun c id hs => c.setDir id (some (hs.erase hash))) fun _ _ _ => rfl)

instance vcacheInvalidateLoop_still {fuel : Nat} :
    Keeps Still (vcacheInvalidateLoop fuel path) := by
  induction fuel generalizing path with
  | zero => exact .throw _
  | succ fuel ih =>
    refine .step fun hash => .step fun c => ?_
    split
    · infer_instance
    · refine .step fun e => .step fun _ => ?_
      exact keeps_setVcache fun _ => rfl

instance : Keeps Still (vcacheInvalidate path) := by unfold vcacheInvalidate; infer_instance

instance : Keeps Still (vcacheGet path) := by
  refine .step fun _ => .step fun c => ?_
  split <;> infer_instance

instance : Keeps Still (putDir e) := by
  refine .branch (keeps_getVcache fun c => ?_) inferInstance
  refine .ite (fun _ => Keeps.weaken) fun _ => ?_
  exact setVcache_still.weaken fun _ hc => (congrArg Vcache.root hc :)

instance : Keeps Still (addToParent path hash) := by
  exact .orElse
    (keeps_updateDir (g := fun c id hs => c.setDir id (some (hs ++ [hash]))) fun _ _ _ => rfl)

instance : Keeps Still (vcachePutNew path hash ve) := by
  refine .step fun e => .step fun _ => ?_
  refine .step fun _ => ?_
  exact keeps_setVcache fun _ => rfl

instance : Keeps Still (vcachePutNolock path ve) := by
  refine .step fun _ => .step fun c => ?_
  split <;> infer_instance

instance : Keeps Still (vcachePut path ve) := by unfold vcachePut; infer_instance

end Cache

/-! ## Reading -/

section Reading

variable {p vn : Nat} {kio : Kio} {path : Path}

instance : Keeps Still (vnReadlinkCached vn) := by
  refine keeps_deref fun n => .skip fun _ => ?_
  refine .ite (fun _ => .skip fun r => ?_) fun _ => Keeps.weaken
  obtain ⟨r, kio⟩ := r
  cases r with
  | error e => exact Keeps.weaken
  | ok u => exact .seq (setVn_still rfl)

instance : Keeps Still (vnReadlink vn kio) := by
  refine .step fun r => ?_
  cases r <;> infer_instance

instance : Keeps Still (walkStart p path) := by unfold walkStart; infer_instance
instance : Keeps Still (walkMounted p) := by unfold walkMounted; infer_instance
instance : Keeps Still getPwd := by unfold getPwd; infer_instance

end Reading

/-! ## Locked entries -/

section Locks

variable {p : Nat}

instance : Keeps (OnFs Still) (veLock p) := by unfold veLock; infer_instance
instance : Keeps (OnFs Still) (veUnlock p) := by unfold veUnlock; infer_instance
instance : Keeps (OnFs Still) (vnLock p) := by unfold vnLock; infer_instance
instance : Keeps (OnFs Still) (vnUnlock p) := by unfold vnUnlock; infer_instance
instance : Keeps (OnFs Still) (loadVnode p) := by unfold loadVnode; infer_instance

end Locks

/-- What most of the calls with a path are made of keeps the relation. -/
class Steps (Q : Sys → Sys → Prop) : Prop where
  housekeeping : ∀ {α : Type} (m : FsM α) [Keeps Still m], Keeps Q (onFs m)
  lock : ∀ p, Keeps Q (veLock p)
  unlock : ∀ p, Keeps Q (veUnlock p)
  load : ∀ p, Keeps Q (loadVnode p)

attribute [instance] Steps.lock Steps.unlock Steps.load

instance (priority := low) {α : Type} {Q : Sys → Sys → Prop} [Steps Q] {m : FsM α} [Keeps Still m] :
    Keeps Q (onFs m) :=
  Steps.housekeeping m

section Steps

variable {Q : Sys → Sys → Prop} [Std.Refl Q] [Trans Q Q Q] [Steps Q] {ve atVe next : Nat}
  {flags : Flags} {fullpath : Option Sbuf} {curpath : Sbuf} {e : Errno} {stop : WalkEnd}

instance : Keeps Q (followRet ve atVe fullpath) := by
  unfold followRet
  infer_instance

instance : Keeps Q (followError ve atVe next fullpath e) := by
  unfold followError
  infer_instance

instance : Keeps Q (followSwap ve next atVe fullpath) := by
  unfold followSwap
  infer_instance

instance : Keeps Q (followMount ve next atVe fullpath) := by
  unfold followMount
  infer_instance

instance : Keeps Q (unlockRelease ve e fullpath) := by
  unfold unlockRelease
  infer_instance

instance : Keeps Q (unlockIf flags ve) := by unfold unlockIf; infer_instance
instance : Keeps Q (walkUp flags ve) := by unfold walkUp; infer_instance

instance : Keeps Q (walkSuccess flags ve curpath fullpath) := by
  unfold walkSuccess
  infer_instance

instance : Keeps Q (walkFinish flags stop) := by
  unfold walkFinish
  split
  · refine .step fun e => ?_
    split <;> infer_instance
  all_goals infer_instance

instance {α : Type} {res : Except Errno α} : Keeps Q (pathRet ve atVe res) := by
  unfold pathRet
  infer_instance

instance {dve : Nat} {res : Except Errno Unit} : Keeps Q (removeRet ve dve atVe res) := by
  unfold removeRet
  infer_instance

instance {dve : Nat} {res : Except Errno Unit} :
    Keeps Q (removeRetUnlock ve dve atVe res) := by
  unfold removeRetUnlock
  infer_instance

instance {dve : Nat} {rpath : Sbuf} {res : Except Errno Unit} :
    Keeps Q (removeDone ve dve atVe rpath res) := by
  unfold removeDone
  split <;> infer_instance

end Steps

/-! ## Coarser relations -/

/-- Housekeeping keeps the relation. -/
class Covers (R : Fs → Fs → Prop) : Prop where
  still : ∀ s s', Still s s' → R s s'

section Covers

variable {α : Type} {R : Fs → Fs → Prop} [hR : Covers R]

instance (priority := low) {m : FsM α} [hm : Keeps Still m] : Keeps R m := hm.mono hR.still

instance (priority := low) {m : SysM α} [hm : Keeps (OnFs Still) m] : Keeps (OnFs R) m :=
  hm.mono fun s s' => hR.still s.fs s'.fs

instance : Steps (OnFs R) where
  housekeeping _ := inferInstance
  lock _ := inferInstance
  unlock _ := inferInstance
  load _ := inferInstance

end Covers

end Osdev.Vfs
