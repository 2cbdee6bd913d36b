import Osdev.Vfs.Frame

/-!
# What the calls with a descriptor leave alone

Opening a file that is there, reading, writing, seeking and closing make no entries and no vnodes.
The entries keep their types, parents and mounted roots, and the vnodes their states.
-/

namespace Osdev.Vfs

open Osdev.Lib

set_option synthInstance.maxSize 1000

/-- No entry and no vnode is made, entries lose at most their parents and children and get no other
states than those of their vnodes, and vnodes keep their states. The root and the processes are as
before. -/
structure Aside (s s' : Fs) : Prop where
  brk : s.brk ≤ s'.brk
  root : s'.vcache.root = s.vcache.root
  proc : s'.proc = s.proc
  entry : ∀ p e', s'.ventry p = some e' → ∃ e, s.ventry p = some e ∧ Touched e e' ∧
    (e'.state = e.state ∨ TakesState s e e'.state)
  vnode : ∀ v n', s'.vnode v = some n' → ∃ n, s.vnode v = some n ∧ n'.state = n.state

section Relation

variable {s s₁ s' : Fs}

instance : Std.Refl Aside :=
  ⟨fun _ => ⟨le_rfl, rfl, rfl, fun _ e he => ⟨e, he, .refl e, .inl rfl⟩,
    fun _ n hn => ⟨n, hn, rfl⟩⟩⟩

theorem Aside.trans (h : Aside s s₁) (h' : Aside s₁ s') : Aside s s' := by
  refine ⟨h.brk.trans h'.brk, h'.root.trans h.root, h'.proc.trans h.proc, fun p e' he' => ?_,
    fun v n' hn' => ?_⟩
  · obtain ⟨e1, he1, ht1, hs1⟩ := h'.entry p e' he'
    obtain ⟨e, he, ht, hs⟩ := h.entry p e1 he1
    refine ⟨e, he, ht.trans ht1, ?_⟩
    obtain hs1 | ⟨hl, h0, n1, hn1, hs1⟩ := hs1
    · exact hs1 ▸ hs
    · obtain ⟨n, hn, hstate⟩ := h.vnode _ n1 hn1
      rw [ht.vn] at hn h0
      exact .inr ⟨ht.linked ▸ hl, h0, n, hn, hs1.trans hstate⟩
  · obtain ⟨n1, hn1, hs1⟩ := h'.vnode v n' hn'
    obtain ⟨n, hn, hs⟩ := h.vnode v n1 hn1
    exact ⟨n, hn, hs1.trans hs⟩

instance : Trans Aside Aside Aside := ⟨Aside.trans⟩

theorem Still.aside (h : Still s s') : Aside s s' := by
  refine ⟨(congrArg Fs.brk h.core).ge, (congrArg (fun s => s.vcache.root) h.core :),
    (congrArg Fs.proc h.core :), h.ventry, ?_⟩
  intro v n' hn'
  obtain ⟨n, hn, hcore⟩ := h.vnode v n' hn'
  exact ⟨n, hn, Vnode.state_eq hcore⟩

end Relation

instance : Covers Aside := ⟨fun _ _ => Still.aside⟩

/-! ## Storing -/

section Store

variable {p : Nat} {n n' : Vnode}

/-- Entries, vnodes, the root and processes are as before. -/
structure Elsewhere (s s' : Fs) : Prop where
  root : s'.vcache.root = s.vcache.root
  proc : s'.proc = s.proc
  ventry : s'.ventry = s.ventry
  vnode : s'.vnode = s.vnode

theorem Elsewhere.aside {s s' : Fs} (h : Elsewhere s s') (hbrk : s.brk ≤ s'.brk) : Aside s s' :=
  ⟨hbrk, h.root, h.proc, fun _ e he => ⟨e, h.ventry ▸ he, .refl e, .inl rfl⟩,
    fun _ n hn => ⟨n, h.vnode ▸ hn, rfl⟩⟩

/-- A store at an old address. -/
theorem keeps_aside_set {g : Fs → Fs} (hbrk : ∀ s, (g s).brk = s.brk) (h : ∀ s, Elsewhere s (g s)) :
    Keeps Aside (modify g : FsM Unit) where
  keeps s a s' hs := by cases hs; exact (h s).aside (hbrk s).ge

/-- A new object. -/
theorem keeps_aside_new {g : Fs → Fs} (hbrk : ∀ s, (g s).brk = s.brk + 1)
    (h : ∀ s, Elsewhere s (g s)) :
    Keeps Aside (fun s => .ok (s.brk, g s) : FsM Nat) where
  keeps s a s' hs := by cases hs; exact (h s).aside ((hbrk s).symm ▸ Nat.le_succ _)

instance {v : VfsT} : Keeps Aside (setVfs p v) :=
  keeps_aside_set (fun _ => rfl) fun _ => ⟨rfl, rfl, rfl, rfl⟩

instance {m : RamfsMount} : Keeps Aside (setMount p m) :=
  keeps_aside_set (fun _ => rfl) fun _ => ⟨rfl, rfl, rfl, rfl⟩

instance {m : RamfsNode} : Keeps Aside (setNode p m) :=
  keeps_aside_set (fun _ => rfl) fun _ => ⟨rfl, rfl, rfl, rfl⟩

instance {m : RamfsNode} : Keeps Aside (newNode m) :=
  keeps_aside_new (fun _ => rfl) fun _ => ⟨rfl, rfl, rfl, rfl⟩

instance {x : RamfsDentry} : Keeps Aside (newDentry x) :=
  keeps_aside_new (fun _ => rfl) fun _ => ⟨rfl, rfl, rfl, rfl⟩

instance {m : Memfile} : Keeps Aside (newMemfile m) :=
  keeps_aside_new (fun _ => rfl) fun _ => ⟨rfl, rfl, rfl, rfl⟩

instance {m : Memfile} : Keeps Aside (setMemfile p m) :=
  keeps_aside_set (fun _ => rfl) fun _ => ⟨rfl, rfl, rfl, rfl⟩

instance {d : Device} : Keeps Aside (setDevice p d) :=
  keeps_aside_set (fun _ => rfl) fun _ => ⟨rfl, rfl, rfl, rfl⟩

instance {f : File} : Keeps Aside (setFile p f) :=
  keeps_aside_set (fun _ => rfl) fun _ => ⟨rfl, rfl, rfl, rfl⟩

instance {f : File} : Keeps Aside (newFile f) :=
  keeps_aside_new (fun _ => rfl) fun _ => ⟨rfl, rfl, rfl, rfl⟩

instance : Keeps Aside (freeFile p) :=
  keeps_aside_set (fun _ => rfl) fun _ => ⟨rfl, rfl, rfl, rfl⟩

instance {t : Ftable} : Keeps Aside (setFtable p t) :=
  keeps_aside_set (fun _ => rfl) fun _ => ⟨rfl, rfl, rfl, rfl⟩

/-- A vnode is stored with the state from before. -/
theorem setVn_aside {P : Fs → Prop} (hstate : n'.state = n.state) :
    KeepsFrom (fun s => P s ∧ s.vnode p = some n) Aside (setVn p n') := by
  rintro s a s' ⟨-, hs⟩ h
  cases h
  exact { (Std.Refl.refl s : Aside s s) with vnode := store_related hs hstate fun _ => rfl }

end Store

/-! ## Files -/

instance : OpensFiles Aside where
  setFile _ := Keeps.weaken
  setFtable _ := Keeps.weaken
  setVn hstate _ := setVn_aside hstate
  freeFile _ := inferInstance
  newFile _ := inferInstance
  setTable _ _ := inferInstance

instance : Writes Aside := ⟨inferInstance, inferInstance⟩

/-! ## Coarser relations -/

/-- Calls with a descriptor keep the relation. -/
class Spans (R : Fs → Fs → Prop) : Prop where
  aside : ∀ s s', Aside s s' → R s s'

section Spans

variable {α : Type} {R : Fs → Fs → Prop} [hR : Spans R]

instance (priority := low) {m : FsM α} [hm : Keeps Aside m] : Keeps R m := hm.mono hR.aside

instance (priority := low) {m : SysM α} [hm : Keeps (OnFs Aside) m] : Keeps (OnFs R) m :=
  hm.mono fun s s' => hR.aside s.fs s'.fs

end Spans

end Osdev.Vfs
