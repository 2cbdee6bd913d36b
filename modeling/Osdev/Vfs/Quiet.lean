import Osdev.Vfs.Aside

/-!
# States of entries and vnodes

A path is resolved with functions that release, synchronise and cache entries. None of them changes
the state of a vnode, and an entry gets no other state than the one of its vnode.
-/

namespace Osdev.Vfs

open Osdev.Lib

variable {s s' : Fs} {e' : Ventry} {n' : Vnode} {u : Unit}

set_option synthInstance.maxSize 1000

/-- No entry and no vnode is made, no vnode changes its state, and entries keep theirs or get that
of their vnode. -/
structure Quiet (s s' : Fs) : Prop where
  entry : ∀ p e', s'.ventry p = some e' → ∃ e, s.ventry p = some e ∧ e'.vn = e.vn ∧
    e'.linked = e.linked ∧ (e'.parent = e.parent ∨ e'.parent = 0) ∧
    (e'.state = e.state ∨
      e.linked = true ∧ e.vn ≠ 0 ∧ ∃ n, s.vnode e.vn = some n ∧ e'.state = n.state)
  vnode : ∀ v n', s'.vnode v = some n' → ∃ n, s.vnode v = some n ∧ n'.state = n.state

theorem Quiet.of_eq (hve : s'.ventry = s.ventry) (hvn : s'.vnode = s.vnode) :
    Quiet s s' :=
  ⟨fun _ e' h => ⟨e', hve ▸ h, rfl, rfl, .inl rfl, .inl rfl⟩, fun _ n' h => ⟨n', hvn ▸ h, rfl⟩⟩

instance : Std.Refl Quiet := ⟨fun _ => .of_eq rfl rfl⟩

instance : Trans Quiet Quiet Quiet where
  trans {s s1 s'} h h' := by
    refine ⟨fun p e' he' => ?_, fun v n' hn' => ?_⟩
    · obtain ⟨e1, he1, hvn1, hlinked1, hparent1, hstate1⟩ := h'.entry p e' he'
      obtain ⟨e, he, hvn, hlinked, hparent, hstate⟩ := h.entry p e1 he1
      refine ⟨e, he, hvn1.trans hvn, hlinked1.trans hlinked, ?_, ?_⟩
      · obtain hp | hp := hparent1
        · exact hp ▸ hparent
        · exact .inr hp
      · obtain hs | ⟨hl, h0, n1, hn1, hs⟩ := hstate1
        · exact hs ▸ hstate
        · obtain ⟨n, hn, hsame⟩ := h.vnode _ n1 hn1
          exact .inr ⟨hlinked ▸ hl, hvn ▸ h0, n, hvn ▸ hn, hs.trans hsame⟩
    · obtain ⟨n1, hn1, hs1⟩ := h'.vnode v n' hn'
      obtain ⟨n, hn, hs⟩ := h.vnode v n1 hn1
      exact ⟨n, hn, hs1.trans hs⟩

theorem Aside.quiet (h : Aside s s') : Quiet s s' := by
  refine ⟨fun p e' he' => ?_, h.vnode⟩
  obtain ⟨e, he, ht, hstate⟩ := h.entry p e' he'
  exact ⟨e, he, ht.vn, ht.linked, ht.parent, hstate⟩

instance : Spans Quiet := ⟨fun _ _ => Aside.quiet⟩

/-! ## Storing -/

section Store

variable {p : Nat} {n n' : Vnode} {P : Fs → Prop}

theorem setVn_quiet (hstate : n'.state = n.state) :
    KeepsFrom (fun s => P s ∧ s.vnode p = some n) Quiet (setVn p n') :=
  (setVn_aside hstate).mono fun _ _ => Aside.quiet

end Store

/-! ## Synchronising -/

section Sync

variable {p : Nat}

/-- A linked entry with the state of its vnode keeps it. -/
theorem Quiet.synced {e : Ventry} {n : Vnode} (h : Quiet s s')
    (he : s.ventry p = some e) (hn : s.vnode e.vn = some n) (hsame : e.state = n.state)
    (he' : s'.ventry p = some e') (hn' : s'.vnode e'.vn = some n') : e'.state = n'.state := by
  obtain ⟨e1, he1, hvn, -, -, hstate⟩ := h.entry p e' he'
  obtain rfl : e1 = e := Option.some.inj (he1.symm.trans he)
  obtain ⟨n1, hn1, hsame'⟩ := h.vnode _ n' hn'
  rw [hvn] at hn1
  obtain rfl : n1 = n := Option.some.inj (hn1.symm.trans hn)
  obtain hs | ⟨-, -, n2, hn2, hs⟩ := hstate
  · rw [hs, hsame, hsame']
  · obtain rfl : n2 = n1 := Option.some.inj (hn2.symm.trans hn)
    rw [hs, hsame']

/-- After `ve_syncvn`, a linked entry has the state of its vnode. -/
theorem veSyncvn_synced {b : Bool}
    (h : veSyncvn p s = .ok (b, s')) (he' : s'.ventry p = some e') (hlinked : e'.linked = true)
    (hn' : s'.vnode e'.vn = some n') : e'.state = n'.state := by
  obtain ⟨_, s1, hget, h⟩ := run_bind_ok h
  cases hget
  obtain ⟨-, e, he, h⟩ := deref_bind_eq_ok h
  split at h
  next hl =>
    cases h
    obtain rfl : e = e' := Option.some.inj (he.symm.trans he')
    simp [hl] at hlinked
  · obtain ⟨-, n, hn, h⟩ := deref_bind_eq_ok h
    obtain ⟨_, s4, hassert, h⟩ := run_bind_ok h
    obtain ⟨rfl, -⟩ := kassert_eq_ok hassert
    obtain ⟨_, s5, hset, h⟩ := run_bind_ok h
    cases hset
    -- what follows starts from an entry with the state of its vnode
    have hentry : (store s.ventry p (some { e with state := n.state })) p =
        some { e with state := n.state } := store_self _ _ _
    suffices hquiet :
      Quiet { s with ventry := store s.ventry p (some { e with state := n.state }) } s'
      from hquiet.synced hentry hn rfl he' hn'
    split at h
    · exact Keeps.keeps _ _ _ h
    · split at h
      · obtain ⟨-, v, -, h⟩ := deref_bind_eq_ok h
        obtain ⟨_, s7, hset, h⟩ := run_bind_ok h
        cases h
        exact (setVe_vfs _ _ _ hentry hset).aside.quiet
      · cases h
        exact .of_eq rfl rfl

end Sync

end Osdev.Vfs
