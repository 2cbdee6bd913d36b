import Osdev.Lib.Run
import Osdev.Pages.Lists

/-!
# Every frame is freed exactly once

Callers allocate page lists, clone them, take further references to pages they can reach, split and
join lists and drop their references. The main result is `frames_freed_once`.
-/

namespace Osdev.Pages

open Osdev.Lib

variable {m m' : Mem} {p : Nat}

/-- A page that some held reference leads to. -/
def Mem.Reachable (m : Mem) (p : Nat) : Prop :=
  ∃ h ∈ m.held, Reaches (m.store.graph []) h p

/-- Nothing is allocated. -/
def Mem.Init (m : Mem) : Prop :=
  (∀ p, m.store.page p = none) ∧ 0 < m.store.brk ∧ m.store.owned = [] ∧ m.store.returned = [] ∧
    m.held = []

/-- What callers keep to: they use references they hold, take further ones only to pages they can
reach, and join only lists that do not reach each other. -/
def Op.Fits (m : Mem) : Op → Prop
  | .alloc _ _ _ _ => True
  | .allocNonowned _ _ _ => True
  | .cow pages => m.Reachable pages
  | .take page => m.Reachable page
  | .split head _ => head ∈ m.held
  | .join head tail => head ∈ m.held ∧ tail ∈ m.held ∧ Apart m.store head tail
  | .drop page => page ∈ m.held

/-- One call that returns. -/
def Mem.Call (m : Mem) (o : Op) (m' : Mem) : Prop := o.Fits m ∧ m.step o = .ok m'

theorem Mem.Init.sound (h : m.Init) : Sound m.store m.held := by
  obtain ⟨hnone, hbrk, howned, hret, hheld⟩ := h
  have hout : ∀ q, (m.store.graph []).out q = none := fun q => by
    rw [out_graph List.not_mem_nil, hnone q]
    rfl
  refine ⟨⟨fun q hq => absurd (hout q) hq, fun q r hr => ?_, fun q hq => ?_,
    fun q hq => absurd (hout q) hq, fun q hq => absurd (hout q) hq⟩,
    ⟨hnone 0, hbrk, fun q _ => hnone q, ?_, ?_, ?_, ?_, ?_, fun q x hq => ?_⟩,
    ⟨fun _ => 0, fun q r hr => ?_⟩⟩
  · exact absurd (hout q) (out_ne_none_of_mem hr)
  · simp [hheld] at hq
  · simp [howned]
  · simp [hret]
  · simp [hret]
  · simp [hret]
  · simp [howned]
  · simp [hnone q] at hq
  · exact absurd (hout q) (out_ne_none_of_mem hr)

theorem Sound.page_of_reachable (h : Sound m.store m.held) (hp : m.Reachable p) :
    ∃ x, m.store.page p = some x := by
  obtain ⟨a, ha, hr⟩ := hp
  exact (page_of_out (h.counted.reaches (h.counted.live a ha) hr)).2

/-- Every call keeps the invariant. -/
theorem Mem.Call.sound {o : Op} (h : Sound m.store m.held) (hc : m.Call o m') :
    Sound m'.store m'.held := by
  obtain ⟨hfit, hs⟩ := hc
  cases o with
  | alloc fa frame count pgSize =>
    obtain ⟨⟨s, first⟩, hs1, hs2⟩ := bind_ok hs
    cases hs2
    exact allocPageStructs_spec h hs1
  | allocNonowned frame count pgSize =>
    obtain ⟨⟨s, first⟩, hs1, hs2⟩ := bind_ok hs
    cases hs2
    exact allocNonownedStructs_spec h hs1
  | cow pages =>
    obtain ⟨⟨s, first⟩, hs1, hs2⟩ := bind_ok hs
    cases hs2
    exact allocCowStructs_spec h hs1
  | take page =>
    obtain ⟨s, hs1, hs2⟩ := bind_ok hs
    cases hs2
    obtain ⟨x, hx⟩ := h.page_of_reachable hfit
    rw [show (Mem.mk s (holding page m.held)).held = page :: m.held from
      holding_of_ne (h.ne_zero hx)]
    exact (h.getref hx hs1).1
  | split head count =>
    obtain ⟨⟨s, head', tail⟩, hs1, hs2⟩ := bind_ok hs
    cases hs2
    obtain ⟨hsound, rfl⟩ := pageListSplit_spec h hs1
    obtain ⟨x, hx⟩ := h.page_of_mem hfit
    refine hsound.perm ?_
    rw [holding_of_ne (h.ne_zero hx)]
    have herase := List.perm_cons_erase hfit
    unfold holding
    split
    · exact herase
    · exact (herase.cons tail).trans (.swap _ _ _)
  | join head tail =>
    obtain ⟨hh, ht, hapart⟩ := hfit
    obtain ⟨⟨s, head'⟩, hs1, hs2⟩ := bind_ok hs
    cases hs2
    obtain ⟨x, hx⟩ := h.page_of_mem hh
    obtain ⟨y, hy⟩ := h.page_of_mem ht
    have hne : tail ≠ head := fun he => (hapart head tail .head .head).1 (he ▸ .refl)
    have hperm : m.held.Perm (tail :: head :: (m.held.erase head).erase tail) := by
      have hmem : tail ∈ m.held.erase head := (List.mem_erase_of_ne hne).mpr ht
      exact (List.perm_cons_erase hh).trans
        (((List.perm_cons_erase hmem).cons head).trans (.swap _ _ _))
    unfold pageListJoin at hs1
    rw [if_neg (h.ne_zero hx), if_neg (h.ne_zero hy)] at hs1
    obtain ⟨hsound, rfl⟩ := joinLists_spec (h.perm hperm) hapart hs1
    rwa [holding_of_ne (h.ne_zero hx)]
  | drop page =>
    obtain ⟨s, hs1, hs2⟩ := bind_ok hs
    cases hs2
    obtain ⟨s', hs', hsound⟩ := dropPages_spec (h.perm (List.perm_cons_erase hfit))
    cases hs1.symm.trans hs'
    exact hsound

theorem sound_of_reach (h : Reach Mem.Init Mem.Call m) : Sound m.store m.held :=
  h.invariant (fun _ => Mem.Init.sound)
    fun _ _ _ hs hc => hc.sound hs

/--
**Every frame is freed exactly once.**

In every state that calls reach: no frame has been given back twice, the ones given back are frames
that were handed out, and no held reference leads to their page; every page that a held reference
leads to is there; once no reference is held, every frame handed out has been given back; and
dropping a held reference returns.
-/
theorem frames_freed_once (h : Reach Mem.Init Mem.Call m) :
    m.store.returned.Nodup ∧
    (∀ f ∈ m.store.returned, f ∈ m.store.owned ∧ ¬ m.Reachable f.page) ∧
    (∀ p, m.Reachable p → ∃ x, m.store.page p = some x) ∧
    (m.held = [] → ∀ f ∈ m.store.owned, f ∈ m.store.returned) ∧
    ∀ p ∈ m.held, ∃ m', m.step (.drop p) = .ok m' := by
  have hs := sound_of_reach h
  have hl := hs.logged
  refine ⟨hl.once, fun f hf => ⟨hl.sub f hf, fun hr => ?_⟩, fun p => hs.page_of_reachable,
    fun hheld f hf => ?_, fun p hp => ?_⟩
  · obtain ⟨x, hx⟩ := hs.page_of_reachable hr
    rcases hl.gone f hf with hnone | hd
    · simp [hnone] at hx
    · cases hd
  · refine (hl.kept f hf).resolve_right fun ⟨_, x, hx, _, _⟩ => ?_
    have hnone := Counted.eq_none_of_ranked (hheld ▸ hs.counted) hs.ranked f.page
    simp [out_graph_some hx List.not_mem_nil] at hnone
  · obtain ⟨s', hs', -⟩ := dropPages_spec (hs.perm (List.perm_cons_erase hp))
    exact ⟨⟨s', m.held.erase p⟩, bind_eq_ok.mpr ⟨s', hs', rfl⟩⟩

/-- **No page leaks.** A frame has been given back exactly when no held reference leads to its page;
every struct can be reached, and its counter is the number of references to it. -/
theorem freed_iff_unreachable (h : Reach Mem.Init Mem.Call m) :
    (∀ f ∈ m.store.owned, f ∈ m.store.returned ↔ ¬ m.Reachable f.page) ∧
      ∀ p x, m.store.page p = some x →
        m.Reachable p ∧ x.refcount = m.held.count p + (m.store.graph []).inDegree p := by
  have hs := sound_of_reach h
  have hreach : ∀ {p x}, m.store.page p = some x → m.Reachable p := fun hx =>
    hs.counted.reaches_of_ranked hs.ranked (by simp [out_graph_some hx])
  refine ⟨fun f hf => ⟨fun hret hr => ?_, fun hno => ?_⟩, fun p x hx => ⟨hreach hx, ?_⟩⟩
  · obtain ⟨x, hx⟩ := hs.page_of_reachable hr
    have hgone := hs.logged.gone f hret
    simp [hx] at hgone
  · exact (hs.logged.kept f hf).resolve_right fun ⟨_, x, hx, _⟩ => hno (hreach hx)
  · exact (count_graph hx).symm.trans (hs.counted.count p (by simp [out_graph_some hx]))

/-- An empty store. -/
def Mem.empty : Mem := ⟨⟨fun _ => none, 1, [], []⟩, []⟩

theorem Mem.init_empty : Mem.empty.Init := ⟨fun _ => rfl, Nat.one_pos, rfl, rfl, rfl⟩

/-- A check that implies `Op.Fits`; it refuses `join`. -/
def Op.check (m : Mem) : Op → Bool
  | .alloc _ _ _ _ => true
  | .allocNonowned _ _ _ => true
  | .cow page => m.held.contains page
  | .take page => m.held.contains page
  | .split page _ => m.held.contains page
  | .join _ _ => false
  | .drop page => m.held.contains page

theorem Op.fits_of_check {o : Op} (h : o.check m = true) : o.Fits m := by
  cases o with
  | alloc | allocNonowned => trivial
  | cow page => exact ⟨page, List.contains_iff_mem.mp h, .refl⟩
  | take page => exact ⟨page, List.contains_iff_mem.mp h, .refl⟩
  | split page count => exact List.contains_iff_mem.mp h
  | join head tail => cases h
  | drop page => exact List.contains_iff_mem.mp h

/-- A list of two frames is cloned and split, and then all three references are dropped. -/
theorem frames_freed_once_clone : ∃ m, Reach Mem.Init Mem.Call m ∧ m.held = [] ∧
    m.store.owned = [⟨2, 7, 0x2000, 4096⟩, ⟨1, 7, 0x1000, 4096⟩] ∧
    ∀ f ∈ m.store.owned, f ∈ m.store.returned := by
  have hrun : (checkedRun Op.check Mem.step
      [.alloc 7 0x1000 2 4096, .cow 1, .split 1 1, .drop 1, .drop 2, .drop 3] Mem.empty).map
        (fun m => (m.held, m.store.owned)) =
      some ([], [⟨2, 7, 0x2000, 4096⟩, ⟨1, 7, 0x1000, 4096⟩]) := by rfl
  obtain ⟨m, hm, hview⟩ := Option.map_eq_some_iff.mp hrun
  obtain ⟨hheld, howned⟩ := Prod.mk.inj hview
  have hreach : Reach Mem.Init Mem.Call m :=
    .of_checkedRun (fun _ _ _ hc hs => ⟨Op.fits_of_check hc, hs⟩) (.start Mem.init_empty) hm
  obtain ⟨-, -, -, hall, -⟩ := frames_freed_once hreach
  exact ⟨m, hreach, hheld, howned, hall hheld⟩

/-- The two frames of a list that was cloned and dropped. -/
theorem freed_iff_unreachable_clone : ∃ m : Mem, m.held = [3] ∧ m.store.owned.length = 2 ∧
    ∀ f ∈ m.store.owned, m.Reachable f.page := by
  have hrun : (checkedRun Op.check Mem.step [.alloc 7 0x1000 2 4096, .cow 1, .drop 1] Mem.empty).map
      (fun m => (m.held, m.store.owned.length, m.store.returned)) = some ([3], 2, []) := by rfl
  obtain ⟨m, hm, hview⟩ := Option.map_eq_some_iff.mp hrun
  simp only [Prod.mk.injEq] at hview
  refine ⟨m, hview.1, hview.2.1, fun f hf => by_contra fun hno => ?_⟩
  have hret :=
    ((freed_iff_unreachable (.of_checkedRun (fun _ _ _ hc hs => ⟨Op.fits_of_check hc, hs⟩)
    (.start Mem.init_empty) hm)).1 f hf).mpr hno
  simp [hview.2.2] at hret

end Osdev.Pages
