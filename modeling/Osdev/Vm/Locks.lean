import Osdev.Lib.Except
import Osdev.RbTree.Map
import Osdev.Vm.Api

/-!
# Lock balance of the virtual memory interface

`vmap_internal`, `vmap_protect` and `vmap_resize` give back the lock that they take on every path.
`vmap_free` keeps it on two error paths (`vmapFree_lock`).
-/

namespace Osdev.Vm

open Osdev.Intvl Osdev.Lib

variable {s s' : Sys} {sp user va size : Nat} {α : Type}
variable {r : Except Errno α} {x : Except Fault (Except Errno α × VmState)}

/-! ## The end of a function -/

theorem spaceUnlock_spaceLock (s : Sys) (sp : Nat) (v : VmState) :
    Sys.spaceUnlock ⟨v, (s.spaceLock sp).lock⟩ sp = .ok ⟨v, s.lock⟩ := by
  unfold Sys.spaceUnlock Sys.spaceLock
  simp only [if_true, Nat.add_eq_zero_iff, Nat.one_ne_zero, and_false, if_false, Except.ok.injEq,
    Sys.mk.injEq, true_and]
  funext q
  split <;> rfl

theorem unlockRet_spec {r' : Except Errno α} (h : unlockRet (s.spaceLock sp) sp r = .ok (r', s')) :
    r' = r ∧ s' = s := by
  have hunlock : (s.spaceLock sp).spaceUnlock sp = .ok s := spaceUnlock_spaceLock s sp s.vm
  unfold unlockRet at h
  rw [hunlock] at h
  cases h
  exact ⟨rfl, rfl⟩

theorem finish_spec
    (h : finish (s.spaceLock sp) sp x = .ok (r, s')) :
    x = .ok (r, s'.vm) ∧ s'.lock = s.lock := by
  obtain ⟨⟨r', v⟩, hx, h⟩ := bind_ok h
  dsimp only [unlockRet] at h
  rw [spaceUnlock_spaceLock s sp v] at h
  cases h
  exact ⟨hx, rfl⟩

theorem finish_lock
    (h : finish (s.spaceLock sp) sp x = .ok (r, s')) : s'.lock = s.lock :=
  (finish_spec h).2

/-! ## The functions that give their lock back -/

theorem vmapInternal_lock {a : VmapArgs} {r : Except Errno Nat}
    (h : vmapInternal s user a = .ok (r, s')) : s'.lock = s.lock := by
  obtain ⟨valid, -, h⟩ := bind_ok h
  split at h
  · cases h
    rfl
  · split at h
    · cases h
      rfl
    · exact finish_lock h

theorem vmapProtect_lock {len : Nat} {prot : Flags} {r : Except Errno Unit}
    (h : vmapProtect s user va len prot = .ok (r, s')) : s'.lock = s.lock := by
  unfold vmapProtect at h
  split at h
  · cases h
    rfl
  · obtain ⟨id, -, h⟩ := bind_ok h
    obtain ⟨last, -, h⟩ := bind_ok h
    split at h
    · exact congrArg Sys.lock (unlockRet_spec h).2
    · split at h
      · exact congrArg Sys.lock (unlockRet_spec h).2
      · exact finish_lock h

theorem vmapResize_lock {oldSize newSize : Nat} {allowMove : Bool} {r : Except Errno (Option Nat)}
    (h : vmapResize s user va oldSize newSize allowMove = .ok (r, s')) : s'.lock = s.lock := by
  unfold vmapResize at h
  split at h
  · cases h
    rfl
  · obtain ⟨id, -, h⟩ := bind_ok h
    dsimp only at h
    repeat' split at h
    all_goals first
      | exact finish_lock h
      | exact congrArg Sys.lock (unlockRet_spec h).2

/-! ## `vmap_free` -/

/-- The range of a `vmap_free` call lies in the mapped parts of the mappings at its two ends, but it
is not made up of whole mappings, or one of them is reserved. -/
def KeepsLock (s : Sys) (user va size : Nat) : Prop :=
  isValidRange va size = true ∧ isAligned size pageSize = true ∧
    ∃ id last, id ≠ 0 ∧ last ≠ 0 ∧
      spaceGetMapping s.vm (selectSpace s.vm user va) va = .ok id ∧
      spaceGetMapping s.vm (selectSpace s.vm user va) (subWord (addWord va size) 1) = .ok last ∧
      (s.vm.mapping id).address ≤ va ∧
      addWord va size ≤ (vmRealInterval (s.vm.mapping last)).stop ∧
      (((s.vm.mapping id).address ≠ va ∨
          (vmRealInterval (s.vm.mapping last)).stop ≠ addWord va size) ∨
        checkLoop s.vm (listNext (s.vm.space (selectSpace s.vm user va)).mappings last)
          ((s.vm.space (selectSpace s.vm user va)).mappings.dropWhile (· ≠ id)) = .ok true)

theorem spaceLock_lock_ne (s : Sys) (sp : Nat) : (s.spaceLock sp).lock ≠ s.lock := by
  intro h
  have hsp := congrFun h sp
  simp [Sys.spaceLock] at hsp

/-- `vmap_free` keeps its lock exactly on the two paths that return in the middle. -/
theorem vmapFree_lock {r : Except Errno Unit} (h : vmapFree s user va size = .ok (r, s')) :
    s'.lock = s.lock ↔ ¬ KeepsLock s user va size := by
  unfold vmapFree at h
  split at h
  next hargs =>
    cases h
    refine iff_of_true rfl fun ⟨hv, ha, _⟩ => ?_
    simp [hv, ha] at hargs
  next hargs =>
    simp only [not_or, not_not] at hargs
    obtain ⟨id, hid, h⟩ := bind_ok h
    obtain ⟨last, hlast, h⟩ := bind_ok h
    -- a range that keeps the lock is one of the two mappings that were found
    dsimp only [Sys.spaceLock] at hid hlast
    simp only [KeepsLock, hargs, hid, hlast, Except.ok.injEq, true_and, existsAndEq]
    split at h
    next hnull =>
      refine iff_of_true (congrArg Sys.lock (unlockRet_spec h).2) fun hk => ?_
      obtain ⟨h1, h2, -⟩ := hk
      exact hnull.elim h1 h2
    next hnull =>
      simp only [not_or] at hnull
      dsimp only at h
      split at h
      next hout =>
        refine iff_of_true (congrArg Sys.lock (unlockRet_spec h).2) fun hk => ?_
        obtain ⟨-, -, h1, h2, -⟩ := hk
        exact hout.elim (fun hlt => absurd hlt (Nat.not_lt.mpr h1))
          fun hgt => absurd hgt (Nat.not_lt.mpr h2)
      next hout =>
        obtain ⟨hlow, hhigh⟩ := not_or.mp hout
        have hlow : (s.vm.mapping id).address ≤ va := Nat.le_of_not_lt hlow
        have hhigh : addWord va size ≤ (vmRealInterval (s.vm.mapping last)).stop :=
          Nat.le_of_not_lt hhigh
        split at h
        next hne =>
          cases h
          refine iff_of_false (spaceLock_lock_ne s _) (not_not.mpr ?_)
          refine ⟨hnull.1, hnull.2, hlow, hhigh, .inl ?_⟩
          by_contra hboth
          obtain ⟨h1, h2⟩ := not_or.mp hboth
          exact hne (congrArg₂ Interval.mk (not_not.mp h1).symm (not_not.mp h2).symm)
        next heq =>
          have heq := not_not.mp heq
          obtain ⟨reserved, hcheck, h⟩ := bind_ok h
          split at h
          next hres =>
            cases h
            refine iff_of_false (spaceLock_lock_ne s _) (not_not.mpr ?_)
            refine ⟨hnull.1, hnull.2, hlow, hhigh, .inr ?_⟩
            rwa [← hres]
          next hres =>
            refine iff_of_true (finish_lock h) fun hk => ?_
            obtain ⟨-, -, -, -, hrest⟩ := hk
            rcases hrest with hne | htrue
            · have h1 : va = (s.vm.mapping id).address := congrArg Interval.start heq
              have h2 : addWord va size = (vmRealInterval (s.vm.mapping last)).stop :=
                congrArg Interval.stop heq
              exact hne.elim (fun hn => hn h1.symm) fun hn => hn h2.symm
            · exact hres (Except.ok.inj (hcheck.symm.trans htrue))

/-! ## All four functions -/

/--
**Every function of the interface gives back the lock it takes, except `vmap_free` on two error
paths.**
-/
theorem vm_lock_balance (s s' : Sys) (user : Nat) :
    (∀ a r, vmapInternal s user a = .ok (r, s') → s'.lock = s.lock) ∧
      (∀ va len prot r, vmapProtect s user va len prot = .ok (r, s') → s'.lock = s.lock) ∧
      (∀ va oldSize newSize allowMove r,
        vmapResize s user va oldSize newSize allowMove = .ok (r, s') → s'.lock = s.lock) ∧
      ∀ va size r, vmapFree s user va size = .ok (r, s') →
        (s'.lock = s.lock ↔ ¬ KeepsLock s user va size) :=
  ⟨fun _ _ h => vmapInternal_lock h, fun _ _ _ _ h => vmapProtect_lock h,
    fun _ _ _ _ _ h => vmapResize_lock h, fun _ _ _ h => vmapFree_lock h⟩

/-! ## A system with two empty spaces -/

/-- Space `1` is a user space and space `2` the kernel space. -/
def emptySpace (nil minAddr maxAddr : Nat) : Space :=
  { minAddr, maxAddr, numMappings := 0, mappings := [], pageTable := 0
    tree := ⟨Rb.createRbTree Rb.blank nil, ⟨id, id, id, id, id, id⟩⟩ }

def emptyBacking : Backing :=
  { tables := ⟨fun _ => 0, 0, fun n => 4096 * (n + 1), 0⟩, tablePages := fun _ => []
    store := ⟨fun _ => none, 1, [], []⟩, file := fun _ => none, cache := fun _ => none, brk := 1 }

def emptySys : Sys :=
  { vm :=
      { space := fun sp => if sp = 1 then emptySpace 3 0 userSpaceEnd
          else emptySpace 4 kernelSpaceStart kernelSpaceEnd
        kernelSpace := 2, mapping := fun _ => ⟨.rsvd, 0, 0, 0, 0, 0, 0⟩, brk := 5
        backing := emptyBacking }
    lock := fun _ => 0 }

/-- A user mapping of two pages at `0x100000`, which is not entered into the page tables. -/
def twoPages : VmapArgs :=
  { type := .phys, hint := 0x100000, size := 0x2000, vmSize := 0
    vmFlags := vmUser ||| vmFixed ||| vmRead ||| vmNomap, data := 0x5000 }

/-- The locks before and after the first page of the mapping is freed. -/
def freeFirstPage : Except Fault (Nat × Nat) := do
  let (_, s) ← vmapInternal emptySys 1 twoPages
  let (_, s') ← vmapFree s 1 0x100000 0x1000
  .ok (s.lock 1, s'.lock 1)

theorem freeFirstPage_eq : freeFirstPage = .ok (0, 1) := by
  have h : freeFirstPage.toOption = some (0, 1) := by rfl
  cases hf : freeFirstPage with
  | error e => rw [hf] at h; cases h
  | ok r => rw [hf] at h; exact congrArg _ (Option.some.inj h)

/-- Freeing the first page of a mapping of two pages fails, and the lock stays taken. -/
theorem vmapFree_first_page_keeps_lock :
    ∃ r s r' s', vmapInternal emptySys 1 twoPages = .ok (r, s) ∧
      vmapFree s 1 0x100000 0x1000 = .ok (r', s') ∧ s.lock 1 = 0 ∧ s'.lock 1 = 1 := by
  obtain ⟨⟨r, s⟩, hs, h⟩ := bind_ok freeFirstPage_eq
  obtain ⟨⟨r', s'⟩, hs', h⟩ := bind_ok h
  obtain ⟨h0, h1⟩ := Prod.mk.inj (Except.ok.inj h)
  exact ⟨r, s, r', s', hs, hs', h0, h1⟩

/-- The theorem at the same calls, and at a call of `vmap_free` that finds no mapping. -/
theorem vm_lock_balance_two_pages :
    (∃ r s r' s', vmapInternal emptySys 1 twoPages = .ok (r, s) ∧ s.lock = emptySys.lock ∧
      vmapFree s 1 0x100000 0x1000 = .ok (r', s') ∧
      (s'.lock = s.lock ↔ ¬ KeepsLock s 1 0x100000 0x1000)) ∧
    ∃ r s', vmapFree emptySys 1 0x100000 0x1000 = .ok (r, s') ∧
      (s'.lock = emptySys.lock ↔ ¬ KeepsLock emptySys 1 0x100000 0x1000) := by
  obtain ⟨⟨r, s⟩, hs, h⟩ := bind_ok freeFirstPage_eq
  obtain ⟨⟨r', s'⟩, hs', -⟩ := bind_ok h
  obtain ⟨⟨r0, s0⟩, hs0⟩ := exists_of_toBool
    (show (vmapFree emptySys 1 0x100000 0x1000).toBool = true by rfl)
  exact ⟨⟨r, s, r', s', hs, (vm_lock_balance emptySys s 1).1 _ _ hs, hs',
    (vm_lock_balance s s' 1).2.2.2 _ _ _ hs'⟩,
    r0, s0, hs0, (vm_lock_balance emptySys s0 1).2.2.2 _ _ _ hs0⟩

end Osdev.Vm
