import Mathlib.Data.List.Induction
import Osdev.Vm.EarlyMap

/-!
# What a walk for an early mapping leaves unchanged

A *way* is the list of the indices that lead from the top table to a table. The invariant `Tidy`
says that two ways in use do not lead to the same table and that no table lies in the memory that
new tables come from. Then what is written on one way is not seen on another (`Tidy.round`), and a
walk makes its way and leaves the other ones (`Tidy.walk`).
-/

namespace Osdev.Vm

open Osdev.Lib
open Osdev.EarlyMem (Early earlyAllocPages)

/-! ## Entries -/

section Entries

variable {m : Phys} {t t' i j a : Nat} {e : Entry}

theorem tableEntry_frame (h : e &&& peFrameMask = e) : tableEntry e &&& peFrameMask = e := by
  have hflags : (peWrite ||| pePresent) &&& peFrameMask = 0#64 := by decide
  rw [tableEntry, BitVec.and_or_distrib_right, h, hflags, BitVec.or_zero]

theorem tableEntry_present (e : Entry) : (tableEntry e).present = true := by
  simp [Entry.present, tableEntry, pePresent]

theorem ofNat_frame (h : a % pageSize = 0) :
    BitVec.ofNat 64 a &&& peFrameMask = BitVec.ofNat 64 a := by
  have hlow : BitVec.ofNat 64 a &&& peFlagsMask = 0#64 := by
    apply BitVec.eq_of_toNat_eq
    have hmod : a % 2 ^ 64 % 2 ^ 12 = 0 := by
      unfold pageSize at h
      omega
    simpa [peFlagsMask, Nat.and_two_pow_sub_one_eq_mod _ 12] using hmod
  have hall : peFrameMask ||| peFlagsMask = BitVec.allOnes 64 := by decide
  have hsplit := BitVec.and_or_distrib_left (x := BitVec.ofNat 64 a) (y := peFrameMask)
    (z := peFlagsMask)
  rwa [hall, hlow, BitVec.and_allOnes, BitVec.or_zero, eq_comm] at hsplit

theorem entry_set (ht : t % pageSize = 0) (ht' : t' % pageSize = 0) (hi : i < numEntries)
    (hj : j < numEntries) :
    (m.set (t + 8 * i) e).entry t' j = if t' = t ∧ j = i then e else m.entry t' j := by
  unfold pageSize at ht ht'
  unfold numEntries at hi hj
  have hslot : t' + 8 * j = t + 8 * i ↔ t' = t ∧ j = i := by omega
  simp only [Phys.entry, Phys.set, hslot]

theorem entry_zeroPage (ht : t % pageSize = 0) (ht' : t' % pageSize = 0) (hj : j < numEntries) :
    (m.zeroPage t).entry t' j = if t' = t then 0 else m.entry t' j := by
  unfold pageSize at ht ht'
  unfold numEntries at hj
  have hpage : t ≤ t' + 8 * j ∧ t' + 8 * j < t + pageSize ↔ t' = t := by
    unfold pageSize
    omega
  simp only [Phys.entry, Phys.zeroPage, hpage]

end Entries

/-! ## Ways -/

namespace Phys

/-- The table that entry `i` of `t` names. -/
def next (m : Phys) (t i : Nat) : Option Nat :=
  if m.entry t i &&& peFrameMask = 0 then none else some (m.entry t i &&& peFrameMask).toNat

/-- The table at the end of a way. -/
def tableAt (m : Phys) (top : Nat) (w : List Nat) : Option Nat := w.foldlM m.next top

variable {m : Phys} {top t n : Nat} {w : List Nat}

@[simp] theorem tableAt_nil : m.tableAt top [] = some top := rfl

theorem tableAt_append (w : List Nat) (i : Nat) :
    m.tableAt top (w ++ [i]) = (m.tableAt top w).bind (m.next · i) := by
  simp [tableAt, List.foldlM_append]

theorem tableAt_cons (i : Nat) (w : List Nat) :
    m.tableAt top (i :: w) = (m.next top i).bind (m.tableAt · w) := rfl

theorem made_cons {i : Nat} : m.made (i :: w) t = some n ↔
    (m.entry t i).present = true ∧ ∃ t', m.next t i = some t' ∧ m.made w t' = some n := by
  rw [made, next]
  by_cases h : m.entry t i &&& peFrameMask = 0 <;> simp [h, and_assoc]

theorem tableAt_of_made (h : m.made w t = some n) : m.tableAt t w = some n := by
  induction w generalizing t with
  | nil => exact h
  | cons i w ih =>
    obtain ⟨-, t', hnext, h⟩ := made_cons.mp h
    rw [tableAt_cons, hnext]
    exact ih h

end Phys

/-- The table at the end of a way from the top table. -/
def Boot.tableAt (b : Boot) (w : List Nat) : Option Nat := b.phys.tableAt b.pml4Addr w

theorem Boot.tableAt_append (b : Boot) (w : List Nat) (i : Nat) :
    b.tableAt (w ++ [i]) = (b.tableAt w).bind (b.phys.next · i) := Phys.tableAt_append w i

/-- Ways in use: with a way, each part of it. -/
structure Ways where
  used : List Nat → Prop
  closed : ∀ w i, used (w ++ [i]) → used w ∧ i < numEntries

theorem Ways.used_of_append (W : Ways) {w v : List Nat} (h : W.used (w ++ v)) : W.used w := by
  induction v using List.reverseRecOn with
  | nil => rwa [List.append_nil] at h
  | append_singleton v i ih =>
    rw [← List.append_assoc] at h
    exact ih (W.closed _ _ h).1

/-- The ways in use lead to different tables, away from the memory for new ones. -/
structure Tidy (W : Ways) (b : Boot) : Prop where
  own : ∀ {w w' t}, W.used w → W.used w' → b.tableAt w = some t → b.tableAt w' = some t → w = w'
  table : ∀ {w t}, W.used w → b.tableAt w = some t → t % pageSize = 0 ∧ t < 2 ^ 52 ∧
    (t + pageSize ≤ b.early.reservedPtr ∨ b.early.reservedEnd ≤ t)
  /-- the entries on the way are entries for tables -/
  link : ∀ {w i t}, W.used (w ++ [i]) → b.tableAt w = some t → (b.phys.entry t i).large = false
  ptr : 0 < b.early.reservedPtr ∧ b.early.reservedPtr % pageSize = 0 ∧
    b.early.reservedPtr ≤ b.early.reservedEnd ∧ b.early.reservedEnd ≤ 2 ^ 52

/-- `b'` has the tables of `b` and perhaps more. The entries that are there stay, and so do the
entries in `kept`. -/
structure Grown (W : Ways) (kept : List Nat → Nat → Prop) (b b' : Boot) : Prop where
  pml4 : b'.pml4Addr = b.pml4Addr
  vaPtr : b'.early.reservedVaPtr = b.early.reservedVaPtr
  tableAt : ∀ {w t}, W.used w → b.tableAt w = some t → b'.tableAt w = some t
  entry : ∀ {w t j}, W.used w → b.tableAt w = some t → j < numEntries →
    kept w j ∨ W.used (w ++ [j]) ∧ (b.phys.entry t j).present = true ∧ b.phys.next t j ≠ none →
    b'.phys.entry t j = b.phys.entry t j

section Grow

variable {W : Ways} {kept : List Nat → Nat → Prop} {b b' b'' : Boot} {w is : List Nat} {t n i : Nat}

theorem Grown.refl (b : Boot) : Grown W kept b b := ⟨rfl, rfl, fun _ h => h, fun _ _ _ _ => rfl⟩

theorem Grown.trans (h : Grown W kept b b') (h' : Grown W kept b' b'') : Grown W kept b b'' where
  pml4 := h'.pml4.trans h.pml4
  vaPtr := h'.vaPtr.trans h.vaPtr
  tableAt hw ht := h'.tableAt hw (h.tableAt hw ht)
  entry hw ht hj hk := by
    have hsame := h.entry hw ht hj hk
    rw [← hsame]
    refine h'.entry hw (h.tableAt hw ht) hj (hk.imp_right fun hk => ?_)
    rwa [hsame, Phys.next, hsame, ← Phys.next]

/-- A way whose entries are there stays. -/
theorem Grown.made (h : Grown W kept b b') (hw : W.used (w ++ is)) (ht : b.tableAt w = some t)
    (hm : b.phys.made is t = some n) : b'.phys.made is t = some n := by
  induction is generalizing w t with
  | nil => exact hm
  | cons i is ih =>
    obtain ⟨hpres, t', hnext, hm⟩ := Phys.made_cons.mp hm
    rw [List.append_cons] at hw
    have hwi := W.used_of_append hw
    obtain ⟨hused, hi⟩ := W.closed _ _ hwi
    have hsame := h.entry hused ht hi (.inr ⟨hwi, hpres, by rw [hnext]; nofun⟩)
    refine Phys.made_cons.mpr
      ⟨by rwa [hsame], t', by rwa [Phys.next, hsame, ← Phys.next], ih hw ?_ hm⟩
    rw [Boot.tableAt_append, ht]
    exact hnext

end Grow

/-! ## One round of the walk -/

section Round

variable {W : Ways} {kept : List Nat → Nat → Prop} {b b' : Boot} {w is : List Nat} {t n i : Nat}

/-- A table is apart from the page that the next allocation gives. -/
theorem Tidy.table_ne_new (h : Tidy W b) (hw : W.used w) (ht : b.tableAt w = some t)
    (hfit : b.early.reservedPtr + pageSize ≤ b.early.reservedEnd) : t ≠ b.early.reservedPtr := by
  obtain ⟨-, -, h1⟩ := h.table hw ht
  unfold pageSize at *
  omega

theorem earlyAllocPages_one {s s' : Early} {a : Nat} (hptr : s.reservedPtr ≤ s.reservedEnd)
    (hend : s.reservedEnd ≤ 2 ^ 52) (h : earlyAllocPages s 1 = .ok (a, s')) :
    a = s.reservedPtr ∧ s.reservedPtr + pageSize ≤ s.reservedEnd ∧
      s'.reservedPtr = s.reservedPtr + pageSize ∧ s'.reservedEnd = s.reservedEnd ∧
      s'.reservedVaPtr = s.reservedVaPtr := by
  have hsize : pagesToSize 1 = pageSize := rfl
  have hmod : (s.reservedPtr + pageSize) % word = s.reservedPtr + pageSize :=
    Nat.mod_eq_of_lt (by unfold word pageSize; omega)
  unfold earlyAllocPages at h
  simp only [hsize, hmod] at h
  obtain ⟨hle, h⟩ := guard_eq_ok.mp h
  cases h
  exact ⟨rfl, Nat.le_of_not_lt hle, rfl, rfl, rfl⟩

/-- What a write to one entry of the table at the end of `w` does to the entries on the ways in
use. -/
theorem Tidy.entry_set (h : Tidy W b) {w' : List Nat} {t' j : Nat} {e : Entry} (hw : W.used w)
    (ht : b.tableAt w = some t) (hi : i < numEntries) (hw' : W.used w')
    (ht' : b.tableAt w' = some t')
    (hj : j < numEntries) :
    (b.phys.set (t + 8 * i) e).entry t' j = if w' = w ∧ j = i then e else b.phys.entry t' j := by
  rw [Vm.entry_set (h.table hw ht).1 (h.table hw' ht').1 hi hj]
  refine if_congr ⟨fun hx => ⟨?_, hx.2⟩, fun hx => ⟨?_, hx.2⟩⟩ rfl rfl
  · exact h.own hw' hw ht' (hx.1 ▸ ht)
  · exact Option.some.inj (ht'.symm.trans (hx.1 ▸ ht))

/-- A write that does not change which table the entry names changes no way. -/
theorem Tidy.tableAt_set (h : Tidy W b) {e : Entry} (hw : W.used w) (ht : b.tableAt w = some t)
    (hi : i < numEntries)
    (hnext : W.used (w ++ [i]) → e &&& peFrameMask = b.phys.entry t i &&& peFrameMask)
    {w' : List Nat}
    (hw' : W.used w') :
    (b.phys.set (t + 8 * i) e).tableAt b.pml4Addr w' = b.tableAt w' := by
  induction w' using List.reverseRecOn with
  | nil => rfl
  | append_singleton u j ih =>
    obtain ⟨hu, hj⟩ := W.closed _ _ hw'
    rw [Phys.tableAt_append, ih hu, Boot.tableAt_append]
    cases ht' : b.tableAt u with
    | none => rfl
    | some t' =>
      rw [Option.bind_some, Option.bind_some, Phys.next, Phys.next,
        h.entry_set hw ht hi hu ht' hj]
      split
      next heq =>
        obtain ⟨rfl, rfl⟩ := heq
        cases ht.symm.trans ht'
        rw [hnext hw']
      next => rfl

/-- A write beside the ways, or one that makes an entry for the same table present. -/
theorem Tidy.set (h : Tidy W b) {e : Entry} (hw : W.used w) (ht : b.tableAt w = some t)
    (hi : i < numEntries) (hkept : ¬ kept w i)
    (he : W.used (w ++ [i]) → e &&& peFrameMask = b.phys.entry t i &&& peFrameMask ∧
      e.large = false ∧ (b.phys.entry t i).present = false) :
    Tidy W { b with phys := b.phys.set (t + 8 * i) e } ∧
      Grown W kept b { b with phys := b.phys.set (t + 8 * i) e } := by
  have hat : ∀ {w'}, W.used w' →
      Boot.tableAt { b with phys := b.phys.set (t + 8 * i) e } w' = b.tableAt w' :=
    fun hw' => h.tableAt_set hw ht hi (fun hx => (he hx).1) hw'
  refine ⟨⟨fun hw1 hw2 h1 h2 => ?_, fun hw1 h1 => ?_, fun {w' j t'} hw1 h1 => ?_, h.ptr⟩,
    ⟨rfl, rfl, fun hw1 h1 => (hat hw1).trans h1, fun {w' t' j} hw1 h1 hj hk => ?_⟩⟩
  · rw [hat hw1] at h1
    rw [hat hw2] at h2
    exact h.own hw1 hw2 h1 h2
  · rw [hat hw1] at h1
    exact h.table hw1 h1
  · obtain ⟨hw', hj⟩ := W.closed _ _ hw1
    rw [hat hw'] at h1
    show ((b.phys.set (t + 8 * i) e).entry t' j).large = false
    rw [h.entry_set hw ht hi hw' h1 hj]
    split
    next heq =>
      obtain ⟨rfl, rfl⟩ := heq
      exact (he hw1).2.1
    next => exact h.link hw1 h1
  · show (b.phys.set (t + 8 * i) e).entry t' j = _
    rw [h.entry_set hw ht hi hw1 h1 hj, if_neg]
    rintro ⟨rfl, rfl⟩
    cases ht.symm.trans h1
    rcases hk with hk | ⟨hused, hpres, -⟩
    · exact hkept hk
    · rw [(he hused).2.2] at hpres
      cases hpres

theorem tableEntry_large (e : Entry) : (tableEntry (e &&& peFrameMask)).large = false := by
  simp [Entry.large, tableEntry, peFrameMask, peWrite, pePresent]

theorem Tidy.tableEntry_new (h : Tidy W b) : tableEntry (BitVec.ofNat 64 b.early.reservedPtr) &&&
    peFrameMask ≠ 0 ∧
    (tableEntry (BitVec.ofNat 64 b.early.reservedPtr) &&& peFrameMask).toNat =
      b.early.reservedPtr := by
  obtain ⟨hpos, hal, hle, hend⟩ := h.ptr
  have hto : (BitVec.ofNat 64 b.early.reservedPtr).toNat = b.early.reservedPtr :=
    Nat.mod_eq_of_lt (by omega)
  rw [tableEntry_frame (ofNat_frame hal), hto]
  refine ⟨fun h0 => ?_, rfl⟩
  rw [h0] at hto
  exact hpos.ne hto

section New

/-- The state after a new table was linked in. -/
def Boot.link (b : Boot) (t i n : Nat) (early : Early) : Boot :=
  { b with phys := (b.phys.zeroPage n).set (t + 8 * i) (tableEntry (BitVec.ofNat 64 n)), early }

variable (h : Tidy W b) (hw : W.used (w ++ [i])) (ht : b.tableAt w = some t)
  (hnone : b.phys.next t i = none)
  (hfit : b.early.reservedPtr + pageSize ≤ b.early.reservedEnd) (early : Early)

include h hw ht hfit

theorem Tidy.entry_link {w' : List Nat} {t' j : Nat} (hw' : W.used w')
    (ht' : b.tableAt w' = some t')
    (hj : j < numEntries) :
    (b.link t i b.early.reservedPtr early).phys.entry t' j =
      if w' = w ∧ j = i then tableEntry (BitVec.ofNat 64 b.early.reservedPtr)
      else b.phys.entry t' j := by
  obtain ⟨hw, hi⟩ := W.closed _ _ hw
  refine (Vm.entry_set (h.table hw ht).1 (h.table hw' ht').1 hi hj).trans ?_
  rw [entry_zeroPage h.ptr.2.1 (h.table hw' ht').1 hj, if_neg (h.table_ne_new hw' ht' hfit)]
  refine if_congr ⟨fun hx => ⟨?_, hx.2⟩, fun hx => ⟨?_, hx.2⟩⟩ rfl rfl
  · exact h.own hw' hw ht' (hx.1 ▸ ht)
  · exact Option.some.inj (ht'.symm.trans (hx.1 ▸ ht))

/-- The new table is empty. -/
theorem Tidy.entry_new {j : Nat} (hj : j < numEntries) :
    (b.link t i b.early.reservedPtr early).phys.entry b.early.reservedPtr j = 0 := by
  obtain ⟨hw, hi⟩ := W.closed _ _ hw
  refine (Vm.entry_set (h.table hw ht).1 h.ptr.2.1 hi hj).trans ?_
  rw [if_neg fun hx => h.table_ne_new hw ht hfit hx.1.symm, entry_zeroPage h.ptr.2.1 h.ptr.2.1 hj,
    if_pos rfl]

include hnone

/-- One way gets longer, and the others stay. -/
theorem Tidy.tableAt_link {w' : List Nat} (hw' : W.used w') :
    (b.link t i b.early.reservedPtr early).tableAt w' =
      if w' = w ++ [i] then some b.early.reservedPtr else b.tableAt w' := by
  induction w' using List.reverseRecOn with
  | nil => simp [Boot.tableAt, Boot.link]
  | append_singleton u j ih =>
    obtain ⟨hu, hj⟩ := W.closed _ _ hw'
    rw [Boot.tableAt_append, ih hu, Boot.tableAt_append]
    split
    next hlong =>
      -- below the new table there is nothing, neither before nor after
      subst hlong
      have hne : w ++ [i] ++ [j] ≠ w ++ [i] := fun hx => by simpa using congrArg List.length hx
      rw [if_neg hne, Option.bind_some, Phys.next, h.entry_new hw ht hfit early hj,
        Boot.tableAt_append, ht,
        Option.bind_some, hnone]
      simp
    next =>
      cases ht' : b.tableAt u with
      | none =>
        have hne : u ++ [j] ≠ w ++ [i] := by
          intro heq
          obtain ⟨rfl, -⟩ := List.append_inj' heq rfl
          simp [ht] at ht'
        rw [if_neg hne]
        rfl
      | some t' =>
        rw [Option.bind_some, Option.bind_some, Phys.next, h.entry_link hw ht hfit early hu ht' hj]
        by_cases heq : u = w ∧ j = i
        · obtain ⟨rfl, rfl⟩ := heq
          obtain ⟨hne, hto⟩ := h.tableEntry_new
          rw [if_pos (⟨rfl, rfl⟩ : u = u ∧ j = j), if_neg hne, hto, if_pos rfl]
        · have hne : u ++ [j] ≠ w ++ [i] := by
            intro hx
            obtain ⟨rfl, hji⟩ := List.append_inj' hx rfl
            exact heq ⟨rfl, List.singleton_inj.mp hji⟩
          rw [if_neg heq, if_neg hne]
          rfl

theorem Tidy.new (hkept : ∀ w j, kept w j → ¬ W.used (w ++ [j]))
    (hptr : early.reservedPtr = b.early.reservedPtr + pageSize)
    (hend : early.reservedEnd = b.early.reservedEnd)
    (hva : early.reservedVaPtr = b.early.reservedVaPtr) :
    Tidy W (b.link t i b.early.reservedPtr early) ∧
      Grown W kept b (b.link t i b.early.reservedPtr early) := by
  have hat : ∀ {w'}, W.used w' → _ := fun hw' => h.tableAt_link hw ht hnone hfit early hw'
  have hold : ∀ {w' t'}, W.used w' → (b.link t i b.early.reservedPtr early).tableAt w' = some t' →
      w' = w ++ [i] ∧ t' = b.early.reservedPtr ∨ w' ≠ w ++ [i] ∧ b.tableAt w' = some t' := by
    intro w' t' hw' ht'
    rw [hat hw'] at ht'
    split at ht'
    next hx => exact .inl ⟨hx, (Option.some.inj ht').symm⟩
    next hx => exact .inr ⟨hx, ht'⟩
  obtain ⟨hpos, hal, hle, hmax⟩ := h.ptr
  refine ⟨⟨fun {w1 w2 t'} hw1 hw2 h1 h2 => ?_, fun {w1 t'} hw1 h1 => ?_,
    fun {w1 j t'} hw1 h1 => ?_, ?_⟩,
    ⟨rfl, hva, fun {w' t'} hw1 h1 => ?_, fun {w' t' j} hw1 h1 hj hk => ?_⟩⟩
  · rcases hold hw1 h1 with ⟨rfl, rfl⟩ | ⟨-, h1⟩ <;> rcases hold hw2 h2 with ⟨rfl, ht2⟩ | ⟨-, h2⟩
    · rfl
    · exact absurd rfl (h.table_ne_new hw2 h2 hfit)
    · exact absurd ht2 (h.table_ne_new hw1 h1 hfit)
    · exact h.own hw1 hw2 h1 h2
  · show _ ∧ _ ∧ (_ ≤ early.reservedPtr ∨ early.reservedEnd ≤ _)
    rw [hptr, hend]
    rcases hold hw1 h1 with ⟨-, rfl⟩ | ⟨-, h1⟩
    · exact ⟨hal, by unfold pageSize at hfit; omega, .inl le_rfl⟩
    · obtain ⟨h2, h3, h4⟩ := h.table hw1 h1
      exact ⟨h2, h3, h4.imp_left fun h4 => h4.trans (Nat.le_add_right _ _)⟩
  · obtain ⟨hw', hj⟩ := W.closed _ _ hw1
    rcases hold hw' h1 with ⟨-, rfl⟩ | ⟨-, h1⟩
    · rw [h.entry_new hw ht hfit early hj]
      rfl
    · rw [h.entry_link hw ht hfit early hw' h1 hj]
      split
      · rw [← ofNat_frame hal]
        exact tableEntry_large _
      · exact h.link hw1 h1
  · show 0 < early.reservedPtr ∧ early.reservedPtr % pageSize = 0 ∧
      early.reservedPtr ≤ early.reservedEnd ∧ early.reservedEnd ≤ 2 ^ 52
    rw [hptr, hend, Nat.add_mod_right]
    exact ⟨by omega, hal, hfit, hmax⟩
  · rw [hat hw1, if_neg, h1]
    rintro rfl
    rw [Boot.tableAt_append, ht, Option.bind_some, hnone] at h1
    cases h1
  · rw [h.entry_link hw ht hfit early hw1 h1 hj, if_neg]
    rintro ⟨rfl, rfl⟩
    cases ht.symm.trans h1
    rcases hk with hk | ⟨-, -, hk⟩
    · exact hkept _ _ hk hw
    · exact hk hnone

end New

/-- **One round of the walk makes the next entry of the way and leaves the other ways.** -/
theorem Tidy.round (h : Tidy W b) (hw : W.used (w ++ [i])) (ht : b.tableAt w = some t)
    (hkept : ∀ w j, kept w j → ¬ W.used (w ++ [j])) (hrun : earlyTable t i b = .ok (n, b')) :
    Tidy W b' ∧ Grown W kept b b' ∧ (b'.phys.entry t i).present = true ∧
      b'.phys.next t i = some n := by
  obtain ⟨hused, hi⟩ := W.closed _ _ hw
  unfold earlyTable at hrun
  dsimp only at hrun
  split at hrun
  next hzero =>
    obtain ⟨⟨new, early⟩, halloc, hrun⟩ := bind_ok hrun
    cases hrun
    have halloc : earlyAllocPages b.early 1 = .ok (new, early) := by
      cases hx : earlyAllocPages b.early 1 with
      | error e => rw [hx] at halloc; cases halloc
      | ok r => rw [hx] at halloc; exact congrArg Except.ok (Except.ok.inj halloc)
    obtain ⟨rfl, hfit, hptr, hend, hva⟩ := earlyAllocPages_one h.ptr.2.2.1 h.ptr.2.2.2 halloc
    obtain ⟨htidy, hgrown⟩ := h.new hw ht (if_pos hzero) hfit early hkept hptr hend hva
    obtain ⟨hne, hto⟩ := h.tableEntry_new
    have hentry := h.entry_link hw ht hfit early hused ht hi
    rw [if_pos ⟨rfl, rfl⟩] at hentry
    refine ⟨htidy, hgrown, ?_, ?_⟩
    · show ((b.link t i b.early.reservedPtr early).phys.entry t i).present = true
      rw [hentry]
      exact tableEntry_present _
    · show (b.link t i b.early.reservedPtr early).phys.next t i = _
      rw [Phys.next, hentry, if_neg hne, hto]
  next hframe =>
    split at hrun
    next hpres =>
      cases hrun
      have hkeep := tableEntry_frame (e := b.phys.entry t i &&& peFrameMask)
        (by rw [BitVec.and_assoc, BitVec.and_self])
      obtain ⟨htidy, hgrown⟩ := h.set hused ht hi (show ¬ kept _ _ from fun hk => hkept _ _ hk hw)
        (e := tableEntry (b.phys.entry t i &&& peFrameMask))
        fun _ => ⟨hkeep, tableEntry_large _, by simpa using hpres⟩
      have hentry := h.entry_set (e := tableEntry (b.phys.entry t i &&& peFrameMask)) hused ht hi
        hused ht hi
      rw [if_pos ⟨rfl, rfl⟩] at hentry
      refine ⟨htidy, hgrown, ?_, ?_⟩
      · show (Phys.entry _ t i).present = true
        rw [hentry]
        exact tableEntry_present _
      · show Phys.next _ t i = _
        rw [Phys.next, hentry, hkeep, if_neg hframe]
    next hpres =>
      cases hrun
      exact ⟨h, .refl b, not_not.mp hpres, if_neg hframe⟩

/-- **The walk makes the way, and leaves the other ways.** -/
theorem Tidy.walk (h : Tidy W b) (hw : W.used (w ++ is)) (ht : b.tableAt w = some t)
    (hkept : ∀ w j, kept w j → ¬ W.used (w ++ [j])) (hrun : earlyWalk is t b = .ok (n, b')) :
    Tidy W b' ∧ Grown W kept b b' ∧ b'.phys.made is t = some n := by
  induction is generalizing w t b with
  | nil =>
    cases hrun
    exact ⟨h, .refl _, rfl⟩
  | cons i is ih =>
    obtain ⟨⟨t1, b1⟩, hstep, hrun⟩ := bind_ok hrun
    rw [List.append_cons] at hw
    have hwi := W.used_of_append hw
    obtain ⟨hused, hi⟩ := W.closed _ _ hwi
    obtain ⟨htidy, hgrown, hpres, hnext⟩ := h.round hwi ht hkept hstep
    have ht1 : b1.tableAt (w ++ [i]) = some t1 := by
      rw [Boot.tableAt_append, hgrown.tableAt hused ht]
      exact hnext
    obtain ⟨htidy', hgrown', hmade⟩ := ih htidy hw ht1 hrun
    have hsame := hgrown'.entry hused (hgrown.tableAt hused ht) hi
      (.inr ⟨hwi, hpres, by rw [hnext]; nofun⟩)
    refine ⟨htidy', hgrown.trans hgrown', Phys.made_cons.mpr ⟨by rwa [hsame], t1, ?_, hmade⟩⟩
    rwa [Phys.next, hsame, ← Phys.next]

end Round

end Osdev.Vm
