import Osdev.EarlyMem.Model
import Osdev.Vm.PageTable

/-!
# Early mappings (`early_map_entry` and `early_map_entries` of `kernel/mm/pgtable.c`)

While the identity mapping of the boot loader is in effect, the kernel reaches a table under its
physical address. `early_map_entries` walks to a table once and then fills it entry by entry. This
is the same as a walk for each page as long as the entry of a page does not change the way to the
table (`earlyMapEntries_eq_mapEach`). The tables of the boot loader map the first 4 GB with large
pages, which the walk takes for tables, so that it can come back to a table it has passed.
-/

namespace Osdev.Vm

open Osdev.Lib
open Osdev.EarlyMem (Early earlyAllocPages)

/-! ## The functions -/

/-- The tables of the boot loader, and the memory that new tables come from. -/
structure Boot where
  phys : Phys
  /-- `boot_info_v2->pml4_addr` -/
  pml4Addr : Nat
  early : Early

/-- The size of the pages of a mapping. -/
def stride (vmFlags : Flags) : Nat := 2 ^ (mapLevel vmFlags).shift

/-- The entry for a page. -/
def pageEntry (pa : Nat) (vmFlags : Flags) : Entry :=
  BitVec.ofNat 64 pa ||| (vmFlagsToPeFlags vmFlags).setWidth 64

/-- The entry for a table. -/
def tableEntry (table : Entry) : Entry := table ||| (peWrite ||| pePresent)

/-- One round of the walk in `early_map_entry`: the next table, which may be a new one. -/
def earlyTable (table i : Nat) (b : Boot) : Except Fault (Nat × Boot) :=
  let next := b.phys.entry table i &&& peFrameMask
  if next = 0 then do
    let (new, early) ← (earlyAllocPages b.early 1).mapError fun _ => .panic
    .ok (new, { b with
      phys := (b.phys.zeroPage new).set (table + 8 * i) (tableEntry (BitVec.ofNat 64 new))
      early })
  else if ¬ (b.phys.entry table i).present then
    .ok (next.toNat, { b with phys := b.phys.set (table + 8 * i) (tableEntry next) })
  else .ok (next.toNat, b)

/-- The walk in `early_map_entry`, by the indices on the way. -/
def earlyWalk : List Nat → Nat → Boot → Except Fault (Nat × Boot)
  | [], table, b => .ok (table, b)
  | i :: is, table, b => do
    let (next, b) ← earlyTable table i b
    earlyWalk is next b

/-- The indices above the level of a mapping. -/
def upper (va : Nat) (level : PgLevel) : List Nat := level.above.map (indexForPgLevel va)

/-- The alignment that both functions ask for. -/
def EarlyAligned (vmFlags : Flags) (a : Nat) : Prop := a % pageSize = 0 ∧
    largeAligned a vmFlags = true

instance (vmFlags : Flags) (a : Nat) : Decidable (EarlyAligned vmFlags a) :=
  inferInstanceAs (Decidable (_ ∧ _))

/-- `early_map_entry`: the address of the entry. -/
def earlyMapEntry (vmFlags : Flags) (va pa : Nat) (b : Boot) : Except Fault (Nat × Boot) :=
  if ¬ (EarlyAligned vmFlags va ∧ EarlyAligned vmFlags pa) then .error .assertion
  else do
    let (table, b) ← earlyWalk (upper va (mapLevel vmFlags)) b.pml4Addr b
    let slot := table + 8 * indexForPgLevel va (mapLevel vmFlags)
    .ok (slot, { b with phys := b.phys.set slot (pageEntry pa vmFlags) })

/-- The two loops of `early_map_entries` for `count` pages: the inner one is at index `i` of its
table and at the address `slot`, and has come to its end for `i = 512`. -/
def earlyMapLoop (vmFlags : Flags) : Nat → Nat → Nat → Nat → Nat → Boot → Except Fault Boot
  | 0, _, _, _, _, b => .ok b
  | count + 1, i, slot, va, pa, b =>
    if i < numEntries then
      earlyMapLoop vmFlags count (i + 1) (slot + 8) (addWord va (stride vmFlags))
        (addWord pa (stride vmFlags)) { b with phys := b.phys.set slot (pageEntry pa vmFlags) }
    else do
      let (slot, b) ← earlyMapEntry vmFlags va pa b
      earlyMapLoop vmFlags count (indexForPgLevel va (mapLevel vmFlags) + 1) (slot + 8)
        (addWord va (stride vmFlags)) (addWord pa (stride vmFlags)) b

/-- `early_map_entries`. -/
def earlyMapEntries (vmFlags : Flags) (va pa count : Nat) (b : Boot) : Except Fault (Nat × Boot) :=
  if ¬ (EarlyAligned vmFlags va ∧ EarlyAligned vmFlags pa) ∨ count = 0 then .error .assertion
  else (va, ·) <$> earlyMapLoop vmFlags count numEntries 0 va pa b

/-- `early_map_entry` for each of `count` pages. -/
def mapEach (vmFlags : Flags) : Nat → Nat → Nat → Boot → Except Fault Boot
  | 0, _, _, b => .ok b
  | count + 1, va, pa, b => do
    let (_, b) ← earlyMapEntry vmFlags va pa b
    mapEach vmFlags count (addWord va (stride vmFlags)) (addWord pa (stride vmFlags)) b

/-! ## The tables of the boot loader -/

/-- `SetupKernelPageTables` of `boot/Memory.c`: entry `i` of table number `table`, when the tables
are at `pages` and the kernel is at `kernelVirt`. Entry `n` of the two last tables is `kernel n`. -/
def bootEntry (pages kernelVirt : Nat) (kernel : Nat → Entry) (table i : Nat) : Entry :=
  let link (n : Nat) := BitVec.ofNat 64 (pages + n * pageSize) ||| (peWrite ||| pePresent)
  let large (a : Nat) := BitVec.ofNat 64 a ||| (peSize ||| peWrite ||| pePresent)
  match table with
  | 0 => if i = indexForPgLevel kernelVirt .pml4 then link 4 else if i = 0 then link 1 else 0
  | 1 => if i = 0 then link 2 else if i < 4 then large (i * 2 ^ 30) else 0
  | 2 => if i = 0 then link 3 else large (i * 2 ^ 21)
  | 3 => if i = 0 then 0 else BitVec.ofNat 64 (i * 2 ^ 12) ||| (peWrite ||| pePresent)
  | 4 => if i = indexForPgLevel kernelVirt .pdp then link 5 else 0
  | 5 =>
    let first := indexForPgLevel kernelVirt .pd
    if i = first then link 6 else if i = first + 1 then link 7 else 0
  | 6 => kernel i
  | 7 => kernel (numEntries + i)
  | _ => 0

/-- The memory with the tables of the boot loader in it. -/
def setupKernelPageTables (pages kernelVirt : Nat) (kernel : Nat → Entry) : Phys := fun a =>
  if pages ≤ a then
    bootEntry pages kernelVirt kernel ((a - pages) / pageSize) ((a - pages) % pageSize / 8)
  else 0

/-! ## One walk for many entries -/

/-- Where the entries along `is` lead from `table`, if all of them are there. -/
def Phys.made (m : Phys) : List Nat → Nat → Option Nat
  | [], table => some table
  | i :: is, table =>
    let e := m.entry table i
    if e.present ∧ e &&& peFrameMask ≠ 0 then m.made is (e &&& peFrameMask).toNat else none

/-- The way to the table of the page is still there: it leads to the entry at `slot`. -/
def Boot.leadsTo (b : Boot) (vmFlags : Flags) (va slot : Nat) : Bool :=
  (b.phys.made (upper va (mapLevel vmFlags)) b.pml4Addr).any fun table =>
    slot = table + 8 * indexForPgLevel va (mapLevel vmFlags)

/-- What is written for one of `count` pages does not change the way of the walk for the next page,
if this page has its entry in the same table. -/
def waysKept (vmFlags : Flags) : Nat → Nat → Nat → Boot → Bool
  | 0, _, _, _ => true
  | count + 1, va, pa, b =>
    match earlyMapEntry vmFlags va pa b with
    | .ok (slot, b) =>
      (count = 0 || indexForPgLevel va (mapLevel vmFlags) + 1 = numEntries ||
        b.leadsTo vmFlags va slot) &&
      waysKept vmFlags count (addWord va (stride vmFlags)) (addWord pa (stride vmFlags)) b
    | .error _ => true

section Batch

variable {vmFlags : Flags} {b b' : Boot} {va pa count slot i t n : Nat} {is : List Nat}

/-- A walk along entries that are there changes nothing. -/
theorem earlyWalk_made (h : b.phys.made is t = some n) : earlyWalk is t b = .ok (n, b) := by
  induction is generalizing t with
  | nil => rw [← Option.some.inj h]; rfl
  | cons i is ih =>
    obtain ⟨⟨hpres, hne⟩, h⟩ := Option.ite_none_right_eq_some.mp h
    rw [earlyWalk, earlyTable, if_neg hne, if_neg (not_not.mpr hpres)]
    exact ih h

/-- The next page has the next entry of the same table. -/
theorem upper_next (level : PgLevel) (hva : va < word) (hal : va % 2 ^ level.shift = 0)
    (hi : indexForPgLevel va level + 1 < numEntries) :
    indexForPgLevel (addWord va (2 ^ level.shift)) level = indexForPgLevel va level + 1 ∧
      upper (addWord va (2 ^ level.shift)) level = upper va level := by
  cases level <;>
    simp only [indexForPgLevel, upper, PgLevel.above, PgLevel.shift, PgLevel.toNat, List.map,
      addWord, word, numEntries, List.cons.injEq, and_true, Nat.reduceMul, Nat.reduceAdd,
      Nat.reducePow] at * <;>
    omega

theorem earlyAligned_iff : EarlyAligned vmFlags va ↔ va % stride vmFlags = 0 := by
  unfold EarlyAligned largeAligned stride mapLevel pageSize
  split_ifs <;>
    simp only [isAligned_two_pow, decide_eq_true_eq, and_true, PgLevel.shift, PgLevel.toNat] <;>
    omega

theorem EarlyAligned.next (h : EarlyAligned vmFlags va) :
    EarlyAligned vmFlags (addWord va (stride vmFlags)) := by
  rw [earlyAligned_iff] at h ⊢
  have hdvd : stride vmFlags ∣ word := Nat.pow_dvd_pow 2 (by cases mapLevel vmFlags <;> decide)
  rw [addWord, Nat.mod_mod_of_dvd _ hdvd, Nat.add_mod_right, h]

theorem earlyMapEntry_ok {r : Nat × Boot} (hrun : earlyMapEntry vmFlags va pa b = .ok r) :
    EarlyAligned vmFlags va ∧ EarlyAligned vmFlags pa :=
  not_not.mp (guard_eq_ok.mp hrun).1

/-- Where the way to the table is there, the entry is written in it. -/
theorem earlyMapEntry_made (hva : EarlyAligned vmFlags va) (hpa : EarlyAligned vmFlags pa)
    (h : b.phys.made (upper va (mapLevel vmFlags)) b.pml4Addr = some t) :
    earlyMapEntry vmFlags va pa b = .ok (t + 8 * indexForPgLevel va (mapLevel vmFlags), { b with
      phys := b.phys.set (t + 8 * indexForPgLevel va (mapLevel vmFlags))
        (pageEntry pa vmFlags) }) := by
  rw [earlyMapEntry, if_neg (not_not.mpr ⟨hva, hpa⟩), earlyWalk_made h]
  rfl

/-- The induction is on the number of pages. Inside a table the walk for the next page finds the way
that the last page has left. -/
theorem earlyMapLoop_eq (h : waysKept vmFlags count va pa b = true) (hva : va < word)
    (hin : 0 < count → i < numEntries → i = indexForPgLevel va (mapLevel vmFlags) ∧
      EarlyAligned vmFlags va ∧ EarlyAligned vmFlags pa ∧ ∃ t, slot = t + 8 * i ∧
        b.phys.made (upper va (mapLevel vmFlags)) b.pml4Addr = some t) :
    earlyMapLoop vmFlags count i slot va pa b = mapEach vmFlags count va pa b := by
  induction count generalizing i slot va pa b with
  | zero => rfl
  | succ count ih =>
    -- after the entry for `va`, the inner loop is where it should be
    have hnext : ∀ r, earlyMapEntry vmFlags va pa b = .ok r →
        earlyMapLoop vmFlags count (indexForPgLevel va (mapLevel vmFlags) + 1) (r.1 + 8)
          (addWord va (stride vmFlags)) (addWord pa (stride vmFlags)) r.2 =
        mapEach vmFlags count (addWord va (stride vmFlags)) (addWord pa (stride vmFlags)) r.2 := by
      intro r hr
      obtain ⟨hal, hpa⟩ := earlyMapEntry_ok hr
      rw [waysKept, hr, Bool.and_eq_true] at h
      refine ih h.2 (Nat.mod_lt _ (by decide)) fun hpos hi => ?_
      obtain ⟨hidx, hup⟩ := upper_next _ hva (earlyAligned_iff.mp hal) hi
      have hleads : r.2.leadsTo vmFlags va r.1 = true := by
        simpa [hpos.ne', Nat.ne_of_lt hi] using h.1
      obtain ⟨t, ht, hslot⟩ := (Option.any_eq_true _ _).mp hleads
      have hslot := of_decide_eq_true hslot
      exact ⟨hidx.symm, hal.next, hpa.next, t, by omega, by rwa [stride, hup]⟩
    rw [earlyMapLoop, mapEach]
    split
    next hi =>
      obtain ⟨rfl, hal, hpa, t, rfl, hmade⟩ := hin (Nat.succ_pos _) hi
      have hentry := earlyMapEntry_made hal hpa hmade
      rw [hentry]
      exact hnext _ hentry
    next hi =>
      cases hentry : earlyMapEntry vmFlags va pa b with
      | error e => rfl
      | ok r => exact hnext r hentry

/-- **Mapping many pages at once is mapping them one by one**, if what is written for a page does
not change the way of the walk for the next one. -/
theorem earlyMapEntries_eq_mapEach (h : waysKept vmFlags count va pa b = true) (hva : va < word)
    (hcount : 0 < count) :
    Prod.snd <$> earlyMapEntries vmFlags va pa count b = mapEach vmFlags count va pa b := by
  unfold earlyMapEntries
  by_cases hal : EarlyAligned vmFlags va ∧ EarlyAligned vmFlags pa
  · rw [if_neg (not_or.mpr ⟨not_not.mpr hal, hcount.ne'⟩),
      earlyMapLoop_eq h hva fun _ hi => absurd hi (Nat.lt_irrefl _)]
    cases mapEach vmFlags count va pa b <;> rfl
  · obtain ⟨n, rfl⟩ : ∃ n, count = n + 1 := ⟨count - 1, by omega⟩
    rw [if_pos (.inl hal), mapEach, earlyMapEntry, if_pos hal]
    rfl

/-- The tables of the boot loader at `pages`, for a kernel at 1 MB, and memory for new tables. -/
def bootAt (pages : Nat) : Boot where
  phys := setupKernelPageTables pages 0xFFFF800000100000 fun _ => 0
  pml4Addr := pages
  early := ⟨[], 0, 0x1000000, 0x2000000, 0x1000000, EarlyMem.kernelReservedVa, 0, [], []⟩

/-- Two pages on each side of a table boundary, where no table is yet. -/
theorem earlyMapEntries_eq_mapEach_boundary :
    Prod.snd <$> earlyMapEntries vmWrite 0xFFFFFF80005FE000 0x5000 4 (bootAt 0x100000) =
      mapEach vmWrite 4 0xFFFFFF80005FE000 0x5000 (bootAt 0x100000) :=
  earlyMapEntries_eq_mapEach (by rfl) (by decide) (by decide)

/-- If the tables start at 2 MB, the walk for an address there takes the large page that maps them
for the last table, and so comes to the top table again. The entry for the first page takes away the
way for the second one. -/
theorem earlyMapEntries_ne_mapEach :
    (earlyMapEntries vmWrite 0x200000 0x5000 2 (bootAt 0x200000)).toOption.map
        (·.2.phys (0x200000 + 8)) = some (pageEntry 0x6000 vmWrite) ∧
      (mapEach vmWrite 2 0x200000 0x5000 (bootAt 0x200000)).toOption.map
        (·.phys (0x200000 + 8)) = some 0 := by
  decide +kernel

end Batch

end Osdev.Vm
