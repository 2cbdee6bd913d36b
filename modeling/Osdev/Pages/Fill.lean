import Osdev.Lib.Bytes
import Osdev.Pages.Linked

/-!
# Filling pages that are not mapped (`kernel/mm/pgtable.c`)

`fill_unmapped_pages` sets a part of a page list to one byte. It reaches each frame through a
temporary window, so it writes to the frame itself, whatever the flags of the page say.
-/

namespace Osdev.Pages

open Osdev.Lib

/-- `fill_unmapped_page`. -/
def fillUnmappedPage (s : Store) (page : Nat) (v : UInt8) (off len : Nat) (m : Lib.Mem) :
    Except Fault Lib.Mem :=
  if pageSize < addWord off len then .error .assertion
  else do
    let x ← s.deref page
    .ok (m.fill (x.address + off) len v)

/-- The first loop of `fill_unmapped_pages`: it gets to the page for the offset. -/
def fillSkip (s : Store) : Nat → Nat → Nat → Except Fault (Nat × Nat)
  | 0, _, _ => .error .diverged
  | fuel + 1, page, off =>
    if page = 0 ∨ off < pageSize then .ok (page, off)
    else do
      let x ← s.deref page
      fillSkip s fuel x.next (off - pageSize)

/-- The second loop of `fill_unmapped_pages`. -/
def fillLoop (s : Store) (v : UInt8) : Nat → Nat → Nat → Nat → Lib.Mem → Except Fault Lib.Mem
  | 0, _, _, _, _ => .error .diverged
  | fuel + 1, page, off, len, m =>
    if page = 0 ∨ len = 0 then .ok m
    else do
      let m ← fillUnmappedPage s page v off (min (pageSize - off) len) m
      let x ← s.deref page
      fillLoop s v fuel x.next 0 (len - min (pageSize - off) len) m

/-- `fill_unmapped_pages`. -/
def fillUnmappedPages (s : Store) (pages : Nat) (v : UInt8) (off len : Nat) (m : Lib.Mem) :
    Except Fault Lib.Mem := do
  let x ← s.deref pages
  if x.size ≠ pageSize then .error .assertion
  else if x.head then
    if pagesToSize x.count < addWord off len then .error .assertion
    else do
      let (page, off) ← fillSkip s (off + 1) pages off
      fillLoop s v (len + 1) page off len m
  else fillUnmappedPage s pages v off len m

variable {s : Store} {page page' off off' len fuel : Nat} {v : UInt8} {m m' : Lib.Mem}
  {l : List Entry}

theorem fillSkip_spec (hl : Linked s page l) (hs : fillSkip s fuel page off = .ok (page', off')) :
    ∃ k, Linked s page' (l.drop k) ∧ off = pageSize * k + off' ∧
      (l.drop k = [] ∨ off' < pageSize) := by
  induction fuel generalizing page off l with
  | zero => cases hs
  | succ fuel ih =>
    unfold fillSkip at hs
    split at hs
    next hstop =>
      cases hs
      refine ⟨0, hl, by omega, hstop.imp_left fun h0 => ?_⟩
      cases l with
      | nil => rfl
      | cons e l => exact absurd h0 hl.2.1
    next hgo =>
      obtain ⟨x, hx, hs⟩ := bind_ok hs
      obtain ⟨hp0, hx⟩ := deref_ok hx
      cases l with
      | nil => exact absurd hl hp0
      | cons e l =>
        obtain ⟨-, -, y, hy, -, -, hrest⟩ := hl
        cases hx.symm.trans hy
        obtain ⟨k, hk, heq, hend⟩ := ih hrest hs
        refine ⟨k + 1, hk, ?_, hend⟩
        rw [Nat.mul_succ]
        omega

/-- The second loop fills what is left, page by page. -/
theorem fillLoop_filled (hl : Linked s page l) (hoff : l = [] ∨ off < pageSize)
    (hs : fillLoop s v fuel page off len m = .ok m') :
    Paged.Filled pageSize (l.map Entry.frame) off len v m m' := by
  induction fuel generalizing page off len l m with
  | zero => cases hs
  | succ fuel ih =>
    unfold fillLoop at hs
    cases l with
    | nil =>
      rw [if_pos (.inl (linked_nil.mp hl))] at hs
      cases hs
      exact .nil _ _ _
    | cons e l =>
      obtain ⟨-, hp0, y, hy, haddr, -, hrest⟩ := hl
      split at hs
      next hstop =>
        obtain rfl := hstop.resolve_left hp0
        cases hs
        exact .zero _ _
      next hgo =>
        obtain ⟨m1, hm1, hs⟩ := bind_ok hs
        obtain ⟨x, hx, hs⟩ := bind_ok hs
        cases hy.symm.trans (deref_ok hx).2
        obtain ⟨-, hm1⟩ := guard_eq_ok.mp hm1
        obtain ⟨z, hz, hm1⟩ := bind_ok hm1
        cases hy.symm.trans (deref_ok hz).2
        cases hm1
        rw [haddr] at hs
        exact .cons (hoff.resolve_left (List.cons_ne_nil _ _)) (ih hrest (.inr (by decide)) hs)

/-- **`fill_unmapped_pages` fills a part of the flat array that the list stands for.** -/
theorem fillUnmappedPages_filled (hl : PageList s page l)
    (hs : fillUnmappedPages s page v off len m = .ok m') :
    Paged.Filled pageSize (l.map Entry.frame) off len v m m' := by
  obtain ⟨x, hx, hs⟩ := bind_ok hs
  have hne : l ≠ [] := by
    rintro rfl
    exact (deref_ok hx).1 (linked_nil.mp hl.linked)
  obtain ⟨y, hy, hhead, -⟩ := hl.head hne
  cases hy.symm.trans (deref_ok hx).2
  obtain ⟨-, hs⟩ := guard_eq_ok.mp hs
  rw [if_pos hhead] at hs
  obtain ⟨-, hs⟩ := guard_eq_ok.mp hs
  obtain ⟨⟨page1, off1⟩, hskip, hloop⟩ := bind_ok hs
  obtain ⟨k, hk, rfl, hend⟩ := fillSkip_spec hl.linked hskip
  have hfill := fillLoop_filled hk hend hloop
  rw [List.map_drop] at hfill
  exact hfill.of_drop (by decide)

theorem fillUnmappedPage_keep {a : Nat} (ha : m a = v)
    (hs : fillUnmappedPage s page v off len m = .ok m') : m' a = v := by
  obtain ⟨-, hs⟩ := guard_eq_ok.mp hs
  obtain ⟨x, -, hs⟩ := bind_ok hs
  cases hs
  rw [Lib.Mem.fill, ha, ite_self]

/-- A byte that has the value already keeps it. -/
theorem fillUnmappedPages_keep {a : Nat} (ha : m a = v)
    (hs : fillUnmappedPages s page v off len m = .ok m') : m' a = v := by
  have hloop {fuel page off len : Nat} {m : Lib.Mem} (ha : m a = v)
      (hs : fillLoop s v fuel page off len m = .ok m') : m' a = v := by
    induction fuel generalizing page off len m with
    | zero => cases hs
    | succ fuel ih =>
      unfold fillLoop at hs
      split at hs
      · cases hs
        exact ha
      · obtain ⟨m1, hm1, hs⟩ := bind_ok hs
        obtain ⟨x, -, hs⟩ := bind_ok hs
        exact ih (fillUnmappedPage_keep ha hm1) hs
  obtain ⟨x, -, hs⟩ := bind_ok hs
  obtain ⟨-, hs⟩ := guard_eq_ok.mp hs
  split at hs
  · obtain ⟨-, hs⟩ := guard_eq_ok.mp hs
    obtain ⟨⟨page1, off1⟩, -, hs⟩ := bind_ok hs
    exact hloop ha hs
  · exact fillUnmappedPage_keep ha hs

end Osdev.Pages
