import Osdev.Kio

/-!
# Access to pages that are not mapped (`kernel/mm/pgtable.c`)

`rw_unmapped_pages` moves data between a transfer and a list of pages through a temporary window,
one page at a time. A page list is given here by the addresses of its frames; all of them are 4K
pages, which is what the source asserts.
-/

namespace Osdev.Unmapped

open Osdev.Lib

/-- `rw_unmapped_page`: the return value, the transfer and the memory afterwards. -/
def rwUnmappedPage (page off : Nat) (kio : Kio) (m : Mem) : Except Kio.Fault (Nat × Kio × Mem) :=
  if pageSize ≤ off then .error .assertion
  else
    let len := min (pageSize - off) kio.remaining
    match kio.dir with
    | .write => do
      let (kio', n) ← kio.writeIn (m.load (page + off) len) 0
      .ok (n, kio', m)
    | .read => do
      let (bs, kio', n) ← kio.readOut len 0
      .ok (n, kio', m.store (page + off) bs)

/-- The first loop of `rw_unmapped_pages`: it finds the page that holds the offset. -/
def skipPages : List Nat → Nat → List Nat × Nat
  | [], off => ([], off)
  | page :: pages, off =>
    if pageSize ≤ off then skipPages pages (off - pageSize) else (page :: pages, off)

/-- The second loop of `rw_unmapped_pages`. -/
def rwLoop : List Nat → Nat → Kio → Mem → Nat → Except Kio.Fault (Nat × Kio × Mem)
  | [], _, kio, m, n => .ok (n, kio, m)
  | page :: pages, off, kio, m, n =>
    if kio.remaining = 0 then .ok (n, kio, m)
    else do
      let (k, kio', m') ← rwUnmappedPage page off kio m
      rwLoop pages 0 kio' m' (n + k)

/-- `rw_unmapped_pages`. -/
def rwUnmappedPages (pages : List Nat) (off : Nat) (kio : Kio) (m : Mem) :
    Except Kio.Fault (Nat × Kio × Mem) :=
  let (page, o) := skipPages pages off
  rwLoop page o kio m 0

/-! ## The page list as one array -/

variable {frames : List Nat} {m : Mem} {base : List UInt8}

theorem skipPages_eq (pages : List Nat) (off : Nat) (h : off ≤ pageSize * pages.length) :
    ∃ o, skipPages pages off = (pages.drop (off / pageSize), o) ∧
      (off < pageSize * pages.length → o = off % pageSize) := by
  induction pages generalizing off with
  | nil => exact ⟨off, by simp [skipPages], fun hlt => absurd hlt (by simp)⟩
  | cons page pages ih =>
    rw [List.length_cons, Nat.mul_succ] at h
    unfold skipPages
    split
    next hge =>
      obtain ⟨o, ho, hlt⟩ := ih (off - pageSize) (by omega)
      have hdiv : off / pageSize = (off - pageSize) / pageSize + 1 := by
        rw [← Nat.add_div_right _ (by decide), Nat.sub_add_cancel hge]
      refine ⟨o, by rw [ho, hdiv, List.drop_succ_cons], fun hoff => ?_⟩
      rw [List.length_cons, Nat.mul_succ] at hoff
      rw [hlt (by omega), Nat.mod_eq_sub_mod hge]
    next hlt =>
      refine ⟨off, ?_, fun _ => (Nat.mod_eq_of_lt (by omega)).symm⟩
      rw [Nat.div_eq_of_lt (by omega), List.drop_zero]

/-- One page takes as many bytes as fit into it. -/
theorem rwUnmappedPage_reading {page off d : Nat} (hoff : off < pageSize) (hd : d ≤ base.length)
    (hword : base.length < word) :
    rwUnmappedPage page off (Kio.reading base d) m =
      .ok (min (pageSize - off) (base.length - d),
        Kio.reading base (d + min (pageSize - off) (base.length - d)),
        m.store (page + off) ((base.drop d).take (pageSize - off))) := by
  rw [rwUnmappedPage, if_neg (by omega), Kio.remaining_reading hd hword]
  have htake : (base.drop d).take (min (pageSize - off) (base.length - d)) =
      (base.drop d).take (pageSize - off) := by
    rw [List.take_eq_take_iff, List.length_drop]
    omega
  have hread := Kio.readOut_reading hd hword (min (pageSize - off) (base.length - d))
  rw [htake, Nat.min_assoc, Nat.min_self] at hread
  simp only [Kio.reading] at hread ⊢
  rw [hread]
  rfl

/-- The loop writes what is left of the buffer from page `j` on. -/
theorem rwLoop_reading (hsep : Paged.Separate pageSize frames) (hword : base.length < word)
    (pages : List Nat) {j o d n : Nat} (hpages : frames.drop j = pages) (ho : o < pageSize)
    (hd : d ≤ base.length) (hj : j ≤ frames.length)
    (hfit : base.length = d ∨ pageSize * j + o + (base.length - d) ≤ pageSize * frames.length) :
    ∃ m', rwLoop pages o (Kio.reading base d) m n =
        .ok (n + (base.length - d), Kio.reading base base.length, m') ∧
      Paged.Patched pageSize frames (pageSize * j + o) (base.drop d) m m' := by
  induction pages generalizing j o d n m with
  | nil =>
    have hlen : frames.length ≤ j := List.drop_eq_nil_iff.mp hpages
    obtain rfl : j = frames.length := by omega
    obtain rfl : d = base.length := by omega
    refine ⟨m, by simp [rwLoop], ?_⟩
    rw [List.drop_length]
    exact .refl _ m
  | cons page pages ih =>
    have hpage : frames[j]? = some page := by
      rw [← List.head?_drop, hpages]
      rfl
    have hjlt : j < frames.length := (List.getElem?_eq_some_iff.mp hpage).1
    have hnext : frames.drop (j + 1) = pages := by
      rw [← List.tail_drop, hpages]
      rfl
    rw [rwLoop, Kio.remaining_reading hd hword]
    split
    next hz =>
      obtain rfl : d = base.length := by omega
      refine ⟨m, by simp, ?_⟩
      rw [List.drop_length]
      exact .refl _ m
    next hnz =>
      -- the bytes that go to this page, and the rest of them
      have hlen : ((base.drop d).take (pageSize - o)).length =
          min (pageSize - o) (base.length - d) := by
        rw [List.length_take, List.length_drop]
      have hstore : Paged.Patched pageSize frames (pageSize * j + o)
          ((base.drop d).take (pageSize - o)) m
          (m.store (page + o) ((base.drop d).take (pageSize - o))) :=
        .store hsep hpage (by omega) ho
      obtain ⟨m', hloop, hrest⟩ := ih
        (d := d + min (pageSize - o) (base.length - d)) hnext (by decide : 0 < pageSize) (by omega)
        hjlt (by rw [Nat.mul_succ]; omega)
      refine ⟨m', ?_, ?_⟩
      · rw [rwUnmappedPage_reading ho hd hword]
        simp only [bind, Except.bind]
        rw [hloop]
        congr 2
        omega
      · rw [← List.take_append_drop (pageSize - o) (base.drop d), List.drop_drop]
        refine hstore.append ?_
        by_cases hdone : base.length - d ≤ pageSize - o
        · have hnil : base.drop (d + (pageSize - o)) = [] := List.drop_eq_nil_iff.mpr (by omega)
          rw [List.drop_eq_nil_iff.mpr (by omega)] at hrest
          rw [hnil]
          exact hrest.nil_offset _
        · rw [Nat.min_eq_left (by omega)] at hrest
          rwa [hlen, Nat.min_eq_left (by omega),
            show pageSize * j + o + (pageSize - o) = pageSize * j + pageSize + 0 by omega]

/-- **Writing to a page list patches it like one array.** -/
theorem rwUnmappedPages_readable {off : Nat} (hsep : Paged.Separate pageSize frames)
    (hword : base.length < word) (hfit : off + base.length ≤ pageSize * frames.length) :
    ∃ m', rwUnmappedPages frames off (Kio.newReadable base) m =
        .ok (base.length, Kio.reading base base.length, m') ∧
      Paged.Patched pageSize frames off base m m' := by
  obtain ⟨o, hskip, ho⟩ := skipPages_eq frames off (by omega)
  rw [rwUnmappedPages, hskip, Kio.newReadable_eq]
  by_cases hlt : off < pageSize * frames.length
  · rw [ho hlt]
    have hdm : pageSize * (off / pageSize) + off % pageSize = off := Nat.div_add_mod off pageSize
    have hj : off / pageSize ≤ frames.length :=
      Nat.le_of_lt (Nat.div_lt_of_lt_mul hlt)
    have hloop := rwLoop_reading (m := m) (n := 0) hsep hword _ rfl
      (Nat.mod_lt off (by decide : 0 < pageSize)) (Nat.zero_le base.length) hj
      (.inr (by rw [hdm]; omega))
    rw [hdm] at hloop
    simpa using hloop
  · obtain rfl : base = [] := List.eq_nil_of_length_eq_zero (by omega)
    have hdrop : frames.drop (off / pageSize) = [] := by
      rw [List.drop_eq_nil_iff, Nat.le_div_iff_mul_le (by decide), Nat.mul_comm]
      omega
    rw [hdrop]
    exact ⟨m, rfl, .refl _ m⟩

end Osdev.Unmapped
