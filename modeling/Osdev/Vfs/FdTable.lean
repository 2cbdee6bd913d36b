import Mathlib.Data.Finset.Card
import Osdev.Bitmap.Spec
import Osdev.Lib.Run
import Osdev.Vfs.Mount

/-!
# Handing out descriptors

`ftable_alloc_fd` marks the first free bit of the table's bitmap, but `bitmap_get_set_free` leaves
the counters as they are, and `bitmap_clear` counts the bit when it is freed. So `free` runs ahead
by one with each allocation. `ftable_alloc_fd` fails when `free` is zero: in a long enough history
this is so while descriptors are free.
-/

namespace Osdev.Vfs

open Osdev.Lib Osdev.Bmp

/-! ## The bitmap of a table -/

/-- The bits are those of the descriptors in `taken`, and `free` has been left behind `allocs`
times. -/
structure Counts (b : Bitmap) (taken : Finset Nat) (allocs : Nat) : Prop where
  size : b.size = 128
  bit : ∀ k < ftableMaxFiles, b.bit k = decide (k ∈ taken)
  range : ∀ k ∈ taken, k < ftableMaxFiles
  total : addWord b.used b.free = ftableMaxFiles
  word : b.free < word
  count : addWord b.free taken.card = addWord ftableMaxFiles allocs

namespace Counts

variable {b b' : Bitmap} {taken : Finset Nat} {allocs k fd : Nat}

section

variable (h : Counts b taken allocs)

include h

theorem card_le : taken.card ≤ ftableMaxFiles := by
  have hsub : taken ⊆ Finset.range ftableMaxFiles := fun k hk => Finset.mem_range.mpr (h.range k hk)
  simpa using Finset.card_le_card hsub

theorem card_eq_iff :
    taken.card = ftableMaxFiles ↔ ∀ k < ftableMaxFiles, k ∈ taken := by
  have hsub : taken ⊆ Finset.range ftableMaxFiles := fun k hk => Finset.mem_range.mpr (h.range k hk)
  refine ⟨fun hcard k hk => ?_, fun hall => ?_⟩
  · rw [Finset.eq_of_subset_of_card_le hsub (by simp [hcard])]
    exact Finset.mem_range.mpr hk
  · rw [hsub.antisymm fun k hk => hall k (Finset.mem_range.mp hk), Finset.card_range]

theorem free_eq_zero_iff :
    b.free = 0 ↔ (ftableMaxFiles - taken.card + allocs) % Osdev.word = 0 := by
  have hcount := h.count
  have hword := h.word
  have hcard := h.card_le
  unfold addWord Osdev.word ftableMaxFiles at *
  omega

/-- A descriptor more. -/
theorem insert (hk : k < ftableMaxFiles) (hnot : k ∉ taken)
    (hbits : Marks b b' k 1) (htotal : addWord b'.used b'.free = ftableMaxFiles)
    (hword : b'.free < Osdev.word) {n : Nat}
    (hcount : addWord b'.free (taken.card + 1) = addWord ftableMaxFiles n) :
    Counts b' (Insert.insert k taken) n where
  size := hbits.size.trans h.size
  bit j hj := by
    rw [hbits.bit, h.bit j hj, ← Bool.decide_or]
    exact decide_eq_decide.mpr (by rw [Finset.mem_insert, or_comm]; exact or_congr_left (by omega))
  range j hj := (Finset.mem_insert.mp hj).elim (fun he => he ▸ hk) (h.range j)
  total := htotal
  word := hword
  count := by rw [Finset.card_insert_of_notMem hnot, hcount]

theorem index_lt (hfd : fd < ftableMaxFiles) : fd < addWord b.used b.free :=
  h.total ▸ hfd

theorem get (hfd : fd < ftableMaxFiles) :
    bitmapGet b fd = .ok (decide (fd ∈ taken)) := by
  rw [bitmapGet, if_pos (h.index_lt hfd), h.bit fd hfd]

theorem set (hfd : fd < ftableMaxFiles) (hnot : fd ∉ taken) :
    ∃ r b', bitmapSet b fd = .ok (r, b') ∧ Counts b' (Insert.insert fd taken) allocs := by
  have hrun : bitmapSet b fd = .ok (_, _) := if_pos (h.index_lt hfd)
  refine ⟨_, _, hrun, h.insert hfd hnot (bitmapSet_spec hrun).2 ?_ ?_ ?_⟩
  all_goals
    have htotal := h.total
    have hcount := h.count
    simp only [Bitmap.setWord, addWord, subWord, Osdev.word, ftableMaxFiles] at *
    omega

theorem clear (hfd : fd < ftableMaxFiles) :
    ∃ r b', bitmapClear b fd = .ok (r, b') ∧ Counts b' (taken.erase fd) allocs := by
  have hrun : bitmapClear b fd = .ok (_, _) := if_pos (h.index_lt hfd)
  refine ⟨_, _, hrun, (bitmapClear_spec hrun).size.trans h.size, fun k hk => ?_,
    fun k hk => h.range k (Finset.mem_of_mem_erase hk), ?_, ?_, ?_⟩
  · rw [bitmapClear_bit hrun, h.bit k hk, ← Bool.decide_and]
    exact decide_eq_decide.mpr (Finset.mem_erase.trans and_comm).symm
  all_goals
    have htotal := h.total
    have hcount := h.count
    rw [h.bit fd hfd]
    by_cases hmem : fd ∈ taken
    · have hpos := Finset.card_pos.mpr ⟨fd, hmem⟩
      simp only [Bitmap.setWord, hmem, decide_true, Bool.toNat_true, Finset.card_erase_of_mem hmem,
        addWord, subWord, Osdev.word, ftableMaxFiles] at *
      omega
    · simp only [Bitmap.setWord, hmem, decide_false, Bool.toNat_false,
        Finset.erase_eq_of_notMem hmem, addWord, subWord, Osdev.word, ftableMaxFiles] at *
      omega

end

/-- The search changes no counter. -/
theorem counters_getSetFreeLoop {n i : Nat} : (getSetFreeLoop b n i).2.free = b.free ∧
    (getSetFreeLoop b n i).2.used = b.used := by
  induction n generalizing i with
  | zero => exact ⟨rfl, rfl⟩
  | succ n ih =>
    unfold getSetFreeLoop
    dsimp only
    split_ifs
    · exact ih
    · exact ⟨rfl, rfl⟩
    · exact ⟨rfl, rfl⟩

/-- What `bitmap_get_set_free` does: nothing if `free` is zero or all bits are set. -/
theorem getSetFree (h : Counts b taken allocs) :
    (b.free = 0 ∨ ∀ k < ftableMaxFiles, k ∈ taken) ∧ bitmapGetSetFree b = (-1, b) ∨
      b.free ≠ 0 ∧ ∃ (k : Nat) (b' : Bitmap), bitmapGetSetFree b = ((k : Int), b') ∧
        k < ftableMaxFiles ∧
        k ∉ taken ∧ (∀ j < k, j ∈ taken) ∧ Counts b' (Insert.insert k taken) (allocs + 1) := by
  by_cases h0 : b.free = 0
  · exact .inl ⟨.inl h0, if_pos h0⟩
  have hrun : bitmapGetSetFree b = getSetFreeLoop b b.words 0 := if_neg h0
  have hfree : ∀ k < ftableMaxFiles, FreeRun b 1 k ↔ k ∉ taken := by
    intro k hk
    have hbit : (∀ j < 1, b.bit (k + j) = false) ↔ b.bit k = false := by simp
    rw [FreeRun, hbit, h.bit k hk, decide_eq_false_iff_not]
    exact and_iff_right (by omega)
  have hwords : 64 * (0 + b.words) = ftableMaxFiles := by
    rw [Bitmap.words, h.size]
    rfl
  have hsearch := getSetFreeLoop_spec (b := b) (k := b.words) (i := 0)
  have hcounters := counters_getSetFreeLoop (b := b) (n := b.words) (i := 0)
  rw [hwords, ← hrun] at hsearch
  rw [← hrun] at hcounters
  generalize bitmapGetSetFree b = r at *
  obtain ⟨r, b'⟩ := r
  rcases hsearch with ⟨rfl, rfl, hno⟩ | ⟨k, rfl, -, hk, hrunk, hfirst, hmarks⟩
  · exact .inl
      ⟨.inr fun k hk => not_not.mp fun hnot => hno k (by omega) hk ((hfree k hk).mpr hnot), rfl⟩
  · have hnot := (hfree k hk).mp hrunk
    refine .inr ⟨h0, k, b', rfl, hk, hnot, fun j hj => ?_, h.insert hk hnot hmarks ?_ ?_ ?_⟩
    · exact not_not.mp fun hn => hfirst j (by omega) hj ((hfree j (hj.trans hk)).mpr hn)
    · rw [hcounters.1, hcounters.2, h.total]
    · rw [hcounters.1]
      exact h.word
    · have hcount := h.count
      unfold addWord Osdev.word at *
      omega

end Counts

/-! ## Histories -/

/-- A state, the descriptors that are allocated in it, and the number of successful calls of
`ftable_alloc_fd` so far. -/
structure FdRun where
  fs : Fs
  taken : Finset Nat
  allocs : Nat

/-- The calls of a run. -/
inductive FdCall where
  | alloc
  | claim (fd : Nat)
  | free (fd : Nat)

/-- A call on the table `p`, with a descriptor in range. -/
def FdStep (p : Nat) (x : FdRun) (call : FdCall) (x' : FdRun) : Prop :=
  match call with
  | .alloc => ∃ fd s', ftableAllocFd p x.fs = .ok (fd, s') ∧
    x' = if 0 ≤ fd then ⟨s', insert fd.toNat x.taken, x.allocs + 1⟩ else { x with fs := s' }
  | .claim fd => fd < ftableMaxFiles ∧ ∃ r s', ftableClaimFd p fd x.fs = .ok (r, s') ∧
    x' = if 0 ≤ r then ⟨s', insert fd x.taken, x.allocs⟩ else { x with fs := s' }
  | .free fd => fd < ftableMaxFiles ∧ ∃ s', ftableFreeFd p fd x.fs = .ok ((), s') ∧
    x' = ⟨s', x.taken.erase fd, x.allocs⟩

/-- The table has just been made. -/
def NewTable (p : Nat) (x : FdRun) : Prop :=
  p ≠ 0 ∧ (∃ s, ftableAlloc s = .ok (p, x.fs)) ∧ x.taken = ∅ ∧ x.allocs = 0

/-- `ftable_alloc_fd` returns the least descriptor that is not allocated, or there is none. -/
def AllocRight (p : Nat) (x : FdRun) : Prop :=
  ∃ fd s', ftableAllocFd p x.fs = .ok (fd, s') ∧
    (fd = -1 ∧ (∀ k < ftableMaxFiles, k ∈ x.taken) ∨
      ∃ k : Nat, fd = k ∧ k < ftableMaxFiles ∧ k ∉ x.taken ∧ ∀ j < k, j ∈ x.taken)

/-- `ftable_claim_fd` succeeds exactly if the descriptor is not allocated. -/
def ClaimRight (p : Nat) (x : FdRun) : Prop :=
  ∀ fd < ftableMaxFiles, ∃ r s', ftableClaimFd p fd x.fs = .ok (r, s') ∧
    r = if fd ∈ x.taken then -1 else (fd : Int)

/-- The table is there, and its bitmap is the one of the history. -/
def Tracks (p : Nat) (x : FdRun) : Prop :=
  p ≠ 0 ∧ ∃ t, x.fs.ftable p = some t ∧ Counts t.bitmap x.taken x.allocs

section Runs

variable {p fd : Nat} {x x' : FdRun} {s : Fs} {t : Ftable} {call : FdCall}

/-- What a call leaves behind is the history's bitmap, in the table that was there. -/
theorem tracks_store (hp : p ≠ 0) {b : Bitmap} (hb : Counts b x.taken x.allocs)
    (hs : x.fs = { s with ftable := store s.ftable p (some { t with bitmap := b }) }) :
    Tracks p x :=
  ⟨hp, _, by rw [hs]; exact store_self _ _ _, hb⟩

theorem ftableAllocFd_run (hp : p ≠ 0) (ht : s.ftable p = some t) :
    ftableAllocFd p s = .ok ((bitmapGetSetFree t.bitmap).1, { s with
      ftable := store s.ftable p (some { t with bitmap := (bitmapGetSetFree t.bitmap).2 }) }) :=
  run_bind (deref_run hp ht) _

/-- A claim: refused, or entered in the bitmap. -/
theorem Tracks.claim (h : Tracks p x) (hfd : fd < ftableMaxFiles) :
    ∃ s', ftableClaimFd p fd x.fs = .ok (if fd ∈ x.taken then -1 else (fd : Int), s') ∧
      Tracks p
        (if fd ∈ x.taken then { x with fs := s' } else ⟨s', insert fd x.taken, x.allocs⟩) := by
  obtain ⟨hp, t, ht, hb⟩ := h
  have hderef : getFtable p x.fs = .ok (t, x.fs) := deref_run hp ht
  have hget : ofBitmap (bitmapGet t.bitmap fd) x.fs = .ok (decide (fd ∈ x.taken), x.fs) := by
    rw [hb.get hfd]
    rfl
  rw [ftableClaimFd, if_neg (by omega), run_bind (kassert_run (by simpa using hfd) _),
    run_bind hderef, Int.toNat_natCast, run_bind hget]
  by_cases hmem : fd ∈ x.taken
  · simp only [hmem, decide_true, if_true]
    exact ⟨x.fs, rfl, hp, t, ht, hb⟩
  · obtain ⟨r, b', hset, hb'⟩ := hb.set hfd hmem
    have hrun : ofBitmap (bitmapSet t.bitmap fd) x.fs = .ok ((r, b'), x.fs) := by rw [hset]; rfl
    simp only [hmem, decide_false, if_false, Bool.false_eq_true]
    rw [run_bind hrun]
    exact ⟨_, rfl, tracks_store hp hb' rfl⟩

theorem Tracks.free (h : Tracks p x) (hfd : fd < ftableMaxFiles) :
    ∃ s', ftableFreeFd p fd x.fs = .ok ((), s') ∧ Tracks p ⟨s', x.taken.erase fd, x.allocs⟩ := by
  obtain ⟨hp, t, ht, hb⟩ := h
  obtain ⟨r, b', hclear, hb'⟩ := hb.clear hfd
  have hderef : getFtable p x.fs = .ok (t, x.fs) := deref_run hp ht
  have hrun : ofBitmap (bitmapClear t.bitmap fd) x.fs = .ok ((r, b'), x.fs) := by rw [hclear]; rfl
  rw [ftableFreeFd, if_neg (by omega), run_bind (kassert_run (by simpa using hfd) _),
    run_bind hderef, Int.toNat_natCast, run_bind hrun]
  exact ⟨_, rfl, tracks_store hp hb' rfl⟩

/-- An allocation: the least descriptor that is not allocated, or nothing. -/
theorem Tracks.alloc (h : Tracks p x) :
    (((ftableMaxFiles - x.taken.card + x.allocs) % Osdev.word = 0 ∨ ∀ k < ftableMaxFiles,
        k ∈ x.taken) ∧
        ∃ s', ftableAllocFd p x.fs = .ok (-1, s') ∧ Tracks p { x with fs := s' }) ∨
      (ftableMaxFiles - x.taken.card + x.allocs) % Osdev.word ≠ 0 ∧
        ∃ (k : Nat) (s' : Fs), ftableAllocFd p x.fs = .ok ((k : Int), s') ∧ k < ftableMaxFiles ∧
          k ∉ x.taken ∧ (∀ j < k, j ∈ x.taken) ∧ Tracks p ⟨s', insert k x.taken, x.allocs + 1⟩ := by
  obtain ⟨hp, t, ht, hb⟩ := h
  rw [ne_eq, ← hb.free_eq_zero_iff, ftableAllocFd_run hp ht]
  rcases hb.getSetFree with ⟨hcase, hrun⟩ | ⟨h0, k, b', hrun, hk, hnot, hfirst, hb'⟩
  · rw [hrun]
    exact .inl ⟨hcase, _, rfl, tracks_store hp hb rfl⟩
  · rw [hrun]
    exact .inr ⟨h0, k, _, rfl, hk, hnot, hfirst, tracks_store hp hb' rfl⟩

theorem Tracks.step (h : Tracks p x) (hstep : FdStep p x call x') : Tracks p x' := by
  cases call with
  | alloc =>
    obtain ⟨fd, s', hrun, rfl⟩ := hstep
    rcases h.alloc with ⟨-, s'', hrun', h'⟩ | ⟨-, k, s'', hrun', -, -, -, h'⟩
    · cases hrun.symm.trans hrun'
      exact h'
    · cases hrun.symm.trans hrun'
      exact h'
  | claim fd =>
    obtain ⟨hfd, r, s', hrun, rfl⟩ := hstep
    obtain ⟨s'', hrun', h'⟩ := h.claim hfd
    cases hrun.symm.trans hrun'
    split at h'
    next hmem => simpa [hmem] using h'
    next hmem => simpa [hmem] using h'
  | free fd =>
    obtain ⟨hfd, s', hrun, rfl⟩ := hstep
    obtain ⟨s'', hrun', h'⟩ := h.free hfd
    cases hrun.symm.trans hrun'
    exact h'

theorem NewTable.tracks (h : NewTable p x) : Tracks p x := by
  obtain ⟨fs, taken, allocs⟩ := x
  obtain ⟨hp, ⟨s, hrun⟩, rfl, rfl⟩ := h
  cases hrun
  refine ⟨hp, _, store_self _ _ _, by decide, fun k hk => ?_, fun k hk => by simp at hk, by decide,
    by decide, rfl⟩
  show (zeroBytes (fun _ => 0) _ (k / 64)).getLsbD (k % 64) = _
  unfold zeroBytes
  split_ifs <;> simp [shl, shr]

theorem tracks_of_reach (h : Reach (NewTable p) (FdStep p) x) : Tracks p x :=
  h.invariant (fun _ hx => hx.tracks) fun _ _ _ hx hstep => hx.step hstep

theorem Tracks.claimRight (h : Tracks p x) : ClaimRight p x := fun fd hfd => by
  obtain ⟨s', hrun, -⟩ := h.claim hfd
  exact ⟨_, s', hrun, rfl⟩

theorem Tracks.allocRight_iff (h : Tracks p x) : AllocRight p x ↔
    x.taken.card = ftableMaxFiles ∨
      (ftableMaxFiles - x.taken.card + x.allocs) % Osdev.word ≠ 0 := by
  obtain ⟨-, t, -, hb⟩ := id h
  rw [hb.card_eq_iff]
  rcases h.alloc with ⟨hcase, s', hrun, -⟩ | ⟨h0, k, s', hrun, hk, hnot, hfirst, -⟩
  · constructor
    · rintro ⟨fd, s'', hrun', hright⟩
      cases hrun.symm.trans hrun'
      rcases hright with ⟨-, hall⟩ | ⟨k, hk, -⟩
      · exact .inl hall
      · omega
    · intro hright
      exact ⟨-1, s', hrun, .inl ⟨rfl, hright.elim id fun hne => hcase.resolve_left hne⟩⟩
  · exact iff_of_true ⟨k, s', hrun, .inr ⟨k, rfl, hk, hnot, hfirst⟩⟩ (.inr h0)

/-- **In every history, `ftable_claim_fd` is right, and `ftable_alloc_fd` is right unless the number
of free descriptors and the number of allocations add up to a multiple of `2 ^ 64`.** -/
theorem fdTable_right_iff (h : Reach (NewTable p) (FdStep p) x) : ClaimRight p x ∧
    (AllocRight p x ↔ x.taken.card = ftableMaxFiles ∨
      (ftableMaxFiles - x.taken.card + x.allocs) % word ≠ 0) :=
  ⟨(tracks_of_reach h).claimRight, (tracks_of_reach h).allocRight_iff⟩

/-- A history that begins with a new table. -/
def tableRun : FdRun where
  fs := { bareFs sumHash with
    ftable := store (fun _ => none) 1
      (some ⟨fun _ => 0, createBitmap (fun _ => 0) 0 ftableMaxFiles, 0⟩)
    brk := 2 }
  taken := ∅
  allocs := 0

theorem tableRun_new : NewTable 1 tableRun :=
  ⟨by decide, ⟨{ bareFs sumHash with brk := 1 }, rfl⟩, rfl, rfl⟩

/-- A descriptor can be allocated and freed, as long as the counter does not wrap to `0`. -/
theorem exists_round (h : Reach (NewTable p) (FdStep p) x)
    (hcount : (ftableMaxFiles - x.taken.card + x.allocs) % word ≠ 0)
    (hsome : ∃ j < ftableMaxFiles, j ∉ x.taken) :
    ∃ x', Reach (NewTable p) (FdStep p) x' ∧ x'.taken = x.taken ∧ x'.allocs = x.allocs + 1 := by
  rcases (tracks_of_reach h).alloc with ⟨hzero | hall, -⟩ | ⟨-, k, s', hrun, hk, hnot, -, h'⟩
  · exact absurd hzero hcount
  · obtain ⟨j, hj, hnot⟩ := hsome
    exact absurd (hall j hj) hnot
  · obtain ⟨s'', hfree, -⟩ := h'.free hk
    exact ⟨⟨s'', (insert k x.taken).erase k, x.allocs + 1⟩, .next (.free k) (.next .alloc h
      ⟨k, s', hrun, (if_pos (by omega)).symm⟩) ⟨hk, s'', hfree, rfl⟩, Finset.erase_insert hnot, rfl⟩

/-- A history with a claim, an allocation and a release. -/
theorem tableRun_right : ∃ x, Reach (NewTable 1) (FdStep 1) x ∧ x.taken = {2} ∧ x.allocs = 1 ∧
    ClaimRight 1 x ∧ AllocRight 1 x := by
  have h₀ : Reach (NewTable 1) (FdStep 1) tableRun := .start tableRun_new
  have hnot : 2 ∉ tableRun.taken := Finset.notMem_empty 2
  obtain ⟨s₁, hclaim, -⟩ := (tracks_of_reach h₀).claim (show 2 < ftableMaxFiles by decide)
  rw [if_neg hnot] at hclaim
  have h₁ : Reach (NewTable 1) (FdStep 1) ⟨s₁, {2}, 0⟩ :=
    .next (.claim 2) h₀ ⟨by decide, _, s₁, hclaim, (if_pos (by decide)).symm⟩
  obtain ⟨x, h, htaken, hallocs⟩ := exists_round h₁
    (show (ftableMaxFiles - ({2} : Finset Nat).card + 0) % word ≠ 0 by decide)
    ⟨0, by decide, show 0 ∉ ({2} : Finset Nat) by decide⟩
  obtain ⟨hclaim, halloc⟩ := fdTable_right_iff h
  refine ⟨x, h, htaken, hallocs, hclaim, halloc.mpr (.inr ?_)⟩
  rw [htaken, hallocs]
  show (ftableMaxFiles - ({2} : Finset Nat).card + 1) % word ≠ 0
  decide

/-- Descriptor `0` can be allocated and freed, again and again. -/
theorem reach_rounds {n : Nat} (hn : n ≤ word - ftableMaxFiles) :
    ∃ x, Reach (NewTable 1) (FdStep 1) x ∧ x.taken = ∅ ∧ x.allocs = n := by
  induction n with
  | zero => exact ⟨tableRun, .start tableRun_new, rfl, rfl⟩
  | succ n ih =>
    obtain ⟨x, hx, htaken, hallocs⟩ := ih (by omega)
    obtain ⟨x', hx', htaken', hallocs'⟩ := exists_round hx
      (by
        rw [htaken, hallocs]
        simp only [Finset.card_empty, word, ftableMaxFiles] at hn ⊢
        omega)
      ⟨0, by decide, by simp [htaken]⟩
    exact ⟨x', hx', htaken'.trans htaken, by rw [hallocs', hallocs]⟩

/-- **After `2 ^ 64 - 1024` rounds no descriptor is allocated, and `ftable_alloc_fd` fails.** -/
theorem reach_alloc_fails : ∃ x, Reach (NewTable 1) (FdStep 1) x ∧ x.taken = ∅ ∧
    (∃ s', ftableAllocFd 1 x.fs = .ok (-1, s')) ∧ ¬ AllocRight 1 x := by
  obtain ⟨x, hx, htaken, hallocs⟩ := reach_rounds le_rfl
  have htracks := tracks_of_reach hx
  have hzero : (ftableMaxFiles - x.taken.card + x.allocs) % word = 0 := by
    rw [htaken, hallocs]
    decide
  refine ⟨x, hx, htaken, ?_, fun hright => ?_⟩
  · rcases htracks.alloc with ⟨-, s', hrun, -⟩ | ⟨hne, -⟩
    · exact ⟨s', hrun⟩
    · exact absurd hzero hne
  · rcases htracks.allocRight_iff.mp hright with hcard | hne
    · rw [htaken] at hcard
      cases hcard
    · exact hne hzero

end Runs

end Osdev.Vfs
