import Osdev.Sched.Queues

/-!
# The ready mask and the order of priorities

`sched_next_thread` goes by the ready mask. It clears the bit of the queue it takes a thread from,
even if other threads remain there; `sched_remove_ready_thread` never clears a bit, since the
emptiness it tests is that before the removal; and the bits are shifts of a 32-bit one. In runs
where none of this matters the mask shows the queues that are not empty, and the highest ready
priority runs first.
-/

namespace Osdev.Sched

open Osdev.Lib

variable {s s' : State} {sched : CpuSched} {thread : Nat → Thread} {junk : Nat → Nat}
  {cpu td i : Nat}

/-! ## The mask -/

theorem lt_nrunqs (hi : i < 31) : i < nrunqs := Nat.lt_trans hi (by decide)

theorem getLsbD_maskBit : ∀ i < 31, ∀ j < nrunqs, (maskBit i).getLsbD j = decide (j = i) := by
  decide

theorem ffs_spec {mask : BitVec 64} (h : mask ≠ 0) : mask.getLsbD (ffs mask) = true ∧
    ffs mask < nrunqs ∧ ∀ j < ffs mask, mask.getLsbD j = false := by
  obtain ⟨i, hi⟩ : ∃ i, (List.range 64).find? (fun i => mask.getLsbD i) = some i := by
    refine Option.isSome_iff_exists.mp (List.find?_isSome.mpr ?_)
    by_contra hno
    push Not at hno
    exact h (BitVec.eq_of_getLsbD_eq fun j hj => by simpa using hno j (List.mem_range.mpr hj))
  have hffs : ffs mask = i := by rw [ffs, hi, Option.getD_some]
  obtain ⟨hbit, hlt, hlow⟩ := List.find?_range_eq_some.mp hi
  rw [hffs]
  exact ⟨hbit, List.mem_range.mp hlt, fun j hj => by simpa using hlow j hj⟩

/-- The mask and the counts of a scheduler agree with its queues, and its idle thread is on none. -/
structure Agrees (thread : Nat → Thread) (sched : CpuSched) : Prop where
  mask : ∀ i < nrunqs, (sched.readymask.getLsbD i = true ↔ (sched.queues i).head ≠ [])
  count : ∀ i < nrunqs, (sched.queues i).count = (sched.queues i).head.length
  low : ∀ i, (sched.queues i).head ≠ [] → i < 31
  idle : (thread sched.idle).state ≠ .empty
  outside : ∀ i, sched.idle ∉ (sched.queues i).head

theorem Agrees.setQueue {q : Runqueue} (mask : BitVec 64) (h : Agrees thread sched) (hi : i < 31)
    (hcount : q.count = q.head.length) (hidle : sched.idle ∉ q.head)
    (hself : mask.getLsbD i = true ↔ q.head ≠ [])
    (hother : ∀ j < nrunqs, j ≠ i → mask.getLsbD j = sched.readymask.getLsbD j) :
    Agrees thread { sched.setQueue i q with readymask := mask } := by
  -- each part is about queue `i` or about one that is as before
  have hset : ∀ j, (j = i ∧ (sched.setQueue i q).queues j = q) ∨
      (j ≠ i ∧ (sched.setQueue i q).queues j = sched.queues j) := fun j =>
    (em (j = i)).imp (fun hj => ⟨hj, hj ▸ sched.setQueue_self i q⟩)
      fun hj => ⟨hj, sched.setQueue_of_ne q hj⟩
  refine ⟨fun j hj => ?_, fun j hj => ?_, fun j hne => ?_, h.idle, fun j => ?_⟩ <;>
    obtain ⟨rfl, hq⟩ | ⟨hji, hq⟩ := hset j
  · rwa [hq]
  · rw [hq, ← h.mask j hj]
    exact iff_of_eq (congrArg (· = true) (hother j hj hji))
  · rwa [hq]
  · rw [hq, h.count j hj]
  · exact hi
  · exact h.low j (hq ▸ hne)
  · rwa [hq]
  · rw [hq]
    exact h.outside j

/-! ## Picking -/

theorem scanQueues_none {l : List Nat} (h : ∀ i ∈ l, (sched.queues i).count = 0) :
    scanQueues junk l sched = .ok (none, sched) := by
  induction l with
  | nil => rfl
  | cons i rest ih =>
    rw [scanQueues, if_neg (by simp [h i]), ih fun j hj => h j (by simp [hj])]

/-- The first thread of the lowest queue that is not empty is picked, or the idle thread. -/
theorem schedNextThread_spec (h : Agrees thread sched) (junk : Nat → Nat) :
    (∃ i td rest, i < nrunqs ∧ (sched.queues i).head = td :: rest ∧
      (∀ j < i, (sched.queues j).head = []) ∧
      schedNextThread junk sched = .ok (td, { sched.setQueue i ⟨rest.length, rest⟩ with
        readymask := sched.readymask ^^^ maskBit i })) ∨
    (∀ i < nrunqs, (sched.queues i).head = []) ∧
      schedNextThread junk sched = .ok (sched.idle, sched) := by
  by_cases h0 : sched.readymask = 0
  · have hempty : ∀ i < nrunqs, (sched.queues i).head = [] := fun i hi =>
      not_not.mp fun hne => by simpa [h0] using (h.mask i hi).mpr hne
    refine .inr ⟨hempty, ?_⟩
    have hcount : ∀ i ∈ List.range nrunqs, (sched.queues i).count = 0 := fun i hi => by
      rw [h.count i (List.mem_range.mp hi), hempty i (List.mem_range.mp hi), List.length_nil]
    rw [schedNextThread, if_pos h0, scanOrIdle, scanQueues_none hcount]
    rfl
  · obtain ⟨hbit, hlt, hlow⟩ := ffs_spec h0
    obtain ⟨td, rest, hq⟩ := List.exists_cons_of_ne_nil ((h.mask _ hlt).mp hbit)
    refine .inl ⟨_, td, rest, hlt, hq, fun j hj => ?_, ?_⟩
    · exact not_not.mp fun hne => by
        simpa [hlow j hj] using (h.mask j (Nat.lt_trans hj hlt)).mpr hne
    · have hcount := h.count _ hlt
      rw [schedNextThread, if_neg h0]
      simp [schedRunqGetNextThread, runqNextThread, hq, hcount, CpuSched.setQueue]

/-! ## Runs -/

/-- The calls of a run. -/
inductive Call where
  | submit (td cpu : Nat)
  | remove (td : Nat)
  /-- `sched_next_thread` on a CPU -/
  | next (cpu : Nat) (junk : Nat → Nat)

def call (s : State) : Call → Except Fault State
  | .submit td cpu => schedSubmitNewThread td cpu s
  | .remove td => schedRemoveReadyThread td s
  | .next cpu junk => do
    let sched ← s.getSched cpu
    let (_, sched) ← schedNextThread junk sched
    .ok (s.setSched cpu sched)

/-- Priorities are below 124, a thread is removed from a queue that keeps another one, and one is
picked when it is the only one of its queue. -/
def Orderly (s : State) : Call → Prop
  | .submit td _ => (s.thread td).queue < 31
  | .remove td => 2 ≤ (s.head (s.thread td).cpuId.toNat (s.thread td).queue).length
  | .next cpu _ => ∀ i, (∀ j < i, s.head cpu j = []) → (s.head cpu i).length ≤ 1

/-- The schedulers as `sched_init` makes them. -/
def Fresh (s : State) : Prop :=
  ∀ cpu sched, s.sched cpu = some sched →
    sched.readymask = 0 ∧ (∀ i, sched.queues i = ⟨0, []⟩) ∧ (s.thread sched.idle).state ≠ .empty

abbrev OrderlyRun : State → Prop := Reach Fresh fun s c s' => Orderly s c ∧ call s c = .ok s'

def AllAgree (s : State) : Prop := ∀ cpu sched, s.sched cpu = some sched → Agrees s.thread sched

theorem Fresh.allAgree (h : Fresh s) : AllAgree s := by
  intro cpu sched hs
  obtain ⟨hmask, hq, hidle⟩ := h cpu sched hs
  exact ⟨by simp [hmask, hq], by simp [hq], by simp [hq], hidle, by simp [hq]⟩

theorem AllAgree.setSched (h : AllAgree s) (hnew : Agrees s.thread sched) :
    AllAgree (s.setSched cpu sched) := by
  intro cpu' sched' hs
  rw [State.sched_setSched] at hs
  split at hs
  · cases hs
    exact hnew
  · exact h _ _ hs

theorem AllAgree.setThread {t : Thread} (h : AllAgree s) (ht : t.state ≠ .empty) :
    AllAgree (s.setThread td t) := by
  intro cpu sched hs
  refine { h cpu sched hs with idle := ?_ }
  show (Function.update s.thread td t sched.idle).state ≠ .empty
  rw [Function.update_apply]
  split
  · exact ht
  · exact (h cpu sched hs).idle

theorem AllAgree.submit (h : AllAgree s) (hi : (s.thread td).queue < 31)
    (hrun : schedSubmitNewThread td cpu s = .ok s') : AllAgree s' := by
  obtain ⟨hempty, hrun⟩ := guard_eq_ok.mp hrun
  obtain ⟨sched, hs, hrest⟩ := bind_ok hrun
  cases hrest
  have ht : AllAgree (s.setThread td { s.thread td with state := .ready, cpuId := cpu }) :=
    h.setThread (by simp)
  have hag := ht cpu sched (getSched_eq_ok.mp hs)
  have hbit := getLsbD_maskBit (s.thread td).queue hi
  refine ht.setSched (hag.setQueue (i := (s.thread td).queue)
    (sched.readymask ||| maskBit (s.thread td).queue) hi ?_ ?_ ?_ ?_)
  · exact congrArg (· + 1) (hag.count _ (lt_nrunqs hi))
  · intro hmem
    rcases List.mem_cons.mp hmem with heq | hmem
    · exact (h cpu sched (getSched_eq_ok.mp hs)).idle (heq ▸ not_not.mp hempty)
    · exact hag.outside _ hmem
  · exact iff_of_true (by simp [hbit _ (lt_nrunqs hi)]) (List.cons_ne_nil _ _)
  · intro j hj hji
    simp [hbit j hj, hji]

theorem AllAgree.remove (h : AllAgree s)
    (hlen : 2 ≤ (s.head (s.thread td).cpuId.toNat (s.thread td).queue).length)
    (hrun : schedRemoveReadyThread td s = .ok s') : AllAgree s' := by
  obtain ⟨-, hrun⟩ := guard_eq_ok.mp hrun
  obtain ⟨sched, hs, hrest⟩ := bind_ok hrun
  rw [getSched_eq_ok] at hs
  rw [State.head, hs] at hlen
  dsimp only at hlen
  obtain ⟨⟨q, empty⟩, hq, hend⟩ := bind_ok hrest
  obtain ⟨hmem, hq⟩ := check_eq_ok.mp hq
  have hag := h _ sched hs
  have hi : (s.thread td).queue < 31 := hag.low _ (List.ne_nil_of_mem hmem)
  have hcount := hag.count _ (lt_nrunqs hi)
  have herase := List.length_erase_of_mem hmem
  -- the count before the removal is not zero, so the bit stays
  have hempty : ((sched.queues (s.thread td).queue).count == 0) = false := by simp; omega
  rw [hempty] at hq
  cases hq
  cases hend
  have hne : (sched.queues (s.thread td).queue).head.erase td ≠ [] :=
    List.ne_nil_of_length_pos (by omega)
  refine h.setSched (hag.setQueue sched.readymask hi ?_ ?_ ?_ fun _ _ _ => rfl)
  · rw [herase, hcount]
  · exact fun hidle => hag.outside _ (List.mem_of_mem_erase hidle)
  · exact iff_of_true ((hag.mask _ (lt_nrunqs hi)).mpr (List.ne_nil_of_mem hmem)) hne

theorem AllAgree.next (h : AllAgree s)
    (hone : ∀ i, (∀ j < i, s.head cpu j = []) → (s.head cpu i).length ≤ 1)
    (hrun : call s (.next cpu junk) = .ok s') : AllAgree s' := by
  obtain ⟨sched, hs, hrest⟩ := bind_ok hrun
  rw [getSched_eq_ok] at hs
  have hhead : ∀ i, s.head cpu i = (sched.queues i).head := fun i => by rw [State.head, hs]
  simp only [hhead] at hone
  have hag := h cpu sched hs
  rcases schedNextThread_spec hag junk with ⟨i, td, rest, hi, hq, hlow, hnext⟩ | ⟨-, hnext⟩
  · rw [hnext] at hrest
    cases hrest
    obtain rfl : rest = [] := by
      have := hone i hlow
      rwa [hq, List.length_cons, Nat.succ_le_succ_iff, Nat.le_zero, List.length_eq_zero_iff] at this
    have hi31 := hag.low i (by simp [hq])
    refine h.setSched (hag.setQueue _ hi31 rfl (by simp) ?_ fun j hj hji => ?_)
    · simp [(hag.mask i hi).mpr (by simp [hq]), getLsbD_maskBit i hi31 i hi]
    · simp [getLsbD_maskBit i hi31 j hj, hji]
  · rw [hnext] at hrest
    cases hrest
    exact h.setSched hag

theorem OrderlyRun.allAgree (h : OrderlyRun s) : AllAgree s :=
  h.invariant (fun _ hs => hs.allAgree) fun _ c _ hag hstep =>
    match c, hstep with
    | .submit _ _, ⟨hok, hrun⟩ => hag.submit hok hrun
    | .remove _, ⟨hok, hrun⟩ => hag.remove hok hrun
    | .next _ _, ⟨hok, hrun⟩ => hag.next hok hrun

/-- **In every orderly run the ready mask shows the queues that are not empty, and the thread that
is picked is on the lowest of them; it is the idle thread exactly when all are empty.** -/
theorem orderlyRun_highest_first (h : OrderlyRun s) (hs : s.sched cpu = some sched)
    (junk : Nat → Nat) :
    (∀ i < nrunqs, (sched.readymask.getLsbD i = true ↔ (sched.queues i).head ≠ [])) ∧
      ∃ td sched', schedNextThread junk sched = .ok (td, sched') ∧
        (td = sched.idle ↔ ∀ i < nrunqs, (sched.queues i).head = []) ∧
        ∀ i < nrunqs, (sched.queues i).head ≠ [] → (∀ j < i, (sched.queues j).head = []) →
          td ∈ (sched.queues i).head := by
  have hag := h.allAgree cpu sched hs
  refine ⟨hag.mask, ?_⟩
  rcases schedNextThread_spec hag junk with ⟨i, td, rest, hi, hq, hlow, hnext⟩ | ⟨hempty, hnext⟩
  · have htd : td ∈ (sched.queues i).head := by simp [hq]
    refine ⟨td, _, hnext, iff_of_false ?_ fun hempty => by simp [hempty i hi] at hq, ?_⟩
    · rintro rfl
      exact hag.outside i htd
    · intro j hj hne hlow'
      rcases Nat.lt_trichotomy i j with hij | rfl | hji
      · simp [hlow' i hij] at hq
      · exact htd
      · exact absurd (hlow j hji) hne
  · exact ⟨_, _, hnext, iff_of_true rfl hempty, fun i hi hne => absurd (hempty i hi) hne⟩

/-- The system with one CPU, where threads 2 and 3 have priority 80 and the others priority 100. -/
def twoLevels : State :=
  { oneCpu with thread := fun td =>
      { oneCpu.thread td with priority := if td = 2 ∨ td = 3 then 80 else 100 } }

theorem twoLevels_fresh : Fresh twoLevels := by
  intro cpu sched hs
  obtain ⟨-, hs⟩ := Option.ite_none_right_eq_some.mp hs
  cases hs
  exact ⟨rfl, fun _ => rfl, by decide⟩

/-- Thread 2 is submitted, and picked. -/
theorem twoLevels_highest_first : ∃ s sched, OrderlyRun s ∧ s.sched 0 = some sched ∧
    ∃ td sched', schedNextThread (fun _ => 0) sched = .ok (td, sched') ∧
      td ∈ (sched.queues 20).head := by
  have hrun : (call twoLevels (.submit 2 0)).toOption.any (fun s =>
      (s.sched 0).any fun sched => (sched.queues 20).head == [2] &&
        (List.range 20).all fun j => (sched.queues j).head == []) = true := by rfl
  obtain ⟨s, hs, hview⟩ := exists_ok_of_any hrun
  obtain ⟨sched, hsched, hheads⟩ := (Option.any_eq_true _ _).mp hview
  obtain ⟨h20, hlow⟩ := Bool.and_eq_true_iff.mp hheads
  have hreach : OrderlyRun s := (Reach.start twoLevels_fresh).next (.submit 2 0)
    ⟨(by decide : (twoLevels.thread 2).queue < 31), hs⟩
  obtain ⟨-, td, sched', hnext, -, hmem⟩ := orderlyRun_highest_first hreach hsched fun _ => 0
  refine ⟨s, sched, hreach, hsched, td, sched', hnext, hmem 20 (by decide) ?_ fun j hj => ?_⟩
  · rw [beq_iff_eq.mp h20]
    exact List.cons_ne_nil _ _
  · exact beq_iff_eq.mp (List.all_eq_true.mp hlow j (List.mem_range.mpr hj))

/-- Threads 2 and 3 are submitted and thread 3 is picked: the bit of their queue is cleared. Thread
4 of a lower priority is then picked before thread 2. -/
theorem twoLevels_lower_first : ∃ s sched sched', Reach Fresh (fun s c s' => call s c = .ok s') s ∧
    s.sched 0 = some sched ∧ (sched.queues 20).head = [2] ∧ sched.readymask.getLsbD 20 = false ∧
    schedNextThread (fun _ => 0) sched = .ok (4, sched') := by
  have hrun : ((checkedRun (fun _ _ => true) call
      [.submit 2 0, .submit 3 0, .next 0 (fun _ => 0), .submit 4 0] twoLevels).bind fun s =>
        s.sched 0).any (fun sched => (sched.queues 20).head == [2] &&
          (!sched.readymask.getLsbD 20 && (schedNextThread (fun _ => 0) sched).toOption.any
            fun r => r.1 == 4)) = true := by rfl
  obtain ⟨sched, hsched, hview⟩ := (Option.any_eq_true _ _).mp hrun
  obtain ⟨s, hs, hsched⟩ := Option.bind_eq_some_iff.mp hsched
  obtain ⟨h20, hview⟩ := Bool.and_eq_true_iff.mp hview
  obtain ⟨hbit, hnext⟩ := Bool.and_eq_true_iff.mp hview
  obtain ⟨⟨td, sched'⟩, hnext, htd⟩ := exists_ok_of_any hnext
  obtain rfl : td = 4 := beq_iff_eq.mp htd
  exact ⟨s, sched, sched', (Reach.start twoLevels_fresh).of_checkedRun
    (fun _ _ _ _ h => h) hs, hsched,
    beq_iff_eq.mp h20, by simpa using hbit, hnext⟩

end Osdev.Sched
