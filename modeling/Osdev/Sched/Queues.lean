import Osdev.Lib.Run
import Osdev.Sched.Model
import Mathlib.Data.List.Nodup

/-!
# Ready threads and run queues

A thread that yields or is preempted becomes ready but is put on no run queue, so it never runs
again. Apart from that the run queues hold exactly the ready threads: an operation either takes one
thread away from its place and gives it another state, or it submits a new thread.
-/

namespace Osdev.Sched

open Osdev.Lib

variable {t i : Nat} {junk : Nat → Nat} {reason : Reason}
variable {s : State} {cpu : Nat} {sched sched' : CpuSched} {state : ThreadState}

/-- The thread is on one run queue, once. -/
def OnOneQueue (s : State) (td : Nat) : Prop :=
  ∃ cpu i, (s.head cpu i).count td = 1 ∧ ∀ cpu' i', td ∈ s.head cpu' i' → cpu' = cpu ∧ i' = i

/-- The ready threads other than the idle ones are on the run queues, and no others. -/
structure NoneLost (s : State) : Prop where
  ready : ∀ td, (s.thread td).state = .ready → (s.thread td).idle = false → OnOneQueue s td
  queued : ∀ td cpu i, td ∈ s.head cpu i → (s.thread td).state = .ready

/-- The system before the first thread is submitted. The idle threads are ready from the start. -/
structure Boot (s : State) : Prop where
  queues : ∀ cpu i, s.head cpu i = []
  ready : ∀ td, (s.thread td).state = .ready → (s.thread td).idle = true
  idle : ∀ td, (s.thread td).idle = true → (s.thread td).state ≠ .empty
  sched : ∀ cpu sched, s.sched cpu = some sched → (s.thread sched.idle).idle = true

/-- No thread but an idle one yields or is preempted, and no running thread is submitted. -/
def Allowed (s : State) : Op → Prop
  | .submit td _ => ∀ cpu, s.curthread cpu ≠ td
  | .again cpu reason _ =>
    reason = .yielded ∨ reason = .preempted → (s.thread (s.curthread cpu)).idle = true
  | .stop _ _ _ => True

/-! ## The invariant -/

structure Inv (s : State) : Prop where
  /-- a thread on a queue is ready, and the queue is that of its CPU and priority -/
  member : ∀ td cpu i, td ∈ s.head cpu i → (s.thread td).state = .ready ∧
    (s.thread td).idle = false ∧
    (s.thread td).cpuId = cpu ∧ (s.thread td).queue = i
  nodup : ∀ cpu i, (s.head cpu i).Nodup
  ready : ∀ td, (s.thread td).state = .ready → (s.thread td).idle = false →
    ∃ cpu i, td ∈ s.head cpu i
  current : ∀ cpu, (s.thread (s.curthread cpu)).state = .ready →
    (s.thread (s.curthread cpu)).idle = true
  idle : ∀ td, (s.thread td).idle = true → (s.thread td).state ≠ .empty
  sched : ∀ cpu sched, s.sched cpu = some sched → (s.thread sched.idle).idle = true

theorem Inv.noneLost (h : Inv s) : NoneLost s where
  ready td hready hidle := by
    obtain ⟨cpu, i, hmem⟩ := h.ready td hready hidle
    obtain ⟨-, -, hcpu, hi⟩ := h.member td cpu i hmem
    refine ⟨cpu, i, List.count_eq_one_of_mem (h.nodup cpu i) hmem, fun cpu' i' hmem' => ?_⟩
    obtain ⟨-, -, hcpu', hi'⟩ := h.member td cpu' i' hmem'
    exact ⟨by omega, by omega⟩
  queued td cpu i hmem := (h.member td cpu i hmem).1

theorem Boot.inv (h : Boot s) : Inv s where
  member td cpu i hmem := by
    simp [h.queues] at hmem
  nodup cpu i := by
    rw [h.queues]
    exact List.nodup_nil
  ready td hready hidle := by
    have := h.ready td hready
    simp [hidle] at this
  current cpu hready := h.ready _ hready
  idle := h.idle
  sched := h.sched

section Changes

variable {s s' : State} {td : Nat}

/-- The current thread of a CPU is on no queue. -/
theorem Inv.current_not_queued (h : Inv s) (cpu cpu' i : Nat) :
    s.curthread cpu ∉ s.head cpu' i := by
  intro hmem
  obtain ⟨hready, hidle, -⟩ := h.member _ _ _ hmem
  have := h.current cpu hready
  simp [hidle] at this

theorem Inv.idle_not_queued (h : Inv s) (ht : (s.thread t).idle = true) :
    t ∉ s.head cpu i := by
  intro hmem
  obtain ⟨-, hidle, -⟩ := h.member _ _ _ hmem
  simp [ht] at hidle

/-- The second state differs from the first in one thread: it left its queue, if it was on one, and
has another state, and it may have become the current thread of a CPU. -/
structure Moved (s s' : State) (td : Nat) : Prop where
  others : ∀ t, t ≠ td → s'.thread t = s.thread t
  idle_eq : (s'.thread td).idle = (s.thread td).idle
  ready : (s'.thread td).state = .ready → (s.thread td).idle = true
  not_empty : (s.thread td).idle = true → (s'.thread td).state ≠ .empty
  mem : ∀ cpu i t, t ∈ s'.head cpu i ↔ t ∈ s.head cpu i ∧ t ≠ td
  nodup : ∀ cpu i, (s.head cpu i).Nodup → (s'.head cpu i).Nodup
  current : ∀ cpu, s'.curthread cpu = s.curthread cpu ∨ s'.curthread cpu = td
  sched : ∀ cpu sched', s'.sched cpu = some sched' →
    ∃ sched, s.sched cpu = some sched ∧ sched'.idle = sched.idle

theorem Moved.idle (h : Moved s s' td) (t : Nat) : (s'.thread t).idle = (s.thread t).idle := by
  by_cases ht : t = td
  · rw [ht, h.idle_eq]
  · rw [h.others t ht]

theorem Inv.moved (h : Inv s) (hm : Moved s s' td) : Inv s' where
  member t cpu i hmem := by
    obtain ⟨hmem, hne⟩ := (hm.mem cpu i t).mp hmem
    rw [hm.others t hne]
    exact h.member t cpu i hmem
  nodup cpu i := hm.nodup cpu i (h.nodup cpu i)
  ready t hready hidle := by
    rw [hm.idle] at hidle
    obtain rfl | ht := eq_or_ne t td
    · have := hm.ready hready
      simp [hidle] at this
    · rw [hm.others t ht] at hready
      obtain ⟨cpu, i, hmem⟩ := h.ready t hready hidle
      exact ⟨cpu, i, (hm.mem cpu i t).mpr ⟨hmem, ht⟩⟩
  current cpu hready := by
    rw [hm.idle]
    by_cases hc : s'.curthread cpu = td
    · rw [hc] at hready ⊢
      exact hm.ready hready
    · have hcur := (hm.current cpu).resolve_right hc
      rw [hm.others _ hc, hcur] at hready
      rw [hcur]
      exact h.current cpu hready
  idle t hidle := by
    rw [hm.idle] at hidle
    obtain rfl | ht := eq_or_ne t td
    · exact hm.not_empty hidle
    · rw [hm.others t ht]
      exact h.idle t hidle
  sched cpu sched' hsched' := by
    obtain ⟨sched, hsched, heq⟩ := hm.sched cpu sched' hsched'
    rw [hm.idle, heq]
    exact h.sched cpu sched hsched

/-- The mark of `thread_stop` changes nothing here. -/
theorem Inv.setStopping (h : Inv s) (td : Nat) :
    Inv (s.setThread td { s.thread td with stopping := true }) := by
  have hthread : ∀ t, ∃ b, (s.setThread td { s.thread td with stopping := true }).thread t =
      { s.thread t with stopping := b } := by
    intro t
    obtain rfl | ht := eq_or_ne t td
    · exact ⟨true, Function.update_self _ _ _⟩
    · exact ⟨(s.thread t).stopping, Function.update_of_ne ht _ _⟩
  refine ⟨fun t cpu i hmem => ?_, h.nodup, fun t hready hidle => ?_, fun cpu hready => ?_,
    fun t hidle => ?_, fun cpu sched hsched => ?_⟩
  · obtain ⟨b, hb⟩ := hthread t
    rw [hb]
    exact h.member t cpu i hmem
  · obtain ⟨b, hb⟩ := hthread t
    rw [hb] at hready hidle
    exact h.ready t hready hidle
  · obtain ⟨b, hb⟩ := hthread (s.curthread cpu)
    change ((s.setThread td _).thread (s.curthread cpu)).state = _ at hready
    change ((s.setThread td _).thread (s.curthread cpu)).idle = _
    rw [hb] at hready ⊢
    exact h.current cpu hready
  · obtain ⟨b, hb⟩ := hthread t
    rw [hb] at hidle ⊢
    exact h.idle t hidle
  · obtain ⟨b, hb⟩ := hthread sched.idle
    rw [hb]
    exact h.sched cpu sched hsched

end Changes

/-! ## Picking a thread -/

/-- What picking does to the queues of a CPU: nothing, or it takes the first thread of one of
them. -/
structure Picked (sched sched' : CpuSched) (td : Option Nat) : Prop where
  idle_eq : sched'.idle = sched.idle
  kept : td = none → ∀ j, (sched'.queues j).head = (sched.queues j).head
  taken : ∀ t, td = some t → ∃ i, (sched.queues i).head = t :: (sched'.queues i).head ∧
    ∀ j, j ≠ i → (sched'.queues j).head = (sched.queues j).head

section Picking

variable {sched sched' sched'' : CpuSched} {td : Option Nat}

theorem Picked.after (h : Picked sched sched' none) (h' : Picked sched' sched'' td) :
    Picked sched sched'' td where
  idle_eq := h'.idle_eq.trans h.idle_eq
  kept hnone j := (h'.kept hnone j).trans (h.kept rfl j)
  taken t ht := by
    obtain ⟨i, hi, hother⟩ := h'.taken t ht
    exact ⟨i, (h.kept rfl i).symm.trans hi, fun j hj => (hother j hj).trans (h.kept rfl j)⟩

/-- The ready mask is only a hint. -/
theorem Picked.setMask (h : Picked sched sched' td) (mask : BitVec 64) :
    Picked sched { sched' with readymask := mask } td :=
  ⟨h.idle_eq, h.kept, h.taken⟩

theorem schedRunqGetNextThread_picked {junk : Nat}
    (h : schedRunqGetNextThread junk sched i = .ok (td, sched')) : Picked sched sched' td := by
  obtain ⟨⟨td', q, empty⟩, hnext, hrest⟩ := bind_ok h
  obtain ⟨rfl, rfl⟩ := Prod.mk.inj (Except.ok.inj hrest)
  have hqueue : Picked sched (sched.setQueue i q) td' := by
    unfold runqNextThread at hnext
    split at hnext
    next hnil =>
      cases hnext
      refine ⟨rfl, fun _ j => ?_, fun t ht => ?_⟩
      · exact congrArg Runqueue.head (congrFun (Function.update_eq_self i sched.queues) j)
      · cases ht
    next t rest hcons =>
      split at hnext
      · cases hnext
      · cases hnext
        refine ⟨rfl, fun hnone => ?_, fun t' ht' => ⟨i, ?_, fun j hj => ?_⟩⟩
        · cases hnone
        · cases ht'
          rw [hcons, CpuSched.setQueue_self]
        · rw [CpuSched.setQueue_of_ne _ _ hj]
  split
  · exact hqueue.setMask _
  · exact hqueue

theorem scanQueues_picked {l : List Nat} (h : scanQueues junk l sched = .ok (td, sched')) :
    Picked sched sched' td := by
  induction l generalizing sched with
  | nil =>
    cases h
    exact ⟨rfl, fun _ _ => rfl, fun t ht => by cases ht⟩
  | cons i rest ih =>
    unfold scanQueues at h
    split at h
    next =>
      obtain ⟨⟨td1, sched1⟩, hget, hrest⟩ := bind_ok h
      have hpicked := schedRunqGetNextThread_picked hget
      cases td1 with
      | some t =>
        cases hrest
        exact hpicked
      | none => exact hpicked.after (ih hrest)
    next => exact ih h

/-- The thread is the first of one of the queues, or it is the idle thread. -/
theorem scanOrIdle_picked (h : scanOrIdle junk sched = .ok (t, sched')) :
    Picked sched sched' (some t) ∨ t = sched.idle ∧ Picked sched sched' none := by
  obtain ⟨⟨td1, sched1⟩, hscan, hrest⟩ := bind_ok h
  have hpicked := scanQueues_picked hscan
  cases hrest
  cases td1 with
  | some t => exact .inl hpicked
  | none => exact .inr ⟨hpicked.idle_eq, hpicked⟩

theorem schedNextThread_picked (h : schedNextThread junk sched = .ok (t, sched')) :
    Picked sched sched' (some t) ∨ t = sched.idle ∧ Picked sched sched' none := by
  unfold schedNextThread at h
  split at h
  next => exact scanOrIdle_picked h
  next =>
    obtain ⟨⟨td1, sched1⟩, hget, hrest⟩ := bind_ok h
    have hpicked := schedRunqGetNextThread_picked hget
    cases td1 with
    | some t' =>
      cases hrest
      exact .inl (hpicked.setMask _)
    | none =>
      obtain htaken | ⟨hidle, hkept⟩ := scanOrIdle_picked hrest
      · exact .inl (hpicked.after htaken)
      · exact .inr ⟨hidle.trans hpicked.idle_eq, hpicked.after hkept⟩

end Picking

/-! ## Steps -/

section Steps

variable {s s' : State} {cpu td : Nat}

theorem getSched_eq_ok : s.getSched cpu = .ok sched ↔ s.sched cpu = some sched := by
  unfold State.getSched
  split
  next h => rw [h, Except.ok.injEq, Option.some.injEq]
  next h => simp [h]

/-- A thread that is on no queue is given another state. -/
theorem Moved.setState (hout : ∀ cpu i, td ∉ s.head cpu i)
    (hready : state = .ready → (s.thread td).idle = true) (hempty : state ≠ .empty) :
    Moved s (s.setState td state) td where
  others t ht := s.setState_thread_of_ne td state ht
  idle_eq := by rw [State.setState_thread_self]
  ready h := hready (by rwa [State.setState_thread_self] at h)
  not_empty _ := by rwa [State.setState_thread_self]
  mem cpu i t := ⟨fun h => ⟨h, fun heq => hout cpu i (heq ▸ h)⟩, And.left⟩
  nodup _ _ h := h
  current _ := .inl rfl
  sched _ sched' h := ⟨sched', h, rfl⟩

/-- Switching away from the current thread, unless it yields or is preempted. -/
theorem leave_inv (h : Inv s)
    (hidle : reason = .yielded ∨ reason = .preempted → (s.thread (s.curthread cpu)).idle = true)
    (hrun : leave reason (s.curthread cpu) s = .ok s') : Inv s' := by
  have hmove : ∀ state : ThreadState, state ≠ .empty →
      (state = .ready → (s.thread (s.curthread cpu)).idle = true) →
      Inv (s.setState (s.curthread cpu) state) := fun state hempty hready =>
    h.moved (Moved.setState (h.current_not_queued cpu) hready hempty)
  cases reason with
  | updated =>
    cases hrun
    exact h
  | yielded =>
    cases hrun
    exact hmove .ready (by decide) fun _ => hidle (.inl rfl)
  | blocked =>
    cases hrun
    exact hmove .blocked (by decide) fun h => by cases h
  | sleeping =>
    cases hrun
    exact hmove .waiting (by decide) fun h => by cases h
  | preempted =>
    cases hrun
    exact hmove .ready (by decide) fun _ => hidle (.inr rfl)
  | exited =>
    obtain ⟨-, hrun⟩ := check_eq_ok.mp hrun
    cases hrun
    exact hmove .exited (by decide) fun h => by cases h

theorem leave_sched (hrun : leave reason td s = .ok s') : s'.sched = s.sched := by
  unfold leave at hrun
  split at hrun <;> try (cases hrun; rfl)
  obtain ⟨-, hrun⟩ := check_eq_ok.mp hrun
  cases hrun
  rfl

/-- A thread that is taken from a queue of a CPU is moved. -/
theorem Moved.dequeue (h : Inv s)
    (hsched : s.sched cpu = some sched) (hidle : sched'.idle = sched.idle)
    (hmem : td ∈ (sched.queues i).head)
    (hhead : (sched'.queues i).head = (sched.queues i).head.erase td)
    (hother : ∀ j, j ≠ i → (sched'.queues j).head = (sched.queues j).head)
    (hready : state ≠ .ready) (hempty : state ≠ .empty) :
    Moved s ((s.setSched cpu sched').setState td state) td := by
  have hold : ∀ j, s.head cpu j = (sched.queues j).head := fun j => by
    rw [State.head, hsched]
  have hplace := h.member td cpu i (by rwa [hold])
  have hnew : ∀ cpu' j, ((s.setSched cpu sched').setState td state).head cpu' j =
      (s.head cpu' j).erase td := by
    intro cpu' j
    refine (s.head_setSched cpu sched' cpu' j).trans ?_
    split
    next hc =>
      subst hc
      rw [hold]
      obtain rfl | hj := eq_or_ne j i
      · exact hhead
      · rw [hother j hj, List.erase_of_not_mem fun hin => hj ?_]
        exact (h.member td cpu' j (by rwa [hold])).2.2.2.symm.trans hplace.2.2.2
    next hc =>
      refine (List.erase_of_not_mem fun hin => hc ?_).symm
      have := (h.member td cpu' j hin).2.2.1.symm.trans hplace.2.2.1
      omega
  refine ⟨fun t ht => State.setState_thread_of_ne _ td state ht, ?_, fun hst => ?_, fun _ => ?_,
    fun cpu' j t => ?_, fun cpu' j hd => ?_, fun _ => .inl rfl, fun cpu' sched1 hs1 => ?_⟩
  · rw [State.setState_thread_self]
    rfl
  · rw [State.setState_thread_self] at hst
    exact absurd hst hready
  · rwa [State.setState_thread_self]
  · rw [hnew, (h.nodup cpu' j).mem_erase_iff, and_comm]
  · rw [hnew]
    exact hd.erase td
  · rw [State.setState_sched, State.sched_setSched] at hs1
    split at hs1
    next hc =>
      cases hs1
      exact ⟨sched, hc ▸ hsched, hidle⟩
    next => exact ⟨sched1, hs1, rfl⟩

/-- The thread becomes the current one of a CPU. -/
theorem Moved.setCurthread (h : Moved s s' td) (cpu : Nat) :
    Moved s (s'.setCurthread cpu td) td where
  others := h.others
  idle_eq := h.idle_eq
  ready := h.ready
  not_empty := h.not_empty
  mem := h.mem
  nodup := h.nodup
  current cpu' := by
    obtain rfl | hc := eq_or_ne cpu' cpu
    · exact .inr (Function.update_self _ _ _)
    · have heq : (s'.setCurthread cpu td).curthread cpu' = s'.curthread cpu' :=
        Function.update_of_ne hc _ _
      rw [heq]
      exact h.current cpu'
  sched := h.sched

/-- Running the next thread. -/
theorem schedNextThread_inv (h : Inv s)
    (hsched : s.sched cpu = some sched) (hnext : schedNextThread junk sched = .ok (td, sched')) :
    Inv (((s.setSched cpu sched').setState td .running).setCurthread cpu td) := by
  obtain hpicked | ⟨rfl, hpicked⟩ := schedNextThread_picked hnext
  · obtain ⟨i, hhead, hother⟩ := hpicked.taken td rfl
    refine h.moved ((Moved.dequeue h hsched hpicked.idle_eq ?_ ?_ hother ?_ ?_).setCurthread cpu)
    · rw [hhead]
      simp
    · rw [hhead, List.erase_cons_head]
    · decide
    · decide
  · -- no queue changes, and the idle thread is on none
    have hsame : Inv (s.setSched cpu sched') := by
      have hhead : ∀ cpu' i, (s.setSched cpu sched').head cpu' i = s.head cpu' i := by
        intro cpu' i
        rw [State.head_setSched]
        split
        next hc =>
          subst hc
          rw [hpicked.kept rfl]
          rw [State.head, hsched]
        next => rfl
      refine ⟨fun t cpu' i hmem => h.member t cpu' i (hhead cpu' i ▸ hmem), fun cpu' i => ?_,
        fun t hready hidle => ?_, h.current, h.idle, fun cpu' sched1 hs1 => ?_⟩
      · rw [hhead]
        exact h.nodup cpu' i
      · obtain ⟨cpu', i, hmem⟩ := h.ready t hready hidle
        exact ⟨cpu', i, (hhead cpu' i).symm ▸ hmem⟩
      · rw [State.sched_setSched] at hs1
        split at hs1
        next =>
          cases hs1
          rw [hpicked.idle_eq]
          exact h.sched cpu sched hsched
        next => exact h.sched cpu' sched1 hs1
    have hidle := h.sched cpu sched hsched
    have hmoved : Moved (s.setSched cpu sched')
        ((s.setSched cpu sched').setState sched.idle .running) sched.idle :=
      Moved.setState (fun _ _ => hsame.idle_not_queued hidle) (fun _ => hidle) (by decide)
    exact hsame.moved (hmoved.setCurthread cpu)

theorem schedAgain_inv (h : Inv s)
    (hidle : reason = .yielded ∨ reason = .preempted → (s.thread (s.curthread cpu)).idle = true)
    (hrun : schedAgain cpu reason junk s = .ok s') : Inv s' := by
  obtain ⟨sched, hsched, hrest⟩ := bind_ok hrun
  obtain ⟨s1, hleave, hrest⟩ := bind_ok hrest
  obtain ⟨⟨newtd, sched'⟩, hnext, hrest⟩ := bind_ok hrest
  cases hrest
  refine schedNextThread_inv (leave_inv h hidle hleave) ?_ hnext
  rw [leave_sched hleave]
  exact getSched_eq_ok.mp hsched

/-- The second state differs from the first in one thread: it has become ready and is at the head of
the queue of its CPU and priority. -/
structure Submitted (s s' : State) (td cpu : Nat) : Prop where
  thread : s'.thread td = { s.thread td with state := .ready, cpuId := cpu }
  others : ∀ t, t ≠ td → s'.thread t = s.thread t
  head : ∀ cpu' i, s'.head cpu' i =
    if cpu' = cpu ∧ i = (s.thread td).queue then td :: s.head cpu' i else s.head cpu' i
  current : s'.curthread = s.curthread
  sched : ∀ cpu' sched', s'.sched cpu' = some sched' →
    ∃ sched, s.sched cpu' = some sched ∧ sched'.idle = sched.idle

theorem Submitted.mem (h : Submitted s s' td cpu) {cpu' x : Nat} (hmem : x ∈ s.head cpu' i) :
    x ∈ s'.head cpu' i := by
  rw [h.head]
  split
  next => exact List.mem_cons_of_mem _ hmem
  next => exact hmem

/-- Only the new thread is new on a queue. -/
theorem Submitted.mem_cases (h : Submitted s s' td cpu) {cpu' x : Nat}
    (hmem : x ∈ s'.head cpu' i) :
    x ∈ s.head cpu' i ∨ x = td ∧ cpu' = cpu ∧ i = (s.thread td).queue := by
  rw [h.head] at hmem
  split at hmem
  next hplace => exact (List.mem_cons.mp hmem).symm.imp_right fun hx => ⟨hx, hplace⟩
  next => exact .inl hmem

theorem schedSubmitNewThread_submitted (hrun : schedSubmitNewThread td cpu s = .ok s') :
    (s.thread td).state = .empty ∧ Submitted s s' td cpu := by
  obtain ⟨hempty, hrun⟩ := guard_eq_ok.mp hrun
  obtain ⟨sched, hget, hrest⟩ := bind_ok hrun
  have hsched := getSched_eq_ok.mp hget
  cases hrest
  refine ⟨not_not.mp hempty, Function.update_self _ _ _, fun x hx => Function.update_of_ne hx _ _,
    fun cpu' i => ?_, rfl, fun cpu' sched' hs => ?_⟩
  · refine (State.head_setSched _ cpu _ cpu' i).trans ?_
    obtain rfl | hc := eq_or_ne cpu' cpu
    · have hold : s.head cpu' i = (sched.queues i).head := by
        rw [State.head, hsched]
      rw [if_pos rfl, hold]
      obtain rfl | hi := eq_or_ne i (s.thread td).queue
      · rw [if_pos ⟨rfl, rfl⟩]
        exact congrArg Runqueue.head (sched.setQueue_self _ _)
      · rw [if_neg fun h => hi h.2]
        exact congrArg Runqueue.head (sched.setQueue_of_ne _ hi)
    · rw [if_neg hc, if_neg fun h => hc h.1]
      rfl
  · rw [State.sched_setSched] at hs
    split at hs
    next heq =>
      cases hs
      exact ⟨sched, heq ▸ hsched, rfl⟩
    next => exact ⟨sched', hs, rfl⟩

theorem Inv.submitted (h : Inv s) (hempty : (s.thread td).state = .empty)
    (hcur : ∀ cpu', s.curthread cpu' ≠ td) (hsub : Submitted s s' td cpu) : Inv s' := by
  have hidle : (s.thread td).idle = false := by
    by_contra htrue
    exact h.idle td (by simpa using htrue) hempty
  have hout : ∀ cpu' i, td ∉ s.head cpu' i := by
    intro cpu' i hmem
    have := (h.member td cpu' i hmem).1
    simp [hempty] at this
  refine ⟨fun x cpu' i hmem => ?_, fun cpu' i => ?_, fun x hready hnot => ?_, fun cpu' hready => ?_,
    fun x hx => ?_, fun cpu' sched' hs => ?_⟩
  · obtain hmem | ⟨rfl, rfl, rfl⟩ := hsub.mem_cases hmem
    · rw [hsub.others x fun hx => hout cpu' i (hx ▸ hmem)]
      exact h.member x cpu' i hmem
    · rw [hsub.thread]
      exact ⟨rfl, hidle, rfl, rfl⟩
  · rw [hsub.head]
    split
    next => exact List.nodup_cons.mpr ⟨hout cpu' i, h.nodup cpu' i⟩
    next => exact h.nodup cpu' i
  · obtain rfl | hx := eq_or_ne x td
    · refine ⟨cpu, (s.thread x).queue, ?_⟩
      rw [hsub.head]
      simp
    · rw [hsub.others x hx] at hready hnot
      obtain ⟨cpu', i, hmem⟩ := h.ready x hready hnot
      exact ⟨cpu', i, hsub.mem hmem⟩
  · rw [hsub.current, hsub.others _ (hcur cpu')] at hready ⊢
    exact h.current cpu' hready
  · obtain rfl | hx' := eq_or_ne x td
    · rw [hsub.thread]
      exact ThreadState.noConfusion
    · rw [hsub.others x hx'] at hx ⊢
      exact h.idle x hx
  · obtain ⟨sched, hs, heq⟩ := hsub.sched cpu' sched' hs
    have hx := h.sched cpu' sched hs
    rwa [heq, hsub.others _ fun hx' => by rw [hx', hidle] at hx; cases hx]

theorem schedSubmitNewThread_inv (h : Inv s) (hcur : ∀ cpu', s.curthread cpu' ≠ td)
    (hrun : schedSubmitNewThread td cpu s = .ok s') : Inv s' := by
  obtain ⟨hempty, hsub⟩ := schedSubmitNewThread_submitted hrun
  exact h.submitted hempty hcur hsub

/-- Stopping a thread that does not run. -/
theorem schedRemoveReadyThread_inv (h : Inv s) (hrun : schedRemoveReadyThread td s = .ok s') :
    Inv (s'.setState td .exited) := by
  obtain ⟨-, hrun⟩ := guard_eq_ok.mp hrun
  obtain ⟨sched, hget, hrest⟩ := bind_ok hrun
  have hsched := getSched_eq_ok.mp hget
  obtain ⟨⟨q, empty⟩, hremove, hrest⟩ := bind_ok hrest
  obtain ⟨hmem, hremove⟩ := check_eq_ok.mp hremove
  cases hremove
  cases hrest
  refine h.moved (Moved.dequeue h hsched ?_ hmem ?_ (fun j hj => ?_) (by decide) (by decide))
  · split <;> rfl
  · split <;> exact congrArg Runqueue.head (sched.setQueue_self _ _)
  · split <;> exact congrArg Runqueue.head (sched.setQueue_of_ne _ hj)

theorem threadStop_inv (h : Inv s) (hrun : threadStop cpu td junk s = .ok s') :
    Inv s' := by
  obtain ⟨-, hrun⟩ := guard_eq_ok.mp hrun
  have hmark := h.setStopping td
  dsimp only at hrun
  generalize s.setThread td { s.thread td with stopping := true } = s1 at hrun hmark
  split at hrun
  next =>
    split at hrun
    next => exact schedAgain_inv hmark (fun hreason => by simp at hreason) hrun
    next =>
      cases hrun
      exact hmark
  next =>
    split at hrun
    next =>
      obtain ⟨s2, hremove, hrest⟩ := bind_ok hrun
      cases hrest
      exact schedRemoveReadyThread_inv hmark hremove
    next hready =>
      cases hrun
      refine hmark.moved
        (Moved.setState (fun cpu' i hmem => ?_) (fun hst => by cases hst) (by decide))
      exact hready (hmark.member td cpu' i hmem).1

/-- One step keeps the invariant. -/
theorem perform_inv {o : Op} (h : Inv s) (hok : Allowed s o) (hrun : perform s o = .ok s') :
    Inv s' := by
  cases o with
  | submit td cpu => exact schedSubmitNewThread_inv h hok hrun
  | again cpu reason junk => exact schedAgain_inv h hok hrun
  | stop cpu td junk => exact threadStop_inv h hrun

end Steps

/-- A thread that yields or is preempted is lost, unless it is an idle one. -/
theorem schedAgain_lost {s' : State} (h : Inv s)
    (hreason : reason = .yielded ∨ reason = .preempted)
    (hidle : (s.thread (s.curthread cpu)).idle = false)
    (hrun : schedAgain cpu reason junk s = .ok s') : ¬ NoneLost s' := by
  intro hlost
  obtain ⟨sched, hget, hrest⟩ := bind_ok hrun
  have hsched := getSched_eq_ok.mp hget
  have hleave : leave reason (s.curthread cpu) s = .ok (s.setState (s.curthread cpu) .ready) := by
    obtain rfl | rfl := hreason <;> rfl
  obtain ⟨s1, hs1, hrest⟩ := bind_ok hrest
  cases hleave.symm.trans hs1
  obtain ⟨⟨newtd, sched'⟩, hnext, hrest⟩ := bind_ok hrest
  cases hrest
  have hhead : ∀ j, s.head cpu j = (sched.queues j).head := fun j => by
    rw [State.head, hsched]
  -- picking puts no thread on a queue, and does not pick the thread itself
  have hsub : ∀ j t, t ∈ (sched'.queues j).head → t ∈ s.head cpu j := by
    intro j t ht
    rw [hhead]
    obtain hpicked | ⟨-, hpicked⟩ := schedNextThread_picked hnext
    · obtain ⟨i, hfirst, hother⟩ := hpicked.taken newtd rfl
      obtain rfl | hj := eq_or_ne j i
      · rw [hfirst]
        exact List.mem_cons_of_mem _ ht
      · rwa [← hother j hj]
    · rwa [← hpicked.kept rfl j]
  have hne : s.curthread cpu ≠ newtd := by
    rintro rfl
    obtain hpicked | ⟨heq, -⟩ := schedNextThread_picked hnext
    · obtain ⟨i, hfirst, -⟩ := hpicked.taken _ rfl
      refine h.current_not_queued cpu cpu i ?_
      rw [hhead, hfirst]
      simp
    · simp [heq, h.sched cpu sched hsched] at hidle
  have hthread : ((((s.setState (s.curthread cpu) .ready).setSched cpu sched').setState newtd
      .running).setCurthread cpu newtd).thread (s.curthread cpu) =
        { s.thread (s.curthread cpu) with state := .ready } :=
    (State.setState_thread_of_ne _ newtd .running hne).trans (State.setState_thread_self _ _ _)
  obtain ⟨cpu', i, hcount, -⟩ := hlost.ready (s.curthread cpu) (by rw [hthread])
    (by rw [hthread, hidle])
  have hmem := List.one_le_count_iff.mp (Nat.le_of_eq hcount.symm)
  change _ ∈ ((s.setState (s.curthread cpu) .ready).setSched cpu sched').head cpu' i at hmem
  rw [State.head_setSched] at hmem
  split at hmem
  next => exact h.current_not_queued cpu cpu i (hsub i _ hmem)
  next => exact h.current_not_queued cpu cpu' i hmem

/-- A run of allowed operations. -/
abbrev AllowedRun : State → Prop := Reach Boot fun s o s' => Allowed s o ∧ perform s o = .ok s'

theorem AllowedRun.inv (h : AllowedRun s) : Inv s :=
  h.invariant (P := Inv) (fun _ hboot => hboot.inv)
    fun _ _ _ hinv hstep => perform_inv hinv hstep.1 hstep.2

/-- **In every run in which only idle threads yield or are preempted, and no running thread is
submitted, the run queues hold the ready threads, each of them once; and the first thread that
yields or is preempted otherwise is lost.** -/
theorem allowedRun_noneLost {s : State} (h : AllowedRun s) :
    NoneLost s ∧ ∀ cpu reason junk s', perform s (.again cpu reason junk) = .ok s' →
      (NoneLost s' ↔ Allowed s (.again cpu reason junk)) := by
  refine ⟨h.inv.noneLost, fun cpu reason junk s' hrun => ⟨fun hlost hreason => ?_, fun hok => ?_⟩⟩
  · by_contra hidle
    exact schedAgain_lost h.inv hreason (by simpa using hidle) hrun hlost
  · exact (perform_inv h.inv hok hrun).noneLost

/-! ## A system with one CPU -/

/-- Thread 0 is the idle thread and thread 1 runs; the others are being set up. -/
def oneCpu : State where
  thread td :=
    { state := if td = 0 then .ready else if td = 1 then .running else .empty
      cpuId := -1
      priority := 120
      idle := td == 0
      stopping := false }
  sched cpu := if cpu = 0 then some ⟨0, fun _ => ⟨0, []⟩, 0⟩ else none
  curthread _ := 1

theorem oneCpu_boot : Boot oneCpu where
  queues cpu i := by
    unfold State.head
    split
    next h =>
      obtain ⟨-, h⟩ := Option.ite_none_right_eq_some.mp h
      cases h
      rfl
    next => rfl
  ready td h := by
    unfold oneCpu at h ⊢
    dsimp only at h ⊢
    split at h
    next h0 => rw [h0]; rfl
    next =>
      split at h
      · cases h
      · cases h
  idle td h := by
    obtain rfl : td = 0 := beq_iff_eq.mp h
    decide
  sched cpu sched h := by
    obtain ⟨-, h⟩ := Option.ite_none_right_eq_some.mp h
    cases h
    rfl

/-- Thread 2 is submitted, and thread 1 blocks. -/
theorem oneCpu_noneLost : ∃ s₁ s₂, perform oneCpu (.submit 2 0) = .ok s₁ ∧
    perform s₁ (.again 0 .blocked fun _ => 0) = .ok s₂ ∧ s₂.curthread 0 = 2 ∧ AllowedRun s₂ ∧
      NoneLost s₂ := by
  have hrun : (perform oneCpu (.submit 2 0)).toOption.any (fun s₁ =>
      (perform s₁ (.again 0 .blocked fun _ => 0)).toOption.any fun s₂ =>
        s₂.curthread 0 == 2) = true := by
    rfl
  obtain ⟨s₁, hs1, hrest⟩ := exists_ok_of_any hrun
  obtain ⟨s₂, hs2, hcur⟩ := exists_ok_of_any hrest
  have hsubmit : AllowedRun s₁ :=
    (Reach.start oneCpu_boot).next (.submit 2 0) ⟨fun _ => (by decide : (1 : Nat) ≠ 2), hs1⟩
  have hblock : AllowedRun s₂ := by
    refine hsubmit.next (.again 0 .blocked fun _ => 0) ⟨?_, hs2⟩
    rintro (h | h) <;> cases h
  exact ⟨s₁, s₂, hs1, hs2, beq_iff_eq.mp hcur, hblock, (allowedRun_noneLost hblock).1⟩

/-- Thread 1 yields, and is lost. -/
theorem oneCpu_yield_lost : AllowedRun oneCpu ∧
    ∃ s, perform oneCpu (.again 0 .yielded fun _ => 0) = .ok s ∧ (s.thread 1).state = .ready ∧
      s.curthread 0 = 0 ∧ ¬ NoneLost s := by
  have hrun : (perform oneCpu (.again 0 .yielded fun _ => 0)).toOption.any (fun s =>
      (s.thread 1).state == .ready && s.curthread 0 == 0) = true := by rfl
  obtain ⟨s, hs, hfields⟩ := exists_ok_of_any hrun
  obtain ⟨hready, hcur⟩ := Bool.and_eq_true_iff.mp hfields
  refine ⟨.start oneCpu_boot, s, hs, beq_iff_eq.mp hready, beq_iff_eq.mp hcur, ?_⟩
  exact schedAgain_lost oneCpu_boot.inv (.inl rfl) rfl hs

end Osdev.Sched
