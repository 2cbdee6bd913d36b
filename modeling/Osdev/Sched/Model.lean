import Osdev.Lib.Except
import Mathlib.Logic.Function.Basic

/-!
# The scheduler (`kernel/sched.c`, the run queues of `kernel/tqueue.c`, `thread_stop` of
`kernel/proc.c`)

Each CPU has a scheduler with 64 run queues and an idle thread. A thread is named by its address.
The operations are atomic here: each holds the locks of the threads and queues it changes. A run
queue is the list of its threads; its links and the back pointer `td->runq` are not modelled.
-/

namespace Osdev.Sched

/-- How an operation can fail. -/
inductive Fault where
  | assertion
  /-- a link of a thread that is on no list -/
  | nullDeref
  deriving DecidableEq, Repr

/-- `enum thread_state`. -/
inductive ThreadState where
  | empty
  | ready
  | running
  | blocked
  | waiting
  | exited
  deriving DecidableEq, Repr

/-- `sched_reason_t`. -/
inductive Reason where
  | updated
  | yielded
  | blocked
  | sleeping
  | preempted
  | exited
  deriving DecidableEq, Repr

/-- `struct thread`, as far as the scheduler uses it. -/
structure Thread where
  state : ThreadState
  cpuId : Int
  priority : UInt8
  /-- `TDF_IDLE` -/
  idle : Bool
  /-- `TDF2_STOPPING` -/
  stopping : Bool

/-- `struct runqueue`. -/
structure Runqueue where
  count : Nat
  head : List Nat

/-- `sched_t`. -/
structure CpuSched where
  readymask : BitVec 64
  queues : Nat → Runqueue
  idle : Nat

/-- The threads, `cpu_scheds`, and `curthread` of each CPU. -/
structure State where
  thread : Nat → Thread
  sched : Nat → Option CpuSched
  curthread : Nat → Nat

/-- `NRUNQS`. -/
def nrunqs : Nat := 64

namespace State

def setThread (s : State) (td : Nat) (t : Thread) : State :=
  { s with thread := Function.update s.thread td t }

def setSched (s : State) (cpu : Nat) (sched : CpuSched) : State :=
  { s with sched := Function.update s.sched cpu (some sched) }

def setCurthread (s : State) (cpu td : Nat) : State :=
  { s with curthread := Function.update s.curthread cpu td }

/-- `TD_SET_STATE`. -/
def setState (s : State) (td : Nat) (state : ThreadState) : State :=
  s.setThread td { s.thread td with state := state }

/-- `cpu_scheds[cpu]`, which is asserted to be there. -/
def getSched (s : State) (cpu : Nat) : Except Fault CpuSched :=
  match s.sched cpu with
  | some sched => .ok sched
  | none => .error .assertion

/-- The threads of a run queue. -/
def head (s : State) (cpu i : Nat) : List Nat :=
  match s.sched cpu with
  | some sched => (sched.queues i).head
  | none => []

section

variable (s : State) (td : Nat) (state : ThreadState)

@[simp]
theorem setState_thread_self :
    (s.setState td state).thread td = { s.thread td with state := state } :=
  Function.update_self _ _ _

theorem setState_thread_of_ne {t : Nat} (h : t ≠ td) :
    (s.setState td state).thread t = s.thread t :=
  Function.update_of_ne h _ _

@[simp]
theorem setState_sched : (s.setState td state).sched = s.sched := rfl

end

theorem sched_setSched (s : State) (cpu : Nat) (sched : CpuSched) (cpu' : Nat) :
    (s.setSched cpu sched).sched cpu' = if cpu' = cpu then some sched else s.sched cpu' :=
  Function.update_apply _ _ _ _

theorem head_setSched (s : State) (cpu : Nat) (sched : CpuSched) (cpu' i : Nat) :
    (s.setSched cpu sched).head cpu' i =
      if cpu' = cpu then (sched.queues i).head else s.head cpu' i := by
  unfold head
  rw [sched_setSched]
  by_cases h : cpu' = cpu
  · rw [if_pos h, if_pos h]
  · rw [if_neg h, if_neg h]

end State

/-! ## Run queues -/

/-- `td->priority / 4`. -/
def Thread.queue (t : Thread) : Nat := t.priority.toNat / 4

/-- `1 << i` as a 64-bit mask. The shift is one of an `int`, by `i` modulo 32, and is
sign-extended. -/
def maskBit (i : Nat) : BitVec 64 := (1#32 <<< (i % 32)).signExtend 64

/-- `bit_ffs64`, for a mask that is not zero. -/
def ffs (mask : BitVec 64) : Nat := ((List.range 64).find? fun i => mask.getLsbD i).getD 0

def CpuSched.setQueue (sched : CpuSched) (i : Nat) (q : Runqueue) : CpuSched :=
  { sched with queues := Function.update sched.queues i q }

theorem CpuSched.setQueue_self (sched : CpuSched) (i : Nat) (q : Runqueue) :
    (sched.setQueue i q).queues i = q :=
  Function.update_self _ _ _

theorem CpuSched.setQueue_of_ne (sched : CpuSched) {i j : Nat} (q : Runqueue) (h : j ≠ i) :
    (sched.setQueue i q).queues j = sched.queues j :=
  Function.update_of_ne h _ _

/-- `runq_add`: a thread goes to the head. -/
def runqAdd (q : Runqueue) (td : Nat) : Runqueue := ⟨q.count + 1, td :: q.head⟩

/-- `runq_remove`, with what it stores in `empty`: `count` is the number before the removal. -/
def runqRemove (q : Runqueue) (td : Nat) : Except Fault (Runqueue × Bool) :=
  if td ∈ q.head then .ok (⟨q.count - 1, q.head.erase td⟩, q.count == 0) else .error .nullDeref

/-- `runq_next_thread`. If the queue has no thread, `empty` comes from the uninitialised variable
`count`, which holds `junk`. -/
def runqNextThread (junk : Nat) (q : Runqueue) : Except Fault (Option Nat × Runqueue × Bool) :=
  match q.head with
  | [] => .ok (none, q, junk == 0)
  | td :: rest =>
    if q.count = 0 then .error .assertion
    else .ok (some td, ⟨q.count - 1, rest⟩, q.count == 0)

/-! ## Picking a thread -/

/-- `sched_runq_get_next_thread`. -/
def schedRunqGetNextThread (junk : Nat) (sched : CpuSched) (i : Nat) :
    Except Fault (Option Nat × CpuSched) := do
  let (td, q, empty) ← runqNextThread junk (sched.queues i)
  let sched := sched.setQueue i q
  .ok (td, if empty then { sched with readymask := sched.readymask &&& ~~~(maskBit i) } else sched)

/-- The linear scan of `sched_next_thread`. -/
def scanQueues (junk : Nat → Nat) : List Nat → CpuSched → Except Fault (Option Nat × CpuSched)
  | [], sched => .ok (none, sched)
  | i :: rest, sched =>
    if 0 < (sched.queues i).count then do
      let (td, sched) ← schedRunqGetNextThread (junk i) sched i
      match td with
      | some td => .ok (some td, sched)
      | none => scanQueues junk rest sched
    else scanQueues junk rest sched

/-- The rest of `sched_next_thread` when the ready mask gave no thread. -/
def scanOrIdle (junk : Nat → Nat) (sched : CpuSched) : Except Fault (Nat × CpuSched) := do
  let (td, sched) ← scanQueues junk (List.range nrunqs) sched
  .ok (td.getD sched.idle, sched)

/-- `sched_next_thread`. The uninitialised variable holds `junk nrunqs` in the first try and `junk
i` in the scan of queue `i`. -/
def schedNextThread (junk : Nat → Nat) (sched : CpuSched) : Except Fault (Nat × CpuSched) :=
  if sched.readymask = 0 then scanOrIdle junk sched
  else do
    let i := ffs sched.readymask
    let (td, sched) ← schedRunqGetNextThread (junk nrunqs) sched i
    match td with
    | some td => .ok (td, { sched with readymask := sched.readymask ^^^ maskBit i })
    | none => scanOrIdle junk sched

/-! ## Operations -/

/-- `sched_submit_new_thread`, for the CPU that `select_cpu_for_new_thread` selects. -/
def schedSubmitNewThread (td cpu : Nat) (s : State) : Except Fault State :=
  if (s.thread td).state ≠ .empty then .error .assertion
  else do
    let sched ← s.getSched cpu
    let t := { s.thread td with state := .ready, cpuId := cpu }
    let i := t.queue
    let sched := sched.setQueue i (runqAdd (sched.queues i) td)
    .ok ((s.setThread td t).setSched cpu { sched with readymask := sched.readymask ||| maskBit i })

/-- `sched_remove_ready_thread`. -/
def schedRemoveReadyThread (td : Nat) (s : State) : Except Fault State :=
  let t := s.thread td
  if t.state ≠ .ready ∨ t.cpuId < 0 then .error .assertion
  else do
    let sched ← s.getSched t.cpuId.toNat
    let i := t.queue
    let (q, empty) ← runqRemove (sched.queues i) td
    let sched := sched.setQueue i q
    .ok (s.setSched t.cpuId.toNat
      (if empty then { sched with readymask := sched.readymask &&& ~~~(maskBit i) } else sched))

/-- The first part of `sched_again`: the state of the thread that is switched away from. -/
def leave (reason : Reason) (td : Nat) (s : State) : Except Fault State :=
  match reason with
  | .updated => .ok s
  | .yielded => .ok (s.setState td .ready)
  | .blocked => .ok (s.setState td .blocked)
  | .sleeping => .ok (s.setState td .waiting)
  | .preempted => .ok (s.setState td .ready)
  | .exited => if (s.thread td).stopping then .ok (s.setState td .exited) else .error .assertion

/-- `sched_again` on a CPU. -/
def schedAgain (cpu : Nat) (reason : Reason) (junk : Nat → Nat) (s : State) :
    Except Fault State := do
  let sched ← s.getSched cpu
  let s ← leave reason (s.curthread cpu) s
  let (newtd, sched) ← schedNextThread junk sched
  .ok (((s.setSched cpu sched).setState newtd .running).setCurthread cpu newtd)

/-- `thread_stop` on a CPU. If the thread runs on another CPU, that one is told to switch away from
it, which is an operation of its own. -/
def threadStop (cpu td : Nat) (junk : Nat → Nat) (s : State) : Except Fault State :=
  if (s.thread td).state = .exited then .error .assertion
  else
    let s := s.setThread td { s.thread td with stopping := true }
    if (s.thread td).state = .running then
      if td = s.curthread cpu ∨ (s.thread td).cpuId = cpu then schedAgain cpu .exited junk s
      else .ok s
    else if (s.thread td).state = .ready then do
      let s ← schedRemoveReadyThread td s
      .ok (s.setState td .exited)
    else .ok (s.setState td .exited)

/-- The operations of a run. -/
inductive Op where
  | submit (td cpu : Nat)
  | again (cpu : Nat) (reason : Reason) (junk : Nat → Nat)
  | stop (cpu td : Nat) (junk : Nat → Nat)

/-- One operation of a run. -/
def perform (s : State) : Op → Except Fault State
  | .submit td cpu => schedSubmitNewThread td cpu s
  | .again cpu reason junk => schedAgain cpu reason junk s
  | .stop cpu td junk => threadStop cpu td junk s

end Osdev.Sched
