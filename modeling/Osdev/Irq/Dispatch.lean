import Osdev.Lib.Except
import Mathlib.Data.List.Induction
import Mathlib.Logic.Function.Basic

/-!
# Interrupts (`kernel/irq.c`)

A source of interrupts has an IRQ number, an ISA interrupt may be overridden by another number, and
the CPU delivers a vector, which is 32 more. The table of handlers is indexed by vectors and the
table of ignored interrupts by IRQ numbers, but `interrupt_handler` looks up the vector in both. The
locks and the registers of the IOAPIC are not modelled.
-/

namespace Osdev.Irq

open Osdev.Lib

/-- How an operation can fail. -/
inductive Fault where
  | panic
  | assertion
  | outOfBounds
  deriving DecidableEq, Repr

/-- `NUM_EXCEPTS`. -/
def numExcepts : UInt8 := 32

/-- `NUM_INTERRUPTS`. -/
def numInterrupts : UInt8 := 224

/-- `NUM_ISA_IRQS`. -/
def numIsaIrqs : UInt8 := 16

/-- `IRQ_TO_VECTOR`, as a `uint8_t`. -/
def irqToVector (irq : UInt8) : UInt8 := irq + numExcepts

/-- `struct isa_irq_override` with `used` set. -/
structure IsaIrqOverride where
  destIrq : UInt8
  flags : UInt16

/-- What is fixed before the first operation: `irq_external_max`, the used ones of
`irq_isa_overrides`, and which interrupts have an IOAPIC. -/
structure Machine where
  externalMax : Nat
  isaOverride : UInt8 → Option IsaIrqOverride
  hasIoapic : UInt8 → Bool

/-- `struct irq_handler`. -/
inductive Handler where
  | pageFault
  | defaultException
  | unhandledInterrupt
  | registered (handler data : Nat)
  deriving DecidableEq, Repr

/-- `handlers` and `ignored_irqs`; the second table ends at `NUM_INTERRUPTS`. -/
structure State where
  handlers : UInt8 → Handler
  ignored : UInt8 → Bool

/-- The state after `irq_init`. -/
def State.init : State where
  handlers v :=
    if v < numExcepts then if v = 14 then .pageFault else .defaultException else .unhandledInterrupt
  ignored _ := false

section Functions

variable (m : Machine)

/-- The override that an IRQ has. -/
def Machine.override (irq : UInt8) : Option IsaIrqOverride :=
  if irq < numIsaIrqs then m.isaOverride irq else none

/-- `get_real_irqnum`. -/
def getRealIrqnum (irq : UInt8) : UInt8 :=
  match m.override irq with
  | some o => o.destIrq
  | none => irq

/-- `ioapic_set_isa_irq_routing`, as far as it can panic. -/
def ioapicSetIsaIrqRouting (isaIrq : UInt8) (flags : UInt16) : Except Fault Unit :=
  if isaIrq ≥ numIsaIrqs then .error .panic
  else if !m.hasIoapic isaIrq then .ok ()
  else if flags &&& 3 = 2 then .error .panic
  else if (flags >>> 2) &&& 3 = 2 then .error .panic
  else .ok ()

/-- `setup_irq_vector`. For an override it routes the destination, with the flags of the
destination. -/
def setupIrqVector (irq : UInt8) : Except Fault UInt8 :=
  if irq.toNat ≤ m.externalMax then
    match m.override irq with
    | some o => do
      ioapicSetIsaIrqRouting m o.destIrq (((m.override o.destIrq).map (·.flags)).getD 0)
      .ok (irqToVector o.destIrq)
    | none => .ok (irqToVector irq)
  else .ok (irqToVector irq)

/-- `mask_irq` and `unmask_irq`. -/
def setIgnored (irq : UInt8) (mask : Bool) (s : State) : Except Fault State :=
  let irq := getRealIrqnum m irq
  if irq < numInterrupts then .ok { s with ignored := Function.update s.ignored irq mask }
  else .error .outOfBounds

/-- `irq_register_handler`. -/
def irqRegisterHandler (irq : UInt8) (handler data : Nat) (s : State) : Except Fault State :=
  if irq ≥ numInterrupts then .ok s
  else do
    let vector ← setupIrqVector m irq
    setIgnored m irq true
      { s with handlers := Function.update s.handlers vector (.registered handler data) }

/-- `irq_unregister_handler`. -/
def irqUnregisterHandler (irq : UInt8) (s : State) : Except Fault State :=
  if irq ≥ numInterrupts then .ok s
  else
    let vector := irqToVector (getRealIrqnum m irq)
    setIgnored m irq false
      { s with handlers := Function.update s.handlers vector .unhandledInterrupt }

/-- `irq_enable_interrupt` and `irq_disable_interrupt`. -/
def irqSetInterrupt (irq : UInt8) (mask : Bool) (s : State) : Except Fault State :=
  if irq ≥ numInterrupts then .ok s else setIgnored m irq mask s

/-- `irq_enable_msi_interrupt` and `irq_disable_msi_interrupt`, without the device. -/
def irqSetMsiInterrupt (irq : UInt8) (mask : Bool) (s : State) : Except Fault State :=
  if irq.toNat ≤ m.externalMax then .error .assertion else irqSetInterrupt m irq mask s

end Functions

/-- `interrupt_handler`: the handler that is called, or none if the interrupt is dropped. `behind`
is what lies in memory behind `ignored_irqs`, up to index 255. -/
def interruptHandler (behind : UInt8 → UInt8) (s : State) (vector : UInt8) : Option Handler :=
  let dropped := if vector < numInterrupts then s.ignored vector else behind vector != 0
  if dropped then none else some (s.handlers vector)

/-! ## Runs -/

/-- The operations of a run. -/
inductive Op where
  | register (irq : UInt8) (handler data : Nat)
  | unregister (irq : UInt8)
  | enable (irq : UInt8)
  | disable (irq : UInt8)
  | enableMsi (irq : UInt8)
  | disableMsi (irq : UInt8)

def step (m : Machine) (s : State) : Op → Except Fault State
  | .register irq handler data => irqRegisterHandler m irq handler data s
  | .unregister irq => irqUnregisterHandler m irq s
  | .enable irq => irqSetInterrupt m irq false s
  | .disable irq => irqSetInterrupt m irq true s
  | .enableMsi irq => irqSetMsiInterrupt m irq false s
  | .disableMsi irq => irqSetMsiInterrupt m irq true s

def run (m : Machine) (ops : List Op) (s : State) : Except Fault State := ops.foldlM (step m) s

/-- The IRQ number of an operation. -/
def Op.irq : Op → UInt8
  | .register irq _ _ | .unregister irq | .enable irq | .disable irq
  | .enableMsi irq | .disableMsi irq => irq

/-- Whether an operation leaves its interrupt disabled. A handler is registered disabled. -/
def Op.disables : Op → Bool
  | .register .. | .disable _ | .disableMsi _ => true
  | .unregister _ | .enable _ | .enableMsi _ => false

/-- The operation is on the IRQ that maps to the vector, as `irq_get_vector` says. -/
def Op.on (m : Machine) (v : UInt8) (op : Op) : Bool :=
  op.irq < numInterrupts && irqToVector (getRealIrqnum m op.irq) == v

/-- Whether the IRQ that maps to the vector is disabled after the operations: the last one on it
decides. -/
def disabledAfter (m : Machine) (v : UInt8) (ops : List Op) : Bool :=
  ops.foldl (fun old op => if op.on m v then op.disables else old) false

/-- Each interrupt calls the handler for its vector, unless the vector is one of a disabled IRQ; an
exception always does. -/
def Dispatches (m : Machine) (behind : UInt8 → UInt8) (ops : List Op) (s : State) : Prop :=
  ∀ v, interruptHandler behind s v =
    if numExcepts ≤ v && disabledAfter m v ops then none else some (s.handlers v)

section Runs

variable {m : Machine} {s s' : State} {ops : List Op} {op : Op} {behind : UInt8 → UInt8}

/-- A table of ignored interrupts that says which IRQs are disabled, and no exception is one. -/
structure Agrees (m : Machine) (ops : List Op) (s : State) : Prop where
  ignored : ∀ irq, irq < numInterrupts → s.ignored irq = disabledAfter m (irqToVector irq) ops
  exception : ∀ v, v < numExcepts → disabledAfter m v ops = false

theorem disabledAfter_concat {v : UInt8} :
    disabledAfter m v (ops ++ [op]) = if op.on m v then op.disables else disabledAfter m v ops := by
  simp [disabledAfter]

theorem irqToVector_inj {i j : UInt8} (h : irqToVector i = irqToVector j) : i = j :=
  (UInt8.add_left_inj _).mp h

theorem irqToVector_ge {i : UInt8} (hi : i < numInterrupts) : numExcepts ≤ irqToVector i := by
  have hi : i.toNat < 224 := hi
  have hsum : (irqToVector i).toNat = (i.toNat + 32) % 256 := UInt8.toNat_add _ _
  show 32 ≤ (irqToVector i).toNat
  omega

theorem setIgnored_ok {irq : UInt8} {mask : Bool} (h : setIgnored m irq mask s = .ok s') :
    getRealIrqnum m irq < numInterrupts ∧
      s'.ignored = Function.update s.ignored (getRealIrqnum m irq) mask := by
  obtain ⟨hlt, h⟩ := check_eq_ok.mp h
  cases h
  exact ⟨hlt, rfl⟩

theorem irqSetInterrupt_ok {irq : UInt8} {mask : Bool} (h : irqSetInterrupt m irq mask s = .ok s') :
    if irq < numInterrupts then getRealIrqnum m irq < numInterrupts ∧
      s'.ignored = Function.update s.ignored (getRealIrqnum m irq) mask
    else s'.ignored = s.ignored := by
  unfold irqSetInterrupt at h
  split at h
  next hge =>
    cases h
    rw [if_neg (UInt8.not_lt.mpr hge)]
  next hlt =>
    rw [if_pos (UInt8.not_le.mp hlt)]
    exact setIgnored_ok h

theorem irqRegisterHandler_ok {irq : UInt8} {handler data : Nat}
    (h : irqRegisterHandler m irq handler data s = .ok s') :
    if irq < numInterrupts then getRealIrqnum m irq < numInterrupts ∧
      s'.ignored = Function.update s.ignored (getRealIrqnum m irq) true
    else s'.ignored = s.ignored := by
  unfold irqRegisterHandler at h
  split at h
  next hge =>
    cases h
    rw [if_neg (UInt8.not_lt.mpr hge)]
  next hlt =>
    rw [if_pos (UInt8.not_le.mp hlt)]
    obtain ⟨vector, -, h⟩ := bind_ok h
    obtain ⟨hreal, hset⟩ := setIgnored_ok h
    exact ⟨hreal, hset⟩

theorem irqUnregisterHandler_ok {irq : UInt8} (h : irqUnregisterHandler m irq s = .ok s') :
    if irq < numInterrupts then getRealIrqnum m irq < numInterrupts ∧
      s'.ignored = Function.update s.ignored (getRealIrqnum m irq) false
    else s'.ignored = s.ignored := by
  unfold irqUnregisterHandler at h
  split at h
  next hge =>
    cases h
    rw [if_neg (UInt8.not_lt.mpr hge)]
  next hlt =>
    rw [if_pos (UInt8.not_le.mp hlt)]
    obtain ⟨hreal, hset⟩ := setIgnored_ok h
    exact ⟨hreal, hset⟩

theorem irqSetMsiInterrupt_ok {irq : UInt8} {mask : Bool}
    (h : irqSetMsiInterrupt m irq mask s = .ok s') : irqSetInterrupt m irq mask s = .ok s' := by
  obtain ⟨-, h⟩ := guard_eq_ok.mp h
  exact h

/-- An operation changes the entry of its own IRQ. -/
theorem step_ignored (h : step m s op = .ok s') :
    if op.irq < numInterrupts then getRealIrqnum m op.irq < numInterrupts ∧
      s'.ignored = Function.update s.ignored (getRealIrqnum m op.irq) op.disables
    else s'.ignored = s.ignored := by
  cases op with
  | register irq handler data => exact irqRegisterHandler_ok h
  | unregister irq => exact irqUnregisterHandler_ok h
  | enable irq => exact irqSetInterrupt_ok h
  | disable irq => exact irqSetInterrupt_ok h
  | enableMsi irq => exact irqSetInterrupt_ok (irqSetMsiInterrupt_ok h)
  | disableMsi irq => exact irqSetInterrupt_ok (irqSetMsiInterrupt_ok h)

theorem Agrees.step (hs : Agrees m ops s) (h : Irq.step m s op = .ok s') :
    Agrees m (ops ++ [op]) s' := by
  have hstep := step_ignored h
  by_cases hirq : op.irq < numInterrupts
  · rw [if_pos hirq] at hstep
    obtain ⟨hreal, hset⟩ := hstep
    refine ⟨fun irq hlt => ?_, fun v hv => ?_⟩
    · rw [hset, disabledAfter_concat]
      by_cases heq : irq = getRealIrqnum m op.irq
      · subst heq
        have hon : op.on m (irqToVector (getRealIrqnum m op.irq)) = true := by simp [Op.on, hirq]
        rw [if_pos hon, Function.update_self]
      · have hoff : ¬ op.on m (irqToVector irq) = true := by
          intro hon
          simp only [Op.on, Bool.and_eq_true, beq_iff_eq] at hon
          exact heq (irqToVector_inj hon.2).symm
        rw [if_neg hoff, Function.update_of_ne heq]
        exact hs.ignored irq hlt
    · have hoff : ¬ op.on m v = true := by
        intro hon
        simp only [Op.on, Bool.and_eq_true, beq_iff_eq] at hon
        exact absurd (irqToVector_ge hreal) (UInt8.not_le.mpr (hon.2 ▸ hv))
      rw [disabledAfter_concat, if_neg hoff]
      exact hs.exception v hv
  · rw [if_neg hirq] at hstep
    have hoff : ∀ v, ¬ op.on m v = true := fun v hon => by
      simp only [Op.on, Bool.and_eq_true, decide_eq_true_eq] at hon
      exact hirq hon.1
    refine ⟨fun irq hlt => ?_, fun v hv => ?_⟩
    · rw [hstep, disabledAfter_concat, if_neg (hoff _)]
      exact hs.ignored irq hlt
    · rw [disabledAfter_concat, if_neg (hoff _)]
      exact hs.exception v hv

theorem run_agrees (h : run m ops .init = .ok s) : Agrees m ops s := by
  induction ops using List.reverseRecOn generalizing s with
  | nil =>
    cases h
    exact ⟨fun _ _ => rfl, fun _ _ => rfl⟩
  | append_singleton ops op ih =>
    unfold run at h
    rw [List.foldlM_append] at h
    obtain ⟨s1, hrun, h⟩ := bind_ok h
    obtain ⟨s2, hstep, h⟩ := bind_ok h
    cases h
    exact (ih hrun).step hstep

/-- If every interrupt is dispatched as it should be, each entry of the table is also the one 32
places before it, and so none is set. -/
theorem Dispatches.none_disabled (hs : Agrees m ops s) (h : Dispatches m behind ops s) (v : UInt8) :
    disabledAfter m v ops = false := by
  -- a vector is dropped according to the IRQ of the same number, which is that of a later vector
  induction hn : v.toNat using Nat.strongRecOn generalizing v with
  | _ n ih =>
    by_cases hv : v < numExcepts
    · exact hs.exception v hv
    · have hv : 32 ≤ v.toNat := Nat.le_of_not_lt hv
      have hprev : (v - 32).toNat = v.toNat - 32 := UInt8.toNat_sub_of_le _ _ hv
      have hlt : v - 32 < numInterrupts := by
        have := v.toNat_lt
        show (v - 32).toNat < 224
        omega
      have hback : irqToVector (v - 32) = v := UInt8.sub_add_cancel v 32
      have hsmaller := ih (v - 32).toNat (by omega) (v - 32) rfl
      have hlaw := h (v - 32)
      rw [hsmaller] at hlaw
      unfold interruptHandler at hlaw
      rw [if_pos hlt, hs.ignored _ hlt, hback] at hlaw
      cases hdis : disabledAfter m v ops with
      | false => rfl
      | true =>
        simp [hdis] at hlaw

/-- **Interrupts are dispatched as they should be if and only if no IRQ is disabled** (and the
memory behind the table, which is read for the last 32 vectors, is zero). -/
theorem dispatches_iff (h : run m ops .init = .ok s) :
    Dispatches m behind ops s ↔
      (∀ v, disabledAfter m v ops = false) ∧ ∀ v, numInterrupts ≤ v → behind v = 0 := by
  have hs := run_agrees h
  constructor
  · intro hd
    have hnone := hd.none_disabled hs
    refine ⟨hnone, fun v hv => ?_⟩
    have hlaw := hd v
    rw [hnone v] at hlaw
    unfold interruptHandler at hlaw
    rw [if_neg (UInt8.not_lt.mpr hv)] at hlaw
    by_contra hne
    simp [bne_iff_ne.mpr hne] at hlaw
  · rintro ⟨hnone, hbehind⟩ v
    rw [hnone v, Bool.and_false, if_neg Bool.false_ne_true]
    unfold interruptHandler
    by_cases hv : v < numInterrupts
    · rw [if_pos hv, hs.ignored v hv, hnone]
      rfl
    · rw [if_neg hv, hbehind v (UInt8.not_lt.mp hv)]
      rfl

end Runs

/-! ## A machine without overrides -/

/-- An IOAPIC for 24 interrupts, and no overrides. -/
def plainMachine : Machine := ⟨24, fun _ => none, fun irq => irq < 24⟩

theorem plainMachine_dispatches_iff :
    ∃ s, run plainMachine [.register 1 100 0, .enable 1] .init = .ok s ∧
      (Dispatches plainMachine (fun _ => 0) [.register 1 100 0, .enable 1] s ↔
        (∀ v, disabledAfter plainMachine v [.register 1 100 0, .enable 1] = false) ∧
          ∀ v, numInterrupts ≤ v → (fun _ => (0 : UInt8)) v = 0) := by
  obtain ⟨s, hs⟩ := exists_of_toBool
    (x := run plainMachine [.register 1 100 0, .enable 1] .init) rfl
  exact ⟨s, hs, dispatches_iff hs⟩

/-- **Registering a handler for IRQ 14 has the effect that page faults are dropped**, and the
interrupt, which is disabled, still calls the handler. -/
theorem plainMachine_drops_pageFault :
    ∃ s, run plainMachine [.register 14 100 0] .init = .ok s ∧
      interruptHandler (fun _ => 0) s 14 = none ∧
      interruptHandler (fun _ => 0) s 46 = some (.registered 100 0) ∧
      ¬ Dispatches plainMachine (fun _ => 0) [.register 14 100 0] s := by
  obtain ⟨s, hs⟩ := exists_of_toBool (x := run plainMachine [.register 14 100 0] .init) rfl
  have hstate : run plainMachine [.register 14 100 0] .init = .ok
      ⟨Function.update State.init.handlers 46 (.registered 100 0),
        Function.update State.init.ignored 14 true⟩ := rfl
  cases hs.symm.trans hstate
  refine ⟨_, hs, by decide, by decide, fun hd => ?_⟩
  have hlaw := hd 14
  revert hlaw
  decide

end Osdev.Irq
