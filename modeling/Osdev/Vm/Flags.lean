import Osdev.Base

/-!
# Mapping types and flags (`include/kernel/mm_types.h`)
-/

namespace Osdev.Vm

/-- `enum vm_type`. -/
inductive VmType where
  | rsvd
  | phys
  | page
  | file
  deriving DecidableEq, Repr

/-- A set of `VM_*` flags. -/
abbrev Flags := BitVec 32

/-- `flags & mask`, as a condition. -/
def Flags.has (flags mask : Flags) : Bool := flags &&& mask != 0

/-- `VM_READ`. -/
def vmRead : Flags := 1#32 <<< 0
/-- `VM_WRITE`. -/
def vmWrite : Flags := 1#32 <<< 1
/-- `VM_EXEC`. -/
def vmExec : Flags := 1#32 <<< 2
/-- `VM_RDWR`. -/
def vmRdwr : Flags := vmRead ||| vmWrite
/-- `VM_PRIVATE`. -/
def vmPrivate : Flags := 1#32 <<< 3
/-- `VM_USER`. -/
def vmUser : Flags := 1#32 <<< 5
/-- `VM_GLOBAL`. -/
def vmGlobal : Flags := 1#32 <<< 6
/-- `VM_NOCACHE`. -/
def vmNocache : Flags := 1#32 <<< 7
/-- `VM_WRITETHRU`. -/
def vmWritethru : Flags := 1#32 <<< 8
/-- `VM_HUGE_2MB`. -/
def vmHuge2Mb : Flags := 1#32 <<< 9
/-- `VM_HUGE_1GB`. -/
def vmHuge1Gb : Flags := 1#32 <<< 10
/-- `VM_NOMAP`. -/
def vmNomap : Flags := 1#32 <<< 11
/-- `VM_FIXED`. -/
def vmFixed : Flags := 1#32 <<< 12
/-- `VM_STACK`. -/
def vmStack : Flags := 1#32 <<< 13
/-- `VM_MALLOC`. -/
def vmMalloc : Flags := 1#32 <<< 16
/-- `VM_MAPPED`. -/
def vmMapped : Flags := 1#32 <<< 17
/-- `VM_LINKED`. -/
def vmLinked : Flags := 1#32 <<< 18
/-- `VM_SPLIT`. -/
def vmSplit : Flags := 1#32 <<< 19

/-- `VM_PROT_MASK`. -/
def vmProtMask : Flags := 0x7#32

/-- Testing for a flag of one bit is testing the bit. -/
theorem has_bit (flags : Flags) {n : Nat} (hn : n < 32) :
    flags.has (1#32 <<< n) = flags.getLsbD n := by
  have hand := BitVec.and_twoPow flags n
  rw [BitVec.twoPow] at hand
  rw [Flags.has, hand]
  cases flags.getLsbD n with
  | false => rfl
  | true =>
    simp only [if_true, bne_iff_ne, ne_eq]
    intro hzero
    have hbit := congrArg (BitVec.getLsbD · n) hzero
    simp [hn] at hbit

theorem has_vmStack (flags : Flags) : flags.has vmStack = flags.getLsbD 13 :=
  has_bit flags (by decide)

theorem has_vmLinked (flags : Flags) : flags.has vmLinked = flags.getLsbD 18 :=
  has_bit flags (by decide)

theorem has_vmUser (flags : Flags) : flags.has vmUser = flags.getLsbD 5 :=
  has_bit flags (by decide)

end Osdev.Vm
