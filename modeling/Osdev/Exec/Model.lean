import Osdev.Unmapped
import Osdev.Vm.Flags

/-!
# The stack of a new process (`kernel/exec.c`, `kernel/proc.c`)

`pstrings_alloc` packs argument or environment strings into freshly allocated pages, and
`exec_image_setup_stack` builds the first stack of a process: pages of its own for the path of the
executable and for the pointers, and copy-on-write pages for the strings. The frames that
`alloc_pages` returns are arguments of the model, and so is `ARG_MAX`, which belongs to the C
library.
-/

namespace Osdev.Exec

open Osdev.Lib

/-- How the kernel can fail. -/
inductive Fault where
  | assertion
  /-- an access by the kernel outside its mappings -/
  | pageFault
  | kio (fault : Kio.Fault)
  deriving DecidableEq, Repr

/-- A C string, without the NUL byte that ends it. -/
abbrev CStr := { s : List UInt8 // (0 : UInt8) ∉ s }

/-! ## `struct pstrings` -/

/-- `struct pstrings`. The pages are mapped at `kptr`, which the model does not name. -/
structure Pstrings where
  count : Nat
  size : Nat
  pages : List Nat
  deriving DecidableEq, Repr

/-- `*pstr = c`, for a pointer into a mapped page list. -/
def putChar (pages : List Nat) (i : Nat) (c : UInt8) (m : Mem) : Except Fault Mem :=
  match Paged.addr pageSize pages i with
  | none => .error .pageFault
  | some a => .ok (m.store a [c])

/-- The inner loop of `pstrings_alloc`, with the NUL byte after it. -/
def putString (pages : List Nat) : Nat → List UInt8 → Mem → Except Fault Mem
  | i, [], m => putChar pages i 0 m
  | i, c :: cs, m => do
    let m' ← putChar pages i c m
    putString pages (i + 1) cs m'

/-- The copying loop of `pstrings_alloc`. -/
def putStrings (pages : List Nat) : Nat → List CStr → Mem → Except Fault Mem
  | _, [], m => .ok m
  | i, s :: ss, m => do
    let m' ← putString pages i s.1 m
    putStrings pages (i + s.1.length + 1) ss m'

/-- `full_size` of `pstrings_alloc`. -/
def fullSize (strings : List CStr) : Nat :=
  (strings.map fun s => s.1.length + 1).sum

/-- `pstrings_alloc`, with the pages that it allocates. -/
def pstringsAlloc (pages : List Nat) (strings : List CStr) (m : Mem) :
    Except Fault (Option Pstrings × Mem) :=
  if strings.length = 0 then .ok (none, m)
  else if fullSize strings > 2 ^ 20 then .ok (none, m)
  else do
    let m' ← putStrings pages 0 strings m
    .ok (some ⟨strings.length, fullSize strings, pages⟩, m')

/-- The first lines of `proc_setup_exec`: missing strings become an empty `struct pstrings`. -/
def orEmpty (strings : Option Pstrings) : Pstrings := strings.getD ⟨0, 0, []⟩

/-! ## The stack -/

/-- `struct exec_image`, as far as the stack depends on it. `interp` is the base address of the
interpreter. -/
structure ExecImage where
  path : CStr
  base : Nat
  entry : Nat
  phdr : Nat
  phnum : Nat
  interp : Option Nat

/-- `struct pcreds`. -/
structure Pcreds where
  uid : Nat
  euid : Nat
  gid : Nat
  egid : Nat
  deriving DecidableEq, Repr

/-- `vm_desc_t` of type `VM_TYPE_PAGE`. -/
structure VmDesc where
  address : Nat
  size : Nat
  vmFlags : Vm.Flags
  name : String
  pages : List Nat
  deriving DecidableEq, Repr

/-- `struct exec_stack`. -/
structure ExecStack where
  base : Nat
  size : Nat
  off : Nat
  pages : List Nat
  descs : List VmDesc
  deriving DecidableEq, Repr

/-- `strlen(kptr + i)`. It runs to the first NUL byte, or off the end of the mapping. -/
def strlen (byte : Nat → Option UInt8) : Nat → Nat → Except Fault Nat
  | 0, _ => .error .pageFault
  | fuel + 1, i =>
    match byte i with
    | none => .error .pageFault
    | some c =>
      if c = 0 then .ok 0
      else do
        let n ← strlen byte fuel (i + 1)
        .ok (n + 1)

/-- The loops that fill `arg_ptrs` and `env_ptrs`, from slot `slot` on. Each round sets `off` to the
length of the string it has just passed. -/
def ptrLoop (pages : List Nat) (m : Mem) (uptrBase : Nat) :
    Nat → Nat → Nat → List Nat → Except Fault (List Nat)
  | 0, _, _, ptrs => .ok ptrs
  | n + 1, slot, off, ptrs => do
    let len ← strlen (Paged.byte pageSize pages m) (pageSize * pages.length + 1) off
    ptrLoop pages m uptrBase n (slot + 1) (len + 1) (ptrs.set slot (addWord uptrBase off))

/-- The argument strings: `arg_ptrs`, their descriptor and `args_size`. -/
def setupArgs (argMax stackBase stackSize : Nat) (args : Pstrings) (argPtrs : List Nat) (m : Mem) :
    Except Fault (List Nat × List VmDesc × Nat) :=
  if args.count > 0 then
    if argMax < args.count then .error .assertion
    else do
      let argsSize := align args.size pageSize
      let ptrs ← ptrLoop args.pages m (addWord stackBase stackSize) args.count 1 0 argPtrs
      .ok (ptrs, [⟨addWord stackBase stackSize, argsSize, Vm.vmRead, "arg", args.pages⟩], argsSize)
  else .ok (argPtrs, [], 0)

/-- The environment strings: `env_ptrs` and their descriptor. The loop runs `args->count` times. -/
def setupEnv (argMax stackBase stackSize argsSize : Nat) (args env : Pstrings) (envPtrs : List Nat)
    (m : Mem) : Except Fault (List Nat × List VmDesc) :=
  if env.count > 0 then
    if argMax < env.count then .error .assertion
    else do
      let envSize := align env.size pageSize
      let uptrBase := addWord (addWord stackBase stackSize) argsSize
      let ptrs ← ptrLoop env.pages m uptrBase args.count 0 0 envPtrs
      .ok (ptrs, [⟨uptrBase, envSize, Vm.vmRead, "env", env.pages⟩])
  else .ok (envPtrs, [])

/-- `auxv`, with the `AT_*` numbers of the ELF ABI. -/
def auxv (image : ExecImage) (creds : Pcreds) : List Nat :=
  [3, image.phdr, 5, image.phnum, 4, 56, 7, image.interp.getD image.base, 9, image.entry,
    6, pageSize, 11, creds.uid, 12, creds.euid, 13, creds.gid, 14, creds.egid, 0, 0, 0, 0]

/-- `rw_unmapped_pages` from a kernel buffer. -/
def copyIn (pages : List Nat) (off : Nat) (bs : List UInt8) (m : Mem) : Except Fault Mem := do
  let (_, _, m') ← (Unmapped.rwUnmappedPages pages off (Kio.newReadable bs) m).mapError .kio
  .ok m'

/-- `exec_image_setup_stack`, with the pages that it allocates. -/
def execImageSetupStack (argMax : Nat) (image : ExecImage) (stackBase stackSize : Nat)
    (creds : Pcreds) (args env : Pstrings) (stackPages : List Nat) (m : Mem) :
    Except Fault (ExecStack × Mem) := do
  let stackDesc : VmDesc :=
    ⟨stackBase, stackSize, Vm.vmStack ||| Vm.vmRdwr, "stack", stackPages⟩
  -- `kio_readonly_from_str` stops before the NUL byte
  let pathOff := subWord stackSize (align (image.path.1.length + 1) 8)
  let m₁ ← copyIn stackPages pathOff image.path.1 m
  let argPtrs := (List.replicate (argMax + 2) 0).set 0 (addWord stackBase pathOff)
  let (argPtrs, argDescs, argsSize) ← setupArgs argMax stackBase stackSize args argPtrs m₁
  let argPtrs := argPtrs.set (args.count + 1) 0
  let (envPtrs, envDescs) ←
    setupEnv argMax stackBase stackSize argsSize args env (List.replicate (argMax + 1) 0) m₁
  let envPtrs := envPtrs.set env.count 0
  let auxOff := subWord pathOff (8 * (auxv image creds).length)
  let m₂ ← copyIn stackPages auxOff (wordBytes 8 (auxv image creds)) m₁
  let envOff := subWord auxOff (8 * (env.count + 1))
  let m₃ ← copyIn stackPages envOff (wordBytes 8 (envPtrs.take (env.count + 1))) m₂
  let argOff := subWord envOff (8 * (args.count + 1))
  let m₄ ← copyIn stackPages argOff (wordBytes 8 (argPtrs.take (args.count + 1))) m₃
  let argcOff := subWord argOff 8
  let m₅ ← copyIn stackPages argcOff (wordBytes 8 [args.count + 1]) m₄
  .ok (⟨stackBase, stackSize, argcOff, stackPages, stackDesc :: (argDescs ++ envDescs)⟩, m₅)

/-! ## What the process sees -/

/-- The byte at a virtual address, once the descriptors are mapped. -/
def userByte (stack : ExecStack) (m : Mem) (va : Nat) : Option UInt8 :=
  match stack.descs.find? fun d => decide (d.address ≤ va) && decide (va < d.address + d.size) with
  | none => none
  | some d => Paged.byte pageSize d.pages m (va - d.address)

/-- The initial stack pointer, as `proc_setup_exec` sets it. -/
def ExecStack.rsp (stack : ExecStack) : Nat := addWord stack.base stack.off

end Osdev.Exec
