import Mathlib
import Osdev.Exec.Model

/-!
# The layout of the first stack

What `exec_image_setup_stack` writes at the stack pointer is one array of words: `argc`, the `argv`
pointers, the `envp` pointers with a null word after them, and the auxiliary vector. The null word
after the `argv` pointers is missing, so everything behind them is one word early.
-/

namespace Osdev.Exec

open Osdev.Lib

variable {argMax : Nat} {image : ExecImage} {base size : Nat} {creds : Pcreds}
  {args env : Pstrings} {frames : List Nat} {m m' : Mem} {stack : ExecStack}
variable {off : Nat} {pages ptrs : List Nat}

/-! ## The layout of the System V ABI -/

/-- The NUL-terminated string `s` starts at `p`. -/
def CStringAt (byte : Nat → Option UInt8) (p : Nat) (s : CStr) : Prop :=
  ∀ k ≤ s.1.length, byte (p + k) = (s.1 ++ [0])[k]?

/-- The memory that a process reads at its stack pointer, as the ABI wants it. -/
structure LaidOut (byte : Nat → Option UInt8) (rsp : Nat) (argv envp : List CStr) : Prop where
  aligned : rsp % 16 = 0
  argc : readLE byte rsp 8 = some argv.length
  argvPtr : ∀ i s, argv[i]? = some s →
    ∃ p, readLE byte (rsp + 8 * (1 + i)) 8 = some p ∧ CStringAt byte p s
  argvNull : readLE byte (rsp + 8 * (1 + argv.length)) 8 = some 0
  envpPtr : ∀ i s, envp[i]? = some s →
    ∃ p, readLE byte (rsp + 8 * (2 + argv.length + i)) 8 = some p ∧ CStringAt byte p s
  envpNull : readLE byte (rsp + 8 * (2 + argv.length + envp.length)) 8 = some 0
  auxv : ∃ n, readLE byte (rsp + 8 * (3 + argv.length + envp.length + 2 * n)) 8 = some 0

/-! ## What is written -/

/-- The strings and the pointers fit into the stack, and no address wraps. -/
structure Fits (image : ExecImage) (base size : Nat) (args env : Pstrings) : Prop where
  room : image.path.1.length + 16 + 8 * 24 + 8 * (env.count + 1) + 8 * (args.count + 1) + 8 ≤ size
  top : base + size < word

/-- The offset of the stack pointer. -/
def rspOff (image : ExecImage) (size : Nat) (args env : Pstrings) : Nat :=
  size - align (image.path.1.length + 1) 8 - 8 * (24 + (env.count + 1) + (args.count + 1) + 1)

theorem copyIn_spec {bs : List UInt8} (hsep : Paged.Separate pageSize frames)
    (hword : bs.length < word) (hfit : off + bs.length ≤ pageSize * frames.length)
    (h : copyIn frames off bs m = .ok m') : Paged.Patched pageSize frames off bs m m' := by
  obtain ⟨m1, hrw, hpatch⟩ := Unmapped.rwUnmappedPages_readable hsep hword hfit
  unfold copyIn at h
  rw [hrw] at h
  cases h
  exact hpatch

/-- A `struct pstrings` counts the strings it was made from. -/
theorem pstringsAlloc_count {strings : List CStr} {r : Option Pstrings}
    (h : pstringsAlloc pages strings m = .ok (r, m')) (hsmall : fullSize strings ≤ 2 ^ 20) :
    (orEmpty r).count = strings.length := by
  unfold pstringsAlloc at h
  split at h
  next hzero =>
    cases h
    exact hzero.symm
  · split at h
    · omega
    · obtain ⟨m1, -, h⟩ := bind_ok h
      cases h
      rfl

theorem ptrLoop_length {uptrBase n slot : Nat} {ptrs' : List Nat}
    (h : ptrLoop pages m uptrBase n slot off ptrs = .ok ptrs') : ptrs'.length = ptrs.length := by
  induction n generalizing slot off ptrs with
  | zero =>
    obtain rfl : ptrs = ptrs' := by simpa [ptrLoop] using h
    rfl
  | succ n ih =>
    obtain ⟨len, -, h⟩ := bind_ok h
    rw [ih h, List.length_set]

theorem setupArgs_spec {r : List Nat × List VmDesc × Nat}
    (h : setupArgs argMax base size args ptrs m = .ok r) :
    r.1.length = ptrs.length ∧ (args.count = 0 ∨ args.count ≤ argMax) := by
  unfold setupArgs at h
  split at h
  next hpos =>
    obtain ⟨hmax, h⟩ := guard_eq_ok.mp h
    obtain ⟨ptrs', hloop, h⟩ := bind_ok h
    cases h
    exact ⟨ptrLoop_length hloop, .inr (by omega)⟩
  next hzero =>
    cases h
    exact ⟨rfl, .inl (by omega)⟩

theorem setupEnv_spec {argsSize : Nat} {r : List Nat × List VmDesc}
    (h : setupEnv argMax base size argsSize args env ptrs m = .ok r) :
    r.1.length = ptrs.length ∧ (env.count = 0 ∨ env.count ≤ argMax) := by
  unfold setupEnv at h
  split at h
  next hpos =>
    obtain ⟨hmax, h⟩ := guard_eq_ok.mp h
    obtain ⟨ptrs', hloop, h⟩ := bind_ok h
    cases h
    exact ⟨ptrLoop_length hloop, .inr (by omega)⟩
  next hzero =>
    cases h
    exact ⟨rfl, .inl (by omega)⟩

/-- The words that are written, from the stack pointer on. -/
def stackWords (image : ExecImage) (creds : Pcreds) (args : Pstrings) (argPtrs envPtrs : List Nat) :
    List Nat :=
  [args.count + 1] ++ argPtrs ++ envPtrs ++ auxv image creds

/-- What a call leaves behind: the stack pages hold one array of words at the stack pointer. -/
structure Written (image : ExecImage) (base size : Nat) (creds : Pcreds) (args env : Pstrings)
    (frames : List Nat) (stack : ExecStack) (m' : Mem) (argPtrs envPtrs : List Nat) : Prop where
  base_eq : stack.base = base
  off_eq : stack.off = rspOff image size args env
  desc : ∃ ds, stack.descs =
    ⟨base, size, Vm.vmStack ||| Vm.vmRdwr, "stack", frames⟩ :: ds
  argPtrs_length : argPtrs.length = args.count + 1
  envPtrs_length : envPtrs.length = env.count + 1
  words : ∀ i < 8 * (stackWords image creds args argPtrs envPtrs).length,
    Paged.byte pageSize frames m' (stack.off + i) =
      (wordBytes 8 (stackWords image creds args argPtrs envPtrs))[i]?

theorem execImageSetupStack_spec (hsep : Paged.Separate pageSize frames)
    (hsize : size = pageSize * frames.length) (hfit : Fits image base size args env)
    (h : execImageSetupStack argMax image base size creds args env frames m = .ok (stack, m')) :
    ∃ argPtrs envPtrs, Written image base size creds args env frames stack m' argPtrs envPtrs := by
  have haux : (auxv image creds).length = 24 := rfl
  have hroom := hfit.room
  have htop := hfit.top
  have halign := align_spec (v := image.path.1.length + 1) (k := 3) (by decide) (by omega)
  simp only [show (2 : Nat) ^ 3 = 8 from rfl] at halign
  unfold execImageSetupStack at h
  rw [haux, subWord_of_le (by omega) (by omega)] at h
  simp only [Nat.reduceMul] at h
  rw [subWord_of_le (by omega) (by omega),
    subWord_of_le (by omega) (by omega),
    subWord_of_le (by omega) (by omega),
    subWord_of_le (by omega) (by omega)] at h
  obtain ⟨m1, -, h⟩ := bind_ok h
  obtain ⟨⟨ptrs, argDescs, argsSize⟩, hargs, h⟩ := bind_ok h
  obtain ⟨⟨eptrs, envDescs⟩, henv, h⟩ := bind_ok h
  obtain ⟨m2, haux2, h⟩ := bind_ok h
  obtain ⟨m3, henv3, h⟩ := bind_ok h
  obtain ⟨m4, harg4, h⟩ := bind_ok h
  obtain ⟨m5, hargc5, h⟩ := bind_ok h
  cases h
  obtain ⟨hlen, hcount⟩ := setupArgs_spec hargs
  obtain ⟨helen, hecount⟩ := setupEnv_spec henv
  simp only [List.length_set, List.length_replicate] at hlen helen
  have hargLen : ((ptrs.set (args.count + 1) 0).take (args.count + 1)).length = args.count + 1 := by
    rw [List.length_take, List.length_set]
    omega
  have henvLen : ((eptrs.set env.count 0).take (env.count + 1)).length = env.count + 1 := by
    rw [List.length_take, List.length_set]
    omega
  -- the four arrays are written from the top down, each right below the one before
  have hp2 := copyIn_spec hsep (by simp [haux]; omega) (by simp [haux]; omega) haux2
  have hp3 := copyIn_spec hsep (by simp only [length_wordBytes, henvLen]; omega)
    (by simp only [length_wordBytes, henvLen]; omega) henv3
  have hp4 := copyIn_spec hsep (by simp only [length_wordBytes, hargLen]; omega)
    (by simp only [length_wordBytes, hargLen]; omega) harg4
  have hp5 := copyIn_spec hsep (by simp; omega) (by simp; omega) hargc5
  have hp32 := Paged.Patched.prepend
    (by simpa only [length_wordBytes, henvLen, Nat.sub_add_cancel (show 8 * (env.count + 1) ≤
      size - align (image.path.1.length + 1) 8 - 192 by omega)] using hp2) hp3
  have hp42 := Paged.Patched.prepend
    (by simpa only [length_wordBytes, hargLen, Nat.sub_add_cancel (show 8 * (args.count + 1) ≤
      size - align (image.path.1.length + 1) 8 - 192 - 8 * (env.count + 1) by omega)] using hp32)
    hp4
  have hp52 := Paged.Patched.prepend
    (by simpa only [length_wordBytes, List.length_singleton, Nat.mul_one,
      Nat.sub_add_cancel (show 8 ≤ size - align (image.path.1.length + 1) 8 - 192 -
        8 * (env.count + 1) - 8 * (args.count + 1) by omega)] using hp42) hp5
  rw [← wordBytes_append, ← wordBytes_append, ← wordBytes_append] at hp52
  refine ⟨(ptrs.set (args.count + 1) 0).take (args.count + 1),
    (eptrs.set env.count 0).take (env.count + 1), ?_⟩
  exact {
    base_eq := rfl
    off_eq := by simp only [rspOff]; omega
    desc := ⟨_, rfl⟩
    argPtrs_length := hargLen
    envPtrs_length := henvLen
    words := fun i hi => by
      have hin := hp52.inside i (by simpa [stackWords] using hi)
      simpa [stackWords] using hin }

/-- Word `k` at the stack pointer, as the process reads it. -/
theorem Written.word {argPtrs envPtrs : List Nat} {k v : Nat}
    (h : Written image base size creds args env frames stack m' argPtrs envPtrs)
    (hfit : Fits image base size args env)
    (hv : (stackWords image creds args argPtrs envPtrs)[k]? = some v) :
    readLE (userByte stack m') (stack.rsp + 8 * k) 8 = some (v % 256 ^ 8) := by
  have hroom := hfit.room
  have htop := hfit.top
  have hoff := h.off_eq
  have hoffLe : stack.off + 8 * (24 + (env.count + 1) + (args.count + 1) + 1) ≤ size := by
    rw [hoff, rspOff]
    omega
  refine readLE_of_wordBytes (fun i hi => ?_) hv
  rw [← h.words i hi]
  have hlen : (stackWords image creds args argPtrs envPtrs).length =
      24 + (env.count + 1) + (args.count + 1) + 1 := by
    simp [stackWords, h.argPtrs_length, h.envPtrs_length, auxv]
    omega
  have hrsp : stack.rsp = base + stack.off := by
    rw [ExecStack.rsp, h.base_eq, addWord_of_lt (by omega)]
  obtain ⟨ds, hds⟩ := h.desc
  rw [userByte, hrsp, hds, List.find?_cons_of_pos (by simp; omega)]
  show Paged.byte pageSize frames m' (base + stack.off + i - base) = _
  rw [show base + stack.off + i - base = stack.off + i by omega]

/-! ## The layout is never the one of the ABI -/

/--
**The null word after the `argv` pointers is missing.**

For every executable and all argument and environment strings that fit, the word where the null word
of `envp` belongs holds `AT_PHDR`.
-/
theorem execImageSetupStack_not_laidOut (argMax : Nat) (image : ExecImage) (creds : Pcreds)
    (argv envp : List CStr) (argPages envPages stackPages : List Nat) (base size : Nat)
    (m₀ m₁ m₂ m₃ : Mem) (args env : Option Pstrings) (stack : ExecStack)
    (hargs : pstringsAlloc argPages argv m₀ = .ok (args, m₁))
    (henv : pstringsAlloc envPages envp m₁ = .ok (env, m₂))
    (hsmall : fullSize argv ≤ 2 ^ 20 ∧ fullSize envp ≤ 2 ^ 20)
    (hsep : Paged.Separate pageSize stackPages) (hsize : size = pageSize * stackPages.length)
    (hfit : Fits image base size (orEmpty args) (orEmpty env))
    (hstack : execImageSetupStack argMax image base size creds (orEmpty args) (orEmpty env)
      stackPages m₂ = .ok (stack, m₃)) :
    ¬ LaidOut (userByte stack m₃) stack.rsp (image.path :: argv) envp := by
  intro hlaid
  have hargc := pstringsAlloc_count hargs hsmall.1
  have henvc := pstringsAlloc_count henv hsmall.2
  obtain ⟨argPtrs, envPtrs, hw⟩ := execImageSetupStack_spec hsep hsize hfit hstack
  have hat : (stackWords image creds (orEmpty args) argPtrs envPtrs)[2 +
      (image.path :: argv).length + envp.length]? = some 3 := by
    have hlen : ([(orEmpty args).count + 1] ++ argPtrs ++ envPtrs).length =
        2 + (image.path :: argv).length + envp.length := by
      simp [hw.argPtrs_length, hw.envPtrs_length, hargc, henvc]
      omega
    rw [stackWords, List.getElem?_append_right (by omega), hlen, Nat.sub_self]
    rfl
  have hread := hw.word hfit hat
  rw [hlaid.envpNull] at hread
  cases hread

/-- An executable, and the strings of a call with one argument and one environment string. -/
def sampleImage : ExecImage := ⟨⟨[47, 97], by decide⟩, 0x400000, 0x401000, 0x400040, 2, none⟩

def sampleArgs : List CStr := [⟨[98], by decide⟩]

def sampleEnv : List CStr := [⟨[99, 61], by decide⟩]

/-- The stack of the sample, built from the strings on. -/
def sampleStack : Except Fault (ExecStack × Mem) := do
  let (args, m₁) ← pstringsAlloc [0x1000] sampleArgs fun _ => 0
  let (env, m₂) ← pstringsAlloc [0x2000] sampleEnv m₁
  execImageSetupStack 4 sampleImage 0x8000000 0x1000 ⟨0, 0, 0, 0⟩ (orEmpty args) (orEmpty env)
    [0x3000] m₂

/-- The words of the sample where `envp` has its null word, and one word earlier. -/
theorem sampleStack_words :
    (sampleStack.toOption.map fun r => (readLE (userByte r.1 r.2) (r.1.rsp + 8 * 4) 8,
      readLE (userByte r.1 r.2) (r.1.rsp + 8 * 5) 8)) = some (some 0, some 3) := by
  decide_cbv

/-- One argument and one environment string: the process does not find the layout of the ABI. -/
theorem sampleStack_not_laidOut :
    ∃ stack m, sampleStack = .ok (stack, m) ∧
      ¬ LaidOut (userByte stack m) stack.rsp (sampleImage.path :: sampleArgs) sampleEnv := by
  obtain ⟨⟨stack, m⟩, hr, hwords⟩ := Option.map_eq_some_iff.mp sampleStack_words
  have hstack : sampleStack = .ok (stack, m) := by
    cases h : sampleStack with
    | error e => rw [h] at hr; cases hr
    | ok r => rw [h] at hr; exact congrArg _ (Option.some.inj hr)
  refine ⟨stack, m, hstack, fun hlaid => ?_⟩
  have hnull := hlaid.envpNull
  have hword := (Prod.ext_iff.mp hwords).2
  exact absurd (hword.symm.trans hnull) (by decide)

/-- The theorem at the sample. -/
theorem execImageSetupStack_not_laidOut_sample :
    ∃ args env m₁ m₂ stack m₃,
      pstringsAlloc [0x1000] sampleArgs (fun _ => 0) = .ok (args, m₁) ∧
      pstringsAlloc [0x2000] sampleEnv m₁ = .ok (env, m₂) ∧
      execImageSetupStack 4 sampleImage 0x8000000 0x1000 ⟨0, 0, 0, 0⟩ (orEmpty args) (orEmpty env)
        [0x3000] m₂ = .ok (stack, m₃) ∧
      ¬ LaidOut (userByte stack m₃) stack.rsp (sampleImage.path :: sampleArgs) sampleEnv := by
  obtain ⟨⟨stack, m₃⟩, hr⟩ := exists_of_toBool (show sampleStack.toBool = true by decide_cbv)
  obtain ⟨⟨args, m₁⟩, hargs, hr⟩ := bind_ok hr
  obtain ⟨⟨env, m₂⟩, henv, hstack⟩ := bind_ok hr
  have hsmall : fullSize sampleArgs ≤ 2 ^ 20 ∧ fullSize sampleEnv ≤ 2 ^ 20 := by decide
  have hfit : Fits sampleImage 0x8000000 0x1000 (orEmpty args) (orEmpty env) := by
    refine ⟨?_, by decide⟩
    rw [pstringsAlloc_count hargs hsmall.1, pstringsAlloc_count henv hsmall.2]
    decide
  exact ⟨args, env, m₁, m₂, stack, m₃, hargs, henv, hstack,
    execImageSetupStack_not_laidOut 4 sampleImage ⟨0, 0, 0, 0⟩ sampleArgs sampleEnv
      [0x1000] [0x2000]
      [0x3000] 0x8000000 0x1000 (fun _ => 0) m₁ m₂ m₃ args env stack hargs henv hsmall
      (List.pairwise_singleton _ _) rfl hfit hstack⟩

end Osdev.Exec
