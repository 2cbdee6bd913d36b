import Osdev.Lib.Bytes
import Osdev.Lib.StateProg
import Osdev.Vm.Flags

/-!
# Loading an ELF file (`kernel/loadelf.c`)

`exec_load_image` maps the file into the kernel's address space, and `elf_is_valid_file` and
`elf_load_image` read the headers through that mapping with nothing but pointer arithmetic. A read
outside the mapping stops the model. The pages of the segments come from other parts of the kernel,
which are parameters of the model: they work on a state of their own and may panic. The mapped bytes
are part of that state, as the loader clears memory that it may have in common with the file, and
reads the program headers and their number again in each round of its loop.
-/

namespace Osdev.Elf

open Osdev.Lib

/-- The mapped file: `len` bytes at `file_base`. It is in physical memory, whose addresses have 52
bits. -/
structure FileMap where
  base : Nat
  bytes : List UInt8
  fits : base + bytes.length ≤ word
  inMemory : bytes.length ≤ 2 ^ 52

/-- What ends a call without a return. -/
inductive Stop where
  /-- a read outside the mapped file -/
  | outside (addr : Nat)
  /-- a failed assertion, `unreachable`, or a fault in another part of the kernel -/
  | panic
  deriving DecidableEq, Repr

/-! ## Reading the file -/

namespace FileMap

def len (f : FileMap) : Nat := f.bytes.length

/-- The byte at an address. -/
def byte (f : FileMap) (a : Nat) : Option UInt8 :=
  if f.base ≤ a then f.bytes[a - f.base]? else none

/-- A field of `n` bytes at an address. -/
def read (f : FileMap) (a n : Nat) : Except Stop Nat :=
  match readLE f.byte a n with
  | some v => .ok v
  | none => .error (.outside a)

/-- The string at the start of a list of bytes, if it ends there. -/
def cstr : List UInt8 → Option (List UInt8)
  | [] => none
  | c :: cs => if c = 0 then some [] else (cstr cs).map (c :: ·)

/-- `str_from`, which returns `str_null` for a null pointer. -/
def strFrom (f : FileMap) (a : Nat) : Except Stop (Option (List UInt8)) :=
  if a = 0 then .ok none
  else
    match (if f.base ≤ a then cstr (f.bytes.drop (a - f.base)) else none) with
    | some s => .ok (some s)
    | none => .error (.outside a)

end FileMap

/-! ## `Elf64_Ehdr` and `Elf64_Phdr` -/

def sizeofEhdr : Nat := 64
def sizeofPhdr : Nat := 56

/-- `ET_EXEC`. -/
def etExec : Nat := 2

/-- `PT_LOAD`. -/
def ptLoad : Nat := 1
/-- `PT_INTERP`. -/
def ptInterp : Nat := 3
/-- `PT_PHDR`. -/
def ptPhdr : Nat := 6

/-- `ENOEXEC`. -/
def enoexec : Int := 8
/-- `EINVAL`. -/
def einval : Int := 22

/-- The place of a field in `Elf64_Ehdr` or `Elf64_Phdr`, and its size. -/
structure Field where
  off : Nat
  size : Nat

/-- `e_ident[i]`. -/
def eIdent (i : Nat) : Field := ⟨i, 1⟩
def eType : Field := ⟨16, 2⟩
def eEntry : Field := ⟨24, 8⟩
def ePhoff : Field := ⟨32, 8⟩
def eEhsize : Field := ⟨52, 2⟩
def ePhentsize : Field := ⟨54, 2⟩
def ePhnum : Field := ⟨56, 2⟩
def eShentsize : Field := ⟨58, 2⟩
def eShnum : Field := ⟨60, 2⟩

def pType : Field := ⟨0, 4⟩
def pFlags : Field := ⟨4, 4⟩
def pOffset : Field := ⟨8, 8⟩
def pVaddr : Field := ⟨16, 8⟩
def pFilesz : Field := ⟨32, 8⟩
def pMemsz : Field := ⟨40, 8⟩

/-- `ehdr->field`. -/
def FileMap.ehdr (f : FileMap) (x : Field) : Except Stop Nat := f.read (addWord f.base x.off) x.size

/-- `phdr[i].field`, where `phdr` is the file plus `e_phoff`. -/
def FileMap.phdr (f : FileMap) (phoff i : Nat) (x : Field) : Except Stop Nat :=
  f.read ((f.base + phoff + sizeofPhdr * i + x.off) % word) x.size

/-- `is_elf_magic`. -/
def isElfMagic (f : FileMap) : Except Stop Bool := do
  let mag0 ← f.ehdr (eIdent 0)
  let mag1 ← f.ehdr (eIdent 1)
  let mag2 ← f.ehdr (eIdent 2)
  let mag3 ← f.ehdr (eIdent 3)
  .ok (mag0 == 0x7f && mag1 == 0x45 && mag2 == 0x4c && mag3 == 0x46)

/-- `elf_get_image_filesz`. The sum is one of `int`s; it is taken to wrap. -/
def elfGetImageFilesz (f : FileMap) : Except Stop Nat := do
  let ehsize ← f.ehdr eEhsize
  let phnum ← f.ehdr ePhnum
  let phentsize ← f.ehdr ePhentsize
  let shnum ← f.ehdr eShnum
  let shentsize ← f.ehdr eShentsize
  .ok ((BitVec.ofNat 32 ehsize + BitVec.ofNat 32 phnum * BitVec.ofNat 32 phentsize +
    BitVec.ofNat 32 shnum * BitVec.ofNat 32 shentsize).signExtend 64).toNat

/-- `elf_is_valid_file`. -/
def elfIsValidFile (f : FileMap) : Except Stop Bool :=
  if f.len < sizeofEhdr then .ok false
  else do
    let magic ← isElfMagic f
    if !magic then .ok false
    else do
      let cls ← f.ehdr (eIdent 4)
      let data ← f.ehdr (eIdent 5)
      let version ← f.ehdr (eIdent 6)
      let osabi ← f.ehdr (eIdent 7)
      let abiversion ← f.ehdr (eIdent 8)
      .ok (cls == 2 && data == 1 && version == 1 && osabi == 0 && abiversion == 0)

/-! ## The rest of the kernel -/

/-- The mapped file, and the functions that the loader calls, on the state of the kernel; `none` is
a panic. A list of pages is a `π`. -/
structure Kernel (σ π : Type) where
  file : σ → FileMap
  /-- the empty list, `NULL` -/
  null : π
  fsGetpage (fd : Int) (off : Nat) : StateT σ Option π
  pageListJoin (head tail : π) : StateT σ Option π
  allocPages (count : Nat) : StateT σ Option π
  fillUnmappedPages (pages : π) (v : UInt8) (off len : Nat) : StateT σ Option Unit
  /-- `exec_load_image` for the interpreter: the return value and the image -/
  execLoadImage (base : Nat) (path : List UInt8) : StateT σ Option (Int × Nat)

abbrev LoadM (σ : Type) := StateT σ (Except Stop)

/-- A call of another function of the kernel. -/
def call {σ α : Type} (m : StateT σ Option α) : LoadM σ α := fun s =>
  match m s with
  | some r => .ok r
  | none => .error .panic

/-- A read of the file, as it is now. -/
def look {σ π α : Type} (k : Kernel σ π) (x : FileMap → Except Stop α) : LoadM σ α := fun s =>
  match x (k.file s) with
  | .ok a => .ok (a, s)
  | .error e => .error e

/-! ## `elf_load_image` -/

/-- `vm_desc_t` of type `VM_TYPE_PAGE`. -/
structure SegDesc (π : Type) where
  address : Nat
  size : Nat
  vmFlags : Vm.Flags
  name : String
  pages : π

/-- `struct exec_image`, without its type and path. -/
structure Image (π : Type) where
  base : Nat
  entry : Nat
  phdr : Nat
  phnum : Nat
  size : Nat
  descs : List (SegDesc π)
  interp : Nat

/-- The image as `kmallocz` makes it. -/
def Image.zero {π : Type} : Image π := ⟨0, 0, 0, 0, 0, [], 0⟩

/-- The variables of `elf_load_image` that the loop changes. -/
structure Progress (π : Type) where
  image : Image π
  interp : Option (List UInt8)
  minVaddr : Nat
  descs : List (SegDesc π)

/-- The variables before the loop. -/
def Progress.init {π : Type} (image : Image π) : Progress π := ⟨image, none, word - 1, []⟩

/-- `LIBC_BASE_ADDR`. -/
def libcBaseAddr : Nat := 0x7FC0000000

section Loader

variable {σ π : Type} (k : Kernel σ π) (fd : Int)

/-- The loop over the pages of a segment in the file: `rem_filesz` is a multiple of the page
size. -/
def getPages : Nat → Nat → π → LoadM σ π
  | 0, _, pages => pure pages
  | n + 1, off, pages => do
    let page ← call (k.fsGetpage fd off)
    let pages ← call (k.pageListJoin pages page)
    getPages n (addWord off pageSize) pages

/-- The pages of a segment behind those of the file. -/
def morePages (pages : π) (filesz memsz : Nat) : LoadM σ π :=
  if filesz < memsz then do
    let more ← call (k.allocPages (sizeToPages (memsz - filesz)))
    call (k.pageListJoin pages more)
  else pure pages

/-- The same, with zeros behind the data of the file. -/
def bssPages (pages : π) (filesz memsz bssOff bssSize : Nat) : LoadM σ π := do
  let pages ← morePages k pages filesz memsz
  call (k.fillUnmappedPages pages 0 bssOff bssSize)
  pure pages

/-- The descriptor of a segment. -/
def segDesc (base vaddr memsz flags : Nat) (pages : π) : SegDesc π :=
  let vmFlags := Vm.vmRead ||| Vm.vmPrivate
  let vmFlags := if flags.testBit 0 then vmFlags ||| Vm.vmExec else vmFlags
  let vmFlags := if flags.testBit 1 then vmFlags ||| Vm.vmWrite else vmFlags
  ⟨addWord base vaddr, memsz, vmFlags, "elf_seg", pages⟩

/-- The case `PT_LOAD` of the loop. Nothing is written to the file between the reads of one
header. -/
def loadSegment (base phoff i : Nat) (p : Progress π) : LoadM σ (Progress π) := do
  let pMemsz ← look k (·.phdr phoff i pMemsz)
  if pMemsz = 0 then pure p
  else do
    let pVaddr ← look k (·.phdr phoff i pVaddr)
    let pOffset ← look k (·.phdr phoff i pOffset)
    let pFilesz ← look k (·.phdr phoff i pFilesz)
    let flags ← look k (·.phdr phoff i pFlags)
    let vaddr := alignDown pVaddr pageSize
    let endVaddr := align (addWord pVaddr pMemsz) pageSize
    let off := alignDown pOffset pageSize
    let endOff := align (addWord pOffset pFilesz) pageSize
    let filesz := subWord endOff off
    let memsz := subWord endVaddr vaddr
    let done (pages : π) : Progress π :=
      { p with
        minVaddr := min p.minVaddr vaddr
        descs := p.descs ++ [segDesc base vaddr memsz flags pages] }
    if pFilesz = pMemsz then do
      let pages ← getPages k fd (filesz / pageSize) off k.null
      pure (done pages)
    else if pFilesz < pMemsz then do
      let pages ← getPages k fd (filesz / pageSize) off k.null
      let pages ← bssPages k pages filesz memsz (addWord (pVaddr - vaddr) pFilesz)
        (pMemsz - pFilesz)
      pure (done pages)
    else throw .panic

/-- The body of the loop. -/
def loadPhdr (base phoff i : Nat) (p : Progress π) : LoadM σ (Progress π) := do
  let type ← look k (·.phdr phoff i pType)
  if type = ptLoad then loadSegment k fd base phoff i p
  else if type = ptPhdr then do
    let vaddr ← look k (·.phdr phoff i pVaddr)
    pure { p with image := { p.image with phdr := addWord p.image.base vaddr } }
  else if type = ptInterp then
    if p.interp.isSome then throw .panic
    else do
      let offset ← look k (·.phdr phoff i pOffset)
      let interp ← look k fun f => f.strFrom (addWord f.base offset)
      pure { p with interp := interp }
  else pure p

/-- The loop over the program headers. `e_phnum` is read in each round; it has 16 bits, so there are
fewer than `2 ^ 16` rounds. -/
def loadPhdrs (base phoff : Nat) : Nat → Nat → Progress π → LoadM σ (Progress π)
  | 0, _, p => pure p
  | n + 1, i, p => do
    let phnum ← look k (·.ehdr ePhnum)
    if i < phnum then do
      let p ← loadPhdr k fd base phoff i p
      loadPhdrs base phoff n (i + 1) p
    else pure p

/-- The checks of `elf_load_image` and its loop: an error, or the variables after the loop. -/
def elfLoadSegments (type base : Nat) (image : Image π) : LoadM σ (Except Int (Progress π)) := do
  let len ← look k fun f => .ok f.len
  let filesz ← look k elfGetImageFilesz
  if len < filesz then pure (.error (-einval))
  else do
    let eType ← look k (·.ehdr eType)
    if eType ≠ type then pure (.error (-enoexec))
    else do
      let phoff ← look k (·.ehdr ePhoff)
      let p ← loadPhdrs k fd base phoff (2 ^ 16) 0 (.init image)
      pure (.ok p)

/-- The interpreter of the image. -/
def loadInterp (interp : Option (List UInt8)) (image : Image π) : LoadM σ (Int × Image π) :=
  match interp with
  | none => pure (0, image)
  | some path => do
    let (res, interp) ← call (k.execLoadImage libcBaseAddr path)
    if res < 0 then pure (res, image) else pure (0, { image with interp := interp })

/-- `elf_load_image`: the return value and the image. -/
def elfLoadImage (type base : Nat) (image : Image π) : LoadM σ (Int × Image π) := do
  match ← elfLoadSegments k fd type base image with
  | .error e => pure (e, image)
  | .ok p => do
    let entry ← look k (·.ehdr eEntry)
    let phnum ← look k (·.ehdr ePhnum)
    loadInterp k p.interp
      { p.image with
        base := addWord base p.minVaddr
        entry := addWord base entry
        size := 0
        phnum := phnum
        descs := p.descs }

/-- The part of `exec_load_image` that picks the loader. -/
def loadFile (type base : Nat) : LoadM σ (Int × Image π) := do
  let valid ← look k elfIsValidFile
  if valid then elfLoadImage k fd type base .zero else pure (-enoexec, .zero)

end Loader

end Osdev.Elf
