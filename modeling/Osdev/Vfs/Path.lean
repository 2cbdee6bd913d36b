import Mathlib.Data.List.TakeWhile

/-!
# Strings and paths (`include/kernel/str.h`, `include/kernel/sbuf.h`, `kernel/vfs/path.c`)

A `cstr_t` or `str_t` is its bytes. A `path_t` is a view into a string: `off` and `len` are 16 bits
wide, and an iterator also keeps the length that the view had before the first part was taken.
-/

namespace Osdev.Vfs

/-- The bytes of a string with a length. -/
abbrev Str := List UInt8

/-- `'/'`. -/
def slash : UInt8 := 47

/-- `'.'`. -/
def dot : UInt8 := 46

/-- `cstr_eq`, `str_eq_c`: the lengths agree, and `strncmp` finds no difference before a null
byte. -/
def cstrEq (a b : Str) : Bool := a.length == b.length && a.takeWhile (· ≠ 0) == b.takeWhile (· ≠ 0)

theorem cstrEq_iff {a b : Str} (ha : 0 ∉ a) (hb : 0 ∉ b) : cstrEq a b = true ↔ a = b := by
  have htake : ∀ l : Str, 0 ∉ l → l.takeWhile (· ≠ 0) = l := fun l hl =>
    List.takeWhile_eq_self_iff.mpr fun c hc => decide_eq_true (ne_of_mem_of_not_mem hc hl)
  rw [cstrEq, htake a ha, htake b hb]
  constructor
  · intro h
    exact eq_of_beq (Bool.and_eq_true_iff.mp h).2
  · rintro rfl
    simp

/-- `cstr_starts_with`. -/
def cstrStartsWith (s : Str) (c : UInt8) : Bool := s.head? == some c

/-! ## Buffers -/

/-- `sbuf_t`: what has been written, and the capacity. -/
structure Sbuf where
  data : Str
  size : Nat
  deriving DecidableEq, Repr

namespace Sbuf

/-- `sbuf_init`. -/
def init (size : Nat) : Sbuf := ⟨[], size⟩

/-- `sbuf_write`, `sbuf_write_cstr` and `sbuf_write_str`. -/
def write (b : Sbuf) (s : Str) : Sbuf :=
  { b with data := b.data ++ s.take (b.size - b.data.length) }

/-- `sbuf_write_char`. -/
def writeChar (b : Sbuf) (c : UInt8) : Sbuf := b.write [c]

/-- `sbuf_transfer`. -/
def transfer (src dst : Sbuf) : Sbuf := dst.write src.data

end Sbuf

/-! ## Paths -/

/-- `MAX_PATH_LEN`. -/
def maxPathLen : Nat := 65535

/-- `a - b` on `uint16_t`. -/
def subHalf (a b : Nat) : Nat := (65536 + a - b % 65536) % 65536

/-- `path_t`. -/
structure Path where
  str : Str
  off : Nat
  len : Nat
  origLen : Nat
  valid : Bool
  deriving DecidableEq, Repr

namespace Path

/-- `SLASH_PATH`. -/
def slashPath : Path := ⟨[slash], 0, 1, 0, false⟩

/-- `DOT_PATH`. -/
def dotPath : Path := ⟨[dot], 0, 1, 0, false⟩

/-- `path_new`, `path_from_cstr`. -/
def new (s : Str) : Path :=
  let s := s.take maxPathLen
  ⟨s, 0, s.length, 0, false⟩

/-- `cstr_from_path`. -/
def toStr (p : Path) : Str := (p.str.drop p.off).take p.len

/-- `path_is_null`. -/
def isNull (p : Path) : Bool := p.len == 0

/-- `path_is_dot`. -/
def isDot (p : Path) : Bool := p.len == 1 && p.toStr == [dot]

/-- `path_is_dotdot`. -/
def isDotdot (p : Path) : Bool := p.len == 2 && p.toStr == [dot, dot]

/-- `path_is_absolute`. -/
def isAbsolute (p : Path) : Bool := p.len != 0 && p.toStr.head? == some slash

/-- `path_count_char`. -/
def countChar (p : Path) (c : UInt8) : Nat := p.toStr.count c

/-- Dropping `n` bytes at the front of the view. -/
def dropFront (p : Path) (n : Nat) : Path := { p with off := p.off + n, len := p.len - n }

/-- `path_drop_first`. -/
def dropFirst (p : Path) : Path := if p.len > 0 then p.dropFront 1 else p

/-- `path_strip_leading`. -/
def stripLeading (p : Path) (c : UInt8) : Path := p.dropFront (p.toStr.takeWhile (· = c)).length

/-- `path_strip_trailing`. -/
def stripTrailing (p : Path) (c : UInt8) : Path :=
  { p with len := p.len - (p.toStr.reverse.takeWhile (· = c)).length }

/-- `path_remove_until`. -/
def removeUntil (p : Path) (c : UInt8) : Path := p.dropFront (p.toStr.takeWhile (· ≠ c)).length

/-- `path_remove_until_reverse`. -/
def removeUntilReverse (p : Path) (c : UInt8) : Path :=
  { p with len := p.len - (p.toStr.reverse.takeWhile (· ≠ c)).length }

/-- The inner loop of `path_basename`: it drops slashes and counts them. -/
def dropSlashes : Nat → Path → Int → Path × Int
  | 0, p, slashes => (p, slashes)
  | fuel + 1, p, slashes =>
    if p.toStr.head? = some slash then dropSlashes fuel p.dropFirst (slashes - 1) else (p, slashes)

/-- The outer loop of `path_basename`. -/
def basenameLoop : Nat → Path → Int → Path
  | 0, p, _ => p
  | fuel + 1, p, slashes =>
    if slashes > 0 ∧ p.len > 0 then
      let p := p.removeUntil slash
      let (p, slashes) := dropSlashes (p.len + 1) p slashes
      basenameLoop fuel p slashes
    else p

/-- `path_basename`. -/
def basename (p : Path) : Path :=
  if p.isNull then dotPath
  else
    let p := p.stripTrailing slash
    let slashes := p.countChar slash
    if p.len = 0 then slashPath
    else if slashes = 0 then p
    else basenameLoop (p.len + 1) p slashes

/-- `path_dirname`. -/
def dirname (p : Path) : Path :=
  if p.isNull then dotPath
  else
    let p := p.stripTrailing slash
    let slashes := p.countChar slash
    if p.len = 0 then slashPath
    else if slashes = 0 then dotPath
    else
      let p := (p.removeUntilReverse slash).stripTrailing slash
      if p.isNull then slashPath else p

/-- The end of `path_next_part`: the first part of a view. -/
def firstPart (p : Path) : Path :=
  let p := p.stripLeading slash
  { p with len := subHalf (p.removeUntil slash).off p.off }

/-- `path_next_part`. -/
def nextPart (p : Path) : Path :=
  if p.isNull then p
  else if p.valid = false then
    firstPart { p with valid := true, origLen := p.len, off := 0, len := p.str.length }
  else
    let off := (p.off + p.len) % 65536
    firstPart { p with off, len := subHalf p.origLen off }

/-- `path_iter_end`. -/
def iterEnd (p : Path) : Bool := p.nextPart.isNull

end Path

/-- `cstr_basename`. -/
def cstrBasename (s : Str) : Str := (Path.new s).basename.toStr

/-- `cstr_dirname`. -/
def cstrDirname (s : Str) : Str := (Path.new s).dirname.toStr

end Osdev.Vfs
