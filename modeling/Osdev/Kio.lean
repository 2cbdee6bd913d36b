import Osdev.Base
import Osdev.Lib.Bytes
import Osdev.Lib.Except

/-!
# Kernel I/O transfers (`kernel/kio.c`)

A `kio_t` is a cursor over buffers that it does not own. Here the buffers are part of the value: the
bytes that a transfer still has to hand out (`KIO_READ`), or the bytes that it has filled
(`KIO_WRITE`). An access outside a buffer is a fault.
-/

namespace Osdev.Kio

open Osdev.Lib

/-- How a transfer can fail. -/
inductive Fault where
  | assertion
  /-- an access outside the buffers -/
  | outOfBounds
  deriving DecidableEq, Repr

/-- `kio_dir_t`. -/
inductive Dir where
  | write
  | read
  deriving DecidableEq, Repr

/-- The union of `kio_t`, with `kind` as its tag. -/
inductive Data where
  | buf (base : List UInt8) (off : Nat)
  | iov (arr : List (List UInt8)) (idx off tOff : Nat)
  deriving DecidableEq, Repr

end Kio

open Osdev.Lib

/-- `kio_t`. -/
structure Kio where
  dir : Kio.Dir
  size : Nat
  data : Kio.Data
  deriving DecidableEq, Repr

namespace Kio

/-- `kio_new_writable`. -/
def newWritable (base : List UInt8) : Kio := ⟨.write, base.length, .buf base 0⟩

/-- `kio_new_readable`. -/
def newReadable (base : List UInt8) : Kio := ⟨.read, base.length, .buf base 0⟩

/-- The bytes of the buffers. -/
def bytes (kio : Kio) : List UInt8 :=
  match kio.data with
  | .buf base _ => base
  | .iov arr _ _ _ => arr.flatten

/-- `kio_transfered`. -/
def transfered (kio : Kio) : Nat :=
  match kio.data with
  | .buf _ off => off
  | .iov _ _ _ tOff => tOff

/-- `kio_remaining`. -/
def remaining (kio : Kio) : Nat := subWord kio.size kio.transfered

/-! ## The walk over an array of buffers -/

/-- A piece of one buffer: `len` bytes at `off` of buffer `idx`. -/
structure Piece where
  idx : Nat
  off : Nat
  len : Nat
  deriving DecidableEq, Repr

/-- Where a walk stops: the cursor, and the value that the loop variable is left with. -/
structure Stop where
  idx : Nat
  off : Nat
  tOff : Nat
  left : Nat
  deriving DecidableEq, Repr

/-- The loop that `kio_nread_out` and `kio_nwrite_in` share, as the pieces it copies. When it goes
on to the next buffer it does not reset `off`. -/
def walk (arr : List (List UInt8)) (fuel idx off tOff toCopy : Nat) :
    Except Fault (List Piece × Stop) :=
  match fuel with
  | 0 => .error .outOfBounds
  | fuel + 1 =>
    if toCopy = 0 then .ok ([], ⟨idx, off, tOff, 0⟩)
    else
      match arr[idx]? with
      | none => .error .outOfBounds
      | some b =>
        let remain := subWord b.length off
        if toCopy ≤ remain then
          let stop : Stop :=
            if toCopy = remain then ⟨idx + 1, 0, tOff + toCopy, toCopy⟩
            else ⟨idx, off + toCopy, tOff + toCopy, toCopy⟩
          .ok ([⟨idx, off, toCopy⟩], stop)
        else do
          let (ps, stop) ← walk arr fuel (idx + 1) (addWord off remain) (addWord tOff remain)
            (toCopy - remain)
          .ok (⟨idx, off, remain⟩ :: ps, stop)

/-- The source of a `memcpy`. -/
def slice (b : List UInt8) (off len : Nat) : Except Fault (List UInt8) :=
  if off + len ≤ b.length then .ok ((b.drop off).take len) else .error .outOfBounds

/-- The target of a `memcpy`. -/
def splice (b : List UInt8) (off : Nat) (bs : List UInt8) : Except Fault (List UInt8) :=
  if off + bs.length ≤ b.length then .ok (b.take off ++ bs ++ b.drop (off + bs.length))
  else .error .outOfBounds

def readPieces (arr : List (List UInt8)) : List Piece → Except Fault (List UInt8)
  | [] => .ok []
  | p :: ps => do
    let bs ← slice (arr.getD p.idx []) p.off p.len
    let rest ← readPieces arr ps
    .ok (bs ++ rest)

def writePieces (arr : List (List UInt8)) (bs : List UInt8) :
    List Piece → Except Fault (List (List UInt8))
  | [] => .ok arr
  | p :: ps => do
    let b ← splice (arr.getD p.idx []) p.off (bs.take p.len)
    writePieces (arr.set p.idx b) (bs.drop p.len) ps

/-! ## Transfers -/

/-- The number of bytes that `kio_nread_out` and `kio_nwrite_in` set out to copy. -/
def toCopy (kio : Kio) (len off n : Nat) : Nat :=
  if len ≤ off then 0
  else
    let c := min (len - off) kio.remaining
    if n > 0 ∧ c > n then n else c

/-- `kio_nread_out`: the bytes that go to `buf + off`, the cursor afterwards and the return
value. -/
def nreadOut (len off n : Nat) (kio : Kio) : Except Fault (List UInt8 × Kio × Nat) :=
  if kio.dir ≠ .read then .error .assertion
  else
    let c := kio.toCopy len off n
    if c = 0 then .ok ([], kio, 0)
    else
      match kio.data with
      | .buf base o => do
        let bs ← slice base o c
        .ok (bs, { kio with data := .buf base (o + c) }, c)
      | .iov arr idx o t => do
        let (ps, stop) ← walk arr (arr.length - idx + 1) idx o t c
        let bs ← readPieces arr ps
        .ok (bs, { kio with data := .iov arr stop.idx stop.off stop.tOff }, stop.left)

/-- `kio_nwrite_in`, from the buffer `buf` of `len` bytes. -/
def nwriteIn (kio : Kio) (buf : List UInt8) (off n : Nat) : Except Fault (Kio × Nat) :=
  if kio.dir ≠ .write then .error .assertion
  else
    let c := kio.toCopy buf.length off n
    if c = 0 then .ok (kio, 0)
    else
      match kio.data with
      | .buf base o => do
        let base' ← splice base o ((buf.drop off).take c)
        .ok ({ kio with data := .buf base' (o + c) }, c)
      | .iov arr idx o t => do
        let (ps, stop) ← walk arr (arr.length - idx + 1) idx o t c
        let arr' ← writePieces arr ((buf.drop off).take c) ps
        .ok ({ kio with data := .iov arr' stop.idx stop.off stop.tOff }, stop.left)

/-- `kio_transfer`, from a buffer that nothing has been read of. -/
def transfer (dst : Kio) (src : List UInt8) : Except Fault (Nat × Kio) :=
  if dst.dir ≠ .write then .error .assertion
  else do
    let c := min src.length dst.remaining
    let (dst, _) ← dst.nwriteIn src 0 c
    .ok (c, dst)

/-- `kio_read_out`. -/
def readOut (len off : Nat) (kio : Kio) : Except Fault (List UInt8 × Kio × Nat) :=
  kio.nreadOut len off 0

/-- `kio_write_in`. -/
def writeIn (kio : Kio) (buf : List UInt8) (off : Nat) : Except Fault (Kio × Nat) :=
  kio.nwriteIn buf off 0

/-! ## Reading from one buffer -/

/-- A transfer out of one buffer, of which the first `off` bytes are done. -/
def reading (base : List UInt8) (off : Nat) : Kio := ⟨.read, base.length, .buf base off⟩

theorem newReadable_eq (base : List UInt8) : newReadable base = reading base 0 := rfl

theorem remaining_reading {base : List UInt8} {off : Nat} (h : off ≤ base.length)
    (hword : base.length < word) : (reading base off).remaining = base.length - off :=
  subWord_of_le h hword

/-- A read of `len` bytes hands out the next bytes of the buffer, as many as there are. -/
theorem readOut_reading {base : List UInt8} {off : Nat} (h : off ≤ base.length)
    (hword : base.length < word) (len : Nat) :
    (reading base off).readOut len 0 =
      .ok ((base.drop off).take len, reading base (off + min len (base.length - off)),
        min len (base.length - off)) := by
  have hcopy : (reading base off).toCopy len 0 0 = min len (base.length - off) := by
    rw [toCopy, remaining_reading h hword]
    split
    next hz =>
      obtain rfl : len = 0 := by omega
      simp
    · simp
  rw [readOut, nreadOut, if_neg (by simp [reading]), hcopy]
  dsimp only
  split
  next hz =>
    rw [hz]
    have hnil : (base.drop off).take len = [] := by
      rw [List.take_eq_nil_iff, List.drop_eq_nil_iff]
      omega
    rw [hnil, Nat.add_zero]
  · have hslice : slice base off (min len (base.length - off)) =
        .ok ((base.drop off).take len) := by
      rw [slice, if_pos (by omega)]
      congr 1
      rw [List.take_eq_take_iff, List.length_drop]
      omega
    simp only [reading, hslice]
    rfl

end Kio

end Osdev
