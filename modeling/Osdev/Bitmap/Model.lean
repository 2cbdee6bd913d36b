import Osdev.Base
import Osdev.Lib.BitRun

/-!
# Bitmaps (`lib/bitmap.c`)

The map is memory read in 64-bit words: `map i` is the word `bmp->map[i]`, whether or not it is one
of the words that `size` covers. `front` is the word before the map, `bmp->map[-1]`.

The build sets no optimisation level, so a shift is the x86 instruction: it takes its count modulo
64. C gives no meaning to a shift by 64, and three of the functions make one.
-/

namespace Osdev.Bmp

open Osdev.Lib

abbrev Word := BitVec 64

/-- `MAX_NUM`. -/
def maxNum : Word := BitVec.allOnes 64

def shl (x : Word) (k : Nat) : Word := x <<< (k % 64)
def shr (x : Word) (k : Nat) : Word := x >>> (k % 64)

/-- `__bsf64`, for a word that is not 0. -/
def bsf64 (x : Word) : Nat := x.ctz.toNat

def popcnt64 (x : Word) : Nat := x.cpop.toNat

/-- `bitmap_t`. -/
structure Bitmap where
  map : Nat → Word
  front : Word
  /-- in bytes -/
  size : Nat
  free : Nat
  used : Nat

/-- The assertions of this file. -/
inductive Panic where
  | index
  | freeCount
  | usedCount
  | alignment
  | unreachable
  deriving DecidableEq, Repr

namespace Bitmap

/-- The number of words that the searches look at. -/
def words (b : Bitmap) : Nat := b.size / 8

/-- The value of bit `k`. -/
def bit (b : Bitmap) (k : Nat) : Bool := (b.map (k / 64)).getLsbD (k % 64)

/-- `bmp->map[i] = x`. The only negative index that occurs is `-1`. -/
def setWord (b : Bitmap) (i : Int) (x : Word) : Bitmap :=
  match i with
  | .ofNat i => { b with map := Function.update b.map i x }
  | .negSucc _ => { b with front := x }

end Bitmap

/-- `memset(map, 0, n)` where the memory held `mem`. -/
def zeroBytes (mem : Nat → Word) (n : Nat) : Nat → Word := fun i =>
  if 8 * (i + 1) ≤ n then 0
  else if 8 * i < n then shl (shr (mem i) (8 * (n - 8 * i))) (8 * (n - 8 * i))
  else mem i

/-- `create_bitmap`, over memory that holds `mem`. -/
def createBitmap (mem : Nat → Word) (front : Word) (n : Nat) : Bitmap :=
  let bytes := align n 64 / 8
  { map := zeroBytes mem bytes, front := front, size := bytes, free := n, used := 0 }

/-- `memcpy(map, src, n)` where the memory held `mem`. -/
def copyBytes (mem src : Nat → Word) (n : Nat) : Nat → Word := fun i =>
  if 8 * (i + 1) ≤ n then src i
  else if 8 * i < n then
    let keep := shl maxNum (8 * (n - 8 * i))
    (mem i &&& keep) ||| (src i &&& ~~~ keep)
  else mem i

/-- `clone_bitmap`, over memory that holds `mem`. -/
def cloneBitmap (mem : Nat → Word) (front : Word) (b : Bitmap) : Bitmap :=
  { map := copyBytes mem b.map b.size, front := front, size := b.size, free := b.free,
    used := b.used }

/-! ## Single bits -/

/-- `bitmap_get`. -/
def bitmapGet (b : Bitmap) (index : Nat) : Except Panic Bool :=
  if index < addWord b.used b.free then .ok (b.bit index) else .error .index

/-- `bitmap_set`. It returns the old value of the bit. -/
def bitmapSet (b : Bitmap) (index : Nat) : Except Panic (Bool × Bitmap) :=
  if index < addWord b.used b.free then
    let result := b.bit index
    let b := b.setWord (index / 64 : Nat) (b.map (index / 64) ||| shl 1 (index % 64))
    .ok (result, { b with used := addWord b.used 1, free := subWord b.free 1 })
  else .error .index

/-- `bitmap_clear`. It returns the old value of the bit. -/
def bitmapClear (b : Bitmap) (index : Nat) : Except Panic (Bool × Bitmap) :=
  if index < addWord b.used b.free then
    let result := b.bit index
    let b := b.setWord (index / 64 : Nat) (b.map (index / 64) &&& ~~~ shl 1 (index % 64))
    .ok (result,
      { b with used := subWord b.used result.toNat, free := addWord b.free result.toNat })
  else .error .index

/-! ## Ranges of bits

`bitmap_get_n`, `bitmap_set_n` and `bitmap_clear_n` go through `chunk_count` words. The mask of word
`i` is the same expression in all three; `n` is the number of bits still to do and `m` the number of
bits counted for this word.
-/

def chunkCount (n : Nat) : Nat := n / 64 + if 0 < n % 64 then 1 else 0

def chunkMask (chunks startBit i n m : Nat) : Word :=
  if i = 0 then shl (shl 1 m - 1) startBit
  else if i = chunks - 1 ∧ n < 64 then shl 1 m - 1
  else maxNum

/-- The loop of `bitmap_get_n` from word `i`, with `k` words to go. -/
def getNLoop (b : Bitmap) (chunks startIndex startBit : Nat) : Nat → Nat → Nat → Nat → Nat
  | 0, _, _, count => count
  | k + 1, i, n, count =>
    let m := min n 64
    let value := b.map (startIndex + i) &&& chunkMask chunks startBit i n m
    getNLoop b chunks startIndex startBit k (i + 1) (n - m) (count + popcnt64 value)

/-- `bitmap_get_n`. -/
def bitmapGetN (b : Bitmap) (index n : Nat) : Except Panic Nat :=
  if n ≤ b.free then
    .ok (getNLoop b (chunkCount n) (index / 64) (index % 64) (chunkCount n) 0 n 0)
  else .error .freeCount

/-- The loop of `bitmap_set_n` from word `i`, with `k` words to go. -/
def setNLoop (chunks startIndex startBit : Nat) : Nat → Nat → Nat → Nat → Bitmap → Nat × Bitmap
  | 0, _, _, count, b => (count, b)
  | k + 1, i, n, count, b =>
    let m := min n 64
    let mask := chunkMask chunks startBit i n m
    let value := b.map (startIndex + i) &&& mask
    let b := b.setWord (startIndex + i : Nat) (b.map (startIndex + i) ||| mask)
    setNLoop chunks startIndex startBit k (i + 1) (n - m) (count + popcnt64 value)
      { b with used := addWord b.used m, free := subWord b.free m }

/-- `bitmap_set_n`. -/
def bitmapSetN (b : Bitmap) (index n : Nat) : Except Panic (Nat × Bitmap) :=
  if n ≤ b.free then
    .ok (setNLoop (chunkCount n) (index / 64) (index % 64) (chunkCount n) 0 n 0 b)
  else .error .freeCount

/-- The loop of `bitmap_clear_n` from word `i`, with `k` words to go. -/
def clearNLoop (chunks startIndex startBit : Nat) : Nat → Nat → Nat → Bitmap → Bitmap
  | 0, _, _, b => b
  | k + 1, i, n, b =>
    let m := min n (64 - if i = 0 then startBit else 0)
    let mask := chunkMask chunks startBit i n m
    let b := b.setWord (startIndex + i : Nat) (b.map (startIndex + i) &&& ~~~ mask)
    clearNLoop chunks startIndex startBit k (i + 1) (n - m)
      { b with used := subWord b.used m, free := addWord b.free m }

/-- `bitmap_clear_n`. -/
def bitmapClearN (b : Bitmap) (index n : Nat) : Except Panic Bitmap :=
  if n ≤ b.used then
    .ok (clearNLoop (chunkCount n) (index / 64) (index % 64) (chunkCount n) 0 n b)
  else .error .usedCount

/-! ## Searches -/

/-- The loop of `bitmap_get_set_free` from word `i`, with `k` words to go. -/
def getSetFreeLoop (b : Bitmap) : Nat → Nat → Int × Bitmap
  | 0, _ => (-1, b)
  | k + 1, i =>
    let qw := b.map i
    if qw = maxNum then getSetFreeLoop b k (i + 1)
    else if qw = 0 then ((i * 64 : Nat), b.setWord i 1)
    else
      let offset := bsf64 (~~~ qw)
      ((i * 64 + offset : Nat), b.setWord i (qw ||| shl 1 offset))

/-- `bitmap_get_set_free`. It leaves the counters alone. -/
def bitmapGetSetFree (b : Bitmap) : Int × Bitmap :=
  if b.free = 0 then (-1, b) else getSetFreeLoop b b.words 0

/-- The `while (qw > 0)` loop: skip zeros, then ones, until `n` ones are found. Every round skips a
one, so a word of 64 bits is done after 64 rounds. -/
def findOnes (n : Nat) : Nat → Word → Nat → Option Nat
  | 0, _, _ => none
  | rounds + 1, qw, p =>
    if qw = 0 then none
    else
      let k := bsf64 qw
      let qw := qw >>> k
      let p := p + k
      let k := bsf64 (~~~ qw)
      if n ≤ k then some p else findOnes n rounds (qw >>> k) (p + k)

/-- The search of `bitmap_get_set_nfree` for at most 64 bits, from word `i` with `k` words to go. -/
def getSetNfreeSmall (b : Bitmap) (n : Nat) : Nat → Nat → Int × Bitmap
  | 0, _ => (-1, b)
  | k + 1, i =>
    let qw := ~~~ b.map i
    if qw = 0 ∨ popcnt64 qw < n then getSetNfreeSmall b n k (i + 1)
    else if qw = maxNum then
      -- an empty word: only this branch leaves `used` as it was
      let b := b.setWord i (b.map i ||| shr maxNum (64 - n))
      ((i * 64 : Nat), { b with free := subWord b.free n })
    else
      match findOnes n 64 qw 0 with
      | some p =>
        let b := b.setWord i (b.map i ||| shl (shr maxNum (64 - n)) p)
        ((i * 64 + p : Nat), { b with used := addWord b.used n, free := subWord b.free n })
      | none => getSetNfreeSmall b n k (i + 1)

/-- How the inner loop over `j` ends: enough zero words, a word `j` that is not zero, or the end of
the map. -/
inductive Inner where
  | enough
  | hit (j : Nat)
  | short
  deriving DecidableEq, Repr

/-- The inner loop of the long search, from word `j` with `k` words to go. -/
def countZero (b : Bitmap) (chunks : Nat) : Nat → Nat → Nat → Inner
  | 0, _, found => if found < chunks then .short else .enough
  | k + 1, j, found =>
    if b.map j ≠ 0 then .hit j
    else if chunks ≤ found + 1 then .enough
    else countZero b chunks k (j + 1) (found + 1)

/-- How the outer loop ends: a start was found, the map ended inside a run (`return -1`), or the
loop ran out with `index` still `-1`. -/
inductive Outer where
  | found (i : Nat)
  | short
  | exhausted
  deriving DecidableEq, Repr

/-- The outer loop of the long search from word `i`. After a hit at `j` it goes on at `j + 2`: `i`
is set to `j + 1`, and the loop adds one. Every round moves `i` up, so `words` rounds are enough. -/
def findZeroWords (b : Bitmap) (align chunks : Nat) : Nat → Nat → Outer
  | 0, _ => .exhausted
  | rounds + 1, i =>
    if b.words ≤ i then .exhausted
    else if b.map i ≠ 0 ∨ i * 64 % align ≠ 0 then findZeroWords b align chunks rounds (i + 1)
    else
      match countZero b chunks (b.words - i) i 0 with
      | .enough => .found i
      | .hit j => findZeroWords b align chunks rounds (j + 2)
      | .short => .short

/-- The loop that marks the words of a long run, from word `i` with `k` words to go. In the last
word `remaining` is already 0 when the shift reads it. -/
def markLoop (n : Nat) (index : Int) : Nat → Nat → Nat → Bitmap → Except Panic (Int × Bitmap)
  | 0, _, _, _ => .error .unreachable
  | k + 1, i, remaining, b =>
    let v := min remaining 64
    let remaining := remaining - v
    if 0 < remaining then markLoop n index k (i + 1) remaining (b.setWord (index + i) maxNum)
    else
      let b := b.setWord (index + i) (if v = 64 then maxNum else shr maxNum (64 - remaining))
      .ok (index * 64, { b with used := addWord b.used n, free := subWord b.free n })

/-- `bitmap_get_set_nfree`. When the long search runs out, the marking loop runs with index `-1`. -/
def bitmapGetSetNfree (b : Bitmap) (n align : Nat) : Except Panic (Int × Bitmap) :=
  if b.free < n then .ok (-1, b)
  else if align &&& subWord align 1 ≠ 0 then .ok (-1, b)
  else if n ≤ 64 then
    if align ≠ 0 then .error .alignment
    else .ok (getSetNfreeSmall b n b.words 0)
  else
    let align := if align = 0 then 1 else align
    match findZeroWords b align (chunkCount n) b.words 0 with
    | .found i => markLoop n i (chunkCount n) 0 n b
    | .short => .ok (-1, b)
    | .exhausted => markLoop n (-1) (chunkCount n) 0 n b

end Osdev.Bmp
