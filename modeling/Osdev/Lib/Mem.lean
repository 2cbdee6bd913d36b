import Mathlib.Data.Nat.Basic
import Mathlib.Tactic.Ring

/-!
# Byte-addressed memory

A memory is a total function from addresses to bytes, with little-endian accesses of any
width. Everything a proof about pointer code needs is one of three facts:

* an access sees only the bytes it covers (`read_congr`),
* reading back what was written gives the value (`read_write_same`),
* a write leaves disjoint accesses alone (`read_write_disjoint`).
-/

namespace Osdev.Lib

variable {m m' : Mem} {a n b k v : Nat}

/-- A memory: one byte for each address. -/
abbrev Mem := Nat → UInt8

namespace Mem

/-- Little-endian read of `n` bytes at `a`. -/
def read (m : Mem) (a : Nat) : Nat → Nat
  | 0 => 0
  | n + 1 => (m a).toNat + 256 * read m (a + 1) n

/-- Little-endian write of the low `n` bytes of `v` at `a`. -/
def write (m : Mem) (a : Nat) : Nat → Nat → Mem
  | 0, _ => m
  | n + 1, v => fun x => if x = a then UInt8.ofNat v else write m (a + 1) n (v / 256) x

/-- Fill `n` bytes at `a` with `b`. -/
def fill (m : Mem) (a n : Nat) (b : UInt8) : Mem :=
  fun x => if a ≤ x ∧ x < a + n then b else m x

/-- `m` and `m'` agree on the bytes of `[a, a + n)`. -/
def AgreeOn (m m' : Mem) (a n : Nat) : Prop :=
  ∀ x, a ≤ x → x < a + n → m' x = m x

theorem AgreeOn.mono (h : AgreeOn m m' a n) (ha : a ≤ b) (hn : b + k ≤ a + n) : AgreeOn m m' b k :=
  fun x hx hx' => h x (by omega) (by omega)

theorem AgreeOn.trans {m'' : Mem} (h : AgreeOn m m' a n) (h' : AgreeOn m' m'' a n) :
    AgreeOn m m'' a n :=
  fun x hx hx' => (h' x hx hx').trans (h x hx hx')

/-- An access sees only the bytes it covers. -/
theorem read_congr : ∀ {n a : Nat}, AgreeOn m m' a n → m'.read a n = m.read a n
  | 0, _, _ => rfl
  | n + 1, a, h => by
    have hhead : m' a = m a := h a (Nat.le_refl a) (by omega)
    have htail : m'.read (a + 1) n = m.read (a + 1) n :=
      read_congr (h.mono (by omega) (by omega))
    rw [read, read, hhead, htail]

theorem write_outside (m : Mem) : ∀ (n a v x : Nat), x < a ∨ a + n ≤ x → m.write a n v x = m x
  | 0, _, _, _, _ => rfl
  | n + 1, a, v, x, h => by
    have hne : x ≠ a := by omega
    show (if x = a then UInt8.ofNat v else m.write (a + 1) n (v / 256) x) = m x
    rw [if_neg hne]
    exact write_outside m n (a + 1) (v / 256) x (by omega)

/-- A write of `n` bytes at `a` does not touch a disjoint range. -/
theorem agreeOn_write (h : a + n ≤ b ∨ b + k ≤ a) :
    AgreeOn m (m.write a n v) b k :=
  fun x hx hx' => write_outside m n a v x (by omega)

theorem AgreeOn.write (hm : AgreeOn m m' b k) (h : a + n ≤ b ∨ b + k ≤ a) :
    AgreeOn m (m'.write a n v) b k :=
  hm.trans (agreeOn_write h)

theorem agreeOn_fill {c : UInt8} (h : a + n ≤ b ∨ b + k ≤ a) :
    AgreeOn m (m.fill a n c) b k := by
  intro x hx hx'
  rw [fill, if_neg (by omega)]

theorem read_write_disjoint (h : a + n ≤ b ∨ b + k ≤ a) :
    (m.write a n v).read b k = m.read b k :=
  read_congr (agreeOn_write h)

/-- Reading back what was written gives the low bytes of the value. -/
theorem read_write_mod (m : Mem) : ∀ (n a v : Nat), (m.write a n v).read a n = v % 256 ^ n
  | 0, _, v => by simp [read, Nat.mod_one]
  | n + 1, a, v => by
    have hhead : m.write a (n + 1) v a = UInt8.ofNat v := by
      show (if a = a then UInt8.ofNat v else _) = _
      rw [if_pos rfl]
    have htail : AgreeOn (m.write (a + 1) n (v / 256)) (m.write a (n + 1) v) (a + 1) n := by
      intro x hx _
      show (if x = a then UInt8.ofNat v else m.write (a + 1) n (v / 256) x) = _
      rw [if_neg (by omega)]
    rw [read, hhead, read_congr htail, read_write_mod m n (a + 1) (v / 256)]
    have hbyte : (UInt8.ofNat v).toNat = v % 256 := by simp
    rw [hbyte, Nat.pow_succ, Nat.mul_comm (256 ^ n) 256, Nat.mod_mul]

theorem read_write_same (h : v < 256 ^ n) :
    (m.write a n v).read a n = v := by
  rw [read_write_mod, Nat.mod_eq_of_lt h]

end Mem

end Osdev.Lib
