/-!
# Address ranges

A range is a base and a size. Disjointness and inclusion are about the addresses in a range, so an
empty range is disjoint from every range and inside every range.
-/

namespace Osdev.Lib

structure Range where
  base : Nat
  size : Nat
  deriving DecidableEq, Repr

namespace Range

/-- First address after the range. -/
def stop (r : Range) : Nat := r.base + r.size

/-- `x` is an address of the range. -/
def Has (r : Range) (x : Nat) : Prop := r.base ≤ x ∧ x < r.stop

def Disjoint (r s : Range) : Prop := ∀ x, r.Has x → ¬ s.Has x

def Inside (r s : Range) : Prop := ∀ x, r.Has x → s.Has x

theorem Disjoint.symm {r s : Range} (h : r.Disjoint s) : s.Disjoint r :=
  fun x hs hr => h x hr hs

theorem Disjoint.mono {r r' s s' : Range} (h : r.Disjoint s) (hr : r'.Inside r)
    (hs : s'.Inside s) : r'.Disjoint s' :=
  fun x hx hx' => h x (hr x hx) (hs x hx')

theorem disjoint_of_le {r s : Range} (h : r.stop ≤ s.base) : r.Disjoint s := by
  intro x hr hs
  have h1 := hr.2
  have h2 := hs.1
  omega

theorem inside_of_le {r s : Range} (hb : s.base ≤ r.base) (he : r.stop ≤ s.stop) : r.Inside s :=
  fun _ hx => ⟨Nat.le_trans hb hx.1, Nat.lt_of_lt_of_le hx.2 he⟩

theorem Inside.size_le {r s : Range} (h : r.Inside s) : r.size ≤ s.size := by
  by_cases h0 : r.size = 0
  · omega
  · have h1 := h r.base
    have h2 := h (r.base + r.size - 1)
    unfold Has stop at h1 h2
    omega

end Range

end Osdev.Lib
