import Mathlib.Data.List.Perm.Basic
import Mathlib.Logic.Function.Basic

/-!
# A table of lists

`f b` is the list at index `b`, and `buckets n f` has what the first `n` lists hold.
-/

namespace Osdev.Lib

universe u

variable {α : Type u} {f : Nat → List α} {l : List α} {a : α} {b n : Nat}

/-- Everything in the first `n` lists. -/
def buckets (n : Nat) (f : Nat → List α) : List α := (List.range n).flatMap f

theorem mem_buckets : a ∈ buckets n f ↔ ∃ b < n, a ∈ f b := by
  simp [buckets, List.mem_flatMap]

theorem buckets_succ : buckets (n + 1) f = buckets n f ++ f n := by
  simp [buckets, List.range_succ]

theorem buckets_update_of_le (h : n ≤ b) : buckets n (Function.update f b l) = buckets n f := by
  induction n with
  | zero => rfl
  | succ n ih => rw [buckets_succ, buckets_succ, ih (by omega), Function.update_of_ne (by omega)]

/-- Taking an element out of one list takes it out of the table. -/
theorem buckets_perm_cons (hb : b < n) (h : (f b).Perm (a :: l)) :
    (buckets n f).Perm (a :: buckets n (Function.update f b l)) := by
  induction n with
  | zero => omega
  | succ n ih =>
    rw [buckets_succ, buckets_succ]
    obtain rfl | hbn := eq_or_ne b n
    · rw [buckets_update_of_le (Nat.le_refl _), Function.update_self]
      exact (h.append_left _).trans List.perm_middle
    · rw [Function.update_of_ne (Ne.symm hbn)]
      exact (ih (by omega)).append_right _

/-- Putting an element into one list puts it into the table. -/
theorem buckets_insert_perm (hb : b < n) :
    (buckets n (Function.update f b (f b ++ [a]))).Perm (a :: buckets n f) := by
  have h : (Function.update f b (f b ++ [a]) b).Perm (a :: f b) := by
    rw [Function.update_self]
    exact List.perm_append_singleton a (f b)
  simpa using buckets_perm_cons hb h

/-- `eraseP` takes out what `find?` finds. -/
theorem perm_cons_eraseP {p : α → Bool} (h : l.find? p = some a) : l.Perm (a :: l.eraseP p) := by
  obtain ⟨ha, xs, ys, rfl, hxs⟩ := List.find?_eq_some_iff_append.mp h
  have hskip : ∀ x ∈ xs, ¬ p x = true := fun x hx => by simpa using hxs x hx
  rw [List.eraseP_append_right _ hskip, List.eraseP_cons_of_pos ha]
  exact List.perm_middle

/-- Another element is found as before. -/
theorem find?_eraseP_of_disjoint {p q : α → Bool} (h : ∀ x ∈ l, q x = true → p x = false) :
    (l.eraseP q).find? p = l.find? p := by
  induction l with
  | nil => rfl
  | cons x l ih =>
    have ih := ih fun y hy => h y (List.mem_cons_of_mem x hy)
    cases hq : q x with
    | false => rw [List.eraseP_cons_of_neg (by simp [hq]), List.find?_cons, List.find?_cons, ih]
    | true => rw [List.eraseP_cons_of_pos hq, List.find?_cons, h x (by simp) hq]

end Osdev.Lib
