import Mathlib.Data.List.Basic
import Mathlib.Data.List.Nodup

/-!
# Doubly linked segments

`Seg next prev p l q` says that following `next` from the head of `l` visits exactly `l`, that
`prev` leads back, and that the segment hangs between the outside neighbours `p` and `q`.

Two facts carry every proof about link surgery: a segment splits at any point (`seg_append`),
and a segment may be hung between other neighbours when only its two outer links change
(`seg_relink`).
-/

namespace Osdev.Lib

variable {α : Type*}
variable {l xs : List α} {p q p' q' : α} {next prev next' prev' : α → α}

/-- The cells of `l` are linked in order, between the neighbours `p` and `q`. -/
def Seg (next prev : α → α) : α → List α → α → Prop
  | _, [], _ => True
  | p, a :: l, q => prev a = p ∧ next a = l.headD q ∧ Seg next prev a l q

theorem getLastD_mem (h : l ≠ []) (p : α) : l.getLastD p ∈ l := by
  obtain ⟨b, l', rfl⟩ := List.exists_cons_of_ne_nil h
  rw [List.getLastD_cons]
  exact List.getLastD_mem_cons

theorem headD_mem (h : l ≠ []) (q : α) : l.headD q ∈ l := by
  obtain ⟨b, l', rfl⟩ := List.exists_cons_of_ne_nil h
  simp

theorem getLastD_cases (l : List α) (p : α) :
    l = [] ∧ l.getLastD p = p ∨ l ≠ [] ∧ l.getLastD p ∈ l := by
  by_cases h : l = []
  · simp [h]
  · exact .inr ⟨h, getLastD_mem h p⟩

theorem headD_cases (l : List α) (q : α) : l = [] ∧ l.headD q = q ∨ l ≠ [] ∧ l.headD q ∈ l := by
  by_cases h : l = []
  · simp [h]
  · exact .inr ⟨h, headD_mem h q⟩

theorem headD_append (xs ys : List α) (q : α) : (xs ++ ys).headD q = xs.headD (ys.headD q) := by
  cases xs <;> rfl

theorem getLastD_append (xs ys : List α) (p : α) :
    (xs ++ ys).getLastD p = ys.getLastD (xs.getLastD p) := by
  induction xs generalizing p with
  | nil => rfl
  | cons a xs ih =>
    rw [List.cons_append, List.getLastD_cons, List.getLastD_cons]
    exact ih a

theorem seg_append (xs ys : List α) (p q : α) :
    Seg next prev p (xs ++ ys) q ↔
      Seg next prev p xs (ys.headD q) ∧ Seg next prev (xs.getLastD p) ys q := by
  induction xs generalizing p with
  | nil => simp [Seg]
  | cons a xs ih =>
    rw [List.cons_append, Seg, headD_append, ih a]
    simp only [List.getLastD_cons]
    constructor
    · rintro ⟨h1, h2, h3, h4⟩
      exact ⟨⟨h1, h2, h3⟩, h4⟩
    · rintro ⟨⟨h1, h2, h3⟩, h4⟩
      exact ⟨h1, h2, h3, h4⟩

theorem seg_congr
    (h : Seg next prev p xs q) (heq : ∀ a ∈ xs, next' a = next a ∧ prev' a = prev a) :
    Seg next' prev' p xs q := by
  induction xs generalizing p with
  | nil => trivial
  | cons a xs ih =>
    obtain ⟨hn, hp⟩ := heq a (by simp)
    refine ⟨by rw [hp]; exact h.1, by rw [hn]; exact h.2.1, ?_⟩
    exact ih h.2.2 (fun b hb => heq b (by simp [hb]))

/-- The last cell of a segment points at its right neighbour. -/
theorem seg_next_last (h : Seg next prev p xs q)
    (hne : xs ≠ []) : next (xs.getLastD p) = q := by
  induction xs generalizing p with
  | nil => exact absurd rfl hne
  | cons a xs ih =>
    cases xs with
    | nil => exact h.2.1
    | cons b ys => exact ih h.2.2 (List.cons_ne_nil _ _)

/-- The first cell of a segment points back at its left neighbour. -/
theorem seg_prev_head (h : Seg next prev p xs q)
    (hne : xs ≠ []) : prev (xs.headD q) = p := by
  cases xs with
  | nil => exact absurd rfl hne
  | cons a xs => exact h.1

/-- The cells met from `a` on, up to `stop`. -/
def follow [DecidableEq α] (link : α → α) (stop : α) : Nat → α → Option (List α)
  | 0, _ => none
  | fuel + 1, a => if a = stop then some [] else (follow link stop fuel (link a)).map (a :: ·)

theorem seg_follow [DecidableEq α] {fuel : Nat}
    (h : Seg next prev p xs q) (hq : ∀ a ∈ xs, a ≠ q) (hf : xs.length < fuel) :
    follow next q fuel (xs.headD q) = some xs := by
  induction xs generalizing p fuel with
  | nil =>
    obtain _ | fuel := fuel
    · exact absurd hf (Nat.not_lt_zero _)
    · exact if_pos rfl
  | cons a xs ih =>
    obtain _ | fuel := fuel
    · exact absurd hf (Nat.not_lt_zero _)
    · rw [List.headD_cons, follow, if_neg (hq a (by simp)), h.2.1,
        ih h.2.2 (fun b hb => hq b (by simp [hb])) (Nat.lt_of_succ_lt_succ hf)]
      rfl

theorem headD_reverse (xs : List α) (q : α) : xs.reverse.headD q = xs.getLastD q := by
  rw [List.headD_eq_head?_getD, List.head?_reverse, List.getLastD_eq_getLast?]

/-- Backwards, the links change places. -/
theorem seg_reverse (h : Seg next prev p xs q) :
    Seg prev next q xs.reverse p := by
  induction xs generalizing p with
  | nil => trivial
  | cons a xs ih =>
    rw [List.reverse_cons, seg_append]
    refine ⟨ih h.2.2, ?_, h.1, trivial⟩
    rw [← headD_reverse, List.reverse_reverse]
    exact h.2.1

/--
**A segment may be hung between other neighbours.**

The inner links must not change; the head must point back to the new left neighbour and the last
cell forward to the new right one.
-/
theorem seg_relink
    (h : Seg next prev p xs q) (hnd : xs.Nodup)
    (hnext : ∀ a ∈ xs, a ≠ xs.getLastD p → next' a = next a)
    (hprev : ∀ a ∈ xs, a ≠ xs.headD q → prev' a = prev a)
    (hlast : ∀ a ∈ xs, a = xs.getLastD p → next' a = q')
    (hhead : ∀ a ∈ xs, a = xs.headD q → prev' a = p') :
    Seg next' prev' p' xs q' := by
  induction xs generalizing p p' with
  | nil => trivial
  | cons a xs ih =>
    obtain ⟨_, hn, hs⟩ := h
    obtain ⟨hax, hnd'⟩ := List.nodup_cons.mp hnd
    refine ⟨hhead a (by simp) rfl, ?_, ?_⟩
    · cases xs with
      | nil => exact hlast a (by simp) rfl
      | cons b ys =>
        have hne : a ≠ (a :: b :: ys).getLastD p := by
          intro he
          rw [List.getLastD_cons, List.getLastD_cons] at he
          exact hax (he ▸ List.getLastD_mem_cons)
        rw [hnext a (by simp) hne, hn]
        rfl
    · refine ih hs hnd' (fun b hb hne => ?_) (fun b hb hne => ?_) (fun b hb he => ?_)
        (fun b hb he => ?_)
      · exact hnext b (by simp [hb]) (by rwa [List.getLastD_cons])
      · refine hprev b (by simp [hb]) ?_
        intro he
        have hba : b = a := he
        exact hax (hba ▸ hb)
      · exact hlast b (by simp [hb]) (by rwa [List.getLastD_cons])
      · cases xs with
        | nil => simp at hb
        | cons c ys =>
          have hbc : b = c := he
          subst hbc
          have hne : b ≠ a := fun hba => hax (hba ▸ (by simp))
          rw [hprev b (by simp [hb]) hne]
          exact hs.1

section Relink

variable {next prev next' prev' : α → α} {p q z : α} {xs ys : List α} [DecidableEq α]

/-- Only the right neighbour changes. -/
theorem seg_relink_right (h : Seg next prev p xs q) (hnd : xs.Nodup)
    (hnext : ∀ a ∈ xs, next' a = if a = xs.getLastD p then q' else next a)
    (hprev : ∀ a ∈ xs, prev' a = prev a) : Seg next' prev' p xs q' := by
  refine seg_relink h hnd (fun a ha hne => ?_) (fun a ha _ => hprev a ha) (fun a ha he => ?_)
    (fun a ha he => ?_)
  · rw [hnext a ha, if_neg hne]
  · rw [hnext a ha, if_pos he]
  · rw [hprev a ha, he]
    exact seg_prev_head h (List.ne_nil_of_mem ha)

/-- Only the left neighbour changes. -/
theorem seg_relink_left (h : Seg next prev p xs q) (hnd : xs.Nodup)
    (hnext : ∀ a ∈ xs, next' a = next a)
    (hprev : ∀ a ∈ xs, prev' a = if a = xs.headD q then p' else prev a) :
    Seg next' prev' p' xs q := by
  refine seg_relink h hnd (fun a ha _ => hnext a ha) (fun a ha hne => ?_) (fun a ha he => ?_)
    (fun a ha he => ?_)
  · rw [hprev a ha, if_neg hne]
  · rw [hnext a ha, he]
    exact seg_next_last h (List.ne_nil_of_mem ha)
  · rw [hprev a ha, if_pos he]

/-- Putting the cell `z` between `xs` and `ys`. -/
theorem seg_insert (h : Seg next prev p (xs ++ ys) q) (hnd : (xs ++ ys).Nodup)
    (hzn : next' z = ys.headD q) (hzp : prev' z = xs.getLastD p)
    (hnx : ∀ a ∈ xs, next' a = if a = xs.getLastD p then z else next a)
    (hpx : ∀ a ∈ xs, prev' a = prev a) (hny : ∀ a ∈ ys, next' a = next a)
    (hpy : ∀ a ∈ ys, prev' a = if a = ys.headD q then z else prev a) :
    Seg next' prev' p (xs ++ z :: ys) q := by
  obtain ⟨hx, hy⟩ := (seg_append xs ys p q).mp h
  obtain ⟨hndx, hndy, -⟩ := List.nodup_append.mp hnd
  refine (seg_append xs (z :: ys) p q).mpr ⟨?_, hzp, hzn, ?_⟩
  · exact seg_relink_right hx hndx hnx hpx
  · exact seg_relink_left hy hndy hny hpy

/-- Taking the cell `z` out from between `xs` and `ys`. -/
theorem seg_remove (h : Seg next prev p (xs ++ z :: ys) q) (hnd : (xs ++ z :: ys).Nodup)
    (hnx : ∀ a ∈ xs, next' a = if a = xs.getLastD p then ys.headD q else next a)
    (hpx : ∀ a ∈ xs, prev' a = prev a) (hny : ∀ a ∈ ys, next' a = next a)
    (hpy : ∀ a ∈ ys, prev' a = if a = ys.headD q then xs.getLastD p else prev a) :
    Seg next' prev' p (xs ++ ys) q := by
  obtain ⟨hx, -, -, hy⟩ := (seg_append xs (z :: ys) p q).mp h
  obtain ⟨hndx, hndy, -⟩ := List.nodup_append.mp hnd
  refine (seg_append xs ys p q).mpr ⟨?_, ?_⟩
  · exact seg_relink_right hx hndx hnx hpx
  · exact seg_relink_left hy (List.nodup_cons.mp hndy).2 hny hpy

end Relink

end Osdev.Lib
