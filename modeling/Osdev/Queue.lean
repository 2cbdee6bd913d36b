import Osdev.Lib.LinkedList
import Osdev.Lib.Run

/-!
# The list macros of `include/kernel/queue.h`

A `LIST_HEAD` is a pair of pointers `first` and `last`, and every element carries a `LIST_ENTRY`
with `next` and `prev`. The macros are written once, over any state that has these links:
`ListStore` names the accesses, and `ListStore.Lawful` says that they do not interfere for the
cells of a set `D`. A null pointer is `0`.
-/

namespace Osdev

open Osdev.Lib

/-- Access to one `LIST_HEAD` and to the `LIST_ENTRY` of its elements in a state `S`. -/
structure ListStore (S : Type) where
  first : S → Nat
  last : S → Nat
  next : S → Nat → Nat
  prev : S → Nat → Nat
  setFirst : Nat → S → S
  setLast : Nat → S → S
  setNext : Nat → Nat → S → S
  setPrev : Nat → Nat → S → S

namespace ListStore

variable {S : Type} (L : ListStore S)
variable {el b : Nat}

/-- `LIST_ADD(head, el, name)`: append at the end. -/
def add (el : Nat) (s : S) : S :=
  if L.first s = 0 then
    L.setPrev el 0 (L.setNext el 0 (L.setLast el (L.setFirst el s)))
  else
    let s := L.setNext (L.last s) el s
    let s := L.setNext el 0 s
    let s := L.setPrev el (L.last s) s
    L.setLast el s

/-- `LIST_ADD_FRONT(head, el, name)`. -/
def addFront (el : Nat) (s : S) : S :=
  if L.first s = 0 then
    L.setPrev el 0 (L.setNext el 0 (L.setLast el (L.setFirst el s)))
  else
    let s := L.setPrev (L.first s) el s
    let s := L.setNext el (L.first s) s
    let s := L.setPrev el 0 s
    L.setFirst el s

/-- `LIST_INSERT(head, el, name, after)`. -/
def insert (el after : Nat) (s : S) : S :=
  let s := if after = L.last s then L.setLast el s else L.setPrev (L.next s after) el s
  let s := L.setNext el (L.next s after) s
  let s := L.setPrev el after s
  L.setNext after el s

/-- `LIST_REMOVE(head, el, name)`. -/
def remove (el : Nat) (s : S) : S :=
  if el = L.first s then
    if el = L.last s then
      L.setLast 0 (L.setFirst 0 s)
    else
      let s := L.setPrev (L.next s el) 0 s
      let s := L.setFirst (L.next s el) s
      L.setNext el 0 s
  else if el = L.last s then
    let s := L.setNext (L.prev s el) 0 s
    let s := L.setLast (L.prev s el) s
    L.setPrev el 0 s
  else
    let s := L.setPrev (L.next s el) (L.prev s el) s
    let s := L.setNext (L.prev s el) (L.next s el) s
    let s := L.setNext el 0 s
    L.setPrev el 0 s

/-- The links of the cells in `D` and the two head pointers can be set independently. -/
structure Lawful (D : Nat → Prop) : Prop where
  first_setFirst : ∀ s v, (D v ∨ v = 0) → L.first (L.setFirst v s) = v
  first_setLast : ∀ s v, L.first (L.setLast v s) = L.first s
  first_setNext : ∀ s a v, L.first (L.setNext a v s) = L.first s
  first_setPrev : ∀ s a v, L.first (L.setPrev a v s) = L.first s
  last_setFirst : ∀ s v, L.last (L.setFirst v s) = L.last s
  last_setLast : ∀ s v, (D v ∨ v = 0) → L.last (L.setLast v s) = v
  last_setNext : ∀ s a v, L.last (L.setNext a v s) = L.last s
  last_setPrev : ∀ s a v, L.last (L.setPrev a v s) = L.last s
  next_setFirst : ∀ s v b, L.next (L.setFirst v s) b = L.next s b
  next_setLast : ∀ s v b, L.next (L.setLast v s) b = L.next s b
  next_setNext : ∀ s a v b, D a → D b → (D v ∨ v = 0) →
    L.next (L.setNext a v s) b = if b = a then v else L.next s b
  next_setPrev : ∀ s a v b, D a → D b → L.next (L.setPrev a v s) b = L.next s b
  prev_setFirst : ∀ s v b, L.prev (L.setFirst v s) b = L.prev s b
  prev_setLast : ∀ s v b, L.prev (L.setLast v s) b = L.prev s b
  prev_setNext : ∀ s a v b, D a → D b → L.prev (L.setNext a v s) b = L.prev s b
  prev_setPrev : ∀ s a v b, D a → D b → (D v ∨ v = 0) →
    L.prev (L.setPrev a v s) b = if b = a then v else L.prev s b

/-- The state holds exactly the list `l`. -/
structure Holds (s : S) (l : List Nat) : Prop where
  first : L.first s = l.headD 0
  last : L.last s = l.getLastD 0
  seg : Seg (L.next s) (L.prev s) 0 l 0
  nodup : l.Nodup
  ne_zero : ∀ a ∈ l, a ≠ 0

variable {L} {D : Nat → Prop} {s : S} {l : List Nat}

/-- The links around an element, read off the list. -/
theorem Holds.links {xs ys : List Nat} {a : Nat} (h : L.Holds s (xs ++ a :: ys)) :
    L.prev s a = xs.getLastD 0 ∧ L.next s a = ys.headD 0 ∧
      Seg (L.next s) (L.prev s) 0 xs a ∧ Seg (L.next s) (L.prev s) a ys 0 := by
  obtain ⟨hxs, hp, hn, hys⟩ := (seg_append xs (a :: ys) 0 0).mp h.seg
  exact ⟨hp, hn, hxs, hys⟩

/-! ## What the macros can touch -/

/--
A property that every single link update on the cells of `D` keeps. The macros keep it too, since
they are made of such updates.
-/
structure Stable (L : ListStore S) (D : Nat → Prop) (P : S → Prop) : Prop where
  setFirst : ∀ s v, P s → P (L.setFirst v s)
  setLast : ∀ s v, P s → P (L.setLast v s)
  setNext : ∀ s a v, D a → P s → P (L.setNext a v s)
  setPrev : ∀ s a v, D a → P s → P (L.setPrev a v s)

/-- The stores of `LIST_ADD_FRONT`. -/
theorem Holds.addFront_cases (hL : L.Lawful D) (h : L.Holds s l) (el : Nat) :
    l = [] ∧ L.addFront el s = L.setPrev el 0 (L.setNext el 0 (L.setLast el (L.setFirst el s))) ∨
    ∃ a l', l = a :: l' ∧
      L.addFront el s = L.setFirst el (L.setPrev el 0 (L.setNext el a (L.setPrev a el s))) := by
  cases l with
  | nil => exact .inl ⟨rfl, if_pos h.first⟩
  | cons a l =>
    have ha : L.first s = a := h.first
    refine .inr ⟨a, l, rfl, (if_neg (ha ▸ h.ne_zero a (by simp))).trans ?_⟩
    simp only [hL.first_setPrev, ha]

theorem Stable.addFront {P : S → Prop} (hL : L.Lawful D) (hP : L.Stable D P) (h : L.Holds s l)
    (hl : ∀ a ∈ l, D a) (hel : D el) (hs : P s) : P (L.addFront el s) := by
  rcases h.addFront_cases hL el with ⟨rfl, he⟩ | ⟨a, l, rfl, he⟩
  · rw [he]
    exact hP.setPrev _ _ _ hel (hP.setNext _ _ _ hel (hP.setLast _ _ (hP.setFirst _ _ hs)))
  · have ha := hl a (by simp)
    rw [he]
    exact hP.setFirst _ _ (hP.setPrev _ _ _ hel (hP.setNext _ _ _ hel (hP.setPrev _ _ _ ha hs)))

/-! ## Links that change -/

section Relinked

variable {s' : S} {n p x y : Nat} {xs ys : List Nat}

/-- The links of `el` become `n` and `p`; the end of `xs` leads on to `y`, and the start of `ys`
back to `x`. -/
structure Relinked (L : ListStore S) (D : Nat → Prop) (el n p : Nat) (xs : List Nat) (y x : Nat)
    (ys : List Nat) (s s' : S) : Prop where
  next : ∀ b, D b → L.next s' b =
    if b = el then n else if b = xs.getLastD 0 ∧ xs ≠ [] then y else L.next s b
  prev : ∀ b, D b → L.prev s' b =
    if b = el then p else if b = ys.headD 0 ∧ ys ≠ [] then x else L.prev s b

/-- The links of the other cells stay. -/
theorem Relinked.frame (hr : L.Relinked D el n p xs y x ys s s') (hb : D b) (hne : b ≠ el)
    (hnot : b ∉ xs ++ ys) : L.next s' b = L.next s b ∧ L.prev s' b = L.prev s b := by
  rw [hr.next b hb, hr.prev b hb, if_neg hne, if_neg hne, if_neg, if_neg]
  · exact ⟨rfl, rfl⟩
  · rintro ⟨rfl, hys⟩
    exact hnot (List.mem_append_right _ (headD_mem hys 0))
  · rintro ⟨rfl, hxs⟩
    exact hnot (List.mem_append_left _ (getLastD_mem hxs 0))

/-- The cells around `el`. -/
theorem Relinked.around (hr : L.Relinked D el n p xs y x ys s s') (hl : ∀ a ∈ xs ++ ys, D a)
    (hnd : (xs ++ ys).Nodup) (hel : el ∉ xs ++ ys) :
    (∀ a ∈ xs, L.next s' a = if a = xs.getLastD 0 then y else L.next s a) ∧
      (∀ a ∈ xs, L.prev s' a = L.prev s a) ∧ (∀ a ∈ ys, L.next s' a = L.next s a) ∧
      ∀ a ∈ ys, L.prev s' a = if a = ys.headD 0 then x else L.prev s a := by
  obtain ⟨-, -, hdis⟩ := List.nodup_append.mp hnd
  have hne : ∀ a ∈ xs ++ ys, a ≠ el := fun a ha he => hel (he ▸ ha)
  refine ⟨fun a ha => ?_, fun a ha => ?_, fun a ha => ?_, fun a ha => ?_⟩
  · have hm := List.mem_append_left ys ha
    simp only [hr.next a (hl a hm), if_neg (hne a hm), List.ne_nil_of_mem ha, ne_eq,
      not_false_eq_true, and_true]
  · have hm := List.mem_append_left ys ha
    rw [hr.prev a (hl a hm), if_neg (hne a hm), if_neg]
    exact fun hc => hdis a ha a (hc.1 ▸ headD_mem hc.2 0) rfl
  · have hm := List.mem_append_right xs ha
    rw [hr.next a (hl a hm), if_neg (hne a hm), if_neg]
    exact fun hc => hdis a (hc.1 ▸ getLastD_mem hc.2 0) a ha rfl
  · have hm := List.mem_append_right xs ha
    simp only [hr.prev a (hl a hm), if_neg (hne a hm), List.ne_nil_of_mem ha, ne_eq,
      not_false_eq_true, and_true]

/-- `el` has come between `xs` and `ys`. -/
structure Inserted (L : ListStore S) (D : Nat → Prop) (el : Nat) (xs ys : List Nat) (s s' : S) :
    Prop where
  first : L.first s' = (xs ++ el :: ys).headD 0
  last : L.last s' = (xs ++ el :: ys).getLastD 0
  links : L.Relinked D el (ys.headD 0) (xs.getLastD 0) xs el el ys s s'

theorem Inserted.holds (hi : L.Inserted D el xs ys s s') (h : L.Holds s (xs ++ ys))
    (hl : ∀ a ∈ xs ++ ys, D a) (hel : D el) (hel0 : el ≠ 0) (hnew : el ∉ xs ++ ys) :
    L.Holds s' (xs ++ el :: ys) where
  first := hi.first
  last := hi.last
  nodup := List.perm_middle.nodup_iff.mpr (List.nodup_cons.mpr ⟨hnew, h.nodup⟩)
  ne_zero := by
    intro a ha
    rcases List.mem_cons.mp (List.perm_middle.mem_iff.mp ha) with rfl | ha
    · exact hel0
    · exact h.ne_zero a ha
  seg := by
    obtain ⟨hnx, hpx, hny, hpy⟩ := hi.links.around hl h.nodup hnew
    refine seg_insert h.seg h.nodup ?_ ?_ hnx hpx hny hpy
    · rw [hi.links.next el hel, if_pos rfl]
    · rw [hi.links.prev el hel, if_pos rfl]

end Relinked

/-! ## Adding at the front -/

section AddFront

variable (hL : L.Lawful D) (h : L.Holds s l) (hl : ∀ a ∈ l, D a) (hel : D el)

include hL h hl hel

theorem addFront_next (hb : D b) :
    L.next (L.addFront el s) b = if b = el then l.headD 0 else L.next s b := by
  rcases h.addFront_cases hL el with ⟨rfl, he⟩ | ⟨a, l, rfl, he⟩
  · simp [he, hL.next_setFirst, hL.next_setLast, hL.next_setNext, hL.next_setPrev, hel, hb]
  · have ha := hl a (by simp)
    simp [he, hL.next_setFirst, hL.next_setNext, hL.next_setPrev, hel, hb, ha]

theorem addFront_prev (hb : D b) : L.prev (L.addFront el s) b
    = if b = el then 0 else if b = l.headD 0 ∧ l ≠ [] then el else L.prev s b := by
  rcases h.addFront_cases hL el with ⟨rfl, he⟩ | ⟨a, l, rfl, he⟩
  · simp [he, hL.prev_setFirst, hL.prev_setLast, hL.prev_setNext, hL.prev_setPrev, hel, hb]
  · have ha := hl a (by simp)
    simp [he, hL.prev_setFirst, hL.prev_setNext, hL.prev_setPrev, hel, hb, ha]

theorem addFront_inserted : L.Inserted D el [] l s (L.addFront el s) where
  first := by
    unfold addFront
    split
    · rw [hL.first_setPrev, hL.first_setNext, hL.first_setLast, hL.first_setFirst _ _ (Or.inl hel)]
      rfl
    · rw [hL.first_setFirst _ _ (Or.inl hel)]
      rfl
  last := by
    rcases h.addFront_cases hL el with ⟨rfl, he⟩ | ⟨a, l, rfl, he⟩
    · simp [he, hL.last_setLast, hL.last_setNext, hL.last_setPrev, hel]
    · rw [he, hL.last_setFirst, hL.last_setPrev, hL.last_setNext, hL.last_setPrev, h.last]
      rfl
  links := ⟨fun b hb => by simp [addFront_next hL h hl hel hb],
    fun b hb => addFront_prev hL h hl hel hb⟩

/-- **`LIST_ADD_FRONT` puts the element at the front of the list.** -/
theorem Holds.addFront (hel0 : el ≠ 0) (hnew : el ∉ l) : L.Holds (L.addFront el s) (el :: l) :=
  (addFront_inserted hL h hl hel).holds h hl hel hel0 hnew

end AddFront

/-! ## Removing an element -/

section Remove

variable {xs ys : List Nat} {a : Nat}

theorem Holds.eq_first_iff (h : L.Holds s (xs ++ a :: ys)) : a = L.first s ↔ xs = [] := by
  rw [h.first]
  cases xs with
  | nil => simp
  | cons b xs =>
    have hne : b ≠ a := fun he => by
      have hnd := h.nodup
      rw [he] at hnd
      simp at hnd
    simpa using hne.symm

theorem Holds.eq_last_iff (h : L.Holds s (xs ++ a :: ys)) : a = L.last s ↔ ys = [] := by
  rw [h.last, getLastD_append, List.getLastD_cons]
  cases ys with
  | nil => simp
  | cons b ys =>
    have hmem : (b :: ys).getLastD a ∈ b :: ys := by
      rw [List.getLastD_cons]
      exact List.getLastD_mem_cons
    have hnd := (List.nodup_append.mp h.nodup).2.1
    have hne : a ≠ (b :: ys).getLastD a := fun he => (List.nodup_cons.mp hnd).1 (he ▸ hmem)
    simp only [hne, reduceCtorEq]

/-- What `LIST_REMOVE` stores for the element `a` between `xs` and `ys`. -/
inductive Removal (L : ListStore S) (D : Nat → Prop) (a : Nat) (s : S) : List Nat →
    List Nat → S → Prop
  | only : Removal L D a s [] [] (L.setLast 0 (L.setFirst 0 s))
  | first {n : Nat} {zs : List Nat} (hn : D n) :
    Removal L D a s [] (n :: zs) (L.setNext a 0 (L.setFirst n (L.setPrev n 0 s)))
  | last {ws : List Nat} {p : Nat} (hp : D p) :
    Removal L D a s (ws ++ [p]) [] (L.setPrev a 0 (L.setLast p (L.setNext p 0 s)))
  | middle {ws : List Nat} {p n : Nat} {zs : List Nat} (hp : D p) (hn : D n) :
    Removal L D a s (ws ++ [p]) (n :: zs)
      (L.setPrev a 0 (L.setNext a 0 (L.setNext p n (L.setPrev n p s))))

variable (hL : L.Lawful D) (h : L.Holds s (xs ++ a :: ys)) (hl : ∀ b ∈ xs ++ a :: ys, D b)

include hL h hl

theorem Holds.removal : Removal L D a s xs ys (L.remove a s) := by
  obtain ⟨hp, hn, -, -⟩ := h.links
  have hDa : D a := hl a (by simp)
  have hnd := h.nodup
  unfold remove
  simp only [h.eq_first_iff, h.eq_last_iff]
  rcases List.eq_nil_or_concat' xs with rfl | ⟨ws, p, rfl⟩
  · cases ys with
    | nil => simpa using .only
    | cons n zs =>
      have hDn : D n := hl n (by simp)
      simpa [hn, hL.next_setPrev, hDn, hDa] using .first hDn
  · have hDp : D p := hl p (by simp)
    cases ys with
    | nil => simpa [hp, hL.prev_setNext, hDp, hDa] using .last hDp
    | cons n zs =>
      have hDn : D n := hl n (by simp)
      have hne : a ≠ n := by
        rintro rfl
        simp [List.nodup_append] at hnd
      simpa [hn, hp, hL.next_setPrev, hL.prev_setPrev, hDn, hDp, hDa, hne] using .middle hDp hDn

theorem remove_next (hb : D b) : L.next (L.remove a s) b
      = if b = a then 0 else if b = xs.getLastD 0 ∧ xs ≠ [] then ys.headD 0 else L.next s b := by
  obtain ⟨-, hn, -, -⟩ := h.links
  have hDa : D a := hl a (by simp)
  have hr := h.removal hL hl
  generalize L.remove a s = s' at hr ⊢
  cases hr with
  | only =>
    rw [hL.next_setLast, hL.next_setFirst]
    grind
  | first hDn => simp [hL.next_setNext, hL.next_setFirst, hL.next_setPrev, hDa, hDn, hb]
  | last hDp =>
    rw [hL.next_setPrev _ _ _ _ hDa hb, hL.next_setLast, hL.next_setNext _ _ _ _ hDp hb (.inr rfl)]
    grind
  | middle hDp hDn => simp [hL.next_setNext, hL.next_setPrev, hDa, hDn, hDp, hb]

theorem remove_prev (hb : D b) : L.prev (L.remove a s) b
      = if b = a then 0 else if b = ys.headD 0 ∧ ys ≠ [] then xs.getLastD 0 else L.prev s b := by
  obtain ⟨hp, -, -, -⟩ := h.links
  have hDa : D a := hl a (by simp)
  have hr := h.removal hL hl
  generalize L.remove a s = s' at hr ⊢
  cases hr with
  | only =>
    rw [hL.prev_setLast, hL.prev_setFirst]
    grind
  | first hDn =>
    rw [hL.prev_setNext _ _ _ _ hDa hb, hL.prev_setFirst, hL.prev_setPrev _ _ _ _ hDn hb (.inr rfl)]
    grind
  | last hDp => simp [hL.prev_setPrev, hL.prev_setLast, hL.prev_setNext, hDa, hDp, hb]
  | middle hDp hDn => simp [hL.prev_setNext, hL.prev_setPrev, hDa, hDn, hDp, hb]

theorem remove_first : L.first (L.remove a s) = (xs ++ ys).headD 0 := by
  have hfirst := h.first
  have hr := h.removal hL hl
  generalize L.remove a s = s' at hr ⊢
  cases hr with
  | only => simp [hL.first_setLast, hL.first_setFirst]
  | first hDn => simp [hL.first_setNext, hL.first_setFirst, hDn]
  | last => simp [hL.first_setPrev, hL.first_setLast, hL.first_setNext, hfirst]
  | middle => simp [hL.first_setPrev, hL.first_setNext, hfirst]

theorem remove_last : L.last (L.remove a s) = (xs ++ ys).getLastD 0 := by
  have hlast := h.last
  have hr := h.removal hL hl
  generalize L.remove a s = s' at hr ⊢
  cases hr with
  | only => simp [hL.last_setLast]
  | first => simp [hL.last_setNext, hL.last_setFirst, hL.last_setPrev, hlast]
  | last hDp => simp [hL.last_setPrev, hL.last_setLast, hDp]
  | middle => simp [hL.last_setPrev, hL.last_setNext, hlast]

theorem Stable.remove {P : S → Prop} (hP : L.Stable D P) (hs : P s) : P (L.remove a s) := by
  have hDa : D a := hl a (by simp)
  have hr := h.removal hL hl
  generalize L.remove a s = s' at hr ⊢
  cases hr with
  | only => exact hP.setLast _ _ (hP.setFirst _ _ hs)
  | first hDn => exact hP.setNext _ _ _ hDa (hP.setFirst _ _ (hP.setPrev _ _ _ hDn hs))
  | last hDp => exact hP.setPrev _ _ _ hDa (hP.setLast _ _ (hP.setNext _ _ _ hDp hs))
  | middle hDp hDn =>
    exact hP.setPrev _ _ _ hDa
      (hP.setNext _ _ _ hDa (hP.setNext _ _ _ hDp (hP.setPrev _ _ _ hDn hs)))

theorem remove_relinked :
    L.Relinked D a 0 0 xs (ys.headD 0) (xs.getLastD 0) ys s (L.remove a s) :=
  ⟨fun _ => remove_next hL h hl, fun _ => remove_prev hL h hl⟩

/-- **`LIST_REMOVE` takes the element out of the list.** -/
theorem Holds.remove : L.Holds (L.remove a s) (xs ++ ys) where
  first := remove_first hL h hl
  last := remove_last hL h hl
  nodup := (List.nodup_cons.mp (List.perm_middle.nodup_iff.mp h.nodup)).2
  ne_zero b hb := h.ne_zero b (List.perm_middle.mem_iff.mpr (List.mem_cons_of_mem a hb))
  seg := by
    obtain ⟨hnew, hnd⟩ := List.nodup_cons.mp (List.perm_middle.nodup_iff.mp h.nodup)
    obtain ⟨hnx, hpx, hny, hpy⟩ := (remove_relinked hL h hl).around
      (fun b hb => hl b (List.perm_middle.mem_iff.mpr (List.mem_cons_of_mem a hb))) hnd hnew
    exact seg_remove h.seg h.nodup hnx hpx hny hpy

end Remove

/-! ## Adding at the end and after an element -/

section Add

variable {xs ys : List Nat} {a : Nat}

theorem insert_inserted (hL : L.Lawful D) (h : L.Holds s (xs ++ a :: ys))
    (hl : ∀ b ∈ xs ++ a :: ys, D b) (hel : D el) (hnew : el ∉ xs ++ a :: ys) :
    L.Inserted D el (xs ++ [a]) ys s (L.insert el a s) := by
  obtain ⟨-, hn, -, -⟩ := h.links
  have hDa : D a := hl a (by simp)
  have hfirst := h.first
  have hlast := h.last
  cases ys with
  | nil =>
    have he : L.insert el a s = L.setNext a el
        (L.setPrev el a (L.setNext el 0 (L.setLast el s))) := by
      simp [insert, h.eq_last_iff, hL.next_setLast, hn]
    refine ⟨?_, ?_, fun b hb => ?_, fun b hb => ?_⟩
    · simp [he, hL.first_setNext, hL.first_setPrev, hL.first_setLast, hfirst]
    · simp [he, hL.last_setNext, hL.last_setPrev, hL.last_setLast, hel]
    · simp [he, hL.next_setNext, hL.next_setPrev, hL.next_setLast, hel, hb, hDa]
      grind
    · simp [he, hL.prev_setNext, hL.prev_setPrev, hL.prev_setLast, hel, hb, hDa]
  | cons n zs =>
    have hDn : D n := hl n (by simp)
    have he : L.insert el a s = L.setNext a el
        (L.setPrev el a (L.setNext el n (L.setPrev n el s))) := by
      simp [insert, h.eq_last_iff, hL.next_setPrev, hDn, hDa, hn]
    refine ⟨?_, ?_, fun b hb => ?_, fun b hb => ?_⟩
    · simp [he, hL.first_setNext, hL.first_setPrev, hfirst]
    · simp [he, hL.last_setNext, hL.last_setPrev, hlast]
    · simp [he, hL.next_setNext, hL.next_setPrev, hel, hb, hDa, hDn]
      grind
    · simp [he, hL.prev_setNext, hL.prev_setPrev, hel, hb, hDa, hDn]

theorem add_inserted (hL : L.Lawful D) (h : L.Holds s l) (hl : ∀ a ∈ l, D a) (hel : D el)
    (hnew : el ∉ l) : L.Inserted D el l [] s (L.add el s) := by
  rcases List.eq_nil_or_concat' l with rfl | ⟨ws, p, rfl⟩
  · have he : L.add el s = L.addFront el s := (if_pos h.first).trans (if_pos h.first).symm
    rw [he]
    exact addFront_inserted hL h hl hel
  · have hDp : D p := hl p (by simp)
    have hp : L.last s = p := by simp [h.last]
    have hfirst : L.first s ∈ ws ++ [p] := h.first ▸ headD_mem (by simp) 0
    have he : L.add el s = L.setLast el (L.setPrev el p (L.setNext el 0 (L.setNext p el s))) := by
      refine (if_neg (h.ne_zero _ hfirst)).trans ?_
      simp only [hL.last_setNext, hp]
    refine ⟨?_, ?_, fun b hb => ?_, fun b hb => ?_⟩
    · simp [he, hL.first_setNext, hL.first_setPrev, hL.first_setLast, h.first]
    · simp [he, hL.last_setLast, hel]
    · simp [he, hL.next_setNext, hL.next_setPrev, hL.next_setLast, hel, hb, hDp]
    · simp [he, hL.prev_setNext, hL.prev_setPrev, hL.prev_setLast, hel, hb, hDp]

end Add

/-! ## Runs -/

/-- A state, the list it should hold, and the elements that were taken out and not put back. -/
structure Run (S : Type) where
  state : S
  list : List Nat
  gone : List Nat

/-- The macros, on elements that are put in at most once at a time. -/
inductive Call (L : ListStore S) (D : Nat → Prop) : Run S → Unit → Run S → Prop
  | add {s l gone el} (hel : D el ∧ el ≠ 0) (hnew : el ∉ l) :
    Call L D ⟨s, l, gone⟩ () ⟨L.add el s, l ++ [el], gone.filter (· ≠ el)⟩
  | addFront {s l gone el} (hel : D el ∧ el ≠ 0) (hnew : el ∉ l) :
    Call L D ⟨s, l, gone⟩ () ⟨L.addFront el s, el :: l, gone.filter (· ≠ el)⟩
  | insert {s xs a ys gone el} (hel : D el ∧ el ≠ 0) (hnew : el ∉ xs ++ a :: ys) :
    Call L D ⟨s, xs ++ a :: ys, gone⟩
      () ⟨L.insert el a s, xs ++ a :: el :: ys, gone.filter (· ≠ el)⟩
  | remove {s xs a ys gone} :
    Call L D ⟨s, xs ++ a :: ys, gone⟩ () ⟨L.remove a s, xs ++ ys, a :: gone⟩

/-- A list after `LIST_INIT`. -/
def Run.Empty (L : ListStore S) (r : Run S) : Prop :=
  L.first r.state = 0 ∧ L.last r.state = 0 ∧ r.list = [] ∧ r.gone = []

/-- Both chains spell the list, and the links of what was taken out are `NULL`. -/
structure Run.Spells (L : ListStore S) (r : Run S) : Prop where
  first : L.first r.state = r.list.headD 0
  last : L.last r.state = r.list.getLastD 0
  forward : follow (L.next r.state) 0 (r.list.length + 1) (L.first r.state) = some r.list
  backward : follow (L.prev r.state) 0 (r.list.length + 1) (L.last r.state) = some r.list.reverse
  cleared : ∀ a ∈ r.gone, L.next r.state a = 0 ∧ L.prev r.state a = 0

/-- What the macros keep. -/
structure Run.Good (L : ListStore S) (D : Nat → Prop) (r : Run S) : Prop where
  holds : L.Holds r.state r.list
  inside : ∀ a ∈ r.list, D a
  gone : ∀ a ∈ r.gone, D a ∧ a ∉ r.list ∧ L.next r.state a = 0 ∧ L.prev r.state a = 0

theorem Run.Good.inserted {s' : S} {xs ys gone : List Nat} (h : Run.Good L D ⟨s, xs ++ ys, gone⟩)
    (hi : L.Inserted D el xs ys s s') (hel : D el ∧ el ≠ 0) (hnew : el ∉ xs ++ ys) :
    Run.Good L D ⟨s', xs ++ el :: ys, gone.filter (· ≠ el)⟩ where
  holds := hi.holds h.holds h.inside hel.1 hel.2 hnew
  inside := by
    intro a ha
    rcases List.mem_cons.mp (List.perm_middle.mem_iff.mp ha) with rfl | ha
    · exact hel.1
    · exact h.inside a ha
  gone := by
    intro a ha
    obtain ⟨ha, hne⟩ := List.mem_filter.mp ha
    have hne : a ≠ el := of_decide_eq_true hne
    obtain ⟨hD, hnot, hn, hp⟩ := h.gone a ha
    obtain ⟨hn', hp'⟩ := hi.links.frame hD hne hnot
    refine ⟨hD, fun hm => ?_, hn'.trans hn, hp'.trans hp⟩
    exact (List.mem_cons.mp (List.perm_middle.mem_iff.mp hm)).elim hne hnot

theorem Run.Good.removed {xs ys gone : List Nat} {a : Nat} (hL : L.Lawful D)
    (h : Run.Good L D ⟨s, xs ++ a :: ys, gone⟩) :
    Run.Good L D ⟨L.remove a s, xs ++ ys, a :: gone⟩ where
  holds := h.holds.remove hL h.inside
  inside b hb := h.inside b (List.perm_middle.mem_iff.mpr (List.mem_cons_of_mem a hb))
  gone := by
    have hr := remove_relinked hL h.holds h.inside
    intro b hb
    rcases List.mem_cons.mp hb with rfl | hb
    · have hnd := List.nodup_cons.mp (List.perm_middle.nodup_iff.mp h.holds.nodup)
      have hD := h.inside b (by simp)
      exact ⟨hD, hnd.1, (hr.next b hD).trans (if_pos rfl), (hr.prev b hD).trans (if_pos rfl)⟩
    · obtain ⟨hD, hnot, hn, hp⟩ := h.gone b hb
      rw [List.perm_middle.mem_iff, List.mem_cons, not_or] at hnot
      obtain ⟨hn', hp'⟩ := hr.frame hD hnot.1 hnot.2
      exact ⟨hD, hnot.2, hn'.trans hn, hp'.trans hp⟩

theorem Run.Good.call (hL : L.Lawful D) {r r' : Run S} {u : Unit} (h : r.Good L D)
    (hc : Call L D r u r') : r'.Good L D := by
  cases hc with
  | @add s l gone el hel hnew =>
    rw [← List.append_nil l] at h hnew
    exact h.inserted (add_inserted hL (by simpa using h.holds) (by simpa using h.inside) hel.1
      (by simpa using hnew)) hel hnew
  | addFront hel hnew =>
    exact Run.Good.inserted h (addFront_inserted hL h.holds h.inside hel.1) hel hnew
  | @insert s xs a ys gone el hel hnew =>
    have hi := insert_inserted hL h.holds h.inside hel.1 hnew
    rw [List.append_cons] at h hnew
    rw [List.append_cons xs a (el :: ys)]
    exact h.inserted hi hel hnew
  | remove => exact h.removed hL

theorem Run.Good.spells {r : Run S} (h : r.Good L D) : r.Spells L where
  first := h.holds.first
  last := h.holds.last
  forward := by
    rw [h.holds.first]
    exact seg_follow h.holds.seg h.holds.ne_zero (Nat.lt_succ_self _)
  backward := by
    rw [h.holds.last, ← headD_reverse]
    refine seg_follow (seg_reverse h.holds.seg)
      (fun a ha => h.holds.ne_zero a (List.mem_reverse.mp ha)) ?_
    rw [List.length_reverse]
    exact Nat.lt_succ_self _
  cleared a ha := (h.gone a ha).2.2

/-- **In every run of the macros the links spell the list, in both directions.** -/
theorem macros_spell_list (hL : L.Lawful D) {r : Run S} (h : Reach (Run.Empty L) (Call L D) r) :
    r.Spells L := by
  refine Run.Good.spells (h.invariant ?_ fun _ _ _ hg hc => hg.call hL hc)
  rintro ⟨s, _, _⟩ ⟨hf, hl, rfl, rfl⟩
  exact ⟨⟨hf, hl, trivial, List.nodup_nil, by simp⟩, by simp, by simp⟩

/-- The pointers of a list, in a memory of their own. -/
structure Links where
  first : Nat
  last : Nat
  next : Nat → Nat
  prev : Nat → Nat

def links : ListStore Links where
  first := Links.first
  last := Links.last
  next := Links.next
  prev := Links.prev
  setFirst v s := { s with first := v }
  setLast v s := { s with last := v }
  setNext a v s := { s with next := fun b => if b = a then v else s.next b }
  setPrev a v s := { s with prev := fun b => if b = a then v else s.prev b }

/-- Two elements that stay, and one between them that comes and goes. -/
theorem macros_spell_list_three : links.Lawful (fun _ => True) ∧
    ∃ r : Run Links, Reach (Run.Empty links) (Call links fun _ => True) r ∧ r.list = [3, 2] ∧
      r.gone = [1] ∧ r.Spells links := by
  have hL : links.Lawful (fun _ => True) := by
    constructor <;> intros <;> rfl
  have h0 : Reach (Run.Empty links) (Call links fun _ => True)
      ⟨⟨0, 0, fun _ => 0, fun _ => 0⟩, [], []⟩ := .start ⟨rfl, rfl, rfl, rfl⟩
  have h1 := h0.next _ (.add (show True ∧ 1 ≠ 0 by decide) List.not_mem_nil)
  have h2 := h1.next () (@Call.insert _ links _ _ [] 1 [] _ 2 (by decide) (by decide))
  have h3 := h2.next _ (.addFront (show True ∧ 3 ≠ 0 by decide) (by decide))
  have h4 := h3.next () (@Call.remove _ links _ _ [3] 1 [2] _)
  exact ⟨hL, _, h4, rfl, rfl, macros_spell_list hL h4⟩

end ListStore

end Osdev
