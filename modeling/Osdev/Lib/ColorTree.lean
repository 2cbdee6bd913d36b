import Mathlib.Data.List.Basic
import Mathlib.Data.List.Nodup
import Mathlib.Tactic.Tauto

/-!
# Coloured binary trees and their contexts

A tree has a colour and a label at each node. A *context* is the path from a hole up to the root:
one frame for each ancestor, with the subtree on the other side. `plug s k` puts `s` in the hole of
`k`. Most arguments come in two mirror images, so nodes are also written `join d c near a far`, with
`near` on side `d`.

A tree is well coloured when its root is black and no red node has a red child; it is balanced when
all paths to a leaf have the same number of black nodes. Both split at any hole
(`wellColored_plug`, `balanced_plug`).
-/

namespace Osdev.Lib

variable {α : Type*}

inductive Side where
  | left
  | right
  deriving DecidableEq, Repr

namespace Side

def flip : Side → Side
  | left => right
  | right => left

@[simp] theorem flip_ne (d : Side) : d.flip ≠ d := by cases d <;> decide

@[simp] theorem ne_flip (d : Side) : d ≠ d.flip := by cases d <;> decide

theorem eq_or_flip (d e : Side) : e = d ∨ e = d.flip := by cases d <;> cases e <;> decide

end Side

inductive Color where
  | red
  | black
  deriving DecidableEq, Repr

inductive ColorTree (α : Type*) where
  | leaf
  | node (c : Color) (l : ColorTree α) (a : α) (r : ColorTree α)

namespace ColorTree

/-- A node with `near` on side `d` and `far` on the other side. -/
def join (d : Side) (c : Color) (near : ColorTree α) (a : α) (far : ColorTree α) : ColorTree α :=
  match d with
  | .left => node c near a far
  | .right => node c far a near

/-- Labels in order. -/
def toList : ColorTree α → List α
  | leaf => []
  | node _ l a r => l.toList ++ a :: r.toList

/-- A leaf counts as black. -/
def color : ColorTree α → Color
  | leaf => .black
  | node c _ _ _ => c

/-- Every path to a leaf has `n` black nodes. -/
def Balanced : ColorTree α → Nat → Prop
  | leaf, n => n = 0
  | node .red l _ r, n => l.Balanced n ∧ r.Balanced n
  | node .black _ _ _, 0 => False
  | node .black l _ r, n + 1 => l.Balanced n ∧ r.Balanced n

/-- No red node has a red child. -/
def NoRedRed : ColorTree α → Prop
  | leaf => True
  | node c l _ r => l.NoRedRed ∧ r.NoRedRed ∧ (c = .red → l.color = .black ∧ r.color = .black)

structure WellColored (t : ColorTree α) : Prop where
  root : t.color = .black
  noRedRed : t.NoRedRed

/-- Make the root black. -/
def blacken : ColorTree α → ColorTree α
  | leaf => leaf
  | node _ l a r => node .black l a r

/-- The same tree with other colours. -/
def SameShape : ColorTree α → ColorTree α → Prop
  | leaf, leaf => True
  | node _ l a r, node _ l' a' r' => a = a' ∧ l.SameShape l' ∧ r.SameShape r'
  | _, _ => False

theorem SameShape.refl : ∀ t : ColorTree α, t.SameShape t
  | leaf => trivial
  | node _ l _ r => ⟨rfl, .refl l, .refl r⟩

theorem SameShape.toList_eq : ∀ {t t' : ColorTree α}, t.SameShape t' → t.toList = t'.toList
  | leaf, leaf, _ => rfl
  | node _ l a r, node _ l' a' r', ⟨ha, hl, hr⟩ => by
    rw [toList, toList, ha, hl.toList_eq, hr.toList_eq]

@[simp] theorem toList_leaf : (leaf : ColorTree α).toList = [] := rfl

@[simp] theorem mem_node {c : Color} {l r : ColorTree α} {a x : α} :
    x ∈ (node c l a r).toList ↔ x ∈ l.toList ∨ x = a ∨ x ∈ r.toList := by
  rw [toList, List.mem_append, List.mem_cons]

section Mk

variable (d : Side) (c : Color) (s : ColorTree α) (a : α) (t : ColorTree α)

@[simp] theorem join_color : (join d c s a t).color = c := by cases d <;> rfl

theorem join_flip : join d.flip c s a t = join d c t a s := by cases d <;> rfl

@[simp] theorem mem_join {x : α} : x ∈ (join d c s a t).toList ↔ x ∈ s.toList ∨ x = a ∨
    x ∈ t.toList := by
  cases d
  · simp [join]
  · simp only [join, mem_node]
    tauto

@[simp] theorem join_noRedRed : (join d c s a t).NoRedRed ↔
    s.NoRedRed ∧ t.NoRedRed ∧ (c = .red → s.color = .black ∧ t.color = .black) := by
  cases d
  · rfl
  · exact ⟨fun ⟨h1, h2, h3⟩ => ⟨h2, h1, fun hc => (h3 hc).symm⟩,
      fun ⟨h1, h2, h3⟩ => ⟨h2, h1, fun hc => (h3 hc).symm⟩⟩

@[simp] theorem join_red_balanced {n : Nat} :
    (join d .red s a t).Balanced n ↔ s.Balanced n ∧ t.Balanced n := by
  cases d
  · rfl
  · exact and_comm

@[simp] theorem join_black_balanced {n : Nat} :
    (join d .black s a t).Balanced (n + 1) ↔ s.Balanced n ∧ t.Balanced n := by
  cases d
  · rfl
  · exact and_comm

theorem exists_join (d : Side) {c : Color} {l : ColorTree α} {a : α} {r : ColorTree α} :
    ∃ near far, node c l a r = join d c near a far := by
  cases d
  · exact ⟨l, r, rfl⟩
  · exact ⟨r, l, rfl⟩

theorem exists_join_of_red (d : Side) {t : ColorTree α} (h : t.color = .red) :
    ∃ near a far, t = join d .red near a far := by
  cases t with
  | leaf => cases h
  | node c l a r =>
    obtain rfl : c = .red := h
    obtain ⟨near, far, hj⟩ := exists_join d
    exact ⟨near, a, far, hj⟩

/-- A tree that is put together has a node at its top. -/
theorem exists_node (d : Side) (c : Color) (s : ColorTree α) (a : α) (u : ColorTree α) :
    ∃ l r, join d c s a u = node c l a r := by
  cases d <;> exact ⟨_, _, rfl⟩

end Mk

theorem join_sameShape {d : Side} {c c' : Color} {s s' t t' : ColorTree α} {a : α}
    (hs : s.SameShape s') (ht : t.SameShape t') :
    (join d c s a t).SameShape (join d c' s' a t') := by
  cases d
  · exact ⟨rfl, hs, ht⟩
  · exact ⟨rfl, ht, hs⟩

theorem Balanced.exists_black {t : ColorTree α} {n : Nat} (h : t.Balanced (n + 1))
    (hc : t.color = .black) : ∃ l a r, t = node .black l a r ∧ l.Balanced n ∧ r.Balanced n := by
  cases t with
  | leaf => exact absurd h (Nat.succ_ne_zero n)
  | node c l a r =>
    have hc' : c = .black := hc
    subst hc'
    exact ⟨l, a, r, rfl, h.1, h.2⟩

theorem blacken_balanced {t : ColorTree α} {n : Nat} (h : t.Balanced n) :
    ∃ m, t.blacken.Balanced m := by
  cases t with
  | leaf => exact ⟨n, h⟩
  | node c l a r =>
    cases c with
    | red => exact ⟨n + 1, h.1, h.2⟩
    | black => exact ⟨n, h⟩

theorem blacken_wellColored {t : ColorTree α} (h : t.NoRedRed) : t.blacken.WellColored := by
  cases t with
  | leaf => exact ⟨rfl, trivial⟩
  | node c l a r => exact ⟨rfl, h.1, h.2.1, fun hc => nomatch hc⟩

theorem blacken_sameShape (t : ColorTree α) : t.SameShape t.blacken := by
  cases t with
  | leaf => trivial
  | node c l a r => exact ⟨rfl, .refl l, .refl r⟩

end ColorTree

/-! ## Contexts -/

/-- An ancestor of the hole: the hole is on side `side` of it, `sib` on the other side. -/
structure Frame (α : Type*) where
  side : Side
  color : Color
  label : α
  sib : ColorTree α

open ColorTree

/-- Put `s` in the hole. -/
def plug : ColorTree α → List (Frame α) → ColorTree α
  | s, [] => s
  | s, f :: k => plug (join f.side f.color s f.label f.sib) k

namespace Ctx

/-- Labels before the hole. -/
def before : List (Frame α) → List α
  | [] => []
  | ⟨.left, _, _, _⟩ :: k => before k
  | ⟨.right, _, a, t⟩ :: k => before k ++ t.toList ++ [a]

/-- Labels after the hole. -/
def after : List (Frame α) → List α
  | [] => []
  | ⟨.left, _, a, t⟩ :: k => a :: t.toList ++ after k
  | ⟨.right, _, _, _⟩ :: k => after k

/-- All labels of the context. -/
def labels (k : List (Frame α)) : List α := before k ++ after k

@[simp] theorem mem_labels_cons {f : Frame α} {k : List (Frame α)} {x : α} :
    x ∈ labels (f :: k) ↔ x = f.label ∨ x ∈ f.sib.toList ∨ x ∈ labels k := by
  obtain ⟨d, c, a, t⟩ := f
  unfold labels
  cases d <;> simp only [before, after, List.mem_append, List.mem_cons, List.not_mem_nil] <;> tauto

theorem before_append (k k' : List (Frame α)) : before (k ++ k') = before k' ++ before k := by
  induction k with
  | nil => simp [before]
  | cons f k ih =>
    obtain ⟨d, c, a, t⟩ := f
    cases d <;> simp [before, ih]

/-- A tree with `n` black nodes on every path fits in the hole. -/
def Balanced : List (Frame α) → Nat → Prop
  | [], _ => True
  | f :: k, n => f.sib.Balanced n ∧ Balanced k (n + if f.color = .black then 1 else 0)

/-- There is a parent, and it is black: a red node may hang here. -/
def RedOk : List (Frame α) → Prop
  | [] => False
  | f :: _ => f.color = .black

def NoRedRed : List (Frame α) → Prop
  | [] => True
  | f :: k => f.sib.NoRedRed ∧ (f.color = .red → f.sib.color = .black ∧ RedOk k) ∧ NoRedRed k

/-- Balance and colours do not depend on the labels. -/
theorem balanced_relabel {k k' : List (Frame α)} {d : Side} {c : Color} {a b : α} {t : ColorTree α}
    {n : Nat} (h : Balanced (k ++ ⟨d, c, a, t⟩ :: k') n) :
    Balanced (k ++ ⟨d, c, b, t⟩ :: k') n := by
  induction k generalizing n with
  | nil => exact h
  | cons f k ih => exact ⟨h.1, ih h.2⟩

theorem noRedRed_relabel {k k' : List (Frame α)} {d : Side} {c : Color} {a b : α} {t : ColorTree α}
    (h : NoRedRed (k ++ ⟨d, c, a, t⟩ :: k')) : NoRedRed (k ++ ⟨d, c, b, t⟩ :: k') := by
  induction k with
  | nil => exact h
  | cons f k ih =>
    refine ⟨h.1, fun hc => ⟨(h.2.1 hc).1, ?_⟩, ih h.2.2⟩
    have hr := (h.2.1 hc).2
    cases k with
    | nil => exact hr
    | cons g k => exact hr

end Ctx

theorem toList_plug (s : ColorTree α) (k : List (Frame α)) :
    (plug s k).toList = Ctx.before k ++ s.toList ++ Ctx.after k := by
  induction k generalizing s with
  | nil => simp [plug, Ctx.before, Ctx.after]
  | cons f k ih =>
    obtain ⟨d, c, a, t⟩ := f
    rw [plug, ih]
    cases d <;> simp [join, ColorTree.toList, Ctx.before, Ctx.after]

theorem perm_plug (s : ColorTree α) (k : List (Frame α)) :
    (plug s k).toList.Perm (s.toList ++ Ctx.labels k) := by
  rw [toList_plug, Ctx.labels, ← List.append_assoc]
  exact List.Perm.append_right _ List.perm_append_comm

@[simp] theorem mem_plug {s : ColorTree α} {k : List (Frame α)} {x : α} :
    x ∈ (plug s k).toList ↔ x ∈ s.toList ∨ x ∈ Ctx.labels k := by
  rw [(perm_plug s k).mem_iff, List.mem_append]

/-- Distinct labels split at a hole. -/
theorem nodup_plug {s : ColorTree α} {k : List (Frame α)} : (plug s k).toList.Nodup ↔
    s.toList.Nodup ∧ (Ctx.labels k).Nodup ∧ ∀ x ∈ s.toList, x ∉ Ctx.labels k := by
  rw [(perm_plug s k).nodup_iff, List.nodup_append]
  refine and_congr_right fun _ => and_congr_right fun _ => ?_
  exact ⟨fun h x hx hk => h x hx x hk rfl, fun h x hx y hy he => h x hx (he ▸ hy)⟩

theorem nodup_join {d : Side} {c : Color} {s t : ColorTree α} {a : α} :
    (join d c s a t).toList.Nodup ↔
    s.toList.Nodup ∧ t.toList.Nodup ∧ a ∉ s.toList ∧ a ∉ t.toList ∧
      ∀ x ∈ s.toList, x ∉ t.toList := by
  have hnode : ∀ l r : List α, (l ++ a :: r).Nodup ↔
      l.Nodup ∧ r.Nodup ∧ a ∉ l ∧ a ∉ r ∧ ∀ x ∈ l, x ∉ r := by
    intro l r
    rw [List.perm_middle.nodup_iff, List.nodup_cons, List.mem_append, List.nodup_append]
    constructor
    · rintro ⟨h1, h2, h3, h4⟩
      exact ⟨h2, h3, fun h => h1 (Or.inl h), fun h => h1 (Or.inr h),
        fun x hx hr => h4 x hx x hr rfl⟩
    · rintro ⟨h2, h3, h1, h1', h4⟩
      exact ⟨fun h => h.elim h1 h1', h2, h3, fun x hx y hy he => h4 x hx (he ▸ hy)⟩
  cases d
  · exact hnode _ _
  · show (t.toList ++ a :: s.toList).Nodup ↔ _
    rw [hnode]
    tauto

theorem nodup_labels_cons {f : Frame α} {k : List (Frame α)} : (Ctx.labels (f :: k)).Nodup ↔
    f.sib.toList.Nodup ∧ (Ctx.labels k).Nodup ∧ f.label ∉ f.sib.toList ∧
      f.label ∉ Ctx.labels k ∧ ∀ x ∈ f.sib.toList, x ∉ Ctx.labels k := by
  have h1 := nodup_plug (s := (leaf : ColorTree α)) (k := f :: k)
  have h2 := nodup_plug (s := join f.side f.color leaf f.label f.sib) (k := k)
  rw [plug, h2, nodup_join] at h1
  simp only [mem_join, ColorTree.toList, List.nodup_nil, List.not_mem_nil, not_false_eq_true,
    false_imp_iff, implies_true, and_true, true_and, false_or] at h1
  rw [← h1]
  constructor
  · rintro ⟨⟨h3, h4⟩, h5, h6⟩
    exact ⟨h3, h5, h4, h6 _ (Or.inl rfl), fun x hx => h6 x (Or.inr hx)⟩
  · rintro ⟨h3, h5, h4, h6, h7⟩
    refine ⟨⟨h3, h4⟩, h5, fun x hx => ?_⟩
    rcases hx with rfl | hx
    · exact h6
    · exact h7 x hx

theorem plug_append (s : ColorTree α) (k k' : List (Frame α)) :
    plug s (k ++ k') = plug (plug s k) k' := by
  induction k generalizing s with
  | nil => rfl
  | cons f k ih => exact ih _

theorem plug_sameShape {s s' : ColorTree α} (h : s.SameShape s') (k : List (Frame α)) :
    (plug s k).SameShape (plug s' k) := by
  induction k generalizing s s' with
  | nil => exact h
  | cons f k ih => exact ih (join_sameShape h (.refl _))

theorem join_balanced {d : Side} {c : Color} {s t : ColorTree α} {a : α} {n : Nat}
    (hs : s.Balanced n)
    (ht : t.Balanced n) : (join d c s a t).Balanced (n + if c = .black then 1 else 0) := by
  cases c with
  | red => exact (join_red_balanced ..).mpr ⟨hs, ht⟩
  | black => exact (join_black_balanced ..).mpr ⟨hs, ht⟩

theorem balanced_of_join {d : Side} {c : Color} {s t : ColorTree α} {a : α} {m : Nat}
    (h : (join d c s a t).Balanced m) :
    ∃ n, s.Balanced n ∧ t.Balanced n ∧ m = n + if c = .black then 1 else 0 := by
  cases c with
  | red =>
    obtain ⟨h1, h2⟩ := (join_red_balanced ..).mp h
    exact ⟨m, h1, h2, rfl⟩
  | black =>
    cases m with
    | zero => cases d <;> exact absurd h id
    | succ n =>
      obtain ⟨h1, h2⟩ := (join_black_balanced ..).mp h
      exact ⟨n, h1, h2, rfl⟩

/-- Balance splits at a hole. -/
theorem balanced_plug {k : List (Frame α)} {s : ColorTree α} {n : Nat} (hs : s.Balanced n)
    (hk : Ctx.Balanced k n) : ∃ m, (plug s k).Balanced m := by
  induction k generalizing s n with
  | nil => exact ⟨n, hs⟩
  | cons f k ih => exact ih (join_balanced hs hk.1) hk.2

theorem balanced_of_plug {k : List (Frame α)} {s : ColorTree α} {m : Nat}
    (h : (plug s k).Balanced m) : ∃ n, s.Balanced n ∧ Ctx.Balanced k n := by
  induction k generalizing s with
  | nil => exact ⟨m, h, trivial⟩
  | cons f k ih =>
    obtain ⟨n', h1, h2⟩ := ih h
    obtain ⟨n, hs, hsib, rfl⟩ := balanced_of_join h1
    exact ⟨n, hs, hsib, h2⟩

/-- The colour rules split at a hole. -/
theorem wellColored_plug {k : List (Frame α)} {s : ColorTree α} :
    (plug s k).WellColored ↔
      s.NoRedRed ∧ Ctx.NoRedRed k ∧ (s.color = .red → Ctx.RedOk k) := by
  induction k generalizing s with
  | nil =>
    constructor
    · intro h
      refine ⟨h.noRedRed, trivial, fun hc => ?_⟩
      rw [show s.color = .black from h.root] at hc
      cases hc
    · rintro ⟨h1, -, h3⟩
      refine ⟨?_, h1⟩
      cases hc : s.color with
      | red => exact absurd (h3 hc) id
      | black => exact hc
  | cons f k ih =>
    rw [plug, ih, join_noRedRed, join_color]
    constructor
    · rintro ⟨⟨h1, h2, h3⟩, h4, h5⟩
      refine ⟨h1, ⟨h2, fun hc => ⟨(h3 hc).2, h5 hc⟩, h4⟩, fun hc => ?_⟩
      cases hf : f.color with
      | red =>
        rw [(h3 hf).1] at hc
        cases hc
      | black => exact hf
    · rintro ⟨h1, ⟨h2, h3, h4⟩, h5⟩
      refine ⟨⟨h1, h2, fun hf => ⟨?_, (h3 hf).1⟩⟩, h4, fun hf => (h3 hf).2⟩
      cases hc : s.color with
      | red =>
        have := h5 hc
        rw [show f.color = .black from this] at hf
        cases hf
      | black => rfl

/-- A red frame has a black parent frame. -/
theorem Ctx.NoRedRed.red_cons {f : Frame α} {k : List (Frame α)} (h : Ctx.NoRedRed (f :: k))
    (hc : f.color = .red) : ∃ g k', k = g :: k' ∧ g.color = .black := by
  have hr := (h.2.1 hc).2
  cases k with
  | nil => exact absurd hr id
  | cons g k' => exact ⟨g, k', rfl, hr⟩

/-- Every label is at the focus of some hole. -/
theorem ColorTree.exists_focus {t : ColorTree α} {a : α} (h : a ∈ t.toList) :
    ∃ k c l r, t = plug (node c l a r) k := by
  induction t with
  | leaf => exact absurd h (by simp [toList])
  | node c l b r ihl ihr =>
    rcases List.mem_append.mp h with hl | hr
    · obtain ⟨k, c', l', r', rfl⟩ := ihl hl
      exact ⟨k ++ [⟨.left, c, b, r⟩], c', l', r', by rw [plug_append]; rfl⟩
    · rcases List.mem_cons.mp hr with rfl | hr
      · exact ⟨[], c, l, r, rfl⟩
      · obtain ⟨k, c', l', r', rfl⟩ := ihr hr
        exact ⟨k ++ [⟨.right, c, b, l⟩], c', l', r', by rw [plug_append]; rfl⟩

/-- The depth of a hole is at most the number of labels around it. -/
theorem Ctx.length_le (k : List (Frame α)) :
    k.length ≤ (Ctx.before k).length + (Ctx.after k).length := by
  induction k with
  | nil => simp
  | cons f k ih =>
    obtain ⟨d, c, a, t⟩ := f
    cases d <;> simp [Ctx.before, Ctx.after] <;> omega

end Osdev.Lib
