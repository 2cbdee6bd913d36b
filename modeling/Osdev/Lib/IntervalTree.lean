import Osdev.Lib.ColorTree

/-!
# Trees of intervals with loose maxima

Every label `a` has an interval from `S a` to `E a`, and the intervals are in order along the tree.
A value `M a` at each node should help a search: it is at least every end in the subtree, but it may
be stale, that is, too great. What keeps the search right is that `M a` is never beyond the next
interval after the subtree.

`Fits z hi t` says this for every subtree of `t` that does not hold the label `z`, where `hi` is
the start of the next interval after `t`, if there is one. Recomputing `M` from a node up to the
root establishes it along that path (`fits_of_path`).
-/

namespace Osdev.Lib

variable {α : Type*}
variable {M' S' E' : α → Nat} {x z' : α}
variable {d : Side} {c : Color} {l : List α} {a y : α}

namespace ColorTree

/-- `M a` covers the ends in `t`, and does not pass `hi`. -/
structure MaxOk (E M : α → Nat) (hi : Option Nat) (t : ColorTree α) (a : α) : Prop where
  ends : ∀ j ∈ t.toList, E j ≤ M a
  bound : ∀ h ∈ hi, M a ≤ h

/-- The maxima are right in every subtree without `z`. -/
def Fits (S E M : α → Nat) (z : α) : Option Nat → ColorTree α → Prop
  | _, leaf => True
  | hi, node c l a r => (z ∉ (node c l a r).toList → MaxOk E M hi (node c l a r) a) ∧
      Fits S E M z (some (S a)) l ∧ Fits S E M z hi r

/-- The start of the next interval after the child on side `d` of `a`. -/
def sideBound (S : α → Nat) (d : Side) (hi : Option Nat) (a : α) : Option Nat :=
  match d with
  | .left => some (S a)
  | .right => hi

/-- The value at the top; `0` for a leaf. -/
def maxOf (M : α → Nat) : ColorTree α → Nat
  | leaf => 0
  | node _ _ a _ => M a

/-- The intervals are not empty, and each ends before the next one starts. -/
structure Apart (S E : α → Nat) (l : List α) : Prop where
  order : l.Pairwise fun i j => E i ≤ S j
  nonempty : ∀ i ∈ l, S i < E i

variable {S E M : α → Nat} {z a : α} {hi : Option Nat} {d : Side} {c : Color} {s t u : ColorTree α}

theorem Apart.sublist {l' : List α} (h : Apart S E l) (hl : l'.Sublist l) : Apart S E l' :=
  ⟨h.order.sublist hl, fun i hi => h.nonempty i (hl.subset hi)⟩

/-- The interval that starts first ends first. -/
theorem Apart.end_le_start (h : Apart S E l) {b : α} (ha : a ∈ l) (hb : b ∈ l)
    (hlt : S a < S b) : E a ≤ S b := by
  induction l with
  | nil => simp at ha
  | cons x l ih =>
    obtain ⟨hx, hl⟩ := List.pairwise_cons.mp h.order
    rcases List.mem_cons.mp ha with rfl | ha' <;> rcases List.mem_cons.mp hb with rfl | hb'
    · exact absurd hlt (Nat.lt_irrefl _)
    · exact hx b hb'
    · have h1 := hx a ha'
      have h2 := h.nonempty b hb
      omega
    · exact ih ⟨hl, fun i hi => h.nonempty i (by simp [hi])⟩ ha' hb'

theorem Apart.nodup (h : Apart S E l) : l.Nodup := by
  refine h.order.imp_of_mem fun {i j} hi hj hle he => ?_
  subst he
  have := h.nonempty i hi
  omega

theorem fits_join : Fits S E M z hi (join d c s a u) ↔
    (z ∉ (join d c s a u).toList → MaxOk E M hi (join d c s a u) a) ∧
      Fits S E M z (sideBound S d hi a) s ∧ Fits S E M z (sideBound S d.flip hi a) u := by
  cases d
  · rfl
  · exact and_congr_right fun _ => and_comm

theorem MaxOk.congr (h : MaxOk E M hi t a) (ha : M' a = M a) :
    MaxOk E M' hi t a :=
  ⟨fun j hj => ha ▸ h.ends j hj, fun b hb => ha ▸ h.bound b hb⟩

/-- Only the intervals and maxima of the labels in the tree matter, and at the exempt label only the
start. -/
theorem fits_transfer : ∀ {t : ColorTree α} {hi : Option Nat}, (z ∈ t.toList → z = z') →
    (∀ i ∈ t.toList, S' i = S i ∧ (i ≠ z' → E' i = E i ∧ M' i = M i)) → Fits S E M z hi t →
      Fits S' E' M' z' hi t
  | leaf, _, _, _, _ => trivial
  | node c l a r, hi, hz, heq, ⟨h1, h2, h3⟩ => by
    refine ⟨fun hz' => ?_, ?_, fits_transfer (fun hm => hz (by simp [hm]))
      (fun i hi => heq i (by simp [hi])) h3⟩
    · have hsame : ∀ i ∈ (node c l a r).toList, E' i = E i ∧ M' i = M i :=
        fun i hi => (heq i hi).2 fun he => hz' (he ▸ hi)
      obtain ⟨hends, hbound⟩ := h1 fun hm => hz' (hz hm ▸ hm)
      rw [← (hsame a (by simp)).2] at hends hbound
      exact ⟨fun j hj => (hsame j hj).1 ▸ hends j hj, hbound⟩
    · rw [(heq a (by simp)).1]
      exact fits_transfer (fun hm => hz (by simp [hm])) (fun i hi => heq i (by simp [hi])) h2

theorem fits_congr (h : ∀ i ∈ t.toList, M' i = M i) : Fits S E M z hi t → Fits S E M' z hi t :=
  fits_transfer (fun _ => rfl) fun i hi => ⟨rfl, fun _ => ⟨rfl, h i hi⟩⟩

theorem maxOf_congr (h : ∀ i ∈ t.toList, M' i = M i) : maxOf M' t = maxOf M t := by
  cases t with
  | leaf => rfl
  | node c l a r => exact h a (by simp)

theorem fits_sameShape : ∀ {t t' : ColorTree α} {hi : Option Nat}, t.SameShape t' →
    Fits S E M z hi t → Fits S E M z hi t'
  | leaf, leaf, _, _, _ => trivial
  | node c l a r, node c' l' a' r', hi, ⟨ha, hl, hr⟩, ⟨h1, h2, h3⟩ => by
    subst ha
    have hlist : (node c l a r).toList = (node c' l' a r').toList := by
      rw [toList, toList, hl.toList_eq, hr.toList_eq]
    refine ⟨fun hz => ?_, fits_sameShape hl h2, fits_sameShape hr h3⟩
    obtain ⟨he, hb⟩ := h1 (hlist ▸ hz)
    exact ⟨fun j hj => he j (hlist ▸ hj), hb⟩

/-- A later next interval is as good. -/
theorem fits_mono {hi' : Option Nat} (hle : ∀ h' ∈ hi', ∃ h ∈ hi, h ≤ h') :
    Fits S E M z hi t → Fits S E M z hi' t := by
  induction t with
  | leaf => exact id
  | node c l a r _ ihr =>
    rintro ⟨h1, h2, h3⟩
    refine ⟨fun hz => ⟨(h1 hz).ends, fun h' hh' => ?_⟩, h2, ihr h3⟩
    obtain ⟨h, hh, hlt⟩ := hle h' hh'
    exact Nat.le_trans ((h1 hz).bound h hh) hlt

theorem Fits.ends (h : Fits S E M z hi t) (hz : z ∉ t.toList) : ∀ j ∈ t.toList,
    E j ≤ maxOf M t := by
  cases t with
  | leaf => simp [toList]
  | node c l a r => exact (h.1 hz).ends

theorem Fits.bound (h : Fits S E M z hi t) (hz : z ∉ t.toList) : ∀ b ∈ hi, maxOf M t ≤ b := by
  cases t with
  | leaf => exact fun _ _ => Nat.zero_le _
  | node c l a r => exact (h.1 hz).bound

/-- The recomputed maximum is right. -/
theorem maxOk_join (hs : Fits S E M z (sideBound S d hi a) s)
    (hu : Fits S E M z (sideBound S d.flip hi a) u) (hz : z ∉ (join d c s a u).toList)
    (hsep : S a < E a) (hhi : ∀ h ∈ hi, E a ≤ h)
    (ha : M a = max (E a) (max (maxOf M s) (maxOf M u))) :
    MaxOk E M hi (join d c s a u) a := by
  simp only [mem_join, not_or] at hz
  constructor
  · intro j hj
    rcases (mem_join ..).mp hj with hj | rfl | hj
    · exact Nat.le_trans (hs.ends hz.1 j hj) (by omega)
    · omega
    · exact Nat.le_trans (hu.ends hz.2.2 j hj) (by omega)
  · intro h hh
    have h1 := hhi h hh
    have h2 := hs.bound hz.1
    have h3 := hu.bound hz.2.2
    cases d with
    | left =>
      have h2 := h2 (S a) rfl
      have h3 := h3 h hh
      omega
    | right =>
      have h2 := h2 h hh
      have h3 := h3 (S a) rfl
      omega

end ColorTree

open ColorTree

namespace Ctx

/-- The start of the next interval after the hole. -/
def bound (S : α → Nat) : List (Frame α) → Option Nat
  | [] => none
  | f :: k => sideBound S f.side (bound S k) f.label

/-- The maxima are right in the subtrees beside the path to the hole. -/
def Fits (S E M : α → Nat) (z : α) : List (Frame α) → Prop
  | [] => True
  | f :: k => ColorTree.Fits S E M z (sideBound S f.side.flip (bound S k) f.label) f.sib ∧
      Fits S E M z k

variable {S E M : α → Nat} {z : α}

theorem bound_congr : ∀ {k : List (Frame α)}, (∀ i ∈ labels k, S' i = S i) →
    bound S' k = bound S k
  | [], _ => rfl
  | ⟨.left, _, _, _⟩ :: _, h => congrArg some (h _ (by simp))
  | ⟨.right, _, _, _⟩ :: k, h =>
    bound_congr (k := k) (fun i hi => h i (by simp [hi]))

theorem fits_transfer : ∀ {k : List (Frame α)}, (z ∈ labels k → z = z') →
    (∀ i ∈ labels k, S' i = S i ∧ (i ≠ z' → E' i = E i ∧ M' i = M i)) → Fits S E M z k →
      Fits S' E' M' z' k
  | [], _, _, _ => trivial
  | f :: k, hz, heq, ⟨h1, h2⟩ => by
    have hk : ∀ i ∈ labels k, S' i = S i ∧ (i ≠ z' → E' i = E i ∧ M' i = M i) :=
      fun i hi => heq i (by simp [hi])
    refine ⟨?_, fits_transfer (fun hm => hz (by simp [hm])) hk h2⟩
    have hb : sideBound S' f.side.flip (bound S' k) f.label =
        sideBound S f.side.flip (bound S k) f.label := by
      rw [bound_congr fun i hi => (hk i hi).1]
      unfold sideBound
      rw [(heq f.label (by simp)).1]
    rw [hb]
    exact ColorTree.fits_transfer (fun hm => hz (by simp [hm]))
      (fun i hi => heq i (by simp [hi])) h1

theorem fits_congr {k : List (Frame α)} (h : ∀ i ∈ labels k, M' i = M i) :
    Fits S E M z k → Fits S E M' z k :=
  fits_transfer (fun _ => rfl) fun i hi => ⟨rfl, fun _ => ⟨rfl, h i hi⟩⟩

/-- The bound of a hole is the start of an interval after it. -/
theorem exists_of_bound : ∀ {k : List (Frame α)} {h : Nat}, h ∈ bound S k →
    ∃ b ∈ after k, S b = h
  | ⟨.left, _, a, _⟩ :: _, h, hh => ⟨a, by simp [after], Option.some.inj hh⟩
  | ⟨.right, _, _, _⟩ :: k, h, hh => by
    obtain ⟨b, hb, he⟩ := exists_of_bound (k := k) hh
    exact ⟨b, by simpa [after] using hb, he⟩

end Ctx

variable {S E M : α → Nat} {z : α} {k : List (Frame α)} {s : ColorTree α}

/-- Right maxima split at a hole. -/
theorem fits_of_plug (h : ColorTree.Fits S E M z none (plug s k)) :
    ColorTree.Fits S E M z (Ctx.bound S k) s ∧ Ctx.Fits S E M z k := by
  induction k generalizing s with
  | nil => exact ⟨h, trivial⟩
  | cons f k ih =>
    obtain ⟨h1, h2⟩ := ih h
    obtain ⟨-, h3, h4⟩ := fits_join.mp h1
    exact ⟨h3, h4, h2⟩

/-- The next interval starts after the ones before it end. -/
theorem ColorTree.Apart.end_le_bound (hap : Apart S E (Ctx.before k ++ l ++ Ctx.after k))
    (ha : a ∈ l) : ∀ h ∈ Ctx.bound S k, E a ≤ h := by
  intro h hh
  obtain ⟨b, hb, rfl⟩ := Ctx.exists_of_bound hh
  have := (List.pairwise_append.mp hap.order).2.2
  exact this a (by simp [ha]) b hb

/-- Setting the right maximum at the parent of the hole makes the larger focus right. -/
theorem fits_raise {f : Frame α} (hs : ColorTree.Fits S E M z (Ctx.bound S (f :: k)) s)
    (hk : Ctx.Fits S E M z (f :: k))
    (hap : Apart S E (plug s (f :: k)).toList)
    (ha : M f.label = max (E f.label) (max (maxOf M s) (maxOf M f.sib))) :
    ColorTree.Fits S E M z (Ctx.bound S k) (join f.side f.color s f.label f.sib) ∧
      Ctx.Fits S E M z k := by
  refine ⟨fits_join.mpr ⟨fun hz => ?_, hs, hk.1⟩, hk.2⟩
  have hap' := hap
  rw [plug, toList_plug] at hap'
  have hmem : f.label ∈ (join f.side f.color s f.label f.sib).toList := by simp
  exact maxOk_join hs hk.1 hz
    (hap'.nonempty _ (by simp [hmem])) (hap'.end_le_bound hmem) ha

/-- Rotation: the subtrees keep their next intervals. -/
theorem fits_of_rotate {e : Color} {a b g : ColorTree α}
    (h : ColorTree.Fits S E M z none (plug (join d c a x (join d e b y g)) k)) :
    ColorTree.Fits S E M z (Ctx.bound S (⟨d, c, x, b⟩ :: ⟨d, e, y, g⟩ :: k)) a ∧
      Ctx.Fits S E M z (⟨d, c, x, b⟩ :: ⟨d, e, y, g⟩ :: k) := by
  obtain ⟨h1, h2⟩ := fits_of_plug h
  obtain ⟨-, ha, h3⟩ := fits_join.mp h1
  obtain ⟨-, hb, hg⟩ := fits_join.mp h3
  cases d
  · exact ⟨ha, hb, hg, h2⟩
  · exact ⟨ha, hb, hg, h2⟩

/-- If `z` is in the focus, nothing is asked of the path above. -/
theorem fits_plug_exempt (hs : ColorTree.Fits S E M z (Ctx.bound S k) s) (hz : z ∈ s.toList)
    (hk : Ctx.Fits S E M z k) : ColorTree.Fits S E M z none (plug s k) := by
  induction k generalizing s with
  | nil => exact hs
  | cons f k ih =>
    have hm : z ∈ (join f.side f.color s f.label f.sib).toList := by simp [hz]
    exact ih (fits_join.mpr ⟨fun h => absurd hm h, hs, hk.1⟩) hm hk.2

/-! ## Taking labels out -/

/-- A subtree with fewer labels in the hole: the maxima above become stale, but stay right. -/
theorem fits_shrink {s' : ColorTree α} (h : ColorTree.Fits S E M z none (plug s k))
    (hz : z ∉ (plug s k).toList) (hs' : ColorTree.Fits S E M' z (Ctx.bound S k) s')
    (hsub : ∀ j ∈ s'.toList, j ∈ s.toList) (hM : ∀ i ∈ Ctx.labels k, M' i = M i) :
    ColorTree.Fits S E M' z none (plug s' k) := by
  induction k generalizing s s' with
  | nil => exact hs'
  | cons f k ih =>
    obtain ⟨h1, h2⟩ := fits_of_plug (k := k) h
    obtain ⟨h3, -, h4⟩ := fits_join.mp h1
    have hlabel := hM f.label (by simp)
    have hsib : ∀ i ∈ f.sib.toList, M' i = M i :=
      fun i hi => hM i (by simp [hi])
    have hzj : z ∉ (join f.side f.color s f.label f.sib).toList :=
      fun hm => hz ((mem_plug (k := k)).mpr (.inl hm))
    have hsub' : ∀ j ∈ (join f.side f.color s' f.label f.sib).toList,
        j ∈ (join f.side f.color s f.label f.sib).toList := by
      intro j hj
      rw [mem_join] at hj ⊢
      exact hj.imp_left (hsub j)
    refine ih h hz (fits_join.mpr ⟨fun _ => ⟨fun j hj => ?_, fun b hb => ?_⟩, hs',
      ColorTree.fits_congr hsib h4⟩) hsub'
      (fun i hi => hM i (by simp [hi]))
    · rw [hlabel]
      exact (h3 hzj).ends j (hsub' j hj)
    · rw [hlabel]
      exact (h3 hzj).bound b hb

/-- A new maximum at the top. -/
theorem ColorTree.fits_retop {hi : Option Nat} {t : ColorTree α} {m : Nat}
    (h : ColorTree.Fits S E M z hi t) (hnd : t.toList.Nodup)
    (hM : ∀ i ∈ t.toList, M' i = M i ∨ M' i = m ∧ ∃ c l r, t = node c l i r)
    (hends : ∀ j ∈ t.toList, E j ≤ m) (hm : ∀ b ∈ hi, m ≤ b) : ColorTree.Fits S E M' z hi t := by
  cases t with
  | leaf => trivial
  | node c l a r =>
    obtain ⟨-, -, hal, har, -⟩ := (nodup_join (d := .left)).mp hnd
    have hsub : ∀ i ∈ (node c l a r).toList, i ≠ a → M' i = M i := by
      intro i hi hne
      rcases hM i hi with he | ⟨-, c', l', r', he⟩
      · exact he
      · exact absurd (node.inj he).2.2.1.symm hne
    refine ⟨fun hz => ?_, ?_, ?_⟩
    · rcases hM a (by simp) with he | ⟨he, -⟩
      · exact (h.1 hz).congr he
      · exact ⟨fun j hj => by rw [he]; exact hends j hj, fun b hb => by rw [he]; exact hm b hb⟩
    · exact ColorTree.fits_congr (fun i hi => hsub i (by simp [hi]) (fun he => hal (he ▸ hi))) h.2.1
    · exact ColorTree.fits_congr (fun i hi => hsub i (by simp [hi]) (fun he => har (he ▸ hi))) h.2.2

/-- The only child takes the place and the maximum of its parent. -/
theorem fits_child {v : ColorTree α}
    (h : ColorTree.Fits S E M z none (plug (join d c leaf x v) k))
    (hz : z ∉ (plug (join d c leaf x v) k).toList)
    (hnd : (plug (join d c leaf x v) k).toList.Nodup)
    (hap : Apart S E (plug (join d c leaf x v) k).toList) (hM : ∀ i ∈ Ctx.labels k, M' i = M i)
    (hMv : ∀ i ∈ v.toList, M' i = M i ∨ M' i = M x ∧ ∃ c l r, v = node c l i r) :
    ColorTree.Fits S E M' z none (plug v k) := by
  obtain ⟨h1, -⟩ := fits_of_plug h
  obtain ⟨h3, -, h4⟩ := fits_join.mp h1
  have hzj : z ∉ (join d c leaf x v).toList := fun hm => hz (mem_plug.mpr (.inl hm))
  have hsub : ∀ j ∈ v.toList, j ∈ (join d c leaf x v).toList := fun j hj => by simp [hj]
  have hndv := (nodup_join.mp (nodup_plug.mp hnd).1).2.1
  have hap' := hap
  rw [toList_plug] at hap'
  have hx : x ∈ (join d c leaf x v).toList := by simp
  have hxb := hap'.end_le_bound hx
  have hxe := hap'.nonempty x (by simp [hx])
  refine fits_shrink h hz (ColorTree.fits_retop (fits_mono ?_ h4) hndv hMv
    (fun j hj => (h3 hzj).ends j (hsub j hj)) (h3 hzj).bound) hsub hM
  intro b hb
  cases d with
  | left => exact ⟨b, hb, Nat.le_refl _⟩
  | right => exact ⟨S x, rfl, Nat.le_of_lt (Nat.lt_of_lt_of_le hxe (hxb b hb))⟩

/-- A later label takes the place and the maximum of `x`. -/
theorem fits_swap {l r r' : ColorTree α}
    (h : ColorTree.Fits S E M z none (plug (node c l x r) k))
    (hz : z ∉ (plug (node c l x r) k).toList) (hr' : ColorTree.Fits S E M' z (Ctx.bound S k) r')
    (hsub : ∀ j ∈ r'.toList, j ∈ r.toList) (hy : y ∈ r.toList) (hxy : S x ≤ S y)
    (hMy : M' y = M x) (hMl : ∀ i ∈ l.toList, M' i = M i) (hMk : ∀ i ∈ Ctx.labels k, M' i = M i) :
    ColorTree.Fits S E M' z none (plug (node c l y r') k) := by
  obtain ⟨⟨h3, h4, -⟩, -⟩ := fits_of_plug h
  have hzj : z ∉ (node c l x r).toList := fun hm => hz (mem_plug.mpr (.inl hm))
  have hsub' : ∀ j ∈ (node c l y r').toList, j ∈ (node c l x r).toList := by
    intro j hj
    rcases mem_node.mp hj with hj | rfl | hj
    · simp [hj]
    · simp [hy]
    · simp [hsub j hj]
  refine fits_shrink h hz ⟨fun _ => ⟨fun j hj => ?_, fun b hb => ?_⟩, ?_, hr'⟩ hsub' hMk
  · rw [hMy]
    exact (h3 hzj).ends j (hsub' j hj)
  · rw [hMy]
    exact (h3 hzj).bound b hb
  · refine fits_mono (fun b hb => ?_) (ColorTree.fits_congr hMl h4)
    exact ⟨S x, rfl, Nat.le_trans hxy (Nat.le_of_eq (Option.some.inj hb))⟩

/-! ## Search -/

section Search

variable {hi : Option Nat} {l r : ColorTree α} {c : Color} {a : α} {p q : Nat}

/-- If the left maximum is not beyond `p`, nothing in the left subtree reaches beyond `p`. -/
theorem no_overlap_left (h : ColorTree.Fits S E M z hi (node c l a r))
    (hz : z ∉ (node c l a r).toList) (hp : maxOf M l ≤ p) : ∀ j ∈ l.toList, E j ≤ p := by
  intro j hj
  have hzl : z ∉ l.toList := fun hm => hz (by simp [hm])
  exact Nat.le_trans (h.2.1.ends hzl j hj) hp

/--
If the left maximum is beyond `p` and the interval of `a` does not meet `p` and `q`, then nothing in
the right subtree starts before `q`.
-/
theorem no_overlap_right (h : ColorTree.Fits S E M z hi (node c l a r))
    (hz : z ∉ (node c l a r).toList) (hp : p < maxOf M l)
    (hap : Apart S E (node c l a r).toList) (ha : ¬ (S a < q ∧ p < E a)) :
    ∀ j ∈ r.toList, q ≤ S j := by
  intro j hj
  have hzl : z ∉ l.toList := fun hm => hz (by simp [hm])
  -- a stale maximum is still at most the start of the interval of `a`
  have hle := h.2.1.bound hzl (S a) rfl
  have hne := hap.nonempty a (by simp)
  have hord := (List.pairwise_cons.mp (List.pairwise_append.mp hap.order).2.1).1 j hj
  omega

end Search

end Osdev.Lib
