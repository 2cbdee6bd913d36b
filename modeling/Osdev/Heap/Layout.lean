import Mathlib.Data.List.Pairwise
import Osdev.Heap.Model

/-!
# The layout of the heap

A `Slot` is one chunk together with the hole in front of it, if there is one. `Tiled b ss e` says
that the slots `ss` cover `[b, e)` without a gap and without an overlap. Chunks are never split,
merged or moved, so a slot only ever changes its `free` flag, and new slots appear at the end.
-/

namespace Osdev.Heap

open Osdev.Lib

variable {m : Mem} {c a b e : Nat} {s t : Slot} {ss : List Slot}

/-! ## Header fields and frames -/

theorem size_congr {m' : Mem} (h : m.AgreeOn m' (c + 4) 4) :
    size m' c = size m c ∧ free m' c = free m c := by
  have hw : sizeWord m' c = sizeWord m c := Mem.read_congr h
  rw [size, free, hw]
  exact ⟨rfl, rfl⟩

theorem sizeWord_setFree (m : Mem) (c : Nat) (b : Bool) :
    sizeWord (setFree m c b) c = size m c + if b then 2 ^ 31 else 0 := by
  have hlt : size m c < 2 ^ 31 := Nat.mod_lt _ (by norm_num)
  refine Mem.read_write_same ?_
  cases b <;> norm_num <;> omega

theorem size_setFree (m : Mem) (c : Nat) (b : Bool) : size (setFree m c b) c = size m c := by
  have hw := sizeWord_setFree m c b
  unfold size at *
  rw [hw]
  cases b <;> simp only [Bool.false_eq_true, if_true, if_false] <;> omega

theorem free_setFree (m : Mem) (c : Nat) (b : Bool) : free (setFree m c b) c = b := by
  have hlt : size m c < 2 ^ 31 := Nat.mod_lt _ (by norm_num)
  rw [free, sizeWord_setFree]
  cases b <;> simp only [Bool.false_eq_true, if_true, if_false, decide_eq_true_eq,
    decide_eq_false_iff_not] <;> omega

theorem size_setSize {v : Nat} (hv : v < 2 ^ 31) : size (setSize m c v) c = v := by
  have hw : sizeWord (setSize m c v) c = v % 2 ^ 31 + if free m c then 2 ^ 31 else 0 := by
    refine Mem.read_write_same ?_
    cases free m c <;> norm_num <;> omega
  rw [size, hw]
  cases free m c <;> simp only [Bool.false_eq_true, if_true, if_false] <;> omega

section Links

variable {D : Nat → Prop} (hlt : ∀ a, D a → a < word)
  (hsep : ∀ a b, D a → D b → a = b ∨ a + chunkHeader ≤ b ∨ b + chunkHeader ≤ a)

include hsep

/-- Two words of separated headers at different offsets. -/
theorem read_write_other {v o o' : Nat} (ho : o ≤ 16) (ho' : o' ≤ 16)
    (hoo : o + 8 ≤ o' ∨ o' + 8 ≤ o)
    (ha : D a) (hb : D b) : (m.write (a + o) 8 v).read (b + o') 8 = m.read (b + o') 8 := by
  have := hsep a b ha hb
  unfold chunkHeader at this
  exact Mem.read_write_disjoint (by omega)

include hlt

/-- The same word of separated headers. -/
theorem read_write_link {v o : Nat} (ha : D a) (hb : D b) (hv : D v ∨ v = 0) :
    (m.write (a + o) 8 v).read (b + o) 8 = if b = a then v else m.read (b + o) 8 := by
  have hv' : v < 256 ^ 8 := by
    rcases hv with hv | hv
    · exact hlt v hv
    · rw [hv]; norm_num
  split
  · next he => rw [he]; exact Mem.read_write_same hv'
  · have := hsep a b ha hb
    unfold chunkHeader at this
    exact Mem.read_write_disjoint (by omega)

/-- The list pointers of separated headers can be set independently. -/
theorem chunks_lawful : chunks.Lawful D where
  first_setFirst _ _ _ := rfl
  first_setLast _ _ := rfl
  first_setNext _ _ _ := rfl
  first_setPrev _ _ _ := rfl
  last_setFirst _ _ := rfl
  last_setLast _ _ _ := rfl
  last_setNext _ _ _ := rfl
  last_setPrev _ _ _ := rfl
  next_setFirst _ _ _ := rfl
  next_setLast _ _ _ := rfl
  prev_setFirst _ _ _ := rfl
  prev_setLast _ _ _ := rfl
  next_setNext _ _ _ _ ha hb hv := read_write_link hlt hsep ha hb hv
  next_setPrev _ _ _ _ ha hb := read_write_other hsep (by omega) (by omega) (by omega) ha hb
  prev_setNext _ _ _ _ ha hb := read_write_other hsep (by omega) (by omega) (by omega) ha hb
  prev_setPrev _ _ _ _ ha hb hv := read_write_link hlt hsep ha hb hv

end Links

/--
`h'` differs from `h` only in the head of the free list and in the list pointers of the cells
in `D`. This is all that a list macro can do.
-/
structure LinksOnly (D : Nat → Prop) (h h' : MmHeap) : Prop where
  virtAddr : h'.virtAddr = h.virtAddr
  size : h'.size = h.size
  lastChunk : h'.lastChunk = h.lastChunk
  mem : ∀ x, (∀ a, D a → ¬ (a + 8 ≤ x ∧ x < a + chunkHeader)) → h'.mem x = h.mem x

theorem linksOnly_stable (D : Nat → Prop) (h : MmHeap) :
    chunks.Stable D (LinksOnly D h) where
  setFirst _ _ hs := ⟨hs.virtAddr, hs.size, hs.lastChunk, hs.mem⟩
  setLast _ _ hs := ⟨hs.virtAddr, hs.size, hs.lastChunk, hs.mem⟩
  setNext s a v ha hs := by
    refine ⟨hs.virtAddr, hs.size, hs.lastChunk, fun x hx => ?_⟩
    rw [← hs.mem x hx]
    refine Mem.write_outside s.mem 8 (a + 8) v x ?_
    have := hx a ha
    unfold chunkHeader at this
    omega
  setPrev s a v ha hs := by
    refine ⟨hs.virtAddr, hs.size, hs.lastChunk, fun x hx => ?_⟩
    rw [← hs.mem x hx]
    refine Mem.write_outside s.mem 8 (a + 16) v x ?_
    have := hx a ha
    unfold chunkHeader at this
    omega

theorem LinksOnly.refl (D : Nat → Prop) (h : MmHeap) : LinksOnly D h h :=
  ⟨rfl, rfl, rfl, fun _ _ => rfl⟩

/-- A range that meets no list pointers is untouched. -/
theorem LinksOnly.agreeOn {D : Nat → Prop} {h h' : MmHeap} (hl : LinksOnly D h h') {n : Nat}
    (hd : ∀ c, D c → c + chunkHeader ≤ a ∨ a + n ≤ c + 8) : h.mem.AgreeOn h'.mem a n := by
  intro x hx hx'
  refine hl.mem x (fun c hc hcx => ?_)
  have := hd c hc
  omega

/-! ## Slots -/

/-- A chunk at `addr`, and the hole of `gap` bytes in front of it. -/
structure Slot where
  gap : Nat
  addr : Nat
  size : Nat
  free : Bool
  deriving DecidableEq, Repr

namespace Slot

def start (s : Slot) : Nat := s.addr - s.gap
def stop (s : Slot) : Nat := s.addr + chunkHeader + s.size

/-- The memory holds this slot: the chunk header, and the hole if there is one. -/
structure Ok (m : Mem) (s : Slot) : Prop where
  magic : magic m s.addr = chunkMagic
  size : Heap.size m s.addr = s.size
  free : Heap.free m s.addr = s.free
  hole : s.gap ≠ 0 → m.read s.start 2 = holeMagic ∧ m.read (s.start + 2) 2 = s.gap

/-- A slot lies on 8-byte boundaries, and its hole is too small for a chunk. -/
structure Shape (s : Slot) : Prop where
  addr : s.addr % 8 = 0
  size : s.size % 8 = 0
  gap : s.gap % 8 = 0
  gap_lt : s.gap < chunkHeader + chunkMinSize

theorem Ok.congr {m' : Mem} (h : s.Ok m) (hle : s.gap ≤ s.addr)
    (ha : m.AgreeOn m' s.start (s.gap + 8)) : s.Ok m' where
  magic := by
    rw [← h.magic]
    exact Mem.read_congr (ha.mono (by unfold start; omega) (by unfold start; omega))
  size := by
    rw [← h.size]
    exact (size_congr (ha.mono (by unfold start; omega) (by unfold start; omega))).1
  free := by
    rw [← h.free]
    exact (size_congr (ha.mono (by unfold start; omega) (by unfold start; omega))).2
  hole := by
    intro hg
    obtain ⟨h1, h2⟩ := h.hole hg
    rw [← h1, ← h2]
    exact ⟨Mem.read_congr (ha.mono (by omega) (by omega)),
      Mem.read_congr (ha.mono (by omega) (by omega))⟩

end Slot

/-- The slots cover `[b, e)` exactly, in order. -/
def Tiled : Nat → List Slot → Nat → Prop
  | b, [], e => b = e
  | b, s :: ss, e => s.addr = b + s.gap ∧ Tiled s.stop ss e

theorem Tiled.append {ts : List Slot} : ∀ {b c e : Nat}, Tiled b ss c → Tiled c ts e →
    Tiled b (ss ++ ts) e := by
  induction ss with
  | nil => intro b c e h h'; rw [show b = c from h]; exact h'
  | cons s ss ih => intro b c e h h'; exact ⟨h.1, ih h.2 h'⟩

theorem Tiled.le : ∀ {b e : Nat}, Tiled b ss e → b + chunkHeader * ss.length ≤ e := by
  induction ss with
  | nil => intro b e h; rw [show b = e from h]; simp
  | cons s ss ih =>
    intro b e h
    have h1 := ih h.2
    have h2 := h.1
    unfold Slot.stop at h1
    simp only [List.length_cons, Nat.mul_succ]
    omega

/-- Each slot lies inside the tiled range. -/
theorem Tiled.mem_bounds : ∀ {b e : Nat}, Tiled b ss e → ∀ s ∈ ss,
    b ≤ s.start ∧ s.stop ≤ e ∧ s.gap ≤ s.addr := by
  induction ss with
  | nil => intro b e _ s hs; simp at hs
  | cons t ss ih =>
    intro b e h s hs
    have hle := Tiled.le h.2
    have ht := h.1
    rcases List.mem_cons.mp hs with rfl | hs
    · unfold Slot.start
      omega
    · obtain ⟨h1, h2, h3⟩ := ih h.2 s hs
      unfold Slot.stop at h1
      omega

/-- Slots are ordered by address. -/
theorem Tiled.pairwise : ∀ {b e : Nat}, Tiled b ss e →
    ss.Pairwise (fun s t => s.stop ≤ t.start) := by
  induction ss with
  | nil => intro _ _ _; exact .nil
  | cons s ss ih =>
    intro b e h
    exact .cons (fun t ht => (Tiled.mem_bounds h.2 t ht).1) (ih h.2)

/-- Two slots of a tiling are equal or apart. -/
theorem Tiled.apart (h : Tiled b ss e) (hs : s ∈ ss) (ht : t ∈ ss) :
    s = t ∨ s.addr + chunkHeader + s.size + t.gap ≤ t.addr ∨
      t.addr + chunkHeader + t.size + s.gap ≤ s.addr := by
  have hapart : s = t ∨ s.stop ≤ t.start ∨ t.stop ≤ s.start :=
    List.Pairwise.forall_of_forall_of_flip
      (R := fun s t => s = t ∨ s.stop ≤ t.start ∨ t.stop ≤ s.start)
      (fun _ _ => .inl rfl) (h.pairwise.imp fun h => .inr (.inl h))
      (h.pairwise.imp fun h => .inr (.inr h)) hs ht
  have hs3 := (h.mem_bounds s hs).2.2
  have ht3 := (h.mem_bounds t ht).2.2
  refine hapart.imp_right fun hlt => ?_
  unfold Slot.stop Slot.start at hlt
  omega

theorem Tiled.eq_of_addr (h : Tiled b ss e) (hs : s ∈ ss) (ht : t ∈ ss) (ha : s.addr = t.addr) :
    s = t := by
  refine (h.apart hs ht).resolve_right fun hlt => ?_
  unfold chunkHeader at hlt
  omega

/-- `a` is the address of a chunk. -/
def IsChunk (ss : List Slot) (a : Nat) : Prop := ∃ s ∈ ss, s.addr = a

theorem Tiled.chunks_lawful (h : Tiled b ss e) (he : e ≤ word) :
    chunks.Lawful (IsChunk ss) := by
  refine Heap.chunks_lawful ?_ ?_
  · rintro a ⟨s, hs, rfl⟩
    have := (h.mem_bounds s hs).2.1
    unfold Slot.stop chunkHeader at this
    omega
  · rintro a c ⟨s, hs, rfl⟩ ⟨t, ht, rfl⟩
    refine (h.apart hs ht).imp (congrArg Slot.addr) fun hlt => ?_
    omega

/-! ## Changing the flag of one chunk -/

/-- Set the flag of the chunk at `a`. -/
def setFlag (a : Nat) (b : Bool) (ss : List Slot) : List Slot :=
  ss.map fun s => if s.addr = a then { s with free := b } else s

theorem mem_setFlag {b : Bool} :
    t ∈ setFlag a b ss ↔ ∃ s ∈ ss, t = if s.addr = a then { s with free := b } else s := by
  rw [setFlag, List.mem_map]
  exact ⟨fun ⟨s, hs, he⟩ => ⟨s, hs, he.symm⟩, fun ⟨s, hs, he⟩ => ⟨s, hs, he.symm⟩⟩

theorem setFlag_map_addr (a : Nat) (b : Bool) (ss : List Slot) :
    (setFlag a b ss).map Slot.addr = ss.map Slot.addr := by
  rw [setFlag, List.map_map]
  refine List.map_congr_left fun s _ => ?_
  simp only [Function.comp]
  split <;> rfl

theorem isChunk_setFlag {b : Bool} :
    IsChunk (setFlag a b ss) c ↔ IsChunk ss c := by
  have h := congrArg (c ∈ ·) (setFlag_map_addr a b ss)
  simp only [List.mem_map, eq_iff_iff] at h
  exact h

theorem Tiled.setFlag {b : Bool} : ∀ {x e : Nat}, Tiled x ss e →
    Tiled x (setFlag a b ss) e := by
  induction ss with
  | nil => intro x e h; exact h
  | cons s ss ih =>
    intro x e h
    rw [Heap.setFlag, List.map_cons]
    split
    · exact ⟨h.1, ih h.2⟩
    · exact ⟨h.1, ih h.2⟩

end Osdev.Heap
