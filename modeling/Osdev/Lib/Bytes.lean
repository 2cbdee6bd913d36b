import Mathlib.Data.List.Flatten
import Osdev.Lib.Mem

/-!
# Byte strings, and memory spread over frames

A buffer is a list of bytes, and words are stored in it in little-endian order. A list of frames of
`ps` bytes each shows a memory as one flat array: byte `i` of the array is byte `i % ps` of frame
`i / ps`. `Patched` says that a flat array was changed at one place only, by one string of bytes.
-/

namespace Osdev.Lib

/-! ## Words as bytes -/

/-- The low `n` bytes of `v`, in little-endian order. -/
def bytesLE : Nat → Nat → List UInt8
  | 0, _ => []
  | n + 1, v => UInt8.ofNat v :: bytesLE n (v / 256)

@[simp]
theorem length_bytesLE (n v : Nat) : (bytesLE n v).length = n := by
  induction n generalizing v with
  | zero => rfl
  | succ n ih => simp [bytesLE, ih]

/-- The little-endian word of `n` bytes at `a` in an array whose bytes may be missing. -/
def readLE (byte : Nat → Option UInt8) (a : Nat) : Nat → Option Nat
  | 0 => some 0
  | n + 1 =>
    match byte a, readLE byte (a + 1) n with
    | some b, some r => some (b.toNat + 256 * r)
    | _, _ => none

theorem isSome_readLE {byte : Nat → Option UInt8} {n a : Nat} (h : ∀ k < n, (byte (a + k)).isSome) :
    (readLE byte a n).isSome := by
  induction n generalizing a with
  | zero => rfl
  | succ n ih =>
    obtain ⟨b, hb⟩ := Option.isSome_iff_exists.mp (h 0 n.succ_pos)
    obtain ⟨r, hr⟩ := Option.isSome_iff_exists.mp (ih fun k hk => by
      rw [Nat.add_right_comm, Nat.add_assoc]
      exact h (k + 1) (Nat.succ_lt_succ hk))
    rw [Nat.add_zero] at hb
    simp [readLE, hb, hr]

theorem readLE_lt {byte : Nat → Option UInt8} {n a v : Nat} (h : readLE byte a n = some v) :
    v < 256 ^ n := by
  induction n generalizing a v with
  | zero =>
    cases h
    exact Nat.one_pos
  | succ n ih =>
    unfold readLE at h
    split at h
    next b r hb hr =>
      cases h
      have := ih hr
      have := b.toNat_lt
      rw [Nat.pow_succ]
      omega
    next => cases h

theorem readLE_congr {byte byte' : Nat → Option UInt8} {n a : Nat}
    (h : ∀ k < n, byte' (a + k) = byte (a + k)) : readLE byte' a n = readLE byte a n := by
  induction n generalizing a with
  | zero => rfl
  | succ n ih =>
    have hhead : byte' a = byte a := h 0 n.succ_pos
    have htail : readLE byte' (a + 1) n = readLE byte (a + 1) n := ih fun k hk => by
      rw [Nat.add_right_comm, Nat.add_assoc]
      exact h (k + 1) (Nat.succ_lt_succ hk)
    rw [readLE, readLE, hhead, htail]

theorem readLE_of_bytesLE {byte : Nat → Option UInt8} {n v a : Nat}
    (h : ∀ k < n, byte (a + k) = (bytesLE n v)[k]?) : readLE byte a n = some (v % 256 ^ n) := by
  induction n generalizing v a with
  | zero => simp [readLE, Nat.mod_one]
  | succ n ih =>
    have hhead : byte a = some (UInt8.ofNat v) := by simpa [bytesLE] using h 0 (by omega)
    have htail : readLE byte (a + 1) n = some (v / 256 % 256 ^ n) := by
      refine ih fun k hk => ?_
      have hbyte := h (k + 1) (by omega)
      rwa [bytesLE, List.getElem?_cons_succ, show a + (k + 1) = a + 1 + k by omega] at hbyte
    have hlow : (UInt8.ofNat v).toNat = v % 256 := by simp
    simp only [readLE, hhead, htail, hlow]
    rw [Nat.pow_succ, Nat.mul_comm (256 ^ n) 256, Nat.mod_mul]

/-- An array of words of `w` bytes, as bytes. -/
def wordBytes (w : Nat) (vs : List Nat) : List UInt8 :=
  vs.flatMap (bytesLE w)

@[simp]
theorem length_wordBytes (w : Nat) (vs : List Nat) : (wordBytes w vs).length = w * vs.length := by
  induction vs with
  | nil => simp [wordBytes]
  | cons v vs ih =>
    rw [wordBytes, List.flatMap_cons, List.length_append, length_bytesLE]
    rw [wordBytes] at ih
    rw [ih, List.length_cons, Nat.mul_succ, Nat.add_comm]

theorem wordBytes_append (w : Nat) (us vs : List Nat) :
    wordBytes w (us ++ vs) = wordBytes w us ++ wordBytes w vs :=
  List.flatMap_append

theorem getElem?_wordBytes {w k j : Nat} {vs : List Nat} {v : Nat} (hv : vs[k]? = some v)
    (hj : j < w) : (wordBytes w vs)[w * k + j]? = (bytesLE w v)[j]? := by
  induction vs generalizing k with
  | nil => simp at hv
  | cons u vs ih =>
    rw [wordBytes, List.flatMap_cons]
    cases k with
    | zero =>
      obtain rfl : u = v := by simpa using hv
      rw [List.getElem?_append_left (by simp; omega)]
      simp
    | succ k =>
      rw [List.getElem?_append_right (by simp [Nat.mul_succ]; omega), length_bytesLE,
        show w * (k + 1) + j - w = w * k + j by rw [Nat.mul_succ]; omega]
      exact ih (by simpa using hv)

/-- A word of an array of words reads back. -/
theorem readLE_of_wordBytes {byte : Nat → Option UInt8} {w a k v : Nat} {vs : List Nat}
    (h : ∀ i < w * vs.length, byte (a + i) = (wordBytes w vs)[i]?) (hv : vs[k]? = some v) :
    readLE byte (a + w * k) w = some (v % 256 ^ w) := by
  refine readLE_of_bytesLE fun j hj => ?_
  have hk : k < vs.length := (List.getElem?_eq_some_iff.mp hv).1
  have hin : w * k + j < w * vs.length := by
    calc w * k + j < w * k + w := by omega
      _ = w * (k + 1) := (Nat.mul_succ w k).symm
      _ ≤ w * vs.length := Nat.mul_le_mul_left w hk
  rw [Nat.add_assoc, h _ hin, getElem?_wordBytes hv hj]

/-! ## Byte strings in memory -/

namespace Mem

/-- Copy a string of bytes to `a`. -/
def store (m : Mem) (a : Nat) (bs : List UInt8) : Mem :=
  fun x => if a ≤ x then bs[x - a]?.getD (m x) else m x

/-- The `n` bytes at `a`. -/
def load (m : Mem) (a n : Nat) : List UInt8 :=
  (List.range n).map fun k => m (a + k)

theorem store_inside {m : Mem} {a k : Nat} {bs : List UInt8} (h : k < bs.length) :
    m.store a bs (a + k) = bs[k] := by
  simp [store, h]

theorem store_outside {m : Mem} {a x : Nat} {bs : List UInt8} (h : x < a ∨ a + bs.length ≤ x) :
    m.store a bs x = m x := by
  unfold store
  split
  · rw [List.getElem?_eq_none (by omega)]
    rfl
  · rfl

end Mem

/-! ## The flat view of a list of frames -/

namespace Paged

variable {ps : Nat} {frames : List Nat} {m m' m'' : Mem} {off i : Nat} {bs cs : List UInt8}

/-- The address of byte `i` of the flat array. -/
def addr (ps : Nat) (frames : List Nat) (i : Nat) : Option Nat :=
  frames[i / ps]?.map (· + i % ps)

/-- Byte `i` of the flat array. -/
def byte (ps : Nat) (frames : List Nat) (m : Mem) (i : Nat) : Option UInt8 :=
  (addr ps frames i).map m

/-- The frames do not overlap. -/
def Separate (ps : Nat) (frames : List Nat) : Prop :=
  frames.Pairwise fun f g => f + ps ≤ g ∨ g + ps ≤ f

/-- Frames at two places of the list do not overlap. -/
theorem Separate.of_lt {j k f g : Nat} (hsep : Separate ps frames) (hj : frames[j]? = some f)
    (hk : frames[k]? = some g) (hlt : j < k) : f + ps ≤ g ∨ g + ps ≤ f := by
  obtain ⟨hj', rfl⟩ := List.getElem?_eq_some_iff.mp hj
  obtain ⟨hk', rfl⟩ := List.getElem?_eq_some_iff.mp hk
  exact List.pairwise_iff_getElem.mp hsep j k hj' hk' hlt

/-- `m'` is `m` with the bytes `bs` at `off` of the flat array, and nothing else changed. -/
structure Patched (ps : Nat) (frames : List Nat) (off : Nat) (bs : List UInt8) (m m' : Mem) :
    Prop where
  inside : ∀ k < bs.length, byte ps frames m' (off + k) = bs[k]?
  outside : ∀ i, i < off ∨ off + bs.length ≤ i → byte ps frames m' i = byte ps frames m i
  elsewhere : ∀ x, (∀ f ∈ frames, x < f ∨ f + ps ≤ x) → m' x = m x

theorem Patched.refl (off : Nat) (m : Mem) : Patched ps frames off [] m m where
  inside _ hk := absurd hk (Nat.not_lt_zero _)
  outside _ _ := rfl
  elsewhere _ _ := rfl

theorem Patched.nil_offset (h : Patched ps frames off [] m m') (o : Nat) :
    Patched ps frames o [] m m' where
  inside _ hk := absurd hk (Nat.not_lt_zero _)
  outside i _ := h.outside i (by simp; omega)
  elsewhere := h.elsewhere

/-- Two strings written one after the other are one string. -/
theorem Patched.append (h : Patched ps frames off bs m m')
    (h' : Patched ps frames (off + bs.length) cs m' m'') :
    Patched ps frames off (bs ++ cs) m m'' where
  inside k hk := by
    rw [List.length_append] at hk
    by_cases hlt : k < bs.length
    · rw [h'.outside _ (by omega), h.inside k hlt, List.getElem?_append_left hlt]
    · have hin := h'.inside (k - bs.length) (by omega)
      rwa [show off + bs.length + (k - bs.length) = off + k by omega,
        ← List.getElem?_append_right (by omega)] at hin
  outside i hi := by
    rw [List.length_append] at hi
    rw [h'.outside i (by omega), h.outside i (by omega)]
  elsewhere x hx := (h'.elsewhere x hx).trans (h.elsewhere x hx)

/-- The same when the second string is written below the first. -/
theorem Patched.prepend (h : Patched ps frames (off + bs.length) cs m m')
    (h' : Patched ps frames off bs m' m'') : Patched ps frames off (bs ++ cs) m m'' where
  inside k hk := by
    rw [List.length_append] at hk
    by_cases hlt : k < bs.length
    · rw [h'.inside k hlt, List.getElem?_append_left hlt]
    · have hin := h.inside (k - bs.length) (by omega)
      rw [show off + bs.length + (k - bs.length) = off + k by omega] at hin
      rw [h'.outside _ (by omega), hin, ← List.getElem?_append_right (by omega)]
  outside i hi := by
    rw [List.length_append] at hi
    rw [h'.outside i (by omega), h.outside i (by omega)]
  elsewhere x hx := (h'.elsewhere x hx).trans (h.elsewhere x hx)

/-- Writing within one frame patches the flat array. -/
theorem Patched.store {j f o : Nat} (hsep : Separate ps frames) (hj : frames[j]? = some f)
    (ho : o + bs.length ≤ ps) (hlt : o < ps) :
    Patched ps frames (ps * j + o) bs m (m.store (f + o) bs) where
  inside k hk := by
    have hdiv : (ps * j + o + k) / ps = j := by
      rw [Nat.add_assoc, Nat.mul_add_div (by omega), Nat.div_eq_of_lt (by omega), Nat.add_zero]
    have hmod : (ps * j + o + k) % ps = o + k := by
      rw [Nat.add_assoc, Nat.mul_add_mod, Nat.mod_eq_of_lt (by omega)]
    rw [byte, addr, hdiv, hmod, hj, Option.map_some, Option.map_some, ← Nat.add_assoc,
      Mem.store_inside hk, List.getElem?_eq_getElem hk]
  outside i hi := by
    unfold byte addr
    cases hg : frames[i / ps]? with
    | none => rfl
    | some g =>
      have hmod : i % ps < ps := Nat.mod_lt _ (by omega)
      have hi' : ps * (i / ps) + i % ps = i := Nat.div_add_mod i ps
      simp only [Option.map_some, Option.some.injEq]
      refine Mem.store_outside ?_
      rcases Nat.lt_trichotomy (i / ps) j with hlt' | heq | hgt
      · have := Separate.of_lt hsep hg hj hlt'
        omega
      · obtain rfl : g = f := by rw [heq, hj] at hg; exact (Option.some.inj hg).symm
        rw [heq] at hi'
        omega
      · have := Separate.of_lt hsep hj hg hgt
        omega
  elsewhere x hx := by
    have := hx f (List.mem_of_getElem? hj)
    exact Mem.store_outside (by omega)

/-- Frames that do not overlap have no byte in common. -/
theorem add_ne_add {f g r r' : Nat} (h : f + ps ≤ g ∨ g + ps ≤ f) (hr : r < ps) (hr' : r' < ps) :
    f + r ≠ g + r' := by
  omega

theorem addr_eq_some {a : Nat} :
    addr ps frames i = some a ↔ ∃ f, frames[i / ps]? = some f ∧ f + i % ps = a := by
  rw [addr, Option.map_eq_some_iff]

/-- Two places of the flat array have different addresses. -/
theorem Separate.addr_inj {a j : Nat} (hps : 0 < ps) (hsep : Separate ps frames)
    (hi : addr ps frames i = some a) (hj : addr ps frames j = some a) : i = j := by
  obtain ⟨f, hf, rfl⟩ := addr_eq_some.mp hi
  obtain ⟨g, hg, hfg⟩ := addr_eq_some.mp hj
  have hri : i % ps < ps := Nat.mod_lt _ hps
  have hrj : j % ps < ps := Nat.mod_lt _ hps
  rcases Nat.lt_trichotomy (i / ps) (j / ps) with hlt | heq | hgt
  · exact absurd hfg.symm (add_ne_add (hsep.of_lt hf hg hlt) hri hrj)
  · rw [heq] at hf
    cases hf.symm.trans hg
    rw [← Nat.div_add_mod i ps, ← Nat.div_add_mod j ps, heq]
    omega
  · exact absurd hfg (add_ne_add (hsep.of_lt hg hf hgt) hrj hri)

/-! ## Filling a part of the flat array -/

variable {v : UInt8} {len : Nat}

theorem addr_cons_lt {f : Nat} (h : i < ps) : addr ps (f :: frames) i = some (f + i) := by
  rw [addr, Nat.div_eq_of_lt h, Nat.mod_eq_of_lt h]
  rfl

theorem addr_drop (hps : 0 < ps) (k i : Nat) :
    addr ps (frames.drop k) i = addr ps frames (ps * k + i) := by
  rw [addr, addr, List.getElem?_drop, Nat.mul_add_div hps, Nat.mul_add_mod]

theorem addr_cons_add (hps : 0 < ps) (f : Nat) : addr ps (f :: frames)
    (ps + i) = addr ps frames i := by
  have h : addr ps ((f :: frames).drop 1) i = addr ps (f :: frames) (ps * 1 + i) :=
    addr_drop hps 1 i
  rw [Nat.mul_one] at h
  exact h.symm

/-- `m'` is `m` with the byte `v` in the `len` places from `off` on, as far as the array goes. -/
structure Filled (ps : Nat) (frames : List Nat) (off len : Nat) (v : UInt8)
    (m m' : Mem) : Prop where
  inside : ∀ i x, off ≤ i → i < off + len → addr ps frames i = some x → m' x = v
  outside : ∀ x, (∀ i, off ≤ i → i < off + len → addr ps frames i ≠ some x) → m' x = m x

theorem Filled.nil (off len : Nat) (m : Mem) : Filled ps [] off len v m m where
  inside _ _ _ _ h := by cases h
  outside _ _ := rfl

theorem Filled.zero (off : Nat) (m : Mem) : Filled ps frames off 0 v m m where
  inside _ _ hi hi' _ := absurd hi (by omega)
  outside _ _ := rfl

/-- Filling the first frame from `off` on, and then the others. -/
theorem Filled.cons {f : Nat} (hoff : off < ps)
    (h : Filled ps frames 0 (len - min (ps - off) len) v
    (m.fill (f + off) (min (ps - off) len) v) m') :
    Filled ps (f :: frames) off len v m m' where
  inside i x hi hlt hx := by
    by_cases hips : i < ps
    · rw [addr_cons_lt hips] at hx
      cases hx
      by_cases hhit : ∃ j, j < len - min (ps - off) len ∧ addr ps frames j = some (f + i)
      · obtain ⟨j, hj, haddr⟩ := hhit
        exact h.inside j _ (Nat.zero_le _) (by omega) haddr
      · rw [h.outside _ fun j _ hj haddr => hhit ⟨j, by omega, haddr⟩]
        exact if_pos (by omega)
    · obtain ⟨j, rfl⟩ := Nat.exists_eq_add_of_le (Nat.le_of_not_lt hips)
      rw [addr_cons_add (by omega)] at hx
      exact h.inside j x (Nat.zero_le _) (by omega) hx
  outside x hx := by
    rw [h.outside x fun j _ hj haddr => ?_]
    · refine if_neg fun hin => hx (x - f) (by omega) (by omega) ?_
      rw [addr_cons_lt (by omega)]
      congr 1
      omega
    · refine hx (ps + j) (by omega) (by omega) ?_
      rwa [addr_cons_add (by omega)]

/-- Filling the frames from frame `k` on. -/
theorem Filled.of_drop {k : Nat} (hps : 0 < ps) (h : Filled ps (frames.drop k) off len v m m') :
    Filled ps frames (ps * k + off) len v m m' where
  inside i x hi hlt hx := by
    obtain ⟨j, rfl⟩ := Nat.exists_eq_add_of_le ((Nat.le_add_right (ps * k) off).trans hi)
    rw [← addr_drop hps] at hx
    exact h.inside j x (by omega) (by omega) hx
  outside x hx := h.outside x fun i hi hlt haddr =>
    hx (ps * k + i) (by omega) (by omega) (by rwa [← addr_drop hps])

end Paged

end Osdev.Lib
