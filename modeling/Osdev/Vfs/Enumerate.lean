import Osdev.Vfs.Dir
import Osdev.Vfs.ReadBack
import Mathlib.Data.List.Forall2

/-!
# Reading a whole directory

`ramfs_vn_readdir` returns how far it got in the list of entries, and `fs_readdir` adds this to the
offset of the file. For an offset behind `..` the entries that are skipped count once more, so the
next call starts too far back in the list: what lies between is lost.
-/

namespace Osdev.Vfs

open Osdev.Lib

variable {name : Str} {ino : Nat} {o : Int}
variable {n : Nat} {st : Nat → UInt8} {type : VType} {node : RamfsNode}

/-! ## What a sequence of calls yields

The list `T` has the names `.` and `..` and those of the entries; call number `j` has room for `c j`
records and the stack behind the name of record `k` is `stale j k`. -/

/-- A name as the record shows it. -/
def shown (stale : UInt8) (name : Str) : Str := if stale = 0 then name else name ++ [stale]

/-- The room of the first calls together. -/
def roomBefore (c : Nat → Nat) : Nat → Nat
  | 0 => 0
  | j + 1 => roomBefore c j + c j

/-- The names in the records of one call at the position `p`. -/
def chunk (T : List Str) (c : Nat) (stale : Nat → UInt8) (p : Nat) : List Str :=
  ((T.drop p).take c).mapIdx fun k name => shown (stale k) name

/-- The position after that call: it moves by the number of records, and by the number of entries
that were skipped. -/
def nextPos (T : List Str) (c p : Nat) : Nat :=
  p + min c (T.length - p) + min (p - 2) (T.length - 2)

/-- The names that calls from number `j` on yield from the position `p`, up to the first empty
one. -/
def yields (T : List Str) (c : Nat → Nat) (stale : Nat → Nat → UInt8) : Nat → Nat → Nat → List Str
  | 0, _, _ => []
  | fuel + 1, j, p =>
    if T.length ≤ p then []
    else chunk T (c j) (stale j) p ++ yields T c stale fuel (j + 1) (nextPos T (c j) p)

/-- Each call that begins behind the first entry of the directory has room for all that is left. -/
def EndsAtOnce (len : Nat) (c : Nat → Nat) : Prop :=
  ∀ j, 2 < roomBefore c j → roomBefore c j < len → len ≤ roomBefore c (j + 1)

/-- The stack is zero behind each name. -/
def CleanStack (len : Nat) (c : Nat → Nat) (stale : Nat → Nat → UInt8) : Prop :=
  ∀ j k, k < c j → roomBefore c j + k < len → stale j k = 0

section Yields

variable {T : List Str} {c : Nat → Nat} {stale : Nat → Nat → UInt8} {fuel j p : Nat}

theorem shown_eq_iff {b : UInt8} : shown b name = name ↔ b = 0 := by
  unfold shown
  split <;> simp [*]

theorem length_chunk : (chunk T n st p).length = min n (T.length - p) := by
  simp [chunk]

theorem chunk_eq_take_iff :
    chunk T n st p = (T.drop p).take n ↔ ∀ k, k < n → p + k < T.length → st k = 0 := by
  have hget : ∀ k, k < n → ((T.drop p).take n)[k]? = T[p + k]? := by
    intro k hk
    rw [List.getElem?_take_of_lt hk, List.getElem?_drop]
  unfold chunk
  constructor
  · intro h k hk hlt
    have hsame := congrArg (·[k]?) h
    simp only [List.getElem?_mapIdx, hget k hk, List.getElem?_eq_getElem hlt, Option.map_some,
      Option.some.injEq] at hsame
    exact shown_eq_iff.mp hsame
  · intro h
    refine List.ext_getElem? fun k => ?_
    rw [List.getElem?_mapIdx]
    by_cases hk : k < n
    · rw [hget k hk]
      by_cases hlt : p + k < T.length
      · rw [List.getElem?_eq_getElem hlt, Option.map_some, shown_eq_iff.mpr (h k hk hlt)]
      · rw [List.getElem?_eq_none (Nat.le_of_not_lt hlt)]
        rfl
    · rw [List.getElem?_take_eq_none (Nat.le_of_not_lt hk)]
      rfl

theorem yields_end (h : T.length ≤ p) : yields T c stale fuel j p = [] := by
  cases fuel with
  | zero => rfl
  | succ fuel => exact if_pos h

theorem yields_succ (h : p < T.length) : yields T c stale (fuel + 1) j p =
    chunk T (c j) (stale j) p ++ yields T c stale fuel (j + 1) (nextPos T (c j) p) :=
  if_neg (Nat.not_le_of_lt h)

theorem yields_length_le : (yields T c stale fuel j p).length ≤ T.length - p := by
  induction fuel generalizing j p with
  | zero => exact Nat.zero_le _
  | succ fuel ih =>
    by_cases hp : T.length ≤ p
    · rw [yields_end hp]
      exact Nat.zero_le _
    · have hrest := @ih (j + 1) (nextPos T (c j) p)
      rw [yields_succ (Nat.lt_of_not_le hp), List.length_append, length_chunk]
      unfold nextPos at hrest ⊢
      omega

theorem le_roomBefore (hc : ∀ j, 1 ≤ c j) : j ≤ roomBefore c j := by
  induction j with
  | zero => exact le_rfl
  | succ j ih =>
    have := hc j
    rw [roomBefore]
    omega

/-- If a call and those after it yield all that is left, then nothing is shown wrongly, and nothing
is skipped. -/
theorem yields_step (hp : p < T.length) (h : yields T c stale (fuel + 1) j p = T.drop p) :
    (∀ k, k < c j → p + k < T.length → stale j k = 0) ∧ (2 < p → T.length ≤ p + c j) ∧
      (p + c j < T.length → yields T c stale fuel (j + 1) (p + c j) = T.drop (p + c j)) := by
  rw [yields_succ hp, ← List.take_append_drop (c j) (T.drop p), List.drop_drop] at h
  obtain ⟨hchunk, hrest⟩ := List.append_inj h (by simp [length_chunk])
  have hlast : 2 < p → T.length ≤ p + c j := by
    intro h2
    by_contra hroom
    have hlen := congrArg List.length hrest
    have hle := @yields_length_le T c stale fuel (j + 1) (nextPos T (c j) p)
    rw [hlen, List.length_drop] at hle
    unfold nextPos at hle
    omega
  refine ⟨chunk_eq_take_iff.mp hchunk, hlast, fun hroom => ?_⟩
  have hnext : nextPos T (c j) p = p + c j := by
    unfold nextPos
    omega
  rwa [hnext] at hrest

/-- When calls yield everything, each one goes on where the room of those before it ends. -/
theorem yields_from (hc : ∀ j, 1 ≤ c j) (hfuel : T.length ≤ fuel)
    (h : yields T c stale fuel 0 0 = T) (hj : roomBefore c j < T.length) :
    yields T c stale (fuel - j) j (roomBefore c j) = T.drop (roomBefore c j) := by
  induction j with
  | zero => exact h
  | succ j ih =>
    have hlt : roomBefore c j < T.length := by
      rw [roomBefore] at hj
      omega
    have hle : j ≤ roomBefore c j := le_roomBefore hc
    have hsucc : fuel - j = fuel - (j + 1) + 1 := by omega
    have hstep := ih hlt
    rw [hsucc] at hstep
    exact (yields_step hlt hstep).2.2 hj

/-- Calls that end at once with a clean stack yield everything. -/
theorem yields_of_endsAtOnce (hc : ∀ j, 1 ≤ c j) (hends : EndsAtOnce T.length c)
    (hclean : CleanStack T.length c stale) (hfuel : T.length ≤ roomBefore c j + fuel) :
    yields T c stale fuel j (roomBefore c j) = T.drop (roomBefore c j) := by
  induction fuel generalizing j with
  | zero =>
    rw [List.drop_eq_nil_of_le (by omega)]
    rfl
  | succ fuel ih =>
    by_cases hp : T.length ≤ roomBefore c j
    · rw [yields_end hp, List.drop_eq_nil_of_le hp]
    · rw [yields_succ (Nat.lt_of_not_le hp),
        chunk_eq_take_iff.mpr fun k hk hlt => hclean j k hk hlt]
      have hcj := hc j
      have hroom : roomBefore c (j + 1) = roomBefore c j + c j := rfl
      by_cases hlast : T.length ≤ roomBefore c (j + 1)
      · -- this call has room for the rest
        have hend : T.length ≤ nextPos T (c j) (roomBefore c j) := by
          unfold nextPos
          omega
        rw [yields_end hend, List.append_nil, List.take_of_length_le]
        rw [List.length_drop]
        omega
      · have hfirst : roomBefore c j ≤ 2 := by
          by_contra h2
          exact hlast (hends j (by omega) (by omega))
        have hnext : nextPos T (c j) (roomBefore c j) = roomBefore c (j + 1) := by
          unfold nextPos
          omega
        rw [hnext, ih (by omega), hroom, ← List.drop_drop, List.take_append_drop]

/-- The calls yield everything in order exactly if no call has to end inside the directory after one
that began inside it, and the stack is clean. -/
theorem yields_eq_iff (hc : ∀ j, 1 ≤ c j) (hfuel : T.length ≤ fuel) :
    yields T c stale fuel 0 0 = T ↔ EndsAtOnce T.length c ∧ CleanStack T.length c stale := by
  constructor
  · intro h
    have hstep : ∀ j, roomBefore c j < T.length →
        yields T c stale (fuel - (j + 1) + 1) j (roomBefore c j) = T.drop (roomBefore c j) := by
      intro j hj
      have hle : j ≤ roomBefore c j := le_roomBefore hc
      have hsucc : fuel - (j + 1) + 1 = fuel - j := by omega
      rw [hsucc]
      exact yields_from hc hfuel h hj
    refine ⟨fun j h2 hj => (yields_step hj (hstep j hj)).2.1 h2, fun j k hk hlt => ?_⟩
    exact (yields_step (by omega) (hstep j (by omega))).1 k hk hlt
  · rintro ⟨hends, hclean⟩
    exact yields_of_endsAtOnce hc hends hclean (by omega)

/-- What is yielded are names of the list in its order, each of them as it is shown. -/
theorem yields_sublist : ∃ L, L.Sublist (T.drop p) ∧
    List.Forall₂ (fun a b => ∃ st, b = shown st a) L (yields T c stale fuel j p) := by
  induction fuel generalizing j p with
  | zero => exact ⟨[], List.nil_sublist _, .nil⟩
  | succ fuel ih =>
    by_cases hp : T.length ≤ p
    · rw [yields_end hp]
      exact ⟨[], List.nil_sublist _, .nil⟩
    · obtain ⟨L, hsub, hshown⟩ := @ih (j + 1) (nextPos T (c j) p)
      refine ⟨(T.drop p).take (c j) ++ L, ?_, ?_⟩
      · have hskip : L.Sublist ((T.drop p).drop (c j)) := by
          by_cases hroom : p + c j ≤ T.length
          · have hle : p + c j ≤ nextPos T (c j) p := by
              unfold nextPos
              omega
            rw [List.drop_drop]
            exact hsub.trans (List.drop_sublist_drop_left T hle)
          · have hend : T.length ≤ nextPos T (c j) p := by
              unfold nextPos
              omega
            rw [List.drop_eq_nil_of_le hend] at hsub
            rw [List.eq_nil_of_sublist_nil hsub]
            exact List.nil_sublist _
        calc
          ((T.drop p).take (c j) ++ L).Sublist ((T.drop p).take (c j) ++ (T.drop p).drop (c j)) :=
              List.Sublist.append (.refl _) hskip
          _ = T.drop p := List.take_append_drop _ _
      · rw [yields_succ (Nat.lt_of_not_le hp)]
        refine List.rel_append ?_ hshown
        refine List.forall₂_iff_get.mpr ⟨by simp [length_chunk], fun k h1 h2 => ⟨stale j k, ?_⟩⟩
        simp [chunk]

theorem length_le_shown {st : UInt8} : name.length ≤ (shown st name).length := by
  unfold shown
  split <;> simp

/-- Names that are shown with no more bytes than they have are shown as they are. -/
theorem eq_of_shown {L Y : List Str} (h : List.Forall₂ (fun a b => ∃ st, b = shown st a) L Y) :
    (L.map List.length).sum ≤ (Y.map List.length).sum ∧
      ((Y.map List.length).sum = (L.map List.length).sum → Y = L) := by
  induction h with
  | nil => exact ⟨le_rfl, fun _ => rfl⟩
  | @cons name b L Y hshown _ ih =>
    obtain ⟨st, rfl⟩ := hshown
    have hle : name.length ≤ (shown st name).length := length_le_shown
    simp only [List.map_cons, List.sum_cons]
    refine ⟨by omega, fun hsum => ?_⟩
    have hname : shown st name = name := by
      unfold shown at hle hsum ⊢
      split
      · rfl
      next hst =>
        rw [if_neg hst, List.length_append, List.length_singleton] at hsum
        omega
    rw [hname, ih.2 (by omega)]

theorem yields_perm_iff : (yields T c stale fuel j 0).Perm T ↔ yields T c stale fuel j 0 = T := by
  refine ⟨fun h => ?_, List.Perm.of_eq⟩
  obtain ⟨L, hsub, hshown⟩ := @yields_sublist T c stale fuel j 0
  obtain rfl : L = T := hsub.eq_of_length (hshown.length_eq.trans h.length_eq)
  exact (eq_of_shown hshown).2 (h.map List.length).sum_nat

end Yields

/-! ## Directories -/

/-- The pointers are those of directory entries with these names, which are C strings of at most
`NAME_MAX` bytes. -/
def HasNames (s : Fs) (ds : List Nat) (names : List Str) : Prop :=
  List.Forall₂ (fun d name => d ≠ 0 ∧ name.length ≤ nameMax ∧ 0 ∉ name ∧ ∃ dent node,
    s.dentry d = some dent ∧ dent.name = name ∧ dent.node ≠ 0 ∧
      s.node dent.node = some node) ds names

/-- The vnode is a directory with entries of these names. -/
def IsDir (s : Fs) (vn : Nat) (names : List Str) : Prop :=
  vn ≠ 0 ∧ ∃ n node, s.vnode vn = some n ∧ n.type = .dir ∧ n.ops ≠ none ∧ n.data ≠ 0 ∧
    s.node n.data = some node ∧ HasNames s node.dir names

/-- The names that reading a directory should give. -/
def listing (names : List Str) : List Str := [dot] :: [dot, dot] :: names

/-- The records in the buffer have these names. -/
structure Dirbuf.Holds (b : Dirbuf) (reclen size : Nat) (stale : Nat → UInt8)
    (L : List Str) : Prop where
  reclen_eq : b.reclen = reclen
  size_eq : b.size = size
  stale_eq : b.stale = stale
  names : b.records.map Dirent.name = L.mapIdx fun k name => shown (stale k) name

section Fill

variable {s : Fs} {ds : List Nat} {names L : List Str} {reclen size off i : Nat}
  {stale : Nat → UInt8}
  {b : Dirbuf}

theorem Dirbuf.Holds.length (h : b.Holds reclen size stale L) : b.records.length = L.length := by
  have := congrArg List.length h.names
  simpa using this

theorem dirent_name {type : DType} {st : UInt8} (hlen : name.length ≤ nameMax) (hzero : 0 ∉ name) :
    (⟨ino, o, type, cstrMemcpy name st dNameLen⟩ : Dirent).name = shown st name := by
  have hfits : name.length + 1 ≤ dNameLen := by
    unfold nameMax at hlen
    unfold dNameLen
    omega
  have hname : ∀ x ∈ name, decide (x ≠ 0) = true := fun x hx => by
    simpa using ne_of_mem_of_not_mem hx hzero
  rw [Dirent.name, cstrMemcpy, shown, if_pos hfits, List.takeWhile_append_of_pos hname]
  split
  next hst => simp [hst]
  next hst => simp [hst]

/-- Writing a record when there is room. -/
theorem kioWriteDirent_room (h : b.Holds reclen size stale L)
    (hreclen : 0 < reclen) (hroom : L.length < size / reclen) (hlen : name.length ≤ nameMax)
    (hzero : 0 ∉ name) :
    ∃ b', kioWriteDirent ino o type name b s = .ok ((reclen, b'), s) ∧
      b'.Holds reclen size stale (L ++ [name]) := by
  have hfits : (L.length + 1) * reclen ≤ size :=
    (Nat.le_div_iff_mul_le hreclen).mp hroom
  have hremaining : ¬ b.remaining < b.reclen := by
    rw [Dirbuf.remaining, h.size_eq, h.length, h.reclen_eq]
    rw [Nat.add_mul] at hfits
    omega
  have hname : ¬ name.length > dNameLen := by
    unfold nameMax at hlen
    unfold dNameLen
    omega
  rw [kioWriteDirent, if_neg hname, if_neg hremaining, h.reclen_eq]
  refine ⟨_, rfl, ⟨rfl, h.size_eq, h.stale_eq, ?_⟩⟩
  rw [List.map_append, h.names, List.map_singleton, dirent_name hlen hzero, h.length,
    h.stale_eq]
  simp

theorem kioWriteDirent_full (h : b.Holds reclen size stale L)
    (hreclen : 0 < reclen) (hroom : size / reclen ≤ L.length) (hlen : name.length ≤ nameMax) :
    kioWriteDirent ino o type name b s = .ok ((0, b), s) := by
  have hfull : size < (L.length + 1) * reclen :=
    (Nat.div_lt_iff_lt_mul hreclen).mp (Nat.lt_succ_of_le hroom)
  have hremaining : b.remaining < b.reclen := by
    rw [Dirbuf.remaining, h.size_eq, h.length, h.reclen_eq]
    rw [Nat.add_mul] at hfull
    omega
  have hname : ¬ name.length > dNameLen := by
    unfold nameMax at hlen
    unfold dNameLen
    omega
  rw [kioWriteDirent, if_neg hname, if_pos hremaining]
  rfl

/-- The loop first skips entries. -/
theorem readdirLoop_skip :
    readdirLoop off ds i b = readdirLoop off (ds.drop (off - i))
      (i + min (off - i) ds.length) b := by
  induction ds generalizing i with
  | nil => simp
  | cons d ds ih =>
    by_cases hi : i < off
    · have hdrop : off - i = off - (i + 1) + 1 := by omega
      rw [readdirLoop, if_pos hi, ih, hdrop, List.length_cons]
      congr 1
      omega
    · have hzero : off - i = 0 := by omega
      rw [hzero]
      simp

/-- Then it writes a record for each entry, as long as there is room. -/
theorem readdirLoop_fill (h : b.Holds reclen size stale L) (hreclen : 0 < reclen)
    (hroom : L.length ≤ size / reclen) (hi : off ≤ i) (hds : HasNames s ds names) :
    ∃ b', readdirLoop off ds i b s =
        .ok ((i + min (size / reclen - L.length) names.length, b'), s) ∧
      b'.Holds reclen size stale (L ++ names.take (size / reclen - L.length)) := by
  induction hds generalizing i b L with
  | nil => exact ⟨b, by simp [readdirLoop, run_pure], by simpa using h⟩
  | @cons d name ds names hd hrest ih =>
    obtain ⟨hd0, hlen, hzero, dent, node, hdent, rfl, hnode0, hnode⟩ := hd
    have hgetd : getDentry d s = .ok (dent, s) := deref_run hd0 hdent
    have hgetn : getNode dent.node s = .ok (node, s) := deref_run hnode0 hnode
    rw [readdirLoop, if_neg (Nat.not_lt_of_le hi), run_bind hgetd, run_bind hgetn]
    by_cases hfull : size / reclen ≤ L.length
    · have hzero : size / reclen - L.length = 0 := by omega
      rw [run_bind (kioWriteDirent_full h hreclen hfull hlen), hzero]
      exact ⟨b, by simp [run_pure], by simpa using h⟩
    · obtain ⟨b1, hwrite, hb1⟩ : ∃ b1, kioWriteDirent node.id i node.type dent.name b s =
          .ok ((reclen, b1), s) ∧ b1.Holds reclen size stale (L ++ [dent.name]) :=
        kioWriteDirent_room h hreclen (Nat.lt_of_not_le hfull) hlen hzero
      rw [run_bind hwrite]
      obtain ⟨b', hrun, hb'⟩ := ih (i := i + 1) hb1 (by simp; omega) (by omega)
      have hsucc : size / reclen - L.length = size / reclen - (L ++ [dent.name]).length + 1 := by
        simp
        omega
      refine ⟨b', ?_, ?_⟩
      · dsimp only
        rw [if_neg (by omega), hrun, List.length_cons]
        congr 3
        omega
      · rw [hsucc]
        simpa using hb'

theorem HasNames.drop (h : HasNames s ds names) (k : Nat) : HasNames s (ds.drop k) (names.drop k) :=
  List.forall₂_drop k h

/-- The entries of the directory: those before the offset are counted, the others are written. -/
theorem readdirEntries_run {n : Vnode} (off i : Nat)
    (h : b.Holds reclen size stale L) (hreclen : 0 < reclen) (hroom : L.length ≤ size / reclen)
    (hdata : n.data ≠ 0)
    (hnode : s.node n.data = some node) (hds : HasNames s node.dir names) :
    ∃ b', readdirEntries n off i b s = .ok ((i + min (off - i) names.length +
        min (size / reclen - L.length) (names.length - (off - i)), b'), s) ∧
      b'.Holds reclen size stale (L ++ (names.drop (off - i)).take (size / reclen - L.length)) := by
  have hget : getNode n.data s = .ok (node, s) := deref_run hdata hnode
  have hlen : node.dir.length = names.length := List.Forall₂.length_eq hds
  rw [readdirEntries, run_bind hget, readdirLoop_skip, hlen]
  by_cases hend : names.length ≤ off - i
  · -- the offset is behind the last entry
    rw [List.drop_eq_nil_of_le (by omega), List.drop_eq_nil_of_le hend]
    refine ⟨b, ?_, by simpa using h⟩
    have hzero : names.length - (off - i) = 0 := by omega
    rw [hzero, Nat.min_zero]
    rfl
  · have hi : off ≤ i + min (off - i) names.length := by omega
    obtain ⟨b', hrun, hb'⟩ := readdirLoop_fill h hreclen hroom hi (hds.drop (off - i))
    exact ⟨b', by rw [hrun, List.length_drop], hb'⟩

theorem dot_zero : 0 ∉ [dot] := by decide
theorem dotdot_zero : 0 ∉ [dot, dot] := by decide

/-- What `ramfs_vn_readdir` writes to an empty buffer that has room for a record, and where the next
call goes on. -/
theorem ramfsVnReaddir_run {n : Vnode} (off : Nat)
    (h : b.Holds reclen size stale []) (hreclen : 0 < reclen) (hroom : reclen ≤ size)
    (hdata : n.data ≠ 0)
    (hnode : s.node n.data = some node) (hds : HasNames s node.dir names) :
    ∃ r b', ramfsVnReaddir n off b s = .ok ((r, b'), s) ∧
      off + r = nextPos (listing names) (size / reclen) off ∧
      b'.Holds reclen size stale (((listing names).drop off).take (size / reclen)) := by
  have hone : 1 ≤ size / reclen := (Nat.le_div_iff_mul_le hreclen).mpr (by omega)
  have hlist : (listing names).length = names.length + 2 := rfl
  obtain rfl | rfl | ⟨k, rfl⟩ : off = 0 ∨ off = 1 ∨ ∃ k, off = k + 2 := by
    match off with
    | 0 => exact .inl rfl
    | 1 => exact .inr (.inl rfl)
    | k + 2 => exact .inr (.inr ⟨k, rfl⟩)
  · -- `.` and `..` come first
    obtain ⟨b1, hdot, hb1⟩ : ∃ b1, kioWriteDirent n.id (0 : Nat) .dir [dot] b s =
        .ok ((reclen, b1), s) ∧ b1.Holds reclen size stale ([] ++ [[dot]]) :=
      kioWriteDirent_room h hreclen hone (by decide) dot_zero
    rw [ramfsVnReaddir, if_pos rfl, run_bind hdot]
    dsimp only
    rw [if_neg (by omega)]
    rw [readdirDotdot, if_pos (Nat.zero_le _)]
    by_cases hfull : size / reclen ≤ 1
    · have hsize : size / reclen = 1 := by omega
      have hfullw : kioWriteDirent n.parentId (0 : Nat) .dir [dot, dot] b1 s = .ok ((0, b1), s) :=
        kioWriteDirent_full hb1 hreclen hfull (by decide)
      rw [run_bind hfullw]
      refine ⟨1, b1, rfl, ?_, ?_⟩
      · unfold nextPos
        omega
      · rwa [hsize]
    · obtain ⟨b2, hdots, hb2⟩ : ∃ b2, kioWriteDirent n.parentId (0 : Nat) .dir [dot, dot] b1 s =
          .ok ((reclen, b2), s) ∧ b2.Holds reclen size stale ([] ++ [[dot]] ++ [[dot, dot]]) :=
        kioWriteDirent_room hb1 hreclen (Nat.lt_of_not_le hfull) (by decide) dotdot_zero
      rw [run_bind hdots]
      dsimp only
      rw [if_neg (by omega)]
      obtain ⟨b', hrun, hb'⟩ := readdirEntries_run 0 2 hb2 hreclen (by simp; omega) hdata hnode hds
      refine ⟨_, b', hrun, ?_, ?_⟩
      · unfold nextPos
        simp
        omega
      · have htake : (listing names).take (size / reclen) =
            [[dot], [dot, dot]] ++ names.take (size / reclen - 2) := by
          obtain ⟨m, hm⟩ := Nat.exists_eq_add_of_lt (Nat.lt_of_not_le hfull)
          rw [show size / reclen = m + 2 by omega]
          rfl
        rwa [List.drop_zero, htake]
  · obtain ⟨b1, hdots, hb1⟩ : ∃ b1, kioWriteDirent n.parentId (1 : Nat) .dir [dot, dot] b s =
        .ok ((reclen, b1), s) ∧ b1.Holds reclen size stale ([] ++ [[dot, dot]]) :=
      kioWriteDirent_room h hreclen hone (by decide) dotdot_zero
    rw [ramfsVnReaddir, if_neg (by decide)]
    rw [readdirDotdot, if_pos le_rfl, run_bind hdots]
    dsimp only
    rw [if_neg (by omega)]
    obtain ⟨b', hrun, hb'⟩ := readdirEntries_run 1 1 hb1 hreclen
      (by simpa using hone) hdata hnode hds
    refine ⟨_, b', hrun, ?_, ?_⟩
    · unfold nextPos
      simp
      omega
    · have htake : ((listing names).drop 1).take (size / reclen) =
          [[dot, dot]] ++ names.take (size / reclen - 1) := by
        obtain ⟨m, hm⟩ := Nat.exists_eq_add_of_le hone
        rw [show size / reclen = m + 1 by omega]
        rfl
      rwa [htake]
  · -- the offset is behind `..`
    obtain ⟨b', hrun, hb'⟩ := readdirEntries_run k 0 h hreclen (Nat.zero_le _) hdata hnode hds
    refine ⟨_, b', hrun, ?_, by simpa [listing] using hb'⟩
    unfold nextPos
    simp
    omega

end Fill

/-! ## Calls -/

section Calls

variable {s : Sys} {fd : Int} {vn p reclen len q fuel j : Nat} {f : File} {names : List Str}

/-- One call of `fs_readdir`. -/
theorem Descriptor.readdir (h : Descriptor s fd vn p f) (hdir : IsDir s.fs vn names)
    (hoff : f.offset = q) (hreclen : 0 < reclen) (hlen : reclen ≤ len) (stale : Nat → UInt8) :
    ∃ recs, fsReaddir reclen fd len stale s = .ok ((.ok (recs.length * reclen), recs),
        s.setFile p (f.at (nextPos (listing names) (len / reclen) q))) ∧
      recs.map Dirent.name = chunk (listing names) (len / reclen) stale q := by
  obtain ⟨hvn, n, node, hn, htype, hops, hdata, hnode, hds⟩ := hdir
  obtain rfl := h.vnode
  obtain ⟨ops, hops⟩ := Option.ne_none_iff_exists'.mp hops
  have hvnode : ∀ t : Sys, t.fs.vnode = s.fs.vnode → getVn f.used.vnode t.fs = .ok (n, t.fs) :=
    fun t ht => getVn_run hvn (ht ▸ hn)
  have hvnops : ∀ t : Fs, vnOps n t = .ok (ops, t) := fun t => by
    rw [vnOps, hops]
    rfl
  let s1 := (s.setFile p f.used).lock (.file p)
  obtain ⟨r, b', hrun, hnext, hb'⟩ := ramfsVnReaddir_run (s := s1.fs)
    (b := ⟨reclen, len, stale, []⟩) q ⟨rfl, rfl, rfl, rfl⟩ hreclen hlen hdata hnode hds
  have hread : vnReaddir f.used.vnode f.used.offset ⟨reclen, len, stale, []⟩ s1.fs =
      .ok ((.ok r, b'), s1.fs) := by
    have hq : f.used.offset = q := hoff
    rw [vnReaddir, run_bind (hvnode s1 rfl), if_neg (by simp [htype]), run_bind (hvnops _), hq,
      if_neg (by omega), Int.toNat_natCast, run_bind hrun]
    rfl
  have hstart : fsReaddir reclen fd len stale s = readdirLocked reclen p f.used.vnode len
      stale s1 := by
    rw [fsReaddir, run_bind h.curFile, if_neg h.ptr, run_bind (onFs_look (getFile_setFile h.ptr)),
      run_bind (onFs_look (hvnode (s.setFile p f.used) rfl)), if_neg (by simp [htype]),
      run_bind h.lock, if_pos rfl]
  have hadvance : advance p (.ok r) (s.setFile p f.used).fs =
      .ok ((), ((s.setFile p f.used).setFile p (f.used.at (f.used.offset + r))).fs) := by
    simp only [advance]
    rw [run_bind (getFile_setFile h.ptr)]
    rfl
  refine ⟨b'.records, ?_, hb'.names⟩
  rw [hstart]
  unfold readdirLocked
  rw [run_bind (onFs_look (s := s1) (getFile_setFile h.ptr)), run_bind (onFs_look hread)]
  dsimp only
  rw [run_bind (onFs_locked hadvance), Sys.setFile_setFile]
  refine (h.finish (f.used.at (f.used.offset + r)) rfl _).trans ?_
  have hpos : f.used.offset + r = nextPos (listing names) (len / reclen) q := by
    rw [← hnext]
    exact congrArg (· + (r : Int)) hoff
  rw [hpos]
  rfl

/-- Calling `fs_readdir` until it returns 0. -/
def readAll (reclen : Nat) (fd : Int) (len : Nat → Nat) (stale : Nat → Nat → UInt8) :
    Nat → Nat → SysM (Except Errno (List Dirent))
  | 0, _ => throw (.fault .diverged)
  | fuel + 1, j => do
    let (r, recs) ← fsReaddir reclen fd (len j) (stale j)
    match r with
    | .error e => pure (.error e)
    | .ok n =>
      if n = 0 then pure (.ok [])
      else do
        let rest ← readAll reclen fd len stale fuel (j + 1)
        pure (rest.map (recs ++ ·))

/-- The descriptor is open at the start of a directory with entries of these names. -/
def FreshDir (s : Sys) (fd : Int) (names : List Str) : Prop :=
  ∃ vn p f, Descriptor s fd vn p f ∧ f.offset = 0 ∧ IsDir s.fs vn names

/-- Calling `fs_readdir` until it returns 0 ends, with `.`, `..` and each entry exactly once. -/
def Enumerates (reclen : Nat) (fd : Int) (len : Nat → Nat) (stale : Nat → Nat → UInt8) (s : Sys)
    (names : List Str) : Prop :=
  ∃ k, ∀ fuel, k ≤ fuel → ∃ recs s', readAll reclen fd len stale fuel 0 s = .ok (.ok recs, s') ∧
    (recs.map Dirent.name).Perm (listing names)

variable {lens : Nat → Nat} {stale : Nat → Nat → UInt8}

/-- The calls from a position on. -/
theorem readAll_run (h : Descriptor s fd vn p f) (hdir : IsDir s.fs vn names) (hoff : f.offset = q)
    (hreclen : 0 < reclen) (hlen : ∀ j, reclen ≤ lens j)
    (hfuel : (listing names).length - q < fuel) :
    ∃ recs s', readAll reclen fd lens stale fuel j s = .ok (.ok recs, s') ∧
      recs.map Dirent.name = yields (listing names) (fun j => lens j / reclen) stale fuel j q := by
  -- a call that returns records moves the position on
  induction fuel generalizing s f j q with
  | zero => omega
  | succ fuel ih =>
    obtain ⟨recs, hcall, hrecs⟩ := h.readdir hdir hoff hreclen (hlen j) (stale j)
    have hcount : recs.length = min (lens j / reclen) ((listing names).length - q) := by
      rw [← List.length_map, hrecs, length_chunk]
    have hroom : 1 ≤ lens j / reclen :=
      (Nat.le_div_iff_mul_le hreclen).mpr (by have := hlen j; omega)
    rw [readAll, run_bind hcall]
    dsimp only
    by_cases hend : (listing names).length ≤ q
    · have hzero : recs.length * reclen = 0 := by
        rw [hcount, Nat.sub_eq_zero_of_le hend, Nat.min_zero, Nat.zero_mul]
      rw [if_pos hzero]
      exact ⟨[], _, rfl, (yields_end hend).symm⟩
    · have hpos : ¬ recs.length * reclen = 0 := by
        refine Nat.ne_of_gt (Nat.mul_pos ?_ hreclen)
        omega
      rw [if_neg hpos]
      have hnext : q + 1 ≤ nextPos (listing names) (lens j / reclen) q := by
        unfold nextPos
        omega
      obtain ⟨rest, s', hrun, hrest⟩ := ih
        (q := nextPos (listing names) (lens j / reclen) q) (h.at (Int.natCast_nonneg _)) hdir rfl
        (by omega)
      rw [run_bind hrun]
      refine ⟨recs ++ rest, s', rfl, ?_⟩
      rw [List.map_append, hrecs, hrest, yields_succ (Nat.lt_of_not_le hend)]

/-- More fuel gives the same records. -/
theorem readAll_mono {k : Nat} {r : Except Errno (List Dirent) × Sys}
    (h : readAll reclen fd lens stale fuel j s = .ok r) :
    readAll reclen fd lens stale (fuel + k) j s = .ok r := by
  induction fuel generalizing s j r with
  | zero => cases h
  | succ fuel ih =>
    rw [Nat.add_right_comm]
    unfold readAll at h ⊢
    obtain ⟨⟨res, recs⟩, t, hcall, hrest⟩ := run_bind_ok h
    rw [run_bind hcall]
    cases res with
    | error e => exact hrest
    | ok n =>
      dsimp only at hrest ⊢
      split at hrest
      next hzero => rw [if_pos hzero, ← hrest]
      next hpos =>
        obtain ⟨rest, u, hrun, hend⟩ := run_bind_ok hrest
        rwa [if_neg hpos, run_bind (ih hrun)]

/-- **A directory is read completely and without duplicates exactly if each call that begins behind
the first entry has room for the rest, and the stack is zero behind the names.** -/
theorem freshDir_enumerates_iff (h : FreshDir s fd names) (hreclen : 0 < reclen)
    (hlen : ∀ j, reclen ≤ lens j) :
    Enumerates reclen fd lens stale s names ↔
      EndsAtOnce (names.length + 2) (fun j => lens j / reclen) ∧
        CleanStack (names.length + 2) (fun j => lens j / reclen) stale := by
  obtain ⟨vn, p, f, hd, hoff, hdir⟩ := h
  have hroom : ∀ j, 1 ≤ lens j / reclen := fun j =>
    (Nat.le_div_iff_mul_le hreclen).mpr (by have := hlen j; omega)
  have hrun : ∀ fuel, names.length + 3 ≤ fuel → ∃ recs s',
      readAll reclen fd lens stale fuel 0 s = .ok (.ok recs, s') ∧
        recs.map Dirent.name = yields (listing names) (fun j => lens j / reclen) stale
          fuel 0 0 := by
    intro fuel hfuel
    exact readAll_run hd hdir hoff hreclen hlen hfuel
  have hiff : ∀ fuel, names.length + 3 ≤ fuel →
      ((yields (listing names) (fun j => lens j / reclen) stale fuel 0 0).Perm (listing names) ↔
        EndsAtOnce (names.length + 2) (fun j => lens j / reclen) ∧
          CleanStack (names.length + 2) (fun j => lens j / reclen) stale) := by
    intro fuel hfuel
    exact yields_perm_iff.trans (yields_eq_iff hroom (Nat.le_of_succ_le hfuel))
  constructor
  · rintro ⟨k, hall⟩
    obtain ⟨recs, s', hok, hperm⟩ := hall (max k (names.length + 3)) (le_max_left _ _)
    obtain ⟨recs', s'', hok', hnames⟩ := hrun (max k (names.length + 3)) (le_max_right _ _)
    obtain ⟨hsame, -⟩ := Prod.mk.inj (Except.ok.inj (hok.symm.trans hok'))
    rw [Except.ok.inj hsame, hnames] at hperm
    exact (hiff _ (le_max_right _ _)).mp hperm
  · intro hcond
    refine ⟨names.length + 3, fun fuel hfuel => ?_⟩
    obtain ⟨recs, s', hok, hnames⟩ := hrun fuel hfuel
    exact ⟨recs, s', hok, hnames ▸ (hiff fuel hfuel).mpr hcond⟩

end Calls

/-! ## A directory of the booted system -/

/-- Boot, create four files in the root directory and open that. -/
def makeDir : SysM Unit := do
  onFs boot
  let s ← get
  let root ← onFs (getVe s.fs.vcache.root)
  let d ← onFs (getVe root.mount)
  let _ ← onFs (vnCreate root.mount d.vn [0x61] 0)
  let _ ← onFs (vnCreate root.mount d.vn [0x62] 0)
  let _ ← onFs (vnCreate root.mount d.vn [0x63] 0)
  let _ ← onFs (vnCreate root.mount d.vn [0x64] 0)
  let _ ← fsOpendir 2 [slash]
  pure ()

/-- The system after that: descriptor 0 is for the vnode 8. -/
def dirSys : Sys :=
  match makeDir startSys with
  | .ok (_, s) => s
  | .error _ => startSys

/-- The names of the four files. -/
def fourNames : List Str := [[0x61], [0x62], [0x63], [0x64]]

/-- The dentry is there, with a name that fits and a node. -/
def namedDentry (s : Fs) (d : Nat) (name : Str) : Bool :=
  d != 0 && decide (name.length ≤ nameMax) && !name.contains 0 &&
    (s.dentry d).any fun e => e.name == name && e.node != 0 && (s.node e.node).isSome

theorem namedDentry_sound {s : Fs} {d : Nat} (h : namedDentry s d name = true) :
    d ≠ 0 ∧ name.length ≤ nameMax ∧ 0 ∉ name ∧ ∃ dent node,
      s.dentry d = some dent ∧ dent.name = name ∧ dent.node ≠ 0 ∧ s.node dent.node = some node := by
  simp only [namedDentry, Bool.and_eq_true, bne_iff_ne, ne_eq, decide_eq_true_eq,
    Bool.not_eq_true', Option.any_eq_true, beq_iff_eq, Option.isSome_iff_exists] at h
  obtain ⟨⟨⟨hd, hlen⟩, hzero⟩, dent, hdent, ⟨hname, hnode⟩, node, hsome⟩ := h
  exact ⟨hd, hlen, by simpa using hzero, dent, node, hdent, hname, hnode, hsome⟩

theorem dirSys_eval :
    (dirSys.fs.vnode 8).any (fun n => n.type == .dir && n.ops.isSome && n.data == 7) = true ∧
    (dirSys.fs.node 7).any (fun node => node.dir == [11, 16, 21, 26]) = true ∧
    (namedDentry dirSys.fs 11 [0x61] = true ∧ namedDentry dirSys.fs 16 [0x62] = true ∧
      namedDentry dirSys.fs 21 [0x63] = true ∧ namedDentry dirSys.fs 26 [0x64] = true) ∧
    justOpened dirSys 0 8 30 = true ∧
    (readAll 280 0 (fun _ => 280) (fun _ _ => 0) 6 0 dirSys).toOption.any
      (fun r => r.1.toOption.any fun recs =>
        recs.map Dirent.name == [[dot], [dot, dot], [0x61], [0x62], [0x64]]) = true := by
  decide +kernel

theorem dirSys_isDir : IsDir dirSys.fs 8 fourNames := by
  obtain ⟨hn, hdir, ⟨ha, hb, hc, hd⟩, -⟩ := dirSys_eval
  obtain ⟨n, hn, hfields⟩ := (Option.any_eq_true _ _).mp hn
  obtain ⟨node, hnode, hlist⟩ := (Option.any_eq_true _ _).mp hdir
  simp only [Bool.and_eq_true, beq_iff_eq] at hfields hlist
  obtain ⟨⟨htype, hops⟩, hdata⟩ := hfields
  have hops' : n.ops ≠ none := Option.ne_none_iff_isSome.mpr hops
  refine ⟨by decide, n, node, hn, htype, hops', by omega, hdata ▸ hnode, ?_⟩
  rw [hlist]
  exact .cons (namedDentry_sound ha) (.cons (namedDentry_sound hb)
    (.cons (namedDentry_sound hc) (.cons (namedDentry_sound hd) .nil)))

theorem dirSys_freshDir : FreshDir dirSys 0 fourNames := by
  obtain ⟨-, -, -, hopened, -⟩ := dirSys_eval
  obtain ⟨f, hf, hoff⟩ := justOpened_sound hopened
  exact ⟨8, 30, f, hf, hoff, dirSys_isDir⟩

theorem dirSys_enumerates_iff :
    FreshDir dirSys 0 fourNames ∧
      (Enumerates 280 0 (fun _ => 840) (fun _ _ => 0) dirSys fourNames ↔
        EndsAtOnce 6 (fun _ => 3) ∧ CleanStack 6 (fun _ => 3) (fun _ _ => 0)) :=
  ⟨dirSys_freshDir,
    freshDir_enumerates_iff dirSys_freshDir (by decide) (fun _ => by decide)⟩

/-- With buffers for one record each the third file is left out. -/
theorem dirSys_entry_lost :
    FreshDir dirSys 0 fourNames ∧ ¬ Enumerates 280 0 (fun _ => 280)
      (fun _ _ => 0) dirSys fourNames := by
  refine ⟨dirSys_freshDir, ?_⟩
  rintro ⟨k, hall⟩
  obtain ⟨-, -, -, -, hrun⟩ := dirSys_eval
  obtain ⟨⟨r, t⟩, hok, hr⟩ := exists_ok_of_any hrun
  obtain ⟨recs, hrecs, hnames⟩ := exists_ok_of_any hr
  obtain ⟨recs', s', hok', hperm⟩ := hall (6 + k) (Nat.le_add_left k 6)
  rw [readAll_mono hok] at hok'
  obtain ⟨hsame, -⟩ := Prod.mk.inj (Except.ok.inj hok')
  rw [← Except.ok.inj (hrecs.symm.trans hsame), beq_iff_eq.mp hnames] at hperm
  exact absurd hperm.length_eq (by decide)

end Osdev.Vfs
