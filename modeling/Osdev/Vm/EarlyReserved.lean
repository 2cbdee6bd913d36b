import Mathlib.Data.List.Pairwise
import Osdev.Lib.Run
import Osdev.Vm.EarlyWalk

/-!
# Reserved addresses (`mm_early_map_pages_reserved` of `kernel/mm/init.c`)

Each call maps pages at the next reserved address. The address goes on by one page, whatever the
number of pages is, so a call for several pages is overwritten by the next one. With one page for
each call the ranges are apart, and every page keeps its translation (`reach_reserved_kept`).
-/

namespace Osdev.Vm

open Osdev.Lib

/-! ## The calls -/

/-- The arguments of `mm_early_map_pages_reserved`. -/
structure ReservedCall where
  physAddr : Nat
  count : Nat
  vmFlags : Flags

/-- `mm_early_map_pages_reserved`. The next address is one page further, whatever the count is. -/
def mmEarlyMapPagesReserved (c : ReservedCall) (b : Boot) : Except Fault (Nat × Boot) :=
  let va := b.early.reservedVaPtr
  earlyMapEntries c.vmFlags va c.physAddr c.count
    { b with early := { b.early with reservedVaPtr := addWord va (stride c.vmFlags) } }

/-- A call, and the address it returned. -/
structure Reserved extends ReservedCall where
  va : Nat

namespace Reserved

def range (r : Reserved) : Range := ⟨r.va, r.count * stride r.vmFlags⟩

def level (r : Reserved) : PgLevel := mapLevel r.vmFlags

/-- The way to the table of the page. -/
def way (r : Reserved) : List Nat := upper r.va r.level

def index (r : Reserved) : Nat := indexForPgLevel r.va r.level

end Reserved

/-- The tables, and the calls so far, the last one first. -/
abbrev ReservedState := Boot × List Reserved

def reserve (s : ReservedState) (c : ReservedCall) : Except Fault ReservedState :=
  (fun r => (r.2, ⟨c, r.1⟩ :: s.2)) <$> mmEarlyMapPagesReserved c s.1

/-- The entry of the page is in its place. -/
def Boot.Maps (b : Boot) (r : Reserved) : Prop :=
  ∃ table, b.phys.made r.way b.pml4Addr = some table ∧
    b.phys.entry table r.index = pageEntry r.physAddr r.vmFlags

section Map

variable {W W' : Ways} {kept : List Nat → Nat → Prop} {b b' : Boot} {r : Reserved}

theorem Tidy.mono (h : Tidy W b) (hsub : ∀ w, W'.used w → W.used w) : Tidy W' b where
  own hw hw' := h.own (hsub _ hw) (hsub _ hw')
  table hw := h.table (hsub _ hw)
  link hw := h.link (hsub _ hw)
  ptr := h.ptr

theorem Grown.maps (h : Grown W kept b b') (hw : W.used r.way) (hk : kept r.way r.index)
    (hm : b.Maps r) : b'.Maps r := by
  obtain ⟨t, hmade, hentry⟩ := hm
  refine ⟨t, ?_, ?_⟩
  · rw [h.pml4]
    exact h.made (w := []) hw rfl hmade
  · rw [← hentry]
    exact h.entry hw (Phys.tableAt_of_made hmade) (Nat.mod_lt _ (by decide)) (.inl hk)

/-- **A page is mapped, and the other pages stay mapped.** `W'` are the ways in use from then on. -/
theorem Tidy.map (W' : Ways) (kept : List Nat → Nat → Prop) {slot : Nat} (h : Tidy W b)
    (hsub : ∀ w, W'.used w → W.used w)
    (hway : W'.used r.way) (hleaf : ¬ W'.used (r.way ++ [r.index])) (hkept : ¬ kept r.way r.index)
    (hkept' : ∀ w j, kept w j → ¬ W.used (w ++ [j]))
    (hrun : earlyMapEntry r.vmFlags r.va r.physAddr b = .ok (slot, b')) :
    Tidy W' b' ∧ b'.Maps r ∧ b'.early.reservedVaPtr = b.early.reservedVaPtr ∧
      ∀ r', W'.used r'.way → kept r'.way r'.index → b.Maps r' → b'.Maps r' := by
  obtain ⟨-, hrun⟩ := guard_eq_ok.mp hrun
  obtain ⟨⟨t, b1⟩, hwalk, hrun⟩ := bind_ok hrun
  cases hrun
  obtain ⟨htidy, hgrown, hmade⟩ := h.walk (w := []) (hsub _ hway) rfl hkept' hwalk
  have ht : b1.tableAt r.way = some t := by
    rw [Boot.tableAt, hgrown.pml4]
    exact Phys.tableAt_of_made hmade
  have hi : r.index < numEntries := Nat.mod_lt _ (by decide)
  have htidy' := htidy.mono hsub
  obtain ⟨hset, hgrown'⟩ := htidy'.set (e := pageEntry r.physAddr r.vmFlags) hway ht hi hkept
    fun hx => absurd hx hleaf
  refine ⟨hset, ⟨t, ?_, ?_⟩, hgrown.vaPtr, fun r' hw hk hm => ?_⟩
  · refine hgrown'.made (w := []) hway rfl ?_
    rw [hgrown.pml4]
    exact hmade
  · exact (htidy'.entry_set hway ht hi hway ht hi).trans (if_pos ⟨rfl, rfl⟩)
  · exact hgrown'.maps hw hk (hgrown.maps (hsub _ hw) hk hm)

end Map

/-! ## Translation -/

section Translate

variable {W : Ways} {b : Boot} {r : Reserved} {x : Nat}

theorem toNat_frame (e : Entry) : (e &&& peFrameMask).toNat = e.toNat / 2 ^ 12 * 2 ^ 12 := by
  have hmask : peFrameMask = BitVec.allOnes 64 <<< 12 := by decide
  have hlt := e.isLt
  rw [hmask, ← BitVec.shiftLeft_ushiftRight, BitVec.toNat_shiftLeft, BitVec.toNat_ushiftRight,
    Nat.shiftRight_eq_div_pow, Nat.shiftLeft_eq, Nat.mod_eq_of_lt]
  omega

theorem base_of_next {m : Phys} {t i n : Nat} (h : m.next t i = some n) (hn : n < 2 ^ 52) :
    (m.entry t i).base 12 = n := by
  unfold Phys.next at h
  split at h
  · cases h
  · rw [← Option.some.inj h, toNat_frame] at hn ⊢
    unfold Entry.base
    omega

theorem pageEntry_toNat {pa : Nat} (f : Flags) (hal : pa % 2 ^ 12 = 0) (hpa : pa < 2 ^ 52) :
    ∃ k, (pageEntry pa f).toNat = pa + k ∧ k < 2 ^ 12 := by
  have hflags : (vmFlagsToPeFlags f).toNat < 2 ^ 12 := by
    unfold vmFlagsToPeFlags flagIf
    split_ifs <;> decide
  refine ⟨(vmFlagsToPeFlags f).toNat, ?_, hflags⟩
  have hor := Nat.two_pow_add_eq_or_of_lt hflags (pa / 2 ^ 12)
  rw [show 2 ^ 12 * (pa / 2 ^ 12) = pa by omega] at hor
  rw [pageEntry, BitVec.toNat_or, BitVec.toNat_ofNat, BitVec.toNat_setWidth,
    Nat.mod_eq_of_lt (by omega),
    Nat.mod_eq_of_lt (by omega), hor]

theorem pageEntry_base {pa k : Nat} (f : Flags) (hk : 12 ≤ k) (hal : pa % 2 ^ k = 0)
    (hpa : pa < 2 ^ 52) :
    (pageEntry pa f).base k = pa := by
  have hdvd : pa % 2 ^ 12 = 0 :=
    Nat.mod_eq_zero_of_dvd ((Nat.pow_dvd_pow 2 hk).trans (Nat.dvd_of_mod_eq_zero hal))
  obtain ⟨j, hj, hlt⟩ := pageEntry_toNat f hdvd hpa
  have hpow : 2 ^ 12 ≤ 2 ^ k := Nat.pow_le_pow_right (by decide) hk
  obtain ⟨q, rfl⟩ := Nat.dvd_of_mod_eq_zero hal
  rw [Entry.base, hj, Nat.mod_eq_of_lt (by omega), Nat.mul_add_div (Nat.two_pow_pos k),
    Nat.div_eq_of_lt (by omega), Nat.add_zero, Nat.mul_comm]

theorem pageEntry_present (pa : Nat) (f : Flags) : (pageEntry pa f).present = true := by
  simp [Entry.present, pageEntry, vmFlagsToPeFlags, pePresent]

theorem pageEntry_large (pa : Nat) {f : Flags} (h : mapLevel f ≠ .pt) :
    (pageEntry pa f).large = true := by
  have hhuge : (f.has vmHuge2Mb || f.has vmHuge1Gb) = true := by
    unfold mapLevel at h
    split_ifs at h with h1 h2 <;> simp_all
  simp [Entry.large, pageEntry, vmFlagsToPeFlags, hhuge, flagIf, peSize]

/-- The processor goes on to the next table of a way in use. -/
theorem Tidy.step (h : Tidy W b) {w : List Nat} {i t n : Nat} (hw : W.used (w ++ [i]))
    (ht : b.tableAt w = some t) (hnext : b.phys.next t i = some n) :
    b.tableAt (w ++ [i]) = some n ∧ (b.phys.entry t i).large = false ∧
      (b.phys.entry t i).base 12 = n := by
  have hn : b.tableAt (w ++ [i]) = some n := by rw [Boot.tableAt_append, ht]; exact hnext
  exact ⟨hn, h.link hw ht, base_of_next hnext (h.table hw hn).2.1⟩

/-- The translation of an address whose way is there. -/
theorem Tidy.translate (h : Tidy W b) {level : PgLevel} {t : Nat} {e : Entry}
    (hw : W.used (upper x level)) (hlevel : level ≠ .pml4)
    (hmade : b.phys.made (upper x level) b.pml4Addr = some t)
    (he : b.phys.entry t (indexForPgLevel x level) = e) (hpres : e.present = true)
    (hlarge : level ≠ .pt → e.large = true) :
    b.phys.translate b.pml4Addr x = some (e.base level.shift + x % 2 ^ level.shift) := by
  subst he
  cases level with
  | pml4 => exact absurd rfl hlevel
  | pdp =>
    obtain ⟨hp4, t3, hn4, hmade⟩ := Phys.made_cons.mp hmade
    cases hmade
    obtain ⟨-, hl4, hb4⟩ := h.step (w := []) hw rfl hn4
    simp [Phys.translate, Phys.walkPdp, hp4, hl4, hb4, hpres, hlarge, PgLevel.shift, PgLevel.toNat]
  | pd =>
    obtain ⟨hp4, t3, hn4, hmade⟩ := Phys.made_cons.mp hmade
    obtain ⟨hp3, t2, hn3, hmade⟩ := Phys.made_cons.mp hmade
    cases hmade
    obtain ⟨ht3, hl4, hb4⟩ := h.step (w := []) (W.closed _ _ hw).1 rfl hn4
    obtain ⟨-, hl3, hb3⟩ := h.step (w := [_]) hw ht3 hn3
    simp [Phys.translate, Phys.walkPdp, Phys.walkPd, hp4, hl4, hb4, hp3, hl3, hb3, hpres, hlarge,
      PgLevel.shift, PgLevel.toNat]
  | pt =>
    obtain ⟨hp4, t3, hn4, hmade⟩ := Phys.made_cons.mp hmade
    obtain ⟨hp3, t2, hn3, hmade⟩ := Phys.made_cons.mp hmade
    obtain ⟨hp2, t1, hn2, hmade⟩ := Phys.made_cons.mp hmade
    cases hmade
    have hw2 := (W.closed [_, _] _ hw).1
    obtain ⟨ht3, hl4, hb4⟩ := h.step (w := []) (W.closed [_] _ hw2).1 rfl hn4
    obtain ⟨ht2, hl3, hb3⟩ := h.step (w := [_]) hw2 ht3 hn3
    obtain ⟨-, hl2, hb2⟩ := h.step (w := [_, _]) hw ht2 hn2
    simp [Phys.translate, Phys.walkPdp, Phys.walkPd, Phys.walkPt, hp4, hl4, hb4, hp3, hl3, hb3, hp2,
      hl2, hb2, hpres, PgLevel.shift, PgLevel.toNat]

end Translate

/-! ## Addresses and ways -/

section Addresses

variable {x y i : Nat} {w : List Nat} {l l' level : PgLevel}

theorem upper_eq_append (h : upper x level = w ++ [i]) :
    ∃ l, l.toNat = level.toNat + 1 ∧ w = upper x l ∧ i = indexForPgLevel x l := by
  cases level with
  | pml4 => simp [upper, PgLevel.above] at h
  | pdp =>
    obtain ⟨h1, h2⟩ := List.append_inj' (show [] ++ [indexForPgLevel x .pml4] = w ++ [i] from h) rfl
    exact ⟨.pml4, rfl, h1.symm, (List.singleton_inj.mp h2).symm⟩
  | pd =>
    obtain ⟨h1, h2⟩ := List.append_inj'
      (show upper x .pdp ++ [indexForPgLevel x .pdp] = w ++ [i] from h) rfl
    exact ⟨.pdp, rfl, h1.symm, (List.singleton_inj.mp h2).symm⟩
  | pt =>
    obtain ⟨h1, h2⟩ := List.append_inj'
      (show upper x .pd ++ [indexForPgLevel x .pd] = w ++ [i] from h) rfl
    exact ⟨.pd, rfl, h1.symm, (List.singleton_inj.mp h2).symm⟩

theorem level_of_upper (h : upper x l = upper y l') : l = l' := by
  have hlen := congrArg List.length h
  cases l <;> cases l' <;> first | rfl | cases hlen

/-- Reserved addresses with the same entries are in the same page. -/
theorem block_of_upper (hx : EarlyMem.kernelReservedVa ≤ x) (hx' : x < word)
    (hy : EarlyMem.kernelReservedVa ≤ y) (hy' : y < word) (hup : upper x l = upper y l)
    (hidx : indexForPgLevel x l = indexForPgLevel y l) : x / 2 ^ l.shift = y / 2 ^ l.shift := by
  cases l <;>
    simp only [indexForPgLevel, upper, PgLevel.above, PgLevel.shift, PgLevel.toNat, List.map, word,
      numEntries, EarlyMem.kernelReservedVa, List.cons.injEq, and_true, Nat.reduceMul,
        Nat.reduceAdd,
      Nat.reducePow] at * <;>
    omega

theorem upper_of_block (h : x / 2 ^ l.shift = y / 2 ^ l.shift) :
    upper x l = upper y l ∧ indexForPgLevel x l = indexForPgLevel y l := by
  cases l <;>
    simp only [indexForPgLevel, upper, PgLevel.above, PgLevel.shift, PgLevel.toNat, List.map,
      numEntries, List.cons.injEq, and_true, true_and, Nat.reduceMul, Nat.reduceAdd,
      Nat.reducePow] at * <;>
    omega

end Addresses

/-- The ways to the addresses from `c` on, and to the tables of the pages so far. -/
def reservedWays (c : Nat) (rs : List Reserved) : Ways where
  used w := ∃ va level, w = upper va level ∧ va < word ∧
    (c ≤ va ∨ ∃ r ∈ rs, r.va = va ∧ r.level.toNat ≤ level.toNat)
  closed w i := by
    rintro ⟨va, level, heq, hva, hor⟩
    obtain ⟨l, hl, rfl, rfl⟩ := upper_eq_append heq.symm
    refine ⟨⟨va, l, rfl, hva, hor.imp_right ?_⟩, Nat.mod_lt _ (by decide)⟩
    rintro ⟨r, hr, hrva, hle⟩
    exact ⟨r, hr, hrva, by omega⟩

/-- One page, below `c`. -/
structure Reserved.Placed (c : Nat) (r : Reserved) : Prop where
  start : EarlyMem.kernelReservedVa ≤ r.va
  stop : r.va + stride r.vmFlags ≤ c
  count : r.count = 1
  aligned : r.va % stride r.vmFlags = 0
  phys : r.physAddr % stride r.vmFlags = 0 ∧ r.physAddr < 2 ^ 52

section Placed

variable {c x : Nat} {r r' : Reserved} {rs : List Reserved}

theorem stride_pos (f : Flags) : 0 < stride f := Nat.two_pow_pos _

theorem Reserved.Placed.range_eq (h : r.Placed c) : r.range = ⟨r.va, stride r.vmFlags⟩ := by
  rw [Reserved.range, h.count, Nat.one_mul]

theorem Reserved.Placed.has_iff (h : r.Placed c) :
    r.range.Has x ↔ x / 2 ^ r.level.shift = r.va / 2 ^ r.level.shift := by
  have hal : r.va % 2 ^ r.level.shift = 0 := h.aligned
  have hpos : 0 < 2 ^ r.level.shift := Nat.two_pow_pos _
  rw [h.range_eq]
  obtain ⟨q, hq⟩ := Nat.dvd_of_mod_eq_zero hal
  show r.va ≤ x ∧ x < r.va + 2 ^ r.level.shift ↔ _
  rw [hq, Nat.mul_div_cancel_left _ hpos, Nat.div_eq_iff hpos, Nat.mul_comm q]
  omega

/-- The entry of a page is not on a way in use. -/
theorem Reserved.Placed.leaf_unused (h : r.Placed c) (hc : c < word) (hrs : ∀ r' ∈ rs, r'.Placed c)
    (hap : ∀ r' ∈ rs, r' ≠ r → r.range.Disjoint r'.range) :
    ¬ (reservedWays c rs).used (r.way ++ [r.index]) := by
  rintro ⟨va, level, heq, hva, hor⟩
  obtain ⟨l, hl, hway, hidx⟩ := upper_eq_append heq.symm
  obtain rfl := level_of_upper hway
  have hstart : EarlyMem.kernelReservedVa ≤ va := by
    rcases hor with hle | ⟨r', hr', rfl, -⟩
    · exact (h.start.trans ((Nat.le_add_right _ _).trans h.stop)).trans hle
    · exact (hrs r' hr').start
  have hrva : r.va < word := by
    have := h.stop
    omega
  have hin := h.has_iff.mpr (block_of_upper hstart hva h.start hrva hway.symm hidx.symm)
  rcases hor with hle | ⟨r', hr', rfl, hlev⟩
  · have := hin.2
    rw [h.range_eq] at this
    have := h.stop
    simp only [Range.stop] at *
    omega
  · refine hap r' hr' (fun he => ?_) _ hin ((hrs r' hr').has_iff.mpr rfl)
    rw [he] at hlev
    omega

end Placed

/-! ## Runs -/

/-- The call maps one page, below the end of the address space, to memory below `2 ^ 52`. -/
def OnePage (s : ReservedState) (c : ReservedCall) : Prop :=
  c.count = 1 ∧ s.1.early.reservedVaPtr + stride c.vmFlags < word ∧ c.physAddr < 2 ^ 52

instance (s : ReservedState) (c : ReservedCall) : Decidable (OnePage s c) :=
  inferInstanceAs (Decidable (_ ∧ _))

/-- Nothing has been mapped so far, and the tables for the reserved addresses are tidy. -/
def Unreserved (s : ReservedState) : Prop :=
  s.1.early.reservedVaPtr = EarlyMem.kernelReservedVa ∧ s.2 = [] ∧
    Tidy (reservedWays EarlyMem.kernelReservedVa []) s.1

/-- The invariant: the pages are in place, one behind the other. -/
structure Laid (s : ReservedState) : Prop where
  start : EarlyMem.kernelReservedVa ≤ s.1.early.reservedVaPtr
  stop : s.1.early.reservedVaPtr < word
  tidy : Tidy (reservedWays s.1.early.reservedVaPtr s.2) s.1
  placed : ∀ r ∈ s.2, r.Placed s.1.early.reservedVaPtr
  apart : s.2.Pairwise fun r r' => r.range.Disjoint r'.range
  maps : ∀ r ∈ s.2, s.1.Maps r

section Runs

variable {s s' : ReservedState} {c : ReservedCall} {x : Nat}

/-- A call for one page is a call of `early_map_entry`. -/
theorem reserve_one (h : reserve s c = .ok s') (hcount : c.count = 1) :
    ∃ slot b', s' = (b', ⟨c, s.1.early.reservedVaPtr⟩ :: s.2) ∧
      earlyMapEntry c.vmFlags s.1.early.reservedVaPtr c.physAddr
        { s.1 with early := { s.1.early with
          reservedVaPtr := addWord s.1.early.reservedVaPtr (stride c.vmFlags) } } =
        .ok (slot, b') := by
  obtain ⟨⟨va, b'⟩, hrun, rfl⟩ := map_eq_ok.mp h
  unfold mmEarlyMapPagesReserved earlyMapEntries at hrun
  rw [hcount] at hrun
  obtain ⟨-, hrun⟩ := guard_eq_ok.mp hrun
  obtain ⟨b', hloop, hva⟩ := map_eq_ok.mp hrun
  cases hva
  obtain ⟨r, hentry, hdone⟩ := bind_ok hloop
  cases hdone
  exact ⟨r.1, r.2, rfl, hentry⟩

theorem Laid.of_unreserved (h : Unreserved s) : Laid s := by
  obtain ⟨hva, hnil, htidy⟩ := h
  refine ⟨hva.ge, by rw [hva]; decide, by rwa [hva, hnil], ?_, ?_, ?_⟩ <;> simp [hnil]

/-- **A call for one page keeps the other pages.** -/
theorem Laid.reserve (h : Laid s) (hone : OnePage s c) (hrun : reserve s c = .ok s') : Laid s' := by
  obtain ⟨hcount, hfits, hphys⟩ := hone
  obtain ⟨slot, b', rfl, hentry⟩ := reserve_one hrun hcount
  obtain ⟨hva, hpa⟩ := earlyMapEntry_ok hentry
  have hpos := stride_pos c.vmFlags
  rw [addWord_of_lt hfits] at hentry
  generalize hr : (⟨c, s.1.early.reservedVaPtr⟩ : Reserved) = r
  have hrva : r.va = s.1.early.reservedVaPtr := by rw [← hr]
  have hnew : r.Placed (s.1.early.reservedVaPtr + stride c.vmFlags) := by
    rw [← hr]
    exact ⟨h.start, le_rfl, hcount, earlyAligned_iff.mp hva, earlyAligned_iff.mp hpa, hphys⟩
  have hplaced : ∀ r' ∈ r :: s.2, r'.Placed (s.1.early.reservedVaPtr + stride c.vmFlags) := by
    rintro r' (_ | ⟨_, hr'⟩)
    · exact hnew
    · exact { h.placed r' hr' with stop := (h.placed r' hr').stop.trans (Nat.le_add_right _ _) }
  -- the new page is behind the others
  have hbehind : ∀ r' ∈ s.2, r.range.Disjoint r'.range := by
    intro r' hr'
    rw [hnew.range_eq, (h.placed r' hr').range_eq, hrva]
    refine (Range.disjoint_of_le ?_).symm
    exact (h.placed r' hr').stop
  have hsymm : Std.Symm fun r r' : Reserved => r.range.Disjoint r'.range := ⟨fun _ _ h => h.symm⟩
  have hmap := Tidy.map (reservedWays (s.1.early.reservedVaPtr + stride c.vmFlags) (r :: s.2))
    (fun w j => ∃ r' ∈ s.2, w = r'.way ∧ j = r'.index)
    (W := reservedWays s.1.early.reservedVaPtr s.2)
    (b := { s.1 with early := { s.1.early with
      reservedVaPtr := s.1.early.reservedVaPtr + stride c.vmFlags } })
    ⟨h.tidy.own, h.tidy.table, h.tidy.link, h.tidy.ptr⟩ ?_ ?_ ?_ ?_ ?_
    (show earlyMapEntry r.vmFlags r.va r.physAddr _ = .ok (slot, b') by rw [← hr]; exact hentry)
  · obtain ⟨htidy, hmaps, hptr, hold⟩ := hmap
    have hptr : b'.early.reservedVaPtr = s.1.early.reservedVaPtr + stride c.vmFlags := hptr
    refine ⟨?_, ?_, ?_, ?_, List.pairwise_cons.mpr ⟨hbehind, h.apart⟩, ?_⟩
    · exact (h.start.trans (Nat.le_add_right _ _)).trans hptr.ge
    · exact hptr ▸ hfits
    · exact hptr ▸ htidy
    · exact hptr ▸ hplaced
    · rintro r' (_ | ⟨_, hr'⟩)
      · exact hmaps
      · refine hold r' ?_ ⟨r', hr', rfl, rfl⟩ (h.maps r' hr')
        exact ⟨r'.va, r'.level, rfl, by have := (h.placed r' hr').stop; have := h.stop; omega,
          .inr ⟨r', List.mem_cons_of_mem _ hr', rfl, le_rfl⟩⟩
  · rintro w ⟨va, level, rfl, hva, hor⟩
    refine ⟨va, level, rfl, hva, ?_⟩
    rcases hor with hle | ⟨r', _ | ⟨_, hr'⟩, rfl, hlev⟩
    · exact .inl ((Nat.le_add_right _ _).trans hle)
    · exact .inl hrva.ge
    · exact .inr ⟨r', hr', rfl, hlev⟩
  · exact ⟨r.va, r.level,
      rfl, by rw [hrva]; exact h.stop, .inr ⟨r, List.mem_cons_self, rfl, le_rfl⟩⟩
  · refine hnew.leaf_unused hfits hplaced fun r' hr' hne' => ?_
    rcases hr' with _ | ⟨_, hr'⟩
    · exact absurd rfl hne'
    · exact hbehind r' hr'
  · rintro ⟨r', hr', hway, hidx⟩
    obtain hlev : r.level = r'.level := level_of_upper hway
    have hblock := block_of_upper (l := r.level) hnew.start (by rw [hrva]; exact h.stop)
      (h.placed r' hr').start (by have := (h.placed r' hr').stop; have := h.stop; omega)
      (by rw [Reserved.way, Reserved.way, ← hlev] at hway; exact hway)
      (by rw [Reserved.index, Reserved.index, ← hlev] at hidx; exact hidx)
    exact hbehind r' hr' r'.va (hnew.has_iff.mpr hblock.symm) ((h.placed r' hr').has_iff.mpr rfl)
  · rintro w j ⟨r', hr', rfl, rfl⟩
    exact (h.placed r' hr').leaf_unused h.stop h.placed fun r'' hr'' hne' =>
      h.apart.forall hr' hr'' (Ne.symm hne')

/-- A page in its place translates to the memory of its call. -/
theorem Laid.translate (h : Laid s) {r : Reserved} (hr : r ∈ s.2) (hx : r.range.Has x) :
    s.1.phys.translate s.1.pml4Addr x = some (r.physAddr + (x - r.va)) := by
  have hplaced := h.placed r hr
  obtain ⟨t, hmade, hentry⟩ := h.maps r hr
  have hblock := hplaced.has_iff.mp hx
  obtain ⟨hup, hidx⟩ := upper_of_block hblock
  have hlevel : r.level ≠ .pml4 := by
    unfold Reserved.level mapLevel
    split_ifs <;> nofun
  have hused : (reservedWays s.1.early.reservedVaPtr s.2).used (upper x r.level) :=
    ⟨r.va, r.level, hup, by have := hplaced.stop; have := h.stop; omega, .inr ⟨r, hr, rfl, le_rfl⟩⟩
  rw [Reserved.way, ← hup] at hmade
  rw [Reserved.index, ← hidx] at hentry
  rw [h.tidy.translate hused hlevel hmade hentry (pageEntry_present _ _) (pageEntry_large _),
    pageEntry_base (k := r.level.shift) _ (by rw [PgLevel.shift]; omega) hplaced.phys.1
      hplaced.phys.2]
  have hal : r.va % 2 ^ r.level.shift = 0 := hplaced.aligned
  have h1 := Nat.div_add_mod x (2 ^ r.level.shift)
  have h2 := Nat.div_add_mod r.va (2 ^ r.level.shift)
  rw [hblock] at h1
  congr 2
  omega

/-- **As long as every call maps one page, the ranges are apart, and no later call changes the
translation of a page.** -/
theorem reach_reserved_kept
    (h : Reach Unreserved (fun s c s' => OnePage s c ∧ reserve s c = .ok s') s) :
    (s.2.map Reserved.range).Pairwise Range.Disjoint ∧ ∀ r ∈ s.2, ∀ x, r.range.Has x →
      s.1.phys.translate s.1.pml4Addr x = some (r.physAddr + (x - r.va)) := by
  have hlaid : Laid s := h.invariant (fun _ hs => .of_unreserved hs)
    fun _ _ _ hs hstep => hs.reserve hstep.1 hstep.2
  exact ⟨List.pairwise_map.mpr hlaid.apart, fun r hr x hx => hlaid.translate hr hx⟩

/-- The tables are tidy when there is none for the last 512 GB. -/
theorem tidy_of_empty {b : Boot} (hzero : b.phys.entry b.pml4Addr 511 = 0)
    (hpml4 : b.pml4Addr % pageSize = 0 ∧ b.pml4Addr < 2 ^ 52 ∧
      (b.pml4Addr + pageSize ≤ b.early.reservedPtr ∨ b.early.reservedEnd ≤ b.pml4Addr))
    (hptr : 0 < b.early.reservedPtr ∧ b.early.reservedPtr % pageSize = 0 ∧
      b.early.reservedPtr ≤ b.early.reservedEnd ∧ b.early.reservedEnd ≤ 2 ^ 52) :
    Tidy (reservedWays EarlyMem.kernelReservedVa []) b := by
  -- a way in use is empty, or starts at an entry that names no table
  have hways : ∀ {w}, (reservedWays EarlyMem.kernelReservedVa []).used w → w = [] ∨
      ∃ v, w = 511 :: v := by
    rintro w ⟨va, level, rfl, hlt, hle | ⟨r, hr, -⟩⟩
    · have hidx : indexForPgLevel va .pml4 = 511 := by
        simp only [indexForPgLevel, PgLevel.shift, PgLevel.toNat, numEntries, word,
          EarlyMem.kernelReservedVa] at *
        omega
      cases level <;> simp [upper, PgLevel.above, hidx]
    · cases hr
  have htop : ∀ {w t}, (reservedWays EarlyMem.kernelReservedVa []).used w → b.tableAt w = some t →
      w = [] ∧ t = b.pml4Addr := by
    intro w t hw ht
    rcases hways hw with rfl | ⟨v, rfl⟩
    · exact ⟨rfl, (Option.some.inj ht).symm⟩
    · rw [Boot.tableAt, Phys.tableAt_cons, Phys.next, hzero] at ht
      cases ht
  refine ⟨fun hw hw' ht ht' => (htop hw ht).1.trans (htop hw' ht').1.symm, fun hw ht => ?_,
    fun {w i t} hw ht => ?_, hptr⟩
  · rw [(htop hw ht).2]
    exact hpml4
  · obtain ⟨rfl, rfl⟩ := htop (Ways.closed _ _ _ hw).1 ht
    obtain hx | ⟨v, hx⟩ := hways hw
    · cases hx
    · cases hx
      rw [hzero]
      rfl

theorem bootAt_unreserved : Unreserved (bootAt 0x100000, []) :=
  ⟨rfl, rfl, tidy_of_empty (by decide +kernel) (by decide) (by decide)⟩

/-- Two large pages and a small one: the first of them still translates to its memory. -/
theorem reach_reserved_kept_three : ∃ s : ReservedState, s.2.length = 3 ∧
    Reach Unreserved (fun s c s' => OnePage s c ∧ reserve s c = .ok s') s ∧
    (s.2.map Reserved.range).Pairwise Range.Disjoint ∧ ∀ r ∈ s.2, ∀ x, r.range.Has x →
      s.1.phys.translate s.1.pml4Addr x = some (r.physAddr + (x - r.va)) := by
  have hrun : (checkedRun (fun s c => decide (OnePage s c)) reserve [⟨0x400000, 1, vmHuge2Mb⟩,
      ⟨0x800000, 1, vmHuge2Mb⟩, ⟨0x5000, 1, vmWrite⟩] (bootAt 0x100000, [])).map (·.2.length) =
      some 3 := by decide +kernel
  obtain ⟨s, hs, hlen⟩ := Option.map_eq_some_iff.mp hrun
  have hreach : Reach Unreserved (fun s c s' => OnePage s c ∧ reserve s c = .ok s') s :=
    .of_checkedRun (fun _ _ _ hone hnext => ⟨of_decide_eq_true hone, hnext⟩)
      (.start bootAt_unreserved) hs
  exact ⟨s, hlen, hreach, reach_reserved_kept hreach⟩

/-- Behind two pages, the next call returns the second of them once more. -/
theorem reserved_second_page_lost :
    let second := EarlyMem.kernelReservedVa + 0x1000
    let run := fun cs =>
      (checkedRun (fun _ _ => true) reserve cs (bootAt 0x100000, [])).map fun s =>
      (s.2.map Reserved.range, s.1.phys.translate s.1.pml4Addr second)
    run [⟨0x5000, 2, vmWrite⟩] =
        some ([⟨EarlyMem.kernelReservedVa, 0x2000⟩], some 0x6000) ∧
      run [⟨0x5000, 2, vmWrite⟩, ⟨0x8000, 1, vmWrite⟩] =
        some ([⟨second, 0x1000⟩, ⟨EarlyMem.kernelReservedVa, 0x2000⟩], some 0x8000) := by
  decide +kernel

end Runs

end Osdev.Vm
