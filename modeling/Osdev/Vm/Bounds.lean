import Osdev.Lib.Run
import Osdev.Vm.Placement

/-!
# The halves of the address space

A user mapping belongs below `USER_SPACE_END` and a kernel mapping from `KERNEL_SPACE_START` on,
both with their empty space and guard page. `vmap_internal` checks only the hint of a fixed request.
What `vmapInternal_grant` says about the place of a request, stacks included, gives the requests
after which all mappings are still in their halves (`reach_inHalf`).
-/

namespace Osdev.Vm

open Osdev.Intvl Osdev.Lib

namespace VmapArgs

/-- The size of the virtual range, with the guard page of a stack. -/
def need (a : VmapArgs) : Nat := a.virtSize + if a.vmFlags.has vmStack then pageSize else 0

/-- How far above the start of its virtual range the mapping begins. -/
def off (a : VmapArgs) : Nat :=
  if a.vmFlags.has vmStack then if a.vmFlags.has vmFixed then a.need - a.size else pageSize else 0

/-- Where the search for the virtual range starts. -/
def start (a : VmapArgs) : Nat :=
  if a.vmFlags.has vmFixed then a.hint - a.off
  else if a.vmFlags.has vmStack then max a.base a.need else a.base

/-- The free places that the request allows for its virtual range. -/
def Spots (a : VmapArgs) (rs : List Interval) : Set Nat :=
  { y | (if a.vmFlags.has vmFixed then y = a.start else a.start ≤ y ∧ y % a.pgSize = 0) ∧
    FreeAt rs a.need y }

/-- The virtual range is not empty and fits below `top`. A stack that is placed dynamically has no
empty space: the start of its virtual range would not be the place that was found. -/
structure Fit (a : VmapArgs) (rs : List Interval) (top : Nat) : Prop where
  nonempty : 0 < a.need
  reserve : a.vmFlags.has vmStack = true → a.vmFlags.has vmFixed = false → a.vmSize ≤ a.size
  fixed : a.vmFlags.has vmFixed = true → a.off ≤ a.hint ∧ a.start + a.need ≤ top
  dynamic : a.vmFlags.has vmFixed = false → ∃ y ∈ a.Spots rs, y + a.need ≤ top

end VmapArgs

variable {v v' : VmState} {sp : Nat} {l : List Item} {a : VmapArgs} {rs : List Interval} {top : Nat}

/-! ## The virtual range of a request -/

theorem VmapArgs.size_le_virtSize (a : VmapArgs) : a.size ≤ a.virtSize := Nat.le_max_right _ _

theorem VmapArgs.Fit.need_le (h : a.Fit rs top) : a.need ≤ top := by
  cases hfixed : a.vmFlags.has vmFixed with
  | true =>
    have := (h.fixed hfixed).2
    omega
  | false =>
    obtain ⟨y, -, hy⟩ := h.dynamic hfixed
    omega

theorem VmapArgs.Fit.virtRange_eq (h : a.Fit rs top) (htop : top < word) :
    virtRange a = some (a.need, a.off, a.start) := by
  have hneed := h.need_le
  have hsize := a.size_le_virtSize
  unfold virtRange
  cases hstack : a.vmFlags.has vmStack with
  | false =>
    have hn : a.need = a.virtSize := by
      rw [VmapArgs.need, hstack]
      rfl
    have ho : a.off = 0 := by
      rw [VmapArgs.off, hstack]
      rfl
    rw [hn]
    rw [VmapArgs.start, VmapArgs.base, hstack, ho]
    split <;> rfl
  | true =>
    have hn : a.need = a.virtSize + pageSize := by
      rw [VmapArgs.need, hstack]
      rfl
    have hadd : addWord (max a.vmSize a.size) pageSize = a.need := by
      rw [hn]
      exact addWord_of_lt (show a.virtSize + pageSize < word by omega)
    dsimp only
    rw [hadd]
    cases hfixed : a.vmFlags.has vmFixed with
    | true =>
      have ho : a.off = a.need - a.size := by
        rw [VmapArgs.off, hstack, hfixed]
        rfl
      rw [subWord_of_le (by omega) (by omega), ← ho]
      rw [VmapArgs.start, hfixed]
      exact if_neg (Nat.not_lt.mpr (h.fixed hfixed).1)
    | false =>
      rw [VmapArgs.off, VmapArgs.start, VmapArgs.base, hstack, hfixed]
      rfl

/-- A valid request is for whole pages. -/
theorem need_aligned {b : Backing} (h : areValidVmapArgs b a = .ok true) :
    a.need % a.pgSize = 0 := by
  have hal := (areValidVmapArgs_aligned h).2
  unfold VmapArgs.need
  split
  next hstack =>
    have hpg : a.pgSize = pageSize := by
      unfold areValidVmapArgs at h
      by_contra hne
      rw [if_pos (show a.pgSize ≠ pageSize ∧ a.vmFlags.has vmStack = true from ⟨hne, hstack⟩)] at h
      repeat' split at h
      all_goals cases h
    rw [hpg] at hal ⊢
    rwa [Nat.add_mod_right]
  · exact hal

/-- The mapped part of a stack is at the end of its virtual range. -/
theorem VmapArgs.Fit.off_eq (h : a.Fit rs top) :
    a.off = if a.vmFlags.has vmStack then a.need - a.size else 0 := by
  unfold VmapArgs.off
  split
  next hstack =>
    split
    · rfl
    next hfixed =>
      -- with no empty space, only the guard page lies below
      have hle := h.reserve hstack (Bool.eq_false_iff.mpr hfixed)
      have hv : a.virtSize = a.size := Nat.max_eq_right hle
      rw [VmapArgs.need, if_pos hstack]
      omega
  · rfl

/-- The virtual range of the mapping that is made at the place `b`. -/
theorem VmapArgs.Fit.vmVirtInterval_eq (h : a.Fit rs top) (htop : top < word) {b : Nat}
    (hb : b + a.need ≤ top) (sp : Nat) :
    a.off + a.size ≤ a.need ∧ (newMapping a sp b a.off a.need).address = b + a.off ∧
      vmVirtInterval (newMapping a sp b a.off a.need) = ⟨b, b + a.need⟩ := by
  have hsize := a.size_le_virtSize
  have hneed : a.virtSize ≤ a.need := Nat.le_add_right _ _
  have hoff := h.off_eq
  have hle : a.off + a.size ≤ a.need := by
    split at hoff <;> omega
  have haddr : (newMapping a sp b a.off a.need).address = b + a.off := addWord_of_lt (by omega)
  refine ⟨hle, haddr, ?_⟩
  have hstart : vmVirtualStart (newMapping a sp b a.off a.need) = b := by
    rw [vmVirtualStart, newMapping_vmStack, haddr]
    show (if _ then subWord (b + a.off) (subWord a.need a.size) else b + a.off) = b
    split
    next hstack =>
      rw [if_pos hstack] at hoff
      have hdiff : subWord a.need a.size = a.off := by
        rw [hoff]
        exact subWord_of_le (by omega) (by omega)
      rw [hdiff, subWord_of_le (by omega) (by omega), Nat.add_sub_cancel]
    next hstack => rw [hoff, if_neg hstack, Nat.add_zero]
  rw [vmVirtInterval, hstart]
  exact congrArg _ (addWord_of_lt (show b + a.need < word by omega))

/-! ## Where a request is placed -/

variable {s s' : Sys} {user : Nat} {r : Except Errno Nat}

/-- The ranges of the mappings of a space. -/
def ranges (v : VmState) (sp : Nat) : List Interval :=
  (v.space sp).mappings.map fun id => vmVirtInterval (v.mapping id)

theorem SpaceOk.mem_ranges (hok : SpaceOk v sp l) (i : Interval) :
    i ∈ ranges v sp ↔ i ∈ l.map Prod.fst := by
  rw [ranges, List.mem_map, List.mem_map]
  constructor
  · rintro ⟨id, hid, rfl⟩
    obtain ⟨x, hx, rfl⟩ := List.mem_map.mp (hok.list.mem_iff.mpr hid)
    exact ⟨x, hx, (hok.mapping x hx).2.2⟩
  · rintro ⟨x, hx, rfl⟩
    exact ⟨x.2, hok.mem_mappings hx, (hok.mapping x hx).2.2.symm⟩

theorem SpaceOk.freeAt_ranges (hok : SpaceOk v sp l) (size y : Nat) :
    FreeAt (ranges v sp) size y ↔ FreeAt (l.map Prod.fst) size y := by
  unfold FreeAt
  simp only [hok.mem_ranges]

/-- What a valid request that fits comes to: nothing, since its place is taken, or a mapping at the
least place `b`, behind the mapping `c`. -/
inductive Grant (s s' : Sys) (sp : Nat) (l : List Item) (a : VmapArgs) (top : Nat) :
    Except Errno Nat → Prop
  | refused {e : Errno} : a.Spots (ranges s.vm sp) = ∅ → s' = s → Grant s s' sp l a top (.error e)
  | placed {b c : Nat} : IsLeast (a.Spots (ranges s.vm sp)) b → b + a.need ≤ top →
      GapAt l ⟨b, b + a.need⟩ c → vmVirtInterval (newMapping a sp b a.off a.need) =
        ⟨b, b + a.need⟩ →
      Inserts s.vm s'.vm sp l (newMapping a sp b a.off a.need) c →
      Grant s s' sp l a top (.ok (b + a.off))

/-- **A request that fits is granted at the least free place.** -/
theorem vmapInternal_grant (hvalid : areValidVmapArgs s.vm.backing a = .ok true)
    (hok : SpaceOk s.vm (selectSpace s.vm user a.start) l)
    (hfit : a.Fit (ranges s.vm (selectSpace s.vm user a.start)) top) (htop : top < word)
    (hrun : vmapInternal s user a = .ok (r, s')) :
    Grant s s' (selectSpace s.vm user a.start) l a top r := by
  unfold vmapInternal at hrun
  rw [hvalid, hfit.virtRange_eq htop] at hrun
  obtain ⟨hlocked, hlock⟩ := finish_spec hrun
  change vmapLocked s.vm _ a _ _ _ = _ at hlocked
  obtain ⟨found, hfind, hlocked⟩ := bind_ok hlocked
  -- the mapping at a place that was found
  have hplaced : ∀ b c, found = .ok (b, c) → b + a.need ≤ top → GapAt l ⟨b, b + a.need⟩ c →
      IsLeast (a.Spots (ranges s.vm (selectSpace s.vm user a.start))) b →
      Grant s s' (selectSpace s.vm user a.start) l a top r := by
    rintro b c rfl hb hgap hleast
    obtain ⟨hoff, -, hi⟩ := hfit.vmVirtInterval_eq htop hb (selectSpace s.vm user a.start)
    obtain ⟨v1, hadd, hlocked⟩ := bind_ok hlocked
    cases hlocked
    have hins := addMapping_inserts hok.tree
      (by rw [hi]; exact Nat.lt_add_of_pos_right hfit.nonempty)
      (by rw [hi]; exact hb.trans_lt htop)
      (by rw [hi]; exact fun x hx => hgap.free _ (List.mem_map_of_mem hx)) hadd
    rw [addWord_of_lt (show b + a.off < word by omega)]
    exact .placed hleast hb hgap hi hins
  cases hfixed : a.vmFlags.has vmFixed with
  | true =>
    have hword := (hfit.fixed hfixed).2
    obtain ⟨hyes, hno⟩ := findPlace_fixed hok.tree hfixed hfit.nonempty
      (show a.start + a.need < word by omega)
    have hspots : ∀ y, y ∈ a.Spots (ranges s.vm (selectSpace s.vm user a.start)) ↔
        y = a.start ∧ FreeAt (ranges s.vm (selectSpace s.vm user a.start)) a.need y := fun y => by
      rw [VmapArgs.Spots, hfixed]
      rfl
    by_cases hfree : FreeAt (l.map Prod.fst) a.need a.start
    · obtain ⟨c, hf, hgap⟩ := hyes hfree
      rw [hf] at hfind
      refine hplaced a.start c (Except.ok.inj hfind).symm hword hgap ⟨?_, fun y hy => ?_⟩
      · exact (hspots _).mpr ⟨rfl, (hok.freeAt_ranges _ _).mpr hfree⟩
      · exact Nat.le_of_eq ((hspots y).mp hy).1.symm
    · rw [hno hfree] at hfind
      cases hfind
      obtain ⟨rfl, hvm⟩ := Prod.mk.inj (Except.ok.inj hlocked)
      refine .refused (Set.eq_empty_of_forall_notMem fun y hy => ?_) ?_
      · obtain ⟨rfl, hy⟩ := (hspots y).mp hy
        exact hfree ((hok.freeAt_ranges _ _).mp hy)
      · calc
          s' = ⟨s'.vm, s'.lock⟩ := rfl
          _ = s := by rw [← hvm, hlock]
  | false =>
    have hspots : ∀ y, y ∈ a.Spots (ranges s.vm (selectSpace s.vm user a.start)) ↔
        a.start ≤ y ∧ y % a.pgSize = 0 ∧ FreeAt (l.map Prod.fst) a.need y := fun y => by
      rw [← hok.freeAt_ranges, ← and_assoc]
      rw [VmapArgs.Spots, hfixed]
      rfl
    obtain ⟨y, hy, hyt⟩ := hfit.dynamic hfixed
    obtain ⟨hys, hya, hyf⟩ := (hspots y).mp hy
    -- the search starts at a chosen hint or above it, and that is not `NULL`
    have hpos : 0 < a.start := by
      have hbase : 0 < a.base := by
        rw [VmapArgs.base, hfixed]
        exact chooseBestHint_pos _ _
      rw [VmapArgs.start, hfixed, if_neg Bool.false_ne_true]
      split
      · exact hbase.trans_le (Nat.le_max_left _ _)
      · exact hbase
    obtain ⟨b, c, hf, -, hgap, hleast⟩ := findPlace_dynamic hok.tree hfixed hpos hfit.nonempty
      (need_aligned hvalid) hys hya hyf (by omega) hfind
    have hby := hleast.2 ⟨hys, hya, hyf⟩
    refine hplaced b c hf (by omega) hgap ⟨(hspots b).mpr hleast.1, fun z hz => hleast.2 ?_⟩
    exact (hspots z).mp hz

/-- A request that is not valid changes nothing. -/
theorem vmapInternal_not_valid (hvalid : areValidVmapArgs s.vm.backing a ≠ .ok true)
    (hrun : vmapInternal s user a = .ok (r, s')) : s' = s := by
  obtain ⟨valid, hv, hrun⟩ := bind_ok hrun
  cases valid with
  | true => exact absurd hv hvalid
  | false =>
    cases hrun
    rfl

/-! ## Runs of requests -/

/-- Where the half of a mapping with the given flags starts. -/
def halfStart (flags : Flags) : Nat := if flags.has vmUser then userSpaceStart else kernelSpaceStart

/-- Where the half of a mapping with the given flags ends. -/
def halfEnd (flags : Flags) : Nat := if flags.has vmUser then userSpaceEnd else kernelSpaceEnd

/-- The virtual range of a mapping lies in its half. Its end is not reduced modulo `2 ^ 64`. -/
def InHalf (vm : VmMapping) : Prop :=
  halfStart vm.flags ≤ vmVirtualStart vm ∧ vmVirtualStart vm + vm.virtSize ≤ halfEnd vm.flags

instance : DecidablePred InHalf := fun _ => inferInstanceAs (Decidable (_ ∧ _))

/-- All mappings lie in their halves. -/
def AllInHalf (s : Sys) : Prop :=
  ∀ sp, ∀ id ∈ (s.vm.space sp).mappings, InHalf (s.vm.mapping id)

/-- The virtual range of the request fits into its half: the fixed range lies in it, or there is a
free place in it. -/
structure VmapArgs.Bounded (a : VmapArgs) (rs : List Interval) : Prop where
  fit : a.Fit rs (halfEnd a.vmFlags)
  low : a.vmFlags.has vmFixed = true → halfStart a.vmFlags ≤ a.start

/-- A call of `vmap_internal`. -/
structure Request where
  user : Nat
  args : VmapArgs

/-- The ranges in the space that a request goes to. -/
def Request.ranges (o : Request) (s : Sys) : List Interval :=
  Vm.ranges s.vm (selectSpace s.vm o.user o.args.start)

def Request.Valid (o : Request) (s : Sys) : Prop := areValidVmapArgs s.vm.backing o.args = .ok true

/-- A request that returns, and that fits into its half if it is valid. -/
def BoundedStep (s : Sys) (o : Request) (s' : Sys) : Prop :=
  (o.Valid s → o.args.Bounded (o.ranges s)) ∧ ∃ r, vmapInternal s o.user o.args = .ok (r, s')

/-- The trees and lists of all spaces agree, and all mappings lie in their halves. -/
def Halved (s : Sys) : Prop := (∀ sp, ∃ l, SpaceOk s.vm sp l) ∧ AllInHalf s

theorem halfEnd_lt (flags : Flags) : halfEnd flags < word := by
  unfold halfEnd
  split <;> decide

theorem halfStart_le_chooseBestHint (hint : Nat) (flags : Flags) :
    halfStart flags ≤ chooseBestHint hint (readableFlags flags) := by
  have huser : (readableFlags flags).has vmUser = flags.has vmUser := by
    rw [readableFlags, has_vmUser, has_vmUser]
    split <;> simp [vmRead]
  rw [halfStart, chooseBestHint, huser]
  split
  · exact Nat.zero_le _
  · split
    next h => exact h.1.le
    · split
      · decide
      · split <;> decide

theorem halfStart_le_start (h : a.vmFlags.has vmFixed = false) : halfStart a.vmFlags ≤ a.start := by
  have hbase : halfStart a.vmFlags ≤ a.base := by
    rw [VmapArgs.base, h]
    exact halfStart_le_chooseBestHint _ _
  rw [VmapArgs.start, h, if_neg Bool.false_ne_true]
  split
  · exact hbase.trans (Nat.le_max_left _ _)
  · exact hbase

/-- Only two of the flags matter for the half and the range of a mapping. -/
theorem inHalf_flags (vm : VmMapping) {flags : Flags}
    (hstack : flags.has vmStack = vm.flags.has vmStack)
    (huser : flags.has vmUser = vm.flags.has vmUser) : InHalf { vm with flags } ↔ InHalf vm := by
  unfold InHalf halfStart halfEnd vmVirtualStart
  simp only [hstack, huser]

theorem newMapping_vmUser (a : VmapArgs) (sp base off size : Nat) :
    (newMapping a sp base off size).flags.has vmUser = a.vmFlags.has vmUser := by
  rw [newMapping, readableFlags, has_vmUser, has_vmUser]
  split <;> split <;> simp [vmProtMask, vmRead]

/-- The new mapping lies in its half iff its request fits there. -/
theorem inHalf_newMapping (hfit : a.Fit rs (word - 1)) {b : Nat} (hb : IsLeast (a.Spots rs) b)
    (hi : vmVirtInterval (newMapping a sp b a.off a.need) = ⟨b, b + a.need⟩) :
    InHalf (newMapping a sp b a.off a.need) ↔ a.Bounded rs := by
  have hstart : vmVirtualStart (newMapping a sp b a.off a.need) = b := congrArg Interval.start hi
  have hhalf : InHalf (newMapping a sp b a.off a.need) ↔
      halfStart a.vmFlags ≤ b ∧ b + a.need ≤ halfEnd a.vmFlags := by
    rw [InHalf, halfStart, halfEnd, hstart, newMapping_vmUser]
    rfl
  rw [hhalf]
  cases hfixed : a.vmFlags.has vmFixed with
  | true =>
    have hbs : b = a.start := by
      have := hb.1.1
      rwa [if_pos hfixed] at this
    subst hbs
    constructor
    · rintro ⟨h1, h2⟩
      refine ⟨⟨hfit.nonempty, hfit.reserve, fun hf => ⟨(hfit.fixed hf).1, h2⟩, fun hf => ?_⟩,
        fun _ => h1⟩
      exact absurd (hfixed.symm.trans hf) Bool.true_eq_false.mp
    · intro h
      exact ⟨h.low hfixed, (h.fit.fixed hfixed).2⟩
  | false =>
    have hbs : a.start ≤ b := by
      have := hb.1.1
      rw [hfixed] at this
      exact this.1
    constructor
    · rintro ⟨-, h2⟩
      refine ⟨⟨hfit.nonempty, hfit.reserve, fun hf => ?_, fun _ => ⟨b, hb.1, h2⟩⟩, fun hf => ?_⟩
      · simp [hfixed] at hf
      · simp [hfixed] at hf
    · intro h
      obtain ⟨y, hy, hyt⟩ := h.fit.dynamic hfixed
      have := hb.2 hy
      exact ⟨(halfStart_le_start hfixed).trans hbs, by omega⟩

/-- A space that the request did not go to. -/
theorem Inserts.other {vm : VmMapping} {c q : Nat} {k : List Item} (h : Inserts v v' sp l vm c)
    (hq : q ≠ sp) (hok : SpaceOk v q k) : SpaceOk v' q k := by
  have hbrk := h.brk
  refine ⟨?_, ?_, ?_, fun x hx => ?_⟩
  · rw [h.spaces q hq]
    exact hok.tree.mono hbrk.le
  · rw [h.spaces q hq]
    exact hok.list
  · rw [h.spaces q hq]
    exact hok.count
  · obtain ⟨h0, hlt, hint⟩ := hok.mapping x hx
    refine ⟨h0, by omega, ?_⟩
    rwa [h.others x.2 (Nat.ne_of_lt hlt)]

/-- A new mapping, after which all lie in their halves iff it does. -/
theorem Inserts.allInHalf_iff {vm : VmMapping} {c : Nat} (h : Inserts s.vm s'.vm sp l vm c)
    (hin : AllInHalf s) (hc : c = 0 ∨ c ∈ (s.vm.space sp).mappings) :
    AllInHalf s' ↔ InHalf vm := by
  obtain ⟨st, xs, ys, mappings, -, -, hlist, hspace⟩ := h.space
  obtain ⟨flags, hnew, hstack, huser⟩ := h.mapping
  obtain ⟨as, bs, hsplit, hadd⟩ := listAdd_spec hc s.vm.brk
  rw [hadd] at hlist
  cases hlist
  have hmappings : (s'.vm.space sp).mappings = as ++ s.vm.brk :: bs := by
    rw [hspace]
  rw [← inHalf_flags vm hstack huser, ← hnew]
  constructor
  · intro hs'
    refine hs' sp _ ?_
    rw [hmappings]
    exact List.mem_append_right _ (by simp)
  · intro hvm q id hid
    by_cases hbrk : id = s.vm.brk
    · rwa [hbrk]
    · rw [h.others id hbrk]
      refine hin q id ?_
      obtain rfl | hq := eq_or_ne q sp
      · rw [hmappings, List.mem_append, List.mem_cons] at hid
        rw [hsplit, List.mem_append]
        exact hid.imp_right fun hid => hid.resolve_left hbrk
      · rwa [h.spaces q hq] at hid

theorem VmapArgs.Fit.mono {top' : Nat} (h : a.Fit rs top) (hle : top ≤ top') : a.Fit rs top' where
  nonempty := h.nonempty
  reserve := h.reserve
  fixed hf := ⟨(h.fixed hf).1, Nat.le_trans (h.fixed hf).2 hle⟩
  dynamic hf :=
    let ⟨y, hy, hyt⟩ := h.dynamic hf
    ⟨y, hy, hyt.trans hle⟩

/-- What a valid request does whose range fits into the address space. -/
theorem vmapInternal_inHalf {o : Request} (hs : Halved s) (hvalid : o.Valid s)
    (hfit : o.args.Fit (o.ranges s) (word - 1))
    (hrun : vmapInternal s o.user o.args = .ok (r, s')) :
    (∀ sp, ∃ l, SpaceOk s'.vm sp l) ∧ (∀ e, r = .error e → s' = s) ∧
      ∀ addr, r = .ok addr → (AllInHalf s' ↔ o.args.Bounded (o.ranges s)) := by
  obtain ⟨l, hok⟩ := hs.1 (selectSpace s.vm o.user o.args.start)
  cases vmapInternal_grant hvalid hok hfit (by decide) hrun with
  | refused _ heq =>
    subst heq
    exact ⟨hs.1, fun _ _ => rfl, fun _ h => by cases h⟩
  | @placed b c hleast hb hgap hi hins =>
    have hc := hgap.before
    refine ⟨fun q => ?_, fun _ h => (by cases h), fun _ _ => ?_⟩
    · by_cases hq : q = selectSpace s.vm o.user o.args.start
      · obtain ⟨xs, ys, -, hok'⟩ := hins.spaceOk hok hc
        subst hq
        exact ⟨_, hok'⟩
      · obtain ⟨k, hk⟩ := hs.1 q
        exact ⟨k, hins.other hq hk⟩
    · rw [hins.allInHalf_iff hs.2 (hc.imp_right fun ⟨y, hy, hyc⟩ => hyc ▸ hok.mem_mappings hy)]
      exact inHalf_newMapping hfit hleast hi

theorem BoundedStep.halved {o : Request} (h : BoundedStep s o s') (hs : Halved s) : Halved s' := by
  obtain ⟨hbounded, r, hrun⟩ := h
  by_cases hvalid : o.Valid s
  · have hb := hbounded hvalid
    have hfit := hb.fit.mono (Nat.le_sub_one_of_lt (halfEnd_lt o.args.vmFlags))
    obtain ⟨hok, herr, hdone⟩ := vmapInternal_inHalf hs hvalid hfit hrun
    cases r with
    | error e =>
      rwa [herr e rfl]
    | ok addr => exact ⟨hok, (hdone addr rfl).mpr hb⟩
  · rwa [vmapInternal_not_valid hvalid hrun]

/--
**Mappings stay in their halves as long as the requests do.**

After any sequence of requests that fit into their halves, all mappings lie in their halves. One
more request that does not overflow the address space and makes a mapping keeps this iff it fits,
too.
-/
theorem reach_inHalf (h : Reach Halved BoundedStep s) :
    AllInHalf s ∧ ∀ (o : Request) (addr : Nat) (s' : Sys), o.Valid s →
      o.args.Fit (o.ranges s) (word - 1) → vmapInternal s o.user o.args = .ok (.ok addr, s') →
      (AllInHalf s' ↔ o.args.Bounded (o.ranges s)) := by
  have hs : Halved s := h.invariant (fun _ hs => hs) fun _ _ _ hs hstep => hstep.halved hs
  exact ⟨hs.2, fun o addr s' hvalid hfit hrun =>
    (vmapInternal_inHalf hs hvalid hfit hrun).2.2 addr rfl⟩

/-- A user mapping of two pages at the last page of the user half. -/
def highPages : VmapArgs :=
  { type := .phys, hint := 0x00007FFFFFFFF000, size := 0x2000, vmSize := 0
    vmFlags := vmUser ||| vmFixed ||| vmRead ||| vmNomap, data := 0x5000 }

theorem emptySys_space (sp : Nat) : TreeOk (emptySys.vm.space sp).tree emptySys.vm.brk [] ∧
    (emptySys.vm.space sp).mappings = [] ∧ (emptySys.vm.space sp).numMappings = 0 := by
  obtain rfl | hsp := eq_or_ne sp 1
  · exact ⟨treeOk_create Rb.blank 3 ⟨id, id, id, id, id, id⟩ 5 (by decide), rfl, rfl⟩
  · have hspace : emptySys.vm.space sp = emptySpace 4 kernelSpaceStart kernelSpaceEnd := if_neg hsp
    rw [hspace]
    exact ⟨treeOk_create Rb.blank 4 ⟨id, id, id, id, id, id⟩ 5 (by decide), rfl, rfl⟩

theorem halved_emptySys : Halved emptySys := by
  refine ⟨fun sp => ?_, fun sp id hid => ?_⟩
  · obtain ⟨htree, hlist, hcount⟩ := emptySys_space sp
    refine ⟨[], htree, ?_, ?_, fun x hx => (by cases hx)⟩
    · rw [hlist]
      exact List.Perm.nil
    · rw [hlist, hcount]
      rfl
  · simp [(emptySys_space sp).2.1] at hid

/-- Two pages in the middle of the user half. -/
theorem reach_inHalf_twoPages :
    ∃ addr s, vmapInternal emptySys 1 twoPages = .ok (.ok addr, s) ∧ AllInHalf s := by
  have hrun : (vmapInternal emptySys 1 twoPages).toOption.any (·.1.toBool) = true := by rfl
  obtain ⟨⟨r, s⟩, hs, hr⟩ := exists_ok_of_any hrun
  obtain ⟨addr, rfl⟩ := exists_of_toBool hr
  have hfix : twoPages.vmFlags.has vmFixed = true := by decide
  have hbounded : twoPages.Bounded ((⟨1, twoPages⟩ : Request).ranges emptySys) :=
    ⟨⟨by decide, fun _ hf => absurd (hfix.symm.trans hf) Bool.true_eq_false.mp, fun _ => by decide,
      fun hf => absurd (hfix.symm.trans hf) Bool.true_eq_false.mp⟩, fun _ => by decide⟩
  have hreach : Reach Halved BoundedStep s :=
    .next (⟨1, twoPages⟩ : Request) (.start halved_emptySys) ⟨fun _ => hbounded, _, hs⟩
  exact ⟨addr, s, hs, (reach_inHalf hreach).1⟩

/-- A fixed request that starts in the user half and ends behind it is granted. -/
theorem highPages_not_inHalf :
    ∃ addr s, vmapInternal emptySys 1 highPages = .ok (.ok addr, s) ∧
      ∃ id ∈ (s.vm.space 1).mappings, ¬ InHalf (s.vm.mapping id) := by
  have hrun : (vmapInternal emptySys 1 highPages).toOption.any (fun x => x.1.toBool &&
      (x.2.vm.space 1).mappings.any fun id => !decide (InHalf (x.2.vm.mapping id))) = true := by
    rfl
  obtain ⟨⟨r, s⟩, hs, hr⟩ := exists_ok_of_any hrun
  obtain ⟨hr, hid⟩ := Bool.and_eq_true_iff.mp hr
  obtain ⟨addr, rfl⟩ := exists_of_toBool hr
  obtain ⟨id, hid, hnot⟩ := List.any_eq_true.mp hid
  exact ⟨addr, s, hs, id, hid, by simpa using hnot⟩

end Osdev.Vm
