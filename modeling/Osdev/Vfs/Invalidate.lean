import Mathlib.Data.List.DropRight
import Mathlib.Data.List.Nodup
import Mathlib.Data.List.TakeWhile
import Osdev.Lib.Buckets
import Osdev.Lib.Run
import Osdev.Vfs.Mount
import Osdev.Vfs.Vcache

/-!
# What `vcache_invalidate` removes

A cached directory has the hashes of the entries below it, but `vcache_invalidate_nolock` looks each
of them up under the path of the directory itself. So it does not find the entries, it only drops
their hashes, and they stay in the cache. Where a child has the hash of the directory, the function
finds the directory again and calls itself for ever.

`CacheOk` holds of every cache that calls of `vcache_put` build. For such a cache
`vcacheInvalidateLoop_removed` says what an invalidation does: it takes out one entry.
-/

namespace Osdev.Vfs

open Osdev.Lib

variable {p : Path} {c : Vcache} {b : Nat} {d : Int}
variable {a l path : Str} {e : VcEntry} {x id : Nat} {s : Fs} {l' : List VcEntry} {ve : Ventry}

/-! ## Paths -/

theorem cstrEq_length {b : Str} (h : cstrEq a b = true) : a.length = b.length :=
  eq_of_beq (Bool.and_eq_true_iff.mp h).1

/-- A view that lies in its string. -/
def Path.Whole (p : Path) : Prop := p.toStr.length = p.len

theorem toStr_shorten (p : Path) (k : Nat) :
    ({ p with len := p.len - k } : Path).toStr = p.toStr.take (p.len - k) := by
  show (p.str.drop p.off).take (p.len - k) = ((p.str.drop p.off).take p.len).take (p.len - k)
  rw [List.take_take, Nat.min_eq_left (Nat.sub_le _ _)]

theorem Path.Whole.shorten (h : p.Whole) (k : Nat) :
    ({ p with len := p.len - k } : Path).Whole := by
  unfold Path.Whole at h ⊢
  rw [toStr_shorten, List.length_take, h]
  exact Nat.min_eq_left (Nat.sub_le _ _)

theorem take_rtakeWhile {n : Nat} (P : UInt8 → Bool) (hn : l.length = n) :
    l.take (n - (l.reverse.takeWhile P).length) = l.rdropWhile P := by
  have hsplit : l.rdropWhile P ++ l.rtakeWhile P = l := List.rdropWhile_append_rtakeWhile
  have hlen : (l.rdropWhile P).length = n - (l.reverse.takeWhile P).length := by
    have htake : (l.rtakeWhile P).length = (l.reverse.takeWhile P).length := List.length_reverse
    have := congrArg List.length hsplit
    rw [List.length_append] at this
    omega
  rw [← hlen]
  nth_rewrite 2 [← hsplit]
  exact List.take_left

theorem toStr_stripTrailing (h : p.Whole) (c : UInt8) :
    (p.stripTrailing c).toStr = p.toStr.rdropWhile (· = c) :=
  (toStr_shorten p _).trans (take_rtakeWhile _ h)

theorem toStr_removeUntilReverse (h : p.Whole) (c : UInt8) :
    (p.removeUntilReverse c).toStr = p.toStr.rdropWhile (· ≠ c) :=
  (toStr_shorten p _).trans (take_rtakeWhile _ h)

theorem whole_new (s : Str) : (Path.new s).Whole := by
  show (((s.take maxPathLen).drop 0).take (s.take maxPathLen).length).length = _
  rw [List.drop_zero, List.take_length]
  rfl

/-- Before the last slash the string is shorter. -/
theorem length_rdropWhile_lt {c : UInt8} (h : c ∈ l) :
    ((l.rdropWhile (· ≠ c)).rdropWhile (· = c)).length < l.length := by
  have hne : l.rdropWhile (· ≠ c) ≠ [] := by
    intro hnil
    have := List.rdropWhile_eq_nil_iff.mp hnil c h
    simp at this
  have hlast : (l.rdropWhile (· ≠ c)).getLast hne = c := by
    simpa using List.rdropWhile_last_not _ _ hne
  have hlt : ((l.rdropWhile (· ≠ c)).rdropWhile (· = c)).length <
      (l.rdropWhile (· ≠ c)).length := by
    refine lt_of_le_of_ne (List.rdropWhile_prefix _ _).length_le fun heq => ?_
    have hself := (List.rdropWhile_prefix (· = c) (l.rdropWhile (· ≠ c))).eq_of_length heq
    exact List.rdropWhile_eq_self_iff.mp hself hne (decide_eq_true hlast)
  exact lt_of_lt_of_le hlt (List.rdropWhile_prefix _ _).length_le

/-- The directory of a path is shorter than the path, that of the root apart. -/
theorem length_cstrDirname_lt {p : Str} (hp : 1 < p.length) :
    (cstrDirname p).length < p.length := by
  have hw := whole_new p
  have hto : (Path.new p).toStr = p.take maxPathLen := by
    show ((p.take maxPathLen).drop 0).take (p.take maxPathLen).length = _
    rw [List.drop_zero, List.take_length]
  unfold cstrDirname Path.dirname
  split
  · exact hp
  · dsimp only
    split
    · exact hp
    split
    · exact hp
    next hcount =>
      split
      · exact hp
      · have hw1 : ((Path.new p).stripTrailing slash).Whole := hw.shorten _
        have hw2 : (((Path.new p).stripTrailing slash).removeUntilReverse slash).Whole :=
          hw1.shorten _
        rw [toStr_stripTrailing hw2, toStr_removeUntilReverse hw1]
        have hmem : slash ∈ ((Path.new p).stripTrailing slash).toStr :=
          List.count_pos_iff.mp (Nat.pos_of_ne_zero hcount)
        refine lt_of_lt_of_le (length_rdropWhile_lt hmem) ?_
        rw [toStr_stripTrailing hw, hto]
        exact (List.rdropWhile_prefix _ _).length_le.trans (List.length_take_le' _ _)

/-! ## The cache -/

/-- All entries of the cache. -/
def Vcache.cached (c : Vcache) : List VcEntry := buckets vcacheCapacity c.entries

theorem mem_insertEntry {x : VcEntry} (h : x ∈ (c.insertEntry e).entries b) :
    x ∈ c.entries b ∨ x = e ∧ b = e.hash % vcacheCapacity := by
  by_cases hb : b = e.hash % vcacheCapacity
  · subst hb
    simpa [Vcache.insertEntry] using h
  · exact .inl (by simpa [Vcache.insertEntry, hb] using h)

theorem mem_of_removeEntry {x : VcEntry} {hash : Nat}
    (h : x ∈ (c.removeEntry path hash).entries b) : x ∈ c.entries b := by
  by_cases hb : b = hash % vcacheCapacity
  · subst hb
    exact List.mem_of_mem_eraseP (by simpa [Vcache.removeEntry] using h)
  · simpa [Vcache.removeEntry, hb] using h

/-- The number of a cached directory in the directory map. -/
def dirId (s : Fs) (ve : Nat) : Option Nat :=
  (s.ventry ve).bind fun e => if e.type = .dir then some (veUniqueId e) else none

theorem dirId_eq {p : Nat} {e : Ventry} (he : s.ventry p = some e) :
    dirId s p = if e.type = .dir then some (veUniqueId e) else none := by
  simp [dirId, he]

theorem dirId_eq_some {p : Nat} {e : Ventry} (he : s.ventry p = some e)
    (h : dirId s p = some id) : e.type = .dir ∧ veUniqueId e = id := by
  simpa [dirId_eq he] using h

/-- The numbers of the directories among the entries. -/
def dirIds (s : Fs) (l : List VcEntry) : List Nat := l.filterMap fun e => dirId s e.ve

theorem dirIds_cons (s : Fs) (e : VcEntry) (l : List VcEntry) :
    dirIds s (e :: l) = (dirId s e.ve).toList ++ dirIds s l := by
  cases h : dirId s e.ve with
  | none => exact List.filterMap_cons_none h
  | some id => exact List.filterMap_cons_some h

theorem dirIds_perm (s : Fs) {l : List VcEntry} (h : l.Perm l') : (dirIds s l).Perm (dirIds s l') :=
  h.filterMap _

/-- The references of the cache to an entry. -/
def refsTo (l : List VcEntry) (x : Nat) : Nat := l.countP (·.ve = x)

theorem refsTo_perm {l : List VcEntry} (h : l.Perm l') (x : Nat) : refsTo l x = refsTo l' x :=
  h.countP_eq _

theorem refsTo_cons_self (e : VcEntry) (l : List VcEntry) :
    refsTo (e :: l) e.ve = refsTo l e.ve + 1 :=
  List.countP_cons_of_pos (decide_eq_true rfl)

theorem refsTo_cons_of_ne (h : x ≠ e.ve) (l : List VcEntry) :
    refsTo (e :: l) x = refsTo l x :=
  List.countP_cons_of_neg (by simpa using h.symm)

/-- What calls of `vcache_put` keep. -/
structure CacheOk (s : Fs) : Prop where
  placed : ∀ b, ∀ e ∈ s.vcache.entries b, e.hash = s.hash e.path ∧ b = e.hash % vcacheCapacity
  noNull : ∀ e ∈ s.vcache.cached, 0 ∉ e.path
  absolute : ∀ e ∈ s.vcache.cached, cstrStartsWith e.path slash = true
  apart : (s.vcache.cached.map VcEntry.path).Nodup
  live : ∀ e ∈ s.vcache.cached, e.ve ≠ 0 ∧ ∃ ve, s.ventry e.ve = some ve
  /-- the callers have references of their own -/
  referenced : ∀ x ve, s.ventry x = some ve →
    (refsTo s.vcache.cached x : Int) < ve.refcount
  dirs : ∀ e ∈ s.vcache.cached, ∀ id, dirId s e.ve = some id → s.vcache.dirMap id ≠ none
  dirsApart : (dirIds s s.vcache.cached).Nodup
  count : s.vcache.size % word = s.vcache.cached.length % word

section Find

variable {s s' : Fs} {e e' : VcEntry} {path : Str} {hash : Nat}

theorem mem_cached (h : CacheOk s) (he : e ∈ s.vcache.entries b) : e ∈ s.vcache.cached := by
  obtain ⟨-, hb⟩ := h.placed b e he
  exact mem_buckets.mpr ⟨b, hb ▸ Nat.mod_lt _ (by decide), he⟩

theorem CacheOk.eq_of_path (h : CacheOk s) (he : e ∈ s.vcache.cached) (he' : e' ∈ s.vcache.cached)
    (hpath : e.path = e'.path) : e = e' :=
  List.inj_on_of_nodup_map h.apart he he' hpath

/-- What is found under a path is the entry of that path. -/
theorem findEntry_eq_some (h : CacheOk s) (hpath : 0 ∉ path)
    (hf : s.vcache.findEntry path hash = some e) :
    e ∈ s.vcache.cached ∧ e.path = path ∧ hash = s.hash path := by
  have hmem := mem_cached h (List.mem_of_find?_eq_some hf)
  have hmatch : e.matches path hash = true := List.find?_some hf
  have hmatch := Bool.and_eq_true_iff.mp hmatch
  have heq : e.path = path := (cstrEq_iff (h.noNull e hmem) hpath).mp hmatch.2
  have hhash : e.hash = hash := eq_of_beq hmatch.1
  refine ⟨hmem, heq, ?_⟩
  rw [← hhash, ← heq]
  exact (h.placed _ e (List.mem_of_find?_eq_some hf)).1

theorem findEntry_eq_none (h : CacheOk s) (hpath : 0 ∉ path)
    (hnot : ∀ e ∈ s.vcache.cached, e.path = path → hash ≠ s.hash path) :
    s.vcache.findEntry path hash = none := by
  refine Option.eq_none_iff_forall_ne_some.mpr fun e hf => ?_
  obtain ⟨he, hp, hhash⟩ := findEntry_eq_some h hpath hf
  exact hnot e he hp hhash

/-- Every cached entry is found. -/
theorem findEntry_of_mem (h : CacheOk s) (he : e ∈ s.vcache.cached) :
    s.vcache.findEntry e.path (s.hash e.path) = some e := by
  obtain ⟨b, -, hb⟩ := mem_buckets.mp he
  obtain ⟨hhash, rfl⟩ := h.placed b e hb
  have hmatch : e.matches e.path (s.hash e.path) = true :=
    Bool.and_eq_true_iff.mpr ⟨beq_iff_eq.mpr hhash,
      (cstrEq_iff (h.noNull e he) (h.noNull e he)).mpr rfl⟩
  cases hf : s.vcache.findEntry e.path (s.hash e.path) with
  | none =>
    have hnone := List.find?_eq_none.mp hf e (hhash ▸ hb)
    exact absurd hmatch hnone
  | some x =>
    obtain ⟨hx, hpath, -⟩ := findEntry_eq_some h (h.noNull e he) hf
    rw [h.eq_of_path hx he hpath]

end Find

/-! ## Entries that come and go -/

section Effects

variable {s s' : Fs} {e : VcEntry}

/-- The reference count of one entry changes. -/
structure Counted (s s' : Fs) (x : Nat) (d : Int) : Prop where
  hash : s'.hash = s.hash
  ventry : ∃ ve, s.ventry x = some ve ∧
    s'.ventry = store s.ventry x (some { ve with refcount := ve.refcount + d })

/-- `e` comes into the cache. -/
structure Inserted (s s' : Fs) (e : VcEntry) : Prop where
  counted : Counted s s' e.ve 1
  entries : s'.vcache.entries = (s.vcache.insertEntry e).entries
  size : s'.vcache.size = (s.vcache.insertEntry e).size
  newDir : ∀ id, dirId s e.ve = some id → s.vcache.dirMap id = none
  dirMap : ∀ id, s'.vcache.dirMap id ≠ none ↔ s.vcache.dirMap id ≠ none ∨ dirId s e.ve = some id

/-- `e` goes out of the cache. -/
structure Removed (s s' : Fs) (e : VcEntry) : Prop where
  counted : Counted s s' e.ve (-1)
  entries : s'.vcache.entries = (s.vcache.removeEntry e.path e.hash).entries
  size : s'.vcache.size = (s.vcache.removeEntry e.path e.hash).size
  dirMap : ∀ id, s'.vcache.dirMap id ≠ none ↔ s.vcache.dirMap id ≠ none ∧ dirId s e.ve ≠ some id

theorem Counted.dirId (h : Counted s s' x d) (y : Nat) :
    Vfs.dirId s' y = Vfs.dirId s y := by
  obtain ⟨ve, hve, hs'⟩ := h.ventry
  unfold Vfs.dirId
  rw [hs']
  unfold store
  split
  next heq =>
    subst heq
    rw [hve]
    rfl
  next => rfl

theorem Counted.dirIds (h : Counted s s' x d) (l : List VcEntry) :
    Vfs.dirIds s' l = Vfs.dirIds s l :=
  congrArg (l.filterMap ·) (funext fun e => h.dirId e.ve)

/-- Counters that move with the reference count stay below it. -/
theorem Counted.referenced {n n' : Nat → Nat} (h : Counted s s' x d)
    (hs : ∀ y ve, s.ventry y = some ve → (n y : Int) < ve.refcount) (hx : (n' x : Int) = n x + d)
    (hne : ∀ y, y ≠ x → n' y = n y) :
    ∀ y ve, s'.ventry y = some ve → (n' y : Int) < ve.refcount := by
  intro y we hy
  obtain ⟨ve, hve, hs'⟩ := h.ventry
  rw [hs'] at hy
  obtain rfl | hyx := eq_or_ne y x
  · cases (if_pos rfl).symm.trans hy
    have := hs y ve hve
    show (n' y : Int) < ve.refcount + d
    omega
  · rw [hne y hyx]
    exact hs y we ((if_neg hyx).symm.trans hy)

theorem Counted.isSome {y : Nat} (h : Counted s s' x d) (hy : ∃ ve, s.ventry y = some ve) :
    ∃ ve, s'.ventry y = some ve := by
  obtain ⟨ve, hve, hs'⟩ := h.ventry
  rw [hs']
  unfold store
  split
  · exact ⟨_, rfl⟩
  · exact hy

theorem Inserted.perm (h : Inserted s s' e) : s'.vcache.cached.Perm (e :: s.vcache.cached) := by
  rw [Vcache.cached, h.entries]
  exact buckets_insert_perm (Nat.mod_lt _ (by decide))

theorem Inserted.forall {P : VcEntry → Prop} (h : Inserted s s' e) (he : P e)
    (hs : ∀ x ∈ s.vcache.cached, P x) : ∀ x ∈ s'.vcache.cached, P x := by
  intro x hx
  rcases List.mem_cons.mp (h.perm.mem_iff.mp hx) with rfl | hx
  · exact he
  · exact hs x hx

theorem Removed.perm (h : Removed s s' e) (hs : CacheOk s) (he : e ∈ s.vcache.cached) :
    s.vcache.cached.Perm (e :: s'.vcache.cached) := by
  obtain ⟨b, -, hb⟩ := mem_buckets.mp he
  obtain ⟨hhash, rfl⟩ := hs.placed b e hb
  have hfind :
      (s.vcache.entries (e.hash % vcacheCapacity)).find? (VcEntry.matches e.path e.hash) =
        some e := by
    rw [hhash]
    exact findEntry_of_mem hs he
  unfold Vcache.cached
  rw [h.entries]
  exact buckets_perm_cons (Nat.mod_lt _ (by decide)) (perm_cons_eraseP hfind)

theorem CacheOk.inserted (hs : CacheOk s) (h : Inserted s s' e) (hve : e.ve ≠ 0)
    (hhash : e.hash = s.hash e.path) (hnull : 0 ∉ e.path)
    (habs : cstrStartsWith e.path slash = true)
    (hnew : s.vcache.findEntry e.path e.hash = none) : CacheOk s' := by
  have hperm := h.perm
  obtain ⟨ve, hve1, -⟩ := h.counted.ventry
  refine ⟨fun b x hx => ?_, h.forall hnull hs.noNull, h.forall habs hs.absolute, ?_,
    h.forall ⟨hve, h.counted.isSome ⟨ve, hve1⟩⟩ fun x hx => ?_,
    h.counted.referenced hs.referenced ?_ fun y hy => ?_, h.forall (fun id hid => ?_)
    fun x hx id hid => ?_, ?_, ?_⟩
  · rw [h.entries] at hx
    rw [h.counted.hash]
    rcases mem_insertEntry hx with hx | ⟨rfl, rfl⟩
    · exact hs.placed _ x hx
    · exact ⟨hhash, rfl⟩
  · rw [(hperm.map _).nodup_iff, List.map_cons, List.nodup_cons]
    refine ⟨fun hmem => ?_, hs.apart⟩
    obtain ⟨x, hx, hpath⟩ := List.mem_map.mp hmem
    have hfind := findEntry_of_mem hs hx
    rw [hpath, ← hhash, hnew] at hfind
    cases hfind
  · exact ⟨(hs.live x hx).1, h.counted.isSome (hs.live x hx).2⟩
  · rw [refsTo_perm hperm, refsTo_cons_self, Nat.cast_succ]
  · rw [refsTo_perm hperm, refsTo_cons_of_ne hy]
  · rw [h.counted.dirId] at hid
    exact (h.dirMap id).mpr (.inr hid)
  · rw [h.counted.dirId] at hid
    exact (h.dirMap id).mpr (.inl (hs.dirs x hx id hid))
  · rw [h.counted.dirIds, (dirIds_perm s hperm).nodup_iff, dirIds_cons]
    refine List.nodup_append.mpr
      ⟨Option.toList_nodup _, hs.dirsApart, fun id hid id' hid' heq => ?_⟩
    obtain ⟨x, hx, hxid⟩ := List.mem_filterMap.mp hid'
    exact hs.dirs x hx id' hxid (h.newDir id' (heq ▸ Option.mem_toList.mp hid))
  · rw [h.size, hperm.length_eq, List.length_cons]
    show (s.vcache.size + 1) % word = _
    rw [Nat.add_mod, hs.count, ← Nat.add_mod]

theorem CacheOk.removed (hs : CacheOk s) (h : Removed s s' e) (he : e ∈ s.vcache.cached) :
    CacheOk s' := by
  have hperm := h.perm hs he
  have hsub : ∀ x ∈ s'.vcache.cached, x ∈ s.vcache.cached := fun x hx =>
    hperm.mem_iff.mpr (by simp [hx])
  have hdirs := (dirIds_perm s hperm).nodup_iff.mp hs.dirsApart
  rw [dirIds_cons] at hdirs
  obtain ⟨-, hdirs, hdisj⟩ := List.nodup_append.mp hdirs
  refine ⟨fun b x hx => ?_, fun x hx => hs.noNull x (hsub x hx),
    fun x hx => hs.absolute x (hsub x hx),
    ?_, fun x hx => ?_, h.counted.referenced hs.referenced ?_ fun y hy => ?_, fun x hx id hid => ?_,
    ?_, ?_⟩
  · rw [h.counted.hash]
    rw [h.entries] at hx
    exact hs.placed b x (mem_of_removeEntry hx)
  · have happart := hs.apart
    rw [(hperm.map _).nodup_iff, List.map_cons, List.nodup_cons] at happart
    exact happart.2
  · exact ⟨(hs.live x (hsub x hx)).1, h.counted.isSome (hs.live x (hsub x hx)).2⟩
  · rw [refsTo_perm hperm, refsTo_cons_self]
    omega
  · rw [refsTo_perm hperm, refsTo_cons_of_ne hy]
  · rw [h.counted.dirId] at hid
    refine (h.dirMap id).mpr ⟨hs.dirs x (hsub x hx) id hid, fun hid' => ?_⟩
    exact hdisj id (Option.mem_toList.mpr hid') id (List.mem_filterMap.mpr ⟨x, hx, hid⟩) rfl
  · rwa [h.counted.dirIds]
  · have hcount := hs.count
    rw [hperm.length_eq, List.length_cons] at hcount
    rw [h.size]
    show subWord s.vcache.size 1 % word = _
    unfold subWord
    rw [word_eq] at hcount ⊢
    omega

end Effects

/-! ## The children of a directory -/

/-- The children of a directory are stored. -/
def withDir (s : Fs) (id : Nat) (dir : Option (List Nat)) : Fs :=
  { s with vcache := s.vcache.setDir id dir }

theorem run_getVcache (s : Fs) : getVcache s = .ok (s.vcache, s) := rfl

/-- A directory that is there stays there. -/
theorem update_ne_none {f : Nat → Option (List Nat)} {k : Nat} {l : List Nat} (h : f k ≠ none)
    (id : Nat) : Function.update f k (some l) id ≠ none ↔ f id ≠ none := by
  by_cases hk : id = k
  · simp [hk, h]
  · simp [hk]

theorem withDir_withDir (s : Fs) (id : Nat) (dir dir' : Option (List Nat)) :
    withDir (withDir s id dir) id dir' = withDir s id dir' := by
  simp [withDir, Vcache.setDir]

theorem withDir_self {dir : Option (List Nat)} (h : s.vcache.dirMap id = dir) :
    withDir s id dir = s := by
  simp [withDir, Vcache.setDir, ← h]

section Children

variable {s s' : Fs} {e : VcEntry} {ve : Ventry} {path : Str}
  {invalidate : Str → FsM Unit} {id : Nat}
  {hs : List Nat}

/-- Children that are not found are dropped. -/
theorem invalidateChildren_drops {fuel : Nat} (hdir : s.vcache.dirMap id = some hs)
    (hnone : ∀ h ∈ hs, s.vcache.findEntry path h = none) (hfuel : hs.length < fuel) :
    invalidateChildren invalidate path id fuel s = .ok ((), withDir s id (some [])) := by
  induction fuel generalizing s hs with
  | zero => omega
  | succ fuel ih =>
    rw [invalidateChildren, run_bind (run_getVcache s), hdir]
    cases hs with
    | nil =>
      rw [withDir_self hdir]
      rfl
    | cons h hs =>
      have hchild : invalidateChild invalidate s.vcache path id h hs s =
          .ok ((), withDir s id (some hs)) := by
        rw [invalidateChild, hnone h List.mem_cons_self]
        rfl
      have hnext := ih (s := withDir s id (some hs)) (Function.update_self ..)
        (fun h' hh' => hnone h' (List.mem_cons_of_mem h hh')) (Nat.lt_of_succ_lt_succ hfuel)
      rw [withDir_withDir] at hnext
      exact (run_bind hchild _).trans hnext

/-- A directory of which a child has the same hash. -/
structure SelfChild (s : Fs) (path : Str) (e : VcEntry) (ve : Ventry) : Prop where
  find : s.vcache.findEntry path (s.hash path) = some e
  own : e.path = path
  others : ∀ h, h ≠ s.hash path → s.vcache.findEntry path h = none
  entry : e.ve ≠ 0 ∧ s.ventry e.ve = some ve
  type : ve.type = .dir
  child : ∃ hs, s.vcache.dirMap (veUniqueId ve) = some hs ∧ s.hash path ∈ hs

theorem SelfChild.withDir (h : SelfChild s path e ve) (hmem : s.hash path ∈ hs) :
    SelfChild (withDir s (veUniqueId ve) (some hs)) path e ve :=
  ⟨h.find, h.own, h.others, h.entry, h.type, hs, Function.update_self .., hmem⟩

theorem SelfChild.invalidateChildren_error (hs : SelfChild s path e ve)
    (hrec : ∀ s, SelfChild s path e ve → ∃ err, invalidate path s = .error err) (fuel : Nat) :
    ∃ err, invalidateChildren invalidate path (veUniqueId ve) fuel s = .error err := by
  induction fuel generalizing s with
  | zero => exact ⟨_, rfl⟩
  | succ fuel ih =>
    obtain ⟨children, hdir, hmem⟩ := hs.child
    rw [invalidateChildren, run_bind (run_getVcache s), hdir]
    cases children with
    | nil => cases hmem
    | cons h children =>
      by_cases hh : h = s.hash path
      · obtain ⟨err, herr⟩ := hrec s hs
        have hchild : invalidateChild invalidate s.vcache path (veUniqueId ve) h children s =
            .error err := by
          rw [invalidateChild, hh, hs.find, ← herr, ← hs.own]
        exact ⟨err, run_bind_error hchild _⟩
      · have hchild : invalidateChild invalidate s.vcache path (veUniqueId ve) h children s =
            .ok ((), Vfs.withDir s (veUniqueId ve) (some children)) := by
          rw [invalidateChild, hs.others h hh]
          rfl
        obtain ⟨err, herr⟩ := ih (hs.withDir (List.mem_of_ne_of_mem (Ne.symm hh) hmem))
        exact ⟨err, (run_bind hchild _).trans herr⟩

/-- Then the function does not return: it calls itself with the same path. -/
theorem SelfChild.diverges (h : SelfChild s path e ve) (fuel : Nat) :
    ∃ err, vcacheInvalidateLoop fuel path s = .error err := by
  induction fuel generalizing s with
  | zero => exact ⟨_, rfl⟩
  | succ fuel ih =>
    obtain ⟨children, hdir, -⟩ := h.child
    obtain ⟨err, herr⟩ := h.invalidateChildren_error (fun _ h => ih h) (children.length + 1)
    have hdirs : invalidateDir (vcacheInvalidateLoop fuel) path ve s = .error err := by
      rw [invalidateDir, if_pos h.type, run_bind (run_getVcache s), hdir]
      exact run_bind_error herr _
    refine ⟨err, ?_⟩
    rw [vcacheInvalidateLoop, run_bind (show hashOf path s = .ok (s.hash path, s) from rfl),
      run_bind (run_getVcache s), h.find]
    exact (run_bind (deref_run h.entry.1 h.entry.2) _).trans (run_bind_error hdirs _)

end Children

/-! ## An invalidation -/

section Invalidate

variable {s s' : Fs} {e : VcEntry} {ve : Ventry} {fuel : Nat}

/-- No child of the entry has its hash. -/
def ChildrenDiffer (s : Fs) (e : VcEntry) : Prop :=
  ∀ id hs, dirId s e.ve = some id → s.vcache.dirMap id = some hs → s.hash e.path ∉ hs

/-- What is cached for the directory above is another directory. -/
def ParentIsDir (s : Fs) (e : VcEntry) : Prop :=
  e.path ≠ rootPath → ∀ parent pe,
    s.vcache.findEntry (cstrDirname e.path) (s.hash (cstrDirname e.path)) = some parent →
    s.ventry parent.ve = some pe →
      s.vcache.dirMap (veUniqueId pe) ≠ none ∧ dirId s e.ve ≠ some (veUniqueId pe)

/-- The cache without the directory of the entry. -/
def withoutDir (s : Fs) (e : VcEntry) : Vcache :=
  match dirId s e.ve with
  | none => s.vcache
  | some id => s.vcache.setDir id none

/-- The cache without the entry. -/
def withoutEntry (s : Fs) (e : VcEntry) : Vcache :=
  (withoutDir s e).removeEntry e.path (s.hash e.path)

/-- The state when only the directory above is left to do. -/
def taken (s : Fs) (e : VcEntry) (ve : Ventry) : Fs :=
  { s with
    vcache := withoutEntry s e
    ventry := store s.ventry e.ve (some { ve with refcount := ve.refcount - 1 }) }

theorem invalidateDir_ok (h : CacheOk s) (he : e ∈ s.vcache.cached) (hve : s.ventry e.ve = some ve)
    (hchild : ChildrenDiffer s e) (invalidate : Str → FsM Unit) :
    invalidateDir invalidate e.path ve s = .ok ((), { s with vcache := withoutDir s e }) := by
  have hid := dirId_eq hve
  unfold invalidateDir withoutDir
  by_cases hdir : ve.type = .dir
  · rw [if_pos hdir] at hid ⊢
    obtain ⟨hs, hhs⟩ := Option.ne_none_iff_exists'.mp (h.dirs e he _ hid)
    have hnone : ∀ c ∈ hs, s.vcache.findEntry e.path c = none := fun c hc =>
      findEntry_eq_none h (h.noNull e he) fun _ _ _ hhash => hchild _ _ hid hhs (hhash ▸ hc)
    rw [run_bind (run_getVcache s), hhs, hid]
    refine (run_bind (invalidateChildren_drops hhs hnone (Nat.lt_succ_self _)) _).trans ?_
    exact congrArg (fun s => Except.ok ((), s)) (withDir_withDir s _ (some []) none)
  · rw [if_neg hdir] at hid ⊢
    rw [hid]
    rfl

theorem veRelease_ok (hx : x ≠ 0) (hve : s.ventry x = some ve) (href : ve.refcount ≠ 1) :
    veRelease x s = .ok ((), { s with
      ventry := store s.ventry x (some { ve with refcount := ve.refcount - 1 }) }) := by
  refine (run_bind (show (get : FsM Fs) s = .ok (s, s) from rfl) _).trans ?_
  rw [veReleaseLoop, if_neg hx]
  refine (run_bind (deref_run hx hve) _).trans ?_
  rw [if_neg href]
  rfl

/-- Up to the directory above, an invalidation takes out its own entry. -/
theorem vcacheInvalidateLoop_taken (h : CacheOk s) (he : e ∈ s.vcache.cached)
    (hve : s.ventry e.ve = some ve) (hchild : ChildrenDiffer s e) :
    vcacheInvalidateLoop (fuel + 1) e.path s =
      removeFromParent e.path (s.hash e.path) (taken s e ve) := by
  have hne := (h.live e he).1
  have href : ve.refcount ≠ 1 := by
    have hlt := h.referenced e.ve ve hve
    have hpos : 0 < refsTo s.vcache.cached e.ve :=
      List.countP_pos_iff.mpr ⟨e, he, decide_eq_true rfl⟩
    omega
  rw [vcacheInvalidateLoop, run_bind (show hashOf e.path s = .ok (s.hash e.path, s) from rfl),
    run_bind (run_getVcache s), findEntry_of_mem h he]
  refine (run_bind (deref_run hne hve) _).trans ?_
  refine (run_bind (invalidateDir_ok h he hve hchild _) _).trans ?_
  have hremove : setVcache (withoutEntry s e) { s with vcache := withoutDir s e } =
      .ok ((), { s with vcache := withoutEntry s e }) := rfl
  refine (run_bind (run_getVcache _) _).trans ?_
  refine (run_bind hremove _).trans ?_
  exact run_bind (veRelease_ok (s := { s with vcache := withoutEntry s e }) hne hve href) _

theorem dirMap_withoutEntry (s : Fs) (e : VcEntry) (id : Nat) :
    (withoutEntry s e).dirMap id ≠ none ↔ s.vcache.dirMap id ≠ none ∧ dirId s e.ve ≠ some id := by
  show (withoutDir s e).dirMap id ≠ none ↔ _
  unfold withoutDir
  cases hid : dirId s e.ve with
  | none => simp
  | some k =>
    show Function.update s.vcache.dirMap k none id ≠ none ↔ _
    obtain rfl | hk := eq_or_ne id k
    · simp
    · rw [Function.update_of_ne hk]
      simp [Ne.symm hk]

/-- The list of one directory changes. -/
theorem taken_removed (h : CacheOk s) (he : e ∈ s.vcache.cached) (hve : s.ventry e.ve = some ve)
    (hentries : c.entries = (withoutEntry s e).entries) (hsize : c.size = (withoutEntry s e).size)
    (hdirs : ∀ id, c.dirMap id ≠ none ↔ (withoutEntry s e).dirMap id ≠ none) :
    Removed s { taken s e ve with vcache := c } e := by
  have hhash : e.hash = s.hash e.path := by
    obtain ⟨b, -, hb⟩ := mem_buckets.mp he
    exact (h.placed b e hb).1
  have hsame : (withoutDir s e).entries = s.vcache.entries ∧
      (withoutDir s e).size = s.vcache.size := by
    unfold withoutDir
    split <;> exact ⟨rfl, rfl⟩
  refine ⟨⟨rfl, ve, hve, ?_⟩, ?_, ?_, fun id => (hdirs id).trans (dirMap_withoutEntry s e id)⟩
  · show store s.ventry e.ve _ = _
    rw [Int.sub_eq_add_neg]
  · show c.entries = _
    rw [hentries, hhash]
    show Function.update (withoutDir s e).entries _ _ = Function.update s.vcache.entries _ _
    rw [hsame.1]
  · show c.size = _
    rw [hsize]
    show subWord (withoutDir s e).size 1 = subWord s.vcache.size 1
    rw [hsame.2]

/-- Another path is found as before. -/
theorem findEntry_withoutEntry (s : Fs) (e : VcEntry) (hash : Nat)
    (hlen : path.length ≠ e.path.length) :
    (withoutEntry s e).findEntry path hash = s.vcache.findEntry path hash := by
  have hsame : (withoutDir s e).entries = s.vcache.entries := by
    unfold withoutDir
    split <;> rfl
  show (Function.update (withoutDir s e).entries _ _ _).find? _ = (s.vcache.entries _).find? _
  rw [hsame]
  by_cases hb : hash % vcacheCapacity = s.hash e.path % vcacheCapacity
  · rw [hb, Function.update_self]
    refine find?_eraseP_of_disjoint fun x _ hx => ?_
    have hx := cstrEq_length (Bool.and_eq_true_iff.mp hx).2
    refine Bool.eq_false_iff.mpr fun hx' => hlen ?_
    rw [← cstrEq_length (Bool.and_eq_true_iff.mp hx').2, hx]
  · rw [Function.update_of_ne hb]

/-- A cached path other than the root has more than one character. -/
theorem CacheOk.length_lt (h : CacheOk s) (he : e ∈ s.vcache.cached) (hroot : e.path ≠ rootPath) :
    1 < e.path.length := by
  have habs : e.path.head? = some slash := eq_of_beq (h.absolute e he)
  match e.path, habs, hroot with
  | [_], rfl, hroot => exact absurd rfl hroot
  | _ :: _ :: _, _, _ => exact Nat.succ_lt_succ (Nat.succ_pos _)

theorem cstrEq_rootPath (h : CacheOk s) (he : e ∈ s.vcache.cached) :
    cstrEq e.path rootPath = true ↔ e.path = rootPath :=
  cstrEq_iff (h.noNull e he) (by decide)

/-- What is cached for the directory above, and its entry after the removal. -/
theorem taken_parent {parent : VcEntry} (h : CacheOk s) (hve : s.ventry e.ve = some ve)
    (hf : s.vcache.findEntry (cstrDirname e.path) (s.hash (cstrDirname e.path)) = some parent) :
    parent.ve ≠ 0 ∧ ∃ pe pe', s.ventry parent.ve = some pe ∧
      (taken s e ve).ventry parent.ve = some pe' ∧
      veUniqueId pe' = veUniqueId pe := by
  obtain ⟨hne, pe, hpe⟩ := h.live parent (mem_cached h (List.mem_of_find?_eq_some hf))
  refine ⟨hne, ?_⟩
  by_cases heq : parent.ve = e.ve
  · have hsame : ve = pe := Option.some.inj (hve.symm.trans (heq ▸ hpe))
    exact ⟨pe, _, hpe, if_pos heq, hsame ▸ rfl⟩
  · exact ⟨pe, pe, hpe, (if_neg heq).trans hpe, rfl⟩

theorem removeFromParent_run (hroot : cstrEq path rootPath ≠ true) (hash : Nat) :
    removeFromParent path hash s =
      (match s.vcache.findEntry (cstrDirname path) (s.hash (cstrDirname path)) with
        | none => pure ()
        | some parent => do
          let pe ← getVe parent.ve
          match s.vcache.dirMap (veUniqueId pe) with
          | none => throw .null
          | some hs =>
            setVcache (s.vcache.setDir (veUniqueId pe) (some (hs.erase hash))) : FsM Unit) s := by
  rw [removeFromParent, if_neg hroot]
  rfl

/-- The directory above loses the hash of the entry, if it can. -/
theorem removeFromParent_taken (h : CacheOk s) (he : e ∈ s.vcache.cached)
    (hve : s.ventry e.ve = some ve) :
    (ParentIsDir s e ∧ ∃ s',
      removeFromParent e.path (s.hash e.path) (taken s e ve) = .ok ((), s') ∧ Removed s s' e) ∨
    (¬ ParentIsDir s e ∧
      removeFromParent e.path (s.hash e.path) (taken s e ve) = .error .null) := by
  have hplain : Removed s (taken s e ve) e := taken_removed h he hve rfl rfl fun _ => Iff.rfl
  by_cases hroot : e.path = rootPath
  · refine .inl ⟨fun hne => absurd hroot hne, ?_⟩
    rw [removeFromParent, if_pos ((cstrEq_rootPath h he).mpr hroot)]
    exact ⟨_, rfl, hplain⟩
  have hlen := (length_cstrDirname_lt (h.length_lt he hroot)).ne
  have hrun := removeFromParent_run (s := taken s e ve)
    (fun hc => hroot ((cstrEq_rootPath h he).mp hc)) (s.hash e.path)
  rw [show (taken s e ve).vcache.findEntry _ _ = _ from findEntry_withoutEntry s e _ hlen] at hrun
  cases hparent : s.vcache.findEntry (cstrDirname e.path) (s.hash (cstrDirname e.path)) with
  | none =>
    rw [show (taken s e ve).hash = s.hash from rfl, hparent] at hrun
    refine .inl ⟨fun _ parent pe hf => ?_, _, hrun, hplain⟩
    simp [hparent] at hf
  | some parent =>
    obtain ⟨hne, pe, pe', hpe, hpe', hid⟩ := taken_parent h hve hparent
    rw [show (taken s e ve).hash = s.hash from rfl, hparent] at hrun
    have hrun := hrun.trans (run_bind (deref_run hne hpe') _)
    rw [hid] at hrun
    have hiff : ParentIsDir s e ↔ (withoutEntry s e).dirMap (veUniqueId pe) ≠ none := by
      rw [dirMap_withoutEntry]
      constructor
      · exact fun hp => hp hroot parent pe hparent hpe
      · intro hp _ parent' pe1 hparent' hpe1
        rw [hparent] at hparent'
        cases hparent'
        rw [hpe] at hpe1
        cases hpe1
        exact hp
    cases hdir : (withoutEntry s e).dirMap (veUniqueId pe) with
    | none =>
      rw [show (taken s e ve).vcache.dirMap _ = none from hdir] at hrun
      exact .inr ⟨fun hp => hiff.mp hp hdir, hrun⟩
    | some hs =>
      rw [show (taken s e ve).vcache.dirMap _ = some hs from hdir] at hrun
      have hp : ParentIsDir s e := hiff.mpr (by simp [hdir])
      exact .inl ⟨hp, _, hrun, taken_removed h he hve rfl rfl (update_ne_none (hiff.mp hp))⟩

theorem selfChild_of_not (h : CacheOk s) (he : e ∈ s.vcache.cached) (hve : s.ventry e.ve = some ve)
    (hchild : ¬ ChildrenDiffer s e) : SelfChild s e.path e ve := by
  unfold ChildrenDiffer at hchild
  push Not at hchild
  obtain ⟨id, hs, hid, hhs, hmem⟩ := hchild
  have hdir := dirId_eq_some hve hid
  refine ⟨findEntry_of_mem h he, rfl, fun c hc => ?_, ⟨(h.live e he).1, hve⟩, hdir.1, hs,
    hdir.2 ▸ hhs, hmem⟩
  exact findEntry_eq_none h (h.noNull e he) fun _ _ _ => hc

/-- **An invalidation takes out its own entry and no other**, or it does not return. -/
theorem vcacheInvalidate_cases (h : CacheOk s) (he : e ∈ s.vcache.cached) :
    (ChildrenDiffer s e ∧ ParentIsDir s e ∧ ∃ s',
      vcacheInvalidate e.path s = .ok ((), s') ∧ Removed s s' e) ∨
    (¬ (ChildrenDiffer s e ∧ ParentIsDir s e) ∧ ∃ err, vcacheInvalidate e.path s = .error err) := by
  obtain ⟨-, ve, hve⟩ := h.live e he
  have hloop : vcacheInvalidate e.path s = vcacheInvalidateLoop
    (s.vcache.size + 1 + 1) e.path s := rfl
  rw [hloop]
  by_cases hchild : ChildrenDiffer s e
  · rw [vcacheInvalidateLoop_taken h he hve hchild]
    rcases removeFromParent_taken h he hve with ⟨hp, hrun⟩ | ⟨hp, hrun⟩
    · exact .inl ⟨hchild, hp, hrun⟩
    · exact .inr ⟨fun hall => hp hall.2, _, hrun⟩
  · exact .inr ⟨fun hall => hchild hall.1, (selfChild_of_not h he hve hchild).diverges _⟩

end Invalidate

/-! ## Calls of `vcache_put` -/

section Put

variable {s s' : Fs} {path : Str} {hash x : Nat} {u : Unit}

theorem putDir_ok (h : putDir ve s = .ok (u, s')) :
    (ve.type = .dir ∧ s.vcache.dirMap (veUniqueId ve) = none ∧
      s' = withDir s (veUniqueId ve) (some [])) ∨ (ve.type ≠ .dir ∧ s' = s) := by
  unfold putDir at h
  split at h
  next hdir =>
    obtain ⟨c, s1, hc, h⟩ := run_bind_ok h
    cases hc
    obtain ⟨hnone, h⟩ := run_guard_eq_ok.mp h
    cases h
    exact .inl ⟨hdir, not_not.mp hnone, rfl⟩
  next hdir =>
    cases h
    exact .inr ⟨hdir, rfl⟩

/-- The lists of the directories may change. -/
theorem addToParent_ok (h : addToParent path hash s = .ok (u, s')) :
    ∃ dirMap, s' = { s with vcache := { s.vcache with dirMap } } ∧
      ∀ id, dirMap id ≠ none ↔ s.vcache.dirMap id ≠ none := by
  unfold addToParent at h
  split at h
  · cases h
    exact ⟨_, rfl, fun _ => Iff.rfl⟩
  obtain ⟨hash', s1, hc, h⟩ := run_bind_ok h
  cases hc
  obtain ⟨c, s1, hc, h⟩ := run_bind_ok h
  cases hc
  cases hf : s.vcache.findEntry (cstrDirname path) (s.hash (cstrDirname path)) with
  | none =>
    rw [hf] at h
    cases h
    exact ⟨_, rfl, fun _ => Iff.rfl⟩
  | some parent =>
    rw [hf] at h
    obtain ⟨-, pe, -, h⟩ := deref_bind_eq_ok h
    cases hhs : s.vcache.dirMap (veUniqueId pe) with
    | none =>
      rw [hhs] at h
      cases h
    | some hs =>
      rw [hhs] at h
      cases h
      exact ⟨_, rfl, update_ne_none (by simp [hhs])⟩

theorem veGetref_ok (hx : x ≠ 0) (hve : s.ventry x = some ve)
    (h : veGetref x s = .ok (u, s')) :
    s' = { s with ventry := store s.ventry x (some { ve with refcount := ve.refcount + 1 }) } := by
  unfold veGetref at h
  rw [if_neg hx] at h
  cases (run_bind (deref_run hx hve) _).symm.trans h
  rfl

theorem vcachePutNew_inserted (h : vcachePutNew path hash x s = .ok (u, s')) :
    x ≠ 0 ∧ Inserted s s' ⟨path, hash, x⟩ := by
  obtain ⟨hx, ve, hve, h⟩ := deref_bind_eq_ok h
  obtain ⟨_, s1, hdir, h⟩ := run_bind_ok h
  obtain ⟨_, s2, href, h⟩ := run_bind_ok h
  obtain ⟨c, s3, hc, h⟩ := run_bind_ok h
  cases hc
  obtain ⟨_, s3, hc, h⟩ := run_bind_ok h
  cases hc
  obtain ⟨dirMap, rfl, hdirMap⟩ := addToParent_ok h
  have hid := dirId_eq hve
  refine ⟨hx, ?_⟩
  rcases putDir_ok hdir with ⟨htype, hnone, rfl⟩ | ⟨htype, hs1⟩
  · rw [if_pos htype] at hid
    obtain rfl := veGetref_ok (s := withDir s (veUniqueId ve) (some [])) hx hve href
    refine ⟨⟨rfl, ve, hve, rfl⟩, rfl, rfl, fun id hk => ?_, fun id => (hdirMap id).trans ?_⟩
    · rw [hid] at hk
      cases hk
      exact hnone
    · show Function.update s.vcache.dirMap (veUniqueId ve) (some []) id ≠ none ↔
        _ ∨ dirId s x = some id
      by_cases hk : id = veUniqueId ve
      · simp [hid, hk]
      · simp [hid, hk, Ne.symm hk]
  · rw [if_neg htype] at hid
    rw [hs1] at href
    obtain rfl := veGetref_ok hx hve href
    refine ⟨⟨rfl, ve, hve, rfl⟩, rfl, rfl, fun id hk => ?_, fun id => (hdirMap id).trans ?_⟩
    · simp [hid] at hk
    · show _ ↔ _ ∨ dirId s x = some id
      rw [hid]
      simp [Vcache.insertEntry]

theorem CacheOk.putNew (hs : CacheOk s) (hnull : 0 ∉ path) (habs : cstrStartsWith path slash = true)
    (hnew : s.vcache.findEntry path (s.hash path) = none)
    (h : vcachePutNew path (s.hash path) x s = .ok (u, s')) : CacheOk s' := by
  obtain ⟨hx, hins⟩ := vcachePutNew_inserted h
  exact hs.inserted hins hx rfl hnull habs hnew

theorem CacheOk.put (hs : CacheOk s) (hnull : 0 ∉ path) (h : vcachePut path x s = .ok (u, s')) :
    CacheOk s' := by
  obtain ⟨-, ve, -, h⟩ := deref_bind_eq_ok h
  split at h
  · cases h
    exact hs
  split at h
  · cases h
    exact hs
  next habs =>
    have habs : cstrStartsWith path slash = true := Bool.eq_true_of_not_eq_false habs
    obtain ⟨hash, s1, hc, h⟩ := run_bind_ok h
    cases hc
    obtain ⟨c, s1, hc, h⟩ := run_bind_ok h
    cases hc
    cases hf : s.vcache.findEntry path (s.hash path) with
    | none =>
      rw [hf] at h
      exact hs.putNew hnull habs hf h
    | some e =>
      rw [hf] at h
      dsimp only at h
      split at h
      · cases h
        exact hs
      · obtain ⟨he, rfl, -⟩ := findEntry_eq_some hs hnull hf
        obtain ⟨_, s1, hinv, h⟩ := run_bind_ok h
        rcases vcacheInvalidate_cases hs he with ⟨-, -, s2, hrun, hrem⟩ | ⟨-, err, hrun⟩
        · rw [hrun] at hinv
          cases hinv
          have hs1 := hs.removed hrem he
          have hhash : s1.hash = s.hash := hrem.counted.hash
          rw [← hhash] at h
          refine hs1.putNew hnull habs (findEntry_eq_none hs1 hnull fun x hx hpath => ?_) h
          have hnodup := ((hrem.perm hs he).map VcEntry.path).nodup_iff.mp hs.apart
          exact absurd (hpath ▸ List.mem_map_of_mem hx) (List.nodup_cons.mp hnodup).1
        · simp [hrun] at hinv

/-- A state with an empty cache, in which every entry is referenced. -/
structure EmptyCache (s : Fs) : Prop where
  entries : ∀ b, s.vcache.entries b = []
  dirMap : ∀ id, s.vcache.dirMap id = none
  size : s.vcache.size = 0
  referenced : ∀ x ve, s.ventry x = some ve → 0 < ve.refcount

/-- A call of `vcache_put` with a path and an entry. A path has no null byte. -/
def Put (s : Fs) (args : Str × Nat) (s' : Fs) : Prop :=
  0 ∉ args.1 ∧ vcachePut args.1 args.2 s = .ok ((), s')

theorem EmptyCache.ok (h : EmptyCache s) : CacheOk s := by
  have hnil : s.vcache.cached = [] := by
    exact List.flatMap_eq_nil_iff.mpr fun b _ => h.entries b
  exact ⟨by simp [h.entries], by simp [hnil], by simp [hnil], by simp [hnil], by simp [hnil],
    by simpa [hnil, refsTo] using h.referenced, by simp [hnil], by simp [hnil, dirIds],
    by simp [hnil, h.size]⟩

theorem reach_cacheOk (h : Reach EmptyCache Put s) : CacheOk s :=
  h.invariant (fun _ h => h.ok) fun _ _ _ hs hput => hs.put hput.1 hput.2

end Put

/-! ## What an invalidation should do -/

/-- The start of every path below `p`. -/
def dirPrefix (p : Str) : Str := if p.getLast? = some slash then p else p ++ [slash]

/-- `q` lies under the directory `p`. -/
def Under (p q : Str) : Prop := q ≠ p ∧ dirPrefix p <+: q

/-- Nothing at or under `p` is left, everything else is found, and the entries are counted. -/
structure Covered (s s' : Fs) (p : Str) : Prop where
  gone : ∀ e ∈ s'.vcache.cached, e.path ≠ p ∧ ¬ Under p e.path
  found : ∀ e ∈ s.vcache.cached, e.path ≠ p → ¬ Under p e.path →
    s'.vcache.findEntry e.path (s'.hash e.path) = some e
  /-- as a `size_t` -/
  count : s'.vcache.size % word = s'.vcache.cached.length % word

section Cover

variable {s s' : Fs} {e : VcEntry}

theorem Removed.covered_iff (hs : CacheOk s) (he : e ∈ s.vcache.cached) (h : Removed s s' e) :
    Covered s s' e.path ↔ ∀ x ∈ s.vcache.cached, ¬ Under e.path x.path := by
  have hs' := hs.removed h he
  have hperm := h.perm hs he
  have hnodup := List.nodup_cons.mp ((hperm.map VcEntry.path).nodup_iff.mp hs.apart)
  constructor
  · intro hc x hx hunder
    rcases List.mem_cons.mp (hperm.mem_iff.mp hx) with rfl | hx
    · exact hunder.1 rfl
    · exact (hc.gone x hx).2 hunder
  · intro hnone
    refine ⟨fun x hx => ⟨fun heq => hnodup.1 (heq ▸ List.mem_map_of_mem hx), ?_⟩,
      fun x hx hne _ => ?_,
      hs'.count⟩
    · exact hnone x (hperm.mem_iff.mpr (by simp [hx]))
    · rcases List.mem_cons.mp (hperm.mem_iff.mp hx) with rfl | hx
      · exact absurd rfl hne
      · exact findEntry_of_mem hs' hx

/-- **Invalidating a cached path covers its subtree if and only if nothing under it is cached**, it
has not its own hash among its children, and the path above it, if cached, is a directory. -/
theorem vcacheInvalidate_covers_iff (h : Reach EmptyCache Put s) (he : e ∈ s.vcache.cached) :
    (∃ s', vcacheInvalidate e.path s = .ok ((), s') ∧ Covered s s' e.path) ↔
      (∀ x ∈ s.vcache.cached, ¬ Under e.path x.path) ∧ ChildrenDiffer s e ∧ ParentIsDir s e := by
  have hs := reach_cacheOk h
  rcases vcacheInvalidate_cases hs he with ⟨hchild, hparent, s', hrun, hrem⟩ | ⟨hnot, err, hrun⟩
  · constructor
    · rintro ⟨s1, hrun1, hc⟩
      rw [hrun] at hrun1
      cases hrun1
      exact ⟨(hrem.covered_iff hs he).mp hc, hchild, hparent⟩
    · exact fun hall => ⟨s', hrun, (hrem.covered_iff hs he).mpr hall.1⟩
  · constructor
    · rintro ⟨s1, hrun1, -⟩
      simp [hrun] at hrun1
    · exact fun hall => absurd hall.2 hnot

end Cover

/-! ## Two directories and a file -/

/-- An entry that is referenced once. -/
def plainEntry (id : Nat) (type : VType) : Ventry where
  id := id
  type := type
  state := .alive
  linked := true
  isMount := false
  isFsroot := false
  name := []
  data := 0
  refcount := 1
  vfsId := 1
  vn := 0
  parent := 0
  ops := .ramfs
  chldCount := 0
  mount := 0
  children := []

/-- Entries of two directories and a file, and an empty cache. -/
def threeEntries : Fs :=
  { bareFs sumHash with
    ventry := fun x =>
      if x = 1 then some (plainEntry 1 .dir)
      else if x = 2 then some (plainEntry 2 .dir)
      else if x = 3 then some (plainEntry 3 .reg)
      else none
    brk := 4 }

/-- `"/a"`. -/
def pathA : Str := [slash, 0x61]

/-- `"/a/b"`. -/
def pathAB : Str := [slash, 0x61, slash, 0x62]

theorem threeEntries_emptyCache : EmptyCache threeEntries := by
  refine ⟨fun _ => rfl, fun _ => rfl, rfl, fun x ve hve => ?_⟩
  unfold threeEntries at hve
  dsimp only at hve
  split at hve
  · cases hve
    decide
  split at hve
  · cases hve
    decide
  obtain ⟨-, hve⟩ := Option.ite_none_right_eq_some.mp hve
  cases hve
  decide

/-- The cache after calls of `vcache_put`. -/
def putAll (args : List (Str × Nat)) : Option Fs :=
  checkedRun (fun _ a => !a.1.contains 0) (fun s a => (vcachePut a.1 a.2 s).map Prod.snd) args
    threeEntries

theorem putAll_reach {args : List (Str × Nat)} (h : putAll args = some s) :
    Reach EmptyCache Put s := by
  refine Reach.of_checkedRun (fun s a s' hnull hput => ?_) (.start threeEntries_emptyCache) h
  obtain ⟨⟨_, s1⟩, hrun, rfl⟩ := map_eq_ok.mp hput
  exact ⟨by simpa using hnull, hrun⟩

theorem putAll_covers_iff : ∃ s e, Reach EmptyCache Put s ∧ e ∈ s.vcache.cached ∧ e.path = pathA ∧
    ((∃ s', vcacheInvalidate e.path s = .ok ((), s') ∧ Covered s s' e.path) ↔
      (∀ x ∈ s.vcache.cached, ¬ Under e.path x.path) ∧ ChildrenDiffer s e ∧ ParentIsDir s e) := by
  have hrun : (putAll [(rootPath, 1), (pathA, 2)]).any
      (fun s => s.vcache.cached.any fun e => e.path == pathA) = true := by decide +kernel
  obtain ⟨s, hs, hany⟩ := (Option.any_eq_true _ _).mp hrun
  obtain ⟨e, he, hpath⟩ := List.any_eq_true.mp hany
  exact ⟨s, e, putAll_reach hs, he, eq_of_beq hpath,
    vcacheInvalidate_covers_iff (putAll_reach hs) he⟩

/-- **After `/a` is invalidated, `/a/b` is still in the cache.** -/
theorem putAll_keeps_child : ∃ s s', Reach EmptyCache Put s ∧
    (∃ e ∈ s.vcache.cached, e.path = pathA ∧ dirId s e.ve ≠ none) ∧
    vcacheInvalidate pathA s = .ok ((), s') ∧ (∃ e ∈ s'.vcache.cached, e.path = pathAB) ∧
    Under pathA pathAB ∧ ¬ Covered s s' pathA := by
  have hrun : (putAll [(rootPath, 1), (pathA, 2), (pathAB, 3)]).any (fun s =>
      (s.vcache.cached.any fun e => e.path == pathA && dirId s e.ve != none) &&
      (vcacheInvalidate pathA s).toOption.any fun r =>
        r.2.vcache.cached.any fun e => e.path == pathAB) = true := by decide +kernel
  obtain ⟨s, hs, hany⟩ := (Option.any_eq_true _ _).mp hrun
  obtain ⟨hdir, hinv⟩ := Bool.and_eq_true_iff.mp hany
  obtain ⟨e, he, hdir⟩ := List.any_eq_true.mp hdir
  obtain ⟨hpath, hdir⟩ := Bool.and_eq_true_iff.mp hdir
  obtain ⟨⟨_, s'⟩, hinv, hleft⟩ := exists_ok_of_any hinv
  obtain ⟨x, hx, hxpath⟩ := List.any_eq_true.mp hleft
  have hxpath : x.path = pathAB := eq_of_beq hxpath
  have hunder : Under pathA pathAB := ⟨by decide, by decide⟩
  refine ⟨s, s', putAll_reach hs,
    ⟨e, he, eq_of_beq hpath, by simpa using hdir⟩, hinv, ⟨x, hx, hxpath⟩, hunder,
    fun hc => ?_⟩
  have hgone := (hc.gone x hx).2
  rw [hxpath] at hgone
  exact hgone hunder

end Osdev.Vfs
