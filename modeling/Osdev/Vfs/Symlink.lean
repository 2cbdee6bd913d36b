import Osdev.Vfs.HardLink

/-!
# Symbolic links

`fs_readlink` resolves its path with `VR_LNK`, but without `VR_NOFOLLOW`. So the last link is
followed like the others, and what it leads to is not a link any more: each link that a walk meets
is followed, and the places where a walk can begin are directories.
-/

namespace Osdev.Vfs

open Osdev.Lib

set_option synthInstance.maxSize 1000

/-! ## Where links can be -/

/-- The pointer is not one of a link, and never will be. -/
def NotLink (s : Fs) (p : Nat) : Prop :=
  p ≠ 0 → p < s.brk ∧ ∀ e, s.ventry p = some e → e.type ≠ .lnk

/-- The root, mounted roots, directories with entries and the directories of processes are not
links. -/
structure LinksApart (s : Fs) : Prop where
  below : ∀ p e, s.ventry p = some e → p < s.brk
  root : NotLink s s.vcache.root
  pwd : ∀ q pr, s.proc q = some pr → NotLink s pr.pwd
  mount : ∀ p e, s.ventry p = some e → e.isMount = true → NotLink s e.mount
  parent : ∀ p e, s.ventry p = some e → NotLink s e.parent

/-- Links stay apart, and what is not a link does not get to be one. -/
def StaysApart (s s' : Fs) : Prop :=
  LinksApart s → LinksApart s' ∧ ∀ p, NotLink s p → NotLink s' p

section Relations

variable {s s' : Fs} {p : Nat}

instance : Std.Refl StaysApart := ⟨fun _ h => ⟨h, fun _ hp => hp⟩⟩

instance : Trans StaysApart StaysApart StaysApart where
  trans h h' hs := by
    obtain ⟨hs1, h1⟩ := h hs
    obtain ⟨hs', h2⟩ := h' hs1
    exact ⟨hs', fun p hp => h2 p (h1 p hp)⟩

/-- Every entry is one from before with the same type and mounted root, or a new one without a
mounted root. Its parent is the one from before, or is not a link. -/
theorem staysApart_of_entries (hbrk : s.brk ≤ s'.brk) (hroot : s'.vcache.root = s.vcache.root)
    (hproc : s'.proc = s.proc) (h : ∀ p e', s'.ventry p = some e' →
      (∃ e, s.ventry p = some e ∧ e'.type = e.type ∧ e'.isMount = e.isMount ∧ e'.mount = e.mount ∧
        (e'.parent = e.parent ∨ NotLink s e'.parent)) ∨
      (s.brk ≤ p ∧ p < s'.brk ∧ e'.isMount = false ∧ NotLink s e'.parent)) :
    StaysApart s s' := by
  intro hs
  have hnot : ∀ p, NotLink s p → NotLink s' p := by
    intro p hp h0
    obtain ⟨hlt, htype⟩ := hp h0
    refine ⟨hlt.trans_le hbrk, fun e' he' => ?_⟩
    obtain ⟨e, he, htypes, -⟩ | ⟨hnew, -⟩ := h p e' he'
    · exact htypes ▸ htype e he
    · exact absurd hlt (Nat.not_lt.mpr hnew)
  refine ⟨⟨fun p e' he' => ?_, hroot ▸ hnot _ hs.root,
    fun q pr hq => hnot _ (hs.pwd q pr (hproc ▸ hq)),
    fun p e' he' hm => ?_, fun p e' he' => ?_⟩, hnot⟩
  · obtain ⟨e, he, -⟩ | ⟨-, hlt, -⟩ := h p e' he'
    · exact (hs.below p e he).trans_le hbrk
    · exact hlt
  · obtain ⟨e, he, -, hmounts, hmount, -⟩ | ⟨-, -, hmounts, -⟩ := h p e' he'
    · exact hmount ▸ hnot _ (hs.mount p e he (hmounts ▸ hm))
    · simp [hmounts] at hm
  · obtain ⟨e, he, -, -, -, hparent | hparent⟩ | ⟨-, -, -, hparent⟩ := h p e' he'
    · exact hparent ▸ hnot _ (hs.parent p e he)
    · exact hnot _ hparent
    · exact hnot _ hparent

theorem Aside.staysApart (h : Aside s s') : StaysApart s s' := by
  refine staysApart_of_entries h.brk h.root h.proc fun p e' he' => ?_
  obtain ⟨e, he, ht, -⟩ := h.entry p e' he'
  exact .inl ⟨e, he, ht.type, ht.isMount, ht.mount, ht.parent.imp_right fun h h0 => absurd h h0⟩

end Relations

instance : Covers StaysApart := ⟨fun _ _ h => h.aside.staysApart⟩
instance : Spans StaysApart := ⟨fun _ _ => Aside.staysApart⟩

/-! ## Making entries -/

section Make

variable {α : Type} {p ve vn dve dvn vfs node dent : Nat} {name : Str} {n d : Vnode} {attr : Vattr}
  {e e' : Ventry} {P : Fs → Prop}

/-- A store that leaves entries alone. -/
theorem keeps_apart_store {a : Fs → α} {g : Fs → Fs} (hbrk : ∀ s, s.brk ≤ (g s).brk)
    (hroot : ∀ s, (g s).vcache.root = s.vcache.root) (hproc : ∀ s, (g s).proc = s.proc)
    (hve : ∀ s, (g s).ventry = s.ventry) : Keeps StaysApart (fun s => .ok (a s, g s) : FsM α) where
  keeps s b s' h := by
    cases h
    refine staysApart_of_entries (hbrk s) (hroot s) (hproc s) fun p e' he' => ?_
    exact .inl ⟨e', hve s ▸ he', rfl, rfl, rfl, .inl rfl⟩

instance : Keeps StaysApart (setVn p n) :=
  keeps_apart_store (fun _ => le_rfl) (fun _ => rfl) (fun _ => rfl) fun _ => rfl

instance {id : Nat} {type : VType} : Keeps StaysApart (vnAlloc id type) :=
  keeps_apart_store (fun _ => Nat.le_succ _) (fun _ => rfl) (fun _ => rfl) fun _ => rfl

/-- An entry is stored with another vnode, links or contents. -/
theorem setVe_apart (htype : e'.type = e.type) (hmounts : e'.isMount = e.isMount)
    (hmount : e'.mount = e.mount)
    (hparent : ∀ s, P s → e'.parent = e.parent ∨ NotLink s e'.parent) :
    KeepsFrom (fun s => P s ∧ s.ventry p = some e) StaysApart (setVe p e') := by
  rintro s a s' ⟨hP, hs⟩ h
  cases h
  refine staysApart_of_entries le_rfl rfl rfl fun q g hg => .inl ?_
  obtain ⟨rfl, rfl⟩ | ⟨-, hg⟩ := store_eq_some hg
  · exact ⟨e, hs, htype, hmounts, hmount, hparent s hP⟩
  · exact ⟨g, hg, rfl, rfl, rfl, .inl rfl⟩

/-- A new entry that has no parent yet. -/
theorem newVe_apart (hmounts : e.isMount = false) (hparent : e.parent = 0) :
    Keeps StaysApart (newVe e) where
  keeps s a s' h := by
    cases h
    refine staysApart_of_entries (Nat.le_succ _) rfl rfl fun q g hg => ?_
    obtain ⟨rfl, rfl⟩ | ⟨-, hg⟩ := store_eq_some hg
    · exact .inr ⟨le_rfl, Nat.lt_succ_self _, hmounts, fun h0 => absurd hparent h0⟩
    · exact .inl ⟨g, hg, rfl, rfl, rfl, .inl rfl⟩

instance : Keeps StaysApart (veLinkVnode ve vn) := by
  refine keeps_deref fun e => .skip fun n => .skip fun _ => .skip fun _ => ?_
  refine .bind (Q := fun _ s => True ∧ s.ventry ve = some e) Keeps.weaken ?_ fun _ => ?_
  · rintro s a s' ⟨-, he⟩ h
    cases h
    exact ⟨trivial, he⟩
  · exact setVe_apart rfl rfl rfl fun _ _ => .inl rfl

instance : Keeps StaysApart (veAllocLinked name vn) := by
  refine .step fun n => .step fun ops => ?_
  exact .seq (newVe_apart rfl rfl) inferInstance

instance : Keeps StaysApart (ramfsNewEntry name vn node dent) := by
  refine .step fun n => .step fun _ => ?_
  refine .step fun ve => keeps_deref fun e => ?_
  exact .seq (setVe_apart rfl rfl rfl fun _ _ => .inl rfl)

instance : Keeps StaysApart (ramfsVnLookup d name) := by unfold ramfsVnLookup; infer_instance

instance : Keeps StaysApart (ramfsNewNode d name attr) := by
  unfold ramfsNewNode ramfsAllocNode ramfsAllocDentry
  infer_instance

instance : Keeps StaysApart (ramfsFinishNode d name attr node dent) := by
  unfold ramfsFinishNode ramfsAddDentry
  infer_instance

instance {target : Str} : Keeps StaysApart (ramfsVnSymlink d name attr target) := by
  unfold ramfsVnSymlink
  infer_instance

instance : Keeps StaysApart (vfsAddNode vfs ve) := by unfold vfsAddNode; infer_instance

/-- Links are apart, and the directory is not one. -/
def DirReady (dve : Nat) (s : Fs) : Prop := LinksApart s ∧ NotLink s dve

theorem DirReady.stays {s s' : Fs} (h : DirReady dve s) (h' : StaysApart s s') :
    DirReady dve s' := by
  obtain ⟨hs', hnot⟩ := h' h.1
  exact ⟨hs', hnot _ h.2⟩

/-- Two parts that both start from such a state. -/
theorem DirReady.bind {β : Type} {m : FsM α} {f : α → FsM β}
    (hm : KeepsFrom (DirReady dve) StaysApart m)
    (hf : ∀ a, KeepsFrom (DirReady dve) StaysApart (f a)) :
    KeepsFrom (DirReady dve) StaysApart (m >>= f) :=
  .bind hm (fun _ _ _ hs h => hs.stays (hm _ _ _ hs h)) hf

/-- The child gets a parent that is not a link. -/
theorem veAddChild_apart : KeepsFrom (DirReady dve) StaysApart (veAddChild dve ve) :=
  keepsFrom_veAddChild (fun _ _ => DirReady.stays)
    (fun _ => setVe_apart rfl rfl rfl fun _ hs => .inr hs.1.2)
    (fun _ => setVe_apart rfl rfl rfl fun _ _ => .inl rfl) fun _ _ _ => Keeps.weaken

theorem addEntry_apart : KeepsFrom (DirReady dve) StaysApart (addEntry dve vfs ve) :=
  DirReady.bind Keeps.weaken fun _ => DirReady.bind veAddChild_apart fun _ => Keeps.weaken

theorem vnLookup_apart : KeepsFrom (DirReady dve) StaysApart (vnLookup dve dvn name) := by
  refine .skip fun d => .ite (fun _ => Keeps.weaken) fun _ => ?_
  refine .ite (fun _ => Keeps.weaken) fun _ => .skip fun de => ?_
  refine .skip fun child => .ite (fun _ => Keeps.weaken) fun _ => ?_
  refine KeepsFrom.skip fun v => KeepsFrom.ite (fun _ => Keeps.weaken) fun _ => ?_
  refine KeepsFrom.skip fun _ => DirReady.bind Keeps.weaken fun r => ?_
  cases r with
  | error e => exact Keeps.weaken
  | ok ve => exact DirReady.bind addEntry_apart fun _ => Keeps.weaken

theorem vnMakeChecked_apart {make : FsM (Except Errno Nat)} {add : Nat → FsM Unit}
    [Keeps StaysApart make] (hadd : ∀ ve, KeepsFrom (DirReady dve) StaysApart (add ve)) :
    KeepsFrom (DirReady dve) StaysApart (vnMakeChecked d make add) := by
  refine .skip fun v => .ite (fun _ => Keeps.weaken) fun _ => ?_
  refine DirReady.bind Keeps.weaken fun r => ?_
  cases r with
  | error e => exact Keeps.weaken
  | ok ve => exact DirReady.bind (hadd ve) fun _ => Keeps.weaken

theorem vnMake_apart {names : List Str} {make : Vnode → FsM (Except Errno Nat)}
    [∀ d, Keeps StaysApart (make d)] :
    KeepsFrom (DirReady dve) StaysApart (vnMake dve dvn names make) := by
  refine .skip fun d => .skip fun r => ?_
  cases r with
  | error e => exact Keeps.weaken
  | ok u => exact vnMakeChecked_apart fun _ => addEntry_apart

instance : Keeps StaysApart (ramfsVnCreate d name attr) := by
  unfold ramfsVnCreate memfileAlloc
  infer_instance

instance : Keeps StaysApart (ramfsVnMkdir d name attr) := by unfold ramfsVnMkdir; infer_instance
instance : Keeps StaysApart (ramfsVnMknod d name attr) := by unfold ramfsVnMknod; infer_instance

theorem addDevice_apart {dev : Nat} :
    KeepsFrom (DirReady dve) StaysApart (addDevice dve vfs dev ve) := by
  refine DirReady.bind Keeps.weaken fun _ => KeepsFrom.skip fun e => KeepsFrom.skip fun vDev => ?_
  refine KeepsFrom.skip fun n => DirReady.bind Keeps.weaken fun _ => ?_
  exact DirReady.bind veAddChild_apart fun _ => Keeps.weaken

theorem vnMknod_apart {mode dev : Nat} :
    KeepsFrom (DirReady dve) StaysApart (vnMknod dve dvn name mode dev) := by
  refine .skip fun d => .skip fun r => ?_
  cases r with
  | error e => exact Keeps.weaken
  | ok u =>
    cases mknodType mode with
    | none => exact Keeps.weaken
    | some type => exact vnMakeChecked_apart fun _ => addDevice_apart

instance {target : Nat} : Keeps StaysApart (ramfsVnHardlink d name target) := by
  unfold ramfsVnHardlink ramfsAllocDentry ramfsAddDentry
  refine .step fun t => .step fun dent => .step fun _ => .step fun ve => keeps_deref fun e => ?_
  exact .seq (setVe_apart rfl rfl rfl fun _ _ => .inl rfl)

theorem vnHardlink_apart {target : Nat} :
    KeepsFrom (DirReady dve) StaysApart (vnHardlink dve dvn name target) := by
  refine .skip fun d => .skip fun t => .ite (fun _ => Keeps.weaken) fun _ => ?_
  refine .skip fun v => .ite (fun _ => Keeps.weaken) fun _ => ?_
  refine .ite (fun _ => Keeps.weaken) fun _ => .skip fun ops => ?_
  refine .ite (fun _ => Keeps.weaken) fun _ => vnMakeChecked_apart fun ve => ?_
  exact DirReady.bind Keeps.weaken fun _ => veAddChild_apart

end Make

/-! ## Following links -/

/-- Links are apart, and the pointers in `K` are not links. -/
def Apart (K : Set Nat) (s : Sys) : Prop := LinksApart s.fs ∧ ∀ p ∈ K, NotLink s.fs p

/-- A result is not a link, if `c` holds. -/
def Landed (K : Set Nat) (c : Prop) (out : Out) (s : Sys) : Prop :=
  Apart K s ∧ (c → out.res = .ok () → NotLink s.fs out.ve)

/-- The same for the flags of a resolution: a result is a link only if the last link is not
followed, and if links are asked for there is no result, unless it is the directory of a missing
entry. -/
structure Lands (K : Set Nat) (flags : Flags) (out : Out) (s : Sys) : Prop where
  apart : Apart K s
  ok : out.res = .ok () → flags.has vrNofollow = false →
    NotLink s.fs out.ve ∧ (flags.has vrLnk = true → flags.has vrExclusv = true)
  error : ∀ e, out.res = .error e → NotLink s.fs out.ve

/-- The entry at the end of a walk is not a link. -/
def WalkEnd.Sound (flags : Flags) (s : Sys) : WalkEnd → Prop
  | .done ve _ _ => flags.has vrNofollow = false → NotLink s.fs ve
  | .exclusive ve _ _ => NotLink s.fs ve ∧ flags.has vrExclusv = true
  | .parent ve _ => NotLink s.fs ve
  | _ => True

/-- One round of the walk leads to an entry that is not a link, unless it is the last one. -/
def RoundSound (flags : Flags) (isLast : Bool) (r : Except WalkEnd (Nat × Sbuf × Option Sbuf))
    (s : Sys) : Prop :=
  match r with
  | .error stop => stop.Sound flags s
  | .ok (ve, _, _) => (isLast = true ∧ flags.has vrNofollow = true) ∨ NotLink s.fs ve

section Resolve

variable {α β : Type} {K K' : Set Nat} {s s' : Sys} {ve vn atVe next start depth fuel mount : Nat}
  {flags : Flags} {isLast : Bool} {path name : Str} {part : Path} {fullpath : Option Sbuf}
  {curpath : Sbuf} {err : Errno} {m : SysM α} {f : α → SysM β} {S : β → Sys → Prop} {c : Prop}

theorem Apart.stays (h : Apart K s) (h' : OnFs StaysApart s s') : Apart K s' := by
  obtain ⟨hs', hnot⟩ := h' h.1
  exact ⟨hs', fun p hp => hnot p (h.2 p hp)⟩

theorem Apart.mono (h : Apart K s) (hK : K' ⊆ K) : Apart K' s := ⟨h.1, fun p hp => h.2 p (hK hp)⟩

theorem Apart.insert (h : Apart K s) (hve : NotLink s.fs ve) : Apart (insert ve K) s :=
  ⟨h.1, Set.forall_mem_insert.mpr ⟨hve, h.2⟩⟩

theorem Apart.insertIf (h : Apart K s) (hve : c → NotLink s.fs ve) :
    Apart (K ∪ {p | p = ve ∧ c}) s := by
  refine ⟨h.1, fun p hp => ?_⟩
  obtain hp | ⟨rfl, hc⟩ := hp
  · exact h.2 p hp
  · exact hve hc

theorem apart_keeps [Keeps (OnFs StaysApart) m] : Ends (Apart K) m (fun _ => Apart K) :=
  .stable fun _ _ => Apart.stays

/-- A first part that makes no entries. -/
theorem apart_bind [Keeps (OnFs StaysApart) m] (hf : ∀ a, Ends (Apart K) (f a) S) :
    Ends (Apart K) (m >>= f) S :=
  apart_keeps.bind hf

/-- A call reads an object. -/
theorem apart_read {table : Fs → Nat → Option α} :
    Ends (Apart K) (onFs (deref table ve))
      (fun b s => Apart K s ∧ ve ≠ 0 ∧ table s.fs ve = some b) := by
  refine fun s hs => ⟨fun b s' h => ?_, fun _ _ => trivial⟩
  obtain ⟨rfl, h0, hb⟩ := onFs_deref_eq_ok h
  exact ⟨hs, h0, hb⟩

/-- A first part gives out a pointer that is not one of a link. -/
theorem apart_gives {m : FsM α} {f : α → Nat} [Keeps (OnFs StaysApart) (onFs m)]
    (h : ∀ s fs a, Apart K s → m s.fs = .ok (a, fs) → NotLink s.fs (f a)) :
    Ends (Apart K) (onFs m) (fun a => Apart (insert (f a) K)) := by
  refine fun s hs => ⟨fun a s' h' => ?_, fun _ _ => trivial⟩
  have hstays : OnFs StaysApart s s' := Keeps.keeps _ _ _ h'
  obtain ⟨fs, hrun, rfl⟩ := onFs_eq_ok h'
  exact (hs.insert (h s fs a hs hrun)).stays hstays

/-- The pointers that are known not to be links when an entry has been read. -/
def seen (ve : Nat) (e : Ventry) : Set Nat :=
  {p | p = e.parent ∨ (p = e.mount ∧ e.isMount = true) ∨ (p = ve ∧ e.type ≠ .lnk)}

theorem Apart.seen {e : Ventry} (h : Apart K s) (he : s.fs.ventry ve = some e) :
    Apart (K ∪ seen ve e) s := by
  refine ⟨h.1, fun p hp => ?_⟩
  obtain hp | rfl | ⟨rfl, hm⟩ | ⟨rfl, htype⟩ := hp
  · exact h.2 p hp
  · exact h.1.parent ve e he
  · exact h.1.mount ve e he hm
  · refine fun _ => ⟨h.1.below p e he, fun e' he' => ?_⟩
    cases he.symm.trans he'
    exact htype

theorem Landed.mono {out : Out} (h : Landed K c out s) (hK : K' ⊆ K) : Landed K' c out s :=
  ⟨h.1.mono hK, h.2⟩

theorem followRet_landed (hve : c → ve ∈ K) :
    Ends (Apart K) (followRet ve atVe fullpath) (Landed K c) :=
  apart_bind fun _ => .pure fun _ hs => ⟨hs, fun hc _ => hs.2 ve (hve hc)⟩

theorem followError_landed :
    Ends (Apart K) (followError ve atVe next fullpath err) (Landed K c) := by
  refine apart_bind fun _ => apart_bind fun _ => apart_bind fun _ => apart_bind fun _ => ?_
  exact .pure fun s hs => ⟨hs, fun _ h => (by cases h)⟩

theorem followSwap_landed (hnext : next ∈ K) :
    Ends (Apart K) (followSwap ve next atVe fullpath) (Landed K c) :=
  apart_bind fun _ => apart_bind fun _ => followRet_landed fun _ => hnext

theorem followMount_landed (hmount : mount ∈ K) :
    Ends (Apart K) (followMount ve mount atVe fullpath) (Landed K c) := by
  refine apart_bind fun _ => apart_bind fun b => ?_
  exact .ite (fun _ => followSwap_landed hmount) fun _ => followError_landed

theorem validateResult_lnk {type : VType} {u : Unit} (h : validateResult type flags = .ok u)
    (htype : type ≠ .lnk) : flags.has vrLnk = false := by
  obtain ⟨-, h⟩ := guard_eq_ok.mp h
  obtain ⟨-, h⟩ := guard_eq_ok.mp h
  obtain ⟨-, h⟩ := guard_eq_ok.mp h
  split at h
  · cases h
  next hlnk => simpa [htype] using hlnk

/-- An error without an entry. -/
theorem fails_lands :
    Ends (Apart K) (pure ⟨.error err, 0, fullpath⟩ : SysM Out) (Lands K flags) :=
  .pure fun _ hs => ⟨hs, fun h => (by cases h), fun _ _ h0 => absurd rfl h0⟩

theorem unlockRelease_lands :
    Ends (Apart K) (unlockRelease ve err fullpath) (Lands K flags) :=
  apart_bind fun _ => apart_bind fun _ => fails_lands

theorem Lands.mono {out : Out} (h : Lands K flags out s) (hK : K' ⊆ K) : Lands K' flags out s :=
  ⟨h.apart.mono hK, h.ok, h.error⟩

theorem walkMissing_sound (hs : NotLink s.fs ve) :
    (walkMissing flags ve isLast err curpath fullpath).Sound flags s := by
  unfold walkMissing
  split
  next h => exact ⟨hs, h.2.2⟩
  · split
    · exact hs
    · exact trivial

section Follow

variable {rec : Resolver}
  (hrec : ∀ {K : Set Nat} {start : Nat} {path : Str} {depth : Nat} {fullpath : Option Sbuf},
    start ∈ K →
    Ends (Apart K) (rec start path 0 depth fullpath) (Lands K 0))

include hrec

theorem followLink_landed (hat : atVe ∈ K) :
    Ends (Apart K) (followLink rec ve vn atVe depth fullpath) (Landed K c) := by
  refine apart_bind fun n => .ite (fun _ => followError_landed) fun _ => apart_bind fun r => ?_
  obtain ⟨r, kio⟩ := r
  cases r with
  | error e => exact followError_landed
  | ok u =>
    refine .bind (hrec hat) fun out => ?_
    obtain ⟨res, ve', fp⟩ := out
    cases res with
    | error e => exact followError_landed.pre fun s hs => hs.apart
    | ok u =>
      refine (followSwap_landed (Set.mem_insert ve' K)).mono (fun s hs => ?_)
        fun _ _ h => h.mono (Set.subset_insert _ _)
      exact hs.apart.insert (hs.ok rfl (by decide)).1

/-- What `vresolve_follow` returns is not a link, unless the last link is not followed. -/
theorem vresolveFollow_landed :
    Ends (Apart K) (vresolveFollow rec ve flags isLast depth fullpath)
      (Landed K (¬ (isLast = true ∧ flags.has vrNofollow = true))) := by
  refine .bind apart_read fun e => ?_
  refine Triple.mono (Q := Landed (K ∪ seen ve e) _) ?_
    (fun s hs => hs.1.seen hs.2.2) fun _ _ h => h.mono Set.subset_union_left
  refine apart_bind fun _ => .ite (fun _ => followError_landed) fun _ => ?_
  refine .ite (fun _ => ?_) fun htype => .ite (fun hmount => ?_) fun _ => ?_
  · refine .ite (fun h => followRet_landed fun hc => absurd h hc) fun _ => ?_
    exact followLink_landed hrec (.inr (.inl rfl))
  · refine .ite (fun _ => .throw trivial) fun _ => ?_
    refine .ite (fun h => followRet_landed fun hc => absurd h hc) fun _ => ?_
    exact followMount_landed (.inr (.inr (.inl ⟨rfl, hmount⟩)))
  · exact followRet_landed fun _ => .inr (.inr (.inr ⟨rfl, htype⟩))

/-- What the cache leads to is not a link. -/
theorem cacheFollow_lands :
    Ends (Apart K) (cacheFollow rec ve flags depth) (Lands K flags) := by
  refine .bind (vresolveFollow_landed hrec) fun out => ?_
  obtain ⟨res, ve', fp⟩ := out
  cases res with
  | error e => exact .throw trivial
  | ok u =>
    -- the entry that is read is known not to be a link
    have hread : Ends (Landed K (¬ (true = true ∧ flags.has vrNofollow = true)) ⟨.ok u, ve', fp⟩)
        (onFs (getVe ve')) (fun e s => Apart (K ∪ {p | p = ve' ∧ flags.has vrNofollow = false}) s ∧
          (flags.has vrNofollow = false → e.type ≠ .lnk)) := by
      refine fun s hs => ⟨fun e s' h => ?_, fun _ _ => trivial⟩
      obtain ⟨rfl, h0, he⟩ := onFs_deref_eq_ok h
      have hnot : flags.has vrNofollow = false → NotLink s.fs ve' := fun hno =>
        hs.2 (by simp [hno]) rfl
      exact ⟨hs.1.insertIf hnot, fun hno => (hnot hno h0).2 e he⟩
    refine .bind hread fun e => ?_
    cases hvalid : validateResult e.type flags with
    | error err =>
      exact unlockRelease_lands.pre fun s hs => hs.1.mono Set.subset_union_left
    | ok u =>
      refine Triple.mono (P := fun s => (flags.has vrNofollow = false → flags.has vrLnk = false) ∧
        Apart (K ∪ {p | p = ve' ∧ flags.has vrNofollow = false}) s) ?_
        (fun s hs => ⟨fun hno => validateResult_lnk hvalid (hs.2 hno), hs.1⟩) fun _ _ h => h
      refine Triple.intro fun hlnk => apart_bind fun _ => .pure fun s hs => ?_
      refine ⟨hs.mono Set.subset_union_left, fun _ hno => ⟨hs.2 ve' (.inr ⟨rfl, hno⟩), fun h => ?_⟩,
        fun _ h => (by cases h)⟩
      simp [hlnk hno] at h

theorem vresolveCache_lands :
    Ends (Apart K) (vresolveCache rec path flags depth) (Lands K flags) := by
  refine .ite (fun _ => fails_lands) fun _ => apart_bind fun ve => ?_
  refine .ite (fun _ => fails_lands) fun _ => ?_
  refine apart_bind fun b => .ite (fun _ => ?_) fun _ => ?_
  · exact .ite (fun _ => unlockRelease_lands) fun _ => cacheFollow_lands hrec
  · exact apart_bind fun _ => apart_bind fun _ => fails_lands

/-! ## Walking -/

theorem walkNext_sound :
    Ends (Apart K) (walkNext rec flags depth ve next name isLast curpath fullpath)
      (fun r s => Apart K s ∧ RoundSound flags isLast r s) := by
  refine apart_bind fun b => .ite (fun _ => ?_) fun _ => ?_
  · refine apart_bind fun _ => apart_bind fun _ => apart_bind fun _ => ?_
    refine .bind (vresolveFollow_landed hrec) fun out => ?_
    obtain ⟨res, ve', fp⟩ := out
    cases res with
    | error e => exact .pure fun s hs => ⟨hs.1, trivial⟩
    | ok u =>
      refine .pure fun s hs => ⟨hs.1, ?_⟩
      by_cases hlast : isLast = true ∧ flags.has vrNofollow = true
      · exact .inl hlast
      · exact .inr (hs.2 hlast rfl)
  · exact apart_bind fun _ => .pure fun s hs => ⟨hs, trivial⟩

theorem walkPart_sound (hve : ve ∈ K) :
    Ends (Apart K) (walkPart rec flags depth part ve curpath fullpath)
      (fun r s => Apart K s ∧ RoundSound flags part.iterEnd r s) := by
  have hfail : ∀ {err : Errno}, Ends (Apart K) (pure (.error (.fail ve err fullpath)) : SysM _)
      (fun r s => Apart K s ∧ RoundSound flags part.iterEnd r s) :=
    .pure fun s hs => ⟨hs, trivial⟩
  refine apart_bind fun e => .ite (fun _ => hfail) fun _ => .ite (fun _ => hfail) fun _ => ?_
  refine .ite (fun _ => .pure fun s hs => ⟨hs, .inr (hs.2 ve hve)⟩) fun _ => ?_
  refine .ite (fun _ => apart_bind fun _ => walkNext_sound hrec) fun _ => ?_
  have hlookup : Ends (Apart K) (onFs (vnLookup ve e.vn part.toStr)) (fun _ => Apart K) := by
    refine .of_from (fun s r s' hs h => ?_) fun _ _ => Apart.stays
    exact keepsFrom_onFs vnLookup_apart s r s' ⟨hs.1, hs.2 ve hve⟩ h
  refine .bind hlookup fun r => ?_
  cases r with
  | error err => exact .pure fun s hs => ⟨hs, walkMissing_sound (hs.2 ve hve)⟩
  | ok next => exact walkNext_sound hrec

theorem walkLoop_sound :
    Ends (fun s => Apart K s ∧
        (part.nextPart.isNull = false ∨ flags.has vrNofollow = false → NotLink s.fs ve))
      (walkLoop rec flags depth fuel part ve curpath fullpath)
      (fun stop s => Apart K s ∧ stop.Sound flags s) := by
  -- each round but the last one leads to an entry that is not a link
  induction fuel generalizing part ve curpath fullpath with
  | zero => exact .throw trivial
  | succ fuel ih =>
    refine .ite (fun _ => .pure fun s hs => ⟨hs.1, fun hno => hs.2 (.inr hno)⟩) fun hpart => ?_
    refine .bind (Q := fun r s => Apart K s ∧ RoundSound flags part.nextPart.iterEnd r s)
      ((walkPart_sound hrec (Set.mem_insert ve K)).mono (fun s hs => ?_)
        fun _ _ h => ⟨h.1.mono (Set.subset_insert _ _), h.2⟩) fun r => ?_
    · exact hs.1.insert (hs.2 (.inl (by simpa using hpart)))
    · cases r with
      | error stop => exact .pure fun s hs => hs
      | ok q =>
        refine ih.pre fun s hs => ⟨hs.1, fun h => ?_⟩
        obtain ⟨hlast, hno⟩ | hnot := hs.2
        · have hnull : part.nextPart.nextPart.isNull = true := hlast
          simp [hno, hnull] at h
        · exact hnot

end Follow

theorem walkUp_sound (hve : ve ∈ K) :
    Ends (Apart K) (walkUp flags ve) (fun ve' => Apart (insert ve' K)) := by
  refine .bind apart_read fun e => ?_
  refine Triple.pre ?_ fun s hs => hs.1.seen hs.2.2
  have hres : ∀ {p : Nat}, p ∈ K ∪ seen ve e → insert p K ⊆ K ∪ seen ve e := fun hp =>
    Set.insert_subset hp Set.subset_union_left
  refine apart_bind fun n => .ite (fun _ => ?_) fun _ => ?_
  · refine apart_bind fun _ => apart_bind fun _ => apart_bind fun _ => apart_bind fun _ => ?_
    exact .pure fun s hs => hs.mono (hres (.inr (.inl rfl)))
  · exact .pure fun s hs => hs.mono (hres (.inl hve))

theorem walkSuccess_lands (hve : flags.has vrNofollow = false → ve ∈ K)
    (hlnk : flags.has vrNofollow = false → flags.has vrLnk = true → flags.has vrExclusv = true) :
    Ends (Apart K) (walkSuccess flags ve curpath fullpath) (Lands K flags) := by
  cases hno : flags.has vrNofollow with
  | true =>
    refine apart_bind fun ve' => apart_bind fun _ => apart_bind fun _ => ?_
    exact .pure fun s hs => ⟨hs, fun _ h => (by simp [hno] at h), fun _ h => (by cases h)⟩
  | false =>
    refine .bind (walkUp_sound (hve hno)) fun ve' => apart_bind fun _ => apart_bind fun _ => ?_
    refine .pure fun s hs =>
      ⟨hs.mono (Set.subset_insert _ _), fun _ _ => ?_, fun _ h => (by cases h)⟩
    exact ⟨hs.2 ve' (Set.mem_insert _ _), hlnk hno⟩

theorem walkFinish_lands {stop : WalkEnd} :
    Ends (fun s => Apart K s ∧ stop.Sound flags s) (walkFinish flags stop) (Lands K flags) := by
  cases stop with
  | done ve curpath fullpath =>
    let K' := K ∪ {p | p = ve ∧ flags.has vrNofollow = false}
    refine Triple.mono (Q := Lands K' flags) ?_ (fun s hs => hs.1.insertIf hs.2)
      fun _ _ h => h.mono Set.subset_union_left
    refine .bind apart_read fun e => ?_
    cases hvalid : validateResult e.type flags with
    | error err => exact unlockRelease_lands.pre fun s hs => hs.1
    | ok u =>
      refine fun s hs => walkSuccess_lands (fun hno => .inr ⟨rfl, hno⟩) (fun hno h => ?_) s hs.1
      have htype : e.type ≠ .lnk := (hs.1.2 ve (.inr ⟨rfl, hno⟩) hs.2.1).2 e hs.2.2
      simp [validateResult_lnk hvalid htype] at h
  | exclusive ve curpath fullpath =>
    refine fun s hs => ?_
    have hlands : Ends (Apart (insert ve K)) (walkSuccess flags ve curpath fullpath)
        (Lands (insert ve K) flags) :=
      walkSuccess_lands (fun _ => Set.mem_insert ve K) fun _ _ => hs.2.2
    exact hlands.post (fun _ _ h => h.mono (Set.subset_insert _ _)) s (hs.1.insert hs.2.1)
  | parent ve fullpath =>
    refine Triple.pre ?_ fun s hs => hs.1.insert hs.2
    refine apart_bind fun _ => .pure fun s hs => ⟨hs.mono (Set.subset_insert _ _), ?_, ?_⟩
    · exact fun h => (by cases h)
    · exact fun _ _ => hs.2 ve (Set.mem_insert _ _)
  | fail ve err fullpath => exact unlockRelease_lands.pre fun s hs => hs.1
  | failFollow err fullpath => exact fails_lands.pre fun s hs => hs.1

theorem walkStart_sound (hstart : start ∈ K) :
    Ends (Apart K) (onFs (walkStart start part)) (fun r => Apart (insert r.1 K)) := by
  refine apart_gives fun s fs r hs hrun => ?_
  obtain ⟨s0, s1, hget, hrun⟩ := run_bind_ok hrun
  cases hget
  split at hrun
  · obtain ⟨_, s2, -, hrun⟩ := run_bind_ok hrun
    cases hrun
    exact hs.1.root
  · obtain ⟨sb, s2, -, hrun⟩ := run_bind_ok hrun
    obtain ⟨_, s3, -, hrun⟩ := run_bind_ok hrun
    cases hrun
    exact hs.2 start hstart

theorem walkMounted_sound (hve : ve ∈ K) :
    Ends (Apart K) (onFs (walkMounted ve)) (fun ve' => Apart (insert ve' K)) := by
  refine apart_gives fun s fs ve' hs hrun => ?_
  obtain ⟨-, e, he, hrun⟩ := deref_bind_eq_ok hrun
  split at hrun
  next hmount =>
    obtain ⟨_, s2, -, hrun⟩ := run_bind_ok hrun
    obtain ⟨_, s3, -, hrun⟩ := run_bind_ok hrun
    cases hrun
    exact hs.1.mount ve e he hmount
  · cases hrun
    exact hs.2 _ hve

theorem vresolveFullwalk_lands {rec : Resolver}
    (hrec : ∀ {K : Set Nat} {start : Nat} {path : Str} {depth : Nat} {fullpath : Option Sbuf},
      start ∈ K → Ends (Apart K) (rec start path 0 depth fullpath) (Lands K 0))
    (hstart : start ∈ K) :
    Ends (Apart K) (vresolveFullwalk rec start path flags depth fullpath) (Lands K flags) := by
  refine .bind (walkStart_sound hstart) fun r => ?_
  obtain ⟨ve, curpath⟩ := r
  refine .bind (walkMounted_sound (Set.mem_insert ve K)) fun ve' => ?_
  refine Triple.mono (Q := Lands (insert ve' K) flags)
    (P := Apart (insert ve' K)) ?_ (fun s hs => hs.mono ?_) fun _ _ h =>
      h.mono (Set.subset_insert _ _)
  · refine apart_bind fun b => .ite (fun _ => ?_) fun _ => ?_
    · refine .bind ((walkLoop_sound hrec).pre ?_) fun stop => walkFinish_lands
      exact fun s hs => ⟨hs, fun _ => hs.2 ve' (Set.mem_insert _ _)⟩
    · exact apart_bind fun _ => fails_lands
  · exact Set.insert_subset_insert (Set.subset_insert _ _)

/-- Links stay apart in a resolution, and a link is its result only if the last link is not
followed. -/
theorem vresolveInternal_lands (hstart : start ∈ K) :
    Ends (Apart K) (vresolveInternal fuel start path flags depth fullpath) (Lands K flags) := by
  -- each link is resolved with less fuel
  induction fuel generalizing K start path flags depth fullpath with
  | zero => exact .throw trivial
  | succ fuel ih =>
    refine .ite (fun _ => fails_lands) fun _ => .bind (vresolveCache_lands ih) fun out => ?_
    obtain ⟨res, ve, fp⟩ := out
    cases res with
    | ok u => exact .pure fun s hs => ⟨hs.apart, hs.ok, hs.error⟩
    | error e => exact (vresolveFullwalk_lands ih hstart).pre fun s hs => hs.apart

end Resolve

/-! ## Removing entries -/

section Remove

variable {ve vn dve dvn vfs : Nat} {d : Vnode}

instance : Keeps StaysApart (vfsRemoveNode vfs vn) := by unfold vfsRemoveNode; infer_instance

instance : Keeps StaysApart (veUnlinkVnode ve vn) :=
  keeps_deref fun _ => .seq (setVe_apart rfl rfl rfl fun _ _ => .inl rfl)

instance : Keeps Aside (ramfsVnRemove d ve) := by
    unfold ramfsVnRemove ramfsRemoveDentry; infer_instance
instance : Keeps StaysApart (dropLastLink vfs ve vn) := by unfold dropLastLink; infer_instance
instance : Keeps StaysApart (vnUnlink dve dvn ve vn) := by unfold vnUnlink; infer_instance

instance : Keeps StaysApart (vnRmdir dve dvn ve vn) := by
  refine .step fun n => .orElse ?_
  refine .step fun d => .step fun v => ?_
  refine .orElse (.step fun ops => ?_)
  infer_instance

end Remove

/-! ## Calls -/

section Calls

variable {α : Type} {K : Set Nat} {ve dve dvn atVe fuel proc mode dev : Nat} {fd : Int}
  {flags : Flags}
  {path buf name : Str} {sb : Sbuf} {fullpath : Option Sbuf} {a : OpenArgs} {s s' : Sys}

theorem getPwd_apart : Ends (Apart K) (onFs getPwd) (fun p => Apart (insert p K)) := by
  refine apart_gives fun s fs p hs hrun => ?_
  obtain ⟨pr, s1, hpr, hrun⟩ := run_bind_ok hrun
  obtain ⟨s0, s2, hget, hpr⟩ := run_bind_ok hpr
  cases hget
  obtain ⟨rfl, -, hpr⟩ := deref_eq_ok hpr
  obtain ⟨_, s3, -, hrun⟩ := run_bind_ok hrun
  cases hrun
  exact hs.1.pwd _ pr hpr

/-- A call that resolves a path and then makes no entries. -/
theorem resolve_apart {k : Nat → Out → SysM α} (hk : ∀ p out, Keeps (OnFs StaysApart) (k p out)) :
    Ends (Apart ∅) (do
      let atVe ← onFs getPwd
      let out ← vresolve fuel atVe path flags fullpath
      k atVe out) (fun _ => Apart ∅) := by
  refine .bind getPwd_apart fun p => ?_
  refine .bind (vresolveInternal_lands (Set.mem_insert p ∅)) fun out => ?_
  exact apart_keeps.pre fun s hs => hs.apart.mono (Set.empty_subset _)

/-- Making an entry in a directory that is not a link. -/
theorem make_apart {m : FsM α} (hm : KeepsFrom (DirReady dve) StaysApart m) :
    Ends (Apart {dve}) (onFs m) (fun _ => Apart {dve}) := by
  refine .of_from (fun s r s' hs h => ?_) fun _ _ => Apart.stays
  exact keepsFrom_onFs hm s r s' ⟨hs.1, hs.2 dve rfl⟩ h

theorem fsMakeWith_apart {make : Nat → Nat → Str → FsM (Except Errno Nat)}
    (hmake : ∀ dve dvn name, KeepsFrom (DirReady dve) StaysApart (make dve dvn name)) :
    Ends (Apart ∅) (fsMakeWith make fuel path) (fun _ => Apart ∅) := by
  refine .bind getPwd_apart fun p => ?_
  refine .bind (vresolveInternal_lands (Set.mem_insert p ∅)) fun out => ?_
  obtain ⟨res, dve, fp⟩ := out
  cases res with
  | error e => exact apart_keeps.pre fun s hs => hs.apart.mono (Set.empty_subset _)
  | ok u =>
    refine Triple.mono (P := Apart {dve}) (Q := fun _ => Apart {dve}) ?_ (fun s hs => ?_)
      fun _ _ h => h.mono (Set.empty_subset _)
    · refine apart_bind fun d => .bind (make_apart (hmake _ _ _)) fun r => ?_
      cases r with
      | error e => exact apart_keeps
      | ok ve => exact apart_keeps
    · exact ⟨hs.apart.1, fun p hp => hp ▸ (hs.ok rfl (by decide)).1⟩

theorem fsLink_apart {oldpath newpath : Str} :
    Ends (Apart ∅) (fsLink fuel oldpath newpath) (fun _ => Apart ∅) := by
  refine .bind getPwd_apart fun p => ?_
  refine .bind (vresolveInternal_lands (Set.mem_insert p ∅)) fun old => ?_
  obtain ⟨res, ove, -⟩ := old
  cases res with
  | error e => exact apart_keeps.pre fun s hs => hs.apart.mono (Set.empty_subset _)
  | ok u =>
    refine Triple.pre (P := Apart (insert p ∅)) ?_ fun s hs => hs.apart
    refine .bind (vresolveInternal_lands (Set.mem_insert p ∅)) fun out => ?_
    obtain ⟨res, dve, fp⟩ := out
    cases res with
    | error e => exact apart_keeps.pre fun s hs => hs.apart.mono (Set.empty_subset _)
    | ok u =>
      refine Triple.mono (P := Apart {dve}) (Q := fun _ => Apart {dve}) ?_ (fun s hs => ?_)
        fun _ _ h => h.mono (Set.empty_subset _)
      · refine apart_bind fun d => apart_bind fun o => apart_bind fun _ => ?_
        refine .bind (make_apart vnHardlink_apart) fun r => apart_bind fun _ => ?_
        cases r with
        | error e => exact apart_keeps
        | ok ve => exact apart_keeps
      · exact ⟨hs.apart.1, fun p hp => hp ▸ (hs.ok rfl (by decide)).1⟩

theorem openCreate_apart :
    Ends (Apart {dve}) (openCreate a dve name mode sb) (fun _ => Apart {dve}) := by
  refine apart_bind fun d => .bind (make_apart vnMake_apart) fun r => ?_
  refine apart_bind fun _ => apart_bind fun _ => ?_
  cases r with
  | error e => exact apart_keeps
  | ok ve => exact apart_keeps

theorem fsProcOpen_apart :
    Ends (Apart ∅) (fsProcOpen fuel proc fd path flags mode) (fun _ => Apart ∅) := by
  have hread : Ends (Apart ∅) (onFs (getProc proc)) (fun pr => Apart {pr.pwd}) := by
    refine apart_read.post fun pr s hs => ⟨hs.1.1, fun p hp => ?_⟩
    exact hp ▸ hs.1.1.pwd proc pr hs.2.2
  refine .bind hread fun pr => ?_
  refine Triple.pre ?_ fun _ h => h
  refine apart_bind fun _ => apart_bind fun r => ?_
  have hend : ∀ {b : OpenArgs} {e : Errno}, Ends (Apart {pr.pwd}) (openRet b 0 (.error e))
      (fun _ => Apart ∅) :=
    apart_keeps.post fun _ _ h => h.mono (Set.empty_subset _)
  obtain ⟨r, fd'⟩ := r
  cases r with
  | error e => exact hend
  | ok u =>
    refine .ite (fun _ => hend) fun _ => ?_
    refine .bind (vresolveInternal_lands rfl) fun out => ?_
    obtain ⟨res, ve, fp⟩ := out
    cases res with
    | ok u => exact apart_keeps.pre fun s hs => hs.apart.mono (Set.empty_subset _)
    | error e =>
      refine .ite (fun _ => ?_) fun _ => hend.pre fun s hs => hs.apart
      refine openCreate_apart.mono (fun s hs => ⟨hs.apart.1, fun p hp => ?_⟩)
        fun _ _ h => h.mono (Set.empty_subset _)
      exact hp ▸ hs.error e rfl

/-- Every call of a run keeps links apart. -/
theorem perform_apart {call : FileCall} :
    Ends (Apart ∅) (perform fuel call) (fun _ => Apart ∅) := by
  have hend : ∀ {r : Option Int}, Ends (Apart ∅) (pure r : SysM _) (fun _ => Apart ∅) :=
    .pure fun _ hs => hs
  cases call with
  | openPath proc fd path flags mode => exact .bind fsProcOpen_apart fun _ => hend
  | mkdir path mode | symlink target path =>
    exact .bind (fsMakeWith_apart fun _ _ _ => vnMake_apart) fun _ => hend
  | link oldpath newpath => exact .bind fsLink_apart fun _ => hend
  | mknod path mode dev => exact .bind (fsMakeWith_apart fun _ _ _ => vnMknod_apart) fun _ => hend
  | stat path | lstat path | readlink path buf =>
    refine .bind (resolve_apart fun p out => ?_) fun _ => hend
    split <;> infer_instance
  | unlink path =>
    refine .bind (resolve_apart fun p out => ?_) fun _ => hend
    split
    · infer_instance
    · unfold unlinkVe
      infer_instance
  | rmdir path =>
    refine .bind (resolve_apart fun p out => ?_) fun _ => hend
    split
    · infer_instance
    · refine .step fun e => .step fun n => ?_
      refine .orElse (.step fun _ => ?_)
      infer_instance
  | switchTo proc =>
    refine fun s hs => ⟨fun r s' h => ?_, fun _ _ => trivial⟩
    cases h
    refine hs.stays (staysApart_of_entries le_rfl rfl rfl fun p e he => ?_)
    exact .inl ⟨e, he, rfl, rfl, rfl, .inl rfl⟩
  | _ =>
    unfold perform
    exact apart_keeps

/-! ## Reading links -/

theorem pathRet_result {res r : Except Errno α} (h : pathRet ve atVe res s = .ok (r, s')) :
    r = res := by
  obtain ⟨_, s1, -, h⟩ := run_bind_ok h
  obtain ⟨_, s2, -, h⟩ := run_bind_ok h
  cases h
  rfl

/-- `fs_readlink` does not succeed: what the path leads to is not a link. -/
theorem fsReadlink_fails {bytes : Str} (hs : LinksApart s.fs) :
    fsReadlink fuel path buf s ≠ .ok ((.ok (), bytes), s') := by
  intro h
  obtain ⟨p, s1, hpwd, h⟩ := run_bind_ok h
  have hs1 := (getPwd_apart (K := ∅) s ⟨hs, fun _ hp => hp.elim⟩).1 p s1 hpwd
  obtain ⟨out, s2, hout, h⟩ := run_bind_ok h
  have hlands := (vresolveInternal_lands (Set.mem_insert p ∅) s1 hs1).1 out s2 hout
  cases hres : out.res with
  | ok u =>
    obtain ⟨-, hlnk⟩ := hlands.ok hres (by decide)
    exact absurd (hlnk (by decide)) (by decide)
  | error e =>
    rw [hres] at h
    obtain ⟨r, s3, hret, h⟩ := run_bind_ok h
    cases h
    cases pathRet_result hret

/-- What a path leads to from a directory: the number of an entry, or an error. -/
def Finds (s : Sys) (start : Nat) (path : Str) (r : Except Errno Nat) : Prop :=
  ∃ fuel out s', vresolve fuel start path 0 none s = .ok (out, s') ∧
    match r with
    | .ok id => out.res = .ok () ∧ ∃ e, s'.fs.ventry out.ve = some e ∧ veUniqueId e = id
    | .error err => out.res = .error err

/-- The link `n` stands for the text `t`: `fs_readlink` writes exactly `t` to every buffer with
enough room, and each path through `n` leads to what the path through `t` leads to from the
directory of the link. -/
def Transparent (t n : Str) (s : Sys) : Prop :=
  (∀ buf : Str, t.length ≤ buf.length →
    ∃ fuel s', fsReadlink fuel n buf s.enter = .ok ((.ok (), t ++ buf.drop t.length), s')) ∧
  ∀ pr dir fuel s' fullpath, s.fs.proc s.fs.curproc = some pr →
    vresolve fuel pr.pwd (cstrDirname n) 0 none s.enter = .ok (⟨.ok (), dir, fullpath⟩, s') →
    ∀ suffix r, Finds s.enter pr.pwd (n ++ slash :: suffix) r ↔ Finds s.enter dir
      (t ++ slash :: suffix) r

/-- In a run, links are apart between two calls. -/
theorem linksApart_of_reach {x : Run} (h : Reach (fun x => LinksApart x.sys.fs) FileStep x) :
    LinksApart x.sys.fs := by
  refine Reach.invariant (P := fun x : Run => LinksApart x.sys.fs) (fun _ hx => hx) ?_ h
  rintro x call x' hx ⟨fuel, r, s', hrun, rfl⟩
  exact ((perform_apart x.sys.enter ⟨hx, fun _ hp => hp.elim⟩).1 r s' hrun).1

theorem LinksApart.enter (hs : LinksApart s.fs) : LinksApart s.enter.fs := hs

/-- Where links are apart, none of them is transparent. -/
theorem LinksApart.not_transparent {t n : Str} (hs : LinksApart s.fs) : ¬ Transparent t n s := by
  rintro ⟨hread, -⟩
  obtain ⟨fuel, s', hrun⟩ := hread t le_rfl
  exact fsReadlink_fails hs.enter hrun

/-- `fs_symlink` keeps links apart. -/
theorem LinksApart.symlink {t n : Str} {r : Except Errno Unit} (hs : LinksApart s.fs)
    (h : fsSymlink fuel t n s = .ok (r, s')) : LinksApart s'.fs :=
  ((fsMakeWith_apart (fun _ _ _ => vnMake_apart) s ⟨hs, fun _ hp => hp.elim⟩).1 r s' h).1

/-- **In every state of a run, a link that `fs_symlink` has made is not transparent: `fs_readlink`
does not read it.** -/
theorem reach_not_transparent {x : Run} {t n : Str}
    (h : Reach (fun x => LinksApart x.sys.fs) FileStep x)
    (hlink : fsSymlink fuel t n x.sys.enter = .ok (.ok (), s')) : ¬ Transparent t n s' :=
  ((linksApart_of_reach h).enter.symlink hlink).not_transparent

end Calls

/-! ## After boot -/

/-- Entries and processes are at addresses that have been given out. -/
theorem bootSys_bounded {p : Nat} (hp : 10 ≤ p) :
    bootSys.fs.ventry p = none ∧ bootSys.fs.proc p = none := by
  obtain ⟨q, rfl⟩ := Nat.exists_eq_add_of_le' hp
  constructor <;> cbv

theorem bootSys_eval : bootSys.fs.brk = 10 ∧ bootSys.fs.vcache.root = 4 ∧
    (∀ p < 10, (bootSys.fs.ventry p).all
      (fun e => e.type == .dir && e.parent < 10 && e.mount < 10) = true) ∧
    (∀ p < 10, (bootSys.fs.proc p).all (fun x => x.pwd < 10) = true) ∧
    (fsSymlink 3 [0x74] [slash, 0x6e] bootSys.enter).toOption.any (fun r =>
      r.1.toOption.isSome && errorOf (fsReadlink 3 [slash, 0x6e] [0] r.2.enter) ==
        some (.fault .null))
        = true := by
  decide +kernel

/-- Links are apart after boot. -/
theorem bootSys_linksApart : LinksApart bootSys.fs := by
  obtain ⟨hbrk, hroot, hve, hpr, -⟩ := bootSys_eval
  have hbelow : ∀ p e, bootSys.fs.ventry p = some e → p < 10 := by
    intro p e he
    by_contra hp
    cases (bootSys_bounded (Nat.le_of_not_lt hp)).1.symm.trans he
  have hdir : ∀ p e, bootSys.fs.ventry p = some e →
      (e.type = .dir ∧ e.parent < 10) ∧ e.mount < 10 := by
    intro p e he
    have hall := hve p (hbelow p e he)
    rw [he] at hall
    simpa using hall
  have hnot : ∀ p < 10, NotLink bootSys.fs p := by
    intro p hp _
    refine ⟨hbrk ▸ hp, fun e he => ?_⟩
    rw [(hdir p e he).1.1]
    decide
  refine ⟨fun p e he => hbrk ▸ hbelow p e he, hnot _ (hroot ▸ by decide), fun q pr hq => ?_,
    fun p e he _ => hnot _ (hdir p e he).2, fun p e he => hnot _ (hdir p e he).1.2⟩
  have hlt : q < 10 := by
    by_contra hp
    cases (bootSys_bounded (Nat.le_of_not_lt hp)).2.symm.trans hq
  have hall := hpr q hlt
  rw [hq] at hall
  exact hnot _ (by simpa using hall)

theorem bootRun_linksApart : LinksApart bootRun.sys.fs := bootSys_linksApart

/-- The link `/n` to `t` can be made. -/
theorem bootSys_symlink : ∃ s', fsSymlink 3 [0x74] [slash, 0x6e] bootSys.enter = .ok (.ok (), s') ∧
    fsReadlink 3 [slash, 0x6e] [0] s'.enter = .error (.fault .null) := by
  obtain ⟨-, -, -, -, hany⟩ := bootSys_eval
  obtain ⟨⟨r, s'⟩, hrun, hr⟩ := exists_ok_of_any hany
  obtain ⟨hok, hread⟩ := Bool.and_eq_true_iff.mp hr
  cases r with
  | error e => cases hok
  | ok u => exact ⟨s', hrun, eq_error_of_errorOf (eq_of_beq hread)⟩

theorem bootRun_not_transparent : Reach (fun x => LinksApart x.sys.fs) FileStep bootRun ∧
    ∃ s', fsSymlink 3 [0x74] [slash, 0x6e] bootRun.sys.enter = .ok (.ok (), s') ∧
      ¬ Transparent [0x74] [slash, 0x6e] s' := by
  have hreach : Reach (fun x => LinksApart x.sys.fs) FileStep bootRun := .start bootRun_linksApart
  have hsys : bootRun.sys = bootSys := by rw [bootRun]
  obtain ⟨s', hrun, -⟩ := bootSys_symlink
  rw [← hsys] at hrun
  exact ⟨hreach, s', hrun, reach_not_transparent hreach hrun⟩

/-- **After boot, the link `/n` to `t` can be made, and then `fs_readlink` of `/n` ends at a null
pointer.** -/
theorem bootSys_readlink_crashes :
    ∃ s', fsSymlink 3 [0x74] [slash, 0x6e] bootSys.enter = .ok (.ok (), s') ∧
      fsReadlink 3 [slash, 0x6e] [0] s'.enter = .error (.fault .null) ∧
      ¬ Transparent [0x74] [slash, 0x6e] s' := by
  obtain ⟨s', hrun, hread⟩ := bootSys_symlink
  exact ⟨s', hrun, hread, (bootSys_linksApart.enter.symlink hrun).not_transparent⟩

end Osdev.Vfs
