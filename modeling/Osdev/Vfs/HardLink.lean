import Mathlib
import Osdev.Vfs.Access
import Osdev.Vfs.Mount
import Osdev.Vfs.Quiet
import Osdev.Vfs.ReadBack

/-!
# Hard links

A new vnode is in the state `V_EMPTY` until it is added to its file system, and that happens before
the call that makes it returns. So between two calls no vnode is in this state. `vn_hardlink` checks
the entry that it makes for a vnode that is already there with the same test as the entries of new
vnodes, and the test demands `V_EMPTY`.
-/

namespace Osdev.Vfs

open Osdev.Lib

set_option synthInstance.maxSize 1000

/-! ## New vnodes -/

/-- No vnode apart from `v` is new. -/
def NewOnly (v : Nat) (s : Fs) : Prop := ∀ u n, s.vnode u = some n → u ≠ v → n.state ≠ .empty

/-- No vnode is new. -/
def NoneNew (s : Fs) : Prop := ∀ u n, s.vnode u = some n → n.state ≠ .empty

/-- The vnode `v` is the only one that is new, and it is the one of the entry `ve`. -/
def Newborn (v ve : Nat) (s : Fs) : Prop := NewOnly v s ∧ ∀ e, s.ventry ve = some e → e.vn = v

/-- If no vnode was new before, none is new afterwards. -/
def Settles (s s' : Fs) : Prop := NoneNew s → NoneNew s'

/-- No vnode is made or changes its state. -/
def Calm (s s' : Fs) : Prop :=
  ∀ v n', s'.vnode v = some n' → ∃ n, s.vnode v = some n ∧ n'.state = n.state

/-- Also no entry is made or gets another vnode. -/
structure Mild (s s' : Fs) : Prop where
  calm : Calm s s'
  entry : ∀ p e', s'.ventry p = some e' → ∃ e, s.ventry p = some e ∧ e'.vn = e.vn

section Relations

variable {s s' : Fs} {v ve : Nat}

instance : Std.Refl Settles := ⟨fun _ h => h⟩
instance : Trans Settles Settles Settles := ⟨fun h h' hs => h' (h hs)⟩

instance : Std.Refl Calm := ⟨fun _ _ n h => ⟨n, h, rfl⟩⟩

instance : Trans Calm Calm Calm where
  trans h h' v n' hn' := by
    obtain ⟨n1, hn1, hs1⟩ := h' v n' hn'
    obtain ⟨n, hn, hs⟩ := h v n1 hn1
    exact ⟨n, hn, hs1.trans hs⟩

instance : Std.Refl Mild := ⟨fun s => ⟨Std.Refl.refl s, fun _ e h => ⟨e, h, rfl⟩⟩⟩

instance : Trans Mild Mild Mild where
  trans h h' := by
    refine ⟨Trans.trans h.calm h'.calm, fun p e' he' => ?_⟩
    obtain ⟨e1, he1, hvn1⟩ := h'.entry p e' he'
    obtain ⟨e, he, hvn⟩ := h.entry p e1 he1
    exact ⟨e, he, hvn1.trans hvn⟩

theorem Quiet.mild (h : Quiet s s') : Mild s s' := by
  refine ⟨h.vnode, fun p e' he' => ?_⟩
  obtain ⟨e, he, hvn, -⟩ := h.entry p e' he'
  exact ⟨e, he, hvn⟩

theorem NoneNew.calm (h : NoneNew s) (h' : Calm s s') : NoneNew s' := by
  intro v n' hn'
  obtain ⟨n, hn, hstate⟩ := h' v n' hn'
  exact hstate ▸ h v n hn

theorem NewOnly.calm (h : NewOnly v s) (h' : Calm s s') : NewOnly v s' := by
  intro u n' hn' hu
  obtain ⟨n, hn, hstate⟩ := h' u n' hn'
  exact hstate ▸ h u n hn hu

theorem Newborn.mild (h : Newborn v ve s) (h' : Mild s s') : Newborn v ve s' := by
  refine ⟨h.1.calm h'.calm, fun e' he' => ?_⟩
  obtain ⟨e, he, hvn⟩ := h'.entry ve e' he'
  exact hvn.trans (h.2 e he)

end Relations

section Instances

variable {α : Type} {m : FsM α}

instance (priority := low) [hm : Keeps Quiet m] : Keeps Mild m := hm.mono fun _ _ => Quiet.mild
instance (priority := low) [hm : Keeps Mild m] : Keeps Calm m := hm.mono fun _ _ => Mild.calm

instance (priority := low) [hm : Keeps Calm m] : Keeps Settles m :=
  hm.mono fun _ _ h hs => hs.calm h

end Instances

/-! ## Storing -/

section Store

variable {α : Type} {p v : Nat} {e e' : Ventry} {n n' : Vnode} {P : Fs → Prop}

/-- A store that leaves vnodes alone. -/
theorem keeps_calm_store {a : Fs → α} {g : Fs → Fs} (hvn : ∀ s, (g s).vnode = s.vnode) :
    Keeps Calm (fun s => .ok (a s, g s) : FsM α) where
  keeps s b s' h := by
    cases h
    exact fun v n' hn' => ⟨n', hvn s ▸ hn', rfl⟩

instance : Keeps Calm (setVe p e) := keeps_calm_store fun _ => rfl
instance : Keeps Calm (newVe e) := keeps_calm_store fun _ => rfl

/-- An entry is stored with the vnode from before. -/
theorem setVe_mild (hvn : e'.vn = e.vn) :
    KeepsFrom (fun s => P s ∧ s.ventry p = some e) Mild (setVe p e') := by
  rintro s a s' ⟨-, hs⟩ h
  cases h
  exact ⟨fun _ n hn => ⟨n, hn, rfl⟩, store_related hs hvn fun _ => rfl⟩

/-- A vnode is stored with the state from before. -/
theorem setVn_mild (hstate : n'.state = n.state) :
    KeepsFrom (fun s => P s ∧ s.vnode p = some n) Mild (setVn p n') :=
  (setVn_quiet hstate).mono fun _ _ => Quiet.mild

theorem setVn_calm (hstate : n'.state = n.state) :
    KeepsFrom (fun s => P s ∧ s.vnode p = some n) Calm (setVn p n') :=
  (setVn_mild hstate).mono fun _ _ => Mild.calm

/-- What is known of other vnodes stays known when `v` is stored. -/
theorem setVn_newOnly : Ends (NewOnly v) (setVn v n) (fun _ => NewOnly v) := by
  refine fun s hs => ⟨fun a s' h => ?_, fun _ _ => trivial⟩
  cases h
  intro u m hm hu
  exact hs u m ((store_ne hu _).symm.trans hm) hu

/-- The last new vnode gets another state. -/
theorem setVn_noneNew (hstate : n.state ≠ .empty) :
    Ends (NewOnly v) (setVn v n) (fun _ => NoneNew) := by
  refine fun s hs => ⟨fun a s' h => ?_, fun _ _ => trivial⟩
  cases h
  intro u m hm
  obtain ⟨-, rfl⟩ | ⟨hu, hm⟩ := store_eq_some hm
  · exact hstate
  · exact hs u m hm hu

theorem vnAlloc_newOnly {id : Nat} {type : VType} :
    Ends NoneNew (vnAlloc id type) (fun v => NewOnly v) := by
  refine fun s hs => ⟨fun v s' h => ?_, fun _ _ => trivial⟩
  cases h
  exact fun u n hn hu => hs u n ((store_ne hu _).symm.trans hn)

/-- The object that a function reads. -/
theorem triple_read {table : Fs → Nat → Option α} :
    Ends P (deref table p) (fun b s => (P s ∧ p ≠ 0) ∧ table s p = some b) := by
  refine fun s hs => ⟨fun b s' h => ?_, fun _ _ => trivial⟩
  obtain ⟨rfl, hp, hb⟩ := deref_eq_ok h
  exact ⟨⟨hs, hp⟩, hb⟩

end Store

/-! ## Making entries -/

section Make

variable {α : Type} {p v ve vn dve dvn vfs node dent : Nat} {name : Str} {m : FsM α} {n d : Vnode}
  {attr : Vattr}

theorem noneNew_keeps [Keeps Settles m] : Ends NoneNew m (fun _ => NoneNew) :=
  .stable (R := Settles) fun _ _ hs h => h hs

theorem newOnly_keeps [Keeps Calm m] : Ends (NewOnly v) m (fun _ => NewOnly v) :=
  .stable fun _ _ => NewOnly.calm

theorem newborn_keeps [Keeps Mild m] : Ends (Newborn v ve) m (fun _ => Newborn v ve) :=
  .stable fun _ _ => Newborn.mild

instance : Keeps Calm (veLinkVnode ve vn) := by
  refine .step fun e => keeps_deref fun n => ?_
  exact .skip fun _ => .skip fun _ => .seq (setVn_calm rfl)

instance : Keeps Calm (veAllocLinked name vn) := by unfold veAllocLinked; infer_instance

instance : Keeps Mild (veAddChild dve ve) :=
  .of_from (keepsFrom_veAddChild (fun _ _ _ _ => trivial)
    (fun _ => setVe_mild rfl) (fun _ => setVe_mild rfl) fun _ _ _ => setVn_mild rfl)

instance {d : Vnode} : Keeps Mild (ramfsNewNode d name attr) := by
  unfold ramfsNewNode ramfsAllocNode ramfsAllocDentry
  infer_instance

instance : Keeps Mild (ramfsAddDentry p dent) := by unfold ramfsAddDentry; infer_instance

theorem veAllocLinked_newborn : Ends (NewOnly vn) (veAllocLinked name vn)
    (fun ve => Newborn vn ve) := by
  refine .bind newOnly_keeps fun n => .bind newOnly_keeps fun ops => ?_
  refine .bind newOnly_keeps fun ve => .bind (Q := fun _ => Newborn vn ve) ?_ fun _ => ?_
  · refine .bind newOnly_keeps fun e => .bind newOnly_keeps fun n => ?_
    refine .bind newOnly_keeps fun _ => .bind newOnly_keeps fun _ => ?_
    refine .bind setVn_newOnly fun _ => ?_
    refine fun s hs => ⟨fun a s' h => ?_, fun _ _ => trivial⟩
    cases h
    refine ⟨hs, fun e' he' => ?_⟩
    cases (store_self _ _ _).symm.trans he'
    rfl
  · exact .bind newborn_keeps fun _ => .pure fun _ hs => hs

theorem ramfsNewEntry_newborn : Ends (NewOnly vn) (ramfsNewEntry name vn node dent)
    (fun ve => Newborn vn ve) := by
  refine .bind newOnly_keeps fun n => .bind setVn_newOnly fun _ => ?_
  refine .bind veAllocLinked_newborn fun ve => ?_
  refine .bind triple_read fun e => ?_
  refine .bind (.of_from (setVe_mild rfl) fun _ _ hs h => hs.1.1.mild h) fun _ => ?_
  exact .bind newborn_keeps fun _ => .pure fun _ hs => hs

/-- What holds of the result of a function that makes an entry. -/
def Made (r : Except Errno Nat) (s : Fs) : Prop :=
  match r with
  | .error _ => NoneNew s
  | .ok ve => ∃ v, Newborn v ve s

theorem ramfsVnLookup_made : Ends NoneNew (ramfsVnLookup d name) Made := by
  refine .bind noneNew_keeps fun dent => .ite (fun _ => .pure fun _ hs => hs) ?_
  refine fun _ => .bind noneNew_keeps fun _ => .bind noneNew_keeps fun node => ?_
  refine .bind vnAlloc_newOnly fun v => .bind newOnly_keeps fun n => ?_
  refine .bind setVn_newOnly fun _ => .bind ramfsNewEntry_newborn fun ve => ?_
  exact .pure fun s hs => ⟨v, hs⟩

theorem ramfsFinishNode_made :
    Ends NoneNew (ramfsFinishNode d name attr node dent) Made := by
  refine .bind noneNew_keeps fun _ => .bind noneNew_keeps fun n => ?_
  refine .bind vnAlloc_newOnly fun v => .bind ramfsNewEntry_newborn fun ve => ?_
  exact .pure fun s hs => ⟨v, hs⟩

theorem vfsAddNode_noneNew : Ends (fun s => ∃ v, Newborn v ve s) (vfsAddNode vfs ve)
    (fun _ => NoneNew) := by
  refine .bind (Q := fun e => NewOnly e.vn) (triple_read.post ?_) fun e => ?_
  · -- the vnode of the entry is the new one
    rintro e s ⟨⟨⟨v, hs⟩, -⟩, he⟩
    rw [hs.2 e he]
    exact hs.1
  · refine .bind newOnly_keeps fun _ => .bind newOnly_keeps fun n => ?_
    refine .bind newOnly_keeps fun _ => .bind newOnly_keeps fun _ => ?_
    refine .bind newOnly_keeps fun v => .ite (fun _ => .throw trivial) fun _ => ?_
    exact .bind (setVn_noneNew (by simp)) fun _ => noneNew_keeps

theorem made_keeps [Keeps Mild m] :
    Ends (fun s => ∃ v, Newborn v ve s) m (fun _ s => ∃ v, Newborn v ve s) :=
  .stable fun _ _ ⟨v, hs⟩ h => ⟨v, hs.mild h⟩

theorem made_mild {P : Fs → Prop} (hP : ∀ s, P s → ∃ v, Newborn v ve s) (hm : KeepsFrom P Mild m) :
    Ends P m (fun _ s => ∃ v, Newborn v ve s) :=
  .of_from hm fun s _ hs h => (hP s hs).imp fun _ hv => hv.mild h

theorem addEntry_noneNew : Ends (fun s => ∃ v, Newborn v ve s) (addEntry dve vfs ve)
    (fun _ => NoneNew) :=
  .bind made_keeps fun _ => .bind made_keeps fun _ => vfsAddNode_noneNew

theorem addDevice_noneNew {dev : Nat} : Ends (fun s => ∃ v, Newborn v ve s)
    (addDevice dve vfs dev ve) (fun _ => NoneNew) := by
  refine .bind made_keeps fun _ => .bind made_keeps fun e => ?_
  refine .bind made_keeps fun vDev => ?_
  refine .bind triple_read fun n => ?_
  refine .bind (made_mild (fun _ hs => hs.1.1) (setVn_mild rfl)) fun _ => ?_
  exact .bind made_keeps fun _ => vfsAddNode_noneNew

/-- A program after which no vnode is new if none was new before. -/
theorem settles_of_triple (h : Ends NoneNew m (fun _ => NoneNew)) : Keeps Settles m :=
  ⟨fun s a s' hm hs => (h s hs).1 a s' hm⟩

instance : Keeps Settles (vnLookupFs dve d name) := by
  refine settles_of_triple ?_
  refine .bind noneNew_keeps fun v => .ite (fun _ => .pure fun _ hs => hs) fun _ => ?_
  refine .bind noneNew_keeps fun _ => .bind ramfsVnLookup_made fun r => ?_
  cases r with
  | error e => exact .pure fun _ hs => hs
  | ok ve => exact .bind addEntry_noneNew fun _ => .pure fun _ hs => hs

instance : Keeps Settles (vnLookup dve dvn name) := by unfold vnLookup; infer_instance

theorem vnMakeChecked_settles {make : FsM (Except Errno Nat)} {add : Nat → FsM Unit}
    (hmake : Ends NoneNew make Made)
    (hadd : ∀ ve, Ends (fun s => ∃ v, Newborn v ve s) (add ve) (fun _ => NoneNew)) :
    Keeps Settles (vnMakeChecked d make add) := by
  refine settles_of_triple ?_
  refine .bind noneNew_keeps fun v => .ite (fun _ => .pure fun _ hs => hs) fun _ => ?_
  refine .bind hmake fun r => ?_
  cases r with
  | error e => exact .pure fun _ hs => hs
  | ok ve => exact .bind (hadd ve) fun _ => .pure fun _ hs => hs

theorem vnMake_settles {names : List Str} {make : Vnode → FsM (Except Errno Nat)}
    (hmake : ∀ d, Ends NoneNew (make d) Made) :
    Keeps Settles (vnMake dve dvn names make) := by
  refine .step fun d => .step fun r => ?_
  cases r with
  | error e => infer_instance
  | ok u => exact vnMakeChecked_settles (hmake d) fun _ => addEntry_noneNew

instance {mode : Nat} : Keeps Settles (vnCreate dve dvn name mode) := by
  refine vnMake_settles fun d => ?_
  unfold ramfsVnCreate memfileAlloc
  refine .bind noneNew_keeps fun x => .bind noneNew_keeps fun file => ?_
  refine .bind noneNew_keeps fun n => .bind noneNew_keeps fun _ => ?_
  exact ramfsFinishNode_made

instance {mode : Nat} : Keeps Settles (vnMkdir dve dvn name mode) :=
  vnMake_settles fun _ => .bind noneNew_keeps fun _ => ramfsFinishNode_made

instance {target : Str} : Keeps Settles (vnSymlink dve dvn name target) := by
  refine vnMake_settles fun d => ?_
  refine .bind noneNew_keeps fun x => .bind noneNew_keeps fun n => ?_
  exact .bind noneNew_keeps fun _ => ramfsFinishNode_made

theorem ramfsVnMknod_made : Ends NoneNew (ramfsVnMknod d name attr) Made := by
  refine .ite (fun _ => .pure fun _ hs => hs) fun _ => ?_
  exact .bind noneNew_keeps fun _ => ramfsFinishNode_made

instance {mode dev : Nat} : Keeps Settles (vnMknod dve dvn name mode dev) := by
  refine .step fun d => .step fun r => ?_
  cases r with
  | error e => infer_instance
  | ok u =>
    cases mknodType mode with
    | none => infer_instance
    | some type => exact vnMakeChecked_settles ramfsVnMknod_made fun _ => addDevice_noneNew

instance {target : Nat} : Keeps Settles (ramfsVnHardlink d name target) := by
  unfold ramfsVnHardlink ramfsAllocDentry
  infer_instance

instance {target : Nat} : Keeps Settles (vnHardlink dve dvn name target) := by
  have hmake : ∀ d, Keeps Settles
      (vnMakeChecked d (ramfsVnHardlink d name target) (addLink dve)) := by
    refine fun d => .step fun v => .orElse (.step fun r => ?_)
    cases r with
    | error e => infer_instance
    | ok ve =>
      unfold addLink
      infer_instance
  unfold vnHardlink
  infer_instance

end Make

/-! ## Calls -/

instance : Spans Settles := ⟨fun _ _ h hs => hs.calm h.quiet.mild.calm⟩

instance : Resolves Settles where
  still _ _ h hs := hs.calm h.aside.quiet.mild.calm
  lookup _ _ _ := inferInstance

section Remove

variable {p vn ve dve dvn vfs : Nat} {n d : Vnode}

/-- A vnode that is not new is stored. -/
theorem setVn_settles (h : n.state ≠ .empty) : Keeps Settles (setVn p n) :=
  settles_of_triple ((setVn_noneNew h).mono (fun _ hs u m hm _ => hs u m hm) fun _ _ hs => hs)

instance : Keeps Settles (vfsRemoveNode vfs vn) := by
  refine .step fun n => .step fun _ => ?_
  exact .seq (setVn_settles (by simp)) inferInstance

instance : Keeps Settles (veUnlinkVnode ve vn) := by
  refine .step fun e => .step fun _ => ?_
  have hcalm : Keeps Calm (do
      let n ← getVn vn
      setVn vn { n with nlink := subWord n.nlink 1, dirty := true } : FsM Unit) :=
    keeps_deref fun n => setVn_calm rfl
  infer_instance

instance : Keeps Mild (ramfsVnRemove d ve) := by
  unfold ramfsVnRemove ramfsRemoveDentry
  infer_instance

instance : Keeps Settles (dropLastLink vfs ve vn) := by unfold dropLastLink; infer_instance
instance : Keeps Settles (vnUnlink dve dvn ve vn) := by unfold vnUnlink; infer_instance

instance : Keeps Settles (vnRmdir dve dvn ve vn) := by
  refine .step fun n => .orElse ?_
  refine .step fun d => .step fun v => ?_
  refine .orElse (.step fun ops => ?_)
  infer_instance

end Remove

instance : Edits Settles where
  create _ _ _ _ := inferInstance
  mkdir _ _ _ _ := inferInstance
  mknod _ _ _ _ _ := inferInstance
  symlink _ _ _ _ := inferInstance
  hardlink _ _ _ _ := inferInstance
  unlink _ _ _ _ := inferInstance
  rmdir _ _ _ _ := inferInstance

section Calls

variable {α : Type} {p ve vn dve atVe fuel mode dev proc : Nat} {fd offset whence : Int}
  {path buf name rpath : Str} {sb : Sbuf} {flags : Flags} {kio : Kio} {n : Vnode} {a : OpenArgs}

instance : Keeps (OnFs Settles) (openCreate a dve name mode sb) := by
  refine .step fun d => .step fun r => ?_
  refine .step fun _ => .step fun _ => ?_
  cases r <;> infer_instance

instance : Keeps (OnFs Settles) (openPath fuel a path mode) := by
  refine .step fun out => ?_
  split <;> infer_instance

instance : Keeps (OnFs Settles) (fsProcOpen fuel proc fd path flags mode) := by
  refine .step fun pr => .step fun _ => ?_
  refine .step fun r => ?_
  obtain ⟨r, fd'⟩ := r
  cases r <;> infer_instance

/-- Every call of a run settles the vnodes that it makes. -/
theorem perform_settles {call : FileCall} : Keeps (OnFs Settles) (perform fuel call) := by
  cases call with
  | switchTo proc =>
    refine ⟨fun s a s' h => ?_⟩
    cases h
    exact fun hs => hs
  | _ =>
    unfold perform
    infer_instance

end Calls

/-! ## Linking -/

section Link

variable {fuel ve dve dvn target : Nat} {name oldpath newpath : Str} {s s' : Fs} {x : Run}

/-- The test for new entries fails for an entry whose vnode is not new. -/
theorem assertNewVentryValid_fails {u : Unit} (hs : NoneNew s) :
    assertNewVentryValid ve s ≠ .ok (u, s') := by
  intro h
  obtain ⟨b, s1, hsync, h⟩ := run_bind_ok h
  obtain ⟨-, e, he, h⟩ := deref_bind_eq_ok h
  obtain ⟨hlinked, h⟩ := run_guard_eq_ok.mp h
  split at h
  · cases h
  next hstate =>
    obtain ⟨n, s3, hn, -⟩ := run_bind_ok h
    obtain ⟨rfl, -, hn⟩ := deref_eq_ok hn
    have hsettled : NoneNew s1 := (Keeps.keeps _ _ _ hsync : Settles s s1) hs
    have hsame := veSyncvn_synced hsync he (by simpa using hlinked) hn
    exact hsettled _ n hn (hsame ▸ of_not_not hstate)

/-- `vn_hardlink` does not return a new entry. -/
theorem vnHardlink_fails (hs : NoneNew s) :
    vnHardlink dve dvn name target s ≠ .ok (.ok ve, s') := by
  intro h
  obtain ⟨-, d, -, h⟩ := deref_bind_eq_ok h
  obtain ⟨-, t, -, h⟩ := deref_bind_eq_ok h
  split at h
  · cases h
  obtain ⟨-, v, -, h⟩ := deref_bind_eq_ok h
  split at h
  · cases h
  split at h
  · cases h
  obtain ⟨ops, s4, hops, h⟩ := run_bind_ok h
  obtain rfl := (Keeps.keeps _ _ _ hops : s = s4)
  split at h
  · cases h
  obtain ⟨v', s5, hv', h⟩ := run_bind_ok h
  obtain ⟨rfl, -⟩ := deref_eq_ok hv'
  split at h
  · cases h
  obtain ⟨r, s6, hr, h⟩ := run_bind_ok h
  have hsettled : NoneNew s6 := (Keeps.keeps _ _ _ hr : Settles s s6) hs
  cases r with
  | error e => cases h
  | ok made =>
    obtain ⟨_, s7, hadd, -⟩ := run_bind_ok h
    obtain ⟨_, s8, hassert, -⟩ := run_bind_ok hadd
    exact assertNewVentryValid_fails hsettled hassert

theorem removeRet_result {ove atVe : Nat} {res r : Except Errno Unit} {s s' : Sys}
    (h : removeRet ove dve atVe res s = .ok (r, s')) : r = res := by
  obtain ⟨_, s1, -, h⟩ := run_bind_ok h
  obtain ⟨_, s2, -, h⟩ := run_bind_ok h
  obtain ⟨_, s3, -, h⟩ := run_bind_ok h
  cases h
  rfl

theorem removeRetUnlock_result {ove atVe : Nat} {res r : Except Errno Unit} {s s' : Sys}
    (h : removeRetUnlock ove dve atVe res s = .ok (r, s')) : r = res := by
  obtain ⟨_, s1, -, h⟩ := run_bind_ok h
  obtain ⟨_, s2, -, h⟩ := run_bind_ok h
  exact removeRet_result h

/-- `fs_link` does not succeed when no vnode is new. -/
theorem fsLink_fails {s s' : Sys} (hs : NoneNew s.fs) :
    fsLink fuel oldpath newpath s ≠ .ok (.ok (), s') := by
  intro h
  obtain ⟨atVe, s1, hpwd, h⟩ := run_bind_ok h
  have hs1 : NoneNew s1.fs := (Keeps.keeps _ _ _ hpwd : OnFs Settles s s1) hs
  obtain ⟨old, s2, hold, h⟩ := run_bind_ok h
  have hs2 : NoneNew s2.fs := (Keeps.keeps _ _ _ hold : OnFs Settles s1 s2) hs1
  cases hres : old.res with
  | error e =>
    rw [hres] at h
    cases removeRet_result h
  | ok u =>
    rw [hres] at h
    obtain ⟨out, s3, hout, h⟩ := run_bind_ok h
    have hs3 : NoneNew s3.fs := (Keeps.keeps _ _ _ hout : OnFs Settles s2 s3) hs2
    cases hres' : out.res with
    | error e =>
      rw [hres'] at h
      cases removeRet_result h
    | ok u =>
      rw [hres'] at h
      obtain ⟨-, d, -, h⟩ := onFs_deref_bind_eq_ok h
      obtain ⟨-, o, -, h⟩ := onFs_deref_bind_eq_ok h
      obtain ⟨b, s6, hlock, h⟩ := run_bind_ok h
      have hs6 : NoneNew s6.fs := (Keeps.keeps _ _ _ hlock : OnFs Settles s3 s6) hs3
      obtain ⟨r, fs, hrun, h⟩ := onFs_bind_eq_ok h
      obtain ⟨_, s8, hunlock, h⟩ := run_bind_ok h
      cases r with
      | ok ve => exact vnHardlink_fails hs6 hrun
      | error e => cases removeRetUnlock_result h

/-- Resolving a path from the directory of the current process, for the vnode that it leads to. -/
def resolveVn (fuel : Nat) (path : Str) : SysM (Option Nat) := do
  let atVe ← onFs getPwd
  let out ← vresolve fuel atVe path 0 none
  match out.res with
  | .error _ => pure none
  | .ok () => do
    let e ← onFs (getVe out.ve)
    pure (some e.vn)

/-- The path leads to the vnode `v`. -/
def LeadsTo (fuel : Nat) (path : Str) (s : Sys) (v : Nat) : Prop :=
  ∃ s', resolveVn fuel path s.enter = .ok (some v, s')

/-- The bytes of a regular file. -/
def bytesOf (s : Fs) (v : Nat) : Option (List UInt8) := do
  let n ← s.vnode v
  let node ← s.node n.data
  let m ← s.memfile node.file
  pure m.bytes

/-- The path `a` can be unlinked, and then `b` still leads to `v` with its contents. -/
def Survives (fuel : Nat) (a b : Str) (v : Nat) (s : Sys) : Prop :=
  ∃ s', fsUnlink fuel a s.enter = .ok (.ok (), s') ∧ LeadsTo fuel b s' v ∧
    bytesOf s'.fs v = bytesOf s.fs v

/-- `fs_link` makes `b` a second name of the file `a`: both lead to one vnode, which has got one
more link, and the removal of one name leaves the other. -/
def LinkAliases (fuel : Nat) (a b : Str) (s : Sys) : Prop :=
  ∃ s' v n n', fsLink fuel a b s.enter = .ok (.ok (), s') ∧ LeadsTo fuel a s' v ∧
    LeadsTo fuel b s' v ∧ s.fs.vnode v = some n ∧ s'.fs.vnode v = some n' ∧ n'.nlink = n.nlink + 1 ∧
    Survives fuel a b v s' ∧ Survives fuel b a v s'

/-- In a run, no vnode is new between two calls. -/
theorem noneNew_of_reach (h : Reach (fun x => NoneNew x.sys.fs) FileStep x) : NoneNew x.sys.fs := by
  refine Reach.invariant (P := fun x : Run => NoneNew x.sys.fs) (fun _ hx => hx) ?_ h
  rintro x call x' hx ⟨fuel, r, s', hrun, rfl⟩
  exact (perform_settles.keeps _ _ _ hrun : OnFs Settles x.sys.enter s') hx

/-- **In every state of a run, `fs_link` makes no second name for any file: it returns an error or
does not return.** -/
theorem reach_not_linkAliases (h : Reach (fun x => NoneNew x.sys.fs) FileStep x) :
    ¬ LinkAliases fuel oldpath newpath x.sys := by
  rintro ⟨s', v, n, n', hlink, -⟩
  exact fsLink_fails (s := x.sys.enter) (noneNew_of_reach h) hlink

end Link

/-! ## After boot -/

/-- The booted system, with no lock held. -/
def bootSys : Sys :=
  match boot (bareFs sumHash) with
  | .ok (_, fs) => ⟨fs, fun _ => 0, fun _ => 0⟩
  | .error _ => ⟨bareFs sumHash, fun _ => 0, fun _ => 0⟩

/-- No vnode is new after boot. -/
theorem bootSys_noneNew : NoneNew bootSys.fs := by
  have hlow : ∀ u < 10, (bootSys.fs.vnode u).all (fun n => n.state != .empty) = true := by
    decide +kernel
  intro u n hn
  by_cases hu : u < 10
  · have hall := hlow u hu
    rw [hn] at hall
    simpa using hall
  · obtain ⟨q, rfl⟩ := Nat.exists_eq_add_of_le' (Nat.le_of_not_lt hu)
    have hnone : bootSys.fs.vnode (q + 10) = none := by cbv
    cases hnone.symm.trans hn

/-- The state after boot as the first one of a run. -/
def bootRun : Run := ⟨bootSys, fun _ _ => none⟩

theorem bootRun_noneNew : NoneNew bootRun.sys.fs := bootSys_noneNew

theorem bootRun_not_linkAliases : Reach (fun x => NoneNew x.sys.fs) FileStep bootRun ∧
    ¬ LinkAliases 2 [slash, 0x61] [slash, 0x62] bootRun.sys := by
  have hreach : Reach (fun x => NoneNew x.sys.fs) FileStep bootRun := .start bootRun_noneNew
  exact ⟨hreach, reach_not_linkAliases hreach⟩

/-- **In a tree with the regular file `/a` and no entry `/b`, linking `/b` to `/a` ends in a
panic.** -/
theorem fileSys_link_panics : NewFile fileSys.fs 13 ∧ LeadsTo 3 [slash, 0x61] fileSys 13 ∧
    (∃ s', resolveVn 3 [slash, 0x62] fileSys.enter = .ok (none, s')) ∧
    fsLink 3 [slash, 0x61] [slash, 0x62] fileSys.enter = .error (.fault .panic) ∧
    ¬ LinkAliases 3 [slash, 0x61] [slash, 0x62] fileSys := by
  obtain ⟨ha, hb, hlink⟩ :
      (resolveVn 3 [slash, 0x61] fileSys.enter).toOption.any (fun r => r.1 == some 13) = true ∧
      (resolveVn 3 [slash, 0x62] fileSys.enter).toOption.any (fun r => r.1 == none) = true ∧
      errorOf (fsLink 3 [slash, 0x61] [slash, 0x62] fileSys.enter) = some (.fault .panic) := by
    decide_cbv
  obtain ⟨⟨va, sa⟩, hrun, hva⟩ := exists_ok_of_any ha
  obtain ⟨⟨vb, sb⟩, hrun', hvb⟩ := exists_ok_of_any hb
  obtain rfl : va = some 13 := by simpa using hva
  obtain rfl : vb = none := by simpa using hvb
  refine ⟨fileSys_newFile, ⟨sa, hrun⟩, ⟨sb, hrun'⟩, eq_error_of_errorOf hlink, ?_⟩
  rintro ⟨s', v, n, n', hok, -⟩
  cases (eq_error_of_errorOf hlink).symm.trans hok

end Osdev.Vfs
