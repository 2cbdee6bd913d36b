import Mathlib
import Osdev.Lib.Run
import Osdev.Vfs.Descriptors
import Osdev.Vfs.Mount

/-!
# Access modes

`fs_proc_open` accepts three access modes and stores the flags in the file. `fs_kread` tests them
with the mask `O_WRONLY`, which is set in one mode only. `fs_kwrite` tests them with the mask
`O_RDONLY`, which is 0, so it refuses nothing: a write through a descriptor for reading goes on to
the device or file.
-/

namespace Osdev.Vfs

open Osdev.Lib

variable {α : Type} {s s' : Fs} {flags : Flags} {proc : Nat} {r : Except Errno Int}

set_option synthInstance.maxSize 1000

/-! ## Contents -/

/-- Each memory file and device that is there afterwards was there before, with the same bytes. -/
structure Preserved (s s' : Fs) : Prop where
  memfile : ∀ p m', s'.memfile p = some m' → ∃ m, s.memfile p = some m ∧ m'.bytes = m.bytes
  device : ∀ p d', s'.device p = some d' → ∃ d, s.device p = some d ∧ d'.content = d.content

theorem Preserved.of_eq (hmem : s'.memfile = s.memfile) (hdev : s'.device = s.device) :
    Preserved s s' :=
  ⟨fun _ m' h => ⟨m', hmem ▸ h, rfl⟩, fun _ d' h => ⟨d', hdev ▸ h, rfl⟩⟩

theorem Preserved.trans {s1 : Fs} (h : Preserved s s1) (h' : Preserved s1 s') :
    Preserved s s' where
  memfile p m' hm := by
    obtain ⟨m1, hm1, hb1⟩ := h'.memfile p m' hm
    obtain ⟨m, hm, hb⟩ := h.memfile p m1 hm1
    exact ⟨m, hm, hb1.trans hb⟩
  device p d' hd := by
    obtain ⟨d1, hd1, hc1⟩ := h'.device p d' hd
    obtain ⟨d, hd, hc⟩ := h.device p d1 hd1
    exact ⟨d, hd, hc1.trans hc⟩

instance : Std.Refl Preserved := ⟨fun _ => .of_eq rfl rfl⟩

instance : Trans Preserved Preserved Preserved := ⟨Preserved.trans⟩

instance : Covers Preserved where
  still s s' h := by
    have hdev : s'.device = s.device := (congrArg Fs.device h.core :)
    exact ⟨fun p m hm => ⟨m, h.memfile p m hm, rfl⟩, fun _ d hd => ⟨d, hdev ▸ hd, rfl⟩⟩

/-- A store to something else. -/
theorem keepsFrom_contents {P : Fs → Prop} {g : Fs → Fs} (hmem : ∀ s, (g s).memfile = s.memfile)
    (hdev : ∀ s, (g s).device = s.device) : KeepsFrom P Preserved (modify g : FsM Unit) := by
  rintro s a s' - h
  cases h
  exact .of_eq (hmem s) (hdev s)

instance : Handles Preserved where
  setFile _ := keepsFrom_contents (fun _ => rfl) fun _ => rfl
  setFtable _ := keepsFrom_contents (fun _ => rfl) fun _ => rfl
  setVn _ _ := keepsFrom_contents (fun _ => rfl) fun _ => rfl
  freeFile _ := .of_from (keepsFrom_contents (fun _ => rfl) fun _ => rfl)

/-! ## Reading and writing -/

section Transfer

variable {s s' : Sys} {fd : Int} {kio : Kio} {r : Except Errno Nat × Kio}

/-- The assertion at the start of a transfer. -/
theorem run_kassert_bind {c : Bool} {m : SysM (Except Errno Nat × Kio)}
    (h : (do onFs (kassert c); m : SysM _) s = .ok (r, s')) : m s = .ok (r, s') := by
  obtain ⟨_, fs, hrun, h⟩ := onFs_bind_eq_ok h
  obtain ⟨rfl, -⟩ := kassert_eq_ok hrun
  exact h

/-- What a write comes down to: it leaves all contents alone, or it makes the transfer. -/
theorem fsKwrite_cases (h : fsKwrite fd kio s = .ok (r, s')) :
    Preserved s.fs s'.fs ∨ ∃ f n fs1 off r1 fs2, fileOf s.fs fd = some f ∧
      s.fs.vnode f.vnode = some n ∧ fs1.vnode = s.fs.vnode ∧ fs1.vfs = s.fs.vfs ∧
      fs1.device = s.fs.device ∧ Preserved s.fs fs1 ∧
      writeVnode f.vnode off kio fs1 = .ok (r1, fs2) ∧ Preserved fs2 s'.fs := by
  obtain ⟨-, -, rfl⟩ | ⟨p, f, n, hp, hfile, -, hn, h⟩ := withFile_cases (run_kassert_bind h)
  · exact .inl (.of_eq rfl rfl)
  split at h
  · have hrest := Keeps.keeps (R := OnFs Preserved) _ _ _ h
    refine .inl (Preserved.trans ?_ hrest)
    exact .of_eq rfl rfl
  rw [if_neg (by simp [Flags.has, oRdonly])] at h
  obtain ⟨b, s1, hlock, h⟩ := run_bind_ok h
  have hfs := fLock_fs hlock
  split at h
  · obtain ⟨off, fs2, happ2, h⟩ := onFs_bind_eq_ok h
    rw [hfs] at happ2
    obtain ⟨r1, fs3, hwrite3, h⟩ := onFs_bind_eq_ok h
    refine .inr ⟨f, n, fs2, off, r1, fs3, hfile, hn, ?_⟩
    have hdone : Preserved fs3 s'.fs := Keeps.keeps (R := OnFs Preserved) _ _ _ h
    unfold appendOffset at happ2
    split at happ2
    · cases happ2
      exact ⟨rfl, rfl, rfl, .of_eq rfl rfl, hwrite3, hdone⟩
    · cases happ2
      exact ⟨rfl, rfl, rfl, .of_eq rfl rfl, hwrite3, hdone⟩
  · have hrest := Keeps.keeps (R := OnFs Preserved) _ _ _ h
    refine .inl (Preserved.trans ?_ hrest)
    rw [hfs]
    exact .of_eq rfl rfl

theorem fileRet_result {p : Nat} {b res : α} (h : fileRet p res s = .ok (b, s')) :
    b = res := by
  obtain ⟨_, s1, _, h⟩ := run_bind_ok h
  cases h
  rfl

/-- The file is closed, or it is a directory. -/
def Unreadable (s : Fs) (f : File) : Prop :=
  f.closed = true ∨ ∃ n, s.vnode f.vnode = some n ∧ n.type = .dir

/-- A read that comes to the transfer returns what the transfer does. All other reads return an
error and leave the buffers alone: there is no file, or it is open with `O_WRONLY`, or closed, or a
directory. -/
theorem fsKread_cases (h : fsKread fd kio s = .ok (r, s')) :
    (∃ e, r = (.error e, kio) ∧
      ∀ f, fileOf s.fs fd = some f → f.flags.has oWronly = true ∨ Unreadable s.fs f) ∨
    ∃ p f fs', fileOf s.fs fd = some f ∧ f.flags.has oWronly = false ∧
      readVnode f.vnode f.offset kio (s.setFile p f.used).fs = .ok (r, fs') := by
  obtain ⟨hnone, rfl, -⟩ | ⟨p, f, n, hp, hfile, hf, hn, h⟩ := withFile_cases (run_kassert_bind h)
  · exact .inl ⟨_, rfl, fun f hf => absurd (hnone.symm.trans hf) (by simp)⟩
  -- the one file that the descriptor stands for
  have hone : ∀ {Q : File → Prop}, Q f → ∀ g, fileOf s.fs fd = some g → Q g := fun hq g hg =>
    Option.some.inj (hfile.symm.trans hg) ▸ hq
  split at h
  next hdir =>
    obtain rfl := fileRet_result h
    exact .inl ⟨_, rfl, hone (.inr (.inr ⟨n, hn, hdir⟩))⟩
  split at h
  next hmode =>
    obtain rfl := fileRet_result h
    exact .inl ⟨_, rfl, hone (.inl hmode)⟩
  next hmode =>
    obtain ⟨b, s1, hlock, h⟩ := run_bind_ok h
    split at h
    · obtain ⟨r1, fs2, hread2, h⟩ := onFs_bind_eq_ok h
      obtain ⟨_, s3, _, h⟩ := run_bind_ok h
      obtain rfl := fileRetUnlock_result h
      rw [fLock_fs hlock] at hread2
      exact .inr ⟨p, f, fs2, hfile, by simpa using hmode, hread2⟩
    next hb =>
      obtain rfl := fileRet_result h
      obtain rfl : b = false := by simpa using hb
      have hclosed : f.used.closed = true := fLock_closed hlock (store_self _ _ _)
      exact .inl ⟨_, rfl, hone (.inr (.inl hclosed))⟩

/-- A write to the file cannot change contents: a device has no operation for it, and any other file
has the size 0, or a table of operations without one, or is on a read-only file system. -/
def Harmless (s : Fs) (f : File) : Prop :=
  ∀ n, s.vnode f.vnode = some n →
    (n.type.isDev = true → ∀ d, s.device n.vDev = some d → d.write = none) ∧
    (n.type.isDev = false → n.size = 0 ∨ n.ops ≠ some .ramfs ∨
      ∀ v, s.vfs n.vfs = some v → v.rdonly = true)

theorem dNwrite_none {dev off nmax : Nat} {s s' : Fs}
    (hd : ∀ d, s.device dev = some d → d.write = none)
    (h : dNwrite dev off nmax kio s = .ok (r, s')) : s' = s := by
  obtain ⟨-, d, hdev, h⟩ := deref_bind_eq_ok h
  rw [hd d hdev] at h
  cases h
  rfl

theorem vnOps_eq_ok {n : Vnode} {ops : VnOps} {s s' : Fs} (h : vnOps n s = .ok (ops, s')) :
    n.ops = some ops ∧ s = s' := by
  unfold vnOps at h
  cases hn : n.ops with
  | none =>
    rw [hn] at h
    cases h
  | some o =>
    rw [hn] at h
    cases h
    exact ⟨rfl, rfl⟩

theorem vnWrite_harmless {vn : Nat} {n : Vnode} {off : Int} {s s' : Fs} (hn : s.vnode vn = some n)
    (hreg : n.size = 0 ∨ n.ops ≠ some .ramfs ∨ ∀ v, s.vfs n.vfs = some v → v.rdonly = true)
    (h : vnWrite vn off kio s = .ok (r, s')) : s' = s := by
  obtain ⟨-, m, hm, h⟩ := deref_bind_eq_ok h
  obtain rfl : m = n := Option.some.inj (hm.symm.trans hn)
  obtain ⟨-, v, hv, h⟩ := deref_bind_eq_ok h
  split at h
  · cases h
    rfl
  next hrw =>
    obtain ⟨ops, s3, hops, h⟩ := run_bind_ok h
    obtain ⟨hops', rfl⟩ := vnOps_eq_ok hops
    split at h
    · cases h
      rfl
    next hne =>
      split at h
      · cases h
        rfl
      · split at h
        · cases h
          rfl
        next hoff hsize =>
          -- only `ramfs` comes here, with a size above the offset
          exfalso
          obtain hzero | hnot | hro := hreg
          · omega
          · cases ops with
            | ramfs => exact hnot hops'
            | initrd => exact hne rfl
          · exact hrw (hro v hv)

theorem writeVnode_harmless {f : File} {off : Int} {s s' : Fs} (hf : Harmless s f)
    (h : writeVnode f.vnode off kio s = .ok (r, s')) : s' = s := by
  obtain ⟨-, n, hn, h⟩ := deref_bind_eq_ok h
  obtain ⟨hdev, hreg⟩ := hf n hn
  split at h
  next htype =>
    split at h
    · cases h
      rfl
    · obtain ⟨-, d, -, h⟩ := deref_bind_eq_ok h
      exact dNwrite_none (hdev htype) h
  next htype => exact vnWrite_harmless hn (hreg (by simpa using htype)) h

/-- A write that changes contents is made through a descriptor for a file that is not harmless. -/
theorem fsKwrite_changes (h : fsKwrite fd kio s = .ok (r, s')) (hchange : ¬ Preserved s.fs s'.fs) :
    ∃ f, fileOf s.fs fd = some f ∧ ¬ Harmless s.fs f := by
  obtain hsame | ⟨f, n, fs1, off, r1, fs2, hfile, -, hvn, hvfs, hdev, hfirst, hwrite, hlast⟩ :=
    fsKwrite_cases h
  · exact absurd hsame hchange
  · refine ⟨f, hfile, fun hharmless => hchange ?_⟩
    have hharmless1 : Harmless fs1 f := by
      unfold Harmless
      rwa [hvn, hvfs, hdev]
    obtain rfl := writeVnode_harmless hharmless1 hwrite
    exact hfirst.trans hlast

end Transfer

/-! ## Runs -/

/-- The calls of a run. `switchTo` lets another process run. -/
inductive FileCall where
  | openPath (proc : Nat) (fd : Int) (path : Str) (flags : Flags) (mode : Nat)
  | close (proc : Nat) (fd : Int)
  | dup (fd : Int)
  | read (fd : Int) (kio : Kio)
  | write (fd : Int) (kio : Kio)
  | lseek (fd offset whence : Int)
  | stat (path : Str)
  | lstat (path : Str)
  | mkdir (path : Str) (mode : Nat)
  | mknod (path : Str) (mode dev : Nat)
  | symlink (target path : Str)
  | link (oldpath newpath : Str)
  | unlink (path : Str)
  | rmdir (path : Str)
  | readlink (path buf : Str)
  | switchTo (proc : Nat)

/-- Making a call. The result is a new descriptor, if there is one. -/
def perform (fuel : Nat) : FileCall → SysM (Option Int)
  | .openPath proc fd path flags mode => do
    let r ← fsProcOpen fuel proc fd path flags mode
    pure r.toOption
  | .close proc fd => do
    let _ ← fsProcClose proc fd
    pure none
  | .dup fd => do
    let r ← fsDup fd
    pure r.toOption
  | .read fd kio => do
    let _ ← fsKread fd kio
    pure none
  | .write fd kio => do
    let _ ← fsKwrite fd kio
    pure none
  | .lseek fd offset whence => do
    let _ ← fsLseek fd offset whence
    pure none
  | .stat path => do
    let _ ← fsStat fuel path
    pure none
  | .lstat path => do
    let _ ← fsLstat fuel path
    pure none
  | .mkdir path mode => do
    let _ ← fsMkdir fuel path mode
    pure none
  | .mknod path mode dev => do
    let _ ← fsMknod fuel path mode dev
    pure none
  | .symlink target path => do
    let _ ← fsSymlink fuel target path
    pure none
  | .link oldpath newpath => do
    let _ ← fsLink fuel oldpath newpath
    pure none
  | .unlink path => do
    let _ ← fsUnlink fuel path
    pure none
  | .rmdir path => do
    let _ ← fsRmdir fuel path
    pure none
  | .readlink path buf => do
    let _ ← fsReadlink fuel path buf
    pure none
  | .switchTo proc => do
    modify fun s => { s with fs := { s.fs with curproc := proc } }
    pure none

/-- A state of a run, with the flags that each descriptor of each table was opened with. -/
structure Run where
  sys : Sys
  opened : Nat → Nat → Option Flags

/-- The table of a process. -/
def tableOf (s : Fs) (proc : Nat) : Nat :=
  match s.proc proc with
  | some pr => pr.files
  | none => 0

/-- The flags that a descriptor of the current process was opened with. -/
def Run.flagsOf (x : Run) (fd : Int) : Option Flags :=
  x.opened (tableOf x.sys.fs x.sys.fs.curproc) (fdKey fd)

/-- Noting flags for a descriptor. -/
def note (opened : Nat → Nat → Option Flags) (t : Nat) (fd : Int) (flags : Option Flags) :
    Nat → Nat → Option Flags :=
  fun t' k => if t' = t ∧ k = fdKey fd then flags else opened t' k

/-- What is noted of a call. A duplicate counts as opened with the flags of its original. -/
def Run.noted (x : Run) : FileCall → Option Int → Nat → Nat → Option Flags
  | .openPath proc _ _ flags _, some fd => note x.opened (tableOf x.sys.fs proc) fd (some flags)
  | .dup fd₀, some fd => note x.opened (tableOf x.sys.fs x.sys.fs.curproc) fd (x.flagsOf fd₀)
  | _, _ => x.opened

/-- A call of a run that returns. -/
def FileStep (x : Run) (call : FileCall) (x' : Run) : Prop :=
  ∃ fuel r s', perform fuel call x.sys.enter = .ok (r, s') ∧ x' = ⟨s', x.noted call r⟩

/-- No descriptor is open. -/
def NoneOpen (x : Run) : Prop := ∀ t tab k, x.sys.fs.ftable t = some tab → tab.tree k = 0

/-- The files of all descriptors have the access modes that are noted. -/
def ModesKept (x : Run) : Prop :=
  ∀ t tab k, x.sys.fs.ftable t = some tab → tab.tree k ≠ 0 → tab.tree k < x.sys.fs.brk ∧
    ∃ flags, x.opened t k = some flags ∧ ValidAccess flags ∧
      ∀ f, x.sys.fs.file (tab.tree k) = some f → accessMode f.flags = accessMode flags

section Runs

variable {fuel : Nat} {x x' : Run} {fd : Int}

/-- Calls that add no descriptor. -/
theorem ModesKept.frame {s' : Sys} (h : ModesKept x) (h' : FileFrame x.sys.fs s'.fs) :
    ModesKept ⟨s', x.opened⟩ := by
  intro t tab' k ht hk
  obtain ⟨tab, htab, hkeys⟩ := h'.table t tab' ht
  obtain hkey | hkey := hkeys k
  · rw [hkey] at hk ⊢
    obtain ⟨hlt, flags, hflags, hvalid, hfile⟩ := h t tab k htab hk
    refine ⟨hlt.trans_le h'.brk, flags, hflags, hvalid, fun f hf => ?_⟩
    obtain ⟨g, hg, hsame⟩ := h'.file _ f hlt hf
    rw [hsame]
    exact hfile g hg
  · exact absurd hkey hk

/-- Calls that add one. -/
theorem ModesKept.opens {s' : Sys} {files : Nat} {fd : Int} {noted : Flags}
    (h : ModesKept x) (h' : Opens files fd flags x.sys.fs s'.fs) (hvalid : ValidAccess noted)
    (hmode : accessMode flags = accessMode noted) :
    ModesKept ⟨s', note x.opened files fd (some noted)⟩ := by
  intro t tab' k ht hk
  obtain ⟨tab, htab, hkeys⟩ := h'.table t tab' ht
  obtain ⟨hother, hkey⟩ | hkey | ⟨rfl, rfl, hlt, hnew⟩ := hkeys k
  · rw [hkey] at hk ⊢
    obtain ⟨hlt, flags, hflags, hvalid, hfile⟩ := h t tab k htab hk
    refine ⟨hlt.trans_le h'.brk, flags, (if_neg hother).trans hflags, hvalid, fun f hf => ?_⟩
    obtain ⟨g, hg, hsame⟩ := h'.file _ f hlt hf
    rw [hsame]
    exact hfile g hg
  · exact absurd hkey hk
  · exact ⟨hlt, noted, if_pos ⟨rfl, rfl⟩, hvalid, fun f hf =>
      (congrArg accessMode (hnew f hf)).trans hmode⟩

theorem accessMode_dup (flags : Flags) : accessMode (flags &&& ~~~oCloexec) = accessMode flags := by
  rw [accessMode, BitVec.and_assoc]
  rfl

theorem tableOf_eq {pr : Proc} (h : s.proc proc = some pr) :
    tableOf s proc = pr.files := by
  rw [tableOf, h]

/-- A call that only adds to what is noted when it returns a descriptor. -/
theorem ModesKept.call {m : SysM α} [Keeps (OnFs FileFrame) m] {s' : Sys} {r : Option Int}
    (h : ModesKept x)
    (hrun : (do let _ ← m; pure none : SysM (Option Int)) x.sys.enter = .ok (r, s')) :
    ModesKept ⟨s', x.opened⟩ := by
  obtain ⟨a, s1, hm, hrun⟩ := run_bind_ok hrun
  have hframe : OnFs FileFrame x.sys.enter s1 := Keeps.keeps _ _ _ hm
  cases hrun
  exact h.frame hframe

theorem ModesKept.openCall {mode : Nat} {path : Str}
    {s' : Sys} (h : ModesKept x)
    (hrun : fsProcOpen fuel proc fd path flags mode x.sys.enter = .ok (r, s')) :
    ModesKept ⟨s', x.noted (.openPath proc fd path flags mode) r.toOption⟩ := by
  have hproc : ∃ pr, x.sys.fs.proc proc = some pr := by
    obtain ⟨pr, s1, hget, -⟩ := run_bind_ok hrun
    exact ⟨pr, (onFs_deref_eq_ok hget).2.2⟩
  obtain ⟨pr, hpr⟩ := hproc
  have hpr' : x.sys.enter.fs.proc proc = some pr := hpr
  have hopens := fsProcOpen_opens hpr' hrun
  cases r with
  | error e => exact h.frame hopens
  | ok fd' =>
    obtain ⟨hvalid, hopens⟩ := hopens
    rw [← tableOf_eq hpr] at hopens
    exact h.opens hopens hvalid rfl

theorem ModesKept.dupCall {s' : Sys} (h : ModesKept x)
    (hrun : fsDup fd x.sys.enter = .ok (r, s')) :
    ModesKept ⟨s', x.noted (.dup fd) r.toOption⟩ := by
  have hdup := fsDup_opens hrun
  cases r with
  | error e => exact h.frame hdup
  | ok newfd =>
    obtain ⟨pr, t, f, hpr, ht, hk, hfile, hopens⟩ := hdup
    have htable : tableOf x.sys.fs x.sys.fs.curproc = pr.files := tableOf_eq hpr
    obtain ⟨hlt, flags, hflags, hvalid, hmode⟩ := h _ t _ ht hk
    obtain ⟨f0, hf0, hsame⟩ := hfile hlt
    have hnoted : x.noted (.dup fd) (some newfd) = note x.opened pr.files newfd (some flags) := by
      show note _ (tableOf _ _) _ (x.opened (tableOf _ _) _) = _
      rw [htable, hflags]
    show ModesKept ⟨s', x.noted (.dup fd) (some newfd)⟩
    rw [hnoted]
    refine h.opens hopens hvalid ?_
    rw [accessMode_dup, hsame]
    exact hmode f0 hf0

/-- Every call keeps the modes. -/
theorem ModesKept.step {call : FileCall} (h : ModesKept x) (hstep : FileStep x call x') :
    ModesKept x' := by
  obtain ⟨fuel, r, s', hrun, rfl⟩ := hstep
  cases call with
  | openPath proc fd path flags mode =>
    obtain ⟨res, s1, hopen, hrun⟩ := run_bind_ok hrun
    cases hrun
    exact h.openCall hopen
  | dup fd =>
    obtain ⟨res, s1, hdup, hrun⟩ := run_bind_ok hrun
    cases hrun
    exact h.dupCall hdup
  | switchTo proc =>
    cases hrun
    exact h
  | close proc fd => exact h.call hrun
  | read fd kio => exact h.call hrun
  | write fd kio => exact h.call hrun
  | lseek fd offset whence => exact h.call hrun
  | stat path => exact h.call hrun
  | lstat path => exact h.call hrun
  | mkdir path mode => exact h.call hrun
  | mknod path mode dev => exact h.call hrun
  | symlink target path => exact h.call hrun
  | link oldpath newpath => exact h.call hrun
  | unlink path => exact h.call hrun
  | rmdir path => exact h.call hrun
  | readlink path buf => exact h.call hrun

/-- In every state of a run, the files have the modes that they were opened with. -/
theorem modesKept_of_reach (h : Reach NoneOpen FileStep x) : ModesKept x :=
  h.invariant (fun _ hs t tab k ht hk => absurd (hs t tab k ht) hk) fun _ _ _ hs => hs.step

/-- What is known of the file of a descriptor. -/
theorem ModesKept.fileOf {f : File} (h : ModesKept x) (hf : fileOf x.sys.fs fd = some f) :
    ∃ flags, x.flagsOf fd = some flags ∧ ValidAccess flags ∧
      accessMode f.flags = accessMode flags := by
  obtain ⟨pr, hpr, hf⟩ := Option.bind_eq_some_iff.mp hf
  obtain ⟨t, ht, hf⟩ := Option.bind_eq_some_iff.mp hf
  obtain ⟨hk, hf⟩ := Option.ite_none_left_eq_some.mp hf
  obtain ⟨-, flags, hflags, hvalid, hmode⟩ := h _ t _ ht hk
  refine ⟨flags, ?_, hvalid, hmode f hf⟩
  unfold Run.flagsOf
  rwa [tableOf_eq hpr]

/-- The mask of `fs_kread` finds the mode `O_WRONLY` and no other. -/
theorem has_oWronly (h : ValidAccess flags) :
    flags.has oWronly = true ↔ accessMode flags = oWronly := by
  have hmask : flags &&& oWronly = accessMode flags &&& oWronly := by
    rw [accessMode, BitVec.and_assoc]
    rfl
  rw [Flags.has, hmask]
  obtain h | h | h := h <;> rw [h] <;> decide

end Runs

/-! ## Enforcement -/

/-- The transfer moved bytes into the buffers of the caller, or says so. -/
def ReturnsData (kio : Kio) (r : Except Errno Nat × Kio) : Prop :=
  (∃ n, r.1 = .ok n ∧ n ≠ 0) ∨ r.2 ≠ kio

/-- The call respects the mode of its descriptor. Reading returns data only in the modes `O_RDONLY`
and `O_RDWR`; in the mode `O_RDONLY`, from a file that can be read, it returns what the transfer
does. Writing changes contents only in the modes `O_WRONLY` and `O_RDWR`. -/
def Enforced (x : Run) : FileCall → Prop
  | .read fd kio => ∀ r s', fsKread fd kio x.sys.enter = .ok (r, s') →
      (ReturnsData kio r → ∃ flags, x.flagsOf fd = some flags ∧
        (accessMode flags = oRdonly ∨ accessMode flags = oRdwr)) ∧
      ∀ flags f, x.flagsOf fd = some flags → accessMode flags = oRdonly →
        fileOf x.sys.fs fd = some f → ¬ Unreadable x.sys.fs f →
        ∃ p fs', readVnode f.vnode f.offset kio (x.sys.setFile p f.used).fs = .ok (r, fs')
  | .write fd kio => ∀ r s', fsKwrite fd kio x.sys.enter = .ok (r, s') →
      ¬ Preserved x.sys.fs s'.fs → ∃ flags, x.flagsOf fd = some flags ∧
        (accessMode flags = oWronly ∨ accessMode flags = oRdwr)
  | _ => True

/-- A write in the mode `O_RDONLY` is to a file that cannot be changed. -/
def Permitted (x : Run) : FileCall → Prop
  | .write fd _ => ∀ flags f, x.flagsOf fd = some flags → accessMode flags = oRdonly →
      fileOf x.sys.fs fd = some f → Harmless x.sys.fs f
  | _ => True

section Enforcement

variable {x : Run} {fd : Int} {kio : Kio}

theorem ModesKept.read (h : ModesKept x) : Enforced x (.read fd kio) := by
  intro r s' hrun
  obtain ⟨e, rfl, hwhy⟩ | ⟨p, f, fs', hf, hmode, hread⟩ := fsKread_cases hrun
  · constructor
    · rintro (⟨n, hn, -⟩ | hkio)
      · cases hn
      · exact absurd rfl hkio
    · intro flags f hflags hmode hf hreadable
      obtain ⟨flags', hflags', hvalid, hsame⟩ := h.fileOf hf
      obtain rfl : flags' = flags := Option.some.inj (hflags'.symm.trans hflags)
      obtain hw | hun := hwhy f hf
      · rw [has_oWronly (by unfold ValidAccess; rw [hsame]; exact hvalid), hsame, hmode] at hw
        cases hw
      · exact absurd hun hreadable
  · obtain ⟨flags, hflags, hvalid, hsame⟩ := h.fileOf hf
    constructor
    · intro _
      refine ⟨flags, hflags, ?_⟩
      have hnot : accessMode flags ≠ oWronly := fun hw => by
        rw [← hsame, ← has_oWronly (by unfold ValidAccess; rw [hsame]; exact hvalid), hmode] at hw
        cases hw
      obtain hv | hv | hv := hvalid
      · exact .inl hv
      · exact absurd hv hnot
      · exact .inr hv
    · intro _ g _ _ hg _
      obtain rfl : f = g := Option.some.inj (hf.symm.trans hg)
      exact ⟨p, fs', hread⟩

theorem ModesKept.write (h : ModesKept x) (hcall : Permitted x (.write fd kio)) :
    Enforced x (.write fd kio) := by
  intro r s' hrun hchange
  obtain ⟨f, hf, hharm⟩ := fsKwrite_changes hrun hchange
  obtain ⟨flags, hflags, hvalid, -⟩ := h.fileOf hf
  refine ⟨flags, hflags, ?_⟩
  obtain hv | hv := hvalid
  · exact absurd (hcall flags f hflags hv hf) hharm
  · exact hv

/-- **In every state of every run, a call respects the mode of its descriptor, as long as no write
in the mode `O_RDONLY` is to a file that can be changed.** -/
theorem permitted_call_enforced {call : FileCall} (hreach : Reach NoneOpen FileStep x)
    (hcall : Permitted x call) : Enforced x call := by
  have hmodes := modesKept_of_reach hreach
  cases call with
  | read fd kio => exact hmodes.read
  | write fd kio => exact hmodes.write hcall
  | _ => trivial

end Enforcement

/-! ## A RAM disk (`drivers/ramdisk.c`) -/

/-- `ramdisk_d_read`. -/
def ramdiskDRead (content : List UInt8) (off nmax : Nat) (kio : Kio) :
    Except Kio.Fault (Except Errno Nat × Kio) :=
  if content.length ≤ off then .ok (.ok 0, kio)
  else do
    let (kio, n) ← kio.nwriteIn content off nmax
    .ok (.ok n, kio)

/-- `ramdisk_d_write`. The size of the disk is not passed on. -/
def ramdiskDWrite (content : List UInt8) (off nmax : Nat) (kio : Kio) :
    Except Kio.Fault (Except Errno Nat × Kio × List UInt8) :=
  if content.length ≤ off then .ok (.ok 0, kio, content)
  else do
    let (bs, kio, n) ← kio.nreadOut kio.remaining off nmax
    let content ← Kio.splice content off bs
    .ok (.ok n, kio, content)

/-- A fault of a transfer that a driver makes. -/
def driverFault {α : Type} : Except Kio.Fault α → Except Fault α
  | .ok a => .ok a
  | .error .assertion => .error .assertion
  | .error .outOfBounds => .error .outOfBounds

/-- The device with `ramdisk_ops`. -/
def ramdisk (devt : Nat) (content : List UInt8) : Device where
  isBlk := true
  devt := devt
  content := content
  open_ := some fun _ => .ok 0
  close := some (.ok 0)
  read := some fun content off nmax kio => driverFault (ramdiskDRead content off nmax kio)
  write := some fun content off nmax kio => driverFault (ramdiskDWrite content off nmax kio)

/-- Before boot, with a RAM disk of two bytes as the device 1, 0. -/
def diskFs : Fs :=
  { bareFs sumHash with
    device := store (fun _ => none) 1 (some (ramdisk 1 [1, 2]))
    devTree := fun dev => if dev = 1 then 1 else 0
    brk := 2 }

/-- After boot. -/
def diskStart : Run :=
  match boot diskFs with
  | .ok (_, s) => ⟨⟨s, fun _ => 0, fun _ => 0⟩, fun _ _ => none⟩
  | .error _ => ⟨⟨diskFs, fun _ => 0, fun _ => 0⟩, fun _ _ => none⟩

/-- Making a call of a run. -/
def callRun (x : Run) (call : FileCall) : Except Stop Run :=
  match perform 2 call x.sys.enter with
  | .ok (r, s') => .ok ⟨s', x.noted call r⟩
  | .error e => .error e

/-- `/rd0` -/
def diskPath : Str := [slash, 0x72, 0x64, 0x30]

/-- A node for the disk is made and opened, for reading and for both. -/
def diskCalls : List FileCall :=
  [.mknod diskPath sIfblk 1, .openPath 3 (-1) diskPath oRdonly 0, .openPath 3 (-1) diskPath oRdwr 0]

/-- The state in which `/rd0` is open for reading, and once more for reading and writing. -/
def diskRun : Run := (checkedRun (fun _ _ => true) callRun diskCalls diskStart).getD diskStart

theorem callRun_step {x x' : Run} {call : FileCall} (h : callRun x call = .ok x') :
    FileStep x call x' := by
  unfold callRun at h
  split at h
  next r s' hrun =>
    cases h
    exact ⟨2, r, s', hrun, rfl⟩
  · cases h

theorem diskStart_tables (k : Nat) :
    ∀ t, (diskStart.sys.fs.ftable t).all (fun tab => tab.tree k == 0) = true
  | 0 | 1 | 2 | _ + 3 => by cbv

/-- After boot no descriptor is open. -/
theorem diskStart_noneOpen : NoneOpen diskStart := by
  intro t tab k ht
  have hall := diskStart_tables k t
  rw [ht] at hall
  exact eq_of_beq hall

theorem diskRun_eval : (checkedRun (fun _ _ => true) callRun diskCalls diskStart).isSome = true ∧
    diskRun.flagsOf 0 = some oRdonly ∧ diskRun.flagsOf 1 = some oRdwr ∧
    (diskRun.sys.fs.device 1).any (fun d => d.content == [1, 2]) = true ∧
    (fsKwrite 0 (Kio.newReadable [7]) diskRun.sys.enter).toOption.any
      (fun r => (r.2.fs.device 1).any fun d => d.content == [7, 2]) = true := by
  decide_cbv

theorem diskRun_reach : Reach NoneOpen FileStep diskRun := by
  obtain ⟨x, hx⟩ := Option.isSome_iff_exists.mp diskRun_eval.1
  have hstep : ∀ s o s', true = true → callRun s o = .ok s' → FileStep s o s' :=
    fun _ _ _ _ h => callRun_step h
  rw [diskRun, hx]
  exact Reach.of_checkedRun hstep (.start diskStart_noneOpen) hx

/-- Reading the disk, and writing through the descriptor that is open for it. -/
theorem diskRun_read_enforced :
    Reach NoneOpen FileStep diskRun ∧ diskRun.flagsOf 0 = some oRdonly ∧
      Enforced diskRun (.read 0 (Kio.newWritable [0, 0])) ∧ diskRun.flagsOf 1 = some oRdwr ∧
      Enforced diskRun (.write 1 (Kio.newReadable [7])) := by
  obtain ⟨-, hread, hwrite, -⟩ := diskRun_eval
  have hpermitted : Permitted diskRun (.write 1 (Kio.newReadable [7])) := by
    intro flags f hflags hmode
    obtain rfl : oRdwr = flags := Option.some.inj (hwrite.symm.trans hflags)
    exact absurd hmode (by decide)
  exact ⟨diskRun_reach, hread, permitted_call_enforced diskRun_reach trivial, hwrite,
    permitted_call_enforced diskRun_reach hpermitted⟩

/-- **A write through a descriptor that is open for reading changes the disk.** -/
theorem diskRun_write_changes :
    Reach NoneOpen FileStep diskRun ∧ diskRun.flagsOf 0 = some oRdonly ∧
      ¬ Enforced diskRun (.write 0 (Kio.newReadable [7])) := by
  obtain ⟨-, hflags, -, hbefore, hafter⟩ := diskRun_eval
  refine ⟨diskRun_reach, hflags, fun henforced => ?_⟩
  obtain ⟨⟨r, s'⟩, hok, hdev⟩ := exists_ok_of_any hafter
  obtain ⟨d, hd, hcontent⟩ := (Option.any_eq_true _ _).mp hdev
  obtain ⟨d0, hd0, hcontent0⟩ := (Option.any_eq_true _ _).mp hbefore
  have hchange : ¬ Preserved diskRun.sys.fs s'.fs := fun hsame => by
    obtain ⟨d1, hd1, heq⟩ := hsame.device 1 d hd
    obtain rfl : d1 = d0 := Option.some.inj (hd1.symm.trans hd0)
    rw [beq_iff_eq.mp hcontent, beq_iff_eq.mp hcontent0] at heq
    cases heq
  obtain ⟨flags, hflags', hmode⟩ := henforced r s' hok hchange
  obtain rfl : oRdonly = flags := Option.some.inj (hflags.symm.trans hflags')
  exact absurd hmode (by decide)

end Osdev.Vfs
