import Osdev.Vfs.Vcache
import Osdev.Vfs.Vnode

/-!
# Locks and path resolution (`kernel/vfs/vresolve.c`)

A thread takes the locks of entries, vnodes and files. The functions of the other modules do not
touch these locks, so they run on the `Fs` part of the state. `held` counts how often the running
thread has each lock, and `floor` is what it had when the current call began. Giving back a lock
that the call has not taken ends the run with `untaken`; if the thread does not have the lock at
all, the kernel panics at this point.
-/

namespace Osdev.Vfs

/-- The locks of the file system that are held across functions. -/
inductive LockId where
  | ve (p : Nat)
  | vn (p : Nat)
  | file (p : Nat)
  deriving DecidableEq, Repr

/-- How a call ends without returning. -/
inductive Stop where
  | fault (f : Fault)
  | untaken (l : LockId)
  deriving DecidableEq, Repr

structure Sys where
  fs : Fs
  held : LockId → Nat
  floor : LockId → Nat

abbrev SysM := StateT Sys (Except Stop)

/-- A function that leaves the locks alone. -/
def onFs {α : Type} (m : FsM α) : SysM α := fun s =>
  match m s.fs with
  | .ok (a, fs) => .ok (a, { s with fs })
  | .error f => .error (.fault f)

/-- `_mtx_wait_lock`. -/
def acquire (l : LockId) : SysM Unit :=
  modify fun s => { s with held := fun q => if q = l then s.held q + 1 else s.held q }

/-- `_mtx_wait_unlock`. -/
def give (l : LockId) : SysM Unit := fun s =>
  if s.held l ≤ s.floor l then .error (.untaken l)
  else .ok ((), { s with held := fun q => if q = l then s.held q - 1 else s.held q })

/-- `ve_lock`. -/
def veLock (p : Nat) : SysM Bool := do
  let e ← onFs (getVe p)
  if e.state = .dead then pure false
  else do
    acquire (.ve p)
    let _ ← onFs (veSyncvn p)
    let e ← onFs (getVe p)
    if e.state = .dead then do
      give (.ve p)
      pure false
    else pure true

/-- `ve_unlock`. -/
def veUnlock (p : Nat) : SysM Unit := do
  let _ ← onFs (getVe p)
  give (.ve p)

/-- `vn_lock`. -/
def vnLock (p : Nat) : SysM Bool := do
  let n ← onFs (getVn p)
  if n.state = .dead then pure false
  else do
    acquire (.vn p)
    pure true

/-- `vn_unlock`. -/
def vnUnlock (p : Nat) : SysM Unit := do
  let _ ← onFs (getVn p)
  give (.vn p)

/-! ## Flags -/

/-- `VR_NOFOLLOW`. -/
def vrNofollow : Flags := 0x1#32
/-- `VR_UNLOCKED`. -/
def vrUnlocked : Flags := 0x2#32
/-- `VR_PARENT`. -/
def vrParent : Flags := 0x4#32
/-- `VR_EXCLUSV`. -/
def vrExclusv : Flags := 0x8#32
/-- `VR_NOTDIR`. -/
def vrNotdir : Flags := 0x80#32
/-- `VR_DIR`. -/
def vrDir : Flags := 0x100#32
/-- `VR_BLK`. -/
def vrBlk : Flags := 0x200#32
/-- `VR_LNK`. -/
def vrLnk : Flags := 0x400#32

/-- `MAX_LOOP`. -/
def maxLoop : Nat := 32

/-- What the functions return: the code, the result entry (`NULL` if it is not set) and the buffer
for the full path, if the caller gave one. -/
structure Out where
  res : Except Errno Unit
  ve : Nat
  fullpath : Option Sbuf

/-- `vresolve_get_ve_path`. -/
def getVePath : Nat → Nat → Sbuf → FsM Sbuf
  | 0, _, _ => throw .diverged
  | fuel + 1, ve, sb => do
    let e ← getVe ve
    if e.isFsroot = false ∧ e.parent ≠ 0 ∧ ve ≠ e.parent then do
      let sb ← getVePath fuel e.parent sb
      pure ((sb.writeChar slash).write e.name)
    else pure (if ve ≠ e.parent then sb.write e.name else sb)

/-- `vresolve_validate_result`. -/
def validateResult (type : VType) (flags : Flags) : Except Errno Unit :=
  if flags.has vrNotdir ∧ type = .dir then .error .eisdir
  else if flags.has vrDir ∧ type ≠ .dir then .error .enotdir
  else if flags.has vrBlk ∧ type ≠ .blk then .error .enotblk
  else if flags.has vrLnk ∧ type ≠ .lnk then .error .enolink
  else .ok ()

/-! ## Links and mount points -/

/-- `vresolve_internal`, as its callers see it: a directory, a path, flags, a depth and the
buffer. -/
abbrev Resolver := Nat → Str → Flags → Nat → Option Sbuf → SysM Out

/-- The label `ret` of `vresolve_follow`. -/
def followRet (ve atVe : Nat) (fullpath : Option Sbuf) : SysM Out := do
  onFs (veRelease atVe)
  pure ⟨.ok (), ve, fullpath⟩

/-- The label `error` of `vresolve_follow`. -/
def followError (ve atVe nextVe : Nat) (fullpath : Option Sbuf) (e : Errno) : SysM Out := do
  veUnlock ve
  onFs (veRelease ve)
  onFs (veRelease atVe)
  onFs (veRelease nextVe)
  pure ⟨.error e, 0, fullpath⟩

/-- The part of `vresolve_follow` after the target of a link or mount point was found and locked. -/
def followSwap (ve nextVe atVe : Nat) (fullpath : Option Sbuf) : SysM Out := do
  veUnlock ve
  onFs (veRelease ve)
  followRet nextVe atVe fullpath

/-- The part of `vresolve_follow` for symbolic links. The depth is passed on as it is: `depth++` has
the old value. -/
def followLink (rec : Resolver) (ve vn atVe : Nat) (depth : Nat) (fullpath : Option Sbuf) :
    SysM Out := do
  let n ← onFs (getVn vn)
  if n.size > pathMax then followError ve atVe 0 fullpath .enametoolong
  else do
    let (r, kio) ← onFs (vnReadlink vn (Kio.newWritable (List.replicate n.size 0)))
    match r with
    | .error e => followError ve atVe 0 fullpath e
    | .ok () => do
      let out ← rec atVe kio.bytes 0 depth fullpath
      match out.res with
      | .error e => followError ve atVe out.ve out.fullpath e
      | .ok () => followSwap ve out.ve atVe out.fullpath

/-- The part of `vresolve_follow` for mount points. -/
def followMount (ve mount atVe : Nat) (fullpath : Option Sbuf) : SysM Out := do
  onFs (veGetref mount)
  if ← veLock mount then followSwap ve mount atVe fullpath
  else followError ve atVe mount fullpath .enoent

/-- `vresolve_follow`. The entry is locked; the result is locked, and on an error the entry is
unlocked. -/
def vresolveFollow (rec : Resolver) (ve : Nat) (flags : Flags) (isLast : Bool) (depth : Nat)
    (fullpath : Option Sbuf) : SysM Out := do
  let e ← onFs (getVe ve)
  onFs (veGetref e.parent)
  if depth > maxLoop then followError ve e.parent 0 fullpath .eloop
  else if e.type = .lnk then
    if isLast ∧ flags.has vrNofollow then followRet ve e.parent fullpath
    else followLink rec ve e.vn e.parent depth fullpath
  else if e.isMount then
    if e.type ≠ .dir then throw (.fault .assertion)
    else if isLast ∧ flags.has vrNofollow then followRet ve e.parent fullpath
    else followMount ve e.mount e.parent fullpath
  else followRet ve e.parent fullpath

/-! ## The cache -/

/-- The label `error` of `vresolve_cache` and of `vresolve_fullwalk`, for an entry that is there. -/
def unlockRelease (ve : Nat) (e : Errno) (fullpath : Option Sbuf) : SysM Out := do
  veUnlock ve
  onFs (veRelease ve)
  pure ⟨.error e, 0, fullpath⟩

/-- The flag `VR_UNLOCKED`. -/
def unlockIf (flags : Flags) (ve : Nat) : SysM Unit :=
  if flags.has vrUnlocked then veUnlock ve else pure ()

/-- The second half of `vresolve_cache`. When the link or mount point cannot be followed, `ve` is
`NULL` at the label `error`. -/
def cacheFollow (rec : Resolver) (ve : Nat) (flags : Flags) (depth : Nat) : SysM Out := do
  let out ← vresolveFollow rec ve flags true depth none
  match out.res with
  | .error _ => throw (.fault .null)
  | .ok () => do
    let e ← onFs (getVe out.ve)
    match validateResult e.type flags with
    | .error err => unlockRelease out.ve err none
    | .ok () => do
      unlockIf flags out.ve
      pure ⟨.ok (), out.ve, none⟩

/-- `vresolve_cache`. -/
def vresolveCache (rec : Resolver) (path : Str) (flags : Flags) (depth : Nat) : SysM Out :=
  if cstrStartsWith path slash = false then pure ⟨.error .einval, 0, none⟩
  else do
    let ve ← onFs (vcacheGet path)
    if ve = 0 then pure ⟨.error .enoent, 0, none⟩
    else do
      if ← veLock ve then
        if flags.has vrExclusv then unlockRelease ve .eexist none
        else cacheFollow rec ve flags depth
      else do
        onFs (vcacheInvalidate path)
        onFs (veRelease ve)
        pure ⟨.error .enoent, 0, none⟩

/-! ## The walk -/

/-- How the walk loop ends. -/
inductive WalkEnd where
  /-- all parts are walked -/
  | done (ve : Nat) (curpath : Sbuf) (fullpath : Option Sbuf)
  /-- the last part is missing and `VR_EXCLUSV` is given -/
  | exclusive (ve : Nat) (curpath : Sbuf) (fullpath : Option Sbuf)
  /-- the last part is missing and `VR_PARENT` is given -/
  | parent (ve : Nat) (fullpath : Option Sbuf)
  /-- an error, at an entry that is locked -/
  | fail (ve : Nat) (e : Errno) (fullpath : Option Sbuf)
  /-- an error of `vresolve_follow`, which has given the entry back -/
  | failFollow (e : Errno) (fullpath : Option Sbuf)

/-- What the walk does with the next entry: it locks it, caches its path and follows it. -/
def walkNext (rec : Resolver) (flags : Flags) (depth ve next : Nat) (name : Str) (isLast : Bool)
    (curpath : Sbuf) (fullpath : Option Sbuf) :
    SysM (Except WalkEnd (Nat × Sbuf × Option Sbuf)) := do
  if ← veLock next then do
    veUnlock ve
    onFs (veRelease ve)
    let curpath := (curpath.writeChar slash).write name
    onFs (vcachePut curpath.data next)
    let out ← vresolveFollow rec next flags isLast depth fullpath
    match out.res with
    | .error e => pure (.error (.failFollow e out.fullpath))
    | .ok () => pure (.ok (out.ve, curpath, out.fullpath))
  else do
    onFs (veRelease next)
    pure (.error (.fail ve .enoent fullpath))

/-- The end of the walk when a part is not found. -/
def walkMissing (flags : Flags) (ve : Nat) (isLast : Bool) (e : Errno) (curpath : Sbuf)
    (fullpath : Option Sbuf) : WalkEnd :=
  if isLast ∧ e = .enoent ∧ flags.has vrExclusv then .exclusive ve curpath fullpath
  else if isLast ∧ e = .enoent ∧ flags.has vrParent then .parent ve fullpath
  else .fail ve e fullpath

/-- One round of the walk loop with the part `part`: the next entry, or the end. -/
def walkPart (rec : Resolver) (flags : Flags) (depth : Nat) (part : Path) (ve : Nat)
    (curpath : Sbuf)
    (fullpath : Option Sbuf) : SysM (Except WalkEnd (Nat × Sbuf × Option Sbuf)) := do
  let e ← onFs (getVe ve)
  if e.type ≠ .dir then pure (.error (.fail ve .enotdir fullpath))
  else if part.len > nameMax then pure (.error (.fail ve .enametoolong fullpath))
  else if part.isDot then pure (.ok (ve, curpath, fullpath))
  else if part.isDotdot then do
    onFs (veGetref e.parent)
    walkNext rec flags depth ve e.parent part.toStr part.iterEnd curpath fullpath
  else do
    match ← onFs (vnLookup ve e.vn part.toStr) with
    | .error err => pure (.error (walkMissing flags ve part.iterEnd err curpath fullpath))
    | .ok next => walkNext rec flags depth ve next part.toStr part.iterEnd curpath fullpath

/-- The walk loop. -/
def walkLoop (rec : Resolver) (flags : Flags) (depth : Nat) :
    Nat → Path → Nat → Sbuf → Option Sbuf → SysM WalkEnd
  | 0, _, _, _, _ => throw (.fault .diverged)
  | fuel + 1, part, ve, curpath, fullpath =>
    if part.nextPart.isNull then pure (.done ve curpath fullpath)
    else do
      match ← walkPart rec flags depth part.nextPart ve curpath fullpath with
      | .error stop => pure stop
      | .ok (ve, curpath, fullpath) =>
        walkLoop rec flags depth fuel part.nextPart ve curpath fullpath

/-- The root of a mounted file system is replaced by its mount point if links are not followed. -/
def walkUp (flags : Flags) (ve : Nat) : SysM Nat := do
  let e ← onFs (getVe ve)
  let n ← onFs (getVn e.vn)
  if n.isRoot ∧ flags.has vrNofollow ∧ e.isFsroot = false then do
    onFs (veGetref e.parent)
    let _ ← veLock e.parent
    veUnlock ve
    onFs (veRelease ve)
    pure e.parent
  else pure ve

/-- Loading the vnode of an entry. -/
def loadVnode (ve : Nat) : SysM Unit := do
  let e ← onFs (getVe ve)
  let n ← onFs (getVn e.vn)
  if n.loaded then pure ()
  else do
    let _ ← vnLock e.vn
    onFs (vnLoad e.vn)
    vnUnlock e.vn

/-- The label `success` of `vresolve_fullwalk`. -/
def walkSuccess (flags : Flags) (ve : Nat) (curpath : Sbuf) (fullpath : Option Sbuf) :
    SysM Out := do
  let ve ← walkUp flags ve
  loadVnode ve
  unlockIf flags ve
  pure ⟨.ok (), ve, fullpath.map curpath.transfer⟩

/-- The end of `vresolve_fullwalk`. -/
def walkFinish (flags : Flags) : WalkEnd → SysM Out
  | .done ve curpath fullpath => do
    let e ← onFs (getVe ve)
    match validateResult e.type flags with
    | .error err => unlockRelease ve err fullpath
    | .ok () => walkSuccess flags ve curpath fullpath
  | .exclusive ve curpath fullpath => walkSuccess flags ve curpath fullpath
  | .parent ve fullpath => do
    unlockIf flags ve
    pure ⟨.error .enoent, ve, fullpath⟩
  | .fail ve e fullpath => unlockRelease ve e fullpath
  | .failFollow e fullpath => pure ⟨.error e, 0, fullpath⟩

/-- Where the walk begins: the entry and its path. -/
def walkStart (start : Nat) (path : Path) : FsM (Nat × Sbuf) := do
  let s ← get
  if path.isAbsolute then do
    veGetref s.vcache.root
    pure (s.vcache.root, Sbuf.init (pathMax + 1))
  else do
    let sb ← getVePath (s.brk + 2) start (Sbuf.init (pathMax + 1))
    veGetref start
    pure (start, sb)

/-- At a mount point, the walk begins at the mounted root. -/
def walkMounted (ve : Nat) : FsM Nat := do
  let e ← getVe ve
  if e.isMount then do
    veGetref e.mount
    veRelease ve
    pure e.mount
  else pure ve

/-- `vresolve_fullwalk`. -/
def vresolveFullwalk (rec : Resolver) (start : Nat) (path : Str) (flags : Flags) (depth : Nat)
    (fullpath : Option Sbuf) : SysM Out := do
  let (ve, curpath) ← onFs (walkStart start (Path.new path))
  let ve ← onFs (walkMounted ve)
  if ← veLock ve then do
    let stop ← walkLoop rec flags depth ((Path.new path).len + 2)
      (Path.new path) ve curpath fullpath
    walkFinish flags stop
  else do
    onFs (veRelease ve)
    pure ⟨.error .enoent, 0, fullpath⟩

/-- `vresolve_internal`. The recursion through links need not end, since the depth does not grow. -/
def vresolveInternal : Nat → Resolver
  | 0, _, _, _, _, _ => throw (.fault .diverged)
  | fuel + 1, start, path, flags, depth, fullpath =>
    if depth > maxLoop then pure ⟨.error .eloop, 0, fullpath⟩
    else do
      let out ← vresolveCache (vresolveInternal fuel) path flags depth
      match out.res with
      | .ok () => pure ⟨.ok (), out.ve, fullpath.map fun sb => sb.write path⟩
      | .error _ => vresolveFullwalk (vresolveInternal fuel) start path flags depth fullpath

/-- `vresolve_fullpath`, and with no buffer `vresolve`. -/
def vresolve (fuel start : Nat) (path : Str) (flags : Flags) (fullpath : Option Sbuf) : SysM Out :=
  vresolveInternal fuel start path flags 0 fullpath

end Osdev.Vfs
