import EProxy.Startup.Host

/-!
# Checking for the mounts, and mounting

What a process does about its file systems when it starts: `IsMountFS` of `pkg/mountinfo`,
`CheckOrMountCgrpFS` of `pkg/cgroups` and `CheckOrMountBtfFS` of `pkg/bpf`, with all they call.

The errors of the mounting functions are logged by their callers and dropped. The texts of the
log are left out.
-/

namespace EProxy

open Framework

/-- The errors of the mounting functions. -/
inductive MountError where
  /-- An `os.PathError`. -/
  | path (op : String) (path : Path) (err : Errno)
  | mkdir (err : Errno)
  | stat (path : Path) (err : Errno)
  | notDirectory (path : Path)
  | mount (path : Path) (err : Errno)
  | differentFilesystem (path : Path)
  deriving DecidableEq

section Mounting

variable (fault : Faults)

/-- `IsMountFS`: whether the path is a mount point, and whether of the given type. -/
def isMountFS (mntType : ℕ) (path : Path) : Go Boot Fatal (Bool × Bool × Option MountError) := do
  match ← ask fault (·.stat path) with
  -- what is not there is no mount point
  | .error .enoent => pure (false, false, none)
  | .error e => pure (false, false, some (.path "lstat" path e))
  | .ok st =>
    match ← ask fault (·.stat path.dropLast) with
    | .error e => pure (false, false, some (.path "lstat" path.dropLast e))
    | .ok pst =>
      if st.2 = pst.2 then pure (false, false, none)
      else
        match ← ask fault (·.statfs path) with
        | .error e => pure (true, false, some (.path "statfs" path e))
        | .ok type => pure (true, type == mntType, none)

/-- The end of `os.MkdirAll`, when the directory of the path is there. -/
def mkdirLast (path : Path) : Go Boot Fatal (Option Errno) := do
  match ← syscall fault (·.mkdir path) with
  | .ok _ => pure none
  | .error e =>
    -- somebody else may have made it
    match ← ask fault (·.stat path) with
    | .ok (.dir, _) => pure none
    | _ => pure (some e)

/-- The slow path of `os.MkdirAll`: the directory of the path first. -/
def mkdirSlow (mkdirUp : Go Boot Fatal (Option Errno)) (path : Path) :
    Go Boot Fatal (Option Errno) := do
  match ← mkdirUp with
  | some e => pure (some e)
  | none => mkdirLast fault path

/-- `os.MkdirAll` of a path given in reverse. -/
def mkdirAllRev : List String → Go Boot Fatal (Option Errno)
  | [] => pure none
  | name :: up => do
    match ← ask fault (·.stat (name :: up).reverse) with
    | .ok (.dir, _) => pure none
    | .ok _ => pure (some .enotdir)
    | .error _ => mkdirSlow fault (mkdirAllRev up) (name :: up).reverse

/-- `MkdirBPF`. -/
def mkdirBPF (path : Path) : Go Boot Fatal (Option Errno) := mkdirAllRev fault path.reverse

/-- The part that `mountFS` and `mountCgroup` have in common begins with the mount point, which
is made if it is missing and must be a directory if it is not. -/
def mountPoint (path : Path) : Go Boot Fatal (Option MountError) := do
  match ← ask fault (·.stat path) with
  | .error .enoent => return (← mkdirBPF fault path).map .mkdir
  | .error e => return some (.stat path e)
  | .ok (.dir, _) => return none
  | .ok _ => return some (.notDirectory path)

/-- The part that `mountFS` and `mountCgroup` have in common. -/
def mountAt (path : Path) (mount : Host → Except Errno (Unit × Host)) :
    Go Boot Fatal (Option MountError) := do
  match ← mountPoint fault path with
  | some e => pure (some e)
  | none =>
    match ← syscall fault mount with
    | .error e => pure (some (.mount path e))
    | .ok _ => pure none

/-- `mountFS`; the warning it may print is left out. -/
def mountFS (_printWarning : Bool) : Go Boot Fatal (Option MountError) := do
  match ← mountAt fault bpffsRoot (·.mountBpf bpffsRoot) with
  | some e => pure (some e)
  | none => do
    -- whether the directory for the pins could be made is not asked
    let _ ← mkdirBPF fault eProxyPath
    pure none

/-- `checkOrMountDefaultLocations`. -/
def checkOrMountDefaultLocations : Go Boot Fatal (Option MountError) := do
  match ← isMountFS fault bpfFsMagic bpffsRoot with
  | (_, _, some e) => pure (some e)
  | (false, _, none) => mountFS fault false
  | (true, true, none) => pure none
  | (true, false, none) =>
    -- the path that is asked about is not the fallback
    match ← isMountFS fault bpfFsMagic bpffsRoot with
    | (_, _, some e) => pure (some e)
    | (false, _, none) => mountFS fault false
    | (true, true, none) => pure none
    | (true, false, none) => Go.panic (.logged (.differentFilesystem bpffsRootFallback))

/-- `CheckOrMountBtfFS`. -/
def checkOrMountBtfFS : Go Boot Fatal Unit := do
  let _ ← checkOrMountDefaultLocations fault
  pure ()

/-- `mountCgroup`, at the path in the variable `cgroupRoot`. -/
def mountCgroup : Go Boot Fatal (Option MountError) := do
  let b ← Go.get
  mountAt fault b.cgroupRoot (·.mountCgroup2 b.cgroupRoot)

/-- `cgrpCheckOrMountLocation`. -/
def cgrpCheckOrMountLocation (cgroupRoot : Path) : Go Boot Fatal (Option MountError) := do
  -- `setCgroupRoot`
  Go.modify fun b => { b with cgroupRoot := cgroupRoot }
  match ← isMountFS fault cgroup2SuperMagic cgroupRoot with
  | (_, _, some e) => pure (some e)
  | (false, _, none) => mountCgroup fault
  | (true, true, none) => pure none
  | (true, false, none) => pure (some (.differentFilesystem cgroupRoot))

/-- `CheckOrMountCgrpFS`; `none` is the empty string. -/
def checkOrMountCgrpFS (mapRoot : Option Path) : Go Boot Fatal Unit := do
  let b ← Go.get
  if b.cgrpMountOnce then pure ()
  else do
    let _ ← cgrpCheckOrMountLocation fault (mapRoot.getD b.cgroupRoot)
    Go.modify fun b => { b with cgrpMountOnce := true }

end Mounting

end EProxy
