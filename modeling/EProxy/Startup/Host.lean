import EProxy.Framework.Go
import EProxy.Framework.Mount

/-!
# The host a process starts on

What `pkg/bpf`, `pkg/cgroups` and `pkg/mountinfo` ask of the kernel while the process starts:
a mount table, the cgroup hierarchy and the BPF maps, which have numbers and can be pinned.
A system call is made in `Boot`, the host together with the package variables of `pkg/cgroups`;
the environment may fail any call (`BootEnv.fault`), but then with an error of its own and not
with one that is an answer. A process that is gone in the middle of its start is one whose
calls all fail from some call on.
-/

namespace EProxy

open Framework

/-! ### Constants -/

/-- `unix.BPF_FS_MAGIC`, which is `FilesystemTypeBPFFS`. -/
def bpfFsMagic : ℕ := 0xcafe4a11

/-- `unix.CGROUP2_SUPER_MAGIC`, which is `FilesystemTypeCgroup2`. -/
def cgroup2SuperMagic : ℕ := 0x63677270

/-- `defaults.BPFFSRoot`. -/
def bpffsRoot : Path := ["sys", "fs", "bpf"]

/-- `defaults.BPFFSRootFallback`. -/
def bpffsRootFallback : Path := ["run", "eproxy", "bpffs"]

/-- `defaults.DefaultCgroupRoot`. -/
def defaultCgroupRoot : Path := ["run", "eproxy", "cgroupv2"]

/-- `EProxyPath`. -/
def eProxyPath : Path := bpffsRoot ++ ["eproxy"]

/-! ### The kernel -/

/-- What two maps have in common if one can be used for the other. -/
structure MapShape where
  type : ℕ
  keySize : ℕ
  valueSize : ℕ
  maxEntries : ℕ
  flags : ℕ
  deriving DecidableEq

/-- A map of the kernel. -/
structure BpfMap where
  id : ℕ
  shape : MapShape
  deriving DecidableEq

/-- A host. The objects in its file systems are maps. -/
structure Host where
  vfs : Vfs BpfMap
  /-- The one hierarchy that every mount of type `cgroup2` shows. -/
  cgroup2 : FileSystem BpfMap
  magic_cgroup2 : cgroup2.magic = cgroup2SuperMagic
  dev_cgroup2 : cgroup2.dev < vfs.fresh
  /-- Maps there are have smaller numbers. -/
  nextMap : ℕ

namespace Host

/-- `lstat` and `stat`, which are the same without symbolic links: the kind of the file and its
device. -/
def stat (h : Host) (p : Path) : Except Errno (Node BpfMap × ℕ) :=
  (h.vfs.lookup p).map fun n => (n, (h.vfs.owner p).dev)

/-- `statfs`: the type of the file system. -/
def statfs (h : Host) (p : Path) : Except Errno ℕ :=
  (h.vfs.lookup p).map fun _ => (h.vfs.owner p).magic

/-- The host with other file systems, on which no device is gone. -/
def withVfs (h : Host) (v : Vfs BpfMap) (hv : h.vfs.fresh ≤ v.fresh) : Host :=
  { h with vfs := v, dev_cgroup2 := h.dev_cgroup2.trans_le hv }

/-- A new node. -/
def create (h : Host) (p : Path) (n : Node BpfMap) : Except Errno Host :=
  match hv : h.vfs.create p n with
  | .error e => .error e
  | .ok v => .ok (h.withVfs v (by
      obtain ⟨-, rfl⟩ := Vfs.create_eq_ok_iff.mp hv
      exact Nat.le_refl _))

/-- `mkdir`. -/
def mkdir (h : Host) (p : Path) : Except Errno (Unit × Host) :=
  match h.create p .dir with
  | .error e => .error e
  | .ok h' => if (h.vfs.owner p).writable then .ok ((), h') else .error .eperm

/-- A mount at a directory. -/
def mount (h : Host) (p : Path) (fs : FileSystem BpfMap) (hdev : fs.dev ≤ h.vfs.fresh) :
    Except Errno (Unit × Host) :=
  match h.vfs.lookup p with
  | .error e => .error e
  | .ok .dir =>
    -- the same file system twice at the same point
    if (h.vfs.locate p).2 = [] ∧ (h.vfs.owner p).dev = fs.dev ∧ (h.vfs.owner p).magic = fs.magic
    then .error .ebusy
    else .ok ((), h.withVfs (h.vfs.mount p fs hdev) (Nat.le_succ _))
  | .ok _ => .error .enotdir

/-- `mount` of type `bpf`: every mount is a file system of its own. -/
def mountBpf (h : Host) (p : Path) : Except Errno (Unit × Host) :=
  h.mount p (.empty h.vfs.fresh bpfFsMagic) (Nat.le_refl _)

/-- `mount` of type `cgroup2`. -/
def mountCgroup2 (h : Host) (p : Path) : Except Errno (Unit × Host) :=
  h.mount p h.cgroup2 h.dev_cgroup2.le

end Host

/-! ### System calls of the process -/

/-- The host, the number of calls made so far, and the variables of `pkg/cgroups`. -/
structure Boot where
  host : Host
  clock : ℕ
  cgroupRoot : Path
  cgrpMountOnce : Bool

/-- A process that has just started. -/
def Boot.new (h : Host) : Boot := ⟨h, 0, defaultCgroupRoot, false⟩

/-- How a process ends during its start other than by an error of `LoadAndAttach`: the one
`log.Fatalf`, with the path in its message. -/
inductive Fatal where
  | differentFilesystem (path : Path)
  deriving DecidableEq

/-- The error forced on the `n`-th call, if any. -/
abbrev Faults := ℕ → Option ℕ

/-- A system call. -/
def syscall {α : Type} (fault : Faults) (call : Host → Except Errno (α × Host)) :
    Go Boot Fatal (Except Errno α) :=
  ⟨fun b =>
    match fault b.clock with
    | some code => (.ret (.error (.other code)), { b with clock := b.clock + 1 })
    | none =>
      match call b.host with
      | .error e => (.ret (.error e), { b with clock := b.clock + 1 })
      | .ok (a, h) => (.ret (.ok a), { b with host := h, clock := b.clock + 1 })⟩

/-- A system call that only asks. -/
def ask {α : Type} (fault : Faults) (call : Host → Except Errno α) :
    Go Boot Fatal (Except Errno α) :=
  syscall fault fun h => (call h).map fun a => (a, h)

end EProxy
