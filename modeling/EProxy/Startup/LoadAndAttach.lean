import EProxy.Startup.Loader

/-!
# `pkg/bpf/bpf.go`

`LoadAndAttach` mounts the cgroup file system and the BPF file system if they are missing, has
the loader load the object file and attach the program, and keeps the two maps of the data path.
-/

namespace EProxy

open Framework Loader

/-- The errors of `LoadAndAttach`, by the call they are from. -/
inductive LoadError where
  | removeMemlock (err : LoaderError)
  | loadSpec (err : LoaderError)
  | collection (err : LoaderError)
  | attach (err : LoaderError)
  deriving DecidableEq

/-- What is not in the program: the failures of system calls and the loader. -/
structure BootEnv (L : Type) where
  fault : Faults
  loader : L

/-- The maps of a `BPFManager` whose program is attached; `none` is a nil handle. -/
structure BPFManager where
  service : Option BpfMap
  endpoint : Option BpfMap
  deriving DecidableEq

section Loading

variable {L : Type} [Loader L] (env : BootEnv L)

/-- What the loader finds in an object file. -/
def BootEnv.elf (ebpffile : String) : Except LoaderError CollectionSpec :=
  loadCollectionSpec env.loader ebpffile

/-- The handles of the two maps. -/
def handles (coll : Collection) : BPFManager :=
  ⟨coll.maps "eproxy_lb4_services", coll.maps "eproxy_lb4_backends"⟩

/-- `LoadAndAttach`. -/
def loadAndAttach (ebpffile : String) : Go Boot Fatal (Except LoadError BPFManager) := do
  match ← removeMemlock env.loader env.fault with
  | .error e => pure (.error (.removeMemlock e))
  | .ok _ =>
    checkOrMountCgrpFS env.fault none
    checkOrMountBtfFS env.fault
    match env.elf ebpffile with
    | .error e => pure (.error (.loadSpec e))
    | .ok spec =>
      match ← newCollectionWithOptions env.loader env.fault spec with
      | .error e => pure (.error (.collection e))
      | .ok coll =>
        -- `GetCgroupRoot`
        let b ← Go.get
        match ← attachCgroup env.loader env.fault coll "connect4" b.cgroupRoot with
        | .error e => pure (.error (.attach e))
        | .ok _ => pure (.ok (handles coll))

/-- A process starts on a host. -/
def Host.start (h : Host) (env : BootEnv L) (ebpffile : String) :
    Outcome Fatal (Except LoadError BPFManager) × Host :=
  let r := (loadAndAttach env ebpffile).run (.new h)
  (r.1, r.2.host)

end Loading

end EProxy
