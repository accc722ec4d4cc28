import EProxy.Framework.Table
import EProxy.Startup.Mounting

/-!
# The loader

`LoadAndAttach` leaves the object file to `github.com/cilium/ebpf`, which is not part of the
repository. `Loader` is the interface of the loader as `LoadAndAttach` uses it: the operations,
each of which may make system calls that fail, and what can be relied on. A map that is marked
`LIBBPF_PIN_BY_NAME` is taken from the directory for the pins, or created and pinned there
(`CollectionLoaded`); nothing else on the host is touched. Everything about starts is over an
arbitrary loader with these laws.
-/

namespace EProxy

open Framework Framework.Go

/-! ### Pins -/

/-- The map is pinned under the name. -/
def Host.Pinned (h : Host) (name : String) (i : BpfMap) : Prop :=
  h.vfs.lookup (eProxyPath ++ [name]) = .ok (.pin i) ∧
    h.magic (eProxyPath ++ [name]) = bpfFsMagic

/-- Maps can be pinned. -/
def Host.PinDir (h : Host) : Prop :=
  h.vfs.lookup eProxyPath = .ok .dir ∧ h.magic eProxyPath = bpfFsMagic

/-- A map of an object file. -/
structure MapSpec where
  name : String
  shape : MapShape
  /-- `LIBBPF_PIN_BY_NAME`. -/
  pinByName : Bool
  deriving DecidableEq

/-- The map of an object file can be loaded: one that is pinned under its name can be used for
it, or there is none and one can be pinned. -/
def Host.Loadable (h : Host) (m : MapSpec) : Prop :=
  m.pinByName → (∃ i, h.Pinned m.name i ∧ i.shape = m.shape) ∨
    h.vfs.lookup (eProxyPath ++ [m.name]) = .error .enoent ∧ h.PinDir

/-- A pin under one of the names. -/
def PinUnder (names : String → Prop) (q : Path) (n : Node BpfMap) : Prop :=
  ∃ name i, names name ∧ q = eProxyPath ++ [name] ∧ n = .pin i

section Pins

variable {h h' : Host} {name : String} {i : BpfMap} {names : String → Prop}

theorem eProxyPath_dropLast : (eProxyPath ++ [name]).dropLast = eProxyPath := List.dropLast_concat

/-- A pin is not the root of a mount. -/
theorem Host.Pinned.locate_ne_nil (hp : h.Pinned name i) :
    (h.vfs.locate (eProxyPath ++ [name])).2 ≠ [] := fun hnil =>
  absurd ((Vfs.lookup_of_locate_nil hnil).symm.trans hp.1) (by simp)

/-- Where something is pinned, something can be pinned. -/
theorem Host.Pinned.pinDir (hp : h.Pinned name i) : h.PinDir := by
  have hne := hp.locate_ne_nil
  have hdir := Vfs.lookup_dropLast_of_ok hne hp.1
  have howner := Vfs.owner_dropLast hne
  rw [eProxyPath_dropLast] at hdir howner
  exact ⟨hdir, (congrArg FileSystem.magic howner).trans hp.2⟩

theorem Host.Pinned.unique {i' : BpfMap} (hp : h.Pinned name i) (hp' : h.Pinned name i') :
    i = i' := by
  have hpin := Except.ok.inj (hp.1.symm.trans hp'.1)
  exact Node.pin.inj hpin

theorem Adds.pinned {S : Path → Node BpfMap → Prop} (hadds : Adds S h h') (hp : h.Pinned name i) :
    h'.Pinned name i :=
  ⟨hadds.found hp.1, (hadds.magic _).trans hp.2⟩

theorem not_prefix_of_ne {name' : String} (hne : name' ≠ name) :
    ¬ eProxyPath ++ [name'] <+: eProxyPath ++ [name] := by
  intro hpre
  rw [List.prefix_append_right_inj] at hpre
  exact hne (by simpa using hpre)

theorem not_prefix_eProxyPath : ¬ eProxyPath ++ [name] <+: eProxyPath := by
  intro hpre
  have hlen := hpre.length_le
  rw [List.length_append, List.length_singleton] at hlen
  omega

/-- Pins under other names do not matter. -/
theorem Adds.view_pin (hadds : Adds (PinUnder names) h h') (hname : ¬ names name) :
    h'.vfs.view (eProxyPath ++ [name]) = h.vfs.view (eProxyPath ++ [name]) := by
  refine hadds.off ?_
  rintro r n ⟨name', i, hn, rfl, rfl⟩
  refine not_prefix_of_ne ?_
  rintro rfl
  exact hname hn

theorem Adds.view_pinDir (hadds : Adds (PinUnder names) h h') :
    h'.vfs.view eProxyPath = h.vfs.view eProxyPath := by
  refine hadds.off ?_
  rintro r n ⟨name', i, -, rfl, rfl⟩
  exact not_prefix_eProxyPath

theorem Host.pinned_congr (hview : h'.vfs.view (eProxyPath ++ [name]) =
    h.vfs.view (eProxyPath ++ [name])) : h'.Pinned name i ↔ h.Pinned name i := by
  have hlookup := congrArg Prod.fst hview
  have hmagic := congrArg (fun x => x.2.2.1) hview
  dsimp only [Vfs.view] at hlookup hmagic
  rw [Host.Pinned, Host.Pinned, Host.magic, Host.magic, hlookup, hmagic]

theorem Host.pinDir_congr (hview : h'.vfs.view eProxyPath = h.vfs.view eProxyPath) :
    h'.PinDir ↔ h.PinDir := by
  have hlookup := congrArg Prod.fst hview
  have hmagic := congrArg (fun x => x.2.2.1) hview
  dsimp only [Vfs.view] at hlookup hmagic
  rw [Host.PinDir, Host.PinDir, Host.magic, Host.magic, hlookup, hmagic]

theorem Host.loadable_congr {m : MapSpec}
    (hview : h'.vfs.view (eProxyPath ++ [m.name]) = h.vfs.view (eProxyPath ++ [m.name]))
    (hdir : h'.vfs.view eProxyPath = h.vfs.view eProxyPath) : h'.Loadable m ↔ h.Loadable m := by
  have hlookup := congrArg Prod.fst hview
  dsimp only [Vfs.view] at hlookup
  rw [Host.Loadable, Host.Loadable, hlookup, Host.pinDir_congr hdir]
  simp only [Host.pinned_congr hview]

end Pins

/-! ### Collections -/

/-- What `ebpf.LoadCollectionSpec` finds in an object file. -/
structure CollectionSpec where
  maps : List MapSpec
  programs : List String
  nodup : (maps.map MapSpec.name).Nodup

/-- The maps and the program that `ebpf/src/service.c` declares. -/
def serviceSpec : CollectionSpec where
  maps := [
    ⟨"eproxy_lb4_services", ⟨1, 8, 4, 65536, 0⟩, true⟩,
    ⟨"eproxy_lb4_backends", ⟨1, 4, 8, 65536, 0⟩, true⟩]
  programs := ["connect4"]
  nodup := by decide

/-- `ebpf.Collection`: the maps by their names, and the names of the programs. -/
structure Collection where
  maps : Table String BpfMap
  programs : List String

/-- An error of the loader, by its text. -/
structure LoaderError where
  text : String
  deriving DecidableEq

/-- The names of some maps. -/
def Names (ms : List MapSpec) (name : String) : Prop := ∃ m ∈ ms, m.name = name

/-- **What loading a collection comes to.** -/
structure CollectionLoaded (fault : Faults) (h : Host) (spec : CollectionSpec)
    (r : Except LoaderError Collection) (h' : Host) : Prop where
  /-- Whatever happens, pins under the names of the maps are all that is added to the host. -/
  adds : Adds (PinUnder (Names spec.maps)) h h'
  programs : ∀ {coll}, r = .ok coll → coll.programs = spec.programs
  found : ∀ {coll m}, r = .ok coll → m ∈ spec.maps → (coll.maps m.name).isSome
  /-- What is pinned by name is pinned in the end. -/
  pinned : ∀ {coll m i}, r = .ok coll → m ∈ spec.maps → m.pinByName →
    coll.maps m.name = some i → h'.Pinned m.name i
  /-- It is the map that was pinned before, or a new one. -/
  source : ∀ {coll m i}, r = .ok coll → m ∈ spec.maps → m.pinByName →
    coll.maps m.name = some i → h.Pinned m.name i ∨ h.nextMap ≤ i.id
  /-- When no call fails it is the maps that decide. -/
  calm : Calm fault → ((∃ coll, r = .ok coll) ↔ ∀ m ∈ spec.maps, h.Loadable m)

/-- **The loader**, with its packages `link` and `rlimit`. -/
class Loader (L : Type) where
  /-- `rlimit.RemoveMemlock`. -/
  removeMemlock : L → Faults → Go Boot Fatal (Except LoaderError Unit)
  /-- `ebpf.LoadCollectionSpec`. -/
  loadCollectionSpec : L → String → Except LoaderError CollectionSpec
  /-- `ebpf.NewCollectionWithOptions`, with `EProxyPath` for the pins. -/
  newCollectionWithOptions : L → Faults → CollectionSpec →
    Go Boot Fatal (Except LoaderError Collection)
  /-- `link.AttachCgroup`. -/
  attachCgroup : L → Faults → Collection → (program : String) → Path →
    Go Boot Fatal (Except LoaderError Unit)
  removeMemlock_spec : ∀ (l : L) (fault : Faults) {h : Host} {root : Path} {once : Bool},
    Triple (At h root once) (removeMemlock l fault)
      (fun r b => At h root once b ∧ (Calm fault → r = .ok ())) fun _ _ => False
  newCollectionWithOptions_spec : ∀ (l : L) (fault : Faults) (spec : CollectionSpec) {h : Host}
    {root : Path} {once : Bool},
    Triple (At h root once) (newCollectionWithOptions l fault spec)
      (fun r b => ∃ h', At h' root once b ∧ CollectionLoaded fault h spec r h') fun _ _ => False
  /-- A program can be attached to a directory on the cgroup file system. One that is not in the
  collection is a nil pointer, and the call may panic. -/
  attachCgroup_spec : ∀ (l : L) (fault : Faults) (coll : Collection) (program : String)
    (path : Path) {h : Host} {root : Path} {once : Bool},
    Triple (At h root once) (attachCgroup l fault coll program path)
      (fun r b => At h root once b ∧
        (Calm fault → program ∈ coll.programs → (r = .ok () ↔ h.OnCgroup2 path)))
      fun _ b => At h root once b ∧ program ∉ coll.programs

end EProxy
