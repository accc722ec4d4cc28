import EProxy.Startup.Loader
import EProxy.Utils.Set

/-!
# A loader

`PinLoader` is a loader with the laws of `Loader`, so there is one: it goes through the maps of
a collection in any order, takes what is pinned under a name in the same shape, and creates and
pins what is not there. `loadMaps_spec` says what becomes of all the maps.
-/

namespace EProxy

open Framework Framework.Go

/-! ### Calls of the kernel -/

namespace Host

/-- `BPF_OBJ_GET`. -/
def objGet (h : Host) (p : Path) : Except Errno BpfMap :=
  match h.vfs.lookup p with
  | .error e => .error e
  | .ok (.pin m) => if (h.vfs.owner p).magic = bpfFsMagic then .ok m else .error .eacces
  | .ok _ => .error .eacces

/-- `BPF_MAP_CREATE`. -/
def mapCreate (h : Host) (shape : MapShape) : Except Errno (BpfMap × Host) :=
  .ok (⟨h.nextMap, shape⟩, { h with nextMap := h.nextMap + 1 })

/-- `BPF_OBJ_PIN`. -/
def objPin (h : Host) (m : BpfMap) (p : Path) : Except Errno (Unit × Host) :=
  match h.create p (.pin m) with
  | .error e => .error e
  | .ok h' => if (h.vfs.owner p).magic = bpfFsMagic then .ok ((), h') else .error .eperm

/-- `BPF_LINK_CREATE` on an opened directory. -/
def linkCreate (h : Host) (p : Path) : Except Errno Unit :=
  match h.vfs.lookup p with
  | .error e => .error e
  | .ok .dir => if (h.vfs.owner p).magic = cgroup2SuperMagic then .ok () else .error .ebadf
  | .ok _ => .error .ebadf

end Host

/-! ### Loading and attaching -/

/-- The object files, and the order in which the maps of one are gone through. -/
structure PinLoader where
  files : String → Except LoaderError CollectionSpec
  order : IterOrder MapSpec

namespace PinLoader

variable (fault : Faults)

/-- A call that has failed. -/
def failed (call name : String) : LoaderError := ⟨call ++ " " ++ name⟩

/-- Pinning a map that was just created. -/
def pinMap (i : BpfMap) (name : String) : Go Boot Fatal (Except LoaderError BpfMap) := do
  match ← ask fault (·.statfs eProxyPath) with
  | .error _ => pure (.error (failed "statfs" name))
  | .ok type =>
    if type ≠ bpfFsMagic then pure (.error (failed "statfs" name))
    else
      match ← syscall fault (·.objPin i (eProxyPath ++ [name])) with
      | .error _ => pure (.error (failed "pin" name))
      | .ok _ => pure (.ok i)

/-- A new map, pinned if it has to be. -/
def createMap (m : MapSpec) : Go Boot Fatal (Except LoaderError BpfMap) := do
  match ← syscall fault (·.mapCreate m.shape) with
  | .error _ => pure (.error (failed "create" m.name))
  | .ok i => if m.pinByName then pinMap fault i m.name else pure (.ok i)

/-- The map that is pinned under the name, or a new one. -/
def loadMap (m : MapSpec) : Go Boot Fatal (Except LoaderError BpfMap) := do
  if m.pinByName then
    match ← ask fault (·.objGet (eProxyPath ++ [m.name])) with
    | .error .enoent => createMap fault m
    | .error _ => pure (.error (failed "load" m.name))
    | .ok i => pure (if i.shape = m.shape then .ok i else .error (failed "use" m.name))
  else createMap fault m

/-- The loop over the maps; the first error ends it. -/
def loadMaps : List MapSpec → Go Boot Fatal (Except LoaderError (List (String × BpfMap)))
  | [] => pure (.ok [])
  | m :: ms => do
    match ← loadMap fault m with
    | .error e => pure (.error e)
    | .ok i =>
      match ← loadMaps ms with
      | .error e => pure (.error e)
      | .ok loaded => pure (.ok ((m.name, i) :: loaded))

/-- The loop over the programs. -/
def loadPrograms : List String → Go Boot Fatal (Except LoaderError Unit)
  | [] => pure (.ok ())
  | name :: names => do
    match ← ask fault fun _ => .ok () with
    | .error _ => pure (.error (failed "load" name))
    | .ok _ => loadPrograms names

/-- The maps, and then the programs. -/
def newCollection (l : PinLoader) (spec : CollectionSpec) :
    Go Boot Fatal (Except LoaderError Collection) := do
  match ← loadMaps fault (l.order.visit spec.maps) with
  | .error e => pure (.error e)
  | .ok loaded =>
    match ← loadPrograms fault spec.programs with
    | .error e => pure (.error e)
    | .ok _ => pure (.ok ⟨fun name => loaded.lookup name, spec.programs⟩)

/-- The directory is opened, and the program is linked to it. -/
def attach (coll : Collection) (program : String) (path : Path) :
    Go Boot Fatal (Except LoaderError Unit) := do
  match ← ask fault (·.stat path) with
  | .error _ => pure (.error (failed "open" program))
  | .ok _ =>
    if program ∈ coll.programs then
      match ← ask fault (·.linkCreate path) with
      | .error _ => pure (.error (failed "link" program))
      | .ok _ => pure (.ok ())
    else Go.panic .nilDereference

/-- A call that only the environment can fail. -/
def unlock : Go Boot Fatal (Except LoaderError Unit) := do
  match ← ask fault fun _ => .ok () with
  | .error _ => pure (.error ⟨"setrlimit"⟩)
  | .ok _ => pure (.ok ())

end PinLoader

open PinLoader

section Calls

variable {h : Host} {name : String} {i : BpfMap} {root : Path}

theorem Host.objGet_eq_ok_iff : h.objGet (eProxyPath ++ [name]) = .ok i ↔ h.Pinned name i := by
  rw [Host.objGet, Host.Pinned]
  cases hl : h.vfs.lookup (eProxyPath ++ [name]) with
  | error e => simp
  | ok n =>
    cases n with
    | dir => simp
    | file => simp
    | pin i' =>
      dsimp only
      split
      · next hm => simp [Host.magic, hm]
      · next hm => simp [Host.magic, hm]

theorem Host.objGet_eq_enoent_iff : h.objGet (eProxyPath ++ [name]) = .error .enoent ↔
    h.vfs.lookup (eProxyPath ++ [name]) = .error .enoent := by
  rw [Host.objGet]
  cases hl : h.vfs.lookup (eProxyPath ++ [name]) with
  | error e => simp
  | ok n =>
    cases n with
    | dir => simp
    | file => simp
    | pin i' =>
      dsimp only
      split <;> simp

theorem Host.linkCreate_eq_ok_iff : h.linkCreate root = .ok () ↔ h.OnCgroup2 root := by
  rw [Host.linkCreate, Host.OnCgroup2, Host.magic]
  cases hl : h.vfs.lookup root with
  | error e => simp
  | ok n =>
    cases n with
    | dir =>
      dsimp only
      split
      · next hm => simp [hm]
      · next hm => simp [hm]
    | file => simp
    | pin i => simp

end Calls

/-! ### One map -/

/-- What loading one map leaves behind, and what it returns. -/
structure LoadDone (fault : Faults) (h : Host) (m : MapSpec) (r : Except LoaderError BpfMap)
    (h' : Host) : Prop where
  adds : Adds (PinUnder (· = m.name)) h h'
  pinned : ∀ {i}, r = .ok i → m.pinByName → h'.Pinned m.name i
  /-- The map that was pinned is taken, and a map that was not is new. -/
  source : ∀ {i}, r = .ok i → m.pinByName → h.Pinned m.name i ∨ h.nextMap ≤ i.id
  calm : Calm fault → ((∃ i, r = .ok i) ↔ h.Loadable m)

section Load

variable {fault : Faults} {h h' : Host} {root : Path} {once : Bool}
  {E : Panic Fatal → Boot → Prop} {m : MapSpec} {i : BpfMap} {name : String}

theorem adds_of_objPin (hpin : h.objPin i (eProxyPath ++ [name]) = .ok ((), h')) :
    Adds (PinUnder (· = name)) h h' ∧ h'.Pinned name i ∧ h.PinDir := by
  rw [Host.objPin] at hpin
  split at hpin
  · exact absurd hpin (by simp)
  · next h₁ hc =>
    split at hpin
    · next hmagic =>
      obtain rfl := congrArg Prod.snd (Except.ok.inj hpin)
      have hadds : Adds (PinUnder (· = name)) h h₁ := by
        refine (adds_of_create hc).mono ?_
        rintro q n ⟨rfl, rfl⟩
        exact ⟨name, i, rfl, rfl, rfl⟩
      have hpinned : h₁.Pinned name i := ⟨lookup_of_create hc, (hadds.magic _).trans hmagic⟩
      exact ⟨hadds, hpinned, (Host.pinDir_congr hadds.view_pinDir).mp hpinned.pinDir⟩
    · exact absurd hpin (by simp)

/-- A map can be pinned where there is none. -/
theorem exists_objPin (hdir : h.PinDir)
    (hnew : h.vfs.lookup (eProxyPath ++ [name]) = .error .enoent) (i : BpfMap) :
    ∃ h', h.objPin i (eProxyPath ++ [name]) = .ok ((), h') := by
  have hparent : h.vfs.lookup (eProxyPath ++ [name]).dropLast = .ok .dir := by
    rw [eProxyPath_dropLast]
    exact hdir.1
  have hne : (h.vfs.locate (eProxyPath ++ [name])).2 ≠ [] := fun hnil =>
    absurd ((Vfs.lookup_of_locate_nil hnil).symm.trans hnew) (by simp)
  have howner := Vfs.owner_dropLast hne
  rw [eProxyPath_dropLast] at howner
  obtain ⟨h', hc⟩ := exists_create hparent hnew (.pin i)
  refine ⟨h', ?_⟩
  rw [Host.objPin, hc]
  exact if_pos ((congrArg FileSystem.magic howner.symm).trans hdir.2)

theorem adds_of_mapCreate {S : Path → Node BpfMap → Prop} {shape : MapShape}
    (hc : h.mapCreate shape = .ok (i, h')) :
    Adds S h h' ∧ h'.vfs = h.vfs ∧ i = ⟨h.nextMap, shape⟩ := by
  obtain ⟨rfl, rfl⟩ := Prod.ext_iff.mp (Except.ok.inj hc)
  exact ⟨{ Adds.refl h with nextMap := Nat.le_succ _ }, rfl, rfl⟩

/-- What pinning a map leaves behind, and what it returns. -/
structure PinDone (fault : Faults) (h : Host) (i : BpfMap) (name : String)
    (r : Except LoaderError BpfMap) (h' : Host) : Prop where
  adds : Adds (PinUnder (· = name)) h h'
  ok : ∀ {i'}, r = .ok i' → i' = i ∧ h'.Pinned name i
  calm : Calm fault → h.vfs.lookup (eProxyPath ++ [name]) = .error .enoent →
    ((∃ i', r = .ok i') ↔ h.PinDir)

/-- Nothing is pinned, for a reason. -/
theorem pinDone_error {e : LoaderError}
    (hcalm : Calm fault → h.vfs.lookup (eProxyPath ++ [name]) = .error .enoent → ¬ h.PinDir) :
    PinDone fault h i name (.error e) h where
  adds := .refl h
  ok hr := absurd hr (by simp)
  calm hc hnew := iff_of_false (by simp) (hcalm hc hnew)

theorem pinMap_spec : Triple (At h root once) (pinMap fault i name)
    (fun r b => ∃ h', At h' root once b ∧ PinDone fault h i name r h') E := by
  refine (ask_spec _).bind fun r => triple_and fun hr => ?_
  rcases hr with rfl | ⟨hcalm, code, rfl⟩
  · cases hl : h.vfs.lookup eProxyPath with
    | error e =>
      rw [Host.statfs, hl]
      refine triple_pure fun b hb => ⟨h, hb, pinDone_error fun _ _ hdir => ?_⟩
      exact absurd (hl.symm.trans hdir.1) (by simp)
    | ok n =>
      rw [Host.statfs, hl]
      by_cases hmagic : h.magic eProxyPath = bpfFsMagic
      · simp only [Except.map]
        rw [if_neg (fun hnot => hnot hmagic)]
        refine (syscall_spec _).bind fun r => ?_
        rintro b (⟨u, h', hpin, rfl, hb⟩ | ⟨e, rfl, he, hb⟩)
        · obtain ⟨hadds, hpinned, hdir⟩ := adds_of_objPin hpin
          exact ⟨h', hb, hadds, fun hr => ⟨(Except.ok.inj hr).symm, hpinned⟩,
            fun _ _ => iff_of_true ⟨i, rfl⟩ hdir⟩
        · refine ⟨h, hb, pinDone_error fun hc hnew hdir => ?_⟩
          obtain ⟨h', hpin⟩ := exists_objPin hdir hnew i
          rcases he with he | ⟨hnot, -⟩
          · exact absurd (he.symm.trans hpin) (by simp)
          · exact hnot hc
      · simp only [Except.map]
        have hother : (h.vfs.owner eProxyPath).magic ≠ bpfFsMagic := hmagic
        rw [if_pos hother]
        exact triple_pure fun b hb => ⟨h, hb, pinDone_error fun _ _ hdir => hmagic hdir.2⟩
  · exact triple_pure fun b hb => ⟨h, hb, pinDone_error fun hc => absurd hc hcalm⟩

/-- A map that is not pinned yet, or need not be, is created. -/
theorem createMap_spec
    (hnew : m.pinByName → h.vfs.lookup (eProxyPath ++ [m.name]) = .error .enoent) :
    Triple (At h root once) (createMap fault m)
      (fun r b => ∃ h', At h' root once b ∧ LoadDone fault h m r h') E := by
  refine (syscall_spec _).bind fun r => ?_
  rintro b (⟨i, h₁, hc, rfl, hb⟩ | ⟨e, rfl, he, hb⟩)
  · obtain ⟨hadds, hvfs, hi⟩ := adds_of_mapCreate hc
    by_cases hpin : m.pinByName
    · simp only [if_pos hpin]
      -- creating a map leaves the file systems alone
      have hdir : h₁.PinDir ↔ h.PinDir := by
        rw [Host.PinDir, Host.PinDir, Host.magic, Host.magic, hvfs]
      refine (pinMap_spec.post fun r b => ?_) b hb
      rintro ⟨h', hb, hdone⟩
      refine ⟨h', hb, hadds.trans hdone.adds, fun hr _ => ?_, fun hr _ => ?_, fun hc => ?_⟩
      · obtain ⟨rfl, hp⟩ := hdone.ok hr
        exact hp
      · obtain ⟨rfl, -⟩ := hdone.ok hr
        refine Or.inr ?_
        rw [hi]
      · have hmissing := hnew hpin
        rw [hdone.calm hc (by rw [hvfs]; exact hmissing), hdir]
        constructor
        · exact fun hd _ => Or.inr ⟨hmissing, hd⟩
        · intro hload
          rcases hload hpin with ⟨i', hp, -⟩ | ⟨-, hd⟩
          · exact absurd (hmissing.symm.trans hp.1) (by simp)
          · exact hd
    · simp only [if_neg hpin]
      refine ⟨h₁, hb, hadds, fun _ hp => absurd hp hpin, fun _ hp => absurd hp hpin, fun _ => ?_⟩
      exact iff_of_true ⟨i, rfl⟩ fun hp => absurd hp hpin
  · refine ⟨h, hb, .refl h, fun hr => absurd hr (by simp), fun hr => absurd hr (by simp), ?_⟩
    intro hc
    rcases he with he | ⟨hnot, -⟩
    · exact absurd he (by simp [Host.mapCreate])
    · exact absurd hc hnot

theorem loadMap_spec : Triple (At h root once) (loadMap fault m)
    (fun r b => ∃ h', At h' root once b ∧ LoadDone fault h m r h') E := by
  unfold loadMap
  by_cases hpin : m.pinByName
  · rw [if_pos hpin]
    refine (ask_spec _).bind fun r => triple_and fun hr => ?_
    have herror : ∀ {e}, (Calm fault → ¬ h.Loadable m) →
        LoadDone fault h m (.error e) h := fun hnot =>
      ⟨.refl h, fun hr => absurd hr (by simp), fun hr => absurd hr (by simp),
        fun hc => iff_of_false (by simp) (hnot hc)⟩
    rcases hr with rfl | ⟨hcalm, code, rfl⟩
    · cases hget : h.objGet (eProxyPath ++ [m.name]) with
      | error e =>
        -- a name that is missing is made up for, any other error is final
        by_cases hnoent : e = .enoent
        · subst hnoent
          exact createMap_spec fun _ => Host.objGet_eq_enoent_iff.mp hget
        · have hnot : ¬ h.Loadable m := by
            intro hload
            rcases hload hpin with ⟨i, hp, -⟩ | ⟨hmissing, -⟩
            · exact absurd (hget.symm.trans (Host.objGet_eq_ok_iff.mpr hp)) (by simp)
            · exact hnoent (Except.error.inj
                (hget.symm.trans (Host.objGet_eq_enoent_iff.mpr hmissing)))
          cases e
          case enoent => exact absurd rfl hnoent
          all_goals exact triple_pure fun b hb => ⟨h, hb, herror fun _ => hnot⟩
      | ok i =>
        have hp := Host.objGet_eq_ok_iff.mp hget
        by_cases hshape : i.shape = m.shape
        · simp only [if_pos hshape]
          refine triple_pure fun b hb =>
            ⟨h, hb, .refl h, fun hr _ => ?_, fun hr _ => ?_, fun _ => ?_⟩
          · exact Except.ok.inj hr ▸ hp
          · exact Or.inl (Except.ok.inj hr ▸ hp)
          · exact iff_of_true ⟨i, rfl⟩ fun _ => Or.inl ⟨i, hp, hshape⟩
        · simp only [if_neg hshape]
          refine triple_pure fun b hb => ⟨h, hb, herror fun _ hload => ?_⟩
          rcases hload hpin with ⟨i', hp', hs⟩ | ⟨hmissing, -⟩
          · exact hshape (hp.unique hp' ▸ hs)
          · exact absurd (hmissing.symm.trans hp.1) (by simp)
    · exact triple_pure fun b hb => ⟨h, hb, herror fun hc => absurd hc hcalm⟩
  · rw [if_neg hpin]
    exact createMap_spec fun hp => absurd hp hpin

end Load

/-! ### All maps of a collection -/

/-- What loading the maps leaves behind, and what it returns. -/
structure LoadsDone (fault : Faults) (h : Host) (ms : List MapSpec)
    (r : Except LoaderError (List (String × BpfMap))) (h' : Host) : Prop where
  adds : Adds (PinUnder (Names ms)) h h'
  keys : ∀ {loaded}, r = .ok loaded → loaded.map Prod.fst = ms.map MapSpec.name
  pinned : ∀ {loaded m i}, r = .ok loaded → m ∈ ms → m.pinByName → (m.name, i) ∈ loaded →
    h'.Pinned m.name i
  source : ∀ {loaded m i}, r = .ok loaded → m ∈ ms → m.pinByName → (m.name, i) ∈ loaded →
    h.Pinned m.name i ∨ h.nextMap ≤ i.id
  calm : Calm fault → ((∃ loaded, r = .ok loaded) ↔ ∀ m ∈ ms, h.Loadable m)

section Loads

variable {fault : Faults} {h h' h₁ : Host} {root : Path} {once : Bool}
  {E : Panic Fatal → Boot → Prop} {m : MapSpec} {ms : List MapSpec} {i : BpfMap} {name : String}

theorem loadsDone_nil : LoadsDone fault h [] (.ok []) h where
  adds := .refl h
  keys hr := by rw [← Except.ok.inj hr]; rfl
  pinned _ hm := absurd hm List.not_mem_nil
  source _ hm := absurd hm List.not_mem_nil
  calm _ := iff_of_true ⟨[], rfl⟩ fun _ hm => absurd hm List.not_mem_nil

theorem names_cons {ms : List MapSpec} : ∀ q n, PinUnder (Names ms) q n →
    PinUnder (Names (m :: ms)) q n := by
  rintro q n ⟨name, i, ⟨m', hm', hname⟩, hq, hn⟩
  exact ⟨name, i, ⟨m', List.mem_cons_of_mem _ hm', hname⟩, hq, hn⟩

theorem names_head : ∀ q n, PinUnder (· = m.name) q n → PinUnder (Names (m :: ms)) q n := by
  rintro q n ⟨name, i, rfl, hq, hn⟩
  exact ⟨m.name, i, ⟨m, List.mem_cons_self .., rfl⟩, hq, hn⟩

/-- The first error ends the loop. -/
theorem LoadDone.stop {e : LoaderError}
    (hdone : LoadDone fault h m (.error e) h') : LoadsDone fault h (m :: ms) (.error e) h' where
  adds := hdone.adds.mono names_head
  keys hr := absurd hr (by simp)
  pinned hr := absurd hr (by simp)
  source hr := absurd hr (by simp)
  calm hc := by
    refine iff_of_false (by simp) fun hall => ?_
    have hload := (hdone.calm hc).mpr (hall m (List.mem_cons_self ..))
    exact absurd hload (by simp)

/-- An entry of the loaded maps is the one of the first map, or of another one. -/
theorem entry_cases {rest : List (String × BpfMap)} {m' : MapSpec} {i' : BpfMap}
    (hkeys : rest.map Prod.fst = ms.map MapSpec.name) (hname : m.name ∉ ms.map MapSpec.name)
    (hm' : m' ∈ m :: ms) (hmem : (m'.name, i') ∈ (m.name, i) :: rest) :
    m' = m ∧ i' = i ∨ m' ∈ ms ∧ m'.name ≠ m.name ∧ (m'.name, i') ∈ rest := by
  have hother : m' ∈ ms → m'.name ≠ m.name := fun hm' heq =>
    hname (heq ▸ List.mem_map_of_mem hm')
  have hrest : (m'.name, i') ∈ rest → m' ≠ m := by
    rintro hin rfl
    have hkey : m'.name ∈ rest.map Prod.fst := List.mem_map.mpr ⟨_, hin, rfl⟩
    exact hname (hkeys ▸ hkey)
  rcases List.mem_cons.mp hm' with rfl | hm'
  · rcases List.mem_cons.mp hmem with heq | hmem
    · exact Or.inl ⟨rfl, (Prod.ext_iff.mp heq).2⟩
    · exact absurd rfl (hrest hmem)
  · rcases List.mem_cons.mp hmem with heq | hmem
    · exact absurd (Prod.ext_iff.mp heq).1 (hother hm')
    · exact Or.inr ⟨hm', hother hm', hmem⟩

/-- One map and the rest of them. -/
theorem LoadDone.cons {r : Except LoaderError (List (String × BpfMap))}
    (hdone : LoadDone fault h m (.ok i) h₁) (hrest : LoadsDone fault h₁ ms r h')
    (hname : m.name ∉ ms.map MapSpec.name) :
    LoadsDone fault h (m :: ms) (r.map ((m.name, i) :: ·)) h' := by
  -- the first map does not matter to the others
  have hview : ∀ {name}, name ≠ m.name →
      h₁.vfs.view (eProxyPath ++ [name]) = h.vfs.view (eProxyPath ++ [name]) :=
    fun hne => hdone.adds.view_pin hne
  have hok : ∀ {loaded}, r.map ((m.name, i) :: ·) = .ok loaded →
      ∃ rest, r = .ok rest ∧ loaded = (m.name, i) :: rest := by
    intro loaded hr
    cases r with
    | error e => exact absurd hr (by simp [Except.map])
    | ok rest => exact ⟨rest, rfl, (Except.ok.inj hr).symm⟩
  constructor
  · exact (hdone.adds.mono names_head).trans (hrest.adds.mono names_cons)
  · intro loaded hr
    obtain ⟨rest, hr', rfl⟩ := hok hr
    rw [List.map_cons, List.map_cons, hrest.keys hr']
  · intro loaded m' i' hr hm' hpin hmem
    obtain ⟨rest, hr', rfl⟩ := hok hr
    rcases entry_cases (hrest.keys hr') hname hm' hmem with ⟨rfl, rfl⟩ | ⟨hm', -, hmem⟩
    · exact hrest.adds.pinned (hdone.pinned rfl hpin)
    · exact hrest.pinned hr' hm' hpin hmem
  · intro loaded m' i' hr hm' hpin hmem
    obtain ⟨rest, hr', rfl⟩ := hok hr
    rcases entry_cases (hrest.keys hr') hname hm' hmem with ⟨rfl, rfl⟩ | ⟨hm', hne, hmem⟩
    · exact hdone.source rfl hpin
    · exact (hrest.source hr' hm' hpin hmem).imp (Host.pinned_congr (hview hne)).mp
        hdone.adds.nextMap.trans
  · intro hc
    have hhead : h.Loadable m := (hdone.calm hc).mp ⟨i, rfl⟩
    have hloads : (∀ m' ∈ ms, h₁.Loadable m') ↔ ∀ m' ∈ ms, h.Loadable m' := by
      refine forall₂_congr fun m' hm' => Host.loadable_congr (hview ?_) hdone.adds.view_pinDir
      intro heq
      exact hname (heq ▸ List.mem_map_of_mem hm')
    have hex : (∃ loaded, r.map ((m.name, i) :: ·) = .ok loaded) ↔ ∃ rest, r = .ok rest := by
      cases r <;> simp [Except.map]
    rw [hex, hrest.calm hc, hloads, List.forall_mem_cons]
    exact (and_iff_right hhead).symm

theorem loadMaps_spec (hnodup : (ms.map MapSpec.name).Nodup) :
    Triple (At h root once) (loadMaps fault ms)
      (fun r b => ∃ h', At h' root once b ∧ LoadsDone fault h ms r h') E := by
  induction ms generalizing h with
  | nil => exact triple_pure fun b hb => ⟨h, hb, loadsDone_nil⟩
  | cons m ms ih =>
    rw [List.map_cons, List.nodup_cons] at hnodup
    refine loadMap_spec.bind fun r => triple_exists fun h₁ => triple_and fun hdone => ?_
    cases r with
    | error e => exact triple_pure fun b hb => ⟨h₁, hb, hdone.stop⟩
    | ok i =>
      refine (ih hnodup.2).bind fun r => triple_exists fun h' => triple_and fun hrest => ?_
      have hcons := hdone.cons hrest hnodup.1
      cases r with
      | error e => exact triple_pure fun b hb => ⟨h', hb, hcons⟩
      | ok loaded => exact triple_pure fun b hb => ⟨h', hb, hcons⟩

end Loads

/-! ### The laws -/

section Laws

variable {fault : Faults} {h h' : Host} {root path : Path} {once : Bool}
  {E : Panic Fatal → Boot → Prop} {coll : Collection} {program : String} {spec : CollectionSpec}

theorem exists_entry {loaded : List (String × BpfMap)} {name : String}
    (hname : name ∈ loaded.map Prod.fst) :
    ∃ i, loaded.lookup name = some i ∧ (name, i) ∈ loaded := by
  induction loaded with
  | nil => exact absurd hname List.not_mem_nil
  | cons entry rest ih =>
    obtain ⟨k, v⟩ := entry
    rw [List.lookup_cons]
    by_cases hk : name = k
    · subst hk
      exact ⟨v, by simp, List.mem_cons_self⟩
    · have hrest : name ∈ rest.map Prod.fst := (List.mem_cons.mp hname).resolve_left hk
      obtain ⟨i, hi, hmem⟩ := ih hrest
      refine ⟨i, ?_, List.mem_cons_of_mem _ hmem⟩
      rw [beq_false_of_ne hk]
      exact hi

/-- The entry of a map. -/
theorem LoadsDone.entry {order : IterOrder MapSpec} {loaded : List (String × BpfMap)}
    {m : MapSpec} (hdone : LoadsDone fault h (order.visit spec.maps) (.ok loaded) h')
    (hm : m ∈ spec.maps) :
    m ∈ order.visit spec.maps ∧ ∃ i, loaded.lookup m.name = some i ∧ (m.name, i) ∈ loaded := by
  have hvisited : m ∈ order.visit spec.maps := (order.perm _).mem_iff.mpr hm
  refine ⟨hvisited, exists_entry ?_⟩
  rw [hdone.keys rfl]
  exact List.mem_map_of_mem hvisited

theorem names_visit (order : IterOrder MapSpec) (ms : List MapSpec) (q : Path)
    (n : Node BpfMap) (hpin : PinUnder (Names (order.visit ms)) q n) : PinUnder (Names ms) q n := by
  obtain ⟨name, i, ⟨m, hm, hname⟩, hq, hn⟩ := hpin
  exact ⟨name, i, ⟨m, (order.perm _).mem_iff.mp hm, hname⟩, hq, hn⟩

/-- All maps of the collection are there. -/
theorem LoadsDone.loaded {order : IterOrder MapSpec} {loaded : List (String × BpfMap)}
    (hdone : LoadsDone fault h (order.visit spec.maps) (.ok loaded) h') :
    CollectionLoaded fault h spec (.ok ⟨fun name => loaded.lookup name, spec.programs⟩) h' := by
  -- the map of a name is the one of its entry
  have hentry : ∀ {coll : Collection} {m : MapSpec} {i : BpfMap},
      (Except.ok ⟨fun name => loaded.lookup name, spec.programs⟩ : Except LoaderError Collection) =
        .ok coll → m ∈ spec.maps → coll.maps m.name = some i →
      m ∈ order.visit spec.maps ∧ (m.name, i) ∈ loaded := by
    intro coll m i hr hm hi
    obtain ⟨hvisited, i', hi', hmem⟩ := hdone.entry hm
    obtain rfl := Except.ok.inj hr
    obtain rfl := Option.some.inj (hi'.symm.trans hi)
    exact ⟨hvisited, hmem⟩
  constructor
  · exact hdone.adds.mono (names_visit order spec.maps)
  · intro coll hr
    rw [← Except.ok.inj hr]
  · intro coll m hr hm
    obtain ⟨-, i, hi, -⟩ := hdone.entry hm
    rw [← Except.ok.inj hr]
    exact Option.isSome_iff_exists.mpr ⟨i, hi⟩
  · intro coll m i hr hm hpin hi
    obtain ⟨hvisited, hmem⟩ := hentry hr hm hi
    exact hdone.pinned rfl hvisited hpin hmem
  · intro coll m i hr hm hpin hi
    obtain ⟨hvisited, hmem⟩ := hentry hr hm hi
    exact hdone.source rfl hvisited hpin hmem
  · intro hc
    have hall := (hdone.calm hc).mp ⟨loaded, rfl⟩
    exact iff_of_true ⟨_, rfl⟩ fun m hm => hall m ((order.perm _).mem_iff.mpr hm)

/-- The collection is not loaded. -/
theorem LoadsDone.failed {order : IterOrder MapSpec} {e : LoaderError}
    {r : Except LoaderError (List (String × BpfMap))}
    (hdone : LoadsDone fault h (order.visit spec.maps) r h')
    (hr : Calm fault → ¬ ∃ loaded, r = .ok loaded) :
    CollectionLoaded fault h spec (.error e) h' where
  adds := hdone.adds.mono (names_visit order spec.maps)
  programs hr := absurd hr (by simp)
  found hr := absurd hr (by simp)
  pinned hr := absurd hr (by simp)
  source hr := absurd hr (by simp)
  calm hc := by
    refine iff_of_false (by simp) fun hall => hr hc ((hdone.calm hc).mpr fun m hm => ?_)
    exact hall m ((order.perm _).mem_iff.mp hm)

theorem loadPrograms_spec (names : List String) :
    Triple (At h root once) (loadPrograms fault names)
      (fun r b => At h root once b ∧ (Calm fault → r = .ok ())) E := by
  induction names with
  | nil => exact triple_pure fun b hb => ⟨hb, fun _ => rfl⟩
  | cons name names ih =>
    refine (ask_spec _).bind fun r => triple_and fun hr => ?_
    rcases hr with rfl | ⟨hcalm, code, rfl⟩
    · exact ih
    · exact triple_pure fun b hb => ⟨hb, fun hc => absurd hc hcalm⟩

theorem newCollection_spec (l : PinLoader) : Triple (At h root once) (newCollection fault l spec)
    (fun r b => ∃ h', At h' root once b ∧ CollectionLoaded fault h spec r h') E := by
  have hnodup : ((l.order.visit spec.maps).map MapSpec.name).Nodup :=
    ((l.order.perm spec.maps).map _).nodup_iff.mpr spec.nodup
  refine (loadMaps_spec hnodup).bind fun r => triple_exists fun h' => triple_and fun hdone => ?_
  cases r with
  | error e => exact triple_pure fun b hb => ⟨h', hb, hdone.failed fun _ => by simp⟩
  | ok loaded =>
    refine (loadPrograms_spec _).bind fun r => triple_and fun hr => ?_
    cases r with
    | error e =>
      exact triple_pure fun b hb => ⟨h', hb, hdone.failed fun hc => absurd (hr hc) (by simp)⟩
    | ok u => exact triple_pure fun b hb => ⟨h', hb, hdone.loaded⟩

theorem attach_spec : Triple (At h root once) (attach fault coll program path)
    (fun r b => At h root once b ∧
      (Calm fault → program ∈ coll.programs → (r = .ok () ↔ h.OnCgroup2 path)))
    (fun _ b => At h root once b ∧ program ∉ coll.programs) := by
  refine (ask_spec _).bind fun r => triple_and fun hr => ?_
  rcases hr with rfl | ⟨hcalm, code, rfl⟩
  · cases hst : h.stat path with
    | error e =>
      refine triple_pure fun b hb => ⟨hb, fun _ _ => iff_of_false (by simp) fun hon => ?_⟩
      rw [Host.stat, hon.1] at hst
      exact absurd hst (by simp [Except.map])
    | ok st =>
      by_cases hprog : program ∈ coll.programs
      · simp only [if_pos hprog]
        refine (ask_spec _).bind fun r => triple_and fun hr => ?_
        rcases hr with rfl | ⟨hnot, code, rfl⟩
        · rw [← Host.linkCreate_eq_ok_iff]
          cases hlink : h.linkCreate path with
          | error e => exact triple_pure fun b hb => ⟨hb, fun _ _ => by simp⟩
          | ok u => exact triple_pure fun b hb => ⟨hb, fun _ _ => iff_of_true rfl rfl⟩
        · exact triple_pure fun b hb => ⟨hb, fun hc => absurd hc hnot⟩
      · simp only [if_neg hprog]
        exact triple_panic fun b hb => ⟨hb, hprog⟩
  · exact triple_pure fun b hb => ⟨hb, fun hc => absurd hc hcalm⟩

theorem unlock_spec : Triple (At h root once) (unlock fault)
    (fun r b => At h root once b ∧ (Calm fault → r = .ok ())) E := by
  refine (ask_spec _).bind fun r => triple_and fun hr => ?_
  rcases hr with rfl | ⟨hcalm, code, rfl⟩
  · exact triple_pure fun b hb => ⟨hb, fun _ => rfl⟩
  · exact triple_pure fun b hb => ⟨hb, fun hc => absurd hc hcalm⟩

end Laws

instance : Loader PinLoader where
  removeMemlock _ := unlock
  loadCollectionSpec := PinLoader.files
  newCollectionWithOptions l fault := newCollection fault l
  attachCgroup _ := attach
  removeMemlock_spec _ _ := unlock_spec
  newCollectionWithOptions_spec l _ _ := newCollection_spec l
  attachCgroup_spec _ _ _ _ _ := attach_spec

end EProxy
