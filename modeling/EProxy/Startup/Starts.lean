import EProxy.Framework.System
import EProxy.Startup.LoadAndAttach
import EProxy.Startup.PinLoader

/-!
# One start after the other

A process that starts mounts the cgroup file system and the BPF file system if it has to, and
has the loader take or create the two maps and attach the program. The maps outlive it by being
pinned, so what the next process finds depends on the mounts it finds. `hostSystem` is a host on
which one process after the other is started, with any failures of system calls on the way. The
loader is any that has the laws of `Loader`.

* `loadAndAttach_succeeds_iff` says exactly on which hosts a start succeeds when no system call
  fails, and on which ones it ends the process;
* `starts_share_maps`: all starts that succeed work on the same two maps;
* `starts_stuck`: once the BPF file system is mounted and the directory for the pins is missing,
  no start ever succeeds. `mountFS` is the only one to make the directory, and it does not ask
  whether it could.
-/

namespace EProxy

open Framework Framework.Go

variable {L : Type} [Loader L]

/-! ### `LoadAndAttach` -/

/-- How a start ends, and the host it leaves. -/
inductive Started (env : BootEnv L) (file : String) (h : Host) :
    Outcome Fatal (Except LoadError BPFManager) → Host → Prop
  | memlock {e : LoadError} : ¬ Calm env.fault → Started env file h (.ret (.error e)) h
  | foreign {h₁ : Host} : CgroupStage env.fault h defaultCgroupRoot h₁ → h₁.Foreign →
      Started env file h (.panic (.logged (.differentFilesystem bpffsRootFallback))) h₁
  | noSpec {e : LoaderError} {err : LoadError} {h₁ h₂ : Host} : env.elf file = .error e →
      CgroupStage env.fault h defaultCgroupRoot h₁ → BpffsStage env.fault h₁ h₂ →
      Started env file h (.ret (.error err)) h₂
  | loaded {spec : CollectionSpec} {h₁ h₂ h₃ : Host}
      {r : Except LoaderError Collection}
      {o : Outcome Fatal (Except LoadError BPFManager)} : env.elf file = .ok spec →
      CgroupStage env.fault h defaultCgroupRoot h₁ → BpffsStage env.fault h₁ h₂ →
      CollectionLoaded env.fault h₂ spec r h₃ →
      (∀ bm, o = .ret (.ok bm) → ∃ coll, r = .ok coll ∧ bm = handles coll) →
      (∀ p, o = .panic p → "connect4" ∉ spec.programs) →
      (Calm env.fault → "connect4" ∈ spec.programs → ((∃ bm, o = .ret (.ok bm)) ↔
        (∃ coll, r = .ok coll) ∧ h₃.OnCgroup2 defaultCgroupRoot)) →
      Started env file h o h₃

section Specs

variable {env : BootEnv L} {h : Host}

theorem loadAndAttach_spec {file : String} :
    Triple (At h defaultCgroupRoot false) (loadAndAttach env file)
      (fun r b => Started env file h (.ret r) b.host)
      (fun p b => Started env file h (.panic p) b.host) := by
  refine ((Loader.removeMemlock_spec env.loader env.fault).conseq (fun _ h => h)
    (fun _ _ h => h) fun _ _ hno => hno.elim).bind fun r => triple_and fun hr => ?_
  cases r with
  | error e =>
    refine triple_pure fun b hb => ?_
    rw [hb.host]
    -- the call cannot fail on a calm host
    exact .memlock fun hc => absurd (hr hc) (by simp)
  | ok u =>
    refine checkOrMountCgrpFS_spec.bind fun _ => triple_exists fun h₁ =>
      triple_and fun hcgroup => ?_
    refine Triple.bind (Q := fun _ b => ∃ h₂, At h₂ defaultCgroupRoot true b ∧
      BpffsStage env.fault h₁ h₂) ?_ fun _ => triple_exists fun h₂ => triple_and fun hbpffs => ?_
    -- the mounts panic in one case only, on a mount of another file system
    · refine checkOrMountBtfFS_spec.conseq (fun _ h => h) (fun _ _ h => h) ?_
      rintro p b ⟨hb, hforeign, rfl⟩
      rw [hb.host]
      exact .foreign hcgroup hforeign
    · cases helf : env.elf file with
      | error e =>
        refine triple_pure fun b hb => ?_
        rw [hb.host]
        exact .noSpec helf hcgroup hbpffs
      | ok spec =>
        refine ((Loader.newCollectionWithOptions_spec env.loader env.fault spec).conseq
          (fun _ h => h) (fun _ _ h => h) fun _ _ hno => hno.elim).bind fun r =>
            triple_exists fun h₃ => triple_and fun hloaded => ?_
        cases r with
        | error e =>
          refine triple_pure fun b hb => ?_
          rw [hb.host]
          exact .loaded helf hcgroup hbpffs hloaded (fun _ ho => absurd ho (by simp))
            (fun _ ho => absurd ho (by simp)) fun _ _ => by simp
        | ok coll =>
          have hprograms : coll.programs = spec.programs := hloaded.programs rfl
          refine (triple_get (Q := fun b b' => At h₃ defaultCgroupRoot true b' ∧
            b.cgroupRoot = defaultCgroupRoot) fun b hb => ⟨hb, hb.cgroupRoot⟩).bind fun b => ?_
          refine triple_and fun hroot => ?_
          rw [hroot]
          refine Triple.bind ((Loader.attachCgroup_spec env.loader env.fault coll "connect4"
            defaultCgroupRoot).conseq (fun _ h => h) (fun _ _ h => h) ?_)
            fun r => triple_and fun hattach => ?_
          · rintro p b ⟨hb, hprog⟩
            -- a program that the object file lacks is a nil pointer
            rw [hprograms] at hprog
            rw [hb.host]
            exact .loaded helf hcgroup hbpffs hloaded (fun _ ho => absurd ho (by simp))
              (fun _ _ => hprog) fun _ hin => absurd hin hprog
          · rw [hprograms] at hattach
            cases r with
            | error e =>
              refine triple_pure fun b hb => ?_
              rw [hb.host]
              refine .loaded helf hcgroup hbpffs hloaded (fun _ ho => absurd ho (by simp))
                (fun _ ho => absurd ho (by simp)) fun hc hprog => ?_
              refine iff_of_false (by simp) fun hon => ?_
              exact absurd ((hattach hc hprog).mpr hon.2) (by simp)
            | ok u =>
              refine triple_pure fun b hb => ?_
              rw [hb.host]
              refine .loaded helf hcgroup hbpffs hloaded (fun bm ho => ?_)
                (fun _ ho => absurd ho (by simp)) fun hc hprog => ?_
              · exact ⟨coll, rfl, (Except.ok.inj (Outcome.ret.inj ho)).symm⟩
              · exact iff_of_true ⟨_, rfl⟩ ⟨⟨coll, rfl⟩, (hattach hc hprog).mp rfl⟩

theorem started (env : BootEnv L) (file : String) (h : Host) :
    Started env file h (h.start env file).1 (h.start env file).2 := by
  have hat : At h defaultCgroupRoot false (Boot.new h) := ⟨rfl, rfl, rfl⟩
  have hspec : Post (fun r b => Started env file h (.ret r) b.host)
      (fun p b => Started env file h (.panic p) b.host)
      ((loadAndAttach env file).run (.new h)) := loadAndAttach_spec _ hat
  rw [Host.start]
  rcases hrun : (loadAndAttach env file).run (.new h) with ⟨r | p, b⟩
  · rw [hrun] at hspec
    exact hspec
  · rw [hrun] at hspec
    exact hspec

end Specs

/-! ### The two mounts do not touch each other -/

/-- Nothing changes below a directory of the root. -/
def SameUnder (top : String) (h h' : Host) : Prop :=
  ∀ rest, h'.vfs.view (top :: rest) = h.vfs.view (top :: rest)

section Frames

variable {fault : Faults} {h h' h'' : Host} {top : String}

theorem SameUnder.trans (h₁ : SameUnder top h h') (h₂ : SameUnder top h' h'') :
    SameUnder top h h'' := fun rest => (h₂ rest).trans (h₁ rest)

theorem not_prefix_of_head {top' : String} (hne : top' ≠ top) (rest rest' : Path) :
    ¬ top' :: rest' <+: top :: rest := fun hpre => hne (List.cons_prefix_cons.mp hpre).1

/-- What is added below one directory does not matter below another one. -/
theorem Adds.sameUnder {S : Path → Node BpfMap → Prop} {top' : String} (hadds : Adds S h h')
    (hne : top' ≠ top) (hS : ∀ q n, S q n → ∃ rest, q = top' :: rest) : SameUnder top h h' := by
  intro rest
  refine hadds.off fun r n hr => ?_
  obtain ⟨rest', rfl⟩ := hS r n hr
  exact not_prefix_of_head hne rest rest'

theorem dirs_cons {top' : String} {rest : Path} :
    ∀ q n, Dirs (top' :: rest) q n → ∃ rest', q = top' :: rest' := by
  rintro q n ⟨hpre, hne, -⟩
  cases q with
  | nil => exact absurd rfl hne
  | cons name rest' =>
    obtain ⟨rfl, -⟩ := List.cons_prefix_cons.mp hpre
    exact ⟨rest', rfl⟩

theorem CgroupStage.sameUnder (hstage : CgroupStage fault h defaultCgroupRoot h') :
    SameUnder "sys" h h' := by
  obtain ⟨h₁, hadds, hend⟩ := hstage.effect
  have hmade : SameUnder "sys" h h₁ := hadds.sameUnder (by decide) dirs_cons
  rcases hend with rfl | hmount
  · exact hmade
  · exact hmade.trans fun rest =>
      (Host.mount_eq_ok hmount).off (not_prefix_of_head (by decide) rest _)

theorem BpffsStage.sameUnder (hstage : BpffsStage fault h h') : SameUnder "run" h h' := by
  cases hstage with
  | skipped _ => exact fun _ => rfl
  | failed _ hadds _ => exact hadds.sameUnder (by decide) dirs_cons
  | mounted _ hadds hmount hadds' _ =>
    have hmade : SameUnder "run" h _ := hadds.sameUnder (by decide) dirs_cons
    have hmounted : SameUnder "run" _ _ := fun rest =>
      hmount.off (not_prefix_of_head (by decide) rest _)
    exact (hmade.trans hmounted).trans (hadds'.sameUnder (by decide) dirs_cons)

theorem CollectionLoaded.sameUnder {spec : CollectionSpec} {r : Except LoaderError Collection}
    (hloaded : CollectionLoaded fault h spec r h') : SameUnder "run" h h' := by
  refine hloaded.adds.sameUnder (show "sys" ≠ "run" by decide) ?_
  rintro q n ⟨name, i, -, rfl, -⟩
  exact ⟨_, rfl⟩

theorem Host.stat_congr {p : Path} (hview : h'.vfs.view p = h.vfs.view p) :
    h'.stat p = h.stat p := by
  have hlookup : h'.vfs.lookup p = h.vfs.lookup p := congrArg Prod.fst hview
  have hdev : (h'.vfs.owner p).dev = (h.vfs.owner p).dev := congrArg (fun x => x.2.1) hview
  rw [Host.stat, Host.stat, hlookup, hdev]

theorem Host.magic_congr {p : Path} (hview : h'.vfs.view p = h.vfs.view p) :
    h'.magic p = h.magic p := congrArg (fun x => x.2.2.1) hview

theorem SameUnder.isMountPoint (hs : SameUnder "sys" h h') :
    h'.IsMountPoint bpffsRoot ↔ h.IsMountPoint bpffsRoot := by
  have hroot : h'.stat bpffsRoot = h.stat bpffsRoot := Host.stat_congr (hs _)
  have hparent : h'.stat bpffsRoot.dropLast = h.stat bpffsRoot.dropLast := Host.stat_congr (hs _)
  rw [Host.IsMountPoint, Host.IsMountPoint, hroot, hparent]

theorem SameUnder.unmounted (hs : SameUnder "sys" h h') :
    h'.Unmounted bpffsRoot ↔ h.Unmounted bpffsRoot := by
  have hroot : h'.stat bpffsRoot = h.stat bpffsRoot := Host.stat_congr (hs _)
  have hparent : h'.stat bpffsRoot.dropLast = h.stat bpffsRoot.dropLast := Host.stat_congr (hs _)
  rw [Host.Unmounted, Host.Unmounted, hroot, hparent]

theorem SameUnder.foreign (hs : SameUnder "sys" h h') : h'.Foreign ↔ h.Foreign := by
  have hmagic : h'.magic bpffsRoot = h.magic bpffsRoot := Host.magic_congr (hs _)
  rw [Host.Foreign, Host.Foreign, hs.isMountPoint, hmagic]

theorem SameUnder.canMake (hs : SameUnder "sys" h h') :
    h'.CanMake bpffsRoot.reverse ↔ h.CanMake bpffsRoot.reverse := by
  have hlookup : ∀ rest, h'.vfs.lookup ("sys" :: rest) = h.vfs.lookup ("sys" :: rest) :=
    fun rest => congrArg Prod.fst (hs rest)
  have hwritable : ∀ rest, (h'.vfs.owner ("sys" :: rest)).writable =
      (h.vfs.owner ("sys" :: rest)).writable := fun rest =>
    congrArg (fun x => x.2.2.2) (hs rest)
  simp only [bpffsRoot, List.reverse_cons, List.reverse_nil, List.nil_append, List.cons_append,
    Host.CanMake, hlookup, hwritable]

theorem SameUnder.loadable (hs : SameUnder "sys" h h') (m : MapSpec) :
    h'.Loadable m ↔ h.Loadable m := Host.loadable_congr (hs _) (hs _)

theorem SameUnder.pinned (hs : SameUnder "sys" h h') {name : String} {i : BpfMap} :
    h'.Pinned name i ↔ h.Pinned name i := Host.pinned_congr (hs _)

theorem SameUnder.onCgroup2 (hs : SameUnder "run" h h') :
    h'.OnCgroup2 defaultCgroupRoot ↔ h.OnCgroup2 defaultCgroupRoot := by
  have hlookup : h'.vfs.lookup defaultCgroupRoot = h.vfs.lookup defaultCgroupRoot :=
    congrArg Prod.fst (hs ["eproxy", "cgroupv2"])
  have hmagic : h'.magic defaultCgroupRoot = h.magic defaultCgroupRoot :=
    Host.magic_congr (hs _)
  rw [Host.OnCgroup2, Host.OnCgroup2, hlookup, hmagic]

end Frames

/-! ### Where a start succeeds -/

/-- The BPF file system is mounted at its place, or nowhere around. -/
def Host.Tidy (h : Host) : Prop :=
  h.magic eProxyPath = bpfFsMagic → h.IsMountPoint bpffsRoot

/-- The BPF file system is mounted and the maps of the object file can be loaded, or it can be
mounted. -/
def Host.BpffsReady (h : Host) (spec : CollectionSpec) : Prop :=
  h.IsMountPoint bpffsRoot ∧ h.magic bpffsRoot = bpfFsMagic ∧ (∀ m ∈ spec.maps, h.Loadable m) ∨
    h.Unmounted bpffsRoot ∧ h.CanMake bpffsRoot.reverse

section Outcome

variable {fault : Faults} {env : BootEnv L} {file : String} {h h₁ h₂ h' : Host}
  {spec : CollectionSpec}

theorem SameUnder.tidy (hs : SameUnder "sys" h h') : h'.Tidy ↔ h.Tidy := by
  have hmagic : h'.magic eProxyPath = h.magic eProxyPath := Host.magic_congr (hs _)
  rw [Host.Tidy, Host.Tidy, hmagic, hs.isMountPoint]

theorem SameUnder.bpffsReady (hs : SameUnder "sys" h h') :
    h'.BpffsReady spec ↔ h.BpffsReady spec := by
  have hmagic : h'.magic bpffsRoot = h.magic bpffsRoot := Host.magic_congr (hs _)
  rw [Host.BpffsReady, Host.BpffsReady, hs.isMountPoint, hmagic, hs.unmounted, hs.canMake]
  simp only [hs.loadable]

/-- A map that is pinned by name needs a directory on the BPF file system. -/
theorem Host.Loadable.pinDir {m : MapSpec} (hload : h.Loadable m) (hpin : m.pinByName) :
    h.PinDir := by
  rcases hload hpin with ⟨i, hp, -⟩ | ⟨-, hdir⟩
  · exact hp.pinDir
  · exact hdir

/-- In a new file system nothing is pinned. -/
theorem missing_of_mounted {dev : ℕ} (hmount : Mounted bpffsRoot (.empty dev bpfFsMagic) h₁ h₂)
    (hadds : Adds (Dirs eProxyPath) h₂ h') (name : String) (n : Node BpfMap) :
    h'.vfs.lookup (eProxyPath ++ [name]) ≠ .ok n := by
  intro hok
  rcases hadds.only hok with hok | ⟨hpre, -⟩
  · have hmissing : h₂.vfs.lookup (eProxyPath ++ [name]) = _ :=
      congrArg Prod.fst (hmount.below ["eproxy", name])
    rw [hmissing, FileSystem.lookup_eq_ok_iff] at hok
    exact absurd hok (by simp [FileSystem.empty])
  · exact not_prefix_eProxyPath hpre

/-- In a new file system every map can be loaded. -/
theorem loadable_of_mounted {dev : ℕ} {m : MapSpec}
    (hmount : Mounted bpffsRoot (.empty dev bpfFsMagic) h₁ h₂)
    (hadds : Adds (Dirs eProxyPath) h₂ h')
    (hdir : h'.vfs.lookup eProxyPath = .ok .dir) : h'.Loadable m := by
  intro _
  have hmagic : h'.magic eProxyPath = bpfFsMagic :=
    (hadds.magic _).trans (congrArg (fun x => x.2.2.1) (hmount.below ["eproxy"]))
  refine Or.inr ⟨?_, hdir, hmagic⟩
  cases hl : h'.vfs.lookup (eProxyPath ++ [m.name]) with
  | ok n => exact absurd hl (missing_of_mounted hmount hadds _ n)
  | error e =>
    rcases FileSystem.lookup_error_cases hl with rfl | rfl
    · rfl
    · -- nothing but directories is on the way
      have hway := Vfs.lookup_dropLast_of_enotdir hl
      rw [eProxyPath_dropLast, hdir] at hway
      rcases hway with ⟨n, hn, hok⟩ | herr
      · exact absurd (Except.ok.inj hok).symm hn
      · exact absurd herr (by simp)

theorem BpffsStage.loadable_iff (hstage : BpffsStage fault h h') (hc : Calm fault)
    (htidy : h.Tidy) (hpinned : ∃ m ∈ spec.maps, m.pinByName) :
    (∀ m ∈ spec.maps, h'.Loadable m) ↔ h.BpffsReady spec := by
  obtain ⟨m₀, hm₀, hpin₀⟩ := hpinned
  cases hstage with
  | skipped hskip =>
    -- there is a mount, and another file system would have ended the process
    obtain ⟨hnot, hforeign⟩ := hskip hc
    constructor
    · intro hall
      have hmount := htidy ((hall m₀ hm₀).pinDir hpin₀).2
      refine Or.inl ⟨hmount, ?_, hall⟩
      by_contra hmagic
      exact hforeign ⟨hmount, hmagic⟩
    · rintro (⟨-, -, hall⟩ | ⟨hu, -⟩)
      · exact hall
      · exact absurd hu hnot
  | failed hu hadds hcannot =>
    have hnot := h.not_mountPoint_of_unmounted hu
    -- no directory to mount at, so the pins are on no BPF file system either
    refine iff_of_false (fun hall => ?_) ?_
    · have hmagic := ((hall m₀ hm₀).pinDir hpin₀).2
      rw [hadds.magic] at hmagic
      exact hnot (htidy hmagic)
    · rintro (⟨hmount, -⟩ | ⟨-, hcan⟩)
      · exact hnot hmount
      · exact (hcannot hc).1 hcan
  | mounted hu hadds hmount hadds' hcan =>
    obtain ⟨hcan, hdir⟩ := hcan hc
    exact iff_of_true (fun m _ => loadable_of_mounted hmount hadds' hdir) (Or.inr ⟨hu, hcan⟩)

/-- **Where a start succeeds.** For every host on which the BPF file system is mounted at its
place or nowhere around, and every object file with the program and a map that is pinned by
name, when no system call fails: `LoadAndAttach` returns no error if and only if

* the cgroup root is on the cgroup file system, or is no mount point but a directory that is
  there or can be made, and
* the BPF file system is mounted at `/sys/fs/bpf`, every map of the object file that is pinned
  by name is there in the same shape, or missing with the directory for the pins there; or
  `/sys/fs/bpf` is no mount point but a directory that is there or can be made.

It ends the process if and only if `/sys/fs/bpf` is a mount point of another file system; the
message names the fallback, which is never looked at. -/
theorem loadAndAttach_succeeds_iff (hc : Calm env.fault) (helf : env.elf file = .ok spec)
    (hprog : "connect4" ∈ spec.programs) (hpinned : ∃ m ∈ spec.maps, m.pinByName)
    (htidy : h.Tidy) :
    ((∃ bm, (h.start env file).1 = .ret (.ok bm)) ↔
      h.CgroupReady defaultCgroupRoot ∧ h.BpffsReady spec) ∧
    ((h.start env file).1 = .panic (.logged (.differentFilesystem bpffsRootFallback)) ↔
      h.Foreign) := by
  have hstarted := started env file h
  generalize (h.start env file).1 = o at hstarted ⊢
  generalize (h.start env file).2 = h' at hstarted
  cases hstarted with
  | memlock hnot => exact absurd hc hnot
  | noSpec herr => exact absurd (helf.symm.trans herr) (by simp)
  | foreign hcgroup hforeign =>
    have hforeign' := hcgroup.sameUnder.foreign.mp hforeign
    -- the mount is neither the BPF file system nor missing
    refine ⟨iff_of_false (by simp) ?_, iff_of_true rfl hforeign'⟩
    rintro ⟨-, ⟨-, hmagic, -⟩ | ⟨hu, -⟩⟩
    · exact hforeign'.2 hmagic
    · exact h.not_mountPoint_of_unmounted hu hforeign'.1
  | loaded helf' hcgroup hbpffs hloaded hok hpanic hcalm =>
    obtain rfl := Except.ok.inj (helf.symm.trans helf')
    have hsys := hcgroup.sameUnder
    constructor
    · rw [hcalm hc hprog, hloaded.calm hc]
      rw [hbpffs.loadable_iff hc (hsys.tidy.mpr htidy) hpinned, hsys.bpffsReady,
        (hbpffs.sameUnder.trans hloaded.sameUnder).onCgroup2, hcgroup.calm hc]
      exact and_comm
    · refine iff_of_false (fun ho => absurd hprog (hpanic _ ho)) fun hforeign => ?_
      exact hbpffs.not_foreign hc (hsys.foreign.mpr hforeign)

end Outcome

/-- A host with an empty root, where nothing is mounted. -/
def bareHost : Host where
  vfs :=
    { fs := fun _ => .empty 0 0xef53
      points := []
      fresh := 2
      nodup := List.nodup_nil
      bounds := fun _ hm => absurd hm List.not_mem_nil
      dev_lt := fun _ => Nat.zero_lt_two }
  cgroup2 := .empty 1 cgroup2SuperMagic
  magic_cgroup2 := rfl
  dev_cgroup2 := Nat.one_lt_two
  nextMap := 0

/-- An environment with the object file of the repository. -/
def serviceEnv (fault : Faults) : BootEnv PinLoader :=
  ⟨fault, ⟨fun _ => .ok serviceSpec, .insertion _⟩⟩

theorem bareHost_tidy : bareHost.Tidy := fun hmagic => absurd hmagic (by decide)

theorem bareHost_unmounted : bareHost.Unmounted bpffsRoot := Or.inl rfl

theorem lookup_bareHost {p : Path} (hp : p ≠ []) : bareHost.vfs.lookup p = .error .enoent := by
  refine FileSystem.lookup_eq_enoent_iff.mpr ⟨if_neg hp, fun q _ => ?_⟩
  by_cases hq : q = []
  · exact Or.inr (if_pos hq)
  · exact Or.inl (if_neg hq)

/-- With both mounts missing a start mounts them and succeeds. -/
theorem bareHost_succeeds :
    ∃ bm, (bareHost.start (serviceEnv fun _ => none) "service.o").1 = .ret (.ok bm) := by
  have hmake : ∀ rev, bareHost.CanMake rev := by
    intro rev
    induction rev with
    | nil => trivial
    | cons name up ih => exact Or.inr ⟨lookup_bareHost (by simp), rfl, ih⟩
  have hready : bareHost.CgroupReady defaultCgroupRoot := Or.inr ⟨Or.inl rfl, hmake _⟩
  exact (loadAndAttach_succeeds_iff (fun _ => rfl) rfl (by decide)
    ⟨_, List.mem_cons_self, rfl⟩ bareHost_tidy).1.mpr
    ⟨hready, Or.inr ⟨bareHost_unmounted, hmake _⟩⟩

/-! ### What a start keeps -/

section Keeping

variable {fault : Faults} {env : BootEnv L} {file name : String} {h h₁ h₂ h' : Host}
  {spec : CollectionSpec} {i : BpfMap} {o : Outcome Fatal (Except LoadError BPFManager)}

theorem Adds.stat {S : Path → Node BpfMap → Prop} {p : Path} {st : Node BpfMap × ℕ}
    (hadds : Adds S h h') (hst : h.stat p = .ok st) : h'.stat p = .ok st := by
  rw [Host.stat] at hst ⊢
  cases hl : h.vfs.lookup p with
  | error e =>
    rw [hl] at hst
    exact absurd hst (by simp [Except.map])
  | ok n =>
    rw [hl] at hst
    rw [hadds.found hl, hadds.dev]
    exact hst

theorem Adds.isMountPoint {S : Path → Node BpfMap → Prop} {p : Path} (hadds : Adds S h h')
    (hm : h.IsMountPoint p) : h'.IsMountPoint p := by
  obtain ⟨st, pst, hst, hpst, hne⟩ := hm
  exact ⟨st, pst, hadds.stat hst, hadds.stat hpst, hne⟩

theorem Host.dev_of_stat {p : Path} {st : Node BpfMap × ℕ} (hst : h.stat p = .ok st) :
    st.2 = (h.vfs.owner p).dev := by
  rw [Host.stat] at hst
  cases hl : h.vfs.lookup p with
  | error e =>
    rw [hl] at hst
    exact absurd hst (by simp [Except.map])
  | ok n =>
    rw [hl] at hst
    exact congrArg Prod.snd (Except.ok.inj hst).symm

/-- Where a new file system is mounted there is a mount point. -/
theorem isMountPoint_of_mounted (hu : h.Unmounted bpffsRoot) (hadds : Adds (Dirs bpffsRoot) h h₁)
    (hmount : Mounted bpffsRoot (.empty h₁.vfs.fresh bpfFsMagic) h₁ h₂) :
    h₂.IsMountPoint bpffsRoot := by
  -- the directory of the mount point is there
  obtain ⟨pst, hpst⟩ : ∃ pst, h₁.stat bpffsRoot.dropLast = .ok pst := by
    by_cases hloc : (h₁.vfs.locate bpffsRoot).2 = []
    · rw [hadds.locate] at hloc
      have hok := Vfs.lookup_of_locate_nil hloc
      rcases hu with he | ⟨-, pst, -, hpst, -⟩
      · rw [Host.stat, hok] at he
        exact absurd he (by simp [Except.map])
      · exact ⟨pst, hadds.stat hpst⟩
    · refine ⟨(.dir, (h₁.vfs.owner bpffsRoot.dropLast).dev), ?_⟩
      rw [Host.stat, Vfs.lookup_dropLast_of_ok hloc hmount.dir]
      rfl
  have hdev : h₁.vfs.fresh ≠ pst.2 := by
    rw [Host.dev_of_stat hpst]
    exact (h₁.vfs.dev_lt _).ne'
  have hpoint : h₂.stat bpffsRoot = .ok (.dir, h₁.vfs.fresh) := by
    have hlookup : h₂.vfs.lookup bpffsRoot = .ok .dir := congrArg Prod.fst hmount.view_point
    have hnew : (h₂.vfs.owner bpffsRoot).dev = h₁.vfs.fresh :=
      congrArg (fun x => x.2.1) hmount.view_point
    rw [Host.stat, hlookup, hnew]
    rfl
  have hparent : h₂.stat bpffsRoot.dropLast = .ok pst :=
    (Host.stat_congr (hmount.off (by decide))).trans hpst
  exact ⟨_, pst, hpoint, hparent, hdev⟩

/-- A mount point is left alone. -/
theorem BpffsStage.eq_of_mountPoint (hstage : BpffsStage fault h h')
    (hm : h.IsMountPoint bpffsRoot) : h' = h := by
  cases hstage with
  | skipped _ => rfl
  | failed hu _ _ => exact absurd hm (h.not_mountPoint_of_unmounted hu)
  | mounted hu _ _ _ _ => exact absurd hm (h.not_mountPoint_of_unmounted hu)

theorem Adds.tidy {S : Path → Node BpfMap → Prop} (hadds : Adds S h h') (ht : h.Tidy) :
    h'.Tidy := by
  intro hmagic
  rw [hadds.magic] at hmagic
  exact hadds.isMountPoint (ht hmagic)

theorem BpffsStage.tidy (hstage : BpffsStage fault h h') (ht : h.Tidy) : h'.Tidy := by
  cases hstage with
  | skipped _ => exact ht
  | failed _ hadds _ => exact hadds.tidy ht
  | mounted hu hadds hmount hadds' _ =>
    exact fun _ => hadds'.isMountPoint (isMountPoint_of_mounted hu hadds hmount)

/-- Something is pinned only where the BPF file system is mounted. -/
theorem Host.Pinned.isMountPoint (hp : h.Pinned name i) (ht : h.Tidy) :
    h.IsMountPoint bpffsRoot := ht hp.pinDir.2

theorem BpffsStage.pinned (hstage : BpffsStage fault h h') (ht : h.Tidy) (hp : h.Pinned name i) :
    h'.Pinned name i := by
  rw [hstage.eq_of_mountPoint (hp.isMountPoint ht)]
  exact hp

/-- **A start keeps the order of things**, however it ends. -/
theorem Started.tidy (hs : Started env file h o h') (ht : h.Tidy) : h'.Tidy := by
  cases hs with
  | memlock _ => exact ht
  | foreign hcgroup _ => exact hcgroup.sameUnder.tidy.mpr ht
  | noSpec _ hcgroup hbpffs => exact hbpffs.tidy (hcgroup.sameUnder.tidy.mpr ht)
  | loaded _ hcgroup hbpffs hloaded _ _ _ =>
    exact hloaded.adds.tidy (hbpffs.tidy (hcgroup.sameUnder.tidy.mpr ht))

/-- **A start keeps what is pinned**, however it ends. -/
theorem Started.pinned (hs : Started env file h o h') (ht : h.Tidy) (hp : h.Pinned name i) :
    h'.Pinned name i := by
  cases hs with
  | memlock _ => exact hp
  | foreign hcgroup _ => exact hcgroup.sameUnder.pinned.mpr hp
  | noSpec _ hcgroup hbpffs =>
    exact hbpffs.pinned (hcgroup.sameUnder.tidy.mpr ht) (hcgroup.sameUnder.pinned.mpr hp)
  | loaded _ hcgroup hbpffs hloaded _ _ _ =>
    exact hloaded.adds.pinned
      (hbpffs.pinned (hcgroup.sameUnder.tidy.mpr ht) (hcgroup.sameUnder.pinned.mpr hp))

end Keeping

/-! ### The maps that are handed out -/

/-- Both maps of the data path are pinned by name. -/
structure PinsBoth (spec : CollectionSpec) : Prop where
  services : ∃ m ∈ spec.maps, m.name = "eproxy_lb4_services" ∧ m.pinByName
  backends : ∃ m ∈ spec.maps, m.name = "eproxy_lb4_backends" ∧ m.pinByName

/-- The maps of a manager, under the names they are pinned by. -/
structure Hands (bm : BPFManager) (P : String → BpfMap → Prop) : Prop where
  services : ∃ i, bm.service = some i ∧ P "eproxy_lb4_services" i
  backends : ∃ i, bm.endpoint = some i ∧ P "eproxy_lb4_backends" i

section Handed

variable {env : BootEnv L} {file : String} {h h' : Host} {spec : CollectionSpec} {bm : BPFManager}

theorem CgroupStage.nextMap {fault : Faults} {p : Path} (hstage : CgroupStage fault h p h') :
    h.nextMap ≤ h'.nextMap := by
  obtain ⟨h₁, hadds, rfl | hmount⟩ := hstage.effect
  · exact hadds.nextMap
  · exact hadds.nextMap.trans_eq (Host.mount_eq_ok hmount).nextMap.symm

theorem BpffsStage.nextMap {fault : Faults} (hstage : BpffsStage fault h h') :
    h.nextMap ≤ h'.nextMap := by
  cases hstage with
  | skipped _ => exact Nat.le_refl _
  | failed _ hadds _ => exact hadds.nextMap
  | mounted _ hadds hmount hadds' _ =>
    exact (hadds.nextMap.trans_eq hmount.nextMap.symm).trans hadds'.nextMap

/-- Where there was no mount, no map is found. -/
theorem BpffsStage.not_pinned {fault : Faults} {name : String} {i : BpfMap}
    (hstage : BpffsStage fault h h') (ht : h.Tidy) (hu : h.Unmounted bpffsRoot) :
    ¬ h'.Pinned name i := by
  intro hp
  have hnot := h.not_mountPoint_of_unmounted hu
  cases hstage with
  | skipped _ => exact hnot (hp.isMountPoint ht)
  | failed _ hadds _ =>
    have hmagic := hp.pinDir.2
    rw [hadds.magic] at hmagic
    exact hnot (ht hmagic)
  | mounted _ _ hmount hadds' _ => exact missing_of_mounted hmount hadds' _ _ hp.1

theorem BpffsStage.new_of_source {fault : Faults} {h₁ : Host} {name : String} {i : BpfMap}
    (hbpffs : BpffsStage fault h₁ h') (hcgroup : CgroupStage fault h defaultCgroupRoot h₁)
    (ht : h.Tidy) (hsource : h'.Pinned name i ∨ h'.nextMap ≤ i.id)
    (hu : h.Unmounted bpffsRoot) : h.nextMap ≤ i.id := by
  have hsys := hcgroup.sameUnder
  rcases hsource with hp | hid
  · exact absurd hp (hbpffs.not_pinned (hsys.tidy.mpr ht) (hsys.unmounted.mpr hu))
  · exact (hcgroup.nextMap.trans hbpffs.nextMap).trans hid

/-- The entry of a map that is pinned by name. -/
theorem CollectionLoaded.entry {fault : Faults} {coll : Collection} {m : MapSpec}
    (hloaded : CollectionLoaded fault h spec (.ok coll) h') (hm : m ∈ spec.maps)
    (hpin : m.pinByName) : ∃ i, coll.maps m.name = some i ∧ h'.Pinned m.name i ∧
      (h.Pinned m.name i ∨ h.nextMap ≤ i.id) := by
  obtain ⟨i, hi⟩ := Option.isSome_iff_exists.mp (hloaded.found rfl hm)
  exact ⟨i, hi, hloaded.pinned rfl hm hpin hi, hloaded.source rfl hm hpin hi⟩

/-- What a start hands out is pinned afterwards, and is new if the BPF file system was not
mounted before. -/
theorem Started.hands (hs : Started env file h (.ret (.ok bm)) h') (ht : h.Tidy)
    (hboth : ∀ spec, env.elf file = .ok spec → PinsBoth spec) :
    Hands bm fun name i => h'.Pinned name i ∧ (h.Unmounted bpffsRoot → h.nextMap ≤ i.id) := by
  cases hs with
  | loaded helf hcgroup hbpffs hloaded hok _ _ =>
    obtain ⟨coll, rfl, rfl⟩ := hok bm rfl
    obtain ⟨⟨m, hm, hname, hpin⟩, ⟨m', hm', hname', hpin'⟩⟩ := hboth _ helf
    obtain ⟨i, hi, hp, hsource⟩ := hloaded.entry hm hpin
    obtain ⟨i', hi', hp', hsource'⟩ := hloaded.entry hm' hpin'
    rw [hname] at hi hp
    rw [hname'] at hi' hp'
    exact ⟨⟨i, hi, hp, hbpffs.new_of_source hcgroup ht hsource⟩,
      ⟨i', hi', hp', hbpffs.new_of_source hcgroup ht hsource'⟩⟩

end Handed

/-! ### Runs of starts -/

/-- A start: its environment and its object file. -/
structure Start (L : Type) where
  env : BootEnv L
  file : String

/-- A host on which one process after the other is started. -/
def hostSystem (L : Type) [Loader L] (h₀ : Host) : System Host (Start L) where
  init := h₀
  step h l h' := h' = (h.start l.env l.file).2

/-- What the start hands out, if it succeeds. -/
def Host.started (h : Host) (l : Start L) : Option BPFManager :=
  match (h.start l.env l.file).1 with
  | .ret (.ok bm) => some bm
  | _ => none

section Runs

variable {h₀ h : Host} {tr : List (Transition Host (Start L))} {bm bm' : BPFManager}

theorem Host.started_eq_some_iff {l : Start L} :
    h.started l = some bm ↔ (h.start l.env l.file).1 = .ret (.ok bm) := by
  rw [Host.started]
  split
  · next bm' heq => simp [heq]
  · next hnot => simpa using fun heq => hnot bm heq

/-- **The run.** What was handed out in the course of a run is pinned at its end. -/
theorem hands_of_run (ht : h₀.Tidy) (hrun : Run (hostSystem L h₀) h₀ tr h)
    (hboth : ∀ t ∈ tr, ∀ spec, t.label.env.elf t.label.file = .ok spec → PinsBoth spec) :
    h.Tidy ∧ ∀ t ∈ tr, ∀ bm, t.pre.started t.label = some bm → Hands bm h.Pinned := by
  induction hrun with
  | nil => exact ⟨ht, fun t hmem => absurd hmem List.not_mem_nil⟩
  | @snoc s s' tr l hrun hstep ih =>
    obtain ⟨htidy, hall⟩ := ih fun t hmem => hboth t (List.mem_append_left _ hmem)
    have hs := started l.env l.file s
    obtain rfl : s' = (s.start l.env l.file).2 := hstep
    refine ⟨hs.tidy htidy, fun t hmem bm hbm => ?_⟩
    rcases List.mem_append.mp hmem with hmem | hmem
    -- what earlier starts have handed out is still pinned, what this one does is pinned now
    · obtain ⟨⟨i, hi, hp⟩, ⟨i', hi', hp'⟩⟩ := hall t hmem bm hbm
      exact ⟨⟨i, hi, hs.pinned htidy hp⟩, ⟨i', hi', hs.pinned htidy hp'⟩⟩
    · have hlast := hboth t (List.mem_append_right _ hmem)
      obtain rfl := List.mem_singleton.mp hmem
      rw [Host.started_eq_some_iff.mp hbm] at hs
      obtain ⟨⟨i, hi, hp, -⟩, ⟨i', hi', hp', -⟩⟩ := hs.hands htidy hlast
      exact ⟨⟨i, hi, hp⟩, ⟨i', hi', hp'⟩⟩

/-- **All starts work on the same maps.** Over every run of starts on a host on which the BPF
file system is mounted at its place or nowhere around, with any system calls failing and any
processes dying on the way, and over object files that pin both maps by name: any two starts
that succeed hand out the same two maps. -/
theorem starts_share_maps (ht : h₀.Tidy) (hrun : Run (hostSystem L h₀) h₀ tr h)
    (hboth : ∀ t ∈ tr, ∀ spec, t.label.env.elf t.label.file = .ok spec → PinsBoth spec)
    {t t' : Transition Host (Start L)} (hmem : t ∈ tr) (hmem' : t' ∈ tr)
    (hbm : t.pre.started t.label = some bm) (hbm' : t'.pre.started t'.label = some bm') :
    bm = bm' := by
  have hall := (hands_of_run ht hrun hboth).2
  obtain ⟨⟨i, hi, hp⟩, ⟨j, hj, hq⟩⟩ := hall t hmem bm hbm
  obtain ⟨⟨i', hi', hp'⟩, ⟨j', hj', hq'⟩⟩ := hall t' hmem' bm' hbm'
  cases bm
  cases bm'
  simp only at hi hj hi' hj'
  rw [hi, hj, hi', hj', hp.unique hp', hq.unique hq']

/-- A start with the object file of the repository. -/
def serviceStart (fault : Faults) : Start PinLoader := ⟨serviceEnv fault, "service.o"⟩

theorem serviceSpec_pinsBoth : PinsBoth serviceSpec :=
  ⟨⟨_, List.mem_cons_self, rfl, rfl⟩, ⟨_, List.mem_cons_of_mem _ List.mem_cons_self, rfl, rfl⟩⟩

/-- The host after a start with the object file of the repository. -/
def Host.afterService (h : Host) (fault : Faults) : Host :=
  (h.start (serviceEnv fault) "service.o").2

/-- The second start takes the maps of the first one. -/
theorem bareHost_share :
    (bareHost.afterService fun _ => none).started (serviceStart fun _ => none) =
      bareHost.started (serviceStart fun _ => none) := by
  have hfirst : (bareHost.started (serviceStart fun _ => none)).isSome := by decide +kernel
  have hsecond : ((bareHost.afterService fun _ => none).started
      (serviceStart fun _ => none)).isSome := by decide +kernel
  have ht := bareHost_tidy
  -- the hosts need not be looked into any more
  obtain ⟨h, hh⟩ : ∃ h, h = bareHost.afterService fun _ => none := ⟨_, rfl⟩
  rw [← hh] at hsecond ⊢
  rw [Host.afterService] at hh
  generalize bareHost = h₀ at hh hfirst ht ⊢
  obtain ⟨bm, hbm⟩ := Option.isSome_iff_exists.mp hfirst
  obtain ⟨bm', hbm'⟩ := Option.isSome_iff_exists.mp hsecond
  have hrun : Run (hostSystem PinLoader h₀) h₀ [⟨h₀, serviceStart fun _ => none, h⟩,
      ⟨h, serviceStart fun _ => none, h.afterService fun _ => none⟩] _ :=
    .snoc (.snoc (.nil h₀) hh) rfl
  rw [hbm, hbm']
  refine congrArg some (starts_share_maps ht hrun ?_
    (List.mem_cons_of_mem _ List.mem_cons_self) List.mem_cons_self hbm' hbm)
  intro t hmem spec hspec
  have hlabel : t.label = serviceStart fun _ => none := by
    rcases List.mem_cons.mp hmem with rfl | hmem
    · rfl
    · rw [List.mem_singleton.mp hmem]
  rw [hlabel] at hspec
  exact Except.ok.inj hspec ▸ serviceSpec_pinsBoth

/-- The BPF file system is mounted, and the directory for the pins is missing. -/
structure Host.Stuck (h : Host) : Prop where
  mounted : h.IsMountPoint bpffsRoot
  missing : h.vfs.lookup eProxyPath = .error .enoent

theorem SameUnder.stuck {h' : Host} (hs : SameUnder "sys" h h') (hstuck : h.Stuck) :
    h'.Stuck where
  mounted := hs.isMountPoint.mpr hstuck.mounted
  missing := (congrArg Prod.fst (hs ["fs", "bpf", "eproxy"])).trans hstuck.missing

/-- Where the directory for the pins is missing, no map is pinned. -/
theorem Host.Stuck.not_pinned {name : String} {i : BpfMap} (hstuck : h.Stuck) :
    ¬ h.Pinned name i := fun hp => absurd (hstuck.missing.symm.trans hp.pinDir.1) (by simp)

/-- **The step.** A start that finds the mount does not make the directory, and fails. -/
theorem Started.stuck {env : BootEnv L} {file : String} {h' : Host}
    {o : Outcome Fatal (Except LoadError BPFManager)} (hs : Started env file h o h')
    (hstuck : h.Stuck)
    (hpinned : ∀ spec, env.elf file = .ok spec → ∃ m ∈ spec.maps, m.pinByName) :
    h'.Stuck ∧ ∀ bm, o ≠ .ret (.ok bm) := by
  cases hs with
  | memlock _ => exact ⟨hstuck, fun bm ho => absurd ho (by simp)⟩
  | foreign hcgroup _ => exact ⟨hcgroup.sameUnder.stuck hstuck, fun bm ho => absurd ho (by simp)⟩
  | noSpec _ hcgroup hbpffs =>
    have hstuck₁ := hcgroup.sameUnder.stuck hstuck
    obtain rfl := hbpffs.eq_of_mountPoint hstuck₁.mounted
    exact ⟨hstuck₁, fun bm ho => absurd ho (by simp)⟩
  | loaded helf hcgroup hbpffs hloaded hok _ _ =>
    have hstuck₁ := hcgroup.sameUnder.stuck hstuck
    obtain rfl := hbpffs.eq_of_mountPoint hstuck₁.mounted
    -- the loader adds pins, and no directory
    have hstuck' : h'.Stuck := {
      mounted := hloaded.adds.isMountPoint hstuck₁.mounted
      missing := (congrArg Prod.fst hloaded.adds.view_pinDir).trans hstuck₁.missing }
    refine ⟨hstuck', fun bm ho => ?_⟩
    -- a map that is loaded is pinned in the end
    obtain ⟨coll, rfl, -⟩ := hok bm ho
    obtain ⟨m, hm, hpin⟩ := hpinned _ helf
    obtain ⟨i, -, hp, -⟩ := hloaded.entry hm hpin
    exact hstuck'.not_pinned hp

/-- **No way out.** Over every run of starts on a host on which the BPF file system is mounted
and the directory for the pins is missing, with any object files that have a map that is pinned
by name: no start succeeds. -/
theorem starts_stuck (hstuck : h₀.Stuck) (hrun : Run (hostSystem L h₀) h₀ tr h)
    (hpinned : ∀ t ∈ tr, ∀ spec, t.label.env.elf t.label.file = .ok spec →
      ∃ m ∈ spec.maps, m.pinByName) :
    h.Stuck ∧ ∀ t ∈ tr, t.pre.started t.label = none := by
  induction hrun with
  | nil => exact ⟨hstuck, fun t hmem => absurd hmem List.not_mem_nil⟩
  | @snoc s s' tr l hrun hstep ih =>
    obtain ⟨hstuckₛ, hall⟩ := ih fun t hmem => hpinned t (List.mem_append_left _ hmem)
    have hlast := hpinned ⟨s, l, s'⟩ (List.mem_append_right _ (List.mem_singleton_self _))
    obtain rfl : s' = (s.start l.env l.file).2 := hstep
    obtain ⟨hstuck', hfails⟩ := (started l.env l.file s).stuck hstuckₛ hlast
    refine ⟨hstuck', fun t hmem => ?_⟩
    rcases List.mem_append.mp hmem with hmem | hmem
    · exact hall t hmem
    · obtain rfl := List.mem_singleton.mp hmem
      refine Option.eq_none_iff_forall_ne_some.mpr fun bm hbm => ?_
      exact hfails bm (Host.started_eq_some_iff.mp hbm)

/-- A start whose call number 21, the `mkdir` of the directory for the pins, fails. -/
def mkdirFailed : Faults := fun n => if n = 21 then some 12 else none

/-- After it, one more start fails on the host although no call does. -/
theorem bareHost_stuck :
    (bareHost.afterService mkdirFailed).started (serviceStart fun _ => none) = none := by
  have hstuck : (bareHost.afterService mkdirFailed).Stuck := {
    mounted := ⟨(.dir, 3), (.dir, 0), by decide +kernel, by decide +kernel, by decide⟩
    missing := by decide +kernel }
  generalize bareHost.afterService mkdirFailed = h₀ at hstuck ⊢
  have hrun : Run (hostSystem PinLoader h₀) h₀
      [⟨h₀, serviceStart fun _ => none, h₀.afterService fun _ => none⟩] _ :=
    .snoc (.nil h₀) rfl
  refine (starts_stuck hstuck hrun fun t hmem spec hspec => ?_).2 _ List.mem_cons_self
  have hlabel : t.label = serviceStart fun _ => none := by rw [List.mem_singleton.mp hmem]
  rw [hlabel] at hspec
  have hpinned : ∃ m ∈ serviceSpec.maps, m.pinByName := ⟨_, List.mem_cons_self, rfl⟩
  exact Except.ok.inj hspec ▸ hpinned

end Runs

end EProxy
