import EProxy.Framework.Triple
import EProxy.Startup.CheckOrMount

/-!
# What the mounting functions do

One triple for each function of `pkg/mountinfo`, `pkg/cgroups` and `pkg/bpf` that is called on
the way to the loaded collection. Each says what the function leaves behind whatever fails on
the way, and exactly how it ends if nothing does.
-/

namespace EProxy

open Framework Framework.Go

/-! ### System calls -/

/-- The environment fails no call. -/
def Calm (fault : Faults) : Prop := ∀ i, fault i = none

/-- The process is on the host `h`, and these are the variables of `pkg/cgroups`. -/
structure At (h : Host) (root : Path) (once : Bool) (b : Boot) : Prop where
  host : b.host = h
  cgroupRoot : b.cgroupRoot = root
  cgrpMountOnce : b.cgrpMountOnce = once

/-- The answer to a call is the one of the host, unless the environment has failed it. -/
def Answers {α : Type} (fault : Faults) (expected answer : Except Errno α) : Prop :=
  answer = expected ∨ ¬ Calm fault ∧ ∃ code, answer = .error (.other code)

section Calls

variable {α : Type} {fault : Faults} {h : Host} {root : Path} {once : Bool}
  {E : Panic Fatal → Boot → Prop}

theorem syscall_spec (call : Host → Except Errno (α × Host)) :
    Triple (At h root once) (syscall fault call)
      (fun r b =>
        (∃ a h', call h = .ok (a, h') ∧ r = .ok a ∧ At h' root once b) ∨
        (∃ e, r = .error e ∧ (call h = .error e ∨ ¬ Calm fault ∧ ∃ code, e = .other code) ∧
          At h root once b)) E := by
  intro b hb
  obtain ⟨rfl, hroot, honce⟩ := hb
  rw [syscall]
  dsimp only
  cases hfault : fault b.clock with
  | some code =>
    refine Or.inr ⟨_, rfl, Or.inr ⟨fun hcalm => ?_, code, rfl⟩, rfl, hroot, honce⟩
    exact absurd (hfault.symm.trans (hcalm _)) (by simp)
  | none =>
    cases hcall : call b.host with
    | error e => exact Or.inr ⟨e, rfl, Or.inl rfl, rfl, hroot, honce⟩
    | ok r => exact Or.inl ⟨r.1, r.2, rfl, rfl, rfl, hroot, honce⟩

theorem ask_spec (call : Host → Except Errno α) :
    Triple (At h root once) (ask fault call)
      (fun r b => At h root once b ∧ Answers fault (call h) r) E := by
  refine (syscall_spec _).post fun r b hpost => ?_
  rcases hpost with ⟨a, h', hcall, rfl, hb⟩ | ⟨e, rfl, hcall, hb⟩
  · cases hc : call h with
    | error e =>
      rw [hc] at hcall
      exact absurd hcall (by simp [Except.map])
    | ok a' =>
      rw [hc] at hcall
      obtain ⟨rfl, rfl⟩ := Prod.ext_iff.mp (Except.ok.inj hcall)
      exact ⟨hb, Or.inl rfl⟩
  · refine ⟨hb, hcall.imp (fun hcall => ?_) fun ⟨hcalm, code, he⟩ => ⟨hcalm, code, he ▸ rfl⟩⟩
    cases hc : call h with
    | error e' =>
      rw [hc] at hcall
      exact congrArg _ (Except.error.inj hcall).symm
    | ok a' =>
      rw [hc] at hcall
      exact absurd hcall (by simp [Except.map])

end Calls

/-! ### `IsMountFS` -/

/-- The path is on another device than its directory. -/
def Host.IsMountPoint (h : Host) (p : Path) : Prop :=
  ∃ st pst, h.stat p = .ok st ∧ h.stat p.dropLast = .ok pst ∧ st.2 ≠ pst.2

/-- The path is not there, or on the device of its directory. -/
def Host.Unmounted (h : Host) (p : Path) : Prop :=
  h.stat p = .error .enoent ∨
    ∃ st pst, h.stat p = .ok st ∧ h.stat p.dropLast = .ok pst ∧ st.2 = pst.2

/-- The type of the file system a path is on. -/
def Host.magic (h : Host) (p : Path) : ℕ := (h.vfs.owner p).magic

/-- What `IsMountFS` may answer. -/
inductive MountAnswer (fault : Faults) (h : Host) (mntType : ℕ) (p : Path) :
    Bool × Bool × Option MountError → Prop
  | unmounted : h.Unmounted p → MountAnswer fault h mntType p (false, false, none)
  | mounted : h.IsMountPoint p → MountAnswer fault h mntType p (true, h.magic p == mntType, none)
  | failed (mounted instance' : Bool) (e : MountError) :
      ¬ Calm fault ∨ ¬ h.Unmounted p ∧ ¬ h.IsMountPoint p →
      MountAnswer fault h mntType p (mounted, instance', some e)

section IsMountFS

variable {fault : Faults} {h : Host} {root : Path} {once : Bool}
  {E : Panic Fatal → Boot → Prop} {mntType : ℕ} {p : Path}

theorem Host.not_mountPoint_of_stat {e : Errno} (he : h.stat p = .error e) :
    ¬ h.IsMountPoint p := by
  rintro ⟨st, pst, hst, -⟩
  exact absurd (he.symm.trans hst) (by simp)

theorem Host.not_mountPoint_of_unmounted (hu : h.Unmounted p) : ¬ h.IsMountPoint p := by
  rintro ⟨st, pst, hst, hpst, hne⟩
  rcases hu with he | ⟨st', pst', hst', hpst', heq⟩
  · exact absurd (he.symm.trans hst) (by simp)
  · obtain rfl := Except.ok.inj (hst.symm.trans hst')
    obtain rfl := Except.ok.inj (hpst.symm.trans hpst')
    exact hne heq

theorem Host.statfs_of_stat {st : Node BpfMap × ℕ} (hst : h.stat p = .ok st) :
    h.statfs p = .ok (h.magic p) := by
  rw [Host.stat] at hst
  rw [Host.statfs]
  cases hl : h.vfs.lookup p with
  | error e =>
    rw [hl] at hst
    exact absurd hst (by simp [Except.map])
  | ok n => rfl

theorem isMountFS_spec : Triple (At h root once) (isMountFS fault mntType p)
    (fun r b => At h root once b ∧ MountAnswer fault h mntType p r) E := by
  refine (ask_spec _).bind fun r => triple_and fun hst => ?_
  rcases hst with rfl | ⟨hcalm, code, rfl⟩
  · cases hst : h.stat p with
    | error e =>
      have hnot := h.not_mountPoint_of_stat hst
      by_cases hnoent : e = .enoent
      · subst hnoent
        exact triple_pure fun b hb => ⟨hb, .unmounted (Or.inl hst)⟩
      · have hun : ¬ h.Unmounted p := by
          rintro (he | ⟨st, pst, hst', -⟩)
          · exact hnoent (Except.error.inj (hst.symm.trans he))
          · exact absurd (hst.symm.trans hst') (by simp)
        cases e
        case enoent => exact absurd rfl hnoent
        all_goals exact triple_pure fun b hb => ⟨hb, .failed _ _ _ (Or.inr ⟨hun, hnot⟩)⟩
    | ok st =>
      refine (ask_spec _).bind fun r => triple_and fun hpst => ?_
      rcases hpst with rfl | ⟨hcalm, code, rfl⟩
      · cases hpst : h.stat p.dropLast with
        | error e =>
          have hnone : ∀ pst, h.stat p.dropLast ≠ .ok pst := fun pst hpst' =>
            absurd (hpst.symm.trans hpst') (by simp)
          refine triple_pure fun b hb => ⟨hb, .failed _ _ _ (Or.inr ⟨?_, ?_⟩)⟩
          · rintro (he | ⟨st', pst, -, hpst', -⟩)
            · exact absurd (hst.symm.trans he) (by simp)
            · exact hnone pst hpst'
          · rintro ⟨st', pst, -, hpst', -⟩
            exact hnone pst hpst'
        | ok pst =>
          by_cases hdev : st.2 = pst.2
          · simp only [if_pos hdev]
            exact triple_pure fun b hb => ⟨hb, .unmounted (Or.inr ⟨st, pst, hst, hpst, hdev⟩)⟩
          · simp only [if_neg hdev]
            refine (ask_spec _).bind fun r => triple_and fun hfst => ?_
            rw [Host.statfs_of_stat hst] at hfst
            rcases hfst with rfl | ⟨hcalm, code, rfl⟩
            · exact triple_pure fun b hb => ⟨hb, .mounted ⟨st, pst, hst, hpst, hdev⟩⟩
            · exact triple_pure fun b hb => ⟨hb, .failed _ _ _ (Or.inl hcalm)⟩
      · exact triple_pure fun b hb => ⟨hb, .failed _ _ _ (Or.inl hcalm)⟩
  · exact triple_pure fun b hb => ⟨hb, .failed _ _ _ (Or.inl hcalm)⟩

end IsMountFS

/-! ### New nodes -/

/-- From `h` to `h'` only nodes of the kind `S` are added; the mounts are the same. -/
structure Adds (S : Path → Node BpfMap → Prop) (h h' : Host) : Prop where
  found : ∀ {q n}, h.vfs.lookup q = .ok n → h'.vfs.lookup q = .ok n
  only : ∀ {q n}, h'.vfs.lookup q = .ok n → h.vfs.lookup q = .ok n ∨ S q n
  locate : ∀ q, h'.vfs.locate q = h.vfs.locate q
  dev : ∀ q, (h'.vfs.owner q).dev = (h.vfs.owner q).dev
  magic : ∀ q, h'.magic q = h.magic q
  writable : ∀ q, (h'.vfs.owner q).writable = (h.vfs.owner q).writable
  off : ∀ {q}, (∀ r n, S r n → ¬ r <+: q) → h'.vfs.view q = h.vfs.view q
  cgroup2 : h'.cgroup2 = h.cgroup2
  nextMap : h.nextMap ≤ h'.nextMap

section Adds

variable {S S' : Path → Node BpfMap → Prop} {h h' h'' : Host} {p : Path} {n : Node BpfMap}

theorem Adds.refl (h : Host) : Adds S h h where
  found := id
  only := Or.inl
  locate _ := rfl
  dev _ := rfl
  magic _ := rfl
  writable _ := rfl
  off _ := rfl
  cgroup2 := rfl
  nextMap := Nat.le_refl _

theorem Adds.trans (h₁ : Adds S h h') (h₂ : Adds S h' h'') : Adds S h h'' where
  found hq := h₂.found (h₁.found hq)
  only hq := (h₂.only hq).elim h₁.only Or.inr
  locate q := (h₂.locate q).trans (h₁.locate q)
  dev q := (h₂.dev q).trans (h₁.dev q)
  magic q := (h₂.magic q).trans (h₁.magic q)
  writable q := (h₂.writable q).trans (h₁.writable q)
  off hq := (h₂.off hq).trans (h₁.off hq)
  cgroup2 := h₂.cgroup2.trans h₁.cgroup2
  nextMap := h₁.nextMap.trans h₂.nextMap

theorem Adds.mono (hadds : Adds S h h') (hle : ∀ q n, S q n → S' q n) : Adds S' h h' :=
  { hadds with
    only := fun hq => (hadds.only hq).imp id (hle _ _)
    off := fun hq => hadds.off fun r n hr => hq r n (hle r n hr) }

theorem adds_of_create (hc : h.create p n = .ok h') : Adds (fun q n' => q = p ∧ n' = n) h h' := by
  rw [Host.create] at hc
  split at hc
  · exact absurd hc (by simp)
  · next v hv =>
    obtain rfl := Except.ok.inj hc
    obtain ⟨hvacant, rfl⟩ := Vfs.create_eq_ok_iff.mp hv
    exact {
      found := fun hq => Vfs.lookup_insert_eq_ok_iff.mpr (Or.inl hq)
      only := fun hq => Vfs.lookup_insert_eq_ok_iff.mp hq
      locate := fun q => rfl
      dev := fun q => Vfs.device_insert.1
      magic := fun q => Vfs.device_insert.2.1
      writable := fun q => Vfs.device_insert.2.2
      off := fun hq => Vfs.view_insert (hq p n ⟨rfl, rfl⟩)
      cgroup2 := rfl
      nextMap := Nat.le_refl _ }

theorem lookup_of_create (hc : h.create p n = .ok h') : h'.vfs.lookup p = .ok n := by
  rw [Host.create] at hc
  split at hc
  · exact absurd hc (by simp)
  · next v hv =>
    obtain rfl := Except.ok.inj hc
    obtain ⟨hvacant, rfl⟩ := Vfs.create_eq_ok_iff.mp hv
    exact Vfs.lookup_insert_eq_ok_iff.mpr (Or.inr ⟨rfl, rfl⟩)

theorem exists_create {e : Errno} (hdir : h.vfs.lookup p.dropLast = .ok .dir)
    (hp : h.vfs.lookup p = .error e) (n : Node BpfMap) : ∃ h', h.create p n = .ok h' := by
  have hv : h.vfs.create p n = .ok (h.vfs.insert p n (Vfs.vacant_of_lookup hdir hp)) :=
    Vfs.create_eq_ok_iff.mpr ⟨_, rfl⟩
  rw [Host.create]
  split
  · next hv' => exact absurd (hv.symm.trans hv') (by simp)
  · exact ⟨_, rfl⟩

theorem Host.mkdir_eq_ok_iff {r : Unit × Host} :
    h.mkdir p = .ok r ↔ h.create p .dir = .ok r.2 ∧ (h.vfs.owner p).writable := by
  rw [Host.mkdir]
  cases hc : h.create p .dir with
  | error e => simp
  | ok h₁ =>
    dsimp only
    split
    · next hw => simp [hw, Prod.ext_iff]
    · next hw => simp [hw]

end Adds

/-! ### `MkdirAll` -/

/-- The directories on the way to a path. -/
def Dirs (p : Path) (q : Path) (n : Node BpfMap) : Prop := q <+: p ∧ q ≠ [] ∧ n = .dir

/-- The directories of a path, given in reverse, are there or can be made. -/
def Host.CanMake (h : Host) : List String → Prop
  | [] => True
  | name :: up =>
    h.vfs.lookup (name :: up).reverse = .ok .dir ∨
    h.vfs.lookup (name :: up).reverse = .error .enoent ∧
      (h.vfs.owner (name :: up).reverse).writable ∧ h.CanMake up

/-- What `MkdirAll` leaves behind, and how it ends. -/
structure MkdirDone (fault : Faults) (h : Host) (rev : List String) (r : Option Errno)
    (h' : Host) : Prop where
  adds : Adds (Dirs rev.reverse) h h'
  dir : r = none → h'.vfs.lookup rev.reverse = .ok .dir
  calm : Calm fault → (r = none ↔ h.CanMake rev) ∧
    (h'.vfs.lookup rev.reverse = .ok .dir → r = none)

section MkdirAll

variable {fault : Faults} {h h' : Host} {root : Path} {once : Bool}
  {E : Panic Fatal → Boot → Prop} {name : String} {up : List String}

theorem reverse_not_prefix : ¬ (name :: up).reverse <+: up.reverse := by
  intro hpre
  have hlen := hpre.length_le
  rw [List.length_reverse, List.length_reverse, List.length_cons] at hlen
  omega

/-- Nothing but directories is on the way if the way can be made. -/
theorem Host.enoent_of_canMake {e : Errno} (hup : h.CanMake up)
    (he : h.vfs.lookup (name :: up).reverse = .error e) : e = .enoent := by
  refine (FileSystem.lookup_error_cases he).resolve_right ?_
  rintro rfl
  have hdir := Vfs.lookup_dropLast_of_enotdir he
  rw [List.reverse_cons, List.dropLast_concat] at hdir
  cases up with
  | nil =>
    rw [List.reverse_nil, Vfs.lookup_nil] at hdir
    rcases hdir with ⟨n, hn, hok⟩ | herr
    · exact hn (Except.ok.inj hok).symm
    · exact absurd herr (by simp)
  | cons name' up' =>
    rcases hup with hok | ⟨herr, -⟩
    · rw [hok] at hdir
      rcases hdir with ⟨n, hn, hok'⟩ | herr
      · exact hn (Except.ok.inj hok').symm
      · exact absurd herr (by simp)
    · rw [herr] at hdir
      rcases hdir with ⟨n, -, hok⟩ | herr'
      · exact absurd hok (by simp)
      · exact absurd herr' (by simp)

theorem mkdirLast_spec {p : Path} : Triple (At h root once) (mkdirLast fault p)
    (fun r b => ∃ h', At h' root once b ∧ Adds (fun q n => q = p ∧ n = .dir) h h' ∧
      (r = none → h'.vfs.lookup p = .ok .dir) ∧
      (Calm fault → (r = none ↔ (∃ h', h.mkdir p = .ok ((), h')) ∨ h.vfs.lookup p = .ok .dir) ∧
        (h'.vfs.lookup p = .ok .dir → r = none))) E := by
  refine (syscall_spec _).bind fun r => ?_
  rintro b (⟨u, h', hmk, rfl, hb⟩ | ⟨e, rfl, he, hb⟩)
  · -- the directory was made
    have hc := (Host.mkdir_eq_ok_iff.mp hmk).1
    exact ⟨h', hb, adds_of_create hc, fun _ => lookup_of_create hc,
      fun _ => ⟨iff_of_true rfl (Or.inl ⟨h', hmk⟩), fun _ => rfl⟩⟩
  · have hnot : Calm fault → ¬ ∃ h', h.mkdir p = .ok ((), h') := by
      rintro hcalm ⟨h', hmk⟩
      rcases he with he | ⟨hnot, -⟩
      · exact absurd (he.symm.trans hmk) (by simp)
      · exact hnot hcalm
    refine (ask_spec _).bind (fun r => triple_and fun hr => ?_) b hb
    rcases hr with rfl | ⟨hcalm, code, rfl⟩
    · cases hl : h.vfs.lookup p with
      | error e' =>
        rw [Host.stat, hl]
        refine triple_pure fun b hb =>
          ⟨h, hb, .refl h, fun h => absurd h (by simp), fun hcalm => ?_⟩
        rw [hl]
        simp [hnot hcalm]
      | ok n =>
        rw [Host.stat, hl]
        cases n with
        | dir =>
          refine triple_pure fun b hb => ⟨h, hb, .refl h, fun _ => hl, fun hcalm => ?_⟩
          simp [hl]
        | file =>
          refine triple_pure fun b hb =>
            ⟨h, hb, .refl h, fun h => absurd h (by simp), fun hcalm => ?_⟩
          rw [hl]
          simp [hnot hcalm]
        | pin m =>
          refine triple_pure fun b hb =>
            ⟨h, hb, .refl h, fun h => absurd h (by simp), fun hcalm => ?_⟩
          rw [hl]
          simp [hnot hcalm]
    · exact triple_pure fun b hb => ⟨h, hb, .refl h, fun h => absurd h (by simp),
        fun hcalm' => absurd hcalm' hcalm⟩

/-- What `MkdirAll` of the directory and then `mkdir` of the path leave behind. -/
theorem MkdirDone.last {h₁ h' : Host} {r : Option Errno} (hup : MkdirDone fault h up none h₁)
    (hslow : Calm fault → ∃ e, h.vfs.lookup (name :: up).reverse = .error e)
    (hadds : Adds (fun q n => q = (name :: up).reverse ∧ n = .dir) h₁ h')
    (hdir : r = none → h'.vfs.lookup (name :: up).reverse = .ok .dir)
    (hcalm : Calm fault → (r = none ↔ (∃ h', h₁.mkdir (name :: up).reverse = .ok ((), h')) ∨
        h₁.vfs.lookup (name :: up).reverse = .ok .dir) ∧
      (h'.vfs.lookup (name :: up).reverse = .ok .dir → r = none)) :
    MkdirDone fault h (name :: up) r h' where
  adds := by
    refine (hup.adds.mono ?_).trans (hadds.mono ?_)
    · rintro q n ⟨hq, hne, hn⟩
      refine ⟨hq.trans ?_, hne, hn⟩
      rw [List.reverse_cons]
      exact List.prefix_append ..
    · rintro q n ⟨rfl, rfl⟩
      exact ⟨List.prefix_refl _, by simp, rfl⟩
  dir := hdir
  calm := by
    intro hc
    refine ⟨?_, (hcalm hc).2⟩
    obtain ⟨e, he⟩ := hslow hc
    have hcan : h.CanMake up := ((hup.calm hc).1).mp rfl
    obtain rfl := Host.enoent_of_canMake hcan he
    -- the path is not there before the last call either
    have hmissing : ∀ n, h₁.vfs.lookup (name :: up).reverse ≠ .ok n := by
      intro n hn
      rcases hup.adds.only hn with hn | ⟨hpre, -⟩
      · exact absurd (he.symm.trans hn) (by simp)
      · exact reverse_not_prefix hpre
    obtain ⟨e₁, he₁⟩ : ∃ e₁, h₁.vfs.lookup (name :: up).reverse = .error e₁ := by
      cases hl : h₁.vfs.lookup (name :: up).reverse with
      | error e₁ => exact ⟨e₁, rfl⟩
      | ok n => exact absurd hl (hmissing n)
    rw [(hcalm hc).1]
    constructor
    · rintro (⟨h₂, hmk⟩ | hok)
      · refine Or.inr ⟨he, ?_, hcan⟩
        rw [← hup.adds.writable]
        exact (Host.mkdir_eq_ok_iff.mp hmk).2
      · exact absurd hok (hmissing _)
    · rintro (hok | ⟨-, hw, -⟩)
      · exact absurd (he.symm.trans hok) (by simp)
      · have hparent : h₁.vfs.lookup (name :: up).reverse.dropLast = .ok .dir := by
          rw [List.reverse_cons, List.dropLast_concat]
          exact hup.dir rfl
        obtain ⟨h₂, hcreate⟩ := exists_create hparent he₁ .dir
        refine Or.inl ⟨h₂, Host.mkdir_eq_ok_iff.mpr ⟨hcreate, ?_⟩⟩
        rw [hup.adds.writable]
        exact hw

/-- `MkdirAll` of the directory has failed, so nothing is made of the path. -/
theorem MkdirDone.stop {h₁ : Host} {e : Errno} (hup : MkdirDone fault h up (some e) h₁)
    (hslow : Calm fault → ∃ e, h.vfs.lookup (name :: up).reverse = .error e) :
    MkdirDone fault h (name :: up) (some e) h₁ where
  adds := by
    refine hup.adds.mono ?_
    rintro q n ⟨hq, hne, hn⟩
    refine ⟨hq.trans ?_, hne, hn⟩
    rw [List.reverse_cons]
    exact List.prefix_append ..
  dir h := absurd h (by simp)
  calm := by
    intro hc
    obtain ⟨e', he⟩ := hslow hc
    constructor
    · refine iff_of_false (by simp) ?_
      rintro (hok | ⟨-, -, hcan⟩)
      · exact absurd (he.symm.trans hok) (by simp)
      · exact absurd ((hup.calm hc).1.mpr hcan) (by simp)
    · intro hok
      rcases hup.adds.only hok with hok | ⟨hpre, -⟩
      · exact absurd (he.symm.trans hok) (by simp)
      · exact absurd hpre reverse_not_prefix

theorem mkdirAllRev_spec (rev : List String) : Triple (At h root once) (mkdirAllRev fault rev)
    (fun r b => ∃ h', At h' root once b ∧ MkdirDone fault h rev r h') E := by
  induction rev generalizing h with
  | nil =>
    refine triple_pure fun b hb => ⟨h, hb, .refl h, fun _ => Vfs.lookup_nil, fun _ => ?_⟩
    exact ⟨iff_of_true rfl trivial, fun _ => rfl⟩
  | cons name up ih =>
    -- the path is not there, or so it seems
    have hslow : (Calm fault → ∃ e, h.vfs.lookup (name :: up).reverse = .error e) →
        Triple (At h root once)
          (mkdirSlow fault (mkdirAllRev fault up) (name :: up).reverse)
          (fun r b => ∃ h', At h' root once b ∧ MkdirDone fault h (name :: up) r h') E := by
      intro hslow
      refine ih.bind fun r => triple_exists fun h₁ => triple_and fun hup => ?_
      cases r with
      | some e => exact triple_pure fun b hb => ⟨h₁, hb, hup.stop hslow⟩
      | none =>
        refine mkdirLast_spec.post fun r b => ?_
        rintro ⟨h', hb, hadds, hdir, hcalm⟩
        exact ⟨h', hb, hup.last hslow hadds hdir hcalm⟩
    refine (ask_spec _).bind fun r => triple_and fun hr => ?_
    rcases hr with rfl | ⟨hcalm, code, rfl⟩
    · cases hl : h.vfs.lookup (name :: up).reverse with
      | error e =>
        rw [Host.stat, hl]
        exact hslow fun _ => ⟨e, hl⟩
      | ok n =>
        rw [Host.stat, hl]
        have hother : n ≠ .dir → MkdirDone fault h (name :: up) (some .enotdir) h := by
          intro hn
          refine ⟨.refl h, fun h => absurd h (by simp), fun _ => ⟨iff_of_false (by simp) ?_, ?_⟩⟩
          · rintro (hok | ⟨herr, -⟩)
            · exact hn (Except.ok.inj (hl.symm.trans hok))
            · exact absurd (hl.symm.trans herr) (by simp)
          · intro hok
            exact absurd (Except.ok.inj (hl.symm.trans hok)) hn
        cases n with
        | dir =>
          refine triple_pure fun b hb => ⟨h, hb, .refl h, fun _ => hl, fun _ => ?_⟩
          exact ⟨iff_of_true rfl (Or.inl hl), fun _ => rfl⟩
        | file => exact triple_pure fun b hb => ⟨h, hb, hother (by simp)⟩
        | pin m => exact triple_pure fun b hb => ⟨h, hb, hother (by simp)⟩
    · exact hslow fun hc => absurd hc hcalm

end MkdirAll

/-! ### Mounting -/

/-- Making a mount point and mounting there: `h₁` is the host when the mount point has been
seen to. -/
structure MountDone (fault : Faults) (h : Host) (path : Path)
    (mount : Host → Except Errno (Unit × Host)) (h₁ : Host) (r : Option MountError) (h' : Host) :
    Prop where
  adds : Adds (Dirs path) h h₁
  result : (r ≠ none ∧ h' = h₁) ∨ (r = none ∧ mount h₁ = .ok ((), h'))
  can : Calm fault → h.CanMake path.reverse →
    h₁.vfs.lookup path = .ok .dir ∧ ((∃ h', mount h₁ = .ok ((), h')) → r = none)
  cannot : Calm fault → ¬ h.CanMake path.reverse →
    h₁.vfs.lookup path ≠ .ok .dir ∧ r ≠ none

section Mount

variable {fault : Faults} {h h' : Host} {root : Path} {once : Bool}
  {E : Panic Fatal → Boot → Prop} {path : Path} {mount : Host → Except Errno (Unit × Host)}

theorem Host.CanMake.lookup (hcan : h.CanMake path.reverse) :
    h.vfs.lookup path = .ok .dir ∨ h.vfs.lookup path = .error .enoent := by
  cases hrev : path.reverse with
  | nil =>
    obtain rfl := List.reverse_eq_nil_iff.mp hrev
    exact Or.inl Vfs.lookup_nil
  | cons name up =>
    rw [hrev] at hcan
    have hpath : (name :: up).reverse = path := by rw [← hrev, List.reverse_reverse]
    rw [CanMake, hpath] at hcan
    exact hcan.imp id And.left

theorem Host.canMake_of_dir (hdir : h.vfs.lookup path = .ok .dir) : h.CanMake path.reverse := by
  cases hrev : path.reverse with
  | nil => trivial
  | cons name up =>
    have hpath : (name :: up).reverse = path := by rw [← hrev, List.reverse_reverse]
    rw [CanMake, hpath]
    exact Or.inl hdir

theorem mountPoint_spec : Triple (At h root once) (mountPoint fault path)
    (fun r b => ∃ h₁, At h₁ root once b ∧ Adds (Dirs path) h h₁ ∧
      (r = none → h₁.vfs.lookup path = .ok .dir) ∧
      (Calm fault → (r = none ↔ h.CanMake path.reverse) ∧
        (h₁.vfs.lookup path = .ok .dir → r = none))) E := by
  refine (ask_spec _).bind fun r => triple_and fun hr => ?_
  rcases hr with rfl | ⟨hcalm, code, rfl⟩
  · cases hl : h.vfs.lookup path with
    | error e =>
      rw [Host.stat, hl]
      rcases FileSystem.lookup_error_cases hl with rfl | rfl
      · refine (mkdirAllRev_spec path.reverse).bind fun r => triple_exists fun h₁ =>
          triple_and fun hdone => triple_pure fun b hb => ?_
        have hadds := hdone.adds
        have hdir := hdone.dir
        have hcalm := hdone.calm
        rw [List.reverse_reverse] at hadds hdir hcalm
        simp only [Option.map_eq_none_iff]
        exact ⟨h₁, hb, hadds, hdir, hcalm⟩
      · refine triple_pure fun b hb => ⟨h, hb, .refl h, fun h => absurd h (by simp), fun _ => ?_⟩
        rw [hl]
        refine ⟨iff_of_false (by simp) fun hcan => ?_, by simp⟩
        rcases hcan.lookup with hok | hok
        · exact absurd (hl.symm.trans hok) (by simp)
        · exact absurd (hl.symm.trans hok) (by simp)
    | ok n =>
      rw [Host.stat, hl]
      have hother : n ≠ .dir → ¬ h.CanMake path.reverse := by
        intro hn hcan
        rcases hcan.lookup with hok | hok
        · exact hn (Except.ok.inj (hl.symm.trans hok))
        · exact absurd (hl.symm.trans hok) (by simp)
      cases n with
      | dir =>
        refine triple_pure fun b hb => ⟨h, hb, .refl h, fun _ => hl, fun _ => ?_⟩
        exact ⟨iff_of_true rfl (Host.canMake_of_dir hl), fun _ => rfl⟩
      | file =>
        refine triple_pure fun b hb => ⟨h, hb, .refl h, fun h => absurd h (by simp), fun _ => ?_⟩
        exact ⟨iff_of_false (by simp) (hother (by simp)), by simp [hl]⟩
      | pin m =>
        refine triple_pure fun b hb => ⟨h, hb, .refl h, fun h => absurd h (by simp), fun _ => ?_⟩
        exact ⟨iff_of_false (by simp) (hother (by simp)), by simp [hl]⟩
  · exact triple_pure fun b hb => ⟨h, hb, .refl h, fun h => absurd h (by simp),
      fun hc => absurd hc hcalm⟩

theorem mountAt_spec : Triple (At h root once) (mountAt fault path mount)
    (fun r b => ∃ h₁ h', At h' root once b ∧ MountDone fault h path mount h₁ r h') E := by
  refine mountPoint_spec.bind fun r => triple_exists fun h₁ =>
    triple_and fun ⟨hadds, hdir, hcalm⟩ => ?_
  cases r with
  | some e =>
    refine triple_pure fun b hb => ⟨h₁, h₁, hb, hadds, Or.inl ⟨by simp, rfl⟩, ?_, ?_⟩
    · intro hc hcan
      exact absurd ((hcalm hc).1.mpr hcan) (by simp)
    · intro hc _
      exact ⟨fun hok => absurd ((hcalm hc).2 hok) (by simp), by simp⟩
  | none =>
    have hcannot : Calm fault → h.CanMake path.reverse := fun hc => (hcalm hc).1.mp rfl
    refine (syscall_spec _).bind fun r => ?_
    rintro b (⟨u, h', hmount, rfl, hb⟩ | ⟨e, rfl, he, hb⟩)
    · exact ⟨h₁, h', hb, hadds, Or.inr ⟨rfl, hmount⟩, fun _ _ => ⟨hdir rfl, fun _ => rfl⟩,
        fun hc hnot => absurd (hcannot hc) hnot⟩
    · refine ⟨h₁, h₁, hb, hadds, Or.inl ⟨by simp, rfl⟩, fun hc _ => ⟨hdir rfl, ?_⟩,
        fun hc hnot => absurd (hcannot hc) hnot⟩
      rintro ⟨h', hmount⟩
      rcases he with he | ⟨hnot, -⟩
      · exact absurd (he.symm.trans hmount) (by simp)
      · exact absurd hc hnot

end Mount

/-- The file system `fs` is mounted at `p`. -/
structure Mounted (p : Path) (fs : FileSystem BpfMap) (h h' : Host) : Prop where
  dir : h.vfs.lookup p = .ok .dir
  view_point : h'.vfs.view p = (fs.lookup [], fs.dev, fs.magic, fs.writable)
  below : ∀ q, h'.vfs.view (p ++ q) = (fs.lookup q, fs.dev, fs.magic, fs.writable)
  off : ∀ {q}, ¬ p <+: q → h'.vfs.view q = h.vfs.view q
  cgroup2 : h'.cgroup2 = h.cgroup2
  nextMap : h'.nextMap = h.nextMap

theorem Host.mount_eq_ok {h h' : Host} {p : Path} {fs : FileSystem BpfMap}
    {hdev : fs.dev ≤ h.vfs.fresh} (hmount : h.mount p fs hdev = .ok ((), h')) :
    Mounted p fs h h' := by
  obtain ⟨hdir, rfl⟩ : h.vfs.lookup p = .ok .dir ∧
      h' = h.withVfs (h.vfs.mount p fs hdev) (Nat.le_succ _) := by
    rw [Host.mount] at hmount
    split at hmount
    · exact absurd hmount (by simp)
    · next hdir =>
      split at hmount
      · exact absurd hmount (by simp)
      · exact ⟨hdir, (congrArg Prod.snd (Except.ok.inj hmount)).symm⟩
    · exact absurd hmount (by simp)
  exact {
    dir := hdir
    view_point := by
      have hview := Vfs.view_mount_append p [] hdev
      rwa [List.append_nil] at hview
    below := fun q => Vfs.view_mount_append p q hdev
    off := fun hq => Vfs.view_mount hdev hq
    cgroup2 := rfl
    nextMap := rfl }

/-! ### The cgroup file system -/

/-- A program can be attached at the path. -/
def Host.OnCgroup2 (h : Host) (p : Path) : Prop :=
  h.vfs.lookup p = .ok .dir ∧ h.magic p = cgroup2SuperMagic

/-- The path is on the cgroup file system, or can be made a mount point of it. -/
def Host.CgroupReady (h : Host) (p : Path) : Prop :=
  h.OnCgroup2 p ∨ h.Unmounted p ∧ h.CanMake p.reverse

/-- What `CheckOrMountCgrpFS` leaves behind. -/
structure CgroupStage (fault : Faults) (h : Host) (p : Path) (h' : Host) : Prop where
  effect : ∃ h₁, Adds (Dirs p) h h₁ ∧ (h' = h₁ ∨ h₁.mountCgroup2 p = .ok ((), h'))
  calm : Calm fault → (h'.OnCgroup2 p ↔ h.CgroupReady p)

section Cgroup

variable {fault : Faults} {h h' : Host} {root p : Path} {once : Bool}
  {E : Panic Fatal → Boot → Prop}

/-- The mount takes effect, or the file system is there already. -/
theorem onCgroup2_of_mount (hdir : h.vfs.lookup p = .ok .dir) :
    (∃ h', h.mountCgroup2 p = .ok ((), h')) ∨ h.OnCgroup2 p := by
  rw [Host.mountCgroup2, Host.mount, hdir]
  dsimp only
  split
  · next hbusy => exact Or.inr ⟨hdir, hbusy.2.2.trans h.magic_cgroup2⟩
  · exact Or.inl ⟨_, rfl⟩

theorem onCgroup2_mountCgroup2 (hmount : h.mountCgroup2 p = .ok ((), h')) : h'.OnCgroup2 p := by
  have hview := (Host.mount_eq_ok hmount).view_point
  constructor
  · exact (congrArg Prod.fst hview).trans (FileSystem.lookup_eq_ok_iff.mpr h.cgroup2.node_nil)
  · exact (congrArg (fun x => x.2.2.1) hview).trans h.magic_cgroup2

theorem cgroupStage_of_mountDone {h₁ : Host} {r : Option MountError} (hu : h.Unmounted p)
    (hdone : MountDone fault h p (·.mountCgroup2 p) h₁ r h') : CgroupStage fault h p h' where
  effect := by
    refine ⟨h₁, hdone.adds, ?_⟩
    rcases hdone.result with ⟨-, heq⟩ | ⟨-, hmount⟩
    · exact Or.inl heq
    · exact Or.inr hmount
  calm := by
    intro hc
    by_cases hcan : h.CanMake p.reverse
    · refine iff_of_true ?_ (Or.inr ⟨hu, hcan⟩)
      obtain ⟨hdir, hnone⟩ := hdone.can hc hcan
      rcases hdone.result with ⟨hr, rfl⟩ | ⟨-, hmount⟩
      · exact (onCgroup2_of_mount hdir).resolve_left fun hok => hr (hnone hok)
      · exact onCgroup2_mountCgroup2 hmount
    · obtain ⟨hdir, hr⟩ := hdone.cannot hc hcan
      obtain ⟨-, rfl⟩ := hdone.result.resolve_right fun hres => hr hres.1
      refine iff_of_false (fun hon => hdir hon.1) ?_
      rintro (hon | ⟨-, hcan'⟩)
      · exact hcan (Host.canMake_of_dir hon.1)
      · exact hcan hcan'

theorem cgrpCheckOrMountLocation_spec : Triple (At h root once)
    (cgrpCheckOrMountLocation fault p)
    (fun _ b => ∃ h', At h' p once b ∧ CgroupStage fault h p h') E := by
  refine (triple_modify (Q := fun _ => At h p once) ?_).bind fun _ => ?_
  · rintro b ⟨hhost, -, honce⟩
    exact ⟨hhost, rfl, honce⟩
  refine isMountFS_spec.bind fun r => triple_and fun hanswer => ?_
  -- nothing is done unless there is no mount
  have hskip : (Calm fault → ¬ h.Unmounted p) → CgroupStage fault h p h := by
    intro hnot
    refine ⟨⟨h, .refl h, Or.inl rfl⟩, fun hc => ⟨Or.inl, ?_⟩⟩
    rintro (hon | ⟨hu, -⟩)
    · exact hon
    · exact absurd hu (hnot hc)
  cases hanswer with
  | unmounted hu =>
    refine (triple_get (Q := fun b b' => At h p once b' ∧ b.cgroupRoot = p) ?_).bind fun b => ?_
    · exact fun b hb => ⟨hb, hb.cgroupRoot⟩
    refine triple_and fun hroot => ?_
    rw [hroot]
    refine mountAt_spec.post fun r b => ?_
    rintro ⟨h₁, h', hb, hdone⟩
    exact ⟨h', hb, cgroupStage_of_mountDone hu hdone⟩
  | mounted hm =>
    have hstage := hskip fun _ hu => h.not_mountPoint_of_unmounted hu hm
    cases h.magic p == cgroup2SuperMagic with
    | true => exact triple_pure fun b hb => ⟨h, hb, hstage⟩
    | false => exact triple_pure fun b hb => ⟨h, hb, hstage⟩
  | failed m i e hf =>
    exact triple_pure fun b hb => ⟨h, hb, hskip fun hc => (hf.resolve_left (not_not.mpr hc)).1⟩

/-- `CheckOrMountCgrpFS` without a path, the first time. -/
theorem checkOrMountCgrpFS_spec : Triple (At h root false) (checkOrMountCgrpFS fault none)
    (fun _ b => ∃ h', At h' root true b ∧ CgroupStage fault h root h') E := by
  refine (triple_get (Q := fun b b' => At h root false b' ∧ b' = b) ?_).bind fun b => ?_
  · exact fun b hb => ⟨hb, rfl⟩
  rintro b' ⟨hb, rfl⟩
  rw [if_neg (by rw [hb.cgrpMountOnce]; simp), Option.getD_none, hb.cgroupRoot]
  refine Triple.bind (P := At h root false) cgrpCheckOrMountLocation_spec (fun _ => ?_) b' hb
  refine triple_exists fun h' => triple_and fun hstage => triple_modify fun b hb => ?_
  exact ⟨h', ⟨hb.host, hb.cgroupRoot, rfl⟩, hstage⟩

end Cgroup

/-! ### The BPF file system -/

/-- Something else than the BPF file system is mounted where it should be. -/
def Host.Foreign (h : Host) : Prop := h.IsMountPoint bpffsRoot ∧ h.magic bpffsRoot ≠ bpfFsMagic

/-- What `CheckOrMountBtfFS` leaves behind. -/
inductive BpffsStage (fault : Faults) (h : Host) : Host → Prop
  /-- There was a mount, or the question failed. -/
  | skipped : (Calm fault → ¬ h.Unmounted bpffsRoot ∧ ¬ h.Foreign) → BpffsStage fault h h
  /-- There was none, and the mounting failed. -/
  | failed {h₁ : Host} : h.Unmounted bpffsRoot → Adds (Dirs bpffsRoot) h h₁ →
      (Calm fault → ¬ h.CanMake bpffsRoot.reverse ∧ h₁.vfs.lookup bpffsRoot ≠ .ok .dir) →
      BpffsStage fault h h₁
  /-- A new file system was mounted; the directory for the pins may have been made. -/
  | mounted {h₁ h₂ h' : Host} : h.Unmounted bpffsRoot → Adds (Dirs bpffsRoot) h h₁ →
      Mounted bpffsRoot (.empty h₁.vfs.fresh bpfFsMagic) h₁ h₂ → Adds (Dirs eProxyPath) h₂ h' →
      (Calm fault → h.CanMake bpffsRoot.reverse ∧ h'.vfs.lookup eProxyPath = .ok .dir) →
      BpffsStage fault h h'

section Bpffs

variable {fault : Faults} {h h' : Host} {root p : Path} {once : Bool}
  {E : Panic Fatal → Boot → Prop}

theorem exists_mountBpf (hdir : h.vfs.lookup p = .ok .dir) :
    ∃ h', h.mountBpf p = .ok ((), h') := by
  have hdev : (h.vfs.owner p).dev ≠ h.vfs.fresh := (h.vfs.dev_lt _).ne
  unfold Host.mountBpf Host.mount
  rw [hdir]
  dsimp only
  rw [if_neg fun hbusy => hdev hbusy.2.1]
  exact ⟨_, rfl⟩

/-- In a new file system the directory for the pins can be made. -/
theorem canMake_eProxyPath {dev : ℕ} (hm : Mounted bpffsRoot (.empty dev bpfFsMagic) h h') :
    h'.CanMake eProxyPath.reverse := by
  have hroot : h'.vfs.lookup bpffsRoot = .ok .dir := congrArg Prod.fst hm.view_point
  have hmissing : h'.vfs.lookup eProxyPath = .error .enoent :=
    congrArg Prod.fst (hm.below ["eproxy"])
  have hwritable : (h'.vfs.owner eProxyPath).writable = true :=
    congrArg (fun x => x.2.2.2) (hm.below ["eproxy"])
  exact Or.inr ⟨hmissing, hwritable, Or.inl hroot⟩

theorem mountFS_spec {printWarning : Bool} (hu : h.Unmounted bpffsRoot) :
    Triple (At h root once) (mountFS fault printWarning)
      (fun _ b => ∃ h', At h' root once b ∧ BpffsStage fault h h') E := by
  refine mountAt_spec.bind fun r => triple_exists fun h₁ => triple_exists fun h₂ =>
    triple_and fun hdone => ?_
  cases r with
  | some e =>
    obtain ⟨-, rfl⟩ := hdone.result.resolve_right fun hres => absurd hres.1 (by simp)
    refine triple_pure fun b hb => ⟨h₂, hb, .failed hu hdone.adds fun hc => ?_⟩
    have hcannot : ¬ h.CanMake bpffsRoot.reverse := by
      intro hcan
      obtain ⟨hdir, hnone⟩ := hdone.can hc hcan
      exact absurd (hnone (exists_mountBpf hdir)) (by simp)
    exact ⟨hcannot, (hdone.cannot hc hcannot).1⟩
  | none =>
    obtain ⟨-, hmount⟩ := hdone.result.resolve_left fun hres => hres.1 rfl
    have hmounted := Host.mount_eq_ok hmount
    refine (mkdirAllRev_spec eProxyPath.reverse).bind fun r => triple_exists fun h' =>
      triple_and fun hmk => triple_pure fun b hb => ?_
    have hadds := hmk.adds
    rw [List.reverse_reverse] at hadds
    refine ⟨h', hb, .mounted hu hdone.adds hmounted hadds fun hc => ⟨?_, ?_⟩⟩
    · by_contra hcannot
      exact (hdone.cannot hc hcannot).2 rfl
    · have hdir := hmk.dir ((hmk.calm hc).1.mpr (canMake_eProxyPath hmounted))
      rwa [List.reverse_reverse] at hdir

/-- The one way out is a mount of something else. -/
theorem checkOrMountDefaultLocations_spec :
    Triple (At h root once) (checkOrMountDefaultLocations fault)
      (fun _ b => ∃ h', At h' root once b ∧ BpffsStage fault h h')
      (fun p b => At h root once b ∧ h.Foreign ∧
        p = .logged (.differentFilesystem bpffsRootFallback)) := by
  refine isMountFS_spec.bind fun r => triple_and fun hanswer => ?_
  have hfailed : (¬ Calm fault ∨ ¬ h.Unmounted bpffsRoot ∧ ¬ h.IsMountPoint bpffsRoot) →
      BpffsStage fault h h := fun hf => .skipped fun hc =>
    have hnot := hf.resolve_left (not_not.mpr hc)
    ⟨hnot.1, fun hforeign => hnot.2 hforeign.1⟩
  cases hanswer with
  | unmounted hu => exact mountFS_spec hu
  | failed m i e hf => exact triple_pure fun b hb => ⟨h, hb, hfailed hf⟩
  | mounted hm =>
    have hnot : ¬ h.Unmounted bpffsRoot := fun hu => h.not_mountPoint_of_unmounted hu hm
    cases hmagic : h.magic bpffsRoot == bpfFsMagic with
    | true =>
      refine triple_pure fun b hb => ⟨h, hb, .skipped fun _ => ⟨hnot, fun hforeign => ?_⟩⟩
      exact hforeign.2 (by simpa using hmagic)
    | false =>
      -- the question is asked once more
      refine isMountFS_spec.bind fun r => triple_and fun hanswer => ?_
      cases hanswer with
      | unmounted hu => exact absurd hu hnot
      | failed m i e hf => exact triple_pure fun b hb => ⟨h, hb, hfailed hf⟩
      | mounted hm' =>
        rw [hmagic]
        exact triple_panic fun b hb => ⟨hb, ⟨hm, by simpa using hmagic⟩, rfl⟩

theorem checkOrMountBtfFS_spec :
    Triple (At h root once) (checkOrMountBtfFS fault)
      (fun _ b => ∃ h', At h' root once b ∧ BpffsStage fault h h')
      (fun p b => At h root once b ∧ h.Foreign ∧
        p = .logged (.differentFilesystem bpffsRootFallback)) :=
  checkOrMountDefaultLocations_spec.bind fun _ => triple_pure fun _ h => h

/-- Without failures, what is not the BPF file system ends the process. -/
theorem BpffsStage.not_foreign (hstage : BpffsStage fault h h') (hc : Calm fault) :
    ¬ h.Foreign := by
  cases hstage with
  | skipped hskip => exact (hskip hc).2
  | failed hu => exact fun hforeign => h.not_mountPoint_of_unmounted hu hforeign.1
  | mounted hu => exact fun hforeign => h.not_mountPoint_of_unmounted hu hforeign.1

end Bpffs

end EProxy
