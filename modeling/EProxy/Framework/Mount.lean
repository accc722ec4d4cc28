import Mathlib.Data.List.Infix
import Mathlib.Data.List.Nodup
import Mathlib.Logic.Function.Basic

/-!
# File systems and mount tables

A `FileSystem` is a tree of named nodes: directories, files and pinned objects of a type `ι`.
A `Vfs` is a mount table: a path belongs to the latest mount at one of its prefixes, so that a
mount hides whatever was at its point and below. Symbolic links and bind mounts are not part
of it.

* `Vfs.view` is what can be learned about a path: what is found there, and about the file
  system it is on;
* `Vfs.view_mount`, `Vfs.view_insert`: a mount and a new node do not change it for the paths
  that do not lead through them;
* `Vfs.lookup_insert_eq_ok_iff`: a new node takes nothing away and brings nothing else.
-/

namespace Framework

/-- A path from the root, component by component. -/
abbrev Path := List String

/-- The errors of system calls. -/
inductive Errno where
  | enoent
  | enotdir
  | eexist
  | eperm
  | eacces
  | ebusy
  | ebadf
  /-- Something else went wrong: input and output, memory, permissions, an interrupt. -/
  | other (code : ℕ)
  deriving DecidableEq

/-- What is found under a name. -/
inductive Node (ι : Type) where
  | dir
  | file
  | pin (object : ι)
  deriving DecidableEq

instance {ι : Type} (o : Option (Node ι)) : Decidable (o = some .dir) :=
  match o with
  | some .dir => .isTrue rfl
  | some .file | some (.pin _) | none => .isFalse (by simp)

/-- A file system; below its root every node is in a directory. -/
structure FileSystem (ι : Type) where
  /-- The number of the device it is on. -/
  dev : ℕ
  /-- The number by which its type is known. -/
  magic : ℕ
  /-- Directories can be made in it. -/
  writable : Bool
  node : Path → Option (Node ι)
  node_nil : node [] = some .dir
  dir_of_child : ∀ {p : Path} {name : String}, (node (p ++ [name])).isSome → node p = some .dir

namespace FileSystem

variable {ι : Type} (fs : FileSystem ι)

/-- A file system with nothing in it. -/
def empty (dev magic : ℕ) : FileSystem ι where
  dev := dev
  magic := magic
  writable := true
  node p := if p = [] then some .dir else none
  node_nil := if_pos rfl
  dir_of_child h := absurd h (by simp)

/-- Looking up a name: a path that leads through something else than a directory is told from
one that leads nowhere. -/
def lookup (p : Path) : Except Errno (Node ι) :=
  match fs.node p with
  | some n => .ok n
  | none =>
    if ∀ q ∈ p.inits, fs.node q = none ∨ fs.node q = some .dir then .error .enoent
    else .error .enotdir

/-- A node can be made here: nothing is there yet, and the directory is. -/
structure Vacant (p : Path) : Prop where
  ne_nil : p ≠ []
  none : fs.node p = none
  dir : fs.node p.dropLast = some .dir

instance (p : Path) : Decidable (fs.Vacant p) :=
  decidable_of_iff (p ≠ [] ∧ fs.node p = none ∧ fs.node p.dropLast = some .dir)
    ⟨fun ⟨h₁, h₂, h₃⟩ => ⟨h₁, h₂, h₃⟩, fun ⟨h₁, h₂, h₃⟩ => ⟨h₁, h₂, h₃⟩⟩

/-- One node more. -/
def insert (p : Path) (n : Node ι) (h : fs.Vacant p) : FileSystem ι where
  dev := fs.dev
  magic := fs.magic
  writable := fs.writable
  node := Function.update fs.node p (some n)
  node_nil := by
    rw [Function.update_of_ne h.ne_nil.symm]
    exact fs.node_nil
  dir_of_child {q c} hchild := by
    by_cases hqc : q ++ [c] = p
    · -- the new node itself
      subst hqc
      rw [Function.update_of_ne (by simp)]
      simpa using h.dir
    · rw [Function.update_of_ne hqc] at hchild
      have hq := fs.dir_of_child hchild
      rw [Function.update_of_ne, hq]
      rintro rfl
      exact absurd (hq.symm.trans h.none) (by simp)

variable {fs}

theorem lookup_eq_ok_iff {p : Path} {n : Node ι} : fs.lookup p = .ok n ↔ fs.node p = some n := by
  rw [lookup]
  cases hp : fs.node p with
  | some n' => simp
  | none =>
    dsimp only
    split <;> simp

/-- A name that is not there, with nothing but directories on the way. -/
theorem lookup_eq_enoent_iff {p : Path} : fs.lookup p = .error .enoent ↔
    fs.node p = none ∧ ∀ q, q <+: p → fs.node q = none ∨ fs.node q = some .dir := by
  rw [lookup]
  cases hp : fs.node p with
  | some n => simp
  | none =>
    simp only [true_and, List.mem_inits]
    split
    · next h => simpa using h
    · next h => simpa using h

theorem lookup_eq_enotdir_iff {p : Path} : fs.lookup p = .error .enotdir ↔
    fs.node p = none ∧ ∃ q, q <+: p ∧ fs.node q ≠ none ∧ fs.node q ≠ some .dir := by
  rw [lookup]
  cases hp : fs.node p with
  | some n => simp
  | none =>
    dsimp only
    simp only [true_and]
    split
    · next h =>
      simp only [Except.error.injEq, reduceCtorEq, false_iff]
      rintro ⟨q, hq, hnone, hdir⟩
      exact (h q ((List.mem_inits q p).mpr hq)).elim hnone hdir
    · next h =>
      simp only [true_iff]
      simpa only [not_forall, not_or, exists_prop, List.mem_inits] using h

/-- What is on the way to a node is a directory. -/
theorem dir_of_append {p q : Path} (h : (fs.node (p ++ q)).isSome) (hq : q ≠ []) :
    fs.node p = some .dir := by
  induction q using List.reverseRecOn with
  | nil => exact absurd rfl hq
  | append_singleton q name ih =>
    rw [← List.append_assoc] at h
    have hdir := fs.dir_of_child h
    by_cases hnil : q = []
    · rwa [hnil, List.append_nil] at hdir
    · exact ih (by rw [hdir]; rfl) hnil

/-- Something else than a directory on the way to a name is on the way to its directory, or is
its directory. -/
theorem lookup_dropLast_of_enotdir {p : Path} (h : fs.lookup p = .error .enotdir) :
    (∃ n, n ≠ .dir ∧ fs.lookup p.dropLast = .ok n) ∨
      fs.lookup p.dropLast = .error .enotdir := by
  obtain ⟨hp, q, hq, hbad⟩ := lookup_eq_enotdir_iff.mp h
  have hne : p ≠ [] := by
    rintro rfl
    exact absurd (hp.symm.trans fs.node_nil) (by simp)
  have hqp : q <+: p.dropLast := by
    obtain ⟨r, rfl⟩ := hq
    have hr : r ≠ [] := by
      rintro rfl
      rw [List.append_nil] at hp
      exact hbad.1 hp
    rw [List.dropLast_append_of_ne_nil hr]
    exact List.prefix_append ..
  cases hdir : fs.node p.dropLast with
  | none => exact Or.inr (lookup_eq_enotdir_iff.mpr ⟨hdir, q, hqp, hbad⟩)
  | some n =>
    refine Or.inl ⟨n, ?_, lookup_eq_ok_iff.mpr hdir⟩
    rintro rfl
    obtain ⟨r, hr⟩ := hqp
    by_cases hnil : r = []
    · rw [hnil, List.append_nil] at hr
      exact hbad.2 (hr ▸ hdir)
    · exact hbad.2 (dir_of_append (by rw [hr, hdir]; rfl) hnil)

theorem lookup_error_cases {p : Path} {e : Errno} (h : fs.lookup p = .error e) :
    e = .enoent ∨ e = .enotdir := by
  rw [lookup] at h
  split at h
  · exact absurd h (by simp)
  · split at h
    · exact Or.inl (Except.error.inj h).symm
    · exact Or.inr (Except.error.inj h).symm

/-- Looking up a name asks only for the nodes on the way. -/
theorem lookup_congr {fs' : FileSystem ι} {p : Path} (h : ∀ q, q <+: p → fs'.node q = fs.node q) :
    fs'.lookup p = fs.lookup p := by
  have hall : (∀ q ∈ p.inits, fs'.node q = none ∨ fs'.node q = some .dir) ↔
      ∀ q ∈ p.inits, fs.node q = none ∨ fs.node q = some .dir := by
    refine forall₂_congr fun q hq => ?_
    rw [h q ((List.mem_inits q p).mp hq)]
  rw [lookup, lookup, h p (List.prefix_refl p)]
  simp only [hall]

end FileSystem

/-! ### Mount tables -/

/-- A mount table. Mount `0` is the root, the others are at the points of the table, the latest
one first. -/
structure Vfs (ι : Type) where
  fs : ℕ → FileSystem ι
  points : List (Path × ℕ)
  /-- The next number, of a mount or of a device. -/
  fresh : ℕ
  nodup : (points.map Prod.snd).Nodup
  bounds : ∀ m ∈ points, 0 < m.2 ∧ m.2 < fresh
  dev_lt : ∀ i, (fs i).dev < fresh

namespace Vfs

variable {ι : Type} (v : Vfs ι)

/-- The mount a path belongs to, and the path from there. -/
def locate (p : Path) : ℕ × Path :=
  match v.points.find? fun m => m.1.isPrefixOf p with
  | some m => (m.2, p.drop m.1.length)
  | none => (0, p)

/-- The file system a path is on. -/
def owner (p : Path) : FileSystem ι := v.fs (v.locate p).1

/-- What is found at a path. -/
def lookup (p : Path) : Except Errno (Node ι) := (v.owner p).lookup (v.locate p).2

/-- All that can be learned about a path: what is found there, and the device, the type and the
mode of the file system. -/
def view (p : Path) : Except Errno (Node ι) × ℕ × ℕ × Bool :=
  (v.lookup p, (v.owner p).dev, (v.owner p).magic, (v.owner p).writable)

/-- A mount at a path, of a file system on an old device or on the next one. -/
def mount (p : Path) (fs : FileSystem ι) (hdev : fs.dev ≤ v.fresh) : Vfs ι where
  fs := Function.update v.fs v.fresh fs
  points := (p, v.fresh) :: v.points
  fresh := v.fresh + 1
  nodup := by
    rw [List.map_cons, List.nodup_cons]
    refine ⟨fun hmem => ?_, v.nodup⟩
    obtain ⟨m, hm, hfresh⟩ := List.mem_map.mp hmem
    exact absurd (v.bounds m hm).2 (by omega)
  bounds := by
    intro m hm
    rcases List.mem_cons.mp hm with rfl | hm
    · exact ⟨Nat.zero_lt_of_lt (v.dev_lt 0), Nat.lt_succ_self _⟩
    · exact ⟨(v.bounds m hm).1, Nat.lt_succ_of_lt (v.bounds m hm).2⟩
  dev_lt i := by
    by_cases hi : i = v.fresh
    · rw [hi, Function.update_self]
      exact Nat.lt_succ_of_le hdev
    · rw [Function.update_of_ne hi]
      exact Nat.lt_succ_of_lt (v.dev_lt i)

/-- A new node at a path. -/
def insert (p : Path) (n : Node ι) (h : (v.owner p).Vacant (v.locate p).2) : Vfs ι :=
  { v with
    fs := Function.update v.fs (v.locate p).1 ((v.owner p).insert (v.locate p).2 n h)
    dev_lt := fun i => by
      by_cases hi : i = (v.locate p).1
      · rw [hi, Function.update_self]
        exact v.dev_lt _
      · rw [Function.update_of_ne hi]
        exact v.dev_lt i }

/-- Making a node at a path. -/
def create (p : Path) (n : Node ι) : Except Errno (Vfs ι) :=
  match v.lookup p with
  | .ok _ => .error .eexist
  | .error e => if h : (v.owner p).Vacant (v.locate p).2 then .ok (v.insert p n h) else .error e

variable {v}

/-! ### Where a path belongs -/

/-- The mount of a path, at a point that is a prefix of it. -/
theorem exists_point (p : Path) : ∃ pt, p = pt ++ (v.locate p).2 ∧
    ((pt, (v.locate p).1) ∈ v.points ∨ pt = [] ∧ (v.locate p).1 = 0) := by
  rw [locate]
  cases hfind : v.points.find? fun m => m.1.isPrefixOf p with
  | none => exact ⟨[], rfl, Or.inr ⟨rfl, rfl⟩⟩
  | some m =>
    have hpre : m.1 <+: p := by
      simpa using List.find?_some hfind
    refine ⟨m.1, ?_, Or.inl (List.mem_of_find?_eq_some hfind)⟩
    obtain ⟨r, rfl⟩ := hpre
    dsimp only
    rw [List.drop_left]

theorem locate_lt (p : Path) : (v.locate p).1 < v.fresh := by
  obtain ⟨pt, -, hmem | ⟨-, hzero⟩⟩ := v.exists_point p
  · exact (v.bounds _ hmem).2
  · rw [hzero]
    exact Nat.zero_lt_of_lt (v.dev_lt 0)

/-- Two paths of one mount start at one point. -/
theorem exists_common_point {p q : Path} (h : (v.locate p).1 = (v.locate q).1) :
    ∃ pt, p = pt ++ (v.locate p).2 ∧ q = pt ++ (v.locate q).2 := by
  obtain ⟨pt, hp, hmem⟩ := v.exists_point p
  obtain ⟨pt', hq, hmem'⟩ := v.exists_point q
  suffices hpt : pt = pt' by
    exact ⟨pt, hp, hpt ▸ hq⟩
  rw [← h] at hmem'
  rcases hmem with hmem | ⟨rfl, hzero⟩
  · rcases hmem' with hmem' | ⟨-, hzero'⟩
    · exact congrArg Prod.fst (List.inj_on_of_nodup_map v.nodup hmem hmem' rfl)
    · exact absurd hzero' (v.bounds _ hmem).1.ne'
  · rcases hmem' with hmem' | ⟨hnil, -⟩
    · exact absurd hzero (v.bounds _ hmem').1.ne'
    · exact hnil.symm

/-- Unless a path is a mount point, it is on the mount of its directory. -/
theorem locate_dropLast {p : Path} (h : (v.locate p).2 ≠ []) :
    v.locate p.dropLast = ((v.locate p).1, (v.locate p).2.dropLast) := by
  have hup : ∀ {pt : Path}, pt <+: p.dropLast → pt <+: p := fun h =>
    h.trans ( List.dropLast_prefix p)
  unfold locate at h ⊢
  cases hfind : v.points.find? fun m => m.1.isPrefixOf p with
  | none =>
    have hnone : v.points.find? (fun m => m.1.isPrefixOf p.dropLast) = none := by
      rw [List.find?_eq_none] at hfind ⊢
      intro m hm hpt
      exact hfind m hm (by simpa using hup (by simpa using hpt))
    rw [hnone]
  | some m =>
    rw [hfind] at h
    obtain ⟨hm, before, after, hpoints, hbefore⟩ := List.find?_eq_some_iff_append.mp hfind
    obtain ⟨r, rfl⟩ : m.1 <+: p := by simpa using hm
    have hr : r ≠ [] := by simpa using h
    -- the point is not the path itself, so it is a prefix of the directory as well
    have hsome : v.points.find? (fun m' => m'.1.isPrefixOf (m.1 ++ r).dropLast) = some m := by
      refine List.find?_eq_some_iff_append.mpr ⟨?_, before, after, hpoints, fun m' hm' => ?_⟩
      · simp [List.dropLast_append_of_ne_nil hr]
      · have hnot := hbefore m' hm'
        simp only [Bool.not_eq_eq_eq_not, Bool.not_true, Bool.eq_false_iff, ne_eq,
          List.isPrefixOf_iff_prefix] at hnot ⊢
        exact fun hpt => hnot (hup hpt)
    rw [hsome]
    dsimp only
    rw [List.dropLast_append_of_ne_nil hr, List.drop_left, List.drop_left]

theorem owner_dropLast {p : Path} (h : (v.locate p).2 ≠ []) : v.owner p.dropLast = v.owner p := by
  rw [owner, locate_dropLast h]
  rfl

theorem locate_mount (p q : Path) (fs : FileSystem ι) (hdev : fs.dev ≤ v.fresh) :
    (v.mount p fs hdev).locate q =
      if p <+: q then (v.fresh, q.drop p.length) else v.locate q := by
  unfold locate
  change (match List.find? _ ((p, v.fresh) :: v.points) with
    | some m => (m.2, q.drop m.1.length)
    | none => (0, q)) = _
  by_cases h : p <+: q
  · rw [if_pos h, List.find?_cons_of_pos (by simpa using h)]
  · rw [if_neg h, List.find?_cons_of_neg (by simpa using h)]

/-! ### What mounts and new nodes change -/

/-- **A mount** changes nothing for the paths that do not lead through it. -/
theorem view_mount {p q : Path} {fs : FileSystem ι} (hdev : fs.dev ≤ v.fresh)
    (h : ¬ p <+: q) : (v.mount p fs hdev).view q = v.view q := by
  have hlocate : (v.mount p fs hdev).locate q = v.locate q := by
    rw [locate_mount, if_neg h]
  have howner : (v.mount p fs hdev).owner q = v.owner q := by
    rw [owner, hlocate]
    exact Function.update_of_ne (v.locate_lt q).ne ..
  rw [view, lookup, howner, hlocate]
  rfl

/-- Below the point of a mount there is the file system that is mounted. -/
theorem locate_mount_append (p q : Path) {fs : FileSystem ι} (hdev : fs.dev ≤ v.fresh) :
    (v.mount p fs hdev).locate (p ++ q) = (v.fresh, q) := by
  rw [locate_mount, if_pos (List.prefix_append p q), List.drop_left]

theorem owner_mount_append (p q : Path) {fs : FileSystem ι} (hdev : fs.dev ≤ v.fresh) :
    (v.mount p fs hdev).owner (p ++ q) = fs := by
  rw [owner, locate_mount_append]
  exact Function.update_self ..

theorem view_mount_append (p q : Path) {fs : FileSystem ι} (hdev : fs.dev ≤ v.fresh) :
    (v.mount p fs hdev).view (p ++ q) = (fs.lookup q, fs.dev, fs.magic, fs.writable) := by
  rw [view, lookup, owner_mount_append, locate_mount_append]

section Insert

variable {p q : Path} {n n' : Node ι} {h : (v.owner p).Vacant (v.locate p).2}

theorem owner_insert_of_ne (hne : (v.locate q).1 ≠ (v.locate p).1) :
    (v.insert p n h).owner q = v.owner q :=
  Function.update_of_ne hne ..

theorem owner_insert_of_eq (heq : (v.locate q).1 = (v.locate p).1) :
    (v.insert p n h).owner q = (v.owner p).insert (v.locate p).2 n h := by
  change Function.update v.fs (v.locate p).1 _ (v.locate q).1 = _
  rw [heq, Function.update_self]

theorem device_insert : ((v.insert p n h).owner q).dev = (v.owner q).dev ∧
    ((v.insert p n h).owner q).magic = (v.owner q).magic ∧
    ((v.insert p n h).owner q).writable = (v.owner q).writable := by
  by_cases heq : (v.locate q).1 = (v.locate p).1
  · have howner : v.owner q = v.owner p := congrArg v.fs heq
    rw [owner_insert_of_eq heq, howner]
    exact ⟨rfl, rfl, rfl⟩
  · rw [owner_insert_of_ne heq]
    exact ⟨rfl, rfl, rfl⟩

/-- **A new node** changes nothing for the paths that do not lead through it. -/
theorem view_insert (hpq : ¬ p <+: q) : (v.insert p n h).view q = v.view q := by
  have hlookup : (v.insert p n h).lookup q = v.lookup q := by
    by_cases heq : (v.locate q).1 = (v.locate p).1
    · have howner : v.owner q = v.owner p := congrArg v.fs heq
      rw [lookup, owner_insert_of_eq heq, lookup, howner]
      refine FileSystem.lookup_congr fun r hr => Function.update_of_ne ?_ ..
      rintro rfl
      -- the node would be on the way
      obtain ⟨pt, hq, hp⟩ := exists_common_point heq
      refine hpq ?_
      rw [hp, hq]
      exact (List.prefix_append_right_inj pt).mpr hr
    · rw [lookup, owner_insert_of_ne heq]
      rfl
  rw [view, hlookup, device_insert.1, device_insert.2.1, device_insert.2.2]
  rfl

/-- **What is found** afterwards is what was found before, and the new node. -/
theorem lookup_insert_eq_ok_iff : (v.insert p n h).lookup q = .ok n' ↔
    v.lookup q = .ok n' ∨ q = p ∧ n' = n := by
  by_cases heq : (v.locate q).1 = (v.locate p).1
  · have howner : v.owner q = v.owner p := congrArg v.fs heq
    have hpath : (v.locate q).2 = (v.locate p).2 ↔ q = p := by
      obtain ⟨pt, hq, hp⟩ := exists_common_point heq
      constructor
      · intro hloc
        rw [hq, hp, hloc]
      · rintro rfl
        rfl
    rw [lookup, owner_insert_of_eq heq, lookup, howner, FileSystem.lookup_eq_ok_iff,
      FileSystem.lookup_eq_ok_iff]
    change Function.update (v.owner p).node (v.locate p).2 (some n) (v.locate q).2 = _ ↔ _
    by_cases hqp : q = p
    · subst hqp
      rw [Function.update_self, h.none]
      simp [eq_comm]
    · rw [Function.update_of_ne (mt hpath.mp hqp)]
      simp [hqp]
  · have hqp : q ≠ p := by
      rintro rfl
      exact heq rfl
    rw [lookup, owner_insert_of_ne heq]
    simp only [hqp, false_and, or_false]
    rfl

end Insert

/-! ### Making nodes -/

theorem create_eq_ok_iff {p : Path} {n : Node ι} {v' : Vfs ι} :
    v.create p n = .ok v' ↔ ∃ h, v' = v.insert p n h := by
  rw [create]
  cases hl : v.lookup p with
  | ok n' =>
    have hp := FileSystem.lookup_eq_ok_iff.mp hl
    simp only [reduceCtorEq, false_iff, not_exists]
    intro h
    exact absurd (hp.symm.trans h.none) (by simp)
  | error e =>
    dsimp only
    split
    · next h => simp [h, eq_comm]
    · next h => simp [h]

theorem lookup_of_locate_nil {p : Path} (h : (v.locate p).2 = []) : v.lookup p = .ok .dir := by
  rw [lookup, h, FileSystem.lookup_eq_ok_iff]
  exact (v.owner p).node_nil

theorem lookup_nil : v.lookup [] = .ok .dir := by
  refine lookup_of_locate_nil ?_
  obtain ⟨pt, hpt, -⟩ := v.exists_point []
  exact (List.append_eq_nil_iff.mp hpt.symm).2

theorem vacant_of_lookup {p : Path} {e : Errno} (hdir : v.lookup p.dropLast = .ok .dir)
    (hp : v.lookup p = .error e) : (v.owner p).Vacant (v.locate p).2 := by
  have hne : (v.locate p).2 ≠ [] := fun hnil =>
    absurd ((lookup_of_locate_nil hnil).symm.trans hp) (by simp)
  refine ⟨hne, ?_, ?_⟩
  · cases hnode : (v.owner p).node (v.locate p).2 with
    | none => rfl
    | some n => exact absurd ((FileSystem.lookup_eq_ok_iff.mpr hnode).symm.trans hp) (by simp)
  · rw [lookup, owner, locate_dropLast hne, FileSystem.lookup_eq_ok_iff] at hdir
    exact hdir

/-- What is found below the point of a mount is found in a directory. -/
theorem lookup_dropLast_of_ok {p : Path} {n : Node ι} (hne : (v.locate p).2 ≠ [])
    (h : v.lookup p = .ok n) : v.lookup p.dropLast = .ok .dir := by
  rw [lookup, owner_dropLast hne, locate_dropLast hne, FileSystem.lookup_eq_ok_iff]
  have hchild :
      ((v.owner p).node ((v.locate p).2.dropLast ++ [(v.locate p).2.getLast hne])).isSome := by
    rw [List.dropLast_append_getLast, FileSystem.lookup_eq_ok_iff.mp h]
    rfl
  exact (v.owner p).dir_of_child hchild

/-- Something else than a directory on the way to a path. -/
theorem lookup_dropLast_of_enotdir {p : Path} (h : v.lookup p = .error .enotdir) :
    (∃ n, n ≠ .dir ∧ v.lookup p.dropLast = .ok n) ∨ v.lookup p.dropLast = .error .enotdir := by
  have hne : (v.locate p).2 ≠ [] := fun hnil =>
    absurd ((lookup_of_locate_nil hnil).symm.trans h) (by simp)
  rw [lookup, owner, locate_dropLast hne]
  exact FileSystem.lookup_dropLast_of_enotdir h

end Vfs

end Framework
