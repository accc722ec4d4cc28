import Mathlib.Data.List.Forall2
import EProxy.Framework.Split
import EProxy.Mountinfo.Strconv

/-!
# `pkg/mountinfo`: the parser of mount tables

`parseMountInfoFile` reads a table line by line. A line is cut at `" - "` first, and has to
fall into two parts; the parts are cut at blanks. `Entry` is the grammar this amounts to, in
terms of the fields of a line alone, and `parseMountInfoFile_ok_iff` says that the parser
accepts exactly the tables whose lines are entries.

The kernel prints a line in the same way (`MountInfo.render`), but it does not keep `-` out of
the fields. `parseMountInfoFile_render_iff` says which tables survive being printed and parsed:
those where no field is `-`, except that the type of a filesystem and its options may be. One
mount with the source `-` makes the whole table unreadable.
-/

namespace EProxy

open Framework Strconv

namespace Mountinfo

/-! ### The parser -/

/-- `MountInfo`. -/
structure MountInfo where
  mountID : ℤ
  parentID : ℤ
  stDev : Bytes
  root : Bytes
  mountPoint : Bytes
  mountOptions : Bytes
  optionalFields : List Bytes
  filesystemType : Bytes
  mountSource : Bytes
  superOptions : Bytes
  deriving DecidableEq

/-- What can go wrong; `ε` are the errors of the file system. -/
inductive ParseError (ε : Type) where
  /-- `fmt.Errorf` with the line as its argument. -/
  | errorf (format : String) (mountInfoRaw : Bytes)
  /-- The error of `strconv.ParseInt`. -/
  | parseInt (err : NumError)
  /-- `bufio.ErrTooLong`. -/
  | tooLong
  | read (err : ε)
  /-- `fmt.Errorf` with the path and the error of `os.Open`. -/
  | openFailed (format path : String) (err : ε)
  deriving DecidableEq

/-- A file that is read to its end, or up to an error. The end is reported by a read of its
own, as files do. -/
structure Reader (ε : Type) where
  content : Bytes
  err : Option ε := none

/-- `' '`, `'-'`, `'\n'` and `'\r'`. -/
def space : UInt8 := 32

def dash : UInt8 := 45

def newline : UInt8 := 10

def carriageReturn : UInt8 := 13

/-- The field `"-"`. -/
def hyphen : Bytes := [dash]

/-- `" - "`. -/
def separator : Bytes := [space, dash, space]

/-- `bufio.MaxScanTokenSize`. -/
def maxScanTokenSize : ℕ := 64 * 1024

/-- The lines of a text, still with their carriage returns. What follows the last newline is a
line if it is not empty. -/
def rawLines (content : Bytes) : List Bytes :=
  let pieces := content.splitOn newline
  if pieces.getLast? = some [] then pieces.dropLast else pieces

/-- `dropCR` of `bufio.ScanLines`. -/
def dropCR (line : Bytes) : Bytes :=
  if line.getLast? = some carriageReturn then line.dropLast else line

/-- The tokens of the scanner, and whether it stopped at a line that fills its buffer. -/
def scanLines : List Bytes → List Bytes × Bool
  | [] => ([], false)
  | line :: rest =>
    if maxScanTokenSize ≤ line.length then ([], true)
    else (dropCR line :: (scanLines rest).1, (scanLines rest).2)

variable {ε : Type}

/-- The body of the loop, after both sides are cut into fields. -/
def parseFields (mountInfoRaw : Bytes) (mountInfoLeft mountInfoRight : List Bytes) :
    Except (ParseError ε) MountInfo :=
  match mountInfoLeft with
  | f₀ :: f₁ :: f₂ :: f₃ :: f₄ :: f₅ :: optionalFields =>
    match mountInfoRight with
    | [g₀, g₁, g₂] =>
      match parseInt f₀ with
      | .error err => .error (.parseInt err)
      | .ok mountID =>
        match parseInt f₁ with
        | .error err => .error (.parseInt err)
        | .ok parentID => .ok ⟨mountID, parentID, f₂, f₃, f₄, f₅, optionalFields, g₀, g₁, g₂⟩
    | _ => .error (.errorf "invalid mountinfo entry: %s" mountInfoRaw)
  | _ => .error (.errorf "invalid mountinfo entry: %s" mountInfoRaw)

/-- The body of the loop. -/
def parseEntry (mountInfoRaw : Bytes) : Except (ParseError ε) MountInfo :=
  match splitSeq separator mountInfoRaw with
  | [left, right] => parseFields mountInfoRaw (left.splitOn space) (right.splitOn space)
  | _ => .error
      (.errorf "invalid mountinfo entry which has more that one '-' separator: %s" mountInfoRaw)

/-- The loop over the tokens. -/
def parseLoop (result : List MountInfo) : List Bytes → Except (ParseError ε) (List MountInfo)
  | [] => .ok result
  | mountInfoRaw :: rest =>
    match parseEntry mountInfoRaw with
    | .error err => .error err
    | .ok info => parseLoop (result ++ [info]) rest

/-- `scanner.Err`. -/
def Reader.scanErr (r : Reader ε) : Option (ParseError ε) :=
  if (scanLines (rawLines r.content)).2 then some .tooLong else r.err.map .read

/-- `parseMountInfoFile`. -/
def parseMountInfoFile (r : Reader ε) : Except (ParseError ε) (List MountInfo) :=
  match parseLoop [] (scanLines (rawLines r.content)).1 with
  | .error err => .error err
  | .ok result =>
    match r.scanErr with
    | some err => .error err
    | none => .ok result

/-- `mountInfoFilepath`. -/
def mountInfoFilepath : String := "/proc/self/mountinfo"

/-- `GetMountInfo`, with what `os.Open` returns for the path. -/
def getMountInfo (file : String → Except ε (Reader ε)) : Except (ParseError ε) (List MountInfo) :=
  match file mountInfoFilepath with
  | .error err => .error
      (.openFailed "failed to open mount information at %s: %s" mountInfoFilepath err)
  | .ok fMounts => parseMountInfoFile fMounts

/-! ### The grammar -/

/-- The texts between the two numbers and the separator. -/
def MountInfo.texts (info : MountInfo) : List Bytes :=
  info.stDev :: info.root :: info.mountPoint :: info.mountOptions :: info.optionalFields

/-- The fields after the separator. -/
def MountInfo.right (info : MountInfo) : List Bytes :=
  [info.filesystemType, info.mountSource, info.superOptions]

/-- The line with the given numerals for the two numbers. -/
def MountInfo.line (info : MountInfo) (id parent : Bytes) : Bytes :=
  [space].intercalate (id :: parent :: info.texts ++ hyphen :: info.right)

/-- No field can be taken for the separator. -/
structure Unambiguous (info : MountInfo) : Prop where
  left : hyphen ∉ info.texts
  source : info.mountSource ≠ hyphen

/-- The line is the entry `info`. -/
structure Entry (line : Bytes) (info : MountInfo) : Prop where
  spaceFree : ∀ f ∈ info.texts ++ info.right, space ∉ f
  unambiguous : Unambiguous info
  spelled : ∃ id parent, line = info.line id parent ∧
    (Numeral id info.mountID ∧ InRange info.mountID) ∧
    (Numeral parent info.parentID ∧ InRange info.parentID)

/-- A numeral is one field, and not the separator. -/
theorem numeral_field {s : Bytes} {z : ℤ} (h : Numeral s z) : space ∉ s ∧ s ≠ hyphen := by
  refine ⟨h.not_mem (by decide) (by decide) (by decide), ?_⟩
  rintro rfl
  exact not_numeral_minus h

/-- **Where the separator is found**: between `left` and `right` when `-` is no field of
`left` but the first, and is not in the middle of `right`. -/
theorem splitSeq_separator_iff {left right : List Bytes} (hl : left ≠ [])
    (hr : right ≠ []) (hls : ∀ f ∈ left, space ∉ f) (hrs : ∀ f ∈ right, space ∉ f) :
    splitSeq separator ([space].intercalate left ++ separator ++ [space].intercalate right) =
        [[space].intercalate left, [space].intercalate right] ↔
      hyphen ∉ left.tail ∧ ¬ ∃ a b, a ≠ [] ∧ b ≠ [] ∧ right = a ++ hyphen :: b := by
  have hfield : space ∉ hyphen := by decide
  have hinner := bracketed_infix_intercalate_append_iff hl hls hfield
  have hright := bracketed_infix_intercalate_iff hr hrs hfield
  rw [splitSeq_eq_pair_iff (by decide), ← hinner, ← hright]
  exact and_iff_right rfl

theorem parseFields_eq_ok_iff {raw : Bytes} {left right : List Bytes} {info : MountInfo} :
    (parseFields raw left right : Except (ParseError ε) MountInfo) = .ok info ↔
      ∃ id parent, left = id :: parent :: info.texts ∧ right = info.right ∧
        parseInt id = .ok info.mountID ∧ parseInt parent = .ok info.parentID := by
  constructor
  · intro h
    unfold parseFields at h
    split at h
    · split at h
      · split at h
        · exact absurd h (by simp)
        · next hid =>
          split at h
          · exact absurd h (by simp)
          · next hparent =>
            obtain rfl := Except.ok.inj h
            exact ⟨_, _, rfl, rfl, hid, hparent⟩
      · exact absurd h (by simp)
    · exact absurd h (by simp)
  · rintro ⟨id, parent, rfl, rfl, hid, hparent⟩
    simp only [parseFields, MountInfo.texts, MountInfo.right, hid, hparent]

/-- The line, taken apart at the separator. -/
theorem line_eq (info : MountInfo) (id parent : Bytes) :
    info.line id parent = [space].intercalate (id :: parent :: info.texts) ++ separator ++
      [space].intercalate info.right := by
  have hright : [space].intercalate (hyphen :: info.right) =
      hyphen ++ [space] ++ [space].intercalate info.right :=
    List.intercalate_cons_of_ne_nil (by simp [MountInfo.right])
  rw [MountInfo.line, intercalate_append (by simp) (by simp), hright]
  simp [separator, hyphen]

/-- `-` is in the middle of the three last fields exactly if it is the source. -/
theorem hyphen_inside_right_iff (info : MountInfo) :
    (∃ a b, a ≠ [] ∧ b ≠ [] ∧ info.right = a ++ hyphen :: b) ↔ info.mountSource = hyphen := by
  constructor
  · rintro ⟨a, b, ha, hb, heq⟩
    obtain ⟨f, a, rfl⟩ := List.exists_cons_of_ne_nil ha
    obtain ⟨g, b, rfl⟩ := List.exists_cons_of_ne_nil hb
    have hlen := congrArg List.length heq
    simp only [MountInfo.right, List.length_append, List.length_cons, List.length_nil] at hlen
    obtain rfl : a = [] := List.eq_nil_of_length_eq_zero (by omega)
    exact (List.cons.inj (List.cons.inj heq).2).1
  · intro hsource
    refine ⟨[info.filesystemType], [info.superOptions], by simp, by simp, ?_⟩
    rw [MountInfo.right, hsource]
    rfl

/-- **What the parser takes for an entry.** -/
theorem parseEntry_eq_ok_iff {line : Bytes} {info : MountInfo} :
    (parseEntry line : Except (ParseError ε) MountInfo) = .ok info ↔ Entry line info := by
  constructor
  · intro h
    unfold parseEntry at h
    split at h
    · next left right hsplit =>
      obtain ⟨id, parent, hleft, hright, hid, hparent⟩ := parseFields_eq_ok_iff.mp h
      -- both sides are the fields with blanks between them again
      have hls : ∀ f ∈ id :: parent :: info.texts, space ∉ f := fun f hf =>
        not_mem_of_mem_splitOn (hleft ▸ hf)
      have hrs : ∀ f ∈ info.right, space ∉ f := fun f hf => not_mem_of_mem_splitOn (hright ▸ hf)
      have hl : left = [space].intercalate (id :: parent :: info.texts) := by
        rw [← hleft, List.intercalate_splitOn]
      have hr : right = [space].intercalate info.right := by
        rw [← hright, List.intercalate_splitOn]
      have hline : line = info.line id parent := by
        rw [line_eq, ← hl, ← hr]
        exact ((splitSeq_eq_pair_iff (by decide)).mp hsplit).1
      rw [hline, line_eq, hl, hr, splitSeq_separator_iff (by simp) (by simp [MountInfo.right]) hls
        hrs, hyphen_inside_right_iff] at hsplit
      refine ⟨fun f hf => ?_, ⟨fun hmem => hsplit.1 ?_, hsplit.2⟩, id, parent, hline,
        (parseInt_eq_ok_iff _ _).mp hid, (parseInt_eq_ok_iff _ _).mp hparent⟩
      · rcases List.mem_append.mp hf with hf | hf
        · exact hls f (List.mem_cons_of_mem _ (List.mem_cons_of_mem _ hf))
        · exact hrs f hf
      · exact List.mem_cons_of_mem _ hmem
    · exact absurd h (by simp)
  · rintro ⟨hspace, hun, id, parent, rfl, hid, hparent⟩
    have hls : ∀ f ∈ id :: parent :: info.texts, space ∉ f := by
      intro f hf
      simp only [List.mem_cons] at hf
      rcases hf with rfl | rfl | hf
      · exact (numeral_field hid.1).1
      · exact (numeral_field hparent.1).1
      · exact hspace f (List.mem_append_left _ hf)
    have hrs : ∀ f ∈ info.right, space ∉ f := fun f hf => hspace f (List.mem_append_right _ hf)
    have htail : hyphen ∉ (id :: parent :: info.texts).tail := by
      rw [List.tail_cons, List.mem_cons, not_or]
      exact ⟨(numeral_field hparent.1).2.symm, hun.left⟩
    have hsplit := (splitSeq_separator_iff (by simp) (by simp [MountInfo.right]) hls hrs).mpr
      ⟨htail, (hyphen_inside_right_iff info).not.mpr hun.source⟩
    rw [parseEntry, line_eq, hsplit]
    simp only
    rw [List.splitOn_intercalate space hls (by simp),
      List.splitOn_intercalate space hrs (by simp [MountInfo.right])]
    exact parseFields_eq_ok_iff.mpr ⟨id, parent, rfl, rfl, (parseInt_eq_ok_iff _ _).mpr hid,
      (parseInt_eq_ok_iff _ _).mpr hparent⟩

/-! ### Tables -/

/-- The loop accepts line by line. -/
theorem parseLoop_eq_ok_iff {lines : List Bytes} {result infos : List MountInfo} :
    (parseLoop result lines : Except (ParseError ε) (List MountInfo)) = .ok infos ↔
      ∃ more, infos = result ++ more ∧ List.Forall₂ Entry lines more := by
  induction lines generalizing result with
  | nil =>
    constructor
    · intro h
      exact ⟨[], by rw [← Except.ok.inj h, List.append_nil], .nil⟩
    · rintro ⟨more, rfl, hmore⟩
      cases hmore with
      | nil => rw [parseLoop, List.append_nil]
  | cons line rest ih =>
    rw [parseLoop]
    split
    · next err herr =>
      refine iff_of_false (by simp) ?_
      rintro ⟨more, -, hmore⟩
      cases hmore with
      | cons hentry _ =>
        exact absurd (herr.symm.trans (parseEntry_eq_ok_iff.mpr hentry)) (by simp)
    · next info hinfo =>
      rw [ih]
      constructor
      · rintro ⟨more, rfl, hmore⟩
        exact ⟨info :: more, by simp, .cons (parseEntry_eq_ok_iff.mp hinfo) hmore⟩
      · rintro ⟨more, rfl, hmore⟩
        cases hmore with
        | @cons _ info' _ more hentry hmore =>
          obtain rfl : info = info' :=
            Except.ok.inj (hinfo.symm.trans (parseEntry_eq_ok_iff.mpr hentry))
          exact ⟨more, by simp, hmore⟩

/-- The scanner gets through exactly if no line fills its buffer. -/
theorem scanLines_complete_iff (lines : List Bytes) :
    (scanLines lines).2 = false ↔ ∀ line ∈ lines, line.length < maxScanTokenSize := by
  induction lines with
  | nil => simp [scanLines]
  | cons line rest ih =>
    rw [scanLines, List.forall_mem_cons]
    split
    · next hlong => exact iff_of_false (by simp) fun h => absurd h.1 (Nat.not_lt.mpr hlong)
    · next hshort => exact ih.trans (and_iff_right (Nat.lt_of_not_le hshort)).symm

theorem scanLines_of_short {lines : List Bytes}
    (h : ∀ line ∈ lines, line.length < maxScanTokenSize) :
    (scanLines lines).1 = lines.map dropCR := by
  induction lines with
  | nil => rfl
  | cons line rest ih =>
    obtain ⟨hline, hrest⟩ := List.forall_mem_cons.mp h
    rw [scanLines, if_neg (Nat.not_le.mpr hline), ih hrest, List.map_cons]

/-- **What the parser accepts**: files read to their end, all of whose lines fit into the
buffer of the scanner and are entries. -/
theorem parseMountInfoFile_ok_iff (r : Reader ε) (infos : List MountInfo) :
    parseMountInfoFile r = .ok infos ↔
      r.err = none ∧ (∀ line ∈ rawLines r.content, line.length < maxScanTokenSize) ∧
      List.Forall₂ Entry ((rawLines r.content).map dropCR) infos := by
  have hloop : ∀ {lines : List Bytes} {found : List MountInfo},
      (parseLoop [] lines : Except (ParseError ε) (List MountInfo)) = .ok found ↔
        List.Forall₂ Entry lines found := by
    intro lines found
    rw [parseLoop_eq_ok_iff]
    simp only [List.nil_append, exists_eq_left']
  have herr : r.scanErr = none ↔
      r.err = none ∧ ∀ line ∈ rawLines r.content, line.length < maxScanTokenSize := by
    rw [← scanLines_complete_iff, Reader.scanErr]
    cases (scanLines (rawLines r.content)).2 with
    | true => simp
    | false => simp
  constructor
  · intro h
    unfold parseMountInfoFile at h
    split at h
    · exact absurd h (by simp)
    · next found hfound =>
      split at h
      · exact absurd h (by simp)
      · next hnone =>
        obtain ⟨hread, hshort⟩ := herr.mp hnone
        obtain rfl := Except.ok.inj h
        rw [scanLines_of_short hshort] at hfound
        exact ⟨hread, hshort, hloop.mp hfound⟩
  · rintro ⟨hread, hshort, hentries⟩
    rw [parseMountInfoFile, scanLines_of_short hshort, hloop.mpr hentries,
      herr.mpr ⟨hread, hshort⟩]

/-- **What `GetMountInfo` accepts.** For every file, whatever its bytes are and however reading
it ends: `GetMountInfo` returns `infos` exactly if the file opens and is read to its end, every
line is shorter than the buffer of the scanner, and the lines, without their carriage returns,
are the entries `infos` in order: numerals of two `int64`, the other fields of the record
separated by single blanks, at least four of them before a single `-` and three after it, no
field before it being `-` itself, nor the source. -/
theorem getMountInfo_ok_iff (file : String → Except ε (Reader ε)) (infos : List MountInfo) :
    getMountInfo file = .ok infos ↔
      ∃ r, file mountInfoFilepath = .ok r ∧ r.err = none ∧
        (∀ line ∈ rawLines r.content, line.length < maxScanTokenSize) ∧
        List.Forall₂ Entry ((rawLines r.content).map dropCR) infos := by
  rw [getMountInfo]
  cases hfile : file mountInfoFilepath with
  | error err =>
    refine iff_of_false (by simp) ?_
    rintro ⟨r, hr, -⟩
    exact absurd hr (by simp)
  | ok r =>
    simp only [Except.ok.injEq, exists_eq_left']
    exact parseMountInfoFile_ok_iff r infos

/-! ### Printing and parsing -/

/-- The line of a mount as the kernel prints it. -/
def MountInfo.render (info : MountInfo) : Bytes :=
  info.line (formatInt info.mountID) (formatInt info.parentID)

/-- A table as the kernel prints it. -/
def renderAll (infos : List MountInfo) : Bytes :=
  (infos.map MountInfo.render).flatMap fun line => line ++ [newline]

/-- What the kernel can print: it escapes blanks and newlines in the fields. It does not escape
carriage returns, so the last one is ruled out here. -/
structure Printable (info : MountInfo) : Prop where
  ids : InRange info.mountID ∧ InRange info.parentID
  texts : ∀ f ∈ info.texts ++ info.right, space ∉ f ∧ newline ∉ f
  noCR : info.render.getLast? ≠ some carriageReturn
  short : info.render.length < maxScanTokenSize

theorem Printable.newline_not_mem {info : MountInfo} (h : Printable info) :
    newline ∉ info.render := by
  have hid : ∀ z, newline ∉ formatInt z := fun z =>
    (numeral_formatInt z).not_mem (by decide) (by decide) (by decide)
  refine not_mem_intercalate (by decide) ?_
  intro f hf
  simp only [List.cons_append, List.mem_cons, List.mem_append] at hf
  rcases hf with rfl | rfl | hf | rfl | hf
  · exact hid _
  · exact hid _
  · exact (h.texts f (List.mem_append_left _ hf)).2
  · decide
  · exact (h.texts f (List.mem_append_right _ hf)).2

theorem rawLines_renderAll {infos : List MountInfo} (h : ∀ info ∈ infos, Printable info) :
    rawLines (renderAll infos) = infos.map MountInfo.render := by
  have hlines : ∀ line ∈ infos.map MountInfo.render ++ [[]], newline ∉ line := by
    intro line hline
    rcases List.mem_append.mp hline with hline | hline
    · obtain ⟨info, hinfo, rfl⟩ := List.mem_map.mp hline
      exact (h info hinfo).newline_not_mem
    · rw [List.mem_singleton.mp hline]
      exact List.not_mem_nil
  rw [rawLines, renderAll, ← intercalate_concat_nil,
    List.splitOn_intercalate newline hlines (by simp)]
  simp

/-- A printed line is an entry unless a field can be taken for the separator. -/
theorem Printable.entry_iff {info : MountInfo} (h : Printable info) :
    Entry info.render info ↔ Unambiguous info := by
  constructor
  · intro hentry
    exact hentry.unambiguous
  · intro hun
    exact ⟨fun f hf => (h.texts f hf).1, hun, _, _, rfl,
      ⟨numeral_formatInt _, h.ids.1⟩, ⟨numeral_formatInt _, h.ids.2⟩⟩

/-- **Which tables survive printing and parsing.** For every table with numbers of an `int64`,
fields free of blanks and newlines, and lines that fit into the buffer of the scanner and do not
end in a carriage return, which the scanner would take off: parsing what is printed returns the
table if and only if no mount has the source `-`, or a field before the separator that is `-`. -/
theorem parseMountInfoFile_render_iff (infos : List MountInfo)
    (h : ∀ info ∈ infos, Printable info) :
    parseMountInfoFile (⟨renderAll infos, none⟩ : Reader ε) = .ok infos ↔
      ∀ info ∈ infos, Unambiguous info := by
  have hcr : ∀ info ∈ infos, dropCR info.render = info.render := fun info hinfo =>
    if_neg (h info hinfo).noCR
  have hshort : ∀ line ∈ infos.map MountInfo.render, line.length < maxScanTokenSize := by
    intro line hline
    obtain ⟨info, hinfo, rfl⟩ := List.mem_map.mp hline
    exact (h info hinfo).short
  rw [parseMountInfoFile_ok_iff, rawLines_renderAll h, List.map_map]
  refine (and_iff_right rfl).trans ((and_iff_right hshort).trans ?_)
  rw [List.forall₂_map_left_iff, List.forall₂_same]
  refine forall₂_congr fun info hinfo => ?_
  rw [Function.comp_apply, hcr info hinfo]
  exact (h info hinfo).entry_iff

/-- The bytes of a text in ASCII. -/
def ascii (text : String) : Bytes := text.toList.map fun c => UInt8.ofNat c.toNat

/-- The root of a host. -/
def rootMount : MountInfo :=
  ⟨22, 1, ascii "8:1", ascii "/", ascii "/", ascii "rw,relatime", [ascii "shared:1"],
    ascii "ext4", ascii "/dev/sda1", ascii "rw"⟩

/-- A temporary file system that was mounted with the source `-`. -/
def scratchMount : MountInfo :=
  ⟨36, 22, ascii "0:41", ascii "/", ascii "/mnt", ascii "rw", [], ascii "tmpfs", ascii "-",
    ascii "rw"⟩

theorem printable_rootMount : Printable rootMount :=
  ⟨⟨⟨by decide, by decide⟩, by decide, by decide⟩, by decide, by decide, by decide⟩

theorem printable_scratchMount : Printable scratchMount :=
  ⟨⟨⟨by decide, by decide⟩, by decide, by decide⟩, by decide, by decide, by decide⟩

/-- The table with the root alone survives, the one with both mounts does not. -/
theorem parseMountInfoFile_render_root :
    parseMountInfoFile (⟨renderAll [rootMount], none⟩ : Reader Unit) = .ok [rootMount] ∧
      parseMountInfoFile (⟨renderAll [rootMount, scratchMount], none⟩ : Reader Unit) ≠
        .ok [rootMount, scratchMount] := by
  constructor
  · refine (parseMountInfoFile_render_iff [rootMount] ?_).mpr ?_
    · exact List.forall_mem_singleton.mpr printable_rootMount
    · exact List.forall_mem_singleton.mpr ⟨by decide, by decide⟩
  · intro h
    have hall := (parseMountInfoFile_render_iff [rootMount, scratchMount]
      (List.forall_mem_cons.mpr ⟨printable_rootMount,
        List.forall_mem_singleton.mpr printable_scratchMount⟩)).mp h
    exact (hall scratchMount (by simp)).source rfl

end Mountinfo

end EProxy
