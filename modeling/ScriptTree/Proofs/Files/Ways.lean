import ScriptTree.Proofs.Files.Overwriting

/-!
The two ways to write an output file side by side. Where there is room for a temporary file
and the text can be encoded, they end alike: with the same error or none, and with the same
regular files. A text that cannot be encoded is refused both ways; the atomic way leaves every
file as it was, while the plain way has opened the target by then and leaves it empty.
-/

namespace ScriptTree.Files

variable {fs fs' : Files} {target temporary : Path} {content : Text} {bytes : Bytes}

/-- Beside the target there is room for a temporary file: neither its name nor its path is
too long. -/
def HasRoom (target : Path) : Prop :=
  target.name.nameSize + temporarySize ≤ longestName ∧
    target.text.nameSize + temporarySize ≤ longestPath

theorem checkTemporary_eq (h : HasRoom target) : checkTemporary target = target.check := by
  obtain ⟨hname, hpath⟩ := h
  unfold checkTemporary
  cases target.check with
  | error e => rfl
  | ok _ =>
    rw [ok_bind, if_neg (by omega)]
    rfl

theorem HasRoom.fitsName (h : HasRoom target) : target.name.fitsName = true := by
  obtain ⟨hname, -⟩ := h
  rw [Text.fitsName, decide_eq_true_iff]
  omega

theorem checkTarget_eq (h : HasRoom target) : checkTarget target = target.check := by
  unfold checkTarget
  cases target.check with
  | error e => rfl
  | ok _ =>
    rw [ok_bind, h.fitsName]
    rfl

/-! ### Texts that can be encoded -/

def SameWritten (a b : Written) : Prop := a.1 = b.1 ∧ ∀ q, Files.entry? a.2 q = Files.entry? b.2 q

theorem SameWritten.refl (a : Written) : SameWritten a a := ⟨rfl, fun _ => rfl⟩

theorem writeThrough_same (hfresh : fs.entry? temporary = none)
    (hbytes : content.toUtf8? = some bytes) (target : Path) :
    SameWritten (fs.writeThrough temporary target content .none) (fs.overwrite target content) := by
  by_cases hthere : fs.entry? target = some .directory
  · rw [writeThrough_directory hfresh hthere rfl hbytes, overwrite_directory hthere]
    exact ⟨rfl, entry?_erase_set hfresh _⟩
  · have hcheck : Check.none content = .ok () := rfl
    obtain ⟨after, heq, hholds⟩ := writeThrough_encodable hfresh hthere hcheck hbytes
    rw [heq, overwrite_encodable hthere hbytes]
    exact ⟨rfl, fun q => (hholds q).trans (entry?_set (ne_root hthere)).symm⟩

/-! ### The two ways -/

/-- The plain way once it is known that the target may be written: a directory is made for
it and it is opened. -/
def writeOpened (fs : Files) (target : Path) (content : Text) : Written :=
  match fs.makeDirectory target.parent with
  | (.error e, fs) => (.error e, fs)
  | (.ok (), fs) => fs.overwriteWith target content

theorem writePlain_eq (fs : Files) (target : Path) (content : Text) (force : Bool) :
    fs.writePlain target content force .none =
      match fs.isThere target with
      | .error e => (.error (.unnameable e), fs)
      | .ok there =>
        if there && !force then (.error (.exists target), fs)
        else fs.writeOpened target content := rfl

theorem write_same (hroom : HasRoom target) (hbytes : content.toUtf8? = some bytes) (fs : Files) :
    SameWritten (fs.write target content .none) (fs.writeOpened target content) := by
  unfold write writeOpened
  rcases fs.makeDirectory target.parent with ⟨_ | _, made⟩
  · exact .refl _
  · simp only [overwriteWith, checkTemporary_eq hroom, checkTarget_eq hroom]
    cases target.check with
    | error e => exact .refl _
    | ok _ => exact writeThrough_same (entry?_temporaryPath made target) hbytes target

/-- Where it cannot be told whether the target exists, a name above it is too long, so no
directory can be made for it. -/
theorem makeDirectory_of_isThere (hroom : HasRoom target) {e : NameError}
    (h : fs.isThere target = .error e) :
    e = .tooLong ∧ (fs.makeDirectory target.parent).1 = .error (.unnameable .tooLong) := by
  obtain ⟨rfl, hlong | ⟨hcheck, hfind⟩⟩ := isThere_eq_error h
  · have hlt := lt_nameSize_of_checkText hlong
    have hpath := hroom.2
    omega
  have hroot : target ≠ [] := by
    rintro rfl
    cases hfind
  have habove : fs.find target.parent = .tooLong := by
    rw [eq_parent_name hroot, find_concat] at hfind
    have hfits := hroom.fitsName
    unfold Found.next foundAt at hfind
    split at hfind
    · rw [if_pos hfits] at hfind
      split at hfind <;> cases hfind
    · cases hfind
    · exact hfind
  have hnames : target.parent.all Text.fitsName = false :=
    Bool.eq_false_iff.mpr fun hall => find_ne_tooLong hall habove
  rw [makeDirectory, check_parent hcheck, habove]
  simp [hnames]

theorem makeDirectory_target (fs : Files) (target : Path) :
    Files.entry? (fs.makeDirectory target.parent).2 target = fs.entry? target := by
  by_cases hroot : target = []
  · subst hroot
    rfl
  · refine entry?_makeDirectory fs fun h => ?_
    have hlength := h.length_le
    have hpos := List.length_pos_iff.mpr hroot
    rw [Path.parent, List.length_dropLast] at hlength
    omega

/-- A directory that could be made for the target is not what keeps one from finding it. -/
theorem write_of_isThere (hroom : HasRoom target) {e : NameError}
    (h : fs.isThere target = .error e) (content : Text) (check : Check) :
    (fs.write target content check).1 = .error (.unnameable e) ∧
      fs.SameFiles (fs.write target content check).2 := by
  obtain ⟨rfl, hmade⟩ := makeDirectory_of_isThere hroom h
  have hsame := sameFiles_makeDirectory fs target.parent
  unfold write
  rcases hdirectory : fs.makeDirectory target.parent with ⟨_ | _, made⟩
  · rw [hdirectory] at hmade hsame
    exact ⟨hmade, hsame⟩
  · rw [hdirectory] at hmade
    cases hmade

/-! ### Texts that cannot be encoded -/

theorem write_unencodable (hbytes : content.toUtf8? = none) (fs : Files) (target : Path)
    (check : Check) :
    (∃ e, (fs.write target content check).1 = .error e) ∧
      fs.SameFiles (fs.write target content check).2 := by
  have hatomic := isAtomic_write fs target content check
  rcases hwrite : fs.write target content check with ⟨e | _, after⟩
  · rw [hwrite] at hatomic
    exact ⟨⟨e, rfl⟩, hatomic⟩
  · rw [hwrite] at hatomic
    obtain ⟨bytes, hsome, -⟩ := hatomic
    rw [hbytes] at hsome
    cases hsome

/-- What the plain way leaves of a text that cannot be encoded: an empty target if it is opened,
and otherwise the files that were there. -/
structure LeavesEmpty (fs : Files) (target : Path) (written : Written) : Prop where
  failure : ∃ e, written.1 = .error e
  opened : written.1 = .error .unencodable →
    SameFilesBut target fs written.2 ∧ Files.entry? written.2 target = some (.file [])
  closed : written.1 ≠ .error .unencodable → fs.SameFiles written.2

theorem LeavesEmpty.of_closed {e : WriteError} (h : fs.SameFiles fs') (he : e ≠ .unencodable) :
    LeavesEmpty fs target (.error e, fs') :=
  ⟨⟨e, rfl⟩, fun heq => absurd (Except.error.inj heq) he, fun _ => h⟩

theorem makeDirectory_ne_unencodable (fs : Files) (p : Path) :
    (fs.makeDirectory p).1 ≠ .error .unencodable := by
  unfold makeDirectory
  split
  · simp
  · split
    · simp
    · simp
    · simp
    all_goals split <;> simp

theorem writeOpened_unencodable (hbytes : content.toUtf8? = none) (fs : Files) (target : Path) :
    LeavesEmpty fs target (fs.writeOpened target content) := by
  have hsame := sameFiles_makeDirectory fs target.parent
  have hencodable := makeDirectory_ne_unencodable fs target.parent
  unfold writeOpened
  generalize fs.makeDirectory target.parent = result at hsame hencodable ⊢
  obtain ⟨e | _, made⟩ := result
  · exact .of_closed hsame (by simpa using hencodable)
  simp only [overwriteWith]
  cases checkTarget target with
  | error e => exact .of_closed hsame (by simp)
  | ok _ =>
    by_cases hthere : made.entry? target = some .directory
    · simp only [overwrite_directory hthere]
      exact .of_closed hsame (by simp)
    · simp only [overwrite_unencodable hthere hbytes]
      have hroot := ne_root hthere
      refine ⟨⟨_, rfl⟩, fun _ => ⟨fun p hp bytes => ?_, ?_⟩, fun h => absurd rfl h⟩
      · rw [entry?_set hroot, if_neg hp]
        exact hsame p bytes
      · rw [entry?_set hroot, if_pos rfl]

/-- Unless the target is a directory, both ways refuse the text for the same reason. -/
theorem error_unencodable (hroom : HasRoom target) (hbytes : content.toUtf8? = none)
    (hthere : fs.entry? target ≠ some .directory) :
    (fs.write target content .none).1 = (fs.writeOpened target content).1 := by
  rw [← makeDirectory_target fs target] at hthere
  unfold write writeOpened
  generalize fs.makeDirectory target.parent = result at hthere ⊢
  obtain ⟨e | _, made⟩ := result
  · rfl
  simp only [overwriteWith, checkTemporary_eq hroom, checkTarget_eq hroom]
  cases target.check with
  | error e => rfl
  | ok _ => simp only [writeThrough, hbytes, overwrite_unencodable hthere hbytes]

/-! ### Both -/

/-- An outcome of the atomic way and one of the plain way agree on a text: either both succeed
or both fail, for the same reason unless the target is the root, and the regular files are the
same. So the plain way, too, writes the whole text or changes no file. -/
structure Agrees (fs : Files) (target : Path) (content : Text) (atomic plain : Written) :
    Prop where
  success : atomic.1 = .ok () ↔ plain.1 = .ok ()
  error : target ≠ [] → atomic.1 = plain.1
  files : atomic.2.SameFiles plain.2
  whole : fs.IsAtomic target content plain

theorem IsAtomic.congr {a b : Written} (h : fs.IsAtomic target content a)
    (hsuccess : a.1 = .ok () ↔ b.1 = .ok ()) (hfiles : a.2.SameFiles b.2) :
    fs.IsAtomic target content b := by
  obtain ⟨_ | ⟨⟩, made⟩ := a
  · obtain ⟨_ | ⟨⟩, made'⟩ := b
    · exact h.trans hfiles
    · cases hsuccess.mpr rfl
  · obtain ⟨_ | ⟨⟩, made'⟩ := b
    · cases hsuccess.mp rfl
    · obtain ⟨bytes, hbytes, htarget, hbut⟩ := h
      exact ⟨bytes, hbytes, (hfiles target bytes).mpr htarget, fun p hp bytes =>
        (hfiles p bytes).trans (hbut p hp bytes)⟩

theorem Agrees.of_atomic {atomic plain : Written} (h : fs.IsAtomic target content atomic)
    (hsuccess : atomic.1 = .ok () ↔ plain.1 = .ok ()) (herror : target ≠ [] → atomic.1 = plain.1)
    (hfiles : atomic.2.SameFiles plain.2) : Agrees fs target content atomic plain :=
  ⟨hsuccess, herror, hfiles, h.congr hsuccess hfiles⟩

/-- Both ways refuse a text that cannot be encoded, for the same reason unless the target is a
directory. The atomic way changes no file. The plain way leaves a target empty that it opens. -/
structure Refuses (fs : Files) (target : Path) (atomic plain : Written) : Prop where
  failure : ∃ e, atomic.1 = .error e
  error : fs.entry? target ≠ some .directory → atomic.1 = plain.1
  files : fs.SameFiles atomic.2
  plain : LeavesEmpty fs target plain

def unchecked (force atomic : Bool) : OutputPlan where
  force := force
  atomic := atomic

/-- Either the target is not to be written, as both ways find out before they change a file, or
both make a directory for it and go on. -/
theorem output_cases (hroom : HasRoom target) (fs : Files) (content : Text) (force : Bool) :
    (∃ e after, fs.output (unchecked force true) target content = (.error e, after) ∧
      fs.output (unchecked force false) target content = (.error e, fs) ∧ fs.SameFiles after ∧
      e ≠ .unencodable) ∨
    fs.output (unchecked force true) target content = fs.write target content .none ∧
      fs.output (unchecked force false) target content = fs.writeOpened target content := by
  have hplain : fs.output (unchecked force false) target content = _ :=
    writePlain_eq fs target content force
  cases hthere : fs.isThere target with
  | error e =>
    rw [hthere] at hplain
    cases force with
    | true =>
      obtain ⟨herror, hsame⟩ := write_of_isThere hroom hthere content .none
      exact .inl ⟨_, _, Prod.ext herror rfl, hplain, hsame, nofun⟩
    | false =>
      refine .inl ⟨_, fs, ?_, hplain, .refl fs, nofun⟩
      show fs.writeNew target content .none = _
      rw [writeNew, hthere]
  | ok there =>
    rw [hthere] at hplain
    cases force with
    | true => exact .inr ⟨rfl, by simpa using hplain⟩
    | false =>
      have hnew : fs.output (unchecked false true) target content =
        fs.writeNew target content .none := rfl
      rw [writeNew, hthere] at hnew
      cases there with
      | true => exact .inl ⟨_, fs, hnew, hplain, .refl fs, nofun⟩
      | false => exact .inr ⟨hnew, hplain⟩

/-- With room for a temporary file, the two ways agree on every text that can be encoded, and
both refuse every other one. -/
theorem output_ways (fs : Files) (target : Path) (content : Text) (force : Bool)
    (hroom : HasRoom target) :
    (content.isEncodable = true → Agrees fs target content
      (fs.output (unchecked force true) target content)
      (fs.output (unchecked force false) target content)) ∧
    (content.isEncodable = false → Refuses fs target
      (fs.output (unchecked force true) target content)
      (fs.output (unchecked force false) target content)) := by
  have hwhole : fs.IsAtomic target content (fs.output (unchecked force true) target content) :=
    isAtomic_output rfl fs target content
  obtain ⟨e, after, hatomic, hplain, hsame, hencodable⟩ | ⟨hatomic, hplain⟩ :=
    output_cases hroom fs content force
  · rw [hatomic] at hwhole
    rw [hatomic, hplain]
    exact ⟨fun _ => .of_atomic hwhole (by simp) (fun _ => rfl) fun p bytes => (hsame p bytes).symm,
      fun _ => ⟨⟨e, rfl⟩, fun _ => rfl, hsame, .of_closed (.refl fs) hencodable⟩⟩
  · rw [hatomic] at hwhole
    rw [hatomic, hplain]
    constructor
    · intro hencodable
      obtain ⟨herror, hentries⟩ := write_same hroom (if_pos hencodable) fs
      exact .of_atomic hwhole (by rw [herror]) (fun _ => herror) fun p bytes => by rw [hentries p]
    · intro hencodable
      have hbytes : content.toUtf8? = none := if_neg (by simp [hencodable])
      obtain ⟨hfailure, hsame⟩ := write_unencodable hbytes fs target .none
      exact ⟨hfailure, error_unencodable hroom hbytes, hsame,
        writeOpened_unencodable hbytes fs target⟩

def shelf : Files := ⟨[([Text.ofString "out"], .file [0x6F])]⟩

def lone : Text := [⟨0xD800, by decide⟩]

def longName : Text := Text.repeated "x" 250

/-- A text goes both ways into a file that is there, and one that cannot be encoded neither. -/
theorem output_ways_shelf :
    HasRoom [Text.ofString "out"] ∧
    Agrees shelf [Text.ofString "out"] (Text.ofString "new")
      (shelf.output (unchecked true true) ["out"] (Text.ofString "new"))
      (shelf.output (unchecked true false) ["out"] (Text.ofString "new")) ∧
    Refuses shelf [Text.ofString "out"] (shelf.output (unchecked true true) ["out"] lone)
      (shelf.output (unchecked true false) ["out"] lone) := by
  have hroom : HasRoom [Text.ofString "out"] := by
    unfold HasRoom
    decide
  exact ⟨hroom, (output_ways shelf ["out"] "new" true hroom).1 (by decide),
    (output_ways shelf ["out"] lone true hroom).2 (by decide)⟩

def cabinet : Files := ⟨[([Text.ofString "out"], .directory)]⟩

/-- A failed write of the plain way does change a file, which the atomic way leaves as it was,
the two ways refuse a directory for different reasons, and the plain way succeeds where there is
no room for a temporary file. -/
theorem not_output_same :
    (shelf.output (unchecked true false) ["out"] lone).1 = .error .unencodable ∧
    ¬shelf.SameFiles (shelf.output (unchecked true false) ["out"] lone).2 ∧
    ¬Files.SameFiles (shelf.output (unchecked true true) ["out"] lone).2
      (shelf.output (unchecked true false) ["out"] lone).2 ∧
    (cabinet.output (unchecked true true) ["out"] lone).1 = .error .unencodable ∧
    (cabinet.output (unchecked true false) ["out"] lone).1 = .error .isADirectory ∧
    (shelf.output (unchecked true false) [longName] (Text.ofString "new")).1 = .ok () ∧
    (shelf.output (unchecked true true) [longName] (Text.ofString "new")).1 =
      .error (.unnameable .tooLong) := by
  have hplain : Files.entry? (shelf.output (unchecked true false) ["out"] lone).2 ["out"] =
      some (.file []) := by decide
  have hatomic : Files.entry? (shelf.output (unchecked true true) ["out"] lone).2 ["out"] =
      some (.file [0x6F]) := by decide
  refine ⟨by decide, fun h => ?_, fun h => ?_, by decide, by decide, by decide +kernel,
    by decide +kernel⟩
  · have hkept := (h ["out"] [0x6F]).mpr (by decide)
    rw [hplain] at hkept
    cases hkept
  · have hkept := (h ["out"] [0x6F]).mpr hatomic
    rw [hplain] at hkept
    cases hkept

end ScriptTree.Files
