import Mathlib.Data.List.Basic
import ScriptTree.Files.Output

/-!
What writing an output file does to the files. Directories may be made on the way, and a temporary
file stands beside the target for a while, under a name that nothing else has. The atomic way
leaves every regular file as it was if it fails, and every one but the target if it does not.
-/

namespace ScriptTree.Files

variable {fs fs' fs'' : Files} {p q target : Path} {e : Entry}

/-! ### Entries -/

theorem lookup?_filter (entries : List (Path × Entry)) (p q : Path) :
    lookup? (entries.filter fun (path, _) => path ≠ p) q =
      if q = p then none else lookup? entries q := by
  induction entries with
  | nil => simp [lookup?]
  | cons first rest ih =>
    obtain ⟨path, entry⟩ := first
    by_cases hpath : path = p
    · subst hpath
      by_cases hq : q = path
      · simpa [hq] using ih
      · simpa [lookup?, hq, Ne.symm hq] using ih
    · by_cases hq : path = q
      · subst hq
        simp [lookup?, hpath]
      · simpa [lookup?, hpath, hq] using ih

theorem entry?_erase (hp : p ≠ []) :
    Files.entry? (fs.erase p) q = if q = p then none else fs.entry? q := by
  by_cases hq : q = []
  · simp [ entry?, hq, Ne.symm hp]
  · rw [ entry?, entry?, if_neg hq, if_neg hq, erase, lookup?_filter]

theorem entry?_set (hp : p ≠ []) :
    Files.entry? (fs.set p e) q = if q = p then some e else fs.entry? q := by
  by_cases hq : q = p
  · subst hq
    simp [ entry?, set, lookup?, hp]
  · have herase : Files.entry? (fs.erase p) q = _ := entry?_erase hp
    rw [if_neg hq] at herase ⊢
    rw [← herase]
    simp [ entry?, set, lookup?, Ne.symm hq]

def SameFiles (fs fs' : Files) : Prop :=
  ∀ p bytes, fs'.entry? p = some (.file bytes) ↔ fs.entry? p = some (.file bytes)

def SameFilesBut (target : Path) (fs fs' : Files) : Prop :=
  ∀ p, p ≠ target → ∀ bytes, fs'.entry? p = some (.file bytes) ↔ fs.entry? p = some (.file bytes)

theorem SameFiles.refl (fs : Files) : fs.SameFiles fs := fun _ _ => .rfl

theorem SameFiles.trans (h : fs.SameFiles fs') (h' : fs'.SameFiles fs'') : fs.SameFiles fs'' :=
  fun p bytes => (h' p bytes).trans (h p bytes)

theorem SameFiles.but (h : fs.SameFiles fs') (h' : SameFilesBut target fs' fs'') :
    SameFilesBut target fs fs'' :=
  fun p hp bytes => (h' p hp bytes).trans (h p bytes)

/-! ### Directories -/

theorem sameFiles_directory (h : fs.entry? p = none) : fs.SameFiles (fs.set p .directory) := by
  have hp : p ≠ [] := by
    rintro rfl
    cases h
  intro q bytes
  rw [entry?_set hp]
  by_cases hq : q = p
  · simp [hq, h]
  · simp [hq]

theorem sameFiles_addDirectories (fs : Files) (p : Path) : fs.SameFiles (fs.addDirectories p) := by
  unfold addDirectories
  induction ancestry p generalizing fs with
  | nil => exact .refl fs
  | cons first rest ih =>
    rw [List.foldl_cons]
    split
    · next hnone => exact (sameFiles_directory (Option.isNone_iff_eq_none.mp hnone)).trans (ih _)
    · exact ih fs

theorem sameFiles_makeDirectory (fs : Files) (p : Path) : fs.SameFiles (fs.makeDirectory p).2 := by
  unfold makeDirectory
  repeat' split
  all_goals first | exact .refl fs | exact sameFiles_addDirectories fs _

/-! ### The temporary file -/

theorem le_foldl_max (numbers : List Nat) (bound : Nat) :
    bound ≤ numbers.foldl max bound ∧ ∀ n ∈ numbers, n ≤ numbers.foldl max bound := by
  induction numbers generalizing bound with
  | nil => simp
  | cons first rest ih =>
    obtain ⟨hbound, hrest⟩ := ih (max bound first)
    rw [List.foldl_cons]
    refine ⟨by omega, ?_⟩
    rintro n (_ | ⟨_, hn⟩)
    · omega
    · exact hrest n hn

theorem length_le_nameLength {name : Text} (h : name ∈ p) : name.length ≤ nameLength p :=
  (le_foldl_max _ 0).2 _ (List.mem_map_of_mem h)

theorem nameLength_le_longest (h : (p, e) ∈ fs.entries) :
    nameLength p ≤ (fs.entries.map fun (path, _) => nameLength path).foldl max 0 :=
  (le_foldl_max _ 0).2 _ (List.mem_map.mpr ⟨(p, e), h, rfl⟩)

theorem lt_length_temporaryName (fs : Files) (target : Path) :
    (fs.entries.map fun (path, _) => nameLength path).foldl max 0 <
      (fs.temporaryName target).length := by
  have hunit : (Text.ofString "x").length = 1 := rfl
  simp [temporaryName, Text.join, Text.repeated, hunit]
  omega

theorem lookup?_eq_none {entries : List (Path × Entry)} (h : ∀ e, (p, e) ∉ entries) :
    lookup? entries p = none := by
  induction entries with
  | nil => rfl
  | cons first rest ih =>
    obtain ⟨path, entry⟩ := first
    have hpath : path ≠ p := by
      rintro rfl
      exact h entry List.mem_cons_self
    rw [lookup?, if_neg hpath]
    exact ih fun e he => h e (List.mem_cons_of_mem _ he)

/-- Nothing stands at the path of a temporary file. -/
theorem entry?_temporaryPath (fs : Files) (target : Path) :
    fs.entry? (fs.temporaryPath target) = none := by
  have hname : fs.temporaryName target ∈ fs.temporaryPath target := by
    simp [temporaryPath, Path.child]
  have hlength := length_le_nameLength hname
  have hlong := lt_length_temporaryName fs target
  rw [ entry?, if_neg (List.ne_nil_of_mem hname)]
  refine lookup?_eq_none fun e he => ?_
  have hentry := nameLength_le_longest he
  omega

/-! ### Writing -/

/-- What became of the files when a text was to be written to a target: nothing if that failed,
and otherwise the target holds the text and is the only file that may be another one. -/
def IsAtomic (fs : Files) (target : Path) (content : Text) : Written → Prop
  | (.error _, fs') => fs.SameFiles fs'
  | (.ok (), fs') => ∃ bytes, content.toUtf8? = some bytes ∧
    fs'.entry? target = some (.file bytes) ∧ SameFilesBut target fs fs'

theorem IsAtomic.after {content : Text} {written : Written} (h : fs.SameFiles fs')
    (hwritten : fs'.IsAtomic target content written) : fs.IsAtomic target content written := by
  obtain ⟨_ | ⟨⟩, fs''⟩ := written
  · exact h.trans hwritten
  · obtain ⟨bytes, hbytes, htarget, hbut⟩ := hwritten
    exact ⟨bytes, hbytes, htarget, h.but hbut⟩

theorem ne_root (h : fs.entry? p ≠ some .directory) : p ≠ [] := by
  rintro rfl
  exact h rfl

theorem replace_cases (fs : Files) (source target : Path) (bytes : Bytes) :
    fs.entry? target = some .directory ∧
        fs.replace source target bytes = (.error .isADirectory, fs) ∨
      fs.entry? target ≠ some .directory ∧
        fs.replace source target bytes = (.ok (), (fs.erase source).set target (.file bytes)) := by
  unfold replace
  split
  · next h => exact .inl ⟨h, rfl⟩
  · next h => exact .inr ⟨h, rfl⟩

section Temporary

variable {temporary : Path} (hfresh : fs.entry? temporary = none)

include hfresh

theorem temporary_ne_root : temporary ≠ [] := by
  rintro rfl
  cases hfresh

/-- A temporary file that is removed again leaves no trace. -/
theorem entry?_erase_set (e : Entry) (q : Path) :
    Files.entry? ((fs.set temporary e).erase temporary) q = fs.entry? q := by
  have hroot := temporary_ne_root hfresh
  rw [entry?_erase hroot, entry?_set hroot]
  by_cases hq : q = temporary
  · simp [hq, hfresh]
  · simp [hq]

theorem sameFiles_erase_set (e : Entry) : fs.SameFiles ((fs.set temporary e).erase temporary) :=
  fun p _ => by rw [entry?_erase_set hfresh e p]

theorem isAtomic_writeThrough (target : Path) (content : Text) (check : Check) :
    fs.IsAtomic target content (fs.writeThrough temporary target content check) := by
  unfold writeThrough
  cases hbytes : content.toUtf8? with
  | none => exact sameFiles_erase_set hfresh _
  | some bytes =>
    cases check content with
    | error e => exact sameFiles_erase_set hfresh _
    | ok _ =>
      have hreplace := replace_cases (fs.set temporary (.file bytes)) temporary target bytes
      obtain ⟨-, heq⟩ | ⟨hthere, heq⟩ := hreplace
      · simp only [heq]
        exact sameFiles_erase_set hfresh _
      · have htarget := ne_root hthere
        simp only [heq]
        refine ⟨bytes, hbytes, by rw [entry?_set htarget, if_pos rfl], fun p hp => ?_⟩
        rw [entry?_set htarget, if_neg hp]
        exact sameFiles_erase_set hfresh _ p

end Temporary

theorem isAtomic_write (fs : Files) (target : Path) (content : Text) (check : Check) :
    fs.IsAtomic target content (fs.write target content check) := by
  have hmade := sameFiles_makeDirectory fs target.parent
  unfold write
  rcases heq : fs.makeDirectory target.parent with ⟨_ | _, fs'⟩
  · rw [heq] at hmade
    exact hmade
  · rw [heq] at hmade
    cases checkTemporary target with
    | error e => exact hmade
    | ok _ =>
      exact .after hmade
        (isAtomic_writeThrough (entry?_temporaryPath fs' target) target content check)

theorem isAtomic_writeNew (fs : Files) (target : Path) (content : Text) (check : Check) :
    fs.IsAtomic target content (fs.writeNew target content check) := by
  unfold writeNew
  rcases fs.isThere target with _ | _ | _
  · exact .refl fs
  · exact isAtomic_write fs target content check
  · exact .refl fs

/-- The atomic way writes the text as a whole or changes no file. -/
theorem isAtomic_output {plan : OutputPlan} (h : plan.atomic = true) (fs : Files) (target : Path)
    (content : Text) : fs.IsAtomic target content (fs.output plan target content) := by
  unfold output
  rw [h]
  split
  · next hfalse => cases hfalse
  · split
    · exact isAtomic_write fs target content plan.check
    · exact isAtomic_writeNew fs target content plan.check

/-! ### Targets that exist -/

theorem check_of_checkTemporary (h : checkTemporary target = .ok ()) : target.check = .ok () := by
  unfold checkTemporary at h
  cases hcheck : target.check with
  | error e =>
    rw [hcheck] at h
    cases h
  | ok _ => rfl

/-- Only a path that a file can have is written to. -/
theorem check_of_write {content : Text} {check : Check}
    (h : fs.write target content check = (.ok (), fs')) : target.check = .ok () := by
  unfold write at h
  rcases heq : fs.makeDirectory target.parent with ⟨_ | _, made⟩
  · rw [heq] at h
    cases h
  · rw [heq] at h
    cases hname : checkTemporary target with
    | error e =>
      rw [hname] at h
      cases h
    | ok _ => exact check_of_checkTemporary hname

/-- A file that must not exist yet is written only where nothing was found. -/
theorem find_of_writeNew {content : Text} {check : Check}
    (h : fs.writeNew target content check = (.ok (), fs')) (e : Entry) :
    fs.find target ≠ .entry e := by
  intro hfind
  unfold writeNew at h
  cases hthere : fs.isThere target with
  | error e =>
    rw [hthere] at h
    cases h
  | ok there =>
    rw [hthere] at h
    cases there with
    | true => cases h
    | false =>
      have hcheck : Path.checkText target.text = .ok () := check_of_write h
      rw [isThere, findBy, hcheck, hfind] at hthere
      cases hthere

/-- Without force, the output is written only where nothing was found. -/
theorem find_of_output {plan : OutputPlan} {content : Text} (hatomic : plan.atomic = true)
    (hforce : plan.force = false) (h : fs.output plan target content = (.ok (), fs')) (e : Entry) :
    fs.find target ≠ .entry e := by
  have hnew : fs.output plan target content = fs.writeNew target content plan.check := by
    simp [output, hatomic, hforce]
  exact find_of_writeNew (hnew ▸ h) e

end ScriptTree.Files
