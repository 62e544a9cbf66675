import ScriptTree.Proofs.Files.Walking

/-!
Writing with force. A text that is written takes the target's place and leaves everything else,
once the directories above it are made. What could be written once can be written again, and so
can another text that is accepted and can be encoded.
-/

namespace ScriptTree.Files

variable {fs made after : Files} {plan : OutputPlan} {target : Path} {content : Text}
  {bytes : Bytes}

def Holds (target : Path) (bytes : Bytes) (made after : Files) : Prop :=
  ∀ q, after.entry? q = if q = target then some (.file bytes) else made.entry? q

structure Allows (plan : OutputPlan) (target : Path) : Prop where
  force : plan.force = true
  named : checkTarget target = .ok ()
  room : plan.atomic = true → checkTemporary target = .ok ()

theorem check_of_checkTarget (h : checkTarget target = .ok ()) :
    target.check = .ok () ∧ target.name.fitsName = true := by
  unfold checkTarget at h
  cases hcheck : target.check with
  | error e =>
    rw [hcheck] at h
    cases h
  | ok _ =>
    rw [hcheck, ok_bind] at h
    split at h
    · cases h
    · next hfits => exact ⟨rfl, by simpa using hfits⟩

theorem checkTarget_of_checkTemporary (h : checkTemporary target = .ok ()) :
    checkTarget target = .ok () := by
  have hcheck := check_of_checkTemporary h
  unfold checkTemporary at h
  rw [hcheck, ok_bind] at h
  split at h
  · cases h
  · next hshort =>
    have hfits : target.name.fitsName = true := by
      rw [Text.fitsName, decide_eq_true_iff]
      omega
    rw [checkTarget, hcheck, ok_bind, hfits]
    rfl

/-! ### The target opened or replaced -/

theorem overwrite_directory (h : fs.entry? target = some .directory) (content : Text) :
    fs.overwrite target content = (.error .isADirectory, fs) := by
  rw [overwrite, h]

theorem overwrite_encodable (h : fs.entry? target ≠ some .directory)
    (hbytes : content.toUtf8? = some bytes) :
    fs.overwrite target content = (.ok (), fs.set target (.file bytes)) := by
  unfold overwrite
  split
  · next hthere => exact absurd hthere h
  · rw [hbytes]

theorem overwrite_unencodable (h : fs.entry? target ≠ some .directory)
    (hbytes : content.toUtf8? = none) :
    fs.overwrite target content = (.error .unencodable, fs.set target (.file [])) := by
  unfold overwrite
  split
  · next hthere => exact absurd hthere h
  · rw [hbytes]

section Temporary

variable {temporary : Path} (hfresh : fs.entry? temporary = none)

include hfresh

theorem replace_written (target : Path) (bytes : Bytes) :
    Files.entry? (fs.set temporary (.file bytes)) target = some .directory ↔
      fs.entry? target = some .directory := by
  rw [entry?_set (temporary_ne_root hfresh)]
  by_cases htarget : target = temporary
  · simp [htarget, hfresh]
  · simp [htarget]

theorem writeThrough_directory (h : fs.entry? target = some .directory) {check : Check}
    (hcheck : check content = .ok ()) (hbytes : content.toUtf8? = some bytes) :
    fs.writeThrough temporary target content check =
      (.error .isADirectory, (fs.set temporary (.file bytes)).erase temporary) := by
  have hthere := (replace_written hfresh target bytes).mpr h
  simp only [writeThrough, hbytes, hcheck, replace, hthere]

/-- A temporary file that took the target's place is all that is new. -/
theorem writeThrough_encodable (h : fs.entry? target ≠ some .directory) {check : Check}
    (hcheck : check content = .ok ()) (hbytes : content.toUtf8? = some bytes) :
    ∃ after, fs.writeThrough temporary target content check = (.ok (), after) ∧
      Holds target bytes fs after := by
  have hreplace := replace_cases (fs.set temporary (.file bytes)) temporary target bytes
  rw [Ne, replace_written hfresh] at hreplace
  obtain ⟨hthere, -⟩ | ⟨-, heq⟩ := hreplace
  · exact absurd hthere h
  · refine ⟨((fs.set temporary (.file bytes)).erase temporary).set target (.file bytes),
      by simp only [writeThrough, hbytes, hcheck, heq], fun q => ?_⟩
    rw [entry?_set (ne_root h), entry?_erase_set hfresh]

end Temporary

/-! ### With force -/

structure Accepts (plan : OutputPlan) (content : Text) (bytes : Bytes) : Prop where
  check : plan.check content = .ok ()
  encoded : content.toUtf8? = some bytes

theorem output_atomic (hforce : plan.force = true) (hatomic : plan.atomic = true) (fs : Files)
    (target : Path) (content : Text) :
    fs.output plan target content = fs.write target content plan.check := by
  simp [output, hatomic, hforce]

theorem output_plain (hforce : plan.force = true) (hatomic : plan.atomic = false) (fs : Files)
    (target : Path) (content : Text) :
    fs.output plan target content = fs.writePlain target content true plan.check := by
  simp [output, hatomic, hforce]

/-- An accepted text is written where a target is allowed, unless a directory stands there. -/
theorem output_forced (hallows : Allows plan target) (haccepts : Accepts plan content bytes)
    (hmade : fs.makeDirectory target.parent = (.ok (), made))
    (hopen : made.entry? target ≠ some .directory)
    (hknown : plan.atomic = false → ∃ there, fs.isThere target = .ok there) :
    ∃ after, fs.output plan target content = (.ok (), after) ∧ Holds target bytes made after := by
  cases hatomic : plan.atomic with
  | true =>
    rw [output_atomic hallows.force hatomic]
    simp only [write, hmade, hallows.room hatomic]
    exact writeThrough_encodable (entry?_temporaryPath made target) hopen haccepts.check
      haccepts.encoded
  | false =>
    obtain ⟨there, hthere⟩ := hknown hatomic
    rw [output_plain hallows.force hatomic]
    refine ⟨made.set target (.file bytes), ?_, fun q => entry?_set (ne_root hopen)⟩
    simp [writePlain, hthere, checkContent, haccepts.check, hmade, overwriteWith, hallows.named,
      overwrite_encodable hopen haccepts.encoded]

theorem writeThrough_ok {temporary : Path} (hfresh : made.entry? temporary = none)
    (h : made.writeThrough temporary target content plan.check = (.ok (), after)) :
    ∃ bytes, Accepts plan content bytes ∧ made.entry? target ≠ some .directory ∧
      Holds target bytes made after := by
  cases hbytes : content.toUtf8? with
  | none =>
    simp only [writeThrough, hbytes] at h
    cases h
  | some bytes =>
    cases hcheck : plan.check content with
    | error e =>
      simp only [writeThrough, hbytes, hcheck] at h
      cases h
    | ok _ =>
      by_cases hthere : made.entry? target = some .directory
      · rw [writeThrough_directory hfresh hthere hcheck hbytes] at h
        cases h
      · obtain ⟨written, heq, hholds⟩ := writeThrough_encodable hfresh hthere hcheck hbytes
        obtain rfl : written = after := congrArg Prod.snd (heq.symm.trans h)
        exact ⟨bytes, ⟨hcheck, hbytes⟩, hthere, hholds⟩

theorem overwrite_ok (h : made.overwrite target content = (.ok (), after)) :
    ∃ bytes, content.toUtf8? = some bytes ∧ made.entry? target ≠ some .directory ∧
      Holds target bytes made after := by
  by_cases hthere : made.entry? target = some .directory
  · rw [overwrite_directory hthere] at h
    cases h
  · cases hbytes : content.toUtf8? with
    | none =>
      rw [overwrite_unencodable hthere hbytes] at h
      cases h
    | some bytes =>
      rw [overwrite_encodable hthere hbytes] at h
      obtain rfl := congrArg Prod.snd h
      exact ⟨bytes, rfl, hthere, fun q => entry?_set (ne_root hthere)⟩

/-- A text that was written was accepted, and nothing else is new but directories. -/
theorem output_ok (hforce : plan.force = true)
    (h : fs.output plan target content = (.ok (), after)) :
    Allows plan target ∧ ∃ bytes made, Accepts plan content bytes ∧
      fs.makeDirectory target.parent = (.ok (), made) ∧
      made.entry? target ≠ some .directory ∧ Holds target bytes made after := by
  cases hatomic : plan.atomic with
  | true =>
    rw [output_atomic hforce hatomic, write] at h
    rcases hmade : fs.makeDirectory target.parent with ⟨_ | _, made⟩
    · rw [hmade] at h
      cases h
    cases hroom : checkTemporary target with
    | error e =>
      simp only [hmade, hroom] at h
      cases h
    | ok _ =>
      simp only [hmade, hroom] at h
      obtain ⟨bytes, haccepts, hopen, hholds⟩ :=
        writeThrough_ok (entry?_temporaryPath made target) h
      exact ⟨⟨hforce, checkTarget_of_checkTemporary hroom, fun _ => hroom⟩, bytes, made, haccepts,
        rfl, hopen, hholds⟩
  | false =>
    rw [output_plain hforce hatomic, writePlain] at h
    cases hthere : fs.isThere target with
    | error e =>
      rw [hthere] at h
      cases h
    | ok there =>
      cases hcheck : plan.check content with
      | error e => simp [hthere, checkContent, hcheck] at h
      | ok _ =>
        rcases hmade : fs.makeDirectory target.parent with ⟨_ | _, made⟩
        · simp [hthere, checkContent, hcheck, hmade] at h
        cases hnamed : checkTarget target with
        | error e => simp [hthere, checkContent, hcheck, hmade, overwriteWith, hnamed] at h
        | ok _ =>
          simp only [hthere, Bool.not_true, Bool.and_false, Bool.false_eq_true, if_false,
            checkContent, hcheck, hmade, overwriteWith, hnamed] at h
          obtain ⟨bytes, hbytes, hopen, hholds⟩ := overwrite_ok h
          refine ⟨⟨hforce, hnamed, fun htrue => ?_⟩, bytes, made, ⟨hcheck, hbytes⟩, rfl, hopen,
            hholds⟩
          rw [hatomic] at htrue
          cases htrue

/-! ### Once more -/

theorem parent_ne (h : target ≠ []) : target.parent ≠ target := by
  intro heq
  have hlength := congrArg List.length heq
  have hpos := List.length_pos_iff.mpr h
  rw [Path.parent, List.length_dropLast] at hlength
  omega

/-- What was found before a file was written is still found, and so is the file. -/
theorem find_holds (hfound : made.find target.parent = .entry .directory)
    (hkept : ∀ q e, fs.entry? q = some e → made.entry? q = some e)
    (hfits : target.name.fitsName = true) (hopen : made.entry? target ≠ some .directory)
    (hholds : Holds target bytes made after) :
    after.find target.parent = .entry .directory ∧ after.find target = .entry (.file bytes) ∧
      ∀ p e, p ≠ target → fs.find p = .entry e → after.find p = .entry e := by
  have hroot := ne_root hopen
  have hafter (q : Path) (e : Entry) (hq : q ≠ target) (h : made.entry? q = some e) :
      after.entry? q = some e := by rw [hholds q, if_neg hq, h]
  have habove := find_kept hafter hopen (parent_ne hroot) hfound
  have htarget : after.entry? target = some (.file bytes) := by rw [hholds target, if_pos rfl]
  refine ⟨habove, ?_, fun p e hp h => ?_⟩
  · rw [eq_parent_name hroot] at htarget ⊢
    exact find_concat_eq_entry.mpr ⟨habove, hfits, htarget⟩
  · refine find_kept (fun q e hq he => hafter q e hq (hkept q e he)) (fun hdirectory => ?_) hp h
    exact hopen (hkept target .directory hdirectory)

/-- A text that was written is found at the target, and whatever else was found still is. -/
theorem find_output (htree : fs.IsTree) (hforce : plan.force = true)
    (h : fs.output plan target content = (.ok (), after)) :
    ∃ bytes, content.toUtf8? = some bytes ∧ target.check = .ok () ∧
      after.find target = .entry (.file bytes) ∧
      ∀ p e, p ≠ target → fs.find p = .entry e → after.find p = .entry e := by
  obtain ⟨hallows, bytes, made, haccepts, hmade, hopen, hholds⟩ := output_ok hforce h
  obtain ⟨-, hfound, hkept⟩ := makeDirectory_ok htree hmade
  obtain ⟨hcheck, hfits⟩ := check_of_checkTarget hallows.named
  obtain ⟨-, htarget, hothers⟩ := find_holds hfound hkept hfits hopen hholds
  exact ⟨bytes, haccepts.encoded, hcheck, htarget, hothers⟩

/-- After a text was written with force, every text that is accepted can be written in its
place. -/
theorem output_again (htree : fs.IsTree) (hforce : plan.force = true)
    (h : fs.output plan target content = (.ok (), after)) {content' : Text} {bytes' : Bytes}
    (haccepts : Accepts plan content' bytes') :
    ∃ after', after.output plan target content' = (.ok (), after') ∧
      Holds target bytes' after after' := by
  obtain ⟨hallows, bytes, made, -, hmade, hopen, hholds⟩ := output_ok hforce h
  obtain ⟨hparent, hfound, hkept⟩ := makeDirectory_ok htree hmade
  obtain ⟨hcheck, hfits⟩ := check_of_checkTarget hallows.named
  obtain ⟨habove, htarget, -⟩ := find_holds hfound hkept hfits hopen hholds
  have hentry : after.entry? target = some (.file bytes) := by rw [hholds target, if_pos rfl]
  refine output_forced hallows haccepts (makeDirectory_of_find hparent habove)
    (by simp [hentry]) fun _ => ⟨true, ?_⟩
  have htext : Path.checkText target.text = .ok () := hcheck
  rw [isThere, findBy, htext, htarget]
  rfl

/-- Where the target stood, nothing but its content is new. -/
theorem sameShape_output (hforce : plan.force = true)
    (h : fs.output plan target content = (.ok (), after)) {e : Entry}
    (htarget : fs.find target = .entry e) : fs.SameShape after := by
  obtain ⟨hallows, bytes, made, -, hmade, hopen, hholds⟩ := output_ok hforce h
  have hcheck := check_parent (check_of_checkTarget hallows.named).1
  have hentry := entry?_of_find htarget
  rw [eq_parent_name (ne_root hopen)] at htarget
  rw [makeDirectory_of_find hcheck (find_concat_eq_entry.mp htarget).1] at hmade
  obtain rfl : fs = made := congrArg Prod.snd hmade
  intro q
  by_cases hq : q = target
  · subst hq
    cases e with
    | directory => exact absurd hentry hopen
    | file old => exact .inr ⟨old, bytes, hentry, by rw [hholds q, if_pos rfl]⟩
  · exact .inl (by rw [hholds q, if_neg hq])

end ScriptTree.Files
