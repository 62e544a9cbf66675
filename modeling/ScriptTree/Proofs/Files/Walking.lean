import Mathlib.Data.List.Infix
import ScriptTree.Proofs.Files.Output
import ScriptTree.Proofs.Outcome
import ScriptTree.Proofs.Text

/-!
Finding one's way. What is found at a path is settled by its last name once it is known what
is found above it. Making directories adds them on the way to a path and nowhere else.
-/

namespace ScriptTree

/-- What is found one name further, where `there` stands if the name can be one. -/
def Found.next (found : Found) (name : Text) (there : Found) : Found :=
  match found with
  | .entry .directory => if name.fitsName then there else .tooLong
  | .entry (.file _) => .blocked
  | found => found

namespace Files

variable {fs fs' : Files} {p q target : Path} {name : Text}

/-! ### Finding -/

def foundAt (fs : Files) (p : Path) : Found :=
  match fs.entry? p with
  | some e => .entry e
  | none => .nothing

theorem walk_nil (step : Path → Text → Path) : fs.walk step p [] = fs.foundAt p := rfl

theorem walk_concat (step : Path → Text → Path) (here : Path) (names : List Text) (name : Text) :
    fs.walk step here (names ++ [name]) =
      (fs.walk step here names).next name (fs.foundAt ((names ++ [name]).foldl step here)) := by
  induction names generalizing here with
  | nil =>
    simp only [List.nil_append, List.foldl_cons, List.foldl_nil, walk.eq_2, walk_nil]
    unfold foundAt
    cases fs.entry? here with
    | none => rfl
    | some e => cases e <;> rfl
  | cons first names ih =>
    rw [List.cons_append, walk.eq_2, walk.eq_2]
    cases fs.entry? here with
    | none => rfl
    | some e =>
      cases e with
      | file bytes => rfl
      | directory =>
        simp only [ih]
        split <;> rfl

theorem foldl_child (p q : Path) : q.foldl Path.child p = p ++ q := by
  induction q generalizing p with
  | nil => simp
  | cons name q ih => rw [List.foldl_cons, ih, Path.child, List.append_assoc, List.singleton_append]

theorem find_nil (fs : Files) : fs.find [] = .entry .directory := rfl

theorem find_concat (fs : Files) (p : Path) (name : Text) :
    fs.find (p ++ [name]) = (fs.find p).next name (fs.foundAt (p ++ [name])) := by
  rw [find, walk_concat, foldl_child]
  rfl

theorem next_eq_entry {found there : Found} {e : Entry} :
    found.next name there = .entry e ↔
      found = .entry .directory ∧ name.fitsName = true ∧ there = .entry e := by
  unfold Found.next
  split
  · split <;> simp_all
  · simp
  · next hdirectory hfile =>
    refine iff_of_false ?_ fun h => hdirectory h.1
    rintro rfl
    cases e with
    | directory => exact hdirectory rfl
    | file bytes => exact hfile bytes rfl

theorem foundAt_eq_entry {e : Entry} : fs.foundAt p = .entry e ↔ fs.entry? p = some e := by
  unfold foundAt
  split <;> simp_all

/-- Something is found at a path if it stands there and the way there leads through
directories. -/
theorem find_concat_eq_entry {e : Entry} :
    fs.find (p ++ [name]) = .entry e ↔
      fs.find p = .entry .directory ∧ name.fitsName = true ∧ fs.entry? (p ++ [name]) = some e := by
  rw [find_concat, next_eq_entry, foundAt_eq_entry]

/-- Only a name that is too long keeps one from finding out what there is. -/
theorem find_ne_tooLong (h : p.all Text.fitsName = true) : fs.find p ≠ .tooLong := by
  induction p using List.reverseRecOn with
  | nil => simp [find_nil]
  | append_singleton p name ih =>
    rw [List.all_append, Bool.and_eq_true] at h
    have hname : name.fitsName = true := by simpa using h.2
    have habove := ih h.1
    rw [find_concat]
    unfold Found.next foundAt
    split
    · rw [if_pos hname]
      split <;> simp
    · simp
    · exact habove

theorem eq_parent_name (h : target ≠ []) : target = target.parent ++ [target.name] := by
  rw [Path.parent, Path.name, List.getLast?_eq_getLast_of_ne_nil h]
  exact (List.dropLast_append_getLast h).symm

/-! ### Directories -/

theorem mem_ancestry : q ∈ ancestry p ↔ q ≠ [] ∧ q <+: p := by
  unfold ancestry
  simp only [List.mem_map, List.mem_range]
  constructor
  · rintro ⟨n, hn, rfl⟩
    refine ⟨?_, List.take_prefix _ _⟩
    intro h
    have := congrArg List.length h
    rw [List.length_take, List.length_nil] at this
    omega
  · rintro ⟨hq, hinit⟩
    have hlength := hinit.length_le
    have hpos := List.length_pos_iff.mpr hq
    refine ⟨q.length - 1, by omega, ?_⟩
    rw [show q.length - 1 + 1 = q.length by omega]
    exact (List.prefix_iff_eq_take.mp hinit).symm

/-- Directories are added where nothing stands. -/
theorem entry?_foldl (paths : List Path) (hpaths : [] ∉ paths) (fs : Files) :
    Files.entry? (paths.foldl (fun fs p =>
      if (fs.entry? p).isNone then fs.set p .directory else fs) fs) q =
      if q ∈ paths then (fs.entry? q).or (some .directory) else fs.entry? q := by
  induction paths generalizing fs with
  | nil => simp
  | cons first paths ih =>
    rw [List.mem_cons, not_or] at hpaths
    rw [List.foldl_cons, ih hpaths.2]
    have hfirst : first ≠ [] := Ne.symm hpaths.1
    by_cases hnone : (fs.entry? first).isNone
    · rw [if_pos hnone, entry?_set hfirst]
      by_cases hq : q = first
      · subst hq
        simp [Option.isNone_iff_eq_none.mp hnone]
      · simp [hq]
    · rw [if_neg hnone]
      by_cases hq : q = first
      · subst hq
        obtain ⟨e, he⟩ := Option.ne_none_iff_exists'.mp (mt Option.isNone_iff_eq_none.mpr hnone)
        simp [he]
      · simp [hq]

theorem entry?_addDirectories (fs : Files) (p q : Path) :
    Files.entry? (fs.addDirectories p) q =
      if q ≠ [] ∧ q <+: p then (fs.entry? q).or (some .directory) else fs.entry? q := by
  unfold addDirectories
  rw [entry?_foldl _ (by simp [mem_ancestry])]
  simp only [mem_ancestry]

/-- Making a directory changes nothing but the way there. -/
theorem entry?_makeDirectory (fs : Files) (h : ¬q <+: p) :
    Files.entry? (fs.makeDirectory p).2 q = fs.entry? q := by
  have hadded (above : Path) (habove : above <+: p) :
      Files.entry? (fs.addDirectories above) q = fs.entry? q := by
    rw [entry?_addDirectories, if_neg fun hq => h (hq.2.trans habove)]
  unfold makeDirectory
  split
  · rfl
  · split
    · rfl
    · rfl
    · rfl
    all_goals
      split
      · exact hadded p (List.prefix_refl p)
      · exact hadded _ (List.takeWhile_prefix _)

/-! ### Paths that files can have -/

theorem nameSize_append (t more : Text) : (t ++ more).nameSize = t.nameSize + more.nameSize := by
  induction t with
  | nil => simp [Text.nameSize]
  | cons c t ih =>
    simp only [Text.nameSize, List.cons_append, List.foldr_cons] at ih ⊢
    omega

theorem checkName_eq_ok {t : Text} :
    t.checkName = .ok () ↔ ∀ c ∈ t, (c.isSurrogate && !c.isStrayByte) = false ∧ c.val ≠ 0 := by
  unfold Text.checkName
  split
  · next h =>
    refine iff_of_false (by simp) fun hall => ?_
    obtain ⟨c, hc, hbad⟩ := List.any_eq_true.mp h
    rw [(hall c hc).1] at hbad
    cases hbad
  · next h =>
    split
    · next h' =>
      refine iff_of_false (by simp) fun hall => ?_
      obtain ⟨c, hc, hbad⟩ := List.any_eq_true.mp h'
      exact (hall c hc).2 (of_decide_eq_true hbad)
    · next h' =>
      refine iff_of_true rfl fun c hc => ⟨?_, ?_⟩
      · exact Bool.eq_false_iff.mpr fun hbad => h (List.any_eq_true.mpr ⟨c, hc, hbad⟩)
      · exact fun hbad => h' (List.any_eq_true.mpr ⟨c, hc, decide_eq_true hbad⟩)

theorem checkText_eq_ok {t : Text} :
    Path.checkText t = .ok () ↔ t.checkName = .ok () ∧ t.nameSize ≤ longestPath := by
  unfold Path.checkText
  cases t.checkName with
  | error e => simp
  | ok _ =>
    by_cases h : longestPath < t.nameSize
    · simp [h]
    · simp [h]
      omega

theorem lt_nameSize_of_checkText {t : Text} (h : Path.checkText t = .error .tooLong) :
    longestPath < t.nameSize := by
  unfold Path.checkText Text.checkName at h
  split at h
  · cases h
  · split at h
    · cases h
    · rw [ok_bind] at h
      split at h
      · next hlong => exact hlong
      · cases h

/-- It cannot be told whether something exists only if the path or a name on the way is too
long. -/
theorem isThere_eq_error {e : NameError} (h : fs.isThere p = .error e) :
    e = .tooLong ∧ (p.check = .error .tooLong ∨ p.check = .ok () ∧ fs.find p = .tooLong) := by
  unfold isThere findBy at h
  rw [Path.check]
  split at h
  · next hcheck =>
    unfold Found.isThere at h
    split at h
    · cases h
    · cases h
    · cases h
    · next hfind => exact ⟨(Except.error.inj h).symm, .inr ⟨hcheck, hfind⟩⟩
  · next hcheck => exact ⟨(Except.error.inj h).symm, .inl hcheck⟩
  · cases h

theorem checkText_of_append {t more : Text} (h : Path.checkText (t ++ more) = .ok ()) :
    Path.checkText t = .ok () ∧ Path.checkText more = .ok () := by
  rw [checkText_eq_ok, checkName_eq_ok, nameSize_append] at h
  rw [checkText_eq_ok, checkName_eq_ok, checkText_eq_ok, checkName_eq_ok]
  exact ⟨⟨fun c hc => h.1 c (List.mem_append_left _ hc), by omega⟩,
    fun c hc => h.1 c (List.mem_append_right _ hc), by omega⟩

theorem check_parent (h : target.check = .ok ()) : target.parent.check = .ok () := by
  by_cases hroot : target = []
  · subst hroot
    exact h
  · rw [eq_parent_name hroot, Path.check, Path.text] at h
    obtain ⟨more, hmore⟩ := Text.joinWith_concat "/" target.parent target.name
    rw [hmore] at h
    have happend : Path.checkText (target.parent.text ++ more) = .ok () := by
      simpa [Path.text, Text.join] using h
    exact (checkText_of_append happend).1

/-! ### What stays to be found -/

/-- The same stands everywhere, apart from what is in the files. -/
def SameShape (fs fs' : Files) : Prop :=
  ∀ q, fs'.entry? q = fs.entry? q ∨
    ∃ bytes bytes', fs.entry? q = some (.file bytes) ∧ fs'.entry? q = some (.file bytes')

/-- Every entry stands in a directory, as in the files of a machine. -/
def IsTree (fs : Files) : Prop :=
  ∀ p name e, fs.entry? (p ++ [name]) = some e → fs.entry? p = some .directory

theorem entry?_of_find {e : Entry} (h : fs.find p = .entry e) : fs.entry? p = some e := by
  induction p using List.reverseRecOn with
  | nil => exact congrArg some (Found.entry.inj h)
  | append_singleton p name _ => exact (find_concat_eq_entry.mp h).2.2

/-- What is found stays to be found while nothing but a file, or a place where nothing is,
becomes another entry. -/
theorem find_kept (hkept : ∀ q e, q ≠ target → fs.entry? q = some e → fs'.entry? q = some e)
    (htarget : fs.entry? target ≠ some .directory) {e : Entry} (hp : p ≠ target)
    (h : fs.find p = .entry e) : fs'.find p = .entry e := by
  induction p using List.reverseRecOn generalizing e with
  | nil => exact h
  | append_singleton p name ih =>
    obtain ⟨habove, hfits, hentry⟩ := find_concat_eq_entry.mp h
    have hne : p ≠ target := by
      rintro rfl
      exact htarget (entry?_of_find habove)
    exact find_concat_eq_entry.mpr ⟨ih hne habove, hfits, hkept _ e hp hentry⟩

/-- Beyond a file the way is blocked. -/
theorem find_blocked {bytes : Bytes} (h : fs.find p = .entry (.file bytes)) (more : Path)
    (hmore : more ≠ []) : fs.find (p ++ more) = .blocked := by
  induction more using List.reverseRecOn with
  | nil => exact absurd rfl hmore
  | append_singleton more name ih =>
    rw [← List.append_assoc, find_concat]
    by_cases hnil : more = []
    · subst hnil
      rw [List.append_nil, h]
      rfl
    · rw [ih hnil]
      rfl

/-- In a tree what stands at a path of names that fit is found there. -/
theorem find_of_entry? (htree : fs.IsTree) (hfits : p.all Text.fitsName = true) {e : Entry}
    (h : fs.entry? p = some e) : fs.find p = .entry e := by
  induction p using List.reverseRecOn generalizing e with
  | nil => exact congrArg Found.entry (Option.some.inj h)
  | append_singleton p name ih =>
    rw [List.all_append, Bool.and_eq_true] at hfits
    exact find_concat_eq_entry.mpr
      ⟨ih hfits.1 (htree p name e h), by simpa using hfits.2, h⟩

/-- The directories that were to be made are there. -/
theorem find_addDirectories (htree : fs.IsTree) (hfits : p.all Text.fitsName = true)
    (hfree : ∀ bytes, fs.find p ≠ .entry (.file bytes)) (hopen : fs.find p ≠ .blocked) :
    Files.find (fs.addDirectories p) p = .entry .directory := by
  suffices hall : ∀ q, q <+: p → Files.find (fs.addDirectories p) q = .entry .directory from
    hall p (List.prefix_refl p)
  intro q hq
  induction q using List.reverseRecOn with
  | nil => rfl
  | append_singleton q name ih =>
    have habove := ih ((List.prefix_append q [name]).trans hq)
    obtain ⟨more, hmore⟩ := hq
    have hnames : (q ++ [name]).all Text.fitsName = true := by
      rw [← hmore, List.all_append, Bool.and_eq_true] at hfits
      exact hfits.1
    have hentry : Files.entry? (fs.addDirectories p) (q ++ [name]) = some .directory := by
      rw [entry?_addDirectories, if_pos ⟨by simp, more, hmore⟩]
      cases hthere : fs.entry? (q ++ [name]) with
      | none => rfl
      | some e =>
        cases e with
        | directory => rfl
        | file bytes =>
          have hfile := find_of_entry? htree hnames hthere
          by_cases hmore' : more = []
          · rw [hmore', List.append_nil] at hmore
            exact absurd (hmore ▸ hfile) (hfree bytes)
          · exact absurd (hmore ▸ find_blocked hfile more hmore') hopen
    have hname : name.fitsName = true := by
      rw [List.all_append, Bool.and_eq_true] at hnames
      simpa using hnames.2
    exact find_concat_eq_entry.mpr ⟨habove, hname, hentry⟩

/-- A directory that is there needs no making. -/
theorem makeDirectory_of_find (hcheck : p.check = .ok ()) (h : fs.find p = .entry .directory) :
    fs.makeDirectory p = (.ok (), fs) := by
  rw [makeDirectory, hcheck, h]

/-- A directory that was made is there, whatever was there is still there, and the path is one
that files can have. -/
theorem makeDirectory_ok {made : Files} (htree : fs.IsTree)
    (h : fs.makeDirectory p = (.ok (), made)) :
    p.check = .ok () ∧ made.find p = .entry .directory ∧
      ∀ q e, fs.entry? q = some e → made.entry? q = some e := by
  unfold makeDirectory at h
  split at h
  · cases h
  · next hcheck =>
    have hadded (hfree : ∀ bytes, fs.find p ≠ .entry (.file bytes)) (hopen : fs.find p ≠ .blocked)
        (h : (if p.all Text.fitsName then (.ok (), fs.addDirectories p)
          else (.error (.unnameable .tooLong), fs.addDirectories (p.takeWhile Text.fitsName)) :
            Written) = (.ok (), made)) :
        made.find p = .entry .directory ∧ ∀ q e, fs.entry? q = some e → made.entry? q = some e := by
      split at h
      · next hfits =>
        obtain rfl : fs.addDirectories p = made := congrArg Prod.snd h
        refine ⟨find_addDirectories htree hfits hfree hopen, fun q e he => ?_⟩
        rw [entry?_addDirectories, he]
        split <;> rfl
      · cases h
    refine ⟨hcheck, ?_⟩
    split at h
    · next hfind =>
      obtain rfl : fs = made := congrArg Prod.snd h
      exact ⟨hfind, fun _ _ he => he⟩
    · cases h
    · cases h
    · next hfind => exact hadded (by simp [hfind]) (by simp [hfind]) h
    · next hfind => exact hadded (by simp [hfind]) (by simp [hfind]) h

end Files

end ScriptTree
