import ScriptTree.Command
import ScriptTree.Proofs.Files.Naming

/-!
The description of a run. It depends on the files by what its values name only: the path and
the output, the file of settings, and whatever the unit of indentation happens to name. A value
that names something is shown by its last name and any other in full.
-/

namespace ScriptTree.Command

variable {fs fs' : Files} {here : Path} {r : Request}

theorem line_congr (h : ∀ t, fs'.names here t = fs.names here t) (values : Values) :
    line fs' here values = line fs here values := by
  have hshown : shown fs' here = shown fs here := by
    funext value
    cases value <;> simp only [shown, h]
  have harguments : argumentWords fs' here values = argumentWords fs here values := by
    funext key
    simp only [argumentWords, hshown]
  have hoptions : optionWords fs' here values = optionWords fs here values := by
    funext option
    simp only [optionWords, hshown]
  rw [line, line, harguments, hoptions]

theorem shown_text_eq_ok {t word : Text} :
    shown fs here (.text t) = .ok word ↔
      ∃ there, fs.names here t = .ok there ∧
        word = if there then (Path.names t).getLast?.getD [] else t := by
  simp only [shown, bind_eq_ok, pure_eq_ok]
  constructor
  · rintro ⟨there, hthere, rfl⟩
    exact ⟨there, hthere, rfl⟩
  · rintro ⟨there, hthere, rfl⟩
    exact ⟨there, hthere, rfl⟩

/-- The description of a request: its path, its output and the words for its options. -/
theorem line_eq_ok {described : Text} :
    line fs here r.values = .ok described ↔
      ∃ path output words, shown fs here (.text r.path.text) = .ok path ∧
        shown fs here (.text r.output.text) = .ok output ∧
        keptSwitches.mapM (optionWords fs here r.values) = .ok words ∧
        described = Text.joinWith " " (commandName :: path :: output :: words.flatten) := by
  have hpath : argumentWords fs here r.values "path" = do
      return [← shown fs here (.text r.path.text)] := by
    simp [argumentWords, Request.values, Json.lookup?, isAbsent]
  have houtput : argumentWords fs here r.values "output" = do
      return [← shown fs here (.text r.output.text)] := by
    simp [argumentWords, Request.values, Json.lookup?, isAbsent]
  simp only [line, argumentKeys, List.mapM_cons, List.mapM_nil, hpath, houtput, bind_eq_ok,
    pure_eq_ok]
  constructor
  · rintro ⟨_, ⟨_, ⟨path, hpath, rfl⟩, _, ⟨_, ⟨output, houtput, rfl⟩, _, rfl, rfl⟩, rfl⟩, words,
      hwords, rfl⟩
    exact ⟨path, output, words, hpath, houtput, hwords, rfl⟩
  · rintro ⟨path, output, words, hpath, houtput, hwords, rfl⟩
    exact ⟨_, ⟨_, ⟨path, hpath, rfl⟩, _, ⟨_, ⟨output, houtput, rfl⟩, _, rfl, rfl⟩, rfl⟩, words,
      hwords, rfl⟩

/-- The texts among the values of a request's options. -/
theorem text_of_values {option : Switch} {t : Text}
    (h : Json.lookup? r.values option.key = some (.text t)) :
    (option = .config ∧ ∃ p, r.config = some p ∧ t = p.text) ∨
      option = .indent ∧ r.options.indent = some t := by
  cases option <;> simp [Request.values, Json.lookup?, Switch.key] at h
  case config =>
    cases hconfig : r.config with
    | none => simp [hconfig] at h
    | some p =>
      simp [hconfig] at h
      exact .inl ⟨rfl, p, rfl, h.symm⟩
  case indent =>
    cases hindent : r.options.indent with
    | none => simp [hindent] at h
    | some unit =>
      simp [hindent] at h
      exact .inr ⟨rfl, congrArg some h⟩

/-- The words for an option are known if it is known whether a text among its values names
something. -/
theorem exists_optionWords {values : Values} {option : Switch}
    (h : ∀ t, Json.lookup? values option.key = some (.text t) →
      ∃ there, fs.names here t = .ok there) :
    ∃ words, optionWords fs here values option = .ok words := by
  unfold optionWords
  cases hvalue : Json.lookup? values option.key with
  | none => exact ⟨_, rfl⟩
  | some value =>
    have hshown : ∃ word, shown fs here value = .ok word := by
      cases value with
      | text t =>
        obtain ⟨there, hthere⟩ := h t hvalue
        exact ⟨_, shown_text_eq_ok.mpr ⟨there, hthere, rfl⟩⟩
      | _ => exact ⟨_, rfl⟩
    obtain ⟨word, hword⟩ := hshown
    dsimp only
    split
    · exact ⟨_, rfl⟩
    · rw [hword, ok_bind]
      split <;> exact ⟨_, rfl⟩

theorem names_of_optionWords {values : Values} {option : Switch} {words : List Text} {t : Text}
    (hvalue : Json.lookup? values option.key = some (.text t))
    (h : optionWords fs here values option = .ok words) :
    ∃ there, fs.names here t = .ok there := by
  rw [optionWords, hvalue] at h
  simp only [isAbsent, isDefault, Bool.or_self, Bool.false_eq_true, if_false, bind_eq_ok] at h
  obtain ⟨word, hword, -⟩ := h
  obtain ⟨there, hthere, -⟩ := shown_text_eq_ok.mp hword
  exact ⟨there, hthere⟩

/-- A description can be made if it is known what its values name. -/
theorem line_known (hpath : ∃ there, fs.names here r.path.text = .ok there)
    (houtput : ∃ there, fs.names here r.output.text = .ok there)
    (hconfig : ∀ p, r.config = some p → ∃ there, fs.names here p.text = .ok there)
    (hindent : ∀ unit, r.options.indent = some unit → ∃ there, fs.names here unit = .ok there) :
    ∃ described, line fs here r.values = .ok described := by
  obtain ⟨there, hpath⟩ := hpath
  obtain ⟨there', houtput⟩ := houtput
  obtain ⟨words, hwords⟩ := exists_mapM (f := optionWords fs here r.values)
    fun option (_ : option ∈ keptSwitches) => exists_optionWords fun t ht => by
      obtain ⟨-, p, hp, rfl⟩ | ⟨-, hunit⟩ := text_of_values ht
      · exact hconfig p hp
      · exact hindent t hunit
  exact ⟨_, line_eq_ok.mpr ⟨_, _, words, shown_text_eq_ok.mpr ⟨there, hpath, rfl⟩,
    shown_text_eq_ok.mpr ⟨there', houtput, rfl⟩, hwords, rfl⟩⟩

/-- What has to be known for a description to be made. -/
theorem known_of_line {described : Text} (h : line fs here r.values = .ok described) :
    (∃ there, fs.names here r.path.text = .ok there) ∧
      (∃ there, fs.names here r.output.text = .ok there) ∧
      (∀ p, r.config = some p → ∃ there, fs.names here p.text = .ok there) ∧
      ∀ unit, r.options.indent = some unit → ∃ there, fs.names here unit = .ok there := by
  obtain ⟨path, output, words, hpath, houtput, hwords, -⟩ := line_eq_ok.mp h
  have hoption (option : Switch) {t : Text} (hoption : option ∈ keptSwitches)
      (ht : Json.lookup? r.values option.key = some (.text t)) :
      ∃ there, fs.names here t = .ok there := by
    obtain ⟨found, -, hfound⟩ := exists_of_mem_left (mapM_eq_ok.mp hwords) hoption
    exact names_of_optionWords ht hfound
  obtain ⟨there, hpath, -⟩ := shown_text_eq_ok.mp hpath
  obtain ⟨there', houtput, -⟩ := shown_text_eq_ok.mp houtput
  refine ⟨⟨there, hpath⟩, ⟨there', houtput⟩, fun p hp => ?_, fun unit hunit => ?_⟩
  · refine hoption .config (by decide) ?_
    simp [Request.values, Json.lookup?, Switch.key, hp]
  · refine hoption .indent (by decide) ?_
    simp [Request.values, Json.lookup?, Switch.key, hunit]

/-! ### Paths -/

section Paths

variable {p : Path} {e e' : Entry}

theorem isThere_findBy (t : Text) (e e' : Entry) :
    (Files.findBy t (.entry e')).isThere = (Files.findBy t (.entry e)).isThere := by
  unfold Files.findBy
  split <;> rfl

/-- A path at which something is found both times is shown alike. -/
theorem names_kept (hp : p.IsPlain) (h : fs.find p = .entry e) (h' : fs'.find p = .entry e') :
    fs'.names here p.text = fs.names here p.text := by
  rw [Files.names_text hp, Files.names_text hp, h, h']
  exact isThere_findBy _ e e'

theorem names_found (hp : p.IsPlain) (hcheck : p.check = .ok ()) (h : fs.find p = .entry e) :
    fs.names here p.text = .ok true := by
  have htext : Path.checkText (CodePoint.ofChar '/' :: Text.joinWith "/" p) = .ok () := by
    rw [← Path.text_eq]
    exact hcheck
  have hjoined : Path.checkText (Text.joinWith "/" p) = .ok () :=
    (Files.checkText_of_append (t := [CodePoint.ofChar '/']) htext).2
  rw [Files.names_text hp, h, Files.findBy, hjoined]
  rfl

theorem isEntry_of_names (hp : p.IsPlain) (h : fs.names here p.text = .ok true) :
    (fs.find p).isEntry = true := by
  rw [Files.names_text hp] at h
  unfold Files.findBy Found.isThere at h
  split at h
  · next hfound =>
    split at hfound
    · rw [hfound]
      rfl
    · cases hfound
    · cases hfound
  all_goals cases h

/-- Descriptions differ if the output is there for one and not for the other. -/
theorem line_ne (hplain : r.output.IsPlain) (hroot : r.output ≠ [])
    (hpath : fs'.names here r.path.text = fs.names here r.path.text)
    (hnew : fs.names here r.output.text = .ok false)
    (hthere : fs'.names here r.output.text = .ok true) {described : Text}
    (h : line fs here r.values = .ok described) : line fs' here r.values ≠ .ok described := by
  intro h'
  obtain ⟨path, output, words, hshown, houtput, -, rfl⟩ := line_eq_ok.mp h
  obtain ⟨path', output', words', hshown', houtput', -, hsame⟩ := line_eq_ok.mp h'
  have hpaths : path = path' := by
    simp only [shown, hpath] at hshown hshown'
    exact Except.ok.inj (hshown.symm.trans hshown')
  have hfull : output = CodePoint.ofChar '/' :: Text.joinWith "/" r.output := by
    simp only [shown, hnew, ok_bind] at houtput
    rw [← Path.text_eq]
    exact (pure_eq_ok.mp houtput).symm
  have hlast : output' = r.output.name := by
    simp only [shown, hthere, ok_bind, Path.names_text hplain] at houtput'
    exact (pure_eq_ok.mp houtput').symm
  have hname : Path.IsPlainName r.output.name := by
    refine hplain _ ?_
    rw [Path.name, List.getLast?_eq_getLast_of_ne_nil hroot]
    exact List.getLast_mem hroot
  obtain ⟨first, name, hsplit⟩ := List.exists_cons_of_ne_nil hname.nonempty
  obtain ⟨more, hmore⟩ := Text.joinWith_cons " " output words.flatten
  obtain ⟨more', hmore'⟩ := Text.joinWith_cons " " output' words'.flatten
  -- The descriptions agree up to the output, which starts with a slash in one of them only.
  rw [← hpaths] at hsame
  simp only [Text.joinWith, hmore, hmore', List.append_cancel_left_eq] at hsame
  rw [hfull, hlast, hsplit] at hsame
  have hslash : CodePoint.ofChar '/' = first := (List.cons.inj hsame).1
  exact hname.undivided (by rw [hsplit, hslash]; exact List.mem_cons_self)

end Paths

end ScriptTree.Command
