import ScriptTree.Proofs.Command.Line
import ScriptTree.Proofs.Files.Overwriting

/-!
What a request is made of. Its paths are those that the words name, seen from the directory
the command runs in; those of the input and of the file of settings have to exist.
-/

namespace ScriptTree.Command.Request

variable {fs fs' : Files} {here : Path} {o : Options} {r : Request}

theorem resolve?_eq_ok {t : Text} {p : Path} (h : Path.resolve? here t = .ok p) :
    p = Path.resolve here t := by
  simp only [Path.resolve?, bind_eq_ok, pure_eq_ok] at h
  obtain ⟨-, -, h⟩ := h
  exact h.symm

theorem existing_eq_ok {key : String} {word : Text} {p : Path} :
    existing fs here key word = .ok p ↔
      Path.resolve? here word = .ok p ∧ (fs.find p).isEntry = true := by
  simp only [existing, bind_eq_ok, mapError_eq_ok]
  constructor
  · rintro ⟨q, hq, h⟩
    split at h
    · next hthere =>
      obtain rfl := pure_eq_ok.mp h
      exact ⟨hq, hthere⟩
    · cases h
  · rintro ⟨hp, hthere⟩
    exact ⟨p, hp, by rw [if_pos hthere]; rfl⟩

def configOf (fs : Files) (here : Path) (word : Option Text) : Except Failure (Option Path) :=
  match word with
  | some word => (existing fs here "config" word).map some
  | none => .ok none

theorem configOf_eq_ok {word : Option Text} {config : Option Path} :
    configOf fs here word = .ok config ↔
      (word = none ∧ config = none) ∨
        ∃ w p, word = some w ∧ config = some p ∧ existing fs here "config" w = .ok p := by
  cases word with
  | none => simp [configOf, eq_comm]
  | some w =>
    cases hfile : existing fs here "config" w with
    | error e => simp [configOf, hfile, Except.map]
    | ok p => simp [configOf, hfile, Except.map, eq_comm]

theorem ofOptions_eq (fs : Files) (here : Path) (o : Options) :
    ofOptions fs here o = (do
      let config ← configOf fs here o.config
      let path ← existing fs here "path" (← argument "path" o.arguments[0]?)
      let output ← argument "output" o.arguments[1]?
      let output ← (Path.resolve? here output).mapError .unnameable
      match o.arguments.drop 2 with
      | [] => return ⟨o, config, path, output⟩
      | words => .error (.usage (.extraArguments words))) := by
  unfold ofOptions configOf
  cases o.config with
  | none => rfl
  | some word =>
    cases existing fs here "config" word <;> rfl

theorem argument_eq_ok {key : String} {word : Option Text} {given : Text} :
    argument key word = .ok given ↔ word = some given := by
  cases word <;> simp [argument]

/-- What options have to say for a request to be made of them. -/
theorem ofOptions_eq_ok :
    ofOptions fs here o = .ok r ↔
      configOf fs here o.config = .ok r.config ∧
      (∃ word, o.arguments[0]? = some word ∧ existing fs here "path" word = .ok r.path) ∧
      (∃ word, o.arguments[1]? = some word ∧ Path.resolve? here word = .ok r.output) ∧
      o.arguments.drop 2 = [] ∧ r.options = o := by
  simp only [ofOptions_eq, bind_eq_ok, argument_eq_ok, mapError_eq_ok]
  constructor
  · rintro ⟨config, hconfig, word, hword, path, hpath, given, hgiven, output, houtput, h⟩
    split at h
    · next hrest =>
      obtain rfl := pure_eq_ok.mp h
      exact ⟨hconfig, ⟨word, hword, hpath⟩, ⟨given, hgiven, houtput⟩, hrest, rfl⟩
    · cases h
  · rintro ⟨hconfig, ⟨word, hword, hpath⟩, ⟨given, hgiven, houtput⟩, hrest, rfl⟩
    refine ⟨r.config, hconfig, word, hword, r.path, hpath, given, hgiven, r.output, houtput, ?_⟩
    rw [hrest]
    rfl

/-- The same request is made again while its input and its file of settings are there. -/
theorem ofOptions_again (h : ofOptions fs here o = .ok r)
    (hconfig : ∀ p, r.config = some p → (fs'.find p).isEntry = true)
    (hpath : (fs'.find r.path).isEntry = true) : ofOptions fs' here o = .ok r := by
  obtain ⟨hfile, ⟨word, hword, hinput⟩, hrest⟩ := ofOptions_eq_ok.mp h
  refine ofOptions_eq_ok.mpr ⟨?_, ⟨word, hword, ?_⟩, hrest⟩
  · obtain ⟨hnone, hr⟩ | ⟨w, p, hw, hp, hexisting⟩ := configOf_eq_ok.mp hfile
    · exact configOf_eq_ok.mpr (.inl ⟨hnone, hr⟩)
    · have hresolved := (existing_eq_ok.mp hexisting).1
      exact configOf_eq_ok.mpr
        (.inr ⟨w, p, hw, hp, existing_eq_ok.mpr ⟨hresolved, hconfig p hp⟩⟩)
  · exact existing_eq_ok.mpr ⟨(existing_eq_ok.mp hinput).1, hpath⟩

/-- The paths of a request lead down name by name, and the input and the file of settings are
there. -/
structure IsSound (fs : Files) (r : Request) : Prop where
  config : ∀ p, r.config = some p → p.IsPlain ∧ (fs.find p).isEntry = true
  path : r.path.IsPlain ∧ (fs.find r.path).isEntry = true
  output : r.output.IsPlain

theorem isSound_ofOptions (hhere : here.IsPlain) (h : ofOptions fs here o = .ok r) :
    r.IsSound fs := by
  have hsound {key : String} {word : Text} {p : Path} (h : existing fs here key word = .ok p) :
      p.IsPlain ∧ (fs.find p).isEntry = true := by
    obtain ⟨hresolved, hthere⟩ := existing_eq_ok.mp h
    exact ⟨resolve?_eq_ok hresolved ▸ Path.isPlain_resolve hhere word, hthere⟩
  obtain ⟨hconfig, ⟨word, -, hpath⟩, ⟨given, -, houtput⟩, -, -⟩ := ofOptions_eq_ok.mp h
  refine ⟨fun p hp => ?_, hsound hpath,
    resolve?_eq_ok houtput ▸ Path.isPlain_resolve hhere given⟩
  obtain ⟨-, hr⟩ | ⟨w, q, -, hq, hexisting⟩ := configOf_eq_ok.mp hconfig
  · rw [hp] at hr
    cases hr
  · obtain rfl : q = p := Option.some.inj (hq.symm.trans hp)
    exact hsound hexisting

end ScriptTree.Command.Request
