import Mathlib
import ScriptTree.Command
import ScriptTree.Proofs.Files.Output
import ScriptTree.Proofs.Outcome

/-!
A run of the command changes no file but its output, and that one only if it succeeds: whatever
goes wrong before, while or after the output is written, and whatever the parser thinks of it, the
regular files are those that were there before. This takes settings that ask for the atomic way to
write, as they do unless a file of settings says otherwise.
-/

namespace ScriptTree.Command

variable {parser : Check} {fs : Files} {here : Path} {r : Request} {job : Job} {source : Text}
  {plan : Files.OutputPlan}

def Request.settings (fs : Files) (r : Request) : Except Failure Settings := do
  let settings ← readSettings fs r.config
  (override r.options settings).mapError .settings

/-- Whatever settings there are for the output, they ask for the atomic way to write it. -/
def Request.IsAtomic (fs : Files) (r : Request) : Prop :=
  ∀ settings output, r.settings fs = .ok settings → settings.output.get = .ok output →
    output.atomic.isYes = true

/-- The request was carried out: the output holds the source that was generated, no other regular
file is another one, and without force nothing stood where the output is now. -/
def Request.IsFulfilled (parser : Check) (fs : Files) (here : Path) (r : Request) (after : Files) :
    Prop :=
  ∃ job source plan bytes, Job.ofRequest fs here r = .ok job ∧
    job.product parser = .ok (source, plan) ∧ source.toUtf8? = some bytes ∧
    after.entry? r.output = some (.file bytes) ∧ Files.SameFilesBut r.output fs after ∧
    (plan.force = false → ∀ e, fs.find r.output ≠ .entry e)

/-! ### Settings -/

theorem ofRequest_eq_ok :
    Job.ofRequest fs here r = .ok job ↔
      r.settings fs = .ok job.generator.settings ∧
      (∃ text, readFile fs r.path = .ok text ∧ Exchange.readText text = .ok job.tree) ∧
      line fs here r.values = .ok job.generator.commandLine := by
  simp only [Job.ofRequest, Request.settings, bind_eq_ok, mapError_eq_ok, pure_eq_ok]
  constructor
  · rintro ⟨read, hread, settings, hsettings, text, htext, described, hline, tree, htree, rfl⟩
    exact ⟨⟨read, hread, hsettings⟩, ⟨text, htext, htree⟩, hline⟩
  · rintro ⟨⟨read, hread, hsettings⟩, ⟨text, htext, htree⟩, hline⟩
    exact ⟨read, hread, _, hsettings, text, htext, _, hline, _, htree, rfl⟩

theorem product_eq_ok :
    job.product parser = .ok (source, plan) ↔
      job.generator.generate job.tree = .ok source ∧
      ∃ output, job.generator.settings.output.get = .ok output ∧ plan = planOf parser output := by
  simp only [Job.product, bind_eq_ok, mapError_eq_ok, pure_eq_ok, Prod.mk.injEq]
  constructor
  · rintro ⟨_, hsource, output, houtput, rfl, rfl⟩
    exact ⟨hsource, output, houtput, rfl⟩
  · rintro ⟨hsource, output, houtput, rfl⟩
    exact ⟨_, hsource, output, houtput, rfl, rfl⟩

def KeepsAtomic (s s' : Settings) : Prop :=
  ∀ output, s'.output.get = .ok output →
    ∃ given, s.output.get = .ok given ∧ output.atomic = given.atomic

theorem KeepsAtomic.refl (s : Settings) : KeepsAtomic s s := fun output h => ⟨output, h, rfl⟩

theorem KeepsAtomic.trans {s s' s'' : Settings} (h : KeepsAtomic s s') (h' : KeepsAtomic s' s'') :
    KeepsAtomic s s'' := by
  intro output houtput
  obtain ⟨between, hbetween, heq'⟩ := h' output houtput
  obtain ⟨given, hgiven, heq⟩ := h between hbetween
  exact ⟨given, hgiven, heq'.trans heq⟩

theorem keepsAtomic_modifyPrinter {s s' : Settings} {f : PrintSettings → PrintSettings}
    (h : s.modifyPrinter f = .ok s') : KeepsAtomic s s' := by
  simp only [Settings.modifyPrinter, bind_eq_ok, pure_eq_ok] at h
  obtain ⟨printer, -, rfl⟩ := h
  exact .refl s

theorem get_modifyOutput {s s' : Settings} {f : OutputSettings → OutputSettings}
    {output : OutputSettings} (h : s.modifyOutput f = .ok s')
    (houtput : s'.output.get = .ok output) :
    ∃ given, s.output.get = .ok given ∧ output = f given := by
  simp only [Settings.modifyOutput, Group.modify, bind_eq_ok, pure_eq_ok] at h
  obtain ⟨_, ⟨given, hgiven, rfl⟩, rfl⟩ := h
  exact ⟨given, hgiven, (Except.ok.inj houtput).symm⟩

theorem keepsAtomic_modifyOutput {s s' : Settings} {f : OutputSettings → OutputSettings}
    (hf : ∀ output, (f output).atomic = output.atomic) (h : s.modifyOutput f = .ok s') :
    KeepsAtomic s s' := by
  rintro output houtput
  obtain ⟨given, hgiven, rfl⟩ := get_modifyOutput h houtput
  exact ⟨given, hgiven, hf given⟩

theorem keepsAtomic_changedIf {condition : Bool} {change : Settings → Except SettingsError Settings}
    (hchange : ∀ s s', change s = .ok s' → KeepsAtomic s s') {s s' : Settings}
    (h : changedIf condition change s = .ok s') : KeepsAtomic s s' := by
  unfold changedIf at h
  split at h
  · exact hchange s s' h
  · exact Except.ok.inj h ▸ .refl s

/-- No option changes whether the output is written the atomic way. -/
theorem keepsAtomic_override {o : Options} {s s' : Settings} (h : override o s = .ok s') :
    KeepsAtomic s s' := by
  simp only [override, bind_eq_ok] at h
  obtain ⟨s₁, hminify, s₂, hindent, s₃, hforce, s₄, hheader, hvalidate⟩ := h
  have h₁ := keepsAtomic_changedIf (fun _ _ => keepsAtomic_modifyPrinter) hminify
  have h₂ : KeepsAtomic s₁ s₂ := by
    cases hunit : o.indent with
    | none =>
      rw [hunit] at hindent
      exact Except.ok.inj hindent ▸ .refl s₁
    | some unit =>
      rw [hunit] at hindent
      exact keepsAtomic_modifyPrinter hindent
  have h₃ : KeepsAtomic s₂ s₃ := by
    refine keepsAtomic_changedIf (fun _ _ h => ?_) hforce
    exact keepsAtomic_modifyOutput (fun _ => by rfl) h
  have h₄ : KeepsAtomic s₃ s₄ := by
    refine keepsAtomic_changedIf (fun s s' h => ?_) hheader
    obtain rfl := Except.ok.inj h
    exact .refl s
  have h₅ : KeepsAtomic s₄ s' := by
    refine keepsAtomic_changedIf (fun _ _ h => ?_) hvalidate
    exact keepsAtomic_modifyOutput (fun _ => by rfl) h
  exact (((h₁.trans h₂).trans h₃).trans h₄).trans h₅

theorem isAtomic_of_config (h : r.config = none) : r.IsAtomic fs := by
  intro settings output hsettings houtput
  rw [Request.settings, h, readSettings, ok_bind, mapError_eq_ok] at hsettings
  obtain ⟨given, hgiven, hatomic⟩ := keepsAtomic_override hsettings output houtput
  obtain rfl := Except.ok.inj hgiven
  rw [hatomic]
  rfl

/-! ### Runs -/

theorem run_cases (parser : Check) (here : Path) (h : r.IsAtomic fs) :
    (r.run parser fs here).failure ≠ none ∧ fs.SameFiles (r.run parser fs here).files ∨
      (r.run parser fs here).failure = none ∧
        r.IsFulfilled parser fs here (r.run parser fs here).files := by
  cases hjob : Job.ofRequest fs here r with
  | error e => exact .inl (by simp [Request.run, hjob, Files.SameFiles.refl])
  | ok job =>
    cases hproduct : job.product parser with
    | error e => exact .inl (by simp [Request.run, hjob, hproduct, Files.SameFiles.refl])
    | ok product =>
      obtain ⟨source, plan⟩ := product
      obtain ⟨-, output, houtput, hplan⟩ := product_eq_ok.mp hproduct
      have hatomic : plan.atomic = true := by
        rw [hplan]
        exact h _ output (ofRequest_eq_ok.mp hjob).1 houtput
      have hwritten := Files.isAtomic_output hatomic fs r.output source
      rcases heq : fs.output plan r.output source with ⟨_ | _, after⟩
      · have hfiles : (r.run parser fs here).files = after := by
          simp [Request.run, hjob, hproduct, heq]
        rw [heq] at hwritten
        exact .inl ⟨by simp [Request.run, hjob, hproduct, heq], hfiles ▸ hwritten⟩
      · have hfiles : (r.run parser fs here).files = after := by
          simp [Request.run, hjob, hproduct, heq]
        rw [heq] at hwritten
        obtain ⟨bytes, hbytes, htarget, hbut⟩ := hwritten
        refine .inr ⟨by simp [Request.run, hjob, hproduct, heq], ?_⟩
        exact hfiles ▸ ⟨job, source, plan, bytes, hjob, hproduct, hbytes, htarget, hbut,
          fun hforce => Files.find_of_output hatomic hforce heq⟩

theorem exitCode_some (failure : Failure) : exitCode (some failure) ≠ 0 := by
  cases failure <;> simp [exitCode]

/-- A run exits with zero exactly if it did not fail. -/
theorem exitCode_result (verbose : Bool) (outcome : Outcome) :
    (outcome.result verbose).exitCode = 0 ↔ outcome.failure = none := by
  unfold Outcome.result
  cases outcome.failure with
  | none => exact iff_of_true rfl rfl
  | some failure =>
    refine iff_of_false ?_ (by simp)
    dsimp only
    split
    · exact exitCode_some failure
    · exact exitCode_some .unencodableReport

theorem exitCode_refused (fs : Files) (failure : Failure) : (refused fs failure).exitCode ≠ 0 := by
  rw [refused, Ne, exitCode_result]
  simp

theorem runWith_request (parser : Check) {words : List Text} {options : Options}
    (hread : Options.read words = .ok options) (hhelp : options.help = false)
    (hrequest : Request.ofOptions fs here options = .ok r) :
    runWith parser fs here words = (r.run parser fs here).result options.verbose := by
  simp [runWith, hread, hhelp, hrequest]

/-- A command that does not exit with zero leaves all regular files as they were. One that does
was asked for help and leaves everything as it was, or carried out a request and changed the
output only. -/
theorem runWith_atomic (parser : Check) {words : List Text}
    (h : ∀ options r, Options.read words = .ok options →
      Request.ofOptions fs here options = .ok r → r.IsAtomic fs) :
    ((runWith parser fs here words).exitCode ≠ 0 →
      fs.SameFiles (runWith parser fs here words).files) ∧
    ((runWith parser fs here words).exitCode = 0 → ∃ options, Options.read words = .ok options ∧
      (options.help = true ∧ (runWith parser fs here words).files = fs ∨
        options.help = false ∧ ∃ r, Request.ofOptions fs here options = .ok r ∧
          r.IsFulfilled parser fs here (runWith parser fs here words).files)) := by
  cases hread : Options.read words with
  | error e =>
    have hrun : runWith parser fs here words = refused fs (.usage e) := by simp [runWith, hread]
    rw [hrun]
    exact ⟨fun _ => .refl fs, fun hzero => absurd hzero (exitCode_refused fs _)⟩
  | ok options =>
    cases hhelp : options.help with
    | true =>
      have hrun : runWith parser fs here words = ⟨0, helpText, none, fs⟩ := by
        simp [runWith, hread, hhelp]
      rw [hrun]
      exact ⟨fun _ => .refl fs, fun _ => ⟨options, rfl, .inl ⟨hhelp, rfl⟩⟩⟩
    | false =>
      cases hrequest : Request.ofOptions fs here options with
      | error e =>
        have hrun : runWith parser fs here words = refused fs e := by
          simp [runWith, hread, hhelp, hrequest]
        rw [hrun]
        exact ⟨fun _ => .refl fs, fun hzero => absurd hzero (exitCode_refused fs _)⟩
      | ok r =>
        rw [runWith_request parser hread hhelp hrequest, Ne, exitCode_result]
        obtain ⟨hfailure, hsame⟩ | ⟨hfailure, hfulfilled⟩ :=
          run_cases parser here (h options r hread hrequest)
        · exact ⟨fun _ => hsame, fun hnone => absurd hnone hfailure⟩
        · exact ⟨fun hsome => absurd hfailure hsome,
            fun _ => ⟨options, rfl, .inr ⟨hhelp, r, hrequest, hfulfilled⟩⟩⟩

theorem config_of_options {o : Options} (h : Request.ofOptions fs here o = .ok r)
    (hconfig : o.config = none) : r.config = none := by
  simp only [Request.ofOptions, hconfig, ok_bind, bind_eq_ok] at h
  obtain ⟨_, -, path, -, _, -, output, -, h⟩ := h
  split at h
  · exact Except.ok.inj h ▸ rfl
  · cases h

def workshop : Files :=
  ⟨[([Text.ofString "in"], .file [0x6E, 0x75, 0x6C, 0x6C]), ([Text.ofString "other"], .file [1])]⟩

def workOrder (input : Text) : List Text := [input, "new/out", "--no-header"]

theorem isAtomic_workOrder {input : Text} (hinput : Options.isOption input = false)
    (hdashes : input ≠ "--") {options : Options} {r : Request}
    (hread : Options.read (workOrder input) = .ok options)
    (h : Request.ofOptions workshop [] options = .ok r) : r.IsAtomic workshop := by
  refine isAtomic_of_config (config_of_options h ?_)
  rw [Options.read, workOrder, Options.readFrom, if_neg hdashes, hinput] at hread
  obtain rfl := Except.ok.inj hread
  rfl

/-- An input that is there becomes the output, and one that is not changes nothing. -/
theorem runWith_atomic_workOrder :
    (∃ r, Request.IsFulfilled Check.unavailable workshop [] r
      (runWith Check.unavailable workshop [] (workOrder "in")).files) ∧
    workshop.SameFiles (runWith Check.unavailable workshop [] (workOrder "gone")).files := by
  have hdone : (runWith Check.unavailable workshop [] (workOrder "in")).exitCode = 0 := by cbv
  have hgone : (runWith Check.unavailable workshop [] (workOrder "gone")).exitCode ≠ 0 :=
    exitCode_refused workshop (.usage (.noSuchFile "path" "gone"))
  obtain ⟨options, hread, ⟨hhelp, -⟩ | ⟨-, r, -, hfulfilled⟩⟩ := (runWith_atomic Check.unavailable
    fun options r => isAtomic_workOrder (by decide) (by decide)).2 hdone
  · obtain rfl := Except.ok.inj hread
    cases hhelp
  · exact ⟨⟨r, hfulfilled⟩, (runWith_atomic Check.unavailable fun options r =>
      isAtomic_workOrder (by decide) (by decide)).1 hgone⟩

end ScriptTree.Command
