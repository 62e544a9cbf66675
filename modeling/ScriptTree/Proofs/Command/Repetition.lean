import ScriptTree.Proofs.Command.Atomicity
import ScriptTree.Proofs.Command.Requests
import ScriptTree.Proofs.Encoding

/-!
A command that is run twice with force. The second run finds the same input and the same
settings and can write its output again, so it repeats the first one exactly if it describes
itself alike, or does not describe itself at all. The description shows the output by its last
name if it is there and in full if it is not. So a run that creates its output is repeated only
without the comment.
-/

namespace ScriptTree

namespace Generator

variable {g : Generator} {t : Tree} {source : Text}

/-- The comment up to the command line. -/
def introduction : Text := Text.join ["// Generated by ", commandName, " v", version, " : "]

/-- Whether there is a comment does not depend on the command line that it names. -/
theorem comment_cases (g : Generator) :
    (∃ e, ∀ line, ({ g with commandLine := line } : Generator).comment = .error e) ∨
      (∀ line, ({ g with commandLine := line } : Generator).comment = .ok none) ∨
      ∀ line, ({ g with commandLine := line } : Generator).comment =
        .ok (some (introduction ++ line)) := by
  cases hadd : g.settings.addComment.isYes with
  | false => exact .inr (.inl fun line => by simp [comment, hadd, pure, Except.pure])
  | true =>
    cases hprinter : g.settings.printer.get with
    | error e => exact .inl ⟨e, fun line => by simp [comment, hadd, hprinter]⟩
    | ok printer =>
      cases hshort : printer.minify.isYes && !g.settings.commentWhenMinified.isYes with
      | true =>
        refine .inr (.inl fun line => ?_)
        simp only [comment, hadd, hprinter, Bool.not_true, Bool.false_eq_true, if_false, ok_bind,
          hshort, if_true]
        rfl
      | false =>
        refine .inr (.inr fun line => ?_)
        simp only [comment, hadd, hprinter, Bool.not_true, Bool.false_eq_true, if_false, ok_bind,
          hshort]
        simp [introduction, Text.join, pure, Except.pure]

def IsSigned (g : Generator) : Prop := ∃ comment, g.comment = .ok (some comment)

theorem isSigned_iff (line : Text) (h : g.generate t = .ok source) :
    ({ g with commandLine := line } : Generator).IsSigned ↔ g.comment ≠ .ok none := by
  obtain ⟨e, herror⟩ | hnone | hsome := comment_cases g
  · simp only [generate, bind_eq_ok, mapError_eq_ok] at h
    obtain ⟨-, -, -, -, comment, hcomment, -⟩ := h
    have hfailed : g.comment = .error e := herror g.commandLine
    rw [hcomment] at hfailed
    cases hfailed
  · have hg : g.comment = .ok none := hnone g.commandLine
    simp [IsSigned, hnone]
  · have hg : g.comment = .ok (some (introduction ++ g.commandLine)) := hsome g.commandLine
    simp [IsSigned, hsome]

/-- A source that was generated is generated with every command line: without a comment it is
the same, and with one it differs in the command line only. -/
theorem generate_cases (h : g.generate t = .ok source) :
    (g.comment = .ok none ∧
        ∀ line, ({ g with commandLine := line } : Generator).generate t = .ok source) ∨
      g.IsSigned ∧ ∃ body, source = introduction ++ (g.commandLine ++ body) ∧
        ∀ line, ({ g with commandLine := line } : Generator).generate t =
          .ok (introduction ++ (line ++ body)) := by
  simp only [generate, bind_eq_ok, mapError_eq_ok, pure_eq_ok] at h
  obtain ⟨settings, hsettings, printed, hprinted, comment, hcomment, rfl⟩ := h
  have hgenerate (line : Text) {c : Option Text}
      (hc : ({ g with commandLine := line } : Generator).comment = .ok c) :
      ({ g with commandLine := line } : Generator).generate t = .ok (header c ++ printed) := by
    simp only [generate, bind_eq_ok, mapError_eq_ok, pure_eq_ok]
    exact ⟨settings, hsettings, printed, hprinted, c, hc, rfl⟩
  obtain ⟨e, herror⟩ | hnone | hsome := comment_cases g
  · have hfailed : g.comment = .error e := herror g.commandLine
    rw [hcomment] at hfailed
    cases hfailed
  · have hg : g.comment = .ok none := hnone g.commandLine
    obtain rfl := Except.ok.inj (hcomment.symm.trans hg)
    exact .inl ⟨hg, fun line => hgenerate line (hnone line)⟩
  · have hg : g.comment = .ok (some (introduction ++ g.commandLine)) := hsome g.commandLine
    obtain rfl := Except.ok.inj (hcomment.symm.trans hg)
    refine .inr ⟨⟨_, hg⟩, "\n" ++ printed, by simp [header], fun line => ?_⟩
    rw [hgenerate line (hsome line)]
    simp [header]

end Generator

namespace Command

variable {parser : Check} {fs after : Files} {here : Path} {r : Request} {job : Job}
  {source described : Text} {plan : Files.OutputPlan}

/-! ### One run -/

structure Request.Done (parser : Check) (fs : Files) (here : Path) (r : Request) (job : Job)
    (source : Text) (plan : Files.OutputPlan) (after : Files) : Prop where
  read : Job.ofRequest fs here r = .ok job
  made : job.product parser = .ok (source, plan)
  written : fs.output plan r.output source = (.ok (), after)

theorem run_of_done (h : r.Done parser fs here job source plan after) :
    r.run parser fs here = ⟨none, [job.readLine, writtenLine source r.output], after⟩ := by
  simp only [Request.run, h.read, h.made, h.written]

theorem run_done :
    (r.run parser fs here).failure = none ↔
      ∃ job source plan, r.Done parser fs here job source plan (r.run parser fs here).files := by
  refine ⟨fun h => ?_, fun ⟨job, source, plan, hdone⟩ => by rw [run_of_done hdone]⟩
  cases hjob : Job.ofRequest fs here r with
  | error e => simp [Request.run, hjob] at h
  | ok job =>
    cases hproduct : job.product parser with
    | error e => simp [Request.run, hjob, hproduct] at h
    | ok product =>
      obtain ⟨source, plan⟩ := product
      rcases hwritten : fs.output plan r.output source with ⟨_ | _, after⟩
      · simp [Request.run, hjob, hproduct, hwritten] at h
      · have hdone : r.Done parser fs here job source plan after := ⟨hjob, hproduct, hwritten⟩
        exact ⟨job, source, plan, by rwa [run_of_done hdone]⟩

/-! ### Force -/

def Overwrites (s : Settings) : Prop :=
  ∀ output, s.output.get = .ok output → output.mode = .known .overwrite

/-- The option has its way over the file of settings. -/
theorem overwrites_override {o : Options} {s s' : Settings} (hforce : o.force = true)
    (h : override o s = .ok s') : Overwrites s' := by
  simp only [override, hforce, bind_eq_ok] at h
  obtain ⟨s₁, -, s₂, -, s₃, hmode, s₄, hheader, hvalidate⟩ := h
  have h₃ : Overwrites s₃ := by
    intro output houtput
    obtain ⟨given, -, rfl⟩ := get_modifyOutput hmode houtput
    rfl
  have h₄ : Overwrites s₄ := by
    unfold changedIf at hheader
    split at hheader
    · obtain rfl := Except.ok.inj hheader
      exact h₃
    · obtain rfl := Except.ok.inj hheader
      exact h₃
  unfold changedIf at hvalidate
  split at hvalidate
  · intro output houtput
    obtain ⟨given, hgiven, rfl⟩ := get_modifyOutput hvalidate houtput
    exact h₄ given hgiven
  · obtain rfl := Except.ok.inj hvalidate
    exact h₄

theorem force_of_done (hforce : r.options.force = true)
    (hdone : r.Done parser fs here job source plan after) : plan.force = true := by
  have hsettings := (ofRequest_eq_ok.mp hdone.read).1
  simp only [Request.settings, bind_eq_ok, mapError_eq_ok] at hsettings
  obtain ⟨given, -, hoverride⟩ := hsettings
  obtain ⟨-, output, houtput, rfl⟩ := product_eq_ok.mp hdone.made
  exact decide_eq_true (overwrites_override hforce hoverride output houtput)

/-! ### The next run -/

section Again

variable (hforce : plan.force = true) (htree : fs.IsTree) (hsound : r.IsSound fs)
  (hpath : r.path ≠ r.output) (hconfig : r.config ≠ some r.output)
  (hdone : r.Done parser fs here job source plan after)

theorem readFile_kept {p : Path} {e : Entry} (h : fs.find p = .entry e)
    (h' : after.find p = .entry e) : readFile after p = readFile fs p := by
  rw [readFile, readFile, Files.entry?_of_find h, Files.entry?_of_find h']

theorem exists_of_isEntry {p : Path} (h : (fs.find p).isEntry = true) :
    ∃ e, fs.find p = .entry e := by
  cases hfind : fs.find p with
  | entry e => exact ⟨e, rfl⟩
  | _ =>
    rw [hfind] at h
    cases h

include hforce htree hsound hpath hconfig hdone

/-- The next run reads what the first one read, but may describe itself otherwise. -/
theorem ofRequest_again {job' : Job} :
    Job.ofRequest after here r = .ok job' ↔
      ∃ described, line after here r.values = .ok described ∧
        job' = ⟨job.tree, job.generator.settings, described⟩ := by
  obtain ⟨-, -, -, -, hkept⟩ := Files.find_output htree hforce hdone.written
  obtain ⟨e, hinput⟩ := exists_of_isEntry hsound.path.2
  have htext : readFile after r.path = readFile fs r.path :=
    readFile_kept hinput (hkept _ _ hpath hinput)
  have hsettings : r.settings after = r.settings fs := by
    unfold Request.settings
    cases hfile : r.config with
    | none => rfl
    | some p =>
      obtain ⟨e, hp⟩ := exists_of_isEntry (hsound.config p hfile).2
      have hne : p ≠ r.output := by
        rintro rfl
        exact hconfig hfile
      simp only [readSettings, readFile_kept hp (hkept _ _ hne hp)]
  obtain ⟨hread, ⟨text, hfile, htree⟩, -⟩ := ofRequest_eq_ok.mp hdone.read
  rw [ofRequest_eq_ok, hsettings, htext, hread, hfile]
  constructor
  · rintro ⟨hsame, ⟨text', htext', htree'⟩, hline⟩
    obtain ⟨tree', settings', described⟩ := job'
    obtain rfl := Except.ok.inj htext'
    have htrees : job.tree = tree' := Except.ok.inj (htree.symm.trans htree')
    have hgiven : job.generator.settings = settings' := Except.ok.inj hsame
    exact ⟨described, hline, by rw [htrees, hgiven]⟩
  · rintro ⟨described, hline, rfl⟩
    exact ⟨rfl, ⟨text, rfl, htree⟩, hline⟩

/-- The next run leaves the output as it is exactly if it describes itself as the first one
did, or there is no comment. -/
theorem done_again_iff :
    (∃ job' source' plan' after', r.Done parser after here job' source' plan' after' ∧
        after'.entry? r.output = after.entry? r.output) ↔
      ∃ described, line after here r.values = .ok described ∧
        (described = job.generator.commandLine ∨ job.generator.comment = .ok none) := by
  obtain ⟨bytes, hbytes, -, hfound, -⟩ := Files.find_output htree hforce hdone.written
  have hentry := Files.entry?_of_find hfound
  obtain ⟨hgenerated, output, houtput, rfl⟩ := product_eq_ok.mp hdone.made
  have hcases := Generator.generate_cases hgenerated
  constructor
  · rintro ⟨job', source', plan', after', hagain, hsame⟩
    obtain ⟨described, hline, rfl⟩ :=
      (ofRequest_again hforce htree hsound hpath hconfig hdone).mp hagain.read
    obtain ⟨hgenerated', output', houtput', rfl⟩ := product_eq_ok.mp hagain.made
    obtain rfl := Except.ok.inj (houtput.symm.trans houtput')
    obtain ⟨-, bytes', made, haccepts, -, -, hholds⟩ := Files.output_ok hforce hagain.written
    refine ⟨described, hline, ?_⟩
    rw [hholds, if_pos rfl, hentry, Option.some.injEq, Entry.file.injEq] at hsame
    rw [← hsame] at hbytes
    have hsources : source = source' := Text.toUtf8?_inj hbytes haccepts.encoded
    obtain ⟨hnone, -⟩ | ⟨-, body, hsource, hall⟩ := hcases
    · exact .inr hnone
    · have hsource' := Except.ok.inj ((hall described).symm.trans hgenerated')
      rw [hsources, ← hsource', List.append_cancel_left_eq, List.append_cancel_right_eq] at hsource
      exact .inl hsource
  · rintro ⟨described, hline, hdescribed⟩
    have hread := (ofRequest_again hforce htree hsound hpath hconfig hdone).mpr
      ⟨described, hline, rfl⟩
    have hproduct : Job.product parser ⟨job.tree, job.generator.settings, described⟩ =
        .ok (source, planOf parser output) := by
      refine product_eq_ok.mpr ⟨?_, output, houtput, rfl⟩
      rcases hdescribed with rfl | hnone
      · exact hgenerated
      · obtain ⟨-, hall⟩ | ⟨⟨comment, hsigned⟩, -⟩ := hcases
        · exact hall described
        · rw [hnone] at hsigned
          cases hsigned
    obtain ⟨-, bytes', made, haccepts, -, -, -⟩ := Files.output_ok hforce hdone.written
    obtain rfl := Option.some.inj (hbytes.symm.trans haccepts.encoded)
    obtain ⟨after', hwritten, hholds⟩ :=
      Files.output_again htree hforce hdone.written haccepts
    exact ⟨_, _, _, after', ⟨hread, hproduct, hwritten⟩, by rw [hholds, if_pos rfl, hentry]⟩

/-- The next run describes itself as the first one did if the output was there before. If it was
not, the next run can be without the comment only, as long as what its unit of indentation names
is known. -/
theorem line_again_iff :
    (∃ described, line after here r.values = .ok described ∧
        (described = job.generator.commandLine ∨ job.generator.comment = .ok none)) ↔
      (fs.find r.output).isEntry = true ∨ job.generator.comment = .ok none ∧
        ∀ unit, r.options.indent = some unit → ∃ there, after.names here unit = .ok there := by
  obtain ⟨bytes, -, hcheck, hfound, hkept⟩ := Files.find_output htree hforce hdone.written
  obtain ⟨-, -, hline⟩ := ofRequest_eq_ok.mp hdone.read
  obtain ⟨hread, ⟨there, hthere⟩, hfile, -⟩ := known_of_line hline
  have hnames {p : Path} (hp : p.IsPlain ∧ (fs.find p).isEntry = true) (hne : p ≠ r.output) :
      after.names here p.text = fs.names here p.text := by
    obtain ⟨e, he⟩ := exists_of_isEntry hp.2
    exact names_kept hp.1 he (hkept p e hne he)
  have hwritten : after.names here r.output.text = .ok true :=
    names_found hsound.output hcheck hfound
  constructor
  · rintro ⟨described, hagain, rfl | hnone⟩
    · left
      -- A new output is shown in full the first time and by its name afterwards.
      by_contra hstood
      cases there with
      | true => exact hstood (isEntry_of_names hsound.output hthere)
      | false =>
        obtain ⟨-, _, _, -, -, hopen, -⟩ := Files.output_ok hforce hdone.written
        exact line_ne hsound.output (Files.ne_root hopen) (hnames hsound.path hpath) hthere
          hwritten hline hagain
    · exact .inr ⟨hnone, (known_of_line hagain).2.2.2⟩
  · rintro (hstood | ⟨hnone, hindent⟩)
    · obtain ⟨e, hstood⟩ := exists_of_isEntry hstood
      have hshape := Files.sameShape_output hforce hdone.written hstood
      rw [line_congr (Files.names_congr hshape here)]
      exact ⟨_, hline, .inl rfl⟩
    · obtain ⟨described, hagain⟩ : ∃ described, line after here r.values = .ok described := by
        refine line_known ?_ ⟨true, hwritten⟩ (fun p hp => ?_) hindent
        · rw [hnames hsound.path hpath]
          exact hread
        · rw [hnames (hsound.config p hp) fun heq => hconfig (heq ▸ hp)]
          exact hfile p hp
      exact ⟨described, hagain, .inr hnone⟩

end Again

/-! ### The same words again -/

def Request.IsSigned (fs : Files) (r : Request) : Prop :=
  ∃ settings, r.settings fs = .ok settings ∧ Generator.IsSigned { settings }

def Keeps (parser : Check) (fs : Files) (here : Path) (words : List Text) (p : Path) : Prop :=
  (runWith parser fs here words).exitCode = 0 ∧
    (runWith parser fs here words).files.entry? p = fs.entry? p

theorem isSigned_of_done (hdone : r.Done parser fs here job source plan after) :
    r.IsSigned fs ↔ job.generator.comment ≠ .ok none := by
  obtain ⟨hgenerated, -⟩ := product_eq_ok.mp hdone.made
  rw [← Generator.isSigned_iff commandName hgenerated]
  constructor
  · rintro ⟨settings, hsettings, hsigned⟩
    obtain rfl := Except.ok.inj ((ofRequest_eq_ok.mp hdone.read).1.symm.trans hsettings)
    exact hsigned
  · exact fun hsigned => ⟨_, (ofRequest_eq_ok.mp hdone.read).1, hsigned⟩

theorem keeps_iff {words : List Text} {options : Options}
    (hread : Options.read words = .ok options) (hhelp : options.help = false)
    (hrequest : Request.ofOptions fs here options = .ok r) {p : Path} :
    Keeps parser fs here words p ↔
      ∃ job source plan after, r.Done parser fs here job source plan after ∧
        after.entry? p = fs.entry? p := by
  rw [Keeps, runWith_request parser hread hhelp hrequest, exitCode_result, run_done]
  constructor
  · rintro ⟨⟨job, source, plan, hdone⟩, hsame⟩
    exact ⟨job, source, plan, _, hdone, hsame⟩
  · rintro ⟨job, source, plan, after, hdone, hsame⟩
    rw [run_of_done hdone]
    exact ⟨⟨job, source, plan, hdone⟩, hsame⟩

theorem files_of_done {words : List Text} (hread : Options.read words = .ok r.options)
    (hhelp : r.options.help = false) (hrequest : Request.ofOptions fs here r.options = .ok r)
    (hdone : r.Done parser fs here job source plan after) :
    (runWith parser fs here words).exitCode = 0 ∧ (runWith parser fs here words).files = after := by
  rw [runWith_request parser hread hhelp hrequest, exitCode_result, run_of_done hdone]
  exact ⟨rfl, rfl⟩

/-- When the words that a request was made of carry it out once more. -/
theorem keeps_again {words : List Text} (hhere : here.IsPlain) (htree : fs.IsTree)
    (hread : Options.read words = .ok r.options) (hhelp : r.options.help = false)
    (hforce : r.options.force = true) (hrequest : Request.ofOptions fs here r.options = .ok r)
    (hpath : r.path ≠ r.output) (hconfig : r.config ≠ some r.output)
    (hdone : r.Done parser fs here job source plan after) :
    Keeps parser after here words r.output ↔
      (fs.find r.output).isEntry = true ∨ job.generator.comment = .ok none ∧
        ∀ unit, r.options.indent = some unit → ∃ there, after.names here unit = .ok there := by
  have hsound := Request.isSound_ofOptions hhere hrequest
  have hplan := force_of_done hforce hdone
  obtain ⟨-, -, -, -, hkept⟩ := Files.find_output htree hplan hdone.written
  have hthere {p : Path} (hp : (fs.find p).isEntry = true) (hne : p ≠ r.output) :
      (after.find p).isEntry = true := by
    obtain ⟨e, he⟩ := exists_of_isEntry hp
    rw [hkept p e hne he]
    rfl
  have hagain : Request.ofOptions after here r.options = .ok r := by
    refine Request.ofOptions_again hrequest (fun p hp => ?_) (hthere hsound.path.2 hpath)
    exact hthere (hsound.config p hp).2 fun heq => hconfig (heq ▸ hp)
  rw [keeps_iff hread hhelp hagain, done_again_iff hplan htree hsound hpath hconfig hdone,
    line_again_iff hplan htree hsound hpath hconfig hdone]

def demanded (output : Text) : Request :=
  ⟨{ force := true, arguments := ["in", output] }, none, ["in"], [output]⟩

def demandedJob (described : Text) : Job :=
  ⟨.missing, ⟨{ output := .given { mode := .known .overwrite } }, described⟩⟩

theorem isTree_workshop : workshop.IsTree := by
  have hplaces : ∀ place ∈ workshop.entries, place.1.length = 1 := by decide
  have hall (places : List (Path × Entry)) (hplaces : ∀ place ∈ places, place.1.length = 1)
      (p : Path) (e : Entry) (he : Files.lookup? places p = some e) : p.length = 1 := by
    induction places with
    | nil => cases he
    | cons place places ih =>
      rw [List.forall_mem_cons] at hplaces
      rw [Files.lookup?] at he
      split at he
      · next heq => exact heq ▸ hplaces.1
      · exact ih hplaces.2 he
  intro p name e he
  rw [Files.entry?, if_neg (by simp)] at he
  have hlength := hall _ hplaces _ e he
  rw [List.length_append, List.length_singleton, Nat.add_eq_right] at hlength
  rw [List.length_eq_zero_iff.mp hlength]
  rfl

theorem ofRequest_demanded {output described : Text}
    (h : line workshop [] (demanded output).values = .ok described) :
    Job.ofRequest workshop [] (demanded output) = .ok (demandedJob described) := by
  have hempty : Exchange.readText "null" = .ok .missing := by cbv
  exact ofRequest_eq_ok.mpr ⟨rfl, ⟨"null", rfl, hempty⟩, h⟩

/-- A command that succeeded with force, and did not overwrite what it read, is repeated by the
same words exactly if the output was there before, or the source has no comment and it can be
told what the unit of indentation names. -/
theorem runWith_again {words : List Text} {options : Options} (hhere : here.IsPlain)
    (htree : fs.IsTree) (hread : Options.read words = .ok options) (hhelp : options.help = false)
    (hforce : options.force = true) (hrequest : Request.ofOptions fs here options = .ok r)
    (hpath : r.path ≠ r.output) (hconfig : r.config ≠ some r.output)
    (hexit : (runWith parser fs here words).exitCode = 0) :
    Keeps parser (runWith parser fs here words).files here words r.output ↔
      (fs.find r.output).isEntry = true ∨ ¬ r.IsSigned fs ∧
        ∀ unit, options.indent = some unit →
          ∃ there, (runWith parser fs here words).files.names here unit = .ok there := by
  obtain ⟨-, -, -, -, rfl⟩ := Request.ofOptions_eq_ok.mp hrequest
  rw [runWith_request parser hread hhelp hrequest, exitCode_result, run_done] at hexit
  obtain ⟨job, source, plan, hdone⟩ := hexit
  rw [(files_of_done hread hhelp hrequest hdone).2,
    keeps_again hhere htree hread hhelp hforce hrequest hpath hconfig hdone,
    isSigned_of_done hdone, not_not]

/-- An output that was there is written once more. -/
theorem runWith_again_other :
    Keeps Check.unavailable
      (runWith Check.unavailable workshop [] ["in", "other", "--force"]).files []
      ["in", "other", "--force"] ["other"] := by
  have hread : Options.read ["in", "other", "--force"] = .ok (demanded "other").options := by rfl
  have hdone : ∃ source plan after, (demanded "other").Done Check.unavailable workshop []
      (demandedJob "estree_to_code in other --force") source plan after :=
    ⟨_, _, _, ofRequest_demanded rfl, rfl, rfl⟩
  obtain ⟨source, plan, after, hdone⟩ := hdone
  exact (runWith_again (fun _ h => absurd h List.not_mem_nil) isTree_workshop hread rfl rfl rfl
    (by decide) (by simp) (files_of_done hread rfl rfl hdone).1).mpr (.inl rfl)

/-- A new output is not, as it names itself in full the first time. -/
theorem not_runWith_again :
    (runWith Check.unavailable workshop [] ["in", "out", "--force"]).exitCode = 0 ∧
      ¬ Keeps Check.unavailable
        (runWith Check.unavailable workshop [] ["in", "out", "--force"]).files []
        ["in", "out", "--force"] ["out"] := by
  have hread : Options.read ["in", "out", "--force"] = .ok (demanded "out").options := by rfl
  have hdone : ∃ source plan after, (demanded "out").Done Check.unavailable workshop []
      (demandedJob "estree_to_code in /out --force") source plan after :=
    ⟨_, _, _, ofRequest_demanded rfl, rfl, rfl⟩
  obtain ⟨source, plan, after, hdone⟩ := hdone
  obtain ⟨hexit, hfiles⟩ := files_of_done hread rfl rfl hdone
  refine ⟨hexit, fun hkeeps => ?_⟩
  rw [hfiles] at hkeeps
  obtain hstood | ⟨hnone, -⟩ := (keeps_again (fun _ h => absurd h List.not_mem_nil)
    isTree_workshop hread rfl rfl rfl (by decide) (by simp [demanded]) hdone).mp hkeeps
  · exact absurd hstood (by decide)
  · cases hnone

end Command

end ScriptTree
