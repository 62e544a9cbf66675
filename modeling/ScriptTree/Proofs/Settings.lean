import Mathlib.Data.List.Perm.Basic
import ScriptTree.Proofs.Outcome
import ScriptTree.Proofs.Text
import ScriptTree.Settings

/-!
Settings that are read normalise: written out and read again they are the same, and neither the
order of the fields nor the fields that are no settings make a difference. This holds of fields
that are regular. Any other field that is accepted breaks it: if it comes last, the settings
cannot be written out.
-/

namespace ScriptTree.Settings

variable {s s' c : Settings} {name : Text} {value : Json} {fields fields' : List (Text × Json)}

def isSetting (name : Text) : Bool :=
  name = Text.ofString "printer" || name = Text.ofString "output" ||
    name = Text.ofString "add_generation_comment" || name = Text.ofString "header_in_minify"

/-- A field that keeps settings in order: a group is an object, an output mode is a text, and
neither all settings nor the operation that writes them out are replaced. -/
structure IsRegular (name : Text) (value : Json) : Prop where
  printer : name = Text.ofString "printer" → ∃ fields, value = .object fields
  output : name = Text.ofString "output" → ∃ fields, value = .object fields ∧
    ∀ mode, Json.lookup? fields "mode" = some mode → ∃ key, mode = .text key
  notObstacle : name ≠ Text.ofString "to_dict"
  notReplacement : name ≠ Text.ofString "__dict__"

structure Normalises (fields : List (Text × Json)) (c : Settings) : Prop where
  written : ∃ j, c.toJson = .ok j ∧ ofJson j = .ok c
  order : ∀ fields', fields.Perm fields' → ofJson (.object fields') = .ok c
  others : ofJson (.object (fields.filter fun field => isSetting field.1)) = .ok c

def setAll (s : Settings) (fields : List (Text × Json)) : Except SettingsError Settings :=
  fields.foldlM (fun s (name, value) => s.set name value) s

theorem setAll_cons :
    setAll s ((name, value) :: fields) = s.set name value >>= (setAll · fields) := rfl

theorem setAll_concat :
    setAll s (fields ++ [(name, value)]) = setAll s fields >>= (·.set name value) := by
  rw [setAll, List.foldlM_append]
  congr 1
  funext s
  exact bind_pure _

section Writing

/-- Settings that can be written out: both groups are there, the output mode is known, and the
operation has not been replaced. -/
inductive IsWritable : Settings → Prop
  | intro (printer : PrintSettings) (mode : OutputMode) (validate atomic addComment header : Json) :
      IsWritable ⟨.given printer, .given ⟨.known mode, validate, atomic⟩, addComment, header, none⟩

theorem isWritable_of_toJson {j : Json} (h : c.toJson = .ok j) : IsWritable c := by
  obtain ⟨printer, output, addComment, header, obstacle⟩ := c
  cases obstacle with
  | some value => cases h
  | none =>
    cases printer with
    | other value => cases h
    | absent => cases h
    | given printer =>
      cases output with
      | other value => cases h
      | absent => cases h
      | given output =>
        obtain ⟨mode, validate, atomic⟩ := output
        cases mode with
        | other value => cases h
        | known mode => exact .intro printer mode validate atomic addComment header

/-- What is written out is read back. -/
theorem IsWritable.written (h : IsWritable c) : ∃ j, c.toJson = .ok j ∧ ofJson j = .ok c := by
  obtain ⟨printer, mode, validate, atomic, addComment, header⟩ := h
  exact ⟨_, rfl, by cases mode <;> rfl⟩

theorem replace_ne_given {α : Type} (g : Group α) (value : Json) (settings : α) :
    g.replace value ≠ .given settings := by
  cases g <;> exact nofun

theorem ofField_ne_given {α : Type} (value : Option Json) (settings : α) :
    Group.ofField value ≠ .given settings := by
  cases value <;> exact nofun

theorem isWritable_iff : IsWritable c ↔ ∃ printer mode validate atomic, c.printer = .given printer ∧
    c.output = .given ⟨.known mode, validate, atomic⟩ ∧ c.obstacle = none := by
  constructor
  · rintro ⟨printer, mode, validate, atomic, addComment, header⟩
    exact ⟨printer, mode, validate, atomic, rfl, rfl, rfl⟩
  · obtain ⟨printer, output, addComment, header, obstacle⟩ := c
    rintro ⟨printer, mode, validate, atomic, rfl, rfl, rfl⟩
    exact .intro printer mode validate atomic addComment header

/-- An output mode is known only if it was given as a text, or not at all. -/
theorem text_of_modeOf {given : Option Json} {mode : OutputMode}
    (h : OutputSettings.modeOf given = .ok (.known mode)) :
    ∀ value, given = some value → ∃ key, value = .text key := by
  rintro value rfl
  cases value with
  | text key => exact ⟨key, rfl⟩
  | _ => cases h

theorem not_text_of_modeOf {given : Option Json} {other : Json}
    (h : OutputSettings.modeOf given = .ok (.other other)) :
    ¬∀ value, given = some value → ∃ key, value = .text key := by
  intro hkey
  cases given with
  | none => cases h
  | some value =>
    obtain ⟨key, rfl⟩ := hkey value rfl
    rw [OutputSettings.modeOf] at h
    split at h <;> cases h

end Writing

section Changes

inductive Change : Text → Json → (Settings → Settings) → Prop
  | printer {given : List (Text × Json)} {printer : PrintSettings}
      (h : PrintSettings.ofFields given = .ok printer) :
      Change "printer" (.object given) fun s => { s with printer := .given printer }
  | output {given : List (Text × Json)} {mode : OutputMode} {validate atomic : Json}
      (h : OutputSettings.ofFields given = .ok ⟨.known mode, validate, atomic⟩) :
      Change "output" (.object given)
        fun s => { s with output := .given ⟨.known mode, validate, atomic⟩ }
  | addComment (value : Json) :
      Change "add_generation_comment" value fun s => { s with addComment := value }
  | commentWhenMinified (value : Json) :
      Change "header_in_minify" value fun s => { s with commentWhenMinified := value }
  | ignored {name : Text} {value : Json} (hname : isSetting name = false)
      (h : ∀ s : Settings, s.set name value = .ok s) : Change name value id

variable {f g : Settings → Settings}

theorem Change.set_eq (h : Change name value f) (s : Settings) : s.set name value = .ok (f s) := by
  cases h with
  | printer h => exact bind_eq_ok.mpr ⟨_, h, rfl⟩
  | output h => exact bind_eq_ok.mpr ⟨_, h, rfl⟩
  | addComment => rfl
  | commentWhenMinified => rfl
  | ignored hname h => exact h s

/-- A setting of its own: any value is regular. -/
theorem isRegular_single {single : String}
    (hname : single = "add_generation_comment" ∨ single = "header_in_minify") (value : Json) :
    IsRegular single value := by
  rcases hname with rfl | rfl <;>
    exact ⟨fun hname => absurd hname (by decide), fun hname => absurd hname (by decide),
      by decide, by decide⟩

/-- An accepted field is regular and makes its change, or it leaves settings that cannot be
written out. -/
theorem set_cases (h : s.set name value = .ok s') :
    (IsRegular name value ∧ ∃ f, Change name value f ∧ s' = f s) ∨
      (¬IsRegular name value ∧ ¬IsWritable s') := by
  unfold Settings.set at h
  by_cases h₁ : name = Text.ofString "printer"
  · rw [if_pos h₁] at h
    subst h₁
    cases value with
    | object given =>
      obtain ⟨printer, hgiven, hs⟩ := bind_eq_ok.mp h
      exact .inl ⟨⟨fun _ => ⟨given, rfl⟩, fun hname => absurd hname (by decide), by decide,
        by decide⟩, _, .printer hgiven, (Except.ok.inj hs).symm⟩
    | _ =>
      obtain rfl := Except.ok.inj h
      refine .inr ⟨fun hregular => (nomatch hregular.printer rfl), fun hwritable => ?_⟩
      obtain ⟨printer, mode, validate, atomic, hprinter, -, -⟩ := isWritable_iff.mp hwritable
      exact replace_ne_given _ _ _ hprinter
  rw [if_neg h₁] at h
  by_cases h₂ : name = Text.ofString "output"
  · rw [if_pos h₂] at h
    subst h₂
    cases value with
    | object given =>
      obtain ⟨output, hgiven, hs⟩ := bind_eq_ok.mp h
      obtain ⟨setting, hmode, hsettings⟩ := bind_eq_ok.mp hgiven
      obtain rfl := Except.ok.inj hsettings
      obtain rfl := Except.ok.inj hs
      cases setting with
      | known mode =>
        exact .inl ⟨⟨fun hname => absurd hname (by decide), fun _ => ⟨given, rfl,
          text_of_modeOf hmode⟩, by decide, by decide⟩, _, .output hgiven, rfl⟩
      | other value =>
        refine .inr ⟨fun hregular => ?_, fun hwritable => ?_⟩
        · obtain ⟨_, heq, hkey⟩ := hregular.output rfl
          obtain rfl := Json.object.inj heq
          exact not_text_of_modeOf hmode hkey
        · obtain ⟨printer, mode, validate, atomic, -, houtput, -⟩ := isWritable_iff.mp hwritable
          cases houtput
    | _ =>
      obtain rfl := Except.ok.inj h
      refine .inr ⟨fun hregular => (nomatch hregular.output rfl), fun hwritable => ?_⟩
      obtain ⟨printer, mode, validate, atomic, -, houtput, -⟩ := isWritable_iff.mp hwritable
      exact replace_ne_given _ _ _ houtput
  rw [if_neg h₂] at h
  by_cases h₃ : name = Text.ofString "add_generation_comment"
  · rw [if_pos h₃] at h
    subst h₃
    exact .inl ⟨isRegular_single (.inl rfl) value, _, .addComment value, (Except.ok.inj h).symm⟩
  rw [if_neg h₃] at h
  by_cases h₄ : name = Text.ofString "header_in_minify"
  · rw [if_pos h₄] at h
    subst h₄
    exact .inl ⟨isRegular_single (.inr rfl) value, _, .commentWhenMinified value,
      (Except.ok.inj h).symm⟩
  rw [if_neg h₄] at h
  by_cases h₅ : name = Text.ofString "to_dict"
  · rw [if_pos h₅] at h
    obtain rfl := Except.ok.inj h
    refine .inr ⟨fun hregular => hregular.notObstacle h₅, fun hwritable => ?_⟩
    obtain ⟨printer, mode, validate, atomic, -, -, hobstacle⟩ := isWritable_iff.mp hwritable
    cases hobstacle
  rw [if_neg h₅] at h
  by_cases h₆ : name = Text.ofString "__dict__"
  · rw [if_pos h₆] at h
    cases value with
    | object given =>
      obtain rfl := Except.ok.inj h
      refine .inr ⟨fun hregular => hregular.notReplacement h₆, fun hwritable => ?_⟩
      obtain ⟨printer, mode, validate, atomic, hprinter, -, -⟩ := isWritable_iff.mp hwritable
      exact ofField_ne_given _ _ hprinter
    | _ => cases h
  rw [if_neg h₆] at h
  -- The names left either fail or are ignored.
  obtain ⟨h₇, h₈, rfl⟩ : name ≠ Text.ofString "__class__" ∧ name ≠ Text.ofString "__weakref__" ∧
      s = s' := by
    split at h
    · cases h
    · next h₇ =>
      split at h
      · cases h
      · next h₈ => exact ⟨h₇, h₈, Except.ok.inj h⟩
  refine .inl ⟨⟨fun hname => absurd hname h₁, fun hname => absurd hname h₂, h₅, h₆⟩, id,
    .ignored (by simp [isSetting, h₁, h₂, h₃, h₄]) fun s => ?_, rfl⟩
  unfold Settings.set
  rw [if_neg h₁, if_neg h₂, if_neg h₃, if_neg h₄, if_neg h₅, if_neg h₆, if_neg h₇, if_neg h₈]

/-- The changes of fields with different names can be made in either order. -/
theorem Change.comm {name' : Text} {value' : Json} (hf : Change name value f)
    (hg : Change name' value' g) (hname : name ≠ name') (s : Settings) : f (g s) = g (f s) := by
  cases hf <;> cases hg <;> first | rfl | exact absurd rfl hname

theorem Change.isWritable (h : Change name value f) (hs : IsWritable s) : IsWritable (f s) := by
  cases h <;> cases hs <;> exact .intro ..

/-- A field that is no setting changes nothing. -/
theorem Change.eq_id (h : Change name value f) (hname : isSetting name = false) : f = id := by
  cases h with
  | ignored => rfl
  | _ => exact absurd hname (by decide)

end Changes

section Reading

def AllRegular (fields : List (Text × Json)) : Prop :=
  ∀ name value, (name, value) ∈ fields → IsRegular name value

theorem allRegular_cons : AllRegular ((name, value) :: fields) ↔
    IsRegular name value ∧ AllRegular fields := by
  simp only [AllRegular, List.mem_cons, Prod.mk.injEq]
  constructor
  · exact fun h => ⟨h _ _ (.inl ⟨rfl, rfl⟩), fun name value hmem => h _ _ (.inr hmem)⟩
  · rintro ⟨hfirst, hrest⟩ name value (⟨rfl, rfl⟩ | hmem)
    · exact hfirst
    · exact hrest name value hmem

/-- Setting a regular field is making its change. -/
theorem setAll_cons_eq_ok (hregular : IsRegular name value) :
    setAll s ((name, value) :: fields) = .ok c ↔
      ∃ f, Change name value f ∧ setAll (f s) fields = .ok c := by
  rw [setAll_cons, bind_eq_ok]
  constructor
  · rintro ⟨s', hs', hc⟩
    obtain ⟨-, f, hf, rfl⟩ | ⟨hirregular, -⟩ := set_cases hs'
    · exact ⟨f, hf, hc⟩
    · exact absurd hregular hirregular
  · rintro ⟨f, hf, hc⟩
    exact ⟨f s, hf.set_eq s, hc⟩

theorem isWritable_setAll (hregular : AllRegular fields) (hs : IsWritable s)
    (h : setAll s fields = .ok c) : IsWritable c := by
  induction fields generalizing s with
  | nil =>
    obtain rfl := Except.ok.inj h
    exact hs
  | cons field fields ih =>
    obtain ⟨hfirst, hrest⟩ := allRegular_cons.mp hregular
    obtain ⟨f, hf, hc⟩ := (setAll_cons_eq_ok hfirst).mp h
    exact ih hrest (hf.isWritable hs) hc

theorem setAll_perm (horder : fields.Perm fields') (honce : (fields.map Prod.fst).Nodup)
    (hregular : AllRegular fields) (h : setAll s fields = .ok c) : setAll s fields' = .ok c := by
  induction horder generalizing s with
  | nil => exact h
  | cons field horder ih =>
    obtain ⟨hfirst, hrest⟩ := allRegular_cons.mp hregular
    obtain ⟨f, hf, hc⟩ := (setAll_cons_eq_ok hfirst).mp h
    exact (setAll_cons_eq_ok hfirst).mpr ⟨f, hf, ih (List.nodup_cons.mp honce).2 hrest hc⟩
  | swap first second fields =>
    obtain ⟨hsecond, hregular⟩ := allRegular_cons.mp hregular
    obtain ⟨hfirst, -⟩ := allRegular_cons.mp hregular
    obtain ⟨g, hg, h⟩ := (setAll_cons_eq_ok hsecond).mp h
    obtain ⟨f, hf, hc⟩ := (setAll_cons_eq_ok hfirst).mp h
    have hname : first.1 ≠ second.1 := fun hname =>
      (List.nodup_cons.mp honce).1 (hname ▸ List.mem_cons_self)
    refine (setAll_cons_eq_ok hfirst).mpr ⟨f, hf, (setAll_cons_eq_ok hsecond).mpr ⟨g, hg, ?_⟩⟩
    rw [← hf.comm hg hname]
    exact hc
  | trans horder _ ih ih' =>
    have honce' := (horder.map Prod.fst).nodup_iff.mp honce
    have hregular' : AllRegular _ := fun name value hmem =>
      hregular name value (horder.mem_iff.mpr hmem)
    exact ih' honce' hregular' (ih honce hregular h)

theorem setAll_filter (hregular : AllRegular fields) (h : setAll s fields = .ok c) :
    setAll s (fields.filter fun field => isSetting field.1) = .ok c := by
  induction fields generalizing s with
  | nil => exact h
  | cons field fields ih =>
    obtain ⟨hfirst, hrest⟩ := allRegular_cons.mp hregular
    obtain ⟨f, hf, hc⟩ := (setAll_cons_eq_ok hfirst).mp h
    cases hname : isSetting field.1 with
    | true =>
      rw [List.filter_cons, if_pos hname]
      exact (setAll_cons_eq_ok hfirst).mpr ⟨f, hf, ih hrest hc⟩
    | false =>
      rw [List.filter_cons, if_neg (by simp [hname])]
      rw [hf.eq_id hname] at hc
      exact ih hrest hc

/-- If every order gives the same settings, a field may come last; it is regular then, since
what it leaves behind can be written out. -/
theorem isRegular_of_order (horder : ∀ fields', fields.Perm fields' → setAll s fields' = .ok c)
    (hwritable : IsWritable c) : AllRegular fields := by
  intro name value hmem
  obtain ⟨before, after, rfl⟩ := List.append_of_mem hmem
  have hlast : (before ++ (name, value) :: after).Perm (before ++ after ++ [(name, value)]) :=
    (List.perm_middle.trans (List.perm_append_singleton _ _).symm)
  have hset := horder _ hlast
  rw [setAll_concat, bind_eq_ok] at hset
  obtain ⟨s', -, hs'⟩ := hset
  obtain ⟨hregular, -⟩ | ⟨-, hbroken⟩ := set_cases hs'
  · exact hregular
  · exact absurd hwritable hbroken

end Reading

/-- Settings that were read normalise if and only if every field is regular. -/
theorem normalises_iff (honce : (fields.map Prod.fst).Nodup)
    (h : ofJson (.object fields) = .ok c) :
    Normalises fields c ↔ ∀ name value, (name, value) ∈ fields → IsRegular name value := by
  constructor
  · rintro ⟨⟨j, hj, -⟩, horder, -⟩
    exact isRegular_of_order horder (isWritable_of_toJson hj)
  · intro hregular
    exact {
      written := (isWritable_setAll hregular (.intro ..) h).written
      order := fun fields' horder => setAll_perm horder honce hregular h
      others := setAll_filter hregular h }

def partialFields : List (Text × Json) :=
  [("add_generation_comment", .int 3), ("unknown", .null),
    ("output", .object [("mode", .text "force"), ("extra", .null)]),
    ("printer", .object [("indent", .null)])]

theorem normalises_partialFields :
    (partialFields.map Prod.fst).Nodup ∧ ∃ c, ofJson (.object partialFields) = .ok c ∧
      Normalises partialFields c := by
  have honce : (partialFields.map Prod.fst).Nodup := by decide
  refine ⟨honce, _, rfl, (normalises_iff honce rfl).mpr fun name value hmem => ?_⟩
  have houtput : ∀ mode, Json.lookup? [(Text.ofString "mode", .text "force"),
      (Text.ofString "extra", .null)] "mode" = some mode → ∃ key, mode = .text key :=
    fun mode hmode => ⟨_, (Option.some.inj hmode).symm⟩
  simp only [partialFields, List.mem_cons, Prod.mk.injEq, List.not_mem_nil, or_false] at hmem
  rcases hmem with ⟨rfl, rfl⟩ | ⟨rfl, rfl⟩ | ⟨rfl, rfl⟩ | ⟨rfl, rfl⟩
  · exact ⟨fun hname => absurd hname (by decide), fun hname => absurd hname (by decide),
      by decide, by decide⟩
  · exact ⟨fun hname => absurd hname (by decide), fun hname => absurd hname (by decide),
      by decide, by decide⟩
  · exact ⟨fun hname => absurd hname (by decide), fun _ => ⟨_, rfl, houtput⟩,
      by decide, by decide⟩
  · exact ⟨fun _ => ⟨_, rfl⟩, fun hname => absurd hname (by decide), by decide, by decide⟩

/-- A null in the place of a group is accepted, and cannot be written out. -/
theorem not_normalises_nullGroup : ∃ c, ofJson (.object [("printer", .null)]) = .ok c ∧
    ¬Normalises [("printer", .null)] c := by
  refine ⟨_, rfl, fun h => ?_⟩
  obtain ⟨j, hj, -⟩ := h.written
  cases hj

end ScriptTree.Settings
