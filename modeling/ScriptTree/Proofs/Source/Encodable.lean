import ScriptTree.Proofs.Encoding
import ScriptTree.Proofs.Lexical.StringValue
import ScriptTree.Proofs.Source.Contracts
import ScriptTree.Proofs.Source.Occurrence

/-!
Source text that can be encoded. String literals are written without surrogates, whatever their
texts are, and so is all else but the names of identifiers and the patterns of regular
expressions, which are written as they are. So where the names can be encoded, the source text of
a tree that was read can be encoded exactly if every pattern in it can: a pattern is never lost
on the way, since all that is left out of the source text is the name of an accessor's function.
-/

namespace ScriptTree.Source

open Exchange Json Lexical

/-! ### Literals -/

section Literals

variable {t : Text}

theorem isEncodable_of_isAscii (h : t.all isAscii = true) : t.isEncodable = true :=
  Text.isEncodable_iff.mpr fun c hc => not_isSurrogate_of_isAscii (List.all_eq_true.mp h c hc)

theorem isAscii_of_isAsciiDigit {c : CodePoint} (h : c.isAsciiDigit = true) :
    isAscii c = true := by
  simp only [CodePoint.isAsciiDigit, CodePoint.within, Bool.and_eq_true, decide_eq_true_iff] at h
  exact decide_eq_true (by omega)

/-- Numbers are written in ASCII. -/
theorem isAscii_of_isNumeral (h : IsNumeral t) : t.all isAscii = true :=
  h.all (fun _ => isAscii_of_isAsciiDigit) (by decide) (by decide) (by decide)

/-- Of a pattern everything is written as it is, with backslashes before some of it. -/
theorem isEncodable_escapedPattern (escaped : Bool) (pattern : Text) :
    (escapedPattern escaped pattern).isEncodable = pattern.isEncodable := by
  have hbackslash : (CodePoint.ofChar '\\').isSurrogate = false := by decide
  induction pattern generalizing escaped with
  | nil => rfl
  | cons c rest ih =>
    rw [escapedPattern]
    split_ifs <;> simp [ih, hbackslash]

theorem isEncodable_flags (flags : RegexFlags) : flags.text.isEncodable = true := by
  refine isEncodable_of_isAscii ?_
  rw [RegexFlags.text, List.all_map, List.all_eq_true]
  intro flag _
  cases flag <;> decide

/-- The literal of a regular expression can be encoded exactly if the pattern can. -/
theorem isEncodable_regexLiteral (pattern : Text) (flags : RegexFlags) :
    (regexLiteral pattern flags).isEncodable = pattern.isEncodable := by
  have hslash : (Text.ofString "/").isEncodable = true := by decide
  rw [regexLiteral]
  cases pattern with
  | nil =>
    have hempty : (Text.ofString "(?:)").isEncodable = true := by decide
    simp [hslash, hempty, isEncodable_flags]
  | cons c rest => simp [hslash, isEncodable_escapedPattern, isEncodable_flags]

theorem isEncodable_stringLiteral (t : Text) : (stringLiteral t).isEncodable = true := by
  have hquote : (Text.ofString "'").isEncodable = true := by decide
  have hbody : (escapedText t).isEncodable = true :=
    Text.isEncodable_iff.mpr fun _ => not_isSurrogate_escapedText
  simp [stringLiteral, hquote, hbody]

/-- Of all literals only regular expressions may be written with surrogates. -/
theorem isEncodable_literal {value : Tree} {token : Text} (hvalue : LiteralValue value)
    (hpattern : ∀ pattern flags, value = .regex (.ofText pattern) (.atom (.flags flags)) →
      pattern.isEncodable = true)
    (h : literal value = .ok token) : token.isEncodable = true := by
  have hnumber {a : Atom} (ha : numberText? a = some token) : token.isEncodable = true :=
    isEncodable_of_isAscii (isAscii_of_isNumeral (isNumeral_numberText ha))
  cases hvalue with
  | null =>
    obtain rfl := Except.ok.inj h
    decide
  | bool b =>
    cases b <;> obtain rfl := Except.ok.inj h <;> decide
  | text t =>
    obtain rfl := Except.ok.inj h
    exact isEncodable_stringLiteral t
  | int i =>
    cases htext : numberText? (.int i) with
    | none => simp [literal, htext] at h
    | some t =>
      simp only [literal, htext] at h
      exact hnumber (htext.trans (congrArg some (Except.ok.inj h)))
  | double d => exact hnumber (a := .double d) (congrArg some (Except.ok.inj h))
  | decimal d =>
    have htext : numberText? (.decimal d) = some token := by
      cases d <;> exact congrArg some (Except.ok.inj h)
    exact hnumber htext
  | regex pattern flags =>
    obtain rfl := Except.ok.inj h
    rw [isEncodable_regexLiteral]
    exact hpattern pattern flags rfl

end Literals

/-! ### Scripts -/

section Scripts

variable {P : Node Tree → Prop} {t : Tree} {n : Node Tree}

/-- The words of kinds are written in ASCII. -/
theorem isAscii_kindWord {kind : Tree} {word : Text} (h : n.Filled P)
    (hkind : n.kindField? = some kind) (hword : kindWord kind = .ok word) :
    word.all isAscii = true := by
  unfold Node.kindField? at hkind
  split at hkind
  · obtain rfl := Option.some.inj hkind
    obtain ⟨-, -, ⟨propertyKind, rfl⟩⟩ := h
    obtain rfl := Except.ok.inj hword
    cases propertyKind <;> decide
  · obtain rfl := Option.some.inj hkind
    obtain ⟨-, ⟨variableKind, rfl⟩⟩ := h
    obtain rfl := Except.ok.inj hword
    cases variableKind
    decide
  · cases hkind

theorem isAscii_chainToken {m : Mode} {op : BinaryOperator} {token : Text}
    (h : chainToken m (.ofMember (.binaryOperator op)) = .ok token) : token.all isAscii = true := by
  obtain rfl := Except.ok.inj h
  cases m with
  | pretty => cases op <;> decide
  | minified => cases op <;> decide

/-- In a tree whose names and patterns can be encoded every node makes texts its own that can. -/
theorem ownPieces_encodable {m : Mode} (h : t.InPlace)
    (hnames : ∀ name, Within (.node (.identifier (.ofText name))) t → name.isEncodable = true)
    (hpatterns : ∀ pattern flags,
      Within (.node (.literal (.regex (.ofText pattern) (.atom (.flags flags))))) t →
        pattern.isEncodable = true)
    (hn : Within (.node n) t) : OwnPieces m (Piece.Has fun text => text.isEncodable = true) n := by
  have hfits : n.Fits true := h.2 n hn
  have hplace : (Tree.node n).InPlace := ⟨.inr ⟨n, rfl⟩, fun m hm => h.2 m (hm.trans hn)⟩
  have hfilled : n.Filled Node.HasSlots := (hasSlots_of_inPlace hplace).filled fun _ => id
  refine ⟨?_, ?_, ?_, ?_, ?_⟩
  · rintro name rfl
    obtain ⟨text, rfl⟩ : ∃ text, name = .ofText text := hfilled
    exact has_value rfl (hnames text hn)
  · intro label name hlabel hname
    rcases (nodeSlot_of_label hfilled hlabel).name fun _ => id with rfl | ⟨text, rfl⟩
    · cases hname
    · obtain rfl := Except.ok.inj hname
      exact has_value rfl (hnames text (.trans (within_label hlabel) hn))
  · rintro value token rfl htoken
    have hvalue : LiteralValue value := hfits _ List.mem_cons_self
    exact isEncodable_literal hvalue (fun pattern flags heq => hpatterns pattern flags (heq ▸ hn))
      htoken
  · rintro left operator right token rfl htoken
    obtain ⟨⟨op, rfl⟩, -⟩ := hfilled
    exact isEncodable_of_isAscii (isAscii_chainToken htoken)
  · intro kind word hkind hword
    have hascii := isAscii_kindWord hfilled hkind hword
    refine isEncodable_of_isAscii ?_
    simpa [Text.join] using And.intro hascii (by decide)

end Scripts

/-! ### Layouts -/

section Layouts

variable {s : PrintSettings} {p : Position} {m : Mode} {pieces : List Piece}

structure HasEncodableSpace (s : PrintSettings) : Prop where
  indent : ∃ unit, s.indent = .text unit ∧ unit.isEncodable = true
  newline : ∃ ending, s.newline = .text ending ∧ ending.isEncodable = true

/-- Lines are indented with spaces and ended with line feeds if nothing else is set. -/
theorem hasEncodableSpace_default (minify : Json) : HasEncodableSpace { minify } :=
  ⟨⟨Text.ofString "    ", rfl, by decide⟩, ⟨Text.ofString "\n", rfl, by decide⟩⟩

theorem HasEncodableSpace.hasTexts (hs : HasEncodableSpace s) : s.HasTexts := by
  obtain ⟨⟨unit, hunit, -⟩, ⟨ending, hending, -⟩⟩ := hs
  exact ⟨⟨unit, hunit⟩, ⟨ending, hending⟩⟩

theorem isEncodable_indentation (hs : HasEncodableSpace s) (p : Position) :
    (rendered s p.indentation).isEncodable = true := by
  obtain ⟨unit, hindent, hunit⟩ := hs.indent
  unfold Position.indentation
  split
  · simp [rendered, PrintSettings.render, PrintSettings.fragment, PrintSettings.indentation,
      hindent, Text.isEncodable_repeated hunit]
  · rfl

theorem isEncodable_gap (s : PrintSettings) (p : Position) (first : CodePoint) :
    (rendered s (p.gap first)).isEncodable = true := by
  unfold Position.gap
  split
  · split
    · rfl
    · rfl
  · rfl

/-- What an instruction is laid out as can be encoded exactly if its text can. -/
theorem isEncodable_step (hs : HasEncodableSpace s) (hp : p.IsPlain) {piece : Piece}
    (h : piece.isAllowed m = true) :
    (rendered s (p.step piece).laid).isEncodable = true ↔
      ∀ t, piece = .text t → t.isEncodable = true := by
  cases piece with
  | text t =>
    have htext : (∀ u, Piece.text t = .text u → u.isEncodable = true) ↔ t.isEncodable = true := by
      simp
    rw [htext]
    cases t with
    | nil => exact iff_of_true rfl rfl
    | cons first rest =>
      obtain ⟨last, hlast⟩ : ∃ last, (first :: rest).getLast? = some last :=
        ⟨_, List.getLast?_eq_some_getLast (List.cons_ne_nil first rest)⟩
      have hlaid : rendered s [⟨.text (first :: rest), p.indented⟩] = first :: rest := by
        simp [rendered, PrintSettings.render, PrintSettings.fragment]
      rw [Position.step, Position.write_plain hp rfl hlast, rendered_append, rendered_append, hlaid,
        Text.isEncodable_append, Text.isEncodable_append, isEncodable_indentation hs,
        isEncodable_gap, Bool.and_self, Bool.true_and]
  | value v => cases h
  | lineBreak =>
    obtain ⟨ending, hnewline, hending⟩ := hs.newline
    have hlaid : rendered s (p.step .lineBreak).laid = ending := by
      simp [Position.step, rendered, PrintSettings.render, PrintSettings.fragment, hnewline,
        Json.fragment]
    rw [hlaid]
    exact iff_of_true hending (by simp)
  | deeper => exact iff_of_true rfl (by simp)
  | shallower => exact iff_of_true rfl (by simp)

/-- A layout can be encoded exactly if the texts that were laid out can. -/
theorem isEncodable_run (hs : HasEncodableSpace s) (hp : p.IsPlain)
    (h : ∀ piece ∈ pieces, piece.isAllowed m = true) :
    (rendered s (p.run pieces).laid).isEncodable = true ↔
      ∀ t, .text t ∈ pieces → t.isEncodable = true := by
  induction pieces generalizing p with
  | nil => exact iff_of_true rfl nofun
  | cons piece rest ih =>
    obtain ⟨hpiece, hrest⟩ := List.forall_mem_cons.mp h
    have hstep := Position.step_isPlain hp hpiece
    have hrun : (p.run (piece :: rest)).laid =
        (p.step piece).laid ++ ((p.step piece).position.run rest).laid := by
      simp [Position.run, hstep.failure]
    rw [hrun, rendered_append, Text.isEncodable_append, Bool.and_eq_true,
      isEncodable_step hs hp hpiece, ih hstep.position hrest]
    simp only [List.mem_cons, or_imp, forall_and, eq_comm]

end Layouts

/-! ### What is left out of the source text -/

section Parts

variable {t : Tree} {n k : Node Tree}

def IsBareAccessor : Node Tree → Prop
  | .property _ value kind => definesValue kind = false ∧ value.kind? ≠ some .functionExpression
  | _ => False

theorem failure_bareAccessor (h : IsBareAccessor k) (m : Mode) :
    (nodeScript m k).failure ≠ none := by
  cases k with
  | property key value kind =>
    obtain ⟨hkind, hvalue⟩ := h
    by_cases hempty : key = .choice .empty
    · rw [hempty]
      exact Option.some_ne_none _
    · rw [nodeScript, hkind, if_neg Bool.false_ne_true]
      · cases kindWord kind with
        | error e => exact Option.some_ne_none _
        | ok word =>
          rw [Script.given, accessorScript]
          · exact Option.some_ne_none _
          · rintro id params body rfl
            exact hvalue rfl
      · exact hempty
  | _ => cases h

/-- Nodes that are printed wherever they stand: of the function of an accessor, neither the
function nor its name is. -/
def IsAlwaysPrinted (n : Node Tree) : Prop :=
  n.kind? ≠ some .identifier ∧ n.kind? ≠ some .functionExpression

theorem IsBareAccessor.isAlwaysPrinted (h : IsBareAccessor n) : IsAlwaysPrinted n := by
  cases n with
  | property key value kind => exact ⟨nofun, nofun⟩
  | _ => cases h

/-- What is printed in a function is printed in the accessor that it defines. -/
theorem printedIn_accessor (hn : IsAlwaysPrinted n) {key value kind : Tree}
    (hkind : definesValue kind = false) (hvalue : value.kind? = some .functionExpression)
    (h : value.Throughout fun n => n.Fits true) (hprinted : n.PrintedIn value) :
    n.PrintedIn (.node (.property key value kind)) := by
  have hslots (n : Node Tree) (h : n.Fits true) : n.HasSlots := h.hasSlots
  obtain ⟨k, rfl, hk⟩ := node_of_kind? hvalue
  cases k with
  | functionExpression id params body =>
    obtain ⟨hid, -, -⟩ : NodeSlot _ .identifier id ∧ _ := h.filled hslots
    have hname : ¬n.PrintedIn id := by
      intro hprinted
      rcases hid.name hslots with rfl | ⟨name, rfl⟩
      · exact not_printedIn_missing hprinted
      · obtain rfl : n = .identifier (.ofText name) := by
          simpa [printedIn_node, Node.printedParts, Node.fields, Tree.ofText] using hprinted
        exact hn.1 rfl
    have hparts : n.PrintedIn params ∨ n.PrintedIn body := by
      rcases printedIn_node.mp hprinted with rfl | hparts
      · exact absurd rfl hn.2
      · simpa [Node.printedParts, Node.fields, hname, or_comm] using hparts
    refine printedIn_node.mpr (.inr ?_)
    rcases hparts with hprinted | hprinted
    · exact ⟨params, by simp [Node.printedParts, hkind, Tree.accessorParts], hprinted⟩
    · exact ⟨body, by simp [Node.printedParts, hkind, Tree.accessorParts], hprinted⟩
  | _ => cases hk

/-- Where nodes stand in a field, the field is printed, or it is what defines an accessor. -/
theorem printed_or_accessor {f : Field} {s : Tree} (h : k.Fits true) (hs : (f, s) ∈ k.fields)
    (hwithin : Within (.node n) s) :
    s ∈ k.printedParts ∨ ∃ key kind, k = .property key s kind ∧ definesValue kind = false := by
  cases k with
  | literal value =>
    have hvalue : LiteralValue value := h _ List.mem_cons_self
    obtain ⟨-, rfl⟩ : _ ∧ s = value := by simpa [Node.fields] using hs
    exact absurd hwithin (not_within_literal hvalue)
  | property key value kind =>
    obtain ⟨propertyKind, rfl⟩ : ∃ propertyKind, kind = .ofMember (.propertyKind propertyKind) :=
      h ⟨"kind", .propertyKind, kind⟩ (by simp [Node.entries])
    have hkind : s ≠ .ofMember (.propertyKind propertyKind) := by
      rintro rfl
      exact Within.not_atom hwithin
    have hfields : s = key ∨ s = value := by
      simp [Node.fields, hkind] at hs
      tauto
    rw [Node.printedParts]
    split
    · exact .inl (by simpa using hfields)
    · next hdefines =>
      rcases hfields with rfl | rfl
      · exact .inl List.mem_cons_self
      · exact .inr ⟨key, _, rfl, by simpa using hdefines⟩
  | _ => exact .inl (List.mem_map_of_mem (f := Prod.snd) hs)

/-- What stands in a tree that is in place is printed in it, unless a node is that cannot be. -/
theorem printedIn_of_within (ht : t.Throughout fun n => n.Fits true) (hn : IsAlwaysPrinted n)
    (h : Within (.node n) t) : n.PrintedIn t ∨ ∃ k, IsBareAccessor k ∧ k.PrintedIn t := by
  induction ht with
  | missing => exact absurd h Within.not_missing
  | atom a => exact absurd h Within.not_atom
  | list _ ih =>
    obtain ⟨item, hitem, h⟩ := Within.list_iff.mp h
    exact (ih item hitem h).imp (.item hitem) fun ⟨k, hk, hprinted⟩ => ⟨k, hk, .item hitem hprinted⟩
  | choice _ ih =>
    obtain ⟨value, hvalue, h⟩ := Within.choice_iff.mp h
    exact (ih value hvalue h).imp (.choice hvalue)
      fun ⟨k, hk, hprinted⟩ => ⟨k, hk, .choice hvalue hprinted⟩
  | @node k here parts ih =>
    rcases Within.node_iff.mp h with rfl | ⟨f, s, hs, h⟩
    · exact .inl .here
    obtain ⟨entry, hentry, rfl⟩ := (exists_entry_iff (P := (· = s))).mpr ⟨f, s, hs, rfl⟩
    have hrole : entry.role ≠ .literal := by
      intro hrole
      have hvalue := here entry hentry
      rw [hrole] at hvalue
      exact not_within_literal hvalue h
    have hprinted := ih entry hentry hrole h
    rcases printed_or_accessor here hs h with hpart | ⟨key, kind, rfl, hkind⟩
    · exact hprinted.imp (.part hpart) fun ⟨k, hk, hprinted⟩ => ⟨k, hk, .part hpart hprinted⟩
    · by_cases hfunction : entry.tree.kind? = some .functionExpression
      · have hvalue := parts entry hentry hrole
        exact hprinted.imp (printedIn_accessor hn hkind hfunction hvalue)
          fun ⟨k, hk, hprinted⟩ =>
            ⟨k, hk, printedIn_accessor hk.isAlwaysPrinted hkind hfunction hvalue hprinted⟩
      · exact .inr ⟨.property key entry.tree kind, ⟨hkind, hfunction⟩, .here⟩

/-- In a tree that is printed, nodes that are always printed have their scripts in that of the
tree. -/
theorem includes_within {m : Mode} (ht : t.Throughout fun n => n.Fits true)
    (hprints : (script m t).failure = none) (hn : IsAlwaysPrinted n) (hfixed : n.isFixed = true)
    (h : Within (.node n) t) :
    ∃ before after, script m t = before ++ nodeScript m n ++ after := by
  have hslots := ht.mono fun n hfits => hfits.hasSlots
  rcases printedIn_of_within ht hn h with hprinted | ⟨k, hk, hprinted⟩
  · exact includes_script hslots hfixed hprinted hprints
  · have hkfixed : k.isFixed = true := by
      cases k with
      | property key value kind => rfl
      | _ => cases hk
    obtain ⟨before, after, hscript⟩ := includes_script (m := m) hslots hkfixed hprinted hprints
    rw [hscript] at hprints
    exact absurd (Script.failure_right (Script.failure_left hprints)) (failure_bareAccessor hk m)

end Parts

/-! ### Source text -/

section Source

variable {s : PrintSettings} {t : Tree} {text source : Text}

/-- The texts in the script of a tree can be encoded exactly if the patterns in it can, where the
names can. -/
theorem isEncodable_script {m : Mode} (h : t.InPlace) (hprints : (script m t).failure = none)
    (hnames : ∀ name, Within (.node (.identifier (.ofText name))) t → name.isEncodable = true) :
    (∀ text, .text text ∈ (script m t).pieces → text.isEncodable = true) ↔
      ∀ pattern flags,
        Within (.node (.literal (.regex (.ofText pattern) (.atom (.flags flags))))) t →
        pattern.isEncodable = true := by
  constructor
  · intro htexts pattern flags hwithin
    have hprinted : IsAlwaysPrinted (.literal (.regex (.ofText pattern) (.atom (.flags flags)))) :=
      ⟨nofun, nofun⟩
    obtain ⟨before, after, hscript⟩ := includes_within ((throughout_iff_within h).mpr h.2) hprints
      hprinted rfl hwithin
    rw [hscript] at hprints
    have hpieces : (script m t).pieces =
        before.pieces ++ [Piece.text (regexLiteral pattern flags)] ++ after.pieces := by
      rw [hscript, Script.append_pieces (Script.failure_left hprints),
        Script.append_pieces (Script.failure_left (Script.failure_left hprints))]
      rfl
    rw [← isEncodable_regexLiteral pattern flags]
    exact htexts _ (by simp [hpieces])
  · intro hpatterns text htext
    exact texts_script (fun _ => isEncodable_of_isAscii)
      (fun _ hn => ownPieces_encodable h hnames hpatterns hn.within) _ htext

theorem inPlace_of_input
    (h : (∃ input, readText input = .ok t) ∨ ∃ bytes, readBytes bytes = .ok t) : t.InPlace := by
  obtain ⟨j, hj⟩ : ∃ j, readAs .anything j = .ok t := by
    rcases h with ⟨input, h⟩ | ⟨bytes, h⟩
    · obtain ⟨j, -, hj⟩ := readText_eq_ok.mp h
      exact ⟨j, hj⟩
    · exact exists_of_readBytes h
  exact inPlace_of_read (read_eq_readAs j ▸ hj)

/-- Where the names of identifiers can be encoded, the source text of a tree that was read can be
encoded exactly if the patterns of all regular expressions in the tree can. -/
theorem isEncodable_source (hs : HasEncodableSpace s)
    (hread : (∃ input, readText input = .ok t) ∨ ∃ bytes, readBytes bytes = .ok t)
    (hnames : ∀ name, Within (.node (.identifier (.ofText name))) t → name.isEncodable = true)
    (hsource : toSource s t = .ok source) :
    source.isEncodable = true ↔ ∀ pattern flags,
      Within (.node (.literal (.regex (.ofText pattern) (.atom (.flags flags))))) t →
        pattern.isEncodable = true := by
  have hplace : t.InPlace := inPlace_of_input hread
  have hslots := hasSlots_of_inPlace hplace
  obtain ⟨hprints, rfl⟩ := (toSource_eq_ok_iff hs.hasTexts hslots).mp hsource
  rw [isEncodable_run hs Position.isPlain_start (level_script hslots s.mode).allowed,
    isEncodable_script hplace hprints hnames]

theorem highHalf_le_max : 0xD800 ≤ 0x10FFFF := by decide

def loneHalf : CodePoint := ⟨0xD800, highHalf_le_max⟩

def loneString : Text := .ofString "\x7b\"type\":\"Literal\",\"value\":\"\\ud800\"\x7d"

theorem readText_loneString :
    readText loneString = .ok (.node (.literal (.ofText [loneHalf]))) := by
  have hparse : Json.parse loneString =
      .ok (.object [("type", .text "Literal"), ("value", .text [loneHalf])]) := by cbv
  refine readText_eq_ok.mpr ⟨_, hparse, readAs_eq_node.mpr ⟨.kind .literal, .literal _, rfl,
    ⟨_, rfl, rfl⟩, ⟨?_, by simp⟩, rfl, rfl⟩⟩
  rw [Node.entries, List.forall_mem_singleton]
  exact .inr ⟨rfl, .text [loneHalf], rfl, by decide, rfl⟩

/-- A surrogate in a string is escaped. -/
theorem isEncodable_source_loneString :
    ∃ source, toSource {} (.node (.literal (.ofText [loneHalf]))) = .ok source ∧
      source.isEncodable = true := by
  have hwithin {n : Node Tree} (hn : Within (.node n) (.node (.literal (.ofText [loneHalf])))) :
      n = .literal (.ofText [loneHalf]) := by
    simpa [Within.node_iff, Node.fields, Tree.ofText] using hn
  have hsource : toSource {} (.node (.literal (.ofText [loneHalf]))) = .ok "'\\uD800'" := rfl
  refine ⟨_, hsource, (isEncodable_source (hasEncodableSpace_default _)
    (.inl ⟨_, readText_loneString⟩)
    (fun name hname => ?_) hsource).mpr fun pattern flags hpattern => ?_⟩
  · cases hwithin hname
  · cases hwithin hpattern

def lonePattern : Text :=
  .ofString "\x7b\"type\":\"Literal\",\"regex\":\x7b\"pattern\":\"\\ud800\",\"flags\":\"\"\x7d\x7d"

theorem readText_lonePattern : readText lonePattern =
    .ok (.node (.literal (.regex (.ofText [loneHalf]) (.atom (.flags .none))))) := by
  have hparse : Json.parse lonePattern = .ok (.object [("type", .text "Literal"),
      ("regex", .object [("pattern", .text [loneHalf]), ("flags", .text "")])]) := by cbv
  have hregex : ReadsRegex (.object [("type", .text "Literal"),
      ("regex", .object [("pattern", .text [loneHalf]), ("flags", .text "")])]) [loneHalf] .none :=
    ⟨_, [], rfl, rfl, rfl, rfl⟩
  refine readText_eq_ok.mpr ⟨_, hparse, readAs_eq_node.mpr ⟨.kind .literal, .literal _, rfl,
    ⟨_, rfl, rfl⟩, ⟨?_, by simp⟩, rfl, rfl⟩⟩
  rw [Node.entries, List.forall_mem_singleton]
  exact .inl ⟨_, _, hregex, rfl⟩

/-- A surrogate in a pattern is not escaped, so source text without names need not be encodable. -/
theorem not_isEncodable_source :
    ∃ t source, readText lonePattern = .ok t ∧ (∀ name, ¬Within (.node (.identifier name)) t) ∧
      toSource {} t = .ok source ∧ source.isEncodable = false := by
  refine ⟨_, _, readText_lonePattern, fun name hname => ?_, rfl, rfl⟩
  simp [Within.node_iff, Node.fields, Tree.ofText] at hname

end Source

end ScriptTree.Source
