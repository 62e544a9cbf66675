import ScriptTree.Proofs.Lexical.Literals
import ScriptTree.Proofs.Source.Rendering

/-!
The tokens of a script. The scanner follows the layout: at the start of a line it is between
two tokens, and otherwise the last code point written is the last one of the token it is in,
so the layout puts a space wherever a text would be read on to it. What a script is read as is
said for both modes at once: the same tokens, whatever the settings are as long as lines are
indented and ended with blanks.
-/

namespace ScriptTree

structure PrintSettings.HasBlanks (s : PrintSettings) : Prop where
  indent : ∃ unit, s.indent = .text unit ∧ unit.all Lexical.isBlank = true
  newline : ∃ ending, s.newline = .text ending ∧ ending ≠ [] ∧ ending.all Lexical.isBlank = true

theorem PrintSettings.HasBlanks.hasTexts {s : PrintSettings} (h : s.HasBlanks) : s.HasTexts := by
  obtain ⟨unit, hunit, -⟩ := h.indent
  obtain ⟨ending, hending, -, -⟩ := h.newline
  exact ⟨⟨unit, hunit⟩, ⟨ending, hending⟩⟩

namespace Lexical

open Source

section Blanks

variable {α : Alphabet} {st : State} {c : CodePoint} {t : Text} {s : PrintSettings} {p : Position}

theorem step_blank (h : st.isOpen = true) (hc : isBlank c = true) :
    st.step α c = ⟨st.taken, [c], .between⟩ := by
  have hpause : isPause c = true := by simp [isPause, hc]
  obtain ⟨hnext, hends⟩ := separates_pause (α := α) h hpause
  simp [State.step, hnext, hends, first, hc]

/-- Blanks end a token and leave the scanner between two. -/
theorem scan_blanks (h : st.isOpen = true) (hne : t ≠ []) (ht : t.all isBlank = true) :
    (scan α st t).taken = st.taken ∧ (scan α st t).phase = .between := by
  induction t generalizing st with
  | nil => exact absurd rfl hne
  | cons c t ih =>
    obtain ⟨hc, ht⟩ : isBlank c = true ∧ t.all isBlank = true := by simpa using ht
    rw [scan_cons, step_blank h hc]
    cases t with
    | nil => exact ⟨rfl, rfl⟩
    | cons d t => exact ih rfl (by simp) ht

theorem scan_blanks_between (h : st.phase = .between) (ht : t.all isBlank = true) :
    (scan α st t).taken = st.taken ∧ (scan α st t).phase = .between := by
  by_cases hne : t = []
  · rw [hne, scan_nil]
    exact ⟨rfl, h⟩
  · exact scan_blanks (by simp [State.isOpen, h]) hne ht

theorem render_indentation (hs : s.HasBlanks) (depth : Nat) :
    (s.render (.indentation depth)).all isBlank = true := by
  obtain ⟨unit, hunit, hblank⟩ := hs.indent
  have hrender : s.render (.indentation depth) = Text.repeated unit depth := by
    simp [PrintSettings.render, PrintSettings.fragment, PrintSettings.indentation, hunit]
  rw [hrender, List.all_eq_true]
  intro c hc
  obtain ⟨copy, hcopy, hc⟩ := List.mem_flatten.mp hc
  rw [List.eq_of_mem_replicate hcopy] at hc
  exact List.all_eq_true.mp hblank c hc

theorem render_lineEnd (hs : s.HasBlanks) :
    s.render .lineEnd ≠ [] ∧ (s.render .lineEnd).all isBlank = true := by
  obtain ⟨ending, hending, hne, hblank⟩ := hs.newline
  have hrender : s.render .lineEnd = ending := by
    simp [PrintSettings.render, PrintSettings.fragment, hending, Json.fragment]
  rw [hrender]
  exact ⟨hne, hblank⟩

/-- What the layout adds before a text is blank. -/
theorem rendered_before (hs : s.HasBlanks) :
    (rendered s (p.indentation ++ p.indented.gap c)).all isBlank = true := by
  rw [rendered_append, List.all_append, Bool.and_eq_true]
  constructor
  · unfold Position.indentation
    split
    · simpa [rendered] using render_indentation hs p.depth
    · rfl
  · unfold Position.gap
    split
    · split <;> rfl
    · rfl

end Blanks

structure Follows (p : Position) (st : State) : Prop where
  plain : p.IsPlain
  lineStart : p.lineStart = true → st.phase = .between
  last : st.phase ≠ .between → ∃ c, p.last = some (.point c) ∧ st.pending.getLast? = some c

section Follows

variable {α : Alphabet} {st : State} {c : CodePoint} {t : Text} {s : PrintSettings} {p : Position}

theorem follows_between (hp : p.IsPlain) (h : st.phase = .between) : Follows p st :=
  ⟨hp, fun _ => h, fun hne => absurd h hne⟩

/-- A code point that is admitted is told apart from the token before it, by a space if need
be. -/
theorem scan_admitted (hs : s.HasBlanks) (h : Follows p st) {k : Class} (hmeets : st.meets k = true)
    (hc : k.admits α c = true) :
    scan α st (rendered s (p.indentation ++ p.indented.gap c) ++ c :: t) =
      (scan α {} (c :: t)).after st.taken := by
  rw [scan_append]
  by_cases hphase : st.phase = .between
  · obtain ⟨htaken, hbetween⟩ := scan_blanks_between (α := α) hphase (rendered_before hs)
    rw [scan_separated (separates_between hbetween), htaken]
  · obtain ⟨last, hlast, hpending⟩ := h.last hphase
    have hline : p.lineStart = false := by
      by_contra hline
      exact hphase (h.lineStart (by simpa using hline))
    have hindentation : p.indentation = [] := by simp [Position.indentation, hline]
    have hgap : p.indented.gap c = if joins last c then [⟨.space, p.indented⟩] else [] := by
      simp [Position.gap, Position.indented, hline, Position.begun, hlast]
    by_cases hjoins : joins last c = true
    · have hopen : st.isOpen = true := by
        refine isOpen_of_meets (fun hk => ?_) hmeets
        rw [hk] at hmeets
        simp only [State.meets, Bool.and_eq_true, decide_eq_true_eq] at hmeets
        obtain rfl : last = CodePoint.ofChar '.' := by
          rw [hmeets.2] at hpending
          exact (Option.some.inj hpending).symm
        have hword : isWordPoint (CodePoint.ofChar '.') = false := by decide
        have hplus : (CodePoint.ofChar '.').is '+' = false := by decide
        have hminus : (CodePoint.ofChar '.').is '-' = false := by decide
        have hslash : (CodePoint.ofChar '.').is '/' = false := by decide
        have hless : (CodePoint.ofChar '.').is '<' = false := by decide
        simp [joins, hword, hplus, hminus, hslash, hless] at hjoins
      have hspace : rendered s (p.indentation ++ p.indented.gap c) = Text.ofString " " := by
        rw [hindentation, hgap, if_pos hjoins]
        rfl
      rw [hspace]
      obtain ⟨htaken, hbetween⟩ := scan_blanks (α := α) (t := " ") hopen (by decide) (by decide)
      rw [scan_separated (separates_between hbetween), htaken]
    · have hnothing : rendered s (p.indentation ++ p.indented.gap c) = [] := by
        rw [hindentation, hgap, if_neg hjoins]
        rfl
      rw [hnothing, scan_nil]
      rcases admitted hmeets hc with hseparates | ⟨-, last', hlast', hjoined⟩
      · rw [scan_separated hseparates]
      · rw [hpending, Option.some.injEq] at hlast'
        rw [← hlast'] at hjoined
        exact absurd hjoined hjoins

theorem not_failed_of_meets {k : Class} (h : st.meets k = true) : st.phase ≠ .failed := by
  intro hphase
  by_cases hk : k = .point
  · rw [hk] at h
    simp [State.meets, hphase] at h
  · have hcomplete := isComplete_of_isOpen (isOpen_of_meets hk h)
    rw [hphase] at hcomplete
    cases hcomplete

/-- Unless it fails, the scanner has taken the last code point. -/
theorem getLast?_pending (hne : t ≠ []) (h : (scan α st t).phase ≠ .failed) :
    (scan α st t).pending.getLast? = t.getLast? := by
  obtain ⟨before, last, rfl⟩ := (List.eq_nil_or_concat' t).resolve_left hne
  rw [scan_append] at h ⊢
  rw [scan_cons, scan_nil] at h ⊢
  rw [List.getLast?_concat]
  unfold State.step at h ⊢
  cases hnext : next α (scan α st before).phase (scan α st before).pending last with
  | some phase => simp
  | none =>
    simp only [hnext] at h ⊢
    split_ifs at h ⊢ with hends
    · rfl
    · exact absurd rfl h

end Follows

structure Arrives (α : Alphabet) (s : PrintSettings) (st : State) (layout : Layout)
    (L : List Text) (k : Class) : Prop where
  failure : layout.failure = none
  taken : (scan α st (rendered s layout.laid)).taken = st.taken ++ L
  meets : (scan α st (rendered s layout.laid)).meets k = true
  follows : Follows layout.position (scan α st (rendered s layout.laid))

/-- Wherever a class is met, instructions add some tokens and lead to another class. -/
def Scans (α : Alphabet) (s : PrintSettings) (k : Class) (pieces : List Piece) (L : List Text)
    (k' : Class) : Prop :=
  ∀ p st, Follows p st → st.meets k = true → Arrives α s st (p.run pieces) L k'

section Scans

variable {α : Alphabet} {s : PrintSettings} {i j k : Class} {L L' : List Text}
  {a b : List Piece}

theorem Scans.nil : Scans α s k [] [] k := by
  intro p st hfollows hmeets
  exact ⟨rfl, (List.append_nil _).symm, hmeets, hfollows⟩

theorem Scans.append (ha : Scans α s i a L j) (hb : Scans α s j b L' k) :
    Scans α s i (a ++ b) (L ++ L') k := by
  intro p st hfollows hmeets
  obtain ⟨hfailure, htaken, hmeets, hfollows⟩ := ha p st hfollows hmeets
  obtain ⟨hfailure', htaken', hmeets', hfollows'⟩ := hb _ _ hfollows hmeets
  rw [Position.run_append p a b hfailure]
  have hscan : scan α st (rendered s ((p.run a).laid ++ ((p.run a).position.run b).laid)) =
      scan α (scan α st (rendered s (p.run a).laid))
        (rendered s ((p.run a).position.run b).laid) := by
    rw [rendered_append, scan_append]
  refine ⟨hfailure', ?_, ?_, ?_⟩
  · rw [hscan, htaken', htaken, List.append_assoc]
  · rw [hscan]
    exact hmeets'
  · rw [hscan]
    exact hfollows'

theorem Scans.weaken {i' k' : Class} (h : Scans α s i a L k) (hi : i'.under i = true)
    (hk : k.under k' = true) : Scans α s i' a L k' := by
  intro p st hfollows hmeets
  obtain ⟨hfailure, htaken, hmeets, hfollows⟩ := h p st hfollows (meets_of_under hi hmeets)
  exact ⟨hfailure, htaken, meets_of_under hk hmeets, hfollows⟩

/-- A text adds the tokens it has on its own. -/
theorem Scans.text (hs : s.HasBlanks) {t : Text} (h : Lexes α i t k) :
    Scans α s i [.text t] (scan α {} t).taken k := by
  intro p st hfollows hmeets
  obtain ⟨c, hc, hadmits⟩ := (Option.any_eq_true ..).mp h.head
  obtain ⟨rest, rfl⟩ : ∃ rest, t = c :: rest := by
    cases t with
    | nil => cases hc
    | cons d rest => exact ⟨rest, by rw [Option.some.inj hc]⟩
  obtain ⟨last, hlast⟩ : ∃ last, (c :: rest).getLast? = some last :=
    ⟨_, List.getLast?_eq_some_getLast (List.cons_ne_nil c rest)⟩
  have hrun : p.run [.text (c :: rest)] =
      ⟨p.indentation ++ p.indented.gap c ++ [⟨.text (c :: rest), p.indented⟩],
        { p.indented with last := some (.point last) }, none⟩ := by
    simp [Position.run, Position.step, Position.write_plain hfollows.plain hc hlast]
  have hscan : scan α st (rendered s (p.run [.text (c :: rest)]).laid) =
      (scan α {} (c :: rest)).after st.taken := by
    have hrendered : rendered s (p.run [.text (c :: rest)]).laid =
        rendered s (p.indentation ++ p.indented.gap c) ++ c :: rest := by
      rw [hrun, rendered_append]
      simp [rendered, PrintSettings.render, PrintSettings.fragment]
    rw [hrendered]
    exact scan_admitted hs hfollows hmeets hadmits
  have hpending : (scan α {} (c :: rest)).pending.getLast? = (c :: rest).getLast? :=
    getLast?_pending (List.cons_ne_nil c rest) (not_failed_of_meets h.meets)
  refine ⟨by rw [hrun], ?_, ?_, ?_⟩
  · rw [hscan, taken_after]
  · rw [hscan, meets_after]
    exact h.meets
  · rw [hscan, hrun]
    refine ⟨Position.isPlain_point _ _, ?_, fun _ => ⟨last, rfl, hpending.trans hlast⟩⟩
    intro hline
    have hfalse : p.indented.lineStart = false := by
      unfold Position.indented
      split <;> rfl
    rw [hfalse] at hline
    cases hline

def isSilent : Piece → Bool
  | .text t => !t.isEmpty && t.all isBlank
  | .value _ => false
  | _ => true

def Class.allowsBlanks (k : Class) : Bool := k = .any || k = .clear

theorem meets_between {st : State} (hk : k.allowsBlanks = true) (h : st.phase = .between) :
    st.meets k = true := by
  cases k <;> simp_all [Class.allowsBlanks, State.meets, State.isOpen, State.isClear]

theorem Scans.silentPiece (hs : s.HasBlanks) (hk : k.allowsBlanks = true) {piece : Piece}
    (h : isSilent piece = true) : Scans α s k [piece] [] k := by
  intro p st hfollows hmeets
  have hopen : st.isOpen = true := isOpen_of_meets (by rintro rfl; cases hk) hmeets
  cases piece with
  | value v => cases h
  | text t =>
    obtain ⟨hne, hblank⟩ : t ≠ [] ∧ t.all isBlank = true := by simpa [isSilent] using h
    obtain ⟨htaken, hbetween⟩ : (scan α {} t).taken = [] ∧ (scan α {} t).phase = .between :=
      scan_blanks rfl hne hblank
    have hlexes : Lexes α k t k := by
      refine ⟨?_, meets_between hk hbetween⟩
      obtain ⟨c, rest, rfl⟩ := List.exists_cons_of_ne_nil hne
      have hc : isBlank c = true := by simp at hblank; exact hblank.1
      cases k <;> simp_all [Class.allowsBlanks, Class.admits, isPause]
    have hscans := Scans.text hs hlexes p st hfollows hmeets
    rw [htaken] at hscans
    exact hscans
  | lineBreak =>
    obtain ⟨hne, hblank⟩ := render_lineEnd hs
    have hrun : rendered s (p.run [.lineBreak]).laid = s.render .lineEnd := by
      simp [Position.run, Position.step, rendered]
    obtain ⟨htaken, hbetween⟩ := scan_blanks (α := α) hopen hne hblank
    refine ⟨rfl, ?_, ?_, ?_⟩
    · rw [hrun, htaken, List.append_nil]
    · rw [hrun]
      exact meets_between hk hbetween
    · rw [hrun]
      exact follows_between (Position.isPlain_point { p with lineStart := true } _) hbetween
  | deeper =>
    exact ⟨rfl, (List.append_nil _).symm, hmeets, hfollows.plain, hfollows.lineStart, hfollows.last⟩
  | shallower =>
    exact ⟨rfl, (List.append_nil _).symm, hmeets, hfollows.plain, hfollows.lineStart, hfollows.last⟩

end Scans

/-- In both modes and under all settings, a script that does not fail adds the same tokens. -/
def Reads (α : Alphabet) (k : Class) (f : Mode → Script) (k' : Class) : Prop :=
  ∃ L, ∀ m, (f m).failure = none → ∀ s : PrintSettings, s.HasBlanks →
    Scans α s k (f m).pieces L k'

namespace Reads

open Script

variable {α : Alphabet} {i j k : Class} {f g : Mode → Script}

theorem congr (h : ∀ m, f m = g m) (hg : Reads α i g k) : Reads α i f k := by
  rwa [funext h]

theorem weaken {i' k' : Class} (h : Reads α i f k) (hi : i'.under i = true)
    (hk : k.under k' = true) : Reads α i' f k' := by
  obtain ⟨L, hscans⟩ := h
  exact ⟨L, fun m hm s hs => (hscans m hm s hs).weaken hi hk⟩

/-- A script that fails in both modes. -/
theorem vacuous (h : ∀ m, (f m).failure ≠ none) : Reads α i f k :=
  ⟨[], fun m hm => absurd hm (h m)⟩

theorem fail (e : TreeError) : Reads α i (fun _ => fail e) k := vacuous nofun

theorem append (hf : Reads α i f j) (hg : Reads α j g k) :
    Reads α i (fun m => f m ++ g m) k := by
  obtain ⟨L, hf⟩ := hf
  obtain ⟨L', hg⟩ := hg
  refine ⟨L ++ L', fun m hm s hs => ?_⟩
  rw [append_pieces (failure_left hm)]
  exact (hf m (failure_left hm) s hs).append (hg m (failure_right hm) s hs)

theorem empty (h : i.under k = true) : Reads α i (fun _ => empty) k :=
  ⟨[], fun _ _ _ _ => Scans.nil.weaken h (Class.under_self k)⟩

/-- A text that is written in both modes. -/
theorem write {t : Text} (h : Lexes α i t k) : Reads α i (fun _ => write t) k :=
  ⟨_, fun _ _ _ hs => .text hs h⟩

theorem spelled {t : Text} (h : spells i t k = true) : Reads α i (fun _ => Script.write t) k :=
  write (lexes_of_spells h)

/-- A text of each mode, both with the same tokens. -/
theorem alike {t : Mode → Text} (h : spellAlike i (t .minified) (t .pretty) k = true) :
    Reads α i (fun m => Script.write (t m)) k := by
  refine ⟨(scan α {} (t .pretty)).taken, fun m _ s hs => ?_⟩
  have hsame := taken_of_spellAlike (α := α) h
  simp only [spellAlike, Bool.and_eq_true] at h
  cases m with
  | pretty => exact .text hs (lexes_of_spells h.1.2)
  | minified =>
    rw [← hsame]
    exact .text hs (lexes_of_spells h.1.1)

theorem token {minified pretty : Text} (h : spellAlike i minified pretty k = true) :
    Reads α i (fun m => m.token minified pretty) k :=
  alike (t := fun m => if m.isMinified then minified else pretty) h

/-- Blanks, line breaks and changes of depth. -/
theorem silent (hk : k.allowsBlanks = true)
    (h : ∀ m, ∀ piece ∈ (f m).pieces, isSilent piece = true) : Reads α k f k := by
  refine ⟨[], fun m _ s hs => ?_⟩
  have hpieces := h m
  generalize (f m).pieces = pieces at hpieces
  induction pieces with
  | nil => exact .nil
  | cons piece rest ih =>
    have hpiece : Scans α s k [piece] [] k :=
      .silentPiece hs hk (hpieces piece List.mem_cons_self)
    exact hpiece.append (ih fun piece' hrest => hpieces piece' (List.mem_cons_of_mem piece hrest))

/-- What is done only when pretty, and writes no token. -/
theorem prettyOnly (hk : k.allowsBlanks = true) {script : Script}
    (h : script.pieces.all isSilent = true) : Reads α k (fun m => m.prettyOnly script) k := by
  refine silent hk fun m piece hpiece => ?_
  cases m with
  | pretty => exact List.all_eq_true.mp h piece hpiece
  | minified => cases hpiece

theorem onlyIf (condition : Bool) (h : condition = true → Reads α i f k)
    (hik : condition = false → i.under k = true) :
    Reads α i (fun m => onlyIf condition (f m)) k := by
  cases condition with
  | false => exact empty (hik rfl)
  | true => exact h rfl

/-- A result that is the same in both modes. -/
theorem given {β : Type} {result : Mode → Except TreeError β} {r : Except TreeError β}
    {s : Mode → β → Script} (hresult : ∀ m, result m = r)
    (h : ∀ value, r = .ok value → Reads α i (fun m => s m value) k) :
    Reads α i (fun m => given (result m) (s m)) k := by
  refine congr (g := fun m => Script.given r (s m)) (fun m => by rw [hresult m]) ?_
  cases r with
  | ok value => exact h value rfl
  | error e => exact fail e

/-- What is enclosed can follow anything, and ends an operand; what is not is as it was. -/
theorem enclosedIf (condition : Bool) {i' k' : Class} (h : Reads α i f k)
    (hi : Class.clear.under i = true) (hk : k.under .any = true) (hi' : i'.under .any = true)
    (hk' : Class.object.under k' = true)
    (hfalse : condition = false → i'.under i = true ∧ k.under k' = true) :
    Reads α i' (fun m => enclosedIf condition (f m)) k' := by
  cases condition with
  | false => exact h.weaken (hfalse rfl).1 (hfalse rfl).2
  | true =>
    have hopening : Reads α .any (fun _ => Script.write "(") i :=
      (spelled (i := .any) (k := .clear) (by decide)).weaken rfl hi
    have hclosing : Reads α .any (fun _ => Script.write ")") .object := spelled (by decide)
    exact ((hopening.append (h.weaken (by cases i <;> rfl) hk)).append hclosing).weaken hi' hk'

theorem finish {t : Text} (h : spells i t .clear = true) :
    Reads α i (fun m => m.finish t) .clear := by
  have hends : Reads α i (fun m => Script.write t ++ m.prettyOnly newline) .clear :=
    (spelled h).append (prettyOnly rfl rfl)
  refine hends.congr fun m => ?_
  cases m <;> rfl

/-- A text that stands on a line of its own when pretty, if at all. -/
theorem ending (newline : Bool) {t : Text} (h : spells i t k = true)
    (hk : newline = true → k = .clear) :
    Reads α i (fun m => if newline && !m.isMinified then line t else Script.write t) k := by
  cases newline with
  | false => exact spelled h
  | true =>
    obtain rfl := hk rfl
    refine (finish h).congr fun m => ?_
    cases m <;> rfl

/-- What opens a level of depth. -/
theorem opening {t : Text} (h : spells i t .clear = true) :
    Reads α i (fun m => if m.isMinified then Script.write t else line t ++ deeper) .clear := by
  have hopens : Reads α i (fun m => m.finish t ++ m.prettyOnly deeper) .clear :=
    (finish h).append (prettyOnly rfl rfl)
  refine hopens.congr fun m => ?_
  cases m <;> rfl

/-- Statements between braces. Where no line is ended after them, they end an operand. -/
theorem braces (spacer newline isEmpty : Bool) (h : Reads α .clear f .clear)
    (hk : k = .clear ∨ newline = false ∧ k = .object) :
    Reads α .any (fun m => m.braces spacer newline isEmpty (f m)) k := by
  have hspacer : Reads α .any
      (fun m => Script.onlyIf (spacer && !m.isMinified) (Script.write " ")) .any := by
    refine silent rfl fun m piece hpiece => ?_
    cases spacer <;> cases m <;> simp_all [Script.onlyIf, Mode.isMinified]
    decide
  have hline : newline = true → k = .clear := by
    intro hnewline
    rcases hk with hk | ⟨hfalse, -⟩
    · exact hk
    · rw [hfalse] at hnewline
      cases hnewline
  have hends : k = .clear ∨ k = .object := hk.imp_right And.right
  cases isEmpty with
  | true =>
    refine hspacer.append (ending newline ?_ hline)
    rcases hends with rfl | rfl <;> decide
  | false =>
    have hclosing : Reads α .clear
        (fun m => if newline && !m.isMinified then line "\x7d" else Script.write "\x7d") k := by
      refine ending newline ?_ hline
      rcases hends with rfl | rfl <;> decide
    have hinner : Reads α .any (fun m => (if m.isMinified then Script.write "\x7b"
        else line "\x7b" ++ deeper) ++ f m ++ m.prettyOnly shallower) .clear :=
      ((opening (by decide)).append h).append (prettyOnly rfl rfl)
    exact hspacer.append (hinner.append hclosing)

/-- Items between brackets. -/
theorem bracketed {t u : Text} (ht : spells .any t .clear = true)
    (hu : spells .any u .object = true)
    (h : Reads α .clear f .any) : Reads α .any (fun m => bracketed m t u (f m)) .object :=
  (((opening ht).append h).append (prettyOnly rfl rfl)).append (spelled hu)

theorem looseBody (hi : i.allowsBlanks = true) (h : Reads α i f .clear) :
    Reads α i (fun m => looseBody m (f m)) .clear :=
  ((prettyOnly hi rfl).append h).append (prettyOnly rfl rfl)

end Reads

end Lexical

end ScriptTree
