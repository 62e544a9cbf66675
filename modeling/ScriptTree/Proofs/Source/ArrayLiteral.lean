import ScriptTree.Proofs.Lexical.Reading
import ScriptTree.Proofs.Source.Sequence

/-!
Holes of arrays. By the grammar of ECMAScript 5, a comma after an element only ends it, and
every other comma stands for a hole. What an array is printed as is read back as an array of
the same length, with holes where slots are empty and the texts of the elements everywhere
else. The text of an element is taken as one token; it is the same beside whatever neighbours
the element has.
-/

namespace ScriptTree.Source

open Script Lexical

/-! ### Array literals -/

/-- A token of an array literal, where the text of an element counts as one. -/
inductive ArrayToken where
  | opening
  | closing
  | comma
  | element (t : Text)
deriving DecidableEq

def ArrayToken.text : ArrayToken → Text
  | .opening => "["
  | .closing => "]"
  | .comma => ","
  | .element t => t

inductive Spelled : List ArrayToken → Text → Prop
  | blanks {blanks : Text} (h : blanks.all isBlank = true) : Spelled [] blanks
  | token {blanks rest : Text} {tokens : List ArrayToken} (h : blanks.all isBlank = true)
    (token : ArrayToken) (hrest : Spelled tokens rest) :
    Spelled (token :: tokens) (blanks ++ token.text ++ rest)

/-- An array without its holes, which are missing texts. -/
abbrev holes (count : Nat) : List (Option Text) := List.replicate count none

theorem Spelled.after_blanks {tokens : List ArrayToken} {blanks t : Text}
    (hblanks : blanks.all isBlank = true) (h : Spelled tokens t) :
    Spelled tokens (blanks ++ t) := by
  cases h with
  | blanks h => exact .blanks (by rw [List.all_append, hblanks, h]; rfl)
  | @token blanks' rest tokens h token hrest =>
    have hboth : (blanks ++ blanks').all isBlank = true := by rw [List.all_append, hblanks, h]; rfl
    simpa [List.append_assoc] using Spelled.token hboth token hrest

theorem Spelled.append {a b : List ArrayToken} {t u : Text} (ha : Spelled a t) (hb : Spelled b u) :
    Spelled (a ++ b) (t ++ u) := by
  induction ha with
  | blanks h => exact hb.after_blanks h
  | token h token _ ih => simpa [List.append_assoc] using Spelled.token h token ih

theorem Spelled.single (token : ArrayToken) : Spelled [token] token.text := by
  have hnone : ([] : Text).all isBlank = true := rfl
  simpa using Spelled.token hnone token (.blanks hnone)

/-! ### What an array is printed as -/

structure Script.IsPlain (a : Script) : Prop where
  failure : a.failure = none
  allowed : ∀ piece ∈ a.pieces, piece.isAllowed .pretty = true

structure Position.Spells (p : Position) (s : PrintSettings) (a : Script)
    (tokens : List ArrayToken) (q : Position) : Prop where
  script : a.IsPlain
  layout : (p.run a.pieces).failure = none
  position : (p.run a.pieces).position = q
  spelled : Spelled tokens (rendered s (p.run a.pieces).laid)

variable {s : PrintSettings} {p q r : Position} {m : Mode} {a b : Script}

namespace Script.IsPlain

theorem append (ha : a.IsPlain) (hb : b.IsPlain) : (a ++ b).IsPlain := by
  refine ⟨by rw [append_failure, ha.failure, hb.failure]; rfl, fun piece hpiece => ?_⟩
  rcases mem_append_pieces hpiece with hpiece | hpiece
  · exact ha.allowed piece hpiece
  · exact hb.allowed piece hpiece

theorem empty : Script.empty.IsPlain := ⟨rfl, nofun⟩

theorem single {piece : Piece} (h : piece.isAllowed .pretty = true) : (ofPieces [piece]).IsPlain :=
  ⟨rfl, by simpa using h⟩

theorem write (t : Text) : (Script.write t).IsPlain := single rfl

end Script.IsPlain

namespace Position

theorem Spells.append {tokens tokens' : List ArrayToken} (ha : p.Spells s a tokens q)
    (hb : q.Spells s b tokens' r) : p.Spells s (a ++ b) (tokens ++ tokens') r := by
  have hrun := run_append p a.pieces b.pieces ha.layout
  rw [ha.position, ← append_pieces ha.script.failure] at hrun
  refine ⟨ha.script.append hb.script, ?_, ?_, ?_⟩
  · rw [hrun]; exact hb.layout
  · rw [hrun]; exact hb.position
  · rw [hrun, rendered_append]; exact ha.spelled.append hb.spelled

theorem Spells.empty (p : Position) : p.Spells s empty [] p := ⟨.empty, rfl, rfl, .blanks rfl⟩

theorem Spells.deeper (p : Position) : p.Spells s deeper [] { p with depth := p.depth + 1 } :=
  ⟨.single rfl, rfl, rfl, .blanks rfl⟩

theorem Spells.shallower (p : Position) : p.Spells s shallower [] { p with depth := p.depth - 1 } :=
  ⟨.single rfl, rfl, rfl, .blanks rfl⟩

def broken (p : Position) : Position :=
  { p with lineStart := true, last := some (.point '\n') }

theorem Spells.newline (hs : s.HasBlanks) (p : Position) : p.Spells s newline [] p.broken := by
  refine ⟨.single rfl, rfl, rfl, .blanks ?_⟩
  simpa [rendered, run, step] using (render_lineEnd hs).2

theorem Spells.write (hs : s.HasBlanks) (hp : p.IsPlain) {t : Text} {first last : CodePoint}
    (hfirst : t.head? = some first) (hlast : t.getLast? = some last) {tokens : List ArrayToken}
    (htokens : Spelled tokens t) : p.Spells s (Script.write t) tokens (p.ended last) := by
  have hrun := run_text hp hfirst hlast []
  rw [write_eq]
  refine ⟨.single rfl, by rw [ofPieces_pieces, hrun]; rfl, by rw [ofPieces_pieces, hrun]; rfl, ?_⟩
  have hspelled := htokens.after_blanks (rendered_before hs (p := p) (c := first))
  rw [ofPieces_pieces, hrun, rendered_append]
  simpa [rendered, run, PrintSettings.render, PrintSettings.fragment] using hspelled

/-- A token that is written on its own. -/
theorem Spells.token (hs : s.HasBlanks) (hp : p.IsPlain) (token : ArrayToken)
    {first last : CodePoint} (hfirst : token.text.head? = some first)
    (hlast : token.text.getLast? = some last) :
    p.Spells s (Script.write token.text) [token] (p.ended last) :=
  .write hs hp hfirst hlast (.single token)

theorem hasEnded_broken (p : Position) (m : Mode) : p.broken.HasEnded m := by
  refine ⟨fun _ => rfl, ?_⟩
  rintro edge ⟨⟩
  exact ⟨_, rfl, isInert_newline⟩

/-- Minified, an inert code point ends what was written. -/
theorem hasEnded_ended (p : Position) {c : CodePoint} (hc : IsInert c) :
    (p.ended c).HasEnded .minified := by
  refine ⟨nofun, ?_⟩
  rintro edge ⟨⟩
  exact ⟨c, rfl, hc⟩

theorem HasEnded.isPlain (h : p.HasEnded m) : p.IsPlain := by
  intro edge hedge
  obtain ⟨c, hc, -⟩ := h.last edge hedge
  exact ⟨c, hc⟩

end Position

section Elements

variable {t : Tree} {elements : List Tree}

/-- A comma leads to where an element can start. -/
theorem spells_comma (hs : s.HasBlanks) (hp : p.IsPlain) :
    ∃ q, p.Spells s (m.finish ",") [.comma] q ∧ q.HasEnded m ∧ q.depth = p.depth := by
  have hcomma := Position.Spells.token hs hp .comma rfl rfl
  cases m with
  | minified =>
    have hinert : IsInert (CodePoint.ofChar ',') := isInert_of (by decide) (by decide) (by decide)
    exact ⟨_, hcomma, Position.hasEnded_ended p hinert, rfl⟩
  | pretty => exact ⟨_, hcomma.append (.newline hs _), Position.hasEnded_broken _ _, rfl⟩

end Elements

end ScriptTree.Source
