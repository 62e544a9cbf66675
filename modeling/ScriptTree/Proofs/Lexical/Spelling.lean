import ScriptTree.Proofs.Lexical.RegularExpression
import ScriptTree.Proofs.Source.Rendering

/-!
What scripts spell. A layout that does not fail delivers the texts of its script in order, with
nothing but spaces, indentations and line ends between them, and the tokens of a script are those
that its texts are cut into. How the texts are spaced and broken into lines depends on the mode,
the tokens do not.
-/

namespace ScriptTree

open Lexical

namespace Source

def Piece.texts : Piece → List Text
  | .text t => if t.isEmpty then [] else [t]
  | _ => []

def Script.texts (s : Script) : List Text := s.pieces.flatMap Piece.texts

theorem Script.texts_append {a b : Script} (ha : a.failure = none) :
    (a ++ b).texts = a.texts ++ b.texts := by
  rw [texts, append_pieces ha, List.flatMap_append, texts, texts]

def Laid.texts (l : Laid) : List Text :=
  match l.chunk with
  | .text t => [t]
  | _ => []

def Layout.texts (layout : Layout) : List Text := layout.laid.flatMap Laid.texts

namespace Position

variable {p : Position}

theorem texts_indentation (p : Position) : p.indentation.flatMap Laid.texts = [] := by
  unfold indentation
  split <;> rfl

theorem texts_spacing {first : Except Misuse Edge} {space : List Laid}
    (h : p.spacing first = .ok space) : space.flatMap Laid.texts = [] := by
  unfold spacing at h
  split at h
  · obtain rfl := Except.ok.inj h
    rfl
  · cases first with
    | error e => cases h
    | ok edge =>
      simp only [bind, Except.bind] at h
      split at h
      · cases h
      · split at h <;> obtain rfl := Except.ok.inj h <;> rfl

theorem texts_put {chunk : Chunk} {first : Except Misuse Edge} {last : Except Misuse (Option Edge)}
    (h : (p.put chunk first last).failure = none) :
    (p.put chunk first last).texts = Laid.texts ⟨chunk, p.indented⟩ := by
  unfold put at h ⊢
  cases hspacing : p.indented.spacing first with
  | error e => simp [hspacing] at h
  | ok space =>
    cases last with
    | error e => simp [hspacing] at h
    | ok last => simp [hspacing, Layout.texts, texts_indentation, texts_spacing hspacing]

theorem texts_step (p : Position) (piece : Piece) (h : (p.step piece).failure = none) :
    (p.step piece).texts = piece.texts := by
  cases piece with
  | text t =>
    cases t with
    | nil => rfl
    | cons c rest =>
      obtain ⟨last, hlast⟩ : ∃ last, (c :: rest).getLast? = some last :=
        ⟨_, List.getLast?_eq_some_getLast (List.cons_ne_nil c rest)⟩
      simp only [step, write, List.head?_cons, hlast] at h ⊢
      exact texts_put h
  | value v =>
    simp only [step, writeValue] at h ⊢
    split at h
    · exact texts_put h
    · exact texts_put h
  | lineBreak => rfl
  | deeper => rfl
  | shallower => rfl

/-- The texts that a layout delivers are those that were to be written. -/
theorem texts_run (p : Position) {pieces : List Piece} (h : (p.run pieces).failure = none) :
    (p.run pieces).texts = pieces.flatMap Piece.texts := by
  induction pieces generalizing p with
  | nil => rfl
  | cons piece rest ih =>
    cases hfirst : (p.step piece).failure with
    | some e => simp [run, hfirst] at h
    | none =>
      have hrest : ((p.step piece).position.run rest).failure = none := by
        simpa [run, hfirst] using h
      have hstep := texts_step p piece hfirst
      have htexts := ih (p.step piece).position hrest
      simp only [Layout.texts] at hstep htexts ⊢
      simp only [run, hfirst, List.flatMap_append, List.flatMap_cons, hstep, htexts]

theorem texts_print {m : Mode} {t : Tree} (h : (p.print m t).failure = none) :
    (script m t).failure = none ∧ (p.print m t).texts = (script m t).texts := by
  have hboth : (p.run (script m t).pieces).failure = none ∧ (script m t).failure = none := by
    simpa [print] using h
  exact ⟨hboth.2, texts_run p hboth.1⟩

end Position

/-- A text that is delivered is the text of a layout that does not fail. -/
theorem rendered_of_deliver {s : PrintSettings} {layout : Layout} {laid : List Laid}
    (h : (deliver s layout laid).failure = none) :
    layout.failure = none ∧ (deliver s layout laid).text = rendered s laid := by
  induction laid with
  | nil => exact ⟨h, rfl⟩
  | cons first rest ih =>
    rw [deliver] at h ⊢
    cases hfragment : s.fragment first.chunk with
    | error e => simp [hfragment] at h
    | ok fragment =>
      cases fragment with
      | value typeName size => simp [hfragment] at h
      | text t =>
        simp only [hfragment] at h ⊢
        obtain ⟨hfailure, htext⟩ := ih h
        exact ⟨hfailure, by simp [rendered, PrintSettings.render, hfragment, htext]⟩

/-- Source text is the text of the layout of its tree, and the texts in the layout are those of
the script. -/
theorem texts_of_toSource {s : PrintSettings} {t : Tree} {text : Text}
    (h : toSource s t = .ok text) :
    text = rendered s (Position.print {} s.mode t).laid ∧ (script s.mode t).failure = none ∧
      (Position.print {} s.mode t).texts = (script s.mode t).texts := by
  simp only [toSource, Position.deliver] at h
  split at h
  · next hfailure =>
    obtain ⟨hprint, htext⟩ := rendered_of_deliver hfailure
    exact ⟨(Except.ok.inj h).symm.trans htext, Position.texts_print hprint⟩
  · cases h

end Source

namespace Lexical

inductive Segment where
  | token (t : Text)
  | part (texts : List Text)
deriving DecidableEq

/-- Texts are cut one by one. The scanner takes a text apart, unless the whole of it is a regular
expression or it belongs to a part. -/
inductive Cut (α : Alphabet) : List Text → List Segment → Prop
  | nil : Cut α [] []
  | scanned {t : Text} {tokens texts : List Text} {segments : List Segment}
    (h : tokens? α t = some tokens) (hrest : Cut α texts segments) :
    Cut α (t :: texts) (tokens.map .token ++ segments)
  | regex {t body flags : Text} {texts : List Text} {segments : List Segment}
    (h : IsRegexToken α t body flags) (hrest : Cut α texts segments) :
    Cut α (t :: texts) (.token t :: segments)
  | part (inner : List Text) {texts : List Text} {segments : List Segment}
    (hrest : Cut α texts segments) : Cut α (inner ++ texts) (.part inner :: segments)

def Segment.ofAscii? (t : Text) : Option (List Segment) :=
  if t.all isAscii then (tokens? .ascii t).map (List.map .token) else none

section Cutting

variable {α : Alphabet} {t : Text} {texts texts' tokens : List Text}
  {segments segments' : List Segment}

theorem Cut.append (h : Cut α texts segments) (h' : Cut α texts' segments') :
    Cut α (texts ++ texts') (segments ++ segments') := by
  induction h with
  | nil => exact h'
  | scanned h _ ih =>
    rw [List.append_assoc]
    exact .scanned h ih
  | regex h _ ih => exact .regex h ih
  | part inner _ ih =>
    rw [List.append_assoc]
    exact .part inner ih

theorem Cut.single (h : tokens? α t = some tokens) : Cut α [t] (tokens.map .token) := by
  simpa using Cut.scanned h .nil

theorem tokens?_ascii (h : t.all isAscii = true) : tokens? α t = tokens? .ascii t := by
  rw [tokens?, tokens?, scan_ascii h]

theorem cut_ascii (h : Segment.ofAscii? t = some segments) : Cut α [t] segments := by
  unfold Segment.ofAscii? at h
  split at h
  · next hascii =>
    obtain ⟨tokens, htokens, rfl⟩ := Option.map_eq_some_iff.mp h
    exact .single ((tokens?_ascii hascii).trans htokens)
  · cases h

/-- Texts that are no tokens can only be parts. -/
theorem Cut.parts (h : Cut α texts segments)
    (hscan : ∀ t ∈ texts, tokens? α t = none)
    (hregex : ∀ t ∈ texts, ∀ body flags, ¬IsRegexToken α t body flags) :
    ∀ t, .token t ∉ segments := by
  induction h with
  | nil => simp
  | scanned h _ _ =>
    rw [hscan _ List.mem_cons_self] at h
    cases h
  | regex h _ _ => exact absurd h (hregex _ List.mem_cons_self _ _)
  | part inner _ ih =>
    have hrest := ih (fun t ht => hscan t (List.mem_append_right inner ht))
      fun t ht => hregex t (List.mem_append_right inner ht)
    simpa using hrest
end Cutting

end Lexical

namespace Source

/-- A script that does not fail and whose texts are cut into the segments. -/
structure Script.Spells (α : Alphabet) (s : Script) (segments : List Segment) : Prop where
  failure : s.failure = none
  cut : Cut α s.texts segments

namespace Script.Spells

variable {α : Alphabet} {a b : Script} {as bs : List Segment}

theorem append (ha : a.Spells α as) (hb : b.Spells α bs) : (a ++ b).Spells α (as ++ bs) := by
  refine ⟨by rw [append_failure, ha.failure, hb.failure]; rfl, ?_⟩
  rw [texts_append ha.failure]
  exact ha.cut.append hb.cut

theorem empty : Script.empty.Spells α [] := ⟨rfl, .nil⟩

theorem cast (ha : a.Spells α as) (h : as = bs) : a.Spells α bs := h ▸ ha

/-- A script whose texts are not cut. -/
theorem part (ha : a.failure = none) : a.Spells α [.part a.texts] := by
  refine ⟨ha, ?_⟩
  have hpart := Cut.part (α := α) a.texts .nil
  rwa [List.append_nil] at hpart

theorem of_cut {t : Text} (h : Cut α [t] as) (hempty : t ≠ []) : (Script.write t).Spells α as := by
  refine ⟨rfl, ?_⟩
  have htexts : (Script.write t).texts = [t] := by simp [texts, Script.write, Piece.texts, hempty]
  rwa [htexts]

theorem scanned {t : Text} {tokens : List Text} (h : tokens? α t = some tokens)
    (hempty : t ≠ []) : (Script.write t).Spells α (tokens.map .token) :=
  of_cut (.single h) hempty

theorem write {t : Text} (h : Segment.ofAscii? t = some as) : (Script.write t).Spells α as := by
  cases t with
  | nil =>
    obtain rfl : [] = as := Option.some.inj h
    exact ⟨rfl, .nil⟩
  | cons c rest => exact of_cut (cut_ascii h) (List.cons_ne_nil c rest)

/-- What is between parentheses, or on its own. -/
theorem enclosedIf (condition : Bool) (ha : a.Spells α as) :
    (Script.enclosedIf condition a).Spells α
      (if condition then Segment.token "(" :: as ++ [Segment.token ")"] else as) := by
  cases condition with
  | false => exact ha
  | true =>
    have hopening : (Script.write "(").Spells α [.token "("] := write (by decide)
    have hclosing : (Script.write ")").Spells α [.token ")"] := write (by decide)
    exact (hopening.append ha).append hclosing

/-- Instructions that write no text spell nothing. -/
theorem silent {pieces : List Piece} (h : ∀ p ∈ pieces, Piece.texts p = []) :
    (ofPieces pieces).Spells α [] := by
  refine ⟨rfl, ?_⟩
  have htexts : (ofPieces pieces).texts = [] := List.flatMap_eq_nil_iff.mpr h
  rw [htexts]
  exact .nil

theorem onlyIf (condition : Bool) (ha : a.Spells α as) :
    (Script.onlyIf condition a).Spells α (if condition then as else []) := by
  cases condition with
  | false => exact empty
  | true => exact ha

theorem prettyOnly (m : Mode) (ha : a.Spells α []) : (m.prettyOnly a).Spells α [] := by
  cases m with
  | pretty => exact ha
  | minified => exact empty

/-- A text that is spaced in one mode only has the same tokens in both. -/
theorem token (m : Mode) {minified pretty : Text} (hminified : Segment.ofAscii? minified = some as)
    (hpretty : Segment.ofAscii? pretty = some as) : (m.token minified pretty).Spells α as := by
  cases m with
  | pretty => exact write hpretty
  | minified => exact write hminified

theorem line {t : Text} (h : Segment.ofAscii? t = some as) : (Script.line t).Spells α as := by
  have hbreak : Script.newline.Spells α [] := silent (by simp [Piece.texts])
  exact ((write h).append hbreak).cast (List.append_nil as)

theorem finish (m : Mode) {t : Text} (h : Segment.ofAscii? t = some as) :
    (m.finish t).Spells α as := by
  cases m with
  | pretty => exact line h
  | minified => exact write h

/-- What opens a bracket, with the line that ends there when pretty. -/
theorem opening (m : Mode) {t : Text} (h : Segment.ofAscii? t = some as) :
    (if m.isMinified then Script.write t else Script.line t ++ Script.deeper).Spells α as := by
  have hdeeper : Script.deeper.Spells α [] := silent (by simp [Piece.texts])
  cases m with
  | pretty => exact ((line h).append hdeeper).cast (List.append_nil as)
  | minified => exact write h

/-- What closes a bracket, alone on its line or not. -/
theorem closing (condition : Bool) {t : Text} (h : Segment.ofAscii? t = some as) :
    (if condition then Script.line t else Script.write t).Spells α as := by
  cases condition with
  | false => exact write h
  | true => exact line h

theorem bracketed (m : Mode) {t u : Text} {ts us : List Segment}
    (ht : Segment.ofAscii? t = some ts) (hu : Segment.ofAscii? u = some us)
    (ha : a.Spells α as) : (Source.bracketed m t u a).Spells α (ts ++ as ++ us) := by
  have hshallower : (Script.shallower ++ Script.newline).Spells α [] :=
    silent (by simp [Piece.texts])
  refine ((((opening m ht).append ha).append (prettyOnly m hshallower)).append (write hu)).cast ?_
  rw [List.append_nil]

/-- Statements between braces, which are there also if there are no statements. -/
theorem braces (m : Mode) (spacer newline isEmpty : Bool) (hempty : isEmpty = true → as = [])
    (ha : a.Spells α as) :
    (m.braces spacer newline isEmpty a).Spells α
      (Segment.token "\x7b" :: as ++ [Segment.token "\x7d"]) := by
  have hblank : (Script.onlyIf (spacer && !m.isMinified) (Script.write " ")).Spells α [] :=
    ((write (by decide : Segment.ofAscii? " " = some [])).onlyIf _).cast (by simp)
  have hboth : Segment.ofAscii? "\x7b\x7d" = some [.token "\x7b", .token "\x7d"] := by decide
  have hopening : Segment.ofAscii? "\x7b" = some [.token "\x7b"] := by decide
  have hclosing : Segment.ofAscii? "\x7d" = some [.token "\x7d"] := by decide
  cases isEmpty with
  | true =>
    rw [hempty rfl]
    exact (hblank.append (closing _ hboth)).cast (List.nil_append _)
  | false =>
    have hshallower : Script.shallower.Spells α [] := silent (by simp [Piece.texts])
    refine (hblank.append ((((opening m hopening).append ha).append
      (prettyOnly m hshallower)).append (closing _ hclosing))).cast ?_
    simp

end Script.Spells

def Script.Writes (α : Alphabet) (s : Script) (segments : List Segment) : Prop :=
  s.failure = none → s.Spells α segments

namespace Script.Writes

variable {α : Alphabet} {a b : Script} {as bs : List Segment}

theorem of_spells (h : a.Spells α as) : a.Writes α as := fun _ => h

theorem part (a : Script) : a.Writes α [.part a.texts] := fun h => .part h

theorem append (ha : a.Writes α as) (hb : b.Writes α bs) : (a ++ b).Writes α (as ++ bs) := by
  intro h
  rw [append_failure] at h
  cases hfailure : a.failure with
  | some e =>
    rw [hfailure] at h
    cases h
  | none =>
    rw [hfailure] at h
    exact (ha hfailure).append (hb h)

theorem cast (ha : a.Writes α as) (h : as = bs) : a.Writes α bs := h ▸ ha

theorem given {β : Type} {result : Except TreeError β} {s : β → Script}
    (h : ∀ value, result = .ok value → (s value).Writes α as) :
    (Script.given result s).Writes α as := by
  cases result with
  | ok value => exact h value rfl
  | error e => exact fun hfailure => by cases hfailure

theorem braces (m : Mode) (spacer newline isEmpty : Bool) (hempty : isEmpty = true → as = [])
    (ha : a.Writes α as) :
    (m.braces spacer newline isEmpty a).Writes α
      (Segment.token "\x7b" :: as ++ [Segment.token "\x7d"]) := by
  cases isEmpty with
  | true =>
    rw [hempty rfl]
    have hbraces : m.braces spacer newline true a = m.braces spacer newline true .empty := rfl
    rw [hbraces]
    exact of_spells (Spells.braces m spacer newline true (fun _ => rfl) .empty)
  | false =>
    cases hfailure : a.failure with
    | none => exact of_spells (Spells.braces m spacer newline false nofun (ha hfailure))
    | some e =>
      intro h
      cases m <;> cases spacer <;>
        simp [Mode.braces, Mode.isMinified, Script.onlyIf, append_failure, hfailure] at h

end Script.Writes

end Source

end ScriptTree
