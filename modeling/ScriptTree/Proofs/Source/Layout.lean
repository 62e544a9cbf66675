import ScriptTree.Source.Layout
import ScriptTree.Proofs.Source.Script
import ScriptTree.Proofs.Text

/-!
Layouts that add nothing to what is written. Where no two neighbouring texts would join and
no line is broken, the source text of a script is its texts one after the other, whatever
the settings say about indentation and line ends.
-/

namespace ScriptTree.Source

theorem not_is_of_isWordPoint {c : CodePoint} {char : Char} (hc : isWordPoint c = true)
    (hchar : isWordPoint (CodePoint.ofChar char) = false) : c.is char = false := by
  by_contra h
  have heq : c = CodePoint.ofChar char := CodePoint.is_iff.mp (by simpa using h)
  rw [heq, hchar] at hc
  cases hc

section Equations

-- The equations of the layout are derived here, once for all the proofs.
attribute [local simp] Position.run Position.step PrintSettings.fragment

end Equations

namespace Position

theorem run_append (p : Position) (a b : List Piece) (h : (p.run a).failure = none) :
    p.run (a ++ b) =
      { (p.run a).position.run b with
        laid := (p.run a).laid ++ ((p.run a).position.run b).laid } := by
  induction a generalizing p with
  | nil => rfl
  | cons piece rest ih =>
    cases hfirst : (p.step piece).failure with
    | some e => simp [run, hfirst] at h
    | none =>
      have hrest : ((p.step piece).position.run rest).failure = none := by
        simpa [run, hfirst] using h
      simp [run, hfirst, ih _ hrest]

structure Lays (p : Position) (texts : List Text) (q : Position) : Prop where
  failure : (p.run (texts.map .text)).failure = none
  chunks : (p.run (texts.map .text)).laid.map Laid.chunk = texts.map .text
  position : (p.run (texts.map .text)).position = q

theorem Lays.nil (p : Position) : Lays p [] p := ⟨rfl, rfl, rfl⟩

theorem Lays.append {p q r : Position} {a b : List Text} (ha : Lays p a q) (hb : Lays q b r) :
    Lays p (a ++ b) r := by
  have happend := run_append p (a.map .text) (b.map .text) ha.failure
  rw [ha.position] at happend
  constructor
  · rw [List.map_append, happend]
    exact hb.failure
  · rw [List.map_append, happend, List.map_append, List.map_append, ha.chunks, hb.chunks]
  · rw [List.map_append, happend]
    exact hb.position

def admits (p : Position) (c : CodePoint) : Bool :=
  match p.last with
  | none => true
  | some (.point last) => !joins last c
  | some _ => false

def after (c : CodePoint) : Position := { depth := 0, lineStart := false, last := some (.point c) }

theorem admits_after {last first : CodePoint} :
    (after last).admits first = true ↔ joins last first = false := by
  simp [admits, after]

/-- A text between two that it does not join is laid out as it is. -/
theorem Lays.single {p : Position} {t : Text} {first last : CodePoint} (hdepth : p.depth = 0)
    (hfirst : t.head? = some first) (hlast : t.getLast? = some last) (hadmits : p.admits first) :
    Lays p [t] (after last) := by
  have hindented : p.indented = p.begun := by simp [indented, hdepth]
  have hspacing : p.begun.spacing (.ok (.point first)) = .ok [] := by
    unfold spacing begun
    unfold admits at hadmits
    split at hadmits
    · next h => simp [h]
    · next last' h =>
      have hjoins : Source.joins last' first = false := by simpa using hadmits
      simp [h, Edge.joins, hjoins, bind, Except.bind, pure, Except.pure]
    · simp at hadmits
  have hwrite : p.write t = ⟨[⟨.text t, p.begun⟩], after last, none⟩ := by
    simp only [write, hfirst, hlast, put, hindented, hspacing]
    simp [indentation, begun, after, hdepth]
  have hrun : p.run [.text t] = ⟨[⟨.text t, p.begun⟩], after last, none⟩ := by
    simp [run, step, hwrite]
  constructor
  · rw [List.map_singleton, hrun]
  · rw [List.map_singleton, hrun]
    rfl
  · rw [List.map_singleton, hrun]

end Position

open Position

theorem deliver_texts (s : PrintSettings) (layout : Layout) (laid : List Laid) (texts : List Text)
    (h : laid.map Laid.chunk = texts.map .text) :
    deliver s layout laid = ⟨texts.flatten, layout.position, layout.failure⟩ := by
  induction laid generalizing texts with
  | nil =>
    obtain rfl : texts = [] := List.map_eq_nil_iff.mp h.symm
    rfl
  | cons first rest ih =>
    obtain ⟨t, texts', rfl, hfirst, hrest⟩ := List.map_eq_cons_iff.mp h.symm
    rw [deliver, ← hfirst]
    simp [PrintSettings.fragment, ih texts' hrest.symm]

/-- The source text of a tree whose texts are laid out as they are. -/
theorem toSource_eq_flatten {s : PrintSettings} {t : Tree} {texts : List Text} {q : Position}
    (hscript : script s.mode t = .ofPieces (texts.map .text)) (hlays : Lays {} texts q) :
    toSource s t = .ok texts.flatten := by
  have hprint : print {} s.mode t = { run {} (texts.map .text) with failure := none } := by
    simp [print, hscript, hlays.failure]
  have hdeliver := deliver_texts s (print {} s.mode t) (print {} s.mode t).laid texts
    (by rw [hprint]; exact hlays.chunks)
  rw [toSource, Position.deliver, hdeliver, hprint]

end ScriptTree.Source
