import ScriptTree.Source.Printer
import Mathlib.Data.List.Basic

/-!
Scripts put together. A script that ends without a failure is its pieces, and two such
scripts after one another are their pieces after one another. The script of a node is put
together from those of its fields.
-/

namespace ScriptTree.Source.Script

section Equations

-- The equations of the printer are derived here, once for all the proofs.
attribute [local simp] nodeScript bodyScript elseScript headDeclaration accessorScript
  soleExpression takesElse opensLikeStatement literal

end Equations

def ofPieces (pieces : List Piece) : Script := ⟨pieces, none⟩

@[simp] theorem ofPieces_append (a b : List Piece) :
    ofPieces a ++ ofPieces b = ofPieces (a ++ b) := rfl

@[simp] theorem empty_eq : empty = ofPieces [] := rfl

@[simp] theorem write_eq (t : Text) : write t = ofPieces [.text t] := rfl

@[simp] theorem newline_eq : newline = ofPieces [.lineBreak] := rfl

@[simp] theorem deeper_eq : deeper = ofPieces [.deeper] := rfl

@[simp] theorem shallower_eq : shallower = ofPieces [.shallower] := rfl

@[simp] theorem line_eq (t : Text) : line t = ofPieces [.text t, .lineBreak] := rfl

@[simp] theorem given_ok {α : Type} (a : α) (s : α → Script) : given (.ok a) s = s a := rfl

@[simp] theorem ofPieces_pieces (pieces : List Piece) : (ofPieces pieces).pieces = pieces := rfl

@[simp] theorem ofPieces_failure (pieces : List Piece) : (ofPieces pieces).failure = none := rfl

/-- Nothing follows a failure, and what comes before one is kept. -/
theorem append_failure (a b : Script) : (a ++ b).failure = (a.failure <|> b.failure) := by
  obtain ⟨pieces, failure⟩ := a
  cases failure <;> rfl

theorem append_assoc (a b c : Script) : a ++ b ++ c = a ++ (b ++ c) := by
  obtain ⟨pieces, failure⟩ := a
  obtain ⟨pieces', failure'⟩ := b
  cases failure with
  | some e => rfl
  | none =>
    cases failure' with
    | some e => rfl
    | none => exact congrArg (Script.mk · c.failure) (List.append_assoc pieces pieces' c.pieces)

theorem empty_append (a : Script) : empty ++ a = a := rfl

theorem append_empty (s : Script) : s ++ empty = s := by
  obtain ⟨pieces, failure⟩ := s
  cases failure with
  | none => exact congrArg (Script.mk · none) (List.append_nil pieces)
  | some e => rfl

theorem enclosedIf_false (s : Script) : enclosedIf false s = s := rfl

end ScriptTree.Source.Script

namespace ScriptTree.Source

open Script

/-- The token of an operator stands before its operand or after it. -/
theorem nodeScript_unary (m : Mode) (op : UnaryOperator) (argument : Tree) :
    nodeScript m (.unaryExpression (.ofMember (.unaryOperator op)) argument) =
      if op.isBefore then
        write (if op.isKeyword then Text.join [op.token, " "] else op.token) ++
          enclosedIf (Place.operand.refuses argument)
            (scriptOr m (absent "UnaryExpression" "argument") argument)
      else
        enclosedIf (Place.operand.refuses argument)
          (scriptOr m (absent "UnaryExpression" "argument") argument) ++ write op.token := by
  rw [Tree.ofMember, nodeScript]

end ScriptTree.Source
