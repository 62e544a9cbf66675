import ScriptTree.Exchange.Reader
import ScriptTree.Operator
import ScriptTree.Proofs.Text
import Mathlib.Data.List.Basic

/-!
Reading an object whose fields are known. Each step of taking an object apart has one
lemma that says what it finds when the fields it asks for are there, an operator is found
by its token and its type, and `readAs` is reading a value of which something is expected,
free of the bound on its size.
-/

namespace ScriptTree

/-- Among keys that are all different a member is found by its own. -/
theorem find?_key {α : Type} {key : α → String} {all : List α} (hkeys : (all.map key).Nodup)
    {a : α} (ha : a ∈ all) :
    (all.find? fun b => Text.ofString (key b) == Text.ofString (key a)) = some a := by
  induction all with
  | nil => cases ha
  | cons b rest ih =>
    obtain ⟨hb, hrest⟩ := List.nodup_cons.mp hkeys
    rcases List.mem_cons.mp ha with rfl | ha
    · exact List.find?_cons_of_pos (by simp)
    · have hother : key b ≠ key a := fun h => hb (h ▸ List.mem_map_of_mem ha)
      rw [List.find?_cons_of_neg (by simpa using hother)]
      exact ih hrest ha

theorem BinaryOperator.ofToken?_token (op : BinaryOperator) : ofToken? op.token = some op :=
  find?_key (by simp [all, token]) (by cases op <;> decide)

theorem UnaryOperator.ofKey?_key (op : UnaryOperator) : ofKey? op.key = some op :=
  find?_key (by simp [all, key]) (by cases op <;> decide)

theorem PropertyKind.ofKey?_key (kind : PropertyKind) : ofKey? kind.key = some kind :=
  find?_key (by simp [all, key]) (by cases kind <;> decide)

theorem VariableKind.ofKey?_key (kind : VariableKind) : ofKey? kind.key = some kind := by
  cases kind
  exact if_pos rfl

namespace Exchange

section Equations

-- The equations of the reader are derived here, once for all the proofs.
attribute [local simp] Json.kind Kind.typeName Kind.node Tree.view Expectation.check kindLayer
  Branch.read readSlot

end Equations

theorem ofName?_name (nodeType : NodeType) : NodeType.ofName? nodeType.name = some nodeType := by
  refine find?_key (by simp [NodeType.all, Kind.all, NodeType.name, Kind.typeName]) ?_
  cases nodeType with
  | kind k => cases k <;> decide
  | _ => decide

theorem ofName?_typeName (k : Kind) : NodeType.ofName? k.typeName = some (.kind k) :=
  ofName?_name (.kind k)

theorem ofExchange?_token (op : BinaryOperator) :
    BinaryOperator.ofExchange? op.nodeType op.token = some op := by
  cases op <;> decide

section Fields

variable {j part : Json} {owner field : String}

theorem kind_of_field? {name : Text} (h : j.field? name = some part) : j.kind = .object := by
  cases j with
  | object fields => rfl
  | _ => simp [Json.field?] at h

theorem require_eq {kinds : List Json.Kind} (h : j.field? field = some part)
    (hkind : part.kind ∈ kinds) :
    require j owner field kinds = .ok ⟨part, Json.sizeOf_field?_lt h⟩ := by
  unfold require
  split
  · next part' h' =>
    obtain rfl : part' = part := Option.some.inj (h'.symm.trans h)
    rw [if_pos hkind]
  · next h' => simp [h] at h'

theorem requireText_eq {t : Text} (h : j.field? field = some (.text t)) :
    requireText j owner field = .ok t := by
  have hpart : require j owner field [.string] = .ok ⟨.text t, Json.sizeOf_field?_lt h⟩ :=
    require_eq h (by simp [Json.kind])
  simp [requireText, hpart, bind, Except.bind]

theorem requireFlag_eq {b : Bool} (h : j.field? field = some (.bool b)) :
    requireFlag j owner field = .ok b := by
  have hpart : require j owner field [.boolean] = .ok ⟨.bool b, Json.sizeOf_field?_lt h⟩ :=
    require_eq h (by simp [Json.kind])
  simp [requireFlag, hpart, bind, Except.bind]

theorem requireChild_eq {category : Category} (h : j.field? field = some part)
    (hkind : part.kind = .object) :
    requireChild j owner field category =
      .ok (.one (.json part (.child owner field category) (Json.sizeOf_field?_lt h))) := by
  simp [requireChild, require_eq h (List.mem_singleton.mpr hkind), bind, Except.bind, pure,
    Except.pure]

end Fields

/-- The layer of an object is found by its type. -/
theorem layer_eq {j : Json} {name : Text} {nodeType : NodeType}
    (htype : j.field? "type" = some (.text name)) (hname : NodeType.ofName? name = some nodeType) :
    layer j = typeLayer j nodeType := by
  cases j with
  | object fields =>
    have hlookup : Json.lookup? fields "type" = some (.text name) := htype
    simp [layer, hlookup, hname]
  | _ => simp [Json.field?] at htype

def readAs (e : Expectation) (j : Json) : Except ReadError Tree :=
  readSlot (.json j e (Nat.lt_succ_self (sizeOf j)))

theorem read_eq_readAs (j : Json) : read j = readAs .anything j := rfl

/-- Neither the bound on the size nor the proof of it matters to what is read. -/
theorem readSlot_json {bound : Nat} (j : Json) (e : Expectation) (h : sizeOf j < bound) :
    readSlot (.json j e h) = readAs e j := by
  rw [readAs, readSlot, readSlot]

theorem readAs_eq {e : Expectation} {j : Json} {shape : Layer j} {n : Node Tree}
    (hlayer : layer j = .ok (some shape))
    (hread : (shape.traverse fun branch => branch.read fun slot => readSlot slot) = .ok n)
    (hcheck : e.check j n.kind? = .ok ()) : readAs e j = .ok (.node n.spliced) := by
  rw [readAs, readSlot]
  simp [hlayer, hread, hcheck, bind, Except.bind, pure, Except.pure]

end Exchange

end ScriptTree
