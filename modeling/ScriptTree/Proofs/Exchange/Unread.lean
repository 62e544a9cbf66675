import Mathlib.Logic.Relation
import ScriptTree.Proofs.Exchange.RoundTrip

/-!
Fields that are not read. The type of an object tells which of its fields are looked at.
Two values are alike if they differ only in the other fields, at any depth, and in the
order of fields. The reader takes both apart in step: each field it asks for is found in
both or in neither, with values that are alike, so that both are read as one tree or are
refused for one reason.
-/

namespace ScriptTree.Exchange

/-- What reads an object: the reader of nodes, or that of a regular expression literal. -/
inductive Looker where
  | node
  | regex
deriving DecidableEq

/-- The fields besides the type that are looked at in an object of a type. The value of
a literal is not, if the object has a regular expression. -/
def NodeType.fieldNames (nodeType : NodeType) (hasRegex : Bool) : List String :=
  match nodeType.kind? with
  | none => []
  | some .literal => if hasRegex then ["regex"] else ["regex", "value"]
  | some .unaryExpression => ["operator", "prefix", "argument"]
  | some k => (k.node fun _ => Tree.missing).entries.map Entry.name

namespace Looker

def fieldNames (fields : List (Text × Json)) : Looker → List String
  | .regex => ["pattern", "flags"]
  | .node => "type" ::
    match Json.lookup? fields "type" with
    | some (.text name) =>
      match NodeType.ofName? name with
      | some nodeType => nodeType.fieldNames (Json.lookup? fields "regex").isSome
      | none => []
    | _ => []

def within (name : String) : Looker := if name = "regex" then .regex else .node

end Looker

/-- Two values differ at most in fields that are not looked at and in the order of
fields. -/
inductive Alike : Looker → Json → Json → Prop
  | same {looker : Looker} (j : Json) : Alike looker j j
  | array {looker : Looker} {items items' : List Json}
      (each : List.Forall₂ (Alike .node) items items') :
      Alike looker (.array items) (.array items')
  | object {looker : Looker} {fields fields' : List (Text × Json)}
      (absent : ∀ name ∈ looker.fieldNames fields,
        (Json.lookup? fields name = none ↔ Json.lookup? fields' name = none))
      (present : ∀ name ∈ looker.fieldNames fields, ∀ part part',
        Json.lookup? fields name = some part → Json.lookup? fields' name = some part' →
        Alike (.within name) part part') :
      Alike looker (.object fields) (.object fields')

def Shared (looker : Looker) (j j' : Json) (name : String) : Prop :=
  Option.Rel (Alike looker) (j.field? name) (j'.field? name)

namespace Alike

variable {looker : Looker} {j j' : Json} {name : String}

theorem kind_eq (h : Alike looker j j') : j.kind = j'.kind := by
  cases h <;> rfl

theorem text_iff (h : Alike looker j j') {t : Text} : j = .text t ↔ j' = .text t := by
  cases h <;> simp

end Alike

section Shared

variable {looker : Looker} {j j' : Json} {name : String}

theorem shared_iff :
    Shared looker j j' name ↔ (j.field? name = none ↔ j'.field? name = none) ∧
      ∀ part part', j.field? name = some part → j'.field? name = some part' →
        Alike looker part part' := by
  unfold Shared
  cases j.field? name <;> cases j'.field? name <;> simp

theorem Shared.cases (h : Shared looker j j' name) :
    (j.field? name = none ∧ j'.field? name = none) ∨
      ∃ part part', j.field? name = some part ∧ j'.field? name = some part' ∧
        Alike looker part part' := by
  unfold Shared at h
  cases hpart : j.field? name <;> cases hpart' : j'.field? name <;> simp_all

theorem Shared.refl (looker : Looker) (j : Json) (name : String) : Shared looker j j name := by
  refine shared_iff.mpr ⟨Iff.rfl, fun part part' h h' => ?_⟩
  obtain rfl : part = part' := Option.some.inj (h.symm.trans h')
  exact .same part

end Shared

namespace Alike

variable {looker : Looker} {j j' : Json} {name : String} {fields fields' : List (Text × Json)}

/-- The fields that are looked at in an object are shared with one that is alike. -/
theorem shared_of_mem (h : Alike looker (.object fields) j')
    (hname : name ∈ looker.fieldNames fields) :
    Shared (.within name) (.object fields) j' name := by
  cases h with
  | same => exact .refl _ _ _
  | object absent present => exact shared_iff.mpr ⟨absent name hname, present name hname⟩

theorem shared_type (h : Alike .node j j') : Shared .node j j' "type" := by
  cases j with
  | object fields => exact h.shared_of_mem List.mem_cons_self
  | _ =>
    cases h with
    | _ => exact .none

theorem type_iff (h : Alike .node j j') {t : Text} :
    j.field? "type" = some (.text t) ↔ j'.field? "type" = some (.text t) := by
  have htype := h.shared_type
  unfold Shared at htype
  generalize j.field? "type" = a at htype
  generalize j'.field? "type" = b at htype
  cases htype with
  | none => exact Iff.rfl
  | some hpart => simpa using hpart.text_iff

/-- The fields that the type of an object calls for are shared with one that is alike. -/
theorem shared (h : Alike .node j j') (nodeType : NodeType)
    (htype : j.field? "type" = some (.text nodeType.name))
    (hname : name ∈ nodeType.fieldNames (j.field? "regex").isSome) :
    Shared (.within name) j j' name := by
  cases j with
  | object fields =>
    refine h.shared_of_mem (List.mem_cons_of_mem _ ?_)
    have hlookup : Json.lookup? fields "type" = some (.text nodeType.name) := htype
    rw [hlookup]
    simp only [ofName?_name]
    exact hname
  | _ => simp [Json.field?] at htype

/-- The pattern and the flags of a regular expression are shared with one that is alike. -/
theorem shared_of_regex (h : Alike .regex j j') (hname : name ∈ ["pattern", "flags"]) :
    Shared (.within name) j j' name := by
  cases j with
  | object fields => exact h.shared_of_mem hname
  | _ =>
    cases h with
    | _ => exact .none

theorem hasType_eq (h : Alike .node j j') (name : String) : hasType j name = hasType j' name := by
  have hiff := h.type_iff (t := Text.ofString name)
  have hchar (a : Json) : hasType a name = true ↔ a.field? "type" = some (.text name) := by
    unfold hasType
    split <;> simp_all
  exact Bool.eq_iff_iff.mpr ((hchar j).trans (hiff.trans (hchar j').symm))

end Alike

/-- Two computations agree: both fail for one reason, or both succeed with related values. -/
inductive Agree {ε α β : Type} (r : α → β → Prop) : Except ε α → Except ε β → Prop
  | ok {a : α} {b : β} (h : r a b) : Agree r (.ok a) (.ok b)
  | error (e : ε) : Agree r (.error e) (.error e)

namespace Agree

variable {ε α β γ δ : Type} {r : α → β → Prop} {s : γ → δ → Prop}

theorem bind {x : Except ε α} {y : Except ε β} {f : α → Except ε γ} {g : β → Except ε δ}
    (h : Agree r x y) (hstep : ∀ a b, r a b → Agree s (f a) (g b)) :
    Agree s (x >>= f) (y >>= g) := by
  cases h with
  | ok h => exact hstep _ _ h
  | error e => exact .error e

theorem of_eq {x y : Except ε α} (h : x = y) : Agree Eq x y := by
  subst h
  cases x with
  | ok a => exact .ok rfl
  | error e => exact .error e

theorem bind_eq {x : Except ε α} {y : Except ε β} {f : α → Except ε γ} {g : β → Except ε γ}
    (h : Agree r x y) (hstep : ∀ a b, r a b → f a = g b) : x >>= f = y >>= g := by
  cases h with
  | ok h => exact hstep _ _ h
  | error e => rfl

end Agree

section Fields

variable {looker : Looker} {j j' : Json} {owner field : String}

theorem require_eq_error {kinds : List Json.Kind}
    (h : ∀ part, j.field? field = some part → part.kind ∉ kinds) :
    require j owner field kinds = .error (.badField owner field kinds) := by
  unfold require
  split
  · next part hpart => rw [if_neg (h part hpart)]
  · rfl

theorem require_agree (owner : String) (h : Shared looker j j' field) (kinds : List Json.Kind) :
    Agree (fun p p' => Alike looker p.val p'.val)
      (require j owner field kinds) (require j' owner field kinds) := by
  rcases h.cases with ⟨hnone, hnone'⟩ | ⟨part, part', hpart, hpart', halike⟩
  · rw [require_eq_error (by simp [hnone]), require_eq_error (by simp [hnone'])]
    exact .error _
  · by_cases hkind : part.kind ∈ kinds
    · rw [require_eq hpart hkind, require_eq hpart' (halike.kind_eq ▸ hkind)]
      exact .ok halike
    · rw [require_eq_error (by simpa [hpart] using hkind),
        require_eq_error (by simpa [hpart', ← halike.kind_eq] using hkind)]
      exact .error _

theorem requireText_congr (h : Shared looker j j' field) :
    requireText j owner field = requireText j' owner field := by
  have hpart := require_agree owner h [.string]
  refine hpart.bind_eq ?_
  rintro ⟨part, hlt⟩ ⟨part', hlt'⟩ halike
  cases halike <;> rfl

theorem requireFlag_congr (h : Shared looker j j' field) :
    requireFlag j owner field = requireFlag j' owner field := by
  have hpart := require_agree owner h [.boolean]
  refine hpart.bind_eq ?_
  rintro ⟨part, hlt⟩ ⟨part', hlt'⟩ halike
  cases halike <;> rfl

/-- The elements of values that are alike are alike, one by one. -/
theorem partsOf_alike {p : Part j} {p' : Part j'} (h : Alike looker p.val p'.val) :
    List.Forall₂ (fun q q' => Alike .node q.val q'.val) (partsOf j p) (partsOf j' p') := by
  obtain ⟨part, hlt⟩ := p
  obtain ⟨part', hlt'⟩ := p'
  have hlists {items items' : List Json} (hlt : sizeOf (Json.array items) < sizeOf j)
      (hlt' : sizeOf (Json.array items') < sizeOf j')
      (heach : List.Forall₂ (Alike .node) items items') :
      List.Forall₂ (fun q q' => Alike .node q.val q'.val)
        (partsOf j ⟨.array items, hlt⟩) (partsOf j' ⟨.array items', hlt'⟩) := by
    rw [← map_partsOf hlt, ← map_partsOf hlt', List.forall₂_map_left_iff,
      List.forall₂_map_right_iff] at heach
    exact heach
  cases h with
  | same =>
    cases part with
    | array items => exact hlists hlt hlt' (List.forall₂_same.mpr fun item _ => .same item)
    | _ => exact .nil
  | array each => exact hlists hlt hlt' each
  | object => exact .nil

theorem blockStatements?_eq_none
    (h : ∀ block, j.field? field = some block →
      block.field? "type" = some (.text "BlockStatement") →
      ∀ items, block.field? "body" ≠ some (.array items)) : blockStatements? j field = none := by
  cases hparts : blockStatements? j field with
  | none => rfl
  | some parts =>
    obtain ⟨block, items, hblock, htype, hbody⟩ := exists_of_blockStatements? hparts
    exact (h block hblock htype items hbody).elim

/-- The statements of two blocks that are alike are alike, one by one. -/
theorem blockStatements?_alike (h : Shared .node j j' field) :
    Option.Rel (List.Forall₂ fun q q' => Alike .node q.val q'.val)
      (blockStatements? j field) (blockStatements? j' field) := by
  have hneither (hj : blockStatements? j field = none) (hj' : blockStatements? j' field = none) :
      Option.Rel (List.Forall₂ fun q q' => Alike .node q.val q'.val)
        (blockStatements? j field) (blockStatements? j' field) := by
    rw [hj, hj']
    exact .none
  rcases h.cases with ⟨hnone, hnone'⟩ | ⟨block, block', hblock, hblock', halike⟩
  · exact hneither (blockStatements?_eq_none (by simp [hnone]))
      (blockStatements?_eq_none (by simp [hnone']))
  by_cases htype : block.field? "type" = some (.text "BlockStatement")
  · have hbody : Shared (.within "body") block block' "body" :=
      halike.shared (.kind .blockStatement) htype (by
      simp [NodeType.fieldNames, NodeType.kind?, Kind.node, Node.entries])
    rcases hbody.cases with ⟨hnone, hnone'⟩ | ⟨body, body', hbody, hbody', hitems⟩
    · exact hneither (blockStatements?_eq_none (by simp [hblock, hnone]))
        (blockStatements?_eq_none (by simp [hblock', hnone']))
    by_cases harray : body.kind = .array
    · obtain ⟨items, rfl⟩ := kind_eq_array (List.mem_singleton.mpr harray)
      obtain ⟨items', rfl⟩ := kind_eq_array (List.mem_singleton.mpr (hitems.kind_eq ▸ harray))
      rw [blockStatements?_eq_some hblock htype hbody,
        blockStatements?_eq_some hblock' (halike.type_iff.mp htype) hbody']
      exact .some (partsOf_alike hitems)
    · have hnot (items : List Json) : body ≠ .array items := by
        rintro rfl
        exact harray rfl
      have hnot' (items : List Json) : body' ≠ .array items := by
        rintro rfl
        exact harray hitems.kind_eq
      exact hneither (blockStatements?_eq_none (by simp [hblock, hbody, hnot]))
        (blockStatements?_eq_none (by simp [hblock', hbody', hnot']))
  · exact hneither (blockStatements?_eq_none (by simp [hblock, htype]))
      (blockStatements?_eq_none (by simp [hblock', ← halike.type_iff, htype]))

end Fields

def ReadsAlike (j : Json) : Prop :=
  ∀ part part', sizeOf part < sizeOf j → Alike .node part part' →
    ∀ e, readAs e part = readAs e part'

def Branch.result {bound : Nat} (branch : Branch (Slot bound)) : Except ReadError Tree :=
  branch.read fun slot => readSlot slot

@[simp] theorem result_atom {bound : Nat} (a : Atom) :
    (Branch.atom a : Branch (Slot bound)).result = .ok (.atom a) :=
  read_atom a

@[simp] theorem result_member {bound : Nat} (m : Member) :
    (Branch.member m : Branch (Slot bound)).result = .ok (.ofMember m) :=
  read_member m

def results {bound : Nat} (shape : Node (Branch (Slot bound))) : Node (Except ReadError Tree) :=
  shape.map Branch.result

section Branches

variable {j j' : Json} {owner field : String}

def BranchesAgree (x : Except ReadError (Branch (Slot (sizeOf j))))
    (x' : Except ReadError (Branch (Slot (sizeOf j')))) : Prop :=
  Agree (fun b b' => b.result = b'.result) x x'

theorem readSlot_alike (ih : ReadsAlike j) {p : Part j} {p' : Part j'}
    (h : Alike .node p.val p'.val) (e : Expectation) :
    readSlot (.json p.val e p.property) = readSlot (.json p'.val e p'.property) := by
  rw [readSlot_json, readSlot_json]
  exact ih p.val p'.val p.property h e

theorem part_agree (ih : ReadsAlike j) (h : Shared .node j j' field) (owner : String)
    (kinds : List Json.Kind) (e : Expectation) :
    BranchesAgree (do
      let part ← require j owner field kinds
      return .one (.json part.val e part.property)) (do
      let part ← require j' owner field kinds
      return .one (.json part.val e part.property)) :=
  (require_agree owner h kinds).bind fun _ _ halike => .ok (readSlot_alike ih halike e)

theorem child_agree (ih : ReadsAlike j) (h : Shared .node j j' field) (category : Category) :
    BranchesAgree (requireChild j owner field category) (requireChild j' owner field category) :=
  part_agree ih h owner [.object] (.child owner field category)

theorem optional_agree (ih : ReadsAlike j) (h : Shared .node j j' field) (category : Category) :
    BranchesAgree (optionalChild j owner field category) (optionalChild j' owner field category) :=
  part_agree ih h owner [.object, .null] (.child owner field category)

def SlotsAlike (slots : List (Slot (sizeOf j))) (slots' : List (Slot (sizeOf j'))) : Prop :=
  List.Forall₂ (fun slot slot' => readSlot slot = readSlot slot') slots slots'

theorem elementsOf_alike (ih : ReadsAlike j) {parts : List (Part j)} {parts' : List (Part j')}
    (h : List.Forall₂ (fun q q' => Alike .node q.val q'.val) parts parts')
    (category : Category) (holes : Bool) :
    SlotsAlike (elementsOf j owner field category holes parts)
      (elementsOf j' owner field category holes parts') := by
  refine List.forall₂_map_left_iff.mpr
    (List.forall₂_map_right_iff.mpr (h.imp fun q q' halike => ?_))
  exact readSlot_alike ih halike _

theorem result_many {slots : List (Slot (sizeOf j))} {slots' : List (Slot (sizeOf j'))}
    (h : SlotsAlike slots slots') :
    (Branch.many slots).result = (Branch.many slots').result := by
  simp only [Branch.result, Branch.read, mapM_congr h]

theorem result_block {slots : List (Slot (sizeOf j))} {slots' : List (Slot (sizeOf j'))}
    (h : SlotsAlike slots slots') :
    (Branch.block slots).result = (Branch.block slots').result := by
  simp only [Branch.result, Branch.read, mapM_congr h]

theorem elements_agree (ih : ReadsAlike j) (h : Shared .node j j' field) (category : Category)
    (holes : Bool) :
    BranchesAgree (requireElements j owner field category holes)
      (requireElements j' owner field category holes) :=
  (require_agree owner h [.array]).bind fun _ _ halike =>
    .ok (result_many (elementsOf_alike ih (partsOf_alike halike) category holes))

theorem statements_agree (ih : ReadsAlike j) (h : Shared .node j j' field) :
    Agree SlotsAlike (requireStatements j owner field) (requireStatements j' owner field) := by
  have hparts := blockStatements?_alike h
  unfold requireStatements
  generalize blockStatements? j field = parts at hparts
  generalize blockStatements? j' field = parts' at hparts
  cases hparts with
  | none => exact .error _
  | some hparts => exact .ok (elementsOf_alike ih hparts .statement false)

theorem body_agree (ih : ReadsAlike j) (h : Shared .node j j' field) :
    BranchesAgree (do return .many (← requireStatements j owner field))
      (do return .many (← requireStatements j' owner field)) :=
  (statements_agree ih h).bind fun _ _ hslots => .ok (result_many hslots)

end Branches

section Layers

variable {j j' : Json}

def LayersAgree (x : Except ReadError (Layer j)) (x' : Except ReadError (Layer j')) : Prop :=
  Agree (fun shape shape' => results shape = results shape') x x'

variable {a b c : Except ReadError (Branch (Slot (sizeOf j)))}
  {a' b' c' : Except ReadError (Branch (Slot (sizeOf j')))}

/-- A node with one field. -/
theorem one_agree (make : (α : Type) → α → Node α)
    (hmake : ∀ {bound : Nat} (x : Branch (Slot bound)), results (make _ x) = make _ x.result)
    (ha : BranchesAgree a a') :
    LayersAgree (do return make _ (← a)) (do return make _ (← a')) :=
  ha.bind fun _ _ hx => .ok (by rw [hmake, hmake, hx])

/-- A node with two fields. -/
theorem two_agree (make : (α : Type) → α → α → Node α)
    (hmake : ∀ {bound : Nat} (x y : Branch (Slot bound)),
      results (make _ x y) = make _ x.result y.result)
    (ha : BranchesAgree a a') (hb : BranchesAgree b b') :
    LayersAgree (do let x ← a; return make _ x (← b)) (do let x ← a'; return make _ x (← b')) :=
  ha.bind fun _ _ hx => hb.bind fun _ _ hy => .ok (by rw [hmake, hmake, hx, hy])

/-- A node with three fields. -/
theorem three_agree (make : (α : Type) → α → α → α → Node α)
    (hmake : ∀ {bound : Nat} (x y z : Branch (Slot bound)),
      results (make _ x y z) = make _ x.result y.result z.result)
    (ha : BranchesAgree a a') (hb : BranchesAgree b b') (hc : BranchesAgree c c') :
    LayersAgree (do let x ← a; let y ← b; return make _ x y (← c))
      (do let x ← a'; let y ← b'; return make _ x y (← c')) :=
  ha.bind fun _ _ hx => hb.bind fun _ _ hy => hc.bind fun _ _ hz =>
    .ok (by rw [hmake, hmake, hx, hy, hz])

theorem result_sole (ih : ReadsAlike j) {p : Part j} {p' : Part j'}
    (h : Alike .node p.val p'.val) (e : Expectation) :
    (Branch.many [.json p.val e p.property]).result =
      (Branch.many [.json p'.val e p'.property]).result :=
  result_many (.cons (readSlot_alike ih h e) .nil)

theorem result_chosen (ih : ReadsAlike j) {p : Part j} {p' : Part j'}
    (h : Alike .node p.val p'.val) (e : Expectation) (name : String) :
    (Branch.either (chooseByType p.val name (.json p.val e p.property))).result =
      (Branch.either (chooseByType p'.val name (.json p'.val e p'.property))).result := by
  unfold chooseByType
  rw [h.hasType_eq name]
  split <;> simp only [Branch.result, Branch.read, Choice.traverse, readSlot_alike ih h e]

theorem chain_agree (ih : ReadsAlike j) (nodeType : String) (hleft : Shared .node j j' "left")
    (hoperator : Shared .node j j' "operator") (hright : Shared .node j j' "right") :
    LayersAgree (chainLayer j nodeType) (chainLayer j' nodeType) := by
  unfold LayersAgree chainLayer
  refine (child_agree ih hleft .expression).bind fun left left' hleft => ?_
  refine (Agree.of_eq (requireText_congr hoperator)).bind ?_
  rintro token _ rfl
  refine (require_agree nodeType hright [.object]).bind fun right right' hright => ?_
  cases BinaryOperator.ofExchange? nodeType token with
  | none => exact .error _
  | some op =>
    refine .ok ?_
    have hsole := result_sole ih hright (.child nodeType "right" .expression)
    simp only [results, Node.map, Node.mapFields, hleft, hsole, result_member]

theorem unary_agree (ih : ReadsAlike j) (nodeType : String)
    (hoperator : Shared .node j j' "operator") (hbefore : Shared .node j j' "prefix")
    (hargument : Shared .node j j' "argument") :
    LayersAgree (unaryLayer j nodeType) (unaryLayer j' nodeType) := by
  unfold LayersAgree unaryLayer
  refine (Agree.of_eq (requireText_congr hoperator)).bind ?_
  rintro token _ rfl
  refine (Agree.of_eq (requireFlag_congr hbefore)).bind ?_
  rintro before _ rfl
  refine (child_agree ih hargument .expression).bind fun argument argument' hargument => ?_
  cases UnaryOperator.ofExchange? nodeType token before with
  | none => exact .error _
  | some op =>
    refine .ok ?_
    simp only [results, Node.map, Node.mapFields, hargument, result_member]

theorem property_agree (ih : ReadsAlike j) (hkey : Shared .node j j' "key")
    (hvalue : Shared .node j j' "value") (hkind : Shared .node j j' "kind") :
    LayersAgree (propertyLayer j) (propertyLayer j') := by
  unfold LayersAgree propertyLayer
  refine (Agree.of_eq (requireText_congr hkind)).bind ?_
  rintro kind _ rfl
  refine (require_agree "Property" hkey [.object]).bind fun key key' hkey => ?_
  refine (child_agree ih hvalue .expression).bind fun value value' hvalue => ?_
  cases PropertyKind.ofKey? kind with
  | none => exact .error _
  | some kind =>
    refine .ok ?_
    have hchosen := result_chosen ih hkey .propertyKey "Literal"
    simp only [results, Node.map, Node.mapFields, hvalue, hchosen, result_member]

theorem declaration_agree (ih : ReadsAlike j) (hdeclarations : Shared .node j j' "declarations")
    (hkind : Shared .node j j' "kind") :
    LayersAgree (declarationLayer j) (declarationLayer j') := by
  unfold LayersAgree declarationLayer
  refine (Agree.of_eq (requireText_congr hkind)).bind ?_
  rintro kind _ rfl
  refine (elements_agree ih hdeclarations .variableDeclarator false).bind
    fun declarations declarations' hdeclarations => ?_
  cases VariableKind.ofKey? kind with
  | none => exact .error _
  | some kind =>
    refine .ok ?_
    simp only [results, Node.map, Node.mapFields, hdeclarations, result_member]

theorem for_agree (ih : ReadsAlike j) (hinit : Shared .node j j' "init")
    (htest : Shared .node j j' "test") (hupdate : Shared .node j j' "update")
    (hbody : Shared .node j j' "body") : LayersAgree (forLayer j) (forLayer j') := by
  unfold LayersAgree forLayer
  refine (require_agree "ForStatement" hinit [.object, .null]).bind fun init init' hinit => ?_
  refine (optional_agree ih htest .expression).bind fun test test' htest => ?_
  refine (optional_agree ih hupdate .expression).bind fun update update' hupdate => ?_
  refine (child_agree ih hbody .statement).bind fun body body' hbody => .ok ?_
  have hchosen := result_chosen ih hinit .forInit "VariableDeclaration"
  rw [hinit.kind_eq]
  split
  · simp only [results, Node.map, Node.mapFields, htest, hupdate, hbody]
    rfl
  · simp only [results, Node.map, Node.mapFields, htest, hupdate, hbody, hchosen]

theorem forIn_agree (ih : ReadsAlike j) (hleft : Shared .node j j' "left")
    (hright : Shared .node j j' "right") (hbody : Shared .node j j' "body") :
    LayersAgree (forInLayer j) (forInLayer j') := by
  unfold LayersAgree forInLayer
  refine (require_agree "ForInStatement" hleft [.object]).bind fun left left' hleft => ?_
  refine (child_agree ih hright .expression).bind fun right right' hright => ?_
  refine (child_agree ih hbody .statement).bind fun body body' hbody => .ok ?_
  have hchosen := result_chosen ih hleft .forInLeft "VariableDeclaration"
  simp only [results, Node.map, Node.mapFields, hright, hbody, hchosen]

theorem member_agree (ih : ReadsAlike j) (hobject : Shared .node j j' "object")
    (hproperty : Shared .node j j' "property") (hcomputed : Shared .node j j' "computed") :
    LayersAgree (kindLayer j .memberExpression) (kindLayer j' .memberExpression) := by
  unfold LayersAgree kindLayer
  refine (Agree.of_eq (requireFlag_congr hcomputed)).bind ?_
  rintro computed _ rfl
  refine (child_agree ih hobject .expression).bind fun object object' hobject => ?_
  refine (require_agree "MemberExpression" hproperty [.object]).bind
    fun index index' hindex => .ok ?_
  have hsole := result_sole ih hindex (.child "MemberExpression" "property" .expression)
  simp only [results, Node.map, Node.mapFields, hobject, hsole, result_atom]

theorem name_agree (hname : Shared .node j j' "name") :
    LayersAgree (kindLayer j .identifier) (kindLayer j' .identifier) := by
  unfold LayersAgree kindLayer
  refine (Agree.of_eq (requireText_congr hname)).bind ?_
  rintro name _ rfl
  exact .ok (by simp only [results, Node.map, Node.mapFields, result_atom])

theorem literal_agree (hregex : Shared .regex j j' "regex")
    (hvalue : j.field? "regex" = none → Shared .node j j' "value") :
    LayersAgree (literalLayer j) (literalLayer j') := by
  unfold LayersAgree literalLayer
  rcases hregex.cases with ⟨hnone, hnone'⟩ | ⟨regex, regex', hsome, hsome', -⟩
  · simp only [hnone, hnone']
    refine (require_agree "Literal" (hvalue hnone) _).bind fun value value' halike => .ok ?_
    have hscalar : scalarOf value.val = scalarOf value'.val := by
      generalize value.val = v at halike
      generalize value'.val = v' at halike
      cases halike <;> rfl
    simp only [results, Node.map, Node.mapFields, Branch.result, Branch.read, readSlot, hscalar]
  · simp only [hsome, hsome']
    refine (require_agree "Literal" hregex [.object]).bind fun regex regex' halike => ?_
    refine (Agree.of_eq (requireText_congr (halike.shared_of_regex (by simp)))).bind ?_
    rintro pattern _ rfl
    refine (Agree.of_eq (requireText_congr (halike.shared_of_regex (by simp)))).bind ?_
    rintro letters _ rfl
    cases RegexFlags.ofText letters with
    | error letter => exact .error _
    | ok flags =>
      refine .ok ?_
      simp only [results, Node.map, Node.mapFields, Branch.result, Branch.read, readSlot]

theorem final_agree (ih : ReadsAlike j) (hfinalizer : Shared .node j j' "finalizer")
    {p : Part j} {p' : Part j'} (h : Alike .node p.val p'.val) :
    Agree SlotsAlike (finalStatements j p) (finalStatements j' p') := by
  unfold finalStatements
  rw [h.kind_eq]
  split
  · exact .ok .nil
  · exact statements_agree ih hfinalizer

theorem try_agree (ih : ReadsAlike j) (hblock : Shared .node j j' "block")
    (hhandler : Shared .node j j' "handler") (hfinalizer : Shared .node j j' "finalizer") :
    LayersAgree (tryLayer j) (tryLayer j') := by
  rw [LayersAgree, tryLayer_eq, tryLayer_eq]
  refine (statements_agree ih hblock).bind fun block block' hblock => ?_
  refine (require_agree "TryStatement" hhandler [.object, .null]).bind
    fun handler handler' hhandler => ?_
  refine (require_agree "TryStatement" hfinalizer [.object, .null]).bind
    fun finalizer finalizer' hfinal => ?_
  refine (final_agree ih hfinalizer hfinal).bind fun statements statements' hstatements => ?_
  have hempty : statements.isEmpty = statements'.isEmpty := by
    cases hstatements <;> rfl
  rw [hhandler.kind_eq, hempty]
  split
  · exact .error _
  · refine .ok ?_
    have hread : readSlot (.json handler.val _ handler.property) = _ :=
      readSlot_alike ih hhandler (.child "TryStatement" "handler" .catchClause)
    simp only [results, Node.map, Node.mapFields, result_block hblock, result_block hstatements]
    simp only [Branch.result, Branch.read, hread]

/-- The layers of two objects of a kind are read alike if the fields that the kind calls
for are shared. -/
theorem kindLayer_agree (ih : ReadsAlike j) (k : Kind)
    (h : ∀ name ∈ (NodeType.kind k).fieldNames (j.field? "regex").isSome,
      Shared (.within name) j j' name) : LayersAgree (kindLayer j k) (kindLayer j' k) := by
  by_cases hliteral : k = .literal
  · subst hliteral
    refine literal_agree (h "regex" ?_) fun hnone => h "value" ?_
    · simp only [NodeType.fieldNames, NodeType.kind?]
      split <;> simp
    · simp [NodeType.fieldNames, NodeType.kind?, hnone]
  cases k <;>
    simp [NodeType.fieldNames, NodeType.kind?, Kind.node, Node.entries, Looker.within] at h
  case literal => exact absurd rfl hliteral
  case identifier => exact name_agree h
  case memberExpression => exact member_agree ih h.1 h.2.1 h.2.2
  case unaryExpression => exact unary_agree ih _ h.1 h.2.1 h.2.2
  case binaryExpression => exact chain_agree ih _ h.2.1 h.1 h.2.2
  case property => exact property_agree ih h.1 h.2.1 h.2.2
  case forStatement => exact for_agree ih h.1 h.2.1 h.2.2.1 h.2.2.2
  case forInStatement => exact forIn_agree ih h.1 h.2.1 h.2.2
  case tryStatement => exact try_agree ih h.1 h.2.1 h.2.2
  case variableDeclaration => exact declaration_agree ih h.1 h.2
  case thisExpression | debuggerStatement => exact .ok rfl
  -- The others ask for each of their fields in turn.
  case program => exact one_agree (fun _ => .program) (fun _ => rfl) (elements_agree ih h _ _)
  case arrayExpression =>
    exact one_agree (fun _ => .arrayExpression) (fun _ => rfl) (elements_agree ih h _ _)
  case objectExpression =>
    exact one_agree (fun _ => .objectExpression) (fun _ => rfl) (elements_agree ih h _ _)
  case sequenceExpression =>
    exact one_agree (fun _ => .sequenceExpression) (fun _ => rfl) (elements_agree ih h _ _)
  case blockStatement =>
    exact one_agree (fun _ => .blockStatement) (fun _ => rfl) (elements_agree ih h _ _)
  case expressionStatement =>
    exact one_agree (fun _ => .expressionStatement) (fun _ => rfl) (child_agree ih h _)
  case throwStatement =>
    exact one_agree (fun _ => .throwStatement) (fun _ => rfl) (child_agree ih h _)
  case returnStatement =>
    exact one_agree (fun _ => .returnStatement) (fun _ => rfl) (optional_agree ih h _)
  case breakStatement =>
    exact one_agree (fun _ => .breakStatement) (fun _ => rfl) (optional_agree ih h _)
  case continueStatement =>
    exact one_agree (fun _ => .continueStatement) (fun _ => rfl) (optional_agree ih h _)
  case callExpression =>
    exact two_agree (fun _ => .callExpression) (fun _ _ => rfl) (child_agree ih h.1 _)
      (elements_agree ih h.2 _ _)
  case newExpression =>
    exact two_agree (fun _ => .newExpression) (fun _ _ => rfl) (child_agree ih h.1 _)
      (elements_agree ih h.2 _ _)
  case switchStatement =>
    exact two_agree (fun _ => .switchStatement) (fun _ _ => rfl) (child_agree ih h.1 _)
      (elements_agree ih h.2 _ _)
  case switchCase =>
    exact two_agree (fun _ => .switchCase) (fun _ _ => rfl) (optional_agree ih h.1 _)
      (elements_agree ih h.2 _ _)
  case withStatement =>
    exact two_agree (fun _ => .withStatement) (fun _ _ => rfl) (child_agree ih h.1 _)
      (child_agree ih h.2 _)
  case labeledStatement =>
    exact two_agree (fun _ => .labeledStatement) (fun _ _ => rfl) (child_agree ih h.1 _)
      (child_agree ih h.2 _)
  case whileStatement =>
    exact two_agree (fun _ => .whileStatement) (fun _ _ => rfl) (child_agree ih h.1 _)
      (child_agree ih h.2 _)
  case doWhileStatement =>
    exact two_agree (fun _ => .doWhileStatement) (fun _ _ => rfl) (child_agree ih h.1 _)
      (child_agree ih h.2 _)
  case catchClause =>
    simpa only [kindLayer, bind_assoc, pure_bind] using
      two_agree (fun _ => .catchClause) (fun _ _ => rfl) (child_agree ih h.1 _)
        (body_agree ih h.2)
  case variableDeclarator =>
    exact two_agree (fun _ => .variableDeclarator) (fun _ _ => rfl) (child_agree ih h.1 _)
      (optional_agree ih h.2 _)
  case conditionalExpression =>
    exact three_agree (fun _ => .conditionalExpression) (fun _ _ _ => rfl)
      (child_agree ih h.1 _) (child_agree ih h.2.1 _) (child_agree ih h.2.2 _)
  case ifStatement =>
    exact three_agree (fun _ => .ifStatement) (fun _ _ _ => rfl)
      (child_agree ih h.1 _) (child_agree ih h.2.1 _) (optional_agree ih h.2.2 _)
  case functionExpression =>
    simpa only [kindLayer, bind_assoc, pure_bind] using
      three_agree (fun _ => .functionExpression) (fun _ _ _ => rfl)
        (optional_agree ih h.1 _) (elements_agree ih h.2.1 _ _) (body_agree ih h.2.2)
  case functionDeclaration =>
    simpa only [kindLayer, bind_assoc, pure_bind] using
      three_agree (fun _ => .functionDeclaration) (fun _ _ _ => rfl)
        (child_agree ih h.1 _) (elements_agree ih h.2.1 _ _) (body_agree ih h.2.2)

/-- The same for the layers of two objects of a type. -/
theorem typeLayer_agree (ih : ReadsAlike j) (nodeType : NodeType)
    (h : ∀ name ∈ nodeType.fieldNames (j.field? "regex").isSome,
      Shared (.within name) j j' name) :
    Agree (fun shape shape' => shape.map results = shape'.map results)
      (typeLayer j nodeType) (typeLayer j' nodeType) := by
  have hsome {x : Except ReadError (Layer j)} {x' : Except ReadError (Layer j')}
      (hx : LayersAgree x x') :
      Agree (fun shape shape' => shape.map results = shape'.map results)
        (do return some (← x)) (do return some (← x')) :=
    hx.bind fun _ _ hshape => .ok (by rw [Option.map_some, Option.map_some, hshape])
  cases nodeType with
  | kind k => exact hsome (kindLayer_agree ih k h)
  | assignmentExpression =>
    simp [NodeType.fieldNames, NodeType.kind?, Kind.node, Node.entries, Looker.within] at h
    exact hsome (chain_agree ih _ h.2.1 h.1 h.2.2)
  | logicalExpression =>
    simp [NodeType.fieldNames, NodeType.kind?, Kind.node, Node.entries, Looker.within] at h
    exact hsome (chain_agree ih _ h.2.1 h.1 h.2.2)
  | updateExpression =>
    simp [NodeType.fieldNames, NodeType.kind?, Looker.within] at h
    exact hsome (unary_agree ih _ h.1 h.2.1 h.2.2)
  | emptyStatement => exact .ok rfl

theorem layer_object (hobject : j.kind = .object) :
    layer j = match j.field? "type" with
      | some (.text name) =>
        match NodeType.ofName? name with
        | some nodeType => typeLayer j nodeType
        | none => .error (.unknownType name)
      | _ => .error .noType := by
  cases j with
  | object fields => rfl
  | _ => cases hobject

/-- The layers of two values that are alike are read alike. -/
theorem layer_agree (ih : ReadsAlike j) (h : Alike .node j j') :
    Agree (fun shape shape' => shape.map results = shape'.map results) (layer j) (layer j') := by
  by_cases hobject : j.kind = .object
  · rw [layer_object hobject, layer_object (h.kind_eq ▸ hobject)]
    rcases h.shared_type.cases with ⟨hnone, hnone'⟩ | ⟨value, value', hsome, hsome', halike⟩
    · rw [hnone, hnone']
      exact .error _
    rw [hsome, hsome']
    cases halike with
    | same =>
      cases value with
      | text name =>
        cases hname : NodeType.ofName? name with
        | none =>
          simp only [hname]
          exact .error _
        | some nodeType =>
          simp only [hname]
          rw [name_of_ofName? hname] at hsome
          exact typeLayer_agree ih nodeType fun name => h.shared nodeType hsome
      | _ => exact .error _
    | _ => exact .error _
  · cases h with
    | same =>
      cases j with
      | null => exact .ok rfl
      | object => exact absurd rfl hobject
      | _ => exact .error _
    | array => exact .error _
    | object => exact absurd rfl hobject

end Layers

/-- The branches of a node are read in the order of its fields. -/
theorem traverse_results {bound : Nat} (shape : Node (Branch (Slot bound))) :
    (shape.traverse fun branch => branch.read fun slot => readSlot slot) =
      (results shape).traverse id := by
  cases shape <;> rfl

/-- Values that are alike are read alike, if their parts are. -/
theorem readAs_alike_of_parts {j j' : Json} (ih : ReadsAlike j) (h : Alike .node j j')
    (e : Expectation) : readAs e j = readAs e j' := by
  have hcheck (k : Option ScriptTree.Kind) : e.check j k = e.check j' k := check_congr e k h.kind_eq
  rw [readAs, readAs, readSlot, readSlot]
  refine (layer_agree ih h).bind_eq fun shape shape' hshape => ?_
  cases shape with
  | none =>
    cases shape' with
    | none => simp only [hcheck]
    | some shape' => simp at hshape
  | some shape =>
    cases shape' with
    | none => simp at hshape
    | some shape' =>
      have hresults : results shape = results shape' := by simpa using hshape
      simp only [traverse_results, hresults, hcheck]

theorem readAs_alike {j j' : Json} (h : Alike .node j j') (e : Expectation) :
    readAs e j = readAs e j' := by
  refine readAs_alike_of_parts (fun part part' hlt hpart e => ?_) h e
  exact readAs_alike hpart e
termination_by sizeOf j

section Edits

variable {looker : Looker} {fields fields' : List (Text × Json)}

def Unread (looker : Looker) (fields : List (Text × Json)) (name : Text) : Prop :=
  ∀ read ∈ looker.fieldNames fields, Text.ofString read ≠ name

instance (looker : Looker) (fields : List (Text × Json)) (name : Text) :
    Decidable (Unread looker fields name) :=
  inferInstanceAs (Decidable (∀ read ∈ looker.fieldNames fields, Text.ofString read ≠ name))

/-- One change of a value that the reader cannot notice: a field that is not looked at is
set or removed, or the fields of an object are reordered, in the value or within it. -/
inductive Edit : Looker → Json → Json → Prop
  | set {looker : Looker} {fields : List (Text × Json)} {name : Text} (value : Json)
      (unread : Unread looker fields name) :
      Edit looker (.object fields) (.object (Json.insert fields name value))
  | remove {looker : Looker} {fields : List (Text × Json)} {name : Text}
      (unread : Unread looker fields name) :
      Edit looker (.object fields) (.object (fields.filter fun field => field.1 ≠ name))
  | reorder {looker : Looker} {fields fields' : List (Text × Json)}
      (once : (fields.map Prod.fst).Nodup) (order : fields.Perm fields') :
      Edit looker (.object fields) (.object fields')
  | field {looker : Looker} {fields : List (Text × Json)} {name : String} {value value' : Json}
      (found : Json.lookup? fields name = some value) (edit : Edit (.within name) value value') :
      Edit looker (.object fields) (.object (Json.insert fields name value'))
  | item {looker : Looker} {before after : List Json} {value value' : Json}
      (edit : Edit .node value value') :
      Edit looker (.array (before ++ value :: after)) (.array (before ++ value' :: after))

theorem lookup?_insert (fields : List (Text × Json)) (name other : Text) (value : Json) :
    Json.lookup? (Json.insert fields name value) other =
      if name = other then some value else Json.lookup? fields other := by
  induction fields with
  | nil => simp [Json.insert, Json.lookup?]
  | cons field fields ih =>
    obtain ⟨key, old⟩ := field
    by_cases hkey : key = name
    · subst hkey
      by_cases hother : key = other <;> simp [Json.insert, Json.lookup?, hother]
    · by_cases hother : key = other
      · subst hother
        simp [Json.insert, Json.lookup?, hkey, Ne.symm hkey]
      · simp [Json.insert, Json.lookup?, hkey, hother, ih]

theorem lookup?_filter {name other : Text} (h : other ≠ name) (fields : List (Text × Json)) :
    Json.lookup? (fields.filter fun field => field.1 ≠ name) other =
      Json.lookup? fields other := by
  induction fields with
  | nil => rfl
  | cons field fields ih =>
    obtain ⟨key, old⟩ := field
    by_cases hkey : key = name
    · subst hkey
      simpa [Json.lookup?, Ne.symm h] using ih
    · by_cases hother : key = other <;> simp_all [Json.lookup?]

theorem lookup?_eq_some_iff (h : (fields.map Prod.fst).Nodup) {name : Text} {value : Json} :
    Json.lookup? fields name = some value ↔ (name, value) ∈ fields := by
  induction fields with
  | nil => simp [Json.lookup?]
  | cons field fields ih =>
    obtain ⟨key, old⟩ := field
    obtain ⟨hkey, hrest⟩ := List.nodup_cons.mp h
    rw [Json.lookup?, List.mem_cons, Prod.mk.injEq]
    split
    · next hname =>
      subst hname
      have hother : (key, value) ∉ fields := fun hmem =>
        hkey (List.mem_map.mpr ⟨_, hmem, rfl⟩)
      simp [hother, eq_comm]
    · next hname => simp [ih hrest, Ne.symm hname]

theorem lookup?_perm (honce : (fields.map Prod.fst).Nodup) (horder : fields.Perm fields')
    (name : Text) : Json.lookup? fields name = Json.lookup? fields' name := by
  have honce' : (fields'.map Prod.fst).Nodup := (horder.map Prod.fst).nodup_iff.mp honce
  refine Option.ext fun value => ?_
  rw [lookup?_eq_some_iff honce, lookup?_eq_some_iff honce', horder.mem_iff]

/-- Objects are alike if they have the same values in the fields that are looked at. -/
theorem alike_of_lookup
    (h : ∀ name ∈ looker.fieldNames fields, Json.lookup? fields name = Json.lookup? fields' name) :
    Alike looker (.object fields) (.object fields') := by
  refine .object (fun name hname => by rw [h name hname])
    fun name hname part part' hpart hpart' => ?_
  rw [← h name hname, hpart] at hpart'
  obtain rfl := Option.some.inj hpart'
  exact .same part

theorem Edit.alike {j j' : Json} (h : Edit looker j j') : Alike looker j j' := by
  induction h with
  | set value unread =>
    refine alike_of_lookup fun name hname => ?_
    rw [lookup?_insert, if_neg (unread name hname).symm]
  | remove unread =>
    refine alike_of_lookup fun name hname => ?_
    rw [lookup?_filter (unread name hname)]
  | reorder once order => exact alike_of_lookup fun name _ => lookup?_perm once order name
  | field found edit ih =>
    refine .object (fun other hother => ?_) fun other hother part part' hpart hpart' => ?_
    · rw [lookup?_insert]
      split
      · next h => simp [← h, found]
      · rfl
    · rw [lookup?_insert] at hpart'
      split at hpart'
      · next h =>
        obtain rfl := Text.ofString_inj.mp h
        obtain rfl := Option.some.inj (found.symm.trans hpart)
        obtain rfl := Option.some.inj hpart'
        exact ih
      · obtain rfl := Option.some.inj (hpart.symm.trans hpart')
        exact .same part
  | item edit ih =>
    exact .array (List.rel_append (List.forall₂_same.mpr fun value _ => .same value)
      (.cons ih (List.forall₂_same.mpr fun value _ => .same value)))

end Edits

/-- Whatever is changed in fields that are not looked at, at any depth, and in the order of
fields makes no difference to what is read, nor to why a value is refused. -/
theorem read_eq_of_edits (j j' : Json) (h : Relation.ReflTransGen (Edit .node) j j') :
    read j = read j' := by
  induction h with
  | refl => rfl
  | tail _ hedit ih => exact ih.trans (readAs_alike hedit.alike .anything)

def matcherFields (more : List (Text × Json)) : List (Text × Json) :=
  ("type", "Literal") :: ("regex", .object [("pattern", "a"), ("flags", "g")]) :: more

def matcher (more : List (Text × Json)) : Json :=
  .object [("type", "ExpressionStatement"), ("expression", .object (matcherFields more))]

/-- Beside a regular expression the value of a literal is not looked at, nor is an offset
in any object. -/
theorem read_eq_of_edits_matcher :
    Relation.ReflTransGen (Edit .node) (matcher []) (.object [("start", .int 0),
      ("expression", .object (matcherFields [("value", "b")])), ("type", "ExpressionStatement")]) ∧
    read (matcher []) = read (.object [("start", .int 0),
      ("expression", .object (matcherFields [("value", "b")])),
      ("type", "ExpressionStatement")]) := by
  have hvalue : Unread .node (matcherFields []) "value" := by decide
  have hstart : Unread .node [("type", "ExpressionStatement"),
      ("expression", .object (matcherFields [("value", "b")]))] "start" := by decide
  have hfound : Json.lookup? [("type", "ExpressionStatement"),
      ("expression", .object (matcherFields []))] (Text.ofString "expression") =
        some (.object (matcherFields [])) := rfl
  have hedits : Relation.ReflTransGen (Edit .node) (matcher []) (.object [("start", .int 0),
      ("expression", .object (matcherFields [("value", "b")])),
      ("type", "ExpressionStatement")]) :=
    .tail (.tail (.single (.field hfound (.set "b" hvalue))) (.set (.int 0) hstart))
      (.reorder (by decide) (List.reverse_perm _).symm)
  exact ⟨hedits, read_eq_of_edits _ _ hedits⟩

end ScriptTree.Exchange
