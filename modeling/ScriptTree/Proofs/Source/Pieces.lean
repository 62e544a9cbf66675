import ScriptTree.Proofs.Lexical.Literals
import ScriptTree.Proofs.Source.Printed

/-!
What scripts are made of. Some pieces of a script are fixed: texts of ASCII and, pretty, ends of
lines and changes of depth. The others the tree makes its own: names, literals, operators and
the words of kinds. A property that both have is had by every piece of the script, and a script
that does not fail comes up as many levels as it goes down. This holds of every tree, so the
induction follows the printer and not the classes of slots.
-/

namespace ScriptTree

def Node.label? : Node Tree → Option Tree
  | .functionExpression id _ _ => some id
  | .breakStatement label | .continueStatement label => some label
  | _ => none

def Node.kindField? : Node Tree → Option Tree
  | .property _ _ kind | .variableDeclaration _ kind => some kind
  | _ => none

theorem within_label {n : Node Tree} {t : Tree} (h : n.label? = some t) : Within t (.node n) := by
  unfold Node.label? at h
  split at h
  · obtain rfl := Option.some.inj h
    exact .field (f := .id) (by simp [Node.fields]) .refl
  · obtain rfl := Option.some.inj h
    exact .field (f := .label) (by simp [Node.fields]) .refl
  · obtain rfl := Option.some.inj h
    exact .field (f := .label) (by simp [Node.fields]) .refl
  · cases h

namespace Source

open Script Lexical

/-! ### Depth -/

def depthAfter (depth : Nat) : List Piece → Nat
  | [] => depth
  | .deeper :: rest => depthAfter (depth + 1) rest
  | .shallower :: rest => depthAfter (depth - 1) rest
  | _ :: rest => depthAfter depth rest

def Mode.nesting : Mode → Nat
  | .pretty => 1
  | .minified => 0

/-- If the script does not fail it leads from one depth to another, both given relative to a
common ground. -/
def Script.Moves (before after : Nat) (s : Script) : Prop :=
  s.failure = none → ∀ d, depthAfter (d + before) s.pieces = d + after

theorem depthAfter_append (d : Nat) (a b : List Piece) :
    depthAfter d (a ++ b) = depthAfter (depthAfter d a) b := by
  induction a generalizing d with
  | nil => rfl
  | cons piece rest ih => cases piece <;> exact ih _

namespace Script

variable {a b s : Script} {i j k : Nat}

theorem mem_append_pieces {piece : Piece} (h : piece ∈ (a ++ b).pieces) :
    piece ∈ a.pieces ∨ piece ∈ b.pieces := by
  obtain ⟨pieces, failure⟩ := a
  cases failure with
  | none => exact List.mem_append.mp h
  | some e => exact .inl h

theorem append_pieces (h : a.failure = none) : (a ++ b).pieces = a.pieces ++ b.pieces := by
  obtain ⟨pieces, failure⟩ := a
  obtain rfl : failure = none := h
  rfl

theorem failure_left (h : (a ++ b).failure = none) : a.failure = none := by
  rw [append_failure] at h
  cases ha : a.failure with
  | none => rfl
  | some e => simp [ha] at h

theorem failure_right (h : (a ++ b).failure = none) : b.failure = none := by
  have ha := failure_left h
  rwa [append_failure, ha] at h

theorem Moves.append (ha : a.Moves i j) (hb : b.Moves j k) : (a ++ b).Moves i k := by
  intro h d
  rw [append_pieces (failure_left h), depthAfter_append, ha (failure_left h), hb (failure_right h)]

/-- What keeps one depth keeps every deeper one. -/
theorem Moves.lift (h : s.Moves 0 0) : s.Moves k k :=
  fun hs d => h hs (d + k)

theorem Moves.writeValue (t : Tree) : (writeValue t).Moves k k := by
  unfold Script.writeValue
  split
  · exact fun _ _ => rfl
  · intro _ d
    split <;> rfl

end Script

/-! ### Scripts of pieces with a property -/

structure Script.Shifts (Q : Piece → Prop) (before after : Nat) (s : Script) : Prop where
  allowed : ∀ piece ∈ s.pieces, Q piece
  depth : s.Moves before after

abbrev Script.Keeps (Q : Piece → Prop) (s : Script) : Prop := s.Shifts Q 0 0

/-- The pieces that do not depend on the tree have the property: texts of ASCII and, pretty,
those that lay out lines. -/
structure HoldsOfFixed (m : Mode) (Q : Piece → Prop) : Prop where
  text : ∀ t : Text, t.all isAscii = true → Q (.text t)
  lineBreak : m = .pretty → Q .lineBreak
  deeper : m = .pretty → Q .deeper
  shallower : m = .pretty → Q .shallower

namespace Script.Shifts

variable {Q : Piece → Prop} {m : Mode} {a b s : Script} {t u : Text} {i j k : Nat}

theorem append (ha : a.Shifts Q i j) (hb : b.Shifts Q j k) : (a ++ b).Shifts Q i k := by
  refine ⟨fun piece hpiece => ?_, ha.depth.append hb.depth⟩
  rcases mem_append_pieces hpiece with hpiece | hpiece
  · exact ha.allowed piece hpiece
  · exact hb.allowed piece hpiece

/-- What keeps one depth keeps every other. -/
theorem lift (h : s.Keeps Q) : s.Shifts Q k k := ⟨h.allowed, h.depth.lift⟩

theorem empty : Script.empty.Shifts Q k k := ⟨by simp, fun _ _ => rfl⟩

theorem fail (e : TreeError) : (fail e).Shifts Q i j := ⟨by simp [Script.fail], nofun⟩

theorem write (h : Q (.text t)) : (write t).Shifts Q k k := ⟨by simpa using h, fun _ _ => rfl⟩

theorem onlyIf (condition : Bool) (h : s.Keeps Q) : (onlyIf condition s).Keeps Q := by
  cases condition with
  | false => exact empty
  | true => exact h

theorem given {α : Type} {result : Except TreeError α} {s : α → Script}
    (h : ∀ value, result = .ok value → (s value).Shifts Q i j) : (given result s).Shifts Q i j := by
  cases result with
  | ok value => exact h value rfl
  | error e => exact fail e

theorem prettyOnly (h : m = .pretty → s.Keeps Q) : (m.prettyOnly s).Keeps Q := by
  cases m with
  | pretty => exact h rfl
  | minified => exact empty

theorem concat {scripts : List Script} (h : ∀ s ∈ scripts, s.Keeps Q) :
    (concat scripts).Keeps Q := by
  induction scripts with
  | nil => exact empty
  | cons s rest ih =>
    obtain ⟨hs, hrest⟩ := List.forall_mem_cons.mp h
    exact hs.append (ih hrest)

section Fixed

variable (hQ : HoldsOfFixed m Q)

include hQ

theorem fixed (h : t.all isAscii = true) : (Script.write t).Shifts Q k k := write (hQ.text t h)

theorem token (ht : t.all isAscii = true) (hu : u.all isAscii = true) :
    (m.token t u).Shifts Q k k := by
  cases m with
  | pretty => exact fixed hQ hu
  | minified => exact fixed hQ ht

theorem newline (hm : m = .pretty) : Script.newline.Shifts Q k k :=
  ⟨List.forall_mem_singleton.mpr (hQ.lineBreak hm), fun _ _ => rfl⟩

theorem finish (h : t.all isAscii = true) : (m.finish t).Shifts Q k k := by
  cases m with
  | pretty => exact (fixed hQ h).append (newline hQ rfl)
  | minified => exact fixed hQ h

theorem enclosedIf (condition : Bool) (h : s.Keeps Q) : (enclosedIf condition s).Keeps Q := by
  cases condition with
  | false => exact h
  | true => exact ((fixed hQ rfl).append h).append (fixed hQ rfl)

theorem deeper : (m.prettyOnly Script.deeper).Shifts Q 0 m.nesting := by
  cases m with
  | pretty => exact ⟨List.forall_mem_singleton.mpr (hQ.deeper rfl), fun _ _ => rfl⟩
  | minified => exact empty

theorem shallower : (m.prettyOnly Script.shallower).Shifts Q m.nesting 0 := by
  cases m with
  | pretty => exact ⟨List.forall_mem_singleton.mpr (hQ.shallower rfl), fun _ _ => rfl⟩
  | minified => exact empty

theorem lineDeeper : (m.prettyOnly (Script.newline ++ Script.deeper)).Shifts Q 0 m.nesting := by
  cases m with
  | pretty => exact (newline hQ rfl).append (deeper hQ)
  | minified => exact empty

theorem shallowerLine :
    (m.prettyOnly (Script.shallower ++ Script.newline)).Shifts Q m.nesting 0 := by
  cases m with
  | pretty => exact (shallower hQ).append (newline hQ rfl)
  | minified => exact empty

/-- The start of what is put in braces or between brackets. -/
theorem opening (h : t.all isAscii = true) :
    (if m.isMinified then Script.write t else line t ++ Script.deeper).Shifts Q 0 m.nesting := by
  cases m with
  | pretty => exact (finish hQ h).append (deeper hQ)
  | minified => exact fixed hQ h

/-- The end of what is put in braces, on a line of its own or not. -/
theorem ending (newline : Bool) (h : t.all isAscii = true) :
    (if newline && !m.isMinified then line t else Script.write t).Keeps Q := by
  cases newline with
  | false => exact fixed hQ h
  | true =>
    cases m with
    | pretty => exact finish hQ h
    | minified => exact fixed hQ h

omit hQ in
/-- What stands deeper, between what leads there and back. -/
theorem nested (ha : a.Shifts Q 0 m.nesting) (hs : s.Keeps Q) (hb : b.Shifts Q m.nesting 0) :
    (a ++ s ++ b).Keeps Q := (ha.append hs.lift).append hb

theorem braces (spacer newline isEmpty : Bool) (h : s.Keeps Q) :
    (m.braces spacer newline isEmpty s).Keeps Q := by
  have hspacer : (Script.onlyIf (spacer && !m.isMinified) (Script.write " ")).Keeps Q :=
    onlyIf _ (fixed hQ rfl)
  cases isEmpty with
  | true => exact hspacer.append (ending hQ newline rfl)
  | false =>
    exact hspacer.append
      (((opening hQ rfl).nested h (shallower hQ)).append (ending hQ newline rfl))

theorem bracketed (h : s.Keeps Q) (ht : t.all isAscii = true) (hu : u.all isAscii = true) :
    (Source.bracketed m t u s).Keeps Q :=
  ((opening hQ ht).nested h (shallowerLine hQ)).append (fixed hQ hu)

theorem looseBody (h : s.Keeps Q) : (Source.looseBody m s).Keeps Q :=
  (lineDeeper hQ).nested h (shallower hQ)

theorem clauseHead (isDefault : Bool) (h : s.Keeps Q) :
    (clauseHead m isDefault s).Shifts Q 0 m.nesting := by
  have hword :
      (if isDefault then Script.write "default" else Script.write "case " ++ s).Keeps Q := by
    split
    · exact fixed hQ rfl
    · exact (fixed hQ rfl).append h
  exact (hword.append (finish hQ rfl)).append (deeper hQ)

theorem catchFrame (newline isEmpty : Bool) (ha : a.Keeps Q) (hb : b.Keeps Q) :
    (catchFrame m newline isEmpty a b).Keeps Q :=
  (((token hQ rfl rfl).append ha).append (fixed hQ rfl)).append (braces hQ _ _ _ hb)

theorem between (l : Listing) : (l.between m).Keeps Q := by
  unfold Listing.between
  split
  · exact token hQ rfl rfl
  · exact token hQ rfl rfl
  · exact token hQ rfl rfl
  · exact token hQ rfl rfl
  all_goals first | exact finish hQ rfl | exact empty

theorem strays {l : Listing} (htoken : ∀ token, l = .operands token → Q (.text token)) (t : Tree) :
    (l.strays t).Keeps Q := by
  refine given fun leaves _ => concat fun s hs => ?_
  obtain ⟨a, -, rfl⟩ := List.mem_map.mp hs
  unfold Listing.stray
  split
  all_goals first
    | exact fail _
    | exact append (write (htoken _ rfl)) (fail _)
    | exact append (fixed hQ rfl) (fail _)

end Fixed

end Script.Shifts

/-! ### Scripts of trees -/

/-- The pieces that a node makes its own have the property: its name or label, its literal, its
operator and the word of its kind. -/
structure OwnPieces (m : Mode) (Q : Piece → Prop) (n : Node Tree) : Prop where
  identifier : ∀ name, n = .identifier name → ∀ piece ∈ (writeValue name).pieces, Q piece
  label : ∀ t name, n.label? = some t → used t.name = .ok name →
    ∀ piece ∈ (writeValue name).pieces, Q piece
  literal : ∀ value token, n = .literal value → Source.literal value = .ok token → Q (.text token)
  operator : ∀ left operator right token, n = .binaryExpression left operator right →
    chainToken m operator = .ok token → Q (.text token)
  kind : ∀ kind word, n.kindField? = some kind → kindWord kind = .ok word →
    Q (.text (Text.join [word, " "]))

def IsMadeOf (m : Mode) (Q : Piece → Prop) (t : Tree) : Prop :=
  ∀ n : Node Tree, n.PrintedIn t → OwnPieces m Q n ∧ (nodeScript m n).Keeps Q

section Trees

variable {m : Mode} {Q : Piece → Prop} {t s : Tree} {n : Node Tree} {missing : Script}

namespace IsMadeOf

theorem part (h : IsMadeOf m Q (.node n)) (hs : s ∈ n.printedParts) : IsMadeOf m Q s :=
  fun k hk => h k (.part hs hk)

theorem choice {c : Choice Tree} (h : IsMadeOf m Q (.choice c)) (hvalue : c.value? = some t) :
    IsMadeOf m Q t := fun k hk => h k (.choice hvalue hk)

theorem item {items : List Tree} (h : IsMadeOf m Q (.list items)) (ht : t ∈ items) :
    IsMadeOf m Q t := fun k hk => h k (.item ht hk)

theorem own (h : IsMadeOf m Q (.node n)) : OwnPieces m Q n := (h n .here).1

theorem script (h : IsMadeOf m Q (.node n)) : (nodeScript m n).Keeps Q := (h n .here).2

end IsMadeOf

theorem keeps_slot (h : IsMadeOf m Q t) (hmissing : missing.Keeps Q) :
    (scriptOr m missing t).Keeps Q := by
  unfold scriptOr
  split
  · exact hmissing
  · exact h.script
  · exact .fail _

/-- The name of an identifier. -/
theorem keeps_name {name : Tree} (h : OwnPieces m Q (.identifier name)) :
    (writeValue name).Keeps Q := ⟨h.identifier name rfl, .writeValue name⟩

theorem keeps_paramName (owner : String) (h : IsMadeOf m Q t) : (paramName owner t).Keeps Q := by
  unfold paramName
  split
  · exact keeps_name h.own
  · exact .fail _

theorem keeps_propertyPart (h : IsMadeOf m Q t) : (propertyPart m t).Keeps Q := by
  unfold propertyPart
  split
  · exact .fail _
  · exact h.script
  · exact .fail _

theorem keeps_declaratorPart (h : IsMadeOf m Q t) : (declaratorPart m t).Keeps Q := by
  unfold declaratorPart
  split
  · exact .fail _
  · exact h.script
  · next id _ _ =>
    have hid : IsMadeOf m Q id := h.part (by simp [Node.printedParts, Node.fields])
    exact (keeps_slot hid (.fail _)).append (.fail _)
  · next id _ _ =>
    have hid : IsMadeOf m Q id := h.part (by simp [Node.printedParts, Node.fields])
    exact (keeps_slot hid (.fail _)).append (.fail _)
  · exact .fail _

theorem keeps_key (h : IsMadeOf m Q t) : (keyScript m t).Keeps Q := by
  unfold keyScript
  split
  · exact keeps_slot (h.choice rfl) .empty
  · exact keeps_slot (h.choice rfl) .empty
  · exact .fail _
  · exact .fail _

section Fixed

variable (hQ : HoldsOfFixed m Q)

include hQ

theorem keeps_indexName (h : IsMadeOf m Q t) : (indexName t).Keeps Q := by
  unfold indexName
  split
  · exact .append (.fixed hQ rfl) (keeps_name h.own)
  · exact .fail _

theorem keeps_optionalName (h : OwnPieces m Q n) (ht : n.label? = some t) :
    (optionalName t).Keeps Q :=
  .onlyIf _ (.append (.fixed hQ rfl)
    (.given fun name hname => ⟨h.label t name ht hname, .writeValue name⟩))

theorem keeps_items {l : Listing} {items : List Tree} (first : Bool)
    (htoken : ∀ token, l = .operands token → Q (.text token))
    (h : ∀ item ∈ items, IsMadeOf m Q item)
    (hcases : l = .cases → ∀ item ∈ items, (casePart m item).Keeps Q) :
    (itemScripts m l first items).Keeps Q := by
  induction items generalizing first with
  | nil => exact .empty
  | cons t rest ih =>
    obtain ⟨ht, hrest⟩ := List.forall_mem_cons.mp h
    have hitems := ih false hrest fun hl item hitem => hcases hl item (List.mem_cons_of_mem t hitem)
    have hitem {s : Script} (hs : s.Keeps Q) :
        (onlyIf (!first) (l.between m) ++ s ++ itemScripts m l false rest).Keeps Q :=
      .append (.append (.onlyIf _ (.between hQ l)) hs) hitems
    cases l with
    | statements => exact hitem (keeps_slot ht (.finish hQ rfl))
    | arguments owner => exact hitem (.enclosedIf hQ _ (keeps_slot ht (.fail _)))
    | elements => exact hitem (.enclosedIf hQ _ (keeps_slot ht .empty))
    | expressions => exact hitem (keeps_slot ht (.fail _))
    | operands token =>
      exact hitem (.append (.write (htoken token rfl)) (.enclosedIf hQ _ (keeps_slot ht (.fail _))))
    | indices =>
      exact hitem (.append (.append (.fixed hQ rfl) (keeps_slot ht (.fail _))) (.fixed hQ rfl))
    | names => exact hitem (keeps_indexName hQ ht)
    | params owner => exact hitem (keeps_paramName owner ht)
    | properties => exact hitem (keeps_propertyPart ht)
    | cases => exact hitem (hcases rfl t List.mem_cons_self)
    | declarators inline => exact hitem (keeps_declaratorPart ht)

theorem keeps_statements (h : IsMadeOf m Q t) : (listScript m .statements t).Keeps Q := by
  unfold listScript
  split
  · exact keeps_items hQ true (by simp) (fun item hitem => h.item hitem) (by simp)
  · exact .strays hQ (by simp) t

/-- The statements of a clause of a switch, under its head. -/
theorem keeps_clause {test body : Tree} (htest : IsMadeOf m Q test) (hbody : IsMadeOf m Q body) :
    (clauseHead m test.isMissing (scriptOr m empty test) ++ listScript m .statements body ++
      m.prettyOnly shallower).Keeps Q :=
  (Shifts.clauseHead hQ _ (keeps_slot htest .empty)).nested (keeps_statements hQ hbody)
    (.shallower hQ)

theorem keeps_casePart (h : IsMadeOf m Q t) : (casePart m t).Keeps Q := by
  have hclause {n : Node Tree} {test body : Tree} (h : IsMadeOf m Q (.node n))
      (hparts : test ∈ n.printedParts ∧ body ∈ n.printedParts) :
      (clauseHead m test.isMissing (scriptOr m empty test) ++ listScript m .statements body ++
        m.prettyOnly shallower).Keeps Q := keeps_clause hQ (h.part hparts.1) (h.part hparts.2)
  have hhead {n : Node Tree} {test : Tree} (h : IsMadeOf m Q (.node n))
      (htest : test ∈ n.printedParts) :
      (clauseHead m test.isMissing (scriptOr m empty test) ++ noSuchPart).Keeps Q :=
    (Shifts.clauseHead hQ _ (keeps_slot (h.part htest) .empty)).append (.fail _)
  unfold casePart
  split
  · exact .fail _
  · exact hclause h (by simp [Node.printedParts, Node.fields])
  · exact hclause h (by simp [Node.printedParts, Node.fields])
  · exact hclause h (by simp [Node.printedParts, Node.fields])
  · exact hclause h (by simp [Node.printedParts, Node.fields])
  · exact hhead h (by simp [Node.printedParts, Node.fields])
  · exact hhead h (by simp [Node.printedParts, Node.fields])
  · exact .fail _

theorem keeps_list {l : Listing} (htoken : ∀ token, l = .operands token → Q (.text token))
    (h : IsMadeOf m Q t) : (listScript m l t).Keeps Q := by
  unfold listScript
  split
  · exact keeps_items hQ true htoken (fun item hitem => h.item hitem)
      fun _ item hitem => keeps_casePart hQ (h.item hitem)
  · exact .strays hQ htoken t

theorem keeps_body (newline beforeElse : Bool) (h : IsMadeOf m Q t) :
    (bodyScript m newline beforeElse t).Keeps Q := by
  unfold bodyScript
  split
  · next body =>
    have hbody : IsMadeOf m Q body := h.part (by simp [Node.printedParts, Node.fields])
    refine .given fun drops _ => ?_
    split
    · exact keeps_statements hQ hbody
    · exact .braces hQ _ _ _ (keeps_statements hQ hbody)
  · exact .looseBody hQ (.finish hQ rfl)
  · refine .given fun encloses _ => ?_
    split
    · exact .braces hQ _ _ _ h.script
    · exact .looseBody hQ h.script
  · exact .looseBody hQ (.fail _)

theorem keeps_else (h : IsMadeOf m Q t) : (elseScript m t).Keeps Q := by
  unfold elseScript
  split
  · next body =>
    have hbody : IsMadeOf m Q body := h.part (by simp [Node.printedParts, Node.fields])
    refine .given fun drops _ => ?_
    split
    · exact keeps_statements hQ hbody
    · exact .braces hQ _ _ _ (keeps_statements hQ hbody)
  · exact .looseBody hQ (.finish hQ rfl)
  · split
    · exact .append (.fixed hQ rfl) h.script
    · exact .looseBody hQ h.script
  · exact .looseBody hQ (.fail _)

theorem keeps_foldedBranch (h : IsMadeOf m Q t) : (foldedBranch m t).Keeps Q := by
  unfold foldedBranch
  split
  · next expression =>
    have hexpression : IsMadeOf m Q expression := h.part (by simp [Node.printedParts, Node.fields])
    exact .enclosedIf hQ _ (keeps_slot hexpression .empty)
  · next expression =>
    have hbody : IsMadeOf m Q (.list [.node (.expressionStatement expression)]) :=
      h.part (by simp [Node.printedParts, Node.fields])
    have hexpression : IsMadeOf m Q expression :=
      (hbody.item List.mem_cons_self).part (by simp [Node.printedParts, Node.fields])
    exact .enclosedIf hQ _ (keeps_slot hexpression .empty)
  · exact .empty

theorem keeps_blockPart (newline : Bool) (h : IsMadeOf m Q t) :
    (blockPart m newline t).Keeps Q := by
  have hbraces {n : Node Tree} {body : Tree} (h : IsMadeOf m Q (.node n))
      (hbody : body ∈ n.printedParts) :
      (m.braces true newline (!body.isTrue) (listScript m .statements body)).Keeps Q :=
    .braces hQ _ _ _ (keeps_statements hQ (h.part hbody))
  unfold blockPart
  split <;> first | exact hbraces h (by simp [Node.printedParts, Node.fields]) | exact .fail _

theorem keeps_catchFrame (newline : Bool) {param body : Tree} (hparam : IsMadeOf m Q param)
    (hbody : IsMadeOf m Q body) :
    (catchFrame m newline (!body.isTrue) (scriptOr m (absent "CatchClause" "param") param)
      (listScript m .statements body)).Keeps Q :=
  .catchFrame hQ _ _ (keeps_slot hparam (.fail _)) (keeps_statements hQ hbody)

theorem keeps_handler (newline : Bool) (h : IsMadeOf m Q t) :
    (handlerScript m newline t).Keeps Q := by
  have hblank : (m.prettyOnly (write " ")).Keeps Q := .prettyOnly fun _ => .fixed hQ rfl
  unfold handlerScript
  split
  · exact .empty
  · next param body =>
    have hparam : IsMadeOf m Q param := h.part (by simp [Node.printedParts, Node.fields])
    have hbody : IsMadeOf m Q body := h.part (by simp [Node.printedParts, Node.fields])
    exact hblank.append (keeps_catchFrame hQ newline hparam hbody)
  · exact (hblank.append (.token hQ rfl rfl)).append (.fail _)

/-- The parameters and the statements of a function, after its head. -/
theorem keeps_function {owner : String} {head : Script} {params body : Tree} (newline : Bool)
    (hhead : head.Keeps Q) (hparams : IsMadeOf m Q params) (hbody : IsMadeOf m Q body) :
    (head ++ write "(" ++ listScript m (.params owner) params ++ m.token ")" ") " ++
      m.braces false newline (!body.isTrue) (listScript m .statements body)).Keeps Q :=
  .append (.append (.append (.append hhead (.fixed hQ rfl)) (keeps_list hQ (by simp) hparams))
    (.token hQ rfl rfl)) (.braces hQ _ _ _ (keeps_statements hQ hbody))

/-- The arguments of a call, after what is called. -/
theorem keeps_arguments {owner : String} {callee : Script} {arguments : Tree}
    (hcallee : callee.Keeps Q) (harguments : IsMadeOf m Q arguments) :
    (callee ++ write "(" ++ listScript m (.arguments owner) arguments ++ write ")").Keeps Q :=
  .append (.append (.append hcallee (.fixed hQ rfl)) (keeps_list hQ (by simp) harguments))
    (.fixed hQ rfl)

theorem keeps_accessor {word : Text} {key : Script} (hword : Q (.text (Text.join [word, " "])))
    (hkey : key.Keeps Q) (h : ∀ s ∈ t.accessorParts, IsMadeOf m Q s) :
    (accessorScript m word key t).Keeps Q := by
  unfold accessorScript
  split
  · next params body =>
    exact keeps_function hQ false (.append (.write hword) hkey)
      (h params (by simp [Tree.accessorParts])) (h body (by simp [Tree.accessorParts]))
  · exact .fail _

/-- The declaration in the head of a loop. -/
theorem keeps_inline {declarations kind : Tree}
    (h : IsMadeOf m Q (.node (.variableDeclaration declarations kind))) :
    (given (kindWord kind) fun word => write (Text.join [word, " "]) ++
      listScript m (.declarators true) declarations).Keeps Q := by
  have hdeclarations : IsMadeOf m Q declarations :=
    h.part (by simp [Node.printedParts, Node.fields])
  exact .given fun word hword => .append (.write (h.own.kind kind word rfl hword))
    (keeps_list hQ (by simp) hdeclarations)

theorem keeps_headDeclaration (owner : String) (h : IsMadeOf m Q t) :
    (headDeclaration m owner t).Keeps Q := by
  unfold headDeclaration
  split
  · split
    · exact .fail _
    · exact keeps_inline hQ h
  · exact .fail _

theorem keeps_forInDeclaration (h : IsMadeOf m Q t) : (forInDeclaration m t).Keeps Q := by
  unfold forInDeclaration
  split
  · refine .given fun count _ => ?_
    split
    · exact .fail _
    · exact keeps_inline hQ h
  · exact .fail _

theorem keeps_forInit (h : IsMadeOf m Q t) : (forInit m t).Keeps Q := by
  unfold forInit
  split
  · exact .empty
  · exact keeps_headDeclaration hQ _ (h.choice rfl)
  · exact keeps_slot (h.choice rfl) (.fail _)
  · exact .fail _

theorem keeps_forInLeft (h : IsMadeOf m Q t) : (forInLeft m t).Keeps Q := by
  unfold forInLeft
  split
  · exact .fail _
  · exact keeps_forInDeclaration hQ (h.choice rfl)
  · exact keeps_slot (h.choice rfl) (.fail _)
  · exact .fail _

theorem keeps_if {test consequent alternate : Tree} (htest : IsMadeOf m Q test)
    (hconsequent : IsMadeOf m Q consequent) (halternate : IsMadeOf m Q alternate) :
    (nodeScript m (.ifStatement test consequent alternate)).Keeps Q := by
  rw [nodeScript]
  refine .given fun folds _ => ?_
  split
  · refine .given fun encloses _ => .append (.enclosedIf hQ _ ?_) (.finish hQ rfl)
    exact .append (.append (.append (.append (.enclosedIf hQ _ (keeps_slot htest .empty))
      (.token hQ rfl rfl)) (keeps_foldedBranch hQ hconsequent)) (.token hQ rfl rfl))
      (keeps_foldedBranch hQ halternate)
  · have hbraces : (given (hasBraces m true consequent) fun braces =>
        m.prettyOnly (onlyIf braces (write " "))).Keeps Q :=
      .given fun braces _ => .prettyOnly fun _ => .onlyIf _ (.fixed hQ rfl)
    exact .append (.append (.append (.append (.token hQ rfl rfl) (keeps_slot htest (.fail _)))
      (.fixed hQ rfl)) (keeps_body hQ _ _ hconsequent))
      (.onlyIf _ (.append (.append hbraces (.fixed hQ rfl)) (keeps_else hQ halternate)))

/-- An operator on one operand. -/
theorem keeps_unary {operator argument : Tree} (h : IsMadeOf m Q argument) :
    (nodeScript m (.unaryExpression operator argument)).Keeps Q := by
  have hoperand : (enclosedIf (Place.operand.refuses argument)
      (scriptOr m (absent "UnaryExpression" "argument") argument)).Keeps Q :=
    .enclosedIf hQ _ (keeps_slot h (.fail _))
  simp only [nodeScript]
  split
  · next op =>
    split
    · exact .append (.fixed hQ (by cases op <;> decide)) hoperand
    · exact .append hoperand (.fixed hQ (by cases op <;> decide))
  · exact .fail _

theorem keeps_property {key value kind : Tree} (hn : OwnPieces m Q (.property key value kind))
    (h : ∀ s ∈ (Node.property key value kind).printedParts, IsMadeOf m Q s) :
    (nodeScript m (.property key value kind)).Keeps Q := by
  rw [Node.printedParts] at h
  unfold nodeScript
  split
  · exact .fail _
  · split
    · next hdefines =>
      rw [if_pos hdefines] at h
      obtain ⟨hkey, hvalue⟩ : IsMadeOf m Q key ∧ IsMadeOf m Q value := by simpa using h
      exact .append (.append (keeps_key hkey) (.token hQ rfl rfl))
        (.enclosedIf hQ _ (keeps_slot hvalue (.fail _)))
    · next hdefines =>
      rw [if_neg hdefines] at h
      obtain ⟨hkey, hparts⟩ := List.forall_mem_cons.mp h
      exact .given fun word hword =>
        keeps_accessor hQ (hn.kind kind word rfl hword) (keeps_key hkey) hparts

/-- The pieces of a node's script are fixed ones, its own and those of the nodes in it. -/
theorem keeps_node (hn : OwnPieces m Q n) (h : ∀ s ∈ n.printedParts, IsMadeOf m Q s) :
    (nodeScript m n).Keeps Q := by
  cases n with
  | bare cls => exact .fail _
  | program body =>
    have hbody : IsMadeOf m Q body := by simpa [Node.printedParts, Node.fields] using h
    exact keeps_statements hQ hbody
  | identifier name => exact keeps_name hn
  | literal value => exact .given fun token htoken => .write (hn.literal value token rfl htoken)
  | thisExpression => exact .fixed hQ rfl
  | arrayExpression elements =>
    have helements : IsMadeOf m Q elements := by simpa [Node.printedParts, Node.fields] using h
    rw [nodeScript]
    split
    · exact .fixed hQ rfl
    · exact .bracketed hQ
        (.append (keeps_list hQ (by simp) helements) (.onlyIf _ (.fixed hQ rfl))) rfl rfl
  | objectExpression properties =>
    have hproperties : IsMadeOf m Q properties := by simpa [Node.printedParts, Node.fields] using h
    rw [nodeScript]
    split
    · exact .fixed hQ rfl
    · exact .bracketed hQ (keeps_list hQ (by simp) hproperties) rfl rfl
  | functionExpression id params body =>
    obtain ⟨hbody, -, hparams⟩ : IsMadeOf m Q body ∧ IsMadeOf m Q id ∧ IsMadeOf m Q params := by
      simpa [Node.printedParts, Node.fields] using h
    exact keeps_function hQ false
      (.append (.fixed hQ rfl) (keeps_optionalName hQ hn rfl)) hparams hbody
  | unaryExpression operator argument =>
    obtain ⟨-, hargument⟩ : IsMadeOf m Q operator ∧ IsMadeOf m Q argument := by
      simpa [Node.printedParts, Node.fields] using h
    exact keeps_unary hQ hargument
  | binaryExpression left operator right =>
    obtain ⟨hleft, -, hright⟩ : IsMadeOf m Q left ∧ IsMadeOf m Q operator ∧ IsMadeOf m Q right := by
      simpa [Node.printedParts, Node.fields] using h
    refine .given fun token htoken => ?_
    have hoperator : ∀ token', Listing.operands token = .operands token' → Q (.text token') := by
      rintro _ ⟨⟩
      exact hn.operator left operator right token rfl htoken
    exact .append (.append (.append (.fixed hQ rfl) (.enclosedIf hQ _ (keeps_slot hleft (.fail _))))
      (keeps_list hQ hoperator hright)) (.fixed hQ rfl)
  | memberExpression object indices computed =>
    obtain ⟨hobject, hindices, -⟩ : IsMadeOf m Q object ∧ IsMadeOf m Q indices ∧
        IsMadeOf m Q computed := by
      simpa [Node.printedParts, Node.fields] using h
    refine .append (.enclosedIf hQ _ (keeps_slot hobject (.fail _))) (keeps_list hQ ?_ hindices)
    split <;> simp
  | conditionalExpression test consequent alternate =>
    obtain ⟨htest, hconsequent, halternate⟩ : IsMadeOf m Q test ∧ IsMadeOf m Q consequent ∧
        IsMadeOf m Q alternate := by
      simpa [Node.printedParts, Node.fields] using h
    exact .append (.append (.append (.append (.enclosedIf hQ _ (keeps_slot htest (.fail _)))
      (.token hQ rfl rfl)) (.enclosedIf hQ _ (keeps_slot hconsequent (.fail _))))
      (.token hQ rfl rfl)) (.enclosedIf hQ _ (keeps_slot halternate (.fail _)))
  | callExpression callee arguments =>
    obtain ⟨hcallee, harguments⟩ : IsMadeOf m Q callee ∧ IsMadeOf m Q arguments := by
      simpa [Node.printedParts, Node.fields] using h
    exact keeps_arguments hQ (.enclosedIf hQ _ (keeps_slot hcallee (.fail _))) harguments
  | newExpression callee arguments =>
    obtain ⟨hcallee, harguments⟩ : IsMadeOf m Q callee ∧ IsMadeOf m Q arguments := by
      simpa [Node.printedParts, Node.fields] using h
    exact keeps_arguments hQ
      (.append (.fixed hQ rfl) (.enclosedIf hQ _ (keeps_slot hcallee (.fail _)))) harguments
  | sequenceExpression expressions =>
    have hexpressions : IsMadeOf m Q expressions := by
      simpa [Node.printedParts, Node.fields] using h
    exact keeps_list hQ (by simp) hexpressions
  | blockStatement body =>
    have hbody : IsMadeOf m Q body := by simpa [Node.printedParts, Node.fields] using h
    exact .braces hQ _ _ _ (keeps_statements hQ hbody)
  | expressionStatement expression =>
    have hexpression : IsMadeOf m Q expression := by
      simpa [Node.printedParts, Node.fields] using h
    exact .given fun _ _ =>
      .append (.enclosedIf hQ _ (keeps_slot hexpression (.fail _))) (.finish hQ rfl)
  | debuggerStatement => exact .finish hQ rfl
  | withStatement object body =>
    obtain ⟨hobject, hbody⟩ : IsMadeOf m Q object ∧ IsMadeOf m Q body := by
      simpa [Node.printedParts, Node.fields] using h
    exact .append (.append (.append (.token hQ rfl rfl) (keeps_slot hobject (.fail _)))
      (.fixed hQ rfl)) (keeps_body hQ _ _ hbody)
  | returnStatement argument =>
    have hargument : IsMadeOf m Q argument := by simpa [Node.printedParts, Node.fields] using h
    exact .append (.append (.fixed hQ rfl)
      (.onlyIf _ (.append (.fixed hQ rfl) (keeps_slot hargument .empty)))) (.finish hQ rfl)
  | labeledStatement label body =>
    obtain ⟨hlabel, hbody⟩ : IsMadeOf m Q label ∧ IsMadeOf m Q body := by
      simpa [Node.printedParts, Node.fields] using h
    exact .append (.append (keeps_slot hlabel (.fail _)) (.finish hQ rfl))
      (keeps_slot hbody (.finish hQ rfl))
  | breakStatement label =>
    exact .append (.append (.fixed hQ rfl) (keeps_optionalName hQ hn rfl)) (.finish hQ rfl)
  | continueStatement label =>
    exact .append (.append (.fixed hQ rfl) (keeps_optionalName hQ hn rfl)) (.finish hQ rfl)
  | ifStatement test consequent alternate =>
    obtain ⟨htest, hconsequent, halternate⟩ : IsMadeOf m Q test ∧ IsMadeOf m Q consequent ∧
        IsMadeOf m Q alternate := by
      simpa [Node.printedParts, Node.fields] using h
    exact keeps_if hQ htest hconsequent halternate
  | switchStatement discriminant cases =>
    obtain ⟨hdiscriminant, hcases⟩ : IsMadeOf m Q discriminant ∧ IsMadeOf m Q cases := by
      simpa [Node.printedParts, Node.fields] using h
    exact .append (.nested (.append (.append (.append (.token hQ rfl rfl)
      (keeps_slot hdiscriminant (.fail _))) (.token hQ rfl rfl)) (.lineDeeper hQ))
      (keeps_list hQ (by simp) hcases) (.shallower hQ)) (.finish hQ rfl)
  | switchCase test body =>
    obtain ⟨hbody, htest⟩ : IsMadeOf m Q body ∧ IsMadeOf m Q test := by
      simpa [Node.printedParts, Node.fields] using h
    exact keeps_clause hQ htest hbody
  | throwStatement argument =>
    have hargument : IsMadeOf m Q argument := by simpa [Node.printedParts, Node.fields] using h
    exact .append (.append (.fixed hQ rfl) (keeps_slot hargument (.fail _))) (.finish hQ rfl)
  | tryStatement block handler finalizer =>
    obtain ⟨hblock, hhandler, hfinalizer⟩ : IsMadeOf m Q block ∧ IsMadeOf m Q handler ∧
        IsMadeOf m Q finalizer := by
      simpa [Node.printedParts, Node.fields] using h
    exact .given fun _ _ => .given fun _ _ =>
      .append (.append (.append (.fixed hQ rfl) (keeps_blockPart hQ _ hblock))
        (keeps_handler hQ _ hhandler))
        (.onlyIf _ (.append (.token hQ rfl rfl) (keeps_blockPart hQ _ hfinalizer)))
  | catchClause param body =>
    obtain ⟨hbody, hparam⟩ : IsMadeOf m Q body ∧ IsMadeOf m Q param := by
      simpa [Node.printedParts, Node.fields] using h
    exact keeps_catchFrame hQ true hparam hbody
  | whileStatement test body =>
    obtain ⟨htest, hbody⟩ : IsMadeOf m Q test ∧ IsMadeOf m Q body := by
      simpa [Node.printedParts, Node.fields] using h
    exact .append (.append (.append (.token hQ rfl rfl) (keeps_slot htest (.fail _)))
      (.fixed hQ rfl)) (keeps_body hQ _ _ hbody)
  | doWhileStatement body test =>
    obtain ⟨hbody, htest⟩ : IsMadeOf m Q body ∧ IsMadeOf m Q test := by
      simpa [Node.printedParts, Node.fields] using h
    refine .append (.append (.append (.append (.fixed hQ rfl) (keeps_body hQ _ _ hbody))
      (.given fun braces _ => .fixed hQ ?_)) (keeps_slot htest (.fail _))) (.finish hQ rfl)
    split
    · decide
    · split <;> decide
  | forStatement init test update body =>
    obtain ⟨hinit, htest, hupdate, hbody⟩ : IsMadeOf m Q init ∧ IsMadeOf m Q test ∧
        IsMadeOf m Q update ∧ IsMadeOf m Q body := by
      simpa [Node.printedParts, Node.fields] using h
    exact .append (.append (.append (.append (.append (.append (.append (.token hQ rfl rfl)
      (keeps_forInit hQ hinit)) (.token hQ rfl rfl)) (keeps_slot htest .empty)) (.token hQ rfl rfl))
      (keeps_slot hupdate .empty)) (.fixed hQ rfl)) (keeps_body hQ _ _ hbody)
  | forInStatement left right body =>
    obtain ⟨hleft, hright, hbody⟩ : IsMadeOf m Q left ∧ IsMadeOf m Q right ∧
        IsMadeOf m Q body := by
      simpa [Node.printedParts, Node.fields] using h
    exact .append (.append (.append (.append (.append (.token hQ rfl rfl)
      (keeps_forInLeft hQ hleft))
      (.fixed hQ rfl)) (keeps_slot hright (.fail _))) (.fixed hQ rfl)) (keeps_body hQ _ _ hbody)
  | functionDeclaration id params body =>
    obtain ⟨hbody, hid, hparams⟩ : IsMadeOf m Q body ∧ IsMadeOf m Q id ∧ IsMadeOf m Q params := by
      simpa [Node.printedParts, Node.fields] using h
    exact keeps_function hQ true (.append (.fixed hQ rfl) (keeps_slot hid (.fail _))) hparams hbody
  | variableDeclaration declarations kind =>
    obtain ⟨hdeclarations, -⟩ : IsMadeOf m Q declarations ∧ IsMadeOf m Q kind := by
      simpa [Node.printedParts, Node.fields] using h
    rw [nodeScript]
    split
    · exact .fail _
    · exact .given fun word hword => .append (.nested
        (.append (.write (hn.kind kind word rfl hword)) (.deeper hQ))
        (keeps_list hQ (by simp) hdeclarations) (.shallower hQ)) (.finish hQ rfl)
  | variableDeclarator id init =>
    obtain ⟨hid, hinit⟩ : IsMadeOf m Q id ∧ IsMadeOf m Q init := by
      simpa [Node.printedParts, Node.fields] using h
    exact .append (keeps_slot hid (.fail _)) (.onlyIf _ (.append (.token hQ rfl rfl)
      (.enclosedIf hQ _ (keeps_slot hinit .empty))))
  | property key value kind => exact keeps_property hQ hn h

/-- If all nodes that are printed have such pieces, so have their scripts. -/
theorem isMadeOf (h : ∀ n : Node Tree, n.PrintedIn t → OwnPieces m Q n) : IsMadeOf m Q t :=
  forall_printedIn fun n hn ih => ⟨h n hn, keeps_node hQ (h n hn) ih⟩

theorem keeps_script (h : ∀ n : Node Tree, n.PrintedIn t → OwnPieces m Q n) :
    (script m t).Keeps Q := keeps_slot (isMadeOf hQ h) (.finish hQ rfl)

end Fixed

end Trees

/-! ### Texts -/

def Piece.Has (P : Text → Prop) : Piece → Prop
  | .text t => P t
  | .value _ => False
  | .lineBreak | .deeper | .shallower => True

def Script.WritesOnly (s : Script) (P : Text → Prop) : Prop := ∀ piece ∈ s.pieces, piece.Has P

def HoldsOfAscii (P : Text → Prop) : Prop := ∀ t : Text, t.all isAscii = true → P t

section Texts

variable {P : Text → Prop} {t : Tree}

/-- A value that is a text is written as one. -/
theorem has_value {name : Tree} {text : Text} (hname : name.text? = some text) (h : P text) :
    (writeValue name).WritesOnly P := by
  rw [writeValue, hname]
  exact List.forall_mem_singleton.mpr h

/-- The script of a tree writes texts with the property if its nodes make no others their own. -/
theorem texts_script {m : Mode} (hP : HoldsOfAscii P)
    (h : ∀ n : Node Tree, n.PrintedIn t → OwnPieces m (Piece.Has P) n) :
    (script m t).WritesOnly P :=
  (keeps_script ⟨fun t => hP t, fun _ => trivial, fun _ => trivial, fun _ => trivial⟩ h).allowed

end Texts

end Source

end ScriptTree
