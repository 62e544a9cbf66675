import ScriptTree.Proofs.Exchange.Restoration

/-!
Reading, writing and reading again. The fields that the entries of a node are written as
make up an object in which the node stands, so every node that was read is restored, and
with it every text that is read.
-/

namespace ScriptTree.Exchange

variable {j : Json} {owner : String} {n : Node Tree}

section Objects

theorem isStrict_of_mem {entry : Entry} (h : entry ∈ n.entries) : entry.role.IsStrict := by
  have hkey : Role.IsStrict (.choice .propertyKey .literal false) := by
    refine ⟨fun part hobject => ?_, by decide, by decide⟩
    simp [Expectation.check, Expectation.checkCategory, hobject]
  have hinit : Role.IsStrict (.choice .forInit .variableDeclaration true) := by
    refine ⟨fun part hobject => ?_, by decide, by decide⟩
    simp [Expectation.check, hobject]
  have hleft : Role.IsStrict (.choice .forInLeft .variableDeclaration false) := by
    refine ⟨fun part hobject => ?_, by decide, by decide⟩
    simp [Expectation.check]
  revert entry
  cases n <;> simp [Node.entries, hkey, hinit, hleft] <;> simp [Role.IsStrict]

/-- No two entries of a node are held in one field. -/
theorem nodup_names (n : Node Tree) :
    ("type" :: (n.entries.flatMap Entry.names ++ ["directive"])).Nodup := by
  cases n <;> simp [Node.entries, Entry.names]

/-- An entry is found wherever the fields that hold it are. -/
theorem Entry.Reads.congr {entry : Entry} {j' : Json}
    (hnames : ∀ name ∈ entry.names, j'.field? name = j.field? name) (h : entry.Reads owner j) :
    entry.Reads owner j' := by
  obtain ⟨name, role, t⟩ := entry
  cases role <;> simp only [Entry.names, List.forall_mem_cons, List.not_mem_nil, false_implies,
    implies_true, and_true] at hnames <;>
    simpa only [Entry.Reads, ReadsChild, ReadsBlock, ReadsRegex, hnames] using h

theorem lookup?_append (a b : List (Text × Json)) (name : Text) :
    Json.lookup? (a ++ b) name = (Json.lookup? a name).or (Json.lookup? b name) := by
  induction a with
  | nil => simp [Json.lookup?]
  | cons field a ih =>
    obtain ⟨key, value⟩ := field
    by_cases hkey : key = name
    · simp [Json.lookup?, hkey]
    · simp [Json.lookup?, hkey, ih]

theorem lookup?_eq_none {fields : List (Text × Json)} {name : Text}
    (h : name ∉ fields.map Prod.fst) : Json.lookup? fields name = none := by
  induction fields with
  | nil => rfl
  | cons field fields ih =>
    obtain ⟨key, value⟩ := field
    simp only [List.map_cons, List.mem_cons, not_or] at h
    rw [Json.lookup?, if_neg (Ne.symm h.1), ih h.2]

/-- The names that the fields of entries have are names of the entries. -/
theorem sublist_names {entries : List Entry} {owns : List (List (Text × Json))}
    (h : List.Forall₂ (Entry.Kept owner) entries owns) :
    (owns.flatten.map Prod.fst).Sublist ((entries.flatMap Entry.names).map Text.ofString) := by
  induction h with
  | nil => simp
  | cons hkept _ ih =>
    simp only [List.flatten_cons, List.map_append, List.flatMap_cons]
    exact hkept.names.append ih

/-- Every entry is found in an object that holds the fields of all of them. -/
theorem reads_of_kept {entries : List Entry} {owns : List (List (Text × Json))}
    (h : List.Forall₂ (Entry.Kept owner) entries owns) (before after : List (Text × Json))
    (hnodup : (entries.flatMap Entry.names).Nodup)
    (hbefore : ∀ name ∈ entries.flatMap Entry.names, Text.ofString name ∉ before.map Prod.fst)
    (hafter : ∀ name ∈ entries.flatMap Entry.names, Text.ofString name ∉ after.map Prod.fst) :
    ∀ entry ∈ entries, entry.Reads owner (.object (before ++ owns.flatten ++ after)) := by
  induction h generalizing before with
  | nil => simp
  | @cons entry own entries owns hkept hrest ih =>
    simp only [List.flatMap_cons, List.nodup_append] at hnodup hbefore hafter
    obtain ⟨-, hnodup, hapart⟩ := hnodup
    have hjoin : before ++ (own :: owns).flatten ++ after =
        before ++ own ++ owns.flatten ++ after := by
      simp
    rw [hjoin]
    intro entry' hentry'
    rcases List.mem_cons.mp hentry' with rfl | hentry'
    · refine hkept.reads.congr fun name hname => ?_
      have hrest : Text.ofString name ∉ owns.flatten.map Prod.fst := fun hmem => by
        obtain ⟨name', hname', heq⟩ := List.mem_map.mp ((sublist_names hrest).subset hmem)
        exact hapart name hname name' hname' (Text.ofString_inj.mp heq).symm
      simp only [Json.field?, lookup?_append,
        lookup?_eq_none (hbefore name (List.mem_append_left _ hname)),
        lookup?_eq_none (hafter name (List.mem_append_left _ hname)), lookup?_eq_none hrest,
        Option.none_or, Option.or_none]
    · refine ih (before ++ own) hnodup ?_ (fun name hname => hafter name (by simp [hname])) entry'
        hentry'
      intro name hname
      rw [List.map_append, List.mem_append, not_or]
      refine ⟨hbefore name (List.mem_append_right _ hname), fun hmem => ?_⟩
      obtain ⟨name', hname', heq⟩ := List.mem_map.mp (hkept.names.subset hmem)
      exact hapart name' hname' name hname (Text.ofString_inj.mp heq)

theorem operator_of_unary {o a : Tree} (h : StandsIn owner j (.unaryExpression o a)) :
    ∃ op : UnaryOperator, o = .ofMember (.unaryOperator op) ∧ op.nodeType = owner := by
  obtain ⟨_, _, op, -, -, hop, ho⟩ :=
    h.reads ⟨"operator", .unaryOperator, o⟩ (by simp [Node.entries])
  exact ⟨op, ho, nodeType_of_unaryExchange? hop⟩

theorem operator_of_binary {l o r : Tree} (h : StandsIn owner j (.binaryExpression l o r)) :
    ∃ op : BinaryOperator, o = .ofMember (.binaryOperator op) ∧ op.nodeType = owner := by
  obtain ⟨_, op, -, hop, ho⟩ := h.reads ⟨"operator", .binaryOperator, o⟩ (by simp [Node.entries])
  exact ⟨op, ho, nodeType_of_ofExchange? hop⟩

/-- The only item of a field is not empty. -/
theorem only_of_sole {name : String} {category : Category} {t : Tree}
    (hcategory : category ≠ .statement) (h : Entry.Reads owner j ⟨name, .sole category, t⟩) :
    ∃ only, t = .list [only] ∧ only ≠ .missing := by
  obtain ⟨only, ⟨part, -, hkind, hread⟩, htree⟩ := h
  refine ⟨only, htree, ?_⟩
  rintro rfl
  obtain rfl := readAs_child_missing hcategory hread
  simp [Json.kind] at hkind

theorem checkTry_of_standsIn {block handler finalizer : Tree}
    (h : StandsIn owner j (.tryStatement block handler finalizer)) :
    Tree.checkTry handler finalizer = .ok () := by
  obtain ⟨trees, rfl⟩ : ∃ trees, finalizer = .node (.blockStatement (.list trees)) := by
    have hfinalizer := h.reads ⟨"finalizer", .finalizer, finalizer⟩ (by simp [Node.entries])
    rcases hfinalizer with ⟨-, htree⟩ | ⟨trees, -, htree⟩
    · exact ⟨[], htree⟩
    · exact ⟨trees, htree⟩
  cases handler with
  | missing =>
    cases trees with
    | nil => exact absurd rfl (h.guarded block)
    | cons t trees => rfl
  | _ => rfl

/-- A node that stands in an object is written entry by entry. -/
theorem writeNode_of_standsIn {k : Kind} (hn : n.kind? = some k) (h : StandsIn owner j n) :
    writeNode n = n.drafted := by
  by_cases hregular : k ∉ [.unaryExpression, .binaryExpression, .memberExpression, .tryStatement]
  · exact writeNode_regular hn hregular
  · simp only [List.mem_cons, List.not_mem_nil, or_false, not_not] at hregular
    obtain ⟨value, rfl⟩ := exists_of_kind? hn
    rcases hregular with rfl | rfl | rfl | rfl
    · obtain ⟨op, ho, -⟩ := operator_of_unary h
      rw [Kind.node, ho]
      exact writeNode_unary op _
    · obtain ⟨op, ho, -⟩ := operator_of_binary h
      obtain ⟨only, hright, -⟩ := only_of_sole (by decide)
        (h.reads ⟨"right", .sole .expression, value .right⟩ (by simp [Kind.node, Node.entries]))
      rw [Kind.node, ho, hright]
      exact writeNode_binary op _ only
    · obtain ⟨only, hindices, honly⟩ := only_of_sole (by decide)
        (h.reads ⟨"property", .sole .expression, value .indices⟩
          (by simp [Kind.node, Node.entries]))
      rw [Kind.node, hindices]
      exact writeNode_member _ only _ honly
    · exact writeNode_try (checkTry_of_standsIn h)

theorem exchangeType_regular {k : Kind} (hn : n.kind? = some k) (hunary : k ≠ .unaryExpression)
    (hbinary : k ≠ .binaryExpression) : n.exchangeType = k.typeName := by
  obtain ⟨value, rfl⟩ := exists_of_kind? hn
  cases k <;> first | rfl | contradiction

/-- A node is written with the type that it was read with. -/
theorem exchangeType_of_standsIn {nodeType : NodeType} {k : Kind}
    (hkind : nodeType.kind? = some k) (hn : n.kind? = some k) (h : StandsIn nodeType.name j n) :
    n.exchangeType = nodeType.name := by
  by_cases hunary : k = .unaryExpression
  · subst hunary
    obtain ⟨value, rfl⟩ := exists_of_kind? hn
    obtain ⟨op, ho, hop⟩ := operator_of_unary h
    rw [Kind.node, ho, ← hop]
    rfl
  · by_cases hbinary : k = .binaryExpression
    · subst hbinary
      obtain ⟨value, rfl⟩ := exists_of_kind? hn
      obtain ⟨op, ho, hop⟩ := operator_of_binary h
      rw [Kind.node, ho, ← hop]
      rfl
    · rw [exchangeType_regular hn hunary hbinary]
      cases nodeType with
      | kind k' =>
        obtain rfl : k' = k := Option.some.inj hkind
        rfl
      | assignmentExpression => exact absurd (Option.some.inj hkind).symm hbinary
      | logicalExpression => exact absurd (Option.some.inj hkind).symm hbinary
      | updateExpression => exact absurd (Option.some.inj hkind).symm hunary
      | emptyStatement => simp [NodeType.kind?] at hkind

/-- The entries of a node hold what its fields hold. -/
theorem exists_entry_iff {P : Tree → Prop} :
    (∃ entry ∈ n.entries, P entry.tree) ↔ ∃ f t, (f, t) ∈ n.fields ∧ P t := by
  cases n <;> simp [Node.entries, Node.fields] <;> grind

theorem exists_literal_iff {t : Tree} :
    (∃ entry ∈ n.entries, entry.role = .literal ∧ entry.tree = t) ↔ n = .literal t := by
  cases n <;> simp [Node.entries]

/-- A number that is not finite stands in a node if it stands in an entry of it. -/
theorem nonFinite_node {d : Double} :
    (∃ entry ∈ n.entries, entry.Bad d) ↔ NonFinite (.node n) d := by
  have hfields := exists_entry_iff (n := n) (P := Within (.node (.literal (.atom (.double d)))))
  have hliteral := exists_literal_iff (n := n) (t := .atom (.double d))
  simp only [NonFinite, Within.node_iff, ← hfields, eq_comm (b := n), ← hliteral, Entry.Bad]
  grind

end Objects

section Splicing

/-- A node is taken over as it is, or it is an application with an operand that is a chain
of its operator, or an access to an object that is a chain of such accesses. -/
theorem spliced_cases (n : Node Tree) :
    n.spliced = n ∨
    (∃ left op innerLeft innerRight,
      n = .binaryExpression left (.atom op)
        (.list [.node (.binaryExpression innerLeft (.atom op) (.list innerRight))]) ∧
      n.spliced = .binaryExpression left (.atom op) (.list (innerLeft :: innerRight))) ∨
    ∃ object indices index computed,
      n = .memberExpression (.node (.memberExpression object (.list indices) (.atom computed)))
        (.list [index]) (.atom computed) ∧
      n.spliced = .memberExpression object (.list (indices ++ [index])) (.atom computed) := by
  unfold Node.spliced
  split
  · split
    · next hop =>
      subst hop
      exact .inr (.inl ⟨_, _, _, _, rfl, rfl⟩)
    · exact .inl rfl
  · split
    · next hcomputed =>
      subst hcomputed
      exact .inr (.inr ⟨_, _, _, _, rfl, rfl⟩)
    · exact .inl rfl
  · exact .inl rfl

/-- Splicing keeps the literals of a node. -/
theorem nonFinite_spliced {d : Double} :
    NonFinite (.node n.spliced) d ↔ NonFinite (.node n) d := by
  have hatom (a : Atom) : ¬NonFinite (.atom a) d := fun h => Within.not_atom h.2
  rcases spliced_cases n with h | ⟨left, op, innerLeft, innerRight, rfl, h⟩ |
    ⟨object, indices, index, computed, rfl, h⟩
  · rw [h]
  · rw [h]
    simp [← nonFinite_node, Node.entries, Entry.Bad, ← nonFinite_list, hatom]
  · rw [h]
    simp [← nonFinite_node, Node.entries, Entry.Bad, ← nonFinite_list, hatom, or_and_right,
      exists_or, or_assoc]

/-- The left operand of an application that was read is not empty. -/
theorem left_of_readAs {e : Expectation} {l o r : Tree}
    (h : readAs e j = .ok (.node (.binaryExpression l o r))) : l ≠ .missing := by
  obtain ⟨nodeType, m, -, -, hstands, -, hm⟩ := readAs_eq_node.mp h
  obtain ⟨o', r', rfl⟩ : ∃ o' r', m = .binaryExpression l o' r' := by
    rcases spliced_cases m with hs | ⟨left, op, _, _, rfl, hs⟩ | ⟨_, _, _, _, rfl, hs⟩
    · exact ⟨o, r, by rw [hm, hs]⟩
    · rw [hs] at hm
      cases hm
      exact ⟨_, _, rfl⟩
    · rw [hs] at hm
      cases hm
  obtain ⟨part, -, hkind, hread⟩ :=
    hstands.reads ⟨"left", .child .expression, l⟩ (by simp [Node.entries])
  rintro rfl
  obtain rfl := readAs_child_missing (by decide) hread
  simp [Json.kind] at hkind

/-- Splicing is undone when a node is written. -/
theorem writeNode_spliced (h : StandsIn owner j n) : writeNode n.spliced = writeNode n := by
  rcases spliced_cases n with hs | ⟨left, op, innerLeft, innerRight, rfl, hs⟩ |
    ⟨object, indices, index, computed, rfl, hs⟩
  · rw [hs]
  · obtain ⟨op', hop, -⟩ := operator_of_binary h
    have hright := h.reads _ (List.mem_of_getElem? (i := 2) rfl)
    obtain ⟨t, ⟨part, -, -, hread⟩, ht⟩ := hright
    obtain rfl : t = .node _ := (List.head_eq_of_cons_eq (Tree.list.inj ht)).symm
    rw [hs, hop]
    exact writeNode_splicedChain op' left innerLeft innerRight (left_of_readAs hread)
  · rw [hs]
    exact writeNode_splicedAccess object index (.atom computed) indices

end Splicing

section Nodes

theorem draftFields_append {a b : List (String × Draft)} {as bs : List (Text × Json)}
    (ha : draftFields a = .ok as) (hb : draftFields b = .ok bs) :
    draftFields (a ++ b) = .ok (as ++ bs) := by
  unfold draftFields at *
  rw [List.mapM_append, ha, hb]
  rfl

theorem draftFields_flatten {fields : List (List (String × Draft))}
    {owns : List (List (Text × Json))} (h : fields.mapM draftFields = .ok owns) :
    draftFields fields.flatten = .ok owns.flatten := by
  have hall := mapM_eq_ok.mp h
  clear h
  induction hall with
  | nil => rfl
  | cons hown _ ih => exact draftFields_append hown ih

/-- What is written and not read again is at most the string of a directive. -/
theorem draftFields_extras (n : Node Tree) :
    ∃ extras, draftFields n.extras = .ok extras ∧
      (extras.map Prod.fst).Sublist [Text.ofString "directive"] ∧
      ∀ f ∈ extras, f.2.Renderable := by
  unfold Node.extras
  split
  · next directive _ =>
    refine ⟨[(Text.ofString "directive", .text directive)], rfl, .refl _, ?_⟩
    simpa using Json.Renderable.text directive
  · exact ⟨[], rfl, by simp, by simp⟩

/-- What is expected of an object depends on the kind of the node in it only. -/
theorem check_congr {a : Json} (e : Expectation) (k : Option Kind) (h : a.kind = j.kind) :
    e.check a k = e.check j k := by
  cases e <;> cases k <;>
    simp only [Expectation.check, Expectation.checkNull, Expectation.checkCategory, h]

variable {e : Expectation} {nodeType : NodeType} {k : Kind} {extras : List (Text × Json)}
  {owns : List (List (Text × Json))}

/-- The object that the fields of all entries make up can be rendered. -/
theorem renderable_of_kept (hkept : List.Forall₂ (Entry.Kept owner) n.entries owns)
    (hnames : (extras.map Prod.fst).Sublist [Text.ofString "directive"])
    (hextras : ∀ f ∈ extras, f.2.Renderable) (name : String) :
    (Json.object (("type", .text name) :: (owns.flatten ++ extras))).Renderable := by
  refine .object ?_ ?_
  · have hnodup := (nodup_names n).map (f := Text.ofString) fun _ _ => Text.ofString_inj.mp
    refine hnodup.sublist ?_
    simp only [List.map_cons, List.map_append]
    exact ((sublist_names hkept).append hnames).cons_cons _
  · intro f hf
    rcases List.mem_cons.mp hf with rfl | hf
    · exact .text _
    · rcases List.mem_append.mp hf with hf | hf
      · obtain ⟨own, hown, hf⟩ := List.mem_flatten.mp hf
        obtain ⟨entry, -, hentry⟩ := exists_of_mem_right hkept hown
        exact hentry.renderable f hf
      · exact hextras f hf

/-- The node stands in the object that the fields of all its entries make up. -/
theorem standsIn_of_kept (hkept : List.Forall₂ (Entry.Kept owner) n.entries owns)
    (hnames : (extras.map Prod.fst).Sublist [Text.ofString "directive"])
    (hguarded : ∀ block, n ≠ .tryStatement block .missing (.node (.blockStatement (.list []))))
    (name : String) :
    StandsIn owner (.object (("type", .text name) :: (owns.flatten ++ extras))) n := by
  have hnodup := nodup_names n
  simp only [List.nodup_cons, List.nodup_append, List.mem_append, not_or] at hnodup
  obtain ⟨⟨htype, -⟩, hentries, -, hdirective⟩ := hnodup
  refine ⟨reads_of_kept hkept [("type", .text name)] extras hentries ?_ ?_, hguarded⟩
  · intro field hfield hmem
    have heq : Text.ofString field = Text.ofString "type" := by simpa using hmem
    exact htype (Text.ofString_inj.mp heq ▸ hfield)
  · intro field hfield hmem
    have heq := List.mem_singleton.mp (hnames.subset hmem)
    exact hdirective field hfield "directive" (by simp) (Text.ofString_inj.mp heq)

/-- A node is restored if the nodes in the parts of its object are. -/
theorem restores_of_standsIn (ih : RestoresParts j) (hobject : j.kind = .object)
    (hkind : nodeType.kind? = some k) (hn : n.kind? = some k)
    (hstands : StandsIn nodeType.name j n) (hcheck : e.check j n.kind? = .ok ()) :
    Restores e n.spliced := by
  have hentries : Settles (fun d => ∃ entry ∈ n.entries, entry.Bad d)
      (n.entries.mapM (Entry.draft n.typeName)) (List.mapM draftFields)
      (List.Forall₂ (Entry.Kept nodeType.name) n.entries) :=
    Settles.mapM n.entries fun entry hentry =>
      Entry.settled (isStrict_of_mem hentry) ih (hstands.reads entry hentry)
  rw [Restores, writeNode_spliced hstands, writeNode_of_standsIn hn hstands]
  refine (hentries.map ?_).bad_congr fun d => nonFinite_node.trans nonFinite_spliced.symm
  intro fields owns hfields hkept
  obtain ⟨extras, hextras, hnames, hrender⟩ := draftFields_extras n
  have hdraft := draftFields_append (draftFields_flatten hfields) hextras
  refine ⟨.object (("type", .text nodeType.name) :: (owns.flatten ++ extras)), ?_, ?_, ?_⟩
  · rw [id, typed, hdraft, exchangeType_of_standsIn hkind hn hstands]
    rfl
  · refine readAs_eq_node.mpr ⟨nodeType, n, ?_, ⟨k, hkind, hn⟩, ?_, ?_, rfl⟩
    · simp [Json.field?, Json.lookup?]
    · exact standsIn_of_kept hkept hnames hstands.guarded nodeType.name
    · rw [← hcheck]
      exact check_congr e n.kind? hobject.symm
  · exact renderable_of_kept hkept hnames hrender nodeType.name

/-- Every node that is read is restored. -/
theorem restores_of_readAs (h : readAs e j = .ok (.node n)) : Restores e n := by
  -- The parts of an object are smaller than it, so what is read from them is restored first.
  induction hsize : sizeOf j using Nat.strong_induction_on generalizing j e n with
  | h size ih =>
    have hparts : RestoresParts j := fun part hlt e n hread =>
      ih (sizeOf part) (hsize ▸ hlt) hread rfl
    obtain ⟨nodeType, m, -, ⟨k, hkind, hm⟩, hstands, hcheck, rfl⟩ := readAs_eq_node.mp h
    exact restores_of_standsIn hparts (kind_of_readAs h) hkind hm hstands hcheck

end Nodes

section Texts

variable {t : Tree}

theorem parsed_eq_ok {input : Text} {result : Except Json.Failure Json} :
    parsed input result = .ok j ↔ result = .ok j := by
  cases result <;> simp [parsed]

/-- What is read from a text is read from the value it is parsed as. -/
theorem readText_eq_ok {input : Text} :
    readText input = .ok t ↔ ∃ j, Json.parse input = .ok j ∧ readAs .anything j = .ok t := by
  simp only [readText, bind_eq_ok, parsed_eq_ok, read_eq_readAs]

theorem exists_of_readBytes {bytes : Bytes} (h : readBytes bytes = .ok t) :
    ∃ j, readAs .anything j = .ok t := by
  unfold readBytes at h
  split at h
  · cases h
  · simp only [bind_eq_ok, read_eq_readAs] at h
    obtain ⟨j, -, hread⟩ := h
    exact ⟨j, hread⟩

/-- A tree that was read is written and read back, unless a number in it is not finite;
then such a number is reported. -/
theorem settles_writeText (h : readAs .anything j = .ok t) (indent : Option Int) :
    (∃ d, NonFinite t d ∧ writeText indent t = .error (.unwritableNumber d.text)) ∨
      (∀ d, ¬NonFinite t d) ∧
        ∃ output, writeText indent t = .ok output ∧ readText output = .ok t := by
  have hsettles : Settles (NonFinite t) (writeOr Exchange.optional t) id
      (Keeps .anything Exchange.optional t) := by
    refine settles_slot h ?_ ?_
    · rintro n rfl
      exact restores_of_readAs h
    · rintro rfl
      exact ⟨.null, rfl, readAs_eq_ok.mpr (.inl ⟨rfl, rfl, rfl⟩), .null⟩
  rcases hsettles with ⟨d, hd, hwrite⟩ | ⟨hnone, draft, j', hwrite, hdraft, hkeeps⟩
  · refine .inl ⟨d, hd, ?_⟩
    rw [writeText, write, hwrite]
    rfl
  · have hdraft : draft = .ok j' := hdraft
    refine .inr ⟨hnone, j'.render indent, ?_, ?_⟩
    · rw [writeText, write, hwrite, hdraft]
      rfl
    · exact readText_eq_ok.mpr ⟨j', Json.parse_render indent hkeeps.renderable, hkeeps.reads⟩

/-- Whatever is read from a text, or from bytes, and whatever the indentation: writing it
fails exactly if a literal in it is a number that is not finite, such a number is then what
is reported, and a text that is written is read as the same tree. -/
theorem writeText_of_read (indent : Option Int)
    (h : (∃ input, readText input = .ok t) ∨ ∃ bytes, readBytes bytes = .ok t) :
    ((∃ e, writeText indent t = .error e) ↔ ∃ d, NonFinite t d) ∧
      (∀ e, writeText indent t = .error e → ∃ d, NonFinite t d ∧ e = .unwritableNumber d.text) ∧
      ∀ output, writeText indent t = .ok output → readText output = .ok t := by
  obtain ⟨j, hj⟩ : ∃ j, readAs .anything j = .ok t := by
    rcases h with ⟨input, h⟩ | ⟨bytes, h⟩
    · obtain ⟨j, -, hj⟩ := readText_eq_ok.mp h
      exact ⟨j, hj⟩
    · exact exists_of_readBytes h
  rcases settles_writeText hj indent with ⟨d, hd, hwrite⟩ | ⟨hnone, output, hwrite, hread⟩
  · refine ⟨⟨fun _ => ⟨d, hd⟩, fun _ => ⟨_, hwrite⟩⟩, ?_, ?_⟩
    · intro e he
      rw [hwrite] at he
      exact ⟨d, hd, (Except.error.inj he).symm⟩
    · intro output houtput
      rw [hwrite] at houtput
      cases houtput
  · refine ⟨⟨fun ⟨e, he⟩ => ?_, fun ⟨d, hd⟩ => absurd hd (hnone d)⟩, ?_, ?_⟩
    · rw [hwrite] at he
      cases he
    · intro e he
      rw [hwrite] at he
      cases he
    · intro output' houtput'
      rw [hwrite] at houtput'
      obtain rfl := Except.ok.inj houtput'
      exact hread

def holedArray : Text :=
  .ofString
    "\x7b\"type\":\"ArrayExpression\",\"elements\":[null,\x7b\"type\":\"ThisExpression\"\x7d]\x7d"

theorem readText_holedArray : readText holedArray =
    .ok (.node (.arrayExpression (.list [.missing, .node .thisExpression]))) := by
  have hparse : Json.parse holedArray = .ok (.object [("type", .text "ArrayExpression"),
      ("elements", .array [.null, .object [("type", .text "ThisExpression")]])]) := by
    cbv
  have hthis : readAs (.element "ArrayExpression" "elements" .expression true)
      (.object [("type", .text "ThisExpression")]) = .ok (.node .thisExpression) :=
    readAs_eq_node.mpr ⟨.kind .thisExpression, .thisExpression, field?_single _ _,
      ⟨_, rfl, rfl⟩, ⟨by simp [Node.entries], by simp⟩, rfl, rfl⟩
  refine readText_eq_ok.mpr ⟨_, hparse, readAs_eq_node.mpr ⟨.kind .arrayExpression,
    .arrayExpression _, ?_, ⟨_, rfl, rfl⟩, ⟨?_, by simp⟩, rfl, rfl⟩⟩
  · simp [Json.field?, Json.lookup?]
    rfl
  · simp only [Node.entries, List.forall_mem_singleton]
    exact ⟨_, _, by simp [Json.field?, Json.lookup?], .cons readAs_element_null (.cons hthis .nil),
      rfl⟩

theorem writeText_of_read_holedArray :
    ∃ t output, readText holedArray = .ok t ∧ writeText (some 2) t = .ok output ∧
      readText output = .ok t := by
  obtain ⟨hfails, -, hreads⟩ :=
    writeText_of_read (some 2) (.inl ⟨holedArray, readText_holedArray⟩)
  generalize htree : Tree.node (.arrayExpression _) = t at hfails hreads
  have hfinite : ¬∃ d, NonFinite t d := by
    simp [← htree, NonFinite, Within.node_iff, Node.fields]
  cases hwrite : writeText (some 2) t with
  | error e => exact absurd (hfails.mp ⟨e, hwrite⟩) hfinite
  | ok output => exact ⟨t, output, htree ▸ readText_holedArray, hwrite, hreads output hwrite⟩

end Texts

end ScriptTree.Exchange
