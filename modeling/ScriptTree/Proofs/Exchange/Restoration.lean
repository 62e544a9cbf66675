import ScriptTree.Proofs.Exchange.Recognition
import ScriptTree.Proofs.Exchange.Drafts
import ScriptTree.Proofs.Json.RoundTrip
import ScriptTree.Proofs.Subtree

/-!
Writing what was read, entry by entry. A field that was read is written as JSON that is read
back as the same field, unless a literal in it is a number that is not finite; then the
first pass reports such a number.
-/

namespace ScriptTree.Exchange

def NonFinite (t : Tree) (d : Double) : Prop :=
  d.isFinite = false ∧ Within (.node (.literal (.atom (.double d)))) t

section Settling

variable {α β γ δ : Type} {bad bad' : Double → Prop} {first : Except TreeError α}
  {second : α → Except TreeError β} {good : β → Prop}

/-- The passes of writing report a bad number in the first of them, or there is none and
they end with a good result. -/
def Settles (bad : Double → Prop) (first : Except TreeError α)
    (second : α → Except TreeError β) (good : β → Prop) : Prop :=
  (∃ d, bad d ∧ first = .error (.unwritableNumber d.text)) ∨
    (∀ d, ¬bad d) ∧ ∃ a b, first = .ok a ∧ second a = .ok b ∧ good b

theorem Settles.of_ok {a : α} {b : β} (hbad : ∀ d, ¬bad d) (hfirst : first = .ok a)
    (hsecond : second a = .ok b) (hgood : good b) : Settles bad first second good :=
  .inr ⟨hbad, a, b, hfirst, hsecond, hgood⟩

theorem Settles.bad_congr (h : Settles bad first second good) (hbad : ∀ d, bad d ↔ bad' d) :
    Settles bad' first second good := by
  rcases h with ⟨d, hd, hfirst⟩ | ⟨hnone, a, b, hfirst, hsecond, hgood⟩
  · exact .inl ⟨d, (hbad d).mp hd, hfirst⟩
  · exact .inr ⟨fun d hd => hnone d ((hbad d).mpr hd), a, b, hfirst, hsecond, hgood⟩

/-- What the first pass finds is put together, and the second pass follows it. -/
theorem Settles.map {f : α → γ} {second' : γ → Except TreeError δ} {good' : δ → Prop}
    (h : Settles bad first second good)
    (hmap : ∀ a b, second a = .ok b → good b → ∃ c, second' (f a) = .ok c ∧ good' c) :
    Settles bad (do return f (← first)) second' good' := by
  rcases h with ⟨d, hd, rfl⟩ | ⟨hnone, a, b, rfl, hsecond, hgood⟩
  · exact .inl ⟨d, hd, rfl⟩
  · obtain ⟨c, hc, hgood'⟩ := hmap a b hsecond hgood
    exact .of_ok hnone rfl hc hgood'

/-- The items of a list settle one after the other. -/
theorem Settles.mapM {bad : γ → Double → Prop} {f : γ → Except TreeError α}
    {good : γ → β → Prop} (xs : List γ)
    (h : ∀ x ∈ xs, Settles (bad x) (f x) second (good x)) :
    Settles (fun d => ∃ x ∈ xs, bad x d) (xs.mapM f) (List.mapM second)
      (List.Forall₂ good xs) := by
  induction xs with
  | nil => exact .of_ok (by simp) rfl rfl .nil
  | cons x xs ih =>
    have hxs := ih fun y hy => h y (List.mem_cons_of_mem x hy)
    rcases h x (by simp) with ⟨d, hd, hx⟩ | ⟨hnone, a, b, hx, ha, hb⟩
    · refine .inl ⟨d, ⟨x, by simp, hd⟩, ?_⟩
      rw [List.mapM_cons, hx, error_bind]
    · rcases hxs with ⟨d, ⟨y, hy, hd⟩, hxs⟩ | ⟨hnone', as, bs, hxs, has, hbs⟩
      · refine .inl ⟨d, ⟨y, List.mem_cons_of_mem x hy, hd⟩, ?_⟩
        rw [List.mapM_cons, hx, ok_bind, hxs, error_bind]
      · refine .of_ok ?_ (a := a :: as) (b := b :: bs) ?_ ?_ (.cons hb hbs)
        · rintro d ⟨y, hy, hd⟩
          rcases List.mem_cons.mp hy with rfl | hy
          · exact hnone d hd
          · exact hnone' d ⟨y, hy, hd⟩
        · rw [List.mapM_cons, hx, ok_bind, hxs]
          rfl
        · rw [List.mapM_cons, ha, ok_bind, has]
          rfl

end Settling

section Slots

variable {j : Json} {e : Expectation} {n : Node Tree} {t : Tree} {absent : Written}

def Restores (e : Expectation) (n : Node Tree) : Prop :=
  Settles (NonFinite (.node n)) (writeNode n) id
    (fun j => readAs e j = .ok (.node n) ∧ j.Renderable)

def RestoresParts (j : Json) : Prop :=
  ∀ part, sizeOf part < sizeOf j → ∀ e n, readAs e part = .ok (.node n) → Restores e n

theorem kind_of_readAs (h : readAs e j = .ok (.node n)) : j.kind = .object := by
  obtain ⟨nodeType, m, htype, -⟩ := readAs_eq_node.mp h
  exact kind_of_field? htype

/-- JSON that a slot is written as is read back as the slot, and is an object unless the
slot is empty. -/
structure Keeps (e : Expectation) (absent : Written) (t : Tree) (a : Json) : Prop where
  reads : readAs e a = .ok t
  renderable : a.Renderable
  kind : a.kind = .object ∨ absent = .ok (.ok a)

/-- A slot that was read is kept: what stands for an empty slot must be read as one. -/
theorem settles_slot (hread : readAs e j = .ok t) (hnode : ∀ n, t = .node n → Restores e n)
    (hmissing : t = .missing →
      ∃ a, absent = .ok (.ok a) ∧ readAs e a = .ok .missing ∧ a.Renderable) :
    Settles (NonFinite t) (writeOr absent t) id (Keeps e absent t) := by
  rcases readAs_eq_ok.mp hread with ⟨-, -, rfl⟩ | ⟨-, n, -, -, -, rfl⟩
  · obtain ⟨a, rfl, hread, hrender⟩ := hmissing rfl
    exact .of_ok (fun d hd => Within.not_missing hd.2) rfl rfl ⟨hread, hrender, .inr rfl⟩
  · rcases hnode _ rfl with herror | ⟨hnone, a, b, ha, hb, hread, hrender⟩
    · exact .inl herror
    · exact .of_ok hnone ha hb ⟨hread, hrender, .inl (kind_of_readAs hread)⟩

def emptyStatementJson : Json := .object [("type", .text "EmptyStatement")]

theorem statement_eq : statement = .ok (.ok emptyStatementJson) := rfl

theorem readAs_emptyStatement (h : e.check emptyStatementJson none = .ok ()) :
    readAs e emptyStatementJson = .ok .missing :=
  readAs_eq_ok.mpr (.inl ⟨rfl, h, rfl⟩)

theorem renderable_emptyStatement : emptyStatementJson.Renderable := by
  refine .object (by simp) ?_
  intro f hf
  obtain rfl := List.mem_singleton.mp hf
  exact .text _

end Slots

section Entries

def Entry.names (entry : Entry) : List String :=
  match entry.role with
  | .unaryOperator => ["operator", "prefix"]
  | .binaryOperator => ["operator"]
  | .literal => ["value", "regex"]
  | _ => [entry.name]

def Entry.Bad (entry : Entry) (d : Double) : Prop :=
  NonFinite entry.tree d ∨
    entry.role = .literal ∧ d.isFinite = false ∧ entry.tree = .atom (.double d)

structure Entry.Kept (owner : String) (entry : Entry) (own : List (Text × Json)) : Prop where
  names : (own.map Prod.fst).Sublist (entry.names.map Text.ofString)
  renderable : ∀ f ∈ own, f.2.Renderable
  reads : entry.Reads owner (.object own)

def Entry.Settled (owner owner' : String) (entry : Entry) : Prop :=
  Settles entry.Bad (entry.draft owner') draftFields (entry.Kept owner)

variable {j : Json} {owner owner' name : String} {t : Tree}

@[simp] theorem field?_single (name : String) (a : Json) :
    (Json.object [(Text.ofString name, a)]).field? name = some a := by
  simp [Json.field?, Json.lookup?]

/-- An entry that is held in one field. -/
theorem settled_single {entry : Entry} {w : Written} {good : Json → Prop}
    (hnames : entry.names = [entry.name]) (hliteral : entry.role ≠ .literal)
    (hdraft : entry.draft owner' = do return [(entry.name, ← w)])
    (h : Settles (NonFinite entry.tree) w id good)
    (hgood : ∀ a, good a → a.Renderable ∧ entry.Reads owner (.object [(entry.name, a)])) :
    entry.Settled owner owner' := by
  have hbad : ∀ d, NonFinite entry.tree d ↔ entry.Bad d := fun d => by
    simp [Entry.Bad, hliteral]
  rw [Entry.Settled, hdraft]
  refine (h.map ?_).bad_congr hbad
  intro draft a ha hgood'
  obtain ⟨hrender, hreads⟩ := hgood a hgood'
  have hfields : draftFields [(entry.name, draft)] = .ok [(Text.ofString entry.name, a)] := by
    have ha : draft = .ok a := ha
    rw [ha]
    rfl
  exact ⟨_, hfields, by simp [hnames], by simpa using hrender, hreads⟩

theorem settled_child {category : Category} (ih : RestoresParts j)
    (h : Entry.Reads owner j ⟨name, .child category, t⟩) :
    Entry.Settled owner owner' ⟨name, .child category, t⟩ := by
  obtain ⟨part, hpart, hkind, hread⟩ := h
  have hlt := Json.sizeOf_field?_lt hpart
  refine settled_single rfl (by simp) rfl (settles_slot hread ?_ ?_) ?_
  · rintro n rfl
    exact ih part hlt _ n hread
  · rintro rfl
    by_cases hcategory : category = .statement
    · refine ⟨emptyStatementJson, if_pos hcategory, readAs_emptyStatement ?_,
        renderable_emptyStatement⟩
      simp [Expectation.check, Expectation.checkCategory, hcategory]
    · obtain rfl := readAs_child_missing hcategory hread
      simp [Json.kind] at hkind
  · rintro a ⟨hread', hrender, hobject⟩
    refine ⟨hrender, a, field?_single name a, ?_, hread'⟩
    rcases hobject with hobject | habsent
    · simpa using hobject
    · split at habsent
      · obtain rfl := Except.ok.inj (Except.ok.inj habsent)
        simp [Json.kind]
      · exact absurd habsent (by simp [required])

theorem settled_optional {category : Category} (ih : RestoresParts j)
    (h : Entry.Reads owner j ⟨name, .optional category, t⟩) :
    Entry.Settled owner owner' ⟨name, .optional category, t⟩ := by
  obtain ⟨part, hpart, hkind, hread⟩ := h
  have hlt := Json.sizeOf_field?_lt hpart
  refine settled_single rfl (by simp) rfl (settles_slot hread ?_ ?_) ?_
  · rintro n rfl
    exact ih part hlt _ n hread
  · rintro rfl
    exact ⟨.null, rfl, readAs_child_null.mpr rfl, .null⟩
  · rintro a ⟨hread', hrender, hobject⟩
    refine ⟨hrender, a, field?_single name a, ?_, hread'⟩
    rcases hobject with hobject | habsent
    · simp [hobject]
    · obtain rfl : Json.null = a := Except.ok.inj (Except.ok.inj habsent)
      simp [Json.kind]

theorem nonFinite_list {items : List Tree} {d : Double} :
    (∃ t ∈ items, NonFinite t d) ↔ NonFinite (.list items) d := by
  simp only [NonFinite, Within.list_iff]
  constructor
  · rintro ⟨t, ht, hd, h⟩
    exact ⟨hd, t, ht, h⟩
  · rintro ⟨hd, t, ht, h⟩
    exact ⟨t, ht, hd, h⟩

/-- An element is read as nothing where a statement may be empty, or from null in a hole. -/
theorem readAs_element_missing {category : Category} {holes : Bool}
    (h : readAs (.element owner name category holes) j = .ok .missing) :
    category = .statement ∨ j = .null ∧ holes = true := by
  rcases readAs_eq_ok.mp h with ⟨-, hcheck, -⟩ | ⟨_, _, -, -, -, h⟩
  · simp only [Expectation.check, bind_eq_ok, Expectation.checkNull, Expectation.checkCategory]
      at hcheck
    obtain ⟨_, hnull, hcategory⟩ := hcheck
    by_cases hkind : j.kind = .null
    · refine .inr ⟨kind_eq_null hkind, ?_⟩
      by_contra hholes
      simp [hkind, hholes] at hnull
    · by_contra hstatement
      simp_all
  · exact absurd h (by simp)

theorem readAs_element_null {category : Category} :
    readAs (.element owner name category true) .null = .ok .missing := by
  simp [readAs_eq_ok, layer, Expectation.check, Expectation.checkNull, Expectation.checkCategory,
    Json.kind]

/-- The elements of an array are written as an array with the same elements. -/
theorem settles_items {category : Category} {holes : Bool} {items : List Json}
    {trees : List Tree} (owner' : String) (ih : RestoresParts j)
    (hlt : ∀ item ∈ items, sizeOf item < sizeOf j)
    (h : ReadsAll owner name category holes items trees) :
    Settles (NonFinite (.list trees))
      (writeArray (absentElement owner' name category holes) (.list trees)) id
      (fun a => ∃ items', a = .array items' ∧ ReadsAll owner name category holes items' trees ∧
        a.Renderable) := by
  have hslots : ∀ t ∈ trees, Settles (NonFinite t)
      (writeOr (absentElement owner' name category holes) t) id
      (Keeps (.element owner name category holes)
        (absentElement owner' name category holes) t) := by
    intro t ht
    obtain ⟨item, hitem, hread⟩ := exists_of_mem_right h ht
    refine settles_slot hread ?_ ?_
    · rintro n rfl
      exact ih item (hlt item hitem) _ n hread
    · rintro rfl
      by_cases hcategory : category = .statement
      · refine ⟨emptyStatementJson, by rw [absentElement, if_pos hcategory, statement_eq],
          readAs_emptyStatement ?_, renderable_emptyStatement⟩
        simp [Expectation.check, Expectation.checkNull, Expectation.checkCategory, hcategory,
          Json.kind, emptyStatementJson]
      · rcases readAs_element_missing hread with hstatement | ⟨-, rfl⟩
        · exact absurd hstatement hcategory
        · exact ⟨.null, by simp [absentElement, hcategory, Exchange.optional], readAs_element_null,
            .null⟩
  rw [writeArray, writeAll_eq_mapM]
  refine ((Settles.mapM trees hslots).map ?_).bad_congr fun d => nonFinite_list
  intro as items' has hkeeps
  refine ⟨.array items', ?_, items', rfl, ?_, ?_⟩
  · rw [id, drafts, has]
    rfl
  · exact (List.Forall₂.flip hkeeps).imp fun a b hab => hab.reads
  · refine .array fun item hitem => ?_
    obtain ⟨t, -, hkeep⟩ := exists_of_mem_right hkeeps hitem
    exact hkeep.renderable

theorem settled_elements {category : Category} {holes : Bool} (ih : RestoresParts j)
    (h : Entry.Reads owner j ⟨name, .elements category holes, t⟩) :
    Entry.Settled owner owner' ⟨name, .elements category holes, t⟩ := by
  obtain ⟨items, trees, hitems, hread, htree⟩ := h
  obtain rfl : t = .list trees := htree
  have hlt : ∀ item ∈ items, sizeOf item < sizeOf j := fun item hitem => by
    have hfield := Json.sizeOf_field?_lt hitems
    have hmember := List.sizeOf_lt_of_mem hitem
    simp at hfield
    omega
  refine settled_single rfl (by simp) rfl (settles_items owner' ih hlt hread) ?_
  rintro _ ⟨items', rfl, hread', hrender⟩
  exact ⟨hrender, items', trees, field?_single name _, hread', rfl⟩

theorem settled_sole {category : Category} (hcategory : category ≠ .statement)
    (ih : RestoresParts j) (h : Entry.Reads owner j ⟨name, .sole category, t⟩) :
    Entry.Settled owner owner' ⟨name, .sole category, t⟩ := by
  obtain ⟨only, ⟨part, hpart, hkind, hread⟩, htree⟩ := h
  obtain rfl : t = .list [only] := htree
  have hlt := Json.sizeOf_field?_lt hpart
  have hbad (d : Double) : NonFinite only d ↔ NonFinite (.list [only]) d := by
    simp [← nonFinite_list]
  have habsent : only ≠ .missing := by
    rintro rfl
    obtain rfl := readAs_child_missing hcategory hread
    simp [Json.kind] at hkind
  refine settled_single rfl (by simp) rfl
    ((settles_slot hread ?_ fun hmissing => absurd hmissing habsent).bad_congr hbad) ?_
  · rintro n rfl
    exact ih part hlt _ n hread
  · rintro a ⟨hread', hrender, hobject | hrequired⟩
    · exact ⟨hrender, only, ⟨a, field?_single name a, by simp [hobject], hread'⟩, rfl⟩
    · exact absurd hrequired (by simp [required])

/-- The statements of a block are written as a block with the same statements. -/
theorem settles_block {trees : List Tree} (ih : RestoresParts j)
    (h : ReadsBlock owner j name trees) :
    Settles (NonFinite (.list trees))
      (do return block (← writeArray statement (.list trees))) id
      (fun a => a.Renderable ∧ ReadsBlock owner (.object [(name, a)]) name trees) := by
  obtain ⟨outer, items, houter, -, hbody, hread⟩ := h
  have hlt : ∀ item ∈ items, sizeOf item < sizeOf j := fun item hitem => by
    have hfield := Json.sizeOf_field?_lt houter
    have hfield' := Json.sizeOf_field?_lt hbody
    have hmember := List.sizeOf_lt_of_mem hitem
    simp at hfield'
    omega
  refine (settles_items owner ih hlt hread).map ?_
  rintro draft _ hdraft ⟨items', rfl, hread', hrender⟩
  have hdraft : draft = .ok (.array items') := hdraft
  refine ⟨.object [("type", .text "BlockStatement"), ("body", .array items')], ?_, ?_, ?_⟩
  · rw [hdraft]
    rfl
  · refine .object (by simp) ?_
    simp only [List.forall_mem_cons, List.not_mem_nil, false_implies, implies_true, and_true]
    exact ⟨.text _, hrender⟩
  · exact ⟨_, items', field?_single name _, by simp [Json.field?, Json.lookup?],
      by simp [Json.field?, Json.lookup?], hread'⟩

theorem settled_statements (ih : RestoresParts j)
    (h : Entry.Reads owner j ⟨name, .statements, t⟩) :
    Entry.Settled owner owner' ⟨name, .statements, t⟩ := by
  obtain ⟨trees, hblock, htree⟩ := h
  obtain rfl : t = .list trees := htree
  refine settled_single rfl (by simp) (by simp [Entry.draft]) (settles_block ih hblock) ?_
  rintro a ⟨hrender, hread⟩
  exact ⟨hrender, trees, hread, rfl⟩

theorem nonFinite_block {trees : List Tree} {d : Double} :
    NonFinite (.list trees) d ↔ NonFinite (.node (.blockStatement (.list trees))) d := by
  simp [NonFinite, Within.node_iff, Node.fields]

theorem settled_block (ih : RestoresParts j) (h : Entry.Reads owner j ⟨name, .block, t⟩) :
    Entry.Settled owner owner' ⟨name, .block, t⟩ := by
  obtain ⟨trees, hblock, htree⟩ := h
  obtain rfl : t = .node (.blockStatement (.list trees)) := htree
  refine settled_single rfl (by simp) (by simp [Entry.draft, writeBlock])
    ((settles_block ih hblock).bad_congr fun d => nonFinite_block) ?_
  rintro a ⟨hrender, hread⟩
  exact ⟨hrender, trees, hread, rfl⟩

theorem hasFinalizer_list (trees : List Tree) :
    Tree.hasFinalizer (.node (.blockStatement (.list trees))) = .ok !trees.isEmpty := rfl

theorem settled_finalizer (ih : RestoresParts j)
    (h : Entry.Reads owner j ⟨name, .finalizer, t⟩) :
    Entry.Settled owner owner' ⟨name, .finalizer, t⟩ := by
  obtain ⟨trees, htree, hblock⟩ : ∃ trees, t = .node (.blockStatement (.list trees)) ∧
      (trees = [] ∨ ReadsBlock owner j name trees) := by
    rcases h with ⟨-, htree⟩ | ⟨trees, hblock, htree⟩
    · exact ⟨[], htree, .inl rfl⟩
    · exact ⟨trees, htree, .inr hblock⟩
  subst htree
  by_cases hempty : trees = []
  · subst hempty
    have hbad : ∀ d, ¬NonFinite (.node (.blockStatement (.list []))) d := fun d => by
      simp [← nonFinite_block, ← nonFinite_list]
    have hnull : Settles (NonFinite (.node (.blockStatement (.list [])))) optional id (· = .null) :=
      .of_ok hbad rfl rfl rfl
    refine settled_single rfl (by simp) rfl hnull ?_
    rintro a rfl
    exact ⟨.null, .inl ⟨field?_single name _, rfl⟩⟩
  · have hblock := hblock.resolve_left hempty
    have hfinal : (!trees.isEmpty) = true := by simpa using hempty
    refine settled_single rfl (by simp)
      (by simp [Entry.draft, writeBlock, hasFinalizer_list, hfinal])
      ((settles_block ih hblock).bad_congr fun d => nonFinite_block) ?_
    rintro a ⟨hrender, hread⟩
    exact ⟨hrender, .inr ⟨trees, hread, rfl⟩⟩

theorem kind?_spliced (n : Node Tree) : n.spliced.kind? = n.kind? := by
  unfold Node.spliced
  split
  · split <;> rfl
  · split <;> rfl
  · rfl

/-- The type of an object tells the kind of the node that is read from it. -/
theorem hasType_iff {e : Expectation} {n : Node Tree} {k : Kind} (h : readAs e j = .ok (.node n))
    (hunary : k ≠ .unaryExpression) (hbinary : k ≠ .binaryExpression) :
    hasType j k.typeName = true ↔ n.kind? = some k := by
  obtain ⟨nodeType, m, htype, ⟨k', hnode, hm⟩, -, -, rfl⟩ := readAs_eq_node.mp h
  have hname : hasType j k.typeName = true ↔ nodeType.name = k.typeName := by
    simp [hasType, htype]
  rw [hname, kind?_spliced, hm, ← hnode]
  constructor
  · intro heq
    have hfound := ofName?_name nodeType
    rw [heq, ofName?_typeName] at hfound
    obtain rfl := Option.some.inj hfound
    rfl
  · intro heq
    cases nodeType with
    | kind k'' =>
      obtain rfl : k'' = k := Option.some.inj heq
      rfl
    | assignmentExpression => exact absurd (Option.some.inj heq).symm hbinary
    | logicalExpression => exact absurd (Option.some.inj heq).symm hbinary
    | updateExpression => exact absurd (Option.some.inj heq).symm hunary
    | emptyStatement => exact absurd heq (by simp [NodeType.kind?])

theorem chooseByType_congr {α : Type} {e : Expectation} {a : Json} {n : Node Tree} {k : Kind}
    (value : α) (h : readAs e j = .ok (.node n)) (ha : readAs e a = .ok (.node n))
    (hunary : k ≠ .unaryExpression) (hbinary : k ≠ .binaryExpression) :
    chooseByType a k.typeName value = chooseByType j k.typeName value := by
  have htype : hasType a k.typeName = hasType j k.typeName := by
    rw [Bool.eq_iff_iff, hasType_iff ha hunary hbinary, hasType_iff h hunary hbinary]
  rw [chooseByType, chooseByType, htype]

theorem value?_chooseByType {α : Type} (a : Json) (first : String) (value : α) :
    (chooseByType a first value).value? = some value := by
  unfold chooseByType
  split <;> rfl

/-- The sorts of entries that a choice is made for do not let an object be read as nothing. -/
def Role.IsStrict : Role → Prop
  | .choice e first _ => (∀ part, part.kind = .object → e.check part none ≠ .ok ()) ∧
    first ≠ .unaryExpression ∧ first ≠ .binaryExpression
  | .sole category => category ≠ .statement
  | _ => True

theorem settled_choice {e : Expectation} {first : Kind} {mayBeNull : Bool}
    (hstrict : Role.IsStrict (.choice e first mayBeNull)) (ih : RestoresParts j)
    (h : Entry.Reads owner j ⟨name, .choice e first mayBeNull, t⟩) :
    Entry.Settled owner owner' ⟨name, .choice e first mayBeNull, t⟩ := by
  obtain ⟨hcheck, hunary, hbinary⟩ := hstrict
  rcases h with ⟨hnull, -, htree⟩ | ⟨part, chosen, hpart, hobject, hread, htree⟩
  · obtain rfl : mayBeNull = true := hnull
    obtain rfl : t = .choice .empty := htree
    have hempty : Settles (NonFinite (.choice .empty)) optional id (· = .null) :=
      .of_ok (fun d hd => by simp [NonFinite, Choice.value?] at hd) rfl rfl rfl
    refine settled_single rfl (by simp) rfl hempty ?_
    rintro a rfl
    exact ⟨.null, .inl ⟨rfl, field?_single name _, rfl⟩⟩
  · obtain rfl : t = .choice (chooseByType part first.typeName chosen) := htree
    have hbad (d : Double) : NonFinite chosen d ↔
        NonFinite (.choice (chooseByType part first.typeName chosen)) d := by
      simp [NonFinite, value?_chooseByType]
    have hdraft : Entry.draft owner' ⟨name, .choice e first mayBeNull,
        .choice (chooseByType part first.typeName chosen)⟩ =
        do return [(name, ← writeOr optional chosen)] := by
      unfold chooseByType
      split <;> cases mayBeNull <;> rfl
    rcases readAs_eq_ok.mp hread with ⟨-, hmissing, -⟩ | ⟨-, m, -, -, -, rfl⟩
    · exact absurd hmissing (hcheck part hobject)
    · have hrestores := ih part (Json.sizeOf_field?_lt hpart) e _ hread
      refine settled_single rfl (by simp) hdraft (hrestores.bad_congr hbad) ?_
      rintro a ⟨hread', hrender⟩
      refine ⟨hrender, .inr ⟨a, _, field?_single name a, kind_of_readAs hread', hread', ?_⟩⟩
      exact congrArg _ (chooseByType_congr _ hread hread' hunary hbinary).symm

/-- An entry whose tree is a value without parts. -/
theorem settled_atom {entry : Entry} {a : Atom} {value : Json}
    (hnames : entry.names = [entry.name]) (hliteral : entry.role ≠ .literal)
    (htree : entry.tree = .atom a)
    (hdraft : entry.draft owner' = .ok [(entry.name, .ok value)]) (hrender : value.Renderable)
    (hreads : entry.Reads owner (.object [(entry.name, value)])) :
    entry.Settled owner owner' := by
  have hvalue : Settles (NonFinite entry.tree) (.ok (.ok value) : Written) id (· = value) :=
    .of_ok (fun d hd => by simp [NonFinite, htree] at hd) rfl rfl rfl
  refine settled_single hnames hliteral hdraft hvalue ?_
  rintro _ rfl
  exact ⟨hrender, hreads⟩

theorem settled_name (h : Entry.Reads owner j ⟨name, .name, t⟩) :
    Entry.Settled owner owner' ⟨name, .name, t⟩ := by
  obtain ⟨text, -, htree⟩ := h
  obtain rfl : t = .ofText text := htree
  exact settled_atom rfl (by simp) rfl rfl (.text text) ⟨text, field?_single name _, rfl⟩

theorem settled_flag (h : Entry.Reads owner j ⟨name, .flag, t⟩) :
    Entry.Settled owner owner' ⟨name, .flag, t⟩ := by
  obtain ⟨b, -, htree⟩ := h
  obtain rfl : t = .atom (.bool b) := htree
  exact settled_atom rfl (by simp) rfl rfl (.bool b) ⟨b, field?_single name _, rfl⟩

theorem settled_propertyKind (h : Entry.Reads owner j ⟨name, .propertyKind, t⟩) :
    Entry.Settled owner owner' ⟨name, .propertyKind, t⟩ := by
  obtain ⟨-, kind, -, -, htree⟩ := h
  obtain rfl : t = .ofMember (.propertyKind kind) := htree
  exact settled_atom rfl (by simp) rfl rfl (.text _)
    ⟨kind.key, kind, field?_single name _, kind.ofKey?_key, rfl⟩

theorem settled_variableKind (h : Entry.Reads owner j ⟨name, .variableKind, t⟩) :
    Entry.Settled owner owner' ⟨name, .variableKind, t⟩ := by
  obtain ⟨-, kind, -, -, htree⟩ := h
  obtain rfl : t = .ofMember (.variableKind kind) := htree
  exact settled_atom rfl (by simp) rfl rfl (.text _)
    ⟨kind.key, kind, field?_single name _, kind.ofKey?_key, rfl⟩

theorem nodeType_of_ofExchange? {token : Text} {op : BinaryOperator}
    (h : BinaryOperator.ofExchange? owner token = some op) : op.nodeType = owner := by
  have hfound := List.find?_some h
  simp only [Bool.and_eq_true, beq_iff_eq] at hfound
  exact hfound.1

theorem nodeType_of_unaryExchange? {token : Text} {before : Bool} {op : UnaryOperator}
    (h : UnaryOperator.ofExchange? owner token before = some op) : op.nodeType = owner := by
  have hfound := List.find?_some h
  simp only [Bool.and_eq_true, beq_iff_eq] at hfound
  exact hfound.1.1

theorem settled_binaryOperator (h : Entry.Reads owner j ⟨name, .binaryOperator, t⟩) :
    Entry.Settled owner owner' ⟨name, .binaryOperator, t⟩ := by
  obtain ⟨_, op, -, hop, htree⟩ := h
  obtain rfl : t = .ofMember (.binaryOperator op) := htree
  have hback : BinaryOperator.ofExchange? owner op.token = some op := by
    rw [← nodeType_of_ofExchange? hop, ofExchange?_token]
  have hdraft : Entry.draft owner' ⟨name, .binaryOperator, .ofMember (.binaryOperator op)⟩ =
      .ok [("operator", .ok (.text op.token))] := by
    simp [Entry.draft, binaryOperator_ofMember]
    rfl
  refine .of_ok (fun d hd => ?_) hdraft rfl ⟨by simp [Entry.names], ?_, ?_⟩
  · simp [Entry.Bad, NonFinite, Tree.ofMember] at hd
  · simpa using .text _
  · exact ⟨op.token, op, field?_single _ _, hback, rfl⟩

theorem settled_unaryOperator (h : Entry.Reads owner j ⟨name, .unaryOperator, t⟩) :
    Entry.Settled owner owner' ⟨name, .unaryOperator, t⟩ := by
  obtain ⟨_, _, op, -, -, hop, htree⟩ := h
  obtain rfl : t = .ofMember (.unaryOperator op) := htree
  have hback : UnaryOperator.ofExchange? owner op.token op.isBefore = some op := by
    rw [← nodeType_of_unaryExchange? hop]
    cases op <;> decide
  have hdraft : Entry.draft owner' ⟨name, .unaryOperator, .ofMember (.unaryOperator op)⟩ =
      .ok [("operator", .ok (.text op.token)), ("prefix", .ok (.bool op.isBefore))] := by
    simp [Entry.draft, unaryOperator_ofMember]
    rfl
  have hfields : draftFields [("operator", .ok (.text op.token)),
      ("prefix", .ok (.bool op.isBefore))] =
      .ok [("operator", .text op.token), ("prefix", .bool op.isBefore)] := rfl
  refine .of_ok (fun d hd => ?_) hdraft hfields ⟨by simp [Entry.names], ?_, ?_⟩
  · simp [Entry.Bad, NonFinite, Tree.ofMember] at hd
  · simp only [List.forall_mem_cons, List.not_mem_nil, false_implies, implies_true, and_true]
    exact ⟨.text _, .bool _⟩
  · exact ⟨op.token, op.isBefore, op, by simp [Json.field?, Json.lookup?],
      by simp [Json.field?, Json.lookup?], hback, rfl⟩

theorem ofText_text (flags : RegexFlags) : RegexFlags.ofText flags.text = .ok flags := by
  obtain ⟨g, i, m, u, y⟩ := flags
  cases g <;> cases i <;> cases m <;> cases u <;> cases y <;> decide

theorem settled_regex (pattern : Text) (flags : RegexFlags) :
    Entry.Settled owner owner'
      ⟨name, .literal, .regex (.ofText pattern) (.atom (.flags flags))⟩ := by
  let regex : Json := .object [("pattern", .text pattern), ("flags", .text flags.text)]
  have hdraft : Entry.draft owner'
      ⟨name, .literal, .regex (.ofText pattern) (.atom (.flags flags))⟩ =
      .ok [("value", .ok .null), ("regex", .ok regex)] := rfl
  have hfields : draftFields [("value", .ok .null), ("regex", .ok regex)] =
      .ok [("value", .null), ("regex", regex)] := rfl
  have hregex : regex.Renderable := by
    refine .object (by simp) ?_
    simp only [List.forall_mem_cons, List.not_mem_nil, false_implies, implies_true, and_true]
    exact ⟨.text _, .text _⟩
  refine .of_ok (fun d hd => ?_) hdraft hfields ⟨by simp [Entry.names], ?_, .inl ?_⟩
  · simp [Entry.Bad, NonFinite, Tree.ofText] at hd
  · simp only [List.forall_mem_cons, List.not_mem_nil, false_implies, implies_true, and_true]
    exact ⟨.null, hregex⟩
  · exact ⟨pattern, flags, ⟨regex, flags.text, by simp [Json.field?, Json.lookup?],
      by simp [regex, Json.field?, Json.lookup?], by simp [regex, Json.field?, Json.lookup?],
      ofText_text flags⟩, rfl⟩

/-- A literal that is not a regular expression is written as its value. -/
theorem settled_scalar {value : Json} (hkind : value.kind ∈ [.null, .string, .boolean, .number])
    (hdraft : Entry.draft owner' ⟨name, .literal, scalarTree (scalarOf value)⟩ =
      .ok [("value", .ok value)])
    (hbad : ∀ d, ¬Entry.Bad ⟨name, .literal, scalarTree (scalarOf value)⟩ d)
    (hrender : value.Renderable) :
    Entry.Settled owner owner' ⟨name, .literal, scalarTree (scalarOf value)⟩ := by
  have hfields : draftFields [("value", .ok value)] = .ok [("value", value)] := rfl
  refine .of_ok hbad hdraft hfields ⟨by simp [Entry.names], by simpa using hrender, .inr ?_⟩
  exact ⟨by simp [Json.field?, Json.lookup?], value, field?_single _ _, hkind, rfl⟩

theorem settled_literal (h : Entry.Reads owner j ⟨name, .literal, t⟩) :
    Entry.Settled owner owner' ⟨name, .literal, t⟩ := by
  rcases h with ⟨pattern, flags, -, htree⟩ | ⟨-, value, -, hkind, htree⟩
  · obtain rfl : t = _ := htree
    exact settled_regex pattern flags
  · obtain rfl : t = _ := htree
    cases value with
    | null =>
      refine settled_scalar hkind rfl (fun d hd => ?_) .null
      simp [Entry.Bad, NonFinite, scalarOf, scalarTree] at hd
    | bool b =>
      refine settled_scalar hkind rfl (fun d hd => ?_) (.bool b)
      simp [Entry.Bad, NonFinite, scalarOf, scalarTree] at hd
    | int i =>
      refine settled_scalar hkind rfl (fun d hd => ?_) (.int i)
      simp [Entry.Bad, NonFinite, scalarOf, scalarTree] at hd
    | text text =>
      refine settled_scalar hkind rfl (fun d hd => ?_) (.text text)
      simp [Entry.Bad, NonFinite, scalarOf, scalarTree] at hd
    | double d =>
      cases hfinite : d.isFinite with
      | true =>
        refine settled_scalar hkind ?_ (fun d' hd => ?_) (.double hfinite)
        · simp [Entry.draft, scalarOf, scalarTree, scalarDraft, hfinite]
        · simp [Entry.Bad, NonFinite, scalarOf, scalarTree] at hd
          simp [← hd.2, hfinite] at hd
      | false =>
        refine .inl ⟨d, .inr ⟨rfl, hfinite, rfl⟩, ?_⟩
        simp [Entry.draft, scalarOf, scalarTree, scalarDraft, hfinite]
    | array items => simp [Json.kind] at hkind
    | object fields => simp [Json.kind] at hkind

/-- Every entry that was found is written as fields in which it is found again. -/
theorem Entry.settled {entry : Entry} (hstrict : entry.role.IsStrict) (ih : RestoresParts j)
    (h : entry.Reads owner j) : entry.Settled owner owner' := by
  obtain ⟨name, role, t⟩ := entry
  cases role with
  | child category => exact settled_child ih h
  | optional category => exact settled_optional ih h
  | elements category holes => exact settled_elements ih h
  | sole category => exact settled_sole hstrict ih h
  | statements => exact settled_statements ih h
  | block => exact settled_block ih h
  | finalizer => exact settled_finalizer ih h
  | choice e first mayBeNull => exact settled_choice hstrict ih h
  | name => exact settled_name h
  | flag => exact settled_flag h
  | propertyKind => exact settled_propertyKind h
  | variableKind => exact settled_variableKind h
  | unaryOperator => exact settled_unaryOperator h
  | binaryOperator => exact settled_binaryOperator h
  | literal => exact settled_literal h

end Entries

end ScriptTree.Exchange
