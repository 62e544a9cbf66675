import ScriptTree.Proofs.Exchange.Format

/-!
When an object is read. Each step that takes an object apart finds what the format asks
for, so an object of a type is read as a node exactly when it holds the entries of the node.
-/

namespace ScriptTree.Exchange

variable {j : Json} {owner field : String} {t : Tree} {n : Node Tree}

section Reading

/-- What a value is read as: nothing, or the node that its layer and its children make. -/
theorem readAs_eq_ok {e : Expectation} :
    readAs e j = .ok t ↔
      (layer j = .ok none ∧ e.check j none = .ok () ∧ t = .missing) ∨
      ∃ shape n, layer j = .ok (some shape) ∧
        (shape.traverse fun branch => branch.read fun slot => readSlot slot) = .ok n ∧
        e.check j n.kind? = .ok () ∧ t = .node n.spliced := by
  rw [readAs, readSlot]
  simp only [bind_eq_ok]
  constructor
  · rintro ⟨_ | shape, hlayer, h⟩
    · simp only [bind_eq_ok, pure_eq_ok] at h
      obtain ⟨_, hcheck, rfl⟩ := h
      exact .inl ⟨hlayer, hcheck, rfl⟩
    · simp only [bind_eq_ok, pure_eq_ok] at h
      obtain ⟨n, hread, _, hcheck, rfl⟩ := h
      exact .inr ⟨shape, n, hlayer, hread, hcheck, rfl⟩
  · rintro (⟨hlayer, hcheck, rfl⟩ | ⟨shape, n, hlayer, hread, hcheck, rfl⟩)
    · exact ⟨none, hlayer, bind_eq_ok.mpr ⟨_, hcheck, rfl⟩⟩
    · exact ⟨some shape, hlayer, bind_eq_ok.mpr ⟨n, hread, bind_eq_ok.mpr ⟨_, hcheck, rfl⟩⟩⟩

theorem kind_eq_null {part : Json} (h : part.kind = .null) : part = .null := by
  cases part <;> simp [Json.kind] at h
  rfl

/-- Where only a statement may be empty, nothing is read from null alone. -/
theorem readAs_child_missing {category : Category} (hcategory : category ≠ .statement)
    (h : readAs (.child owner field category) j = .ok .missing) : j = .null := by
  rcases readAs_eq_ok.mp h with ⟨-, hcheck, -⟩ | ⟨_, _, -, -, -, h⟩
  · simp only [Expectation.check, Expectation.checkCategory] at hcheck
    split at hcheck
    · next hnull => exact kind_eq_null (by simpa [hcategory] using hnull)
    · exact absurd hcheck (by simp)
  · exact absurd h (by simp)

theorem readAs_child_null {category : Category} :
    readAs (.child owner field category) .null = .ok t ↔ t = .missing := by
  simp [readAs_eq_ok, layer, Expectation.check, Expectation.checkCategory, Json.kind]

end Reading

section Branches

theorem require_eq_ok {kinds : List Json.Kind} {p : Part j} :
    require j owner field kinds = .ok p ↔ j.field? field = some p.val ∧ p.val.kind ∈ kinds := by
  constructor
  · intro h
    unfold require at h
    split at h
    · next part hpart =>
      split at h
      · next hkind =>
        obtain rfl := Except.ok.inj h
        exact ⟨hpart, hkind⟩
      · exact absurd h (by simp)
    · exact absurd h (by simp)
  · rintro ⟨hpart, hkind⟩
    exact require_eq hpart hkind

theorem requireText_eq_ok {text : Text} :
    requireText j owner field = .ok text ↔ j.field? field = some (.text text) := by
  refine ⟨fun h => ?_, requireText_eq⟩
  simp only [requireText, bind_eq_ok, require_eq_ok] at h
  obtain ⟨p, ⟨hpart, hkind⟩, h⟩ := h
  cases hp : p.val <;> simp [hp, Json.kind] at h hkind
  rw [hpart, hp, h]

theorem requireFlag_eq_ok {b : Bool} :
    requireFlag j owner field = .ok b ↔ j.field? field = some (.bool b) := by
  refine ⟨fun h => ?_, requireFlag_eq⟩
  simp only [requireFlag, bind_eq_ok, require_eq_ok] at h
  obtain ⟨p, ⟨hpart, hkind⟩, h⟩ := h
  cases hp : p.val <;> simp [hp, Json.kind] at h hkind
  rw [hpart, hp, h]

def Branches (branch : Except ReadError (Branch (Slot (sizeOf j)))) (t : Tree) : Prop :=
  ∃ b, branch = .ok b ∧ b.read (fun slot => readSlot slot) = .ok t

theorem branches_part {kinds : List Json.Kind} {e : Expectation} :
    Branches (do
      let part ← require j owner field kinds
      return .one (.json part.val e part.property)) t ↔ ReadsChild j e kinds field t := by
  simp only [Branches, bind_eq_ok, require_eq_ok, pure_eq_ok]
  constructor
  · rintro ⟨_, ⟨p, ⟨hpart, hkind⟩, rfl⟩, hread⟩
    exact ⟨p.val, hpart, hkind, by rwa [Branch.read, readSlot_json] at hread⟩
  · rintro ⟨part, hpart, hkind, hread⟩
    refine ⟨_, ⟨⟨part, Json.sizeOf_field?_lt hpart⟩, ⟨hpart, hkind⟩, rfl⟩, ?_⟩
    rwa [Branch.read, readSlot_json]

theorem branches_requireChild {category : Category} :
    Branches (requireChild j owner field category) t ↔
      Entry.Reads owner j ⟨field, .child category, t⟩ :=
  branches_part

theorem branches_optionalChild {category : Category} :
    Branches (optionalChild j owner field category) t ↔
      Entry.Reads owner j ⟨field, .optional category, t⟩ :=
  branches_part

theorem map_partsOf {items : List Json} (h : sizeOf (Json.array items) < sizeOf j) :
    (partsOf j ⟨.array items, h⟩).map Subtype.val = items := by
  simp only [partsOf, List.map_map]
  exact List.attach_map_subtype_val items

/-- Reading the elements of an array is reading its items. -/
theorem mapM_elementsOf {items : List Json} (h : sizeOf (Json.array items) < sizeOf j)
    (category : Category) (holes : Bool) :
    (elementsOf j owner field category holes (partsOf j ⟨.array items, h⟩)).mapM
        (fun slot => readSlot slot) =
      items.mapM (readAs (.element owner field category holes)) := by
  conv => rhs; rw [← map_partsOf h]
  rw [elementsOf, List.mapM_map, List.mapM_map]
  congr 1
  funext p
  exact readSlot_json p.val _ p.property

theorem kind_eq_array {part : Json} (h : part.kind ∈ [Json.Kind.array]) :
    ∃ items, part = .array items := by
  cases part <;> simp [Json.kind] at h
  exact ⟨_, rfl⟩

theorem branches_requireElements {category : Category} {holes : Bool} :
    Branches (requireElements j owner field category holes) t ↔
      Entry.Reads owner j ⟨field, .elements category holes, t⟩ := by
  simp only [Branches, requireElements, bind_eq_ok, require_eq_ok, pure_eq_ok]
  constructor
  · rintro ⟨_, ⟨⟨part, hlt⟩, ⟨hpart, hkind⟩, rfl⟩, hread⟩
    obtain ⟨items, rfl⟩ := kind_eq_array hkind
    simp only [Branch.read, bind_eq_ok, pure_eq_ok, mapM_elementsOf] at hread
    obtain ⟨trees, hread, rfl⟩ := hread
    exact ⟨items, trees, hpart, mapM_eq_ok.mp hread, rfl⟩
  · rintro ⟨items, trees, hpart, hread, htree⟩
    refine ⟨_, ⟨⟨.array items, Json.sizeOf_field?_lt hpart⟩, ⟨hpart, by simp [Json.kind]⟩, rfl⟩, ?_⟩
    simp only [Branch.read, bind_eq_ok, pure_eq_ok, mapM_elementsOf]
    exact ⟨trees, mapM_eq_ok.mpr hread, htree.symm⟩

theorem blockStatements?_eq_some {block : Json} {items : List Json}
    (hblock : j.field? field = some block)
    (htype : block.field? "type" = some (.text "BlockStatement"))
    (hbody : block.field? "body" = some (.array items)) :
    blockStatements? j field = some (partsOf j ⟨.array items,
      Nat.lt_trans (Json.sizeOf_field?_lt hbody) (Json.sizeOf_field?_lt hblock)⟩) := by
  unfold blockStatements?
  split
  · next block' hblock' =>
    obtain rfl : block = block' := Option.some.inj (hblock.symm.trans hblock')
    split
    · next body hbody' =>
      obtain rfl : .array items = body := Option.some.inj (hbody.symm.trans hbody')
      simp [htype, Json.kind]
    · next hbody' => simp [hbody] at hbody'
  · next hblock' => simp [hblock] at hblock'

theorem exists_of_blockStatements? {parts : List (Part j)}
    (h : blockStatements? j field = some parts) :
    ∃ block items, j.field? field = some block ∧
      block.field? "type" = some (.text "BlockStatement") ∧
      block.field? "body" = some (.array items) := by
  unfold blockStatements? at h
  split at h
  · next block hblock =>
    split at h
    · next body hbody =>
      split at h
      · next name htype hkind =>
        split at h
        · next hname =>
          obtain ⟨items, rfl⟩ := kind_eq_array (by simp [hkind] : body.kind ∈ [Json.Kind.array])
          exact ⟨block, items, hblock, by rw [htype, hname], hbody⟩
        · exact absurd h (by simp)
      · exact absurd h (by simp)
    · exact absurd h (by simp)
  · exact absurd h (by simp)

/-- The statements of a block are found and read as trees. -/
theorem requireStatements_iff {trees : List Tree} :
    (∃ slots, requireStatements j owner field = .ok slots ∧
      slots.mapM (fun slot => readSlot slot) = .ok trees) ↔ ReadsBlock owner j field trees := by
  constructor
  · rintro ⟨slots, hslots, hread⟩
    unfold requireStatements at hslots
    split at hslots
    · next parts hparts =>
      obtain ⟨block, items, hblock, htype, hbody⟩ := exists_of_blockStatements? hparts
      rw [blockStatements?_eq_some hblock htype hbody] at hparts
      obtain rfl := Option.some.inj hparts
      obtain rfl := Except.ok.inj hslots
      rw [mapM_elementsOf] at hread
      exact ⟨block, items, hblock, htype, hbody, mapM_eq_ok.mp hread⟩
    · exact absurd hslots (by simp)
  · rintro ⟨block, items, hblock, htype, hbody, hread⟩
    refine ⟨_, by rw [requireStatements, blockStatements?_eq_some hblock htype hbody], ?_⟩
    rw [mapM_elementsOf]
    exact mapM_eq_ok.mpr hread

theorem branches_statements :
    Branches (do return .many (← requireStatements j owner field)) t ↔
      Entry.Reads owner j ⟨field, .statements, t⟩ := by
  simp only [Branches, Entry.Reads, ← requireStatements_iff, bind_eq_ok, pure_eq_ok]
  constructor
  · rintro ⟨_, ⟨slots, hslots, rfl⟩, hread⟩
    simp only [Branch.read, bind_eq_ok, pure_eq_ok] at hread
    obtain ⟨trees, hread, rfl⟩ := hread
    exact ⟨trees, ⟨slots, hslots, hread⟩, rfl⟩
  · rintro ⟨trees, ⟨slots, hslots, hread⟩, rfl⟩
    refine ⟨_, ⟨slots, hslots, rfl⟩, ?_⟩
    simp only [Branch.read, bind_eq_ok, pure_eq_ok]
    exact ⟨trees, hread, rfl⟩

end Branches

section Layers

def Layers (layer : Except ReadError (Layer j)) (n : Node Tree) : Prop :=
  ∃ shape, layer = .ok shape ∧
    (shape.traverse fun branch => branch.read fun slot => readSlot slot) = .ok n

theorem layers_bind {α : Type} {x : Except ReadError α} {f : α → Except ReadError (Layer j)} :
    Layers (x >>= f) n ↔ ∃ a, x = .ok a ∧ Layers (f a) n := by
  simp only [Layers, bind_eq_ok]
  constructor
  · rintro ⟨shape, ⟨a, ha, hshape⟩, hread⟩
    exact ⟨a, ha, shape, hshape, hread⟩
  · rintro ⟨a, ha, shape, hshape, hread⟩
    exact ⟨shape, ⟨a, ha, hshape⟩, hread⟩

theorem layers_pure {shape : Layer j} :
    Layers (pure shape) n ↔
      (shape.traverse fun branch => branch.read fun slot => readSlot slot) = .ok n := by
  simp [Layers, pure_eq_ok]

variable {a b c : Except ReadError (Branch (Slot (sizeOf j)))}

/-- A node with one field. -/
theorem layers_one (make : (α : Type) → α → Node α)
    (hmake : ∀ (x : Branch (Slot (sizeOf j)))
      (f : Branch (Slot (sizeOf j)) → Except ReadError Tree),
      (make _ x).traverse f = do return make _ (← f x)) :
    Layers (do return make _ (← a)) n ↔ ∃ x, Branches a x ∧ n = make _ x := by
  simp only [layers_bind, layers_pure, hmake, bind_eq_ok, pure_eq_ok, Branches]
  constructor
  · rintro ⟨_, ha, x, hx, rfl⟩
    exact ⟨x, ⟨_, ha, hx⟩, rfl⟩
  · rintro ⟨x, ⟨_, ha, hx⟩, rfl⟩
    exact ⟨_, ha, x, hx, rfl⟩

/-- A node with two fields. -/
theorem layers_two (make : (α : Type) → α → α → Node α)
    (hmake : ∀ (x y : Branch (Slot (sizeOf j)))
      (f : Branch (Slot (sizeOf j)) → Except ReadError Tree),
      (make _ x y).traverse f = do return make _ (← f x) (← f y)) :
    Layers (do let x ← a; return make _ x (← b)) n ↔
      ∃ x y, Branches a x ∧ Branches b y ∧ n = make _ x y := by
  simp only [layers_bind, layers_pure, hmake, bind_eq_ok, pure_eq_ok, Branches]
  constructor
  · rintro ⟨_, ha, _, hb, x, hx, y, hy, rfl⟩
    exact ⟨x, y, ⟨_, ha, hx⟩, ⟨_, hb, hy⟩, rfl⟩
  · rintro ⟨x, y, ⟨_, ha, hx⟩, ⟨_, hb, hy⟩, rfl⟩
    exact ⟨_, ha, _, hb, x, hx, y, hy, rfl⟩

/-- A node with three fields. -/
theorem layers_three (make : (α : Type) → α → α → α → Node α)
    (hmake : ∀ (x y z : Branch (Slot (sizeOf j)))
      (f : Branch (Slot (sizeOf j)) → Except ReadError Tree),
      (make _ x y z).traverse f = do return make _ (← f x) (← f y) (← f z)) :
    Layers (do let x ← a; let y ← b; return make _ x y (← c)) n ↔
      ∃ x y z, Branches a x ∧ Branches b y ∧ Branches c z ∧ n = make _ x y z := by
  simp only [layers_bind, layers_pure, hmake, bind_eq_ok, pure_eq_ok, Branches]
  constructor
  · rintro ⟨_, ha, _, hb, _, hc, x, hx, y, hy, z, hz, rfl⟩
    exact ⟨x, y, z, ⟨_, ha, hx⟩, ⟨_, hb, hy⟩, ⟨_, hc, hz⟩, rfl⟩
  · rintro ⟨x, y, z, ⟨_, ha, hx⟩, ⟨_, hb, hy⟩, ⟨_, hc, hz⟩, rfl⟩
    exact ⟨_, ha, _, hb, _, hc, x, hx, y, hy, z, hz, rfl⟩

end Layers

section Kinds

theorem exists_of_kind? {k : Kind} (h : n.kind? = some k) : ∃ value, n = k.node value := by
  refine ⟨fun field => (n.get? field).getD .missing, ?_⟩
  cases n <;> simp only [Node.kind?, Option.some.injEq, reduceCtorEq] at h <;> subst h <;> rfl

theorem guarded_of_kind? {k : Kind} (h : n.kind? = some k) (htry : k ≠ .tryStatement) :
    ∀ block, n ≠ .tryStatement block .missing (.node (.blockStatement (.list []))) := by
  rintro block rfl
  exact htry (Option.some.inj h).symm

variable {k : Kind} {a b c : Except ReadError (Branch (Slot (sizeOf j)))}
  {name name' name'' : String} {role role' role'' : Role}

theorem standsIn_one (make : (α : Type) → α → Node α)
    (hmake : ∀ (x : Branch (Slot (sizeOf j)))
      (f : Branch (Slot (sizeOf j)) → Except ReadError Tree),
      (make _ x).traverse f = do return make _ (← f x))
    (hnode : ∀ value, ∃ x : Tree, k.node value = make _ x)
    (hkind : ∀ x : Tree, (make _ x).kind? = some k) (htry : k ≠ .tryStatement)
    (hentries : ∀ x : Tree, (make _ x).entries = [⟨name, role, x⟩])
    (ha : ∀ x, Branches a x ↔ Entry.Reads owner j ⟨name, role, x⟩) :
    Layers (do return make _ (← a)) n ↔ n.kind? = some k ∧ StandsIn owner j n := by
  rw [layers_one make hmake]
  constructor
  · rintro ⟨x, hx, rfl⟩
    exact ⟨hkind x, by simp [hentries, ← ha, hx], guarded_of_kind? (hkind x) htry⟩
  · rintro ⟨h, hreads, -⟩
    obtain ⟨value, rfl⟩ := exists_of_kind? h
    obtain ⟨x, hx⟩ := hnode value
    rw [hx, hentries] at hreads
    exact ⟨x, (ha x).mpr (hreads _ (by simp)), hx⟩

theorem standsIn_two (make : (α : Type) → α → α → Node α)
    (hmake : ∀ (x y : Branch (Slot (sizeOf j)))
      (f : Branch (Slot (sizeOf j)) → Except ReadError Tree),
      (make _ x y).traverse f = do return make _ (← f x) (← f y))
    (hnode : ∀ value, ∃ x y : Tree, k.node value = make _ x y)
    (hkind : ∀ x y : Tree, (make _ x y).kind? = some k) (htry : k ≠ .tryStatement)
    (hentries : ∀ x y : Tree, (make _ x y).entries = [⟨name, role, x⟩, ⟨name', role', y⟩])
    (ha : ∀ x, Branches a x ↔ Entry.Reads owner j ⟨name, role, x⟩)
    (hb : ∀ y, Branches b y ↔ Entry.Reads owner j ⟨name', role', y⟩) :
    Layers (do let x ← a; return make _ x (← b)) n ↔
      n.kind? = some k ∧ StandsIn owner j n := by
  rw [layers_two make hmake]
  constructor
  · rintro ⟨x, y, hx, hy, rfl⟩
    exact ⟨hkind x y, by simp [hentries, ← ha, ← hb, hx, hy], guarded_of_kind? (hkind x y) htry⟩
  · rintro ⟨h, hreads, -⟩
    obtain ⟨value, rfl⟩ := exists_of_kind? h
    obtain ⟨x, y, hxy⟩ := hnode value
    rw [hxy, hentries] at hreads
    exact ⟨x, y, (ha x).mpr (hreads _ (by simp)), (hb y).mpr (hreads _ (by simp)), hxy⟩

theorem standsIn_three (make : (α : Type) → α → α → α → Node α)
    (hmake : ∀ (x y z : Branch (Slot (sizeOf j)))
      (f : Branch (Slot (sizeOf j)) → Except ReadError Tree),
      (make _ x y z).traverse f = do return make _ (← f x) (← f y) (← f z))
    (hnode : ∀ value, ∃ x y z : Tree, k.node value = make _ x y z)
    (hkind : ∀ x y z : Tree, (make _ x y z).kind? = some k) (htry : k ≠ .tryStatement)
    (hentries : ∀ x y z : Tree,
      (make _ x y z).entries = [⟨name, role, x⟩, ⟨name', role', y⟩, ⟨name'', role'', z⟩])
    (ha : ∀ x, Branches a x ↔ Entry.Reads owner j ⟨name, role, x⟩)
    (hb : ∀ y, Branches b y ↔ Entry.Reads owner j ⟨name', role', y⟩)
    (hc : ∀ z, Branches c z ↔ Entry.Reads owner j ⟨name'', role'', z⟩) :
    Layers (do let x ← a; let y ← b; return make _ x y (← c)) n ↔
      n.kind? = some k ∧ StandsIn owner j n := by
  rw [layers_three make hmake]
  constructor
  · rintro ⟨x, y, z, hx, hy, hz, rfl⟩
    exact ⟨hkind x y z, by simp [hentries, ← ha, ← hb, ← hc, hx, hy, hz],
      guarded_of_kind? (hkind x y z) htry⟩
  · rintro ⟨h, hreads, -⟩
    obtain ⟨value, rfl⟩ := exists_of_kind? h
    obtain ⟨x, y, z, hxyz⟩ := hnode value
    rw [hxyz, hentries] at hreads
    exact ⟨x, y, z, (ha x).mpr (hreads _ (by simp)), (hb y).mpr (hreads _ (by simp)),
      (hc z).mpr (hreads _ (by simp)), hxyz⟩

@[simp] theorem read_atom {bound : Nat} (a : Atom) :
    (Branch.atom a : Branch (Slot bound)).read (fun slot => readSlot slot) = .ok (.atom a) := by
  rw [Branch.atom, Branch.read, readSlot]
  rfl

@[simp] theorem read_member {bound : Nat} (m : Member) :
    (Branch.member m : Branch (Slot bound)).read (fun slot => readSlot slot) =
      .ok (.ofMember m) :=
  read_atom (.member m)

theorem read_sole {bound : Nat} {part : Json} {e : Expectation} {h : sizeOf part < bound} :
    (Branch.many [.json part e h] : Branch (Slot bound)).read (fun slot => readSlot slot) = .ok t ↔
      ∃ only, readAs e part = .ok only ∧ t = .list [only] := by
  simp only [Branch.read, List.mapM_cons, List.mapM_nil, readSlot_json, bind_eq_ok, pure_eq_ok]
  constructor
  · rintro ⟨_, ⟨only, hread, _, rfl, rfl⟩, rfl⟩
    exact ⟨only, hread, rfl⟩
  · rintro ⟨only, hread, rfl⟩
    exact ⟨_, ⟨only, hread, _, rfl, rfl⟩, rfl⟩

theorem read_chosen {bound : Nat} {part : Json} {e : Expectation} {h : sizeOf part < bound}
    {first : String} :
    (Branch.either (chooseByType part first (.json part e h)) : Branch (Slot bound)).read
        (fun slot => readSlot slot) = .ok t ↔
      ∃ chosen, readAs e part = .ok chosen ∧ t = .choice (chooseByType part first chosen) := by
  simp only [Branch.read, chooseByType, bind_eq_ok, pure_eq_ok]
  split <;>
    simp only [Choice.traverse, readSlot_json, bind_eq_ok, pure_eq_ok] <;>
    constructor
  · rintro ⟨_, ⟨chosen, hread, rfl⟩, rfl⟩
    exact ⟨chosen, hread, rfl⟩
  · rintro ⟨chosen, hread, rfl⟩
    exact ⟨_, ⟨chosen, hread, rfl⟩, rfl⟩
  · rintro ⟨_, ⟨chosen, hread, rfl⟩, rfl⟩
    exact ⟨chosen, hread, rfl⟩
  · rintro ⟨chosen, hread, rfl⟩
    exact ⟨_, ⟨chosen, hread, rfl⟩, rfl⟩

theorem branches_name :
    Branches (j := j) (do return .atom (.text (← requireText j owner field))) t ↔
      Entry.Reads owner j ⟨field, .name, t⟩ := by
  simp only [Branches, Entry.Reads, bind_eq_ok, pure_eq_ok, requireText_eq_ok]
  constructor
  · rintro ⟨_, ⟨text, htext, rfl⟩, hread⟩
    rw [read_atom] at hread
    exact ⟨text, htext, (Except.ok.inj hread).symm⟩
  · rintro ⟨text, htext, rfl⟩
    exact ⟨_, ⟨text, htext, rfl⟩, read_atom _⟩

theorem chainLayer_iff (nodeType : String) :
    Layers (chainLayer j nodeType) n ↔
      n.kind? = some .binaryExpression ∧ StandsIn nodeType j n := by
  simp only [chainLayer, layers_bind, requireText_eq_ok, require_eq_ok]
  constructor
  · rintro ⟨left, hleft, token, htoken, right, ⟨hright, hkind⟩, h⟩
    cases hop : BinaryOperator.ofExchange? nodeType token with
    | none => simp [hop, Layers] at h
    | some op =>
      simp only [hop, layers_pure, Node.traverse, bind_eq_ok, pure_eq_ok, read_member, read_sole,
        Except.ok.injEq] at h
      obtain ⟨l, hl, _, rfl, _, ⟨r, hr, rfl⟩, rfl⟩ := h
      refine ⟨rfl, ?_, guarded_of_kind? rfl (by decide)⟩
      simp only [Node.entries, List.forall_mem_cons, List.not_mem_nil, false_implies,
        implies_true, and_true]
      exact ⟨⟨token, op, htoken, hop, rfl⟩, branches_requireChild.mp ⟨left, hleft, hl⟩,
        r, ⟨right.val, hright, hkind, hr⟩, rfl⟩
  · rintro ⟨h, hreads, -⟩
    obtain ⟨l, o, list, rfl⟩ : ∃ l o r, n = .binaryExpression l o r := by
      obtain ⟨value, rfl⟩ := exists_of_kind? h
      exact ⟨_, _, _, rfl⟩
    simp only [Node.entries, List.forall_mem_cons, List.not_mem_nil, false_implies,
      implies_true, and_true] at hreads
    obtain ⟨⟨token, op, htoken, hop, ho⟩, hleft, r, ⟨right, hright, hkind, hr⟩, hlist⟩ := hreads
    obtain rfl : o = _ := ho
    obtain rfl : list = _ := hlist
    obtain ⟨left, hleft, hl⟩ := branches_requireChild.mpr hleft
    refine ⟨left, hleft, token, htoken, ⟨right, Json.sizeOf_field?_lt hright⟩, ⟨hright, hkind⟩, ?_⟩
    simp only [hop, layers_pure, Node.traverse, bind_eq_ok, pure_eq_ok, read_member, read_sole,
      Except.ok.injEq]
    exact ⟨l, hl, _, rfl, _, ⟨r, hr, rfl⟩, rfl⟩

theorem unaryLayer_iff (nodeType : String) :
    Layers (unaryLayer j nodeType) n ↔ n.kind? = some .unaryExpression ∧ StandsIn nodeType j n := by
  simp only [unaryLayer, layers_bind, requireText_eq_ok, requireFlag_eq_ok]
  constructor
  · rintro ⟨token, htoken, before, hbefore, argument, hargument, h⟩
    cases hop : UnaryOperator.ofExchange? nodeType token before with
    | none => simp [hop, Layers] at h
    | some op =>
      simp only [hop, layers_pure, Node.traverse, bind_eq_ok, pure_eq_ok, read_member,
        Except.ok.injEq] at h
      obtain ⟨_, rfl, a, ha, rfl⟩ := h
      refine ⟨rfl, ?_, guarded_of_kind? rfl (by decide)⟩
      simp only [Node.entries, List.forall_mem_cons, List.not_mem_nil, false_implies,
        implies_true, and_true]
      exact ⟨⟨token, before, op, htoken, hbefore, hop, rfl⟩,
        branches_requireChild.mp ⟨argument, hargument, ha⟩⟩
  · rintro ⟨h, hreads, -⟩
    obtain ⟨o, a, rfl⟩ : ∃ o a, n = .unaryExpression o a := by
      obtain ⟨value, rfl⟩ := exists_of_kind? h
      exact ⟨_, _, rfl⟩
    simp only [Node.entries, List.forall_mem_cons, List.not_mem_nil, false_implies,
      implies_true, and_true] at hreads
    obtain ⟨⟨token, before, op, htoken, hbefore, hop, ho⟩, hargument⟩ := hreads
    obtain rfl : o = _ := ho
    obtain ⟨argument, hargument, ha⟩ := branches_requireChild.mpr hargument
    refine ⟨token, htoken, before, hbefore, argument, hargument, ?_⟩
    simp only [hop, layers_pure, Node.traverse, bind_eq_ok, pure_eq_ok, read_member,
      Except.ok.injEq]
    exact ⟨_, rfl, a, ha, rfl⟩

theorem propertyLayer_iff :
    Layers (propertyLayer j) n ↔ n.kind? = some .property ∧ StandsIn "Property" j n := by
  simp only [propertyLayer, layers_bind, requireText_eq_ok, require_eq_ok]
  constructor
  · rintro ⟨kind, hkind, key, ⟨hkey, hobject⟩, value, hvalue, h⟩
    cases hk : PropertyKind.ofKey? kind with
    | none => simp [hk, Layers] at h
    | some k =>
      simp only [hk, layers_pure, Node.traverse, bind_eq_ok, pure_eq_ok, read_member, read_chosen,
        Except.ok.injEq] at h
      obtain ⟨_, ⟨t, ht, rfl⟩, v, hv, _, rfl, rfl⟩ := h
      refine ⟨rfl, ?_, guarded_of_kind? rfl (by decide)⟩
      simp only [Node.entries, List.forall_mem_cons, List.not_mem_nil, false_implies,
        implies_true, and_true]
      exact ⟨.inr ⟨key.val, t, hkey, List.mem_singleton.mp hobject, ht, rfl⟩,
        branches_requireChild.mp ⟨value, hvalue, hv⟩, kind, k, hkind, hk, rfl⟩
  · rintro ⟨h, hreads, -⟩
    obtain ⟨c, v, m, rfl⟩ : ∃ c v m, n = .property c v m := by
      obtain ⟨value, rfl⟩ := exists_of_kind? h
      exact ⟨_, _, _, rfl⟩
    simp only [Node.entries, List.forall_mem_cons, List.not_mem_nil, false_implies,
      implies_true, and_true] at hreads
    obtain ⟨hkey | ⟨key, t, hkey, hobject, ht, hc⟩, hvalue, kind, k, hkind, hk, hm⟩ := hreads
    · exact absurd hkey.1 Bool.false_ne_true
    · obtain rfl : c = _ := hc
      obtain rfl : m = _ := hm
      obtain ⟨value, hvalue, hv⟩ := branches_requireChild.mpr hvalue
      refine ⟨kind, hkind, ⟨key, Json.sizeOf_field?_lt hkey⟩,
        ⟨hkey, List.mem_singleton.mpr hobject⟩, value, hvalue, ?_⟩
      simp only [hk, layers_pure, Node.traverse, bind_eq_ok, pure_eq_ok, read_member, read_chosen,
        Except.ok.injEq]
      exact ⟨_, ⟨t, ht, rfl⟩, v, hv, _, rfl, rfl⟩

theorem declarationLayer_iff :
    Layers (declarationLayer j) n ↔
      n.kind? = some .variableDeclaration ∧ StandsIn "VariableDeclaration" j n := by
  simp only [declarationLayer, layers_bind, requireText_eq_ok]
  constructor
  · rintro ⟨kind, hkind, declarations, hdeclarations, h⟩
    cases hk : VariableKind.ofKey? kind with
    | none => simp [hk, Layers] at h
    | some k =>
      simp only [hk, layers_pure, Node.traverse, bind_eq_ok, pure_eq_ok, read_member,
        Except.ok.injEq] at h
      obtain ⟨d, hd, _, rfl, rfl⟩ := h
      refine ⟨rfl, ?_, guarded_of_kind? rfl (by decide)⟩
      simp only [Node.entries, List.forall_mem_cons, List.not_mem_nil, false_implies,
        implies_true, and_true]
      exact ⟨branches_requireElements.mp ⟨declarations, hdeclarations, hd⟩, kind, k, hkind, hk,
        rfl⟩
  · rintro ⟨h, hreads, -⟩
    obtain ⟨d, m, rfl⟩ : ∃ d m, n = .variableDeclaration d m := by
      obtain ⟨value, rfl⟩ := exists_of_kind? h
      exact ⟨_, _, rfl⟩
    simp only [Node.entries, List.forall_mem_cons, List.not_mem_nil, false_implies,
      implies_true, and_true] at hreads
    obtain ⟨hdeclarations, kind, k, hkind, hk, hm⟩ := hreads
    obtain rfl : m = _ := hm
    obtain ⟨declarations, hdeclarations, hd⟩ := branches_requireElements.mpr hdeclarations
    refine ⟨kind, hkind, declarations, hdeclarations, ?_⟩
    simp only [hk, layers_pure, Node.traverse, bind_eq_ok, pure_eq_ok, read_member,
      Except.ok.injEq]
    exact ⟨d, hd, _, rfl, rfl⟩

theorem memberLayer_iff :
    Layers (kindLayer j .memberExpression) n ↔
      n.kind? = some .memberExpression ∧ StandsIn "MemberExpression" j n := by
  simp only [kindLayer, layers_bind, requireFlag_eq_ok, require_eq_ok]
  constructor
  · rintro ⟨computed, hcomputed, object, hobject, index, ⟨hindex, hkind⟩, h⟩
    simp only [layers_pure, Node.traverse, bind_eq_ok, pure_eq_ok, read_atom, read_sole,
      Except.ok.injEq] at h
    obtain ⟨o, ho, _, ⟨i, hi, rfl⟩, _, rfl, rfl⟩ := h
    refine ⟨rfl, ?_, guarded_of_kind? rfl (by decide)⟩
    simp only [Node.entries, List.forall_mem_cons, List.not_mem_nil, false_implies,
      implies_true, and_true]
    exact ⟨branches_requireChild.mp ⟨object, hobject, ho⟩,
      ⟨i, ⟨index.val, hindex, hkind, hi⟩, rfl⟩, computed, hcomputed, rfl⟩
  · rintro ⟨h, hreads, -⟩
    obtain ⟨o, list, m, rfl⟩ : ∃ o i m, n = .memberExpression o i m := by
      obtain ⟨value, rfl⟩ := exists_of_kind? h
      exact ⟨_, _, _, rfl⟩
    simp only [Node.entries, List.forall_mem_cons, List.not_mem_nil, false_implies,
      implies_true, and_true] at hreads
    obtain ⟨hobject, ⟨i, ⟨index, hindex, hkind, hi⟩, hlist⟩, computed, hcomputed, hm⟩ := hreads
    obtain rfl : list = _ := hlist
    obtain rfl : m = _ := hm
    obtain ⟨object, hobject, ho⟩ := branches_requireChild.mpr hobject
    refine ⟨computed, hcomputed, object, hobject, ⟨index, Json.sizeOf_field?_lt hindex⟩,
      ⟨hindex, hkind⟩, ?_⟩
    simp only [layers_pure, Node.traverse, bind_eq_ok, pure_eq_ok, read_atom, read_sole,
      Except.ok.injEq]
    exact ⟨o, ho, _, ⟨i, hi, rfl⟩, _, rfl, rfl⟩

theorem forInLayer_iff :
    Layers (forInLayer j) n ↔
      n.kind? = some .forInStatement ∧ StandsIn "ForInStatement" j n := by
  simp only [forInLayer, layers_bind, require_eq_ok]
  constructor
  · rintro ⟨left, ⟨hleft, hkind⟩, right, hright, body, hbody, h⟩
    simp only [layers_pure, Node.traverse, bind_eq_ok, pure_eq_ok, read_chosen] at h
    obtain ⟨_, ⟨l, hl, rfl⟩, r, hr, b, hb, rfl⟩ := h
    refine ⟨rfl, ?_, guarded_of_kind? rfl (by decide)⟩
    simp only [Node.entries, List.forall_mem_cons, List.not_mem_nil, false_implies,
      implies_true, and_true]
    exact ⟨.inr ⟨left.val, l, hleft, List.mem_singleton.mp hkind, hl, rfl⟩,
      branches_requireChild.mp ⟨right, hright, hr⟩, branches_requireChild.mp ⟨body, hbody, hb⟩⟩
  · rintro ⟨h, hreads, -⟩
    obtain ⟨c, r, b, rfl⟩ : ∃ c r b, n = .forInStatement c r b := by
      obtain ⟨value, rfl⟩ := exists_of_kind? h
      exact ⟨_, _, _, rfl⟩
    simp only [Node.entries, List.forall_mem_cons, List.not_mem_nil, false_implies,
      implies_true, and_true] at hreads
    obtain ⟨hleft | ⟨left, l, hleft, hkind, hl, hc⟩, hright, hbody⟩ := hreads
    · exact absurd hleft.1 Bool.false_ne_true
    · obtain rfl : c = _ := hc
      obtain ⟨right, hright, hr⟩ := branches_requireChild.mpr hright
      obtain ⟨body, hbody, hb⟩ := branches_requireChild.mpr hbody
      refine ⟨⟨left, Json.sizeOf_field?_lt hleft⟩, ⟨hleft, List.mem_singleton.mpr hkind⟩, right,
        hright, body, hbody, ?_⟩
      simp only [layers_pure, Node.traverse, bind_eq_ok, pure_eq_ok, read_chosen]
      exact ⟨_, ⟨l, hl, rfl⟩, r, hr, b, hb, rfl⟩

/-- The initializer of a for statement: null, or an object that a choice is made by. -/
theorem read_forInit {bound : Nat} {part : Json} {h : sizeOf part < bound} :
    (Branch.either (if part.kind = .null then .empty
        else chooseByType part "VariableDeclaration" (.json part .forInit h)) :
          Branch (Slot bound)).read (fun slot => readSlot slot) = .ok t ↔
      (part = .null ∧ t = .choice .empty) ∨
      part ≠ .null ∧ ∃ chosen, readAs .forInit part = .ok chosen ∧
        t = .choice (chooseByType part "VariableDeclaration" chosen) := by
  by_cases hnull : part.kind = .null
  · obtain rfl := kind_eq_null hnull
    simp [Branch.read, Choice.traverse, Json.kind, bind, Except.bind, pure, Except.pure, eq_comm]
  · have hne : part ≠ .null := by
      rintro rfl
      exact hnull rfl
    rw [if_neg hnull, read_chosen]
    simp [hne]

theorem forLayer_iff :
    Layers (forLayer j) n ↔ n.kind? = some .forStatement ∧ StandsIn "ForStatement" j n := by
  simp only [forLayer, layers_bind, require_eq_ok]
  constructor
  · rintro ⟨init, ⟨hinit, hkind⟩, test, htest, update, hupdate, body, hbody, h⟩
    simp only [layers_pure, Node.traverse, bind_eq_ok, pure_eq_ok, read_forInit] at h
    obtain ⟨i, hi, t, ht, u, hu, b, hb, rfl⟩ := h
    refine ⟨rfl, ?_, guarded_of_kind? rfl (by decide)⟩
    simp only [Node.entries, List.forall_mem_cons, List.not_mem_nil, false_implies,
      implies_true, and_true]
    refine ⟨?_, branches_optionalChild.mp ⟨test, htest, ht⟩,
      branches_optionalChild.mp ⟨update, hupdate, hu⟩, branches_requireChild.mp ⟨body, hbody, hb⟩⟩
    rcases hi with ⟨hnull, rfl⟩ | ⟨hne, chosen, hread, rfl⟩
    · exact .inl ⟨rfl, by rw [hinit, hnull], rfl⟩
    · refine .inr ⟨init.val, chosen, hinit, ?_, hread, rfl⟩
      rcases List.mem_cons.mp hkind with hobject | hnull
      · exact hobject
      · exact absurd (kind_eq_null (List.mem_singleton.mp hnull)) hne
  · rintro ⟨h, hreads, -⟩
    obtain ⟨i, t, u, b, rfl⟩ : ∃ i t u b, n = .forStatement i t u b := by
      obtain ⟨value, rfl⟩ := exists_of_kind? h
      exact ⟨_, _, _, _, rfl⟩
    simp only [Node.entries, List.forall_mem_cons, List.not_mem_nil, false_implies,
      implies_true, and_true] at hreads
    obtain ⟨hinit, htest, hupdate, hbody⟩ := hreads
    obtain ⟨test, htest, ht⟩ := branches_optionalChild.mpr htest
    obtain ⟨update, hupdate, hu⟩ := branches_optionalChild.mpr hupdate
    obtain ⟨body, hbody, hb⟩ := branches_requireChild.mpr hbody
    obtain ⟨init, hinit, hkind, hi⟩ : ∃ init, j.field? "init" = some init ∧
        init.kind ∈ [Json.Kind.object, .null] ∧ ((init = .null ∧ i = .choice .empty) ∨
          init ≠ .null ∧ ∃ chosen, readAs .forInit init = .ok chosen ∧
            i = .choice (chooseByType init "VariableDeclaration" chosen)) := by
      rcases hinit with ⟨-, hinit, hi⟩ | ⟨init, chosen, hinit, hobject, hread, hi⟩
      · exact ⟨.null, hinit, by simp [Json.kind], .inl ⟨rfl, hi⟩⟩
      · refine ⟨init, hinit, by simp [hobject], .inr ⟨?_, chosen, hread, hi⟩⟩
        rintro rfl
        simp [Json.kind] at hobject
    refine ⟨⟨init, Json.sizeOf_field?_lt hinit⟩, ⟨hinit, hkind⟩, test, htest, update, hupdate,
      body, hbody, ?_⟩
    simp only [layers_pure, Node.traverse, bind_eq_ok, pure_eq_ok, read_forInit]
    exact ⟨i, hi, t, ht, u, hu, b, hb, rfl⟩

theorem literalLayer_iff :
    Layers (literalLayer j) n ↔ n.kind? = some .literal ∧ StandsIn "Literal" j n := by
  have hstands (value : Tree) : StandsIn "Literal" j (.literal value) ↔
      Entry.Reads "Literal" j ⟨"value", .literal, value⟩ := by
    refine ⟨fun h => h.reads _ (by simp [Node.entries]), fun h => ?_⟩
    exact ⟨by simpa [Node.entries] using h, guarded_of_kind? (k := .literal) rfl (by decide)⟩
  have hliteral : (n.kind? = some .literal ∧ StandsIn "Literal" j n) ↔
      ∃ value, n = .literal value ∧ Entry.Reads "Literal" j ⟨"value", .literal, value⟩ := by
    constructor
    · rintro ⟨h, hn⟩
      obtain ⟨value, rfl⟩ := exists_of_kind? h
      exact ⟨_, rfl, (hstands _).mp hn⟩
    · rintro ⟨value, rfl, h⟩
      exact ⟨rfl, (hstands _).mpr h⟩
  rw [hliteral]
  rw [literalLayer]
  cases hregex : j.field? "regex" with
  | some regex =>
    simp only [layers_bind, require_eq_ok, requireText_eq_ok]
    constructor
    · rintro ⟨r, ⟨hr, -⟩, pattern, hpattern, letters, hletters, h⟩
      cases hflags : RegexFlags.ofText letters with
      | error letter => simp [hflags, Layers] at h
      | ok flags =>
        simp only [hflags, layers_pure, Node.traverse, Branch.read, readSlot, bind_eq_ok,
          pure_eq_ok, Except.ok.injEq] at h
        obtain ⟨_, rfl, rfl⟩ := h
        exact ⟨_, rfl, .inl ⟨pattern, flags, ⟨r.val, letters, hr, hpattern, hletters, hflags⟩,
          rfl⟩⟩
    · rintro ⟨value, rfl, ⟨pattern, flags, ⟨r, letters, hr, hpattern, hletters, hflags⟩, hvalue⟩ |
        ⟨hnone, -⟩⟩
      · obtain rfl : value = _ := hvalue
        refine ⟨⟨r, Json.sizeOf_field?_lt hr⟩, ⟨hr, by simp [kind_of_field? hpattern]⟩, pattern,
          hpattern, letters, hletters, ?_⟩
        simp only [hflags, layers_pure, Node.traverse, Branch.read, readSlot, bind_eq_ok,
          pure_eq_ok, Except.ok.injEq]
        exact ⟨_, rfl, rfl⟩
      · simp [hregex] at hnone
  | none =>
    simp only [layers_bind, require_eq_ok, layers_pure, Node.traverse, Branch.read, readSlot,
      bind_eq_ok, pure_eq_ok, Except.ok.injEq]
    constructor
    · rintro ⟨v, ⟨hv, hkind⟩, _, rfl, rfl⟩
      exact ⟨_, rfl, .inr ⟨hregex, v.val, hv, hkind, rfl⟩⟩
    · rintro ⟨value, rfl, ⟨-, -, ⟨r, -, hr, -⟩, -⟩ | ⟨-, v, hv, hkind, hvalue⟩⟩
      · simp [hregex] at hr
      · exact ⟨⟨v, Json.sizeOf_field?_lt hv⟩, ⟨hv, hkind⟩, _, rfl, by rw [← hvalue]⟩

def finalStatements (j : Json) (finalizer : Part j) :
    Except ReadError (List (Slot (sizeOf j))) :=
  if finalizer.val.kind = .null then pure [] else requireStatements j "TryStatement" "finalizer"

theorem tryLayer_eq :
    tryLayer j = do
      let block ← requireStatements j "TryStatement" "block"
      let handler ← require j "TryStatement" "handler" [.object, .null]
      let finalizer ← require j "TryStatement" "finalizer" [.object, .null]
      let statements ← finalStatements j finalizer
      if handler.val.kind = .null && statements.isEmpty then .error .bareTry
      else
        return .tryStatement (.block block)
          (.one (.json handler.val (.child "TryStatement" "handler" .catchClause) handler.property))
          (.block statements) := by
  rw [tryLayer]
  congr
  funext block
  congr
  funext handler
  congr
  funext finalizer
  unfold finalStatements
  split <;> rfl

theorem finalStatements_iff {trees : List Tree} :
    (∃ finalizer, (j.field? "finalizer" = some finalizer.val ∧
        finalizer.val.kind ∈ [Json.Kind.object, .null]) ∧
      ∃ slots, finalStatements j finalizer = .ok slots ∧
        slots.mapM (fun slot => readSlot slot) = .ok trees) ↔
      Entry.Reads "TryStatement" j
        ⟨"finalizer", .finalizer, .node (.blockStatement (.list trees))⟩ := by
  have hnode (trees' : List Tree) : Tree.node (.blockStatement (.list trees)) =
      .node (.blockStatement (.list trees')) ↔ trees = trees' := by simp
  simp only [Entry.Reads, hnode, exists_eq_right']
  constructor
  · rintro ⟨finalizer, ⟨hfinalizer, hkind⟩, slots, hslots, hread⟩
    unfold finalStatements at hslots
    split at hslots
    · next hnull =>
      obtain rfl := pure_eq_ok.mp hslots
      exact .inl ⟨by rw [hfinalizer, kind_eq_null hnull], (pure_eq_ok.mp hread).symm⟩
    · exact .inr (requireStatements_iff.mp ⟨slots, hslots, hread⟩)
  · rintro (⟨hfinalizer, rfl⟩ | hblock)
    · exact ⟨⟨.null, Json.sizeOf_field?_lt hfinalizer⟩, ⟨hfinalizer, by simp [Json.kind]⟩, [], rfl,
        rfl⟩
    · obtain ⟨slots, hslots, hread⟩ := requireStatements_iff.mpr hblock
      obtain ⟨block, items, hfinalizer, htype, -⟩ := hblock
      have hobject := kind_of_field? htype
      refine ⟨⟨block, Json.sizeOf_field?_lt hfinalizer⟩, ⟨hfinalizer, by simp [hobject]⟩, slots,
        ?_, hread⟩
      simpa [finalStatements, hobject] using hslots

theorem tryLayer_iff :
    Layers (tryLayer j) n ↔ n.kind? = some .tryStatement ∧ StandsIn "TryStatement" j n := by
  simp only [tryLayer_eq, layers_bind, require_eq_ok]
  constructor
  · rintro ⟨block, hblock, handler, ⟨hhandler, hkind⟩, finalizer, hfinalizer, statements,
      hstatements, h⟩
    split at h
    · simp [Layers] at h
    · next hguard =>
      simp only [layers_pure, Node.traverse, Branch.read, bind_eq_ok, pure_eq_ok, readSlot_json]
        at h
      obtain ⟨_, ⟨trees, htrees, rfl⟩, c, hc, _, ⟨trees', htrees', rfl⟩, rfl⟩ := h
      refine ⟨rfl, ?_, ?_⟩
      · simp only [Node.entries, List.forall_mem_cons, List.not_mem_nil, false_implies,
          implies_true, and_true]
        exact ⟨⟨trees, requireStatements_iff.mp ⟨block, hblock, htrees⟩, rfl⟩,
          ⟨handler.val, hhandler, hkind, hc⟩,
          finalStatements_iff.mp ⟨finalizer, hfinalizer, statements, hstatements, htrees'⟩⟩
      · intro _ h
        simp only [Node.tryStatement.injEq, Tree.node.injEq, Node.blockStatement.injEq,
          Tree.list.injEq] at h
        obtain ⟨-, rfl, rfl⟩ := h
        have hnull := readAs_child_missing (by decide) hc
        have hempty := (mapM_eq_ok.mp htrees').length_eq
        simp [hnull, Json.kind] at hguard
        simp_all
  · rintro ⟨h, hreads, hguarded⟩
    obtain ⟨b, c, f, rfl⟩ : ∃ b c f, n = .tryStatement b c f := by
      obtain ⟨value, rfl⟩ := exists_of_kind? h
      exact ⟨_, _, _, rfl⟩
    simp only [Node.entries, List.forall_mem_cons, List.not_mem_nil, false_implies,
      implies_true, and_true] at hreads
    obtain ⟨⟨trees, hblock, hb⟩, ⟨handler, hhandler, hkind, hc⟩, hfinalizer⟩ := hreads
    obtain rfl : b = _ := hb
    obtain ⟨trees', rfl⟩ : ∃ trees', f = .node (.blockStatement (.list trees')) := by
      rcases hfinalizer with ⟨-, hf⟩ | ⟨trees', -, hf⟩
      · exact ⟨[], hf⟩
      · exact ⟨trees', hf⟩
    obtain ⟨block, hblock, htrees⟩ := requireStatements_iff.mpr hblock
    obtain ⟨finalizer, hfinalizer, statements, hstatements, htrees'⟩ :=
      finalStatements_iff.mpr hfinalizer
    refine ⟨block, hblock, ⟨handler, Json.sizeOf_field?_lt hhandler⟩, ⟨hhandler, hkind⟩, finalizer,
      hfinalizer, statements, hstatements, ?_⟩
    have hguard : ¬(handler.kind = .null && statements.isEmpty) = true := by
      intro hbare
      simp only [Bool.and_eq_true, decide_eq_true_eq, List.isEmpty_iff] at hbare
      obtain ⟨hnull, rfl⟩ := hbare
      obtain rfl := kind_eq_null hnull
      obtain rfl : c = .missing := readAs_child_null.mp hc
      obtain rfl := pure_eq_ok.mp htrees'
      exact hguarded _ rfl
    rw [if_neg hguard]
    simp only [layers_pure, Node.traverse, Branch.read, bind_eq_ok, pure_eq_ok, readSlot_json]
    exact ⟨_, ⟨trees, htrees, rfl⟩, c, hc, _, ⟨trees', htrees', rfl⟩, rfl⟩

theorem standsIn_none {shape : Layer j} {whole : Node Tree}
    (hread : (shape.traverse fun branch => branch.read fun slot => readSlot slot) = .ok whole)
    (hnode : ∀ value : Field → Tree, k.node value = whole) (hkind : whole.kind? = some k)
    (htry : k ≠ .tryStatement) (hentries : whole.entries = []) :
    Layers (pure shape) n ↔ n.kind? = some k ∧ StandsIn owner j n := by
  rw [layers_pure, hread]
  constructor
  · intro h
    obtain rfl := Except.ok.inj h
    exact ⟨hkind, by simp [hentries], guarded_of_kind? hkind htry⟩
  · rintro ⟨h, -⟩
    obtain ⟨value, rfl⟩ := exists_of_kind? h
    rw [hnode]

/-- An object of a kind is read as a node exactly when the node stands in it. -/
theorem kindLayer_iff (k : Kind) :
    Layers (kindLayer j k) n ↔ n.kind? = some k ∧ StandsIn k.typeName j n := by
  cases k with
  | program =>
    exact standsIn_one (fun _ => .program) (fun _ _ => rfl) (fun _ => ⟨_, rfl⟩)
      (fun _ => rfl) (by decide) (fun _ => rfl) fun _ => branches_requireElements
  | identifier =>
    have hlayer : kindLayer j .identifier = do
        return .identifier (← (do return .atom (.text (← requireText j "Identifier" "name")))) := by
      simp [kindLayer]
    rw [hlayer]
    exact standsIn_one (fun _ => .identifier) (fun _ _ => rfl) (fun _ => ⟨_, rfl⟩)
      (fun _ => rfl) (by decide) (fun _ => rfl) fun _ => branches_name
  | literal => exact literalLayer_iff
  | thisExpression => exact standsIn_none rfl (fun _ => rfl) rfl (by decide) rfl
  | arrayExpression =>
    exact standsIn_one (fun _ => .arrayExpression) (fun _ _ => rfl) (fun _ => ⟨_, rfl⟩)
      (fun _ => rfl) (by decide) (fun _ => rfl) fun _ => branches_requireElements
  | objectExpression =>
    exact standsIn_one (fun _ => .objectExpression) (fun _ _ => rfl) (fun _ => ⟨_, rfl⟩)
      (fun _ => rfl) (by decide) (fun _ => rfl) fun _ => branches_requireElements
  | functionExpression =>
    have hlayer : kindLayer j .functionExpression = do
        let id ← optionalChild j "FunctionExpression" "id" .identifier
        let params ← requireElements j "FunctionExpression" "params" .identifier false
        return .functionExpression id params
          (← (do return .many (← requireStatements j "FunctionExpression" "body"))) := by
      simp [kindLayer]
    rw [hlayer]
    exact standsIn_three (fun _ => .functionExpression) (fun _ _ _ _ => rfl)
      (fun _ => ⟨_, _, _, rfl⟩) (fun _ _ _ => rfl) (by decide) (fun _ _ _ => rfl)
      (fun _ => branches_optionalChild) (fun _ => branches_requireElements)
      fun _ => branches_statements
  | unaryExpression => exact unaryLayer_iff "UnaryExpression"
  | binaryExpression => exact chainLayer_iff "BinaryExpression"
  | memberExpression => exact memberLayer_iff
  | conditionalExpression =>
    exact standsIn_three (fun _ => .conditionalExpression) (fun _ _ _ _ => rfl)
      (fun _ => ⟨_, _, _, rfl⟩) (fun _ _ _ => rfl) (by decide) (fun _ _ _ => rfl)
      (fun _ => branches_requireChild) (fun _ => branches_requireChild)
      fun _ => branches_requireChild
  | callExpression =>
    exact standsIn_two (fun _ => .callExpression) (fun _ _ _ => rfl) (fun _ => ⟨_, _, rfl⟩)
      (fun _ _ => rfl) (by decide) (fun _ _ => rfl) (fun _ => branches_requireChild)
      fun _ => branches_requireElements
  | newExpression =>
    exact standsIn_two (fun _ => .newExpression) (fun _ _ _ => rfl) (fun _ => ⟨_, _, rfl⟩)
      (fun _ _ => rfl) (by decide) (fun _ _ => rfl) (fun _ => branches_requireChild)
      fun _ => branches_requireElements
  | sequenceExpression =>
    exact standsIn_one (fun _ => .sequenceExpression) (fun _ _ => rfl) (fun _ => ⟨_, rfl⟩)
      (fun _ => rfl) (by decide) (fun _ => rfl) fun _ => branches_requireElements
  | blockStatement =>
    exact standsIn_one (fun _ => .blockStatement) (fun _ _ => rfl) (fun _ => ⟨_, rfl⟩)
      (fun _ => rfl) (by decide) (fun _ => rfl) fun _ => branches_requireElements
  | expressionStatement =>
    exact standsIn_one (fun _ => .expressionStatement) (fun _ _ => rfl) (fun _ => ⟨_, rfl⟩)
      (fun _ => rfl) (by decide) (fun _ => rfl) fun _ => branches_requireChild
  | debuggerStatement => exact standsIn_none rfl (fun _ => rfl) rfl (by decide) rfl
  | withStatement =>
    exact standsIn_two (fun _ => .withStatement) (fun _ _ _ => rfl) (fun _ => ⟨_, _, rfl⟩)
      (fun _ _ => rfl) (by decide) (fun _ _ => rfl) (fun _ => branches_requireChild)
      fun _ => branches_requireChild
  | returnStatement =>
    exact standsIn_one (fun _ => .returnStatement) (fun _ _ => rfl) (fun _ => ⟨_, rfl⟩)
      (fun _ => rfl) (by decide) (fun _ => rfl) fun _ => branches_optionalChild
  | labeledStatement =>
    exact standsIn_two (fun _ => .labeledStatement) (fun _ _ _ => rfl) (fun _ => ⟨_, _, rfl⟩)
      (fun _ _ => rfl) (by decide) (fun _ _ => rfl) (fun _ => branches_requireChild)
      fun _ => branches_requireChild
  | breakStatement =>
    exact standsIn_one (fun _ => .breakStatement) (fun _ _ => rfl) (fun _ => ⟨_, rfl⟩)
      (fun _ => rfl) (by decide) (fun _ => rfl) fun _ => branches_optionalChild
  | continueStatement =>
    exact standsIn_one (fun _ => .continueStatement) (fun _ _ => rfl) (fun _ => ⟨_, rfl⟩)
      (fun _ => rfl) (by decide) (fun _ => rfl) fun _ => branches_optionalChild
  | ifStatement =>
    exact standsIn_three (fun _ => .ifStatement) (fun _ _ _ _ => rfl)
      (fun _ => ⟨_, _, _, rfl⟩) (fun _ _ _ => rfl) (by decide) (fun _ _ _ => rfl)
      (fun _ => branches_requireChild) (fun _ => branches_requireChild)
      fun _ => branches_optionalChild
  | switchStatement =>
    exact standsIn_two (fun _ => .switchStatement) (fun _ _ _ => rfl) (fun _ => ⟨_, _, rfl⟩)
      (fun _ _ => rfl) (by decide) (fun _ _ => rfl) (fun _ => branches_requireChild)
      fun _ => branches_requireElements
  | switchCase =>
    exact standsIn_two (fun _ => .switchCase) (fun _ _ _ => rfl) (fun _ => ⟨_, _, rfl⟩)
      (fun _ _ => rfl) (by decide) (fun _ _ => rfl) (fun _ => branches_optionalChild)
      fun _ => branches_requireElements
  | throwStatement =>
    exact standsIn_one (fun _ => .throwStatement) (fun _ _ => rfl) (fun _ => ⟨_, rfl⟩)
      (fun _ => rfl) (by decide) (fun _ => rfl) fun _ => branches_requireChild
  | tryStatement => exact tryLayer_iff
  | catchClause =>
    have hlayer : kindLayer j .catchClause = do
        let param ← requireChild j "CatchClause" "param" .identifier
        return .catchClause param
          (← (do return .many (← requireStatements j "CatchClause" "body"))) := by
      simp [kindLayer]
    rw [hlayer]
    exact standsIn_two (fun _ => .catchClause) (fun _ _ _ => rfl) (fun _ => ⟨_, _, rfl⟩)
      (fun _ _ => rfl) (by decide) (fun _ _ => rfl) (fun _ => branches_requireChild)
      fun _ => branches_statements
  | whileStatement =>
    exact standsIn_two (fun _ => .whileStatement) (fun _ _ _ => rfl) (fun _ => ⟨_, _, rfl⟩)
      (fun _ _ => rfl) (by decide) (fun _ _ => rfl) (fun _ => branches_requireChild)
      fun _ => branches_requireChild
  | doWhileStatement =>
    exact standsIn_two (fun _ => .doWhileStatement) (fun _ _ _ => rfl) (fun _ => ⟨_, _, rfl⟩)
      (fun _ _ => rfl) (by decide) (fun _ _ => rfl) (fun _ => branches_requireChild)
      fun _ => branches_requireChild
  | forStatement => exact forLayer_iff
  | forInStatement => exact forInLayer_iff
  | functionDeclaration =>
    have hlayer : kindLayer j .functionDeclaration = do
        let id ← requireChild j "FunctionDeclaration" "id" .identifier
        let params ← requireElements j "FunctionDeclaration" "params" .identifier false
        return .functionDeclaration id params
          (← (do return .many (← requireStatements j "FunctionDeclaration" "body"))) := by
      simp [kindLayer]
    rw [hlayer]
    exact standsIn_three (fun _ => .functionDeclaration) (fun _ _ _ _ => rfl)
      (fun _ => ⟨_, _, _, rfl⟩) (fun _ _ _ => rfl) (by decide) (fun _ _ _ => rfl)
      (fun _ => branches_requireChild) (fun _ => branches_requireElements)
      fun _ => branches_statements
  | variableDeclaration => exact declarationLayer_iff
  | variableDeclarator =>
    exact standsIn_two (fun _ => .variableDeclarator) (fun _ _ _ => rfl) (fun _ => ⟨_, _, rfl⟩)
      (fun _ _ => rfl) (by decide) (fun _ _ => rfl) (fun _ => branches_requireChild)
      fun _ => branches_optionalChild
  | property => exact propertyLayer_iff

end Kinds

section Types

theorem name_of_ofName? {name : Text} {nodeType : NodeType}
    (h : NodeType.ofName? name = some nodeType) : name = nodeType.name := by
  have hfound := List.find?_some h
  exact (beq_iff_eq.mp hfound).symm

/-- An object of a type is read as a node exactly when the node stands in it. -/
theorem typeLayer_iff (nodeType : NodeType) :
    (∃ shape, typeLayer j nodeType = .ok (some shape) ∧
      (shape.traverse fun branch => branch.read fun slot => readSlot slot) = .ok n) ↔
      (∃ k, nodeType.kind? = some k ∧ n.kind? = some k) ∧ StandsIn nodeType.name j n := by
  have hsome {layer : Except ReadError (Layer j)} :
      (∃ shape : Layer j, (do return some (← layer)) = .ok (some shape) ∧
        (shape.traverse fun branch => branch.read fun slot => readSlot slot) = .ok n) ↔
        Layers layer n := by
    simp only [Layers, bind_eq_ok, pure_eq_ok, Option.some.injEq, exists_eq_right]
  cases nodeType with
  | kind k =>
    simp only [NodeType.kind?, Option.some.injEq, exists_eq_left']
    exact hsome.trans (kindLayer_iff k)
  | assignmentExpression =>
    simp only [NodeType.kind?, Option.some.injEq, exists_eq_left']
    exact hsome.trans (chainLayer_iff "AssignmentExpression")
  | logicalExpression =>
    simp only [NodeType.kind?, Option.some.injEq, exists_eq_left']
    exact hsome.trans (chainLayer_iff "LogicalExpression")
  | updateExpression =>
    simp only [NodeType.kind?, Option.some.injEq, exists_eq_left']
    exact hsome.trans (unaryLayer_iff "UpdateExpression")
  | emptyStatement => simp [typeLayer, NodeType.kind?, pure_eq_ok]

theorem type_of_layer {result : Option (Layer j)} (hobject : j.kind = .object)
    (h : layer j = .ok result) :
    ∃ nodeType : NodeType, j.field? "type" = some (.text nodeType.name) ∧
      typeLayer j nodeType = .ok result := by
  cases j with
  | object fields =>
    rw [layer] at h
    split at h
    · next name hname =>
      split at h
      · next nodeType htype =>
        exact ⟨nodeType, by rw [← name_of_ofName? htype]; exact hname, h⟩
      · exact absurd h (by simp)
    · exact absurd h (by simp)
  | _ => simp [Json.kind] at hobject

theorem kind_of_layer {shape : Layer j} (h : layer j = .ok (some shape)) : j.kind = .object := by
  cases j with
  | object fields => rfl
  | _ => simp [layer] at h

/-- A value is read as a node exactly when it is an object of some type, a node stands in it
that is of the expected sort, and the node's chains are spliced. -/
theorem readAs_eq_node {e : Expectation} :
    readAs e j = .ok (.node n) ↔
      ∃ (nodeType : NodeType) (m : Node Tree), j.field? "type" = some (.text nodeType.name) ∧
        (∃ k, nodeType.kind? = some k ∧ m.kind? = some k) ∧ StandsIn nodeType.name j m ∧
        e.check j m.kind? = .ok () ∧ n = m.spliced := by
  rw [readAs_eq_ok]
  constructor
  · rintro (⟨-, -, h⟩ | ⟨shape, m, hlayer, hread, hcheck, h⟩)
    · exact absurd h (by simp)
    · obtain rfl := Tree.node.inj h
      obtain ⟨nodeType, htype, hlayer⟩ := type_of_layer (kind_of_layer hlayer) hlayer
      obtain ⟨hkind, hstands⟩ := (typeLayer_iff nodeType).mp ⟨shape, hlayer, hread⟩
      exact ⟨nodeType, m, htype, hkind, hstands, hcheck, rfl⟩
  · rintro ⟨nodeType, m, htype, hkind, hstands, hcheck, rfl⟩
    obtain ⟨shape, hlayer, hread⟩ := (typeLayer_iff nodeType).mpr ⟨hkind, hstands⟩
    rw [← layer_eq htype (ofName?_name nodeType)] at hlayer
    exact .inr ⟨shape, m, hlayer, hread, hcheck, rfl⟩

end Types

end ScriptTree.Exchange
