import ScriptTree.Proofs.Arithmetic.Printing

/-!
The value of arithmetic text. Text is cut into symbols and evaluated from the left, products
before sums, with one level of pending operations for each open parenthesis. What is printed
of a formula is worth the formula grouped from the left.
-/

namespace ScriptTree

inductive Symbol where
  | name (x : Text)
  | sign (op : Operation)
  | opening
  | closing
deriving DecidableEq

namespace Symbol

def ofPoint? (c : CodePoint) : Option Symbol :=
  if c.is '(' then some .opening
  else if c.is ')' then some .closing
  else if c.is '+' then some (.sign .add)
  else if c.is '-' then some (.sign .subtract)
  else if c.is '*' then some (.sign .multiply)
  else none

def ofWord (word : Text) : List Symbol := if word.isEmpty then [] else [.name word]

/-- The symbols of a text that continues a word; blanks only keep words apart. -/
def scan (word : Text) : Text → Option (List Symbol)
  | [] => some (ofWord word)
  | c :: rest =>
    if Source.isWordPoint c then scan (word ++ [c]) rest
    else if c.is ' ' then (scan [] rest).map (ofWord word ++ ·)
    else do return ofWord word ++ (← ofPoint? c) :: (← scan [] rest)

end Symbol

/-- What waits for an operand on its left: a sum or difference that takes a term, and a
product that takes a factor. -/
structure Level where
  sum : Int → Int := id
  term : Int → Int := id

namespace Level

def close (level : Level) (factor : Int) : Int := level.sum (level.term factor)

/-- What waits after a factor and a sign: a product binds more tightly than a sum. -/
def next (level : Level) (factor : Int) : Operation → Level
  | .add => { sum := fun term => level.close factor + term }
  | .subtract => { sum := fun term => level.close factor - term }
  | .multiply => { level with term := fun other => level.term factor * other }

end Level

/-- The value of symbols that continue an expression, given what waits outside and inside
the innermost open parenthesis, and the operand before them if there is one. -/
def evaluateFrom (ρ : Text → Int) :
    List Level → Level → Option Int → List Symbol → Option Int
  | outer, level, none, .name x :: rest => evaluateFrom ρ outer level (some (ρ x)) rest
  | outer, level, none, .opening :: rest => evaluateFrom ρ (level :: outer) {} none rest
  | outer, level, some v, .sign op :: rest => evaluateFrom ρ outer (level.next v op) none rest
  | up :: outer, level, some v, .closing :: rest =>
    evaluateFrom ρ outer up (some (level.close v)) rest
  | [], level, some v, [] => some (level.close v)
  | _, _, _, _ => none

/-- The value of arithmetic text: products before sums, and equal operators from the left. -/
def evaluate (ρ : Text → Int) (t : Text) : Option Int :=
  (Symbol.scan [] t).bind (evaluateFrom ρ [] {} none)

namespace Chain

mutual

def symbols : Chain → List Symbol
  | .name x => [.name x]
  | .run op first rest =>
    Symbol.opening :: (first.symbols ++ (restSymbols op rest ++ [Symbol.closing]))

def restSymbols (op : Operation) : List Chain → List Symbol
  | [] => []
  | next :: rest => Symbol.sign op :: (next.symbols ++ restSymbols op rest)

end

end Chain

section Evaluation

variable (ρ : Text → Int)

theorem Level.close_next (level : Level) (op : Operation) (v w : Int)
    (h : op = .multiply → level.sum = id) :
    (level.next v op).close w = op.apply (level.close v) w := by
  cases op with
  | add => rfl
  | subtract => rfl
  | multiply => simp [close, next, h rfl, Operation.apply]

theorem Level.sum_next (level : Level) (op : Operation) (v : Int)
    (h : op = .multiply → level.sum = id) : op = .multiply → (level.next v op).sum = id := by
  rintro rfl
  exact h rfl

mutual

/-- The symbols of a chain are worth its value wherever an operand can stand. -/
theorem evaluateFrom_symbols (outer : List Level) (level : Level) (after : List Symbol) :
    (c : Chain) → evaluateFrom ρ outer level none (c.symbols ++ after)
      = evaluateFrom ρ outer level (some (c.value ρ)) after
  | .name x => rfl
  | .run op first rest => by
    have hfirst := evaluateFrom_symbols (level :: outer) {}
      (Chain.restSymbols op rest ++ Symbol.closing :: after) first
    have hrest := evaluateFrom_restSymbols op outer level {} (first.value ρ) (fun _ => rfl) after
      rest
    simpa [Chain.symbols, evaluateFrom, Chain.value, hrest, Level.close] using hfirst

theorem evaluateFrom_restSymbols (op : Operation) (outer : List Level) (up level : Level)
    (v : Int) (hsum : op = .multiply → level.sum = id) (after : List Symbol) :
    (rest : List Chain) →
      evaluateFrom ρ (up :: outer) level (some v)
          (Chain.restSymbols op rest ++ Symbol.closing :: after)
        = evaluateFrom ρ outer up (some (Chain.valueFrom ρ op (level.close v) rest)) after
  | [] => rfl
  | next :: rest => by
    have hnext := evaluateFrom_symbols (up :: outer) (level.next v op)
      (Chain.restSymbols op rest ++ Symbol.closing :: after) next
    have hrest := evaluateFrom_restSymbols op outer up (level.next v op) (next.value ρ)
      (level.sum_next op v hsum) after rest
    rw [Level.close_next level op v _ hsum] at hrest
    simpa [Chain.restSymbols, evaluateFrom, Chain.valueFrom, hrest] using hnext

end

end Evaluation

section Scanning

open ScriptTree.Symbol Source

def EndsWord (t : Text) : Prop := ∀ c ∈ t.head?, isWordPoint c = false

theorem scan_word (word rest : Text) (hword : ∀ c ∈ word, isWordPoint c = true) (start : Text) :
    scan start (word ++ rest) = scan (start ++ word) rest := by
  induction word generalizing start with
  | nil => simp
  | cons c word ih =>
    have hc : isWordPoint c = true := hword c List.mem_cons_self
    rw [List.cons_append, scan, if_pos hc, ih (fun d hd => hword d (List.mem_cons_of_mem c hd)),
      List.append_assoc, List.singleton_append]

theorem scan_ended (word rest : Text) (hrest : EndsWord rest) :
    scan word rest = (scan [] rest).map (ofWord word ++ ·) := by
  cases rest with
  | nil => simp [scan, ofWord]
  | cons c rest =>
    have hc : isWordPoint c = false := hrest c (by simp)
    by_cases hblank : c.is ' ' = true
    · simp [scan, hc, hblank, ofWord]
    · cases hpoint : ofPoint? c <;> cases hscan : scan [] rest <;>
        simp [scan, hc, hblank, ofWord, hpoint, hscan]

theorem scan_blank (rest : Text) : scan [] (CodePoint.ofChar ' ' :: rest) = scan [] rest := by
  rw [scan, if_neg (by decide), if_pos (by decide)]
  simp [ofWord]

theorem scan_point {c : CodePoint} {symbol : Symbol} (rest : Text)
    (hword : isWordPoint c = false) (hblank : c.is ' ' = false)
    (hsymbol : ofPoint? c = some symbol) :
    scan [] (c :: rest) = (scan [] rest).map (symbol :: ·) := by
  rw [scan, hword, hblank, hsymbol]
  cases scan [] rest <;> rfl

theorem scan_sign (m : Mode) (op : Operation) (rest : Text) :
    scan [] (signText m op ++ rest) = (scan [] rest).map (.sign op :: ·) := by
  have hsign (t : Text) : scan [] (op.sign :: t) = (scan [] t).map (.sign op :: ·) := by
    cases op <;> exact scan_point t rfl rfl rfl
  cases m with
  | pretty => simp [signText, Mode.isMinified, scan_blank, hsign]
  | minified => simp [signText, Mode.isMinified, hsign]

theorem endsWord_sign (m : Mode) (op : Operation) (rest : Text) :
    EndsWord (signText m op ++ rest) := by
  intro c hc
  cases m <;> cases op <;> simp [signText, Mode.isMinified] at hc <;> subst hc <;> rfl

theorem endsWord_rest (m : Mode) (op : Operation) (rest : List Chain) (after : Text)
    (hafter : EndsWord after) : EndsWord ((restTexts m op rest).flatten ++ after) := by
  cases rest with
  | nil => simpa [restTexts] using hafter
  | cons next rest => simpa [restTexts] using endsWord_sign m op _

mutual

/-- The text of a chain has the symbols of the chain. -/
theorem scan_chain (m : Mode) (after : Text) (hafter : EndsWord after) :
    (c : Chain) → c.Named →
      scan [] ((chainTexts m c).flatten ++ after) = (scan [] after).map (c.symbols ++ ·)
  | .name x, .name hne hword => by
    have hx : ofWord x = [.name x] := by simp [ofWord, hne]
    simp [chainTexts, scan_word x after hword, scan_ended x after hafter, hx, Chain.symbols]
  | .run op first rest, .run hfirst hrest => by
    have hscan := scan_chain m ((restTexts m op rest).flatten ++ (Text.ofString ")" ++ after))
      (endsWord_rest m op rest _ (by rintro c ⟨⟩; rfl)) first hfirst
    have hscan' := scan_rest m op (Text.ofString ")" ++ after) (by rintro c ⟨⟩; rfl) rest hrest
    have hopening (t : Text) :
        scan [] (Text.ofString "(" ++ t) = (scan [] t).map (.opening :: ·) :=
      scan_point t rfl rfl rfl
    have hclosing :
        scan [] (Text.ofString ")" ++ after) = (scan [] after).map (.closing :: ·) :=
      scan_point after rfl rfl rfl
    simp [chainTexts, hopening, hscan, hscan', hclosing, Chain.symbols, Function.comp_def]

theorem scan_rest (m : Mode) (op : Operation) (after : Text) (hafter : EndsWord after) :
    (rest : List Chain) → (∀ next ∈ rest, next.Named) →
      scan [] ((restTexts m op rest).flatten ++ after)
        = (scan [] after).map (Chain.restSymbols op rest ++ ·)
  | [], _ => by simp [restTexts, Chain.restSymbols]
  | next :: rest, h => by
    have hnext := scan_chain m ((restTexts m op rest).flatten ++ after)
      (endsWord_rest m op rest after hafter) next (h next (by simp))
    have hrest := scan_rest m op after hafter rest (fun other hother => h other (by simp [hother]))
    simp [restTexts, scan_sign, hnext, hrest, Chain.restSymbols, Function.comp_def]

end

end Scanning

/-- A formula is read and printed, and what is printed is worth the formula grouped from
the left. -/
theorem exists_toSource_evaluate (s : PrintSettings) {v : Json} {f : Formula}
    (hv : Encodes v f) (hnames : f.Named) :
    ∃ tree text, Exchange.read v = .ok tree ∧ Source.toSource s tree = .ok text ∧
      ∀ ρ, evaluate ρ text = some (f.leftValue ρ) := by
  have hchain := (named_chain f hnames).1
  obtain ⟨last, -, hlays⟩ := Source.lays_chain s.mode {} rfl (fun _ _ => rfl) f.chain hchain
  have hscan : Symbol.scan [] (Source.chainTexts s.mode f.chain).flatten
      = some f.chain.symbols := by
    simpa [Symbol.scan, Symbol.ofWord] using
      scan_chain s.mode [] (by rintro c ⟨⟩) f.chain hchain
  refine ⟨f.chain.tree, _, readAs_formula hv .anything (fun _ _ => rfl),
    Source.toSource_eq_flatten (Source.scriptOr_chain _ _ _) hlays, ?_⟩
  intro ρ
  rw [evaluate, hscan, ← (value_chain ρ f).1]
  simpa [evaluateFrom, Level.close] using evaluateFrom_symbols ρ [] {} [] f.chain

/-- What is printed of a formula that was read has the value of the formula, whatever its
names stand for, if no difference stands to the right of a minus sign. Otherwise, names
being distinct, some choice of what they stand for gives another value. -/
theorem evaluate_toSource_read (s : PrintSettings) {v : Json} {f : Formula}
    (hv : Encodes v f) (hnames : f.Named) :
    ∃ tree text, Exchange.read v = .ok tree ∧ Source.toSource s tree = .ok text ∧
      (f.Unambiguous → ∀ ρ, evaluate ρ text = some (f.value ρ)) ∧
      (f.names.Nodup → (∀ ρ, evaluate ρ text = some (f.value ρ)) → f.Unambiguous) := by
  obtain ⟨tree, text, hread, hsource, hvalue⟩ := exists_toSource_evaluate s hv hnames
  refine ⟨tree, text, hread, hsource, ?_, ?_⟩
  · intro hf ρ
    rw [hvalue, f.leftValue_eq_value ρ hf]
  · intro hdistinct heq
    refine (f.leftValue_eq_value_iff hdistinct).mp ?_
    intro ρ
    exact Option.some.inj ((hvalue ρ).symm.trans (heq ρ))

def Formula.toJson : Formula → Json
  | .name x => .object [("type", "Identifier"), ("name", .text x)]
  | .apply op left right =>
    .object [("type", "BinaryExpression"), ("operator", op.operator.token),
      ("left", left.toJson), ("right", right.toJson)]

theorem encodes_toJson (f : Formula) : Encodes f.toJson f := by
  induction f with
  | name x => refine .name ?_ ?_ <;> simp [Formula.toJson, Json.field?, Json.lookup?]
  | apply op left right ihleft ihright =>
    refine .apply ?_ ?_ ?_ ?_ ihleft ihright <;>
      simp [Formula.toJson, Json.field?, Json.lookup?]

def balanced : Formula :=
  .apply .subtract (.apply .subtract (.name "a") (.name "b"))
    (.apply .multiply (.apply .subtract (.name "c") (.name "d")) (.name "e"))

theorem evaluate_toSource_read_balanced :
    ∃ tree text, Exchange.read balanced.toJson = .ok tree ∧
      Source.toSource {} tree = .ok text ∧ ∀ ρ, evaluate ρ text = some (balanced.value ρ) := by
  obtain ⟨tree, text, hread, hsource, hvalue, -⟩ :=
    evaluate_toSource_read {} (encodes_toJson balanced) (by decide)
  exact ⟨tree, text, hread, hsource, hvalue (by decide)⟩

/-- The formula `a - (b - c)`, which is printed as the run `(a - b - c)`. -/
def tilted : Formula :=
  .apply .subtract (.name "a") (.apply .subtract (.name "b") (.name "c"))

theorem evaluate_toSource_read_tilted :
    ∃ tree text, Exchange.read tilted.toJson = .ok tree ∧ Source.toSource {} tree = .ok text ∧
      evaluate (fun _ => 1) text = some (-1) ∧ tilted.value (fun _ => 1) = 1 := by
  obtain ⟨tree, text, hread, hsource, hvalue⟩ :=
    exists_toSource_evaluate {} (encodes_toJson tilted) (by decide)
  exact ⟨tree, text, hread, hsource, hvalue _, rfl⟩

end ScriptTree
