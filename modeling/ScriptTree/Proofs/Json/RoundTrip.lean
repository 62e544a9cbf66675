import ScriptTree.Proofs.Json.Number

/-!
Reading JSON text that was written. Every step of the reader has one lemma about the text
that the writer puts there: the code points of a string, the blanks of an indentation, an
element and a member. A value whose objects have each name once and whose doubles are
finite is read back from its text, with any indentation.
-/

namespace ScriptTree.Json

section Strings

theorem hexValue?_hexDigit {n : Nat} (hn : n < 16) :
    (Text.hexDigit false n).hexValue? = some n := by
  interval_cases n <;> rfl

theorem hexValue?_hex {c : CodePoint} (hc : c.val < 0x10000) :
    ∃ h i j k, Text.hex false 4 c.val = [h, i, j, k] ∧ hexValue? h i j k = some c := by
  refine ⟨_, _, _, _, rfl, ?_⟩
  have hdigit : ∀ n, (Text.hexDigit false (n % 16)).hexValue? = some (n % 16) := fun n =>
    hexValue?_hexDigit (Nat.mod_lt n (by decide))
  have hsum : c.val / Nat.pow 16 3 % 16 * 0x1000 + c.val / Nat.pow 16 2 % 16 * 0x100 +
      c.val / Nat.pow 16 1 % 16 * 0x10 + c.val / Nat.pow 16 0 % 16 = c.val := by
    norm_num
    omega
  have hle := c.le_max
  simp only [hexValue?, hdigit, Option.bind_eq_bind, Option.bind_some]
  rw [hsum]
  simp [CodePoint.ofNat?, hle]

variable {start offset : Nat} {read rest : Text} {high : Bool}

theorem stringFrom_simple {e point : CodePoint} (hu : e.is 'u' = false)
    (he : simpleEscape? e = some point) :
    stringFrom start read high offset (CodePoint.ofChar '\\' :: e :: rest) =
      stringFrom start (point :: read) false (offset + 2) rest := by
  have hquote : (CodePoint.ofChar '\\').is '"' = false := by decide
  have hslash : (CodePoint.ofChar '\\').is '\\' = true := by decide
  rw [stringFrom.eq_def]
  simp [hquote, hslash, hu, he]

theorem stringFrom_control {c : CodePoint} (hc : c.val < 0x20) (hrest : rest ≠ []) :
    stringFrom start read high offset ("\\u" ++ Text.hex false 4 c.val ++ rest) =
      stringFrom start (c :: read) false (offset + 6) rest := by
  obtain ⟨h, i, j, k, hhex, hvalue⟩ := hexValue?_hex (c := c) (by omega)
  have hquote : (CodePoint.ofChar '\\').is '"' = false := by decide
  have hslash : (CodePoint.ofChar '\\').is '\\' = true := by decide
  have hu : (CodePoint.ofChar 'u').is 'u' = true := by decide
  have hlow : c.isLowSurrogate = false := by
    simp only [CodePoint.isLowSurrogate, CodePoint.within]
    simp
    omega
  have hhigh : c.isHighSurrogate = false := by
    simp only [CodePoint.isHighSurrogate, CodePoint.within]
    simp
    omega
  have hadd : addUnit high c read = c :: read := by
    cases read <;> simp [addUnit, hlow]
  have hshape : "\\u" ++ Text.hex false 4 c.val ++ rest =
      CodePoint.ofChar '\\' :: CodePoint.ofChar 'u' :: h :: i :: j :: k :: rest := by
    rw [hhex]
    rfl
  have hmore : rest.isEmpty = false := by simpa using hrest
  rw [hshape, stringFrom.eq_def]
  simp [hquote, hslash, hu, hvalue, hmore, hadd, hhigh]

/-- A code point of a string is read back from how it is written. -/
theorem stringFrom_escapedPoint (c : CodePoint) (hrest : rest ≠ []) :
    stringFrom start read high offset (escapedPoint c ++ rest) =
      stringFrom start (c :: read) false (offset + (escapedPoint c).length) rest := by
  have hsimple : ∀ e : CodePoint, e.is 'u' = false → simpleEscape? e = some c →
      stringFrom start read high offset ([CodePoint.ofChar '\\', e] ++ rest) =
        stringFrom start (c :: read) false (offset + 2) rest := fun e hu he =>
    stringFrom_simple hu he
  fun_cases escapedPoint c with
  | case1 hc =>
    obtain rfl := CodePoint.is_iff.mp hc
    exact hsimple (CodePoint.ofChar '"') (by decide) (by decide)
  | case2 _ hc =>
    obtain rfl := CodePoint.is_iff.mp hc
    exact hsimple (CodePoint.ofChar '\\') (by decide) (by decide)
  | case3 _ _ hc =>
    obtain rfl := CodePoint.is_iff.mp hc
    exact hsimple (CodePoint.ofChar 'n') (by decide) (by decide)
  | case4 _ _ _ hc =>
    obtain rfl := CodePoint.is_iff.mp hc
    exact hsimple (CodePoint.ofChar 'r') (by decide) (by decide)
  | case5 _ _ _ _ hc =>
    obtain rfl := CodePoint.is_iff.mp hc
    exact hsimple (CodePoint.ofChar 't') (by decide) (by decide)
  | case6 _ _ _ _ _ hc =>
    obtain rfl : c = CodePoint.ofChar '\x08' := CodePoint.ext_val hc
    exact hsimple (CodePoint.ofChar 'b') (by decide) (by decide)
  | case7 _ _ _ _ _ _ hc =>
    obtain rfl : c = CodePoint.ofChar '\x0c' := CodePoint.ext_val hc
    exact hsimple (CodePoint.ofChar 'f') (by decide) (by decide)
  | case8 _ _ _ _ _ _ _ hcontrol => exact stringFrom_control hcontrol hrest
  | case9 hquote hbackslash _ _ _ _ _ hcontrol =>
    show stringFrom start read high offset (c :: rest) = _
    rw [stringFrom.eq_def]
    simp [hquote, hbackslash, hcontrol]

/-- The code points of a string are read back, up to the quote that closes it. -/
theorem stringFrom_escaped (start : Nat) (rest t read : Text) (high : Bool) (offset : Nat) :
    ∃ offset', stringFrom start read high offset
        (t.flatMap escapedPoint ++ CodePoint.ofChar '"' :: rest) =
      .ok (read.reverse ++ t, ⟨rest, offset'⟩) := by
  induction t generalizing read high offset with
  | nil =>
    have hquote : (CodePoint.ofChar '"').is '"' = true := by decide
    refine ⟨offset + 1, ?_⟩
    rw [List.flatMap_nil, List.nil_append, stringFrom.eq_def]
    simp [hquote]
  | cons c t ih =>
    obtain ⟨offset', hread⟩ := ih (c :: read) false (offset + (escapedPoint c).length)
    refine ⟨offset', ?_⟩
    rw [List.flatMap_cons, List.append_assoc, stringFrom_escapedPoint c (by simp), hread]
    simp

end Strings

section Steps

/-- A value is read and the text is left after it; where that is does not matter. -/
def Yields {α : Type} (outcome : Except Failure (α × Cursor)) (value : α) (rest : Text) : Prop :=
  ∃ offset, outcome = .ok (value, ⟨rest, offset⟩)

def AllBlank (t : Text) : Prop := ∀ c ∈ t, isBlank c = true

theorem skipBlanks_append {blanks rest : Text} (offset : Nat) (hblanks : AllBlank blanks)
    (hrest : stops isBlank rest = true) :
    skipBlanks ⟨blanks ++ rest, offset⟩ = ⟨rest, offset + blanks.length⟩ := by
  simp [skipBlanks, Cursor.advance, takeWhile_stops hblanks hrest]

theorem skipBlanks_cons {c : CodePoint} (rest : Text) (offset : Nat) (hc : isBlank c = false) :
    skipBlanks ⟨c :: rest, offset⟩ = ⟨c :: rest, offset⟩ := by
  simp [skipBlanks, Cursor.advance, hc]

variable {fuel offset : Nat} {here after blanks rest : Text} {value result : Json}

/-- The last element of an array. -/
theorem elementsFrom_last {read : List Json} (hblanks : AllBlank blanks)
    (hvalue : Yields (valueFrom fuel ⟨here, offset⟩) value
      (blanks ++ CodePoint.ofChar ']' :: rest)) :
    Yields (elementsFrom (fuel + 1) read ⟨here, offset⟩)
      (.array (read.reverse ++ [value])) rest := by
  obtain ⟨offset', hvalue⟩ := hvalue
  have hstop : stops isBlank (CodePoint.ofChar ']' :: rest) = true := rfl
  have hbracket : (CodePoint.ofChar ']').is ']' = true := by decide
  refine ⟨offset' + blanks.length + 1, ?_⟩
  rw [elementsFrom, hvalue]
  simp [bind, Except.bind, pure, Except.pure, skipBlanks_append offset' hblanks hstop, hbracket,
    Cursor.advance]

/-- An element of an array that another one follows. -/
theorem elementsFrom_next {read : List Json} (hblanks : AllBlank blanks)
    (hafter : stops isBlank after = true)
    (hvalue : Yields (valueFrom fuel ⟨here, offset⟩) value
      (CodePoint.ofChar ',' :: (blanks ++ after)))
    (hnext : ∀ offset', Yields (elementsFrom fuel (value :: read) ⟨after, offset'⟩) result rest) :
    Yields (elementsFrom (fuel + 1) read ⟨here, offset⟩) result rest := by
  obtain ⟨offset', hvalue⟩ := hvalue
  obtain ⟨offset'', hnext⟩ := hnext (offset' + 1 + blanks.length)
  have hskip := skipBlanks_cons (blanks ++ after) offset'
    (show isBlank (CodePoint.ofChar ',') = false by decide)
  have hbracket : (CodePoint.ofChar ',').is ']' = false := by decide
  have hcomma : (CodePoint.ofChar ',').is ',' = true := by decide
  refine ⟨offset'', ?_⟩
  rw [elementsFrom, hvalue]
  simp [bind, Except.bind, hskip, hbracket, hcomma, Cursor.advance,
    skipBlanks_append (offset' + 1) hblanks hafter, hnext]

/-- The name of a member is read up to its value. -/
theorem membersFrom_named (read : List (Text × Json)) (name : Text) (offset : Nat)
    (hhere : stops isBlank here = true)
    (hvalue : ∀ offset', Yields (valueFrom fuel ⟨here, offset'⟩) value after) :
    ∃ offset', membersFrom (fuel + 1) read ⟨quoted name ++ ": " ++ here, offset⟩ =
      match (skipBlanks ⟨after, offset'⟩).rest with
      | e :: _ =>
        if e.is '\x7d' then
          .ok (.object (insert read name value), (skipBlanks ⟨after, offset'⟩).advance 1)
        else if e.is ',' then
          membersFrom fuel (insert read name value)
            (skipBlanks ((skipBlanks ⟨after, offset'⟩).advance 1))
        else (skipBlanks ⟨after, offset'⟩).fail .expectedComma
      | [] => (skipBlanks ⟨after, offset'⟩).fail .expectedComma := by
  have hshape : quoted name ++ ": " ++ here = CodePoint.ofChar '"' :: (name.flatMap escapedPoint ++
      CodePoint.ofChar '"' :: (CodePoint.ofChar ':' :: ([CodePoint.ofChar ' '] ++ here))) := by
    simp [quoted, Text.ofString]
  obtain ⟨named, hname⟩ := stringFrom_escaped offset
    (CodePoint.ofChar ':' :: ([CodePoint.ofChar ' '] ++ here)) name [] false (offset + 1)
  have hcolon := skipBlanks_cons ([CodePoint.ofChar ' '] ++ here) named
    (show isBlank (CodePoint.ofChar ':') = false by decide)
  have hblank : AllBlank [CodePoint.ofChar ' '] := by
    intro c hc
    obtain rfl := List.mem_singleton.mp hc
    decide
  have hskip := skipBlanks_append (named + 1) hblank hhere
  obtain ⟨offset', hvalue⟩ := hvalue (named + 1 + [CodePoint.ofChar ' '].length)
  have hquote : (CodePoint.ofChar '"').is '"' = true := by decide
  have hmark : (CodePoint.ofChar ':').is ':' = true := by decide
  refine ⟨offset', ?_⟩
  rw [hshape, membersFrom]
  simp only [hquote, if_true, hname, bind, Except.bind, hcolon, hmark, Cursor.advance,
    List.drop_one, List.tail_cons, hskip, hvalue]
  rfl

/-- The last member of an object. -/
theorem membersFrom_last {read : List (Text × Json)} (name : Text)
    (hhere : stops isBlank here = true) (hblanks : AllBlank blanks)
    (hvalue : ∀ offset', Yields (valueFrom fuel ⟨here, offset'⟩) value
      (blanks ++ CodePoint.ofChar '\x7d' :: rest)) :
    Yields (membersFrom (fuel + 1) read ⟨quoted name ++ ": " ++ here, offset⟩)
      (.object (insert read name value)) rest := by
  obtain ⟨offset', hread⟩ := membersFrom_named read name offset hhere hvalue
  have hstop : stops isBlank (CodePoint.ofChar '\x7d' :: rest) = true := rfl
  have hbrace : (CodePoint.ofChar '\x7d').is '\x7d' = true := by decide
  refine ⟨offset' + blanks.length + 1, ?_⟩
  rw [hread]
  simp [skipBlanks_append offset' hblanks hstop, hbrace, Cursor.advance]

/-- A member of an object that another one follows. -/
theorem membersFrom_next {read : List (Text × Json)} (name : Text)
    (hhere : stops isBlank here = true) (hblanks : AllBlank blanks)
    (hafter : stops isBlank after = true)
    (hvalue : ∀ offset', Yields (valueFrom fuel ⟨here, offset'⟩) value
      (CodePoint.ofChar ',' :: (blanks ++ after)))
    (hnext : ∀ offset', Yields (membersFrom fuel (insert read name value) ⟨after, offset'⟩)
      result rest) :
    Yields (membersFrom (fuel + 1) read ⟨quoted name ++ ": " ++ here, offset⟩) result rest := by
  obtain ⟨offset', hread⟩ := membersFrom_named read name offset hhere hvalue
  obtain ⟨offset'', hnext⟩ := hnext (offset' + 1 + blanks.length)
  have hskip := skipBlanks_cons (blanks ++ after) offset'
    (show isBlank (CodePoint.ofChar ',') = false by decide)
  have hbrace : (CodePoint.ofChar ',').is '\x7d' = false := by decide
  have hcomma : (CodePoint.ofChar ',').is ',' = true := by decide
  refine ⟨offset'', ?_⟩
  rw [hread]
  simp [hskip, hbrace, hcomma, Cursor.advance, skipBlanks_append (offset' + 1) hblanks hafter,
    hnext]

theorem valueFrom_text (t : Text) :
    Yields (valueFrom (fuel + 1) ⟨quoted t ++ rest, offset⟩) (.text t) rest := by
  have hshape : quoted t ++ rest =
      CodePoint.ofChar '"' :: (t.flatMap escapedPoint ++ CodePoint.ofChar '"' :: rest) := by
    simp [quoted, Text.ofString]
  obtain ⟨offset', hread⟩ := stringFrom_escaped offset rest t [] false (offset + 1)
  have hquote : (CodePoint.ofChar '"').is '"' = true := by decide
  refine ⟨offset', ?_⟩
  rw [hshape, valueFrom]
  simp [hquote, hread, bind, Except.bind, pure, Except.pure]

/-- A value starts neither with a blank nor with a closing bracket nor with a mark of an
encoding. -/
def startsValue (c : CodePoint) : Bool :=
  !isBlank c && !c.is ']' && !c.is '\x7d' && c.val != 0xFEFF

theorem valueFrom_array {d : CodePoint} (hblanks : AllBlank blanks)
    (hstart : startsValue d = true)
    (helements : ∀ offset', Yields (elementsFrom fuel [] ⟨d :: after, offset'⟩) result rest) :
    Yields (valueFrom (fuel + 1) ⟨CodePoint.ofChar '[' :: (blanks ++ d :: after), offset⟩)
      result rest := by
  simp only [startsValue, Bool.and_eq_true, Bool.not_eq_true'] at hstart
  obtain ⟨offset', helements⟩ := helements (offset + 1 + blanks.length)
  have hstop : stops isBlank (d :: after) = true := by simp [stops, hstart]
  have hskip := skipBlanks_append (offset + 1) hblanks hstop
  have hquote : (CodePoint.ofChar '[').is '"' = false := by decide
  have hbrace : (CodePoint.ofChar '[').is '\x7b' = false := by decide
  have hbracket : (CodePoint.ofChar '[').is '[' = true := by decide
  refine ⟨offset', ?_⟩
  rw [valueFrom]
  simp [hquote, hbrace, hbracket, Cursor.advance, hskip, hstart, helements]

theorem valueFrom_object {d : CodePoint} (hblanks : AllBlank blanks)
    (hstart : startsValue d = true)
    (hmembers : ∀ offset', Yields (membersFrom fuel [] ⟨d :: after, offset'⟩) result rest) :
    Yields (valueFrom (fuel + 1) ⟨CodePoint.ofChar '\x7b' :: (blanks ++ d :: after), offset⟩)
      result rest := by
  simp only [startsValue, Bool.and_eq_true, Bool.not_eq_true'] at hstart
  obtain ⟨offset', hmembers⟩ := hmembers (offset + 1 + blanks.length)
  have hstop : stops isBlank (d :: after) = true := by simp [stops, hstart]
  have hskip := skipBlanks_append (offset + 1) hblanks hstop
  have hquote : (CodePoint.ofChar '\x7b').is '"' = false := by decide
  have hbrace : (CodePoint.ofChar '\x7b').is '\x7b' = true := by decide
  refine ⟨offset', ?_⟩
  rw [valueFrom]
  simp [hquote, hbrace, Cursor.advance, hskip, hstart, hmembers]

theorem valueFrom_scalar {t : Text} {c : CodePoint} {more : Text} (ht : t ++ rest = c :: more)
    (hopens : (c.is '"' || c.is '\x7b' || c.is '[') = false)
    (hscalar : scalar? (t ++ rest) = some (value, t.length)) :
    Yields (valueFrom (fuel + 1) ⟨t ++ rest, offset⟩) value rest := by
  simp only [Bool.or_eq_false_iff] at hopens
  refine ⟨offset + t.length, ?_⟩
  rw [valueFrom]
  have hdrop : (c :: more).drop t.length = rest := by rw [← ht, List.drop_left]
  rw [ht] at hscalar ⊢
  simp [hopens, hscalar, Cursor.advance, pure, Except.pure, hdrop]

end Steps

section Values

/-- The values that JSON text can stand for: the names in an object are distinct, and the
doubles are finite. -/
inductive Renderable : Json → Prop
  | null : Renderable .null
  | bool (b : Bool) : Renderable (.bool b)
  | int (i : Int) : Renderable (.int i)
  | double {d : Double} (hfinite : d.isFinite = true) : Renderable (.double d)
  | text (t : Text) : Renderable (.text t)
  | array {items : List Json} (hitems : ∀ item ∈ items, Renderable item) :
    Renderable (.array items)
  | object {fields : List (Text × Json)} (hnames : (fields.map Prod.fst).Nodup)
    (hfields : ∀ field ∈ fields, Renderable field.2) : Renderable (.object fields)

theorem allBlank_lineBreak (indent : Option Nat) (depth : Nat) :
    AllBlank (lineBreak indent depth) := by
  cases indent with
  | none => simp [AllBlank, lineBreak, Text.ofString]
  | some width =>
    intro c hc
    rcases List.mem_cons.mp hc with rfl | hc
    · decide
    · obtain rfl := List.eq_of_mem_replicate hc
      decide

def gap (indent : Option Nat) (depth : Nat) : Text :=
  match indent with
  | none => " "
  | some _ => lineBreak indent depth

theorem separator_eq (indent : Option Nat) (depth : Nat) :
    separator indent depth = CodePoint.ofChar ',' :: gap indent depth := by
  cases indent <;> rfl

theorem allBlank_gap (indent : Option Nat) (depth : Nat) : AllBlank (gap indent depth) := by
  cases indent with
  | none =>
    intro c hc
    obtain rfl : c = CodePoint.ofChar ' ' := by simpa [gap, Text.ofString] using hc
    decide
  | some width => exact allBlank_lineBreak (some width) depth

/-- A number ends before a line break and a closing bracket. -/
theorem stops_lineBreak (indent : Option Nat) (depth : Nat) {c : CodePoint} {rest : Text}
    (hc : continuesNumber c = false) :
    stops continuesNumber (lineBreak indent depth ++ c :: rest) = true := by
  cases indent with
  | none => simp [lineBreak, Text.ofString, stops, hc]
  | some width => rfl

/-- The text of a value at any depth starts like a value and is read back. -/
structure ReadsBack (indent : Option Nat) (j : Json) : Prop where
  starts : ∀ depth, ∃ c more, renderAt indent depth j = c :: more ∧ startsValue c = true
  reads : ∀ depth fuel offset rest, stops continuesNumber rest = true →
    2 * (renderAt indent depth j).length ≤ fuel →
    Yields (valueFrom fuel ⟨renderAt indent depth j ++ rest, offset⟩) j rest

variable {indent : Option Nat} {j : Json} {t : Text}

theorem ReadsBack.stops_append (h : ReadsBack indent j) (depth : Nat) (rest : Text) :
    stops isBlank (renderAt indent depth j ++ rest) = true := by
  obtain ⟨c, more, heq, hc⟩ := h.starts depth
  simp only [startsValue, Bool.and_eq_true, Bool.not_eq_true'] at hc
  simp [heq, stops, hc]

/-- What is read by its words or digits alone. -/
theorem ReadsBack.of_scalar (c : CodePoint) (more : Text)
    (hrender : ∀ depth, renderAt indent depth j = t) (ht : t = c :: more)
    (hstart : startsValue c = true) (hopens : (c.is '"' || c.is '\x7b' || c.is '[') = false)
    (hscalar : ∀ rest, stops continuesNumber rest = true →
      scalar? (t ++ rest) = some (j, t.length)) : ReadsBack indent j where
  starts depth := ⟨c, more, by rw [hrender, ht], hstart⟩
  reads depth fuel offset rest hrest hfuel := by
    rw [hrender depth] at hfuel ⊢
    obtain ⟨fuel, rfl⟩ : ∃ k, fuel = k + 1 := ⟨fuel - 1, by simp [ht] at hfuel; omega⟩
    exact valueFrom_scalar (by rw [ht, List.cons_append]) hopens (hscalar rest hrest)

theorem ReadsBack.of_isNumber (ht : ∀ depth, renderAt indent depth j = t)
    (hnumber : IsNumber t j) : ReadsBack indent j := by
  have hstarts : startsNumber (t ++ []) = true := hnumber.starts
  cases t with
  | nil => simp [startsNumber] at hstarts
  | cons c more =>
    have hc : c.val = 0x2D ∨ 0x30 ≤ c.val ∧ c.val ≤ 0x39 := by
      simp only [List.cons_append, startsNumber, CodePoint.isAsciiDigit, CodePoint.within,
        CodePoint.is, Bool.or_eq_true, Bool.and_eq_true, decide_eq_true_eq, beq_iff_eq] at hstarts
      exact hstarts.elim .inr fun h => .inl h.1
    refine .of_scalar c more ht rfl ?_ ?_ fun rest hrest => scalar?_isNumber hnumber hrest
    · simp only [startsValue, isBlank, CodePoint.is]
      simp
      omega
    · simp only [CodePoint.is]
      simp
      omega

theorem ReadsBack.text (t : Text) : ReadsBack indent (.text t) where
  starts depth := ⟨CodePoint.ofChar '"', t.flatMap escapedPoint ++ "\"", rfl, by decide⟩
  reads depth fuel offset rest hrest hfuel := by
    have hlength : 0 < (quoted t).length := by simp [quoted, Text.ofString]
    obtain ⟨fuel, rfl⟩ : ∃ k, fuel = k + 1 :=
      ⟨fuel - 1, by simp only [renderAt] at hfuel; omega⟩
    exact valueFrom_text t

/-- The elements of an array are read back. The fuel is twice the length of their text and
one more: an element takes one, and the comma after it pays for the next. -/
theorem elementsFrom_items (depth outer : Nat) (rest : Text) (items : List Json) (item : Json)
    (hitems : ∀ i ∈ item :: items, ReadsBack indent i) (read : List Json) (fuel offset : Nat)
    (hfuel : 2 * (Text.joinWith (separator indent depth)
      (renderItems indent depth (item :: items))).length + 1 ≤ fuel) :
    Yields (elementsFrom fuel read ⟨Text.joinWith (separator indent depth)
        (renderItems indent depth (item :: items)) ++
        (lineBreak indent outer ++ CodePoint.ofChar ']' :: rest), offset⟩)
      (.array (read.reverse ++ item :: items)) rest := by
  have hitem := hitems item (by simp)
  induction items generalizing item read fuel offset with
  | nil =>
    obtain ⟨fuel, rfl⟩ : ∃ k, fuel = k + 1 := ⟨fuel - 1, by omega⟩
    refine elementsFrom_last (allBlank_lineBreak indent outer) ?_
    refine hitem.reads depth fuel offset _ (stops_lineBreak indent outer (by decide)) ?_
    simp only [renderItems, Text.joinWith] at hfuel
    omega
  | cons next items ih =>
    obtain ⟨fuel, rfl⟩ : ∃ k, fuel = k + 1 := ⟨fuel - 1, by omega⟩
    have hnext := hitems next (by simp)
    have hbody : Text.joinWith (separator indent depth)
        (renderItems indent depth (item :: next :: items)) =
        renderAt indent depth item ++ CodePoint.ofChar ',' :: (gap indent depth ++
          Text.joinWith (separator indent depth) (renderItems indent depth (next :: items))) := by
      simp [renderItems, Text.joinWith, separator_eq]
    have hlength := congrArg List.length hbody
    simp only [List.length_append, List.length_cons] at hlength
    obtain ⟨more, hmore⟩ := Text.joinWith_cons (separator indent depth) (renderAt indent depth next)
      (renderItems indent depth items)
    have hstop : stops isBlank (Text.joinWith (separator indent depth)
        (renderItems indent depth (next :: items)) ++
          (lineBreak indent outer ++ CodePoint.ofChar ']' :: rest)) = true := by
      rw [renderItems, hmore, List.append_assoc]
      exact hnext.stops_append depth _
    have hrest := ih next (fun i hi => hitems i (List.mem_cons_of_mem item hi)) (item :: read) fuel
    rw [hbody, List.append_assoc, List.cons_append, List.append_assoc]
    refine elementsFrom_next (allBlank_gap indent depth) hstop
      (hitem.reads depth fuel offset _ rfl (by omega)) fun offset' => ?_
    simpa using hrest offset' (by omega) hnext

theorem insert_fresh {fields : List (Text × Json)} {name : Text} {value : Json}
    (hname : name ∉ fields.map Prod.fst) :
    insert fields name value = fields ++ [(name, value)] := by
  induction fields with
  | nil => rfl
  | cons field fields ih =>
    obtain ⟨key, old⟩ := field
    simp only [List.map_cons, List.mem_cons, not_or] at hname
    rw [insert, if_neg (Ne.symm hname.1), ih hname.2, List.cons_append]

theorem insert_of_nodup {read fields : List (Text × Json)} {name : Text} {value : Json}
    (hnames : ((read ++ (name, value) :: fields).map Prod.fst).Nodup) :
    insert read name value = read ++ [(name, value)] := by
  refine insert_fresh fun hname => ?_
  rw [List.map_append, List.nodup_append] at hnames
  exact hnames.2.2 name hname name (by simp) rfl

/-- The members of an object are read back, after those that were read before. -/
theorem membersFrom_fields (depth outer : Nat) (rest : Text) (fields : List (Text × Json))
    (name : Text) (value : Json) (hfields : ∀ f ∈ (name, value) :: fields, ReadsBack indent f.2)
    (read : List (Text × Json)) (hnames : ((read ++ (name, value) :: fields).map Prod.fst).Nodup)
    (fuel offset : Nat)
    (hfuel : 2 * (Text.joinWith (separator indent depth)
      (renderFields indent depth ((name, value) :: fields))).length + 1 ≤ fuel) :
    Yields (membersFrom fuel read ⟨Text.joinWith (separator indent depth)
        (renderFields indent depth ((name, value) :: fields)) ++
        (lineBreak indent outer ++ CodePoint.ofChar '\x7d' :: rest), offset⟩)
      (.object (read ++ (name, value) :: fields)) rest := by
  induction fields generalizing name value read fuel offset with
  | nil =>
    obtain ⟨fuel, rfl⟩ : ∃ k, fuel = k + 1 := ⟨fuel - 1, by omega⟩
    have hvalue : ReadsBack indent value := hfields (name, value) (by simp)
    simp only [renderFields, Text.joinWith] at hfuel ⊢
    rw [List.append_assoc, ← insert_of_nodup hnames]
    simp only [List.length_append] at hfuel
    refine membersFrom_last name (hvalue.stops_append depth _) (allBlank_lineBreak indent outer)
      fun offset' => ?_
    exact hvalue.reads depth fuel offset' _ (stops_lineBreak indent outer (by decide)) (by omega)
  | cons next fields ih =>
    obtain ⟨fuel, rfl⟩ : ∃ k, fuel = k + 1 := ⟨fuel - 1, by omega⟩
    obtain ⟨name', value'⟩ := next
    have hvalue : ReadsBack indent value := hfields (name, value) (by simp)
    have hbody : Text.joinWith (separator indent depth)
        (renderFields indent depth ((name, value) :: (name', value') :: fields)) =
        quoted name ++ ": " ++ (renderAt indent depth value ++ CodePoint.ofChar ',' ::
          (gap indent depth ++ Text.joinWith (separator indent depth)
            (renderFields indent depth ((name', value') :: fields)))) := by
      simp [renderFields, Text.joinWith, separator_eq]
    have hlength := congrArg List.length hbody
    simp only [List.length_append, List.length_cons] at hlength
    obtain ⟨more, hmore⟩ := Text.joinWith_cons (separator indent depth)
      (quoted name' ++ ": " ++ renderAt indent depth value') (renderFields indent depth fields)
    have hstop : stops isBlank (Text.joinWith (separator indent depth)
        (renderFields indent depth ((name', value') :: fields)) ++
          (lineBreak indent outer ++ CodePoint.ofChar '\x7d' :: rest)) = true := by
      rw [renderFields, hmore]
      rfl
    have hnames' : ((read ++ [(name, value)] ++ (name', value') :: fields).map Prod.fst).Nodup := by
      simpa using hnames
    have hrest := ih name' value' (fun f hf => hfields f (List.mem_cons_of_mem _ hf))
      (read ++ [(name, value)]) hnames' fuel
    have hhere (tail : Text) : quoted name ++ ": " ++ (renderAt indent depth value ++
        CodePoint.ofChar ',' :: (gap indent depth ++ Text.joinWith (separator indent depth)
          (renderFields indent depth ((name', value') :: fields)))) ++ tail =
        quoted name ++ ": " ++ (renderAt indent depth value ++ CodePoint.ofChar ',' ::
          (gap indent depth ++ (Text.joinWith (separator indent depth)
            (renderFields indent depth ((name', value') :: fields)) ++ tail))) := by simp
    rw [hbody, hhere]
    refine membersFrom_next name (hvalue.stops_append depth _) (allBlank_gap indent depth) hstop
      (fun offset' => hvalue.reads depth fuel offset' _ rfl (by omega)) fun offset' => ?_
    rw [insert_of_nodup hnames]
    simpa using hrest offset' (by omega)

theorem bracketed_cons (indent : Option Nat) (depth : Nat) (opening closing : CodePoint)
    (part : Text)
    (parts : List Text) :
    bracketed indent depth opening closing (part :: parts) =
      opening :: (lineBreak indent (depth + 1) ++
        (Text.joinWith (separator indent (depth + 1)) (part :: parts) ++
          (lineBreak indent depth ++ [closing]))) := by
  simp [bracketed]

theorem ReadsBack.array {items : List Json} (hitems : ∀ item ∈ items, ReadsBack indent item) :
    ReadsBack indent (.array items) := by
  cases items with
  | nil =>
    refine ⟨fun depth => ⟨CodePoint.ofChar '[', "]", rfl, by decide⟩, ?_⟩
    intro depth fuel offset rest hrest hfuel
    have hlength : (renderAt indent depth (.array [])).length = 2 := rfl
    obtain ⟨fuel, rfl⟩ : ∃ k, fuel = k + 1 := ⟨fuel - 1, by omega⟩
    exact ⟨offset + 2, rfl⟩
  | cons item items =>
    have htext (depth : Nat) := bracketed_cons indent depth (CodePoint.ofChar '[')
      (CodePoint.ofChar ']') (renderAt indent (depth + 1) item)
      (renderItems indent (depth + 1) items)
    refine ⟨fun depth => ⟨_, _, htext depth, by decide⟩, ?_⟩
    intro depth fuel offset rest hrest hfuel
    simp only [renderAt, renderItems, htext, List.length_append, List.length_cons] at hfuel ⊢
    obtain ⟨fuel, rfl⟩ : ∃ k, fuel = k + 1 := ⟨fuel - 1, by omega⟩
    obtain ⟨c, more, hitem, hc⟩ := (hitems item (by simp)).starts (depth + 1)
    obtain ⟨more', hbody⟩ := Text.joinWith_cons (separator indent (depth + 1))
      (renderAt indent (depth + 1) item) (renderItems indent (depth + 1) items)
    have helements (offset' : Nat) := elementsFrom_items (depth + 1) depth rest items item hitems
      [] fuel offset' (by rw [renderItems]; omega)
    rw [renderItems, hbody, hitem] at helements
    rw [hbody, hitem]
    simpa using valueFrom_array (allBlank_lineBreak indent (depth + 1)) hc helements

theorem ReadsBack.object {fields : List (Text × Json)} (hnames : (fields.map Prod.fst).Nodup)
    (hfields : ∀ field ∈ fields, ReadsBack indent field.2) :
    ReadsBack indent (.object fields) := by
  cases fields with
  | nil =>
    refine ⟨fun depth => ⟨CodePoint.ofChar '\x7b', "\x7d", rfl, by decide⟩, ?_⟩
    intro depth fuel offset rest hrest hfuel
    have hlength : (renderAt indent depth (.object [])).length = 2 := rfl
    obtain ⟨fuel, rfl⟩ : ∃ k, fuel = k + 1 := ⟨fuel - 1, by omega⟩
    exact ⟨offset + 2, rfl⟩
  | cons field fields =>
    obtain ⟨name, value⟩ := field
    have htext (depth : Nat) := bracketed_cons indent depth (CodePoint.ofChar '\x7b')
      (CodePoint.ofChar '\x7d') (quoted name ++ ": " ++ renderAt indent (depth + 1) value)
      (renderFields indent (depth + 1) fields)
    refine ⟨fun depth => ⟨_, _, htext depth, by decide⟩, ?_⟩
    intro depth fuel offset rest hrest hfuel
    simp only [renderAt, renderFields, htext, List.length_append, List.length_cons] at hfuel ⊢
    obtain ⟨fuel, rfl⟩ : ∃ k, fuel = k + 1 := ⟨fuel - 1, by omega⟩
    obtain ⟨more, hbody⟩ := Text.joinWith_cons (separator indent (depth + 1))
      (quoted name ++ ": " ++ renderAt indent (depth + 1) value)
      (renderFields indent (depth + 1) fields)
    have hhead : quoted name ++ ": " ++ renderAt indent (depth + 1) value ++ more =
        CodePoint.ofChar '"' :: (name.flatMap escapedPoint ++ "\"" ++ ": " ++
          renderAt indent (depth + 1) value ++ more) := by
      simp [quoted, Text.ofString]
    have hmembers (offset' : Nat) := membersFrom_fields (depth + 1) depth rest fields name value
      hfields [] hnames fuel offset' (by rw [renderFields]; omega)
    rw [renderFields, hbody, hhead] at hmembers
    rw [hbody, hhead]
    simpa using valueFrom_object (allBlank_lineBreak indent (depth + 1)) (by decide) hmembers

/-- Every value that JSON text can stand for is read back. -/
theorem Renderable.readsBack (h : Renderable j) : ReadsBack indent j := by
  induction h with
  | null =>
    exact .of_scalar (t := "null") (CodePoint.ofChar 'n') "ull" (fun _ => rfl) rfl (by decide)
      (by decide) fun rest hrest => rfl
  | bool b =>
    cases b with
    | true =>
      exact .of_scalar (t := "true") (CodePoint.ofChar 't') "rue" (fun _ => rfl) rfl (by decide)
        (by decide) fun rest hrest => rfl
    | false =>
      exact .of_scalar (t := "false") (CodePoint.ofChar 'f') "alse" (fun _ => rfl) rfl (by decide)
        (by decide) fun rest hrest => rfl
  | int i => exact .of_isNumber (fun _ => by rw [renderAt]) (isNumber_ofInt i)
  | double hfinite => exact .of_isNumber (fun _ => by rw [renderAt]) (isNumber_double hfinite)
  | text t => exact .text t
  | array _ ih => exact .array ih
  | object hnames _ ih => exact .object hnames ih

/-- A value is read back from its text, whatever the indentation. -/
theorem parse_render (indent : Option Int) (h : Renderable j) :
    parse (render indent j) = .ok j := by
  have hback : ReadsBack (indent.map Int.toNat) j := h.readsBack
  obtain ⟨c, more, htext, hc⟩ := hback.starts 0
  obtain ⟨offset, hread⟩ := hback.reads 0 (2 * (render indent j).length + 1) 0 [] rfl
    (Nat.le_succ _)
  rw [List.append_nil, htext] at hread
  simp only [startsValue, Bool.and_eq_true, Bool.not_eq_true', bne_iff_ne] at hc
  have hskip := skipBlanks_cons more 0 hc.1.1.1
  have hrender : render indent j = c :: more := htext
  rw [hrender] at hread ⊢
  simp only [parse, hc.2, if_false, parseDecoded, hskip, hread, bind, Except.bind]
  rfl

end Values

end ScriptTree.Json
