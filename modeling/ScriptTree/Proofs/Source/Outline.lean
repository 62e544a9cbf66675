import ScriptTree.Proofs.Outcome
import ScriptTree.Proofs.Source.Rendering

/-!
How lines are indented and ended changes nothing but the indentations and the line ends. What
a printer emits is an outline that the tree and the position alone determine: fragments that
stand as they are, indentations by a number of levels, and line ends. Settings that indent and
end lines with texts fill in the outline. Printing fails under all of them or under none, for
the same reason and after the same fragments.
-/

namespace ScriptTree.Source

/-- One piece of output before lines have an indentation and an end. -/
inductive Origin where
  | fixed (f : Fragment)
  | indentation (levels : Nat)
  | lineEnd
deriving DecidableEq

def Origin.fragment (unit ending : Text) : Origin → Fragment
  | .fixed f => f
  | .indentation levels => .text (Text.repeated unit levels)
  | .lineEnd => .text ending

def Chunk.origin : Chunk → Origin
  | .text t => .fixed (.text t)
  | .space => .fixed (.text " ")
  | .indentation depth => .indentation depth
  | .lineEnd => .lineEnd
  | .value v => .fixed (.value v.typeName v.size)

namespace Position

/-- What printing a tree from a position emits, chunk by chunk. -/
def emits (p : Position) (s : PrintSettings) (t : Tree) : List (Except Misuse Fragment) :=
  (p.print s.mode t).laid.map fun l => s.fragment l.chunk

/-- What printing a tree prettily from a position emits under all settings. -/
def outline (p : Position) (t : Tree) : List Origin :=
  (p.print .pretty t).laid.map fun l => l.chunk.origin

end Position

/-- What a sink of texts takes: the texts before the first fragment that is none. -/
def taken : List Fragment → List Text
  | .text t :: rest => t :: taken rest
  | _ => []

variable {s : PrintSettings} {unit ending : Text}

theorem fragment_origin (hindent : s.indent = .text unit) (hnewline : s.newline = .text ending)
    (chunk : Chunk) : s.fragment chunk = .ok (chunk.origin.fragment unit ending) := by
  cases chunk with
  | indentation depth =>
    simp [PrintSettings.fragment, PrintSettings.indentation, hindent, Chunk.origin,
      Origin.fragment]
  | lineEnd =>
    simp [PrintSettings.fragment, hnewline, Json.fragment, Chunk.origin, Origin.fragment]
  | _ => rfl

/-- A sink of texts takes the texts up to the first fragment that is none. -/
theorem deliver_text_eq (hindent : s.indent = .text unit) (hnewline : s.newline = .text ending)
    (layout : Layout) (laid : List Laid) :
    (deliver s layout laid).text =
      (taken (laid.map fun l => l.chunk.origin.fragment unit ending)).flatten := by
  induction laid with
  | nil => rfl
  | cons first rest ih =>
    simp only [deliver, fragment_origin hindent hnewline first.chunk, List.map_cons]
    cases first.chunk.origin.fragment unit ending with
    | text t => exact congrArg (t ++ ·) ih
    | value typeName size => rfl

/-- Two sinks that are handed the same layout under different texts for indentations and line
ends take it equally far. -/
theorem deliver_stops_alike {s₁ s₂ : PrintSettings} {unit₁ ending₁ unit₂ ending₂ : Text}
    (hindent₁ : s₁.indent = .text unit₁) (hnewline₁ : s₁.newline = .text ending₁)
    (hindent₂ : s₂.indent = .text unit₂) (hnewline₂ : s₂.newline = .text ending₂)
    (layout : Layout) (laid : List Laid) :
    (deliver s₁ layout laid).failure = (deliver s₂ layout laid).failure ∧
      (deliver s₁ layout laid).position = (deliver s₂ layout laid).position := by
  induction laid with
  | nil => exact ⟨rfl, rfl⟩
  | cons first rest ih =>
    simp only [deliver, fragment_origin hindent₁ hnewline₁ first.chunk,
      fragment_origin hindent₂ hnewline₂ first.chunk]
    cases first.chunk.origin with
    | fixed f =>
      cases f with
      | text t => exact ih
      | value typeName size => exact ⟨rfl, rfl⟩
    | indentation levels => exact ih
    | lineEnd => exact ih

def IndentsByLevels (laid : List Laid) : Prop :=
  ∀ l ∈ laid, ∀ k, l.chunk = .indentation k → 1 ≤ k

theorem IndentsByLevels.append {a b : List Laid} (ha : IndentsByLevels a)
    (hb : IndentsByLevels b) : IndentsByLevels (a ++ b) := by
  intro l hl
  rcases List.mem_append.mp hl with hl | hl
  · exact ha l hl
  · exact hb l hl

namespace Position

variable {p : Position}

theorem indentsByLevels_indentation (p : Position) : IndentsByLevels p.indentation := by
  intro l hl k hk
  unfold indentation at hl
  split at hl
  · next h =>
    obtain rfl := List.mem_singleton.mp hl
    obtain rfl : p.depth = k := Chunk.indentation.inj hk
    simp only [Bool.and_eq_true, decide_eq_true_eq] at h
    exact Nat.one_le_iff_ne_zero.mpr h.2
  · cases hl

theorem indentsByLevels_spacing {first : Except Misuse Edge} {space : List Laid}
    (h : p.spacing first = .ok space) : IndentsByLevels space := by
  suffices ∀ l ∈ space, l.chunk = .space from fun l hl k hk => by simp [this l hl] at hk
  unfold spacing at h
  split at h
  · obtain rfl := Except.ok.inj h
    simp
  · obtain ⟨edge, _, h⟩ := bind_eq_ok.mp h
    obtain ⟨touches, _, h⟩ := bind_eq_ok.mp h
    cases touches with
    | false =>
      obtain rfl := Except.ok.inj h
      simp
    | true =>
      obtain rfl := Except.ok.inj h
      simp

theorem put_indentsByLevels {chunk : Chunk} (hchunk : ∀ k, chunk ≠ .indentation k)
    (first : Except Misuse Edge) (last : Except Misuse (Option Edge)) :
    IndentsByLevels (p.put chunk first last).laid := by
  have hchunk' : IndentsByLevels [⟨chunk, p.indented⟩] := by
    intro l hl k hk
    obtain rfl := List.mem_singleton.mp hl
    exact absurd hk (hchunk k)
  unfold put
  cases hspace : p.indented.spacing first with
  | error e => simpa only [hspace] using indentsByLevels_indentation p
  | ok space =>
    have hlaid := ((indentsByLevels_indentation p).append (indentsByLevels_spacing hspace)).append
      hchunk'
    cases last with
    | error e => simpa only [hspace] using hlaid
    | ok last => simpa only [hspace] using hlaid

theorem step_indentsByLevels (p : Position) (piece : Piece) :
    IndentsByLevels (p.step piece).laid := by
  cases piece with
  | text t =>
    simp only [step, write]
    split
    · exact put_indentsByLevels (fun _ => Chunk.noConfusion) _ _
    · intro l hl
      cases hl
  | value v =>
    simp only [step, writeValue]
    split
    · exact put_indentsByLevels (fun _ => Chunk.noConfusion) _ _
    · exact put_indentsByLevels (fun _ => Chunk.noConfusion) _ _
  | lineBreak => simp [step, IndentsByLevels]
  | deeper => simp [step, IndentsByLevels]
  | shallower => simp [step, IndentsByLevels]

theorem run_indentsByLevels (p : Position) (pieces : List Piece) :
    IndentsByLevels (p.run pieces).laid := by
  induction pieces generalizing p with
  | nil => simp [run, IndentsByLevels]
  | cons piece rest ih =>
    simp only [run]
    split
    · exact step_indentsByLevels p piece
    · exact (step_indentsByLevels p piece).append (ih _)

theorem one_le_of_mem_outline (t : Tree) {k : Nat} (h : .indentation k ∈ p.outline t) : 1 ≤ k := by
  obtain ⟨l, hl, hk⟩ := List.mem_map.mp h
  refine run_indentsByLevels p _ l hl k ?_
  cases hchunk : l.chunk with
  | indentation depth => rw [hchunk] at hk; exact congrArg _ (Origin.indentation.inj hk)
  | _ => rw [hchunk] at hk; cases hk

/-- Settings fill in an outline: with what is emitted for it, and with the text that a sink of
texts takes. -/
structure FillsIn (p : Position) (s : PrintSettings) (unit ending : Text) (t : Tree) : Prop where
  emits : p.emits s t = (p.outline t).map fun origin => .ok (origin.fragment unit ending)
  text : (p.deliver s t).text =
    (taken ((p.outline t).map (Origin.fragment unit ending))).flatten

theorem fillsIn (hmode : s.mode = .pretty) (hindent : s.indent = .text unit)
    (hnewline : s.newline = .text ending) (t : Tree) : p.FillsIn s unit ending t where
  emits := by
    rw [Position.emits, outline, hmode, List.map_map]
    exact List.map_congr_left fun l _ => fragment_origin hindent hnewline l.chunk
  text := by
    rw [outline, List.map_map, Position.deliver, hmode]
    exact deliver_text_eq hindent hnewline _ _

/-- Two ways to print a tree prettily that indent and end lines with different texts differ in
nothing else. Both fill in the outline of the tree, in which every indentation is by one level
at least. Both fail for the same reason or not at all, and go on from the same position. -/
theorem indent_newline_irrelevant (p : Position) (t : Tree) {s₁ s₂ : PrintSettings}
    {unit₁ ending₁ unit₂ ending₂ : Text} (hmode₁ : s₁.mode = .pretty)
    (hindent₁ : s₁.indent = .text unit₁) (hnewline₁ : s₁.newline = .text ending₁)
    (hmode₂ : s₂.mode = .pretty) (hindent₂ : s₂.indent = .text unit₂)
    (hnewline₂ : s₂.newline = .text ending₂) :
    p.FillsIn s₁ unit₁ ending₁ t ∧ p.FillsIn s₂ unit₂ ending₂ t ∧
      (∀ k, .indentation k ∈ p.outline t → 1 ≤ k) ∧
      (p.print s₁.mode t).failure = (p.print s₂.mode t).failure ∧
      (p.deliver s₁ t).failure = (p.deliver s₂ t).failure ∧
      (p.deliver s₁ t).position = (p.deliver s₂ t).position ∧
      ∀ e, toSource s₁ t = .error e ↔ toSource s₂ t = .error e := by
  have hstops (q : Position) : (q.deliver s₁ t).failure = (q.deliver s₂ t).failure ∧
      (q.deliver s₁ t).position = (q.deliver s₂ t).position := by
    rw [Position.deliver, Position.deliver, hmode₁, hmode₂]
    exact deliver_stops_alike hindent₁ hnewline₁ hindent₂ hnewline₂ _ _
  refine ⟨fillsIn hmode₁ hindent₁ hnewline₁ t, fillsIn hmode₂ hindent₂ hnewline₂ t,
    fun k hk => one_le_of_mem_outline t hk, by rw [hmode₁, hmode₂], (hstops p).1, (hstops p).2, ?_⟩
  intro e
  simp only [toSource, (hstops {}).1]
  cases (Position.deliver {} s₂ t).failure with
  | none => simp
  | some e' => exact Iff.rfl

/-- A block with two statements, once with tabs and line feeds and once with no indentation and
a carriage return before each line feed. -/
theorem indent_newline_irrelevant_block :
    let t : Tree := .node (.blockStatement (.list [.node .debuggerStatement, .missing]))
    let tabs : PrintSettings := { indent := .text (Text.ofString "\t") }
    let flat : PrintSettings := { indent := .text [], newline := .text (Text.ofString "\r\n") }
    toSource tabs t = .ok (Text.ofString "\x7b\n\tdebugger;\n\t;\n\x7d\n") ∧
      toSource flat t = .ok (Text.ofString "\x7b\r\ndebugger;\r\n;\r\n\x7d\r\n") ∧
      ((Position.outline {} t).filter (· = .indentation 1)).length = 2 ∧
      Position.FillsIn {} tabs (Text.ofString "\t") (Text.ofString "\n") t ∧
      Position.FillsIn {} flat [] (Text.ofString "\r\n") t := by
  intro t tabs flat
  have hmode (s : PrintSettings) (h : s.minify = .bool false) : s.mode = .pretty := by
    rw [PrintSettings.mode, h]
    rfl
  obtain ⟨htabs, hflat, -⟩ := indent_newline_irrelevant {} t
    (hmode tabs rfl) rfl rfl (hmode flat rfl) rfl rfl
  exact ⟨by decide, by decide, by decide, htabs, hflat⟩

end Position

end ScriptTree.Source
