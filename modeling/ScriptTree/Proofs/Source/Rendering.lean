import ScriptTree.Proofs.Source.Levels
import ScriptTree.Proofs.Source.Layout

/-!
The source text of a tree that is in place. Where indentations and line ends are texts, the
layout of a script that writes texts only never fails and every chunk of it is taken, so
printing fails exactly where the script does, and for the same reason.
-/

namespace ScriptTree

structure PrintSettings.HasTexts (s : PrintSettings) : Prop where
  indent : ∃ unit, s.indent = .text unit
  newline : ∃ ending, s.newline = .text ending

def PrintSettings.render (s : PrintSettings) (chunk : Source.Chunk) : Text :=
  match s.fragment chunk with
  | .ok (.text t) => t
  | _ => []

namespace Source

def rendered (s : PrintSettings) (laid : List Laid) : Text :=
  laid.flatMap fun l => s.render l.chunk

/-- Nothing has been written, or a text was written last. -/
def Position.IsPlain (p : Position) : Prop := ∀ edge, p.last = some edge → ∃ c, edge = .point c

def HasNoValues (laid : List Laid) : Prop := ∀ l ∈ laid, ∀ v, l.chunk ≠ .value v

variable {s : PrintSettings} {p : Position} {m : Mode}

theorem rendered_append (a b : List Laid) :
    rendered s (a ++ b) = rendered s a ++ rendered s b := List.flatMap_append

theorem fragment_eq_render (hs : s.HasTexts) {chunk : Chunk} (h : ∀ v, chunk ≠ .value v) :
    s.fragment chunk = .ok (.text (s.render chunk)) := by
  obtain ⟨unit, hindent⟩ := hs.indent
  obtain ⟨ending, hnewline⟩ := hs.newline
  cases chunk with
  | value v => exact absurd rfl (h v)
  | indentation depth =>
    simp [PrintSettings.render, PrintSettings.fragment, PrintSettings.indentation, hindent]
  | lineEnd => simp [PrintSettings.render, PrintSettings.fragment, hnewline, Json.fragment]
  | _ => rfl

theorem deliver_eq_rendered (hs : s.HasTexts) (layout : Layout) {laid : List Laid}
    (h : HasNoValues laid) :
    deliver s layout laid = ⟨rendered s laid, layout.position, layout.failure⟩ := by
  induction laid with
  | nil => rfl
  | cons first rest ih =>
    rw [deliver, fragment_eq_render hs (h first List.mem_cons_self)]
    simp [ih fun l hl => h l (List.mem_cons_of_mem first hl), rendered]

namespace Position

def gap (p : Position) (first : CodePoint) : List Laid :=
  match p.last with
  | some (.point last) => if joins last first then [⟨.space, p⟩] else []
  | _ => []

theorem spacing_plain (hp : p.IsPlain) (first : CodePoint) :
    p.spacing (.ok (.point first)) = .ok (p.gap first) := by
  unfold spacing gap
  cases hlast : p.last with
  | none => rfl
  | some edge =>
    obtain ⟨c, rfl⟩ := hp edge hlast
    by_cases hjoins : joins c first
    · simp [Edge.joins, hjoins, pure, Except.pure, bind, Except.bind]
    · simp [Edge.joins, hjoins, pure, Except.pure, bind, Except.bind]

theorem isPlain_point (p : Position) (c : CodePoint) :
    IsPlain { p with last := some (.point c) } := by
  intro edge h
  exact ⟨c, (Option.some.inj h).symm⟩

theorem isPlain_indented (hp : p.IsPlain) : p.indented.IsPlain := by
  unfold indented
  split
  · exact isPlain_point _ _
  · exact hp

theorem depth_indented (p : Position) : p.indented.depth = p.depth := by
  unfold indented
  split <;> rfl

/-- How a text is laid out that is not empty. -/
theorem write_plain (hp : p.IsPlain) {t : Text} {first last : CodePoint}
    (hfirst : t.head? = some first) (hlast : t.getLast? = some last) :
    p.write t = ⟨p.indentation ++ p.indented.gap first ++ [⟨.text t, p.indented⟩],
      { p.indented with last := some (.point last) }, none⟩ := by
  simp [write, hfirst, hlast, put, spacing_plain (isPlain_indented hp)]

def ended (p : Position) (c : CodePoint) : Position :=
  { depth := p.depth, lineStart := false, last := some (.point c) }

theorem indented_eq_ended (p : Position) (c : CodePoint) :
    { p.indented with last := some (.point c) } = p.ended c := by
  unfold indented ended
  split <;> rfl

/-- How the instructions go on after a text. -/
theorem run_text (hp : p.IsPlain) {t : Text} {first last : CodePoint}
    (hfirst : t.head? = some first) (hlast : t.getLast? = some last) (rest : List Piece) :
    p.run (.text t :: rest) = { (p.ended last).run rest with
      laid := p.indentation ++ p.indented.gap first ++
        ⟨.text t, p.indented⟩ :: ((p.ended last).run rest).laid } := by
  simp [run, step, write_plain hp hfirst hlast, indented_eq_ended]

theorem isPlain_ended (p : Position) (c : CodePoint) : (p.ended c).IsPlain :=
  isPlain_point { p with lineStart := false } c

theorem hasNoValues_gap (p : Position) (first : CodePoint) : HasNoValues (p.gap first) := by
  unfold gap
  split
  · split <;> simp [HasNoValues]
  · simp [HasNoValues]

theorem hasNoValues_indentation (p : Position) : HasNoValues p.indentation := by
  unfold indentation
  split <;> simp [HasNoValues]

end Position

structure Layout.IsPlain (layout : Layout) (depth : Nat) : Prop where
  failure : layout.failure = none
  position : layout.position.IsPlain
  values : HasNoValues layout.laid
  depth : layout.position.depth = depth

namespace Position

theorem write_isPlain (hp : p.IsPlain) (t : Text) : (p.write t).IsPlain p.depth := by
  cases t with
  | nil => exact ⟨rfl, hp, by simp [write, HasNoValues], rfl⟩
  | cons first rest =>
    obtain ⟨last, hlast⟩ : ∃ last, (first :: rest).getLast? = some last :=
      ⟨_, List.getLast?_eq_some_getLast (List.cons_ne_nil first rest)⟩
    rw [write_plain hp rfl hlast]
    refine ⟨rfl, isPlain_point _ _, ?_, depth_indented p⟩
    intro l hl v
    simp only [List.mem_append, List.mem_singleton] at hl
    rcases hl with (hl | hl) | rfl
    · exact hasNoValues_indentation p l hl v
    · exact hasNoValues_gap _ _ l hl v
    · simp

theorem step_isPlain (hp : p.IsPlain) {piece : Piece} (h : piece.isAllowed m = true) :
    (p.step piece).IsPlain (depthAfter p.depth [piece]) := by
  cases piece with
  | text t => exact write_isPlain hp t
  | value v => cases h
  | lineBreak =>
    exact ⟨rfl, isPlain_point { p with lineStart := true } _, by simp [step, HasNoValues], rfl⟩
  | deeper => exact ⟨rfl, hp, by simp [step, HasNoValues], rfl⟩
  | shallower => exact ⟨rfl, hp, by simp [step, HasNoValues], rfl⟩

/-- The layout of texts does not fail. -/
theorem run_isPlain (hp : p.IsPlain) {pieces : List Piece}
    (h : ∀ piece ∈ pieces, piece.isAllowed m = true) :
    (p.run pieces).IsPlain (depthAfter p.depth pieces) := by
  induction pieces generalizing p with
  | nil => exact ⟨rfl, hp, by simp [run, HasNoValues], rfl⟩
  | cons piece rest ih =>
    have hstep := step_isPlain hp (h piece List.mem_cons_self)
    have hrest := ih hstep.position fun piece' hpiece =>
      h piece' (List.mem_cons_of_mem piece hpiece)
    rw [hstep.depth, ← depthAfter_append, List.singleton_append] at hrest
    have hrun : p.run (piece :: rest) = { (p.step piece).position.run rest with
        laid := (p.step piece).laid ++ ((p.step piece).position.run rest).laid } := by
      simp [run, hstep.failure]
    rw [hrun]
    refine ⟨hrest.failure, hrest.position, ?_, hrest.depth⟩
    intro l hl v
    rcases List.mem_append.mp hl with hl | hl
    · exact hstep.values l hl v
    · exact hrest.values l hl v

theorem isPlain_start : IsPlain {} := nofun

/-- What printing a tree that is in place delivers. -/
theorem deliver_placed (hs : s.HasTexts) (hp : p.IsPlain) {t : Tree}
    (ht : t.Throughout Node.HasSlots) :
    p.deliver s t = ⟨rendered s (p.run (script s.mode t).pieces).laid,
      (p.run (script s.mode t).pieces).position, (script s.mode t).failure⟩ := by
  have hruns := run_isPlain hp (level_script ht s.mode).allowed
  have hprint : p.print s.mode t =
      { p.run (script s.mode t).pieces with failure := (script s.mode t).failure } := by
    simp [print, hruns.failure]
  rw [Position.deliver, hprint]
  exact deliver_eq_rendered hs _ hruns.values

end Position

/-- A tree that is in place fails to print exactly if its script fails. -/
theorem toSource_eq_error_iff (hs : s.HasTexts) {t : Tree} (ht : t.Throughout Node.HasSlots)
    {e : TreeError} : toSource s t = .error e ↔ (script s.mode t).failure = some e := by
  rw [toSource, Position.deliver_placed hs Position.isPlain_start ht]
  cases hfailure : (script s.mode t).failure with
  | none => simp
  | some e' => simp

theorem toSource_eq_ok_iff (hs : s.HasTexts) {t : Tree} (ht : t.Throughout Node.HasSlots)
    {text : Text} :
    toSource s t = .ok text ↔ (script s.mode t).failure = none ∧
      rendered s (Position.run {} (script s.mode t).pieces).laid = text := by
  rw [toSource, Position.deliver_placed hs Position.isPlain_start ht]
  cases hfailure : (script s.mode t).failure with
  | none => simp
  | some e => simp

end Source

end ScriptTree
