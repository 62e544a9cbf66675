import ScriptTree.Proofs.Source.Failure
import ScriptTree.Source.Stream

/-!
Statements one after the other. A statement that is printed ends its line, or ends with a
code point that joins no other where lines are not broken, and leaves the depth as it found
it. So what follows it is laid out as if nothing stood before, and the source of statements
in a row is their sources in a row.
-/

namespace ScriptTree.Source

open Exchange Script

/-- The instruction that wrote last; the depth is not written. -/
def lastWritten : List Piece → Option Piece
  | [] => none
  | .deeper :: rest | .shallower :: rest => lastWritten rest
  | piece :: rest => (lastWritten rest).or (some piece)

def endsStatement (c : CodePoint) : Bool := c.is ';' || c.is '\x7d'

def Piece.isFinal (m : Mode) : Piece → Bool
  | .text t => m.isMinified && t.getLast?.any endsStatement
  | .lineBreak => true
  | _ => false

def Script.Rests (m : Mode) (s : Script) : Prop :=
  s.failure = none → ∃ piece, lastWritten s.pieces = some piece ∧ piece.isFinal m = true

theorem lastWritten_append (a b : List Piece) :
    lastWritten (a ++ b) = (lastWritten b).or (lastWritten a) := by
  induction a with
  | nil => simp [lastWritten]
  | cons piece rest ih => cases piece <;> simp [lastWritten, ih]

namespace Script.Rests

variable {m : Mode} {a b s : Script}

theorem after (a : Script) (hb : b.Rests m) : (a ++ b).Rests m := by
  intro h
  obtain ⟨piece, hlast, hfinal⟩ := hb (failure_right h)
  refine ⟨piece, ?_, hfinal⟩
  rw [append_pieces (failure_left h), lastWritten_append, hlast]
  rfl

theorem shallower (ha : a.Rests m) : (a ++ m.prettyOnly Script.shallower).Rests m := by
  intro h
  obtain ⟨piece, hlast, hfinal⟩ := ha (failure_left h)
  refine ⟨piece, ?_, hfinal⟩
  rw [append_pieces (failure_left h), lastWritten_append]
  cases m <;> exact hlast

theorem fail (e : TreeError) : (fail e).Rests m := nofun

theorem given {α : Type} {result : Except TreeError α} {s : α → Script}
    (h : ∀ value, result = .ok value → (s value).Rests m) : (given result s).Rests m := by
  cases result with
  | ok value => exact h value rfl
  | error e => exact fail e

theorem ending {t : Text} (ht : t.getLast?.any endsStatement = true) :
    (if !m.isMinified then line t else Script.write t).Rests m := by
  intro _
  cases m with
  | pretty => exact ⟨.lineBreak, rfl, rfl⟩
  | minified => exact ⟨.text t, rfl, ht⟩

theorem finish {t : Text} (ht : t.getLast?.any endsStatement = true) : (m.finish t).Rests m := by
  intro _
  cases m with
  | pretty => exact ⟨.lineBreak, rfl, rfl⟩
  | minified => exact ⟨.text t, rfl, ht⟩

theorem braces (spacer isEmpty : Bool) (s : Script) : (m.braces spacer true isEmpty s).Rests m := by
  cases isEmpty with
  | true => exact .after _ (ending (by decide))
  | false => exact .after _ (.after _ (ending (by decide)))

theorem looseBody (h : s.Rests m) : (Source.looseBody m s).Rests m := .shallower (.after _ h)

end Script.Rests

section Trees

variable {P : Node Tree → Prop} {m : Mode} {t : Tree} {missing : Script}

/-- The scripts of statements follow each other. -/
theorem itemScripts_statements (hP : ∀ n, P n → n.HasSlots) {items : List Tree} (first : Bool)
    (h : ∀ item ∈ items, NodeSlot P .statement item) :
    itemScripts m .statements first items = items.foldr (script m · ++ ·) empty := by
  induction items generalizing first with
  | nil => rfl
  | cons t rest ih =>
    have hbetween : onlyIf (!first) (Listing.statements.between m) = empty := by
      cases first <;> rfl
    rw [itemScripts_cons (l := .statements) hP first rest (h t List.mem_cons_self),
      ih false fun item hitem => h item (List.mem_cons_of_mem t hitem), hbetween,
      Listing.item_of_ne (by simp)]
    simp only [Listing.opening, Listing.closing, Listing.encloses, Listing.absent, script,
      enclosedIf_false, empty_append, append_empty, List.foldr_cons]

section Slots

variable (hP : ∀ n, P n → n.HasSlots)
  (hrests : ∀ n, P n → n.isStatement = true → ∀ m, (nodeScript m n).Rests m)

include hrests

theorem rests_slot (h : NodeSlot P .statement t) : (scriptOr m (m.finish ";") t).Rests m := by
  rcases h with rfl | ⟨n, rfl, hstatement, hn⟩
  · exact .finish (by decide)
  · exact hrests n hn.here hstatement m

include hP

/-- Where braces are dropped, the only statement between them is printed. -/
theorem rests_dropped {beforeElse : Bool} {body : Tree} (h : ListSlot P .statement body)
    (hdrops : dropsBraces m beforeElse body = .ok true) :
    (listScript m .statements body).Rests m := by
  obtain ⟨items, rfl, hitems⟩ := h
  obtain ⟨only, rfl⟩ : ∃ only, items = [only] := by
    unfold dropsBraces at hdrops
    rw [Structure.sole?_list] at hdrops
    cases items with
    | nil => cases m <;> cases hdrops
    | cons only rest =>
      cases rest with
      | nil => exact ⟨only, rfl⟩
      | cons next rest => cases m <;> cases hdrops
  rw [listScript, itemScripts_statements hP true hitems, List.foldr_cons, List.foldr_nil,
    append_empty]
  exact rests_slot hrests (hitems only List.mem_cons_self)

theorem rests_body (beforeElse : Bool) (h : NodeSlot P .statement t) :
    (bodyScript m true beforeElse t).Rests m := by
  rcases h with rfl | ⟨n, rfl, hstatement, hn⟩
  · exact .looseBody (.finish (by decide))
  · have hnode := hrests n hn.here hstatement m
    by_cases hblock : ∃ body, n = .blockStatement body
    · obtain ⟨body, rfl⟩ := hblock
      rw [bodyScript]
      refine .given fun drops hdrops => ?_
      split
      · next h =>
        rw [h] at hdrops
        exact rests_dropped hP hrests (hn.filled hP) hdrops
      · exact .braces _ _ _
    · rw [bodyScript]
      · refine .given fun encloses _ => ?_
        split
        · exact .braces _ _ _
        · exact .looseBody hnode
      · exact fun body heq => hblock ⟨body, heq⟩

theorem rests_else (h : NodeSlot P .statement t) : (elseScript m t).Rests m := by
  rcases h with rfl | ⟨n, rfl, hstatement, hn⟩
  · exact .looseBody (.finish (by decide))
  · have hnode := hrests n hn.here hstatement m
    by_cases hblock : ∃ body, n = .blockStatement body
    · obtain ⟨body, rfl⟩ := hblock
      rw [elseScript]
      refine .given fun drops hdrops => ?_
      split
      · next h =>
        rw [h] at hdrops
        exact rests_dropped hP hrests (hn.filled hP) hdrops
      · exact .braces _ _ _
    · rw [elseScript]
      · split
        · exact .after _ hnode
        · exact .looseBody hnode
      · exact fun body heq => hblock ⟨body, heq⟩

omit hP hrests in
theorem rests_block (t : Tree) : (blockPart m true t).Rests m := by
  unfold blockPart
  split <;> first | exact .braces _ _ _ | exact .fail _

omit hP hrests in
/-- A handler that is there ends the statement where no finalizer follows. -/
theorem rests_handler (h : t ≠ .missing) : (handlerScript m true t).Rests m := by
  unfold handlerScript
  split
  · exact absurd rfl h
  · exact .after _ (.after _ (.braces _ _ _))
  · exact .after _ (.fail _)

theorem rests_node {n : Node Tree} (hstatement : n.isStatement = true) (h : n.Filled P) :
    (nodeScript m n).Rests m := by
  have hfinish : (m.finish ";").Rests m := .finish (by decide)
  cases n with
  | bare cls => exact .fail _
  | blockStatement body => rw [nodeScript]; exact .braces _ _ _
  | expressionStatement expression =>
    rw [nodeScript]
    exact .given fun _ _ => .after _ hfinish
  | debuggerStatement => exact .finish (by decide)
  | withStatement object body =>
    rw [nodeScript]
    exact .after _ (rests_body hP hrests false h.2)
  | returnStatement argument =>
    rw [nodeScript]
    exact .after _ hfinish
  | labeledStatement label body =>
    rw [nodeScript]
    exact .after _ (rests_slot hrests h.2)
  | breakStatement label =>
    rw [nodeScript]
    exact .after _ hfinish
  | continueStatement label =>
    rw [nodeScript]
    exact .after _ hfinish
  | ifStatement test consequent alternate =>
    obtain ⟨-, hconsequent, halternate⟩ : NodeSlot P .expression test ∧
      NodeSlot P .statement consequent ∧ NodeSlot P .statement alternate := h
    rw [nodeScript]
    refine .given fun folds _ => ?_
    split
    · exact .given fun _ _ => .after _ hfinish
    · cases hmissing : alternate.isMissing with
      | true =>
        simp only [Bool.not_true, onlyIf, Bool.false_eq_true, if_false, append_empty]
        exact .after _ (rests_body hP hrests false hconsequent)
      | false => exact .after _ (.after _ (rests_else hP hrests halternate))
  | switchStatement discriminant cases =>
    rw [nodeScript]
    exact .after _ (.finish (by decide))
  | throwStatement argument =>
    rw [nodeScript]
    exact .after _ hfinish
  | tryStatement block handler finalizer =>
    rw [nodeScript]
    refine .given fun _ hguarded => .given fun final hfinal => ?_
    cases final with
    | true => exact .after _ (.after _ (rests_block _))
    | false =>
      have hhandler : handler ≠ .missing := by
        rintro rfl
        rw [Tree.checkTry, hfinal] at hguarded
        cases hguarded
      simp only [onlyIf, Bool.false_eq_true, if_false, append_empty]
      exact .after _ (rests_handler hhandler)
  | whileStatement test body =>
    rw [nodeScript]
    exact .after _ (rests_body hP hrests false h.2)
  | doWhileStatement body test =>
    rw [nodeScript]
    exact .after _ (.finish (by decide))
  | forStatement init test update body =>
    rw [nodeScript]
    exact .after _ (rests_body hP hrests false h.2.2.2)
  | forInStatement left right body =>
    rw [nodeScript]
    exact .after _ (rests_body hP hrests false h.2.2)
  | functionDeclaration id params body =>
    rw [nodeScript]
    exact .after _ (.braces _ _ _)
  | variableDeclaration declarations kind =>
    rw [nodeScript]
    split
    · exact .fail _
    · exact .given fun _ _ => .after _ hfinish
  | _ => cases hstatement

end Slots

/-- The script of a statement that is in place ends as a statement does. -/
theorem rests_script (h : NodeSlot Node.HasSlots .statement t) (m : Mode) :
    (script m t).Rests m := by
  rcases h with rfl | ⟨n, rfl, hstatement, hn⟩
  · exact .finish (by decide)
  · have hrests : (Tree.node n).Throughout fun n =>
        n.HasSlots ∧ (n.isStatement = true → ∀ m, (nodeScript m n).Rests m) :=
      hn.strengthen (fun n hn => hn) fun n _ hfilled hstatement m =>
        rests_node (fun n hn => hn.1) (fun n hn => hn.2) hstatement hfilled
    exact hrests.here.2 hstatement m

end Trees

/-! ### Positions between statements -/

/-- Whatever follows the code point, they do not join. -/
def IsInert (c : CodePoint) : Prop := ∀ first, joins c first = false

theorem isInert_of {c : CodePoint} (hword : isWordPoint c = false)
    (hsigns : (c.is '+' || c.is '-' || c.is '/') = false) (hless : c.is '<' = false) :
    IsInert c := by
  intro first
  simp [joins, hword, hsigns, hless]

theorem isInert_newline : IsInert (CodePoint.ofChar '\n') :=
  isInert_of (by decide) (by decide) (by decide)

theorem isInert_of_endsStatement {c : CodePoint} (h : endsStatement c = true) : IsInert c := by
  rcases Bool.or_eq_true .. ▸ h with h | h
  · rw [CodePoint.is_iff.mp h]
    exact isInert_of (by decide) (by decide) (by decide)
  · rw [CodePoint.is_iff.mp h]
    exact isInert_of (by decide) (by decide) (by decide)

namespace Position

/-- Lines are not broken here or this is the start of one, and what follows joins nothing. -/
structure HasEnded (m : Mode) (p : Position) : Prop where
  start : m = .pretty → p.lineStart = true
  last : ∀ edge, p.last = some edge → ∃ c, edge = .point c ∧ IsInert c

/-- A statement can start here as at the very start. -/
structure IsRested (m : Mode) (p : Position) : Prop extends HasEnded m p where
  depth : m = .minified → p.depth = 0

variable {s : PrintSettings} {p q : Position} {m : Mode}

theorem IsRested.isPlain (h : p.IsRested m) : p.IsPlain := by
  intro edge hedge
  obtain ⟨c, hc, -⟩ := h.last edge hedge
  exact ⟨c, hc⟩

def Alike (m : Mode) (p q : Position) : Prop :=
  p = q ∨ p.IsRested m ∧ q.IsRested m ∧ p.depth = q.depth

def indentationAt (depth : Nat) : List Chunk := if depth = 0 then [] else [.indentation depth]

/-- How a text is laid out where a statement can start. -/
theorem IsRested.write (hp : p.IsRested m) {t : Text} {first last : CodePoint}
    (hfirst : t.head? = some first) (hlast : t.getLast? = some last) :
    (p.write t).laid.map Laid.chunk = indentationAt p.depth ++ [Chunk.text t] ∧
      (p.write t).position = ⟨p.depth, false, some (.point last)⟩ := by
  have hspace : IsInert (CodePoint.ofChar ' ') := isInert_of (by decide) (by decide) (by decide)
  have hgap {q : Position} (hq : ∀ edge, q.last = some edge → ∃ c, edge = .point c ∧ IsInert c) :
      q.gap first = [] := by
    unfold gap
    split
    · next c hc =>
      obtain ⟨c', hpoint, hinert⟩ := hq _ hc
      cases hpoint
      rw [hinert first, if_neg (by simp)]
    · rfl
  rw [write_plain hp.isPlain hfirst hlast]
  by_cases hdepth : p.depth = 0
  · have hindented : p.indented = p.begun := by simp [indented, hdepth]
    have hindentation : p.indentation = [] := by simp [indentation, hdepth]
    rw [hindented, hindentation, hgap (q := p.begun) hp.last]
    simp [indentationAt, hdepth, begun]
  · have hstart : p.lineStart = true := by
      cases m with
      | pretty => exact hp.start rfl
      | minified => exact absurd (hp.depth rfl) hdepth
    have hindented : p.indented = { p.begun with last := some (.point ' ') } := by
      simp [indented, hdepth, hstart]
    have hindentation : p.indentation = [⟨.indentation p.depth, p.begun⟩] := by
      simp [indentation, hdepth, hstart]
    rw [hindented, hindentation, hgap]
    · simp [indentationAt, hdepth, begun]
    · intro edge hedge
      exact ⟨_, (Option.some.inj hedge).symm, hspace⟩

theorem Alike.step (h : Alike m p q) {piece : Piece} (hpiece : piece.isAllowed m = true) :
    (p.step piece).laid.map Laid.chunk = (q.step piece).laid.map Laid.chunk ∧
      Alike m (p.step piece).position (q.step piece).position := by
  rcases h with rfl | ⟨hp, hq, hdepth⟩
  · exact ⟨rfl, .inl rfl⟩
  · have hpretty (h : (!m.isMinified) = true) : m ≠ .minified := by
      rintro rfl
      cases h
    cases piece with
    | value v => cases hpiece
    | lineBreak =>
      refine ⟨rfl, .inl ?_⟩
      simp [Position.step, hdepth]
    | deeper =>
      refine ⟨rfl, .inr ⟨⟨⟨hp.start, hp.last⟩, ?_⟩, ⟨⟨hq.start, hq.last⟩, ?_⟩, ?_⟩⟩
      · exact fun h => absurd h (hpretty hpiece)
      · exact fun h => absurd h (hpretty hpiece)
      · simp [Position.step, hdepth]
    | shallower =>
      refine ⟨rfl, .inr ⟨⟨⟨hp.start, hp.last⟩, ?_⟩, ⟨⟨hq.start, hq.last⟩, ?_⟩, ?_⟩⟩
      · exact fun h => absurd h (hpretty hpiece)
      · exact fun h => absurd h (hpretty hpiece)
      · simp [Position.step, hdepth]
    | text t =>
      cases t with
      | nil => exact ⟨rfl, .inr ⟨hp, hq, hdepth⟩⟩
      | cons first rest =>
        obtain ⟨last, hlast⟩ : ∃ last, (first :: rest).getLast? = some last :=
          ⟨_, List.getLast?_eq_some_getLast (List.cons_ne_nil first rest)⟩
        obtain ⟨hchunks, hposition⟩ := hp.write rfl hlast
        obtain ⟨hchunks', hposition'⟩ := hq.write rfl hlast
        rw [Position.step, Position.step, hchunks, hchunks', hposition, hposition', hdepth]
        exact ⟨rfl, .inl rfl⟩

theorem Alike.isPlain (h : Alike m p q) (hp : p.IsPlain) : q.IsPlain := by
  rcases h with rfl | ⟨-, hq, -⟩
  · exact hp
  · exact hq.isPlain

/-- What is laid out from positions that are alike is the same. -/
theorem Alike.run (h : Alike m p q) (hp : p.IsPlain) {pieces : List Piece}
    (hpieces : ∀ piece ∈ pieces, piece.isAllowed m = true) :
    (p.run pieces).laid.map Laid.chunk = (q.run pieces).laid.map Laid.chunk := by
  induction pieces generalizing p q with
  | nil => rfl
  | cons piece rest ih =>
    have hpiece := hpieces piece List.mem_cons_self
    have hplain := step_isPlain hp hpiece
    have hplain' := step_isPlain (h.isPlain hp) hpiece
    obtain ⟨hchunks, hposition⟩ := h.step hpiece
    have hrest := ih hposition hplain.position fun piece' hpiece =>
      hpieces piece' (List.mem_cons_of_mem piece hpiece)
    simp [Position.run, hplain.failure, hplain'.failure, hchunks, hrest]

theorem hasEnded_step (hp : p.IsPlain) {piece : Piece} (hfinal : piece.isFinal m = true) :
    (p.step piece).position.HasEnded m := by
  cases piece with
  | text t =>
    simp only [Piece.isFinal, Bool.and_eq_true, Option.any_eq_true] at hfinal
    obtain ⟨hminified, last, hlast, hends⟩ := hfinal
    obtain ⟨first, hfirst⟩ : ∃ first, t.head? = some first := by
      cases t with
      | nil => cases hlast
      | cons first rest => exact ⟨first, rfl⟩
    rw [Position.step, write_plain hp hfirst hlast]
    refine ⟨?_, fun edge hedge =>
      ⟨last, (Option.some.inj hedge).symm, isInert_of_endsStatement hends⟩⟩
    rintro rfl
    cases hminified
  | lineBreak =>
    exact ⟨fun _ => rfl, fun edge hedge => ⟨_, (Option.some.inj hedge).symm, isInert_newline⟩⟩
  | _ => cases hfinal

theorem run_hasEnded (hp : p.IsPlain) {pieces : List Piece}
    (hpieces : ∀ piece ∈ pieces, piece.isAllowed m = true)
    (hlast : ∀ piece, lastWritten pieces = some piece → piece.isFinal m = true)
    (hnone : lastWritten pieces = none → p.HasEnded m) :
    (p.run pieces).position.HasEnded m := by
  induction pieces generalizing p with
  | nil => exact hnone rfl
  | cons piece rest ih =>
    have hplain := step_isPlain hp (hpieces piece List.mem_cons_self)
    have hrun : (p.run (piece :: rest)).position = ((p.step piece).position.run rest).position := by
      simp [Position.run, hplain.failure]
    rw [hrun]
    refine ih hplain.position
      (fun piece' hpiece => hpieces piece' (List.mem_cons_of_mem piece hpiece))
      (fun piece' hpiece => hlast piece' ?_) fun hrest => ?_
    · cases piece <;> simp [lastWritten, hpiece]
    · -- Nothing is written after the instruction.
      have hpiece : lastWritten (piece :: rest) = some piece → (p.step piece).position.HasEnded m :=
        fun h => hasEnded_step hp (hlast piece h)
      cases piece with
      | deeper =>
        have hended := hnone (by rw [lastWritten, hrest])
        exact ⟨hended.start, hended.last⟩
      | shallower =>
        have hended := hnone (by rw [lastWritten, hrest])
        exact ⟨hended.start, hended.last⟩
      | _ => exact hpiece (by simp [lastWritten, hrest])

theorem isRested_start (m : Mode) : IsRested m {} := ⟨⟨fun _ => rfl, nofun⟩, fun _ => rfl⟩

/-- A statement that does not fail leaves the depth as it finds it, and another one can start
where it ends. -/
theorem run_statement (hp : p.IsPlain) (hdepth : m = .minified → p.depth = 0) {t : Tree}
    (ht : NodeSlot Node.HasSlots .statement t) (hfailure : (script m t).failure = none) :
    (p.run (script m t).pieces).position.IsRested m ∧
      (p.run (script m t).pieces).position.depth = p.depth := by
  have hlevel := level_script (ht.hasSlots fun n hn => hn) m
  obtain ⟨piece, hlast, hfinal⟩ := rests_script ht m hfailure
  have hends : (p.run (script m t).pieces).position.HasEnded m := by
    refine run_hasEnded hp hlevel.allowed (fun piece' hpiece => ?_) fun hnone => ?_
    · rw [hlast] at hpiece
      exact Option.some.inj hpiece ▸ hfinal
    · rw [hlast] at hnone
      cases hnone
  have hkept : (p.run (script m t).pieces).position.depth = p.depth := by
    rw [(run_isPlain hp hlevel.allowed).depth]
    exact hlevel.depth hfailure p.depth
  exact ⟨⟨hends, fun hm => hkept.trans (hdepth hm)⟩, hkept⟩

end Position

def sequenceScript (m : Mode) (items : List Tree) : Script :=
  items.foldr (script m · ++ ·) empty

def AreStatements (items : List Tree) : Prop :=
  ∀ t ∈ items, NodeSlot Node.HasSlots .statement t

def programOf (items : List Tree) : Tree := .node (.program (.list items))

section Sequences

variable {s : PrintSettings} {p q : Position} {m : Mode} {t : Tree} {xs ys : List Tree}

theorem AreStatements.tail (h : AreStatements (t :: xs)) : AreStatements xs :=
  fun item hitem => h item (List.mem_cons_of_mem t hitem)

theorem AreStatements.append (hxs : AreStatements xs) (hys : AreStatements ys) :
    AreStatements (xs ++ ys) := by
  intro t ht
  rcases List.mem_append.mp ht with ht | ht
  · exact hxs t ht
  · exact hys t ht

theorem hasSlots_programOf (h : AreStatements xs) : (programOf xs).Throughout Node.HasSlots :=
  hasSlots_of_filled (show ListSlot _ _ _ from ⟨xs, rfl, h⟩)

theorem script_programOf (h : AreStatements xs) : script m (programOf xs) = sequenceScript m xs :=
  itemScripts_statements (fun _ hn => hn) true h

theorem sequenceScript_append (xs ys : List Tree) :
    sequenceScript m (xs ++ ys) = sequenceScript m xs ++ sequenceScript m ys := by
  induction xs with
  | nil => rfl
  | cons x xs ih =>
    have hcons (items : List Tree) :
        sequenceScript m (x :: items) = script m x ++ sequenceScript m items := rfl
    rw [List.cons_append, hcons, ih, hcons, append_assoc]

theorem level_sequence (h : AreStatements xs) : (sequenceScript m xs).Level m :=
  script_programOf h ▸ level_script (hasSlots_programOf h) m

/-- What is laid out for a script and then for another one. -/
theorem laid_append (hp : p.IsPlain) {a b : Script} (ha : a.Level m) (h : a.failure = none) :
    (p.run (a ++ b).pieces).laid =
        (p.run a.pieces).laid ++ ((p.run a.pieces).position.run b.pieces).laid ∧
      (p.run (a ++ b).pieces).position = ((p.run a.pieces).position.run b.pieces).position := by
  rw [append_pieces h, Position.run_append p _ _ (Position.run_isPlain hp ha.allowed).failure]
  exact ⟨rfl, rfl⟩

/-- Statements that do not fail leave the depth as they find it, and another one can start
where they end. -/
theorem run_sequence (hp : p.IsRested m) (hxs : AreStatements xs)
    (hfailure : (sequenceScript m xs).failure = none) :
    (p.run (sequenceScript m xs).pieces).position.IsRested m ∧
      (p.run (sequenceScript m xs).pieces).position.depth = p.depth := by
  induction xs generalizing p with
  | nil => exact ⟨hp, rfl⟩
  | cons x xs ih =>
    have hx := hxs x List.mem_cons_self
    obtain ⟨hrested, hdepth⟩ :=
      Position.run_statement hp.isPlain hp.depth hx (failure_left hfailure)
    obtain ⟨hrest, hdepth'⟩ := ih hrested hxs.tail (failure_right hfailure)
    have hrun := (laid_append hp.isPlain (b := sequenceScript m xs)
      (level_script (hx.hasSlots fun _ hn => hn) m) (failure_left hfailure)).2
    rw [show sequenceScript m (x :: xs) = script m x ++ sequenceScript m xs from rfl, hrun]
    exact ⟨hrest, hdepth'.trans hdepth⟩

theorem rendered_congr {a b : List Laid} (h : a.map Laid.chunk = b.map Laid.chunk) :
    rendered s a = rendered s b := by
  have hmap (laid : List Laid) : rendered s laid = (laid.map Laid.chunk).flatMap s.render := by
    rw [rendered, List.flatMap_map]
  rw [hmap, hmap, h]

/-- Where a statement can start, the same text is laid out as at any such position of the
depth. -/
theorem rendered_rested (hp : p.IsRested m) (hq : q.IsRested m) (hdepth : p.depth = q.depth)
    {a : Script} (ha : a.Level m) :
    rendered s (p.run a.pieces).laid = rendered s (q.run a.pieces).laid :=
  rendered_congr (Position.Alike.run (.inr ⟨hp, hq, hdepth⟩) hp.isPlain ha.allowed)

/-- The texts that are delivered for statements in a row make up the text of them all. -/
theorem printAll_sequence (hs : s.HasTexts) (hp : p.IsRested s.mode) (hxs : AreStatements xs)
    (hfailure : (sequenceScript s.mode xs).failure = none) :
    (∀ delivery ∈ printAll s p xs, delivery.failure = none) ∧
      (printAll s p xs).flatMap Delivery.text =
        rendered s (p.run (sequenceScript s.mode xs).pieces).laid := by
  induction xs generalizing p with
  | nil => exact ⟨fun _ h => absurd h List.not_mem_nil, rfl⟩
  | cons x xs ih =>
    have hx := hxs x List.mem_cons_self
    have hplaced := hx.hasSlots fun _ hn => hn
    obtain ⟨hrested, -⟩ := Position.run_statement hp.isPlain hp.depth hx (failure_left hfailure)
    obtain ⟨hall, htexts⟩ := ih hrested hxs.tail (failure_right hfailure)
    have hlaid := (laid_append hp.isPlain (b := sequenceScript s.mode xs)
      (level_script hplaced s.mode) (failure_left hfailure)).1
    rw [printAll, Position.deliver_placed hs hp.isPlain hplaced]
    constructor
    · exact List.forall_mem_cons.mpr ⟨failure_left hfailure, hall⟩
    · rw [List.flatMap_cons, htexts,
        show sequenceScript s.mode (x :: xs) = script s.mode x ++ sequenceScript s.mode xs from rfl,
        hlaid, rendered_append]

theorem toSource_programOf (hs : s.HasTexts) (hxs : AreStatements xs) {text : Text} :
    toSource s (programOf xs) = .ok text ↔ (sequenceScript s.mode xs).failure = none ∧
      rendered s (Position.run {} (sequenceScript s.mode xs).pieces).laid = text := by
  rw [toSource_eq_ok_iff hs (hasSlots_programOf hxs), script_programOf hxs]

/-- Source is put together statement by statement: the source of two lists of statements is the
source of the first and then that of the second, and it is what is delivered if the statements
are printed one by one. For a statement that is printed leaves the depth as it finds it, and
what is printed next is the same as from a fresh start at that depth. -/
theorem toSource_append (hs : s.HasTexts) :
    (∀ xs ys a b, AreStatements xs → AreStatements ys →
      toSource s (programOf xs) = .ok a → toSource s (programOf ys) = .ok b →
      toSource s (programOf (xs ++ ys)) = .ok (a ++ b) ∧
        (∀ delivery ∈ printAll s {} (xs ++ ys), delivery.failure = none) ∧
        (printAll s {} (xs ++ ys)).flatMap Delivery.text = a ++ b) ∧
    ∀ (p : Position) (t : Tree), p.IsPlain → (s.mode = .minified → p.depth = 0) →
      NodeSlot Node.HasSlots .statement t → (p.deliver s t).failure = none →
      (p.deliver s t).position.depth = p.depth ∧
        ∀ next, NodeSlot Node.HasSlots .statement next →
          ((p.deliver s t).position.deliver s next).text =
              (Position.deliver { depth := p.depth } s next).text ∧
            ((p.deliver s t).position.deliver s next).failure =
              (Position.deliver { depth := p.depth } s next).failure := by
  constructor
  · intro xs ys a b hxs hys ha hb
    obtain ⟨hfirst, rfl⟩ := (toSource_programOf hs hxs).mp ha
    obtain ⟨hsecond, rfl⟩ := (toSource_programOf hs hys).mp hb
    have hstart := Position.isRested_start s.mode
    obtain ⟨hrested, hdepth⟩ := run_sequence hstart hxs hfirst
    have hfailure : (sequenceScript s.mode (xs ++ ys)).failure = none := by
      rw [sequenceScript_append, append_failure, hfirst, hsecond]
      rfl
    have htext : rendered s (Position.run {} (sequenceScript s.mode (xs ++ ys)).pieces).laid =
        rendered s (Position.run {} (sequenceScript s.mode xs).pieces).laid ++
          rendered s (Position.run {} (sequenceScript s.mode ys).pieces).laid := by
      rw [sequenceScript_append, (laid_append hstart.isPlain (level_sequence hxs) hfirst).1,
        rendered_append, rendered_rested hrested hstart hdepth (level_sequence hys)]
    obtain ⟨hall, htexts⟩ := printAll_sequence hs hstart (hxs.append hys) hfailure
    exact ⟨(toSource_programOf hs (hxs.append hys)).mpr ⟨hfailure, htext⟩, hall, htexts.trans htext⟩
  · intro p t hp hdepth ht hfailure
    have hplaced := ht.hasSlots fun _ hn => hn
    rw [Position.deliver_placed hs hp hplaced] at hfailure ⊢
    obtain ⟨hrested, hkept⟩ := Position.run_statement hp hdepth ht hfailure
    refine ⟨hkept, fun next hnext => ?_⟩
    have hfresh : Position.IsRested s.mode { depth := p.depth } := ⟨⟨fun _ => rfl, nofun⟩, hdepth⟩
    have hnext := hnext.hasSlots fun _ hn => hn
    rw [Position.deliver_placed hs hrested.isPlain hnext,
      Position.deliver_placed hs hfresh.isPlain hnext]
    exact ⟨rendered_rested hrested hfresh hkept (level_script hnext s.mode), rfl⟩

/-- An if without an else whose body is a block, and a loop without a body. -/
def branchAndLoop : List Tree :=
  [.node (.ifStatement (.node .thisExpression)
      (.node (.blockStatement (.list [.node .debuggerStatement]))) .missing),
    .node (.whileStatement (.node .thisExpression) .missing)]

theorem areStatements_branchAndLoop : AreStatements branchAndLoop := by
  have hthis : NodeSlot Node.HasSlots .expression (.node .thisExpression) :=
    .of_has rfl (hasSlots_of_filled trivial)
  have hdebugger : NodeSlot Node.HasSlots .statement (.node .debuggerStatement) :=
    .of_has rfl (hasSlots_of_filled trivial)
  have hblock : NodeSlot Node.HasSlots .statement (.node (.blockStatement (.list [_]))) :=
    .of_has rfl (hasSlots_of_filled ⟨_, rfl, by simpa using hdebugger⟩)
  have hbranch : NodeSlot Node.HasSlots .statement (.node (.ifStatement _ _ .missing)) :=
    .of_has rfl (hasSlots_of_filled ⟨hthis, hblock, .inl rfl⟩)
  have hloop : NodeSlot Node.HasSlots .statement (.node (.whileStatement _ .missing)) :=
    .of_has rfl (hasSlots_of_filled ⟨hthis, .inl rfl⟩)
  intro t ht
  simp only [branchAndLoop, List.mem_cons, List.not_mem_nil, or_false] at ht
  rcases ht with rfl | rfl
  · exact hbranch
  · exact hloop

theorem toSource_append_branchAndLoop :
    toSource { minify := .bool true } (programOf (branchAndLoop ++ branchAndLoop)) =
        .ok "if(this)debugger;while(this);if(this)debugger;while(this);" ∧
      (Position.deliver {} {} .missing).position.depth = 0 := by
  have hsource : toSource { minify := .bool true } (programOf branchAndLoop) =
      .ok "if(this)debugger;while(this);" := by decide
  refine ⟨((toSource_append ⟨⟨_, rfl⟩, ⟨_, rfl⟩⟩).1 _ _ _ _ areStatements_branchAndLoop
    areStatements_branchAndLoop hsource hsource).1, ?_⟩
  exact ((toSource_append ⟨⟨_, rfl⟩, ⟨_, rfl⟩⟩).2 {} .missing Position.isPlain_start (fun _ => rfl)
    (.inl rfl) rfl).1

end Sequences

end ScriptTree.Source
