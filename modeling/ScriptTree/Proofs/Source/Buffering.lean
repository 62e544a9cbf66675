import ScriptTree.Proofs.Source.Pieces
import ScriptTree.Proofs.Source.Rendering
import ScriptTree.Source.Stream

/-!
Printing through a buffer. Where identifiers have texts for names and lines are indented and
ended with texts, every chunk of a layout is a text. A buffer only regroups such chunks: the texts
it hands over are as long as it is large and, with what still waits, make up the text of all
chunks so far. A direct printer and a buffered one that go through the same trees therefore fail
at the same trees, and a failure loses no more than what was waiting.
-/

namespace ScriptTree

def Tree.HasNames (t : Tree) : Prop :=
  ∀ name, Within (.node (.identifier name)) t → ∃ text, name.text? = some text

namespace Source

/-! ### Scripts that write texts -/

/-- Where identifiers have texts for names, scripts write texts only. -/
theorem texts_hasNames {t : Tree} (h : t.HasNames) (m : Mode) :
    (script m t).WritesOnly fun _ => True := by
  refine texts_script (fun _ _ => trivial) fun n hn => ⟨?_, ?_, fun _ _ _ _ => trivial,
    fun _ _ _ _ _ _ => trivial, fun _ _ _ _ => trivial⟩
  · rintro name rfl
    obtain ⟨text, htext⟩ := h name hn.within
    exact has_value htext trivial
  · intro s name hs hname
    unfold Tree.name at hname
    split at hname
    · next name' =>
      obtain rfl : name' = name := Except.ok.inj hname
      obtain ⟨text, htext⟩ := h name' (.trans (within_label hs) hn.within)
      exact has_value htext trivial
    · obtain rfl := Except.ok.inj hname
      exact has_value rfl trivial
    · obtain rfl := Except.ok.inj hname
      exact has_value rfl trivial
    · cases hname

/-! ### Layouts of texts -/

section Layouts

variable {p : Position} {pieces : List Piece}

theorem hasNoValues_append {a b : List Laid} (ha : HasNoValues a) (hb : HasNoValues b) :
    HasNoValues (a ++ b) := by
  intro l hl
  rcases List.mem_append.mp hl with hl | hl
  · exact ha l hl
  · exact hb l hl

theorem hasNoValues_spacing {first : Except Misuse Edge} {space : List Laid}
    (h : p.spacing first = .ok space) : HasNoValues space := by
  unfold Position.spacing at h
  split at h
  · obtain rfl := Except.ok.inj h
    simp [HasNoValues]
  · simp only [bind_eq_ok] at h
    obtain ⟨edge, -, joins, -, h⟩ := h
    split at h <;> obtain rfl := Except.ok.inj h <;> simp [HasNoValues]

theorem hasNoValues_put (t : Text) (first : Except Misuse Edge)
    (last : Except Misuse (Option Edge)) : HasNoValues (p.put (.text t) first last).laid := by
  have hindentation := Position.hasNoValues_indentation p
  cases hspace : p.indented.spacing first with
  | error e => simpa [Position.put, hspace] using hindentation
  | ok space =>
    have htext : HasNoValues [⟨.text t, p.indented⟩] := by simp [HasNoValues]
    have hlaid := hasNoValues_append
      (hasNoValues_append hindentation (hasNoValues_spacing hspace)) htext
    cases last <;> simpa [Position.put, hspace] using hlaid

theorem hasNoValues_write (t : Text) : HasNoValues (p.write t).laid := by
  unfold Position.write
  split
  · exact hasNoValues_put _ _ _
  · simp [HasNoValues]

theorem hasNoValues_step {P : Text → Prop} {piece : Piece} (h : piece.Has P) :
    HasNoValues (p.step piece).laid := by
  cases piece with
  | text t => exact hasNoValues_write t
  | value v => exact absurd h id
  | _ => simp [Position.step, HasNoValues]

theorem hasNoValues_run {P : Text → Prop} (h : ∀ piece ∈ pieces, piece.Has P) :
    HasNoValues (p.run pieces).laid := by
  induction pieces generalizing p with
  | nil => simp [Position.run, HasNoValues]
  | cons piece rest ih =>
    obtain ⟨hpiece, hrest⟩ := List.forall_mem_cons.mp h
    have hstep := hasNoValues_step (p := p) hpiece
    cases hfailure : (p.step piece).failure with
    | some e => simpa [Position.run, hfailure] using hstep
    | none => simpa [Position.run, hfailure] using hasNoValues_append hstep (ih hrest)

theorem hasNoValues_print {t : Tree} (h : t.HasNames) (m : Mode) :
    HasNoValues (p.print m t).laid := hasNoValues_run (texts_hasNames h m)

end Layouts

/-! ### Buffers -/

section Buffers

variable {s : PrintSettings} {limit : Nat} {b : Buffer} {w : Text}

structure Buffer.Holds (b : Buffer) (w : Text) : Prop where
  text : b.text = .ok w
  size : b.size = w.length

theorem Buffer.holds_empty : Buffer.Holds {} [] := ⟨rfl, rfl⟩

theorem Buffer.Holds.handOver (h : b.Holds w) : b.handOver anyText = .ok w := by
  rw [Buffer.handOver, h.text]
  rfl

theorem joinFragments_append {fragments : List Fragment} {index : Nat}
    (h : joinFragments index fragments = .ok w) (t : Text) :
    joinFragments index (fragments ++ [Fragment.text t]) = .ok (w ++ t) := by
  induction fragments generalizing index w with
  | nil =>
    obtain rfl := Except.ok.inj h
    exact congrArg Except.ok (List.append_nil t)
  | cons fragment rest ih =>
    cases fragment with
    | value => cases h
    | text first =>
      simp only [joinFragments, bind_eq_ok, pure_eq_ok] at h
      obtain ⟨more, hmore, rfl⟩ := h
      rw [List.cons_append, joinFragments, ih hmore, ok_bind, List.append_assoc]
      rfl

/-- A text that is added to a buffer stands behind what waits there. -/
theorem Buffer.Holds.add (h : b.Holds w) {chunk : Chunk} {t : Text}
    (hchunk : s.fragment chunk = .ok (.text t)) :
    ∃ b', b.add s chunk = .ok b' ∧ b'.Holds (w ++ t) := by
  refine ⟨⟨.text t :: b.pending, b.size + t.length⟩, ?_, ?_, ?_⟩
  · rw [Buffer.add, hchunk]
    rfl
  · rw [Buffer.text, List.reverse_cons]
    exact joinFragments_append h.text t
  · rw [List.length_append, ← h.size]

/-- What was handed over, in texts that fill the buffer, and what still waits in it make up the
text. -/
structure Feeding.Makes (f : Feeding) (limit : Nat) (text waiting : Text) : Prop where
  failure : f.failure = none
  holds : f.buffer.Holds waiting
  short : waiting.length < limit
  text : f.writes.flatten ++ waiting = text
  long : ∀ written ∈ f.writes, limit ≤ written.length

theorem feed_makes (hs : s.HasTexts) {laid : List Laid} (hlaid : HasNoValues laid)
    (hlimit : 0 < limit)
    (hb : b.Holds w) (hw : w.length < limit) :
    ∃ waiting, (b.feed s limit anyText laid).Makes limit (w ++ rendered s laid) waiting := by
  induction laid generalizing b w with
  | nil => exact ⟨w, rfl, hb, hw, by simp [Buffer.feed, rendered], by simp [Buffer.feed]⟩
  | cons first rest ih =>
    obtain ⟨hfirst, hrest⟩ := List.forall_mem_cons.mp hlaid
    obtain ⟨b', hadd, hb'⟩ := hb.add (fragment_eq_render hs hfirst)
    have hrendered : rendered s (first :: rest) = s.render first.chunk ++ rendered s rest := rfl
    rw [hrendered, ← List.append_assoc, Buffer.feed, hadd]
    by_cases hfull : limit ≤ b'.size
    · obtain ⟨waiting, hmakes⟩ := ih hrest Buffer.holds_empty hlimit
      simp only [hfull, if_true, hb'.handOver]
      refine ⟨waiting, hmakes.failure, hmakes.holds, hmakes.short, ?_, ?_⟩
      · rw [List.flatten_cons, List.append_assoc, hmakes.text]
        rfl
      · exact List.forall_mem_cons.mpr ⟨hb'.size ▸ hfull, hmakes.long⟩
    · simp only [hfull, if_false]
      exact ih hrest hb' (by rw [← hb'.size]; omega)

end Buffers

/-! ### Steps and runs -/

section Runs

variable {s : PrintSettings} {limit : Nat} {p : Position}

/-- A buffered step delivers what the direct one does: the same text if both succeed, with at most
the last write shorter than the buffer, and otherwise the same failure after all of the text but
less than a buffer. -/
structure Delivers (limit : Nat) (d : Delivery) (b : BufferedStep) : Prop where
  failure : b.failure = d.failure.map .tree
  flushed : b.flushed = true ↔ d.failure = none
  text : d.failure = none → b.writes.flatten = d.text
  long : ∀ written ∈ b.writes.dropLast, limit ≤ written.length
  cut : d.failure ≠ none →
    b.writes.flatten <+: d.text ∧ d.text.length < b.writes.flatten.length + limit

/-- The texts written in a step that succeeds: the last is what still waits, if anything does. -/
theorem printBuffered_done {t : Tree} {text waiting : Text}
    (h : (Buffer.feed s limit anyText {} (p.print s.mode t).laid).Makes limit text waiting)
    (hfailure : (p.print s.mode t).failure = none) :
    ∃ writes,
      printBuffered s limit anyText p t = ⟨writes, true, (p.print s.mode t).position, none⟩ ∧
      writes.flatten = text ∧ ∀ written ∈ writes.dropLast, limit ≤ written.length := by
  simp only [printBuffered, h.failure, hfailure]
  have htext := h.text
  by_cases hempty : (Buffer.feed s limit anyText {} (p.print s.mode t).laid).buffer.pending = []
  · have hwaiting : waiting = [] := by
      have hjoined := h.holds.text
      rw [Buffer.text, hempty] at hjoined
      exact (Except.ok.inj hjoined).symm
    rw [hwaiting, List.append_nil] at htext
    rw [hempty]
    exact ⟨_, rfl, htext, fun written hwritten =>
      h.long written (List.mem_of_mem_dropLast hwritten)⟩
  · rw [List.isEmpty_eq_false_iff.mpr hempty, h.holds.handOver]
    refine ⟨_, rfl, ?_, fun written hwritten => ?_⟩
    · rw [List.flatten_append, List.flatten_singleton, htext]
    · rw [List.dropLast_concat] at hwritten
      exact h.long written hwritten

theorem printBuffered_delivers (hs : s.HasTexts) (hlimit : 0 < limit) {t : Tree} (ht : t.HasNames) :
    Delivers limit (p.deliver s t) (printBuffered s limit anyText p t) ∧
      (printBuffered s limit anyText p t).position = (p.deliver s t).position := by
  have hlaid := hasNoValues_print (p := p) ht s.mode
  obtain ⟨waiting, hmakes⟩ := feed_makes hs hlaid hlimit Buffer.holds_empty hlimit
  rw [List.nil_append] at hmakes
  rw [Position.deliver, deliver_eq_rendered hs (p.print s.mode t) hlaid]
  cases hfailure : (p.print s.mode t).failure with
  | none =>
    obtain ⟨writes, heq, htext, hlong⟩ := printBuffered_done hmakes hfailure
    rw [heq]
    exact ⟨⟨rfl, by simp, fun _ => htext, hlong, fun h => absurd rfl h⟩, rfl⟩
  | some e =>
    have heq : printBuffered s limit anyText p t =
        ⟨(Buffer.feed s limit anyText {} (p.print s.mode t).laid).writes, false,
          (p.print s.mode t).position, some (.tree e)⟩ := by
      simp only [printBuffered, hmakes.failure, hfailure]
    rw [heq, ← hmakes.text]
    refine ⟨⟨rfl, by simp, by simp, fun written h => ?_,
      fun _ => ⟨List.prefix_append _ _, ?_⟩⟩, rfl⟩
    · exact hmakes.long written (List.mem_of_mem_dropLast h)
    · rw [List.length_append]
      exact Nat.add_lt_add_left hmakes.short _

/-- A direct printer and a buffered one that print the same trees one after the other deliver the
same at every step. -/
theorem printAllBuffered_delivers (hs : s.HasTexts) (hlimit : 1 ≤ limit) {ts : List Tree}
    (hts : ∀ t ∈ ts, t.HasNames) :
    List.Forall₂ (Delivers limit) (printAll s p ts) (printAllBuffered s limit anyText p ts) := by
  induction ts generalizing p with
  | nil => exact .nil
  | cons t rest ih =>
    obtain ⟨ht, hrest⟩ := List.forall_mem_cons.mp hts
    obtain ⟨hdelivers, hposition⟩ := printBuffered_delivers (p := p) hs hlimit ht
    rw [printAll, printAllBuffered, hposition]
    exact .cons hdelivers (ih hrest)

def interrupted : List Tree :=
  [.node .debuggerStatement, .node (.throwStatement .missing), .missing]

theorem printAllBuffered_interrupted :
    (printAllBuffered {} 8 anyText {} interrupted).map (fun b => (b.writes, b.flushed)) =
        [(["debugger;", "\n"].map Text.ofString, true), ([], false),
          ([";\n"].map Text.ofString, true)] ∧
      (printAll {} {} interrupted).map Delivery.text =
        ["debugger;\n", "throw ", ";\n"].map Text.ofString ∧
      List.Forall₂ (Delivers 8) (printAll {} {} interrupted)
        (printAllBuffered {} 8 anyText {} interrupted) := by
  have hnames (t : Tree) (ht : t ∈ interrupted) : t.HasNames := by
    intro name hname
    simp only [interrupted, List.mem_cons, List.not_mem_nil, or_false] at ht
    rcases ht with rfl | rfl | rfl <;> simp [Within.node_iff, Node.fields] at hname
  refine ⟨by decide, by decide, printAllBuffered_delivers ?_ (by decide) hnames⟩
  exact ⟨⟨_, rfl⟩, ⟨_, rfl⟩⟩

end Runs

end Source

end ScriptTree
