import ScriptTree.Proofs.Files.Walking
import ScriptTree.Proofs.Text

/-!
The text of a path. A path of plain names is read back from its text, and its text names what
is found at the path.
-/

namespace ScriptTree

/-! ### Pieces of a text -/

namespace Text

variable {separator c : CodePoint} {piece t rest : Text}

theorem splitAt_ne_nil (separator : CodePoint) (t : Text) : splitAt separator t ≠ [] := by
  cases t with
  | nil => simp [splitAt]
  | cons c rest =>
    rw [splitAt]
    split
    · simp
    · split <;> simp

theorem splitAt_separator (separator : CodePoint) (rest : Text) :
    splitAt separator (separator :: rest) = [] :: splitAt separator rest := by
  rw [splitAt]
  cases h : splitAt separator rest with
  | nil => exact absurd h (splitAt_ne_nil separator rest)
  | cons piece pieces => simp

theorem splitAt_cons (hc : c ≠ separator) (h : splitAt separator rest = piece :: pieces) :
    splitAt separator (c :: rest) = (c :: piece) :: pieces := by
  simp [splitAt, h, hc]

/-- No piece holds what the pieces were split at. -/
theorem not_mem_of_mem_splitAt (h : piece ∈ splitAt separator t) : separator ∉ piece := by
  induction t generalizing piece with
  | nil =>
    rw [splitAt, List.mem_singleton] at h
    simp [h]
  | cons c rest ih =>
    by_cases hc : c = separator
    · subst hc
      rw [splitAt_separator, List.mem_cons] at h
      rcases h with rfl | h
      · simp
      · exact ih h
    · obtain ⟨first, pieces, hrest⟩ := List.exists_cons_of_ne_nil (splitAt_ne_nil separator rest)
      rw [splitAt_cons hc hrest, List.mem_cons] at h
      rw [hrest] at ih
      rcases h with rfl | h
      · simp only [List.mem_cons, not_or]
        exact ⟨Ne.symm hc, ih List.mem_cons_self⟩
      · exact ih (List.mem_cons_of_mem _ h)

theorem splitAt_append (h : separator ∉ piece) (rest : Text) :
    splitAt separator (piece ++ separator :: rest) = piece :: splitAt separator rest := by
  induction piece with
  | nil => exact splitAt_separator separator rest
  | cons c piece ih =>
    rw [List.mem_cons, not_or] at h
    exact splitAt_cons (Ne.symm h.1) (ih h.2)

theorem splitAt_of_not_mem (h : separator ∉ piece) : splitAt separator piece = [piece] := by
  induction piece with
  | nil => rfl
  | cons c piece ih =>
    rw [List.mem_cons, not_or] at h
    exact splitAt_cons (Ne.symm h.1) (ih h.2)

theorem splitAt_joinWith {pieces : List Text} (hne : pieces ≠ [])
    (h : ∀ piece ∈ pieces, separator ∉ piece) :
    splitAt separator (joinWith [separator] pieces) = pieces := by
  induction pieces with
  | nil => exact absurd rfl hne
  | cons piece pieces ih =>
    rw [List.forall_mem_cons] at h
    cases pieces with
    | nil => exact splitAt_of_not_mem h.1
    | cons next pieces =>
      rw [joinWith, List.append_assoc, List.singleton_append, splitAt_append h.1]
      · rw [ih (by simp) h.2]
      · simp

end Text

namespace Path

variable {p here : Path} {t : Text}

structure IsPlainName (name : Text) : Prop where
  nonempty : name ≠ []
  ne_dot : name ≠ Text.ofString "."
  ne_dots : name ≠ Text.ofString ".."
  undivided : CodePoint.ofChar '/' ∉ name

def IsPlain (p : Path) : Prop := ∀ name ∈ p, IsPlainName name

theorem isPlain_enter (hp : p.IsPlain) {name : Text} (hname : name ∈ names t) :
    (p.enter name).IsPlain := by
  unfold enter
  split
  · exact fun other hother => hp other (List.dropLast_subset p hother)
  · next hdots =>
    obtain ⟨hpiece, hkept⟩ := List.mem_filter.mp hname
    rw [Bool.and_eq_true, Bool.not_eq_true', List.isEmpty_eq_false_iff, bne_iff_ne] at hkept
    intro other hother
    rcases List.mem_append.mp hother with hother | hother
    · exact hp other hother
    · rw [List.mem_singleton.mp hother]
      exact ⟨hkept.1, hkept.2, hdots, Text.not_mem_of_mem_splitAt hpiece⟩

/-- A path that a text names is plain where the text is seen from a plain path. -/
theorem isPlain_resolve (hhere : here.IsPlain) (t : Text) : (resolve here t).IsPlain := by
  have hall (rest : List Text) (hrest : ∀ name ∈ rest, name ∈ names t) (p : Path)
      (hp : p.IsPlain) : (rest.foldl enter p).IsPlain := by
    induction rest generalizing p with
    | nil => exact hp
    | cons name rest ih =>
      rw [List.forall_mem_cons] at hrest
      exact ih hrest.2 _ (isPlain_enter hp hrest.1)
  refine hall _ (fun _ h => h) _ ?_
  unfold start
  split
  · exact fun _ h => absurd h List.not_mem_nil
  · exact hhere

theorem text_eq (p : Path) : p.text = CodePoint.ofChar '/' :: Text.joinWith "/" p := by
  simp [text, Text.join, Text.ofString]

/-- A plain path is read back from its text. -/
theorem names_text (hp : p.IsPlain) : names p.text = p := by
  have hkept : p.filter (fun name => !name.isEmpty && name != Text.ofString ".") = p := by
    refine List.filter_eq_self.mpr fun name hname => ?_
    simp [(hp name hname).nonempty, (hp name hname).ne_dot]
  rw [names, text_eq, Text.splitAt_separator]
  by_cases hnil : p = []
  · subst hnil
    rfl
  · rw [show Text.ofString "/" = [CodePoint.ofChar '/'] from rfl,
      Text.splitAt_joinWith hnil fun name hname => (hp name hname).undivided]
    simpa using hkept

end Path

namespace Files

variable {fs fs' : Files} {p here : Path}

theorem walk_enter (here : Path) {names : List Text}
    (h : ∀ name ∈ names, name ≠ Text.ofString "..") :
    fs.walk Path.enter here names = fs.walk Path.child here names := by
  induction names generalizing here with
  | nil => rfl
  | cons name names ih =>
    rw [List.forall_mem_cons] at h
    have hstep : Path.enter here name = Path.child here name := if_neg h.1
    rw [walk.eq_2, walk.eq_2, hstep, ih _ h.2]

/-- The text of a plain path names what is found there. -/
theorem names_text (hp : p.IsPlain) (here : Path) :
    fs.names here p.text = (findBy (Text.joinWith "/" p) (fs.find p)).isThere := by
  have hstart : Path.start here p.text = [] := by simp [Path.start, Path.text_eq]
  rw [names, Path.names_text hp, hstart, walk_enter [] fun name hname => (hp name hname).ne_dots]
  rfl

theorem isThere_walk (h : fs.SameShape fs') (step : Path → Text → Path) (here : Path)
    (names : List Text) :
    (fs'.walk step here names).isThere = (fs.walk step here names).isThere := by
  induction names generalizing here with
  | nil =>
    rw [walk_nil, walk_nil]
    unfold foundAt
    obtain heq | ⟨bytes, bytes', hfile, hfile'⟩ := h here
    · rw [heq]
    · rw [hfile, hfile']
      rfl
  | cons name names ih =>
    rw [walk.eq_2, walk.eq_2]
    obtain heq | ⟨bytes, bytes', hfile, hfile'⟩ := h here
    · rw [heq]
      split
      · split
        · exact ih _
        · rfl
      · rfl
      · rfl
    · rw [hfile, hfile']

/-- What texts name something does not depend on what is in the files. -/
theorem names_congr (h : fs.SameShape fs') (here : Path) (t : Text) :
    fs'.names here t = fs.names here t := by
  unfold names findBy
  dsimp only
  split
  · exact isThere_walk h _ _ _
  · rfl
  · rfl

end Files

end ScriptTree
