import ScriptTree.Proofs.Source.Pieces

/-!
What scripts do to the depth, and what those of trees that are in place consist of. Whatever the
slots of a tree hold, a script of it that does not fail goes down as many levels as it comes up
again. Where the tree is in place the script writes texts only; minified, it does nothing else, so
no line is broken.
-/

namespace ScriptTree.Source

open Exchange Script

def Piece.isAllowed (m : Mode) : Piece → Bool
  | .text _ => true
  | .value _ => false
  | _ => !m.isMinified

abbrev Script.Level (m : Mode) (s : Script) : Prop :=
  s.Keeps fun piece => piece.isAllowed m = true

abbrev Script.Steady (s : Script) : Prop := s.Moves 0 0

section Trees

variable {P : Node Tree → Prop} {m : Mode} {n : Node Tree} {t label : Tree}

theorem isAllowed_fixed (m : Mode) : HoldsOfFixed m fun piece => piece.isAllowed m = true where
  text _ _ := rfl
  lineBreak h := h ▸ rfl
  deeper h := h ▸ rfl
  shallower h := h ▸ rfl

theorem nodeSlot_of_label (h : n.Filled P) (hlabel : n.label? = some label) :
    NodeSlot P .identifier label := by
  unfold Node.label? at hlabel
  split at hlabel
  · obtain rfl := Option.some.inj hlabel
    exact h.1
  · obtain rfl := Option.some.inj hlabel
    exact h
  · obtain rfl := Option.some.inj hlabel
    exact h
  · cases hlabel

/-- In place, names are texts, and so is all else that a node makes its own. -/
theorem ownPieces_isAllowed (hP : ∀ n, P n → n.HasSlots) (h : n.Filled P) :
    OwnPieces m (fun piece => piece.isAllowed m = true) n where
  identifier name hname := by
    subst hname
    obtain ⟨text, rfl⟩ : ∃ text, name = .ofText text := h
    exact List.forall_mem_singleton.mpr rfl
  label t name ht hname := by
    rcases (nodeSlot_of_label h ht).name hP with rfl | ⟨text, rfl⟩
    · cases hname
    · obtain rfl := Except.ok.inj hname
      exact List.forall_mem_singleton.mpr rfl
  literal _ _ _ _ := rfl
  operator _ _ _ _ _ _ := rfl
  kind _ _ _ _ := rfl

/-- The scripts of trees that are in place write texts only and are level. -/
theorem level_script (h : t.Throughout Node.HasSlots) (m : Mode) : (script m t).Level m :=
  keeps_script (isAllowed_fixed m) fun _ hn =>
    ownPieces_isAllowed (fun _ => id) ((throughout_printedIn h hn).filled fun _ => id)

theorem fixed_true (m : Mode) : HoldsOfFixed m fun _ => True :=
  ⟨fun _ _ => trivial, fun _ => trivial, fun _ => trivial, fun _ => trivial⟩

theorem isMadeOf_true (m : Mode) (t : Tree) : IsMadeOf m (fun _ => True) t :=
  isMadeOf (fixed_true m) fun _ _ =>
    ⟨fun _ _ _ _ => trivial, fun _ _ _ _ _ _ => trivial, fun _ _ _ _ => trivial,
      fun _ _ _ _ _ _ => trivial, fun _ _ _ _ => trivial⟩

/-- Whatever the slots of a tree hold, the tree leaves the depth as it finds it if it prints. -/
theorem steady_script (m : Mode) (t : Tree) : (script m t).Steady :=
  (keeps_slot (isMadeOf_true m t) (.finish (fixed_true m) rfl)).depth

end Trees

end ScriptTree.Source
