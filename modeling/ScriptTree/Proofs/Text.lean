import ScriptTree.Text
import Mathlib.Algebra.Group.Nat.Defs
import Mathlib.Data.List.Basic

/-!
Facts about texts that hold for every text: a character string is recovered from its
text, so two names are the same text only if they are the same string.
-/

namespace ScriptTree

theorem CodePoint.ofChar_injective : Function.Injective CodePoint.ofChar := by
  intro a b h
  have hval : a.toNat = b.toNat := congrArg CodePoint.val h
  exact Char.toNat_inj.mp hval

theorem CodePoint.ext_val {a b : CodePoint} (h : a.val = b.val) : a = b := by
  cases a
  cases h
  rfl

theorem CodePoint.is_iff {c : CodePoint} {char : Char} :
    c.is char = true ↔ c = CodePoint.ofChar char := by
  unfold CodePoint.is
  rw [beq_iff_eq]
  exact ⟨fun h => CodePoint.ext_val h, fun h => congrArg CodePoint.val h⟩

theorem CodePoint.isAsciiDigit_ofChar (c : Char) :
    (CodePoint.ofChar c).isAsciiDigit = c.isDigit := by
  simp only [CodePoint.isAsciiDigit, CodePoint.within, CodePoint.ofChar, Char.isDigit, ge_iff_le,
    UInt32.le_iff_toNat_le]
  rfl

namespace Text

theorem isAsciiDigit_of_mem_ofNat {n : Nat} {c : CodePoint} (h : c ∈ ofNat n) :
    c.isAsciiDigit = true := by
  obtain ⟨d, hd, rfl⟩ := List.mem_map.mp h
  rw [CodePoint.isAsciiDigit_ofChar]
  exact Nat.isDigit_of_mem_toDigits (by decide) (by decide) hd

theorem ofNat_ne_nil (n : Nat) : ofNat n ≠ [] := by simp [ofNat, Nat.toDigits_ne_nil]

theorem ofInt_natCast (n : Nat) : ofInt n = ofNat n := by
  have h : ¬(n : Int) < 0 := by omega
  rw [ofInt, if_neg h, Int.natAbs_natCast]

/-- The digits of an integer can be shown as long as it stays below a power of ten. -/
theorem ofInt?_eq_some_iff {i : Int} {t : Text} :
    ofInt? i = some t ↔ i.natAbs < 10 ^ digitLimit ∧ ofInt i = t := by
  have hlength : (ofNat i.natAbs).length ≤ digitLimit ↔ i.natAbs < 10 ^ digitLimit := by
    rw [ofNat, List.length_map]
    exact Nat.length_toDigits_le_iff (by decide) (by decide)
  simp only [ofInt?, hlength]
  split <;> simp [*]

theorem ofInt?_eq_none_iff {i : Int} : ofInt? i = none ↔ ¬i.natAbs < 10 ^ digitLimit := by
  simp [Option.eq_none_iff_forall_ne_some, ofInt?_eq_some_iff]

@[simp] theorem ofString_inj {a b : String} : ofString a = ofString b ↔ a = b := by
  constructor
  · intro h
    have hlist : a.toList = b.toList := List.map_injective_iff.mpr CodePoint.ofChar_injective h
    exact String.toList_inj.mp hlist
  · rintro rfl
    rfl

@[simp] theorem ofString_beq (a b : String) : (ofString a == ofString b) = (a == b) := by
  rw [Bool.eq_iff_iff, beq_iff_eq, beq_iff_eq, ofString_inj]

theorem joinWith_cons (separator part : Text) (parts : List Text) :
    ∃ more, joinWith separator (part :: parts) = part ++ more := by
  cases parts with
  | nil => exact ⟨[], by simp [joinWith]⟩
  | cons next parts =>
    exact ⟨separator ++ joinWith separator (next :: parts), by simp [joinWith]⟩

theorem joinWith_concat (separator : Text) (parts : List Text) (last : Text) :
    ∃ more, joinWith separator (parts ++ [last]) = joinWith separator parts ++ more := by
  induction parts with
  | nil => exact ⟨last, rfl⟩
  | cons part parts ih =>
    obtain ⟨more, hmore⟩ := ih
    cases parts with
    | nil => exact ⟨separator ++ last, by simp [joinWith]⟩
    | cons next parts =>
      refine ⟨more, ?_⟩
      rw [List.cons_append, List.cons_append, joinWith, ← List.cons_append, hmore]
      · simp [joinWith]
      · simp

end Text

end ScriptTree
