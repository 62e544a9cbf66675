import ScriptTree.Proofs.Text
import ScriptTree.Text.Encoding

/-!
UTF-8. Decoding undoes encoding, so two texts that are encoded alike are the same text.
-/

namespace ScriptTree.Text

variable {c : CodePoint} {n least : Nat} {lenient : Bool} {rest : Bytes}

theorem toNat_toUInt8 (h : n < 0x100) : n.toUInt8.toNat = n := by
  simp only [Nat.toUInt8, UInt8.toNat_ofNat']
  omega

theorem utf8Point?_eq (hleast : least ≤ c.val) (hc : c.isSurrogate = false) (lenient : Bool) :
    utf8Point? lenient least c.val = some c := by
  have hnumber : CodePoint.ofNat? c.val = some c := by
    rw [CodePoint.ofNat?, dif_pos c.le_max]
  have hshort : decide (c.val < least) = false := decide_eq_false (by omega)
  simp [utf8Point?, hnumber, hc, hshort]

theorem continuation?_eq (h : n < 0x40) : continuation? (0x80 + n).toUInt8 = some n := by
  simp only [continuation?, toNat_toUInt8 (show 0x80 + n < 0x100 by omega), Bool.and_eq_true,
    decide_eq_true_iff]
  rw [if_pos (by omega), Nat.add_sub_cancel_left]

/-! ### Leading bytes -/

theorem ofUtf8?_one (h : n < 0x80) :
    ofUtf8? lenient (n.toUInt8 :: rest) =
      (ofUtf8? lenient rest).map (CodePoint.ofByte n.toUInt8 :: ·) := by
  rw [ofUtf8?.eq_def]
  exact if_pos (by rw [toNat_toUInt8 (by omega)]; exact h)

theorem ofUtf8?_two {b : UInt8} {x : Nat} (h : n < 0x20) (hb : continuation? b = some x) :
    ofUtf8? lenient ((0xC0 + n).toUInt8 :: b :: rest) = (do
      let c ← utf8Point? lenient 0x80 (n * 0x40 + x)
      return c :: (← ofUtf8? lenient rest)) := by
  rw [ofUtf8?.eq_def]
  dsimp only
  rw [toNat_toUInt8 (by omega), if_neg (by omega), if_neg (by omega), if_pos (by omega),
    Nat.add_sub_cancel_left, hb]
  rfl

theorem ofUtf8?_three {b b' : UInt8} {x y : Nat} (h : n < 0x10) (hb : continuation? b = some x)
    (hb' : continuation? b' = some y) :
    ofUtf8? lenient ((0xE0 + n).toUInt8 :: b :: b' :: rest) = (do
      let c ← utf8Point? lenient 0x800 (n * 0x1000 + x * 0x40 + y)
      return c :: (← ofUtf8? lenient rest)) := by
  rw [ofUtf8?.eq_def]
  dsimp only
  rw [toNat_toUInt8 (by omega), if_neg (by omega), if_neg (by omega), if_neg (by omega),
    if_pos (by omega), Nat.add_sub_cancel_left, hb, hb']
  rfl

/-- The bits of three bytes once they are known. The code point is left open, as the kernel would
compute it. -/
theorem bind_bits {x y z : Nat} {point? : Nat → Option CodePoint} {k : CodePoint → Option Text} :
    (do
      let b ← some x
      let b' ← some y
      let b'' ← some z
      let c ← point? (n * 0x40000 + b * 0x1000 + b' * 0x40 + b'')
      k c) = (do
      let c ← point? (n * 0x40000 + x * 0x1000 + y * 0x40 + z)
      k c) := rfl

theorem ofUtf8?_four {b b' b'' : UInt8} {x y z : Nat} (h : n < 0x8)
    (hb : continuation? b = some x) (hb' : continuation? b' = some y)
    (hb'' : continuation? b'' = some z) :
    ofUtf8? lenient ((0xF0 + n).toUInt8 :: b :: b' :: b'' :: rest) = (do
      let c ← utf8Point? lenient 0x10000 (n * 0x40000 + x * 0x1000 + y * 0x40 + z)
      return c :: (← ofUtf8? lenient rest)) := by
  rw [ofUtf8?.eq_def]
  dsimp only
  rw [toNat_toUInt8 (by omega), if_neg (by omega), if_neg (by omega), if_neg (by omega),
    if_neg (by omega), if_pos (by omega), Nat.add_sub_cancel_left, hb, hb', hb'']
  exact bind_bits

/-! ### Code points and texts -/

theorem map_cons_eq (c : CodePoint) (t? : Option Text) :
    (do return c :: (← t?)) = t?.map (c :: ·) := by
  cases t? <;> rfl

/-- The bytes of a code point are decoded as that code point. -/
theorem ofUtf8?_utf8Bytes (hc : c.isSurrogate = false) (lenient : Bool) (rest : Bytes) :
    ofUtf8? lenient (utf8Bytes c ++ rest) = (ofUtf8? lenient rest).map (c :: ·) := by
  have hmax := c.le_max
  unfold utf8Bytes
  dsimp only
  split
  · next h =>
    have hpoint : CodePoint.ofByte c.val.toUInt8 = c :=
      CodePoint.ext_val (toNat_toUInt8 (show c.val < 0x100 by omega))
    rw [List.singleton_append, ofUtf8?_one h, hpoint]
  split
  · next h =>
    have hvalue : c.val / 0x40 * 0x40 + c.val % 0x40 = c.val := by omega
    simp only [List.cons_append, List.nil_append]
    rw [ofUtf8?_two (by omega) (continuation?_eq (by omega)), hvalue,
      utf8Point?_eq (by omega) hc lenient]
    exact map_cons_eq c _
  split
  · next h =>
    have hvalue : c.val / 0x1000 * 0x1000 + c.val / 0x40 % 0x40 * 0x40 + c.val % 0x40 = c.val := by
      omega
    simp only [List.cons_append, List.nil_append]
    rw [ofUtf8?_three (by omega) (continuation?_eq (by omega)) (continuation?_eq (by omega)),
      hvalue, utf8Point?_eq (by omega) hc lenient]
    exact map_cons_eq c _
  · next h =>
    have hvalue : c.val / 0x40000 * 0x40000 + c.val / 0x1000 % 0x40 * 0x1000
        + c.val / 0x40 % 0x40 * 0x40 + c.val % 0x40 = c.val := by omega
    simp only [List.cons_append, List.nil_append]
    rw [ofUtf8?_four (by omega) (continuation?_eq (by omega)) (continuation?_eq (by omega))
      (continuation?_eq (by omega)), hvalue, utf8Point?_eq (by omega) hc lenient]
    exact map_cons_eq c _

theorem isEncodable_iff {t : Text} : t.isEncodable = true ↔ ∀ c ∈ t, c.isSurrogate = false := by
  simp [isEncodable]

@[simp] theorem isEncodable_nil : isEncodable [] = true := rfl

@[simp] theorem isEncodable_cons (c : CodePoint) (t : Text) :
    isEncodable (c :: t) = (!c.isSurrogate && t.isEncodable) := by simp [isEncodable]

@[simp] theorem isEncodable_append (a b : Text) :
    (a ++ b).isEncodable = (a.isEncodable && b.isEncodable) := by simp [isEncodable]

theorem isEncodable_repeated {t : Text} (h : t.isEncodable = true) (count : Nat) :
    (repeated t count).isEncodable = true := by
  induction count with
  | zero => rfl
  | succ count ih =>
    have hcopies : repeated t (count + 1) = t ++ repeated t count := by
      simp [repeated, List.replicate_succ]
    rw [hcopies, isEncodable_append, h, ih]
    rfl

/-- Decoding undoes encoding. -/
theorem ofUtf8?_toUtf8? {t : Text} {bytes : Bytes} (h : t.toUtf8? = some bytes) :
    ofUtf8? lenient bytes = some t := by
  unfold toUtf8? at h
  split at h
  · next hencodable =>
    obtain rfl := Option.some.inj h
    rw [isEncodable_iff] at hencodable
    clear h
    induction t with
    | nil => rfl
    | cons c t ih =>
      rw [List.forall_mem_cons] at hencodable
      rw [List.flatMap_cons, ofUtf8?_utf8Bytes hencodable.1, ih hencodable.2]
      rfl
  · cases h

theorem toUtf8?_inj {t t' : Text} {bytes : Bytes} (h : t.toUtf8? = some bytes)
    (h' : t'.toUtf8? = some bytes) : t = t' := by
  have hdecoded : ofUtf8? false bytes = some t := ofUtf8?_toUtf8? h
  rw [ofUtf8?_toUtf8? h'] at hdecoded
  exact (Option.some.inj hdecoded).symm

end ScriptTree.Text
