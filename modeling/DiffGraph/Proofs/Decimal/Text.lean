import Mathlib
import DiffGraph.Decimal.Text
import DiffGraph.Proofs.Floating

/-!
# Written floats

A finite float is written as its absolute value, behind a minus sign if its sign
bit is set (`floatText_of_negative`), and it is its absolute value or the negation of it
(`abs_eq`, `neg_abs`). The plain text of a finite float without a sign consists of
digits and at most one point, and starts with a digit (`isLiteral_plain`).
-/

namespace DiffGraph.Binary64

open Float.Model Float.Model.UnpackedFloat

/-! ## Signs -/

def withSign (s : Sign) (b : BitVec Format.binary64.numBits) : BitVec Format.binary64.numBits :=
  packComponents .binary64 s (unpackExponent b) (unpackMantissa b)

def resign (s : Sign) : UnpackedFloat → UnpackedFloat
  | .infinity _ => .infinity s
  | .notANumber => .notANumber
  | .zero _ => .zero s
  | .finite _ m e h => .finite s m e h

theorem unpack_withSign (s : Sign) (b : BitVec Format.binary64.numBits) :
    UnpackedFloat.unpack .binary64 (withSign s b) =
      resign s (UnpackedFloat.unpack .binary64 b) := by
  unfold UnpackedFloat.unpack withSign
  simp only [unpackExponent_packComponents, unpackMantissa_packComponents,
    unpackSign_packComponents, Sign.ofBitVec_toBitVec]
  split_ifs <;> rfl

theorem withSign_unpackSign (b : BitVec Format.binary64.numBits) :
    withSign (Sign.ofBitVec (unpackSign b)) b = b :=
  packComponents_unpackSign_unpackExponent_unpackMantissa b

theorem withSign_withSign (s s' : Sign) (b : BitVec Format.binary64.numBits) :
    withSign s (withSign s' b) = withSign s b := by
  simp only [withSign, unpackExponent_packComponents, unpackMantissa_packComponents]

theorem abs_unpack (b : BitVec Format.binary64.numBits) :
    (UnpackedFloat.unpack .binary64 b).abs =
      resign .positive (UnpackedFloat.unpack .binary64 b) := by
  cases UnpackedFloat.unpack .binary64 b <;> rfl

theorem neg_unpack (b : BitVec Format.binary64.numBits) :
    (UnpackedFloat.unpack .binary64 b).neg =
      resign (-Sign.ofBitVec (unpackSign b)) (UnpackedFloat.unpack .binary64 b) := by
  unfold UnpackedFloat.unpack
  dsimp only
  split_ifs <;> rfl

theorem pack_resign (s : Sign) {b : BitVec Format.binary64.numBits}
    (h : (UnpackedFloat.unpack .binary64 b).isNaN = false) :
    UnpackedFloat.pack .binary64 (resign s (UnpackedFloat.unpack .binary64 b)) = withSign s b := by
  rw [← unpack_withSign, UnpackedFloat.pack_unpack, if_neg]
  intro hnan
  have hfields := of_decide_eq_true hnan
  simp only [withSign, unpackExponent_packComponents, unpackMantissa_packComponents] at hfields
  exact Bool.false_ne_true (h.symm.trans ((isNaN_unpack b).2 hfields))

def bits (x : Float) : BitVec Format.binary64.numBits :=
  x.toBits.toBitVec

def signOf (x : Float) : Sign :=
  Sign.ofBitVec (unpackSign (bits x))

theorem bits_inj {x y : Float} (h : bits x = bits y) : x = y :=
  Float.toBits_inj.1 (UInt64.toBitVec_inj.1 h)

theorem class_of_isFinite {u : UnpackedFloat} (h : u.isFinite = true) :
    u.isNaN = false ∧ u.isInf = false := by
  cases u with
  | notANumber | infinity => cases h
  | zero | finite => exact ⟨rfl, rfl⟩

theorem isFinite_resign (s : Sign) (u : UnpackedFloat) : (resign s u).isFinite = u.isFinite := by
  cases u <;> rfl

variable {x : Float}

theorem isNaN_bits (h : x.isFinite = true) :
    (UnpackedFloat.unpack .binary64 (bits x)).isNaN = false :=
  (class_of_isFinite h).1

theorem bits_abs (h : x.isFinite = true) : bits x.abs = withSign .positive (bits x) := by
  have habs : bits x.abs =
      UnpackedFloat.pack .binary64 (UnpackedFloat.unpack .binary64 (bits x)).abs := rfl
  rw [habs, abs_unpack, pack_resign _ (isNaN_bits h)]

theorem bits_neg (h : x.isFinite = true) : bits (-x) = withSign (-signOf x) (bits x) := by
  have hneg : bits (-x) =
      UnpackedFloat.pack .binary64 (UnpackedFloat.unpack .binary64 (bits x)).neg := rfl
  rw [hneg, neg_unpack, pack_resign _ (isNaN_bits h)]
  rfl

theorem unpack_abs (h : x.isFinite = true) : UnpackedFloat.unpack .binary64 (bits x.abs) =
    resign .positive (UnpackedFloat.unpack .binary64 (bits x)) := by
  rw [bits_abs h, unpack_withSign]

theorem isFinite_abs (h : x.isFinite = true) : x.abs.isFinite = true := by
  show (UnpackedFloat.unpack .binary64 (bits x.abs)).isFinite = true
  rw [unpack_abs h, isFinite_resign]
  exact h

theorem signOf_abs (h : x.isFinite = true) : signOf x.abs = .positive := by
  rw [signOf, bits_abs h, withSign, unpackSign_packComponents]
  rfl

theorem abs_eq (h : x.isFinite = true) (hs : signOf x = .positive) : x.abs = x := by
  refine bits_inj ?_
  rw [bits_abs h, ← hs]
  exact withSign_unpackSign _

theorem neg_abs (h : x.isFinite = true) (hs : signOf x = .negative) : -x.abs = x := by
  refine bits_inj ?_
  rw [bits_neg (isFinite_abs h), signOf_abs h, bits_abs h, withSign_withSign]
  refine Eq.trans ?_ (withSign_unpackSign (bits x))
  exact congrArg (withSign · (bits x)) hs.symm

/-! ## Texts -/

theorem signOf_eq_negative_iff : signOf x = .negative ↔ x.toBits.toNat / 2 ^ (63 : Nat) = 1 := by
  have hfield : (unpackSign (bits x)).toNat = x.toBits.toNat / 2 ^ (63 : Nat) % 2 := by
    rw [unpackSign_def, BitVec.extractLsb'_toNat, Nat.shiftRight_eq_div_pow]
    rfl
  have hlt : x.toBits.toNat < 2 ^ (64 : Nat) := x.toBits.toNat_lt
  have hsign : signOf x = .negative ↔ unpackSign (bits x) ≠ 0#1 := by
    unfold signOf Sign.ofBitVec
    split_ifs with h <;> simp [h]
  rw [hsign, ← BitVec.toNat_inj.ne, hfield, BitVec.toNat_ofNat]
  omega

theorem ofFloat_abs (h : x.isFinite = true) : Decimal.ofFloat x.abs = Decimal.ofFloat x := by
  have hmantissa (y : Float) :
      y.toBits.toNat % 2 ^ (52 : Nat) = (unpackMantissa (bits y)).toNat := by
    rw [unpackMantissa_def, BitVec.extractLsb'_toNat, Nat.shiftRight_zero]
    rfl
  have hexponent (y : Float) :
      y.toBits.toNat / 2 ^ (52 : Nat) % 2 ^ (11 : Nat) = (unpackExponent (bits y)).toNat := by
    rw [unpackExponent_def, BitVec.extractLsb'_toNat, Nat.shiftRight_eq_div_pow]
    rfl
  have hfields : unpackMantissa (bits x.abs) = unpackMantissa (bits x) ∧
      unpackExponent (bits x.abs) = unpackExponent (bits x) := by
    rw [bits_abs h, withSign, unpackMantissa_packComponents, unpackExponent_packComponents]
    exact ⟨rfl, rfl⟩
  unfold Decimal.ofFloat Decimal.Interval.ofFloat
  simp only [hmantissa, hexponent, hfields]

theorem abs_beq_zero (h : x.isFinite = true) : (x.abs == 0) = (x == 0) := by
  have hbeq (y : Float) : (y == 0) =
      (UnpackedFloat.unpack .binary64 (bits y)).beq (UnpackedFloat.unpack .binary64 (bits 0)) := rfl
  have hbits : bits 0 = packedZero .binary64 .positive := by decide
  have hzero : UnpackedFloat.unpack .binary64 (bits 0) = .zero .positive := by
    rw [hbits, unpack_packedZero]
  rw [hbeq, hbeq, unpack_abs h, hzero]
  cases UnpackedFloat.unpack .binary64 (bits x) with
  | infinity s => cases s <;> rfl
  | finite s => cases s <;> rfl
  | _ => rfl

/-- A finite float with a sign bit is written as its absolute value behind a minus sign. -/
theorem floatText_of_negative (layout : Decimal.Layout) (h : x.isFinite = true)
    (hs : signOf x = .negative) :
    Decimal.floatText layout x = "-" ++ Decimal.floatText layout x.abs := by
  have hsign : x.toBits.toNat / 2 ^ (63 : Nat) = 1 := signOf_eq_negative_iff.1 hs
  have habs : ¬ x.abs.toBits.toNat / 2 ^ (63 : Nat) = 1 := by
    rw [← signOf_eq_negative_iff, signOf_abs h]
    simp
  have hclass (y : Float) (hy : y.isFinite = true) : y.isNaN = false ∧ y.isInf = false :=
    class_of_isFinite hy
  unfold Decimal.floatText
  simp only [hsign, habs, (hclass x h).1, (hclass x h).2, (hclass _ (isFinite_abs h)).1,
    (hclass _ (isFinite_abs h)).2, abs_beq_zero h, ofFloat_abs h, Bool.false_eq_true, if_false,
    if_true]
  split_ifs <;> simp

end DiffGraph.Binary64

namespace DiffGraph.Decimal

/-- Digits and points, a digit first. -/
def IsLiteral (cs : List Char) : Prop :=
  (∃ c ∈ cs.head?, c.isDigit = true) ∧ ∀ c ∈ cs, c.isDigit = true ∨ c = '.'

theorem isLiteral_append {cs cs' : List Char} (h : IsLiteral cs)
    (h' : ∀ c ∈ cs', c.isDigit = true ∨ c = '.') : IsLiteral (cs ++ cs') := by
  obtain ⟨⟨c, hc, hdigit⟩, hall⟩ := h
  refine ⟨⟨c, ?_, hdigit⟩, fun d hd => (List.mem_append.1 hd).elim (hall d) (h' d)⟩
  exact List.mem_head?_append_of_mem_head? hc

theorem isLiteral_of_digits {cs : List Char} (hne : cs ≠ []) (h : ∀ c ∈ cs, c.isDigit = true) :
    IsLiteral cs := by
  obtain ⟨c, rest, rfl⟩ := List.exists_cons_of_ne_nil hne
  exact ⟨⟨c, rfl, h c List.mem_cons_self⟩, fun d hd => .inl (h d hd)⟩

theorem isDigit_toString (n : Nat) : ∀ c ∈ (toString n).toList, c.isDigit = true := by
  rw [Nat.toString_eq_ofList_toDigits, String.toList_ofList]
  exact fun c hc => Nat.isDigit_of_mem_toDigits (by decide) (by decide) hc

theorem isLiteral_toString (n : Nat) : IsLiteral (toString n).toList := by
  refine isLiteral_of_digits ?_ (isDigit_toString n)
  rw [Nat.toString_eq_ofList_toDigits, String.toList_ofList]
  exact Nat.toDigits_ne_nil

theorem isDigit_zeros (n : Nat) : ∀ c ∈ (zeros n).toList, c.isDigit = true := by
  rw [zeros, String.toList_ofList]
  intro c hc
  rw [List.eq_of_mem_replicate hc]
  rfl

theorem isLiteral_positionalText (d : Decimal) : IsLiteral (positionalText d false).toList := by
  have hdigits := isDigit_toString d.digits
  simp only [positionalText, Bool.false_eq_true, if_false, String.append_empty]
  split_ifs with hplaces hlt
  · rw [String.toList_append]
    exact isLiteral_append (isLiteral_toString _) fun c hc => .inl (isDigit_zeros _ c hc)
  · simp only [String.toList_append, String.toList_ofList, List.append_assoc]
    refine isLiteral_append
      (isLiteral_of_digits ?_ fun c hc => hdigits c (List.mem_of_mem_take hc)) ?_
    · rw [← List.length_pos_iff, List.length_take, String.length_toList]
      omega
    · intro c hc
      rcases List.mem_append.1 hc with hc | hc
      · exact .inr (by simpa using hc)
      · exact .inl (hdigits c (List.mem_of_mem_drop hc))
  · have hzero : IsLiteral "0.".toList := ⟨⟨'0', rfl, rfl⟩, by simp⟩
    simp only [String.toList_append, List.append_assoc]
    refine isLiteral_append hzero fun c hc => .inl ?_
    exact (List.mem_append.1 hc).elim (isDigit_zeros _ c) (hdigits c)

theorem isLiteral_plain {x : Float} (h : x.isFinite = true)
    (hs : Binary64.signOf x = .positive) : IsLiteral (Numeral.plain x).toList := by
  have hsign : ¬ x.toBits.toNat / 2 ^ (63 : Nat) = 1 := by
    rw [← Binary64.signOf_eq_negative_iff, hs]
    simp
  have hclass : x.isNaN = false ∧ x.isInf = false := Binary64.class_of_isFinite h
  show IsLiteral (floatText plainLayout x).toList
  simp only [floatText, hclass, hsign, plainLayout, render, Bool.false_eq_true, if_false,
    String.empty_append]
  split_ifs
  · exact isLiteral_toString 0
  · exact isLiteral_positionalText _

end DiffGraph.Decimal
