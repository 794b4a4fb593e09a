import Mathlib
import DiffGraph.Scalar

/-!
# Undefined numbers

A `FloatingScalar` has numbers that stand for no value, as quotients of zeros do.
They compare with nothing, and a maximum passes over them; the other numbers are
ordered. Machine numbers are such (`Binary64`): a float that is defined has a rank
(`Binary64.rank`), and comparing floats compares their ranks.
-/

namespace DiffGraph

/-- Numbers some of which are undefined. -/
class FloatingScalar (α : Type) extends OrderedScalar α where
  Undefined : α → Prop
  defined_zero : ¬ Undefined 0
  undefined_abs (x : α) : Undefined (abs x) ↔ Undefined x
  defined_of_atMost {x y : α} : atMost x y = true → ¬ Undefined x ∧ ¬ Undefined y
  atMost_trans {x y z : α} : atMost x y = true → atMost y z = true → atMost x z = true
  max_of_undefined_left {x : α} (y : α) : Undefined x → max x y = y
  max_of_undefined_right {x y : α} : ¬ Undefined x → Undefined y → max x y = x
  max_of_defined {x y : α} : ¬ Undefined x → ¬ Undefined y →
    (max x y = x ∨ max x y = y) ∧ atMost x (max x y) = true ∧ atMost y (max x y) = true

/-! ## Machine numbers -/

namespace Binary64

open Float.Model

/-- Where a defined float stands: first its sign and class, then its exponent and mantissa. -/
def rank : UnpackedFloat → ℤ ×ₗ ℤ ×ₗ ℤ
  | .infinity .negative => toLex (-2, toLex (0, 0))
  | .finite .negative m e _ => toLex (-1, toLex (-e, -m))
  | .zero _ | .notANumber => toLex (0, toLex (0, 0))
  | .finite .positive m e _ => toLex (1, toLex (e, m))
  | .infinity .positive => toLex (2, toLex (0, 0))

theorem compare_toLex {β γ : Type} [LinearOrder β] [LinearOrder γ] (b b' : β) (c c' : γ) :
    compare (toLex (b, c)) (toLex (b', c')) = (compare b b').then (compare c c') := by
  rw [Prod.Lex.compare_def]
  rfl

theorem compare_natCast (m m' : ℕ) : compare (m : ℤ) (m' : ℤ) = compare m m' := by
  simp [compare, compareOfLessAndEq, Int.ofNat_inj]

theorem compare_neg_neg (e e' : ℤ) : compare (-e) (-e') = (compare e e').swap := by
  rw [Int.compare_swap]
  simp [compare, compareOfLessAndEq, eq_comm]

theorem compare_eq {u v : UnpackedFloat} (hu : u.isNaN = false) (hv : v.isNaN = false) :
    u.compare v = some (compare (rank u) (rank v)) := by
  cases u with
  | notANumber => cases hu
  | infinity s =>
    cases v with
    | notANumber => cases hv
    | infinity s' => cases s <;> cases s' <;> rfl
    | zero s' => cases s <;> rfl
    | finite s' => cases s <;> cases s' <;> rfl
  | zero s =>
    cases v with
    | notANumber => cases hv
    | infinity s' => cases s' <;> rfl
    | zero s' => rfl
    | finite s' => cases s' <;> rfl
  | finite s m e =>
    cases v with
    | notANumber => cases hv
    | infinity s' => cases s <;> cases s' <;> rfl
    | zero s' => cases s <;> rfl
    | finite s' m' e' =>
      cases s <;> cases s'
      · simp only [rank, compare_toLex, compare_neg_neg, compare_natCast, ← Ordering.swap_then]
        rfl
      · rfl
      · rfl
      · simp only [rank, compare_toLex, compare_natCast]
        rfl

theorem compare_of_isNaN {u v : UnpackedFloat} (h : u.isNaN = true ∨ v.isNaN = true) :
    u.compare v = none := by
  rcases h with h | h
  · cases u with
    | notANumber => rfl
    | _ => cases h
  · cases v with
    | notANumber => cases u <;> rfl
    | _ => cases h

theorem le_iff {u v : UnpackedFloat} :
    u.le v = true ↔ (u.isNaN = false ∧ v.isNaN = false) ∧ rank u ≤ rank v := by
  unfold UnpackedFloat.le
  by_cases h : u.isNaN = false ∧ v.isNaN = false
  · simp [compare_eq h.1 h.2, h, Ordering.isLE_iff_ne_gt, compare_le_iff_le]
  · have hnan := (not_and_or.1 h).imp Bool.of_not_eq_false Bool.of_not_eq_false
    simp [compare_of_isNaN hnan, h]

theorem lt_iff {u v : UnpackedFloat} :
    u.lt v = true ↔ (u.isNaN = false ∧ v.isNaN = false) ∧ rank u < rank v := by
  unfold UnpackedFloat.lt
  by_cases h : u.isNaN = false ∧ v.isNaN = false
  · simp [compare_eq h.1 h.2, h, compare_lt_iff_lt]
  · have hnan := (not_and_or.1 h).imp Bool.of_not_eq_false Bool.of_not_eq_false
    simp [compare_of_isNaN hnan, h]

/-- The encoding of an undefined float has the largest exponent and a mantissa. -/
theorem isNaN_unpack {spec : Format} (b : BitVec spec.numBits) :
    (UnpackedFloat.unpack spec b).isNaN = true ↔
      UnpackedFloat.unpackExponent b = -BitVec.ofNat spec.exponentBits 1 ∧
        UnpackedFloat.unpackMantissa b ≠ BitVec.ofNat spec.mantissaBitsWithoutImplicit 0 := by
  unfold UnpackedFloat.unpack
  dsimp only
  split
  · rename_i hexponent
    split
    · rename_i hmantissa
      simp [UnpackedFloat.isNaN, hmantissa]
    · rename_i hmantissa
      simp [UnpackedFloat.isNaN, hexponent, hmantissa]
  · rename_i hexponent
    split
    · split <;> simp [UnpackedFloat.isNaN, hexponent]
    · simp [UnpackedFloat.isNaN, hexponent]

theorem isNaN_unpack_pack (u : UnpackedFloat) :
    (UnpackedFloat.unpack .binary64 (UnpackedFloat.pack .binary64 u)).isNaN = u.isNaN := by
  cases u with
  | notANumber => decide
  | infinity s => cases s <;> decide
  | zero s => cases s <;> decide
  | finite s m e hm =>
    have hinfinity : (UnpackedFloat.unpack .binary64
        (UnpackedFloat.packedInfinity .binary64 s)).isNaN = false := by
      cases s <;> decide
    show _ = false
    unfold UnpackedFloat.pack
    dsimp only
    split
    · exact hinfinity
    rename_i hexponent
    rw [← Bool.not_eq_true]
    split <;> rw [isNaN_unpack, UnpackedFloat.unpackExponent_packComponents, not_and_or]
    · refine .inl fun heq => hexponent ?_
      have hlargest : (-BitVec.ofNat Format.binary64.exponentBits 1).toNat =
          2 ^ Format.binary64.exponentBits - 1 := by decide
      have hmod := congrArg BitVec.toNat heq
      rw [BitVec.toNat_ofNat, hlargest] at hmod
      have hle := hmod.symm.trans_le (Nat.mod_le _ _)
      exact (Nat.sub_le_iff_le_add).1 hle
    · exact .inl (by decide)

theorem isNaN_abs (x : Float) : x.abs.isNaN = x.isNaN := by
  have habs : x.toModel.unpack.abs.isNaN = x.toModel.unpack.isNaN := by
    cases x.toModel.unpack <;> rfl
  exact (isNaN_unpack_pack _).trans habs

theorem float_le_iff {x y : Float} : x ≤ y ↔
    (x.isNaN = false ∧ y.isNaN = false) ∧ rank x.toModel.unpack ≤ rank y.toModel.unpack :=
  decide_eq_true_iff.trans le_iff

theorem float_lt_iff {x y : Float} : x < y ↔
    (x.isNaN = false ∧ y.isNaN = false) ∧ rank x.toModel.unpack < rank y.toModel.unpack :=
  decide_eq_true_iff.trans lt_iff

end Binary64

open Binary64 in
instance : FloatingScalar Float where
  Undefined x := x.isNaN = true
  defined_zero := by decide
  undefined_abs x := iff_of_eq (congrArg (· = true) (isNaN_abs x))
  defined_of_atMost h := by
    obtain ⟨⟨hx, hy⟩, -⟩ := float_le_iff.1 (of_decide_eq_true h)
    exact ⟨Bool.eq_false_iff.1 hx, Bool.eq_false_iff.1 hy⟩
  atMost_trans h h' := by
    obtain ⟨⟨hx, -⟩, hxy⟩ := float_le_iff.1 (of_decide_eq_true h)
    obtain ⟨⟨-, hz⟩, hyz⟩ := float_le_iff.1 (of_decide_eq_true h')
    exact decide_eq_true (float_le_iff.2 ⟨⟨hx, hz⟩, hxy.trans hyz⟩)
  max_of_undefined_left y h := if_pos h
  max_of_undefined_right hx hy := (if_neg hx).trans (if_pos hy)
  max_of_defined {x y} hx hy := by
    have hmax : OrderedScalar.max x y = if x < y then y else x :=
      (if_neg hx).trans (if_neg hy)
    have hle {a b : Float} (ha : ¬ a.isNaN = true) (hb : ¬ b.isNaN = true)
        (hab : rank a.toModel.unpack ≤ rank b.toModel.unpack) : OrderedScalar.atMost a b = true :=
      decide_eq_true (float_le_iff.2 ⟨⟨Bool.eq_false_iff.2 ha, Bool.eq_false_iff.2 hb⟩, hab⟩)
    rw [hmax]
    split
    · rename_i hlt
      exact ⟨.inr rfl, hle hx hy (float_lt_iff.1 hlt).2.le, hle hy hy le_rfl⟩
    · rename_i hlt
      refine ⟨.inl rfl, hle hx hx le_rfl, hle hy hx (not_lt.1 fun hrank => hlt ?_)⟩
      exact float_lt_iff.2 ⟨⟨Bool.eq_false_iff.2 hx, Bool.eq_false_iff.2 hy⟩, hrank⟩

end DiffGraph
