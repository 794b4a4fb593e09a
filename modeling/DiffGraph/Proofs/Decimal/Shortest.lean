import Mathlib
import DiffGraph.Decimal.Shortest

/-!
# The shortest decimal of a float

The value of an interval lies between two neighbours on every decimal grid, so if the interval
has a decimal on a grid, one of the neighbours is in it (`isSome_onGrid?`), and the first grid
that has one is found (`exists_onGrid?_shortest`). A decimal with fewer digits than this grid
gives lies on a coarser grid or below the power of ten under the value (`lt_digitCount`). The
interval of a float is longer than the steps of the seventeenth grid, so its decimal lies in it
and has the fewest digits: `ofFloat_shortest`.
-/

namespace DiffGraph.Decimal

namespace Interval

variable {i : Interval} {k : Int} {c : Nat}

/-! ## Scales -/

theorem decimalScale_pos (i : Interval) (k : Int) : 0 < i.decimalScale k :=
  Nat.mul_pos (Nat.pow_pos (by decide)) (Nat.pow_pos (by decide))

theorem unitScale_pos (i : Interval) (k : Int) : 0 < i.unitScale k :=
  Nat.mul_pos (Nat.pow_pos (by decide)) (Nat.pow_pos (by decide))

theorem pow_toNat {b : ℚ} (hb : b ≠ 0) (k : Int) : b ^ k.toNat = b ^ k * b ^ (-k).toNat := by
  rw [← zpow_natCast, ← zpow_natCast, ← zpow_add₀ hb]
  congr 1
  omega

/-- What makes `10 ^ k` and the units whole numbers. -/
def denominator (i : Interval) (k : Int) : ℚ :=
  10 ^ (-k).toNat * 2 ^ (-i.unit).toNat

theorem denominator_pos (i : Interval) (k : Int) : 0 < i.denominator k := by
  unfold denominator
  positivity

theorem cast_decimalScale (i : Interval) (k : Int) :
    (i.decimalScale k : ℚ) = 10 ^ k * i.denominator k := by
  rw [decimalScale, denominator, Nat.cast_mul, Nat.cast_pow, Nat.cast_pow, Nat.cast_ofNat,
    Nat.cast_ofNat, pow_toNat (by norm_num) k, mul_assoc]

theorem cast_unitScale (i : Interval) (k : Int) :
    (i.unitScale k : ℚ) = 2 ^ i.unit * i.denominator k := by
  rw [unitScale, denominator, Nat.cast_mul, Nat.cast_pow, Nat.cast_pow, Nat.cast_ofNat,
    Nat.cast_ofNat, pow_toNat (by norm_num) i.unit]
  ring

/-- Comparing in the scale of `10 ^ k` and the units compares the numbers. -/
theorem units_le_iff {a : Nat} : a * i.unitScale k ≤ c * i.decimalScale k ↔
    (a * 2 ^ i.unit : ℚ) ≤ c * 10 ^ k := by
  rw [← Nat.cast_le (α := ℚ), Nat.cast_mul, Nat.cast_mul, cast_decimalScale, cast_unitScale,
    ← mul_assoc, ← mul_assoc, mul_le_mul_iff_left₀ (i.denominator_pos k)]

theorem le_units_iff {a : Nat} : c * i.decimalScale k ≤ a * i.unitScale k ↔
    (c * 10 ^ k : ℚ) ≤ a * 2 ^ i.unit := by
  rw [← Nat.cast_le (α := ℚ), Nat.cast_mul, Nat.cast_mul, cast_decimalScale, cast_unitScale,
    ← mul_assoc, ← mul_assoc, mul_le_mul_iff_left₀ (i.denominator_pos k)]

theorem contains_iff : i.contains k c = true ↔
    if i.closed then
      (i.low * 2 ^ i.unit : ℚ) ≤ c * 10 ^ k ∧ (c * 10 ^ k : ℚ) ≤ i.high * 2 ^ i.unit
    else
      (i.low * 2 ^ i.unit : ℚ) < c * 10 ^ k ∧ (c * 10 ^ k : ℚ) < i.high * 2 ^ i.unit := by
  unfold contains
  cases i.closed with
  | true => simp [units_le_iff, le_units_iff]
  | false =>
    simp only [Bool.false_eq_true, if_false, Bool.and_eq_true, decide_eq_true_eq, ← not_le,
      units_le_iff, le_units_iff]

/-- Only the number counts, and not how it is written. -/
theorem contains_congr {k' : Int} {c' : Nat} (h : (c * 10 ^ k : ℚ) = c' * 10 ^ k') :
    i.contains k c = i.contains k' c' := by
  rw [Bool.eq_iff_iff, contains_iff, contains_iff, h]

/-- The interval has no gap below the value. -/
theorem contains_of_le_value {k' : Int} {c' : Nat} (high : i.value < i.high)
    (h : i.contains k c = true) (hle : (c * 10 ^ k : ℚ) ≤ c' * 10 ^ k')
    (hvalue : (c' * 10 ^ k' : ℚ) ≤ i.value * 2 ^ i.unit) : i.contains k' c' = true := by
  have hhigh : (i.value * 2 ^ i.unit : ℚ) < i.high * 2 ^ i.unit :=
    mul_lt_mul_of_pos_right (Nat.cast_lt.2 high) (by positivity)
  rw [contains_iff] at h ⊢
  split_ifs at h ⊢
  · exact ⟨h.1.trans hle, (hvalue.trans_lt hhigh).le⟩
  · exact ⟨h.1.trans_le hle, hvalue.trans_lt hhigh⟩

/-- The interval has no gap above the value. -/
theorem contains_of_value_le {k' : Int} {c' : Nat} (low : i.low < i.value)
    (h : i.contains k c = true) (hle : (c' * 10 ^ k' : ℚ) ≤ c * 10 ^ k)
    (hvalue : (i.value * 2 ^ i.unit : ℚ) ≤ c' * 10 ^ k') : i.contains k' c' = true := by
  have hlow : (i.low * 2 ^ i.unit : ℚ) < i.value * 2 ^ i.unit :=
    mul_lt_mul_of_pos_right (Nat.cast_lt.2 low) (by positivity)
  rw [contains_iff] at h ⊢
  split_ifs at h ⊢
  · exact ⟨(hlow.trans_le hvalue).le, hle.trans h.2⟩
  · exact ⟨hlow.trans_le hvalue, hle.trans_lt h.2⟩

/-! ## Neighbours -/

theorem contains_of_onGrid? {d : Decimal} (h : i.onGrid? k = some d) :
    d.exponent = k ∧ i.contains k d.digits = true ∧
      d.digits ≤ i.value * i.unitScale k / i.decimalScale k + 1 := by
  simp only [onGrid?] at h
  split at h
  case h_1 hbelow habove =>
    cases h
    dsimp only
    split
    · exact ⟨rfl, hbelow, Nat.le_succ _⟩
    · exact ⟨rfl, habove, le_rfl⟩
  case h_2 hbelow _ => cases h; exact ⟨rfl, hbelow, Nat.le_succ _⟩
  case h_3 _ habove => cases h; exact ⟨rfl, habove, le_rfl⟩
  case h_4 => cases h

/-- If a multiple of `10 ^ k` lies in the interval, so does a neighbour of the value. -/
theorem isSome_onGrid? (low : i.low < i.value) (high : i.value < i.high)
    (h : i.contains k c = true) : (i.onGrid? k).isSome = true := by
  generalize hbelow : i.value * i.unitScale k / i.decimalScale k = below
  have hfloor : (below * 10 ^ k : ℚ) ≤ i.value * 2 ^ i.unit :=
    le_units_iff.1 (hbelow ▸ Nat.div_mul_le_self _ _)
  have hceil : (i.value * 2 ^ i.unit : ℚ) ≤ (below + 1 : Nat) * 10 ^ k := by
    refine units_le_iff.1 (Nat.le_of_lt ?_)
    rw [Nat.mul_comm (below + 1), ← hbelow]
    exact Nat.lt_mul_div_succ _ (i.decimalScale_pos k)
  have hneighbour : i.contains k below = true ∨ i.contains k (below + 1) = true := by
    rcases Nat.lt_or_ge below c with hc | hc
    · exact .inr (contains_of_value_le low h
        (mul_le_mul_of_nonneg_right (Nat.cast_le.2 hc) (by positivity)) hceil)
    · exact .inl (contains_of_le_value high h
        (mul_le_mul_of_nonneg_right (Nat.cast_le.2 hc) (by positivity)) hfloor)
  simp only [onGrid?, hbelow]
  split <;> simp_all

/-- If one of the seventeen grids has a decimal in the interval, then the shortest one is on the
coarsest such grid. -/
theorem exists_onGrid?_shortest {n : Nat} (low : i.low < i.value) (high : i.value < i.high)
    (hn : n < 17) (h : i.contains (i.magnitude - n) c = true) :
    ∃ m : Nat, i.onGrid? (i.magnitude - m) = some i.shortest ∧
      ∀ k < m, ∀ c, i.contains (i.magnitude - k) c = false := by
  cases hfind : (List.range 17).findSome? fun n : Nat => i.onGrid? (i.magnitude - (n : Int)) with
  | none =>
    have hsome := isSome_onGrid? low high h
    rw [List.findSome?_eq_none_iff.1 hfind n (List.mem_range.2 hn)] at hsome
    cases hsome
  | some d =>
    obtain ⟨coarser, m, finer, hrange, hm, hcoarser⟩ := List.findSome?_eq_some_iff.1 hfind
    have hshortest : i.shortest = d := by simp only [shortest, hfind, Option.getD_some]
    -- the grids before the one found are the coarser ones
    rw [List.range_eq_range', List.range'_eq_append_iff] at hrange
    obtain ⟨m, -, rfl, htail⟩ := hrange
    obtain ⟨rfl, -⟩ := List.range'_eq_cons_iff.1 htail.symm
    rw [Nat.zero_add, Nat.mul_one] at hm
    refine ⟨m, hshortest ▸ hm, fun k hk c => Bool.eq_false_iff.2 fun hc => ?_⟩
    have hsome := isSome_onGrid? low high hc
    rw [hcoarser k (List.mem_range'_1.2 ⟨Nat.zero_le k, by omega⟩)] at hsome
    cases hsome

/-! ## Digits -/

theorem digitCount_pos (n : Nat) : 0 < digitCount n :=
  Nat.length_toDigits_pos

theorem digitCount_le_iff {n d : Nat} (hd : 0 < d) : digitCount n ≤ d ↔ n < 10 ^ d :=
  Nat.length_toDigits_le_iff (by decide) hd

theorem lt_pow_digitCount (n : Nat) : n < 10 ^ digitCount n :=
  (digitCount_le_iff (digitCount_pos n)).1 le_rfl

theorem pow_le_of_digitCount {n : Nat} (hn : 0 < n) : 10 ^ (digitCount n - 1) ≤ n := by
  have hpos := digitCount_pos n
  rcases Nat.eq_zero_or_pos (digitCount n - 1) with hone | hmore
  · rw [hone]
    exact hn
  · refine Nat.le_of_not_lt fun hlt => ?_
    have hle := (digitCount_le_iff hmore).2 hlt
    omega

theorem digitCount_div {m n : Nat} (hn : 0 < n) (hle : n ≤ m) :
    10 ^ (digitCount (m / n) - 1) * n ≤ m ∧ m < 10 ^ digitCount (m / n) * n :=
  ⟨(Nat.le_div_iff_mul_le hn).1 (pow_le_of_digitCount (Nat.div_pos hle hn)),
    (Nat.div_lt_iff_lt_mul hn).1 (lt_pow_digitCount (m / n))⟩

theorem magnitude_spec (hv : 0 < i.value) :
    (10 ^ i.magnitude : ℚ) ≤ i.value * 2 ^ i.unit ∧
      (i.value * 2 ^ i.unit : ℚ) < 10 ^ (i.magnitude + 1) := by
  have hden : 0 < i.decimalScale 0 := i.decimalScale_pos 0
  have hnum : 0 < i.value * i.unitScale 0 := Nat.mul_pos hv (i.unitScale_pos 0)
  simp only [magnitude]
  split
  case isTrue hle =>
    obtain ⟨hfloor, hceil⟩ := digitCount_div hden hle
    rw [sub_add_cancel, ← Nat.cast_pred (digitCount_pos _), zpow_natCast, zpow_natCast]
    constructor
    · simpa using le_units_iff.1 hfloor
    · simpa using lt_of_not_ge (mt le_units_iff.2 (Nat.not_le.2 hceil))
  case isFalse hlt =>
    have hsub : (i.decimalScale 0 + i.value * i.unitScale 0 - 1) / (i.value * i.unitScale 0) - 1 =
        (i.decimalScale 0 - 1) / (i.value * i.unitScale 0) := by
      rw [Nat.sub_add_comm hden, Nat.add_div_right _ hnum, Nat.succ_sub_one]
    obtain ⟨hfloor, hceil⟩ := digitCount_div hnum (m := i.decimalScale 0 - 1) (by omega)
    obtain ⟨l, hl⟩ := Nat.exists_eq_add_one_of_ne_zero
      (digitCount_pos ((i.decimalScale 0 - 1) / (i.value * i.unitScale 0))).ne'
    rw [hl] at hfloor hceil
    have hbelow : ¬ 1 * i.decimalScale 0 ≤ 10 ^ l * i.value * i.unitScale 0 := by
      rw [Nat.mul_assoc]
      rw [Nat.add_sub_cancel] at hfloor
      omega
    have habove : 1 * i.decimalScale 0 ≤ 10 ^ (l + 1) * i.value * i.unitScale 0 := by
      rw [Nat.mul_assoc]
      omega
    rw [le_units_iff, Nat.cast_mul, Nat.cast_pow, Nat.cast_one, Nat.cast_ofNat, zpow_zero,
      mul_one, mul_assoc] at hbelow habove
    have hexponent : -((l + 1 : Nat) : Int) + 1 = -(l : Int) := by omega
    rw [hsub, hl, hexponent, zpow_neg, zpow_neg, zpow_natCast, zpow_natCast]
    constructor
    · exact (inv_le_iff_one_le_mul₀' (by positivity)).2 habove
    · rw [← mul_one ((10 : ℚ) ^ l)⁻¹]
      exact (lt_inv_mul_iff₀ (by positivity)).2 (lt_of_not_ge hbelow)

/-! ## Seventeen digits -/

theorem exists_contains (h : (i.low * 2 ^ i.unit + 10 ^ k : ℚ) < i.high * 2 ^ i.unit) :
    ∃ c, i.contains k c = true := by
  have hlow : i.low * i.unitScale k <
      (i.low * i.unitScale k / i.decimalScale k + 1) * i.decimalScale k := by
    rw [Nat.mul_comm (_ + 1)]
    exact Nat.lt_mul_div_succ _ (i.decimalScale_pos k)
  have hstep : (i.low * i.unitScale k / i.decimalScale k + 1) * i.decimalScale k ≤
      i.low * i.unitScale k + i.decimalScale k := by
    rw [Nat.succ_mul]
    exact Nat.add_le_add_right (Nat.div_mul_le_self _ _) _
  have hhigh : i.low * i.unitScale k + i.decimalScale k < i.high * i.unitScale k := by
    have hscaled := mul_lt_mul_of_pos_right h (i.denominator_pos k)
    rw [← Nat.cast_lt (α := ℚ)]
    push_cast
    rw [cast_decimalScale, cast_unitScale]
    linarith
  refine ⟨i.low * i.unitScale k / i.decimalScale k + 1, ?_⟩
  unfold contains
  cases i.closed <;>
    simp only [Bool.false_eq_true, if_false, if_true, Bool.and_eq_true, decide_eq_true_eq] <;>
    omega

/-- The steps of the seventeenth grid are at most `value / 10 ^ 16`. -/
theorem exists_contains_last (hv : 0 < i.value)
    (wide : 10 ^ 16 * i.low + i.value < 10 ^ 16 * i.high) :
    ∃ c, i.contains (i.magnitude - (16 : Nat)) c = true := by
  refine exists_contains ?_
  have hstep : (10 ^ (i.magnitude - (16 : Nat)) : ℚ) ≤ i.value * 2 ^ i.unit / 10 ^ 16 := by
    rw [zpow_sub₀ (by norm_num), zpow_natCast]
    exact div_le_div_of_nonneg_right (magnitude_spec hv).1 (by positivity)
  have hwide : ((10 ^ 16 * i.low + i.value : ℕ) : ℚ) * 2 ^ i.unit <
      (10 ^ 16 * i.high : ℕ) * 2 ^ i.unit :=
    mul_lt_mul_of_pos_right (Nat.cast_lt.2 wide) (by positivity)
  push_cast at hwide
  generalize (10 ^ (i.magnitude - (16 : Nat)) : ℚ) = step at hstep ⊢
  linarith

/-- The value is inside the interval, and the interval is long enough for seventeen digits. -/
structure Bounds (i : Interval) : Prop where
  low : i.low < i.value
  high : i.value < i.high
  wide : 10 ^ 16 * i.low + i.value < 10 ^ 16 * i.high

-- the short spacing below a power of two needs the power to be small
theorem bounds_ofBinary {m : Nat} {narrow : Bool} (q : Int) (hm : 0 < m) (hlt : m < 2 ^ 53)
    (hn : narrow = true → m = 2 ^ 52) : (ofBinary m q narrow).Bounds := by
  cases narrow with
  | false =>
    constructor <;> simp only [ofBinary, Bool.false_eq_true, if_false] <;> omega
  | true =>
    constructor <;> simp only [ofBinary, if_true, hn rfl] <;> omega

theorem bounds_ofFloat {x : Float} (hx : x.toBits.toNat % 2 ^ 63 ≠ 0) : (ofFloat x).Bounds := by
  have hbits : x.toBits.toNat % 2 ^ 63 =
      x.toBits.toNat % 2 ^ 52 + 2 ^ 52 * (x.toBits.toNat / 2 ^ 52 % 2 ^ 11) :=
    Nat.mod_mul (a := 2 ^ 52) (b := 2 ^ 11)
  have hfraction := Nat.mod_lt x.toBits.toNat (show 0 < 2 ^ 52 by decide)
  unfold ofFloat
  dsimp only
  split
  case isTrue hzero =>
    refine bounds_ofBinary _ (by omega) (by omega) (fun h => ?_)
    cases h
  case isFalse =>
    refine bounds_ofBinary _ (by omega) (by omega) (fun h => ?_)
    simp only [Bool.and_eq_true, beq_iff_eq] at h
    omega

end Interval

/-! ## Trailing zeros -/

theorem value_trimmed (d : Decimal) (fuel : Nat) :
    ((d.trimmed fuel).digits * 10 ^ (d.trimmed fuel).exponent : ℚ) =
      d.digits * 10 ^ d.exponent := by
  induction fuel generalizing d with
  | zero => rfl
  | succ fuel ih =>
    rw [trimmed]
    split
    case isFalse => rfl
    case isTrue h =>
      have hdigits : (d.digits : ℚ) = (d.digits / 10 : Nat) * 10 := by
        exact_mod_cast (Nat.div_mul_cancel (Nat.dvd_of_mod_eq_zero h.2)).symm
      rw [ih, zpow_add_one₀ (by norm_num), hdigits]
      ring

theorem digits_trimmed_le (d : Decimal) (fuel : Nat) : (d.trimmed fuel).digits ≤ d.digits := by
  induction fuel generalizing d with
  | zero => exact le_rfl
  | succ fuel ih =>
    rw [trimmed]
    split
    · exact (ih _).trans (Nat.div_le_self _ _)
    · exact le_rfl

namespace Interval

variable {i : Interval} {k : Int} {c : Nat}

theorem contains_shortest (hi : i.Bounds) :
    i.contains (i.shortest.trimmed 20).exponent (i.shortest.trimmed 20).digits = true := by
  obtain ⟨c, hc⟩ := exists_contains_last (Nat.zero_lt_of_lt hi.low) hi.wide
  obtain ⟨m, hm, -⟩ := exists_onGrid?_shortest (n := 16) hi.low hi.high (by decide) hc
  obtain ⟨hexponent, hcontains, -⟩ := contains_of_onGrid? hm
  rw [contains_congr (value_trimmed _ _), hexponent]
  exact hcontains

theorem pow_mul_zpow_sub (m : Nat) (e : Int) : (10 ^ m * 10 ^ (e - m) : ℚ) = 10 ^ e := by
  rw [← zpow_natCast, ← zpow_add₀ (by norm_num), add_sub_cancel]

/-- A decimal with at most `m` digits lies on a coarser grid than the one of `m`, or below the
power of ten under the value. -/
theorem lt_digitCount {m : Nat} (hi : i.Bounds) (hm : 0 < m)
    (hcoarser : ∀ k < m, ∀ c, i.contains (i.magnitude - (k : Nat)) c = false)
    (h : i.contains k c = true) : m < digitCount c := by
  refine Nat.lt_of_not_le fun hle => ?_
  have hlt : (c : ℚ) ≤ 10 ^ m := by
    exact_mod_cast ((digitCount_le_iff hm).1 hle).le
  rcases le_or_gt k (i.magnitude - m) with hk | hk
  · have hpow : (c * 10 ^ k : ℚ) ≤ (1 : Nat) * 10 ^ (i.magnitude - (0 : Nat)) := by
      calc (c * 10 ^ k : ℚ) ≤ 10 ^ m * 10 ^ (i.magnitude - m) :=
            mul_le_mul hlt (zpow_le_zpow_right₀ (by norm_num) hk) (by positivity) (by positivity)
        _ = (1 : Nat) * 10 ^ (i.magnitude - (0 : Nat)) := by
            rw [pow_mul_zpow_sub, Nat.cast_one, one_mul, Nat.cast_zero, sub_zero]
    have hone := contains_of_le_value hi.high h hpow
      (by simpa using (magnitude_spec (Nat.zero_lt_of_lt hi.low)).1)
    rw [hcoarser 0 hm 1] at hone
    cases hone
  · obtain ⟨n, hn⟩ := Int.le.dest (show i.magnitude - (m - 1 : Nat) ≤ k by omega)
    have hsame : (c * 10 ^ k : ℚ) = (c * 10 ^ n : Nat) * 10 ^ (i.magnitude - (m - 1 : Nat)) := by
      rw [← hn, zpow_add₀ (by norm_num), zpow_natCast]
      push_cast
      ring
    rw [contains_congr hsame, hcoarser (m - 1) (by omega)] at h
    cases h

theorem digits_shortest_le {m : Nat} (hi : i.Bounds)
    (hm : i.onGrid? (i.magnitude - m) = some i.shortest) : i.shortest.digits ≤ 10 ^ (m + 1) := by
  refine (contains_of_onGrid? hm).2.2.trans (Nat.succ_le_of_lt ?_)
  have hfloor := le_units_iff.1 (Nat.div_mul_le_self (i.value * i.unitScale (i.magnitude - m))
    (i.decimalScale (i.magnitude - m)))
  have hlt := hfloor.trans_lt (magnitude_spec (Nat.zero_lt_of_lt hi.low)).2
  rw [zpow_add_one₀ (by norm_num), ← pow_mul_zpow_sub m i.magnitude, mul_right_comm,
    ← pow_succ] at hlt
  exact_mod_cast lt_of_mul_lt_mul_right hlt (by positivity)

theorem digitCount_shortest_le (hi : i.Bounds) (h : i.contains k c = true) :
    digitCount (i.shortest.trimmed 20).digits ≤ digitCount c := by
  obtain ⟨c', hc'⟩ := exists_contains_last (Nat.zero_lt_of_lt hi.low) hi.wide
  obtain ⟨m, hm, hcoarser⟩ := exists_onGrid?_shortest (n := 16) hi.low hi.high (by decide) hc'
  have hdigits := digits_shortest_le hi hm
  rcases Nat.eq_zero_or_pos m with rfl | hpos
  · refine le_trans ?_ (digitCount_pos c)
    rw [digitCount_le_iff Nat.one_pos, trimmed]
    split
    case isTrue hten =>
      have htrimmed := digits_trimmed_le ⟨i.shortest.digits / 10, i.shortest.exponent + 1⟩ 19
      dsimp only at htrimmed
      omega
    case isFalse => omega
  · have hne : i.shortest.digits ≠ 10 ^ (m + 1) := fun heq => by
      have hten : (i.shortest.digits * 10 ^ (i.magnitude - m) : ℚ) =
          (10 : Nat) * 10 ^ (i.magnitude - (0 : Nat)) := by
        rw [heq, Nat.cast_zero, sub_zero, ← pow_mul_zpow_sub m i.magnitude]
        push_cast
        ring
      have hcontains := (contains_of_onGrid? hm).2.1
      rw [contains_congr hten, hcoarser 0 hpos] at hcontains
      cases hcontains
    have hlt := (digits_trimmed_le i.shortest 20).trans_lt (lt_of_le_of_ne hdigits hne)
    exact ((digitCount_le_iff (Nat.succ_pos m)).2 hlt).trans (lt_digitCount hi hpos hcoarser h)

end Interval

/-- The decimal of a nonzero float lies in the interval of the float, and no decimal in the
interval has fewer digits. -/
theorem ofFloat_shortest {x : Float} (hx : x.toBits.toNat % 2 ^ 63 ≠ 0) :
    (Interval.ofFloat x).contains (ofFloat x).exponent (ofFloat x).digits = true ∧
      ∀ (k : Int) (c : Nat), (Interval.ofFloat x).contains k c = true →
        Interval.digitCount (ofFloat x).digits ≤ Interval.digitCount c :=
  have hi := Interval.bounds_ofFloat hx
  ⟨Interval.contains_shortest hi, fun _ _ h => Interval.digitCount_shortest_le hi h⟩

end DiffGraph.Decimal
