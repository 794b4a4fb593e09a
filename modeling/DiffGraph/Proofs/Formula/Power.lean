import Mathlib
import DiffGraph.Proofs.Formula.Infix
import DiffGraph.Proofs.Graph.Product

/-!
# Powers in formulas

A power multiplies up from ones on the pattern of its base (`power`), so at the
nonzeros of the base it is the power, and where the base has no nonzero it is zero
for every exponent: `b^0` is one at the nonzeros of `b` only, unlike the functions
with `f(0) ≠ 0`, which make their argument dense first. `parse_power` says so for
every symbol and every exponent. Exponents are read as words, so a written exponent
from `2 ^ 64` on counts as `2 ^ 64 - 1`.
-/

namespace DiffGraph

open DiffGraph.Expr

section Entries

variable {α : Type} [ExactNumerals α] {refused : GraphError → Prop} {n : Nat} {S : Set (Expr α)}
  {x start : Expr α}

theorem grows_powerFrom_entries (hS : IsGraph n S) (hx : Usable S x) (hstart : Usable S start)
    (hshape : start.shape = x.shape) (k : Nat) :
    Grows refused n S (Formula.powerFrom x start k) fun S' r =>
      Usable S' r ∧ r.shape = x.shape ∧
        ∀ env : Nat → Nat → α, ∀ i < x.pattern.nrows, ∀ j < x.pattern.ncols,
          entry env r i j = entry env start i j * entry env x i j ^ k := by
  induction k generalizing n S start with
  | zero =>
    refine .pure hS ⟨hstart, hshape, fun env i _ j _ => ?_⟩
    rw [pow_zero, mul_one]
  | succ k ih =>
    have hbinary : binaryShape start x = x.shape := by
      rw [binaryShape, hshape]
      split <;> rfl
    refine .bind (grows_binary hS hstart hx .mul (fun hne => absurd (.inl hshape) hne)
      fun hne => absurd hshape hne) ?_
    rintro n₁ S₁ y h₁ ⟨hy, hys, hyv⟩
    rw [hbinary] at hys
    refine (ih h₁.graph (hx.mono h₁.subset) hy hys).mono ?_
    rintro n₂ S₂ r - ⟨hr, hrs, hrv⟩
    refine ⟨hr, hrs, fun env i hi j hj => ?_⟩
    have hi' : i < y.pattern.nrows := hi.trans_eq (congrArg Prod.fst hys).symm
    have hj' : j < y.pattern.ncols := hj.trans_eq (congrArg Prod.snd hys).symm
    have hfactor : entry env y i j = entry env start i j * entry env x i j := by
      rw [hyv inferInstance env i hi' j hj',
        spreadEntry_of_lt env (hi.trans_eq (congrArg Prod.fst hshape).symm)
          (hj.trans_eq (congrArg Prod.snd hshape).symm), spreadEntry_of_lt env hi hj]
      rfl
    rw [hrv env i hi j hj, hfactor, pow_succ', mul_assoc]

/-- The power of every entry, but zero outside of the pattern also for the exponent zero. -/
theorem grows_power_entries (hS : IsGraph n S) (hx : Usable S x) (k : Nat) :
    Grows refused n S (Formula.power x k) fun S' r =>
      Usable S' r ∧ r.shape = x.shape ∧
        ∀ env : Nat → Nat → α, ∀ i < x.pattern.nrows, ∀ j < x.pattern.ncols,
          entry env r i j =
            if k = 0 ∧ (i, j) ∉ x.pattern.triplets then 0 else entry env x i j ^ k := by
  unfold Formula.power
  refine .bind (grows_ones hS x.pattern) ?_
  rintro n₁ S₁ o h₁ ⟨ho, hop, hov⟩
  refine (grows_powerFrom_entries h₁.graph (hx.mono h₁.subset) ho
    (congrArg Pattern.shape hop) k).mono ?_
  rintro n₂ S₂ r - ⟨hr, hrs, hrv⟩
  refine ⟨hr, hrs, fun env i hi j hj => ?_⟩
  rw [hrv env i hi j hj, entry_of_nonzeros hop (hov env)]
  by_cases hmem : (i, j) ∈ x.pattern.triplets
  · rw [if_pos hmem, one_mul, if_neg fun h => h.2 hmem]
  · -- Outside of the pattern the base is zero, so the exponent matters only if it is zero.
    have hzero : entry env x i j = 0 := Pattern.entry_of_not_mem hmem
    rw [if_neg hmem, zero_mul, hzero]
    by_cases hk : k = 0
    · rw [if_pos ⟨hk, hmem⟩]
    · rw [if_neg fun h => hk h.1, zero_pow hk]

end Entries

namespace Formula

/-- Whole numbers are read as words, from the largest word on as that word. -/
class WordNumerals (α : Type) extends ExactNumerals α where
  natural?_natCast_min (n : Nat) : Tree.natural? (n : α) = some (min n (2 ^ (64 : Nat) - 1))

section Reading

variable {α : Type} [WordNumerals α] {symbols : List (Expr α)} {name : String}

theorem isSymbol_of_lookup {b : Expr α} (h : lookup symbols name = .ok b) : b.isSymbol = true := by
  unfold lookup at h
  split at h
  · rename_i s hs
    obtain rfl := Except.ok.inj h
    have hfound : s.name? = some name := by simpa using List.find?_some hs
    rw [isSymbol, hfound]
    rfl
  · cases h

theorem parse_name_power (hname : IsName name) (k : Nat) :
    parse (name ++ "^" ++ toString k) symbols =
      build symbols (.power (.name name) (min k (2 ^ (64 : Nat) - 1)) : Tree α) := by
  have hchars : (name ++ "^" ++ toString k).toList = (Infix.power (.symbol name) k).chars := by
    rw [String.toList_append, String.toList_append, List.append_assoc]
    rfl
  have htokens : tokens (name ++ "^" ++ toString k).toList =
      .ok ((Infix.power (.symbol name) k).tokens : List (Token α)) := by
    rw [hchars]
    refine tokens_of_spells ((Infix.power (.symbol name) k).lexemes_chars fun name' h => ?_).spells
    rw [List.mem_singleton.1 h]
    exact hname
  have hk : Tree.natural? (OrderedScalar.ofDecimal k 0 : α) = some (min k (2 ^ (64 : Nat) - 1)) := by
    rw [OrderedScalar.ofDecimal_eq_mul, zpow_zero, mul_one]
    exact WordNumerals.natural?_natCast_min k
  have hderives : Derives .expression ((Infix.power (.symbol name) k).tokens : List (Token α))
      (.power (.name name) (min k (2 ^ (64 : Nat) - 1))) :=
    .term (.factor (.power (.primary (.name name)) hk))
  rw [parse, htokens]
  exact congrArg (build symbols) (parse_of_derives hderives)

end Reading

/-- `b^k` is evaluated under every assignment and has the power of every entry of `b`, except that
`b^0` is zero where `b` has no nonzero. -/
theorem parse_power {α : Type} [WordNumerals α] {n : Nat} {G symbols : List (Expr α)} {b : Expr α}
    {name : String} (hG : Built n G) (hb : b ∈ G) (hname : IsName name)
    (hlookup : lookup symbols name = .ok b) (k : Nat) :
    ∃ e n', parse (name ++ "^" ++ toString k) symbols n = .ok (e, n') ∧ e.shape = b.shape ∧
      ∀ env : Nat → Nat → α, ∃ v, evalTree env e = .ok [v] ∧ v.length = e.nnz ∧
        ∀ i < b.pattern.nrows, ∀ j < b.pattern.ncols, e.pattern.entry v i j =
          if k = 0 ∧ (i, j) ∉ b.pattern.triplets then 0
          else Expr.entry env b i j ^ min k (2 ^ (64 : Nat) - 1) := by
  have hS := hG.isGraph.1
  have hb' : Usable {x | x ∈ nodesOf G} b :=
    hS.usable_of_isSymbol (mem_nodesOf hb) (isSymbol_of_lookup hlookup)
  have hbuild : build symbols (.power (.name name) (min k (2 ^ (64 : Nat) - 1)) : Tree α) =
      onGraph (power b (min k (2 ^ (64 : Nat) - 1))) := by
    rw [build, build, hlookup]
    rfl
  rw [parse_name_power hname k, hbuild]
  have hgrow := grows_onGraph (grows_power_entries hS hb' (min k (2 ^ (64 : Nat) - 1)))
  have hmin : min k (2 ^ (64 : Nat) - 1) = 0 ↔ k = 0 := by omega
  unfold Grows at hgrow
  cases hpower : onGraph (α := α) (power b (min k (2 ^ (64 : Nat) - 1))) n with
  | error e => simp only [hpower] at hgrow
  | ok out =>
    simp only [hpower] at hgrow
    obtain ⟨S', hext, hr, hshape, hval⟩ := hgrow
    refine ⟨out.1, out.2, rfl, hshape, fun env =>
      ⟨nonzeros env out.1, ?_, hext.graph.length_nonzeros hr.1, fun i hi j hj => ?_⟩⟩
    · rw [(hext.graph.evalTree_eq hr.1).1, hext.graph.values_of_not_isSplit hr.1 hr.2]
    · refine (hval env i hi j hj).trans ?_
      simp only [hmin]

/-! ## Rational numbers -/

instance : WordNumerals Rat where
  natural?_natCast_min := natural?_natCast_min_rat

/-- The power zero of a column with a nonzero in its first row only. -/
theorem parse_power_zero :
    let b : Expr Rat := .node 0 (.symbol "b") [] ⟨2, [[0]], by decide⟩ []
    ∃ e n', parse ("b" ++ "^" ++ toString 0) [b] 1 = .ok (e, n') ∧ e.shape = (2, 1) ∧
      ∀ env : Nat → Nat → Rat, ∃ v, evalTree env e = .ok [v] ∧
        e.pattern.entry v 0 0 = 1 ∧ e.pattern.entry v 1 0 = 0 := by
  intro b
  have hG : Built 1 [b] := .symbol "b" _ .start
  have hname : IsName "b" := isName_of_isAlpha rfl rfl
  have hlookup : lookup [b] "b" = .ok b := by simp [lookup, b, Expr.name?, Expr.op]
  obtain ⟨e, n', he, hshape, hval⟩ := parse_power hG (List.mem_singleton_self b) hname hlookup 0
  refine ⟨e, n', he, hshape, fun env => ?_⟩
  obtain ⟨v, hv, -, hentry⟩ := hval env
  have htriplets : b.pattern.triplets = [(0, 0)] := rfl
  refine ⟨v, hv, ?_, ?_⟩
  · rw [hentry 0 (by decide) 0 (by decide), htriplets]
    simp
  · rw [hentry 1 (by decide) 0 (by decide), htriplets]
    simp

end Formula

end DiffGraph
