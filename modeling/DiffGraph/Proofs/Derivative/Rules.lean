import Mathlib
import DiffGraph.Expr.Derivative
import DiffGraph.Proofs.Graph.Entries
import DiffGraph.Proofs.Graph.Product

/-!
# The rules of differentiation

What `unaryTangent` and `binaryTangent` build: expressions whose entries are the
derivatives that dual numbers give. Operands of a binary operation have the
shape of the result or count at all of its places (`Spreads`).
-/

namespace DiffGraph

open Expr

/-- The expression has the shape, or is 1x1 and counts at every place of it. -/
def Spreads {α : Type} (x : Expr α) (shape : Nat × Nat) : Prop :=
  x.shape = shape ∨ x.shape = (1, 1)

section Shapes

variable {α : Type} {x y : Expr α} {s : Nat × Nat}

theorem compatible_of_spreads (hx : Spreads x s) (hy : Spreads y s)
    (h : x.shape = s ∨ y.shape = s) : Compatible x y ∧ binaryShape x y = s := by
  unfold Compatible binaryShape
  rcases hx with hx | hx <;> rcases hy with hy | hy <;> rcases h with h | h <;> simp_all

theorem Compatible.spreads (h : Compatible x y) :
    Spreads x (binaryShape x y) ∧ Spreads y (binaryShape x y) ∧
      (x.shape = binaryShape x y ∨ y.shape = binaryShape x y) := by
  unfold Compatible at h
  unfold Spreads binaryShape
  split
  · exact ⟨.inr ‹_›, .inl rfl, .inr rfl⟩
  · rename_i hx
    rcases h with h | h | h
    · exact ⟨.inl rfl, .inl h.symm, .inl rfl⟩
    · exact absurd h hx
    · exact ⟨.inl rfl, .inr h, .inl rfl⟩

end Shapes

variable {α : Type} [ExactField α] {refused : GraphError → Prop} {n : Nat} {S : Set (Expr α)}
  {x y out dx : Expr α} {s : Nat × Nat}

theorem spreadEntry_of_shape {T : Type} [Element Id α T] [Zero T] (env : Nat → Nat → T)
    (h : x.shape = s) {i j : Nat} (hi : i < s.1) (hj : j < s.2) :
    spreadEntry env x i j = entry env x i j := by
  subst h
  exact spreadEntry_of_lt env hi hj

theorem grows_binary_spreads (hS : IsGraph n S) (hx : Usable S x) (hy : Usable S y) (op : BinaryOp)
    (hsx : Spreads x s) (hsy : Spreads y s) (h : x.shape = s ∨ y.shape = s)
    (hfits : x.shape ≠ y.shape → op ≠ .mul → ¬ Size.Fits s → refused .misuse) :
    Grows refused n S (binary op x y) fun S' r =>
      Usable S' r ∧ r.shape = s ∧ ∀ env : Nat → Nat → α, ∀ i < s.1, ∀ j < s.2,
        entry env r i j = op.apply (spreadEntry env x i j) (spreadEntry env y i j) := by
  obtain ⟨hcomp, hshape⟩ := compatible_of_spreads hsx hsy h
  refine (grows_binary hS hx hy op (fun hne => absurd hcomp hne) (hshape ▸ hfits)).mono ?_
  rintro n' S' r - ⟨hr, hs, hval⟩
  have hs : r.shape = s := hs.trans hshape
  subst hs
  exact ⟨hr, rfl, hval inferInstance⟩

theorem grows_binary_same (hS : IsGraph n S) (hx : Usable S x) (hy : Usable S y) (op : BinaryOp)
    (hsx : x.shape = s) (hsy : y.shape = s) :
    Grows refused n S (binary op x y) fun S' r =>
      Usable S' r ∧ r.shape = s ∧ ∀ env : Nat → Nat → α, ∀ i < s.1, ∀ j < s.2,
        entry env r i j = op.apply (entry env x i j) (entry env y i j) := by
  refine (grows_binary_spreads hS hx hy op (.inl hsx) (.inl hsy) (.inl hsx)
    fun hne => absurd (hsx.trans hsy.symm) hne).mono ?_
  rintro n' S' r - ⟨hr, hs, hval⟩
  refine ⟨hr, hs, fun env i hi j hj => ?_⟩
  rw [hval env i hi j hj, spreadEntry_of_shape env hsx hi hj, spreadEntry_of_shape env hsy hi hj]

theorem grows_neg (hS : IsGraph n S) (hx : Usable S x) :
    Grows refused n S (liftM (neg x)) fun S' r =>
      Usable S' r ∧ r.pattern = x.pattern ∧
        ∀ (env : Nat → Nat → α) (i j : Nat), entry env r i j = -entry env x i j := by
  unfold neg
  refine (grows_unaryNode hS hx (.inl rfl)).mono ?_
  rintro n' S' r - ⟨hr, hp, hval⟩
  refine ⟨hr, hp, fun env i j => ?_⟩
  rw [entry, hp, hval inferInstance]
  exact Pattern.entry_map (hS.length_nonzeros hx.1) (.inr neg_zero)

theorem grows_unaryTangent (hS : IsGraph n S) (hx : Usable S x) (hout : Usable S out)
    (hdx : Usable S dx) (op : UnaryOp) (hsx : x.shape = s) (hso : out.shape = s)
    (hsd : dx.shape = s) (hfits : ¬ Size.Fits s → refused .misuse) :
    Grows refused n S (unaryTangent op x out dx) fun S' r =>
      Usable S' r ∧ r.shape = s ∧ ∀ env : Nat → Nat → α, ∀ i < s.1, ∀ j < s.2,
        entry env out i j = op.apply (entry env x i j) →
          entry env r i j = (op.apply (⟨entry env x i j, entry env dx i j⟩ : Dual α)).deriv := by
  have grows_of_x (op : UnaryOp) :
      Grows refused n S (unary op x) fun S' r =>
        Usable S' r ∧ r.shape = s ∧ ∀ env : Nat → Nat → α, ∀ i < s.1, ∀ j < s.2,
          entry env r i j = op.apply (entry env x i j) := by
    subst hsx
    refine (grows_unary hS hx fun _ => hfits).mono ?_
    rintro n' S' r - ⟨hr, hp, hval⟩
    refine ⟨hr, ?_, hval inferInstance⟩
    rw [shape, hp, unaryPattern]
    split
    · rfl
    · exact Pattern.shape_dense _ _
  unfold unaryTangent
  cases op with
  | neg =>
    refine (grows_neg hS hdx).mono ?_
    rintro n' S' r - ⟨hr, hp, hval⟩
    exact ⟨hr, (congrArg Pattern.shape hp).trans hsd, fun env i _ j _ _ => hval env i j⟩
  | sin =>
    refine .bind (grows_of_x .cos) ?_
    rintro n₁ S₁ c h₁ ⟨hc, hcs, hcv⟩
    refine (grows_binary_same h₁.graph (hdx.mono h₁.subset) hc .mul hsd hcs).mono ?_
    rintro n₂ S₂ r - ⟨hr, hrs, hrv⟩
    refine ⟨hr, hrs, fun env i hi j hj _ => ?_⟩
    rw [hrv env i hi j hj, hcv env i hi j hj]
    rfl
  | cos =>
    refine .bind (grows_of_x .sin) ?_
    rintro n₁ S₁ c h₁ ⟨hc, hcs, hcv⟩
    refine .bind (grows_binary_same h₁.graph (hdx.mono h₁.subset) hc .mul hsd hcs) ?_
    rintro n₂ S₂ m h₂ ⟨hm, hms, hmv⟩
    refine (grows_neg h₂.graph hm).mono ?_
    rintro n₃ S₃ r - ⟨hr, hp, hval⟩
    refine ⟨hr, (congrArg Pattern.shape hp).trans hms, fun env i hi j hj _ => ?_⟩
    rw [hval, hmv env i hi j hj, hcv env i hi j hj]
    exact (neg_mul _ _).symm
  | exp =>
    refine (grows_binary_same hS hdx hout .mul hsd hso).mono ?_
    rintro n' S' r - ⟨hr, hrs, hrv⟩
    refine ⟨hr, hrs, fun env i hi j hj hv => ?_⟩
    rw [hrv env i hi j hj, hv]
    exact mul_comm _ _
  | log =>
    refine (grows_binary_same hS hdx hx .div hsd hsx).mono ?_
    rintro n' S' r - ⟨hr, hrs, hrv⟩
    exact ⟨hr, hrs, fun env i hi j hj _ => hrv env i hi j hj⟩

/-- The quotient rule in two forms; a zero denominator gives zero in both. -/
theorem quotient_rule {K : Type} [Field K] (a b da db : K) :
    (da - a / b * db) / b = (da * b - a * db) / (b * b) := by
  by_cases hb : b = 0
  · simp [hb]
  · field_simp

theorem grows_binaryTangent {a b da db : Expr α} (hS : IsGraph n S) (ha : Usable S a)
    (hb : Usable S b) (hout : Usable S out) (hda : Usable S da) (hdb : Usable S db) (op : BinaryOp)
    (hcomp : Compatible a b) (hso : out.shape = binaryShape a b) (hsa : da.shape = a.shape)
    (hsb : db.shape = b.shape) (hfits : ¬ Size.Fits (binaryShape a b) → refused .misuse) :
    Grows refused n S (binaryTangent op a b out da db) fun S' r =>
      Usable S' r ∧ r.shape = binaryShape a b ∧ ∀ env : Nat → Nat → α,
        ∀ i < (binaryShape a b).1, ∀ j < (binaryShape a b).2,
          entry env out i j = op.apply (spreadEntry env a i j) (spreadEntry env b i j) →
            entry env r i j = (op.apply
              (⟨spreadEntry env a i j, spreadEntry env da i j⟩ : Dual α)
              ⟨spreadEntry env b i j, spreadEntry env db i j⟩).deriv := by
  obtain ⟨hpa, hpb, hpab⟩ := hcomp.spreads
  generalize binaryShape a b = s at *
  have hpda : Spreads da s := by rwa [Spreads, hsa]
  have hpdb : Spreads db s := by rwa [Spreads, hsb]
  have hfits' {x y : Expr α} {op : BinaryOp} :
      x.shape ≠ y.shape → op ≠ .mul → ¬ Size.Fits s → refused .misuse := fun _ _ => hfits
  unfold binaryTangent
  cases op with
  | add =>
    refine (grows_binary_spreads hS hda hdb .add hpda hpdb (hsa ▸ hsb ▸ hpab) hfits').mono ?_
    rintro n' S' r - ⟨hr, hrs, hrv⟩
    exact ⟨hr, hrs, fun env i hi j hj _ => hrv env i hi j hj⟩
  | sub =>
    refine (grows_binary_spreads hS hda hdb .sub hpda hpdb (hsa ▸ hsb ▸ hpab) hfits').mono ?_
    rintro n' S' r - ⟨hr, hrs, hrv⟩
    exact ⟨hr, hrs, fun env i hi j hj _ => hrv env i hi j hj⟩
  | mul =>
    refine .bind (grows_binary_spreads hS hda hb .mul hpda hpb (hsa ▸ hpab) hfits') ?_
    rintro n₁ S₁ u h₁ ⟨hu, hus, huv⟩
    refine .bind (grows_binary_spreads h₁.graph (ha.mono h₁.subset) (hdb.mono h₁.subset) .mul
      hpa hpdb (hsb ▸ hpab) hfits') ?_
    rintro n₂ S₂ v h₂ ⟨hv, hvs, hvv⟩
    refine (grows_binary_same h₂.graph (hu.mono h₂.subset) hv .add hus hvs).mono ?_
    rintro n₃ S₃ r - ⟨hr, hrs, hrv⟩
    refine ⟨hr, hrs, fun env i hi j hj _ => ?_⟩
    rw [hrv env i hi j hj, huv env i hi j hj, hvv env i hi j hj]
    exact add_comm _ _
  | div =>
    refine .bind (grows_binary_spreads hS hout hdb .mul (.inl hso) hpdb (.inl hso) hfits') ?_
    rintro n₁ S₁ u h₁ ⟨hu, hus, huv⟩
    refine .bind (grows_binary_spreads h₁.graph (hda.mono h₁.subset) hu .sub hpda (.inl hus)
      (.inr hus) hfits') ?_
    rintro n₂ S₂ v h₂ ⟨hv, hvs, hvv⟩
    refine (grows_binary_spreads h₂.graph hv (hb.mono (h₁.trans h₂).subset) .div (.inl hvs) hpb
      (.inl hvs) hfits').mono ?_
    rintro n₃ S₃ r - ⟨hr, hrs, hrv⟩
    refine ⟨hr, hrs, fun env i hi j hj hv => ?_⟩
    rw [hrv env i hi j hj, spreadEntry_of_shape env hvs hi hj, hvv env i hi j hj,
      spreadEntry_of_shape env hus hi hj, huv env i hi j hj, spreadEntry_of_shape env hso hi hj, hv]
    exact quotient_rule _ _ _ _

end DiffGraph
