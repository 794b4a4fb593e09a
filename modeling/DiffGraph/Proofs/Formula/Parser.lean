import Mathlib
import DiffGraph.Proofs.Formula.Grammar

/-!
# What the parser accepts

The tree of a list of tokens is a derivation of all of them, or it has exactly one
error (`explains_parse`). The invariant is what the parser has behind it: the frames
on the stack stand for the tokens before the operand (`Waits`), and the operand
for the tokens of a level (`Holds`); closing frames keeps the tokens and loosens
the level.
-/

namespace DiffGraph.Formula

open DiffGraph.Formula.Tree

variable {α : Type}

/-! ## Errors in trees -/

def Error.IsSyntax : Error α → Prop
  | .trailing _ | .expected .. | .badExponent _ | .badIndex _ | .unexpected _ => True
  | _ => False

def Tree.errors : Tree α → List (Error α)
  | .number _ | .name _ | .entry .. => []
  | .call _ t | .neg t | .power t _ => t.errors
  | .binary _ left right => left.errors ++ right.errors
  | .broken e => [e]
  | .abandoned t e => t.errors ++ [e]

variable [OrderedScalar α]

theorem Derives.errors {level : Level} {ts : List (Token α)} {t : Tree α}
    (h : Derives level ts t) : t.errors = [] := by
  induction h with
  | number | name | entry => rfl
  | call _ ih | neg _ ih | power _ _ ih => exact ih
  | group _ ih | primary _ ih | unary _ ih | factor _ ih | term _ ih => exact ih
  | product _ _ _ ih ih' | sum _ _ _ ih ih' => rw [Tree.errors, ih, ih', List.append_nil]

/-- The tree derives the tokens, or it has exactly one error. -/
def Explains (ts : List (Token α)) (t : Tree α) : Prop :=
  Derives .expression ts t ∨ ∃ e, t.errors = [e] ∧ e.IsSyntax

theorem Explains.isSyntax {ts : List (Token α)} {t : Tree α} (h : Explains ts t) :
    ∀ e ∈ t.errors, e.IsSyntax := by
  rcases h with h | ⟨e, herrors, he⟩
  · simp [h.errors]
  · simpa [herrors] using he

theorem Explains.derives {ts : List (Token α)} {t : Tree α} (h : Explains ts t)
    (ht : t.errors = []) : Derives .expression ts t := by
  rcases h with h | ⟨e, herrors, -⟩
  · exact h
  · rw [ht] at herrors
    cases herrors

/-! ## What has been read -/

section Invariant

variable {fs fs' : List (Frame α)} {us ts : List (Token α)} {t t' : Tree α} {op : BinaryOp}
  {base : Bool}

/-- The tokens that lead to a stack of frames. -/
inductive Waits : List (Frame α) → List (Token α) → Prop
  | nil : Waits [] []
  | neg {fs : List (Frame α)} {us : List (Token α)} (h : Waits fs us) :
      Waits (.neg :: fs) (us ++ [.minus])
  | product {op : BinaryOp} {fs : List (Frame α)} {us vs : List (Token α)} {left : Tree α}
      (h : Waits fs us) (hfs : Level.term.Admits fs) (hop : isProduct op = true)
      (hleft : Derives .term vs left) : Waits (.product op left :: fs) (us ++ vs ++ [signToken op])
  | sum {op : BinaryOp} {fs : List (Frame α)} {us vs : List (Token α)} {left : Tree α}
      (h : Waits fs us) (hfs : Level.expression.Admits fs) (hop : isProduct op = false)
      (hleft : Derives .expression vs left) :
      Waits (.sum op left :: fs) (us ++ vs ++ [signToken op])
  | group {fs : List (Frame α)} {us : List (Token α)} (h : Waits fs us) :
      Waits (.group :: fs) (us ++ [.lparen])
  | call {f : String} {fs : List (Frame α)} {us : List (Token α)} (h : Waits fs us) :
      Waits (.call f :: fs) (us ++ [.name f, .lparen])

/-- The tokens lead to the frames and then to an operand of the level. -/
structure Holds (level : Level) (ts : List (Token α)) (p : List (Frame α) × Tree α) : Prop where
  exists_split : ∃ us vs, us ++ vs = ts ∧ Waits p.1 us ∧ Derives level vs p.2
  admits : level.Admits p.1

/-- The level of an operand that may still be raised to a power, or not. -/
def Level.ofBase : Bool → Level
  | true => .unary
  | false => .power

/-! ## Closing frames -/

theorem Holds.closeSigns_unary (h : Holds .unary ts (fs, t)) :
    Holds .unary ts (closeSigns fs t) ∧ Level.power.Admits (closeSigns fs t).1 := by
  fun_induction closeSigns fs t with
  | case1 fs t ih =>
    obtain ⟨us, vs, rfl, hfs, ht⟩ := h.exists_split
    cases hfs with
    | @neg _ us hfs => exact ih ⟨⟨us, .minus :: vs, by simp, hfs, .neg ht⟩, trivial⟩
  | case2 fs t hneg =>
    refine ⟨h, fun f hf hneg' => ?_⟩
    obtain ⟨rest, rfl⟩ := List.head?_eq_some_iff.1 hf
    exact hneg rest (hneg' ▸ rfl)

theorem Holds.closeSigns (h : Holds (.ofBase base) ts (fs, t)) :
    Holds .power ts (closeSigns fs t) := by
  cases base with
  | true =>
    obtain ⟨⟨hsplit, -⟩, hadmits⟩ := Holds.closeSigns_unary h
    obtain ⟨us, vs, hts, hfs, ht⟩ := hsplit
    exact ⟨⟨us, vs, hts, hfs, .unary ht⟩, hadmits⟩
  | false => rwa [closeSigns_of_admits h.admits]

theorem Holds.closeProduct (h : Holds (.ofBase base) ts (fs, t)) :
    Holds .term ts (closeProduct fs t) := by
  obtain ⟨⟨us, vs, hts, hfs, ht⟩, hadmits⟩ := h.closeSigns
  unfold Tree.closeProduct
  split
  · rename_i op left fs' t' hclosed
    rw [hclosed] at hfs ht
    cases hfs with
    | @product _ _ us ws _ hfs hfs' hop hleft =>
      exact ⟨⟨us, ws ++ signToken op :: vs, by simpa using hts, hfs,
        .product hop hleft ht⟩, hfs'⟩
  · -- Without a product on top of the stack the operand is a term by itself.
    rename_i hproduct
    refine ⟨⟨us, vs, hts, hfs, .factor ht⟩, fun f hf => ⟨hadmits f hf, ?_⟩⟩
    rintro op left rfl
    obtain ⟨rest, hrest⟩ := List.head?_eq_some_iff.1 hf
    exact hproduct op left rest _ (Prod.ext hrest rfl)

theorem Holds.closeSum (h : Holds (.ofBase base) ts (fs, t)) :
    Holds .expression ts (closeSum fs t) := by
  obtain ⟨⟨us, vs, hts, hfs, ht⟩, hadmits⟩ := h.closeProduct
  unfold Tree.closeSum
  split
  · rename_i op left fs' t' hclosed
    rw [hclosed] at hfs ht
    cases hfs with
    | @sum _ _ us ws _ hfs hfs' hop hleft =>
      exact ⟨⟨us, ws ++ signToken op :: vs, by simpa using hts, hfs, .sum hop hleft ht⟩, hfs'⟩
  · rename_i hsum
    refine ⟨⟨us, vs, hts, hfs, .term ht⟩, fun f hf => ⟨(hadmits f hf).1, fun op left =>
      ⟨(hadmits f hf).2 op left, ?_⟩⟩⟩
    rintro rfl
    obtain ⟨rest, hrest⟩ := List.head?_eq_some_iff.1 hf
    exact hsum op left rest _ (Prod.ext hrest rfl)

/-! ## Errors and the end -/

theorem Waits.errors_unwind (h : Waits fs us) (t : Tree α) : (unwind fs t).errors = t.errors := by
  induction h generalizing t with
  | nil => rfl
  | neg _ ih => exact ih _
  | product _ _ _ hleft ih | sum _ _ _ hleft ih =>
    rw [unwind, ih, Tree.errors, hleft.errors, List.nil_append]
  | group _ ih => exact ih t
  | call _ ih => exact ih _

theorem Waits.explains_broken (h : Waits fs us) {e : Error α} (he : e.IsSyntax) :
    Explains ts (unwind fs (.broken e)) :=
  .inr ⟨e, h.errors_unwind _, he⟩

theorem Holds.explains_abandoned {level : Level} (h : Holds level us (fs, t)) {e : Error α}
    (he : e.IsSyntax) : Explains ts (unwind fs (.abandoned t e)) := by
  obtain ⟨us, vs, -, hfs, ht⟩ := h.exists_split
  refine .inr ⟨e, ?_, he⟩
  rw [hfs.errors_unwind, Tree.errors, ht.errors, List.nil_append]

theorem Holds.explains_finish {found : Option (Token α)}
    (h : Holds .expression us (Tree.closeSum fs t)) (hfound : found = none → us = ts) :
    Explains ts (finish found fs t) := by
  unfold finish
  split
  · rename_i t' hclosed
    rw [hclosed] at h
    obtain ⟨us', vs, hsplit, hfs, ht⟩ := h.exists_split
    cases hfs
    rw [← hfound rfl, ← hsplit]
    exact .inl ht
  · rename_i t' token hclosed
    rw [hclosed] at h
    exact h.explains_abandoned (e := .trailing token) trivial
  · rename_i hclosed _ _
    rw [hclosed] at h
    exact h.explains_abandoned trivial

/-! ## Steps -/

/-- Where an operand has to follow, the parser reads all tokens. -/
def Operates (ts : List (Token α)) (fs : List (Frame α)) : Prop :=
  ∀ us, Waits fs us → Explains (us ++ ts) (operand ts fs)

/-- Behind an operand the parser reads all tokens. -/
def Continues (ts : List (Token α)) (fs : List (Frame α)) (t : Tree α) (base : Bool) : Prop :=
  ∀ us, Holds (.ofBase base) us (fs, t) → Explains (us ++ ts) (behind ts fs t base)

theorem Continues.primary {vs : List (Token α)} (ih : Continues ts fs t true)
    (ht : Derives .primary vs t) (h : Waits fs us) :
    Explains (us ++ (vs ++ ts)) (behind ts fs t true) := by
  have hexplains := ih (us ++ vs) ⟨⟨us, vs, rfl, h, .primary ht⟩, trivial⟩
  rwa [List.append_assoc] at hexplains

theorem Operates.bracket {vs : List (Token α)} {f : Frame α} (ih : Operates ts (f :: fs))
    (h : Waits (f :: fs) (us ++ vs)) : Explains (us ++ (vs ++ ts)) (operand ts (f :: fs)) := by
  have hexplains := ih _ h
  rwa [List.append_assoc] at hexplains

theorem Operates.product (hop : isProduct op = true) (hclosed : closeProduct fs t = (fs', t'))
    (ih : Operates ts (.product op t' :: fs')) : Continues (signToken op :: ts) fs t base := by
  intro us h
  obtain ⟨⟨us, vs, rfl, hfs, ht⟩, hadmits⟩ := h.closeProduct
  rw [hclosed] at hfs ht hadmits
  have hexplains := ih _ (.product hfs hadmits hop ht)
  rw [behind_product hop, hclosed]
  rwa [List.append_assoc] at hexplains

theorem Operates.sum (hop : isProduct op = false) (hclosed : closeSum fs t = (fs', t'))
    (ih : Operates ts (.sum op t' :: fs')) : Continues (signToken op :: ts) fs t base := by
  intro us h
  obtain ⟨⟨us, vs, rfl, hfs, ht⟩, hadmits⟩ := h.closeSum
  rw [hclosed] at hfs ht hadmits
  have hexplains := ih _ (.sum hfs hadmits hop ht)
  rw [behind_sum hop, hclosed]
  rwa [List.append_assoc] at hexplains

theorem Continues.power {x : α} {n : Nat} (hx : natural? x = some n)
    (hclosed : closeSigns fs t = (fs', t')) (ih : Continues ts fs' (.power t' n) false) :
    Continues (.caret :: .number x :: ts) fs t true := by
  intro us h
  obtain ⟨⟨⟨us, vs, rfl, hfs, ht⟩, -⟩, hadmits⟩ := Holds.closeSigns_unary h
  rw [hclosed] at hfs ht hadmits
  have hpower : Derives .power (vs ++ [.caret, .number x]) (.power t' n) := .power ht hx
  have hexplains := ih _ ⟨⟨us, _, rfl, hfs, hpower⟩, hadmits⟩
  simp only [behind, hclosed, hx]
  simpa using hexplains

theorem Continues.group (hclosed : closeSum fs t = (.group :: fs', t'))
    (ih : Continues ts fs' t' true) : Continues (.rparen :: ts) fs t base := by
  intro us h
  obtain ⟨⟨us, vs, rfl, hfs, ht⟩, -⟩ := h.closeSum
  rw [hclosed] at hfs ht
  cases hfs with
  | @group _ us hfs =>
    have hexplains := ih.primary (.group ht) hfs
    simp only [behind, hclosed]
    simpa using hexplains

theorem Continues.call {f : String} (hclosed : closeSum fs t = (.call f :: fs', t'))
    (ih : Continues ts fs' (.call f t') true) : Continues (.rparen :: ts) fs t base := by
  intro us h
  obtain ⟨⟨us, vs, rfl, hfs, ht⟩, -⟩ := h.closeSum
  rw [hclosed] at hfs ht
  cases hfs with
  | @call _ _ us hfs =>
    have hexplains := ih.primary (.call ht) hfs
    simp only [behind, hclosed]
    simpa using hexplains

end Invariant

/-- In every state the parser reads all tokens. -/
theorem operates_continues :
    (∀ (ts : List (Token α)) fs, Operates ts fs) ∧
      ∀ (ts : List (Token α)) fs t base, Continues ts fs t base := by
  -- The induction is the parser's own recursion: a case is one move, and the tokens that the
  -- move takes go over from the rest to what has been read.
  refine operand.mutual_induct Operates Continues
    ?number ?call ?entry ?badEntry ?openEntry ?badOpenEntry ?noIndex ?name ?neg ?group ?unexpected
    ?power ?badExponent ?noExponent ?star ?slash ?plus ?minus ?closeGroup ?closeCall ?noBracket
    ?done
  case number =>
    intro x ts fs ih us h
    rw [operand]
    exact ih.primary (.number x) h
  case call =>
    intro f ts fs ih us h
    rw [operand]
    exact ih.bracket h.call
  case entry =>
    intro n x ts fs i hx ih us h
    simp only [operand, hx]
    exact ih.primary (.entry hx) h
  case badEntry =>
    intro n x ts fs hx us h
    simp only [operand, hx]
    exact h.explains_broken trivial
  case openEntry =>
    intro n x ts fs hts i hx us h
    simp only [operand, hx]
    exact h.explains_broken trivial
  case badOpenEntry =>
    intro n x ts fs hts hx us h
    simp only [operand, hx]
    exact h.explains_broken trivial
  case noIndex =>
    intro n ts fs hts hts' us h
    simp only [operand]
    exact h.explains_broken trivial
  case name =>
    intro n ts fs hparen _ _ hbracket ih us h
    have hprecedes : Level.primary.Precedes ts := by
      intro t ht
      obtain ⟨rest, rfl⟩ := List.head?_eq_some_iff.1 ht
      exact ⟨by rintro rfl; exact hparen rest rfl, by rintro rfl; exact hbracket rest rfl⟩
    rw [operand_name hprecedes]
    exact ih.primary (.name n) h
  case neg =>
    intro ts fs ih us h
    rw [operand]
    exact ih.bracket h.neg
  case group =>
    intro ts fs ih us h
    rw [operand]
    exact ih.bracket h.group
  case unexpected =>
    intro ts fs _ _ _ _ _ _ _ _ us h
    rw [operand]
    · exact h.explains_broken trivial
    all_goals assumption
  case power =>
    intro x ts fs t fs' t' hclosed i hx ih
    exact ih.power hx hclosed
  case badExponent =>
    intro x ts fs t fs' t' hclosed hx us h
    have hsigns := h.closeSigns
    rw [hclosed] at hsigns
    simp only [behind, hclosed, hx]
    exact hsigns.explains_abandoned trivial
  case noExponent =>
    intro ts fs t hts fs' t' hclosed us h
    have hsigns := h.closeSigns
    rw [hclosed] at hsigns
    simp only [behind, hclosed]
    exact hsigns.explains_abandoned trivial
  case star => exact fun ts fs t base fs' t' hclosed ih => ih.product rfl hclosed
  case slash => exact fun ts fs t base fs' t' hclosed ih => ih.product rfl hclosed
  case plus => exact fun ts fs t base fs' t' hclosed ih => ih.sum rfl hclosed
  case minus => exact fun ts fs t base fs' t' hclosed ih => ih.sum rfl hclosed
  case closeGroup => exact fun ts fs t base fs' t' hclosed ih => ih.group hclosed
  case closeCall => exact fun ts fs t base f fs' t' hclosed ih => ih.call hclosed
  case noBracket =>
    intro ts fs t base fs' t' hgroup hcall hclosed us h
    have hsum := h.closeSum
    rw [hclosed] at hsum
    have hbehind : behind (.rparen :: ts) fs t base = finish (some .rparen) fs' t' := by
      simp only [behind, hclosed]
    rw [hbehind]
    have hclose : Holds .expression us (Tree.closeSum fs' t') := by
      rwa [closeSum_of_admits hsum.admits]
    exact hclose.explains_finish (by simp)
  case done =>
    intro ts fs t base _ _ _ _ _ _ _ us h
    rw [behind]
    · refine h.closeSum.explains_finish fun hts => ?_
      rw [List.head?_eq_none_iff.1 hts, List.append_nil]
    all_goals assumption

/-- The tree of the tokens is a derivation of them, or it has exactly one error. -/
theorem explains_parse (ts : List (Token α)) : Explains ts (Tree.parse ts) :=
  operates_continues.1 ts [] [] .nil

end DiffGraph.Formula
