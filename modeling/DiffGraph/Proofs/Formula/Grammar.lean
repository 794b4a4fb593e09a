import Mathlib
import DiffGraph.Formula.Tree
import DiffGraph.Proofs.Formula.Lexeme

/-!
# The grammar of formulas

`Derives level ts t` reads the tokens `ts` as the tree `t` of the given level:

    expression = term { (+ | -) term }
    term       = power { (* | /) power }
    power      = unary [ ^ n ]
    unary      = - unary | primary
    primary    = number | name | name ( expression ) | name [ n ] | ( expression )

The parser builds the tree of every expression (`parse_of_derives`): tokens of a
level lead it from a stack of frames to the same stack with their tree as the
operand, up to what the level itself leaves open (`Level.Takes`).
-/

namespace DiffGraph.Formula

open DiffGraph.Formula.Tree

variable {α : Type}

/-- `*` and `/`, the other two operations form sums. -/
def isProduct : BinaryOp → Bool
  | .mul | .div => true
  | .add | .sub => false

inductive Level where
  | primary | unary | power | term | expression

variable [OrderedScalar α]

/-- The tokens are a text of the level, and the tree is what it says. -/
inductive Derives : Level → List (Token α) → Tree α → Prop
  | number (x : α) : Derives .primary [.number x] (.number x)
  | name (n : String) : Derives .primary [.name n] (.name n)
  | entry {n : String} {x : α} {i : Nat} (hx : natural? x = some i) :
      Derives .primary [.name n, .lbracket, .number x, .rbracket] (.entry n i)
  | call {f : String} {ts : List (Token α)} {t : Tree α} (h : Derives .expression ts t) :
      Derives .primary (.name f :: .lparen :: (ts ++ [.rparen])) (.call f t)
  | group {ts : List (Token α)} {t : Tree α} (h : Derives .expression ts t) :
      Derives .primary (.lparen :: (ts ++ [.rparen])) t
  | primary {ts : List (Token α)} {t : Tree α} (h : Derives .primary ts t) : Derives .unary ts t
  | neg {ts : List (Token α)} {t : Tree α} (h : Derives .unary ts t) :
      Derives .unary (.minus :: ts) (.neg t)
  | unary {ts : List (Token α)} {t : Tree α} (h : Derives .unary ts t) : Derives .power ts t
  | power {ts : List (Token α)} {t : Tree α} {x : α} {n : Nat} (h : Derives .unary ts t)
      (hx : natural? x = some n) : Derives .power (ts ++ [.caret, .number x]) (.power t n)
  | factor {ts : List (Token α)} {t : Tree α} (h : Derives .power ts t) : Derives .term ts t
  | product {op : BinaryOp} {ts us : List (Token α)} {t u : Tree α} (hop : isProduct op = true)
      (h : Derives .term ts t) (h' : Derives .power us u) :
      Derives .term (ts ++ signToken op :: us) (.binary op t u)
  | term {ts : List (Token α)} {t : Tree α} (h : Derives .term ts t) : Derives .expression ts t
  | sum {op : BinaryOp} {ts us : List (Token α)} {t u : Tree α} (hop : isProduct op = false)
      (h : Derives .expression ts t) (h' : Derives .term us u) :
      Derives .expression (ts ++ signToken op :: us) (.binary op t u)

/-! ## Frames -/

namespace Level

/-- The frames that may be on top of the stack where a text of the level starts. -/
def Admits : Level → List (Frame α) → Prop
  | .primary, _ | .unary, _ => True
  | .power, fs => ∀ f ∈ fs.head?, f ≠ .neg
  | .term, fs => ∀ f ∈ fs.head?, f ≠ .neg ∧ ∀ op left, f ≠ .product op left
  | .expression, fs => ∀ f ∈ fs.head?, f ≠ .neg ∧ ∀ op left, f ≠ .product op left ∧ f ≠ .sum op left

/-- What may stand behind a text of the level. -/
def Precedes : Level → List (Token α) → Prop
  | .primary, ts | .unary, ts => ∀ t ∈ ts.head?, t ≠ .lparen ∧ t ≠ .lbracket
  | _, ts => ∀ t ∈ ts.head?, t ≠ .lparen ∧ t ≠ .lbracket ∧ t ≠ .caret

/-- What is completed when the parser goes on behind a text of the level. -/
def close : Level → List (Frame α) → Tree α → List (Frame α) × Tree α
  | .primary, fs, t => (fs, t)
  | .unary, fs, t | .power, fs, t => closeSigns fs t
  | .term, fs, t => closeProduct fs t
  | .expression, fs, t => closeSum fs t

def isBase : Level → Bool
  | .primary | .unary => true
  | _ => false

end Level

section Frames

variable {fs fs' : List (Frame α)} {t t' left : Tree α} {op : BinaryOp}

omit [OrderedScalar α] in
theorem closeSigns_of_admits (h : Level.power.Admits fs) (t : Tree α) :
    closeSigns fs t = (fs, t) := by
  unfold closeSigns
  split
  · exact absurd rfl (h _ rfl)
  · rfl

omit [OrderedScalar α] in
theorem Level.Admits.power_of_term (h : Level.term.Admits fs) : Level.power.Admits fs :=
  fun f hf => (h f hf).1

omit [OrderedScalar α] in
theorem closeProduct_of_admits (h : Level.term.Admits fs) (t : Tree α) :
    closeProduct fs t = (fs, t) := by
  unfold closeProduct
  rw [closeSigns_of_admits h.power_of_term]
  split
  · rename_i heq
    rw [(Prod.mk.inj heq).1] at h
    exact absurd rfl ((h _ rfl).2 _ _)
  · rfl

omit [OrderedScalar α] in
theorem Level.Admits.term_of_expression (h : Level.expression.Admits fs) : Level.term.Admits fs :=
  fun f hf => ⟨(h f hf).1, fun op left => ((h f hf).2 op left).1⟩

omit [OrderedScalar α] in
theorem closeSum_of_admits (h : Level.expression.Admits fs) (t : Tree α) :
    closeSum fs t = (fs, t) := by
  unfold closeSum
  rw [closeProduct_of_admits h.term_of_expression]
  split
  · rename_i heq
    rw [(Prod.mk.inj heq).1] at h
    exact absurd rfl ((h _ rfl).2 _ _).2
  · rfl

omit [OrderedScalar α] in
theorem closeProduct_of_closeSigns (h : closeSigns fs' t' = (.product op left :: fs, t)) :
    closeProduct fs' t' = (fs, .binary op left t) := by
  unfold closeProduct
  rw [h]

omit [OrderedScalar α] in
theorem closeSum_of_closeProduct (h : closeProduct fs' t' = (.sum op left :: fs, t)) :
    closeSum fs' t' = (fs, .binary op left t) := by
  unfold closeSum
  rw [h]

end Frames

/-! ## Parsing what is derived -/

/-- The parser takes tokens of the level for the tree, whatever waits for them and
whatever follows, as far as the level allows it. -/
def Level.Takes (level : Level) (ts : List (Token α)) (t : Tree α) : Prop :=
  ∀ fs rest, level.Admits fs → level.Precedes rest →
    ∃ fs' t' base, operand (ts ++ rest) fs = behind rest fs' t' base ∧
      level.close fs' t' = level.close fs t ∧ (level.isBase = true → base = true)

section Takes

variable {fs : List (Frame α)} {ts us rest : List (Token α)} {t u : Tree α} {op : BinaryOp}

theorem operand_name (h : Level.primary.Precedes rest) (n : String) (fs : List (Frame α)) :
    operand (.name n :: rest) fs = behind rest fs (.name n) true := by
  rw [operand]
  · intro us hus
    exact (h _ (by rw [hus]; rfl)).1 rfl
  · intro x us hus
    exact (h _ (by rw [hus]; rfl)).2 rfl
  · intro x us hus
    exact (h _ (by rw [hus]; rfl)).2 rfl
  · intro us hus
    exact (h _ (by rw [hus]; rfl)).2 rfl

theorem behind_product (hop : isProduct op = true) (base : Bool) :
    behind (signToken op :: rest) fs t base =
      operand rest (.product op (closeProduct fs t).2 :: (closeProduct fs t).1) := by
  cases op with
  | add | sub => cases hop
  | mul | div => rw [signToken, behind]

theorem behind_sum (hop : isProduct op = false) (base : Bool) :
    behind (signToken op :: rest) fs t base =
      operand rest (.sum op (closeSum fs t).2 :: (closeSum fs t).1) := by
  cases op with
  | add | sub => rw [signToken, behind]
  | mul | div => cases hop

omit [OrderedScalar α] in
theorem precedes_signToken (level : Level) (op : BinaryOp) :
    level.Precedes (signToken op :: rest) := by
  cases level <;> cases op <;> simp [Level.Precedes, signToken]

/-- An expression up to its closing bracket completes the bracket on top of the stack. -/
theorem Level.Takes.behind_rparen (h : Level.expression.Takes ts t) (f : Frame α)
    (fs : List (Frame α)) (rest : List (Token α)) (hf : Level.expression.Admits (f :: fs)) :
    ∃ fs' t' base,
      operand (ts ++ .rparen :: rest) (f :: fs) = behind (.rparen :: rest) fs' t' base ∧
      closeSum fs' t' = (f :: fs, t) := by
  obtain ⟨fs', t', base, heq, hclose, -⟩ :=
    h (f :: fs) (.rparen :: rest) hf (by simp [Level.Precedes])
  exact ⟨fs', t', base, heq, hclose.trans (closeSum_of_admits hf t)⟩

theorem Level.Takes.call (h : Level.expression.Takes ts t) (f : String) :
    Level.primary.Takes (.name f :: .lparen :: (ts ++ [.rparen])) (.call f t) := by
  intro fs rest _ _
  obtain ⟨fs', t', base, heq, hclose⟩ :=
    h.behind_rparen (.call f) fs rest (by simp [Level.Admits])
  refine ⟨fs, .call f t, true, ?_, rfl, fun _ => rfl⟩
  simp only [List.cons_append, List.append_assoc, List.nil_append, operand]
  rw [heq, behind, hclose]

theorem Level.Takes.group (h : Level.expression.Takes ts t) :
    Level.primary.Takes (.lparen :: (ts ++ [.rparen])) t := by
  intro fs rest _ _
  obtain ⟨fs', t', base, heq, hclose⟩ :=
    h.behind_rparen .group fs rest (by simp [Level.Admits])
  refine ⟨fs, t, true, ?_, rfl, fun _ => rfl⟩
  simp only [List.cons_append, List.append_assoc, List.nil_append, operand]
  rw [heq, behind, hclose]

theorem Level.Takes.neg (h : Level.unary.Takes ts t) :
    Level.unary.Takes (.minus :: ts) (.neg t) := by
  intro fs rest _ hrest
  obtain ⟨fs', t', base, heq, hclose, hbase⟩ := h (.neg :: fs) rest trivial hrest
  refine ⟨fs', t', base, ?_, hclose, hbase⟩
  simp only [List.cons_append, operand]
  exact heq

theorem Level.Takes.power {x : α} {n : Nat} (h : Level.unary.Takes ts t)
    (hx : natural? x = some n) : Level.power.Takes (ts ++ [.caret, .number x]) (.power t n) := by
  intro fs rest hfs _
  obtain ⟨fs', t', base, heq, hclose, hbase⟩ :=
    h fs (.caret :: .number x :: rest) trivial (by simp [Level.Precedes])
  have hclose' : closeSigns fs' t' = (fs, t) := hclose.trans (closeSigns_of_admits hfs t)
  refine ⟨fs, .power t n, false, ?_, rfl, by simp [Level.isBase]⟩
  simp only [List.append_assoc, List.cons_append, List.nil_append]
  rw [heq, hbase rfl, behind, hclose']
  simp only [hx]

theorem Level.Takes.product (h : Level.term.Takes ts t) (h' : Level.power.Takes us u)
    (hop : isProduct op = true) : Level.term.Takes (ts ++ signToken op :: us) (.binary op t u) := by
  intro fs rest hfs hrest
  obtain ⟨fs₁, t₁, base₁, heq₁, hclose₁, -⟩ :=
    h fs (signToken op :: (us ++ rest)) hfs (precedes_signToken _ op)
  have hleft : closeProduct fs₁ t₁ = (fs, t) := hclose₁.trans (closeProduct_of_admits hfs t)
  have hadmits : Level.power.Admits (.product op t :: fs) := by simp [Level.Admits]
  obtain ⟨fs₂, t₂, base₂, heq₂, hclose₂, -⟩ := h' (.product op t :: fs) rest hadmits hrest
  have hright : closeSigns fs₂ t₂ = (.product op t :: fs, u) :=
    hclose₂.trans (closeSigns_of_admits hadmits u)
  refine ⟨fs₂, t₂, base₂, ?_, ?_, by simp [Level.isBase]⟩
  · rw [List.append_assoc, List.cons_append, heq₁, behind_product hop, hleft]
    exact heq₂
  · exact (closeProduct_of_closeSigns hright).trans (closeProduct_of_admits hfs _).symm

theorem Level.Takes.sum (h : Level.expression.Takes ts t) (h' : Level.term.Takes us u)
    (hop : isProduct op = false) :
    Level.expression.Takes (ts ++ signToken op :: us) (.binary op t u) := by
  intro fs rest hfs hrest
  obtain ⟨fs₁, t₁, base₁, heq₁, hclose₁, -⟩ :=
    h fs (signToken op :: (us ++ rest)) hfs (precedes_signToken _ op)
  have hleft : closeSum fs₁ t₁ = (fs, t) := hclose₁.trans (closeSum_of_admits hfs t)
  have hadmits : Level.term.Admits (.sum op t :: fs) := by simp [Level.Admits]
  obtain ⟨fs₂, t₂, base₂, heq₂, hclose₂, -⟩ := h' (.sum op t :: fs) rest hadmits hrest
  have hright : closeProduct fs₂ t₂ = (.sum op t :: fs, u) :=
    hclose₂.trans (closeProduct_of_admits hadmits u)
  refine ⟨fs₂, t₂, base₂, ?_, ?_, by simp [Level.isBase]⟩
  · rw [List.append_assoc, List.cons_append, heq₁, behind_sum hop, hleft]
    exact heq₂
  · exact (closeSum_of_closeProduct hright).trans (closeSum_of_admits hfs _).symm

/-- What a level takes, the next looser one takes. -/
theorem Level.Takes.unary_of_primary (h : Level.primary.Takes ts t) : Level.unary.Takes ts t := by
  intro fs rest hfs hrest
  obtain ⟨fs', t', base, heq, hclose, hbase⟩ := h fs rest hfs hrest
  obtain ⟨rfl, rfl⟩ := Prod.mk.inj hclose
  exact ⟨fs', t', base, heq, rfl, fun _ => hbase rfl⟩

theorem Level.Takes.power_of_unary (h : Level.unary.Takes ts t) : Level.power.Takes ts t := by
  intro fs rest _ hrest
  obtain ⟨fs', t', base, heq, hclose, -⟩ :=
    h fs rest trivial fun t ht => ⟨(hrest t ht).1, (hrest t ht).2.1⟩
  exact ⟨fs', t', base, heq, hclose, by simp [Level.isBase]⟩

theorem Level.Takes.term_of_power (h : Level.power.Takes ts t) : Level.term.Takes ts t := by
  intro fs rest hfs hrest
  obtain ⟨fs', t', base, heq, hclose, -⟩ := h fs rest hfs.power_of_term hrest
  have hsigns : closeSigns fs' t' = closeSigns fs t := hclose
  exact ⟨fs', t', base, heq, by simp only [Level.close, closeProduct, hsigns],
    by simp [Level.isBase]⟩

theorem Level.Takes.expression_of_term (h : Level.term.Takes ts t) :
    Level.expression.Takes ts t := by
  intro fs rest hfs hrest
  obtain ⟨fs', t', base, heq, hclose, -⟩ := h fs rest hfs.term_of_expression hrest
  have hproduct : closeProduct fs' t' = closeProduct fs t := hclose
  exact ⟨fs', t', base, heq, by simp only [Level.close, closeSum, hproduct], by simp [Level.isBase]⟩

end Takes

/-- The parser takes every text of a level for its tree. -/
theorem takes_of_derives {level : Level} {ts : List (Token α)} {t : Tree α}
    (h : Derives level ts t) : level.Takes ts t := by
  induction h with
  | number x =>
    intro fs rest _ _
    exact ⟨fs, .number x, true, by simp only [List.cons_append, List.nil_append, operand], rfl,
      fun _ => rfl⟩
  | name n =>
    intro fs rest _ hrest
    exact ⟨fs, .name n, true, operand_name hrest n fs, rfl, fun _ => rfl⟩
  | @entry n x i hx =>
    intro fs rest _ _
    exact ⟨fs, .entry n i, true, by simp only [List.cons_append, List.nil_append, operand, hx], rfl,
      fun _ => rfl⟩
  | call h ih => exact ih.call _
  | group h ih => exact ih.group
  | primary h ih => exact ih.unary_of_primary
  | neg h ih => exact ih.neg
  | unary h ih => exact ih.power_of_unary
  | power h hx ih => exact ih.power hx
  | factor h ih => exact ih.term_of_power
  | product hop h h' ih ih' => exact ih.product ih' hop
  | term h ih => exact ih.expression_of_term
  | sum hop h h' ih ih' => exact ih.sum ih' hop

theorem parse_of_derives {ts : List (Token α)} {t : Tree α} (h : Derives .expression ts t) :
    Tree.parse ts = t := by
  have hadmits : Level.expression.Admits ([] : List (Frame α)) := by simp [Level.Admits]
  obtain ⟨fs, t', base, heq, hclose, -⟩ :=
    takes_of_derives h [] [] hadmits (by simp [Level.Precedes])
  have hsum : closeSum fs t' = ([], t) := hclose.trans (closeSum_of_admits hadmits t)
  rw [List.append_nil] at heq
  simp only [Tree.parse, heq, behind, finish, hsum, List.head?_nil]

end DiffGraph.Formula
