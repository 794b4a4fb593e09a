import Mathlib
import DiffGraph.Proofs.Formula.Grammar
import DiffGraph.Proofs.Formula.Value
import DiffGraph.Proofs.Graph.Built

/-!
# Infix notation

`Infix.tokens` writes an arithmetic expression with the brackets that the usual
precedences ask for: `^` binds tighter than a sign, a sign tighter than `*` and
`/`, and these tighter than `+` and `-`, which all group to the left. In the
grammar of formulas a sign belongs to the base of a power, so `-x^2` is read as
`(-x)^2`: what is read is `Infix.regrouped`, which has the same value if no even
power stands directly behind a sign (`value_regrouped`). For every expression the
formula has the value of what is read (`parse_infix`).
-/

namespace DiffGraph.Formula

open DiffGraph.Expr

/-! ## Writing -/

/-- Arithmetic over whole numbers and named quantities. -/
inductive Infix where
  | number (n : Nat)
  | symbol (name : String)
  | unary (op : UnaryOp) (t : Infix)
  | binary (op : BinaryOp) (left right : Infix)
  | power (base : Infix) (n : Nat)

def bracketed {β : Type} (lbracket rbracket : β) (needed : Bool) (xs : List β) : List β :=
  if needed then lbracket :: (xs ++ [rbracket]) else xs

namespace Infix

/-- How tightly the outermost operation binds. -/
def strength : Infix → Nat
  | binary op _ _ => if isProduct op then 1 else 0
  | unary .neg _ => 2
  | power .. => 3
  | number _ | symbol _ | unary .. => 4

/-- The tokens of an expression, with only the necessary brackets. -/
def tokens {α : Type} [OrderedScalar α] : Infix → List (Token α)
  | number n => [.number (OrderedScalar.ofDecimal n 0)]
  | symbol name => [.name name]
  | unary .neg t => .minus :: bracketed .lparen .rparen (t.strength < 2) t.tokens
  | unary op t => .name op.name :: .lparen :: (t.tokens ++ [.rparen])
  | t@(binary op left right) =>
    bracketed .lparen .rparen (left.strength < t.strength) left.tokens ++
      signToken op :: bracketed .lparen .rparen (right.strength ≤ t.strength) right.tokens
  | power base n =>
    bracketed .lparen .rparen (base.strength < 4) base.tokens ++
      [.caret, .number (OrderedScalar.ofDecimal n 0)]

def chars : Infix → List Char
  | number n => (toString n).toList
  | symbol name => name.toList
  | unary .neg t => '-' :: bracketed '(' ')' (t.strength < 2) t.chars
  | unary op t => op.name.toList ++ '(' :: (t.chars ++ [')'])
  | t@(binary op left right) =>
    bracketed '(' ')' (left.strength < t.strength) left.chars ++
      signChar op :: bracketed '(' ')' (right.strength ≤ t.strength) right.chars
  | power base n => bracketed '(' ')' (base.strength < 4) base.chars ++ '^' :: (toString n).toList

def names : Infix → List String
  | number _ => []
  | symbol name => [name]
  | unary _ t | power t _ => t.names
  | binary _ left right => left.names ++ right.names

def exponents : Infix → List Nat
  | number _ | symbol _ => []
  | unary _ t => t.exponents
  | binary _ left right => left.exponents ++ right.exponents
  | power t n => n :: t.exponents

def value {α : Type} [ExactField α] (ρ : String → α) : Infix → α
  | number n => n
  | symbol name => ρ name
  | unary op t => op.apply (t.value ρ)
  | binary op left right => op.apply (left.value ρ) (right.value ρ)
  | power t n => t.value ρ ^ n

end Infix

section Lexemes

variable {α : Type} [OrderedScalar α] {cs : List Char} {ts : List (Token α)}

theorem lexemes_bracketed (h : Lexemes cs ts) (needed : Bool) :
    Lexemes (bracketed '(' ')' needed cs) (bracketed .lparen .rparen needed ts) := by
  cases needed with
  | false => exact h
  | true => exact h.brackets

theorem Infix.lexemes_chars (t : Infix) (h : ∀ name ∈ t.names, IsName name) :
    Lexemes t.chars (t.tokens : List (Token α)) := by
  induction t with
  | number n => exact lexemes_natural n
  | symbol name => exact lexemes_name (h name (List.mem_singleton_self name))
  | unary op t ih =>
    have ih := ih h
    cases op with
    | neg => exact (lexemes_bracketed ih _).sign rfl
    | _ => exact lexemes_call _ ih
  | binary op left right ihl ihr =>
    have ihl := ihl fun name hname => h name (List.mem_append_left _ hname)
    have ihr := ihr fun name hname => h name (List.mem_append_right _ hname)
    exact (lexemes_bracketed ihl _).append_sign (sign?_signChar op) (lexemes_bracketed ihr _)
  | power base n ih => exact (lexemes_bracketed (ih h) _).append_sign rfl (lexemes_natural n)

end Lexemes

/-! ## Reading -/

namespace Infix

/-- A sign in front of an expression: it goes into the base of a power. -/
def signed : Infix → Infix
  | power base n => power (unary .neg base) n
  | t => unary .neg t

/-- The expression that is read: signs that stand directly before a power are in its base. -/
def regrouped : Infix → Infix
  | number n => number n
  | symbol name => symbol name
  | unary .neg t => t.regrouped.signed
  | unary op t => unary op t.regrouped
  | binary op left right => binary op left.regrouped right.regrouped
  | power base n => power base.regrouped n

def tree {α : Type} [OrderedScalar α] : Infix → Tree α
  | number n => .number (OrderedScalar.ofDecimal n 0)
  | symbol name => .name name
  | unary .neg t => .neg t.tree
  | unary op t => .call op.name t.tree
  | binary op left right => .binary op left.tree right.tree
  | power base n => .power base.tree n

example : (unary .neg (power (symbol "x") 2)).chars = "-x^2".toList ∧
    (unary .neg (power (symbol "x") 2)).regrouped = power (unary .neg (symbol "x")) 2 :=
  ⟨by decide, rfl⟩

/-- Powers directly behind a sign have odd exponents. -/
def OddSigned : Infix → Prop
  | number _ | symbol _ => True
  | unary .neg (power base n) => Odd n ∧ base.OddSigned
  | unary _ t | power t _ => t.OddSigned
  | binary _ left right => left.OddSigned ∧ right.OddSigned

end Infix

section Derivation

variable {α : Type} [OrderedScalar α] {ts : List (Token α)} {t u left right : Infix}

/-- Whole numbers below `2 ^ 64` can be told from other numbers. -/
class WholeNumerals (α : Type) extends ExactNumerals α where
  natural?_natCast {n : Nat} (h : n < 2 ^ (64 : Nat)) : Tree.natural? (n : α) = some n

/-- The tokens are an operand of `*` or `/`, and the expression is what is read: a base, or a power
of one. -/
inductive Reads : List (Token α) → Infix → Prop
  | base {ts : List (Token α)} {u : Infix} (h : Derives .unary ts u.tree)
      (hu : ∀ base n, u ≠ .power base n) : Reads ts u
  | power {ts : List (Token α)} {u : Infix} {n : Nat} (h : Derives .unary ts u.tree)
      (hn : Tree.natural? (OrderedScalar.ofDecimal n 0 : α) = some n) :
      Reads (ts ++ [.caret, .number (OrderedScalar.ofDecimal n 0)]) (.power u n)

theorem Reads.derives (h : Reads ts u) : Derives .power ts u.tree := by
  cases h with
  | base h _ => exact .unary h
  | power h hn => exact .power h hn

theorem Reads.neg (h : Reads ts u) : Reads (.minus :: ts) u.signed := by
  cases h with
  | base h hu =>
    have hsigned : u.signed = .unary .neg u := by
      cases u with
      | power base n => exact absurd rfl (hu base n)
      | _ => rfl
    rw [hsigned]
    exact .base (.neg h) (by simp)
  | @power ts u n h hn => exact .power (u := .unary .neg u) (.neg h) hn

/-- How an expression is read where its strength allows it to stand without brackets. -/
structure Derived (α : Type) [OrderedScalar α] (t : Infix) : Prop where
  expression : Derives .expression (t.tokens : List (Token α)) t.regrouped.tree
  term : 1 ≤ t.strength → Derives .term (t.tokens : List (Token α)) t.regrouped.tree
  operand : 2 ≤ t.strength → Reads (t.tokens : List (Token α)) t.regrouped
  atom : 4 ≤ t.strength → Derives .primary (t.tokens : List (Token α)) t.regrouped.tree

namespace Derived

theorem of_operand (h : Reads (t.tokens : List (Token α)) t.regrouped) (ht : t.strength < 4) :
    Derived α t where
  expression := .term (.factor h.derives)
  term _ := .factor h.derives
  operand _ := h
  atom hle := absurd hle (Nat.not_le.2 ht)

theorem of_atom (h : Derives .primary (t.tokens : List (Token α)) t.regrouped.tree)
    (ht : ∀ base n, t.regrouped ≠ .power base n) : Derived α t where
  expression := .term (.factor (.unary (.primary h)))
  term _ := .factor (.unary (.primary h))
  operand _ := .base (.primary h) ht
  atom _ := h

theorem bracketed_term (h : Derived α t) :
    Derives .term (bracketed (.lparen : Token α) .rparen (t.strength < 1) t.tokens)
      t.regrouped.tree := by
  by_cases hlt : t.strength < 1
  · simp only [bracketed, hlt, decide_true, if_true]
    exact .factor (.unary (.primary (.group h.expression)))
  · simp only [bracketed, hlt, decide_false, Bool.false_eq_true, if_false]
    exact h.term (Nat.not_lt.1 hlt)

theorem bracketed_operand (h : Derived α t) :
    Reads (bracketed (.lparen : Token α) .rparen (t.strength < 2) t.tokens) t.regrouped := by
  by_cases hlt : t.strength < 2
  · simp only [bracketed, hlt, decide_true, if_true]
    refine .base (.primary (.group h.expression)) fun base n => ?_
    -- Only sums and products bind so weakly.
    cases t with
    | binary op left right => simp [Infix.regrouped]
    | unary op t => cases op <;> simp [Infix.strength] at hlt
    | _ => simp [Infix.strength] at hlt
  · simp only [bracketed, hlt, decide_false, Bool.false_eq_true, if_false]
    exact h.operand (Nat.not_lt.1 hlt)

theorem bracketed_atom (h : Derived α t) :
    Derives .primary (bracketed (.lparen : Token α) .rparen (t.strength < 4) t.tokens)
      t.regrouped.tree := by
  by_cases hlt : t.strength < 4
  · simp only [bracketed, hlt, decide_true, if_true]
    exact .group h.expression
  · simp only [bracketed, hlt, decide_false, Bool.false_eq_true, if_false]
    exact h.atom (Nat.not_lt.1 hlt)

theorem binary {op : BinaryOp} (h : Derived α left) (h' : Derived α right) :
    Derived α (.binary op left right) := by
  cases hop : isProduct op with
  | true =>
    have hstrength : (Infix.binary op left right).strength = 1 := by simp [Infix.strength, hop]
    have hterm : Derives .term ((Infix.binary op left right).tokens : List (Token α))
        (Infix.binary op left right).regrouped.tree := by
      simp only [Infix.tokens, hstrength, ← Nat.lt_succ_iff]
      exact .product hop h.bracketed_term h'.bracketed_operand.derives
    exact ⟨.term hterm, fun _ => hterm, by simp [hstrength], by simp [hstrength]⟩
  | false =>
    have hstrength : (Infix.binary op left right).strength = 0 := by simp [Infix.strength, hop]
    refine ⟨?_, by simp [hstrength], by simp [hstrength], by simp [hstrength]⟩
    simp only [Infix.tokens, hstrength, ← Nat.lt_succ_iff]
    exact .sum hop h.expression h'.bracketed_term

end Derived

end Derivation

section Whole

variable {α : Type} [WholeNumerals α]

theorem ofDecimal_zero (n : Nat) : (OrderedScalar.ofDecimal n 0 : α) = n := by
  rw [OrderedScalar.ofDecimal_eq_mul, zpow_zero, mul_one]

/-- The tokens of an expression are a formula, with the tree of what is read. -/
theorem Infix.derived (t : Infix) (h : ∀ k ∈ t.exponents, k < 2 ^ (64 : Nat)) : Derived α t := by
  induction t with
  | number n => exact .of_atom (.number _) (by simp [regrouped])
  | symbol name => exact .of_atom (.name name) (by simp [regrouped])
  | unary op t ih =>
    have ih := ih h
    cases op with
    | neg => exact .of_operand ih.bracketed_operand.neg (by simp [strength])
    | _ => exact .of_atom (.call ih.expression) (by simp [regrouped])
  | binary op left right ihl ihr =>
    exact .binary (ihl fun k hk => h k (List.mem_append_left _ hk))
      (ihr fun k hk => h k (List.mem_append_right _ hk))
  | power base n ih =>
    have hn : Tree.natural? (OrderedScalar.ofDecimal n 0 : α) = some n := by
      rw [ofDecimal_zero]
      exact WholeNumerals.natural?_natCast (h n List.mem_cons_self)
    have ih := ih fun k hk => h k (List.mem_cons_of_mem _ hk)
    exact .of_operand (.power (.primary ih.bracketed_atom) hn) (by simp [strength])

/-! ## Values -/

namespace Infix

variable {ρ : String → α} {t u base : Infix} {n : Nat}

theorem value_tree (ρ : String → α) (t : Infix) : (t.tree : Tree α).value ρ = t.value ρ := by
  induction t with
  | number n => exact ofDecimal_zero n
  | symbol name => rfl
  | unary op t ih => cases op <;> exact congrArg _ ih
  | binary op left right ihl ihr => exact congrArg₂ op.apply ihl ihr
  | power base n ih => exact congrArg (· ^ n) ih

theorem resolved_tree {symbols : List (Expr α)} (t : Infix)
    (h : ∀ name ∈ t.names, ∃ s ∈ symbols, s.name? = some name) :
    (t.tree : Tree α).Resolved symbols := by
  induction t with
  | number n => trivial
  | symbol name => exact h name (List.mem_singleton_self name)
  | unary op t ih =>
    cases op with
    | neg => exact ih h
    | _ => exact ⟨rfl, ih h⟩
  | binary op left right ihl ihr =>
    exact ⟨ihl fun name hname => h name (List.mem_append_left _ hname),
      ihr fun name hname => h name (List.mem_append_right _ hname)⟩
  | power base n ih => exact ih h

theorem names_signed (u : Infix) : u.signed.names = u.names := by
  cases u <;> rfl

theorem names_regrouped (t : Infix) : t.regrouped.names = t.names := by
  induction t with
  | unary op t ih =>
    cases op with
    | neg => exact (names_signed _).trans ih
    | _ => exact ih
  | binary op left right ihl ihr => exact congrArg₂ (· ++ ·) ihl ihr
  | power base n ih => exact ih
  | _ => rfl

theorem value_signed (h : ∀ base n, u = power base n → Odd n) :
    u.signed.value ρ = -u.value ρ := by
  cases u with
  | power base n => exact (h base n rfl).neg_pow _
  | _ => rfl

theorem OddSigned.of_neg (h : (unary .neg t).OddSigned) : t.OddSigned := by
  cases t with
  | power base n => exact h.2
  | _ => exact h

/-- A power that is read behind a sign stands there, possibly with more signs before it. -/
theorem odd_of_regrouped (h : (unary .neg t).OddSigned) (ht : t.regrouped = power base n) :
    Odd n := by
  induction t generalizing base with
  | power base' n' =>
    obtain ⟨-, rfl⟩ := power.inj ht
    exact h.1
  | unary op t ih =>
    cases op with
    | neg =>
      have h : (unary .neg t).OddSigned := h
      have ht : t.regrouped.signed = power base n := ht
      cases hu : t.regrouped with
      | power base' n' =>
        rw [hu] at ht
        obtain ⟨-, rfl⟩ := power.inj ht
        exact ih h hu
      | _ => simp [hu, signed] at ht
    | _ => simp [regrouped] at ht
  | _ => simp [regrouped] at ht

/-- What is read has the value of what is written if no even power stands directly behind a sign. -/
theorem value_regrouped (t : Infix) (h : t.OddSigned) : t.regrouped.value ρ = t.value ρ := by
  induction t with
  | unary op t ih =>
    cases op with
    | neg =>
      refine (value_signed fun base n ht => odd_of_regrouped h ht).trans ?_
      exact congrArg (- ·) (ih h.of_neg)
    | _ => exact congrArg (UnaryOp.apply _) (ih h)
  | binary op left right ihl ihr => exact congrArg₂ op.apply (ihl h.1) (ihr h.2)
  | power base n ih => exact congrArg (· ^ n) (ih h)
  | _ => rfl

end Infix

/-- The formula of an expression over scalar symbols is read, and it has the value of the expression
if no even power stands directly behind a sign; otherwise that sign counts as a part of the base. -/
theorem parse_infix {n : Nat} {G symbols : List (Expr α)} {t : Infix} {text : String}
    (hG : Built n G) (hsymbols : ∀ s ∈ symbols, s ∈ G ∧ s.pattern = .scalar)
    (hnames : ∀ name ∈ t.names, ∃ s ∈ symbols, s.name? = some name)
    (hexponents : ∀ k ∈ t.exponents, k < 2 ^ (64 : Nat))
    (htext : Spells text.toList (t.tokens : List (Token α))) :
    ∃ e n', parse text symbols n = .ok (e, n') ∧ ∀ env : Nat → Nat → α,
      evalTree env e = .ok [[t.regrouped.value (assigned symbols env)]] ∧
        (t.OddSigned → evalTree env e = .ok [[t.value (assigned symbols env)]]) := by
  have hparse : parse text symbols = build symbols (t.regrouped.tree : Tree α) := by
    rw [parse, tokens_of_spells htext]
    exact congrArg (build symbols) (parse_of_derives (t.derived hexponents).expression)
  have hgrow := grows_build hG.isGraph.1
    (fun s hs => ⟨mem_nodesOf (hsymbols s hs).1, (hsymbols s hs).2⟩)
    (t.regrouped.resolved_tree (by rwa [t.names_regrouped]))
  unfold Grows at hgrow
  cases hbuild : build symbols (t.regrouped.tree : Tree α) n with
  | error e => simp only [hbuild] at hgrow
  | ok out =>
    simp only [hbuild] at hgrow
    obtain ⟨S', hext, he⟩ := hgrow
    have heval (env : Nat → Nat → α) :
        evalTree env out.1 = .ok [[t.regrouped.value (assigned symbols env)]] := by
      rw [(hext.graph.evalTree_eq he.usable.1).1,
        hext.graph.values_of_not_isSplit he.usable.1 he.usable.2,
        hext.graph.nonzeros_scalar he.usable.1 he.pattern, he.value, Infix.value_tree]
    exact ⟨out.1, out.2, by rw [hparse, hbuild], fun env =>
      ⟨heval env, fun hodd => by rw [heval, Infix.value_regrouped t hodd]⟩⟩

end Whole

/-! ## Rational numbers -/

theorem fract_natCast_rat (n : Nat) : OrderedScalar.fract (n : Rat) = 0 := by
  show (n : Rat) - ((if (n : Rat) < 0 then (n : Rat).ceil else (n : Rat).floor : Int) : Rat) = 0
  rw [if_neg (not_lt.2 (Nat.cast_nonneg n)), show (n : Rat).floor = n from Rat.floor_intCast n]
  exact sub_self _

theorem natural?_natCast_min_rat (n : Nat) :
    Tree.natural? (n : Rat) = some (min n (2 ^ (64 : Nat) - 1)) := by
  have hfloor : (n : Rat).floor = (n : Int) := Rat.floor_intCast n
  have hatMost : OrderedScalar.atMost 0 (n : Rat) = true := decide_eq_true (Nat.cast_nonneg n)
  have htoNat : OrderedScalar.toNat (n : Rat) = min n (2 ^ (64 : Nat) - 1) := by
    show min (n : Rat).floor.toNat (2 ^ (64 : Nat) - 1) = _
    rw [hfloor, Int.toNat_natCast]
  simp only [Tree.natural?, hatMost, fract_natCast_rat, htoNat, beq_self_eq_true, Bool.and_self,
    if_true]

theorem natural?_natCast_rat {n : Nat} (h : n < 2 ^ (64 : Nat)) :
    Tree.natural? (n : Rat) = some n := by
  rw [natural?_natCast_min_rat, min_eq_left (Nat.le_sub_one_of_lt h)]

instance : WholeNumerals Rat where
  natural?_natCast := natural?_natCast_rat

/-- A product with a sign, and a square. -/
theorem parse_infix_square :
    let k : Expr Rat := .node 0 (.symbol "k") [] .scalar []
    let x : Expr Rat := .node 1 (.symbol "x") [] .scalar []
    let t : Infix := .binary .add (.binary .mul (.unary .neg (.symbol "k")) (.symbol "x"))
      (.binary .mul (.number 2) (.power (.symbol "x") 2))
    ∃ e n', parse "-k*x+2*x^2" [x, k] 2 = .ok (e, n') ∧ ∀ env : Nat → Nat → Rat,
      evalTree env e = .ok [[t.regrouped.value (assigned [x, k] env)]] ∧
        (t.OddSigned → evalTree env e = .ok [[t.value (assigned [x, k] env)]]) := by
  intro k x t
  have hk : Built 1 [k] := .symbol "k" _ .start
  have hG : Built 2 [x, k] := .symbol "x" _ hk
  have hnames : ∀ name ∈ t.names, name = "k" ∨ name = "x" := by decide
  have hname (name : String) (h : name = "k" ∨ name = "x") : IsName name := by
    rcases h with rfl | rfl <;> exact isName_of_isAlpha rfl rfl
  refine parse_infix hG ?_ ?_ (by decide) (t := t) ?_
  · simp [k, x, Expr.pattern]
  · intro name h
    rcases hnames name h with rfl | rfl
    · exact ⟨k, by simp, rfl⟩
    · exact ⟨x, by simp, rfl⟩
  · exact (t.lexemes_chars fun name h => hname name (hnames name h)).spells

end DiffGraph.Formula
