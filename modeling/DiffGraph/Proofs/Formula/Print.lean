import Mathlib
import DiffGraph.Proofs.Decimal.Text
import DiffGraph.Proofs.Formula.Grammar
import DiffGraph.Proofs.Formula.Lexeme
import DiffGraph.Proofs.Formula.Value

/-!
# Reading back printed expressions

Scalar expressions are printed with all brackets. What the constructors build of
scalar symbols and numbers has nothing left to simplify (`Composed.normal`), so
the constructors rebuild it node by node when the printed text is parsed: the
result has the operations, symbols and numbers of the expression
(`parse_text`). Every number that occurs in it has to be finite, since `inf` and
`NaN` are no numbers in formulas.
-/

namespace DiffGraph.Formula

open DiffGraph.Expr

/-! ## Expressions without identities -/

section Alike

variable {α : Type} {x x' y y' : Expr α}

/-- The same operations on the same symbols and numbers. -/
inductive Alike : Expr α → Expr α → Prop
  | symbol (id : Nat) (name : String) (p : Pattern) :
      Alike (.node id (.symbol name) [] p []) (.node id (.symbol name) [] p [])
  | constant (id id' : Nat) (nz : List α) (p : Pattern) :
      Alike (.node id (.constant nz) [] p []) (.node id' (.constant nz) [] p [])
  | unary {id id' : Nat} {op : UnaryOp} {x x' : Expr α} {p : Pattern} (h : Alike x x') :
      Alike (.node id (.unary op) [x] p []) (.node id' (.unary op) [x'] p [])
  | binary {id id' : Nat} {op : BinaryOp} {b : Broadcast} {x x' y y' : Expr α} {p : Pattern}
      (h : Alike x x') (h' : Alike y y') :
      Alike (.node id (.binary op b) [x, y] p []) (.node id' (.binary op b) [x', y'] p [])

namespace Alike

theorem pattern (h : Alike x x') : x'.pattern = x.pattern := by
  cases h <;> rfl

theorem constant? (h : Alike x x') : x'.constant? = x.constant? := by
  cases h <;> rfl

theorem negated? (h : Alike x x') : x'.negated? = none ↔ x.negated? = none := by
  cases h with
  | @unary id id' op x x' p h => cases op <;> simp [Expr.negated?, Expr.op, Expr.deps]
  | _ => simp [Expr.negated?, Expr.op, Expr.deps]

end Alike

end Alike

/-! ## Normal forms -/

section Normal

variable {α : Type} [Scalar α] {symbols : List (Expr α)} {x y e : Expr α}

/-- What the constructors build of the symbols and of numbers. -/
inductive Composed (symbols : List (Expr α)) : Expr α → Prop
  | symbol {s : Expr α} (h : s ∈ symbols) : Composed symbols s
  | scalar (a : α) (n : Nat) : Composed symbols (Expr.scalar a n).1
  | unary {op : UnaryOp} {x r : Expr α} {n n' : Nat} (h : Composed symbols x)
      (hrun : Expr.unary op x n = .ok (r, n')) : Composed symbols r
  | binary {op : BinaryOp} {x y r : Expr α} {n n' : Nat} (h : Composed symbols x)
      (h' : Composed symbols y) (hrun : Expr.binary op x y n = .ok (r, n')) : Composed symbols r

/-- Scalar expressions over the symbols in which no simplification applies. -/
inductive Normal (symbols : List (Expr α)) : Expr α → Prop
  | symbol {id : Nat} {name : String} (h : .node id (.symbol name) [] .scalar [] ∈ symbols) :
      Normal symbols (.node id (.symbol name) [] .scalar [])
  | constant (id : Nat) (a : α) : Normal symbols (.node id (.constant [a]) [] .scalar [])
  | unary {id : Nat} {op : UnaryOp} {x : Expr α} (h : Normal symbols x) (hx : x.constant? = none)
      (hneg : op = .neg → x.negated? = none) : Normal symbols (.node id (.unary op) [x] .scalar [])
  | binary {id : Nat} {op : BinaryOp} {x y : Expr α} (h : Normal symbols x) (h' : Normal symbols y)
      (hxy : x.constant? = none ∨ y.constant? = none) (hsimp : simplify op ⟨x, y, .none⟩ = .none) :
      Normal symbols (.node id (.binary op .none) [x, y] .scalar [])

/-- A unary operation folds a constant, drops a double negation, or makes a node. -/
theorem unaryNode_cases (op : UnaryOp) (x : Expr α) :
    (∃ nz, x.constant? = some nz ∧ unaryNode op x = constant (nz.map op.apply) x.pattern) ∨
      (∃ y, op = .neg ∧ x.negated? = some y ∧ unaryNode op x = pure y) ∨
      (x.constant? = none ∧ (op = .neg → x.negated? = none) ∧
        unaryNode op x = fresh (.unary op) [x] x.pattern) := by
  cases hnz : x.constant? with
  | some nz => exact .inl ⟨nz, rfl, by simp only [unaryNode, hnz]⟩
  | none =>
    by_cases hop : op = .neg
    · subst hop
      cases hy : x.negated? with
      | some y => exact .inr (.inl ⟨y, rfl, rfl, by simp only [unaryNode, hnz, hy]⟩)
      | none => exact .inr (.inr ⟨rfl, fun _ => rfl, by simp only [unaryNode, hnz, hy]⟩)
    · refine .inr (.inr ⟨rfl, fun h => absurd h hop, ?_⟩)
      cases op with
      | neg => exact absurd rfl hop
      | _ => simp only [unaryNode, hnz]

/-- A simplification gives one of the operands, the negation of the right one, or zero. -/
theorem simplify_cases (op : BinaryOp) (a : Aligned α) :
    simplify op a = .operand a.left ∨ simplify op a = .operand a.right ∨
      simplify op a = .negation a.right ∨ simplify op a = .zero ∨ simplify op a = .none := by
  cases op <;> simp only [simplify] <;> split_ifs <;> simp

def simplified (op : BinaryOp) (a : Aligned α) (r : Simplified α) : Fresh (Expr α) :=
  match r with
  | .operand x => pure x
  | .negation x => neg x
  | .zero => constant (List.replicate a.pattern.nnz 0) a.pattern
  | .none => fresh (.binary op a.broadcast) [a.left, a.right] a.pattern

theorem binaryNode_eq_simplified (op : BinaryOp) {a : Aligned α}
    (h : a.left.constant? = none ∨ a.right.constant? = none) :
    binaryNode op a = simplified op a (simplify op a) := by
  unfold binaryNode
  split
  · rename_i hx hy
    exact absurd h (by simp [hx, hy])
  · rfl

namespace Normal

theorem pattern (h : Normal symbols x) : x.pattern = .scalar := by
  cases h <;> rfl

theorem exists_of_constant? {nz : List α} (h : Normal symbols x) (hnz : x.constant? = some nz) :
    ∃ a, nz = [a] := by
  cases h with
  | constant id a => exact ⟨a, (Option.some.inj hnz).symm⟩
  | _ => cases hnz

theorem of_negated? (h : Normal symbols x) (hy : x.negated? = some y) : Normal symbols y := by
  cases h with
  | @unary id op x h hx hneg =>
    cases op with
    | neg => exact Option.some.inj hy ▸ h
    | _ => cases hy
  | _ => cases hy

theorem unaryNode (h : Normal symbols x) (op : UnaryOp) (n : Nat) :
    Normal symbols (Expr.unaryNode op x n).1 := by
  rcases unaryNode_cases op x with ⟨nz, hnz, hnode⟩ | ⟨y, -, hy, hnode⟩ | ⟨hnz, hneg, hnode⟩
  · obtain ⟨a, rfl⟩ := h.exists_of_constant? hnz
    rw [hnode, h.pattern]
    exact constant n _
  · rw [hnode]
    exact h.of_negated? hy
  · rw [hnode, h.pattern]
    exact unary h hnz hneg

theorem binaryNode (h : Normal symbols x) (h' : Normal symbols y) (op : BinaryOp) (n : Nat) :
    Normal symbols (Expr.binaryNode op ⟨x, y, .none⟩ n).1 := by
  have hpattern : (⟨x, y, .none⟩ : Aligned α).pattern = .scalar := h.pattern
  by_cases hxy : x.constant? = none ∨ y.constant? = none
  · rw [binaryNode_eq_simplified op hxy]
    rcases simplify_cases op ⟨x, y, .none⟩ with hs | hs | hs | hs | hs
    · rw [hs]
      exact h
    · rw [hs]
      exact h'
    · rw [hs]
      exact h'.unaryNode .neg n
    · rw [hs, simplified, hpattern]
      exact constant n 0
    · rw [hs, simplified, hpattern]
      exact binary h h' hxy hs
  · obtain ⟨hx, hy⟩ := not_or.1 hxy
    obtain ⟨xs, hxs⟩ := Option.ne_none_iff_exists'.1 hx
    obtain ⟨ys, hys⟩ := Option.ne_none_iff_exists'.1 hy
    unfold Expr.binaryNode
    simp only [hxs, hys, hpattern]
    exact constant n _

end Normal

theorem Composed.normal
    (hsymbols : ∀ s ∈ symbols, ∃ id name, s = .node id (.symbol name) [] .scalar [])
    (h : Composed symbols e) : Normal symbols e := by
  induction h with
  | symbol hs =>
    obtain ⟨id, name, rfl⟩ := hsymbols _ hs
    exact .symbol hs
  | scalar a n => exact .constant n a
  | @unary op x r n n' _ hrun ih =>
    rw [unary_scalar op ih.pattern] at hrun
    obtain rfl : (unaryNode op x n).1 = r := congrArg Prod.fst (Except.ok.inj hrun)
    exact ih.unaryNode op n
  | @binary op x y r n n' _ _ hrun ihx ihy =>
    unfold Expr.binary at hrun
    rw [align_scalar op ihx.pattern ihy.pattern, pure_bind] at hrun
    obtain rfl : (binaryNode op ⟨x, y, .none⟩ n).1 = r := congrArg Prod.fst (Except.ok.inj hrun)
    exact ihx.binaryNode ihy op n

end Normal

/-! ## Rebuilding -/

section Rebuild

variable {α : Type} [OrderedScalar α] {symbols : List (Expr α)} {x x' y y' e : Expr α}
  {t u : Tree α} {op : BinaryOp}

namespace Alike

theorem unaryNode {op : UnaryOp} {p : Pattern} (h : Alike x x') (hp : x.pattern = p)
    (hx : x.constant? = none) (hneg : op = .neg → x.negated? = none) (id m : Nat) :
    Alike (.node id (.unary op) [x] p []) (Expr.unaryNode op x' m).1 := by
  rcases unaryNode_cases op x' with ⟨nz, hnz, -⟩ | ⟨y, hop, hy, -⟩ | ⟨-, -, hnode⟩
  · rw [h.constant?, hx] at hnz
    cases hnz
  · rw [h.negated?.2 (hneg hop)] at hy
    cases hy
  · rw [hnode, h.pattern, hp]
    exact .unary h

theorem simplify (h : Alike x x') (h' : Alike y y') (hp : y.pattern = x.pattern)
    (hsimp : Expr.simplify op ⟨x, y, .none⟩ = .none) :
    Expr.simplify op ⟨x', y', .none⟩ = .none := by
  have hp' : y'.pattern = x'.pattern := by rw [h'.pattern, hp, h.pattern]
  have hzero : x'.isZero = x.isZero ∧ y'.isZero = y.isZero := by
    simp only [isZero, h.constant?, h'.constant?, and_self]
  have hone : x'.isOne = x.isOne ∧ y'.isOne = y.isOne := by
    simp only [isOne, h.constant?, h'.constant?, and_self]
  revert hsimp
  cases op <;> simp only [Expr.simplify, Aligned.pattern, hzero, hone, hp, hp', decide_true,
    Bool.and_true] <;> split_ifs <;> simp

theorem binaryNode (h : Alike x x') (h' : Alike y y') (hp : x.pattern = .scalar)
    (hp' : y.pattern = .scalar) (hxy : x.constant? = none ∨ y.constant? = none)
    (hsimp : Expr.simplify op ⟨x, y, .none⟩ = .none) (id m : Nat) :
    Alike (.node id (.binary op .none) [x, y] .scalar [])
      (Expr.binaryNode op ⟨x', y', .none⟩ m).1 := by
  have hpattern : (⟨x', y', .none⟩ : Aligned α).pattern = .scalar := h.pattern.trans hp
  have hnode : Expr.binaryNode op ⟨x', y', .none⟩ = fresh (.binary op .none) [x', y'] .scalar := by
    unfold Expr.binaryNode
    rw [hpattern, h.simplify h' (hp'.trans hp.symm) hsimp]
    split
    · rename_i hx hy
      exact absurd hxy (by simp [← h.constant?, ← h'.constant?, hx, hy])
    · rfl
  rw [hnode]
  exact .binary h h'

end Alike

/-- The tree is built to an expression like the given one. -/
def Rebuilds (symbols : List (Expr α)) (t : Tree α) (e : Expr α) : Prop :=
  ∀ m, ∃ e' m', build symbols t m = .ok (e', m') ∧ Alike e e'

namespace Rebuilds

theorem number (a : α) (id : Nat) :
    Rebuilds symbols (.number a) (.node id (.constant [a]) [] .scalar []) :=
  fun m => ⟨_, _, rfl, .constant id m [a] .scalar⟩

theorem neg_number (a : α) (id : Nat) :
    Rebuilds symbols (.neg (.number a)) (.node id (.constant [-a]) [] .scalar []) :=
  fun m => ⟨_, _, rfl, .constant id (m + 1) [-a] .scalar⟩

theorem name {id : Nat} {name : String}
    (h : lookup symbols name = .ok (.node id (.symbol name) [] .scalar [])) :
    Rebuilds symbols (.name name) (.node id (.symbol name) [] .scalar []) := by
  intro m
  refine ⟨_, m, ?_, .symbol id name .scalar⟩
  rw [build, h]
  rfl

theorem neg {id : Nat} (h : Rebuilds symbols t x) (hp : x.pattern = .scalar)
    (hx : x.constant? = none) (hneg : x.negated? = none) :
    Rebuilds symbols (.neg t) (.node id (.unary .neg) [x] .scalar []) := by
  intro m
  obtain ⟨x', m', hbuild, hx'⟩ := h m
  refine ⟨_, (Expr.unaryNode .neg x' m').2, ?_, hx'.unaryNode hp hx (fun _ => hneg) id m'⟩
  show (build symbols t m >>= fun p => onGraph (Expr.neg p.1) p.2) = _
  rw [hbuild]
  rfl

theorem call {id : Nat} {op : UnaryOp} (h : Rebuilds symbols t x) (hp : x.pattern = .scalar)
    (hx : x.constant? = none) (hop : op ≠ .neg) :
    Rebuilds symbols (.call op.name t) (.node id (.unary op) [x] .scalar []) := by
  intro m
  obtain ⟨x', m', hbuild, hx'⟩ := h m
  refine ⟨_, (Expr.unaryNode op x' m').2, ?_,
    hx'.unaryNode hp hx (fun heq => absurd heq hop) id m'⟩
  have hfunction : function? op.name = some op := by
    cases op with
    | neg => exact absurd rfl hop
    | _ => rfl
  have hstep : build symbols (.call op.name t) m = onGraph (Expr.unary op x') m' := by
    rw [build, hfunction]
    show (build symbols t m >>= fun p => onGraph (Expr.unary op p.1) p.2) = _
    rw [hbuild]
    rfl
  rw [hstep, unary_scalar op (hx'.pattern.trans hp)]
  rfl

theorem binary {id : Nat} (h : Rebuilds symbols t x) (h' : Rebuilds symbols u y)
    (hp : x.pattern = .scalar) (hp' : y.pattern = .scalar)
    (hxy : x.constant? = none ∨ y.constant? = none)
    (hsimp : Expr.simplify op ⟨x, y, .none⟩ = .none) :
    Rebuilds symbols (.binary op t u) (.node id (.binary op .none) [x, y] .scalar []) := by
  intro m
  obtain ⟨x', m', hbuild, hx'⟩ := h m
  obtain ⟨y', m'', hbuild', hy'⟩ := h' m'
  refine ⟨_, (Expr.binaryNode op ⟨x', y', .none⟩ m'').2, ?_,
    hx'.binaryNode hy' hp hp' hxy hsimp id m''⟩
  have hstep : build symbols (.binary op t u) m = onGraph (Expr.binary op x' y') m'' := by
    show (build symbols t m >>= fun p => build symbols u p.2 >>= fun q =>
      onGraph (Expr.binary op p.1 q.1) q.2) = _
    rw [hbuild]
    show (build symbols u m' >>= fun q => onGraph (Expr.binary op x' q.1) q.2) = _
    rw [hbuild']
    rfl
  unfold Expr.binary at hstep
  rw [align_scalar op (hx'.pattern.trans hp) (hy'.pattern.trans hp'), pure_bind] at hstep
  exact hstep

end Rebuilds

end Rebuild

/-! ## Printing -/

section Print

variable {α : Type} [OrderedScalar α] [Numeral α] {symbols : List (Expr α)} {x y e : Expr α}
  {id : Nat}

theorem text_node (op : Op α) (deps : List (Expr α)) (p : Pattern) (ps : List Pattern) :
    (Expr.node id op deps p ps).text = (textWith op p (deps.map Expr.text)).getD "" := by
  rw [Expr.text]

theorem text_symbol (name : String) :
    (Expr.node id (.symbol name) [] .scalar [] : Expr α).text = name := by
  rw [text_node]
  rfl

theorem text_constant (a : α) :
    (Expr.node id (.constant [a]) [] .scalar []).text = Numeral.plain a := by
  rw [text_node]
  rfl

theorem text_neg : (Expr.node id (.unary .neg) [x] .scalar []).text.toList =
    '(' :: '-' :: (x.text.toList ++ [')']) := by
  rw [text_node]
  show ("(-" ++ x.text ++ ")").toList = _
  simp

theorem text_call {op : UnaryOp} (hop : op ≠ .neg) :
    (Expr.node id (.unary op) [x] .scalar []).text.toList =
      op.name.toList ++ '(' :: (x.text.toList ++ [')']) := by
  have htext :
      (Expr.node id (.unary op) [x] .scalar []).text = op.name ++ "(" ++ x.text ++ ")" := by
    rw [text_node]
    cases op with
    | neg => exact absurd rfl hop
    | _ => rfl
  rw [htext]
  simp

theorem text_binary {op : BinaryOp} :
    (Expr.node id (.binary op .none) [x, y] .scalar []).text.toList =
      '(' :: (x.text.toList ++ signChar op :: (y.text.toList ++ [')'])) := by
  have hsign : op.sign.toList = [signChar op] := by cases op <;> rfl
  rw [text_node]
  show ("(" ++ x.text ++ op.sign ++ y.text ++ ")").toList = _
  simp [hsign]

/-- The text of a number is one that is read as the number, or a minus sign before the text of its
negation. -/
inductive Legible (a : α) : Prop
  | plain (h : Lexemes (Numeral.plain a).toList [.number a])
  | negative (b : α) (h : Lexemes (Numeral.plain a).toList [.minus, .number b]) (hb : -b = a)

/-- Scalar symbols with different proper names. -/
structure Named (symbols : List (Expr α)) : Prop where
  symbol : ∀ s ∈ symbols, ∃ id name, s = .node id (.symbol name) [] .scalar [] ∧ IsName name
  distinct : (symbols.map Expr.name?).Nodup

omit [Numeral α] in
theorem Named.lookup_eq (h : Named symbols) {name : String}
    (hs : .node id (.symbol name) [] .scalar [] ∈ symbols) :
    lookup symbols name = .ok (.node id (.symbol name) [] .scalar []) := by
  obtain ⟨s, hs', hname, hlookup, -⟩ := Formula.lookup_eq ⟨_, hs, rfl⟩
  rw [hlookup, List.inj_on_of_nodup_map h.distinct hs' hs hname]

/-- The text of an expression is a formula that is built to an expression like it. -/
structure Readable (symbols : List (Expr α)) (e : Expr α) (ts : List (Token α)) (t : Tree α) :
    Prop where
  lexemes : Lexemes e.text.toList ts
  derives : Derives .unary ts t
  rebuilds : Rebuilds symbols t e

theorem Normal.exists_readable (hsymbols : Named symbols) (he : Normal symbols e)
    (hlegible : ∀ y, e.Reaches y → ∀ a, y.constant? = some [a] → Legible a) :
    ∃ ts t, Readable symbols e ts t := by
  induction he with
  | @symbol id name h =>
    obtain ⟨id', name', heq, hname⟩ := hsymbols.symbol _ h
    obtain rfl : name = name' := by cases heq; rfl
    refine ⟨_, _, ?_, .primary (.name name), .name (hsymbols.lookup_eq h)⟩
    rw [text_symbol]
    exact lexemes_name hname
  | constant id a =>
    cases hlegible _ (.refl _) a rfl with
    | plain h => exact ⟨_, _, by rwa [text_constant], .primary (.number a), .number a id⟩
    | negative b h hb =>
      subst hb
      exact ⟨_, _, by rwa [text_constant], .neg (.primary (.number b)), .neg_number b id⟩
  | @unary id op x h hx hneg ih =>
    obtain ⟨ts, t, hread⟩ := ih fun y hy => hlegible y (.dep (List.mem_singleton_self x) hy)
    by_cases hop : op = .neg
    · subst hop
      refine ⟨_, _, ?_, .primary (.group (.term (.factor (.unary (.neg hread.derives))))),
        hread.rebuilds.neg h.pattern hx (hneg rfl)⟩
      rw [text_neg]
      exact (hread.lexemes.sign rfl).brackets
    · refine ⟨_, _, ?_, .primary (.call (.term (.factor (.unary hread.derives)))),
        hread.rebuilds.call h.pattern hx hop⟩
      rw [text_call hop]
      exact lexemes_call op hread.lexemes
  | @binary id op x y h h' hxy hsimp ihx ihy =>
    obtain ⟨ts, t, hread⟩ := ihx fun z hz => hlegible z (.dep List.mem_cons_self hz)
    obtain ⟨us, u, hread'⟩ := ihy fun z hz =>
      hlegible z (.dep (List.mem_cons_of_mem _ List.mem_cons_self) hz)
    have hderives : Derives .expression (ts ++ signToken op :: us) (.binary op t u) := by
      cases hop : isProduct op with
      | true => exact .term (.product hop (.factor (.unary hread.derives)) (.unary hread'.derives))
      | false =>
        exact .sum hop (.term (.factor (.unary hread.derives))) (.factor (.unary hread'.derives))
    refine ⟨_, _, ?_, .primary (.group hderives),
      hread.rebuilds.binary hread'.rebuilds h.pattern h'.pattern hxy hsimp⟩
    rw [text_binary]
    have hlexemes := (hread.lexemes.append_sign (sign?_signChar op) hread'.lexemes).brackets
    simpa using hlexemes

theorem parse_text_of_legible {n : Nat} (hsymbols : Named symbols) (he : Composed symbols e)
    (hlegible : ∀ y, e.Reaches y → ∀ a, y.constant? = some [a] → Legible a) :
    ∃ e' n', parse e.text symbols n = .ok (e', n') ∧ Alike e e' := by
  have hnormal := he.normal fun s hs => by
    obtain ⟨id, name, hs, -⟩ := hsymbols.symbol s hs
    exact ⟨id, name, hs⟩
  obtain ⟨ts, t, hread⟩ := hnormal.exists_readable hsymbols hlegible
  obtain ⟨e', n', hbuild, halike⟩ := hread.rebuilds n
  refine ⟨e', n', ?_, halike⟩
  have htree : Tree.parse ts = t := parse_of_derives (.term (.factor (.unary hread.derives)))
  rw [parse, tokens_of_spells hread.lexemes.spells]
  show build symbols (Tree.parse ts) n = _
  rw [htree, hbuild]

end Print

/-! ## Floats -/

/-- The text of the float is read as the float. -/
def ReadsBack (x : Float) : Prop :=
  readNumber (Numeral.plain x).toList = .ok (.number x)

theorem lexemes_literal {cs : List Char} {t : Token Float} (h : Decimal.IsLiteral cs)
    (hread : readNumber cs = .ok t) : Lexemes cs [t] := by
  obtain ⟨⟨c, hc, hdigit⟩, hall⟩ := h
  obtain ⟨lexeme, rfl⟩ := List.head?_eq_some_iff.1 hc
  refine .number (by simp [startsNumber, hdigit]) (fun d hd => ?_) hread
  rcases hall d (List.mem_cons_of_mem _ hd) with hd | rfl
  · simp [isNumberChar, hd]
  · rfl

theorem legible_of_readsBack {x : Float} (h : x.isFinite = true) (hread : ReadsBack x.abs) :
    Legible x := by
  have hliteral : Lexemes (Numeral.plain x.abs).toList [.number x.abs] :=
    lexemes_literal
      (Decimal.isLiteral_plain (Binary64.isFinite_abs h) (Binary64.signOf_abs h)) hread
  cases hs : Binary64.signOf x with
  | positive =>
    rw [Binary64.abs_eq h hs] at hliteral
    exact .plain hliteral
  | negative =>
    refine .negative x.abs ?_ (Binary64.neg_abs h hs)
    have htext : Numeral.plain x = "-" ++ Numeral.plain x.abs :=
      Binary64.floatText_of_negative Decimal.plainLayout h hs
    rw [htext, String.toList_append]
    exact hliteral.sign rfl

/-- The text of a scalar expression is read as the expression, up to the identities of its
operations, if every number in it is finite and the text of its absolute value is read back. -/
theorem parse_text {symbols : List (Expr Float)} {e : Expr Float} {n : Nat}
    (hsymbols : Named symbols) (he : Composed symbols e)
    (hfinite : ∀ y, e.Reaches y → ∀ a, y.constant? = some [a] → a.isFinite = true)
    (hread : ∀ y, e.Reaches y → ∀ a, y.constant? = some [a] → ReadsBack a.abs) :
    ∃ e' n', parse e.text symbols n = .ok (e', n') ∧ Alike e e' :=
  parse_text_of_legible hsymbols he fun y hy a ha =>
    legible_of_readsBack (hfinite y hy a ha) (hread y hy a ha)

/-- The negation of a product with a negative number. -/
theorem parse_text_product :
    let x : Expr Float := .node 0 (.symbol "x") [] .scalar []
    let c : Expr Float := .node 1 (.constant [-3.5]) [] .scalar []
    let e : Expr Float := .node 3 (.unary .neg)
      [.node 2 (.binary .mul .none) [c, x] .scalar []] .scalar []
    ∃ e' n', parse e.text [x] 4 = .ok (e', n') ∧ Alike e e' := by
  intro x c e
  have hmul : Expr.binary .mul c x 2 = .ok (.node 2 (.binary .mul .none) [c, x] .scalar [], 3) :=
    rfl
  have hneg : Expr.unary .neg (.node 2 (.binary .mul .none) [c, x] .scalar []) 3 = .ok (e, 4) := rfl
  have he : Composed [x] e :=
    .unary (.binary (.scalar (-3.5) 1) (.symbol (List.mem_singleton_self x)) hmul) hneg
  have hconstants (y : Expr Float) (hy : e.Reaches y) (a : Float) (ha : y.constant? = some [a]) :
      a = -3.5 := by
    have hmem : y ∈ {z : Expr Float | z = e ∨ z ∈ e.deps ∨ z = c ∨ z = x} := by
      refine hy.mem ?_ (.inl rfl)
      rintro z (rfl | hz | rfl | rfl) d hd
      · exact .inr (.inl hd)
      · obtain rfl := List.mem_singleton.1 hz
        simpa [Expr.deps] using Or.inr (Or.inr hd)
      · cases hd
      · cases hd
    rcases hmem with rfl | hz | rfl | rfl
    · cases ha
    · obtain rfl := List.mem_singleton.1 hz
      cases ha
    · cases ha
      rfl
    · cases ha
  refine parse_text ⟨?_, List.nodup_singleton _⟩ he ?_ ?_
  · intro s hs
    exact ⟨0, "x", List.mem_singleton.1 hs, isName_of_isAlpha rfl rfl⟩
  · intro y hy a ha
    rw [hconstants y hy a ha]
    decide +kernel
  · intro y hy a ha
    have hplain : Numeral.plain (-3.5 : Float).abs = "3.5" := by decide +kernel
    rw [hconstants y hy a ha, ReadsBack, hplain]
    rfl

/-- A quotient of finite numbers may be infinite, and infinity is read as a name. -/
theorem parse_text_infinite :
    let e : Expr Float := .node 2 (.constant [1.0 / 0.0]) [] .scalar []
    Expr.binary .div (Expr.scalar 1.0 0).1 (Expr.scalar 0.0 1).1 2 = .ok (e, 3) ∧
      (1.0 : Float).isFinite = true ∧ (0.0 : Float).isFinite = true ∧
      parse e.text ([] : List (Expr Float)) 3 = .error (.unknownVariable "inf") := by
  intro e
  refine ⟨rfl, by decide +kernel, by decide +kernel, ?_⟩
  have htext : e.text = "inf" := by
    have hplain : Numeral.plain ((1.0 : Float) / 0.0) = "inf" := by decide +kernel
    rw [text_constant, hplain]
  have hname : Lexemes "inf".toList ([.name "inf"] : List (Token Float)) :=
    lexemes_name (isName_of_isAlpha rfl rfl)
  rw [htext, parse, tokens_of_spells hname.spells]
  rfl

end DiffGraph.Formula
