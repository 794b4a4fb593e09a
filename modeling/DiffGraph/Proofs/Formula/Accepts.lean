import Mathlib
import DiffGraph.Proofs.Formula.Infix
import DiffGraph.Proofs.Formula.Parser
import DiffGraph.Proofs.Formula.Print
import DiffGraph.Proofs.Formula.Scan

/-!
# The formulas that are accepted

Over 1x1 symbols a text is accepted exactly if it is made of lexemes whose tokens
are an expression of the grammar, and every name, function and index in it is known
(`parse_accepts`). The operations themselves never fail then: whatever is built of
scalars is a scalar (`Makes`).
-/

namespace DiffGraph.Formula

variable {α : Type} [OrderedScalar α] {symbols : List (Expr α)}

/-- The names, functions and indices of a tree are known; the only index of a scalar is zero. -/
def Tree.Resolves (symbols : List (Expr α)) : Tree α → Prop
  | .number _ => True
  | .name n => ∃ s ∈ symbols, s.name? = some n
  | .entry n i => (∃ s ∈ symbols, s.name? = some n) ∧ i = 0
  | .call f arg => f ∈ ["sin", "cos", "exp", "log", "ln"] ∧ arg.Resolves symbols
  | .neg t | .power t _ => t.Resolves symbols
  | .binary _ left right => left.Resolves symbols ∧ right.Resolves symbols
  | .broken _ | .abandoned .. => False

omit [OrderedScalar α] in
theorem Error.IsSyntax.ne_graph {e : Error α} (h : e.IsSyntax) (g : GraphError) :
    e ≠ .graph g := by
  rintro rfl
  exact h

omit [OrderedScalar α] in
theorem Tree.Resolves.errors {t : Tree α} (h : t.Resolves symbols) : t.errors = [] := by
  induction t with
  | number | name | entry => rfl
  | call f arg ih => exact ih h.2
  | neg t ih => exact ih h
  | power t k ih => exact ih h
  | binary op left right ihl ihr => rw [Tree.errors, ihl h.1, ihr h.2, List.append_nil]
  | broken | abandoned => exact h.elim

/-! ## Operations on scalars -/

/-- The step always gives a scalar expression over the symbols. -/
def Makes (symbols : List (Expr α)) (step : Build (Expr α)) : Prop :=
  ∀ n, ∃ x n', step n = .ok (x, n') ∧ Normal symbols x

section Makes

variable {x y : Expr α}

theorem Makes.pure (hx : Normal symbols x) : Makes symbols (pure x) :=
  fun n => ⟨x, n, rfl, hx⟩

theorem Makes.bind {step : Build (Expr α)} {next : Expr α → Build (Expr α)}
    (h : Makes symbols step) (hnext : ∀ x, Normal symbols x → Makes symbols (next x)) :
    Makes symbols (step >>= next) := by
  intro n
  obtain ⟨x, n', hstep, hx⟩ := h n
  obtain ⟨y, n'', hy, hnormal⟩ := hnext x hx n'
  refine ⟨y, n'', ?_, hnormal⟩
  show (step n >>= fun p => next p.1 p.2) = _
  rw [hstep]
  exact hy

theorem makes_scalar (a : α) : Makes symbols (liftM (Expr.scalar a)) :=
  fun n => ⟨_, _, rfl, .constant n a⟩

theorem makes_neg (hx : Normal symbols x) : Makes symbols (liftM (Expr.neg x)) :=
  fun n => ⟨_, _, rfl, hx.unaryNode .neg n⟩

theorem makes_unary (op : UnaryOp) (hx : Normal symbols x) : Makes symbols (Expr.unary op x) := by
  rw [unary_scalar op hx.pattern]
  exact fun n => ⟨_, _, rfl, hx.unaryNode op n⟩

theorem makes_binary (op : BinaryOp) (hx : Normal symbols x) (hy : Normal symbols y) :
    Makes symbols (Expr.binary op x y) := by
  unfold Expr.binary
  rw [align_scalar op hx.pattern hy.pattern, pure_bind]
  exact fun n => ⟨_, _, rfl, hx.binaryNode hy op n⟩

theorem makes_powerFrom (hx : Normal symbols x) (k : Nat) (hy : Normal symbols y) :
    Makes symbols (powerFrom x y k) := by
  induction k generalizing y with
  | zero => exact .pure hy
  | succ k ih => exact (makes_binary .mul hy hx).bind fun _ => ih

theorem makes_power (hx : Normal symbols x) (k : Nat) : Makes symbols (power x k) := by
  unfold power
  rw [hx.pattern]
  exact (makes_scalar 1).bind fun _ => makes_powerFrom hx k

theorem vertsplit_scalar (hx : x.pattern = .scalar) :
    x.vertsplit (List.range 2) = pure [x] := by
  have hblocks : Pattern.scalar.vertsplit (List.range 2) = .ok [Pattern.scalar.rowBlock 0 1] := rfl
  unfold Expr.vertsplit
  rw [hx, if_pos (show Pattern.scalar.isSingleColumn = true from rfl), hblocks]
  rfl

end Makes

/-! ## Building -/

/-- A scalar expression over the symbols if the condition holds, and otherwise an error of the
formula itself. -/
def Settled (symbols : List (Expr α)) (P : Prop) : Except (Error α) (Expr α × Nat) → Prop
  | .ok (x, _) => P ∧ Normal symbols x
  | .error e => ¬P ∧ ∀ g, e ≠ .graph g

/-- The step succeeds with a scalar expression exactly if the condition holds. -/
def Settles (symbols : List (Expr α)) (P : Prop) (step : BuildFormula α (Expr α)) : Prop :=
  ∀ n, Settled symbols P (step n)

section Settles

variable {P Q : Prop} {step : BuildFormula α (Expr α)} {x : Expr α}

theorem Settles.bind {next : Expr α → BuildFormula α (Expr α)} (h : Settles symbols P step)
    (hnext : ∀ x, Normal symbols x → Settles symbols Q (next x)) :
    Settles symbols (P ∧ Q) (step >>= next) := by
  intro n
  have hstep := h n
  show Settled symbols (P ∧ Q) (step n >>= fun p => next p.1 p.2)
  cases hrun : step n with
  | error e =>
    rw [hrun] at hstep
    exact ⟨fun hPQ => hstep.1 hPQ.1, hstep.2⟩
  | ok out =>
    rw [hrun] at hstep
    have hout := hnext out.1 hstep.2 out.2
    show Settled symbols (P ∧ Q) (next out.1 out.2)
    cases hrun' : next out.1 out.2 with
    | error e =>
      rw [hrun'] at hout
      exact ⟨fun hPQ => hout.1 hPQ.2, hout.2⟩
    | ok out' =>
      rw [hrun'] at hout
      exact ⟨⟨hstep.1, hout.1⟩, hout.2⟩

theorem Settles.iff (h : Settles symbols P step) (hPQ : P ↔ Q) : Settles symbols Q step :=
  propext hPQ ▸ h

theorem settles_pure (hx : Normal symbols x) : Settles symbols True (pure x) :=
  fun _ => ⟨trivial, hx⟩

theorem settles_throw {e : Error α} (he : ∀ g, e ≠ .graph g) :
    Settles symbols False (throw e) :=
  fun _ => ⟨id, he⟩

theorem Makes.settles {step : Build (Expr α)} (h : Makes symbols step) :
    Settles symbols True (onGraph step) := by
  intro n
  obtain ⟨x, n', hstep, hx⟩ := h n
  unfold onGraph
  rw [hstep]
  exact ⟨trivial, hx⟩

theorem lookup_cases (symbols : List (Expr α)) (name : String) :
    (∃ s ∈ symbols, s.name? = some name ∧ lookup symbols name = .ok s) ∨
      (¬∃ s ∈ symbols, s.name? = some name) ∧
        lookup symbols name = .error (.unknownVariable name) := by
  by_cases h : ∃ s ∈ symbols, s.name? = some name
  · obtain ⟨s, hs, hname, hlookup, -⟩ := lookup_eq h
    exact .inl ⟨s, hs, hname, hlookup⟩
  · have hnone : (symbols.find? fun s => s.name? == some name) = none := by
      rw [List.find?_eq_none]
      intro s hs hname
      exact h ⟨s, hs, by simpa using hname⟩
    exact .inr ⟨h, by rw [lookup, hnone]⟩

theorem isSome_function?_iff {f : String} :
    (function? f).isSome = true ↔ f ∈ ["sin", "cos", "exp", "log", "ln"] := by
  unfold function?
  split <;> simp_all

theorem settles_function (f : String) (hx : Normal symbols x) :
    Settles symbols (f ∈ ["sin", "cos", "exp", "log", "ln"])
      (match function? f with
        | some op => onGraph (Expr.unary op x)
        | none => throw (.unknownFunction f)) := by
  rw [← isSome_function?_iff]
  cases function? f with
  | some op => exact (makes_unary op hx).settles.iff (by simp)
  | none => exact (settles_throw (e := .unknownFunction f) (by simp)).iff (by simp)

section Entry

variable {s : Expr α} {name : String} {i n : Nat}

omit [OrderedScalar α] in
theorem shape_scalar (hs : s.pattern = .scalar) : s.shape = (1, 1) :=
  congrArg Pattern.shape hs

theorem entry_zero (hlookup : lookup symbols name = .ok s) (hs : s.pattern = .scalar) :
    entry symbols name 0 = pure s := by
  have hparts : (onGraph (do
      Size.checkLength 1
      s.vertsplit (List.range (1 + 1))) : BuildFormula α (List (Expr α))) = pure [s] := by
    rw [vertsplit_scalar hs]
    rfl
  unfold entry
  rw [hlookup]
  show (do
    let x ← (pure s : BuildFormula α (Expr α))
    _) = _
  simp only [pure_bind, shape_scalar hs]
  rw [if_neg (by decide), hparts]
  rfl

theorem entry_succ (hlookup : lookup symbols name = .ok s) (hs : s.pattern = .scalar) :
    entry symbols name (i + 1) = throw (.indexOutOfRange (i + 1) name (1, 1)) := by
  unfold entry
  rw [hlookup]
  show (do
    let x ← (pure s : BuildFormula α (Expr α))
    _) = _
  simp only [pure_bind, shape_scalar hs]
  rw [if_pos (.inr (Nat.le_add_left 1 i))]
  rfl

theorem entry_error {e : Error α} (hlookup : lookup symbols name = .error e) :
    entry symbols name i = throw e := by
  unfold entry
  rw [hlookup]
  rfl

end Entry

variable (hsymbols : ∀ s ∈ symbols, ∃ id name, s = .node id (.symbol name) [] .scalar [])

include hsymbols

theorem normal_symbol {s : Expr α} (hs : s ∈ symbols) : Normal symbols s := by
  obtain ⟨id, name, rfl⟩ := hsymbols s hs
  exact .symbol hs

theorem settles_name (name : String) :
    Settles symbols (∃ s ∈ symbols, s.name? = some name) (build symbols (.name name)) := by
  intro n
  rw [build]
  rcases lookup_cases symbols name with ⟨s, hs, hname, hlookup⟩ | ⟨hnone, hlookup⟩
  · rw [hlookup]
    exact ⟨⟨s, hs, hname⟩, normal_symbol hsymbols hs⟩
  · rw [hlookup]
    exact ⟨hnone, by simp⟩

theorem settles_entry (name : String) (i : Nat) :
    Settles symbols ((∃ s ∈ symbols, s.name? = some name) ∧ i = 0)
      (build symbols (.entry name i)) := by
  rw [build]
  rcases lookup_cases symbols name with ⟨s, hs, hname, hlookup⟩ | ⟨hnone, hlookup⟩
  · have hnormal := normal_symbol hsymbols hs
    cases i with
    | zero =>
      rw [entry_zero hlookup hnormal.pattern]
      exact (settles_pure hnormal).iff (iff_of_true trivial ⟨⟨s, hs, hname⟩, rfl⟩)
    | succ i =>
      rw [entry_succ hlookup hnormal.pattern]
      exact (settles_throw (by simp)).iff (iff_of_false id fun h => Nat.succ_ne_zero i h.2)
  · rw [entry_error hlookup]
    exact (settles_throw (by simp)).iff (iff_of_false id fun h => hnone h.1)

/-- A tree whose errors are syntax errors is built exactly if everything in it is resolved. -/
theorem settles_build (t : Tree α) (ht : ∀ e ∈ t.errors, e.IsSyntax) :
    Settles symbols (t.Resolves symbols) (build symbols t) := by
  induction t with
  | number x => exact (makes_scalar x).settles
  | name n => exact settles_name hsymbols n
  | entry n i => exact settles_entry hsymbols n i
  | call f arg ih =>
    have hcall := (ih ht).bind fun x hx => settles_function f hx
    exact hcall.iff and_comm
  | neg t ih =>
    exact ((ih ht).bind fun x hx => (makes_neg hx).settles).iff (and_iff_left trivial)
  | binary op left right ihl ihr =>
    have hl := ihl fun e he => ht e (List.mem_append_left _ he)
    have hr := ihr fun e he => ht e (List.mem_append_right _ he)
    have hbinary := hl.bind fun x hx => hr.bind fun y hy => (makes_binary op hx hy).settles
    exact hbinary.iff (by rw [and_true]; rfl)
  | power base k ih =>
    exact ((ih ht).bind fun x hx => (makes_power hx k).settles).iff (and_iff_left trivial)
  | broken e => exact settles_throw (ht e (List.mem_singleton_self e)).ne_graph
  | abandoned t e ih =>
    have htree := ih fun e' he => ht e' (List.mem_append_left _ he)
    have he := ht e (List.mem_append_right _ (List.mem_singleton_self e))
    exact (htree.bind fun _ _ => settles_throw he.ne_graph).iff (and_iff_right_of_imp False.elim)

theorem settles_parse (input : String) :
    Settles symbols
      (∃ ts t, Spells input.toList ts ∧ Derives .expression ts t ∧ t.Resolves symbols)
      (parse input symbols) := by
  unfold parse
  cases htokens : tokens (α := α) input.toList with
  | error e =>
    have hscanned := scanned_tokens (α := α) input.toList
    rw [htokens] at hscanned
    refine (settles_throw hscanned).iff (iff_of_false id ?_)
    rintro ⟨ts, t, hts, -⟩
    rw [tokens_of_spells hts] at htokens
    cases htokens
  | ok ts =>
    have hexplains := explains_parse ts
    -- A text spells one list of tokens, and a list of tokens has one tree: nothing is lost by
    -- looking at what the tokenizer and the parser found.
    refine (settles_build hsymbols (Tree.parse ts) hexplains.isSyntax).iff ⟨fun h => ?_, ?_⟩
    · exact ⟨ts, _, tokens_eq_ok_iff.1 htokens, hexplains.derives h.errors, h⟩
    · rintro ⟨ts', t, hts', ht, hresolves⟩
      rw [tokens_of_spells hts'] at htokens
      obtain rfl := Except.ok.inj htokens
      rwa [parse_of_derives ht]

/-- Over 1x1 symbols the texts of the grammar are accepted and no others: texts made of lexemes
whose tokens are an expression in which every name, function and index is known. What is wrong with
another text is an error of the formula and never of an operation, let alone a misuse of one. The
numbers are the numerals among the runs of digits, points and `e`. -/
theorem parse_accepts (input : String) (n : Nat) :
    ((∃ x n', parse input symbols n = .ok (x, n')) ↔
        ∃ ts t, Spells input.toList ts ∧ Derives .expression ts t ∧ t.Resolves symbols) ∧
      (∀ g, parse input symbols n ≠ .error (.graph g)) ∧
      ∀ literal, (∃ t : Token α, readNumber literal = .ok t) ↔ Decimal.IsNumeral literal := by
  have hsettled := settles_parse hsymbols input n
  refine ⟨?_, ?_, fun literal => exists_readNumber_iff⟩
  · cases hparse : parse input symbols n with
    | ok out =>
      rw [hparse] at hsettled
      exact iff_of_true ⟨out.1, out.2, rfl⟩ hsettled.1
    | error e =>
      rw [hparse] at hsettled
      exact iff_of_false (by simp) hsettled.1
  · intro g hg
    rw [hg] at hsettled
    exact hsettled.2 g rfl

end Settles

/-- The square of the negated entry of a scalar. -/
theorem parse_accepts_square :
    let x : Expr Rat := .node 0 (.symbol "x") [] .scalar []
    (∃ e n', parse "-x[0]^2" [x] 1 = .ok (e, n')) ∧
      ∀ g, parse "-x[0]^2" [x] 1 ≠ .error (.graph g) := by
  intro x
  have hsymbols : ∀ s ∈ [x], ∃ id name, s = .node id (.symbol name) [] .scalar [] :=
    fun s hs => ⟨0, "x", List.mem_singleton.1 hs⟩
  have hlexemes : Lexemes "-x[0]^2".toList [.minus, .name "x", .lbracket,
      .number (OrderedScalar.ofDecimal 0 0 : Rat), .rbracket, .caret,
      .number (OrderedScalar.ofDecimal 2 0)] := by
    have hdigit (c : Char) (n : Nat) (hc : startsNumber c = true)
        (hread : readNumber [c] = .ok (.number (OrderedScalar.ofDecimal n 0 : Rat))) :
        Lexemes [c] [.number (OrderedScalar.ofDecimal n 0 : Rat)] := .number hc (by simp) hread
    have hexponent := Lexemes.nil.append_sign (c := '^') rfl (hdigit '2' 2 rfl rfl)
    have hindex := (hdigit '0' 0 rfl rfl).append_sign (c := ']') rfl hexponent
    have hname := lexemes_name (α := Rat) (@isName_of_isAlpha "x" rfl rfl)
    exact (hname.append_sign (c := '[') rfl hindex).sign rfl
  have hnatural (n : Nat) (h : n < 2 ^ (64 : Nat)) :
      Tree.natural? (OrderedScalar.ofDecimal n 0 : Rat) = some n := by
    rw [ofDecimal_zero, natural?_natCast_rat h]
  have hbase : Derives .unary [.minus, .name "x", .lbracket,
      .number (OrderedScalar.ofDecimal 0 0 : Rat), .rbracket] (.neg (.entry "x" 0)) :=
    .neg (.primary (.entry (hnatural 0 (by norm_num))))
  obtain ⟨haccepts, herror, -⟩ := parse_accepts hsymbols "-x[0]^2" 1
  exact ⟨haccepts.2 ⟨_, _, hlexemes.spells,
    .term (.factor (.power hbase (hnatural 2 (by norm_num)))),
    ⟨x, List.mem_singleton_self x, rfl⟩, rfl⟩, herror⟩

end DiffGraph.Formula
