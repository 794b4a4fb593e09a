import Mathlib
import DiffGraph.Proofs.Function.Layout
import DiffGraph.Proofs.Graph.Built

/-!
# Free symbols

A depth first traversal comes to a shared node once for every use
(`Expr.preorder`). The sort adds the name of a symbol at its first mention, and
never again, unless the symbol has its slot from the inputs (`Sorter.meets_visit`).
So compiling accepts functions of symbols whose outputs reach no other symbol,
and else it names the symbols that are missing in the order of their first
mention (`Function.compile_cases`).
-/

namespace DiffGraph

/-- The list mentions `x`, and `y`, if at all, only later. -/
def MentionsBefore {β : Type} (order : List β) (x y : β) : Prop :=
  ∃ seen rest, order = seen ++ x :: rest ∧ y ∉ seen ∧ y ≠ x

/-- The members of a list with a property, each of them once and in the order of their first
mention. -/
structure Firsts {β : Type} (p : β → Prop) (order firsts : List β) : Prop where
  mem : ∀ x, x ∈ firsts ↔ x ∈ order ∧ p x
  ordered : firsts.Pairwise (MentionsBefore order)

section Firsts

variable {β : Type} {p q : β → Prop} {order more firsts others : List β} {x y : β}

theorem MentionsBefore.ne (h : MentionsBefore order x y) : x ≠ y := by
  obtain ⟨-, -, -, -, hne⟩ := h
  exact hne.symm

theorem MentionsBefore.append (h : MentionsBefore order x y) (more : List β) :
    MentionsBefore (order ++ more) x y := by
  obtain ⟨seen, rest, rfl, hy, hne⟩ := h
  exact ⟨seen, rest ++ more, by simp, hy, hne⟩

theorem MentionsBefore.prepend (h : MentionsBefore more x y) (hy : y ∉ order) :
    MentionsBefore (order ++ more) x y := by
  obtain ⟨seen, rest, rfl, hseen, hne⟩ := h
  exact ⟨order ++ seen, rest, by simp, by simp [hy, hseen], hne⟩

theorem mentionsBefore_of_mem (hx : x ∈ order) (hy : y ∉ order) (more : List β) :
    MentionsBefore (order ++ more) x y := by
  obtain ⟨seen, rest, rfl⟩ := List.append_of_mem hx
  simp only [List.mem_append, List.mem_cons, not_or] at hy
  exact ⟨seen, rest ++ more, by simp, hy.1, hy.2.1⟩

theorem MentionsBefore.asymm (hxy : MentionsBefore order x y) : ¬ MentionsBefore order y x := by
  obtain ⟨seen, rest, rfl, hy, hne⟩ := hxy
  rintro ⟨seen', rest', heq, hx, -⟩
  -- the shorter of both parts lies in the longer one, and its end is mentioned there
  rcases List.append_eq_append_iff.1 heq with ⟨between, rfl, hend⟩ | ⟨between, rfl, hend⟩
  · cases between with
    | nil => exact hne (List.cons_eq_cons.1 hend.symm).1
    | cons z zs => simp_all
  · cases between with
    | nil => exact hne (List.cons_eq_cons.1 hend).1
    | cons z zs => simp_all

namespace Firsts

theorem congr (h : Firsts p order firsts) (hpq : ∀ x ∈ order, p x ↔ q x) :
    Firsts q order firsts where
  mem x := (h.mem x).trans (and_congr_right (hpq x))
  ordered := h.ordered

theorem nodup (h : Firsts p order firsts) : firsts.Nodup :=
  h.ordered.imp MentionsBefore.ne

theorem unique (h : Firsts p order firsts) (h' : Firsts p order others) : firsts = others := by
  refine List.Perm.eq_of_pairwise (fun a b _ _ hab hba => (hab.asymm hba).elim) h.ordered
    h'.ordered ?_
  exact (List.perm_ext_iff_of_nodup h.nodup h'.nodup).2 fun x => (h.mem x).trans (h'.mem x).symm

theorem nil (h : ∀ x ∈ order, ¬ p x) : Firsts p order [] where
  mem x := by simpa using h x
  ordered := .nil

theorem singleton (hx : p x) : Firsts p [x] [x] where
  mem y := by
    rw [List.mem_singleton]
    exact ⟨fun h => ⟨h, h ▸ hx⟩, And.left⟩
  ordered := List.pairwise_singleton _ _

theorem cons_of_not (h : Firsts p order firsts) (hx : ¬ p x) : Firsts p (x :: order) firsts where
  mem y := by
    rw [h.mem, List.mem_cons]
    refine ⟨fun hy => ⟨.inr hy.1, hy.2⟩, fun hy => ⟨hy.1.resolve_left ?_, hy.2⟩⟩
    rintro rfl
    exact hx hy.2
  ordered := by
    refine h.ordered.imp_of_mem fun {a b} _ hb hab => ?_
    have hbx : b ∉ [x] := by
      intro hbx
      rw [← List.mem_singleton.1 hbx] at hx
      exact hx ((h.mem b).1 hb).2
    exact hab.prepend hbx

theorem append (h : Firsts p order firsts) (h' : Firsts (fun x => p x ∧ x ∉ order) more others) :
    Firsts p (order ++ more) (firsts ++ others) where
  mem x := by
    rw [List.mem_append, List.mem_append, h.mem, h'.mem]
    by_cases hx : x ∈ order <;> simp [hx]
  ordered := by
    refine List.pairwise_append.2 ⟨h.ordered.imp fun hab => hab.append more, ?_, ?_⟩
    · exact h'.ordered.imp_of_mem fun {a b} _ hb hab => hab.prepend ((h'.mem b).1 hb).2.2
    · exact fun a ha b hb => mentionsBefore_of_mem ((h.mem a).1 ha).1 ((h'.mem b).1 hb).2.2 more

end Firsts

end Firsts

namespace Expr

variable {α : Type} {x : Expr α}

mutual

/-- The nodes as a depth first traversal comes to them, every node before its operands and those
from left to right. A shared node is mentioned for every use. -/
def preorder : Expr α → List (Expr α)
  | .node id op deps pattern others => .node id op deps pattern others :: preorderAll deps

def preorderAll : List (Expr α) → List (Expr α)
  | [] => []
  | e :: es => preorder e ++ preorderAll es

end

theorem preorder_eq (e : Expr α) : e.preorder = e :: preorderAll e.deps := by
  cases e
  rw [preorder]
  rfl

theorem mem_preorderAll {es : List (Expr α)} : x ∈ preorderAll es ↔ ∃ e ∈ es, x ∈ e.preorder := by
  induction es with
  | nil => simp [preorderAll]
  | cons e es ih => simp [preorderAll, ih]

/-- The traversal comes to everything that the expression is built from. -/
theorem mem_preorder (e : Expr α) : x ∈ e.preorder ↔ e.Reaches x := by
  induction e using Expr.induction with
  | step e ih =>
    rw [preorder_eq, List.mem_cons, mem_preorderAll]
    constructor
    · rintro (rfl | ⟨d, hd, hx⟩)
      · exact .refl x
      · exact .dep hd ((ih d hd).1 hx)
    · rintro (_ | ⟨hd, hx⟩)
      · exact .inl rfl
      · exact .inr ⟨_, hd, (ih _ hd).2 hx⟩

end Expr

open DiffGraph.Expr (name? isSymbol preorderAll preorder_eq mem_preorder mem_preorderAll)

namespace Sorter

variable {α : Type} {s s' s'' : Sorter α} {e x : Expr α} {S : Set (Expr α)}
  {order more : List (Expr α)}

theorem free_place_of_not_isSymbol (h : e.isSymbol = false) : (s.place e).free = s.free := by
  unfold place require
  split
  · rename_i hop
    simp [isSymbol, name?, hop] at h
  · dsimp only
    split <;> rfl
  · rfl

/-- With a node the sorter knows its operands. -/
def Closed (S : Set (Expr α)) (s : Sorter α) : Prop :=
  ∀ e ∈ S, s.knows e = true → ∀ d ∈ e.deps, s.knows d = true

theorem Closed.reaches (hS : IsDag S) (h : s.Closed S) (he : e ∈ S) (hk : s.knows e = true)
    (hx : e.Reaches x) : s.knows x = true := by
  have hmem := hx.mem (T := {y | y ∈ S ∧ s.knows y = true})
    (fun y hy d hd => ⟨hS.closed y hy.1 d hd, h y hy.1 hy.2 d hd⟩) ⟨he, hk⟩
  exact hmem.2

/-- What coming to the nodes of a traversal adds to the sorter. -/
structure Meets (S : Set (Expr α)) (s s' : Sorter α) (order : List (Expr α)) : Prop where
  closed : s'.Closed S
  knows : ∀ x ∈ S, s'.knows x = true ↔ s.knows x = true ∨ x ∈ order
  free : ∃ symbols names,
    Firsts (fun x => x.isSymbol = true ∧ ¬ s.knows x = true) order symbols ∧
      symbols.map name? = names.map some ∧ s'.free.toList = s.free.toList ++ names

theorem Meets.of_known (hclosed : s.Closed S) (h : ∀ x ∈ order, s.knows x = true) :
    Meets S s s order where
  closed := hclosed
  knows x _ := ⟨.inl, fun hx => hx.elim id (h x)⟩
  free := ⟨[], [], .nil fun x hx hp => hp.2 (h x hx), rfl, by simp⟩

theorem Meets.append (h : Meets S s s' order) (h' : Meets S s' s'' more)
    (hmore : ∀ x ∈ more, x ∈ S) :
    Meets S s s'' (order ++ more) where
  closed := h'.closed
  knows x hx := by rw [h'.knows x hx, h.knows x hx, List.mem_append, or_assoc]
  free := by
    obtain ⟨symbols, names, hfirsts, hnames, hfree⟩ := h.free
    obtain ⟨symbols', names', hfirsts', hnames', hfree'⟩ := h'.free
    refine ⟨symbols ++ symbols', names ++ names', hfirsts.append (hfirsts'.congr fun x hx => ?_),
      by simp [hnames, hnames'], by rw [hfree', hfree, List.append_assoc]⟩
    rw [h.knows x (hmore x hx), not_or, and_assoc]

theorem Meets.place (h : Meets S s s' (preorderAll e.deps)) (hS : IsDag S) (he : e ∈ S)
    (hsym : e.isSymbol = false) : Meets S s (s'.place e) e.preorder where
  closed x hx hk d hd := by
    have hdS := hS.closed x hx d hd
    rcases knows_place.1 hk with hid | hk
    · obtain rfl := hS.unique x hx e he hid
      refine knows_place.2 (.inr ((h.knows d hdS).2 (.inr ?_)))
      exact mem_preorderAll.2 ⟨d, hd, (mem_preorder d).2 (.refl d)⟩
    · exact knows_place.2 (.inr (h.closed x hx hk d hd))
  knows x hx := by
    rw [knows_place, h.knows x hx, preorder_eq, List.mem_cons]
    have hid : x.id = e.id ↔ x = e := ⟨hS.unique x hx e he, congrArg Expr.id⟩
    rw [hid]
    exact or_left_comm
  free := by
    obtain ⟨symbols, names, hfirsts, hnames, hfree⟩ := h.free
    refine ⟨symbols, names, ?_, hnames, by rw [free_place_of_not_isSymbol hsym, hfree]⟩
    rw [preorder_eq]
    exact hfirsts.cons_of_not fun hp => by simp [hsym] at hp

theorem Meets.symbol {id : Nat} {name : String} {p : Pattern} (hS : IsDag S)
    (he : .node id (.symbol name) [] p [] ∈ S) (hclosed : s.Closed S)
    (hnew : ¬ s.knows (.node id (.symbol name) [] p []) = true) :
    Meets S s (s.place (.node id (.symbol name) [] p []))
      (Expr.preorder (.node id (.symbol name) [] p [])) where
  closed x hx hk d hd := by
    rcases knows_place.1 hk with hid | hk
    · obtain rfl := hS.unique x hx _ he hid
      cases hd
    · exact knows_place.2 (.inr (hclosed x hx hk d hd))
  knows x hx := by
    rw [knows_place, preorder_eq, or_comm]
    refine or_congr_right ⟨fun hid => ?_, fun hmem => ?_⟩
    · rw [hS.unique x hx _ he hid]
      exact List.mem_cons_self
    · rw [List.mem_singleton.1 hmem]
  free := ⟨[_], [name], .singleton ⟨rfl, hnew⟩, rfl, by simp [Sorter.place, Expr.op, allocate]⟩

mutual

/-- A visit comes to the nodes of the expression; what it has known before adds nothing. -/
theorem meets_visit (hS : IsDag S) :
    ∀ (e : Expr α) (s : Sorter α), e ∈ S → s.Closed S → Meets S s (visit e s) e.preorder
  | .node id op deps pattern others, s, he, hclosed => by
    rw [visit]
    split
    · rename_i hk
      exact .of_known hclosed fun x hx =>
        hclosed.reaches hS he hk ((mem_preorder _).1 hx)
    · rename_i hk
      cases hsym : (Expr.node id op deps pattern others).isSymbol with
      | true =>
        obtain ⟨_, _, _, heq⟩ := (hS.wellFormed _ he).exists_of_isSymbol hsym
        cases heq
        exact .symbol hS he hclosed hk
      | false => exact (meets_visitAll hS deps s (hS.closed _ he) hclosed).place hS he hsym

theorem meets_visitAll (hS : IsDag S) :
    ∀ (es : List (Expr α)) (s : Sorter α), (∀ e ∈ es, e ∈ S) → s.Closed S →
      Meets S s (visitAll es s) (preorderAll es)
  | [], s, _, hclosed => .of_known hclosed (by simp [preorderAll])
  | e :: es, s, hes, hclosed => by
    have hfirst := meets_visit hS e s (hes e (by simp)) hclosed
    have hrest := meets_visitAll hS es _ (fun d hd => hes d (by simp [hd])) hfirst.closed
    refine hfirst.append hrest fun x hx => ?_
    obtain ⟨d, hd, hx⟩ := mem_preorderAll.1 hx
    exact ((mem_preorder d).1 hx).mem hS.closed (hes d (by simp [hd]))

end

end Sorter

namespace Function

variable {α : Type} {inputs outputs : List (Expr α)}

/-- The symbols that the outputs need and that are no inputs, in the order in which a depth first
traversal of the outputs comes to them. -/
def FreeSymbols (inputs outputs free : List (Expr α)) : Prop :=
  Firsts (fun x => x.isSymbol = true ∧ x ∉ inputs) (preorderAll outputs) free

theorem FreeSymbols.mem_iff {free : List (Expr α)} (h : FreeSymbols inputs outputs free)
    (x : Expr α) :
    x ∈ free ↔ (∃ o ∈ outputs, o.Reaches x) ∧ x.isSymbol = true ∧ x ∉ inputs := by
  rw [h.mem, mem_preorderAll]
  simp only [mem_preorder]

theorem free_visitAll (hS : IsDag (nodesOf (inputs ++ outputs)))
    (hsym : ∀ x ∈ inputs, x.isSymbol = true) :
    ∃ free names, FreeSymbols inputs outputs free ∧ free.map name? = names.map some ∧
      (Sorter.visitAll outputs (inputs.foldl Sorter.addInput .empty)).free.toList = names := by
  have hin : ∀ x ∈ inputs, x ∈ nodesOf (inputs ++ outputs) ∧ x.isSymbol = true :=
    fun x hx => ⟨mem_nodesOf (List.mem_append_left _ hx), hsym x hx⟩
  have hout : ∀ o ∈ outputs, o ∈ nodesOf (inputs ++ outputs) :=
    fun o ho => mem_nodesOf (List.mem_append_right _ ho)
  have hsymbol : ∀ x ∈ inputs, ∃ id name p, x = .node id (.symbol name) [] p [] :=
    fun x hx => (hS.wellFormed x (hin x hx).1).exists_of_isSymbol (hsym x hx)
  have hclosed : (inputs.foldl Sorter.addInput .empty).Closed (nodesOf (inputs ++ outputs)) := by
    intro x hx hk d hd
    obtain ⟨id, name, p, rfl⟩ := hsymbol x ((Sorter.known_addInputs hS hin hx).1.1 hk)
    cases hd
  obtain ⟨free, names, hfirsts, hnames, hfree⟩ :=
    (Sorter.meets_visitAll hS outputs _ hout hclosed).free
  refine ⟨free, names, hfirsts.congr fun x hx => ?_, hnames, ?_⟩
  · obtain ⟨o, ho, hx⟩ := mem_preorderAll.1 hx
    have hxS := ((mem_preorder o).1 hx).mem hS.closed (hout o ho)
    rw [(Sorter.known_addInputs hS hin hxS).1]
  · have hstart : (inputs.foldl Sorter.addInput .empty).free = #[] := by
      refine (Sorter.addInputs_spec inputs fun x hx => ?_).2.2.2.1
      obtain ⟨id, name, p, rfl⟩ := hsymbol x hx
      rfl
    rw [hfree, hstart]
    rfl

/-- Compiling refuses the first input that is no symbol. Functions of symbols compile unless they
have free symbols, and then the answer names these, every one once, in the order in which a depth
first traversal of the outputs comes to them. -/
theorem compile_cases (hS : IsDag (nodesOf (inputs ++ outputs))) (name : String) :
    (∀ before x after, inputs = before ++ x :: after → (∀ y ∈ before, y.isSymbol = true) →
      x.isSymbol = false →
        compile name inputs outputs = .error (.nonSymbolicInput before.length)) ∧
    ((∀ x ∈ inputs, x.isSymbol = true) →
      ∃ free names, FreeSymbols inputs outputs free ∧ free.map name? = names.map some ∧
        (free ≠ [] → compile name inputs outputs = .error (.freeVariables names)) ∧
        (free = [] → ∃ f, compile name inputs outputs = .ok f)) := by
  refine ⟨fun before x after heq hbefore hx => ?_, fun hsym => ?_⟩
  · have hfind : inputs.findIdx? (fun x => !x.isSymbol) = some before.length := by
      rw [heq, List.findIdx?_append, List.findIdx?_eq_none_iff.2 fun y hy => by simp [hbefore y hy]]
      simp [List.findIdx?_cons, hx]
    simp [compile, placeInputs, hfind, bind, Except.bind]
  · obtain ⟨free, names, hfirsts, hnames, hfree⟩ := free_visitAll hS hsym
    have hlength : free.length = names.length := by simpa using congrArg List.length hnames
    have hsize : (Sorter.visitAll outputs (inputs.foldl Sorter.addInput .empty)).free.size =
        free.length := by
      rw [← Array.length_toList, hfree, hlength]
    refine ⟨free, names, hfirsts, hnames, fun hne => ?_, fun heq => ?_⟩
    · simp [compile, placeInputs_eq hsym, bind, Except.bind, hsize, hne, hfree, throw, throwThe,
        MonadExceptOf.throw]
    · simp [compile, placeInputs_eq hsym, bind, Except.bind, hsize, heq, pure, Except.pure]

/-- Three symbols, two of them of one name, and a sum that is used twice. -/
theorem compile_cases_namesakes :
    let a : Expr Rat := .node 0 (.symbol "x") [] .scalar []
    let b : Expr Rat := .node 1 (.symbol "x") [] .scalar []
    let c : Expr Rat := .node 2 (.symbol "y") [] .scalar []
    let s : Expr Rat := .node 3 (.binary .add .none) [c, b] .scalar []
    let p : Expr Rat := .node 4 (.binary .mul .none) [s, s] .scalar []
    (∃ free, FreeSymbols [a] [p, b] free ∧ free.map name? = [some "y", some "x"]) ∧
      compile "f" [a] [p, b] = .error (.freeVariables ["y", "x"]) ∧
      compile "f" [a, s] [p, b] = .error (.nonSymbolicInput 1) ∧
      ∃ f, compile "f" [b, c] [p, b] = .ok f := by
  intro a b c s p
  have ha : Built 1 [a] := .symbol "x" _ .start
  have hb : Built 2 [b, a] := .symbol "x" _ ha
  have hc : Built 3 [c, b, a] := .symbol "y" _ hb
  have hs : Built 4 [s, c, b, a] :=
    .make (.binary .add c b) hc (by simp [Construction.operands]) rfl
  have hp : Built 5 [p, s, c, b, a] :=
    .make (.binary .mul s s) hs (by simp [Construction.operands]) rfl
  have hdag {pool : List (Expr Rat)} (h : pool ⊆ [p, s, c, b, a]) : IsDag (nodesOf pool) :=
    hp.isGraph.1.isDag.nodesOf fun e he => mem_nodesOf (h he)
  have hfree : compile "f" [a] [p, b] = .error (.freeVariables ["y", "x"]) := by cbv
  refine ⟨?_, hfree, ?_, ?_⟩
  · obtain ⟨free, names, hfirsts, hnames, herror, -⟩ :=
      (compile_cases (hdag (by simp) : IsDag (nodesOf ([a] ++ [p, b]))) "f").2
        (by simp [a, Expr.isSymbol, name?, Expr.op])
    have hmem : b ∈ free := (hfirsts.mem_iff b).2
      ⟨⟨b, by simp, .refl b⟩, rfl, by simp [a, b]⟩
    have hcompile := herror (List.ne_nil_of_mem hmem)
    rw [hfree, Except.error.injEq, GraphError.freeVariables.injEq] at hcompile
    exact ⟨free, hfirsts, by rw [hnames, ← hcompile]; rfl⟩
  · exact (compile_cases (hdag (by simp) : IsDag (nodesOf ([a, s] ++ [p, b]))) "f").1 [a] s [] rfl
      (by simp [a, Expr.isSymbol, name?, Expr.op]) rfl
  · obtain ⟨free, -, hfirsts, -, -, hok⟩ :=
      (compile_cases (hdag (by simp) : IsDag (nodesOf ([b, c] ++ [p, b]))) "f").2
        (by simp [b, c, Expr.isSymbol, name?, Expr.op])
    refine hok (List.eq_nil_iff_forall_not_mem.2 fun x hx => ?_)
    obtain ⟨hmem, hsym, hnot⟩ := (hfirsts.mem x).1 hx
    simp only [preorderAll, Expr.preorder, p, s, b, c, List.mem_append, List.mem_cons] at hmem hnot
    rcases hmem with ((rfl | h) | h) <;> simp_all [Expr.isSymbol, name?, Expr.op]

end Function

end DiffGraph
