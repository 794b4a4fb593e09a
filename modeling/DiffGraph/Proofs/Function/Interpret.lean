import Mathlib
import DiffGraph.Proofs.Function.Expand
import DiffGraph.Proofs.Term.Execute

/-!
# Functions on any kind of elements

A function looks at the sizes of its buffers and never into the elements. So
where the operations in `m` look, through `view`, like those on plain elements
(`Interprets`), a node does in `m` what it does on plain elements
(`Interprets.resembles_evaluate`), and so does a whole function, compiled or not
and for arguments of any sizes (`Function.resembles_run`).
-/

namespace DiffGraph

open Element Expr

section Buffers

variable {β γ : Type} {f : β → γ}

theorem forall₂_map_iff {xs : List β} {ys : List γ} :
    List.Forall₂ (fun x y => f x = y) xs ys ↔ xs.map f = ys := by
  rw [← List.forall₂_map_left_iff (R := Eq), List.forall₂_eq_eq_eq]

theorem forall₂_map_map_iff {xss : List (List β)} {yss : List (List γ)} :
    List.Forall₂ (List.Forall₂ fun x y => f x = y) xss yss ↔ xss.map (List.map f) = yss := by
  have hinner : List.Forall₂ (fun x y => f x = y) = fun xs ys => xs.map f = ys := by
    funext xs ys
    exact propext forall₂_map_iff
  rw [hinner, forall₂_map_iff]

end Buffers

variable {m : Type → Type} [Monad m] [LawfulMonad m] {α T V : Type} [Element m α T]
  [Element Id α V] {view : T → V}

abbrev SameBuffer (view : T → V) : List T → List V → Prop :=
  List.Forall₂ fun x y => view x = y

namespace Interprets

omit [Element m α T] [Element Id α V] in
theorem satisfiesM_mapM {β γ : Type} {P : β → γ → Prop} {f : β → m T} {g : γ → Id V} {xs : List β}
    {ys : List γ} (h : List.Forall₂ P xs ys)
    (hf : ∀ x y, P x y → SatisfiesM (fun v => view v = Id.run (g y)) (f x)) :
    SatisfiesM (fun rs => SameBuffer view rs (Id.run (ys.mapM g))) (xs.mapM f) := by
  induction h with
  | nil => exact SatisfiesM.pure .nil
  | cons hxy _ ih =>
    rw [List.mapM_cons, List.mapM_cons]
    exact (hf _ _ hxy).bind fun v hv => ih.bind fun vs hvs => SatisfiesM.pure (.cons hv hvs)

theorem satisfiesM_products (hview : Interprets m view) {ps : List (T × T)} {qs : List (V × V)}
    (h : List.Forall₂ (fun p q => view p.1 = q.1 ∧ view p.2 = q.2) ps qs) {x : T} {y : V}
    (hxy : view x = y) :
    SatisfiesM (fun r => view r = Id.run (qs.foldlM (fun total (x, y) => do
        Element.binary (m := Id) .add total (← Element.binary (m := Id) .mul x y)) y))
      (ps.foldlM (fun total (x, y) => do
        Element.binary (m := m) .add total (← Element.binary (m := m) .mul x y)) x) := by
  induction h generalizing x y with
  | nil => exact SatisfiesM.pure hxy
  | @cons p q _ _ hpq _ ih =>
    rw [List.foldlM_cons, List.foldlM_cons]
    refine SatisfiesM.bind (p := fun r => view r = apply₂ .add y (apply₂ .mul q.1 q.2)) ?_
      fun r hr => ih hr
    refine (hview.binary .mul p.1 p.2).bind fun u hu => (hview.binary .add x u).imp fun {r} hr => ?_
    rw [hr, hxy, hu, hpq.1, hpq.2]

variable [Scalar α]

omit [LawfulMonad m] in
theorem satisfiesM_zero (hview : Interprets m view) :
    SatisfiesM (fun z => view z = Id.run (zeroElement : Id V)) (zeroElement : m T) :=
  hview.ofScalar 0

theorem satisfiesM_fitted (hview : Interprets m view) (k : Nat) {xs : List T} {ys : List V}
    (h : SameBuffer view xs ys) :
    SatisfiesM (fun rs => SameBuffer view rs (Id.run (fitted k ys)))
      (fitted k xs : m (List T)) := by
  unfold fitted
  rw [h.length_eq]
  split
  · exact SatisfiesM.pure (List.forall₂_take k h)
  · exact hview.satisfiesM_zero.bind fun z hz =>
      SatisfiesM.pure (List.rel_append h (rel_replicate (R := fun x y => view x = y) hz _))

theorem satisfiesM_dotProduct (hview : Interprets m view) {xs us : List T} {ys vs : List V}
    (h : SameBuffer view xs ys) (h' : SameBuffer view us vs) :
    SatisfiesM (fun r => view r = Id.run (dotProduct ys vs)) (dotProduct xs us : m T) :=
  hview.satisfiesM_zero.bind fun _ hz => hview.satisfiesM_products (rel_zip h h') hz

theorem rel_firstResult (hview : Interprets m view) (op : Op α) (k : Nat) {args : List (List T)}
    {args' : List (List V)} (h : List.Forall₂ (SameBuffer view) args args') :
    Option.Rel (fun (step : m (List T)) (plain : Id (List V)) =>
        SatisfiesM (fun rs => SameBuffer view rs (Id.run plain)) step)
      (firstResult op k args) (firstResult op k args') := by
  cases op with
  | symbol => exact .some (hview.satisfiesM_fitted k .nil)
  | output => exact .some (hview.satisfiesM_fitted k .nil)
  | split => exact .some (hview.satisfiesM_fitted k .nil)
  | constant nz =>
    refine .some ((satisfiesM_mapM (P := Eq) (List.forall₂_same.2 fun _ _ => rfl) ?_).bind
      fun rs hrs => hview.satisfiesM_fitted k hrs)
    rintro x _ rfl
    exact hview.ofScalar x
  | unary op =>
    refine Option.rel_bind (rel_getElem? h 0) fun xs ys hxs => .some ?_
    refine (satisfiesM_mapM (List.forall₂_take k hxs) ?_).bind
      fun rs hrs => hview.satisfiesM_fitted k hrs
    rintro x _ rfl
    exact hview.unary op x
  | binary op broadcast =>
    refine Option.rel_bind (Option.rel_bind (rel_getElem? h 0) fun xs ys hxs =>
      rel_spread hxs _ k) fun xs ys hxs => ?_
    refine Option.rel_bind (Option.rel_bind (rel_getElem? h 1) fun us vs hus =>
      rel_spread hus _ k) fun us vs hus => .some ?_
    refine satisfiesM_mapM (rel_zip hxs hus) ?_
    rintro ⟨x, u⟩ ⟨_, _⟩ ⟨rfl, rfl⟩
    exact hview.binary op x u
  | innerProduct =>
    refine Option.rel_bind (rel_getElem? h 0) fun xs ys hxs => ?_
    refine Option.rel_bind (rel_getElem? h 1) fun us vs hus => .some ?_
    exact (hview.satisfiesM_dotProduct hxs hus).bind fun r hr => SatisfiesM.pure (.cons hr .nil)
  | transpose mapping =>
    exact Option.rel_bind (Option.rel_bind (rel_getElem? h 0) fun xs ys hxs =>
      rel_picked hxs _) fun xs ys hxs => .some (hview.satisfiesM_fitted k hxs)
  | project mapping =>
    refine Option.rel_bind (Option.rel_bind (rel_getElem? h 0) fun xs ys hxs =>
      rel_pickedWhere hxs _) fun xs ys hxs => .some ?_
    refine (satisfiesM_mapM hxs ?_).bind fun rs hrs => hview.satisfiesM_fitted k hrs
    rintro x y hxy
    cases hxy with
    | none => exact hview.satisfiesM_zero
    | some hxy => exact SatisfiesM.pure hxy
  | join axis =>
    have hflat := List.rel_flatten h
    unfold firstResult
    dsimp only
    rw [hflat.length_eq]
    split
    · exact .none
    · exact .some (hview.satisfiesM_fitted k hflat)

/-- A node does what it does on plain elements. -/
theorem resembles_evaluate (hview : Interprets m view) (e : Expr α) {args : List (List T)}
    {args' : List (List V)} (h : List.Forall₂ (SameBuffer view) args args') (want : Nat → Bool) :
    Resembles (List.Forall₂ (Option.Rel (SameBuffer view)))
      (e.evaluate args want : ExceptT GraphError m _) (e.evaluate args' want) := by
  unfold evaluate
  split
  · rename_i offsets _
    have hsplit := rel_splitResults h offsets e.resultCount want
    generalize splitResults offsets e.resultCount args want = x,
      splitResults offsets e.resultCount args' want = y at hsplit
    cases hsplit with
    | none => exact .throw _
    | some hxy => exact .pure hxy
  · split
    · have hfirst := hview.rel_firstResult e.op e.nnz h
      generalize firstResult (m := m) e.op e.nnz args = x,
        firstResult (m := Id) e.op e.nnz args' = y at hfirst
      cases hfirst with
      | none => exact .throw _
      | some hxy => exact .bind (.lift hxy) fun b c hbc => .pure (.cons (.some hbc) .nil)
    · exact .pure (.cons .none .nil)

theorem resembles_execute (hview : Interprets m view) (ins : Instruction α)
    {work : Array (List T)} {work' : Array (List V)}
    (h : List.Forall₂ (SameBuffer view) work.toList work'.toList) :
    Resembles (fun (w : Array (List T)) (w' : Array (List V)) =>
        List.Forall₂ (SameBuffer view) w.toList w'.toList)
      (Function.execute ins work : ExceptT GraphError m _) (Function.execute ins work') :=
  .bind (hview.resembles_evaluate ins.node (rel_buffers h .nil ins.args) _) fun _ _ hr =>
    .pure (rel_store h ins.results hr)

end Interprets

/-- A function does what it does on plain elements. -/
theorem Function.resembles_run [Scalar α] (hview : Interprets m view) (f : Function α)
    (args : List (List T)) :
    Resembles (fun outs outs' => outs.map (List.map view) = outs')
      (f.run args : ExceptT GraphError m (List (List T))) (f.run (args.map (List.map view))) := by
  have hargs : List.Forall₂ (SameBuffer view) args (args.map (List.map view)) :=
    forall₂_map_map_iff.2 rfl
  unfold Function.run
  rw [← map_length_eq_of_rel hargs]
  cases Function.checkLengths f.inputs (args.map List.length) with
  | error e => exact .throw e
  | ok u =>
    refine .bind (.lift hview.satisfiesM_zero) fun zero zero' hzero => ?_
    refine .bind (.foldlM (fun ins work work' hwork => hview.resembles_execute ins hwork)
      (rel_storeArgs ?_ f.inputSlots hargs) f.instructions) fun work work' hwork =>
        .pure (forall₂_map_map_iff.1 (rel_buffers hwork .nil f.outputSlots))
    rw [Array.toList_map, Array.toList_map]
    refine List.rel_map (fun p _ hp => ?_) (List.forall₂_same.2 fun _ _ => rfl)
    exact hp ▸ rel_replicate (R := fun x y => view x = y) hzero _

end DiffGraph
