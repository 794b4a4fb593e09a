import Mathlib
import DiffGraph.Function.Expand
import DiffGraph.Proofs.Derivative.Seeds
import DiffGraph.Proofs.Term.Compile

/-!
# Expanded functions

A run on terms simulates the run on the elements that the terms stand for: every
step of it draws terms that stand for the elements of the same step
(`Simulates`), node by node (`simulates_evaluate`), instruction by instruction
(`simulates_execute`) and over the whole function (`simulates_run`). Compiled, the
terms give these elements again, for numbers and for dual numbers, and arguments
are refused as before (`expand_correct`).
-/

namespace DiffGraph

open Element Expr

/-! ## Relations between buffers -/

section Relations

variable {β γ δ ε : Type} {R : β → γ → Prop} {P : δ → ε → Prop}

theorem Option.rel_bind {x : Option β} {y : Option γ} {f : β → Option δ} {g : γ → Option ε}
    (h : Option.Rel R x y) (hf : ∀ a b, R a b → Option.Rel P (f a) (g b)) :
    Option.Rel P (x >>= f) (y >>= g) := by
  cases h with
  | none => exact .none
  | some hab => exact hf _ _ hab

theorem rel_getElem? {xs : List β} {ys : List γ} (h : List.Forall₂ R xs ys) (i : Nat) :
    Option.Rel R xs[i]? ys[i]? := by
  induction h generalizing i with
  | nil => exact .none
  | cons hab _ ih =>
    cases i with
    | zero => exact .some hab
    | succ i => exact ih i

theorem rel_mapM {f : ε → Option β} {g : ε → Option γ} (h : ∀ k, Option.Rel R (f k) (g k))
    (ks : List ε) : Option.Rel (List.Forall₂ R) (ks.mapM f) (ks.mapM g) := by
  induction ks with
  | nil => exact .some .nil
  | cons k ks ih =>
    rw [List.mapM_cons, List.mapM_cons]
    exact Option.rel_bind (h k) fun a b hab => Option.rel_bind ih fun as bs habs =>
      .some (.cons hab habs)

theorem rel_replicate {x : β} {y : γ} (h : R x y) (n : Nat) :
    List.Forall₂ R (List.replicate n x) (List.replicate n y) := by
  induction n with
  | zero => exact .nil
  | succ n ih => exact .cons h ih

theorem rel_zip {xs : List β} {ys : List γ} {us : List δ} {vs : List ε}
    (h : List.Forall₂ R xs ys) (h' : List.Forall₂ P us vs) :
    List.Forall₂ (fun (x : β × δ) (y : γ × ε) => R x.1 y.1 ∧ P x.2 y.2) (xs.zip us)
      (ys.zip vs) := by
  induction h generalizing us vs with
  | nil => exact .nil
  | cons hab _ ih =>
    cases h' with
    | nil => exact .nil
    | cons hcd hrest => exact .cons ⟨hab, hcd⟩ (ih hrest)

theorem rel_spread {xs : List β} {ys : List γ} (h : List.Forall₂ R xs ys) (single : Bool)
    (n : Nat) : Option.Rel (List.Forall₂ R) (spread single n xs) (spread single n ys) := by
  unfold spread
  rw [h.length_eq]
  split
  · split
    · exact .some .nil
    · cases h with
      | nil => exact .none
      | cons hab _ => exact .some (rel_replicate hab n)
  · split
    · exact .some (List.forall₂_take n h)
    · exact .none

theorem rel_picked {xs : List β} {ys : List γ} (h : List.Forall₂ R xs ys) (mapping : List Nat) :
    Option.Rel (List.Forall₂ R) (picked mapping xs) (picked mapping ys) := by
  refine rel_mapM (fun k => ?_) mapping
  rw [List.getElem?_toArray, List.getElem?_toArray]
  exact rel_getElem? h k

theorem rel_pickedWhere {xs : List β} {ys : List γ} (h : List.Forall₂ R xs ys)
    (mapping : List (Option Nat)) :
    Option.Rel (List.Forall₂ (Option.Rel R)) (pickedWhere mapping xs) (pickedWhere mapping ys) := by
  refine rel_mapM (fun k => ?_) mapping
  cases k with
  | none => exact .some .none
  | some k =>
    dsimp only
    rw [List.getElem?_toArray, List.getElem?_toArray]
    have hk := rel_getElem? h k
    generalize xs[k]? = x, ys[k]? = y at hk
    cases hk with
    | none => exact .none
    | some hab => exact .some (.some hab)

theorem rel_slice? {xs : List β} {ys : List γ} (h : List.Forall₂ R xs ys) (a b : Nat) :
    Option.Rel (List.Forall₂ R) (slice? xs a b) (slice? ys a b) := by
  unfold slice?
  rw [h.length_eq]
  split
  · exact .some (List.forall₂_take _ (List.forall₂_drop _ h))
  · exact .none

theorem rel_splitResults {xss : List (List β)} {yss : List (List γ)}
    (h : List.Forall₂ (List.Forall₂ R) xss yss) (offsets : List Nat) (count : Nat)
    (want : Nat → Bool) : Option.Rel (List.Forall₂ (Option.Rel (List.Forall₂ R)))
      (splitResults offsets count xss want) (splitResults offsets count yss want) := by
  refine Option.rel_bind (rel_getElem? h 0) fun xs ys hxs => rel_mapM (fun i => ?_) _
  split
  · cases offsets[i]? with
    | none => exact .none
    | some a =>
      cases offsets[i + 1]? with
      | none => exact .none
      | some b =>
        have hcut := rel_slice? hxs a b
        show Option.Rel _ ((slice? xs a b).bind fun us => some (some us))
          ((slice? ys a b).bind fun vs => some (some vs))
        generalize slice? xs a b = us, slice? ys a b = vs at hcut
        cases hcut with
        | none => exact .none
        | some huv => exact .some (.some huv)
  · exact .some .none

theorem exists_right_of_mem {xs : List β} {ys : List γ} (h : List.Forall₂ R xs ys) {x : β}
    (hx : x ∈ xs) : ∃ y ∈ ys, R x y := by
  induction h with
  | nil => cases hx
  | cons hab _ ih =>
    rcases List.mem_cons.1 hx with rfl | hx
    · exact ⟨_, List.mem_cons_self, hab⟩
    · obtain ⟨y, hy, hxy⟩ := ih hx
      exact ⟨y, List.mem_cons_of_mem _ hy, hxy⟩

theorem map_length_eq_of_rel {xss : List (List β)} {yss : List (List γ)}
    (h : List.Forall₂ (List.Forall₂ R) xss yss) :
    xss.map List.length = yss.map List.length := by
  induction h with
  | nil => rfl
  | cons hxy _ ih => rw [List.map_cons, List.map_cons, hxy.length_eq, ih]

theorem eq_of_forall₂_eq {xss yss : List (List β)}
    (h : List.Forall₂ (List.Forall₂ Eq) xss yss) : xss = yss :=
  List.forall₂_eq_eq_eq ▸ h.imp fun _ _ hxy => List.forall₂_eq_eq_eq ▸ hxy

theorem rel_of_flatten {xss : List (List β)} {yss : List (List γ)}
    (hlen : xss.map List.length = yss.map List.length)
    (h : List.Forall₂ R xss.flatten yss.flatten) : List.Forall₂ (List.Forall₂ R) xss yss := by
  induction xss generalizing yss with
  | nil =>
    obtain rfl : yss = [] := by simpa using hlen.symm
    exact .nil
  | cons xs xss ih =>
    cases yss with
    | nil => cases hlen
    | cons ys yss =>
      obtain ⟨hxy, hrest⟩ := List.cons.inj hlen
      have htake := List.forall₂_take xs.length h
      have hdrop := List.forall₂_drop xs.length h
      rw [List.flatten_cons, List.flatten_cons] at htake hdrop
      rw [List.take_left, hxy, List.take_left] at htake
      rw [List.drop_left, hxy, List.drop_left] at hdrop
      exact .cons htake (ih hrest hdrop)

theorem rel_set {xs : List β} {ys : List γ} (h : List.Forall₂ R xs ys) (i : Nat) {a : β} {b : γ}
    (hab : R a b) : List.Forall₂ R (xs.set i a) (ys.set i b) := by
  induction h generalizing i with
  | nil => exact .nil
  | cons hxy hrest ih =>
    cases i with
    | zero => exact .cons hab hrest
    | succ i => exact .cons hxy (ih i)

section Slots

variable {work : Array (List β)} {work' : Array (List γ)} {Q : List β → List γ → Prop}

theorem rel_buffers (h : List.Forall₂ Q work.toList work'.toList) (hnil : Q [] [])
    (slots : List Nat) :
    List.Forall₂ Q (Function.buffers work slots) (Function.buffers work' slots) := by
  refine List.rel_map (fun s t hst => ?_) (List.forall₂_same.2 fun s _ => rfl)
  subst hst
  have hs := rel_getElem? h s
  rw [Array.getElem?_toList, Array.getElem?_toList] at hs
  generalize work[s]? = x, work'[s]? = y at hs ⊢
  cases hs with
  | none => exact hnil
  | some hxy => exact hxy

theorem rel_store (h : List.Forall₂ Q work.toList work'.toList) (slots : List (Option Nat))
    {rs : List (Option (List β))} {rs' : List (Option (List γ))}
    (hrs : List.Forall₂ (Option.Rel Q) rs rs') :
    List.Forall₂ Q (Function.store work slots rs).toList
      (Function.store work' slots rs').toList := by
  induction hrs generalizing slots work work' with
  | nil => simpa [Function.store] using h
  | @cons r r' rs rs' hr _ ih =>
    cases slots with
    | nil => exact h
    | cons slot slots =>
      refine ih ?_ slots
      cases slot with
      | none => exact h
      | some s =>
        cases hr with
        | none => exact h
        | some hxy => simpa using rel_set h s hxy

theorem rel_storeArgs (h : List.Forall₂ Q work.toList work'.toList) (slots : List Nat)
    {args : List (List β)} {args' : List (List γ)} (hargs : List.Forall₂ Q args args') :
    List.Forall₂ Q (Function.storeArgs work slots args).toList
      (Function.storeArgs work' slots args').toList := by
  induction hargs generalizing slots work work' with
  | nil => simpa [Function.storeArgs] using h
  | cons hxy _ ih =>
    cases slots with
    | nil => exact h
    | cons s slots => exact ih (by simpa using rel_set h s hxy) slots

end Slots

end Relations

/-! ## Terms in place of elements -/

section Simulation

variable {α T : Type} [Scalar α] [Element Id α T] [FoldingElement α T] {n n' : Nat}
  {G G' : Set (Term α)} {env : Nat → T}

abbrev StandAll (env : Nat → T) (G : Set (Term α)) : List (Term α) → List T → Prop :=
  List.Forall₂ (Stands env G)

theorem StandAll.mono {ts : List (Term α)} {vs : List T} (h : StandAll env G ts vs)
    (hsub : G ⊆ G') : StandAll env G' ts vs :=
  h.imp fun _ _ hx => hx.mono hsub

theorem mem_of_mem_flatten {tss : List (List (Term α))} {vss : List (List T)}
    (h : List.Forall₂ (StandAll env G) tss vss) : ∀ t ∈ tss.flatten, t ∈ G := by
  intro t ht
  obtain ⟨ts, hts, ht⟩ := List.mem_flatten.1 ht
  obtain ⟨vs, -, hvs⟩ := exists_right_of_mem h hts
  obtain ⟨v, -, hv⟩ := exists_right_of_mem hvs ht
  exact hv.1

theorem eval_le_of_stand {tss : List (List (Term α))} {vss : List (List T)}
    (h : List.Forall₂ (StandAll env G) tss vss) :
    List.Forall₂ (List.Forall₂ FoldingElement.le) (tss.map (List.map (Term.eval env))) vss :=
  List.forall₂_map_left_iff.2 (h.imp fun _ _ hts =>
    List.forall₂_map_left_iff.2 (hts.imp fun _ _ hx => hx.2))

theorem draws_mapM {β γ : Type} {f : β → Fresh (Term α)} {g : γ → Id T}
    {P : Set (Term α) → β → γ → Prop} (hG : IsTermGraph n G) {xs : List β} {ys : List γ}
    (h : List.Forall₂ (P G) xs ys)
    (hf : ∀ n' G' x y, ExtendsTerms n G n' G' → P G' x y →
      Draws n' G' (f x) fun G'' r => Stands env G'' r (Id.run (g y)))
    (hP : ∀ G' G'' x y, G' ⊆ G'' → P G' x y → P G'' x y) :
    Draws n G (xs.mapM f) fun G' rs => StandAll env G' rs (Id.run (ys.mapM g)) := by
  have hmap : (ys.mapM g : Id (List T)) = pure (ys.map fun y => Id.run (g y)) := List.mapM_pure
  rw [hmap]
  exact Draws.mapM hG h hf hP fun _ _ _ _ hsub hr => hr.mono hsub

theorem draws_zero (hG : IsTermGraph n G) :
    Draws n G (zeroElement : Fresh (Term α)) fun G' t =>
      Stands env G' t (Id.run (zeroElement : Id T)) :=
  draws_newConstant hG 0

theorem draws_fitted (hG : IsTermGraph n G) (k : Nat) {ts : List (Term α)} {vs : List T}
    (h : StandAll env G ts vs) :
    Draws n G (fitted k ts) fun G' rs => StandAll env G' rs (Id.run (fitted k vs)) := by
  unfold fitted
  rw [h.length_eq]
  split
  · exact .pure hG (List.forall₂_take k h)
  · have hzero : Draws n G (zeroElement : Fresh (Term α)) fun G' t =>
        Stands env G' t (Id.run (zeroElement : Id T)) := draws_zero hG
    refine hzero.bind fun n₁ G₁ z h₁ hz => .pure h₁.graph ?_
    exact List.rel_append (h.mono h₁.subset) (rel_replicate hz _)

theorem draws_pairwise (hG : IsTermGraph n G) (op : BinaryOp) {xs ys : List (Term α)}
    {us vs : List T} (hx : StandAll env G xs us) (hy : StandAll env G ys vs) :
    Draws n G (pairwise op xs ys) fun G' rs => StandAll env G' rs (Id.run (pairwise op us vs)) :=
  draws_mapM (P := fun G (x : Term α × Term α) (y : T × T) => Stands env G x.1 y.1 ∧
      Stands env G x.2 y.2) hG (rel_zip hx hy)
    (fun _ _ _ _ h' hxy => draws_applyBinary h'.graph op hxy.1 hxy.2)
    fun _ _ _ _ hsub hxy => ⟨hxy.1.mono hsub, hxy.2.mono hsub⟩

abbrev StandPairs (env : Nat → T) (G : Set (Term α)) :
    List (Term α × Term α) → List (T × T) → Prop :=
  List.Forall₂ fun p q => Stands env G p.1 q.1 ∧ Stands env G p.2 q.2

theorem StandPairs.mono {ps : List (Term α × Term α)} {qs : List (T × T)}
    (h : StandPairs env G ps qs) (hsub : G ⊆ G') : StandPairs env G' ps qs :=
  h.imp fun _ _ hpq => ⟨hpq.1.mono hsub, hpq.2.mono hsub⟩

theorem draws_products (hG : IsTermGraph n G) {ps : List (Term α × Term α)} {qs : List (T × T)}
    (h : StandPairs env G ps qs) {t : Term α} {v : T} (ht : Stands env G t v) :
    Draws n G (ps.foldlM (fun total (x, y) => do
        Element.binary (m := Fresh) .add total (← Element.binary (m := Fresh) .mul x y)) t)
      fun G' r => Stands env G' r (Id.run (qs.foldlM (fun total (x, y) => do
        Element.binary (m := Id) .add total (← Element.binary (m := Id) .mul x y)) v)) := by
  induction ps generalizing n G qs t v with
  | nil =>
    obtain rfl := List.forall₂_nil_left_iff.1 h
    exact .pure hG ht
  | cons p ps ih =>
    cases h with
    | cons hpq hrest =>
      rw [List.foldlM_cons, List.foldlM_cons]
      refine .bind (.bind (draws_applyBinary hG .mul hpq.1 hpq.2) fun n₁ G₁ m h₁ hm =>
        draws_applyBinary h₁.graph .add (ht.mono h₁.subset) hm) fun n₁ G₁ r h₁ hr => ?_
      exact ih h₁.graph (StandPairs.mono hrest h₁.subset) hr

theorem draws_dotProduct (hG : IsTermGraph n G) {xs ys : List (Term α)} {us vs : List T}
    (hx : StandAll env G xs us) (hy : StandAll env G ys vs) :
    Draws n G (dotProduct xs ys) fun G' t => Stands env G' t (Id.run (dotProduct us vs)) :=
  .bind (draws_zero hG) fun _ _ _ h₁ ht =>
    draws_products h₁.graph (StandPairs.mono (rel_zip hx hy) h₁.subset) ht

/-- Steps that draw terms for the elements of a computation, if both are there. -/
abbrev RelDraws (env : Nat → T) (n : Nat) (G : Set (Term α)) :
    Option (Fresh (List (Term α))) → Option (Id (List T)) → Prop :=
  Option.Rel fun step vs => Draws n G step fun G' rs => StandAll env G' rs (Id.run vs)

theorem rel_firstResult (hG : IsTermGraph n G) (op : Op α) (k : Nat) {args : List (List (Term α))}
    {vss : List (List T)} (h : List.Forall₂ (StandAll env G) args vss) :
    RelDraws env n G (firstResult op k args) (firstResult op k vss) := by
  cases op with
  | symbol => exact .some (draws_fitted hG k .nil)
  | output => exact .some (draws_fitted hG k .nil)
  | split => exact .some (draws_fitted hG k .nil)
  | constant nz =>
    refine .some (.bind (draws_mapM (P := fun _ x y => x = y) hG
      (List.forall₂_same.2 fun _ _ => rfl) ?_ fun _ _ _ _ _ h => h) fun n₁ G₁ ts h₁ hts =>
        draws_fitted h₁.graph k hts)
    rintro n₁ G₁ x _ h₁ rfl
    exact draws_newConstant h₁.graph x
  | unary op =>
    refine Option.rel_bind (rel_getElem? h 0) fun ts vs hts => .some ?_
    refine .bind (draws_mapM (P := Stands env) hG (List.forall₂_take k hts) ?_
      fun _ _ _ _ hsub hx => hx.mono hsub) fun n₁ G₁ rs h₁ hrs => draws_fitted h₁.graph k hrs
    exact fun n₁ G₁ x u h₁ hx => draws_applyUnary h₁.graph op hx
  | binary op broadcast =>
    refine Option.rel_bind (Option.rel_bind (rel_getElem? h 0) fun ts vs hts =>
      rel_spread hts _ k) fun xs us hxs => ?_
    refine Option.rel_bind (Option.rel_bind (rel_getElem? h 1) fun ts vs hts =>
      rel_spread hts _ k) fun ys vs hys => ?_
    exact .some (draws_pairwise hG op hxs hys)
  | innerProduct =>
    refine Option.rel_bind (rel_getElem? h 0) fun xs us hxs => ?_
    refine Option.rel_bind (rel_getElem? h 1) fun ys vs hys => .some ?_
    exact .bind (draws_dotProduct hG hxs hys) fun n₁ G₁ t h₁ ht => .pure h₁.graph (.cons ht .nil)
  | transpose mapping =>
    refine Option.rel_bind (Option.rel_bind (rel_getElem? h 0) fun ts vs hts =>
      rel_picked hts _) fun xs us hxs => .some (draws_fitted hG k hxs)
  | project mapping =>
    refine Option.rel_bind (Option.rel_bind (rel_getElem? h 0) fun ts vs hts =>
      rel_pickedWhere hts _) fun xs us hxs => .some ?_
    refine .bind (draws_mapM (P := fun G => Option.Rel (Stands env G)) hG hxs ?_
      fun G₁ G₂ x u hsub hx => ?_) fun n₁ G₁ rs h₁ hrs => draws_fitted h₁.graph k hrs
    · intro n₁ G₁ x u h₁ hx
      cases hx with
      | none => exact draws_zero h₁.graph
      | some hxu => exact .pure h₁.graph hxu
    · cases hx with
      | none => exact .none
      | some hxu => exact .some (hxu.mono hsub)
  | join axis =>
    have hflat := List.rel_flatten h
    unfold firstResult
    dsimp only
    rw [hflat.length_eq]
    split
    · exact .none
    · exact .some (draws_fitted hG k hflat)

/-! ## Runs on terms -/

/-- The step on terms fails like the computation on elements, or its result is related to that of
the computation. -/
def Simulates {β γ : Type} (n : Nat) (G : Set (Term α)) (step : ExceptT GraphError Fresh β)
    (computation : ExceptT GraphError Id γ) (R : Set (Term α) → β → γ → Prop) : Prop :=
  Draws n G step.run fun G' r => SameResult (R G') r (Id.run computation.run)

namespace Simulates

variable {β γ δ ε : Type} {R : Set (Term α) → β → γ → Prop} {P : Set (Term α) → δ → ε → Prop}

omit [Scalar α] [Element Id α T] [FoldingElement α T] in
theorem pure (hG : IsTermGraph n G) {b : β} {c : γ} (h : R G b c) :
    Simulates n G (pure b) (pure c) R :=
  Draws.pure hG h

omit [Scalar α] [Element Id α T] [FoldingElement α T] in
theorem throw (hG : IsTermGraph n G) (e : GraphError) :
    Simulates n G (throw e) (throw e) R :=
  Draws.pure hG rfl

omit [Scalar α] [Element Id α T] [FoldingElement α T] in
theorem lift {step : Fresh β} {value : Id γ} (h : Draws n G step fun G' b => R G' b value) :
    Simulates n G (ExceptT.lift step) (ExceptT.lift value) R :=
  .bind h fun _ _ _ h₁ hb => Draws.pure h₁.graph hb

omit [Scalar α] [Element Id α T] [FoldingElement α T] in
theorem bind {step : ExceptT GraphError Fresh β} {value : ExceptT GraphError Id γ}
    {f : β → ExceptT GraphError Fresh δ} {g : γ → ExceptT GraphError Id ε}
    (h : Simulates n G step value R)
    (hf : ∀ n' G' b c, ExtendsTerms n G n' G' → R G' b c → Simulates n' G' (f b) (g c) P) :
    Simulates n G (step >>= f) (value >>= g) P := by
  refine Draws.bind (f := ExceptT.bindCont f) h fun n₁ G₁ r h₁ hr => ?_
  show Draws n₁ G₁ (ExceptT.bindCont f r) fun G' r =>
    SameResult (P G') r (ExceptT.bindCont g (Id.run value.run) : Id _)
  generalize Id.run value.run = v at hr
  cases r with
  | ok b =>
    cases v with
    | ok c => exact hf n₁ G₁ b c h₁ hr
    | error e' => exact hr.elim
  | error e =>
    cases v with
    | ok c => exact hr.elim
    | error e' => exact Draws.pure h₁.graph hr

end Simulates

theorem simulates_evaluate (hG : IsTermGraph n G) (e : Expr α) {args : List (List (Term α))}
    {vss : List (List T)} (h : List.Forall₂ (StandAll env G) args vss) (want : Nat → Bool) :
    Simulates n G (e.evaluate args want) (e.evaluate vss want) fun G' =>
      List.Forall₂ (Option.Rel (StandAll env G')) := by
  unfold evaluate
  split
  · rename_i offsets _
    have hsplit := rel_splitResults h offsets e.resultCount want
    generalize splitResults offsets e.resultCount args want = x,
      splitResults offsets e.resultCount vss want = y at hsplit
    cases hsplit with
    | none => exact .throw hG _
    | some hxy => exact .pure hG hxy
  · split
    · have hfirst := rel_firstResult hG e.op e.nnz h
      generalize firstResult (m := Fresh) e.op e.nnz args = x,
        firstResult (m := Id) e.op e.nnz vss = y at hfirst
      cases hfirst with
      | none => exact .throw hG _
      | some hxy =>
        exact .bind (.lift hxy) fun n₁ G₁ b c h₁ hbc => .pure h₁.graph (.cons (.some hbc) .nil)
    · exact .pure hG (.cons .none .nil)

/-- Slots of buffers of terms that stand for the elements in the same slots. -/
abbrev StandSlots (env : Nat → T) (G : Set (Term α)) (work : Array (List (Term α)))
    (work' : Array (List T)) : Prop :=
  List.Forall₂ (StandAll env G) work.toList work'.toList

theorem simulates_execute (hG : IsTermGraph n G) (ins : Instruction α)
    {work : Array (List (Term α))} {work' : Array (List T)} (h : StandSlots env G work work') :
    Simulates n G (Function.execute ins work) (Function.execute ins work') fun G' =>
      StandSlots env G' :=
  .bind (simulates_evaluate hG ins.node (rel_buffers h .nil ins.args) _) fun _ _ _ _ h₁ hr =>
    .pure h₁.graph (rel_store (h.imp fun _ _ hx => hx.mono h₁.subset) ins.results hr)

theorem simulates_foldlM (hG : IsTermGraph n G) (instructions : List (Instruction α))
    {work : Array (List (Term α))} {work' : Array (List T)} (h : StandSlots env G work work') :
    Simulates n G (instructions.foldlM (fun work ins => Function.execute ins work) work)
      (instructions.foldlM (fun work ins => Function.execute ins work) work') fun G' =>
        StandSlots env G' := by
  induction instructions generalizing n G work work' with
  | nil => exact .pure hG h
  | cons ins rest ih =>
    rw [List.foldlM_cons, List.foldlM_cons]
    exact .bind (simulates_execute hG ins h) fun _ _ _ _ h₁ hr => ih h₁.graph hr

theorem simulates_run (hG : IsTermGraph n G) (f : Function α) {args : List (List (Term α))}
    {vss : List (List T)} (h : List.Forall₂ (StandAll env G) args vss) :
    Simulates n G (f.run args) (f.run vss) fun G' => List.Forall₂ (StandAll env G') := by
  unfold Function.run
  rw [map_length_eq_of_rel h]
  cases Function.checkLengths f.inputs (vss.map List.length) with
  | error e => exact .throw hG e
  | ok u =>
    refine .bind (R := Stands env) (.lift (draws_zero hG)) fun n₁ G₁ z v h₁ hz => ?_
    refine .bind (simulates_foldlM h₁.graph f.instructions (rel_storeArgs ?_ f.inputSlots
      (h.imp fun _ _ hx => hx.mono h₁.subset))) fun n₂ G₂ work work' h₂ hwork =>
        .pure h₂.graph (rel_buffers hwork .nil f.outputSlots)
    rw [Array.toList_map, Array.toList_map]
    exact List.rel_map (fun p _ hp => hp ▸ rel_replicate hz _) (List.forall₂_same.2 fun _ _ => rfl)

end Simulation

/-! ## Symbols for the inputs -/

/-- Symbols with consecutive identities. -/
structure SymbolsFrom {α : Type} (n : Nat) (ts : List (Term α)) : Prop where
  isSymbol : ∀ t ∈ ts, t.isSymbol = true
  ids : ts.map Term.id = List.range' n ts.length

section Symbols

variable {α T : Type} {n : Nat} {ts us : List (Term α)}

theorem SymbolsFrom.append (h : SymbolsFrom n ts) (h' : SymbolsFrom (n + ts.length) us) :
    SymbolsFrom n (ts ++ us) where
  isSymbol t ht := (List.mem_append.1 ht).elim (h.isSymbol t) (h'.isSymbol t)
  ids := by rw [List.map_append, h.ids, h'.ids, List.length_append, List.range'_append_1]

theorem SymbolsFrom.isTermGraph (h : SymbolsFrom n ts) :
    IsTermGraph (n + ts.length) {t | t ∈ ts} where
  closed t ht x hx := by
    have hsym := h.isSymbol t ht
    cases t with
    | symbol id name => cases hx
    | _ => cases hsym
  unique s hs t ht hid :=
    List.inj_on_of_nodup_map (h.ids ▸ List.nodup_range') hs ht hid
  below t ht := by
    have hid : t.id ∈ ts.map Term.id := List.mem_map_of_mem ht
    rw [h.ids, List.mem_range'_1] at hid
    exact hid.2

theorem SymbolsFrom.stands [Scalar α] [Element Id α T] [FoldingElement α T]
    (h : SymbolsFrom n ts) {vs : List T} (hlen : vs.length = ts.length) :
    StandAll (TermFunction.assign ts vs) {t | t ∈ ts} ts vs := by
  refine List.forall₂_iff_get.2 ⟨hlen.symm, fun i hi hi' => ⟨List.get_mem ts ⟨i, hi⟩, ?_⟩⟩
  have hlast : IsLast (ts.map Term.id) i ts[i].id :=
    isLast_of_nodup (h.ids ▸ List.nodup_range') (by simp [hi])
  have hat := TermFunction.assign_of_isLast hlen hlast
  rw [List.getElem?_eq_getElem hi'] at hat
  have hsym : ts[i].isSymbol = true := h.isSymbol _ (List.getElem_mem hi)
  have heval : ts[i].eval (TermFunction.assign ts vs) = vs[i] := by
    refine Eq.trans ?_ (Option.some.inj hat).symm
    generalize ts[i] = t at hsym
    cases t with
    | symbol id name => rfl
    | _ => cases hsym
  exact heval ▸ FoldingElement.refl _

theorem Fresh.bind_eq {β γ : Type} {step : Fresh β} {f : β → Fresh γ} {n n' : Nat} {r : β}
    (h : step n = (r, n')) : (step >>= f) n = f r n' :=
  congrArg (fun p : β × Nat => f p.1 p.2) h

theorem newSymbols_spec {β : Type} (names : β → String) (ks : List β) (n : Nat) :
    ∃ ts : List (Term α), (ks.mapM (fun k => Term.newSymbol (names k)) : Fresh _) n =
        (ts, n + ts.length) ∧ ts.length = ks.length ∧ SymbolsFrom n ts := by
  induction ks generalizing n with
  | nil => exact ⟨[], rfl, rfl, by simp, rfl⟩
  | cons k ks ih =>
    obtain ⟨ts, hts, hlen, hsym⟩ := ih (n + 1)
    refine ⟨.symbol n (names k) :: ts, ?_, by rw [List.length_cons, hlen, List.length_cons], ?_⟩
    · rw [List.mapM_cons, List.length_cons, Nat.add_comm ts.length, ← Nat.add_assoc]
      exact (Fresh.bind_eq rfl).trans (Fresh.bind_eq hts)
    · have hfirst : SymbolsFrom n [(.symbol n (names k) : Term α)] :=
        ⟨by simp [Term.isSymbol], rfl⟩
      exact hfirst.append hsym

theorem newSymbolLists_spec {β γ : Type} (names : β → γ → String) (keys : β → List γ) (xs : List β)
    (n : Nat) :
    ∃ tss : List (List (Term α)),
      (xs.mapM (fun x => (keys x).mapM fun k => Term.newSymbol (names x k)) : Fresh _) n =
        (tss, n + tss.flatten.length) ∧ tss.map List.length = xs.map (fun x => (keys x).length) ∧
          SymbolsFrom n tss.flatten := by
  induction xs generalizing n with
  | nil => exact ⟨[], rfl, rfl, by simp, rfl⟩
  | cons x xs ih =>
    obtain ⟨ts, hts, hlen, hsym⟩ := newSymbols_spec (α := α) (names x) (keys x) n
    obtain ⟨tss, htss, hlens, hsyms⟩ := ih (n + ts.length)
    refine ⟨ts :: tss, ?_, by rw [List.map_cons, hlen, hlens, List.map_cons], hsym.append hsyms⟩
    rw [List.mapM_cons, List.flatten_cons, List.length_append, ← Nat.add_assoc]
    exact (Fresh.bind_eq hts).trans (Fresh.bind_eq htss)

end Symbols

/-- Elements without content: what is left of a run is its shape. -/
structure Blank (α : Type)

instance {α : Type} : Element Id α (Blank α) where
  ofScalar _ := (⟨⟩ : Blank α)
  unary _ _ := (⟨⟩ : Blank α)
  binary _ _ _ := (⟨⟩ : Blank α)

/-- Folding is sound for shapes, whatever the numbers are. -/
instance {α : Type} [Scalar α] : ExactElement α (Blank α) where
  number_congr _ _ _ := rfl
  unary_number _ _ := rfl
  binary_number _ _ _ := rfl
  zero_add _ := rfl
  add_zero _ := rfl
  sub_zero _ := rfl
  zero_sub _ := rfl
  zero_mul _ := rfl
  mul_zero _ := rfl
  one_mul _ := rfl
  mul_one _ := rfl
  div_one _ := rfl
  neg_neg _ := rfl

namespace Function

variable {α T : Type} [Scalar α] {f : Function α} {n : Nat}

omit [Scalar α] in
theorem termInputs_spec (f : Function α) (n : Nat) :
    ∃ args : List (List (Term α)), f.termInputs n = (args, n + args.flatten.length) ∧
      args.map List.length = f.inputs.map nnz ∧ SymbolsFrom n args.flatten := by
  obtain ⟨args, hargs, hlens, hsym⟩ := newSymbolLists_spec (α := α)
    (fun (xi : Expr α × Nat) k => s!"{f.inputName xi.2}_{k}") (fun xi => List.range xi.1.nnz)
    f.inputs.zipIdx n
  refine ⟨args, hargs, ?_, hsym⟩
  have hfst : (fun xi : Expr α × Nat => (List.range xi.1.nnz).length) = nnz ∘ Prod.fst :=
    funext fun _ => List.length_range
  rw [hlens, hfst, ← List.map_map, List.zipIdx_map_fst]

variable [Element Id α T] [FoldingElement α T] {S : Set (Expr α)} {m : Nat} {g : TermFunction α}

/-- A run on the symbols for the inputs draws terms for the outputs: whatever the arguments are,
these terms stand for the outputs that they give. -/
theorem draws_run (hS : IsGraph n S) (h : f.Compiled S) {args : List (List (Term α))}
    (hlens : args.map List.length = f.inputs.map nnz) (hsym : SymbolsFrom m args.flatten)
    {values : List (List T)} (hvalues : values.map List.length = f.inputs.map nnz) :
    Draws (m + args.flatten.length) {t | t ∈ args.flatten}
      (f.run args : ExceptT GraphError Fresh _).run fun G r => ∃ outs, r = .ok outs ∧
        List.Forall₂ (StandAll (TermFunction.assign args.flatten values.flatten) G) outs
          (f.outputs.map (nonzeros (assign f.inputs values))) := by
  obtain ⟨hgraph, slot, hlayout⟩ := h.exists_layout hS
  have hcount : values.flatten.length = args.flatten.length := by
    rw [List.length_flatten, List.length_flatten, hlens, hvalues]
  have hstand := rel_of_flatten (hlens.trans hvalues.symm) (hsym.stands hcount)
  refine (simulates_run hsym.isTermGraph f hstand).mono fun n' G' r _ hr => ?_
  rw [run_eq hlayout hgraph hvalues] at hr
  cases r with
  | ok outs => exact ⟨outs, rfl, hr⟩
  | error e => exact hr.elim

omit [Scalar α] [Element Id α T] [FoldingElement α T] in
theorem length_blanks {args : List (List (Term α))} {lengths : List Nat}
    (h : args.map List.length = lengths) :
    (args.map (List.map fun _ => (⟨⟩ : Blank α))).map List.length = lengths := by
  rw [← h, List.map_map]
  exact List.map_congr_left fun _ _ => List.length_map _

/-- The terms of a run on symbols, compiled. -/
structure Expansion (f : Function α) (m : Nat) (g : TermFunction α) : Prop where
  name : g.name = f.name
  inputPatterns : g.inputPatterns = f.inputs.map Expr.pattern
  outputPatterns : g.outputPatterns = f.outputs.map Expr.pattern
  symbols : SymbolsFrom m g.inputs.flatten
  lengths : g.inputs.map List.length = f.inputs.map nnz
  run : ((f.run g.inputs : ExceptT GraphError Fresh _).run (m + g.inputs.flatten.length)).1 =
    .ok g.outputs
  compile : TermFunction.compile g.name g.inputs g.inputPatterns g.outputs g.outputPatterns = .ok g

omit [Element Id α T] [FoldingElement α T] in
theorem exists_expansion (hS : IsGraph n S) (h : f.Compiled S) (m : Nat) :
    ∃ g m', f.expand m = .ok (g, m') ∧ f.Expansion m g := by
  obtain ⟨args, hargs, hlens, hsym⟩ := f.termInputs_spec m
  obtain ⟨G, hext, outs, hrun, hstand⟩ := draws_run hS h hlens hsym (length_blanks hlens)
  generalize hstep : (f.run args : ExceptT GraphError Fresh _).run (m + args.flatten.length) = step
    at hext hrun
  obtain ⟨r, m'⟩ := step
  obtain rfl : r = .ok outs := hrun
  have houtLens : outs.map List.length = (f.outputs.map Expr.pattern).map Pattern.nnz := by
    rw [map_length_eq_of_rel hstand, List.map_map, List.map_map]
    exact List.map_congr_left fun o ho => hS.length_nonzeros (h.outputs o ho).1
  have hinLens : args.map List.length = (f.inputs.map Expr.pattern).map Pattern.nnz := by
    rw [hlens, List.map_map]
    rfl
  obtain ⟨g, hg⟩ := TermFunction.exists_compile hext.graph.closed hinLens hsym.isSymbol houtLens
    (mem_of_mem_flatten hstand) hext.symbols f.name
  refine ⟨g, m', ?_, ?_⟩
  · have hterms : f.evaluateTerms args (m + args.flatten.length) = .ok (outs, m') := by
      unfold evaluateTerms
      rw [hstep]
    unfold expand
    rw [show f.termInputs.run m = f.termInputs m from rfl, hargs]
    dsimp only
    rw [hterms]
    exact congrArg (· >>= fun g => pure (g, m')) hg
  · obtain ⟨-, -, -, p, -, rfl⟩ := TermFunction.spec_of_compile hg
    exact ⟨rfl, rfl, rfl, hsym, hlens, congrArg Prod.fst hstep, hg⟩

/-- The outputs of an expanded function are terms of a graph, and their values lie below the outputs
of the function. -/
theorem Expansion.exists_outputs (hx : f.Expansion m g) (hS : IsGraph n S) (h : f.Compiled S)
    {values : List (List T)} (hvalues : values.map List.length = f.inputs.map nnz) :
    ∃ m' G, IsTermGraph m' G ∧ g.Compiled G ∧ List.Forall₂ (List.Forall₂ FoldingElement.le)
      (g.outputs.map (List.map (Term.eval
        (TermFunction.assign g.inputs.flatten values.flatten))))
      (f.outputs.map (nonzeros (assign f.inputs values))) := by
  obtain ⟨G, hext, outs, hrun, hstand⟩ := draws_run hS h hx.lengths hx.symbols hvalues
  obtain rfl := Except.ok.inj (hx.run.symm.trans hrun)
  exact ⟨_, G, hext.graph, ⟨fun t ht => hext.subset ht, mem_of_mem_flatten hstand, hx.compile⟩,
    eval_le_of_stand hstand⟩

omit [Element Id α T] [FoldingElement α T] in
theorem Expansion.exists_compiled (hx : f.Expansion m g) (hS : IsGraph n S) (h : f.Compiled S) :
    ∃ m' G, IsTermGraph m' G ∧ g.Compiled G := by
  obtain ⟨m', G, hG, hg, -⟩ := hx.exists_outputs hS h (length_blanks hx.lengths)
  exact ⟨m', G, hG, hg⟩

omit [FoldingElement α T] in
/-- An expanded function returns what the function returns, unless the memory does not suffice. -/
theorem Expansion.run_eq [ExactElement α T] (hx : f.Expansion m g) (hS : IsGraph n S)
    (h : f.Compiled S) {values : List (List T)}
    (hvalues : values.map List.length = f.inputs.map nnz) :
    (g.run values : ExceptT FunctionError Id _) =
      if g.FitsMemory then pure (f.outputs.map (nonzeros (assign f.inputs values)))
      else throw .misuse := by
  obtain ⟨_, G, hG, hcompiled, hle⟩ := hx.exists_outputs hS h hvalues
  rw [TermFunction.run_eq hG hcompiled (hvalues.trans hx.lengths.symm), eq_of_forall₂_eq hle]

omit [Element Id α T] [FoldingElement α T] in
theorem Expansion.checkLengths_of_ne (hx : f.Expansion m g) {lengths : List Nat}
    (h : lengths ≠ f.inputs.map nnz) :
    ∃ e, checkLengths f.inputs lengths = .error e ∧ g.checkLengths lengths = .error e := by
  obtain ⟨e, he, -⟩ := TermFunction.checkCounts_eq_error h
  rw [← TermFunction.function_checkLengths_eq] at he
  exact ⟨e, he, (TermFunction.checkLengths_eq hx.lengths lengths).trans he⟩

omit [FoldingElement α T] in
theorem Expansion.run_of_ne (hx : f.Expansion m g) {values : List (List T)}
    (hvalues : values.map List.length ≠ f.inputs.map nnz) :
    ∃ e, (f.run values : ExceptT GraphError Id _) = throw e ∧
      (g.run values : ExceptT FunctionError Id _) = throw (.graph e) := by
  obtain ⟨e, hf, hg⟩ := hx.checkLengths_of_ne hvalues
  refine ⟨e, ?_, ?_⟩
  · unfold Function.run
    rw [hf]
  · unfold TermFunction.run
    rw [hg]

end Function

/-! ## Expansion -/

/-- Expanding a function succeeds and preserves it. Arguments of the declared lengths give the same
outputs as before, for numbers and for dual numbers, unless the machine has no memory for its
temporaries and outputs; all others are refused by both. -/
theorem Function.expand_correct {α : Type} [ExactField α] {f : Function α} {n : Nat}
    {S : Set (Expr α)} (hS : IsGraph n S) (h : f.Compiled S) (m : Nat) :
    ∃ g m', f.expand m = .ok (g, m') ∧ g.name = f.name ∧
      g.inputPatterns = f.inputs.map Expr.pattern ∧
      g.outputPatterns = f.outputs.map Expr.pattern ∧
      (∀ args : List (List α),
        if args.map List.length = f.inputs.map nnz then
          ∃ outs, f.evaluate args = .ok outs ∧
            g.evaluate args = if g.FitsMemory then .ok outs else .error .misuse
        else ∃ e, f.evaluate args = .error e ∧ g.evaluate args = .error (.graph e)) ∧
      ∀ args : List (List (Dual α)),
        if args.map List.length = f.inputs.map nnz then
          ∃ outs, f.evaluateDual args = .ok outs ∧
            g.evaluateDual args = if g.FitsMemory then .ok outs else .error .misuse
        else ∃ e, f.evaluateDual args = .error e ∧ g.evaluateDual args = .error (.graph e) := by
  obtain ⟨g, m', hg, hx⟩ := exists_expansion hS h m
  obtain ⟨hgraph, slot, hlayout⟩ := h.exists_layout hS
  refine ⟨g, m', hg, hx.name, hx.inputPatterns, hx.outputPatterns, fun args => ?_, fun args => ?_⟩
  · split
    · rename_i hargs
      exact ⟨_, run_eq hlayout hgraph hargs, hx.run_eq hS h hargs⟩
    · rename_i hargs
      exact hx.run_of_ne hargs
  · split
    · rename_i hargs
      exact ⟨_, run_eq hlayout hgraph hargs, hx.run_eq hS h hargs⟩
    · rename_i hargs
      exact hx.run_of_ne hargs

/-- The squares of the entries of a column, expanded. -/
theorem Function.expand_correct_square :
    let x : Expr Rat := .node 0 (.symbol "x") [] (.column 2) []
    let p : Expr Rat := .node 1 (.binary .mul .none) [x, x] (.column 2) []
    ∃ f g, compile "f" [x] [p] = .ok f ∧ f.expand 2 = .ok (g, 7) ∧
      g.evaluate [[3, 5]] = .ok [[3 * 3, 5 * 5]] ∧
      g.evaluateDual [[⟨3, 1⟩, ⟨5, 0⟩]] = .ok [[⟨3 * 3, 3 * 1 + 1 * 3⟩, ⟨5 * 5, 5 * 0 + 0 * 5⟩]] ∧
      g.evaluate [[3]] = .error (.graph (.nonzeroCount 0 2 1)) := by
  intro x p
  obtain ⟨hf, hS, hcompiled⟩ := compile_squares
  let f : Function Rat :=
    ⟨"f", [x], [p], [⟨p, [0, 0], [some 1]⟩], #[.column 2, .column 2], [0], [1]⟩
  let s : Term Rat := .symbol 2 "x_0"
  let t : Term Rat := .symbol 3 "x_1"
  let outs : List (List (Term Rat)) := [[.binary 5 .mul s s, .binary 6 .mul t t]]
  let code : Program Rat := ⟨[.loadVar 0, .loadVar 0, .binary .mul, .write 0, .loadVar 1,
    .loadVar 1, .binary .mul, .write 1], 0⟩
  have hterms : f.evaluateTerms [[s, t]] 4 = .ok (outs, 7) := by
    simp [evaluateTerms, Function.run, f, checkLengths, x, p, nnz, Expr.pattern, Pattern.column,
      Pattern.nnz]
    rfl
  have hcode : TermFunction.assemble [[s, t]].flatten outs.flatten = .ok code := by
    simp [TermFunction.assemble, s, t, outs, code, Term.countUses, Compiler.compile, Compiler.keep,
      Compiler.emit, Term.id, bind, Except.bind, pure, Except.pure, Std.HashMap.getElem_insert]
  have hg : f.expand 2 = .ok (⟨"f", [[s, t]], outs, [.column 2], [.column 2], code⟩, 7) := by
    have hsymbols : f.termInputs.run 2 = ([[s, t]], 4) := rfl
    unfold expand
    rw [hsymbols]
    dsimp only
    rw [hterms]
    show (TermFunction.compile "f" [[s, t]] [.column 2] outs [.column 2] >>=
      fun g => pure (g, 7)) = _
    rw [TermFunction.compile_eq (by simp [outs]) rfl rfl, hcode]
    rfl
  obtain ⟨g, m', hg', -, -, -, heval, hdual⟩ := expand_correct hS hcompiled 2
  obtain ⟨rfl, -⟩ := Prod.mk.inj (Except.ok.inj (hg'.symm.trans hg))
  obtain ⟨hgraph, slot, hlayout⟩ := hcompiled.exists_layout hS
  refine ⟨f, _, hf, hg, ?_, ?_, ?_⟩
  · obtain ⟨out, hout, h⟩ := (if_pos rfl).mp (heval [[3, 5]])
    rw [if_pos (by decide)] at h
    have hrun : f.evaluate [[3, 5]] = .ok [[3 * 3, 5 * 5]] := run_eq hlayout hgraph rfl
    obtain rfl := Except.ok.inj (hrun.symm.trans hout)
    exact h
  · obtain ⟨out, hout, h⟩ := (if_pos rfl).mp (hdual [[⟨3, 1⟩, ⟨5, 0⟩]])
    rw [if_pos (by decide)] at h
    have hrun : f.evaluateDual [[⟨3, 1⟩, ⟨5, 0⟩]] =
        .ok [[⟨3 * 3, 3 * 1 + 1 * 3⟩, ⟨5 * 5, 5 * 0 + 0 * 5⟩]] := run_eq hlayout hgraph rfl
    obtain rfl := Except.ok.inj (hrun.symm.trans hout)
    exact h
  · obtain ⟨e, he, h⟩ := (if_neg (by decide)).mp (heval [[3]])
    have hrun : f.evaluate [[3]] = .error (.nonzeroCount 0 2 1) := rfl
    obtain rfl := Except.error.inj (hrun.symm.trans he)
    exact h

end DiffGraph
