import Mathlib
import DiffGraph.Expr.Permute
import DiffGraph.Proofs.Graph.Value
import DiffGraph.Proofs.Pattern.Algebra

/-!
# Steps that add nodes

`Grows refused n S step Q`: run on a graph, the step adds nodes under new
identities, none of them a symbol, and `Q` holds of the larger graph and the
result; or it is refused with one of the given errors. The rules follow
the monad (`Grows.pure`, `Grows.bind`, `Grows.mapM`). The specifications of the
constructors that only move nonzeros stand here: what is built has the nonzeros
of its operand on the other pattern.
-/

namespace DiffGraph

open Expr

/-- Nodes added to a graph, no symbols among them. -/
structure Extends {α : Type} (n : Nat) (S : Set (Expr α)) (n' : Nat) (S' : Set (Expr α)) :
    Prop where
  graph : IsGraph n' S'
  le : n ≤ n'
  subset : S ⊆ S'
  symbols : ∀ x ∈ S', x.isSymbol = true → x ∈ S

/-- An expression of the graph that may be an operand. -/
def Usable {α : Type} (S : Set (Expr α)) (x : Expr α) : Prop :=
  x ∈ S ∧ x.op.isSplit = false

/-- The step adds nodes to the graph and its result satisfies `Q`, or it is refused. -/
def Grows {α β ε : Type} (refused : ε → Prop) (n : Nat) (S : Set (Expr α))
    (step : StateT Nat (Except ε) β) (Q : Set (Expr α) → β → Prop) : Prop :=
  match step n with
  | .ok (r, n') => ∃ S', Extends n S n' S' ∧ Q S' r
  | .error e => refused e

/-- Refused only because the memory does not suffice. -/
def OutOf (memory : Prop) (e : GraphError) : Prop :=
  e = .misuse ∧ ¬ memory

section Rules

variable {α β γ ε : Type} {refused : ε → Prop} {n n' : Nat} {S S' : Set (Expr α)} {x : Expr α}

theorem Extends.refl (hS : IsGraph n S) : Extends n S n S :=
  ⟨hS, Nat.le_refl n, subset_rfl, fun _ h _ => h⟩

theorem Extends.trans {n'' : Nat} {S'' : Set (Expr α)} (h : Extends n S n' S')
    (h' : Extends n' S' n'' S'') : Extends n S n'' S'' :=
  ⟨h'.graph, Nat.le_trans h.le h'.le, h.subset.trans h'.subset,
    fun x hx hs => h.symbols x (h'.symbols x hx hs) hs⟩

theorem Usable.mono (h : Usable S x) (hSS' : S ⊆ S') : Usable S' x :=
  ⟨hSS' h.1, h.2⟩

theorem IsGraph.usable_of_isSymbol (hS : IsGraph n S) (hx : x ∈ S) (hsym : x.isSymbol = true) :
    Usable S x := by
  obtain ⟨id, name, p, rfl⟩ := (hS.wellFormed x hx).exists_of_isSymbol hsym
  exact ⟨hx, rfl⟩

theorem exists_of_forall₂ {R : β → γ → Prop} {xs : List β} {ys : List γ}
    (h : List.Forall₂ R xs ys) {i : Nat} {y : γ} (hy : ys[i]? = some y) :
    ∃ x, xs[i]? = some x ∧ R x y := by
  induction h generalizing i with
  | nil => cases hy
  | cons hR _ ih =>
    cases i with
    | zero => exact ⟨_, rfl, by simpa using Option.some.inj hy ▸ hR⟩
    | succ i => exact ih hy

theorem forall₂_of_getElem? {R : β → γ → Prop} {xs : List β} {ys : List γ}
    (hlen : xs.length = ys.length)
    (h : ∀ (i : Nat) x y, xs[i]? = some x → ys[i]? = some y → R x y) : List.Forall₂ R xs ys := by
  refine List.forall₂_iff_get.2 ⟨hlen, fun i hx hy => ?_⟩
  exact h i _ _ (List.getElem?_eq_getElem hx) (List.getElem?_eq_getElem hy)

theorem map_eq_of_forall₂ {δ : Type} {R : β → γ → Prop} {xs : List β} {ys : List γ} {f : β → δ}
    {g : γ → δ} (h : List.Forall₂ R xs ys) (hfg : ∀ x y, R x y → f x = g y) :
    xs.map f = ys.map g := by
  induction h with
  | nil => rfl
  | cons hR _ ih => rw [List.map_cons, List.map_cons, hfg _ _ hR, ih]

namespace Grows

variable {step : StateT Nat (Except ε) β} {P Q : Set (Expr α) → β → Prop}

theorem pure (hS : IsGraph n S) {r : β} (h : Q S r) : Grows refused n S (pure r) Q :=
  ⟨S, .refl hS, h⟩

/-- A step that leaves the graph alone, although it may draw identities. -/
theorem of_ok (hS : IsGraph n S) {r : β} (hle : n ≤ n') (h : step n = .ok (r, n')) (hr : Q S r) :
    Grows refused n S step Q := by
  unfold Grows
  rw [h]
  exact ⟨S, ⟨hS.mono hle, hle, subset_rfl, fun _ h _ => h⟩, hr⟩

theorem bind {f : β → StateT Nat (Except ε) γ} {R : Set (Expr α) → γ → Prop}
    (h : Grows refused n S step Q)
    (hf : ∀ n' S' r, Extends n S n' S' → Q S' r → Grows refused n' S' (f r) R) :
    Grows refused n S (step >>= f) R := by
  have hbind : (step >>= f) n = (step n >>= fun out => f out.1 out.2) := rfl
  unfold Grows at h ⊢
  rw [hbind]
  cases hstep : step n with
  | error e =>
    simp only [hstep] at h
    exact h
  | ok out =>
    obtain ⟨r, n'⟩ := out
    simp only [hstep] at h
    obtain ⟨S', hext, hQ⟩ := h
    have hnext := hf n' S' r hext hQ
    have hrun : (Except.ok (r, n') >>= fun out => f out.1 out.2) = f r n' := rfl
    unfold Grows at hnext
    rw [hrun]
    cases hout : f r n' with
    | error e => simpa only [hout] using hnext
    | ok out =>
      simp only [hout] at hnext ⊢
      obtain ⟨S'', hext', hR⟩ := hnext
      exact ⟨S'', hext.trans hext', hR⟩

theorem identity {refused : GraphError → Prop} {S₁ : Set (Expr α)} {f : Nat → Build β}
    (h : Extends n S (n + 1) S₁) (hf : Grows refused (n + 1) S₁ (f n) Q) :
    Grows refused n S (liftM Fresh.identity >>= f) Q := by
  have hstep : (liftM Fresh.identity >>= f) n = f n (n + 1) := rfl
  unfold Grows at hf ⊢
  rw [hstep]
  cases hout : f n (n + 1) with
  | error e => simpa only [hout] using hf
  | ok out =>
    simp only [hout] at hf ⊢
    obtain ⟨S', hext, hQ⟩ := hf
    exact ⟨S', h.trans hext, hQ⟩

theorem mono (h : Grows refused n S step P)
    (hPQ : ∀ n' S' r, Extends n S n' S' → P S' r → Q S' r) : Grows refused n S step Q := by
  unfold Grows at h ⊢
  split
  · rename_i r n' hstep
    simp only [hstep] at h
    obtain ⟨S', hext, hP⟩ := h
    exact ⟨S', hext, hPQ n' S' r hext hP⟩
  · rename_i hstep
    simpa only [hstep] using h

theorem weaken {refused' : ε → Prop} (h : Grows refused n S step Q)
    (himp : ∀ e, refused e → refused' e) : Grows refused' n S step Q := by
  unfold Grows at h ⊢
  split <;> rename_i hstep <;> simp only [hstep] at h
  · exact h
  · exact himp _ h

/-- What holds after the step has been run on another graph too. -/
theorem both {G : Set (Expr α)} (h : Grows refused n S step Q) (hG : Grows refused n G step P) :
    Grows refused n S step fun S' r => Q S' r ∧ ∃ n' G', Extends n G n' G' ∧ P G' r := by
  unfold Grows at h hG ⊢
  split
  · rename_i r n' hstep
    simp only [hstep] at h hG
    obtain ⟨S', hext, hQ⟩ := h
    obtain ⟨G', hextG, hP⟩ := hG
    exact ⟨S', hext, hQ, n', G', hextG, hP⟩
  · rename_i hstep
    simpa only [hstep] using h

theorem exists_of_ok (h : Grows refused n S step Q) {r : β} (hr : step n = .ok (r, n')) :
    ∃ S', Extends n S n' S' ∧ Q S' r := by
  unfold Grows at h
  rwa [hr] at h

/-- What holds of the result because of how the step runs. -/
theorem of_run {P : β → Prop} (h : Grows refused n S step Q)
    (hP : ∀ r n', step n = .ok (r, n') → P r) :
    Grows refused n S step fun S' r => Q S' r ∧ P r := by
  unfold Grows at h ⊢
  split
  · rename_i r n' hstep
    simp only [hstep] at h
    obtain ⟨S', hext, hQ⟩ := h
    exact ⟨S', hext, hQ, hP r n' hstep⟩
  · rename_i hstep
    simpa only [hstep] using h

theorem lift (hS : IsGraph n S) {result : Except ε β}
    (hok : ∀ r, result = .ok r → Q S r) (herr : ∀ e, result = .error e → refused e) :
    Grows refused n S (liftM result) Q := by
  cases result with
  | ok r => exact ⟨S, .refl hS, hok r rfl⟩
  | error e => exact herr e rfl

/-- One step for every item; what holds of a result still holds after later steps. -/
theorem mapM {f : β → StateT Nat (Except ε) γ} {P : Set (Expr α) → β → γ → Prop} {xs : List β}
    (hS : IsGraph n S)
    (hf : ∀ x ∈ xs, ∀ n' S', Extends n S n' S' → Grows refused n' S' (f x) fun S'' => P S'' x)
    (hmono : ∀ S' S'' x r, S' ⊆ S'' → P S' x r → P S'' x r) :
    Grows refused n S (xs.mapM f) fun S' rs => List.Forall₂ (P S') xs rs := by
  induction xs generalizing n S with
  | nil => exact pure hS .nil
  | cons x xs ih =>
    rw [List.mapM_cons]
    refine bind (hf x (by simp) n S (.refl hS)) fun n₁ S₁ r h₁ hr => ?_
    refine bind (ih h₁.graph fun y hy n' S' h' => hf y (by simp [hy]) n' S' (h₁.trans h'))
      fun n₂ S₂ rs h₂ hrs => pure h₂.graph (.cons (hmono _ _ _ _ h₂.subset hr) hrs)

theorem mapM_forall₂ {δ : Type} {f : γ → StateT Nat (Except ε) δ} {P : Set (Expr α) → β → γ → Prop}
    {Q : Set (Expr α) → β → δ → Prop} {xs : List β} {ys : List γ} (hS : IsGraph n S)
    (h : List.Forall₂ (P S) xs ys)
    (hf : ∀ x y n' S', Extends n S n' S' → P S' x y →
      Grows refused n' S' (f y) fun S'' => Q S'' x)
    (hP : ∀ S' S'' x y, S' ⊆ S'' → P S' x y → P S'' x y)
    (hQ : ∀ S' S'' x r, S' ⊆ S'' → Q S' x r → Q S'' x r) :
    Grows refused n S (ys.mapM f) fun S' rs => List.Forall₂ (Q S') xs rs := by
  induction xs generalizing n S ys with
  | nil =>
    obtain rfl := List.forall₂_nil_left_iff.1 h
    exact pure hS .nil
  | cons x xs ih =>
    cases h with
    | @cons _ y _ ys hxy hrest =>
      rw [List.mapM_cons]
      refine bind (hf x y n S (.refl hS) hxy) fun n₁ S₁ r h₁ hr => ?_
      refine bind (ih h₁.graph (hrest.imp fun x y => hP _ _ x y h₁.subset)
        fun x y n' S' h' => hf x y n' S' (h₁.trans h')) fun n₂ S₂ rs h₂ hrs => ?_
      exact pure h₂.graph (.cons (hQ _ _ _ _ h₂.subset hr) hrs)

/-- Steps one after the other, with what holds after the items done so far. -/
theorem foldlM {f : β → γ → StateT Nat (Except ε) β} {P : Set (Expr α) → List γ → β → Prop}
    {xs : List γ} {b : β} (hS : IsGraph n S) (hb : P S [] b)
    (hf : ∀ done x rest n' S' b, xs = done ++ x :: rest → Extends n S n' S' → P S' done b →
      Grows refused n' S' (f b x) fun S'' => P S'' (done ++ [x])) :
    Grows refused n S (xs.foldlM f b) fun S' => P S' xs := by
  have hrun (done rest : List γ) (hsplit : xs = done ++ rest) (n' : Nat) (S' : Set (Expr α))
      (b : β) (hext : Extends n S n' S') (hdone : P S' done b) :
      Grows refused n' S' (rest.foldlM f b) fun S'' => P S'' xs := by
    induction rest generalizing done n' S' b with
    | nil => exact pure hext.graph (by rwa [hsplit, List.append_nil])
    | cons x rest ih =>
      rw [List.foldlM_cons]
      refine bind (hf done x rest n' S' b hsplit hext hdone) fun n₁ S₁ b₁ h₁ hb₁ => ?_
      exact ih (done ++ [x]) (by simpa using hsplit) n₁ S₁ b₁ (hext.trans h₁) hb₁
  exact hrun [] xs rfl n S b (.refl hS) hb

end Grows

end Rules

/-! ## Dense values -/

namespace Expr

variable {α T : Type} [Scalar α] [Element Id α T] [Zero T]

/-- The entry of the dense value: the nonzero at the place, zero where there is none. -/
def entry (env : Nat → Nat → T) (x : Expr α) (r c : Nat) : T :=
  x.pattern.entry (nonzeros env x) r c

end Expr

namespace IsGraph

variable {α T : Type} [Scalar α] [Element Id α T] [Zero T] {env : Nat → Nat → T} {n : Nat}
  {S : Set (Expr α)} {x : Expr α}

theorem nonzeros_eq_gather (h : IsGraph n S) (hx : x ∈ S) :
    nonzeros env x = x.pattern.gather (entry env x) :=
  (Pattern.gather_entry (h.length_nonzeros hx)).symm

end IsGraph

theorem entry_of_nonzeros {α T : Type} [Scalar α] [Element Id α T] [Zero T] {env : Nat → Nat → T}
    {x : Expr α} {p : Pattern} {M : Nat → Nat → T} (hp : x.pattern = p)
    (h : nonzeros env x = p.gather M) (r c : Nat) :
    entry env x r c = if (r, c) ∈ p.triplets then M r c else 0 := by
  rw [entry, hp, h, Pattern.entry_gather]

/-! ## Constructors that move nonzeros -/

section Moves

variable {α : Type} {refused : GraphError → Prop} {n : Nat} {S : Set (Expr α)} {x : Expr α}

theorem Grows.fresh (hS : IsGraph n S) {op : Op α} {deps : List (Expr α)} {p : Pattern}
    (hop : op.isReference = false) (hsplit : op.isSplit = false)
    (hwf : ∀ id, (node id op deps p []).WellFormed) (hdeps : ∀ d ∈ deps, Usable S d) :
    Grows refused n S (liftM (fresh op deps p)) fun S' r =>
      Usable S' r ∧ ∃ id, r = node id op deps p [] := by
  refine ⟨insert (node n op deps p []) S, ⟨?_, Nat.le_succ n, Set.subset_insert _ _, ?_⟩,
    ⟨Set.mem_insert _ _, hsplit⟩, n, rfl⟩
  · exact hS.insert rfl (hwf n) (fun d hd => (hdeps d hd).1) fun _ d hd => (hdeps d hd).2
  · rintro y (rfl | hy) hsym
    · cases op <;> simp [isSymbol, name?, Expr.op, Op.isReference] at hsym hop
    · exact hy

variable [Scalar α]

theorem IsGraph.nonzeros_of_compute (hS : IsGraph n S) (hx : x ∈ S) (hop : x.isOperation = true)
    {env : Nat → Nat → α} {v : List α} (h : compute x (x.deps.map (nonzeros env)) = [v]) :
    nonzeros env x = v := by
  rw [nonzeros, hS.values_eq_compute hx hop, h]
  rfl

theorem grows_constant (hS : IsGraph n S) {nz : List α} {p : Pattern} (h : nz.length = p.nnz) :
    Grows refused n S (liftM (constant nz p)) fun S' r =>
      Usable S' r ∧ r.pattern = p ∧ ∀ env : Nat → Nat → α, nonzeros env r = nz := by
  refine (Grows.fresh hS rfl rfl (fun id => .constant id h) (by simp)).mono ?_
  rintro n' S' r hext ⟨hr, id, rfl⟩
  refine ⟨hr, rfl, fun env => hext.graph.nonzeros_of_compute hr.1 rfl ?_⟩
  exact congrArg (fun v => [v]) (List.map_id nz)

theorem IsGraph.nonzeros_of_constant? (hS : IsGraph n S) (hx : x ∈ S) {nz : List α}
    (h : x.constant? = some nz) (env : Nat → Nat → α) : nonzeros env x = nz := by
  obtain ⟨id, op, deps, p, ps⟩ := x
  cases op with
  | constant nz' =>
    obtain rfl : nz' = nz := by simpa [constant?, Expr.op] using h
    refine hS.nonzeros_of_compute hx rfl ?_
    exact congrArg (fun v => [v]) (List.map_id nz')
  | _ => simp [constant?, Expr.op] at h

theorem zeroElement_getD (v : List α) (k : Option Nat) :
    k.elim (Element.ofNumber (0 : α)) (Element.nth v) = (k.bind fun k => v[k]?).getD 0 := by
  cases k <;> rfl

/-- Bringing an expression onto another pattern keeps its entries there. -/
theorem grows_onto (hS : IsGraph n S) (hx : Usable S x) {target : Pattern}
    (hshape : x.shape = target.shape) :
    Grows refused n S (liftM (x.onto target)) fun S' r =>
      Usable S' r ∧ r.pattern = target ∧
        ∀ env : Nat → Nat → α, nonzeros env r = target.gather (entry env x) := by
  unfold onto
  split
  · rename_i hp
    subst hp
    exact .pure hS ⟨hx, rfl, fun env => hS.nonzeros_eq_gather hx.1⟩
  · dsimp only
    split
    · rename_i nz hnz
      refine (grows_constant hS (by simp)).mono ?_
      rintro n' S' r - ⟨hr, hp, hval⟩
      refine ⟨hr, hp, fun env => ?_⟩
      rw [hval, Pattern.projectList_projection, ← hS.nonzeros_of_constant? hx.1 hnz env]
      rfl
    · refine (Grows.fresh hS rfl rfl (fun id => .project id rfl hshape) (by simpa using hx)).mono ?_
      rintro n' S' r hext ⟨hr, id, rfl⟩
      refine ⟨hr, rfl, fun env => hext.graph.nonzeros_of_compute hr.1 rfl ?_⟩
      refine congrArg (fun v => [v]) (Eq.trans ?_ (Pattern.projectList_projection _ _ _))
      exact List.map_congr_left fun k _ => zeroElement_getD _ k

theorem grows_project (hS : IsGraph n S) (hx : Usable S x) {target : Pattern}
    (h : x.shape ≠ target.shape → refused (.shapeMismatch "project" (.onto x.shape target.shape))) :
    Grows refused n S (x.project target) fun S' r =>
      Usable S' r ∧ r.pattern = target ∧
        ∀ env : Nat → Nat → α, nonzeros env r = target.gather (entry env x) := by
  unfold project
  split
  · rename_i hshape
    exact h hshape
  · rename_i hshape
    exact grows_onto hS hx (not_not.1 hshape)

def Size.Fits (shape : Nat × Nat) : Prop :=
  shape.2 < listLimit ∧ shape.1 * shape.2 < listLimit

instance (shape : Nat × Nat) : Decidable (Size.Fits shape) :=
  inferInstanceAs (Decidable (_ ∧ _))

theorem Size.fits_one : Fits (1, 1) := by
  decide

theorem Pattern.denseChecked_eq (m k : Nat) : denseChecked m k =
    if Size.Fits (m, k) then .ok (.dense m k) else .error .misuse := by
  have hfits : Size.Fits (m, k) ↔ k < Size.listLimit ∧ m * k < Size.listLimit := Iff.rfl
  unfold denseChecked Size.checkLength
  by_cases hk : k < Size.listLimit <;> by_cases hm : m * k < Size.listLimit <;>
    simp [hfits, hk, hm, bind, Except.bind, pure, Except.pure]

theorem grows_densify (hS : IsGraph n S) (hx : Usable S x)
    (hfits : ¬ Size.Fits x.shape → refused .misuse) :
    Grows refused n S x.densify fun S' r =>
      Usable S' r ∧ r.pattern = .dense x.pattern.nrows x.pattern.ncols ∧
        ∀ env : Nat → Nat → α, nonzeros env r =
          (Pattern.dense x.pattern.nrows x.pattern.ncols).gather (entry env x) := by
  have hchecked := Pattern.denseChecked_eq x.pattern.nrows x.pattern.ncols
  unfold densify
  refine .bind (Q := fun _ p => p = .dense x.pattern.nrows x.pattern.ncols) (.lift hS ?_ ?_) ?_
  · intro p hp
    rw [hchecked] at hp
    split at hp <;> cases hp
    rfl
  · intro e he
    rw [hchecked] at he
    split at he <;> cases he
    rename_i hlarge
    exact hfits hlarge
  · rintro n' S' p hext rfl
    exact grows_onto hext.graph (hx.mono hext.subset) (by simp [shape, Pattern.shape])

theorem nonzeros_transpose (hS : IsGraph n S) {id : Nat} {mapping : List Nat} {y : Expr α}
    {p : Pattern} (hx : node id (.transpose mapping) [y] p [] ∈ S) (env : Nat → Nat → α) :
    nonzeros env (node id (.transpose mapping) [y] p []) =
      y.pattern.transpose.gather fun c r => entry env y r c := by
  cases hS.wellFormed _ hx with
  | transpose _ numbers pattern =>
    subst numbers
    refine (hS.nonzeros_of_compute hx rfl rfl).trans ?_
    exact Pattern.permuteList_transposition _ _

theorem grows_transpose (hS : IsGraph n S) (hx : Usable S x)
    (hfits : ¬ x.pattern.nrows < Size.listLimit → refused .misuse) :
    Grows refused n S x.transpose fun S' r =>
      Usable S' r ∧ r.pattern = x.pattern.transpose ∧ ∀ env : Nat → Nat → α,
        nonzeros env r = x.pattern.transpose.gather fun c r => entry env x r c := by
  unfold transpose
  split
  · rename_i y hy
    obtain ⟨id, mapping, p, ps, rfl⟩ :
        ∃ id mapping p ps, x = node id (.transpose mapping) [y] p ps := by
      obtain ⟨id, op, deps, p, ps⟩ := x
      unfold transposed? at hy
      split at hy
      · rename_i mapping y' hop hdeps
        obtain rfl := Option.some.inj hy
        obtain rfl : op = .transpose mapping := hop
        obtain rfl : deps = [y'] := hdeps
        exact ⟨_, _, _, _, rfl⟩
      · cases hy
    have hwf := hS.wellFormed _ hx.1
    obtain ⟨rfl, hp⟩ : ps = [] ∧ y.pattern.transpose = p := by
      cases hwf with
      | transpose _ numbers pattern => exact ⟨rfl, pattern⟩
    subst hp
    have hy : y ∈ S := hS.closed _ hx.1 y (List.mem_singleton_self y)
    refine .pure hS ⟨⟨hy, hS.proper _ hx.1 rfl y (List.mem_singleton_self y)⟩,
      (Pattern.transpose_transpose _).symm, fun env => ?_⟩
    show _ = y.pattern.transpose.transpose.gather _
    rw [hS.nonzeros_eq_gather hy, Pattern.transpose_transpose]
    refine Pattern.gather_congr fun r c hrc => ?_
    rw [entry_of_nonzeros rfl (nonzeros_transpose hS hx.1 env)]
    exact (if_pos (Pattern.mem_triplets_transpose.2 hrc)).symm
  · dsimp only
    refine .bind (Q := fun _ p => p = x.pattern.transpose) (.lift hS ?_ ?_) ?_
    · intro p hp
      unfold Pattern.transposeChecked Size.checkLength at hp
      split at hp <;> cases hp
      rfl
    · intro e he
      unfold Pattern.transposeChecked Size.checkLength at he
      split at he <;> cases he
      rename_i hlarge
      exact hfits hlarge
    · rintro n' S' p hext rfl
      split
      · rename_i nz hnz
        refine (grows_constant hext.graph (by simp [permuteList])).mono ?_
        rintro n' S'' r - ⟨hr, hp, hval⟩
        refine ⟨hr, hp, fun env => ?_⟩
        rw [hval, Pattern.permuteList_transposition, ← hS.nonzeros_of_constant? hx.1 hnz env]
        rfl
      · refine (Grows.fresh hext.graph rfl rfl (fun id => .transpose id rfl rfl)
          (by simpa using hx.mono hext.subset)).mono ?_
        rintro n' S'' r hext' ⟨hr, id, rfl⟩
        exact ⟨hr, rfl, fun env => nonzeros_transpose hext'.graph hr.1 env⟩

/-- The second expression is the transpose of the first. -/
structure Flips (x y : Expr α) : Prop where
  shape : y.shape = x.shape.swap
  nonzero : ∀ r c, (r, c) ∈ y.pattern.triplets ↔ (c, r) ∈ x.pattern.triplets
  entry : ∀ (env : Nat → Nat → α) r c, entry env y r c = entry env x c r

theorem Flips.symm {y : Expr α} (h : Flips x y) : Flips y x where
  shape := by rw [h.shape, Prod.swap_swap]
  nonzero r c := (h.nonzero c r).symm
  entry env r c := (h.entry env c r).symm

theorem grows_flips (hS : IsGraph n S) (hx : Usable S x)
    (hfits : ¬ x.pattern.nrows < Size.listLimit → refused .misuse) :
    Grows refused n S x.transpose fun S' r => Usable S' r ∧ Flips x r := by
  refine (grows_transpose hS hx hfits).mono ?_
  rintro n' S' r - ⟨hr, hp, hval⟩
  refine ⟨hr, (congrArg Pattern.shape hp).trans (Pattern.shape_transpose _), fun i j => ?_,
    fun env i j => ?_⟩
  · rw [hp]
    exact Pattern.mem_triplets_transpose
  · rw [entry_of_nonzeros hp (hval env)]
    split
    · rfl
    · rename_i hmem
      exact (Pattern.entry_of_not_mem fun h => hmem (Pattern.mem_triplets_transpose.2 h)).symm

end Moves

end DiffGraph
