import Mathlib

/-!
# The memory of generated C

The arrays that the generated code works on: its own, which have the sizes of
their declarations and no values at first, and those of its caller. Assigning
consecutive elements fills a part of an array and leaves everything else
(`fill_between`, `fill_of_ne`).
-/

namespace DiffGraph.Source

variable {α : Type}

/-! ## Memory -/

/-- An array that the code assigns to: one of its own, or the one that a result points to. -/
inductive Place where
  | work (name : String)
  | result (k : Nat)
  deriving DecidableEq

/-- What the caller hands over for every argument and every result: an array, or a null pointer.
The elements of a result need not have values. -/
structure Pointers (α : Type) where
  args : List (Option (List α))
  results : List (Option (List (Option α)))

def Memory (α : Type) : Type :=
  Place → Option (List (Option α))

namespace Memory

def length? (m : Memory α) (p : Place) : Option Nat :=
  (m p).map List.length

/-- The value of an element, if it has one. -/
def read (m : Memory α) (p : Place) (k : Nat) : Option α :=
  ((m p).bind (·[k]?)).join

def put (m : Memory α) (p : Place) (k : Nat) (x : α) : Memory α :=
  fun q => if q = p then (m p).map (·.set k (some x)) else m q

/-- Assigns to an element that there is. -/
def write (m : Memory α) (p : Place) (k : Nat) (x : α) : Option (Memory α) :=
  if (m.length? p).any (k < ·) then some (m.put p k x) else none

def fill (m : Memory α) (p : Place) (start : Nat) : List α → Memory α
  | [] => m
  | x :: xs => fill (m.put p start x) p (start + 1) xs

def fillAll (m : Memory α) (parts : List (Place × List α)) : Memory α :=
  parts.foldl (fun m (p, xs) => m.fill p 0 xs) m

/-- The array begins with the given values. -/
def Contains (m : Memory α) (p : Place) (xs : List α) : Prop :=
  ∃ rest, m p = some (xs.map some ++ rest)

def HasRoom (m : Memory α) (p : Place) (n : Nat) : Prop :=
  ∃ size, m.length? p = some size ∧ n ≤ size

/-- The memories differ in one array at most. -/
def AgreesOff (p : Place) (m m' : Memory α) : Prop :=
  ∀ q, q ≠ p → m q = m' q

variable {m m' : Memory α} {p q : Place} {k start : Nat} {x : α} {xs : List α}
  {parts : List (Place × List α)}

theorem AgreesOff.refl (m : Memory α) : m.AgreesOff p m :=
  fun _ _ => rfl

theorem put_of_ne (h : q ≠ p) : m.put p k x q = m q :=
  if_neg h

theorem put_self : m.put p k x p = (m p).map (·.set k (some x)) :=
  if_pos rfl

@[simp] theorem length?_put : (m.put p k x).length? q = m.length? q := by
  unfold length?
  by_cases h : q = p
  · subst h
    rw [put_self]
    cases m q <;> simp
  · rw [put_of_ne h]

theorem put_put (y : α) : (m.put p k x).put p k y = m.put p k y := by
  funext q
  by_cases h : q = p
  · subst h
    rw [put_self, put_self, put_self]
    cases m q <;> simp
  · rw [put_of_ne h, put_of_ne h, put_of_ne h]

theorem HasRoom.mono {n n' : Nat} (h : m.HasRoom p n) (hn : n' ≤ n) : m.HasRoom p n' :=
  h.imp fun _ hsize => ⟨hsize.1, hn.trans hsize.2⟩

theorem HasRoom.exists_eq {n : Nat} (h : m.HasRoom p n) : ∃ ys, m p = some ys ∧ n ≤ ys.length := by
  obtain ⟨size, hsize, hn⟩ := h
  obtain ⟨ys, hys, rfl⟩ := Option.map_eq_some_iff.1 hsize
  exact ⟨ys, hys, hn⟩

theorem HasRoom.write (h : m.HasRoom p (k + 1)) : m.write p k x = some (m.put p k x) := by
  obtain ⟨size, hsize, hk⟩ := h
  rw [Memory.write, hsize, if_pos (by simpa using hk)]

theorem length?_write (h : m.write p k x = some m') : m'.length? q = m.length? q := by
  obtain ⟨-, heq⟩ := Option.ite_none_right_eq_some.1 h
  rw [← Option.some.inj heq, length?_put]

theorem length?_foldlM {β : Type} {items : List β} {step : Memory α → β → Option (Memory α)}
    (hstep : ∀ b m m', step m b = some m' → m'.length? q = m.length? q)
    (h : items.foldlM step m = some m') : m'.length? q = m.length? q := by
  induction items generalizing m with
  | nil =>
    obtain rfl := Option.some.inj h
    rfl
  | cons b items ih =>
    obtain ⟨next, hnext, hrest⟩ := Option.bind_eq_some_iff.1 h
    exact (ih hrest).trans (hstep b m next hnext)

theorem HasRoom.read_put (h : m.HasRoom p (k + 1)) : (m.put p k x).read p k = some x := by
  obtain ⟨ys, hys, hk⟩ := h.exists_eq
  have hlt : k < ys.length := hk
  simp [read, put_self, hys, hlt]

/-! ### Filling arrays -/

theorem fill_of_ne (h : q ≠ p) : m.fill p start xs q = m q := by
  induction xs generalizing m start with
  | nil => rfl
  | cons x xs ih => rw [fill, ih, put_of_ne h]

theorem agreesOff_fill : AgreesOff p (m.fill p start xs) m :=
  fun _ h => fill_of_ne h

@[simp] theorem length?_fill : (m.fill p start xs).length? q = m.length? q := by
  induction xs generalizing m start with
  | nil => rfl
  | cons x xs ih => rw [fill, ih, length?_put]

theorem HasRoom.fill {n : Nat} (h : m.HasRoom q n) : (m.fill p start xs).HasRoom q n := by
  rwa [HasRoom, length?_fill]

theorem fill_append (ys : List α) :
    m.fill p start (xs ++ ys) = (m.fill p start xs).fill p (start + xs.length) ys := by
  induction xs generalizing m start with
  | nil => rfl
  | cons x xs ih =>
    rw [List.cons_append, fill, ih, fill, List.length_cons, Nat.add_right_comm, Nat.add_assoc]

/-- A filled array keeps what stands before and behind the part that is filled. -/
theorem fill_between {front old rest : List (Option α)} (h : m p = some (front ++ old ++ rest))
    (hfront : front.length = start) (hold : old.length = xs.length) :
    m.fill p start xs p = some (front ++ xs.map some ++ rest) := by
  induction xs generalizing m start front old with
  | nil => rw [fill, h, List.length_eq_zero_iff.1 hold, List.map_nil]
  | cons x xs ih =>
    obtain ⟨y, old, rfl⟩ := List.exists_cons_of_length_eq_add_one hold
    have hput : m.put p start x p = some (front ++ [some x] ++ old ++ rest) := by
      rw [put_self, h, ← hfront]
      simp
    rw [fill, ih hput (by simp [hfront]) (by simpa using hold)]
    simp

theorem fill_self {ys : List (Option α)} (h : m p = some ys) (hroom : xs.length ≤ ys.length) :
    m.fill p 0 xs p = some (xs.map some ++ ys.drop xs.length) := by
  have hsplit : m p = some ([] ++ ys.take xs.length ++ ys.drop xs.length) := by
    rw [List.nil_append, List.take_append_drop, h]
  exact fill_between hsplit rfl (List.length_take_of_le hroom)

/-- The contents of a filled array depend on its contents before only. -/
theorem fill_congr (h : m p = m' p) : m.fill p start xs p = m'.fill p start xs p := by
  induction xs generalizing m m' start with
  | nil => exact h
  | cons x xs ih =>
    rw [fill, fill]
    exact ih (by rw [put_self, put_self, h])

theorem fillAll_cons (w : Place × List α) :
    m.fillAll (w :: parts) = (m.fill w.1 0 w.2).fillAll parts :=
  rfl

theorem fillAll_of_forall_ne (h : ∀ w ∈ parts, q ≠ w.1) : m.fillAll parts q = m q := by
  induction parts generalizing m with
  | nil => rfl
  | cons w parts ih =>
    rw [fillAll_cons, ih fun v hv => h v (List.mem_cons_of_mem _ hv),
      fill_of_ne (h w List.mem_cons_self)]

@[simp] theorem length?_fillAll : (m.fillAll parts).length? q = m.length? q := by
  induction parts generalizing m with
  | nil => rfl
  | cons w parts ih => rw [fillAll_cons, ih, length?_fill]

theorem HasRoom.fillAll {n : Nat} (h : m.HasRoom q n) : (m.fillAll parts).HasRoom q n := by
  rwa [HasRoom, length?_fillAll]

theorem fillAll_of_mem (hparts : (parts.map Prod.fst).Nodup) (h : (p, xs) ∈ parts) :
    m.fillAll parts p = m.fill p 0 xs p := by
  induction parts generalizing m with
  | nil => cases h
  | cons w parts ih =>
    obtain ⟨hw, hparts⟩ := List.nodup_cons.1 hparts
    rw [fillAll_cons]
    rcases List.mem_cons.1 h with rfl | h
    · exact fillAll_of_forall_ne fun v hv heq => hw (List.mem_map.2 ⟨v, hv, heq.symm⟩)
    · rw [ih hparts h]
      exact fill_congr (fill_of_ne fun heq => hw (heq ▸ List.mem_map_of_mem h))

theorem getElem?_concat_of_some {y : α} (h : xs[k]? = some y) : (xs ++ [x])[k]? = some y :=
  (List.getElem?_append_left (List.getElem?_eq_some_iff.1 h).1).trans h

/-- A loop whose steps assign one element after the other. Their values may depend on other arrays
only. -/
theorem foldlM_write {step : Memory α → Nat → Option (Memory α)}
    (hstep : ∀ (i : Nat) (x : α), xs[i]? = some x → ∀ m', m'.AgreesOff p m →
      step m' i = m'.write p (start + i) x)
    (room : m.HasRoom p (start + xs.length)) :
    (List.range xs.length).foldlM step m = some (m.fill p start xs) := by
  induction xs using List.reverseRecOn with
  | nil => rfl
  | append_singleton xs x ih =>
    rw [List.length_append] at room ⊢
    have hfirst : (List.range xs.length).foldlM step m = some (m.fill p start xs) :=
      ih (fun i y hy => hstep i y (getElem?_concat_of_some hy)) (room.mono (by omega))
    have hroom : (m.fill p start xs).HasRoom p (start + xs.length + 1) := room.fill
    have hlast : step (m.fill p start xs) xs.length =
        some ((m.fill p start xs).put p (start + xs.length) x) := by
      rw [hstep _ x List.getElem?_concat_length _ agreesOff_fill, hroom.write]
    rw [List.length_singleton, List.range_succ, List.foldlM_append, hfirst, fill_append]
    simp [hlast, fill]

/-! ### Reading arrays -/

theorem Contains.congr (h : m.Contains p xs) (heq : m' p = m p) : m'.Contains p xs := by
  obtain ⟨rest, hp⟩ := h
  exact ⟨rest, heq.trans hp⟩

theorem Contains.read (h : m.Contains p xs) (hx : xs[k]? = some x) : m.read p k = some x := by
  obtain ⟨rest, hp⟩ := h
  obtain ⟨hk, rfl⟩ := List.getElem?_eq_some_iff.1 hx
  simp [Memory.read, hp, List.getElem?_append_left, hk]

theorem HasRoom.contains_fill (h : m.HasRoom p xs.length) : (m.fill p 0 xs).Contains p xs := by
  obtain ⟨ys, hys, hroom⟩ := h.exists_eq
  exact ⟨_, fill_self hys hroom⟩

/-- An array that is assigned the same numbers whenever it is assigned. -/
theorem HasRoom.contains_fillAll (h : m.HasRoom p xs.length) (hmem : (p, xs) ∈ parts)
    (hsame : ∀ ys, (p, ys) ∈ parts → ys = xs) : (m.fillAll parts).Contains p xs := by
  induction parts generalizing m with
  | nil => cases hmem
  | cons w parts ih =>
    rw [fillAll_cons]
    by_cases hrest : (p, xs) ∈ parts
    · exact ih h.fill hrest fun ys hys => hsame ys (List.mem_cons_of_mem _ hys)
    · obtain rfl : (p, xs) = w := (List.mem_cons.1 hmem).resolve_right hrest
      refine h.contains_fill.congr (fillAll_of_forall_ne ?_)
      rintro ⟨q, ys⟩ hw rfl
      exact hrest (hsame ys (List.mem_cons_of_mem _ hw) ▸ hw)

end Memory

end DiffGraph.Source
