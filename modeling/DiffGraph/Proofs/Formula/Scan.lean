import Mathlib
import DiffGraph.Proofs.Formula.Lexeme

/-!
# What the tokenizer accepts

The tokens of a text are the ones that it spells, and the tokenizer finds no
others (`tokens_eq_ok_iff`): behind a name or a number it stops at the first
character that cannot go on. Its only errors are characters that start no lexeme
and runs of digits, points and `e` that are no numerals (`exists_readNumber_iff`).
-/

namespace DiffGraph

/-! ## Numerals -/

namespace Decimal

/-- Digits with at most one point, and at least one digit. -/
inductive IsMantissa : List Char → Prop
  | whole {ds : List Char} (hne : ds ≠ []) (hds : ∀ d ∈ ds, d.isDigit = true) : IsMantissa ds
  | point {ds ps : List Char} (hne : ds ++ ps ≠ []) (hds : ∀ d ∈ ds, d.isDigit = true)
      (hps : ∀ d ∈ ps, d.isDigit = true) : IsMantissa (ds ++ '.' :: ps)

/-- Nothing, or `e` and digits. -/
inductive IsExponent : List Char → Prop
  | nil : IsExponent []
  | digits {ds : List Char} (hne : ds ≠ []) (hds : ∀ d ∈ ds, d.isDigit = true) :
      IsExponent ('e' :: ds)

/-- A number as formulas write it. -/
def IsNumeral (cs : List Char) : Prop :=
  ∃ m e, cs = m ++ e ∧ IsMantissa m ∧ IsExponent e

theorem isSome_exponent?_iff {cs : List Char} : (exponent? cs).isSome = true ↔ IsExponent cs := by
  constructor
  · intro h
    unfold exponent? at h
    split at h
    · exact .nil
    · split_ifs at h with hds
      · exact .digits hds.1 (List.all_eq_true.1 hds.2)
      · cases h
    · cases h
  · intro h
    cases h with
    | nil => rfl
    | digits hne hds =>
      rw [exponent?, if_pos ⟨hne, List.all_eq_true.2 hds⟩]
      rfl

theorem IsExponent.head? {cs : List Char} (h : IsExponent cs) :
    ∀ d ∈ cs.head?, d.isDigit = false ∧ d ≠ '.' := by
  cases h with
  | nil => simp
  | digits => simp

theorem exists_mantissa (cs : List Char) :
    ∃ m, cs = m ++ (mantissa cs).2.2 ∧
      ((mantissa cs).1 ++ (mantissa cs).2.1 ≠ [] → IsMantissa m) := by
  have hds : ∀ d ∈ cs.takeWhile Char.isDigit, d.isDigit = true :=
    fun d hd => List.mem_takeWhile_imp hd
  have hcs : cs.takeWhile Char.isDigit ++ cs.dropWhile Char.isDigit = cs :=
    List.takeWhile_append_dropWhile
  unfold mantissa
  split
  · rename_i rest hrest
    refine ⟨cs.takeWhile Char.isDigit ++ '.' :: rest.takeWhile Char.isDigit, ?_, fun hne =>
      .point hne hds fun d hd => List.mem_takeWhile_imp hd⟩
    rw [List.append_assoc, List.cons_append, List.takeWhile_append_dropWhile, ← hrest, hcs]
  · refine ⟨cs.takeWhile Char.isDigit, hcs.symm, fun hne => .whole ?_ hds⟩
    rwa [List.append_nil] at hne

theorem mantissa_append {m e : List Char} (hm : IsMantissa m) (he : IsExponent e) :
    (mantissa (m ++ e)).1 ++ (mantissa (m ++ e)).2.1 ≠ [] ∧ (mantissa (m ++ e)).2.2 = e := by
  have hend : ∀ d ∈ e.head?, d.isDigit = false := fun d hd => (he.head? d hd).1
  cases hm with
  | whole hne hds =>
    obtain ⟨htake, hdrop⟩ := Formula.takeWhile_run hds hend
    simp only [mantissa, htake, hdrop]
    split
    · exact absurd rfl (he.head? '.' rfl).2
    · exact ⟨by rwa [List.append_nil], rfl⟩
  | @point ds ps hne hds hps =>
    have hpoint : ∀ d ∈ ('.' :: (ps ++ e)).head?, d.isDigit = false := by simp
    obtain ⟨htake, hdrop⟩ := Formula.takeWhile_run hds hpoint
    obtain ⟨htake', hdrop'⟩ := Formula.takeWhile_run hps hend
    simp only [mantissa, List.append_assoc, List.cons_append, htake, hdrop, htake', hdrop']
    exact ⟨hne, trivial⟩

theorem isSome_read?_iff {cs : List Char} : (read? cs).isSome = true ↔ IsNumeral cs := by
  have hread : (read? cs).isSome = true ↔
      (mantissa cs).1 ++ (mantissa cs).2.1 ≠ [] ∧ (exponent? (mantissa cs).2.2).isSome = true := by
    simp only [read?]
    split_ifs with hne
    · simp [hne]
    · cases exponent? (mantissa cs).2.2 <;> simp [hne]
  rw [hread, isSome_exponent?_iff]
  constructor
  · rintro ⟨hne, he⟩
    obtain ⟨m, hm, hmantissa⟩ := exists_mantissa cs
    exact ⟨m, _, hm, hmantissa hne, he⟩
  · rintro ⟨m, e, rfl, hm, he⟩
    obtain ⟨hne, hrest⟩ := mantissa_append hm he
    exact ⟨hne, by rwa [hrest]⟩

end Decimal

namespace Formula

variable {α : Type} [OrderedScalar α]

theorem exists_readNumber_iff {literal : List Char} :
    (∃ t : Token α, readNumber literal = .ok t) ↔ Decimal.IsNumeral literal := by
  rw [← Decimal.isSome_read?_iff]
  unfold readNumber
  cases Decimal.read? literal <;> simp

/-! ## Tokens -/

/-- The outcome is the tokens that the text spells, or an error in the text. -/
def Scanned (cs : List Char) : Except (Error α) (List (Token α)) → Prop
  | .ok ts => Spells cs ts
  | .error e => ∀ g, e ≠ .graph g

section Scanned

variable {c : Char} {cs cs' : List Char} {t : Token α} {r : Except (Error α) (List (Token α))}

theorem Scanned.blank (h : Scanned cs r) (hblank : Text.isBlank c = true) :
    Scanned (c :: cs) r := by
  cases r with
  | ok ts => exact Spells.blank hblank h
  | error e => exact h

theorem Scanned.cons (h : Scanned cs r) (ht : ∀ ts, Spells cs ts → Spells cs' (t :: ts)) :
    Scanned cs' (do return t :: (← r)) := by
  cases r with
  | ok ts => exact ht ts h
  | error e => exact h

end Scanned

theorem run_takeWhile (p : Char → Bool) (cs : List Char) :
    cs.takeWhile p ++ cs.dropWhile p = cs ∧ (∀ d ∈ cs.takeWhile p, p d = true) ∧
      ∀ d ∈ (cs.dropWhile p).head?, p d = false := by
  refine ⟨List.takeWhile_append_dropWhile, fun d hd => List.mem_takeWhile_imp hd, fun d hd => ?_⟩
  have hstop := List.head?_dropWhile_not p cs
  rw [hd] at hstop
  simpa using hstop

theorem scanned_tokens (cs : List Char) : Scanned (α := α) cs (tokens cs) := by
  fun_induction tokens (α := α) cs with
  | case1 => exact .nil
  | case2 c rest _ hblank ih => exact ih.blank hblank
  | case3 c rest _ _ hnumber ih =>
    obtain ⟨hrest, hchars, hend⟩ := run_takeWhile isNumberChar rest
    cases hread : readNumber (α := α) (c :: rest.takeWhile isNumberChar) with
    | ok t =>
      refine ih.cons fun ts hts => ?_
      have hspells := Spells.number hnumber hchars hend hread hts
      rwa [List.cons_append, hrest] at hspells
    | error e =>
      intro g hg
      unfold readNumber at hread
      split at hread <;> cases hread
      cases hg
  | case4 c rest _ _ _ hname t _ ih =>
    obtain ⟨hrest, hchars, hend⟩ := run_takeWhile isNameChar rest
    refine ih.cons fun ts hts => ?_
    have hspells := Spells.name hname hchars hend hts
    rwa [List.cons_append, hrest] at hspells
  | case5 c rest _ _ _ _ t hsign ih => exact ih.cons fun ts => .sign hsign
  | case6 => simp [Scanned]

/-- The tokens that the tokenizer finds are the ones that the text spells. -/
theorem tokens_eq_ok_iff {cs : List Char} {ts : List (Token α)} :
    tokens cs = .ok ts ↔ Spells cs ts := by
  refine ⟨fun h => ?_, tokens_of_spells⟩
  have hscanned := scanned_tokens (α := α) cs
  rwa [h] at hscanned

end Formula

end DiffGraph
