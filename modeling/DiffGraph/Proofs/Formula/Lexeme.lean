import Mathlib
import DiffGraph.Formula.Token
import DiffGraph.Op

/-!
# Lexemes of formulas

`Spells cs ts` says that a text is made of the lexemes of the given tokens with
blanks between them, where names and numbers are as long as possible. The
tokenizer finds the tokens of every such text (`tokens_of_spells`). Lexemes that
signs separate need no blanks (`Lexemes.append_sign`).
-/

namespace DiffGraph.Formula

/-! ## Classes of characters -/

def blankCodes : List Nat :=
  [0x9, 0xa, 0xb, 0xc, 0xd, 0x20, 0x85, 0xa0, 0x1680, 0x2000, 0x2001, 0x2002, 0x2003, 0x2004,
    0x2005, 0x2006, 0x2007, 0x2008, 0x2009, 0x200a, 0x2028, 0x2029, 0x202f, 0x205f, 0x3000]

theorem eq_iff_toNat {c d : Char} : c = d ↔ c.toNat = d.toNat :=
  ⟨congrArg _, fun h => Char.ext (UInt32.toNat_inj.1 h)⟩

theorem toNat_mem_blankCodes {c : Char} (h : Text.isBlank c = true) : c.toNat ∈ blankCodes := by
  delta Text.isBlank at h
  simp only [Char.isWhitespace, Bool.or_eq_true, Bool.and_eq_true, decide_eq_true_eq,
    beq_iff_eq, eq_iff_toNat] at h
  simp only [blankCodes, List.mem_cons, List.not_mem_nil, or_false]
  have : ' '.toNat = 0x20 ∧ '\t'.toNat = 0x9 ∧ '\r'.toNat = 0xd ∧ '\n'.toNat = 0xa := by decide
  omega

theorem toNat_of_startsNumber {c : Char} (h : startsNumber c = true) :
    c.toNat = 0x2e ∨ 0x30 ≤ c.toNat ∧ c.toNat ≤ 0x39 := by
  simp only [startsNumber, Char.isDigit, Bool.or_eq_true, Bool.and_eq_true, decide_eq_true_eq,
    beq_iff_eq, eq_iff_toNat, ge_iff_le, UInt32.le_iff_toNat_le] at h
  have : '.'.toNat = 0x2e := by decide
  have h0 : '0'.val.toNat = 0x30 := rfl
  have h9 : '9'.val.toNat = 0x39 := rfl
  have hval : c.val.toNat = c.toNat := rfl
  omega

def nonLetterCodes : List Nat :=
  blankCodes ++ [0x2e, 0x30, 0x31, 0x32, 0x33, 0x34, 0x35, 0x36, 0x37, 0x38, 0x39]

theorem startsName_of_mem_codes : ∀ n ∈ nonLetterCodes, startsName (Char.ofNat n) = false := by
  decide

theorem startsName_eq_false {c : Char} (h : c.toNat ∈ nonLetterCodes) : startsName c = false := by
  rw [← Char.ofNat_toNat c]
  exact startsName_of_mem_codes _ h

theorem isBlank_of_startsNumber {c : Char} (h : startsNumber c = true) :
    Text.isBlank c = false := by
  rw [Bool.eq_false_iff]
  intro hblank
  have hmem := toNat_mem_blankCodes hblank
  have hcode := toNat_of_startsNumber h
  simp only [blankCodes, List.mem_cons, List.not_mem_nil, or_false] at hmem
  omega

theorem isBlank_of_startsName {c : Char} (h : startsName c = true) : Text.isBlank c = false := by
  rw [Bool.eq_false_iff]
  intro hblank
  rw [startsName_eq_false (List.mem_append_left _ (toNat_mem_blankCodes hblank))] at h
  cases h

theorem startsNumber_of_startsName {c : Char} (h : startsName c = true) :
    startsNumber c = false := by
  rw [Bool.eq_false_iff]
  intro hnumber
  have hcode := toNat_of_startsNumber hnumber
  have hmem : c.toNat ∈ nonLetterCodes := by
    simp only [nonLetterCodes, List.mem_append, List.mem_cons, List.not_mem_nil, or_false]
    omega
  rw [startsName_eq_false hmem] at h
  cases h

theorem classes_of_sign {α : Type} {c : Char} {t : Token α} (h : sign? c = some t) :
    Text.isBlank c = false ∧ isNumberChar c = false ∧ startsNumber c = false ∧
      startsName c = false ∧ isNameChar c = false := by
  unfold sign? at h
  split at h
  case h_10 => cases h
  all_goals exact ⟨by decide +kernel, by decide, by decide, by decide, by decide⟩

/-! ## Spelling -/

section Spells

variable {α : Type} [OrderedScalar α] {c : Char} {cs : List Char} {t : Token α}
  {ts : List (Token α)}

/-- The text consists of the lexemes of the tokens, with blanks between them. -/
inductive Spells : List Char → List (Token α) → Prop
  | nil : Spells [] []
  | blank {c : Char} {cs : List Char} {ts : List (Token α)} (hblank : Text.isBlank c = true)
      (hrest : Spells cs ts) : Spells (c :: cs) ts
  | sign {c : Char} {t : Token α} {cs : List Char} {ts : List (Token α)} (hsign : sign? c = some t)
      (hrest : Spells cs ts) : Spells (c :: cs) (t :: ts)
  | name {c : Char} {lexeme cs : List Char} {ts : List (Token α)} (hstart : startsName c = true)
      (hchars : ∀ d ∈ lexeme, isNameChar d = true) (hend : ∀ d ∈ cs.head?, isNameChar d = false)
      (hrest : Spells cs ts) :
      Spells (c :: lexeme ++ cs) (.name (String.ofList (c :: lexeme)) :: ts)
  | number {c : Char} {lexeme cs : List Char} {t : Token α} {ts : List (Token α)}
      (hstart : startsNumber c = true) (hchars : ∀ d ∈ lexeme, isNumberChar d = true)
      (hend : ∀ d ∈ cs.head?, isNumberChar d = false) (hread : readNumber (c :: lexeme) = .ok t)
      (hrest : Spells cs ts) : Spells (c :: lexeme ++ cs) (t :: ts)

theorem takeWhile_run {p : Char → Bool} {run rest : List Char} (hrun : ∀ d ∈ run, p d = true)
    (hend : ∀ d ∈ rest.head?, p d = false) :
    (run ++ rest).takeWhile p = run ∧ (run ++ rest).dropWhile p = rest := by
  rw [List.takeWhile_append_of_pos hrun, List.dropWhile_append_of_pos hrun]
  cases rest with
  | nil => simp
  | cons d rest => simp [hend d rfl]

/-- The tokenizer finds the tokens that a text spells. -/
theorem tokens_of_spells (h : Spells cs ts) : tokens cs = .ok ts := by
  induction h with
  | nil => rw [tokens]
  | blank hblank hrest ih => rw [tokens, if_pos hblank, ih]
  | @sign c t cs ts hsign hrest ih =>
    obtain ⟨hblank, -, hnumber, hname, -⟩ := classes_of_sign hsign
    rw [tokens, if_neg (by simp [hblank]), if_neg (by simp [hnumber]), if_neg (by simp [hname]),
      hsign, ih]
    rfl
  | @name c lexeme cs ts hstart hchars hend hrest ih =>
    obtain ⟨htake, hdrop⟩ := takeWhile_run hchars hend
    rw [List.cons_append, tokens, if_neg (by simp [isBlank_of_startsName hstart]),
      if_neg (by simp [startsNumber_of_startsName hstart]), if_pos hstart]
    simp only [htake, hdrop, ih]
    rfl
  | @number c lexeme cs t ts hstart hchars hend hread hrest ih =>
    obtain ⟨htake, hdrop⟩ := takeWhile_run hchars hend
    rw [List.cons_append, tokens, if_neg (by simp [isBlank_of_startsNumber hstart]), if_pos hstart]
    simp only [htake, hdrop, hread, ih]
    rfl

/-- The text is made of the lexemes of the tokens, whatever follows that goes on with no name
and no number. -/
def Lexemes (cs : List Char) (ts : List (Token α)) : Prop :=
  ∀ rest us, (∀ d ∈ rest.head?, isNameChar d = false ∧ isNumberChar d = false) → Spells rest us →
    Spells (cs ++ rest) (ts ++ us)

namespace Lexemes

variable {cs' : List Char} {ts' : List (Token α)}

theorem spells (h : Lexemes cs ts) : Spells cs ts := by
  have happend := h [] [] (by simp) .nil
  rwa [List.append_nil, List.append_nil] at happend

theorem nil : Lexemes (α := α) [] [] :=
  fun _ _ _ hrest => hrest

theorem sign (h : Lexemes cs ts) (hc : sign? c = some t) : Lexemes (c :: cs) (t :: ts) :=
  fun rest us hend hrest => .sign hc (h rest us hend hrest)

theorem name {lexeme : List Char} (hstart : startsName c = true)
    (hchars : ∀ d ∈ lexeme, isNameChar d = true) :
    Lexemes (α := α) (c :: lexeme) [.name (String.ofList (c :: lexeme))] :=
  fun _ _ hend hrest => .name hstart hchars (fun d hd => (hend d hd).1) hrest

theorem number {lexeme : List Char} (hstart : startsNumber c = true)
    (hchars : ∀ d ∈ lexeme, isNumberChar d = true) (hread : readNumber (c :: lexeme) = .ok t) :
    Lexemes (c :: lexeme) [t] :=
  fun _ _ hend hrest => .number hstart hchars (fun d hd => (hend d hd).2) hread hrest

theorem append_sign (h : Lexemes cs ts) (hc : sign? c = some t) (h' : Lexemes cs' ts') :
    Lexemes (cs ++ c :: cs') (ts ++ t :: ts') := by
  intro rest us hend hrest
  obtain ⟨-, hnumber, -, -, hname⟩ := classes_of_sign hc
  have hsign : Spells (c :: (cs' ++ rest)) (t :: (ts' ++ us)) := .sign hc (h' rest us hend hrest)
  rw [List.append_assoc, List.append_assoc]
  exact h _ _ (fun d hd => Option.some.inj hd ▸ ⟨hname, hnumber⟩) hsign

theorem brackets (h : Lexemes cs ts) :
    Lexemes ('(' :: (cs ++ [')'])) (.lparen :: (ts ++ [.rparen])) :=
  (h.append_sign rfl nil).sign rfl

end Lexemes

/-! ## Names and whole numbers -/

/-- A letter or an underscore, and then letters, digits and underscores. -/
def IsName (name : String) : Prop :=
  ∃ c lexeme, name.toList = c :: lexeme ∧ startsName c = true ∧ ∀ d ∈ lexeme, isNameChar d = true

theorem isName_of_isAlpha {name : String} (hne : name.toList.isEmpty = false)
    (halpha : name.toList.all Char.isAlpha = true) : IsName name := by
  obtain ⟨c, lexeme, hname⟩ := List.exists_cons_of_ne_nil (List.isEmpty_eq_false_iff.1 hne)
  rw [hname, List.all_eq_true] at halpha
  refine ⟨c, lexeme, hname, ?_, fun d hd => ?_⟩
  · simp [startsName, Text.isLetter_of_isAlpha (halpha c List.mem_cons_self)]
  · simp [isNameChar, Text.isLetter_of_isAlpha (halpha d (List.mem_cons_of_mem _ hd))]

theorem lexemes_name {name : String} (h : IsName name) :
    Lexemes (α := α) name.toList [.name name] := by
  obtain ⟨c, lexeme, hname, hstart, hchars⟩ := h
  have hlexemes := Lexemes.name (α := α) hstart hchars
  rwa [← hname, String.ofList_toList] at hlexemes

theorem read?_toDigits (n : Nat) : Decimal.read? (Nat.toDigits 10 n) = some ⟨n, 0⟩ := by
  have hdigit : ∀ d ∈ Nat.toDigits 10 n, d.isDigit = true := fun d hd =>
    Nat.isDigit_of_mem_toDigits (by decide) (by decide) hd
  have hmantissa : Decimal.mantissa (Nat.toDigits 10 n) = (Nat.toDigits 10 n, [], []) := by
    have hend : ∀ d ∈ ([] : List Char).head?, d.isDigit = false := by simp
    obtain ⟨htake, hdrop⟩ := takeWhile_run hdigit hend
    rw [List.append_nil] at htake hdrop
    simp only [Decimal.mantissa, htake, hdrop]
  have hvalue : Decimal.digitsValue (Nat.toDigits 10 n) = n := by
    refine Eq.trans ?_ (Nat.ofDigitChars_ten_toDigits (n := n))
    simp only [Decimal.digitsValue, Nat.ofDigitChars_eq_foldl]
  simp only [Decimal.read?, hmantissa, List.append_nil, if_neg Nat.toDigits_ne_nil,
    Decimal.exponent?, hvalue]
  rfl

theorem lexemes_natural (n : Nat) :
    Lexemes (toString n).toList [.number (OrderedScalar.ofDecimal n 0 : α)] := by
  have hdigit : ∀ d ∈ Nat.toDigits 10 n, d.isDigit = true := fun d hd =>
    Nat.isDigit_of_mem_toDigits (by decide) (by decide) hd
  rw [Nat.toString_eq_ofList_toDigits, String.toList_ofList]
  have hread :
      readNumber (Nat.toDigits 10 n) = .ok (.number (OrderedScalar.ofDecimal n 0 : α)) := by
    rw [readNumber, read?_toDigits]
  cases hcs : Nat.toDigits 10 n with
  | nil => exact absurd hcs Nat.toDigits_ne_nil
  | cons c lexeme =>
    rw [hcs] at hdigit hread
    refine .number ?_ (fun d hd => ?_) hread
    · simp [startsNumber, hdigit c List.mem_cons_self]
    · simp [isNumberChar, hdigit d (List.mem_cons_of_mem _ hd)]

end Spells

/-! ## Operations and functions -/

def signToken {α : Type} : BinaryOp → Token α
  | .add => .plus
  | .sub => .minus
  | .mul => .star
  | .div => .slash

def signChar : BinaryOp → Char
  | .add => '+'
  | .sub => '-'
  | .mul => '*'
  | .div => '/'

section Operations

variable {α : Type} [OrderedScalar α] {cs : List Char} {ts : List (Token α)}

omit [OrderedScalar α] in
theorem sign?_signChar (op : BinaryOp) : sign? (α := α) (signChar op) = some (signToken op) := by
  cases op <;> rfl

theorem isName_of_unaryOp (op : UnaryOp) : IsName op.name := by
  cases op <;> exact isName_of_isAlpha rfl rfl

theorem lexemes_call (op : UnaryOp) (h : Lexemes cs ts) :
    Lexemes (op.name.toList ++ '(' :: (cs ++ [')']))
      (.name op.name :: .lparen :: (ts ++ [.rparen])) :=
  (lexemes_name (isName_of_unaryOp op)).append_sign rfl (h.append_sign rfl .nil)

end Operations

end DiffGraph.Formula
