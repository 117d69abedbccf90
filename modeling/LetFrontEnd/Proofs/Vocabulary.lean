import LetFrontEnd.Lexeme

/- The vocabulary, told by texts and not by how they are found: what a word, a number and a
   symbol look like, which kind each of them has, and which bytes can be added to one. -/
namespace LetFrontEnd
open Byte

def IsWord (s : String) : Prop := s ≠ "" ∧ ∀ c ∈ s.toList, c.isAlpha = true ∨ c = '_'

def IsNumber (s : String) : Prop := s ≠ "" ∧ ∀ c ∈ s.toList, c.isDigit = true

instance (s : String) : Decidable (IsWord s) :=
  decidable_of_iff (s ≠ "" ∧ s.toList.all (fun c => c.isAlpha || c == '_') = true)
    (by simp [IsWord])

instance (s : String) : Decidable (IsNumber s) :=
  decidable_of_iff (s ≠ "" ∧ s.toList.all Char.isDigit = true) (by simp [IsNumber])

/-- The operators and delimiters: a kind of these is written as its label. -/
def TokenKind.punctuation : List TokenKind :=
  [assign, plus, minus, bang, asterisk, slash, lt, gt, eq, notEq,
   comma, semicolon, lParen, rParen, lBrace, rBrace]

def TokenKind.ofText (s : String) : TokenKind :=
  if IsWord s then ofWord s
  else if IsNumber s then int
  else (punctuation.find? (·.label == s)).getD illegal

/-- The stretches of bytes that can make one token. -/
def Lexical (bs : List UInt8) : Prop :=
  IsWord (text bs) ∨ IsNumber (text bs) ∨ text bs = "==" ∨ text bs = "!=" ∨ bs.length = 1

instance (bs : List UInt8) : Decidable (Lexical bs) := inferInstanceAs (Decidable (_ ∨ _))

def Token.ofBytes (bs : List UInt8) : Token := ⟨.ofText (text bs), text bs⟩

/- Characters and bytes by their code points. -/
namespace Byte

theorem isAlpha_iff_toNat (c : Char) :
    c.isAlpha = true ↔
      65 ≤ c.toNat ∧ c.toNat ≤ 90 ∨ 97 ≤ c.toNat ∧ c.toNat ≤ 122 := by
  have ranges : c.isAlpha = (decide (65 ≤ c.val ∧ c.val ≤ 90) ||
      decide (97 ≤ c.val) && decide (c.val ≤ 122)) := rfl
  rw [ranges]
  simp only [Bool.or_eq_true, Bool.and_eq_true, decide_eq_true_eq, UInt32.le_iff_toNat_le]
  rfl

theorem isDigit_iff_toNat (c : Char) : c.isDigit = true ↔ 48 ≤ c.toNat ∧ c.toNat ≤ 57 := by
  have range : c.isDigit = (decide (48 ≤ c.val) && decide (c.val ≤ 57)) := rfl
  rw [range]
  simp only [Bool.and_eq_true, decide_eq_true_eq, UInt32.le_iff_toNat_le]
  rfl

theorem letter_iff_toNat (b : UInt8) :
    isLetter b = true ↔
      65 ≤ b.toNat ∧ b.toNat ≤ 90 ∨ 97 ≤ b.toNat ∧ b.toNat ≤ 122 ∨ b.toNat = 95 := by
  simp only [isLetter, Bool.or_eq_true, Bool.and_eq_true, decide_eq_true_eq, beq_iff_eq,
    UInt8.le_iff_toNat_le, ← UInt8.toNat_inj, or_assoc]
  rfl

theorem digit_iff_toNat (b : UInt8) : isDigit b = true ↔ 48 ≤ b.toNat ∧ b.toNat ≤ 57 := by
  simp only [isDigit, Bool.and_eq_true, decide_eq_true_eq, UInt8.le_iff_toNat_le]
  rfl

theorem blank_iff_toNat (b : UInt8) :
    isBlank b = true ↔ b.toNat = 32 ∨ b.toNat = 9 ∨ b.toNat = 10 ∨ b.toNat = 13 := by
  simp only [isBlank, Bool.or_eq_true, beq_iff_eq, ← UInt8.toNat_inj, or_assoc]
  rfl

theorem isLetter_of_isDigit {b : UInt8} (digit : isDigit b = true) : isLetter b = false := by
  rw [← Bool.not_eq_true, letter_iff_toNat]
  rw [digit_iff_toNat] at digit
  omega

theorem isBlank_of_isLetter {b : UInt8} (letter : isLetter b = true) : isBlank b = false := by
  rw [← Bool.not_eq_true, blank_iff_toNat]
  rw [letter_iff_toNat] at letter
  omega

theorem isBlank_of_isDigit {b : UInt8} (digit : isDigit b = true) : isBlank b = false := by
  rw [← Bool.not_eq_true, blank_iff_toNat]
  rw [digit_iff_toNat] at digit
  omega

theorem class_cases (b : UInt8) :
    isLetter b = true ∨ isDigit b = true ∨ isLetter b = false ∧ isDigit b = false := by
  cases isLetter b <;> cases isDigit b <;> simp

theorem ofUInt8_toNat (b : UInt8) : (Char.ofUInt8 b).toNat = b.toNat := UInt8.toNat_toUInt32 b

theorem ofUInt8_inj {a b : UInt8} : Char.ofUInt8 a = Char.ofUInt8 b ↔ a = b := by
  constructor
  · intro same
    have codes := congrArg Char.toNat same
    rw [ofUInt8_toNat, ofUInt8_toNat] at codes
    exact UInt8.toNat_inj.mp codes
  · intro same
    rw [same]

theorem isLetter_iff (b : UInt8) :
    isLetter b = true ↔ (Char.ofUInt8 b).isAlpha = true ∨ Char.ofUInt8 b = '_' := by
  have underscore : Char.ofUInt8 b = '_' ↔ b = 0x5F := @ofUInt8_inj b 0x5F
  have code : b = 0x5F ↔ b.toNat = 95 := UInt8.toNat_inj.symm
  rw [letter_iff_toNat, isAlpha_iff_toNat, ofUInt8_toNat, underscore, code, or_assoc]

theorem isDigit_iff (b : UInt8) : isDigit b = true ↔ (Char.ofUInt8 b).isDigit = true := by
  rw [digit_iff_toNat, isDigit_iff_toNat, ofUInt8_toNat]

@[simp] theorem text_toList (bs : List UInt8) : (text bs).toList = bs.map Char.ofUInt8 := by
  simp [text]

theorem text_inj {as bs : List UInt8} : text as = text bs ↔ as = bs := by
  constructor
  · intro same
    have chars := congrArg String.toList same
    rw [text_toList, text_toList] at chars
    exact (List.map_inj_right fun _ _ => ofUInt8_inj.mp).mp chars
  · intro same
    rw [same]

theorem text_eq_empty_iff (bs : List UInt8) : text bs = "" ↔ bs = [] := @text_inj bs []

end Byte

theorem not_word_of_number {s : String} (shape : IsNumber s) : ¬ IsWord s := by
  intro word
  obtain ⟨c, member⟩ := List.exists_mem_of_ne_nil s.toList (by simpa using shape.1)
  have digit := (isDigit_iff_toNat c).mp (shape.2 c member)
  rcases word.2 c member with alpha | same
  · rw [isAlpha_iff_toNat] at alpha
    omega
  · rw [same] at digit
    exact absurd digit (by decide)

theorem isWord_text_iff (bs : List UInt8) :
    IsWord (text bs) ↔ bs ≠ [] ∧ ∀ b ∈ bs, isLetter b = true := by
  simp [IsWord, text_eq_empty_iff, isLetter_iff]

theorem isNumber_text_iff (bs : List UInt8) :
    IsNumber (text bs) ↔ bs ≠ [] ∧ ∀ b ∈ bs, isDigit b = true := by
  simp [IsNumber, text_eq_empty_iff, isDigit_iff]

theorem text_eq_double_equals_iff (bs : List UInt8) : text bs = "==" ↔ bs = [0x3D, 0x3D] :=
  @text_inj bs [0x3D, 0x3D]

theorem text_eq_bang_equals_iff (bs : List UInt8) : text bs = "!=" ↔ bs = [0x21, 0x3D] :=
  @text_inj bs [0x21, 0x3D]

theorem lexical_ne_nil {bs : List UInt8} (lexical : Lexical bs) : bs ≠ [] := by
  rcases lexical with word | number | pair | pair | single
  · exact ((isWord_text_iff bs).mp word).1
  · exact ((isNumber_text_iff bs).mp number).1
  · simp [(text_eq_double_equals_iff bs).mp pair]
  · simp [(text_eq_bang_equals_iff bs).mp pair]
  · exact List.length_pos_iff.mp (by omega)

/-- What is lexical stays so when it is cut, as long as two bytes are left. -/
theorem lexical_cut {p s : List UInt8} {b : UInt8} (some : p ≠ []) (whole : Lexical (p ++ b :: s)) :
    Lexical (p ++ [b]) := by
  have started := List.length_pos_iff.mpr some
  have front : p ++ [b] <+: p ++ b :: s := ⟨s, by simp⟩
  -- a symbol of two bytes has no room for anything after them
  have pair_end : ∀ {x y : UInt8}, p ++ b :: s = [x, y] → s = [] := by
    intro x y pair
    have lengths := congrArg List.length pair
    simp only [List.length_append, List.length_cons, List.length_nil] at lengths
    exact List.length_eq_zero_iff.mp (by omega)
  rcases whole with word | number | pair | pair | single
  · have letters := ((isWord_text_iff _).mp word).2
    refine Or.inl ((isWord_text_iff _).mpr ⟨by simp, ?_⟩)
    intro x member
    exact letters x (front.subset member)
  · have digits := ((isNumber_text_iff _).mp number).2
    refine Or.inr (Or.inl ((isNumber_text_iff _).mpr ⟨by simp, ?_⟩))
    intro x member
    exact digits x (front.subset member)
  · obtain rfl := pair_end ((text_eq_double_equals_iff _).mp pair)
    exact Or.inr (Or.inr (Or.inl pair))
  · obtain rfl := pair_end ((text_eq_bang_equals_iff _).mp pair)
    exact Or.inr (Or.inr (Or.inr (Or.inl pair)))
  · simp only [List.length_append, List.length_cons] at single
    omega

theorem isWord_snoc_iff {p : List UInt8} {b : UInt8} (some : p ≠ []) :
    IsWord (text (p ++ [b])) ↔ IsWord (text p) ∧ isLetter b = true := by
  simp [isWord_text_iff, some, or_imp, forall_and]

theorem isNumber_snoc_iff {p : List UInt8} {b : UInt8} (some : p ≠ []) :
    IsNumber (text (p ++ [b])) ↔ IsNumber (text p) ∧ isDigit b = true := by
  simp [isNumber_text_iff, some, or_imp, forall_and]

theorem snoc_eq_pair_iff {p : List UInt8} {b x y : UInt8} :
    p ++ [b] = [x, y] ↔ p = [x] ∧ b = y := by
  constructor
  · intro pair
    obtain ⟨left, right⟩ := List.append_inj' (show p ++ [b] = [x] ++ [y] from pair) rfl
    exact ⟨left, List.singleton_inj.mp right⟩
  · intro halves
    rw [halves.1, halves.2]
    rfl

/-- The bytes that can be added to a stretch: a letter to a word, a digit to a number, and an equals
sign to one of the two symbols that pair with it. -/
theorem lexical_snoc_iff {p : List UInt8} {b : UInt8} (some : p ≠ []) :
    Lexical (p ++ [b]) ↔
      IsWord (text p) ∧ isLetter b = true ∨ IsNumber (text p) ∧ isDigit b = true ∨
        (text p = "=" ∨ text p = "!") ∧ b = 0x3D := by
  have equals : text p = "=" ↔ p = [0x3D] := @text_inj p [0x3D]
  have bang : text p = "!" ↔ p = [0x21] := @text_inj p [0x21]
  have two : (p ++ [b]).length ≠ 1 := by
    have started := List.length_pos_iff.mpr some
    simp only [List.length_append, List.length_cons, List.length_nil]
    omega
  rw [Lexical, isWord_snoc_iff some, isNumber_snoc_iff some, text_eq_double_equals_iff,
    text_eq_bang_equals_iff, snoc_eq_pair_iff, snoc_eq_pair_iff, equals, bang]
  simp only [two, or_false, or_and_right]

section
variable {q : List UInt8} {b : UInt8}

theorem lexical_cases (lexical : Lexical q) (first : q.head? = some b) :
    IsWord (text q) ∧ isLetter b = true ∨ IsNumber (text q) ∧ isDigit b = true ∨
      isLetter b = false ∧ isDigit b = false ∨ q = [b] := by
  obtain ⟨tail, rfl⟩ := List.head?_eq_some_iff.mp first
  rcases lexical with word | number | pair | pair | single
  · exact Or.inl ⟨word, ((isWord_text_iff _).mp word).2 b (by simp)⟩
  · exact Or.inr (Or.inl ⟨number, ((isNumber_text_iff _).mp number).2 b (by simp)⟩)
  · obtain ⟨rfl, -⟩ := List.cons.inj ((text_eq_double_equals_iff _).mp pair)
    exact Or.inr (Or.inr (Or.inl (by decide)))
  · obtain ⟨rfl, -⟩ := List.cons.inj ((text_eq_bang_equals_iff _).mp pair)
    exact Or.inr (Or.inr (Or.inl (by decide)))
  · obtain rfl : tail = [] := by simpa using single
    exact Or.inr (Or.inr (Or.inr rfl))

theorem lexical_word_iff (lexical : Lexical q) (first : q.head? = some b) :
    IsWord (text q) ↔ isLetter b = true := by
  constructor
  · intro word
    exact ((isWord_text_iff q).mp word).2 b (List.mem_of_head? first)
  · intro letter
    rcases lexical_cases lexical first with ⟨word, -⟩ | ⟨-, digit⟩ | ⟨unlettered, -⟩ | single
    · exact word
    · simp [isLetter_of_isDigit digit] at letter
    · simp [unlettered] at letter
    · simp [single, isWord_text_iff, letter]

theorem lexical_number_iff (lexical : Lexical q) (first : q.head? = some b) :
    IsNumber (text q) ↔ isDigit b = true := by
  constructor
  · intro number
    exact ((isNumber_text_iff q).mp number).2 b (List.mem_of_head? first)
  · intro digit
    rcases lexical_cases lexical first with ⟨-, letter⟩ | ⟨number, -⟩ | ⟨-, undigit⟩ | single
    · simp [isLetter_of_isDigit digit] at letter
    · exact number
    · simp [undigit] at digit
    · simp [single, isNumber_text_iff, digit]

end

namespace TokenKind

theorem ofText_of_symbol {b : UInt8} {k : TokenKind} (found : ofSymbol? b = some k) :
    ofText (text [b]) = k := by
  have table : ∀ entry ∈ symbols, ofText (String.ofList [entry.1]) = entry.2 := by decide
  have spelled := table (Char.ofUInt8 b, k) (mem_of_lookup found)
  simpa only [text, List.map_cons, List.map_nil] using spelled

theorem ofText_of_stray {b : UInt8} (unlettered : isLetter b = false) (undigit : isDigit b = false)
    (unknown : ofSymbol? b = none) : ofText (text [b]) = illegal := by
  have single_marks : ∀ k ∈ punctuation, k.label.toList.length = 1 →
      ∃ entry ∈ symbols, k.label = String.ofList [entry.1] := by decide
  have unmarked : punctuation.find? (·.label == text [b]) = none := by
    rw [List.find?_eq_none]
    intro k member same
    have label : k.label = text [b] := by simpa using same
    obtain ⟨entry, listed, spelled⟩ := single_marks k member (by simp [label])
    have char : entry.1 = Char.ofUInt8 b := by
      simpa [text] using congrArg String.toList (spelled.symm.trans label)
    have absent := List.lookup_eq_none_iff.mp unknown entry listed
    simp [char] at absent
  simp [ofText, isWord_text_iff, isNumber_text_iff, unlettered, undigit, unmarked]

theorem ofWord_not_mark (s : String) : ofWord s ∉ punctuation := by
  unfold ofWord
  cases found : reserved.lookup s with
  | none => decide
  | some k =>
    have table : ∀ entry ∈ reserved, entry.2 ∉ punctuation := by decide
    exact table _ (mem_of_lookup found)

theorem ofText_eq_mark_iff {s : String} {k : TokenKind} (listed : k ∈ punctuation) :
    ofText s = k ↔ s = k.label := by
  constructor
  · intro same
    unfold ofText at same
    split at same
    · exact absurd (same ▸ listed) (ofWord_not_mark s)
    · split at same
      · exact absurd (same ▸ listed) (by decide)
      · cases found : punctuation.find? (·.label == s) with
        | none =>
          rw [found] at same
          exact absurd (same ▸ listed) (by decide)
        | some other =>
          rw [found] at same
          have label : other.label = s := by simpa using List.find?_some found
          rw [← same]
          exact label.symm
  · intro same
    have table : ∀ k ∈ punctuation, ofText k.label = k := by decide
    rw [same, table k listed]

end TokenKind

end LetFrontEnd
