import Mathlib.Data.List.Basic

/-! The lexemes of SQL statements with parameters, and a lexer that reads back what they spell. -/
namespace Foundation.SqlText

abbrev Text := List Char

def wordStart (c : Char) : Bool := c.isAlpha || c == '_'

def wordChar (c : Char) : Bool := wordStart c || c.isDigit

inductive Symbol where
  | lpar
  | rpar
  | comma
  | eq
  | le
  | gt
deriving DecidableEq, Repr

/-- A place for a value: `:name` or `@name`, `$1`, or `?`. -/
inductive Placeholder where
  | named (marker : Char) (name : Text)
  | numbered (index : ℕ)
  | questionMark
deriving DecidableEq, Repr

inductive Lexeme where
  | blank
  | word (w : Text)
  | number (n : Text)
  | literal (s : Text)
  | symbol (s : Symbol)
  | placeholder (p : Placeholder)
deriving DecidableEq, Repr

def Symbol.spell : Symbol → Text
  | lpar => ['(']
  | rpar => [')']
  | comma => [',']
  | eq => ['=']
  | le => ['<', '=']
  | gt => ['>']

def Placeholder.spell : Placeholder → Text
  | named marker name => marker :: name
  | numbered index => '$' :: Nat.toDigits 10 index
  | questionMark => ['?']

namespace Lexeme

def spell : Lexeme → Text
  | blank => [' ']
  | word w => w
  | number n => n
  | literal s => '\'' :: (s ++ ['\''])
  | symbol s => s.spell
  | placeholder p => p.spell

/-- The next character could be read as a part of it. -/
def isOpen : Lexeme → Bool
  | word _ | number _ | placeholder (.named _ _) | placeholder (.numbered _) => true
  | _ => false

def startsWord : Lexeme → Bool
  | word _ | number _ => true
  | _ => false

end Lexeme

def isWord : Text → Bool
  | c :: s => wordStart c && s.all wordChar
  | [] => false

namespace Lexeme

def valid : Lexeme → Bool
  | word w => isWord w
  | number n => !n.isEmpty && n.all Char.isDigit
  | literal s => s.all (· != '\'')
  | placeholder (.named marker name) => (marker == ':' || marker == '@') && isWord name
  | _ => true

end Lexeme

def punctuation : Text → Option (Lexeme × Text)
  | ' ' :: s => some (.blank, s)
  | '(' :: s => some (.symbol .lpar, s)
  | ')' :: s => some (.symbol .rpar, s)
  | ',' :: s => some (.symbol .comma, s)
  | '=' :: s => some (.symbol .eq, s)
  | '<' :: '=' :: s => some (.symbol .le, s)
  | '>' :: s => some (.symbol .gt, s)
  | '?' :: s => some (.placeholder .questionMark, s)
  | '$' :: s =>
    some (.placeholder (.numbered (Nat.ofDigitChars 10 (s.takeWhile Char.isDigit) 0)),
      s.dropWhile Char.isDigit)
  | '\'' :: s => some (.literal (s.takeWhile (· != '\'')), (s.dropWhile (· != '\'')).drop 1)
  | ':' :: s => some (.placeholder (.named ':' (s.takeWhile wordChar)), s.dropWhile wordChar)
  | '@' :: s => some (.placeholder (.named '@' (s.takeWhile wordChar)), s.dropWhile wordChar)
  | _ => none

/-- The longest lexeme at the head of a text. -/
def lexeme : Text → Option (Lexeme × Text)
  | [] => none
  | c :: s =>
    if wordStart c then some (.word (c :: s.takeWhile wordChar), s.dropWhile wordChar)
    else if c.isDigit then some (.number (c :: s.takeWhile Char.isDigit), s.dropWhile Char.isDigit)
    else punctuation (c :: s)

def lexemes : ℕ → Text → Option (List Lexeme)
  | _, [] => some []
  | 0, _ :: _ => none
  | n + 1, c :: s => do
    let (l, rest) ← lexeme (c :: s)
    return l :: (← lexemes n rest)

def lex (text : Text) : Option (List Lexeme) := lexemes text.length text

def spell (ls : List Lexeme) : Text := ls.flatMap Lexeme.spell

/-- No lexeme runs into the next one. -/
def spaced : List Lexeme → Bool
  | a :: b :: ls => !(a.isOpen && b.startsWord) && spaced (b :: ls)
  | _ => true

/-- What comes after a lexeme does not go on with it. -/
def Ends (l : Lexeme) (rest : Text) : Prop :=
  l.isOpen = true → ∀ c ∈ rest.head?, wordChar c = false

section Spelling

variable {l : Lexeme} {ls : List Lexeme} {w rest : Text} {c : Char}

theorem isWord_cons : isWord (c :: w) = true ↔ wordStart c = true ∧ ∀ d ∈ w, wordChar d = true := by
  rw [isWord, Bool.and_eq_true, List.all_eq_true]

/-- The letters by their code points. -/
theorem isAlpha_iff : c.isAlpha = true ↔
    65 ≤ c.toNat ∧ c.toNat ≤ 90 ∨ 97 ≤ c.toNat ∧ c.toNat ≤ 122 := by
  have hupper : c.isUpper = true ↔ 'A'.val ≤ c.val ∧ c.val ≤ 'Z'.val := decide_eq_true_iff
  have hlower : c.isLower = true ↔ 'a'.val ≤ c.val ∧ c.val ≤ 'z'.val := by
    have hrange : c.isLower = (decide ('a'.val ≤ c.val) && decide (c.val ≤ 'z'.val)) := rfl
    rw [hrange, Bool.and_eq_true, decide_eq_true_eq, decide_eq_true_eq]
  have hcases : c.isAlpha = (c.isUpper || c.isLower) := rfl
  rw [hcases, Bool.or_eq_true, hupper, hlower]
  simp only [UInt32.le_iff_toNat_le]
  rfl

theorem isDigit_iff : c.isDigit = true ↔ 48 ≤ c.toNat ∧ c.toNat ≤ 57 := Char.isDigit_iff_toNat

theorem wordStart_of_isDigit (h : c.isDigit = true) : wordStart c = false := by
  rw [Bool.eq_false_iff]
  intro hw
  obtain ⟨-, hdigit⟩ := isDigit_iff.mp h
  rcases (Bool.or_eq_true _ _).mp hw with halpha | hunderscore
  · have hletter := isAlpha_iff.mp halpha
    omega
  · obtain rfl := eq_of_beq hunderscore
    cases h

theorem takeWhile_spelled {p : Char → Bool} (hw : ∀ d ∈ w, p d = true)
    (hr : ∀ c ∈ rest.head?, p c = false) :
    (w ++ rest).takeWhile p = w ∧ (w ++ rest).dropWhile p = rest := by
  have hstop : rest.takeWhile p = [] ∧ rest.dropWhile p = rest := by
    cases rest with
    | nil => exact ⟨rfl, rfl⟩
    | cons c rest =>
      have hc := hr c rfl
      exact ⟨List.takeWhile_cons_of_neg (by simp [hc]), List.dropWhile_cons_of_neg (by simp [hc])⟩
  constructor
  · rw [List.takeWhile_append_of_pos hw, hstop.1, List.append_nil]
  · rw [List.dropWhile_append_of_pos hw, hstop.2]

theorem wordChar_of_isDigit (h : c.isDigit = true) : wordChar c = true := by
  rw [wordChar, h, Bool.or_true]

theorem isDigit_of_ends (hr : ∀ c ∈ rest.head?, wordChar c = false) :
    ∀ c ∈ rest.head?, c.isDigit = false := by
  intro c hc
  rw [Bool.eq_false_iff]
  intro hdigit
  have hno := hr c hc
  rw [wordChar_of_isDigit hdigit] at hno
  cases hno

theorem lexeme_word (hw : isWord w = true) (hr : Ends (.word w) rest) :
    lexeme (w ++ rest) = some (.word w, rest) := by
  cases w with
  | nil => cases hw
  | cons c w =>
    obtain ⟨hstart, hchars⟩ := isWord_cons.mp hw
    obtain ⟨htake, hdrop⟩ := takeWhile_spelled hchars (hr rfl)
    rw [List.cons_append, lexeme, if_pos hstart, htake, hdrop]

theorem lexeme_number (hn : w ≠ []) (hdigits : ∀ d ∈ w, d.isDigit = true)
    (hr : Ends (.number w) rest) : lexeme (w ++ rest) = some (.number w, rest) := by
  cases w with
  | nil => exact absurd rfl hn
  | cons c w =>
    have hc := hdigits c List.mem_cons_self
    obtain ⟨htake, hdrop⟩ := takeWhile_spelled (fun d hd => hdigits d (List.mem_cons_of_mem c hd))
      (isDigit_of_ends (hr rfl))
    rw [List.cons_append, lexeme, wordStart_of_isDigit hc, if_neg Bool.false_ne_true, if_pos hc,
      htake, hdrop]

theorem lexeme_literal (hw : ∀ d ∈ w, (d != '\'') = true) :
    lexeme ((Lexeme.literal w).spell ++ rest) = some (.literal w, rest) := by
  have hquote : ∀ c ∈ ('\'' :: rest).head?, (c != '\'') = false := by
    rintro c ⟨⟩
    rfl
  obtain ⟨htake, hdrop⟩ := takeWhile_spelled hw hquote
  have hread : lexeme ('\'' :: (w ++ '\'' :: rest)) =
      some (.literal ((w ++ '\'' :: rest).takeWhile (· != '\'')),
        ((w ++ '\'' :: rest).dropWhile (· != '\'')).drop 1) := rfl
  rw [Lexeme.spell, List.cons_append, List.append_assoc, List.singleton_append, hread, htake, hdrop]
  rfl

theorem lexeme_named {marker : Char} (hmarker : marker = ':' ∨ marker = '@') (hw : isWord w = true)
    (hr : ∀ c ∈ rest.head?, wordChar c = false) :
    lexeme (marker :: w ++ rest) = some (.placeholder (.named marker w), rest) := by
  have hchars : ∀ d ∈ w, wordChar d = true := by
    cases w with
    | nil => cases hw
    | cons c w =>
      obtain ⟨hstart, hrest⟩ := isWord_cons.mp hw
      intro d hd
      rcases List.mem_cons.mp hd with rfl | hd
      · exact (Bool.or_eq_true _ _).mpr (.inl hstart)
      · exact hrest d hd
  obtain ⟨htake, hdrop⟩ := takeWhile_spelled hchars hr
  have hread : lexeme (marker :: (w ++ rest)) =
      some (.placeholder (.named marker ((w ++ rest).takeWhile wordChar)),
        (w ++ rest).dropWhile wordChar) := by
    rcases hmarker with rfl | rfl <;> rfl
  rw [List.cons_append, hread, htake, hdrop]

theorem lexeme_numbered {index : ℕ} (hr : ∀ c ∈ rest.head?, wordChar c = false) :
    lexeme ('$' :: Nat.toDigits 10 index ++ rest) =
      some (.placeholder (.numbered index), rest) := by
  have hdigits : ∀ d ∈ Nat.toDigits 10 index, d.isDigit = true :=
    fun _ => Nat.isDigit_of_mem_toDigits (by decide) (by decide)
  obtain ⟨htake, hdrop⟩ := takeWhile_spelled hdigits (isDigit_of_ends hr)
  have hread : lexeme ('$' :: (Nat.toDigits 10 index ++ rest)) =
      some (.placeholder (.numbered
          (Nat.ofDigitChars 10 ((Nat.toDigits 10 index ++ rest).takeWhile Char.isDigit) 0)),
        (Nat.toDigits 10 index ++ rest).dropWhile Char.isDigit) := rfl
  rw [List.cons_append, hread, htake, hdrop, Nat.ofDigitChars_toDigits (by decide) (by decide)]

theorem marker_of_valid (h : (c == ':' || c == '@') = true) : c = ':' ∨ c = '@' := by
  rcases (Bool.or_eq_true _ _).mp h with hcolon | hat
  · exact .inl (eq_of_beq hcolon)
  · exact .inr (eq_of_beq hat)

theorem lexeme_spell (hv : l.valid = true) (hr : Ends l rest) :
    lexeme (l.spell ++ rest) = some (l, rest) := by
  cases l with
  | blank => rfl
  | word => exact lexeme_word hv hr
  | number n =>
    obtain ⟨hne, hdigits⟩ := (Bool.and_eq_true _ _).mp hv
    refine lexeme_number ?_ (List.all_eq_true.mp hdigits) hr
    rintro rfl
    cases hne
  | literal => exact lexeme_literal (List.all_eq_true.mp hv)
  | symbol s => cases s <;> rfl
  | placeholder p =>
    cases p with
    | named =>
      obtain ⟨hmarker, hname⟩ := (Bool.and_eq_true _ _).mp hv
      exact lexeme_named (marker_of_valid hmarker) hname (hr rfl)
    | numbered => exact lexeme_numbered (hr rfl)
    | questionMark => rfl

/-- A lexeme that does not go on with a word stops one. -/
theorem head_of_not_startsWord (hv : l.valid = true) (h : l.startsWord = false) :
    ∀ c ∈ (l.spell ++ rest).head?, wordChar c = false := by
  cases l with
  | word | number => cases h
  | blank | literal => rintro c ⟨⟩; rfl
  | symbol s => cases s <;> (rintro c ⟨⟩; rfl)
  | placeholder p =>
    cases p with
    | named marker name =>
      rintro c ⟨⟩
      rcases marker_of_valid ((Bool.and_eq_true _ _).mp hv).1 with rfl | rfl <;> rfl
    | numbered | questionMark => rintro c ⟨⟩; rfl

theorem spell_ne_nil (hv : l.valid = true) : l.spell ≠ [] := by
  cases l with
  | word w | number w =>
    rintro rfl
    cases hv
  | blank | literal => nofun
  | symbol s => cases s <;> nofun
  | placeholder p => cases p <;> nofun

theorem spaced_cons {a b : Lexeme} (h : spaced (a :: b :: ls) = true) :
    (a.isOpen = true → b.startsWord = false) ∧ spaced (b :: ls) = true := by
  obtain ⟨hfits, hrest⟩ := (Bool.and_eq_true _ _).mp h
  refine ⟨fun hopen => ?_, hrest⟩
  rw [hopen, Bool.true_and] at hfits
  exact Bool.not_eq_true' _ |>.mp hfits

theorem spaced_tail (h : spaced (l :: ls) = true) : spaced ls = true := by
  cases ls with
  | nil => rfl
  | cons => exact (spaced_cons h).2

theorem ends_of_spaced (h : spaced (l :: ls) = true) (hv : ∀ l ∈ ls, l.valid = true) :
    Ends l (spell ls) := by
  intro hopen
  cases ls with
  | nil => nofun
  | cons b ls => exact head_of_not_startsWord (hv b List.mem_cons_self) ((spaced_cons h).1 hopen)

theorem lexemes_spell {n : ℕ} (hs : spaced ls = true) (hv : ∀ l ∈ ls, l.valid = true)
    (hn : (spell ls).length ≤ n) : lexemes n (spell ls) = some ls := by
  induction ls generalizing n with
  | nil => cases n <;> rfl
  | cons l ls ih =>
    have hl := hv l List.mem_cons_self
    have hls : ∀ b ∈ ls, b.valid = true := fun b hb => hv b (List.mem_cons_of_mem l hb)
    have hnext : lexeme (l.spell ++ spell ls) = some (l, spell ls) :=
      lexeme_spell hl (ends_of_spaced hs hls)
    change lexemes n (l.spell ++ spell ls) = _
    change (l.spell ++ spell ls).length ≤ n at hn
    obtain ⟨c, s, hcons⟩ := List.exists_cons_of_ne_nil (spell_ne_nil hl)
    rw [hcons, List.cons_append] at hnext hn ⊢
    cases n with
    | zero => cases hn
    | succ n =>
      rw [List.length_cons, List.length_append] at hn
      have hrest := ih (n := n) (spaced_tail hs) hls (by omega)
      simp only [lexemes, hnext, Option.bind_eq_bind, Option.bind_some, hrest]
      rfl

/-- The lexer reads back the lexemes that a text spells. -/
theorem lex_spell (hs : spaced ls = true) (hv : ∀ l ∈ ls, l.valid = true) :
    lex (spell ls) = some ls :=
  lexemes_spell hs hv (Nat.le_refl _)

end Spelling

end Foundation.SqlText
