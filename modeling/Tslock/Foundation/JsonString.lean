import Mathlib.Data.List.Basic
import Mathlib.Tactic.IntervalCases
import Tslock.Foundation.JsNumber

/-! The strings `JSON.stringify` writes, and that they can be told apart again. -/
namespace Foundation

/-- A value that `JSON.parse` returns. -/
inductive JsonValue where
  | null
  | boolean (b : Bool)
  | number (n : JsNumber)
  | string (s : String)
  | array (items : List JsonValue)
  | object (fields : List (String × JsonValue))

section Terminated

variable {α β : Type*} {f : α → List β} {stop : β}

/-- A list written element by element is known from its text and the text after it, if no
element's text is a prefix of another one's and none begins with the terminator. -/
theorem flatMap_terminated_inj
    (hf : ∀ a b s t, f a ++ s = f b ++ t → a = b ∧ s = t)
    (hstop : ∀ a s t, f a ++ s ≠ stop :: t) {xs ys : List α} {s t : List β}
    (h : xs.flatMap f ++ stop :: s = ys.flatMap f ++ stop :: t) : xs = ys ∧ s = t := by
  induction xs generalizing ys with
  | nil =>
    cases ys with
    | nil => exact ⟨rfl, (List.cons.inj h).2⟩
    | cons y ys =>
      rw [List.flatMap_cons, List.append_assoc] at h
      exact absurd h.symm (hstop y _ _)
  | cons x xs ih =>
    cases ys with
    | nil =>
      rw [List.flatMap_cons, List.append_assoc] at h
      exact absurd h (hstop x _ _)
    | cons y ys =>
      rw [List.flatMap_cons, List.flatMap_cons, List.append_assoc, List.append_assoc] at h
      obtain ⟨rfl, hrest⟩ := hf x y _ _ h
      obtain ⟨rfl, hst⟩ := ih hrest
      exact ⟨rfl, hst⟩

end Terminated

namespace Json

/-- One character of a quoted string: seven have an escape of their own, the other control
characters are written by their code point. -/
def escape : Char → List Char
  | '\x08' => ['\\', 'b']
  | '\t' => ['\\', 't']
  | '\n' => ['\\', 'n']
  | '\x0c' => ['\\', 'f']
  | '\r' => ['\\', 'r']
  | '"' => ['\\', '"']
  | '\\' => ['\\', '\\']
  | c =>
    if c.toNat < 0x20 then
      ['\\', 'u', '0', '0', Nat.digitChar (c.toNat / 16), Nat.digitChar (c.toNat % 16)]
    else [c]

def quote (s : List Char) : List Char := '"' :: s.flatMap escape ++ ['"']

/-- The digit of a lower-case hexadecimal character. -/
def hexValue (c : Char) : ℕ := if c.toNat < 58 then c.toNat - 48 else c.toNat - 87

/-- Reads one character back from the text of a quoted string. -/
def unescape : List Char → Option (Char × List Char)
  | '\\' :: 'b' :: s => some ('\x08', s)
  | '\\' :: 't' :: s => some ('\t', s)
  | '\\' :: 'n' :: s => some ('\n', s)
  | '\\' :: 'f' :: s => some ('\x0c', s)
  | '\\' :: 'r' :: s => some ('\r', s)
  | '\\' :: '"' :: s => some ('"', s)
  | '\\' :: '\\' :: s => some ('\\', s)
  | '\\' :: 'u' :: '0' :: '0' :: h :: l :: s =>
    some (Char.ofNat (16 * hexValue h + hexValue l), s)
  | '\\' :: _ => none
  | '"' :: _ => none
  | c :: s => some (c, s)
  | [] => none

theorem hexValue_digitChar {n : ℕ} (h : n < 16) : hexValue (Nat.digitChar n) = n := by
  interval_cases n <;> decide

theorem unescape_escape (c : Char) (s : List Char) : unescape (escape c ++ s) = some (c, s) := by
  unfold escape
  split
  case h_8 hb ht hn hf hr hq hs =>
    split
    · next hc =>
      have hhigh : c.toNat / 16 < 16 := by omega
      have hlow : c.toNat % 16 < 16 := by omega
      have hsum : 16 * (c.toNat / 16) + c.toNat % 16 = c.toNat := by omega
      simp [unescape, hexValue_digitChar hhigh, hexValue_digitChar hlow, hsum]
    · simp_all [unescape]
  all_goals rfl

theorem escape_append_inj {c d : Char} {s t : List Char} (h : escape c ++ s = escape d ++ t) :
    c = d ∧ s = t := by
  have hread := unescape_escape c s
  rw [h, unescape_escape, Option.some.injEq, Prod.mk.injEq] at hread
  exact ⟨hread.1.symm, hread.2.symm⟩

theorem escape_append_ne_quote (c : Char) (s t : List Char) : escape c ++ s ≠ '"' :: t := by
  intro h
  have hread := unescape_escape c s
  rw [h] at hread
  simp [unescape] at hread

/-- A quoted string ends where its closing quotation mark stands, whatever follows it. -/
theorem quote_append_inj {xs ys s t : List Char} (h : quote xs ++ s = quote ys ++ t) :
    xs = ys ∧ s = t := by
  simp only [quote, List.cons_append, List.append_assoc, List.nil_append] at h
  exact flatMap_terminated_inj (fun _ _ _ _ h => escape_append_inj h) escape_append_ne_quote
    (List.cons.inj h).2

def field (f : String × String) : List Char := quote f.1.toList ++ ':' :: quote f.2.toList

theorem field_append_inj {f g : String × String} {s t : List Char}
    (h : field f ++ s = field g ++ t) : f = g ∧ s = t := by
  simp only [field, List.append_assoc, List.cons_append] at h
  obtain ⟨hkey, hrest⟩ := quote_append_inj h
  obtain ⟨hvalue, hst⟩ := quote_append_inj (List.cons.inj hrest).2
  exact ⟨Prod.ext (String.toList_inj.mp hkey) (String.toList_inj.mp hvalue), hst⟩

/-- The members of an object up to its closing brace. -/
def members : List (String × String) → List Char
  | [] => ['}']
  | [f] => field f ++ ['}']
  | f :: g :: fs => field f ++ ',' :: members (g :: fs)

/-- `JSON.stringify` of an object all of whose fields are strings. -/
def stringify (fields : List (String × String)) : String := String.ofList ('{' :: members fields)

theorem members_injective : Function.Injective members := by
  intro fs gs h
  induction fs using members.induct generalizing gs with
  | case1 =>
    match gs with
    | [] => rfl
    | [g] | g :: g' :: gs => simp [members, field, quote] at h
  | case2 f =>
    match gs with
    | [] => simp [members, field, quote] at h
    | [g] => rw [(field_append_inj h).1]
    | g :: g' :: gs => simpa using (field_append_inj h).2
  | case3 f f' fs ih =>
    match gs with
    | [] => simp [members, field, quote] at h
    | [g] => simpa using (field_append_inj h).2
    | g :: g' :: gs =>
      obtain ⟨rfl, hrest⟩ := field_append_inj h
      rw [ih (List.cons.inj hrest).2]

theorem stringify_injective : Function.Injective stringify := by
  intro fs gs h
  exact members_injective (List.cons.inj (String.ofList_injective h)).2

/-- Reads the characters of a quoted string up to its closing quotation mark. -/
def readString : ℕ → List Char → Option (List Char × List Char)
  | 0, _ => none
  | n + 1, s =>
    if s.head? = some '"' then some ([], s.tail)
    else do
      let (c, rest) ← unescape s
      let (cs, rest) ← readString n rest
      return (c :: cs, rest)

def readQuoted : List Char → Option (String × List Char)
  | '"' :: s => (readString (s.length + 1) s).map fun (cs, rest) => (String.ofList cs, rest)
  | _ => none

def readField (s : List Char) : Option ((String × String) × List Char) := do
  let (key, rest) ← readQuoted s
  match rest with
  | ':' :: rest =>
    let (value, rest) ← readQuoted rest
    return ((key, value), rest)
  | _ => none

def readMembers : ℕ → List Char → Option (List (String × String))
  | 0, _ => none
  | n + 1, s => do
    let (f, rest) ← readField s
    match rest with
    | ['}'] => return [f]
    | ',' :: rest =>
      let fs ← readMembers n rest
      return f :: fs
    | _ => none

/-- `JSON.parse` of an object all of whose fields are strings, written without blanks. -/
def parseObject (text : String) : Option (List (String × String)) :=
  match text.toList with
  | ['{', '}'] => some []
  | '{' :: s => readMembers s.length s
  | _ => none

theorem escape_ne_nil (c : Char) : escape c ≠ [] := by
  intro h
  have hread := unescape_escape c []
  rw [h] at hread
  cases hread

theorem readString_flatMap {n : ℕ} {xs : List Char} (s : List Char) (h : xs.length < n) :
    readString n (xs.flatMap escape ++ '"' :: s) = some (xs, s) := by
  induction n generalizing xs with
  | zero => omega
  | succ n ih =>
    cases xs with
    | nil => simp [readString]
    | cons x xs =>
      have hhead : (escape x ++ (xs.flatMap escape ++ '"' :: s)).head? ≠ some '"' := by
        intro hquote
        obtain ⟨t, ht⟩ := List.head?_eq_some_iff.mp hquote
        exact escape_append_ne_quote x _ t ht
      have hrest : readString n (xs.flatMap escape ++ '"' :: s) = some (xs, s) :=
        ih (by simpa using h)
      rw [List.flatMap_cons, List.append_assoc, readString, if_neg hhead, unescape_escape]
      simp [hrest]

theorem length_le_flatMap_escape (xs : List Char) : xs.length ≤ (xs.flatMap escape).length := by
  induction xs with
  | nil => exact le_refl _
  | cons x xs ih =>
    have hx := List.length_pos_iff.mpr (escape_ne_nil x)
    rw [List.flatMap_cons, List.length_append, List.length_cons]
    omega

theorem readQuoted_quote (x : String) (s : List Char) :
    readQuoted (quote x.toList ++ s) = some (x, s) := by
  have hlength := length_le_flatMap_escape x.toList
  simp only [quote, List.cons_append, List.append_assoc, List.nil_append, readQuoted]
  rw [readString_flatMap s (by rw [List.length_append, List.length_cons]; omega)]
  simp

theorem readField_field (f : String × String) (s : List Char) :
    readField (field f ++ s) = some (f, s) := by
  simp [readField, field, readQuoted_quote]

theorem length_le_members (fields : List (String × String)) :
    fields.length ≤ (members fields).length := by
  induction fields using members.induct with
  | case1 => simp
  | case2 f => simp [members]
  | case3 f g fs ih =>
    simp only [members, List.length_append, List.length_cons] at ih ⊢
    omega

theorem readMembers_members {n : ℕ} {f : String × String} {fs : List (String × String)}
    (h : fs.length < n) : readMembers n (members (f :: fs)) = some (f :: fs) := by
  induction n generalizing f fs with
  | zero => omega
  | succ n ih =>
    cases fs with
    | nil => simp [members, readMembers, readField_field]
    | cons g fs =>
      have hrest : readMembers n (members (g :: fs)) = some (g :: fs) := ih (by simpa using h)
      simp [members, readMembers, readField_field, hrest]

theorem parseObject_stringify (fields : List (String × String)) :
    parseObject (stringify fields) = some fields := by
  have htext : (stringify fields).toList = '{' :: members fields := by simp [stringify]
  unfold parseObject
  rw [htext]
  match fields with
  | [] => rfl
  | f :: fs =>
    have hlength := length_le_members (f :: fs)
    have hread : readMembers (members (f :: fs)).length (members (f :: fs)) = some (f :: fs) :=
      readMembers_members (Nat.lt_of_succ_le hlength)
    have hbrace : members (f :: fs) ≠ ['}'] := by
      intro heq
      rw [heq] at hread
      cases hread
    split
    · next heq => exact absurd (List.cons.inj heq).2 hbrace
    · next heq =>
      cases heq
      exact hread
    · next hno => exact absurd rfl (hno _)

/-- An object all of whose fields are strings. -/
def strings (fields : List (String × String)) : JsonValue :=
  .object (fields.map fun f => (f.1, .string f.2))

/-- `JSON.parse`, which yields nothing where it throws. It gives back what `JSON.stringify` was
given. -/
structure Reader where
  parse : String → Option JsonValue
  parse_stringify : ∀ fields, parse (stringify fields) = some (strings fields)

/-- A reader of nothing but objects of strings without blanks. -/
def Reader.ofStrings : Reader where
  parse text := (parseObject text).map strings
  parse_stringify fields := by rw [parseObject_stringify, Option.map_some]

end Json

end Foundation
