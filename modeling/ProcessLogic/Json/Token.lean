import ProcessLogic.Json.Numeral
import ProcessLogic.Json.Quoted

/-!
# Tokens of JSON

The first half of reading a document: the text is cut into tokens, and the white space between
them is dropped.  Only four characters are white space to JSON, unlike the blanks of
`ProcessLogic.isBlank`.

A token is read from the front of the text by `Token.next`, which always leaves less text than it
was given.  That is why `Token.lex` ends.
-/

namespace ProcessLogic

inductive Token where
  | beginArray
  | endArray
  | beginObject
  | endObject
  | comma
  | colon
  | null
  | bool (value : Bool)
  | number (value : Numeral)
  | string (value : Quoted)
deriving DecidableEq, Repr

namespace Token

/-- The token as it is spelled. -/
def text : Token → List Char
  | .beginArray => ['[']
  | .endArray => [']']
  | .beginObject => ['\x7b']
  | .endObject => ['\x7d']
  | .comma => [',']
  | .colon => [':']
  | .null => ['n', 'u', 'l', 'l']
  | .bool true => ['t', 'r', 'u', 'e']
  | .bool false => ['f', 'a', 'l', 's', 'e']
  | .number n => n.text
  | .string q => '"' :: (q.text ++ ['"'])

/-- What may stand between tokens. -/
def isSpace (c : Char) : Bool := c == ' ' || c == '\t' || c == '\n' || c == '\r'

/-- Reads the token at the front of a text; the second component is what follows it. -/
def next : List Char → Option (Token × List Char)
  | '[' :: rest => some (.beginArray, rest)
  | ']' :: rest => some (.endArray, rest)
  | '\x7b' :: rest => some (.beginObject, rest)
  | '\x7d' :: rest => some (.endObject, rest)
  | ',' :: rest => some (.comma, rest)
  | ':' :: rest => some (.colon, rest)
  | 'n' :: 'u' :: 'l' :: 'l' :: rest => some (.null, rest)
  | 't' :: 'r' :: 'u' :: 'e' :: rest => some (.bool true, rest)
  | 'f' :: 'a' :: 'l' :: 's' :: 'e' :: rest => some (.bool false, rest)
  | '"' :: rest => (Quoted.scan rest).map fun (q, rest) => (.string q, rest)
  | text => (Numeral.scan text).map fun (n, rest) => (.number n, rest)

end Token

/-! ### Reading makes progress -/

theorem Quoted.length_lt_of_scan {text : List Char} {q : Quoted} {rest : List Char}
    (h : scan text = some (q, rest)) : rest.length < text.length := by
  fun_induction scan text generalizing q rest with
  | case1 => simp at h
  | case2 tail =>
      obtain ⟨rfl, rfl⟩ := by simpa using h
      simp
  | case3 a b c d tail _ ih =>
      obtain ⟨⟨q', rest'⟩, hs, he⟩ := Option.map_eq_some_iff.mp h
      obtain ⟨rfl, rfl⟩ := by simpa using he
      have := ih hs
      simp only [List.length_cons]
      omega
  | case4 => simp at h
  | case5 letter tail _ _ ih =>
      obtain ⟨⟨q', rest'⟩, hs, he⟩ := Option.map_eq_some_iff.mp h
      obtain ⟨rfl, rfl⟩ := by simpa using he
      have := ih hs
      simp only [List.length_cons]
      omega
  | case6 => simp at h
  | case7 => simp at h
  | case8 c tail _ _ _ _ ih =>
      obtain ⟨⟨q', rest'⟩, hs, he⟩ := Option.map_eq_some_iff.mp h
      obtain ⟨rfl, rfl⟩ := by simpa using he
      have := ih hs
      simp only [List.length_cons]
      omega

namespace Numeral

theorem length_lt_of_scanDigits {text ds rest : List Char}
    (h : scanDigits text = some (ds, rest)) : rest.length < text.length := by
  have hsplit := congrArg List.length
    (List.takeWhile_append_dropWhile (p := Char.isDigit) (l := text))
  unfold scanDigits at h
  split at h
  · simp at h
  · rename_i digits hne
    obtain ⟨rfl, rfl⟩ := by simpa using h
    have : 0 < (text.takeWhile Char.isDigit).length := List.length_pos_iff.mpr (by simpa using hne)
    rw [List.length_append] at hsplit
    omega

theorem length_le_of_scanMinus (text : List Char) : (scanMinus text).2.length ≤ text.length := by
  unfold scanMinus
  split <;> simp

theorem length_lt_of_scanWhole {text ds rest : List Char}
    (h : scanWhole text = some (ds, rest)) : rest.length < text.length := by
  unfold scanWhole at h
  split at h
  · obtain ⟨rfl, rfl⟩ := by simpa using h
    simp
  · exact length_lt_of_scanDigits h

theorem length_le_of_scanFraction {text ds rest : List Char}
    (h : scanFraction text = some (ds, rest)) : rest.length ≤ text.length := by
  unfold scanFraction at h
  split at h
  · exact Nat.le_of_lt (Nat.lt_succ_of_lt (length_lt_of_scanDigits h))
  · obtain ⟨rfl, rfl⟩ := by simpa using h
    simp

theorem length_le_of_scanSign (text : List Char) : (scanSign text).2.length ≤ text.length := by
  unfold scanSign
  split
  · split <;> simp
  · simp

theorem length_le_of_scanExponent {text : List Char} {e : Option Exponent} {rest : List Char}
    (h : scanExponent text = some (e, rest)) : rest.length ≤ text.length := by
  unfold scanExponent at h
  split at h
  · obtain ⟨rfl, rfl⟩ := by simpa using h
    simp
  · rename_i c tail
    split at h
    · obtain ⟨⟨ds, rest'⟩, hs, he⟩ := Option.map_eq_some_iff.mp h
      obtain ⟨rfl, rfl⟩ := by simpa using he
      have h₁ := length_lt_of_scanDigits hs
      have h₂ := length_le_of_scanSign tail
      simp only [List.length_cons]
      omega
    · obtain ⟨rfl, rfl⟩ := by simpa using h
      simp

theorem length_lt_of_scan {text : List Char} {n : Numeral} {rest : List Char}
    (h : scan text = some (n, rest)) : rest.length < text.length := by
  obtain ⟨⟨whole, r₁⟩, h₁, h⟩ := Option.bind_eq_some_iff.mp h
  obtain ⟨⟨fraction, r₂⟩, h₂, h⟩ := Option.bind_eq_some_iff.mp h
  obtain ⟨⟨exponent, r₃⟩, h₃, h⟩ := Option.bind_eq_some_iff.mp h
  obtain ⟨rfl, rfl⟩ := by simpa using h
  have := length_le_of_scanMinus text
  have := length_lt_of_scanWhole h₁
  have := length_le_of_scanFraction h₂
  have := length_le_of_scanExponent h₃
  omega

end Numeral

namespace Token

/-- Every token takes up some of the text. -/
theorem length_lt_of_next {text : List Char} {t : Token} {rest : List Char}
    (h : next text = some (t, rest)) : rest.length < text.length := by
  unfold next at h
  split at h
  case h_10 =>
    obtain ⟨⟨q, r⟩, hs, he⟩ := Option.map_eq_some_iff.mp h
    obtain ⟨rfl, rfl⟩ := by simpa using he
    exact Nat.lt_succ_of_lt (Quoted.length_lt_of_scan hs)
  case h_11 =>
    obtain ⟨⟨n, r⟩, hs, he⟩ := Option.map_eq_some_iff.mp h
    obtain ⟨rfl, rfl⟩ := by simpa using he
    exact Numeral.length_lt_of_scan hs
  all_goals
    obtain ⟨rfl, rfl⟩ := by simpa using h
    simp only [List.length_cons]
    omega

/-- The tokens of a text, if it consists of tokens and white space. -/
def lex (text : List Char) : Option (List Token) :=
  match text with
  | [] => some []
  | c :: tail =>
      if isSpace c then
        lex tail
      else
        match _h : next (c :: tail) with
        | none => none
        | some (t, rest) => (lex rest).map (t :: ·)
termination_by text.length
decreasing_by
  · simp
  · exact length_lt_of_next _h

end Token

end ProcessLogic
