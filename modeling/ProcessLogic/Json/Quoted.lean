/-!
# Quoted strings

Between its quotation marks a JSON string is a row of *pieces*: a character that stands for
itself, a backslash with a letter, or a backslash with `u` and four hexadecimal digits.  The
pieces keep the spelling, so that their text is what was read, digit for digit.

## Surrogates

Four digits give a number below `2 ^ 16`, a unit of UTF-16.  A unit from `D800` to `DBFF` counts
only together with the unit from `DC00` to `DFFF` that has to follow it; the two stand for one
character beyond `U+FFFF`.  Any other use of these units stands for no character, and then the
whole string stands for none, though its grammar is sound.
-/

namespace ProcessLogic

/-- One element of the spelling of a string. -/
inductive Piece where
  | plain (c : Char)
  /-- A backslash and a letter. -/
  | short (letter : Char)
  /-- A backslash, the letter `u` and four hexadecimal digits. -/
  | unit (a b c d : Char)
deriving DecidableEq, Repr

/-- The spelling of a string, without its quotation marks. -/
abbrev Quoted := List Piece

namespace Piece

def text : Piece → List Char
  | .plain c => [c]
  | .short letter => ['\\', letter]
  | .unit a b c d => ['\\', 'u', a, b, c, d]

/-- What a letter behind a backslash stands for. -/
def unescape? : Char → Option Char
  | '"' => some '"'
  | '\\' => some '\\'
  | '/' => some '/'
  | 'b' => some '\x08'
  | 'f' => some '\x0c'
  | 'n' => some '\n'
  | 'r' => some '\r'
  | 't' => some '\t'
  | _ => none

def isHex (c : Char) : Bool :=
  c.isDigit || ('a' ≤ c && c ≤ 'f') || ('A' ≤ c && c ≤ 'F')

/-- The value of a hexadecimal digit. -/
def hexValue (c : Char) : Nat :=
  if c.isDigit then c.toNat - '0'.toNat
  else if 'a' ≤ c then c.toNat - 'a'.toNat + 10
  else c.toNat - 'A'.toNat + 10

/-- The number that four hexadecimal digits stand for. -/
def unitValue (a b c d : Char) : Nat :=
  ((hexValue a * 16 + hexValue b) * 16 + hexValue c) * 16 + hexValue d

/-- Whether a unit is the first half of a surrogate pair. -/
def isLeading (unit : Nat) : Bool := 0xD800 ≤ unit && unit ≤ 0xDBFF

/-- Whether a unit is the second half of a surrogate pair. -/
def isTrailing (unit : Nat) : Bool := 0xDC00 ≤ unit && unit ≤ 0xDFFF

/-- The character of a surrogate pair. -/
def pair (leading trailing : Nat) : Char :=
  .ofNat (0x10000 + (leading - 0xD800) * 0x400 + (trailing - 0xDC00))

/-- How a character is written: only quotation marks, backslashes and the characters below
`U+0020` are escaped. -/
def ofChar : Char → Piece
  | '"' => .short '"'
  | '\\' => .short '\\'
  | '\x08' => .short 'b'
  | '\x0c' => .short 'f'
  | '\n' => .short 'n'
  | '\r' => .short 'r'
  | '\t' => .short 't'
  | c =>
      if c.toNat < 0x20 then
        .unit '0' '0' (Nat.digitChar (c.toNat / 16)) (Nat.digitChar (c.toNat % 16))
      else
        .plain c

end Piece

namespace Quoted

/-- The characters between the quotation marks. -/
def text (q : Quoted) : List Char := q.flatMap Piece.text

@[simp] theorem text_nil : text [] = [] := rfl
@[simp] theorem text_cons (p : Piece) (q : Quoted) : text (p :: q) = p.text ++ text q := rfl

/-- Reads what follows an opening quotation mark; the second component is what follows the
closing one. -/
def scan : List Char → Option (Quoted × List Char)
  | [] => none
  | '"' :: rest => some ([], rest)
  | '\\' :: 'u' :: a :: b :: c :: d :: rest =>
      if [a, b, c, d].all Piece.isHex then
        (scan rest).map fun (q, rest) => (.unit a b c d :: q, rest)
      else
        none
  | '\\' :: letter :: rest =>
      if (Piece.unescape? letter).isSome then
        (scan rest).map fun (q, rest) => (.short letter :: q, rest)
      else
        none
  | c :: rest =>
      if c.toNat < 0x20 || c == '\\' then
        none
      else
        (scan rest).map fun (q, rest) => (.plain c :: q, rest)

/-- The characters that a spelling stands for. -/
def decode : Quoted → Option (List Char)
  | [] => some []
  | .plain c :: rest => (decode rest).map (c :: ·)
  | .short letter :: rest => do
      return (← Piece.unescape? letter) :: (← decode rest)
  | .unit a b c d :: .unit a' b' c' d' :: rest =>
      if Piece.isLeading (Piece.unitValue a b c d) then
        if Piece.isTrailing (Piece.unitValue a' b' c' d') then
          (decode rest).map
            (Piece.pair (Piece.unitValue a b c d) (Piece.unitValue a' b' c' d') :: ·)
        else
          none
      else if Piece.isTrailing (Piece.unitValue a b c d) then
        none
      else
        (decode (.unit a' b' c' d' :: rest)).map (Char.ofNat (Piece.unitValue a b c d) :: ·)
  | .unit a b c d :: rest =>
      if Piece.isLeading (Piece.unitValue a b c d) || Piece.isTrailing (Piece.unitValue a b c d)
      then
        none
      else
        (decode rest).map (Char.ofNat (Piece.unitValue a b c d) :: ·)

/-- The string that a spelling stands for. -/
def string? (q : Quoted) : Option String := (decode q).map .ofList

/-- The spelling that is written for a string. -/
def ofString (s : String) : Quoted := s.toList.map Piece.ofChar

end Quoted

end ProcessLogic
