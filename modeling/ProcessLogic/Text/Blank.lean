import ProcessLogic.Text.Pieces
import ProcessLogic.Text.Ranges

/-!
# Blanks

The characters of the Unicode property `White_Space`, and the two things this library does
with them: cutting them off both ends of a text, and cutting a text into words.

## Why a table

Core's `Char.isWhitespace` knows ASCII alone, and lacks the line tabulation and the form feed.
The property has 25 members in ten ranges, and the characters that merely look blank, such as
the zero width space `U+200B` or the byte order mark `U+FEFF`, are not among them.
-/

namespace ProcessLogic

/-- The ranges of `White_Space`, by their first and last code points. -/
def blankRanges : CodeRanges where
  ranges := [(0x9, 0xD), (0x20, 0x20), (0x85, 0x85), (0xA0, 0xA0), (0x1680, 0x1680),
    (0x2000, 0x200A), (0x2028, 0x2029), (0x202F, 0x202F), (0x205F, 0x205F), (0x3000, 0x3000)]
  ascending := by decide +kernel

/-- Whether a character has the property `White_Space`. -/
def isBlank (c : Char) : Bool := blankRanges.covers c

/-- A text without the blanks at either end. -/
def trim (text : List Char) : List Char :=
  ((text.dropWhile isBlank).reverse.dropWhile isBlank).reverse

/-- The maximal stretches of characters that are not blank. -/
def words (text : List Char) : List (List Char) :=
  (pieces isBlank text).filter fun piece => !piece.isEmpty

@[simp] theorem trim_nil : trim [] = [] := rfl

/-- Words come from one cut at a time: a stretch without blanks up to a blank is a word, unless
it is empty. -/
theorem words_append_cons {b : Char} (hb : isBlank b = true) (rest : List Char)
    {word : List Char} (h : ∀ c ∈ word, isBlank c = false) :
    words (word ++ b :: rest) = if word.isEmpty then words rest else word :: words rest := by
  rw [words, pieces_append_cons hb rest h]
  cases word <;> simp [words]

end ProcessLogic
