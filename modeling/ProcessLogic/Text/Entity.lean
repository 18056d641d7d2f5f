/-!
# Escaping text for markup

Five characters mean something to a reader of markup: the ampersand, the two angle brackets and
the two quotation marks.  `escape` replaces each by an entity, character by character, so that it
distributes over concatenation and so that text can be escaped in parts or as a whole.
-/

namespace ProcessLogic

/-- What is written for one character. -/
def entity : Char → List Char
  | '&' => ['&', 'a', 'm', 'p', ';']
  | '<' => ['&', 'l', 't', ';']
  | '>' => ['&', 'g', 't', ';']
  | '"' => ['&', 'q', 'u', 'o', 't', ';']
  | '\'' => ['&', '#', '3', '9', ';']
  | c => [c]

/-- Text with the characters that markup gives a meaning replaced by entities. -/
def escape (text : String) : String := .ofList (text.toList.flatMap entity)

@[simp] theorem toList_escape (text : String) :
    (escape text).toList = text.toList.flatMap entity := by
  simp [escape]

@[simp] theorem escape_empty : escape "" = "" := rfl

/-- Escaping in parts or as a whole is the same. -/
@[simp] theorem escape_append (s t : String) : escape (s ++ t) = escape s ++ escape t := by
  rw [← String.toList_inj]
  simp

end ProcessLogic
