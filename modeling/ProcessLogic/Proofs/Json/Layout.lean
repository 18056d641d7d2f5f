import ProcessLogic.Json.Reader
import ProcessLogic.Proofs.Json.Lexeme
import ProcessLogic.Proofs.Text.Trim
import Mathlib.Data.List.Chain

/-!
# Texts of documents

A text of a document consists of the spellings of its tokens, with any white space in front, between
and behind them; this is `Layout`.  The grammar of JSON says no more about white space than that.

`Tree.lex_bind_eq_some_iff` says that reading accepts exactly these texts.  A row of tokens may
have a text that is read as another row, since the digits of one numeral can be shared out among
several; but in a document no two numerals stand next to each other.
-/

namespace ProcessLogic

/-- A text consists of tokens and of white space. -/
inductive Layout : List Token → List Char → Prop
  | nil : Layout [] []
  | space {ts : List Token} {c : Char} {text : List Char} (h : Token.isSpace c = true)
      (l : Layout ts text) : Layout ts (c :: text)
  | token {ts : List Token} {t : Token} {text : List Char} (h : t.Grammatical)
      (l : Layout ts text) : Layout (t :: ts) (t.text ++ text)

/-- What a text is made of is grammatical. -/
theorem Layout.grammatical {ts : List Token} {text : List Char} (l : Layout ts text) :
    ∀ t ∈ ts, t.Grammatical := by
  induction l with
  | nil => simp
  | space _ _ ih => exact ih
  | token h _ ih => exact List.forall_mem_cons.mpr ⟨h, ih⟩

/-! ### The ends of a token -/

namespace Numeral

/-- The characters of numerals. -/
def isMark (c : Char) : Bool := continues c || Exponent.isSign c

theorem isMark_of_mem_text {n : Numeral} (h : n.Grammatical) {c : Char} (hc : c ∈ n.text) :
    isMark c = true := by
  have digit : ∀ c : Char, c.isDigit = true → isMark c = true := fun c hc => by
    simp [isMark, continues, hc]
  rw [text_eq, List.mem_append, List.mem_append, List.mem_append] at hc
  rcases hc with minus | whole | fraction | exponent
  · split at minus
    · rw [List.mem_singleton.mp minus]
      rfl
    · cases minus
  · exact digit c (h.whole.1.2 c whole)
  · rw [fractionText] at fraction
    split at fraction
    · cases fraction
    · rcases List.mem_cons.mp fraction with rfl | fraction
      · rfl
      · exact digit c (h.fraction c fraction)
  · cases he : n.exponent with
    | none =>
        rw [he] at exponent
        cases exponent
    | some e =>
        obtain ⟨marker, sign, digits⟩ := h.exponent e he
        rw [he, exponentText, Exponent.text, List.mem_cons, List.mem_append,
          Option.mem_toList] at exponent
        rcases exponent with rfl | signed | exponent
        · simp [isMark, continues, marker]
        · simp [isMark, sign c signed]
        · exact digit c (digits.2 c exponent)

theorem not_isBlank_of_isMark {c : Char} (h : isMark c = true) : isBlank c = false := by
  simp only [isMark, continues, Exponent.isMarker, Exponent.isSign, Bool.or_eq_true,
    beq_iff_eq] at h
  rcases h with ((digit | rfl) | rfl | rfl) | rfl | rfl
  · exact isBlank_of_isDigit digit
  all_goals rfl

end Numeral

namespace Token

/-- Two tokens that can be told apart without white space between them. -/
def Apart (t u : Token) : Prop := t.isNumber = true → u.isNumber = false

theorem isBlank_of_isSpace {c : Char} (h : isSpace c = true) : isBlank c = true := by
  simp only [isSpace, Bool.or_eq_true, beq_iff_eq] at h
  rcases h with ((rfl | rfl) | rfl) | rfl <;> rfl

theorem not_isSpace_of_not_isBlank {c : Char} (h : isBlank c = false) : isSpace c = false := by
  refine Bool.eq_false_iff.mpr fun space => ?_
  rw [isBlank_of_isSpace space] at h
  cases h

/-- A token begins with a character that is not blank, and that goes on with a numeral only if it
begins one. -/
theorem exists_cons_of_grammatical {t : Token} (h : t.Grammatical) :
    ∃ c tail, t.text = c :: tail ∧ isBlank c = false ∧
      (t.isNumber = false → Numeral.continues c = false) := by
  cases t with
  | number n =>
      obtain ⟨c, tail, same, -⟩ := Numeral.exists_cons_of_grammatical h
      have mark := Numeral.isMark_of_mem_text h (by rw [same]; exact List.mem_cons_self)
      exact ⟨c, tail, same, Numeral.not_isBlank_of_isMark mark, fun other => by cases other⟩
  | string q => exact ⟨_, _, rfl, rfl, fun _ => rfl⟩
  | bool value => cases value <;> exact ⟨_, _, rfl, rfl, fun _ => rfl⟩
  | _ => exact ⟨_, _, rfl, rfl, fun _ => rfl⟩

/-- A token ends with a character that is not blank. -/
theorem exists_append_of_grammatical {t : Token} (h : t.Grammatical) :
    ∃ front c, t.text = front ++ [c] ∧ isBlank c = false := by
  cases t with
  | number n =>
      obtain ⟨c, tail, same, -⟩ := Numeral.exists_cons_of_grammatical h
      have visible : ∀ d ∈ n.text, isBlank d = false := fun d hd =>
        Numeral.not_isBlank_of_isMark (Numeral.isMark_of_mem_text h hd)
      have nonempty : n.text ≠ [] := by simp [same]
      exact ⟨_, _, (List.dropLast_append_getLast nonempty).symm, visible _ (List.getLast_mem _)⟩
  | string q => exact ⟨'"' :: q.text, '"', rfl, rfl⟩
  | null => exact ⟨['n', 'u', 'l'], 'l', rfl, rfl⟩
  | bool value =>
      cases value with
      | true => exact ⟨['t', 'r', 'u'], 'e', rfl, rfl⟩
      | false => exact ⟨['f', 'a', 'l', 's'], 'e', rfl, rfl⟩
  | _ => exact ⟨[], _, rfl, rfl⟩

end Token

/-! ### Cutting a text into tokens -/

namespace Layout

variable {ts : List Token} {text : List Char}

theorem of_lex (h : Token.lex text = some ts) : Layout ts text := by
  fun_induction Token.lex text generalizing ts with
  | case1 =>
      obtain rfl := Option.some.inj h
      exact .nil
  | case2 c tail space ih => exact .space space (ih h)
  | case3 => cases h
  | case4 c tail _ t rest read ih =>
      obtain ⟨others, hrest, rfl⟩ := Option.map_eq_some_iff.mp h
      obtain ⟨same, grammatical⟩ := Token.next_sound read
      rw [same]
      exact .token grammatical (ih hrest)

/-- In front of anything but a numeral, a numeral has ended. -/
theorem stops (l : Layout ts text) (h : ∀ t ∈ ts.head?, t.isNumber = false) :
    Stops Numeral.continues text := by
  cases l with
  | nil => exact .nil
  | space space _ =>
      refine .cons ?_ _
      simp only [Token.isSpace, Bool.or_eq_true, beq_iff_eq] at space
      rcases space with ((rfl | rfl) | rfl) | rfl <;> rfl
  | token grammatical _ =>
      obtain ⟨c, tail, same, -, other⟩ := Token.exists_cons_of_grammatical grammatical
      rw [same]
      exact .cons (other (h _ rfl)) _

theorem lex_eq (l : Layout ts text) (apart : ts.IsChain Token.Apart) :
    Token.lex text = some ts := by
  induction l with
  | nil => rw [Token.lex]
  | space space _ ih => rw [Token.lex, if_pos space, ih apart]
  | @token ts t text grammatical l ih =>
      obtain ⟨first, others⟩ := List.isChain_cons.mp apart
      obtain ⟨c, tail, same, visible, -⟩ := Token.exists_cons_of_grammatical grammatical
      have read := Token.next_append grammatical fun number =>
        l.stops fun u hu => first u hu number
      rw [same, List.cons_append] at read ⊢
      rw [Token.lex, if_neg (by simp [Token.not_isSpace_of_not_isBlank visible])]
      split
      · rename_i failed
        rw [read] at failed
        cases failed
      · rename_i u rest found
        rw [read] at found
        obtain ⟨rfl, rfl⟩ := by simpa using found
        rw [ih others, Option.map_some]

/-! ### Blanks around a text -/

theorem dropWhile_isBlank (l : Layout ts text) : Layout ts (text.dropWhile isBlank) := by
  induction l with
  | nil => exact .nil
  | space space _ ih =>
      rw [List.dropWhile_cons_of_pos (Token.isBlank_of_isSpace space)]
      exact ih
  | token grammatical l _ =>
      obtain ⟨c, tail, same, visible, -⟩ := Token.exists_cons_of_grammatical grammatical
      have whole := Layout.token grammatical l
      rw [same, List.cons_append] at whole ⊢
      rw [List.dropWhile_cons_of_neg (by simp [visible])]
      exact whole

theorem of_append_blank {c : Char} (blank : isBlank c = true) (l : Layout ts (text ++ [c])) :
    Layout ts text := by
  generalize whole : text ++ [c] = all at l
  induction l generalizing text with
  | nil => simp at whole
  | @space ts d rest space l ih =>
      cases text with
      | nil =>
          obtain ⟨-, rfl⟩ := List.cons.inj whole
          exact l
      | cons e text =>
          obtain ⟨rfl, rest_eq⟩ := List.cons.inj whole
          exact .space space (ih rest_eq)
  | @token ts t rest grammatical l ih =>
      rcases List.eq_nil_or_concat rest with rfl | ⟨rest, d, rfl⟩
      · obtain ⟨front, d, same, visible⟩ := Token.exists_append_of_grammatical grammatical
        rw [same, List.append_nil] at whole
        obtain ⟨-, last⟩ := List.append_inj' whole rfl
        rw [List.singleton_inj.mp last, visible] at blank
        cases blank
      · rw [List.concat_eq_append, ← List.append_assoc] at whole
        obtain ⟨rfl, last⟩ := List.append_inj' whole rfl
        exact .token grammatical (ih (by rw [last, List.concat_eq_append]))

theorem rdropWhile_isBlank (l : Layout ts text) : Layout ts (text.rdropWhile isBlank) := by
  induction text using List.reverseRecOn with
  | nil => exact l
  | append_singleton text c ih =>
      rw [List.rdropWhile_concat]
      split
      · rename_i blank
        exact ih (of_append_blank blank l)
      · exact l

/-- A text without the blanks around it is a text of the same tokens. -/
theorem trim (l : Layout ts text) : Layout ts (trim text) := l.dropWhile_isBlank.rdropWhile_isBlank

end Layout

/-! ### Documents -/

namespace Tree

/-- Tokens that no numeral follows may be followed by a row that begins with no numeral. -/
theorem isChain_append {ts us : List Token} (hts : ts.IsChain Token.Apart)
    (hus : us.IsChain Token.Apart) (other : ∀ u ∈ us.head?, u.isNumber = false) :
    (ts ++ us).IsChain Token.Apart :=
  List.isChain_append.mpr ⟨hts, hus, fun _ _ u hu _ => other u hu⟩

theorem isChain_cons {t : Token} {ts : List Token} (h : t.isNumber = false)
    (hts : ts.IsChain Token.Apart) : (t :: ts).IsChain Token.Apart := by
  refine List.isChain_cons.mpr ⟨fun u _ number => ?_, hts⟩
  rw [h] at number
  cases number

section Parts

variable {α : Type} {f : α → List Token} {xs : List α} {close : Token}

/-- Parts with a comma in front of each, and a bracket behind them. -/
theorem isChain_flatMap (h : ∀ x ∈ xs, (f x).IsChain Token.Apart) (hc : close.isNumber = false) :
    (xs.flatMap (fun x => .comma :: f x) ++ [close]).IsChain Token.Apart ∧
      ∀ u ∈ (xs.flatMap (fun x => .comma :: f x) ++ [close]).head?, u.isNumber = false := by
  induction xs with
  | nil => exact ⟨.singleton _, by simp [hc]⟩
  | cons x xs ih =>
      obtain ⟨chain, head⟩ := ih fun y hy => h y (List.mem_cons_of_mem _ hy)
      rw [List.flatMap_cons, List.append_assoc, List.cons_append]
      have behind := isChain_append (h x List.mem_cons_self) chain head
      exact ⟨isChain_cons rfl behind, by simp [Token.isNumber]⟩

/-- Parts with a comma between them, and a bracket behind them. -/
theorem isChain_intercalate (h : ∀ x ∈ xs, (f x).IsChain Token.Apart)
    (hc : close.isNumber = false) :
    ([.comma].intercalate (xs.map f) ++ [close]).IsChain Token.Apart := by
  cases xs with
  | nil => exact .singleton _
  | cons x xs =>
      obtain ⟨chain, head⟩ := isChain_flatMap (fun y hy => h y (List.mem_cons_of_mem _ hy)) hc
      rw [List.map_cons, intercalate_cons, List.append_assoc]
      exact isChain_append (h x List.mem_cons_self) chain head

end Parts

mutual

theorem isChain_tokens : (t : Tree) → (tokens t).IsChain Token.Apart
  | .null | .bool _ | .number _ | .string _ => .singleton _
  | .array items => by
      rw [tokens, tokensOfItems_eq_map]
      exact isChain_cons rfl (isChain_intercalate (isChain_items items) rfl)
  | .object members => by
      rw [tokens, tokensOfMembers_eq_map]
      exact isChain_cons rfl (isChain_intercalate (isChain_members members) rfl)

theorem isChain_items : (items : List Tree) → ∀ item ∈ items, (tokens item).IsChain Token.Apart
  | [] => by simp
  | item :: rest => List.forall_mem_cons.mpr ⟨isChain_tokens item, isChain_items rest⟩

theorem isChain_members : (members : List (Quoted × Tree)) →
    ∀ member ∈ members, (memberTokens member).IsChain Token.Apart
  | [] => by simp
  | (_, value) :: rest => List.forall_mem_cons.mpr
      ⟨isChain_cons rfl (isChain_cons rfl (isChain_tokens value)), isChain_members rest⟩

end

/-- Reading accepts the texts of documents, and nothing else. -/
theorem lex_bind_eq_some_iff {text : List Char} {t : Tree} :
    (Token.lex text).bind ofTokens? = some t ↔ Layout t.tokens text := by
  rw [Option.bind_eq_some_iff]
  constructor
  · rintro ⟨ts, lexed, read⟩
    rw [ofTokens?_eq_some_iff.mp read] at lexed
    exact .of_lex lexed
  · intro l
    exact ⟨t.tokens, l.lex_eq t.isChain_tokens, ofTokens?_eq_some_iff.mpr rfl⟩

end Tree

end ProcessLogic
