import ProcessLogic.Json.Writer
import ProcessLogic.Proofs.Json.Object

/-!
# What is written is read back

A value is written as the text of a document without white space, and the document stands for the
value; `Value.Written` says so of a value and a document.  Of the ways in which a character of a
string can be spelled the writer chooses one, and that one stands for the character.

The text of a token never has a control character in it, a newline in particular, since strings
escape them.  So a value is written on one line.

There is a document for every value because the relation goes along with the constructors, which is
what `Value.Compositional` says.  Values with numbers are left out here: no number is ever sent.
-/

namespace ProcessLogic

/-! ### Strings -/

/-- Text without control characters. -/
def Visible (text : List Char) : Prop := ∀ c ∈ text, 0x20 ≤ c.toNat

instance (text : List Char) : Decidable (Visible text) :=
  List.decidableBAll (fun c : Char => 0x20 ≤ c.toNat) text

theorem visible_of_isDigit {c : Char} (h : c.isDigit = true) : 0x20 ≤ c.toNat := by
  have low : 48 ≤ c.toNat := (Char.isDigit_iff_toNat.mp h).1
  omega

namespace Piece

theorem isHex_digitChar : ∀ n < 16, isHex (Nat.digitChar n) = true := by decide

theorem hexValue_digitChar : ∀ n < 16, hexValue (Nat.digitChar n) = n := by decide

/-- Four digits give back the code of a control character. -/
theorem unitValue_digitChar {n : Nat} (h : n < 0x20) :
    unitValue '0' '0' (Nat.digitChar (n / 16)) (Nat.digitChar (n % 16)) = n := by
  have zero : hexValue '0' = 0 := rfl
  rw [unitValue, zero, hexValue_digitChar _ (by omega), hexValue_digitChar _ (by omega)]
  omega

/-- A character is written in a way that is grammatical. -/
theorem grammatical_ofChar (c : Char) : (ofChar c).Grammatical := by
  unfold ofChar
  split
  case h_8 quote slash _ _ _ _ _ =>
    split
    · rename_i control
      have high := isHex_digitChar (c.toNat / 16) (by omega)
      have low := isHex_digitChar (c.toNat % 16) (by omega)
      exact List.forall_mem_cons.mpr ⟨rfl, List.forall_mem_cons.mpr ⟨rfl,
        List.forall_mem_cons.mpr ⟨high, List.forall_mem_singleton.mpr low⟩⟩⟩
    · rename_i visible
      exact ⟨Nat.not_lt.mp visible, quote, slash⟩
  all_goals rfl

theorem visible_of_isHex {c : Char} (h : isHex c = true) : 0x20 ≤ c.toNat := by
  simp only [isHex, Bool.or_eq_true, Bool.and_eq_true, decide_eq_true_eq] at h
  rcases h with (digit | ⟨low, -⟩) | ⟨low, -⟩
  · exact visible_of_isDigit digit
  · have low : 97 ≤ c.toNat := low
    omega
  · have low : 65 ≤ c.toNat := low
    omega

/-- No piece has a control character in its spelling. -/
theorem visible_text {p : Piece} (h : p.Grammatical) : Visible p.text := by
  cases p with
  | plain x => exact List.forall_mem_singleton.mpr h.1
  | short letter =>
      have known : (unescape? letter).isSome = true := h
      have letterVisible : 0x20 ≤ letter.toNat := by
        unfold unescape? at known
        split at known
        case h_9 => cases known
        all_goals decide
      exact List.forall_mem_cons.mpr ⟨by decide, List.forall_mem_singleton.mpr letterVisible⟩
  | unit a₁ a₂ a₃ a₄ =>
      refine List.forall_mem_cons.mpr ⟨by decide, List.forall_mem_cons.mpr ⟨by decide, ?_⟩⟩
      intro c hc
      exact visible_of_isHex (h c hc)

end Piece

namespace Quoted

open Piece

/-- What is written for a character stands for it. -/
theorem spells_ofChar (c : Char) {q : Quoted} {cs : List Char} (h : Spells q cs) :
    Spells (ofChar c :: q) (c :: cs) := by
  unfold ofChar
  split
  case h_8 =>
    split
    · rename_i control
      exact .unit (unitValue_digitChar control).symm h
    · exact .plain c h
  all_goals exact .short rfl h

theorem spells_map_ofChar (cs : List Char) : Spells (cs.map ofChar) cs := by
  induction cs with
  | nil => exact .nil
  | cons c cs ih => exact spells_ofChar c ih

theorem grammatical_ofString (s : String) : (ofString s).Grammatical := by
  rw [ofString]
  rintro p hp
  obtain ⟨c, -, rfl⟩ := List.mem_map.mp hp
  exact grammatical_ofChar c

/-- What is written for a string is read back. -/
theorem string?_ofString (s : String) : (ofString s).string? = some s :=
  (string?_eq_some_iff (grammatical_ofString s)).mpr (spells_map_ofChar s.toList)

end Quoted

/-! ### Documents -/

theorem flatMap_intercalate {α β : Type} (f : α → List β) (sep : List α) (xss : List (List α)) :
    (sep.intercalate xss).flatMap f =
      (sep.flatMap f).intercalate (xss.map fun xs => xs.flatMap f) := by
  induction xss with
  | nil => rfl
  | cons xs xss ih =>
      cases xss with
      | nil => simp
      | cons ys xss =>
          rw [List.intercalate_cons_cons, List.flatMap_append, List.flatMap_append, ih,
            List.map_cons, List.map_cons, List.map_cons, List.intercalate_cons_cons]

theorem mem_or_of_mem_intercalate {α : Type} {sep : List α} {xss : List (List α)} {x : α}
    (h : x ∈ sep.intercalate xss) : x ∈ sep ∨ ∃ xs ∈ xss, x ∈ xs := by
  induction xss with
  | nil => cases h
  | cons xs xss ih =>
      cases xss with
      | nil =>
          rw [List.intercalate_singleton] at h
          exact .inr ⟨xs, List.mem_singleton_self xs, h⟩
      | cons ys xss =>
          rw [List.intercalate_cons_cons, List.mem_append, List.mem_append] at h
          rcases h with (h | h) | h
          · exact .inr ⟨xs, List.mem_cons_self, h⟩
          · exact .inl h
          · rcases ih h with h | ⟨zs, hzs, h⟩
            · exact .inl h
            · exact .inr ⟨zs, List.mem_cons_of_mem _ hzs, h⟩

namespace Value

theorem compactItems_eq_map (items : List Value) : compactItems items = items.map compact := by
  induction items with
  | nil => rfl
  | cons item rest ih => rw [compactItems, ih, List.map_cons]

theorem compactMembers_eq_map (members : List (String × Value)) :
    compactMembers members = members.map fun m => quote m.1 ++ ":" ++ compact m.2 := by
  induction members with
  | nil => rfl
  | cons member rest ih => rw [compactMembers, ih, List.map_cons]

/-- A document stands for a value, and its spelling without white space is what is written for the
value. -/
structure Written (v : Value) (t : Tree) : Prop where
  decode : t.decode Numeral.number? Quoted.string? = some v
  depth : t.depth = v.depth
  grammatical : ∀ x ∈ t.tokens, x.Grammatical
  text : v.compact.toList = t.tokens.flatMap Token.text

/-- A member of an object is written. -/
def WrittenMember (m : String × Value) (t : Quoted × Tree) : Prop :=
  t.1 = Quoted.ofString m.1 ∧ Written m.2 t.2

namespace Written

theorem null : Written .null .null := ⟨rfl, rfl, by simp [Tree.tokens, Token.Grammatical], rfl⟩

theorem bool (value : Bool) : Written (.bool value) (.bool value) := by
  refine ⟨rfl, rfl, by simp [Tree.tokens, Token.Grammatical], ?_⟩
  cases value <;> rfl

theorem string (value : String) : Written (.string value) (.string (Quoted.ofString value)) := by
  refine ⟨?_, rfl, ?_, ?_⟩
  · rw [Json.decode, Quoted.string?_ofString, Option.map_some]
  · exact List.forall_mem_singleton.mpr (Quoted.grammatical_ofString value)
  · simp [compact, quote, Tree.tokens, Token.text]

/-! Arrays and objects are parts with commas between them, and a bracket at either end. -/

section Parts

variable {first last : Token} {parts : List (List Token)}

theorem grammatical_parts (hf : first.Grammatical) (hl : last.Grammatical)
    (h : ∀ ts ∈ parts, ∀ x ∈ ts, x.Grammatical) :
    ∀ x ∈ first :: ([.comma].intercalate parts ++ [last]), x.Grammatical := by
  rintro x hx
  rcases List.mem_cons.mp hx with rfl | hx
  · exact hf
  · rcases List.mem_append.mp hx with hx | hx
    · rcases mem_or_of_mem_intercalate hx with hx | ⟨ts, hts, hx⟩
      · rw [List.mem_singleton.mp hx]
        trivial
      · exact h ts hts x hx
    · rw [List.mem_singleton.mp hx]
      exact hl

theorem text_parts {front back : String} {texts : List String} (hf : front.toList = first.text)
    (hl : back.toList = last.text)
    (h : texts.map String.toList = parts.map fun ts => ts.flatMap Token.text) :
    (front ++ ",".intercalate texts ++ back).toList =
      (first :: ([.comma].intercalate parts ++ [last])).flatMap Token.text := by
  have comma : ",".toList = [Token.comma].flatMap Token.text := rfl
  rw [String.toList_append, String.toList_append, String.toList_intercalate, hf, hl, h, comma,
    ← flatMap_intercalate, List.flatMap_cons, List.flatMap_append, List.flatMap_singleton,
    List.append_assoc]

end Parts

section Items

variable {items : List Value} {trees : List Tree}

theorem decodeItems (h : List.Forall₂ Written items trees) :
    Json.decodeItems Numeral.number? Quoted.string? trees = some items := by
  induction h with
  | nil => rw [Json.decodeItems]
  | cons written _ ih =>
      rw [Json.decodeItems, written.decode, ih]
      rfl

theorem itemsDepth (h : List.Forall₂ Written items trees) :
    Json.itemsDepth trees = Json.itemsDepth items := by
  induction h with
  | nil => rw [Json.itemsDepth, Json.itemsDepth]
  | cons written _ ih => rw [Json.itemsDepth, Json.itemsDepth, written.depth, ih]

theorem grammatical_items (h : List.Forall₂ Written items trees) :
    ∀ ts ∈ trees.map Tree.tokens, ∀ x ∈ ts, x.Grammatical := by
  induction h with
  | nil => rintro ts ⟨⟩
  | cons written _ ih => exact List.forall_mem_cons.mpr ⟨written.grammatical, ih⟩

theorem text_items (h : List.Forall₂ Written items trees) :
    (items.map compact).map String.toList =
      (trees.map Tree.tokens).map fun ts => ts.flatMap Token.text := by
  induction h with
  | nil => rfl
  | cons written _ ih => simp only [List.map_cons, written.text, ih]

theorem array (h : List.Forall₂ Written items trees) : Written (.array items) (.array trees) := by
  refine ⟨?_, ?_, ?_, ?_⟩
  · rw [Json.decode, decodeItems h, Option.map_some]
  · rw [Json.depth_array, Json.depth_array, itemsDepth h]
  · rw [Tree.tokens, Tree.tokensOfItems_eq_map]
    exact grammatical_parts trivial trivial (grammatical_items h)
  · rw [compact, Tree.tokens, compactItems_eq_map, Tree.tokensOfItems_eq_map]
    exact text_parts rfl rfl (text_items h)

end Items

section Members

variable {members : List (String × Value)} {trees : List (Quoted × Tree)}

theorem decodeMembers (h : List.Forall₂ WrittenMember members trees) :
    Json.decodeMembers Numeral.number? Quoted.string? trees = some members := by
  induction h with
  | nil => rw [Json.decodeMembers]
  | @cons m t _ _ written _ ih =>
      obtain ⟨key, value⟩ := written
      rw [Json.decodeMembers, key, Quoted.string?_ofString, value.decode, ih]
      rfl

theorem membersDepth (h : List.Forall₂ WrittenMember members trees) :
    Json.membersDepth trees = Json.membersDepth members := by
  induction h with
  | nil => rw [Json.membersDepth, Json.membersDepth]
  | cons written _ ih => rw [Json.membersDepth, Json.membersDepth, written.2.depth, ih]

theorem grammatical_members (h : List.Forall₂ WrittenMember members trees) :
    ∀ ts ∈ trees.map Tree.memberTokens, ∀ x ∈ ts, x.Grammatical := by
  induction h with
  | nil => rintro ts ⟨⟩
  | @cons m t _ _ written _ ih =>
      obtain ⟨key, value⟩ := written
      refine List.forall_mem_cons.mpr ⟨?_, ih⟩
      refine List.forall_mem_cons.mpr ⟨?_, List.forall_mem_cons.mpr ⟨trivial, value.grammatical⟩⟩
      rw [key]
      exact Quoted.grammatical_ofString m.1

theorem text_members (h : List.Forall₂ WrittenMember members trees) :
    (members.map fun m => quote m.1 ++ ":" ++ compact m.2).map String.toList =
      (trees.map Tree.memberTokens).map fun ts => ts.flatMap Token.text := by
  induction h with
  | nil => rfl
  | @cons m t _ _ written _ ih =>
      obtain ⟨key, value⟩ := written
      have spelled : (quote m.1 ++ ":" ++ compact m.2).toList =
          (Tree.memberTokens t).flatMap Token.text := by
        simp [quote, value.text, Tree.memberTokens, key, Token.text]
      rw [List.map_cons, List.map_cons, List.map_cons, List.map_cons, spelled, ih]

theorem object (h : List.Forall₂ WrittenMember members trees) :
    Written (.object members) (.object trees) := by
  refine ⟨?_, ?_, ?_, ?_⟩
  · rw [Json.decode, decodeMembers h, Option.map_some]
  · rw [Json.depth_object, Json.depth_object, membersDepth h]
  · rw [Tree.tokens, Tree.tokensOfMembers_eq_map]
    exact grammatical_parts trivial trivial (grammatical_members h)
  · rw [compact, Tree.tokens, compactMembers_eq_map, Tree.tokensOfMembers_eq_map]
    exact text_parts rfl rfl (text_members h)

end Members

end Written

/-- Members of objects correspond if their values do; the keys are spelled as they are written. -/
def MembersBy (R : Value → Tree → Prop) (m : String × Value) (t : Quoted × Tree) : Prop :=
  t.1 = Quoted.ofString m.1 ∧ R m.2 t.2

/-- Values and documents correspond if their parts do. -/
structure Compositional (R : Value → Tree → Prop) : Prop where
  null : R .null .null
  bool (value : Bool) : R (.bool value) (.bool value)
  string (value : String) : R (.string value) (.string (Quoted.ofString value))
  array {items : List Value} {trees : List Tree} (h : List.Forall₂ R items trees) :
    R (.array items) (.array trees)
  object {members : List (String × Value)} {trees : List (Quoted × Tree)}
    (h : List.Forall₂ (MembersBy R) members trees) : R (.object members) (.object trees)

theorem compositional_written : Compositional Written :=
  ⟨.null, .bool, .string, .array, .object⟩

namespace Compositional

variable {R : Value → Tree → Prop} {p : Number → Prop}

mutual

/-- There is a document for every value, if there is one for each of its numbers. -/
theorem exists_tree (h : Compositional R) (hn : ∀ n, p n → ∃ t, R (.number n) t) :
    (v : Value) → v.Every p (fun _ => True) → ∃ t, R v t
  | .null, _ => ⟨_, h.null⟩
  | .bool value, _ => ⟨_, h.bool value⟩
  | .number value, every => hn value (by rwa [Json.Every] at every)
  | .string value, _ => ⟨_, h.string value⟩
  | .array items, every => by
      rw [Json.Every] at every
      obtain ⟨trees, parts⟩ := exists_items h hn items every
      exact ⟨_, h.array parts⟩
  | .object members, every => by
      rw [Json.Every] at every
      obtain ⟨trees, parts⟩ := exists_members h hn members every
      exact ⟨_, h.object parts⟩

theorem exists_items (h : Compositional R) (hn : ∀ n, p n → ∃ t, R (.number n) t) :
    (items : List Value) → Json.EveryItem p (fun _ => True) items →
      ∃ trees, List.Forall₂ R items trees
  | [], _ => ⟨[], .nil⟩
  | item :: rest, every => by
      rw [Json.EveryItem] at every
      obtain ⟨t, ht⟩ := exists_tree h hn item every.1
      obtain ⟨ts, hts⟩ := exists_items h hn rest every.2
      exact ⟨t :: ts, .cons ht hts⟩

theorem exists_members (h : Compositional R) (hn : ∀ n, p n → ∃ t, R (.number n) t) :
    (members : List (String × Value)) → Json.EveryMember p (fun _ => True) members →
      ∃ trees, List.Forall₂ (MembersBy R) members trees
  | [], _ => ⟨[], .nil⟩
  | (key, value) :: rest, every => by
      rw [Json.EveryMember] at every
      obtain ⟨t, ht⟩ := exists_tree h hn value every.2.1
      obtain ⟨ts, hts⟩ := exists_members h hn rest every.2.2
      exact ⟨(Quoted.ofString key, t) :: ts, .cons ⟨rfl, ht⟩ hts⟩

end

end Compositional

/-- A value without numbers. -/
def Numberless (v : Value) : Prop := v.Every (fun _ => False) fun _ => True

theorem exists_written (v : Value) (h : v.Numberless) : ∃ t, Written v t :=
  compositional_written.exists_tree (fun _ number => number.elim) v h

end Value

/-! ### Texts -/

theorem Numeral.visible_of_isMark {c : Char} (h : isMark c = true) : 0x20 ≤ c.toNat := by
  simp only [isMark, continues, Exponent.isMarker, Exponent.isSign, Bool.or_eq_true,
    beq_iff_eq] at h
  rcases h with ((digit | rfl) | rfl | rfl) | rfl | rfl
  · exact visible_of_isDigit digit
  all_goals decide

namespace Token

/-- No token has a control character in its spelling. -/
theorem visible_text {t : Token} (h : t.Grammatical) : Visible t.text := by
  cases t with
  | number n =>
      intro c hc
      exact Numeral.visible_of_isMark (Numeral.isMark_of_mem_text h hc)
  | string q =>
      intro c hc
      rcases List.mem_cons.mp hc with rfl | hc
      · decide
      · rcases List.mem_append.mp hc with hc | hc
        · obtain ⟨p, hp, hc⟩ := List.mem_flatMap.mp hc
          exact Piece.visible_text (h p hp) c hc
        · rw [List.mem_singleton.mp hc]
          decide
  | bool value => cases value <;> decide
  | _ => decide

end Token

namespace Layout

variable {ts : List Token} {text : List Char}

/-- Tokens may be written without white space. -/
theorem of_grammatical (h : ∀ t ∈ ts, t.Grammatical) : Layout ts (ts.flatMap Token.text) := by
  induction ts with
  | nil => exact .nil
  | cons t ts ih =>
      obtain ⟨ht, hts⟩ := List.forall_mem_cons.mp h
      exact .token ht (ih hts)

theorem of_members {members : List (Quoted × Tree)}
    (h : ∀ m ∈ members, ∀ x ∈ Tree.memberTokens m, x.Grammatical) :
    Layout (Tree.tokens (.object members))
      ((Tree.tokens (.object members)).flatMap Token.text) := by
  refine of_grammatical ?_
  rw [Tree.tokens, Tree.tokensOfMembers_eq_map]
  exact Value.Written.grammatical_parts trivial trivial (List.forall_mem_map.mpr h)

/-- A text may come behind another one. -/
theorem append {us : List Token} {text' : List Char} (l : Layout ts text)
    (l' : Layout us text') : Layout (ts ++ us) (text ++ text') := by
  induction l with
  | nil => exact l'
  | space hc _ ih => exact .space hc ih
  | token ht _ ih =>
      rw [List.append_assoc]
      exact .token ht ih

theorem of_spaces {spaces : List Char} (h : ∀ c ∈ spaces, Token.isSpace c = true) :
    Layout [] spaces := by
  induction spaces with
  | nil => exact .nil
  | cons c spaces ih =>
      obtain ⟨hc, hspaces⟩ := List.forall_mem_cons.mp h
      exact .space hc (ih hspaces)

/-- White space may come behind them. -/
theorem append_space (l : Layout ts text) {spaces : List Char}
    (h : ∀ c ∈ spaces, Token.isSpace c = true) : Layout ts (text ++ spaces) := by
  have whole := l.append (of_spaces h)
  rwa [List.append_nil] at whole

end Layout

namespace Value

variable {v : Value}

theorem Written.layout {t : Tree} (h : Written v t) : Layout t.tokens v.compact.toList := by
  rw [h.text]
  exact .of_grammatical h.grammatical

/-- **What is written is read back**, with or without white space behind it. -/
theorem read?_compact (h : v.Numberless) (depth : v.depth ≤ nestingLimit) {spaces : List Char}
    (hs : ∀ c ∈ spaces, Token.isSpace c = true) :
    read? (.ofList (v.compact.toList ++ spaces)) = some v := by
  obtain ⟨t, written⟩ := v.exists_written h
  have l : Layout t.tokens (v.compact.toList ++ spaces) := written.layout.append_space hs
  rw [read?_of_layout l, Tree.value?, if_pos (written.depth ▸ depth), written.decode]

/-- A value is written on one line. -/
theorem visible_compact (h : v.Numberless) : Visible v.compact.toList := by
  obtain ⟨t, written⟩ := v.exists_written h
  intro c hc
  rw [written.text] at hc
  obtain ⟨x, hx, hc⟩ := List.mem_flatMap.mp hc
  exact Token.visible_text (written.grammatical x hx) c hc

end Value

end ProcessLogic
