import ProcessLogic.Json.Value
import ProcessLogic.Proofs.Json.Lexeme

/-!
# What spellings stand for

A character of a string can be spelled in up to four ways: as itself, by the letter of a short
escape, by its code in four hexadecimal digits, or by the two codes of a surrogate pair; which of
them there are, and that nothing else is a spelling, is what `Quoted.Spells` says.  Decoding agrees
with it.

A document can be decoded if all its numbers and strings can, whatever its shape.
-/

namespace ProcessLogic

/-- The character of a code that characters have. -/
theorem toNat_ofNat_of_isValidChar {n : Nat} (h : n.isValidChar) : (Char.ofNat n).toNat = n := by
  rw [Char.ofNat, dif_pos h]
  rfl

namespace Piece

theorem hexValue_lt {c : Char} (h : isHex c = true) : hexValue c < 16 := by
  simp only [isHex, Bool.or_eq_true, Bool.and_eq_true, decide_eq_true_eq] at h
  unfold hexValue
  split
  · rename_i digit
    have high : c.toNat ≤ 57 := (Char.isDigit_iff_toNat.mp digit).2
    simp only [Char.reduceToNat]
    omega
  · rename_i noDigit
    rcases h with (digit | ⟨low, high⟩) | ⟨low, high⟩
    · exact absurd digit noDigit
    · have high : c.toNat ≤ 102 := high
      rw [if_pos low]
      simp only [Char.reduceToNat]
      omega
    · have high : c.toNat ≤ 70 := high
      rw [if_neg fun small => by have small : 97 ≤ c.toNat := small; omega]
      simp only [Char.reduceToNat]
      omega

theorem unitValue_lt {a b c d : Char} (h : ∀ x ∈ [a, b, c, d], isHex x = true) :
    unitValue a b c d < 0x10000 := by
  have ha := hexValue_lt (h a (by simp))
  have hb := hexValue_lt (h b (by simp))
  have hc := hexValue_lt (h c (by simp))
  have hd := hexValue_lt (h d (by simp))
  unfold unitValue
  omega

/-- No character has the code of half a surrogate pair. -/
theorem not_surrogate_of_toNat_eq {x : Char} {unit : Nat} (h : x.toNat = unit) :
    isLeading unit = false ∧ isTrailing unit = false := by
  have valid : x.toNat < 0xD800 ∨ 0xDFFF < x.toNat ∧ x.toNat < 0x110000 := x.valid
  simp only [isLeading, isTrailing, Bool.and_eq_false_iff, decide_eq_false_iff_not]
  omega

end Piece

namespace Quoted

open Piece

/-- The characters that a row of pieces stands for. -/
inductive Spells : Quoted → List Char → Prop
  | nil : Spells [] []
  | plain (x : Char) {q : Quoted} {cs : List Char} (h : Spells q cs) :
      Spells (.plain x :: q) (x :: cs)
  | short {letter x : Char} {q : Quoted} {cs : List Char} (hx : unescape? letter = some x)
      (h : Spells q cs) : Spells (.short letter :: q) (x :: cs)
  | unit {a b c d x : Char} {q : Quoted} {cs : List Char} (hx : x.toNat = unitValue a b c d)
      (h : Spells q cs) : Spells (.unit a b c d :: q) (x :: cs)
  | pair {a b c d a' b' c' d' x : Char} {q : Quoted} {cs : List Char}
      (leading : isLeading (unitValue a b c d) = true)
      (trailing : isTrailing (unitValue a' b' c' d') = true)
      (hx : x.toNat = 0x10000 + (unitValue a b c d - 0xD800) * 0x400
        + (unitValue a' b' c' d' - 0xDC00))
      (h : Spells q cs) : Spells (.unit a b c d :: .unit a' b' c' d' :: q) (x :: cs)

variable {q : Quoted} {cs : List Char}

theorem decode_unit {a b c d : Char} (noLeading : isLeading (unitValue a b c d) = false)
    (noTrailing : isTrailing (unitValue a b c d) = false) (q : Quoted) :
    decode (.unit a b c d :: q) = (decode q).map (Char.ofNat (unitValue a b c d) :: ·) := by
  rw [decode.eq_def]
  split
  case h_4 same =>
    obtain ⟨first, rfl⟩ := List.cons.inj same
    cases first
    rw [noLeading, noTrailing, if_neg Bool.false_ne_true, if_neg Bool.false_ne_true]
  case h_5 same =>
    obtain ⟨first, rfl⟩ := List.cons.inj same
    cases first
    rw [noLeading, noTrailing, Bool.or_self, if_neg Bool.false_ne_true]
  all_goals
    rename_i same
    cases same

theorem decode_eq_of_spells (h : Spells q cs) : decode q = some cs := by
  induction h with
  | nil => rfl
  | plain x h ih => rw [decode, ih, Option.map_some]
  | short hx h ih =>
      rw [decode, hx, ih]
      rfl
  | unit hx h ih =>
      obtain ⟨noLeading, noTrailing⟩ := not_surrogate_of_toNat_eq hx
      rw [decode_unit noLeading noTrailing, ih, Option.map_some, ← hx, Char.ofNat_toNat]
  | pair leading trailing hx h ih =>
      rw [decode, if_pos leading, if_pos trailing, ih, Option.map_some, Piece.pair, ← hx,
        Char.ofNat_toNat]

theorem spells_unit {a b c d : Char} (hex : ∀ x ∈ [a, b, c, d], isHex x = true)
    (noLeading : isLeading (unitValue a b c d) = false)
    (noTrailing : isTrailing (unitValue a b c d) = false) (h : Spells q cs) :
    Spells (.unit a b c d :: q) (Char.ofNat (unitValue a b c d) :: cs) := by
  refine .unit (toNat_ofNat_of_isValidChar ?_) h
  have small := unitValue_lt hex
  simp only [isLeading, isTrailing, Bool.and_eq_false_iff, decide_eq_false_iff_not]
    at noLeading noTrailing
  simp only [Nat.isValidChar]
  omega

theorem spells_of_decode (g : q.Grammatical) (h : decode q = some cs) : Spells q cs := by
  fun_induction decode q generalizing cs with
  | case1 =>
      obtain rfl := Option.some.inj h
      exact .nil
  | case2 x q ih =>
      obtain ⟨cs', hq, rfl⟩ := Option.map_eq_some_iff.mp h
      exact .plain x (ih (grammatical_cons_iff.mp g).2 hq)
  | case3 letter q ih =>
      obtain ⟨x, hx, h⟩ := Option.bind_eq_some_iff.mp h
      obtain ⟨cs', hq, h⟩ := Option.bind_eq_some_iff.mp h
      obtain rfl := Option.some.inj h
      exact .short hx (ih (grammatical_cons_iff.mp g).2 hq)
  | case4 a b c d a' b' c' d' q leading trailing ih =>
      obtain ⟨cs', hq, rfl⟩ := Option.map_eq_some_iff.mp h
      refine .pair leading trailing (toNat_ofNat_of_isValidChar ?_) (ih ?_ hq)
      · simp only [isLeading, isTrailing, Bool.and_eq_true, decide_eq_true_eq] at leading trailing
        simp only [Nat.isValidChar]
        omega
      · exact (grammatical_cons_iff.mp (grammatical_cons_iff.mp g).2).2
  | case5 => cases h
  | case6 => cases h
  | case7 a b c d a' b' c' d' q noLeading noTrailing ih =>
      obtain ⟨cs', hq, rfl⟩ := Option.map_eq_some_iff.mp h
      obtain ⟨hex, gq⟩ := grammatical_cons_iff.mp g
      exact spells_unit hex (Bool.eq_false_iff.mpr noLeading) (Bool.eq_false_iff.mpr noTrailing)
        (ih gq hq)
  | case8 => cases h
  | case9 a b c d q _ surrogate ih =>
      obtain ⟨cs', hq, rfl⟩ := Option.map_eq_some_iff.mp h
      obtain ⟨hex, gq⟩ := grammatical_cons_iff.mp g
      obtain ⟨noLeading, noTrailing⟩ := Bool.or_eq_false_iff.mp (Bool.eq_false_iff.mpr surrogate)
      exact spells_unit hex noLeading noTrailing (ih gq hq)

theorem string?_eq_of_spells {s : String} (h : Spells q s.toList) : q.string? = some s := by
  rw [string?, decode_eq_of_spells h, Option.map_some, String.ofList_toList]

/-- What is decoded is what is spelled. -/
theorem string?_eq_some_iff (g : q.Grammatical) {s : String} :
    q.string? = some s ↔ Spells q s.toList := by
  rw [string?, Option.map_eq_some_iff]
  constructor
  · rintro ⟨cs, hcs, rfl⟩
    rw [String.toList_ofList]
    exact spells_of_decode g hcs
  · intro h
    exact Option.map_eq_some_iff.mp (string?_eq_of_spells h)

end Quoted

/-! ### Documents -/

namespace Json

variable {N S N' S' : Type} (p : N → Prop) (q : S → Prop)

mutual

/-- Every number and every string of a document, keys included, has a property. -/
def Every : Json N S → Prop
  | .null | .bool _ => True
  | .number value => p value
  | .string value => q value
  | .array items => EveryItem items
  | .object members => EveryMember members

def EveryItem : List (Json N S) → Prop
  | [] => True
  | item :: rest => item.Every ∧ EveryItem rest

def EveryMember : List (S × Json N S) → Prop
  | [] => True
  | (key, value) :: rest => q key ∧ value.Every ∧ EveryMember rest

end

section Decode

variable {p q} {number : N → Option N'} {string : S → Option S'}

mutual

/-- A document can be decoded if all its numbers and strings can. -/
theorem exists_decode (hn : ∀ n, p n → ∃ x, number n = some x)
    (hs : ∀ s, q s → ∃ x, string s = some x) :
    (t : Json N S) → t.Every p q → ∃ u, t.decode number string = some u
  | .null, _ => ⟨.null, by rw [decode]⟩
  | .bool value, _ => ⟨.bool value, by rw [decode]⟩
  | .number value, h => by
      obtain ⟨x, hx⟩ := hn value (by rwa [Every] at h)
      exact ⟨.number x, by rw [decode, hx, Option.map_some]⟩
  | .string value, h => by
      obtain ⟨x, hx⟩ := hs value (by rwa [Every] at h)
      exact ⟨.string x, by rw [decode, hx, Option.map_some]⟩
  | .array items, h => by
      obtain ⟨us, hus⟩ := exists_decodeItems hn hs items (by rwa [Every] at h)
      exact ⟨.array us, by rw [decode, hus, Option.map_some]⟩
  | .object members, h => by
      obtain ⟨us, hus⟩ := exists_decodeMembers hn hs members (by rwa [Every] at h)
      exact ⟨.object us, by rw [decode, hus, Option.map_some]⟩

theorem exists_decodeItems (hn : ∀ n, p n → ∃ x, number n = some x)
    (hs : ∀ s, q s → ∃ x, string s = some x) :
    (items : List (Json N S)) → EveryItem p q items →
      ∃ us, decodeItems number string items = some us
  | [], _ => ⟨[], by rw [decodeItems]⟩
  | item :: rest, h => by
      rw [EveryItem] at h
      obtain ⟨u, hu⟩ := exists_decode hn hs item h.1
      obtain ⟨us, hus⟩ := exists_decodeItems hn hs rest h.2
      exact ⟨u :: us, by rw [decodeItems, hu, hus]; rfl⟩

theorem exists_decodeMembers (hn : ∀ n, p n → ∃ x, number n = some x)
    (hs : ∀ s, q s → ∃ x, string s = some x) :
    (members : List (S × Json N S)) → EveryMember p q members →
      ∃ us, decodeMembers number string members = some us
  | [], _ => ⟨[], by rw [decodeMembers]⟩
  | (key, value) :: rest, h => by
      rw [EveryMember] at h
      obtain ⟨x, hx⟩ := hs key h.1
      obtain ⟨u, hu⟩ := exists_decode hn hs value h.2.1
      obtain ⟨us, hus⟩ := exists_decodeMembers hn hs rest h.2.2
      exact ⟨(x, u) :: us, by rw [decodeMembers, hx, hu, hus]; rfl⟩

end

end Decode

/-- Only an object is decoded to an object. -/
theorem exists_of_decode_eq_object {number : N → Option N'} {string : S → Option S'}
    {t : Json N S} {entries : List (S' × Json N' S')}
    (h : t.decode number string = some (.object entries)) : ∃ members, t = .object members := by
  cases t with
  | object members => exact ⟨members, rfl⟩
  | _ => simp [decode] at h

/-- Decoding leaves the constants as they are, and makes no others. -/
theorem decode_eq_bool_iff {number : N → Option N'} {string : S → Option S'} {t : Json N S}
    {b : Bool} : t.decode number string = some (.bool b) ↔ t = .bool b := by
  cases t <;> simp [decode]

end Json

namespace Tree

/-- A document that stands for a value, if it is to have no more than so many arrays and objects
open at once. -/
structure Representable (limit : Nat) (t : Tree) : Prop where
  depth : t.depth ≤ limit
  every : t.Every (fun n => ∃ x, n.number? = some x) (fun q => ∃ cs, Quoted.Spells q cs)

theorem Representable.exists_value? {limit : Nat} {t : Tree} (h : t.Representable limit) :
    ∃ v, t.value? limit = some v := by
  rw [value?, if_pos h.depth]
  refine t.exists_decode (fun n hn => hn) (fun q ⟨cs, hcs⟩ => ?_) h.every
  exact ⟨.ofList cs, by rw [Quoted.string?, Quoted.decode_eq_of_spells hcs, Option.map_some]⟩

end Tree

end ProcessLogic
