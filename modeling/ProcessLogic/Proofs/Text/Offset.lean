import Mathlib.Data.List.Infix
import Mathlib.Data.String.Basic

/-!
# Offsets in bytes

A text is stored as bytes, and places in it are counted in bytes.  Most characters take several of
them, so a text can be cut at some offsets only: `behind?` and `before?` have no result elsewhere.

A search goes through the bytes and knows nothing of characters.  Still it finds nothing but whole
characters, because a byte that begins a character never stands inside of another one; so an offset
that was found is one to cut at.  `First` is what is found, and `offset?_eq_some_iff` says so.
-/

namespace ProcessLogic

/-- The bytes of a text in UTF-8. -/
def utf8 (text : String) : List UInt8 := text.toUTF8.data.toList

/-- The text behind an offset, unless the offset is out of the text or inside of a character. -/
def behind? (text : String) (offset : Nat) : Option String :=
  if h : String.Pos.Raw.IsValid text ⟨offset⟩ then some (text.sliceFrom ⟨⟨offset⟩, h⟩).copy else none

/-- The text in front of an offset, unless the offset is out of the text or inside of a character. -/
def before? (text : String) (offset : Nat) : Option String :=
  if h : String.Pos.Raw.IsValid text ⟨offset⟩ then some (text.sliceTo ⟨⟨offset⟩, h⟩).copy else none

/-- The first offset at which the bytes of a text are those of another one. -/
def offset? (sought text : String) : Option Nat :=
  (utf8 text).tails.findIdx? fun tail => (utf8 sought).isPrefixOf tail

variable {s t text sought front rest : String} {offset : Nat}

/-! ### Bytes -/

@[simp] theorem utf8_append (s t : String) : utf8 (s ++ t) = utf8 s ++ utf8 t := by
  simp [utf8]

@[simp] theorem length_utf8 (text : String) : (utf8 text).length = text.utf8ByteSize := by
  simp [utf8]

theorem drop_utf8_append (front rest : String) :
    (utf8 (front ++ rest)).drop front.utf8ByteSize = utf8 rest := by
  rw [utf8_append, ← length_utf8, List.drop_left]

/-- Bytes that begin like those of a text are those of a text that begins like it. -/
theorem exists_append_of_utf8_prefix (h : utf8 s <+: utf8 t) : ∃ rest, t = s ++ rest := by
  obtain ⟨more, same⟩ := h
  have bytes : s.toList.utf8Encode ++ ⟨more.toArray⟩ = t.toList.utf8Encode := by
    rw [String.utf8Encode_toList, String.utf8Encode_toList]
    apply ByteArray.ext
    apply Array.toList_inj.mp
    simpa [utf8] using same
  obtain ⟨rest, same⟩ := List.isPrefix_of_utf8Encode_append_eq_utf8Encode _ bytes
  refine ⟨.ofList rest, ?_⟩
  rw [← String.toList_inj, String.toList_append, String.toList_ofList, same]

theorem utf8_length_pos (nonempty : text ≠ "") : 0 < (utf8 text).length := by
  rw [length_utf8, Nat.pos_iff_ne_zero]
  exact fun none => nonempty (String.utf8ByteSize_eq_zero_iff.mp none)

theorem getUTF8Byte_eq (text : String) (p : String.Pos.Raw) (h : p < text.rawEndPos)
    (h' : p.byteIdx < (utf8 text).length) : text.getUTF8Byte p h = (utf8 text)[p.byteIdx] := by
  rw [String.getUTF8Byte, ByteArray.getElem_eq_getElem_data]
  rfl

/-! ### Cutting -/

theorem isValid_iff_exists_append :
    String.Pos.Raw.IsValid text ⟨offset⟩ ↔
      ∃ front rest, text = front ++ rest ∧ front.utf8ByteSize = offset := by
  rw [String.Pos.Raw.isValid_iff_exists_append]
  constructor
  · rintro ⟨front, rest, same, place⟩
    exact ⟨front, rest, same, (congrArg String.Pos.Raw.byteIdx place).symm⟩
  · rintro ⟨front, rest, same, rfl⟩
    exact ⟨front, rest, same, rfl⟩

theorem behind?_eq_some_iff :
    behind? text offset = some rest ↔
      ∃ front, text = front ++ rest ∧ front.utf8ByteSize = offset := by
  rw [behind?]
  constructor
  · intro h
    split at h
    case isTrue valid =>
      obtain ⟨front, splits⟩ := String.copy_sliceFrom_eq_iff_exists_splits.mp (Option.some.inj h)
      exact ⟨front, splits.eq_append,
        (congrArg String.Pos.Raw.byteIdx splits.offset_eq_rawEndPos).symm⟩
    case isFalse => cases h
  · rintro ⟨front, rfl, rfl⟩
    rw [dif_pos (isValid_iff_exists_append.mpr ⟨front, rest, rfl, rfl⟩)]
    exact congrArg some String.Pos.splits_append_rawEndPos.copy_sliceFrom_eq

theorem behind?_append (front rest : String) :
    behind? (front ++ rest) front.utf8ByteSize = some rest :=
  behind?_eq_some_iff.mpr ⟨front, rfl, rfl⟩

theorem before?_append (front rest : String) :
    before? (front ++ rest) front.utf8ByteSize = some front := by
  rw [before?, dif_pos (isValid_iff_exists_append.mpr ⟨front, rest, rfl, rfl⟩)]
  exact congrArg some String.Pos.splits_append_rawEndPos.copy_sliceTo_eq

/-! ### Searching -/

/-- Where the bytes of a text are found, a character begins, since the first of them begins one. -/
theorem isValid_of_prefix_drop (nonempty : sought ≠ "")
    (h : utf8 sought <+: (utf8 text).drop offset) : String.Pos.Raw.IsValid text ⟨offset⟩ := by
  have some : 0 < (utf8 sought).length := utf8_length_pos nonempty
  have inside : offset < (utf8 text).length := by
    have short := h.length_le
    rw [List.length_drop] at short
    omega
  have place : (⟨offset⟩ : String.Pos.Raw) < text.rawEndPos := by
    rwa [length_utf8] at inside
  have start : 0 < sought.rawEndPos := by
    rwa [length_utf8] at some
  have same : text.getUTF8Byte ⟨offset⟩ place = sought.getUTF8Byte 0 start := by
    rw [getUTF8Byte_eq text _ place inside, getUTF8Byte_eq sought 0 start some]
    exact (List.getElem_drop ..).symm.trans (h.getElem some).symm
  refine String.Pos.Raw.isValid_iff_isUTF8FirstByte.mpr (.inr ⟨place, ?_⟩)
  rw [same]
  exact String.isUTF8FirstByte_getUTF8Byte_zero

/-- Bytes of a text are found just where the text itself stands. -/
theorem prefix_drop_utf8_iff (nonempty : sought ≠ "") :
    utf8 sought <+: (utf8 text).drop offset ↔
      ∃ front rest, text = front ++ (sought ++ rest) ∧ front.utf8ByteSize = offset := by
  constructor
  · intro h
    obtain ⟨front, behind, rfl, rfl⟩ :=
      isValid_iff_exists_append.mp (isValid_of_prefix_drop nonempty h)
    rw [drop_utf8_append] at h
    obtain ⟨rest, rfl⟩ := exists_append_of_utf8_prefix h
    exact ⟨front, rest, rfl, rfl⟩
  · rintro ⟨front, rest, rfl, rfl⟩
    rw [drop_utf8_append, utf8_append]
    exact List.prefix_append _ _

/-- A text stands in another one, with something in front of it and something behind, and nowhere
further to the front. -/
structure First (sought text front rest : String) : Prop where
  split : text = front ++ (sought ++ rest)
  least : ∀ front' rest', text = front' ++ (sought ++ rest') →
    front.utf8ByteSize ≤ front'.utf8ByteSize

theorem isPrefixOf_getElem_tails (nonempty : sought ≠ "")
    (h : offset < (utf8 text).tails.length) :
    (utf8 sought).isPrefixOf (utf8 text).tails[offset] = true ↔
      ∃ front rest, text = front ++ (sought ++ rest) ∧ front.utf8ByteSize = offset := by
  rw [List.isPrefixOf_iff_prefix, List.getElem_tails, prefix_drop_utf8_iff nonempty]

theorem utf8ByteSize_lt_length_tails (front rest : String) :
    front.utf8ByteSize < (utf8 (front ++ rest)).tails.length := by
  rw [List.length_tails, length_utf8, String.utf8ByteSize_append]
  omega

theorem offset?_eq_none_iff (nonempty : sought ≠ "") :
    offset? sought text = none ↔ ∀ front rest, text ≠ front ++ (sought ++ rest) := by
  rw [offset?, List.findIdx?_eq_none_iff]
  constructor
  · rintro h front rest rfl
    have some := (isPrefixOf_getElem_tails nonempty (utf8ByteSize_lt_length_tails front _)).mpr
      ⟨front, rest, rfl, rfl⟩
    rw [h _ (List.getElem_mem _)] at some
    cases some
  · intro h tail ht
    obtain ⟨offset, place, rfl⟩ := List.getElem_of_mem ht
    rw [Bool.eq_false_iff, ne_eq, isPrefixOf_getElem_tails nonempty place]
    rintro ⟨front, rest, same, -⟩
    exact h front rest same

theorem offset?_eq_some_iff (nonempty : sought ≠ "") :
    offset? sought text = some offset ↔
      ∃ front rest, First sought text front rest ∧ front.utf8ByteSize = offset := by
  rw [offset?, List.findIdx?_eq_some_iff_getElem]
  constructor
  · rintro ⟨place, found, none⟩
    obtain ⟨front, rest, same, rfl⟩ := (isPrefixOf_getElem_tails nonempty place).mp found
    refine ⟨front, rest, ⟨same, fun front' rest' same' => ?_⟩, rfl⟩
    by_contra before
    refine none front'.utf8ByteSize (Nat.lt_of_not_le before) ?_
    exact (isPrefixOf_getElem_tails nonempty _).mpr ⟨front', rest', same', rfl⟩
  · rintro ⟨front, rest, ⟨rfl, least⟩, rfl⟩
    refine ⟨utf8ByteSize_lt_length_tails front _,
      (isPrefixOf_getElem_tails nonempty _).mpr ⟨front, rest, rfl, rfl⟩, fun j before => ?_⟩
    rw [isPrefixOf_getElem_tails nonempty]
    rintro ⟨front', rest', same', rfl⟩
    exact Nat.not_le.mpr before (least front' rest' same')

end ProcessLogic
