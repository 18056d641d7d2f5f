import ProcessLogic.Text.Blank

/-!
# Texts made up of words

A text is words with blanks in front, between and behind them: each word as long as it can be, none
of them empty, and as many blanks as one likes.  This is `Spaced`, and cutting a text into words
finds just these: `spaced_iff`.

So words that were put together with blanks between them (`Joined`) are taken apart again, and a
text that is taken apart loses nothing but its blanks.
-/

namespace ProcessLogic

/-- A text consists of words with blanks around them. -/
inductive Spaced : List Char → List (List Char) → Prop
  | nil : Spaced [] []
  | blank {c : Char} {text : List Char} {ws : List (List Char)} (hc : isBlank c = true)
      (s : Spaced text ws) : Spaced (c :: text) ws
  | word {word text : List Char} {ws : List (List Char)} (nonempty : word ≠ [])
      (visible : ∀ c ∈ word, isBlank c = false) (ends : ∀ c ∈ text.head?, isBlank c = true)
      (s : Spaced text ws) : Spaced (word ++ text) (word :: ws)

variable {c : Char} {text word : List Char} {ws : List (List Char)}

@[simp] theorem words_nil : words [] = [] := rfl

theorem words_cons_of_isBlank (hc : isBlank c = true) (text : List Char) :
    words (c :: text) = words text :=
  words_append_cons hc text (List.forall_mem_nil _)

/-- Blanks alone are no word. -/
theorem words_of_forall_blank (h : ∀ c ∈ text, isBlank c = true) : words text = [] := by
  induction text with
  | nil => rfl
  | cons c text ih =>
      obtain ⟨hc, htext⟩ := List.forall_mem_cons.mp h
      rw [words_cons_of_isBlank hc, ih htext]

/-- A text without blanks is a word. -/
theorem words_eq_singleton (nonempty : word ≠ []) (visible : ∀ c ∈ word, isBlank c = false) :
    words word = [word] := by
  rw [words, pieces_eq_singleton visible]
  simp [nonempty]

/-- A character that is no blank begins a word, or goes in front of the first one. -/
theorem Spaced.exists_cons (hc : isBlank c = false) (s : Spaced text ws) :
    ∃ ws', Spaced (c :: text) ws' := by
  have alone : ∀ d ∈ [c], isBlank d = false := List.forall_mem_singleton.mpr hc
  cases s with
  | nil => exact ⟨[[c]], .word (List.cons_ne_nil c []) alone (by simp) .nil⟩
  | @blank d text ws hd s =>
      exact ⟨[c] :: ws, .word (List.cons_ne_nil c []) alone (by simp [hd]) (.blank hd s)⟩
  | @word first text ws nonempty visible ends s =>
      exact ⟨(c :: first) :: ws, .word (List.cons_ne_nil c first)
        (List.forall_mem_cons.mpr ⟨hc, visible⟩) ends s⟩

theorem exists_spaced (text : List Char) : ∃ ws, Spaced text ws := by
  induction text with
  | nil => exact ⟨[], .nil⟩
  | cons c text ih =>
      obtain ⟨ws, s⟩ := ih
      cases hc : isBlank c with
      | true => exact ⟨ws, .blank hc s⟩
      | false => exact s.exists_cons hc

theorem Spaced.words_eq (s : Spaced text ws) : words text = ws := by
  induction s with
  | nil => rfl
  | blank hc _ ih => rw [words_cons_of_isBlank hc, ih]
  | @word first text ws nonempty visible ends _ ih =>
      cases text with
      | nil => rw [List.append_nil, words_eq_singleton nonempty visible, ← ih, words_nil]
      | cons b text =>
          have hb : isBlank b = true := ends b rfl
          rw [words_append_cons hb text visible, if_neg (by simp [nonempty]),
            ← words_cons_of_isBlank hb text, ih]

/-- The words of a text are the ones it consists of. -/
theorem spaced_iff : Spaced text ws ↔ words text = ws := by
  constructor
  · exact Spaced.words_eq
  · rintro rfl
    obtain ⟨ws, s⟩ := exists_spaced text
    rwa [s.words_eq]

/-! ### Words put together -/

/-- Words with one or more blanks between every two of them. -/
inductive Joined : List (List Char) → List Char → Prop
  | nil : Joined [] []
  | singleton (word : List Char) : Joined [word] word
  | cons (word : List Char) {gap next text : List Char} {ws : List (List Char)}
      (nonempty : gap ≠ []) (blank : ∀ c ∈ gap, isBlank c = true)
      (others : Joined (next :: ws) text) : Joined (word :: next :: ws) (word ++ (gap ++ text))

theorem Spaced.append_front {gap : List Char} (hgap : ∀ c ∈ gap, isBlank c = true)
    (s : Spaced text ws) : Spaced (gap ++ text) ws := by
  induction gap with
  | nil => exact s
  | cons c gap ih =>
      obtain ⟨hc, hgap⟩ := List.forall_mem_cons.mp hgap
      exact .blank hc (ih hgap)

theorem spaced_of_forall_blank (h : ∀ c ∈ text, isBlank c = true) : Spaced text [] := by
  rw [spaced_iff, words_of_forall_blank h]

/-- What was put together consists of these words, with blanks behind it or without. -/
theorem Joined.spaced_append {back : List Char} (j : Joined ws text)
    (hws : ∀ word ∈ ws, word ≠ [] ∧ ∀ c ∈ word, isBlank c = false)
    (hback : ∀ c ∈ back, isBlank c = true) : Spaced (text ++ back) ws := by
  induction j with
  | nil => exact spaced_of_forall_blank hback
  | singleton word =>
      obtain ⟨nonempty, visible⟩ := hws word (List.mem_singleton_self word)
      exact .word nonempty visible (fun c hc => hback c (List.mem_of_mem_head? hc))
        (spaced_of_forall_blank hback)
  | @cons word gap next text ws gapNonempty blank _ ih =>
      obtain ⟨⟨nonempty, visible⟩, hothers⟩ := List.forall_mem_cons.mp hws
      have rest : Spaced (gap ++ (text ++ back)) (next :: ws) := (ih hothers).append_front blank
      rw [List.append_assoc, List.append_assoc]
      refine .word nonempty visible (fun c hc => blank c ?_) rest
      obtain ⟨b, bs, rfl⟩ := List.exists_cons_of_ne_nil gapNonempty
      obtain rfl := Option.some.inj hc
      exact List.mem_cons_self

/-- Words that were put together are taken apart again. -/
theorem Joined.words_eq {front back : List Char} (j : Joined ws text)
    (hws : ∀ word ∈ ws, word ≠ [] ∧ ∀ c ∈ word, isBlank c = false)
    (hfront : ∀ c ∈ front, isBlank c = true) (hback : ∀ c ∈ back, isBlank c = true) :
    words (front ++ (text ++ back)) = ws :=
  ((j.spaced_append hws hback).append_front hfront).words_eq

/-! ### Words taken apart -/

theorem Spaced.of_mem (s : Spaced text ws) (h : word ∈ ws) :
    word ≠ [] ∧ ∀ c ∈ word, isBlank c = false := by
  induction s with
  | nil => cases h
  | blank _ _ ih => exact ih h
  | word nonempty visible _ _ ih =>
      rcases List.mem_cons.mp h with rfl | h
      · exact ⟨nonempty, visible⟩
      · exact ih h

/-- One word after the other, a text is all there but for its blanks. -/
theorem Spaced.flatten_eq (s : Spaced text ws) :
    ws.flatten = text.filter fun c => !isBlank c := by
  induction s with
  | nil => rfl
  | blank hc _ ih => rw [ih, List.filter_cons_of_neg (by simp [hc])]
  | word _ visible _ _ ih =>
      rw [List.flatten_cons, ih, List.filter_append]
      congr 1
      exact (List.filter_eq_self.mpr fun c hc => by simp [visible c hc]).symm

end ProcessLogic
