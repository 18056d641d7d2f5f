import ProcessLogic.Proofs.Formula.Scan
import ProcessLogic.Proofs.Text.Offset

/-!
# Scanning round by round

A scanner that goes through any markup looks for what an id attribute begins with, takes the value
up to the next quotation mark, and goes on at this mark.  It counts in bytes, and cuts the markup at
the offsets that it finds.  Three things could go wrong with that: a cut inside of a character, a
round that never ends, and a value that is seen twice or not at all.

`Finds` is what there is to be found in a round and `round` how it is looked for, and the two agree
on every text (`round_eq_some_iff`).  `Values` are the values of all rounds.
-/

namespace ProcessLogic.Target

def quote : String := "\""

/-- What leads up to the quotation mark in front of a value. -/
def lead : String := idAttribute ++ "="

/-- What a value stands behind. -/
def valueStart : String := lead ++ quote

/-- What a round comes to: nothing more, or a value and the text to go on with. -/
inductive Round where
  | done
  | found (value rest : String)

/-- One round.  There is no result if the text is cut where it cannot be cut. -/
def round (text : String) : Option Round := do
  let some start := offset? valueStart text | return .done
  let behind ← behind? text (start + valueStart.utf8ByteSize)
  let some stop := offset? quote behind | return .done
  return .found (← before? behind stop) (← behind? behind stop)

variable {text piece piece' tail tail' front rest value inner : String} {r : Round}

/-- What there is to be found in a round.  A value stands behind the first place where one may
begin, and ends at the next quotation mark; it is nothing if there is no such mark. -/
inductive Finds (text : String) : Round → Prop
  | missing (none : ∀ front rest, text ≠ front ++ (valueStart ++ rest)) : Finds text .done
  | unclosed {front rest : String} (first : First valueStart text front rest)
      (whole : Quoteless rest.toList) : Finds text .done
  | found {front value rest : String}
      (first : First valueStart text front (value ++ (quote ++ rest)))
      (whole : Quoteless value.toList) : Finds text (.found value (quote ++ rest))

/-! ### The first quotation mark -/

theorem quote_ne_empty : quote ≠ "" := by decide

theorem valueStart_ne_empty : valueStart ≠ "" := by decide

theorem quoteless_lead : Quoteless lead.toList := by decide

theorem quoteless_empty : Quoteless "".toList := by decide

theorem toList_append_quote (piece tail : String) :
    (piece ++ (quote ++ tail)).toList = piece.toList ++ '"' :: tail.toList := by
  rw [String.toList_append, String.toList_append]
  rfl

theorem not_quoteless_append_quote (piece tail : String) :
    ¬Quoteless (piece ++ (quote ++ tail)).toList := by
  intro h
  rw [toList_append_quote] at h
  exact absurd (h '"' (by simp)) (by decide)

theorem quoteless_or_split (text : String) :
    Quoteless text.toList ∨
      ∃ piece tail, text = piece ++ (quote ++ tail) ∧ Quoteless piece.toList := by
  by_cases h : '"' ∈ text.toList
  · obtain ⟨piece, tail, same, whole⟩ := List.eq_append_cons_of_mem h
    refine .inr ⟨.ofList piece, .ofList tail, ?_, ?_⟩
    · rw [← String.toList_inj, toList_append_quote, String.toList_ofList, String.toList_ofList,
        same]
    · rw [String.toList_ofList]
      exact fun c hc => beq_false_of_ne fun same => whole (same ▸ hc)
  · exact .inl fun c hc => beq_false_of_ne fun same => h (same ▸ hc)

theorem pieces_append_quote (whole : Quoteless piece.toList) (tail : String) :
    pieces (· == '"') (piece ++ (quote ++ tail)).toList =
      piece.toList :: pieces (· == '"') tail.toList := by
  rw [toList_append_quote, pieces_append_cons rfl _ whole]

/-- A text has one first quotation mark. -/
theorem eq_of_append_quote (whole : Quoteless piece.toList) (whole' : Quoteless piece'.toList)
    (same : piece ++ (quote ++ tail) = piece' ++ (quote ++ tail')) :
    piece = piece' ∧ tail = tail' := by
  have cut := congrArg (fun text => pieces (· == '"') text.toList) same
  simp only [pieces_append_quote whole, pieces_append_quote whole', List.cons.injEq] at cut
  obtain rfl := String.toList_inj.mp cut.1
  rw [← String.toList_inj, toList_append_quote, toList_append_quote] at same
  exact ⟨rfl, String.toList_inj.mp (List.cons.inj (List.append_cancel_left same)).2⟩

/-- The first quotation mark stands behind text without one. -/
theorem first_quote (whole : Quoteless value.toList) (rest : String) :
    First quote (value ++ (quote ++ rest)) value rest := by
  refine ⟨rfl, fun front rest' same => ?_⟩
  rcases quoteless_or_split front with whole' | ⟨piece, tail, rfl, whole'⟩
  · rw [(eq_of_append_quote whole whole' same).1]
  · rw [String.append_assoc, String.append_assoc] at same
    rw [(eq_of_append_quote whole whole' same).1, String.utf8ByteSize_append]
    exact Nat.le_add_right _ _

/-- A value begins at the first quotation mark of a text, or behind it. -/
theorem valueStart_cases (whole : Quoteless piece.toList)
    (same : piece ++ (quote ++ tail) = front ++ (valueStart ++ rest)) :
    (piece = front ++ lead ∧ tail = rest) ∨
      ∃ front', front = piece ++ (quote ++ front') ∧ tail = front' ++ (valueStart ++ rest) := by
  rcases quoteless_or_split front with whole' | ⟨first, front', rfl, whole'⟩
  · have aligned : piece ++ (quote ++ tail) = (front ++ lead) ++ (quote ++ rest) := by
      rw [same, valueStart, String.append_assoc, String.append_assoc]
    have none : Quoteless (front ++ lead).toList := by
      rw [String.toList_append]
      exact whole'.append quoteless_lead
    exact .inl (eq_of_append_quote whole none aligned)
  · rw [String.append_assoc, String.append_assoc] at same
    obtain ⟨rfl, rfl⟩ := eq_of_append_quote whole whole' same
    exact .inr ⟨front', rfl, rfl⟩

/-! ### Rounds come to what there is -/

theorem round_of_missing (h : offset? valueStart text = none) : round text = some .done := by
  rw [round, h]
  rfl

theorem round_of_first (first : First valueStart text front rest) :
    round text = do
      let some stop := offset? quote rest | return .done
      return .found (← before? rest stop) (← behind? rest stop) := by
  have start := (offset?_eq_some_iff valueStart_ne_empty).mpr ⟨front, rest, first, rfl⟩
  have cut : behind? text (front.utf8ByteSize + valueStart.utf8ByteSize) = some rest := by
    rw [first.split, ← String.append_assoc, ← String.utf8ByteSize_append]
    exact behind?_append _ _
  rw [round, start]
  dsimp only
  rw [cut]
  rfl

theorem round_of_finds (h : Finds text r) : round text = some r := by
  cases h with
  | missing none => exact round_of_missing ((offset?_eq_none_iff valueStart_ne_empty).mpr none)
  | @unclosed front rest first whole =>
      have none : offset? quote rest = none := by
        rw [offset?_eq_none_iff quote_ne_empty]
        rintro front rest rfl
        exact not_quoteless_append_quote front rest whole
      rw [round_of_first first, none]
      rfl
  | @found front value rest first whole =>
      have stop : offset? quote (value ++ (quote ++ rest)) = some value.utf8ByteSize :=
        (offset?_eq_some_iff quote_ne_empty).mpr ⟨value, rest, first_quote whole rest, rfl⟩
      rw [round_of_first first, stop]
      dsimp only
      rw [before?_append, behind?_append]
      rfl

/-! ### A row of pieces, round by round -/

/-- A value begins behind a text, if a quotation mark does. -/
def Opens (piece : String) : Prop := ∃ front, piece = front ++ lead

theorem opensValue_iff : opensValue piece.toList = true ↔ Opens piece := by
  rw [opensValue, List.isSuffixOf_iff_suffix, ← lead]
  constructor
  · rintro ⟨front, same⟩
    refine ⟨.ofList front, ?_⟩
    rw [← String.toList_inj, String.toList_append, String.toList_ofList]
    exact same.symm
  · rintro ⟨front, rfl⟩
    rw [String.toList_append]
    exact List.suffix_append _ _

theorem not_opens_empty : ¬Opens "" := by
  rw [← opensValue_iff]
  decide

/-- What a round offers, with all that comes behind it. -/
def Round.targets : Round → List Target
  | .done => []
  | .found value rest => (ofSelection value).toOption.toList ++ ofMarkup rest

theorem ofPieces_cons (closed : opensValue piece.toList = false) (tail : String) :
    ofPieces (piece.toList :: pieces (· == '"') tail.toList) = ofMarkup tail := by
  obtain ⟨next, others, split⟩ :=
    List.exists_cons_of_ne_nil (pieces_ne_nil (· == '"') tail.toList)
  rw [ofMarkup, split]
  cases others with
  | nil => rfl
  | cons after others => rw [ofPieces, closed, if_neg Bool.false_ne_true]

/-- Nothing is offered up to a quotation mark that no value begins behind. -/
theorem ofMarkup_skip (whole : Quoteless piece.toList) (closed : ¬Opens piece) (tail : String) :
    ofMarkup (piece ++ (quote ++ tail)) = ofMarkup tail := by
  rw [← opensValue_iff, Bool.not_eq_true] at closed
  rw [ofMarkup, pieces_append_quote whole, ofPieces_cons closed]

theorem ofMarkup_unclosed (whole : Quoteless piece.toList) (none : Quoteless tail.toList) :
    ofMarkup (piece ++ (quote ++ tail)) = [] := by
  rw [ofMarkup, pieces_append_quote whole, pieces_eq_singleton none]
  rfl

theorem ofMarkup_found (whole : Quoteless piece.toList) (opens : Opens piece)
    (whole' : Quoteless value.toList) (rest : String) :
    ofMarkup (piece ++ (quote ++ (value ++ (quote ++ rest)))) =
      (Round.found value (quote ++ rest)).targets := by
  have behind : ofMarkup (quote ++ rest) = ofMarkup rest := by
    have skipped := ofMarkup_skip quoteless_empty not_opens_empty rest
    rwa [String.empty_append] at skipped
  obtain ⟨next, others, split⟩ :=
    List.exists_cons_of_ne_nil (pieces_ne_nil (· == '"') rest.toList)
  rw [Round.targets, behind, ofMarkup, ofMarkup, pieces_append_quote whole,
    pieces_append_quote whole', split, ofPieces, opensValue_iff.mpr opens, if_pos rfl,
    String.ofList_toList]
  cases ofSelection value <;> rfl

theorem first_valueStart (whole : Quoteless (front ++ lead).toList) (tail : String) :
    First valueStart (front ++ lead ++ (quote ++ tail)) front tail := by
  constructor
  · rw [valueStart, String.append_assoc, String.append_assoc]
  · intro front' rest' same
    rcases valueStart_cases whole same with ⟨aligned, -⟩ | ⟨front'', rfl, -⟩
    · have sizes := congrArg String.utf8ByteSize aligned
      rw [String.utf8ByteSize_append, String.utf8ByteSize_append] at sizes
      omega
    · rw [String.utf8ByteSize_append, String.utf8ByteSize_append]
      omega

theorem first_skip (first : First valueStart tail front rest) (whole : Quoteless piece.toList)
    (closed : ¬Opens piece) :
    First valueStart (piece ++ (quote ++ tail)) (piece ++ (quote ++ front)) rest := by
  constructor
  · rw [first.split, String.append_assoc, String.append_assoc]
  · intro front' rest' same
    rcases valueStart_cases whole same with ⟨aligned, -⟩ | ⟨front'', rfl, same'⟩
    · exact absurd ⟨front', aligned⟩ closed
    · have later := first.least front'' rest' same'
      simp only [String.utf8ByteSize_append]
      omega

/-- A round does not stop at a quotation mark that no value begins behind. -/
theorem Finds.skip (finds : Finds tail r) (whole : Quoteless piece.toList)
    (closed : ¬Opens piece) : Finds (piece ++ (quote ++ tail)) r := by
  cases finds with
  | missing none =>
      refine .missing fun front rest same => ?_
      rcases valueStart_cases whole same with ⟨aligned, -⟩ | ⟨front', -, same'⟩
      · exact closed ⟨front, aligned⟩
      · exact none front' rest same'
  | unclosed first none => exact .unclosed (first_skip first whole closed) none
  | found first whole' => exact .found (first_skip first whole closed) whole'

/-- There is something to be found in every text, if only that there is nothing more, and what is
found is offered.  The recursion is on the text behind a quotation mark that no value begins at. -/
theorem exists_finds (text : String) : ∃ r, Finds text r ∧ ofMarkup text = r.targets := by
  rcases quoteless_or_split text with whole | ⟨piece, tail, same, whole⟩
  · refine ⟨.done, .missing fun front rest same => ?_, ofPieces_of_quoteless whole⟩
    rw [same, valueStart, String.append_assoc, ← String.append_assoc] at whole
    exact not_quoteless_append_quote _ _ whole
  · have shorter : tail.utf8ByteSize < text.utf8ByteSize := by
      rw [same, String.utf8ByteSize_append, String.utf8ByteSize_append]
      have mark : 0 < quote.utf8ByteSize := by decide
      omega
    subst same
    by_cases opens : Opens piece
    · obtain ⟨front, rfl⟩ := opens
      -- a value begins at this mark, and the next one is its end
      have first := first_valueStart whole tail
      rcases quoteless_or_split tail with none | ⟨value, rest, rfl, whole'⟩
      · exact ⟨.done, .unclosed first none, ofMarkup_unclosed whole none⟩
      · exact ⟨.found value (quote ++ rest), .found first whole',
          ofMarkup_found whole ⟨front, rfl⟩ whole' rest⟩
    · -- the mark is none of an id attribute, and the round goes on behind it
      obtain ⟨r, finds, offered⟩ := exists_finds tail
      exact ⟨r, finds.skip whole opens, (ofMarkup_skip whole opens tail).trans offered⟩
termination_by text.utf8ByteSize

/-- A round is what there is to be found, and every round has a result. -/
theorem round_eq_some_iff : round text = some r ↔ Finds text r := by
  refine ⟨fun h => ?_, round_of_finds⟩
  obtain ⟨r', finds, -⟩ := exists_finds text
  rw [round_of_finds finds] at h
  obtain rfl := Option.some.inj h
  exact finds

/-- The text to go on with is shorter. -/
theorem utf8ByteSize_lt_of_round (h : round text = some (.found value rest)) :
    rest.utf8ByteSize < text.utf8ByteSize := by
  cases round_eq_some_iff.mp h with
  | found first whole =>
      have start : 0 < valueStart.utf8ByteSize := by decide
      rw [first.split]
      simp only [String.utf8ByteSize_append]
      omega

/-! ### All rounds -/

/-- Scans a text round by round. -/
def scan (text : String) : Option (List Target) :=
  match h : round text with
  | none => none
  | some .done => some []
  | some (.found value rest) =>
      have := utf8ByteSize_lt_of_round h
      (scan rest).map ((ofSelection value).toOption.toList ++ ·)
termination_by text.utf8ByteSize

/-- The values of all id attributes of a text, in order. -/
inductive Values : String → List String → Prop
  | done {text : String} (h : Finds text .done) : Values text []
  | found {text value rest : String} {values : List String} (h : Finds text (.found value rest))
      (others : Values rest values) : Values text (value :: values)

/-- Every cut of a scan is one that can be made, every scan ends, and it finds what is offered. -/
theorem scan_eq (text : String) : scan text = some (ofMarkup text) := by
  obtain ⟨r, finds, offered⟩ := exists_finds text
  have result := round_of_finds finds
  rw [scan, offered]
  split
  case h_1 h =>
    rw [h] at result
    cases result
  case h_2 h =>
    rw [h] at result
    cases result
    rfl
  case h_3 value rest h =>
    rw [h] at result
    cases result
    have shorter := utf8ByteSize_lt_of_round h
    rw [scan_eq rest]
    rfl
termination_by text.utf8ByteSize

theorem ofMarkup_of_finds (finds : Finds text r) : ofMarkup text = r.targets := by
  obtain ⟨r', finds', offered⟩ := exists_finds text
  have same := (round_of_finds finds).symm.trans (round_of_finds finds')
  rw [Option.some.inj same, offered]

theorem exists_values (text : String) : ∃ values, Values text values := by
  obtain ⟨r, finds, -⟩ := exists_finds text
  cases r with
  | done => exact ⟨[], .done finds⟩
  | found value rest =>
      have shorter := utf8ByteSize_lt_of_round (round_of_finds finds)
      obtain ⟨values, others⟩ := exists_values rest
      exact ⟨value :: values, .found finds others⟩
termination_by text.utf8ByteSize

namespace Values

variable {values values' : List String}

theorem unique (h : Values text values) (h' : Values text values') : values' = values := by
  induction h generalizing values' with
  | done finds =>
      cases h' with
      | done _ => rfl
      | found finds' _ => cases (round_of_finds finds).symm.trans (round_of_finds finds')
  | found finds _ ih =>
      cases h' with
      | done finds' => cases (round_of_finds finds).symm.trans (round_of_finds finds')
      | found finds' others =>
          cases (round_of_finds finds).symm.trans (round_of_finds finds')
          rw [ih others]

/-- The targets are those values that are selections. -/
theorem ofMarkup_eq (h : Values text values) :
    ofMarkup text = values.filterMap fun value => (ofSelection value).toOption := by
  induction h with
  | done finds => exact ofMarkup_of_finds finds
  | @found text value rest values finds _ ih =>
      rw [ofMarkup_of_finds finds, Round.targets, ih, List.filterMap_cons]
      cases ofSelection value <;> rfl

end Values

/-! ### A span, and what comes behind it -/

theorem opensValue_append (front piece : List Char) :
    opensValue (front ++ '>' :: piece) = opensValue piece := by
  have bracket : '>' ∉ lead.toList := by decide
  rw [Bool.eq_iff_iff, opensValue, opensValue, List.isSuffixOf_iff_suffix,
    List.isSuffixOf_iff_suffix, ← lead]
  constructor
  · intro h
    rcases List.suffix_or_suffix_of_suffix h (List.suffix_append front _) with h | h
    · rcases List.suffix_cons_iff.mp h with whole | h
      · exact absurd (whole ▸ List.mem_cons_self) bracket
      · exact h
    · exact absurd (h.subset List.mem_cons_self) bracket
  · intro h
    exact (h.trans (List.suffix_cons _ _)).trans (List.suffix_append _ _)

theorem ofPieces_congr {piece piece' : List Char} (h : opensValue piece = opensValue piece')
    (others : List (List Char)) : ofPieces (piece :: others) = ofPieces (piece' :: others) := by
  rcases others with _ | ⟨value, _ | ⟨next, others⟩⟩
  · rfl
  · rfl
  · rw [ofPieces, ofPieces, h]

/-- Text up to a bracket does not matter to what comes behind it, since no value begins across a
bracket. -/
theorem ofMarkup_append_bracket (whole : Quoteless front.toList) (rest : String) :
    ofMarkup (front ++ ">" ++ rest) = ofMarkup rest := by
  have bracket : Quoteless (front ++ ">").toList := by
    rw [String.toList_append]
    exact whole.append (by decide)
  rcases quoteless_or_split rest with none | ⟨piece, tail, rfl, whole'⟩
  · have all : Quoteless (front ++ ">" ++ rest).toList := by
      rw [String.toList_append]
      exact bracket.append none
    rw [ofMarkup, ofMarkup, ofPieces_of_quoteless all, ofPieces_of_quoteless none]
  · have all : Quoteless (front ++ ">" ++ piece).toList := by
      rw [String.toList_append]
      exact bracket.append whole'
    rw [← String.append_assoc, ofMarkup, ofMarkup, pieces_append_quote all,
      pieces_append_quote whole']
    refine ofPieces_congr ?_ _
    rw [String.toList_append, String.toList_append, List.append_assoc]
    exact opensValue_append _ _

/-- A span offers its target, and leaves the rest as it is. -/
theorem ofMarkup_clickable (t : Target) (hf : Quoteless front.toList)
    (hi : Quoteless inner.toList) (rest : String) :
    ofMarkup (front ++ t.clickable inner ++ rest) = t :: ofMarkup rest := by
  have inside : Quoteless (">" ++ inner ++ "</span").toList := by
    rw [String.toList_append, String.toList_append]
    exact (Quoteless.append (by decide) hi).append (by decide)
  have closed : body inner = ">" ++ inner ++ "</span" ++ ">" := by
    have last : ("</span>" : String) = "</span" ++ ">" := rfl
    rw [body, last, String.append_assoc, String.append_assoc, String.append_assoc]
  rw [ofMarkup, String.toList_append, String.toList_append, ofPieces_clickable hf,
    ← String.toList_append, closed]
  exact congrArg (t :: ·) (ofMarkup_append_bracket inside rest)

/-- **The scanner on any text.**  Scanning comes to an end, since every round leaves a shorter text,
and no round cuts the text elsewhere than between two characters.  The result is what the values of
the id attributes say, which are found from left to right: each value ends at the next quotation
mark, the search goes on there, and a value that does not end is none.  Values that are no
selections are left out.

A span offers its target first and leaves what comes behind it as it is, whatever that may be. -/
theorem scan_total (m : String) :
    scan m = some (ofMarkup m) ∧
    (∀ text, ∃ r, round text = some r ∧ Finds text r ∧
      ∀ value rest, r = .found value rest → rest.utf8ByteSize < text.utf8ByteSize) ∧
    (∃! values, Values m values) ∧
    (∀ values, Values m values →
      ofMarkup m = values.filterMap fun value => (ofSelection value).toOption) ∧
    ∀ (t : Target) (front inner : String), Quoteless front.toList → Quoteless inner.toList →
      ofMarkup (front ++ t.clickable inner ++ m) = t :: ofMarkup m := by
  refine ⟨scan_eq m, fun text => ?_, ?_, fun _ h => h.ofMarkup_eq,
    fun t _ _ hf hi => ofMarkup_clickable t hf hi m⟩
  · obtain ⟨r, finds, -⟩ := exists_finds text
    refine ⟨r, round_of_finds finds, finds, ?_⟩
    rintro value rest rfl
    exact utf8ByteSize_lt_of_round (round_of_finds finds)
  · obtain ⟨values, h⟩ := exists_values m
    exact ⟨values, h, fun _ h' => h.unique h'⟩

/-- A value that is an id, and one that does not end, with characters of two bytes in front of them
and a span in front of all. -/
theorem scan_total_unclosed :
    let behind := quote ++ (" ü" ++ lead ++ (quote ++ "8"))
    let m := "ü " ++ lead ++ (quote ++ (" +07" ++ behind))
    ofMarkup m = [.node ⟨7⟩] ∧
      ofMarkup ("ü" ++ (node ⟨3⟩).clickable "&lt;ü&gt;" ++ m) = [.node ⟨3⟩, .node ⟨7⟩] := by
  intro behind m
  have unclosed : Finds (" ü" ++ lead ++ (quote ++ "8")) .done :=
    .unclosed (first_valueStart (by decide) "8") (by decide)
  have last : Finds behind .done := by
    have skipped := unclosed.skip quoteless_empty not_opens_empty
    rwa [String.empty_append] at skipped
  have values : Values m [" +07"] :=
    .found (.found (first_valueStart (by decide) _) (by decide)) (.done last)
  have seven : ofMarkup m = [.node ⟨7⟩] := (scan_total m).2.2.2.1 _ values
  refine ⟨seven, ?_⟩
  rw [(scan_total m).2.2.2.2 (node ⟨3⟩) "ü" "&lt;ü&gt;" (by decide) (by decide), seven]

end ProcessLogic.Target
