import ProcessLogic.Engine.Reply
import ProcessLogic.Proofs.Json.Object

/-!
# What an engine has to say for a verdict

A verdict other than unknown is read from a reply only if the reply says so outright: by an object
with one member for the result, or an array of nothing but the result, and a truth value spelled out
in it.  A reader that is lax anywhere would make a verdict of something else.

Conversely it makes no difference how such an object is laid out, in which order its members come,
how their keys are spelled, and what the other members are.
-/

namespace ProcessLogic

namespace Reply

/-- A member that is about the result, however its key is spelled. -/
def IsResult (m : Quoted × Tree) : Prop := m.1.Spells resultKey.toList

/-- Of the members of an object one is about the result, and has this value. -/
def HasResult (members : List (Quoted × Tree)) (value : Tree) : Prop :=
  ∃ front key back, members = front ++ (key, value) :: back ∧ IsResult (key, value) ∧
    ∀ m ∈ front ++ back, ¬ IsResult m

/-- At least two members of an object are about the result. -/
def RepeatsResult (members : List (Quoted × Tree)) : Prop :=
  ∃ front first middle second back, members = front ++ first :: (middle ++ second :: back) ∧
    IsResult first ∧ IsResult second

/-- The verdict that stands in a document. -/
def verdictOf : Tree → Verdict
  | .bool answer => .ofBool answer
  | _ => .unknown

/-! ### The place of the result -/

/-- The values of the members that are about the result. -/
def resultValues (members : List (Quoted × Tree)) : List Tree :=
  (members.filter fun m => m.1.string? = some resultKey).map Prod.snd

variable {members : List (Quoted × Tree)}

theorem resultValues_of_decodeKeys {decoded : List (String × Tree)}
    (h : decodeKeys members = some decoded) :
    (decoded.filter fun m => m.1 = resultKey).map Prod.snd = resultValues members := by
  induction members generalizing decoded with
  | nil =>
      obtain rfl := Option.some.inj h
      rfl
  | cons m members ih =>
      rw [decodeKeys] at h
      obtain ⟨key, hkey, h⟩ := Option.bind_eq_some_iff.mp h
      obtain ⟨others, hothers, h⟩ := Option.bind_eq_some_iff.mp h
      obtain rfl := Option.some.inj h
      have ih := ih hothers
      simp only [resultValues, List.filter_cons, hkey, Option.some.injEq] at ih ⊢
      split
      · rw [List.map_cons, List.map_cons, ih]
      · exact ih

theorem exists_decodeKeys (h : ∀ m ∈ members, ∃ name, m.1.string? = some name) :
    ∃ decoded, decodeKeys members = some decoded := by
  induction members with
  | nil => exact ⟨[], rfl⟩
  | cons m members ih =>
      obtain ⟨⟨name, hname⟩, others⟩ := List.forall_mem_cons.mp h
      obtain ⟨decoded, hdecoded⟩ := ih others
      exact ⟨(name, m.2) :: decoded, by rw [decodeKeys, hname, hdecoded]; rfl⟩

theorem results?_object {values : List Tree} (h : results? (.object members) = some values) :
    values = resultValues members := by
  obtain ⟨decoded, hdecoded, h⟩ := Option.bind_eq_some_iff.mp h
  rw [← resultValues_of_decodeKeys hdecoded]
  exact (Option.some.inj h).symm

theorem results?_object_of_keys (h : ∀ m ∈ members, ∃ name, m.1.string? = some name) :
    results? (.object members) = some (resultValues members) := by
  obtain ⟨decoded, hdecoded⟩ := exists_decodeKeys h
  rw [results?, hdecoded, ← resultValues_of_decodeKeys hdecoded]
  rfl

section Keys

variable (grammatical : ∀ m ∈ members, m.1.Grammatical)

include grammatical

theorem isResult_iff {m : Quoted × Tree} (h : m ∈ members) :
    IsResult m ↔ m.1.string? = some resultKey :=
  (Quoted.string?_eq_some_iff (grammatical m h)).symm

theorem resultValues_eq_nil (none : ∀ m ∈ members, ¬ IsResult m) : resultValues members = [] := by
  rw [resultValues, List.map_eq_nil_iff, List.filter_eq_nil_iff]
  intro m hm found
  exact none m hm ((isResult_iff grammatical hm).mpr (of_decide_eq_true found))

theorem resultValues_eq_singleton_iff {value : Tree} :
    resultValues members = [value] ↔ HasResult members value := by
  rw [resultValues, List.map_eq_singleton_iff]
  constructor
  · rintro ⟨r, sole, rfl⟩
    obtain ⟨front, back, rfl, hfront, named, hback⟩ := List.filter_eq_cons_iff.mp sole
    refine ⟨front, r.1, back, rfl, ?_, fun m hm result => ?_⟩
    · exact (isResult_iff grammatical (by simp)).mpr (of_decide_eq_true named)
    · rcases List.mem_append.mp hm with hm | hm
      · exact hfront m hm (decide_eq_true ((isResult_iff grammatical (by simp [hm])).mp result))
      · exact List.filter_eq_nil_iff.mp hback m hm
          (decide_eq_true ((isResult_iff grammatical (by simp [hm])).mp result))
  · rintro ⟨front, key, back, rfl, result, others⟩
    refine ⟨(key, value), List.filter_eq_cons_iff.mpr ⟨front, back, rfl, ?_, ?_, ?_⟩, rfl⟩
    · intro m hm named
      exact others m (by simp [hm])
        ((isResult_iff grammatical (by simp [hm])).mpr (of_decide_eq_true named))
    · exact decide_eq_true ((isResult_iff grammatical (by simp)).mp result)
    · refine List.filter_eq_nil_iff.mpr fun m hm named => ?_
      exact others m (by simp [hm])
        ((isResult_iff grammatical (by simp [hm])).mpr (of_decide_eq_true named))

theorem two_le_length_resultValues (h : RepeatsResult members) :
    2 ≤ (resultValues members).length := by
  obtain ⟨front, first, middle, second, back, rfl, hfirst, hsecond⟩ := h
  have named₁ := (isResult_iff grammatical (by simp)).mp hfirst
  have named₂ := (isResult_iff grammatical (by simp)).mp hsecond
  simp only [resultValues, List.length_map, List.filter_append, List.filter_cons, named₁, named₂,
    decide_true, if_true, List.length_append, List.length_cons]
  omega

end Keys

/-! ### The verdict -/

/-- The verdict of a result is that of its spelling. -/
theorem ofResult_sortKeys {limit : Nat} {value : Tree} {v : Value}
    (h : value.value? limit = some v) : Verdict.ofResult v.sortKeys = verdictOf value := by
  have decoded : value.decode Numeral.number? Quoted.string? = some v := by
    rw [Tree.value?] at h
    exact (Option.ite_none_right_eq_some.mp h).2
  cases v with
  | bool b =>
      rw [Json.decode_eq_bool_iff.mp decoded, Value.sortKeys]
      rfl
  | _ =>
      cases value with
      | bool b => cases decoded
      | _ => rfl

theorem eq_bool_of_verdictOf {value : Tree} {b : Bool} (h : verdictOf value = .ofBool b) :
    value = .bool b := by
  cases value with
  | bool answer => cases answer <;> cases b <;> first | rfl | cases h
  | _ => cases b <;> cases h

/-- A reply is read from the text of a document. -/
theorem read?_eq_some_iff {line : String} {r : Reply} :
    read? line = some r ↔
      ∃ t : Tree, Layout t.tokens (trim line.toList) ∧ ofTree? t = some r := by
  have whole : read? line =
      ((Token.lex (trim line.toList)).bind Tree.ofTokens?).bind ofTree? := by
    rw [Option.bind_assoc]
    rfl
  rw [whole, Option.bind_eq_some_iff]
  simp only [Tree.lex_bind_eq_some_iff]

theorem ofTree?_of_results? {t value : Tree} {v : Value} (h : results? t = some [value])
    (hv : value.value? (nestingLimit - 1) = some v) : ofTree? t = some ⟨v.sortKeys⟩ :=
  Option.bind_eq_some_iff.mpr ⟨[value], h, Option.bind_eq_some_iff.mpr ⟨v, hv, rfl⟩⟩

theorem ofTree?_of_two_le {t : Tree} {values : List Tree} (h : results? t = some values)
    (two : 2 ≤ values.length) : ofTree? t = none := by
  rw [ofTree?, h, Option.bind_eq_bind, Option.bind_some]
  match values with
  | _ :: _ :: _ => rfl

/-- A known verdict stands in the reply as a truth value, in the place of the only result. -/
theorem results?_of_verdict {t : Tree} {r : Reply} {b : Bool} (h : ofTree? t = some r)
    (known : r.verdict = .ofBool b) : results? t = some [.bool b] := by
  obtain ⟨values, hvalues, h⟩ := Option.bind_eq_some_iff.mp h
  match values with
  | [] =>
      obtain rfl := Option.some.inj h
      cases b <;> cases known
  | [value] =>
      obtain ⟨v, hv, h⟩ := Option.bind_eq_some_iff.mp h
      obtain rfl := Option.some.inj h
      rw [verdict, ofResult_sortKeys hv] at known
      rw [hvalues, eq_bool_of_verdictOf known]
  | _ :: _ :: _ => cases h

/-- **Replies are read exactly.**  If a line is read with a verdict other than unknown, then without
the blanks around it the line is the text of an array of nothing but the truth value, or of an
object in which this value belongs to the only member about the result.

Conversely take any text of any object, whose keys are strings, and any blanks around it.  If just
one member is about the result, and its value stands for something, then the verdict is the one that
its value stands for; without such a member it is unknown; and if there are two of them, the line is
refused. -/
theorem read_verdict_exact :
    (∀ (line : String) (r : Reply) (b : Bool), read? line = some r → r.verdict = .ofBool b →
      ∃ t : Tree, Layout t.tokens (trim line.toList) ∧
        (t = .array [.bool b] ∨ ∃ members, t = .object members ∧ HasResult members (.bool b))) ∧
    ∀ (line : String) (front text back : List Char) (members : List (Quoted × Tree)),
      line.toList = front ++ text ++ back →
      (∀ c ∈ front, isBlank c = true) → (∀ c ∈ back, isBlank c = true) →
      Layout (Tree.tokens (.object members)) text →
      (∀ m ∈ members, ∃ name, m.1.Spells name) →
        (∀ value : Tree, HasResult members value → value.Representable (nestingLimit - 1) →
          ∃ r, read? line = some r ∧ r.verdict = verdictOf value) ∧
        ((∀ m ∈ members, ¬ IsResult m) → ∃ r, read? line = some r ∧ r.verdict = .unknown) ∧
        (RepeatsResult members → read? line = none) := by
  constructor
  · intro line r b hr known
    obtain ⟨t, l, ht⟩ := read?_eq_some_iff.mp hr
    have values := results?_of_verdict ht known
    refine ⟨t, l, ?_⟩
    cases t with
    | array items =>
        obtain rfl := Option.some.inj values
        exact .inl rfl
    | object members =>
        refine .inr ⟨members, rfl, ?_⟩
        exact (resultValues_eq_singleton_iff fun m hm => l.grammatical_key hm).mp
          (results?_object values).symm
    | _ => cases values
  · intro line front text back members hline hfront hback l keys
    have grammatical : ∀ m ∈ members, m.1.Grammatical := fun m hm => l.grammatical_key hm
    have trimmed : Layout (Tree.tokens (.object members)) (trim line.toList) := by
      rw [hline, trim_append_append hfront hback]
      exact l.trim
    have decoded : results? (.object members) = some (resultValues members) := by
      refine results?_object_of_keys fun m hm => ?_
      obtain ⟨name, hname⟩ := keys m hm
      refine ⟨.ofList name, (Quoted.string?_eq_some_iff (grammatical m hm)).mpr ?_⟩
      rwa [String.toList_ofList]
    refine ⟨fun value sole representable => ?_, fun none => ?_, fun repeats => ?_⟩
    · obtain ⟨v, hv⟩ := representable.exists_value?
      rw [(resultValues_eq_singleton_iff grammatical).mpr sole] at decoded
      have read := read?_eq_some_iff.mpr ⟨_, trimmed, ofTree?_of_results? decoded hv⟩
      exact ⟨_, read, ofResult_sortKeys hv⟩
    · rw [resultValues_eq_nil grammatical none] at decoded
      have read : ofTree? (.object members) = some ⟨.null⟩ := by
        rw [ofTree?, decoded]
        rfl
      exact ⟨_, read?_eq_some_iff.mpr ⟨_, trimmed, read⟩, rfl⟩
    · refine Option.eq_none_iff_forall_ne_some.mpr fun r hr => ?_
      obtain ⟨t, l', ht⟩ := read?_eq_some_iff.mp hr
      -- the text determines the document
      have same : t = .object members := by
        have read := Tree.lex_bind_eq_some_iff.mpr l'
        rw [Tree.lex_bind_eq_some_iff.mpr trimmed] at read
        exact (Option.some.inj read).symm
      have two := two_le_length_resultValues grammatical repeats
      rw [same, ofTree?_of_two_le decoded two] at ht
      cases ht

/-- The key of the result may be escaped, and half a surrogate pair in another member does no
harm. -/
theorem read_verdict_exact_escaped :
    let key : Quoted :=
      [.plain 'r', .plain 'e', .unit '0' '0' '7' '3', .plain 'u', .plain 'l', .plain 't']
    let other : Quoted × Tree := ([.plain 'x'], .array [.string [.unit 'd' '8' '0' '0']])
    let text := ['\x7b', '"', 'x', '"', ':', '[', '"', '\\', 'u', 'd', '8', '0', '0', '"', ']', ',',
      '\n', '"', 'r', 'e', '\\', 'u', '0', '0', '7', '3', 'u', 'l', 't', '"', ':',
      't', 'r', 'u', 'e', '\x7d']
    Layout (Tree.tokens (.object [other, (key, .bool true)])) text ∧
      HasResult [other, (key, .bool true)] (.bool true) ∧
      ∃ r, read? (.ofList ('\u3000' :: text ++ ['\n'])) = some r ∧ r.verdict = .satisfied := by
  intro key other text
  have hx : Quoted.Grammatical [.plain 'x'] := by simp [Quoted.Grammatical, Piece.Grammatical]
  have hs : Quoted.Grammatical [.unit 'd' '8' '0' '0'] := by
    simp [Quoted.Grammatical, Piece.Grammatical, Piece.isHex]
  have hkey : key.Grammatical := by
    simp [key, Quoted.Grammatical, Piece.Grammatical, Piece.isHex]
  have l : Layout (Tree.tokens (.object [other, (key, .bool true)])) text :=
    .token (t := .beginObject) trivial <| .token (t := .string [.plain 'x']) hx <|
    .token (t := .colon) trivial <| .token (t := .beginArray) trivial <|
    .token (t := .string [.unit 'd' '8' '0' '0']) hs <| .token (t := .endArray) trivial <|
    .token (t := .comma) trivial <| .space rfl <| .token (t := .string key) hkey <|
    .token (t := .colon) trivial <| .token (t := .bool true) trivial <|
    .token (t := .endObject) trivial .nil
  have spelled : Quoted.Spells key resultKey.toList :=
    .plain 'r' <| .plain 'e' <| .unit rfl <| .plain 'u' <| .plain 'l' <| .plain 't' .nil
  have sole : HasResult [other, (key, .bool true)] (.bool true) := by
    refine ⟨[other], key, [], rfl, spelled, fun m hm result => ?_⟩
    rw [List.mem_singleton.mp hm] at result
    cases result
  refine ⟨l, sole, ?_⟩
  refine ((read_verdict_exact.2 _ ['\u3000'] text ['\n'] _ ?_ ?_ ?_ l ?_).1 _ sole ?_)
  · rw [String.toList_ofList]
    rfl
  · exact List.forall_mem_singleton.mpr rfl
  · exact List.forall_mem_singleton.mpr rfl
  · intro m hm
    rcases List.mem_pair.mp hm with rfl | rfl
    · exact ⟨_, .plain 'x' .nil⟩
    · exact ⟨_, spelled⟩
  · exact ⟨by decide, trivial⟩

end Reply

end ProcessLogic
