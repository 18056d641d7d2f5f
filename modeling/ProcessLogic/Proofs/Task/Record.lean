import ProcessLogic.Proofs.Json.Written
import ProcessLogic.Task.Question

/-!
# Questions in JSON

What is written for a question is read back as the question.  So is every other text of an object
that has the same members among its own: in whatever order they come, however the text is laid out,
and whatever members of other names there are, those of other kinds of questions included.  Whether
a member is one of the question's own is up to the tag, which may be the last member of all.

Of the question's own members only the switch for the semantics may be missing.  None may be
repeated.
-/

namespace ProcessLogic.Question

open Value ProcessLogic.Tree

/-! ### The members of a question -/

/-- The members that are written for a question. -/
def record (q : Question) : List (String × Value) :=
  (tag, .string q.kind.name) :: q.kind.fields.zip q.fieldValues

/-- A member of a text is a given key with a text or a truth value. -/
inductive Spelled : Quoted × Tree → String × Value → Prop
  | string {key text : Quoted} {name value : String} (hkey : key.Spells name.toList)
      (htext : text.Spells value.toList) : Spelled (key, .string text) (name, .string value)
  | bool {key : Quoted} {name : String} (hkey : key.Spells name.toList) (value : Bool) :
      Spelled (key, .bool value) (name, .bool value)

/-- A member of a text is none of a question's own, and it stands for something. -/
structure Foreign (kind : Kind) (m : Quoted × Tree) : Prop where
  key : ∃ name : String, m.1.Spells name.toList ∧ name ∉ tag :: kind.fields
  value : m.2.Representable (nestingLimit - 1)

/-- A text is an object of the given members and of foreign ones, in any order. -/
def Presents (kind : Kind) (record : List (String × Value)) (text : List Char) : Prop :=
  ∃ members known extra, Layout (Tree.tokens (.object members)) text ∧
    members.Perm (known ++ extra) ∧ List.Forall₂ Spelled known record ∧
    ∀ m ∈ extra, Foreign kind m

variable {kind : Kind} {key : String} {text : List Char} {members : List (Quoted × Tree)}
  {record entries : List (String × Value)} {q : Question}

theorem map_fst_record (q : Question) : q.record.map Prod.fst = tag :: q.kind.fields := by
  cases q <;> rfl

theorem distinct_record (q : Question) : (q.record.map Prod.fst).Nodup := by
  rw [map_fst_record]
  cases q.kind <;> decide

theorem Spelled.readAs {m : Quoted × Tree} {e : String × Value} (h : Spelled m e) :
    ReadAs m e := by
  cases h with
  | string hkey htext =>
      refine ⟨Quoted.string?_eq_of_spells hkey, ?_⟩
      rw [Json.decode, Quoted.string?_eq_of_spells htext, Option.map_some]
  | bool hkey value => exact ⟨Quoted.string?_eq_of_spells hkey, by rw [Json.decode]⟩

theorem Spelled.depth {m : Quoted × Tree} {e : String × Value} (h : Spelled m e) :
    m.2.depth = 0 := by
  cases h <;> rw [Json.depth]

theorem Foreign.exists_readAs {m : Quoted × Tree} (h : Foreign kind m) :
    ∃ e, ReadAs m e ∧ e.1 ∉ tag :: kind.fields := by
  obtain ⟨name, spelled, other⟩ := h.key
  obtain ⟨v, hv⟩ := h.value.exists_value?
  rw [Tree.value?, if_pos h.value.depth] at hv
  exact ⟨(name, v), ⟨Quoted.string?_eq_of_spells spelled, hv⟩, other⟩

theorem exists_readAs_of_foreign {extra : List (Quoted × Tree)} (h : ∀ m ∈ extra, Foreign kind m) :
    ∃ others, List.Forall₂ ReadAs extra others ∧ ∀ e ∈ others, e.1 ∉ tag :: kind.fields := by
  induction extra with
  | nil => exact ⟨[], .nil, List.forall_mem_nil _⟩
  | cons m extra ih =>
      obtain ⟨first, rest⟩ := List.forall_mem_cons.mp h
      obtain ⟨e, he, name⟩ := first.exists_readAs
      obtain ⟨others, hothers, names⟩ := ih rest
      exact ⟨e :: others, .cons he hothers, List.forall_mem_cons.mpr ⟨name, names⟩⟩

/-- An object that presents a record is read, and as far as the names of the kind go it is the
record. -/
theorem Presents.exists_entries (h : Presents kind record text)
    (distinct : (record.map Prod.fst).Nodup) :
    ∃ entries, Value.read? (.ofList text) = some (.object entries) ∧
      ∀ key ∈ tag :: kind.fields, Value.members key entries = Value.members key record := by
  obtain ⟨members, known, extra, l, perm, own, foreign⟩ := h
  obtain ⟨others, hothers, names⟩ := exists_readAs_of_foreign foreign
  -- The members are decoded with the record in front, and then put into the order of the text.
  have whole : List.Forall₂ ReadAs (known ++ extra) (record ++ others) :=
    List.rel_append (own.imp fun _ _ => Spelled.readAs) hothers
  obtain ⟨entries, hentries, permuted⟩ := List.perm_comp_forall₂ perm whole
  have flat : ∀ m ∈ known, m.2.depth = 0 :=
    ((List.forall₂_and_left _ _).mp (own.imp fun _ _ h => ⟨h.depth, h⟩)).1
  have shallow : ∀ m ∈ members, m.2.depth ≤ nestingLimit - 1 := by
    intro m hm
    rcases List.mem_append.mp (perm.mem_iff.mp hm) with hm | hm
    · rw [flat m hm]
      exact Nat.zero_le _
    · exact (foreign m hm).value.depth
  refine ⟨entries, Value.read?_object l shallow hentries, fun key hkey => ?_⟩
  refine Value.members_eq_of_perm permuted distinct fun e he same => ?_
  exact names e he (same ▸ hkey)

/-! ### Reading -/

theorem ofFields?_congr (h : ∀ key ∈ kind.fields, Value.members key entries =
    Value.members key record) : ofFields? entries kind = ofFields? record kind := by
  cases kind <;>
    simp only [Kind.fields, List.forall_mem_cons] at h <;>
    simp only [ofFields?, stringField?, switchField?, boolField?, sole?, h]

/-- A question is read from the members with its own names. -/
theorem ofValue?_congr (h : ∀ key ∈ tag :: kind.fields, Value.members key entries =
    Value.members key record) (tagged : stringField? tag record = some kind.name) :
    ofValue? (.object entries) = ofFields? record kind := by
  obtain ⟨htag, hfields⟩ := List.forall_mem_cons.mp h
  have tagged' : stringField? tag entries = some kind.name := by
    rw [← tagged, stringField?, stringField?, sole?, sole?, htag]
  simp [ofValue?, record?, tagged', ofFields?_congr hfields]

/-- Every text that presents a record of the kind is read as the record is. -/
theorem Presents.read?_eq (h : Presents kind record text)
    (distinct : (record.map Prod.fst).Nodup) (tagged : stringField? tag record = some kind.name) :
    read? (.ofList text) = ofFields? record kind := by
  obtain ⟨entries, hentries, same⟩ := h.exists_entries distinct
  rw [read?, hentries]
  exact ofValue?_congr same tagged

theorem stringField?_record (q : Question) : stringField? tag q.record = some q.kind.name := by
  cases q <;> rfl

theorem ofFields?_record (q : Question) : ofFields? q.record q.kind = some q := by
  cases q <;> rfl

/-! ### Writing -/

/-- A member with a text for its value, spelled as it is written. -/
def member (name value : String) : Quoted × Tree := (.ofString name, .string (.ofString value))

theorem written_member (name value : String) :
    WrittenMember (name, .string value) (member name value) := ⟨rfl, .string value⟩

theorem spelled_member (name value : String) :
    Spelled (member name value) (name, .string value) :=
  .string (Quoted.spells_map_ofChar _) (Quoted.spells_map_ofChar _)

theorem grammatical_member (name value : String) :
    ∀ x ∈ memberTokens (member name value), x.Grammatical := by
  simp [memberTokens, member, Tree.tokens, Token.Grammatical, Quoted.grammatical_ofString]

theorem exists_written (q : Question) :
    ∃ known, List.Forall₂ (fun e m => WrittenMember e m ∧ Spelled m e) q.record known := by
  have text (name value : String) := And.intro (written_member name value)
    (spelled_member name value)
  have switch (name : String) (value : Bool) :
      WrittenMember (name, .bool value) (.ofString name, .bool value) ∧
        Spelled (.ofString name, .bool value) (name, .bool value) :=
    ⟨⟨rfl, .bool value⟩, .bool (Quoted.spells_map_ofChar _) value⟩
  cases q with
  | hml process formula strict =>
      exact ⟨_, .cons (text _ _) <| .cons (text _ _) <| .cons (text _ _) <|
        .cons (switch _ _) .nil⟩
  | _ first second => exact ⟨_, .cons (text _ _) <| .cons (text _ _) <| .cons (text _ _) .nil⟩

/-- What is written for a question presents its record. -/
theorem presents_compact (q : Question) :
    Presents q.kind q.record q.toValue.compact.toList := by
  obtain ⟨known, h⟩ := q.exists_written
  have written : Written q.toValue (.object known) := .object (h.imp fun _ _ both => both.1)
  have spelled : List.Forall₂ Spelled known q.record := (h.imp fun _ _ both => both.2).flip
  refine ⟨known, known, [], written.layout, ?_, spelled, List.forall_mem_nil _⟩
  rw [List.append_nil]

/-! ### Refusing -/

theorem Kind.name_injective : Function.Injective Kind.name := by
  intro kind kind' h
  have same : some kind = some kind' := by
    rw [← ofName?_name kind, h, ofName?_name]
  exact Option.some.inj same

theorem name_of_ofName? {name : String} (h : Kind.ofName? name = some kind) : name = kind.name := by
  unfold Kind.ofName? at h
  split at h <;> cases h <;> rfl

theorem members_of_sole? {value : Value} (h : sole? key entries = some value) :
    Value.members key entries = [value] := by
  unfold sole? at h
  split at h
  · rename_i same
    rw [same, Option.some.inj h]
  · cases h

theorem members_of_stringField? {value : String} (h : stringField? key entries = some value) :
    Value.members key entries = [.string value] := by
  obtain ⟨v, hv, h⟩ := Option.bind_eq_some_iff.mp h
  rw [members_of_sole? hv]
  unfold string? at h
  split at h <;> cases h
  rfl

theorem members_of_switchField? {value : Bool} (h : switchField? key entries = some value) :
    (Value.members key entries).length ≤ 1 := by
  unfold switchField? at h
  split at h
  · rename_i missing
    rw [List.isEmpty_iff.mp missing]
    exact Nat.zero_le 1
  · obtain ⟨v, hv, -⟩ := Option.bind_eq_some_iff.mp h
    rw [members_of_sole? hv, List.length_singleton]

/-- A question is read from fields of which none is repeated, and none but one missing. -/
theorem members_of_ofFields? (h : ofFields? entries kind = some q) (hkey : key ∈ kind.fields) :
    (Value.members key entries).length ≤ 1 ∧
      (Value.members key entries = [] → key = "use_strict_semantics") := by
  have found {name value : String} (h : stringField? name entries = some value) :
      (Value.members name entries).length ≤ 1 ∧
        (Value.members name entries = [] → name = "use_strict_semantics") := by
    rw [members_of_stringField? h]
    exact ⟨Nat.le_refl 1, fun missing => by cases missing⟩
  cases kind with
  | hml =>
      obtain ⟨process, hprocess, h⟩ := Option.bind_eq_some_iff.mp h
      obtain ⟨formula, hformula, h⟩ := Option.bind_eq_some_iff.mp h
      obtain ⟨strict, hstrict, -⟩ := Option.bind_eq_some_iff.mp h
      simp only [Kind.fields, List.mem_cons, List.not_mem_nil, or_false] at hkey
      rcases hkey with rfl | rfl | rfl
      · exact found hprocess
      · exact found hformula
      · exact ⟨members_of_switchField? hstrict, fun _ => rfl⟩
  | _ =>
      obtain ⟨first, hfirst, h⟩ := Option.bind_eq_some_iff.mp h
      obtain ⟨second, hsecond, -⟩ := Option.bind_eq_some_iff.mp h
      rcases List.mem_pair.mp hkey with rfl | rfl
      · exact found hfirst
      · exact found hsecond

/-- A question is read from the text of an object whose only tag is that of a kind, and whose
fields are a question of that kind. -/
theorem exists_of_read? (l : Layout (Tree.tokens (.object members)) text)
    (h : read? (.ofList text) = some q) :
    ∃ entries kind, List.Forall₂ ReadAs members entries ∧
      Value.members tag entries = [.string kind.name] ∧ ofFields? entries kind = some q := by
  obtain ⟨v, hv, h⟩ := Option.bind_eq_some_iff.mp h
  obtain ⟨entries, rfl, decoded⟩ := Value.exists_entries_of_read? l hv
  obtain ⟨⟨kind, entries'⟩, hrecord, h⟩ := Option.bind_eq_some_iff.mp h
  obtain ⟨name, hname, hrecord⟩ := Option.bind_eq_some_iff.mp hrecord
  obtain ⟨kind', hkind, hrecord⟩ := Option.bind_eq_some_iff.mp hrecord
  obtain ⟨rfl, rfl⟩ := Prod.mk.inj (Option.some.inj hrecord)
  refine ⟨entries, kind', decoded, ?_, h⟩
  rw [members_of_stringField? hname, name_of_ofName? hkind]

theorem read?_eq_none_of_tag (l : Layout (Tree.tokens (.object members)) text)
    (h : Repeats tag members ∨ Lacks tag members) : read? (.ofList text) = none := by
  refine Option.eq_none_iff_forall_ne_some.mpr fun q hq => ?_
  obtain ⟨entries, kind, decoded, tagged, -⟩ := exists_of_read? l hq
  rcases h with repeats | lacks
  · have two := two_le_length_members decoded repeats
    rw [tagged, List.length_singleton] at two
    omega
  · have none := members_eq_nil_of_lacks (fun m hm => l.grammatical_key hm) decoded lacks
    rw [tagged] at none
    cases none

theorem read?_eq_none_of_field (l : Layout (Tree.tokens (.object members)) text)
    (tagged : ∃ m ∈ members, Spelled m (tag, .string kind.name)) (hkey : key ∈ kind.fields)
    (h : Repeats key members ∨ Lacks key members ∧ key ≠ "use_strict_semantics") :
    read? (.ofList text) = none := by
  refine Option.eq_none_iff_forall_ne_some.mpr fun q hq => ?_
  obtain ⟨entries, kind', decoded, tagged', fields⟩ := exists_of_read? l hq
  -- the tag that was read is the one in the text
  have same : kind' = kind := by
    obtain ⟨m, hm, spelled⟩ := tagged
    obtain ⟨e, he, read⟩ := exists_readAs_of_mem decoded hm
    obtain rfl := read.unique spelled.readAs
    have value := mem_members he
    rw [tagged', List.mem_singleton] at value
    exact Kind.name_injective (Json.string.inj value).symm
  subst same
  obtain ⟨once, missing⟩ := members_of_ofFields? fields hkey
  rcases h with repeats | ⟨lacks, required⟩
  · have two := two_le_length_members decoded repeats
    omega
  · have none := members_eq_nil_of_lacks (fun m hm => l.grammatical_key hm) decoded lacks
    exact required (missing none)

/-- **A question and its texts.**  What is written for a question is a text of its record, and it is
read back as the question.

So is every text of an object that has the members of the record, in any order, and otherwise only
members that are none of the question's own and stand for something.  Of arrays and objects such a
member may have one less open at once than `nestingLimit`, since the object is open around it.  A
switch for the semantics that is left out counts as off.

The text of an object is refused if the tag is repeated or missing; and if it has the tag of a kind,
it is refused if a field of that kind is repeated, or one other than the switch is missing. -/
theorem read?_presented :
    (∀ q : Question, Presents q.kind q.record q.toValue.compact.toList ∧
      read? q.toValue.compact = some q) ∧
    (∀ (q : Question) (text : List Char), Presents q.kind q.record text →
      read? (.ofList text) = some q) ∧
    (∀ (process formula : String) (text : List Char),
      Presents .hml [(tag, .string Kind.hml.name), ("process", .string process),
        ("formula", .string formula)] text →
      read? (.ofList text) = some (.hml process formula false)) ∧
    ∀ (members : List (Quoted × Tree)) (text : List Char),
      Layout (Tree.tokens (.object members)) text →
        (Repeats tag members ∨ Lacks tag members → read? (.ofList text) = none) ∧
        ∀ (kind : Kind) (key : String), (∃ m ∈ members, Spelled m (tag, .string kind.name)) →
          key ∈ kind.fields →
          Repeats key members ∨ Lacks key members ∧ key ≠ "use_strict_semantics" →
          read? (.ofList text) = none := by
  have whole (q : Question) (text : List Char) (h : Presents q.kind q.record text) :
      read? (.ofList text) = some q := by
    rw [h.read?_eq q.distinct_record q.stringField?_record, q.ofFields?_record]
  refine ⟨fun q => ⟨q.presents_compact, ?_⟩, whole, ?_, ?_⟩
  · have back := whole q _ q.presents_compact
    rwa [String.ofList_toList] at back
  · intro process formula text h
    rw [h.read?_eq (by simp [tag]) rfl]
    rfl
  · intro members text l
    exact ⟨read?_eq_none_of_tag l, fun kind key tagged hkey h =>
      read?_eq_none_of_field l tagged hkey h⟩

/-- The tag comes last, and in front of it there is a member that only questions of other kinds
have.  With a second tag or a second process in front of them all, the text is refused. -/
theorem read?_presented_tagLast :
    let other : Quoted × Tree := (.ofString "first_process", .array [.object [], .null])
    let members := [other, member "formula" "T", member "process" "P", member tag "hml"]
    let text (members : List (Quoted × Tree)) : List Char :=
      '\n' :: (Tree.tokens (.object members)).flatMap Token.text
    Presents .hml [(tag, .string "hml"), ("process", .string "P"), ("formula", .string "T")]
        (text members) ∧
      read? (.ofList (text members)) = some (.hml "P" "T" false) ∧
      read? (.ofList (text (member tag "weak_bisimulation" :: members))) = none ∧
      read? (.ofList (text (member "process" "Q" :: members))) = none := by
  intro other members text
  have grammatical : ∀ m ∈ members, ∀ x ∈ memberTokens m, x.Grammatical := by
    refine List.forall_mem_cons.mpr ⟨?_, List.forall_mem_cons.mpr ⟨grammatical_member _ _,
      List.forall_mem_cons.mpr ⟨grammatical_member _ _,
        List.forall_mem_singleton.mpr (grammatical_member _ _)⟩⟩⟩
    simp [memberTokens, other, Tree.tokens, tokensOfItems, tokensOfMembers, Token.Grammatical,
      Quoted.grammatical_ofString]
  have more (name value : String) : Layout (Tree.tokens (.object (member name value :: members)))
      (text (member name value :: members)) :=
    .space rfl (Layout.of_members (List.forall_mem_cons.mpr
      ⟨grammatical_member name value, grammatical⟩))
  have presents : Presents .hml [(tag, .string "hml"), ("process", .string "P"),
      ("formula", .string "T")] (text members) := by
    refine ⟨members, [member tag "hml", member "process" "P", member "formula" "T"], [other],
      .space rfl (Layout.of_members grammatical), (List.reverse_perm members).symm,
      .cons (spelled_member _ _) <| .cons (spelled_member _ _) <|
        .cons (spelled_member _ _) .nil, ?_⟩
    refine List.forall_mem_singleton.mpr ⟨⟨_, Quoted.spells_map_ofChar _, by decide⟩, ?_⟩
    exact ⟨by decide, trivial, trivial, trivial⟩
  refine ⟨presents, read?_presented.2.2.1 _ _ _ presents, ?_, ?_⟩
  · refine (read?_presented.2.2.2 _ _ (more _ _)).1 (.inl ?_)
    exact ⟨member tag "weak_bisimulation", member tag "hml", by simp [members],
      Quoted.spells_map_ofChar _, Quoted.spells_map_ofChar _⟩
  · refine (read?_presented.2.2.2 _ _ (more _ _)).2 .hml "process"
      ⟨member tag "hml", by simp [members], spelled_member _ _⟩ (by decide) (.inl ?_)
    exact ⟨member "process" "Q", member "process" "P", by simp [members],
      Quoted.spells_map_ofChar _, Quoted.spells_map_ofChar _⟩

/-- Arrays inside each other. -/
def nest : Nat → Tree
  | 0 => .array []
  | depth + 1 => .array [nest depth]

theorem depth_nest (n : Nat) : (nest n).depth = n + 1 := by
  induction n with
  | zero => rfl
  | succ n ih => rw [nest, Json.depth_array, Json.itemsDepth, ih]; rfl

theorem every_nest {p : Numeral → Prop} {q : Quoted → Prop} (n : Nat) : (nest n).Every p q := by
  induction n with
  | zero => trivial
  | succ n ih => exact ⟨ih, trivial⟩

theorem grammatical_nest (n : Nat) : ∀ x ∈ (nest n).tokens, x.Grammatical := by
  induction n with
  | zero => simp [nest, Tree.tokens, tokensOfItems, Token.Grammatical]
  | succ n ih =>
      rw [nest, Tree.tokens, tokensOfItems_eq_map]
      exact Written.grammatical_parts trivial trivial (List.forall_mem_singleton.mpr ih)

/-- A foreign member that stands for something makes a text unreadable if it has too many arrays
inside each other. -/
theorem read?_eq_none_of_nested :
    let q : Question := .strongBisimulation "P" "Q"
    let known := [member tag "strong_bisimulation", member "first_process" "P",
      member "second_process" "Q"]
    let foreign : Quoted × Tree := (.ofString "x", nest 126)
    let tokens := Tree.tokens (.object (known ++ [foreign]))
    Layout tokens (tokens.flatMap Token.text) ∧ List.Forall₂ Spelled known q.record ∧
      foreign.1.Spells "x".toList ∧ "x" ∉ tag :: q.kind.fields ∧
      foreign.2.Every (fun n => ∃ x, n.number? = some x) (fun s => ∃ cs, Quoted.Spells s cs) ∧
      read? (.ofList (tokens.flatMap Token.text)) = none := by
  intro q known foreign tokens
  have l : Layout tokens (tokens.flatMap Token.text) := by
    refine Layout.of_members (List.forall_mem_append.mpr ⟨?_, List.forall_mem_singleton.mpr ?_⟩)
    · exact List.forall_mem_cons.mpr ⟨grammatical_member _ _, List.forall_mem_cons.mpr
        ⟨grammatical_member _ _, List.forall_mem_singleton.mpr (grammatical_member _ _)⟩⟩
    · exact List.forall_mem_cons.mpr ⟨Quoted.grammatical_ofString _, List.forall_mem_cons.mpr
        ⟨trivial, grammatical_nest 126⟩⟩
  refine ⟨l, .cons (spelled_member _ _) <| .cons (spelled_member _ _) <|
    .cons (spelled_member _ _) .nil, Quoted.spells_map_ofChar _, by decide, every_nest 126, ?_⟩
  have deep : ¬ Json.depth (.object (known ++ [foreign])) ≤ nestingLimit := by
    intro h
    rw [Json.depth_object] at h
    have shallow := Json.membersDepth_le_iff.mp (Nat.le_of_succ_le_succ h) foreign (by simp)
    rw [depth_nest] at shallow
    exact absurd shallow (by decide)
  rw [read?, Value.read?_of_layout l, Tree.value?, if_neg deep]
  rfl

end ProcessLogic.Question
