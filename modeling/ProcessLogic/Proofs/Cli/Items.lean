import ProcessLogic.Proofs.Cli.Reading
import Mathlib.Data.List.Induction

/-!
# Reading a command line item by item

A reading settles a value only when the next word has been recognized, so its states lag behind the
items that the words spell.  What a reading holds once it is settled, its *content*, does not: each
item that the words spell is put into the content, one after the other, and what is complained about
late is complained about all the same.

So whether words are read, and as what, is up to the items that they spell, and `Holds` says in
which way: `Command.ofWords_eq_ok_iff`.
-/

namespace ProcessLogic.Cli

/-- Words that spell one item, in front of the separator. -/
inductive Part (sub : Subcommand) : List String → Item → Prop
  | word {word : String} {item : Item} (h : Word sub word item) : Part sub [word] item
  | apart {s : Setting} {word value : String} (h : Opens s none word)
      (hvalue : s = .engineArg ∨ IsName value) : Part sub [word, value] (.setting s value)

theorem Part.taken {sub : Subcommand} {front words : List String} {item : Item} {items : List Item}
    (h : Part sub front item) (rest : Taken sub words items) :
    Taken sub (front ++ words) (item :: items) := by
  cases h with
  | word h => exact .word h rest
  | apart h hvalue => exact .apart h hvalue rest

namespace Reading

variable {sub : Subcommand} {r r' q q' : Reading} {s : Setting} {value word : String}
  {item : Item} {items : List Item} {words : List String}

/-! ### Contents -/

/-- Takes an item where nothing is pending. -/
def put (r : Reading) : Item → Except Refusal Reading
  | .name word => r.takeName word
  | .strict => if r.strict then .error .repeated else .ok { r with strict := true }
  | .setting s value => r.set s value

/-- What a reading holds once it is settled. -/
def content (r : Reading) : Except Refusal Reading :=
  r.settle.map fun q => { q with literal := false }

theorem settle_of_idle (idle : r.pending = none) : r.settle = .ok r := by rw [settle, idle]

theorem content_of_settle (h : r.settle = .ok q) : r.content = .ok { q with literal := false } := by
  rw [content, h]
  rfl

/-- A content has nothing pending, and is not behind the separator. -/
theorem settled_of_content (h : r.content = .ok q) : q.pending = none ∧ q.literal = false := by
  obtain ⟨p, hp, rfl⟩ := exists_of_map_eq_ok h
  exact ⟨(extends_of_settle hp).2.2.1, rfl⟩

theorem content_of_settled (idle : q.pending = none) (options : q.literal = false) :
    q.content = .ok q := by
  rw [content_of_settle (settle_of_idle idle), ← options]

/-- In front of the separator, to settle a reading gives its content. -/
theorem content_eq_settle (options : r.literal = false) : r.content = r.settle := by
  cases h : r.settle with
  | error error => rw [content, h]; rfl
  | ok q =>
      have same : q.literal = false := (extends_of_settle h).2.2.2.trans options
      rw [content_of_settle h, ← same]

theorem settled_of_put (idle : q.pending = none) (h : q.put item = .ok q') :
    q'.pending = none ∧ q'.literal = q.literal := by
  cases item with
  | name word => exact (extends_of_takeName h).2.2
  | strict =>
      rw [put] at h
      split at h
      · cases h
      · obtain rfl := Except.ok.inj h
        exact ⟨idle, rfl⟩
  | setting s value => exact (extends_of_set idle h).2

/-! ### Names -/

theorem put_name (idle : q.pending = none) (word : String) :
    q.put (.name word) =
      if 2 ≤ q.names.length then .error .unknownArgument
      else .ok { q with names := q.names ++ [word] } := by
  rw [put, takeName, settle_of_idle idle]
  rfl

theorem names_of_content (h : r.content = .ok q) : q.names = r.names := by
  obtain ⟨p, hp, rfl⟩ := exists_of_map_eq_ok h
  have names := (extends_of_settle hp).2.1.names
  rwa [Item.names_nil, List.append_nil] at names

/-- To take a name is to put it into the content. -/
theorem takeName_iff :
    (∃ r', r.takeName word = .ok r' ∧ r'.content = .ok q') ↔
      ∃ q, r.content = .ok q ∧ q.put (.name word) = .ok q' := by
  have put_eq {q : Reading} (hq : r.content = .ok q) : q.put (.name word) =
      if 2 ≤ r.names.length then .error .unknownArgument
      else .ok { q with names := q.names ++ [word] } := by
    rw [put_name (settled_of_content hq).1, names_of_content hq]
  by_cases full : 2 ≤ r.names.length
  · rw [takeName, if_pos full]
    constructor
    · rintro ⟨r', h, -⟩
      cases h
    · rintro ⟨q, hq, h⟩
      rw [put_eq hq, if_pos full] at h
      cases h
  · have named {p : Reading} (hp : r.settle = .ok p) :
        ({ p with names := p.names ++ [word] } : Reading).content =
          .ok { p with names := p.names ++ [word], literal := false } := by
      have idle : p.pending = none := (extends_of_settle hp).2.2.1
      exact content_of_settle (r := { p with names := p.names ++ [word] }) (settle_of_idle idle)
    rw [takeName, if_neg full]
    constructor
    · rintro ⟨r', h, hq'⟩
      obtain ⟨p, hp, rfl⟩ := exists_of_map_eq_ok h
      refine ⟨_, content_of_settle hp, ?_⟩
      rw [put_eq (content_of_settle hp), if_neg full]
      exact (named hp).symm.trans hq'
    · rintro ⟨q, hq, h⟩
      rw [put_eq hq, if_neg full] at h
      obtain ⟨p, hp, rfl⟩ := exists_of_map_eq_ok hq
      rw [hp]
      exact ⟨_, rfl, (named hp).trans h⟩

/-! ### Words in step -/

section Ready

variable (options : r.literal = false) (ready : r.awaits = none)

include options ready

/-- Where no value is waited for, a word is taken by its shape. -/
theorem step_eq (sub : Subcommand) (word : String) :
    step sub r word =
      match Shape.of word with
      | .separator => .ok { r with literal := true }
      | .long name value => r.takeLong sub name value
      | .short letter rest => r.takeShort letter rest
      | .plain => r.takeName word := by
  have unasked (s : Setting) : r.pending ≠ some (s, none) := by
    intro pending
    rw [awaits, pending] at ready
    cases ready
  have plain : r.takePlain word = r.takeName word := by
    rw [takePlain]
    split
    · exact absurd ‹_› (unasked _)
    · rfl
  rw [← plain]
  exact (if_neg (by simp [options])).trans (if_neg (unasked .engineArg))

theorem step_of_opens (sub : Subcommand) {value : Option String} (h : Opens s value word) :
    step sub r word = r.takeSetting s value := by
  rw [step_eq options ready]
  rcases h.shape_eq with shape | ⟨rfl, rest, shape, given⟩
  · rw [shape]
    dsimp only
    rw [takeLong, Setting.ofName?_name]
  · rw [shape, ← given]
    rfl

theorem step_of_isName (sub : Subcommand) (h : IsName word) :
    step sub r word = r.takeName word := by
  rw [step_eq options ready, h.shape]

theorem step_strict : step .hml r "--strict" = r.settle >>= fun q => q.put .strict := by
  rw [step_eq options ready]
  rfl

/-- A word that spells an item by itself settles the reading and puts the item, or is a name. -/
theorem step_of_word {item : Item} (h : Word sub word item) :
    (∃ name, item = .name name ∧ step sub r word = r.takeName name) ∨
      step sub r word = r.settle >>= fun q => q.put item := by
  cases h with
  | name h => exact .inl ⟨word, rfl, step_of_isName options ready sub h⟩
  | strict h =>
      subst h
      exact .inr (step_strict options ready)
  | attached h => exact .inr (step_of_opens options ready sub h)

end Ready

/-- The next word is the value that is waited for. -/
theorem step_of_pending (options : r.literal = false) (pending : r.pending = some (s, none))
    (hvalue : s = .engineArg ∨ IsName value) :
    step sub r value = .ok { r with pending := some (s, some value) } := by
  rw [step, if_neg (by simp [options])]
  by_cases any : s = .engineArg
  · subst any
    rw [if_pos pending]
  · have name : IsName value := hvalue.resolve_left any
    rw [if_neg (by simp [pending, any]), name.shape]
    dsimp only
    rw [takePlain, pending]

theorem settle_of_given (idle : q.pending = none) (s : Setting) (value : String) :
    ({ q with pending := some (s, some value) } : Reading).settle = q.put (.setting s value) := by
  have same : ({ q with pending := none } : Reading) = q := by rw [← idle]
  rw [settle]
  dsimp only
  rw [same, put]

/-- An option and its value settle the reading, and the value stays pending. -/
theorem run_apart (options : r.literal = false) (ready : r.awaits = none) {option : String}
    (h : Opens s none option) (hvalue : s = .engineArg ∨ IsName value) :
    [option, value].foldlM (step sub) r =
      r.settle >>= fun q => .ok { q with pending := some (s, some value) } := by
  rw [List.foldlM_cons, step_of_opens options ready sub h, takeSetting]
  cases hq : r.settle with
  | error error => rfl
  | ok q =>
      have literal : q.literal = false := (extends_of_settle hq).2.2.2.trans options
      show [value].foldlM (step sub) { q with pending := some (s, none) } = _
      rw [foldlM_single,
        step_of_pending (r := { q with pending := some (s, none) }) literal rfl hvalue]
      rfl

/-! ### Words and their items -/

/-- To read words comes to putting items into the content. -/
def Reads (sub : Subcommand) (r : Reading) (words : List String) (items : List Item) : Prop :=
  ∀ q', (∃ r', words.foldlM (step sub) r = .ok r' ∧ r'.content = .ok q') ↔
    ∃ q, r.content = .ok q ∧ items.foldlM put q = .ok q'

theorem Reads.nil : Reads sub r [] [] := by
  intro q'
  constructor
  · rintro ⟨r', h, hq⟩
    obtain rfl := Except.ok.inj h
    exact ⟨q', hq, rfl⟩
  · rintro ⟨q, hq, h⟩
    obtain rfl := Except.ok.inj h
    exact ⟨r, rfl, hq⟩

theorem Reads.append {front : List String} {items' : List Item} (first : Reads sub r front items)
    (rest : ∀ r₁, front.foldlM (step sub) r = .ok r₁ → Reads sub r₁ words items') :
    Reads sub r (front ++ words) (items ++ items') := by
  intro q'
  rw [List.foldlM_append]
  constructor
  · rintro ⟨r', h, hq'⟩
    obtain ⟨r₁, h₁, h⟩ := exists_of_bind_eq_ok h
    obtain ⟨q₁, hq₁, run⟩ := (rest r₁ h₁ q').mp ⟨r', h, hq'⟩
    obtain ⟨q, hq, run₁⟩ := (first q₁).mp ⟨r₁, h₁, hq₁⟩
    refine ⟨q, hq, ?_⟩
    rw [List.foldlM_append, run₁]
    exact run
  · rintro ⟨q, hq, h⟩
    rw [List.foldlM_append] at h
    obtain ⟨q₁, run₁, run⟩ := exists_of_bind_eq_ok h
    obtain ⟨r₁, h₁, hq₁⟩ := (first q₁).mpr ⟨q, hq, run₁⟩
    rw [h₁]
    exact (rest r₁ h₁ q').mpr ⟨q₁, hq₁, run⟩

theorem reads_of_takeName (h : step sub r word = r.takeName word) :
    Reads sub r [word] [.name word] := by
  intro q'
  simp only [foldlM_single, h]
  exact takeName_iff

/-- Behind the separator every word is a name. -/
theorem reads_names (literal : r.literal = true) : Reads sub r words (words.map .name) := by
  induction words generalizing r with
  | nil => exact .nil
  | cons word words ih =>
      have first : step sub r word = r.takeName word := by rw [step, if_pos literal]
      show Reads sub r ([word] ++ words) ([.name word] ++ words.map .name)
      refine (reads_of_takeName first).append fun r₁ h => ih ?_
      rw [foldlM_single, first] at h
      exact (extends_of_takeName h).2.2.2.trans literal

section Part

variable (part : Part sub words item) (options : r.literal = false) (ready : r.awaits = none)

include part options ready

/-- Behind a part options are taken, and no value is waited for. -/
theorem ready_of_part (h : words.foldlM (step sub) r = .ok r') :
    r'.literal = false ∧ r'.awaits = none := by
  cases part with
  | word spelled =>
      rw [foldlM_single] at h
      rcases step_of_word options ready spelled with ⟨name, rfl, step⟩ | step
      · rw [step] at h
        obtain ⟨-, -, idle, literal⟩ := extends_of_takeName h
        exact ⟨literal.trans options, by rw [awaits, idle]⟩
      · rw [step] at h
        obtain ⟨q, hq, hput⟩ := exists_of_bind_eq_ok h
        obtain ⟨-, -, idle, literal⟩ := extends_of_settle hq
        obtain ⟨idle', literal'⟩ := settled_of_put idle hput
        exact ⟨literal'.trans (literal.trans options), by rw [awaits, idle']⟩
  | apart opens hvalue =>
      rw [run_apart options ready opens hvalue] at h
      obtain ⟨q, hq, h⟩ := exists_of_bind_eq_ok h
      obtain rfl := Except.ok.inj h
      exact ⟨(extends_of_settle hq).2.2.2.trans options, rfl⟩

/-- To read the words of a part is to put its item into the content. -/
theorem reads_part : Reads sub r words [item] := by
  intro q'
  simp only [foldlM_single]
  cases part with
  | word spelled =>
      rw [foldlM_single]
      rcases step_of_word options ready spelled with ⟨name, rfl, step⟩ | step
      · rw [step]
        exact takeName_iff
      · have settled {q q' : Reading} (hq : r.settle = .ok q) (hput : q.put item = .ok q') :
            q'.content = .ok q' := by
          obtain ⟨-, -, idle, literal⟩ := extends_of_settle hq
          obtain ⟨idle', literal'⟩ := settled_of_put idle hput
          exact content_of_settled idle' (literal'.trans (literal.trans options))
        rw [step, content_eq_settle options]
        constructor
        · rintro ⟨r', h, hq'⟩
          obtain ⟨q, hq, hput⟩ := exists_of_bind_eq_ok h
          rw [settled hq hput] at hq'
          exact ⟨q, hq, Except.ok.inj hq' ▸ hput⟩
        · rintro ⟨q, hq, hput⟩
          rw [hq]
          exact ⟨q', hput, settled hq hput⟩
  | @apart s _ value opens hvalue =>
      have given {q : Reading} (hq : r.settle = .ok q) :
          ({ q with pending := some (s, some value) } : Reading).content =
            q.put (.setting s value) := by
        obtain ⟨-, -, idle, literal⟩ := extends_of_settle hq
        rw [← settle_of_given idle]
        exact content_eq_settle (r := { q with pending := some (s, some value) })
          (literal.trans options)
      rw [run_apart options ready opens hvalue, content_eq_settle options]
      constructor
      · rintro ⟨r', h, hq'⟩
        obtain ⟨q, hq, h⟩ := exists_of_bind_eq_ok h
        obtain rfl := Except.ok.inj h
        exact ⟨q, hq, (given hq).symm.trans hq'⟩
      · rintro ⟨q, hq, hput⟩
        rw [hq]
        exact ⟨_, rfl, (given hq).trans hput⟩

end Part

/-- A part in front of words, given what these are read as. -/
theorem reads_part_append {front : List String} (part : Part sub front item)
    (options : r.literal = false) (ready : r.awaits = none)
    (rest : ∀ {r : Reading}, r.literal = false → r.awaits = none → Reads sub r words items) :
    Reads sub r (front ++ words) (item :: items) := by
  refine (reads_part part options ready).append fun r₁ h => ?_
  obtain ⟨options₁, ready₁⟩ := ready_of_part part options ready h
  exact rest options₁ ready₁

theorem set_literal (r : Reading) (s : Setting) (value : String) :
    ({ r with literal := true } : Reading).set s value =
      (r.set s value).map fun q => { q with literal := true } := by
  cases s with
  | engineArg => rfl
  | _ =>
      simp only [set]
      generalize once _ _ = got
      cases got <;> rfl

/-- The separator is no part of the content. -/
theorem content_literal (r : Reading) :
    ({ r with literal := true } : Reading).content = r.content := by
  rw [content, content, settle.eq_def, settle.eq_def]
  dsimp only
  split
  · rfl
  · rfl
  · rename_i s value _
    rw [set_literal { r with pending := none }]
    cases set { r with pending := none } s value <;> rfl

/-- **Words are read as their items are put into the content.** -/
theorem reads_taken (taken : Taken sub words items) (options : r.literal = false)
    (ready : r.awaits = none) : Reads sub r words items := by
  induction taken generalizing r with
  | nil => exact .nil
  | word h _ ih => exact reads_part_append (.word h) options ready ih
  | apart h hvalue _ ih => exact reads_part_append (.apart h hvalue) options ready ih
  | literal words =>
      have separator : step sub r "--" = .ok { r with literal := true } := by
        rw [step_eq options ready]
        rfl
      intro q'
      rw [List.foldlM_cons, separator, ← content_literal]
      exact reads_names rfl q'

/-! ### What items say -/

/-- What has been given for something that may be given once. -/
def Gives {α : Type} (read : String → Option α) (given : List String) (got : Option α) : Prop :=
  given.map read = got.toList.map some

section Gives

variable {α : Type} {read : String → Option α} {given given' : List String} {got : Option α}

/-- There is no order in what may be given once. -/
theorem Gives.perm (h : Gives read given got) (same : given.Perm given') :
    Gives read given' got := by
  have mapped := same.map read
  rw [h] at mapped
  cases got with
  | none => exact mapped.nil_eq.symm
  | some x => exact mapped.singleton_eq.symm

theorem gives_nil_iff : Gives read [] got ↔ got = none := by
  cases got <;> simp [Gives]

/-- What may be given once is given by the last value if nothing has been given before it. -/
theorem gives_concat_iff {new : Except Refusal α} (hnew : ∀ x, new = .ok x ↔ read value = some x) :
    Gives read (given ++ [value]) got ↔ ∃ old, Gives read given old ∧ once old new = .ok got := by
  rw [Gives, List.map_append]
  constructor
  · intro h
    cases got with
    | none => simp at h
    | some x =>
        have parts : given.map read ++ [value].map read = [] ++ [some x] := h
        obtain ⟨fresh, last⟩ := List.append_inj' parts rfl
        refine ⟨none, fresh, ?_⟩
        rw [(hnew x).mpr (List.singleton_inj.mp last)]
        rfl
  · rintro ⟨old, fresh, h⟩
    obtain ⟨rfl, x, hx, rfl⟩ := once_eq_ok h
    rw [fresh]
    exact congrArg ([·]) ((hnew x).mp hx)

theorem gives_set_iff (get : Reading → Option α) (update : Reading → Option α → Reading)
    (get_update : ∀ r x, get (update r x) = x) (update_get : ∀ r x, update (update r x) (get r) = r)
    {new : Except Refusal α} (hnew : ∀ x, new = .ok x ↔ read value = some x) :
    Gives read (given ++ [value]) (get q') ↔
      ∃ q, Gives read given (get q) ∧ (once (get q) new).map (update q) = .ok q' := by
  rw [gives_concat_iff hnew]
  constructor
  · rintro ⟨old, fresh, h⟩
    refine ⟨update q' old, ?_, ?_⟩
    · rwa [get_update]
    · rw [get_update, h, Except.map, update_get]
  · rintro ⟨q, fresh, h⟩
    obtain ⟨got, h, rfl⟩ := exists_of_map_eq_ok h
    exact ⟨get q, fresh, by rwa [get_update]⟩

end Gives

/-- A reading holds the values that a setting has been given. -/
def Given (q : Reading) (s : Setting) (given : List String) : Prop :=
  match s with
  | .program => Gives (fun value => if value = "" then none else some value) given q.program
  | .engine => Gives some given q.engine
  | .engineArg => given = q.engineArgs
  | .timeout => Gives (Decimal.word? ·.toList) given q.timeout
  | .format => Gives Format.ofName? given q.format

theorem Given.perm {given given' : List String} (h : q.Given s given) (same : given.Perm given')
    (other : s ≠ .engineArg) : q.Given s given' := by
  cases s with
  | engineArg => exact absurd rfl other
  | _ => exact Gives.perm h same

theorem given_concat_iff {given : List String} :
    q'.Given s (given ++ [value]) ↔ ∃ q : Reading, q.Given s given ∧ q.set s value = .ok q' := by
  cases s with
  | program =>
      refine gives_set_iff Reading.program (fun q program => { q with program })
        (fun _ _ => rfl) (fun _ _ => rfl) fun x => ?_
      by_cases empty : value = "" <;> simp [empty]
  | engine =>
      exact gives_set_iff Reading.engine (fun q engine => { q with engine })
        (fun _ _ => rfl) (fun _ _ => rfl) fun x => by simp
  | engineArg =>
      constructor
      · intro h
        exact ⟨{ q' with engineArgs := given }, rfl, by rw [set, h]⟩
      · rintro ⟨q, rfl, h⟩
        obtain rfl := Except.ok.inj h
        rfl
  | timeout =>
      refine gives_set_iff Reading.timeout (fun q timeout => { q with timeout })
        (fun _ _ => rfl) (fun _ _ => rfl) fun x => ?_
      cases Decimal.word? value.toList <;> simp
  | format =>
      refine gives_set_iff Reading.format (fun q format => { q with format })
        (fun _ _ => rfl) (fun _ _ => rfl) fun x => ?_
      cases Format.ofName? value <;> simp

/-- Two readings differ in nothing but a setting. -/
structure SameBut (s : Setting) (q q' : Reading) : Prop where
  names : q'.names = q.names
  strict : q'.strict = q.strict
  pending : q'.pending = q.pending
  literal : q'.literal = q.literal
  given {s' : Setting} {given : List String} (other : s ≠ s') : q'.Given s' given ↔ q.Given s' given

theorem sameBut_of_set (h : q.set s value = .ok q') : SameBut s q q' := by
  cases s with
  | engineArg =>
      obtain rfl := Except.ok.inj h
      refine ⟨rfl, rfl, rfl, rfl, fun {s'} _ other => ?_⟩
      cases s' <;> first | exact absurd rfl other | rfl
  | _ =>
      obtain ⟨_, -, rfl⟩ := exists_of_map_eq_ok h
      refine ⟨rfl, rfl, rfl, rfl, fun {s'} _ other => ?_⟩
      cases s' <;> first | exact absurd rfl other | rfl

/-- A reading holds what items say. -/
structure Holds (items : List Item) (q : Reading) : Prop where
  names : Item.names items = q.names
  few : q.names.length ≤ 2
  strict : items.count .strict = q.strict.toNat
  given (s : Setting) : q.Given s (Item.values s items)
  idle : q.pending = none
  options : q.literal = false

theorem holds_nil : Holds [] {} := by
  refine ⟨rfl, by decide, rfl, fun s => ?_, rfl, rfl⟩
  cases s <;> rfl

theorem eq_of_holds_nil (h : Holds [] q) : q = {} := by
  have strict : q.strict = false := by
    cases strict : q.strict with
    | false => rfl
    | true => cases strict ▸ h.strict
  have engineArgs : [] = q.engineArgs := h.given .engineArg
  calc q = ⟨q.names, q.program, q.engine, q.engineArgs, q.timeout, q.format, q.strict, q.pending,
        q.literal⟩ := rfl
    _ = {} := by
        rw [← h.names, gives_nil_iff.mp (h.given .program), gives_nil_iff.mp (h.given .engine),
          ← engineArgs, gives_nil_iff.mp (h.given .timeout), gives_nil_iff.mp (h.given .format),
          strict, h.idle, h.options]
        rfl

theorem given_names (q : Reading) (s : Setting) (given : List String) (names : List String) :
    ({ q with names } : Reading).Given s given ↔ q.Given s given := by
  cases s <;> rfl

theorem given_strict (q : Reading) (s : Setting) (given : List String) (strict : Bool) :
    ({ q with strict } : Reading).Given s given ↔ q.Given s given := by
  cases s <;> rfl

/-- What an item says is held once it is put. -/
theorem Holds.concat (h : Holds items q) (hput : q.put item = .ok q') :
    Holds (items ++ [item]) q' := by
  cases item with
  | name word =>
      rw [put_name h.idle] at hput
      split at hput
      · cases hput
      · obtain rfl := Except.ok.inj hput
        refine ⟨?_, ?_, ?_, fun s => ?_, h.idle, h.options⟩
        · rw [Item.names_append, h.names, Item.names_name]
        · rw [List.length_append, List.length_singleton]
          omega
        · simpa using h.strict
        · rw [given_names, Item.values_append, Item.values_name, List.append_nil]
          exact h.given s
  | strict =>
      rw [put] at hput
      split at hput
      · cases hput
      · rename_i fresh
        obtain rfl := Except.ok.inj hput
        refine ⟨?_, h.few, ?_, fun s => ?_, h.idle, h.options⟩
        · rw [Item.names_append, h.names, Item.names_strict, List.append_nil]
        · have count := h.strict
          simp_all
        · rw [given_strict, Item.values_append, Item.values_strict, List.append_nil]
          exact h.given s
  | setting s value =>
      have same := sameBut_of_set hput
      refine ⟨?_, ?_, ?_, fun s' => ?_, same.pending.trans h.idle, same.literal.trans h.options⟩
      · rw [Item.names_append, h.names, Item.names_setting, List.append_nil, same.names]
      · rw [same.names]
        exact h.few
      · rw [same.strict, ← h.strict]
        simp
      · rw [Item.values_append, Item.values_setting]
        split
        · rename_i own
          subst own
          exact given_concat_iff.mpr ⟨q, h.given s, hput⟩
        · rename_i other
          rw [List.append_nil, same.given other]
          exact h.given s'

theorem Holds.exists_put (h : Holds (items ++ [item]) q') :
    ∃ q, Holds items q ∧ q.put item = .ok q' := by
  obtain ⟨names, few, strict, given, idle, options⟩ := h
  cases item with
  | name word =>
      rw [Item.names_append, Item.names_name] at names
      refine ⟨{ q' with names := Item.names items }, ⟨rfl, ?_, ?_, fun s => ?_, idle, options⟩, ?_⟩
      · rw [← names, List.length_append] at few
        exact Nat.le_of_add_right_le few
      · simpa using strict
      · have given := given s
        rwa [Item.values_append, Item.values_name, List.append_nil, ← given_names] at given
      · rw [put_name (by exact idle), names, if_neg]
        rw [← names, List.length_append, List.length_singleton] at few
        exact Nat.not_le.mpr few
  | strict =>
      rw [Item.names_append, Item.names_strict, List.append_nil] at names
      rw [List.count_append, List.count_singleton_self] at strict
      have set : q'.strict = true := by
        cases h : q'.strict with
        | true => rfl
        | false => simp [h] at strict
      refine ⟨{ q' with strict := false }, ⟨names, few, ?_, fun s => ?_, idle, options⟩, ?_⟩
      · rw [set] at strict
        exact Nat.succ.inj strict
      · have given := given s
        rwa [Item.values_append, Item.values_strict, List.append_nil, ← given_strict] at given
      · calc ({ q' with strict := false } : Reading).put .strict
            = .ok { q' with strict := true } := rfl
          _ = .ok q' := by rw [← set]
  | setting s value =>
      have own := given s
      rw [Item.values_append, Item.values_setting, if_pos rfl] at own
      obtain ⟨q, before, hput⟩ := given_concat_iff.mp own
      have same := sameBut_of_set hput
      refine ⟨q, ⟨?_, ?_, ?_, fun s' => ?_, same.pending.symm.trans idle,
        same.literal.symm.trans options⟩, hput⟩
      · rw [Item.names_append, Item.names_setting, List.append_nil] at names
        rw [names, same.names]
      · rwa [← same.names]
      · rw [← same.strict, ← strict]
        simp
      · by_cases other : s = s'
        · subst other
          exact before
        · have given := given s'
          rwa [Item.values_append, Item.values_setting, if_neg other, List.append_nil,
            same.given other] at given

/-- **Items can be put one after the other if and only if there is a reading that holds what they
say**, and the result is the only one. -/
theorem foldlM_put_eq_ok_iff : items.foldlM put {} = .ok q ↔ Holds items q := by
  induction items using List.reverseRecOn generalizing q with
  | nil =>
      constructor
      · intro h
        obtain rfl := Except.ok.inj h
        exact holds_nil
      · intro h
        rw [eq_of_holds_nil h]
        rfl
  | append_singleton items item ih =>
      rw [List.foldlM_append]
      constructor
      · intro h
        obtain ⟨q₀, run, hput⟩ := exists_of_bind_eq_ok h
        rw [foldlM_single] at hput
        exact (ih.mp run).concat hput
      · intro h
        obtain ⟨q₀, holds, hput⟩ := h.exists_put
        rw [ih.mpr holds]
        exact (foldlM_single put q₀ item).trans hput

/-- A reading with nothing pending can be finished if it holds two names and a program. -/
theorem finish_eq_ok_iff {command : Command} (idle : q.pending = none) :
    q.finish sub = .ok command ↔ ∃ first second program,
      q.names = [first, second] ∧ q.program = some program ∧
        command = ⟨question sub first second q.strict, program,
          ⟨q.engine, q.engineArgs, q.timeout⟩, q.format.getD .text⟩ := by
  rw [finish, settle_of_idle idle]
  dsimp only [bind, Except.bind]
  constructor
  · intro h
    split at h
    · rename_i first second program names given
      exact ⟨first, second, program, names, given, (Except.ok.inj h).symm⟩
    · cases h
  · rintro ⟨first, second, program, names, given, rfl⟩
    rw [names, given]
    rfl

/-- To finish a reading is to finish its content. -/
theorem finish_eq (sub : Subcommand) (r : Reading) :
    r.finish sub = r.content >>= fun q => q.finish sub := by
  cases hq : r.settle with
  | error error => rw [finish, content, hq]; rfl
  | ok q =>
      rw [content_of_settle hq, finish, hq]
      have idle : q.pending = none := (extends_of_settle hq).2.2.1
      show _ = finish sub { q with literal := false }
      rw [finish, settle_of_idle (by exact idle)]
      rfl

end Reading

/-- Words that spell items are read as the command that finishes what the items say. -/
theorem Command.ofWords_eq_ok_iff_of_taken {sub : Subcommand} {words : List String}
    {items : List Item} {command : Command} (taken : Taken sub words items) :
    ofWords sub words = .ok command ↔ ∃ q, Reading.Holds items q ∧ q.finish sub = .ok command := by
  have run (q : Reading) :
      (∃ r, words.foldlM (Reading.step sub) {} = .ok r ∧ r.content = .ok q) ↔
        ∃ q₀ : Reading, ({} : Reading).content = .ok q₀ ∧ items.foldlM Reading.put q₀ = .ok q :=
    Reading.reads_taken taken rfl rfl q
  constructor
  · intro h
    obtain ⟨r, read, h⟩ := exists_of_bind_eq_ok h
    rw [Reading.finish_eq] at h
    obtain ⟨q, hq, h⟩ := exists_of_bind_eq_ok h
    obtain ⟨q₀, h₀, put⟩ := (run q).mp ⟨r, read, hq⟩
    obtain rfl := Except.ok.inj h₀
    exact ⟨q, Reading.foldlM_put_eq_ok_iff.mp put, h⟩
  · rintro ⟨q, holds, h⟩
    obtain ⟨r, read, hq⟩ := (run q).mpr ⟨{}, rfl, Reading.foldlM_put_eq_ok_iff.mpr holds⟩
    rw [ofWords, read]
    show r.finish sub = _
    rw [Reading.finish_eq, hq]
    exact h

/-- **Which words are read, and as what**: those that spell items which go together, as the command
that finishes what the items say. -/
theorem Command.ofWords_eq_ok_iff {sub : Subcommand} {words : List String} {command : Command} :
    ofWords sub words = .ok command ↔
      ∃ items q, Taken sub words items ∧ Reading.Holds items q ∧ q.finish sub = .ok command := by
  constructor
  · intro h
    obtain ⟨items, -, -, taken, -⟩ := exists_taken_of_ofWords h
    obtain ⟨q, holds, h⟩ := (ofWords_eq_ok_iff_of_taken taken).mp h
    exact ⟨items, q, taken, holds, h⟩
  · rintro ⟨items, q, taken, holds, h⟩
    exact (ofWords_eq_ok_iff_of_taken taken).mpr ⟨q, holds, h⟩

end ProcessLogic.Cli
