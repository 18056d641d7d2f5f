import ProcessLogic.Json.Spelling

/-!
# Reading documents

The second half of reading: a machine takes the tokens one by one, and keeps the arrays and
objects that are still open on a stack.  There is no recursion over the nesting, so documents may
be nested to any depth.

## Why it is right

The state of the machine is all it has read.  `State.tokens` writes a state out as the tokens
that lead to it, and a step appends the token it takes.  So a document that comes out at the end
is spelled with exactly the tokens that went in.  Conversely, wherever a value may come, the
tokens of a document lead to the state that has completed it.  Together, `ofTokens?_eq_some_iff`
says that reading tokens undoes `Tree.tokens`, and nothing else.
-/

namespace ProcessLogic

namespace Reader

/-- An array or object that is still open, with what has been completed inside it, latest
first. -/
inductive Frame where
  | array (done : List Tree)
  /-- An object of which a key has been read, and whose value comes next. -/
  | object (done : List (Quoted × Tree)) (key : Quoted)
deriving Repr

/-- What may come next. -/
inductive Phase where
  /-- A value. -/
  | value
  /-- A value or the end of the array that has just begun. -/
  | firstItem
  /-- A key of an object. -/
  | key (done : List (Quoted × Tree))
  /-- A key or the end of the object that has just begun. -/
  | firstKey
  /-- The colon behind a key. -/
  | colon (done : List (Quoted × Tree)) (key : Quoted)
  /-- A comma or the end of the innermost array or object; a value has just been completed. -/
  | after (last : Tree)
deriving Repr

/-- The innermost open array or object comes first. -/
structure State where
  stack : List Frame := []
  phase : Phase := .value
deriving Repr

/-- The state once a value begins, where one may begin. -/
def State.begin (stack : List Frame) : Token → Option State
  | .beginArray => some ⟨.array [] :: stack, .firstItem⟩
  | .beginObject => some ⟨stack, .firstKey⟩
  | .null => some ⟨stack, .after .null⟩
  | .bool value => some ⟨stack, .after (.bool value)⟩
  | .number value => some ⟨stack, .after (.number value)⟩
  | .string value => some ⟨stack, .after (.string value)⟩
  | _ => none

/-- Takes one token. -/
def State.step : State → Token → Option State
  | ⟨stack, .value⟩, t => State.begin stack t
  | ⟨.array [] :: stack, .firstItem⟩, .endArray => some ⟨stack, .after (.array [])⟩
  | ⟨stack, .firstItem⟩, t => State.begin stack t
  | ⟨stack, .firstKey⟩, .endObject => some ⟨stack, .after (.object [])⟩
  | ⟨stack, .firstKey⟩, .string key => some ⟨stack, .colon [] key⟩
  | ⟨stack, .key done⟩, .string key => some ⟨stack, .colon done key⟩
  | ⟨stack, .colon done key⟩, .colon => some ⟨.object done key :: stack, .value⟩
  | ⟨.array done :: stack, .after last⟩, .comma =>
      some ⟨.array (last :: done) :: stack, .value⟩
  | ⟨.array done :: stack, .after last⟩, .endArray =>
      some ⟨stack, .after (.array (last :: done).reverse)⟩
  | ⟨.object done key :: stack, .after last⟩, .comma =>
      some ⟨stack, .key ((key, last) :: done)⟩
  | ⟨.object done key :: stack, .after last⟩, .endObject =>
      some ⟨stack, .after (.object ((key, last) :: done).reverse)⟩
  | _, _ => none

/-- Takes tokens one after the other. -/
def State.run (s : State) (tokens : List Token) : Option State := tokens.foldlM State.step s

/-- The document, if one has been completed and nothing is open. -/
def State.result? : State → Option Tree
  | ⟨[], .after last⟩ => some last
  | _ => none

/-! ### What a state has read -/

/-- The beginning of an array and its completed items, with a comma behind each. -/
def openItems (done : List Tree) : List Token :=
  .beginArray :: done.reverse.flatMap fun item => item.tokens ++ [.comma]

/-- The beginning of an object and its completed members, with a comma behind each. -/
def openMembers (done : List (Quoted × Tree)) : List Token :=
  .beginObject :: done.reverse.flatMap fun member => Tree.memberTokens member ++ [.comma]

def Frame.tokens : Frame → List Token
  | .array done => openItems done
  | .object done key => openMembers done ++ [.string key, .colon]

def Phase.tokens : Phase → List Token
  | .value | .firstItem => []
  | .key done => openMembers done
  | .firstKey => [.beginObject]
  | .colon done name => openMembers done ++ [.string name]
  | .after last => last.tokens

/-- The tokens that lead to a state. -/
def State.tokens (s : State) : List Token := s.stack.reverse.flatMap Frame.tokens ++ s.phase.tokens

theorem openItems_nil : openItems [] = [.beginArray] := rfl

theorem openMembers_nil : openMembers [] = [.beginObject] := rfl

theorem openItems_cons (last : Tree) (done : List Tree) :
    openItems (last :: done) = openItems done ++ last.tokens ++ [.comma] := by
  simp [openItems]

theorem openMembers_cons (key : Quoted) (last : Tree) (done : List (Quoted × Tree)) :
    openMembers ((key, last) :: done)
      = openMembers done ++ .string key :: .colon :: last.tokens ++ [.comma] := by
  simp [openMembers, Tree.memberTokens]

theorem tokens_array_nil : Tree.tokens (.array []) = [.beginArray, .endArray] := rfl

theorem tokens_object_nil : Tree.tokens (.object []) = [.beginObject, .endObject] := rfl

theorem tokens_array (last : Tree) (done : List Tree) :
    Tree.tokens (.array (done.reverse ++ [last]))
      = openItems done ++ last.tokens ++ [.endArray] := by
  rw [Tree.tokens, Tree.tokensOfItems_eq_map, List.map_append, List.map_singleton,
    Tree.intercalate_append_singleton]
  simp [openItems]

theorem tokens_object (key : Quoted) (last : Tree) (done : List (Quoted × Tree)) :
    Tree.tokens (.object (done.reverse ++ [(key, last)]))
      = openMembers done ++ .string key :: .colon :: last.tokens ++ [.endObject] := by
  rw [Tree.tokens, Tree.tokensOfMembers_eq_map, List.map_append, List.map_singleton,
    Tree.intercalate_append_singleton]
  simp [openMembers, Tree.memberTokens]

theorem State.tokens_of_begin {stack : List Frame} {t : Token} {s : State}
    (h : State.begin stack t = some s) : s.tokens = stack.reverse.flatMap Frame.tokens ++ [t] := by
  cases t <;> simp only [State.begin, Option.some.injEq, reduceCtorEq] at h <;> subst h <;>
    simp [State.tokens, Phase.tokens, Frame.tokens, openItems_nil, Tree.tokens]

/-- A step appends the token it takes. -/
theorem State.tokens_of_step {s s' : State} {t : Token} (h : s.step t = some s') :
    s'.tokens = s.tokens ++ [t] := by
  unfold State.step at h
  split at h
  case h_1 => simpa [State.tokens, Phase.tokens] using State.tokens_of_begin h
  case h_3 => simpa [State.tokens, Phase.tokens] using State.tokens_of_begin h
  case h_12 => simp at h
  all_goals
    obtain rfl := Option.some.inj h
    simp [State.tokens, Phase.tokens, Frame.tokens, openItems_nil, openItems_cons,
      openMembers_nil, openMembers_cons, tokens_array_nil, tokens_array, tokens_object_nil,
      tokens_object]

theorem State.tokens_of_run {s s' : State} {tokens : List Token} (h : s.run tokens = some s') :
    s'.tokens = s.tokens ++ tokens := by
  induction tokens generalizing s with
  | nil =>
      obtain rfl := Option.some.inj h
      rw [List.append_nil]
  | cons t rest ih =>
      rw [State.run, List.foldlM_cons] at h
      obtain ⟨next, hstep, hrun⟩ := Option.bind_eq_some_iff.mp h
      rw [ih hrun, State.tokens_of_step hstep, List.append_assoc, List.singleton_append]

theorem State.tokens_of_result? {s : State} {t : Tree} (h : s.result? = some t) :
    s.tokens = t.tokens := by
  unfold State.result? at h
  split at h
  · obtain rfl := Option.some.inj h
    rfl
  · simp at h

/-! ### Where a value may come, the tokens of a document complete it -/

theorem State.run_cons {s s' : State} {t : Token} (h : s.step t = some s') (rest : List Token) :
    s.run (t :: rest) = s'.run rest := by
  rw [State.run, List.foldlM_cons, h]
  rfl

/-- Wherever a value may come, the tokens of a document lead to the state that has completed
it. -/
def Completes (t : Tree) : Prop :=
  ∀ stack rest, State.run ⟨stack, .value⟩ (t.tokens ++ rest) = State.run ⟨stack, .after t⟩ rest

/-- The first item of an array is read like any other value. -/
theorem State.run_firstItem (t : Tree) (stack : List Frame) (rest : List Token) :
    State.run ⟨stack, .firstItem⟩ (t.tokens ++ rest)
      = State.run ⟨stack, .value⟩ (t.tokens ++ rest) := by
  cases t <;> simp [State.run, Tree.tokens, State.step]

theorem State.run_after_item {more : List Tree} (h : ∀ item ∈ more, Completes item)
    (last : Tree) (done : List Tree) (stack : List Frame) (rest : List Token) :
    State.run ⟨.array done :: stack, .after last⟩
        (more.flatMap (fun item => .comma :: item.tokens) ++ .endArray :: rest)
      = State.run ⟨stack, .after (.array (done.reverse ++ last :: more))⟩ rest := by
  induction more generalizing last done with
  | nil => simp [State.run, State.step]
  | cons item more ih =>
      rw [List.flatMap_cons, List.append_assoc, List.cons_append, State.run_cons rfl,
        h item List.mem_cons_self, ih fun i hi => h i (List.mem_cons_of_mem _ hi)]
      simp

theorem State.run_after_member {more : List (Quoted × Tree)}
    (h : ∀ member ∈ more, Completes member.2) (key : Quoted) (last : Tree)
    (done : List (Quoted × Tree)) (stack : List Frame) (rest : List Token) :
    State.run ⟨.object done key :: stack, .after last⟩
        (more.flatMap (fun member => .comma :: Tree.memberTokens member) ++ .endObject :: rest)
      = State.run ⟨stack, .after (.object (done.reverse ++ (key, last) :: more))⟩ rest := by
  induction more generalizing key last done with
  | nil => simp [State.run, State.step]
  | cons member more ih =>
      rw [List.flatMap_cons, List.append_assoc, List.cons_append, State.run_cons rfl,
        Tree.memberTokens, List.cons_append, State.run_cons rfl, List.cons_append,
        State.run_cons rfl, h member List.mem_cons_self,
        ih fun m hm => h m (List.mem_cons_of_mem _ hm)]
      simp

theorem completes_array {items : List Tree} (h : ∀ item ∈ items, Completes item) :
    Completes (.array items) := by
  intro stack rest
  cases items with
  | nil => rfl
  | cons item more =>
      rw [Tree.tokens, Tree.tokensOfItems_eq_map, List.map_cons, Tree.intercalate_cons,
        List.cons_append, State.run_cons rfl, List.append_assoc, List.append_assoc,
        State.run_firstItem, h item List.mem_cons_self]
      exact State.run_after_item (fun i hi => h i (List.mem_cons_of_mem _ hi)) item [] stack rest

theorem completes_object {members : List (Quoted × Tree)}
    (h : ∀ member ∈ members, Completes member.2) : Completes (.object members) := by
  intro stack rest
  cases members with
  | nil => rfl
  | cons member more =>
      rw [Tree.tokens, Tree.tokensOfMembers_eq_map, List.map_cons, Tree.intercalate_cons,
        List.cons_append, State.run_cons rfl, List.append_assoc, List.append_assoc,
        Tree.memberTokens, List.cons_append, State.run_cons rfl, List.cons_append,
        State.run_cons rfl, h member List.mem_cons_self]
      exact State.run_after_member (fun m hm => h m (List.mem_cons_of_mem _ hm)) member.1 member.2
        [] stack rest

mutual

theorem completes : (t : Tree) → Completes t
  | .null | .bool _ | .number _ | .string _ => fun _ _ => rfl
  | .array items => completes_array (completes_items items)
  | .object members => completes_object (completes_members members)

theorem completes_items : (items : List Tree) → ∀ item ∈ items, Completes item
  | [] => by simp
  | item :: rest => List.forall_mem_cons.mpr ⟨completes item, completes_items rest⟩

theorem completes_members : (members : List (Quoted × Tree)) →
    ∀ member ∈ members, Completes member.2
  | [] => by simp
  | (_, value) :: rest => List.forall_mem_cons.mpr ⟨completes value, completes_members rest⟩

end

end Reader

namespace Tree

/-- Puts tokens together to one document. -/
def ofTokens? (tokens : List Token) : Option Tree := do
  (← Reader.State.run {} tokens).result?

/-- Reading tokens undoes spelling a document, and nothing else. -/
theorem ofTokens?_eq_some_iff {tokens : List Token} {t : Tree} :
    ofTokens? tokens = some t ↔ tokens = t.tokens := by
  constructor
  · intro h
    obtain ⟨s, hrun, hresult⟩ := Option.bind_eq_some_iff.mp h
    rw [← Reader.State.tokens_of_result? hresult, Reader.State.tokens_of_run hrun]
    rfl
  · rintro rfl
    rw [ofTokens?, ← List.append_nil t.tokens, Reader.completes t]
    rfl

/-- Reads a text as one document. -/
def read? (text : String) : Option Tree := do
  ofTokens? (← Token.lex text.toList)

end Tree

end ProcessLogic
