import ProcessLogic.Proofs.Engine.Settings

/-!
# Variables as they were written

The environment has one text for all arguments, and one for the time limit.  Whoever writes
arguments with blanks between them gets back these arguments, and whoever writes a number gets back
the number, whatever blanks are used.  Of any other text the arguments are all there is, but for the
blanks.
-/

namespace ProcessLogic.Config

variable {lookup : String → Option String} {value : String}

theorem toList_args_ofLookup (set : lookup argsVariable = some value) :
    (ofLookup lookup).args.map String.toList = words value.toList := by
  rw [args_ofLookup, set, Option.elim_some, List.map_map]
  simp

/-- Arguments are those that were put together. -/
theorem args_of_joined {args : List String} {front text back : List Char}
    (hargs : ∀ arg ∈ args, arg ≠ "" ∧ ∀ c ∈ arg.toList, isBlank c = false)
    (hfront : ∀ c ∈ front, isBlank c = true) (hback : ∀ c ∈ back, isBlank c = true)
    (j : Joined (args.map String.toList) text)
    (set : lookup argsVariable = some (.ofList (front ++ (text ++ back)))) :
    (ofLookup lookup).args = args := by
  refine List.map_injective_iff.mpr (fun _ _ => String.toList_injective) ?_
  rw [toList_args_ofLookup set, String.toList_ofList]
  refine j.words_eq (List.forall_mem_map.mpr fun arg harg => ?_) hfront hback
  obtain ⟨nonempty, visible⟩ := hargs arg harg
  exact ⟨fun none => nonempty (String.toList_eq_nil_iff.mp none), visible⟩

/-- Arguments are no blanks, and not empty. -/
theorem visible_of_mem_args (set : lookup argsVariable = some value) {arg : String}
    (h : arg ∈ (ofLookup lookup).args) : arg ≠ "" ∧ ∀ c ∈ arg.toList, isBlank c = false := by
  have mem : arg.toList ∈ words value.toList := by
    rw [← toList_args_ofLookup set]
    exact List.mem_map_of_mem h
  obtain ⟨nonempty, visible⟩ := (spaced_iff.mpr rfl).of_mem mem
  refine ⟨?_, visible⟩
  rintro rfl
  exact nonempty rfl

theorem join_args (set : lookup argsVariable = some value) :
    String.join (ofLookup lookup).args = .ofList (value.toList.filter fun c => !isBlank c) := by
  rw [← String.toList_inj, String.toList_join, String.toList_ofList,
    ← (spaced_iff.mpr (toList_args_ofLookup set).symm).flatten_eq, List.flatMap_def]

theorem timeoutSecs_of_spelling {n : UInt64} {front spelling back : List Char}
    (hfront : ∀ c ∈ front, isBlank c = true) (hback : ∀ c ∈ back, isBlank c = true)
    (spelled : Decimal.Spelling n spelling)
    (set : lookup timeoutVariable = some (.ofList (front ++ (spelling ++ back)))) :
    (ofLookup lookup).timeoutSecs = n := by
  have padded : Decimal.Padded n (front ++ (spelling ++ back)) :=
    ⟨front, spelling, back, rfl, spelled, hfront, hback⟩
  rw [timeoutSecs_ofLookup, set, Option.bind_some, String.toList_ofList,
    Decimal.word?_trim_eq_some_iff.mpr padded, Option.getD_some]

/-- **Variables are read as they were written.**  Arguments that are not empty and have no blanks,
with any blanks between every two of them and around them, are the arguments of the configuration.
Whatever the variable for the arguments is, no argument is empty or has a blank, and one after the
other they are the value of the variable without its blanks.  A number of one word in the variable
for the time limit, with its own digits or any other spelling and with any blanks around it, is the
time limit. -/
theorem ofLookup_as_written (lookup : String → Option String) :
    (∀ (args : List String) (front text back : List Char),
      (∀ arg ∈ args, arg ≠ "" ∧ ∀ c ∈ arg.toList, isBlank c = false) →
      (∀ c ∈ front, isBlank c = true) → (∀ c ∈ back, isBlank c = true) →
      Joined (args.map String.toList) text →
      lookup argsVariable = some (.ofList (front ++ (text ++ back))) →
      (ofLookup lookup).args = args) ∧
    (∀ value, lookup argsVariable = some value →
      (∀ arg ∈ (ofLookup lookup).args, arg ≠ "" ∧ ∀ c ∈ arg.toList, isBlank c = false) ∧
      String.join (ofLookup lookup).args =
        .ofList (value.toList.filter fun c => !isBlank c)) ∧
    ∀ (n : UInt64) (front spelling back : List Char),
      spelling = Decimal.digits n.toNat ∨ Decimal.Spelling n spelling →
      (∀ c ∈ front, isBlank c = true) → (∀ c ∈ back, isBlank c = true) →
      lookup timeoutVariable = some (.ofList (front ++ (spelling ++ back))) →
      (ofLookup lookup).timeoutSecs = n := by
  refine ⟨fun args front text back hargs hf hb j set => args_of_joined hargs hf hb j set,
    fun value set => ⟨fun arg h => visible_of_mem_args set h, join_args set⟩, ?_⟩
  rintro n front spelling back (rfl | spelled) hf hb set
  · exact timeoutSecs_of_spelling hf hb (.ofDigits n) set
  · exact timeoutSecs_of_spelling hf hb spelled set

/-- Wide blanks around and between two arguments, and the longest time limit. -/
theorem ofLookup_as_written_wide :
    let lookup := fun name =>
      if name = argsVariable then some "\u3000--level\u2003\n-3\t"
      else if name = timeoutVariable then some "\u00a018446744073709551615\r\n" else none
    (ofLookup lookup).args = ["--level", "-3"] ∧
      String.join (ofLookup lookup).args = "--level-3" ∧
      (ofLookup lookup).timeoutSecs = 18446744073709551615 := by
  intro lookup
  obtain ⟨written, taken, number⟩ := ofLookup_as_written lookup
  have blank {text : List Char} (h : text.all isBlank = true) : ∀ c ∈ text, isBlank c = true :=
    List.all_eq_true.mp h
  have visible {arg : String} (nonempty : arg ≠ "") (h : arg.toList.any isBlank = false) :
      arg ≠ "" ∧ ∀ c ∈ arg.toList, isBlank c = false :=
    ⟨nonempty, fun c hc => Bool.eq_false_iff.mpr (List.any_eq_false.mp h c hc)⟩
  have args : ∀ arg ∈ ["--level", "-3"], arg ≠ "" ∧ ∀ c ∈ arg.toList, isBlank c = false :=
    List.forall_mem_cons.mpr ⟨visible (by decide) rfl,
      List.forall_mem_singleton.mpr (visible (by decide) rfl)⟩
  have joined : Joined (["--level", "-3"].map String.toList)
      ("--level".toList ++ ("\u2003\n".toList ++ "-3".toList)) :=
    .cons _ (by decide) (blank rfl) (.singleton _)
  refine ⟨?_, (taken _ rfl).2, ?_⟩
  · exact written _ "\u3000".toList _ "\t".toList args (blank rfl) (blank rfl) joined rfl
  · exact number _ "\u00a0".toList _ "\r\n".toList (.inl rfl) (blank rfl) (blank rfl) rfl

end ProcessLogic.Config
