import ProcessLogic.Proofs.Engine.Answer
import ProcessLogic.Proofs.Engine.Outcome
import ProcessLogic.Proofs.Text.Offset

/-!
# Replies are lines

An engine may be asked for any number of replies, with messages sent to it in between.  Each reply
is one line of output, decided by this line alone, and what is left over is the output behind the
line.  So a line that is no text, or no reply, costs one reply and no more, and once the lines are
used up there is no reply.

`Framed` says what the lines of some output are, `Dialogue.framed` what is left of them after a
dialogue, and `exists_receive` is the one step it rests on.
-/

namespace ProcessLogic

open Connection (newline decodeText? decodeLine)

/-- The lines of some output: each up to a newline, and what stands behind the last newline is one
more, unless it is empty. -/
inductive Framed : List UInt8 → List (List UInt8) → Prop
  | nil : Framed [] []
  | unended {line : List UInt8} (nonempty : line ≠ []) (whole : newline ∉ line) :
      Framed line [line]
  | ended {line output : List UInt8} {lines : List (List UInt8)} (whole : newline ∉ line)
      (h : Framed output lines) : Framed (line ++ newline :: output) (line :: lines)

namespace Framed

variable {output : List UInt8} {lines lines' : List (List UInt8)}

/-- A byte that is no newline begins a line, or goes in front of the first one. -/
theorem exists_cons {byte : UInt8} (hbyte : byte ≠ newline) (h : Framed output lines) :
    ∃ lines', Framed (byte :: output) lines' := by
  have whole {line : List UInt8} (h : newline ∉ line) : newline ∉ byte :: line :=
    List.not_mem_cons_of_ne_of_not_mem hbyte.symm h
  cases h with
  | nil => exact ⟨[[byte]], .unended (List.cons_ne_nil _ _) (whole List.not_mem_nil)⟩
  | unended _ h => exact ⟨[byte :: output], .unended (List.cons_ne_nil _ _) (whole h)⟩
  | @ended line output lines h rest => exact ⟨(byte :: line) :: lines, .ended (whole h) rest⟩

theorem exists_framed (output : List UInt8) : ∃ lines, Framed output lines := by
  induction output with
  | nil => exact ⟨[], .nil⟩
  | cons byte output ih =>
      obtain ⟨lines, h⟩ := ih
      by_cases hbyte : byte = newline
      · exact ⟨[] :: lines, hbyte ▸ .ended List.not_mem_nil h⟩
      · exact h.exists_cons hbyte

theorem unique (h : Framed output lines) (h' : Framed output lines') : lines' = lines := by
  induction h generalizing lines' with
  | nil =>
      generalize same : ([] : List UInt8) = output at h'
      cases h' with
      | nil => rfl
      | unended nonempty _ => exact absurd same.symm nonempty
      | ended _ _ => exact absurd same.symm (List.append_ne_nil_of_right_ne_nil _ (by simp))
  | @unended line nonempty whole =>
      generalize same : line = output at h'
      cases h' with
      | nil => exact absurd same nonempty
      | unended _ _ => rfl
      | ended _ _ => exact absurd (same ▸ by simp) whole
  | @ended line output lines whole _ ih =>
      generalize same : line ++ newline :: output = output' at h'
      cases h' with
      | nil => exact absurd same (List.append_ne_nil_of_right_ne_nil _ (by simp))
      | unended _ whole' => exact absurd (same ▸ by simp) whole'
      | ended whole' rest =>
          have first := congrArg firstLine same
          rw [firstLine_append, firstLine_append, firstLine_eq_self whole,
            firstLine_eq_self whole'] at first
          subst first
          obtain rfl := (List.cons.inj (List.append_cancel_left same)).2
          rw [ih rest]

theorem existsUnique (output : List UInt8) : ∃! lines, Framed output lines := by
  obtain ⟨lines, h⟩ := exists_framed output
  exact ⟨lines, h, fun _ h' => h.unique h'⟩

end Framed

/-! ### What a line comes to -/

/-- What a line of output comes to. -/
inductive Means (line : List UInt8) : Except EngineError Reply → Prop
  | notText (h : ∀ text, utf8 text ≠ line) : Means line (.error .notText)
  | protocol {text : String} (spelled : utf8 text = line) (h : Reply.read? text = none) :
      Means line (.error .protocol)
  | reply {text : String} {reply : Reply} (spelled : utf8 text = line)
      (h : Reply.read? text = some reply) : Means line (.ok reply)

theorem decodeText?_eq_some_iff {line : List UInt8} {text : String} :
    decodeText? line = some text ↔ utf8 text = line := by
  rw [decodeText?, String.fromUTF8?, utf8]
  constructor
  · intro h
    split at h
    · cases h
      rfl
    · cases h
  · rintro rfl
    exact dif_pos text.isValidUTF8

/-- A line comes to what it is decoded as. -/
theorem means_iff {line : List UInt8} {outcome : Except EngineError Reply} :
    Means line outcome ↔ decodeLine line = outcome := by
  constructor
  · intro h
    rw [decodeLine]
    cases h with
    | notText h =>
        cases found : decodeText? line with
        | none => rfl
        | some text => exact absurd (decodeText?_eq_some_iff.mp found) (h text)
    | protocol spelled h =>
        rw [decodeText?_eq_some_iff.mpr spelled]
        dsimp only
        rw [h]
    | reply spelled h =>
        rw [decodeText?_eq_some_iff.mpr spelled]
        dsimp only
        rw [h]
  · rintro rfl
    rw [decodeLine]
    cases found : decodeText? line with
    | none =>
        refine .notText fun text spelled => ?_
        rw [decodeText?_eq_some_iff.mpr spelled] at found
        cases found
    | some text =>
        have spelled := decodeText?_eq_some_iff.mp found
        dsimp only
        cases read : Reply.read? text with
        | none => exact .protocol spelled read
        | some reply => exact .reply spelled read

theorem Means.unique {line : List UInt8} {outcome outcome' : Except EngineError Reply}
    (h : Means line outcome) (h' : Means line outcome') : outcome' = outcome :=
  (means_iff.mp h').symm.trans (means_iff.mp h)

theorem Means.ne_noReply {line : List UInt8} {outcome : Except EngineError Reply}
    (h : Means line outcome) : outcome ≠ .error .noReply := by
  cases h <;> nofun

/-! ### One line after the other -/

namespace Connection

variable {p q : Connection} {lines : List (List UInt8)}

/-- A line that is ended is received, and the output behind it is left. -/
theorem receive_of_ended {line rest : List UInt8} (whole : newline ∉ line)
    (split : p.unread = line ++ newline :: rest) :
    p.receive = some (decodeLine line, { p with unread := rest }) := by
  have inside := bne_newline_of_mem whole
  have front : p.unread.takeWhile (· != newline) = line := by
    rw [split, List.takeWhile_append_of_pos inside, List.takeWhile_cons_of_neg (by simp),
      List.append_nil]
  have back : p.unread.dropWhile (· != newline) = newline :: rest := by
    rw [split, List.dropWhile_append_of_pos inside, List.dropWhile_cons_of_neg (by simp)]
  rw [receive, back]
  dsimp only
  rw [front]

/-- If the engine closes its output, what is left behind the last newline is received as a line, and
nothing is no reply. -/
theorem receive_of_unended (closes : p.conduct.closes = true) (whole : newline ∉ p.unread) :
    p.receive = some (if p.unread = [] then .error .noReply else decodeLine p.unread,
      { p with unread := [] }) := by
  have back : p.unread.dropWhile (· != newline) = [] :=
    List.dropWhile_eq_nil_iff.mpr (bne_newline_of_mem whole)
  rw [receive, back, closes]
  obtain ⟨conduct, sent, unread⟩ := p
  cases unread with
  | nil => rfl
  | cons byte rest => rfl

/-- One reply is the next line, if there is one, and leaves the lines behind it. -/
theorem exists_receive (closes : p.conduct.closes = true) (h : Framed p.unread lines) :
    ∃ outcome rest, p.receive = some (outcome, { p with unread := rest }) ∧
      (outcome = .error .noReply ↔ lines = []) ∧
      (∀ line ∈ lines.head?, Means line outcome) ∧
      Framed rest lines.tail ∧
      (rest = [] ∨ ∃ line ∈ lines.head?, p.unread = line ++ newline :: rest) := by
  generalize unread : p.unread = output at h
  cases h with
  | nil =>
      refine ⟨_, [], receive_of_unended closes (by simp [unread]), ?_, nofun, .nil, .inl rfl⟩
      simp [unread]
  | unended nonempty whole =>
      have means : Means output (decodeLine output) := means_iff.mpr rfl
      refine ⟨decodeLine output, [], ?_, ?_, ?_, .nil, .inl rfl⟩
      · rw [receive_of_unended closes (unread ▸ whole), unread, if_neg nonempty]
      · simp [means.ne_noReply]
      · simpa using means
  | @ended line output lines whole rest =>
      have means : Means line (decodeLine line) := means_iff.mpr rfl
      refine ⟨decodeLine line, output, receive_of_ended whole unread, ?_, ?_, rest,
        .inr ⟨line, rfl, rfl⟩⟩
      · simp [means.ne_noReply]
      · simpa using means

/-- From one state of an engine to another, by messages and replies in any order; these are the
outcomes of the replies. -/
inductive Dialogue (p : Connection) : List (Except EngineError Reply) → Connection → Prop
  | start : Dialogue p [] p
  | send {outcomes : List (Except EngineError Reply)} {q q' : Connection} {request : Request}
      (d : Dialogue p outcomes q) (h : q.send request = .ok q') : Dialogue p outcomes q'
  | receive {outcomes : List (Except EngineError Reply)} {outcome : Except EngineError Reply}
      {q q' : Connection} (d : Dialogue p outcomes q) (h : q.receive = some (outcome, q')) :
      Dialogue p (outcomes ++ [outcome]) q'

/-- Messages leave the output alone. -/
theorem send_eq_ok {request : Request} (h : p.send request = .ok q) :
    q.conduct = p.conduct ∧ q.unread = p.unread := by
  rw [send] at h
  split at h
  · cases h
    exact ⟨rfl, rfl⟩
  · cases h

/-- What is left of the output after as many replies, of a connection that closes. -/
structure Rest (p : Connection) (lines : List (List UInt8)) (count : Nat) (q : Connection) :
    Prop where
  closes : q.conduct.closes = true
  /-- What is left are the lines that have not been received. -/
  framed : Framed q.unread (lines.drop count)
  /-- What is gone are the others, each to its end. -/
  split : q.unread = [] ∨ p.unread = (lines.take count).flatMap (· ++ [newline]) ++ q.unread

theorem Rest.receive {count : Nat} {outcome : Except EngineError Reply} {q' : Connection}
    (r : Rest p lines count q) (h : q.receive = some (outcome, q')) :
    Rest p lines (count + 1) q' := by
  obtain ⟨_, rest, received, -, -, framed, split⟩ := exists_receive r.closes r.framed
  rw [h] at received
  cases received
  refine ⟨r.closes, by rwa [List.tail_drop] at framed, ?_⟩
  rcases split with none | ⟨line, next, ends⟩
  · exact .inl none
  · rw [List.head?_drop] at next
    rcases r.split with used | kept
    · rw [used] at ends
      exact absurd ends.symm (List.append_ne_nil_of_right_ne_nil _ (List.cons_ne_nil _ _))
    · refine .inr ?_
      rw [List.take_add_one, Option.mem_def.mp next, kept, ends]
      simp

/-- After a dialogue, the output that is left is that behind the lines that were received. -/
theorem Dialogue.rest {outcomes : List (Except EngineError Reply)}
    (closes : p.conduct.closes = true) (framed : Framed p.unread lines)
    (d : Dialogue p outcomes q) : Rest p lines outcomes.length q := by
  induction d with
  | start => exact ⟨closes, framed, .inr rfl⟩
  | send _ h ih =>
      obtain ⟨conduct, unread⟩ := send_eq_ok h
      exact ⟨conduct ▸ ih.closes, unread ▸ ih.framed, unread ▸ ih.split⟩
  | receive _ h ih =>
      rw [List.length_append]
      exact ih.receive h

/-- **Replies are lines.**  The output of an engine falls into lines in one way.  After any messages
and replies, the next reply is there if there is a line for it, and it is what this line means and
nothing else, whatever the lines before it came to.  What is left of the output are the lines that
have not been received: unless nothing is left, what is gone are the lines received so far, each
with its newline. -/
theorem receive_framed (p : Connection) (closes : p.conduct.closes = true) :
    (∃! lines, Framed p.unread lines) ∧
    ∀ lines outcomes q, Framed p.unread lines → Dialogue p outcomes q →
      (∃ outcome rest, q.receive = some (outcome, { q with unread := rest }) ∧
        (outcome = .error .noReply ↔ lines.length ≤ outcomes.length) ∧
        ∀ line, lines[outcomes.length]? = some line →
          ∀ outcome', Means line outcome' ↔ outcome' = outcome) ∧
      Framed q.unread (lines.drop outcomes.length) ∧
      (q.unread = [] ∨
        p.unread = (lines.take outcomes.length).flatMap (· ++ [newline]) ++ q.unread) := by
  refine ⟨Framed.existsUnique p.unread, fun lines outcomes q framed d => ?_⟩
  have r := d.rest closes framed
  obtain ⟨outcome, rest, received, noReply, means, -, -⟩ := exists_receive r.closes r.framed
  refine ⟨⟨outcome, rest, received, ?_, fun line next outcome' => ?_⟩, r.framed, r.split⟩
  · rw [noReply, List.drop_eq_nil_iff]
  · have meant : Means line outcome := means line (List.head?_drop ▸ next)
    exact ⟨meant.unique, fun same => same ▸ meant⟩

/-- The first line is empty, the second is no text, and behind the third there is no newline.  A
message is sent in between. -/
theorem receive_framed_unended :
    let line : List UInt8 := [91, 116, 114, 117, 101, 93]
    let conduct : Conduct := { output := newline :: 255 :: newline :: line }
    let p : Connection := { conduct }
    let q : Connection := { conduct, sent := [(Request.program "").line], unread := line }
    (p.conduct.closes = true ∧ Framed p.unread [[], [255], line] ∧
      Dialogue p [.error .protocol, .error .notText] q) ∧
    ∃ rest, q.receive = some (.ok ⟨.bool true⟩, { q with unread := rest }) ∧
      Framed q.unread [line] := by
  intro line conduct p q
  have none : newline ∉ line := by decide
  have framed : Framed p.unread [[], [255], line] :=
    .ended List.not_mem_nil <| .ended (show newline ∉ [255] by decide) <| .unended (by decide) none
  have empty : decodeLine [] = .error .protocol :=
    means_iff.mp (.protocol (show utf8 "" = [] from rfl) Reply.read?_empty)
  have noText : decodeLine [255] = .error .notText := by
    rw [decodeLine, show decodeText? [255] = Option.none by decide]
  have told : Connection.send { p with unread := 255 :: newline :: line } (.program "") =
      .ok { q with unread := 255 :: newline :: line } := rfl
  have d : Dialogue p [decodeLine [], decodeLine [255]] q :=
    ((Dialogue.start.receive rfl).send told).receive rfl
  rw [empty, noText] at d
  have layout : Layout (Tree.tokens (.array [.bool true])) "[true]".toList :=
    .token (t := .beginArray) trivial <| .token (t := .bool true) trivial <|
      .token (t := .endArray) trivial .nil
  have answer : Means line (.ok ⟨.bool true⟩) :=
    .reply (show utf8 "[true]" = line from rfl) (Reply.read?_eq_some_iff.mpr ⟨_, layout, rfl⟩)
  obtain ⟨-, replies⟩ := receive_framed p rfl
  obtain ⟨⟨outcome, rest, received, -, means⟩, left, -⟩ := replies _ _ q framed d
  obtain rfl := (means line rfl _).mp answer
  exact ⟨⟨rfl, framed, d⟩, rest, received, left⟩

end Connection

end ProcessLogic
