import ProcessLogic.Json.Token
import ProcessLogic.Proofs.Text.Stops

/-!
# The spelling of tokens

What a token may look like, said without reading anything: `Token.Grammatical`.  Reading the token
at the front of a text takes such a spelling off it, and takes any such spelling off whatever
follows.  The one proviso concerns numerals, which end where no character can continue them.

Each scanner has two lemmas: `..._sound` says that what it reads was there and is grammatical, and
`..._append` that it reads what is grammatical and leaves the rest.
-/

namespace ProcessLogic

/-! ### Numerals -/

/-- One or more digits. -/
def IsDigits (ds : List Char) : Prop := ds ≠ [] ∧ ∀ c ∈ ds, c.isDigit = true

/-- A zero alone, or digits that do not begin with a zero. -/
def IsWhole (ds : List Char) : Prop := IsDigits ds ∧ (ds.head? = some '0' → ds = ['0'])

/-- What an exponent may look like. -/
structure Exponent.Grammatical (e : Exponent) : Prop where
  marker : isMarker e.marker = true
  sign : ∀ c ∈ e.sign, isSign c = true
  digits : IsDigits e.digits

/-- What a numeral may look like. -/
structure Numeral.Grammatical (n : Numeral) : Prop where
  whole : IsWhole n.whole
  fraction : ∀ c ∈ n.fraction, c.isDigit = true
  exponent : ∀ e ∈ n.exponent, e.Grammatical

namespace Numeral

variable {text rest ds : List Char}

/-- A character that goes on with a numeral. -/
def continues (c : Char) : Bool := c.isDigit || c == '.' || Exponent.isMarker c

def fractionText (ds : List Char) : List Char := if ds.isEmpty then [] else '.' :: ds

def exponentText : Option Exponent → List Char
  | none => []
  | some e => e.text

theorem text_eq (n : Numeral) : n.text = (if n.negative then ['-'] else []) ++
    (n.whole ++ (fractionText n.fraction ++ exponentText n.exponent)) := by
  rw [text, fractionText, List.append_assoc, List.append_assoc]
  rfl

theorem scanDigits_sound (h : scanDigits text = some (ds, rest)) :
    text = ds ++ rest ∧ IsDigits ds := by
  unfold scanDigits at h
  split at h
  · cases h
  · rename_i digits hne
    obtain ⟨rfl, rfl⟩ := by simpa using h
    exact ⟨(List.takeWhile_append_dropWhile).symm, hne, fun c hc => List.mem_takeWhile_imp hc⟩

theorem scanDigits_append (hd : IsDigits ds) (hr : Stops Char.isDigit rest) :
    scanDigits (ds ++ rest) = some (ds, rest) := by
  rw [scanDigits, hr.takeWhile_append hd.2, hr.dropWhile_append hd.2]
  cases ds with
  | nil => exact absurd rfl hd.1
  | cons c tail => rfl

theorem scanWhole_sound (h : scanWhole text = some (ds, rest)) :
    text = ds ++ rest ∧ IsWhole ds := by
  unfold scanWhole at h
  split at h
  · obtain ⟨rfl, rfl⟩ := by simpa using h
    exact ⟨rfl, ⟨by simp, List.forall_mem_singleton.mpr rfl⟩, fun _ => rfl⟩
  · rename_i noZero
    obtain ⟨rfl, digits⟩ := scanDigits_sound h
    refine ⟨rfl, digits, fun zero => ?_⟩
    obtain ⟨tail, rfl⟩ := List.head?_eq_some_iff.mp zero
    exact absurd rfl (noZero _)

theorem scanWhole_append (hd : IsWhole ds) (hr : Stops Char.isDigit rest) :
    scanWhole (ds ++ rest) = some (ds, rest) := by
  unfold scanWhole
  split
  · rename_i more same
    obtain ⟨c, tail, rfl⟩ := List.exists_cons_of_ne_nil hd.1.1
    obtain rfl := (List.cons.inj same).1
    obtain rfl := (List.cons.inj (hd.2 rfl)).2
    rw [← (List.cons.inj same).2]
    rfl
  · exact scanDigits_append hd.1 hr

theorem scanFraction_sound (h : scanFraction text = some (ds, rest)) :
    text = fractionText ds ++ rest ∧ ∀ c ∈ ds, c.isDigit = true := by
  unfold scanFraction at h
  split at h
  · obtain ⟨rfl, digits⟩ := scanDigits_sound h
    rw [fractionText, if_neg (by simpa using digits.1)]
    exact ⟨rfl, digits.2⟩
  · obtain ⟨rfl, rfl⟩ := by simpa using h
    exact ⟨rfl, by simp⟩

theorem scanFraction_append (hd : ∀ c ∈ ds, c.isDigit = true)
    (hr : Stops (fun c => c.isDigit || c == '.') rest) :
    scanFraction (fractionText ds ++ rest) = some (ds, rest) := by
  cases ds with
  | nil =>
      unfold scanFraction
      split
      · rename_i more same
        obtain rfl : rest = '.' :: more := same
        cases hr '.' rfl
      · rfl
  | cons c tail =>
      exact scanDigits_append ⟨by simp, hd⟩ (hr.mono fun c hc => by rw [hc]; rfl)

theorem scanSign_sound (text : List Char) : text = (scanSign text).1.toList ++ (scanSign text).2 ∧
    ∀ c ∈ (scanSign text).1, Exponent.isSign c = true := by
  unfold scanSign
  split
  · split
    · rename_i sign
      exact ⟨rfl, by simpa using sign⟩
    · exact ⟨rfl, by simp⟩
  · exact ⟨rfl, by simp⟩

theorem scanSign_append {sign : Option Char} (hs : ∀ c ∈ sign, Exponent.isSign c = true)
    (hr : Stops Exponent.isSign rest) : scanSign (sign.toList ++ rest) = (sign, rest) := by
  cases sign with
  | some c => simp [scanSign, hs c rfl]
  | none =>
      cases rest with
      | nil => rfl
      | cons c tail => simp [scanSign, hr c rfl]

theorem scanExponent_sound {e : Option Exponent} (h : scanExponent text = some (e, rest)) :
    text = exponentText e ++ rest ∧ ∀ x ∈ e, x.Grammatical := by
  unfold scanExponent at h
  split at h
  · obtain ⟨rfl, rfl⟩ := by simpa using h
    exact ⟨rfl, by simp⟩
  · rename_i c tail
    split at h
    · rename_i marker
      obtain ⟨⟨ds, rest'⟩, hs, he⟩ := Option.map_eq_some_iff.mp h
      obtain ⟨rfl, rfl⟩ := by simpa using he
      obtain ⟨same, digits⟩ := scanDigits_sound hs
      obtain ⟨split, sign⟩ := scanSign_sound tail
      refine ⟨?_, ?_⟩
      · rw [exponentText, Exponent.text, List.cons_append, List.append_assoc, ← same, ← split]
      · intro x hx
        obtain rfl := Option.some.inj hx
        exact ⟨marker, sign, digits⟩
    · obtain ⟨rfl, rfl⟩ := by simpa using h
      exact ⟨rfl, by simp⟩

theorem stops_of_isDigits {p : Char → Bool} (hd : IsDigits ds)
    (sub : ∀ c, c.isDigit = true → p c = false) (rest : List Char) : Stops p (ds ++ rest) := by
  obtain ⟨c, tail, rfl⟩ := List.exists_cons_of_ne_nil hd.1
  exact .cons (sub c (hd.2 c List.mem_cons_self)) _

theorem not_isSign_of_isDigit {c : Char} (h : c.isDigit = true) : Exponent.isSign c = false := by
  rw [Exponent.isSign, Bool.or_eq_false_iff]
  constructor
  · exact beq_false_of_ne fun same => absurd (same ▸ h) (by decide)
  · exact beq_false_of_ne fun same => absurd (same ▸ h) (by decide)

theorem scanExponent_append {e : Option Exponent} (he : ∀ x ∈ e, x.Grammatical)
    (hr : Stops continues rest) : scanExponent (exponentText e ++ rest) = some (e, rest) := by
  cases e with
  | none =>
      rw [exponentText, List.nil_append]
      cases rest with
      | nil => rfl
      | cons c tail =>
          have marker : Exponent.isMarker c = false := (Bool.or_eq_false_iff.mp (hr c rfl)).2
          simp [scanExponent, marker]
  | some x =>
      obtain ⟨marker, sign, digits⟩ := he x rfl
      have stop : Stops Char.isDigit rest := hr.mono fun c hc => by simp [continues, hc]
      have signed : scanSign (x.sign.toList ++ x.digits ++ rest) = (x.sign, x.digits ++ rest) := by
        rw [List.append_assoc]
        exact scanSign_append sign (stops_of_isDigits digits (fun c => not_isSign_of_isDigit) rest)
      rw [exponentText, Exponent.text, List.cons_append, scanExponent, if_pos marker, signed,
        scanDigits_append digits stop, Option.map_some]

theorem scanMinus_sound (text : List Char) :
    text = (if (scanMinus text).1 then ['-'] else []) ++ (scanMinus text).2 := by
  unfold scanMinus
  split
  · rfl
  · rfl

theorem scanMinus_append {negative : Bool} (hr : Stops (· == '-') rest) :
    scanMinus ((if negative then ['-'] else []) ++ rest) = (negative, rest) := by
  cases negative with
  | true => rfl
  | false =>
      unfold scanMinus
      split
      · rename_i more same
        obtain rfl : rest = '-' :: more := same
        cases hr '-' rfl
      · rfl

theorem scan_sound {n : Numeral} (h : scan text = some (n, rest)) :
    text = n.text ++ rest ∧ n.Grammatical := by
  obtain ⟨⟨whole, r₁⟩, h₁, h⟩ := Option.bind_eq_some_iff.mp h
  obtain ⟨⟨fraction, r₂⟩, h₂, h⟩ := Option.bind_eq_some_iff.mp h
  obtain ⟨⟨exponent, r₃⟩, h₃, h⟩ := Option.bind_eq_some_iff.mp h
  obtain ⟨rfl, rfl⟩ := by simpa using h
  obtain ⟨e₁, g₁⟩ := scanWhole_sound h₁
  obtain ⟨e₂, g₂⟩ := scanFraction_sound h₂
  obtain ⟨e₃, g₃⟩ := scanExponent_sound h₃
  refine ⟨?_, g₁, g₂, g₃⟩
  calc
    text = (if (scanMinus text).1 then ['-'] else []) ++ (scanMinus text).2 := scanMinus_sound text
    _ = _ := by
      rw [text_eq, e₁, e₂, e₃]
      simp only [List.append_assoc]

theorem stops_exponentText {p : Char → Bool} {e : Option Exponent} (he : ∀ x ∈ e, x.Grammatical)
    (hp : ∀ c, Exponent.isMarker c = true → p c = false) (hr : Stops p rest) :
    Stops p (exponentText e ++ rest) := by
  cases e with
  | none => exact hr
  | some x => exact .cons (hp _ (he x rfl).marker) _

theorem stops_fractionText {p : Char → Bool} (hp : p '.' = false) (hr : Stops p rest) :
    Stops p (fractionText ds ++ rest) := by
  cases ds with
  | nil => exact hr
  | cons c tail => exact .cons hp _

theorem not_isDigit_of_isMarker {c : Char} (h : Exponent.isMarker c = true) :
    (c.isDigit || c == '.') = false := by
  rcases Bool.or_eq_true_iff.mp h with h | h
  · rw [eq_of_beq h]; rfl
  · rw [eq_of_beq h]; rfl

/-- Any spelling of a numeral is read, up to where no character continues it. -/
theorem scan_append {n : Numeral} (h : n.Grammatical) (hr : Stops continues rest) :
    scan (n.text ++ rest) = some (n, rest) := by
  have hr' : Stops (fun c => c.isDigit || c == '.') rest :=
    hr.mono fun c hc => by rw [continues, hc, Bool.true_or]
  have behindFraction := stops_exponentText h.exponent (fun c => not_isDigit_of_isMarker) hr'
  have behindWhole : Stops Char.isDigit
      (fractionText n.fraction ++ (exponentText n.exponent ++ rest)) :=
    stops_fractionText rfl (behindFraction.mono fun c hc => by rw [hc, Bool.true_or])
  have behindMinus := stops_of_isDigits (p := (· == '-')) h.whole.1
    (fun c hc => beq_false_of_ne fun same => absurd (same ▸ hc) (by decide))
    (fractionText n.fraction ++ (exponentText n.exponent ++ rest))
  have minus : scanMinus _ = (n.negative, _) := scanMinus_append behindMinus
  simp only [text_eq, List.append_assoc, scan, minus, scanWhole_append h.whole behindWhole,
    Option.bind_eq_bind, Option.bind_some, scanFraction_append h.fraction behindFraction,
    scanExponent_append h.exponent hr]
  rfl

/-- A numeral begins with a minus sign or a digit. -/
theorem exists_cons_of_grammatical {n : Numeral} (h : n.Grammatical) :
    ∃ c tail, n.text = c :: tail ∧ (c = '-' ∨ c.isDigit = true) := by
  rw [text_eq]
  cases n.negative with
  | true => exact ⟨'-', _, rfl, .inl rfl⟩
  | false =>
      obtain ⟨c, tail, same⟩ := List.exists_cons_of_ne_nil h.whole.1.1
      refine ⟨c, tail ++ (fractionText n.fraction ++ exponentText n.exponent), ?_, .inr ?_⟩
      · rw [same]; rfl
      · exact h.whole.1.2 c (by rw [same]; exact List.mem_cons_self)

end Numeral

/-! ### Strings -/

/-- What a piece of a string may look like. -/
def Piece.Grammatical : Piece → Prop
  | .plain c => 0x20 ≤ c.toNat ∧ c ≠ '"' ∧ c ≠ '\\'
  | .short letter => (unescape? letter).isSome
  | .unit a b c d => ∀ x ∈ [a, b, c, d], isHex x = true

namespace Quoted

/-- What a string may look like between its quotation marks. -/
def Grammatical (q : Quoted) : Prop := ∀ p ∈ q, p.Grammatical

theorem grammatical_nil : Grammatical [] := by simp [Grammatical]

theorem grammatical_cons_iff {p : Piece} {q : Quoted} :
    Grammatical (p :: q) ↔ p.Grammatical ∧ Grammatical q := List.forall_mem_cons

variable {text rest : List Char} {q : Quoted}

theorem scan_sound (h : scan text = some (q, rest)) :
    text = q.text ++ '"' :: rest ∧ q.Grammatical := by
  fun_induction scan text generalizing q rest with
  | case1 => cases h
  | case2 tail =>
      obtain ⟨rfl, rfl⟩ := by simpa using h
      exact ⟨rfl, grammatical_nil⟩
  | case3 a b c d tail hex ih =>
      obtain ⟨⟨q', rest'⟩, hs, he⟩ := Option.map_eq_some_iff.mp h
      obtain ⟨rfl, rfl⟩ := by simpa using he
      obtain ⟨rfl, hq⟩ := ih hs
      exact ⟨rfl, grammatical_cons_iff.mpr ⟨List.all_eq_true.mp hex, hq⟩⟩
  | case4 => cases h
  | case5 letter tail _ known ih =>
      obtain ⟨⟨q', rest'⟩, hs, he⟩ := Option.map_eq_some_iff.mp h
      obtain ⟨rfl, rfl⟩ := by simpa using he
      obtain ⟨rfl, hq⟩ := ih hs
      exact ⟨rfl, grammatical_cons_iff.mpr ⟨known, hq⟩⟩
  | case6 => cases h
  | case7 => cases h
  | case8 c tail quote _ _ allowed ih =>
      obtain ⟨⟨q', rest'⟩, hs, he⟩ := Option.map_eq_some_iff.mp h
      obtain ⟨rfl, rfl⟩ := by simpa using he
      obtain ⟨rfl, hq⟩ := ih hs
      simp only [Bool.or_eq_true, decide_eq_true_eq, beq_iff_eq, not_or, Nat.not_lt] at allowed
      exact ⟨rfl, grammatical_cons_iff.mpr ⟨⟨allowed.1, quote, allowed.2⟩, hq⟩⟩

/-- Any spelling of a string is read, up to the quotation mark behind it. -/
theorem scan_append (h : q.Grammatical) (rest : List Char) :
    scan (q.text ++ '"' :: rest) = some (q, rest) := by
  induction q with
  | nil => rfl
  | cons p q ih =>
      obtain ⟨hp, hq⟩ := grammatical_cons_iff.mp h
      rw [text_cons, List.append_assoc]
      cases p with
      | plain c =>
          obtain ⟨visible, quote, slash⟩ := hp
          rw [Piece.text, List.cons_append, List.nil_append, scan]
          · simp [ih hq, slash, Nat.not_lt.mpr visible]
          · exact quote
          · exact fun _ _ _ _ _ same => absurd same slash
          · exact fun _ _ same => absurd same slash
      | short letter =>
          have known : (Piece.unescape? letter).isSome = true := hp
          have noUnit : letter ≠ 'u' := by
            rintro rfl
            cases known
          rw [Piece.text, List.cons_append, List.cons_append, List.nil_append, scan]
          · rw [if_pos known, ih hq]
            rfl
          · exact fun _ _ _ _ _ same => absurd same noUnit
      | unit a b c d =>
          rw [Piece.text]
          simp only [List.cons_append, List.nil_append]
          rw [scan, if_pos (List.all_eq_true.mpr hp), ih hq]
          rfl

end Quoted

/-! ### Tokens -/

namespace Token

/-- What a token may look like. -/
def Grammatical : Token → Prop
  | .number n => n.Grammatical
  | .string q => q.Grammatical
  | _ => True

def isNumber : Token → Bool
  | .number _ => true
  | _ => false

variable {text rest : List Char} {t : Token}

theorem next_sound (h : next text = some (t, rest)) : text = t.text ++ rest ∧ t.Grammatical := by
  unfold next at h
  split at h
  case h_10 =>
    obtain ⟨⟨q, r⟩, hs, he⟩ := Option.map_eq_some_iff.mp h
    obtain ⟨rfl, rfl⟩ := by simpa using he
    obtain ⟨rfl, hq⟩ := Quoted.scan_sound hs
    rw [text, List.cons_append, List.append_assoc]
    exact ⟨rfl, hq⟩
  case h_11 =>
    obtain ⟨⟨n, r⟩, hs, he⟩ := Option.map_eq_some_iff.mp h
    obtain ⟨rfl, rfl⟩ := by simpa using he
    exact Numeral.scan_sound hs
  all_goals
    obtain ⟨rfl, rfl⟩ := by simpa using h
    exact ⟨rfl, trivial⟩

/-- Where a numeral begins, no other token does. -/
theorem next_of_numeral {c : Char} (hc : c = '-' ∨ c.isDigit = true) (tail : List Char) :
    next (c :: tail) = (Numeral.scan (c :: tail)).map fun (n, rest) => (.number n, rest) := by
  unfold next
  split
  case h_11 => rfl
  all_goals
    rename_i same
    obtain ⟨rfl, -⟩ := List.cons.inj same
    exact absurd hc (by decide)

/-- Any spelling of a token is read; a numeral has to end where it ends. -/
theorem next_append (h : t.Grammatical) (hr : t.isNumber = true → Stops Numeral.continues rest) :
    next (t.text ++ rest) = some (t, rest) := by
  cases t with
  | number n =>
      obtain ⟨c, tail, same, hc⟩ := Numeral.exists_cons_of_grammatical h
      have read := Numeral.scan_append h (hr rfl)
      rw [text, same, List.cons_append] at *
      rw [next_of_numeral hc, read]
      rfl
  | string q =>
      rw [text, List.cons_append, List.append_assoc, next, List.cons_append, List.nil_append,
        Quoted.scan_append h]
      rfl
  | bool value => cases value <;> rfl
  | _ => rfl

end Token

end ProcessLogic
