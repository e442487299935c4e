import Mathlib.Algebra.Order.Field.Rat
import Mathlib.Data.List.TakeWhile
import Mathlib.Tactic.NormNum
import Webrockets.Library.JsonTree

/-! What the number literals of JSON texts stand for, exactly.

`literalValue` is the rational number that a literal writes. Decimal integers are number
literals, and they stand for the integers they were made of. -/
namespace JsonText

def natValue (digits : List Char) : Nat := Nat.ofDigitChars 10 digits 0

/-- The power of ten that is written after the digits. -/
def exponentValue : List Char → Int
  | _ :: '-' :: digits => -(natValue digits : Int)
  | _ :: '+' :: digits => natValue digits
  | _ :: digits => natValue digits
  | [] => 0

/-- The digits after the point, if there is one, and what comes after them. -/
def fraction : List Char → List Char × List Char
  | '.' :: rest => (rest.takeWhile Char.isDigit, rest.dropWhile Char.isDigit)
  | rest => ([], rest)

/-- All digits of a literal without its sign. -/
def significand (literal : List Char) : Nat :=
  natValue (literal.takeWhile Char.isDigit ++ (fraction (literal.dropWhile Char.isDigit)).1)

/-- The power of ten that they are multiplied by. -/
def scale (literal : List Char) : Int :=
  let (digits, rest) := fraction (literal.dropWhile Char.isDigit)
  exponentValue rest - digits.length

/-- The value of a literal without its sign. -/
def magnitude (literal : List Char) : ℚ := significand literal * 10 ^ scale literal

def unsigned : List Char → List Char
  | '-' :: literal => literal
  | literal => literal

def literalValue : List Char → ℚ
  | '-' :: literal => -magnitude literal
  | literal => magnitude literal

theorem abs_literalValue (literal : List Char) :
    |literalValue literal| = significand (unsigned literal) * 10 ^ scale (unsigned literal) := by
  have hpos (l : List Char) : |magnitude l| = magnitude l :=
    abs_of_nonneg (mul_nonneg (Nat.cast_nonneg _) (zpow_nonneg (by decide) _))
  unfold literalValue unsigned
  split
  · rw [abs_neg]
    exact hpos _
  · exact hpos _

theorem magnitude_digits {digits : List Char} (h : digits.all Char.isDigit = true) :
    magnitude digits = natValue digits := by
  have hall := List.all_eq_true.mp h
  rw [magnitude, significand, scale, List.takeWhile_eq_self_iff.mpr hall,
    List.dropWhile_eq_nil_iff.mpr hall]
  simp [fraction, exponentValue]

theorem literalValue_digits {digits : List Char} (h : digits.all Char.isDigit = true) :
    literalValue digits = natValue digits := by
  rw [← magnitude_digits h]
  unfold literalValue
  split
  · cases h
  · rfl

/-! ### Decimal integers -/

def natLiteral (n : Nat) : List Char := Nat.toDigits 10 n

def intLiteral : Int → List Char
  | .ofNat n => natLiteral n
  | .negSucc n => '-' :: natLiteral (n + 1)

theorem natLiteral_digits (n : Nat) : (natLiteral n).all Char.isDigit = true :=
  List.all_eq_true.mpr fun _ hc => Nat.isDigit_of_mem_toDigits (by decide) (by decide) hc

theorem natValue_natLiteral (n : Nat) : natValue (natLiteral n) = n := Nat.ofDigitChars_ten_toDigits

theorem literalValue_natLiteral (n : Nat) : literalValue (natLiteral n) = n := by
  rw [literalValue_digits (natLiteral_digits n), natValue_natLiteral]

theorem literalValue_intLiteral (i : Int) : literalValue (intLiteral i) = i := by
  cases i with
  | ofNat n => exact literalValue_natLiteral n
  | negSucc n =>
    show -magnitude (natLiteral (n + 1)) = _
    rw [magnitude_digits (natLiteral_digits _), natValue_natLiteral]
    rw [Int.cast_negSucc]

/-- A number that is not zero does not begin with one. -/
theorem natLiteral_cons {n : Nat} (hn : 0 < n) :
    ∃ c digits, natLiteral n = c :: digits ∧ c ≠ '0' := by
  induction n using Nat.strongRecOn with
  | ind n ih =>
    unfold natLiteral
    rcases Nat.lt_or_ge n 10 with hlt | hge
    · refine ⟨_, _, Nat.toDigits_of_lt_base hlt, ?_⟩
      have hall : ∀ n < 10, 0 < n → n.digitChar ≠ '0' := by decide
      exact hall n hlt hn
    · obtain ⟨c, digits, hc, hzero⟩ := ih (n / 10) (by omega) (by omega)
      rw [natLiteral] at hc
      rw [Nat.toDigits_of_base_le (by decide) hge, hc]
      exact ⟨c, _, List.cons_append, hzero⟩

/-! ### Decimals -/

def point (frac : List Char) : List Char := if frac = [] then [] else '.' :: frac

def power : Option Int → List Char
  | some k => 'e' :: intLiteral k
  | none => []

/-- With digits after the point, if there are any, and a power of ten, if there is one. -/
def decimalLiteral (int frac : List Char) (k : Option Int) : List Char :=
  int ++ (point frac ++ power k)

theorem exponentValue_digits {c : Char} {digits : List Char}
    (h : digits.all Char.isDigit = true) : exponentValue (c :: digits) = natValue digits := by
  unfold exponentValue
  split
  · next heq =>
    cases heq
    cases h
  · next heq =>
    cases heq
    cases h
  · next heq =>
    cases heq
    rfl
  · next heq => cases heq

theorem exponentValue_intLiteral (c : Char) (k : Int) : exponentValue (c :: intLiteral k) = k := by
  cases k with
  | ofNat n => rw [intLiteral, exponentValue_digits (natLiteral_digits n), natValue_natLiteral]; rfl
  | negSucc n =>
    show -(natValue (natLiteral (n + 1)) : Int) = _
    rw [natValue_natLiteral]
    rfl

/-- Digits end where something else begins. -/
theorem span_digits {digits : List Char} (h : digits.all Char.isDigit = true) (rest : List Char)
    (hrest : ∀ c, rest.head? = some c → c.isDigit = false) :
    (digits ++ rest).takeWhile Char.isDigit = digits ∧
      (digits ++ rest).dropWhile Char.isDigit = rest := by
  have hall := List.all_eq_true.mp h
  rw [List.takeWhile_append_of_pos hall, List.dropWhile_append_of_pos hall]
  cases rest with
  | nil => exact ⟨List.append_nil _, rfl⟩
  | cons c rest =>
    have hc := hrest c rfl
    rw [List.takeWhile_cons_of_neg (by simp [hc]), List.dropWhile_cons_of_neg (by simp [hc])]
    exact ⟨List.append_nil _, rfl⟩

theorem exponentValue_power (k : Option Int) : exponentValue (power k) = k.getD 0 := by
  cases k with
  | none => rfl
  | some k => exact exponentValue_intLiteral 'e' k

/-- The power begins with no digit, and with no point. -/
theorem head_power {k : Option Int} {c : Char} (h : (power k).head? = some c) : c = 'e' := by
  cases k with
  | none => cases h
  | some k =>
    cases h
    rfl

theorem fraction_point {frac : List Char} (hfrac : frac.all Char.isDigit = true) (k : Option Int) :
    fraction (point frac ++ power k) = (frac, power k) := by
  unfold point
  split
  · next hempty =>
    rw [hempty, List.nil_append]
    unfold fraction
    split
    · next heq => cases head_power (congrArg List.head? heq)
    · rfl
  · obtain ⟨htake, hdrop⟩ := span_digits hfrac (power k) fun c hc => by rw [head_power hc]; rfl
    rw [List.cons_append, fraction, htake, hdrop]

theorem head_point {frac : List Char} {k : Option Int} {c : Char}
    (h : (point frac ++ power k).head? = some c) : c.isDigit = false := by
  unfold point at h
  split at h
  · rw [head_power h]
    rfl
  · cases h
    rfl

theorem magnitude_decimalLiteral {int frac : List Char} (hint : int.all Char.isDigit = true)
    (hfrac : frac.all Char.isDigit = true) (k : Option Int) :
    magnitude (decimalLiteral int frac k) =
      natValue (int ++ frac) * 10 ^ (k.getD 0 - frac.length) := by
  obtain ⟨htake, hdrop⟩ := span_digits hint (point frac ++ power k) fun _ => head_point
  rw [decimalLiteral, magnitude, significand, scale, htake, hdrop, fraction_point hfrac,
    ← exponentValue_power]

/-! ### Literals are read as numbers -/

/-- Where a scan is after some more characters of a number. -/
def InNumber.run : InNumber → List Char → Option InNumber
  | mode, [] => some mode
  | mode, c :: rest =>
    match mode.next c with
    | some next => next.run rest
    | none => none

theorem next_of_stops (mode : InNumber) {c : Char} (hc : c = ',' ∨ c = ']' ∨ c = '\x7d') :
    mode.next c = none := by
  rcases hc with rfl | rfl | rfl <;> cases mode <;> decide

theorem numberRest_run {mode last : InNumber} {l rest : List Char} (h : mode.run l = some last)
    (hlast : last.complete = true) (hrest : Stops rest) :
    numberRest mode (l ++ rest) = some (l, rest) := by
  induction l generalizing mode with
  | nil =>
    cases h
    cases rest with
    | nil => rw [List.append_nil, numberRest, if_pos hlast]
    | cons c rest =>
      rw [List.nil_append, numberRest, next_of_stops _ (hrest c rfl)]
      exact if_pos hlast
  | cons c l ih =>
    rw [InNumber.run] at h
    rw [List.cons_append, numberRest]
    cases hnext : mode.next c with
    | none => rw [hnext] at h; cases h
    | some next =>
      rw [hnext] at h
      simp only [ih h, Option.map_some]

/-- Digits leave a scan where it is, once it is among digits. -/
theorem run_digits {mode : InNumber} (hmode : mode = .integer ∨ mode = .fraction ∨ mode = .exponent)
    {digits : List Char} (h : digits.all Char.isDigit = true) : mode.run digits = some mode := by
  induction digits with
  | nil => rfl
  | cons c digits ih =>
    rw [List.all_cons, Bool.and_eq_true] at h
    have hnext : mode.next c = some mode := by
      rcases hmode with rfl | rfl | rfl <;> exact if_pos h.1
    rw [InNumber.run, hnext]
    exact ih h.2

/-- A digit begins no other token. -/
theorem token_digit {c : Char} (hc : c.isDigit = true) (rest : List Char) : token c rest =
    (numberRest (if c = '0' then .zero else .integer) rest).map fun p => (.number (c :: p.1), p.2) := by
  have hne {d : Char} (hd : d.isDigit = false) : c ≠ d := by
    rintro rfl
    rw [hc] at hd
    cases hd
  unfold token
  rw [if_neg (hne (by decide)), if_neg (hne (by decide)), if_neg (hne (by decide)),
    if_neg (hne (by decide)), if_neg (hne (by decide)), if_neg (hne (by decide)),
    if_neg (hne (by decide)), if_neg (hne (by decide)), if_neg (hne (by decide)),
    if_neg (hne (by decide)), if_neg (hne (by decide))]
  split_ifs <;> rfl

theorem not_isSpace_digit {c : Char} (hc : c.isDigit = true) : isSpace c = false := by
  rw [isSpace, decide_eq_false_iff_not]
  rintro (rfl | rfl | rfl | rfl) <;> cases hc

theorem isNumber_of_digit {c : Char} {l : List Char} {last : InNumber} (hc : c.isDigit = true)
    (h : (if c = '0' then InNumber.zero else .integer).run l = some last)
    (hlast : last.complete = true) : IsNumber (c :: l) := by
  intro rest hrest
  refine ⟨c, l, rfl, not_isSpace_digit hc, ?_⟩
  rw [token_digit hc, numberRest_run h hlast hrest]
  rfl

theorem isNumber_of_minus {l : List Char} {last : InNumber} (h : InNumber.minus.run l = some last)
    (hlast : last.complete = true) : IsNumber ('-' :: l) := by
  intro rest hrest
  refine ⟨'-', l, rfl, by decide, ?_⟩
  show (numberRest .minus (l ++ rest)).map _ = _
  rw [numberRest_run h hlast hrest]
  rfl

theorem run_append (mode : InNumber) (l rest : List Char) :
    mode.run (l ++ rest) = (mode.run l).bind fun next => next.run rest := by
  induction l generalizing mode with
  | nil => rfl
  | cons c l ih =>
    rw [List.cons_append, InNumber.run, InNumber.run]
    cases mode.next c with
    | none => rfl
    | some next => exact ih next

/-- A number is one with a minus or without. -/
theorem isNumber_of_unsigned {l : List Char} {last : InNumber} (h : InNumber.minus.run l = some last)
    (hlast : last.complete = true) : IsNumber l ∧ IsNumber ('-' :: l) := by
  refine ⟨?_, isNumber_of_minus h hlast⟩
  cases l with
  | nil =>
    cases h
    cases hlast
  | cons c l =>
    rw [InNumber.run] at h
    have hnext : InNumber.minus.next c = if c = '0' then some .zero else
      if c.isDigit = true then some .integer else none := rfl
    rw [hnext] at h
    by_cases hzero : c = '0'
    · rw [if_pos hzero] at h
      refine isNumber_of_digit (hzero ▸ rfl) ?_ hlast
      rwa [if_pos hzero]
    · rw [if_neg hzero] at h
      by_cases hc : c.isDigit = true
      · rw [if_pos hc] at h
        refine isNumber_of_digit hc ?_ hlast
        rwa [if_neg hzero]
      · rw [if_neg hc] at h
        cases h

/-- No zero stands before other digits. -/
def Leading (int : List Char) : Prop :=
  int = ['0'] ∨ int.all Char.isDigit = true ∧ ∃ c rest, int = c :: rest ∧ c ≠ '0'

theorem run_leading {int : List Char} (h : Leading int) :
    InNumber.minus.run int = some .zero ∨ InNumber.minus.run int = some .integer := by
  rcases h with rfl | ⟨hall, c, rest, rfl, hc⟩
  · exact .inl rfl
  · right
    rw [List.all_cons, Bool.and_eq_true] at hall
    have hnext : InNumber.minus.next c = some .integer := (if_neg hc).trans (if_pos hall.1)
    rw [InNumber.run, hnext]
    exact run_digits (.inl rfl) hall.2

theorem leading_natLiteral (n : Nat) : Leading (natLiteral n) := by
  rcases Nat.eq_zero_or_pos n with rfl | hn
  · exact .inl rfl
  · obtain ⟨c, digits, hc, hzero⟩ := natLiteral_cons hn
    exact .inr ⟨natLiteral_digits n, c, digits, hc, hzero⟩

theorem isNumber_natLiteral (n : Nat) : IsNumber (natLiteral n) := by
  rcases run_leading (leading_natLiteral n) with h | h
  · exact (isNumber_of_unsigned h rfl).1
  · exact (isNumber_of_unsigned h rfl).1

theorem isNumber_intLiteral (i : Int) : IsNumber (intLiteral i) := by
  cases i with
  | ofNat n => exact isNumber_natLiteral n
  | negSucc n =>
    rcases run_leading (leading_natLiteral (n + 1)) with h | h
    · exact (isNumber_of_unsigned h rfl).2
    · exact (isNumber_of_unsigned h rfl).2

theorem run_intLiteral (k : Int) : InNumber.e.run (intLiteral k) = some .exponent := by
  have hdigits (mode : InNumber) (hmode : ∀ c, c.isDigit = true → mode.next c = some .exponent)
      (n : Nat) : mode.run (natLiteral n) = some .exponent := by
    have hall := natLiteral_digits n
    cases h : natLiteral n with
    | nil =>
      rcases leading_natLiteral n with hn | ⟨_, c, rest, hn, _⟩ <;> cases h.symm.trans hn
    | cons c rest =>
      rw [h, List.all_cons, Bool.and_eq_true] at hall
      rw [InNumber.run, hmode c hall.1]
      exact run_digits (.inr (.inr rfl)) hall.2
  cases k with
  | ofNat n =>
    refine hdigits .e (fun c hc => ?_) n
    refine (if_neg ?_).trans (if_pos hc)
    rintro (rfl | rfl) <;> cases hc
  | negSucc n => exact hdigits .sign (fun c hc => if_pos hc) (n + 1)

theorem run_power {mode : InNumber} (hmode : mode = .zero ∨ mode = .integer ∨ mode = .fraction)
    (k : Option Int) : ∃ last, mode.run (power k) = some last ∧ last.complete = true := by
  cases k with
  | none =>
    refine ⟨mode, rfl, ?_⟩
    rcases hmode with rfl | rfl | rfl <;> rfl
  | some k =>
    have hnext : mode.next 'e' = some .e := by rcases hmode with rfl | rfl | rfl <;> rfl
    rw [power, InNumber.run, hnext]
    exact ⟨.exponent, run_intLiteral k, rfl⟩

theorem run_point {mode : InNumber} (hmode : mode = .zero ∨ mode = .integer) {frac : List Char}
    (hfrac : frac.all Char.isDigit = true) :
    mode.run (point frac) = some mode ∨ mode.run (point frac) = some .fraction := by
  cases frac with
  | nil => exact .inl rfl
  | cons c frac =>
    right
    rw [List.all_cons, Bool.and_eq_true] at hfrac
    have hnext : mode.next '.' = some .point := by rcases hmode with rfl | rfl <;> rfl
    have hdigit : InNumber.point.next c = some .fraction := if_pos hfrac.1
    rw [point, if_neg (List.cons_ne_nil _ _), InNumber.run, hnext]
    show InNumber.point.run (c :: frac) = _
    rw [InNumber.run, hdigit]
    exact run_digits (.inr (.inl rfl)) hfrac.2

theorem Leading.digits {int : List Char} (h : Leading int) :
    int.all Char.isDigit = true ∧ int.head? ≠ some '-' := by
  rcases h with rfl | ⟨hall, c, rest, rfl, _⟩
  · exact ⟨rfl, by decide⟩
  · refine ⟨hall, fun hc => ?_⟩
    cases hc
    cases hall

/-- The literal stands for what its digits do. -/
theorem literalValue_decimalLiteral {int frac : List Char} (hint : Leading int)
    (hfrac : frac.all Char.isDigit = true) (k : Option Int) :
    literalValue (decimalLiteral int frac k) =
      natValue (int ++ frac) * 10 ^ (k.getD 0 - frac.length) := by
  obtain ⟨hdigits, hhead⟩ := hint.digits
  rw [← magnitude_decimalLiteral hdigits hfrac]
  rcases hint with rfl | ⟨_, c, rest, rfl, _⟩
  · rfl
  · unfold literalValue
    split
    · next heq =>
      rw [decimalLiteral, List.cons_append] at heq
      cases heq
      exact absurd rfl hhead
    · rfl

/-- A literal with no zero before other digits is a number, with a minus or without. -/
theorem isNumber_decimalLiteral {int frac : List Char} (hint : Leading int)
    (hfrac : frac.all Char.isDigit = true) (k : Option Int) :
    IsNumber (decimalLiteral int frac k) ∧ IsNumber ('-' :: decimalLiteral int frac k) := by
  obtain ⟨mode, hmode, hrun⟩ : ∃ mode, (mode = .zero ∨ mode = .integer) ∧
      InNumber.minus.run int = some mode := by
    rcases run_leading hint with h | h
    · exact ⟨.zero, .inl rfl, h⟩
    · exact ⟨.integer, .inr rfl, h⟩
  obtain ⟨next, hnext, hpoint⟩ : ∃ next, (next = .zero ∨ next = .integer ∨ next = .fraction) ∧
      mode.run (point frac) = some next := by
    rcases run_point hmode hfrac with h | h
    · exact ⟨mode, hmode.imp_right .inl, h⟩
    · exact ⟨.fraction, .inr (.inr rfl), h⟩
  obtain ⟨last, hlast, hcomplete⟩ := run_power hnext k
  refine isNumber_of_unsigned ?_ hcomplete
  rw [decimalLiteral, run_append, hrun, Option.bind_some, run_append, hpoint, Option.bind_some,
    hlast]

end JsonText
