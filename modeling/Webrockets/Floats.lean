import Webrockets.Library.JsonNumber
import Webrockets.Library.ShortestDecimal

/-! Floats as `serde_json` reads and prints them.

The crate is not at hand. What is documented of it is assumed (`FloatFormat.Lawful`): a literal of
few digits and a small power of ten is read as the float nearest to it, other literals as one near
to them; a float is printed as the shortest decimal that is rounded to it. -/
namespace Webrockets
open JsonText BinaryFloat

/-- The bits are those of a finite float, and what is printed for one is a JSON number. -/
structure FloatFormat where
  parse : List Char → Option UInt64
  print : UInt64 → List Char
  number : ∀ {literal bits}, parse literal = some bits → IsNumber (print bits)

/-! ### `f64` -/

/-- What the bits of a finite float stand for, but for the first of them. -/
def f64Magnitude (bits : Nat) : ℚ :=
  let exponent : Nat := bits / 2 ^ 52 % 2 ^ 11
  let fraction : Nat := bits % 2 ^ 52
  if exponent = 0 then fraction * 2 ^ (-1074 : Int)
  else ((2 ^ 52 + fraction : Nat) : ℚ) * 2 ^ ((exponent : Int) - 1075)

def f64Value (bits : UInt64) : ℚ :=
  if bits.toNat < 2 ^ 63 then f64Magnitude bits.toNat else -f64Magnitude bits.toNat

abbrev RoundsToF64 (q x : ℚ) : Prop := Rounds 52 (-1074) q x

/-- The decimal is what is to be written for the float. -/
abbrev WrittenForF64 (q x : ℚ) : Prop := Shortest 52 (-1074) q x

/-! ### What is documented -/

/-- The digits make an integer that a float has room for, and so does the power of ten: what is
left is one multiplication or division. -/
def ReadExactly (literal : List Char) : Prop :=
  significand (unsigned literal) < 2 ^ 53 ∧ |scale (unsigned literal)| ≤ 22

/-- Without `float_roundtrip` other literals are read with a smaller precision. -/
structure FloatFormat.Lawful (floats : FloatFormat) : Prop where
  parses : ∀ {literal bits}, ReadExactly literal → floats.parse literal = some bits →
    RoundsToF64 (literalValue literal) (f64Value bits)
  prints : ∀ {literal bits}, floats.parse literal = some bits →
    WrittenForF64 (literalValue (floats.print bits)) (f64Value bits)

/-! ### Decimals that are printed as they are -/

/-- It is what is to be written for some float. -/
def Printed (v : ℚ) : Prop := ∃ x, WrittenForF64 v x

/-- And nothing else is: no other decimal is as short and as close. -/
def PrintedOnly (v : ℚ) : Prop := ∃ x, WrittenForF64 v x ∧ ∀ r, WrittenForF64 r x → r = v

/-- A literal of at most 15 digits. -/
def Short (literal : List Char) : Prop :=
  significand (unsigned literal) < 10 ^ 15 ∧ |scale (unsigned literal)| ≤ 22

instance (literal : List Char) : Decidable (ReadExactly literal) :=
  inferInstanceAs (Decidable (_ ∧ _))

instance (literal : List Char) : Decidable (Short literal) := inferInstanceAs (Decidable (_ ∧ _))

variable {literal : List Char} {v x : ℚ}

theorem Short.readExactly (h : Short literal) : ReadExactly literal :=
  ⟨h.1.trans (by decide), h.2⟩

/-- At most 17 digits are printed. -/
theorem Printed.decimal (h : Printed v) : Decimal 17 v := by
  obtain ⟨x, hx⟩ := h
  exact Shortest.decimal hx (by decide)

theorem written_zero : WrittenForF64 0 0 := by
  refine ⟨(fits_zero _ _).rounds, fun _ n _ _ => decimal_zero n, fun r _ _ => ?_⟩
  rw [sub_self, abs_zero]
  exact abs_nonneg _

theorem printedOnly_zero : PrintedOnly 0 := by
  refine ⟨0, written_zero, fun r hr => ?_⟩
  by_contra hne
  have hnone := hr.shortest 0 0 written_zero.rounds (decimal_zero 0)
  exact absurd (hnone.pos hne) (Nat.lt_irrefl 0)

/-- A literal of few digits is printed for the float that it is rounded to. -/
theorem Short.printedOnly (h : Short literal) : PrintedOnly (literalValue literal) := by
  by_cases hzero : literalValue literal = 0
  · rw [hzero]
    exact printedOnly_zero
  have hrounds := @rounds_nearest 52 (-1074) (by decide) (literalValue literal)
  have hdecimal : Decimal 15 (literalValue literal) := ⟨_, _, h.1, abs_literalValue literal⟩
  have hpos : 0 < significand (unsigned literal) := by
    refine Nat.pos_of_ne_zero fun hnone => hzero (abs_eq_zero.mp ?_)
    rw [abs_literalValue, hnone, Nat.cast_zero, zero_mul]
  have hscale : -22 ≤ scale (unsigned literal) := (abs_le.mp h.2).1
  have hlow : (10 : ℚ) ^ (-22 : Int) ≤ |literalValue literal| := by
    rw [abs_literalValue]
    calc (10 : ℚ) ^ (-22 : Int) ≤ 10 ^ scale (unsigned literal) :=
          zpow_le_zpow_right₀ (by decide) hscale
      _ ≤ significand (unsigned literal) * 10 ^ scale (unsigned literal) :=
          le_mul_of_one_le_left (ten_zpow_pos _).le (by exact_mod_cast hpos)
  -- so its float has all its bits
  have hfits : Fits 53 (-1074) (2 ^ (-74 : Int)) :=
    ⟨1, -74, by decide, by decide, by rw [Int.cast_one, one_mul]⟩
  have hnormal : (2 ^ 52 * 2 ^ (-1074 : Int) : ℚ) ≤ 2 ^ (-74 : Int) := by
    rw [← zpow_natCast, ← zpow_add₀ (by decide)]
    exact zpow_le_zpow_right₀ (by decide) (by decide)
  have hlarge := hrounds.le_abs hfits (le_trans (by norm_num) hlow)
  exact ⟨_, hdecimal.shortest (by decide) (hnormal.trans hlarge) hrounds⟩

/-! ### A format -/

def f64Bits (x : ℚ) : UInt64 :=
  let E := exponent 52 (-1074) x
  let magnitude := (E + 1074).toNat * 2 ^ 52 + ⌊|x| / 2 ^ E⌋₊
  if x = 0 then 0 else UInt64.ofNat (if 0 < x then magnitude else 2 ^ 63 + magnitude)

/-- Bits that are one higher count as many units of twice the size, but for the first. -/
theorem f64Magnitude_units {k c : Nat} (hk : k < 2046) (hc : c < 2 ^ 53) (hfew : c < 2 ^ 52 → k = 0) :
    f64Magnitude (k * 2 ^ 52 + c) = c * 2 ^ ((k : Int) - 1074) := by
  rcases Nat.lt_or_ge c (2 ^ 52) with h | h
  · obtain rfl := hfew h
    have hexponent : (0 * 2 ^ 52 + c) / 2 ^ 52 % 2 ^ 11 = 0 := by omega
    have hfraction : (0 * 2 ^ 52 + c) % 2 ^ 52 = c := by omega
    rw [f64Magnitude, hexponent, hfraction, if_pos rfl]
    rfl
  · have hexponent : (k * 2 ^ 52 + c) / 2 ^ 52 % 2 ^ 11 = k + 1 := by omega
    have hfraction : 2 ^ 52 + (k * 2 ^ 52 + c) % 2 ^ 52 = c := by omega
    rw [f64Magnitude, hexponent, hfraction, if_neg (Nat.succ_ne_zero k)]
    congr 2
    push_cast
    ring

theorem f64Magnitude_sign (b : Nat) : f64Magnitude (2 ^ 63 + b) = f64Magnitude b := by
  have hexponent : (2 ^ 63 + b) / 2 ^ 52 % 2 ^ 11 = b / 2 ^ 52 % 2 ^ 11 := by omega
  have hfraction : (2 ^ 63 + b) % 2 ^ 52 = b % 2 ^ 52 := by omega
  rw [f64Magnitude, hexponent, hfraction, f64Magnitude]

theorem f64Value_ofNat {b : Nat} (hb : b < 2 ^ 63) :
    f64Value (UInt64.ofNat b) = f64Magnitude b ∧
      f64Value (UInt64.ofNat (2 ^ 63 + b)) = -f64Magnitude b := by
  have hsize : UInt64.size = 2 ^ 64 := rfl
  constructor
  · rw [f64Value, UInt64.toNat_ofNat_of_lt' (by omega), if_pos hb]
  · rw [f64Value, UInt64.toNat_ofNat_of_lt' (by omega), if_neg (by omega), f64Magnitude_sign]

theorem f64Value_f64Bits (hx : Fits 53 (-1074) x) (hlt : |x| < 2 ^ 1024) :
    f64Value (f64Bits x) = x := by
  by_cases hzero : x = 0
  · rw [f64Bits, if_pos hzero, hzero]
    decide +kernel
  obtain ⟨M, hM, hunits⟩ := Fits.units hx
  have hleast := le_exponent 52 (-1074) x
  have hlarge := fun h => @exponent_le_abs 52 (-1074) x h hzero
  unfold f64Bits
  rw [if_neg hzero]
  generalize exponent 52 (-1074) x = E at *
  have hcount : ⌊|x| / 2 ^ E⌋₊ = M.natAbs := by
    rw [hunits, abs_units, mul_div_cancel_right₀ _ (two_zpow_pos E).ne', ← Int.cast_abs,
      ← Nat.cast_natAbs, Nat.floor_natCast]
  have habs : |x| = M.natAbs * 2 ^ E := by rw [hunits, abs_units, Nat.cast_natAbs, Int.cast_abs]
  have hmost : E < 972 := by
    by_contra hE
    have hpow : (2 : ℚ) ^ (52 + E) < 2 ^ (1024 : Int) := by
      rw [zpow_add₀ (by decide)]
      exact_mod_cast lt_of_le_of_lt (hlarge (by omega)) hlt
    have := (zpow_lt_zpow_iff_right₀ (by decide : (1 : ℚ) < 2)).mp hpow
    omega
  have hfew : M.natAbs < 2 ^ 52 → (E + 1074).toNat = 0 := by
    intro hfew
    by_contra hE
    have hlow := hlarge (by omega)
    rw [habs, mul_le_mul_iff_left₀ (two_zpow_pos E)] at hlow
    exact absurd hfew (Nat.not_lt.mpr (by exact_mod_cast hlow))
  have hfits : M.natAbs < 2 ^ 53 := by
    zify
    exact hM
  have hvalue := f64Magnitude_units (k := (E + 1074).toNat) (by omega) hfits hfew
  rw [Int.toNat_of_nonneg (by omega), add_sub_cancel_right, ← habs] at hvalue
  obtain ⟨hpos, hneg⟩ := f64Value_ofNat (b := (E + 1074).toNat * 2 ^ 52 + M.natAbs) (by omega)
  rw [hcount]
  by_cases hsign : 0 < x
  · simp only [if_pos hsign, hpos, hvalue, abs_of_pos hsign]
  · simp only [if_neg hsign, hneg, hvalue, abs_of_nonpos (le_of_not_gt hsign), neg_neg]

/-- The digits `m` with the point where it belongs, and without a power of ten if there are not
many zeros. -/
def writeDecimal (m : Nat) (j : Int) : List Char :=
  let digits := natLiteral m
  let place := digits.length + j
  if 0 ≤ j ∧ place ≤ 16 then decimalLiteral (digits ++ List.replicate j.toNat '0') ['0'] none
  else if 0 < place ∧ place ≤ 16 then
    decimalLiteral (digits.take place.toNat) (digits.drop place.toNat) none
  else if -5 < place ∧ place ≤ 0 then
    decimalLiteral ['0'] (List.replicate (-place).toNat '0' ++ digits) none
  else decimalLiteral (digits.take 1) (digits.drop 1) (some (place - 1))

theorem leading_take {digits : List Char} (h : Leading digits) {k : Nat} (hk : 0 < k) :
    Leading (digits.take k) := by
  obtain ⟨k, rfl⟩ := Nat.exists_eq_succ_of_ne_zero hk.ne'
  rcases h with rfl | ⟨hall, c, rest, rfl, hc⟩
  · exact .inl (by rw [List.take_succ_cons, List.take_nil])
  · refine .inr ⟨List.all_eq_true.mpr fun d hd => ?_, c, rest.take k, rfl, hc⟩
    exact List.all_eq_true.mp hall d (List.mem_of_mem_take hd)

theorem zeros_digits (k : Nat) : (List.replicate k '0').all Char.isDigit = true := by
  refine List.all_eq_true.mpr fun c hc => ?_
  rw [List.eq_of_mem_replicate hc]
  rfl

theorem natValue_zeros_append (k : Nat) (digits : List Char) :
    natValue (List.replicate k '0' ++ digits) = natValue digits := by
  rw [natValue, Nat.ofDigitChars_append, Nat.ofDigitChars_replicate_zero, Nat.mul_zero, natValue]

theorem natValue_append_zeros (digits : List Char) (k : Nat) :
    natValue (digits ++ List.replicate k '0') = 10 ^ k * natValue digits := by
  rw [natValue, Nat.ofDigitChars_append, Nat.ofDigitChars_replicate_zero, natValue]

/-- What is written is a literal of the value. -/
theorem writeDecimal_spec {m : Nat} (hm : 0 < m) (j : Int) :
    ∃ int frac k, writeDecimal m j = decimalLiteral int frac k ∧ Leading int ∧
      frac.all Char.isDigit = true ∧
      (natValue (int ++ frac) : ℚ) * 10 ^ (k.getD 0 - frac.length : Int) = m * 10 ^ j := by
  have hdigits := natLiteral_digits m
  have hvalue := natValue_natLiteral m
  have hleading := leading_natLiteral m
  obtain ⟨c, rest, hcons, hc⟩ := natLiteral_cons hm
  have hdrop (k : Nat) : ((natLiteral m).drop k).all Char.isDigit = true :=
    List.all_eq_true.mpr fun d hd => List.all_eq_true.mp hdigits d (List.mem_of_mem_drop hd)
  have hlength : 0 < (natLiteral m).length := by simp [hcons]
  unfold writeDecimal
  generalize natLiteral m = digits at *
  dsimp only
  split_ifs with hwhole hinside hsmall
  · refine ⟨_, _, _, rfl, ?_, by decide, ?_⟩
    · refine .inr ⟨?_, c, rest ++ List.replicate j.toNat '0', by rw [hcons, List.cons_append], hc⟩
      rw [List.all_append, hdigits, zeros_digits, Bool.and_self]
    · have hten := ten_zpow_split hwhole.1
      rw [zpow_zero, mul_one, sub_zero] at hten
      rw [show ['0'] = List.replicate 1 '0' from rfl, natValue_append_zeros, natValue_append_zeros,
        hvalue, hten]
      push_cast
      norm_num
      ring
  · refine ⟨_, _, _, rfl, leading_take hleading (by omega), hdrop _, ?_⟩
    rw [List.take_append_drop, hvalue, List.length_drop]
    congr 2
    rw [Option.getD_none]
    omega
  · refine ⟨_, _, _, rfl, .inl rfl, ?_, ?_⟩
    · rw [List.all_append, hdigits, zeros_digits, Bool.and_self]
    · rw [show ['0'] = List.replicate 1 '0' from rfl, natValue_zeros_append, natValue_zeros_append,
        hvalue, List.length_append, List.length_replicate]
      congr 2
      rw [Option.getD_none]
      omega
  · refine ⟨_, _, _, rfl, leading_take hleading Nat.one_pos, hdrop _, ?_⟩
    rw [List.take_append_drop, hvalue, List.length_drop]
    congr 2
    rw [Option.getD_some]
    omega

def printF64 (x : ℚ) : List Char :=
  match shortest 52 (-1074) 17 |x| with
  | some (m, j) => if 0 ≤ x then writeDecimal m j else '-' :: writeDecimal m j
  | none => writeDecimal 0 0

theorem writeDecimal_value {m : Nat} (hm : 0 < m) (j : Int) :
    literalValue (writeDecimal m j) = m * 10 ^ j ∧
      literalValue ('-' :: writeDecimal m j) = -(m * 10 ^ j) ∧
      IsNumber (writeDecimal m j) ∧ IsNumber ('-' :: writeDecimal m j) := by
  obtain ⟨int, frac, k, hwritten, hint, hfrac, hvalue⟩ := writeDecimal_spec hm j
  obtain ⟨hnumber, hminus⟩ := isNumber_decimalLiteral hint hfrac k
  rw [hwritten, ← hvalue]
  refine ⟨literalValue_decimalLiteral hint hfrac k, ?_, hnumber, hminus⟩
  show -magnitude _ = _
  rw [magnitude_decimalLiteral hint.digits.1 hfrac]

/-- **What is printed for a float is the decimal to be written for it.** -/
theorem printF64_spec (hx : Fits 53 (-1074) x) :
    WrittenForF64 (literalValue (printF64 x)) x ∧ IsNumber (printF64 x) := by
  by_cases hzero : x = 0
  · have hprint : printF64 0 = decimalLiteral ['0'] ['0'] none := by decide +kernel
    have hvalue : literalValue (decimalLiteral ['0'] ['0'] none) = 0 := by decide +kernel
    rw [hzero, hprint, hvalue]
    exact ⟨written_zero, (isNumber_decimalLiteral (.inl rfl) (by decide) none).1⟩
  have hfits : Fits 53 (-1074) |x| := by
    rcases abs_choice x with h | h <;> rw [h]
    · exact hx
    · exact hx.neg
  obtain ⟨m, j, hfound, hwritten⟩ :=
    shortest_spec (by decide) (by decide : 2 ^ (52 + 1) < 10 ^ 16) (abs_pos.mpr hzero) hfits
  have hm : 0 < m := by
    have hpos := hwritten.rounds.pos (abs_pos.mpr hzero)
    rw [mul_pos_iff_of_pos_right (ten_zpow_pos j)] at hpos
    exact_mod_cast hpos
  obtain ⟨hvalue, hminus, hnumber, hminusNumber⟩ := writeDecimal_value hm j
  rw [printF64, hfound]
  by_cases hsign : 0 ≤ x
  · simp only [if_pos hsign, hvalue]
    rw [abs_of_nonneg hsign] at hwritten
    exact ⟨hwritten, hnumber⟩
  · simp only [if_neg hsign, hminus]
    rw [abs_of_neg (lt_of_not_ge hsign)] at hwritten
    have hneg := hwritten.neg
    rw [neg_neg] at hneg
    exact ⟨hneg, hminusNumber⟩

def nearestF64 (v : ℚ) : Option UInt64 :=
  let x := nearest 52 (-1074) v
  if |x| < 2 ^ 1024 then some (f64Bits x) else none

theorem nearestF64_some {bits : UInt64} (h : nearestF64 v = some bits) :
    Fits 53 (-1074) (f64Value bits) ∧ RoundsToF64 v (f64Value bits) := by
  have hrounds := @rounds_nearest 52 (-1074) (by decide) v
  simp only [nearestF64] at h
  split_ifs at h with hlt
  obtain rfl := Option.some.inj h
  rw [f64Value_f64Bits hrounds.fits hlt]
  exact ⟨hrounds.fits, hrounds⟩

/-- Reads every literal as the nearest float. -/
def nearestFloats : FloatFormat where
  parse literal := nearestF64 (literalValue literal)
  print bits := printF64 (f64Value bits)
  number h := (printF64_spec (nearestF64_some h).1).2

theorem nearestFloats_lawful : nearestFloats.Lawful where
  parses _ h := (nearestF64_some h).2
  prints h := (printF64_spec (nearestF64_some h).1).1

end Webrockets
