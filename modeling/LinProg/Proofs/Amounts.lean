import LinProg.Decimal.Fixed
import LinProg.Json.Reader
import LinProg.Proofs.Numerals

/-!
# Amounts, written and read again

An amount of a report is a numeral of JSON: it has the required number of digits after its point,
and the number that it writes differs from the double by half a unit of the last place at most. Both
ways to read a numeral give that number back, rounded: the nearest double for any number of places,
and the digits of a word as long as they are digits of a double.
-/

namespace LinProg

namespace Double

open Float.Model Float.Model.UnpackedFloat

/-! ### The parts of a double -/

/-- The number that the parts of a double stand for. -/
def Parts.value (p : Parts) : ℚ :=
  signed (if p.negative then .negative else .positive) (p.significand * 2 ^ p.exponent)

section

variable (b : BitVec Format.binary64.numBits)

theorem toNat_unpackExponent :
    (unpackExponent b).toNat = b.toNat / 2 ^ 52 % 2 ^ 11 := by
  change (b.extractLsb 62 52).toNat = _
  rw [BitVec.extractLsb_toNat, Nat.shiftRight_eq_div_pow]

theorem toNat_unpackMantissa :
    (unpackMantissa b).toNat = b.toNat % 2 ^ 52 := by
  change (b.extractLsb 51 0).toNat = _
  rw [BitVec.extractLsb_toNat, Nat.shiftRight_zero]

theorem ofBitVec_unpackSign_eq : Sign.ofBitVec (unpackSign b) =
    if 2 ^ 63 ≤ b.toNat then .negative else .positive := by
  have hsign : (unpackSign b).toNat = b.toNat / 2 ^ 63 % 2 := by
    change (b.extractLsb 63 63).toNat = _
    rw [BitVec.extractLsb_toNat, Nat.shiftRight_eq_div_pow]
  have hlt : b.toNat < 2 ^ 64 := b.isLt
  rw [Sign.ofBitVec]
  by_cases h : 2 ^ 63 ≤ b.toNat
  · rw [if_pos h, if_neg]
    intro hzero
    rw [hzero, BitVec.toNat_ofNat] at hsign
    omega
  · rw [if_neg h, if_pos]
    refine BitVec.eq_of_toNat_eq (hsign.trans ?_)
    rw [BitVec.toNat_ofNat]
    omega

end

/-- The number of a finite double, from the sign, the exponent and the significand in its bits. -/
theorem value_unpack (b : BitVec Format.binary64.numBits)
    (hb : (UnpackedFloat.unpack .binary64 b).isFinite = true) :
    (unpackExponent b).toNat ≠ 2047 ∧
      value (UnpackedFloat.unpack .binary64 b) =
        signed (Sign.ofBitVec (unpackSign b))
          (if (unpackExponent b).toNat = 0 then
            (unpackMantissa b).toNat * 2 ^ (-1074 : ℤ)
          else ((unpackMantissa b).toNat + 2 ^ 52 : ℕ) *
            2 ^ ((unpackExponent b).toNat - 1075 : ℤ)) := by
  have hbias : ((Format.binary64.exponentBias : Nat) : Int) = 1023 := rfl
  have hwidth : ((Format.binary64.mantissaBitsWithoutImplicit : Nat) : Int) = 52 := rfl
  rw [UnpackedFloat.unpack] at hb ⊢
  split at hb
  · split at hb <;> cases hb
  next hones =>
  refine ⟨fun h => hones (BitVec.eq_of_toNat_eq h), ?_⟩
  simp only [if_neg hones]
  split
  · next hzeroes =>
    have hzero : (unpackExponent b).toNat = 0 := congrArg BitVec.toNat hzeroes
    rw [if_pos hzero]
    split
    · next hnone =>
      rw [hnone, value_zero]
      simp [signed_zero]
    · rw [value_finite, hzero, hbias, hwidth]
      rfl
  · next hzeroes =>
    have hpos : (unpackExponent b).toNat ≠ 0 :=
      fun h => hzeroes (BitVec.eq_of_toNat_eq h)
    rw [if_neg hpos, value_finite, toNat_one_append, hbias, hwidth, Nat.add_comm]
    rfl

/-- A finite double has parts, and they stand for the number that it denotes. -/
theorem parts?_eq {v : Float} (hv : v.isFinite = true) :
    ∃ parts, parts? v = some parts ∧ parts.value = toRat v := by
  obtain ⟨b, hb⟩ : ∃ b : BitVec Format.binary64.numBits, v.toBits.toBitVec = b := ⟨_, rfl⟩
  have hbits : v.toBits.toNat = b.toNat := congrArg BitVec.toNat hb
  have hunpacked : unpacked v = UnpackedFloat.unpack .binary64 b :=
    congrArg (UnpackedFloat.unpack .binary64) hb
  obtain ⟨hlt, hvalue⟩ := value_unpack b (by rwa [isFinite_eq, hunpacked] at hv)
  rw [← hunpacked, ← toRat_eq_value, ofBitVec_unpackSign_eq] at hvalue
  simp only [parts?, hbits, Nat.pow_eq, ← toNat_unpackExponent, ← toNat_unpackMantissa]
  rw [if_neg hlt, hvalue]
  split
  · exact ⟨_, rfl, by simp only [Parts.value, decide_eq_true_eq]⟩
  · exact ⟨_, rfl, by simp only [Parts.value, decide_eq_true_eq]⟩

end Double

/-! ### Digits -/

theorem head?_toDigits {n : Nat} (h : n ≠ 0) : (Nat.toDigits 10 n).head? ≠ some '0' := by
  induction n using Nat.strong_induction_on with
  | _ n ih =>
    rcases lt_or_ge n 10 with hlt | hge
    · rw [Nat.toDigits_of_lt_base hlt, List.head?_cons, ne_eq, Option.some_inj,
        Nat.digitChar_eq_zero]
      exact h
    · rw [Nat.toDigits_of_base_le (by decide) hge,
        List.head?_append_of_ne_nil _ Nat.toDigits_ne_nil]
      exact ih _ (by omega) (by omega)

namespace Json

/-- The values of digits. -/
def digitValues (digits : List Char) : List Nat := digits.map fun c => c.toNat - '0'.toNat

theorem ofDigits_digitValues (digits : List Char) :
    Numeral.ofDigits (digitValues digits) = Nat.ofDigitChars 10 digits 0 := by
  rw [Numeral.ofDigits, digitValues, List.foldl_map, Nat.ofDigitChars_eq_foldl]
  simp only [Nat.mul_comm]

/-- A digit of value zero is the zero. -/
theorem eq_zero_of_digitValue {c : Char} (hc : c.isDigit = true) (h : c.toNat - '0'.toNat = 0) :
    c = '0' := by
  obtain ⟨hlow, -⟩ := Char.isDigit_iff_toNat.1 hc
  exact Char.toNat_inj.1 (by omega)

theorem lt_of_mem_digitValues {digits : List Char} (hdigits : ∀ c ∈ digits, c.isDigit = true)
    {digit : Nat} (h : digit ∈ digitValues digits) : digit < 10 := by
  obtain ⟨c, hc, rfl⟩ := List.mem_map.1 h
  obtain ⟨-, hhigh⟩ := Char.isDigit_iff_toNat.1 (hdigits c hc)
  have hdifference : '9'.toNat = '0'.toNat + 9 := rfl
  omega

/-- Digits are read up to the first character that is none. -/
theorem leadingDigits_append {digits rest : List Char} (hdigits : ∀ c ∈ digits, c.isDigit = true)
    (hrest : ∀ c ∈ rest.head?, c.isDigit = false) :
    leadingDigits (digits ++ rest) = (digitValues digits, rest) := by
  have htake : rest.takeWhile Char.isDigit = [] ∧ rest.dropWhile Char.isDigit = rest := by
    cases rest with
    | nil => exact ⟨rfl, rfl⟩
    | cons c rest =>
      have hc := hrest c rfl
      rw [List.takeWhile_cons, List.dropWhile_cons, hc]
      exact ⟨rfl, rfl⟩
  rw [leadingDigits, List.takeWhile_append_of_pos hdigits, List.dropWhile_append_of_pos hdigits,
    htake.1, htake.2, List.append_nil, digitValues]

/-- Digits with a point between them are a numeral, if there are some on either side and no zero
stands needlessly in front. -/
theorem numeral?_point (negative : Bool) {whole fraction : List Char}
    (hwhole : ∀ c ∈ whole, c.isDigit = true) (hfraction : ∀ c ∈ fraction, c.isDigit = true)
    (hne : whole ≠ []) (hne' : fraction ≠ [])
    (hzero : whole.head? = some '0' → whole.length = 1) :
    numeral? negative (whole ++ '.' :: fraction) =
      some (⟨negative, digitValues whole, digitValues fraction, false, []⟩, []) := by
  have hpoint : leadingDigits (whole ++ '.' :: fraction) = (digitValues whole, '.' :: fraction) :=
    leadingDigits_append hwhole fun c hc => Option.some.inj hc ▸ rfl
  have hrest : leadingDigits fraction = (digitValues fraction, []) := by
    have h : leadingDigits (fraction ++ []) = (digitValues fraction, []) :=
      leadingDigits_append hfraction fun c hc => nomatch hc
    rwa [List.append_nil] at h
  have hfront : ((digitValues whole).isEmpty || ((digitValues whole).head? == some 0 &&
      decide (1 < (digitValues whole).length))) = false := by
    cases whole with
    | nil => exact absurd rfl hne
    | cons c cs =>
      by_cases hvalue : c.toNat - '0'.toNat = 0
      · have hc := eq_zero_of_digitValue (hwhole c List.mem_cons_self) hvalue
        have hcs : cs = [] :=
          List.length_eq_zero_iff.1 (Nat.succ.inj (hzero (congrArg some hc)))
        rw [hc, hcs]
        rfl
      · simpa [digitValues] using fun h => absurd h hvalue
  obtain ⟨d, ds, hd⟩ : ∃ d ds, digitValues fraction = d :: ds :=
    List.exists_cons_of_ne_nil (by simpa [digitValues] using hne')
  have hfound : fraction? ('.' :: fraction) = some (digitValues fraction, []) := by
    rw [fraction?, hrest, hd]
  rw [numeral?, hpoint]
  dsimp only
  rw [hfront, hfound]
  rfl

theorem document?_minus (magnitude : Numeral → Float) (fuel : Nat) (text : List Char) :
    document? magnitude (fuel + 1) ('-' :: text) =
      (numeral? true text).map fun (n, left) => (n.toJson magnitude, left) := by
  rw [document?]
  rfl

theorem document?_digit (magnitude : Numeral → Float) (fuel : Nat) {c : Char}
    (hc : c.isDigit = true) (text : List Char) :
    document? magnitude (fuel + 1) (c :: text) =
      (numeral? false (c :: text)).map fun (n, left) => (n.toJson magnitude, left) := by
  have hother : ∀ c', c'.isDigit = false → c ≠ c' := by
    rintro c' hc' rfl
    exact Bool.false_ne_true (hc'.symm.trans hc)
  have hblank : isBlank c = false := by
    simp [isBlank, hother ' ' rfl, hother '\n' rfl, hother '\t' rfl, hother '\r' rfl]
  have hskip : skipBlanks (c :: text) = c :: text := by
    rw [skipBlanks, List.dropWhile_cons_of_neg (by simp [hblank])]
  rw [document?, hskip]
  split
  · next h => exact absurd (List.cons.inj h).1 (hother '[' rfl)
  · next h => exact absurd (List.cons.inj h).1 (hother '\x7b' rfl)
  · next h => exact absurd (List.cons.inj h).1 (hother '"' rfl)
  · next h => exact absurd (List.cons.inj h).1 (hother '-' rfl)
  · next h => exact absurd (List.cons.inj h).1 (hother 'n' rfl)
  · next h => exact absurd (List.cons.inj h).1 (hother 't' rfl)
  · next h => exact absurd (List.cons.inj h).1 (hother 'f' rfl)
  · rfl

/-- A text that is a numeral to its end is read as that numeral, with or without a minus sign before
it. -/
theorem read?_of_numeral? {text : List Char} {n : Numeral} (magnitude : Numeral → Float)
    (hdigit : ∃ c ∈ text.head?, c.isDigit = true) (h : numeral? n.negative text = some (n, [])) :
    read? magnitude ((if n.negative then "-" else "") ++ String.ofList text) =
      some (n.toJson magnitude) := by
  obtain ⟨c, hc, hdigit⟩ := hdigit
  obtain ⟨cs, rfl⟩ : ∃ cs, text = c :: cs := by
    cases text with
    | nil => cases hc
    | cons c' cs =>
      cases hc
      exact ⟨cs, rfl⟩
  rw [read?]
  cases hnegative : n.negative with
  | true =>
    rw [hnegative] at h
    have htext : ((if true = true then "-" else "") ++ String.ofList (c :: cs)).toList =
        '-' :: c :: cs := by
      rw [String.toList_append, String.toList_ofList]
      rfl
    rw [htext, document?_minus, h]
    rfl
  | false =>
    rw [hnegative] at h
    have htext : ((if false = true then "-" else "") ++ String.ofList (c :: cs)).toList =
        c :: cs := by
      rw [String.toList_append, String.toList_ofList]
      rfl
    rw [htext, document?_digit _ _ hdigit, h]
    rfl

end Json

/-! ### Amounts -/

open Double

/-- A number of units is written by its digits, with zeros in front if there are too few, and with a
point before the last places. -/
theorem exists_toList_placesText (places units : Nat) : ∃ whole fraction : List Char,
    (placesText places units).toList = whole ++ '.' :: fraction ∧
      (∀ c ∈ whole ++ fraction, c.isDigit = true) ∧ whole ≠ [] ∧ fraction.length = places ∧
      Nat.ofDigitChars 10 (whole ++ fraction) 0 = units ∧
      (whole.head? = some '0' → whole.length = 1) := by
  obtain ⟨digits, hdigits⟩ : ∃ digits, Nat.toDigits 10 units = digits := ⟨_, rfl⟩
  obtain ⟨padded, hpadded⟩ : ∃ padded,
      List.replicate (places + 1 - digits.length) '0' ++ digits = padded := ⟨_, rfl⟩
  have hlen : padded.length = max (places + 1) digits.length := by
    rw [← hpadded, List.length_append, List.length_replicate]
    omega
  have htext : (placesText places units).toList =
      padded.take (padded.length - places) ++ '.' :: padded.drop (padded.length - places) := by
    rw [placesText, hdigits, hpadded, String.toList_ofList]
  refine ⟨_, _, htext, ?_, ?_, ?_, ?_, ?_⟩
  · intro c hc
    rw [List.take_append_drop, ← hpadded] at hc
    rcases List.mem_append.1 hc with hc | hc
    · rw [List.eq_of_mem_replicate hc]
      rfl
    · exact Nat.isDigit_of_mem_toDigits (by decide) (by decide) (hdigits ▸ hc)
  · rw [← List.length_pos_iff_ne_nil, List.length_take]
    omega
  · rw [List.length_drop]
    omega
  · rw [List.take_append_drop, ← hpadded, Nat.ofDigitChars_append,
      Nat.ofDigitChars_replicate_zero, Nat.mul_zero, ← hdigits, Nat.ofDigitChars_ten_toDigits]
  · intro hzero
    rw [List.length_take, hlen]
    by_cases hshort : digits.length ≤ places + 1
    · omega
    · -- no zeros are put in front, so the first digit is that of a number with more than one digit
      have hshown : padded = digits := by
        rw [← hpadded, Nat.sub_eq_zero_of_le (by omega)]
        rfl
      have hunits : units ≠ 0 := by
        rintro rfl
        rw [← hdigits, Nat.toDigits_zero, List.length_singleton] at hshort
        omega
      rw [List.head?_take, if_neg (by omega), hshown, ← hdigits] at hzero
      exact absurd hzero (head?_toDigits hunits)

/-- What is written with places is a numeral with these places, which writes the number of units. -/
theorem exists_numeral?_placesText (negative : Bool) {places : Nat} (hplaces : 0 < places)
    (units : Nat) : ∃ n : Numeral,
      Json.numeral? negative (placesText places units).toList = some (n, []) ∧
      (∃ c ∈ (placesText places units).toList.head?, c.isDigit = true) ∧ n.negative = negative ∧
      (∀ digit ∈ n.whole ++ n.fraction, digit < 10) ∧ n.fraction.length = places ∧
      n.significand = units ∧ n.exponent = -places := by
  obtain ⟨whole, fraction, htext, hdigits, hne, hlen, hunits, hzero⟩ :=
    exists_toList_placesText places units
  have hne' : fraction ≠ [] := by
    rintro rfl
    exact hplaces.ne hlen
  have hplaces' : (Json.digitValues fraction).length = places := by
    rw [Json.digitValues, List.length_map, hlen]
  refine ⟨⟨negative, Json.digitValues whole, Json.digitValues fraction, false, []⟩, ?_, ?_, rfl,
    fun digit hdigit => ?_, hplaces', ?_, ?_⟩
  · rw [htext]
    exact Json.numeral?_point negative (fun c hc => hdigits c (List.mem_append_left _ hc))
      (fun c hc => hdigits c (List.mem_append_right _ hc)) hne hne' hzero
  · obtain ⟨c, cs, rfl⟩ := List.exists_cons_of_ne_nil hne
    rw [htext]
    exact ⟨c, rfl, hdigits c List.mem_cons_self⟩
  · rw [Json.digitValues, Json.digitValues, ← List.map_append] at hdigit
    exact Json.lt_of_mem_digitValues hdigits hdigit
  · rw [Numeral.significand, Json.digitValues, Json.digitValues, ← List.map_append,
      ← Json.digitValues, Json.ofDigits_digitValues, hunits]
  · rw [Numeral.exponent, hplaces']
    exact Int.zero_sub _

theorem abs_roundHalfEven_sub_le (numerator : Nat) {denominator : Nat} (h : 0 < denominator) :
    |(roundHalfEven numerator denominator : ℚ) - numerator / denominator| ≤ 1 / 2 := by
  obtain ⟨hlow, hhigh⟩ := roundHalfEven_near numerator denominator h
  have hpos : (0 : ℚ) < denominator := by exact_mod_cast h
  have hlow : (2 * numerator : ℚ) ≤
      (2 * roundHalfEven numerator denominator + 1) * denominator := by exact_mod_cast hlow
  have hhigh : (2 * roundHalfEven numerator denominator * denominator : ℚ) ≤
      2 * numerator + denominator := by exact_mod_cast hhigh
  rw [sub_div' hpos.ne', abs_le, le_div_iff₀ hpos, div_le_iff₀ hpos]
  constructor <;> linarith

/-- A report writes a double as a sign and a number of units of the last place, which differ from it
by half a unit at most. -/
theorem exists_units_fixedText {v : Float} (hv : v.isFinite = true) (places : Nat) :
    ∃ (negative : Bool) (units : Nat),
      fixedText places v = (if negative then "-" else "") ++
        String.ofList (placesText places units).toList ∧
      |signed (if negative then .negative else .positive) (units * 10 ^ (-places : ℤ)) - toRat v| ≤
        1 / 2 * 10 ^ (-places : ℤ) := by
  obtain ⟨parts, hparts, hvalue⟩ := parts?_eq hv
  obtain ⟨units, hunits⟩ : ∃ units, roundHalfEven
      (parts.significand * 2 ^ parts.exponent.toNat * 10 ^ places)
      (2 ^ (-parts.exponent).toNat) = units := ⟨_, rfl⟩
  refine ⟨parts.negative, units, ?_, ?_⟩
  · rw [fixedText, hparts, String.ofList_toList]
    simp only [Nat.pow_eq, hunits]
  have hnear := abs_roundHalfEven_sub_le
    (parts.significand * 2 ^ parts.exponent.toNat * 10 ^ places)
    (pow_pos two_pos (-parts.exponent).toNat)
  have hquotient : ((parts.significand * 2 ^ parts.exponent.toNat * 10 ^ places : ℕ) : ℚ) /
      (2 ^ (-parts.exponent).toNat : ℕ) =
        parts.significand * 2 ^ parts.exponent * 10 ^ places := by
    push_cast
    rw [two_pow_toNat]
    field_simp
  rw [hunits, hquotient] at hnear
  rw [← hvalue, Parts.value, signed_sub, abs_signed_eq]
  have hpos : (0 : ℚ) < 10 ^ (-places : ℤ) := by positivity
  have hunit : (10 : ℚ) ^ places * 10 ^ (-places : ℤ) = 1 := by
    rw [zpow_neg, zpow_natCast]
    exact mul_inv_cancel₀ (by positivity)
  calc |(units : ℚ) * 10 ^ (-places : ℤ) - parts.significand * 2 ^ parts.exponent|
      = |((units : ℚ) - parts.significand * 2 ^ parts.exponent * 10 ^ places) *
          10 ^ (-places : ℤ)| := by
        rw [sub_mul, mul_assoc _ ((10 : ℚ) ^ places), hunit, Rat.mul_one]
    _ ≤ 1 / 2 * 10 ^ (-places : ℤ) := by
        rw [abs_mul, abs_of_pos hpos]
        exact mul_le_mul_of_nonneg_right hnear hpos.le

/-- An amount of a report is read by JSON as a numeral with the required places, and the numeral
differs from the double by half a unit of its last place at most. -/
theorem read?_fixedText {v : Float} (hv : v.isFinite = true) {places : Nat} (hplaces : 0 < places) :
    ∃ n : Numeral,
      (∀ magnitude, Json.read? magnitude (fixedText places v) = some (n.toJson magnitude)) ∧
      (∀ digit ∈ n.whole ++ n.fraction, digit < 10) ∧ n.fraction.length = places ∧
      n.exponent = -places ∧ |n.value - toRat v| ≤ 1 / 2 * 10 ^ (-places : ℤ) := by
  obtain ⟨negative, units, htext, hnear⟩ := exists_units_fixedText hv places
  obtain ⟨n, hnumeral, hdigit, rfl, hdigits, hlen, rfl, hexponent⟩ :=
    exists_numeral?_placesText negative hplaces units
  refine ⟨n, fun magnitude => ?_, hdigits, hlen, hexponent, ?_⟩
  · rw [htext]
    exact Json.read?_of_numeral? magnitude hdigit hnumeral
  · rwa [Numeral.value, hexponent]

/-- The double next to 2.675 lies below it, and 0.125 lies half way between two decimals, of which
0.12 is the even one. -/
example : fixedText 2 2.675 = "2.67" ∧ fixedText 2 0.125 = "0.12" := by decide +kernel

/-! ### Amounts read again -/

/-- An amount of a report, with any number of places, is read by the reader of nearest doubles as
the number that is written there, rounded. The bound keeps what is written clear of infinity. -/
theorem read?_nearest_fixedText {v : Float} (hv : v.isFinite = true) {places : Nat}
    (hplaces : 0 < places) (hv' : |toRat v| ≤ 2 ^ (1022 : ℤ)) :
    ∃ (n : Numeral) (w : Float),
      (∀ magnitude, Json.read? magnitude (fixedText places v) = some (n.toJson magnitude)) ∧
      |n.value - toRat v| ≤ 1 / 2 * 10 ^ (-places : ℤ) ∧
      n.toJson Numeral.nearest = .number w ∧ Rounds w n.value := by
  obtain ⟨n, hread, hdigits, -, -, hnear⟩ := read?_fixedText hv hplaces
  have hvalue : |n.value| ≤ 2 ^ (1023 : ℤ) := by
    have hunit : (10 : ℚ) ^ (-places : ℤ) ≤ 1 := zpow_le_one_of_nonpos₀ (by decide) (by omega)
    have hone : (1 : ℚ) ≤ 2 ^ (1022 : ℤ) := one_le_zpow₀ one_le_two (by decide)
    have hdouble : (2 : ℚ) ^ (1023 : ℤ) = 2 * 2 ^ (1022 : ℤ) := zpow_one_add₀ two_ne_zero 1022
    rw [hdouble]
    generalize (2 : ℚ) ^ (1022 : ℤ) = bound at hv' hone ⊢
    linarith [abs_sub_abs_le_abs_sub n.value (toRat v)]
  obtain ⟨w, hnumber, hrounds⟩ := Numeral.exists_toJson_nearest hdigits hvalue
  exact ⟨n, w, hread, hnear, hnumber, hrounds⟩

/-- An amount of a report that is not too large for its places is read by the command as the number
that is written there, rounded. -/
theorem read?_scaled_fixedText {v : Float} (hv : v.isFinite = true) {places : Nat}
    (hplaces : 0 < places) (hplaces' : places ≤ 22) (hv' : |toRat v| * 10 ^ places ≤ 2 ^ 52) :
    ∃ (n : Numeral) (w : Float),
      (∀ magnitude, Json.read? magnitude (fixedText places v) = some (n.toJson magnitude)) ∧
      |n.value - toRat v| ≤ 1 / 2 * 10 ^ (-places : ℤ) ∧
      n.toJson Numeral.scaled = .number w ∧ Rounds w n.value := by
  obtain ⟨n, hread, -, -, hexponent, hnear⟩ := read?_fixedText hv hplaces
  have hsignificand : n.significand < 2 ^ 53 := by
    have hpos : (0 : ℚ) < 10 ^ places := by positivity
    have hvalue : |n.value| = n.significand / 10 ^ places := by
      rw [Numeral.value, abs_signed_eq, hexponent, zpow_neg, zpow_natCast, ← div_eq_mul_inv]
      exact abs_of_nonneg (by positivity)
    have hle : |n.value| ≤ |toRat v| + 1 / 2 / 10 ^ places := by
      rw [zpow_neg, zpow_natCast, ← div_eq_mul_inv] at hnear
      linarith [abs_sub_abs_le_abs_sub n.value (toRat v)]
    rw [hvalue, div_le_iff₀ hpos, add_mul, div_mul_cancel₀ _ hpos.ne'] at hle
    have hlt : (n.significand : ℚ) < 2 ^ 53 := by linarith
    exact_mod_cast hlt
  obtain ⟨w, hnumber, hrounds⟩ := Numeral.exists_toJson_scaled hsignificand (by omega)
  exact ⟨n, w, hread, hnear, hnumber, hrounds⟩

end LinProg
