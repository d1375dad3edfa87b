import LinProg.Proofs.BestApproximation
import LinProg.Proofs.Thresholds

/-!
# The continued fraction of a double, term by term

The terms of a continued fraction are computed in doubles, and its convergents from them in words of
64 bits. Up to the bound of a snap nothing goes wrong on the way. Every remainder passes into a word
without being held at the bound of the words, and from the second term on it is at least one in
spite of rounding, so the denominators grow at least like the Fibonacci numbers and the bound on the
number of terms is never reached. A term that would lead out of the words, or to a denominator that
is too large, is refused and leaves the convergents before it as they are; so numerator and
denominator of the approximating fraction have no factor in common.
-/

namespace LinProg

/-! ### The terms of a continued fraction -/

namespace Snap

section

variable {α : Type} [Arithmetic α]

open Arithmetic

/-- The continued fraction of a value goes on after the given number of terms: each of them has been
admitted and has left a fractional part. The remainder and the convergents are those before the next
term. -/
inductive GoesOn (value : α) : ℕ → α → Convergents → Prop where
  | start : GoesOn value 0 (abs value) .seed
  | next {terms : ℕ} {remainder : α} {c : Convergents} :
    GoesOn value terms remainder c → admits c (truncate (floor remainder)) = true →
      ¬ remainder - floor remainder < resolution →
      GoesOn value (terms + 1) (1 / (remainder - floor remainder))
        (c.next (truncate (floor remainder)))

/-- The continued fraction breaks off at its next term and ends with the last convergents: either
the term is refused and the convergents stay what they are, or the term is used and leaves no
fractional part. -/
inductive BreaksOff (remainder : α) (c : Convergents) : Convergents → Prop where
  | refused : admits c (truncate (floor remainder)) = false → BreaksOff remainder c c
  | exhausted : admits c (truncate (floor remainder)) = true →
    remainder - floor remainder < resolution →
      BreaksOff remainder c (c.next (truncate (floor remainder)))

variable {value remainder : α} {c last : Convergents} {terms : ℕ}

theorem BreaksOff.refine_succ (h : BreaksOff remainder c last) (terms : ℕ) :
    refine (terms + 1) remainder c = last := by
  rw [refine]
  dsimp only
  cases h with
  | refused hrefused => rw [if_neg (Bool.eq_false_iff.1 hrefused)]
  | exhausted hadmits hfraction => rw [if_pos hadmits, if_pos hfraction]

/-- The continued fraction of a value is that of the remainder after some terms. -/
theorem GoesOn.refine_add (h : GoesOn value terms remainder c) (more : ℕ) :
    refine (terms + more) (abs value) .seed = refine more remainder c := by
  induction h generalizing more with
  | start => rw [Nat.zero_add]
  | @next terms remainder c _ hadmits hfraction ih =>
    rw [Nat.add_assoc, Nat.add_comm 1 more, ih, refine]
    dsimp only
    rw [if_pos hadmits, if_neg hfraction]

/-- At each term a continued fraction breaks off, or it goes on. -/
theorem GoesOn.breaksOff_or (h : GoesOn value terms remainder c) :
    (∃ last, BreaksOff remainder c last) ∨
      ∃ remainder' c', GoesOn value (terms + 1) remainder' c' := by
  cases hadmits : admits c (truncate (floor remainder)) with
  | false => exact .inl ⟨c, .refused hadmits⟩
  | true =>
    by_cases hfraction : remainder - floor remainder < resolution
    · exact .inl ⟨_, .exhausted hadmits hfraction⟩
    · exact .inr ⟨_, _, h.next hadmits hfraction⟩

/-- A continued fraction that does not go on forever breaks off at some term. -/
theorem exists_breaksOff {bound : ℕ}
    (hbound : ∀ terms remainder c, GoesOn value terms remainder c → terms ≤ bound) :
    ∃ terms remainder c last, GoesOn value terms remainder c ∧ BreaksOff remainder c last := by
  by_contra hnever
  have hgoesOn : ∀ terms, ∃ remainder c, GoesOn value terms remainder c := by
    intro terms
    induction terms with
    | zero => exact ⟨_, _, .start⟩
    | succ terms ih =>
      obtain ⟨remainder, c, h⟩ := ih
      rcases h.breaksOff_or with ⟨last, hlast⟩ | hnext
      · exact absurd ⟨terms, remainder, c, last, h, hlast⟩ hnever
      · exact hnext
  obtain ⟨remainder, c, h⟩ := hgoesOn (bound + 1)
  exact absurd (hbound _ _ _ h) (Nat.not_succ_le_self bound)

end

end Snap

/-! ### The terms of a double -/

namespace Convergents

variable {c : Convergents}

/-- Numerators and denominators of consecutive convergents have no factor in common. -/
theorem gcd_eq_one (h : c.determinant = 1 ∨ c.determinant = -1) :
    Int.gcd c.numerator c.denominator = 1 := by
  have hdvd : ((Int.gcd c.numerator c.denominator : ℕ) : ℤ) ∣ c.determinant :=
    dvd_sub ((Int.gcd_dvd_left _ _).mul_right _) ((Int.gcd_dvd_right _ _).mul_left _)
  have hone : ((Int.gcd c.numerator c.denominator : ℕ) : ℤ) ∣ 1 := by
    rcases h with h | h <;> rw [h] at hdvd
    · exact hdvd
    · exact (dvd_neg.1 hdvd)
  exact_mod_cast Int.eq_one_of_dvd_one (Int.natCast_nonneg _) hone

/-- A term turns the sign of the determinant. -/
theorem determinant_next_eq (h : c.determinant = 1 ∨ c.determinant = -1) (term : ℤ) :
    (c.next term).determinant = 1 ∨ (c.next term).determinant = -1 := by
  rw [determinant_next]
  rcases h with h | h <;> rw [h]
  · exact .inr rfl
  · exact .inl (neg_neg 1)

end Convergents

namespace Double

variable {v remainder : Float} {c last : Convergents} {terms : ℕ}

/-- What is kept from one term of the continued fraction of a double to the next. The remainder is a
number within the words. Before the first term the convergents are the formal ones, and after it the
remainder is at least one and the denominators grow with the Fibonacci numbers. -/
structure IsKept (terms : ℕ) (remainder : Float) (c : Convergents) : Prop where
  isFinite : remainder.isFinite = true
  nonneg : 0 ≤ toRat remainder
  lt : toRat remainder < 2 ^ 63
  inWords : c.InWords
  determinant_eq : c.determinant = 1 ∨ c.determinant = -1
  denominator_le : c.denominator ≤ Snap.maxDenominator
  grown : terms = 0 ∧ c = .seed ∨ 1 ≤ toRat remainder ∧ ∃ n, terms = n + 1 ∧ c.IsGrown n

namespace IsKept

theorem start (hv : v.isFinite = true) (hsmall : |toRat v| ≤ 10 ^ 15) : IsKept 0 v.abs .seed where
  isFinite := by rwa [isFinite_abs]
  nonneg := by
    rw [toRat_abs]
    exact abs_nonneg _
  lt := by
    rw [toRat_abs]
    exact hsmall.trans_lt (by norm_num)
  inWords := Convergents.inWords_seed
  determinant_eq := .inl Convergents.determinant_seed
  denominator_le := by decide
  grown := .inl ⟨rfl, rfl⟩

section

variable (h : IsKept terms remainder c)

include h

theorem truncate_floor_eq :
    Arithmetic.truncate (Arithmetic.floor remainder) = ⌊toRat remainder⌋ :=
  truncate_floor h.isFinite h.nonneg h.lt

theorem term_nonneg : 0 ≤ Arithmetic.truncate (Arithmetic.floor remainder) := by
  rw [h.truncate_floor_eq]
  exact Int.floor_nonneg.2 h.nonneg

theorem one_le_term (hterms : 0 < terms) :
    1 ≤ Arithmetic.truncate (Arithmetic.floor remainder) := by
  rcases h.grown with ⟨hzero, -⟩ | ⟨hone, -⟩
  · omega
  · rw [h.truncate_floor_eq, Int.le_floor]
    exact_mod_cast hone

theorem fitsWord_term : fitsWord (Arithmetic.truncate (Arithmetic.floor remainder)) = true := by
  have hlow := h.term_nonneg
  have hhigh : ⌊toRat remainder⌋ < 2 ^ 63 := Int.floor_lt.2 (by exact_mod_cast h.lt)
  rw [← h.truncate_floor_eq] at hhigh
  rw [fitsWord_iff]
  omega

theorem fib_le : (Nat.fib terms : ℤ) ≤ c.denominator := by
  rcases h.grown with ⟨rfl, rfl⟩ | ⟨-, n, rfl, hgrown⟩
  · exact le_rfl
  · exact hgrown.denominator_ge

/-- The first term gives a denominator of one, and each further term makes the denominators grow. -/
theorem isGrown_next :
    (c.next (Arithmetic.truncate (Arithmetic.floor remainder))).IsGrown terms := by
  rcases h.grown with ⟨rfl, rfl⟩ | ⟨-, n, rfl, hgrown⟩
  · rw [Convergents.seed_next]
    exact ⟨le_rfl, le_rfl⟩
  · exact hgrown.next (h.one_le_term n.succ_pos)

/-- A term that is admitted leaves convergents of the same kind. -/
theorem next_convergents
    (hadmits : Snap.admits c (Arithmetic.truncate (Arithmetic.floor remainder)) = true) :
    let next := c.next (Arithmetic.truncate (Arithmetic.floor remainder))
    next.InWords ∧ (next.determinant = 1 ∨ next.determinant = -1) ∧
      next.denominator ≤ Snap.maxDenominator := by
  refine ⟨h.inWords.next h.term_nonneg hadmits,
    Convergents.determinant_next_eq h.determinant_eq _, ?_⟩
  rw [Snap.admits, Bool.and_eq_true, decide_eq_true_iff] at hadmits
  exact hadmits.2

/-- A term that is admitted and leaves a fractional part keeps what has to be kept. -/
theorem next (hadmits : Snap.admits c (Arithmetic.truncate (Arithmetic.floor remainder)) = true)
    (hfraction : ¬ remainder - floor remainder < Snap.resolution) :
    IsKept (terms + 1) (1 / (remainder - floor remainder))
      (c.next (Arithmetic.truncate (Arithmetic.floor remainder))) := by
  obtain ⟨hwords, hdeterminant, hdenominator⟩ := h.next_convergents hadmits
  -- rounding a reciprocal of a number below one does not lead below one
  have hone : ((1 : ℤ) : ℚ) * Int.fract (toRat remainder) ≤ 1 := by
    rw [Int.cast_one, Rat.one_mul]
    exact (Int.fract_lt_one _).le
  obtain ⟨hfinite, hge, hlt⟩ := reciprocal_spec h.isFinite h.nonneg hfraction (by decide) hone
  rw [Int.cast_one] at hge
  exact ⟨hfinite, zero_le_one.trans hge, hlt, hwords, hdeterminant, hdenominator,
    .inr ⟨hge, terms, rfl, h.isGrown_next⟩⟩

/-- The Fibonacci numbers pass ten thousand with the twenty-first. -/
theorem terms_le : terms ≤ 20 := by
  by_contra hmany
  have hfib : Nat.fib 21 ≤ Nat.fib terms := Nat.fib_mono (by omega)
  have hvalue : Nat.fib 21 = 10946 := by decide
  have hge := h.fib_le
  have hle : c.denominator ≤ 10000 := h.denominator_le
  omega

end

/-- Whatever number of terms has been used, what has to be kept has been kept. -/
theorem of_goesOn (hv : v.isFinite = true) (hsmall : |toRat v| ≤ 10 ^ 15)
    (h : Snap.GoesOn v terms remainder c) : IsKept terms remainder c := by
  induction h with
  | start => exact start hv hsmall
  | next _ hadmits hfraction ih => exact ih.next hadmits hfraction

/-- Where the continued fraction breaks off, its last convergents are of the same kind. -/
theorem of_breaksOff (h : IsKept terms remainder c) (hlast : Snap.BreaksOff remainder c last) :
    last.InWords ∧ (last.determinant = 1 ∨ last.determinant = -1) ∧
      last.denominator ≤ Snap.maxDenominator := by
  cases hlast with
  | refused => exact ⟨h.inWords, h.determinant_eq, h.denominator_le⟩
  | exhausted hadmits => exact h.next_convergents hadmits

end IsKept

/-! ### Safety -/

/-- Before a term of the continued fraction of a double, when the given number of terms has been
used, the whole part of the remainder passes into a word unchanged, and the convergents are words
that are not below zero, with a determinant of one or minus one. Their denominator is at least the
Fibonacci number that belongs to the number of terms. -/
structure IsSafeAt (terms : ℕ) (remainder : Float) (c : Convergents) : Prop where
  truncate_eq : (Arithmetic.truncate (Arithmetic.floor remainder) : ℚ) = toRat (floor remainder)
  fitsWord_term : fitsWord (Arithmetic.truncate (Arithmetic.floor remainder)) = true
  one_le_term : 0 < terms → 1 ≤ Arithmetic.truncate (Arithmetic.floor remainder)
  inWords : c.InWords
  determinant_eq : c.determinant = 1 ∨ c.determinant = -1
  fib_le : (Nat.fib terms : ℤ) ≤ c.denominator
  denominator_le : c.denominator ≤ 10000

theorem IsKept.isSafeAt (h : IsKept terms remainder c) : IsSafeAt terms remainder c where
  truncate_eq := by rw [h.truncate_floor_eq, (floor_spec h.isFinite).2]
  fitsWord_term := h.fitsWord_term
  one_le_term := h.one_le_term
  inWords := h.inWords
  determinant_eq := h.determinant_eq
  fib_le := h.fib_le
  denominator_le := h.denominator_le

/-- The continued fraction of a double breaks off at a term before the last one that is allowed. Its
last convergents are words, the numerator with either sign, and the approximating fraction is read
off them: they have a denominator, so the integer part of the double does not take their place. -/
structure EndsSafely (v remainder : Float) (terms : ℕ) (c last : Convergents) : Prop where
  goesOn : Snap.GoesOn v terms remainder c
  breaksOff : Snap.BreaksOff remainder c last
  terms_lt : terms + 1 < Snap.maxTerms
  refine_eq : Snap.refine Snap.maxTerms v.abs .seed = last
  inWords : last.InWords
  fitsWord_neg : fitsWord (-last.numerator) = true
  determinant_eq : last.determinant = 1 ∨ last.determinant = -1
  denominator_ne_zero : last.denominator ≠ 0
  denominator_le : last.denominator ≤ 10000
  approximate_eq : Snap.approximate v =
    (if v < 0 then -last.numerator else last.numerator, last.denominator)

/-- The approximating fraction is in lowest terms, has a denominator up to ten thousand and lies on
the same side of zero as the double. -/
structure IsLowestTerms (v : Float) (h k : ℤ) : Prop where
  one_le_denominator : 1 ≤ k
  denominator_le : k ≤ 10000
  gcd_eq_one : Int.gcd h k = 1
  nonneg : ¬ v < 0 → 0 ≤ h
  nonpos : v < 0 → h ≤ 0

section

variable (hv : v.isFinite = true) (hsmall : |toRat v| ≤ 10 ^ 15)

include hv hsmall

theorem exists_endsSafely : ∃ terms remainder c last, EndsSafely v remainder terms c last := by
  obtain ⟨terms, remainder, c, last, hgoesOn, hbreaksOff⟩ :=
    Snap.exists_breaksOff fun _ _ _ h => (IsKept.of_goesOn hv hsmall h).terms_le
  have hkept := IsKept.of_goesOn hv hsmall hgoesOn
  have hterms := hkept.terms_le
  obtain ⟨hwords, hdeterminant, hdenominator⟩ := hkept.of_breaksOff hbreaksOff
  have hlast : Snap.refine Snap.maxTerms v.abs .seed = last := by
    have hsplit : Snap.maxTerms = terms + (63 - terms + 1) := by
      rw [Snap.maxTerms]
      omega
    rw [hsplit]
    exact (hgoesOn.refine_add _).trans (hbreaksOff.refine_succ _)
  have hpositive := one_le_denominator_abs hv hsmall
  rw [hlast] at hpositive
  have hne : last.denominator ≠ 0 := (zero_lt_one.trans_le hpositive).ne'
  refine ⟨terms, remainder, c, last, hgoesOn, hbreaksOff, ?_, hlast, hwords,
    hwords.numerator.fitsWord_neg, hdeterminant, hne, hdenominator, ?_⟩
  · rw [Snap.maxTerms]
    omega
  · rw [← hlast] at hne ⊢
    exact Snap.approximate_eq hne

theorem isLowestTerms_approximate :
    IsLowestTerms v (Snap.approximate v).1 (Snap.approximate v).2 := by
  obtain ⟨terms, remainder, c, last, hends⟩ := exists_endsSafely hv hsmall
  have hgcd := Convergents.gcd_eq_one hends.determinant_eq
  have hnumerator := hends.inWords.numerator.1
  have hone := one_le_approximate hv hsmall
  rw [hends.approximate_eq] at hone ⊢
  refine ⟨hone, hends.denominator_le, ?_, fun hnot => ?_, fun hbelow => ?_⟩
  · dsimp only
    split
    · rwa [Int.neg_gcd]
    · exact hgcd
  · rwa [if_neg hnot]
  · rw [if_pos hbelow]
    exact neg_nonpos.2 hnumerator

end

/-- The continued fraction of a double up to the bound of a snap is safe. Before each term the whole
part of the remainder is a word and the convergents are words with a determinant of one or minus
one, whose denominators grow at least like the Fibonacci numbers. So the continued fraction breaks
off before the last term that is allowed, the sign of its numerator can be turned, and its
denominator is not zero. The fraction has a denominator up to ten thousand, is in lowest terms and
has the sign of the double, and a whole number is approximated by itself. -/
theorem approximate_isSafe {v : Float} (hsmall : v.abs ≤ 1e15) :
    (∀ terms remainder c, Snap.GoesOn v terms remainder c → IsSafeAt terms remainder c) ∧
      (∃ terms remainder c last, EndsSafely v remainder terms c last) ∧
      IsLowestTerms v (Snap.approximate v).1 (Snap.approximate v).2 ∧
      ∀ n : ℤ, toRat v = n → Snap.approximate v = (n, 1) := by
  have hv : v.isFinite = true := isFinite_of_abs_le (by decide +kernel) hsmall
  rw [abs_le_maxMagnitude_iff hv] at hsmall
  refine ⟨fun _ _ _ h => (IsKept.of_goesOn hv hsmall h).isSafeAt, exists_endsSafely hv hsmall,
    isLowestTerms_approximate hv hsmall, fun n hn => ?_⟩
  refine approximate_near_intCast hv hsmall ?_
  rw [hn, sub_self, abs_zero]
  positivity

/-- Three eighths below the bound the numerator of the last convergent is so large that its product
with the next term is no word. The term is refused, and the convergent stays. -/
theorem approximate_isSafe_threeEighths :
    let v : Float := -999999999999999.625
    v.abs ≤ 1e15 ∧ Snap.approximate v = (-7999999999999997, 8) ∧
      fitsWord (562949953421312 * 7999999999999997) = false ∧
      (∀ terms remainder c, Snap.GoesOn v terms remainder c → IsSafeAt terms remainder c) ∧
      (∃ terms remainder c last, EndsSafely v remainder terms c last) ∧
      IsLowestTerms v (-7999999999999997) 8 := by
  intro v
  have hsmall : v.abs ≤ 1e15 := by decide +kernel
  have hfraction : Snap.approximate v = (-7999999999999997, 8) := by decide +kernel
  obtain ⟨hsafe, hends, hlowest, -⟩ := approximate_isSafe hsmall
  rw [hfraction] at hlowest
  exact ⟨hsmall, hfraction, by decide, hsafe, hends, hlowest⟩

end Double

end LinProg
