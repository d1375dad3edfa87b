import LinProg.Proofs.CanonicalRun
import LinProg.Proofs.Evidence

/-!
# What the ratio test protects

In exact arithmetic the pivot row sets the least limit to the growth of the entering variable, so no
right-hand side becomes negative. On doubles the limits are compared as they are corrected, while
the pivot itself divides what is stored. A right-hand side can therefore fall below zero by as much
as the corrections have moved the numbers that were compared, and by what is lost in rounding. A row
whose entry is not read as positive is not compared at all; it is safe unless its entry lies above
zero nevertheless.
-/

namespace LinProg

open Scalar

namespace Double

variable {v : Float}

/-! ### What a correction moves -/

/-- How far a value is moved when it is corrected. -/
def displacement (v : Float) : ℚ := |toRat (correct v) - toRat v|

theorem displacement_nonneg (v : Float) : 0 ≤ displacement v := abs_nonneg _

theorem toRat_correct_le (v : Float) : toRat (correct v) ≤ toRat v + displacement v := by
  have hle : toRat (correct v) - toRat v ≤ displacement v := le_abs_self _
  linarith

theorem toRat_le_correct (v : Float) : toRat v ≤ toRat (correct v) + displacement v := by
  have hle : -(toRat (correct v) - toRat v) ≤ displacement v := neg_le_abs _
  linarith

/-- No value is moved by more than the largest tolerance, up to rounding. -/
theorem displacement_le (v : Float) : displacement v ≤ 1 / 2 ^ 18 := by
  by_cases hsmall : v.isFinite = true ∧ |toRat v| ≤ 10 ^ 15
  · obtain ⟨hv, hsmall⟩ := hsmall
    obtain ⟨htolerance, -, hle, -⟩ := tolerance_spec hv hsmall
    obtain ⟨hfraction, -⟩ := fraction_spec hv hsmall
    change |toRat (Snap.snap v) - toRat v| ≤ _
    rw [snap_of_le hv hsmall]
    split
    · next hnear =>
      have hdifference := isFinite_of_abs_le htolerance hnear
      rw [le_iff_toRat (by rwa [isFinite_abs]) htolerance, toRat_abs] at hnear
      have hlt : |toRat (v - fraction v)| < 1 / 2 ^ 18 := (hnear.trans hle).trans_lt (by norm_num)
      rw [abs_sub_comm]
      exact (rounds_sub hv hfraction).abs_le_of_lt hdifference
        (isDouble_two_pow_inv (by decide)) hlt
    · rw [sub_self, abs_zero]
      positivity
  · have hsnap : correct v = v :=
      snap_of_large fun hv => not_le.1 fun hle => hsmall ⟨hv, hle⟩
    rw [displacement, hsnap, sub_self, abs_zero]
    positivity

theorem isFinite_correct (hv : v.isFinite = true) : (correct v).isFinite = true := isFinite_snap hv

/-- A number is not read as negative exactly if it is at most the tolerance below zero. -/
theorem isNegative_eq_false_iff_toRat (hv : v.isFinite = true) :
    isNegative v = false ↔ -toRat 1e-9 ≤ toRat v := by
  have hbound : (-1e-9 : Float).isFinite = true := by decide +kernel
  rw [← Bool.not_eq_true, isNegative_iff hv, lt_iff_toRat hv hbound, toRat_neg, not_lt]

theorem comparesAs_toRat : ComparesAs (fun v : Float => v.isFinite = true) toRat :=
  ⟨fun _ _ hv hw => lt_iff_toRat hv hw, fun _ _ hv hw => beq_iff_toRat hv hw⟩

/-! ### One row

A pivot on the element `e` in a row of right-hand side `c` takes `a * (c / e)` from the right-hand
side `b` of a row with the entry `a`. The ratio test has compared the limits `correct b / a` and
`correct c / e`. -/

section

variable (a b c e : Float)

/-- How far the right-hand side can fall below zero because corrected numbers are compared. -/
def shortfall : ℚ :=
  displacement b + toRat a * (displacement (correct b / a) + displacement (correct c / e) +
    displacement c / toRat e)

/-- How far the right-hand side can be off because the operations round. -/
def roundoff : ℚ :=
  (|toRat b| + |toRat (correct b)| + |toRat a| / |toRat e| * (|toRat c| + |toRat (correct c)|)) /
    2 ^ 49 + 8 * (1 + |toRat a|) * smallest

end

theorem roundoff_nonneg (a b c e : Float) : 0 ≤ roundoff a b c e := by
  have hsmall : 0 ≤ (1 + |toRat a|) * smallest := mul_nonneg (by positivity) smallest_pos.le
  have hscale : 0 ≤ (|toRat b| + |toRat (correct b)| +
      |toRat a| / |toRat e| * (|toRat c| + |toRat (correct c)|)) / 2 ^ 49 := by positivity
  rw [roundoff]
  linarith

section

variable {a b c e : Float} (ha : a.isFinite = true) (hb : b.isFinite = true)
  (hc : c.isFinite = true) (he : e.isFinite = true)

section

variable {q : Float} (hq : q.isFinite = true) (h : (b - a * q).isFinite = true)

include ha hb hq h

/-- A right-hand side from which nothing is taken does not fall. -/
theorem le_sub_mul (hle : toRat a * toRat q ≤ 0) : toRat b ≤ toRat (b - a * q) := by
  have hfinite := isFinite_of_sub h
  have hproduct := (rounds_mul ha hq).toRat_le hfinite isDouble_zero hle
  exact (rounds_sub hb hfinite).le_toRat h ⟨b, hb, rfl⟩ (by linarith)

/-- The product and the difference round. -/
theorem abs_sub_mul_le : |toRat (b - a * q) - (toRat b - toRat a * toRat q)| ≤
    (|toRat b| + 3 * |toRat a * toRat q|) / 2 ^ 52 + 3 * smallest := by
  have hproduct := rounds_mul ha hq
  have hfinite := isFinite_of_sub h
  have hnear := hproduct.near hfinite
  have hsize := hproduct.abs_toRat_le hfinite
  have hdifference := (rounds_sub hb hfinite).near h
  have htriangle := abs_sub (toRat b) (toRat (a * q))
  have hsplit :=
    abs_sub_le (toRat (b - a * q)) (toRat b - toRat (a * q)) (toRat b - toRat a * toRat q)
  rw [sub_sub_sub_cancel_left, abs_sub_comm (toRat a * toRat q)] at hsplit
  have hpos := smallest_pos
  have hnonneg := abs_nonneg (toRat a * toRat q)
  linarith

end

section

variable (hne : toRat e ≠ 0) (hq : (c / e).isFinite = true) (h : (b - a * (c / e)).isFinite = true)

include ha hb hc he hne hq h

/-- What is left of the right-hand side, as far as the operations are exact. -/
theorem abs_remainder_le :
    |toRat (b - a * (c / e)) - (toRat b - toRat a * toRat (c / e))| ≤
      (|toRat b| + 4 * (|toRat a| / |toRat e| * |toRat c|)) / 2 ^ 52 +
        4 * (1 + |toRat a|) * smallest := by
  have hdifference := abs_sub_mul_le ha hb hq h
  have hgrowth := (rounds_div hc he hne).abs_toRat_le hq
  have hproduct := mul_le_mul_of_nonneg_left hgrowth (abs_nonneg (toRat a))
  have hscale : |toRat a| * |toRat c / toRat e| = |toRat a| / |toRat e| * |toRat c| := by
    rw [abs_div]
    ring
  have hnonneg : 0 ≤ |toRat a| / |toRat e| * |toRat c| := by positivity
  have hsmall : 0 ≤ |toRat a| * smallest := mul_nonneg (abs_nonneg _) smallest_pos.le
  have hexpand : |toRat a| * (|toRat c / toRat e| + |toRat c / toRat e| / 2 ^ 52 + smallest) =
      |toRat a| / |toRat e| * |toRat c| + |toRat a| / |toRat e| * |toRat c| / 2 ^ 52 +
        |toRat a| * smallest := by
    rw [← hscale]
    ring
  rw [hexpand, ← abs_mul] at hproduct
  have hpos := smallest_pos
  linarith

theorem abs_remainder_le_roundoff :
    |toRat (b - a * (c / e)) - (toRat b - toRat a * toRat (c / e))| ≤ roundoff a b c e := by
  refine (abs_remainder_le ha hb hc he hne hq h).trans ?_
  have hsmall : 0 ≤ (1 + |toRat a|) * smallest := mul_nonneg (by positivity) smallest_pos.le
  have hrest : 0 ≤ |toRat a| / |toRat e| * |toRat c| := by positivity
  have hrest' : 0 ≤ |toRat a| / |toRat e| * |toRat (correct c)| := by positivity
  rw [roundoff]
  linarith [abs_nonneg (toRat b), abs_nonneg (toRat (correct b))]

end

section

variable (hapos : 0 < toRat a) (hepos : 0 < toRat e) (hbnonneg : 0 ≤ toRat (correct b))
  (hcnonneg : 0 ≤ toRat (correct c)) (hq : (c / e).isFinite = true)
  (hlimit : (correct c / e).isFinite = true)

include hc he hepos hcnonneg hq in
/-- The growth falls below zero only as far as the right-hand side of its row has been below
zero. -/
theorem neg_displacement_le :
    -(displacement c + |toRat c| / 2 ^ 52) / toRat e - smallest ≤ toRat (c / e) := by
  have hround := (rounds_div hc he hepos.ne').sub_le_toRat hq
  have hmoved := div_le_div_of_nonneg_right (toRat_correct_le c) hepos.le
  have hnonneg := div_nonneg hcnonneg hepos.le
  rw [abs_div, abs_of_pos hepos] at hround
  rw [add_div] at hmoved
  rw [neg_div, add_div, div_right_comm]
  linarith

include hc he hepos hcnonneg hq hlimit in
/-- The growth that a pivot brings about, beside the corrected limit of its row. -/
theorem growth_le : toRat (c / e) ≤ toRat (correct (correct c / e)) +
    (displacement (correct c / e) + displacement c / toRat e) +
    (|toRat c| + toRat (correct c)) / toRat e / 2 ^ 52 + 2 * smallest := by
  have hgrowth := (rounds_div hc he hepos.ne').toRat_le_add hq
  have hcompared := (rounds_div (isFinite_correct hc) he hepos.ne').sub_le_toRat hlimit
  have hmoved := toRat_le_correct (correct c / e)
  have hcorrected := div_le_div_of_nonneg_right (toRat_le_correct c) hepos.le
  rw [abs_div, abs_of_pos hepos] at hgrowth
  rw [abs_of_nonneg (div_nonneg hcnonneg hepos.le)] at hcompared
  rw [add_div] at hcorrected
  rw [add_div |toRat c|]
  linarith

include ha hb hapos hbnonneg in
/-- What the corrected limit of a row takes from its right-hand side. -/
theorem mul_limit_le (hlimit : (correct b / a).isFinite = true) :
    toRat a * toRat (correct (correct b / a)) ≤ toRat b + displacement b +
      toRat a * displacement (correct b / a) + toRat (correct b) / 2 ^ 52 + toRat a * smallest := by
  have hround := (rounds_div (isFinite_correct hb) ha hapos.ne').toRat_le_add hlimit
  rw [abs_of_nonneg (div_nonneg hbnonneg hapos.le)] at hround
  have hcorrected := toRat_correct_le b
  have hmoved := toRat_correct_le (correct b / a)
  calc toRat a * toRat (correct (correct b / a))
      ≤ toRat a * (toRat (correct b) / toRat a + toRat (correct b) / toRat a / 2 ^ 52 + smallest +
          displacement (correct b / a)) :=
        mul_le_mul_of_nonneg_left (hmoved.trans (add_le_add_left hround _)) hapos.le
    _ = toRat (correct b) + toRat (correct b) / 2 ^ 52 + toRat a * smallest +
          toRat a * displacement (correct b / a) := by field_simp
    _ ≤ _ := by linarith

include ha hb hc he hapos hepos hbnonneg hcnonneg hq hlimit

/-- The growth takes from the right-hand side no more than there is, up to the corrections. A limit
that overflows is above the growth in any case. -/
theorem mul_growth_le (hle : (correct b / a).isFinite = true →
      toRat (correct (correct c / e)) ≤ toRat (correct (correct b / a))) :
    toRat a * toRat (c / e) ≤ toRat b + shortfall a b c e +
      (toRat (correct b) + toRat a / toRat e * (|toRat c| + toRat (correct c))) / 2 ^ 52 +
      3 * toRat a * smallest := by
  have hgrowth := growth_le hc he hepos hcnonneg hq hlimit
  have hsmall := mul_nonneg hapos.le smallest_pos.le
  have hrest : 0 ≤ toRat a / toRat e * (|toRat c| + toRat (correct c)) := by positivity
  rw [shortfall]
  cases hfinite : (correct b / a).isFinite with
  | true =>
    have htaken := mul_limit_le ha hb hapos hbnonneg hfinite
    calc toRat a * toRat (c / e)
        ≤ toRat a * (toRat (correct (correct b / a)) +
            (displacement (correct c / e) + displacement c / toRat e) +
            (|toRat c| + toRat (correct c)) / toRat e / 2 ^ 52 + 2 * smallest) :=
          mul_le_mul_of_nonneg_left (by linarith [hle hfinite]) hapos.le
      _ = toRat a * toRat (correct (correct b / a)) +
            toRat a * (displacement (correct c / e) + displacement c / toRat e) +
            toRat a / toRat e * (|toRat c| + toRat (correct c)) / 2 ^ 52 +
            2 * (toRat a * smallest) := by ring
      _ ≤ _ := by linarith
  | false =>
    have hbelow := (rounds_div (isFinite_correct hb) ha hapos.ne').toRat_lt
      (div_nonneg hbnonneg hapos.le) hfinite hq
    rw [lt_div_iff₀ hapos] at hbelow
    have hcorrected := toRat_correct_le b
    have hmoved : 0 ≤ toRat a * (displacement (correct b / a) + displacement (correct c / e) +
        displacement c / toRat e) := by
      have hlimits :=
        add_nonneg (displacement_nonneg (correct b / a)) (displacement_nonneg (correct c / e))
      exact mul_nonneg hapos.le
        (add_nonneg hlimits (div_nonneg (displacement_nonneg c) hepos.le))
    linarith

/-- The right-hand side does not fall further below zero than the corrections and the rounding
allow. -/
theorem neg_shortfall_le (h : (b - a * (c / e)).isFinite = true)
    (hle : (correct b / a).isFinite = true →
      toRat (correct (correct c / e)) ≤ toRat (correct (correct b / a))) :
    -(shortfall a b c e + roundoff a b c e) ≤ toRat (b - a * (c / e)) := by
  have hremainder := (abs_le.1 (abs_remainder_le ha hb hc he hepos.ne' hq h)).1
  have htaken := mul_growth_le ha hb hc he hapos hepos hbnonneg hcnonneg hq hlimit hle
  have hsmall := mul_nonneg hapos.le smallest_pos.le
  have hpos := smallest_pos
  have hrest : 0 ≤ toRat a / toRat e * |toRat c| := by positivity
  have hrest' : 0 ≤ toRat a / toRat e * toRat (correct c) := by positivity
  rw [roundoff, abs_of_pos hapos, abs_of_pos hepos, abs_of_nonneg hbnonneg, abs_of_nonneg hcnonneg]
  rw [abs_of_pos hapos, abs_of_pos hepos] at hremainder
  linarith [abs_nonneg (toRat b)]

end

end

end Double

open Double

/-! ### The pivot row -/

/-- The pivot is on an element that is read as positive, and the limit of its row is read as no
larger than that of any other row which is compared. -/
structure Pivot.IsTightAsRead (p : Pivot Float) (t : Tableau Float) : Prop where
  readsOff : p.ReadsOff t
  isPositive_element : isPositive p.element = true
  isFinite_limit : (correct (t.rhs.getD p.row 0) / p.element).isFinite = true
  limit_le : ∀ i < t.height, isPositive (t.rows.entry i p.column) = true →
    (correct (t.rhs.getD i 0) / t.rows.entry i p.column).isFinite = true →
    toRat (correct (correct (t.rhs.getD p.row 0) / p.element)) ≤
      toRat (correct (correct (t.rhs.getD i 0) / t.rows.entry i p.column))

namespace Selection

theorem isTightAsRead_of_ratioTest {t : Tableau Float} (ht : t.IsValid)
    (hrhs : ∀ i < t.height, (t.rhs.getD i 0).isFinite = true)
    (hneg : ∀ i < t.height, isNegative (t.rhs.getD i 0) = false) {column : Nat} {rule : PivotRule}
    {precedes : Nat → Nat → Bool} {p : Pivot Float}
    (h : ratioTest t column rule precedes = .ok (.pivot p)) : p.IsTightAsRead t := by
  obtain ⟨entries, hentries, ⟨hnone, -⟩ | ⟨q, hsome, -, rfl, hp, hpos, hratios, hleast⟩⟩ :=
    ratioTest_cases h
  · cases hnone
  cases hsome
  have hnumbers : ∀ v, some v ∈ (List.zipWith growthRatio entries t.rhs).map (·.filter limits) →
      (correct v).isFinite = true := fun v hv => by
    obtain ⟨i, hi⟩ := List.getElem?_of_mem hv
    obtain ⟨-, -, -, hlimits⟩ := (getElem?_limits_eq_some ht hentries).1 hi
    exact isFinite_correct (Bool.and_eq_true _ _ ▸ hlimits).1
  rw [hratios] at hleast
  obtain ⟨v, hv, hle⟩ := comparesAs_toRat.leastIndexBy?_le hnumbers hleast
  obtain ⟨-, -, rfl, hlimits⟩ := (getElem?_limits_eq_some ht hentries).1 hv
  rw [← hp.element_eq_entry] at hle hlimits
  refine ⟨hp, hpos, (Bool.and_eq_true _ _ ▸ hlimits).1, fun i hi hentry hfinite => hle _ ?_⟩
  have hnonneg := toRat_correct_nonneg (hrhs i hi) (hneg i hi)
  have hbelow := not_div_lt_zero (isFinite_correct (hrhs i hi)) hnonneg hentry hfinite
  have hlimits : limits (correct (t.rhs.getD i 0) / t.rows.entry i p.column) = true := by
    rw [limits, decide_eq_false hbelow]
    exact congrArg (· && true) hfinite
  exact List.mem_of_getElem? ((getElem?_limits_eq_some ht hentries).2 ⟨hi, hentry, rfl, hlimits⟩)

end Selection

/-! ### All rows -/

namespace Pivot

/-- How far the right-hand side of a row can fall below zero by a pivot of the ratio test. -/
def leeway (p : Pivot Float) (t : Tableau Float) (i : Nat) : ℚ :=
  shortfall (t.rows.entry i p.column) (t.rhs.getD i 0) (t.rhs.getD p.row 0) p.element +
    roundoff (t.rows.entry i p.column) (t.rhs.getD i 0) (t.rhs.getD p.row 0) p.element

/-- The corrections are bounded, so a row has little leeway unless its entry is large or the pivot
element is small. -/
theorem leeway_le {p : Pivot Float} {t : Tableau Float} {i : Nat}
    (hentry : 0 ≤ toRat (t.rows.entry i p.column)) (helement : 0 ≤ toRat p.element) :
    p.leeway t i ≤ (1 + toRat (t.rows.entry i p.column) * (2 + 1 / toRat p.element)) / 2 ^ 18 +
      roundoff (t.rows.entry i p.column) (t.rhs.getD i 0) (t.rhs.getD p.row 0) p.element := by
  have hquotient := div_le_div_of_nonneg_right (displacement_le (t.rhs.getD p.row 0)) helement
  have hlimits := add_le_add (displacement_le (correct (t.rhs.getD i 0) / t.rows.entry i p.column))
    (displacement_le (correct (t.rhs.getD p.row 0) / p.element))
  have hscaled := mul_le_mul_of_nonneg_left (add_le_add hlimits hquotient) hentry
  refine add_le_add_left ?_ _
  calc _ ≤ 1 / 2 ^ 18 + toRat (t.rows.entry i p.column) *
          (1 / 2 ^ 18 + 1 / 2 ^ 18 + 1 / 2 ^ 18 / toRat p.element) :=
        add_le_add (displacement_le _) hscaled
    _ = _ := by ring

/-- What a pivot of the ratio test makes of the right-hand sides. -/
structure Spares (p : Pivot Float) (t t' : Tableau Float) : Prop where
  /-- The right-hand side of the pivot row stays at zero or above. -/
  pivot_row : 0 ≤ toRat (t.rhs.getD p.row 0) → 0 ≤ toRat (t'.rhs.getD p.row 0)
  /-- If it has been below zero, although it is read as zero, it is divided like any other. -/
  pivot_row_below : -(displacement (t.rhs.getD p.row 0) + |toRat (t.rhs.getD p.row 0)| / 2 ^ 52) /
    toRat p.element - smallest ≤ toRat (t'.rhs.getD p.row 0)
  /-- No right-hand side falls unless something is taken from it. -/
  away : ∀ i < t.height, i ≠ p.row →
    toRat (t.rows.entry i p.column) * toRat (t'.rhs.getD p.row 0) ≤ 0 →
      toRat (t.rhs.getD i 0) ≤ toRat (t'.rhs.getD i 0)
  /-- What is taken is the multiple of the pivot row that the entry asks for. -/
  taken : ∀ i < t.height, i ≠ p.row → |toRat (t'.rhs.getD i 0) - (toRat (t.rhs.getD i 0) -
      toRat (t.rows.entry i p.column) * toRat (t'.rhs.getD p.row 0))| ≤
    roundoff (t.rows.entry i p.column) (t.rhs.getD i 0) (t.rhs.getD p.row 0) p.element
  /-- A row that has been compared does not fall below zero by more than its leeway. -/
  compared : ∀ i < t.height, i ≠ p.row → isPositive (t.rows.entry i p.column) = true →
    -p.leeway t i ≤ toRat (t'.rhs.getD i 0)

/-- A row with entry zero is left alone, and any other one loses a rounded multiple of the pivot
row. -/
theorem rhs_apply_cases {p : Pivot Float} {t t' : Tableau Float} (ht : t.IsValid)
    (hp : p.ReadsOff t) (h : p.apply t = .ok t') {i : Nat} (hi : i < t.height) (hip : i ≠ p.row) :
    (t.rows.entry i p.column == 0) = true ∧ t'.rhs.getD i 0 = t.rhs.getD i 0 ∨
      t'.rhs.getD i 0 =
        t.rhs.getD i 0 - t.rows.entry i p.column * (t.rhs.getD p.row 0 / p.element) := by
  rw [getD_rhs_apply ht hp h hi, if_neg hip, Tableau.clearRhs]
  split
  · next hzero => exact .inl ⟨hzero, rfl⟩
  · exact .inr rfl

section

variable {p : Pivot Float} {t t' : Tableau Float} (ht : t.IsValid)
  (hrows : ∀ row ∈ t.rows, ∀ v ∈ row, v.isFinite = true)
  (hrhs : ∀ i < t.height, (t.rhs.getD i 0).isFinite = true)
  (hneg : ∀ i < t.height, isNegative (t.rhs.getD i 0) = false) (hp : p.IsTightAsRead t)
  (h : p.apply t = .ok t') (hrhs' : ∀ i < t.height, (t'.rhs.getD i 0).isFinite = true)

include ht hrows hrhs hneg hp h hrhs'

theorem spares_of_isTightAsRead : p.Spares t t' := by
  have hrow := hp.readsOff.row_lt
  have hcolumn := hp.readsOff.column_lt ht
  have hentry : ∀ i < t.height, (t.rows.entry i p.column).isFinite = true := fun i hi => by
    obtain ⟨row, hmem, hv⟩ := ht.hasShape.entry_mem hi hcolumn
    exact hrows row hmem _ hv
  have helement : p.element.isFinite = true := hp.readsOff.element_eq_entry ▸ hentry _ hrow
  have hpositive : 0 < toRat p.element := toRat_pos_of_isPositive helement hp.isPositive_element
  have hquotient : t'.rhs.getD p.row 0 = t.rhs.getD p.row 0 / p.element := by
    rw [getD_rhs_apply ht hp.readsOff h hrow, if_pos rfl]
  have hq : (t.rhs.getD p.row 0 / p.element).isFinite = true := hquotient ▸ hrhs' _ hrow
  have hcnonneg := toRat_correct_nonneg (hrhs _ hrow) (hneg _ hrow)
  refine ⟨fun hnonneg => ?_, ?_, fun i hi hip hle => ?_, fun i hi hip => ?_,
    fun i hi hip hpos => ?_⟩
  · rw [hquotient]
    exact (rounds_div (hrhs _ hrow) helement hpositive.ne').le_toRat hq isDouble_zero
      (div_nonneg hnonneg hpositive.le)
  · rw [hquotient]
    exact neg_displacement_le (hrhs _ hrow) helement hpositive hcnonneg hq
  · rcases rhs_apply_cases ht hp.readsOff h hi hip with ⟨-, heq⟩ | heq
    · rw [heq]
    · rw [heq]
      rw [hquotient] at hle
      exact le_sub_mul (hentry i hi) (hrhs i hi) hq (heq ▸ hrhs' i hi) hle
  · rcases rhs_apply_cases ht hp.readsOff h hi hip with ⟨hzero, heq⟩ | heq
    · rw [beq_iff_toRat (hentry i hi) isFinite_zero, toRat_zero] at hzero
      rw [heq, hzero, zero_mul, sub_zero, sub_self, abs_zero]
      exact roundoff_nonneg _ _ _ _
    · rw [heq, hquotient]
      exact abs_remainder_le_roundoff (hentry i hi) (hrhs i hi) (hrhs _ hrow) helement
        hpositive.ne' hq (heq ▸ hrhs' i hi)
  · rcases rhs_apply_cases ht hp.readsOff h hi hip with ⟨hzero, -⟩ | heq
    · rw [isPositive_of_beq_zero hzero] at hpos
      cases hpos
    · rw [leeway, heq]
      exact neg_shortfall_le (hentry i hi) (hrhs i hi) (hrhs _ hrow) helement
        (toRat_pos_of_isPositive (hentry i hi) hpos) hpositive
        (toRat_correct_nonneg (hrhs i hi) (hneg i hi)) hcnonneg hq hp.isFinite_limit
        (heq ▸ hrhs' i hi) (hp.limit_le i hi hpos)

end

/-- The pivot leaves room for the corrections: the right-hand side of its row is not below zero, no
row that is compared has a leeway beyond the tolerance of a sign, and no entry above zero is read as
zero. -/
structure IsSafe (p : Pivot Float) (t : Tableau Float) : Prop where
  rhs_nonneg : 0 ≤ toRat (t.rhs.getD p.row 0)
  leeway_le : ∀ i < t.height, i ≠ p.row → isPositive (t.rows.entry i p.column) = true →
    p.leeway t i ≤ toRat 1e-9
  entry_nonpos : ∀ i < t.height, isPositive (t.rows.entry i p.column) = false →
    toRat (t.rows.entry i p.column) ≤ 0

theorem Spares.isFeasible {p : Pivot Float} {t t' : Tableau Float} (h : p.Spares t t')
    (hp : p.IsSafe t) (ht' : t'.IsValid) (hheight : t'.height = t.height)
    (hrhs : ∀ i < t.height, (t.rhs.getD i 0).isFinite = true)
    (hneg : ∀ i < t.height, isNegative (t.rhs.getD i 0) = false)
    (hrhs' : ∀ i < t.height, (t'.rhs.getD i 0).isFinite = true) (reduced : List Float) :
    (Standing.classify t'.rhs reduced).isFeasible = true := by
  rw [Standing.isFeasible_classify, ht'.forall_mem_rhs_iff, hheight]
  intro i hi
  rw [isNegative_eq_false_iff_toRat (hrhs' i hi)]
  have htolerance : 0 ≤ toRat 1e-9 := relativeTolerance_eq ▸ relativeTolerance_pos.le
  have hgrowth := h.pivot_row hp.rhs_nonneg
  by_cases hip : i = p.row
  · rw [hip]
    linarith
  cases hpos : isPositive (t.rows.entry i p.column) with
  | true => linarith [h.compared i hi hip hpos, hp.leeway_le i hi hip hpos]
  | false =>
    have htaken := mul_nonpos_of_nonpos_of_nonneg (hp.entry_nonpos i hi hpos) hgrowth
    exact ((isNegative_eq_false_iff_toRat (hrhs i hi)).1 (hneg i hi)).trans (h.away i hi hip htaken)

end Pivot

/-- A product that uses two resources, in doubles. -/
def Tableau.twoLimits (entry first second : Float) : Tableau Float where
  rows := [[1, 1, 0], [entry, 0, 1]]
  rhs := [first, second]
  costs := [1, 0, 0]
  names := ["x", "s1", "s2"]
  basis := ["s1", "s2"]

namespace Selection

/-- Where no right-hand side is read as negative, a pivot of either rule that improves the objective
does not lead further below zero than its leeway, and not at all if it is safe. -/
theorem spares_of_select {t t' : Tableau Float} {reduced : List Float} {p : Pivot Float}
    (ht : t.IsValid) (hrows : ∀ row ∈ t.rows, ∀ v ∈ row, v.isFinite = true)
    (hrhs : ∀ v ∈ t.rhs, v.isFinite = true)
    (hfeasible : (Standing.classify t.rhs reduced).isFeasible = true)
    (hselect : dantzig t reduced = .ok (.pivot p) ∨
      ∃ columns, bland t reduced columns = .ok (.pivot p))
    (h : p.apply t = .ok t') (hrhs' : ∀ v ∈ t'.rhs, v.isFinite = true) :
    p.Spares t t' ∧
      (p.IsSafe t → ∀ reduced', (Standing.classify t'.rhs reduced').isFeasible = true) := by
  have hneg := ht.forall_mem_rhs_iff.1 (Standing.isFeasible_classify.1 hfeasible)
  rw [ht.forall_mem_rhs_iff] at hrhs
  have htight : p.IsTightAsRead t := by
    rcases hselect with hdantzig | ⟨columns, hbland⟩
    · obtain ⟨column, htest⟩ := ratioTest_of_dantzig hdantzig
      exact isTightAsRead_of_ratioTest ht hrhs hneg htest
    · obtain ⟨column, precedes, htest⟩ := ratioTest_of_bland hbland
      exact isTightAsRead_of_ratioTest ht hrhs hneg htest
  have hex := Pivot.exchanges_of_apply ht htight.readsOff h
  have ht' := hex.isValid ht
  rw [ht'.forall_mem_rhs_iff, hex.height_eq] at hrhs'
  have hspares := Pivot.spares_of_isTightAsRead ht hrows hrhs hneg htight h hrhs'
  exact ⟨hspares, fun hsafe => hspares.isFeasible hsafe ht' hex.height_eq hrhs hneg hrhs'⟩

/-- Two limits that lie far apart leave room for the corrections. -/
theorem spares_of_select_twoLimits :
    let t := Tableau.twoLimits 1 2 3
    let p : Pivot Float := ⟨.dantzig, 0, 0, 1, [1, 1], [some 2, some 3]⟩
    ∃ costs t', ReducedCosts.compute t = .ok costs ∧ dantzig t costs.reduced = .ok (.pivot p) ∧
      p.apply t = .ok t' ∧ p.Spares t t' ∧
      ∀ reduced, (Standing.classify t'.rhs reduced).isFeasible = true := by
  intro t p
  have hchain : (do
      let costs ← ReducedCosts.compute t
      let selection ← dantzig t costs.reduced
      let t' ← p.apply t
      return (selection, (Standing.classify t.rhs costs.reduced).isFeasible,
        t'.rhs.all Float.isFinite) : Outcome (Selection Float × Bool × Bool)) =
      .ok (.pivot p, true, true) := by decide +kernel
  obtain ⟨costs, hcosts, hchain⟩ := Outcome.bind_eq_ok.1 hchain
  obtain ⟨selection, hselection, hchain⟩ := Outcome.bind_eq_ok.1 hchain
  obtain ⟨t', happly, hchain⟩ := Outcome.bind_eq_ok.1 hchain
  simp only [Outcome.pure_eq, Except.ok.injEq, Prod.mk.injEq] at hchain
  obtain ⟨rfl, hfeasible, hrhs'⟩ := hchain
  have ht : t.IsCanonical := by decide +kernel
  have hsafe : p.IsSafe t := ⟨by decide +kernel, by decide +kernel, by decide +kernel⟩
  obtain ⟨hspares, hkeeps⟩ := spares_of_select ht.toIsValid (by decide +kernel) (by decide +kernel)
    hfeasible (.inl hselection) happly (List.all_eq_true.1 hrhs')
  exact ⟨costs, t', hcosts, hselection, happly, hspares, hkeeps hsafe⟩

/-- The pivot that the rule of least reduced cost finds in an improvable tableau makes it
infeasible. -/
def LosesFeasibility (t : Tableau Float) (p : Pivot Float) : Prop :=
  ∃ costs t' costs' row, ReducedCosts.compute t = .ok costs ∧
    Standing.classify t.rhs costs.reduced = .improvable ∧ dantzig t costs.reduced = .ok (.pivot p) ∧
    p.apply t = .ok t' ∧ ReducedCosts.compute t' = .ok costs' ∧ t'.IsFinite ∧
    Standing.classify t'.rhs costs'.reduced = .infeasible row

theorem losesFeasibility_of_step {t : Tableau Float} {p : Pivot Float} (row : Nat)
    (hstep : (do
      let costs ← ReducedCosts.compute t
      let selection ← dantzig t costs.reduced
      let t' ← p.apply t
      let costs' ← ReducedCosts.compute t'
      return (Standing.classify t.rhs costs.reduced, selection, decide t'.IsFinite,
        Standing.classify t'.rhs costs'.reduced) :
          Outcome (Standing × Selection Float × Bool × Standing)) =
      .ok (.improvable, .pivot p, true, .infeasible row)) : LosesFeasibility t p := by
  obtain ⟨costs, hcosts, hstep⟩ := Outcome.bind_eq_ok.1 hstep
  obtain ⟨selection, hselection, hstep⟩ := Outcome.bind_eq_ok.1 hstep
  obtain ⟨t', happly, hstep⟩ := Outcome.bind_eq_ok.1 hstep
  obtain ⟨costs', hcosts', hstep⟩ := Outcome.bind_eq_ok.1 hstep
  simp only [Outcome.pure_eq, Except.ok.injEq, Prod.mk.injEq, decide_eq_true_eq] at hstep
  obtain ⟨hbefore, rfl, hfinite, hafter⟩ := hstep
  exact ⟨costs, t', costs', row, hcosts, hbefore, hselection, happly, hcosts', hfinite, hafter⟩

/-- A pivot of the ratio test can make a tableau infeasible. Two limits that are not the same can be
read as the same, so that the first of them is taken and not the least; an entry that is read as
zero can be above zero, and its row is not compared; and a right-hand side that is read as zero can
be below zero, and is divided by a small element. -/
theorem losesFeasibility_twoLimits :
    let equal := Tableau.twoLimits 1 1000 999.9999991
    let unread := Tableau.twoLimits 1e-10 100 0
    let below := Tableau.twoLimits 1e-8 1 (-1e-9)
    (equal.IsCanonical ∧ equal.IsFinite ∧
      LosesFeasibility equal ⟨.dantzig, 0, 0, 1, [1, 1], [some 1000, some 1000]⟩) ∧
    (unread.IsCanonical ∧ unread.IsFinite ∧
      LosesFeasibility unread ⟨.dantzig, 0, 0, 1, [1, 1e-10], [some 100, none]⟩) ∧
    below.IsCanonical ∧ below.IsFinite ∧
      LosesFeasibility below ⟨.dantzig, 1, 0, 1e-8, [1, 1e-8], [some 1, some 0]⟩ := by
  refine ⟨⟨by decide +kernel, by decide +kernel, ?_⟩, ⟨by decide +kernel, by decide +kernel, ?_⟩,
    by decide +kernel, by decide +kernel, ?_⟩
  · exact losesFeasibility_of_step 1 (by decide +kernel)
  · exact losesFeasibility_of_step 1 (by decide +kernel)
  · exact losesFeasibility_of_step 1 (by decide +kernel)

end Selection

end LinProg
