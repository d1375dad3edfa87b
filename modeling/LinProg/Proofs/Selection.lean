import LinProg.Proofs.Canonical
import LinProg.Proofs.Least
import LinProg.Selection
import LinProg.Standing

/-!
# What the pivot rules find

Each rule either chooses a pivot or ends a run. A pivot is read off the tableau: its column and its
element are the ones that stand there, and the element has the sign that the rule asks for. If a
rule ends the run, no ratio could be used. On a well-formed tableau every rule gives a result.
-/

namespace LinProg

variable {α : Type} [Scalar α]

open Scalar Arithmetic

/-! ### Standing -/

namespace Standing

variable {rhs reduced : List α}

theorem leastIndex?_negative_eq_none :
    leastIndex? (rhs.map fun value => if isNegative value then some value else none) = none ↔
      ∀ v ∈ rhs, isNegative v = false := by
  rw [leastIndex?, leastIndexBy?_eq_none, List.forall_mem_map]
  refine forall₂_congr fun v _ => ?_
  cases isNegative v <;> simp

/-- A tableau is infeasible in a row whose right-hand side is negative. -/
theorem negative_of_classify {row : Nat} (h : classify rhs reduced = .infeasible row) :
    ∃ v, rhs[row]? = some v ∧ isNegative v = true := by
  unfold classify at h
  split at h
  · next row' hleast =>
    cases h
    obtain ⟨v, hv⟩ := getElem?_of_leastIndexBy? hleast
    rw [List.getElem?_map, Option.map_eq_some_iff] at hv
    obtain ⟨v', hv', h⟩ := hv
    split at h
    · next hneg => exact ⟨v', hv', hneg⟩
    · simp at h
  · split at h <;> simp at h

/-- A tableau is optimal if no right-hand side and no reduced cost is negative. -/
theorem classify_eq_optimal :
    classify rhs reduced = .optimal ↔
      (∀ v ∈ rhs, isNegative v = false) ∧ ∀ v ∈ reduced, 0 ≤ correct v := by
  unfold classify
  rw [← leastIndex?_negative_eq_none]
  cases leastIndex? (rhs.map fun value => if isNegative value then some value else none) with
  | some row => simp
  | none => simp

/-- A tableau can be improved if no right-hand side is negative but some reduced cost is not
non-negative. -/
theorem classify_eq_improvable :
    classify rhs reduced = .improvable ↔
      (∀ v ∈ rhs, isNegative v = false) ∧ ∃ v ∈ reduced, ¬ 0 ≤ correct v := by
  unfold classify
  rw [← leastIndex?_negative_eq_none]
  cases leastIndex? (rhs.map fun value => if isNegative value then some value else none) with
  | some row => simp
  | none => simp

/-- A tableau is feasible if no right-hand side is negative. -/
theorem isFeasible_classify :
    (classify rhs reduced).isFeasible = true ↔ ∀ v ∈ rhs, isNegative v = false := by
  unfold classify
  rw [← leastIndex?_negative_eq_none]
  cases leastIndex? (rhs.map fun value => if isNegative value then some value else none) with
  | some row => simp [isFeasible, lowestRow?]
  | none =>
    dsimp only
    split <;> simp [isFeasible, lowestRow?]

end Standing

/-! ### Pivots that are read off a tableau -/

/-- The column vector of the pivot is its column of the tableau, and its element is the entry of the
pivot row there. -/
structure Pivot.ReadsOff (p : Pivot α) (t : Tableau α) : Prop where
  column_eq : t.rows.column p.column = .ok p.columnVector
  element_eq : p.columnVector[p.row]? = some p.element

theorem Pivot.ReadsOff.element_eq_entry {p : Pivot α} {t : Tableau α} (h : p.ReadsOff t) :
    p.element = t.rows.entry p.row p.column := by
  obtain ⟨-, hcolumn⟩ := Rows.column_eq_ok.1 h.column_eq
  rw [← Rows.getD_map_getD, ← hcolumn, List.getD_eq_getElem?_getD, h.element_eq, Option.getD_some]

namespace Selection

variable {t : Tableau α}

/-- The repair of a row finds it infeasible if no ratio is finite. Otherwise it pivots on a negative
entry of the row, at the column of the least finite ratio. -/
theorem repair_cases {reduced : List α} {row : Nat} {selection : Selection α}
    (h : repair t reduced row = .ok selection) :
    ∃ entries, t.rows[row]? = some entries ∧
      ((selection = .infeasible row ∧
          ∀ r, some r ∈ List.zipWith repairRatio entries reduced → isFinite r = false) ∨
        ∃ p, selection = .pivot p ∧ p.rule = .infeasibility ∧ p.row = row ∧ p.ReadsOff t ∧
          isNegative p.element = true ∧ p.ratios = List.zipWith repairRatio entries reduced ∧
          leastIndex? (p.ratios.map (·.filter isFinite)) = some p.column) := by
  obtain ⟨entries, hentries, h⟩ := Outcome.bind_eq_ok.1 h
  rw [Outcome.inRange_eq_ok] at hentries
  refine ⟨entries, hentries, ?_⟩
  dsimp only at h
  split at h
  · next hleast =>
    cases h
    refine .inl ⟨rfl, fun r hr => ?_⟩
    have := leastIndexBy?_eq_none.1 hleast _ (List.mem_map_of_mem hr)
    simpa using this
  · next column hleast =>
    obtain ⟨element, helement, h⟩ := Outcome.bind_eq_ok.1 h
    rw [Outcome.inRange_eq_ok] at helement
    obtain ⟨columnVector, hcolumn, h⟩ := Outcome.bind_eq_ok.1 h
    cases h
    refine .inr ⟨_, rfl, rfl, rfl, ⟨hcolumn, ?_⟩, ?_, rfl, hleast⟩
    · obtain ⟨-, rfl⟩ := Rows.column_eq_ok.1 hcolumn
      simp [hentries, helement]
    · obtain ⟨v, hv⟩ := getElem?_of_leastIndexBy? hleast
      rw [List.getElem?_map, Option.map_eq_some_iff] at hv
      obtain ⟨ratio, hratio, hv⟩ := hv
      obtain ⟨entry, cost, hentry, -, rfl⟩ := List.getElem?_zipWith_eq_some.1 hratio
      rw [helement] at hentry
      cases hentry
      by_contra hneg
      simp [repairRatio, hneg] at hv

/-- The ratio test finds its column unbounded if no ratio is a limit. Otherwise it pivots on a
positive entry of the column, at the row of the least limit. -/
theorem ratioTest_cases {column : Nat} {rule : PivotRule} {precedes : Nat → Nat → Bool}
    {selection : Selection α} (h : ratioTest t column rule precedes = .ok selection) :
    ∃ entries, t.rows.column column = .ok entries ∧
      ((selection = .unbounded column ∧
          ∀ r, some r ∈ List.zipWith growthRatio entries t.rhs → limits r = false) ∨
        ∃ p, selection = .pivot p ∧ p.rule = rule ∧ p.column = column ∧ p.ReadsOff t ∧
          isPositive p.element = true ∧ p.ratios = List.zipWith growthRatio entries t.rhs ∧
          leastIndexBy? precedes (p.ratios.map (·.filter limits)) = some p.row) := by
  obtain ⟨entries, hentries, h⟩ := Outcome.bind_eq_ok.1 h
  refine ⟨entries, hentries, ?_⟩
  dsimp only at h
  split at h
  · next hleast =>
    cases h
    refine .inl ⟨rfl, fun r hr => ?_⟩
    have := leastIndexBy?_eq_none.1 hleast _ (List.mem_map_of_mem hr)
    simpa using this
  · next row hleast =>
    obtain ⟨element, helement, h⟩ := Outcome.bind_eq_ok.1 h
    rw [Outcome.inRange_eq_ok] at helement
    cases h
    refine .inr ⟨_, rfl, rfl, rfl, ⟨hentries, helement⟩, ?_, rfl, hleast⟩
    obtain ⟨v, hv⟩ := getElem?_of_leastIndexBy? hleast
    rw [List.getElem?_map, Option.map_eq_some_iff] at hv
    obtain ⟨ratio, hratio, hv⟩ := hv
    obtain ⟨entry, value, hentry, -, rfl⟩ := List.getElem?_zipWith_eq_some.1 hratio
    rw [helement] at hentry
    cases hentry
    by_contra hpos
    simp [growthRatio, hpos] at hv

/-- The limits that the ratio test compares: each row with a positive entry in the column sets one,
if it is a number that is not negative. -/
theorem getElem?_limits_eq_some (ht : t.IsValid) {column : Nat} {entries : List α}
    (hentries : t.rows.column column = .ok entries) {i : Nat} {v : α} :
    ((List.zipWith growthRatio entries t.rhs).map (·.filter limits))[i]? = some (some v) ↔
      i < t.height ∧ isPositive (t.rows.entry i column) = true ∧
        correct (t.rhs.getD i 0) / t.rows.entry i column = v ∧ limits v = true := by
  obtain ⟨-, rfl⟩ := Rows.column_eq_ok.1 hentries
  rcases lt_or_ge i t.height with hi | hi
  · obtain ⟨row, hrow, -⟩ := ht.hasShape.exists_row hi
    have hvalue : t.rhs[i]? = some (t.rhs.getD i 0) := by
      have hi' : i < t.rhs.length := ht.length_rhs.symm ▸ hi
      rw [List.getD_eq_getElem _ _ hi', List.getElem?_eq_getElem hi']
    rw [List.getElem?_map, List.getElem?_zipWith, List.getElem?_map, hrow, hvalue,
      Option.map_some, Rows.entry_of_getElem? hrow]
    dsimp only [Option.map_some]
    rw [Option.some_inj, Option.filter_eq_some_iff, growthRatio]
    by_cases hpos : isPositive (row.getD column 0) = true
    · rw [if_pos hpos, Option.some_inj]
      exact ⟨fun h => ⟨hi, hpos, h⟩, fun h => h.2.2⟩
    · rw [if_neg hpos]
      exact ⟨fun h => (Option.some_ne_none v h.1.symm).elim, fun h => (hpos h.2.1).elim⟩
  · have hnone : ((List.zipWith growthRatio (t.rows.map (·.getD column 0)) t.rhs).map
        (·.filter limits))[i]? = none := by
      refine List.getElem?_eq_none ?_
      rw [List.length_map, List.length_zipWith, List.length_map, ht.length_rhs]
      exact (min_le_right _ _).trans hi
    rw [hnone]
    exact ⟨fun h => (Option.some_ne_none _ h.symm).elim, fun h => absurd h.1 (not_lt.2 hi)⟩

/-! ### The rule of a pivot -/

section

variable {reduced : List α} {p : Pivot α}

theorem rule_of_ratioTest {column : Nat} {rule : PivotRule} {precedes : Nat → Nat → Bool}
    (h : ratioTest t column rule precedes = .ok (.pivot p)) : p.rule = rule := by
  obtain ⟨_, -, ⟨h, -⟩ | ⟨p', h, hrule, -⟩⟩ := ratioTest_cases h
  · cases h
  · cases h
    exact hrule

/-- The ratio test pivots at a row that has a ratio. -/
theorem exists_ratio_of_ratioTest {column : Nat} {rule : PivotRule} {precedes : Nat → Nat → Bool}
    (h : ratioTest t column rule precedes = .ok (.pivot p)) :
    ∃ ratio, p.ratios[p.row]? = some (some ratio) := by
  obtain ⟨_, -, ⟨h, -⟩ | ⟨p', h, -, -, -, -, -, hleast⟩⟩ := ratioTest_cases h
  · cases h
  · cases h
    obtain ⟨v, hv⟩ := getElem?_of_leastIndexBy? hleast
    rw [List.getElem?_map, Option.map_eq_some_iff] at hv
    obtain ⟨ratio, hratio, hv⟩ := hv
    obtain ⟨rfl, -⟩ := Option.filter_eq_some_iff.1 hv
    exact ⟨v, hratio⟩

/-- Both rules that improve the objective pivot by the ratio test. -/
theorem ratioTest_of_dantzig (h : dantzig t reduced = .ok (.pivot p)) :
    ∃ column, ratioTest t column .dantzig (fun _ _ => false) = .ok (.pivot p) := by
  unfold dantzig at h
  split at h
  · cases h
  · exact ⟨_, h⟩

theorem ratioTest_of_bland {columns : List Nat} (h : bland t reduced columns = .ok (.pivot p)) :
    ∃ column precedes, ratioTest t column .bland precedes = .ok (.pivot p) := by
  unfold bland at h
  split at h
  · cases h
  · obtain ⟨-, -, h⟩ := Outcome.bind_eq_ok.1 h
    exact ⟨_, _, h⟩

theorem rule_of_dantzig (h : dantzig t reduced = .ok (.pivot p)) : p.rule = .dantzig := by
  obtain ⟨column, htest⟩ := ratioTest_of_dantzig h
  exact rule_of_ratioTest htest

theorem rule_of_bland {columns : List Nat} (h : bland t reduced columns = .ok (.pivot p)) :
    p.rule = .bland := by
  obtain ⟨column, precedes, htest⟩ := ratioTest_of_bland h
  exact rule_of_ratioTest htest

theorem rule_of_repair {row : Nat} (h : repair t reduced row = .ok (.pivot p)) :
    p.rule = .infeasibility ∧ p.row = row := by
  obtain ⟨_, -, ⟨h, -⟩ | ⟨p', h, hrule, hrow, -⟩⟩ := repair_cases h
  · cases h
  · cases h
    exact ⟨hrule, hrow⟩

end

/-! ### The column that is entered -/

/-- The column whose variable a selection lets grow. -/
def entering? : Selection α → Option Nat
  | .pivot p => some p.column
  | .unbounded column => some column
  | .infeasible _ => none

/-- The repair of a row enters a column with a negative entry there. -/
theorem isNegative_of_repair {reduced : List α} {row column : Nat} {selection : Selection α}
    (h : repair t reduced row = .ok selection) (hcolumn : selection.entering? = some column) :
    row < t.height ∧ isNegative (t.rows.entry row column) = true := by
  obtain ⟨entries, hentries, ⟨rfl, -⟩ | ⟨p, rfl, -, hrow, hp, hneg, -⟩⟩ := repair_cases h
  · cases hcolumn
  · cases hcolumn
    rw [hp.element_eq_entry, hrow] at hneg
    exact ⟨(List.getElem?_eq_some_iff.1 hentries).1, hneg⟩

/-- The ratio test enters the column that it is made for. -/
theorem entering?_of_ratioTest {column : Nat} {rule : PivotRule} {precedes : Nat → Nat → Bool}
    {selection : Selection α} (h : ratioTest t column rule precedes = .ok selection) :
    selection.entering? = some column := by
  obtain ⟨_, -, ⟨rfl, -⟩ | ⟨p, rfl, -, hcolumn, -⟩⟩ := ratioTest_cases h
  · rfl
  · exact congrArg some hcolumn

/-- The ratio test finds no row infeasible. -/
theorem ratioTest_ne_infeasible {column row : Nat} {rule : PivotRule}
    {precedes : Nat → Nat → Bool} :
    ratioTest t column rule precedes ≠ .ok (.infeasible row) :=
  fun h => nomatch entering?_of_ratioTest h

theorem dantzig_ne_infeasible {reduced : List α} {row : Nat} :
    dantzig t reduced ≠ .ok (.infeasible row) := by
  unfold dantzig
  split
  · nofun
  · exact ratioTest_ne_infeasible

theorem bland_ne_infeasible {reduced : List α} {columns : List Nat} {row : Nat} :
    bland t reduced columns ≠ .ok (.infeasible row) := by
  unfold bland
  split
  · nofun
  · intro h
    obtain ⟨-, -, h⟩ := Outcome.bind_eq_ok.1 h
    exact ratioTest_ne_infeasible h

/-- The repair of a row finds no column unbounded. -/
theorem repair_ne_unbounded {reduced : List α} {row column : Nat} :
    repair t reduced row ≠ .ok (.unbounded column) := by
  intro h
  obtain ⟨_, -, ⟨h, -⟩ | ⟨p, h, -⟩⟩ := repair_cases h <;> cases h

/-- If some reduced cost is negative, the rule that excludes cycles tests the first such column. -/
theorem bland_cases {reduced : List α} {columns : List Nat} {selection : Selection α}
    (hneg : ∃ v ∈ reduced, isNegative v = true) (h : bland t reduced columns = .ok selection) :
    ∃ column v, reduced[column]? = some v ∧ isNegative v = true ∧
      (∀ j < column, ∀ v, reduced[j]? = some v → isNegative v = false) ∧
      ratioTest t column .bland (fun row holder => columns.getD row 0 < columns.getD holder 0) =
        .ok selection := by
  unfold bland at h
  split at h
  · next hnone =>
    obtain ⟨v, hv, hneg⟩ := hneg
    rw [List.findIdx?_eq_none_iff.1 hnone v hv] at hneg
    cases hneg
  · next column hfirst =>
    obtain ⟨hlt, hneg, hbefore⟩ := List.findIdx?_eq_some_iff_getElem.1 hfirst
    obtain ⟨-, -, h⟩ := Outcome.bind_eq_ok.1 h
    refine ⟨column, _, List.getElem?_eq_getElem hlt, hneg, fun j hj v hv => ?_, h⟩
    obtain ⟨-, rfl⟩ := List.getElem?_eq_some_iff.1 hv
    exact Bool.not_eq_true _ ▸ hbefore j hj

/-- If some reduced cost is negative, the other rule tests the column of the least, which is
negative. -/
theorem dantzig_cases [LawfulUnits α] {reduced : List α} {selection : Selection α}
    (hseparates : SeparatesNegative reduced) (hneg : ∃ v ∈ reduced, isNegative v = true)
    (h : dantzig t reduced = .ok selection) :
    ∃ column v, reduced[column]? = some v ∧ isNegative v = true ∧
      ratioTest t column .dantzig (fun _ _ => false) = .ok selection := by
  unfold dantzig at h
  split at h
  · next hnone =>
    obtain ⟨v, hv, -⟩ := hneg
    cases leastIndexBy?_eq_none.1 hnone (some v) (List.mem_map_of_mem hv)
  · next column hleast =>
    obtain ⟨v, hv, hneg⟩ := isNegative_of_leastIndex? hseparates hneg hleast
    exact ⟨column, v, hv, hneg, h⟩

/-! ### Every rule gives a result -/

/-- What a rule may find in a tableau: a pivot that is read off it, on an element that is read as
positive or negative, or a row or column of it. -/
def LiesIn (t : Tableau α) : Selection α → Prop
  | .pivot p => p.ReadsOff t ∧ (isNegative p.element = true ∨ isPositive p.element = true)
  | .unbounded column => column < t.width
  | .infeasible row => row < t.height

theorem exists_repair_eq_ok (ht : t.IsValid) (reduced : List α) {row : Nat}
    (hrow : row < t.height) :
    ∃ selection, repair t reduced row = .ok selection ∧ selection.LiesIn t := by
  obtain ⟨entries, hentries, hlen⟩ := ht.hasShape.exists_row hrow
  have hok : ∃ selection, repair t reduced row = .ok selection := by
    rw [repair, Outcome.inRange_eq_ok.2 hentries, Outcome.ok_bind]
    dsimp only
    split
    · exact ⟨_, rfl⟩
    · next column hleast =>
      obtain ⟨v, hv⟩ := getElem?_of_leastIndexBy? hleast
      have hcolumn := (List.getElem?_eq_some_iff.1 hv).1
      rw [List.length_map, List.length_zipWith] at hcolumn
      have hlt : column < entries.length := lt_of_lt_of_le hcolumn (min_le_left _ _)
      rw [Outcome.inRange_eq_ok.2 (List.getElem?_eq_getElem hlt), Outcome.ok_bind,
        ht.hasShape.column_eq_ok (hlen ▸ hlt)]
      exact ⟨_, rfl⟩
  obtain ⟨selection, h⟩ := hok
  refine ⟨selection, h, ?_⟩
  obtain ⟨_, -, ⟨rfl, -⟩ | ⟨p, rfl, -, -, hp, hneg, -⟩⟩ := repair_cases h
  · exact hrow
  · exact ⟨hp, .inl hneg⟩

theorem exists_ratioTest_eq_ok (ht : t.IsValid) {column : Nat} (hcolumn : column < t.width)
    (rule : PivotRule) (precedes : Nat → Nat → Bool) :
    ∃ selection, ratioTest t column rule precedes = .ok selection ∧ selection.LiesIn t := by
  have hok : ∃ selection, ratioTest t column rule precedes = .ok selection := by
    rw [ratioTest, ht.hasShape.column_eq_ok hcolumn, Outcome.ok_bind]
    dsimp only
    split
    · exact ⟨_, rfl⟩
    · next row hleast =>
      obtain ⟨v, hv⟩ := getElem?_of_leastIndexBy? hleast
      have hrow := (List.getElem?_eq_some_iff.1 hv).1
      rw [List.length_map, List.length_zipWith] at hrow
      rw [Outcome.inRange_eq_ok.2
        (List.getElem?_eq_getElem (lt_of_lt_of_le hrow (min_le_left _ _)))]
      exact ⟨_, rfl⟩
  obtain ⟨selection, h⟩ := hok
  refine ⟨selection, h, ?_⟩
  obtain ⟨_, -, ⟨rfl, -⟩ | ⟨p, rfl, -, -, hp, hpos, -⟩⟩ := ratioTest_cases h
  · exact hcolumn
  · exact ⟨hp, .inr hpos⟩

theorem exists_dantzig_eq_ok (ht : t.IsValid) {reduced : List α} (hlen : reduced.length = t.width)
    (hne : reduced ≠ []) : ∃ selection, dantzig t reduced = .ok selection ∧ selection.LiesIn t := by
  unfold dantzig
  split
  · have hpos : 0 < t.width := hlen ▸ List.length_pos_iff.2 hne
    exact ⟨_, rfl, hpos⟩
  · next column hleast =>
    obtain ⟨v, hv⟩ := getElem?_of_leastIndexBy? hleast
    have hcolumn := (List.getElem?_eq_some_iff.1 hv).1
    rw [List.length_map, hlen] at hcolumn
    exact exists_ratioTest_eq_ok ht hcolumn _ _

theorem exists_bland_eq_ok (ht : t.IsValid) {reduced : List α} (hlen : reduced.length = t.width)
    (hne : reduced ≠ []) {basicColumns : List Nat} (hbasic : basicColumns.length = t.height) :
    ∃ selection, bland t reduced basicColumns = .ok selection ∧ selection.LiesIn t := by
  unfold bland
  split
  · have hpos : 0 < t.width := hlen ▸ List.length_pos_iff.2 hne
    exact ⟨_, rfl, hpos⟩
  · next column hfirst =>
    have hcolumn := (List.findIdx?_eq_some_iff_findIdx_eq.1 hfirst).1
    rw [Outcome.within_eq_ok (u := ()).2 (decide_eq_true hbasic.ge), Outcome.ok_bind]
    exact exists_ratioTest_eq_ok ht (hlen ▸ hcolumn) _ _

end Selection

/-! ### Exact arithmetic -/

theorem isNegative_iff {v : ℚ} : isNegative v = true ↔ v < 0 := decide_eq_true_iff

theorem isPositive_iff {v : ℚ} : isPositive v = true ↔ 0 < v := decide_eq_true_iff

theorem isZero_iff {v : ℚ} : isZero v = true ↔ v = 0 := beq_iff_eq

theorem isNegative_eq_false_iff {v : ℚ} : isNegative v = false ↔ 0 ≤ v :=
  decide_eq_false_iff_not.trans not_lt

namespace Selection

/-- A row without a ratio has no negative entry. -/
theorem nonneg_of_repairRatio {entries reduced : List ℚ} (hlen : entries.length ≤ reduced.length)
    (h : ∀ r, some r ∈ List.zipWith repairRatio entries reduced → isFinite r = false) :
    ∀ v ∈ entries, 0 ≤ v := by
  intro v hv
  obtain ⟨j, hj, rfl⟩ := List.getElem_of_mem hv
  by_contra hneg
  have hratio : (List.zipWith repairRatio entries reduced)[j]? =
      some (some (Arithmetic.abs (reduced[j] / entries[j]))) := by
    rw [List.getElem?_zipWith, List.getElem?_eq_getElem hj,
      List.getElem?_eq_getElem (hj.trans_le hlen)]
    simp only [repairRatio]
    rw [if_pos (isNegative_iff.2 (not_le.1 hneg))]
  cases h _ (List.mem_of_getElem? hratio)

/-- If no right-hand side is negative, a column without a limit has no positive entry. -/
theorem nonpos_of_growthRatio {entries rhs : List ℚ} (hlen : entries.length ≤ rhs.length)
    (hrhs : ∀ v ∈ rhs, 0 ≤ v)
    (h : ∀ r, some r ∈ List.zipWith growthRatio entries rhs → limits r = false) :
    ∀ v ∈ entries, v ≤ 0 := by
  intro v hv
  obtain ⟨i, hi, rfl⟩ := List.getElem_of_mem hv
  have hi' : i < rhs.length := hi.trans_le hlen
  by_contra hpos
  have hpos : 0 < entries[i] := not_le.1 hpos
  have hratio : (List.zipWith growthRatio entries rhs)[i]? = some (some (rhs[i] / entries[i])) := by
    rw [List.getElem?_zipWith, List.getElem?_eq_getElem hi, List.getElem?_eq_getElem hi']
    simp only [growthRatio]
    rw [if_pos (isPositive_iff.2 hpos)]
    rfl
  have hlimits := h _ (List.mem_of_getElem? hratio)
  have hge : 0 ≤ rhs[i] / entries[i] := div_nonneg (hrhs _ (List.getElem_mem hi')) hpos.le
  simp [limits, isFinite, not_lt.2 hge] at hlimits

end Selection

end LinProg
