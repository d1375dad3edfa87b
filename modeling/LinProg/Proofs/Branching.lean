import LinProg.Proofs.Exploration
import LinProg.Proofs.Session

/-!
# Splitting a relaxation

A relaxation is split at the fractional value of a variable: one new constraint bounds the variable
from above by the whole number below the value, or from below by the whole number above it. Both
constraints can be added to every optimal solution, they only take points away, and every point with
a whole value of the variable is kept in one of the two halves.
-/

namespace LinProg

namespace Tableau

/-- The cost of a point depends on the values inside the tableau only. -/
theorem valueAt_congr (t : Tableau ℚ) {y y' : ℕ → ℚ} (h : ∀ j < t.width, y' j = y j) :
    t.valueAt y' = t.valueAt y :=
  Finset.sum_congr rfl fun j hj => by rw [h j (Finset.mem_range.1 hj)]

theorem Solves.congr {t : Tableau ℚ} {u : ℚ} {y y' : ℕ → ℚ} (hy : t.Solves u y)
    (h : ∀ j < t.width, y' j = y j) : t.Solves u y' := by
  intro i hi
  rw [← hy i hi]
  exact Finset.sum_congr rfl fun j hj => by rw [h j (Finset.mem_range.1 hj)]

end Tableau

/-- A revision can be run and captured again, and adds to a program further variables without cost
and further constraints. -/
structure Revision.Narrows (r : Revision ℚ) (t : Tableau ℚ) : Prop where
  exists_underlies : ∃ raw : Tableau ℚ, raw.Underlies r.tableau ∧ r.initialRows = raw.rows
  structural_eq : r.tableau.structural = t.structural
  names_prefix : t.names <+: r.tableau.names
  isFeasible : ∀ y, r.tableau.IsFeasible y → t.IsFeasible y
  valueAt_eq : ∀ y, r.tableau.valueAt y = t.valueAt y

namespace Revision.Narrows

variable {r : Revision ℚ} {t t' : Tableau ℚ}

theorem width_le (h : r.Narrows t) : t.width ≤ r.tableau.width := h.names_prefix.length_le

/-- A tableau with the identity in its slack columns can be run as it is. -/
theorem refl (ht : t.IsCanonical) (hid : t.rows.HasIdentityAt t.structural) :
    Revision.Narrows ⟨t, t.rows⟩ t where
  exists_underlies := ⟨t, ⟨ht.toIsValid, hid, ht, .refl t⟩, rfl⟩
  structural_eq := rfl
  names_prefix := List.prefix_rfl
  isFeasible := fun _ hy => hy
  valueAt_eq := fun _ => rfl

theorem trans (h : r.Narrows t') {r' : Revision ℚ} (h' : r'.Narrows t) (ht' : r'.tableau = t') :
    r.Narrows t where
  exists_underlies := h.exists_underlies
  structural_eq := by rw [h.structural_eq, ← ht', h'.structural_eq]
  names_prefix := h'.names_prefix.trans (ht' ▸ h.names_prefix)
  isFeasible := fun y hy => h'.isFeasible y (ht' ▸ h.isFeasible y hy)
  valueAt_eq := fun y => by rw [h.valueAt_eq, ← ht', h'.valueAt_eq]

theorem of_sameProgram (h : r.Narrows t') (hsame : t.SameProgram t') : r.Narrows t where
  exists_underlies := h.exists_underlies
  structural_eq := h.structural_eq.trans hsame.structural_eq
  names_prefix := hsame.names_eq ▸ h.names_prefix
  isFeasible := fun y hy => hsame.isFeasible_iff.1 (h.isFeasible y hy)
  valueAt_eq := fun y => by rw [h.valueAt_eq, hsame.valueAt_eq]

end Revision.Narrows

namespace BranchAndBound

/-! ### The constraint that bounds a variable -/

section

variable {α : Type} [Scalar α]

/-- The row of a constraint that bounds one variable. -/
def boundRow (width column : Nat) (sign : α) : List α :=
  ((List.replicate (width + 1) 0).set column sign).set width 1

theorem length_boundRow (width column : Nat) (sign : α) :
    (boundRow width column sign).length = width + 1 := by
  rw [boundRow, List.length_set, List.length_set, List.length_replicate]

theorem getElem?_boundRow {width column j : Nat} (sign : α) (hj : j < width + 1) :
    (boundRow width column sign)[j]? =
      some (if j = width then 1 else if j = column then sign else 0) := by
  rw [boundRow, List.getElem?_set, List.getElem?_set, List.getElem?_replicate, List.length_set,
    List.length_replicate]
  by_cases hwidth : j = width
  · rw [if_pos hwidth.symm, if_pos (hwidth ▸ hj), if_pos hwidth]
  · rw [if_neg (Ne.symm hwidth), if_neg hwidth]
    by_cases hcolumn : j = column
    · rw [if_pos hcolumn.symm, if_pos (hcolumn ▸ hj), if_pos hcolumn]
    · rw [if_neg (Ne.symm hcolumn), if_pos hj, if_neg hcolumn]

variable {s : Snapshot α} {column : Nat}

/-- The revision by a constraint that bounds a variable. -/
def boundRevision (s : Snapshot α) (column : Nat) (sign bound : α) : Revision α :=
  s.constraintRevision [boundRow s.tableau.width column sign] [bound] none

variable [LawfulUnits α]

/-- A constraint that bounds a structural variable has the form of a new row. -/
theorem isNewRow_boundRow (hcolumn : column < s.tableau.structural) (sign : α) :
    s.IsNewRow 1 (boundRow s.tableau.width column sign) 0 where
  length_eq := length_boundRow _ _ _
  slack_eq := by
    intro v hv
    obtain ⟨l, hl⟩ := List.mem_iff_getElem?.1 hv
    have hlt := (List.getElem?_eq_some_iff.1 hl).1
    rw [List.length_drop, List.length_take, length_boundRow] at hlt
    rw [List.getElem?_drop, List.getElem?_take_of_lt (by omega), getElem?_boundRow sign (by omega),
      if_neg (by omega), if_neg (by omega), Option.some_inj] at hl
    rw [← hl]
    exact LawfulUnits.zero_beq_zero
  isUnit := by
    rw [Rows.isUnit_iff]
    intro j hj
    rw [List.length_drop, length_boundRow] at hj
    have hzero : j = 0 := by omega
    rw [List.getD_eq_getElem?_getD, List.getElem?_drop, getElem?_boundRow sign (by omega),
      Option.getD_some, if_pos (by omega), if_pos hzero]
    exact LawfulUnits.one_beq_one

theorem isNewRow_boundRows (hcolumn : column < s.tableau.structural) (sign : α) :
    ∀ row i, [boundRow s.tableau.width column sign][i]? = some row → s.IsNewRow 1 row i := by
  intro row i hi
  have hlt := (List.getElem?_eq_some_iff.1 hi).1
  have hzero : i = 0 := by simpa using hlt
  subst hzero
  cases hi
  exact isNewRow_boundRow hcolumn sign

theorem addConstraints_boundRow (ht : s.tableau.IsWellFormed)
    (hcolumn : column < s.tableau.structural) (sign bound : α) :
    s.addConstraints [boundRow s.tableau.width column sign] [bound] none =
      .ok (boundRevision s column sign bound) := by
  have hcosts : ∀ c ∈ (none : Option (List α)),
      c.length = [boundRow s.tableau.width column sign].length := by
    simp
  exact (Snapshot.addConstraints_eq_ok ht).2 ⟨rfl, hcosts, isNewRow_boundRows hcolumn sign, rfl⟩

/-- A structural variable can be bounded in every tableau whose basic variables are among its
variables. -/
theorem apply_boundRequest (ht : s.tableau.IsWellFormed) (hcolumn : column < s.tableau.structural)
    (sign bound : α) : s.apply (boundRequest s.tableau.width column sign bound) =
      .ok (boundRevision s column sign bound) :=
  addConstraints_boundRow ht hcolumn sign bound

/-- The halves of a relaxation bound the variable at which it is split, in its last tableau. -/
theorem IsSplit.eq_boundRevision {solution : Solution α} {value : α} {lower upper : Revision α}
    (h : IsSplit solution column value s lower upper) (ht : solution.tableau.IsWellFormed)
    (hcolumn : column < solution.tableau.structural) :
    s.tableau = solution.tableau ∧ s.initialRows = solution.initialRows ∧
      lower = boundRevision s column 1 (Arithmetic.floor value) ∧
      upper = boundRevision s column (-1) (-Arithmetic.ceil value) := by
  obtain ⟨-, htableau, hinitial, -⟩ := Solution.snapshot_eq_ok.1 h.snapshot_eq
  have hlower := h.lower_eq
  have hupper := h.upper_eq
  rw [← htableau] at ht hcolumn hlower hupper
  rw [apply_boundRequest ht hcolumn, Except.ok.injEq] at hlower hupper
  exact ⟨htableau, hinitial, hlower.symm, hupper.symm⟩

end

/-- The constraint adds up the variable and its own slack variable. -/
theorem sum_boundRow {width column : Nat} (hcolumn : column < width) (sign : ℚ) (y : ℕ → ℚ) :
    ∑ j ∈ Finset.range (width + 1), Rows.entry [boundRow width column sign] 0 j * y j =
      sign * y column + y width := by
  have hentry : ∀ j < width + 1, Rows.entry [boundRow width column sign] 0 j =
      if j = width then 1 else if j = column then sign else 0 := by
    intro j hj
    have hrow : [boundRow width column sign][0]? = some (boundRow width column sign) := rfl
    rw [Rows.entry_of_getElem? hrow, List.getD_eq_getElem?_getD, getElem?_boundRow sign hj,
      Option.getD_some]
  rw [Finset.sum_range_succ, hentry width (Nat.lt_succ_self _), if_pos rfl, one_mul,
    Finset.sum_eq_single_of_mem column (Finset.mem_range.2 hcolumn), hentry column (by omega),
    if_neg hcolumn.ne, if_pos rfl]
  intro j hj hne
  have hj := Finset.mem_range.1 hj
  rw [hentry j (by omega), if_neg hj.ne, if_neg hne, zero_mul]

variable {s : Snapshot ℚ}

section

variable {raw : Tableau ℚ} (h : raw.Underlies s.tableau) {column : Nat}
  (hcolumn : column < s.tableau.structural) (sign bound : ℚ)

theorem tableau_boundRevision : (boundRevision s column sign bound).tableau =
    s.tableau.withRows
      ((s.folded [boundRow s.tableau.width column sign] [bound]).map (·.1))
      ((s.folded [boundRow s.tableau.width column sign] [bound]).map (·.2)) [0] :=
  Snapshot.tableau_constraintRevision rfl

theorem width_boundRevision :
    (boundRevision s column sign bound).tableau.width = s.tableau.width + 1 := by
  rw [tableau_boundRevision]
  exact Tableau.width_withRows

theorem structural_boundRevision :
    (boundRevision s column sign bound).tableau.structural = s.tableau.structural := by
  rw [tableau_boundRevision]
  exact Tableau.structural_withRows

include h in
/-- The new slack variable costs nothing. -/
theorem valueAt_boundRevision (y : ℕ → ℚ) :
    (boundRevision s column sign bound).tableau.valueAt y = s.tableau.valueAt y := by
  have hlen := h.isCanonical.length_costs
  have hold : ∀ j < s.tableau.width,
      (boundRevision s column sign bound).tableau.costAt j = s.tableau.costAt j :=
    fun j hj => List.getD_append _ _ _ _ (hlen ▸ hj)
  have hnew : (boundRevision s column sign bound).tableau.costAt s.tableau.width = 0 := by
    refine (List.getD_append_right _ _ _ _ hlen.le).trans ?_
    rw [hlen, Nat.sub_self]
    rfl
  rw [Tableau.valueAt, width_boundRevision, Finset.sum_range_succ, hnew, zero_mul, add_zero]
  exact Finset.sum_congr rfl fun j hj => by rw [hold j (Finset.mem_range.1 hj)]

include h hcolumn

/-- The points of the revision are the points of the snapshot that satisfy the constraint, each with
the value of the new slack variable. -/
theorem isFeasible_boundRevision {y : ℕ → ℚ} :
    (boundRevision s column sign bound).tableau.IsFeasible y ↔ s.tableau.IsFeasible y ∧
      0 ≤ y s.tableau.width ∧ sign * y column + y s.tableau.width = bound := by
  have hcolumn' : column < s.tableau.width := hcolumn.trans_le (Nat.sub_le _ _)
  have hsolves : (boundRevision s column sign bound).tableau.Solves 1 y ↔ s.tableau.Solves 1 y ∧
      sign * y column + y s.tableau.width = bound := by
    rw [boundRevision, Snapshot.solves_constraintRevision h.isCanonical rfl
      (isNewRow_boundRows hcolumn sign)]
    have hlen : [boundRow s.tableau.width column sign].length = 1 := rfl
    simp only [hlen, Nat.lt_one_iff, forall_eq, sum_boundRow hcolumn', one_mul]
    rfl
  rw [Tableau.isFeasible_iff, Tableau.isFeasible_iff, hsolves, width_boundRevision]
  constructor
  · rintro ⟨hnonneg, hy, hbound⟩
    exact ⟨⟨fun j hj => hnonneg j (Nat.lt_succ_of_lt hj), hy⟩,
      hnonneg _ (Nat.lt_succ_self _), hbound⟩
  · rintro ⟨⟨hnonneg, hy⟩, hslack, hbound⟩
    refine ⟨fun j hj => ?_, hy, hbound⟩
    rcases Nat.lt_succ_iff_lt_or_eq.1 hj with hlt | rfl
    · exact hnonneg j hlt
    · exact hslack

theorem narrows_boundRevision (hinitial : s.initialRows = raw.rows) :
    (boundRevision s column sign bound).Narrows s.tableau where
  exists_underlies :=
    ⟨_, Snapshot.underlies_addConstraints h hinitial
      (addConstraints_boundRow h.isCanonical.toIsWellFormed hcolumn sign bound)⟩
  structural_eq := structural_boundRevision sign bound
  names_prefix := List.prefix_append _ _
  isFeasible := fun _ hy => ((isFeasible_boundRevision h hcolumn sign bound).1 hy).1
  valueAt_eq := valueAt_boundRevision h sign bound

/-- A point that satisfies the constraint is kept: the new slack variable takes what the constraint
leaves. -/
theorem exists_isFeasible_boundRevision {y : ℕ → ℚ} (hy : s.tableau.IsFeasible y)
    (hbound : sign * y column ≤ bound) :
    ∃ y', (boundRevision s column sign bound).tableau.IsFeasible y' ∧
      ∀ j < s.tableau.width, y' j = y j := by
  have hcolumn' : column < s.tableau.width := hcolumn.trans_le (Nat.sub_le _ _)
  let y' : ℕ → ℚ := fun j => if j = s.tableau.width then bound - sign * y column else y j
  have hold : ∀ j < s.tableau.width, y' j = y j := fun j hj => if_neg hj.ne
  have hnew : y' s.tableau.width = bound - sign * y column := if_pos rfl
  refine ⟨y', (isFeasible_boundRevision h hcolumn sign bound).2 ⟨?_, ?_, ?_⟩, hold⟩
  · obtain ⟨hnonneg, hsolves⟩ := Tableau.isFeasible_iff.1 hy
    refine Tableau.isFeasible_iff.2 ⟨fun j hj => ?_, hsolves.congr hold⟩
    rw [hold j hj]
    exact hnonneg j hj
  · rw [hnew]
    exact sub_nonneg.2 hbound
  · rw [hold column hcolumn', hnew]
    ring

end

end BranchAndBound

end LinProg
