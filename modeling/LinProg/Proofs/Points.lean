import LinProg.Proofs.Canonical

/-!
# Points of a linear program

A point gives a value to every column; what it gives beyond the last column plays no part. It is
feasible if its values are not negative and every row sums up to its right-hand side. The same sums
with a multiple of the right-hand sides are needed beside it: with the multiple zero they describe
the directions in which a point may move. Two tableaux state the same program if they have the same
variables and costs, and the same points satisfy their rows.
-/

namespace LinProg

namespace Tableau

/-- The right-hand side of a row, zero outside the tableau. -/
def rhsAt (t : Tableau ℚ) (i : Nat) : ℚ := t.rhs.getD i 0

theorem IsValid.forall_mem_rhs_iff {α : Type} [Zero α] {t : Tableau α} (ht : t.IsValid)
    {P : α → Prop} :
    (∀ v ∈ t.rhs, P v) ↔ ∀ i < t.height, P (t.rhs.getD i 0) := by
  rw [List.forall_mem_iff_getElem, ← ht.length_rhs]
  refine forall₂_congr fun i hi => ?_
  rw [List.getD_eq_getElem _ _ hi]

theorem IsValid.forall_mem_rhs {t : Tableau ℚ} (ht : t.IsValid) {P : ℚ → Prop} :
    (∀ v ∈ t.rhs, P v) ↔ ∀ i < t.height, P (t.rhsAt i) :=
  ht.forall_mem_rhs_iff

/-- The cost of a column, zero outside the tableau. -/
def costAt (t : Tableau ℚ) (j : Nat) : ℚ := t.costs.getD j 0

/-- How far the sum of a row is from the given multiple of its right-hand side. -/
def residual (t : Tableau ℚ) (u : ℚ) (y : ℕ → ℚ) (i : Nat) : ℚ :=
  ∑ j ∈ Finset.range t.width, t.rows.entry i j * y j - u * t.rhsAt i

/-- Every row sums up to the given multiple of its right-hand side. -/
def Solves (t : Tableau ℚ) (u : ℚ) (y : ℕ → ℚ) : Prop :=
  ∀ i < t.height, ∑ j ∈ Finset.range t.width, t.rows.entry i j * y j = u * t.rhsAt i

/-- No value is negative, and every row sums up to its right-hand side. -/
structure IsFeasible (t : Tableau ℚ) (y : ℕ → ℚ) : Prop where
  nonneg : ∀ j < t.width, 0 ≤ y j
  row_eq : ∀ i < t.height, ∑ j ∈ Finset.range t.width, t.rows.entry i j * y j = t.rhsAt i

/-- The cost of a point. -/
def valueAt (t : Tableau ℚ) (y : ℕ → ℚ) : ℚ := ∑ j ∈ Finset.range t.width, t.costAt j * y j

/-- Two tableaux have the same variables and costs, and the same points satisfy their rows. -/
structure SameProgram (t t' : Tableau ℚ) : Prop where
  names_eq : t'.names = t.names
  costs_eq : t'.costs = t.costs
  height_eq : t'.height = t.height
  solves_iff : ∀ u y, t'.Solves u y ↔ t.Solves u y

theorem solves_iff_residual {t : Tableau ℚ} {u : ℚ} {y : ℕ → ℚ} :
    t.Solves u y ↔ ∀ i < t.height, t.residual u y i = 0 :=
  forall₂_congr fun _ _ => sub_eq_zero.symm

theorem isFeasible_iff {t : Tableau ℚ} {y : ℕ → ℚ} :
    t.IsFeasible y ↔ (∀ j < t.width, 0 ≤ y j) ∧ t.Solves 1 y := by
  simp only [Solves, one_mul]
  exact ⟨fun h => ⟨h.1, h.2⟩, fun h => ⟨h.1, h.2⟩⟩

/-- A point that satisfies the rows stays one when it moves along a solution of the homogeneous
rows. -/
theorem Solves.add_smul {t : Tableau ℚ} {u v : ℚ} {y d : ℕ → ℚ} (hy : t.Solves u y)
    (hd : t.Solves v d) (θ : ℚ) : t.Solves (u + θ * v) fun j => y j + θ * d j := by
  intro i hi
  calc ∑ j ∈ Finset.range t.width, t.rows.entry i j * (y j + θ * d j)
      = ∑ j ∈ Finset.range t.width, t.rows.entry i j * y j
          + θ * ∑ j ∈ Finset.range t.width, t.rows.entry i j * d j := by
        rw [Finset.mul_sum, ← Finset.sum_add_distrib]
        exact Finset.sum_congr rfl fun j _ => by ring
    _ = (u + θ * v) * t.rhsAt i := by rw [hy i hi, hd i hi]; ring

theorem valueAt_add_smul (t : Tableau ℚ) (y d : ℕ → ℚ) (θ : ℚ) :
    t.valueAt (fun j => y j + θ * d j) = t.valueAt y + θ * t.valueAt d := by
  simp only [valueAt, Finset.mul_sum, ← Finset.sum_add_distrib]
  exact Finset.sum_congr rfl fun j _ => by ring

namespace SameProgram

variable {t t' t'' : Tableau ℚ}

theorem refl (t : Tableau ℚ) : SameProgram t t := ⟨rfl, rfl, rfl, fun _ _ => Iff.rfl⟩

theorem symm (h : SameProgram t t') : SameProgram t' t :=
  ⟨h.names_eq.symm, h.costs_eq.symm, h.height_eq.symm, fun u y => (h.solves_iff u y).symm⟩

theorem trans (h : SameProgram t t') (h' : SameProgram t' t'') : SameProgram t t'' :=
  ⟨h'.names_eq.trans h.names_eq, h'.costs_eq.trans h.costs_eq, h'.height_eq.trans h.height_eq,
    fun u y => (h'.solves_iff u y).trans (h.solves_iff u y)⟩

theorem width_eq (h : SameProgram t t') : t'.width = t.width := congrArg List.length h.names_eq

theorem costAt_eq (h : SameProgram t t') (j : Nat) : t'.costAt j = t.costAt j := by
  rw [costAt, costAt, h.costs_eq]

theorem valueAt_eq (h : SameProgram t t') (y : ℕ → ℚ) : t'.valueAt y = t.valueAt y := by
  simp only [valueAt, h.width_eq, h.costAt_eq]

theorem isFeasible_iff (h : SameProgram t t') {y : ℕ → ℚ} : t'.IsFeasible y ↔ t.IsFeasible y := by
  rw [Tableau.isFeasible_iff, Tableau.isFeasible_iff, h.width_eq, h.solves_iff]

end SameProgram

end Tableau

end LinProg
