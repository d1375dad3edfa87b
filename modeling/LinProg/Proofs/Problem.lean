import LinProg.Proofs.Canonical
import LinProg.Problem

/-!
# The tableau of a problem

The rows of a problem as a tableau end in the identity, and its slack variables are basic. So the
tableau is canonical as soon as it is valid, which is what the last check of the translation asks
for.
-/

namespace LinProg

/-- A valid tableau whose last columns are the identity is canonical if the slack variables are
basic. -/
theorem Tableau.IsValid.isCanonical_of_slackBasis {α : Type} [Arithmetic α] {t : Tableau α}
    (ht : t.IsValid) (hid : t.rows.HasIdentityAt t.structural)
    (hbasis : t.basis = t.names.drop t.structural) : t.IsCanonical := by
  have hwf : t.IsWellFormed := by
    refine ⟨ht, fun name hname => ?_⟩
    rw [hbasis] at hname
    exact List.mem_of_mem_drop hname
  refine ⟨hwf, fun i hi => ?_⟩
  have hsum := ht.structural_add_height
  have hcolumn : t.basicColumn i = t.structural + i := by
    rw [hwf.basicColumn_eq_iff hi (by omega), hbasis, List.getElem?_drop]
  rw [hcolumn]
  exact hid i hi

namespace Problem

section

variable {α : Type} [Arithmetic α] {p : Problem α} {t : Tableau α} {bounds : List (List α × α)}

/-- The tableau with the given rows, each with a basic slack variable. -/
def slackTableau (p : Problem α) (bounds : List (List α × α)) : Tableau α where
  rows := bounds.zipIdx.map fun ((row, _), i) => row ++ Rows.unit bounds.length i
  rhs := bounds.map (·.2)
  costs := p.objective.coefficients.map ((if p.objective.minimize then -1 else 1) * ·) ++
    List.replicate bounds.length 0
  names := p.names ++ freshNames p.names bounds.length
  basis := freshNames p.names bounds.length

/-- A problem has a tableau if its objective and constraints have a coefficient for each variable,
and the tableau is valid. -/
theorem toTableau_eq_ok : p.toTableau = .ok t ↔
    p.objective.coefficients.length = p.numVariables ∧ ∃ bounds, p.boundRows = .ok bounds ∧
      (p.slackTableau bounds).IsValid ∧ t = p.slackTableau bounds := by
  rw [toTableau, Outcome.bind_unit_eq_ok, Dimension.check_eq_ok, Outcome.bind_eq_ok]
  refine and_congr eq_comm (exists_congr fun bounds => and_congr_right fun _ => ?_)
  rw [Outcome.bind_unit_eq_ok, Tableau.validate_eq_ok, Outcome.pure_eq, Except.ok.injEq]
  exact and_congr Iff.rfl eq_comm

theorem height_slackTableau : (p.slackTableau bounds).height = bounds.length := by
  simp [slackTableau, Tableau.height]

theorem width_slackTableau : (p.slackTableau bounds).width = p.numVariables + bounds.length := by
  simp [slackTableau, Tableau.width, numVariables]

theorem structural_slackTableau : (p.slackTableau bounds).structural = p.numVariables := by
  rw [Tableau.structural, height_slackTableau, width_slackTableau, Nat.add_sub_cancel]

theorem basis_slackTableau : (p.slackTableau bounds).basis =
    (p.slackTableau bounds).names.drop (p.slackTableau bounds).structural := by
  rw [structural_slackTableau]
  exact List.drop_left.symm

theorem getElem?_rows_slackTableau (i : Nat) : (p.slackTableau bounds).rows[i]? =
    bounds[i]?.map fun bound => bound.1 ++ Rows.unit bounds.length i := by
  rw [slackTableau, List.getElem?_map, List.getElem?_zipIdx]
  cases bounds[i]? with
  | none => rfl
  | some bound => simp

/-- Before the slack columns stand the coefficients of the bounds. -/
theorem length_bound (h : (p.slackTableau bounds).IsValid) :
    ∀ bound ∈ bounds, bound.1.length = p.numVariables := by
  intro bound hbound
  obtain ⟨i, hi⟩ := List.mem_iff_getElem?.1 hbound
  have hrow : (p.slackTableau bounds).rows[i]? = some (bound.1 ++ Rows.unit bounds.length i) := by
    rw [getElem?_rows_slackTableau, hi, Option.map_some]
  have hlen := h.length_row _ (List.mem_of_getElem? hrow)
  rwa [List.length_append, Rows.length_unit, width_slackTableau, Nat.add_right_cancel_iff] at hlen

end

/-- The slack columns of the tableau form the identity. -/
theorem hasIdentity_slackTableau {α : Type} [Scalar α] [LawfulUnits α] {p : Problem α}
    {bounds : List (List α × α)} (h : (p.slackTableau bounds).IsValid) :
    (p.slackTableau bounds).rows.HasIdentityAt (p.slackTableau bounds).structural := by
  rw [h.hasIdentity_iff_beq, height_slackTableau, structural_slackTableau]
  intro i hi k hk
  have hlen := length_bound h _ (List.getElem_mem hi)
  have hrow : (p.slackTableau bounds).rows[i]? =
      some (bounds[i].1 ++ Rows.unit bounds.length i) := by
    rw [getElem?_rows_slackTableau, List.getElem?_eq_getElem hi, Option.map_some]
  rw [Rows.entry_of_getElem? hrow, List.getD_append_right _ _ _ _ (by omega), hlen,
    Nat.add_sub_cancel_left, Rows.getD_unit hk]
  rcases eq_or_ne i k with rfl | hik
  · rw [if_pos rfl]
    exact LawfulUnits.one_beq_one
  · rw [if_neg hik, if_neg hik.symm]
    exact LawfulUnits.zero_beq_zero

variable {p : Problem ℚ} {t : Tableau ℚ}

/-- The user reads the objective with the sign that the costs have been given. -/
theorem objectiveValue_eq_mul (p : Problem ℚ) :
    p.objectiveValue = fun value => (if p.objective.minimize then -1 else 1) * value := by
  funext value
  unfold objectiveValue
  split
  · rw [neg_one_mul]
  · rw [one_mul]

/-- The tableau of a problem is canonical, its last columns are the identity, and its costs are
those of the problem, with the sign turned if the least value is wanted. -/
theorem toTableau_spec (h : p.toTableau = .ok t) :
    t.IsCanonical ∧ t.rows.HasIdentityAt t.structural ∧ t.basis = t.names.drop t.structural ∧
      t.costs = (p.objective.coefficients ++ List.replicate t.height 0).map p.objectiveValue := by
  obtain ⟨-, bounds, -, hvalid, rfl⟩ := toTableau_eq_ok.1 h
  have hid := hasIdentity_slackTableau hvalid
  refine ⟨hvalid.isCanonical_of_slackBasis hid basis_slackTableau, hid, basis_slackTableau, ?_⟩
  rw [height_slackTableau, List.map_append, List.map_replicate, objectiveValue_eq_mul]
  dsimp only
  rw [mul_zero]
  rfl

end Problem

end LinProg
