import LinProg.Proofs.Points
import LinProg.Snapshot

/-!
# Snapshots

A snapshot is taken of a valid tableau and of initial coefficients of the same shape whose slack
columns form the identity. Nothing else is asked for, and a snapshot of a solution is taken only if
the solution is optimal.
-/

namespace LinProg

namespace Snapshot

variable {α : Type} [Scalar α] {t : Tableau α} {initialRows : Rows α} {s : Snapshot α}

/-- What holds of every snapshot that is taken. -/
structure IsCaptured (s : Snapshot α) : Prop where
  isValid : s.tableau.IsValid
  hasShape : s.initialRows.HasShape s.tableau.height s.tableau.width
  hasIdentity : s.initialRows.HasIdentityAt s.tableau.structural
  basisInverse_eq : s.tableau.rows.basisInverse = .ok s.basisInverse

/-- The inverse of the basis is a square. -/
theorem IsCaptured.hasShape_basisInverse (hs : s.IsCaptured) :
    s.basisInverse.HasShape s.tableau.height s.tableau.height := by
  obtain ⟨inverse, hinverse, hshape, -⟩ :=
    hs.isValid.hasShape.basisInverse_eq_ok hs.isValid.height_le_width
  rw [hs.basisInverse_eq, Except.ok.injEq] at hinverse
  rwa [hinverse]

/-- The slack columns are accepted exactly if they form the identity. -/
theorem checkSlackColumns_eq_ok (ht : t.IsValid) (hlen : initialRows.length = t.height) :
    checkSlackColumns t initialRows = .ok () ↔ initialRows.HasIdentityAt t.structural := by
  have hcolumn : ∀ (name : String) (j : Nat), (do
      if t.structural ≤ j then
        let entries ← initialRows.column j
        if !Rows.isUnit (j - t.structural) entries then
          Outcome.refuse (.slackColumnChanged name j)) = Except.ok () ↔
      (t.structural ≤ j → initialRows.HasUnitColumn j (j - t.structural)) := by
    intro name j
    by_cases hj : t.structural ≤ j
    · rw [if_pos hj, Outcome.bind_eq_ok]
      simp only [hj, true_imp_iff]
      refine exists_congr fun entries => and_congr_right fun _ => ?_
      cases Rows.isUnit (j - t.structural) entries <;> simp
    · simp [hj]
  unfold checkSlackColumns
  rw [Outcome.forM_eq_ok]
  have hwidth := ht.structural_add_height
  constructor
  · intro h k hk
    have hj : t.structural + k < t.names.length := by
      have hw : t.names.length = t.structural + t.height := hwidth.symm
      omega
    have hmem : (t.names[t.structural + k], t.structural + k) ∈ t.names.zipIdx :=
      List.mem_zipIdx_iff_getElem?.2 (List.getElem?_eq_getElem hj)
    have hunit := (hcolumn _ _).1 (h _ hmem) (Nat.le_add_right _ _)
    rwa [Nat.add_sub_cancel_left] at hunit
  · rintro h ⟨name, j⟩ hmem
    refine (hcolumn name j).2 fun hj => ?_
    have hlt : j < t.width := (List.getElem?_eq_some_iff.1 (List.mem_zipIdx_iff_getElem?.1 hmem)).1
    have hunit := h (j - t.structural) (by omega)
    rwa [Nat.add_sub_cancel' hj] at hunit

/-- A snapshot is taken exactly if its tableau is valid and its initial coefficients fit. -/
theorem capture_eq_ok :
    capture t initialRows = .ok s ↔ s.tableau = t ∧ s.initialRows = initialRows ∧ s.IsCaptured := by
  rw [capture, Outcome.bind_unit_eq_ok, Tableau.validate_eq_ok, Outcome.bind_unit_eq_ok,
    Dimension.check_eq_ok, Outcome.bind_unit_eq_ok, Rows.checkWidths_eq_ok, Outcome.bind_unit_eq_ok,
    Outcome.bind_eq_ok]
  constructor
  · rintro ⟨ht, hheight, hwidth, hslack, v, hv, h⟩
    cases h
    exact ⟨rfl, rfl, ht, ⟨hheight.symm, hwidth⟩,
      (checkSlackColumns_eq_ok ht hheight.symm).1 hslack, hv⟩
  · rintro ⟨rfl, rfl, ht, hshape, hidentity, hv⟩
    exact ⟨ht, hshape.length_eq.symm, hshape.length_row,
      (checkSlackColumns_eq_ok ht hshape.length_eq).2 hidentity, _, hv, rfl⟩

end Snapshot

/-- Only optimal solutions have a snapshot. -/
theorem Solution.snapshot_eq_ok {α : Type} [Scalar α] {solution : Solution α} {s : Snapshot α} :
    solution.snapshot = .ok s ↔ solution.status = .optimal ∧ s.tableau = solution.tableau ∧
      s.initialRows = solution.initialRows ∧ s.IsCaptured := by
  unfold Solution.snapshot Solution.isOptimal
  split
  · next hoptimal => simp [Snapshot.capture_eq_ok, of_decide_eq_true hoptimal]
  · next hoptimal => simp [of_decide_eq_false (Bool.not_eq_true _ ▸ hoptimal)]

end LinProg
