import LinProg.Proofs.Closure

/-!
# New variables beside new constraints

New constraints and new variables can be added in either order. With the constraints first, the
columns of the variables go through the old and the new rows, and are multiplied with an inverse of
the basis that is read off the folded rows. With the variables first, the constraints that are
folded contain coefficients of the new variables, and so do the rows of the tableau. Both orders do
the same to every row: the entries of the new variables are the products of the slack entries of the
row and the columns as they were stated. This is linear in the row, so it does not matter whether it
is done before the rows are folded or after.
-/

namespace LinProg

namespace Snapshot

/-! ### Rows with the entries of new columns -/

/-- A row with entries for new columns before its slack entries: the product of its slack entries
and the new columns as they were stated. -/
def bordered (n k : Nat) (stacked : Rows ℚ) (row : List ℚ) : List ℚ :=
  spliceAt n (Rows.combine k (row.drop n) stacked) row

section

variable {n k h : Nat} {stacked : Rows ℚ} (hstacked : stacked.HasShape h k)

include hstacked

theorem length_bordered (row : List ℚ) : (bordered n k stacked row).length = row.length + k := by
  rw [bordered, length_spliceAt, hstacked.length_combine]

/-- The entries of a row with new columns. -/
theorem getD_bordered {row : List ℚ} (hn : n ≤ row.length) (j : Nat) :
    (bordered n k stacked row).getD j 0 = if j < n then row.getD j 0 else
      if j < n + k then
        ∑ l ∈ Finset.range (row.length - n), row.getD (n + l) 0 * stacked.entry l (j - n)
      else row.getD (j - k) 0 := by
  rw [bordered, List.getD_eq_getElem?_getD, getElem?_spliceAt _ hn, hstacked.length_combine]
  split
  · rw [List.getD_eq_getElem?_getD]
  · split
    · rw [← List.getD_eq_getElem?_getD, hstacked.getD_combine _ (by omega), List.length_drop]
      simp only [List.getD_eq_getElem?_getD, List.getElem?_drop]
    · rw [List.getD_eq_getElem?_getD]

/-- An entry of the row at its new position. -/
theorem getD_bordered_shifted {row : List ℚ} (hn : n ≤ row.length) (j : Nat) :
    (bordered n k stacked row).getD (if j < n then j else j + k) 0 = row.getD j 0 := by
  rw [getD_bordered hstacked hn]
  by_cases hj : j < n
  · rw [if_pos hj, if_pos hj]
  · rw [if_neg hj, if_neg (by omega), if_neg (by omega), Nat.add_sub_cancel]

/-- Taking away a multiple of another row commutes with the entries of new columns. -/
theorem eliminate_bordered {row pivotRow : List ℚ} (hn : n ≤ row.length)
    (hlen : pivotRow.length = row.length) (multiplier : ℚ) :
    Rows.eliminate (bordered n k stacked row) (bordered n k stacked pivotRow) multiplier =
      bordered n k stacked (Rows.eliminate row pivotRow multiplier) := by
  have hlen' : (bordered n k stacked pivotRow).length = (bordered n k stacked row).length := by
    rw [length_bordered hstacked, length_bordered hstacked, hlen]
  refine List.ext_getElem ?_ fun j hj hj' => ?_
  · rw [Rows.length_eliminate, length_bordered hstacked, length_bordered hstacked,
      Rows.length_eliminate]
  · rw [← List.getD_eq_getElem _ 0 hj, ← List.getD_eq_getElem _ 0 hj',
      Rows.getD_eliminate hlen', getD_bordered hstacked hn, getD_bordered hstacked (hlen ▸ hn),
      getD_bordered hstacked (by rwa [Rows.length_eliminate]), Rows.length_eliminate, hlen]
    simp only [Rows.getD_eliminate hlen]
    split
    · rfl
    · split
      · rw [Finset.mul_sum, ← Finset.sum_sub_distrib]
        exact Finset.sum_congr rfl fun l _ => by ring
      · rfl

theorem fold_bordered {state : List ℚ × ℚ} {row : List ℚ} (hn : n ≤ state.1.length)
    (hlen : row.length = state.1.length) (column : Nat) (value : ℚ) :
    fold (state.map (bordered n k stacked) id) (if column < n then column else column + k)
        (bordered n k stacked row) value =
      (fold state column row value).map (bordered n k stacked) id := by
  simp only [fold, Prod.map_fst, Prod.map_snd, id, getD_bordered_shifted hstacked hn]
  split
  · rfl
  · rw [Prod.map_apply, eliminate_bordered hstacked hn hlen, id]

end

end Snapshot

/-! ### Columns through old and new rows -/

namespace Rows

theorem entry_append_left {m : Rows ℚ} (m' : Rows ℚ) {i : Nat} (hi : i < m.length) (j : Nat) :
    entry (m ++ m') i j = m.entry i j := by
  rw [entry, entry, List.getD_append _ _ _ _ hi]

theorem entry_append_right (m m' : Rows ℚ) (i j : Nat) :
    entry (m ++ m') (m.length + i) j = m'.entry i j := by
  rw [entry, entry, List.getD_append_right _ _ _ _ (Nat.le_add_right _ _), Nat.add_sub_cancel_left]

theorem HasShape.append {β : Type} {m m' : Rows β} {h h' w : Nat} (hm : m.HasShape h w)
    (hm' : m'.HasShape h' w) : HasShape (m ++ m') (h + h') w where
  length_eq := by rw [List.length_append, hm.length_eq, hm'.length_eq]
  length_row := List.forall_mem_append.2 ⟨hm.length_row, hm'.length_row⟩

/-- A row vector is determined by its products with the columns. -/
theorem HasShape.combine_eq {m : Rows ℚ} {h w : Nat} (hm : m.HasShape h w) {row product : List ℚ}
    (hrow : row.length = h) (hlen : product.length = w) (he : ∀ j < w,
      ∑ l ∈ Finset.range h, row.getD l 0 * m.entry l j = product.getD j 0) :
    combine w row m = product := by
  refine List.ext_getElem (by rw [hm.length_combine, hlen]) fun j hj hj' => ?_
  have hjw : j < w := hlen ▸ hj'
  rw [← List.getD_eq_getElem _ 0 hj, ← List.getD_eq_getElem _ 0 hj', hm.getD_combine row hjw, hrow,
    he j hjw]

/-- Further rows that are multiplied with zeros do not count. -/
theorem HasShape.combine_append_zeros {m m' : Rows ℚ} {h p w : Nat} (hm : m.HasShape h w)
    (hm' : m'.HasShape p w) {row : List ℚ} (hrow : row.length = h) :
    combine w (row ++ List.replicate p 0) (m ++ m') = combine w row m := by
  refine (hm.append hm').combine_eq (by simp [hrow]) (hm.length_combine row) fun j hj => ?_
  rw [hm.getD_combine row hj, hrow, Finset.sum_range_add]
  simp only [getD_append_replicate_zero]
  rw [add_eq_left.2]
  · exact Finset.sum_congr rfl fun l hl => by
      rw [entry_append_left m' (hm.length_eq ▸ Finset.mem_range.1 hl)]
  · exact Finset.sum_eq_zero fun l _ => by rw [List.getD_eq_default _ _ (by omega), zero_mul]

end Rows

namespace Snapshot

section

variable {n k h p : Nat} {columns coefficients : Rows ℚ} (hcolumns : columns.HasShape h k)
  (hcoefficients : coefficients.HasShape p k)

include hcolumns hcoefficients

/-- An old row has no entries in the new slack columns, so the columns go through the old rows
only. -/
theorem bordered_append_zeros {row : List ℚ} (hrow : row.length = n + h) :
    bordered n k (columns ++ coefficients) (row ++ List.replicate p 0) =
      bordered n k columns row ++ List.replicate p 0 := by
  have hn : n ≤ row.length := by omega
  rw [bordered, List.drop_append_of_le_length hn, hcolumns.combine_append_zeros hcoefficients
    (by rw [List.length_drop]; omega), spliceAt_append _ hn, bordered]

end

variable {s : Snapshot ℚ}

/-- A new row has no slack entry but its own, so its entries of the new columns are its
coefficients. -/
theorem IsNewRow.bordered_eq (ht : s.tableau.IsValid) {k : Nat} {columns coefficients : Rows ℚ}
    (hcolumns : columns.HasShape s.tableau.height k) {p r : Nat}
    (hcoefficients : coefficients.HasShape p k) {row coefficient : List ℚ}
    (hrow : s.IsNewRow p row r) (hcoefficient : coefficients[r]? = some coefficient) :
    bordered s.tableau.structural k (columns ++ coefficients) row =
      spliceAt s.tableau.structural coefficient row := by
  obtain ⟨hslack, hunit⟩ := hrow.getD_slack_beq ht
  have hsum := ht.structural_add_height
  have hr : r < p := hcoefficients.length_eq ▸ (List.getElem?_eq_some_iff.1 hcoefficient).1
  have hlen := hrow.length_eq
  have hdrop : (row.drop s.tableau.structural).length = s.tableau.height + p := by
    rw [List.length_drop]
    omega
  have hcombine : Rows.combine k (row.drop s.tableau.structural) (columns ++ coefficients) =
      coefficient := by
    refine (hcolumns.append hcoefficients).combine_eq hdrop
      (hcoefficients.length_row _ (List.mem_of_getElem? hcoefficient)) fun c _ => ?_
    have hentry : ∀ l, (row.drop s.tableau.structural).getD l 0 =
        row.getD (s.tableau.structural + l) 0 := by
      intro l
      rw [List.getD_eq_getElem?_getD, List.getElem?_drop, ← List.getD_eq_getElem?_getD]
    simp only [hentry]
    rw [Finset.sum_range_add, Finset.sum_eq_zero, zero_add,
      Finset.sum_eq_single_of_mem r (Finset.mem_range.2 hr)]
    · have hone := hunit r hr
      rw [← hsum, Nat.add_assoc] at hone
      rw [beq_iff_eq.1 hone, if_pos rfl, one_mul, ← hcolumns.length_eq, Rows.entry_append_right,
        Rows.entry_of_getElem? hcoefficient]
    · intro q hq hqr
      have hzero := hunit q (Finset.mem_range.1 hq)
      rw [← hsum, Nat.add_assoc] at hzero
      rw [beq_iff_eq.1 hzero, if_neg hqr, zero_mul]
    · intro l hl
      rw [beq_iff_eq.1 (hslack l (Finset.mem_range.1 hl)), zero_mul]
  rw [bordered, hcombine]

/-! ### Rows of a snapshot -/

/-- The inverse of the basis stands in the last columns of the rows. -/
theorem IsCaptured.basisInverse_eq_map (hs : s.IsCaptured) :
    s.basisInverse = s.tableau.rows.map (·.drop s.tableau.structural) := by
  obtain ⟨hshape, hentry⟩ := hs.isValid.entry_basisInverse hs.basisInverse_eq
  have hsum := hs.isValid.structural_add_height
  have hdrop : Rows.HasShape (s.tableau.rows.map (·.drop s.tableau.structural)) s.tableau.height
      s.tableau.height := by
    refine hs.isValid.hasShape.map fun row hrow => ?_
    rw [List.length_drop, hs.isValid.length_row row hrow]
    omega
  refine hshape.ext hdrop fun i hi l hl => ?_
  obtain ⟨row, hrow, -⟩ := hs.isValid.hasShape.exists_row hi
  have hget : (s.tableau.rows.map (·.drop s.tableau.structural))[i]? =
      some (row.drop s.tableau.structural) := by
    rw [List.getElem?_map, hrow, Option.map_some]
  rw [hentry i hi l hl, Tableau.inverseAt, Rows.entry_of_getElem? hrow, Rows.entry_of_getElem? hget,
    List.getD_eq_getElem?_getD, List.getD_eq_getElem?_getD, List.getElem?_drop]

/-- New columns are put into each row as the product of its slack entries and the columns. -/
theorem IsCaptured.zipWith_spliceAt_eq (hs : s.IsCaptured) {columns transformed : Rows ℚ} {k : Nat}
    (hcolumns : columns.HasShape s.tableau.height k)
    (hproduct : s.basisInverse.mul columns = .ok transformed) :
    List.zipWith (spliceAt s.tableau.structural) transformed s.tableau.rows =
      s.tableau.rows.map (bordered s.tableau.structural k columns) := by
  obtain ⟨-, -, rfl⟩ := Rows.mul_eq_ok.1 hproduct
  rw [hs.basisInverse_eq_map, List.map_map, List.zipWith_map_left, List.zipWith_self]
  refine List.map_congr_left fun row hrow => ?_
  have hpos : 0 < s.tableau.height := List.length_pos_of_mem hrow
  rw [hcolumns.width_eq hpos]
  rfl

theorem IsCaptured.exists_mul_eq_ok (hs : s.IsCaptured) {columns : Rows ℚ} {k : Nat}
    (hcolumns : columns.HasShape s.tableau.height k) :
    ∃ transformed, s.basisInverse.mul columns = .ok transformed := by
  have hwidth : ∀ row ∈ columns, row.length = columns.width := by
    intro row hrow
    have hpos : 0 < s.tableau.height := hcolumns.length_eq ▸ List.length_pos_of_mem hrow
    rw [hcolumns.width_eq hpos, hcolumns.length_row row hrow]
  refine ⟨_, Rows.mul_eq_ok.2 ⟨hwidth, fun row hrow => ?_, rfl⟩⟩
  rw [hs.hasShape_basisInverse.length_row row hrow, hcolumns.length_eq]

/-- The rows with the new columns, widened for new constraints. -/
theorem IsCaptured.map_rows_withColumns (hs : s.IsCaptured)
    {columns transformed coefficients : Rows ℚ} {k p : Nat}
    (hcolumns : columns.HasShape s.tableau.height k) (hcoefficients : coefficients.HasShape p k)
    (hproduct : s.basisInverse.mul columns = .ok transformed) :
    (List.zipWith (spliceAt s.tableau.structural) transformed s.tableau.rows).map
        (· ++ List.replicate p 0) =
      (s.tableau.rows.map (· ++ List.replicate p 0)).map
        (bordered s.tableau.structural k (columns ++ coefficients)) := by
  rw [hs.zipWith_spliceAt_eq hcolumns hproduct, List.map_map, List.map_map]
  refine List.map_congr_left fun row hrow => (bordered_append_zeros hcolumns hcoefficients ?_).symm
  rw [hs.isValid.length_row row hrow, hs.isValid.structural_add_height]

/-- With the new columns in all rows, a row is folded as without them. -/
theorem IsCaptured.foldAll_withColumns (hs : s.IsCaptured) (ht : s.tableau.IsWellFormed)
    {columns transformed coefficients : Rows ℚ} {costs : List ℚ} {names : List String} {p : Nat}
    (hcolumns : columns.HasShape s.tableau.height names.length)
    (hcoefficients : coefficients.HasShape p names.length) (hcosts : costs.length = names.length)
    (hnames : (s.tableau.names ++ names).Nodup)
    (hproduct : s.basisInverse.mul columns = .ok transformed) {row : List ℚ}
    (hrow : row.length = s.tableau.width + p) (value : ℚ) :
    let t := s.tableau.withColumns transformed costs names
    foldAll (t.basis.map t.names.idxOf) (t.rows.map (· ++ List.replicate p 0)) t.rhs
        (bordered s.tableau.structural names.length (columns ++ coefficients) row) value =
      (foldAll (s.tableau.basis.map s.tableau.names.idxOf)
        (s.tableau.rows.map (· ++ List.replicate p 0)) s.tableau.rhs row value).map
        (bordered s.tableau.structural names.length (columns ++ coefficients)) id := by
  intro t
  have hsum := ht.structural_add_height
  have hbasis : t.basis.map t.names.idxOf =
      (s.tableau.basis.map s.tableau.names.idxOf).map (s.tableau.shifted names.length) :=
    Tableau.map_idxOf_withColumns (hasShape_transformed hs hcolumns hproduct) hcosts hnames ht
  have hrows : t.rows.map (· ++ List.replicate p 0) =
      (s.tableau.rows.map (· ++ List.replicate p 0)).map
        (bordered s.tableau.structural names.length (columns ++ coefficients)) :=
    hs.map_rows_withColumns hcolumns hcoefficients hproduct
  have hfold :=
    foldl_fold_map (f := bordered s.tableau.structural names.length (columns ++ coefficients))
      (g := s.tableau.shifted names.length) (foldEntries s.tableau p) (fun q hq state hstate =>
      fold_bordered (hcolumns.append hcoefficients) (by omega)
        ((length_of_mem_foldEntries hs.isValid hq).trans hstate.symm) q.1 q.2.2) (row, value) hrow
  rw [foldAll, hbasis, hrows, zip_map_zip]
  exact hfold

/-! ### Both orders -/

/-- New constraints and new variables for one snapshot, each stated for its tableau, with the
coefficients of the new variables in the new constraints. -/
structure Border (s : Snapshot ℚ) where
  /-- New rows, without the new variables. -/
  rows : Rows ℚ
  /-- Right-hand sides of the new rows. -/
  rhs : List ℚ
  /-- Costs of the new slack variables. -/
  slackCosts : Option (List ℚ)
  /-- Columns of the new variables in the old rows, row by row. -/
  columns : Rows ℚ
  /-- Costs of the new variables. -/
  costs : List ℚ
  /-- Names of the new variables. -/
  names : List String
  /-- Coefficients of the new variables in the new rows. -/
  coefficients : Rows ℚ
  isNewRow : ∀ row i, rows[i]? = some row → s.IsNewRow rows.length row i
  length_rhs : rows.length = rhs.length
  length_slackCosts : ∀ c ∈ slackCosts, c.length = rows.length
  hasShape_columns : columns.HasShape s.tableau.height names.length
  length_costs : costs.length = names.length
  nodup_names : (s.tableau.names ++ names).Nodup
  not_mem_freshNames : ∀ name ∈ names, name ∉ freshNames s.tableau.names rows.length
  hasShape_coefficients : coefficients.HasShape rows.length names.length

namespace Border

/-- The constraints are added without the new variables, then the variables with the columns that go
through the old and the new rows. -/
def constraintsFirst (b : s.Border) : List (Request ℚ) :=
  [.newConstraints b.rows b.rhs b.slackCosts,
    .newVariables (b.columns ++ b.coefficients) b.costs b.names]

/-- The variables are added, then the constraints with their coefficients before the slack
columns. -/
def variablesFirst (b : s.Border) : List (Request ℚ) :=
  [.newVariables b.columns b.costs b.names,
    .newConstraints (List.zipWith (spliceAt s.tableau.structural) b.coefficients b.rows) b.rhs
      b.slackCosts]

/-- A row of the tableau, widened for the new constraints, with the entries of the new variables. -/
def extend (b : s.Border) (row : List ℚ) : List ℚ :=
  bordered s.tableau.structural b.names.length (b.columns ++ b.coefficients) row

/-- The revision with the new rows and the new columns: each row of the tableau, folded rows
included, gets the products of its slack entries and the new columns. -/
def revision (b : s.Border) : Revision ℚ where
  tableau := {
    rows := (s.tableau.rows.map (· ++ List.replicate b.rows.length 0) ++
      (s.folded b.rows b.rhs).map (·.1)).map b.extend
    rhs := s.tableau.rhs ++ (s.folded b.rows b.rhs).map (·.2)
    costs := spliceAt s.tableau.structural b.costs s.tableau.costs ++
      b.slackCosts.getD (List.replicate b.rows.length 0)
    names := spliceAt s.tableau.structural b.names s.tableau.names ++
      freshNames s.tableau.names b.rows.length
    basis := s.tableau.basis ++ freshNames s.tableau.names b.rows.length }
  initialRows :=
    List.zipWith (spliceAt s.tableau.structural) b.columns
      (s.initialRows.map (· ++ List.replicate b.rows.length 0)) ++
    List.zipWith (spliceAt s.tableau.structural) b.coefficients b.rows

theorem length_folded (b : s.Border) :
    ((s.folded b.rows b.rhs).map (·.1)).length = b.rows.length :=
  length_map_folded _ b.length_rhs

/-- The names of the new variables do not disturb the search for fresh names. -/
theorem freshNames_eq (b : s.Border) :
    freshNames (spliceAt s.tableau.structural b.names s.tableau.names) b.rows.length =
      freshNames s.tableau.names b.rows.length := by
  have hperm := spliceAt_perm s.tableau.structural b.names s.tableau.names
  refine freshNames_congr (fun name hname => hperm.mem_iff.2 (List.mem_append_left _ hname)) ?_
  intro name hfresh hused
  rcases List.mem_append.1 (hperm.mem_iff.1 hused) with hold | hnew
  · exact not_mem_of_mem_freshNames hfresh hold
  · exact b.not_mem_freshNames name hnew hfresh

/-- The new rows with the coefficients of the new variables. -/
theorem zipWith_coefficients_eq (b : s.Border) (ht : s.tableau.IsValid) :
    List.zipWith (spliceAt s.tableau.structural) b.coefficients b.rows =
      b.rows.map b.extend := by
  have hlen : b.coefficients.length = b.rows.length := b.hasShape_coefficients.length_eq
  refine List.ext_getElem (by simp [hlen]) fun r hr hr' => ?_
  rw [List.length_map] at hr'
  rw [List.getElem_zipWith, List.getElem_map]
  exact ((b.isNewRow _ r (List.getElem?_eq_getElem hr')).bordered_eq ht b.hasShape_columns
    b.hasShape_coefficients (List.getElem?_eq_getElem (hlen ▸ hr'))).symm

variable (b : s.Border) (hs : s.IsCaptured) (ht : s.tableau.IsWellFormed)

include hs ht

/-- The constraints are accepted, and then the variables. -/
theorem apply_constraintsFirst : ∃ r s',
    s.apply (.newConstraints b.rows b.rhs b.slackCosts) = .ok r ∧
      capture r.tableau r.initialRows = .ok s' ∧
      s'.apply (.newVariables (b.columns ++ b.coefficients) b.costs b.names) = .ok b.revision := by
  have hfirst : s.apply (.newConstraints b.rows b.rhs b.slackCosts) =
      .ok (s.constraintRevision b.rows b.rhs b.slackCosts) :=
    (addConstraints_eq_ok ht).2 ⟨b.length_rhs, b.length_slackCosts, b.isNewRow, rfl⟩
  obtain ⟨s', hcapture⟩ := (extends_apply hs hfirst).exists_capture_eq_ok
  obtain ⟨htableau, hinitial, hs'⟩ := capture_eq_ok.1 hcapture
  rw [tableau_constraintRevision b.length_rhs] at htableau
  have hheight : s'.tableau.height = s.tableau.height + b.rows.length := by
    rw [htableau, Tableau.height_withRows, b.length_folded]
  have hstructural : s'.tableau.structural = s.tableau.structural := by
    rw [htableau, Tableau.structural_withRows]
  have hcolumns : Rows.HasShape (b.columns ++ b.coefficients) s'.tableau.height b.names.length :=
    hheight ▸ b.hasShape_columns.append b.hasShape_coefficients
  obtain ⟨transformed, hproduct⟩ := hs'.exists_mul_eq_ok hcolumns
  have hnames : (s'.tableau.names ++ b.names).Nodup := by
    obtain ⟨-, hnew, hdisjoint⟩ := List.nodup_append'.1 b.nodup_names
    rw [htableau, Tableau.names_withRows, b.length_folded]
    refine List.nodup_append'.2
      ⟨nodup_append_freshNames hs.isValid.nodup_names _, hnew, fun name hmem hname => ?_⟩
    rcases List.mem_append.1 hmem with hold | hfresh
    · exact hdisjoint hold hname
    · exact b.not_mem_freshNames name hname hfresh
  have hn : s.tableau.structural ≤ s.tableau.names.length := Nat.sub_le _ _
  have hcosts := hs.isValid.length_costs
  have hinitialLen : b.columns.length =
      (s.initialRows.map (· ++ List.replicate b.rows.length 0)).length := by
    rw [List.length_map, b.hasShape_columns.length_eq, hs.hasShape.length_eq]
  refine ⟨_, s', hfirst, hcapture, (addVariables_eq_ok hs').2 ⟨hcolumns, b.length_costs, hnames,
    transformed, hproduct, (hasShape_transformed hs' hcolumns hproduct).length_eq, ?_⟩⟩
  rw [hs'.zipWith_spliceAt_eq hcolumns hproduct, hinitial, hstructural, htableau,
    Tableau.rows_withRows, Tableau.rhs_withRows, Tableau.costs_withRows, Tableau.names_withRows,
    Tableau.basis_withRows, b.length_folded, spliceAt_append _ hn, spliceAt_append _ (hcosts ▸ hn),
    constraintRevision, List.zipWith_append hinitialLen]
  rfl

omit ht in
/-- With the coefficients of the new variables the rows are new rows for the tableau that has
them. -/
theorem isNewRow_extend {transformed : Rows ℚ} {s' : Snapshot ℚ}
    (htransformed : transformed.HasShape s.tableau.height b.names.length)
    (htableau : s'.tableau = s.tableau.withColumns transformed b.costs b.names) :
    ∀ row r, (b.rows.map b.extend)[r]? = some row → s'.IsNewRow b.rows.length row r := by
  have hcolumns := b.hasShape_columns.append b.hasShape_coefficients
  have hvalid : s'.tableau.IsValid :=
    htableau ▸ hs.isValid.withColumns htransformed b.length_costs b.nodup_names
  have hheight : s'.tableau.height = s.tableau.height := by
    rw [htableau, Tableau.height_withColumns htransformed]
  have hwidth : s'.tableau.width = s.tableau.width + b.names.length := by
    rw [htableau, Tableau.width_withColumns]
  have hstructural : s'.tableau.structural = s.tableau.structural + b.names.length := by
    rw [htableau, Tableau.structural_withColumns hs.isValid htransformed]
  have hsum := hs.isValid.structural_add_height
  intro row' r hrow'
  rw [List.getElem?_map, Option.map_eq_some_iff] at hrow'
  obtain ⟨row, hrow, rfl⟩ := hrow'
  have hlen := (b.isNewRow row r hrow).length_eq
  obtain ⟨hslack, hunit⟩ := (b.isNewRow row r hrow).getD_slack_beq hs.isValid
  -- the slack entries have moved, and are what they were
  have hmoved : ∀ j, s.tableau.structural ≤ j →
      (b.extend row).getD (j + b.names.length) 0 = row.getD j 0 := by
    intro j hj
    have hn : s.tableau.structural ≤ row.length := by omega
    have hshifted := getD_bordered_shifted hcolumns hn j
    rwa [if_neg (by omega)] at hshifted
  refine isNewRow_of_getD_beq hvalid ?_ ?_ ?_
  · rw [extend, length_bordered hcolumns, hlen, hwidth]
    omega
  · rw [hheight, hstructural]
    intro l hl
    rw [Nat.add_right_comm, hmoved _ (by omega)]
    exact hslack l hl
  · rw [hwidth]
    intro q hq
    rw [Nat.add_right_comm, hmoved _ (by omega)]
    exact hunit q hq

/-- With the coefficients of the new variables the rows are folded as without them. -/
theorem folded_extend {transformed : Rows ℚ} {s' : Snapshot ℚ}
    (hproduct : s.basisInverse.mul b.columns = .ok transformed)
    (htableau : s'.tableau = s.tableau.withColumns transformed b.costs b.names) :
    s'.folded (b.rows.map b.extend) b.rhs =
      (s.folded b.rows b.rhs).map (Prod.map b.extend id) := by
  rw [folded, folded, List.length_map, htableau]
  refine List.ext_getElem (by simp) fun r hr hr' => ?_
  rw [List.length_map, List.length_zipWith, lt_min_iff] at hr'
  rw [List.getElem_zipWith, List.getElem_map, List.getElem_map, List.getElem_zipWith]
  exact hs.foldAll_withColumns ht b.hasShape_columns b.hasShape_coefficients b.length_costs
    b.nodup_names hproduct (b.isNewRow _ r (List.getElem?_eq_getElem hr'.1)).length_eq _

/-- The variables are accepted, and then the constraints. -/
theorem apply_variablesFirst : ∃ r s',
    s.apply (.newVariables b.columns b.costs b.names) = .ok r ∧
      capture r.tableau r.initialRows = .ok s' ∧
      s'.apply (.newConstraints (List.zipWith (spliceAt s.tableau.structural) b.coefficients b.rows)
        b.rhs b.slackCosts) = .ok b.revision := by
  obtain ⟨transformed, hproduct⟩ := hs.exists_mul_eq_ok b.hasShape_columns
  have htransformed := hasShape_transformed hs b.hasShape_columns hproduct
  have hfirst : s.apply (.newVariables b.columns b.costs b.names) =
      .ok ⟨s.tableau.withColumns transformed b.costs b.names,
        List.zipWith (spliceAt s.tableau.structural) b.columns s.initialRows⟩ :=
    (addVariables_eq_ok hs).2 ⟨b.hasShape_columns, b.length_costs, b.nodup_names, transformed,
      hproduct, htransformed.length_eq, rfl⟩
  obtain ⟨s', hcapture⟩ := (extends_apply hs hfirst).exists_capture_eq_ok
  obtain ⟨htableau, hinitial, -⟩ := capture_eq_ok.1 hcapture
  have ht' : s'.tableau.IsWellFormed :=
    htableau ▸ ht.withColumns htransformed b.length_costs b.nodup_names
  have hlen : (b.rows.map b.extend).length = b.rows.length := List.length_map _
  have hn : ∀ row ∈ s.initialRows, s.tableau.structural ≤ row.length := fun row hrow =>
    (hs.hasShape.length_row row hrow).symm ▸ Nat.sub_le _ _
  refine ⟨_, s', hfirst, hcapture, (addConstraints_eq_ok ht').2 ?_⟩
  rw [b.zipWith_coefficients_eq hs.isValid, hlen]
  refine ⟨b.length_rhs, b.length_slackCosts, b.isNewRow_extend hs htransformed htableau, ?_⟩
  rw [constraintRevision_eq, hlen, b.folded_extend hs ht hproduct htableau, hinitial, htableau,
    Tableau.rows_withColumns, Tableau.names_withColumns, b.freshNames_eq,
    hs.map_rows_withColumns b.hasShape_columns b.hasShape_coefficients hproduct,
    map_append_zipWith_spliceAt _ hn, ← b.zipWith_coefficients_eq hs.isValid, revision,
    List.map_append, List.map_map (l := s.folded b.rows b.rhs),
    List.map_map (l := s.folded b.rows b.rhs), List.map_map (l := s.folded b.rows b.rhs)]
  rfl

omit hs ht in
/-- New constraints and new variables commute. For every snapshot whose basic variables are among
its variables, if no new variable is called as a new slack variable is, both orders are accepted and
lead to the same snapshot: the constraints first and then the variables with their columns through
the old and the new rows, or the variables first and then the constraints with the coefficients of
the new variables. -/
theorem applyAll_comm {t : Tableau ℚ} {initialRows : Rows ℚ}
    (hcapture : capture t initialRows = .ok s) (hbasis : ∀ name ∈ t.basis, name ∈ t.names)
    (b : s.Border) :
    ∃ s', s.applyAll b.constraintsFirst = .ok s' ∧ s.applyAll b.variablesFirst = .ok s' := by
  obtain ⟨rfl, -, hs⟩ := capture_eq_ok.1 hcapture
  have ht : s.tableau.IsWellFormed := ⟨hs.isValid, hbasis⟩
  obtain ⟨r₁, s₁, hrows, hcapture₁, hcolumns⟩ := b.apply_constraintsFirst hs ht
  obtain ⟨r₂, s₂, hcolumns', hcapture₂, hrows'⟩ := b.apply_variablesFirst hs ht
  obtain ⟨-, -, hs₁⟩ := capture_eq_ok.1 hcapture₁
  obtain ⟨s', hs'⟩ := (extends_apply hs₁ hcolumns).exists_capture_eq_ok
  exact ⟨s', (applyAll_pair hrows hcapture₁ hcolumns).trans hs',
    (applyAll_pair hcolumns' hcapture₂ hrows').trans hs'⟩

end Border

/-- Two products that share two resources, when both resources are used up. -/
def sharedResources : Snapshot ℚ where
  tableau := {
    rows := [[1, 0, 2, -1], [0, 1, -1, 1]]
    rhs := [2, 1]
    costs := [3, 2, 0, 0]
    names := ["x", "y", "s1", "s2"]
    basis := ["x", "y"] }
  basisInverse := [[2, -1], [-1, 1]]
  initialRows := [[1, 1, 1, 0], [1, 2, 0, 1]]

/-- A third product and two more resources. The product has the name of a slack variable, but of one
that is not needed yet. -/
def Border.thirdProduct : sharedResources.Border where
  rows := [[1, 2, 0, 0, 1, 0], [2, 1, 0, 0, 0, 1]]
  rhs := [5, 7]
  slackCosts := some [0, 1]
  columns := [[3], [1]]
  costs := [4]
  names := ["s5"]
  coefficients := [[1], [2]]
  isNewRow := checkNewRows_eq_ok.1 (by decide +kernel)
  length_rhs := rfl
  length_slackCosts := by decide
  hasShape_columns := ⟨rfl, by decide⟩
  length_costs := rfl
  nodup_names := by decide
  not_mem_freshNames := by decide
  hasShape_coefficients := ⟨rfl, by decide⟩

theorem Border.applyAll_comm_thirdProduct : ∃ s',
    capture sharedResources.tableau sharedResources.initialRows = .ok sharedResources ∧
      (∀ name ∈ sharedResources.tableau.basis, name ∈ sharedResources.tableau.names) ∧
      sharedResources.applyAll Border.thirdProduct.constraintsFirst = .ok s' ∧
      sharedResources.applyAll Border.thirdProduct.variablesFirst = .ok s' := by
  have hcapture : capture sharedResources.tableau sharedResources.initialRows =
      .ok sharedResources := by
    decide +kernel
  have hbasis : ∀ name ∈ sharedResources.tableau.basis, name ∈ sharedResources.tableau.names := by
    decide
  obtain ⟨s', hconstraints, hvariables⟩ := Border.applyAll_comm hcapture hbasis Border.thirdProduct
  exact ⟨s', hcapture, hbasis, hconstraints, hvariables⟩

end Snapshot

end LinProg
