import LinProg.Proofs.Names
import LinProg.Proofs.Snapshot
import LinProg.Revision

/-!
# What a revision has checked

A revision is given only if the request has passed the checks of its kind. For each kind the lemma
here says what has been checked and writes out the tableau and the initial coefficients that are
given back.
-/

namespace LinProg

/-- New names clash with none exactly if they leave all names distinct. -/
theorem Snapshot.clashing?_eq_none {names new : List String} (hnames : names.Nodup) :
    clashing? names new = none ↔ (names ++ new).Nodup := by
  rw [clashing?, Option.map_eq_none_iff, List.find?_eq_none, List.nodup_append',
    nodup_iff_not_mem_take]
  constructor
  · intro h
    have h' : ∀ name j, new[j]? = some name → name ∉ names ∧ name ∉ new.take j := by
      intro name j hname
      simpa using h (name, j) (List.mem_zipIdx_iff_getElem?.2 hname)
    refine ⟨nodup_iff_not_mem_take.1 hnames, nodup_iff_not_mem_take.2 fun name j hname => ?_, ?_⟩
    · exact (h' name j hname).2
    · intro name hold hnew
      obtain ⟨j, hj⟩ := List.mem_iff_getElem?.1 hnew
      exact (h' name j hj).1 hold
  · rintro ⟨-, hnew, hdisjoint⟩ ⟨name, j⟩ hname
    have hname := List.mem_zipIdx_iff_getElem?.1 hname
    have hfresh : name ∉ names := fun hold => hdisjoint hold (List.mem_of_getElem? hname)
    simpa [hfresh] using nodup_iff_not_mem_take.1 hnew name j hname

namespace Snapshot

variable {α : Type} [Scalar α] {s : Snapshot α} {revision : Revision α}

omit [Scalar α] in
theorem changeObjective_eq_ok {costs : List α} :
    s.changeObjective costs = .ok revision ↔ s.tableau.width = costs.length ∧
      revision = { tableau := { s.tableau with costs }, initialRows := s.initialRows } := by
  rw [changeObjective, Outcome.bind_unit_eq_ok, Dimension.check_eq_ok, Outcome.pure_eq,
    Except.ok.injEq, eq_comm (a := revision)]

theorem changeRhs_eq_ok {rhs : List α} :
    s.changeRhs rhs = .ok revision ↔ s.tableau.height = rhs.length ∧
      ∃ rhs', s.basisInverse.apply rhs = .ok rhs' ∧
        revision = { tableau := { s.tableau with rhs := rhs' }, initialRows := s.initialRows } := by
  rw [changeRhs, Outcome.bind_unit_eq_ok, Dimension.check_eq_ok, Outcome.bind_eq_ok]
  refine and_congr_right fun _ => exists_congr fun rhs' => and_congr_right fun _ => ?_
  rw [Outcome.pure_eq, Except.ok.injEq, eq_comm]

/-! ### New constraints -/

/-- A new row has the length of the revised tableau, nothing in the old slack columns, and a one of
its own in the new ones. -/
structure IsNewRow (s : Snapshot α) (count : Nat) (row : List α) (i : Nat) : Prop where
  length_eq : row.length = s.tableau.width + count
  slack_eq : ∀ v ∈ (row.take s.tableau.width).drop s.tableau.structural, (v == 0) = true
  isUnit : Rows.isUnit i (row.drop s.tableau.width) = true

theorem checkNewRows_eq_ok {rows : Rows α} :
    s.checkNewRows rows = .ok () ↔ ∀ row i, rows[i]? = some row → s.IsNewRow rows.length row i := by
  have hrow : ∀ (row : List α) (i : Nat), (do
      Dimension.newRowColumns.check (s.tableau.width + rows.length) row.length
      let oldSlacks := (row.take s.tableau.width).drop s.tableau.structural
      if !(oldSlacks.all (· == 0) && Rows.isUnit i (row.drop s.tableau.width)) then
        Outcome.refuse (.nonUnitSlack i)) = Except.ok () ↔ s.IsNewRow rows.length row i := by
    intro row i
    rw [Outcome.bind_unit_eq_ok, Dimension.check_eq_ok]
    constructor
    · rintro ⟨hlen, h⟩
      dsimp only at h
      split at h
      · simp at h
      · next hslack =>
        rw [Bool.not_eq_true, Bool.not_eq_false', Bool.and_eq_true, List.all_eq_true] at hslack
        exact ⟨hlen.symm, hslack.1, hslack.2⟩
    · rintro ⟨hlen, hslack, hunit⟩
      refine ⟨hlen.symm, ?_⟩
      dsimp only
      rw [if_neg]
      · rfl
      · rw [Bool.not_eq_true, Bool.not_eq_false', Bool.and_eq_true, List.all_eq_true]
        exact ⟨hslack, hunit⟩
  unfold checkNewRows
  rw [Outcome.forM_eq_ok]
  constructor
  · intro h row i hi
    exact (hrow row i).1 (h (row, i) (List.mem_zipIdx_iff_getElem?.2 hi))
  · rintro h ⟨row, i⟩ hi
    exact (hrow row i).2 (h row i (List.mem_zipIdx_iff_getElem?.1 hi))

/-- The revision by new constraints. -/
def constraintRevision (s : Snapshot α) (rows : Rows α) (rhs : List α) (costs : Option (List α)) :
    Revision α :=
  let padding := List.replicate rows.length (0 : α)
  let padded := s.tableau.rows.map (· ++ padding)
  let columns := s.tableau.basis.map s.tableau.names.idxOf
  let folded := List.zipWith (foldAll columns padded s.tableau.rhs) rows rhs
  let names := freshNames s.tableau.names rows.length
  { tableau := {
      rows := padded ++ folded.map (·.1)
      rhs := s.tableau.rhs ++ folded.map (·.2)
      costs := s.tableau.costs ++ costs.getD padding
      names := s.tableau.names ++ names
      basis := s.tableau.basis ++ names }
    initialRows := s.initialRows.map (· ++ padding) ++ rows }

omit [Scalar α] in
/-- New rows of the length of the revised tableau have an entry for every basic variable. -/
theorem within_basicColumns (ht : s.tableau.IsWellFormed) {rows : Rows α}
    (hrows : ∀ row ∈ rows, row.length = s.tableau.width + rows.length) :
    (decide ((s.tableau.basis.map s.tableau.names.idxOf).length ≤ s.tableau.height) &&
      decide ((s.tableau.basis.map s.tableau.names.idxOf).length ≤ s.tableau.rhs.length) &&
      rows.all fun row => (s.tableau.basis.map s.tableau.names.idxOf).all fun column =>
        decide (column < row.length)) = true := by
  simp only [List.length_map, ht.length_basis, ht.length_rhs, le_refl, decide_true, Bool.and_self,
    Bool.true_and, List.all_eq_true, List.forall_mem_map, decide_eq_true_iff]
  intro row hrow name hname
  have hlt : s.tableau.names.idxOf name < s.tableau.width :=
    List.idxOf_lt_length_of_mem (ht.basis_subset name hname)
  rw [hrows row hrow]
  exact Nat.lt_add_right _ hlt

theorem length_of_isNewRow {rows : Rows α}
    (h : ∀ row i, rows[i]? = some row → s.IsNewRow rows.length row i) :
    ∀ row ∈ rows, row.length = s.tableau.width + rows.length := by
  intro row hrow
  obtain ⟨i, hi⟩ := List.mem_iff_getElem?.1 hrow
  exact (h row i hi).length_eq

theorem addConstraints_eq_ok (ht : s.tableau.IsWellFormed) {rows : Rows α} {rhs : List α}
    {costs : Option (List α)} :
    s.addConstraints rows rhs costs = .ok revision ↔ rows.length = rhs.length ∧
      (∀ c ∈ costs, c.length = rows.length) ∧
      (∀ row i, rows[i]? = some row → s.IsNewRow rows.length row i) ∧
      revision = s.constraintRevision rows rhs costs := by
  unfold addConstraints
  dsimp only
  rw [Outcome.bind_unit_eq_ok, Dimension.check_eq_ok]
  refine and_congr_right fun _ => ?_
  cases costs with
  | none =>
    dsimp only
    rw [Outcome.bind_unit_eq_ok, checkNewRows_eq_ok, ht.basicColumns_eq, Outcome.ok_bind,
      Outcome.bind_unit_eq_ok, Outcome.within_eq_ok, Outcome.pure_eq, Except.ok.injEq,
      eq_comm (b := revision)]
    have hnone : ∀ c ∈ (none : Option (List α)), c.length = rows.length := by simp
    refine Iff.trans ?_ (and_iff_right hnone).symm
    exact and_congr_right fun h => and_iff_right (within_basicColumns ht (length_of_isNewRow h))
  | some c =>
    dsimp only
    rw [Outcome.bind_unit_eq_ok, Dimension.check_eq_ok, Outcome.bind_unit_eq_ok, checkNewRows_eq_ok,
      ht.basicColumns_eq, Outcome.ok_bind, Outcome.bind_unit_eq_ok, Outcome.within_eq_ok,
      Outcome.pure_eq, Except.ok.injEq, eq_comm (b := revision)]
    refine and_congr (by simp [eq_comm]) (and_congr_right fun h => and_iff_right ?_)
    exact within_basicColumns ht (length_of_isNewRow h)

omit [Scalar α] in
/-- Where the basic variables have been located, they are among the variables. -/
theorem isWellFormed_of_basicColumns (ht : s.tableau.IsValid) {columns : List Nat}
    (h : s.tableau.basicColumns = .ok columns) : s.tableau.IsWellFormed :=
  ⟨ht, (Tableau.basicColumns_eq_ok.1 h).1⟩

/-- New constraints are added only to a tableau whose basic variables are among its variables. -/
theorem isWellFormed_of_addConstraints (ht : s.tableau.IsValid) {rows : Rows α} {rhs : List α}
    {costs : Option (List α)} (h : s.addConstraints rows rhs costs = .ok revision) :
    s.tableau.IsWellFormed := by
  unfold addConstraints at h
  dsimp only at h
  obtain ⟨-, h⟩ := Outcome.bind_unit_eq_ok.1 h
  cases costs with
  | none =>
    obtain ⟨-, h⟩ := Outcome.bind_unit_eq_ok.1 h
    obtain ⟨columns, hcolumns, -⟩ := Outcome.bind_eq_ok.1 h
    exact isWellFormed_of_basicColumns ht hcolumns
  | some costs =>
    obtain ⟨-, h⟩ := Outcome.bind_unit_eq_ok.1 h
    obtain ⟨-, h⟩ := Outcome.bind_unit_eq_ok.1 h
    obtain ⟨columns, hcolumns, -⟩ := Outcome.bind_eq_ok.1 h
    exact isWellFormed_of_basicColumns ht hcolumns

/-! ### New variables -/

theorem addVariables_eq_ok (hs : s.IsCaptured) {columns : Rows α} {costs : List α}
    {names : List String} :
    s.addVariables columns costs names = .ok revision ↔
      columns.HasShape s.tableau.height names.length ∧ costs.length = names.length ∧
      (s.tableau.names ++ names).Nodup ∧
      ∃ transformed, s.basisInverse.mul columns = .ok transformed ∧
        transformed.length = s.tableau.height ∧
        revision = {
          tableau := {
            rows := List.zipWith (spliceAt s.tableau.structural) transformed s.tableau.rows
            rhs := s.tableau.rhs
            costs := spliceAt s.tableau.structural costs s.tableau.costs
            names := spliceAt s.tableau.structural names s.tableau.names
            basis := s.tableau.basis }
          initialRows := List.zipWith (spliceAt s.tableau.structural) columns s.initialRows } := by
  have hrows : s.initialRows.length = s.tableau.height := hs.hasShape.length_eq
  unfold addVariables
  dsimp only
  rw [Outcome.bind_unit_eq_ok, Dimension.check_eq_ok, Outcome.bind_unit_eq_ok,
    Dimension.check_eq_ok, Outcome.bind_unit_eq_ok, Rows.checkWidths_eq_ok]
  constructor
  · rintro ⟨hheight, hcosts, hwidths, h⟩
    split at h
    · simp [Outcome.bind_unit_eq_ok] at h
    · next hclash =>
      obtain ⟨transformed, htransformed, h⟩ := Outcome.bind_eq_ok.1 h
      obtain ⟨hwithin, h⟩ := Outcome.bind_unit_eq_ok.1 h
      rw [Outcome.within_eq_ok, Bool.and_eq_true, decide_eq_true_iff] at hwithin
      cases h
      have hnone : clashing? s.tableau.names names = none :=
        Option.eq_none_iff_forall_ne_some.2 hclash
      exact ⟨⟨hheight.symm, hwidths⟩, hcosts.symm,
        (clashing?_eq_none hs.isValid.nodup_names).1 hnone, transformed, htransformed,
        hwithin.1, rfl⟩
  · rintro ⟨hshape, hcosts, hnodup, transformed, htransformed, hlen, rfl⟩
    refine ⟨hshape.length_eq.symm, hcosts.symm, hshape.length_row, ?_⟩
    rw [(clashing?_eq_none hs.isValid.nodup_names).2 hnodup]
    dsimp only
    rw [htransformed, Outcome.ok_bind, hlen, hrows, decide_eq_true rfl, Bool.and_self]
    rfl

/-! ### New coefficients -/

/-- The column that is given back for new coefficients of a variable. A slack column has to be its
unit column, and the column of a basic variable has to be as before; both stay what they are in the
tableau. Any other column is multiplied by the inverse of the basis. -/
theorem changedColumn_cases {rows current : Rows α} {basicColumns : List Nat}
    {name : String} {j : Nat} {column : List α}
    (h : s.changedColumn rows current basicColumns name j = .ok column) :
    ∃ raw old, rows.column j = .ok raw ∧ current[j]? = some old ∧
      ((s.tableau.structural ≤ j ∧ Rows.isUnit (j - s.tableau.structural) raw = true ∧
          column = old) ∨
        (j < s.tableau.structural ∧ j ∈ basicColumns ∧ column = old ∧
          ∃ initial, s.initialRows.column j = .ok initial ∧
            ∀ p ∈ raw.zip initial, Arithmetic.identical p.1 p.2 = true) ∨
        (j < s.tableau.structural ∧ j ∉ basicColumns ∧ s.basisInverse.apply raw = .ok column)) := by
  unfold changedColumn at h
  obtain ⟨raw, hraw, h⟩ := Outcome.bind_eq_ok.1 h
  split at h
  · next hj =>
    split at h
    · cases h
    · next hunit =>
      have hold := Outcome.inRange_eq_ok.1 h
      exact ⟨raw, column, hraw, hold, .inl ⟨hj, by simpa using hunit, rfl⟩⟩
  · next hj =>
    have hj := not_le.1 hj
    split at h
    · next hbasic =>
      obtain ⟨initial, hinitial, h⟩ := Outcome.bind_eq_ok.1 h
      split at h
      · cases h
      · next hsame =>
        have hold := Outcome.inRange_eq_ok.1 h
        refine ⟨raw, column, hraw, hold, .inr (.inl ⟨hj, ?_, rfl, initial, hinitial, ?_⟩)⟩
        · simpa using hbasic
        · rw [Bool.not_eq_true, Bool.not_eq_false', List.all_eq_true] at hsame
          exact hsame
    · next hbasic =>
      obtain ⟨changed, hchanged, h⟩ := Outcome.bind_eq_ok.1 h
      obtain ⟨old, hold, h⟩ := Outcome.bind_eq_ok.1 h
      cases h
      refine ⟨raw, old, hraw, Outcome.inRange_eq_ok.1 hold, .inr (.inr ⟨hj, ?_, hchanged⟩)⟩
      simpa using hbasic

/-- Coefficients are changed only in a tableau whose basic variables are among its variables. -/
theorem isWellFormed_of_changeCoefficients (ht : s.tableau.IsValid) {rows : Rows α}
    (h : s.changeCoefficients rows = .ok revision) : s.tableau.IsWellFormed := by
  obtain ⟨-, h⟩ := Outcome.bind_unit_eq_ok.1 h
  obtain ⟨-, h⟩ := Outcome.bind_unit_eq_ok.1 h
  obtain ⟨columns, hcolumns, -⟩ := Outcome.bind_eq_ok.1 h
  exact isWellFormed_of_basicColumns ht hcolumns

/-- A column is given back for each variable, at the position of the variable. -/
theorem getElem?_changedColumns {rows current columns : Rows α} {basicColumns : List Nat}
    (h : (s.tableau.names.zipIdx.mapM fun (name, j) =>
      s.changedColumn rows current basicColumns name j) = .ok columns) :
    columns.length = s.tableau.width ∧ ∀ j < s.tableau.width, ∃ name column,
      columns[j]? = some column ∧
        s.changedColumn rows current basicColumns name j = .ok column := by
  obtain ⟨hlen, hresults⟩ := Outcome.getElem?_of_mapM h
  rw [List.length_zipIdx] at hlen
  refine ⟨hlen, fun j hj => ?_⟩
  have hj' : j < columns.length := hlen ▸ hj
  obtain ⟨⟨name, j'⟩, hname, hok⟩ := hresults j columns[j] (List.getElem?_eq_getElem hj')
  rw [List.getElem?_zipIdx, zero_add, Option.map_eq_some_iff] at hname
  obtain ⟨name', -, heq⟩ := hname
  cases heq
  exact ⟨name, _, List.getElem?_eq_getElem hj', hok⟩

/-- Coefficients are changed column by column. -/
theorem changeCoefficients_cases (ht : s.tableau.IsWellFormed) {rows : Rows α}
    (h : s.changeCoefficients rows = .ok revision) :
    rows.HasShape s.tableau.height s.tableau.width ∧ ∃ current columns changed,
      s.tableau.rows.transpose = .ok current ∧ columns.length = s.tableau.width ∧
      (∀ j < s.tableau.width, ∃ name column, columns[j]? = some column ∧
        s.changedColumn rows current (s.tableau.basis.map s.tableau.names.idxOf) name j =
          .ok column) ∧
      ((columns = [] ∧ changed = s.tableau.rows) ∨
        columns ≠ [] ∧ Rows.transpose columns = .ok changed) ∧
      revision = { tableau := { s.tableau with rows := changed }, initialRows := rows } := by
  unfold changeCoefficients at h
  dsimp only at h
  rw [Outcome.bind_unit_eq_ok, Dimension.check_eq_ok, Outcome.bind_unit_eq_ok,
    Rows.checkWidths_eq_ok, ht.basicColumns_eq, Outcome.ok_bind] at h
  obtain ⟨hheight, hwidths, h⟩ := h
  obtain ⟨current, hcurrent, h⟩ := Outcome.bind_eq_ok.1 h
  obtain ⟨columns, hcolumns, h⟩ := Outcome.bind_eq_ok.1 h
  have hshape : rows.HasShape s.tableau.height s.tableau.width := ⟨hheight.symm, hwidths⟩
  obtain ⟨hlen, hcolumn⟩ := getElem?_changedColumns hcolumns
  split at h
  · next hempty =>
    cases h
    exact ⟨hshape, current, columns, _, hcurrent, hlen, hcolumn,
      .inl ⟨by simpa using hempty, rfl⟩, rfl⟩
  · next hempty =>
    obtain ⟨changed, hchanged, h⟩ := Outcome.bind_eq_ok.1 h
    cases h
    exact ⟨hshape, current, columns, changed, hcurrent, hlen, hcolumn,
      .inr ⟨by simpa using hempty, hchanged⟩, rfl⟩

end Snapshot

end LinProg
