import LinProg.Proofs.BasisInverse
import LinProg.Proofs.Revision

/-!
# New variables and new coefficients

New structural columns are put before the slack columns, which moves the slack columns and leaves
the basic columns what they are. New coefficients leave the slack columns and the basic columns as
they are. In both cases every column of the revised tableau is the product of the inverse of the
basis and the column that was asked for, so in exact arithmetic the revised tableau is canonical and
states the program of the revised coefficients.
-/

namespace LinProg

/-! ### A block of columns -/

namespace Snapshot

variable {β : Type}

theorem getElem?_spliceAt {n : Nat} (block : List β) {list : List β}
    (hn : n ≤ list.length) (j : Nat) :
    (spliceAt n block list)[j]? = if j < n then list[j]? else
      if j < n + block.length then block[j - n]? else list[j - block.length]? := by
  have htake : (list.take n).length = n := List.length_take_of_le hn
  rw [spliceAt, List.append_assoc, List.getElem?_append, List.getElem?_append, htake]
  split
  · next hj => rw [List.getElem?_take_of_lt hj]
  · next hj =>
    have hj := not_lt.1 hj
    by_cases hblock : j < n + block.length
    · rw [if_pos hblock, if_pos (by omega)]
    · rw [if_neg hblock, if_neg (by omega), List.getElem?_drop]
      congr 1
      omega

theorem length_spliceAt (n : Nat) (block list : List β) :
    (spliceAt n block list).length = list.length + block.length := by
  simp only [spliceAt, List.length_append, List.length_take, List.length_drop]
  omega

theorem spliceAt_append {n : Nat} (block : List β) {list : List β} (hn : n ≤ list.length)
    (later : List β) : spliceAt n block (list ++ later) = spliceAt n block list ++ later := by
  rw [spliceAt, spliceAt, List.take_append_of_le_length hn, List.drop_append_of_le_length hn,
    List.append_assoc _ _ later]

theorem map_append_zipWith_spliceAt {n : Nat} (blocks : List (List β)) {rows : List (List β)}
    (hn : ∀ row ∈ rows, n ≤ row.length) (later : List β) :
    (List.zipWith (spliceAt n) blocks rows).map (· ++ later) =
      List.zipWith (spliceAt n) blocks (rows.map (· ++ later)) := by
  refine List.ext_getElem (by simp) fun i hi hi' => ?_
  rw [List.getElem_map, List.getElem_zipWith, List.getElem_zipWith, List.getElem_map]
  exact (spliceAt_append _ (hn _ (List.getElem_mem _)) later).symm

theorem spliceAt_perm (n : Nat) (block list : List β) :
    (spliceAt n block list).Perm (list ++ block) := by
  have hperm :
      (list.take n ++ (block ++ list.drop n)).Perm (list.take n ++ (list.drop n ++ block)) :=
    List.perm_append_comm.append_left _
  rw [← List.append_assoc, ← List.append_assoc, List.take_append_drop] at hperm
  exact hperm

end Snapshot

namespace Tableau

open Snapshot

section

variable {α : Type}

/-- The tableau with further columns before the slack columns. -/
def withColumns (t : Tableau α) (columns : Rows α) (costs : List α) (names : List String) :
    Tableau α where
  rows := List.zipWith (spliceAt t.structural) columns t.rows
  rhs := t.rhs
  costs := spliceAt t.structural costs t.costs
  names := spliceAt t.structural names t.names
  basis := t.basis

/-- The position of an old column after others have been put before the slack columns. -/
def shifted (t : Tableau α) (count j : Nat) : Nat := if j < t.structural then j else j + count

variable {t : Tableau α} {columns : Rows α} {costs : List α} {names : List String}

theorem rows_withColumns : (t.withColumns columns costs names).rows =
    List.zipWith (spliceAt t.structural) columns t.rows := rfl

theorem names_withColumns : (t.withColumns columns costs names).names =
    spliceAt t.structural names t.names := rfl

theorem width_withColumns : (t.withColumns columns costs names).width = t.width + names.length :=
  length_spliceAt _ _ _

variable (ht : t.IsValid) (hcolumns : columns.HasShape t.height names.length)

include hcolumns

theorem height_withColumns : (t.withColumns columns costs names).height = t.height := by
  rw [height, rows_withColumns, List.length_zipWith, hcolumns.length_eq]
  exact min_self _

include ht

theorem structural_withColumns :
    (t.withColumns columns costs names).structural = t.structural + names.length := by
  have hsum := ht.structural_add_height
  rw [structural, height_withColumns hcolumns, width_withColumns]
  omega

variable (hcosts : costs.length = names.length) (hnames : (t.names ++ names).Nodup)

include hcosts hnames

theorem IsValid.withColumns : (t.withColumns columns costs names).IsValid where
  length_rhs := by
    rw [height_withColumns hcolumns]
    exact ht.length_rhs
  length_basis := by
    rw [height_withColumns hcolumns]
    exact ht.length_basis
  length_row := by
    intro row hrow
    obtain ⟨i, hi, rfl⟩ := List.getElem_of_mem hrow
    simp only [rows_withColumns]
    rw [List.getElem_zipWith, length_spliceAt, ht.length_row _ (List.getElem_mem _),
      hcolumns.length_row _ (List.getElem_mem _), width_withColumns]
  length_costs := by
    rw [width_withColumns, Tableau.withColumns, length_spliceAt, ht.length_costs, hcosts]
  height_le_width := by
    rw [height_withColumns hcolumns, width_withColumns]
    exact Nat.le_add_right_of_le ht.height_le_width
  nodup_names := ((spliceAt_perm _ _ _).nodup_iff).2 hnames

omit ht in
theorem IsWellFormed.withColumns (ht : t.IsWellFormed) :
    (t.withColumns columns costs names).IsWellFormed where
  toIsValid := ht.toIsValid.withColumns hcolumns hcosts hnames
  basis_subset := by
    intro name hname
    exact (spliceAt_perm _ _ _).mem_iff.2 (List.mem_append_left _ (ht.basis_subset name hname))

omit ht in
/-- The basic columns move with the columns. -/
theorem basicColumn_withColumns (ht : t.IsWellFormed) {i : Nat} (hi : i < t.height) :
    (t.withColumns columns costs names).basicColumn i =
      t.shifted names.length (t.basicColumn i) := by
  have hwf := ht.withColumns hcolumns hcosts hnames
  have hcolumn := ht.basicColumn_lt hi
  have hn : t.structural ≤ t.names.length := Nat.sub_le _ _
  have hlt : t.shifted names.length (t.basicColumn i) <
      (t.withColumns columns costs names).width := by
    rw [width_withColumns, shifted]
    split <;> omega
  rw [hwf.basicColumn_eq_iff (height_withColumns hcolumns ▸ hi) hlt, names_withColumns,
    getElem?_spliceAt _ hn, shifted]
  have hbasis : (t.withColumns columns costs names).basis[i]? = t.names[t.basicColumn i]? :=
    (ht.names_basicColumn hi).symm
  by_cases hj : t.basicColumn i < t.structural
  · rw [if_pos hj, if_pos hj, hbasis]
  · rw [if_neg hj, if_neg (by omega), if_neg (by omega), Nat.add_sub_cancel, hbasis]

omit ht in
/-- The columns of the basic variables move with the columns. -/
theorem map_idxOf_withColumns (ht : t.IsWellFormed) :
    t.basis.map (t.withColumns columns costs names).names.idxOf =
      (t.basis.map t.names.idxOf).map (t.shifted names.length) := by
  rw [List.map_map]
  refine List.map_congr_left fun name hname => ?_
  obtain ⟨i, hi, rfl⟩ := List.getElem_of_mem hname
  have hcolumn := basicColumn_withColumns hcolumns hcosts hnames ht (ht.length_basis ▸ hi)
  rwa [basicColumn, basicColumn, List.getD_eq_getElem _ _ hi,
    show (t.withColumns columns costs names).basis.getD i "" = t.basis[i] from
      List.getD_eq_getElem _ _ hi] at hcolumn

end

section

variable {α : Type} [Zero α] {t : Tableau α} {columns : Rows α} {costs : List α}
  {names : List String} (ht : t.IsValid) (hcolumns : columns.HasShape t.height names.length)

include ht hcolumns

theorem entry_withColumns {i : Nat} (hi : i < t.height) (j : Nat) :
    (t.withColumns columns costs names).rows.entry i j =
      if j < t.structural then t.rows.entry i j else
        if j < t.structural + names.length then columns.entry i (j - t.structural)
        else t.rows.entry i (j - names.length) := by
  obtain ⟨row, hrow, hlen⟩ := ht.hasShape.exists_row hi
  obtain ⟨block, hblock, hblocklen⟩ := hcolumns.exists_row hi
  have hspliced : (t.withColumns columns costs names).rows[i]? =
      some (spliceAt t.structural block row) := by
    rw [rows_withColumns, List.getElem?_zipWith, hblock, hrow]
  have hn : t.structural ≤ row.length := hlen ▸ Nat.sub_le _ _
  rw [Rows.entry_of_getElem? hspliced, Rows.entry_of_getElem? hrow, Rows.entry_of_getElem? hrow,
    Rows.entry_of_getElem? hblock, List.getD_eq_getElem?_getD, getElem?_spliceAt _ hn, hblocklen]
  simp only [List.getD_eq_getElem?_getD]
  split
  · rfl
  · split <;> rfl

/-- An old column keeps its entries. -/
theorem entry_shifted {i : Nat} (hi : i < t.height) (j : Nat) :
    (t.withColumns columns costs names).rows.entry i (t.shifted names.length j) =
      t.rows.entry i j := by
  rw [entry_withColumns ht hcolumns hi, shifted]
  by_cases hj : j < t.structural
  · rw [if_pos hj, if_pos hj]
  · rw [if_neg hj, if_neg (by omega), if_neg (by omega), Nat.add_sub_cancel]

end

/-- New columns before the slack columns leave the slack columns the identity. -/
theorem hasIdentity_withColumns {α : Type} [Arithmetic α] {t : Tableau α} {columns : Rows α}
    {costs : List α} {names : List String} (ht : t.IsValid)
    (hcolumns : columns.HasShape t.height names.length) (hcosts : costs.length = names.length)
    (hnames : (t.names ++ names).Nodup) (hid : t.rows.HasIdentityAt t.structural) :
    (t.withColumns columns costs names).rows.HasIdentityAt
      (t.withColumns columns costs names).structural := by
  rw [(ht.withColumns hcolumns hcosts hnames).hasIdentity_iff_beq, height_withColumns hcolumns,
    structural_withColumns ht hcolumns]
  intro k hk l hl
  have hcolumn : t.structural + names.length + l - names.length = t.structural + l := by omega
  rw [entry_withColumns ht hcolumns hk, if_neg (by omega), if_neg (by omega), hcolumn]
  exact ht.hasIdentity_iff_beq.1 hid k hk l hl

theorem IsCanonical.withColumns {t : Tableau ℚ} {columns : Rows ℚ} {costs : List ℚ}
    {names : List String} (hcolumns : columns.HasShape t.height names.length)
    (hcosts : costs.length = names.length) (hnames : (t.names ++ names).Nodup)
    (ht : t.IsCanonical) : (t.withColumns columns costs names).IsCanonical := by
  have hwf := ht.toIsWellFormed.withColumns hcolumns hcosts hnames
  have hheight : (t.withColumns columns costs names).height = t.height :=
    height_withColumns hcolumns
  refine ⟨hwf, fun i hi => ?_⟩
  rw [hwf.hasShape.hasUnitColumn (hwf.basicColumn_lt hi), hheight]
  rw [hheight] at hi
  intro k hk
  rw [basicColumn_withColumns hcolumns hcosts hnames ht.toIsWellFormed hi,
    entry_shifted ht.toIsValid hcolumns hk, ht.entry_basicColumn hi hk]

/-- New columns, multiplied with the inverse of the basis, state the program with the new
columns. -/
theorem Underlies.withColumns {raw t : Tableau ℚ} (h : raw.Underlies t)
    {columns transformed : Rows ℚ} {costs : List ℚ} {names : List String}
    (hcolumns : columns.HasShape t.height names.length)
    (htransformed : transformed.HasShape t.height names.length)
    (hcosts : costs.length = names.length) (hnames : (t.names ++ names).Nodup)
    (hentry : ∀ i < t.height, ∀ c < names.length, transformed.entry i c =
      ∑ l ∈ Finset.range t.height, t.inverseAt i l * columns.entry l c) :
    (raw.withColumns columns costs names).Underlies (t.withColumns transformed costs names) := by
  have hsame := h.sameProgram
  have hraw : columns.HasShape raw.height names.length := hsame.height_eq ▸ hcolumns
  have hnames' : (raw.names ++ names).Nodup := hsame.names_eq ▸ hnames
  have hheight : (t.withColumns transformed costs names).height = t.height :=
    height_withColumns htransformed
  have hsum := h.isCanonical.structural_add_height
  refine ⟨h.isValid.withColumns hraw hcosts hnames',
    hasIdentity_withColumns h.isValid hraw hcosts hnames' h.hasIdentity,
    h.isCanonical.withColumns htransformed hcosts hnames, ?_⟩
  refine h.sameProgram_of_inverse ?_ ?_ ?_ hheight ?_ fun i hi => h.rhsAt_eq hi
  · rw [names_withColumns, names_withColumns, hsame.names_eq, hsame.structural_eq]
  · rw [Tableau.withColumns, Tableau.withColumns, hsame.costs_eq, hsame.structural_eq]
  · rw [height_withColumns hraw, hsame.height_eq]
  · intro i hi j hj
    rw [width_withColumns] at hj
    rw [entry_withColumns h.isCanonical.toIsValid htransformed hi]
    have hrawEntry : ∀ l ∈ Finset.range t.height,
        (raw.withColumns columns costs names).rows.entry l j =
          if j < t.structural then raw.rows.entry l j else
            if j < t.structural + names.length then columns.entry l (j - t.structural)
            else raw.rows.entry l (j - names.length) := by
      intro l hl
      rw [hsame.structural_eq]
      exact entry_withColumns h.isValid hraw (hsame.height_eq ▸ Finset.mem_range.1 hl) j
    rw [Finset.sum_congr rfl fun l hl => by rw [hrawEntry l hl]]
    split
    · exact h.entry_eq hi (by omega)
    · split
      · exact hentry i hi _ (by omega)
      · exact h.entry_eq hi (by omega)

end Tableau

/-! ### New coefficients -/

namespace Snapshot

section

variable {α : Type} [Scalar α] {s : Snapshot α} {rows current columns : Rows α} (hs : s.IsCaptured)
  (hcurrent : s.tableau.rows.transpose = .ok current)

include hs hcurrent

/-- The rows of the transpose are the columns of the tableau. -/
theorem getD_current {j : Nat} (hj : j < s.tableau.width) {old : List α}
    (hold : current[j]? = some old) :
    old.length = s.tableau.height ∧
      ∀ i < s.tableau.height, old.getD i 0 = s.tableau.rows.entry i j := by
  -- the transpose has a row only if the tableau has one
  have hheight : 0 < s.tableau.height := by
    rcases Nat.eq_zero_or_pos s.tableau.height with hzero | hpos
    · have hnil : s.tableau.rows = [] := List.eq_nil_of_length_eq_zero hzero
      rw [hnil] at hcurrent
      cases hcurrent
      cases hold
    · exact hpos
  obtain ⟨hshape, htranspose⟩ := hs.isValid.hasShape.transpose hheight hcurrent
  refine ⟨hshape.length_row old (List.mem_of_getElem? hold), fun i hi => ?_⟩
  rw [← Rows.entry_of_getElem? hold, htranspose i hi j hj]

/-- The column that is given back for new coefficients has an entry for each row. -/
theorem length_changedColumn {basicColumns : List Nat} {name : String} {j : Nat}
    (hj : j < s.tableau.width) {column : List α}
    (hcolumn : s.changedColumn rows current basicColumns name j = .ok column) :
    column.length = s.tableau.height := by
  obtain ⟨raw, old, -, hold, ⟨-, -, rfl⟩ | ⟨-, -, rfl, -⟩ | ⟨-, -, hproduct⟩⟩ :=
    changedColumn_cases hcolumn
  · exact (getD_current hs hcurrent hj hold).1
  · exact (getD_current hs hcurrent hj hold).1
  · obtain ⟨-, rfl⟩ := Rows.apply_eq_ok.1 hproduct
    rw [List.length_map, hs.hasShape_basisInverse.length_eq]

theorem hasShape_changedColumns {basicColumns : List Nat} (hlen : columns.length = s.tableau.width)
    (hcolumn : ∀ j < s.tableau.width, ∃ name column, columns[j]? = some column ∧
      s.changedColumn rows current basicColumns name j = .ok column) :
    columns.HasShape s.tableau.width s.tableau.height where
  length_eq := hlen
  length_row := by
    intro column hmem
    obtain ⟨j, hj⟩ := List.mem_iff_getElem?.1 hmem
    have hlt : j < s.tableau.width := hlen ▸ (List.getElem?_eq_some_iff.1 hj).1
    obtain ⟨name, column', hcolumn', hok⟩ := hcolumn j hlt
    rw [hj, Option.some_inj] at hcolumn'
    subst hcolumn'
    exact length_changedColumn hs hcurrent hlt hok

omit hcurrent in
/-- New coefficients are accepted only if their slack columns form the identity. -/
theorem hasIdentity_of_changedColumn {basicColumns : List Nat}
    (hrows : rows.HasShape s.tableau.height s.tableau.width)
    (hcolumn : ∀ j < s.tableau.width, ∃ name column, columns[j]? = some column ∧
      s.changedColumn rows current basicColumns name j = .ok column) :
    rows.HasIdentityAt s.tableau.structural := by
  intro l hl
  have hsum := hs.isValid.structural_add_height
  have hl : l < s.tableau.height := hrows.length_eq ▸ hl
  obtain ⟨name, column, -, hok⟩ := hcolumn (s.tableau.structural + l) (by omega)
  obtain ⟨raw, old, hraw, -, ⟨-, hunit, -⟩ | ⟨hlt, -⟩ | ⟨hlt, -⟩⟩ := changedColumn_cases hok
  · rw [Nat.add_sub_cancel_left] at hunit
    exact ⟨raw, hraw, hunit⟩
  · exact absurd hlt (by omega)
  · exact absurd hlt (by omega)

/-- The columns of the basic variables are given back as they are. -/
theorem getD_changedColumn_of_mem {basicColumns : List Nat} {name : String} {j : Nat}
    (hj : j < s.tableau.width) (hmem : j ∈ basicColumns) {column : List α}
    (hcolumn : s.changedColumn rows current basicColumns name j = .ok column) :
    ∀ i < s.tableau.height, column.getD i 0 = s.tableau.rows.entry i j := by
  obtain ⟨raw, old, -, hold, ⟨-, -, rfl⟩ | ⟨-, -, rfl, -⟩ | ⟨-, hbasic, -⟩⟩ :=
    changedColumn_cases hcolumn
  · exact (getD_current hs hcurrent hj hold).2
  · exact (getD_current hs hcurrent hj hold).2
  · exact absurd hmem hbasic

omit hcurrent in
/-- New coefficients are accepted only with the shape and the slack columns of the tableau. The
revised rows have its shape as well, and the columns of its basic variables. -/
theorem hasShape_changed (ht : s.tableau.IsWellFormed) {revision : Revision α}
    (hrevision : s.changeCoefficients rows = .ok revision) :
    ∃ changed, revision = { tableau := { s.tableau with rows := changed }, initialRows := rows } ∧
      rows.HasShape s.tableau.height s.tableau.width ∧
      rows.HasIdentityAt s.tableau.structural ∧
      changed.HasShape s.tableau.height s.tableau.width ∧
      ∀ i < s.tableau.height, ∀ j < s.tableau.width,
        j ∈ s.tableau.basis.map s.tableau.names.idxOf →
          changed.entry i j = s.tableau.rows.entry i j := by
  obtain ⟨hrows, current, columns, changed, hcurrent, hlen, hcolumn, hchanged, rfl⟩ :=
    changeCoefficients_cases ht hrevision
  refine ⟨changed, rfl, hrows, hasIdentity_of_changedColumn hs hrows hcolumn, ?_⟩
  rcases hchanged with ⟨-, rfl⟩ | ⟨hne, htranspose⟩
  · exact ⟨ht.hasShape, fun _ _ _ _ _ => rfl⟩
  · have hpos : 0 < s.tableau.width := hlen ▸ List.length_pos_iff.2 hne
    obtain ⟨hshape, hentry⟩ :=
      (hasShape_changedColumns hs hcurrent hlen hcolumn).transpose hpos htranspose
    refine ⟨hshape, fun i hi j hj hmem => ?_⟩
    obtain ⟨name, column, hget, hok⟩ := hcolumn j hj
    rw [hentry j hj i hi, Rows.entry_of_getElem? hget]
    exact getD_changedColumn_of_mem hs hcurrent hj hmem hok i hi

end

section

variable {raw : Tableau ℚ} {s : Snapshot ℚ} {rows current : Rows ℚ} (hs : s.IsCaptured)
  (h : raw.Underlies s.tableau) (hinitial : s.initialRows = raw.rows)
  (hrows : rows.HasShape s.tableau.height s.tableau.width)
  (hcurrent : s.tableau.rows.transpose = .ok current)

include hs hrows

/-- The inverse of the basis turns a unit column in a slack position into the column of the
tableau. -/
theorem sum_inverse_of_isUnit {j : Nat} (hj : j < s.tableau.width)
    (hslack : s.tableau.structural ≤ j)
    (hunit : Rows.isUnit (j - s.tableau.structural) (rows.map (·.getD j 0)) = true) (i : Nat) :
    ∑ l ∈ Finset.range s.tableau.height, s.tableau.inverseAt i l * rows.entry l j =
      s.tableau.rows.entry i j := by
  have hsum := hs.isValid.structural_add_height
  have hlen : (rows.map (·.getD j 0)).length = s.tableau.height := by
    rw [List.length_map, hrows.length_eq]
  have hterm : ∀ l ∈ Finset.range s.tableau.height, s.tableau.inverseAt i l * rows.entry l j =
      if l = j - s.tableau.structural then s.tableau.inverseAt i l else 0 := by
    intro l hl
    have hone := beq_iff_eq.1 (Rows.isUnit_iff.1 hunit l (hlen ▸ Finset.mem_range.1 hl))
    rw [Rows.getD_map_getD] at hone
    rw [hone, mul_ite, mul_one, mul_zero]
  rw [Finset.sum_congr rfl hterm, Finset.sum_ite_eq', if_pos (Finset.mem_range.2 (by omega)),
    Tableau.inverseAt, Nat.add_sub_cancel' hslack]

/-- A column that has been compared with the initial one has the same entries. -/
theorem entry_of_identical {j : Nat} (hj : j < s.tableau.width) {initial : List ℚ}
    (hinitial : s.initialRows.column j = .ok initial)
    (hidentical : ∀ p ∈ (rows.map (·.getD j 0)).zip initial, Arithmetic.identical p.1 p.2 = true)
    (l : Nat) : rows.entry l j = s.initialRows.entry l j := by
  rw [hs.hasShape.column_eq_ok hj, Except.ok.injEq] at hinitial
  subst hinitial
  have hlen : (rows.map (·.getD j 0)).length = (s.initialRows.map (·.getD j 0)).length := by
    rw [List.length_map, List.length_map, hrows.length_eq, hs.hasShape.length_eq]
  have heq : rows.map (·.getD j 0) = s.initialRows.map (·.getD j 0) := by
    refine List.ext_getElem hlen fun i hi hi' => ?_
    have hmem : ((rows.map (·.getD j 0))[i], (s.initialRows.map (·.getD j 0))[i]) ∈
        (rows.map (·.getD j 0)).zip (s.initialRows.map (·.getD j 0)) := by
      refine List.mem_iff_getElem?.2 ⟨i, ?_⟩
      rw [List.zip, List.getElem?_zipWith, List.getElem?_eq_getElem hi,
        List.getElem?_eq_getElem hi']
    exact beq_iff_eq.1 (hidentical _ hmem)
  rw [← Rows.getD_map_getD, heq, Rows.getD_map_getD]

include h hinitial hcurrent

/-- The column that is given back for new coefficients is the product of the inverse of the basis
and the new column. -/
theorem getD_changedColumn {basicColumns : List Nat} {name : String} {j : Nat}
    (hj : j < s.tableau.width) {column : List ℚ}
    (hcolumn : s.changedColumn rows current basicColumns name j = .ok column) :
    ∀ i < s.tableau.height, column.getD i 0 =
      ∑ l ∈ Finset.range s.tableau.height, s.tableau.inverseAt i l * rows.entry l j := by
  obtain ⟨raw', old, hraw', hold, hcases⟩ := changedColumn_cases hcolumn
  rw [hrows.column_eq_ok hj, Except.ok.injEq] at hraw'
  subst hraw'
  obtain ⟨-, holdEntry⟩ := getD_current hs hcurrent hj hold
  intro i hi
  rcases hcases with ⟨hslack, hunit, rfl⟩ | ⟨-, -, rfl, initial, hinitial', hidentical⟩ |
    ⟨-, -, hproduct⟩
  · rw [holdEntry i hi, sum_inverse_of_isUnit hs hrows hj hslack hunit]
  · rw [holdEntry i hi, h.entry_eq hi hj]
    refine Finset.sum_congr rfl fun l _ => ?_
    rw [entry_of_identical hs hrows hj hinitial' hidentical, hinitial]
  · have hlen : (rows.map (·.getD j 0)).length = s.tableau.height := by
      rw [List.length_map, hrows.length_eq]
    obtain ⟨-, hentry⟩ := (hs.isValid.apply_basisInverse hs.basisInverse_eq hlen).1 hproduct
    rw [hentry i hi]
    exact Finset.sum_congr rfl fun l _ => by rw [Rows.getD_map_getD]

end

variable {raw : Tableau ℚ} {s : Snapshot ℚ} {rows : Rows ℚ}

/-- New coefficients leave the tableau canonical. -/
theorem isCanonical_changeCoefficients (hs : s.IsCaptured) (ht : s.tableau.IsCanonical)
    {revision : Revision ℚ} (hrevision : s.changeCoefficients rows = .ok revision) :
    revision.tableau.IsCanonical := by
  obtain ⟨changed, rfl, -, -, hshape, hbasic⟩ := hasShape_changed hs ht.toIsWellFormed hrevision
  have hheight : Tableau.height { s.tableau with rows := changed } = s.tableau.height :=
    hshape.length_eq
  refine ⟨⟨ht.replaceRows hshape, ht.basis_subset⟩, ?_⟩
  rw [hheight]
  intro i hi
  have hcolumn := ht.basicColumn_lt hi
  have hmem : s.tableau.basicColumn i ∈ s.tableau.basis.map s.tableau.names.idxOf :=
    List.mem_of_getElem? (Tableau.getD_map_idxOf ht.toIsValid hi)
  refine (hshape.hasUnitColumn hcolumn).2 fun k hk => ?_
  rw [hbasic k hk _ hcolumn hmem, ht.entry_basicColumn hi hk]

/-- The revised rows are the product of the inverse of the basis and the new coefficients. -/
theorem entry_changed (hs : s.IsCaptured) (h : raw.Underlies s.tableau)
    (hinitial : s.initialRows = raw.rows) {changed : Rows ℚ}
    (hrevision : s.changeCoefficients rows =
      .ok { tableau := { s.tableau with rows := changed }, initialRows := rows }) :
    ∀ i < s.tableau.height, ∀ j < s.tableau.width, changed.entry i j =
      ∑ l ∈ Finset.range s.tableau.height, s.tableau.inverseAt i l * rows.entry l j := by
  obtain ⟨hrows, current, columns, changed', hcurrent, hlen, hcolumn, hchanged, heq⟩ :=
    changeCoefficients_cases h.isCanonical.toIsWellFormed hrevision
  cases heq
  rcases hchanged with ⟨hempty, rfl⟩ | ⟨hne, htranspose⟩
  · -- a tableau without columns has no rows
    have hwidth : s.tableau.width = 0 := by
      rw [hempty] at hlen
      exact hlen.symm
    have hheight := h.isCanonical.height_le_width
    exact fun i hi => absurd hi (by omega)
  · have hpos : 0 < s.tableau.width := hlen ▸ List.length_pos_iff.2 hne
    have hcolumns := hasShape_changedColumns hs hcurrent hlen hcolumn
    obtain ⟨-, hentry⟩ := hcolumns.transpose hpos htranspose
    intro i hi j hj
    obtain ⟨name, column, hget, hok⟩ := hcolumn j hj
    rw [hentry j hj i hi, Rows.entry_of_getElem? hget]
    exact getD_changedColumn hs h hinitial hrows hcurrent hj hok i hi

/-- New coefficients underlie the tableau that is revised for them. -/
theorem underlies_changeCoefficients (hs : s.IsCaptured) (h : raw.Underlies s.tableau)
    (hinitial : s.initialRows = raw.rows) {revision : Revision ℚ}
    (hrevision : s.changeCoefficients rows = .ok revision) :
    Tableau.Underlies { raw with rows } revision.tableau ∧ revision.initialRows = rows := by
  have hcanonical := isCanonical_changeCoefficients hs h.isCanonical hrevision
  obtain ⟨changed, rfl, hrows, hidentity, hshape, -⟩ :=
    hasShape_changed hs h.isCanonical.toIsWellFormed hrevision
  have hsame := h.sameProgram
  have hheight : Tableau.height { raw with rows } = raw.height := by
    rw [Tableau.height, hrows.length_eq, hsame.height_eq]
  have hwidth : Tableau.width { raw with rows } = raw.width := rfl
  have hheight' : Tableau.height { s.tableau with rows := changed } = s.tableau.height :=
    hshape.length_eq
  have hrows' : rows.HasShape raw.height raw.width := by
    rwa [← hsame.height_eq, ← hsame.width_eq]
  refine ⟨⟨h.isValid.replaceRows hrows', ?_, hcanonical, ?_⟩, rfl⟩
  · rw [Tableau.structural, hheight, hwidth]
    rw [hsame.structural_eq] at hidentity
    exact hidentity
  · exact h.sameProgram_of_inverse hsame.names_eq hsame.costs_eq
      (hheight.trans hsame.height_eq.symm) hheight' (entry_changed hs h hinitial hrevision)
      fun i hi => h.rhsAt_eq hi

end Snapshot

end LinProg
