import LinProg.Proofs.Points
import LinProg.Proofs.Selection

/-!
# The effect of a pivot

A pivot that is read off a valid tableau can be carried out. It keeps the names, the costs and all
lengths, and puts the variable of its column in place of the basic variable of its row. In exact
arithmetic every other entry loses the multiple of the pivot row that its own entry in the pivot
column asks for, so the tableau before and after state the same program, and a canonical tableau
stays canonical.
-/

namespace LinProg

namespace Pivot

variable {α : Type} [Scalar α] {p : Pivot α} {t t' : Tableau α}

theorem ReadsOff.row_lt (hp : p.ReadsOff t) : p.row < t.height := by
  obtain ⟨-, hcolumn⟩ := Rows.column_eq_ok.1 hp.column_eq
  have hrow := (List.getElem?_eq_some_iff.1 hp.element_eq).1
  rwa [hcolumn, List.length_map] at hrow

theorem ReadsOff.column_lt (ht : t.IsValid) (hp : p.ReadsOff t) : p.column < t.width := by
  obtain ⟨hcolumn, -⟩ := Rows.column_eq_ok.1 hp.column_eq
  obtain ⟨row, hrow, hlen⟩ := ht.hasShape.exists_row hp.row_lt
  exact hlen ▸ hcolumn row (List.mem_of_getElem? hrow)

theorem ReadsOff.fits (ht : t.IsValid) (hp : p.ReadsOff t) : p.fits t = true := by
  obtain ⟨hcolumn, hvector⟩ := Rows.column_eq_ok.1 hp.column_eq
  have hlen : p.columnVector.length = t.height := by rw [hvector, List.length_map]; rfl
  simp [Pivot.fits, hp.row_lt, hp.column_lt ht, hlen, ht.length_rhs, ht.length_basis]
  exact hcolumn

/-- The tableau after a pivot, written out. -/
theorem apply_eq_ok (ht : t.IsValid) (hp : p.ReadsOff t) :
    ∃ row value entering, t.rows[p.row]? = some row ∧ t.rhs[p.row]? = some value ∧
      t.names[p.column]? = some entering ∧
      p.apply t = .ok { t with
        rows := (List.zipWith
          (Tableau.clearRow ((row.map (· / p.element)).set p.column 1) p.column)
          p.columnVector t.rows).set p.row ((row.map (· / p.element)).set p.column 1)
        rhs := (List.zipWith (Tableau.clearRhs (value / p.element)) p.columnVector t.rhs).set
          p.row (value / p.element)
        basis := t.basis.set p.row entering } := by
  obtain ⟨row, hrow, -⟩ := ht.hasShape.exists_row hp.row_lt
  have hvalue := List.getElem?_eq_getElem (ht.length_rhs.symm ▸ hp.row_lt)
  have hentering := List.getElem?_eq_getElem (hp.column_lt ht)
  refine ⟨row, _, _, hrow, hvalue, hentering, ?_⟩
  simp only [apply, hp.fits ht, hrow, hvalue, hentering]
  rfl

/-- The parts of a tableau that a pivot keeps, and its new basic variable. -/
structure Exchanges (p : Pivot α) (t t' : Tableau α) : Prop where
  names_eq : t'.names = t.names
  costs_eq : t'.costs = t.costs
  hasShape : t'.rows.HasShape t.height t.width
  length_rhs : t'.rhs.length = t.height
  basis_eq : ∃ name, t.names[p.column]? = some name ∧ t'.basis = t.basis.set p.row name

/-- A pivot that is read off a valid tableau can be carried out. -/
theorem exists_apply_eq_ok (ht : t.IsValid) (hp : p.ReadsOff t) : ∃ t', p.apply t = .ok t' := by
  obtain ⟨row, value, entering, -, -, -, h⟩ := apply_eq_ok ht hp
  exact ⟨_, h⟩

theorem exchanges_of_apply (ht : t.IsValid) (hp : p.ReadsOff t) (h : p.apply t = .ok t') :
    p.Exchanges t t' := by
  obtain ⟨row, value, entering, hrow, -, hentering, happly⟩ := apply_eq_ok ht hp
  rw [happly] at h
  cases h
  obtain ⟨-, hvector⟩ := Rows.column_eq_ok.1 hp.column_eq
  have hlen : p.columnVector.length = t.height := by rw [hvector, List.length_map]; rfl
  have hrowlen : row.length = t.width := ht.length_row row (List.mem_of_getElem? hrow)
  refine ⟨rfl, rfl, ⟨?_, ?_⟩, ?_, entering, hentering, rfl⟩
  · rw [List.length_set, List.length_zipWith, hlen]
    exact min_self _
  · intro row' hrow'
    rcases List.mem_or_eq_of_mem_set hrow' with hrow' | rfl
    · obtain ⟨i, hi, rfl⟩ := List.getElem_of_mem hrow'
      rw [List.getElem_zipWith, Tableau.length_clearRow]
      exact ht.length_row _ (List.getElem_mem _)
    · rw [List.length_set, List.length_map, hrowlen]
  · rw [List.length_set, List.length_zipWith, hlen, ht.length_rhs, min_self]

namespace Exchanges

omit [Scalar α] in
theorem height_eq (h : p.Exchanges t t') : t'.height = t.height := h.hasShape.length_eq

omit [Scalar α] in
theorem width_eq (h : p.Exchanges t t') : t'.width = t.width := congrArg List.length h.names_eq

omit [Scalar α] in
theorem isValid (h : p.Exchanges t t') (ht : t.IsValid) : t'.IsValid := by
  obtain ⟨name, -, hbasis⟩ := h.basis_eq
  refine ⟨?_, ?_, ?_, ?_, ?_, ?_⟩
  · rw [h.length_rhs, h.height_eq]
  · rw [hbasis, List.length_set, ht.length_basis, h.height_eq]
  · rw [h.width_eq]
    exact h.hasShape.length_row
  · rw [h.costs_eq, ht.length_costs, h.width_eq]
  · rw [h.height_eq, h.width_eq]
    exact ht.height_le_width
  · rw [h.names_eq]
    exact ht.nodup_names

omit [Scalar α] in
theorem isWellFormed (h : p.Exchanges t t') (ht : t.IsWellFormed) : t'.IsWellFormed := by
  obtain ⟨name, hname, hbasis⟩ := h.basis_eq
  refine ⟨h.isValid ht.toIsValid, fun name' hname' => ?_⟩
  rw [h.names_eq]
  rw [hbasis] at hname'
  rcases List.mem_or_eq_of_mem_set hname' with hname' | rfl
  · exact ht.basis_subset _ hname'
  · exact List.mem_of_getElem? hname

/-- The basic column of the pivot row becomes the pivot column, and no other basic column
changes. -/
theorem basicColumn_eq (h : p.Exchanges t t') (ht : t.IsWellFormed) (hp : p.ReadsOff t) (i : Nat) :
    t'.basicColumn i = if i = p.row then p.column else t.basicColumn i := by
  obtain ⟨name, hname, hbasis⟩ := h.basis_eq
  have hrow : p.row < t.basis.length := ht.length_basis ▸ hp.row_lt
  rw [Tableau.basicColumn, h.names_eq, hbasis, List.getD_eq_getElem?_getD]
  split
  · next hi =>
    obtain ⟨hcolumn, rfl⟩ := List.getElem?_eq_some_iff.1 hname
    rw [hi, List.getElem?_set_self hrow, Option.getD_some]
    exact ht.nodup_names.idxOf_getElem _ hcolumn
  · next hi =>
    rw [List.getElem?_set_ne (Ne.symm hi), ← List.getD_eq_getElem?_getD]
    rfl

end Exchanges

end Pivot

/-! ### Entries -/

namespace Tableau

variable {α : Type} [Arithmetic α]

/-- A cleared row has lost the multiple of the pivot row everywhere but in the pivot column, where
it has a zero. -/
theorem getD_clearRow {pivotRow row : List α} (hlen : pivotRow.length = row.length) (column : Nat)
    (multiplier : α) {j : Nat} (hj : j < row.length) :
    (clearRow pivotRow column multiplier row).getD j 0 =
      if multiplier == 0 then row.getD j 0
      else if j = column then 0
      else row.getD j 0 - multiplier * pivotRow.getD j 0 := by
  unfold clearRow
  split
  · rfl
  · rw [List.getD_eq_getElem?_getD]
    split
    · next hjc =>
      rw [← hjc, List.getElem?_set_self (by rwa [Rows.length_eliminate])]
      rfl
    · next hjc =>
      rw [List.getElem?_set_ne (Ne.symm hjc), ← List.getD_eq_getElem?_getD,
        Rows.getD_eliminate_of_lt hlen multiplier hj]

end Tableau

namespace Pivot

section

variable {α : Type} [Scalar α] {p : Pivot α} {t t' : Tableau α} (ht : t.IsValid) (hp : p.ReadsOff t)
  (h : p.apply t = .ok t') {j : Nat} (hj : j < t.width)

include ht hp h hj

/-- The pivot row is divided by the pivot element, and has a one in the pivot column. -/
theorem entry_apply_row :
    t'.rows.entry p.row j = if j = p.column then 1 else t.rows.entry p.row j / p.element := by
  obtain ⟨row, value, entering, hrow, -, -, happly⟩ := apply_eq_ok ht hp
  rw [happly] at h
  cases h
  obtain ⟨-, hvector⟩ := Rows.column_eq_ok.1 hp.column_eq
  have hlen : row.length = t.width := ht.length_row row (List.mem_of_getElem? hrow)
  rw [Rows.entry_of_getElem? (List.getElem?_set_self _), List.getD_eq_getElem?_getD,
    Rows.entry_of_getElem? hrow]
  · split
    · next hjc =>
      rw [← hjc, List.getElem?_set_self (by rwa [List.length_map, hlen])]
      rfl
    · next hjc =>
      rw [List.getElem?_set_ne (Ne.symm hjc), List.getElem?_map,
        List.getElem?_eq_getElem (hlen ▸ hj), List.getD_eq_getElem _ _ (hlen ▸ hj)]
      rfl
  · rw [List.length_zipWith, hvector, List.length_map, min_self]
    exact hp.row_lt

/-- A row with a zero in the pivot column is kept. Any other row loses a multiple of the divided
pivot row, and has a zero in the pivot column. -/
theorem entry_apply_of_ne {i : Nat} (hi : i < t.height) (hip : i ≠ p.row) :
    t'.rows.entry i j =
      if t.rows.entry i p.column == 0 then t.rows.entry i j
      else if j = p.column then 0
      else t.rows.entry i j - t.rows.entry i p.column * (t.rows.entry p.row j / p.element) := by
  have hpivot := entry_apply_row ht hp h hj
  obtain ⟨row, value, entering, hrow, -, -, happly⟩ := apply_eq_ok ht hp
  rw [happly] at h
  cases h
  obtain ⟨-, hvector⟩ := Rows.column_eq_ok.1 hp.column_eq
  obtain ⟨row', hrow', hlen'⟩ := ht.hasShape.exists_row hi
  have hlen : ((row.map (· / p.element)).set p.column 1).length = row'.length := by
    rw [List.length_set, List.length_map, hlen']
    exact ht.length_row row (List.mem_of_getElem? hrow)
  have hpivotRow :
      (List.zipWith (Tableau.clearRow ((row.map (· / p.element)).set p.column 1) p.column)
        p.columnVector t.rows).length = t.height := by
    rw [List.length_zipWith, hvector, List.length_map]
    exact min_self _
  rw [Rows.entry_of_getElem? (List.getElem?_set_self (hpivotRow.symm ▸ hp.row_lt))] at hpivot
  have hcleared : (List.zipWith
      (Tableau.clearRow ((row.map (· / p.element)).set p.column 1) p.column) p.columnVector
      t.rows)[i]? = some (Tableau.clearRow ((row.map (· / p.element)).set p.column 1) p.column
        (t.rows.entry i p.column) row') := by
    rw [hvector, List.getElem?_zipWith, List.getElem?_map, hrow', Rows.entry_of_getElem? hrow']
    rfl
  rw [Rows.entry_of_getElem? ((List.getElem?_set_ne (Ne.symm hip)).trans hcleared),
    Tableau.getD_clearRow hlen _ _ (hlen'.symm ▸ hj), hpivot, ← Rows.entry_of_getElem? hrow']
  split
  · rfl
  · split
    · rfl
    · rfl

end

/-- The right-hand side of the pivot row is divided by the pivot element, and any other right-hand
side loses a multiple of it. -/
theorem getD_rhs_apply {α : Type} [Scalar α] {p : Pivot α} {t t' : Tableau α} (ht : t.IsValid)
    (hp : p.ReadsOff t) (h : p.apply t = .ok t') {i : Nat} (hi : i < t.height) :
    t'.rhs.getD i 0 = if i = p.row then t.rhs.getD p.row 0 / p.element
      else Tableau.clearRhs (t.rhs.getD p.row 0 / p.element) (t.rows.entry i p.column)
        (t.rhs.getD i 0) := by
  obtain ⟨row, value, entering, -, hvalue, -, happly⟩ := apply_eq_ok ht hp
  rw [happly] at h
  cases h
  have hpivot : t.rhs.getD p.row 0 = value := by
    rw [List.getD_eq_getElem?_getD, hvalue, Option.getD_some]
  obtain ⟨-, hvector⟩ := Rows.column_eq_ok.1 hp.column_eq
  obtain ⟨row', hrow', -⟩ := ht.hasShape.exists_row hi
  have hvalue' := List.getElem?_eq_getElem (ht.length_rhs.symm ▸ hi)
  rw [hpivot, List.getD_eq_getElem?_getD]
  split
  · next hip =>
    rw [hip, List.getElem?_set_self, Option.getD_some]
    rw [List.length_zipWith, hvector, List.length_map, ht.length_rhs]
    exact lt_min hp.row_lt hp.row_lt
  · next hip =>
    rw [List.getElem?_set_ne (Ne.symm hip), hvector, List.getElem?_zipWith,
      List.getElem?_map, hrow', hvalue', List.getD_eq_getElem?_getD, hvalue',
      Rows.entry_of_getElem? hrow']
    rfl

/-- A pivot on an element that is not zero keeps a tableau canonical, up to the last digit: the
entering column is stored as a unit column, and the pivot row has zeros in the other basic columns,
so that these lose nothing but zeros. Only the entries of the pivot column have to be finite. -/
theorem isCanonical_apply_of_finite {α : Type} [Scalar α] [LawfulUnits α] {p : Pivot α}
    {t t' : Tableau α} (ht : t.IsCanonical) (hp : p.ReadsOff t)
    (hfinite : ∀ i < t.height, Arithmetic.isFinite (t.rows.entry i p.column) = true)
    (he : (p.element == 0) = false) (h : p.apply t = .ok t') : t'.IsCanonical := by
  have hex := exchanges_of_apply ht.toIsValid hp h
  have hwf := hex.isWellFormed ht.toIsWellFormed
  have hpcolumn := hp.column_lt ht.toIsValid
  refine ⟨hwf, fun i hi => ?_⟩
  rw [hwf.hasShape.hasUnitColumn_iff_beq (hwf.basicColumn_lt hi), hex.height_eq]
  rw [hex.height_eq] at hi
  intro k hk
  rw [hex.basicColumn_eq ht.toIsWellFormed hp]
  by_cases hip : i = p.row
  · rw [if_pos hip, hip]
    by_cases hkp : k = p.row
    · rw [if_pos hkp, hkp, entry_apply_row ht.toIsValid hp h hpcolumn, if_pos rfl]
      exact LawfulUnits.one_beq_one
    · rw [if_neg hkp, entry_apply_of_ne ht.toIsValid hp h hpcolumn hk hkp, if_pos rfl]
      split
      · next hzero => exact hzero
      · exact LawfulUnits.zero_beq_zero
  · rw [if_neg hip]
    have hcolumn := ht.basicColumn_lt hi
    have hunit := ht.entry_basicColumn_beq hi hk
    have hzero := ht.zero_basicColumn hi hp.row_lt (Ne.symm hip)
    have hne : t.basicColumn i ≠ p.column := by
      intro heq
      rw [heq, ← hp.element_eq_entry, he] at hzero
      cases hzero
    have hquotient : (t.rows.entry p.row (t.basicColumn i) / p.element == 0) = true :=
      LawfulUnits.zero_div hzero (hp.element_eq_entry ▸ hfinite p.row hp.row_lt) he
    by_cases hkp : k = p.row
    · rw [if_neg (hkp.trans_ne (Ne.symm hip)), hkp, entry_apply_row ht.toIsValid hp h hcolumn,
        if_neg hne]
      exact hquotient
    · rw [entry_apply_of_ne ht.toIsValid hp h hcolumn hk hkp, if_neg hne]
      split
      · exact hunit
      · rw [LawfulUnits.sub_zero (LawfulUnits.mul_zero (hfinite k hk) hquotient)]
        exact hunit

end Pivot

/-! ### Exact arithmetic -/

namespace Tableau

theorem clearRhs_eq (pivotRhs multiplier value : ℚ) :
    clearRhs pivotRhs multiplier value = value - multiplier * pivotRhs := by
  unfold clearRhs
  split
  · next hzero => rw [beq_iff_eq.1 hzero]; ring
  · rfl

end Tableau

namespace Pivot

section

variable {p : Pivot ℚ} {t t' : Tableau ℚ} (ht : t.IsValid) (hp : p.ReadsOff t)
  (he : p.element ≠ 0) (h : p.apply t = .ok t')

include ht hp he h

/-- The entries after a pivot: the pivot row is divided by the pivot element, and every other row
loses a multiple of it. -/
theorem entry_apply {i j : Nat} (hi : i < t.height) :
    t'.rows.entry i j = if i = p.row then t.rows.entry p.row j / p.element
      else t.rows.entry i j - t.rows.entry i p.column * (t.rows.entry p.row j / p.element) := by
  have helement := hp.element_eq_entry
  rcases lt_or_ge j t.width with hj | hj
  · by_cases hip : i = p.row
    · rw [if_pos hip, hip, entry_apply_row ht hp h hj]
      split
      · next hjc => rw [hjc, ← helement, div_self he]
      · rfl
    · rw [if_neg hip, entry_apply_of_ne ht hp h hj hi hip]
      split
      · next hzero => rw [beq_iff_eq.1 hzero]; ring
      · split
        · next hjc => rw [hjc, ← helement, div_self he]; ring
        · rfl
  · rw [(exchanges_of_apply ht hp h).hasShape.entry_of_width_le i hj,
      ht.hasShape.entry_of_width_le p.row hj, ht.hasShape.entry_of_width_le i hj]
    split <;> ring

omit he in
/-- The right-hand sides after a pivot change like the entries. -/
theorem rhsAt_apply {i : Nat} (hi : i < t.height) :
    t'.rhsAt i = if i = p.row then t.rhsAt p.row / p.element
      else t.rhsAt i - t.rows.entry i p.column * (t.rhsAt p.row / p.element) := by
  rw [Tableau.rhsAt, getD_rhs_apply ht hp h hi, Tableau.clearRhs_eq]
  rfl

/-- How far a point is from satisfying the rows changes like the entries. -/
theorem residual_apply (u : ℚ) (y : ℕ → ℚ) {i : Nat} (hi : i < t.height) :
    t'.residual u y i = if i = p.row then t.residual u y p.row / p.element
      else t.residual u y i - t.rows.entry i p.column * (t.residual u y p.row / p.element) := by
  have hwidth := (exchanges_of_apply ht hp h).width_eq
  simp only [Tableau.residual, hwidth, rhsAt_apply ht hp h hi, entry_apply ht hp he h hi]
  split
  · rw [sub_div, Finset.sum_div, mul_div_assoc]
    congr 1
    exact Finset.sum_congr rfl fun j _ => by ring
  · have hsum : ∑ j ∈ Finset.range t.width,
        (t.rows.entry i j - t.rows.entry i p.column * (t.rows.entry p.row j / p.element)) * y j =
        ∑ j ∈ Finset.range t.width, t.rows.entry i j * y j - t.rows.entry i p.column *
          ((∑ j ∈ Finset.range t.width, t.rows.entry p.row j * y j) / p.element) := by
      rw [Finset.sum_div, Finset.mul_sum, ← Finset.sum_sub_distrib]
      exact Finset.sum_congr rfl fun j _ => by ring
    rw [hsum]
    ring

/-- A pivot on an element that is not zero states the same program. -/
theorem sameProgram_apply : t.SameProgram t' := by
  have hex := exchanges_of_apply ht hp h
  refine ⟨hex.names_eq, hex.costs_eq, hex.height_eq, fun u y => ?_⟩
  have hresidual {i : Nat} (hi : i < t.height) := residual_apply ht hp he h u y hi
  rw [Tableau.solves_iff_residual, Tableau.solves_iff_residual, hex.height_eq]
  constructor
  · intro hy
    have hpivot : t.residual u y p.row = 0 := by
      have hrow := hresidual hp.row_lt
      rw [hy p.row hp.row_lt, if_pos rfl, eq_comm, div_eq_zero_iff] at hrow
      exact hrow.resolve_right he
    intro i hi
    have hi' := hresidual hi
    rw [hy i hi, hpivot] at hi'
    split at hi'
    · next hip => rw [hip, hpivot]
    · rw [zero_div, mul_zero, sub_zero] at hi'
      exact hi'.symm
  · intro hy i hi
    rw [hresidual hi, hy i hi, hy p.row hp.row_lt]
    split <;> ring

end

/-- A pivot on an element that is not zero keeps a tableau canonical. -/
theorem isCanonical_apply {p : Pivot ℚ} {t t' : Tableau ℚ} (ht : t.IsCanonical) (hp : p.ReadsOff t)
    (he : p.element ≠ 0) (h : p.apply t = .ok t') : t'.IsCanonical :=
  isCanonical_apply_of_finite ht hp (fun _ _ => rfl) (beq_eq_false_iff_ne.2 he) h

end Pivot

end LinProg
