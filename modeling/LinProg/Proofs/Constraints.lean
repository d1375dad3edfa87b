import LinProg.Proofs.BasisInverse
import LinProg.Proofs.Revision

/-!
# New constraints

A new constraint is freed of the basic variables, one tableau row after another. In a canonical
tableau a row that is taken away leaves the entries of the other basic columns alone, so in exact
arithmetic the multiples that are taken away are those with which the basic variables occur in the
new row itself. The revised tableau is canonical again, with the new slack variables basic, and its
points are the points of the tableau that satisfy the new constraints.
-/

namespace LinProg

/-! ### Folding a row -/

namespace Snapshot

theorem zip_map_zip {β β' γ γ' δ : Type} (g : β → β') (f : γ → γ') (as : List β) (bs : List γ)
    (cs : List δ) : (as.map g).zip ((bs.map f).zip cs) =
      (as.zip (bs.zip cs)).map (Prod.map g (Prod.map f id)) := by
  rw [← List.zip_map, ← List.zip_map_left]

/-- What commutes with taking one row away commutes with taking all of them away. -/
theorem foldl_fold_map {α : Type} [Scalar α] {f : List α → List α} {g : ℕ → ℕ} {n : ℕ}
    (entries : List (ℕ × List α × α)) (hfold : ∀ p ∈ entries, ∀ state : List α × α,
      state.1.length = n → fold (state.map f id) (g p.1) (f p.2.1) p.2.2 =
        (fold state p.1 p.2.1 p.2.2).map f id)
    (state : List α × α) (hstate : state.1.length = n) :
    (entries.map (Prod.map g (Prod.map f id))).foldl
        (fun state (column, row, value) => fold state column row value) (state.map f id) =
      (entries.foldl (fun state (column, row, value) => fold state column row value) state).map f
        id := by
  induction entries generalizing state with
  | nil => rfl
  | cons p entries ih =>
    obtain ⟨column, row, value⟩ := p
    obtain ⟨hp, hfold⟩ := List.forall_mem_cons.1 hfold
    rw [List.map_cons, List.foldl_cons, List.foldl_cons,
      ← ih hfold _ ((length_fold state column row value).trans hstate), ← hp state hstate]
    rfl

theorem fold_eq (state : List ℚ × ℚ) (column : Nat) {row : List ℚ} (value : ℚ)
    (hlen : row.length = state.1.length) :
    (∀ j, (fold state column row value).1.getD j 0 =
        state.1.getD j 0 - state.1.getD column 0 * row.getD j 0) ∧
      (fold state column row value).2 = state.2 - state.1.getD column 0 * value := by
  unfold fold
  dsimp only
  split
  · next hzero =>
    rw [beq_iff_eq.1 hzero]
    exact ⟨fun j => by ring, by ring⟩
  · exact ⟨fun j => Rows.getD_eliminate hlen _ j, rfl⟩

/-- Rows that are zero in the columns of later ones are taken away with the multiples that stand in
the row at the beginning. -/
theorem foldl_fold_eq (entries : List (ℕ × List ℚ × ℚ)) (state : List ℚ × ℚ)
    (hlen : ∀ p ∈ entries, p.2.1.length = state.1.length)
    (hpairwise : entries.Pairwise fun p q => p.2.1.getD q.1 0 = 0) :
    (∀ j, (entries.foldl (fun state (column, row, value) => fold state column row value)
        state).1.getD j 0 =
        state.1.getD j 0 - (entries.map fun p => state.1.getD p.1 0 * p.2.1.getD j 0).sum) ∧
      (entries.foldl (fun state (column, row, value) => fold state column row value) state).2 =
        state.2 - (entries.map fun p => state.1.getD p.1 0 * p.2.2).sum := by
  induction entries generalizing state with
  | nil => simp
  | cons p entries ih =>
    obtain ⟨hp, hlen⟩ := List.forall_mem_cons.1 hlen
    obtain ⟨hzero, hpairwise⟩ := List.pairwise_cons.1 hpairwise
    obtain ⟨hentry, hvalue⟩ := fold_eq state p.1 p.2.2 hp
    have hnext : ∀ q ∈ entries, q.2.1.length = (fold state p.1 p.2.1 p.2.2).1.length := by
      intro q hq
      rw [length_fold, hlen q hq]
    obtain ⟨ihentry, ihvalue⟩ := ih _ hnext hpairwise
    -- the multiples of the later rows are still those of the beginning
    have hkeep : ∀ q ∈ entries, (fold state p.1 p.2.1 p.2.2).1.getD q.1 0 = state.1.getD q.1 0 := by
      intro q hq
      rw [hentry, hzero q hq, mul_zero, sub_zero]
    have hmap : ∀ f : ℕ × List ℚ × ℚ → ℚ,
        (entries.map fun q => (fold state p.1 p.2.1 p.2.2).1.getD q.1 0 * f q) =
          entries.map fun q => state.1.getD q.1 0 * f q := by
      intro f
      exact List.map_congr_left fun q hq => by rw [hkeep q hq]
    rw [List.foldl_cons, List.map_cons, List.sum_cons]
    refine ⟨fun j => ?_, ?_⟩
    · rw [List.map_cons, List.sum_cons, ihentry j, hmap, hentry]
      ring
    · rw [ihvalue, hmap, hvalue]
      ring

end Snapshot

/-- Zeros at the end of a list change none of its entries. -/
theorem getD_append_replicate_zero {α : Type} [Zero α] (row : List α) (k j : Nat) :
    (row ++ List.replicate k 0).getD j 0 = row.getD j 0 := by
  rw [List.getD_eq_getElem?_getD, List.getD_eq_getElem?_getD, List.getElem?_append]
  split
  · rfl
  · next hj =>
    rw [List.getElem?_eq_none (not_lt.1 hj), List.getElem?_replicate]
    split <;> rfl

namespace Tableau

variable {t : Tableau ℚ}

/-- A row of a tableau that has been widened by zeros, with its basic column and its right-hand
side. -/
def widenedEntry (t : Tableau ℚ) (k i : Nat) : ℕ × List ℚ × ℚ :=
  (t.basicColumn i, t.rows.getD i [] ++ List.replicate k 0, t.rhsAt i)

theorem getD_widenedEntry (t : Tableau ℚ) (k i j : Nat) :
    (t.widenedEntry k i).2.1.getD j 0 = t.rows.entry i j :=
  getD_append_replicate_zero _ k j

theorem IsValid.length_widenedEntry (ht : t.IsValid) (k : Nat) {i : Nat} (hi : i < t.height) :
    (t.widenedEntry k i).2.1.length = t.width + k := by
  obtain ⟨row, hrow, hlen⟩ := ht.hasShape.exists_row hi
  rw [widenedEntry, List.length_append, List.length_replicate, List.getD_eq_getElem?_getD, hrow,
    Option.getD_some, hlen]

/-- The entries that are folded are the widened rows from the first to the last. -/
theorem IsWellFormed.zip_widened (ht : t.IsWellFormed) (k : Nat) :
    (t.basis.map t.names.idxOf).zip ((t.rows.map (· ++ List.replicate k 0)).zip t.rhs) =
      (List.range t.height).map (t.widenedEntry k) := by
  refine List.ext_getElem? fun i => ?_
  rw [List.zip, List.zip, List.getElem?_zipWith, List.getElem?_zipWith]
  rcases lt_or_ge i t.height with hi | hi
  · obtain ⟨row, hrow, -⟩ := ht.hasShape.exists_row hi
    have hvalue := List.getElem?_eq_getElem (ht.length_rhs.symm ▸ hi)
    rw [getD_map_idxOf ht.toIsValid hi, List.getElem?_map, hrow, hvalue, List.getElem?_map,
      List.getElem?_range hi, Option.map_some, Option.map_some, widenedEntry, rhsAt,
      List.getD_eq_getElem?_getD, List.getD_eq_getElem?_getD, hrow, hvalue, Option.getD_some,
      Option.getD_some]
  · have hbasis : (t.basis.map t.names.idxOf)[i]? = none :=
      List.getElem?_eq_none (by rwa [List.length_map, ht.length_basis])
    have hrange : (List.range t.height)[i]? = none :=
      List.getElem?_eq_none (by rwa [List.length_range])
    rw [hbasis, List.getElem?_map (l := List.range t.height), hrange]
    rfl

/-- A row and its right-hand side freed of the basic variables of a canonical tableau that has been
widened by zeros. -/
theorem IsCanonical.foldAll_eq (ht : t.IsCanonical) {k : Nat} {row : List ℚ}
    (hrow : row.length = t.width + k) (value : ℚ) :
    let folded := Snapshot.foldAll (t.basis.map t.names.idxOf)
      (t.rows.map (· ++ List.replicate k 0)) t.rhs row value
    (∀ j, folded.1.getD j 0 = row.getD j 0 -
        ∑ i ∈ Finset.range t.height, row.getD (t.basicColumn i) 0 * t.rows.entry i j) ∧
      folded.2 = value -
        ∑ i ∈ Finset.range t.height, row.getD (t.basicColumn i) 0 * t.rhsAt i := by
  have hlen : ∀ p ∈ (List.range t.height).map (t.widenedEntry k), p.2.1.length = row.length := by
    intro p hp
    obtain ⟨i, hi, rfl⟩ := List.mem_map.1 hp
    rw [ht.length_widenedEntry k (List.mem_range.1 hi), hrow]
  have hpairwise : ((List.range t.height).map (t.widenedEntry k)).Pairwise
      fun p q => p.2.1.getD q.1 0 = 0 := by
    rw [List.pairwise_map]
    refine List.pairwise_lt_range.imp_of_mem fun {i i'} hi hi' hlt => ?_
    rw [getD_widenedEntry, widenedEntry,
      ht.entry_basicColumn (List.mem_range.1 hi') (List.mem_range.1 hi), if_neg hlt.ne]
  obtain ⟨hentry, hvalue⟩ := Snapshot.foldl_fold_eq _ (row, value) hlen hpairwise
  intro folded
  have hfolded : folded = Snapshot.foldAll (t.basis.map t.names.idxOf)
      (t.rows.map (· ++ List.replicate k 0)) t.rhs row value := rfl
  rw [Snapshot.foldAll, ht.zip_widened] at hfolded
  rw [hfolded]
  refine ⟨fun j => ?_, ?_⟩
  · rw [hentry, List.map_map]
    simp only [Function.comp_def, getD_widenedEntry]
    rfl
  · rw [hvalue, List.map_map]
    rfl

end Tableau

/-! ### Rows below the others -/

namespace Tableau

section

variable {α : Type} [Zero α]

/-- The tableau with further rows below the others, each with a slack variable of its own. -/
def withRows (t : Tableau α) (rows : Rows α) (rhs costs : List α) : Tableau α where
  rows := t.rows.map (· ++ List.replicate rows.length 0) ++ rows
  rhs := t.rhs ++ rhs
  costs := t.costs ++ costs
  names := t.names ++ freshNames t.names rows.length
  basis := t.basis ++ freshNames t.names rows.length

variable {t : Tableau α} {rows : Rows α} {rhs costs : List α}

theorem rows_withRows : (t.withRows rows rhs costs).rows =
    t.rows.map (· ++ List.replicate rows.length 0) ++ rows := rfl

theorem rhs_withRows : (t.withRows rows rhs costs).rhs = t.rhs ++ rhs := rfl

theorem costs_withRows : (t.withRows rows rhs costs).costs = t.costs ++ costs := rfl

theorem names_withRows : (t.withRows rows rhs costs).names =
    t.names ++ freshNames t.names rows.length := rfl

theorem basis_withRows : (t.withRows rows rhs costs).basis =
    t.basis ++ freshNames t.names rows.length := rfl

theorem height_withRows : (t.withRows rows rhs costs).height = t.height + rows.length := by
  simp [withRows, height]

theorem width_withRows : (t.withRows rows rhs costs).width = t.width + rows.length := by
  simp [withRows, width]

theorem structural_withRows : (t.withRows rows rhs costs).structural = t.structural := by
  rw [structural, height_withRows, width_withRows, Nat.add_sub_add_right, structural]

theorem entry_withRows_old {i : Nat} (hi : i < t.height) (j : Nat) :
    (t.withRows rows rhs costs).rows.entry i j = t.rows.entry i j := by
  obtain ⟨row, hrow⟩ : ∃ row, t.rows[i]? = some row := ⟨_, List.getElem?_eq_getElem hi⟩
  have hlen : i < (t.rows.map (· ++ List.replicate rows.length (0 : α))).length := by
    rwa [List.length_map]
  have hwidened : (t.withRows rows rhs costs).rows[i]? =
      some (row ++ List.replicate rows.length 0) := by
    rw [rows_withRows, List.getElem?_append_left hlen, List.getElem?_map, hrow, Option.map_some]
  rw [Rows.entry_of_getElem? hwidened, Rows.entry_of_getElem? hrow, getD_append_replicate_zero]

theorem entry_withRows_new (r j : Nat) :
    (t.withRows rows rhs costs).rows.entry (t.height + r) j = rows.entry r j := by
  have hlen : (t.rows.map (· ++ List.replicate rows.length (0 : α))).length = t.height := by
    rw [List.length_map]
    rfl
  rw [Rows.entry, Rows.entry, rows_withRows, List.getD_append_right _ _ _ _ (by omega), hlen,
    Nat.add_sub_cancel_left]

variable (ht : t.IsValid) (hrows : ∀ row ∈ rows, row.length = t.width + rows.length)
  (hrhs : rhs.length = rows.length) (hcosts : costs.length = rows.length)

include ht hrows hrhs hcosts

theorem IsValid.withRows : (t.withRows rows rhs costs).IsValid where
  length_rhs := by
    rw [height_withRows, Tableau.withRows, List.length_append, ht.length_rhs, hrhs]
  length_basis := by
    rw [height_withRows, Tableau.withRows, List.length_append, ht.length_basis, length_freshNames]
  length_row := by
    rw [width_withRows]
    intro row hrow
    rcases List.mem_append.1 hrow with hold | hnew
    · obtain ⟨row', hrow', rfl⟩ := List.mem_map.1 hold
      rw [List.length_append, ht.length_row row' hrow', List.length_replicate]
    · exact hrows row hnew
  length_costs := by
    rw [width_withRows, Tableau.withRows, List.length_append, ht.length_costs, hcosts]
  height_le_width := by
    rw [height_withRows, width_withRows]
    exact Nat.add_le_add_right ht.height_le_width _
  nodup_names := nodup_append_freshNames ht.nodup_names _

omit ht in
theorem IsWellFormed.withRows (ht : t.IsWellFormed) : (t.withRows rows rhs costs).IsWellFormed where
  toIsValid := ht.toIsValid.withRows hrows hrhs hcosts
  basis_subset := by
    intro name hname
    rcases List.mem_append.1 hname with hold | hnew
    · exact List.mem_append_left _ (ht.basis_subset name hold)
    · exact List.mem_append_right _ hnew

omit ht in
/-- The basic columns of the old rows are as before, and the new slack variables are basic in their
rows. -/
theorem basicColumn_withRows (ht : t.IsWellFormed) :
    (∀ i < t.height, (t.withRows rows rhs costs).basicColumn i = t.basicColumn i) ∧
      ∀ r < rows.length, (t.withRows rows rhs costs).basicColumn (t.height + r) = t.width + r := by
  have hwf := ht.withRows hrows hrhs hcosts
  have hheight : (t.withRows rows rhs costs).height = t.height + rows.length := height_withRows
  have hwidth : (t.withRows rows rhs costs).width = t.width + rows.length := width_withRows
  refine ⟨fun i hi => ?_, fun r hr => ?_⟩
  · have hcolumn := ht.basicColumn_lt hi
    rw [hwf.basicColumn_eq_iff (by omega) (by omega), basis_withRows, names_withRows,
      List.getElem?_append_left (ht.length_basis ▸ hi), List.getElem?_append_left hcolumn,
      ht.names_basicColumn hi]
  · have hnames : t.names.length = t.width := rfl
    rw [hwf.basicColumn_eq_iff (by omega) (by omega), basis_withRows, names_withRows,
      List.getElem?_append_right (by rw [ht.length_basis]; omega),
      List.getElem?_append_right (by omega), ht.length_basis, hnames, Nat.add_sub_cancel_left,
      Nat.add_sub_cancel_left]

end

/-- Rows that are zero in the old slack columns and have a one of their own in the new ones keep the
slack columns the identity. -/
theorem IsValid.hasIdentity_withRows {α : Type} [Scalar α] [LawfulUnits α] {t : Tableau α}
    {rows : Rows α} {rhs costs : List α} (ht : t.IsValid)
    (hrows : ∀ row ∈ rows, row.length = t.width + rows.length) (hrhs : rhs.length = rows.length)
    (hcosts : costs.length = rows.length) (hid : t.rows.HasIdentityAt t.structural)
    (hslack : ∀ r < rows.length, ∀ l < t.height, (rows.entry r (t.structural + l) == 0) = true)
    (hunit : ∀ r < rows.length, ∀ q < rows.length,
      (rows.entry r (t.width + q) == if r = q then 1 else 0) = true) :
    (t.withRows rows rhs costs).rows.HasIdentityAt (t.withRows rows rhs costs).structural := by
  have hsum := ht.structural_add_height
  rw [(ht.withRows hrows hrhs hcosts).hasIdentity_iff_beq, height_withRows, structural_withRows]
  intro k hk l hl
  rcases lt_or_ge k t.height with hklt | hkge
  · rw [entry_withRows_old hklt]
    rcases lt_or_ge l t.height with hlt | hge
    · exact ht.hasIdentity_iff_beq.1 hid k hklt l hlt
    · rw [ht.hasShape.entry_of_width_le k (by omega), if_neg (by omega)]
      exact LawfulUnits.zero_beq_zero
  · obtain ⟨r, rfl⟩ := Nat.exists_eq_add_of_le hkge
    rw [entry_withRows_new]
    rcases lt_or_ge l t.height with hlt | hge
    · rw [if_neg (by omega)]
      exact hslack r (by omega) l hlt
    · obtain ⟨q, rfl⟩ := Nat.exists_eq_add_of_le hge
      rw [← Nat.add_assoc, hsum]
      simpa using hunit r (by omega) q (by omega)

section

variable {t : Tableau ℚ} {rows : Rows ℚ} {rhs costs : List ℚ}

theorem rhsAt_withRows_old (ht : t.IsValid) {i : Nat} (hi : i < t.height) :
    (t.withRows rows rhs costs).rhsAt i = t.rhsAt i := by
  rw [rhsAt, rhsAt, withRows, List.getD_append _ _ _ _ (ht.length_rhs ▸ hi)]

theorem rhsAt_withRows_new (ht : t.IsValid) (r : Nat) :
    (t.withRows rows rhs costs).rhsAt (t.height + r) = rhs.getD r 0 := by
  rw [rhsAt, withRows, List.getD_append_right _ _ _ _ (by rw [ht.length_rhs]; omega), ht.length_rhs,
    Nat.add_sub_cancel_left]

/-- A row of the tableau sums up over the widened tableau as before. -/
theorem IsValid.sum_entry_add (ht : t.IsValid) {i : Nat} (hi : i < t.height) (k : Nat) (y : ℕ → ℚ) :
    ∑ j ∈ Finset.range (t.width + k), t.rows.entry i j * y j =
      ∑ j ∈ Finset.range t.width, t.rows.entry i j * y j := by
  obtain ⟨row, hrow, hlen⟩ := ht.hasShape.exists_row hi
  rw [Finset.sum_range_add, add_eq_left]
  refine Finset.sum_eq_zero fun j _ => ?_
  rw [Rows.entry_of_getElem? hrow, List.getD_eq_default _ _ (by omega), zero_mul]

/-- A point satisfies the rows of both kinds. -/
theorem solves_withRows (ht : t.IsValid) {u : ℚ} {y : ℕ → ℚ} :
    (t.withRows rows rhs costs).Solves u y ↔ t.Solves u y ∧ ∀ r < rows.length,
      ∑ j ∈ Finset.range (t.width + rows.length), rows.entry r j * y j = u * rhs.getD r 0 := by
  have hold : ∀ i < t.height, (∑ j ∈ Finset.range (t.width + rows.length),
      (t.withRows rows rhs costs).rows.entry i j * y j = u * (t.withRows rows rhs costs).rhsAt i ↔
      ∑ j ∈ Finset.range t.width, t.rows.entry i j * y j = u * t.rhsAt i) := by
    intro i hi
    simp only [entry_withRows_old hi, rhsAt_withRows_old ht hi, ht.sum_entry_add hi]
  have hnew : ∀ r, (∑ j ∈ Finset.range (t.width + rows.length),
      (t.withRows rows rhs costs).rows.entry (t.height + r) j * y j =
        u * (t.withRows rows rhs costs).rhsAt (t.height + r) ↔
      ∑ j ∈ Finset.range (t.width + rows.length), rows.entry r j * y j = u * rhs.getD r 0) := by
    intro r
    simp only [entry_withRows_new, rhsAt_withRows_new ht]
  rw [Solves, height_withRows, width_withRows]
  constructor
  · intro h
    refine ⟨fun i hi => (hold i hi).1 (h i (by omega)), fun r hr => (hnew r).1 (h _ (by omega))⟩
  · rintro ⟨h, h'⟩ i hi
    rcases lt_or_ge i t.height with hlt | hge
    · exact (hold i hlt).2 (h i hlt)
    · obtain ⟨r, rfl⟩ := Nat.exists_eq_add_of_le hge
      exact (hnew r).2 (h' r (by omega))

variable (hrows : ∀ row ∈ rows, row.length = t.width + rows.length)
  (hrhs : rhs.length = rows.length) (hcosts : costs.length = rows.length)
  (hunit : ∀ r < rows.length, ∀ q < rows.length,
    rows.entry r (t.width + q) = if r = q then 1 else 0)

include hrows hrhs hcosts hunit

/-- Rows that are zero in the basic columns keep a tableau canonical. -/
theorem IsCanonical.withRows (ht : t.IsCanonical)
    (hbasic : ∀ r < rows.length, ∀ i < t.height, rows.entry r (t.basicColumn i) = 0) :
    (t.withRows rows rhs costs).IsCanonical := by
  have hwf := ht.toIsWellFormed.withRows hrows hrhs hcosts
  obtain ⟨hold, hnew⟩ := basicColumn_withRows hrows hrhs hcosts ht.toIsWellFormed
  refine ⟨hwf, fun i hi => ?_⟩
  rw [hwf.hasShape.hasUnitColumn (hwf.basicColumn_lt hi)]
  rw [height_withRows] at hi ⊢
  intro k hk
  rcases lt_or_ge i t.height with hlt | hge
  · rw [hold i hlt]
    rcases lt_or_ge k t.height with hklt | hkge
    · rw [entry_withRows_old hklt, ht.entry_basicColumn hlt hklt]
    · obtain ⟨r, rfl⟩ := Nat.exists_eq_add_of_le hkge
      rw [entry_withRows_new, hbasic r (by omega) i hlt, if_neg (by omega)]
  · obtain ⟨q, rfl⟩ := Nat.exists_eq_add_of_le hge
    rw [hnew q (by omega)]
    rcases lt_or_ge k t.height with hklt | hkge
    · obtain ⟨row, hrow, hlen⟩ := ht.hasShape.exists_row hklt
      rw [entry_withRows_old hklt, Rows.entry_of_getElem? hrow,
        List.getD_eq_default _ _ (by omega), if_neg (by omega)]
    · obtain ⟨r, rfl⟩ := Nat.exists_eq_add_of_le hkge
      rw [entry_withRows_new, hunit r (by omega) q (by omega)]
      simp

end

end Tableau

/-! ### The revision by new constraints -/

/-- The revised tableau has further rows below the others, of matching lengths. -/
structure Revision.Appends (revision : Revision ℚ) (t : Tableau ℚ) (rows : Rows ℚ)
    (rhs costs : List ℚ) : Prop where
  tableau_eq : revision.tableau = t.withRows rows rhs costs
  length_row : ∀ row ∈ rows, row.length = t.width + rows.length
  length_rhs : rhs.length = rows.length
  length_costs : costs.length = rows.length

namespace Snapshot

section

variable {α : Type} [Scalar α] {s : Snapshot α} {rows : Rows α} {rhs : List α}
  {costs : Option (List α)}

/-- The rows with which a new row is folded in a tableau that has been widened by zeros, each with
its basic column and its right-hand side. -/
def foldEntries (t : Tableau α) (k : Nat) : List (ℕ × List α × α) :=
  (t.basis.map t.names.idxOf).zip ((t.rows.map (· ++ List.replicate k 0)).zip t.rhs)

theorem exists_row_of_mem_foldEntries {t : Tableau α} {k : Nat} {p : ℕ × List α × α}
    (hp : p ∈ foldEntries t k) : ∃ row ∈ t.rows, row ++ List.replicate k 0 = p.2.1 :=
  List.mem_map.1 (List.of_mem_zip (List.of_mem_zip hp).2).1

theorem length_of_mem_foldEntries {t : Tableau α} (ht : t.IsValid) {k : Nat} {p : ℕ × List α × α}
    (hp : p ∈ foldEntries t k) : p.2.1.length = t.width + k := by
  obtain ⟨row, hrow, hwidened⟩ := exists_row_of_mem_foldEntries hp
  rw [← hwidened, List.length_append, ht.length_row row hrow, List.length_replicate]

/-- The new rows and their right-hand sides, freed of the basic variables. -/
def folded (s : Snapshot α) (rows : Rows α) (rhs : List α) : List (List α × α) :=
  List.zipWith (foldAll (s.tableau.basis.map s.tableau.names.idxOf)
    (s.tableau.rows.map (· ++ List.replicate rows.length 0)) s.tableau.rhs) rows rhs

theorem length_folded (hrhs : rows.length = rhs.length) :
    (s.folded rows rhs).length = rows.length := by
  rw [folded, List.length_zipWith, hrhs, min_self]

theorem length_map_folded {β : Type} (f : List α × α → β) (hrhs : rows.length = rhs.length) :
    ((s.folded rows rhs).map f).length = rows.length := by
  rw [List.length_map, length_folded hrhs]

theorem getElem?_folded {r : Nat} {row : List α} {value : α} (hrow : rows[r]? = some row)
    (hvalue : rhs[r]? = some value) :
    (s.folded rows rhs)[r]? = some (foldAll (s.tableau.basis.map s.tableau.names.idxOf)
      (s.tableau.rows.map (· ++ List.replicate rows.length 0)) s.tableau.rhs row value) := by
  rw [folded, List.getElem?_zipWith, hrow, hvalue]

/-- There is a slack cost for every new row, a zero where none was given. -/
theorem length_slackCosts {k : Nat} (hcosts : ∀ c ∈ costs, c.length = k) :
    (costs.getD (List.replicate k 0)).length = k := by
  cases costs with
  | none => exact List.length_replicate
  | some c => exact hcosts c rfl

theorem length_row_folded (hnew : ∀ row i, rows[i]? = some row → s.IsNewRow rows.length row i) :
    ∀ row ∈ (s.folded rows rhs).map (·.1), row.length = s.tableau.width + rows.length := by
  intro row hrow
  obtain ⟨p, hp, rfl⟩ := List.mem_map.1 hrow
  obtain ⟨i, hi, rfl⟩ := List.getElem_of_mem hp
  rw [folded, List.length_zipWith] at hi
  have hi : i < rows.length := hi.trans_le (min_le_left _ _)
  simp only [folded]
  rw [List.getElem_zipWith, length_foldAll]
  exact (hnew _ i (List.getElem?_eq_getElem hi)).length_eq

/-- The revised tableau has the folded rows below the others. -/
theorem tableau_constraintRevision (hrhs : rows.length = rhs.length) :
    (s.constraintRevision rows rhs costs).tableau =
      s.tableau.withRows ((s.folded rows rhs).map (·.1)) ((s.folded rows rhs).map (·.2))
        (costs.getD (List.replicate rows.length 0)) := by
  rw [Tableau.withRows, length_map_folded _ hrhs]
  rfl

/-- A revision by new constraints, in terms of the folded rows. -/
theorem constraintRevision_eq : s.constraintRevision rows rhs costs =
      { tableau := {
          rows := s.tableau.rows.map (· ++ List.replicate rows.length 0) ++
            (s.folded rows rhs).map (·.1)
          rhs := s.tableau.rhs ++ (s.folded rows rhs).map (·.2)
          costs := s.tableau.costs ++ costs.getD (List.replicate rows.length 0)
          names := s.tableau.names ++ freshNames s.tableau.names rows.length
          basis := s.tableau.basis ++ freshNames s.tableau.names rows.length }
        initialRows := s.initialRows.map (· ++ List.replicate rows.length 0) ++ rows } := rfl

/-- A new row is zero in the old slack columns and has its one in its own slack column. -/
theorem IsNewRow.getD_slack_beq (ht : s.tableau.IsValid) {row : List α} {k i : Nat}
    (h : s.IsNewRow k row i) :
    (∀ l < s.tableau.height, (row.getD (s.tableau.structural + l) 0 == 0) = true) ∧
      ∀ q < k, (row.getD (s.tableau.width + q) 0 == if q = i then 1 else 0) = true := by
  have hsum := ht.structural_add_height
  have hlen := h.length_eq
  refine ⟨fun l hl => ?_, fun q hq => ?_⟩
  · have hlt : s.tableau.structural + l < row.length := by omega
    rw [List.getD_eq_getElem _ _ hlt]
    refine h.slack_eq _ (List.mem_iff_getElem?.2 ⟨l, ?_⟩)
    rw [List.getElem?_drop, List.getElem?_take_of_lt (by omega), List.getElem?_eq_getElem hlt]
  · have hq' : q < (row.drop s.tableau.width).length := by
      rw [List.length_drop]
      omega
    have hunit := Rows.isUnit_iff.1 h.isUnit q hq'
    rwa [List.getD_eq_getElem?_getD, List.getElem?_drop, ← List.getD_eq_getElem?_getD] at hunit

/-- Conversely these entries make a new row. -/
theorem isNewRow_of_getD_beq (ht : s.tableau.IsValid) {row : List α} {k i : Nat}
    (hlen : row.length = s.tableau.width + k)
    (hslack : ∀ l < s.tableau.height, (row.getD (s.tableau.structural + l) 0 == 0) = true)
    (hunit : ∀ q < k, (row.getD (s.tableau.width + q) 0 == if q = i then 1 else 0) = true) :
    s.IsNewRow k row i where
  length_eq := hlen
  slack_eq := by
    intro v hv
    obtain ⟨l, hl⟩ := List.mem_iff_getElem?.1 hv
    have hsum := ht.structural_add_height
    have hlt := (List.getElem?_eq_some_iff.1 hl).1
    rw [List.length_drop, List.length_take] at hlt
    rw [List.getElem?_drop, List.getElem?_take_of_lt (by omega)] at hl
    have hzero := hslack l (by omega)
    rwa [List.getD_eq_getElem?_getD, hl] at hzero
  isUnit := by
    rw [Rows.isUnit_iff]
    intro q hq
    rw [List.length_drop] at hq
    rw [List.getD_eq_getElem?_getD, List.getElem?_drop, ← List.getD_eq_getElem?_getD]
    exact hunit q (by omega)

/-- The new rows have the entries of new rows. -/
theorem entry_newRows_beq (ht : s.tableau.IsValid)
    (hnew : ∀ row i, rows[i]? = some row → s.IsNewRow rows.length row i) :
    (∀ r < rows.length, ∀ l < s.tableau.height,
        (rows.entry r (s.tableau.structural + l) == 0) = true) ∧
      ∀ r < rows.length, ∀ q < rows.length,
        (rows.entry r (s.tableau.width + q) == if r = q then 1 else 0) = true := by
  have hrow : ∀ r < rows.length, ∃ row, rows[r]? = some row ∧ s.IsNewRow rows.length row r :=
    fun r hr => ⟨rows[r], List.getElem?_eq_getElem hr, hnew _ r (List.getElem?_eq_getElem hr)⟩
  refine ⟨fun r hr l hl => ?_, fun r hr q hq => ?_⟩
  · obtain ⟨row, hget, h⟩ := hrow r hr
    rw [Rows.entry_of_getElem? hget]
    exact (h.getD_slack_beq ht).1 l hl
  · obtain ⟨row, hget, h⟩ := hrow r hr
    rw [Rows.entry_of_getElem? hget]
    simpa only [eq_comm] using (h.getD_slack_beq ht).2 q hq

end

variable {s : Snapshot ℚ} {rows : Rows ℚ} {rhs : List ℚ} {costs : Option (List ℚ)}

/-- A revision by new constraints has the folded rows below the others. Without slack costs, or with
slack costs of zero, the new columns cost nothing. -/
theorem appends_constraintRevision (hrhs : rows.length = rhs.length)
    (hnew : ∀ row i, rows[i]? = some row → s.IsNewRow rows.length row i)
    (hcosts : ∀ c ∈ costs, c.length = rows.length) :
    ∃ slackCosts, (s.constraintRevision rows rhs costs).Appends s.tableau
        ((s.folded rows rhs).map (·.1)) ((s.folded rows rhs).map (·.2)) slackCosts ∧
      ((∀ c ∈ costs, ∀ v ∈ c, v = 0) → ∀ v ∈ slackCosts, v = 0) := by
  have hlen := length_map_folded (s := s) (·.1) hrhs
  refine ⟨_, ⟨tableau_constraintRevision hrhs, ?_, ?_, (length_slackCosts hcosts).trans hlen.symm⟩,
    fun hzero v hv => ?_⟩
  · rw [hlen]
    exact length_row_folded hnew
  · rw [List.length_map, List.length_map]
  · cases costs with
    | none => exact (List.mem_replicate.1 hv).2
    | some c => exact hzero c rfl v hv

section

variable (ht : s.tableau.IsCanonical) (hrhs : rows.length = rhs.length)
  (hnew : ∀ row i, rows[i]? = some row → s.IsNewRow rows.length row i)

include ht hnew

include hrhs

/-- The entries and the right-hand side of a folded row. -/
theorem folded_eq {r : Nat} (hr : r < rows.length) :
    (∀ j, Rows.entry ((s.folded rows rhs).map (·.1)) r j = rows.entry r j -
        ∑ i ∈ Finset.range s.tableau.height,
          rows.entry r (s.tableau.basicColumn i) * s.tableau.rows.entry i j) ∧
      ((s.folded rows rhs).map (·.2)).getD r 0 = rhs.getD r 0 -
        ∑ i ∈ Finset.range s.tableau.height,
          rows.entry r (s.tableau.basicColumn i) * s.tableau.rhsAt i := by
  obtain ⟨row, hrow⟩ : ∃ row, rows[r]? = some row := ⟨_, List.getElem?_eq_getElem hr⟩
  obtain ⟨value, hvalue⟩ : ∃ value, rhs[r]? = some value :=
    ⟨_, List.getElem?_eq_getElem (hrhs ▸ hr)⟩
  obtain ⟨hentry, hrhs'⟩ := ht.foldAll_eq (hnew row r hrow).length_eq value
  have hfolded := getElem?_folded (s := s) hrow hvalue
  simp only [Rows.entry_of_getElem? hrow]
  refine ⟨fun j => ?_, ?_⟩
  · rw [← hentry j]
    refine Rows.entry_of_getElem? ?_ j
    rw [List.getElem?_map, hfolded, Option.map_some]
  · rw [List.getD_eq_getElem?_getD, List.getElem?_map, hfolded, List.getD_eq_getElem?_getD, hvalue]
    exact hrhs'

/-- A canonical tableau stays canonical when constraints are added. -/
theorem isCanonical_constraintRevision (hcosts : ∀ c ∈ costs, c.length = rows.length) :
    (s.constraintRevision rows rhs costs).tableau.IsCanonical := by
  have hlen := length_map_folded (s := s) (·.1) hrhs
  obtain ⟨slackCosts, happends, -⟩ := appends_constraintRevision hrhs hnew hcosts
  rw [happends.tableau_eq]
  refine ht.withRows happends.length_row happends.length_rhs happends.length_costs ?_ ?_
  · intro r hr q hq
    rw [hlen] at hr hq
    -- outside of the tableau its rows are zero
    rw [(folded_eq ht hrhs hnew hr).1,
      beq_iff_eq.1 ((entry_newRows_beq ht.toIsValid hnew).2 r hr q hq),
      Finset.sum_eq_zero, sub_zero]
    intro i hi
    obtain ⟨row, hrow, hwidth⟩ := ht.hasShape.exists_row (Finset.mem_range.1 hi)
    rw [Rows.entry_of_getElem? hrow, List.getD_eq_default _ _ (by omega), mul_zero]
  · intro r hr i hi
    rw [hlen] at hr
    rw [(folded_eq ht hrhs hnew hr).1, Finset.sum_eq_single_of_mem i (Finset.mem_range.2 hi),
      ht.entry_basicColumn hi hi, if_pos rfl, mul_one, sub_self]
    intro k hk hki
    rw [ht.entry_basicColumn hi (Finset.mem_range.1 hk), if_neg hki, mul_zero]

/-- The points of the revised tableau are the points of the tableau that satisfy the new constraints
as they were stated. -/
theorem solves_constraintRevision {u : ℚ} {y : ℕ → ℚ} :
    (s.constraintRevision rows rhs costs).tableau.Solves u y ↔
      s.tableau.Solves u y ∧ ∀ r < rows.length,
        ∑ j ∈ Finset.range (s.tableau.width + rows.length), rows.entry r j * y j =
          u * rhs.getD r 0 := by
  have hlen := length_map_folded (s := s) (·.1) hrhs
  rw [tableau_constraintRevision hrhs, Tableau.solves_withRows ht.toIsValid, hlen]
  refine and_congr_right fun hsolves => forall₂_congr fun r hr => ?_
  obtain ⟨hentry, hvalue⟩ := folded_eq ht hrhs hnew hr
  have htaken : ∑ j ∈ Finset.range (s.tableau.width + rows.length),
      (∑ i ∈ Finset.range s.tableau.height,
        rows.entry r (s.tableau.basicColumn i) * s.tableau.rows.entry i j) * y j =
      u * ∑ i ∈ Finset.range s.tableau.height,
        rows.entry r (s.tableau.basicColumn i) * s.tableau.rhsAt i := by
    simp only [Finset.sum_mul, Finset.mul_sum]
    rw [Finset.sum_comm]
    refine Finset.sum_congr rfl fun i hi => ?_
    have hi := Finset.mem_range.1 hi
    have hrow := hsolves i hi
    rw [← ht.toIsValid.sum_entry_add hi rows.length] at hrow
    calc ∑ j ∈ Finset.range (s.tableau.width + rows.length),
          rows.entry r (s.tableau.basicColumn i) * s.tableau.rows.entry i j * y j
        = rows.entry r (s.tableau.basicColumn i) *
            ∑ j ∈ Finset.range (s.tableau.width + rows.length), s.tableau.rows.entry i j * y j := by
          rw [Finset.mul_sum]
          exact Finset.sum_congr rfl fun j _ => by ring
      _ = u * (rows.entry r (s.tableau.basicColumn i) * s.tableau.rhsAt i) := by
          rw [hrow]
          ring
  simp only [hentry, sub_mul, Finset.sum_sub_distrib]
  rw [hvalue, htaken, mul_sub, sub_left_inj]

end

end Snapshot

end LinProg
