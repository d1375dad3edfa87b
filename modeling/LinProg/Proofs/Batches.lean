import LinProg.Proofs.Closure
import LinProg.Proofs.Operations

/-!
# Constraints in one batch and one at a time

The constraints of one request are all folded with the rows that the tableau has before them, and
the tableau is widened once for the slack variables of all of them. Constraints that are added one
at a time are folded with the constraints before them as well, and the names, the basis and its
columns are read again each time. Both ways lead to the same tableau: a constraint has a zero in the
slack column of every other one, so nothing of the others is taken away from it, and the search for
fresh names does not depend on how often it is interrupted. On the doubles this needs that the
folded rows are finite, because a multiple of zero is a zero only if the multiplier is finite, and
zeros may differ in their signs.
-/

namespace LinProg

/-! ### Rows without their last columns -/

section

variable {α : Type} [Scalar α]

theorem Rows.take_eliminate {row pivotRow : List α} (hlen : pivotRow.length = row.length)
    (multiplier : α) (n : Nat) :
    (eliminate row pivotRow multiplier).take n =
      eliminate (row.take n) (pivotRow.take n) multiplier := by
  have hrest : (row.take n).drop (pivotRow.take n).length = [] :=
    List.drop_eq_nil_of_le (by simp [hlen])
  rw [eliminate, eliminate, hrest, List.drop_eq_nil_of_le hlen.ge, List.append_nil, List.append_nil,
    List.take_zipWith]

namespace Snapshot

/-- The columns behind a position have no influence on those before it, if the basic column is one
of these. -/
theorem fold_take {state : List α × α} {column n : Nat} (hcolumn : column < n) {row : List α}
    (hlen : row.length = state.1.length) (value : α) :
    fold (state.map (·.take n) id) column (row.take n) value =
      (fold state column row value).map (·.take n) id := by
  have hmultiplier : (state.1.take n).getD column 0 = state.1.getD column 0 := by
    rw [List.getD_eq_getElem?_getD, List.getElem?_take_of_lt hcolumn, ← List.getD_eq_getElem?_getD]
  simp only [fold, Prod.map_fst, Prod.map_snd, id, hmultiplier]
  split
  · rfl
  · rw [Prod.map_apply, Rows.take_eliminate hlen, id]

/-- Nothing is taken away from a row that has zeros in the basic columns. -/
theorem foldl_fold_of_zeros (entries : List (ℕ × List α × α)) (state : List α × α)
    (hzero : ∀ p ∈ entries, (state.1.getD p.1 0 == 0) = true) :
    entries.foldl (fun state (column, row, value) => fold state column row value) state =
      state := by
  induction entries with
  | nil => rfl
  | cons p entries ih =>
    obtain ⟨column, row, value⟩ := p
    obtain ⟨hcolumn, hzero⟩ := List.forall_mem_cons.1 hzero
    have hkept : fold state column row value = state := if_pos hcolumn
    rw [List.foldl_cons]
    dsimp only
    rw [hkept, ih hzero]

/-! ### Folding with constraints that have been added -/

/-- After constraints have been added, a new row is folded with the same rows as before, which now
end in the column of the new row, and then with rows whose basic columns are those of the added
constraints. -/
theorem foldEntries_withRows {t : Tableau α} (ht : t.IsWellFormed) (added : Rows α)
    (rhs costs : List α) {k : Nat} (hk : added.length < k) :
    ∃ new, foldEntries (t.withRows added rhs costs) 1 =
        (foldEntries t k).map
          (Prod.map id (Prod.map (·.take (t.width + added.length + 1)) id)) ++ new ∧
      ∀ p ∈ new, ∃ q < added.length, p.1 = t.width + q := by
  have hcolumns : t.basis.map (t.names ++ freshNames t.names added.length).idxOf =
      t.basis.map t.names.idxOf :=
    List.map_congr_left fun name hname => List.idxOf_append_of_mem (ht.basis_subset name hname)
  have hrows : (t.rows.map (· ++ List.replicate added.length (0 : α))).map
      (· ++ List.replicate 1 0) =
      (t.rows.map (· ++ List.replicate k (0 : α))).map (·.take (t.width + added.length + 1)) := by
    rw [List.map_map, List.map_map]
    refine List.map_congr_left fun row hrow => ?_
    have hlen := ht.length_row row hrow
    simp only [Function.comp_apply]
    rw [List.append_assoc, ← List.replicate_add, List.take_append,
      List.take_of_length_le (by omega), List.take_replicate]
    congr 2
    omega
  have hzip := zip_map_zip id (·.take (t.width + added.length + 1)) (t.basis.map t.names.idxOf)
    (t.rows.map (· ++ List.replicate k (0 : α))) t.rhs
  rw [List.map_id] at hzip
  refine ⟨((freshNames t.names added.length).map
    (t.names ++ freshNames t.names added.length).idxOf).zip
      ((added.map (· ++ List.replicate 1 0)).zip rhs), ?_, fun p hp => ?_⟩
  · rw [foldEntries, foldEntries, Tableau.names_withRows, Tableau.basis_withRows,
      Tableau.rows_withRows, Tableau.rhs_withRows, List.map_append, List.map_append,
      hcolumns, hrows, List.zip_append, List.zip_append, hzip]
    · simpa [ht.length_rhs, Tableau.height] using ht.length_basis
    · simp [ht.length_rhs, Tableau.height]
  · obtain ⟨name, hname, hcolumn⟩ := List.mem_map.1 (List.of_mem_zip hp).1
    have hfresh : name ∉ t.names := (List.nodup_append'.1
      (nodup_append_freshNames ht.nodup_names added.length)).2.2.symm hname
    refine ⟨(freshNames t.names added.length).idxOf name, ?_, ?_⟩
    · exact (List.idxOf_lt_length_of_mem hname).trans_eq (length_freshNames _ _)
    · rw [← hcolumn, List.idxOf_append_of_notMem hfresh]
      rfl

/-- A row that becomes zero in the slack columns of the added constraints is folded as if they were
not there. -/
theorem foldAll_withRows {t : Tableau α} (ht : t.IsWellFormed) (added : Rows α) (rhs costs : List α)
    {k : Nat} (hk : added.length < k) {row : List α} (hrow : row.length = t.width + k) (value : α)
    (hzero : ∀ q < added.length, ((foldAll (t.basis.map t.names.idxOf)
      (t.rows.map (· ++ List.replicate k 0)) t.rhs row value).1.getD (t.width + q) 0 == 0) = true) :
    foldAll ((t.withRows added rhs costs).basis.map (t.withRows added rhs costs).names.idxOf)
        ((t.withRows added rhs costs).rows.map (· ++ List.replicate 1 0))
        (t.withRows added rhs costs).rhs (row.take (t.width + added.length + 1)) value =
      (foldAll (t.basis.map t.names.idxOf) (t.rows.map (· ++ List.replicate k 0)) t.rhs row
        value).map (·.take (t.width + added.length + 1)) id := by
  obtain ⟨new, hentries, hnew⟩ := foldEntries_withRows ht added rhs costs hk
  have hold : ∀ p ∈ foldEntries t k, p.1 < t.width + added.length + 1 ∧
      p.2.1.length = row.length := by
    intro p hp
    obtain ⟨name, hname, hcolumn⟩ := List.mem_map.1 (List.of_mem_zip hp).1
    have hlt : t.names.idxOf name < t.width :=
      List.idxOf_lt_length_of_mem (ht.basis_subset name hname)
    exact ⟨by omega, (length_of_mem_foldEntries ht.toIsValid hp).trans hrow.symm⟩
  have hfold := foldl_fold_map (f := (·.take (t.width + added.length + 1))) (g := id)
    (foldEntries t k)
    (fun p hp state hstate => fold_take (hold p hp).1 ((hold p hp).2.trans hstate.symm) p.2.2)
    (row, value) rfl
  rw [Prod.map_apply, id] at hfold
  rw [foldAll, ← foldEntries, hentries, List.foldl_append, hfold]
  -- the multiples of the added constraints are zeros
  refine foldl_fold_of_zeros new _ fun p hp => ?_
  obtain ⟨q, hq, hcolumn⟩ := hnew p hp
  rw [hcolumn, Prod.map_fst, List.getD_eq_getElem?_getD, List.getElem?_take_of_lt (by omega),
    ← List.getD_eq_getElem?_getD]
  exact hzero q hq

end Snapshot

end

/-! ### Rows below one another -/

section

variable {α : Type} [Zero α]

/-- One more row is added to a tableau to which rows have been added. -/
theorem Tableau.withRows_concat (t : Tableau α) (added : Rows α) (rhs costs row : List α)
    (value cost : α) : (t.withRows added rhs costs).withRows [row] [value] [cost] =
      t.withRows (added.map (· ++ [0]) ++ [row]) (rhs ++ [value]) (costs ++ [cost]) := by
  have hnames : ∀ names : List String, names ++ freshNames t.names added.length ++
      freshNames (t.names ++ freshNames t.names added.length) 1 =
      names ++ freshNames t.names (added.length + 1) := by
    intro names
    rw [freshNames_succ t.names, List.append_assoc]
    rfl
  have hrows : (t.rows.map (· ++ List.replicate added.length (0 : α)) ++ added).map
      (· ++ List.replicate 1 0) ++ [row] =
      t.rows.map (· ++ List.replicate (added.length + 1) (0 : α)) ++
        (added.map (· ++ [0]) ++ [row]) := by
    simp [List.replicate_add]
  have hlen : (added.map (· ++ [0]) ++ [row]).length = added.length + 1 := by simp
  rw [withRows, withRows, withRows, hlen]
  simp only [Tableau.mk.injEq]
  exact ⟨hrows, List.append_assoc _ _ _, List.append_assoc _ _ _, hnames _, hnames _⟩

/-- Rows that are added below one another, each with a column of its own: a row ends in its column
and is followed by zeros in the columns of the later ones. -/
def staircase (width : Nat) (rows : Rows α) : Nat → Rows α
  | 0 => []
  | j + 1 => (staircase width rows j).map (· ++ [0]) ++ [(rows.getD j []).take (width + j + 1)]

@[simp] theorem length_staircase (width : Nat) (rows : Rows α) (j : Nat) :
    (staircase width rows j).length = j := by
  induction j with
  | zero => rfl
  | succ j ih => simp [staircase, ih]

theorem length_row_staircase {width k : Nat} {rows : Rows α} (hrows : rows.HasShape k (width + k))
    {j : Nat} (hj : j ≤ k) : ∀ row ∈ staircase width rows j, row.length = width + j := by
  induction j with
  | zero => simp [staircase]
  | succ j ih =>
    intro row hrow
    rcases List.mem_append.1 hrow with hold | hnew
    · obtain ⟨row', hrow', rfl⟩ := List.mem_map.1 hold
      rw [List.length_append, ih (by omega) row' hrow', List.length_singleton, Nat.add_assoc]
    · obtain ⟨row', hrow', hlen⟩ := hrows.exists_row hj
      rw [List.mem_singleton.1 hnew, List.getD_eq_getElem?_getD, hrow', Option.getD_some,
        List.length_take, hlen]
      omega

theorem getElem?_staircase (width : Nat) (rows : Rows α) {i j : Nat} (hi : i < j) :
    (staircase width rows j)[i]? =
      some ((rows.getD i []).take (width + i + 1) ++ List.replicate (j - i - 1) 0) := by
  induction j with
  | zero => exact absurd hi (Nat.not_lt_zero i)
  | succ j ih =>
    rw [staircase]
    rcases Nat.lt_succ_iff_lt_or_eq.1 hi with hlt | rfl
    · rw [List.getElem?_append_left (by simpa using hlt), List.getElem?_map, ih hlt,
        Option.map_some, List.append_assoc, ← List.replicate_one, ← List.replicate_add]
      congr 3
      omega
    · rw [List.getElem?_append_right (by simp)]
      simp

theorem entry_staircase (width : Nat) (rows : Rows α) {i j : Nat} (hi : i < j) (c : Nat) :
    (staircase width rows j).entry i c = if c < width + i + 1 then rows.entry i c else 0 := by
  rw [Rows.entry_of_getElem? (getElem?_staircase width rows hi), getD_append_replicate_zero,
    List.getD_eq_getElem?_getD, List.getElem?_take]
  split
  · rw [← List.getD_eq_getElem?_getD]
    rfl
  · rfl

theorem take_succ_getD {list : List α} {j : Nat} (hj : j < list.length) :
    list.take (j + 1) = list.take j ++ [list.getD j 0] := by
  rw [List.getD_eq_getElem _ _ hj, List.take_succ_eq_append_getElem hj]

end

/-! ### One constraint after another -/

section

variable {α : Type} [Scalar α]

namespace Request

/-- One of several new constraints on its own: its entries for the slack variables of later ones are
dropped. -/
def oneConstraint (width : Nat) (rows : Rows α) (rhs : List α) (costs : Option (List α)) (i : Nat) :
    Request α :=
  .newConstraints [(rows.getD i []).take (width + i + 1)] [rhs.getD i 0]
    (costs.map fun c => [c.getD i 0])

/-- Several new constraints for a tableau of the given width, one after another. -/
def oneAtATime (width : Nat) (rows : Rows α) (rhs : List α) (costs : Option (List α)) :
    List (Request α) :=
  (List.range rows.length).map (oneConstraint width rows rhs costs)

end Request

namespace Snapshot

variable {s s' : Snapshot α} {rows : Rows α} {rhs : List α} {costs : Option (List α)}

/-- The snapshot after the first `j` of several constraints have been added one after another. The
rows that stand in its tableau are those of the batch, without the columns of the constraints that
are still to come. -/
structure HasAdded (s s' : Snapshot α) (rows : Rows α) (rhs : List α) (costs : Option (List α))
    (j : Nat) : Prop extends s'.IsCaptured where
  tableau_eq : s'.tableau = s.tableau.withRows
    (staircase s.tableau.width ((s.folded rows rhs).map (·.1)) j)
    (((s.folded rows rhs).map (·.2)).take j) ((costs.getD (List.replicate rows.length 0)).take j)
  initialRows_eq : s'.initialRows =
    s.initialRows.map (· ++ List.replicate j 0) ++ staircase s.tableau.width rows j

section

variable (hs : s.IsCaptured) (ht : s.tableau.IsWellFormed) (hrhs : rows.length = rhs.length)
  (hcosts : ∀ c ∈ costs, c.length = rows.length)
  (hnew : ∀ row i, rows[i]? = some row → s.IsNewRow rows.length row i)
  (hzero : ∀ i < rows.length, ∀ q < rows.length, q ≠ i →
    (Rows.entry ((s.folded rows rhs).map (·.1)) i (s.tableau.width + q) == 0) = true)

include ht

theorem HasAdded.isWellFormed {j : Nat} (h : s.HasAdded s' rows rhs costs j) :
    s'.tableau.IsWellFormed where
  toIsValid := h.isValid
  basis_subset := by
    rw [h.tableau_eq]
    intro name hname
    rcases List.mem_append.1 hname with hold | hfresh
    · exact List.mem_append_left _ (ht.basis_subset name hold)
    · exact List.mem_append_right _ hfresh

include hnew

/-- The next constraint is a new row by itself. Its zeros in the slack columns of the constraints
before it are now zeros in old slack columns. -/
theorem HasAdded.isNewRow {j : Nat} (hj : j < rows.length) (h : s.HasAdded s' rows rhs costs j) :
    s'.IsNewRow 1 ((rows.getD j []).take (s.tableau.width + j + 1)) 0 := by
  have hrow : rows[j]? = some rows[j] := List.getElem?_eq_getElem hj
  obtain ⟨hslack, hunit⟩ := (hnew _ j hrow).getD_slack_beq ht.toIsValid
  have hlen := (hnew _ j hrow).length_eq
  have hheight : s'.tableau.height = s.tableau.height + j := by
    rw [h.tableau_eq, Tableau.height_withRows, length_staircase]
  have hwidth : s'.tableau.width = s.tableau.width + j := by
    rw [h.tableau_eq, Tableau.width_withRows, length_staircase]
  have hstructural : s'.tableau.structural = s.tableau.structural := by
    rw [h.tableau_eq, Tableau.structural_withRows]
  have hsum := ht.structural_add_height
  have htake : ∀ l < s.tableau.width + j + 1,
      ((rows.getD j []).take (s.tableau.width + j + 1)).getD l 0 = rows[j].getD l 0 := by
    intro l hl
    rw [List.getD_eq_getElem _ _ hj, List.getD_eq_getElem?_getD, List.getElem?_take_of_lt hl,
      ← List.getD_eq_getElem?_getD]
  refine isNewRow_of_getD_beq h.isValid ?_ ?_ ?_
  · rw [List.getD_eq_getElem _ _ hj, List.length_take, hlen, hwidth]
    omega
  · rw [hheight, hstructural]
    intro l hl
    rw [htake _ (by omega)]
    rcases lt_or_ge l s.tableau.height with hold | hadded
    · exact hslack l hold
    · obtain ⟨q, rfl⟩ := Nat.exists_eq_add_of_le hadded
      have hentry := hunit q (by omega)
      rwa [if_neg (by omega), ← hsum, Nat.add_assoc] at hentry
  · rw [hwidth]
    intro q hq
    rw [Nat.lt_one_iff.1 hq, htake _ (by omega)]
    simpa using hunit j hj

include hrhs hzero

/-- The next constraint is folded as it is in the batch. -/
theorem HasAdded.folded_eq {j : Nat} (hj : j < rows.length) (h : s.HasAdded s' rows rhs costs j) :
    s'.folded [(rows.getD j []).take (s.tableau.width + j + 1)] [rhs.getD j 0] =
      [((((s.folded rows rhs).map (·.1)).getD j []).take (s.tableau.width + j + 1),
        ((s.folded rows rhs).map (·.2)).getD j 0)] := by
  obtain ⟨row, hrow⟩ : ∃ row, rows[j]? = some row := ⟨_, List.getElem?_eq_getElem hj⟩
  obtain ⟨value, hvalue⟩ : ∃ value, rhs[j]? = some value :=
    ⟨_, List.getElem?_eq_getElem (hrhs ▸ hj)⟩
  have hfolded := getElem?_folded (s := s) hrow hvalue
  have hfold := foldAll_withRows ht
    (staircase s.tableau.width ((s.folded rows rhs).map (·.1)) j)
    (((s.folded rows rhs).map (·.2)).take j) ((costs.getD (List.replicate rows.length 0)).take j)
    (by rwa [length_staircase]) (hnew row j hrow).length_eq value fun q hq => by
      rw [length_staircase] at hq
      have hentry := hzero j hj q (by omega) (by omega)
      rwa [Rows.entry_of_getElem? (by rw [List.getElem?_map, hfolded, Option.map_some])] at hentry
  rw [length_staircase, ← h.tableau_eq] at hfold
  simp only [List.getD_eq_getElem?_getD, List.getElem?_map, hrow, hvalue, hfolded, Option.map_some,
    Option.getD_some]
  exact congrArg (· :: []) hfold

include hcosts

variable [LawfulUnits α]

theorem HasAdded.exists_next {j : Nat} (hj : j < rows.length) (h : s.HasAdded s' rows rhs costs j) :
    ∃ s'', s'.applyAll [Request.oneConstraint s.tableau.width rows rhs costs j] = .ok s'' ∧
      s.HasAdded s'' rows rhs costs (j + 1) := by
  have hnew' := h.isNewRow ht hnew hj
  have hlen : j < ((s.folded rows rhs).map (·.2)).length := by
    rwa [length_map_folded _ hrhs]
  have hcost : (costs.map fun c => [c.getD j 0]).getD (List.replicate 1 0) =
      [(costs.getD (List.replicate rows.length 0)).getD j 0] := by
    cases costs with
    | none => simp
    | some c => rfl
  have hcostsLen : j < (costs.getD (List.replicate rows.length 0)).length := by
    rwa [length_slackCosts hcosts]
  have happly : s'.apply (Request.oneConstraint s.tableau.width rows rhs costs j) =
      .ok (s'.constraintRevision [(rows.getD j []).take (s.tableau.width + j + 1)] [rhs.getD j 0]
        (costs.map fun c => [c.getD j 0])) := by
    refine (addConstraints_eq_ok (h.isWellFormed ht)).2 ⟨rfl, ?_, ?_, rfl⟩
    · cases costs with
      | none => simp
      | some c => simp
    · intro row i hi
      obtain ⟨rfl, rfl⟩ : i = 0 ∧ row = (rows.getD j []).take (s.tableau.width + j + 1) := by
        cases i with
        | zero => simpa [eq_comm] using hi
        | succ i => simp at hi
      exact hnew'
  obtain ⟨s'', hcapture⟩ := (extends_apply h.toIsCaptured happly).exists_capture_eq_ok
  obtain ⟨htableau, hinitial, hcaptured⟩ := capture_eq_ok.1 hcapture
  refine ⟨s'', ?_, hcaptured, ?_, ?_⟩
  · rw [applyAll, happly, Outcome.ok_bind, hcapture]
    rfl
  · rw [htableau, tableau_constraintRevision rfl, h.folded_eq ht hrhs hnew hzero hj, h.tableau_eq,
      List.length_singleton, hcost, take_succ_getD hlen, take_succ_getD hcostsLen]
    exact Tableau.withRows_concat _ _ _ _ _ _ _
  · rw [hinitial, constraintRevision, h.initialRows_eq]
    simp [staircase, List.replicate_add]

include hs

/-- The first constraints of a batch can be added one after another. -/
theorem exists_hasAdded {j : Nat} (hj : j ≤ rows.length) :
    ∃ s', s.applyAll ((List.range j).map (Request.oneConstraint s.tableau.width rows rhs costs)) =
        .ok s' ∧ s.HasAdded s' rows rhs costs j := by
  induction j with
  | zero =>
    exact ⟨s, rfl, hs, by simp [staircase, Tableau.withRows, freshNames], by simp [staircase]⟩
  | succ j ih =>
    obtain ⟨s', hchain, hadded⟩ := ih (Nat.le_of_succ_le hj)
    obtain ⟨s'', hnext, hadded'⟩ := hadded.exists_next ht hrhs hcosts hnew hzero hj
    refine ⟨s'', ?_, hadded'⟩
    rw [List.range_succ, List.map_append, applyAll_append, hchain]
    exact hnext

end

end Snapshot

end

/-! ### Zeros of the doubles -/

/-- The doubles are the same, or both are zeros. -/
def Double.SameUpToZero (v w : Float) : Prop := v = w ∨ (v == 0) = true ∧ (w == 0) = true

namespace Snapshot

/-- An entry from which multiples of zeros are taken away, with a finite result, does not change. -/
theorem fold_beq_of_isFinite {state : List Float × Float} {row : List Float} {j : Nat}
    (hlen : row.length = state.1.length) (hj : j < state.1.length)
    (hzero : (row.getD j 0 == 0) = true) (column : Nat) (value : Float)
    (hfinite : ((fold state column row value).1.getD j 0).isFinite = true) (x : Float) :
    ((fold state column row value).1.getD j 0 == x) = (state.1.getD j 0 == x) := by
  unfold fold at hfinite ⊢
  dsimp only at hfinite ⊢
  split at hfinite
  · next hskip => rw [if_pos hskip]
  · next hskip =>
    rw [if_neg hskip]
    dsimp only at hfinite ⊢
    rw [Rows.getD_eliminate_of_lt hlen _ hj] at hfinite ⊢
    -- the multiplier is finite, since its multiple of a zero is
    have hmultiplier := Double.isFinite_of_mul_zero hzero (Double.isFinite_of_sub hfinite)
    exact Double.sub_beq_of_zero (Double.mul_beq_zero hmultiplier hzero)

theorem foldl_fold_beq_of_isFinite {j : Nat} (entries : List (ℕ × List Float × Float))
    (state : List Float × Float) (hj : j < state.1.length)
    (hentries : ∀ p ∈ entries, p.2.1.length = state.1.length ∧ (p.2.1.getD j 0 == 0) = true)
    (hfinite : ((entries.foldl (fun state (column, row, value) => fold state column row value)
      state).1.getD j 0).isFinite = true) (x : Float) :
    ((entries.foldl (fun state (column, row, value) => fold state column row value)
      state).1.getD j 0 == x) = (state.1.getD j 0 == x) := by
  induction entries generalizing state x with
  | nil => rfl
  | cons p entries ih =>
    obtain ⟨column, row, value⟩ := p
    obtain ⟨⟨hlen, hzero⟩, hentries⟩ := List.forall_mem_cons.1 hentries
    have hnext : ∀ q ∈ entries, q.2.1.length = (fold state column row value).1.length ∧
        (q.2.1.getD j 0 == 0) = true := by
      simpa only [length_fold] using hentries
    have hkept := ih (fold state column row value) (by rwa [length_fold]) hnext hfinite
    -- the entry after this row equals the last one, so it is finite as well
    have hfinite' : ((fold state column row value).1.getD j 0).isFinite = true :=
      Double.isFinite_of_beq ((hkept _).symm.trans (Double.beq_self hfinite)) hfinite
    exact (hkept x).trans (fold_beq_of_isFinite hlen hj hzero column value hfinite' x)

end Snapshot

/-- Rows with zeros in the columns of the rows below them may be added without these entries. -/
theorem Tableau.forall₂_withRows_staircase {t : Tableau Float} {rows : Rows Float} {k : Nat}
    (hrows : rows.HasShape k (t.width + k))
    (hzero : ∀ i < k, ∀ q < k, q ≠ i → (rows.entry i (t.width + q) == 0) = true)
    (rhs rhs' costs costs' : List Float) :
    List.Forall₂ (List.Forall₂ Double.SameUpToZero)
      (t.withRows (staircase t.width rows k) rhs costs).rows
        (t.withRows rows rhs' costs').rows := by
  have hstaircase : (staircase t.width rows k).HasShape k (t.width + k) :=
    ⟨length_staircase _ _ _, length_row_staircase hrows le_rfl⟩
  rw [rows_withRows, rows_withRows, length_staircase, hrows.length_eq]
  refine List.rel_append ?_ (hstaircase.forall₂ hrows fun i hi c hc => ?_)
  · exact List.forall₂_same.2 fun row _ => List.forall₂_same.2 fun v _ => .inl rfl
  · rw [entry_staircase _ _ hi]
    split
    · exact .inl rfl
    · obtain ⟨q, rfl⟩ := Nat.exists_eq_add_of_le (show t.width ≤ c by omega)
      exact .inr ⟨rfl, hzero i hi q (by omega) (by omega)⟩

/-! ### The batch -/

/-- The snapshot has the tableau and the initial coefficients of a revision, except that entries of
the rows may be zeros of different signs. -/
structure Snapshot.AgreesWith (s : Snapshot Float) (r : Revision Float) : Prop where
  rows : List.Forall₂ (List.Forall₂ Double.SameUpToZero) s.tableau.rows r.tableau.rows
  rhs_eq : s.tableau.rhs = r.tableau.rhs
  costs_eq : s.tableau.costs = r.tableau.costs
  names_eq : s.tableau.names = r.tableau.names
  basis_eq : s.tableau.basis = r.tableau.basis
  initialRows : List.Forall₂ (List.Forall₂ Double.SameUpToZero) s.initialRows r.initialRows

namespace Snapshot

section

variable {s s' : Snapshot Float} {rows : Rows Float} {rhs : List Float}
  {costs : Option (List Float)} (hs : s.tableau.IsValid) (hrhs : rows.length = rhs.length)
  (hnew : ∀ row i, rows[i]? = some row → s.IsNewRow rows.length row i)

include hs hrhs hnew

/-- If the folded rows are finite, then they are zero in the slack columns of each other. -/
theorem entry_folded_beq_zero
    (hfinite : ∀ row ∈ (s.folded rows rhs).map (·.1), ∀ v ∈ row, v.isFinite = true) :
    ∀ i < rows.length, ∀ q < rows.length, q ≠ i →
      (Rows.entry ((s.folded rows rhs).map (·.1)) i (s.tableau.width + q) == 0) = true := by
  intro i hi q hq hqi
  obtain ⟨row, hrow⟩ : ∃ row, rows[i]? = some row := ⟨_, List.getElem?_eq_getElem hi⟩
  obtain ⟨value, hvalue⟩ : ∃ value, rhs[i]? = some value :=
    ⟨_, List.getElem?_eq_getElem (hrhs ▸ hi)⟩
  have hlen := (hnew row i hrow).length_eq
  have hfolded : ((s.folded rows rhs).map (·.1))[i]? =
      some (foldAll (s.tableau.basis.map s.tableau.names.idxOf)
        (s.tableau.rows.map (· ++ List.replicate rows.length 0)) s.tableau.rhs row value).1 := by
    rw [List.getElem?_map, getElem?_folded hrow hvalue, Option.map_some]
  have hshape : Rows.HasShape ((s.folded rows rhs).map (·.1)) rows.length
      (s.tableau.width + rows.length) :=
    ⟨length_map_folded _ hrhs, length_row_folded hnew⟩
  obtain ⟨row', hrow', hentry⟩ := hshape.entry_mem hi (Nat.add_lt_add_left hq _)
  have hfinite := hfinite row' hrow' _ hentry
  rw [Rows.entry_of_getElem? hfolded] at hfinite ⊢
  have hlt : s.tableau.width + q < row.length := by omega
  refine (foldl_fold_beq_of_isFinite _ (row, value) hlt (fun p hp => ?_) hfinite 0).trans ?_
  · -- the rows of the tableau have been widened by zeros
    obtain ⟨old, hold, hwidened⟩ := exists_row_of_mem_foldEntries hp
    have hwidth := hs.length_row old hold
    rw [← hwidened, List.length_append, List.length_replicate, hwidth, hlen,
      getD_append_replicate_zero, List.getD_eq_default _ _ (by omega)]
    exact ⟨rfl, rfl⟩
  · simpa [hqi] using ((hnew row i hrow).getD_slack_beq hs).2 q hq

/-- After all constraints have been added the snapshot agrees with the revision by the batch. -/
theorem HasAdded.agreesWith (hcosts : ∀ c ∈ costs, c.length = rows.length)
    (hzero : ∀ i < rows.length, ∀ q < rows.length, q ≠ i →
      (Rows.entry ((s.folded rows rhs).map (·.1)) i (s.tableau.width + q) == 0) = true)
    (h : s.HasAdded s' rows rhs costs rows.length) :
    s'.AgreesWith (s.constraintRevision rows rhs costs) := by
  have hlen := length_map_folded (s := s) (·.1) hrhs
  have hlen' := length_map_folded (s := s) (·.2) hrhs
  have hcostsLen := length_slackCosts hcosts
  have htableau := h.tableau_eq
  rw [List.take_of_length_le hlen'.le, List.take_of_length_le hcostsLen.le] at htableau
  refine ⟨?_, ?_, ?_, ?_, ?_, ?_⟩
  · rw [htableau, tableau_constraintRevision hrhs]
    exact Tableau.forall₂_withRows_staircase ⟨hlen, length_row_folded hnew⟩ hzero _ _ _ _
  · rw [htableau, tableau_constraintRevision hrhs]
    rfl
  · rw [htableau, tableau_constraintRevision hrhs]
    rfl
  · rw [htableau, tableau_constraintRevision hrhs, Tableau.names_withRows, Tableau.names_withRows,
      length_staircase, hlen]
  · rw [htableau, tableau_constraintRevision hrhs, Tableau.basis_withRows, Tableau.basis_withRows,
      length_staircase, hlen]
  · have hraw : ∀ i < rows.length, ∀ q < rows.length, q ≠ i →
        (rows.entry i (s.tableau.width + q) == 0) = true := by
      intro i hi q hq hqi
      simpa [Ne.symm hqi] using (entry_newRows_beq hs hnew).2 i hi q hq
    have hagree := Tableau.forall₂_withRows_staircase (t := s.unpivoted)
      ⟨rfl, length_of_isNewRow hnew⟩ hraw [] [] [] []
    rw [Tableau.rows_withRows, Tableau.rows_withRows, length_staircase] at hagree
    rw [h.initialRows_eq]
    exact hagree

end

/-- Two products that share two resources, at the vertex where both resources are used up. -/
def twoUsedUp : Tableau Float where
  rows := [[1, 0, 2, -1], [0, 1, -1, 1]]
  rhs := [2, 1]
  costs := [3, 2, 0, 0]
  names := ["x", "y", "s1", "s2"]
  basis := ["x", "y"]

/-- Constraints that are added in one batch, with finite coefficients as the result, can be added
one at a time: each is accepted without its entries for the slack variables of the later ones, and
the last revision is that of the batch, with the same names and the same basis. Zeros may differ in
their signs, all other numbers are the same. -/
theorem applyAll_oneAtATime {t : Tableau Float} {initialRows rows : Rows Float} {rhs : List Float}
    {costs : Option (List Float)} {s : Snapshot Float} {revision : Revision Float}
    (hcapture : capture t initialRows = .ok s)
    (h : s.apply (.newConstraints rows rhs costs) = .ok revision)
    (hfinite : ∀ row ∈ revision.tableau.rows.drop t.height, ∀ v ∈ row, v.isFinite = true) :
    ∃ s', s.applyAll (Request.oneAtATime t.width rows rhs costs) = .ok s' ∧
      s'.AgreesWith revision := by
  obtain ⟨rfl, -, hs⟩ := capture_eq_ok.1 hcapture
  have ht := isWellFormed_of_addConstraints hs.isValid h
  obtain ⟨hrhs, hcosts, hnew, rfl⟩ := (addConstraints_eq_ok ht).1 h
  have hfolded : (s.constraintRevision rows rhs costs).tableau.rows.drop s.tableau.height =
      (s.folded rows rhs).map (·.1) := by
    rw [tableau_constraintRevision hrhs, Tableau.rows_withRows]
    exact List.drop_left' (List.length_map _)
  rw [hfolded] at hfinite
  have hzero := entry_folded_beq_zero hs.isValid hrhs hnew hfinite
  obtain ⟨s', hchain, hadded⟩ := exists_hasAdded hs ht hrhs hcosts hnew hzero le_rfl
  exact ⟨s', hchain, hadded.agreesWith hs.isValid hrhs hnew hcosts hzero⟩

/-- Two constraints whose entries in the slack column of the other one are negative zeros. -/
theorem applyAll_oneAtATime_twoUsedUp :
    ∃ s revision s',
      twoUsedUp.IsCanonical ∧
      capture twoUsedUp [[1, 1, 1, 0], [1, 2, 0, 1]] = .ok s ∧
      s.apply (.newConstraints [[1, 2, 0, 0, 1, -0], [2, 1, 0, -0, -0, 1]] [5, 7] (some [0, 1])) =
        .ok revision ∧
      (∀ row ∈ revision.tableau.rows.drop twoUsedUp.height, ∀ v ∈ row, v.isFinite = true) ∧
      revision.tableau.names = ["x", "y", "s1", "s2", "s3", "s4"] ∧
      s.applyAll
        (Request.oneAtATime twoUsedUp.width [[1, 2, 0, 0, 1, -0], [2, 1, 0, -0, -0, 1]] [5, 7]
          (some [0, 1])) = .ok s' ∧
      s'.AgreesWith revision := by
  have hrun : (do
      let s ← capture twoUsedUp [[1, 1, 1, 0], [1, 2, 0, 1]]
      let revision ← s.apply
        (.newConstraints [[1, 2, 0, 0, 1, -0], [2, 1, 0, -0, -0, 1]] [5, 7] (some [0, 1]))
      pure (decide (∀ row ∈ revision.tableau.rows.drop twoUsedUp.height, ∀ v ∈ row,
        v.isFinite = true), revision.tableau.names)) =
      (.ok (true, ["x", "y", "s1", "s2", "s3", "s4"]) : Outcome (Bool × List String)) := by
    decide +kernel
  obtain ⟨s, hcapture, hrun⟩ := Outcome.bind_eq_ok.1 hrun
  obtain ⟨revision, happly, hrun⟩ := Outcome.bind_eq_ok.1 hrun
  obtain ⟨hfinite, hnames⟩ := Prod.mk.inj (Except.ok.inj hrun)
  have hfinite := of_decide_eq_true hfinite
  obtain ⟨s', hchain, hagrees⟩ := applyAll_oneAtATime hcapture happly hfinite
  exact ⟨s, revision, s', by decide +kernel, hcapture, happly, hfinite, hnames, hchain, hagrees⟩

end Snapshot

end LinProg
