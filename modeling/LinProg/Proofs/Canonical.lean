import LinProg.Proofs.Entries
import LinProg.Proofs.Units
import LinProg.Tableau

/-!
# Canonical tableaux

A valid tableau has parts of matching lengths and distinct names. It is well-formed if the basic
variables are among its variables, and canonical if the column of each basic variable is the unit
column of its row. The first two are what the checks before a run accept.
-/

namespace LinProg

/-! ### Names -/

/-- No name occurs twice exactly if none occurs before its own position. -/
theorem nodup_iff_not_mem_take {names : List String} :
    names.Nodup ↔ ∀ name j, names[j]? = some name → name ∉ names.take j := by
  rw [List.nodup_iff_getElem?_ne_getElem?]
  constructor
  · intro h name j hname hmem
    obtain ⟨i, hi, heq⟩ := List.mem_take_iff_getElem.1 hmem
    have hj := (List.getElem?_eq_some_iff.1 hname).1
    refine h i j (by omega) hj ?_
    rw [hname, List.getElem?_eq_getElem (by omega), heq]
  · intro h i j hij hj heq
    obtain ⟨hi, heq⟩ := List.getElem?_eq_some_iff.1 (heq.trans (List.getElem?_eq_getElem hj))
    exact h _ j (List.getElem?_eq_getElem hj) (List.mem_take_iff_getElem.2 ⟨i, by omega, heq⟩)

/-- A list of names has no first duplicate exactly if no name occurs twice in it. -/
theorem firstDuplicate_eq_none {names : List String} :
    firstDuplicate names = none ↔ names.Nodup := by
  rw [firstDuplicate, Option.map_eq_none_iff, List.find?_eq_none, nodup_iff_not_mem_take]
  constructor
  · intro h name j hname
    simpa using h (name, j) (List.mem_zipIdx_iff_getElem?.2 hname)
  · rintro h ⟨name, j⟩ hname
    simpa using h name j (List.mem_zipIdx_iff_getElem?.1 hname)

theorem idxOf?_of_mem {names : List String} {name : String} (h : name ∈ names) :
    names.idxOf? name = some (names.idxOf name) := by
  obtain ⟨j, hj⟩ := Option.isSome_iff_exists.1 (List.isSome_idxOf?.2 h)
  rw [List.idxOf_eq_getD_idxOf?, hj, Option.getD_some]

/-- The basic variables are located if they are among the names, each at its first occurrence. -/
theorem locateBasis_eq_ok {names basis : List String} {columns : List Nat} :
    locateBasis names basis = .ok columns ↔
      (∀ name ∈ basis, name ∈ names) ∧ columns = basis.map names.idxOf := by
  refine Outcome.mapM_eq_ok_map fun name j => ?_
  by_cases h : name ∈ names
  · simp [idxOf?_of_mem h, h, eq_comm]
  · simp [List.idxOf?_eq_none_iff.2 h, h]

namespace Tableau

variable {α : Type}

/-! ### Valid and well-formed tableaux -/

/-- The lengths of the parts agree, there are at least as many columns as rows, and no name occurs
twice. -/
structure IsValid (t : Tableau α) : Prop where
  length_rhs : t.rhs.length = t.height
  length_basis : t.basis.length = t.height
  length_row : ∀ row ∈ t.rows, row.length = t.width
  length_costs : t.costs.length = t.width
  height_le_width : t.height ≤ t.width
  nodup_names : t.names.Nodup

/-- A valid tableau whose basic variables are among its variables. -/
structure IsWellFormed (t : Tableau α) : Prop extends t.IsValid where
  basis_subset : ∀ name ∈ t.basis, name ∈ t.names

/-- Validation accepts exactly the valid tableaux. -/
theorem validate_eq_ok {t : Tableau α} : t.validate = .ok () ↔ t.IsValid := by
  unfold validate
  simp only [Outcome.bind_unit_eq_ok, Dimension.check_eq_ok, Rows.checkWidths_eq_ok]
  constructor
  · rintro ⟨hrhs, hbasis, hrow, hcosts, h⟩
    split at h
    · simp [Outcome.bind_unit_eq_ok] at h
    · next hw =>
      split at h
      · cases h
      · next hnone =>
        exact ⟨hrhs.symm, hbasis.symm, hrow, hcosts.symm, not_lt.1 hw,
          firstDuplicate_eq_none.1 hnone⟩
  · rintro ⟨hrhs, hbasis, hrow, hcosts, hw, hnodup⟩
    refine ⟨hrhs.symm, hbasis.symm, hrow, hcosts.symm, ?_⟩
    rw [if_neg (not_lt.2 hw), firstDuplicate_eq_none.2 hnodup]

theorem basicColumns_eq_ok {t : Tableau α} {columns : List Nat} :
    t.basicColumns = .ok columns ↔
      (∀ name ∈ t.basis, name ∈ t.names) ∧ columns = t.basis.map t.names.idxOf :=
  locateBasis_eq_ok

theorem IsValid.hasShape {t : Tableau α} (ht : t.IsValid) : t.rows.HasShape t.height t.width :=
  ⟨rfl, ht.length_row⟩

/-- A valid tableau stays valid with other rows of the same shape. -/
theorem IsValid.replaceRows {t : Tableau α} (ht : t.IsValid) {rows : Rows α}
    (hrows : rows.HasShape t.height t.width) : IsValid { t with rows } where
  length_rhs := ht.length_rhs.trans hrows.length_eq.symm
  length_basis := ht.length_basis.trans hrows.length_eq.symm
  length_row := hrows.length_row
  length_costs := ht.length_costs
  height_le_width := hrows.length_eq.trans_le ht.height_le_width
  nodup_names := ht.nodup_names

/-- A valid tableau stays valid with as many other costs. -/
theorem IsValid.replaceCosts {t : Tableau α} (ht : t.IsValid) {costs : List α}
    (hcosts : costs.length = t.width) : IsValid { t with costs } where
  length_rhs := ht.length_rhs
  length_basis := ht.length_basis
  length_row := ht.length_row
  length_costs := hcosts
  height_le_width := ht.height_le_width
  nodup_names := ht.nodup_names

/-- A valid tableau stays valid with as many other right-hand sides. -/
theorem IsValid.replaceRhs {t : Tableau α} (ht : t.IsValid) {rhs : List α}
    (hrhs : rhs.length = t.height) : IsValid { t with rhs } where
  length_rhs := hrhs
  length_basis := ht.length_basis
  length_row := ht.length_row
  length_costs := ht.length_costs
  height_le_width := ht.height_le_width
  nodup_names := ht.nodup_names

theorem IsValid.structural_add_height {t : Tableau α} (ht : t.IsValid) :
    t.structural + t.height = t.width :=
  Nat.sub_add_cancel ht.height_le_width

/-- The column of the basic variable of a row. -/
def basicColumn (t : Tableau α) (i : Nat) : Nat := t.names.idxOf (t.basis.getD i "")

theorem getD_map_idxOf {t : Tableau α} (ht : t.IsValid) {i : Nat} (hi : i < t.height) :
    (t.basis.map t.names.idxOf)[i]? = some (t.basicColumn i) := by
  have hi' : i < t.basis.length := ht.length_basis ▸ hi
  rw [List.getElem?_map, List.getElem?_eq_getElem hi', basicColumn, List.getD_eq_getElem _ _ hi']
  rfl

section

variable {t : Tableau α} (ht : t.IsWellFormed)

include ht

theorem IsWellFormed.basicColumns_eq : t.basicColumns = .ok (t.basis.map t.names.idxOf) :=
  basicColumns_eq_ok.2 ⟨ht.basis_subset, rfl⟩

/-- The basic variable of a row is the variable of its column. -/
theorem IsWellFormed.names_basicColumn {i : Nat} (hi : i < t.height) :
    t.names[t.basicColumn i]? = t.basis[i]? := by
  have hi' : i < t.basis.length := ht.length_basis ▸ hi
  have hmem : t.basis[i] ∈ t.names := ht.basis_subset _ (List.getElem_mem hi')
  rw [basicColumn, List.getD_eq_getElem _ _ hi', List.getElem?_eq_getElem hi',
    List.getElem?_eq_getElem (List.idxOf_lt_length_of_mem hmem), List.getElem_idxOf]

theorem IsWellFormed.basicColumn_lt {i : Nat} (hi : i < t.height) : t.basicColumn i < t.width := by
  have hi' : i < t.basis.length := ht.length_basis ▸ hi
  have h := ht.names_basicColumn hi
  rw [List.getElem?_eq_getElem hi'] at h
  exact (List.getElem?_eq_some_iff.1 h).1

/-- A column belongs to the basic variable of a row exactly if it has its name. -/
theorem IsWellFormed.basicColumn_eq_iff {i j : Nat} (hi : i < t.height) (hj : j < t.width) :
    t.basicColumn i = j ↔ t.basis[i]? = t.names[j]? := by
  rw [← ht.names_basicColumn hi]
  constructor
  · rintro rfl
    rfl
  · intro h
    have hi' := ht.basicColumn_lt hi
    rw [List.getElem?_eq_getElem hi', List.getElem?_eq_getElem hj, Option.some_inj] at h
    exact ht.nodup_names.getElem_inj_iff.1 h

end

end Tableau

/-! ### Unit columns -/

namespace Rows

variable {α : Type} [Arithmetic α]

/-- The column exists and is the unit column of the given row. -/
def HasUnitColumn (m : Rows α) (j k : Nat) : Prop :=
  ∃ column, m.column j = .ok column ∧ isUnit k column = true

instance (m : Rows α) (j k : Nat) : Decidable (m.HasUnitColumn j k) :=
  match h : m.column j with
  | .ok column => decidable_of_iff (isUnit k column = true) (by simp [HasUnitColumn, h])
  | .error _ => isFalse (by simp [HasUnitColumn, h])

/-- The columns of a matrix from the given one on, as many as it has rows, form the identity. -/
def HasIdentityAt (m : Rows α) (n : Nat) : Prop := ∀ k < m.length, m.HasUnitColumn (n + k) k

instance (m : Rows α) (n : Nat) : Decidable (m.HasIdentityAt n) :=
  inferInstanceAs (Decidable (∀ k < m.length, m.HasUnitColumn (n + k) k))

end Rows

/-- The entries of a unit column. -/
theorem Rows.HasShape.hasUnitColumn_iff_beq {α : Type} [Arithmetic α] {m : Rows α} {h w j k : Nat}
    (hm : m.HasShape h w) (hj : j < w) :
    m.HasUnitColumn j k ↔ ∀ i < h, (m.entry i j == if i = k then 1 else 0) = true := by
  rw [Rows.HasUnitColumn, hm.column_eq_ok hj]
  simp only [Except.ok.injEq, exists_eq_left', Rows.isUnit_iff, List.length_map, hm.length_eq,
    Rows.getD_map_getD]

/-- The entries of a unit column, in exact arithmetic. -/
theorem Rows.HasShape.hasUnitColumn {m : Rows ℚ} {h w j k : Nat} (hm : m.HasShape h w)
    (hj : j < w) :
    m.HasUnitColumn j k ↔ ∀ i < h, m.entry i j = if i = k then 1 else 0 := by
  simp only [hm.hasUnitColumn_iff_beq hj, beq_iff_eq]

/-! ### Canonical tableaux -/

namespace Tableau

section

variable {α : Type} [Arithmetic α]

/-- A well-formed tableau in which the column of each basic variable is the unit column of its
row. -/
structure IsCanonical (t : Tableau α) : Prop extends t.IsWellFormed where
  unit_basicColumn : ∀ i < t.height, t.rows.HasUnitColumn (t.basicColumn i) i

theorem isCanonical_iff {t : Tableau α} :
    t.IsCanonical ↔ (t.rhs.length = t.height ∧ t.basis.length = t.height ∧
      (∀ row ∈ t.rows, row.length = t.width) ∧ t.costs.length = t.width ∧ t.height ≤ t.width ∧
      t.names.Nodup) ∧ (∀ name ∈ t.basis, name ∈ t.names) ∧
      ∀ i < t.height, t.rows.HasUnitColumn (t.basicColumn i) i :=
  ⟨fun ⟨⟨⟨h₁, h₂, h₃, h₄, h₅, h₆⟩, h⟩, hunit⟩ => ⟨⟨h₁, h₂, h₃, h₄, h₅, h₆⟩, h, hunit⟩,
    fun ⟨⟨h₁, h₂, h₃, h₄, h₅, h₆⟩, h, hunit⟩ => ⟨⟨⟨h₁, h₂, h₃, h₄, h₅, h₆⟩, h⟩, hunit⟩⟩

instance (t : Tableau α) : Decidable t.IsCanonical := decidable_of_iff _ isCanonical_iff.symm

/-- The slack columns of a valid tableau form the identity if their entries are those of the
identity. -/
theorem IsValid.hasIdentity_iff_beq {t : Tableau α} (ht : t.IsValid) :
    t.rows.HasIdentityAt t.structural ↔ ∀ i < t.height, ∀ l < t.height,
      (t.rows.entry i (t.structural + l) == if i = l then 1 else 0) = true := by
  have hsum := ht.structural_add_height
  have hcolumn : ∀ l < t.height, t.rows.HasUnitColumn (t.structural + l) l ↔
      ∀ i < t.height, (t.rows.entry i (t.structural + l) == if i = l then 1 else 0) = true :=
    fun l hl => ht.hasShape.hasUnitColumn_iff_beq (by omega)
  constructor
  · intro h i hi l hl
    exact (hcolumn l hl).1 (h l hl) i hi
  · intro h l hl
    exact (hcolumn l hl).2 fun i hi => h i hi l hl

theorem IsCanonical.entry_basicColumn_beq {t : Tableau α} (ht : t.IsCanonical) {i k : Nat}
    (hi : i < t.height) (hk : k < t.height) :
    (t.rows.entry k (t.basicColumn i) == if k = i then 1 else 0) = true :=
  (ht.hasShape.hasUnitColumn_iff_beq (ht.basicColumn_lt hi)).1 (ht.unit_basicColumn i hi) k hk

end

section

variable {α : Type} [Scalar α] {t : Tableau α} (ht : t.IsCanonical)

include ht

/-- In its own row the column of a basic variable has a one. -/
theorem IsCanonical.one_basicColumn {i : Nat} (hi : i < t.height) :
    (t.rows.entry i (t.basicColumn i) == 1) = true := by
  simpa using ht.entry_basicColumn_beq hi hi

/-- In the other rows the column of a basic variable has zeros. -/
theorem IsCanonical.zero_basicColumn {i k : Nat} (hi : i < t.height) (hk : k < t.height)
    (hki : k ≠ i) :
    (t.rows.entry k (t.basicColumn i) == 0) = true := by
  simpa [hki] using ht.entry_basicColumn_beq hi hk

variable [LawfulUnits α]

/-- The basic variables of different rows have different columns. -/
theorem IsCanonical.basicColumn_inj {i k : Nat} (hi : i < t.height) (hk : k < t.height)
    (h : t.basicColumn i = t.basicColumn k) : i = k := by
  by_contra hik
  have hone := LawfulUnits.beq_zero_of_one (ht.one_basicColumn hi)
  rw [h, ht.zero_basicColumn hk hi hik] at hone
  cases hone

/-- No variable is basic in two rows. -/
theorem IsCanonical.nodup_basis : t.basis.Nodup := by
  rw [List.nodup_iff_getElem?_ne_getElem?]
  intro i k hik hk heq
  rw [ht.length_basis] at hk
  have hcolumn := (ht.basicColumn_eq_iff (hik.trans hk) (ht.basicColumn_lt hk)).2
    (heq.trans (ht.names_basicColumn hk).symm)
  exact hik.ne (ht.basicColumn_inj (hik.trans hk) hk hcolumn)

end

theorem IsCanonical.entry_basicColumn {t : Tableau ℚ} (ht : t.IsCanonical) {i k : Nat}
    (hi : i < t.height) (hk : k < t.height) :
    t.rows.entry k (t.basicColumn i) = if k = i then 1 else 0 :=
  beq_iff_eq.1 (ht.entry_basicColumn_beq hi hk)

end Tableau

end LinProg
