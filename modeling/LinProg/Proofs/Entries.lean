import Mathlib.Algebra.BigOperators.Field
import Mathlib.Algebra.BigOperators.Ring.Finset
import Mathlib.Algebra.Order.BigOperators.Ring.Finset
import Mathlib.Data.List.GetD
import Mathlib.Data.Rat.Floor
import Mathlib.Tactic.Linarith
import Mathlib.Tactic.Ring
import LinProg.Proofs.Outcome
import LinProg.Arithmetic.Exact
import LinProg.Rows

/-!
# Entries of matrices

A matrix is read through its entries, which are zero outside of it. Each operation on rows is
described by the entries of its result: a column, a transpose and the last columns for any
arithmetic, and sums of products for the rational numbers.
-/

namespace LinProg

namespace Rows

/-- The entry in a row and a column, zero outside the matrix. -/
def entry {α : Type} [Zero α] (m : Rows α) (i j : Nat) : α := (m.getD i []).getD j 0

/-- The matrix has the given number of rows, each with the given number of entries. -/
structure HasShape {β : Type} (m : Rows β) (height width : Nat) : Prop where
  length_eq : m.length = height
  length_row : ∀ row ∈ m, row.length = width

section

variable {β : Type}

theorem HasShape.exists_row {m : Rows β} {h w i : Nat} (hm : m.HasShape h w) (hi : i < h) :
    ∃ row, m[i]? = some row ∧ row.length = w := by
  have hi' : i < m.length := hm.length_eq ▸ hi
  exact ⟨m[i], List.getElem?_eq_getElem hi', hm.length_row _ (List.getElem_mem hi')⟩

theorem HasShape.map {m : Rows β} {h w w' : Nat} (hm : m.HasShape h w) {f : List β → List β}
    (hf : ∀ row ∈ m, (f row).length = w') : HasShape (m.map f) h w' where
  length_eq := by rw [List.length_map, hm.length_eq]
  length_row := by
    intro row' hrow'
    obtain ⟨row, hrow, rfl⟩ := List.mem_map.1 hrow'
    exact hf row hrow

theorem checkWidths_eq_ok {m : Rows β} {what : Dimension} {w : Nat} :
    m.checkWidths what w = .ok () ↔ ∀ row ∈ m, row.length = w := by
  rw [checkWidths, Outcome.forM_eq_ok]
  exact forall₂_congr fun row _ => Dimension.check_eq_ok.trans eq_comm

/-- A matrix with rows is as wide as its first row. -/
theorem HasShape.width_eq {m : Rows β} {h w : Nat} (hm : m.HasShape h w) (hh : 0 < h) :
    m.width = w := by
  cases m with
  | nil => exact absurd hm.length_eq hh.ne
  | cons row m => simpa [width] using hm.length_row row List.mem_cons_self

end

section

variable {α : Type} [Zero α]

theorem entry_of_getElem? {m : Rows α} {row : List α} {i : Nat} (h : m[i]? = some row) (j : Nat) :
    m.entry i j = row.getD j 0 := by
  simp [entry, h]

theorem HasShape.entry_of_width_le {m : Rows α} {h w : Nat} (hm : m.HasShape h w)
    (i : Nat) {j : Nat} (hj : w ≤ j) : m.entry i j = 0 := by
  rcases lt_or_ge i h with hi | hi
  · obtain ⟨row, hrow, hlen⟩ := hm.exists_row hi
    rw [entry_of_getElem? hrow, List.getD_eq_default _ _ (hlen.trans_le hj)]
  · have hrow : m.getD i [] = [] := List.getD_eq_default _ _ (hm.length_eq.trans_le hi)
    rw [entry, hrow, List.getD_nil]

theorem HasShape.entry_mem {m : Rows α} {h w i j : Nat} (hm : m.HasShape h w) (hi : i < h)
    (hj : j < w) : ∃ row ∈ m, m.entry i j ∈ row := by
  obtain ⟨row, hrow, hlen⟩ := hm.exists_row hi
  refine ⟨row, List.mem_of_getElem? hrow, ?_⟩
  rw [entry_of_getElem? hrow, List.getD_eq_getElem _ _ (hlen.symm ▸ hj)]
  exact List.getElem_mem _

/-- Two matrices of one shape with the same entries are the same. -/
theorem HasShape.ext {m m' : Rows α} {h w : Nat} (hm : m.HasShape h w) (hm' : m'.HasShape h w)
    (he : ∀ i < h, ∀ j < w, m.entry i j = m'.entry i j) : m = m' := by
  refine List.ext_getElem? fun i => ?_
  rcases lt_or_ge i h with hi | hi
  · obtain ⟨row, hrow, hlen⟩ := hm.exists_row hi
    obtain ⟨row', hrow', hlen'⟩ := hm'.exists_row hi
    rw [hrow, hrow', Option.some_inj]
    refine List.ext_getElem (hlen.trans hlen'.symm) fun j hj hj' => ?_
    have := he i hi j (hlen ▸ hj)
    rw [entry_of_getElem? hrow, entry_of_getElem? hrow'] at this
    rwa [List.getD_eq_getElem _ _ hj, List.getD_eq_getElem _ _ hj'] at this
  · rw [List.getElem?_eq_none (hm.length_eq.trans_le hi),
      List.getElem?_eq_none (hm'.length_eq.trans_le hi)]

/-- Two matrices of one shape agree row by row if they do entry by entry. -/
theorem HasShape.forall₂ {R : α → α → Prop} {m m' : Rows α} {h w : Nat} (hm : m.HasShape h w)
    (hm' : m'.HasShape h w) (he : ∀ i < h, ∀ j < w, R (m.entry i j) (m'.entry i j)) :
    List.Forall₂ (List.Forall₂ R) m m' := by
  refine List.forall₂_iff_get.2 ⟨hm.length_eq.trans hm'.length_eq.symm, fun i hi hi' => ?_⟩
  have hlen : m[i].length = w := hm.length_row _ (List.getElem_mem hi)
  have hlen' : m'[i].length = w := hm'.length_row _ (List.getElem_mem hi')
  refine List.forall₂_iff_get.2 ⟨hlen.trans hlen'.symm, fun j hj hj' => ?_⟩
  have hentry := he i (hm.length_eq ▸ hi) j (hlen ▸ hj)
  rwa [entry_of_getElem? (List.getElem?_eq_getElem hi),
    entry_of_getElem? (List.getElem?_eq_getElem hi'), List.getD_eq_getElem m[i] 0 hj,
    List.getD_eq_getElem m'[i] 0 hj'] at hentry

/-- A column of a matrix exists if no row is too short, and holds the entries of the column. -/
theorem column_eq_ok {m : Rows α} {j : Nat} {c : List α} :
    m.column j = .ok c ↔ (∀ row ∈ m, j < row.length) ∧ c = m.map (·.getD j 0) := by
  rw [column, Outcome.inRange_eq_ok]
  induction m generalizing c with
  | nil => simp [eq_comm]
  | cons row m ih =>
    rw [List.mapM_cons, Option.bind_eq_bind, Option.bind_eq_some_iff]
    constructor
    · rintro ⟨v, hv, h⟩
      obtain ⟨c', hc', h⟩ := Option.bind_eq_some_iff.1 h
      obtain ⟨hj, rfl⟩ := List.getElem?_eq_some_iff.1 hv
      obtain ⟨hm, rfl⟩ := ih.1 hc'
      cases h
      refine ⟨List.forall_mem_cons.2 ⟨hj, hm⟩, ?_⟩
      rw [List.map_cons, List.getD_eq_getElem _ _ hj]
    · rintro ⟨h, rfl⟩
      obtain ⟨hj, hm⟩ := List.forall_mem_cons.1 h
      refine ⟨row[j], List.getElem?_eq_getElem hj, ?_⟩
      rw [Option.bind_eq_bind, Option.bind_eq_some_iff]
      refine ⟨m.map (·.getD j 0), ih.2 ⟨hm, rfl⟩, ?_⟩
      rw [List.map_cons, List.getD_eq_getElem _ _ hj]
      rfl

theorem getD_map_getD (m : Rows α) (i j : Nat) :
    (m.map (·.getD j 0)).getD i 0 = m.entry i j := by
  cases h : m[i]? with
  | none => simp [entry, h]
  | some row => simp [entry, h]

theorem HasShape.column_eq_ok {m : Rows α} {h w j : Nat} (hm : m.HasShape h w) (hj : j < w) :
    m.column j = .ok (m.map (·.getD j 0)) := by
  rw [Rows.column_eq_ok]
  exact ⟨fun row hrow => hm.length_row row hrow ▸ hj, rfl⟩

/-- The transpose exchanges the two positions of every entry. -/
theorem HasShape.transpose {m m' : Rows α} {h w : Nat} (hm : m.HasShape h w) (hh : 0 < h)
    (hm' : m.transpose = .ok m') :
    m'.HasShape w h ∧ ∀ i < h, ∀ j < w, m'.entry j i = m.entry i j := by
  rw [Rows.transpose, hm.width_eq hh,
    Outcome.mapM_eq_ok_map (P := fun j => ∀ row ∈ m, j < row.length) fun _ _ => Rows.column_eq_ok]
    at hm'
  obtain ⟨-, rfl⟩ := hm'
  refine ⟨⟨by simp, ?_⟩, ?_⟩
  · intro row hrow
    obtain ⟨j, _, rfl⟩ := List.mem_map.1 hrow
    rw [List.length_map, hm.length_eq]
  · intro i _ j hj
    have hcolumn : ((List.range w).map fun j => m.map (·.getD j 0))[j]? =
        some (m.map (·.getD j 0)) := by
      simp [hj]
    rw [entry_of_getElem? hcolumn, getD_map_getD]

end

section

variable {α : Type} [Arithmetic α]

/-- A matrix is multiplied with a vector that has an entry for each column. -/
theorem apply_eq_ok {m : Rows α} {v r : List α} :
    m.apply v = .ok r ↔ (∀ row ∈ m, row.length = v.length) ∧ r = m.map (dot · v) := by
  rw [Rows.apply, Outcome.mapM_eq_ok_map (P := fun row => row.length = v.length)]
  intro row c
  rw [Outcome.bind_unit_eq_ok, Dimension.check_eq_ok, Outcome.pure_eq, Except.ok.injEq,
    @eq_comm _ c]

/-- Two matrices are multiplied if the rows of the second have one length, and the rows of the first
have an entry for each of them. -/
theorem mul_eq_ok {left right p : Rows α} :
    left.mul right = .ok p ↔ (∀ row ∈ right, row.length = right.width) ∧
      (∀ row ∈ left, row.length = right.length) ∧
      p = left.map fun row => combine right.width row right := by
  rw [Rows.mul, Outcome.bind_unit_eq_ok, checkWidths_eq_ok,
    Outcome.mapM_eq_ok_map (P := fun row => row.length = right.length)
      (g := fun row => combine right.width row right)]
  intro row c
  rw [Outcome.bind_unit_eq_ok, Dimension.check_eq_ok, Outcome.pure_eq, Except.ok.injEq,
    @eq_comm _ c]

/-- A row vector times a matrix has the width of the matrix. -/
theorem HasShape.length_combine {m : Rows α} {h w : Nat} (hm : m.HasShape h w) (row : List α) :
    (combine w row m).length = w := by
  have hterms : ∀ t ∈ row.zip m, t.2.length = w := fun t ht =>
    hm.length_row _ (List.of_mem_zip ht).2
  have hzero : (List.replicate w (0 : α)).length = w := List.length_replicate
  unfold Rows.combine
  generalize List.replicate w (0 : α) = sum at hzero ⊢
  generalize row.zip m = terms at hterms
  induction terms generalizing sum with
  | nil => exact hzero
  | cons t terms ih =>
    obtain ⟨ht, hterms⟩ := List.forall_mem_cons.1 hterms
    have hnext : (List.zipWith (fun s o => s + t.1 * o) sum t.2).length = w := by
      rw [List.length_zipWith, hzero, ht, min_self]
    exact ih _ hnext hterms

/-- Adding multiples of rows of one length to a row of that length adds up the multiples of the
entries at each position. -/
theorem getD_foldl_zipWith {w : Nat} (terms : List (α × List α))
    (hterms : ∀ t ∈ terms, t.2.length = w) (sum : List α) (hsum : sum.length = w) {j : Nat}
    (hj : j < w) :
    (terms.foldl (fun sum (entry, other) => List.zipWith (fun s o => s + entry * o) sum other)
      sum).getD j 0 = terms.foldl (fun s t => s + t.1 * t.2.getD j 0) (sum.getD j 0) := by
  induction terms generalizing sum with
  | nil => rfl
  | cons t terms ih =>
    obtain ⟨ht, hterms⟩ := List.forall_mem_cons.1 hterms
    have hnext : (List.zipWith (fun s o => s + t.1 * o) sum t.2).length = w := by
      rw [List.length_zipWith, hsum, ht, min_self]
    rw [List.foldl_cons, ih hterms _ hnext, List.foldl_cons]
    congr 1
    rw [List.getD_eq_getElem _ _ (hnext ▸ hj), List.getD_eq_getElem _ _ (hsum ▸ hj),
      List.getD_eq_getElem _ _ (ht ▸ hj), List.getElem_zipWith]

/-- Each entry of a row vector times a matrix is a sum from the left, along a column of the
matrix. -/
theorem HasShape.getD_combine_eq_foldl {m : Rows α} {h w : Nat} (hm : m.HasShape h w) (row : List α)
    {j : Nat} (hj : j < w) :
    (combine w row m).getD j 0 = (row.zip m).foldl (fun s t => s + t.1 * t.2.getD j 0) 0 := by
  have hterms : ∀ t ∈ row.zip m, t.2.length = w := fun t ht =>
    hm.length_row _ (List.of_mem_zip ht).2
  rw [combine, getD_foldl_zipWith _ hterms _ List.length_replicate hj, List.getD_replicate _ hj]

/-- The sum along a column, row by row. -/
theorem HasShape.getD_combine_eq_foldl_range {m : Rows α} {h w : Nat} (hm : m.HasShape h w)
    {row : List α} (hrow : row.length = h) {j : Nat} (hj : j < w) :
    (combine w row m).getD j 0 =
      (List.range h).foldl (fun s k => s + row.getD k 0 * m.entry k j) 0 := by
  have hterms : row.zip m = (List.range h).map fun k => (row.getD k 0, m.getD k []) := by
    refine List.ext_getElem ?_ fun k hk _ => ?_
    · rw [List.length_zip, hrow, hm.length_eq, min_self, List.length_map, List.length_range]
    · rw [List.length_zip, lt_min_iff] at hk
      rw [List.getElem_zip, List.getElem_map, List.getElem_range, List.getD_eq_getElem _ _ hk.1,
        List.getD_eq_getElem _ _ hk.2]
  rw [hm.getD_combine_eq_foldl row hj, hterms, List.foldl_map]
  rfl

/-- Elimination takes the multiple of the pivot row away at every position of the row. -/
theorem getD_eliminate_of_lt {row pivotRow : List α} (h : pivotRow.length = row.length)
    (multiplier : α) {j : Nat} (hj : j < row.length) :
    (eliminate row pivotRow multiplier).getD j 0 =
      row.getD j 0 - multiplier * pivotRow.getD j 0 := by
  rw [List.getD_eq_getElem _ _ (by rwa [length_eliminate]), List.getD_eq_getElem _ _ hj,
    List.getD_eq_getElem _ _ (h ▸ hj)]
  simp only [eliminate]
  rw [List.getElem_append_left (by rwa [List.length_zipWith, h, min_self]), List.getElem_zipWith]

/-- A list is a unit list if each entry equals the entry of the unit list at its position. -/
theorem isUnit_iff {k : Nat} {entries : List α} :
    isUnit k entries = true ↔
      ∀ j < entries.length, (entries.getD j 0 == if j = k then 1 else 0) = true := by
  rw [isUnit, List.all_eq_true]
  constructor
  · intro h j hj
    rw [List.getD_eq_getElem _ _ hj]
    exact h (entries[j], j) (List.mem_zipIdx_iff_getElem?.2 (List.getElem?_eq_getElem hj))
  · rintro h ⟨v, j⟩ hv
    have hv : entries[j]? = some v := List.mem_zipIdx_iff_getElem?.1 hv
    have hj := (List.getElem?_eq_some_iff.1 hv).1
    have hentry := h j hj
    rwa [List.getD_eq_getElem?_getD, hv] at hentry

theorem getD_unit {n k j : Nat} (hj : j < n) :
    (unit (α := α) n k).getD j 0 = if j = k then 1 else 0 := by
  rw [List.getD_eq_getElem _ _ (by rwa [length_unit])]
  simp [unit]

/-- The last columns exist if there are as many as rows, and no row is too short. -/
theorem HasShape.basisInverse_eq_ok {m : Rows α} {h w : Nat} (hm : m.HasShape h w) (hw : h ≤ w) :
    ∃ v, m.basisInverse = .ok v ∧ v.HasShape h h ∧
      ∀ i < h, ∀ k < h, v.entry i k = m.entry i (w - h + k) := by
  refine ⟨m.map fun row => (row.drop (w - h)).take h, ?_, ?_, ?_⟩
  · rcases Nat.eq_zero_or_pos h with rfl | hh
    · rw [List.eq_nil_of_length_eq_zero hm.length_eq]
      rfl
    · rw [basisInverse, hm.width_eq hh, hm.length_eq, if_neg (by omega),
        Outcome.mapM_eq_ok_map (P := fun row => w ≤ row.length)
          (g := fun row => (row.drop (w - h)).take h)]
      · exact ⟨fun row hrow => (hm.length_row row hrow).ge, rfl⟩
      · intro row c
        rw [Outcome.bind_unit_eq_ok, Outcome.within_eq_ok, decide_eq_true_iff, Outcome.pure_eq,
          Except.ok.injEq, @eq_comm _ c]
  · refine hm.map fun row hrow => ?_
    rw [List.length_take, List.length_drop, hm.length_row row hrow]
    omega
  · intro i hi k hk
    obtain ⟨row, hrow, hlen⟩ := hm.exists_row hi
    have hlast : (m.map fun row => (row.drop (w - h)).take h)[i]? =
        some ((row.drop (w - h)).take h) := by
      rw [List.getElem?_map, hrow]
      rfl
    rw [entry_of_getElem? hrow, entry_of_getElem? hlast, List.getD_eq_getElem?_getD,
      List.getElem?_take_of_lt hk, List.getElem?_drop, List.getD_eq_getElem?_getD]

end

/-! ### Exact sums -/

theorem dot_eq_sum_zipWith (row v : List ℚ) : dot row v = (List.zipWith (· * ·) row v).sum := by
  rw [dot, List.sum_eq_foldl]
  rfl

/-- The product of a row and a vector is a sum over all positions of the row. -/
theorem dot_eq_sum (row v : List ℚ) {n : Nat} (hn : row.length ≤ n) :
    dot row v = ∑ j ∈ Finset.range n, row.getD j 0 * v.getD j 0 := by
  rw [dot_eq_sum_zipWith]
  induction row generalizing v n with
  | nil => simp
  | cons a row ih =>
    obtain ⟨n, rfl⟩ : ∃ k, n = k + 1 := ⟨n - 1, by simp at hn; omega⟩
    rw [Finset.sum_range_succ']
    cases v with
    | nil => simp
    | cons b v =>
      rw [List.zipWith_cons_cons, List.sum_cons, ih v (by simpa using hn), add_comm]
      simp

/-- Each entry of a row vector times a matrix is the product of the row vector and a column. -/
theorem HasShape.getD_combine {m : Rows ℚ} {h w : Nat} (hm : m.HasShape h w)
    (row : List ℚ) {j : Nat} (hj : j < w) :
    (combine w row m).getD j 0 =
      ∑ k ∈ Finset.range row.length, row.getD k 0 * m.entry k j := by
  have hcolumn : ((row.zip m).map fun t => t.1 * t.2.getD j 0).sum =
      dot row (m.map (·.getD j 0)) := by
    rw [dot_eq_sum_zipWith, List.zipWith_map_right, List.zip, List.map_zipWith]
  have hfoldl : ((row.zip m).map fun t => t.1 * t.2.getD j 0).foldl (· + ·) 0 =
      (row.zip m).foldl (fun s t => s + t.1 * t.2.getD j 0) 0 := List.foldl_map
  rw [hm.getD_combine_eq_foldl row hj, ← hfoldl, ← List.sum_eq_foldl, hcolumn,
    dot_eq_sum _ _ le_rfl]
  exact Finset.sum_congr rfl fun k _ => by rw [getD_map_getD]

/-- A matrix times a vector is the list of the products of its rows and the vector. -/
theorem HasShape.apply_eq_ok {m : Rows ℚ} {h w : Nat} (hm : m.HasShape h w) {v r : List ℚ}
    (hv : v.length = w) :
    m.apply v = .ok r ↔ r.length = h ∧
      ∀ i < h, r.getD i 0 = ∑ j ∈ Finset.range w, m.entry i j * v.getD j 0 := by
  have hlen : (m.map (dot · v)).length = h := by rw [List.length_map, hm.length_eq]
  have hentry : ∀ i < h,
      (m.map (dot · v)).getD i 0 = ∑ j ∈ Finset.range w, m.entry i j * v.getD j 0 := by
    intro i hi
    obtain ⟨row, hrow, hwidth⟩ := hm.exists_row hi
    rw [List.getD_eq_getElem?_getD, List.getElem?_map, hrow, Option.map_some, Option.getD_some,
      dot_eq_sum _ _ hwidth.le]
    exact Finset.sum_congr rfl fun j _ => by rw [entry_of_getElem? hrow]
  rw [Rows.apply_eq_ok]
  constructor
  · rintro ⟨-, rfl⟩
    exact ⟨hlen, hentry⟩
  · rintro ⟨hr, hentry'⟩
    refine ⟨fun row hrow => (hm.length_row row hrow).trans hv.symm, ?_⟩
    refine List.ext_getElem (hr.trans hlen.symm) fun i hi hi' => ?_
    rw [← List.getD_eq_getElem _ 0, ← List.getD_eq_getElem _ 0, hentry i (hr ▸ hi),
      hentry' i (hr ▸ hi)]

/-- The entries of the product of a square matrix and a matrix with as many rows. -/
theorem HasShape.mul_eq_ok {v m p : Rows ℚ} {h w : Nat} (hv : v.HasShape h h)
    (hm : m.HasShape h w) :
    v.mul m = .ok p ↔ p.HasShape h w ∧
      ∀ i < h, ∀ j < w, p.entry i j = ∑ k ∈ Finset.range h, v.entry i k * m.entry k j := by
  rcases Nat.eq_zero_or_pos h with rfl | hh
  · rw [List.eq_nil_of_length_eq_zero hv.length_eq, List.eq_nil_of_length_eq_zero hm.length_eq]
    constructor
    · intro hp
      cases hp
      exact ⟨⟨rfl, by simp⟩, fun i hi => absurd hi i.not_lt_zero⟩
    · rintro ⟨hp, -⟩
      rw [List.eq_nil_of_length_eq_zero hp.length_eq]
      rfl
  have hshape : HasShape (v.map fun row => Rows.combine w row m) h w :=
    hv.map fun row _ => hm.length_combine row
  have hentry : ∀ i < h, ∀ j < w, Rows.entry (v.map fun row => Rows.combine w row m) i j =
      ∑ k ∈ Finset.range h, v.entry i k * m.entry k j := by
    intro i hi j hj
    obtain ⟨row, hrow, hlen⟩ := hv.exists_row hi
    have hcombined : (v.map fun row => Rows.combine w row m)[i]? = some (Rows.combine w row m) := by
      rw [List.getElem?_map, hrow]
      rfl
    rw [entry_of_getElem? hcombined, hm.getD_combine row hj, hlen]
    exact Finset.sum_congr rfl fun k _ => by rw [entry_of_getElem? hrow]
  rw [Rows.mul_eq_ok, hm.width_eq hh, hm.length_eq]
  constructor
  · rintro ⟨-, -, rfl⟩
    exact ⟨hshape, hentry⟩
  · rintro ⟨hp, hentry'⟩
    refine ⟨hm.length_row, hv.length_row, hp.ext hshape fun i hi j hj => ?_⟩
    rw [hentry i hi j hj, hentry' i hi j hj]

/-- Elimination takes the multiple of the pivot row away at every position. -/
theorem getD_eliminate {row pivotRow : List ℚ} (h : pivotRow.length = row.length) (multiplier : ℚ)
    (j : Nat) :
    (eliminate row pivotRow multiplier).getD j 0 =
      row.getD j 0 - multiplier * pivotRow.getD j 0 := by
  rcases lt_or_ge j row.length with hj | hj
  · exact getD_eliminate_of_lt h multiplier hj
  · rw [List.getD_eq_default _ _ (by rwa [length_eliminate]), List.getD_eq_default _ _ hj,
      List.getD_eq_default _ _ (h ▸ hj)]
    simp

end Rows

end LinProg
