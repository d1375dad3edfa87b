import LinProg.Proofs.Pivot
import LinProg.Proofs.ReducedCosts
import LinProg.Solution

/-!
# What is read off a tableau at the end

On a well-formed tableau with one reduced cost for each column, the basic solution, the other optima
next to it and the prices can all be given. Each of the other optima is one pivot away, on an
element that is read as positive.
-/

namespace LinProg

/-! ### The basic solution -/

namespace Tableau

variable {α : Type} [Zero α] {t : Tableau α}

/-- The value of a variable is the right-hand side of its row. A variable that is not basic has its
row outside the tableau, where the right-hand side is zero. -/
theorem basicValue_eq_ok (ht : t.IsValid) (name : String) :
    t.basicValue name = .ok (t.rhs.getD (t.basis.idxOf name) 0) := by
  unfold basicValue basicRow?
  by_cases hname : name ∈ t.basis
  · have hrow : t.basis.idxOf name < t.rhs.length := by
      rw [ht.length_rhs, ← ht.length_basis]
      exact List.idxOf_lt_length_of_mem hname
    rw [idxOf?_of_mem hname, List.getD_eq_getElem _ _ hrow]
    exact Outcome.inRange_eq_ok.2 (List.getElem?_eq_getElem hrow)
  · have hrow : t.rhs.length ≤ t.basis.idxOf name := by
      rw [ht.length_rhs, ← ht.length_basis, List.idxOf_eq_length hname]
    rw [List.idxOf?_eq_none_iff.2 hname, List.getD_eq_default _ _ hrow]

theorem values_eq_ok (ht : t.IsValid) :
    t.values = .ok (t.names.map fun name => (name, t.rhs.getD (t.basis.idxOf name) 0)) := by
  rw [values, Outcome.mapM_eq_ok_map (P := fun _ => True)]
  · exact ⟨fun _ _ => trivial, rfl⟩
  · intro name c
    rw [basicValue_eq_ok ht, Outcome.ok_bind, Outcome.pure_eq, Except.ok.injEq, true_and, eq_comm]

end Tableau

/-! ### Other optima -/

section

variable {α : Type} [Scalar α] {t : Tableau α}

theorem Pivot.exists_step_eq_ok {p : Pivot α} (ht : t.IsValid) (hp : p.ReadsOff t) :
    ∃ step, p.step t = .ok step := by
  have hcolumn : p.column < t.names.length := hp.column_lt ht
  have hrow : p.row < t.basis.length := ht.length_basis ▸ hp.row_lt
  rw [Pivot.step, Outcome.inRange_eq_ok.2 (List.getElem?_eq_getElem hcolumn), Outcome.ok_bind,
    Outcome.inRange_eq_ok.2 (List.getElem?_eq_getElem hrow)]
  exact ⟨_, rfl⟩

omit [Scalar α] in
/-- A pivot is recorded with the names of the variables that it exchanges. -/
theorem Pivot.step_eq_ok {p : Pivot α} {step : Step α} (h : p.step t = .ok step) :
    ∃ entering leaving, t.names[p.column]? = some entering ∧ t.basis[p.row]? = some leaving ∧
      step = ⟨p.rule, p.row, p.column, p.element, entering, leaving, p.ratios⟩ := by
  obtain ⟨entering, hentering, h⟩ := Outcome.bind_eq_ok.1 h
  obtain ⟨leaving, hleaving, h⟩ := Outcome.bind_eq_ok.1 h
  cases h
  exact ⟨entering, leaving, Outcome.inRange_eq_ok.1 hentering,
    Outcome.inRange_eq_ok.1 hleaving, rfl⟩

namespace Solution

variable {costs : ReducedCosts α}

/-- Another optimum is found by the ratio test in a column that is not basic and whose reduced cost
is read as zero. It is recorded with the variables that its pivot exchanges. -/
theorem alternate?_cases {column : Nat} {a : Alternate α}
    (h : alternate? t costs column = .ok (some a)) :
    ∃ cost p step, t.isBasic a.entering = false ∧ costs.reduced[column]? = some cost ∧
      Scalar.isZero cost = true ∧ Selection.enter t column = .ok (.pivot p) ∧
      p.step t = .ok step ∧ step.entering = a.entering ∧ step.leaving = a.leaving ∧
      p.apply t = .ok a.tableau := by
  obtain ⟨name, hname, h⟩ := Outcome.bind_eq_ok.1 h
  split at h
  · cases h
  · next hbasic =>
    obtain ⟨cost, hcost, h⟩ := Outcome.bind_eq_ok.1 h
    split at h
    · cases h
    · next hzero =>
      obtain ⟨entries, -, h⟩ := Outcome.bind_eq_ok.1 h
      split at h
      · cases h
      · obtain ⟨selection, hselection, h⟩ := Outcome.bind_eq_ok.1 h
        split at h
        · next p =>
          obtain ⟨step, hstep, h⟩ := Outcome.bind_eq_ok.1 h
          obtain ⟨t', ht', h⟩ := Outcome.bind_eq_ok.1 h
          cases h
          obtain ⟨entering, leaving, hentering, -, rfl⟩ := Pivot.step_eq_ok hstep
          have hcolumn : p.column = column :=
            Option.some_inj.1 (Selection.entering?_of_ratioTest hselection)
          rw [hcolumn, Outcome.inRange_eq_ok.1 hname, Option.some_inj] at hentering
          rw [hentering] at hbasic
          exact ⟨cost, p, _, by simpa using hbasic, Outcome.inRange_eq_ok.1 hcost,
            by simpa using hzero, hselection, hstep, rfl, rfl, ht'⟩
        · cases h

/-- No other optimum is found in a column that is not basic and whose reduced cost is read as zero
only if its entries are not read as positive, or if the ratio test gives no pivot. -/
theorem alternate?_eq_none {column : Nat} (h : alternate? t costs column = .ok none) {name : String}
    (hname : t.names[column]? = some name) (hbasic : t.isBasic name = false) {cost : α}
    (hcost : costs.reduced[column]? = some cost) (hzero : Scalar.isZero cost = true) :
    ∃ entries, t.rows.column column = .ok entries ∧
      ((∀ v ∈ entries, Scalar.isPositive v = false) ∨
        ∃ selection, Selection.enter t column = .ok selection ∧ ∀ p, selection ≠ .pivot p) := by
  rw [alternate?, Outcome.inRange_eq_ok.2 hname, Outcome.ok_bind, hbasic,
    if_neg Bool.false_ne_true, Outcome.inRange_eq_ok.2 hcost, Outcome.ok_bind, hzero,
    if_neg (by simp)] at h
  obtain ⟨entries, hentries, h⟩ := Outcome.bind_eq_ok.1 h
  refine ⟨entries, hentries, ?_⟩
  split at h
  · next hpositive => exact .inl (by simpa using hpositive)
  · obtain ⟨selection, hselection, h⟩ := Outcome.bind_eq_ok.1 h
    refine .inr ⟨selection, hselection, ?_⟩
    rintro p rfl
    obtain ⟨step, -, h⟩ := Outcome.bind_eq_ok.1 h
    obtain ⟨t', -, h⟩ := Outcome.bind_eq_ok.1 h
    cases h

theorem exists_alternate?_eq_ok (ht : t.IsValid) (hlen : costs.reduced.length = t.width)
    {column : Nat} (hcolumn : column < t.width) : ∃ a, alternate? t costs column = .ok a := by
  have hcost : column < costs.reduced.length := hlen ▸ hcolumn
  have hname : column < t.names.length := hcolumn
  rw [alternate?, Outcome.inRange_eq_ok.2 (List.getElem?_eq_getElem hname), Outcome.ok_bind]
  split
  · exact ⟨none, rfl⟩
  rw [Outcome.inRange_eq_ok.2 (List.getElem?_eq_getElem hcost), Outcome.ok_bind]
  split
  · exact ⟨none, rfl⟩
  rw [ht.hasShape.column_eq_ok hcolumn, Outcome.ok_bind]
  split
  · exact ⟨none, rfl⟩
  obtain ⟨selection, hselection, hlies⟩ := Selection.exists_ratioTest_eq_ok ht hcolumn .dantzig
    fun _ _ => false
  rw [Selection.enter, hselection, Outcome.ok_bind]
  cases selection with
  | unbounded column => exact ⟨none, rfl⟩
  | infeasible row => exact ⟨none, rfl⟩
  | pivot p =>
    obtain ⟨step, hstep⟩ := p.exists_step_eq_ok ht hlies.1
    obtain ⟨t', ht'⟩ := p.exists_apply_eq_ok ht hlies.1
    exact ⟨some ⟨step.entering, step.leaving, t'⟩, by simp only [hstep, ht', Outcome.ok_bind]; rfl⟩

theorem exists_alternatesOf_eq_ok (ht : t.IsValid) (hlen : costs.reduced.length = t.width) :
    ∃ alternates, alternatesOf t costs = .ok alternates := by
  obtain ⟨found, hfound⟩ := Outcome.exists_mapM_eq_ok (l := List.range t.width)
    fun column hcolumn => exists_alternate?_eq_ok ht hlen (List.mem_range.1 hcolumn)
  exact ⟨found.filterMap id, by rw [alternatesOf, hfound]; rfl⟩

/-- If there are no other optima, none is found in any column. -/
theorem alternate?_of_alternatesOf_nil (h : alternatesOf t costs = .ok []) {column : Nat}
    (hcolumn : column < t.width) : alternate? t costs column = .ok none := by
  obtain ⟨found, hfound, h⟩ := Outcome.bind_eq_ok.1 h
  rw [Outcome.pure_eq, Except.ok.injEq, List.filterMap_eq_nil_iff] at h
  obtain ⟨hlen, hget⟩ := Outcome.getElem?_of_mapM hfound
  rw [List.length_range] at hlen
  have hlt : column < found.length := hlen ▸ hcolumn
  obtain ⟨column', hcolumn', halternate⟩ := hget column _ (List.getElem?_eq_getElem hlt)
  rw [List.getElem?_range hcolumn, Option.some_inj] at hcolumn'
  rw [hcolumn', halternate, Except.ok.injEq]
  exact h _ (List.getElem_mem hlt)

theorem exists_of_mem_alternatesOf {alternates : List (Alternate α)}
    (h : alternatesOf t costs = .ok alternates) {a : Alternate α} (ha : a ∈ alternates) :
    ∃ column, alternate? t costs column = .ok (some a) := by
  obtain ⟨found, hfound, h⟩ := Outcome.bind_eq_ok.1 h
  cases h
  obtain ⟨o, ho, rfl⟩ := List.mem_filterMap.1 ha
  obtain ⟨j, hj⟩ := List.mem_iff_getElem?.1 ho
  obtain ⟨column, -, hcolumn⟩ := (Outcome.getElem?_of_mapM hfound).2 j _ hj
  exact ⟨column, hcolumn⟩

end Solution

theorem Analysis.exists_compute_eq_ok {costs : ReducedCosts α} (ht : t.IsValid)
    (hlen : costs.reduced.length = t.width) :
    ∃ analysis, Analysis.compute t costs = .ok analysis := by
  rw [Analysis.compute, Tableau.values_eq_ok ht, Outcome.ok_bind,
    Outcome.within_eq_ok (u := ()).2 (decide_eq_true hlen.ge)]
  exact ⟨_, rfl⟩

end

end LinProg
