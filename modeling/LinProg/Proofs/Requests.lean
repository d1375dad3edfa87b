import LinProg.Proofs.Closure
import LinProg.Proofs.Totality

/-!
# Which requests are answered

A request may hold anything: rows of different lengths, too few or too many numbers, names that are
taken, numbers that are undefined. The checks of each kind of request compare the lengths before a
position is used, so a snapshot answers with a revision or a refusal. There is one exception. The
columns of a tableau without rows cannot be read off its rows, and new coefficients for such a
tableau are looked up there: if it has a variable, the first column that is looked up is missing.
-/

namespace LinProg

open Outcome

namespace Outcome

variable {β : Type}

/-- An outcome that is not a position outside a list is an answer. -/
theorem answers_true_iff {o : Outcome β} :
    (o.Answers fun _ => True) ↔ o ≠ .error .outOfRange := by
  match o with
  | .ok b => simp [Answers]
  | .error (.refused cause) => simp [Answers]
  | .error .outOfRange => simp [Answers]

theorem answers_inRange {P : Refusal → Prop} {list : List β} {j : Nat} (hj : j < list.length) :
    (inRange list[j]?).Answers P := by
  rw [List.getElem?_eq_getElem hj]
  exact answers_ok _

/-- A refusal under a condition is an answer. -/
theorem answers_refuse_if {p : Prop} [Decidable p] {cause : Refusal} :
    ((if p then refuse cause else .ok ()) : Outcome Unit).Answers fun _ => True := by
  split
  · exact answers_refuse trivial
  · exact answers_ok ()

end Outcome

theorem Rows.HasShape.exists_transpose_eq_ok {α : Type} [Zero α] {m : Rows α} {h w : Nat}
    (hm : m.HasShape h w) (hh : 0 < h) : ∃ m', m.transpose = .ok m' := by
  refine exists_mapM_eq_ok fun j hj => ?_
  rw [hm.width_eq hh, List.mem_range] at hj
  exact ⟨_, hm.column_eq_ok hj⟩

theorem Rows.checkWidths_answers {β : Type} (m : Rows β) (what : Dimension) (expected : Nat) :
    (m.checkWidths what expected).Answers fun _ => True :=
  answers_forM fun _ _ => Dimension.answers_check trivial

section

variable {α : Type} [Arithmetic α]

theorem Rows.apply_answers (m : Rows α) (vector : List α) :
    (m.apply vector).Answers fun _ => True :=
  answers_mapM fun _ _ => (Dimension.answers_check trivial).bind fun _ _ => answers_ok _

theorem Rows.mul_answers (left right : Rows α) : (left.mul right).Answers fun _ => True :=
  (right.checkWidths_answers _ _).bind fun _ _ =>
    answers_mapM fun _ _ => (Dimension.answers_check trivial).bind fun _ _ => answers_ok _

end

namespace Snapshot

variable {α : Type} [Scalar α] {s : Snapshot α}

omit [Scalar α] in
theorem basicColumns_answers (t : Tableau α) : t.basicColumns.Answers fun _ => True :=
  (locateBasis_answers t.names t.basis).mono fun _ _ => trivial

/-! ### One kind of request after the other -/

omit [Scalar α] in
theorem changeObjective_answers (s : Snapshot α) (costs : List α) :
    (s.changeObjective costs).Answers fun _ => True :=
  (Dimension.answers_check trivial).bind fun _ _ => answers_ok _

theorem changeRhs_answers (s : Snapshot α) (rhs : List α) :
    (s.changeRhs rhs).Answers fun _ => True :=
  (Dimension.answers_check trivial).bind fun _ _ =>
    (s.basisInverse.apply_answers rhs).bind fun _ _ => answers_ok _

theorem checkNewRows_answers (s : Snapshot α) (rows : Rows α) :
    (s.checkNewRows rows).Answers fun _ => True :=
  answers_forM fun _ _ => (Dimension.answers_check trivial).bind fun _ _ => answers_refuse_if

section

variable (hs : s.IsCaptured)

include hs

theorem addConstraints_answers (rows : Rows α) (rhs : List α) (costs : Option (List α)) :
    (s.addConstraints rows rhs costs).Answers fun _ => True := by
  -- once the new rows have passed their check, they have an entry for every basic variable
  have hrest : ∀ f : List Nat → Outcome (Revision α),
      (∀ columns, (f columns).Answers fun _ => True) →
      (s.checkNewRows rows >>= fun _ => s.tableau.basicColumns >>= fun columns =>
        Outcome.within (decide (columns.length ≤ s.tableau.height) &&
          decide (columns.length ≤ s.tableau.rhs.length) &&
          rows.all fun row => columns.all fun column => decide (column < row.length)) >>= fun _ =>
        f columns).Answers fun _ => True := by
    intro f hf
    refine (s.checkNewRows_answers rows).bind fun _ hcheck => ?_
    refine (basicColumns_answers _).bind fun columns hcolumns => ?_
    have ht := isWellFormed_of_basicColumns hs.isValid hcolumns
    rw [ht.basicColumns_eq, Except.ok.injEq] at hcolumns
    rw [← hcolumns, within_basicColumns ht (length_of_isNewRow (checkNewRows_eq_ok.1 hcheck))]
    exact hf _
  unfold addConstraints
  refine (Dimension.answers_check trivial).bind fun _ _ => ?_
  cases costs with
  | none => exact hrest _ fun columns => answers_ok _
  | some costs =>
    exact (Dimension.answers_check trivial).bind fun _ _ => hrest _ fun columns => answers_ok _

theorem addVariables_answers (columns : Rows α) (costs : List α) (names : List String) :
    (s.addVariables columns costs names).Answers fun _ => True := by
  unfold addVariables
  dsimp only
  refine (Dimension.answers_check trivial).bind fun _ _ => ?_
  refine (Dimension.answers_check trivial).bind fun _ _ => ?_
  refine (columns.checkWidths_answers _ _).bind fun _ _ => ?_
  split
  · exact Answers.bind (answers_refuse (P := fun _ => True) trivial) fun _ h => nomatch h
  · refine (s.basisInverse.mul_answers columns).bind fun transformed htransformed => ?_
    obtain ⟨-, -, rfl⟩ := Rows.mul_eq_ok.1 htransformed
    rw [List.length_map, hs.hasShape_basisInverse.length_eq, hs.hasShape.length_eq,
      decide_eq_true rfl]
    exact answers_ok _

/-- A column is looked up in the transpose of the tableau after the checks of its kind. -/
theorem changedColumn_answers {rows current : Rows α}
    (hrows : rows.HasShape s.tableau.height s.tableau.width)
    (hcurrent : current.length = s.tableau.width) (basicColumns : List Nat)
    (name : String) {j : Nat} (hj : j < s.tableau.width) :
    (s.changedColumn rows current basicColumns name j).Answers fun _ => True := by
  have hcolumn : (Outcome.inRange current[j]?).Answers fun _ => True :=
    answers_inRange (hcurrent.symm ▸ hj)
  unfold changedColumn
  rw [hrows.column_eq_ok hj, ok_bind]
  split
  · split
    · exact answers_refuse (P := fun _ => True) trivial
    · exact hcolumn
  · split
    · rw [hs.hasShape.column_eq_ok hj, ok_bind]
      split
      · exact answers_refuse (P := fun _ => True) trivial
      · exact hcolumn
    · exact (s.basisInverse.apply_answers _).bind fun _ _ => hcolumn.bind fun _ _ => answers_ok _

/-- If the tableau has a row, its columns are found. -/
theorem changeCoefficients_answers (hheight : 0 < s.tableau.height) (rows : Rows α) :
    (s.changeCoefficients rows).Answers fun _ => True := by
  unfold changeCoefficients
  dsimp only
  refine (Dimension.answers_check trivial).bind fun _ hlen => ?_
  refine (rows.checkWidths_answers _ _).bind fun _ hwidths => ?_
  have hrows : rows.HasShape s.tableau.height s.tableau.width :=
    ⟨(Dimension.check_eq_ok.1 hlen).symm, Rows.checkWidths_eq_ok.1 hwidths⟩
  refine (basicColumns_answers _).bind fun basicColumns _ => ?_
  obtain ⟨current, hcurrent⟩ := hs.isValid.hasShape.exists_transpose_eq_ok hheight
  have hshape := (hs.isValid.hasShape.transpose hheight hcurrent).1
  rw [hcurrent, ok_bind]
  refine Answers.bind (answers_mapM fun (name, j) hmem => ?_) fun columns hcolumns => ?_
  · have hj := (List.getElem?_eq_some_iff.1 (List.mem_zipIdx_iff_getElem?.1 hmem)).1
    exact changedColumn_answers hs hrows hshape.length_eq basicColumns name hj
  · split
    · exact answers_ok _
    · next hempty =>
      obtain ⟨hlen, hcolumn⟩ := getElem?_changedColumns hcolumns
      have hpos : 0 < s.tableau.width := by
        rw [← hlen]
        exact List.length_pos_iff.2 (by simpa using hempty)
      obtain ⟨changed, hchanged⟩ :=
        (hasShape_changedColumns hs hcurrent hlen hcolumn).exists_transpose_eq_ok hpos
      rw [hchanged]
      exact answers_ok _

/-- Without a row no column is found, so only a tableau without variables can be given
coefficients. -/
theorem changeCoefficients_of_height_eq_zero (hheight : s.tableau.height = 0) (rows : Rows α) :
    s.changeCoefficients rows = .error .outOfRange ↔ s.tableau.width ≠ 0 ∧ rows = [] := by
  have hrows : s.tableau.rows = [] := List.eq_nil_of_length_eq_zero hheight
  have hbasis : s.tableau.basis = [] :=
    List.eq_nil_of_length_eq_zero (hs.isValid.length_basis.trans hheight)
  have hinverse : s.basisInverse = [] :=
    List.eq_nil_of_length_eq_zero (hs.hasShape_basisInverse.length_eq.trans hheight)
  obtain ⟨⟨_, rhs, costs, names, _⟩, _, initialRows⟩ := s
  dsimp only at hrows hbasis hinverse
  subst hrows hbasis hinverse
  cases rows with
  | cons row rows => exact iff_of_false nofun nofun
  | nil =>
    cases names with
    | nil => exact iff_of_false nofun fun h => h.1 rfl
    | cons name names => exact iff_of_true rfl ⟨nofun, rfl⟩

/-- The only request for which a position lies outside its list. -/
theorem apply_eq_outOfRange_iff (request : Request α) :
    s.apply request = .error .outOfRange ↔
      s.tableau.height = 0 ∧ s.tableau.width ≠ 0 ∧ request = .coefficientChange [] := by
  have hne : ∀ {o : Outcome (Revision α)}, (o.Answers fun _ => True) → o ≠ .error .outOfRange :=
    answers_true_iff.1
  cases request with
  | objectiveChange costs => simp [apply, hne (s.changeObjective_answers costs)]
  | rhsChange rhs => simp [apply, hne (s.changeRhs_answers rhs)]
  | newConstraints rows rhs costs => simp [apply, hne (addConstraints_answers hs rows rhs costs)]
  | newVariables columns costs names =>
    simp [apply, hne (addVariables_answers hs columns costs names)]
  | coefficientChange rows =>
    rcases Nat.eq_zero_or_pos s.tableau.height with hheight | hheight
    · simp [apply, changeCoefficients_of_height_eq_zero hs hheight, hheight]
    · simp [apply, hne (changeCoefficients_answers hs hheight rows), hheight.ne']

end

end Snapshot

/-! ### Updates -/

/-- The run of a revised tableau uses no position outside a list, so an update fails in this way
only where the request does. -/
theorem Solver.update_eq_outOfRange_iff {α : Type} [Scalar α] (solver : Solver) (s : Snapshot α)
    (request : Request α) :
    (solver.update s request).outcome = .error .outOfRange ↔
      s.apply request = .error .outOfRange := by
  rw [update, Recorded.outcome_andThen, Snapshot.revise, Recorded.outcome_andEvent]
  cases s.apply request with
  | error failure => simp [bind, Except.bind]
  | ok revision =>
    refine iff_of_false (fun heq => ?_) (by simp)
    rw [ok_bind, resolve] at heq
    rcases solver.run_cases revision.tableau revision.initialRows with
      ⟨solution, hrun⟩ | hrun | ⟨cause, -, -, hrun⟩
    · rw [hrun] at heq
      cases heq
    · rw [hrun] at heq
      cases heq
    · rw [hrun] at heq
      cases heq

/-- One variable that no constraint limits. -/
def Tableau.withoutRows : Tableau Float where
  rows := []
  rhs := []
  costs := [0]
  names := ["x"]
  basis := []

namespace Snapshot

/-- A snapshot that has been captured, of any size, answers a request of any kind and with any
contents with a revision or a refusal, and so does the solver that runs the revision. The one
exception is made by a tableau that has a variable but no row: from the empty list of new
coefficients, which has the length asked for, it looks up the column of its first variable, which is
outside the list of its columns. -/
theorem apply_total {t : Tableau Float} {initialRows : Rows Float} {s : Snapshot Float}
    (hcapture : capture t initialRows = .ok s) (request : Request Float) (solver : Solver) :
    (¬(t.height = 0 ∧ t.width ≠ 0 ∧ request = .coefficientChange []) →
      ((∃ revision, s.apply request = .ok revision) ∨
        ∃ cause, s.apply request = Outcome.refuse cause) ∧
      ((∃ solution, (solver.update s request).outcome = .ok solution) ∨
        ∃ cause, (solver.update s request).outcome = Outcome.refuse cause)) ∧
    (t.height = 0 ∧ t.width ≠ 0 ∧ request = .coefficientChange [] →
      s.apply request = .error .outOfRange ∧
        (solver.update s request).outcome = .error .outOfRange) := by
  obtain ⟨rfl, -, hs⟩ := capture_eq_ok.1 hcapture
  have hanswers : ∀ {β : Type} {o : Outcome β}, o ≠ .error .outOfRange →
      (∃ b, o = .ok b) ∨ ∃ cause, o = Outcome.refuse cause := by
    intro β o ho
    rcases answers_iff.1 (answers_true_iff.2 ho) with hok | ⟨cause, -, hrefused⟩
    · exact .inl hok
    · exact .inr ⟨cause, hrefused⟩
  rw [← apply_eq_outOfRange_iff hs]
  exact ⟨fun hne =>
      ⟨hanswers hne, hanswers ((solver.update_eq_outOfRange_iff s request).not.2 hne)⟩,
    fun heq => ⟨heq, (solver.update_eq_outOfRange_iff s request).2 heq⟩⟩

/-- Rows of different lengths, with an entry that is no number, are refused by the snapshot of the
resource. -/
theorem apply_total_oneResource :
    ∃ s, capture Tableau.oneResource Tableau.oneResource.rows = .ok s ∧
      ((∃ revision, s.apply (.newVariables [[0 / 0], []] [1] []) = .ok revision) ∨
        ∃ cause, s.apply (.newVariables [[0 / 0], []] [1] []) = Outcome.refuse cause) := by
  have hcapture : (fun _ => ()) <$> capture Tableau.oneResource Tableau.oneResource.rows =
      .ok () := by decide +kernel
  obtain ⟨s, hs, -⟩ := map_eq_ok.1 hcapture
  exact ⟨s, hs, ((apply_total hs (.newVariables [[0 / 0], []] [1] []) {}).1 nofun).1⟩

/-- New coefficients of a variable that no constraint limits are not answered, and neither is the
update, although a snapshot has been captured. New costs of the same variable are accepted. -/
theorem not_answers_withoutRows :
    ∃ s, capture Tableau.withoutRows Tableau.withoutRows.rows = .ok s ∧
      ¬((∃ revision, s.apply (.coefficientChange []) = .ok revision) ∨
        ∃ cause, s.apply (.coefficientChange []) = Outcome.refuse cause) ∧
      (({} : Solver).update s (.coefficientChange [])).outcome = .error .outOfRange ∧
      ∃ revision, s.apply (.objectiveChange [1]) = .ok revision := by
  refine ⟨⟨Tableau.withoutRows, [], []⟩, by decide +kernel, ?_, by decide +kernel, _, rfl⟩
  rintro (⟨revision, h⟩ | ⟨cause, h⟩)
  · cases h
  · cases h

end Snapshot

end LinProg
