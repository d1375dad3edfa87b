import Mathlib.Data.List.Basic
import LinProg.Simplex

/-!
# Renaming the variables

Names are compared for equality and are otherwise carried along. A renaming that keeps different
names different therefore passes through every operation of a run: the renamed tableau takes the
same pivots, and what is found about it is what is found about the tableau, with the names replaced.
Each operation has a lemma of this form, and the lemmas are put together along the sequence of the
operations. What reads numbers only is left as it is by every renaming.
-/

namespace LinProg

/-! ### Renamed data -/

section

variable (r : String → String)

/-- The cause of a refusal with the name that it mentions replaced. -/
def Refusal.rename : Refusal → Refusal
  | .inconsistentBasis name => .inconsistentBasis (r name)
  | .basisCoefficientChanged name column => .basisCoefficientChanged (r name) column
  | .slackColumnChanged name column => .slackColumnChanged (r name) column
  | .duplicateVariable name => .duplicateVariable (r name)
  | .unbounded name => .unbounded (r name)
  | cause => cause

/-- The failure with the name that it mentions replaced. -/
def Failure.rename : Failure → Failure
  | .refused cause => .refused (cause.rename r)
  | .outOfRange => .outOfRange

/-- The outcome with its failure renamed, and with its result passed through a function. -/
def Outcome.rename {β γ : Type} (f : β → γ) : Outcome β → Outcome γ
  | .ok b => .ok (f b)
  | .error failure => .error (failure.rename r)

/-- The status with the variable that it names replaced. -/
def Status.rename : Status → Status
  | .optimal => .optimal
  | .unbounded column name => .unbounded column (r name)
  | .infeasible row name => .infeasible row (r name)

variable {α : Type}

/-- The tableau with its variables renamed. -/
def Tableau.rename (t : Tableau α) : Tableau α :=
  { t with names := t.names.map r, basis := t.basis.map r }

/-- The record of a pivot with its variables renamed. -/
def Step.rename (s : Step α) : Step α := { s with entering := r s.entering, leaving := r s.leaving }

/-- The alternate with its variables renamed. -/
def Alternate.rename (a : Alternate α) : Alternate α :=
  ⟨r a.entering, r a.leaving, a.tableau.rename r⟩

/-- The prices with their variables renamed. -/
def Analysis.rename (a : Analysis α) : Analysis α where
  shadowPrices := a.shadowPrices.map fun price => { price with slack := r price.slack }
  variableCosts := a.variableCosts.map fun cost => { cost with name := r cost.name }
  binding := a.binding.map r

/-- The solution with its variables renamed; all numbers stay what they are. -/
def Solution.rename (s : Solution α) : Solution α :=
  { s with
    status := s.status.rename r
    tableau := s.tableau.rename r
    steps := s.steps.map (Step.rename r)
    alternates := s.alternates.map (Alternate.rename r)
    degenerate := s.degenerate.map r
    analysis := s.analysis.rename r }

/-- The event with the variables that it names replaced. -/
def Event.rename : Event α → Event α
  | .pivoted step => .pivoted (step.rename r)
  | .halted pivots status => .halted pivots (status.rename r)
  | .nodeBranched node depth name value => .nodeBranched node depth (r name) value
  | event => event

/-- The outcome and the events before it, renamed. -/
def Recorded.rename {β γ : Type} (f : β → γ) (o : Recorded α β) : Recorded α γ :=
  ⟨o.events.map (Event.rename r), o.outcome.rename r f⟩

/-- The run with its variables renamed. -/
def Run.rename (run : Run α) : Run α :=
  { run with tableau := run.tableau.rename r, trail := run.trail.map (Step.rename r) }

/-- The move with the variable that it names replaced. -/
def Move.rename : Move α → Move α
  | .pivot p => .pivot p
  | .halt status => .halt (status.rename r)

/-- The end of a run with its variables renamed. -/
def Halt.rename (h : Halt α) : Halt α :=
  ⟨h.run.rename r, h.outcome.rename r (Prod.map (Status.rename r) id)⟩

end

/-! ### Renamed outcomes -/

namespace Outcome

variable {β β' γ γ' : Type} {r : String → String}

/-- A sequence of two steps is renamed if the first one is, and the second one with each result that
the first one gives. -/
theorem rename_bind_of_ok {o : Outcome β} {o' : Outcome β'} {f : β → β'} {h : γ → γ'}
    {next : β → Outcome γ} {next' : β' → Outcome γ'} (ho : o' = o.rename r f)
    (hnext : ∀ b, o = .ok b → next' (f b) = (next b).rename r h) :
    o' >>= next' = (o >>= next).rename r h := by
  subst ho
  cases o with
  | error failure => rfl
  | ok b => exact hnext b rfl

theorem rename_bind {o : Outcome β} {o' : Outcome β'} {f : β → β'} {h : γ → γ'}
    {next : β → Outcome γ} {next' : β' → Outcome γ'} (ho : o' = o.rename r f)
    (hnext : ∀ b, next' (f b) = (next b).rename r h) :
    o' >>= next' = (o >>= next).rename r h :=
  rename_bind_of_ok ho fun b _ => hnext b

theorem inRange_map (o : Option β) (f : β → γ) : inRange (o.map f) = (inRange o).rename r f := by
  cases o <;> rfl

/-- A check for each element of a renamed list is the renamed check. -/
theorem forM_map {k : β → β'} {check : β → Outcome Unit} {check' : β' → Outcome Unit} {l : List β}
    (h : ∀ b ∈ l, check' (k b) = (check b).rename r id) :
    (l.map k).forM check' = (l.forM check).rename r id := by
  induction l with
  | nil => rfl
  | cons b l ih =>
    obtain ⟨hb, hl⟩ := List.forall_mem_cons.1 h
    exact rename_bind hb fun _ => ih hl

/-- An operation on each element of a renamed list gives the renamed results. -/
theorem mapM_map {k : β → β'} {h : γ → γ'} {f : β → Outcome γ} {f' : β' → Outcome γ'} {l : List β}
    (hf : ∀ b ∈ l, f' (k b) = (f b).rename r h) :
    (l.map k).mapM f' = (l.mapM f).rename r (List.map h) := by
  induction l with
  | nil => rfl
  | cons b l ih =>
    obtain ⟨hb, hl⟩ := List.forall_mem_cons.1 hf
    rw [List.map_cons, List.mapM_cons, List.mapM_cons]
    exact rename_bind hb fun c => rename_bind (ih hl) fun _ => rfl

theorem mapM_rename {h : γ → γ'} {f : β → Outcome γ} {f' : β → Outcome γ'} {l : List β}
    (hf : ∀ b ∈ l, f' b = (f b).rename r h) : l.mapM f' = (l.mapM f).rename r (List.map h) := by
  rw [← mapM_map (k := id) hf, List.map_id]

/-- The outcome mentions no name, so that no renaming changes it. -/
def IsNameless (o : Outcome β) : Prop := ∀ r, o = o.rename r id

theorem isNameless_ok (b : β) : IsNameless (.ok b) := fun _ => rfl

theorem isNameless_inRange (o : Option β) : (inRange o).IsNameless := by
  intro r
  cases o <;> rfl

theorem isNameless_within (inside : Bool) : (within inside).IsNameless := by
  intro r
  cases inside <;> rfl

theorem IsNameless.bind {o : Outcome β} {next : β → Outcome γ} (ho : o.IsNameless)
    (hnext : ∀ b, (next b).IsNameless) : (o >>= next).IsNameless :=
  fun r => rename_bind (ho r) fun b => hnext b r

theorem isNameless_check (what : Dimension) (expected found : Nat) :
    (what.check expected found).IsNameless := by
  intro r
  unfold Dimension.check
  split <;> rfl

theorem isNameless_forM {check : β → Outcome Unit} {l : List β}
    (h : ∀ b ∈ l, (check b).IsNameless) : (l.forM check).IsNameless := by
  intro r
  rw [← forM_map (k := id) fun b hb => h b hb r, List.map_id]

theorem isNameless_mapM {f : β → Outcome γ} {l : List β} (h : ∀ b ∈ l, (f b).IsNameless) :
    (l.mapM f).IsNameless := by
  intro r
  rw [← List.map_id_fun]
  exact mapM_rename fun b hb => h b hb r

end Outcome

namespace Rows

variable {β : Type}

theorem isNameless_checkWidths (m : Rows β) (what : Dimension) (expected : Nat) :
    (m.checkWidths what expected).IsNameless :=
  Outcome.isNameless_forM fun _ _ => Outcome.isNameless_check _ _ _

theorem isNameless_column (m : Rows β) (j : Nat) : (m.column j).IsNameless :=
  Outcome.isNameless_inRange _

end Rows

/-! ### Names -/

section

variable {r : String → String} (hr : Function.Injective r)

include hr

theorem contains_map (names : List String) (name : String) :
    (names.map r).contains (r name) = names.contains name := by
  rw [Bool.eq_iff_iff, List.contains_iff_mem, List.contains_iff_mem, List.mem_map_of_injective hr]

theorem idxOf?_map (names : List String) (name : String) :
    (names.map r).idxOf? (r name) = names.idxOf? name := by
  rw [List.idxOf?, List.idxOf?, List.findIdx?_map]
  congr 1
  funext other
  exact Bool.eq_iff_iff.2 (by simp [hr.eq_iff])

theorem firstDuplicate_map (names : List String) :
    firstDuplicate (names.map r) = (firstDuplicate names).map r := by
  have hoccurs : (fun p : String × Nat => ((names.map r).take p.2).contains p.1) ∘ Prod.map r id =
      fun p => (names.take p.2).contains p.1 := by
    funext p
    rw [Function.comp_apply, Prod.map_fst, Prod.map_snd, id_eq, ← List.map_take, contains_map hr]
  unfold firstDuplicate
  dsimp only
  rw [List.zipIdx_map, List.find?_map, hoccurs, Option.map_map, Option.map_map]
  rfl

/-- Renamed variables stand in the same columns. -/
theorem locateBasis_map (names basis : List String) :
    locateBasis (names.map r) (basis.map r) = (locateBasis names basis).rename r id := by
  unfold locateBasis
  rw [← List.map_id_fun]
  refine Outcome.mapM_map fun name _ => ?_
  rw [idxOf?_map hr]
  cases names.idxOf? name <;> rfl

end

namespace Tableau

variable {α : Type} {r : String → String}

@[simp] theorem rename_rows (t : Tableau α) : (t.rename r).rows = t.rows := rfl

@[simp] theorem rename_rhs (t : Tableau α) : (t.rename r).rhs = t.rhs := rfl

@[simp] theorem rename_costs (t : Tableau α) : (t.rename r).costs = t.costs := rfl

@[simp] theorem rename_names (t : Tableau α) : (t.rename r).names = t.names.map r := rfl

@[simp] theorem rename_basis (t : Tableau α) : (t.rename r).basis = t.basis.map r := rfl

@[simp] theorem height_rename (t : Tableau α) : (t.rename r).height = t.height := rfl

@[simp] theorem width_rename (t : Tableau α) : (t.rename r).width = t.width := List.length_map r

@[simp] theorem structural_rename (t : Tableau α) : (t.rename r).structural = t.structural := by
  rw [structural, width_rename, height_rename, structural]

variable (hr : Function.Injective r) (t : Tableau α)

include hr

theorem isBasic_rename (name : String) : (t.rename r).isBasic (r name) = t.isBasic name :=
  contains_map hr t.basis name

theorem basicColumns_rename : (t.rename r).basicColumns = t.basicColumns.rename r id :=
  locateBasis_map hr t.names t.basis

theorem validate_rename : (t.rename r).validate = t.validate.rename r id := by
  unfold validate
  rw [height_rename, width_rename, rename_rows, rename_rhs, rename_costs, rename_names,
    rename_basis, List.length_map, firstDuplicate_map hr]
  refine Outcome.rename_bind (Outcome.isNameless_check _ _ _ r) fun _ =>
    Outcome.rename_bind (Outcome.isNameless_check _ _ _ r) fun _ =>
    Outcome.rename_bind (t.rows.isNameless_checkWidths _ _ r) fun _ =>
    Outcome.rename_bind (Outcome.isNameless_check _ _ _ r) fun _ => ?_
  dsimp only
  by_cases hwidth : t.width < t.height
  · rw [if_pos hwidth, if_pos hwidth]
    rfl
  · rw [if_neg hwidth, if_neg hwidth]
    cases firstDuplicate t.names <;> rfl

end Tableau

end LinProg
