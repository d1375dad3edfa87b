import LinProg.Proofs.Columns
import LinProg.Proofs.Constraints
import LinProg.Proofs.Double

/-!
# Chains of revisions

A snapshot can be revised and the revision captured again, any number of times. Nothing is assumed
of the numbers in a request, which need not even be numbers: every request that is accepted leaves
the lengths in step, the names distinct and the slack columns of the initial coefficients the
identity. New structural variables come before the slack variables, new slack variables come last
and are basic in the new rows, and the old variables keep their order.
-/

namespace LinProg

namespace Request

variable {α : Type}

/-- The names of the structural variables that a request brings. -/
def newNames : Request α → List String
  | .newVariables _ _ names => names
  | _ => []

/-- The number of rows that a request brings. -/
def newRows : Request α → Nat
  | .newConstraints rows _ _ => rows.length
  | _ => 0

end Request

variable {α : Type} [Scalar α]

/-! ### What can be captured -/

/-- What is asked of a revision that is captured. -/
structure Revision.IsCapturable (r : Revision α) : Prop where
  isValid : r.tableau.IsValid
  hasShape : r.initialRows.HasShape r.tableau.height r.tableau.width
  hasIdentity : r.initialRows.HasIdentityAt r.tableau.structural

/-- The inverse of the basis can always be read off, so nothing else is asked. -/
theorem Revision.IsCapturable.exists_capture_eq_ok {r : Revision α} (hr : r.IsCapturable) :
    ∃ s, Snapshot.capture r.tableau r.initialRows = .ok s := by
  obtain ⟨inverse, hinverse, -⟩ := hr.isValid.hasShape.basisInverse_eq_ok hr.isValid.height_le_width
  exact ⟨⟨r.tableau, inverse, r.initialRows⟩,
    Snapshot.capture_eq_ok.2 ⟨rfl, rfl, hr.isValid, hr.hasShape, hr.hasIdentity, hinverse⟩⟩

/-- The coefficients of a valid tableau whose slack columns form the identity can be captured with
any other valid tableau of that shape. -/
theorem Revision.isCapturable_of_isValid {t raw : Tableau α} (ht : t.IsValid) (hraw : raw.IsValid)
    (hid : raw.rows.HasIdentityAt raw.structural) (hheight : raw.height = t.height)
    (hwidth : raw.width = t.width) : Revision.IsCapturable ⟨t, raw.rows⟩ where
  isValid := ht
  hasShape := hheight ▸ hwidth ▸ hraw.hasShape
  hasIdentity := by
    rw [Tableau.structural, hheight, hwidth] at hid
    exact hid

/-- What a request makes of a tableau: the revision can be captured again, new structural variables
stand before the slack variables, and new slack variables stand last and are basic in the new
rows. -/
structure Revision.Extends (r : Revision α) (t : Tableau α) (request : Request α) : Prop
    extends r.IsCapturable where
  height_eq : r.tableau.height = t.height + request.newRows
  structural_eq : r.tableau.structural = t.structural + request.newNames.length
  names_eq : r.tableau.names =
    Snapshot.spliceAt t.structural request.newNames t.names ++ freshNames t.names request.newRows
  basis_eq : r.tableau.basis = t.basis ++ freshNames t.names request.newRows

namespace Snapshot

variable {s : Snapshot α} {revision : Revision α}

omit [Scalar α] in
@[simp] theorem spliceAt_nil {β : Type} (n : Nat) (list : List β) : spliceAt n [] list = list := by
  rw [spliceAt, List.append_nil, List.take_append_drop]

/-- The tableau of a snapshot with the initial coefficients. -/
def unpivoted (s : Snapshot α) : Tableau α := { s.tableau with rows := s.initialRows }

section

variable (hs : s.IsCaptured)

include hs

theorem IsCaptured.height_unpivoted : s.unpivoted.height = s.tableau.height := hs.hasShape.length_eq

theorem IsCaptured.structural_unpivoted : s.unpivoted.structural = s.tableau.structural := by
  rw [Tableau.structural, hs.height_unpivoted]
  rfl

theorem IsCaptured.isValid_unpivoted : s.unpivoted.IsValid := hs.isValid.replaceRows hs.hasShape

theorem IsCaptured.hasIdentity_unpivoted :
    s.unpivoted.rows.HasIdentityAt s.unpivoted.structural := by
  rw [hs.structural_unpivoted]
  exact hs.hasIdentity

/-! ### One request -/

theorem extends_changeObjective {costs : List α} (h : s.changeObjective costs = .ok revision) :
    revision.Extends s.tableau (.objectiveChange costs) := by
  obtain ⟨hlen, rfl⟩ := changeObjective_eq_ok.1 h
  exact ⟨⟨hs.isValid.replaceCosts hlen.symm, hs.hasShape, hs.hasIdentity⟩, rfl, rfl,
    by simp [Request.newNames, Request.newRows, freshNames],
    by simp [Request.newRows, freshNames]⟩

theorem extends_changeRhs {rhs : List α} (h : s.changeRhs rhs = .ok revision) :
    revision.Extends s.tableau (.rhsChange rhs) := by
  obtain ⟨-, rhs', hproduct, rfl⟩ := changeRhs_eq_ok.1 h
  obtain ⟨-, rfl⟩ := Rows.apply_eq_ok.1 hproduct
  have hlen : (s.basisInverse.map (Rows.dot · rhs)).length = s.tableau.height := by
    rw [List.length_map, hs.hasShape_basisInverse.length_eq]
  exact ⟨⟨hs.isValid.replaceRhs hlen, hs.hasShape, hs.hasIdentity⟩, rfl, rfl,
    by simp [Request.newNames, Request.newRows, freshNames],
    by simp [Request.newRows, freshNames]⟩

theorem extends_addConstraints [LawfulUnits α] {rows : Rows α} {rhs : List α}
    {costs : Option (List α)} (h : s.addConstraints rows rhs costs = .ok revision) :
    revision.Extends s.tableau (.newConstraints rows rhs costs) := by
  have ht := isWellFormed_of_addConstraints hs.isValid h
  obtain ⟨hrhs, hcosts, hnew, rfl⟩ := (addConstraints_eq_ok ht).1 h
  have hcosts' := length_slackCosts hcosts
  have hlen := length_map_folded (s := s) (·.1) hrhs
  have hlen' := length_map_folded (s := s) (·.2) hrhs
  have hfolded :
      ∀ row ∈ (s.folded rows rhs).map (·.1), row.length = s.tableau.width + rows.length :=
    length_row_folded hnew
  rw [← hlen] at hfolded
  -- below the initial coefficients the new rows stand as they were stated
  have hrows : ∀ row ∈ rows, row.length = s.unpivoted.width + rows.length := length_of_isNewRow hnew
  obtain ⟨hslack, hunit⟩ := entry_newRows_beq hs.isValid hnew
  rw [← hs.structural_unpivoted, ← hs.height_unpivoted] at hslack
  have hraw := hs.isValid_unpivoted.withRows hrows hrhs.symm hcosts'
  have hid := hs.isValid_unpivoted.hasIdentity_withRows hrows hrhs.symm hcosts'
    hs.hasIdentity_unpivoted hslack hunit
  have hvalid : (s.constraintRevision rows rhs costs).tableau.IsValid := by
    rw [tableau_constraintRevision hrhs]
    exact hs.isValid.withRows hfolded (hlen'.trans hlen.symm) (hcosts'.trans hlen.symm)
  have hheight : (s.constraintRevision rows rhs costs).tableau.height =
      s.tableau.height + rows.length := by
    rw [tableau_constraintRevision hrhs, Tableau.height_withRows, hlen]
  have hwidth : (s.constraintRevision rows rhs costs).tableau.width =
      s.tableau.width + rows.length := by
    rw [tableau_constraintRevision hrhs, Tableau.width_withRows, hlen]
  refine ⟨Revision.isCapturable_of_isValid hvalid hraw hid ?_ ?_, hheight, ?_, ?_, rfl⟩
  · rw [Tableau.height_withRows, hs.height_unpivoted, hheight]
  · rw [Tableau.width_withRows, hwidth]
    rfl
  · rw [tableau_constraintRevision hrhs]
    exact Tableau.structural_withRows
  · simp [Request.newNames, Request.newRows, constraintRevision]

/-- The new columns, multiplied with the inverse of the basis, have the shape that they had
before. -/
theorem hasShape_transformed {columns transformed : Rows α} {w : Nat}
    (hcolumns : columns.HasShape s.tableau.height w)
    (hproduct : s.basisInverse.mul columns = .ok transformed) :
    transformed.HasShape s.tableau.height w := by
  have hshape := hs.hasShape_basisInverse
  obtain ⟨-, -, rfl⟩ := Rows.mul_eq_ok.1 hproduct
  refine hshape.map fun row hrow => ?_
  have hpos : 0 < s.tableau.height := hshape.length_eq ▸ List.length_pos_of_mem hrow
  rw [hcolumns.width_eq hpos, hcolumns.length_combine]

theorem extends_addVariables {columns : Rows α} {costs : List α} {names : List String}
    (h : s.addVariables columns costs names = .ok revision) :
    revision.Extends s.tableau (.newVariables columns costs names) := by
  obtain ⟨hcolumns, hcosts, hnames, transformed, hproduct, -, rfl⟩ := (addVariables_eq_ok hs).1 h
  have htransformed := hasShape_transformed hs hcolumns hproduct
  -- beside the initial coefficients the new columns stand as they were stated
  have hcolumns' : columns.HasShape s.unpivoted.height names.length :=
    hs.height_unpivoted.symm ▸ hcolumns
  have hid := Tableau.hasIdentity_withColumns hs.isValid_unpivoted hcolumns' hcosts hnames
    hs.hasIdentity_unpivoted
  have hraw := hs.isValid_unpivoted.withColumns hcolumns' hcosts hnames
  have hinitial : List.zipWith (spliceAt s.tableau.structural) columns s.initialRows =
      (s.unpivoted.withColumns columns costs names).rows := by
    rw [Tableau.rows_withColumns, hs.structural_unpivoted]
    rfl
  have hheight : (s.tableau.withColumns transformed costs names).height = s.tableau.height :=
    Tableau.height_withColumns htransformed
  have hwidth : (s.unpivoted.withColumns columns costs names).width =
      (s.tableau.withColumns transformed costs names).width := by
    rw [Tableau.width_withColumns, Tableau.width_withColumns]
    rfl
  rw [hinitial]
  refine ⟨Revision.isCapturable_of_isValid
    (hs.isValid.withColumns htransformed hcosts hnames) hraw hid ?_ hwidth, hheight,
    Tableau.structural_withColumns hs.isValid htransformed, ?_, ?_⟩
  · rw [Tableau.height_withColumns hcolumns', hs.height_unpivoted]
    exact hheight.symm
  · exact (List.append_nil _).symm
  · exact (List.append_nil _).symm

theorem extends_changeCoefficients {rows : Rows α} (h : s.changeCoefficients rows = .ok revision) :
    revision.Extends s.tableau (.coefficientChange rows) := by
  have ht := isWellFormed_of_changeCoefficients hs.isValid h
  obtain ⟨changed, rfl, hrows, hidentity, hshape, -⟩ := hasShape_changed hs ht h
  have hheight : Tableau.height { s.tableau with rows := changed } = s.tableau.height :=
    hshape.length_eq
  have hstructural : Tableau.structural { s.tableau with rows := changed } =
      s.tableau.structural := by
    rw [Tableau.structural, hheight]
    rfl
  refine ⟨⟨hs.isValid.replaceRows hshape, ?_, ?_⟩, hheight, hstructural, ?_, ?_⟩
  · rw [hheight]
    exact hrows
  · rw [hstructural]
    exact hidentity
  · simp [Request.newNames, Request.newRows, freshNames]
  · simp [Request.newRows, freshNames]

/-- Every request that is accepted extends the tableau of the snapshot. -/
theorem extends_apply [LawfulUnits α] {request : Request α} (h : s.apply request = .ok revision) :
    revision.Extends s.tableau request := by
  cases request with
  | objectiveChange costs => exact extends_changeObjective hs h
  | rhsChange rhs => exact extends_changeRhs hs h
  | newConstraints rows rhs costs => exact extends_addConstraints hs h
  | newVariables columns costs names => exact extends_addVariables hs h
  | coefficientChange rows => exact extends_changeCoefficients hs h

end

/-! ### Chains of requests -/

/-- The snapshot after requests that are applied one after another, each revision captured before
the next request. -/
def applyAll (s : Snapshot α) : List (Request α) → Outcome (Snapshot α)
  | [] => .ok s
  | request :: requests => do
    let revision ← s.apply request
    let next ← capture revision.tableau revision.initialRows
    next.applyAll requests

omit [Scalar α] in
theorem sublist_spliceAt {β : Type} (n : Nat) (block list : List β) :
    list.Sublist (spliceAt n block list) := by
  have hkept := (List.sublist_append_left (list.take n) block).append_right (list.drop n)
  rwa [List.take_append_drop] at hkept

theorem applyAll_append (s : Snapshot α) (requests later : List (Request α)) :
    s.applyAll (requests ++ later) = s.applyAll requests >>= fun s' => s'.applyAll later := by
  induction requests generalizing s with
  | nil => rfl
  | cons request requests ih =>
    rw [List.cons_append, applyAll, applyAll, bind_assoc]
    refine bind_congr fun revision => ?_
    rw [bind_assoc]
    exact bind_congr fun next => ih next

/-- Two requests, the second of which revises the capture of the first revision. -/
theorem applyAll_pair {s' : Snapshot α} {first second : Request α}
    {r r' : Revision α} (hfirst : s.apply first = .ok r)
    (hcapture : capture r.tableau r.initialRows = .ok s') (hsecond : s'.apply second = .ok r') :
    s.applyAll [first, second] = capture r'.tableau r'.initialRows := by
  rw [applyAll, hfirst, Outcome.ok_bind, hcapture, Outcome.ok_bind, applyAll, hsecond,
    Outcome.ok_bind]
  exact bind_pure _

/-- What a chain of requests makes of a snapshot. -/
structure Follows (s s' : Snapshot α) (requests : List (Request α)) : Prop
    extends s'.IsCaptured where
  height_eq : s'.tableau.height = s.tableau.height + (requests.map (·.newRows)).sum
  structural_eq :
    s'.tableau.structural = s.tableau.structural + (requests.map (·.newNames.length)).sum
  names_sublist : s.tableau.names.Sublist s'.tableau.names

variable [LawfulUnits α]

/-- Whatever is accepted can be captured, so a chain is cut short only where a request is
refused. -/
theorem applyAll_cons (hs : s.IsCaptured) (request : Request α) (requests : List (Request α)) :
    (∃ failure, s.apply request = .error failure ∧
        s.applyAll (request :: requests) = .error failure) ∨
      ∃ revision s', s.apply request = .ok revision ∧ revision.Extends s.tableau request ∧
        capture revision.tableau revision.initialRows = .ok s' ∧
        s.applyAll (request :: requests) = s'.applyAll requests := by
  cases h : s.apply request with
  | error failure => exact .inl ⟨failure, rfl, by rw [applyAll, h]; rfl⟩
  | ok revision =>
    have hextends := extends_apply hs h
    obtain ⟨s', hs'⟩ := hextends.exists_capture_eq_ok
    exact .inr ⟨revision, s', rfl, hextends, hs', by rw [applyAll, h, Outcome.ok_bind, hs']; rfl⟩

/-- A chain of requests keeps snapshots what they are when they are captured. -/
theorem follows_applyAll (hs : s.IsCaptured) {requests : List (Request α)} {s' : Snapshot α}
    (h : s.applyAll requests = .ok s') : s.Follows s' requests := by
  -- on the requests, with what holds of every captured snapshot as the invariant
  induction requests generalizing s with
  | nil =>
    cases h
    exact ⟨hs, rfl, rfl, .refl _⟩
  | cons request requests ih =>
    rcases applyAll_cons hs request requests with
      ⟨failure, -, herror⟩ | ⟨revision, next, -, hextends, hcapture, hnext⟩
    · rw [herror] at h
      cases h
    · rw [hnext] at h
      obtain ⟨htableau, -, hnextCaptured⟩ := capture_eq_ok.1 hcapture
      have hrest := ih hnextCaptured h
      have hkept : s.tableau.names.Sublist revision.tableau.names :=
        hextends.names_eq ▸ (sublist_spliceAt _ _ _).trans (List.sublist_append_left _ _)
      refine ⟨hrest.toIsCaptured, ?_, ?_, ?_⟩
      · rw [hrest.height_eq, htableau, hextends.height_eq, List.map_cons, List.sum_cons,
          Nat.add_assoc]
      · rw [hrest.structural_eq, htableau, hextends.structural_eq, List.map_cons, List.sum_cons,
          Nat.add_assoc]
      · exact (htableau ▸ hkept).trans hrest.names_sublist

end Snapshot

/-- One product that needs one resource, whose variable is called as a slack variable would be. -/
def Tableau.oneResource : Tableau Float where
  rows := [[2, 1]]
  rhs := [3]
  costs := [1, 0]
  names := ["s1", "s2"]
  basis := ["s2"]

namespace Snapshot

/-- Snapshots are closed under requests. From a snapshot that has been captured, any chain of
requests that are accepted, whatever numbers they hold, leads to a snapshot with matching lengths,
distinct names and the identity in the slack columns of its initial coefficients, which has grown by
the variables and the rows that were asked for. The same holds of every revision of that snapshot:
the new slack variables have new names that differ from each other, stand last and are basic in the
new rows, the new structural variables stand before the slack variables, the old variables keep
their order, and the revision can be captured. -/
theorem isClosed_applyAll {t : Tableau Float} {initialRows : Rows Float} {s₀ s : Snapshot Float}
    {requests : List (Request Float)} (hcapture : capture t initialRows = .ok s₀)
    (hchain : s₀.applyAll requests = .ok s) :
    (s.tableau.validate = .ok () ∧
      s.initialRows.HasShape s.tableau.height s.tableau.width ∧
      s.initialRows.HasIdentityAt s.tableau.structural ∧
      s.tableau.height = t.height + (requests.map (·.newRows)).sum ∧
      s.tableau.structural = t.structural + (requests.map (·.newNames.length)).sum ∧
      t.names.Sublist s.tableau.names) ∧
    ∀ request revision, s.apply request = .ok revision →
      revision.tableau.validate = .ok () ∧
      revision.initialRows.HasShape revision.tableau.height revision.tableau.width ∧
      revision.initialRows.HasIdentityAt revision.tableau.structural ∧
      revision.tableau.height = s.tableau.height + request.newRows ∧
      revision.tableau.structural = s.tableau.structural + request.newNames.length ∧
      (∃ slacks, slacks.length = request.newRows ∧ slacks.Nodup ∧
        (∀ name ∈ slacks, name ∉ s.tableau.names) ∧
        revision.tableau.names =
          spliceAt s.tableau.structural request.newNames s.tableau.names ++ slacks ∧
        revision.tableau.basis = s.tableau.basis ++ slacks) ∧
      s.tableau.names.Sublist revision.tableau.names ∧
      ∃ s', capture revision.tableau revision.initialRows = .ok s' ∧
        s₀.applyAll (requests ++ [request]) = .ok s' := by
  obtain ⟨rfl, -, hs₀⟩ := capture_eq_ok.1 hcapture
  have hs := follows_applyAll hs₀ hchain
  refine ⟨⟨Tableau.validate_eq_ok.2 hs.isValid, hs.hasShape, hs.hasIdentity, hs.height_eq,
    hs.structural_eq, hs.names_sublist⟩, fun request revision happly => ?_⟩
  have hextends := extends_apply hs.toIsCaptured happly
  have hnodup := nodup_append_freshNames hs.isValid.nodup_names request.newRows
  obtain ⟨-, hslacks, hnew⟩ := List.nodup_append'.1 hnodup
  obtain ⟨s', hs'⟩ := hextends.exists_capture_eq_ok
  refine ⟨Tableau.validate_eq_ok.2 hextends.isValid, hextends.hasShape, hextends.hasIdentity,
    hextends.height_eq, hextends.structural_eq, ⟨_, length_freshNames _ _, hslacks,
      fun name hname hold => hnew hold hname, hextends.names_eq, hextends.basis_eq⟩, ?_,
      s', hs', ?_⟩
  · rw [hextends.names_eq]
    exact (sublist_spliceAt _ _ _).trans (List.sublist_append_left _ _)
  · rw [applyAll_append, hchain, Outcome.ok_bind, applyAll, happly, Outcome.ok_bind, hs']
    rfl

/-- A right-hand side that is infinite and coefficients that are no numbers do not disturb a chain.
The new slack variables pass over the names that are taken. -/
theorem isClosed_applyAll_oneResource :
    ∃ s₀ s revision s',
      capture Tableau.oneResource Tableau.oneResource.rows = .ok s₀ ∧
      s₀.applyAll [.newConstraints [[1, 0, 1]] [Double.infinity] none,
        .newVariables [[0 / 0], [1]] [0 / 0] ["y"]] = .ok s ∧
      s.tableau.names = ["s1", "y", "s2", "s3"] ∧
      s.apply (.newConstraints [[1, 1, 0, 0, 1]] [0 / 0] none) = .ok revision ∧
      revision.tableau.names = ["s1", "y", "s2", "s3", "s4"] ∧
      revision.tableau.basis = ["s2", "s3", "s4"] ∧
      revision.tableau.validate = .ok () ∧
      revision.initialRows.HasIdentityAt revision.tableau.structural ∧
      capture revision.tableau revision.initialRows = .ok s' := by
  have hrun : (do
      let s₀ ← capture Tableau.oneResource Tableau.oneResource.rows
      let s ← s₀.applyAll [.newConstraints [[1, 0, 1]] [Double.infinity] none,
        .newVariables [[0 / 0], [1]] [0 / 0] ["y"]]
      let revision ← s.apply (.newConstraints [[1, 1, 0, 0, 1]] [0 / 0] none)
      pure (s.tableau.names, revision.tableau.names, revision.tableau.basis)) =
      (.ok (["s1", "y", "s2", "s3"], ["s1", "y", "s2", "s3", "s4"], ["s2", "s3", "s4"]) :
        Outcome (List String × List String × List String)) := by
    decide +kernel
  obtain ⟨s₀, hcapture, hrun⟩ := Outcome.bind_eq_ok.1 hrun
  obtain ⟨s, hchain, hrun⟩ := Outcome.bind_eq_ok.1 hrun
  obtain ⟨revision, happly, hrun⟩ := Outcome.bind_eq_ok.1 hrun
  obtain ⟨hnames, hrevision⟩ := Prod.mk.inj (Except.ok.inj hrun)
  obtain ⟨hnames', hbasis'⟩ := Prod.mk.inj hrevision
  obtain ⟨hvalid, -, hidentity, -, -, -, -, s', hs', -⟩ :=
    (isClosed_applyAll hcapture hchain).2 _ _ happly
  exact ⟨s₀, s, revision, s', hcapture, hchain, hnames, happly, hnames', hbasis', hvalid, hidentity,
    hs'⟩

end Snapshot

end LinProg
