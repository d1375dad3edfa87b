import LinProg.Proofs.Search

/-!
# Searches of bounded programs are finite

The bounds that a search adds to a relaxation are not kept anywhere but in its rows. Still every
feasible point of a relaxation lies between whole bounds on the required variables, and the room
between them is a measure: the fractional value at which a relaxation is split lies strictly between
two whole numbers of that room, so both halves have less room than the whole. A relaxation with a
given room has therefore no more nodes below it than a binary tree of that depth.
-/

namespace LinProg

/-! ### The room between bounds -/

/-- The values of the required variables at feasible points lie between whole bounds that leave at
most the given room in all. -/
def Tableau.IsBoxed (t : Tableau ℚ) (integer : List Bool) (room : ℕ) : Prop :=
  ∃ lower upper : ℕ → ℤ,
    ∑ j ∈ Finset.range integer.length, (upper j - lower j).toNat ≤ room ∧
      ∀ y, t.IsFeasible y → ∀ j, integer[j]? = some true → (lower j : ℚ) ≤ y j ∧ y j ≤ upper j

/-- A value that is not whole is rounded to whole numbers between any two whole bounds. -/
theorem floor_ceil_of_not_whole {v : ℚ} (hv : ∀ n : ℤ, v ≠ n) {l u : ℤ} (hl : (l : ℚ) ≤ v)
    (hu : v ≤ u) : (l ≤ v.floor ∧ v.floor < u) ∧ l < v.ceil ∧ v.ceil ≤ u := by
  have hlt : (l : ℚ) < v := lt_of_le_of_ne hl (hv l).symm
  have hgt : v < u := lt_of_le_of_ne hu (hv u)
  have hfloor : (v.floor : ℚ) ≤ v := Rat.le_floor_iff.1 le_rfl
  have hceil : v ≤ (v.ceil : ℚ) := Rat.ceil_le_iff.1 le_rfl
  refine ⟨⟨Rat.le_floor_iff.2 hl, ?_⟩, ?_, Rat.ceil_le_iff.2 hu⟩
  · exact_mod_cast hfloor.trans_lt hgt
  · exact_mod_cast hlt.trans_le hceil

/-- Bounds that are moved together in one position leave less room. -/
theorem sum_room_lt (lower upper lower' upper' : ℕ → ℤ) {n column : ℕ} (hcolumn : column < n)
    (hle : ∀ j, lower j ≤ lower' j ∧ upper' j ≤ upper j) (hpos : lower column < upper column)
    (hlt : upper' column - lower' column < upper column - lower column) :
    ∑ j ∈ Finset.range n, (upper' j - lower' j).toNat <
      ∑ j ∈ Finset.range n, (upper j - lower j).toNat := by
  refine Finset.sum_lt_sum (fun j _ => ?_) ⟨column, Finset.mem_range.2 hcolumn, ?_⟩
  · have := hle j
    omega
  · omega

/-- Where a required variable is bounded by a whole number next to a fractional value that it takes,
there is less room. -/
theorem Tableau.IsBoxed.split {t lower upper : Tableau ℚ} {integer : List Bool} {room : ℕ}
    (h : t.IsBoxed integer room) {column : ℕ} (hrequired : integer[column]? = some true) {y : ℕ → ℚ}
    (hy : t.IsFeasible y) (hfractional : ∀ n : ℤ, y column ≠ n)
    (hlower : ∀ z, lower.IsFeasible z → t.IsFeasible z ∧ z column ≤ ((y column).floor : ℚ))
    (hupper : ∀ z, upper.IsFeasible z → t.IsFeasible z ∧ ((y column).ceil : ℚ) ≤ z column) :
    ∃ k, room = k + 1 ∧ lower.IsBoxed integer k ∧ upper.IsBoxed integer k := by
  obtain ⟨l, u, hroom, hbounds⟩ := h
  have hcolumn : column < integer.length := (List.getElem?_eq_some_iff.1 hrequired).1
  obtain ⟨hl, hu⟩ := hbounds y hy column hrequired
  obtain ⟨⟨hlfloor, hfloor⟩, hceil, hceilu⟩ := floor_ceil_of_not_whole hfractional hl hu
  have hbelow := sum_room_lt l u l (Function.update u column (y column).floor) hcolumn
    (fun j => ⟨le_rfl, update_le_self_iff.2 hfloor.le j⟩) (hlfloor.trans_lt hfloor) (by simpa)
  have habove := sum_room_lt l u (Function.update l column (y column).ceil) u hcolumn
    (fun j => ⟨le_update_self_iff.2 hceil.le j, le_rfl⟩) (hceil.trans_le hceilu) (by simpa)
  obtain ⟨k, rfl⟩ : ∃ k, room = k + 1 := ⟨room - 1, by omega⟩
  refine ⟨k, rfl, ⟨l, _, Nat.le_of_lt_succ (hbelow.trans_le hroom), fun z hz j hj => ?_⟩,
    ⟨_, u, Nat.le_of_lt_succ (habove.trans_le hroom), fun z hz j hj => ?_⟩⟩
  · obtain ⟨hz', hle⟩ := hlower z hz
    obtain ⟨hlj, huj⟩ := hbounds z hz' j hj
    refine ⟨hlj, ?_⟩
    rcases eq_or_ne j column with rfl | hne
    · rwa [Function.update_self]
    · rwa [Function.update_of_ne hne]
  · obtain ⟨hz', hle⟩ := hupper z hz
    obtain ⟨hlj, huj⟩ := hbounds z hz' j hj
    refine ⟨?_, huj⟩
    rcases eq_or_ne j column with rfl | hne
    · rwa [Function.update_self]
    · rwa [Function.update_of_ne hne]

/-- A tableau whose required variables are bounded from above has some room. -/
theorem Tableau.exists_isBoxed {t : Tableau ℚ} {integer : List Bool}
    (hlen : integer.length = t.structural)
    (hbounded : ∀ j, integer[j]? = some true → ∃ u, ∀ y, t.IsFeasible y → y j ≤ u) :
    ∃ room, t.IsBoxed integer room := by
  choose! u hu using hbounded
  refine ⟨_, fun _ => 0, fun j => ⌈u j⌉, le_rfl, fun y hy j hj => ⟨?_, ?_⟩⟩
  · have hj' : j < t.width :=
      (hlen ▸ (List.getElem?_eq_some_iff.1 hj).1 : j < t.structural).trans_le (Nat.sub_le _ _)
    simpa using hy.nonneg j hj'
  · exact (hu j hj y hy).trans (Int.le_ceil _)

namespace BranchAndBound

/-! ### One split -/

variable {t : Tableau ℚ} {integer : List Bool}

/-- A node is split at a fractional value that a required variable takes at a feasible point, and in
each half the variable is bounded by a whole number next to that value. -/
theorem exists_fractional_of_split {b : BranchAndBound ℚ} {node : Node ℚ}
    (hnode : node.revision.Narrows t) (hlen : integer.length = t.structural) {bound : Option ℚ}
    {number : Nat} {lower upper : Revision ℚ}
    (h : (b.visit integer bound number node).outcome = .ok (.split lower upper)) :
    ∃ column y, integer[column]? = some true ∧ node.revision.tableau.IsFeasible y ∧
      (∀ n : ℤ, y column ≠ n) ∧
      (∀ z, lower.tableau.IsFeasible z →
        node.revision.tableau.IsFeasible z ∧ z column ≤ ((y column).floor : ℚ)) ∧
      ∀ z, upper.tableau.IsFeasible z →
        node.revision.tableau.IsFeasible z ∧ ((y column).ceil : ℚ) ≤ z column := by
  obtain ⟨solution, hrun, hfinds⟩ := finds_of_visit h
  obtain ⟨raw, hraw, -⟩ := hnode.exists_underlies
  obtain ⟨hcanonical, hsame⟩ := Solver.isCanonical_of_run hraw.isCanonical hrun
  cases hfinds with
  | @split column value s _ _ hstatus _ hfound hsplit =>
    obtain ⟨hpoint, -, -⟩ := Solver.optimal_of_run hraw.isCanonical hrun hstatus
    obtain ⟨i, hi, hbasic, hvalue, hrequired, hfractional⟩ :=
      fractional?_eq_some hcanonical.toIsWellFormed hfound
    have hpointValue : solution.tableau.basicPoint column = value := by
      rw [← hbasic, Tableau.basicPoint, hcanonical.atBasis_basicColumn _ hi, Tableau.rhsAt,
        List.getD_eq_getElem?_getD, hvalue, Option.getD_some]
    have hcolumn : column < solution.tableau.structural := by
      rw [hsame.structural_eq, hnode.structural_eq, ← hlen]
      exact (List.getElem?_eq_some_iff.1 hrequired).1
    -- both halves are revisions of the last tableau of the run, which states the program of the
    -- node
    obtain ⟨htableau, -, rfl, rfl⟩ := hsplit.eq_boundRevision hcanonical.toIsWellFormed hcolumn
    have hunder := hraw.run hrun
    rw [← htableau] at hunder hcolumn hsame
    refine ⟨column, solution.tableau.basicPoint, hrequired, hpoint, ?_, ?_, ?_⟩
    · rw [hpointValue]
      rintro n rfl
      rw [isInteger_iff.2 ⟨n, rfl⟩] at hfractional
      cases hfractional
    · intro z hz
      rw [isFeasible_boundRevision hunder hcolumn] at hz
      obtain ⟨hz, hslack, hbound⟩ := hz
      rw [hpointValue]
      refine ⟨hsame.isFeasible_iff.1 hz, ?_⟩
      have hfloor : (Arithmetic.floor value : ℚ) = (value.floor : ℚ) := rfl
      linarith
    · intro z hz
      rw [isFeasible_boundRevision hunder hcolumn] at hz
      obtain ⟨hz, hslack, hbound⟩ := hz
      rw [hpointValue]
      refine ⟨hsame.isFeasible_iff.1 hz, ?_⟩
      have hceil : (Arithmetic.ceil value : ℚ) = (value.ceil : ℚ) := rfl
      linarith

end BranchAndBound

/-! ### The whole search -/

/-- The number of nodes of a binary tree of the given depth. -/
def treeSize : ℕ → ℕ
  | 0 => 1
  | depth + 1 => treeSize depth + treeSize depth + 1

theorem treeSize_pos (depth : ℕ) : 0 < treeSize depth := by
  cases depth <;> exact Nat.succ_pos _

/-- The nodes that have been visited, and those that the room of the nodes on the stack still
allows, are at most the given number. -/
def Search.FitsIn (s : Search ℚ) (integer : List Bool) (n : ℕ) : Prop :=
  ∃ rooms : List ℕ,
    List.Forall₂ (fun node room => node.revision.tableau.IsBoxed integer room) s.stack rooms ∧
      s.visited + (rooms.map treeSize).sum ≤ n

theorem Search.FitsIn.visited_le {s : Search ℚ} {integer : List Bool} {n : ℕ}
    (hs : s.FitsIn integer n) : s.visited ≤ n := by
  obtain ⟨rooms, -, hle⟩ := hs
  omega

/-- A search that still has a node to visit has visited fewer nodes. -/
theorem Search.FitsIn.visited_lt {s : Search ℚ} {integer : List Bool} {n : ℕ}
    (hs : s.FitsIn integer n) {node : Node ℚ} {rest : List (Node ℚ)}
    (hstack : s.stack = node :: rest) : s.visited < n := by
  obtain ⟨rooms, hrooms, hle⟩ := hs
  rw [hstack, List.forall₂_cons_left_iff] at hrooms
  obtain ⟨room, rooms, -, -, rfl⟩ := hrooms
  have hpos := treeSize_pos room
  rw [List.map_cons, List.sum_cons] at hle
  omega

namespace BranchAndBound

variable {t : Tableau ℚ} {integer : List Bool} {b : BranchAndBound ℚ}

/-- A visit replaces a node by nothing, or by two nodes with less room. -/
theorem Steps.fitsIn {s s' : Search ℚ} (h : b.Steps integer s s')
    (hlen : integer.length = t.structural) (hs : s.IsSound t integer b.incumbent) {n : ℕ}
    (hfits : s.FitsIn integer n) : s'.FitsIn integer n := by
  obtain ⟨node, rest, visit, hstack, hvisit, rfl⟩ := h
  obtain ⟨rooms, hrooms, hle⟩ := hfits
  rw [hstack, List.forall₂_cons_left_iff] at hrooms
  obtain ⟨room, rooms, hroom, hrest, rfl⟩ := hrooms
  rw [List.map_cons, List.sum_cons] at hle
  have hpos := treeSize_pos room
  have hdone : s.visited + 1 + (rooms.map treeSize).sum ≤ n := by omega
  cases visit with
  | infeasible => exact ⟨rooms, hrest, hdone⟩
  | pruned => exact ⟨rooms, hrest, hdone⟩
  | integral objective assignment tableau => exact ⟨rooms, hrest, hdone⟩
  | split lower upper =>
    obtain ⟨column, y, hrequired, hy, hfractional, hlower, hupper⟩ :=
      exists_fractional_of_split (hs.narrows node (hstack ▸ List.mem_cons_self)) hlen hvisit
    obtain ⟨k, rfl, hlowerBoxed, hupperBoxed⟩ :=
      hroom.split hrequired hy hfractional hlower hupper
    refine ⟨k :: k :: rooms, .cons hlowerBoxed (.cons hupperBoxed hrest), ?_⟩
    rw [treeSize] at hle
    simp only [record, List.map_cons, List.sum_cons]
    omega

/-- In every state of a search from a tableau with some room, the nodes that have been visited and
those that the room still allows are no more than those of a binary tree of that depth. -/
theorem fitsIn_of_reflTransGen (ht : t.IsCanonical) (hid : t.rows.HasIdentityAt t.structural)
    (hlen : integer.length = t.structural) {room : ℕ} (hroom : t.IsBoxed integer room)
    {s : Search ℚ} (h : Relation.ReflTransGen (b.Steps integer) (b.start t) s) :
    s.FitsIn integer (treeSize room) := by
  have hstart : (b.start t).FitsIn integer (treeSize room) :=
    ⟨[room], .cons hroom .nil, by simp [start]⟩
  have hinvariant := invariant_of_reflTransGen
    (P := fun s => s.IsSound t integer b.incumbent ∧ s.FitsIn integer (treeSize room))
    (fun _ _ hstep h => ⟨hstep.isSound hlen h.1, hstep.fitsIn hlen h.1 h.2⟩) h
    ⟨Search.isSound_start b ht hid, hstart⟩
  exact hinvariant.2

/-- A search that may visit as many nodes as there is room for does not end for want of nodes, nor
of pivots if the runs of its nodes come to an end. -/
theorem solve_ne_iterationLimit (ht : t.IsCanonical) (hid : t.rows.HasIdentityAt t.structural)
    (hlen : integer.length = t.structural) {room : ℕ} (hroom : t.IsBoxed integer room)
    (hnodes : treeSize room ≤ b.maxNodes)
    (hruns : ∀ s node rest, Relation.ReflTransGen (b.Steps integer) (b.start t) s →
      s.stack = node :: rest → (b.solver.resolve node.revision).outcome ≠
        Outcome.refuse (.iterationLimit b.solver.maxIterations)) (limit : Nat) :
    (b.solve t integer).outcome ≠ Outcome.refuse (.iterationLimit limit) := by
  obtain ⟨s, hreaches, hends⟩ := b.solve_spec ht.toIsValid hlen
  intro hlimit
  rw [hlimit] at hends
  generalize houtcome : Outcome.refuse (.iterationLimit limit) = outcome at hends
  cases hends with
  | found => cases houtcome
  | exhausted => cases houtcome
  | limited hstack hvisited =>
    have hlt := (fitsIn_of_reflTransGen ht hid hlen hroom hreaches).visited_lt hstack
    omega
  | @failed node rest failure hstack hfailure =>
    obtain rfl : failure = .refused (.iterationLimit limit) := (Except.error.inj houtcome).symm
    have hready := isReady_of_reflTransGen ht.toIsWellFormed hid hlen hreaches node
      (hstack ▸ List.mem_cons_self)
    rcases b.visit_of_isReady hready s.bound (s.visited + 1) with ⟨visit, hok, -⟩ | hfails
    · rw [hfailure] at hok
      cases hok
    · rw [hfailure] at hfails
      cases hfails with
      | limited hrun => exact hruns s node rest hreaches hstack hrun

/-- A search of a program whose required variables are bounded from above visits no more than a
certain number of nodes, whatever is known before and whatever the limits are. With so many nodes
allowed, and if the run of each node that is visited comes to an end, the search does not end for
want of nodes. -/
theorem exists_nodes_le (ht : t.IsCanonical) (hid : t.rows.HasIdentityAt t.structural)
    (hbounded : ∀ j, integer[j]? = some true → ∃ u, ∀ y, t.IsFeasible y → y j ≤ u) :
    ∃ n, ∀ b : BranchAndBound ℚ,
      (integer.length = t.structural → ∀ s,
        Relation.ReflTransGen (b.Steps integer) (b.start t) s → s.visited ≤ n) ∧
      (n ≤ b.maxNodes →
        (∀ s node rest, Relation.ReflTransGen (b.Steps integer) (b.start t) s →
          s.stack = node :: rest → (b.solver.resolve node.revision).outcome ≠
            Outcome.refuse (.iterationLimit b.solver.maxIterations)) →
        ∀ limit, (b.solve t integer).outcome ≠ Outcome.refuse (.iterationLimit limit)) := by
  by_cases hlen : integer.length = t.structural
  · obtain ⟨room, hroom⟩ := Tableau.exists_isBoxed hlen hbounded
    refine ⟨treeSize room, fun b => ⟨fun _ s hreaches => ?_, fun hnodes hruns => ?_⟩⟩
    · exact (fitsIn_of_reflTransGen ht hid hlen hroom hreaches).visited_le
    · exact solve_ne_iterationLimit ht hid hlen hroom hnodes hruns
  · refine ⟨0, fun b => ⟨fun h => absurd h hlen, fun _ _ limit => ?_⟩⟩
    rw [b.solve_of_length_ne ht.toIsValid hlen]
    exact fun h => by cases h

/-- The first resource allows no more than five units of either product. With enough nodes the
search ends with a solution or without one, for no run of a node is cut off. -/
theorem exists_nodes_le_wholeUnits :
    let t := Tableau.wholeUnits
    t.IsCanonical ∧ t.rows.HasIdentityAt t.structural ∧
      (∀ j, [true, true][j]? = some true → ∃ u, ∀ y, t.IsFeasible y → y j ≤ u) ∧
      ∃ n, (∀ b : BranchAndBound ℚ, ∀ s,
          Relation.ReflTransGen (b.Steps [true, true]) (b.start t) s → s.visited ≤ n) ∧
        ∀ maxNodes ≥ n, ∀ limit, (({ maxNodes } : BranchAndBound ℚ).solve t [true, true]).outcome ≠
          Outcome.refuse (.iterationLimit limit) := by
  intro t
  have hcanonical : t.IsCanonical := by decide +kernel
  have hid : t.rows.HasIdentityAt t.structural := by decide +kernel
  have hbounded : ∀ j, [true, true][j]? = some true → ∃ u, ∀ y, t.IsFeasible y → y j ≤ u := by
    intro j hj
    refine ⟨5, fun y hy => ?_⟩
    have hrow : y 0 + y 1 + y 2 = 5 := by
      simpa [t, Tableau.wholeUnits, Tableau.width, Tableau.rhsAt, Rows.entry,
        Finset.sum_range_succ] using hy.row_eq 0 (by decide)
    have hnonneg : ∀ k < 4, 0 ≤ y k := hy.nonneg
    have hx := hnonneg 0 (by decide)
    have hy := hnonneg 1 (by decide)
    have hs := hnonneg 2 (by decide)
    have hj' : j < 2 := (List.getElem?_eq_some_iff.1 hj).1
    interval_cases j <;> linarith
  -- the number of nodes that are allowed makes no difference to a node
  have hfound : (·.objective) <$> (({} : BranchAndBound ℚ).explore [true, true] 20
      (({} : BranchAndBound ℚ).start t)).outcome = .ok 23 := by
    decide +kernel
  obtain ⟨solution, hsolution, -⟩ := Outcome.map_eq_ok.1 hfound
  have hruns : ∀ s node rest, Relation.ReflTransGen (({} : BranchAndBound ℚ).Steps [true, true])
      (({} : BranchAndBound ℚ).start t) s → s.stack = node :: rest → ∀ limit,
      (({} : Solver).resolve node.revision).outcome ≠ Outcome.refuse (.iterationLimit limit) := by
    intro s node rest hreaches hstack limit hlimit
    obtain ⟨_, hrest⟩ := exists_explore_of_reflTransGen hreaches hsolution
    obtain ⟨visit, _, hvisit, -⟩ := exists_visit_of_explore_eq_ok hrest hstack
    obtain ⟨solution, hrun, -⟩ := finds_of_visit hvisit
    rw [hlimit] at hrun
    cases hrun
  obtain ⟨n, hn⟩ := exists_nodes_le hcanonical hid hbounded
  refine ⟨hcanonical, hid, hbounded, n, fun b => (hn b).1 rfl, fun maxNodes hnodes => ?_⟩
  exact (hn { maxNodes }).2 hnodes fun s node rest hreaches hstack =>
    hruns s node rest hreaches hstack _

end BranchAndBound

end LinProg
