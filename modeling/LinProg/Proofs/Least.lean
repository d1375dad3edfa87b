import Mathlib.Data.List.Induction
import Mathlib.Data.Rat.Floor
import Mathlib.Tactic.Linarith
import LinProg.Proofs.Units
import LinProg.Arithmetic.Exact
import LinProg.Least

/-!
# The position of a least value

The least value is found by going through the values from the first to the last. `bestPosition` is
the position, with its corrected value, that has been kept at the end; it is described by what one
further value changes. A position is found exactly if some position has a value, and it has a value.
In exact arithmetic no other value is smaller.
-/

namespace LinProg

section

variable {α : Type} [Scalar α] (precedes : Nat → Nat → Bool)

/-- The position kept after all values, with its corrected value. -/
def bestPosition (values : List (Option α)) : Option (Nat × α) :=
  values.zipIdx.foldl
    (fun best (value, i) =>
      match value with
      | some value => better precedes best i (Scalar.correct value)
      | none => best)
    none

theorem leastIndexBy?_eq_map (values : List (Option α)) :
    leastIndexBy? precedes values = (bestPosition precedes values).map (·.1) := rfl

theorem bestPosition_nil : bestPosition precedes ([] : List (Option α)) = none := rfl

theorem bestPosition_concat_none (values : List (Option α)) :
    bestPosition precedes (values ++ [none]) = bestPosition precedes values := by
  simp [bestPosition, List.zipIdx_append]

/-- A further value competes with the best position among the values before it. -/
theorem bestPosition_concat_some (values : List (Option α)) (v : α) :
    bestPosition precedes (values ++ [some v]) =
      better precedes (bestPosition precedes values) values.length (Scalar.correct v) := by
  simp [bestPosition, List.zipIdx_append]

variable {precedes}

/-- The better one of two positions is one of the two. -/
theorem better_cases (precedes : Nat → Nat → Bool) (best : Option (Nat × α)) (i : Nat) (v : α) :
    better precedes best i v = some (i, v) ∨
      ∃ holder, best = some holder ∧ better precedes best i v = some holder := by
  unfold better
  cases best with
  | none => exact .inl rfl
  | some holder =>
    dsimp only
    split
    · exact .inl rfl
    · exact .inr ⟨holder, rfl, rfl⟩

/-- No position is kept exactly if no position has a value. -/
theorem bestPosition_eq_none {values : List (Option α)} :
    bestPosition precedes values = none ↔ ∀ v ∈ values, v = none := by
  induction values using List.reverseRecOn with
  | nil => simp [bestPosition_nil]
  | append_singleton values v ih =>
    cases v with
    | none => simp [bestPosition_concat_none, ih, or_imp]
    | some v =>
      rw [bestPosition_concat_some]
      rcases better_cases precedes (bestPosition precedes values) values.length
        (Scalar.correct v) with h | ⟨holder, -, h⟩ <;> simp [h, or_imp, forall_and]

/-- The position that is kept has a value, and is kept with its corrected value. -/
theorem getElem?_of_bestPosition {values : List (Option α)} {i : Nat} {w : α}
    (h : bestPosition precedes values = some (i, w)) :
    ∃ v, values[i]? = some (some v) ∧ w = Scalar.correct v := by
  induction values using List.reverseRecOn with
  | nil => simp [bestPosition_nil] at h
  | append_singleton values v ih =>
    have hbefore : bestPosition precedes values = some (i, w) →
        ∃ v', (values ++ [v])[i]? = some (some v') ∧ w = Scalar.correct v' := by
      intro h
      obtain ⟨v', hv', hw⟩ := ih h
      have hi := (List.getElem?_eq_some_iff.1 hv').1
      exact ⟨v', by rw [List.getElem?_append_left hi, hv'], hw⟩
    cases v with
    | none => exact hbefore (bestPosition_concat_none precedes values ▸ h)
    | some v =>
      rw [bestPosition_concat_some] at h
      rcases better_cases precedes (bestPosition precedes values) values.length
        (Scalar.correct v) with hnew | ⟨holder, hbest, hold⟩
      · rw [hnew, Option.some_inj, Prod.mk.injEq] at h
        obtain ⟨rfl, rfl⟩ := h
        exact ⟨v, by simp, rfl⟩
      · rw [hold] at h
        exact hbefore (hbest.trans h)

theorem leastIndexBy?_eq_none {values : List (Option α)} :
    leastIndexBy? precedes values = none ↔ ∀ v ∈ values, v = none := by
  rw [leastIndexBy?_eq_map, Option.map_eq_none_iff, bestPosition_eq_none]

theorem getElem?_of_leastIndexBy? {values : List (Option α)} {i : Nat}
    (h : leastIndexBy? precedes values = some i) : ∃ v, values[i]? = some (some v) := by
  rw [leastIndexBy?_eq_map, Option.map_eq_some_iff] at h
  obtain ⟨⟨i, w⟩, h, rfl⟩ := h
  obtain ⟨v, hv, -⟩ := getElem?_of_bestPosition h
  exact ⟨v, hv⟩

end

section

variable {α : Type} [Scalar α] [LawfulUnits α]

open Scalar Arithmetic

/-- A value that is read as negative is read as less than each value that is not. -/
def SeparatesNegative (values : List α) : Prop :=
  ∀ v ∈ values, ∀ w ∈ values, isNegative v = true → isNegative w = false → correct v < correct w

theorem separatesNegative_of_isFinite {values : List α} (h : ∀ v ∈ values, isFinite v = true) :
    SeparatesNegative values :=
  fun _ _ w hw hneg hnot => LawfulUnits.lt_of_isNegative hneg (h w hw) hnot

/-- The best position has a negative value if there is one. -/
theorem bestPosition_lt_zero {values : List α} (hseparates : SeparatesNegative values)
    (hneg : ∃ v ∈ values, isNegative v = true) {i : Nat} {w : α}
    (h : bestPosition (fun _ _ => false) (values.map some) = some (i, w)) : w < 0 := by
  induction values using List.reverseRecOn generalizing i w with
  | nil => simp [bestPosition_nil] at h
  | append_singleton values v ih =>
    have hbefore : SeparatesNegative values := fun v hv w hw =>
      hseparates v (List.mem_append_left _ hv) w (List.mem_append_left _ hw)
    rw [List.map_append, List.map_singleton, bestPosition_concat_some] at h
    obtain ⟨u, hu, huneg⟩ := hneg
    have hcases : (∃ u ∈ values, isNegative u = true) ∨ isNegative v = true := by
      rcases List.mem_append.1 hu with hu | hu
      · exact .inl ⟨u, hu, huneg⟩
      · exact .inr (List.mem_singleton.1 hu ▸ huneg)
    unfold better at h
    cases hbest : bestPosition (fun _ _ => false) (values.map some) with
    | none =>
      rw [hbest] at h
      cases h
      rcases hcases with ⟨u, hu, -⟩ | hvneg
      · exact absurd (bestPosition_eq_none.1 hbest _ (List.mem_map_of_mem hu)) (by simp)
      · exact of_decide_eq_true hvneg
    | some holder =>
      rw [hbest] at h
      simp only [Bool.and_false, Bool.or_false, decide_eq_true_eq] at h
      split at h
      · next hlt =>
        cases h
        rcases hcases with hbefore' | hvneg
        · exact LawfulUnits.lt_zero_trans hlt (ih hbefore hbefore' hbest)
        · exact of_decide_eq_true hvneg
      · next hnlt =>
        cases h
        rcases hcases with hbefore' | hvneg
        · exact ih hbefore hbefore' hbest
        · -- the value that is kept is not above the negative one
          obtain ⟨u, hu, rfl⟩ := getElem?_of_bestPosition hbest
          have hmem : u ∈ values := by simpa using List.mem_of_getElem? hu
          by_contra hnneg
          exact hnlt (hseparates v (by simp) u (List.mem_append_left _ hmem) hvneg
            (decide_eq_false hnneg))

/-- The least of several values is negative if one of them is. -/
theorem isNegative_of_leastIndex? {values : List α} (hseparates : SeparatesNegative values)
    (hneg : ∃ v ∈ values, isNegative v = true) {i : Nat}
    (h : leastIndex? (values.map some) = some i) :
    ∃ v, values[i]? = some v ∧ isNegative v = true := by
  rw [leastIndex?, leastIndexBy?_eq_map, Option.map_eq_some_iff] at h
  obtain ⟨⟨i, w⟩, h, rfl⟩ := h
  obtain ⟨v, hv, rfl⟩ := getElem?_of_bestPosition h
  refine ⟨v, by simpa using hv, decide_eq_true (bestPosition_lt_zero hseparates hneg h)⟩

end

/-! ### Least values -/

section

variable {α : Type} [Scalar α] {precedes : Nat → Nat → Bool}

/-- Values of a kind are compared like the numbers that they stand for. -/
structure ComparesAs (IsNumber : α → Prop) (number : α → ℚ) : Prop where
  lt_iff : ∀ v w, IsNumber v → IsNumber w → (v < w ↔ number v < number w)
  beq_iff : ∀ v w, IsNumber v → IsNumber w → ((v == w) = true ↔ number v = number w)

variable {IsNumber : α → Prop} {number : α → ℚ}

/-- The better one of two positions is at least as good as either. -/
theorem ComparesAs.better_le (hcompares : ComparesAs IsNumber number) {best : Option (Nat × α)}
    {i holder : Nat} {v least : α} (hv : IsNumber v) (hbest : ∀ b, best = some b → IsNumber b.2)
    (h : better precedes best i v = some (holder, least)) :
    IsNumber least ∧ number least ≤ number v ∧ ∀ b, best = some b → number least ≤ number b.2 := by
  unfold better at h
  cases best with
  | none =>
    cases h
    exact ⟨hv, le_rfl, by simp⟩
  | some b =>
    have hb := hbest b rfl
    dsimp only at h
    split at h
    · next hwins =>
      cases h
      refine ⟨hv, le_rfl, fun b' hb' => ?_⟩
      cases hb'
      rw [Bool.or_eq_true, decide_eq_true_iff, Bool.and_eq_true, hcompares.lt_iff _ _ hv hb,
        hcompares.beq_iff _ _ hv hb] at hwins
      rcases hwins with hlt | ⟨heq, -⟩
      · exact hlt.le
      · exact heq.le
    · next hloses =>
      cases h
      refine ⟨hb, ?_, fun b' hb' => by cases hb'; exact le_rfl⟩
      rw [Bool.or_eq_true, not_or, decide_eq_true_iff, hcompares.lt_iff _ _ hv hb] at hloses
      exact not_lt.1 hloses.1

/-- No value is read as smaller than the one of the position that is kept. -/
theorem ComparesAs.bestPosition_le (hcompares : ComparesAs IsNumber number)
    {values : List (Option α)} (hvalues : ∀ v, some v ∈ values → IsNumber (Scalar.correct v))
    {i : Nat} {w : α} (h : bestPosition precedes values = some (i, w)) :
    IsNumber w ∧ ∀ v, some v ∈ values → number w ≤ number (Scalar.correct v) := by
  induction values using List.reverseRecOn generalizing i w with
  | nil => simp [bestPosition_nil] at h
  | append_singleton values v ih =>
    have ih := fun i w => ih (fun v hv => hvalues v (List.mem_append_left _ hv)) (i := i) (w := w)
    cases v with
    | none =>
      rw [bestPosition_concat_none] at h
      simpa using ih i w h
    | some v =>
      rw [bestPosition_concat_some] at h
      obtain ⟨hw, hv, hbest⟩ :=
        hcompares.better_le (hvalues v (by simp)) (fun b hb => (ih _ _ hb).1) h
      refine ⟨hw, fun v' hv' => ?_⟩
      rcases List.mem_append.1 hv' with hv' | hv'
      · cases hb : bestPosition precedes values with
        | none => simpa using bestPosition_eq_none.1 hb _ hv'
        | some b => exact (hbest b hb).trans ((ih _ _ hb).2 v' hv')
      · simp only [List.mem_singleton, Option.some_inj] at hv'
        exact hv' ▸ hv

/-- The position of the least value has a value, and no value is read as smaller. -/
theorem ComparesAs.leastIndexBy?_le (hcompares : ComparesAs IsNumber number)
    {values : List (Option α)} (hvalues : ∀ v, some v ∈ values → IsNumber (Scalar.correct v))
    {i : Nat} (h : leastIndexBy? precedes values = some i) : ∃ v, values[i]? = some (some v) ∧
      ∀ v', some v' ∈ values → number (Scalar.correct v) ≤ number (Scalar.correct v') := by
  rw [leastIndexBy?_eq_map, Option.map_eq_some_iff] at h
  obtain ⟨⟨i, w⟩, h, rfl⟩ := h
  obtain ⟨v, hv, rfl⟩ := getElem?_of_bestPosition h
  exact ⟨v, hv, (hcompares.bestPosition_le hvalues h).2⟩

end

/-! ### Exact arithmetic -/

section

variable {precedes : Nat → Nat → Bool}

theorem comparesAs_id : ComparesAs (α := ℚ) (fun _ => True) id :=
  ⟨fun _ _ _ _ => Iff.rfl, fun _ _ _ _ => beq_iff_eq⟩

/-- No value is smaller than the one of the position that is kept. -/
theorem bestPosition_le {values : List (Option ℚ)} {i : Nat} {w : ℚ}
    (h : bestPosition precedes values = some (i, w)) : ∀ v, some v ∈ values → w ≤ v :=
  (comparesAs_id.bestPosition_le (fun _ _ => trivial) h).2

/-- The position of the least value has a value, and no value is smaller. -/
theorem leastIndexBy?_le {values : List (Option ℚ)} {i : Nat}
    (h : leastIndexBy? precedes values = some i) :
    ∃ v, values[i]? = some (some v) ∧ ∀ v', some v' ∈ values → v ≤ v' :=
  comparesAs_id.leastIndexBy?_le (fun _ _ => trivial) h

/-- If positions precede each other by a key, the better one of two positions of the same value has
the smaller key. -/
theorem better_key_le {key : Nat → Nat} {best : Option (Nat × ℚ)} {i holder : Nat} {v least : ℚ}
    (h : better (fun k l => decide (key k < key l)) best i v = some (holder, least)) :
    (v = least → key holder ≤ key i) ∧
      ∀ b, best = some b → b.2 = least → key holder ≤ key b.1 := by
  unfold better at h
  cases best with
  | none =>
    cases h
    exact ⟨fun _ => le_rfl, by simp⟩
  | some b =>
    dsimp only at h
    simp only [Bool.or_eq_true, decide_eq_true_iff, Bool.and_eq_true, beq_iff_eq] at h
    split at h
    · next hwins =>
      cases h
      refine ⟨fun _ => le_rfl, fun b' hb' heq => ?_⟩
      cases hb'
      rcases hwins with hlt | ⟨-, hkey⟩
      · exact absurd heq hlt.ne'
      · exact hkey.le
    · next hloses =>
      cases h
      refine ⟨fun heq => ?_, fun b' hb' _ => by cases hb'; exact le_rfl⟩
      rw [not_or, not_and] at hloses
      exact not_lt.1 (hloses.2 heq)

/-- No position of the least value has a smaller key than the one that is kept. -/
theorem bestPosition_key_le {key : Nat → Nat} {values : List (Option ℚ)} {i : Nat} {w : ℚ}
    (h : bestPosition (fun k l => decide (key k < key l)) values = some (i, w)) :
    ∀ k, values[k]? = some (some w) → key i ≤ key k := by
  induction values using List.reverseRecOn generalizing i w with
  | nil => simp
  | append_singleton values v ih =>
    intro k hk
    rcases lt_or_ge k values.length with hlt | hge
    · rw [List.getElem?_append_left hlt] at hk
      have hmem := List.mem_of_getElem? hk
      cases v with
      | none => exact ih (bestPosition_concat_none _ values ▸ h) k hk
      | some v =>
        rw [bestPosition_concat_some] at h
        cases hbest : bestPosition (fun k l => decide (key k < key l)) values with
        | none => simpa using bestPosition_eq_none.1 hbest _ hmem
        | some b =>
          have hleast := (comparesAs_id.better_le trivial (fun _ _ => trivial) h).2.2 b hbest
          have heq : b.2 = w := le_antisymm (bestPosition_le hbest w hmem) hleast
          have hbefore : key b.1 ≤ key k := ih (heq ▸ hbest) k hk
          exact ((better_key_le h).2 b hbest heq).trans hbefore
    · have hlen := (List.getElem?_eq_some_iff.1 hk).1
      rw [List.length_append, List.length_singleton] at hlen
      obtain rfl : k = values.length := by omega
      rw [List.getElem?_concat_length, Option.some_inj] at hk
      subst hk
      rw [bestPosition_concat_some] at h
      exact (better_key_le h).1 rfl

/-- Of several positions of the least value, the one with the smallest key is found. -/
theorem leastIndexBy?_key_le {key : Nat → Nat} {values : List (Option ℚ)} {i k : Nat} {v : ℚ}
    (h : leastIndexBy? (fun k l => decide (key k < key l)) values = some i)
    (hi : values[i]? = some (some v)) (hk : values[k]? = some (some v)) : key i ≤ key k := by
  rw [leastIndexBy?_eq_map, Option.map_eq_some_iff] at h
  obtain ⟨⟨i, w⟩, h, rfl⟩ := h
  obtain ⟨v', hv', hw⟩ := getElem?_of_bestPosition h
  have hw : w = v' := hw
  rw [hi, Option.some_inj, Option.some_inj] at hv'
  exact bestPosition_key_le h k (by rw [hk, hw, hv'])

end

end LinProg
