import Mathlib.Data.List.Forall2
import LinProg.Failure

/-!
# Outcomes that are successes

Operations are sequences of steps each of which may fail. The lemmas here say when such a sequence
succeeds: every step has succeeded, and the checks on the way have been passed. They also say when
it answers at all, with a success or a refusal: every step answers, for the results of the steps
before it.
-/

namespace LinProg

namespace Outcome

variable {β γ : Type}

/-- A sequence of two steps succeeds if the first one does and the second one does with its
result. -/
theorem bind_eq_ok {x : Outcome β} {f : β → Outcome γ} {c : γ} :
    x >>= f = .ok c ↔ ∃ b, x = .ok b ∧ f b = .ok c := by
  cases x with
  | error failure => simp [bind, Except.bind]
  | ok b => simp [bind, Except.bind]

/-- A step without a result is followed by the next one. -/
theorem bind_unit_eq_ok {x : Outcome Unit} {f : Unit → Outcome γ} {c : γ} :
    x >>= f = .ok c ↔ x = .ok () ∧ f () = .ok c := by
  rw [bind_eq_ok]
  exact ⟨fun ⟨(), h⟩ => h, fun h => ⟨(), h⟩⟩

/-- A result that is passed through a function. -/
theorem map_eq_ok {x : Outcome β} {f : β → γ} {c : γ} :
    f <$> x = .ok c ↔ ∃ b, x = .ok b ∧ f b = c := by
  cases x with
  | error failure => simp [Functor.map, Except.map]
  | ok b => simp [Functor.map, Except.map]

@[simp] theorem ok_bind {b : β} {f : β → Outcome γ} : (Except.ok b : Outcome β) >>= f = f b := rfl

@[simp] theorem pure_eq (b : β) : (pure b : Outcome β) = .ok b := rfl

@[simp] theorem refuse_ne_ok {cause : Refusal} {b : β} : refuse cause = .ok b ↔ False := by
  simp [refuse]

@[simp] theorem inRange_eq_ok {o : Option β} {b : β} : inRange o = .ok b ↔ o = some b := by
  cases o with
  | none => simp [inRange]
  | some value => simp [inRange]

@[simp] theorem within_eq_ok {inside : Bool} {u : Unit} :
    within inside = .ok u ↔ inside = true := by
  cases inside with
  | false => simp [within]
  | true => simp [within]

/-- What is said of the result of an operation, if it gives one, is decided. -/
instance (o : Outcome β) (P : β → Prop) [DecidablePred P] : Decidable (∀ b, o = .ok b → P b) :=
  match o with
  | .ok b => decidable_of_iff (P b) (by simp)
  | .error _ => .isTrue (by simp)

/-- A check for each element is passed if each of them passes. -/
theorem forM_eq_ok {f : β → Outcome Unit} {l : List β} :
    l.forM f = .ok () ↔ ∀ b ∈ l, f b = .ok () := by
  induction l with
  | nil => simp
  | cons b l ih =>
    rw [show (b :: l).forM f = f b >>= fun _ => l.forM f from rfl, bind_unit_eq_ok, ih]
    simp

/-- An operation on each element succeeds if it does so on each of them, and gives their results in
order. -/
theorem mapM_eq_ok {f : β → Outcome γ} {l : List β} {r : List γ} :
    l.mapM f = .ok r ↔ List.Forall₂ (fun b c => f b = .ok c) l r := by
  induction l generalizing r with
  | nil => cases r <;> simp
  | cons b l ih =>
    rw [List.mapM_cons, bind_eq_ok, List.forall₂_cons_left_iff]
    constructor
    · rintro ⟨c, hc, h⟩
      obtain ⟨r', hr', h⟩ := bind_eq_ok.1 h
      cases h
      exact ⟨c, r', hc, ih.1 hr', rfl⟩
    · rintro ⟨c, r', hc, hr', rfl⟩
      exact ⟨c, hc, bind_eq_ok.2 ⟨r', ih.2 hr', rfl⟩⟩

/-- An operation that succeeds on each element succeeds on the list. -/
theorem exists_mapM_eq_ok {f : β → Outcome γ} {l : List β} (h : ∀ b ∈ l, ∃ c, f b = .ok c) :
    ∃ r, l.mapM f = .ok r := by
  induction l with
  | nil => exact ⟨[], rfl⟩
  | cons b l ih =>
    obtain ⟨hb, hl⟩ := List.forall_mem_cons.1 h
    obtain ⟨c, hc⟩ := hb
    obtain ⟨r, hr⟩ := ih hl
    exact ⟨c :: r, by rw [List.mapM_cons, hc, ok_bind, hr, ok_bind, pure_eq]⟩

/-- The results of an operation on each element stand at the positions of their elements. -/
theorem getElem?_of_mapM {f : β → Outcome γ} {l : List β} {r : List γ} (h : l.mapM f = .ok r) :
    r.length = l.length ∧
      ∀ (j : Nat) (c : γ), r[j]? = some c → ∃ b, l[j]? = some b ∧ f b = .ok c := by
  have hresults := mapM_eq_ok.1 h
  refine ⟨hresults.length_eq.symm, fun j c hc => ?_⟩
  obtain ⟨hj, rfl⟩ := List.getElem?_eq_some_iff.1 hc
  have hj' : j < l.length := hresults.length_eq ▸ hj
  exact ⟨l[j], List.getElem?_eq_getElem hj', (List.forall₂_iff_get.1 hresults).2 j hj' hj⟩

/-- An operation that succeeds exactly under a condition, then with a known result, succeeds on a
list if the condition holds of each element. -/
theorem mapM_eq_ok_map {f : β → Outcome γ} {g : β → γ} {P : β → Prop}
    (hf : ∀ b c, f b = .ok c ↔ P b ∧ c = g b) {l : List β} {r : List γ} :
    l.mapM f = .ok r ↔ (∀ b ∈ l, P b) ∧ r = l.map g := by
  induction l generalizing r with
  | nil => simp [eq_comm]
  | cons b l ih =>
    rw [List.mapM_cons, bind_eq_ok]
    constructor
    · rintro ⟨c, hc, h⟩
      obtain ⟨r', hr', h⟩ := bind_eq_ok.1 h
      obtain ⟨hb, rfl⟩ := (hf b c).1 hc
      obtain ⟨hl, rfl⟩ := ih.1 hr'
      cases h
      exact ⟨List.forall_mem_cons.2 ⟨hb, hl⟩, rfl⟩
    · rintro ⟨h, rfl⟩
      obtain ⟨hb, hl⟩ := List.forall_mem_cons.1 h
      exact ⟨g b, (hf b _).2 ⟨hb, rfl⟩, bind_eq_ok.2 ⟨l.map g, ih.2 ⟨hl, rfl⟩, rfl⟩⟩

/-! ### Outcomes within their lists -/

/-- The outcome is a success, or a refusal for a cause of the given kind. It is not the failure of a
position outside a list. -/
def Answers (P : Refusal → Prop) : Outcome β → Prop
  | .ok _ => True
  | .error (.refused cause) => P cause
  | .error .outOfRange => False

variable {P Q : Refusal → Prop} {o : Outcome β}

theorem answers_ok (b : β) : Answers P (.ok b) := trivial

theorem answers_refuse {cause : Refusal} (h : P cause) : Answers P (refuse cause : Outcome β) := h

theorem answers_iff : o.Answers P ↔ (∃ b, o = .ok b) ∨ ∃ cause, P cause ∧ o = refuse cause := by
  match o with
  | .ok b => simp [Answers]
  | .error (.refused cause) => simp [Answers, refuse]
  | .error .outOfRange => simp [Answers, refuse]

theorem Answers.mono (h : o.Answers P) (hPQ : ∀ cause, P cause → Q cause) : o.Answers Q := by
  match o with
  | .ok b => trivial
  | .error (.refused cause) => exact hPQ cause h

/-- A sequence of two steps answers if the first one does and the second one does with its
result. -/
theorem Answers.bind {f : β → Outcome γ} (ho : o.Answers P)
    (hf : ∀ b, o = .ok b → (f b).Answers P) : (o >>= f).Answers P := by
  match o with
  | .ok b => exact hf b rfl
  | .error (.refused cause) => exact ho

/-- A check for each element answers if each of them does. -/
theorem answers_forM {f : β → Outcome Unit} {l : List β} (h : ∀ b ∈ l, (f b).Answers P) :
    (l.forM f).Answers P := by
  induction l with
  | nil => exact answers_ok ()
  | cons b l ih =>
    obtain ⟨hb, hl⟩ := List.forall_mem_cons.1 h
    rw [show (b :: l).forM f = f b >>= fun _ => l.forM f from rfl]
    exact hb.bind fun _ _ => ih hl

/-- An operation on each element answers if it does so on each of them. -/
theorem answers_mapM {f : β → Outcome γ} {l : List β} (h : ∀ b ∈ l, (f b).Answers P) :
    (l.mapM f).Answers P := by
  induction l with
  | nil => exact answers_ok []
  | cons b l ih =>
    obtain ⟨hb, hl⟩ := List.forall_mem_cons.1 h
    rw [List.mapM_cons]
    exact hb.bind fun c _ => (ih hl).bind fun r _ => answers_ok (c :: r)

end Outcome

theorem Dimension.answers_check {P : Refusal → Prop} {what : Dimension} {expected found : Nat}
    (h : P (.dimensionMismatch what expected found)) : (what.check expected found).Answers P := by
  unfold Dimension.check
  split
  · exact Outcome.answers_ok ()
  · exact Outcome.answers_refuse h

@[simp] theorem Dimension.check_eq_ok {what : Dimension} {expected found : Nat} {u : Unit} :
    what.check expected found = .ok u ↔ expected = found := by
  unfold Dimension.check
  split <;> simp [*]

end LinProg
