import Mathlib.Data.List.Nodup
import Mathlib.Data.List.Perm.Subperm
import LinProg.Tableau

/-!
# Fresh names

Slack variables are numbered, and different numbers give different names. The search for a name that
is not used looks through one more candidate than there are used names, so it finds one; the names
found one after another are therefore new and different from each other.
-/

namespace LinProg

theorem slackName_inj {k l : Nat} (h : slackName k = slackName l) : k = l := by
  have hdigits : Nat.toDigits 10 k = Nat.toDigits 10 l := by
    have hlist := congrArg String.toList ((String.append_right_inj "s").1 h)
    rwa [Nat.toString_eq_repr, Nat.toString_eq_repr, Nat.toList_repr, Nat.toList_repr] at hlist
  have hvalue : ∀ n, Nat.ofDigitChars 10 (Nat.toDigits 10 n) 0 = n := fun n =>
    Nat.ofDigitChars_toDigits (by decide) (by decide)
  rw [← hvalue k, hdigits, hvalue l]

/-- Among one more slack names than there are used names, one is not used. -/
theorem exists_slackName_not_mem (used : List String) :
    ∃ k < used.length + 1, slackName (k + 1) ∉ used := by
  by_contra hall
  push Not at hall
  have hnodup : ((List.range (used.length + 1)).map fun k => slackName (k + 1)).Nodup := by
    refine List.Nodup.map (fun k l h => ?_) List.nodup_range
    have := slackName_inj h
    omega
  have hsubset : ((List.range (used.length + 1)).map fun k => slackName (k + 1)) ⊆ used := by
    intro name hname
    obtain ⟨k, hk, rfl⟩ := List.mem_map.1 hname
    exact hall k (List.mem_range.1 hk)
  have hlen := (hnodup.subperm hsubset).length_le
  rw [List.length_map, List.length_range] at hlen
  omega

/-- The fresh name is the first slack name that is not used. -/
theorem exists_freshName_eq (used : List String) :
    ∃ k, freshName used = slackName (k + 1) ∧ slackName (k + 1) ∉ used ∧
      ∀ l < k, slackName (l + 1) ∈ used := by
  obtain ⟨k, hk, hfresh⟩ := exists_slackName_not_mem used
  unfold freshName
  cases hfind : ((List.range (used.length + 1)).map fun k => slackName (k + 1)).find?
      fun name => !used.contains name with
  | none =>
    have hused := List.find?_eq_none.1 hfind _ (List.mem_map_of_mem (List.mem_range.2 hk))
    exact absurd (by simpa using hused) hfresh
  | some name =>
    obtain ⟨hname, k, hk, hget, hbefore⟩ := List.find?_eq_some_iff_getElem.1 hfind
    rw [List.getElem_map, List.getElem_range] at hget
    refine ⟨k, hget.symm, by simpa [hget] using hname, fun l hl => ?_⟩
    simpa using hbefore l hl

theorem freshName_not_mem (used : List String) : freshName used ∉ used := by
  obtain ⟨k, hname, hfresh, -⟩ := exists_freshName_eq used
  rwa [hname]

/-- More used names do not change the fresh name, if it is none of them. -/
theorem freshName_congr {used used' : List String} (hsub : used ⊆ used')
    (hfresh : freshName used ∉ used') : freshName used' = freshName used := by
  obtain ⟨k, hname, -, hbefore⟩ := exists_freshName_eq used
  obtain ⟨k', hname', hfresh', hbefore'⟩ := exists_freshName_eq used'
  rw [hname] at hfresh
  rcases Nat.lt_trichotomy k k' with hlt | rfl | hlt
  · exact absurd (hbefore' k hlt) hfresh
  · rw [hname, hname']
  · exact absurd (hsub (hbefore k' hlt)) hfresh'

theorem not_mem_of_mem_freshNames {used : List String} {count : Nat} {name : String}
    (h : name ∈ freshNames used count) : name ∉ used := by
  induction count generalizing used with
  | zero => cases h
  | succ count ih =>
    rcases List.mem_cons.1 h with rfl | h
    · exact freshName_not_mem used
    · exact fun hused => ih h (List.mem_append_left _ hused)

/-- More used names do not change the fresh names, if none of these is among them. -/
theorem freshNames_congr {used used' : List String} {count : Nat} (hsub : used ⊆ used')
    (hfresh : ∀ name ∈ freshNames used count, name ∉ used') :
    freshNames used' count = freshNames used count := by
  induction count generalizing used used' with
  | zero => rfl
  | succ count ih =>
    obtain ⟨hfirst, hrest⟩ := List.forall_mem_cons.1 hfresh
    rw [freshNames, freshNames, freshName_congr hsub hfirst]
    refine congrArg _
      (ih (List.append_subset.2 ⟨?_, List.subset_append_right _ _⟩) fun name hname => ?_)
    · exact fun name hname => List.mem_append_left _ (hsub hname)
    · intro hused
      rcases List.mem_append.1 hused with hused | hused
      · exact hrest name hname hused
      · exact not_mem_of_mem_freshNames hname (List.mem_append_right _ hused)

/-- Fresh names that are chosen one after another end with the name that is fresh after the
others. -/
theorem freshNames_succ (used : List String) (count : Nat) : freshNames used (count + 1) =
    freshNames used count ++ [freshName (used ++ freshNames used count)] := by
  induction count generalizing used with
  | zero => simp [freshNames]
  | succ count ih =>
    rw [freshNames, ih, freshNames, List.append_assoc, List.singleton_append, List.cons_append]

/-- Fresh names are new and differ from each other. -/
theorem nodup_append_freshNames {used : List String} (h : used.Nodup) (count : Nat) :
    (used ++ freshNames used count).Nodup := by
  induction count generalizing used with
  | zero => simpa [freshNames] using h
  | succ count ih =>
    have hnext : (used ++ [freshName used]).Nodup := by
      rw [List.nodup_append_comm, List.singleton_append, List.nodup_cons]
      exact ⟨freshName_not_mem used, h⟩
    rw [freshNames, List.append_cons]
    exact ih hnext

end LinProg
