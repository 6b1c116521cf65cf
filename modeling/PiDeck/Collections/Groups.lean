import Mathlib
import PiDeck.Collections.IndexMap

/-! Rows grouped by a key, and a loop that hands a state from one element to the next. No row is
lost in grouping, and a group that is taken out takes its rows with it. -/
namespace PiDeck.Collections

section Thread
variable {α β σ : Type*} {f : α → σ → Option (β × σ)} {a : α} {as : List α} {bs : List β} {s t u : σ}

/-- Every element is mapped in the state that the ones before it leave. -/
def thread (f : α → σ → Option (β × σ)) : List α → σ → Option (List β × σ)
  | [], s => some ([], s)
  | a :: as, s =>
    match f a s with
    | none => none
    | some (b, t) => (thread f as t).map fun (bs, u) => (b :: bs, u)

@[simp] theorem thread_nil : thread f [] s = some ([], s) := rfl

theorem thread_cons (h : thread f (a :: as) s = some (bs, u)) :
    ∃ b t rest, f a s = some (b, t) ∧ thread f as t = some (rest, u) ∧ bs = b :: rest := by
  rw [thread] at h
  cases hf : f a s with
  | none => simp [hf] at h
  | some pair =>
    obtain ⟨b, t⟩ := pair
    simp only [hf, Option.map_eq_some_iff] at h
    obtain ⟨⟨rest, u'⟩, hrest, heq⟩ := h
    cases heq
    exact ⟨b, t, rest, rfl, hrest, rfl⟩

/-- The loop goes through when its body does in every state that it keeps. -/
theorem thread_some {P : σ → Prop}
    (h : ∀ a ∈ as, ∀ s, P s → ∃ b t, f a s = some (b, t) ∧ P t) (hs : P s) :
    ∃ bs t, thread f as s = some (bs, t) ∧ P t := by
  induction as generalizing s with
  | nil => exact ⟨[], s, rfl, hs⟩
  | cons a as ih =>
    obtain ⟨b, t, hf, ht⟩ := h a (List.mem_cons_self ..) s hs
    obtain ⟨bs, u, hrest, hu⟩ := ih (fun a ha => h a (List.mem_cons_of_mem _ ha)) ht
    exact ⟨b :: bs, u, by simp [thread, hf, hrest], hu⟩

end Thread

section Groups
variable {κ ρ : Type*} [DecidableEq κ] {key : ρ → κ} {groups : IndexMap κ (List ρ)} {rows : List ρ}
  {k : κ} {row : ρ}

/-- `entry(key).or_default().push(row)`. -/
def pushGroup (key : ρ → κ) (groups : IndexMap κ (List ρ)) (row : ρ) : IndexMap κ (List ρ) :=
  groups.insert (key row) ((groups.get? (key row)).getD [] ++ [row])

def groupBy (key : ρ → κ) (rows : List ρ) : IndexMap κ (List ρ) := rows.foldl (pushGroup key) .empty

/-- Every row stands in the group of its own key. -/
def Grouped (key : ρ → κ) (groups : IndexMap κ (List ρ)) : Prop :=
  ∀ k rows, groups.get? k = some rows → ∀ row ∈ rows, key row = k

theorem grouped_push (h : Grouped key groups) : Grouped key (pushGroup key groups row) := by
  intro k rows hget other hother
  rw [pushGroup, IndexMap.get?_insert] at hget
  split at hget
  · rename_i hk
    cases hget
    rcases List.mem_append.mp hother with hold | hnew
    · cases hrows : groups.get? (key row) with
      | none => simp [hrows] at hold
      | some rows =>
        rw [hrows, Option.getD_some] at hold
        exact (h _ _ hrows other hold).trans hk.symm
    · rw [List.mem_singleton.mp hnew, hk]
  · exact h k rows hget other hother

theorem grouped_group : Grouped key (groupBy key rows) := by
  have hfold : ∀ groups, Grouped key groups → Grouped key (rows.foldl (pushGroup key) groups) := by
    induction rows with
    | nil => exact fun _ h => h
    | cons row rows ih => exact fun groups h => ih _ (grouped_push h)
  apply hfold
  intro k rows hget
  simp [IndexMap.get?, IndexMap.empty] at hget

theorem grouped_shiftRemove (h : Grouped key groups) : Grouped key (groups.shiftRemove k) := by
  intro k' rows hget
  rw [IndexMap.get?_shiftRemove] at hget
  split at hget
  · cases hget
  · exact h k' rows hget

section Tally
variable [DecidableEq ρ]

/-- How often a row stands in the groups. -/
def tally (groups : IndexMap κ (List ρ)) (row : ρ) : ℕ := groups.sum (List.count row)

theorem tally_push (other : ρ) :
    tally (pushGroup key groups row) other = tally groups other + [row].count other := by
  have hsum := IndexMap.sum_insert (m := groups) (k := key row)
    (v := (groups.get? (key row)).getD [] ++ [row]) (g := List.count other)
  rw [List.count_append] at hsum
  rw [tally, tally, pushGroup]
  cases hget : groups.get? (key row) with
  | none =>
    simp only [hget, Option.map_none, Option.getD_none, List.count_nil] at hsum ⊢
    omega
  | some rows =>
    simp only [hget, Option.map_some, Option.getD_some] at hsum ⊢
    omega

theorem tally_group (row : ρ) : tally (groupBy key rows) row = rows.count row := by
  have hfold : ∀ groups, tally (rows.foldl (pushGroup key) groups) row =
      tally groups row + rows.count row := by
    induction rows with
    | nil => simp
    | cons first rows ih =>
      intro groups
      rw [List.foldl_cons, ih, tally_push, ← List.singleton_append (x := first) (l := rows),
        List.count_append]
      omega
  rw [groupBy, hfold]
  simp [tally, IndexMap.sum]

theorem tally_shiftRemove (row : ρ) :
    tally (groups.shiftRemove k) row + ((groups.get? k).getD []).count row = tally groups row := by
  cases hget : groups.get? k with
  | some rows => exact IndexMap.sum_shiftRemove hget
  | none =>
    have hsame : groups.shiftRemove k = groups := by
      apply IndexMap.ext
      rw [IndexMap.shiftRemove, IndexMap.entries_retain, List.filter_eq_self]
      intro e he
      have hne : e.1 ≠ k := by
        rintro rfl
        rw [IndexMap.get?_eq_some.mpr he] at hget
        cases hget
      simpa using hne
    simp [hsame]

/-- Without a group of its key a row is in no group. -/
theorem tally_eq_zero (h : Grouped key groups) (hnone : groups.get? (key row) = none) :
    tally groups row = 0 := by
  rw [tally, IndexMap.sum, List.sum_eq_zero_iff]
  intro n hn
  obtain ⟨⟨k, rows⟩, he, rfl⟩ := List.mem_map.mp hn
  apply List.count_eq_zero_of_not_mem
  intro hrow
  have hget := IndexMap.get?_eq_some.mpr he
  rw [← h k rows hget row hrow, hnone] at hget
  cases hget

end Tally

theorem length_shiftRemove (h : groups.get? k = some rows) :
    (groups.shiftRemove k).length + 1 = groups.length := by
  rw [IndexMap.length_eq_sum, IndexMap.length_eq_sum]
  exact IndexMap.sum_shiftRemove h

theorem length_group_le : (groupBy key rows).length ≤ rows.length := by
  have hpush : ∀ (groups : IndexMap κ (List ρ)) row,
      (pushGroup key groups row).length ≤ groups.length + 1 := by
    intro groups row
    have hsum := IndexMap.sum_insert (m := groups) (k := key row)
      (v := (groups.get? (key row)).getD [] ++ [row]) (g := fun _ => 1)
    rw [IndexMap.length_eq_sum, IndexMap.length_eq_sum, pushGroup]
    omega
  have hfold : ∀ groups : IndexMap κ (List ρ),
      (rows.foldl (pushGroup key) groups).length ≤ groups.length + rows.length := by
    induction rows with
    | nil => simp
    | cons row rows ih =>
      intro groups
      have h := ih (pushGroup key groups row)
      have hone := hpush groups row
      rw [List.foldl_cons, List.length_cons]
      omega
  have h := hfold .empty
  simpa [groupBy, IndexMap.length] using h

end Groups
end PiDeck.Collections
