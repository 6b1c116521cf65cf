import Mathlib

/-! Stable sorting by a key. A sorted list is known by its parts of equal key, and sorting keeps
each of these parts as it was. -/
namespace PiDeck.Collections

section Stable
variable {α β : Type*} [LinearOrder β] {key : α → β} {xs ys : List α} {x : α} {k : β}

def sortBy (key : α → β) (xs : List α) : List α := xs.insertionSort (fun a b => key a ≤ key b)

/-- The elements under the key, in their order. -/
def tied (key : α → β) (k : β) (xs : List α) : List α := xs.filter (fun x => key x = k)

def SortedBy (key : α → β) (xs : List α) : Prop := xs.Pairwise (fun a b => key a ≤ key b)

@[simp] theorem tied_nil : tied key k [] = [] := rfl

@[simp] theorem tied_append : tied key k (xs ++ ys) = tied key k xs ++ tied key k ys :=
  List.filter_append ..

theorem tied_cons : tied key k (x :: xs) = if key x = k then x :: tied key k xs else tied key k xs := by
  simp [tied, List.filter_cons]

theorem mem_tied : x ∈ tied key k xs ↔ x ∈ xs ∧ key x = k := by
  simp [tied]

/-- An element is inserted before those of the same key. -/
theorem tied_orderedInsert : tied key k (xs.orderedInsert (fun a b => key a ≤ key b) x) =
    tied key k (x :: xs) := by
  induction xs with
  | nil => rfl
  | cons y xs ih =>
    by_cases hle : key x ≤ key y
    · rw [List.orderedInsert_cons, if_pos hle]
    · rw [List.orderedInsert_cons, if_neg hle, tied_cons, ih, tied_cons, tied_cons, tied_cons]
      have hne : key x = k → key y ≠ k := by
        rintro rfl heq
        exact hle heq.ge
      by_cases hx : key x = k
      · simp [hx, hne hx]
      · simp [hx]

theorem tied_sortBy : tied key k (sortBy key xs) = tied key k xs := by
  induction xs with
  | nil => rfl
  | cons x xs ih =>
    rw [sortBy, List.insertionSort_cons, tied_orderedInsert, tied_cons, tied_cons]
    exact congrArg (fun rest => if key x = k then x :: rest else rest) ih

theorem sortedBy_sortBy : SortedBy key (sortBy key xs) := by
  have htotal : Std.Total fun a b : α => key a ≤ key b := ⟨fun a b => le_total (key a) (key b)⟩
  have htrans : IsTrans α fun a b => key a ≤ key b := ⟨fun _ _ _ => le_trans⟩
  exact List.pairwise_insertionSort _ xs

/-- A sorted list is known by its parts of equal key. -/
theorem eq_of_tied (hx : SortedBy key xs) (hy : SortedBy key ys)
    (h : ∀ k, tied key k xs = tied key k ys) : xs = ys := by
  induction xs generalizing ys with
  | nil =>
    cases ys with
    | nil => rfl
    | cons y ys => simpa [tied_cons] using h (key y)
  | cons x xs ih =>
    have hhead := h (key x)
    rw [tied_cons, if_pos rfl] at hhead
    cases ys with
    | nil => cases hhead
    | cons y ys =>
      obtain ⟨hxs, hxtail⟩ := List.pairwise_cons.mp hx
      obtain ⟨hys, hytail⟩ := List.pairwise_cons.mp hy
      have hxy : key y ≤ key x := by
        have hmem : x ∈ tied key (key x) (y :: ys) := hhead ▸ List.mem_cons_self ..
        rcases List.mem_cons.mp (mem_tied.mp hmem).1 with rfl | hmem
        · exact le_rfl
        · exact hys x hmem
      have hyx : key x ≤ key y := by
        have hmem : y ∈ tied key (key y) (x :: xs) := by
          rw [h (key y), tied_cons, if_pos rfl]
          exact List.mem_cons_self ..
        rcases List.mem_cons.mp (mem_tied.mp hmem).1 with rfl | hmem
        · exact le_rfl
        · exact hxs y hmem
      have hkey : key y = key x := le_antisymm hxy hyx
      rw [tied_cons, if_pos hkey, List.cons.injEq] at hhead
      obtain ⟨rfl, -⟩ := hhead
      refine congrArg (x :: ·) (ih hxtail hytail ?_)
      intro k
      have hk := h k
      rw [tied_cons, tied_cons] at hk
      split at hk
      · exact (List.cons.inj hk).2
      · exact hk

theorem sortBy_eq_iff : sortBy key xs = sortBy key ys ↔ ∀ k, tied key k xs = tied key k ys := by
  constructor
  · intro h k
    calc tied key k xs
      _ = tied key k (sortBy key xs) := tied_sortBy.symm
      _ = tied key k ys := by rw [h, tied_sortBy]
  · intro h
    apply eq_of_tied sortedBy_sortBy sortedBy_sortBy
    intro k
    rw [tied_sortBy, tied_sortBy, h]

theorem sortBy_eq_self (h : SortedBy key xs) : sortBy key xs = xs :=
  eq_of_tied sortedBy_sortBy h fun _ => tied_sortBy

theorem mem_sortBy : x ∈ sortBy key xs ↔ x ∈ xs := List.mem_insertionSort _

/-- An element that stands before others comes to the same place as behind them exactly when none
of them is tied with it. -/
theorem sortBy_moved_iff {before after : List α} (hnew : x ∉ after) :
    sortBy key (before ++ after ++ [x]) = sortBy key (before ++ x :: after) ↔
      ∀ y ∈ after, key y ≠ key x := by
  rw [sortBy_eq_iff]
  simp only [tied_append, tied_cons, tied_nil, List.append_assoc, List.append_cancel_left_eq]
  constructor
  · intro h y hy hkey
    have hk := h (key x)
    rw [if_pos rfl, if_pos rfl] at hk
    -- The part of equal key would begin with the element, which is not among the others.
    cases htied : tied key (key x) after with
    | nil =>
      have hmem : y ∈ tied key (key x) after := mem_tied.mpr ⟨hy, hkey⟩
      rw [htied] at hmem
      cases hmem
    | cons z zs =>
      rw [htied, List.cons_append, List.cons.injEq] at hk
      have hz : z ∈ tied key (key x) after := htied ▸ List.mem_cons_self ..
      exact hnew (hk.1 ▸ (mem_tied.mp hz).1)
  · intro h k
    by_cases hk : key x = k
    · have hnone : tied key k after = [] := by
        rw [tied, List.filter_eq_nil_iff]
        intro y hy
        simpa [← hk] using h y hy
      simp [hk, hnone]
    · simp [hk]

end Stable
end PiDeck.Collections
