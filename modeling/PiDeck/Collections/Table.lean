import Mathlib
import PiDeck.Collections.Keyed

/-! Maps from the identifier of a row to the row, in the order in which the identifiers came: setting
a row keeps the place of its identifier, a new one goes last. Identifiers are unique by
construction. -/
namespace PiDeck.Collections

structure Table {κ ρ : Type*} (key : ρ → κ) where
  rows : List ρ
  nodup : (rows.map key).Nodup

namespace Table
variable {κ ρ : Type*} [DecidableEq κ] {key : ρ → κ} {table : Table key} {k : κ} {r : ρ}
  {rows : List ρ}

def empty : Table key := ⟨[], List.nodup_nil⟩

def get? (table : Table key) (k : κ) : Option ρ := findRow key table.rows k

def has (table : Table key) (k : κ) : Bool := (table.get? k).isSome

def set (table : Table key) (r : ρ) : Table key :=
  if h : findRow key table.rows (key r) = none then ⟨table.rows ++ [r], nodup_push h table.nodup⟩
  else ⟨modifyRow key (key r) (fun _ => r) table.rows, by
    rw [map_key_modifyRow (fun _ _ => rfl)]
    exact table.nodup⟩

def setAll (table : Table key) (rows : List ρ) : Table key := rows.foldl set table

def ofList (rows : List ρ) : Table key := empty.setAll rows

theorem get?_set : (table.set r).get? k = if k = key r then some r else table.get? k := by
  rw [set]
  split_ifs with hnone hk hk
  · exact (findRow_push hnone k).trans (if_pos hk)
  · exact (findRow_push hnone k).trans (if_neg hk)
  · refine (findRow_modifyRow (fun _ _ => rfl) k).trans ?_
    obtain ⟨old, hold⟩ := Option.ne_none_iff_exists'.mp hnone
    rw [if_pos hk, hold]
    rfl
  · exact (findRow_modifyRow (fun _ _ => rfl) k).trans (if_neg hk)

theorem has_iff : table.has k = true ↔ ∃ r ∈ table.rows, key r = k := by
  rw [has, Option.isSome_iff_exists]
  constructor
  · rintro ⟨r, hr⟩
    exact ⟨r, findRow_mem hr, findRow_key hr⟩
  · rintro ⟨r, hr, rfl⟩
    exact ⟨r, findRow_of_mem table.nodup hr⟩

theorem has_set : (table.set r).has k = (decide (k = key r) || table.has k) := by
  by_cases hk : k = key r
  · simp [has, get?_set, hk]
  · simp [has, get?_set, hk]

theorem has_setAll :
    (table.setAll rows).has k = true ↔ table.has k = true ∨ ∃ r ∈ rows, key r = k := by
  induction rows generalizing table with
  | nil => simp [setAll]
  | cons r rows ih =>
    have rest : (table.setAll (r :: rows)).has k = ((table.set r).setAll rows).has k := rfl
    rw [rest, ih, has_set]
    simp only [Bool.or_eq_true, decide_eq_true_eq, List.mem_cons, exists_eq_or_imp]
    tauto

theorem has_ofList : (ofList rows : Table key).has k = true ↔ ∃ r ∈ rows, key r = k := by
  rw [ofList, has_setAll]
  simp [has, get?, empty, findRow]

theorem get?_of_mem (h : r ∈ table.rows) : table.get? (key r) = some r := findRow_of_mem table.nodup h

/-- The rows once one is set: the other identifiers keep theirs. -/
theorem mem_set {row : ρ} (h : row ∈ (table.set r).rows) :
    row = r ∨ (row ∈ table.rows ∧ key row ≠ key r) := by
  have hget := get?_of_mem h
  rw [get?_set] at hget
  split_ifs at hget with hkey
  · exact .inl (Option.some.inj hget).symm
  · exact .inr ⟨findRow_mem hget, hkey⟩

theorem mem_setAll {row : ρ} (h : row ∈ (table.setAll rows).rows) :
    row ∈ rows ∨ row ∈ table.rows := by
  induction rows generalizing table with
  | nil => exact .inr h
  | cons r rows ih =>
    obtain hrest | hset := @ih (table.set r) h
    · exact .inl (List.mem_cons_of_mem _ hrest)
    · obtain rfl | ⟨hmem, -⟩ := mem_set hset
      · exact .inl List.mem_cons_self
      · exact .inr hmem

theorem mem_ofList {row : ρ} (h : row ∈ (ofList rows : Table key).rows) : row ∈ rows := by
  obtain hmem | hempty := mem_setAll h
  · exact hmem
  · cases hempty

/-- A row is under its own identifier. -/
theorem get?_key (h : table.get? k = some r) : key r = k := findRow_key h

/-- The rows before the place of the identifier; all of them where it has none. -/
def before (table : Table key) (k : κ) : List ρ := table.rows.takeWhile (fun r => key r ≠ k)

def after (table : Table key) (k : κ) : List ρ := (table.rows.dropWhile (fun r => key r ≠ k)).drop 1

theorem dropWhile_eq {rows : List ρ} : rows.dropWhile (fun r => key r ≠ k) =
    (findRow key rows k).toList ++ (rows.dropWhile (fun r => key r ≠ k)).drop 1 := by
  induction rows with
  | nil => rfl
  | cons row rows ih =>
    by_cases h : key row = k
    · simp [findRow, h]
    · have hfind : findRow key (row :: rows) k = findRow key rows k := by simp [findRow, h]
      rw [List.dropWhile_cons_of_pos (by simpa using h), hfind]
      exact ih

theorem rows_eq (table : Table key) (k : κ) :
    table.rows = table.before k ++ ((table.get? k).toList ++ table.after k) := by
  conv_lhs => rw [← List.takeWhile_append_dropWhile (p := fun r => decide (key r ≠ k))
    (l := table.rows), dropWhile_eq]
  rfl

theorem modifyRow_eq {rows : List ρ} (h : findRow key rows (key r) ≠ none) :
    modifyRow key (key r) (fun _ => r) rows = rows.takeWhile (fun q => key q ≠ key r) ++
      r :: (rows.dropWhile (fun q => key q ≠ key r)).drop 1 := by
  induction rows with
  | nil => exact absurd rfl h
  | cons row rows ih =>
    by_cases hrow : key row = key r
    · simp [modifyRow, hrow]
    · have hfind : findRow key (row :: rows) (key r) = findRow key rows (key r) := by
        simp [findRow, hrow]
      rw [hfind] at h
      simp only [modifyRow, if_neg hrow, ih h]
      simp [hrow]

/-- A row that is set stands in the place of its identifier. -/
theorem rows_set (table : Table key) (r : ρ) :
    (table.set r).rows = table.before (key r) ++ r :: table.after (key r) := by
  rw [set]
  split_ifs with h
  · have hall : ∀ q ∈ table.rows, key q ≠ key r := findRow_eq_none.mp h
    have hbefore : table.before (key r) = table.rows :=
      List.takeWhile_eq_self_iff.mpr fun q hq => by simpa using hall q hq
    have hafter : table.after (key r) = [] := by
      rw [after, List.dropWhile_eq_nil_iff.mpr fun q hq => by simpa using hall q hq, List.drop_nil]
    rw [hbefore, hafter]
  · exact modifyRow_eq h

theorem key_ne_of_before (h : r ∈ table.before k) : key r ≠ k := by
  simpa using List.mem_takeWhile_imp h

theorem key_ne_of_after (h : r ∈ table.after k) : key r ≠ k := by
  intro hk
  have hrows := table.rows_eq k
  have hmem : r ∈ table.rows := by
    rw [hrows]
    exact List.mem_append_right _ (List.mem_append_right _ h)
  have hget : table.get? k = some r := hk ▸ get?_of_mem hmem
  -- The row would stand in its place and once more after it.
  have hnodup := table.nodup
  rw [hrows, hget, List.map_append, Option.toList_some, List.map_append] at hnodup
  have hpart := (List.nodup_append.mp hnodup).2.1
  rw [List.map_singleton, List.singleton_append, List.nodup_cons] at hpart
  exact hpart.1 (List.mem_map_of_mem h)

end Table
end PiDeck.Collections
