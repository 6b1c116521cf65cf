import Mathlib
import PiDeck.Collections.IndexMap
import PiDeck.Collections.Table

/-! Copies of rows whose versions are delivered in any order and with repeats. A delivery names an
identifier and a revision, and a revision has one content. A copy follows the deliveries when each
row that it holds is the newest version delivered, but for those that the holder made itself. -/
namespace PiDeck.Collections
variable {κ ρ : Type*} {key : ρ → κ} {rev : ρ → ℕ}

/-- The content of each identifier at each revision. -/
structure VersionsOf (key : ρ → κ) (rev : ρ → ℕ) where
  row : κ → ℕ → ρ
  key_row : ∀ k r, key (row k r) = k
  rev_row : ∀ k r, rev (row k r) = r

section Newest
variable {delivered more : List (κ × ℕ)} {known : κ → ℕ} {k : κ} {r r' : ℕ}

def Newest (delivered : List (κ × ℕ)) (k : κ) (r : ℕ) : Prop :=
  (k, r) ∈ delivered ∧ ∀ r', (k, r') ∈ delivered → r' ≤ r

def Unsent (delivered : List (κ × ℕ)) (k : κ) : Prop := ∀ r, (k, r) ∉ delivered

/-- The newest revision of each identifier, 0 for those that were not delivered. -/
def Knows (delivered : List (κ × ℕ)) (known : κ → ℕ) : Prop :=
  ∀ k, (∀ r, (k, r) ∈ delivered → r ≤ known k) ∧ (known k = 0 ∨ (k, known k) ∈ delivered)

theorem Newest.unique (h : Newest delivered k r) (h' : Newest delivered k r') : r = r' :=
  le_antisymm (h'.2 r h.1) (h.2 r' h'.1)

theorem Newest.append (h : Newest delivered k r) (hmore : ∀ r', (k, r') ∈ more → r' ≤ r) :
    Newest (delivered ++ more) k r := by
  refine ⟨List.mem_append_left _ h.1, fun r' hr' => ?_⟩
  obtain hold | hnew := List.mem_append.mp hr'
  · exact h.2 r' hold
  · exact hmore r' hnew

theorem newest_of_more (hmem : (k, r) ∈ more) (hold : ∀ r', (k, r') ∈ delivered → r' ≤ r)
    (hmore : ∀ r', (k, r') ∈ more → r' ≤ r) : Newest (delivered ++ more) k r := by
  refine ⟨List.mem_append_right _ hmem, fun r' hr' => ?_⟩
  obtain hr' | hr' := List.mem_append.mp hr'
  · exact hold r' hr'
  · exact hmore r' hr'

theorem Unsent.append (h : Unsent delivered k) (hmore : Unsent more k) :
    Unsent (delivered ++ more) k := by
  intro r hr
  obtain hr | hr := List.mem_append.mp hr
  · exact h r hr
  · exact hmore r hr

theorem knows_nil : Knows ([] : List (κ × ℕ)) (fun _ => 0) := by
  refine fun k => ⟨fun r hr => ?_, .inl rfl⟩
  cases hr

theorem Knows.stale (h : Knows delivered known) (hr : r ≤ known k) :
    Knows (delivered ++ [(k, r)]) known := by
  intro j
  refine ⟨fun r' hr' => ?_, (h j).2.imp_right fun hmem => List.mem_append_left _ hmem⟩
  obtain hold | hnew := List.mem_append.mp hr'
  · exact (h j).1 r' hold
  · obtain ⟨rfl, rfl⟩ := Prod.mk.inj (List.mem_singleton.mp hnew)
    exact hr

theorem Knows.fresh [DecidableEq κ] (h : Knows delivered known) (hr : known k < r) :
    Knows (delivered ++ [(k, r)]) (Function.update known k r) := by
  intro j
  by_cases hj : j = k
  · subst hj
    rw [Function.update_self]
    refine ⟨fun r' hr' => ?_, .inr (List.mem_append_right _ (List.mem_singleton.mpr rfl))⟩
    obtain hold | hnew := List.mem_append.mp hr'
    · exact ((h j).1 r' hold).trans hr.le
    · exact ((Prod.mk.inj (List.mem_singleton.mp hnew)).2).le
  · rw [Function.update_of_ne hj]
    refine ⟨fun r' hr' => ?_, (h j).2.imp_right fun hmem => List.mem_append_left _ hmem⟩
    obtain hold | hnew := List.mem_append.mp hr'
    · exact (h j).1 r' hold
    · exact absurd (Prod.mk.inj (List.mem_singleton.mp hnew)).1 hj

end Newest

namespace VersionsOf
variable {V : VersionsOf key rev} {own : ρ → Prop} {delivered more : List (κ × ℕ)} {known : κ → ℕ}
  {row : ρ} {k : κ} {r : ℕ}

/-- The row is the newest version delivered. -/
def Current (V : VersionsOf key rev) (delivered : List (κ × ℕ)) (row : ρ) : Prop :=
  Newest delivered (key row) (rev row) ∧ row = V.row (key row) (rev row)

/-- The row is the newest version, or the holder's own and nothing of its identifier came. -/
def Follows (V : VersionsOf key rev) (own : ρ → Prop) (delivered : List (κ × ℕ)) (row : ρ) : Prop :=
  V.Current delivered row ∨ (own row ∧ rev row = 0 ∧ Unsent delivered (key row))

/-- All rows of a table follow. -/
def Tracks (V : VersionsOf key rev) (own : ρ → Prop) (delivered : List (κ × ℕ))
    (table : Table key) : Prop :=
  ∀ row ∈ table.rows, V.Follows own delivered row

theorem current_row (h : Newest delivered k r) : V.Current delivered (V.row k r) := by
  refine ⟨?_, ?_⟩
  · rwa [V.key_row, V.rev_row]
  · rw [V.key_row, V.rev_row]

theorem Follows.current (h : V.Follows own delivered row) (hsent : ¬Unsent delivered (key row)) :
    V.Current delivered row := by
  obtain h | ⟨-, -, hunsent⟩ := h
  · exact h
  · exact absurd hunsent hsent

theorem Follows.rev_le (h : V.Follows own delivered row) (hknown : Knows delivered known) :
    rev row ≤ known (key row) := by
  obtain ⟨hnewest, -⟩ | ⟨-, hzero, -⟩ := h
  · exact (hknown _).1 _ hnewest.1
  · omega

/-- What is known of a row that was delivered is its revision. -/
theorem Current.known_le (h : V.Current delivered row) (hknown : Knows delivered known) :
    known (key row) ≤ rev row := by
  obtain hzero | hmem := (hknown (key row)).2
  · omega
  · exact h.1.2 _ hmem

/-- Deliveries of other identifiers and of older revisions change nothing. -/
theorem Follows.append (h : V.Follows own delivered row)
    (hmore : ∀ r, (key row, r) ∈ more → r < rev row) : V.Follows own (delivered ++ more) row := by
  obtain ⟨hnewest, hrow⟩ | ⟨hown, hzero, hunsent⟩ := h
  · exact .inl ⟨hnewest.append fun r hr => (hmore r hr).le, hrow⟩
  · refine .inr ⟨hown, hzero, hunsent.append fun r hr => ?_⟩
    have := hmore r hr
    omega

theorem Tracks.stale {table : Table key} (h : V.Tracks own delivered table)
    (hknown : Knows delivered known) (hr : r ≤ known k)
    (hown : 0 < r ∨ ∀ row ∈ table.rows, key row = k → ¬Unsent delivered k) :
    V.Tracks own (delivered ++ [(k, r)]) table := by
  intro row hrow
  by_cases hkey : key row = k
  · have hsent : ¬Unsent delivered (key row) := by
      rw [hkey]
      obtain hpos | hheld := hown
      · intro hunsent
        obtain hzero | hmem := (hknown k).2
        · omega
        · exact hunsent _ hmem
      · exact hheld row hrow hkey
    have hcurrent := (h row hrow).current hsent
    have hle := hcurrent.known_le hknown
    refine .inl ⟨hcurrent.1.append fun r' hr' => ?_, hcurrent.2⟩
    obtain ⟨-, rfl⟩ := Prod.mk.inj (List.mem_singleton.mp hr')
    rw [hkey] at hle
    exact hr.trans hle
  · refine (h row hrow).append fun r' hr' => ?_
    exact absurd (Prod.mk.inj (List.mem_singleton.mp hr')).1 hkey

/-- A version that is newer than what is known takes the place of its row. -/
theorem Tracks.fresh [DecidableEq κ] {table : Table key} (h : V.Tracks own delivered table)
    (hknown : Knows delivered known) (hr : known k < r) :
    V.Tracks own (delivered ++ [(k, r)]) (table.set (V.row k r)) := by
  intro row hrow
  obtain rfl | ⟨hmem, hne⟩ := Table.mem_set hrow
  · refine .inl (current_row (newest_of_more (List.mem_singleton.mpr rfl) ?_ ?_))
    · exact fun r' hr' => ((hknown k).1 r' hr').trans hr.le
    · exact fun r' hr' => (Prod.mk.inj (List.mem_singleton.mp hr')).2.le
  · rw [V.key_row] at hne
    refine (h row hmem).append fun r' hr' => ?_
    exact absurd (Prod.mk.inj (List.mem_singleton.mp hr')).1 hne

/-- A row that is not held may be left out. -/
theorem Tracks.skip {table : Table key} (h : V.Tracks own delivered table)
    (habsent : ∀ row ∈ table.rows, key row ≠ k) : V.Tracks own (delivered ++ [(k, r)]) table := by
  intro row hrow
  refine (h row hrow).append fun r' hr' => ?_
  exact absurd (Prod.mk.inj (List.mem_singleton.mp hr')).1 (habsent row hrow)

end VersionsOf
end PiDeck.Collections
