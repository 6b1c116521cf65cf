import Mathlib

/-! Lists of rows read and changed through a key. A lookup answers with the first row under the
key and a change rewrites that row in place, so lookups after a change are known without assuming
that keys are unique; scans and lookups agree where they are. -/
namespace PiDeck.Collections

section Rows
variable {κ ρ : Type*} [DecidableEq κ] (key : ρ → κ)

/-- The first row under `k`. -/
def findRow (rows : List ρ) (k : κ) : Option ρ := rows.find? (fun r => key r = k)

/-- Rewrite the first row under `k`. -/
def modifyRow (k : κ) (f : ρ → ρ) : List ρ → List ρ
  | [] => []
  | r :: rows => if key r = k then f r :: rows else r :: modifyRow k f rows

variable {key} {rows : List ρ} {k k' : κ} {r : ρ} {f : ρ → ρ}

theorem findRow_mem (h : findRow key rows k = some r) : r ∈ rows := List.mem_of_find?_eq_some h

theorem findRow_key (h : findRow key rows k = some r) : key r = k := by
  simpa using List.find?_some h

theorem findRow_eq_none : findRow key rows k = none ↔ ∀ r ∈ rows, key r ≠ k := by
  simp [findRow]

/-- Where keys are unique, a scan finds exactly the rows that a lookup finds. -/
theorem findRow_of_mem (nodup : (rows.map key).Nodup) (h : r ∈ rows) :
    findRow key rows (key r) = some r := by
  induction rows with
  | nil => cases h
  | cons q rows ih =>
    rw [List.map_cons, List.nodup_cons] at nodup
    obtain ⟨hq, hrows⟩ := nodup
    cases h with
    | head => simp [findRow]
    | tail _ h =>
      have hne : key q ≠ key r := fun he => hq (he ▸ List.mem_map_of_mem h)
      simpa [findRow, hne] using ih hrows h

theorem findRow_modifyRow (hf : ∀ r, key r = k → key (f r) = k) (k' : κ) :
    findRow key (modifyRow key k f rows) k' =
      if k' = k then (findRow key rows k).map f else findRow key rows k' := by
  induction rows with
  | nil => simp [findRow, modifyRow]
  | cons r rows ih =>
    by_cases hr : key r = k
    · have hfr := hf r hr
      by_cases hk : k' = k
      · simp [modifyRow, findRow, hr, hfr, hk]
      · simp [modifyRow, findRow, hr, hfr, hk, Ne.symm hk]
    · by_cases hk : k' = k
      · subst hk
        simpa [modifyRow, findRow, hr] using ih
      · by_cases hk' : key r = k'
        · simp [modifyRow, findRow, hk, hk']
        · simpa [modifyRow, findRow, hr, hk, hk'] using ih

theorem map_key_modifyRow (hf : ∀ r, key r = k → key (f r) = k) :
    (modifyRow key k f rows).map key = rows.map key := by
  induction rows with
  | nil => rfl
  | cons r rows ih =>
    by_cases hr : key r = k
    · simp [modifyRow, hr, hf r hr]
    · simp [modifyRow, hr, ih]

/-- A rewritten list holds old rows and the rewritten one. -/
theorem mem_modifyRow (h : r ∈ modifyRow key k f rows) :
    r ∈ rows ∨ ∃ old, findRow key rows k = some old ∧ f old = r := by
  induction rows with
  | nil => exact .inl h
  | cons q rows ih =>
    by_cases hq : key q = k
    · simp only [modifyRow, hq, if_true, List.mem_cons] at h
      rcases h with rfl | h
      · exact .inr ⟨q, by simp [findRow, hq], rfl⟩
      · exact .inl (List.mem_cons_of_mem _ h)
    · simp only [modifyRow, hq, if_false, List.mem_cons] at h
      rcases h with rfl | h
      · exact .inl List.mem_cons_self
      · rcases ih h with h | ⟨old, ho, rfl⟩
        · exact .inl (List.mem_cons_of_mem _ h)
        · exact .inr ⟨old, by simpa [findRow, hq] using ho, rfl⟩

/-- A column stays unique when the rewritten row differs in it from all rows under other keys. -/
theorem nodup_map_modifyRow {β : Type*} {g : ρ → β} (hkeys : (rows.map key).Nodup)
    (h : (rows.map g).Nodup)
    (hnew : ∀ old, findRow key rows k = some old → ∀ r ∈ rows, key r ≠ k → g r ≠ g (f old)) :
    ((modifyRow key k f rows).map g).Nodup := by
  induction rows with
  | nil => exact .nil
  | cons q rows ih =>
    rw [List.map_cons, List.nodup_cons] at hkeys h
    obtain ⟨hq, hrows⟩ := hkeys
    by_cases heq : key q = k
    · simp only [modifyRow, heq, if_true, List.map_cons, List.nodup_cons]
      refine ⟨fun hmem => ?_, h.2⟩
      obtain ⟨r, hr, hg⟩ := List.mem_map.mp hmem
      have hne : key r ≠ k := fun hk => hq (heq.trans hk.symm ▸ List.mem_map_of_mem hr)
      exact hnew q (by simp [findRow, heq]) r (List.mem_cons_of_mem _ hr) hne hg
    · have hrest : ∀ old, findRow key rows k = some old → ∀ r ∈ q :: rows, key r ≠ k →
          g r ≠ g (f old) := fun old ho => hnew old (by simpa [findRow, heq] using ho)
      simp only [modifyRow, heq, if_false, List.map_cons, List.nodup_cons]
      refine ⟨fun hmem => ?_, ih hrows h.2 fun old ho r hr =>
        hrest old ho r (List.mem_cons_of_mem _ hr)⟩
      obtain ⟨r, hr, hg⟩ := List.mem_map.mp hmem
      rcases mem_modifyRow hr with hr | ⟨old, ho, rfl⟩
      · exact h.1 (hg ▸ List.mem_map_of_mem hr)
      · exact hrest old ho q List.mem_cons_self heq hg.symm

theorem findRow_map (hf : ∀ r, key (f r) = key r) (k : κ) :
    findRow key (rows.map f) k = (findRow key rows k).map f := by
  induction rows with
  | nil => rfl
  | cons r rows ih =>
    by_cases hr : key r = k
    · simp [findRow, hf, hr]
    · simpa only [findRow, List.map_cons, List.find?_cons, hf, hr, decide_false] using ih

/-- A row pushed under a new key is found, and nothing else changes. -/
theorem findRow_push (fresh : findRow key rows (key r) = none) (k : κ) :
    findRow key (rows ++ [r]) k = if k = key r then some r else findRow key rows k := by
  by_cases hk : k = key r
  · subst hk
    simp only [findRow] at fresh
    simp [findRow, fresh]
  · have : ¬ key r = k := fun he => hk he.symm
    simp [findRow, hk, this]

theorem nodup_push (fresh : findRow key rows (key r) = none) (nodup : (rows.map key).Nodup) :
    ((rows ++ [r]).map key).Nodup := by
  rw [List.map_append, List.nodup_append]
  refine ⟨nodup, List.nodup_singleton _, ?_⟩
  intro a ha b hb
  obtain ⟨q, hq, rfl⟩ := List.mem_map.mp ha
  obtain rfl : b = key r := by simpa using hb
  exact findRow_eq_none.mp fresh q hq

theorem countP_key_le_one {p : ρ → Bool} (nodup : (rows.map key).Nodup)
    (hp : ∀ r ∈ rows, p r = true → key r = k) : rows.countP p ≤ 1 := by
  have hcount : (rows.map key).count k ≤ 1 := List.nodup_iff_count_le_one.mp nodup k
  rw [List.count, List.countP_map] at hcount
  refine (List.countP_mono_left fun r hr hpr => ?_).trans hcount
  simpa using hp r hr hpr

/-- Rows under one key are dropped, and nothing else changes. -/
theorem findRow_filter_ne (k k' : κ) :
    findRow key (rows.filter fun r => key r ≠ k) k' = if k' = k then none else findRow key rows k' := by
  induction rows with
  | nil => simp [findRow]
  | cons r rows ih =>
    by_cases hr : key r = k
    · by_cases hk : k' = k
      · subst hk
        simpa [List.filter_cons, hr] using ih
      · simpa [List.filter_cons, findRow, hr, hk, Ne.symm hk] using ih
    · by_cases hk : k' = k
      · subst hk
        simp [findRow, hr]
      · by_cases hk' : key r = k'
        · simp [findRow, hk', hk]
        · simpa [findRow, hr, hk, hk'] using ih

/-- Rewriting a row moves a sum over the rows by what changes in that row. -/
theorem sum_map_modifyRow {g : ρ → ℕ} {old : ρ} (h : findRow key rows k = some old) :
    ((modifyRow key k f rows).map g).sum + g old = (rows.map g).sum + g (f old) := by
  induction rows with
  | nil => cases h
  | cons r rows ih =>
    by_cases hr : key r = k
    · obtain rfl : r = old := by simpa [findRow, hr] using h
      simp only [modifyRow, hr, if_true, List.map_cons, List.sum_cons]
      omega
    · have hrest := ih (by simpa [findRow, hr] using h)
      simp only [modifyRow, hr, if_false, List.map_cons, List.sum_cons]
      omega

/-- Dropping the only row under a key takes its share out of a sum over the rows. -/
theorem sum_map_filter_ne {g : ρ → ℕ} {old : ρ} (nodup : (rows.map key).Nodup)
    (h : findRow key rows k = some old) :
    ((rows.filter fun r => key r ≠ k).map g).sum + g old = (rows.map g).sum := by
  induction rows with
  | nil => cases h
  | cons r rows ih =>
    rw [List.map_cons, List.nodup_cons] at nodup
    obtain ⟨hnew, hrows⟩ := nodup
    by_cases hr : key r = k
    · obtain rfl : r = old := by simpa [findRow, hr] using h
      have hkeep : (rows.filter fun q => key q ≠ k) = rows := by
        apply List.filter_eq_self.mpr
        intro q hq
        have hne : key q ≠ k := fun he => hnew (hr.trans he.symm ▸ List.mem_map_of_mem hq)
        simpa using hne
      rw [List.filter_cons_of_neg (by simpa using hr), hkeep, List.map_cons, List.sum_cons]
      omega
    · have hrest := ih hrows (by simpa [findRow, hr] using h)
      rw [List.filter_cons_of_pos (by simpa using hr), List.map_cons, List.map_cons, List.sum_cons,
        List.sum_cons]
      omega

end Rows

section Permutation
variable {α : Type*} [LinearOrder α]

/-- Sort, and drop the elements equal to the one before them. -/
def sortDedup (xs : List α) : List α := (xs.insertionSort (· ≤ ·)).destutter (· ≠ ·)

theorem mem_destutter' {a x : α} {xs : List α} :
    x ∈ xs.destutter' (· ≠ ·) a ↔ x = a ∨ x ∈ xs := by
  induction xs generalizing a with
  | nil => simp
  | cons b xs ih =>
    by_cases hab : a = b
    · subst hab
      rw [List.destutter'_cons_neg _ (by simp), ih]
      simp
    · rw [List.destutter'_cons_pos _ (by simpa using hab), List.mem_cons, ih]
      simp

@[simp] theorem mem_sortDedup {x : α} {xs : List α} : x ∈ sortDedup xs ↔ x ∈ xs := by
  have mem_destutter : ∀ ys : List α, x ∈ ys.destutter (· ≠ ·) ↔ x ∈ ys := by
    intro ys
    cases ys with
    | nil => simp
    | cons y ys => rw [List.destutter_cons', mem_destutter', List.mem_cons]
  rw [sortDedup, mem_destutter, List.mem_insertionSort]

end Permutation
end PiDeck.Collections
