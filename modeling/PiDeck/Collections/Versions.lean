import Mathlib
import PiDeck.Collections.Keyed
import PiDeck.Collections.Revisions

/-! Revisions as versions of content. A table of rows under unique keys is versioned when a row
never goes away, a rewritten one has a larger revision, and so a revision tells the content. -/
namespace PiDeck.Collections
variable {κ ρ : Type*} {key : ρ → κ} {rev : ρ → ℕ} {rows rows' rows'' : List ρ}

structure Versioned (key : ρ → κ) (rev : ρ → ℕ) (rows rows' : List ρ) : Prop where
  kept : ∀ r ∈ rows, ∃ r' ∈ rows', key r' = key r
  monotone : ∀ r ∈ rows, ∀ r' ∈ rows', key r' = key r → rev r ≤ rev r'
  newer : ∀ r ∈ rows, ∀ r' ∈ rows', key r' = key r → r' ≠ r → rev r < rev r'
  same : ∀ r ∈ rows, ∀ r' ∈ rows', key r' = key r → rev r' = rev r → r' = r

/-- A table that only advances is versioned. -/
theorem Advances.versioned [DecidableEq κ] {R : Option ρ → ρ → Prop} {changed : Set κ}
    (nodup : (rows.map key).Nodup) (nodup' : (rows'.map key).Nodup)
    (A : Advances rev R changed (findRow key rows) (findRow key rows')) :
    Versioned key rev rows rows' := by
  have found : ∀ r ∈ rows, ∀ r' ∈ rows', key r' = key r →
      findRow key rows (key r) = some r ∧ findRow key rows' (key r) = some r' := by
    intro r hr r' hr' hkey
    exact ⟨findRow_of_mem nodup hr, hkey ▸ findRow_of_mem nodup' hr'⟩
  refine ⟨?_, ?_, ?_, ?_⟩
  · intro r hr
    obtain ⟨r', hr', -⟩ := A.kept _ _ (findRow_of_mem nodup hr)
    exact ⟨r', findRow_mem hr', findRow_key hr'⟩
  · intro r hr r' hr' hkey
    obtain ⟨h, h'⟩ := found r hr r' hr' hkey
    exact A.rev_le h h'
  · intro r hr r' hr' hkey hne
    obtain ⟨h, h'⟩ := found r hr r' hr' hkey
    have hle := A.rev_le h h'
    have : rev r ≠ rev r' := fun he => hne (A.eq_of_rev h h' he)
    omega
  · intro r hr r' hr' hkey hrev
    obtain ⟨h, h'⟩ := found r hr r' hr' hkey
    exact A.eq_of_rev h h' hrev.symm

/-- A rewrite that keeps the key of a row and gives a changed row a larger revision. -/
structure Bumps (key : ρ → κ) (rev : ρ → ℕ) (f : ρ → ρ) : Prop where
  key : ∀ r, key (f r) = key r
  rev : ∀ r, f r = r ∨ rev r < rev (f r)

theorem Bumps.always {f : ρ → ρ} (hkey : ∀ r, key (f r) = key r) (hrev : ∀ r, rev r < rev (f r)) :
    Bumps key rev f := ⟨hkey, fun r => .inr (hrev r)⟩

/-- A rewrite made only of some rows. -/
theorem Bumps.ite {f : ρ → ρ} {p : ρ → Prop} [DecidablePred p] (hkey : ∀ r, key (f r) = key r)
    (hrev : ∀ r, rev r < rev (f r)) : Bumps key rev (fun r => if p r then f r else r) where
  key r := by
    split_ifs
    · exact hkey r
    · rfl
  rev r := by
    split_ifs
    · exact .inr (hrev r)
    · exact .inl rfl

theorem Bumps.nodup_map {f : ρ → ρ} (hf : Bumps key rev f) (nodup : (rows.map key).Nodup) :
    ((rows.map f).map key).Nodup := by
  rw [List.map_map, show key ∘ f = key from funext hf.key]
  exact nodup

section Tables
variable [DecidableEq κ] {f : ρ → ρ} {k : κ} {r : ρ}

theorem Bumps.modifyRow (hf : Bumps key rev f) :
    Advances rev (fun _ _ => True) Set.univ (findRow key rows)
      (findRow key (modifyRow key k f rows)) :=
  .update (Set.mem_univ k) (fun r _ => (hf.rev r).imp_right (fun h => ⟨h, trivial⟩))
    (findRow_modifyRow fun r hr => (hf.key r).trans hr)

theorem Bumps.map (hf : Bumps key rev f) :
    Advances rev (fun _ _ => True) Set.univ (findRow key rows) (findRow key (rows.map f)) :=
  .map (fun k r _ => (hf.rev r).imp_right (fun h => ⟨Set.mem_univ k, h, trivial⟩))
    (findRow_map hf.key)

theorem Advances.push (fresh : findRow key rows (key r) = none) :
    Advances rev (fun _ _ => True) Set.univ (findRow key rows) (findRow key (rows ++ [r])) :=
  .insert (Set.mem_univ (key r)) fresh trivial (findRow_push fresh)

theorem Bumps.nodup_modifyRow (hf : Bumps key rev f) (nodup : (rows.map key).Nodup) :
    ((Collections.modifyRow key k f rows).map key).Nodup := by
  rw [map_key_modifyRow fun r hr => (hf.key r).trans hr]
  exact nodup

theorem Bumps.findRow_none (hf : Bumps key rev f) {k' : κ} (h : findRow key rows k' = none) :
    findRow key (Collections.modifyRow key k f rows) k' = none := by
  rw [findRow_modifyRow fun r hr => (hf.key r).trans hr]
  split_ifs with hk
  · rw [← hk, h]
    rfl
  · exact h

/-- The rewritten row is in the table. -/
theorem Bumps.mem_modifyRow (hf : Bumps key rev f) (h : findRow key rows k = some r) :
    f r ∈ Collections.modifyRow key k f rows := by
  have found : findRow key (Collections.modifyRow key k f rows) k = some (f r) := by
    rw [findRow_modifyRow (fun r hr => (hf.key r).trans hr), if_pos rfl, h]
    rfl
  exact findRow_mem found

end Tables
end PiDeck.Collections
