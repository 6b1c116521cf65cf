import Mathlib
import PiDeck.Collections.Keyed

/-! Maps that remember insertion order: replacing a value keeps its place, a new key goes last,
and removal shifts the later entries down. Keys are unique by construction. -/
namespace PiDeck.Collections

structure IndexMap (κ ν : Type*) where
  entries : List (κ × ν)
  nodup : (entries.map Prod.fst).Nodup
  deriving DecidableEq

namespace IndexMap
variable {κ ν : Type*}

@[ext] theorem ext {m n : IndexMap κ ν} (h : m.entries = n.entries) : m = n := by
  cases m; cases n; congr

def empty : IndexMap κ ν := ⟨[], by simp⟩

instance : Inhabited (IndexMap κ ν) := ⟨empty⟩

@[simp] theorem entries_empty : (empty : IndexMap κ ν).entries = [] := rfl

def keys (m : IndexMap κ ν) : List κ := m.entries.map Prod.fst
def values (m : IndexMap κ ν) : List ν := m.entries.map Prod.snd
def length (m : IndexMap κ ν) : ℕ := m.entries.length
def isEmpty (m : IndexMap κ ν) : Bool := m.entries.isEmpty

/-- The oldest entry. -/
def first? (m : IndexMap κ ν) : Option (κ × ν) := m.entries.head?

/-- Keep the entries that satisfy `p`, in order. -/
def retain (p : κ → ν → Bool) (m : IndexMap κ ν) : IndexMap κ ν :=
  ⟨m.entries.filter (fun e => p e.1 e.2),
    m.nodup.sublist (List.filter_sublist.map Prod.fst)⟩

/-- Drop the `n` oldest entries. -/
def dropOldest (m : IndexMap κ ν) (n : ℕ) : IndexMap κ ν :=
  ⟨m.entries.drop n, m.nodup.sublist ((List.drop_sublist _ _).map Prod.fst)⟩

/-- Change every value in its place. -/
def mapValues (f : ν → ν) (m : IndexMap κ ν) : IndexMap κ ν :=
  ⟨m.entries.map fun e => (e.1, f e.2), by
    rw [List.map_map]
    exact m.nodup⟩

@[simp] theorem entries_retain (p : κ → ν → Bool) (m : IndexMap κ ν) :
    (m.retain p).entries = m.entries.filter (fun e => p e.1 e.2) := rfl

@[simp] theorem entries_dropOldest (m : IndexMap κ ν) (n : ℕ) :
    (m.dropOldest n).entries = m.entries.drop n := rfl

theorem eq_of_mem {m : IndexMap κ ν} {k : κ} {v w : ν}
    (hv : (k, v) ∈ m.entries) (hw : (k, w) ∈ m.entries) : v = w := by
  have h := List.inj_on_of_nodup_map m.nodup hv hw rfl
  exact (Prod.mk.injEq .. ▸ h).2

theorem mem_keys {m : IndexMap κ ν} {k : κ} : k ∈ m.keys ↔ ∃ v, (k, v) ∈ m.entries := by
  simp [keys]

@[simp] theorem mem_retain {p : κ → ν → Bool} {m : IndexMap κ ν} {e : κ × ν} :
    e ∈ (m.retain p).entries ↔ e ∈ m.entries ∧ p e.1 e.2 = true := by simp

theorem mem_dropOldest {m : IndexMap κ ν} {n : ℕ} {e : κ × ν} (h : e ∈ (m.dropOldest n).entries) :
    e ∈ m.entries := List.mem_of_mem_drop h

theorem first?_mem {m : IndexMap κ ν} {e : κ × ν} (h : m.first? = some e) : e ∈ m.entries :=
  List.mem_of_mem_head? h

theorem first?_eq_none {m : IndexMap κ ν} : m.first? = none ↔ m.entries = [] := by
  simp [first?]

theorem isEmpty_iff {m : IndexMap κ ν} : m.isEmpty = true ↔ m.entries = [] := by
  simp [isEmpty]

/-- A quantity summed over the values. -/
def sum (g : ν → ℕ) (m : IndexMap κ ν) : ℕ := (m.entries.map fun e => g e.2).sum

theorem length_eq_sum {m : IndexMap κ ν} : m.length = m.sum fun _ => 1 := by
  simp [length, sum]

variable [DecidableEq κ]

def get? (m : IndexMap κ ν) (k : κ) : Option ν :=
  (m.entries.find? (fun e => e.1 = k)).map Prod.snd

def contains (m : IndexMap κ ν) (k : κ) : Bool := (m.get? k).isSome

/-- Change the value stored under `k`, if any, in its place. -/
def modify (m : IndexMap κ ν) (k : κ) (f : ν → ν) : IndexMap κ ν :=
  ⟨m.entries.map (fun e => if e.1 = k then (e.1, f e.2) else e), by
    have hk : (m.entries.map (fun e => if e.1 = k then (e.1, f e.2) else e)).map Prod.fst =
        m.entries.map Prod.fst := by
      rw [List.map_map]
      refine List.map_congr_left (fun e _ => ?_)
      by_cases h : e.1 = k <;> simp [h]
    rw [hk]
    exact m.nodup⟩

def insert (m : IndexMap κ ν) (k : κ) (v : ν) : IndexMap κ ν :=
  if h : k ∈ m.keys then m.modify k (fun _ => v)
  else ⟨m.entries ++ [(k, v)], by
    rw [List.map_append, List.nodup_append]
    refine ⟨m.nodup, by simp, ?_⟩
    rintro a ha b hb rfl
    simp only [List.map_cons, List.map_nil, List.mem_singleton] at hb
    exact h (hb ▸ ha)⟩

def shiftRemove (m : IndexMap κ ν) (k : κ) : IndexMap κ ν := m.retain (fun k' _ => decide (k' ≠ k))

/-- Lookup and membership agree because keys are unique. -/
theorem get?_eq_some {m : IndexMap κ ν} {k : κ} {v : ν} :
    m.get? k = some v ↔ (k, v) ∈ m.entries := by
  constructor
  · intro h
    obtain ⟨e, he, rfl⟩ := Option.map_eq_some_iff.mp h
    obtain rfl : e.1 = k := by simpa using List.find?_some he
    exact List.mem_of_find?_eq_some he
  · intro h
    cases hf : m.entries.find? (fun e => e.1 = k) with
    | none =>
      have := List.find?_eq_none.mp hf (k, v) h
      simp at this
    | some e =>
      obtain rfl : e.1 = k := by simpa using List.find?_some hf
      have he : (e.1, e.2) ∈ m.entries := List.mem_of_find?_eq_some hf
      simp [get?, hf, eq_of_mem he h]

theorem get?_eq_none {m : IndexMap κ ν} {k : κ} : m.get? k = none ↔ k ∉ m.keys := by
  constructor
  · rintro h hk
    obtain ⟨⟨k', v⟩, hm, rfl⟩ := List.mem_map.mp hk
    simp [get?_eq_some.mpr hm] at h
  · intro hk
    by_contra h
    obtain ⟨v, hv⟩ := Option.ne_none_iff_exists'.mp h
    exact hk (List.mem_map.mpr ⟨(k, v), get?_eq_some.mp hv, rfl⟩)

theorem contains_iff {m : IndexMap κ ν} {k : κ} : m.contains k = true ↔ k ∈ m.keys := by
  rw [contains, Option.isSome_iff_ne_none, ne_eq, get?_eq_none, not_not]

@[simp] theorem mem_shiftRemove {m : IndexMap κ ν} {k : κ} {e : κ × ν} :
    e ∈ (m.shiftRemove k).entries ↔ e ∈ m.entries ∧ e.1 ≠ k := by simp [shiftRemove]

theorem mem_modify {m : IndexMap κ ν} {k : κ} {f : ν → ν} {e : κ × ν} :
    e ∈ (m.modify k f).entries ↔
      ∃ v, (e.1, v) ∈ m.entries ∧ e.2 = if e.1 = k then f v else v := by
  simp only [modify, List.mem_map]
  constructor
  · rintro ⟨⟨k', v⟩, hm, rfl⟩
    refine ⟨v, ?_, ?_⟩ <;> by_cases h : k' = k <;> simp_all
  · rintro ⟨v, hm, hv⟩
    refine ⟨(e.1, v), hm, ?_⟩
    by_cases h : e.1 = k <;> simp_all [Prod.ext_iff]

theorem keys_modify (m : IndexMap κ ν) (k : κ) (f : ν → ν) : (m.modify k f).keys = m.keys := by
  simp only [keys, modify, List.map_map]
  refine List.map_congr_left (fun e _ => ?_)
  by_cases h : e.1 = k <;> simp [h]

theorem entries_insert_of_notMem {m : IndexMap κ ν} {k : κ} {v : ν} (h : k ∉ m.keys) :
    (m.insert k v).entries = m.entries ++ [(k, v)] := by
  simp [insert, h]

theorem mem_insert_of_notMem {m : IndexMap κ ν} {k : κ} {v : ν} (h : k ∉ m.keys) {e : κ × ν} :
    e ∈ (m.insert k v).entries ↔ e ∈ m.entries ∨ e = (k, v) := by
  simp [entries_insert_of_notMem h]

/-- Whatever a map held under `k`, inserting leaves the old entries and the new one. -/
theorem mem_of_mem_insert {m : IndexMap κ ν} {k : κ} {v : ν} {e : κ × ν}
    (h : e ∈ (m.insert k v).entries) : e ∈ m.entries ∨ e = (k, v) := by
  by_cases hk : k ∈ m.keys
  · simp only [insert, hk, dite_true] at h
    obtain ⟨w, hw, he⟩ := mem_modify.mp h
    by_cases hek : e.1 = k
    · exact .inr (Prod.ext hek (by rw [he, if_pos hek]))
    · refine .inl ?_
      rw [if_neg hek] at he
      rwa [← he] at hw
  · exact (mem_insert_of_notMem hk).mp h

theorem get?_insert {m : IndexMap κ ν} {k k' : κ} {v : ν} :
    (m.insert k v).get? k' = if k' = k then some v else m.get? k' := by
  by_cases hk : k ∈ m.keys
  · have hmem : ∀ w, (k', w) ∈ (m.insert k v).entries ↔
        ∃ old, (k', old) ∈ m.entries ∧ w = if k' = k then v else old := by
      intro w
      simp only [insert, hk, dite_true]
      exact mem_modify
    split
    next h =>
      obtain ⟨old, hold⟩ := mem_keys.mp hk
      exact get?_eq_some.mpr ((hmem v).mpr ⟨old, h ▸ hold, (if_pos h).symm⟩)
    next h =>
      refine Option.ext fun w => ?_
      rw [get?_eq_some, get?_eq_some, hmem w]
      simp [h]
  · have hmem : ∀ w, (k', w) ∈ (m.insert k v).entries ↔ (k', w) ∈ m.entries ∨ (k', w) = (k, v) :=
      fun w => mem_insert_of_notMem hk
    split
    next h => exact get?_eq_some.mpr ((hmem v).mpr (.inr (by rw [h])))
    next h =>
      refine Option.ext fun w => ?_
      rw [get?_eq_some, get?_eq_some, hmem w]
      simp [h]

theorem get?_retain {m : IndexMap κ ν} {p : κ → ν → Bool} {k : κ} :
    (m.retain p).get? k = (m.get? k).filter (p k) := by
  refine Option.ext fun v => ?_
  rw [get?_eq_some, mem_retain, Option.filter_eq_some_iff, get?_eq_some]

theorem get?_shiftRemove {m : IndexMap κ ν} {k k' : κ} :
    (m.shiftRemove k).get? k' = if k' = k then none else m.get? k' := by
  rw [shiftRemove, get?_retain]
  split
  next h =>
    subst h
    cases m.get? k' <;> simp
  next h => cases m.get? k' <;> simp [h]

section Sum
variable {m : IndexMap κ ν} {k : κ} {v old : ν} {g : ν → ℕ}

theorem sum_shiftRemove (h : m.get? k = some old) : (m.shiftRemove k).sum g + g old = m.sum g := by
  obtain ⟨e, he, rfl⟩ := Option.map_eq_some_iff.mp h
  exact sum_map_filter_ne (g := fun e => g e.2) m.nodup he

theorem modifyRow_entries {entries : List (κ × ν)} (nodup : (entries.map Prod.fst).Nodup)
    {f : ν → ν} : entries.map (fun e => if e.1 = k then (e.1, f e.2) else e) =
      modifyRow Prod.fst k (fun e => (e.1, f e.2)) entries := by
  induction entries with
  | nil => rfl
  | cons e entries ih =>
    rw [List.map_cons, List.nodup_cons] at nodup
    obtain ⟨hnew, hrest⟩ := nodup
    by_cases he : e.1 = k
    · have hkeep : entries.map (fun e => if e.1 = k then (e.1, f e.2) else e) = entries := by
        refine (List.map_congr_left ?_).trans (List.map_id entries)
        intro d hd
        have hne : d.1 ≠ k := fun h => hnew (he.trans h.symm ▸ List.mem_map_of_mem hd)
        exact if_neg hne
      rw [List.map_cons, hkeep, modifyRow, if_pos he, if_pos he]
    · rw [List.map_cons, ih hrest, modifyRow, if_neg he, if_neg he]

/-- An insertion adds the value and takes out the one it replaces. -/
theorem sum_insert : (m.insert k v).sum g + ((m.get? k).map g).getD 0 = m.sum g + g v := by
  unfold insert
  split
  · rename_i hk
    obtain ⟨old, hold⟩ := mem_keys.mp hk
    have hget := get?_eq_some.mpr hold
    obtain ⟨e, he, rfl⟩ := Option.map_eq_some_iff.mp hget
    rw [hget]
    have h := sum_map_modifyRow (g := fun e => g e.2) (f := fun e => (e.1, v)) he
    rw [← modifyRow_entries m.nodup (f := fun _ => v)] at h
    exact h
  · rename_i hk
    rw [get?_eq_none.mpr hk]
    simp [sum]

/-- Taking a value out and putting it in again changes no sum. -/
theorem sum_reinsert (h : m.get? k = some v) : ((m.shiftRemove k).insert k v).sum g = m.sum g := by
  have hgone : (m.shiftRemove k).get? k = none := by
    apply get?_eq_none.mpr
    intro hk
    obtain ⟨w, hw⟩ := mem_keys.mp hk
    exact (mem_shiftRemove.mp hw).2 rfl
  have hdrop := sum_shiftRemove (g := g) h
  have hput := sum_insert (m := m.shiftRemove k) (k := k) (v := v) (g := g)
  rw [hgone] at hput
  simp only [Option.map_none, Option.getD_none] at hput
  omega

end Sum
end IndexMap
end PiDeck.Collections
