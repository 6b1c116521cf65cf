import Mathlib
import PiDeck.Collections.Increasing

/-! Lists of entries with increasing keys, as maps: an entry is put in its place or takes the place
of the one with its key. Of such a map only the entries with the highest keys may be kept, and
putting entries in one at a time never brings back one that has gone. -/
namespace PiDeck.Collections

variable {α : Type*}

/-- The last `n` entries. -/
def lastOf (n : ℕ) (xs : List α) : List α := xs.drop (xs.length - n)

theorem lastOf_of_le {n : ℕ} {xs : List α} (h : xs.length ≤ n) : lastOf n xs = xs := by
  rw [lastOf, Nat.sub_eq_zero_of_le h, List.drop_zero]

theorem length_lastOf (n : ℕ) (xs : List α) : (lastOf n xs).length = min n xs.length := by
  rw [lastOf, List.length_drop]
  omega

/-- The entries before do not matter when there are enough. -/
theorem lastOf_append {n : ℕ} {xs ys : List α} (h : n ≤ ys.length) :
    lastOf n (xs ++ ys) = lastOf n ys := by
  rw [lastOf, lastOf, List.drop_append, List.drop_eq_nil_of_le (by simp; omega), List.nil_append]
  congr 1
  simp only [List.length_append]
  omega

/-- What was dropped before more comes is not missed afterwards. -/
theorem lastOf_lastOf_append (n : ℕ) (xs ys : List α) :
    lastOf n (lastOf n xs ++ ys) = lastOf n (xs ++ ys) := by
  rcases Nat.le_total xs.length n with hshort | hlong
  · rw [lastOf_of_le hshort]
  · have hcut : xs ++ ys = xs.take (xs.length - n) ++ (lastOf n xs ++ ys) := by
      rw [← List.append_assoc, lastOf, List.take_append_drop]
    have henough : n ≤ (lastOf n xs ++ ys).length := by
      rw [List.length_append, length_lastOf]
      omega
    rw [hcut, lastOf_append henough]

theorem lastOf_suffix (n : ℕ) (xs : List α) : lastOf n xs <:+ xs := List.drop_suffix _ _

variable {key : α → ℕ} {x y : α} {xs ys : List α} {n : ℕ}

/-- The entries below a key. -/
def below (key : α → ℕ) (n : ℕ) (xs : List α) : List α := xs.filter fun x => decide (key x < n)

/-- Put an entry in its place. -/
def upsert (key : α → ℕ) (x : α) (xs : List α) : List α :=
  below key (key x) xs ++ x :: above key (key x) xs

theorem mem_upsert : y ∈ upsert key x xs ↔ y = x ∨ y ∈ xs ∧ key y ≠ key x := by
  simp only [upsert, below, above, List.mem_append, List.mem_cons, List.mem_filter,
    decide_eq_true_eq]
  constructor
  · rintro (⟨hmem, hlt⟩ | rfl | ⟨hmem, hlt⟩)
    · exact .inr ⟨hmem, hlt.ne⟩
    · exact .inl rfl
    · exact .inr ⟨hmem, hlt.ne'⟩
  · rintro (rfl | ⟨hmem, hne⟩)
    · exact .inr (.inl rfl)
    · rcases Nat.lt_or_gt_of_ne hne with hlt | hlt
      · exact .inl ⟨hmem, hlt⟩
      · exact .inr (.inr ⟨hmem, hlt⟩)

namespace Increasing

/-- Lists with increasing keys are known by their members. -/
theorem ext (hx : Increasing key xs) (hy : Increasing key ys) (h : ∀ x, x ∈ xs ↔ x ∈ ys) :
    xs = ys := by
  have hnodup : ∀ {zs : List α}, Increasing key zs → zs.Nodup := fun hz =>
    hz.imp fun hlt heq => absurd (congrArg key heq) hlt.ne
  have hperm : xs.Perm ys := (List.perm_ext_iff_of_nodup (hnodup hx) (hnodup hy)).mpr h
  refine hperm.eq_of_pairwise (fun a b _ _ hab hba => ?_) hx hy
  exact absurd hba (Nat.lt_asymm hab)

theorem upsert (h : Increasing key xs) (x : α) : Increasing key (Collections.upsert key x xs) := by
  refine List.pairwise_append.mpr ⟨h.filter _, List.pairwise_cons.mpr ⟨?_, h.filter _⟩, ?_⟩
  · intro z hz
    simpa using (List.mem_filter.mp hz).2
  · intro z hz w hw
    have hzx : key z < key x := by simpa using (List.mem_filter.mp hz).2
    rcases List.mem_cons.mp hw with rfl | hw
    · exact hzx
    · have hxw : key x < key w := by simpa using (List.mem_filter.mp hw).2
      omega

theorem lastOf (h : Increasing key xs) (n : ℕ) : Increasing key (Collections.lastOf n xs) :=
  h.sublist (List.drop_sublist _ _)

theorem nodup_keys (h : Increasing key xs) : (xs.map key).Nodup :=
  List.pairwise_map.mpr (h.imp fun hlt => hlt.ne)

/-- Every key stays. -/
theorem length_le_upsert (h : Increasing key xs) (x : α) :
    xs.length ≤ (Collections.upsert key x xs).length := by
  have hkeys : xs.map key ⊆ (Collections.upsert key x xs).map key := by
    intro k hk
    obtain ⟨y, hy, rfl⟩ := List.mem_map.mp hk
    by_cases hkey : key y = key x
    · exact List.mem_map.mpr ⟨x, mem_upsert.mpr (.inl rfl), hkey.symm⟩
    · exact List.mem_map_of_mem (mem_upsert.mpr (.inr ⟨hy, hkey⟩))
  simpa using (h.nodup_keys.subperm hkeys).length_le

/-- A key cuts the list in two, around the entry that has it. -/
theorem cases_at (h : Increasing key xs) (n : ℕ) :
    xs = below key n xs ++ above key n xs ∨
      ∃ y, key y = n ∧ xs = below key n xs ++ y :: above key n xs := by
  induction xs with
  | nil => exact .inl rfl
  | cons y ys ih =>
    obtain ⟨hy, hys⟩ := List.pairwise_cons.mp h
    rcases Nat.lt_or_ge (key y) n with hlt | hge
    · have hbelow : below key n (y :: ys) = y :: below key n ys :=
        List.filter_cons_of_pos (by simpa using hlt)
      have habove : above key n (y :: ys) = above key n ys :=
        List.filter_cons_of_neg (by simpa using hlt.le)
      rw [hbelow, habove]
      rcases ih hys with hcut | ⟨z, hz, hcut⟩
      · exact .inl (congrArg (y :: ·) hcut)
      · exact .inr ⟨z, hz, congrArg (y :: ·) hcut⟩
    · have hrest : ∀ z ∈ ys, n < key z := fun z hz => Nat.lt_of_le_of_lt hge (hy z hz)
      have hbelow : below key n (y :: ys) = [] := by
        refine List.filter_eq_nil_iff.mpr fun z hz => ?_
        rcases List.mem_cons.mp hz with rfl | hz
        · simpa using hge
        · simpa using (hrest z hz).le
      have habove : above key n ys = ys := List.filter_eq_self.mpr fun z hz => by
        simpa using hrest z hz
      simp only [hbelow, List.nil_append]
      rcases Nat.lt_or_eq_of_le hge with hgt | heq
      · left
        rw [above, List.filter_cons_of_pos (by simpa using hgt), ← above, habove]
      · right
        refine ⟨y, heq.symm, ?_⟩
        rw [above, List.filter_cons_of_neg (by simpa using heq.ge), ← above, habove]

/-- The entries below a key are those before their number. -/
theorem below_iff (h : Increasing key xs) {n i : ℕ} (hi : xs[i]? = some y) :
    key y < n ↔ i < (below key n xs).length := by
  have hrest : ∃ rest, xs = below key n xs ++ rest ∧ ∀ z ∈ rest, n ≤ key z := by
    have habove : ∀ z ∈ above key n xs, n ≤ key z := fun z hz => by
      have hlt : n < key z := by simpa using (List.mem_filter.mp hz).2
      exact hlt.le
    rcases h.cases_at n with hcut | ⟨z, hz, hcut⟩
    · exact ⟨_, hcut, habove⟩
    · refine ⟨_, hcut, fun w hw => ?_⟩
      rcases List.mem_cons.mp hw with rfl | hw
      · exact hz.ge
      · exact habove w hw
  obtain ⟨rest, hcut, hge⟩ := hrest
  rw [hcut] at hi
  rcases Nat.lt_or_ge i (below key n xs).length with hlt | hout
  · rw [List.getElem?_append_left hlt] at hi
    have hmem := List.mem_of_getElem? hi
    exact iff_of_true (by simpa using (List.mem_filter.mp hmem).2) hlt
  · rw [List.getElem?_append_right hout] at hi
    exact iff_of_false (Nat.not_lt.mpr (hge y (List.mem_of_getElem? hi))) (Nat.not_lt.mpr hout)

end Increasing

/-- An entry is put behind all lower ones. -/
theorem upsert_append_right (h : ∀ y ∈ xs, key y < key x) :
    upsert key x (xs ++ ys) = xs ++ upsert key x ys := by
  have hbelow : below key (key x) xs = xs :=
    List.filter_eq_self.mpr fun y hy => by simpa using h y hy
  have habove : above key (key x) xs = [] :=
    List.filter_eq_nil_iff.mpr fun y hy => by simpa using (h y hy).le
  rw [upsert, upsert, below, above, List.filter_append, List.filter_append, ← below, ← above,
    ← below, ← above, hbelow, habove, List.nil_append, List.append_assoc]

theorem upsert_last (h : ∀ y ∈ xs, key y < key x) : upsert key x xs = xs ++ [x] := by
  have hput : upsert key x (xs ++ []) = xs ++ upsert key x [] := upsert_append_right h
  rwa [List.append_nil] at hput

/-- An entry is put before all higher ones. -/
theorem upsert_append_left (h : ∀ y ∈ ys, key x < key y) :
    upsert key x (xs ++ ys) = upsert key x xs ++ ys := by
  have hbelow : below key (key x) ys = [] :=
    List.filter_eq_nil_iff.mpr fun y hy => by simpa using (h y hy).le
  have habove : above key (key x) ys = ys :=
    List.filter_eq_self.mpr fun y hy => by simpa using h y hy
  rw [upsert, upsert, below, above, List.filter_append, List.filter_append, ← below, ← above,
    ← below, ← above, hbelow, habove, List.append_nil, List.append_assoc, List.cons_append]

/-- What was dropped before an entry is put in its place is not missed afterwards. -/
theorem lastOf_upsert (h : Increasing key xs) (n : ℕ) (x : α) :
    lastOf n (upsert key x (lastOf n xs)) = lastOf n (upsert key x xs) := by
  rcases Nat.lt_or_ge n xs.length with hlong | hshort
  swap
  · rw [lastOf_of_le hshort]
  have hcut : xs = xs.take (xs.length - n) ++ lastOf n xs := (List.take_append_drop _ xs).symm
  have hlength : (lastOf n xs).length = n := by
    rw [length_lastOf]
    omega
  have hbefore := List.pairwise_append.mp (hcut ▸ h)
  obtain ⟨-, hlast, hcross⟩ := hbefore
  by_cases hlow : ∀ y ∈ xs.take (xs.length - n), key y < key x
  · -- The entry belongs behind what was dropped.
    have hroom : n ≤ (upsert key x (lastOf n xs)).length :=
      hlength.ge.trans (Increasing.length_le_upsert hlast x)
    conv_rhs => rw [hcut, upsert_append_right hlow, lastOf_append hroom]
  · -- The entry belongs before everything kept, and goes again.
    push Not at hlow
    obtain ⟨y, hy, hxy⟩ := hlow
    have hhigh : ∀ z ∈ lastOf n xs, key x < key z := fun z hz => by
      have := hcross y hy z hz
      omega
    have hkept : upsert key x ([] ++ lastOf n xs) = upsert key x [] ++ lastOf n xs :=
      upsert_append_left hhigh
    rw [List.nil_append] at hkept
    conv_rhs => rw [hcut, upsert_append_left hhigh, lastOf_append hlength.ge]
    rw [hkept, lastOf_append hlength.ge]

end PiDeck.Collections
