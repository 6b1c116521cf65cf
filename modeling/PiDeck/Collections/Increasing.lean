import Mathlib

/-! Logs whose entries carry strictly increasing keys, and the parts of a log that a reader with a
cursor has and has not seen. -/
namespace PiDeck.Collections

variable {α : Type*} {key : α → ℕ}

def Increasing (key : α → ℕ) (xs : List α) : Prop := xs.Pairwise fun a b => key a < key b

/-- The entries past a cursor. -/
def above (key : α → ℕ) (n : ℕ) (xs : List α) : List α := xs.filter fun x => decide (n < key x)

/-- The entries past `c` up to `n`. -/
def between (key : α → ℕ) (c n : ℕ) (xs : List α) : List α :=
  xs.filter fun x => decide (c < key x ∧ key x ≤ n)

namespace Increasing
variable {n c : ℕ} {x : α} {xs ys tl : List α}

theorem filter (h : Increasing key xs) (p : α → Bool) : Increasing key (xs.filter p) :=
  h.sublist List.filter_sublist

/-- An entry with a key above all others may be added at the end. -/
theorem concat (h : Increasing key xs) (hx : ∀ y ∈ xs, key y < key x) :
    Increasing key (xs ++ [x]) := by
  refine List.pairwise_append.mpr ⟨h, List.pairwise_singleton _ _, fun y hy z hz => ?_⟩
  obtain rfl := List.mem_singleton.mp hz
  exact hx y hy

/-- A cursor cuts the log in two. -/
theorem cut (h : Increasing key xs) (n : ℕ) :
    xs = (xs.filter fun x => decide (key x ≤ n)) ++ above key n xs := by
  induction xs with
  | nil => rfl
  | cons y ys ih =>
    obtain ⟨hy, hys⟩ := List.pairwise_cons.mp h
    by_cases hle : key y ≤ n
    · have hn : ¬ n < key y := by omega
      simp only [above, List.filter_cons, hle, hn, decide_true, if_true, decide_false,
        Bool.false_eq_true, if_false, List.cons_append]
      exact congrArg _ (ih hys)
    · have hgt : ∀ z ∈ y :: ys, n < key z := by
        intro z hz
        rcases List.mem_cons.mp hz with rfl | hz
        · omega
        · have := hy z hz
          omega
      have hnone : (y :: ys).filter (fun x => decide (key x ≤ n)) = [] :=
        List.filter_eq_nil_iff.mpr fun z hz => by simpa using hgt z hz
      have hall : above key n (y :: ys) = y :: ys :=
        List.filter_eq_self.mpr fun z hz => by simpa using hgt z hz
      rw [hnone, hall, List.nil_append]

/-- Moving the cursor over the next entry. -/
theorem above_cons (h : Increasing key xs) (hx : above key n xs = x :: tl) :
    n < key x ∧ above key (key x) xs = tl := by
  have hcut := h.cut n
  have hmem : x ∈ above key n xs := hx ▸ List.mem_cons_self
  have hlt : n < key x := by simpa [above] using (List.mem_filter.mp hmem).2
  refine ⟨hlt, ?_⟩
  have htl : ∀ z ∈ tl, key x < key z := by
    have hinc := h.filter fun y => decide (n < key y)
    rw [show xs.filter (fun y => decide (n < key y)) = x :: tl from hx] at hinc
    exact (List.pairwise_cons.mp hinc).1
  have hlow : (xs.filter fun y => decide (key y ≤ n)).filter (fun y => decide (key x < key y)) = [] :=
    List.filter_eq_nil_iff.mpr fun z hz => by
      have : key z ≤ n := by simpa using (List.mem_filter.mp hz).2
      simp
      omega
  have hhigh : tl.filter (fun y => decide (key x < key y)) = tl :=
    List.filter_eq_self.mpr fun z hz => by simpa using htl z hz
  calc above key (key x) xs
      = above key (key x) ((xs.filter fun y => decide (key y ≤ n)) ++ x :: tl) := by
        rw [← hx, ← hcut]
    _ = tl := by
        rw [above, List.filter_append, hlow, List.filter_cons, hhigh]
        simp

/-- Moving the cursor over several entries, to the key of the last one. -/
theorem above_append (h : Increasing key xs) (hx : above key n xs = ys ++ tl) :
    above key ((ys.getLast?.map key).getD n) xs = tl := by
  induction ys generalizing n with
  | nil => simpa using hx
  | cons y ys ih =>
    have := ih (h.above_cons hx).2
    cases ys with
    | nil => simpa using this
    | cons z zs =>
      rw [List.getLast?_cons_cons]
      cases hl : (z :: zs).getLast? with
      | none => simp at hl
      | some w => simpa [hl] using this

/-- What was seen grows by the entry that the cursor moves over. -/
theorem between_cons (h : Increasing key xs) (hx : above key n xs = x :: tl) (hc : c ≤ n) :
    between key c (key x) xs = between key c n xs ++ [x] := by
  obtain ⟨hlt, habove⟩ := h.above_cons hx
  have hcut := h.cut n
  have hhigh : ∀ z ∈ tl, key x < key z := fun z hz => by
    rw [← habove] at hz
    simpa [above] using (List.mem_filter.mp hz).2
  have htl : ∀ m, m ≤ key x → tl.filter (fun y => decide (c < key y ∧ key y ≤ m)) = [] :=
    fun m hm => List.filter_eq_nil_iff.mpr fun z hz => by
      have := hhigh z hz
      simp
      omega
  have hlow : (xs.filter fun y => decide (key y ≤ n)).filter
        (fun y => decide (c < key y ∧ key y ≤ key x)) =
      (xs.filter fun y => decide (key y ≤ n)).filter (fun y => decide (c < key y ∧ key y ≤ n)) :=
    List.filter_congr fun z hz => by
      have : key z ≤ n := by simpa using (List.mem_filter.mp hz).2
      simp only [decide_eq_decide]
      omega
  have hnx : ¬ key x ≤ n := by omega
  have hcx : c < key x := by omega
  have hsplit : xs = (xs.filter fun y => decide (key y ≤ n)) ++ x :: tl := hx ▸ hcut
  calc between key c (key x) xs
      = between key c (key x) ((xs.filter fun y => decide (key y ≤ n)) ++ x :: tl) := by
        rw [← hsplit]
    _ = between key c n ((xs.filter fun y => decide (key y ≤ n)) ++ x :: tl) ++ [x] := by
        rw [between, between, List.filter_append, List.filter_append, hlow, List.filter_cons,
          List.filter_cons, htl _ (Nat.le_refl _), htl _ (Nat.le_of_lt hlt)]
        simp [hnx, hcx]
    _ = between key c n xs ++ [x] := by rw [← hsplit]

/-- Nothing past the cursor: everything was seen. -/
theorem between_of_above_nil (hx : above key n xs = []) :
    between key c n xs = above key c xs := by
  refine List.filter_congr fun z hz => ?_
  have hle : key z ≤ n := by simpa using List.filter_eq_nil_iff.mp hx z hz
  simp [hle]

theorem above_concat (n : ℕ) (xs : List α) (x : α) :
    above key n (xs ++ [x]) = above key n xs ++ if n < key x then [x] else [] := by
  rw [above, List.filter_append]
  congr 1
  by_cases hn : n < key x <;> simp [hn]

theorem between_concat_of_lt (h : n < key x) :
    between key c n (xs ++ [x]) = between key c n xs := by
  have : ¬ key x ≤ n := by omega
  simp [between, this]

/-- The entries up to a cursor come first. -/
theorem dropWhile_eq_above (h : Increasing key xs) (n : ℕ) :
    (xs.dropWhile fun x => decide (key x ≤ n)) = above key n xs := by
  induction xs with
  | nil => rfl
  | cons y ys ih =>
    obtain ⟨hy, hys⟩ := List.pairwise_cons.mp h
    by_cases hle : key y ≤ n
    · rw [List.dropWhile_cons_of_pos (by simpa using hle), ih hys, above, above,
        List.filter_cons_of_neg (by simpa using hle)]
    · rw [List.dropWhile_cons_of_neg (by simpa using hle)]
      refine (List.filter_eq_self.mpr fun z hz => ?_).symm
      rcases List.mem_cons.mp hz with rfl | hz
      · simpa using hle
      · have := hy z hz
        simp only [decide_eq_true_eq]
        omega

theorem above_above (h : c ≤ n) : above key n (above key c xs) = above key n xs := by
  rw [above, above, List.filter_filter]
  refine List.filter_congr fun z _ => ?_
  by_cases hz : n < key z
  · have hc : c < key z := Nat.lt_of_le_of_lt h hz
    simp [hz, hc]
  · simp [hz]

end Increasing
end PiDeck.Collections
