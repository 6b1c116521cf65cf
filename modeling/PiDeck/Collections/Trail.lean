import Mathlib

/-! Keyed work in order: the keys of what has been done and not yet heard of, and of what is still
to do. New work gets keys above all before it. -/
namespace PiDeck.Collections

variable {κ : Type*} [LinearOrder κ]

structure Trail (done todo : List κ) (top : κ) : Prop where
  sorted : done.Pairwise (· ≤ ·)
  ahead : ∀ d ∈ done, ∀ c ∈ todo, d < c
  strict : todo.Pairwise (· < ·)
  doneBelow : ∀ d ∈ done, d ≤ top
  todoBelow : ∀ c ∈ todo, c ≤ top

namespace Trail
variable {done todo : List κ} {top new d c : κ}

theorem nil (top : κ) : Trail ([] : List κ) [] top := by
  constructor <;> simp

theorem raise (h : Trail done todo top) (hle : top ≤ new) : Trail done todo new :=
  ⟨h.sorted, h.ahead, h.strict, fun d hd => (h.doneBelow d hd).trans hle,
    fun c hc => (h.todoBelow c hc).trans hle⟩

/-- New work goes last. -/
theorem push (h : Trail done todo top) (hlt : top < new) : Trail done (todo ++ [new]) new := by
  constructor
  · exact h.sorted
  · intro d hd c hc
    rcases List.mem_append.mp hc with hc | hc
    · exact h.ahead d hd c hc
    · obtain rfl := List.mem_singleton.mp hc
      exact (h.doneBelow d hd).trans_lt hlt
  · apply List.pairwise_append.mpr
    refine ⟨h.strict, List.pairwise_singleton _ _, ?_⟩
    intro c hc k hk
    obtain rfl := List.mem_singleton.mp hk
    exact (h.todoBelow c hc).trans_lt hlt
  · exact fun d hd => (h.doneBelow d hd).trans hlt.le
  · intro c hc
    rcases List.mem_append.mp hc with hc | hc
    · exact (h.todoBelow c hc).trans hlt.le
    · exact (List.mem_singleton.mp hc).le

/-- The first work is done, and reported any number of times. -/
theorem finish (h : Trail done (c :: todo) top) (n : ℕ) :
    Trail (done ++ List.replicate n c) todo top := by
  obtain ⟨hfirst, hrest⟩ := List.pairwise_cons.mp h.strict
  constructor
  · apply List.pairwise_append.mpr
    refine ⟨h.sorted, ?_, ?_⟩
    · exact List.pairwise_replicate.mpr (.inr le_rfl)
    · intro d hd k hk
      rw [List.eq_of_mem_replicate hk]
      exact (h.ahead d hd c List.mem_cons_self).le
  · intro d hd k hk
    rcases List.mem_append.mp hd with hd | hd
    · exact h.ahead d hd k (List.mem_cons_of_mem _ hk)
    · rw [List.eq_of_mem_replicate hd]
      exact hfirst k hk
  · exact hrest
  · intro d hd
    rcases List.mem_append.mp hd with hd | hd
    · exact h.doneBelow d hd
    · rw [List.eq_of_mem_replicate hd]
      exact h.todoBelow c List.mem_cons_self
  · exact fun k hk => h.todoBelow k (List.mem_cons_of_mem _ hk)

/-- The first report is heard. -/
theorem hear (h : Trail (d :: done) todo top) : Trail done todo top :=
  ⟨(List.pairwise_cons.mp h.sorted).2, fun k hk => h.ahead k (List.mem_cons_of_mem _ hk),
    h.strict, fun k hk => h.doneBelow k (List.mem_cons_of_mem _ hk), h.todoBelow⟩

theorem le_of_head (h : Trail (d :: done) todo top) : ∀ k ∈ done, d ≤ k :=
  (List.pairwise_cons.mp h.sorted).1

theorem lt_of_head (h : Trail (d :: done) todo top) : ∀ k ∈ todo, d < k :=
  h.ahead d List.mem_cons_self

end Trail
end PiDeck.Collections
