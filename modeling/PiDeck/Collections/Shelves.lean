import Mathlib

/-! Rectangles set on shelves. A shelf is filled from the left, the next one begins below the highest
rectangle of it, so no two rectangles overlap, and what was painted last in each of them stays
visible. -/
namespace PiDeck.Collections

structure Rect where
  x : ℕ
  y : ℕ
  width : ℕ
  height : ℕ
  deriving DecidableEq, Repr

namespace Rect

def Covers (rect : Rect) (px py : ℕ) : Prop :=
  (rect.x ≤ px ∧ px < rect.x + rect.width) ∧ rect.y ≤ py ∧ py < rect.y + rect.height

instance (rect : Rect) (px py : ℕ) : Decidable (rect.Covers px py) :=
  inferInstanceAs (Decidable (_ ∧ _))

def Inside (rect : Rect) (size : ℕ) : Prop :=
  rect.x + rect.width ≤ size ∧ rect.y + rect.height ≤ size

def Apart (left right : Rect) : Prop := ∀ px py, ¬(left.Covers px py ∧ right.Covers px py)

theorem apart_of_beside {left right : Rect} (h : left.x + left.width ≤ right.x) :
    right.Apart left := by
  rintro px py ⟨⟨⟨hright, -⟩, -⟩, ⟨-, hleft⟩, -⟩
  omega

theorem apart_of_above {upper lower : Rect} (h : upper.y + upper.height ≤ lower.y) :
    lower.Apart upper := by
  rintro px py ⟨⟨-, hlower, -⟩, -, -, hupper⟩
  omega

end Rect

/-- Where the next rectangle goes, and how high the shelf is by now. -/
structure Shelf where
  x : ℕ
  y : ℕ
  height : ℕ
  deriving DecidableEq, Repr

namespace Shelf

def start : Shelf := ⟨0, 0, 0⟩

/-- The next shelf, below this one. -/
def next (shelf : Shelf) : Shelf := ⟨0, shelf.y + shelf.height, 0⟩

def rect (shelf : Shelf) (width height : ℕ) : Rect := ⟨shelf.x, shelf.y, width, height⟩

def place (shelf : Shelf) (width height : ℕ) : Shelf :=
  ⟨shelf.x + width, shelf.y, max shelf.height height⟩

/-- Set on an earlier shelf, or on this one to the left of what comes next. -/
def Holds (shelf : Shelf) (rect : Rect) : Prop :=
  rect.y + rect.height ≤ shelf.y ∨
    rect.x + rect.width ≤ shelf.x ∧ rect.y + rect.height ≤ shelf.y + shelf.height

end Shelf

/-- All of what was set stands inside the square and before the end of the shelf, and apart. -/
structure Packed (size : ℕ) (shelf : Shelf) (rects : List Rect) : Prop where
  inside : ∀ rect ∈ rects, rect.Inside size
  held : ∀ rect ∈ rects, shelf.Holds rect
  apart : rects.Pairwise Rect.Apart

namespace Packed
variable {size width height : ℕ} {shelf : Shelf} {rects : List Rect}

theorem nil : Packed size shelf [] := ⟨by simp, by simp, List.Pairwise.nil⟩

theorem next (h : Packed size shelf rects) : Packed size shelf.next rects := by
  refine ⟨h.inside, ?_, h.apart⟩
  intro rect hrect
  refine .inl ?_
  rw [Shelf.next]
  obtain habove | ⟨-, hbelow⟩ := h.held rect hrect
  · exact habove.trans (Nat.le_add_right _ _)
  · exact hbelow

theorem place (h : Packed size shelf rects) (hx : shelf.x + width ≤ size)
    (hy : shelf.y + height ≤ size) :
    Packed size (shelf.place width height) (shelf.rect width height :: rects) := by
  refine ⟨?_, ?_, ?_⟩
  · intro rect hrect
    obtain rfl | hrect := List.mem_cons.mp hrect
    · exact ⟨hx, hy⟩
    · exact h.inside rect hrect
  · intro rect hrect
    obtain rfl | hrect := List.mem_cons.mp hrect
    · exact .inr ⟨le_rfl, Nat.add_le_add_left (le_max_right _ _) _⟩
    · obtain habove | ⟨hbeside, hbelow⟩ := h.held rect hrect
      · exact .inl habove
      · exact .inr ⟨hbeside.trans (Nat.le_add_right _ _),
          hbelow.trans (Nat.add_le_add_left (le_max_left _ _) _)⟩
  · refine List.pairwise_cons.mpr ⟨?_, h.apart⟩
    intro rect hrect
    obtain habove | ⟨hbeside, -⟩ := h.held rect hrect
    · exact Rect.apart_of_above habove
    · exact Rect.apart_of_beside hbeside

end Packed

section Painting
variable {α : Type*}

/-- What is seen at a point: of the paintings that cover it the last one, and where in it. -/
def seen (paintings : List (Rect × α)) (px py : ℕ) : Option (α × ℕ × ℕ) :=
  (paintings.find? fun painting => painting.1.Covers px py).map fun painting =>
    (painting.2, px - painting.1.x, py - painting.1.y)

theorem seen_of_apart {paintings : List (Rect × α)}
    (hapart : (paintings.map Prod.fst).Pairwise Rect.Apart) {rect : Rect} {a : α}
    (hmem : (rect, a) ∈ paintings) {px py : ℕ} (hcovers : rect.Covers px py) :
    seen paintings px py = some (a, px - rect.x, py - rect.y) := by
  induction paintings with
  | nil => cases hmem
  | cons painting rest ih =>
    rw [List.map_cons, List.pairwise_cons] at hapart
    obtain rfl | hrest := List.mem_cons.mp hmem
    · simp [seen, hcovers]
    · have hnot : ¬painting.1.Covers px py := by
        intro hcover
        exact hapart.1 rect (List.mem_map_of_mem hrest) px py ⟨hcover, hcovers⟩
      rw [seen, List.find?_cons_of_neg (by simpa using hnot)]
      exact ih hapart.2 hrest

end Painting

end PiDeck.Collections
