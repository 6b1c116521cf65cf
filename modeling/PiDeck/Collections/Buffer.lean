import Mathlib
import PiDeck.Collections.Stable

/-! Buffers that are written in place, and buffers that hold segments one behind the other. -/
namespace PiDeck.Collections

section Buffer
variable {α : Type*} {buffer head old tail data next : List α} {segments : List (List α)}
  {offset count row other : ℕ}

/-- The data takes the place of what is at the offset. -/
def write (buffer : List α) (offset : ℕ) (data : List α) : List α :=
  buffer.take offset ++ data ++ buffer.drop (offset + data.length)

def slice (buffer : List α) (offset count : ℕ) : List α := (buffer.drop offset).take count

@[simp] theorem write_nil : write buffer offset [] = buffer := by
  simp [write]

theorem write_append (h : data.length = old.length) :
    write (head ++ old ++ tail) head.length data = head ++ data ++ tail := by
  simp [write, h]

theorem length_write (h : offset + data.length ≤ buffer.length) :
    (write buffer offset data).length = buffer.length := by
  rw [write, List.length_append, List.length_append, List.length_take, List.length_drop]
  omega

theorem take_write (h : offset ≤ buffer.length) :
    (write buffer offset data).take (offset + data.length) = buffer.take offset ++ data := by
  have hlength : offset + data.length = (buffer.take offset ++ data).length := by
    rw [List.length_append, List.length_take]
    omega
  rw [write, hlength, List.take_left]

/-- Two writes, one behind the other, are one write. -/
theorem write_write (h : offset ≤ buffer.length) :
    write (write buffer offset data) (offset + data.length) next =
      write buffer offset (data ++ next) := by
  have hdrop : (write buffer offset data).drop (offset + data.length + next.length) =
      buffer.drop (offset + (data ++ next).length) := by
    have hlength : offset + data.length = (buffer.take offset ++ data).length := by
      rw [List.length_append, List.length_take]
      omega
    rw [← List.drop_drop, hlength, write, List.drop_left, List.drop_drop, List.length_append,
      Nat.add_assoc]
  rw [write, hdrop, take_write h, write, List.append_assoc, List.append_assoc, List.append_assoc,
    List.append_assoc]

theorem slice_add (buffer : List α) (offset count more : ℕ) :
    slice buffer offset (count + more) =
      slice buffer offset count ++ slice buffer (offset + count) more := by
  rw [slice, slice, slice, List.take_add, List.drop_drop]

theorem length_slice (h : offset + count ≤ buffer.length) :
    (slice buffer offset count).length = count := by
  rw [slice, List.length_take, List.length_drop]
  omega

/-- The buffer begins with the segments. -/
def Holds (buffer : List α) (segments : List (List α)) : Prop := segments.flatten <+: buffer

/-- Where a segment is in the buffer. -/
def offsetOf (segments : List (List α)) (row : ℕ) : ℕ := (segments.take row).flatten.length

theorem flatten_split (h : segments[row]? = some old) : segments.flatten =
    (segments.take row).flatten ++ old ++ (segments.drop (row + 1)).flatten := by
  obtain ⟨hrow, rfl⟩ := List.getElem?_eq_some_iff.mp h
  conv_lhs => rw [← List.take_append_drop row segments, List.drop_eq_getElem_cons hrow]
  rw [List.flatten_append, List.flatten_cons, List.append_assoc]

/-- A segment that is written over gives way to another of its length, and the others stay. -/
theorem Holds.write (h : Holds buffer segments) (hrow : segments[row]? = some old)
    (hlength : data.length = old.length) :
    Holds (write buffer (offsetOf segments row) data) (segments.set row data) := by
  obtain ⟨rest, rfl⟩ := h
  obtain ⟨hbound, -⟩ := List.getElem?_eq_some_iff.mp hrow
  refine ⟨rest, ?_⟩
  rw [flatten_split hrow, List.append_assoc, offsetOf, write_append hlength,
    List.set_eq_take_append_cons_drop, if_pos hbound, List.flatten_append, List.flatten_cons]
  simp

theorem Holds.slice (h : Holds buffer segments) (hrow : segments[row]? = some old) :
    slice buffer (offsetOf segments row) old.length = old := by
  obtain ⟨rest, rfl⟩ := h
  rw [flatten_split hrow, Collections.slice, offsetOf, List.append_assoc, List.append_assoc,
    List.drop_left, List.take_left]

theorem Holds.bound (h : Holds buffer segments) (hrow : segments[row]? = some old) :
    offsetOf segments row + old.length ≤ buffer.length := by
  have hle := h.length_le
  rw [flatten_split hrow, List.length_append, List.length_append] at hle
  rw [offsetOf]
  omega

/-- Segments of the same lengths are at the same places. -/
theorem offsetOf_congr {others : List (List α)}
    (h : segments.map List.length = others.map List.length) (row : ℕ) :
    offsetOf segments row = offsetOf others row := by
  rw [offsetOf, offsetOf, List.length_flatten, List.length_flatten, List.map_take, List.map_take, h]

theorem flatten_inj {others : List (List α)}
    (h : segments.map List.length = others.map List.length) :
    segments.flatten = others.flatten ↔ segments = others := by
  refine ⟨fun hsame => ?_, fun hsame => by rw [hsame]⟩
  induction segments generalizing others with
  | nil =>
    cases others with
    | nil => rfl
    | cons other others => cases h
  | cons segment segments ih =>
    cases others with
    | nil => cases h
    | cons other others =>
      rw [List.map_cons, List.map_cons, List.cons.injEq] at h
      rw [List.flatten_cons, List.flatten_cons] at hsame
      obtain ⟨rfl, hrest⟩ := List.append_inj hsame h.1
      rw [ih h.2 hrest]

end Buffer

section Assignments
variable {α β : Type*} {place : β → ℕ} {value : β → α} {xs : List α} {y : β} {ys : List β}

/-- The values are set one after the other. -/
def setAll (place : β → ℕ) (value : β → α) (xs : List α) (ys : List β) : List α :=
  ys.foldl (fun xs y => xs.set (place y) (value y)) xs

/-- A place has the last of the values that are set there. -/
theorem getElem?_setAll (k : ℕ) : (setAll place value xs ys)[k]? =
    xs[k]?.map fun x => ((tied place k ys).getLast?.map value).getD x := by
  induction ys generalizing xs with
  | nil => simp [setAll]
  | cons y ys ih =>
    have hnext : setAll place value xs (y :: ys) =
        setAll place value (xs.set (place y) (value y)) ys := rfl
    rw [hnext, ih, tied_cons]
    split
    · rename_i hplace
      rw [hplace, List.getElem?_set_self', List.getLast?_cons]
      cases xs[k]? with
      | none => rfl
      | some x => cases (tied place k ys).getLast? <;> rfl
    · rename_i hplace
      rw [List.getElem?_set_ne hplace]

end Assignments
end PiDeck.Collections
