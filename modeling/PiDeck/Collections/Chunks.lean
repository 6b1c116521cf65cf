import Mathlib

/-! A stream that arrives in chunks, and the records that a separator divides it into. The records
belong to the stream and not to its chunks. -/
namespace PiDeck.Collections

/-- What is still to be read. An empty chunk would be the end of the stream. -/
structure Chunked (α : Type*) where
  chunks : List (List α)
  nonempty : ∀ chunk ∈ chunks, chunk ≠ []

namespace Chunked
variable {α : Type*}

def bytes (reader : Chunked α) : List α := reader.chunks.flatten

/-- `fill_buf`: the rest of the chunk at hand, empty at the end of the stream. -/
def fillBuf (reader : Chunked α) : List α := reader.chunks.headD []

def consume (reader : Chunked α) (n : ℕ) : Chunked α :=
  match reader with
  | ⟨[], nonempty⟩ => ⟨[], nonempty⟩
  | ⟨chunk :: chunks, nonempty⟩ =>
    if h : chunk.length ≤ n then ⟨chunks, fun c hc => nonempty c (List.mem_cons_of_mem _ hc)⟩
    else ⟨chunk.drop n :: chunks, by
      intro c hc
      rcases List.mem_cons.mp hc with rfl | hc
      · rw [ne_eq, List.drop_eq_nil_iff]
        exact h
      · exact nonempty c (List.mem_cons_of_mem _ hc)⟩

variable {reader : Chunked α} {n : ℕ}

/-- Consumed bytes are gone, and no others. -/
theorem bytes_consume (h : n ≤ reader.fillBuf.length) :
    (reader.consume n).bytes = reader.bytes.drop n := by
  obtain ⟨chunks, nonempty⟩ := reader
  cases chunks with
  | nil =>
    obtain rfl : n = 0 := Nat.le_zero.mp h
    rfl
  | cons chunk chunks =>
    change n ≤ chunk.length at h
    rw [consume]
    split
    · rename_i hle
      obtain rfl : n = chunk.length := Nat.le_antisymm h hle
      simp [bytes]
    · simp [bytes, List.drop_append_of_le_length h]

theorem bytes_eq_nil (h : reader.fillBuf = []) : reader.bytes = [] := by
  obtain ⟨chunks, nonempty⟩ := reader
  cases chunks with
  | nil => rfl
  | cons chunk chunks => exact absurd h (nonempty chunk (List.mem_cons_self ..))

theorem fillBuf_prefix : reader.fillBuf <+: reader.bytes := by
  obtain ⟨chunks, nonempty⟩ := reader
  cases chunks with
  | nil => exact List.prefix_refl _
  | cons chunk chunks => exact List.prefix_append ..

theorem length_consume (h : reader.fillBuf ≠ []) (hn : reader.fillBuf.length ≤ n) :
    (reader.consume n).chunks.length < reader.chunks.length := by
  obtain ⟨chunks, nonempty⟩ := reader
  cases chunks with
  | nil => exact absurd rfl h
  | cons chunk chunks =>
    change chunk.length ≤ n at hn
    rw [consume, dif_pos hn]
    exact Nat.lt_succ_self _

end Chunked

section Records
variable {α : Type*} [DecidableEq α] {sep : α} {content rest bytes : List α}

/-- The records of a stream, and whether the separator ends them. What follows the last separator is
a record if there is anything. -/
def records (sep : α) (bytes : List α) : List (List α × Bool) :=
  let pieces := bytes.splitOn sep
  pieces.dropLast.map (·, true) ++
    if pieces.getLastD [] = [] then [] else [(pieces.getLastD [], false)]

@[simp] theorem records_nil : records sep [] = [] := rfl

theorem records_line (h : sep ∉ content) :
    records sep (content ++ sep :: rest) = (content, true) :: records sep rest := by
  have hpieces := List.splitOn_ne_nil sep rest
  rw [records, records, List.splitOn_append_cons_self_of_not_mem h]
  generalize rest.splitOn sep = pieces at hpieces
  cases pieces with
  | nil => exact absurd rfl hpieces
  | cons piece pieces => simp

theorem records_last (h : sep ∉ content) (hne : content ≠ []) :
    records sep content = [(content, false)] := by
  simp [records, List.splitOn_eq_singleton h, hne]

/-- A stream begins with a record, or it has ended. -/
theorem records_cases (sep : α) (bytes : List α) :
    (∃ content rest, sep ∉ content ∧ bytes = content ++ sep :: rest) ∨ sep ∉ bytes := by
  by_cases h : sep ∈ bytes
  · obtain ⟨content, rest, rfl, hnot⟩ := List.eq_append_cons_of_mem h
    exact .inl ⟨content, rest, hnot, rfl⟩
  · exact .inr h

end Records
end PiDeck.Collections
