import Mathlib
import PiDeck.Collections.Chunks

/-! The lines that a Pi process writes. The reader takes what is in its buffer, so a line, its limit
and its line end may come in several pieces; what it returns depends on the bytes alone. -/
namespace PiDeck.Agents
open Collections

abbrev ByteReader := Chunked UInt8

def maxEventBytes : ℕ := 256 * 1024

def newlineByte : UInt8 := 10
def returnByte : UInt8 := 13

/-- The message of an `InvalidData` error. -/
def eventTooLong : String := "Pi event exceeds 256 KiB"

/-- What is held of a line after one more piece of it. -/
def keep (output : List UInt8) (overflowed : Bool) (piece : List UInt8) : List UInt8 × Bool :=
  if !overflowed && decide (output.length + piece.length ≤ maxEventBytes) then
    (output ++ piece, overflowed)
  else (output, true)

/-- The loop of `read_bounded_json_line`. -/
def readLoop (reader : ByteReader) (output : List UInt8) (overflowed : Bool) :
    Except String (Option (List UInt8)) × ByteReader :=
  let available := reader.fillBuf
  if _ : available = [] then
    (if overflowed then .error eventTooLong
      else .ok (if output = [] then none else some output), reader)
  else
    match available.findIdx? (· = newlineByte) with
    | none =>
      let held := keep output overflowed available
      readLoop (reader.consume available.length) held.1 held.2
    | some position =>
      let held := keep output overflowed (available.take position)
      let next := reader.consume (position + 1)
      if held.2 then (.error eventTooLong, next)
      else if held.1.getLast? = some returnByte then (.ok (some held.1.dropLast), next)
      else (.ok (some held.1), next)
termination_by reader.chunks.length
decreasing_by exact Chunked.length_consume (by assumption) le_rfl

def readBoundedJsonLine (reader : ByteReader) : Except String (Option (List UInt8)) × ByteReader :=
  readLoop reader [] false

/-- What is returned of the bytes before a newline. -/
def withoutReturn (raw : List UInt8) : List UInt8 :=
  if raw.getLast? = some returnByte then raw.dropLast else raw

/-- What the reader holds of the bytes of a line that it has seen. -/
def Holds (seen output : List UInt8) (overflowed : Bool) : Prop :=
  if overflowed then maxEventBytes < seen.length
  else output = seen ∧ seen.length ≤ maxEventBytes

variable {reader : ByteReader} {seen output content rest : List UInt8} {overflowed : Bool}

theorem Holds.push (h : Holds seen output overflowed) (piece : List UInt8) :
    Holds (seen ++ piece) (keep output overflowed piece).1 (keep output overflowed piece).2 := by
  cases overflowed with
  | true =>
    simp only [Holds, if_true] at h
    simp only [keep, Bool.not_true, Bool.false_and, Bool.false_eq_true, if_false, Holds, if_true,
      List.length_append]
    omega
  | false =>
    simp only [Holds, Bool.false_eq_true, if_false] at h
    obtain ⟨rfl, -⟩ := h
    by_cases hfits : output.length + piece.length ≤ maxEventBytes
    · simp [keep, Holds, hfits]
    · simp only [keep, Bool.not_false, Bool.true_and, decide_eq_true_eq, hfits, if_false, Holds,
        if_true, List.length_append]
      omega

/-- At a newline, or at the end of the stream, the bytes seen decide. -/
theorem Holds.overflowed_iff (h : Holds seen output overflowed) :
    overflowed = true ↔ maxEventBytes < seen.length := by
  cases overflowed with
  | true => simpa [Holds] using h
  | false =>
    simp only [Holds, Bool.false_eq_true, if_false] at h
    simp [h.2]

theorem Holds.output_eq (h : Holds seen output overflowed) (hfits : ¬maxEventBytes < seen.length) :
    output = seen := by
  cases overflowed with
  | true => exact absurd (by simpa [Holds] using h) hfits
  | false => exact (by simpa [Holds] using h : output = seen ∧ _).1

theorem takeWhile_line {after : List UInt8} (h : newlineByte ∉ content) :
    (content ++ newlineByte :: after).takeWhile (· ≠ newlineByte) = content := by
  rw [List.takeWhile_append_of_pos]
  · simp
  · intro byte hbyte
    simpa using fun heq : byte = newlineByte => h (heq ▸ hbyte)

theorem findIdx?_newline {before after : List UInt8} (h : newlineByte ∉ before) :
    (before ++ newlineByte :: after).findIdx? (· = newlineByte) = some before.length := by
  have hbefore : before.findIdx? (· = newlineByte) = none := by
    rw [List.findIdx?_eq_none_iff]
    intro byte hbyte
    simpa using fun heq : byte = newlineByte => h (heq ▸ hbyte)
  simp [List.findIdx?_append, hbefore, List.findIdx?_cons]

/-- The body of the loop at the end of the stream. -/
theorem readLoop_end (hempty : reader.fillBuf = []) (h : Holds seen output overflowed) :
    readLoop reader output overflowed =
      (if maxEventBytes < seen.length then .error eventTooLong
        else .ok (if seen = [] then none else some seen), reader) := by
  rw [readLoop]
  simp only [hempty, dif_pos, h.overflowed_iff]
  split
  · rfl
  · rename_i hfits
    rw [h.output_eq hfits]

/-- The body of the loop on a buffer without a newline. -/
theorem readLoop_skip (hne : reader.fillBuf ≠ []) (hnone : newlineByte ∉ reader.fillBuf)
    (h : Holds seen output overflowed) :
    ∃ output' overflowed', Holds (seen ++ reader.fillBuf) output' overflowed' ∧
      readLoop reader output overflowed =
        readLoop (reader.consume reader.fillBuf.length) output' overflowed' := by
  have hfind : reader.fillBuf.findIdx? (· = newlineByte) = none := by
    rw [List.findIdx?_eq_none_iff]
    intro byte hbyte
    simpa using fun heq : byte = newlineByte => hnone (heq ▸ hbyte)
  refine ⟨_, _, h.push reader.fillBuf, ?_⟩
  rw [readLoop]
  simp only [dif_neg hne, hfind]

/-- The body of the loop on a buffer with a newline. -/
theorem readLoop_stop {before after : List UInt8}
    (hbuf : reader.fillBuf = before ++ newlineByte :: after) (hnone : newlineByte ∉ before)
    (h : Holds seen output overflowed) :
    readLoop reader output overflowed =
      (if maxEventBytes < (seen ++ before).length then .error eventTooLong
        else .ok (some (withoutReturn (seen ++ before))), reader.consume (before.length + 1)) := by
  have hne : reader.fillBuf ≠ [] := by simp [hbuf]
  have htake : (before ++ newlineByte :: after).take before.length = before := by simp
  have hpush := h.push before
  rw [readLoop]
  simp only [dif_neg hne]
  simp only [hbuf, findIdx?_newline hnone, htake, hpush.overflowed_iff]
  split
  · rfl
  · rename_i hfits
    rw [hpush.output_eq hfits, withoutReturn]
    split <;> rfl

/-- Bytes up to a newline, in whatever chunks, are read as a line. The induction is on the chunks:
a chunk either belongs to the line as a whole or has the newline in it. -/
theorem readLoop_line (hbytes : reader.bytes = content ++ newlineByte :: rest)
    (hnone : newlineByte ∉ content) (h : Holds seen output overflowed) :
    ∃ next : ByteReader, readLoop reader output overflowed =
      (if maxEventBytes < (seen ++ content).length then .error eventTooLong
        else .ok (some (withoutReturn (seen ++ content))), next) ∧ next.bytes = rest := by
  induction hn : reader.chunks.length using Nat.strong_induction_on
    generalizing reader seen output overflowed content with
  | _ n ih =>
    obtain ⟨tail, htail⟩ := reader.fillBuf_prefix
    have hne : reader.fillBuf ≠ [] := by
      intro hempty
      rw [Chunked.bytes_eq_nil hempty] at hbytes
      simp at hbytes
    rw [← htail] at hbytes
    by_cases hmem : newlineByte ∈ reader.fillBuf
    · obtain ⟨before, after, hbuf, hbefore⟩ := List.eq_append_cons_of_mem hmem
      -- The first newline of the chunk is the first of the stream.
      rw [hbuf, List.append_assoc, List.cons_append] at hbytes
      have hsame := congrArg (List.takeWhile (· ≠ newlineByte)) hbytes
      rw [takeWhile_line hbefore, takeWhile_line hnone] at hsame
      subst hsame
      refine ⟨_, readLoop_stop hbuf hbefore h, ?_⟩
      rw [Chunked.bytes_consume (by simp [hbuf]), ← htail, hbuf]
      simpa using List.append_cancel_left hbytes
    · obtain ⟨output', overflowed', hheld, hloop⟩ := readLoop_skip hne hmem h
      obtain ⟨more, rfl, hmore⟩ : ∃ more, content = reader.fillBuf ++ more ∧
          tail = more ++ newlineByte :: rest := by
        rcases List.append_eq_append_iff.mp hbytes with ⟨more, hc, ht⟩ | ⟨more, hb, ht⟩
        · exact ⟨more, hc, ht⟩
        · cases more with
          | nil => exact ⟨[], by simpa using hb.symm, by simpa using ht.symm⟩
          | cons byte more =>
            obtain ⟨rfl, -⟩ := List.cons.inj ht
            exact absurd (by simp [hb]) hmem
      have hconsumed : (reader.consume reader.fillBuf.length).bytes = more ++ newlineByte :: rest := by
        rw [Chunked.bytes_consume le_rfl, ← htail, List.drop_left, hmore]
      obtain ⟨next, hnext, hrest⟩ := ih _ (hn ▸ Chunked.length_consume hne le_rfl) hconsumed
        (fun hin => hnone (List.mem_append_right _ hin)) hheld rfl
      exact ⟨next, by rw [hloop, hnext, List.append_assoc], hrest⟩

/-- Bytes without a newline are read to the end of the stream. -/
theorem readLoop_last (hnone : newlineByte ∉ reader.bytes) (h : Holds seen output overflowed) :
    ∃ next : ByteReader, readLoop reader output overflowed =
      (if maxEventBytes < (seen ++ reader.bytes).length then .error eventTooLong
        else .ok (if seen ++ reader.bytes = [] then none else some (seen ++ reader.bytes)), next) ∧
      next.bytes = [] := by
  induction hn : reader.chunks.length using Nat.strong_induction_on
    generalizing reader seen output overflowed with
  | _ n ih =>
    by_cases hempty : reader.fillBuf = []
    · have hbytes := Chunked.bytes_eq_nil hempty
      exact ⟨reader, by rw [readLoop_end hempty h, hbytes, List.append_nil], hbytes⟩
    · obtain ⟨tail, htail⟩ := reader.fillBuf_prefix
      have hmem : newlineByte ∉ reader.fillBuf :=
        fun hin => hnone (htail ▸ List.mem_append_left _ hin)
      obtain ⟨output', overflowed', hheld, hloop⟩ := readLoop_skip hempty hmem h
      have hconsumed : (reader.consume reader.fillBuf.length).bytes = tail := by
        rw [Chunked.bytes_consume le_rfl, ← htail, List.drop_left]
      obtain ⟨next, hnext, hrest⟩ := ih _ (hn ▸ Chunked.length_consume hempty le_rfl)
        (by rw [hconsumed]; exact fun hin => hnone (htail ▸ List.mem_append_right _ hin)) hheld rfl
      rw [hconsumed, List.append_assoc, htail] at hnext
      exact ⟨next, by rw [hloop, hnext], hrest⟩

/-! ## Repeated calls -/

/-- What calls one after the other return: lines, until the stream ends or a call fails. -/
inductive Reads : ByteReader → List (List UInt8) → Option String → Prop
  | finish {reader : ByteReader} (h : (readBoundedJsonLine reader).1 = .ok none) :
      Reads reader [] none
  | fail {reader : ByteReader} {error : String}
      (h : (readBoundedJsonLine reader).1 = .error error) : Reads reader [] (some error)
  | line {reader next : ByteReader} {line : List UInt8} {lines : List (List UInt8)}
      {ended : Option String} (h : readBoundedJsonLine reader = (.ok (some line), next))
      (rest : Reads next lines ended) : Reads reader (line :: lines) ended

/-- The record is within the limit; a return before the newline counts. -/
def isShort (record : List UInt8 × Bool) : Bool := decide (record.1.length ≤ maxEventBytes)

/-- A record as it is returned: only before a newline a return is dropped. -/
def lineOf (record : List UInt8 × Bool) : List UInt8 :=
  if record.2 then withoutReturn record.1 else record.1

/-- The lines before the first that is too long. -/
def linesOf (bytes : List UInt8) : List (List UInt8) :=
  ((records newlineByte bytes).takeWhile isShort).map lineOf

def endOf (bytes : List UInt8) : Option String :=
  if (records newlineByte bytes).all isShort then none else some eventTooLong

theorem holds_start : Holds [] [] false := by simp [Holds]

theorem Reads.unique {lines lines' : List (List UInt8)} {ended ended' : Option String}
    (h : Reads reader lines ended) (h' : Reads reader lines' ended') :
    lines = lines' ∧ ended = ended' := by
  induction h generalizing lines' ended' with
  | finish hcall =>
    cases h' with
    | finish => exact ⟨rfl, rfl⟩
    | fail hcall' => cases hcall.symm.trans hcall'
    | line hcall' => cases hcall.symm.trans (congrArg Prod.fst hcall')
  | fail hcall =>
    cases h' with
    | finish hcall' => cases hcall.symm.trans hcall'
    | fail hcall' =>
      cases hcall.symm.trans hcall'
      exact ⟨rfl, rfl⟩
    | line hcall' => cases hcall.symm.trans (congrArg Prod.fst hcall')
  | line hcall _ ih =>
    cases h' with
    | finish hcall' => cases hcall'.symm.trans (congrArg Prod.fst hcall)
    | fail hcall' => cases hcall'.symm.trans (congrArg Prod.fst hcall)
    | line hcall' hrest' =>
      cases hcall.symm.trans hcall'
      obtain ⟨rfl, rfl⟩ := ih hrest'
      exact ⟨rfl, rfl⟩

theorem reads_bytes (reader : ByteReader) :
    Reads reader (linesOf reader.bytes) (endOf reader.bytes) := by
  induction hn : reader.bytes.length using Nat.strong_induction_on generalizing reader with
  | _ n ih =>
    rcases records_cases newlineByte reader.bytes with ⟨content, rest, hnone, hbytes⟩ | hnone
    · obtain ⟨next, hcall, hrest⟩ := readLoop_line hbytes hnone holds_start
      rw [List.nil_append] at hcall
      rw [linesOf, endOf, hbytes, records_line hnone]
      by_cases hlong : maxEventBytes < content.length
      · have hshort : isShort (content, true) = false := by simpa [isShort] using hlong
        rw [if_pos hlong] at hcall
        simp only [List.takeWhile_cons, hshort, List.all_cons, Bool.false_and, Bool.false_eq_true,
          if_false, List.map_nil]
        exact .fail (congrArg Prod.fst hcall)
      · have hshort : isShort (content, true) = true := by simpa [isShort] using hlong
        have hlength : rest.length < n := by
          rw [← hn, hbytes, List.length_append, List.length_cons]
          omega
        have hlines := ih rest.length hlength next (congrArg List.length hrest)
        rw [if_neg hlong] at hcall
        rw [hrest] at hlines
        simp only [List.takeWhile_cons, hshort, List.all_cons, Bool.true_and, if_true, List.map_cons]
        exact .line hcall hlines
    · obtain ⟨next, hcall, hrest⟩ := readLoop_last hnone holds_start
      simp only [List.nil_append] at hcall
      by_cases hempty : reader.bytes = []
      · rw [hempty, if_neg (by simp), if_pos rfl] at hcall
        rw [hempty]
        exact .finish (congrArg Prod.fst hcall)
      · rw [linesOf, endOf, records_last hnone hempty]
        rw [if_neg hempty] at hcall
        by_cases hlong : maxEventBytes < reader.bytes.length
        · have hshort : isShort (reader.bytes, false) = false := by simpa [isShort] using hlong
          rw [if_pos hlong] at hcall
          simp only [List.takeWhile_cons, hshort, List.all_cons, Bool.false_and,
            Bool.false_eq_true, if_false, List.map_nil]
          exact .fail (congrArg Prod.fst hcall)
        · have hshort : isShort (reader.bytes, false) = true := by simpa [isShort] using hlong
          have hlength : (0 : ℕ) < n := by
            rw [← hn]
            exact List.length_pos_iff.mpr hempty
          have hdone := ih 0 hlength next (congrArg List.length hrest)
          rw [if_neg hlong] at hcall
          rw [hrest] at hdone
          simp only [List.takeWhile_cons, hshort, List.takeWhile_nil, List.all_cons, List.all_nil,
            Bool.and_true, if_true, List.map_cons, List.map_nil]
          exact .line hcall hdone

/-- Repeated calls return exactly the lines of the bytes, in whatever chunks they come. -/
theorem reader_reads_iff (reader : ByteReader) (lines : List (List UInt8)) (ended : Option String) :
    Reads reader lines ended ↔ lines = linesOf reader.bytes ∧ ended = endOf reader.bytes := by
  constructor
  · intro h
    exact h.unique (reads_bytes reader)
  · rintro ⟨rfl, rfl⟩
    exact reads_bytes reader

/-- A return and its newline in two chunks, and a last line without a newline. -/
example : linesOf [97, 13, 10, 10, 98, 13] = [[97], [], [98, 13]] := by decide

end PiDeck.Agents
