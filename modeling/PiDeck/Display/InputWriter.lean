import Mathlib
import PiDeck.Collections.Utf16

/-! The writer of terminal input. Input of one turn is collected, and a flush hands it over in chunks
that are sent one after the other. A chunk ends after a fixed number of code units, wherever that
is in the text. -/
namespace PiDeck.Display
open PiDeck.Collections

def maxInputChunk : ℕ := 64 * 1024

theorem maxInputChunk_pos : 0 < maxInputChunk := by decide

inductive InputKind
  | text
  | binary
  deriving DecidableEq, Repr

structure PendingInput where
  kind : InputKind
  data : List CodeUnit
  deriving DecidableEq, Repr

/-- `createTerminalInputWriter`. The promise `writeTail` is the queue of the chunks that it has yet
to hand to `write` or `writeBinary`, and `written` is what it has handed to them. -/
structure InputWriter where
  /-- Whether there is a `writeBinary`. -/
  writesBinary : Bool
  pending : List PendingInput
  scheduled : Bool
  disposed : Bool
  writeTail : List PendingInput
  written : List PendingInput
  /-- The microtasks that are queued. -/
  microtasks : ℕ
  deriving Repr

inductive InputAct
  | enqueue (data : List CodeUnit)
  | enqueueBinary (data : List CodeUnit)
  | flush
  | dispose
  | microtask
  /-- The write at hand settles, and the next chunk of `writeTail` is written. -/
  | settle
  deriving Repr

def InputKind.chunkSize (kind : InputKind) (data : List CodeUnit) : ℕ :=
  match kind with
  | .text => maxInputChunk
  | .binary => max 1 data.length

namespace InputWriter

def create (writesBinary : Bool) : InputWriter := ⟨writesBinary, [], false, false, [], [], 0⟩

def send (writer : InputWriter) (chunk : PendingInput) : InputWriter :=
  if chunk.kind = .binary ∧ writer.writesBinary = false then writer
  else { writer with writeTail := writer.writeTail ++ [chunk] }

/-- The chunks of one input. -/
def chunks (input : PendingInput) : List PendingInput :=
  (slices (input.kind.chunkSize input.data) input.data).map (PendingInput.mk input.kind)

def flush (writer : InputWriter) : InputWriter :=
  if writer.disposed = true ∨ writer.pending = [] then { writer with scheduled := false }
  else (writer.pending.flatMap chunks).foldl send { writer with scheduled := false, pending := [] }

def schedule (writer : InputWriter) : InputWriter :=
  if writer.scheduled then writer
  else { writer with scheduled := true, microtasks := writer.microtasks + 1 }

/-- The text joins the input before it if that is text too. -/
def coalesce (pending : List PendingInput) (data : List CodeUnit) : List PendingInput :=
  match pending.getLast? with
  | some ⟨.text, last⟩ => pending.dropLast ++ [PendingInput.mk .text (last ++ data)]
  | _ => pending ++ [PendingInput.mk .text data]

def enqueue (writer : InputWriter) (data : List CodeUnit) : InputWriter :=
  if writer.disposed = true ∨ data = [] then writer
  else { writer with pending := coalesce writer.pending data }.schedule

def enqueueBinary (writer : InputWriter) (data : List CodeUnit) : InputWriter :=
  if writer.disposed = true ∨ data = [] ∨ writer.writesBinary = false then writer
  else { writer with pending := writer.pending ++ [PendingInput.mk .binary data] }.schedule

def act (writer : InputWriter) : InputAct → InputWriter
  | .enqueue data => writer.enqueue data
  | .enqueueBinary data => writer.enqueueBinary data
  | .flush => writer.flush
  | .dispose => { writer with disposed := true, pending := [] }
  | .microtask =>
    if writer.microtasks = 0 then writer
    else { writer with microtasks := writer.microtasks - 1 }.flush
  | .settle => { writer with
      written := writer.written ++ writer.writeTail.take 1
      writeTail := writer.writeTail.drop 1 }

def run (writer : InputWriter) (acts : List InputAct) : InputWriter := acts.foldl act writer

/-- The bytes of the chunks in the order in which they are sent. -/
def sentBytes (writer : InputWriter) : List UInt8 :=
  (writer.written ++ writer.writeTail).flatMap fun chunk => utf8 chunk.data

/-- The bytes that have been handed over, and those that wait for a flush. -/
def contents (writer : InputWriter) : List UInt8 :=
  writer.sentBytes ++ writer.pending.flatMap fun input => utf8 input.data

end InputWriter

/-- The text that an act brings. -/
def InputAct.input : InputAct → List CodeUnit
  | .enqueue data => data
  | _ => []

/-- A call of `enqueue` with a well-formed string, a call of `flush`, or an event. -/
def InputAct.OfText : InputAct → Prop
  | .enqueue data => WellFormed data
  | .flush | .microtask | .settle => True
  | .enqueueBinary _ | .dispose => False

def InputAct.Flushes : InputAct → Prop
  | .flush | .microtask => True
  | _ => False

namespace InputWriter

/-- A flush of the writer would not divide a pair of surrogates. -/
def CutsCleanly (writer : InputWriter) : Prop :=
  ∀ input ∈ writer.pending, input.kind = .text → CleanlyCut maxInputChunk input.data

/-- No flush of the run divides a pair of surrogates. -/
def FlushesCleanly (writer : InputWriter) : List InputAct → Prop
  | [] => True
  | act :: acts => (act.Flushes → writer.CutsCleanly) ∧ (writer.act act).FlushesCleanly acts

/-- The bytes are the same if the condition holds, and there are more if it does not. -/
def KeptIf (clean : Prop) (before after : List UInt8) : Prop :=
  (clean ∧ after = before) ∨ (¬clean ∧ before.length < after.length)

theorem KeptIf.trans {first second : Prop} {before between after added : List UInt8}
    (h : KeptIf first before between) (hnext : KeptIf second (between ++ added) after) :
    KeptIf (first ∧ second) (before ++ added) after := by
  rcases h with ⟨hfirst, rfl⟩ | ⟨hfirst, hmore⟩
  · refine hnext.imp (fun hsame => ⟨⟨hfirst, hsame.1⟩, hsame.2⟩) fun hdiffer => ?_
    exact ⟨fun hboth => hdiffer.1 hboth.2, hdiffer.2⟩
  · refine .inr ⟨fun hboth => hfirst hboth.1, ?_⟩
    have hle : (between ++ added).length ≤ after.length := by
      rcases hnext with ⟨-, rfl⟩ | ⟨-, hlt⟩
      · exact le_rfl
      · exact hlt.le
    rw [List.length_append] at hle ⊢
    omega

/-- The writer as long as it is given text only. What waits is awaited by a microtask. -/
structure TextOnly (writer : InputWriter) : Prop where
  pending : writer.pending = [] ∨ ∃ data, writer.pending = [⟨.text, data⟩] ∧ Whole data
  undisposed : writer.disposed = false
  scheduled : writer.pending ≠ [] → writer.scheduled = true
  awaited : writer.scheduled = true → 0 < writer.microtasks

variable {writer : InputWriter} {act : InputAct} {acts : List InputAct} {data : List CodeUnit}
  {sent : List PendingInput}

theorem foldl_send (hsent : ∀ chunk ∈ sent, chunk.kind = .text) :
    sent.foldl send writer = { writer with writeTail := writer.writeTail ++ sent } := by
  induction sent generalizing writer with
  | nil => simp
  | cons chunk sent ih =>
    have htext := hsent chunk (List.mem_cons_self ..)
    rw [List.foldl_cons, ih fun chunk hmem => hsent chunk (List.mem_cons_of_mem _ hmem), send,
      if_neg (by simp [htext])]
    simp

/-- A flush sends the slices of the text that waits. -/
theorem flush_text (hdisposed : writer.disposed = false)
    (hpending : writer.pending = [⟨.text, data⟩]) : writer.flush = { writer with
      scheduled := false, pending := [],
      writeTail := writer.writeTail ++ (slices maxInputChunk data).map (PendingInput.mk .text) } := by
  have hsent : ∀ chunk ∈ writer.pending.flatMap chunks, chunk.kind = .text := by
    intro chunk hmem
    rw [hpending, List.flatMap_cons, List.flatMap_nil, List.append_nil, chunks] at hmem
    obtain ⟨slice, -, rfl⟩ := List.mem_map.mp hmem
    rfl
  rw [flush, if_neg (by simp [hdisposed, hpending]), foldl_send hsent, hpending]
  simp [chunks, InputKind.chunkSize]

theorem contents_of_pending (hpending : writer.pending = [⟨.text, data⟩]) :
    writer.contents = writer.sentBytes ++ utf8 data := by
  simp [contents, hpending]

theorem contents_flush (hdisposed : writer.disposed = false)
    (hpending : writer.pending = [⟨.text, data⟩]) :
    writer.flush.contents = writer.sentBytes ++ (slices maxInputChunk data).flatMap utf8 := by
  simp [flush_text hdisposed hpending, contents, sentBytes, List.flatMap_map]

theorem cutsCleanly_iff (hpending : writer.pending = [⟨.text, data⟩]) :
    writer.CutsCleanly ↔ CleanlyCut maxInputChunk data := by
  simp [CutsCleanly, hpending]

/-- A flush keeps the bytes, or it divides a pair of surrogates and there are more bytes after it. -/
theorem flush_cases (hdisposed : writer.disposed = false)
    (hpending : writer.pending = [] ∨ ∃ data, writer.pending = [⟨.text, data⟩] ∧ Whole data) :
    writer.flush.TextOnly ∧ KeptIf writer.CutsCleanly writer.contents writer.flush.contents := by
  rcases hpending with hpending | ⟨data, hpending, -⟩
  · have hflush : writer.flush = { writer with scheduled := false } := if_pos (.inr hpending)
    rw [hflush]
    refine ⟨⟨.inl hpending, hdisposed, fun hne => absurd hpending hne, by simp⟩, .inl ⟨?_, rfl⟩⟩
    simp [CutsCleanly, hpending]
  · constructor
    · rw [flush_text hdisposed hpending]
      exact ⟨.inl rfl, hdisposed, by simp, by simp⟩
    · rw [cutsCleanly_iff hpending, contents_of_pending hpending,
        contents_flush hdisposed hpending]
      rcases utf8_slices maxInputChunk_pos data with ⟨hclean, hsame⟩ | ⟨hdivided, hmore⟩
      · exact .inl ⟨hclean, by rw [hsame]⟩
      · refine .inr ⟨hdivided, ?_⟩
        rw [List.length_append, List.length_append]
        omega

theorem TextOnly.schedule (h : writer.TextOnly) {pending : List PendingInput}
    (hpending : pending = [] ∨ ∃ data, pending = [⟨.text, data⟩] ∧ Whole data) :
    ({ writer with pending := pending } : InputWriter).schedule.TextOnly := by
  rw [InputWriter.schedule]
  split
  · rename_i hscheduled
    exact ⟨hpending, h.undisposed, fun _ => hscheduled, h.awaited⟩
  · exact ⟨hpending, h.undisposed, fun _ => rfl, fun _ => Nat.succ_pos _⟩

theorem contents_schedule (writer : InputWriter) : writer.schedule.contents = writer.contents := by
  rw [schedule]
  split <;> rfl

/-- Text is added behind what is there. -/
theorem TextOnly.enqueue (h : writer.TextOnly) (hdata : Whole data) :
    (writer.enqueue data).TextOnly ∧
      (writer.enqueue data).contents = writer.contents ++ utf8 data := by
  rw [InputWriter.enqueue]
  split
  · rename_i hnone
    obtain rfl : data = [] := hnone.resolve_left (by simp [h.undisposed])
    exact ⟨h, (List.append_nil _).symm⟩
  · rcases h.pending with hpending | ⟨waiting, hpending, hwaiting⟩
    · have hcoalesce : coalesce writer.pending data = [⟨.text, data⟩] := by rw [hpending]; rfl
      rw [hcoalesce, contents_schedule]
      refine ⟨h.schedule (.inr ⟨data, rfl, hdata⟩), ?_⟩
      simp [contents, sentBytes, hpending]
    · have hcoalesce : coalesce writer.pending data = [⟨.text, waiting ++ data⟩] := by
        rw [hpending]; rfl
      rw [hcoalesce, contents_schedule]
      refine ⟨h.schedule (.inr ⟨_, rfl, hwaiting.append hdata⟩), ?_⟩
      rw [contents_of_pending hpending, contents_of_pending rfl, hwaiting.utf8_append,
        List.append_assoc]
      rfl

/-- One act adds the bytes of its input, or it divides a pair and there are more. -/
theorem TextOnly.acted (h : writer.TextOnly) (hact : act.OfText) : (writer.act act).TextOnly ∧
    KeptIf (act.Flushes → writer.CutsCleanly) (writer.contents ++ utf8 act.input)
      (writer.act act).contents := by
  cases act with
  | enqueue data =>
    obtain ⟨hnext, hcontents⟩ := h.enqueue (WellFormed.whole hact)
    exact ⟨hnext, .inl ⟨False.elim, hcontents⟩⟩
  | enqueueBinary data => cases hact
  | dispose => cases hact
  | flush =>
    simpa [InputAct.Flushes, InputAct.input, InputWriter.act] using
      flush_cases h.undisposed h.pending
  | microtask =>
    rw [InputWriter.act]
    split
    · rename_i hnone
      have hpending : writer.pending = [] := by
        by_contra hpending
        exact absurd (h.awaited (h.scheduled hpending)) (by omega)
      exact ⟨h, .inl ⟨fun _ => by simp [CutsCleanly, hpending], (List.append_nil _).symm⟩⟩
    · have hflush : ∀ microtasks, ({ writer with microtasks := microtasks }).flush.TextOnly ∧
          KeptIf writer.CutsCleanly writer.contents
            ({ writer with microtasks := microtasks }).flush.contents :=
        fun microtasks => flush_cases h.undisposed h.pending
      simpa [InputAct.Flushes, InputAct.input] using hflush (writer.microtasks - 1)
  | settle =>
    refine ⟨⟨h.pending, h.undisposed, h.scheduled, h.awaited⟩, .inl ⟨False.elim, ?_⟩⟩
    have hsame : (writer.act .settle).contents = writer.contents := by
      simp only [InputWriter.act, contents, sentBytes, List.append_assoc,
        List.take_append_drop]
    exact hsame.trans (List.append_nil _).symm

/-- The text that the acts bring, one after the other. -/
def inputOf (acts : List InputAct) : List CodeUnit := acts.flatMap InputAct.input

theorem utf8_inputOf_cons (hact : act.OfText) :
    utf8 (inputOf (act :: acts)) = utf8 act.input ++ utf8 (inputOf acts) := by
  have hwhole : Whole act.input := by
    cases act with
    | enqueue data => exact WellFormed.whole hact
    | _ => simp [InputAct.input, Whole]
  rw [inputOf, List.flatMap_cons, hwhole.utf8_append, inputOf]

theorem TextOnly.run (h : writer.TextOnly) (hacts : ∀ act ∈ acts, act.OfText) :
    KeptIf (writer.FlushesCleanly acts) (writer.contents ++ utf8 (inputOf acts))
      (writer.run acts).contents := by
  induction acts generalizing writer with
  | nil => exact .inl ⟨trivial, (List.append_nil _).symm⟩
  | cons act acts ih =>
    have hact := hacts act (List.mem_cons_self ..)
    obtain ⟨hnext, hstep⟩ := h.acted hact
    rw [utf8_inputOf_cons hact, ← List.append_assoc]
    exact hstep.trans (ih hnext fun act hmem => hacts act (List.mem_cons_of_mem _ hmem))

theorem textOnly_create (writesBinary : Bool) : (create writesBinary).TextOnly :=
  ⟨.inl rfl, rfl, fun hne => absurd rfl hne, fun hscheduled => by cases hscheduled⟩

theorem contents_run (writesBinary : Bool) (hacts : ∀ act ∈ acts, act.OfText) :
    KeptIf ((create writesBinary).FlushesCleanly acts) (utf8 (inputOf acts))
      ((create writesBinary).run acts).contents :=
  (textOnly_create writesBinary).run hacts

/-- The bytes that have been handed over and those that wait for a flush are the bytes of the input,
each of them once and in order, in exactly the runs in which no flush divides a pair of surrogates. -/
theorem chunks_utf8_iff (writesBinary : Bool) {text : List Char}
    (hacts : ∀ act ∈ acts, act.OfText) (htext : utf16 text = inputOf acts) :
    ((create writesBinary).run acts).contents = text.flatMap String.utf8EncodeChar ↔
      (create writesBinary).FlushesCleanly acts := by
  rw [← utf8_utf16, htext]
  rcases contents_run writesBinary hacts with ⟨hclean, hsame⟩ | ⟨hdivided, hmore⟩
  · exact iff_of_true hsame hclean
  · refine iff_of_false (fun hsame => ?_) hdivided
    rw [hsame] at hmore
    exact lt_irrefl _ hmore

theorem chunks_utf8_word :
    ((create false).run [.enqueue (utf16 ['h', 'é']), .flush]).contents =
        ['h', 'é'].flatMap String.utf8EncodeChar ↔
      (create false).FlushesCleanly [.enqueue (utf16 ['h', 'é']), .flush] :=
  chunks_utf8_iff false (by simp [InputAct.OfText, WellFormed]) (by decide)

/-- A text whose last character follows so many letters. -/
def paste (letters : ℕ) : List Char := List.replicate letters 'a' ++ [Char.ofNat 0x1F600]

theorem pairAt_paste (letters : ℕ) : PairAt (utf16 (paste letters)) letters := by
  have hletters : utf16 (List.replicate letters 'a') = List.replicate letters 0x61 := by
    induction letters with
    | zero => rfl
    | succ letters ih => rw [List.replicate_succ, List.replicate_succ, ← ih]; rfl
  have hlast : utf16 [Char.ofNat 0x1F600] = [0xD83D, 0xDE00] := by decide
  have hpaste : utf16 (paste letters) = List.replicate letters 0x61 ++ [0xD83D, 0xDE00] := by
    rw [paste, utf16, List.flatMap_append, ← utf16, ← utf16, hletters, hlast]
  refine ⟨0xD83D, 0xDE00, ?_, ?_, by decide, by decide⟩ <;> simp [hpaste]

/-- The first cut is in the middle of the last character. -/
theorem not_flushesCleanly_paste {letters : ℕ} (h : letters + 1 = maxInputChunk) :
    ¬(create false).FlushesCleanly [.enqueue (utf16 (paste letters)), .flush] := by
  rintro ⟨-, hclean, -⟩
  have hne : utf16 (paste letters) ≠ [] := by
    intro hnil
    obtain ⟨_, _, hget, -⟩ := pairAt_paste letters
    rw [hnil] at hget
    cases hget
  have hpending : ((create false).act (.enqueue (utf16 (paste letters)))).pending =
      [⟨.text, utf16 (paste letters)⟩] := by
    simp [InputWriter.act, InputWriter.enqueue, create, hne, schedule, coalesce]
  exact (cutsCleanly_iff hpending).mp (hclean trivial) _ (pairAt_paste letters) (dvd_of_eq h.symm)

/-- A paste of which the chunks do not have the bytes. -/
theorem paste_divided :
    ((create false).run [.enqueue (utf16 (paste 65535)), .flush]).contents ≠
      (paste 65535).flatMap String.utf8EncodeChar := by
  intro hsame
  have hacts : ∀ act ∈ [InputAct.enqueue (utf16 (paste 65535)), .flush], act.OfText := by
    simp [InputAct.OfText, WellFormed]
  have hinput : inputOf [.enqueue (utf16 (paste 65535)), .flush] = utf16 (paste 65535) := by
    simp [inputOf, InputAct.input]
  rcases contents_run false hacts with ⟨hclean, -⟩ | ⟨-, hmore⟩
  · exact not_flushesCleanly_paste rfl hclean
  · rw [hsame, hinput, utf8_utf16] at hmore
    exact lt_irrefl _ hmore

end InputWriter
end PiDeck.Display
