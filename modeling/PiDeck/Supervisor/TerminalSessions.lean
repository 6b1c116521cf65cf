import Mathlib
import PiDeck.Collections.Utf8Decoding
import PiDeck.Transition.Machine

/-! A terminal session of the supervisor and the row that its output is stored in. Chunks are decoded
one by one as they arrive, the row is written by a timer and when the process ends, and only while
it says that the session is running. What has been received is kept for the statements only. -/
namespace PiDeck.Supervisor.TerminalSessions
open PiDeck.Collections.Utf8 PiDeck.Transition

inductive Status
  | running
  | cancelled
  | outputLimited
  | timedOut
  | completed
  | failed
  deriving DecidableEq, Repr

inductive Signal
  | sigterm
  | other (name : String)
  deriving DecidableEq, Repr

structure Row where
  status : Status
  exitCode : Option ℤ
  output : List Char
  truncated : Bool
  deriving DecidableEq

structure Session where
  row : Row
  output : List Char
  bytes : ℕ
  limited : Bool
  flushTimer : Bool
  /-- The process has not closed. -/
  live : Bool
  /-- The service is shutting down. -/
  closing : Bool
  received : Bytes
  error : Option (List Char)
  deriving DecidableEq

/-- What happens: output and end of the process, the timer, and the calls of the service. -/
inductive Event
  | data (chunk : Bytes)
  | flush
  | error (message : List Char)
  | close (code : Option ℤ) (signal : Option Signal)
  | cancel
  | shutdown
  | restart

namespace Session
variable (session : Session)

def running : Bool := decide (session.row.status = .running)

/-- `append`, the handler of both streams. -/
def append (maxOutputBytes : ℕ) (chunk : Bytes) : Session :=
  if session.limited then { session with received := session.received ++ chunk }
  else
    let remaining := maxOutputBytes - session.bytes
    let accepted := chunk.take remaining
    { session with
      limited := decide (remaining < chunk.length)
      bytes := session.bytes + accepted.length
      output := session.output ++ decode accepted
      flushTimer := true
      received := session.received ++ chunk }

def flush : Session :=
  { session with
    flushTimer := false
    row := if session.running then
        { session.row with output := session.output, truncated := session.limited }
      else session.row }

/-- The text that an error adds. -/
def errorText (message : List Char) : List Char := '\n' :: message

def fail (message : List Char) : Session :=
  { session with output := session.output ++ errorText message, error := some message }

def closedStatus (code : Option ℤ) (signal : Option Signal) : Status :=
  if session.closing then .cancelled
  else if session.limited then .outputLimited
  else if signal = some .sigterm then .timedOut
  else if code = some 0 then .completed
  else .failed

def close (code : Option ℤ) (signal : Option Signal) : Session :=
  { session with
    live := false
    flushTimer := false
    row := if session.running then
        ⟨session.closedStatus code signal, code, session.output, session.limited⟩
      else session.row }

def cancel : Session :=
  { session with
    row := if session.running then { session.row with status := .cancelled } else session.row }

def interrupted : List Char := "\nTerminal interrupted by Supervisor restart.".toList

/-- The service starts again, without the process. -/
def restart : Session :=
  { session with
    live := false
    flushTimer := false
    closing := false
    row := if session.running then
        { session.row with status := .failed, output := session.row.output ++ interrupted }
      else session.row }

end Session

/-- The handlers of the process run until it has closed, and that of an error once. -/
def step (maxOutputBytes : ℕ) (session : Session) : Event → Option Session
  | .data chunk => if session.live then some (session.append maxOutputBytes chunk) else none
  | .flush => if session.flushTimer then some session.flush else none
  | .error message =>
    if session.live ∧ session.error = none then some (session.fail message) else none
  | .close code signal => if session.live then some (session.close code signal) else none
  | .cancel => some session.cancel
  | .shutdown => some { session with closing := true }
  | .restart => some session.restart

def machine (maxOutputBytes : ℕ) : Machine Session Event := ⟨step maxOutputBytes⟩

def created : Session where
  row := ⟨.running, none, [], false⟩
  output := []
  bytes := 0
  limited := false
  flushTimer := false
  live := true
  closing := false
  received := []
  error := none

/-! ### What is stored -/

/-- A row that no longer says running has all that was received, up to the limit, and says whether
something was dropped. -/
def Stored (maxOutputBytes : ℕ) (session : Session) : Prop :=
  session.row.status ≠ .running →
    session.row.output = decode (session.received.take maxOutputBytes) ++
        (session.error.map Session.errorText).getD [] ∧
      session.row.truncated = decide (maxOutputBytes < session.received.length)

/-- The steps after which nothing is lost. Bytes come while the row says running, before any error,
and where no character goes on from the bytes before; an error comes while the row says running; a
cancellation finds in the row what is in memory; and the service does not restart under a running
session. Bytes past the limit do not matter. -/
def Careful (maxOutputBytes : ℕ) (session : Session) : Event → Prop
  | .data chunk => chunk ≠ [] → session.received.length ≤ maxOutputBytes →
      session.row.status = .running ∧
        (session.received.length < maxOutputBytes →
          session.error = none ∧ Parted session.received chunk)
  | .error _ => session.row.status = .running
  | .cancel => session.row.status = .running →
      session.row.output = session.output ∧ session.row.truncated = session.limited
  | .restart => session.row.status ≠ .running
  | .flush | .close _ _ | .shutdown => True

/-- What is in memory is what was received, and a process that has closed has left its row. -/
structure Kept (maxOutputBytes : ℕ) (session : Session) : Prop where
  bytes : session.bytes = min maxOutputBytes session.received.length
  limited : session.limited = decide (maxOutputBytes < session.received.length)
  output : session.output = decode (session.received.take maxOutputBytes) ++
    (session.error.map Session.errorText).getD []
  stored : Stored maxOutputBytes session

section Steps
variable {maxOutputBytes : ℕ} {session next : Session} {chunk : Bytes} {event : Event}

theorem kept_created : Kept maxOutputBytes created where
  bytes := by simp [created]
  limited := by simp [created]
  output := by simp [created]
  stored := fun h => absurd rfl h

/-- Past the limit a chunk changes nothing. -/
theorem append_kept_of_full (h : Kept maxOutputBytes session)
    (hfull : maxOutputBytes < session.received.length) :
    Kept maxOutputBytes (session.append maxOutputBytes chunk) := by
  have hlimited : session.limited = true := by simp [h.limited, hfull]
  have htake : (session.received ++ chunk).take maxOutputBytes =
      session.received.take maxOutputBytes := List.take_append_of_le_length hfull.le
  have hlength : maxOutputBytes < (session.received ++ chunk).length := by
    rw [List.length_append]
    omega
  rw [Session.append, if_pos hlimited]
  constructor
  · have hbytes := h.bytes
    simp only
    omega
  · simp only [hlimited, hlength, decide_true]
  · simpa only [htake] using h.output
  · intro hstatus
    obtain ⟨houtput, htruncated⟩ := h.stored hstatus
    simp only [htake, houtput, htruncated, hfull, hlength]
    exact ⟨trivial, trivial⟩

theorem append_kept (h : Kept maxOutputBytes session)
    (hcareful : Careful maxOutputBytes session (.data chunk)) :
    Kept maxOutputBytes (session.append maxOutputBytes chunk) := by
  obtain hfull | hle := Nat.lt_or_ge maxOutputBytes session.received.length
  · exact append_kept_of_full h hfull
  have hlimited : session.limited = false := by simp [h.limited, hle]
  have hbytes : session.bytes = session.received.length := by
    rw [h.bytes]
    omega
  have htake : (session.received ++ chunk).take maxOutputBytes =
      session.received ++ chunk.take (maxOutputBytes - session.received.length) := by
    rw [List.take_append, List.take_of_length_le hle]
  have houtput := h.output
  rw [List.take_of_length_le hle] at houtput
  rw [Session.append, if_neg (by simp [hlimited]), hbytes]
  constructor
  · simp only [List.length_take, List.length_append]
    omega
  · simp only [List.length_append, decide_eq_decide]
    omega
  · -- A chunk that is taken in part comes before any error, and parted from what came before.
    simp only [htake]
    by_cases hnil : chunk = []
    · simpa [hnil] using houtput
    by_cases hroom : session.received.length < maxOutputBytes
    · obtain ⟨herror, hparted⟩ := (hcareful hnil hle).2 hroom
      rw [decode_append (hparted.take _), houtput, herror]
      simp
    · have hnone : maxOutputBytes - session.received.length = 0 := by omega
      simpa [hnone] using houtput
  · intro hstatus
    by_cases hnil : chunk = []
    · obtain ⟨hout, htruncated⟩ := h.stored hstatus
      simp only [hnil, List.append_nil]
      exact ⟨hout, htruncated⟩
    · exact absurd (hcareful hnil hle).1 hstatus

/-- The row takes over what is in memory. -/
theorem Kept.row_of_memory (h : Kept maxOutputBytes session) {row : Row}
    (houtput : row.output = session.output) (htruncated : row.truncated = session.limited) :
    row.output = decode (session.received.take maxOutputBytes) ++
        (session.error.map Session.errorText).getD [] ∧
      row.truncated = decide (maxOutputBytes < session.received.length) :=
  ⟨houtput.trans h.output, htruncated.trans h.limited⟩

theorem flush_kept (h : Kept maxOutputBytes session) : Kept maxOutputBytes session.flush := by
  refine ⟨h.bytes, h.limited, h.output, ?_⟩
  intro hstatus
  by_cases hrunning : session.row.status = .running
  · simp [Session.flush, Session.running, hrunning] at hstatus
  · simpa [Session.flush, Session.running, hrunning] using h.stored hrunning

theorem fail_kept {message : List Char} (h : Kept maxOutputBytes session)
    (hnone : session.error = none) (hrunning : session.row.status = .running) :
    Kept maxOutputBytes (session.fail message) := by
  refine ⟨h.bytes, h.limited, ?_, fun hstatus => absurd hrunning hstatus⟩
  have houtput := h.output
  rw [hnone] at houtput
  simp [Session.fail, houtput]

theorem close_kept {code : Option ℤ} {signal : Option Signal} (h : Kept maxOutputBytes session) :
    Kept maxOutputBytes (session.close code signal) := by
  refine ⟨h.bytes, h.limited, h.output, fun _ => ?_⟩
  by_cases hrunning : session.row.status = .running
  · apply h.row_of_memory <;> simp [Session.close, Session.running, hrunning]
  · simpa [Session.close, Session.running, hrunning] using h.stored hrunning

theorem cancel_kept (h : Kept maxOutputBytes session)
    (hcareful : Careful maxOutputBytes session .cancel) : Kept maxOutputBytes session.cancel := by
  refine ⟨h.bytes, h.limited, h.output, fun _ => ?_⟩
  by_cases hrunning : session.row.status = .running
  · obtain ⟨houtput, htruncated⟩ := hcareful hrunning
    apply h.row_of_memory <;> simp [Session.cancel, Session.running, hrunning, houtput, htruncated]
  · simpa [Session.cancel, Session.running, hrunning] using h.stored hrunning

theorem restart_kept (h : Kept maxOutputBytes session)
    (hcareful : session.row.status ≠ .running) : Kept maxOutputBytes session.restart := by
  refine ⟨h.bytes, h.limited, h.output, fun _ => ?_⟩
  simpa [Session.restart, Session.running, hcareful] using h.stored hcareful

theorem step_kept (h : Kept maxOutputBytes session)
    (hcareful : Careful maxOutputBytes session event)
    (hstep : step maxOutputBytes session event = some next) : Kept maxOutputBytes next := by
  cases event with
  | data chunk =>
    obtain ⟨-, hnext⟩ := Option.ite_none_right_eq_some.mp hstep
    obtain rfl := Option.some.inj hnext
    exact append_kept h hcareful
  | flush =>
    obtain ⟨-, hnext⟩ := Option.ite_none_right_eq_some.mp hstep
    obtain rfl := Option.some.inj hnext
    exact flush_kept h
  | error message =>
    obtain ⟨⟨-, hnone⟩, hnext⟩ := Option.ite_none_right_eq_some.mp hstep
    obtain rfl := Option.some.inj hnext
    exact fail_kept h hnone hcareful
  | close code signal =>
    obtain ⟨-, hnext⟩ := Option.ite_none_right_eq_some.mp hstep
    obtain rfl := Option.some.inj hnext
    exact close_kept h
  | cancel =>
    obtain rfl := Option.some.inj hstep
    exact cancel_kept h hcareful
  | shutdown =>
    obtain rfl := Option.some.inj hstep
    exact ⟨h.bytes, h.limited, h.output, h.stored⟩
  | restart =>
    obtain rfl := Option.some.inj hstep
    exact restart_kept h hcareful

end Steps

/-- After any run of such steps a row that no longer says running has the decoding of what was
received, however it was split. -/
theorem stored_of_careful {maxOutputBytes : ℕ} {session : Session} {events : List Event}
    (h : (machine maxOutputBytes).Path (Careful maxOutputBytes) created events session) :
    Stored maxOutputBytes session :=
  (h.invariant (I := Kept maxOutputBytes)
    (fun _ _ _ hkept hcareful hstep => step_kept hkept hcareful hstep) kept_created).stored

section Example

/-- A letter of two bytes that comes whole, a stored part, one more chunk, and the end. -/
def whole : List Event := [.data [0xC3, 0xA9], .flush, .data [33], .close (some 0) none]

def completed : Session where
  row := ⟨.completed, some 0, ['é', '!'], false⟩
  output := ['é', '!']
  bytes := 3
  limited := false
  flushTimer := false
  live := false
  closing := false
  received := [0xC3, 0xA9, 33]
  error := none

def shown : Session :=
  ((created.append 1024 [0xC3, 0xA9]).flush)

theorem whole_careful : (machine 1024).Path (Careful 1024) created whole completed := by
  have hsecond : Careful 1024 shown (.data [33]) := by
    intro _ _
    refine ⟨by decide, fun _ => ⟨rfl, ?_⟩⟩
    intro byte hbyte
    obtain rfl := Option.some.inj hbyte
    decide
  have hfirst : Careful 1024 created (.data [0xC3, 0xA9]) := by
    intro _ _
    refine ⟨rfl, fun _ => ⟨rfl, ?_⟩⟩
    intro byte hbyte
    obtain rfl := Option.some.inj hbyte
    decide
  refine .cons hfirst (t := created.append 1024 [0xC3, 0xA9]) (by decide) ?_
  refine .cons trivial (t := shown) (by decide) ?_
  refine .cons hsecond (t := shown.append 1024 [33]) (by decide) ?_
  refine .cons trivial (t := completed) (by decide) ?_
  exact .nil _

theorem stored_of_careful_whole : (machine 1024).Path (Careful 1024) created whole completed ∧
    Stored 1024 completed :=
  ⟨whole_careful, stored_of_careful whole_careful⟩

/-- The same letter in two chunks is stored as two replacement characters. -/
theorem letter_lost : ∃ session, (machine 1024).Run created
      [.data [0xC3], .data [0xA9], .close (some 0) none] session ∧
    session.row.output = ['\uFFFD', '\uFFFD'] ∧ decode session.received = ['é'] ∧
    ¬Stored 1024 session := by
  refine ⟨((created.append 1024 [0xC3]).append 1024 [0xA9]).close (some 0) none, ?_, by decide,
    by decide, ?_⟩
  · refine .cons trivial (t := created.append 1024 [0xC3]) (by decide) ?_
    refine .cons trivial (t := (created.append 1024 [0xC3]).append 1024 [0xA9]) (by decide) ?_
    refine .cons trivial rfl ?_
    exact .nil _
  · intro hstored
    exact absurd (hstored (by decide)).1 (by decide)

end Example

end PiDeck.Supervisor.TerminalSessions
