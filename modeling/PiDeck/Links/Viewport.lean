import Mathlib
import PiDeck.Links.UrlPattern

/-! The link at a cell of the terminal. The rows of the viewport that wrap into each other are joined
to a line, and a link of that line is given with its cells; the whole line may go on below. -/
namespace PiDeck.Links
open PiDeck.Collections

structure Row where
  cells : List Text
  isWrapContinuation : Bool
  wrapsToNext : Bool

structure Segment where
  row : ℕ
  text : Text
  startIndex : ℕ

/-- The text of a link and its first and last cells. -/
structure Link where
  text : Text
  start : ℕ × ℕ
  stop : ℕ × ℕ
  deriving DecidableEq

def cellText (cell : Text) : Text := if cell = [] then [unit ' '] else cell

/-- `String.trimEnd`. -/
def trimSpaces (text : Text) : Text := text.rdropWhile CodeUnit.isSpace

def terminalRowText (row : Row) (trimRight : Bool) : Text :=
  let text := row.cells.flatMap cellText
  if trimRight then trimSpaces text else text

def terminalColumnOffset (row : Row) (column : ℕ) : ℕ :=
  ((List.range column).map fun index => (cellText (row.cells.getD index [])).length).sum

def terminalColumnAtOffset (row : Row) (offset : ℕ) : ℕ :=
  ((List.range row.cells.length).find? fun column =>
    decide (offset < terminalColumnOffset row (column + 1))).getD (row.cells.length - 1)

/-! ### The line of a row -/

/-- The first row, read upwards while rows are continuations. -/
def lineStart (rows : List Row) : ℕ → ℕ
  | 0 => 0
  | index + 1 =>
    if (rows[index + 1]?).any Row.isWrapContinuation then lineStart rows index else index + 1

/-- The rows below it, each with its text; the last one without the spaces at its end. -/
def segmentsFrom : List Row → ℕ → ℕ → List Segment
  | [], _, _ => []
  | row :: rest, index, startIndex =>
    let continues := rest.head?.any Row.isWrapContinuation
    let text := terminalRowText row (!continues)
    ⟨index, text, startIndex⟩ ::
      if continues then segmentsFrom rest (index + 1) (startIndex + text.length) else []

/-- `collectWrappedTerminalLinkLine`. -/
def collectWrappedTerminalLinkLine (rows : List Row) (rowIndex : ℕ) : List Segment :=
  segmentsFrom (rows.drop (lineStart rows rowIndex)) (lineStart rows rowIndex) 0

def lineText (segments : List Segment) : Text := segments.flatMap Segment.text

/-- The segment of an offset. -/
def segmentAt (segments : List Segment) (offset : ℕ) : Option Segment :=
  segments.find? fun segment =>
    decide (segment.startIndex ≤ offset ∧ offset < segment.startIndex + segment.text.length)

/-! ### The link of a line -/

/-- The offset of a cell. -/
def offsetAt (rows : List Row) (segments : List Segment) (rowIndex column : ℕ) : Option ℕ :=
  (segments.find? fun segment => decide (segment.row = rowIndex)).bind fun segment =>
    rows[rowIndex]?.map fun row => segment.startIndex + terminalColumnOffset row column

def linkAt (line : Text) (offset : ℕ) : Option LinkMatch :=
  (matchTerminalUrls (urlPattern line)).find? fun link =>
    decide (link.start ≤ offset ∧ offset < link.stop)

def cellAt (rows : List Row) (segments : List Segment) (offset : ℕ) : Option (ℕ × ℕ) :=
  (segmentAt segments offset).bind fun segment =>
    rows[segment.row]?.map fun row =>
      (terminalColumnAtOffset row (offset - segment.startIndex), segment.row)

def rangeOf (rows : List Row) (segments : List Segment) (link : LinkMatch) : Option Link :=
  (cellAt rows segments link.start).bind fun start =>
    (cellAt rows segments (link.stop - 1)).map fun stop => ⟨link.text, start, stop⟩

def continuesBelow (rows : List Row) (segments : List Segment) : Bool :=
  (segments.getLast?.bind fun segment => rows[segment.row]?).any Row.wrapsToNext

def terminalLinkAtPositionWithRange (rows : List Row) (rowIndex column : ℕ) : Option Link :=
  let segments := collectWrappedTerminalLinkLine rows rowIndex
  if rows.length ≤ rowIndex then none
  else if (rows[lineStart rows rowIndex]?).any Row.isWrapContinuation then none
  else
    (offsetAt rows segments rowIndex column).bind fun offset =>
      (linkAt (lineText segments) offset).bind fun link =>
        if link.stop = (lineText segments).length ∧ continuesBelow rows segments then none
        else rangeOf rows segments link

/-! ### The whole line -/

/-- All the rows of a terminal. A row is a continuation exactly if the row before it wraps, and its
first and last lines are whole. -/
structure Content where
  rows : List Row
  wraps : rows.IsChain (fun row next => row.wrapsToNext = next.isWrapContinuation)
  first : ∀ row ∈ rows.head?, row.isWrapContinuation = false
  last : ∀ row ∈ rows.getLast?, row.wrapsToNext = false

/-- The link at a cell on the line joined over all its rows. -/
def lineLink (rows : List Row) (rowIndex column : ℕ) : Option Link :=
  let segments := collectWrappedTerminalLinkLine rows rowIndex
  (offsetAt rows segments rowIndex column).bind fun offset =>
    (linkAt (lineText segments) offset).bind fun link => rangeOf rows segments link

def viewport (content : Content) (top height : ℕ) : List Row :=
  (content.rows.drop top).take height

/-- The same link in rows that are counted from further up. -/
def Link.down (link : Link) (top : ℕ) : Link :=
  ⟨link.text, (link.start.1, link.start.2 + top), (link.stop.1, link.stop.2 + top)⟩

/-- A link that is given is the link of the whole line. -/
def Agrees (content : Content) (top height rowIndex column : ℕ) : Prop :=
  ∀ link, terminalLinkAtPositionWithRange (viewport content top height) rowIndex column = some link →
    lineLink content.rows (top + rowIndex) column = some (link.down top)

/-- What stands below the viewport of the line. -/
def below (content : Content) (top height rowIndex : ℕ) : Text :=
  (lineText (collectWrappedTerminalLinkLine content.rows (top + rowIndex))).drop
    (lineText (collectWrappedTerminalLinkLine (viewport content top height) rowIndex)).length

/-- The line begins in the viewport and goes on below it, the URL at the cell reaches the end of what is
visible, its end is trimmed there, and with the characters below it would be trimmed elsewhere. -/
def CutShort (content : Content) (top height rowIndex column : ℕ) : Prop :=
  let rows := viewport content top height
  let segments := collectWrappedTerminalLinkLine rows rowIndex
  (rows[lineStart rows rowIndex]?).any Row.isWrapContinuation = false ∧
    continuesBelow rows segments = true ∧
    ∃ one ∈ (urlPattern (lineText segments)).found, ∃ offset,
      offsetAt rows segments rowIndex column = some offset ∧ one.start ≤ offset ∧
      offset < one.start + (trimClosingDelimiters one.raw).length ∧
      one.start + one.raw.length = (lineText segments).length ∧
      trimClosingDelimiters one.raw ≠ one.raw ∧
      trimClosingDelimiters
        (one.raw ++ (below content top height rowIndex).takeWhile inUrl) ≠
          trimClosingDelimiters one.raw

end PiDeck.Links
