import Mathlib
import PiDeck.Collections.IndexMap

/-! The provider of archived rows: a bounded cache of pages behind a source that is asked
asynchronously. Every request remembers the generation it was begun in, and a reply of another
generation is refused; an index the provider did not know yet begins a new generation unless it is
the first one. -/
namespace PiDeck.ColdRows
open PiDeck.Collections

structure TerminalColdRow where
  rowId : String
  logicalRowId : String
  wrapOffset : ℤ
  text : String
  sourceFirstOffset : ℤ
  sourceLastOffset : ℤ
  deriving DecidableEq, Repr

structure TerminalColdRowPage where
  terminalEpoch : String
  indexGeneration : String
  rows : List TerminalColdRow
  previousCursor : Option String
  nextCursor : Option String
  totalRows : ℤ
  retainedFirstRowId : Option String
  retainedLastRowId : Option String
  deriving DecidableEq, Repr

structure TerminalColdSearchHit where
  rowId : String
  logicalRowId : String
  startColumn : ℤ
  endColumn : ℤ
  deriving DecidableEq, Repr

structure TerminalColdSearchPage where
  terminalEpoch : String
  indexGeneration : String
  hits : List TerminalColdSearchHit
  previousCursor : Option String
  nextCursor : Option String
  totalHits : ℤ
  deriving DecidableEq, Repr

inductive RowDirection
  | older
  | newer
  deriving DecidableEq, Repr

def RowDirection.text : RowDirection → String
  | .older => "older"
  | .newer => "newer"

/-- What a call throws: an error, or the abort of a request that has become stale. -/
inductive ColdError
  | error (message : String)
  | abort (message : String)
  deriving DecidableEq, Repr

/-! Sizes in code units, the unit of JavaScript's `length`. -/

def codeUnits (c : Char) : ℕ := if 0x10000 ≤ c.val then 2 else 1

def unitLength (text : String) : ℕ := (text.toList.map codeUnits).sum

/-- The length of a character inside a JSON string. -/
def jsonChar (c : Char) : ℕ :=
  if c.val = 0x22 ∨ c.val = 0x5c ∨ c.val = 8 ∨ c.val = 9 ∨ c.val = 10 ∨ c.val = 12 ∨ c.val = 13 then 2
  else if c.val < 0x20 then 6
  else codeUnits c

def jsonString (text : String) : ℕ := 2 + (text.toList.map jsonChar).sum

def jsonNullable (text : Option String) : ℕ := text.elim 4 jsonString

/-- The lengths of the fields of a page without its rows. -/
def pageFields (page : TerminalColdRowPage) : List (String × ℕ) :=
  [("terminalEpoch", jsonString page.terminalEpoch),
    ("indexGeneration", jsonString page.indexGeneration),
    ("rows", 2),
    ("previousCursor", jsonNullable page.previousCursor),
    ("nextCursor", jsonNullable page.nextCursor),
    ("totalRows", (toString page.totalRows).length),
    ("retainedFirstRowId", jsonNullable page.retainedFirstRowId),
    ("retainedLastRowId", jsonNullable page.retainedLastRowId)]

/-- The length of the page as JSON with its rows left out. -/
def pageJson (page : TerminalColdRowPage) : ℕ :=
  2 + ((pageFields page).length - 1) +
    ((pageFields page).map fun field => field.1.length + 3 + field.2).sum

def rowBytes (row : TerminalColdRow) : ℕ :=
  2 * (unitLength row.text + unitLength row.rowId + unitLength row.logicalRowId) + 96

/-- The budget a cached page takes. -/
def pageBytes (page : TerminalColdRowPage) : ℕ :=
  page.rows.foldl (fun total row => total + rowBytes row) (2 * pageJson page)

/-! The checks of arguments and replies. -/

def isSafeInteger (value : ℤ) : Bool := decide (value.natAbs ≤ 2 ^ 53 - 1)

def boundedInteger (value minimum maximum : ℤ) (name : String) : Except ColdError ℤ :=
  if !isSafeInteger value || decide (value < minimum) || decide (value > maximum) then
    .error (.error (name ++ " must be " ++ toString minimum ++ "..=" ++ toString maximum))
  else .ok value

/-- The rows one by one, with the identifiers seen, the bytes and the offset so far. -/
def validateEach (rowLimitBytes : ℤ) :
    List TerminalColdRow → List String → ℕ → ℤ → Except ColdError Unit
  | [], _, bytes, _ =>
    if (bytes : ℤ) > rowLimitBytes then .error (.error "row page exceeds requested byte bound")
    else .ok ()
  | row :: rows, ids, bytes, previousOffset =>
    if row.rowId = "" ∨ row.rowId ∈ ids then .error (.error "row page has invalid stable IDs")
    else if row.sourceFirstOffset < 1 ∨ row.sourceLastOffset < row.sourceFirstOffset ∨
        row.sourceFirstOffset ≤ previousOffset then
      .error (.error "row page has invalid source fences")
    else
      validateEach rowLimitBytes rows (row.rowId :: ids) (bytes + row.text.utf8ByteSize)
        row.sourceLastOffset

def validateRows (rows : List TerminalColdRow) (rowLimit byteLimit : ℤ) : Except ColdError Unit :=
  if (rows.length : ℤ) > rowLimit then .error (.error "row page exceeds requested bound")
  else validateEach byteLimit rows [] 0 0

def validateHits (hits : List TerminalColdSearchHit) (resultLimit : ℤ) : Except ColdError Unit :=
  if (hits.length : ℤ) > resultLimit then .error (.error "search result exceeds requested bound")
  else if hits.any fun hit => !isSafeInteger hit.startColumn || !isSafeInteger hit.endColumn ||
      decide (hit.startColumn < 0) || decide (hit.endColumn ≤ hit.startColumn) then
    .error (.error "search result contains an invalid cell range")
  else .ok ()

structure CachedPage where
  key : String
  page : TerminalColdRowPage
  bytes : ℕ
  deriving DecidableEq

/-- A request that was begun, under a ticket that stands for its controller: the generation and
the versions it was begun with, and what its reply is checked against. -/
structure Begun where
  ticket : ℕ
  generation : ℕ
  terminalEpoch : String
  indexGeneration : Option String
  deriving DecidableEq

structure RowsRequest extends Begun where
  cursor : Option String
  direction : RowDirection
  rowLimit : ℤ
  byteLimit : ℤ
  deriving DecidableEq

structure SearchRequest extends Begun where
  searchGeneration : ℕ
  resultLimit : ℤ
  deriving DecidableEq

structure TerminalColdRowProvider where
  maximumPages : ℕ
  maximumBytes : ℕ
  terminalEpoch : String
  indexGeneration : Option String
  pages : IndexMap String CachedPage
  cacheBytes : ℤ
  requestGeneration : ℕ
  controllers : List ℕ
  pendingPages : IndexMap String ℕ
  disposed : Bool
  searchKey : String
  searchGeneration : ℕ
  searchControllers : List ℕ

namespace TerminalColdRowProvider

def maximumRequests : ℕ := 16

/-- The constructor. -/
def new (terminalEpoch : String) (maximumPages maximumBytes : Option ℤ) :
    Except ColdError TerminalColdRowProvider := do
  if terminalEpoch = "" then throw (.error "terminal epoch is required")
  let pages ← boundedInteger (maximumPages.getD 8) 1 32 "maximum pages"
  let bytes ← boundedInteger (maximumBytes.getD (2 * 1024 * 1024)) (64 * 1024) (16 * 1024 * 1024)
    "maximum bytes"
  pure {
    maximumPages := pages.toNat
    maximumBytes := bytes.toNat
    terminalEpoch
    indexGeneration := none
    pages := .empty
    cacheBytes := 0
    requestGeneration := 0
    controllers := []
    pendingPages := .empty
    disposed := false
    searchKey := ""
    searchGeneration := 0
    searchControllers := [] }

def invalidate (s : TerminalColdRowProvider) (clear : Bool) : TerminalColdRowProvider :=
  let s := { s with
    requestGeneration := s.requestGeneration + 1
    controllers := []
    searchControllers := []
    pendingPages := .empty }
  if clear then { s with pages := .empty, cacheBytes := 0 } else s

def setEpoch (s : TerminalColdRowProvider) (terminalEpoch : String) :
    Except ColdError TerminalColdRowProvider :=
  if terminalEpoch = "" then .error (.error "terminal epoch is required")
  else if terminalEpoch = s.terminalEpoch then .ok s
  else .ok ({ s with terminalEpoch, indexGeneration := none }.invalidate true)

def cancelPending (s : TerminalColdRowProvider) : TerminalColdRowProvider := s.invalidate false

def dispose (s : TerminalColdRowProvider) : TerminalColdRowProvider :=
  { s with disposed := true }.invalidate true

def assertActive (s : TerminalColdRowProvider) : Except ColdError Unit :=
  if s.disposed then .error (.error "Terminal history provider is disposed") else .ok ()

def beginRequest (s : TerminalColdRowProvider) (ticket : ℕ) :
    Except ColdError TerminalColdRowProvider := do
  s.assertActive
  if s.controllers.length ≥ maximumRequests then
    throw (.error "Terminal history request queue is full")
  pure { s with controllers := s.controllers ++ [ticket] }

def begun (s : TerminalColdRowProvider) (ticket : ℕ) : Begun :=
  ⟨ticket, s.requestGeneration, s.terminalEpoch, s.indexGeneration⟩

def rowPageKey (s : TerminalColdRowProvider) (cursor : Option String) (direction : RowDirection)
    (rowLimit byteLimit : ℤ) : String :=
  String.intercalate "\x00" [s.terminalEpoch, s.indexGeneration.getD "", direction.text,
    cursor.getD "", toString rowLimit, toString byteLimit]

/-- What a call of `readRows` answers with at once: a cached page, the promise of a request that
is under way, or a request of its own. -/
inductive ReadRows
  | cached (page : TerminalColdRowPage)
  | pending (ticket : ℕ)
  | request (request : RowsRequest)

def readRows (s : TerminalColdRowProvider) (ticket : ℕ) (cursor : Option String)
    (direction : Option RowDirection) (rowLimit byteLimit : Option ℤ) :
    Except ColdError (TerminalColdRowProvider × ReadRows) := do
  s.assertActive
  let direction := direction.getD .older
  let rowLimit ← boundedInteger (rowLimit.getD 256) 1 512 "row limit"
  let byteLimit ← boundedInteger (byteLimit.getD (256 * 1024)) 1 (1024 * 1024) "byte limit"
  let key := s.rowPageKey cursor direction rowLimit byteLimit
  match s.pages.get? key with
  | some cached =>
    pure ({ s with pages := (s.pages.shiftRemove key).insert key cached }, .cached cached.page)
  | none =>
    match s.pendingPages.get? key with
    | some ticket => pure (s, .pending ticket)
    | none =>
      let s ← s.beginRequest ticket
      let request : RowsRequest :=
        { s.begun ticket with cursor, direction, rowLimit, byteLimit }
      pure ({ s with pendingPages := s.pendingPages.insert key ticket }, .request request)

/-- A query of another text or case sensitivity aborts the searches before it. -/
def selectQuery (s : TerminalColdRowProvider) (key : String) : TerminalColdRowProvider :=
  if key = s.searchKey then s
  else { s with
    searchKey := key
    searchGeneration := s.searchGeneration + 1
    controllers := s.controllers.filter fun ticket => ticket ∉ s.searchControllers
    searchControllers := [] }

/-- The state stays changed when the request cannot be begun. -/
def search (s : TerminalColdRowProvider) (ticket : ℕ) (query : String)
    (caseSensitive : Option Bool) (resultLimit : Option ℤ) :
    TerminalColdRowProvider × Except ColdError SearchRequest :=
  let checked : Except ColdError ℤ := do
    s.assertActive
    if query = "" ∨ query.utf8ByteSize > 4096 then
      throw (.error "search query must contain 1..=4096 bytes")
    boundedInteger (resultLimit.getD 100) 1 500 "result limit"
  match checked with
  | .error error => (s, .error error)
  | .ok resultLimit =>
    let key := toString (caseSensitive.getD false) ++ "\x00" ++ query
    let s := s.selectQuery key
    match s.beginRequest ticket with
    | .error error => (s, .error error)
    | .ok s =>
      ({ s with searchControllers := s.searchControllers ++ [ticket] },
        .ok { s.begun ticket with searchGeneration := s.searchGeneration, resultLimit })

def acceptVersion (s : TerminalColdRowProvider) (epoch indexGeneration : String)
    (requestGeneration : ℕ) : Except ColdError TerminalColdRowProvider :=
  if requestGeneration ≠ s.requestGeneration then
    .error (.abort "stale terminal history request")
  else if epoch ≠ s.terminalEpoch then .error (.error "terminal history epoch changed")
  else
    let replaced := s.indexGeneration.any fun known => decide (known ≠ indexGeneration)
    .ok { (if replaced then s.invalidate true else s) with indexGeneration := some indexGeneration }

/-- The loop of `remember`, at most once for each page. -/
def evict : ℕ → TerminalColdRowProvider → TerminalColdRowProvider
  | 0, s => s
  | n + 1, s =>
    if s.pages.length > s.maximumPages ∨ s.cacheBytes > s.maximumBytes then
      match s.pages.first? with
      | none => s
      | some oldest =>
        evict n { s with
          pages := s.pages.shiftRemove oldest.1
          cacheBytes := s.cacheBytes - oldest.2.bytes }
    else s

def remember (s : TerminalColdRowProvider) (entry : CachedPage) : TerminalColdRowProvider :=
  let replaced := ((s.pages.get? entry.key).map CachedPage.bytes).getD 0
  let s := { s with
    pages := s.pages.insert entry.key entry
    cacheBytes := s.cacheBytes - replaced + entry.bytes }
  evict s.pages.length s

/-- What a page replied by the source does to the provider, if it is accepted. -/
def acceptRows (s : TerminalColdRowProvider) (request : RowsRequest) (page : TerminalColdRowPage) :
    Except ColdError TerminalColdRowProvider := do
  validateRows page.rows request.rowLimit request.byteLimit
  let s ← s.acceptVersion page.terminalEpoch page.indexGeneration request.generation
  let bytes := pageBytes page
  if bytes ≤ s.maximumBytes then
    pure (s.remember
      ⟨s.rowPageKey request.cursor request.direction request.rowLimit request.byteLimit, page, bytes⟩)
  else pure s

def acceptHits (s : TerminalColdRowProvider) (request : SearchRequest)
    (result : TerminalColdSearchPage) : Except ColdError TerminalColdRowProvider := do
  if request.searchGeneration ≠ s.searchGeneration then
    throw (.abort "stale terminal history search")
  validateHits result.hits request.resultLimit
  s.acceptVersion result.terminalEpoch result.indexGeneration request.generation

/-- The controller of a request that is over is forgotten. -/
def finish (s : TerminalColdRowProvider) (ticket : ℕ) : TerminalColdRowProvider :=
  { s with
    controllers := s.controllers.filter (· ≠ ticket)
    searchControllers := s.searchControllers.filter (· ≠ ticket) }

/-- The promise of a page is forgotten unless another has taken its place. -/
def settle (s : TerminalColdRowProvider) (ticket : ℕ) : TerminalColdRowProvider :=
  { s with pendingPages := s.pendingPages.retain fun _ pending => decide (pending ≠ ticket) }

end TerminalColdRowProvider
end PiDeck.ColdRows
