import Mathlib
import PiDeck.Mux.Closing
import PiDeck.Mux.Versions

/-! Where new and moved rows are shown. Their position is the number of the open rows beside them,
which is behind all of these as long as none of them has a larger position. -/
namespace PiDeck.Mux
open PiDeck.Collections PiDeck.Transition PersistedState
open scoped List

/-! ### The last row of a stable sort -/

section Sorting
variable {α : Type*} {position : α → ℕ} {before after rows : List α} {a b : α}

end Sorting

/-! ### The rows that are shown side by side -/

namespace PersistedState

def openSessions (s : PersistedState) : List AppSession :=
  s.sessions.filter fun r => r.archivedAt.isNone

def openTabs (s : PersistedState) (sessionId : String) : List SessionTab :=
  s.tabs.filter fun r => r.sessionId = sessionId && r.archivedAt.isNone

def openTerminals (s : PersistedState) (tabId : String) : List MuxTerminal :=
  s.terminals.filter (inTab tabId)

variable {s : PersistedState}

end PersistedState

/-- No open row beside a new one has a position beyond their number. For a moved terminal, none has
this position either that is stored behind it. -/
def HasRoom (s : PersistedState) : StoreOperation → Prop
  | .createSession _ => ∀ r ∈ s.openSessions, r.position ≤ s.openSessions.length
  | .createTab sessionId _ =>
    ∀ r ∈ s.openTabs sessionId, r.position ≤ (s.openTabs sessionId).length
  | .createTerminal sessionId tabId _ _ => ∀ selected,
    selectedTab s sessionId tabId = some selected →
      ∀ r ∈ s.openTerminals selected, r.position ≤ (s.openTerminals selected).length
  | .moveTerminal terminalId targetTabId => ∀ current,
    s.getTerminal terminalId = some current → current.tabId ≠ some targetTabId →
      ∀ r ∈ s.openTerminals targetTabId, r.position < (s.openTerminals targetTabId).length ∨
        r.position = (s.openTerminals targetTabId).length ∧
          s.terminals.idxOf r < s.terminals.idxOf current
  | _ => True

namespace PersistedState.Keyed
variable {s s' : PersistedState}

end PersistedState.Keyed

section Creating
variable {d : Draw} {s s' : PersistedState} {title sessionId : String}

end Creating

section Moving
variable {d : Draw} {s s' : PersistedState} {terminalId target : String} {r : MuxTerminal}

end Moving

namespace StateStore
variable {d d₀ : Draw} {as : List StoreAction} {t t' : StateStore} {operation : StoreOperation}
  {answer : Answer}

end StateStore
end PiDeck.Mux
