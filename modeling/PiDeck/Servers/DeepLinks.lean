import Mathlib
import PiDeck.Servers.Scoping

/-! Deep links. A link names a session, a tab and a terminal by their ids, as the server writes them
or with a server spliced in, and is resolved against what is loaded: by the id itself, or else by
the first loaded id with the same local key, whatever its server. -/
namespace PiDeck.Servers.DeepLinks

structure AppSession where
  id : EntityId .session
  archivedAt : Option String
  updatedAt : String
  activeTabId : Option (EntityId .tab)
  activeMuxTerminalId : Option (EntityId .muxTerminal)

structure SessionTab where
  id : EntityId .tab
  sessionId : EntityId .session
  position : ℤ
  archivedAt : Option String
  activeMuxTerminalId : Option (EntityId .muxTerminal)

/-- A date that is not the empty string. -/
def archived (archivedAt : Option String) : Bool := archivedAt.any fun text => decide (text ≠ "")

/-- The id without its first tag. -/
def stripTag (id : List Char) : List Char :=
  match [EntityKind.session, .tab, .muxTerminal].find? fun kind =>
      (kind.tag.toList ++ ['-']).isPrefixOf id with
  | some kind => id.drop (kind.tag.length + 1)
  | none => id

/-- What stands before the first `--` and after it. -/
def splitServer : List Char → Option (List Char × List Char)
  | [] => none
  | '-' :: '-' :: rest => some ([], rest)
  | c :: rest => (splitServer rest).map fun parts => (c :: parts.1, parts.2)

def localResourceKey (id : String) : List Char :=
  match splitServer (stripTag id.toList) with
  | none => stripTag id.toList
  | some (_, key) => key

variable {kind : EntityKind}

def activeMuxTerminalId : SessionTab ⊕ AppSession → Option (EntityId .muxTerminal)
  | .inl tab => tab.activeMuxTerminalId
  | .inr session => session.activeMuxTerminalId

section Lookup
variable {requested id : EntityId kind} {ids : List (EntityId kind)} {fallback : Option (EntityId kind)}

end Lookup

/-! ### The three choices -/

variable {localeCompare : String → String → ℤ}

end PiDeck.Servers.DeepLinks
