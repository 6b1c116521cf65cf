import Mathlib

/-! The rows of the session catalog: sessions, the tabs of a session and the terminals of a tab.
Timestamps are the strings the host writes; an entity is archived when it has an archive time. -/
namespace PiDeck.Mux

structure AppSession where
  id : String
  title : String
  position : ℕ
  activeTabId : Option String
  activeMuxTerminalId : Option String
  revision : ℕ
  createdAt : String
  updatedAt : String
  archivedAt : Option String
  deriving DecidableEq, Repr

structure SessionTab where
  id : String
  sessionId : String
  title : String
  position : ℕ
  activeMuxTerminalId : Option String
  layoutJson : Option String
  revision : ℕ
  createdAt : String
  updatedAt : String
  archivedAt : Option String
  deriving DecidableEq, Repr

structure TerminalInput where
  tag : String
  kind : String
  shellArgs : Option (List String)
  deriving DecidableEq, Repr

instance : Inhabited TerminalInput := ⟨⟨"TerminalInput", "terminal", none⟩⟩

inductive ProcessState
  | starting | running | exited | failed | disconnected | interrupted | restoring | orphaned
  deriving DecidableEq, Repr

inductive ActivityState
  | starting | working | runningCommand | waitingForInput | idle | failed
  deriving DecidableEq, Repr

structure ProcessIdentity where
  pid : ℕ
  platform : String
  bootId : Option String
  startToken : String
  executablePath : Option String
  deriving DecidableEq, Repr

structure TerminalOutput where
  terminalInstanceId : String
  ptyId : Option String
  historyId : Option String
  processIdentity : Option ProcessIdentity
  generation : ℕ
  processState : ProcessState
  activityState : ActivityState
  replayAvailable : Bool
  exitCode : Option ℤ
  truncated : Bool
  deriving DecidableEq, Repr

def TerminalOutput.pending : TerminalOutput where
  terminalInstanceId := "pending"
  ptyId := none
  historyId := none
  processIdentity := none
  generation := 1
  processState := .starting
  activityState := .starting
  replayAvailable := false
  exitCode := none
  truncated := false

/-- The output of a terminal whose process just started; `instanceId` is the drawn instance id. -/
def TerminalOutput.running (instanceId ptyId : String) (generation : ℕ)
    (processIdentity : Option ProcessIdentity) : TerminalOutput where
  terminalInstanceId := instanceId
  ptyId := some ptyId
  historyId := some ptyId
  processIdentity := processIdentity
  generation := generation
  processState := .running
  activityState := .working
  replayAvailable := true
  exitCode := none
  truncated := false

inductive TerminalStatus
  | created | starting | running | waiting | succeeded | failed | cancelled | disconnected
  deriving DecidableEq, Repr

def TerminalStatus.isLive : TerminalStatus → Bool
  | created | starting | running | waiting => true
  | succeeded | failed | cancelled | disconnected => false

/-- The statuses of a terminal whose process has been asked for. -/
def TerminalStatus.isStarted : TerminalStatus → Bool
  | starting | running | waiting => true
  | created | succeeded | failed | cancelled | disconnected => false

/-- The statuses of a terminal whose process is over. -/
def TerminalStatus.isFinished : TerminalStatus → Bool
  | succeeded | failed | cancelled | disconnected => true
  | created | starting | running | waiting => false

structure MuxTerminal where
  id : String
  sessionId : String
  tabId : Option String
  title : String
  position : ℕ
  status : TerminalStatus
  input : TerminalInput
  inputRevision : ℕ
  output : TerminalOutput
  error : Option String
  revision : ℕ
  createdAt : String
  updatedAt : String
  startedAt : Option String
  finishedAt : Option String
  archivedAt : Option String
  deriving DecidableEq, Repr

structure SessionSnapshot where
  session : AppSession
  tabs : List SessionTab
  muxTerminals : List MuxTerminal
  deriving DecidableEq, Repr

end PiDeck.Mux
