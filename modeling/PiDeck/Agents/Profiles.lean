import Mathlib
import PiDeck.Collections.Keyed
import PiDeck.Collections.Results
import PiDeck.Tasks.Model

/-! Agent profiles and the handler that edits one: it reads the profile, merges the body of the
request into it and writes all its editable columns back. -/
namespace PiDeck.Agents
open PiDeck.Collections
open PiDeck.Tasks (Value stringArray)

structure AgentError where
  status : ℕ
  code : String
  message : String
  deriving DecidableEq, Repr

namespace AgentError

def bad (code message : String) : AgentError := ⟨400, code, message⟩
def notFound (code message : String) : AgentError := ⟨404, code, message⟩
def conflict (code message : String) : AgentError := ⟨409, code, message⟩
def storage (error : String) : AgentError := ⟨500, "database_error", error⟩

end AgentError

inductive PromptMode
  | append
  | replace
  deriving DecidableEq, Repr

structure ModelRef where
  provider : String
  id : String
  deriving DecidableEq, Repr

/-- A row of `agent_profiles`; its tools are those that the stored text lists. -/
structure Agent where
  id : String
  name : String
  systemPrompt : String
  systemPromptMode : PromptMode
  model : Option ModelRef
  thinkingLevel : Option String
  cwd : String
  tools : Option (List String)
  createdAt : String
  updatedAt : String
  deletedAt : Option String
  deriving DecidableEq, Repr

/-- The `agent_profiles` table. -/
structure Profiles where
  agents : List Agent
  deriving DecidableEq, Repr

def validateText (value : String) (max : ℕ) (field : String) : Except AgentError Unit :=
  if value = "" ∨ max < value.utf8ByteSize then
    .error (.bad "validation_failed"
      (field ++ " must contain between 1 and " ++ toString max ++ " bytes"))
  else .ok ()

def supportedTools : List String := ["read", "bash", "edit", "write", "grep", "find", "ls"]

def editableFields : List String := ["name", "systemPrompt", "systemPromptMode", "tools"]

/-- What `update_agent` checks before it reads the profile. -/
def checkFields (input : Value) : Except AgentError Unit :=
  match input with
  | .object fields =>
    if fields = [] ∨ ∃ field ∈ fields, field.1 ∉ editableFields then
      .error (.bad "validation_failed" "Agent update contains no fields or unsupported fields")
    else .ok ()
  | _ => .error (.bad "validation_failed" "Agent update must be an object")

def parseName (value : Value) : Except AgentError String :=
  match value with
  | .string name => do
    validateText (Mux.trim name) 256 "name"
    return Mux.trim name
  | _ => .error (.bad "validation_failed" "name must be a string")

def parsePrompt (value : Value) : Except AgentError String :=
  match value with
  | .string prompt => do
    validateText prompt 250000 "systemPrompt"
    return prompt
  | _ => .error (.bad "validation_failed" "systemPrompt must be a string")

def parseMode (value : Value) : Except AgentError PromptMode :=
  match value with
  | .string "append" => .ok .append
  | .string "replace" => .ok .replace
  | _ => .error (.bad "validation_failed" "systemPromptMode must be append or replace")

def parseTools (value : Value) : Except AgentError (Option (List String)) :=
  match value with
  | .null => .ok none
  | .array values =>
    match stringArray values with
    | none => .error (.bad "validation_failed" "tools must be an array of tool names")
    | some tools =>
      if 7 < tools.length ∨ ¬tools.Nodup ∨ ∃ tool ∈ tools, tool ∉ supportedTools then
        .error (.bad "validation_failed" "tools must contain unique supported tool names")
      else .ok (some tools)
  | _ => .error (.bad "validation_failed" "tools must be an array of tool names")

/-- What `update_agent` writes. -/
structure MergedAgent where
  name : String
  systemPrompt : String
  systemPromptMode : PromptMode
  tools : Option (List String)
  deriving DecidableEq, Repr

def mergeAgent (input : Value) (current : Agent) : Except AgentError MergedAgent := do
  let name ← (input.get "name").elim (.ok current.name) parseName
  let systemPrompt ← (input.get "systemPrompt").elim (.ok current.systemPrompt) parsePrompt
  let systemPromptMode ← (input.get "systemPromptMode").elim (.ok current.systemPromptMode) parseMode
  let tools ← (input.get "tools").elim (.ok current.tools) parseTools
  return ⟨name, systemPrompt, systemPromptMode, tools⟩

namespace Profiles
variable (profiles : Profiles)

def findAgent (id : String) : Except AgentError Agent :=
  match findRow Agent.id profiles.agents id with
  | some agent =>
    if agent.deletedAt = none then .ok agent
    else .error (.notFound "not_found" "Agent was not found")
  | none => .error (.notFound "not_found" "Agent was not found")

/-- `UPDATE agent_profiles SET name=?,… WHERE id=?`. -/
def writeAgent (id : String) (merged : MergedAgent) (now : String) : Profiles :=
  { agents := modifyRow Agent.id id (fun agent =>
      { agent with
        name := merged.name, systemPrompt := merged.systemPrompt
        systemPromptMode := merged.systemPromptMode, tools := merged.tools, updatedAt := now })
      profiles.agents }

def updateAgent (id : String) (input : Value) (now : String) :
    Profiles × Except AgentError Agent :=
  let result : Except AgentError Profiles := do
    checkFields input
    let current ← profiles.findAgent id
    let merged ← mergeAgent input current
    return profiles.writeAgent id merged now
  match result with
  | .ok after => (after, after.findAgent id)
  | .error error => (profiles, .error error)

end Profiles
end PiDeck.Agents
