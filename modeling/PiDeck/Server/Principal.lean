import Mathlib

/-! Who is on the other side of a connection, and what it may do. -/
namespace PiDeck.Server

inductive DeviceScope
  | observe
  | control
  | admin
  deriving DecidableEq

structure Principal where
  principalId : String
  connectionId : String
  canObserve : Bool
  canControl : Bool
  canAdmin : Bool
  localAdmin : Bool
  deviceId : Option String
  deriving DecidableEq

namespace Principal

def ofLocal (connectionId : String) : Principal :=
  { principalId := "local-development"
    connectionId := connectionId
    canObserve := true
    canControl := true
    canAdmin := true
    localAdmin := true
    deviceId := none }

def token (connectionId : String) : Principal :=
  { principalId := "host-token"
    connectionId := connectionId
    canObserve := true
    canControl := true
    canAdmin := true
    localAdmin := true
    deviceId := none }

def paired (deviceId : String) (scopes : List DeviceScope) (connectionId : String) : Principal :=
  { principalId := "device:" ++ deviceId
    connectionId := connectionId
    canObserve := scopes.any fun scope => decide (scope ∈ [.observe, .control, .admin])
    canControl := scopes.any fun scope => decide (scope ∈ [.control, .admin])
    canAdmin := decide (.admin ∈ scopes)
    localAdmin := false
    deviceId := some deviceId }

end Principal
end PiDeck.Server
