/-
  The frozen enumerations of the order contract, and the frozen order machine.

  `OrderState` is the internal nine-state set; `legalEdges` are the thirteen
  edges both the application guard (`assertLegal`) and the store's trigger
  enforce. Nothing leaves a terminal state (`not_edge_of_terminal`), and that
  is read off the edge list, not assumed.
-/
import Mathlib.Data.List.Basic

namespace ExecutionEngine

inductive Broker where
  | sim | liberator | streamingPro
  deriving DecidableEq, Repr

inductive Market where
  | set | tfex
  deriving DecidableEq, Repr

inductive Side where
  | buy | sell
  deriving DecidableEq, Repr

inductive OrderType where
  | market | limit | stop | stopLimit | iceberg | mtl | ato | atc
  deriving DecidableEq, Repr

inductive Tif where
  | day | ioc | fok | gtc
  deriving DecidableEq, Repr

inductive PositionEffect where
  | openPos | closePos
  deriving DecidableEq, Repr

inductive Stage where
  | sim | paper | microLive | live
  deriving DecidableEq, Repr

inductive OrderState where
  | pendingNew | new | partiallyFilled | filled | pendingCancel | pendingReplace
  | cancelled | rejected | expired
  deriving DecidableEq, Repr

inductive PublicOrderStatus where
  | new | partiallyFilled | filled | cancelled | rejected | expired
  deriving DecidableEq, Repr

inductive HandleResolution where
  | confirmed | pending | unknown
  deriving DecidableEq, Repr

/-! ## Wire values -/

def Broker.value : Broker → String
  | .sim => "sim"
  | .liberator => "liberator"
  | .streamingPro => "streaming_pro"

def Market.value : Market → String
  | .set => "SET"
  | .tfex => "TFEX"

def Side.value : Side → String
  | .buy => "BUY"
  | .sell => "SELL"

def OrderType.value : OrderType → String
  | .market => "MARKET"
  | .limit => "LIMIT"
  | .stop => "STOP"
  | .stopLimit => "STOP_LIMIT"
  | .iceberg => "ICEBERG"
  | .mtl => "MTL"
  | .ato => "ATO"
  | .atc => "ATC"

def Tif.value : Tif → String
  | .day => "DAY"
  | .ioc => "IOC"
  | .fok => "FOK"
  | .gtc => "GTC"

def PositionEffect.value : PositionEffect → String
  | .openPos => "OPEN"
  | .closePos => "CLOSE"

def OrderState.value : OrderState → String
  | .pendingNew => "PENDING_NEW"
  | .new => "NEW"
  | .partiallyFilled => "PARTIALLY_FILLED"
  | .filled => "FILLED"
  | .pendingCancel => "PENDING_CANCEL"
  | .pendingReplace => "PENDING_REPLACE"
  | .cancelled => "CANCELLED"
  | .rejected => "REJECTED"
  | .expired => "EXPIRED"

/-- `to_public_status`: the six-value public view of the nine-state truth. -/
def toPublicStatus : OrderState → Int → PublicOrderStatus
  | .pendingNew, _ => .new
  | .pendingCancel, filled => if 0 < filled then .partiallyFilled else .new
  | .pendingReplace, filled => if 0 < filled then .partiallyFilled else .new
  | .new, _ => .new
  | .partiallyFilled, _ => .partiallyFilled
  | .filled, _ => .filled
  | .cancelled, _ => .cancelled
  | .rejected, _ => .rejected
  | .expired, _ => .expired

/-! ## The frozen order machine -/

namespace StateMachine

open OrderState

def terminalStates : List OrderState := [filled, cancelled, rejected, expired]

def legalEdges : List (OrderState × OrderState) :=
  [ (pendingNew, new),
    (pendingNew, rejected),
    (new, partiallyFilled),
    (new, filled),
    (new, expired),
    (new, pendingCancel),
    (new, pendingReplace),
    (partiallyFilled, filled),
    (partiallyFilled, expired),
    (partiallyFilled, pendingCancel),
    (partiallyFilled, pendingReplace),
    (pendingCancel, cancelled),
    (pendingReplace, new) ]

def isTerminal (s : OrderState) : Bool := s ∈ terminalStates

/-- Same-state is a legal no-op; anything else must be a frozen edge. -/
def isLegal (a b : OrderState) : Bool := if a = b then true else (a, b) ∈ legalEdges

/-- No edge leaves a terminal state. -/
theorem not_edge_of_terminal {a b : OrderState} (h : isTerminal a = true) :
    (a, b) ∉ legalEdges := by
  cases a <;> cases b <;> revert h <;> decide

theorem isLegal_of_terminal {a b : OrderState} (h : isTerminal a = true)
    (hl : isLegal a b = true) : a = b := by
  unfold isLegal at hl
  split at hl
  · assumption
  · exact absurd (of_decide_eq_true hl) (not_edge_of_terminal h)

theorem isLegal_iff {a b : OrderState} :
    isLegal a b = true ↔ a = b ∨ (a, b) ∈ legalEdges := by
  unfold isLegal
  split <;> simp_all

end StateMachine

end ExecutionEngine
