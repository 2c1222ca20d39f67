/-
  The exceptions the modelled code raises and catches.

  `rejected` is the typed taxonomy that crosses the API, one `Code` per class of
  `contracts/errors.py` (plus the two adapter/authority codes). `detail` dicts
  are not carried, except the cap a risk rejection names.
-/
import Mathlib.Data.List.Basic

namespace ExecutionEngine

/-- The stable wire codes of the typed rejections. -/
inductive Code where
  | killSwitchEngaged
  | stageRejected
  | capabilityUnsupported
  | riskRejected (cap : String)
  | priceBandExceeded
  | duplicateBurstDetected
  | orderNotFound
  | illegalTransition
  | storeConstraintViolated
  | submitInFlight
  | amendRejected
  | brokerCircuitOpen
  | realRoutingNotAuthorized
  | liberatorAccountNotFound
  deriving DecidableEq, Repr

def Code.value : Code → String
  | .killSwitchEngaged => "kill_switch_engaged"
  | .stageRejected => "stage_rejected"
  | .capabilityUnsupported => "capability_unsupported"
  | .riskRejected _ => "risk_rejected"
  | .priceBandExceeded => "price_band_exceeded"
  | .duplicateBurstDetected => "duplicate_burst_detected"
  | .orderNotFound => "order_not_found"
  | .illegalTransition => "illegal_transition"
  | .storeConstraintViolated => "store_constraint_violated"
  | .submitInFlight => "submit_in_flight"
  | .amendRejected => "amend_rejected"
  | .brokerCircuitOpen => "broker_circuit_open"
  | .realRoutingNotAuthorized => "real_routing_not_authorized"
  | .liberatorAccountNotFound => "liberator_account_not_found"

/-- A raised exception. -/
inductive Exn where
  /-- `OrderRejectedError` and its subclasses. -/
  | rejected (code : Code) (message : String) (clientOrderId : Option String)
  /-- `DuplicateOrderSignal`: the primary key of `execution.orders` fired. -/
  | duplicateOrderSignal (clientOrderId : String)
  /-- `AdapterError`. -/
  | adapterError (message : String)
  /-- `LiberatorTransportError` / `StreamingProTransportError`: the venue could not be read. -/
  | transportError (message : String)
  /-- Any other database failure. -/
  | storeError (message : String)
  /-- Any Redis failure. -/
  | cacheError (message : String)
  /-- A pydantic validation failure. -/
  | validationError (message : String)
  /-- `TypeError`: an aware and a naive timestamp were subtracted. -/
  | typeError (message : String)
  /-- Anything else a callee raises. -/
  | other (message : String)
  deriving DecidableEq, Repr

def Exn.isTransport : Exn → Bool
  | .transportError _ => true
  | _ => false

/-- The typed rejection with this code, whatever its text. -/
def Exn.hasCode (c : Code) : Exn → Bool
  | .rejected c' _ _ => c' = c
  | _ => false

end ExecutionEngine
