import HabrDigest.Lib.Bytes

/-!
# Settling a delivery

The callback that `AmqpService::Consume` registers calls the handler of the service and
settles the delivery by what it returns.  A handler that throws has its delivery
rejected: `decision` starts as `kReject`, and the `catch` sets it to `kReject` again.
-/

namespace HabrDigest
namespace Messaging

/-- What a consumer callback decides to do with a delivery. -/
inductive Ack where
  | kAck
  | kReject
  | kRequeue
  deriving DecidableEq, Repr

/-- What a handler does when it is called with a payload: what it returns, or none where it
throws, and the payloads it had `Publish` accept, in order. -/
structure Handled where
  result : Option Ack
  published : List Bytes
  deriving DecidableEq, Repr

/-- The decision of the callback. -/
def Handled.decision (h : Handled) : Ack := h.result.getD .kReject

end Messaging
end HabrDigest
