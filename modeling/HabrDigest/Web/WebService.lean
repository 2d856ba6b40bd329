import HabrDigest.Common.Env
import HabrDigest.Messaging.Consume
import HabrDigest.Messaging.Messages

/-!
# The web service

`services/web/src/web_service.cpp` and `config.cpp`: the digests that were received, newest
first, as many as the configuration says.
-/

namespace HabrDigest
namespace Web

open Messaging Common

/-- `Config`, without what the connection to the broker needs. -/
structure Config where
  httpBind : Bytes := utf8 "0.0.0.0"
  httpPort : UInt16 := 8080
  historySize : UInt64 := 20
  deriving DecidableEq, Repr

/-- `LoadConfigFromEnv`. -/
def loadConfigFromEnv (env : Env) : Config :=
  let initial : Config := {}
  let port := readUint32Env env (utf8 "HTTP_PORT") initial.httpPort.toUInt32
  let historySize := readUint32Env env (utf8 "DIGEST_HISTORY_SIZE") initial.historySize.toUInt32
  { httpBind := readStringEnv env (utf8 "HTTP_BIND") initial.httpBind
    httpPort := if port = 0 ∨ 65535 < port then initial.httpPort else port.toUInt16
    historySize := if historySize = 0 then 20 else historySize.toUInt64 }

/-- `WebService::HandleDigestReady`: what it returns, and `digests_` afterwards. -/
def handleDigestReady (n : Nlohmann) (config : Config) (payload : Bytes)
    (digests : List DigestReadyMessage) : Ack × List DigestReadyMessage :=
  match n.decode DigestReadyMessage.codec payload with
  | none => (.kReject, digests)
  | some digest => (.kAck, (digest :: digests).take config.historySize.toNat)

end Web
end HabrDigest
