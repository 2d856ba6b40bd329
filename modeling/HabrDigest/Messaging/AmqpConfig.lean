import HabrDigest.Common.Env
import HabrDigest.Messaging.AmqpService

/-!
# The configuration of the broker connection

`LoadAmqpConfigFromEnv` and `BuildAmqpAddress` of
`shared/cpp/messaging/src/amqp_service.cpp`.  Every service reads the same seven variables.  Five
of them end up in one string, the address that AMQP-CPP takes apart again; the other two are the
reconnect policy of the skeleton.
-/

namespace HabrDigest
namespace Messaging

open Common

/-- `AmqpConfig`. -/
structure AmqpConfig where
  host : Bytes := utf8 "localhost"
  port : UInt16 := 5672
  user : Bytes := utf8 "guest"
  password : Bytes := utf8 "guest"
  vhost : Bytes := utf8 "/"
  policy : ReconnectPolicy := {}
  deriving DecidableEq, Repr

/-- `LoadAmqpConfigFromEnv`. -/
def loadAmqpConfigFromEnv (env : Env) : AmqpConfig :=
  let initial : AmqpConfig := {}
  { host := readStringEnv env (utf8 "RABBITMQ_HOST") initial.host
    port := (readUint32Env env (utf8 "RABBITMQ_PORT") initial.port.toUInt32).toUInt16
    user := readStringEnv env (utf8 "RABBITMQ_USER") initial.user
    password := readStringEnv env (utf8 "RABBITMQ_PASSWORD") initial.password
    vhost := readStringEnv env (utf8 "RABBITMQ_VHOST") initial.vhost
    policy :=
      { maxReconnectAttempts :=
          readUint32Env env (utf8 "RABBITMQ_MAX_RECONNECT_ATTEMPTS")
            initial.policy.maxReconnectAttempts
        reconnectDelaySeconds :=
          readUint32Env env (utf8 "RABBITMQ_RECONNECT_DELAY_SECONDS")
            initial.policy.reconnectDelaySeconds } }

/-- `BuildAmqpAddress`. -/
def AmqpConfig.buildAmqpAddress (config : AmqpConfig) : Bytes :=
  let path := if config.vhost = utf8 "/" then [] else config.vhost
  utf8 "amqp://" ++ config.user ++ utf8 ":" ++ config.password ++ utf8 "@" ++ config.host ++
    utf8 ":" ++ Numeral.digits config.port.toNat ++ utf8 "/" ++ path

end Messaging
end HabrDigest
