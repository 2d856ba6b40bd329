import HabrDigest.Lib.Bytes
import HabrDigest.Lib.Topology
import HabrDigest.Messaging.AmqpService

/-!
# The channel operations

What `AmqpService` sends on its channel: `DeclareQueue`, `DeclareFanoutExchange`, `BindQueue`,
`PublishTo` and the start of a consumer in `Consume`.  Each of them sends nothing where there is no
channel; to publish, the channel has to be ready as well.  AMQP-CPP queues what is sent, so the
commands reach the broker in the order of the calls.

The names are those of `messages.hpp`, where the queues of the pipeline are consumed by one service
each and every subscriber of the digests binds a queue of its own to one fanout exchange.
-/

namespace HabrDigest
namespace Messaging

/-! ## Names -/

def kRawArticlesQueue : Bytes := utf8 "raw_articles"
def kParsedArticlesQueue : Bytes := utf8 "parsed_articles"
def kDigestReadyExchange : Bytes := utf8 "digest_ready"
def kDigestNotifierQueue : Bytes := utf8 "digest_ready.notifier"
def kDigestWebQueue : Bytes := utf8 "digest_ready.web"

namespace State

/-! ## What is sent -/

/-- `AmqpService::DeclareQueue`. -/
def declareQueue (queue : Bytes) (s : State) : List (Command Bytes) :=
  if s.channel.isNone then [] else [.declareQueue queue true]

/-- `AmqpService::DeclareFanoutExchange`. -/
def declareFanoutExchange (exchange : Bytes) (s : State) : List (Command Bytes) :=
  if s.channel.isNone then [] else [.declareExchange exchange ⟨.fanout, true⟩]

/-- `AmqpService::BindQueue`. -/
def bindQueue (queue exchange : Bytes) (s : State) : List (Command Bytes) :=
  if s.channel.isNone then [] else [.bindQueue ⟨exchange, queue, []⟩]

/-- `AmqpService::Consume`, up to the first delivery. -/
def consume (queue : Bytes) (prefetch : UInt16) (s : State) : List (Command Bytes) :=
  if s.channel.isNone then [] else [.setQos prefetch.toNat, .consume queue]

/-- What `AmqpService::PublishTo` sends, when `channel_->publish` would return `accepted`.  The
exchange without a name is the default one. -/
def publishes (exchange routingKey : Bytes) (accepted : Bool) (s : State) : List (Command Bytes) :=
  if s.publishTo accepted then [.publish (if exchange = [] then none else some exchange) routingKey]
  else []

/-- What `AmqpService::Publish` sends. -/
def publish (queue : Bytes) (accepted : Bool) (s : State) : List (Command Bytes) :=
  s.publishes [] queue accepted

/-- What `AmqpService::PublishToExchange` sends. -/
def publishToExchange (exchange : Bytes) (accepted : Bool) (s : State) : List (Command Bytes) :=
  s.publishes exchange [] accepted

end State

end Messaging
end HabrDigest
