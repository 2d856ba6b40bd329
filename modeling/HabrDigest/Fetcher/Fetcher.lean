import HabrDigest.Common.Env
import HabrDigest.Common.TimeUtil
import HabrDigest.Lib.JsonText
import HabrDigest.Messaging.Messages

/-!
# The fetcher

`services/fetcher/src/config.cpp`, `http_client.cpp` and `fetcher.cpp`.  What curl does
with a request is an input, a `Transfer`; `HttpClient::Get` turns it into a response, and
the body of a response with a good status is whatever bytes the server sent.

`OnTick` puts the body into a `RawArticlesMessage` and encodes it.  The encoder is partial:
`dump` throws on a string that is not UTF-8, and nothing between it and libevent catches
the exception.  `onTick_survives_iff` says exactly when a tick with a good response comes
to its end: when the body and the configured address are UTF-8.
-/

namespace HabrDigest
namespace Fetcher

open Messaging Common

/-! ## The configuration -/

/-- `Config`, without what the connections need. -/
structure Config where
  habrUrl : Bytes := utf8 "https://habr.com/ru/articles/top/daily/"
  intervalSeconds : UInt32 := 300
  fetchTimeoutSeconds : UInt32 := 10
  deriving DecidableEq, Repr

/-- `LoadConfigFromEnv`. -/
def loadConfigFromEnv (env : Env) : Config :=
  let initial : Config := {}
  { habrUrl := readStringEnv env (utf8 "HABR_URL") initial.habrUrl
    intervalSeconds :=
      nonzeroOr 300 (readUint32Env env (utf8 "FETCH_INTERVAL_SECONDS") initial.intervalSeconds)
    fetchTimeoutSeconds :=
      nonzeroOr 10 (readUint32Env env (utf8 "FETCH_TIMEOUT_SECONDS") initial.fetchTimeoutSeconds) }

/-- The interval and the timeout of a configuration are positive. -/
theorem loadConfigFromEnv_pos (env : Env) :
    0 < (loadConfigFromEnv env).intervalSeconds.toNat ∧
    0 < (loadConfigFromEnv env).fetchTimeoutSeconds.toNat :=
  ⟨nonzeroOr_pos (by decide) _, nonzeroOr_pos (by decide) _⟩

/-! ## The HTTP client -/

/-- `HttpResponse`. -/
structure HttpResponse where
  ok : Bool := false
  statusCode : ℤ := 0
  body : Bytes := []
  error : Bytes := []
  deriving DecidableEq, Repr

/-- What curl does with a request. -/
inductive Transfer where
  /-- `curl_easy_init` returns null. -/
  | noHandle
  /-- `curl_easy_perform` fails after it has delivered some pieces. -/
  | failed (pieces : List Bytes) (error : Bytes)
  /-- The transfer ends with a status, its body delivered in pieces. -/
  | completed (pieces : List Bytes) (status : ℤ)
  deriving Repr

/-- `WriteCallback`, called for one piece after another. -/
def writeCallback (body : Bytes) (pieces : List Bytes) : Bytes :=
  pieces.foldl (fun body piece => body ++ piece) body

/-- `HttpClient::Get`. -/
def get : Transfer → HttpResponse
  | .noHandle => { error := utf8 "curl_easy_init failed" }
  | .failed _ error => { error := error }
  | .completed pieces status =>
    if 200 ≤ status ∧ status < 300 then
      { ok := true, statusCode := status, body := writeCallback [] pieces }
    else
      { statusCode := status, error := utf8 "unexpected HTTP status " ++ Numeral.ofInt status }

/-! ## The tick -/

/-- What `OnTick` meets: the clock at the start and behind the request, the number drawn for
the trace id, the response, and what `Publish` returns. -/
structure Circumstances where
  startedAt : ℤ
  fetchedAt : ℤ
  drawn : UInt32
  response : HttpResponse
  publishes : Bool
  deriving Repr

/-- How `OnTick` ends. -/
inductive TickOutcome where
  /-- It returns without having called `Publish`. -/
  | gaveUp
  /-- It returns after `Publish` was called with the payload. -/
  | handed (payload : Bytes) (accepted : Bool)
  /-- An exception leaves it. -/
  | threw
  deriving DecidableEq, Repr

/-- The message of a tick. -/
def message (config : Config) (c : Circumstances) : RawArticlesMessage where
  fetchId := nowIso8601Utc c.startedAt
  sourceUrl := config.habrUrl
  rawHtml := c.response.body
  fetchedAt := nowIso8601Utc c.fetchedAt
  traceId := generateTraceId c.drawn

/-- `Fetcher::OnTick`. -/
def onTick (n : Nlohmann) (config : Config) (c : Circumstances) : TickOutcome :=
  if c.response.ok then
    match n.encode RawArticlesMessage.codec (message config c) with
    | some payload => .handed payload c.publishes
    | none => .threw
  else .gaveUp

/-- The tick has come to its end, and what it handed to `Publish` is the page. -/
def Survives (n : Nlohmann) (body : Bytes) : TickOutcome → Prop
  | .gaveUp => True
  | .handed payload _ =>
    ∃ m, n.decode RawArticlesMessage.codec payload = some m ∧ m.rawHtml = body
  | .threw => False

/-- The message can be encoded exactly when the page and its address are text. -/
theorem encode_message_isSome_iff (n : Nlohmann) (config : Config) (c : Circumstances) :
    (n.encode RawArticlesMessage.codec (message config c)).isSome = true ↔
      Utf8.Valid c.response.body ∧ Utf8.Valid config.habrUrl := by
  rw [Nlohmann.encode_isSome_iff, RawArticlesMessage.validUtf8_toJson]
  have h1 := valid_nowIso8601Utc c.startedAt
  have h2 := valid_nowIso8601Utc c.fetchedAt
  have h3 := valid_generateTraceId c.drawn
  simp only [RawArticlesMessage.strings, message, List.forall_mem_cons]
  exact ⟨fun h => ⟨h.2.2.1, h.2.1⟩, fun h => ⟨h1, h.2, h.1, h2, h3, by simp⟩⟩

/-- **The fetcher survives a page** if and only if the page and the configured address are
valid UTF-8. -/
theorem onTick_survives_iff (n : Nlohmann) (config : Config) (c : Circumstances)
    (hok : c.response.ok = true) :
    Survives n c.response.body (onTick n config c) ↔
      Utf8.Valid c.response.body ∧ Utf8.Valid config.habrUrl := by
  rw [← encode_message_isSome_iff n config c]
  unfold onTick
  rw [if_pos hok]
  cases hpayload : n.encode RawArticlesMessage.codec (message config c) with
  | none => simp [Survives]
  | some payload =>
    have hdecode := Nlohmann.decode_encode_of_lossless (RawArticlesMessage.lossless _) hpayload
    simp only [Survives, Option.isSome_some, iff_true]
    exact ⟨message config c, hdecode, rfl⟩

/-- A response that the server closed in the middle of a character. -/
def cutPage : Circumstances where
  startedAt := 0
  fetchedAt := 1
  drawn := 7
  response := get (.completed [utf8 "<html>", [0xD0]] 200)
  publishes := true

/-- **The page the fetcher does not survive.** -/
theorem onTick_not_survives :
    ¬ ∀ (n : Nlohmann) (config : Config) (c : Circumstances), c.response.ok = true →
      Survives n c.response.body (onTick n config c) := by
  intro h
  have hcut := h Nlohmann.reference {} cutPage rfl
  have hthrew : onTick Nlohmann.reference {} cutPage = .threw := by decide +kernel
  rw [hthrew] at hcut
  exact hcut

/-- A page in two pieces, cut between the bytes of a character. -/
def wholePage : Circumstances :=
  { cutPage with response := get (.completed [[0xD0], [0x9A]] 200) }

theorem onTick_survives_iff_wholePage :
    Survives Nlohmann.reference (utf8 "К") (onTick Nlohmann.reference {} wholePage) :=
  (onTick_survives_iff Nlohmann.reference {} wholePage rfl).mpr (by decide)

end Fetcher
end HabrDigest
