import HabrDigest.Common.Env
import HabrDigest.Messaging.Consume
import HabrDigest.Notifier.DigestWriter

/-!
# The notifier

`services/notifier/src/notifier_service.cpp`: a digest is rendered once and written to two
files, one named after it and `latest.md`.
-/

namespace HabrDigest
namespace Notifier

open Messaging Common

/-- `Config`, without what the connection to the broker needs. -/
structure Config where
  outputDir : Bytes := utf8 "/data/digests"
  deriving DecidableEq, Repr

/-- `LoadConfigFromEnv`. -/
def loadConfigFromEnv (env : Env) : Config where
  outputDir := readStringEnv env (utf8 "DIGEST_OUTPUT_DIR") (utf8 "/data/digests")

/-- A byte that stays in a file name. -/
def isSafe (ch : UInt8) : Bool :=
  (0x61 ≤ ch && ch ≤ 0x7A) || (0x41 ≤ ch && ch ≤ 0x5A) || (0x30 ≤ ch && ch ≤ 0x39) ||
    ch = 0x2D || ch = 0x5F

/-- `ToFileNameToken`. -/
def toFileNameToken (value : Bytes) : Bytes :=
  let token := value.map fun ch => if isSafe ch then ch else 0x2D
  if token = [] then utf8 "digest" else token

/-- `directory / name`, where the name is not absolute. -/
def join (directory name : Bytes) : Bytes :=
  match directory.getLast? with
  | none => name
  | some b => if b = 0x2F then directory ++ name else directory ++ utf8 "/" ++ name

/-- The file of a digest. -/
def digestFile (config : Config) (digest : DigestReadyMessage) : Bytes :=
  join config.outputDir (utf8 "digest-" ++ toFileNameToken digest.digestId ++ utf8 ".md")

/-- The file of the latest digest. -/
def latestFile (config : Config) : Bytes := join config.outputDir (utf8 "latest.md")

/-- `NotifierService::HandleDigestReady`: what it returns, and the files afterwards, with what
the operations of the two writes do. -/
def handleDigestReady (n : Nlohmann) (config : Config) (first second : WriteCalls)
    (payload : Bytes) (files : Files) : Ack × Files :=
  match n.decode DigestReadyMessage.codec payload with
  | none => (.kReject, files)
  | some digest =>
    let markdown := renderDigestMarkdown digest
    match writeFileAtomically first (digestFile config digest) markdown files with
    | (false, files) => (.kRequeue, files)
    | (true, files) =>
      match writeFileAtomically second (latestFile config) markdown files with
      | (false, files) => (.kRequeue, files)
      | (true, files) => (.kAck, files)

/-- A payload that does not decode is rejected, and no file is touched. -/
theorem handleDigestReady_of_decode_eq_none {n : Nlohmann} {payload : Bytes}
    (h : n.decode DigestReadyMessage.codec payload = none) (config : Config)
    (first second : WriteCalls) (files : Files) :
    handleDigestReady n config first second payload files = (.kReject, files) := by
  unfold handleDigestReady
  rw [h]

/-- A payload that decodes is not rejected. -/
theorem handleDigestReady_ne_kReject {n : Nlohmann} {payload : Bytes} {digest : DigestReadyMessage}
    (h : n.decode DigestReadyMessage.codec payload = some digest) (config : Config)
    (first second : WriteCalls) (files : Files) :
    (handleDigestReady n config first second payload files).1 ≠ .kReject := by
  unfold handleDigestReady
  rw [h]
  dsimp only
  generalize writeFileAtomically first _ _ files = result
  obtain ⟨ok, files'⟩ := result
  cases ok with
  | false => simp
  | true =>
    dsimp only
    generalize writeFileAtomically second _ _ files' = result
    obtain ⟨ok, files''⟩ := result
    cases ok <;> simp

end Notifier
end HabrDigest
