import HabrDigest.Pipeline.Delivery
import HabrDigest.Web.WebService
import Mathlib.Data.List.Dedup

/-!
# Redelivered digests

The way of a digest from `digest_web` to the history of the web page.  The service handles a
delivery and then acknowledges it; a connection that dies in between takes the acknowledgement
with it, and the broker delivers the digest once more.  `HandleDigestReady` puts into the
history whatever comes.  The other consumers do not mind: the store replaces the rows of an
article, and the notifier writes the file of a digest again.

The broker is the one of `Lib.Broker`, with one consumer at a prefetch of one: it delivers the
front of the queue, and only when nothing is unsettled (`SiteEvent.Enabled`).  When the service
connects, and what the connections do, is up to the events.  `handled` is a log that nobody
keeps, of the digests that were ever accepted.

The history should hold the newest of the distinct ones (`KeepsHistory`).  `keepsHistory_iff`
says when it does: a digest must not be handled twice, unless there is room for one only and
it is there already.
-/

namespace HabrDigest
namespace Pipeline

open Messaging

/-- What the web service is set up with. -/
structure SiteSetting where
  nlohmann : Nlohmann
  config : Web.Config

/-- The web service with its queue. -/
structure Site where
  broker : Broker Unit Bytes := {}
  /-- The link of the connection. -/
  link : Option ℕ := none
  /-- `digests_`, the newest first. -/
  digests : List DigestReadyMessage := []
  /-- Every digest that was accepted, as often as it was, the newest first. -/
  handled : List DigestReadyMessage := []
  deriving Inhabited

/-- What can happen. -/
inductive SiteEvent where
  /-- A message is published. -/
  | arrives (payload : Bytes)
  /-- The service opens a connection. -/
  | connects
  /-- The broker delivers the front of the queue. -/
  | delivers (link : ℕ)
  /-- The service handles its next delivery, and so many frames of the answer get through. -/
  | receives (through : ℕ)
  /-- The broker processes the next frame of a link. -/
  | processes (link : ℕ)
  /-- The broker drops a link. -/
  | drops (link : ℕ)
  /-- A link takes no more frames of its client. -/
  | severs (link : ℕ)
  deriving DecidableEq, Repr

namespace Site

/-- The next delivery: its link, the tag, the payload, and the broker without it. -/
def receive (s : Site) : Option (ℕ × ℕ × Bytes × Broker Unit Bytes) :=
  s.link.bind fun l => (s.broker.receive l).map fun delivery => (l, delivery)

/-- The site after an event. -/
def after (S : SiteSetting) (s : Site) : SiteEvent → Site
  | .arrives payload => { s with broker := s.broker.arrive () payload }
  | .connects =>
    { s with broker := s.broker.connect (), link := some s.broker.links.length }
  | .delivers link => { s with broker := s.broker.deliver link 0 }
  | .receives through =>
    match s.receive with
    | none => s
    | some (link, tag, payload, broker) =>
      let (decision, digests) :=
        Web.handleDigestReady S.nlohmann S.config payload s.digests
      { s with
        broker := broker.send link (Broker.answer [] tag (settlement decision)) through
        digests := digests
        handled := (S.nlohmann.decode DigestReadyMessage.codec payload).toList ++ s.handled }
  | .processes link => { s with broker := s.broker.process link }
  | .drops link => { s with broker := s.broker.drop link }
  | .severs link => { s with broker := s.broker.sever link }

/-- When it can happen.  A digest that is published has an id of its own; and the broker has one
unsettled delivery at a time, so that one that comes back is delivered before any later
message. -/
def Enabled (S : SiteSetting) (s : Site) : SiteEvent → Prop
  | .arrives payload =>
    ∀ d ∈ S.nlohmann.decode DigestReadyMessage.codec payload, ∀ m ∈ s.broker.accepted,
      ∀ d' ∈ S.nlohmann.decode DigestReadyMessage.codec m.2, d'.digestId ≠ d.digestId
  | .delivers _ => ∀ l ∈ s.broker.links, l.unacked = []
  | _ => True

instance (S : SiteSetting) (s : Site) (e : SiteEvent) : Decidable (s.Enabled S e) := by
  unfold Enabled
  cases e <;> infer_instance

end Site

/-- The site as a transition system. -/
def SiteSetting.system (S : SiteSetting) : TransitionSystem Site SiteEvent where
  init s := s = {}
  step s e t := s.Enabled S e ∧ t = s.after S e

/-! ## What the history should be -/

/-- **The history survives redelivery**: it holds the newest of the distinct digests, each once,
in the order in which they came first.  In the log the newest is in front, so the first delivery
of a digest is the last in the log, which is the one that `dedup` leaves. -/
def KeepsHistory (S : SiteSetting) (s : Site) : Prop :=
  s.digests = s.handled.dedup.take S.config.historySize.toNat

/-- The digest that the service handles next, if it is one. -/
def nextDigest (S : SiteSetting) (s : Site) : Option DigestReadyMessage :=
  s.receive.bind fun delivery => S.nlohmann.decode DigestReadyMessage.codec delivery.2.2.1

/-- A digest that is handled was not handled before, or it is the one that the history has room
for. -/
def HandlesFresh (S : SiteSetting) (m : Move Site SiteEvent) : Prop :=
  match m.event with
  | .receives _ =>
    ∀ d ∈ nextDigest S m.pre,
      d ∉ m.pre.handled ∨ S.config.historySize.toNat = 1 ∧ m.pre.digests = [d]
  | _ => True

instance (S : SiteSetting) (m : Move Site SiteEvent) : Decidable (HandlesFresh S m) := by
  unfold HandlesFresh
  split <;> infer_instance

/-! ## One delivery -/

/-- **A symbol in front of a history** keeps it one exactly when it is new, or when it is all that
the history has room for. -/
theorem take_cons_eq_take_dedup_iff {α : Type*} [DecidableEq α] {h : ℕ} (hh : 1 ≤ h) (d : α)
    (log : List α) :
    (d :: log.dedup.take h).take h = (d :: log).dedup.take h ↔
      d ∉ log ∨ h = 1 ∧ log.dedup.take h = [d] := by
  obtain ⟨k, rfl⟩ := Nat.exists_eq_add_of_le' hh
  have htake : (d :: log.dedup.take (k + 1)).take (k + 1) = d :: log.dedup.take k := by
    rw [List.take_succ_cons, List.take_take, Nat.min_eq_left (Nat.le_succ k)]
  rw [htake]
  by_cases hd : d ∈ log
  · rw [List.dedup_cons_of_mem hd]
    have hmem : d ∈ log.dedup := List.mem_dedup.mpr hd
    have hnodup := log.nodup_dedup
    obtain ⟨a, rest, hdedup⟩ := List.exists_cons_of_ne_nil (List.ne_nil_of_mem hmem)
    rw [hdedup] at hnodup ⊢
    have ha : a ∉ rest := (List.nodup_cons.mp hnodup).1
    cases k with
    | zero => simp [hd, eq_comm]
    | succ k =>
      -- the older entries move down, so the newest one would have to be there twice
      have hne : ¬ d :: (a :: rest).take (k + 1) = (a :: rest).take (k + 1 + 1) := by
        rw [List.take_succ_cons, List.take_succ_cons, List.cons.injEq]
        rintro ⟨-, hrest⟩
        exact ha (List.mem_of_mem_take (hrest ▸ List.mem_cons_self ..))
      exact iff_of_false hne (by simp [hd])
  · rw [List.dedup_cons_of_notMem hd, List.take_succ_cons]
    simp [hd]

/-- The history after a delivery. -/
theorem digests_handleDigestReady (S : SiteSetting) (payload : Bytes)
    (digests : List DigestReadyMessage) :
    (Web.handleDigestReady S.nlohmann S.config payload digests).2 =
      match S.nlohmann.decode DigestReadyMessage.codec payload with
      | none => digests
      | some d => (d :: digests).take S.config.historySize.toNat := by
  unfold Web.handleDigestReady
  cases S.nlohmann.decode DigestReadyMessage.codec payload <;> rfl

/-- **A step keeps the history** exactly when what it handles is fresh. -/
theorem KeepsHistory.after_iff {S : SiteSetting} (hsize : 1 ≤ S.config.historySize.toNat)
    {s : Site} (h : KeepsHistory S s) (e : SiteEvent) {post : Site} :
    KeepsHistory S (s.after S e) ↔ HandlesFresh S ⟨s, e, post⟩ := by
  cases e with
  | receives through =>
    unfold HandlesFresh nextDigest Site.after
    dsimp only
    cases hreceive : s.receive with
    | none => simpa using h
    | some delivery =>
      obtain ⟨link, tag, payload, broker⟩ := delivery
      unfold KeepsHistory at h ⊢
      dsimp only [Option.bind_some]
      rw [digests_handleDigestReady]
      cases hdecode : S.nlohmann.decode DigestReadyMessage.codec payload with
      | none => simpa using h
      | some d =>
        rw [h]
        simpa using take_cons_eq_take_dedup_iff hsize d s.handled
  | _ => exact ⟨fun _ => trivial, fun _ => h⟩

/-! ## Whole runs -/

/-- **When the history survives redelivery.**  In a run, the history is right in every state
exactly when every digest that is handled is fresh; a malformed payload never changes it. -/
theorem keepsHistory_iff (S : SiteSetting) (hsize : 1 ≤ S.config.historySize.toNat) :
    (∀ {tr : List (Move Site SiteEvent)} {s : Site}, S.system.Run tr s →
      ((∀ m ∈ tr, KeepsHistory S m.post) ↔ ∀ m ∈ tr, HandlesFresh S m)) ∧
    ∀ payload digests, S.nlohmann.decode DigestReadyMessage.codec payload = none →
      Web.handleDigestReady S.nlohmann S.config payload digests = (.kReject, digests) := by
  refine ⟨fun hrun => hrun.forall_post_iff ?_ ?_, fun payload digests hdecode => ?_⟩
  · rintro s rfl
    exact List.take_nil.symm
  · rintro s e t h ⟨-, rfl⟩
    exact h.after_iff hsize e
  · rw [Web.handleDigestReady, hdecode]

/-! ## A digest that is handled twice -/

/-- The history of a site that shows the last two digests. -/
def twoDigests : SiteSetting := ⟨.reference, { historySize := 2 }⟩

/-- A digest as the store publishes it. -/
def digestPayload (id : String) : Bytes :=
  (Nlohmann.reference.encode DigestReadyMessage.codec { digestId := utf8 id }).getD []

/-- The acknowledgement of the second digest is lost with the connection, and the digest is
delivered once more. -/
def digestRedelivered : List SiteEvent :=
  [.arrives (digestPayload "a"), .arrives (digestPayload "b"), .connects, .delivers 0,
    .receives 1, .processes 0, .delivers 0, .receives 0, .drops 0, .connects, .delivers 1,
    .receives 1]

/-- Events that can happen make a run. -/
theorem run_moves (S : SiteSetting) {es : List SiteEvent}
    (henabled : TransitionSystem.EnabledAll (Site.Enabled S) (Site.after S) {} es) :
    S.system.Run (TransitionSystem.moves (Site.after S) {} es) (es.foldl (Site.after S) {}) := by
  have hstep : ∀ s e, s.Enabled S e → S.system.step s e (s.after S e) := fun _ _ he => ⟨he, rfl⟩
  have hstart : S.system.Run [] {} := .start rfl
  exact hstart.append_moves hstep es henabled

/-- The digest is there twice, and the one before it is gone. -/
theorem exists_run_digestRedelivered : ∃ tr s, twoDigests.system.Run tr s ∧
    s.digests.map (·.digestId) = [utf8 "b", utf8 "b"] ∧
    s.handled.dedup.map (·.digestId) = [utf8 "b", utf8 "a"] :=
  ⟨_, _, @run_moves twoDigests digestRedelivered (by decide +kernel), by decide +kernel,
    by decide +kernel⟩

/-- **A digest that is shown twice**, because its acknowledgement was lost. -/
theorem history_redelivered : ¬ ∀ (S : SiteSetting), 1 ≤ S.config.historySize.toNat →
    ∀ tr s, S.system.Run tr s → KeepsHistory S s := by
  intro h
  obtain ⟨tr, s, hrun, hdigests, hhandled⟩ := exists_run_digestRedelivered
  have hkeeps : s.digests = s.handled.dedup.take 2 := h twoDigests (by decide) tr s hrun
  have hids := congrArg (List.map (·.digestId)) hkeeps
  rw [hdigests, List.map_take, hhandled] at hids
  exact absurd hids (by decide)

/-- A site that shows the last digest only. -/
def oneDigest : SiteSetting := ⟨.reference, { historySize := 1 }⟩

/-- Where there is room for one digest only, the same events do no harm. -/
theorem keepsHistory_oneDigest :
    1 ≤ oneDigest.config.historySize.toNat ∧
    (∀ m ∈ TransitionSystem.moves (Site.after oneDigest) {} digestRedelivered,
      KeepsHistory oneDigest m.post) ∧
    Web.handleDigestReady oneDigest.nlohmann oneDigest.config (utf8 "digest") [] =
      (.kReject, []) := by
  have hsize : 1 ≤ oneDigest.config.historySize.toNat := by decide
  have hrun := run_moves oneDigest (by decide +kernel : TransitionSystem.EnabledAll
    (Site.Enabled oneDigest) (Site.after oneDigest) {} digestRedelivered)
  obtain ⟨hruns, hmalformed⟩ := keepsHistory_iff oneDigest hsize
  exact ⟨hsize, (hruns hrun).mpr (by decide +kernel), hmalformed _ _ (by decide +kernel)⟩

end Pipeline
end HabrDigest
