import HabrDigest.Pipeline.Redelivery
import HabrDigest.Pipeline.Subscribers
import HabrDigest.Web.HttpRequest
import Mathlib.Data.List.DropRight

/-!
# What the web service serves

Two things are asked of the page that readers open.

It is there.  `answered_of_reachable` says that every request, whatever its path and whatever has
happened, is answered as `Answers` says: `HandleHttpRequest` throws only where the digest cannot be
dumped, and every digest of the history can be, since it was decoded.

And it is up to date.  Its history is what it has taken in since it was started, newest first and as
far as there is room (`digests_of_run`).  A digest may wait in the queue while the service is down,
and it may be delivered again, so this is not what came to the queue in that time.  But where the
digests are handed out in order and one at a time, `shown_in_order` says that it is a stretch of
what came, up to the newest that was handled and without a gap, each digest once or more; and when
everything that came is settled, the digest in front is the newest one, unless the service has taken
in none since it was started.
-/

namespace HabrDigest
namespace Pipeline

open Messaging Web

variable {ι : Type} [DecidableEq ι] {P : Press} {F : Set RawArticlesMessage}

/-! ## Every request is answered -/

/-- **Every request is answered**, in every state of the five services, and what is shown was
printed from pages that were fetched. -/
theorem answered_of_reachable (n : IndentingNlohmann) (hn : n.toNlohmann = P.setting.nlohmann)
    {s : Newsroom ι} (h : (P.system F ι).Reachable s) (negatedMin : Int64) (connected : Bool)
    (rawPath : Option Bytes) :
    ∃ reply, handleHttpRequest n negatedMin connected s.digests rawPath = some reply ∧
      Answers P.setting.nlohmann negatedMin s.digests (requestPath rawPath) reply ∧
      ∀ d ∈ s.digests, Printed P F d := by
  have hprinted := (sourced_of_reachable h).digests
  obtain ⟨reply, hreply, hanswers⟩ := exists_handleHttpRequest n negatedMin connected
    (fun d hd => (hprinted d hd).text) (fun d hd => (hprinted d hd).finite) rawPath
  exact ⟨reply, hreply, hn ▸ hanswers, hprinted⟩

/-! ## The history is up to date -/

/-- Digests in front of a history that is cut off. -/
theorem take_append_take {α : Type} (n : ℕ) (xs ys : List α) :
    (xs ++ ys.take n).take n = (xs ++ ys).take n := by
  rw [List.take_append, List.take_append, List.take_take, Nat.min_eq_left (Nat.sub_le _ _)]

/-- The digest that the web service takes in at an event. -/
def takenAt {ι : Type} (P : Press) (s : Newsroom ι) : NewsEvent ι → Option DigestReadyMessage
  | .webReceives _ =>
    (receiveFrom s.web s.broker).bind fun delivery =>
      P.setting.nlohmann.decode DigestReadyMessage.codec delivery.2.2.1
  | _ => none

/-- The digests that it takes in along a run, in order. -/
def taken {ι : Type} (P : Press) (tr : List (Move (Newsroom ι) (NewsEvent ι))) :
    List DigestReadyMessage :=
  tr.filterMap fun m => takenAt P m.pre m.event

/-- The web service is started again. -/
def NewsEvent.startsWeb {ι : Type} : NewsEvent ι → Bool
  | .webDies => true
  | _ => false

/-- The moves of a run since it was started last. -/
def sinceStarted {ι : Type} (tr : List (Move (Newsroom ι) (NewsEvent ι))) :
    List (Move (Newsroom ι) (NewsEvent ι)) :=
  tr.rtakeWhile fun m => !m.event.startsWeb

omit [DecidableEq ι] in
theorem taken_concat (tr : List (Move (Newsroom ι) (NewsEvent ι)))
    (m : Move (Newsroom ι) (NewsEvent ι)) :
    taken P (tr ++ [m]) = taken P tr ++ (takenAt P m.pre m.event).toList := by
  rw [taken, List.filterMap_append, ← taken]
  refine congrArg (taken P tr ++ ·) ?_
  cases h : takenAt P m.pre m.event <;> simp [h]

/-- A digest that is taken in goes to the front. -/
theorem digests_of_takenAt {s : Newsroom ι} {e : NewsEvent ι} {d : DigestReadyMessage}
    (h : takenAt P s e = some d) :
    (s.after P e).digests = (d :: s.digests).take P.web.historySize.toNat := by
  cases e with
  | webReceives through =>
    obtain ⟨⟨link, tag, payload, broker⟩, hreceive, hdecode⟩ := Option.bind_eq_some_iff.mp h
    have hdigests : (s.after P (.webReceives through)).digests =
        (handleDigestReady P.setting.nlohmann P.web payload s.digests).2 := by
      unfold Newsroom.after
      dsimp only
      rw [hreceive]
    rw [hdigests, digests_handleDigestReady ⟨P.setting.nlohmann, P.web⟩]
    dsimp only at hdecode ⊢
    rw [hdecode]
  | _ => exact absurd h (by simp [takenAt])

/-- Nothing else changes the history, but for a restart. -/
theorem digests_of_takenAt_eq_none {s : Newsroom ι} {e : NewsEvent ι} (h : takenAt P s e = none)
    (hstarts : e.startsWeb = false) : (s.after P e).digests = s.digests := by
  cases e with
  | webReceives through =>
    unfold Newsroom.after
    dsimp only
    split
    · rfl
    · rename_i link tag payload broker hreceive
      have hdecode : P.setting.nlohmann.decode DigestReadyMessage.codec payload = none :=
        Option.bind_eq_none_iff.mp h _ hreceive
      show (handleDigestReady P.setting.nlohmann P.web payload s.digests).2 = _
      rw [digests_handleDigestReady ⟨P.setting.nlohmann, P.web⟩]
      dsimp only
      rw [hdecode]
  | webDies => exact absurd hstarts (by simp [NewsEvent.startsWeb])
  | exchanges | notifierReceives =>
    unfold Newsroom.after
    dsimp only
    split <;> rfl
  | connects subscriber => cases subscriber <;> rfl
  | _ => rfl

/-- **The history is what was taken in** since the service was started, newest first, as far as
there is room. -/
theorem digests_of_run {tr : List (Move (Newsroom ι) (NewsEvent ι))} {s : Newsroom ι}
    (hrun : (P.system F ι).Run tr s) :
    s.digests = (taken P (sinceStarted tr)).reverse.take P.web.historySize.toNat := by
  induction hrun with
  | start hinit =>
    obtain rfl := hinit
    simp [sinceStarted, taken]
  | @snoc tr s t e _ hstep ih =>
    obtain ⟨-, rfl⟩ := hstep
    unfold sinceStarted
    cases hstarts : e.startsWeb with
    | true =>
      obtain rfl : e = .webDies := by
        cases e with
        | webDies => rfl
        | _ => exact absurd hstarts Bool.false_ne_true
      rw [List.rtakeWhile_concat_neg _ _ _ (by simp [NewsEvent.startsWeb])]
      simp [Newsroom.after, taken]
    | false =>
      rw [List.rtakeWhile_concat_pos _ _ _ (by simp [hstarts]), taken_concat, List.reverse_append]
      cases htaken : takenAt P s e with
      | none =>
        rw [digests_of_takenAt_eq_none htaken hstarts, ih]
        rfl
      | some d =>
        rw [digests_of_takenAt htaken, ih]
        exact take_append_take _ [d] _

/-- The digests of its queue have made a log, as far as the web service has handled them. -/
abbrev Logs {ι : Type} (P : Press) (s : Newsroom ι) (log : List DigestReadyMessage) : Prop :=
  Attends (.logging (P.setting.nlohmann.decode DigestReadyMessage.codec)) [] .digestWeb s log

/-- **The web service logs its queue**: an event adds what is taken in. -/
theorem Logs.after {s : Newsroom ι} {log : List DigestReadyMessage} (h : Logs P s log)
    (e : NewsEvent ι) {post : Newsroom ι} (hturn : HandedInTurn .digestWeb ⟨s, e, post⟩) :
    Logs P (s.after P e) (log ++ (takenAt P s e).toList) := by
  by_cases hreceiver : e.receiver = some .digestWeb
  · cases e with
    | webReceives through =>
      unfold Newsroom.after takenAt
      dsimp only
      cases hreceive : receiveFrom s.web s.broker with
      | none =>
        rw [Option.bind_none, Option.toList_none, List.append_nil]
        exact h
      | some delivery =>
        obtain ⟨link, tag, payload, broker⟩ := delivery
        have hreceive : receiveFrom (s.link .digestWeb) s.broker =
            some (link, tag, payload, broker) := hreceive
        exact h.receives hreceive (by rfl) (by exact Newsroom.link_eq rfl rfl)
          (fun _ => Consumption.attempt_logging _ payload log _) fun hne => absurd rfl hne
    | _ => exact absurd hreceiver (by simp [NewsEvent.receiver])
  · have hnone : takenAt P s e = none := by
      cases e with
      | webReceives through => exact absurd rfl hreceiver
      | _ => rfl
    rw [hnone, Option.toList_none, List.append_nil]
    exact Attends.after h e hturn hreceiver

/-- So does a run. -/
theorem logs_taken {tr : List (Move (Newsroom ι) (NewsEvent ι))} {s : Newsroom ι}
    (hrun : (P.system F ι).Run tr s) (hturn : ∀ m ∈ tr, HandedInTurn .digestWeb m) :
    Logs P s (taken P tr) := by
  induction hrun with
  | start hinit =>
    obtain rfl := hinit
    exact .empty _ _ _
  | @snoc tr s t e _ hstep ih =>
    obtain ⟨-, rfl⟩ := hstep
    obtain ⟨hold, hlast⟩ := List.forall_mem_append.mp hturn
    rw [taken_concat]
    exact (ih hold).after e (hlast _ (List.mem_singleton_self _))

omit [DecidableEq ι] in
/-- When everything that came is gone, the newest digest is the one that was taken in last. -/
theorem Logs.getLast? {s : Newsroom ι} {log : List DigestReadyMessage} (h : Logs P s log)
    (hall : s.broker.removedFrom .digestWeb = s.broker.acceptedIn .digestWeb) :
    log.getLast? = ((s.broker.acceptedIn .digestWeb).filterMap
      (P.setting.nlohmann.decode DigestReadyMessage.codec)).getLast? := by
  obtain ⟨payloads, hgone, hpublished, -, hrepeated⟩ := h.order.repeated
  have hpayloads : payloads = s.broker.acceptedIn .digestWeb :=
    hpublished.eq_of_length_le (hall ▸ hgone).length_le
  rw [← hpayloads]
  exact hrepeated.getLast?

omit [DecidableEq ι] in
/-- What is taken in since the last start is the end of what is taken in. -/
theorem taken_sinceStarted_suffix (tr : List (Move (Newsroom ι) (NewsEvent ι))) :
    taken P (sinceStarted tr) <:+ taken P tr :=
  (List.rtakeWhile_suffix _ tr).filterMap _

/-- What is in front is what was taken in last, if anything was since the last start. -/
theorem head?_digests {tr : List (Move (Newsroom ι) (NewsEvent ι))} {s : Newsroom ι}
    (hrun : (P.system F ι).Run tr s) (hsize : 0 < P.web.historySize.toNat)
    (hsince : taken P (sinceStarted tr) ≠ []) : s.digests.head? = (taken P tr).getLast? := by
  obtain ⟨front, hfront⟩ := taken_sinceStarted_suffix (P := P) tr
  rw [digests_of_run hrun, List.head?_take, if_neg (Nat.ne_of_gt hsize), List.head?_reverse,
    ← hfront, List.getLast?_append_of_ne_nil _ hsince]

omit [DecidableEq ι] in
/-- A service that was never started again has shown everything that it has taken in. -/
theorem sinceStarted_eq_self {tr : List (Move (Newsroom ι) (NewsEvent ι))}
    (hnever : ∀ m ∈ tr, m.event ≠ .webDies) : sinceStarted tr = tr := by
  refine List.rtakeWhile_eq_self_iff.mpr fun m hm => ?_
  have hm := hnever m hm
  cases hevent : m.event with
  | webDies => exact absurd hevent hm
  | _ => rfl

/-- These payloads of the web service's queue were handled: those that are gone, and at most the one
behind them.  Each that is a digest was taken in, once or more and in order; of these, the stretch
was taken in since the service was started, and that is what is shown. -/
structure ShownUpTo (P : Press) (tr : List (Move (Newsroom ι) (NewsEvent ι))) (s : Newsroom ι)
    (payloads : List Bytes) (stretch : List DigestReadyMessage) : Prop where
  gone : s.broker.removedFrom .digestWeb <+: payloads
  published : payloads <+: s.broker.acceptedIn .digestWeb
  next : payloads.length ≤ (s.broker.removedFrom .digestWeb).length + 1
  handled : Repeated (payloads.filterMap (P.setting.nlohmann.decode DigestReadyMessage.codec))
    (taken P tr)
  newest : stretch <:+ payloads.filterMap (P.setting.nlohmann.decode DigestReadyMessage.codec)
  since : Repeated stretch (taken P (sinceStarted tr))
  shown : s.digests = (taken P (sinceStarted tr)).reverse.take P.web.historySize.toNat

/-- **What is shown is the end of what came**, newest first, whatever is delivered again and however
often the connection dies: the stretch that the service has handled since it was started, which is
all of it if it was never started again.  And when all that came is gone, the newest digest is in
front, unless none was handled since the service was started. -/
theorem shown_in_order (hsize : 0 < P.web.historySize.toNat)
    {tr : List (Move (Newsroom ι) (NewsEvent ι))} {s : Newsroom ι}
    (hrun : (P.system F ι).Run tr s) (hturn : ∀ m ∈ tr, HandedInTurn .digestWeb m) :
    (∃ payloads stretch, ShownUpTo P tr s payloads stretch ∧
      ((∀ m ∈ tr, m.event ≠ .webDies) → stretch =
        payloads.filterMap (P.setting.nlohmann.decode DigestReadyMessage.codec))) ∧
    (s.broker.removedFrom .digestWeb = s.broker.acceptedIn .digestWeb →
      taken P (sinceStarted tr) ≠ [] →
        s.digests.head? = ((s.broker.acceptedIn .digestWeb).filterMap
          (P.setting.nlohmann.decode DigestReadyMessage.codec)).getLast?) := by
  have hlogs := logs_taken hrun hturn
  have hshown := digests_of_run hrun
  obtain ⟨payloads, hgone, hpublished, hnext, hrepeated⟩ := hlogs.order.repeated
  refine ⟨⟨payloads, ?_⟩, fun hall hsince =>
    (head?_digests hrun hsize hsince).trans (hlogs.getLast? hall)⟩
  by_cases hnever : ∀ m ∈ tr, m.event ≠ .webDies
  · exact ⟨_, ⟨hgone, hpublished, hnext, hrepeated, List.suffix_rfl,
      (sinceStarted_eq_self hnever).symm ▸ hrepeated, hshown⟩, fun _ => rfl⟩
  · obtain ⟨stretch, hstretch, hsince⟩ := hrepeated.of_suffix (taken_sinceStarted_suffix tr)
    exact ⟨stretch, ⟨hgone, hpublished, hnext, hrepeated, hstretch, hsince, hshown⟩,
      fun h => absurd h hnever⟩

/-! ## A digest that is read -/

/-- The acknowledgement of the web service gets through as well. -/
def pageSettled : List (NewsEvent Unit) := pageRead ++ [.processes 0]

theorem run_pageSettled : (smallPress.system onePage Unit).Run
    (TransitionSystem.moves (Newsroom.after smallPress) {} (pagePublished ++ pageSettled))
    ((pagePublished ++ pageSettled).foldl (Newsroom.after smallPress) {}) := by
  refine run_pagePublished (.of_forall (fun e he s => ?_) _)
  simp only [pageSettled, pageRead, List.mem_append, List.mem_cons, List.not_mem_nil,
    or_false] at he
  rcases he with (rfl | rfl | rfl | rfl | rfl) | rfl <;> exact ⟨trivial, trivial⟩

/-- A reader asks for the digest. -/
theorem answered_of_reachable_pageSettled :
    ∃ reply, handleHttpRequest .reference (-1) true
        ((pagePublished ++ pageSettled).foldl (Newsroom.after smallPress) {}).digests
        (some (utf8 "/api/digest")) = some reply ∧
      Answers smallPress.setting.nlohmann (-1)
        ((pagePublished ++ pageSettled).foldl (Newsroom.after smallPress) {}).digests
        (utf8 "/api/digest") reply ∧
      ∀ d ∈ ((pagePublished ++ pageSettled).foldl (Newsroom.after smallPress) {}).digests,
        Printed smallPress onePage d :=
  answered_of_reachable .reference rfl run_pageSettled.reachable (-1) true
    (some (utf8 "/api/digest"))

/-- The acknowledgement of the web service is lost with the process, and the digest, which came
before the service is started again, is handled once more. -/
def readAgain : List (NewsEvent Unit) :=
  [.binds .digestWeb, .exchanges, .connects .digestWeb, .delivers 0 0, .webReceives 0, .webDies,
    .drops 0, .connects .digestWeb, .delivers 1 0, .webReceives 1, .processes 1]

theorem run_readAgain : (smallPress.system onePage Unit).Run
    (TransitionSystem.moves (Newsroom.after smallPress) {} (pagePublished ++ readAgain))
    ((pagePublished ++ readAgain).foldl (Newsroom.after smallPress) {}) := by
  refine run_pagePublished (.of_forall (fun e he s => ?_) _)
  simp only [readAgain, List.mem_cons, List.not_mem_nil, or_false] at he
  rcases he with rfl | rfl | rfl | rfl | rfl | rfl | rfl | rfl | rfl | rfl | rfl <;>
    exact ⟨trivial, trivial⟩

/-- It is taken in twice, and shown once. -/
theorem shown_in_order_readAgain :
    let tr := TransitionSystem.moves (Newsroom.after smallPress) {} (pagePublished ++ readAgain)
    let s := (pagePublished ++ readAgain).foldl (Newsroom.after smallPress) {}
    (taken smallPress tr).length = 2 ∧ s.digests.length = 1 ∧
    (∃ payloads stretch, ShownUpTo smallPress tr s payloads stretch) ∧
    s.digests.head? = ((s.broker.acceptedIn .digestWeb).filterMap
      (smallPress.setting.nlohmann.decode DigestReadyMessage.codec)).getLast? := by
  obtain ⟨⟨payloads, stretch, hshown, -⟩, hfront⟩ :=
    shown_in_order (by decide) run_readAgain (by decide +kernel)
  exact ⟨by decide +kernel, by decide +kernel, ⟨payloads, stretch, hshown⟩,
    hfront (by decide +kernel) (by decide +kernel)⟩

end Pipeline
end HabrDigest
