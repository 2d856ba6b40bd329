import HabrDigest.Pipeline.Newsroom

/-!
# What a subscriber makes of its queue

The notifier and the web service are alike in this: each consumes a queue of its own from a broker
that they share.  `HandedInTurn` is what the results about them ask of the broker: it hands the
digests of a queue out in order, and one only when no other is unsettled in its books, in which an
old connection of the subscriber may still be.  `Attends` says that the consumer of one of the two
queues is in order (`Broker.InOrder`), whatever happens to the other one.  `Attends.receives` is
about a delivery, of either of them, and `Attends.after` about every other event; what remains for
a subscriber is to say what it does with a digest.
-/

namespace HabrDigest
namespace Pipeline

open Messaging

/-- The link of a subscriber. -/
def Newsroom.link {ι : Type} (s : Newsroom ι) : Subscriber → Option ℕ
  | .digestNotifier => s.notifier
  | .digestWeb => s.web

theorem Newsroom.link_eq {ι : Type} {s t : Newsroom ι} (hnotifier : t.notifier = s.notifier)
    (hweb : t.web = s.web) : t.link = s.link := by
  funext subscriber
  cases subscriber
  · exact hnotifier
  · exact hweb

/-- Who handles a delivery in an event. -/
def NewsEvent.receiver {ι : Type} : NewsEvent ι → Option Subscriber
  | .notifierReceives _ _ _ => some .digestNotifier
  | .webReceives _ => some .digestWeb
  | _ => none

/-- The broker hands out the digests of a queue in order, and one only when no other one is
unsettled, on whatever link. -/
def HandedInTurn {ι : Type} (queue : Subscriber) (m : Move (Newsroom ι) (NewsEvent ι)) : Prop :=
  match m.event with
  | .delivers link position => m.pre.broker.InTurn queue link position
  | _ => True

instance {ι : Type} (queue : Subscriber) (m : Move (Newsroom ι) (NewsEvent ι)) :
    Decidable (HandedInTurn queue m) := by
  unfold HandedInTurn
  split <;> infer_instance

/-- The books balance, each subscriber has a link of its own queue, and what one of them has made of
its digests is `v`. -/
structure Attends {ι V : Type} (C : Consumption Bytes V) (start : V) (queue : Subscriber)
    (s : Newsroom ι) (v : V) : Prop where
  books : s.broker.Balanced
  own : ∀ subscriber link, s.link subscriber = some link →
    s.broker.sources[link]? = some subscriber
  order : s.broker.InOrder C start queue (s.link queue) v

namespace Attends

variable {ι V : Type} {C : Consumption Bytes V} {start v : V} {queue : Subscriber}
  {s : Newsroom ι} {P : Press}

theorem empty (C : Consumption Bytes V) (start : V) (queue : Subscriber) :
    Attends C start queue ({} : Newsroom ι) start where
  books := .empty
  own subscriber _ h := by cases subscriber <;> exact absurd h (by simp [Newsroom.link])
  order := by cases queue <;> exact .empty _ _ _

/-- What happens to the broker by itself. -/
theorem of_broker (h : Attends C start queue s v) {b : Broker Subscriber Bytes}
    (hsources : b.sources = s.broker.sources) (hbooks : b.Balanced)
    (horder : b.InOrder C start queue (s.link queue) v) :
    Attends C start queue { s with broker := b } v :=
  ⟨hbooks, fun subscriber link hlink => hsources ▸ h.own subscriber link hlink, horder⟩

/-- A subscriber gives up its link. -/
theorem unlink (h : Attends C start queue s v) {t : Newsroom ι} (hbroker : t.broker = s.broker)
    (hlink : ∀ subscriber, t.link subscriber = s.link subscriber ∨ t.link subscriber = none) :
    Attends C start queue t v := by
  refine ⟨hbroker ▸ h.books, fun subscriber link hl => ?_, ?_⟩
  · rcases hlink subscriber with heq | hnone
    · exact hbroker ▸ h.own subscriber link (heq ▸ hl)
    · exact absurd (hnone.symm.trans hl) (by simp)
  · rw [hbroker]
    rcases hlink queue with heq | hnone
    · exact heq ▸ h.order
    · exact hnone ▸ h.order.unlink

/-- A subscriber opens a connection. -/
theorem connect (h : Attends C start queue s v) (subscriber : Subscriber) {t : Newsroom ι}
    (hbroker : t.broker = s.broker.connect subscriber)
    (hlink : t.link = Function.update s.link subscriber (some s.broker.links.length)) :
    Attends C start queue t v := by
  have hlength : s.broker.sources.length = s.broker.links.length := List.length_map _
  refine ⟨hbroker ▸ h.books.connect _, fun other link hl => ?_, ?_⟩
  · rw [hbroker, Broker.sources_connect]
    by_cases hother : other = subscriber
    · subst hother
      rw [hlink, Function.update_self] at hl
      obtain rfl := Option.some.inj hl
      rw [← hlength, List.getElem?_concat_length]
    · rw [hlink, Function.update_of_ne hother] at hl
      have hown := h.own other link hl
      rw [List.getElem?_append_left (List.getElem?_eq_some_iff.mp hown).1, hown]
  · rw [hbroker, hlink]
    by_cases hqueue : queue = subscriber
    · subst hqueue
      rw [Function.update_self]
      exact (h.order.connect queue).2 rfl
    · rw [Function.update_of_ne hqueue]
      exact (h.order.connect subscriber).1

/-- **A subscriber handles a delivery.**  What it does with the digest has to be an attempt, if it is
the one that attends to the queue. -/
theorem receives (h : Attends C start queue s v) {subscriber : Subscriber} {link tag : ℕ}
    {payload : Bytes} {broker : Broker Subscriber Bytes}
    (hreceive : receiveFrom (s.link subscriber) s.broker = some (link, tag, payload, broker))
    {how : Settlement} {through : ℕ} {t : Newsroom ι}
    (hbroker : t.broker = broker.send link (Broker.answer [] tag how) through)
    (hlink : t.link = s.link) {w : V}
    (hattempt : subscriber = queue → C.Attempt payload v how w)
    (hother : subscriber ≠ queue → w = v) : Attends C start queue t w := by
  obtain ⟨hcurrent, hdelivery⟩ := receiveFrom_eq_some hreceive
  refine ⟨hbroker ▸ h.books.answer hdelivery [] _ through, fun other l hl => ?_, ?_⟩
  · rw [hbroker, Broker.sources_send, Broker.sources_receive hdelivery]
    exact h.own other l (hlink ▸ hl)
  · rw [hbroker, hlink]
    by_cases hqueue : subscriber = queue
    · subst hqueue
      exact h.order.answer hcurrent hdelivery (hattempt rfl) [] through
    · rw [hother hqueue]
      refine h.order.answer_other hdelivery ?_ _ through
      rw [h.own subscriber link hcurrent]
      simpa using hqueue

variable [DecidableEq ι]

/-- **Nothing else disturbs it.** -/
theorem after (h : Attends C start queue s v) (e : NewsEvent ι) {post : Newsroom ι}
    (hturn : HandedInTurn queue ⟨s, e, post⟩) (hreceiver : e.receiver ≠ some queue) :
    Attends C start queue (s.after P e) v := by
  have hsame : ∀ {t : Newsroom ι}, t.broker = s.broker → t.notifier = s.notifier →
      t.web = s.web → Attends C start queue t v := fun hbroker hnotifier hweb =>
    h.unlink hbroker fun subscriber => Or.inl (congrFun (Newsroom.link_eq hnotifier hweb) subscriber)
  cases e with
  | pipeline e => exact hsame rfl rfl rfl
  | ticks c publishes => exact hsame rfl rfl rfl
  | loses => exact hsame rfl rfl rfl
  | binds other => exact hsame rfl rfl rfl
  | notifierDies =>
    refine h.unlink rfl fun subscriber => ?_
    cases subscriber
    · exact Or.inr rfl
    · exact Or.inl rfl
  | webDies =>
    refine h.unlink rfl fun subscriber => ?_
    cases subscriber
    · exact Or.inl rfl
    · exact Or.inr rfl
  | exchanges =>
    unfold Newsroom.after
    dsimp only
    split
    · exact h
    · rename_i payload rest _
      refine ⟨h.books.fanOut _ _, fun subscriber link hlink => ?_, h.order.fanOut h.books _ _⟩
      rw [Broker.sources_fanOut]
      exact h.own subscriber link hlink
  | connects subscriber =>
    cases subscriber with
    | digestNotifier =>
      refine h.connect .digestNotifier rfl (funext fun other => ?_)
      cases other <;> rfl
    | digestWeb =>
      refine h.connect .digestWeb rfl (funext fun other => ?_)
      cases other <;> rfl
  | delivers link position =>
    exact h.of_broker (Broker.sources_deliver link position _) (h.books.deliver link position)
      (h.order.deliver h.books hturn)
  | processes link =>
    exact h.of_broker (Broker.sources_process link _) (h.books.process link)
      (h.order.process h.books link)
  | drops link =>
    exact h.of_broker (Broker.sources_drop link _) (h.books.drop link) (h.order.drop link)
  | severs link =>
    exact h.of_broker (Broker.sources_sever link _) (h.books.sever link) (h.order.sever link)
  | notifierReceives first second through =>
    unfold Newsroom.after
    dsimp only
    split
    · exact h
    · rename_i link tag payload broker hreceive
      have hqueue : Subscriber.digestNotifier ≠ queue := fun heq => hreceiver (heq ▸ rfl)
      have hreceive : receiveFrom (s.link .digestNotifier) s.broker =
          some (link, tag, payload, broker) := hreceive
      exact h.receives hreceive (by rfl) (by exact Newsroom.link_eq rfl rfl)
        (fun heq => absurd heq hqueue) fun _ => rfl
  | webReceives through =>
    unfold Newsroom.after
    dsimp only
    split
    · exact h
    · rename_i link tag payload broker hreceive
      have hqueue : Subscriber.digestWeb ≠ queue := fun heq => hreceiver (heq ▸ rfl)
      have hreceive : receiveFrom (s.link .digestWeb) s.broker =
          some (link, tag, payload, broker) := hreceive
      exact h.receives hreceive (by rfl) (by exact Newsroom.link_eq rfl rfl)
        (fun heq => absurd heq hqueue) fun _ => rfl

end Attends
end Pipeline
end HabrDigest
