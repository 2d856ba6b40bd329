import HabrDigest.Lib.Accounts
import Mathlib.Algebra.Order.BigOperators.Group.List
import Mathlib.Data.Multiset.OrderedMonoid

/-!
# One consumer, one message at a time

A queue whose messages come in order and one at a time, to a consumer that may be given a message
more than once.  What the consumer does to its own state is a relation: `part p u v` if attempts
at the message `p` lead from `u` to `v`, and `full p u v` if one of them was complete.  An attempt
(`Attempt`) that settles its message for good has to be complete, and no attempt may undo a
complete one.  This is what is needed of a consumer to make delivering a message twice the same as
delivering it once.

`InOrder` is what holds all the time.  The messages that are gone, the one in hand and the queue
are together what was published, in that order; and the state of the consumer is what the messages
that are gone make of the first state, each taken once (`Once`), and then attempts at the message
behind them.  The settlement of that message may be under way on any link, also on one that the
consumer has given up since, and the message may sit in the inbox of a link that the broker has
dropped: `settles`, `inbox` and `alone` say that neither does harm.
-/

namespace HabrDigest

variable {κ π V : Type}

/-- How the messages of a queue change the state of their consumer. -/
structure Consumption (π V : Type) where
  part : π → V → V → Prop
  full : π → V → V → Prop
  refl : ∀ p u, part p u u
  part_of_full : ∀ {p u v}, full p u v → part p u v

namespace Consumption

/-- An attempt at a message, which ends with a settlement. -/
structure Attempt (C : Consumption π V) (p : π) (v : V) (how : Settlement) (w : V) : Prop where
  part : ∀ u, C.part p u v → C.part p u w
  full : how ≠ .requeue → ∀ u, C.part p u v → C.full p u w
  stable : ∀ u, C.full p u v → C.full p u w

/-- Every message is taken once, in order. -/
inductive Once (C : Consumption π V) (start : V) : List π → V → Prop
  | nil : Once C start [] start
  | concat {ps : List π} {p : π} {u v : V} (hprev : Once C start ps u) (hfull : C.full p u v) :
      Once C start (ps ++ [p]) v

end Consumption

namespace Link

theorem mem_settling {l : Link κ π} {tag : ℕ} :
    tag ∈ l.settling ↔ ∃ how, .settle tag how ∈ l.frames := by
  rw [settling, List.mem_filterMap]
  constructor
  · rintro ⟨frame, hframe, heq⟩
    cases frame with
    | publish queue payload => simp at heq
    | settle t how =>
      obtain rfl : t = tag := by simpa using heq
      exact ⟨how, hframe⟩
  · rintro ⟨how, hframe⟩
    exact ⟨_, hframe, rfl⟩

/-- Every tag that is not settled has a payload. -/
theorem Orderly.length_unsettled {l : Link κ π} (h : l.Orderly) :
    l.unsettled.length = l.unacked.length := by
  have hall : ∀ tags : List ℕ, (∀ tag ∈ tags, tag < l.deliveries.length) →
      (tags.filterMap fun tag => l.deliveries[tag]?).length = tags.length := by
    intro tags htags
    induction tags with
    | nil => rfl
    | cons tag tags ih =>
      obtain ⟨htag, htags⟩ := List.forall_mem_cons.mp htags
      rw [List.filterMap_cons_some (List.getElem?_eq_getElem htag), List.length_cons,
        List.length_cons, ih htags]
  exact hall l.unacked h.lt

/-- Where nothing is outstanding, nothing is being settled. -/
theorem Orderly.not_settle_mem {l : Link κ π} (h : l.Orderly) (hopened : l.opened = true)
    (hunsettled : l.unsettled = []) (tag : ℕ) (how : Settlement) :
    .settle tag how ∉ l.frames := by
  intro hframe
  have hmem := h.outstanding hopened tag
    (List.mem_append_left _ (mem_settling.mpr ⟨how, hframe⟩))
  have hlength := h.length_unsettled
  rw [hunsettled, List.length_nil] at hlength
  exact absurd (List.length_pos_of_mem hmem) (by omega)

end Link

namespace Broker

variable [DecidableEq κ]

/-- The first message of a queue that is not gone. -/
def next (queue : κ) (b : Broker κ π) : Option π :=
  (b.acceptedIn queue)[(b.removedFrom queue).length]?

/-- What was published is what is gone, the message in hand, if there is one, and the queue. -/
def Sequence (queue : κ) (b : Broker κ π) : Prop :=
  ∃ hand : List π, hand.length ≤ 1 ∧ b.outstanding queue = hand ∧
    b.acceptedIn queue = b.removedFrom queue ++ (hand ++ b.queues queue)

theorem next_of_sequence {queue : κ} {b : Broker κ π} {hand : List π}
    (h : b.acceptedIn queue = b.removedFrom queue ++ (hand ++ b.queues queue)) :
    b.next queue = (hand ++ b.queues queue).head? := by
  rw [next, h, List.getElem?_append_right (le_refl _), Nat.sub_self, List.head?_eq_getElem?]

/-- What a link holds is in hand. -/
theorem unsettled_le_outstanding {queue : κ} {b : Broker κ π} {l : Link κ π} (hl : l ∈ b.links)
    (hsource : l.source = queue) : (l.unsettled : Multiset π) ≤ b.outstanding queue := by
  have hheld : held queue l = (l.unsettled : Multiset π) := if_pos hsource
  rw [← hheld]
  exact List.single_le_sum (fun _ _ => Multiset.zero_le _) _ (List.mem_map_of_mem hl)

/-- Where nothing is in hand, nothing of the queue is being settled. -/
theorem Balanced.not_settle_mem {queue : κ} {b : Broker κ π} (h : b.Balanced)
    (hnone : b.outstanding queue = 0) {l : Link κ π} (hl : l ∈ b.links)
    (hsource : l.source = queue) (hopened : l.opened = true) (tag : ℕ) (how : Settlement) :
    .settle tag how ∉ l.frames := by
  refine (h.orderly l hl).not_settle_mem hopened ?_ tag how
  have hle := unsettled_le_outstanding hl hsource
  rw [hnone, Multiset.le_zero, Multiset.coe_eq_zero] at hle
  exact hle

/-! ## The invariant -/

/-- The consumer of a queue has the state `v`, and `current` is its link.  The messages that are
gone are taken once each, and the next one may have been attempted. -/
structure InOrder (C : Consumption π V) (start : V) (queue : κ) (b : Broker κ π)
    (current : Option ℕ) (v : V) : Prop where
  sequence : b.Sequence queue
  own : ∀ i, current = some i → b.sources[i]? = some queue
  progress : ∃ u, C.Once start (b.removedFrom queue) u ∧
    (b.next queue = none → v = u) ∧ (∀ p, b.next queue = some p → C.part p u v) ∧
    -- a settlement for good is under way only behind a complete attempt
    ∀ l ∈ b.links, l.source = queue → l.opened = true → ∀ tag how, .settle tag how ∈ l.frames →
      how ≠ .requeue → ∀ p, b.next queue = some p → C.full p u v
  /-- What the consumer receives is the next message. -/
  inbox : ∀ i l, current = some i → b.links[i]? = some l → ∀ tag ∈ l.inbox,
    l.deliveries[tag]? = b.next queue
  /-- While it can receive something, nothing is being settled on its other links. -/
  alone : ∀ i l, current = some i → b.links[i]? = some l → l.inbox ≠ [] →
    ∀ j l', b.links[j]? = some l' → j ≠ i → l'.source = queue → l'.opened = true →
      ∀ tag how, .settle tag how ∉ l'.frames

variable {C : Consumption π V} {start v : V} {queue : κ} {b : Broker κ π} {current : Option ℕ}

theorem InOrder.empty (C : Consumption π V) (start : V) (queue : κ) :
    InOrder C start queue ({} : Broker κ π) none start where
  sequence := ⟨[], Nat.zero_le _, rfl, rfl⟩
  own _ h := absurd h (by simp)
  progress := ⟨start, .nil, fun _ => rfl, fun _ h => absurd h (by simp [next, acceptedIn, ofQueue]),
    fun _ h => absurd h List.not_mem_nil⟩
  inbox _ _ h := absurd h (by simp)
  alone _ _ h := absurd h (by simp)

/-- The consumer has lost its link, or has died. -/
theorem InOrder.unlink (h : InOrder C start queue b current v) :
    InOrder C start queue b none v :=
  ⟨h.sequence, fun _ hi => absurd hi (by simp), h.progress, fun _ _ hi => absurd hi (by simp),
    fun _ _ hi => absurd hi (by simp)⟩

/-- **What the messages make of the state**: the messages that are gone are taken once each, and
perhaps the next one as well, or a part of it. -/
theorem InOrder.once (h : InOrder C start queue b current v) :
    ∃ u, C.Once start (b.removedFrom queue) u ∧
      b.removedFrom queue <+: b.acceptedIn queue ∧
      (v = u ∨ ∃ p, b.removedFrom queue ++ [p] <+: b.acceptedIn queue ∧ C.part p u v) := by
  obtain ⟨u, honce, hnone, hsome, -⟩ := h.progress
  obtain ⟨hand, -, -, hsequence⟩ := h.sequence
  refine ⟨u, honce, ⟨_, hsequence.symm⟩, ?_⟩
  cases hnext : b.next queue with
  | none => exact Or.inl (hnone hnext)
  | some p =>
    refine Or.inr ⟨p, ?_, hsome p hnext⟩
    rw [next_of_sequence hsequence] at hnext
    obtain ⟨rest, hrest⟩ := List.head?_eq_some_iff.mp hnext
    exact ⟨rest, by rw [hsequence, hrest]; simp⟩

/-- **When nothing waits, all of it is taken**: every message is gone, once each and in order. -/
theorem InOrder.finished (h : InOrder C start queue b current v) (hempty : b.queues queue = [])
    (hidle : b.outstanding queue = 0) :
    b.removedFrom queue = b.acceptedIn queue ∧ C.Once start (b.acceptedIn queue) v := by
  obtain ⟨hand, -, hhand, hsequence⟩ := h.sequence
  obtain ⟨u, honce, hnone, -⟩ := h.progress
  obtain rfl : hand = [] := (Multiset.coe_eq_zero hand).mp (hhand.symm.trans hidle)
  have hall : b.removedFrom queue = b.acceptedIn queue := by
    rw [hsequence, hempty, List.append_nil, List.append_nil]
  obtain rfl : v = u := hnone (by rw [next_of_sequence hsequence, hempty]; rfl)
  exact ⟨hall, hall ▸ honce⟩

/-! ## Other queues -/

/-- Only the links and what concerns the queue matter. -/
theorem InOrder.of_eq (h : InOrder C start queue b current v) {b' : Broker κ π}
    (hlinks : b'.links = b.links) (hqueue : b'.queues queue = b.queues queue)
    (haccepted : b'.acceptedIn queue = b.acceptedIn queue)
    (hremoved : b'.removedFrom queue = b.removedFrom queue) :
    InOrder C start queue b' current v := by
  have hnext : b'.next queue = b.next queue := by rw [next, next, haccepted, hremoved]
  obtain ⟨hand, hlength, hhand, hsequence⟩ := h.sequence
  refine ⟨⟨hand, hlength, ?_, ?_⟩, fun i hi => ?_, ?_, fun i l hi hl => ?_, fun i l hi hl => ?_⟩
  · rw [outstanding, hlinks]
    exact hhand
  · rw [haccepted, hremoved, hqueue, hsequence]
  · rw [sources, hlinks]
    exact h.own i hi
  · rw [hnext, hremoved, hlinks]
    exact h.progress
  · rw [hnext]
    exact h.inbox i l hi (hlinks ▸ hl)
  · rw [hlinks]
    exact h.alone i l hi (hlinks ▸ hl)

omit [DecidableEq κ] in
/-- What changes in the links when one of them does. -/
theorem getElem?_setLink {i j : ℕ} {l l' k : Link κ π} (hl : b.links[i]? = some l)
    (hk : (b.setLink i l').links[j]? = some k) :
    j = i ∧ k = l' ∨ j ≠ i ∧ b.links[j]? = some k := by
  by_cases hji : j = i
  · subst hji
    rw [Broker.setLink, List.getElem?_set_self (List.getElem?_eq_some_iff.mp hl).1] at hk
    exact Or.inl ⟨rfl, (Option.some.inj hk).symm⟩
  · rw [Broker.setLink, List.getElem?_set_ne (Ne.symm hji)] at hk
    exact Or.inr ⟨hji, hk⟩

/-- A link changes: one of the queue holds what it held, and has nothing new to receive or to
settle. -/
theorem InOrder.setLink (h : InOrder C start queue b current v) {i : ℕ} {l l' : Link κ π}
    (hl : b.links[i]? = some l) (hsource : l'.source = l.source)
    (hsame : l.source = queue → l'.unsettled = l.unsettled ∧
      (l'.opened = true → l.opened = true ∧
        ∀ tag how, .settle tag how ∈ l'.frames → .settle tag how ∈ l.frames) ∧
      ∀ tag ∈ l'.inbox, tag ∈ l.inbox ∧ l'.deliveries[tag]? = l.deliveries[tag]?) :
    InOrder C start queue (b.setLink i l') current v := by
  obtain ⟨hand, hlength, hhand, hsequence⟩ := h.sequence
  obtain ⟨u, honce, hnone, hsome, hsettles⟩ := h.progress
  have hmem := List.mem_of_getElem? hl
  refine ⟨⟨hand, hlength, ?_, hsequence⟩, fun j hj => ?_, ⟨u, honce, hnone, hsome, ?_⟩, ?_, ?_⟩
  · have hset := outstanding_setLink hl l' queue
    have hheld : held queue l' = held queue l := by
      rw [held, held, hsource]
      by_cases hq : l.source = queue
      · rw [(hsame hq).1]
      · rw [if_neg hq, if_neg hq]
    rw [hheld, add_left_inj] at hset
    rw [hset, hhand]
  · rw [sources_setLink hl hsource]
    exact h.own j hj
  · intro k hk hkq hopened tag how hframe hhow p hp
    rcases List.mem_or_eq_of_mem_set hk with hold | rfl
    · exact hsettles k hold hkq hopened tag how hframe hhow p hp
    · obtain ⟨-, hframes, -⟩ := hsame (hsource ▸ hkq)
      obtain ⟨hwas, hframes⟩ := hframes hopened
      exact hsettles l hmem (hsource ▸ hkq) hwas tag how (hframes tag how hframe) hhow p hp
  · intro j k hj hk tag htag
    rcases getElem?_setLink hl hk with ⟨rfl, rfl⟩ | ⟨-, hold⟩
    · obtain ⟨-, -, hinbox⟩ := hsame (by
        have hown := h.own j hj
        rwa [sources, List.getElem?_map, hl, Option.map_some, Option.some.injEq] at hown)
      obtain ⟨hold, hdelivery⟩ := hinbox tag htag
      exact hdelivery.trans (h.inbox j l hj hl tag hold)
    · exact h.inbox j k hj hold tag htag
  · intro j k hj hk hne m k' hk' hmj hkq hopened tag how
    -- the consumer could receive something before
    have hbefore : ∃ k₀, b.links[j]? = some k₀ ∧ k₀.inbox ≠ [] := by
      rcases getElem?_setLink hl hk with ⟨rfl, rfl⟩ | ⟨-, hold⟩
      · obtain ⟨-, -, hinbox⟩ := hsame (by
          have hown := h.own j hj
          rwa [sources, List.getElem?_map, hl, Option.map_some, Option.some.injEq] at hown)
        obtain ⟨tag, htag⟩ := List.exists_mem_of_ne_nil _ hne
        exact ⟨l, hl, List.ne_nil_of_mem (hinbox tag htag).1⟩
      · exact ⟨k, hold, hne⟩
    obtain ⟨k₀, hk₀, hne₀⟩ := hbefore
    rcases getElem?_setLink hl hk' with ⟨rfl, rfl⟩ | ⟨-, hold⟩
    · obtain ⟨-, hframes, -⟩ := hsame (hsource ▸ hkq)
      obtain ⟨hwas, hframes⟩ := hframes hopened
      exact fun hframe =>
        h.alone j k₀ hj hk₀ hne₀ m l hl hmj (hsource ▸ hkq) hwas tag how (hframes tag how hframe)
    · exact h.alone j k₀ hj hk₀ hne₀ m k' hold hmj hkq hopened tag how

theorem InOrder.sever (h : InOrder C start queue b current v) (i : ℕ) :
    InOrder C start queue (b.sever i) current v := by
  unfold Broker.sever
  split
  · exact h
  · rename_i l hl
    exact h.setLink hl rfl fun _ => ⟨rfl, fun hopened => ⟨hopened, fun _ _ hf => hf⟩,
      fun _ htag => ⟨htag, rfl⟩⟩

/-- A consumer connects, of this queue or of another one; its link is the last one. -/
theorem InOrder.connect (h : InOrder C start queue b current v) (source : κ) :
    InOrder C start queue (b.connect source) current v ∧
    (source = queue → InOrder C start queue (b.connect source) (some b.links.length) v) := by
  obtain ⟨hand, hlength, hhand, hsequence⟩ := h.sequence
  obtain ⟨u, honce, hnone, hsome, hsettles⟩ := h.progress
  have hsources : b.sources.length = b.links.length := List.length_map _
  have hget {j : ℕ} {k : Link κ π} (hk : (b.connect source).links[j]? = some k) :
      b.links[j]? = some k ∨ j = b.links.length ∧ k = { source := source } := by
    rw [Broker.connect] at hk
    by_cases hj : j < b.links.length
    · rw [List.getElem?_append_left hj] at hk
      exact Or.inl hk
    · rw [List.getElem?_append_right (Nat.le_of_not_lt hj)] at hk
      obtain ⟨hlt, hk⟩ := List.getElem?_eq_some_iff.mp hk
      rw [List.length_singleton] at hlt
      exact Or.inr ⟨by omega, by rw [← hk]; simp⟩
  have hshared : (b.connect source).Sequence queue ∧
      ∃ u, C.Once start ((b.connect source).removedFrom queue) u ∧
        ((b.connect source).next queue = none → v = u) ∧
        (∀ p, (b.connect source).next queue = some p → C.part p u v) ∧
        ∀ l ∈ (b.connect source).links, l.source = queue → l.opened = true →
          ∀ tag how, .settle tag how ∈ l.frames → how ≠ .requeue →
            ∀ p, (b.connect source).next queue = some p → C.full p u v := by
    refine ⟨⟨hand, hlength, ?_, hsequence⟩, u, honce, hnone, hsome, fun l hl => ?_⟩
    · have hnew : held queue ({ source := source } : Link κ π) = 0 := by simp [held, Link.unsettled]
      rw [outstanding, Broker.connect, List.map_append, List.sum_append, List.map_singleton,
        List.sum_singleton, hnew, add_zero]
      exact hhand
    · rcases List.mem_append.mp hl with hold | hnew
      · exact hsettles l hold
      · rw [List.mem_singleton.mp hnew]
        exact fun _ _ _ _ hframe => absurd hframe List.not_mem_nil
  -- what a consumer can receive, it could receive before
  have hnoFrames {j : ℕ} {k : Link κ π} (hk : (b.connect source).links[j]? = some k)
      {tag : ℕ} {how : Settlement} (hframe : .settle tag how ∈ k.frames) :
      b.links[j]? = some k := by
    rcases hget hk with hold | ⟨-, rfl⟩
    · exact hold
    · exact absurd hframe List.not_mem_nil
  have hnoInbox {j : ℕ} {k : Link κ π} (hk : (b.connect source).links[j]? = some k)
      (hne : k.inbox ≠ []) : b.links[j]? = some k := by
    rcases hget hk with hold | ⟨-, rfl⟩
    · exact hold
    · exact absurd rfl hne
  refine ⟨⟨hshared.1, fun i hi => ?_, hshared.2, fun i l hi hl tag htag => ?_,
    fun i l hi hl hne j l' hl' hji hq hopened tag how hframe => ?_⟩, fun hq => ?_⟩
  · have hown := h.own i hi
    rw [sources_connect, List.getElem?_append_left (List.getElem?_eq_some_iff.mp hown).1, hown]
  · exact h.inbox i l hi (hnoInbox hl (List.ne_nil_of_mem htag)) tag htag
  · exact h.alone i l hi (hnoInbox hl hne) hne j l' (hnoFrames hl' hframe) hji hq hopened tag how
      hframe
  · have hlast {l : Link κ π} (hl : (b.connect source).links[b.links.length]? = some l) :
        l.inbox = [] := by
      rw [Broker.connect, List.getElem?_concat_length] at hl
      rw [← Option.some.inj hl]
    refine ⟨hshared.1, fun i hi => ?_, hshared.2, fun i l hi hl tag htag => ?_,
      fun i l hi hl hne => ?_⟩
    · obtain rfl := Option.some.inj hi
      rw [sources_connect, ← hsources, List.getElem?_concat_length, hq]
    · obtain rfl := Option.some.inj hi
      exact absurd htag (by rw [hlast hl]; exact List.not_mem_nil)
    · obtain rfl := Option.some.inj hi
      exact absurd (hlast hl) hne

/-! ## What the broker does -/

/-- Where there is no next message, nothing is in hand and nothing is queued. -/
theorem Sequence.of_next_eq_none (h : b.Sequence queue) (hnext : b.next queue = none) :
    b.outstanding queue = 0 ∧ b.acceptedIn queue = b.removedFrom queue := by
  obtain ⟨hand, -, hhand, hsequence⟩ := h
  rw [next_of_sequence hsequence, List.head?_eq_none_iff, List.append_eq_nil_iff] at hnext
  obtain ⟨rfl, hqueue⟩ := hnext
  rw [hqueue, List.nil_append, List.append_nil] at hsequence
  exact ⟨hhand, hsequence⟩

theorem InOrder.arrive (h : InOrder C start queue b current v) (hbooks : b.Balanced) (q : κ)
    (payload : π) : InOrder C start queue (b.arrive q payload) current v := by
  by_cases hq : q = queue
  · subst hq
    obtain ⟨hand, hlength, hhand, hsequence⟩ := h.sequence
    obtain ⟨u, honce, hnone, hsome, hsettles⟩ := h.progress
    have haccepted : (b.arrive q payload).acceptedIn q = b.acceptedIn q ++ [payload] := by
      rw [acceptedIn, Broker.arrive, ofQueue_concat, if_pos rfl]
      rfl
    have hqueues : (b.arrive q payload).queues q = b.queues q ++ [payload] :=
      Function.update_self ..
    have hsequence' : (b.arrive q payload).acceptedIn q =
        (b.arrive q payload).removedFrom q ++ (hand ++ (b.arrive q payload).queues q) := by
      rw [haccepted, hqueues, hsequence]
      simp only [List.append_assoc]
      rfl
    have hnext : (b.arrive q payload).next q = (b.next q).or (some payload) := by
      rw [next_of_sequence hsequence', next_of_sequence hsequence, hqueues, ← List.append_assoc,
        List.head?_append]
      rfl
    refine ⟨⟨hand, hlength, hhand, hsequence'⟩, h.own, ⟨u, honce, fun hnil => ?_, fun p hp => ?_,
      fun l hl hlq hopened tag how hframe hhow p hp => ?_⟩, fun i l hi hl tag htag => ?_, h.alone⟩
    · rw [hnext] at hnil
      simp at hnil
    · cases hold : b.next q with
      | none =>
        rw [hnone hold]
        exact C.refl p u
      | some p' =>
        rw [hnext, hold, Option.some_or, Option.some.injEq] at hp
        exact hp ▸ hsome p' hold
    · cases hold : b.next q with
      | none =>
        have hempty := (h.sequence.of_next_eq_none hold).1
        exact absurd hframe (hbooks.not_settle_mem hempty hl hlq hopened tag how)
      | some p' =>
        rw [hnext, hold, Option.some_or, Option.some.injEq] at hp
        exact hp ▸ hsettles l hl hlq hopened tag how hframe hhow p' hold
    · have hdelivery := h.inbox i l hi hl tag htag
      have hknown := (hbooks.orderly l (List.mem_of_getElem? hl)).known tag
        (List.mem_append_right _ htag)
      rw [List.getElem?_eq_getElem hknown] at hdelivery
      rw [hnext, ← hdelivery, Option.some_or, List.getElem?_eq_getElem hknown]
  · refine h.of_eq rfl (Function.update_of_ne (Ne.symm hq) _ _) ?_ rfl
    rw [acceptedIn, Broker.arrive, ofQueue_concat, if_neg hq, List.append_nil]
    rfl

/-- A delivery to a consumer of the queue is of the first message, and only when no other one is
in hand. -/
def InTurn (queue : κ) (b : Broker κ π) (i k : ℕ) : Prop :=
  ∀ l ∈ b.links[i]?, l.source = queue →
    k = 0 ∧ ∀ l' ∈ b.links, l'.source = queue → l'.unacked = []

instance (queue : κ) (b : Broker κ π) (i k : ℕ) : Decidable (InTurn queue b i k) := by
  unfold InTurn
  infer_instance

/-- **The first message goes to a link**: it is the next one, as it was in the queue. -/
theorem InOrder.deliver (h : InOrder C start queue b current v) (hbooks : b.Balanced) {i k : ℕ}
    (hturn : b.InTurn queue i k) : InOrder C start queue (b.deliver i k) current v := by
  unfold Broker.deliver
  split
  · exact h
  rename_i l hl
  split
  swap
  · exact h
  rename_i payload hopened hpayload
  have hsource : (l.deliver payload).source = l.source := rfl
  by_cases hq : l.source = queue
  · obtain ⟨rfl, hidle⟩ := hturn l (Option.mem_def.mpr hl) hq
    subst hq
    obtain ⟨hand, hlength, hhand, hsequence⟩ := h.sequence
    obtain ⟨u, honce, hnone, hsome, hsettles⟩ := h.progress
    have hlink := hbooks.orderly l (List.mem_of_getElem? hl)
    -- nothing was in hand
    have hunsettled : ∀ l' ∈ b.links, l'.source = l.source → l'.unsettled = [] := by
      intro l' hl' hsource
      rw [Link.unsettled, hidle l' hl' hsource, List.filterMap_nil]
    have houtstanding : b.outstanding l.source = 0 := by
      refine List.sum_eq_zero fun x hx => ?_
      obtain ⟨l', hl', rfl⟩ := List.mem_map.mp hx
      unfold held
      split
      · rename_i hsource
        rw [hunsettled l' hl' hsource, Multiset.coe_nil]
      · rfl
    obtain rfl : hand = [] := by
      rw [houtstanding] at hhand
      exact (Multiset.coe_eq_zero hand).mp hhand.symm
    obtain ⟨rest, hqueue⟩ : ∃ rest, b.queues l.source = payload :: rest := by
      cases hb : b.queues l.source with
      | nil => simp [hb] at hpayload
      | cons p rest =>
        rw [hb, List.getElem?_cons_zero, Option.some.injEq] at hpayload
        exact ⟨rest, by rw [hpayload]⟩
    have hqueue' : Function.update b.queues l.source ((b.queues l.source).eraseIdx 0) l.source =
        rest := by rw [Function.update_self, hqueue, List.eraseIdx_cons_zero]
    have hset := outstanding_setLink hl (l.deliver payload) l.source
    have hdelivered : (l.deliver payload).unsettled = [payload] := by
      simp [Link.unsettled, Link.deliver, hidle l (List.mem_of_getElem? hl) rfl]
    rw [held, held, if_pos rfl, if_pos hsource, hunsettled l (List.mem_of_getElem? hl) rfl,
      hdelivered, Multiset.coe_nil, add_zero, houtstanding, zero_add] at hset
    refine ⟨⟨[payload], le_refl _, hset, ?_⟩, fun j hj => ?_, ⟨u, honce, hnone, hsome,
      fun l' hl' => ?_⟩, fun j l' hj hl' tag htag => ?_, fun j l' hj hl' _ m k hk _ hkq hkopen => ?_⟩
    · show b.acceptedIn l.source = b.removedFrom l.source ++ ([payload] ++
        Function.update b.queues l.source ((b.queues l.source).eraseIdx 0) l.source)
      rw [hqueue', hsequence, hqueue]
      rfl
    · show (b.setLink i (l.deliver payload)).sources[j]? = some l.source
      rw [sources_setLink hl hsource]
      exact h.own j hj
    · rcases List.mem_or_eq_of_mem_set hl' with hold | rfl
      · exact hsettles l' hold
      · exact hsettles l (List.mem_of_getElem? hl)
    · show l'.deliveries[tag]? = b.next l.source
      rcases getElem?_setLink hl hl' with ⟨rfl, rfl⟩ | ⟨-, hold⟩
      · rcases List.mem_append.mp htag with hold | hnew
        · rw [Link.deliver, List.getElem?_append_left
            (hlink.known tag (List.mem_append_right _ hold))]
          exact h.inbox j l hj hl tag hold
        · rw [List.mem_singleton.mp hnew, next_of_sequence hsequence, hqueue]
          simp [Link.deliver]
      · exact h.inbox j l' hj hold tag htag
    · -- nothing was outstanding, so nothing is being settled
      rcases getElem?_setLink hl hk with ⟨-, rfl⟩ | ⟨-, hold⟩
      · exact hlink.not_settle_mem hkopen (hunsettled l (List.mem_of_getElem? hl) rfl)
      · have hmem := List.mem_of_getElem? hold
        exact (hbooks.orderly k hmem).not_settle_mem hkopen (hunsettled k hmem hkq)
  · exact (h.setLink hl hsource fun heq => absurd heq hq).of_eq rfl
      (Function.update_of_ne (Ne.symm hq) _ _) rfl rfl

/-- **A link is dropped**: what it held is in front of the queue, where it was. -/
theorem InOrder.drop (h : InOrder C start queue b current v) (i : ℕ) :
    InOrder C start queue (b.drop i) current v := by
  unfold Broker.drop
  split
  · exact h
  rename_i l hl
  let l' : Link κ π := { l with opened := false, writable := false, unacked := [], frames := [] }
  have hsource : l'.source = l.source := rfl
  by_cases hq : l.source = queue
  · subst hq
    obtain ⟨hand, hlength, hhand, hsequence⟩ := h.sequence
    obtain ⟨u, honce, hnone, hsome, hsettles⟩ := h.progress
    have hset := outstanding_setLink hl l' l.source
    have hempty : held l.source l' = 0 := by simp [held, l', Link.unsettled]
    rw [hempty, add_zero, held, if_pos rfl, hhand] at hset
    -- the link held the message in hand, or nothing
    obtain ⟨left, hleft, hleftlength, hhand'⟩ : ∃ left : List π,
        (b.setLink i l').outstanding l.source = left ∧ left.length ≤ 1 ∧
          hand = l.unsettled ++ left := by
      cases hu : l.unsettled with
      | nil =>
        rw [hu, Multiset.coe_nil, add_zero] at hset
        exact ⟨hand, hset, hlength, rfl⟩
      | cons p rest =>
        have hcard := congrArg Multiset.card hset
        rw [Multiset.card_add, Multiset.coe_card, Multiset.coe_card, hu, List.length_cons] at hcard
        have hzero : (b.setLink i l').outstanding l.source = 0 :=
          Multiset.card_eq_zero.mp (by omega)
        obtain rfl : rest = [] := List.length_eq_zero_iff.mp (by omega)
        rw [hzero, zero_add, hu, Multiset.coe_singleton, eq_comm, Multiset.coe_eq_singleton] at hset
        exact ⟨[], hzero, Nat.zero_le _, hset⟩
    have hown : ∀ {j : ℕ} {k : Link κ π}, (b.setLink i l').links[j]? = some k →
        ∃ k₀, b.links[j]? = some k₀ ∧ k.inbox = k₀.inbox ∧ k.deliveries = k₀.deliveries := by
      intro j k hk
      rcases getElem?_setLink hl hk with ⟨rfl, rfl⟩ | ⟨-, hold⟩
      · exact ⟨l, hl, rfl, rfl⟩
      · exact ⟨k, hold, rfl, rfl⟩
    have hnoFrames : ∀ {j : ℕ} {k : Link κ π} {tag : ℕ} {how : Settlement},
        (b.setLink i l').links[j]? = some k → .settle tag how ∈ k.frames →
          b.links[j]? = some k := by
      intro j k tag how hk hframe
      rcases getElem?_setLink hl hk with ⟨-, rfl⟩ | ⟨-, hold⟩
      · exact absurd hframe List.not_mem_nil
      · exact hold
    refine ⟨⟨left, hleftlength, hleft, ?_⟩, fun j hj => ?_, ⟨u, honce, hnone, hsome,
      fun k hk hkq hopened tag how hframe => ?_⟩, fun j k hj hk tag htag => ?_,
      fun j k hj hk hne m k' hk' hmj hkq hopened tag how hframe => ?_⟩
    · show b.acceptedIn l.source = b.removedFrom l.source ++
        (left ++ Function.update b.queues l.source
          ((l.unacked.filterMap fun tag => l.deliveries[tag]?) ++ b.queues l.source) l.source)
      rw [Function.update_self, hsequence, hhand']
      cases hu : l.unsettled with
      | nil =>
        have hback : (l.unacked.filterMap fun tag => l.deliveries[tag]?) = [] := hu
        rw [hback]
        rfl
      | cons p rest =>
        have hback : (l.unacked.filterMap fun tag => l.deliveries[tag]?) = p :: rest := hu
        have hleft : left = [] := by
          rw [hhand', hu] at hlength
          simp at hlength
          exact hlength.2
        rw [hback, hleft]
        simp
    · show (b.setLink i l').sources[j]? = some l.source
      rw [sources_setLink hl hsource]
      exact h.own j hj
    · obtain ⟨j, hj⟩ := List.mem_iff_getElem?.mp hk
      exact hsettles k (List.mem_of_getElem? (hnoFrames hj hframe)) hkq hopened tag how hframe
    · obtain ⟨k₀, hk₀, hinbox, hdeliveries⟩ := hown hk
      rw [hdeliveries]
      exact h.inbox j k₀ hj hk₀ tag (hinbox ▸ htag)
    · obtain ⟨k₀, hk₀, hinbox, -⟩ := hown hk
      exact h.alone j k₀ hj hk₀ (hinbox ▸ hne) m k' (hnoFrames hk' hframe) hmj hkq hopened tag how
        hframe
  · exact (h.setLink hl hsource fun heq => absurd heq hq).of_eq rfl
      (Function.update_of_ne (Ne.symm hq) _ _) rfl rfl

/-- While a settlement of the message in hand is under way, the consumer has nothing to
receive. -/
theorem InOrder.inbox_eq_nil (h : InOrder C start queue b current v) (hbooks : b.Balanced)
    {i : ℕ} {l : Link κ π} (hl : b.links[i]? = some l) (hsource : l.source = queue)
    (hopened : l.opened = true) {tag : ℕ} {how : Settlement} (hframe : .settle tag how ∈ l.frames)
    {j : ℕ} {k : Link κ π} (hj : current = some j) (hk : b.links[j]? = some k) :
    k.inbox = [] := by
  by_contra hne
  by_cases hij : i = j
  · subst hij
    obtain rfl := Option.some.inj (hl.symm.trans hk)
    obtain ⟨hand, hlength, hhand, -⟩ := h.sequence
    have hlink := hbooks.orderly l (List.mem_of_getElem? hl)
    obtain ⟨tag', htag'⟩ := List.exists_mem_of_ne_nil _ hne
    -- both tags are outstanding, and only one is
    have hsettling := Link.mem_settling.mpr ⟨how, hframe⟩
    have hmem := hlink.outstanding hopened tag (List.mem_append_left _ hsettling)
    have hmem' := hlink.outstanding hopened tag' (List.mem_append_right _ htag')
    have hcard := Multiset.card_le_card
      (unsettled_le_outstanding (List.mem_of_getElem? hl) hsource)
    rw [hhand, Multiset.coe_card, Multiset.coe_card, hlink.length_unsettled] at hcard
    obtain ⟨only, honly⟩ := List.length_eq_one_iff.mp
      (Nat.le_antisymm (hcard.trans hlength) (List.length_pos_of_mem hmem))
    rw [honly, List.mem_singleton] at hmem hmem'
    have hdisjoint := List.disjoint_of_nodup_append hlink.once
    exact hdisjoint hsettling (hmem.trans hmem'.symm ▸ htag')
  · exact h.alone j k hj hk hne i l hl hij hsource hopened tag how hframe

/-- A delivery of a link is no longer outstanding, and its settlement is off the link. -/
def settledLink (l : Link κ π) (tag : ℕ) (rest : List (Frame κ π)) : Link κ π :=
  { l with frames := rest, unacked := l.unacked.erase tag }

/-- **The delivery that is settled was the one in hand**, and nothing is in hand without it. -/
theorem Sequence.settled (h : b.Sequence queue) {i tag : ℕ} {l : Link κ π} {payload : π}
    (hl : b.links[i]? = some l) (hq : l.source = queue) (htag : tag ∈ l.unacked)
    (hpayload : l.deliveries[tag]? = some payload) (rest : List (Frame κ π)) :
    (b.setLink i (settledLink l tag rest)).outstanding queue = 0 ∧
      b.acceptedIn queue = b.removedFrom queue ++ payload :: b.queues queue := by
  obtain ⟨hand, hlength, hhand, hsequence⟩ := h
  have hunsettled : (l.unsettled : Multiset π) =
      {payload} + ((settledLink l tag rest).unsettled : Multiset π) := by
    rw [Multiset.singleton_add, Multiset.cons_coe, Multiset.coe_eq_coe]
    have hperm := (List.perm_cons_erase htag).filterMap fun t => l.deliveries[t]?
    rwa [List.filterMap_cons_some hpayload] at hperm
  have hsource : (settledLink l tag rest).source = queue := hq
  have hset := outstanding_setLink hl (settledLink l tag rest) queue
  rw [held, held, if_pos hq, if_pos hsource, hunsettled, ← add_assoc, add_left_inj, hhand] at hset
  have hcard := congrArg Multiset.card hset
  rw [Multiset.card_add, Multiset.card_singleton, Multiset.coe_card] at hcard
  have hzero : (b.setLink i (settledLink l tag rest)).outstanding queue = 0 :=
    Multiset.card_eq_zero.mp (by omega)
  rw [hzero, zero_add, eq_comm, Multiset.coe_eq_singleton] at hset
  exact ⟨hzero, by rw [hsequence, hset]; rfl⟩

/-- Nothing of a queue is in hand, nothing is being settled, and its consumer has nothing to
receive. -/
structure Idle (queue : κ) (b : Broker κ π) (current : Option ℕ) : Prop where
  outstanding : b.outstanding queue = 0
  settles : ∀ l ∈ b.links, l.source = queue → l.opened = true → ∀ tag how,
    .settle tag how ∉ l.frames
  inbox : ∀ i l, current = some i → b.links[i]? = some l → l.inbox = []

/-- **A settlement leaves the queue idle**: no other one was under way. -/
theorem InOrder.idle_settled (h : InOrder C start queue b current v) (hbooks : b.Balanced)
    {i tag : ℕ} {l : Link κ π} {how : Settlement} {rest : List (Frame κ π)} {payload : π}
    (hl : b.links[i]? = some l) (hq : l.source = queue) (hopened : l.opened = true)
    (hframes : l.frames = .settle tag how :: rest) (htag : tag ∈ l.unacked)
    (hpayload : l.deliveries[tag]? = some payload) :
    Idle queue (b.setLink i (settledLink l tag rest)) current := by
  have hlink := hbooks.orderly l (List.mem_of_getElem? hl)
  have hframe : .settle tag how ∈ l.frames := by
    rw [hframes]
    exact List.mem_cons_self
  obtain ⟨hzero, -⟩ := h.sequence.settled hl hq htag hpayload rest
  have horderly := hbooks.orderly_setLink i (hlink.settled hframes)
  refine ⟨hzero, fun k hk hkq hkopen => ?_, fun j k hj hk => ?_⟩
  · refine (horderly k hk).not_settle_mem hkopen ?_
    have hle := unsettled_le_outstanding hk hkq
    rw [hzero, Multiset.le_zero, Multiset.coe_eq_zero] at hle
    exact hle
  · rcases getElem?_setLink hl hk with ⟨rfl, rfl⟩ | ⟨-, hold⟩
    · have hinbox : l.inbox = [] := h.inbox_eq_nil hbooks hl hq hopened hframe hj hl
      exact hinbox
    · exact h.inbox_eq_nil hbooks hl hq hopened hframe hj hold

/-- **An idle queue is in order**, if what is gone is taken once each, and the next one in part. -/
theorem InOrder.of_idle (hidle : Idle queue b current)
    (hown : ∀ i, current = some i → b.sources[i]? = some queue)
    (hsequence : b.acceptedIn queue = b.removedFrom queue ++ b.queues queue) {u : V}
    (honce : C.Once start (b.removedFrom queue) u) (hnone : b.next queue = none → v = u)
    (hsome : ∀ p, b.next queue = some p → C.part p u v) :
    InOrder C start queue b current v where
  sequence := ⟨[], Nat.zero_le _, hidle.outstanding, hsequence⟩
  own := hown
  progress := ⟨u, honce, hnone, hsome, fun l hl hq hopened tag how hframe =>
    absurd hframe (hidle.settles l hl hq hopened tag how)⟩
  inbox i l hi hl tag htag := by
    rw [hidle.inbox i l hi hl] at htag
    exact absurd htag List.not_mem_nil
  alone i l hi hl hne := absurd (hidle.inbox i l hi hl) hne

/-- **A settlement for good is behind a complete attempt.** -/
theorem InOrder.once_settled (h : InOrder C start queue b current v) {tag : ℕ} {l : Link κ π}
    {how : Settlement} {payload : π} (hl : l ∈ b.links) (hq : l.source = queue)
    (hopened : l.opened = true) (hframe : .settle tag how ∈ l.frames) (hhow : how ≠ .requeue)
    (hnext : b.next queue = some payload) : C.Once start (b.removedFrom queue ++ [payload]) v := by
  obtain ⟨u, honce, -, -, hsettles⟩ := h.progress
  exact honce.concat (hsettles l hl hq hopened tag how hframe hhow payload hnext)

/-- **The message in hand is settled**: it is gone, behind a complete attempt, or it is in front
of the queue again. -/
theorem InOrder.settled (h : InOrder C start queue b current v) (hbooks : b.Balanced)
    {i tag : ℕ} {l : Link κ π} {how : Settlement} {rest : List (Frame κ π)} {payload : π}
    (hl : b.links[i]? = some l) (hopened : l.opened = true)
    (hframes : l.frames = .settle tag how :: rest) (htag : tag ∈ l.unacked)
    (hpayload : l.deliveries[tag]? = some payload) :
    InOrder C start queue
      ((b.setLink i { l with frames := rest, unacked := l.unacked.erase tag }).settled l.source
        payload how) current v := by
  have hsource : (settledLink l tag rest).source = l.source := rfl
  by_cases hq : l.source = queue
  · have hidle := h.idle_settled hbooks hl hq hopened hframes htag hpayload
    obtain ⟨-, hsequence⟩ := h.sequence.settled hl hq htag hpayload rest
    subst hq
    have hnext : b.next l.source = some payload := by
      rw [next, hsequence, List.getElem?_append_right (le_refl _), Nat.sub_self]
      rfl
    have hown : ∀ j, current = some j →
        (b.setLink i (settledLink l tag rest)).sources[j]? = some l.source := by
      intro j hj
      rw [sources_setLink hl hsource]
      exact h.own j hj
    have hgone : ∀ {b' : Broker κ π}, b'.links = (b.setLink i (settledLink l tag rest)).links →
        b'.queues = b.queues → b'.accepted = b.accepted →
        b'.removed = b.removed ++ [(l.source, payload)] → how ≠ .requeue →
        InOrder C start l.source b' current v := by
      intro b' hlinks hqueues haccepted hremoved hhow
      have hframe : .settle tag how ∈ l.frames := by
        rw [hframes]
        exact List.mem_cons_self
      have hremoved : b'.removedFrom l.source = b.removedFrom l.source ++ [payload] := by
        rw [removedFrom, hremoved, ofQueue_concat, if_pos rfl]
        rfl
      have honce := h.once_settled (List.mem_of_getElem? hl) rfl hopened hframe hhow hnext
      refine .of_idle ⟨?_, hlinks ▸ hidle.settles, hlinks ▸ hidle.inbox⟩ ?_ ?_ (hremoved ▸ honce)
        (fun _ => rfl) fun p _ => C.refl p v
      · rw [outstanding, hlinks]
        exact hidle.outstanding
      · rw [sources, hlinks]
        exact hown
      · rw [hremoved, hqueues, acceptedIn, haccepted]
        exact hsequence.trans (by simp)
    cases how with
    | ack => exact hgone rfl rfl rfl rfl (by simp)
    | reject => exact hgone rfl rfl rfl rfl (by simp)
    | requeue =>
      obtain ⟨u, honce, hnone, hsome, -⟩ := h.progress
      refine .of_idle ⟨hidle.outstanding, hidle.settles, hidle.inbox⟩ hown ?_ honce hnone hsome
      show b.acceptedIn l.source = b.removedFrom l.source ++
        Function.update b.queues l.source (payload :: b.queues l.source) l.source
      rw [Function.update_self, hsequence]
  · have hother := h.setLink hl hsource fun heq => absurd heq hq
    cases how with
    | ack | reject =>
      refine hother.of_eq rfl rfl rfl ?_
      show ofQueue queue (b.removed ++ [(l.source, payload)]) = ofQueue queue b.removed
      rw [ofQueue_concat, if_neg hq, List.append_nil]
    | requeue => exact hother.of_eq rfl (Function.update_of_ne (Ne.symm hq) _ _) rfl rfl

/-- **Processing a frame keeps the order.** -/
theorem InOrder.process (h : InOrder C start queue b current v) (hbooks : b.Balanced) (i : ℕ) :
    InOrder C start queue (b.process i) current v := by
  unfold Broker.process
  split
  · exact h
  rename_i l hl
  have hlink := hbooks.orderly l (List.mem_of_getElem? hl)
  split
  · rename_i q payload rest _ hframes
    have hrest : Link.Orderly { l with frames := rest } := hlink.published hframes
    have hbooks' : (b.setLink i { l with frames := rest }).Balanced :=
      hbooks.setLink hl hrest rfl rfl
    have hset : InOrder C start queue (b.setLink i { l with frames := rest }) current v := by
      refine h.setLink hl rfl fun _ => ⟨rfl, fun hopened => ⟨hopened, fun tag how hframe => ?_⟩,
        fun _ htag => ⟨htag, rfl⟩⟩
      rw [hframes]
      exact List.mem_cons_of_mem _ hframe
    exact hset.arrive hbooks' q payload
  · rename_i tag how rest hopened hframes
    obtain ⟨htag, payload, hpayload⟩ := hlink.settles hopened hframes
    simp only [htag, decide_true, hpayload]
    exact h.settled hbooks hl hopened hframes htag hpayload
  · exact h

/-! ## What the consumer does -/

/-- An answer on a link of another queue does not matter. -/
theorem InOrder.answer_other (h : InOrder C start queue b current v) {i tag : ℕ} {payload : π}
    {b' : Broker κ π} (hreceive : b.receive i = some (tag, payload, b'))
    (hother : b.sources[i]? ≠ some queue) (frames : List (Frame κ π)) (through : ℕ) :
    InOrder C start queue (b'.send i frames through) current v := by
  obtain ⟨l, rest, hl, -, -, rfl⟩ := inbox_of_receive hreceive
  have hq : l.source ≠ queue := by
    intro heq
    rw [sources, List.getElem?_map, hl, Option.map_some, heq] at hother
    exact hother rfl
  have hset (l' : Link κ π) :
      (b.setLink i { l with inbox := rest }).setLink i l' = b.setLink i l' := by
    simp only [Broker.setLink, List.set_set]
  have hget : (b.setLink i { l with inbox := rest }).links[i]? = some { l with inbox := rest } := by
    rw [Broker.setLink, List.getElem?_set_self (List.getElem?_eq_some_iff.mp hl).1]
  simp only [send, hget]
  split
  · rw [hset]
    exact h.setLink hl rfl fun heq => absurd heq hq
  · exact h.setLink hl rfl fun heq => absurd heq hq

/-- What the consumer receives is the next message. -/
theorem InOrder.next_of_receive (h : InOrder C start queue b current v) {i tag : ℕ} {payload : π}
    {b' : Broker κ π} (hcurrent : current = some i)
    (hreceive : b.receive i = some (tag, payload, b')) : b.next queue = some payload := by
  obtain ⟨l, rest, hl, hinbox, hpayload, -⟩ := inbox_of_receive hreceive
  rw [← h.inbox i l hcurrent hl tag (hinbox ▸ List.mem_cons_self), hpayload]

/-- **The consumer attempts the next message and sends its answer**, of which so much gets
through. -/
theorem InOrder.answer (h : InOrder C start queue b current v) {i tag : ℕ} {payload : π}
    {b' : Broker κ π} (hcurrent : current = some i)
    (hreceive : b.receive i = some (tag, payload, b')) {how : Settlement} {w : V}
    (hattempt : C.Attempt payload v how w) (messages : List (κ × π)) (through : ℕ) :
    InOrder C start queue (b'.send i (Broker.answer messages tag how) through) current w := by
  have hnext := h.next_of_receive hcurrent hreceive
  obtain ⟨l, rest, hl, hinbox, hpayload, rfl⟩ := inbox_of_receive hreceive
  obtain ⟨u, honce, hnone, hsome, hsettles⟩ := h.progress
  have hq : l.source = queue := by
    have hown := h.own i hcurrent
    rwa [sources, List.getElem?_map, hl, Option.map_some, Option.some.injEq] at hown
  have hset (l' : Link κ π) :
      (b.setLink i { l with inbox := rest }).setLink i l' = b.setLink i l' := by
    simp only [Broker.setLink, List.set_set]
  have hget : (b.setLink i { l with inbox := rest }).links[i]? = some { l with inbox := rest } := by
    rw [Broker.setLink, List.getElem?_set_self (List.getElem?_eq_some_iff.mp hl).1]
  have hpart := hsome payload hnext
  -- what a link of the state after the attempt may settle
  have hframes : ∀ t w', .settle t w' ∈ Broker.answer messages tag how → w' = how := by
    intro t w' hframe
    rcases List.mem_append.mp hframe with hpublish | hsettle
    · obtain ⟨m, -, heq⟩ := List.mem_map.mp hpublish
      exact absurd heq (by simp)
    · exact (Frame.settle.inj (List.mem_singleton.mp hsettle)).2
  have hall : ∀ l' : Link κ π, l'.source = l.source → l'.unsettled = l.unsettled →
      l'.opened = l.opened → l'.inbox = rest → l'.deliveries = l.deliveries →
      (∀ frame ∈ l'.frames, frame ∈ l.frames ∨ frame ∈ Broker.answer messages tag how) →
      InOrder C start queue (b.setLink i l') current w := by
    intro l' hsource hunsettled hopened hinbox' hdeliveries hframes'
    obtain ⟨hand, hlength, hhand, hsequence⟩ := h.sequence
    have houtstanding := outstanding_setLink hl l' queue
    have hheld : held queue l' = held queue l := by rw [held, held, hsource, hunsettled]
    rw [hheld, add_left_inj] at houtstanding
    refine ⟨⟨hand, hlength, houtstanding.trans hhand, hsequence⟩, fun j hj => ?_,
      ⟨u, honce, fun hnil => ?_, fun p hp => ?_, ?_⟩, fun j k hj hk t ht => ?_,
      fun j k hj hk hne m k' hk' hmj hkq hkopen t w' => ?_⟩
    · rw [sources_setLink hl hsource]
      exact h.own j hj
    · have hnil : b.next queue = none := hnil
      rw [hnext] at hnil
      simp at hnil
    · obtain rfl := Option.some.inj (hnext.symm.trans hp)
      exact hattempt.part u hpart
    · intro k hk hkq hkopen t w' hframe hfinal p hp
      obtain rfl := Option.some.inj (hnext.symm.trans hp)
      rcases List.mem_or_eq_of_mem_set hk with hold | rfl
      · exact hattempt.stable u (hsettles k hold hkq hkopen t w' hframe hfinal _ hnext)
      · rcases hframes' _ hframe with hold | hnew
        · exact hattempt.stable u (hsettles l (List.mem_of_getElem? hl) hq (hopened ▸ hkopen) t w'
            hold hfinal _ hnext)
        · obtain rfl := hframes t w' hnew
          exact hattempt.full hfinal u hpart
    · rcases getElem?_setLink hl hk with ⟨rfl, rfl⟩ | ⟨-, hold⟩
      · rw [hdeliveries]
        exact h.inbox j l hj hl t (hinbox ▸ List.mem_cons_of_mem _ (hinbox' ▸ ht))
      · exact h.inbox j k hj hold t ht
    · obtain rfl : i = j := Option.some.inj (hcurrent.symm.trans hj)
      rcases getElem?_setLink hl hk' with ⟨rfl, -⟩ | ⟨-, hold⟩
      · exact absurd rfl hmj
      · exact h.alone i l hj hl (by rw [hinbox]; simp) m k' hold hmj hkq hkopen t w'
  simp only [send, hget]
  split
  · rw [hset]
    refine hall _ rfl rfl rfl rfl rfl fun frame hframe => ?_
    exact (List.mem_append.mp hframe).imp_right List.mem_of_mem_take
  · exact hall _ rfl rfl rfl rfl rfl fun frame hframe => Or.inl hframe

end Broker

/-! ## A consumer that keeps a log

The plainest consumer writes down whatever it is given.  In its log each message stands at least
once, and in order. -/

/-- Each symbol of a list once or more, in place. -/
inductive Repeated {α : Type} : List α → List α → Prop
  | nil : Repeated [] []
  | concat {xs ys : List α} (h : Repeated xs ys) (x : α) (k : ℕ) :
    Repeated (xs ++ [x]) (ys ++ List.replicate (k + 1) x)

/-- The last symbol is the same. -/
theorem Repeated.getLast? {α : Type} {xs ys : List α} (h : Repeated xs ys) :
    ys.getLast? = xs.getLast? := by
  cases h with
  | nil => rfl
  | concat h x k =>
    rw [List.replicate_succ', ← List.append_assoc, List.getLast?_concat, List.getLast?_concat]

/-- **The end of such a list** repeats an end of the other one. -/
theorem Repeated.of_suffix {α : Type} {xs ys vs : List α} (h : Repeated xs ys) (hvs : vs <:+ ys) :
    ∃ us, us <:+ xs ∧ Repeated us vs := by
  induction h generalizing vs with
  | nil =>
    obtain rfl := List.suffix_nil.mp hvs
    exact ⟨[], List.suffix_rfl, .nil⟩
  | @concat xs ys _ x k ih =>
    obtain ⟨front, hfront⟩ := hvs
    rcases List.append_eq_append_iff.mp hfront with ⟨rest, rfl, rfl⟩ | ⟨rest, -, hlast⟩
    · -- it has all that stands for the last symbol
      obtain ⟨us, hus, hrepeated⟩ := ih (List.suffix_append _ rest)
      exact ⟨us ++ [x], (List.suffix_append_inj_of_length_eq rfl).mpr ⟨hus, rfl⟩,
        hrepeated.concat x k⟩
    · -- it has nothing else
      obtain ⟨-, -, hvs⟩ := List.replicate_eq_append_iff.mp hlast
      rw [hvs]
      cases vs.length with
      | zero => exact ⟨[], List.nil_suffix, .nil⟩
      | succ j => exact ⟨[x], List.suffix_append xs [x], .concat .nil x j⟩

namespace Consumption

variable {α : Type}

/-- What a message says is written down, once for every attempt, unless it says nothing. -/
def logging (content : π → Option α) : Consumption π (List α) where
  part p before after := ∃ k, after = before ++ (List.replicate k (content p).toList).flatten
  full p before after := ∃ k, after = before ++ (List.replicate (k + 1) (content p).toList).flatten
  refl _ before := ⟨0, (List.append_nil before).symm⟩
  part_of_full := fun ⟨k, h⟩ => ⟨k + 1, h⟩

/-- Writing it down is a complete attempt, whatever is answered. -/
theorem attempt_logging (content : π → Option α) (p : π) (log : List α) (how : Settlement) :
    (logging content).Attempt p log how (log ++ (content p).toList) := by
  have hmore : ∀ {before : List α} {k : ℕ},
      log = before ++ (List.replicate k (content p).toList).flatten →
      log ++ (content p).toList =
        before ++ (List.replicate (k + 1) (content p).toList).flatten := by
    intro before k h
    rw [h, List.replicate_succ', List.flatten_concat, List.append_assoc]
  exact ⟨fun _ ⟨k, h⟩ => ⟨k + 1, hmore h⟩, fun _ _ ⟨k, h⟩ => ⟨k, hmore h⟩,
    fun _ ⟨k, h⟩ => ⟨k + 1, hmore h⟩⟩

/-- One more message in the log. -/
theorem repeated_of_full {content : π → Option α} {ps : List π} {p : π} {log log' : List α}
    (h : Repeated (ps.filterMap content) log) (hfull : (logging content).full p log log') :
    Repeated ((ps ++ [p]).filterMap content) log' := by
  obtain ⟨k, rfl⟩ := hfull
  rw [List.filterMap_append]
  cases hcontent : content p with
  | none =>
    have hnothing : (List.replicate (k + 1) ([] : List α)).flatten = [] := by simp
    rw [List.filterMap_cons_none hcontent, Option.toList_none, hnothing, List.append_nil]
    exact (List.append_nil _).symm ▸ h
  | some x =>
    rw [List.filterMap_cons_some hcontent, Option.toList_some, List.flatten_replicate_singleton]
    exact h.concat x k

/-- **What the messages make of an empty log**: each stands there once or more. -/
theorem repeated_of_once {content : π → Option α} {ps : List π} {log : List α}
    (h : (logging content).Once [] ps log) : Repeated (ps.filterMap content) log := by
  induction h with
  | nil => exact .nil
  | concat _ hfull ih => exact repeated_of_full ih hfull

end Consumption

/-- **The log of a consumer in order** has the messages that are gone in it, and at most the next
one, each once or more. -/
theorem Broker.InOrder.repeated [DecidableEq κ] {α : Type} {content : π → Option α} {queue : κ}
    {b : Broker κ π} {current : Option ℕ} {log : List α}
    (h : b.InOrder (Consumption.logging content) [] queue current log) :
    ∃ ps, b.removedFrom queue <+: ps ∧ ps <+: b.acceptedIn queue ∧
      ps.length ≤ (b.removedFrom queue).length + 1 ∧ Repeated (ps.filterMap content) log := by
  obtain ⟨u, honce, hprefix, hcase⟩ := h.once
  have hgone := Consumption.repeated_of_once honce
  have hdone : log = u → ∃ ps, b.removedFrom queue <+: ps ∧ ps <+: b.acceptedIn queue ∧
      ps.length ≤ (b.removedFrom queue).length + 1 ∧ Repeated (ps.filterMap content) log :=
    fun heq => ⟨_, List.prefix_rfl, hprefix, Nat.le_succ _, heq ▸ hgone⟩
  rcases hcase with hnone | ⟨p, hnext, k, hlog⟩
  · exact hdone hnone
  · cases k with
    | zero => exact hdone (hlog.trans (List.append_nil u))
    | succ k =>
      exact ⟨_, List.prefix_append _ _, hnext, by simp,
        Consumption.repeated_of_full hgone ⟨k, hlog⟩⟩

end HabrDigest
