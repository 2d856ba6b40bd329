import HabrDigest.Lib.Broker
import Mathlib.Data.List.Dedup

/-!
# Queues, exchanges and who declares them

What a broker knows besides messages: which queues and exchanges there are, with what arguments
they were declared, and which queues are bound to which exchange (`Topology`).  A client sends
commands on a channel; the broker executes those of one channel in order, interleaved with every
other channel, and a command that it refuses closes the channel.  It refuses a declaration that
disagrees with the one that is there, and whatever names a queue or an exchange that is not.  What
is not durable does not outlive a restart of the broker, and neither does a channel.

## Clients that need nobody

Several clients that share queues may start in any order, and so none of them can count on a
declaration of another.  `SelfContained` is the discipline that makes this work: every declaration
agrees with one plan that all clients share, and a command only names what was declared before it
on the same channel.  Under it no command is ever refused, in whatever order the channels are
executed, lost and opened again (`Sane`); and if the plan asks for durable queues and exchanges, a
topology only grows, also when the broker is restarted (`Extends`).
-/

namespace HabrDigest

/-- The kinds of exchange that route by their bindings alone. -/
inductive ExchangeKind where
  | direct
  | fanout
  deriving DecidableEq, Repr

/-- What an exchange is declared with. -/
structure ExchangeArguments where
  kind : ExchangeKind
  durable : Bool
  deriving DecidableEq, Repr

/-- A queue is bound to an exchange under a key. -/
structure Binding (κ : Type) where
  exchange : κ
  queue : κ
  key : κ
  deriving DecidableEq, Repr

/-- What a client sends on its channel. -/
inductive Command (κ : Type) where
  | declareQueue (queue : κ) (durable : Bool)
  | declareExchange (exchange : κ) (arguments : ExchangeArguments)
  | bindQueue (binding : Binding κ)
  /-- No consumer that is started on the channel from now on has more unsettled deliveries than
  this; 0 is for no limit. -/
  | setQos (prefetch : ℕ)
  | consume (queue : κ)
  /-- Without an exchange, a message goes to the queue that the key names. -/
  | publish (exchange : Option κ) (key : κ)
  deriving DecidableEq, Repr

/-- What there is: a queue with whether it is durable, an exchange with its arguments, and the
bindings. -/
structure Topology (κ : Type) where
  queues : κ → Option Bool := fun _ => none
  exchanges : κ → Option ExchangeArguments := fun _ => none
  bindings : List (Binding κ) := []

namespace Topology

variable {κ : Type} [DecidableEq κ]

/-- The broker does not refuse a command. -/
def Admits (t : Topology κ) : Command κ → Prop
  | .declareQueue queue durable => ∀ old ∈ t.queues queue, old = durable
  | .declareExchange exchange arguments => ∀ old ∈ t.exchanges exchange, old = arguments
  | .bindQueue b => (t.exchanges b.exchange).isSome ∧ (t.queues b.queue).isSome
  | .setQos _ => True
  | .consume queue => (t.queues queue).isSome
  | .publish exchange _ => ∀ x ∈ exchange, (t.exchanges x).isSome

instance (t : Topology κ) (c : Command κ) : Decidable (t.Admits c) := by
  cases c <;> unfold Admits <;> infer_instance

/-- What there is after a command that is not refused. -/
def execute (t : Topology κ) : Command κ → Topology κ
  | .declareQueue queue durable =>
    { t with queues := Function.update t.queues queue (some durable) }
  | .declareExchange exchange arguments =>
    { t with exchanges := Function.update t.exchanges exchange (some arguments) }
  | .bindQueue b => { t with bindings := if b ∈ t.bindings then t.bindings else t.bindings ++ [b] }
  | .setQos _ | .consume _ | .publish _ _ => t

/-- A binding takes a message of its exchange. -/
def Takes (t : Topology κ) (exchange key : κ) (b : Binding κ) : Prop :=
  b.exchange = exchange ∧ ((t.exchanges exchange).map (·.kind) = some .fanout ∨ b.key = key)

instance (t : Topology κ) (exchange key : κ) (b : Binding κ) : Decidable (t.Takes exchange key b) :=
  inferInstanceAs (Decidable (_ ∧ _))

/-- The queues that a message goes to; a message that finds none is gone. -/
def reached (t : Topology κ) (exchange : Option κ) (key : κ) : List κ :=
  match exchange with
  | none => if (t.queues key).isSome then [key] else []
  | some x => ((t.bindings.filter fun b => t.Takes x key b).map (·.queue)).dedup

/-- What is left after a restart of the broker. -/
def restarted (t : Topology κ) : Topology κ where
  queues queue := (t.queues queue).filter fun durable => durable
  exchanges exchange := (t.exchanges exchange).filter (·.durable)
  bindings := t.bindings.filter fun b =>
    t.queues b.queue = some true && (t.exchanges b.exchange).any (·.durable)

/-! ## Topologies grow -/

/-- Everything that is there in one topology is there in another, with the same arguments. -/
structure Extends (t' t : Topology κ) : Prop where
  queues : ∀ queue durable, t.queues queue = some durable → t'.queues queue = some durable
  exchanges : ∀ exchange arguments, t.exchanges exchange = some arguments →
    t'.exchanges exchange = some arguments
  bindings : t.bindings ⊆ t'.bindings

omit [DecidableEq κ] in
theorem Extends.refl (t : Topology κ) : t.Extends t := ⟨fun _ _ => id, fun _ _ => id, fun _ => id⟩

omit [DecidableEq κ] in
theorem Extends.trans {t₁ t₂ t₃ : Topology κ} (h : t₃.Extends t₂) (h' : t₂.Extends t₁) :
    t₃.Extends t₁ :=
  ⟨fun q d hq => h.queues q d (h'.queues q d hq), fun x a hx => h.exchanges x a (h'.exchanges x a hx),
    fun _ hb => h.bindings (h'.bindings hb)⟩

/-- **A command that is not refused changes nothing that is there.** -/
theorem extends_execute {t : Topology κ} {c : Command κ} (h : t.Admits c) :
    (t.execute c).Extends t := by
  cases c with
  | declareQueue queue durable =>
    refine ⟨fun q d hq => ?_, fun _ _ => id, fun _ => id⟩
    by_cases hqueue : q = queue
    · subst hqueue
      obtain rfl := h d hq
      exact Function.update_self ..
    · exact (Function.update_of_ne hqueue ..).trans hq
  | declareExchange exchange arguments =>
    refine ⟨fun _ _ => id, fun x a hx => ?_, fun _ => id⟩
    by_cases hexchange : x = exchange
    · subst hexchange
      obtain rfl := h a hx
      exact Function.update_self ..
    · exact (Function.update_of_ne hexchange ..).trans hx
  | bindQueue b =>
    refine ⟨fun _ _ => id, fun _ _ => id, fun b' hb' => ?_⟩
    show b' ∈ if b ∈ t.bindings then t.bindings else t.bindings ++ [b]
    split_ifs
    · exact hb'
    · exact List.mem_append_left _ hb'
  | setQos | consume | publish => exact .refl t

/-- What a command has made is there. -/
def Established (t : Topology κ) : Command κ → Prop
  | .declareQueue queue durable => t.queues queue = some durable
  | .declareExchange exchange arguments => t.exchanges exchange = some arguments
  | .bindQueue b => b ∈ t.bindings
  | .setQos _ | .consume _ | .publish _ _ => True

theorem established_execute (t : Topology κ) (c : Command κ) : (t.execute c).Established c := by
  cases c with
  | declareQueue | declareExchange => exact Function.update_self ..
  | bindQueue b =>
    show b ∈ if b ∈ t.bindings then t.bindings else t.bindings ++ [b]
    split_ifs with hb
    · exact hb
    · exact List.mem_append_right _ (List.mem_singleton_self _)
  | setQos | consume | publish => trivial

omit [DecidableEq κ] in
theorem Extends.established {t t' : Topology κ} (h : t'.Extends t) {c : Command κ}
    (hc : t.Established c) : t'.Established c := by
  cases c with
  | declareQueue queue durable => exact h.queues _ _ hc
  | declareExchange exchange arguments => exact h.exchanges _ _ hc
  | bindQueue b => exact h.bindings hc
  | setQos | consume | publish => trivial

/-- A queue that a fanout exchange reaches, it reaches for good. -/
theorem Extends.mem_reached {t t' : Topology κ} (h : t'.Extends t) {exchange key : κ} {queue : κ}
    (hfanout : (t.exchanges exchange).map (·.kind) = some .fanout)
    (hqueue : queue ∈ t.reached (some exchange) key) (key' : κ) :
    queue ∈ t'.reached (some exchange) key' := by
  obtain ⟨b, hb, rfl⟩ := List.mem_map.mp (List.mem_dedup.mp hqueue)
  obtain ⟨hb, htakes⟩ := List.mem_filter.mp hb
  obtain ⟨arguments, harguments, hkind⟩ := Option.map_eq_some_iff.mp hfanout
  refine List.mem_dedup.mpr (List.mem_map.mpr ⟨b, List.mem_filter.mpr ⟨h.bindings hb, ?_⟩, rfl⟩)
  have htakes : t.Takes exchange key b := of_decide_eq_true htakes
  refine decide_eq_true ⟨htakes.1, Or.inl ?_⟩
  rw [h.exchanges _ _ harguments, Option.map_some, hkind]

/-! ## The plan -/

/-- What clients agree on: what they declare, and how much a consumer may have in hand. -/
structure Plan (κ : Type) where
  topology : Topology κ
  maxPrefetch : ℕ

/-- Everything that is there is there as planned, and whatever is bound is there. -/
structure Fits (plan : Plan κ) (t : Topology κ) : Prop where
  planned : plan.topology.Extends t
  bound : ∀ b ∈ t.bindings, (t.exchanges b.exchange).isSome ∧ (t.queues b.queue).isSome

/-- Everything that is planned is durable. -/
structure Plan.Durable (plan : Plan κ) : Prop where
  queues : ∀ queue durable, plan.topology.queues queue = some durable → durable = true
  exchanges : ∀ exchange arguments, plan.topology.exchanges exchange = some arguments →
    arguments.durable = true

omit [DecidableEq κ] in
/-- **A restart keeps a topology that is durable as planned.** -/
theorem Fits.restarted {plan : Plan κ} {t : Topology κ} (h : Fits plan t)
    (hdurable : plan.Durable) : t.restarted = t := by
  have hqueue : ∀ queue durable, t.queues queue = some durable → durable = true := fun q d hq =>
    hdurable.queues q d (h.planned.queues q d hq)
  have hexchange : ∀ exchange arguments, t.exchanges exchange = some arguments →
      arguments.durable = true := fun x a hx => hdurable.exchanges x a (h.planned.exchanges x a hx)
  obtain ⟨queues, exchanges, bindings⟩ := t
  simp only [Topology.restarted, Topology.mk.injEq]
  refine ⟨funext fun q => ?_, funext fun x => ?_, List.filter_eq_self.mpr fun b hb => ?_⟩
  · cases hq : queues q with
    | none => rfl
    | some durable => rw [hqueue q durable hq]; rfl
  · cases hx : exchanges x with
    | none => rfl
    | some arguments =>
      rw [Option.filter_some_pos]
      exact hexchange x arguments hx
  · obtain ⟨hx, hq⟩ := h.bound b hb
    obtain ⟨durable, hq⟩ := Option.isSome_iff_exists.mp hq
    obtain ⟨arguments, hx⟩ := Option.isSome_iff_exists.mp hx
    have hq' : queues b.queue = some true := hqueue _ _ hq ▸ hq
    have hx' : exchanges b.exchange = some arguments := hx
    simp [hq', hx', hexchange _ _ hx]

end Topology

/-! ## What a client sends -/

namespace Command

variable {κ : Type}

/-- A command declares what is planned. -/
def Agrees (plan : Topology.Plan κ) : Command κ → Prop
  | .declareQueue queue durable => plan.topology.queues queue = some durable
  | .declareExchange exchange arguments => plan.topology.exchanges exchange = some arguments
  | .bindQueue b => b ∈ plan.topology.bindings
  | .setQos prefetch => 0 < prefetch ∧ prefetch ≤ plan.maxPrefetch
  | .consume _ | .publish _ _ => True

instance [DecidableEq κ] (plan : Topology.Plan κ) (c : Command κ) : Decidable (c.Agrees plan) := by
  cases c <;> unfold Agrees <;> infer_instance

/-- A command only names what was declared by earlier ones, and a consumer has a limit. -/
def ReliesOn (earlier : List (Command κ)) : Command κ → Prop
  | .bindQueue b =>
    (∃ arguments, .declareExchange b.exchange arguments ∈ earlier) ∧
      ∃ durable, .declareQueue b.queue durable ∈ earlier
  | .consume queue =>
    (∃ durable, .declareQueue queue durable ∈ earlier) ∧ ∃ prefetch, .setQos prefetch ∈ earlier
  | .publish none key => ∃ durable, .declareQueue key durable ∈ earlier
  | .publish (some x) _ => ∃ arguments, .declareExchange x arguments ∈ earlier
  | .declareQueue _ _ | .declareExchange _ _ | .setQos _ => True

theorem ReliesOn.mono {earlier earlier' : List (Command κ)} (hsub : earlier ⊆ earlier')
    {c : Command κ} (h : c.ReliesOn earlier) : c.ReliesOn earlier' := by
  cases c with
  | bindQueue b => exact ⟨h.1.imp fun _ hx => hsub hx, h.2.imp fun _ hq => hsub hq⟩
  | consume queue => exact ⟨h.1.imp fun _ hq => hsub hq, h.2.imp fun _ hn => hsub hn⟩
  | publish exchange key => cases exchange <;> exact Exists.imp (fun _ hq => hsub hq) h
  | declareQueue | declareExchange | setQos => trivial

/-- Every command of a channel declares what is planned and names what was declared before it. -/
def SelfContained (plan : Topology.Plan κ) (cs : List (Command κ)) : Prop :=
  ∀ before c after, cs = before ++ c :: after → c.Agrees plan ∧ c.ReliesOn before

theorem SelfContained.nil (plan : Topology.Plan κ) : SelfContained plan [] := fun _ _ _ h =>
  absurd h (by simp)

/-- **A channel may go on with commands that rely on those that were sent on it.** -/
theorem SelfContained.append {plan : Topology.Plan κ} {cs more : List (Command κ)}
    (h : SelfContained plan cs) (hmore : ∀ before c after, more = before ++ c :: after →
      c.Agrees plan ∧ c.ReliesOn (cs ++ before)) : SelfContained plan (cs ++ more) := by
  intro before c after heq
  rcases Broker.append_eq_append_cons heq with ⟨rest, hcs⟩ | ⟨mid, rfl, hmid⟩
  · exact h before c rest hcs
  · exact hmore mid c after hmid

theorem SelfContained.concat {plan : Topology.Plan κ} {cs : List (Command κ)}
    (h : SelfContained plan cs) {c : Command κ} (hagrees : c.Agrees plan)
    (hrelies : c.ReliesOn cs) : SelfContained plan (cs ++ [c]) := by
  refine h.append fun before c' after heq => ?_
  rcases List.cons_eq_append_iff.mp heq with ⟨rfl, hcons⟩ | ⟨rest, rfl, hnil⟩
  · obtain ⟨rfl, -⟩ := List.cons.inj hcons
    rw [List.append_nil]
    exact ⟨hagrees, hrelies⟩
  · exact absurd hnil (by simp)

/-- What needs nothing may follow anything. -/
theorem SelfContained.append_selfContained {plan : Topology.Plan κ} {cs more : List (Command κ)}
    (h : SelfContained plan cs) (hmore : SelfContained plan more) :
    SelfContained plan (cs ++ more) :=
  h.append fun before c after heq => (hmore before c after heq).imp_right
    (ReliesOn.mono (List.subset_append_right _ _))

end Command

namespace Topology

variable {κ : Type} {plan : Plan κ} {t : Topology κ}

/-- **What agrees with the plan and names what is there is not refused.** -/
theorem Fits.admits (h : Fits plan t) {c : Command κ} (hagrees : c.Agrees plan)
    {earlier : List (Command κ)} (hrelies : c.ReliesOn earlier)
    (hearlier : ∀ c' ∈ earlier, t.Established c') : t.Admits c := by
  have hqueue : ∀ {queue : κ}, (∃ durable, .declareQueue queue durable ∈ earlier) →
      (t.queues queue).isSome := fun ⟨durable, hmem⟩ =>
    Option.isSome_iff_exists.mpr ⟨durable, hearlier _ hmem⟩
  have hexchange : ∀ {exchange : κ}, (∃ arguments, .declareExchange exchange arguments ∈ earlier) →
      (t.exchanges exchange).isSome := fun ⟨arguments, hmem⟩ =>
    Option.isSome_iff_exists.mpr ⟨arguments, hearlier _ hmem⟩
  cases c with
  | declareQueue queue durable =>
    intro old hold
    exact Option.some.inj ((h.planned.queues queue old hold).symm.trans hagrees)
  | declareExchange exchange arguments =>
    intro old hold
    exact Option.some.inj ((h.planned.exchanges exchange old hold).symm.trans hagrees)
  | bindQueue b => exact ⟨hexchange hrelies.1, hqueue hrelies.2⟩
  | setQos prefetch => trivial
  | consume queue => exact hqueue hrelies.1
  | publish exchange key =>
    intro x hx
    obtain rfl := Option.mem_def.mp hx
    exact hexchange hrelies

/-- **What agrees with the plan keeps to it.** -/
theorem Fits.execute [DecidableEq κ] (h : Fits plan t) {c : Command κ} (hagrees : c.Agrees plan)
    (hadmits : t.Admits c) : Fits plan (t.execute c) := by
  have hgrows := extends_execute hadmits
  have hbound : ∀ b ∈ t.bindings, ((t.execute c).exchanges b.exchange).isSome ∧
      ((t.execute c).queues b.queue).isSome := by
    intro b hb
    obtain ⟨hx, hq⟩ := h.bound b hb
    obtain ⟨durable, hq⟩ := Option.isSome_iff_exists.mp hq
    obtain ⟨arguments, hx⟩ := Option.isSome_iff_exists.mp hx
    exact ⟨Option.isSome_iff_exists.mpr ⟨_, hgrows.exchanges _ _ hx⟩,
      Option.isSome_iff_exists.mpr ⟨_, hgrows.queues _ _ hq⟩⟩
  cases c with
  | declareQueue queue durable =>
    refine ⟨⟨fun q d hq => ?_, h.planned.exchanges, h.planned.bindings⟩, hbound⟩
    change Function.update t.queues queue (some durable) q = some d at hq
    by_cases hqueue : q = queue
    · subst hqueue
      rw [Function.update_self] at hq
      exact hq ▸ hagrees
    · rw [Function.update_of_ne hqueue] at hq
      exact h.planned.queues q d hq
  | declareExchange exchange arguments =>
    refine ⟨⟨h.planned.queues, fun x a hx => ?_, h.planned.bindings⟩, hbound⟩
    change Function.update t.exchanges exchange (some arguments) x = some a at hx
    by_cases hexchange : x = exchange
    · subst hexchange
      rw [Function.update_self] at hx
      exact hx ▸ hagrees
    · rw [Function.update_of_ne hexchange] at hx
      exact h.planned.exchanges x a hx
  | bindQueue b =>
    have hmem : ∀ b' ∈ (t.execute (.bindQueue b)).bindings, b' ∈ t.bindings ∨ b' = b := by
      intro b' hb'
      have hb' : b' ∈ if b ∈ t.bindings then t.bindings else t.bindings ++ [b] := hb'
      split_ifs at hb'
      · exact Or.inl hb'
      · exact (List.mem_append.mp hb').imp_right List.mem_singleton.mp
    refine ⟨⟨h.planned.queues, h.planned.exchanges, fun b' hb' => ?_⟩, fun b' hb' => ?_⟩
    · rcases hmem b' hb' with hold | rfl
      · exact h.planned.bindings hold
      · exact hagrees
    · rcases hmem b' hb' with hold | rfl
      · exact h.bound b' hold
      · exact hadmits
  | setQos | consume | publish => exact h

end Topology

/-! ## Channels -/

/-- A channel, with what was executed of it. -/
structure Channel (κ : Type) where
  opened : Bool := true
  executed : List (Command κ) := []
  /-- What the broker has not executed yet. -/
  pending : List (Command κ) := []
  prefetch : ℕ := 0

/-- A message that the broker has routed, and the queues that it went to. -/
structure Routed (κ : Type) where
  exchange : Option κ
  key : κ
  queues : List κ
  deriving DecidableEq, Repr

/-- The broker with its channels.  It keeps no logs; they say what happened. -/
structure Server (κ : Type) where
  topology : Topology κ := {}
  channels : List (Channel κ) := []
  /-- The commands that were refused. -/
  refused : List (Command κ) := []
  /-- The messages that were routed. -/
  routed : List (Routed κ) := []
  /-- The consumers that were started: the queue, and the prefetch. -/
  consumers : List (κ × ℕ) := []

namespace Server

variable {κ : Type}

/-- A client opens a channel; it is the last one. -/
def openChannel (s : Server κ) : Server κ := { s with channels := s.channels ++ [{}] }

/-- A channel has changed. -/
def setChannel (i : ℕ) (ch : Channel κ) (s : Server κ) : Server κ :=
  { s with channels := s.channels.set i ch }

/-- A client sends commands on a channel. -/
def send (i : ℕ) (cs : List (Command κ)) (s : Server κ) : Server κ :=
  match s.channels[i]? with
  | none => s
  | some ch => if ch.opened then s.setChannel i { ch with pending := ch.pending ++ cs } else s

/-- A channel is lost, with whatever was not executed. -/
def lose (i : ℕ) (s : Server κ) : Server κ :=
  match s.channels[i]? with
  | none => s
  | some ch => s.setChannel i { ch with opened := false, pending := [] }

/-- What a command that is not refused leaves behind. -/
def noted [DecidableEq κ] (ch : Channel κ) (s : Server κ) : Command κ → Server κ
  | .publish exchange key =>
    { s with routed := s.routed ++ [⟨exchange, key, s.topology.reached exchange key⟩] }
  | .consume queue => { s with consumers := s.consumers ++ [(queue, ch.prefetch)] }
  | _ => s

/-- The prefetch of a channel after a command. -/
def prefetchAfter (ch : Channel κ) : Command κ → ℕ
  | .setQos prefetch => prefetch
  | _ => ch.prefetch

/-- The broker executes the next command of a channel, or refuses it and closes the channel. -/
def execute [DecidableEq κ] (i : ℕ) (s : Server κ) : Server κ :=
  match s.channels[i]? with
  | none => s
  | some ch =>
    match ch.pending with
    | [] => s
    | c :: rest =>
      if s.topology.Admits c then
        let s := s.noted ch c
        { s with topology := s.topology.execute c }.setChannel i
          { ch with
            executed := ch.executed ++ [c]
            pending := rest
            prefetch := prefetchAfter ch c }
      else
        { s with refused := s.refused ++ [c] }.setChannel i { ch with opened := false, pending := [] }

/-- The broker is restarted. -/
def restart (s : Server κ) : Server κ :=
  { s with
    topology := s.topology.restarted
    channels := s.channels.map fun ch => { ch with opened := false, pending := [] } }

/-- What was ever sent on a channel that is open. -/
def sentOn (s : Server κ) (i : ℕ) : Option (List (Command κ)) :=
  (s.channels[i]?).bind fun ch => if ch.opened then some (ch.executed ++ ch.pending) else none

/-! ## No command is refused -/

/-- A channel that is open was only sent what needs nobody, and what was executed of it is there. -/
structure SaneChannel (plan : Topology.Plan κ) (t : Topology κ) (ch : Channel κ) : Prop where
  sent : ch.opened = true → Command.SelfContained plan (ch.executed ++ ch.pending)
  established : ch.opened = true → ∀ c ∈ ch.executed, t.Established c
  limited : (∃ prefetch, .setQos prefetch ∈ ch.executed) →
    0 < ch.prefetch ∧ ch.prefetch ≤ plan.maxPrefetch
  closed : ch.opened = false → ch.pending = []

/-- **The clients need nobody**: what there is fits the plan, nothing was refused, every message
for a queue went to it, and every consumer has a limit. -/
structure Sane (plan : Topology.Plan κ) (s : Server κ) : Prop where
  fits : Topology.Fits plan s.topology
  channels : ∀ ch ∈ s.channels, SaneChannel plan s.topology ch
  refused : s.refused = []
  routed : ∀ r ∈ s.routed, r.exchange = none → r.queues = [r.key]
  limited : ∀ consumer ∈ s.consumers, 0 < consumer.2 ∧ consumer.2 ≤ plan.maxPrefetch

variable {plan : Topology.Plan κ}

theorem Sane.empty (plan : Topology.Plan κ) : Sane plan ({} : Server κ) where
  fits := ⟨⟨fun _ _ h => absurd h (by simp), fun _ _ h => absurd h (by simp),
    List.nil_subset _⟩, fun _ h => absurd h List.not_mem_nil⟩
  channels _ h := absurd h List.not_mem_nil
  refused := rfl
  routed _ h := absurd h List.not_mem_nil
  limited _ h := absurd h List.not_mem_nil

/-- A channel that changes by itself. -/
theorem Sane.setChannel {s : Server κ} (h : Sane plan s) (i : ℕ) {ch : Channel κ}
    (hch : SaneChannel plan s.topology ch) : Sane plan (s.setChannel i ch) :=
  ⟨h.fits, fun _ hk => (List.mem_or_eq_of_mem_set hk).elim (h.channels _) fun heq => heq ▸ hch,
    h.refused, h.routed, h.limited⟩

theorem Sane.openChannel {s : Server κ} (h : Sane plan s) : Sane plan s.openChannel := by
  refine ⟨h.fits, fun ch hch => ?_, h.refused, h.routed, h.limited⟩
  rcases List.mem_append.mp hch with hold | hnew
  · exact h.channels ch hold
  · obtain rfl := List.mem_singleton.mp hnew
    exact ⟨fun _ => .nil plan, fun _ _ hc => absurd hc List.not_mem_nil,
      fun ⟨_, hn⟩ => absurd hn List.not_mem_nil, fun _ => rfl⟩

/-- **A client may send what relies on nothing but what it has sent before.** -/
theorem Sane.send {s : Server κ} (h : Sane plan s) (i : ℕ) {cs : List (Command κ)}
    (hcs : ∀ sent, s.sentOn i = some sent → Command.SelfContained plan sent →
      Command.SelfContained plan (sent ++ cs)) : Sane plan (s.send i cs) := by
  unfold Server.send
  cases hi : s.channels[i]? with
  | none => exact h
  | some ch =>
    dsimp only
    split_ifs with hopened
    · have hch := h.channels ch (List.mem_of_getElem? hi)
      refine h.setChannel i ⟨fun _ => ?_, hch.established, hch.limited, fun hclosed => ?_⟩
      · rw [← List.append_assoc]
        refine hcs _ ?_ (hch.sent hopened)
        rw [sentOn, hi, Option.bind_some, if_pos hopened]
      · exact absurd (hopened.symm.trans hclosed) (by simp)
    · exact h

theorem Sane.lose {s : Server κ} (h : Sane plan s) (i : ℕ) : Sane plan (s.lose i) := by
  unfold Server.lose
  cases hi : s.channels[i]? with
  | none => exact h
  | some ch =>
    have hch := h.channels ch (List.mem_of_getElem? hi)
    exact h.setChannel i ⟨fun hopened => absurd hopened (by simp),
      fun hopened => absurd hopened (by simp), hch.limited, fun _ => rfl⟩

theorem SaneChannel.extends {t t' : Topology κ} {ch : Channel κ} (h : SaneChannel plan t ch)
    (hextends : t'.Extends t) : SaneChannel plan t' ch :=
  ⟨h.sent, fun hopened c hc => hextends.established (h.established hopened c hc), h.limited,
    h.closed⟩

/-- **The next command of a channel is executed**, and is not refused. -/
theorem Sane.execute_eq {s : Server κ} (h : Sane plan s) {i : ℕ} {ch : Channel κ}
    (hi : s.channels[i]? = some ch) {c : Command κ} {rest : List (Command κ)}
    (hpending : ch.pending = c :: rest) :
    ch.opened = true ∧ c.Agrees plan ∧ c.ReliesOn ch.executed ∧ s.topology.Admits c := by
  have hch := h.channels ch (List.mem_of_getElem? hi)
  have hopened : ch.opened = true := by
    by_contra hclosed
    have hnil := hch.closed (Bool.eq_false_iff.mpr hclosed)
    exact absurd (hpending.symm.trans hnil) (by simp)
  obtain ⟨hagrees, hrelies⟩ := hch.sent hopened ch.executed c rest (by rw [hpending])
  exact ⟨hopened, hagrees, hrelies,
    h.fits.admits hagrees hrelies (hch.established hopened)⟩

variable [DecidableEq κ]

theorem reached_none {t : Topology κ} {key : κ} (h : (t.queues key).isSome) :
    t.reached none key = [key] := if_pos h

/-- **Nothing that the broker executes is refused.** -/
theorem Sane.execute {s : Server κ} (h : Sane plan s) (i : ℕ) :
    Sane plan (s.execute i) ∧ (s.execute i).topology.Extends s.topology := by
  unfold Server.execute
  cases hi : s.channels[i]? with
  | none => exact ⟨h, .refl _⟩
  | some ch =>
    dsimp only
    cases hpending : ch.pending with
    | nil => exact ⟨h, .refl _⟩
    | cons c rest =>
      obtain ⟨hopened, hagrees, hrelies, hadmits⟩ := h.execute_eq hi hpending
      have hch := h.channels ch (List.mem_of_getElem? hi)
      have hgrows := Topology.extends_execute hadmits
      have htopology : (s.noted ch c).topology = s.topology := by cases c <;> rfl
      dsimp only
      rw [if_pos hadmits, htopology]
      refine ⟨?_, hgrows⟩
      have hnoted : Sane plan { s.noted ch c with topology := s.topology.execute c } := by
        have hold : ∀ k ∈ s.channels, SaneChannel plan (s.topology.execute c) k := fun k hk =>
          (h.channels k hk).extends hgrows
        have hfits := h.fits.execute hagrees hadmits
        cases c with
        | publish exchange key =>
          refine ⟨hfits, hold, h.refused, fun r hr hnone => ?_, h.limited⟩
          rcases List.mem_append.mp hr with hr | hr
          · exact h.routed r hr hnone
          · obtain rfl := List.mem_singleton.mp hr
            obtain rfl : exchange = none := hnone
            obtain ⟨durable, hdeclared⟩ := hrelies
            refine reached_none (Option.isSome_iff_exists.mpr ⟨durable, ?_⟩)
            exact hch.established hopened _ hdeclared
        | consume queue =>
          refine ⟨hfits, hold, h.refused, h.routed, fun consumer hconsumer => ?_⟩
          rcases List.mem_append.mp hconsumer with hconsumer | hconsumer
          · exact h.limited consumer hconsumer
          · obtain rfl := List.mem_singleton.mp hconsumer
            exact hch.limited hrelies.2
        | declareQueue | declareExchange | bindQueue | setQos =>
          exact ⟨hfits, hold, h.refused, h.routed, h.limited⟩
      refine hnoted.setChannel i ⟨fun _ => ?_, fun _ c' hc' => ?_, fun hqos => ?_, fun hclosed => ?_⟩
      · have hsent := hch.sent hopened
        rwa [hpending, List.append_cons] at hsent
      · rcases List.mem_append.mp hc' with hc' | hc'
        · exact hgrows.established (hch.established hopened c' hc')
        · obtain rfl := List.mem_singleton.mp hc'
          exact Topology.established_execute _ _
      · obtain ⟨prefetch, hqos⟩ := hqos
        cases c with
        | setQos n => exact hagrees
        | declareQueue | declareExchange | bindQueue | consume | publish =>
          exact hch.limited ⟨prefetch, by simpa using hqos⟩
      · exact absurd (hopened.symm.trans hclosed) (by simp)

omit [DecidableEq κ] in
/-- **A restart of the broker loses nothing that is planned to be durable.** -/
theorem Sane.restart {s : Server κ} (h : Sane plan s) (hdurable : plan.Durable) :
    Sane plan s.restart ∧ s.restart.topology = s.topology := by
  have hsame : s.restart.topology = s.topology := h.fits.restarted hdurable
  refine ⟨⟨hsame ▸ h.fits, fun ch hch => ?_, h.refused, h.routed, h.limited⟩, hsame⟩
  obtain ⟨old, hold, rfl⟩ := List.mem_map.mp hch
  exact ⟨fun hopened => absurd hopened (by simp), fun hopened => absurd hopened (by simp),
    (h.channels old hold).limited, fun _ => rfl⟩

/-! ## What was sent stays sent -/

/-- The channels are still there, and one that is open was sent what it had been sent. -/
structure Continues (s' s : Server κ) : Prop where
  length : s.channels.length ≤ s'.channels.length
  sent : ∀ i < s.channels.length, ∀ sent', s'.sentOn i = some sent' →
    ∃ sent, s.sentOn i = some sent ∧ sent ⊆ sent'

omit [DecidableEq κ] in
theorem Continues.refl (s : Server κ) : s.Continues s :=
  ⟨Nat.le_refl _, fun _ _ sent hsent => ⟨sent, hsent, fun _ => id⟩⟩

omit [DecidableEq κ] in
theorem sentOn_of_opened {s : Server κ} {i : ℕ} {ch : Channel κ} (hi : s.channels[i]? = some ch)
    (hopened : ch.opened = true) : s.sentOn i = some (ch.executed ++ ch.pending) := by
  rw [sentOn, hi, Option.bind_some, if_pos hopened]

omit [DecidableEq κ] in
/-- A channel that is open was open, and was sent no more than it is now. -/
theorem Continues.setChannel {s s' : Server κ} (hsame : s'.channels = s.channels) {i : ℕ}
    {ch ch' : Channel κ} (hi : s.channels[i]? = some ch) (hch : ch'.opened = true →
      ch.opened = true ∧ ch.executed ++ ch.pending ⊆ ch'.executed ++ ch'.pending) :
    (s'.setChannel i ch').Continues s := by
  have hchannels : (s'.setChannel i ch').channels = s.channels.set i ch' := hsame ▸ rfl
  refine ⟨?_, fun j hj sent' hsent' => ?_⟩
  · exact Nat.le_of_eq (by rw [hchannels, List.length_set])
  by_cases hij : i = j
  · subst hij
    have hset : (s'.setChannel i ch').channels[i]? = some ch' :=
      hchannels ▸ List.getElem?_set_self hj
    rw [sentOn, hset, Option.bind_some] at hsent'
    split_ifs at hsent' with hopened
    obtain rfl := Option.some.inj hsent'
    exact ⟨_, sentOn_of_opened hi (hch hopened).1, (hch hopened).2⟩
  · have hset : (s'.setChannel i ch').channels[j]? = s.channels[j]? :=
      hchannels ▸ List.getElem?_set_ne hij
    rw [sentOn, hset] at hsent'
    exact ⟨sent', hsent', fun _ => id⟩

omit [DecidableEq κ] in
theorem continues_openChannel (s : Server κ) : s.openChannel.Continues s := by
  refine ⟨by simp [openChannel], fun i hi sent' hsent' => ⟨sent', ?_, fun _ => id⟩⟩
  rw [← hsent', sentOn, sentOn, openChannel, List.getElem?_append_left hi]

omit [DecidableEq κ] in
theorem continues_send (i : ℕ) (cs : List (Command κ)) (s : Server κ) :
    (s.send i cs).Continues s := by
  unfold send
  cases hi : s.channels[i]? with
  | none => exact .refl s
  | some ch =>
    dsimp only
    split_ifs with hopened
    · refine .setChannel rfl hi fun _ => ⟨hopened, ?_⟩
      rw [← List.append_assoc]
      exact List.subset_append_left _ _
    · exact .refl s

omit [DecidableEq κ] in
/-- What a client sends on a channel that is open was sent on it. -/
theorem subset_of_sentOn_send {i : ℕ} {cs sent' : List (Command κ)} {s : Server κ}
    (h : (s.send i cs).sentOn i = some sent') : cs ⊆ sent' := by
  unfold send at h
  cases hi : s.channels[i]? with
  | none => simp [sentOn, hi] at h
  | some ch =>
    simp only [hi] at h
    split_ifs at h with hopened
    · have hset : (s.setChannel i { ch with pending := ch.pending ++ cs }).channels[i]? =
          some { ch with pending := ch.pending ++ cs } :=
        List.getElem?_set_self (List.getElem?_eq_some_iff.mp hi).1
      obtain rfl := Option.some.inj ((sentOn_of_opened hset hopened).symm.trans h)
      rw [← List.append_assoc]
      exact List.subset_append_right _ _
    · simp [sentOn, hi, hopened] at h

omit [DecidableEq κ] in
theorem continues_lose (i : ℕ) (s : Server κ) : (s.lose i).Continues s := by
  unfold lose
  cases hi : s.channels[i]? with
  | none => exact .refl s
  | some ch => exact .setChannel rfl hi fun hopened => absurd hopened (by simp)

omit [DecidableEq κ] in
theorem continues_restart (s : Server κ) : s.restart.Continues s := by
  refine ⟨by simp [restart], fun i _ sent' hsent' => ?_⟩
  rw [sentOn] at hsent'
  obtain ⟨ch, hch, hsome⟩ := Option.bind_eq_some_iff.mp hsent'
  obtain ⟨old, -, rfl⟩ := List.mem_map.mp (List.mem_of_getElem? hch)
  simp at hsome

theorem continues_execute (i : ℕ) (s : Server κ) : (s.execute i).Continues s := by
  unfold execute
  cases hi : s.channels[i]? with
  | none => exact .refl s
  | some ch =>
    dsimp only
    cases hpending : ch.pending with
    | nil => exact .refl s
    | cons c rest =>
      dsimp only
      split_ifs
      · have hsame : ({ s.noted ch c with
            topology := (s.noted ch c).topology.execute c } : Server κ).channels = s.channels := by
          cases c <;> rfl
        refine Continues.setChannel hsame hi fun hopened => ⟨hopened, ?_⟩
        rw [hpending, List.append_cons]
        exact fun _ => id
      · have hsame : ({ s with refused := s.refused ++ [c] } : Server κ).channels = s.channels := rfl
        exact Continues.setChannel hsame hi fun hopened => absurd hopened (by simp)

/-! ## What was routed stays routed -/

/-- The messages that the broker routes, it routes by what there is; and the rest of its past does
not change. -/
theorem routed_execute (i : ℕ) (s : Server κ) : (s.execute i).routed = s.routed ∨
    ∃ exchange key, (s.execute i).routed =
      s.routed ++ [⟨exchange, key, s.topology.reached exchange key⟩] := by
  unfold execute
  cases hi : s.channels[i]? with
  | none => exact Or.inl rfl
  | some ch =>
    dsimp only
    cases ch.pending with
    | nil => exact Or.inl rfl
    | cons c rest =>
      dsimp only
      split_ifs
      · cases c with
        | publish exchange key => exact Or.inr ⟨exchange, key, rfl⟩
        | declareQueue | declareExchange | bindQueue | setQos | consume => exact Or.inl rfl
      · exact Or.inl rfl

end Server
end HabrDigest
