import HabrDigest.Pipeline.ArchivedOnce
import HabrDigest.Pipeline.Recovery
import HabrDigest.Pipeline.ServedPages

/-!
# The readers can catch up

`Recovery` is about the pages; this module is about the digests, which go to two readers at once.
Each reader can be behind for reasons of its own: the notifier has a disk that was full, the web
service a connection that died.  `readers_catch_up` says that neither stays behind.  From every
state there is a way, without a new digest and without a restart, to a state in which both queues are
empty; the output directory is then what the digests of the notifier's queue make of it if each is
written once, and the web service shows what waited in front of what it showed.

The broker drops the links, each subscriber connects again, and serves its queue from the front
(`leads_serves`).  A digest that does not decode is rejected and one that does is acknowledged, so
none stands in the way (`exists_receives`).  That the directory is right then is the invariant of
`ArchivedOnce`, which every move of the way keeps since the way is careful.
-/

namespace HabrDigest
namespace Pipeline

open Messaging Notifier

/-- What both readers rely on: the broker hands out the digests of a queue in order and one at a
time, and no file loses bytes when it is closed. -/
def Careful {ι : Type} (P : Press) (m : Move (Newsroom ι) (NewsEvent ι)) : Prop :=
  (∀ queue, HandedInTurn queue m) ∧ KeepsBytes P m

/-- The five services, as long as they are careful. -/
def Press.careful (P : Press) (F : Set RawArticlesMessage) (ι : Type) [DecidableEq ι] :
    TransitionSystem (Newsroom ι) (NewsEvent ι) :=
  (P.system F ι).guarded (Careful P)

/-- What settles digests and brings no new ones. -/
def Settles {ι : Type} : NewsEvent ι → Prop
  | .connects _ | .delivers _ _ | .processes _ | .drops _ | .notifierReceives _ _ _
  | .webReceives _ => True
  | _ => False

variable {ι : Type} [DecidableEq ι] {P : Press} {F : Set RawArticlesMessage}

/-! ## What every careful run keeps -/

/-- The directory and the history are what the digests have made of them. -/
structure Kept (P : Press) (s : Newsroom ι) : Prop where
  archived : Attends (consumption P.setting.nlohmann P.notifier) (fun _ => none) .digestNotifier s
    s.files
  logged : ∃ log, Logs P s log
  room : s.digests.take P.web.historySize.toNat = s.digests

theorem kept_of_reachable {s : Newsroom ι} (h : (P.careful F ι).Reachable s) : Kept P s := by
  obtain ⟨tr, hrun⟩ := h
  obtain ⟨hplain, hcareful⟩ := hrun.of_guarded
  refine ⟨attends_files hplain (fun m hm => (hcareful m hm).1 _) fun m hm => (hcareful m hm).2,
    ⟨_, logs_taken hplain fun m hm => (hcareful m hm).1 _⟩, ?_⟩
  rw [digests_of_run hplain, List.take_take, Nat.min_self]

/-! ## Moves -/

/-- What settles digests is always possible. -/
theorem leads_settles {s : Newsroom ι} {e : NewsEvent ι} (hsettles : Settles e)
    (hcareful : Careful P ⟨s, e, s.after P e⟩) :
    (P.careful F ι).Leads Settles s (s.after P e) := by
  refine .step hsettles ⟨⟨⟨?_, ?_⟩, rfl⟩, hcareful⟩
  all_goals cases e <;> first | exact trivial | exact hsettles.elim

theorem leads_dropLinks (n : ℕ) (s : Newsroom ι) :
    (P.careful F ι).Leads Settles s { s with broker := s.broker.dropUpTo n } := by
  induction n with
  | zero => exact .refl s
  | succ n ih =>
    rw [Broker.dropUpTo_succ]
    exact ih.trans (leads_settles (e := .drops n) trivial ⟨fun _ => trivial, trivial⟩)

/-- Nothing is under way, and a subscriber can be served from its queue. -/
structure Ready (subscriber : Subscriber) (s : Newsroom ι) : Prop where
  calm : s.broker.Calm
  link : ∃ j l, s.link subscriber = some j ∧ s.broker.links[j]? = some l ∧
    Broker.Works subscriber l

/-- **A subscriber connects**, and is ready. -/
theorem leads_ready {s : Newsroom ι} (hcalm : s.broker.Calm) (subscriber : Subscriber) :
    ∃ t, (P.careful F ι).Leads Settles s t ∧ Ready subscriber t ∧
      t.broker.accepted = s.broker.accepted ∧ t.broker.queues = s.broker.queues ∧
      t.digests = s.digests := by
  have hleads : (P.careful F ι).Leads Settles s (s.after P (.connects subscriber)) :=
    leads_settles trivial ⟨fun _ => trivial, trivial⟩
  have hbroker : (s.after P (.connects subscriber)).broker = s.broker.connect subscriber := by
    cases subscriber <;> rfl
  refine ⟨_, hleads, ⟨fun l hl => ?_, s.broker.links.length, { source := subscriber }, ?_, ?_,
    ⟨rfl, rfl, rfl, rfl⟩⟩, ?_, ?_, ?_⟩
  · rw [hbroker] at hl
    rcases List.mem_append.mp hl with hold | hnew
    · exact hcalm l hold
    · rw [List.mem_singleton.mp hnew]
      exact ⟨rfl, rfl⟩
  · cases subscriber <;> rfl
  · rw [hbroker]
    exact List.getElem?_concat_length
  · rw [hbroker]
    rfl
  · rw [hbroker]
    rfl
  · cases subscriber <;> rfl

/-! ## Serving a digest -/

/-- What the web service shows after a payload of a queue was handled. -/
def shownAfter (P : Press) (subscriber : Subscriber) (digests : List DigestReadyMessage)
    (payload : Bytes) : List DigestReadyMessage :=
  match subscriber with
  | .digestNotifier => digests
  | .digestWeb => (Web.handleDigestReady P.setting.nlohmann P.web payload digests).2

/-- **No digest stands in the way**: a subscriber can handle its next delivery for good. -/
theorem exists_receives {s : Newsroom ι} {subscriber : Subscriber} {j tag : ℕ} {payload : Bytes}
    {b : Broker Subscriber Bytes}
    (hreceive : receiveFrom (s.link subscriber) s.broker = some (j, tag, payload, b)) :
    ∃ e how, Settles e ∧ Careful P ⟨s, e, s.after P e⟩ ∧ how ≠ .requeue ∧
      (s.after P e).broker = b.send j (Broker.answer [] tag how) 1 ∧
      (s.after P e).link = s.link ∧
      (s.after P e).digests = shownAfter P subscriber s.digests payload := by
  cases subscriber with
  | digestNotifier =>
    let handled := Notifier.handleDigestReady P.setting.nlohmann P.notifier goodWrite goodWrite
      payload s.files
    have hafter : s.after P (.notifierReceives goodWrite goodWrite 1) = { s with
        broker := b.send j (Broker.answer [] tag (settlement handled.1)) 1
        files := handled.2 } := by
      have hreceive : receiveFrom s.notifier s.broker = some (j, tag, payload, b) := hreceive
      unfold Newsroom.after
      dsimp only
      rw [hreceive]
    have hfinal : handled.1 ≠ .kRequeue := by
      show (Notifier.handleDigestReady _ _ _ _ _ _).1 ≠ _
      unfold Notifier.handleDigestReady
      cases P.setting.nlohmann.decode DigestReadyMessage.codec payload with
      | none => exact Ack.noConfusion
      | some digest => exact Ack.noConfusion
    have hkeeps : ∀ content, goodWrite.LosesNothing content := fun _ _ hk => absurd hk (by
      simp [goodWrite])
    refine ⟨.notifierReceives goodWrite goodWrite 1, settlement handled.1, trivial,
      ⟨fun _ => trivial, ?_⟩, fun heq => hfinal (settlement_eq_requeue_iff.mp heq), ?_, ?_, ?_⟩
    · exact fun _ _ _ _ _ _ _ => ⟨hkeeps _, hkeeps _⟩
    · rw [hafter]
    · rw [hafter]
      exact Newsroom.link_eq rfl rfl
    · rw [hafter]
      rfl
  | digestWeb =>
    let handled := Web.handleDigestReady P.setting.nlohmann P.web payload s.digests
    have hafter : s.after P (.webReceives 1) = { s with
        broker := b.send j (Broker.answer [] tag (settlement handled.1)) 1
        digests := handled.2 } := by
      have hreceive : receiveFrom s.web s.broker = some (j, tag, payload, b) := hreceive
      unfold Newsroom.after
      dsimp only
      rw [hreceive]
    have hfinal : handled.1 ≠ .kRequeue := by
      show (Web.handleDigestReady _ _ _ _).1 ≠ _
      unfold Web.handleDigestReady
      cases P.setting.nlohmann.decode DigestReadyMessage.codec payload with
      | none => exact Ack.noConfusion
      | some digest => exact Ack.noConfusion
    refine ⟨.webReceives 1, settlement handled.1, trivial, ⟨fun _ => trivial, trivial⟩,
      fun heq => hfinal (settlement_eq_requeue_iff.mp heq), ?_, ?_, ?_⟩
    · rw [hafter]
    · rw [hafter]
      exact Newsroom.link_eq rfl rfl
    · rw [hafter]
      rfl

/-- **A subscriber serves the digest in front**, and the digest is gone. -/
theorem leads_serves {s : Newsroom ι} {subscriber : Subscriber} (h : Ready subscriber s)
    {payload : Bytes} {rest : List Bytes} (hqueue : s.broker.queues subscriber = payload :: rest) :
    ∃ t, (P.careful F ι).Leads Settles s t ∧ Ready subscriber t ∧
      t.broker.accepted = s.broker.accepted ∧
      t.broker.queues = Function.update s.broker.queues subscriber rest ∧
      t.digests = shownAfter P subscriber s.digests payload := by
  obtain ⟨j, l, hlink, hl, hworks⟩ := h.link
  obtain ⟨tag, b, hreceive, hserved⟩ := Broker.serve_spec h.calm hl hworks hqueue
  let s₁ : Newsroom ι := { s with broker := s.broker.deliver j 0 }
  have hdelivers : (P.careful F ι).Leads Settles s s₁ :=
    leads_settles (e := .delivers j 0) trivial
      ⟨fun _ _ _ _ => ⟨rfl, fun l' hl' _ => (h.calm l' hl').1⟩, trivial⟩
  have hreceive₁ : receiveFrom (s₁.link subscriber) s₁.broker = some (j, tag, payload, b) := by
    have hlink₁ : s₁.link subscriber = some j := by
      rw [← hlink]
      cases subscriber <;> rfl
    rw [receiveFrom, hlink₁, Option.bind_some, hreceive]
    rfl
  obtain ⟨e, how, hsettles, hcareful, hfinal, hbroker, hlinks, hdigests⟩ :=
    exists_receives (P := P) hreceive₁
  obtain ⟨hcalm, ⟨k, hk, hkworks⟩, haccepted, hqueues⟩ := hserved [] how hfinal
  have hprocesses : (P.careful F ι).Leads Settles (s₁.after P e)
      ((s₁.after P e).after P (.processes j)) :=
    leads_settles trivial ⟨fun _ => trivial, trivial⟩
  have hlast : ((s₁.after P e).after P (.processes j)).broker =
      Broker.process j (b.send j (Broker.answer [] tag how) 1) :=
    congrArg (Broker.process j) hbroker
  refine ⟨_, hdelivers.trans ((leads_settles hsettles hcareful).trans hprocesses),
    ⟨?_, j, k, ?_, ?_, hkworks⟩, ?_, ?_, hdigests⟩
  · rw [hlast]
    exact hcalm
  · have hsame : ((s₁.after P e).after P (.processes j)).link subscriber =
        (s₁.after P e).link subscriber := by cases subscriber <;> rfl
    rw [hsame, hlinks, ← hlink]
    cases subscriber <;> rfl
  · rw [hlast]
    exact hk
  · rw [hlast]
    exact haccepted.trans (List.append_nil _)
  · rw [hlast]
    exact funext fun q => (hqueues q).trans (List.append_nil _)

/-- **A subscriber serves its whole queue.** -/
theorem leads_served {s : Newsroom ι} {subscriber : Subscriber} (h : Ready subscriber s) :
    ∃ t, (P.careful F ι).Leads Settles s t ∧ t.broker.Calm ∧
      t.broker.accepted = s.broker.accepted ∧
      t.broker.queues = Function.update s.broker.queues subscriber [] ∧
      t.digests = (s.broker.queues subscriber).foldl (shownAfter P subscriber) s.digests := by
  let Q (t : Newsroom ι) : Prop := Ready subscriber t ∧ t.broker.accepted = s.broker.accepted ∧
    t.broker.queues =
      Function.update s.broker.queues subscriber (t.broker.queues subscriber) ∧
    (t.broker.queues subscriber).foldl (shownAfter P subscriber) t.digests =
      (s.broker.queues subscriber).foldl (shownAfter P subscriber) s.digests
  have hstep : ∀ t, Q t → t.broker.queues subscriber ≠ [] →
      ∃ u, (P.careful F ι).Leads Settles t u ∧ Q u ∧
        (u.broker.queues subscriber).length < (t.broker.queues subscriber).length := by
    rintro t ⟨hready, haccepted, hqueues, hshown⟩ hmore
    obtain ⟨payload, rest, hqueue⟩ := List.exists_cons_of_ne_nil hmore
    obtain ⟨u, hleads, hready', haccepted', hqueues', hdigests⟩ :=
      leads_serves (P := P) (F := F) hready hqueue
    have hrest : u.broker.queues subscriber = rest := by rw [hqueues', Function.update_self]
    refine ⟨u, hleads, ⟨hready', haccepted'.trans haccepted, ?_, ?_⟩, ?_⟩
    · rw [hrest, hqueues', hqueues, Function.update_idem]
    · rw [hrest, hdigests, ← hshown, hqueue, List.foldl_cons]
    · rw [hrest, hqueue]
      exact Nat.lt_succ_self _
  obtain ⟨t, hleads, ⟨hready, haccepted, hqueues, hshown⟩, hdone⟩ :=
    TransitionSystem.exists_leads_of_variant _ hstep
      ⟨h, rfl, (Function.update_eq_self _ _).symm, rfl⟩
  rw [hdone] at hqueues hshown
  exact ⟨t, hleads, hready.calm, haccepted, hqueues, hshown⟩

/-! ## All of them -/

/-- What the web service shows when it has served a queue. -/
theorem foldl_shownAfter (payloads : List Bytes) {digests : List DigestReadyMessage}
    (hsize : digests.take P.web.historySize.toNat = digests) :
    payloads.foldl (shownAfter P .digestWeb) digests =
      ((payloads.filterMap (P.setting.nlohmann.decode DigestReadyMessage.codec)).reverse ++
        digests).take P.web.historySize.toNat := by
  induction payloads generalizing digests with
  | nil => exact hsize.symm
  | cons payload payloads ih =>
    have hstep := digests_handleDigestReady ⟨P.setting.nlohmann, P.web⟩ payload digests
    rw [List.foldl_cons, shownAfter, hstep]
    cases hdecode : P.setting.nlohmann.decode DigestReadyMessage.codec payload with
    | none => exact (ih hsize).trans (by rw [List.filterMap_cons_none hdecode])
    | some digest =>
      refine (ih (by rw [List.take_take, Nat.min_self])).trans ?_
      rw [List.filterMap_cons_some hdecode, take_append_take, List.reverse_cons, List.append_assoc]
      rfl

/-- **The readers can catch up**, whatever has happened: every state leads, with no new digest and
no restart, to one in which nothing waits for either of them.  Every digest of the notifier's queue
is archived then, once and in order, and the web service shows what waited for it in front of what
it showed, as far as there is room. -/
theorem readers_catch_up {s : Newsroom ι} (h : (P.careful F ι).Reachable s) :
    ∃ t waiting, (P.careful F ι).Leads Settles s t ∧ t.broker.accepted = s.broker.accepted ∧
      (∀ queue, t.broker.queues queue = [] ∧ t.broker.outstanding queue = 0) ∧
      SameFiles t.files
        (archive P.setting.nlohmann P.notifier (s.broker.acceptedIn .digestNotifier)) ∧
      s.broker.acceptedIn .digestWeb = s.broker.removedFrom .digestWeb ++ waiting ∧
      t.digests = ((waiting.filterMap
        (P.setting.nlohmann.decode DigestReadyMessage.codec)).reverse ++ s.digests).take
          P.web.historySize.toNat := by
  obtain ⟨hcalm, hsame⟩ := Broker.calm_dropAll s.broker
  let s₁ : Newsroom ι := { s with broker := s.broker.dropUpTo s.broker.links.length }
  have hdrops : (P.careful F ι).Leads Settles s s₁ := leads_dropLinks _ s
  obtain ⟨s₂, hleads₂, hready₂, haccepted₂, hqueues₂, hdigests₂⟩ :=
    leads_ready (P := P) (F := F) (s := s₁) hcalm .digestNotifier
  obtain ⟨s₃, hleads₃, hcalm₃, haccepted₃, hqueues₃, hdigests₃⟩ :=
    leads_served (P := P) (F := F) hready₂
  obtain ⟨s₄, hleads₄, hready₄, haccepted₄, hqueues₄, hdigests₄⟩ :=
    leads_ready (P := P) (F := F) hcalm₃ .digestWeb
  obtain ⟨t, hleads₅, hcalm₅, haccepted₅, hqueues₅, hdigests₅⟩ :=
    leads_served (P := P) (F := F) hready₄
  have hleads : (P.careful F ι).Leads Settles s t :=
    hdrops.trans (hleads₂.trans (hleads₃.trans (hleads₄.trans hleads₅)))
  have haccepted : t.broker.accepted = s.broker.accepted := by
    rw [haccepted₅, haccepted₄, haccepted₃, haccepted₂]
    exact hsame
  have hqueues : ∀ queue, t.broker.queues queue = [] := by
    intro queue
    rw [hqueues₅, hqueues₄, hqueues₃]
    cases queue with
    | digestNotifier => rw [Function.update_of_ne (by simp), Function.update_self]
    | digestWeb => rw [Function.update_self]
  refine ⟨t, s₁.broker.queues .digestWeb, hleads, haccepted,
    fun queue => ⟨hqueues queue, hcalm₅.outstanding queue⟩, ?_, ?_, ?_⟩
  · -- nothing waits for the notifier, so all of it is taken
    obtain ⟨-, honce⟩ := (kept_of_reachable (h.leads hleads)).archived.order.finished
      (hqueues .digestNotifier) (hcalm₅.outstanding .digestNotifier)
    rw [Broker.acceptedIn, ← haccepted]
    exact sameFiles_archive_of_once honce
  · -- nothing is under way on the links that were dropped
    obtain ⟨log, hlogs⟩ := (kept_of_reachable (h.leads hdrops)).logged
    obtain ⟨hand, -, hhand, hsequence⟩ := hlogs.order.sequence
    obtain rfl : hand = [] :=
      (Multiset.coe_eq_zero hand).mp (hhand.symm.trans (hcalm.outstanding .digestWeb))
    have haccepted₁ : s₁.broker.acceptedIn .digestWeb = s.broker.acceptedIn .digestWeb :=
      congrArg (Broker.ofQueue Subscriber.digestWeb) hsame
    have hremoved₁ : s₁.broker.removedFrom .digestWeb = s.broker.removedFrom .digestWeb :=
      congrArg (Broker.ofQueue Subscriber.digestWeb)
        (Broker.removed_dropUpTo s.broker.links.length s.broker)
    rw [← haccepted₁, ← hremoved₁, hsequence, List.nil_append]
  · have hnotifier : s₃.digests = s₂.digests := hdigests₃.trans (List.foldl_fixed _)
    have hwaiting : s₄.broker.queues .digestWeb = s₁.broker.queues .digestWeb := by
      rw [hqueues₄, hqueues₃, Function.update_of_ne (by simp), hqueues₂]
    rw [hdigests₅, hwaiting, hdigests₄, hnotifier, hdigests₂]
    exact foldl_shownAfter _ (kept_of_reachable h).room

/-! ## Two readers that are behind -/

/-- Both queues are bound and get the digest.  The notifier writes its first file and cannot open
the second one; the web service has not even connected. -/
def readersBehind : List (NewsEvent Unit) :=
  [.binds .digestNotifier, .binds .digestWeb, .exchanges, .connects .digestNotifier,
    .delivers 0 0, .notifierReceives goodWrite { goodWrite with opens := false } 0]

/-- Events that can happen make a careful run, if the digests are handed out in turn and nothing
stays in a buffer. -/
theorem run_careful {es : List (NewsEvent Unit)}
    (happens : TransitionSystem.EnabledAll CanHappen (Newsroom.after smallPress)
      (pagePublished.foldl (Newsroom.after smallPress) {}) es)
    (hkept : ∀ e ∈ pagePublished ++ es, ∀ first second through,
      e = .notifierReceives first second through → first.kept = none ∧ second.kept = none)
    (hturn : ∀ m ∈ TransitionSystem.moves (Newsroom.after smallPress) {} (pagePublished ++ es),
      HandedInTurn .digestNotifier m ∧ HandedInTurn .digestWeb m) :
    (smallPress.careful onePage Unit).Run
      (TransitionSystem.moves (Newsroom.after smallPress) {} (pagePublished ++ es))
      ((pagePublished ++ es).foldl (Newsroom.after smallPress) {}) := by
  refine (run_pagePublished happens).guarded fun m hm => ⟨fun queue => ?_, ?_⟩
  · cases queue
    · exact (hturn m hm).1
    · exact (hturn m hm).2
  · exact keepsBytes_of_kept (hkept m.event (TransitionSystem.event_mem_of_mem_moves hm))

theorem run_readersBehind : (smallPress.careful onePage Unit).Run
    (TransitionSystem.moves (Newsroom.after smallPress) {} (pagePublished ++ readersBehind))
    ((pagePublished ++ readersBehind).foldl (Newsroom.after smallPress) {}) := by
  refine run_careful (.of_forall (fun e he s => ?_) _) ?_ (by decide +kernel)
  · simp only [readersBehind, List.mem_cons, List.not_mem_nil, or_false] at he
    rcases he with rfl | rfl | rfl | rfl | rfl | rfl <;> exact ⟨trivial, trivial⟩
  · simp only [pagePublished, pageStored, readersBehind, List.map_cons, List.map_nil,
      List.cons_append, List.nil_append, List.forall_mem_cons]
    simp [goodWrite]

/-- The notifier is between its two files and the web service shows nothing, and still both can
catch up. -/
theorem readers_catch_up_readersBehind :
    let s := (pagePublished ++ readersBehind).foldl (Newsroom.after smallPress) {}
    (s.files (utf8 "/data/digests/latest.md") = none ∧ s.digests = [] ∧
      (s.broker.queues .digestWeb).length = 1) ∧
    ∃ t waiting, (smallPress.careful onePage Unit).Leads Settles s t ∧
      t.broker.accepted = s.broker.accepted ∧
      (∀ queue, t.broker.queues queue = [] ∧ t.broker.outstanding queue = 0) ∧
      SameFiles t.files (archive smallPress.setting.nlohmann smallPress.notifier
        (s.broker.acceptedIn .digestNotifier)) ∧
      s.broker.acceptedIn .digestWeb = s.broker.removedFrom .digestWeb ++ waiting ∧
      t.digests = ((waiting.filterMap
        (smallPress.setting.nlohmann.decode DigestReadyMessage.codec)).reverse ++ s.digests).take
          smallPress.web.historySize.toNat :=
  ⟨by decide +kernel, readers_catch_up run_readersBehind.reachable⟩

end Pipeline
end HabrDigest
