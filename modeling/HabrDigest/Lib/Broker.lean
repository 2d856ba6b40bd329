import Mathlib.Data.List.Basic
import Mathlib.Logic.Function.Basic

/-!
# A message broker

Queues, and the connections of their consumers.  A connection, a `Link`, carries deliveries to
its client and frames back to the broker, both in the order in which they were sent; a
delivery is known by its place among the deliveries of the link, which is its tag.

What is assumed of a broker is built into the operations.  It processes the frames of one link
in order (`process`), one frame at a time and interleaved with everything else.  When a link
is dropped, the frames that were not processed are lost --- a suffix of what was sent --- and
every delivery of it that was not settled goes back to its queue (`drop`).  A link may also
stop taking frames long before the broker notices (`sever`, and a `send` of which only the
first frames get through).  Nothing else removes a message: one is gone for good only when an
`ack` or a `reject` is processed.

## Publish before you settle

`accepted` and `removed` are logs that no broker keeps: what was ever put into a queue by
publishing, and what is gone for good.  A `duty` says what has to be in the log of accepted
messages before a message may be gone.  `Sound` says that it is, and that it will be: the duty
of every settlement that is still under way is met by what was accepted already and by what is
published before it on the same link.  Every operation keeps this; the client's part is
`Sound.answer`, to send the settlement of a delivery behind whatever its duty asks for.

## What is in the queues

Messages are moved and never changed, so what holds of everything that is published holds of
everything that is delivered: `Carries` is kept by every operation, for any property of
messages.
-/

namespace HabrDigest

/-- How a delivery is settled. -/
inductive Settlement where
  | ack
  | reject
  | requeue
  deriving DecidableEq, Repr

/-- A frame from a client to the broker. -/
inductive Frame (κ π : Type) where
  | publish (queue : κ) (payload : π)
  | settle (tag : ℕ) (how : Settlement)
  deriving DecidableEq, Repr

/-- The connection of a consumer. -/
structure Link (κ π : Type) where
  /-- The queue it consumes. -/
  source : κ
  /-- The broker has not dropped it. -/
  opened : Bool := true
  /-- Frames of the client still get through. -/
  writable : Bool := true
  /-- Everything that was ever delivered, by tag. -/
  deliveries : List π := []
  /-- The tags that are not settled. -/
  unacked : List ℕ := []
  /-- The tags that the client has not received yet. -/
  inbox : List ℕ := []
  /-- The frames that the broker has not processed yet. -/
  frames : List (Frame κ π) := []

/-- A message is sent down a link. -/
def Link.deliver {κ π : Type} (payload : π) (l : Link κ π) : Link κ π :=
  { l with
    deliveries := l.deliveries ++ [payload]
    unacked := l.unacked ++ [l.deliveries.length]
    inbox := l.inbox ++ [l.deliveries.length] }

/-- The broker. -/
structure Broker (κ π : Type) where
  queues : κ → List π := fun _ => []
  links : List (Link κ π) := []
  /-- What was ever published. -/
  accepted : List (κ × π) := []
  /-- What was acknowledged, or rejected and not requeued. -/
  removed : List (κ × π) := []

namespace Broker

variable {κ π : Type}

/-! ## What a client does -/

/-- A consumer of a queue connects; its link is the last one. -/
def connect (source : κ) (b : Broker κ π) : Broker κ π :=
  { b with links := b.links ++ [{ source := source }] }

/-- A link has changed. -/
def setLink (i : ℕ) (l : Link κ π) (b : Broker κ π) : Broker κ π :=
  { b with links := b.links.set i l }

/-- The client receives its next delivery: the tag and the payload. -/
def receive (i : ℕ) (b : Broker κ π) : Option (ℕ × π × Broker κ π) :=
  match b.links[i]? with
  | none => none
  | some l =>
    match l.inbox with
    | [] => none
    | tag :: rest =>
      (l.deliveries[tag]?).map fun payload => (tag, payload, b.setLink i { l with inbox := rest })

/-- The client sends frames, of which so many get through; when that is not all of them, the
link takes no more. -/
def send (i : ℕ) (frames : List (Frame κ π)) (through : ℕ) (b : Broker κ π) : Broker κ π :=
  match b.links[i]? with
  | none => b
  | some l =>
    if l.writable then
      b.setLink i
        { l with
          frames := l.frames ++ frames.take through
          writable := frames.length ≤ through }
    else b

/-- The frames of an answer to a delivery: what is published, and then the settlement. -/
def answer (messages : List (κ × π)) (tag : ℕ) (how : Settlement) : List (Frame κ π) :=
  (messages.map fun m => .publish m.1 m.2) ++ [.settle tag how]

/-- A link takes no more frames of its client. -/
def sever (i : ℕ) (b : Broker κ π) : Broker κ π :=
  match b.links[i]? with
  | none => b
  | some l => b.setLink i { l with writable := false }

/-! ## What the broker does -/

section Operations

variable [DecidableEq κ]

/-- A message is published. -/
def arrive (queue : κ) (payload : π) (b : Broker κ π) : Broker κ π :=
  { b with
    queues := Function.update b.queues queue (b.queues queue ++ [payload])
    accepted := b.accepted ++ [(queue, payload)] }

/-- A message of the queue, at a position, is delivered. -/
def deliver (i k : ℕ) (b : Broker κ π) : Broker κ π :=
  match b.links[i]? with
  | none => b
  | some l =>
    match l.opened, (b.queues l.source)[k]? with
    | true, some payload =>
      { b.setLink i (l.deliver payload) with
        queues := Function.update b.queues l.source ((b.queues l.source).eraseIdx k) }
    | _, _ => b

/-- A message that was delivered is settled. -/
def settled (queue : κ) (payload : π) (how : Settlement) (b : Broker κ π) : Broker κ π :=
  match how with
  | .ack | .reject => { b with removed := b.removed ++ [(queue, payload)] }
  | .requeue => { b with queues := Function.update b.queues queue (payload :: b.queues queue) }

/-- The next frame of a link is processed.  A settlement of a delivery that is settled already
does nothing. -/
def process (i : ℕ) (b : Broker κ π) : Broker κ π :=
  match b.links[i]? with
  | none => b
  | some l =>
    match l.opened, l.frames with
    | true, .publish queue payload :: rest =>
      (b.setLink i { l with frames := rest }).arrive queue payload
    | true, .settle tag how :: rest =>
      let b := b.setLink i { l with frames := rest, unacked := l.unacked.erase tag }
      match decide (tag ∈ l.unacked), l.deliveries[tag]? with
      | true, some payload => b.settled l.source payload how
      | _, _ => b
    | _, _ => b

/-- A link is dropped: its frames are lost, and what is not settled goes back to its queue. -/
def drop (i : ℕ) (b : Broker κ π) : Broker κ π :=
  match b.links[i]? with
  | none => b
  | some l =>
    { b.setLink i { l with opened := false, writable := false, unacked := [], frames := [] } with
      queues := Function.update b.queues l.source
        ((l.unacked.filterMap fun tag => l.deliveries[tag]?) ++ b.queues l.source) }

end Operations

/-! ## The queues of the links -/

/-- The queue that each link consumes. -/
def sources (b : Broker κ π) : List κ := b.links.map Link.source

theorem sources_setLink {i : ℕ} {l l' : Link κ π} {b : Broker κ π} (hl : b.links[i]? = some l)
    (h : l'.source = l.source) : (b.setLink i l').sources = b.sources := by
  obtain ⟨hi, rfl⟩ := List.getElem?_eq_some_iff.mp hl
  refine List.ext_getElem? fun j => ?_
  simp only [sources, setLink, List.getElem?_map, List.getElem?_set]
  by_cases hij : i = j
  · subst hij
    simp [hi, h]
  · simp [hij]

theorem sources_connect (source : κ) (b : Broker κ π) :
    (b.connect source).sources = b.sources ++ [source] := by
  simp [sources, connect]

theorem sources_sever (i : ℕ) (b : Broker κ π) : (b.sever i).sources = b.sources := by
  unfold sever
  split
  · rfl
  · rename_i l hl
    exact sources_setLink hl rfl

theorem sources_send (i : ℕ) (frames : List (Frame κ π)) (through : ℕ) (b : Broker κ π) :
    (b.send i frames through).sources = b.sources := by
  unfold send
  split
  · rfl
  · rename_i l hl
    split
    · exact sources_setLink hl rfl
    · rfl

/-- What a delivery is: the next tag of a link, and the payload that was sent with it. -/
theorem receive_eq_some {i tag : ℕ} {payload : π} {b b' : Broker κ π}
    (h : b.receive i = some (tag, payload, b')) :
    ∃ l rest, b.links[i]? = some l ∧ l.deliveries[tag]? = some payload ∧
      b' = b.setLink i { l with inbox := rest } := by
  unfold receive at h
  cases hl : b.links[i]? with
  | none => simp [hl] at h
  | some l =>
    rw [hl] at h
    dsimp only at h
    cases hinbox : l.inbox with
    | nil => simp [hinbox] at h
    | cons first rest =>
      rw [hinbox] at h
      obtain ⟨p, hp, heq⟩ := Option.map_eq_some_iff.mp h
      simp only [Prod.mk.injEq] at heq
      obtain ⟨rfl, rfl, rfl⟩ := heq
      exact ⟨l, rest, rfl, hp, rfl⟩

theorem sources_receive {i tag : ℕ} {payload : π} {b b' : Broker κ π}
    (h : b.receive i = some (tag, payload, b')) : b'.sources = b.sources := by
  obtain ⟨l, rest, hl, -, rfl⟩ := receive_eq_some h
  exact sources_setLink hl rfl

section Operations

variable [DecidableEq κ]

theorem sources_deliver (i k : ℕ) (b : Broker κ π) : (b.deliver i k).sources = b.sources := by
  unfold deliver
  split
  · rfl
  · rename_i l hl
    split
    · exact sources_setLink hl rfl
    · rfl

theorem sources_settled (queue : κ) (payload : π) (how : Settlement) (b : Broker κ π) :
    (b.settled queue payload how).sources = b.sources := by
  cases how <;> rfl

theorem sources_process (i : ℕ) (b : Broker κ π) : (b.process i).sources = b.sources := by
  unfold process
  split
  · rfl
  · rename_i l hl
    split
    · exact sources_setLink hl rfl
    · dsimp only
      split
      · rw [sources_settled]
        exact sources_setLink hl rfl
      · exact sources_setLink hl rfl
    · rfl

theorem sources_drop (i : ℕ) (b : Broker κ π) : (b.drop i).sources = b.sources := by
  unfold drop
  split
  · rfl
  · rename_i l hl
    exact sources_setLink hl rfl

end Operations

/-! ## Soundness -/

/-- What the frames publish. -/
def published (frames : List (Frame κ π)) : List (κ × π) :=
  frames.filterMap fun
    | .publish queue payload => some (queue, payload)
    | .settle _ _ => none

theorem published_append (frames frames' : List (Frame κ π)) :
    published (frames ++ frames') = published frames ++ published frames' :=
  List.filterMap_append

theorem published_publishes (messages : List (κ × π)) :
    published (messages.map fun m => Frame.publish m.1 m.2) = messages := by
  induction messages with
  | nil => rfl
  | cons m messages ih => exact congrArg (m :: ·) ih

/-- A duty that more accepted messages do not undo. -/
def Monotone (duty : List (κ × π) → κ → π → Prop) : Prop :=
  ∀ log log' queue payload, log ⊆ log' → duty log queue payload → duty log' queue payload

/-- The duty of every settlement under way is met by what is in the log and what is published
before it. -/
structure LinkSound (duty : List (κ × π) → κ → π → Prop) (log : List (κ × π)) (l : Link κ π) :
    Prop where
  tags : ∀ tag how, .settle tag how ∈ l.frames → tag < l.deliveries.length
  settles : ∀ before tag how after, l.frames = before ++ .settle tag how :: after →
    how ≠ .requeue → ∀ payload, l.deliveries[tag]? = some payload →
      duty (log ++ published before) l.source payload

/-- What is gone for good has its duty met, and what is about to go will have. -/
structure Sound (duty : List (κ × π) → κ → π → Prop) (b : Broker κ π) : Prop where
  removed : ∀ queue payload, (queue, payload) ∈ b.removed → duty b.accepted queue payload
  links : ∀ l ∈ b.links, LinkSound duty b.accepted l

variable {duty : List (κ × π) → κ → π → Prop}

/-- A link without frames is sound. -/
theorem LinkSound.of_frames_eq_nil {log : List (κ × π)} {l : Link κ π} (h : l.frames = []) :
    LinkSound duty log l :=
  ⟨fun _ _ hmem => absurd hmem (by simp [h]),
    fun before tag how after heq => absurd (h ▸ heq) (by simp)⟩

theorem LinkSound.imp {duty' : List (κ × π) → κ → π → Prop} {log log' : List (κ × π)}
    {l : Link κ π} (h : LinkSound duty log l)
    (hduty : ∀ before queue payload, duty (log ++ before) queue payload →
      duty' (log' ++ before) queue payload) : LinkSound duty' log' l :=
  ⟨h.tags, fun before tag how after heq hhow payload hpayload =>
    hduty _ _ _ (h.settles before tag how after heq hhow payload hpayload)⟩

/-- A link without its first frame, which published something. -/
theorem LinkSound.of_publish {log : List (κ × π)} {l : Link κ π} (h : LinkSound duty log l)
    {queue : κ} {payload : π} {rest : List (Frame κ π)}
    (hframes : l.frames = .publish queue payload :: rest) :
    LinkSound duty (log ++ [(queue, payload)]) { l with frames := rest } := by
  refine ⟨fun tag how hmem => h.tags tag how (by rw [hframes]; exact List.mem_cons_of_mem _ hmem),
    fun before tag how after heq hhow p hp => ?_⟩
  have hrest : rest = before ++ .settle tag how :: after := heq
  have hduty := h.settles (.publish queue payload :: before) tag how after
    (by rw [hframes, hrest, List.cons_append]) hhow p hp
  rw [List.append_assoc]
  exact hduty

/-- A link without its first frame, which settled something. -/
theorem LinkSound.of_settle {log : List (κ × π)} {l : Link κ π} (h : LinkSound duty log l)
    {tag : ℕ} {how : Settlement} {rest : List (Frame κ π)}
    (hframes : l.frames = .settle tag how :: rest) (unacked : List ℕ) :
    LinkSound duty log { l with frames := rest, unacked := unacked } := by
  refine ⟨fun t w hmem => h.tags t w (by rw [hframes]; exact List.mem_cons_of_mem _ hmem),
    fun before t w after heq hhow p hp => ?_⟩
  have hrest : rest = before ++ .settle t w :: after := heq
  exact h.settles (.settle tag how :: before) t w after
    (by rw [hframes, hrest, List.cons_append]) hhow p hp

theorem Sound.empty : Sound duty ({} : Broker κ π) :=
  ⟨fun _ _ h => absurd h (by simp), fun _ h => absurd h (by simp)⟩

/-- A weaker duty is met as well. -/
theorem Sound.imp {duty' : List (κ × π) → κ → π → Prop} {b : Broker κ π} (h : Sound duty b)
    (hduty : ∀ log queue payload, duty log queue payload → duty' log queue payload) :
    Sound duty' b :=
  ⟨fun _ _ hmem => hduty _ _ _ (h.removed _ _ hmem),
    fun l hl => (h.links l hl).imp fun _ _ _ => hduty _ _ _⟩

theorem Sound.setLink {b : Broker κ π} (h : Sound duty b) (i : ℕ) {l : Link κ π}
    (hl : LinkSound duty b.accepted l) : Sound duty (b.setLink i l) := by
  refine ⟨h.removed, fun l' hl' => ?_⟩
  rcases List.mem_or_eq_of_mem_set hl' with hmem | rfl
  · exact h.links l' hmem
  · exact hl

theorem Sound.connect {b : Broker κ π} (h : Sound duty b) (source : κ) :
    Sound duty (b.connect source) := by
  refine ⟨h.removed, fun l hl => ?_⟩
  rcases List.mem_append.mp hl with hmem | hnew
  · exact h.links l hmem
  · obtain rfl := List.mem_singleton.mp hnew
    exact .of_frames_eq_nil rfl

theorem Sound.sever {b : Broker κ π} (h : Sound duty b) (i : ℕ) : Sound duty (b.sever i) := by
  unfold Broker.sever
  split
  · exact h
  · rename_i l hl
    have hlink := h.links l (List.mem_of_getElem? hl)
    exact h.setLink i ⟨hlink.tags, hlink.settles⟩

/-! ### What the broker does is sound -/

section Operations

variable [DecidableEq κ]

theorem Sound.arrive (hmono : Monotone duty) {b : Broker κ π} (h : Sound duty b) (queue : κ)
    (payload : π) : Sound duty (b.arrive queue payload) := by
  have hsub : b.accepted ⊆ b.accepted ++ [(queue, payload)] := List.subset_append_left _ _
  refine ⟨fun q p hmem => hmono _ _ _ _ hsub (h.removed q p hmem), fun l hl => ?_⟩
  refine (h.links l hl).imp fun before q p => hmono _ _ _ _ ?_
  exact List.append_subset.mpr ⟨fun _ hm => List.mem_append_left _ (hsub hm),
    List.subset_append_right _ _⟩

theorem Sound.deliver {b : Broker κ π} (h : Sound duty b) (i k : ℕ) :
    Sound duty (b.deliver i k) := by
  unfold Broker.deliver
  split
  · exact h
  · rename_i l hl
    split
    · rename_i payload _ _
      have hlink := h.links l (List.mem_of_getElem? hl)
      have hdelivered : LinkSound duty b.accepted (l.deliver payload) := by
        refine ⟨fun tag how hmem => ?_, fun before tag how after heq hhow p hp => ?_⟩
        · have htag := hlink.tags tag how hmem
          simp only [Link.deliver, List.length_append]
          omega
        · have hframes : l.frames = before ++ .settle tag how :: after := heq
          have htag := hlink.tags tag how (by simp [hframes])
          refine hlink.settles before tag how after hframes hhow p ?_
          rwa [Link.deliver, List.getElem?_append_left htag] at hp
      exact ⟨(h.setLink i hdelivered).removed, (h.setLink i hdelivered).links⟩
    · exact h

theorem Sound.drop {b : Broker κ π} (h : Sound duty b) (i : ℕ) : Sound duty (b.drop i) := by
  unfold Broker.drop
  split
  · exact h
  · rename_i l hl
    have hdropped : LinkSound duty b.accepted
        { l with opened := false, writable := false, unacked := [], frames := [] } :=
      .of_frames_eq_nil rfl
    exact ⟨(h.setLink i hdropped).removed, (h.setLink i hdropped).links⟩

/-- What is gone for good next has its duty met. -/
theorem Sound.settled {b : Broker κ π} (h : Sound duty b) {queue : κ} {payload : π}
    {how : Settlement} (hduty : how ≠ .requeue → duty b.accepted queue payload) :
    Sound duty (b.settled queue payload how) := by
  have hremoved (hhow : how ≠ .requeue) : ∀ q p,
      (q, p) ∈ b.removed ++ [(queue, payload)] → duty b.accepted q p := by
    intro q p hmem
    rcases List.mem_append.mp hmem with hold | hnew
    · exact h.removed q p hold
    · obtain ⟨rfl, rfl⟩ := Prod.mk.inj (List.mem_singleton.mp hnew)
      exact hduty hhow
  cases how with
  | requeue => exact ⟨h.removed, h.links⟩
  | ack => exact ⟨hremoved (by simp), h.links⟩
  | reject => exact ⟨hremoved (by simp), h.links⟩

/-- **Processing a frame keeps soundness**: what is published first is in the log when the
settlement behind it is processed. -/
theorem Sound.process (hmono : Monotone duty) {b : Broker κ π} (h : Sound duty b) (i : ℕ) :
    Sound duty (b.process i) := by
  unfold Broker.process
  split
  · exact h
  rename_i l hl
  have hlink := h.links l (List.mem_of_getElem? hl)
  split
  · rename_i queue payload rest _ hframes
    exact (h.arrive hmono queue payload).setLink i (hlink.of_publish hframes)
  · rename_i tag how rest _ hframes
    have hset := h.setLink i (hlink.of_settle hframes (l.unacked.erase tag))
    dsimp only
    split
    · rename_i p _ hp
      refine hset.settled fun hhow => ?_
      have hduty := hlink.settles [] tag how rest hframes hhow p hp
      rwa [published, List.filterMap_nil, List.append_nil] at hduty
    · exact hset
  · exact h

end Operations

/-! ### What the client has to do -/

/-- Where the settlement of an answer stands in any part of the answer that gets through. -/
theorem of_take_answer {messages : List (κ × π)} {tag : ℕ} {how : Settlement} {through : ℕ}
    {before : List (Frame κ π)} {t : ℕ} {w : Settlement} {after : List (Frame κ π)}
    (h : (answer messages tag how).take through = before ++ .settle t w :: after) :
    before = (messages.map fun m => .publish m.1 m.2) ∧ t = tag ∧ w = how := by
  unfold answer at h
  induction messages generalizing through before with
  | nil =>
    cases through with
    | zero => simp at h
    | succ n =>
      cases before with
      | nil =>
        simp only [List.map_nil, List.nil_append, List.take_succ_cons, List.take_nil,
          List.cons.injEq, Frame.settle.injEq] at h
        exact ⟨rfl, h.1.1.symm, h.1.2.symm⟩
      | cons f before => simp at h
  | cons m messages ih =>
    cases through with
    | zero => simp at h
    | succ n =>
      cases before with
      | nil => simp at h
      | cons f before =>
        rw [List.map_cons, List.cons_append, List.take_succ_cons, List.cons_append] at h
        obtain ⟨hf, hrest⟩ := List.cons.inj h
        obtain ⟨rfl, ht, hw⟩ := ih hrest
        exact ⟨by rw [← hf, List.map_cons], ht, hw⟩

/-- Where an element of a concatenation stands. -/
theorem append_eq_append_cons {α : Type} {as bs before after : List α} {x : α}
    (h : as ++ bs = before ++ x :: after) :
    (∃ rest, as = before ++ x :: rest) ∨ ∃ mid, before = as ++ mid ∧ bs = mid ++ x :: after := by
  rcases List.append_eq_append_iff.mp h with ⟨mid, hbefore, hbs⟩ | ⟨mid, has, hmid⟩
  · exact Or.inr ⟨mid, hbefore, hbs⟩
  · cases mid with
    | nil => exact Or.inr ⟨[], by simpa using has.symm, by simpa using hmid.symm⟩
    | cons y mid =>
      obtain ⟨rfl, -⟩ := List.cons.inj hmid
      exact Or.inl ⟨mid, has⟩

/-- **An answer keeps soundness** if what it publishes meets the duty of the delivery, however
much of it gets through. -/
theorem Sound.answer (hmono : Monotone duty) {b b' : Broker κ π} (h : Sound duty b)
    {i tag : ℕ} {payload : π} (hreceive : b.receive i = some (tag, payload, b'))
    {messages : List (κ × π)} {how : Settlement}
    (hduty : ∀ source, b.sources[i]? = some source → how ≠ .requeue →
      duty (b.accepted ++ messages) source payload) (through : ℕ) :
    Sound duty (b'.send i (Broker.answer messages tag how) through) := by
  obtain ⟨l, rest, hl, hpayload, rfl⟩ := receive_eq_some hreceive
  have hlink := h.links l (List.mem_of_getElem? hl)
  have hset : Sound duty (b.setLink i { l with inbox := rest }) :=
    h.setLink i ⟨hlink.tags, hlink.settles⟩
  have hduty := hduty l.source (by rw [sources, List.getElem?_map, hl, Option.map_some])
  unfold send
  split
  · exact hset
  rename_i l' hl'
  obtain rfl : { l with inbox := rest } = l' := by
    rw [Broker.setLink, List.getElem?_set_self (List.getElem?_eq_some_iff.mp hl).1] at hl'
    exact Option.some.inj hl'
  split
  · refine hset.setLink i ⟨fun t w hmem => ?_, fun before t w after heq hhow p hp => ?_⟩
    · rcases List.mem_append.mp hmem with hold | hnew
      · exact hlink.tags t w hold
      · obtain ⟨before, after, heq⟩ := List.append_of_mem hnew
        obtain ⟨-, rfl, -⟩ := of_take_answer heq
        exact (List.getElem?_eq_some_iff.mp hpayload).1
    · -- the settlement is one that was sent before, or the one of this answer
      rcases append_eq_append_cons heq with ⟨rest', hframes⟩ | ⟨mid, rfl, hanswer⟩
      · exact hlink.settles before t w rest' hframes hhow p hp
      · obtain ⟨rfl, rfl, rfl⟩ := of_take_answer hanswer
        obtain rfl := Option.some.inj (hpayload.symm.trans hp)
        refine hmono _ _ _ _ ?_ (hduty hhow)
        rw [published_append, published_publishes]
        exact List.append_subset.mpr ⟨List.subset_append_left _ _,
          fun _ hm => List.mem_append_right _ (List.mem_append_right _ hm)⟩
  · exact hset

/-! ## What the messages are -/

/-- Every message on a link has a property. -/
structure LinkCarries (Q : κ → π → Prop) (l : Link κ π) : Prop where
  deliveries : ∀ p ∈ l.deliveries, Q l.source p
  frames : ∀ queue p, .publish queue p ∈ l.frames → Q queue p

/-- Every message in a queue or on a link has a property. -/
structure Carries (Q : κ → π → Prop) (b : Broker κ π) : Prop where
  queues : ∀ queue, ∀ p ∈ b.queues queue, Q queue p
  links : ∀ l ∈ b.links, LinkCarries Q l

variable {Q : κ → π → Prop}

theorem Carries.empty : Carries Q ({} : Broker κ π) :=
  ⟨fun _ _ h => absurd h (by simp), fun _ h => absurd h (by simp)⟩

theorem Carries.setLink {b : Broker κ π} (h : Carries Q b) (i : ℕ) {l : Link κ π}
    (hl : LinkCarries Q l) : Carries Q (b.setLink i l) := by
  refine ⟨h.queues, fun l' hl' => ?_⟩
  rcases List.mem_or_eq_of_mem_set hl' with hmem | rfl
  · exact h.links l' hmem
  · exact hl

theorem Carries.connect {b : Broker κ π} (h : Carries Q b) (source : κ) :
    Carries Q (b.connect source) := by
  refine ⟨h.queues, fun l hl => ?_⟩
  rcases List.mem_append.mp hl with hmem | hnew
  · exact h.links l hmem
  · obtain rfl := List.mem_singleton.mp hnew
    exact ⟨fun _ hp => absurd hp (by simp), fun _ _ hp => absurd hp (by simp)⟩

theorem Carries.sever {b : Broker κ π} (h : Carries Q b) (i : ℕ) : Carries Q (b.sever i) := by
  unfold Broker.sever
  split
  · exact h
  · rename_i l hl
    have hlink := h.links l (List.mem_of_getElem? hl)
    exact h.setLink i ⟨hlink.deliveries, hlink.frames⟩

/-- **What a client receives** has the property of its queue. -/
theorem Carries.receive {b b' : Broker κ π} (h : Carries Q b) {i tag : ℕ} {payload : π}
    (hreceive : b.receive i = some (tag, payload, b')) :
    Carries Q b' ∧ ∀ source, b.sources[i]? = some source → Q source payload := by
  obtain ⟨l, rest, hl, hpayload, rfl⟩ := receive_eq_some hreceive
  have hlink := h.links l (List.mem_of_getElem? hl)
  refine ⟨h.setLink i ⟨hlink.deliveries, hlink.frames⟩, fun source hsource => ?_⟩
  rw [sources, List.getElem?_map, hl, Option.map_some, Option.some.injEq] at hsource
  exact hsource ▸ hlink.deliveries payload (List.mem_of_getElem? hpayload)

theorem Carries.send {b : Broker κ π} (h : Carries Q b) (i : ℕ) {frames : List (Frame κ π)}
    (hframes : ∀ queue p, .publish queue p ∈ frames → Q queue p) (through : ℕ) :
    Carries Q (b.send i frames through) := by
  unfold Broker.send
  split
  · exact h
  rename_i l hl
  have hlink := h.links l (List.mem_of_getElem? hl)
  split
  · refine h.setLink i ⟨hlink.deliveries, fun queue p hp => ?_⟩
    rcases List.mem_append.mp hp with hold | hnew
    · exact hlink.frames queue p hold
    · exact hframes queue p (List.mem_of_mem_take hnew)
  · exact h

/-- What an answer publishes. -/
theorem publish_mem_answer {messages : List (κ × π)} {tag : ℕ} {how : Settlement} {queue : κ}
    {p : π} (h : .publish queue p ∈ answer messages tag how) : (queue, p) ∈ messages := by
  rcases List.mem_append.mp h with hpublish | hsettle
  · obtain ⟨m, hm, heq⟩ := List.mem_map.mp hpublish
    obtain ⟨rfl, rfl⟩ := Frame.publish.inj heq
    exact hm
  · exact absurd hsettle (by simp)

section Operations

variable [DecidableEq κ]

/-- A queue that changes, to messages that have its property. -/
theorem Carries.update {b : Broker κ π} (h : Carries Q b) {queue : κ} {payloads : List π}
    (hpayloads : ∀ p ∈ payloads, Q queue p) :
    Carries Q { b with queues := Function.update b.queues queue payloads } := by
  refine ⟨fun q p hp => ?_, h.links⟩
  by_cases hq : q = queue
  · subst hq
    exact hpayloads p (by simpa using hp)
  · exact h.queues q p (by simpa [hq] using hp)

theorem Carries.arrive {b : Broker κ π} (h : Carries Q b) {queue : κ} {payload : π}
    (hpayload : Q queue payload) : Carries Q (b.arrive queue payload) := by
  have hupdate := h.update (List.forall_mem_append.mpr
    ⟨h.queues queue, List.forall_mem_singleton.mpr hpayload⟩)
  exact ⟨hupdate.queues, hupdate.links⟩

theorem Carries.deliver {b : Broker κ π} (h : Carries Q b) (i k : ℕ) :
    Carries Q (b.deliver i k) := by
  unfold Broker.deliver
  split
  · exact h
  rename_i l hl
  have hlink := h.links l (List.mem_of_getElem? hl)
  split
  · rename_i payload _ hpayload
    have hdelivered : LinkCarries Q (l.deliver payload) := by
      refine ⟨fun p hp => ?_, hlink.frames⟩
      rcases List.mem_append.mp hp with hold | hnew
      · exact hlink.deliveries p hold
      · rw [List.mem_singleton.mp hnew]
        exact h.queues _ _ (List.mem_of_getElem? hpayload)
    exact (h.setLink i hdelivered).update fun p hp =>
      h.queues _ p (List.mem_of_mem_eraseIdx hp)
  · exact h

theorem Carries.drop {b : Broker κ π} (h : Carries Q b) (i : ℕ) : Carries Q (b.drop i) := by
  unfold Broker.drop
  split
  · exact h
  rename_i l hl
  have hlink := h.links l (List.mem_of_getElem? hl)
  have hdropped : LinkCarries Q
      { l with opened := false, writable := false, unacked := [], frames := [] } :=
    ⟨hlink.deliveries, fun _ _ hp => absurd hp (by simp)⟩
  refine (h.setLink i hdropped).update fun p hp => ?_
  rcases List.mem_append.mp hp with hback | hqueued
  · obtain ⟨tag, -, htag⟩ := List.mem_filterMap.mp hback
    exact hlink.deliveries p (List.mem_of_getElem? htag)
  · exact h.queues _ p hqueued

theorem Carries.settled {b : Broker κ π} (h : Carries Q b) {queue : κ} {payload : π}
    (hpayload : Q queue payload) (how : Settlement) :
    Carries Q (b.settled queue payload how) := by
  cases how with
  | ack => exact ⟨h.queues, h.links⟩
  | reject => exact ⟨h.queues, h.links⟩
  | requeue =>
    exact h.update (List.forall_mem_cons.mpr ⟨hpayload, h.queues queue⟩)

theorem Carries.process {b : Broker κ π} (h : Carries Q b) (i : ℕ) :
    Carries Q (b.process i) := by
  unfold Broker.process
  split
  · exact h
  rename_i l hl
  have hlink := h.links l (List.mem_of_getElem? hl)
  split
  · rename_i queue payload rest _ hframes
    have hrest : LinkCarries Q { l with frames := rest } :=
      ⟨hlink.deliveries, fun q p hp =>
        hlink.frames q p (by rw [hframes]; exact List.mem_cons_of_mem _ hp)⟩
    exact (h.setLink i hrest).arrive
      (hlink.frames queue payload (by rw [hframes]; exact List.mem_cons_self ..))
  · rename_i tag how rest _ hframes
    have hrest : LinkCarries Q { l with frames := rest, unacked := l.unacked.erase tag } :=
      ⟨hlink.deliveries, fun q p hp =>
        hlink.frames q p (by rw [hframes]; exact List.mem_cons_of_mem _ hp)⟩
    have hset := h.setLink i hrest
    dsimp only
    split
    · rename_i p _ hp
      exact hset.settled (hlink.deliveries p (List.mem_of_getElem? hp)) how
    · exact hset
  · exact h

end Operations

end Broker
end HabrDigest
