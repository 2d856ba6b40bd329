import HabrDigest.Lib.Broker
import Mathlib.Algebra.BigOperators.Group.List.Basic
import Mathlib.Algebra.Order.Group.Multiset

/-!
# The accounts of a broker

Two things that a broker with manual acknowledgements owes to everybody.

The first is that its books balance.  What was ever published to a queue is in the queue, or
delivered and not settled, or gone for good, and each message in one of these places only
(`Balanced.balance`, an equation of multisets).  No operation can make or lose a message, however
deliveries, settlements, severed links and dropped ones interleave.

The second is about tags, and there the client has its part.  A broker closes the channel of a
client that settles a delivery twice, or one it never got.  A link is `Orderly` if the tags that
the client has still to receive and the tags whose settlement is under way are all different, and
all of them outstanding; so whatever settlement the broker processes next is one it is waiting for
(`Orderly.settles`).  The other direction is that nothing is forgotten: on a link that works, every
outstanding delivery is on its way to the client or its settlement is on the way back.  The client
keeps all this by answering each delivery once, on the link it came by (`Balanced.answer`).
-/

namespace HabrDigest

variable {κ π : Type}

namespace Link

/-- The messages that were delivered and are not settled. -/
def unsettled (l : Link κ π) : List π := l.unacked.filterMap fun tag => l.deliveries[tag]?

/-- The tags whose settlement is under way. -/
def settling (l : Link κ π) : List ℕ :=
  l.frames.filterMap fun
    | .publish _ _ => none
    | .settle tag _ => some tag

/-- The tags of a link are in order. -/
structure Orderly (l : Link κ π) : Prop where
  nodup : l.unacked.Nodup
  lt : ∀ tag ∈ l.unacked, tag < l.deliveries.length
  /-- No delivery is received again or settled twice. -/
  once : (l.settling ++ l.inbox).Nodup
  known : ∀ tag ∈ l.settling ++ l.inbox, tag < l.deliveries.length
  /-- What is received or settled next is outstanding. -/
  outstanding : l.opened = true → ∀ tag ∈ l.settling ++ l.inbox, tag ∈ l.unacked
  /-- What is outstanding will be received or is being settled. -/
  answered : l.opened = true → l.writable = true → ∀ tag ∈ l.unacked, tag ∈ l.settling ++ l.inbox

/-- **The settlement that the broker processes next is of an outstanding delivery.** -/
theorem Orderly.settles {l : Link κ π} (h : l.Orderly) (hopened : l.opened = true) {tag : ℕ}
    {how : Settlement} {rest : List (Frame κ π)} (hframes : l.frames = .settle tag how :: rest) :
    tag ∈ l.unacked ∧ ∃ payload, l.deliveries[tag]? = some payload := by
  have hmem : tag ∈ l.unacked :=
    h.outstanding hopened tag (by simp [settling, hframes])
  exact ⟨hmem, _, List.getElem?_eq_getElem (h.lt tag hmem)⟩

/-- A link that has just been opened. -/
theorem Orderly.new (source : κ) : Orderly ({ source := source } : Link κ π) where
  nodup := List.nodup_nil
  lt _ h := absurd h List.not_mem_nil
  once := List.nodup_nil
  known _ h := absurd h List.not_mem_nil
  outstanding _ _ h := absurd h List.not_mem_nil
  answered _ _ _ h := absurd h List.not_mem_nil

/-- A link that takes no more frames. -/
theorem Orderly.sever {l : Link κ π} (h : l.Orderly) : Orderly { l with writable := false } :=
  { h with answered := fun _ hwritable => absurd hwritable Bool.false_ne_true }

/-- A link that was dropped. -/
theorem Orderly.drop {l : Link κ π} (h : l.Orderly) :
    Orderly { l with opened := false, writable := false, unacked := [], frames := [] } where
  nodup := List.nodup_nil
  lt _ h := absurd h List.not_mem_nil
  once := (List.nodup_append.mp h.once).2.1
  known tag htag := h.known tag (List.mem_append_right _ htag)
  outstanding hopened := absurd hopened Bool.false_ne_true
  answered hopened := absurd hopened Bool.false_ne_true

/-- A delivery gets a tag of its own. -/
theorem Orderly.deliver {l : Link κ π} (h : l.Orderly) (payload : π) :
    (l.deliver payload).Orderly where
  nodup := by
    refine List.nodup_append.mpr ⟨h.nodup, List.nodup_singleton _, ?_⟩
    rintro tag htag _ hnew rfl
    exact absurd (h.lt _ htag) (by simp [List.mem_singleton.mp hnew])
  lt tag htag := by
    rw [Link.deliver, List.length_append, List.length_singleton]
    rcases List.mem_append.mp htag with hold | hnew
    · exact Nat.lt_succ_of_lt (h.lt tag hold)
    · exact Nat.lt_succ_of_le (List.mem_singleton.mp hnew).le
  once := by
    show (l.settling ++ (l.inbox ++ [l.deliveries.length])).Nodup
    rw [← List.append_assoc]
    refine List.nodup_append.mpr ⟨h.once, List.nodup_singleton _, ?_⟩
    rintro tag htag _ hnew rfl
    exact absurd (h.known _ htag) (by simp [List.mem_singleton.mp hnew])
  known tag htag := by
    rw [Link.deliver, List.length_append, List.length_singleton]
    have htag : tag ∈ l.settling ++ l.inbox ++ [l.deliveries.length] := by
      rw [List.append_assoc]
      exact htag
    rcases List.mem_append.mp htag with hold | hnew
    · exact Nat.lt_succ_of_lt (h.known tag hold)
    · exact Nat.lt_succ_of_le (List.mem_singleton.mp hnew).le
  outstanding hopened tag htag := by
    have htag : tag ∈ l.settling ++ l.inbox ++ [l.deliveries.length] := by
      rw [List.append_assoc]
      exact htag
    rcases List.mem_append.mp htag with hold | hnew
    · exact List.mem_append_left _ (h.outstanding hopened tag hold)
    · exact List.mem_append_right _ hnew
  answered hopened hwritable tag htag := by
    show tag ∈ l.settling ++ (l.inbox ++ [l.deliveries.length])
    rw [← List.append_assoc]
    rcases List.mem_append.mp htag with hold | hnew
    · exact List.mem_append_left _ (h.answered hopened hwritable tag hold)
    · exact List.mem_append_right _ hnew

/-- A link without its first frame, which published something. -/
theorem Orderly.published {l : Link κ π} (h : l.Orderly) {queue : κ} {payload : π}
    {rest : List (Frame κ π)} (hframes : l.frames = .publish queue payload :: rest) :
    Orderly { l with frames := rest } := by
  have hsettling : l.settling = Link.settling { l with frames := rest } := by
    simp [settling, hframes]
  exact ⟨h.nodup, h.lt, hsettling ▸ h.once, hsettling ▸ h.known, hsettling ▸ h.outstanding,
    hsettling ▸ h.answered⟩

/-- A link without its first frame, which settled a delivery. -/
theorem Orderly.settled {l : Link κ π} (h : l.Orderly) {tag : ℕ} {how : Settlement}
    {rest : List (Frame κ π)} (hframes : l.frames = .settle tag how :: rest) :
    Orderly { l with frames := rest, unacked := l.unacked.erase tag } := by
  have hsettling : l.settling = tag :: Link.settling { l with frames := rest } := by
    simp [settling, hframes]
  have honce := h.once
  rw [hsettling, List.cons_append, List.nodup_cons] at honce
  have hmem {t : ℕ} (ht : t ∈ Link.settling { l with frames := rest } ++ l.inbox) :
      t ≠ tag ∧ t ∈ l.settling ++ l.inbox :=
    ⟨fun heq => honce.1 (heq ▸ ht), by rw [hsettling]; exact List.mem_cons_of_mem _ ht⟩
  exact
    { nodup := h.nodup.erase tag
      lt := fun t ht => h.lt t (List.mem_of_mem_erase ht)
      once := honce.2
      known := fun t ht => h.known t (hmem ht).2
      outstanding := fun hopened t ht =>
        (List.mem_erase_of_ne (hmem ht).1).mpr (h.outstanding hopened t (hmem ht).2)
      answered := fun hopened hwritable t ht => by
        obtain ⟨hne, hold⟩ := h.nodup.mem_erase_iff.mp ht
        have hanswered := h.answered hopened hwritable t hold
        rw [hsettling, List.cons_append] at hanswered
        exact (List.mem_cons.mp hanswered).resolve_left hne }

/-- A link that takes no more frames, and of whose tags some will be heard of no more. -/
theorem Orderly.broken {l : Link κ π} (h : l.Orderly) {rest : List ℕ} {frames : List (Frame κ π)}
    (hsub : (Link.settling { l with frames := frames } ++ rest).Sublist
      (l.settling ++ l.inbox)) :
    Orderly { l with inbox := rest, frames := frames, writable := false } where
  nodup := h.nodup
  lt := h.lt
  once := h.once.sublist hsub
  known tag htag := h.known tag (hsub.subset htag)
  outstanding hopened tag htag := h.outstanding hopened tag (hsub.subset htag)
  answered _ hwritable := absurd hwritable Bool.false_ne_true

/-- A link whose client has received a delivery and sent its answer, with the settlement in it. -/
theorem Orderly.reply {l : Link κ π} (h : l.Orderly) {tag : ℕ} {rest : List ℕ}
    (hinbox : l.inbox = tag :: rest) {frames : List (Frame κ π)}
    (hframes : Link.settling { l with frames := frames } = l.settling ++ [tag]) :
    Orderly { l with inbox := rest, frames := frames } := by
  -- the tag has moved from the one list to the other
  have hsame : Link.settling { l with frames := frames } ++ rest = l.settling ++ l.inbox := by
    rw [hframes, hinbox, List.append_assoc, List.singleton_append]
  exact
    { nodup := h.nodup
      lt := h.lt
      once := hsame ▸ h.once
      known := fun t ht => h.known t (hsame ▸ ht)
      outstanding := fun hopened t ht => h.outstanding hopened t (hsame ▸ ht)
      answered := fun hopened hwritable t ht => hsame ▸ h.answered hopened hwritable t ht }

end Link

/-- A list with one entry replaced: what is gained and what is lost. -/
theorem sum_map_set {α M : Type*} [AddCommMonoid M] (f : α → M) (xs : List α) {i : ℕ} {x : α}
    (hx : xs[i]? = some x) (y : α) :
    ((xs.set i y).map f).sum + f x = (xs.map f).sum + f y := by
  induction xs generalizing i with
  | nil => simp at hx
  | cons z xs ih =>
    cases i with
    | zero =>
      obtain rfl : z = x := by simpa using hx
      simp only [List.set_cons_zero, List.map_cons, List.sum_cons]
      exact add_right_comm _ _ _ |>.trans (by ac_rfl)
    | succ i =>
      have hrest := ih (i := i) (by simpa using hx)
      simp only [List.set_cons_succ, List.map_cons, List.sum_cons]
      rw [add_assoc, hrest, add_assoc]

namespace Broker

section Books

variable [DecidableEq κ]

/-- The messages of a queue in a log. -/
def ofQueue (queue : κ) (log : List (κ × π)) : List π :=
  log.filterMap fun m => if m.1 = queue then some m.2 else none

/-- What was ever published to a queue. -/
def acceptedIn (queue : κ) (b : Broker κ π) : List π := ofQueue queue b.accepted

/-- What is gone from a queue for good. -/
def removedFrom (queue : κ) (b : Broker κ π) : List π := ofQueue queue b.removed

/-- The messages of a queue that a link holds. -/
def held (queue : κ) (l : Link κ π) : Multiset π := if l.source = queue then l.unsettled else 0

/-- The messages of a queue that were delivered and are not settled. -/
def outstanding (queue : κ) (b : Broker κ π) : Multiset π := (b.links.map (held queue)).sum

/-- Every message is in one place, and every link is in order. -/
structure Balanced (b : Broker κ π) : Prop where
  balance : ∀ queue, (b.acceptedIn queue : Multiset π) =
    b.queues queue + b.outstanding queue + b.removedFrom queue
  orderly : ∀ l ∈ b.links, l.Orderly

variable {b : Broker κ π}

theorem mem_ofQueue {queue : κ} {payload : π} {log : List (κ × π)} :
    payload ∈ ofQueue queue log ↔ (queue, payload) ∈ log := by
  rw [ofQueue, List.mem_filterMap]
  constructor
  · rintro ⟨m, hm, heq⟩
    obtain ⟨rfl, rfl⟩ : m.1 = queue ∧ m.2 = payload := by simpa using heq
    exact hm
  · exact fun hm => ⟨_, hm, if_pos rfl⟩

theorem ofQueue_concat (queue q : κ) (payload : π) (log : List (κ × π)) :
    ofQueue q (log ++ [(queue, payload)]) =
      ofQueue q log ++ if queue = q then [payload] else [] := by
  rw [ofQueue, List.filterMap_append]
  by_cases hq : queue = q <;> simp [hq, ofQueue]

/-- A link is replaced: what is outstanding changes by what the two hold. -/
theorem outstanding_setLink {i : ℕ} {l : Link κ π} (hl : b.links[i]? = some l) (l' : Link κ π)
    (queue : κ) :
    (b.setLink i l').outstanding queue + held queue l = b.outstanding queue + held queue l' :=
  sum_map_set (held queue) b.links hl l'

theorem Balanced.empty : Balanced ({} : Broker κ π) :=
  ⟨fun _ => rfl, fun _ h => absurd h List.not_mem_nil⟩

theorem Balanced.orderly_setLink (h : b.Balanced) (i : ℕ) {l' : Link κ π} (hl' : l'.Orderly) :
    ∀ l ∈ (b.setLink i l').links, l.Orderly := fun _ hl =>
  (List.mem_or_eq_of_mem_set hl).elim (h.orderly _) fun heq => heq ▸ hl'

/-- A link changes, and holds what it held. -/
theorem Balanced.setLink (h : b.Balanced) {i : ℕ} {l l' : Link κ π} (hl : b.links[i]? = some l)
    (hl' : l'.Orderly) (hsource : l'.source = l.source)
    (hunsettled : l'.unsettled = l.unsettled) : (b.setLink i l').Balanced := by
  refine ⟨fun queue => ?_, h.orderly_setLink i hl'⟩
  have hheld : held queue l' = held queue l := by rw [held, held, hsource, hunsettled]
  have hset := outstanding_setLink hl l' queue
  rw [hheld, add_left_inj] at hset
  show (b.acceptedIn queue : Multiset π) =
    b.queues queue + (b.setLink i l').outstanding queue + b.removedFrom queue
  rw [hset]
  exact h.balance queue

theorem Balanced.connect (h : b.Balanced) (source : κ) : (b.connect source).Balanced := by
  refine ⟨fun queue => ?_, fun l hl => ?_⟩
  · have hnew : held queue ({ source := source } : Link κ π) = 0 := by
      rw [held, Link.unsettled]
      simp
    show (b.acceptedIn queue : Multiset π) =
      b.queues queue + (b.connect source).outstanding queue + b.removedFrom queue
    rw [outstanding, Broker.connect, List.map_append, List.sum_append, List.map_singleton,
      List.sum_singleton, hnew, add_zero]
    exact h.balance queue
  · rcases List.mem_append.mp hl with hold | hnew
    · exact h.orderly l hold
    · exact List.mem_singleton.mp hnew ▸ .new source

theorem Balanced.sever (h : b.Balanced) (i : ℕ) : (b.sever i).Balanced := by
  unfold Broker.sever
  split
  · exact h
  · rename_i l hl
    exact h.setLink hl (h.orderly l (List.mem_of_getElem? hl)).sever rfl rfl

theorem Balanced.arrive (h : b.Balanced) (queue : κ) (payload : π) :
    (b.arrive queue payload).Balanced := by
  refine ⟨fun q => ?_, h.orderly⟩
  have hbalance := h.balance q
  show (ofQueue q (b.accepted ++ [(queue, payload)]) : Multiset π) =
    Function.update b.queues queue (b.queues queue ++ [payload]) q + b.outstanding q +
      b.removedFrom q
  rw [ofQueue_concat, ← Multiset.coe_add]
  by_cases hq : queue = q
  · subst hq
    rw [if_pos rfl, Function.update_self, ← Multiset.coe_add, ← acceptedIn, hbalance]
    ac_rfl
  · rw [if_neg hq, Function.update_of_ne (Ne.symm hq), Multiset.coe_nil, add_zero]
    exact hbalance

/-- A message of the queue goes to a link. -/
theorem Balanced.deliver (h : b.Balanced) (i k : ℕ) : (b.deliver i k).Balanced := by
  unfold Broker.deliver
  split
  · exact h
  rename_i l hl
  have hlink := h.orderly l (List.mem_of_getElem? hl)
  split
  · rename_i payload _ hpayload
    obtain ⟨hk, hget⟩ := List.getElem?_eq_some_iff.mp hpayload
    have hdelivered : (l.deliver payload).unsettled = l.unsettled ++ [payload] := by
      rw [Link.unsettled, Link.deliver, List.filterMap_append]
      refine congrArg₂ _ (List.filterMap_congr fun tag htag => ?_) (by simp)
      rw [List.getElem?_append_left (hlink.lt tag htag)]
    refine ⟨fun q => ?_, h.orderly_setLink i (hlink.deliver payload)⟩
    have hbalance := h.balance q
    have hset := outstanding_setLink hl (l.deliver payload) q
    show (b.acceptedIn q : Multiset π) =
      Function.update b.queues l.source ((b.queues l.source).eraseIdx k) q +
        (b.setLink i (l.deliver payload)).outstanding q + b.removedFrom q
    by_cases hq : l.source = q
    · subst hq
      have hqueue : (b.queues l.source : Multiset π) =
          (b.queues l.source).eraseIdx k + ([payload] : List π) := by
        rw [Multiset.coe_add, Multiset.coe_eq_coe, ← hget]
        exact (List.getElem_cons_eraseIdx_perm hk).symm.trans (List.perm_append_singleton _ _).symm
      have hsource : (l.deliver payload).source = l.source := rfl
      rw [held, held, if_pos rfl, if_pos hsource, hdelivered, ← Multiset.coe_add,
        ← add_assoc, add_right_comm, add_left_inj] at hset
      rw [Function.update_self, hset, hbalance, hqueue]
      ac_rfl
    · have hsource : ¬ (l.deliver payload).source = q := hq
      rw [held, held, if_neg hq, if_neg hsource, add_zero, add_zero] at hset
      rw [Function.update_of_ne (Ne.symm hq), hset]
      exact hbalance
  · exact h

/-- What a dropped link held goes back to the queue. -/
theorem Balanced.drop (h : b.Balanced) (i : ℕ) : (b.drop i).Balanced := by
  unfold Broker.drop
  split
  · exact h
  rename_i l hl
  have hlink := h.orderly l (List.mem_of_getElem? hl)
  refine ⟨fun q => ?_, h.orderly_setLink i hlink.drop⟩
  have hbalance := h.balance q
  have hset := outstanding_setLink hl
    { l with opened := false, writable := false, unacked := [], frames := [] } q
  show (b.acceptedIn q : Multiset π) =
    Function.update b.queues l.source (l.unsettled ++ b.queues l.source) q +
      (b.setLink i _).outstanding q + b.removedFrom q
  by_cases hq : l.source = q
  · subst hq
    simp only [held, if_pos, Link.unsettled, List.filterMap_nil, Multiset.coe_nil,
      add_zero] at hset
    rw [Function.update_self, hbalance, ← hset, ← Multiset.coe_add, Link.unsettled]
    ac_rfl
  · simp only [held, if_neg hq, add_zero] at hset
    rw [Function.update_of_ne (Ne.symm hq), hset]
    exact hbalance

/-- A settled message leaves the link, and is gone or back in its queue. -/
theorem Balanced.settled (h : b.Balanced) {i tag : ℕ} {l : Link κ π} {how : Settlement}
    {rest : List (Frame κ π)} {payload : π} (hl : b.links[i]? = some l)
    (hframes : l.frames = .settle tag how :: rest) (htag : tag ∈ l.unacked)
    (hpayload : l.deliveries[tag]? = some payload) :
    ((b.setLink i { l with frames := rest, unacked := l.unacked.erase tag }).settled l.source
      payload how).Balanced := by
  let l' : Link κ π := { l with frames := rest, unacked := l.unacked.erase tag }
  have horderly := h.orderly_setLink i
    ((h.orderly l (List.mem_of_getElem? hl)).settled hframes)
  -- what is outstanding, with and without the message
  have hset : ∀ q, b.outstanding q =
      (b.setLink i l').outstanding q + if l.source = q then {payload} else 0 := by
    intro q
    have hset := outstanding_setLink hl l' q
    have hsource : l'.source = l.source := rfl
    by_cases hq : l.source = q
    · have hunsettled : (l.unsettled : Multiset π) = {payload} + (l'.unsettled : Multiset π) := by
        rw [Multiset.singleton_add, Multiset.cons_coe, Multiset.coe_eq_coe]
        have hperm := (List.perm_cons_erase htag).filterMap fun t => l.deliveries[t]?
        rwa [List.filterMap_cons_some hpayload] at hperm
      rw [held, held, hsource, if_pos hq, if_pos hq, hunsettled, ← add_assoc, add_left_inj] at hset
      rw [if_pos hq, hset]
    · rw [held, held, hsource, if_neg hq, if_neg hq, add_zero, add_zero] at hset
      rw [if_neg hq, add_zero, hset]
  have hgone : ∀ {log : List (κ × π)}, log = b.removed ++ [(l.source, payload)] →
      ∀ q, (b.acceptedIn q : Multiset π) =
        b.queues q + (b.setLink i l').outstanding q + ofQueue q log := by
    rintro _ rfl q
    rw [h.balance q, hset q, ofQueue_concat, ← Multiset.coe_add, removedFrom]
    by_cases hq : l.source = q
    · rw [if_pos hq, if_pos hq, Multiset.coe_singleton]
      ac_rfl
    · rw [if_neg hq, if_neg hq, Multiset.coe_nil, add_zero, add_zero]
  cases how with
  | ack => exact ⟨hgone rfl, horderly⟩
  | reject => exact ⟨hgone rfl, horderly⟩
  | requeue =>
    refine ⟨fun q => ?_, horderly⟩
    show (b.acceptedIn q : Multiset π) =
      Function.update b.queues l.source (payload :: b.queues l.source) q +
        (b.setLink i l').outstanding q + b.removedFrom q
    rw [h.balance q, hset q]
    by_cases hq : l.source = q
    · subst hq
      rw [if_pos rfl, Function.update_self, ← Multiset.cons_coe, ← Multiset.singleton_add]
      ac_rfl
    · rw [if_neg hq, Function.update_of_ne (Ne.symm hq), add_zero]

/-- **Processing a frame keeps the books balanced.** -/
theorem Balanced.process (h : b.Balanced) (i : ℕ) : (b.process i).Balanced := by
  unfold Broker.process
  split
  · exact h
  rename_i l hl
  have hlink := h.orderly l (List.mem_of_getElem? hl)
  split
  · rename_i queue payload rest _ hframes
    have hrest : Link.Orderly { l with frames := rest } := hlink.published hframes
    exact (h.setLink hl hrest rfl rfl).arrive queue payload
  · rename_i tag how rest hopened hframes
    obtain ⟨htag, payload, hpayload⟩ := hlink.settles hopened hframes
    simp only [htag, decide_true, hpayload]
    exact h.settled hl hframes htag hpayload
  · exact h

/-! ### What the client has to do -/

omit [DecidableEq κ] in
/-- What a client receives is the first tag that it has not received yet. -/
theorem inbox_of_receive {i tag : ℕ} {payload : π} {b' : Broker κ π}
    (h : b.receive i = some (tag, payload, b')) :
    ∃ l rest, b.links[i]? = some l ∧ l.inbox = tag :: rest ∧ l.deliveries[tag]? = some payload ∧
      b' = b.setLink i { l with inbox := rest } := by
  unfold receive at h
  cases hl : b.links[i]? with
  | none => simp [hl] at h
  | some l =>
    cases hinbox : l.inbox with
    | nil => simp [hl, hinbox] at h
    | cons first rest =>
      simp only [hl, hinbox, Option.map_eq_some_iff, Prod.mk.injEq] at h
      obtain ⟨p, hp, rfl, rfl, rfl⟩ := h
      exact ⟨l, rest, rfl, hinbox, hp, rfl⟩

omit [DecidableEq κ] in
/-- The settlement in what gets through of an answer: it is there if all of the answer is. -/
theorem settling_take_answer (messages : List (κ × π)) (tag : ℕ) (how : Settlement)
    (through : ℕ) :
    ((answer messages tag how).take through).filterMap (fun
      | .publish _ _ => none
      | .settle t _ => some t) = if (answer messages tag how).length ≤ through then [tag] else [] := by
  unfold answer
  induction messages generalizing through with
  | nil => cases through <;> simp
  | cons m messages ih =>
    cases through with
    | zero => simp
    | succ n => simpa using ih n

/-- **An answer keeps the books balanced**, however much of it gets through: the tag is no longer
to be received, and its settlement is under way unless the link is broken. -/
theorem Balanced.answer (h : b.Balanced) {i tag : ℕ} {payload : π} {b' : Broker κ π}
    (hreceive : b.receive i = some (tag, payload, b')) (messages : List (κ × π))
    (how : Settlement) (through : ℕ) :
    (b'.send i (Broker.answer messages tag how) through).Balanced := by
  obtain ⟨l, rest, hl, hinbox, hpayload, rfl⟩ := inbox_of_receive hreceive
  have hlink := h.orderly l (List.mem_of_getElem? hl)
  have hset (l' : Link κ π) :
      (b.setLink i { l with inbox := rest }).setLink i l' = b.setLink i l' := by
    simp only [Broker.setLink, List.set_set]
  have hget : (b.setLink i { l with inbox := rest }).links[i]? = some { l with inbox := rest } := by
    rw [Broker.setLink, List.getElem?_set_self (List.getElem?_eq_some_iff.mp hl).1]
  have hrest : rest.Sublist l.inbox := hinbox ▸ List.sublist_cons_self tag rest
  have hsettling (frames : List (Frame κ π)) :
      Link.settling { l with frames := l.frames ++ frames } =
        l.settling ++ Link.settling { l with frames := frames } :=
    List.filterMap_append
  have hsent := settling_take_answer messages tag how through
  simp only [send, hget]
  by_cases hwritable : l.writable = true
  · rw [if_pos hwritable, hset]
    by_cases hall : (Broker.answer messages tag how).length ≤ through
    · rw [if_pos hall] at hsent
      have hreply := hlink.reply hinbox ((hsettling _).trans (congrArg (l.settling ++ ·) hsent))
      rw [decide_eq_true hall, ← hwritable]
      exact h.setLink hl hreply rfl rfl
    · rw [if_neg hall] at hsent
      have hnone := (hsettling _).trans (congrArg (l.settling ++ ·) hsent)
      rw [List.append_nil] at hnone
      rw [decide_eq_false hall]
      exact h.setLink hl (hlink.broken (hnone ▸ hrest.append_left _)) rfl rfl
  · rw [if_neg hwritable]
    have hbroken := hlink.broken (hrest.append_left l.settling)
    rw [← (Bool.not_eq_true _).mp hwritable] at hbroken
    exact h.setLink hl hbroken rfl rfl

/-! ### Where a message is -/

theorem mem_outstanding {queue : κ} {payload : π} : payload ∈ b.outstanding queue ↔
    ∃ l ∈ b.links, l.source = queue ∧ payload ∈ l.unsettled := by
  unfold outstanding
  induction b.links with
  | nil => simp
  | cons l links ih =>
    rw [List.map_cons, List.sum_cons, Multiset.mem_add, ih, List.exists_mem_cons_iff]
    refine or_congr_left ?_
    by_cases hq : l.source = queue <;> simp [held, hq]

/-- What holds of all messages holds of those that are not settled. -/
theorem Carries.outstanding {Q : κ → π → Prop} (h : b.Carries Q) {queue : κ} {payload : π}
    (hmem : payload ∈ b.outstanding queue) : Q queue payload := by
  obtain ⟨l, hl, rfl, hunsettled⟩ := mem_outstanding.mp hmem
  obtain ⟨tag, -, hget⟩ := List.mem_filterMap.mp hunsettled
  exact (h.links l hl).deliveries payload (List.mem_of_getElem? hget)

/-- **Every message that was published is somewhere**: in its queue, on a link, or gone for
good. -/
theorem Balanced.accounted (h : b.Balanced) {queue : κ} {payload : π}
    (hmem : (queue, payload) ∈ b.accepted) :
    payload ∈ b.queues queue ∨ (∃ l ∈ b.links, l.source = queue ∧ payload ∈ l.unsettled) ∨
      (queue, payload) ∈ b.removed := by
  have hplace : payload ∈ (b.acceptedIn queue : Multiset π) := mem_ofQueue.mpr hmem
  rw [h.balance queue, Multiset.mem_add, Multiset.mem_add, mem_outstanding, or_assoc] at hplace
  exact hplace.imp_right (Or.imp_right mem_ofQueue.mp)

end Books

end Broker
end HabrDigest
