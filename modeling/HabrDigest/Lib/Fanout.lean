import HabrDigest.Lib.AtLeastOnce

/-!
# A fanout exchange

A message that is published to a fanout exchange goes to every queue that is bound to it, once, and
one that finds no queue is gone.  To the broker that is a sequence of arrivals, so whatever an
arrival keeps is kept; and each of the bound queues gets the message at its end, no matter what the
others hold (`acceptedIn_fanOut`).
-/

namespace HabrDigest
namespace Broker

variable {κ π : Type} [DecidableEq κ]

/-- A message goes to the queues that are bound. -/
def fanOut (bound : List κ) (payload : π) (b : Broker κ π) : Broker κ π :=
  bound.foldl (fun b queue => b.arrive queue payload) b

theorem fanOut_cons (queue : κ) (bound : List κ) (payload : π) (b : Broker κ π) :
    b.fanOut (queue :: bound) payload = (b.arrive queue payload).fanOut bound payload := rfl

theorem sources_fanOut (bound : List κ) (payload : π) (b : Broker κ π) :
    (b.fanOut bound payload).sources = b.sources := by
  induction bound generalizing b with
  | nil => rfl
  | cons queue bound ih => exact ih (b.arrive queue payload)

/-- Nothing is gone yet. -/
theorem removed_fanOut (bound : List κ) (payload : π) (b : Broker κ π) :
    (b.fanOut bound payload).removed = b.removed := by
  induction bound generalizing b with
  | nil => rfl
  | cons queue bound ih => exact ih (b.arrive queue payload)

/-- **Each bound queue gets the message once**, and no other queue does. -/
theorem acceptedIn_fanOut {bound : List κ} (hbound : bound.Nodup) (payload : π) (b : Broker κ π)
    (queue : κ) : (b.fanOut bound payload).acceptedIn queue =
      b.acceptedIn queue ++ if queue ∈ bound then [payload] else [] := by
  induction bound generalizing b with
  | nil => rw [if_neg List.not_mem_nil, List.append_nil]; rfl
  | cons q bound ih =>
    obtain ⟨hq, hbound⟩ := List.nodup_cons.mp hbound
    have hone : (b.arrive q payload).acceptedIn queue =
        b.acceptedIn queue ++ if q = queue then [payload] else [] :=
      ofQueue_concat q queue payload b.accepted
    rw [fanOut_cons, ih hbound, hone, List.append_assoc]
    by_cases hqueue : q = queue
    · subst hqueue
      rw [if_pos rfl, if_neg hq, if_pos List.mem_cons_self, List.append_nil]
    · rw [if_neg hqueue, List.nil_append]
      simp [Ne.symm hqueue]

theorem Carries.fanOut {Q : κ → π → Prop} {b : Broker κ π} (h : Carries Q b) {payload : π}
    (hpayload : ∀ queue, Q queue payload) (bound : List κ) : Carries Q (b.fanOut bound payload) := by
  induction bound generalizing b with
  | nil => exact h
  | cons queue bound ih => exact ih (h.arrive (hpayload queue))

theorem Balanced.fanOut {b : Broker κ π} (h : b.Balanced) (bound : List κ) (payload : π) :
    (b.fanOut bound payload).Balanced := by
  induction bound generalizing b with
  | nil => exact h
  | cons queue bound ih => exact ih (h.arrive queue payload)

theorem InOrder.fanOut {V : Type} {C : Consumption π V} {start v : V} {queue : κ} {b : Broker κ π}
    {current : Option ℕ} (h : InOrder C start queue b current v) (hbooks : b.Balanced)
    (bound : List κ) (payload : π) : InOrder C start queue (b.fanOut bound payload) current v := by
  induction bound generalizing b with
  | nil => exact h
  | cons q bound ih => exact ih (h.arrive hbooks q payload) (hbooks.arrive q payload)

/-! ## Clients that publish nothing -/

/-- No client is about to publish anything. -/
def Quiet (b : Broker κ π) : Prop :=
  ∀ l ∈ b.links, ∀ queue payload, .publish queue payload ∉ l.frames

omit [DecidableEq κ] in
theorem Quiet.setLink {b : Broker κ π} (h : b.Quiet) (i : ℕ) {l : Link κ π}
    (hl : ∀ queue payload, .publish queue payload ∉ l.frames) : (b.setLink i l).Quiet := fun _ hk =>
  (List.mem_or_eq_of_mem_set hk).elim (h _) fun heq => heq ▸ hl

omit [DecidableEq κ] in
theorem Quiet.connect {b : Broker κ π} (h : b.Quiet) (source : κ) : (b.connect source).Quiet := by
  intro l hl
  rcases List.mem_append.mp hl with hold | hnew
  · exact h l hold
  · rw [List.mem_singleton.mp hnew]
    exact fun _ _ => List.not_mem_nil

omit [DecidableEq κ] in
theorem Quiet.sever {b : Broker κ π} (h : b.Quiet) (i : ℕ) : (b.sever i).Quiet := by
  unfold Broker.sever
  split
  · exact h
  · rename_i l hl
    exact h.setLink i (h l (List.mem_of_getElem? hl))

omit [DecidableEq κ] in
/-- What a client receives and sends is not published yet. -/
theorem accepted_send {b b' : Broker κ π} {i tag : ℕ} {payload : π}
    (hreceive : b.receive i = some (tag, payload, b')) (frames : List (Frame κ π)) (through : ℕ) :
    (b'.send i frames through).accepted = b.accepted := by
  obtain ⟨l, rest, hl, -, rfl⟩ := receive_eq_some hreceive
  unfold send
  split
  · rfl
  · split <;> rfl

omit [DecidableEq κ] in
/-- An answer that is a settlement only. -/
theorem Quiet.settle {b b' : Broker κ π} (h : b.Quiet) {i tag : ℕ} {payload : π}
    (hreceive : b.receive i = some (tag, payload, b')) (how : Settlement) (through : ℕ) :
    (b'.send i (answer [] tag how) through).Quiet := by
  obtain ⟨l, rest, hl, -, rfl⟩ := receive_eq_some hreceive
  have hset : (b.setLink i { l with inbox := rest }).Quiet :=
    h.setLink i (h l (List.mem_of_getElem? hl))
  unfold send
  split
  · exact hset
  rename_i l' hl'
  split
  · refine hset.setLink i fun queue p hp => ?_
    rcases List.mem_append.mp hp with hold | hnew
    · exact hset l' (List.mem_of_getElem? hl') queue p hold
    · exact absurd (publish_mem_answer (List.mem_of_mem_take hnew)) List.not_mem_nil
  · exact hset

theorem Quiet.fanOut {b : Broker κ π} (h : b.Quiet) (bound : List κ) (payload : π) :
    (b.fanOut bound payload).Quiet := by
  induction bound generalizing b with
  | nil => exact h
  | cons queue bound ih =>
    have harrive : (b.arrive queue payload).Quiet := h
    exact ih harrive

theorem accepted_deliver (i k : ℕ) (b : Broker κ π) : (b.deliver i k).accepted = b.accepted := by
  unfold Broker.deliver
  split
  · rfl
  · split <;> rfl

theorem accepted_drop (i : ℕ) (b : Broker κ π) : (b.drop i).accepted = b.accepted := by
  unfold Broker.drop
  split <;> rfl

theorem Quiet.deliver {b : Broker κ π} (h : b.Quiet) (i k : ℕ) : (b.deliver i k).Quiet := by
  unfold Broker.deliver
  split
  · exact h
  rename_i l hl
  split
  · rename_i payload _ _
    have hlink : ∀ queue p, .publish queue p ∉ (l.deliver payload).frames :=
      h l (List.mem_of_getElem? hl)
    exact h.setLink i hlink
  · exact h

theorem Quiet.drop {b : Broker κ π} (h : b.Quiet) (i : ℕ) : (b.drop i).Quiet := by
  unfold Broker.drop
  split
  · exact h
  · rename_i l hl
    have hset := h.setLink i (l :=
      { l with opened := false, writable := false, unacked := [], frames := [] })
      fun _ _ => List.not_mem_nil
    exact hset

theorem accepted_settled (queue : κ) (payload : π) (how : Settlement) (b : Broker κ π) :
    (b.settled queue payload how).accepted = b.accepted ∧
      (b.settled queue payload how).links = b.links := by
  cases how <;> exact ⟨rfl, rfl⟩

/-- **Where clients publish nothing**, the broker accepts nothing from them. -/
theorem Quiet.process {b : Broker κ π} (h : b.Quiet) (i : ℕ) :
    (b.process i).Quiet ∧ (b.process i).accepted = b.accepted := by
  unfold Broker.process
  split
  · exact ⟨h, rfl⟩
  rename_i l hl
  have hlink := h l (List.mem_of_getElem? hl)
  split
  · rename_i queue payload rest _ hframes
    exact absurd (hframes ▸ List.mem_cons_self) (hlink queue payload)
  · rename_i tag how rest _ hframes
    have hset := h.setLink i (l := { l with frames := rest, unacked := l.unacked.erase tag })
      fun queue p hp => hlink queue p (hframes ▸ List.mem_cons_of_mem _ hp)
    dsimp only
    split
    · rename_i payload _ _
      obtain ⟨haccepted, hlinks⟩ := accepted_settled l.source payload how
        (b.setLink i { l with frames := rest, unacked := l.unacked.erase tag })
      refine ⟨?_, haccepted⟩
      unfold Quiet
      rw [hlinks]
      exact hset
    · exact ⟨hset, rfl⟩
  · exact ⟨h, rfl⟩

end Broker
end HabrDigest
