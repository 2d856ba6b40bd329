import HabrDigest.Lib.Accounts
import Mathlib.Logic.Function.Iterate

/-!
# Draining a queue

What it takes to empty a queue.  Links that are in a bad way are dropped, all of them, which brings
back whatever they hold (`calm_dropAll`).  Then a client connects, and serves one message after
another: the broker delivers the front of the queue, the client answers, and the broker processes
the answer (`serve`).  `serve_spec` says what has changed then: the message is gone, what the client
published is at the end of its queues, and the link is ready for the next one.
-/

namespace HabrDigest

variable {κ π : Type}

namespace Broker

/-- Nothing is under way on any link. -/
def Calm (b : Broker κ π) : Prop := ∀ l ∈ b.links, l.unacked = [] ∧ l.frames = []

/-- A link works, and its client has received what was delivered. -/
structure Works (queue : κ) (l : Link κ π) : Prop where
  source : l.source = queue
  opened : l.opened = true
  writable : l.writable = true
  inbox : l.inbox = []

variable [DecidableEq κ]

theorem Calm.outstanding {b : Broker κ π} (h : b.Calm) (queue : κ) : b.outstanding queue = 0 := by
  refine List.sum_eq_zero fun held hheld => ?_
  obtain ⟨l, hl, rfl⟩ := List.mem_map.mp hheld
  rw [Broker.held, Link.unsettled, (h l hl).1]
  simp

/-! ## Dropping every link -/

/-- The links are dropped, up to one of them. -/
def dropUpTo (n : ℕ) (b : Broker κ π) : Broker κ π :=
  (List.range n).foldl (fun b i => b.drop i) b

theorem dropUpTo_succ (n : ℕ) (b : Broker κ π) : b.dropUpTo (n + 1) = (b.dropUpTo n).drop n := by
  rw [dropUpTo, List.range_succ, List.foldl_append]
  rfl

theorem drop_spec (i : ℕ) (b : Broker κ π) :
    (b.drop i).accepted = b.accepted ∧ (b.drop i).links.length = b.links.length ∧
    (∀ l, (b.drop i).links[i]? = some l → l.unacked = [] ∧ l.frames = []) ∧
    ∀ j, j ≠ i → (b.drop i).links[j]? = b.links[j]? := by
  unfold drop
  split
  · rename_i hnone
    exact ⟨rfl, rfl, fun l hl => absurd (hnone.symm.trans hl) (by simp), fun _ _ => rfl⟩
  · rename_i k hk
    refine ⟨rfl, List.length_set .., fun l hl => ?_, fun j hj => ?_⟩
    · have hlt := (List.getElem?_eq_some_iff.mp hk).1
      have hset : some l = _ := hl.symm.trans (List.getElem?_set_self hlt)
      rw [Option.some.inj hset]
      exact ⟨rfl, rfl⟩
    · exact List.getElem?_set_ne (Ne.symm hj)

/-- **Where every link is dropped, nothing is under way.** -/
theorem calm_dropAll (b : Broker κ π) :
    (b.dropUpTo b.links.length).Calm ∧ (b.dropUpTo b.links.length).accepted = b.accepted := by
  have hupTo : ∀ n, (b.dropUpTo n).accepted = b.accepted ∧
      (b.dropUpTo n).links.length = b.links.length ∧
      ∀ i < n, ∀ l, (b.dropUpTo n).links[i]? = some l → l.unacked = [] ∧ l.frames = [] := by
    intro n
    induction n with
    | zero => exact ⟨rfl, rfl, fun i hi => absurd hi (Nat.not_lt_zero i)⟩
    | succ n ih =>
      obtain ⟨haccepted, hlength, hbefore⟩ := ih
      obtain ⟨hsame, hlen, hself, hother⟩ := drop_spec n (b.dropUpTo n)
      rw [dropUpTo_succ]
      refine ⟨hsame.trans haccepted, hlen.trans hlength, fun i hi l hl => ?_⟩
      by_cases hin : i = n
      · exact hself l (hin ▸ hl)
      · exact hbefore i (by omega) l (hother i hin ▸ hl)
  obtain ⟨haccepted, hlength, hall⟩ := hupTo b.links.length
  refine ⟨fun l hl => ?_, haccepted⟩
  obtain ⟨i, hi⟩ := List.mem_iff_getElem?.mp hl
  exact hall i (hlength ▸ (List.getElem?_eq_some_iff.mp hi).1) l hi

/-- What is gone stays gone. -/
theorem removed_dropUpTo (n : ℕ) (b : Broker κ π) : (b.dropUpTo n).removed = b.removed := by
  induction n with
  | zero => rfl
  | succ n ih =>
    rw [dropUpTo_succ, ← ih]
    unfold drop
    split <;> rfl

/-! ## Serving a message -/

/-- Messages are published. -/
def arriveAll (messages : List (κ × π)) (b : Broker κ π) : Broker κ π :=
  messages.foldl (fun b m => b.arrive m.1 m.2) b

theorem arriveAll_spec (messages : List (κ × π)) (b : Broker κ π) :
    (b.arriveAll messages).links = b.links ∧
    (b.arriveAll messages).accepted = b.accepted ++ messages ∧
    (b.arriveAll messages).removed = b.removed ∧
    ∀ queue, (b.arriveAll messages).queues queue = b.queues queue ++ ofQueue queue messages := by
  induction messages generalizing b with
  | nil => exact ⟨rfl, (List.append_nil _).symm, rfl, fun _ => (List.append_nil _).symm⟩
  | cons m messages ih =>
    obtain ⟨hlinks, haccepted, hremoved, hqueues⟩ := ih (b.arrive m.1 m.2)
    refine ⟨hlinks, ?_, hremoved, fun queue => ?_⟩
    · rw [arriveAll, List.foldl_cons]
      exact haccepted.trans (by simp [arrive])
    · rw [arriveAll, List.foldl_cons]
      refine (hqueues queue).trans ?_
      rw [ofQueue, ofQueue, List.filterMap_cons]
      by_cases hq : m.1 = queue
      · subst hq
        simp [arrive]
      · simp [arrive, hq, Function.update_of_ne (Ne.symm hq)]

omit [DecidableEq κ] in
theorem setLink_setLink (i : ℕ) (l l' : Link κ π) (b : Broker κ π) :
    (b.setLink i l).setLink i l' = b.setLink i l' := by
  simp only [setLink, List.set_set]

omit [DecidableEq κ] in
theorem getElem?_setLink_self {i : ℕ} {l : Link κ π} {b : Broker κ π} (l' : Link κ π)
    (hl : b.links[i]? = some l) : (b.setLink i l').links[i]? = some l' :=
  List.getElem?_set_self (List.getElem?_eq_some_iff.mp hl).1

/-- What a client publishes is processed. -/
theorem process_publishes {i : ℕ} {l : Link κ π} (hopened : l.opened = true)
    (rest : List (Frame κ π)) (messages : List (κ × π)) {b : Broker κ π}
    (hl : b.links[i]? = some
      { l with frames := (messages.map fun m => .publish m.1 m.2) ++ rest }) :
    (process i)^[messages.length] b = (b.setLink i { l with frames := rest }).arriveAll messages := by
  induction messages generalizing b with
  | nil =>
    obtain ⟨hlt, hget⟩ := List.getElem?_eq_some_iff.mp hl
    have hlist : b.links.set i { l with frames := rest } = b.links := by
      rw [← List.nil_append rest]
      exact hget ▸ List.set_getElem_self hlt
    exact congrArg (fun links => { b with links := links }) hlist.symm
  | cons m messages ih =>
    have hstep : process i b = (b.setLink i
        { l with frames := (messages.map fun m => .publish m.1 m.2) ++ rest }).arrive m.1 m.2 := by
      unfold process
      rw [hl]
      simp only [List.map_cons, List.cons_append, hopened]
    have hnext : (process i b).links[i]? = some
        { l with frames := (messages.map fun m => .publish m.1 m.2) ++ rest } := by
      rw [hstep]
      exact getElem?_setLink_self _ hl
    rw [List.length_cons, Function.iterate_succ_apply, ih hnext, hstep]
    show (((b.setLink i _).setLink i _).arrive m.1 m.2).arriveAll messages = _
    rw [setLink_setLink]
    rfl

/-- **The front of a queue is served**: a link that works delivers it, whatever the client answers
gets through, and when that is processed the message is gone, what the client published is at the
end of its queues, and the link is as before. -/
theorem serve_spec {queue : κ} {i : ℕ} {l : Link κ π} {b : Broker κ π} (hcalm : b.Calm)
    (hl : b.links[i]? = some l) (hworks : Works queue l) {p : π} {rest : List π}
    (hqueue : b.queues queue = p :: rest) :
    ∃ tag b', (b.deliver i 0).receive i = some (tag, p, b') ∧
      ∀ (messages : List (κ × π)) (how : Settlement), how ≠ .requeue →
        let t := (process i)^[messages.length + 1]
          (b'.send i (answer messages tag how) (messages.length + 1))
        t.Calm ∧ (∃ k, t.links[i]? = some k ∧ Works queue k) ∧
        t.accepted = b.accepted ++ messages ∧
        ∀ q, t.queues q = Function.update b.queues queue rest q ++ ofQueue q messages := by
  obtain ⟨hunacked, hframes⟩ := hcalm l (List.mem_of_getElem? hl)
  obtain ⟨rfl, hopened, hwritable, hinbox⟩ := hworks
  let b₁ : Broker κ π :=
    { b with queues := Function.update b.queues l.source rest }
  let l₂ : Link κ π := { l.deliver p with inbox := [] }
  have hdeliver : b.deliver i 0 = b₁.setLink i (l.deliver p) := by
    unfold deliver
    simp only [hl, hopened, hqueue, List.getElem?_cons_zero, List.eraseIdx_zero, List.tail_cons]
    rfl
  have hget₁ : (b₁.setLink i (l.deliver p)).links[i]? = some (l.deliver p) :=
    getElem?_setLink_self _ hl
  have hreceive : (b.deliver i 0).receive i =
      some (l.deliveries.length, p, b₁.setLink i l₂) := by
    rw [hdeliver, receive, hget₁]
    simp only [Link.deliver, hinbox, List.nil_append, List.getElem?_concat_length,
      Option.map_some, setLink_setLink]
    rfl
  refine ⟨_, _, hreceive, fun messages how hhow => ?_⟩
  let tag := l.deliveries.length
  have hlength : (answer messages tag how).length = messages.length + 1 := by
    rw [answer, List.length_append, List.length_map, List.length_singleton]
  have hsend : (b₁.setLink i l₂).send i (answer messages tag how) (messages.length + 1) =
      b₁.setLink i { l₂ with frames := answer messages tag how } := by
    have hall : (answer messages tag how).take (messages.length + 1) = answer messages tag how :=
      List.take_of_length_le hlength.le
    have hget₂ : (b₁.setLink i l₂).links[i]? = some l₂ := getElem?_setLink_self _ hl
    have hold : l₂.writable = true := hwritable
    have hnone : l₂.frames = [] := hframes
    rw [send, hget₂]
    simp only [hold, if_true, hnone, List.nil_append, hall, hlength, le_refl, decide_true,
      setLink_setLink]
  -- what is published is processed, and then the settlement
  let c := (b₁.setLink i { l₂ with frames := [.settle tag how] }).arriveAll messages
  let k : Link κ π := { l₂ with opened := true, frames := [], unacked := [] }
  obtain ⟨hlinks, haccepted, -, hqueues⟩ :=
    arriveAll_spec messages (b₁.setLink i { l₂ with frames := [.settle tag how] })
  have hpublished : (process i)^[messages.length]
      (b₁.setLink i { l₂ with frames := answer messages tag how }) = c := by
    have hget₂ : (b₁.setLink i { l₂ with frames := answer messages tag how }).links[i]? =
        some { l₂ with frames := answer messages tag how } := getElem?_setLink_self _ hl
    refine (process_publishes (l := l₂) hopened [.settle tag how] messages hget₂).trans ?_
    rw [setLink_setLink]
  have hget : c.links[i]? = some { l₂ with frames := [.settle tag how] } :=
    (congrArg (·[i]?) hlinks).trans (getElem?_setLink_self _ hl)
  have hprocess : process i c = (c.setLink i k).settled l.source p how := by
    have htag : l₂.unacked = [tag] := by
      show l.unacked ++ [tag] = [tag]
      rw [hunacked, List.nil_append]
    have hpayload : l₂.deliveries[tag]? = some p := List.getElem?_concat_length
    have hopened₂ : l₂.opened = true := hopened
    unfold process
    rw [hget]
    simp only [hopened₂, htag, List.mem_singleton, decide_true, hpayload, List.erase_cons_head]
    rfl
  have hfinal : ((c.setLink i k).settled l.source p how).links = (c.setLink i k).links ∧
      ((c.setLink i k).settled l.source p how).accepted = c.accepted ∧
      ((c.setLink i k).settled l.source p how).queues = c.queues := by
    cases how with
    | requeue => exact absurd rfl hhow
    | ack | reject => exact ⟨rfl, rfl, rfl⟩
  obtain ⟨hsame, hlog, hkept⟩ := hfinal
  have hset : (c.setLink i k).links = b.links.set i k := by
    show c.links.set i k = _
    rw [hlinks]
    exact List.set_set ..
  dsimp only
  rw [hsend, Function.iterate_succ_apply', hpublished, hprocess]
  refine ⟨fun link hlink => ?_, ⟨k, ?_, ⟨rfl, rfl, hwritable, rfl⟩⟩, hlog.trans haccepted,
    fun q => (congrFun hkept q).trans (hqueues q)⟩
  · rw [hsame, hset] at hlink
    rcases List.mem_or_eq_of_mem_set hlink with hold | rfl
    · exact hcalm link hold
    · exact ⟨rfl, rfl⟩
  · rw [hsame, hset]
    exact List.getElem?_set_self (List.getElem?_eq_some_iff.mp hl).1

end Broker
end HabrDigest
