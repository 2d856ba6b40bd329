import HabrDigest.Lib.Accounts
import HabrDigest.Pipeline.Delivery

/-!
# Processes that die

In `Delivery` a process loses its connection, exits or waits, but what it holds in memory stays.
Here it may also die at any moment and be started again: a parser comes back as it was
constructed, and the storage service comes back with the database as it was committed, since the
journal of SQLite rolls an open transaction back.  The broker hears of it only when it drops the
link; until then the dead process has deliveries that nobody will answer.

Nothing of what `Inv` says is in the memory of a process, so a death keeps it.  Beside it stand the
books of the broker (`Broker.Balanced`), which every event keeps without any condition: every
delivery is received at most once and answered once, on the link that it came by.  Together they
say where every page is, in every state and not only at the end of its way (`pages_accounted`),
and that the broker never sees a settlement that it is not waiting for (`settles_in_order`).
-/

namespace HabrDigest
namespace Pipeline

open Messaging HabrDigest.Parser Storage Sqlite

/-- What can happen where processes die. -/
inductive Incident (ι : Type) where
  /-- Something that happens to processes that live. -/
  | event (e : WorldEvent ι)
  /-- A parser dies and is started again. -/
  | parserDies (i : ι)
  /-- The storage service dies and is started again. -/
  | storageDies

namespace World

variable {ι : Type} [DecidableEq ι]

/-- The pipeline after an incident. -/
def afterIncident (S : Setting) (s : World ι) : Incident ι → World ι
  | .event e => s.after S e
  | .parserDies i => { s with parsers := Function.update s.parsers i {} }
  | .storageDies => { s with storage := {}, database := s.database.rollback }

/-- When it can happen: a death at any time. -/
def Possible (s : World ι) : Incident ι → Prop
  | .event e => s.Enabled e
  | .parserDies _ | .storageDies => True

end World

/-- The pipeline as a transition system, with processes that die. -/
def Setting.outages (S : Setting) (ι : Type) [DecidableEq ι] :
    TransitionSystem (World ι) (Incident ι) where
  init s := s = {}
  step s e t := s.Possible e ∧ t = s.afterIncident S e

/-- The articles of every page that is handled can be encoded. -/
def EncodesPages {ι : Type} (S : Setting) (m : Move (World ι) (Incident ι)) : Prop :=
  ∀ e, m.event = .event e → Encodes S ⟨m.pre, e, m.post⟩

/-! ## What a page may be waiting for -/

/-- A message is in its queue, or it was delivered and nobody has settled it. -/
def Waits {ι : Type} (s : World ι) (queue : Queue) (payload : Bytes) : Prop :=
  payload ∈ s.broker.queues queue ∨
    ∃ l ∈ s.broker.links, l.source = queue ∧ payload ∈ l.unsettled

/-- **Every page is accounted for**: it waits, or its articles were published; and every message of
articles waits, or each of its articles has a row in the database.  No message is in two places. -/
structure Accounted {ι : Type} (S : Setting) (s : World ι) : Prop where
  pages : ∀ payload, (.rawArticles, payload) ∈ s.broker.accepted →
    Waits s .rawArticles payload ∨
      PageDone S.nlohmann S.htmlParser (parsedIn s.broker.accepted) payload
  messages : ∀ payload, (.parsedArticles, payload) ∈ s.broker.accepted →
    Waits s .parsedArticles payload ∨
      ∀ m, S.nlohmann.decode ParsedArticlesMessage.codec payload = some m →
        ∀ a ∈ m.articles, ∃ row ∈ s.database.committed.rows, row.articleId = a.articleId.cString
  places : ∀ queue, (s.broker.acceptedIn queue : Multiset Bytes) =
    s.broker.queues queue + s.broker.outstanding queue + s.broker.removedFrom queue

variable {ι : Type} {S : Setting}

/-- Where the invariant holds and the books balance, every page is accounted for. -/
theorem Inv.accounted {s : World ι} (h : Inv S s) (hbooks : s.broker.Balanced) :
    Accounted S s where
  pages payload hpayload := by
    rcases hbooks.accounted hpayload with hqueued | hlink | hremoved
    · exact Or.inl (Or.inl hqueued)
    · exact Or.inl (Or.inr hlink)
    · exact Or.inr (h.keeps_pages.pages payload hremoved)
  messages payload hpayload := by
    rcases hbooks.accounted hpayload with hqueued | hlink | hremoved
    · exact Or.inl (Or.inl hqueued)
    · exact Or.inl (Or.inr hlink)
    · exact Or.inr (h.keeps_pages.messages payload hremoved).2
  places := hbooks.balance

variable [DecidableEq ι]

/-! ## The books -/

theorem balanced_callback (service : Service) (source : Queue) (e : Event) (inst : Instance)
    {b : Broker Queue Bytes} (h : b.Balanced) :
    (inst.callback service source e b).2.Balanced := by
  unfold Instance.callback
  dsimp only
  split_ifs
  · exact h.connect source
  · exact h
  · exact h

/-- **Every event keeps the books balanced**: a process answers what it receives. -/
theorem balanced_after {s : World ι} (h : s.broker.Balanced) (e : WorldEvent ι) :
    (s.after S e).broker.Balanced := by
  cases e with
  | arrives queue payload => exact h.arrive queue payload
  | delivers link position => exact h.deliver link position
  | processes link => exact h.process link
  | drops link => exact h.drop link
  | severs link => exact h.sever link
  | parserCallback i e => exact balanced_callback _ _ e _ h
  | storageCallback e => exact balanced_callback _ _ e _ h
  | parserReceives i now publishes through =>
    unfold World.after
    dsimp only
    split
    · exact h
    · rename_i hreceive
      exact h.answer (receive_eq_some hreceive).2 _ _ through
  | storageReceives calls counts clock through =>
    unfold World.after
    dsimp only
    split
    · exact h
    · rename_i hreceive
      exact h.answer (receive_eq_some hreceive).2 _ _ through

/-- A death is nothing that the broker sees. -/
theorem balanced_afterIncident {s : World ι} (h : s.broker.Balanced) (e : Incident ι) :
    (s.afterIncident S e).broker.Balanced := by
  cases e with
  | event e => exact balanced_after h e
  | parserDies i => exact h
  | storageDies => exact h

/-! ## The invariant -/

/-- **A death keeps the invariant**: a process that is started again has no link, and what the
database has committed is still there. -/
theorem Inv.afterIncident {s : World ι} (h : Inv S s) (e : Incident ι) {post : World ι}
    (hG : EncodesPages S ⟨s, e, post⟩) : Inv S (s.afterIncident S e) := by
  cases e with
  | event e =>
    have hencodes : Encodes S ⟨s, e, post⟩ := hG e rfl
    exact h.after e hencodes
  | parserDies i =>
    refine ⟨h.sound, fun j link hlink => ?_, h.storage, h.committed⟩
    by_cases hij : j = i
    · subst hij
      simp [World.afterIncident] at hlink
    · exact h.parsers j link (by simpa [World.afterIncident, hij] using hlink)
  | storageDies =>
    exact ⟨h.sound, h.parsers, fun link hlink => absurd hlink (by simp [World.afterIncident]),
      h.committed⟩

/-- **Every page is accounted for in every state**, whichever processes die and come back, if the
articles of the pages that are handled can be encoded. -/
theorem pages_accounted {tr : List (Move (World ι) (Incident ι))} {s : World ι}
    (hrun : (S.outages ι).Run tr s) (hG : ∀ m ∈ tr, EncodesPages S m) : Accounted S s := by
  have hboth : Inv S s ∧ s.broker.Balanced := by
    refine hrun.invariant_of_moves (P := fun s => Inv S s ∧ s.broker.Balanced)
      (G := EncodesPages S) ?_ ?_ hG
    · rintro s rfl
      exact ⟨⟨.empty, fun i l hl => absurd hl (by simp), fun l hl => absurd hl (by simp), .nil⟩,
        .empty⟩
    · rintro s e t ⟨hinv, hbooks⟩ ⟨-, rfl⟩ hguard
      exact ⟨hinv.afterIncident e hguard, balanced_afterIncident hbooks e⟩
  exact hboth.1.accounted hboth.2

/-- **The broker never sees a settlement that it is not waiting for**, and on a link that works
every delivery that it is waiting for is on its way to the process, or its settlement is on the way
back; no delivery is received or settled twice. -/
theorem settles_in_order {s : World ι} (h : (S.outages ι).Reachable s) {i : ℕ}
    {l : Link Queue Bytes} (hl : s.broker.links[i]? = some l) (hopened : l.opened = true) :
    (l.settling ++ l.inbox).Nodup ∧
    (∀ tag how rest, l.frames = .settle tag how :: rest →
      ∃ payload, payload ∈ l.unsettled ∧ l.deliveries[tag]? = some payload ∧
        (s.broker.process i).links[i]? =
          some { l with frames := rest, unacked := l.unacked.erase tag }) ∧
    (l.writable = true → ∀ tag ∈ l.unacked, tag ∈ l.settling ++ l.inbox) := by
  have hbooks : s.broker.Balanced := by
    refine h.invariant (P := fun s => s.broker.Balanced) ?_ ?_
    · rintro s rfl
      exact .empty
    · rintro s e t hbooks ⟨-, rfl⟩
      exact balanced_afterIncident hbooks e
  have hlink := hbooks.orderly l (List.mem_of_getElem? hl)
  refine ⟨hlink.once, fun tag how rest hframes => ?_, hlink.answered hopened⟩
  obtain ⟨htag, payload, hpayload⟩ := hlink.settles hopened hframes
  refine ⟨payload, List.mem_filterMap.mpr ⟨tag, htag, hpayload⟩, hpayload, ?_⟩
  have hi := (List.getElem?_eq_some_iff.mp hl).1
  have hset : ∀ l' : Link Queue Bytes, (s.broker.setLink i l').links[i]? = some l' := fun l' =>
    List.getElem?_set_self hi
  simp only [Broker.process, hl, hopened, hframes, htag, decide_true, hpayload]
  cases how <;> exact hset _

/-! ## A parser that dies with a page -/

/-- A parser is given a page and dies; the page comes back when the link is dropped, is given to
the parser that was started again, and its article is stored. -/
def parserDied : List (Incident Unit) :=
  [.event (.arrives .rawArticles page), .event (.parserCallback () (.run true)),
    .event (.parserCallback () .channelReady), .event (.delivers 0 0), .parserDies (),
    .event (.drops 0), .event (.parserCallback () (.run true)),
    .event (.parserCallback () .channelReady), .event (.storageCallback (.run true)),
    .event (.storageCallback .channelReady), .event (.delivers 1 0),
    .event (.parserReceives () 0 true 2), .event (.processes 1), .event (.processes 1),
    .event (.delivers 2 0), .event (.storageReceives .succeed true ⟨0, 0⟩ 1)]

theorem run_parserDied : (goodBaseUrl.outages Unit).Run
    (TransitionSystem.moves (World.afterIncident goodBaseUrl) {} parserDied)
    (parserDied.foldl (World.afterIncident goodBaseUrl) {}) := by
  have hstep : ∀ (s : World Unit) e, s.Possible e →
      (goodBaseUrl.outages Unit).step s e (s.afterIncident goodBaseUrl e) := fun _ _ h => ⟨h, rfl⟩
  have hstart : (goodBaseUrl.outages Unit).Run [] {} := .start rfl
  refine hstart.append_moves hstep parserDied ?_
  exact ⟨trivial, rfl, ⟨⟨_, rfl, rfl⟩, _, rfl, rfl, rfl⟩, trivial, trivial, trivial, rfl,
    ⟨⟨_, rfl, rfl⟩, _, rfl, rfl, rfl⟩, rfl, ⟨⟨_, rfl, rfl⟩, _, rfl, rfl, rfl⟩, trivial, trivial,
    trivial, trivial, trivial, trivial, trivial⟩

/-- The page of a parser that died is stored. -/
theorem pages_accounted_parserDied :
    (parserDied.foldl (World.afterIncident goodBaseUrl) {}).database.committed.rows.map
      Row.articleId = [utf8 "1"] ∧
    Accounted goodBaseUrl (parserDied.foldl (World.afterIncident goodBaseUrl) {}) := by
  refine ⟨by decide +kernel, pages_accounted run_parserDied fun m _ e _ => ?_⟩
  exact encodes_of_valid (by decide +kernel) _

/-- The message of the store is about to be acknowledged, on the third link. -/
theorem settles_in_order_parserDied :
    let s := parserDied.foldl (World.afterIncident goodBaseUrl) {}
    ∃ l, s.broker.links[2]? = some l ∧ l.frames = [.settle 0 .ack] ∧
      ∃ payload, payload ∈ l.unsettled ∧ l.deliveries[0]? = some payload ∧
        (s.broker.process 2).links[2]? = some { l with frames := [], unacked := l.unacked.erase 0 }
    := by
  obtain ⟨l, hl, hopened, hframes⟩ : ∃ l,
      (parserDied.foldl (World.afterIncident goodBaseUrl) {}).broker.links[2]? = some l ∧
        l.opened = true ∧ l.frames = [.settle 0 .ack] := by
    refine ⟨_, List.getElem?_eq_getElem (by decide +kernel), by decide +kernel, by decide +kernel⟩
  exact ⟨l, hl, hframes,
    (settles_in_order run_parserDied.reachable hl hopened).2.1 0 .ack [] hframes⟩

end Pipeline
end HabrDigest
