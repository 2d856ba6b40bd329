import HabrDigest.Pipeline.ReadersCatchUp

/-!
# The readers agree

A digest goes to two places: the files of the notifier, and the page of the web service.  Each has
its own queue, its own order of deliveries, its own failures and its own restarts, and nothing ties
one to the other but the exchange.  `readers_agree` says that this is enough: from the moment on at
which both queues are bound, whenever nothing waits in either of them, `latest.md` and the page show
the same digest, and it is the newest one that the exchange has processed.  Only a web service that
was started again may show nothing.
-/

namespace HabrDigest
namespace Pipeline

open Messaging Notifier

variable {ι : Type} [DecidableEq ι] {P : Press} {F : Set RawArticlesMessage}

/-- **The readers agree**: once both queues are bound, what the exchange has processed since then
decides what is in `latest.md`, in the file of the newest digest and in front of the page, whenever
nothing waits. -/
theorem readers_agree (hsize : 0 < P.web.historySize.toNat)
    {tr : List (Move (Newsroom ι) (NewsEvent ι))} {s : Newsroom ι}
    (hrun : (P.careful F ι).Run tr s) {m : Move (Newsroom ι) (NewsEvent ι)} (hm : m ∈ tr)
    (hbound : ∀ queue, queue ∈ m.post.bound)
    (hsettled : ∀ queue, s.broker.queues queue = [] ∧ s.broker.outstanding queue = 0) :
    ∃ more, s.exchanged = m.post.exchanged ++ more ∧
      ∀ d, (more.filterMap (P.setting.nlohmann.decode DigestReadyMessage.codec)).getLast? = some d →
        s.files (latestFile P.notifier) = some (renderDigestMarkdown d) ∧
        s.files (digestFile P.notifier d) = some (renderDigestMarkdown d) ∧
        (s.digests = [] ∨ s.digests.head? = some d) ∧
        ((∀ m ∈ tr, m.event ≠ .webDies) → s.digests.head? = some d) := by
  obtain ⟨hplain, hcareful⟩ := hrun.of_guarded
  obtain ⟨-, more, hmore, hnotifier⟩ := gotSince_of_mem hplain hm .digestNotifier (hbound _)
  obtain ⟨-, more', hmore', hweb⟩ := gotSince_of_mem hplain hm .digestWeb (hbound _)
  obtain rfl : more = more' := List.append_cancel_left (hmore.symm.trans hmore')
  refine ⟨more, hmore, fun d hd => ?_⟩
  have hnewest : ∀ {before accepted : List Bytes}, accepted = before ++ more →
      (accepted.filterMap (P.setting.nlohmann.decode DigestReadyMessage.codec)).getLast? =
        some d := by
    rintro before accepted rfl
    rw [List.filterMap_append, List.getLast?_append, hd, Option.some_or]
  -- the notifier has taken all of its queue, once each
  obtain ⟨-, honce⟩ := (kept_of_reachable hrun.reachable).archived.order.finished
    (hsettled .digestNotifier).1 (hsettled .digestNotifier).2
  have hfiles := sameFiles_archive_of_once honce
  -- and so has the web service, though a restart forgets it
  have hlogs := logs_taken hplain fun m hm => (hcareful m hm).1 .digestWeb
  obtain ⟨hall, -⟩ := hlogs.order.finished (hsettled .digestWeb).1 (hsettled .digestWeb).2
  have hlast : (taken P tr).getLast? = some d :=
    (hlogs.getLast? hall).trans (hnewest hweb)
  have hfront : taken P (sinceStarted tr) ≠ [] → s.digests.head? = some d := fun hsince =>
    (head?_digests hplain hsize hsince).trans hlast
  refine ⟨?_, ?_, ?_, fun hnever => hfront ?_⟩
  · rw [hfiles _ (not_isTemporary_latestFile _), archive_latestFile, hnewest hnotifier]
    rfl
  · rw [hfiles _ (not_isTemporary_digestFile _ d), archive_digestFile (hnewest hnotifier)]
  · by_cases hsince : taken P (sinceStarted tr) = []
    · exact Or.inl ((digests_of_run hplain).trans (by rw [hsince]; simp))
    · exact Or.inr (hfront hsince)
  · rw [sinceStarted_eq_self hnever]
    intro hnone
    rw [hnone] at hlast
    exact absurd hlast (by simp)

/-! ## One digest for both -/

/-- Both queues are bound and get the digest, and each reader handles it. -/
def bothRead : List (NewsEvent Unit) :=
  [.binds .digestNotifier, .binds .digestWeb, .exchanges, .connects .digestNotifier,
    .connects .digestWeb, .delivers 0 0, .delivers 1 0, .webReceives 1,
    .notifierReceives goodWrite goodWrite 1, .processes 0, .processes 1]

theorem run_bothRead : (smallPress.careful onePage Unit).Run
    (TransitionSystem.moves (Newsroom.after smallPress) {} (pagePublished ++ bothRead))
    ((pagePublished ++ bothRead).foldl (Newsroom.after smallPress) {}) := by
  refine run_careful (.of_forall (fun e he s => ?_) _) ?_ (by decide +kernel)
  · simp only [bothRead, List.mem_cons, List.not_mem_nil, or_false] at he
    rcases he with rfl | rfl | rfl | rfl | rfl | rfl | rfl | rfl | rfl | rfl | rfl <;>
      exact ⟨trivial, trivial⟩
  · simp only [pagePublished, pageStored, bothRead, List.map_cons, List.map_nil,
      List.cons_append, List.nil_append, List.forall_mem_cons]
    simp [goodWrite]

/-- The digest that is in front of the page is the one in `latest.md`. -/
theorem readers_agree_bothRead :
    let s := (pagePublished ++ bothRead).foldl (Newsroom.after smallPress) {}
    ∃ d, s.digests = [d] ∧ s.files (latestFile smallPress.notifier) =
      some (renderDigestMarkdown d) := by
  obtain ⟨m, hm, hbound, hexchanged⟩ : ∃ m ∈ TransitionSystem.moves
      (Newsroom.after smallPress) {} (pagePublished ++ bothRead),
      (.digestNotifier ∈ m.post.bound ∧ .digestWeb ∈ m.post.bound) ∧ m.post.exchanged = [] := by
    exact ⟨_, List.getElem_mem (n := 14) (by decide), by decide +kernel, by decide +kernel⟩
  have hboth : ∀ queue, queue ∈ m.post.bound := fun queue => by
    cases queue
    · exact hbound.1
    · exact hbound.2
  have hsettled : ∀ queue,
      ((pagePublished ++ bothRead).foldl (Newsroom.after smallPress) {}).broker.queues queue = [] ∧
      ((pagePublished ++ bothRead).foldl (Newsroom.after smallPress) {}).broker.outstanding queue =
        0 := fun queue => by cases queue <;> decide +kernel
  obtain ⟨more, hmore, hagree⟩ := readers_agree (by decide) run_bothRead hm hboth hsettled
  rw [hexchanged, List.nil_append] at hmore
  have hone :
      ((pagePublished ++ bothRead).foldl (Newsroom.after smallPress) {}).digests.length = 1 ∧
      ((pagePublished ++ bothRead).foldl (Newsroom.after smallPress) {}).digests.getLast? =
        (more.filterMap (smallPress.setting.nlohmann.decode
          DigestReadyMessage.codec)).getLast? := hmore ▸ by decide +kernel
  obtain ⟨d, hd⟩ := List.length_eq_one_iff.mp hone.1
  rw [hd] at hone
  exact ⟨d, hd, (hagree d hone.2.symm).1⟩

end Pipeline
end HabrDigest
