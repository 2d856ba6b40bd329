import HabrDigest.Pipeline.ReadersCatchUp

/-!
# The archive is whole

The output directory is what the five services leave behind for good, and nobody reads it back: a
file that is missing, or one that should not be there, would stay unnoticed.  `archive_whole` says
that there is neither.  At all times every file of it, but for the temporary ones, is the Markdown of
a digest that was printed from fetched pages (`FilesPrinted`).  And whenever nothing waits for the
notifier, every digest that the exchange has processed since the notifier's queue was bound is in a
file of its own.  Only a digest with the same id, which is one of the same second, may have replaced
it, since the names of the archive are as different as the ids.
-/

namespace HabrDigest
namespace Pipeline

open Messaging HabrDigest.Parser Storage Notifier

variable {ι : Type} {P : Press} {F : Set RawArticlesMessage}

/-! ## Nothing is made up -/

/-- Every file, but for temporary ones, is the Markdown of a printed digest that belongs there. -/
def FilesPrinted (P : Press) (F : Set RawArticlesMessage) (files : Files) : Prop :=
  ∀ path, ¬ IsTemporary path → ∀ content, files path = some content →
    ∃ digest, Printed P F digest ∧ Writes P.notifier path digest ∧
      content = renderDigestMarkdown digest

namespace FilesPrinted

variable {files files' : Files}

theorem of_sameFiles (h : FilesPrinted P F files) (hsame : SameFiles files' files) :
    FilesPrinted P F files' := fun path hpath content hcontent =>
  h path hpath content ((hsame path hpath).symm.trans hcontent)

/-- A printed digest is written to one of its files. -/
theorem update (h : FilesPrinted P F files) {digest : DigestReadyMessage}
    (hdigest : Printed P F digest) {path : Bytes} (hwrites : Writes P.notifier path digest) :
    FilesPrinted P F (Function.update files path (some (renderDigestMarkdown digest))) := by
  intro other hother content hcontent
  by_cases heq : other = path
  · subst heq
    rw [Function.update_self] at hcontent
    exact ⟨digest, hdigest, hwrites, (Option.some.inj hcontent).symm⟩
  · rw [Function.update_of_ne heq] at hcontent
    exact h other hother content hcontent

/-- **A delivery writes printed digests only**, if its writes lose nothing. -/
theorem handleDigestReady (h : FilesPrinted P F files) {payload : Bytes}
    (hprints : Prints P F payload) {first second : WriteCalls}
    (hkeeps : ∀ digest, P.setting.nlohmann.decode DigestReadyMessage.codec payload = some digest →
      first.LosesNothing (renderDigestMarkdown digest) ∧
        second.LosesNothing (renderDigestMarkdown digest)) :
    FilesPrinted P F (Notifier.handleDigestReady P.setting.nlohmann P.notifier first second payload
      files).2 := by
  cases hdecode : P.setting.nlohmann.decode DigestReadyMessage.codec payload with
  | none =>
    rw [handleDigestReady_of_decode_eq_none hdecode]
    exact h
  | some digest =>
    obtain ⟨hfirst, hsecond⟩ := hkeeps digest hdecode
    have hdigest := hprints digest hdecode
    have hown := h.update hdigest (Or.inr rfl)
    rcases handleDigestReady_outcome hdecode P.notifier hfirst hsecond files with
      ⟨-, hnothing | hone⟩ | ⟨-, hboth⟩
    · exact h.of_sameFiles hnothing
    · exact hown.of_sameFiles hone
    · exact (hown.update hdigest (Or.inl rfl)).of_sameFiles hboth

end FilesPrinted

variable [DecidableEq ι]

/-- **Every event keeps it**, if no bytes are lost. -/
theorem filesPrinted_after {s : Newsroom ι} (hsourced : Sourced P F s)
    (h : FilesPrinted P F s.files) (e : NewsEvent ι) {post : Newsroom ι}
    (hkeeps : KeepsBytes P ⟨s, e, post⟩) : FilesPrinted P F (s.after P e).files := by
  by_cases hreceiver : e.receiver = some .digestNotifier
  · cases e with
    | notifierReceives first second through =>
      unfold Newsroom.after
      dsimp only
      split
      · exact h
      rename_i link tag payload broker hreceive
      have hprints := (receive_carries hsourced.carries (receiveFrom_eq_some hreceive).2).2
      exact h.handleDigestReady hprints (hkeeps link tag payload broker hreceive)
    | _ => exact absurd hreceiver (by simp [NewsEvent.receiver])
  · rw [files_after hreceiver]
    exact h

theorem filesPrinted_of_run {tr : List (Move (Newsroom ι) (NewsEvent ι))} {s : Newsroom ι}
    (hrun : (P.system F ι).Run tr s) (hkeeps : ∀ m ∈ tr, KeepsBytes P m) :
    FilesPrinted P F s.files := by
  induction hrun with
  | start hinit =>
    obtain rfl := hinit
    exact fun _ _ _ hcontent => absurd hcontent (by simp)
  | @snoc tr s t e hrun hstep ih =>
    obtain ⟨-, rfl⟩ := hstep
    obtain ⟨hold, hlast⟩ := List.forall_mem_append.mp hkeeps
    exact filesPrinted_after (sourced_of_reachable hrun.reachable) (ih hold) e
      (hlast _ (List.mem_singleton_self _))

/-! ## Nothing is missing -/

/-- What the exchange has processed was printed. -/
theorem prints_of_mem_exchanged {s : Newsroom ι} (h : (P.system F ι).Reachable s) :
    ∀ payload ∈ s.exchanged, Prints P F payload := by
  refine (h.invariant (P := fun s => Sourced P F s ∧ ∀ payload ∈ s.exchanged, Prints P F payload)
    ?_ ?_).2
  · rintro s rfl
    exact ⟨sourced_of_reachable (.init rfl), fun _ hp => absurd hp List.not_mem_nil⟩
  · rintro s e t ⟨hsourced, hprints⟩ ⟨⟨-, hfeeds⟩, rfl⟩
    refine ⟨hsourced.after e hfeeds, ?_⟩
    cases e with
    | exchanges =>
      unfold Newsroom.after
      dsimp only
      split
      · exact hprints
      · rename_i payload rest houtbox
        have hpayload := hsourced.outbox payload (houtbox ▸ List.mem_cons_self)
        exact List.forall_mem_append.mpr ⟨hprints, List.forall_mem_singleton.mpr hpayload⟩
    | notifierReceives | webReceives =>
      unfold Newsroom.after
      dsimp only
      split <;> exact hprints
    | connects subscriber => cases subscriber <;> exact hprints
    | _ => exact hprints

omit [DecidableEq ι] in
/-- **A printed digest has a file of its own**: one with another id is not written there. -/
theorem Printed.writes_digestFile_iff {digest digest' : DigestReadyMessage}
    (h : Printed P F digest) (h' : Printed P F digest') :
    Writes P.notifier (digestFile P.notifier digest) digest' ↔
      digest'.digestId = digest.digestId := by
  obtain ⟨c, t, hbuilt⟩ := h.built
  obtain ⟨c', t', hbuilt'⟩ := h'.built
  have hstamp : Common.IsTimestamp digest.digestId :=
    hbuilt ▸ Common.isTimestamp_nowIso8601Utc c.stampedAt
  have hstamp' : Common.IsTimestamp digest'.digestId :=
    hbuilt' ▸ Common.isTimestamp_nowIso8601Utc c'.stampedAt
  constructor
  · rintro (hlatest | hown)
    · exact absurd hlatest (digestFile_ne P.notifier digest).1
    · exact (archiveName_injective hstamp hstamp' (join_injective _ hown)).symm
  · intro hid
    exact Or.inr (by rw [digestFile, digestFile, hid])

/-- **The archive is whole**, whatever is delivered again, whichever writes fail and however often
the services die: in every state nothing in it is made up, and when nothing waits for the notifier,
each file has the last digest that is written there, so that every digest that was processed since
the queue was bound is in its own file, or one with the same id that came later. -/
theorem archive_whole {tr : List (Move (Newsroom ι) (NewsEvent ι))} {s : Newsroom ι}
    (hrun : (P.system F ι).Run tr s) (hturn : ∀ m ∈ tr, HandedInTurn .digestNotifier m)
    (hkeeps : ∀ m ∈ tr, KeepsBytes P m) :
    FilesPrinted P F s.files ∧
    (s.broker.queues .digestNotifier = [] → s.broker.outstanding .digestNotifier = 0 →
      (∀ path, ¬ IsTemporary path → s.files path = (lastWritten P.notifier path
        ((s.broker.acceptedIn .digestNotifier).filterMap
          (P.setting.nlohmann.decode DigestReadyMessage.codec))).map renderDigestMarkdown) ∧
      ∀ m ∈ tr, .digestNotifier ∈ m.post.bound →
        ∃ more digests, s.exchanged = m.post.exchanged ++ more ∧
          digests = more.filterMap (P.setting.nlohmann.decode DigestReadyMessage.codec) ∧
          ∀ digest ∈ digests, s.files (digestFile P.notifier digest) =
            (digests.filter (·.digestId = digest.digestId)).getLast?.map renderDigestMarkdown) := by
  refine ⟨filesPrinted_of_run hrun hkeeps, fun hqueue houtstanding => ?_⟩
  obtain ⟨-, honce⟩ := (attends_files hrun hturn hkeeps).order.finished hqueue houtstanding
  have hfiles : ∀ path, ¬ IsTemporary path → s.files path = (lastWritten P.notifier path
      ((s.broker.acceptedIn .digestNotifier).filterMap
        (P.setting.nlohmann.decode DigestReadyMessage.codec))).map renderDigestMarkdown :=
    fun path hpath => (sameFiles_archive_of_once honce path hpath).trans (archive_apply _ _ _ _)
  refine ⟨hfiles, fun m hm hbound => ?_⟩
  obtain ⟨-, more, hmore, haccepted⟩ := gotSince_of_mem hrun hm .digestNotifier hbound
  refine ⟨more, _, hmore, rfl, fun digest hdigest => ?_⟩
  have hprinted : ∀ d ∈ more.filterMap (P.setting.nlohmann.decode DigestReadyMessage.codec),
      Printed P F d := by
    intro d hd
    obtain ⟨payload, hpayload, hdecode⟩ := List.mem_filterMap.mp hd
    exact prints_of_mem_exchanged hrun.reachable payload
      (hmore ▸ List.mem_append_right _ hpayload) d hdecode
  have hown : ∀ d ∈ more.filterMap (P.setting.nlohmann.decode DigestReadyMessage.codec),
      decide (Writes P.notifier (digestFile P.notifier digest) d) =
        decide (d.digestId = digest.digestId) := fun d hd =>
    decide_eq_decide.mpr ((hprinted digest hdigest).writes_digestFile_iff (hprinted d hd))
  have hsome : (more.filterMap (P.setting.nlohmann.decode DigestReadyMessage.codec)).filter
      (·.digestId = digest.digestId) ≠ [] :=
    List.ne_nil_of_mem (List.mem_filter.mpr ⟨hdigest, decide_eq_true rfl⟩)
  rw [hfiles _ (not_isTemporary_digestFile _ digest), haccepted, List.filterMap_append, lastWritten,
    List.filter_append, List.filter_congr hown, List.getLast?_append_of_ne_nil _ hsome]

/-! ## Two digests -/

/-- A minute later the page is published once more.  The notifier fails between the two files of the
first digest, gets it again, and then the second one. -/
def bothArchived : List (NewsEvent Unit) :=
  [.ticks ⟨60, 60, 8, true⟩ true, .binds .digestNotifier, .exchanges, .exchanges,
    .connects .digestNotifier, .delivers 0 0,
    .notifierReceives goodWrite { goodWrite with opens := false } 1, .processes 0, .delivers 0 0,
    .notifierReceives goodWrite goodWrite 1, .processes 0, .delivers 0 0,
    .notifierReceives goodWrite goodWrite 1, .processes 0]

theorem run_bothArchived : (smallPress.careful onePage Unit).Run
    (TransitionSystem.moves (Newsroom.after smallPress) {} (pagePublished ++ bothArchived))
    ((pagePublished ++ bothArchived).foldl (Newsroom.after smallPress) {}) := by
  refine run_careful ⟨⟨?_, trivial⟩, .of_forall (fun e he s => ?_) _⟩ ?_ (by decide +kernel)
  · -- the timer still runs
    show (State.loop _).timerAdded = true
    decide +kernel
  · simp only [List.mem_cons, List.not_mem_nil, or_false] at he
    rcases he with rfl | rfl | rfl | rfl | rfl | rfl | rfl | rfl | rfl | rfl | rfl | rfl | rfl <;>
      exact ⟨trivial, trivial⟩
  · simp only [pagePublished, pageStored, bothArchived, List.map_cons, List.map_nil,
      List.cons_append, List.nil_append, List.forall_mem_cons]
    simp [goodWrite]

/-- Each of the two has its file. -/
theorem archive_whole_bothArchived :
    let s := (pagePublished ++ bothArchived).foldl (Newsroom.after smallPress) {}
    (s.files (utf8 "/data/digests/digest-1970-01-01T00-00-00Z.md")).isSome = true ∧
    (s.files (utf8 "/data/digests/digest-1970-01-01T00-01-00Z.md")).isSome = true ∧
    FilesPrinted smallPress onePage s.files ∧
    ∃ digests : List DigestReadyMessage, digests.length = 2 ∧ ∀ digest ∈ digests,
      s.files (digestFile smallPress.notifier digest) =
        (digests.filter (·.digestId = digest.digestId)).getLast?.map renderDigestMarkdown := by
  obtain ⟨m, hm, hbound, hexchanged⟩ : ∃ m ∈ TransitionSystem.moves (Newsroom.after smallPress) {}
      (pagePublished ++ bothArchived), .digestNotifier ∈ m.post.bound ∧ m.post.exchanged = [] :=
    ⟨_, List.getElem_mem (n := 14) (by decide), by decide +kernel, by decide +kernel⟩
  obtain ⟨hplain, hcareful⟩ := run_bothArchived.of_guarded
  obtain ⟨hprinted, hwhole⟩ := archive_whole hplain (fun m hm => (hcareful m hm).1 .digestNotifier)
    fun m hm => (hcareful m hm).2
  obtain ⟨more, digests, hmore, hdigests, hfiles⟩ :=
    (hwhole (by decide +kernel) (by decide +kernel)).2 m hm hbound
  rw [hexchanged, List.nil_append] at hmore
  exact ⟨by decide +kernel, by decide +kernel, hprinted, digests,
    hdigests ▸ hmore ▸ by decide +kernel, hfiles⟩

end Pipeline
end HabrDigest
