import HabrDigest.Notifier.FileNames
import HabrDigest.Pipeline.Subscribers

/-!
# Every digest is archived once

What the readers of the output directory see.  The notifier writes a digest to a file of its own
and to `latest.md`, and it may do so more than once: a write fails between the two, or the
acknowledgement is lost with the connection or with the process.  The content is a function of the
digest, so writing it again changes nothing; and where the broker hands the digests out in order,
one unsettled delivery at a time, no digest overtakes another one, so `latest.md` never goes back.

`archived_once` says that the directory, but for the temporary files, is what the digests make of
it if each is written exactly once, in the order in which they came to the queue, up to the digest
that is next, of which one file or both may be there already.  When the queue has run empty, the
newest digest is in `latest.md`.  The flush of a file that is closed must lose nothing
(`KeepsBytes`), which nobody checks.
-/

namespace HabrDigest
namespace Notifier

open Messaging

/-! ## What a digest does to the directory -/

/-- A path that a file is written under first. -/
def IsTemporary (path : Bytes) : Prop := utf8 ".tmp" <:+ path

/-- Directories with the same files, but for temporary ones. -/
def SameFiles (files files' : Files) : Prop := ∀ path, ¬ IsTemporary path → files path = files' path

/-- A digest in its own file. -/
def withDigest (config : Config) (digest : DigestReadyMessage) (files : Files) : Files :=
  Function.update files (digestFile config digest) (some (renderDigestMarkdown digest))

/-- A digest in both of its files. -/
def withBoth (config : Config) (digest : DigestReadyMessage) (files : Files) : Files :=
  Function.update (withDigest config digest files) (latestFile config)
    (some (renderDigestMarkdown digest))

/-- What payloads make of an empty directory, each written once. -/
def archive (n : Nlohmann) (config : Config) (payloads : List Bytes) : Files :=
  (payloads.filterMap (n.decode DigestReadyMessage.codec)).foldl
    (fun files digest => withBoth config digest files) fun _ => none

theorem not_isTemporary_join (directory : Bytes) {name : Bytes}
    (h : name.getLast? = some 0x64) : ¬ IsTemporary (join directory name) := by
  have hname : name ≠ [] := by
    rintro rfl
    simp at h
  obtain ⟨start, hstart⟩ : ∃ start, join directory name = start ++ name := by
    unfold join
    split
    · exact ⟨[], rfl⟩
    · split
      · exact ⟨directory, rfl⟩
      · exact ⟨directory ++ utf8 "/", rfl⟩
  rintro ⟨front, hfront⟩
  have hlast := congrArg List.getLast? (hfront.trans hstart)
  rw [List.getLast?_append_of_ne_nil _ hname, h] at hlast
  rw [List.getLast?_append_of_ne_nil _ (by decide)] at hlast
  exact absurd hlast (by decide)

theorem not_isTemporary_digestFile (config : Config) (digest : DigestReadyMessage) :
    ¬ IsTemporary (digestFile config digest) :=
  not_isTemporary_join _ (getLast?_archiveName digest.digestId)

theorem not_isTemporary_latestFile (config : Config) : ¬ IsTemporary (latestFile config) :=
  not_isTemporary_join _ (by decide)

namespace SameFiles

variable {files files' files'' : Files}

theorem trans (h : SameFiles files files') (h' : SameFiles files' files'') :
    SameFiles files files'' := fun path hpath => (h path hpath).trans (h' path hpath)

theorem update (h : SameFiles files files') (path : Bytes) (content : Option Bytes) :
    SameFiles (Function.update files path content) (Function.update files' path content) := by
  intro other hother
  by_cases heq : other = path
  · subst heq
    rw [Function.update_self, Function.update_self]
  · rw [Function.update_of_ne heq, Function.update_of_ne heq]
    exact h other hother

end SameFiles

/-- **One write** that loses nothing: the file holds the content if the write returns, and nothing
else changes but the temporary file. -/
theorem sameFiles_writeFileAtomically {calls : WriteCalls} {content : Bytes}
    (hkeeps : calls.LosesNothing content) (path : Bytes) (files : Files) :
    SameFiles (writeFileAtomically calls path content files).2
      (if calls.returns then Function.update files path (some content) else files) := by
  obtain ⟨-, hpath, hother⟩ := writeFileAtomically_spec calls path content files
  rw [(calls.written_eq_iff content).mpr hkeeps] at hpath
  intro other hnot
  by_cases heq : other = path
  · subst heq
    rw [hpath]
    split
    · rw [Function.update_self]
    · rfl
  · rw [hother other heq fun htemporary => hnot ⟨path, htemporary.symm⟩]
    split
    · rw [Function.update_of_ne heq]
    · rfl

/-- How `HandleDigestReady` can end, if its writes lose nothing: nothing is written, or the digest
is in its own file, or it is in both files, and only then it is acknowledged. -/
theorem handleDigestReady_outcome {n : Nlohmann} {payload : Bytes} {digest : DigestReadyMessage}
    (hdecode : n.decode DigestReadyMessage.codec payload = some digest) (config : Config)
    {first second : WriteCalls} (hfirst : first.LosesNothing (renderDigestMarkdown digest))
    (hsecond : second.LosesNothing (renderDigestMarkdown digest)) (files : Files) :
    let result := handleDigestReady n config first second payload files
    result.1 = .kRequeue ∧ (SameFiles result.2 files ∨
        SameFiles result.2 (withDigest config digest files)) ∨
      result.1 = .kAck ∧ SameFiles result.2 (withBoth config digest files) := by
  have hone := sameFiles_writeFileAtomically hfirst (digestFile config digest) files
  have hreturns := (writeFileAtomically_spec first (digestFile config digest)
    (renderDigestMarkdown digest) files).1
  unfold handleDigestReady
  rw [hdecode]
  dsimp only
  generalize writeFileAtomically first (digestFile config digest) (renderDigestMarkdown digest)
    files = result at hone hreturns
  obtain ⟨ok, files₁⟩ := result
  obtain rfl : ok = first.returns := hreturns
  cases hret : first.returns with
  | false =>
    rw [hret, if_neg Bool.false_ne_true] at hone
    exact Or.inl ⟨rfl, Or.inl hone⟩
  | true =>
    rw [hret, if_pos rfl] at hone
    have htwo := sameFiles_writeFileAtomically hsecond (latestFile config) files₁
    have hreturns := (writeFileAtomically_spec second (latestFile config)
      (renderDigestMarkdown digest) files₁).1
    dsimp only
    generalize writeFileAtomically second (latestFile config) (renderDigestMarkdown digest)
      files₁ = result at htwo hreturns
    obtain ⟨ok, files₂⟩ := result
    obtain rfl : ok = second.returns := hreturns
    cases hret' : second.returns with
    | false =>
      rw [hret', if_neg Bool.false_ne_true] at htwo
      exact Or.inl ⟨rfl, Or.inr (htwo.trans hone)⟩
    | true =>
      rw [hret', if_pos rfl] at htwo
      exact Or.inr ⟨rfl, htwo.trans (hone.update _ _)⟩

/-! ## Writing a digest again -/

theorem withDigest_withBoth (config : Config) (digest : DigestReadyMessage) (files : Files) :
    withDigest config digest (withBoth config digest files) = withBoth config digest files := by
  refine Function.update_eq_self_iff.mpr ?_
  rw [withBoth, Function.update_of_ne (digestFile_ne config digest).1, withDigest,
    Function.update_self]

theorem withBoth_withDigest (config : Config) (digest : DigestReadyMessage) (files : Files) :
    withBoth config digest (withDigest config digest files) = withBoth config digest files := by
  rw [withBoth, withBoth, withDigest, withDigest, Function.update_idem]

theorem withBoth_withBoth (config : Config) (digest : DigestReadyMessage) (files : Files) :
    withBoth config digest (withBoth config digest files) = withBoth config digest files := by
  rw [withBoth, withDigest_withBoth]
  exact Function.update_eq_self_iff.mpr (by rw [withBoth, Function.update_self])

theorem SameFiles.withDigest {files files' : Files} (h : SameFiles files files') (config : Config)
    (digest : DigestReadyMessage) :
    SameFiles (withDigest config digest files) (withDigest config digest files') := h.update _ _

theorem SameFiles.withBoth {files files' : Files} (h : SameFiles files files') (config : Config)
    (digest : DigestReadyMessage) :
    SameFiles (withBoth config digest files) (withBoth config digest files') :=
  (h.update _ _).update _ _

/-- A digest is archived; a payload that is none changes nothing. -/
def Archives (n : Nlohmann) (config : Config) (payload : Bytes) (before after : Files) : Prop :=
  match n.decode DigestReadyMessage.codec payload with
  | none => SameFiles after before
  | some digest => SameFiles after (withBoth config digest before)

/-- The first file of a digest is written at most. -/
def Begins (n : Nlohmann) (config : Config) (payload : Bytes) (before after : Files) : Prop :=
  SameFiles after before ∨ ∃ digest, n.decode DigestReadyMessage.codec payload = some digest ∧
    SameFiles after (withDigest config digest before)

/-- What the notifier does with a digest. -/
def consumption (n : Nlohmann) (config : Config) : Consumption Bytes Files where
  part payload before after :=
    Begins n config payload before after ∨ Archives n config payload before after
  full := Archives n config
  refl _ _ := Or.inl (Or.inl fun _ _ => rfl)
  part_of_full := Or.inr

/-- **`HandleDigestReady` is an attempt**, if its writes lose nothing. -/
theorem attempt_handleDigestReady (n : Nlohmann) (config : Config) {first second : WriteCalls}
    {payload : Bytes} (hkeeps : ∀ digest, n.decode DigestReadyMessage.codec payload = some digest →
      first.LosesNothing (renderDigestMarkdown digest) ∧
        second.LosesNothing (renderDigestMarkdown digest)) (files : Files) :
    (consumption n config).Attempt payload files
      (Pipeline.settlement (handleDigestReady n config first second payload files).1)
      (handleDigestReady n config first second payload files).2 := by
  cases hdecode : n.decode DigestReadyMessage.codec payload with
  | none =>
    rw [handleDigestReady_of_decode_eq_none hdecode]
    refine ⟨fun _ h => h, fun _ u h => ?_, fun _ h => h⟩
    show Archives n config payload u files
    rcases h with (hsame | ⟨digest, hdigest, -⟩) | hfull
    · rw [Archives, hdecode]
      exact hsame
    · exact absurd (hdecode.symm.trans hdigest) (by simp)
    · exact hfull
  | some digest =>
    obtain ⟨hfirst, hsecond⟩ := hkeeps digest hdecode
    have hfull : ∀ u v, Archives n config payload u v ↔ SameFiles v (withBoth config digest u) := by
      intro u v
      rw [Archives, hdecode]
    have hbegins : ∀ u v, Begins n config payload u v ↔
        SameFiles v u ∨ SameFiles v (withDigest config digest u) := by
      intro u v
      simp only [Begins, hdecode, Option.some.injEq, exists_eq_left']
    have houtcome := handleDigestReady_outcome hdecode config hfirst hsecond files
    generalize handleDigestReady n config first second payload files = result at houtcome ⊢
    obtain ⟨decision, files'⟩ := result
    -- a complete state stays complete, whatever is written
    have hstable : ∀ u, SameFiles files (withBoth config digest u) →
        SameFiles files' (withBoth config digest u) := by
      intro u h
      rcases houtcome with ⟨-, hnothing | hone⟩ | ⟨-, hboth⟩
      · exact hnothing.trans h
      · exact withDigest_withBoth config digest u ▸ hone.trans (h.withDigest config digest)
      · exact withBoth_withBoth config digest u ▸ hboth.trans (h.withBoth config digest)
    have hcomplete : SameFiles files' (withBoth config digest files) → ∀ u,
        SameFiles files u ∨ SameFiles files (withDigest config digest u) →
          SameFiles files' (withBoth config digest u) := by
      rintro hboth u (h | h)
      · exact hboth.trans (h.withBoth config digest)
      · exact withBoth_withDigest config digest u ▸ hboth.trans (h.withBoth config digest)
    refine ⟨fun u h => ?_, fun hfinal u h => ?_, fun u h => ?_⟩
    · rcases h with h | h
      · have h := (hbegins u files).mp h
        rcases houtcome with ⟨-, hnothing | hone⟩ | ⟨-, hboth⟩
        · exact Or.inl ((hbegins u files').mpr (h.imp hnothing.trans hnothing.trans))
        · refine Or.inl ((hbegins u files').mpr (Or.inr ?_))
          have htwice : withDigest config digest (withDigest config digest u) =
              withDigest config digest u := Function.update_idem ..
          rcases h with h | h
          · exact hone.trans (h.withDigest config digest)
          · exact htwice ▸ hone.trans (h.withDigest config digest)
        · exact Or.inr ((hfull u files').mpr (hcomplete hboth u h))
      · exact Or.inr ((hfull u files').mpr (hstable u ((hfull u files).mp h)))
    · rcases houtcome with ⟨hrequeue, -⟩ | ⟨-, hboth⟩
      · obtain rfl : decision = .kRequeue := hrequeue
        exact absurd rfl hfinal
      · refine (hfull u files').mpr ?_
        rcases h with h | h
        · exact hcomplete hboth u ((hbegins u files).mp h)
        · exact hstable u ((hfull u files).mp h)
    · exact (hfull u files').mpr (hstable u ((hfull u files).mp h))

/-! ## The archive -/

theorem archive_concat (n : Nlohmann) (config : Config) (payloads : List Bytes) (payload : Bytes) :
    archive n config (payloads ++ [payload]) =
      match n.decode DigestReadyMessage.codec payload with
      | none => archive n config payloads
      | some digest => withBoth config digest (archive n config payloads) := by
  unfold archive
  rw [List.filterMap_append, List.foldl_append]
  cases hdecode : n.decode DigestReadyMessage.codec payload with
  | none => rw [List.filterMap_cons_none hdecode]; rfl
  | some digest => rw [List.filterMap_cons_some hdecode]; rfl

/-- One more digest is archived. -/
theorem sameFiles_archive_concat {n : Nlohmann} {config : Config} {payloads : List Bytes}
    {payload : Bytes} {before after : Files} (h : SameFiles before (archive n config payloads))
    (hfull : Archives n config payload before after) :
    SameFiles after (archive n config (payloads ++ [payload])) := by
  rw [archive_concat]
  unfold Archives at hfull
  cases hdecode : n.decode DigestReadyMessage.codec payload with
  | none =>
    rw [hdecode] at hfull
    exact SameFiles.trans hfull h
  | some digest =>
    rw [hdecode] at hfull
    exact SameFiles.trans hfull (h.withBoth config digest)

/-- Digests that are taken once each are archived once each. -/
theorem sameFiles_archive_of_once {n : Nlohmann} {config : Config} {payloads : List Bytes}
    {files : Files} (h : (consumption n config).Once (fun _ => none) payloads files) :
    SameFiles files (archive n config payloads) := by
  induction h with
  | nil => exact fun _ _ => rfl
  | concat _ hfull ih => exact sameFiles_archive_concat ih hfull

/-- A digest is written to a path. -/
def Writes (config : Config) (path : Bytes) (digest : DigestReadyMessage) : Prop :=
  path = latestFile config ∨ path = digestFile config digest

instance (config : Config) (path : Bytes) (digest : DigestReadyMessage) :
    Decidable (Writes config path digest) := inferInstanceAs (Decidable (_ ∨ _))

/-- What a file holds when a digest was archived. -/
theorem withBoth_apply (config : Config) (digest : DigestReadyMessage) (files : Files)
    (path : Bytes) : withBoth config digest files path =
      if Writes config path digest then some (renderDigestMarkdown digest) else files path := by
  have hwrites : Writes config path digest ↔
    path = latestFile config ∨ path = digestFile config digest := Iff.rfl
  unfold withBoth withDigest
  by_cases hlatest : path = latestFile config
  · rw [if_pos (hwrites.mpr (Or.inl hlatest)), hlatest, Function.update_self]
  · rw [Function.update_of_ne hlatest]
    by_cases hdigest : path = digestFile config digest
    · rw [if_pos (hwrites.mpr (Or.inr hdigest)), hdigest, Function.update_self]
    · rw [if_neg fun h => (hwrites.mp h).elim hlatest hdigest, Function.update_of_ne hdigest]

/-- The last of some digests that is written to a path. -/
def lastWritten (config : Config) (path : Bytes) (digests : List DigestReadyMessage) :
    Option DigestReadyMessage :=
  (digests.filter fun digest => Writes config path digest).getLast?

/-- **What a file of the archive holds**: the last digest that is written there. -/
theorem archive_apply (n : Nlohmann) (config : Config) (payloads : List Bytes) (path : Bytes) :
    archive n config payloads path = (lastWritten config path
      (payloads.filterMap (n.decode DigestReadyMessage.codec))).map renderDigestMarkdown := by
  unfold archive lastWritten
  induction payloads.filterMap (n.decode DigestReadyMessage.codec) using List.reverseRecOn with
  | nil => rfl
  | append_singleton digests digest ih =>
    rw [List.foldl_append, List.foldl_cons, List.foldl_nil, withBoth_apply, List.filter_append,
      List.filter_singleton]
    by_cases hwrites : Writes config path digest
    · rw [if_pos hwrites, decide_eq_true hwrites, cond_true, List.getLast?_concat, Option.map_some]
    · rw [if_neg hwrites, decide_eq_false hwrites, cond_false, List.append_nil, ih]

/-- **The newest digest is in `latest.md`.** -/
theorem archive_latestFile (n : Nlohmann) (config : Config) (payloads : List Bytes) :
    archive n config payloads (latestFile config) =
      (payloads.filterMap (n.decode DigestReadyMessage.codec)).getLast?.map
        renderDigestMarkdown := by
  rw [archive_apply, lastWritten, List.filter_eq_self.mpr]
  exact fun _ _ => decide_eq_true (Or.inl rfl)

/-- **The newest digest is in its own file** as well. -/
theorem archive_digestFile {n : Nlohmann} {payloads : List Bytes} {digest : DigestReadyMessage}
    (h : (payloads.filterMap (n.decode DigestReadyMessage.codec)).getLast? = some digest)
    (config : Config) :
    archive n config payloads (digestFile config digest) = some (renderDigestMarkdown digest) := by
  obtain ⟨digests, hlast⟩ := List.getLast?_eq_some_iff.mp h
  have hown : decide (Writes config (digestFile config digest) digest) = true :=
    decide_eq_true (Or.inr rfl)
  rw [archive_apply, lastWritten, hlast, List.filter_append, List.filter_singleton, hown, cond_true,
    List.getLast?_concat, Option.map_some]

end Notifier
namespace Pipeline

open Messaging HabrDigest.Parser Storage Notifier

/-! ## The queue of the notifier -/

/-- The files of the digest that is handled lose nothing when they are closed. -/
def KeepsBytes {ι : Type} (P : Press) (m : Move (Newsroom ι) (NewsEvent ι)) : Prop :=
  match m.event with
  | .notifierReceives first second _ =>
    ∀ link tag payload broker,
      receiveFrom m.pre.notifier m.pre.broker = some (link, tag, payload, broker) →
      ∀ digest, P.setting.nlohmann.decode DigestReadyMessage.codec payload = some digest →
        first.LosesNothing (renderDigestMarkdown digest) ∧
          second.LosesNothing (renderDigestMarkdown digest)
  | _ => True

/-- Where nothing stays in a buffer, nothing is lost. -/
theorem keepsBytes_of_kept {ι : Type} {P : Press} {m : Move (Newsroom ι) (NewsEvent ι)}
    (h : ∀ first second through, m.event = .notifierReceives first second through →
      first.kept = none ∧ second.kept = none) : KeepsBytes P m := by
  unfold KeepsBytes
  split
  · rename_i first second through heq
    obtain ⟨hfirst, hsecond⟩ := h first second through heq
    intro _ _ _ _ _ _ _
    exact ⟨fun k hk => absurd (hfirst ▸ hk) (by simp), fun k hk => absurd (hsecond ▸ hk) (by simp)⟩
  · trivial

variable {ι : Type} {P : Press} [DecidableEq ι]

/-- Nobody else writes files. -/
theorem files_after {s : Newsroom ι} {e : NewsEvent ι}
    (hreceiver : e.receiver ≠ some .digestNotifier) : (s.after P e).files = s.files := by
  cases e with
  | notifierReceives first second through => exact absurd rfl hreceiver
  | exchanges | webReceives =>
    unfold Newsroom.after
    dsimp only
    split <;> rfl
  | connects subscriber => cases subscriber <;> rfl
  | _ => rfl

/-- **Every event keeps the order** in which the digests are archived. -/
theorem attends_after {s : Newsroom ι}
    (h : Attends (consumption P.setting.nlohmann P.notifier) (fun _ => none) .digestNotifier s
      s.files) (e : NewsEvent ι) {post : Newsroom ι}
    (hturn : HandedInTurn .digestNotifier ⟨s, e, post⟩)
    (hkeeps : KeepsBytes P ⟨s, e, post⟩) :
    Attends (consumption P.setting.nlohmann P.notifier) (fun _ => none) .digestNotifier
      (s.after P e) (s.after P e).files := by
  by_cases hreceiver : e.receiver = some .digestNotifier
  · cases e with
    | notifierReceives first second through =>
      unfold Newsroom.after
      dsimp only
      split
      · exact h
      rename_i link tag payload broker hreceive
      have hattempt := attempt_handleDigestReady P.setting.nlohmann P.notifier
        (hkeeps link tag payload broker hreceive) s.files
      have hreceive : receiveFrom (s.link .digestNotifier) s.broker =
          some (link, tag, payload, broker) := hreceive
      exact h.receives hreceive (by rfl) (by exact Newsroom.link_eq rfl rfl) (fun _ => hattempt)
        fun hne => absurd rfl hne
    | _ => exact absurd hreceiver (by simp [NewsEvent.receiver])
  · rw [files_after hreceiver]
    exact h.after e hturn hreceiver

/-- **So does a run** in which the digests are handed out in turn and no bytes are lost. -/
theorem attends_files {F : Set RawArticlesMessage} {tr : List (Move (Newsroom ι) (NewsEvent ι))}
    {s : Newsroom ι} (hrun : (P.system F ι).Run tr s)
    (hturn : ∀ m ∈ tr, HandedInTurn .digestNotifier m) (hkeeps : ∀ m ∈ tr, KeepsBytes P m) :
    Attends (consumption P.setting.nlohmann P.notifier) (fun _ => none) .digestNotifier s
      s.files := by
  refine hrun.invariant_of_moves (P := fun s => Attends _ _ .digestNotifier s s.files)
    (G := fun m => HandedInTurn .digestNotifier m ∧ KeepsBytes P m) ?_ ?_
    fun m hm => ⟨hturn m hm, hkeeps m hm⟩
  · rintro s rfl
    exact .empty _ _ _
  · rintro s e t h ⟨-, rfl⟩ hguard
    exact attends_after h e hguard.1 hguard.2

/-- The output directory, but for temporary files, is what these digests of the notifier's queue
make of it if each is written once: those that are gone, and at most the one behind them.  The first
file of the next one may be there as well. -/
structure ArchivedUpTo {ι : Type} (P : Press) (s : Newsroom ι) (payloads : List Bytes) : Prop where
  gone : s.broker.removedFrom .digestNotifier <+: payloads
  published : payloads <+: s.broker.acceptedIn .digestNotifier
  next : payloads.length ≤ (s.broker.removedFrom .digestNotifier).length + 1
  files : SameFiles s.files (archive P.setting.nlohmann P.notifier payloads) ∨
    ∃ payload digest, payloads ++ [payload] <+: s.broker.acceptedIn .digestNotifier ∧
      P.setting.nlohmann.decode DigestReadyMessage.codec payload = some digest ∧
      SameFiles s.files
        (withDigest P.notifier digest (archive P.setting.nlohmann P.notifier payloads))

/-- **Every digest is archived once**, whatever is delivered again and whichever writes fail, in the
order in which the digests came to the notifier's queue; and when all of them are gone, `latest.md`
is the Markdown of the newest. -/
theorem archived_once {F : Set RawArticlesMessage} {tr : List (Move (Newsroom ι) (NewsEvent ι))}
    {s : Newsroom ι} (hrun : (P.system F ι).Run tr s)
    (hturn : ∀ m ∈ tr, HandedInTurn .digestNotifier m) (hkeeps : ∀ m ∈ tr, KeepsBytes P m) :
    (∃ payloads, ArchivedUpTo P s payloads) ∧
    (s.broker.removedFrom .digestNotifier = s.broker.acceptedIn .digestNotifier →
      s.files (latestFile P.notifier) =
        ((s.broker.acceptedIn .digestNotifier).filterMap
          (P.setting.nlohmann.decode DigestReadyMessage.codec)).getLast?.map
            renderDigestMarkdown) := by
  obtain ⟨u, honce, hprefix, hcase⟩ := (attends_files hrun hturn hkeeps).order.once
  have hgone := sameFiles_archive_of_once honce
  have hdone : SameFiles s.files u → ∃ payloads, ArchivedUpTo P s payloads := fun hsame =>
    ⟨_, List.prefix_rfl, hprefix, Nat.le_succ _, Or.inl (hsame.trans hgone)⟩
  refine ⟨?_, fun hall => ?_⟩
  · rcases hcase with hnone | ⟨p, hnext, (hsame | ⟨digest, hdigest, hone⟩) | hfull⟩
    · exact hdone (hnone ▸ fun _ _ => rfl)
    · exact hdone hsame
    · exact ⟨_, List.prefix_rfl, hprefix, Nat.le_succ _,
        Or.inr ⟨p, digest, hnext, hdigest, hone.trans (hgone.withDigest _ _)⟩⟩
    · exact ⟨_, List.prefix_append _ _, hnext, by simp,
        Or.inl (sameFiles_archive_concat hgone hfull)⟩
  · rcases hcase with hnone | ⟨p, hnext, -⟩
    · rw [hnone, hgone _ (not_isTemporary_latestFile _), hall, archive_latestFile]
    · -- nothing is behind the last one
      have hlength := hnext.length_le
      rw [← hall, List.length_append, List.length_singleton] at hlength
      omega

/-! ## A digest that is written again -/

/-- A write that succeeds. -/
def goodWrite : WriteCalls := ⟨true, true, none, true, true⟩

/-- The second file of the digest cannot be opened, so the digest goes back to the queue, and is
written once more. -/
def writtenAgain : List (NewsEvent Unit) :=
  [.binds .digestNotifier, .exchanges, .connects .digestNotifier, .delivers 0 0,
    .notifierReceives goodWrite { goodWrite with opens := false } 1, .processes 0, .delivers 0 0,
    .notifierReceives goodWrite goodWrite 1, .processes 0]

/-- Both files of the digest are there in the end. -/
theorem archived_once_writtenAgain :
    let s := (pagePublished ++ writtenAgain).foldl (Newsroom.after smallPress) {}
    (s.files (utf8 "/data/digests/latest.md")).isSome = true ∧
    (∃ payloads, ArchivedUpTo smallPress s payloads) ∧
    s.files (latestFile smallPress.notifier) =
      ((s.broker.acceptedIn .digestNotifier).filterMap
        (smallPress.setting.nlohmann.decode DigestReadyMessage.codec)).getLast?.map
          renderDigestMarkdown := by
  have happens : ∀ e ∈ writtenAgain, ∀ s, CanHappen s e := by
    simp only [writtenAgain, List.forall_mem_cons]
    exact ⟨fun _ => ⟨trivial, trivial⟩, fun _ => ⟨trivial, trivial⟩, fun _ => ⟨trivial, trivial⟩,
      fun _ => ⟨trivial, trivial⟩, fun _ => ⟨trivial, trivial⟩, fun _ => ⟨trivial, trivial⟩,
      fun _ => ⟨trivial, trivial⟩, fun _ => ⟨trivial, trivial⟩, fun _ => ⟨trivial, trivial⟩,
      fun _ h => absurd h List.not_mem_nil⟩
  have hrun := run_pagePublished (.of_forall happens _)
  -- nothing stays in a buffer
  have hkept : ∀ e ∈ pagePublished ++ writtenAgain, ∀ first second through,
      e = .notifierReceives first second through → first.kept = none ∧ second.kept = none := by
    simp only [pagePublished, pageStored, writtenAgain, List.map_cons, List.map_nil,
      List.cons_append, List.nil_append, List.forall_mem_cons]
    simp [goodWrite]
  have hkeeps : ∀ m ∈ TransitionSystem.moves (Newsroom.after smallPress) {}
      (pagePublished ++ writtenAgain), KeepsBytes smallPress m := fun m hm =>
    keepsBytes_of_kept (hkept m.event (TransitionSystem.event_mem_of_mem_moves hm))
  obtain ⟨hfiles, hlatest⟩ := archived_once hrun (by decide +kernel) hkeeps
  exact ⟨by decide +kernel, hfiles, hlatest (by decide +kernel)⟩

end Pipeline
end HabrDigest
