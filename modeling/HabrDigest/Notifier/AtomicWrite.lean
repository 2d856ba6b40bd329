import HabrDigest.Notifier.NotifierService

/-!
# What an atomic write publishes

`WriteFileAtomically` writes under a temporary name and renames, so that nobody sees a file
that is half written.  The rename is atomic; what it publishes is whatever is in the
temporary file by then.  The stream is checked after the content was inserted, but an
`ofstream` may keep any end of what was inserted in its buffer until it is closed, and the
close is in the destructor, behind the check, where a failure raises nothing.

So the check sees the failures that happen while inserting, and the failures of the final
flush it does not see.  `writeFileAtomically_spec` is what one call does to the path, for
every choice of what fails; `published_whole_iff` says that a torn file is published exactly
where everything that is checked succeeds and the final flush loses bytes.
-/

namespace HabrDigest
namespace Notifier

open Messaging

namespace WriteCalls

/-- Everything that `WriteFileAtomically` checks succeeds. -/
def returns (calls : WriteCalls) : Bool := calls.opens && calls.inserts && calls.renames

/-- The final flush loses nothing: as many bytes are in the closed file as were inserted. -/
def LosesNothing (calls : WriteCalls) (content : Bytes) : Prop :=
  ∀ k ∈ calls.kept, content.length ≤ k

/-- The bytes in the closed file. -/
def written (calls : WriteCalls) (content : Bytes) : Bytes :=
  (calls.kept.map fun k => content.take k).getD content

theorem written_eq_iff (calls : WriteCalls) (content : Bytes) :
    calls.written content = content ↔ calls.LosesNothing content := by
  unfold written LosesNothing
  cases calls.kept with
  | none => simp
  | some k => simp

end WriteCalls

/-- What an atomic write promises: the path holds what it held before or the whole content, and
the whole content if the write returns. -/
structure PublishesWhole (path content : Bytes) (files : Files) (result : Bool × Files) :
    Prop where
  atomic : result.2 path = files path ∨ result.2 path = some content
  returned : result.1 = true → result.2 path = some content

/-- **One call of `WriteFileAtomically`**, for every choice of what fails: the path changes only
where it returns, and what it holds then is what was in the closed file; no other file changes
but the temporary one. -/
theorem writeFileAtomically_spec (calls : WriteCalls) (path content : Bytes) (files : Files) :
    (writeFileAtomically calls path content files).1 = calls.returns ∧
    (writeFileAtomically calls path content files).2 path =
      (if calls.returns then some (calls.written content) else files path) ∧
    ∀ other, other ≠ path → other ≠ path ++ utf8 ".tmp" →
      (writeFileAtomically calls path content files).2 other = files other := by
  have htemporary : path ≠ path ++ utf8 ".tmp" := by
    intro h
    have hlen := congrArg List.length h
    rw [List.length_append] at hlen
    exact absurd hlen (by simp [utf8])
  unfold writeFileAtomically WriteCalls.returns WriteCalls.written
  cases hopens : calls.opens with
  | false => exact ⟨rfl, rfl, fun _ _ _ => rfl⟩
  | true =>
    cases hinserts : calls.inserts with
    | false =>
      refine ⟨rfl, ?_, fun other _ h => ?_⟩
      · exact Function.update_of_ne htemporary _ _
      · exact Function.update_of_ne h _ _
    | true =>
      cases hrenames : calls.renames with
      | false =>
        have hcleaned : ∀ other, other ≠ path ++ utf8 ".tmp" →
            (if calls.removes then
              Function.update (Function.update files (path ++ utf8 ".tmp")
                (some ((calls.kept.map fun k => content.take k).getD content)))
                (path ++ utf8 ".tmp") none
            else Function.update files (path ++ utf8 ".tmp")
              (some ((calls.kept.map fun k => content.take k).getD content))) other =
              files other := by
          intro other h
          split
          · rw [Function.update_of_ne h, Function.update_of_ne h]
          · rw [Function.update_of_ne h]
        exact ⟨rfl, hcleaned path htemporary, fun other _ h => hcleaned other h⟩
      | true =>
        refine ⟨rfl, Function.update_self .., fun other h h' => ?_⟩
        simp only [Bool.true_eq_false, if_false]
        rw [Function.update_of_ne h, Function.update_of_ne h', Function.update_of_ne h']

/-- **A write publishes the whole content** exactly where, if everything that is checked
succeeds, the final flush loses nothing. -/
theorem publishesWhole_iff (calls : WriteCalls) (path content : Bytes) (files : Files) :
    PublishesWhole path content files (writeFileAtomically calls path content files) ↔
      (calls.returns = true → calls.LosesNothing content) := by
  obtain ⟨hreturns, hpath, -⟩ := writeFileAtomically_spec calls path content files
  rw [← calls.written_eq_iff]
  constructor
  · intro h hret
    have hwhole := h.returned (hreturns.trans hret)
    rw [hpath, if_pos hret] at hwhole
    exact Option.some.inj hwhole
  · intro h
    cases hret : calls.returns with
    | false =>
      rw [hret] at hreturns
      refine ⟨Or.inl ?_, fun hr => absurd hr (by simp [hreturns])⟩
      rw [hpath, if_neg (by simp [hret])]
    | true =>
      have hwhole : (writeFileAtomically calls path content files).2 path = some content := by
        rw [hpath, if_pos hret, h hret]
      exact ⟨Or.inr hwhole, fun _ => hwhole⟩

/-! ## The two files of a digest -/

/-- Names in one directory are different files. -/
theorem join_injective (directory : Bytes) {s t : Bytes} (h : join directory s = join directory t) :
    s = t := by
  unfold join at h
  cases hlast : directory.getLast? with
  | none =>
    rw [hlast] at h
    exact h
  | some b =>
    rw [hlast] at h
    dsimp only at h
    split at h
    · exact List.append_cancel_left h
    · exact List.append_cancel_left h

/-- A temporary file is in the directory of the file. -/
theorem join_append (directory name suffix : Bytes) :
    join directory name ++ suffix = join directory (name ++ suffix) := by
  unfold join
  cases directory.getLast? with
  | none => rfl
  | some b =>
    dsimp only
    split <;> simp [List.append_assoc]

/-- The file of a digest is neither the latest one nor its temporary file. -/
theorem digestFile_ne (config : Config) (digest : DigestReadyMessage) :
    digestFile config digest ≠ latestFile config ∧
      digestFile config digest ≠ latestFile config ++ utf8 ".tmp" := by
  have hname : ∀ name : Bytes, name.head? = some 0x6C →
      utf8 "digest-" ++ toFileNameToken digest.digestId ++ utf8 ".md" ≠ name := by
    rintro name hhead rfl
    have hdigest : utf8 "digest-" = 0x64 :: utf8 "igest-" := by decide
    rw [hdigest] at hhead
    exact absurd hhead (by simp)
  refine ⟨fun h => hname _ ?_ (join_injective _ h), fun h => ?_⟩
  · decide
  · rw [latestFile, join_append] at h
    exact hname _ (by decide) (join_injective _ h)

/-- Both files of a digest hold its Markdown. -/
def BothHold (config : Config) (digest : DigestReadyMessage) (files : Files) : Prop :=
  files (digestFile config digest) = some (renderDigestMarkdown digest) ∧
    files (latestFile config) = some (renderDigestMarkdown digest)

/-- A digest is acknowledged when both writes return. -/
theorem handleDigestReady_eq {n : Nlohmann} {payload : Bytes} {digest : DigestReadyMessage}
    (hdecode : n.decode DigestReadyMessage.codec payload = some digest) (config : Config)
    (first second : WriteCalls) (files : Files) :
    handleDigestReady n config first second payload files =
      (let afterFirst := writeFileAtomically first (digestFile config digest)
        (renderDigestMarkdown digest) files
      let afterSecond := writeFileAtomically second (latestFile config)
        (renderDigestMarkdown digest) afterFirst.2
      if first.returns then (if second.returns then .kAck else .kRequeue, afterSecond.2)
      else (.kRequeue, afterFirst.2)) := by
  have hfirst := (writeFileAtomically_spec first (digestFile config digest)
    (renderDigestMarkdown digest) files).1
  unfold handleDigestReady
  rw [hdecode]
  dsimp only
  rw [← hfirst]
  generalize writeFileAtomically first _ _ files = result
  obtain ⟨ok, files'⟩ := result
  have hsecond := (writeFileAtomically_spec second (latestFile config)
    (renderDigestMarkdown digest) files').1
  cases ok with
  | false => rfl
  | true =>
    dsimp only
    rw [← hsecond]
    generalize writeFileAtomically second _ _ files' = result
    obtain ⟨ok', files''⟩ := result
    cases ok' <;> rfl

/-- **An acknowledged digest is in both files** exactly where, if both writes return, neither
final flush loses anything. -/
theorem handleDigestReady_whole_iff {n : Nlohmann} {payload : Bytes} {digest : DigestReadyMessage}
    (hdecode : n.decode DigestReadyMessage.codec payload = some digest) (config : Config)
    (first second : WriteCalls) (files : Files) :
    ((handleDigestReady n config first second payload files).1 = .kAck →
      BothHold config digest (handleDigestReady n config first second payload files).2) ↔
    (first.returns = true → second.returns = true →
      first.LosesNothing (renderDigestMarkdown digest) ∧
        second.LosesNothing (renderDigestMarkdown digest)) := by
  obtain ⟨hne, hne'⟩ := digestFile_ne config digest
  rw [handleDigestReady_eq hdecode]
  dsimp only
  obtain ⟨-, hpath, -⟩ := writeFileAtomically_spec first (digestFile config digest)
    (renderDigestMarkdown digest) files
  generalize (writeFileAtomically first _ _ files).2 = files' at hpath ⊢
  obtain ⟨-, hpath', hother⟩ := writeFileAtomically_spec second (latestFile config)
    (renderDigestMarkdown digest) files'
  generalize (writeFileAtomically second _ _ files').2 = files'' at hpath' hother ⊢
  cases hfirst : first.returns with
  | false => simp
  | true =>
    cases hsecond : second.returns with
    | false => simp
    | true =>
      rw [if_pos hfirst] at hpath
      rw [if_pos hsecond] at hpath'
      have hfile := (hother _ hne hne').trans hpath
      simp only [if_true, BothHold, hfile, hpath', Option.some.injEq, WriteCalls.written_eq_iff,
        forall_const]

/-- **When a torn file is published.**  For every choice of what fails: a write leaves the old or
the whole new content, and the whole new content if it returns, if and only if the final flush
loses nothing where everything that is checked succeeds; and an acknowledged digest is whole in
both files under the same condition on both writes. -/
theorem published_whole_iff (n : Nlohmann) (config : Config) (calls first second : WriteCalls)
    (path content payload : Bytes) (files : Files) :
    (PublishesWhole path content files (writeFileAtomically calls path content files) ↔
      (calls.returns = true → calls.LosesNothing content)) ∧
    ∀ digest, n.decode DigestReadyMessage.codec payload = some digest →
      (((handleDigestReady n config first second payload files).1 = .kAck →
        BothHold config digest (handleDigestReady n config first second payload files).2) ↔
      (first.returns = true → second.returns = true →
        first.LosesNothing (renderDigestMarkdown digest) ∧
          second.LosesNothing (renderDigestMarkdown digest))) :=
  ⟨publishesWhole_iff calls path content files, fun _ hdecode =>
    handleDigestReady_whole_iff hdecode config first second files⟩

/-- The disk is full when the destructor writes the buffer: everything before has succeeded. -/
def fullDisk : WriteCalls := ⟨true, true, some 0, true, true⟩

/-- **The file that is published empty**: the final flush fails, and the rename goes ahead. -/
theorem published_torn :
    ¬ ∀ (calls : WriteCalls) (path content : Bytes) (files : Files),
      PublishesWhole path content files (writeFileAtomically calls path content files) := by
  intro hall
  have h := hall fullDisk (utf8 "latest.md") (utf8 "# Habr digest") fun _ => none
  rw [publishesWhole_iff] at h
  exact absurd (h rfl 0 rfl) (by decide)

end Notifier
end HabrDigest
