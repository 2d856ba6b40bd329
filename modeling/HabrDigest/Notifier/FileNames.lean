import HabrDigest.Common.TimeUtil
import HabrDigest.Notifier.AtomicWrite

/-!
# The names of the digest files

A digest is written to a file named after its id, and to `latest.md`; each of the two is first
written under a temporary name beside it.  The id comes off the wire, so it may be any bytes, and
`ToFileNameToken` keeps the safe ones and makes a dash of every other.

Whatever the id is, the four names are components of a path, different from each other
(`writtenNames_nodup`, `isComponent_of_mem_writtenNames`), so the files stay in the output
directory.  Different ids may share a name, since a dash is safe itself.  Time stamps do not: only
their colons are replaced, and these stand at fixed places (`archiveName_injective`).

The rest is about runs.  An arrival changes only the files that are named after its digest
(`receive_frame`), so over any sequence of them an archive file is written again only by a digest
with its name, and for time stamps that is a digest with its id.
-/

namespace HabrDigest
namespace Notifier

open Messaging Common

/-- The name of the file of a digest. -/
def archiveName (digestId : Bytes) : Bytes :=
  utf8 "digest-" ++ toFileNameToken digestId ++ utf8 ".md"

def latestName : Bytes := utf8 "latest.md"

/-- The name that `WriteFileAtomically` writes to first. -/
def temporaryName (name : Bytes) : Bytes := name ++ utf8 ".tmp"

/-- The names of the files that a digest is written to. -/
def writtenNames (digestId : Bytes) : List Bytes :=
  [archiveName digestId, temporaryName (archiveName digestId), latestName,
    temporaryName latestName]

/-- A name is a single component of a path, and no special one. -/
structure IsComponent (name : Bytes) : Prop where
  ne_nil : name ≠ []
  slash_notMem : 0x2F ∉ name
  zero_notMem : 0 ∉ name
  ne_dot : name ≠ utf8 "."
  ne_dotDot : name ≠ utf8 ".."

/-! ## Any id -/

theorem isSafe_of_mem_toFileNameToken {value : Bytes} {b : UInt8}
    (h : b ∈ toFileNameToken value) : isSafe b = true := by
  have hdigest : ∀ b ∈ utf8 "digest", isSafe b = true := by decide
  unfold toFileNameToken at h
  dsimp only at h
  split at h
  · exact hdigest b h
  · obtain ⟨c, -, rfl⟩ := List.mem_map.mp h
    split
    · assumption
    · rfl

/-- A name of safe bytes and points that is longer than two is a component. -/
theorem isComponent_of_safe {name : Bytes} (h : ∀ b ∈ name, isSafe b = true ∨ b = 0x2E)
    (hlength : 2 < name.length) : IsComponent name where
  ne_nil hnil := by simp [hnil] at hlength
  slash_notMem hmem := absurd (h _ hmem) (by decide)
  zero_notMem hmem := absurd (h _ hmem) (by decide)
  ne_dot hdot := by
    rw [hdot] at hlength
    exact absurd hlength (by decide)
  ne_dotDot hdot := by
    rw [hdot] at hlength
    exact absurd hlength (by decide)

theorem safe_archiveName (digestId : Bytes) :
    ∀ b ∈ archiveName digestId, isSafe b = true ∨ b = 0x2E := by
  have hfront : ∀ b ∈ utf8 "digest-", isSafe b = true ∨ b = 0x2E := by decide
  have hback : ∀ b ∈ utf8 ".md", isSafe b = true ∨ b = 0x2E := by decide
  intro b hb
  rcases List.mem_append.mp hb with hb | hb
  · rcases List.mem_append.mp hb with hb | hb
    · exact hfront b hb
    · exact Or.inl (isSafe_of_mem_toFileNameToken hb)
  · exact hback b hb

theorem two_lt_length_archiveName (digestId : Bytes) : 2 < (archiveName digestId).length := by
  have hfront : (utf8 "digest-").length = 7 := by decide
  rw [archiveName, List.length_append, List.length_append, hfront]
  omega

/-- **Every name is a component**, whatever the id is. -/
theorem isComponent_of_mem_writtenNames {digestId name : Bytes}
    (h : name ∈ writtenNames digestId) : IsComponent name := by
  have hsuffix : ∀ b ∈ utf8 ".tmp", isSafe b = true ∨ b = 0x2E := by decide
  have htemporary : ∀ s : Bytes, (∀ b ∈ s, isSafe b = true ∨ b = 0x2E) → 2 < s.length →
      IsComponent (temporaryName s) := by
    intro s hs hlength
    refine isComponent_of_safe (fun b hb => ?_) ?_
    · exact (List.mem_append.mp hb).elim (hs b) (hsuffix b)
    · rw [temporaryName, List.length_append]
      omega
  have hlatest : ∀ b ∈ latestName, isSafe b = true ∨ b = 0x2E := by decide
  have hlatestLength : 2 < latestName.length := by decide
  simp only [writtenNames, List.mem_cons, List.not_mem_nil, or_false] at h
  rcases h with rfl | rfl | rfl | rfl
  · exact isComponent_of_safe (safe_archiveName _) (two_lt_length_archiveName _)
  · exact htemporary _ (safe_archiveName _) (two_lt_length_archiveName _)
  · exact isComponent_of_safe hlatest hlatestLength
  · exact htemporary _ hlatest hlatestLength

theorem getLast?_archiveName (digestId : Bytes) :
    (archiveName digestId).getLast? = some 0x64 := by
  have hback : (utf8 ".md").getLast? = some 0x64 := by decide
  rw [archiveName, List.getLast?_append, hback]
  rfl

theorem getLast?_temporaryName (name : Bytes) : (temporaryName name).getLast? = some 0x70 := by
  have hback : (utf8 ".tmp").getLast? = some 0x70 := by decide
  rw [temporaryName, List.getLast?_append, hback]
  rfl

/-- An archive name ends in `d`, and a temporary one in `p`. -/
theorem archiveName_ne_temporaryName (digestId name : Bytes) :
    archiveName digestId ≠ temporaryName name := by
  intro h
  have hlast := getLast?_archiveName digestId
  rw [h, getLast?_temporaryName] at hlast
  exact absurd hlast (by decide)

/-- An archive name begins with `d`. -/
theorem head?_archiveName (digestId : Bytes) : (archiveName digestId).head? = some 0x64 := by
  have hfront : utf8 "digest-" = 0x64 :: utf8 "igest-" := by decide
  rw [archiveName, hfront]
  rfl

theorem archiveName_ne_latestName (digestId : Bytes) : archiveName digestId ≠ latestName := by
  intro h
  have hhead := head?_archiveName digestId
  rw [h] at hhead
  exact absurd hhead (by decide)

/-- **The four names are different.** -/
theorem writtenNames_nodup (digestId : Bytes) : (writtenNames digestId).Nodup := by
  have hlatest : latestName ≠ temporaryName latestName := by decide
  have hcross : temporaryName (archiveName digestId) ≠ latestName := by
    intro h
    have hlast := getLast?_temporaryName (archiveName digestId)
    rw [h] at hlast
    exact absurd hlast (by decide)
  have htemporary : temporaryName (archiveName digestId) ≠ temporaryName latestName := fun h =>
    archiveName_ne_latestName digestId (List.append_cancel_right h)
  simp [writtenNames, archiveName_ne_temporaryName, archiveName_ne_latestName, hlatest, hcross,
    htemporary]

/-! ## Time stamps -/

/-- `ToFileNameToken`, byte by byte. -/
def replaced (ch : UInt8) : UInt8 := if isSafe ch then ch else 0x2D

theorem map_replaced {s : Bytes} (h : ∀ b ∈ s, isSafe b = true) : s.map replaced = s :=
  (List.map_congr_left fun b hb => if_pos (h b hb)).trans (List.map_id s)

theorem isSafe_of_isDigit {b : UInt8} (h : Numeral.isDigit b = true) : isSafe b = true := by
  unfold Numeral.isDigit at h
  unfold isSafe
  simp only [h, Bool.or_true, Bool.true_or]

theorem map_replaced_digits (f : TwoDigits) : f.1.map replaced = f.1 :=
  map_replaced fun b hb => isSafe_of_isDigit (f.2.2 b hb)

/-- The token of a time stamp is the time stamp with dashes for its colons. -/
theorem toFileNameToken_text (stamp : Stamp) :
    toFileNameToken (stamp.text 0x3A) = stamp.text 0x2D := by
  have hyear : stamp.year.map replaced = stamp.year := map_replaced fun b hb =>
    (stamp.isYear b hb).elim isSafe_of_isDigit fun hdash => hdash ▸ by decide
  have hmap : (stamp.text 0x3A).map replaced = stamp.text 0x2D := by
    unfold Stamp.text
    simp only [List.map_append, List.map_cons, List.map_nil, hyear, map_replaced_digits]
    rfl
  have hne : stamp.text 0x2D ≠ [] := by simp [Stamp.text]
  unfold toFileNameToken
  exact (congrArg (fun token => if token = [] then utf8 "digest" else token) hmap).trans
    (if_neg hne)

/-- **Different time stamps have different archive names.** -/
theorem archiveName_injective {s t : Bytes} (hs : IsTimestamp s) (ht : IsTimestamp t)
    (h : archiveName s = archiveName t) : s = t := by
  obtain ⟨stamp, rfl⟩ := hs
  obtain ⟨stamp', rfl⟩ := ht
  have htoken : toFileNameToken (stamp.text 0x3A) = toFileNameToken (stamp'.text 0x3A) :=
    List.append_cancel_left (List.append_cancel_right h)
  rw [toFileNameToken_text, toFileNameToken_text] at htoken
  rw [Stamp.text_injective 0x2D htoken]

/-! ## Runs -/

/-- A message that arrives, and what the operations of its two writes do. -/
structure Arrival where
  payload : Bytes
  first : WriteCalls
  second : WriteCalls

/-- The files after an arrival. -/
def receive (n : Nlohmann) (config : Config) (files : Files) (a : Arrival) : Files :=
  (handleDigestReady n config a.first a.second a.payload files).2

/-- The files after a sequence of them. -/
def receiveAll (n : Nlohmann) (config : Config) (files : Files) (arrivals : List Arrival) : Files :=
  arrivals.foldl (receive n config) files

/-- The paths that a digest is written to. -/
def writtenPaths (config : Config) (digestId : Bytes) : List Bytes :=
  (writtenNames digestId).map (join config.outputDir)

theorem mem_writtenPaths {config : Config} {digest : DigestReadyMessage} {path : Bytes} :
    path ∈ writtenPaths config digest.digestId ↔
      path = digestFile config digest ∨ path = digestFile config digest ++ utf8 ".tmp" ∨
        path = latestFile config ∨ path = latestFile config ++ utf8 ".tmp" := by
  have hdigest : digestFile config digest = join config.outputDir (archiveName digest.digestId) :=
    rfl
  have hlatest : latestFile config = join config.outputDir latestName := rfl
  rw [hdigest, hlatest, join_append, join_append]
  simp [writtenPaths, writtenNames, temporaryName]

/-- **An arrival changes only the files of its digest.** -/
theorem receive_frame {n : Nlohmann} {config : Config} {a : Arrival} {path : Bytes}
    (h : ∀ digest ∈ n.decode DigestReadyMessage.codec a.payload,
      path ∉ writtenPaths config digest.digestId) (files : Files) :
    receive n config files a path = files path := by
  unfold receive
  cases hdecode : n.decode DigestReadyMessage.codec a.payload with
  | none => rw [handleDigestReady_of_decode_eq_none hdecode]
  | some digest =>
    have hpath := h digest hdecode
    simp only [mem_writtenPaths, not_or] at hpath
    obtain ⟨hfile, htemporary, hlatest, hlatestTemporary⟩ := hpath
    have hfirst := (writeFileAtomically_spec a.first (digestFile config digest)
      (renderDigestMarkdown digest) files).2.2 path hfile htemporary
    rw [handleDigestReady_eq hdecode]
    dsimp only
    by_cases hreturns : a.first.returns = true
    · have hsecond := (writeFileAtomically_spec a.second (latestFile config)
        (renderDigestMarkdown digest) (writeFileAtomically a.first (digestFile config digest)
          (renderDigestMarkdown digest) files).2).2.2 path hlatest hlatestTemporary
      rw [if_pos hreturns]
      exact hsecond.trans hfirst
    · rw [if_neg hreturns]
      exact hfirst

/-- A file that a run changes is a file of one of its digests. -/
theorem receiveAll_frame {n : Nlohmann} {config : Config} {arrivals : List Arrival}
    {files : Files} {path : Bytes} (h : receiveAll n config files arrivals path ≠ files path) :
    ∃ a ∈ arrivals, ∃ digest ∈ n.decode DigestReadyMessage.codec a.payload,
      path ∈ writtenPaths config digest.digestId := by
  induction arrivals generalizing files with
  | nil => exact absurd rfl h
  | cons a arrivals ih =>
    by_cases hrest : receiveAll n config (receive n config files a) arrivals path =
        receive n config files a path
    · -- the rest of the run leaves the file, so the first arrival has changed it
      by_contra hnone
      have hkept : receive n config files a path = files path :=
        receive_frame (fun digest hdigest hmem =>
          hnone ⟨a, List.mem_cons_self .., digest, hdigest, hmem⟩) files
      exact h (hrest.trans hkept)
    · obtain ⟨b, hb, hwritten⟩ := ih hrest
      exact ⟨b, List.mem_cons_of_mem a hb, hwritten⟩

/-- An archive file is a file of a digest only where the digest has its name. -/
theorem archiveName_eq_of_mem_writtenPaths {config : Config} {id digestId : Bytes}
    (h : join config.outputDir (archiveName id) ∈ writtenPaths config digestId) :
    archiveName id = archiveName digestId := by
  obtain ⟨name, hname, hjoin⟩ := List.mem_map.mp h
  obtain rfl : name = archiveName id := join_injective _ hjoin
  simp only [writtenNames, List.mem_cons, List.not_mem_nil, or_false] at hname
  rcases hname with hname | hname | hname | hname
  · exact hname
  · exact absurd hname (archiveName_ne_temporaryName _ _)
  · exact absurd hname (archiveName_ne_latestName _)
  · exact absurd hname (archiveName_ne_temporaryName _ _)

/-- **Digest files stay in the output directory and do not collide.**  For every id the four names
are different components; an archive name is the temporary name of no other id; time stamps, which
`NowIso8601Utc` emits, have archive names of their own.  And over any sequence of arrivals a file
changes only if it is one of the files of a digest among them; so, where the ids are time stamps,
an archive file changes only if a digest with its id is among them. -/
theorem digestFiles_spec (n : Nlohmann) (config : Config) :
    (∀ id, (writtenNames id).Nodup ∧ ∀ name ∈ writtenNames id, IsComponent name) ∧
    (∀ id id', archiveName id ≠ temporaryName (archiveName id')) ∧
    (∀ now, IsTimestamp (nowIso8601Utc now)) ∧
    (∀ id id', IsTimestamp id → IsTimestamp id' → archiveName id = archiveName id' → id = id') ∧
    (∀ arrivals files path, receiveAll n config files arrivals path ≠ files path →
      ∃ a ∈ arrivals, ∃ digest ∈ n.decode DigestReadyMessage.codec a.payload,
        path ∈ writtenPaths config digest.digestId) ∧
    ∀ arrivals files id, IsTimestamp id →
      (∀ a ∈ arrivals, ∀ digest ∈ n.decode DigestReadyMessage.codec a.payload,
        IsTimestamp digest.digestId) →
      receiveAll n config files arrivals (join config.outputDir (archiveName id)) ≠
        files (join config.outputDir (archiveName id)) →
      ∃ a ∈ arrivals, ∃ digest ∈ n.decode DigestReadyMessage.codec a.payload,
        digest.digestId = id := by
  refine ⟨fun id => ⟨writtenNames_nodup id, fun _ => isComponent_of_mem_writtenNames⟩,
    fun id id' => archiveName_ne_temporaryName id _, isTimestamp_nowIso8601Utc,
    fun _ _ => archiveName_injective, fun _ _ _ => receiveAll_frame, ?_⟩
  intro arrivals files id hid hstamps hchanged
  obtain ⟨a, ha, digest, hdigest, hwritten⟩ := receiveAll_frame hchanged
  have hname := archiveName_eq_of_mem_writtenPaths hwritten
  have hsame := archiveName_injective hid (hstamps a ha digest hdigest) hname
  exact ⟨a, ha, digest, hdigest, hsame.symm⟩

end Notifier
end HabrDigest
