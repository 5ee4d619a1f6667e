import Mathlib.Data.List.Find
import Mathlib.Data.List.Sort
import Goble.Lib.Joined
import Goble.Lib.Lists
import Goble.Update.Manifest

/-!
# What a signature covers

The signed text is joined from the fields of a release: lower-cased, sorted, with spaces and
newlines between them. Two releases with one text agree in the version, the epoch and the
withdrawn versions, so they differ at most in the artifact they offer. They do differ there where
one platform is listed twice, since the text forgets the order of the artifacts and the choice
takes the first, and where a field that is not checked holds a separator.
-/

namespace Goble.Update

open Text (toAsciiLowercase)

/-! ### What a decision says -/

/-- What is fetched and what it is held against: a digest is compared in lower case. -/
structure Offer where
  url : List Char
  digest : List Char
  size : Nat
deriving DecidableEq, Repr

def Artifact.offer (artifact : Artifact) : Offer where
  url := artifact.url
  digest := toAsciiLowercase artifact.sha256
  size := artifact.size

/-- An outcome up to the channel, the notes and the date. -/
inductive Decision (V : Type) where
  | upToDate (current latest : V)
  | available (version : V) (epoch : Nat) (rollback currentYanked : Bool) (offer : Offer)
      (verified : Bool)
  | unsupported (reason : List Char)
deriving DecidableEq, Repr

def CheckOutcome.decision {V : Type} : CheckOutcome V → Decision V
  | .upToDate current latest => .upToDate current latest
  | .available update =>
    .available update.version update.epoch update.rollback update.currentYanked
      update.artifact.offer update.verified
  | .unsupported reason => .unsupported reason

/-- The decisions about two releases are the same for every client. -/
def SameDecisions {V : Type} [DecidableEq V] (semver : Semver V) (r₁ r₂ : ChannelRelease) : Prop :=
  ∀ (c₁ c₂ : Channel) (current : V) (installedEpoch : Nat) (os arch : List Char) (verified : Bool),
    (decideUpdate semver c₁ r₁ current installedEpoch os arch verified).map
        CheckOutcome.decision =
      (decideUpdate semver c₂ r₂ current installedEpoch os arch verified).map
        CheckOutcome.decision

/-! ### The artifact a platform gets -/

/-- What an artifact runs on, up to case. -/
def Artifact.platform (artifact : Artifact) : List Char × List Char :=
  (toAsciiLowercase artifact.os, toAsciiLowercase artifact.arch)

namespace ChannelRelease

variable (release : ChannelRelease)

def firstFor (os arch : List Char) : Option Artifact :=
  release.artifacts.find? fun artifact =>
    artifact.platform = (toAsciiLowercase os, toAsciiLowercase arch)

def listed (os arch : List Char) : Option Artifact :=
  (release.firstFor os arch).or (release.firstFor os universal)

/-- Some client is offered more than what it has. -/
def Offerable {V : Type} (semver : Semver V) : Prop :=
  ∃ latest current installedEpoch, parseVersion semver release.version = .ok latest ∧
    latest ≠ current ∧
    (installedEpoch < release.epoch ∨ release.isYanked (semver.toString current) ∨
      semver.lt current latest)

/-- No field holds what separates it from the next, and no platform is listed twice. -/
structure Plain : Prop where
  os : ∀ artifact ∈ release.artifacts, '\n' ∉ artifact.os ∧ ' ' ∉ artifact.os
  arch : ∀ artifact ∈ release.artifacts, '\n' ∉ artifact.arch ∧ ' ' ∉ artifact.arch
  url : ∀ artifact ∈ release.artifacts, '\n' ∉ artifact.url
  platforms : (release.artifacts.map Artifact.platform).Nodup

end ChannelRelease

namespace Artifact

variable {artifact : Artifact} {os arch : List Char}

theorem platform_eq :
    artifact.platform = (toAsciiLowercase os, toAsciiLowercase arch) ↔
      eqIgnoreAsciiCase artifact.os os ∧ eqIgnoreAsciiCase artifact.arch arch := by
  simp [platform, eqIgnoreAsciiCase]

theorem matches_and_not_isUniversal (harch : ¬ eqIgnoreAsciiCase arch universal) :
    artifact.matches os arch ∧ !artifact.isUniversal ↔
      artifact.platform = (toAsciiLowercase os, toAsciiLowercase arch) := by
  rw [platform_eq]
  simp only [Artifact.matches, isUniversal, eqIgnoreAsciiCase, Bool.and_eq_true, Bool.or_eq_true,
    Bool.not_eq_true', decide_eq_true_iff, decide_eq_false_iff_not] at harch ⊢
  constructor
  · rintro ⟨⟨hos, hexact | huniversal⟩, hnot⟩
    · exact ⟨hos, hexact⟩
    · exact absurd huniversal hnot
  · rintro ⟨hos, hexact⟩
    exact ⟨⟨hos, .inl hexact⟩, fun huniversal => harch (hexact.symm.trans huniversal)⟩

theorem matches_universal (harch : eqIgnoreAsciiCase arch universal) :
    artifact.matches os arch =
      decide (artifact.platform = (toAsciiLowercase os, toAsciiLowercase universal)) := by
  rw [Bool.eq_iff_iff, decide_eq_true_iff, platform_eq]
  simp only [Artifact.matches, eqIgnoreAsciiCase, Bool.and_eq_true, Bool.or_eq_true,
    decide_eq_true_iff] at harch ⊢
  rw [harch, or_self]

theorem matches_of_platform_ne
    (h : artifact.platform ≠ (toAsciiLowercase os, toAsciiLowercase arch)) :
    artifact.matches os arch =
      decide (artifact.platform = (toAsciiLowercase os, toAsciiLowercase universal)) := by
  rw [Bool.eq_iff_iff, decide_eq_true_iff, platform_eq]
  rw [Ne, platform_eq] at h
  simp only [Artifact.matches, Bool.and_eq_true, Bool.or_eq_true]
  constructor
  · rintro ⟨hos, hexact | huniversal⟩
    · exact absurd ⟨hos, hexact⟩ h
    · exact ⟨hos, huniversal⟩
  · rintro ⟨hos, huniversal⟩
    exact ⟨hos, .inr huniversal⟩

end Artifact

namespace ChannelRelease

variable {release : ChannelRelease}

theorem artifactFor_eq_listed (os arch : List Char) :
    release.artifactFor os arch = release.listed os arch := by
  rw [artifactFor, listed, List.find?_filter, List.head?_filter]
  by_cases harch : eqIgnoreAsciiCase arch universal
  · -- a universal build is asked for: every candidate is one
    have hnone : release.artifacts.find? (fun artifact =>
        artifact.matches os arch ∧ !artifact.isUniversal) = none := by
      refine List.find?_eq_none.mpr fun artifact _ hmatch => ?_
      obtain ⟨hmatch, hnot⟩ := of_decide_eq_true hmatch
      rw [Artifact.matches_universal harch, decide_eq_true_iff, Artifact.platform_eq] at hmatch
      rw [Artifact.isUniversal, hmatch.2] at hnot
      cases hnot
    have hsame : release.firstFor os arch = release.firstFor os universal := by
      rw [firstFor, firstFor, of_decide_eq_true harch]
    rw [hnone, Option.none_or, hsame, Option.or_self]
    exact List.find?_congr fun artifact _ => Artifact.matches_universal harch
  · have hexact : release.artifacts.find? (fun artifact =>
        artifact.matches os arch ∧ !artifact.isUniversal) = release.firstFor os arch :=
      List.find?_congr fun artifact _ =>
        decide_eq_decide.mpr (Artifact.matches_and_not_isUniversal harch)
    rw [hexact]
    cases hfirst : release.firstFor os arch with
    | some artifact => rfl
    | none =>
      refine List.find?_congr fun artifact hmem => Artifact.matches_of_platform_ne ?_
      simpa using List.find?_eq_none.mp hfirst artifact hmem

end ChannelRelease

/-! ### What the text says -/

variable {text : List Char}

/-- A version holds no separator. -/
theorem Semver.Lawful.notMem {V : Type} {semver : Semver V} (hsemver : semver.Lawful) {c : Char}
    (h : (semver.parse text).isSome)
    (hc : (c.isAlphanum || c = '.' || c = '-' || c = '+') = false) : c ∉ text := by
  obtain ⟨version, hversion⟩ := Option.isSome_iff_exists.mp h
  intro hmem
  rw [hsemver.chars text version hversion c hmem] at hc
  cases hc

theorem notMem_toDigits {c : Char} (hc : c.isDigit = false) (n : Nat) : c ∉ Nat.toDigits 10 n := by
  intro hmem
  rw [Nat.isDigit_of_mem_toDigits (by decide) (by decide) hmem] at hc
  cases hc

theorem toDigits_inj {m n : Nat} (h : Nat.toDigits 10 m = Nat.toDigits 10 n) : m = n :=
  calc m
      = Nat.ofDigitChars 10 (Nat.toDigits 10 m) 0 := Nat.ofDigitChars_ten_toDigits.symm
    _ = Nat.ofDigitChars 10 (Nat.toDigits 10 n) 0 := by rw [h]
    _ = n := Nat.ofDigitChars_ten_toDigits

namespace ChannelRelease

variable {V : Type} {semver : Semver V} {release r₁ r₂ : ChannelRelease}

theorem mem_artifactLines {line : List Char} :
    line ∈ release.artifactLines ↔ ∃ artifact ∈ release.artifacts, artifact.line = line := by
  rw [artifactLines, List.mem_mergeSort, List.mem_map]

theorem artifactLines_ne_nil (h : release.Valid semver) : release.artifactLines ≠ [] := by
  obtain ⟨artifact, hmem⟩ := List.exists_mem_of_ne_nil _ h.artifacts
  exact List.ne_nil_of_mem (mem_artifactLines.mpr ⟨artifact, hmem, rfl⟩)

theorem artifactLines_perm (h : r₁.artifacts.Perm r₂.artifacts) :
    r₁.artifactLines = r₂.artifactLines := by
  have hperm : r₁.artifactLines.Perm r₂.artifactLines :=
    (List.mergeSort_perm _ _).trans ((h.map Artifact.line).trans (List.mergeSort_perm _ _).symm)
  exact hperm.eq_of_pairwise' (List.pairwise_mergeSort' (· ≤ ·) _)
    (List.pairwise_mergeSort' (· ≤ ·) _)

theorem parse_of_mem_normalizedYanked (h : release.Valid semver)
    (hmem : text ∈ release.normalizedYanked) : (semver.parse text).isSome := by
  have hsorted := (List.destutter_sublist _ _).subset hmem
  rw [List.mem_mergeSort, List.mem_map] at hsorted
  obtain ⟨version, hversion, rfl⟩ := hsorted
  exact h.yanked version hversion

theorem signingPayload_eq (h : release.Valid semver) :
    release.signingPayload =
      signingDomain ++ '\n' :: (release.version ++ '\n' ::
        ("epoch=".toList ++ Nat.toDigits 10 release.epoch ++ '\n' ::
          ("yanked=".toList ++ [','].intercalate release.normalizedYanked ++ '\n' ::
            ['\n'].intercalate release.artifactLines))) := by
  rw [signingPayload]
  simp only [List.cons_append, List.nil_append]
  rw [intercalate_cons (by simp), intercalate_cons (by simp), intercalate_cons (by simp),
    intercalate_cons (artifactLines_ne_nil h)]

theorem notMem_epochLine : '\n' ∉ "epoch=".toList ++ Nat.toDigits 10 release.epoch := by
  rw [List.mem_append, not_or]
  exact ⟨by decide, notMem_toDigits (by decide) _⟩

theorem notMem_yankedLine (hsemver : semver.Lawful) (h : release.Valid semver) :
    '\n' ∉ "yanked=".toList ++ [','].intercalate release.normalizedYanked := by
  rw [List.mem_append, not_or]
  refine ⟨by decide, fun hmem => ?_⟩
  obtain hsep | ⟨text, htext, hmem⟩ := mem_intercalate hmem
  · exact absurd hsep (by decide)
  · exact hsemver.notMem (parse_of_mem_normalizedYanked h htext) (by decide) hmem

/-- The withdrawn versions, read back from their line. -/
theorem normalizedYanked_inj (hsemver : semver.Lawful) (h₁ : r₁.Valid semver)
    (h₂ : r₂.Valid semver)
    (h : [','].intercalate r₁.normalizedYanked = [','].intercalate r₂.normalizedYanked) :
    r₁.normalizedYanked = r₂.normalizedYanked := by
  have hparts : ∀ r : ChannelRelease, r.Valid semver → ∀ text ∈ r.normalizedYanked,
      text ≠ [] ∧ ',' ∉ text := by
    intro r hr text htext
    have hparse := parse_of_mem_normalizedYanked hr htext
    obtain ⟨version, hversion⟩ := Option.isSome_iff_exists.mp hparse
    exact ⟨hsemver.ne_nil text version hversion, hsemver.notMem hparse (by decide)⟩
  exact intercalate_inj_of_ne_nil (hparts r₁ h₁) (hparts r₂ h₂) h

theorem signingPayload_inj (hsemver : semver.Lawful) (h₁ : r₁.Valid semver) (h₂ : r₂.Valid semver)
    (h : r₁.signingPayload = r₂.signingPayload) :
    r₁.version = r₂.version ∧ r₁.epoch = r₂.epoch ∧
      r₁.normalizedYanked = r₂.normalizedYanked ∧
      ['\n'].intercalate r₁.artifactLines = ['\n'].intercalate r₂.artifactLines := by
  rw [signingPayload_eq h₁, signingPayload_eq h₂, append_cons_inj (by decide) (by decide),
    append_cons_inj (hsemver.notMem h₁.version (by decide)) (hsemver.notMem h₂.version (by decide)),
    append_cons_inj notMem_epochLine notMem_epochLine,
    append_cons_inj (notMem_yankedLine hsemver h₁) (notMem_yankedLine hsemver h₂)] at h
  obtain ⟨-, hversion, hepoch, hyanked, hlines⟩ := h
  have hyanked' := List.append_cancel_left hyanked
  exact ⟨hversion, toDigits_inj (List.append_cancel_left hepoch),
    normalizedYanked_inj hsemver h₁ h₂ hyanked', hlines⟩

end ChannelRelease

/-! ### The decision as a function of what is signed and of the offer -/

section Decision

variable {V : Type} {semver : Semver V}

/-- The client is past the tests for what is up to date. -/
def due (semver : Semver V) (epoch : Nat) (yanked : List (List Char)) (current latest : V)
    (installedEpoch : Nat) : Bool :=
  installedEpoch < epoch || yanked.contains (normalizeVersion (semver.toString current)) ||
    semver.lt current latest

theorem due_eq_true {epoch : Nat} {yanked : List (List Char)} {current latest : V}
    {installedEpoch : Nat} :
    due semver epoch yanked current latest installedEpoch = true ↔
      installedEpoch < epoch ∨ yanked.contains (normalizeVersion (semver.toString current)) ∨
        semver.lt current latest := by
  rw [due, Bool.or_eq_true, Bool.or_eq_true, decide_eq_true_iff, or_assoc]

variable [DecidableEq V]

/-- What is decided about the signed part of a release and what it offers to the platform. -/
def decisionOf (semver : Semver V) (version : List Char) (epoch : Nat) (yanked : List (List Char))
    (offer : Option Offer) (current : V) (installedEpoch : Nat) (os arch : List Char)
    (verified : Bool) : Except UpdateError (Decision V) :=
  match parseVersion semver version with
  | .error error => .error error
  | .ok latest =>
    if latest = current then .ok (.upToDate current latest)
    else if !due semver epoch yanked current latest installedEpoch then
      .ok (.upToDate current latest)
    else
      match offer with
      | none =>
        .ok (.unsupported ("release ".toList ++ version ++ " has no artifact for ".toList ++
          os ++ '/' :: arch))
      | some offer =>
        .ok (.available latest epoch (semver.lt latest current)
          (yanked.contains (normalizeVersion (semver.toString current))) offer verified)

theorem decideUpdate_decision (channel : Channel) (release : ChannelRelease) (current : V)
    (installedEpoch : Nat) (os arch : List Char) (verified : Bool) :
    (decideUpdate semver channel release current installedEpoch os arch verified).map
        CheckOutcome.decision =
      decisionOf semver release.version release.epoch release.normalizedYanked
        ((release.listed os arch).map Artifact.offer) current installedEpoch os arch verified := by
  rw [decideUpdate, decisionOf, ← ChannelRelease.artifactFor_eq_listed]
  cases parseVersion semver release.version with
  | error error => rfl
  | ok latest =>
    dsimp only
    split
    · rfl
    rw [due, ← ChannelRelease.isYanked]
    split
    · rfl
    cases release.artifactFor os arch with
    | none => rfl
    | some artifact => rfl

/-- A client that is past these tests tells two offers apart. -/
theorem decisionOf_inj {version : List Char} {epoch : Nat} {yanked : List (List Char)}
    {offer₁ offer₂ : Option Offer} {current latest : V} {installedEpoch : Nat}
    {os arch : List Char} {verified : Bool} (hparse : parseVersion semver version = .ok latest)
    (hne : latest ≠ current) (hdue : due semver epoch yanked current latest installedEpoch)
    (h : decisionOf semver version epoch yanked offer₁ current installedEpoch os arch verified =
      decisionOf semver version epoch yanked offer₂ current installedEpoch os arch verified) :
    offer₁ = offer₂ := by
  simp only [decisionOf, hparse, if_neg hne, hdue] at h
  cases offer₁ with
  | none =>
    cases offer₂ with
    | none => rfl
    | some offer₂ => cases h
  | some offer₁ =>
    cases offer₂ with
    | none => cases h
    | some offer₂ =>
      obtain ⟨-, -, -, -, rfl, -⟩ := Decision.available.inj (Except.ok.inj h)
      rfl

theorem decisionOf_of_not_due {version : List Char} {epoch : Nat} {yanked : List (List Char)}
    {current : V} {installedEpoch : Nat} {os arch : List Char} {verified : Bool}
    (h : ∀ latest, parseVersion semver version = .ok latest → latest ≠ current →
      due semver epoch yanked current latest installedEpoch = false)
    (offer₁ offer₂ : Option Offer) :
    decisionOf semver version epoch yanked offer₁ current installedEpoch os arch verified =
      decisionOf semver version epoch yanked offer₂ current installedEpoch os arch verified := by
  rw [decisionOf, decisionOf]
  cases hparse : parseVersion semver version with
  | error error => rfl
  | ok latest =>
    by_cases hne : latest = current
    · simp only [if_pos hne]
    · simp only [if_neg hne, h latest hparse hne, Bool.not_false, if_true]

end Decision

/-! ### Releases without separators in their fields -/

theorem notMem_of_all_isAsciiHexdigit (h : text.all isAsciiHexdigit) :
    ' ' ∉ text ∧ '\n' ∉ text := by
  rw [List.all_eq_true] at h
  exact ⟨fun hmem => absurd (h ' ' hmem) (by decide), fun hmem => absurd (h '\n' hmem) (by decide)⟩

namespace Artifact

variable {a b : Artifact}

theorem line_inj (ha : ' ' ∉ a.os ∧ ' ' ∉ a.arch ∧ ' ' ∉ a.sha256)
    (hb : ' ' ∉ b.os ∧ ' ' ∉ b.arch ∧ ' ' ∉ b.sha256) (h : a.line = b.line) :
    a.platform = b.platform ∧ a.offer = b.offer := by
  have hspace : ' '.isLower = false := by decide
  obtain ⟨haos, haarch, hadigest⟩ := ha
  obtain ⟨hbos, hbarch, hbdigest⟩ := hb
  rw [line, line,
    append_cons_inj (Text.notMem_toAsciiLowercase hspace haos)
      (Text.notMem_toAsciiLowercase hspace hbos),
    append_cons_inj (Text.notMem_toAsciiLowercase hspace haarch)
      (Text.notMem_toAsciiLowercase hspace hbarch),
    append_cons_inj (Text.notMem_toAsciiLowercase hspace hadigest)
      (Text.notMem_toAsciiLowercase hspace hbdigest),
    append_cons_inj (notMem_toDigits (by decide) _) (notMem_toDigits (by decide) _)] at h
  obtain ⟨hos, harch, hdigest, hsize, hurl⟩ := h
  rw [platform, platform, hos, harch, offer, offer, hdigest, toDigits_inj hsize, hurl]
  exact ⟨rfl, rfl⟩

theorem notMem_line (hos : '\n' ∉ a.os) (harch : '\n' ∉ a.arch) (hdigest : '\n' ∉ a.sha256)
    (hurl : '\n' ∉ a.url) : '\n' ∉ a.line := by
  have hlower : '\n'.isLower = false := by decide
  simp only [line, List.mem_append, List.mem_cons, not_or]
  exact ⟨Text.notMem_toAsciiLowercase hlower hos, by decide,
    Text.notMem_toAsciiLowercase hlower harch, by decide,
    Text.notMem_toAsciiLowercase hlower hdigest, by decide,
    notMem_toDigits (by decide) _, by decide, hurl⟩

end Artifact

namespace ChannelRelease

variable {V : Type} {semver : Semver V} {r₁ r₂ : ChannelRelease}

variable {release : ChannelRelease}

theorem Valid.digest (h : release.Valid semver) {artifact : Artifact}
    (hmem : artifact ∈ release.artifacts) : ' ' ∉ artifact.sha256 ∧ '\n' ∉ artifact.sha256 :=
  notMem_of_all_isAsciiHexdigit (Artifact.validate_eq_ok.mp (h.artifact artifact hmem)).1.2

theorem Plain.notMem (hplain : release.Plain) (h : release.Valid semver) {line : List Char}
    (hline : line ∈ release.artifactLines) : '\n' ∉ line := by
  obtain ⟨artifact, hmem, rfl⟩ := mem_artifactLines.mp hline
  exact Artifact.notMem_line (hplain.os artifact hmem).1 (hplain.arch artifact hmem).1
    (h.digest hmem).2 (hplain.url artifact hmem)

theorem Plain.spaces (hplain : release.Plain) (h : release.Valid semver) {a : Artifact}
    (ha : a ∈ release.artifacts) : ' ' ∉ a.os ∧ ' ' ∉ a.arch ∧ ' ' ∉ a.sha256 :=
  ⟨(hplain.os a ha).2, (hplain.arch a ha).2, (h.digest ha).1⟩

theorem Plain.firstFor_eq_some (hplain : release.Plain) {os arch : List Char} {a : Artifact} :
    release.firstFor os arch = some a ↔
      a ∈ release.artifacts ∧ a.platform = (toAsciiLowercase os, toAsciiLowercase arch) :=
  find?_key_eq_some hplain.platforms

theorem Plain.firstFor_of_firstFor (hplain₁ : r₁.Plain) (hplain₂ : r₂.Plain)
    (h₁ : r₁.Valid semver) (h₂ : r₂.Valid semver)
    (hlines : r₁.artifactLines = r₂.artifactLines) {os arch : List Char} {a : Artifact}
    (ha : r₁.firstFor os arch = some a) :
    ∃ b, r₂.firstFor os arch = some b ∧ b.offer = a.offer := by
  obtain ⟨hmem, hplatform⟩ := hplain₁.firstFor_eq_some.mp ha
  have hline : a.line ∈ r₂.artifactLines := hlines ▸ mem_artifactLines.mpr ⟨a, hmem, rfl⟩
  obtain ⟨b, hb, heq⟩ := mem_artifactLines.mp hline
  obtain ⟨hplatform', hoffer⟩ :=
    Artifact.line_inj (hplain₂.spaces h₂ hb) (hplain₁.spaces h₁ hmem) heq
  exact ⟨b, hplain₂.firstFor_eq_some.mpr ⟨hb, hplatform'.trans hplatform⟩, hoffer⟩

theorem Plain.firstFor_offer (hplain₁ : r₁.Plain) (hplain₂ : r₂.Plain) (h₁ : r₁.Valid semver)
    (h₂ : r₂.Valid semver) (hlines : r₁.artifactLines = r₂.artifactLines) (os arch : List Char) :
    (r₁.firstFor os arch).map Artifact.offer = (r₂.firstFor os arch).map Artifact.offer := by
  cases hfirst₁ : r₁.firstFor os arch with
  | some a =>
    obtain ⟨b, hfirst₂, hoffer⟩ :=
      Plain.firstFor_of_firstFor hplain₁ hplain₂ h₁ h₂ hlines hfirst₁
    rw [hfirst₂, Option.map_some, Option.map_some, hoffer]
  | none =>
    cases hfirst₂ : r₂.firstFor os arch with
    | none => rfl
    | some b =>
      obtain ⟨a, hfirst, -⟩ :=
        Plain.firstFor_of_firstFor hplain₂ hplain₁ h₂ h₁ hlines.symm hfirst₂
      rw [hfirst] at hfirst₁
      cases hfirst₁

theorem Plain.listed_offer (hplain₁ : r₁.Plain) (hplain₂ : r₂.Plain) (h₁ : r₁.Valid semver)
    (h₂ : r₂.Valid semver)
    (hlines : ['\n'].intercalate r₁.artifactLines = ['\n'].intercalate r₂.artifactLines)
    (os arch : List Char) :
    (r₁.listed os arch).map Artifact.offer = (r₂.listed os arch).map Artifact.offer := by
  have hlines' : r₁.artifactLines = r₂.artifactLines :=
    intercalate_inj (fun _ => hplain₁.notMem h₁) (fun _ => hplain₂.notMem h₂)
      (artifactLines_ne_nil h₁) (artifactLines_ne_nil h₂) hlines
  rw [listed, listed, Option.map_or, Option.map_or,
    Plain.firstFor_offer hplain₁ hplain₂ h₁ h₂ hlines' os arch,
    Plain.firstFor_offer hplain₁ hplain₂ h₁ h₂ hlines' os universal]

end ChannelRelease

/-! ### What the signature covers -/

/-- What the signature is to cover: releases with one text are decided alike. -/
def CoversDecision {V : Type} [DecidableEq V] (semver : Semver V) : Prop :=
  ∀ r₁ r₂ : ChannelRelease, r₁.validate semver = .ok () → r₂.validate semver = .ok () →
    r₁.signingPayload = r₂.signingPayload → SameDecisions semver r₁ r₂

def SameOffers {V : Type} (semver : Semver V) (r₁ r₂ : ChannelRelease) : Prop :=
  r₁.Offerable semver → ∀ os arch,
    (r₁.listed os arch).map Artifact.offer = (r₂.listed os arch).map Artifact.offer

section Covered

variable {V : Type} [DecidableEq V] {semver : Semver V} {r₁ r₂ : ChannelRelease}

theorem sameDecisions_iff (hversion : r₁.version = r₂.version) (hepoch : r₁.epoch = r₂.epoch)
    (hyanked : r₁.normalizedYanked = r₂.normalizedYanked) :
    SameDecisions semver r₁ r₂ ↔ SameOffers semver r₁ r₂ := by
  constructor
  · rintro hsame ⟨latest, current, installedEpoch, hparse, hne, hdue⟩ os arch
    have hdecision := hsame .stable .stable current installedEpoch os arch true
    rw [decideUpdate_decision, decideUpdate_decision, ← hversion, ← hepoch, ← hyanked]
      at hdecision
    exact decisionOf_inj hparse hne (due_eq_true.mpr hdue) hdecision
  · intro hoffers c₁ c₂ current installedEpoch os arch verified
    rw [decideUpdate_decision, decideUpdate_decision, ← hversion, ← hepoch, ← hyanked]
    by_cases hofferable : r₁.Offerable semver
    · rw [hoffers hofferable os arch]
    · -- nobody gets as far as the artifacts
      refine decisionOf_of_not_due (fun latest hparse hne => ?_) _ _
      rw [← Bool.not_eq_true]
      intro hdue
      exact hofferable ⟨latest, current, installedEpoch, hparse, hne, due_eq_true.mp hdue⟩

/-- **Two releases with one signed text are decided alike exactly when they list the same first.**
What is decided apart from the artifact is covered by the signature; and where no field holds a
separator and no platform is listed twice, so is the artifact. -/
theorem sameDecisions_iff_sameOffers (hsemver : semver.Lawful)
    (hvalid₁ : r₁.validate semver = .ok ()) (hvalid₂ : r₂.validate semver = .ok ())
    (h : r₁.signingPayload = r₂.signingPayload) :
    (SameDecisions semver r₁ r₂ ↔ SameOffers semver r₁ r₂) ∧
      (r₁.Plain → r₂.Plain → SameDecisions semver r₁ r₂) := by
  have h₁ := ChannelRelease.validate_eq_ok.mp hvalid₁
  have h₂ := ChannelRelease.validate_eq_ok.mp hvalid₂
  obtain ⟨hversion, hepoch, hyanked, hlines⟩ := ChannelRelease.signingPayload_inj hsemver h₁ h₂ h
  have hiff : SameDecisions semver r₁ r₂ ↔ SameOffers semver r₁ r₂ :=
    sameDecisions_iff hversion hepoch hyanked
  refine ⟨hiff, fun hplain₁ hplain₂ => hiff.mpr fun _ os arch => ?_⟩
  exact ChannelRelease.Plain.listed_offer hplain₁ hplain₂ h₁ h₂ hlines os arch

end Covered

/-! ### A release that lists a platform twice -/

/-- One number of a version: digits without a leading zero. -/
def parseNumber (text : List Char) : Option Nat :=
  if text.all Char.isDigit ∧ text ≠ [] ∧ (text.head? = some '0' → text = ['0']) then
    some (Nat.ofDigitChars 10 text 0)
  else none

/-- The versions of three numbers. -/
def numericVersions : Semver (Nat × Nat × Nat) where
  parse text :=
    match text.splitOn '.' with
    | [major, minor, patch] => do
      some (← parseNumber major, ← parseNumber minor, ← parseNumber patch)
    | _ => none
  toString version :=
    Nat.toDigits 10 version.1 ++ '.' :: (Nat.toDigits 10 version.2.1 ++ '.' ::
      Nat.toDigits 10 version.2.2)
  lt a b :=
    a.1 < b.1 || (a.1 = b.1 && (a.2.1 < b.2.1 || (a.2.1 = b.2.1 && a.2.2 < b.2.2)))

theorem isDigit_of_parseNumber {n : Nat} (h : parseNumber text = some n) :
    ∀ c ∈ text, c.isDigit = true := by
  rw [parseNumber] at h
  split at h
  · next hdigits => exact List.all_eq_true.mp hdigits.1
  · cases h

/-- A version of three numbers is made of them and the dots between them. -/
theorem numericVersions_chars {version : Nat × Nat × Nat}
    (h : numericVersions.parse text = some version) : ∀ c ∈ text, c.isDigit = true ∨ c = '.' := by
  have hparts : ∀ part ∈ text.splitOn '.', ∀ c ∈ part, c.isDigit = true := by
    dsimp only [numericVersions] at h
    split at h
    · next major minor patch hsplit =>
      obtain ⟨_, hmajor, h⟩ := Option.bind_eq_some_iff.mp h
      obtain ⟨_, hminor, h⟩ := Option.bind_eq_some_iff.mp h
      obtain ⟨_, hpatch, -⟩ := Option.bind_eq_some_iff.mp h
      rw [hsplit]
      simp only [List.forall_mem_cons]
      exact ⟨isDigit_of_parseNumber hmajor, isDigit_of_parseNumber hminor,
        isDigit_of_parseNumber hpatch, List.forall_mem_nil _⟩
    · cases h
  have htext : ['.'].intercalate (text.splitOn '.') = text := List.intercalate_splitOn '.'
  intro c hc
  rw [← htext] at hc
  obtain rfl | ⟨part, hmem, hc⟩ := mem_intercalate hc
  · exact .inr rfl
  · exact .inl (hparts part hmem c hc)

theorem numericVersions_lawful : numericVersions.Lawful where
  ne_nil text version h := by
    rintro rfl
    cases h
  chars text version h c hc := by
    obtain hdigit | rfl := numericVersions_chars h c hc
    · simp [Char.isAlphanum, hdigit]
    · decide

/-- A build of version 0.2.0 for one platform. -/
def build (os arch url : String) (digit : Char) : Artifact where
  os := os.toList
  arch := arch.toList
  url := url.toList
  sha256 := List.replicate 64 digit
  size := 1024

def secondRelease (artifacts : List Artifact) : ChannelRelease where
  version := "0.2.0".toList
  epoch := 2
  yanked := ["0.1.1".toList]
  releasedAt := none
  notesUrl := none
  artifacts := artifacts

theorem secondRelease_signingPayload {artifacts artifacts' : List Artifact}
    (h : artifacts.Perm artifacts') :
    (secondRelease artifacts).signingPayload = (secondRelease artifacts').signingPayload := by
  have hlines :
      (secondRelease artifacts).artifactLines = (secondRelease artifacts').artifactLines :=
    ChannelRelease.artifactLines_perm h
  rw [ChannelRelease.signingPayload, ChannelRelease.signingPayload, hlines]
  rfl

theorem secondRelease_sameDecisions {artifacts artifacts' : List Artifact} :
    SameDecisions numericVersions (secondRelease artifacts) (secondRelease artifacts') ↔
      SameOffers numericVersions (secondRelease artifacts) (secondRelease artifacts') := by
  refine sameDecisions_iff rfl rfl ?_
  rw [ChannelRelease.normalizedYanked, ChannelRelease.normalizedYanked]
  rfl

theorem secondRelease_offerable (artifacts : List Artifact) :
    (secondRelease artifacts).Offerable numericVersions := by
  have hparse : parseVersion numericVersions "0.2.0".toList = .ok (0, 2, 0) := rfl
  exact ⟨(0, 2, 0), (0, 1, 0), 1, hparse, by decide, .inl (Nat.lt_add_one 1)⟩

/-- Two builds for one platform. -/
def listedTwice : List Artifact := [
  build "linux" "x86_64" "https://goble.dev/a" 'a',
  build "linux" "x86_64" "https://goble.dev/b" 'b']

/-- Which of two builds for one platform is installed depends on the order in the file, and the
signed text does not. -/
theorem not_coversDecision : ¬ CoversDecision numericVersions := by
  intro h
  have hvalid : (secondRelease listedTwice).validate numericVersions = .ok () := by
    decide +kernel
  have hvalid' : (secondRelease listedTwice.reverse).validate numericVersions = .ok () := by
    decide +kernel
  have hsame := h _ _ hvalid hvalid'
    (secondRelease_signingPayload (List.reverse_perm listedTwice).symm)
  have hlinux := secondRelease_sameDecisions.mp hsame (secondRelease_offerable listedTwice)
    "linux".toList "x86_64".toList
  revert hlinux
  decide +kernel

/-- A build for each of two platforms. -/
def listedOnce : List Artifact := [
  build "linux" "x86_64" "https://goble.dev/a" 'a',
  build "macos" "universal" "https://goble.dev/b" 'b']

theorem sameDecisions_listedOnce :
    (secondRelease listedOnce).validate numericVersions = .ok () ∧
      (secondRelease listedOnce.reverse).validate numericVersions = .ok () ∧
      (secondRelease listedOnce).Offerable numericVersions ∧
      SameDecisions numericVersions (secondRelease listedOnce)
        (secondRelease listedOnce.reverse) := by
  have hvalid : (secondRelease listedOnce).validate numericVersions = .ok () := by
    decide +kernel
  have hvalid' : (secondRelease listedOnce.reverse).validate numericVersions = .ok () := by
    decide +kernel
  have hplain : (secondRelease listedOnce).Plain :=
    ⟨by decide +kernel, by decide +kernel, by decide +kernel, by decide +kernel⟩
  have hplain' : (secondRelease listedOnce.reverse).Plain :=
    ⟨by decide +kernel, by decide +kernel, by decide +kernel, by decide +kernel⟩
  have hcovered := sameDecisions_iff_sameOffers numericVersions_lawful hvalid hvalid'
    (secondRelease_signingPayload (List.reverse_perm listedOnce).symm)
  exact ⟨hvalid, hvalid', secondRelease_offerable listedOnce, hcovered.2 hplain hplain'⟩

end Goble.Update
