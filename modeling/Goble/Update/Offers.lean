import Goble.Update.StateFile

/-!
# When an offer is justified

A manifest may be stale: a copy that was published before the release this installation came from
has a lower epoch. What it says is then taken for a newer version only, and its list of withdrawn
versions for nothing. `decide_update` asks that list about the running version whatever the epoch
is, and about the version it offers not at all. So an offer is justified except for two kinds of
releases (`offersJustified_iff`): a stale one that withdraws the running version
(`StaleWithdrawal`), and one that is due and withdraws itself (`SelfWithdrawn`).
-/

namespace Goble.Update

section Justified

variable {V : Type} (semver : Semver V) (release : ChannelRelease) (current : V)
  (installedEpoch : Nat)

/-- Why an update may be offered: it is another version, it is not withdrawn, and the publisher has
spoken since the install, or it is newer, or the running version is withdrawn by a manifest of the
epoch it was installed from. -/
structure AvailableUpdate.Justified (update : AvailableUpdate V) : Prop where
  differs : update.version ≠ current
  kept : release.isYanked (semver.toString update.version) = false
  due : installedEpoch < release.epoch ∨ semver.lt current update.version = true ∨
    release.epoch = installedEpoch ∧ release.isYanked (semver.toString current) = true

/-- A stale manifest withdraws the running version, and has no newer one. -/
def StaleWithdrawal (latest : V) : Prop :=
  release.epoch < installedEpoch ∧ release.isYanked (semver.toString current) = true ∧
    semver.lt current latest = false

/-- The release withdraws the version it publishes, and would be due without that. -/
def SelfWithdrawn (latest : V) : Prop :=
  release.isYanked (semver.toString latest) = true ∧
    (installedEpoch < release.epoch ∨ release.isYanked (semver.toString current) = true ∨
      semver.lt current latest = true)

variable [DecidableEq V]

def OffersJustified (os arch : List Char) : Prop :=
  ∀ (channel : Channel) (verified : Bool) (update : AvailableUpdate V),
    decideUpdate semver channel release current installedEpoch os arch verified =
        .ok (.available update) →
      update.Justified semver release current installedEpoch

variable {semver release current installedEpoch}

omit [DecidableEq V] in
/-- Of a version that is due, the two kinds are all there is to say against it. -/
theorem justified_iff {update : AvailableUpdate V} (hdiffers : update.version ≠ current)
    (hdue : installedEpoch < release.epoch ∨ release.isYanked (semver.toString current) = true ∨
      semver.lt current update.version = true) :
    update.Justified semver release current installedEpoch ↔
      ¬ StaleWithdrawal semver release current installedEpoch update.version ∧
        ¬ SelfWithdrawn semver release current installedEpoch update.version := by
  constructor
  · rintro ⟨-, hkept, hreason⟩
    refine ⟨?_, ?_⟩
    · rintro ⟨hstale, -, hnotNewer⟩
      obtain hepoch | hnewer | ⟨hsame, -⟩ := hreason
      · exact absurd hepoch (Nat.lt_asymm hstale)
      · rw [hnotNewer] at hnewer
        cases hnewer
      · exact absurd hsame (Nat.ne_of_lt hstale)
    · rintro ⟨hyanked, -⟩
      rw [hkept] at hyanked
      cases hyanked
  · rintro ⟨hstale, hself⟩
    refine ⟨hdiffers, ?_, ?_⟩
    · exact Bool.eq_false_iff.mpr fun hyanked => hself ⟨hyanked, hdue⟩
    · obtain hepoch | hyanked | hnewer := hdue
      · exact .inl hepoch
      · by_cases hnewer : semver.lt current update.version = true
        · exact .inr (.inl hnewer)
        · -- not stale, so the epoch is the installed one or a higher one
          have hle : installedEpoch ≤ release.epoch := Nat.not_lt.mp fun hlt =>
            hstale ⟨hlt, hyanked, Bool.eq_false_iff.mpr hnewer⟩
          obtain hlt | heq := Nat.lt_or_eq_of_le hle
          · exact .inl hlt
          · exact .inr (.inr ⟨heq.symm, hyanked⟩)
      · exact .inr (.inl hnewer)

/-- **When offers are justified.** What a release offers on a platform is justified if and only if
the release has nothing for the platform, is the running version, or neither is a stale withdrawal
nor withdraws itself. -/
theorem offersJustified_iff (semver : Semver V) (release : ChannelRelease) (current : V)
    (installedEpoch : Nat) (os arch : List Char) :
    OffersJustified semver release current installedEpoch os arch ↔
      ∀ latest, parseVersion semver release.version = .ok latest → latest ≠ current →
        (release.artifactFor os arch).isSome = true →
        ¬ StaleWithdrawal semver release current installedEpoch latest ∧
          ¬ SelfWithdrawn semver release current installedEpoch latest := by
  constructor
  · intro h latest hparse hdiffers hartifact
    obtain ⟨artifact, hartifact⟩ := Option.isSome_iff_exists.mp hartifact
    by_cases hdue : installedEpoch < release.epoch ∨
        release.isYanked (semver.toString current) = true ∨ semver.lt current latest = true
    · have hoffered := h .stable true _ (decideUpdate_eq_available.mpr
        ⟨latest, artifact, hparse, hdiffers, hdue, hartifact, rfl⟩)
      exact (justified_iff hdiffers hdue).mp hoffered
    · -- nothing is due, and both kinds are
      refine ⟨fun hstale => hdue (.inr (.inl hstale.2.1)), fun hself => hdue hself.2⟩
  · intro h channel verified update hoffered
    obtain ⟨latest, artifact, hparse, hdiffers, hdue, hartifact, rfl⟩ :=
      decideUpdate_eq_available.mp hoffered
    have hnone := h latest hparse hdiffers (by rw [hartifact]; rfl)
    exact (justified_iff hdiffers hdue).mpr hnone

end Justified

def firstRelease : ChannelRelease where
  version := "0.1.0".toList
  epoch := 1
  yanked := ["0.1.1".toList]
  releasedAt := none
  notesUrl := none
  artifacts := [build "linux" "x86_64" "https://goble.dev/a" 'a']

/-- Version 0.1.1 was installed from epoch 2. The manifest of epoch 1 had withdrawn it, and offers
0.1.0 in its place. -/
theorem not_offersJustified :
    firstRelease.Valid numericVersions ∧
      ¬ OffersJustified numericVersions firstRelease (0, 1, 1) 2 "linux".toList
        "x86_64".toList := by
  constructor
  · exact ChannelRelease.validate_eq_ok.mp (by decide +kernel)
  · intro h
    have hparse : parseVersion numericVersions firstRelease.version = .ok (0, 1, 0) := rfl
    have hyanked : firstRelease.isYanked (numericVersions.toString (0, 1, 1)) = true := by
      decide +kernel
    have hartifact : firstRelease.artifactFor "linux".toList "x86_64".toList =
        some (build "linux" "x86_64" "https://goble.dev/a" 'a') := by
      decide +kernel
    have hoffered := h .stable true _ (decideUpdate_eq_available.mpr
      ⟨_, _, hparse, by decide, .inr (.inl hyanked), hartifact, rfl⟩)
    obtain hepoch | hnewer | ⟨hsame, -⟩ := hoffered.due
    · exact absurd hepoch (by decide)
    · exact absurd hnewer (by decide)
    · exact absurd hsame (by decide)

end Goble.Update
