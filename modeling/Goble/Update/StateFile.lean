import Goble.Update.Busy

/-!
# The state file and its two writers

`update-state.json` holds what is installed, when the release host was last asked, and the version
that failed. The check thread writes it after every check (`record_check`), the health thread once,
after the process has stayed up (`confirm_healthy`). Both load the whole file, change their fields
and save the whole file, without a lock: `stateFile` is the machine of these four steps. A load or a
save may fail; `record_check` takes the empty state for a file it cannot read.

What a writer saves is its copy with its own record. So when the second one saves, the other's
record survives exactly if the copy holds it (`Current`): it was loaded after the other had saved,
or the file had the record before.

The failed version is written by `recover` so that the client can stop offering it. No check reads
it: whether a release is offered depends on what the host publishes alone (`Published`).
-/

namespace Goble.Update

structure StateFile extends UpdateState where
  lastCheck : Option DateTime
deriving DecidableEq, Repr

namespace StateFile

def default : StateFile := ⟨.empty, none⟩

def recordCheck (file : StateFile) (at' : DateTime) : StateFile :=
  { file with lastCheck := some at' }

def confirmInstall (file : StateFile) (version : String) (epoch : Nat) : StateFile :=
  { file with toUpdateState := file.toUpdateState.confirmInstall version epoch }

def recordFailed (file : StateFile) (version : String) (epoch : Nat) : StateFile :=
  { file with toUpdateState := file.toUpdateState.recordFailed version epoch }

def failedEvenAfter (file : StateFile) (version : String) (epoch : Nat) : Bool :=
  file.failedVersion = some version && file.failedEpoch = epoch

theorem failedEvenAfter_recordFailed (file : StateFile) (version : String) (epoch : Nat)
    (text : List Char) (epoch' : Nat) :
    (file.recordFailed version epoch).failedEvenAfter (String.ofList text) epoch' = false ↔
      (text = version.toList → ¬ epoch' = epoch) := by
  have hversion : some version = some (String.ofList text) ↔ text = version.toList := by
    rw [Option.some_inj]
    constructor
    · rintro rfl
      exact String.toList_ofList.symm
    · rintro rfl
      exact String.ofList_toList.symm
  rw [failedEvenAfter, Bool.and_eq_false_iff, decide_eq_false_iff_not, decide_eq_false_iff_not]
  show ¬ some version = some (String.ofList text) ∨ ¬ epoch = epoch' ↔ _
  rw [hversion, imp_iff_not_or, eq_comm (a := epoch')]

def confirmHealthy (file : StateFile) (pending : Option PendingInstall) (running : String) :
    StateFile :=
  match pending with
  | some pending => file.confirmInstall pending.version pending.epoch
  | none => if file.installedVersion.isNone then file.confirmInstall running 0 else file

end StateFile

/-! ### The two writers -/

inductive Writer where
  | waiting
  | loaded (copy : StateFile)
  | finished (written : StateFile)
  /-- It could not load or save, and has said so. -/
  | failed
deriving DecidableEq, Repr

/-- The file and its writers. A file that is missing is one that reads as the empty state. -/
structure Writers where
  file : Option StateFile
  check : Writer
  health : Writer
deriving DecidableEq, Repr

/-- The four steps, with what the file system answers. -/
inductive FileStep where
  | checkLoad (ok : Bool)
  | checkSave (ok : Bool)
  | healthLoad (ok : Bool)
  | healthSave (ok : Bool)
deriving DecidableEq, Repr

structure WriterCalls where
  checkedAt : DateTime
  /-- The marker that the health thread has cleared. -/
  pending : Option PendingInstall
  running : String

namespace Writers

variable (calls : WriterCalls)

def step (s : Writers) : FileStep → Option Writers
  | .checkLoad ok =>
    match s.check with
    | .waiting =>
      some { s with check := .loaded (if ok then s.file.getD .default else .default) }
    | _ => none
  | .checkSave ok =>
    match s.check with
    | .loaded copy =>
      let written := copy.recordCheck calls.checkedAt
      some (if ok then { s with file := some written, check := .finished written }
        else { s with check := .failed })
    | _ => none
  | .healthLoad ok =>
    match s.health with
    | .waiting =>
      some { s with health := if ok then .loaded (s.file.getD .default) else .failed }
    | _ => none
  | .healthSave ok =>
    match s.health with
    | .loaded copy =>
      let written := copy.confirmHealthy calls.pending calls.running
      some (if ok then { s with file := some written, health := .finished written }
        else { s with health := .failed })
    | _ => none

def Finished (s : Writers) : Prop :=
  (∃ written, s.check = .finished written) ∧ ∃ written, s.health = .finished written

def Holds (s : Writers) : Prop :=
  ∃ file written, s.file = some file ∧ s.health = .finished written ∧
    file.installedVersion = written.installedVersion ∧
    file.installedEpoch = written.installedEpoch ∧ file.lastCheck = some calls.checkedAt

def Current (s : Writers) : FileStep → Prop
  | .checkSave true => ∀ copy written, s.check = .loaded copy → s.health = .finished written →
    copy.installedVersion = written.installedVersion ∧
      copy.installedEpoch = written.installedEpoch
  | .healthSave true => ∀ copy written, s.health = .loaded copy → s.check = .finished written →
    copy.lastCheck = some calls.checkedAt
  | _ => True

end Writers

def stateFile (calls : WriterCalls) (file : Option StateFile) : Machine Writers FileStep where
  init := ⟨file, .waiting, .waiting⟩
  step := Writers.step calls

namespace Writers

variable {calls : WriterCalls} {s s' : Writers}

variable {l : FileStep}

theorem step_cases (h : s.step calls l = some s') :
    (∃ ok, l = .checkLoad ok ∧ s.check = .waiting ∧
      s' = { s with check := .loaded (if ok then s.file.getD .default else .default) }) ∨
    (∃ copy, l = .checkSave true ∧ s.check = .loaded copy ∧
      s' = { s with file := some (copy.recordCheck calls.checkedAt),
                    check := .finished (copy.recordCheck calls.checkedAt) }) ∨
    (∃ copy, l = .checkSave false ∧ s.check = .loaded copy ∧ s' = { s with check := .failed }) ∨
    (l = .healthLoad true ∧ s.health = .waiting ∧
      s' = { s with health := .loaded (s.file.getD .default) }) ∨
    (l = .healthLoad false ∧ s.health = .waiting ∧ s' = { s with health := .failed }) ∨
    (∃ copy, l = .healthSave true ∧ s.health = .loaded copy ∧
      s' = { s with file := some (copy.confirmHealthy calls.pending calls.running),
                    health := .finished (copy.confirmHealthy calls.pending calls.running) }) ∨
    (∃ copy, l = .healthSave false ∧ s.health = .loaded copy ∧
      s' = { s with health := .failed }) := by
  cases l with
  | checkLoad ok =>
    rw [step] at h
    split at h
    next hcheck => exact .inl ⟨ok, rfl, hcheck, (Option.some.inj h).symm⟩
    next => cases h
  | checkSave ok =>
    rw [step] at h
    split at h
    next copy hcheck =>
      cases ok with
      | true => exact .inr (.inl ⟨copy, rfl, hcheck, (Option.some.inj h).symm⟩)
      | false => exact .inr (.inr (.inl ⟨copy, rfl, hcheck, (Option.some.inj h).symm⟩))
    next => cases h
  | healthLoad ok =>
    rw [step] at h
    split at h
    next hhealth =>
      cases ok with
      | true => exact .inr (.inr (.inr (.inl ⟨rfl, hhealth, (Option.some.inj h).symm⟩)))
      | false => exact .inr (.inr (.inr (.inr (.inl ⟨rfl, hhealth, (Option.some.inj h).symm⟩))))
    next => cases h
  | healthSave ok =>
    rw [step] at h
    split at h
    next copy hhealth =>
      cases ok with
      | true =>
        exact .inr (.inr (.inr (.inr (.inr (.inl ⟨copy, rfl, hhealth, (Option.some.inj h).symm⟩)))))
      | false =>
        exact .inr (.inr (.inr (.inr (.inr (.inr ⟨copy, rfl, hhealth, (Option.some.inj h).symm⟩)))))
    next => cases h

/-- The installed fields and the time of the check are not touched by the other writer. -/
theorem confirmHealthy_lastCheck (file : StateFile) (pending : Option PendingInstall)
    (running : String) : (file.confirmHealthy pending running).lastCheck = file.lastCheck := by
  unfold StateFile.confirmHealthy
  split
  · rfl
  · split <;> rfl

/-- While nothing has been lost: if both have saved, the file holds both records. -/
def Kept (calls : WriterCalls) (s : Writers) : Prop := s.Finished → s.Holds calls

/-- Both have saved, and a record is lost. -/
def Lost (calls : WriterCalls) (s : Writers) : Prop := s.Finished ∧ ¬ s.Holds calls

/-- Nothing happens to a file that both have saved. -/
theorem not_finished_of_step (h : s.step calls l = some s') : ¬ s.Finished := by
  rintro ⟨⟨written, hcheck⟩, written', hhealth⟩
  obtain ⟨_, -, h', -⟩ | ⟨_, -, h', -⟩ | ⟨_, -, h', -⟩ | ⟨-, h', -⟩ | ⟨-, h', -⟩ | ⟨_, -, h', -⟩ |
    ⟨_, -, h', -⟩ := step_cases h
  all_goals simp_all

/-- After the second save the file holds both records exactly if the copy held the other's. -/
theorem holds_iff_current (h : s.step calls l = some s') (hfinished : s'.Finished) :
    s'.Holds calls ↔ s.Current calls l := by
  obtain ⟨⟨written, hcheck⟩, written', hhealth⟩ := hfinished
  obtain ⟨_, rfl, -, rfl⟩ | ⟨copy, rfl, hcopy, rfl⟩ | ⟨_, rfl, -, rfl⟩ | ⟨rfl, -, rfl⟩ | ⟨rfl, -, rfl⟩ |
    ⟨copy, rfl, hcopy, rfl⟩ | ⟨_, rfl, -, rfl⟩ := step_cases h
  · cases hcheck
  · -- the check saves last
    constructor
    · rintro ⟨file, wrote, hfile, hwrote, hversion, hepoch, -⟩ copy' wrote' hcopy' hwrote'
      obtain rfl := Option.some.inj hfile
      obtain rfl := Writer.loaded.inj (hcopy.symm.trans hcopy')
      obtain rfl := Writer.finished.inj (hwrote.symm.trans hwrote')
      exact ⟨hversion, hepoch⟩
    · intro hcurrent
      obtain ⟨hversion, hepoch⟩ := hcurrent copy written' hcopy hhealth
      exact ⟨_, written', rfl, hhealth, hversion, hepoch, rfl⟩
  · cases hcheck
  · cases hhealth
  · cases hhealth
  · -- the health thread saves last
    constructor
    · rintro ⟨file, wrote, hfile, -, -, -, hlast⟩ copy' wrote' hcopy' -
      obtain rfl := Option.some.inj hfile
      obtain rfl := Writer.loaded.inj (hcopy.symm.trans hcopy')
      rwa [confirmHealthy_lastCheck] at hlast
    · intro hcurrent
      have hlast := hcurrent copy written hcopy hcheck
      refine ⟨_, _, rfl, rfl, rfl, rfl, ?_⟩
      rwa [confirmHealthy_lastCheck]
  · cases hhealth

/-- Only a second save can lose a record. -/
theorem finished_of_not_current (h : s.step calls l = some s') (hnot : ¬ s.Current calls l) :
    s'.Finished := by
  obtain ⟨_, rfl, -, rfl⟩ | ⟨copy, rfl, hcopy, rfl⟩ | ⟨_, rfl, -, rfl⟩ | ⟨rfl, -, rfl⟩ | ⟨rfl, -, rfl⟩ |
    ⟨copy, rfl, hcopy, rfl⟩ | ⟨_, rfl, -, rfl⟩ := step_cases h
  · exact absurd trivial hnot
  · obtain ⟨written, hwritten⟩ : ∃ written, s.health = .finished written := by
      by_contra hnone
      exact hnot fun copy written _ hwritten => absurd ⟨written, hwritten⟩ hnone
    exact ⟨⟨_, rfl⟩, written, hwritten⟩
  · exact absurd trivial hnot
  · exact absurd trivial hnot
  · exact absurd trivial hnot
  · obtain ⟨written, hwritten⟩ : ∃ written, s.check = .finished written := by
      by_contra hnone
      exact hnot fun copy written _ hwritten => absurd ⟨written, hwritten⟩ hnone
    exact ⟨⟨written, hwritten⟩, _, rfl⟩
  · exact absurd trivial hnot

/-- A run in which both writers finish loses nothing exactly if every save is current. -/
theorem holds_iff_along {file : Option StateFile} {ls : List FileStep}
    (hrun : (stateFile calls file).exec (stateFile calls file).init ls = some s)
    (hfinished : s.Finished) :
    s.Holds calls ↔
      (stateFile calls file).Along (Current calls) (stateFile calls file).init ls := by
  have hinit : Kept calls (stateFile calls file).init := by
    rintro ⟨⟨written, hcheck⟩, -⟩
    cases hcheck
  obtain ⟨halong, hkept⟩ | ⟨hnot, hlost⟩ :=
    Machine.exec_along_or_trap (M := stateFile calls file) (C := Current calls) (I := Kept calls)
      (T := Lost calls)
      (fun s l s' _ hcurrent hstep hfinished => (holds_iff_current hstep hfinished).mpr hcurrent)
      (fun s l s' _ hnot hstep =>
        have hfinished := finished_of_not_current hstep hnot
        ⟨hfinished, fun hholds => hnot ((holds_iff_current hstep hfinished).mp hholds)⟩)
      (fun s l s' hlost hstep => absurd hlost.1 (not_finished_of_step hstep)) hinit hrun
  · exact iff_of_true (hkept hfinished) halong
  · exact iff_of_false hlost.2 hnot

end Writers

/-! ### What a check offers -/

def Channel.isSelfUpdating : Channel → Bool
  | .stable | .beta => true
  | .dev => false

section Offers

variable {V : Type} [DecidableEq V] (config : ServiceConfig V)

def check (installedEpoch : Nat) (os arch : List Char)
    (fetched : Except UpdateError (ChannelRelease × Bool)) :
    Except UpdateError (CheckOutcome V) :=
  if !config.channel.isSelfUpdating then
    .ok (.unsupported ("a ".toList ++ config.channel.asStr ++
      " build does not update itself".toList))
  else do
    let current ← parseVersion config.semver config.runningVersion
    let (release, verified) ← fetched
    decideUpdate config.semver config.channel release current installedEpoch os arch verified

def Offers (installedEpoch : Nat) (os arch : List Char)
    (fetched : Except UpdateError (ChannelRelease × Bool)) (update : AvailableUpdate V) : Prop :=
  UpdateService.checkResult config (check config installedEpoch os arch fetched) = .keep update

/-- The host publishes this version at this epoch, as a release that is due, that runs on the
platform and that is trusted. -/
def Published (installedEpoch : Nat) (os arch : List Char)
    (fetched : Except UpdateError (ChannelRelease × Bool)) (version : List Char) (epoch : Nat) :
    Prop :=
  ∃ current release verified latest,
    config.channel.isSelfUpdating = true ∧
    parseVersion config.semver config.runningVersion = .ok current ∧
    fetched = .ok (release, verified) ∧ parseVersion config.semver release.version = .ok latest ∧
    config.semver.toString latest = version ∧ release.epoch = epoch ∧ latest ≠ current ∧
    (installedEpoch < release.epoch ∨ release.isYanked (config.semver.toString current) = true ∨
      config.semver.lt current latest = true) ∧
    (release.artifactFor os arch).isSome = true ∧ (verified = true ∨ config.allowUnsigned = true)

variable {config}

omit [DecidableEq V] in
theorem checkResult_eq_keep {outcome : Except UpdateError (CheckOutcome V)}
    {update : AvailableUpdate V} :
    UpdateService.checkResult config outcome = .keep update ↔
      outcome = .ok (.available update) ∧
        (update.verified = true ∨ config.allowUnsigned = true) := by
  constructor
  · intro h
    unfold UpdateService.checkResult at h
    split at h
    next other =>
      split at h
      next => cases h
      next htrusted =>
        obtain rfl := ServiceThread.keep.inj h
        refine ⟨rfl, ?_⟩
        rw [Bool.and_eq_true, Bool.not_eq_true', Bool.not_eq_true', not_and_or,
          Bool.not_eq_false, Bool.not_eq_false] at htrusted
        exact htrusted
    next => cases h
    next => cases h
    next => cases h
  · rintro ⟨rfl, htrusted⟩
    have hnot : (!update.verified && !config.allowUnsigned) = false := by
      obtain h | h := htrusted <;> simp [h]
    rw [UpdateService.checkResult, hnot, if_neg Bool.false_ne_true]

theorem decideUpdate_eq_available {semver : Semver V} {channel : Channel} {release : ChannelRelease}
    {current : V} {installedEpoch : Nat} {os arch : List Char} {verified : Bool}
    {update : AvailableUpdate V} :
    decideUpdate semver channel release current installedEpoch os arch verified =
        .ok (.available update) ↔
      ∃ latest artifact, parseVersion semver release.version = .ok latest ∧ latest ≠ current ∧
        (installedEpoch < release.epoch ∨ release.isYanked (semver.toString current) = true ∨
          semver.lt current latest = true) ∧
        release.artifactFor os arch = some artifact ∧
        update = { channel, version := latest, epoch := release.epoch,
                   rollback := semver.lt latest current,
                   currentYanked := release.isYanked (semver.toString current), artifact,
                   notesUrl := release.notesUrl, releasedAt := release.releasedAt, verified } := by
  unfold decideUpdate
  cases hparse : parseVersion semver release.version with
  | error error => simp
  | ok latest =>
    by_cases hsame : latest = current
    · simp [hsame]
    · by_cases hdue : installedEpoch < release.epoch ∨
          release.isYanked (semver.toString current) = true ∨ semver.lt current latest = true
      · have hauthoritative : (decide (installedEpoch < release.epoch) ||
            release.isYanked (semver.toString current) || semver.lt current latest) = true := by
          simpa [or_assoc] using hdue
        cases hartifact : release.artifactFor os arch with
        | none => simp [hsame, hauthoritative]
        | some artifact =>
          simp only [hsame, hauthoritative, Bool.not_true, if_false, Except.ok.injEq,
            CheckOutcome.available.injEq, Bool.false_eq_true]
          constructor
          · rintro rfl
            exact ⟨latest, artifact, rfl, hsame, hdue, rfl, rfl⟩
          · rintro ⟨latest', artifact', rfl, -, -, hartifact', rfl⟩
            rw [Option.some.inj hartifact']
      · have hnot : (decide (installedEpoch < release.epoch) ||
            release.isYanked (semver.toString current) || semver.lt current latest) = false := by
          rw [Bool.eq_false_iff]
          simpa [or_assoc] using hdue
        simp [hsame, hnot, hdue]

theorem exists_offers_iff {installedEpoch : Nat} {os arch : List Char}
    {fetched : Except UpdateError (ChannelRelease × Bool)} {version : List Char} {epoch : Nat} :
    (∃ update, Offers config installedEpoch os arch fetched update ∧
        config.semver.toString update.version = version ∧ update.epoch = epoch) ↔
      Published config installedEpoch os arch fetched version epoch := by
  unfold Offers Published
  simp only [checkResult_eq_keep]
  cases hself : config.channel.isSelfUpdating with
  | false => simp [check, hself]
  | true =>
    cases hcurrent : parseVersion config.semver config.runningVersion with
    | error error => simp [check, hself, hcurrent, bind, Except.bind]
    | ok current =>
      cases fetched with
      | error error => simp [check, hself, hcurrent, bind, Except.bind]
      | ok answer =>
        obtain ⟨release, verified⟩ := answer
        have hcheck : check config installedEpoch os arch (.ok (release, verified)) =
            decideUpdate config.semver config.channel release current installedEpoch os arch
              verified := by
          simp [check, hself, hcurrent, bind, Except.bind]
        rw [hcheck]
        constructor
        · rintro ⟨update, ⟨hdecide, htrusted⟩, hversion, hepoch⟩
          obtain ⟨latest, artifact, hparse, hne, hdue, hartifact, rfl⟩ :=
            decideUpdate_eq_available.mp hdecide
          exact ⟨current, release, verified, latest, rfl, rfl, rfl, hparse, hversion, hepoch, hne, hdue,
            by rw [hartifact]; rfl, htrusted⟩
        · rintro ⟨_, _, _, latest, -, hcur, hfetched, hparse, hversion, hepoch, hne, hdue, hartifact,
            htrusted⟩
          obtain rfl := Except.ok.inj hcur
          obtain ⟨rfl, rfl⟩ := Prod.mk.inj (Except.ok.inj hfetched)
          obtain ⟨artifact, hartifact⟩ := Option.isSome_iff_exists.mp hartifact
          exact ⟨_, ⟨decideUpdate_eq_available.mpr ⟨latest, artifact, hparse, hne, hdue, hartifact,
            rfl⟩, htrusted⟩, hversion, hepoch⟩

end Offers

/-! ### Both halves -/

/-- **When the update state is kept.** A run in which both writers finish leaves both records in the
file if and only if each save that comes second writes a copy that held the other's record. And a
check leaves out the version that failed if and only if the host does not publish it at that epoch
as a release that is due, runs here and is trusted. -/
theorem state_kept_iff {V : Type} [DecidableEq V] :
    (∀ (calls : WriterCalls) (file : Option StateFile) (ls : List FileStep) (s : Writers),
      (stateFile calls file).exec (stateFile calls file).init ls = some s → s.Finished →
      (s.Holds calls ↔ (stateFile calls file).Along (Writers.Current calls)
        (stateFile calls file).init ls)) ∧
    ∀ (config : ServiceConfig V) (file : StateFile) (version : String) (epoch installedEpoch : Nat)
      (os arch : List Char) (fetched : Except UpdateError (ChannelRelease × Bool)),
      (∀ update, Offers config installedEpoch os arch fetched update →
          (file.recordFailed version epoch).failedEvenAfter
            (String.ofList (config.semver.toString update.version)) update.epoch = false) ↔
        ¬ Published config installedEpoch os arch fetched version.toList epoch := by
  refine ⟨fun calls file ls s hrun hfinished => Writers.holds_iff_along hrun hfinished, ?_⟩
  intro config file version epoch installedEpoch os arch fetched
  rw [← exists_offers_iff]
  simp only [StateFile.failedEvenAfter_recordFailed, not_exists, not_and]

/-- A check at time 5, and version 0.2.0 at epoch 7 to be confirmed. -/
def overlappingCalls : WriterCalls where
  checkedAt := 5
  pending := some (.forAppimage "0.2.0" 7 ["opt", "goble"])
  running := "0.2.0"

/-- The release host publishes version 0.2.0 at epoch 2 for this platform. -/
theorem published_second :
    Published stableConfig 1 "linux".toList "x86_64".toList
      (.ok (secondRelease [build "linux" "x86_64" "https://goble.dev/a" 'a'], true))
      "0.2.0".toList 2 := by
  have hparse : parseVersion numericVersions "0.2.0".toList = .ok (0, 2, 0) := rfl
  exact ⟨(0, 1, 0), _, true, (0, 2, 0), rfl, rfl, rfl, hparse, rfl, rfl, by decide,
    .inl (Nat.lt_add_one 1), rfl, .inl rfl⟩

/-- The two writers one after the other, and a release that is not the one that failed. -/
theorem state_kept_in_turn :
    (∃ s, (stateFile overlappingCalls none).exec (stateFile overlappingCalls none).init
        [.checkLoad true, .checkSave true, .healthLoad true, .healthSave true] = some s ∧
      s.Holds overlappingCalls) ∧
    ∀ update, Offers stableConfig 1 "linux".toList "x86_64".toList
        (.ok (secondRelease [build "linux" "x86_64" "https://goble.dev/a" 'a'], true)) update →
      (StateFile.default.recordFailed "0.1.1" 2).failedEvenAfter
        (String.ofList (stableConfig.semver.toString update.version)) update.epoch = false := by
  constructor
  · refine ⟨_, rfl, (state_kept_iff (V := Nat × Nat × Nat)).1 overlappingCalls none
      [.checkLoad true, .checkSave true, .healthLoad true, .healthSave true] _ rfl
      ⟨⟨_, rfl⟩, _, rfl⟩ |>.mpr ?_⟩
    refine ⟨trivial, ?_⟩
    rintro _ ⟨⟩
    refine ⟨(fun _ _ _ hhealth => by cases hhealth), ?_⟩
    rintro _ ⟨⟩
    refine ⟨trivial, ?_⟩
    rintro _ ⟨⟩
    refine ⟨?_, fun _ _ => trivial⟩
    rintro _ _ ⟨⟩ -
    rfl
  · refine (state_kept_iff.2 stableConfig .default "0.1.1" 2 1 _ _ _).mpr ?_
    rintro ⟨current, release, verified, latest, -, -, hfetched, hparse, hversion, -⟩
    obtain ⟨rfl, -⟩ := Prod.mk.inj (Except.ok.inj hfetched)
    obtain rfl : (0, 2, 0) = latest := Except.ok.inj hparse
    exact absurd hversion (by decide)

/-- Both load the file that is there before either saves it, and the confirmed install is lost. And
what failed is offered again by the next check. -/
theorem not_state_kept :
    (¬ ∀ (calls : WriterCalls) (file : Option StateFile) (ls : List FileStep) (s : Writers),
      (stateFile calls file).exec (stateFile calls file).init ls = some s → s.Finished →
      s.Holds calls) ∧
    ¬ ∀ (config : ServiceConfig (Nat × Nat × Nat)) (file : StateFile) (version : String)
      (epoch installedEpoch : Nat) (os arch : List Char)
      (fetched : Except UpdateError (ChannelRelease × Bool)) (update : AvailableUpdate _),
      Offers config installedEpoch os arch fetched update →
        (file.recordFailed version epoch).failedEvenAfter
          (String.ofList (config.semver.toString update.version)) update.epoch = false := by
  constructor
  · intro hall
    obtain ⟨file, written, hfile, hhealth, hversion, -⟩ := hall overlappingCalls none
      [.checkLoad true, .healthLoad true, .healthSave true, .checkSave true] _ rfl
      ⟨⟨_, rfl⟩, _, rfl⟩
    obtain rfl := Option.some.inj hfile
    obtain rfl := Writer.finished.inj hhealth
    cases hversion
  · intro hall
    obtain ⟨update, hoffers, hversion, hepoch⟩ := exists_offers_iff.mpr published_second
    have hfalse := hall stableConfig .default "0.2.0" 2 1 _ _ _ update hoffers
    rw [StateFile.failedEvenAfter_recordFailed] at hfalse
    exact hfalse hversion hepoch

end Goble.Update
