import Goble.Update.Busy

/-!
# What is installed is what is shown

The offer and its summary are stored under the lock twice, one after the other. Between the two the
phase is that of a check, and no install is begun; and one check at a time is under way, so that
the two stores are of one release. From then on the view keeps the summary until another check has
its answer, and no check is begun while the install runs.

This holds of every run. A check that `check_now` has begun and nobody ends, or an install without
a thread, leaves fewer threads than the phase speaks of, never more.
-/

namespace Goble.Update

variable {V : Type}

/-! ### Who has an update at hand -/

variable {update : AvailableUpdate V}

namespace ServiceThread

def installed : ServiceThread V → Option (AvailableUpdate V)
  | .spawnInstall update | .runInstall update | .download update | .plan update
  | .apply update => some update
  | _ => none

def showing : ServiceThread V → Option AvailableSummary
  | .report (.ok (some summary)) => some summary
  | _ => none

theorem downloads_of_installed {thread : ServiceThread V} (h : thread.installed = some update) :
    thread.downloads := by
  cases thread with
  | spawnInstall | runInstall | download | plan | apply => rfl
  | _ => cases h

theorem checks_of_showing {thread : ServiceThread V} {summary : AvailableSummary}
    (h : thread.showing = some summary) : thread.checks := by
  cases thread with
  | report => rfl
  | _ => cases h

structure Paired (config : ServiceConfig V) (service : UpdateService V)
    (thread : ServiceThread V) : Prop where
  installed : ∀ update, thread.installed = some update →
    service.model.view.available = some (.fromUpdate config.semver update)
  showing : ∀ summary, thread.showing = some summary →
    service.offer.map (.fromUpdate config.semver) = some summary
  offered : thread.isNoOffer = false

def idle (thread : ServiceThread V) : Bool :=
  thread.installed.isNone && thread.showing.isNone && !thread.isNoOffer

theorem paired_of_idle {config : ServiceConfig V} {service : UpdateService V}
    {thread : ServiceThread V} (h : thread.idle) : thread.Paired config service := by
  rw [idle, Bool.and_eq_true, Bool.and_eq_true, Option.isNone_iff_eq_none,
    Option.isNone_iff_eq_none, Bool.not_eq_true'] at h
  obtain ⟨⟨hinstalled, hshowing⟩, hoffer⟩ := h
  refine ⟨fun update hupdate => ?_, fun summary hsummary => ?_, hoffer⟩
  · rw [hinstalled] at hupdate
    cases hupdate
  · rw [hshowing] at hsummary
    cases hsummary

end ServiceThread

def UpdateService.Paired (config : ServiceConfig V) (service : UpdateService V) : Prop :=
  service.model.phase = .available → ∃ update, service.offer = some update ∧
    service.model.view.available = some (.fromUpdate config.semver update)

theorem available_beginDownload {model model' : UpdateViewModel} {humanBytes : Nat → List Char}
    (h : model.beginDownload humanBytes = some model') :
    model'.view.available = model.view.available := by
  rw [UpdateViewModel.beginDownload] at h
  split at h
  · cases h
  · split at h
    · cases h
      rfl
    · cases h

section Step

variable {config : ServiceConfig V} {service service' : UpdateService V}
  {thread : ServiceThread V} {answer : ServiceAnswer V} {goesOn : Option (ServiceThread V)}

/-- What a step leaves of the pairing. Only a check that is under way changes the offer, and only
one that ends changes what the view shows. -/
structure PairsKept (config : ServiceConfig V) (service service' : UpdateService V)
    (thread : ServiceThread V) (goesOn : Option (ServiceThread V)) : Prop where
  paired : service'.Paired config
  goesOn : ∀ u, goesOn = some u → u.Paired config service'
  offer : service'.offer = service.offer ∨ thread.checks
  available : service'.model.view.available = service.model.view.available ∨ thread.checks

/-- A step after which the same is offered and shown as before. -/
theorem pairsKept_of_eq (h : service.Paired config)
    (hphase : service'.model.phase = .available → service.model.phase = .available)
    (havailable : service'.model.view.available = service.model.view.available)
    (hoffer : service'.offer = service.offer)
    (hgoesOn : ∀ u, goesOn = some u → u.Paired config service') :
    PairsKept config service service' thread goesOn where
  paired hphase' := by
    rw [hoffer, havailable]
    exact h (hphase hphase')
  goesOn := hgoesOn
  offer := .inl hoffer
  available := .inl havailable

theorem paired_goesOn_of_idle (h : goesOn.all ServiceThread.idle) (u : ServiceThread V)
    (hu : goesOn = some u) : u.Paired config service' := by
  rw [hu] at h
  exact ServiceThread.paired_of_idle h

theorem idle_checkResult (outcome : Except UpdateError (CheckOutcome V)) :
    (UpdateService.checkResult config outcome).idle := by
  match outcome with
  | .ok (.available update) =>
    rw [UpdateService.checkResult]
    split
    · rfl
    · rfl
  | .ok (.upToDate ..) => rfl
  | .ok (.unsupported _) => rfl
  | .error _ => rfl

theorem paired_installing {next : ServiceThread V}
    (h : service.model.view.available = some (.fromUpdate config.semver update))
    (hnext : next.installed = some update ∨ next.installed = none) (hshowing : next.showing = none)
    (hoffer : next.isNoOffer = false) :
    next.Paired config service where
  installed update' hupdate := by
    obtain hsome | hnone := hnext
    · rw [Option.some.inj (hsome.symm.trans hupdate)] at h
      exact h
    · rw [hnone] at hupdate
      cases hupdate
  showing summary hsummary := by
    rw [hshowing] at hsummary
    cases hsummary
  offered := hoffer

theorem paired_staged {digest : Except UpdateError (List Char)}
    (h : service.model.view.available = some (.fromUpdate config.semver update)) :
    (UpdateService.staged update digest).Paired config service := by
  match digest with
  | .error _ => exact ServiceThread.paired_of_idle rfl
  | .ok digest =>
    rw [UpdateService.staged]
    split
    · exact ServiceThread.paired_of_idle rfl
    · exact paired_installing h (.inl rfl) rfl rfl

theorem paired_planned {plan : Except (List Char) Unit}
    (h : service.model.view.available = some (.fromUpdate config.semver update)) :
    (UpdateService.planned update plan).Paired config service := by
  match plan with
  | .ok () => exact paired_installing h (.inl rfl) rfl rfl
  | .error _ => exact ServiceThread.paired_of_idle rfl

theorem idle_applied (update : AvailableUpdate V)
    (outcome : Except (List Char) InstallOutcome) :
    (UpdateService.applied config update outcome).idle := by
  match outcome with
  | .ok (.applied _) => rfl
  | .ok (.needsUser ..) => rfl
  | .error _ => rfl

theorem pairsKept_report {result : Except (List Char) (Option AvailableSummary)} {now : DateTime}
    (h : service.next config (.report result) (.time now) = some (service', goesOn))
    (hservice : service.Paired config)
    (hthread : (ServiceThread.report result).Paired config service) :
    PairsKept config service service' (.report result) goesOn := by
  cases h
  refine ⟨?_, ?_, .inl rfl, .inr rfl⟩
  · intro hphase
    change ((service.model.checkFinished config.humanBytes now result).getD
      service.model).view.phase = .available at hphase
    show ∃ update, service.offer = some update ∧
      ((service.model.checkFinished config.humanBytes now result).getD
        service.model).view.available = _
    rw [UpdateViewModel.checkFinished] at hphase ⊢
    split at hphase
    · next hchecking =>
      rw [if_pos hchecking]
      cases result with
      | error reason => cases hphase
      | ok found =>
        cases found with
        | none => cases hphase
        | some summary =>
          obtain ⟨update, hoffer, hsummary⟩ :=
            Option.map_eq_some_iff.mp (hthread.showing summary rfl)
          exact ⟨update, hoffer, congrArg some hsummary.symm⟩
    · next hchecking =>
      rw [if_neg hchecking]
      exact hservice hphase
  · rintro u ⟨⟩
    exact ServiceThread.paired_of_idle rfl

theorem pairsKept_beginDownload
    (h : service.next config .beginDownload .none = some (service', goesOn))
    (hservice : service.Paired config) :
    PairsKept config service service' .beginDownload goesOn := by
  rw [UpdateService.next] at h
  split at h
  · cases h
    exact pairsKept_of_eq hservice id rfl rfl (paired_goesOn_of_idle rfl)
  · next model hbegin =>
    cases h
    obtain ⟨havailable, -, hphase⟩ := UpdateViewModel.phase_beginDownload hbegin
    obtain ⟨update, hoffer, hshown⟩ := hservice havailable
    have hsame : model.view.available = service.model.view.available :=
      available_beginDownload hbegin
    refine pairsKept_of_eq hservice (fun _ => havailable) hsame rfl fun u hu => ?_
    rw [hoffer] at hu
    cases hu
    exact paired_installing (hsame.trans hshown) (.inl rfl) rfl rfl

theorem pairsKept_finished {version : List Char} {restartRequired : Bool}
    (h : service.next config (.finished version restartRequired) .none = some (service', goesOn))
    (hservice : service.Paired config) :
    PairsKept config service service' (.finished version restartRequired) goesOn := by
  cases h
  have hsame : ((service.model.downloadFinished version).getD service.model).view.available =
      service.model.view.available := by
    rw [UpdateViewModel.downloadFinished]
    split
    · rfl
    · rfl
  have hphase : ((service.model.downloadFinished version).getD service.model).phase = .available →
      service.model.phase = .available := by
    rw [UpdateViewModel.downloadFinished]
    split
    · intro hready
      cases hready
    · exact id
  refine pairsKept_of_eq hservice hphase hsame rfl ?_
  cases restartRequired with
  | true => exact paired_goesOn_of_idle rfl
  | false => exact paired_goesOn_of_idle rfl

theorem pairsKept_next (h : service.next config thread answer = some (service', goesOn))
    (hservice : service.Paired config) (hthread : thread.Paired config service)
    (hchecks : thread.checks → service.model.phase = .checking) :
    PairsKept config service service' thread goesOn := by
  have hnext := h
  revert h
  fun_cases UpdateService.next <;> intro h
  -- `mark`, where the check is begun
  case case2 model hbegin =>
    cases h
    refine pairsKept_of_eq hservice (fun hphase => ?_) (UpdateViewModel.available_beginCheck hbegin)
      rfl (paired_goesOn_of_idle rfl)
    rw [(UpdateViewModel.phase_beginCheck hbegin).2] at hphase
    cases hphase
  case case3 caller =>
    cases h
    refine pairsKept_of_eq hservice id rfl rfl ?_
    cases caller with
    | checkNow => exact paired_goesOn_of_idle rfl
    | checkOnce => exact paired_goesOn_of_idle rfl
  case case6 outcome =>
    cases h
    exact pairsKept_of_eq hservice id rfl rfl (paired_goesOn_of_idle (idle_checkResult outcome))
  -- `keep`: a check is under way, so no install can be begun
  case case7 update =>
    cases h
    refine ⟨fun hphase => ?_, ?_, .inr rfl, .inl rfl⟩
    · rw [show service.model.phase = .checking from hchecks rfl] at hphase
      cases hphase
    · rintro u ⟨⟩
      refine ⟨fun _ hinstalled => ?_, fun summary hsummary => hsummary, rfl⟩
      cases hinstalled
  case case8 => exact pairsKept_report hnext hservice hthread
  case case12 => exact pairsKept_beginDownload hnext hservice
  case case13 => exact pairsKept_beginDownload hnext hservice
  case case15 => cases hthread.offered
  case case16 update started =>
    cases h
    refine pairsKept_of_eq hservice id rfl rfl ?_
    rintro u ⟨⟩
    cases started with
    | true => exact paired_installing (hthread.installed update rfl) (.inl rfl) rfl rfl
    | false => exact ServiceThread.paired_of_idle rfl
  case case18 update =>
    cases h
    refine pairsKept_of_eq hservice id rfl rfl ?_
    rintro u ⟨⟩
    split
    · exact ServiceThread.paired_of_idle rfl
    · exact paired_installing (hthread.installed update rfl) (.inl rfl) rfl rfl
  case case19 update digest =>
    cases h
    refine pairsKept_of_eq hservice id rfl rfl ?_
    rintro u ⟨⟩
    exact paired_staged (hthread.installed update rfl)
  case case20 update plan =>
    cases h
    refine pairsKept_of_eq hservice id rfl rfl ?_
    rintro u ⟨⟩
    exact paired_planned (hthread.installed update rfl)
  case case21 update outcome =>
    cases h
    exact pairsKept_of_eq hservice id rfl rfl (paired_goesOn_of_idle (idle_applied update outcome))
  case case22 =>
    cases h
    refine pairsKept_of_eq hservice (fun hphase => ?_) rfl rfl (paired_goesOn_of_idle rfl)
    cases hphase
  case case23 => exact pairsKept_finished hnext hservice
  case case25 => cases h
  -- the others have nothing at hand, whichever way they go
  all_goals
    cases h
    refine pairsKept_of_eq hservice id rfl rfl (paired_goesOn_of_idle ?_)
    first
    | rfl
    | split <;> rfl

theorem Turn.movesAtMost (turn : Turn service thread answer service' goesOn)
    (hservice : service.Paired config) (hthread : thread.isNoOffer = false)
    (hchecks : thread.checks → service.model.phase = .checking)
    (hdownloads : thread.downloads → service.model.phase = .downloading) :
    (service.isChecking.toNat + (goesOn.any ServiceThread.checks).toNat ≤
        service'.isChecking.toNat + thread.checks.toNat) ∧
      service.isDownloading.toNat + (goesOn.any ServiceThread.downloads).toNat ≤
        service'.isDownloading.toNat + thread.downloads.toNat := by
  simp only [UpdateService.isChecking, UpdateService.isDownloading]
  cases turn with
  | pass hphase hflag howes =>
    obtain ⟨hc, hd, -⟩ := owes_eq_iff.mp howes
    rw [hphase, hc, hd]
    exact ⟨le_rfl, le_rfl⟩
  | beginCheck hallows hphase hflag howed howes =>
    obtain ⟨hc, hd, -⟩ := owes_eq_iff.mp howes
    obtain ⟨hc', hd', -⟩ := owes_some_iff.mp howed
    obtain ⟨hchecking, hdownloading⟩ := UpdatePhase.ne_of_allowsCheck hallows
    simp [hphase, hc, hd, hc', hd', hchecking, hdownloading]
  | endCheck hphase hflag howed howes =>
    obtain ⟨hc, hd, -⟩ := owes_eq_iff.mp howes
    obtain ⟨hc', hd', -⟩ := owes_some_iff.mp howed
    have hbefore := hchecks hc'
    simp [hbefore, hc, hd, hc', hd']
  | takeFlag hphase hclear hflag howed howes =>
    obtain ⟨hc, hd, -⟩ := owes_eq_iff.mp howes
    simp [hphase, hc, hd]
  | beginInstall havailable hphase hflag howed howes =>
    obtain ⟨hc, hd, -⟩ := owes_eq_iff.mp howes
    simp [havailable, hphase, hc, hd]
  | endInstall hphase hflag howed howes =>
    obtain ⟨hc, hd, -⟩ := owes_eq_iff.mp howes
    obtain ⟨hc', hd', -⟩ := owes_some_iff.mp howed
    have hbefore := hdownloads hd'
    simp [hbefore, hc, hd, hc', hd']
  | clearFlag hphase hflag howed howes =>
    obtain ⟨hc, hd, -⟩ := owes_eq_iff.mp howes
    simp [hphase, hc, hd]
  -- nobody takes on the check that is lost
  | lostCheck hguard hallows hphase howed howes =>
    obtain ⟨hc, hd, -⟩ := owes_eq_iff.mp howes
    obtain ⟨hchecking, hdownloading⟩ := UpdatePhase.ne_of_allowsCheck hallows
    simp [hphase, hc, hd, hchecking, hdownloading]
  | lostInstall hguard hphase howed howes =>
    obtain ⟨hc, hd, -⟩ := owes_eq_iff.mp howes
    obtain ⟨hc', hd', -⟩ := owes_some_iff.mp howed
    simp [hphase, hc, hd, hc', hd']
  | noOffer havailable hoffer =>
    obtain ⟨update, hsome, -⟩ := hservice havailable
    rw [hoffer.2] at hsome
    cases hsome
  | failNoOffer hmissing =>
    rw [hmissing] at hthread
    cases hthread

theorem Turn.downloading (turn : Turn service thread answer service' goesOn)
    (hphase : service.model.phase = .downloading) (hthread : thread.downloads = false)
    (hchecks : thread.checks → service.model.phase = .checking) :
    service'.model.phase = .downloading := by
  have hrefused : service.model.phase.allowsCheck = false := by
    rw [hphase]
    rfl
  have hnot : service.model.phase ≠ .available := by
    rw [hphase]
    exact nofun
  cases turn with
  | pass hsame | takeFlag hsame | clearFlag hsame | lostInstall _ hsame => exact hsame.trans hphase
  | beginCheck hallows | lostCheck _ hallows =>
    rw [hallows] at hrefused
    cases hrefused
  | endCheck _ _ howed =>
    have hchecking := hchecks (owes_some_iff.mp howed).1
    rw [hphase] at hchecking
    cases hchecking
  | endInstall _ _ howed =>
    rw [(owes_some_iff.mp howed).2.1] at hthread
    cases hthread
  | beginInstall havailable | noOffer havailable => exact absurd havailable hnot
  | failNoOffer hmissing =>
    rw [hmissing] at hthread
    cases hthread

end Step

/-! ### Runs -/

/-- What is at hand is paired, and at most one check or one install is under way. -/
structure Consistent (config : ServiceConfig V)
    (s : Threads.State (UpdateService V) (ServiceThread V)) : Prop where
  paired : Threads.Each (UpdateService.Paired config) (ServiceThread.Paired config) s
  checks : Threads.AtMost UpdateService.isChecking ServiceThread.checks s
  downloads : Threads.AtMost UpdateService.isDownloading ServiceThread.downloads s

section Runs

variable {config : ServiceConfig V} {installedEpoch : Nat} {state : UpdateState}
  {lastCheck : Option DateTime} {now : DateTime}
  {s s' : Threads.State (UpdateService V) (ServiceThread V)}
  {l : Threads.Label ServiceCall (ServiceAnswer V)}

theorem consistent_init :
    Consistent config (updateService config installedEpoch state lastCheck now).machine.init where
  paired := ⟨(fun h => by cases h), fun _ h => absurd h List.not_mem_nil⟩
  checks := Nat.zero_le _
  downloads := Nat.zero_le _

theorem idle_enter {service : UpdateService V} {call : ServiceCall} {thread : ServiceThread V}
    (h : service.enter call = some thread) : thread.idle := by
  cases call with
  | checkNow =>
    cases h
    rfl
  | installAvailable =>
    cases h
    rfl
  | tick now =>
    rw [UpdateService.enter] at h
    split at h
    · cases h
      rfl
    · cases h

theorem Consistent.checking (h : Consistent config s) {thread : ServiceThread V}
    (hmem : thread ∈ s.threads) (hchecks : thread.checks) : s.shared.model.phase = .checking :=
  of_decide_eq_true (h.checks.flag_of_mem hmem hchecks)

theorem Consistent.downloading (h : Consistent config s) {thread : ServiceThread V}
    (hmem : thread ∈ s.threads) (hdownloads : thread.downloads) :
    s.shared.model.phase = .downloading :=
  of_decide_eq_true (h.downloads.flag_of_mem hmem hdownloads)

theorem consistent_step (h : Consistent config s)
    (hstep : (updateService config installedEpoch state lastCheck now).machine.step s l = some s') :
    Consistent config s' := by
  obtain ⟨call, rfl, rfl⟩ | ⟨index, answer, thread, before, after, goesOn, rfl, hindex, hthreads,
    hnext, hthreads'⟩ := Threads.step_cases hstep
  · have hidle : ∀ u ∈ s.shared.enter call, u.idle := fun u hu => idle_enter hu
    have howes : ∀ u ∈ s.shared.enter call, owes (some u) = (false, false, false) :=
      fun u hu => (owes_enter hu).1
    exact {
      paired := h.paired.call fun u hu => ServiceThread.paired_of_idle (hidle u hu)
      checks := h.checks.call fun u hu => (owes_some_iff.mp (howes u hu)).1
      downloads := h.downloads.call fun u hu => (owes_some_iff.mp (howes u hu)).2.1 }
  · have hmem : thread ∈ s.threads := hthreads ▸ List.mem_append_right before List.mem_cons_self
    have hchecks := h.checking hmem
    have hdownloads := h.downloading hmem
    have hpaired := h.paired.2 thread hmem
    have hkept := pairsKept_next hnext h.paired.1 hpaired hchecks
    obtain ⟨hmovesChecks, hmovesDownloads⟩ :=
      (turn_of_next hnext).movesAtMost h.paired.1 hpaired.offered hchecks hdownloads
    obtain ⟨shared, threads⟩ := s
    obtain ⟨shared', threads'⟩ := s'
    subst hthreads hthreads'
    refine {
      paired := h.paired.run_of_mem hkept.paired hkept.goesOn fun u hu hold => ?_
      checks := h.checks.run hmovesChecks
      downloads := h.downloads.run hmovesDownloads }
    have humem : u ∈ before ++ thread :: after := by
      obtain hu | hu := List.mem_append.mp hu
      · exact List.mem_append_left _ hu
      · exact List.mem_append_right _ (List.mem_cons_of_mem _ hu)
    refine ⟨fun update hupdate => ?_, fun summary hsummary => ?_, hold.offered⟩
    · -- a check that ends and an install exclude each other
      have hphase := h.downloading humem (ServiceThread.downloads_of_installed hupdate)
      obtain hsame | hcheck := hkept.available
      · exact hsame ▸ hold.installed update hupdate
      · have hchecking := hchecks hcheck
        rw [show shared.model.phase = .downloading from hphase] at hchecking
        cases hchecking
    · -- and there is no second check
      have hcheck := ServiceThread.checks_of_showing hsummary
      obtain hsame | hother := hkept.offer
      · exact hsame ▸ hold.showing summary hsummary
      · rw [h.checks.others hother u hu] at hcheck
        cases hcheck

structure InstallsShown (config : ServiceConfig V) (installedEpoch : Nat) (state : UpdateState)
    (lastCheck : Option DateTime) (now : DateTime)
    (s : Threads.State (UpdateService V) (ServiceThread V)) : Prop where
  /-- A download that begins is one of the offer the view shows then. -/
  started : ∀ service' update,
    s.shared.next config .beginDownload .none = some (service', some (.spawnInstall update)) →
      s.shared.model.view.available = some (.fromUpdate config.semver update)
  /-- It stays shown while a thread is to install it. -/
  shown : ∀ thread ∈ s.threads, ∀ update, thread.installed = some update →
    s.shared.model.view.available = some (.fromUpdate config.semver update)
  /-- No step but its own moves the phase of a download. -/
  downloading : ∀ l s', s.shared.model.phase = .downloading →
    (updateService config installedEpoch state lastCheck now).machine.step s l = some s' →
      Threads.Guard (fun _ thread _ => thread.downloads = false) s l →
        s'.shared.model.phase = .downloading

/-- **What is installed is what is shown**, whatever the order of the checks, their answers and the
requests to install. -/
theorem installsShown_of_run {ls : List (Threads.Label ServiceCall (ServiceAnswer V))}
    (hrun : (updateService config installedEpoch state lastCheck now).machine.exec
      (updateService config installedEpoch state lastCheck now).machine.init ls = some s) :
    InstallsShown config installedEpoch state lastCheck now s := by
  have h : Consistent config s := Machine.invariant_of_step
    (M := (updateService config installedEpoch state lastCheck now).machine)
    consistent_init (fun _ _ _ => consistent_step) hrun
  refine ⟨fun service' update hnext => ?_, fun thread hmem => (h.paired.2 thread hmem).installed,
    fun l s' hphase hstep hguard => ?_⟩
  · have hkept := pairsKept_beginDownload hnext h.paired.1
    have hshown := (hkept.goesOn _ rfl).installed update rfl
    obtain hsame | hcheck := hkept.available
    · exact hsame ▸ hshown
    · cases hcheck
  · obtain ⟨call, rfl, rfl⟩ | ⟨index, answer, thread, before, after, goesOn, rfl, hindex, hthreads,
      hnext, hthreads'⟩ := Threads.step_cases hstep
    · exact hphase
    · have hmem : thread ∈ s.threads := hthreads ▸ List.mem_append_right before List.mem_cons_self
      exact (turn_of_next hnext).downloading hphase (hguard thread hindex) (h.checking hmem)

end Runs

/-- The clock's check finds an update, the page's button asks for it, and before its download is
begun the page asks for a check as well. -/
def askedTwiceRun : List (Threads.Label ServiceCall (ServiceAnswer (Nat × Nat × Nat))) := [
  .call (.tick 0),
  .run 0 .none,
  .run 0 .none,
  .run 0 .none,
  .run 0 (.checked (.ok (.available secondUpdate))),
  .run 0 .none,
  .run 0 (.time 0),
  .call .installAvailable,
  .call .checkNow,
  .run 1 .none,
  .run 1 .none]

theorem installsShown_askedTwice :
    ∃ s, stableService.machine.exec stableService.machine.init askedTwiceRun = some s ∧
      s.threads.any (fun thread => thread.installed.isSome) ∧
      InstallsShown stableConfig 1 .empty none 0 s := by
  obtain ⟨s, hrun, hthreads⟩ : ∃ s, stableService.machine.exec stableService.machine.init
      askedTwiceRun = some s ∧ s.threads.any (fun thread => thread.installed.isSome) :=
    ⟨_, rfl, rfl⟩
  exact ⟨s, hrun, hthreads, installsShown_of_run hrun⟩

end Goble.Update
