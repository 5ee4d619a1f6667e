import Goble.Update.Service
import Goble.Update.Signing

/-!
# Whether the service gets stuck

While a check or an install is under way the phase says so, and no other is begun. Each is
accounted for by one thread: the one that has begun it and will report its end. In two places the
account is lost. `check_now` begins the check before it starts the thread for it, and that thread
begins it again: it finds the phase taken, by its own caller, and goes away. And where no thread
can be started for an install, the flag is cleared and the phase is not.
-/

namespace Goble.Update

variable {V : Type}

/-! ### The transitions of the view, by phase -/

namespace UpdateViewModel

variable {model model' : UpdateViewModel} {humanBytes : Nat → List Char}

theorem phase_beginCheck (h : model.beginCheck = some model') :
    model.phase.allowsCheck ∧ model'.phase = .checking := by
  rw [beginCheck] at h
  split at h
  · next hallows =>
    cases h
    exact ⟨hallows, rfl⟩
  · cases h

theorem available_beginCheck (h : model.beginCheck = some model') :
    model'.view.available = model.view.available := by
  rw [beginCheck] at h
  split at h
  · cases h
    rfl
  · cases h

theorem phase_checkFinished {now : DateTime}
    {result : Except (List Char) (Option AvailableSummary)}
    (h : model.checkFinished humanBytes now result = some model') :
    model.phase = .checking ∧
      (model'.phase = .available ∨ model'.phase = .idle ∨ model'.phase = .error) := by
  rw [checkFinished] at h
  split at h
  · next hphase =>
    refine ⟨hphase, ?_⟩
    match result with
    | .ok (some summary) =>
      cases h
      exact .inl rfl
    | .ok none =>
      cases h
      exact .inr (.inl rfl)
    | .error reason =>
      cases h
      exact .inr (.inr rfl)
  · cases h

theorem phase_beginDownload (h : model.beginDownload humanBytes = some model') :
    model.phase = .available ∧ model.view.available.isSome ∧ model'.phase = .downloading := by
  rw [beginDownload] at h
  split at h
  · cases h
  · next available havailable =>
    split at h
    · next hallows =>
      cases h
      exact ⟨of_decide_eq_true hallows, by rw [havailable]; rfl, rfl⟩
    · cases h

end UpdateViewModel

/-! ### Duties -/

namespace ServiceThread

def checks : ServiceThread V → Bool
  | .marked .checkOnce | .fetch | .keep _ | .report _ => true
  | _ => false

/-- It has begun an install and will report its end. -/
def downloads : ServiceThread V → Bool
  | .noOffer | .spawnInstall _ | .runInstall _ | .download _ | .plan _ | .apply _
  | .finishWithError _ | .finished .. => true
  | _ => false

def installs : ServiceThread V → Bool
  | .beginDownload | .refused | .spawnInstall _ | .notStarted | .runInstall _ | .download _
  | .plan _ | .apply _ | .finishWithError _ | .finished .. | .clearInstalling | .exit => true
  | _ => false

end ServiceThread

namespace UpdateService

def isChecking (service : UpdateService V) : Bool := service.model.phase = .checking

def isDownloading (service : UpdateService V) : Bool := service.model.phase = .downloading

end UpdateService

/-! ### What a step can do -/

/-- What is owed at a point: the end of a check, the end of an install, and its flag. -/
def owes (thread : Option (ServiceThread V)) : Bool × Bool × Bool :=
  (thread.any ServiceThread.checks, thread.any ServiceThread.downloads,
    thread.any ServiceThread.installs)

def Orderly (service : UpdateService V) : ServiceThread V → ServiceAnswer V → Prop
  | .mark .checkNow, _ => service.model.phase.allowsCheck = false
  | .spawnInstall _, .spawned started => started = true
  | _, _ => True

inductive Turn (service : UpdateService V) (thread : ServiceThread V) (answer : ServiceAnswer V)
    (service' : UpdateService V) (goesOn : Option (ServiceThread V)) : Prop where
  | pass (hphase : service'.model.phase = service.model.phase)
      (hflag : service'.installing = service.installing) (howes : owes goesOn = owes (some thread))
  | beginCheck (hallows : service.model.phase.allowsCheck)
      (hphase : service'.model.phase = .checking) (hflag : service'.installing = service.installing)
      (howed : owes (some thread) = (false, false, false))
      (howes : owes goesOn = (true, false, false))
  | endCheck
      (hphase : service.model.phase = .checking → service'.model.phase.allowsCheck)
      (hflag : service'.installing = service.installing)
      (howed : owes (some thread) = (true, false, false))
      (howes : owes goesOn = (false, false, false))
  | takeFlag (hphase : service'.model.phase = service.model.phase)
      (hclear : service.installing = false) (hflag : service'.installing = true)
      (howed : owes (some thread) = (false, false, false))
      (howes : owes goesOn = (false, false, true))
  | beginInstall (havailable : service.model.phase = .available)
      (hphase : service'.model.phase = .downloading)
      (hflag : service'.installing = service.installing)
      (howed : owes (some thread) = (false, false, true))
      (howes : owes goesOn = (false, true, true))
  | endInstall (hphase : service.model.phase = .downloading → service'.model.phase.allowsCheck)
      (hflag : service'.installing = service.installing)
      (howed : owes (some thread) = (false, true, true))
      (howes : owes goesOn = (false, false, true))
  | clearFlag (hphase : service'.model.phase = service.model.phase)
      (hflag : service'.installing = false)
      (howed : owes (some thread) = (false, false, true))
      (howes : owes goesOn = (false, false, false))
  /-- `check_now` begins a check that nobody owes the end of. -/
  | lostCheck (hguard : ¬ Orderly service thread answer) (hallows : service.model.phase.allowsCheck)
      (hphase : service'.model.phase = .checking)
      (howed : owes (some thread) = (false, false, false))
      (howes : owes goesOn = (false, false, false))
  /-- No thread is started for an install that was begun. -/
  | lostInstall (hguard : ¬ Orderly service thread answer)
      (hphase : service'.model.phase = service.model.phase)
      (howed : owes (some thread) = (false, true, true))
      (howes : owes goesOn = (false, false, true))
  /-- The view has an offer and the service has none. -/
  | noOffer (havailable : service.model.phase = .available)
      (hoffer : service.model.view.available.isSome ∧ service.offer = none)
  | failNoOffer (hthread : thread = .noOffer)

section Turn

variable {config : ServiceConfig V} {service service' : UpdateService V}
  {thread : ServiceThread V} {answer : ServiceAnswer V} {goesOn : Option (ServiceThread V)}

theorem owes_checkResult (outcome : Except UpdateError (CheckOutcome V)) :
    owes (some (UpdateService.checkResult config outcome)) = (true, false, false) := by
  match outcome with
  | .ok (.available update) =>
    rw [UpdateService.checkResult]
    split
    · rfl
    · rfl
  | .ok (.upToDate ..) => rfl
  | .ok (.unsupported _) => rfl
  | .error _ => rfl

theorem owes_staged (update : AvailableUpdate V) (digest : Except UpdateError (List Char)) :
    owes (some (UpdateService.staged update digest)) = (false, true, true) := by
  match digest with
  | .ok digest =>
    rw [UpdateService.staged]
    split
    · rfl
    · rfl
  | .error _ => rfl

theorem owes_planned (update : AvailableUpdate V) (plan : Except (List Char) Unit) :
    owes (some (UpdateService.planned update plan)) = (false, true, true) := by
  match plan with
  | .ok () => rfl
  | .error _ => rfl

theorem owes_applied (update : AvailableUpdate V)
    (outcome : Except (List Char) InstallOutcome) :
    owes (some (UpdateService.applied config update outcome)) = (false, true, true) := by
  match outcome with
  | .ok (.applied _) => rfl
  | .ok (.needsUser ..) => rfl
  | .error _ => rfl

theorem turn_mark {caller : Caller} (h : service.next config (.mark caller) .none =
    some (service', goesOn)) : Turn service (.mark caller) .none service' goesOn := by
  rw [UpdateService.next] at h
  split at h
  · cases h
    exact .pass rfl rfl rfl
  · next model hbegin =>
    cases h
    obtain ⟨hallows, hphase⟩ := UpdateViewModel.phase_beginCheck hbegin
    cases caller with
    | checkNow =>
      refine .lostCheck (fun hguard => ?_) hallows hphase rfl rfl
      exact absurd hallows (by rw [show service.model.phase.allowsCheck = false from hguard]; simp)
    | checkOnce => exact .beginCheck hallows hphase rfl rfl rfl

theorem turn_report {result : Except (List Char) (Option AvailableSummary)} {now : DateTime}
    (h : service.next config (.report result) (.time now) = some (service', goesOn)) :
    Turn service (.report result) (.time now) service' goesOn := by
  cases h
  refine .endCheck (fun hphase => ?_) rfl rfl rfl
  cases hfinished : service.model.checkFinished config.humanBytes now result with
  | none =>
    rw [UpdateViewModel.checkFinished, if_pos hphase] at hfinished
    match result with
    | .ok (some _) => cases hfinished
    | .ok none => cases hfinished
    | .error _ => cases hfinished
  | some model =>
    obtain ⟨-, h | h | h⟩ := UpdateViewModel.phase_checkFinished hfinished
    all_goals
      rw [Option.getD_some, h]
      rfl

theorem turn_beginDownload (h : service.next config .beginDownload .none =
    some (service', goesOn)) : Turn service .beginDownload .none service' goesOn := by
  rw [UpdateService.next] at h
  split at h
  · cases h
    exact .pass rfl rfl rfl
  · next model hbegin =>
    cases h
    obtain ⟨havailable, hview, hphase⟩ := UpdateViewModel.phase_beginDownload hbegin
    cases hoffer : service.offer with
    | none => exact .noOffer havailable ⟨hview, hoffer⟩
    | some update => exact .beginInstall havailable hphase rfl rfl rfl

theorem turn_finished {version : List Char} {restartRequired : Bool}
    (h : service.next config (.finished version restartRequired) .none =
      some (service', goesOn)) :
    Turn service (.finished version restartRequired) .none service' goesOn := by
  have hphase : service.model.phase = .downloading → service'.model.phase.allowsCheck := by
    cases h
    intro hphase
    rw [UpdateViewModel.downloadFinished, if_pos hphase]
    rfl
  cases h
  cases restartRequired with
  | true => exact .endInstall hphase rfl rfl rfl
  | false => exact .endInstall hphase rfl rfl rfl

/-- Every step is one of these. -/
theorem turn_of_next (h : service.next config thread answer = some (service', goesOn)) :
    Turn service thread answer service' goesOn := by
  cases thread with
  | mark caller =>
    cases answer with
    | none => exact turn_mark h
    | _ => cases h
  | marked caller =>
    cases answer with
    | none =>
      cases h
      cases caller with
      | checkNow => exact .pass rfl rfl rfl
      | checkOnce => exact .pass rfl rfl rfl
    | _ => cases h
  | spawnCheck =>
    cases answer with
    | spawned started =>
      cases h
      cases started with
      | true => exact .pass rfl rfl rfl
      | false => exact .pass rfl rfl rfl
    | _ => cases h
  | checkOnce =>
    cases answer with
    | none =>
      cases h
      by_cases hinstalling : service.installing
      · exact .pass rfl rfl (by rw [if_pos hinstalling]; rfl)
      · exact .pass rfl rfl (by rw [if_neg hinstalling]; rfl)
    | _ => cases h
  | fetch =>
    cases answer with
    | checked outcome =>
      cases h
      exact .pass rfl rfl (owes_checkResult outcome)
    | _ => cases h
  | keep update =>
    cases answer with
    | none =>
      cases h
      exact .pass rfl rfl rfl
    | _ => cases h
  | report result =>
    cases answer with
    | time now => exact turn_report h
    | _ => cases h
  | clearChecking now =>
    cases answer with
    | none =>
      cases h
      exact .pass rfl rfl rfl
    | _ => cases h
  | recordCheck now =>
    cases answer with
    | none =>
      cases h
      exact .pass rfl rfl rfl
    | _ => cases h
  | installAvailable =>
    cases answer with
    | none =>
      cases h
      cases hinstalling : service.installing with
      | true => exact .pass rfl hinstalling.symm rfl
      | false => exact .takeFlag rfl hinstalling rfl rfl rfl
    | _ => cases h
  | beginDownload =>
    cases answer with
    | none => exact turn_beginDownload h
    | _ => cases h
  | refused =>
    cases answer with
    | none =>
      cases h
      exact .clearFlag rfl rfl rfl rfl
    | _ => cases h
  | noOffer => exact .failNoOffer rfl
  | spawnInstall update =>
    cases answer with
    | spawned started =>
      cases h
      cases started with
      | true => exact .pass rfl rfl rfl
      | false => exact .lostInstall (fun hguard => Bool.noConfusion hguard) rfl rfl rfl
    | _ => cases h
  | notStarted =>
    cases answer with
    | none =>
      cases h
      exact .clearFlag rfl rfl rfl rfl
    | _ => cases h
  | runInstall update =>
    cases answer with
    | none =>
      cases h
      refine .pass rfl rfl ?_
      split
      · rfl
      · rfl
    | _ => cases h
  | download update =>
    cases answer with
    | downloaded digest =>
      cases h
      exact .pass rfl rfl (owes_staged update digest)
    | _ => cases h
  | plan update =>
    cases answer with
    | planned plan =>
      cases h
      exact .pass rfl rfl (owes_planned update plan)
    | _ => cases h
  | apply update =>
    cases answer with
    | applied outcome =>
      cases h
      exact .pass rfl rfl (owes_applied update outcome)
    | _ => cases h
  | finishWithError reason =>
    cases answer with
    | none =>
      cases h
      exact .endInstall (fun _ => rfl) rfl rfl rfl
    | _ => cases h
  | finished version restartRequired =>
    cases answer with
    | none => exact turn_finished h
    | _ => cases h
  | clearInstalling =>
    cases answer with
    | none =>
      cases h
      exact .clearFlag rfl rfl rfl rfl
    | _ => cases h
  | exit => cases answer <;> cases h

end Turn

/-! ### The offer behind the view -/

namespace ServiceThread

/-- It is about to show an offer. -/
def shows : ServiceThread V → Bool
  | .report (.ok (some _)) => true
  | _ => false

/-- It has found no offer to install. -/
def isNoOffer : ServiceThread V → Bool
  | .noOffer => true
  | _ => false

/-- It does not speak of offers. -/
def silent (thread : ServiceThread V) : Bool := !thread.shows && !thread.isNoOffer

/-- What it is about to show was kept, and it misses none. -/
def Offered (service : UpdateService V) (thread : ServiceThread V) : Prop :=
  (thread.shows → service.offer.isSome) ∧ thread.isNoOffer = false

theorem offered_of_silent {service : UpdateService V} {thread : ServiceThread V}
    (h : thread.silent) : thread.Offered service := by
  obtain ⟨hshows, hmissing⟩ := Bool.and_eq_true_iff.mp h
  rw [Bool.not_eq_true'] at hshows hmissing
  refine ⟨fun hshow => ?_, hmissing⟩
  rw [hshows] at hshow
  cases hshow

end ServiceThread

def UpdateService.Offered (service : UpdateService V) : Prop :=
  service.model.view.available.isSome → service.offer.isSome

section Offered

variable {config : ServiceConfig V} {service service' : UpdateService V}
  {thread : ServiceThread V} {answer : ServiceAnswer V} {goesOn : Option (ServiceThread V)}

structure OffersKept (service service' : UpdateService V) (goesOn : Option (ServiceThread V)) :
    Prop where
  offered : service'.Offered
  goesOn : ∀ u, goesOn = some u → u.Offered service'
  others : service.offer.isSome → service'.offer.isSome

theorem offersKept_of_eq (h : service.Offered)
    (havailable : service'.model.view.available = service.model.view.available)
    (hoffer : service'.offer = service.offer) (hgoesOn : goesOn.all ServiceThread.silent) :
    OffersKept service service' goesOn where
  offered hsome := by
    rw [hoffer]
    exact h (havailable ▸ hsome)
  goesOn u hu := by
    rw [hu] at hgoesOn
    exact ServiceThread.offered_of_silent hgoesOn
  others hsome := hoffer ▸ hsome

theorem silent_checkResult (outcome : Except UpdateError (CheckOutcome V)) :
    (UpdateService.checkResult config outcome).silent := by
  match outcome with
  | .ok (.available update) =>
    rw [UpdateService.checkResult]
    split
    · rfl
    · rfl
  | .ok (.upToDate ..) => rfl
  | .ok (.unsupported _) => rfl
  | .error _ => rfl

theorem silent_of_owes (h : owes (some thread) = (false, true, true)) : thread.silent := by
  cases thread with
  | report result => cases h
  | noOffer => cases h
  | _ => rfl

theorem offersKept_report {result : Except (List Char) (Option AvailableSummary)} {now : DateTime}
    (h : service.next config (.report result) (.time now) = some (service', goesOn))
    (hservice : service.Offered) (hthread : (ServiceThread.report result).Offered service) :
    OffersKept service service' goesOn := by
  cases h
  refine ⟨fun hsome => ?_, ?_, id⟩
  · change ((service.model.checkFinished config.humanBytes now result).getD
      service.model).view.available.isSome = true at hsome
    rw [UpdateViewModel.checkFinished] at hsome
    split at hsome
    · match result with
      | .ok (some summary) => exact hthread.1 rfl
      | .ok none => cases hsome
      | .error reason => exact hservice hsome
    · exact hservice hsome
  · rintro u ⟨⟩
    exact ServiceThread.offered_of_silent rfl

theorem offersKept_beginDownload
    (h : service.next config .beginDownload .none = some (service', goesOn))
    (hservice : service.Offered) : OffersKept service service' goesOn := by
  rw [UpdateService.next] at h
  split at h
  · cases h
    exact offersKept_of_eq hservice rfl rfl rfl
  · next model hbegin =>
    cases h
    obtain ⟨-, hview, -⟩ := UpdateViewModel.phase_beginDownload hbegin
    refine ⟨fun _ => hservice hview, fun u hu => ?_, id⟩
    obtain ⟨update, hoffer⟩ := Option.isSome_iff_exists.mp (hservice hview)
    rw [hoffer] at hu
    cases hu
    exact ServiceThread.offered_of_silent rfl

theorem offersKept_finished {version : List Char} {restartRequired : Bool}
    (h : service.next config (.finished version restartRequired) .none = some (service', goesOn))
    (hservice : service.Offered) : OffersKept service service' goesOn := by
  cases h
  refine offersKept_of_eq hservice ?_ rfl ?_
  · change ((service.model.downloadFinished version).getD service.model).view.available = _
    rw [UpdateViewModel.downloadFinished]
    split
    · rfl
    · rfl
  · cases restartRequired with
    | true => rfl
    | false => rfl

theorem offersKept_next (h : service.next config thread answer = some (service', goesOn))
    (hservice : service.Offered) (hthread : thread.Offered service) :
    OffersKept service service' goesOn := by
  have hnext := h
  revert h
  fun_cases UpdateService.next <;> intro h
  -- `mark`, where the check is begun
  case case2 model hbegin =>
    cases h
    exact offersKept_of_eq hservice (UpdateViewModel.available_beginCheck hbegin) rfl rfl
  case case3 caller =>
    cases h
    cases caller with
    | checkNow => exact offersKept_of_eq hservice rfl rfl rfl
    | checkOnce => exact offersKept_of_eq hservice rfl rfl rfl
  case case6 outcome =>
    cases h
    exact offersKept_of_eq hservice rfl rfl (silent_checkResult outcome)
  -- `keep`: the offer is there before it is shown
  case case7 update =>
    cases h
    refine ⟨fun _ => rfl, ?_, fun _ => rfl⟩
    rintro u ⟨⟩
    exact ⟨fun _ => rfl, rfl⟩
  case case8 => exact offersKept_report hnext hservice hthread
  case case12 => exact offersKept_beginDownload hnext hservice
  case case13 => exact offersKept_beginDownload hnext hservice
  case case15 => cases hthread.2
  case case19 update digest =>
    cases h
    exact offersKept_of_eq hservice rfl rfl (silent_of_owes (owes_staged update digest))
  case case20 update plan =>
    cases h
    exact offersKept_of_eq hservice rfl rfl (silent_of_owes (owes_planned update plan))
  case case21 update outcome =>
    cases h
    exact offersKept_of_eq hservice rfl rfl (silent_of_owes (owes_applied update outcome))
  case case23 => exact offersKept_finished hnext hservice
  case case25 => cases h
  -- the others show nothing, whichever way they go
  all_goals
    cases h
    refine offersKept_of_eq hservice rfl rfl ?_
    first
    | rfl
    | split <;> rfl

end Offered

/-! ### The account -/

structure Accounted (s : Threads.State (UpdateService V) (ServiceThread V)) : Prop where
  offered : Threads.Each UpdateService.Offered ServiceThread.Offered s
  checks : Threads.Held UpdateService.isChecking ServiceThread.checks s
  downloads : Threads.Held UpdateService.isDownloading ServiceThread.downloads s
  installs : Threads.Held UpdateService.installing ServiceThread.installs s

/-- A check or an install is under way, and nobody will end it. -/
def Stuck : Threads.State (UpdateService V) (ServiceThread V) → Prop :=
  Threads.Each (fun service => service.model.phase = .checking ∨ service.model.phase = .downloading)
    fun _ thread => thread.checks = false ∧ thread.downloads = false

theorem owes_eq_iff {thread : Option (ServiceThread V)} {c d i : Bool} :
    owes thread = (c, d, i) ↔
      thread.any ServiceThread.checks = c ∧ thread.any ServiceThread.downloads = d ∧
        thread.any ServiceThread.installs = i := by
  rw [owes, Prod.mk.injEq, Prod.mk.injEq]

theorem owes_some_iff {thread : ServiceThread V} {c d i : Bool} :
    owes (some thread) = (c, d, i) ↔
      thread.checks = c ∧ thread.downloads = d ∧ thread.installs = i :=
  owes_eq_iff

theorem UpdatePhase.ne_of_allowsCheck {phase : UpdatePhase} (h : phase.allowsCheck) :
    phase ≠ .checking ∧ phase ≠ .downloading := by
  constructor
  · rintro rfl
    cases h
  · rintro rfl
    cases h

section Account

variable {config : ServiceConfig V} {service service' : UpdateService V}
  {thread : ServiceThread V} {answer : ServiceAnswer V} {goesOn : Option (ServiceThread V)}

/-- What a thread that owes something finds. -/
structure Due (service : UpdateService V) (thread : ServiceThread V) : Prop where
  checks : thread.checks → service.model.phase = .checking
  downloads : thread.downloads → service.model.phase = .downloading
  installs : thread.installs → service.installing

open Threads (Moves)

theorem Turn.moves (turn : Turn service thread answer service' goesOn)
    (horderly : Orderly service thread answer) (hservice : service.Offered)
    (hthread : thread.Offered service) (hdue : Due service thread) :
    Moves UpdateService.isChecking ServiceThread.checks service thread service' goesOn ∧
      Moves UpdateService.isDownloading ServiceThread.downloads service thread service' goesOn ∧
      Moves UpdateService.installing ServiceThread.installs service thread service' goesOn := by
  obtain ⟨hchecks, hdownloads, hinstalls⟩ := hdue
  simp only [Moves, UpdateService.isChecking, UpdateService.isDownloading]
  cases turn with
  | pass hphase hflag howes =>
    obtain ⟨hc, hd, hi⟩ := owes_eq_iff.mp howes
    rw [hphase, hflag, hc, hd, hi]
    exact ⟨rfl, rfl, rfl⟩
  | beginCheck hallows hphase hflag howed howes =>
    obtain ⟨hc, hd, hi⟩ := owes_eq_iff.mp howes
    obtain ⟨hc', hd', hi'⟩ := owes_some_iff.mp howed
    obtain ⟨hchecking, hdownloading⟩ := UpdatePhase.ne_of_allowsCheck hallows
    simp [hphase, hflag, hc, hd, hi, hc', hd', hi', hchecking, hdownloading]
  | endCheck hphase hflag howed howes =>
    obtain ⟨hc, hd, hi⟩ := owes_eq_iff.mp howes
    obtain ⟨hc', hd', hi'⟩ := owes_some_iff.mp howed
    have hbefore := hchecks hc'
    obtain ⟨hchecking, hdownloading⟩ := UpdatePhase.ne_of_allowsCheck (hphase hbefore)
    simp [hbefore, hflag, hc, hd, hi, hc', hd', hi', hchecking, hdownloading]
  | takeFlag hphase hclear hflag howed howes =>
    obtain ⟨hc, hd, hi⟩ := owes_eq_iff.mp howes
    obtain ⟨hc', hd', hi'⟩ := owes_some_iff.mp howed
    simp [hphase, hclear, hflag, hc, hd, hi, hc', hd', hi']
  | beginInstall havailable hphase hflag howed howes =>
    obtain ⟨hc, hd, hi⟩ := owes_eq_iff.mp howes
    obtain ⟨hc', hd', hi'⟩ := owes_some_iff.mp howed
    simp [havailable, hphase, hflag, hc, hd, hi, hc', hd', hi']
  | endInstall hphase hflag howed howes =>
    obtain ⟨hc, hd, hi⟩ := owes_eq_iff.mp howes
    obtain ⟨hc', hd', hi'⟩ := owes_some_iff.mp howed
    have hbefore := hdownloads hd'
    obtain ⟨hchecking, hdownloading⟩ := UpdatePhase.ne_of_allowsCheck (hphase hbefore)
    simp [hbefore, hflag, hc, hd, hi, hc', hd', hi', hchecking, hdownloading]
  | clearFlag hphase hflag howed howes =>
    obtain ⟨hc, hd, hi⟩ := owes_eq_iff.mp howes
    obtain ⟨hc', hd', hi'⟩ := owes_some_iff.mp howed
    simp [hphase, hinstalls hi', hflag, hc, hd, hi, hc', hd', hi']
  | lostCheck hguard => exact absurd horderly hguard
  | lostInstall hguard => exact absurd horderly hguard
  | noOffer havailable hoffer =>
    have hsome := hservice hoffer.1
    rw [hoffer.2] at hsome
    cases hsome
  | failNoOffer hmissing =>
    rw [hmissing] at hthread
    cases hthread.2

theorem next_of_not_orderly (h : service.next config thread answer = some (service', goesOn))
    (hnot : ¬ Orderly service thread answer) :
    (service.model.phase.allowsCheck ∧ service'.model.phase = .checking ∧
      owes goesOn = (false, false, false)) ∨
    (service'.model.phase = service.model.phase ∧ owes (some thread) = (false, true, true) ∧
      owes goesOn = (false, false, true)) := by
  revert hnot
  fun_cases Orderly <;> intro hnot
  · -- `check_now` begins a check
    have hallows : service.model.phase.allowsCheck = true := by simpa using hnot
    cases answer with
    | none =>
      rw [UpdateService.next, UpdateViewModel.beginCheck, if_pos hallows] at h
      cases h
      exact .inl ⟨hallows, rfl, rfl⟩
    | _ => cases h
  · -- no thread is started for an install
    cases h
    rw [Bool.not_eq_true] at hnot
    rw [hnot]
    exact .inr ⟨rfl, rfl, rfl⟩
  · exact absurd trivial hnot

theorem Turn.stays (turn : Turn service thread answer service' goesOn)
    (hphase : service.model.phase = .checking ∨ service.model.phase = .downloading)
    (hthread : thread.checks = false ∧ thread.downloads = false) :
    service'.model.phase = service.model.phase ∧
      goesOn.any ServiceThread.checks = false ∧ goesOn.any ServiceThread.downloads = false := by
  have hrefused : service.model.phase.allowsCheck = false := by
    obtain h | h := hphase
    all_goals
      rw [h]
      rfl
  have hnotAvailable : service.model.phase ≠ .available := by
    intro h
    rw [h] at hrefused
    cases hrefused
  obtain ⟨hchecks, hdownloads⟩ := hthread
  cases turn with
  | pass hphase hflag howes =>
    obtain ⟨hc, hd, -⟩ := owes_eq_iff.mp howes
    exact ⟨hphase, hc.trans hchecks, hd.trans hdownloads⟩
  | takeFlag hphase hclear hflag howed howes =>
    obtain ⟨hc, hd, -⟩ := owes_eq_iff.mp howes
    exact ⟨hphase, hc, hd⟩
  | clearFlag hphase hflag howed howes =>
    obtain ⟨hc, hd, -⟩ := owes_eq_iff.mp howes
    exact ⟨hphase, hc, hd⟩
  | beginCheck hallows | lostCheck _ hallows =>
    rw [hallows] at hrefused
    cases hrefused
  | endCheck _ _ howed =>
    rw [(owes_some_iff.mp howed).1] at hchecks
    cases hchecks
  | endInstall _ _ howed | lostInstall _ _ howed =>
    rw [(owes_some_iff.mp howed).2.1] at hdownloads
    cases hdownloads
  | beginInstall havailable | noOffer havailable => exact absurd havailable hnotAvailable
  | failNoOffer hmissing =>
    rw [hmissing] at hdownloads
    cases hdownloads

end Account

/-! ### Runs -/

section Runs

variable {config : ServiceConfig V} {installedEpoch : Nat} {state : UpdateState}
  {lastCheck : Option DateTime} {now : DateTime}
  {s s' : Threads.State (UpdateService V) (ServiceThread V)}
  {l : Threads.Label ServiceCall (ServiceAnswer V)}

theorem owes_enter {service : UpdateService V} {call : ServiceCall} {thread : ServiceThread V}
    (h : service.enter call = some thread) :
    owes (some thread) = (false, false, false) ∧ thread.silent := by
  cases call with
  | checkNow =>
    cases h
    exact ⟨rfl, rfl⟩
  | installAvailable =>
    cases h
    exact ⟨rfl, rfl⟩
  | tick now =>
    rw [UpdateService.enter] at h
    split at h
    · cases h
      exact ⟨rfl, rfl⟩
    · cases h

theorem Accounted.due (h : Accounted s) {thread : ServiceThread V} (hmem : thread ∈ s.threads) :
    Due s.shared thread where
  checks hduty := of_decide_eq_true (h.checks.flag_of_mem hmem hduty)
  downloads hduty := of_decide_eq_true (h.downloads.flag_of_mem hmem hduty)
  installs hduty := h.installs.flag_of_mem hmem hduty

theorem accounted_init :
    Accounted (updateService config installedEpoch state lastCheck now).machine.init where
  offered := ⟨fun h => absurd h Bool.false_ne_true, fun _ h => absurd h List.not_mem_nil⟩
  checks := rfl
  downloads := rfl
  installs := rfl

theorem accounted_step (h : Accounted s)
    (hguard : Threads.Guard Orderly s l)
    (hstep : (updateService config installedEpoch state lastCheck now).machine.step s l = some s') :
    Accounted s' := by
  obtain ⟨call, rfl, rfl⟩ | ⟨index, answer, thread, before, after, goesOn, rfl, hindex, hthreads,
    hnext, hthreads'⟩ := Threads.step_cases hstep
  · have henter : ∀ thread ∈ s.shared.enter call,
        owes (some thread) = (false, false, false) ∧ thread.silent := fun thread => owes_enter
    exact {
      offered := h.offered.call fun u hu => ServiceThread.offered_of_silent (henter u hu).2
      checks := h.checks.call fun u hu => (owes_some_iff.mp (henter u hu).1).1
      downloads := h.downloads.call fun u hu => (owes_some_iff.mp (henter u hu).1).2.1
      installs := h.installs.call fun u hu => (owes_some_iff.mp (henter u hu).1).2.2 }
  · obtain ⟨shared, threads⟩ := s
    obtain ⟨shared', threads'⟩ := s'
    subst hthreads hthreads'
    have hmem : thread ∈ before ++ thread :: after :=
      List.mem_append_right before List.mem_cons_self
    have hoffered := h.offered.2 thread hmem
    have hkept := offersKept_next hnext h.offered.1 hoffered
    obtain ⟨hchecks, hdownloads, hinstalls⟩ :=
      (turn_of_next hnext).moves (hguard thread hindex) h.offered.1 hoffered (h.due hmem)
    exact {
      offered := h.offered.run hkept.offered hkept.goesOn fun u hu =>
        ⟨fun hshows => hkept.others (hu.1 hshows), hu.2⟩
      checks := h.checks.run hchecks
      downloads := h.downloads.run hdownloads
      installs := h.installs.run hinstalls }

theorem stuck_of_others {shared : UpdateService V} {before after : List (ServiceThread V)}
    {goesOn : Option (ServiceThread V)}
    (hphase : shared.model.phase = .checking ∨ shared.model.phase = .downloading)
    (hchecks : ∀ u ∈ before ++ after, u.checks = false)
    (hdownloads : ∀ u ∈ before ++ after, u.downloads = false)
    (hc : goesOn.any ServiceThread.checks = false)
    (hd : goesOn.any ServiceThread.downloads = false) :
    Stuck ⟨shared, before ++ goesOn.toList ++ after⟩ := by
  refine ⟨hphase, fun u hu => ?_⟩
  obtain (hu | hu) | hu := by simpa only [List.mem_append] using hu
  · exact ⟨hchecks u (List.mem_append_left _ hu), hdownloads u (List.mem_append_left _ hu)⟩
  · rw [Option.mem_toList.mp hu] at hc hd
    exact ⟨hc, hd⟩
  · exact ⟨hchecks u (List.mem_append_right _ hu), hdownloads u (List.mem_append_right _ hu)⟩

theorem stuck_of_not_orderly (h : Accounted s) (hguard : ¬ Threads.Guard Orderly s l)
    (hstep : (updateService config installedEpoch state lastCheck now).machine.step s l = some s') :
    Stuck s' := by
  obtain ⟨call, rfl, rfl⟩ | ⟨index, answer, thread, before, after, goesOn, rfl, hindex, hthreads,
    hnext, hthreads'⟩ := Threads.step_cases hstep
  · exact absurd trivial hguard
  have hnot : ¬ Orderly s.shared thread answer := by
    intro horderly
    refine hguard fun u hu => ?_
    obtain rfl := Option.some.inj (hindex.symm.trans hu)
    exact horderly
  obtain ⟨shared, threads⟩ := s
  obtain ⟨shared', threads'⟩ := s'
  subst hthreads hthreads'
  have hmem : thread ∈ before ++ thread :: after :=
    List.mem_append_right before List.mem_cons_self
  have hothers : ∀ u ∈ before ++ after, u ∈ before ++ thread :: after := by
    intro u hu
    obtain hu | hu := List.mem_append.mp hu
    · exact List.mem_append_left _ hu
    · exact List.mem_append_right _ (List.mem_cons_of_mem _ hu)
  obtain ⟨hallows, hphase, howes⟩ | ⟨hphase, howed, howes⟩ := next_of_not_orderly hnext hnot
  · -- nothing was under way, and the check that is now has no thread
    obtain ⟨hchecking, hdownloading⟩ := UpdatePhase.ne_of_allowsCheck hallows
    obtain ⟨hc, hd, -⟩ := owes_eq_iff.mp howes
    have hchecks := h.checks.eq_false_of_flag (decide_eq_false hchecking)
    have hdownloads := h.downloads.eq_false_of_flag (decide_eq_false hdownloading)
    exact stuck_of_others (.inl hphase) (fun u hu => hchecks u (hothers u hu))
      (fun u hu => hdownloads u (hothers u hu)) hc hd
  · -- the install was under way, and its thread was the only one to end it
    obtain ⟨hc, hd, -⟩ := owes_eq_iff.mp howes
    have hduty := (owes_some_iff.mp howed).2.1
    have hdownloading := (h.due hmem).downloads hduty
    have hchecking : shared.model.phase ≠ .checking := by
      intro hchecking
      rw [hchecking] at hdownloading
      cases hdownloading
    have hchecks := h.checks.eq_false_of_flag (decide_eq_false hchecking)
    exact stuck_of_others (.inr (hphase.trans hdownloading)) (fun u hu => hchecks u (hothers u hu))
      (h.downloads.others hduty) hc hd

theorem stuck_step (h : Stuck s)
    (hstep : (updateService config installedEpoch state lastCheck now).machine.step s l = some s') :
    Stuck s' := by
  obtain ⟨call, rfl, rfl⟩ | ⟨index, answer, thread, before, after, goesOn, rfl, hindex, hthreads,
    hnext, hthreads'⟩ := Threads.step_cases hstep
  · refine h.call fun u hu => ?_
    obtain ⟨hc, hd, -⟩ := owes_some_iff.mp (owes_enter hu).1
    exact ⟨hc, hd⟩
  · obtain ⟨shared, threads⟩ := s
    obtain ⟨shared', threads'⟩ := s'
    subst hthreads hthreads'
    have hmem : thread ∈ before ++ thread :: after :=
      List.mem_append_right before List.mem_cons_self
    obtain ⟨hphase, hc, hd⟩ := (turn_of_next hnext).stays h.1 (h.2 thread hmem)
    refine h.run ?_ (fun u hu => ?_) fun u hu => hu
    · rw [hphase]
      exact h.1
    · rw [Option.mem_def.mp hu] at hc hd
      exact ⟨hc, hd⟩

/-- Neither a check nor an install seems to be under way. -/
structure Free (service : UpdateService V) : Prop where
  checking : service.model.phase ≠ .checking
  downloading : service.model.phase ≠ .downloading
  installing : service.installing = false

/-- What the service promises: once nothing is running, it is free. -/
def NeverWedges (service : Threads (UpdateService V) (ServiceThread V) ServiceCall
    (ServiceAnswer V)) : Prop :=
  ∀ ls s, service.machine.exec service.machine.init ls = some s → s.threads = [] → Free s.shared

/-- **A service at rest is free exactly when every step that led there was orderly.** One check
begun by `check_now`, or one install whose thread is not started, and it is never free again. -/
theorem free_iff_orderly {ls : List (Threads.Label ServiceCall (ServiceAnswer V))}
    (hrun : (updateService config installedEpoch state lastCheck now).machine.exec
      (updateService config installedEpoch state lastCheck now).machine.init ls = some s)
    (hrest : s.threads = []) :
    Free s.shared ↔ (updateService config installedEpoch state lastCheck now).machine.Along
      (Threads.Guard Orderly)
      (updateService config installedEpoch state lastCheck now).machine.init ls := by
  obtain ⟨halong, haccounted⟩ | ⟨hnot, hstuck⟩ :=
    Machine.exec_along_or_trap (fun s l s' => accounted_step) (fun s l s' => stuck_of_not_orderly)
      (fun s l s' => stuck_step) accounted_init hrun
  · refine iff_of_true ⟨?_, ?_, ?_⟩ halong
    · exact of_decide_eq_false (haccounted.checks.eq_false hrest)
    · exact of_decide_eq_false (haccounted.downloads.eq_false hrest)
    · exact haccounted.installs.eq_false hrest
  · refine iff_of_false (fun hfree => ?_) hnot
    obtain hphase | hphase := hstuck.1
    · exact hfree.checking hphase
    · exact hfree.downloading hphase

end Runs

/-! ### A check from the page, and a day without one -/

def stableConfig : ServiceConfig (Nat × Nat × Nat) where
  semver := numericVersions
  humanBytes size := Nat.toDigits 10 size ++ " B".toList
  channel := .stable
  runningVersion := "0.1.0".toList
  allowUnsigned := false

def stableService :
    Threads (UpdateService (Nat × Nat × Nat)) (ServiceThread (Nat × Nat × Nat)) ServiceCall
      (ServiceAnswer (Nat × Nat × Nat)) :=
  updateService stableConfig 1 .empty none 0

/-- The button, its thread, and the end of it. -/
def checkNowRun : List (Threads.Label ServiceCall (ServiceAnswer (Nat × Nat × Nat))) := [
  .call .checkNow,
  .run 0 .none,
  .run 0 .none,
  .run 0 (.spawned true),
  .run 0 .none,
  .run 0 .none]

/-- The thread that `check_now` starts finds the check begun by its caller, and no check is ever
made again. -/
theorem not_neverWedges : ¬ NeverWedges stableService := by
  intro h
  have hfree := h checkNowRun _ rfl rfl
  exact hfree.checking rfl

/-- What the release host offers. -/
def secondUpdate : AvailableUpdate (Nat × Nat × Nat) where
  channel := .stable
  version := (0, 2, 0)
  epoch := 2
  rollback := false
  currentYanked := false
  artifact := build "linux" "x86_64" "https://goble.dev/a" 'a'
  notesUrl := none
  releasedAt := none
  verified := true

def installRun : List (Threads.Label ServiceCall (ServiceAnswer (Nat × Nat × Nat))) := [
  .call (.tick 0),
  .run 0 .none,
  .run 0 .none,
  .run 0 .none,
  .run 0 (.checked (.ok (.available secondUpdate))),
  .run 0 .none,
  .run 0 (.time 0),
  .run 0 .none,
  .run 0 .none,
  .call .installAvailable,
  .run 0 .none,
  .run 0 .none,
  .run 0 (.spawned true),
  .run 0 .none,
  .run 0 (.downloaded (.ok (List.replicate 64 'a'))),
  .run 0 (.planned (.ok ())),
  .run 0 (.applied (.ok (.applied false))),
  .run 0 .none,
  .run 0 .none]

theorem free_installRun :
    ∃ s, stableService.machine.exec stableService.machine.init installRun = some s ∧
      s.threads = [] ∧ s.shared.model.phase = .ready ∧ Free s.shared ∧
      stableService.machine.Along (Threads.Guard Orderly) stableService.machine.init
        installRun := by
  have hend : ∃ s, stableService.machine.exec stableService.machine.init installRun = some s ∧
      s.threads = [] ∧ s.shared.model.phase = .ready ∧ s.shared.installing = false :=
    ⟨_, rfl, rfl, rfl, rfl⟩
  obtain ⟨s, hrun, hrest, hphase, hflag⟩ := hend
  have hfree : Free s.shared := ⟨by rw [hphase]; decide, by rw [hphase]; decide, hflag⟩
  exact ⟨s, hrun, hrest, hphase, hfree, (free_iff_orderly hrun hrest).mp hfree⟩

end Goble.Update
