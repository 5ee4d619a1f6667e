import Goble.Lib.Threads
import Goble.Update.Install
import Goble.Update.Manifest

/-!
# The update service

What the app does with updates while it runs: a view of what is going on (`UpdateViewModel`, with
the transitions it allows), two flags, and the threads that check for a release and install it.

A thread stands at one of the points between two of its accesses to what is shared. Everything
under one lock is one step: nothing there panics, so the lock is never poisoned. What a release
host, the file system or the operating system answers is carried by the label. A thread that has
called `exit` is running until the process is gone, and there is no state after that.
-/

namespace Goble.Update

/-! ### The view -/

inductive UpdatePhase where
  /-- Nothing has been asked yet in this session. -/
  | idle
  | checking
  | available
  | downloading
  /-- Downloaded, verified, installed; the app is about to restart. -/
  | ready
  | error
deriving DecidableEq, Repr

namespace UpdatePhase

def label : UpdatePhase → List Char
  | idle => "Not checked yet".toList
  | checking => "Checking…".toList
  | available => "Update available".toList
  | downloading => "Downloading…".toList
  | ready => "Ready to restart".toList
  | error => "Update failed".toList

def allowsCheck : UpdatePhase → Bool
  | idle | available | ready | error => true
  | checking | downloading => false

def allowsInstall (phase : UpdatePhase) : Bool := phase = available

end UpdatePhase

/-- What the service is built with. The `semver` crate and the rendering of a size in a floating
point format are parameters. -/
structure ServiceConfig (V : Type) where
  semver : Semver V
  humanBytes : Nat → List Char
  channel : Channel
  runningVersion : List Char
  allowUnsigned : Bool

structure AvailableSummary where
  version : List Char
  epoch : Nat
  channel : List Char
  size : Nat
  rollback : Bool
  currentYanked : Bool
  fileName : List Char
deriving DecidableEq, Repr

namespace AvailableSummary

def fromUpdate {V : Type} (semver : Semver V) (update : AvailableUpdate V) : AvailableSummary where
  version := semver.toString update.version
  epoch := update.epoch
  channel := update.channel.asStr
  size := update.artifact.size
  rollback := update.rollback
  currentYanked := update.currentYanked
  fileName := (update.artifact.url.reverse.takeWhile (· ≠ '/')).reverse

def detail (humanBytes : Nat → List Char) (summary : AvailableSummary) : List Char :=
  summary.version ++ " · ".toList ++ summary.channel ++ " · ".toList ++ humanBytes summary.size

end AvailableSummary

/-- The banner a withdrawn running version earns. -/
structure YankedBanner where
  running : List Char
  replacement : List Char
  detail : List Char
deriving DecidableEq, Repr

structure UpdateView where
  currentVersion : List Char
  channel : List Char
  installedEpoch : Nat
  lastCheck : Option (List Char)
  phase : UpdatePhase
  status : List Char
  available : Option AvailableSummary
  readyVersion : Option (List Char)
  error : Option (List Char)
  banner : Option YankedBanner
  failedVersion : Option (List Char)
deriving DecidableEq, Repr

/-- A point in time, in nanoseconds. -/
abbrev DateTime := Int

/-- Whole seconds from one point to another, cut toward zero. -/
def numSeconds (since now : DateTime) : Int := (now - since).tdiv 1000000000

def relativeCheck (at' now : DateTime) : List Char :=
  let seconds := (max (numSeconds at' now) 0).toNat
  let label :=
    if seconds < 60 then "just now".toList
    else if seconds < 3600 then Nat.toDigits 10 (seconds / 60) ++ "m ago".toList
    else if seconds < 86400 then Nat.toDigits 10 (seconds / 3600) ++ "h ago".toList
    else Nat.toDigits 10 (seconds / 86400) ++ "d ago".toList
  "checked ".toList ++ label

/-- A check at startup and then at most this often, in seconds. -/
def checkInterval : Int := 6 * 60 * 60

/-! ### The state machine -/

structure UpdateViewModel where
  view : UpdateView
  lastCheckAt : Option DateTime
deriving DecidableEq, Repr

namespace UpdateViewModel

def new (currentVersion channel : List Char) (installedEpoch : Nat) : UpdateViewModel where
  view := {
    currentVersion
    channel
    installedEpoch
    lastCheck := none
    phase := .idle
    status := UpdatePhase.idle.label
    available := none
    readyVersion := none
    error := none
    banner := none
    failedVersion := none }
  lastCheckAt := none

variable (model : UpdateViewModel)

def phase : UpdatePhase := model.view.phase

/-- Replay what the state file already knows, without touching the phase. -/
def adoptState (state : UpdateState) (lastCheck : Option DateTime) (now : DateTime) :
    UpdateViewModel where
  view := { model.view with
    installedEpoch := state.installedEpoch
    failedVersion := state.failedVersion.map String.toList
    lastCheck := lastCheck.map (relativeCheck · now) }
  lastCheckAt := lastCheck

def beginCheck : Option UpdateViewModel :=
  if model.phase.allowsCheck then
    some { model with
      view := { model.view with
        phase := .checking
        status := UpdatePhase.checking.label
        error := none } }
  else none

/-- Anything that stopped the update where it was. -/
def fail (reason : List Char) : UpdateViewModel :=
  { model with
    view := { model.view with
      phase := .error
      status := UpdatePhase.error.label
      error := some reason } }

/-- A check came back. `offer` is `none` when there is nothing to install. -/
def checkFinished (humanBytes : Nat → List Char) (at' : DateTime)
    (offer : Except (List Char) (Option AvailableSummary)) : Option UpdateViewModel :=
  if model.phase = .checking then
    let view := { model.view with lastCheck := some (relativeCheck at' at') }
    match offer with
    | .ok (some summary) =>
      some {
        view := { view with
          banner :=
            if summary.currentYanked then
              some {
                running := view.currentVersion
                replacement := summary.version
                detail := view.currentVersion ++ " was withdrawn from ".toList ++ view.channel ++
                  ". The replacement is ".toList ++ summary.version ++ " (".toList ++
                  humanBytes summary.size ++ ").".toList }
            else none
          status := summary.channel ++ ' ' :: summary.version ++ " is available".toList
          available := some summary
          phase := .available }
        lastCheckAt := some at' }
    | .ok none =>
      some {
        view := { view with
          available := none
          banner := none
          phase := .idle
          status := "Goble ".toList ++ view.currentVersion ++ " is the newest ".toList ++
            view.channel ++ " build".toList }
        lastCheckAt := some at' }
    | .error reason => some (fail { view, lastCheckAt := some at' } reason)
  else none

def beginDownload (humanBytes : Nat → List Char) : Option UpdateViewModel :=
  match model.view.available with
  | none => none
  | some available =>
    if model.phase.allowsInstall then
      some { model with
        view := { model.view with
          phase := .downloading
          error := none
          status := "Downloading ".toList ++ available.detail humanBytes ++ "…".toList } }
    else none

def downloadFinished (version : List Char) : Option UpdateViewModel :=
  if model.phase = .downloading then
    some { model with
      view := { model.view with
        phase := .ready
        readyVersion := some version
        status := "Goble ".toList ++ version ++ " is installed; restart to use it".toList } }
  else none

/-- Whether a check is due: the first one of the session, or one that is long enough after the
last. -/
def checkDue (now : DateTime) : Bool :=
  match model.lastCheckAt with
  | none => true
  | some last => checkInterval ≤ numSeconds last now

end UpdateViewModel

/-- A check error in the words the page shows. -/
def checkError : UpdateError → List Char
  | .transport url _ => "could not reach ".toList ++ url
  | .status url code => url ++ " answered HTTP ".toList ++ Nat.toDigits 10 code
  | .manifest inner => "the release manifest is unusable: ".toList ++ inner.message
  | .uncomparableVersion version =>
    "this build's version (`".toList ++ version ++
      "`) cannot be compared with the release".toList
  | other => other.message

/-- A download error in the words the page shows. -/
def downloadError : UpdateError → List Char
  | .digestMismatch .. =>
    "the download did not match the signed digest, so it was discarded".toList
  | .sizeMismatch .. =>
    ("the download was not the size the signed manifest declares, so it was " ++
      "discarded").toList
  | .untrusted => "the release is not signed with the key this build trusts".toList
  | .tooLarge _ limit =>
    "the download is larger than the ".toList ++ Nat.toDigits 10 limit ++
      " bytes this build accepts".toList
  | other => other.message

def planError (message : List Char) : List Char :=
  "the update could not be installed: ".toList ++ message

/-! ### The service -/

inductive InstallOutcome where
  /-- The update is in place or in progress. -/
  | applied (restartRequired : Bool)
  | needsUser (command hint : List Char)
deriving DecidableEq, Repr

/-- What the threads share: the view and the offer behind one lock, and the two flags. -/
structure UpdateService (V : Type) where
  model : UpdateViewModel
  /-- The offer as the client described it. -/
  offer : Option (AvailableUpdate V)
  checking : Bool
  installing : Bool

inductive Caller where
  | checkNow
  | checkOnce
deriving DecidableEq, Repr

inductive ServiceThread (V : Type) where
  /-- In `mark_checking`, before the lock. -/
  | mark (caller : Caller)
  /-- The check was begun; the flag is still to be set. -/
  | marked (caller : Caller)
  /-- In `check_now`, before its thread is started. -/
  | spawnCheck
  | checkOnce
  | fetch
  /-- In `check_once`, before the offer is kept. -/
  | keep (update : AvailableUpdate V)
  | report (result : Except (List Char) (Option AvailableSummary))
  | clearChecking (at' : DateTime)
  | recordCheck (at' : DateTime)
  | installAvailable
  | beginDownload
  | refused
  /-- The view has an offer and the service has none. -/
  | noOffer
  | spawnInstall (update : AvailableUpdate V)
  | notStarted
  | runInstall (update : AvailableUpdate V)
  | download (update : AvailableUpdate V)
  | plan (update : AvailableUpdate V)
  | apply (update : AvailableUpdate V)
  /-- In `finish_with_error`, called from `run_install`. -/
  | finishWithError (reason : List Char)
  | finished (version : List Char) (restartRequired : Bool)
  | clearInstalling
  | exit

inductive ServiceCall where
  | checkNow
  | installAvailable
  | tick (now : DateTime)

inductive ServiceAnswer (V : Type) where
  | none
  | spawned (started : Bool)
  | checked (outcome : Except UpdateError (CheckOutcome V))
  | time (now : DateTime)
  | downloaded (digest : Except UpdateError (List Char))
  | planned (plan : Except (List Char) Unit)
  | applied (outcome : Except (List Char) InstallOutcome)

namespace UpdateService

variable {V : Type} (config : ServiceConfig V) (service : UpdateService V)

/-- Built from the environment: a session begins. -/
def new (installedEpoch : Nat) (state : UpdateState) (lastCheck : Option DateTime)
    (now : DateTime) : UpdateService V where
  model :=
    (UpdateViewModel.new config.runningVersion config.channel.asStr installedEpoch).adoptState
      state lastCheck now
  offer := none
  checking := false
  installing := false

def checkResult : Except UpdateError (CheckOutcome V) → ServiceThread V
  | .ok (.available update) =>
    if !update.verified && !config.allowUnsigned then
      .report (.error ("the release is not signed with the key this build trusts, " ++
        "so it was not offered").toList)
    else .keep update
  | .ok (.upToDate ..) => .report (.ok none)
  | .ok (.unsupported reason) => .report (.error reason)
  | .error error => .report (.error (checkError error))

def staged (update : AvailableUpdate V) : Except UpdateError (List Char) → ServiceThread V
  | .error error => .finishWithError (downloadError error)
  | .ok digest =>
    let expected := Text.toAsciiLowercase update.artifact.sha256
    if digest ≠ expected then
      .finishWithError ("the downloaded file does not match the signature (".toList ++ expected ++
        " expected, ".toList ++ digest ++ " found)".toList)
    else .plan update

def planned (update : AvailableUpdate V) : Except (List Char) Unit → ServiceThread V
  | .ok () => .apply update
  | .error message => .finishWithError (planError message)

def applied (update : AvailableUpdate V) : Except (List Char) InstallOutcome → ServiceThread V
  | .ok (.applied restartRequired) =>
    .finished (config.semver.toString update.version) restartRequired
  | .ok (.needsUser command hint) => .finishWithError (hint ++ " Run: ".toList ++ command)
  | .error message => .finishWithError (planError message)

def enter : ServiceCall → Option (ServiceThread V)
  | .checkNow => some (.mark .checkNow)
  | .installAvailable => some .installAvailable
  | .tick now => if service.model.checkDue now then some .checkOnce else none

def next : ServiceThread V → ServiceAnswer V → Option (UpdateService V × Option (ServiceThread V))
  | .mark caller, .none =>
    match service.model.beginCheck with
    | none => some (service, none)
    | some model => some ({ service with model }, some (.marked caller))
  | .marked caller, .none =>
    some ({ service with checking := true },
      match caller with
      | .checkNow => some .spawnCheck
      | .checkOnce => some .fetch)
  -- the caller of `check_now` is done, and the new thread begins
  | .spawnCheck, .spawned started => some (service, if started then some .checkOnce else none)
  | .checkOnce, .none =>
    some (service, if service.installing then none else some (.mark .checkOnce))
  | .fetch, .checked outcome => some (service, some (checkResult config outcome))
  | .keep update, .none =>
    some ({ service with offer := some update },
      some (.report (.ok (some (.fromUpdate config.semver update)))))
  | .report result, .time now =>
    some ({ service with
      model := (service.model.checkFinished config.humanBytes now result).getD service.model },
      some (.clearChecking now))
  | .clearChecking now, .none => some ({ service with checking := false }, some (.recordCheck now))
  -- the state file is written, or a warning
  | .recordCheck _, .none => some (service, none)
  | .installAvailable, .none =>
    some ({ service with installing := true },
      if service.installing then none else some .beginDownload)
  | .beginDownload, .none =>
    match service.model.beginDownload config.humanBytes with
    | none => some (service, some .refused)
    | some model =>
      some ({ service with model },
        match service.offer with
        | none => some .noOffer
        | some update => some (.spawnInstall update))
  | .refused, .none => some ({ service with installing := false }, none)
  | .noOffer, .none =>
    some ({ service with model := service.model.fail "there is no update to install".toList }, none)
  | .spawnInstall update, .spawned started =>
    some (service, some (if started then .runInstall update else .notStarted))
  | .notStarted, .none => some ({ service with installing := false }, none)
  | .runInstall update, .none =>
    some (service, some (
      if !update.verified && !config.allowUnsigned then
        .finishWithError ("the release is not signed with the key this build trusts, " ++
          "so it was not installed").toList
      else .download update))
  | .download update, .downloaded digest => some (service, some (staged update digest))
  | .plan update, .planned plan => some (service, some (planned update plan))
  | .apply update, .applied outcome => some (service, some (applied config update outcome))
  | .finishWithError reason, .none =>
    some ({ service with model := service.model.fail reason }, some .clearInstalling)
  | .finished version restartRequired, .none =>
    some ({ service with
      model := (service.model.downloadFinished version).getD service.model },
      some (if restartRequired then .exit else .clearInstalling))
  | .clearInstalling, .none => some ({ service with installing := false }, none)
  -- nothing comes back from `exit`
  | _, _ => none

end UpdateService

def updateService {V : Type} (config : ServiceConfig V) (installedEpoch : Nat)
    (state : UpdateState) (lastCheck : Option DateTime) (now : DateTime) :
    Threads (UpdateService V) (ServiceThread V) ServiceCall (ServiceAnswer V) where
  init := .new config installedEpoch state lastCheck now
  enter := UpdateService.enter
  next := UpdateService.next config

end Goble.Update
