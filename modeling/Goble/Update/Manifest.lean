import Mathlib.Data.Char
import Mathlib.Data.List.Destutter
import Goble.Lib.Checks
import Goble.Lib.Text

/-!
# The update manifest

What a release publishes for a channel, the text a signature covers (`signing_payload`), and the
decision a client makes about it (`decide_update`). A text is the list of its characters. The
`semver` crate is a parameter.
-/

namespace Goble.Update

/-- Versions: what the manifest and the client ask of the `semver` crate. -/
structure Semver (V : Type) where
  parse : List Char → Option V
  toString : V → List Char
  lt : V → V → Bool

/-- A text that parses is made of letters, digits and `.`, `-` and `+`. -/
structure Semver.Lawful {V : Type} (semver : Semver V) : Prop where
  ne_nil : ∀ text version, semver.parse text = some version → text ≠ []
  chars : ∀ text version, semver.parse text = some version →
    ∀ c ∈ text, (c.isAlphanum || c = '.' || c = '-' || c = '+') = true

def eqIgnoreAsciiCase (a b : List Char) : Bool := Text.toAsciiLowercase a = Text.toAsciiLowercase b

/-- An artifact that runs on every architecture of its platform. -/
def universal : List Char := "universal".toList

/-- The first line of the bytes a signature covers. -/
def signingDomain : List Char := "goble-update-v2".toList

inductive Channel where
  | stable
  | beta
  | dev
deriving DecidableEq, Repr

def Channel.asStr : Channel → List Char
  | stable => "stable".toList
  | beta => "beta".toList
  | dev => "dev".toList

structure Artifact where
  os : List Char
  arch : List Char
  url : List Char
  sha256 : List Char
  size : Nat
deriving DecidableEq, Repr

namespace Artifact

/-- Whether this artifact is offered for a platform. -/
def «matches» (artifact : Artifact) (os arch : List Char) : Bool :=
  eqIgnoreAsciiCase artifact.os os &&
    (eqIgnoreAsciiCase artifact.arch arch || eqIgnoreAsciiCase artifact.arch universal)

def isUniversal (artifact : Artifact) : Bool := eqIgnoreAsciiCase artifact.arch universal

def line (artifact : Artifact) : List Char :=
  Text.toAsciiLowercase artifact.os ++ ' ' ::
    (Text.toAsciiLowercase artifact.arch ++ ' ' ::
      (Text.toAsciiLowercase artifact.sha256 ++ ' ' ::
        (Nat.toDigits 10 artifact.size ++ ' ' :: artifact.url)))

end Artifact

structure ChannelRelease where
  version : List Char
  epoch : Nat
  yanked : List (List Char)
  releasedAt : Option Int
  notesUrl : Option (List Char)
  artifacts : List Artifact
deriving DecidableEq, Repr

/-- A manifest in a shape that cannot be used. -/
inductive ManifestError where
  | json (reason : List Char)
  | unsupportedSchema (found supported : Nat)
  | noRelease (channel : List Char)
  | badVersion (version : List Char)
  | badYankedVersion (version : List Char)
  | noArtifacts
  | badDigest (url digest : List Char)
  | emptyArtifact (url : List Char)
  | insecureUrl (url : List Char)
  | missingSignature
  | badPublicKey (reason : List Char)
  | badSignature (reason : List Char)
deriving DecidableEq, Repr

def ManifestError.message : ManifestError → List Char
  | json reason => "the manifest is not valid JSON: ".toList ++ reason
  | unsupportedSchema found supported =>
    "manifest schema ".toList ++ Nat.toDigits 10 found ++
      " is not supported (this build speaks ".toList ++ Nat.toDigits 10 supported ++ ")".toList
  | noRelease channel => "the manifest has no `".toList ++ channel ++ "` channel".toList
  | badVersion version =>
    "release version `".toList ++ version ++ "` is not a semver version".toList
  | badYankedVersion version =>
    "yanked version `".toList ++ version ++ "` is not a semver version".toList
  | noArtifacts => "a release with no artifacts cannot be installed".toList
  | badDigest url digest =>
    url ++ " has a digest that is not 64 hex characters: ".toList ++ digest
  | emptyArtifact url => url ++ " declares no size".toList
  | insecureUrl url => url ++ " is not https".toList
  | missingSignature => "the release is not signed".toList
  | badPublicKey reason => "the public key is unusable: ".toList ++ reason
  | badSignature reason => "the signature is unusable: ".toList ++ reason

/-- The one form of a version that the yanked list is compared in. -/
def normalizeVersion (text : List Char) : List Char :=
  (Text.toAsciiLowercase (Text.trim text)).dropWhile (· = 'v')

/-- Downloads must be https, except from the loopback interface. -/
def isAcceptableUrl (url : List Char) : Bool :=
  if "https://".toList.isPrefixOf url then true
  else if "http://".toList.isPrefixOf url then
    let rest := url.drop "http://".length
    let host := rest.takeWhile fun c => !"/?#".toList.contains c
    let host := (host.reverse.takeWhile (· ≠ '@')).reverse
    let host := Text.trimMatches (fun c => c = '[' || c = ']') (host.takeWhile (· ≠ ':'))
    ["127.0.0.1".toList, "localhost".toList, "::1".toList, "0.0.0.0".toList].contains host
  else false

def isAsciiHexdigit (c : Char) : Bool :=
  c.isDigit || ('a' ≤ c && c ≤ 'f') || ('A' ≤ c && c ≤ 'F')

def Artifact.validate (artifact : Artifact) : Except ManifestError Unit :=
  if artifact.sha256.length ≠ 64 || !artifact.sha256.all isAsciiHexdigit then
    .error (.badDigest artifact.url artifact.sha256)
  else if artifact.size = 0 then .error (.emptyArtifact artifact.url)
  else if !isAcceptableUrl artifact.url then .error (.insecureUrl artifact.url)
  else .ok ()

namespace ChannelRelease

variable (release : ChannelRelease)

/-- The withdrawn versions, lower-cased, sorted and de-duplicated. -/
def normalizedYanked : List (List Char) :=
  ((release.yanked.map normalizeVersion).mergeSort fun a b => a ≤ b).destutter (· ≠ ·)

def isYanked (version : List Char) : Bool :=
  release.normalizedYanked.contains (normalizeVersion version)

def artifactLines : List (List Char) :=
  (release.artifacts.map Artifact.line).mergeSort fun a b => a ≤ b

def signingPayload : List Char :=
  ['\n'].intercalate ([
    signingDomain,
    release.version,
    "epoch=".toList ++ Nat.toDigits 10 release.epoch,
    "yanked=".toList ++ [','].intercalate release.normalizedYanked] ++ release.artifactLines)

/-- The artifact for a platform: an exact architecture match wins over a universal build. -/
def artifactFor (os arch : List Char) : Option Artifact :=
  let candidates := release.artifacts.filter fun artifact => artifact.matches os arch
  (candidates.find? fun artifact => !artifact.isUniversal).or candidates.head?

/-- Check everything that can be checked without a network. -/
def validate {V : Type} (semver : Semver V) : Except ManifestError Unit :=
  if (semver.parse release.version).isNone then .error (.badVersion release.version)
  else do
    release.yanked.forM fun version =>
      if (semver.parse (normalizeVersion version)).isNone then .error (.badYankedVersion version)
      else .ok ()
    if release.artifacts.isEmpty then .error .noArtifacts
    else release.artifacts.forM Artifact.validate

/-- What a release that passes holds. -/
structure Valid {V : Type} (semver : Semver V) : Prop where
  version : (semver.parse release.version).isSome
  yanked : ∀ version ∈ release.yanked, (semver.parse (normalizeVersion version)).isSome
  artifacts : release.artifacts ≠ []
  artifact : ∀ artifact ∈ release.artifacts, artifact.validate = .ok ()

end ChannelRelease

theorem Artifact.validate_eq_ok {artifact : Artifact} :
    artifact.validate = .ok () ↔
      (artifact.sha256.length = 64 ∧ artifact.sha256.all isAsciiHexdigit) ∧ artifact.size ≠ 0 ∧
        isAcceptableUrl artifact.url := by
  rw [Artifact.validate, ite_error_eq_ok, ite_error_eq_ok, ite_error_eq_ok]
  simp

theorem ChannelRelease.validate_eq_ok {V : Type} {semver : Semver V} {release : ChannelRelease} :
    release.validate semver = .ok () ↔ release.Valid semver := by
  rw [validate, ite_error_eq_ok, bind_eq_ok, ite_error_eq_ok, forM_eq_ok, forM_eq_ok]
  simp only [ite_error_eq_ok, Bool.not_eq_true, Option.isNone_eq_false_iff, and_true,
    List.isEmpty_eq_false_iff]
  constructor
  · rintro ⟨hversion, hyanked, hartifacts, hartifact⟩
    exact ⟨hversion, hyanked, hartifacts, hartifact⟩
  · rintro ⟨hversion, hyanked, hartifacts, hartifact⟩
    exact ⟨hversion, hyanked, hartifacts, hartifact⟩

/-! ### The decision -/

structure AvailableUpdate (V : Type) where
  channel : Channel
  version : V
  epoch : Nat
  rollback : Bool
  currentYanked : Bool
  artifact : Artifact
  notesUrl : Option (List Char)
  releasedAt : Option Int
  verified : Bool

inductive CheckOutcome (V : Type) where
  | upToDate (current latest : V)
  | available (update : AvailableUpdate V)
  | unsupported (reason : List Char)

inductive UpdateError where
  | transport (url reason : List Char)
  | status (url : List Char) (code : Nat)
  | manifest (error : ManifestError)
  | uncomparableVersion (version : List Char)
  | tooLarge (url : List Char) (limit : Nat)
  | digestMismatch (url expected actual : List Char)
  | sizeMismatch (url : List Char) (expected actual : Nat)
  | untrusted
  | io (path reason : List Char)
deriving DecidableEq, Repr

def UpdateError.message : UpdateError → List Char
  | transport url reason => "could not reach ".toList ++ url ++ ": ".toList ++ reason
  | status url code => url ++ " answered ".toList ++ Nat.toDigits 10 code
  | manifest error => "the release manifest is unusable: ".toList ++ error.message
  | uncomparableVersion version =>
    "the running version `".toList ++ version ++
      "` is not a semver version, so it cannot be compared".toList
  | tooLarge url limit =>
    url ++ " is larger than the ".toList ++ Nat.toDigits 10 limit ++
      " bytes this build will accept".toList
  | digestMismatch url expected actual =>
    url ++ " does not match its declared SHA-256 (expected ".toList ++ expected ++
      ", got ".toList ++ actual ++ ")".toList
  | sizeMismatch url expected actual =>
    url ++ " is ".toList ++ Nat.toDigits 10 actual ++ " bytes, but the manifest declares ".toList ++
      Nat.toDigits 10 expected
  | untrusted =>
    ("the release is not signed, and this build is not allowed to install unsigned " ++
      "releases").toList
  | io path reason => path ++ " could not be prepared: ".toList ++ reason

section Decide

variable {V : Type} [DecidableEq V] (semver : Semver V)

def parseVersion (text : List Char) : Except UpdateError V :=
  match semver.parse ((Text.trim text).dropWhile (· = 'v')) with
  | some version => .ok version
  | none => .error (.uncomparableVersion text)

/-- The decision `check` makes, separated from the fetch. -/
def decideUpdate (channel : Channel) (release : ChannelRelease) (current : V)
    (installedEpoch : Nat) (os arch : List Char) (verified : Bool) :
    Except UpdateError (CheckOutcome V) :=
  match parseVersion semver release.version with
  | .error error => .error error
  | .ok latest =>
    -- the version already installed is never offered
    if latest = current then .ok (.upToDate current latest)
    else
      -- a higher epoch outranks the version comparison
      let authoritative := installedEpoch < release.epoch
      let currentYanked := release.isYanked (semver.toString current)
      if !(authoritative || currentYanked || semver.lt current latest) then
        .ok (.upToDate current latest)
      else
        match release.artifactFor os arch with
        | none =>
          .ok (.unsupported ("release ".toList ++ release.version ++
            " has no artifact for ".toList ++ os ++ '/' :: arch))
        | some artifact =>
          .ok (.available {
            channel
            version := latest
            epoch := release.epoch
            rollback := semver.lt latest current
            currentYanked
            artifact
            notesUrl := release.notesUrl
            releasedAt := release.releasedAt
            verified })

end Decide

end Goble.Update
