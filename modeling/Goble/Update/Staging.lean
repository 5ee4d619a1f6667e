import Mathlib.Algebra.Ring.Nat
import Goble.Lib.Hex
import Goble.Update.Manifest

/-!
# Staging a download

`UpdateClient::download` writes the chunks of a response to a `.part` file while it hashes them, and
moves the file into place when the size and the digest are those of the artifact. Every operation
on files may fail (`StagingIo`), and so may the connection at any chunk (`Response`).

A file that is refused, because it is too large or not what the manifest promised, is removed by
hand. The other exits return at once: a connection that breaks and a write, a rename or a change of
mode that fails leave the file behind (`LeavesFile`, `keepsVerified_iff`).
-/

namespace Goble.Update

open Text (toAsciiLowercase)

/-- A name without its extension: the text before the last dot, if that is not its first
character. -/
def withoutExtension (name : List Char) : List Char :=
  match name.reverse.dropWhile (· ≠ '.') with
  | [] | [_] => name
  | _ :: stem => stem.reverse

def artifactName : List Char := "artifact".toList

def fileNameOf (url : List Char) : List Char :=
  let path := url.takeWhile fun c => c ≠ '?' && c ≠ '#'
  let last := (path.reverse.takeWhile (· ≠ '/')).reverse
  let cleaned := last.filter fun c => c.isAlphanum || "._-+".toList.contains c
  if cleaned.isEmpty || cleaned.all (· = '.') then artifactName else cleaned

structure StagedFile where
  bytes : List UInt8
  /-- It is written by this download. -/
  fresh : Bool
deriving DecidableEq, Repr

abbrev Staging := List Char → Option StagedFile

/-- What the operations on files answer: the reason of an error, if there is one. -/
structure StagingIo where
  dir : Option (List Char)
  /-- The directory again, by the writer. -/
  dirAgain : Option (List Char)
  create : Option (List Char)
  /-- `write_all` of a chunk, by its number. An error comes after some bytes of it. -/
  write : Nat → Option (List Char × Nat)
  /-- Whether a file that is refused can be removed. -/
  removed : Bool
  rename : Option (List Char)
  executable : Option (List Char)

structure Response where
  /-- The status, or why there is none. -/
  sent : Except (List Char) Nat
  chunks : List (List UInt8)
  /-- The error that the chunks end with, `none` at the end of the body. -/
  broken : Option (List Char)

structure StagedArtifact where
  dir : List Char
  name : List Char
  artifact : Artifact
  digest : List Char

structure StagingWriter where
  dir : List Char
  part : List Char
  /-- What the hasher has been given. -/
  hashed : List UInt8
  written : Nat
  limit : Nat
  artifact : Artifact

def hexText (bytes : List UInt8) : List Char :=
  (Hex.encode bytes).map fun digit => Char.ofNat digit.toNat

def ioError (dir name reason : List Char) : UpdateError := .io (dir ++ '/' :: name) reason

namespace StagingWriter

def create (io : StagingIo) (dir : List Char) (artifact : Artifact) (limit : Nat)
    (files : Staging) : Staging × Except UpdateError StagingWriter :=
  match io.dirAgain with
  | some reason => (files, .error (.io dir reason))
  | none =>
    let part := fileNameOf artifact.url ++ ".part".toList
    match io.create with
    | some reason => (files, .error (ioError dir part reason))
    | none =>
      (Function.update files part (some ⟨[], true⟩), .ok ⟨dir, part, [], 0, limit, artifact⟩)

variable (io : StagingIo) (writer : StagingWriter)

/-- `let _ = std::fs::remove_file(&self.part);` -/
def removePart (files : Staging) : Staging :=
  if io.removed then Function.update files writer.part none else files

def append (files : Staging) (bytes : List UInt8) : Staging :=
  Function.update files writer.part
    ((files writer.part).map fun file => { file with bytes := file.bytes ++ bytes })

def write (index : Nat) (chunk : List UInt8) (files : Staging) :
    Staging × Except UpdateError StagingWriter :=
  let written := (writer.written + chunk.length) % 2 ^ 64
  if written > writer.limit then
    (writer.removePart io files, .error (.tooLarge writer.artifact.url writer.limit))
  else
    match io.write index with
    | some (reason, partly) =>
      (writer.append files (chunk.take partly), .error (ioError writer.dir writer.part reason))
    | none =>
      (writer.append files chunk, .ok { writer with written, hashed := writer.hashed ++ chunk })

def writeAll (writer : StagingWriter) (index : Nat) :
    List (List UInt8) → Staging → Staging × Except UpdateError StagingWriter
  | [], files => (files, .ok writer)
  | chunk :: chunks, files =>
    match writer.write io index chunk files with
    | (files, .error error) => (files, .error error)
    | (files, .ok writer) => writer.writeAll (index + 1) chunks files

/-- Check what was written, then move it into place. -/
def finish (sha256 : List UInt8 → List UInt8) (files : Staging) :
    Staging × Except UpdateError StagedArtifact :=
  let digest := hexText (sha256 writer.hashed)
  if writer.written ≠ writer.artifact.size then
    (writer.removePart io files,
      .error (.sizeMismatch writer.artifact.url writer.artifact.size writer.written))
  else
    let expected := toAsciiLowercase writer.artifact.sha256
    if digest ≠ expected then
      (writer.removePart io files,
        .error (.digestMismatch writer.artifact.url expected digest))
    else
      let name := withoutExtension writer.part
      match io.rename with
      | some reason => (files, .error (ioError writer.dir name reason))
      | none =>
        let files := Function.update (Function.update files name (files writer.part))
          writer.part none
        match io.executable with
        | some reason => (files, .error (ioError writer.dir name reason))
        | none => (files, .ok ⟨writer.dir, name, writer.artifact, digest⟩)

end StagingWriter

def isSuccess (status : Nat) : Bool := 200 ≤ status && status < 300

/-- What the client and the offer bring to a download. -/
structure DownloadRequest where
  verified : Bool
  allowUnsigned : Bool
  dir : List Char
  artifact : Artifact
  maxArtifactBytes : Nat

/-- Download an update, verifying it before it is kept. `before` is what the directory holds. -/
def download (sha256 : List UInt8 → List UInt8) (request : DownloadRequest) (io : StagingIo)
    (response : Response) (before : List Char → Option (List UInt8)) :
    Staging × Except UpdateError StagedArtifact :=
  let files : Staging := fun name => (before name).map fun bytes => ⟨bytes, false⟩
  if !request.verified && !request.allowUnsigned then (files, .error .untrusted)
  else
    match io.dir, response.sent with
    | some reason, _ => (files, .error (.io request.dir reason))
    | none, .error reason => (files, .error (.transport request.artifact.url reason))
    | none, .ok status =>
      if !isSuccess status then (files, .error (.status request.artifact.url status))
      else
        match StagingWriter.create io request.dir request.artifact request.maxArtifactBytes
          files with
        | (files, .error error) => (files, .error error)
        | (files, .ok writer) =>
          match writer.writeAll io 0 response.chunks files with
          | (files, .error error) => (files, .error error)
          | (files, .ok writer) =>
            match response.broken with
            | some reason => (files, .error (.transport request.artifact.url reason))
            | none => writer.finish io sha256 files

/-! ### What is left in the directory -/

def Clean (files : Staging) : Prop := ∀ name file, files name = some file → file.fresh = false

/-- None is there but this one. -/
def CleanBut (part : List Char) (files : Staging) : Prop :=
  ∀ name file, name ≠ part → files name = some file → file.fresh = false

def Artifact.IsOf (sha256 : List UInt8 → List UInt8) (artifact : Artifact) (bytes : List UInt8) :
    Prop :=
  bytes.length = artifact.size ∧ hexText (sha256 bytes) = toAsciiLowercase artifact.sha256

def KeepsVerified (sha256 : List UInt8 → List UInt8) (artifact : Artifact)
    (chunks : List (List UInt8)) : Staging × Except UpdateError StagedArtifact → Prop
  | (files, .ok staged) =>
    (files staged.name).map StagedFile.bytes = some chunks.flatten ∧
      artifact.IsOf sha256 chunks.flatten
  | (files, .error _) => Clean files

/-- The download gets as far as creating its file. -/
def Begins (request : DownloadRequest) (io : StagingIo) (response : Response) : Prop :=
  (request.verified = true ∨ request.allowUnsigned = true) ∧ io.dir = none ∧
    (∃ status, response.sent = .ok status ∧ isSuccess status = true) ∧ io.dirAgain = none ∧
    io.create = none

def WriteFails (io : StagingIo) (limit : Nat) (hashed : List UInt8) (index : Nat)
    (chunks : List (List UInt8)) : Prop :=
  ∃ k < chunks.length, (hashed ++ (chunks.take (k + 1)).flatten).length ≤ limit ∧
    (io.write (index + k)).isSome = true

/-- The ways in which a file stays behind. -/
inductive LeavesFile (sha256 : List UInt8 → List UInt8) (request : DownloadRequest)
    (io : StagingIo) (response : Response) : Prop
  | write (h : WriteFails io request.maxArtifactBytes [] 0 response.chunks)
  | transport (hfits : response.chunks.flatten.length ≤ request.maxArtifactBytes)
    (h : response.broken.isSome = true)
  | rename (hfits : response.chunks.flatten.length ≤ request.maxArtifactBytes)
    (hbytes : request.artifact.IsOf sha256 response.chunks.flatten)
    (h : io.rename.isSome = true)
  | executable (hfits : response.chunks.flatten.length ≤ request.maxArtifactBytes)
    (hbytes : request.artifact.IsOf sha256 response.chunks.flatten)
    (h : io.executable.isSome = true)
  | remove (hrefused : request.maxArtifactBytes < response.chunks.flatten.length ∨
      ¬ request.artifact.IsOf sha256 response.chunks.flatten) (h : io.removed = false)

theorem not_clean {files : Staging} {name : List Char} {bytes : List UInt8}
    (h : files name = some ⟨bytes, true⟩) : ¬ Clean files := fun hclean => by
  cases hclean name _ h

theorem CleanBut.update {part : List Char} {files : Staging} (h : CleanBut part files)
    (file : Option StagedFile) : CleanBut part (Function.update files part file) := by
  intro name other hname hother
  rw [Function.update_of_ne hname] at hother
  exact h name other hname hother

theorem CleanBut.clean {part : List Char} {files : Staging} (h : CleanBut part files) :
    Clean (Function.update files part none) := by
  intro name file hfile
  by_cases hname : name = part
  · subst hname
    rw [Function.update_self] at hfile
    cases hfile
  · exact h.update none name file hname hfile

theorem fileNameOf_ne_nil (url : List Char) : fileNameOf url ≠ [] := by
  unfold fileNameOf
  intro h
  dsimp only at h
  split at h
  · cases h
  · next hcleaned =>
    rw [h] at hcleaned
    exact hcleaned rfl

theorem withoutExtension_part {name : List Char} (h : name ≠ []) :
    withoutExtension (name ++ ".part".toList) = name := by
  have hreverse : (name ++ ".part".toList).reverse = "trap".toList ++ '.' :: name.reverse := by
    rw [List.reverse_append]
    rfl
  have hdrop : ("trap".toList ++ '.' :: name.reverse).dropWhile (fun c => decide (c ≠ '.')) =
      '.' :: name.reverse := rfl
  rw [withoutExtension, hreverse, hdrop]
  cases hname : name.reverse with
  | nil => exact absurd (List.reverse_eq_nil_iff.mp hname) h
  | cons c stem =>
    show (c :: stem).reverse = name
    rw [← hname, List.reverse_reverse]

theorem withoutExtension_part_ne (url : List Char) :
    withoutExtension (fileNameOf url ++ ".part".toList) ≠ fileNameOf url ++ ".part".toList := by
  rw [withoutExtension_part (fileNameOf_ne_nil url)]
  intro h
  have hlength := congrArg List.length h
  rw [List.length_append] at hlength
  have hpart : ".part".toList.length = 5 := rfl
  omega

/-! ### The loop -/

theorem writeFails_nil {io : StagingIo} {limit index : Nat} {hashed : List UInt8} :
    ¬ WriteFails io limit hashed index [] := by
  rintro ⟨k, hk, -⟩
  cases hk

theorem writeFails_cons {io : StagingIo} {limit index : Nat} {hashed chunk : List UInt8}
    {chunks : List (List UInt8)} :
    WriteFails io limit hashed index (chunk :: chunks) ↔
      (hashed ++ chunk).length ≤ limit ∧ (io.write index).isSome = true ∨
        WriteFails io limit (hashed ++ chunk) (index + 1) chunks := by
  have hfirst : (hashed ++ ((chunk :: chunks).take 1).flatten).length = (hashed ++ chunk).length := by
    rw [List.take_succ_cons, List.take_zero, List.flatten_singleton]
  have hnext : ∀ k, hashed ++ ((chunk :: chunks).take (k + 1 + 1)).flatten =
      hashed ++ chunk ++ (chunks.take (k + 1)).flatten := fun k => by
    rw [List.take_succ_cons, List.flatten_cons, List.append_assoc]
  constructor
  · rintro ⟨k, hk, hfits, herror⟩
    cases k with
    | zero => exact .inl ⟨hfirst ▸ hfits, herror⟩
    | succ k =>
      rw [hnext] at hfits
      rw [show index + (k + 1) = index + 1 + k by omega] at herror
      exact .inr ⟨k, Nat.lt_of_succ_lt_succ hk, hfits, herror⟩
  · rintro (⟨hfits, herror⟩ | ⟨k, hk, hfits, herror⟩)
    · exact ⟨0, Nat.succ_pos _, hfirst ▸ hfits, herror⟩
    · refine ⟨k + 1, Nat.succ_lt_succ hk, ?_, ?_⟩
      · rw [hnext]
        exact hfits
      · rw [show index + (k + 1) = index + 1 + k by omega]
        exact herror

theorem not_writeFails_of_lt {io : StagingIo} {limit index : Nat} {hashed : List UInt8}
    {chunks : List (List UInt8)} (h : limit < hashed.length) :
    ¬ WriteFails io limit hashed index chunks := by
  rintro ⟨k, -, hfits, -⟩
  rw [List.length_append] at hfits
  omega

namespace StagingWriter

variable {io : StagingIo} {writer : StagingWriter} {files : Staging}

structure Open (writer : StagingWriter) (files : Staging) : Prop where
  part : files writer.part = some ⟨writer.hashed, true⟩
  others : CleanBut writer.part files
  written : writer.written = writer.hashed.length

theorem Open.append (h : writer.Open files) (bytes : List UInt8) :
    writer.append files bytes writer.part = some ⟨writer.hashed ++ bytes, true⟩ := by
  rw [StagingWriter.append, Function.update_self, h.part]
  rfl

theorem Open.clean_removePart (h : writer.Open files) :
    Clean (writer.removePart io files) ↔ io.removed = true := by
  rw [removePart]
  cases io.removed with
  | true => exact iff_of_true h.others.clean rfl
  | false => exact iff_of_false (not_clean h.part) nofun

theorem Open.writeAll_spec (h : writer.Open files) (io : StagingIo) (index : Nat)
    (chunks : List (List UInt8)) (hlimit : writer.written ≤ writer.limit)
    (hbytes : (writer.hashed ++ chunks.flatten).length < 2 ^ 64) :
    match writer.writeAll io index chunks files with
    | (files', .error _) =>
      WriteFails io writer.limit writer.hashed index chunks ∧ ¬ Clean files' ∨
        ¬ WriteFails io writer.limit writer.hashed index chunks ∧
          writer.limit < (writer.hashed ++ chunks.flatten).length ∧
          (Clean files' ↔ io.removed = true)
    | (files', .ok writer') =>
      ¬ WriteFails io writer.limit writer.hashed index chunks ∧
        (writer.hashed ++ chunks.flatten).length ≤ writer.limit ∧
        writer' = { writer with
          hashed := writer.hashed ++ chunks.flatten
          written := (writer.hashed ++ chunks.flatten).length } ∧
        writer'.Open files' := by
  induction chunks generalizing writer index files with
  | nil =>
    rw [writeAll, List.flatten_nil, List.append_nil]
    refine ⟨writeFails_nil, h.written ▸ hlimit, ?_, h⟩
    rw [← h.written]
  | cons chunk chunks ih =>
    rw [List.flatten_cons, ← List.append_assoc] at hbytes ⊢
    have hlength : (writer.hashed ++ chunk).length < 2 ^ 64 := by
      rw [List.length_append] at hbytes
      exact Nat.lt_of_le_of_lt (Nat.le_add_right _ _) hbytes
    have hwritten : (writer.written + chunk.length) % 2 ^ 64 = (writer.hashed ++ chunk).length := by
      rw [h.written, ← List.length_append, Nat.mod_eq_of_lt hlength]
    rw [writeAll, write, hwritten, writeFails_cons]
    by_cases hpast : writer.limit < (writer.hashed ++ chunk).length
    · -- the file is refused here
      rw [if_pos hpast]
      refine .inr ⟨?_, ?_, h.clean_removePart⟩
      · rintro (⟨hfits, -⟩ | hlater)
        · exact absurd hpast (Nat.not_lt.mpr hfits)
        · exact not_writeFails_of_lt hpast hlater
      · rw [List.length_append]
        exact Nat.lt_of_lt_of_le hpast (Nat.le_add_right _ _)
    · rw [if_neg hpast]
      cases hwrite : io.write index with
      | some failed =>
        exact .inl ⟨.inl ⟨Nat.not_lt.mp hpast, rfl⟩, not_clean (h.append _)⟩
      | none =>
        have hopen : Open { writer with
            written := (writer.hashed ++ chunk).length, hashed := writer.hashed ++ chunk }
            (writer.append files chunk) :=
          ⟨h.append chunk, h.others.update _, rfl⟩
        have hrest := ih hopen (index + 1) (Nat.not_lt.mp hpast) hbytes
        simpa only [Option.isSome_none, Bool.false_eq_true, and_false, false_or] using hrest

theorem Open.finish_spec (h : writer.Open files) (io : StagingIo) (sha256 : List UInt8 → List UInt8)
    (hname : withoutExtension writer.part ≠ writer.part) :
    match writer.finish io sha256 files with
    | (files', .error _) =>
      writer.artifact.IsOf sha256 writer.hashed ∧
          (io.rename.isSome = true ∨ io.executable.isSome = true) ∧ ¬ Clean files' ∨
        ¬ writer.artifact.IsOf sha256 writer.hashed ∧ (Clean files' ↔ io.removed = true)
    | (files', .ok staged) =>
      writer.artifact.IsOf sha256 writer.hashed ∧ io.rename = none ∧ io.executable = none ∧
        (files' staged.name).map StagedFile.bytes = some writer.hashed := by
  rw [finish, h.written]
  by_cases hsize : writer.hashed.length = writer.artifact.size
  · by_cases hdigest : hexText (sha256 writer.hashed) = toAsciiLowercase writer.artifact.sha256
    · rw [if_neg (not_not_intro hsize), if_neg (not_not_intro hdigest)]
      have hmoved : Function.update (Function.update files (withoutExtension writer.part)
          (files writer.part)) writer.part none (withoutExtension writer.part) =
            some ⟨writer.hashed, true⟩ := by
        rw [Function.update_of_ne hname, Function.update_self, h.part]
      cases hrename : io.rename with
      | some reason => exact .inl ⟨⟨hsize, hdigest⟩, .inl rfl, not_clean h.part⟩
      | none =>
        cases hexecutable : io.executable with
        | some reason => exact .inl ⟨⟨hsize, hdigest⟩, .inr rfl, not_clean hmoved⟩
        | none => exact ⟨⟨hsize, hdigest⟩, rfl, rfl, congrArg (Option.map StagedFile.bytes) hmoved⟩
    · rw [if_neg (not_not_intro hsize), if_pos hdigest]
      exact .inr ⟨fun hof => hdigest hof.2, h.clean_removePart⟩
  · rw [if_pos hsize]
    exact .inr ⟨fun hof => hsize hof.1, h.clean_removePart⟩

end StagingWriter

/-! ### The whole download -/

/-- A directory as it was before has nothing of the download in it. -/
theorem clean_before (before : List Char → Option (List UInt8)) :
    Clean fun name => (before name).map fun bytes => ⟨bytes, false⟩ := by
  intro name file hfile
  obtain ⟨bytes, -, rfl⟩ := Option.map_eq_some_iff.mp hfile
  rfl

section Download

variable {sha256 : List UInt8 → List UInt8} {request : DownloadRequest} {io : StagingIo}
  {response : Response} {before : List Char → Option (List UInt8)}

theorem download_of_not_begins (sha256 : List UInt8 → List UInt8)
    (before : List Char → Option (List UInt8)) (h : ¬ Begins request io response) :
    ∃ error, download sha256 request io response before =
      (fun name => (before name).map fun bytes => ⟨bytes, false⟩, .error error) := by
  rw [Begins] at h
  rw [download]
  by_cases htrusted : request.verified = true ∨ request.allowUnsigned = true
  · rw [if_neg (by simpa [or_iff_not_imp_left] using htrusted)]
    cases hdir : io.dir with
    | some reason => exact ⟨_, rfl⟩
    | none =>
      cases hsent : response.sent with
      | error reason => exact ⟨_, rfl⟩
      | ok status =>
        dsimp only
        by_cases hstatus : isSuccess status = true
        · rw [if_neg (by rw [hstatus]; decide), StagingWriter.create]
          cases hagain : io.dirAgain with
          | some reason => exact ⟨_, rfl⟩
          | none =>
            cases hcreate : io.create with
            | some reason => exact ⟨_, rfl⟩
            | none => exact absurd ⟨htrusted, hdir, ⟨status, hsent, hstatus⟩, hagain, hcreate⟩ h
        · rw [if_pos (by rw [Bool.eq_false_iff.mpr hstatus]; rfl)]
          exact ⟨_, rfl⟩
  · rw [if_pos (by simpa [or_iff_not_imp_left] using htrusted)]
    exact ⟨_, rfl⟩

def firstWriter (request : DownloadRequest) : StagingWriter where
  dir := request.dir
  part := fileNameOf request.artifact.url ++ ".part".toList
  hashed := []
  written := 0
  limit := request.maxArtifactBytes
  artifact := request.artifact

/-- The directory with the part file just created. -/
def firstFiles (request : DownloadRequest) (before : List Char → Option (List UInt8)) : Staging :=
  Function.update (fun name => (before name).map fun bytes => ⟨bytes, false⟩)
    (firstWriter request).part (some ⟨[], true⟩)

theorem firstWriter_open (request : DownloadRequest) (before : List Char → Option (List UInt8)) :
    (firstWriter request).Open (firstFiles request before) where
  part := Function.update_self _ _ _
  others := by
    intro name file hname hfile
    rw [firstFiles, Function.update_of_ne hname] at hfile
    exact clean_before before name file hfile
  written := rfl

theorem download_of_begins (h : Begins request io response) :
    download sha256 request io response before =
      match (firstWriter request).writeAll io 0 response.chunks (firstFiles request before) with
      | (files, .error error) => (files, .error error)
      | (files, .ok writer) =>
        match response.broken with
        | some reason => (files, .error (.transport request.artifact.url reason))
        | none => writer.finish io sha256 files := by
  obtain ⟨htrusted, hdir, ⟨status, hsent, hstatus⟩, hagain, hcreate⟩ := h
  rw [download, if_neg (by simpa [or_iff_not_imp_left] using htrusted), hdir, hsent]
  dsimp only
  rw [if_neg (by rw [hstatus]; decide), StagingWriter.create, hagain, hcreate]
  rfl

theorem leavesFile_of_lt
    (hwrites : ¬ WriteFails io request.maxArtifactBytes [] 0 response.chunks)
    (hpast : request.maxArtifactBytes < response.chunks.flatten.length) :
    LeavesFile sha256 request io response ↔ io.removed = false := by
  constructor
  · intro hleaves
    cases hleaves with
    | write h => exact absurd h hwrites
    | transport hfits => exact absurd hpast (Nat.not_lt.mpr hfits)
    | rename hfits => exact absurd hpast (Nat.not_lt.mpr hfits)
    | executable hfits => exact absurd hpast (Nat.not_lt.mpr hfits)
    | remove _ h => exact h
  · exact .remove (.inl hpast)

/-- Within it, with the whole body written, the bytes decide. -/
theorem leavesFile_of_le
    (hwrites : ¬ WriteFails io request.maxArtifactBytes [] 0 response.chunks)
    (hfits : response.chunks.flatten.length ≤ request.maxArtifactBytes)
    (hbroken : response.broken = none) :
    LeavesFile sha256 request io response ↔
      request.artifact.IsOf sha256 response.chunks.flatten ∧
          (io.rename.isSome = true ∨ io.executable.isSome = true) ∨
        ¬ request.artifact.IsOf sha256 response.chunks.flatten ∧ io.removed = false := by
  constructor
  · intro hleaves
    cases hleaves with
    | write h => exact absurd h hwrites
    | transport _ h =>
      rw [hbroken] at h
      cases h
    | rename _ hof h => exact .inl ⟨hof, .inl h⟩
    | executable _ hof h => exact .inl ⟨hof, .inr h⟩
    | remove hrefused h =>
      exact .inr ⟨hrefused.resolve_left (Nat.not_lt.mpr hfits), h⟩
  · rintro (⟨hof, h | h⟩ | ⟨hnot, h⟩)
    · exact .rename hfits hof h
    · exact .executable hfits hof h
    · exact .remove (.inr hnot) h

/-- **When only verified bytes are kept.** A download keeps what the artifact promises and nothing
else if and only if it does not come to create its file, or no write, rename or change of mode that
it comes to fails, the connection does not break before the limit is passed, and a file that is
refused can be removed. -/
theorem keepsVerified_iff (sha256 : List UInt8 → List UInt8) (request : DownloadRequest)
    (io : StagingIo) (response : Response) (before : List Char → Option (List UInt8))
    (hbytes : response.chunks.flatten.length < 2 ^ 64) :
    KeepsVerified sha256 request.artifact response.chunks
        (download sha256 request io response before) ↔
      (Begins request io response → ¬ LeavesFile sha256 request io response) := by
  by_cases hbegins : Begins request io response
  · rw [imp_iff_right hbegins, download_of_begins hbegins]
    have hloop := (firstWriter_open request before).writeAll_spec io 0 response.chunks
      (Nat.zero_le request.maxArtifactBytes) hbytes
    generalize (firstWriter request).writeAll io 0 response.chunks (firstFiles request before) =
      written at hloop
    obtain ⟨files, error | writer⟩ := written
    · obtain ⟨hfails, hleft⟩ | ⟨hwrites, hpast, hclean⟩ := hloop
      · exact iff_of_false hleft (not_not_intro (.write hfails))
      · show Clean files ↔ _
        rw [leavesFile_of_lt hwrites hpast, hclean, Bool.not_eq_false]
    · obtain ⟨hwrites, hfits, rfl, hopen⟩ := hloop
      cases hbroken : response.broken with
      | some reason =>
        refine iff_of_false (not_clean hopen.part) (not_not_intro (.transport hfits ?_))
        rw [hbroken]
        rfl
      | none =>
        rw [leavesFile_of_le hwrites hfits hbroken]
        have hfinish := hopen.finish_spec io sha256
          (withoutExtension_part_ne request.artifact.url)
        dsimp only at hfinish ⊢
        generalize StagingWriter.finish io _ sha256 files = finished at hfinish ⊢
        obtain ⟨files', error | staged⟩ := finished
        · show Clean files' ↔ _
          obtain ⟨hof, hfails, hleft⟩ | ⟨hnot, hclean⟩ := hfinish
          · exact iff_of_false hleft (not_not_intro (.inl ⟨hof, hfails⟩))
          · rw [hclean]
            constructor
            · rintro hremoved (⟨hof, -⟩ | ⟨-, hkept⟩)
              · exact hnot hof
              · rw [hremoved] at hkept
                cases hkept
            · intro hleaves
              exact Bool.not_eq_false _ ▸ fun hkept => hleaves (.inr ⟨hnot, hkept⟩)
        · obtain ⟨hof, hrename, hexecutable, hstaged⟩ := hfinish
          refine iff_of_true ⟨hstaged, hof⟩ ?_
          rintro (⟨-, hfails | hfails⟩ | ⟨hnot, -⟩)
          · rw [hrename] at hfails
            cases hfails
          · rw [hexecutable] at hfails
            cases hfails
          · exact hnot hof
  · obtain ⟨error, heq⟩ := download_of_not_begins sha256 before hbegins
    rw [heq]
    exact iff_of_true (clean_before before) fun h => absurd h hbegins

end Download

/-! ### An artifact of two bytes -/

/-- The SHA-256 of the bytes 1 and 2. -/
def pairDigest (_ : List UInt8) : List UInt8 := [
  0xa1, 0x28, 0x71, 0xfe, 0xe2, 0x10, 0xfb, 0x86, 0x19, 0x29, 0x1e, 0xae, 0xa1, 0x94, 0x58, 0x1c,
  0xbd, 0x25, 0x31, 0xe4, 0xb2, 0x37, 0x59, 0xd2, 0x25, 0xf6, 0x80, 0x69, 0x23, 0xf6, 0x32, 0x22]

/-- The offer of the two bytes. -/
def pairRequest : DownloadRequest where
  verified := true
  allowUnsigned := false
  dir := "updates".toList
  artifact := {
    os := "linux".toList
    arch := "x86_64".toList
    url := "https://goble.dev/a".toList
    sha256 := "a12871fee210fb8619291eaea194581cbd2531e4b23759d225f6806923f63222".toList
    size := 2 }
  maxArtifactBytes := 1024

def steadyIo : StagingIo := ⟨none, none, none, fun _ => none, true, none, none⟩

theorem keepsVerified_pair :
    KeepsVerified pairDigest pairRequest.artifact [[1], [2]]
      (download pairDigest pairRequest steadyIo ⟨.ok 200, [[1], [2]], none⟩ fun _ => none) := by
  refine (keepsVerified_iff pairDigest pairRequest steadyIo ⟨.ok 200, [[1], [2]], none⟩ _
    (by decide)).mpr fun _ hleaves => ?_
  cases hleaves with
  | write h =>
    obtain ⟨k, -, -, herror⟩ := h
    cases herror
  | transport _ h => cases h
  | rename _ _ h => cases h
  | executable _ _ h => cases h
  | remove _ h => cases h

/-- The connection breaks after the first byte, and the part file stays. -/
theorem not_keepsVerified :
    ¬ KeepsVerified pairDigest pairRequest.artifact [[1]]
      (download pairDigest pairRequest steadyIo ⟨.ok 200, [[1]], some "reset".toList⟩
        fun _ => none) := by
  refine @not_clean _ "a.part".toList [1] ?_
  decide +kernel

end Goble.Update
