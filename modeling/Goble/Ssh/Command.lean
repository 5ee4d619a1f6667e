import Goble.Commands.Line

/-!
# The target of an `ssh` line

`parse_ssh_command` reads off a submitted line where an interactive session goes. Its splitter is
that of the command lines, with another end. A line in which each option and each value is a word
of its own is read option by option, whatever the values look like (`parse_plain`). It does not
take apart a word that holds more than one option.
-/

namespace Goble.Ssh

open Commands (Read splitting)

/-- A target as the command line names it. -/
structure SshTarget where
  host : List Char
  user : Option (List Char)
  port : Option Nat
deriving DecidableEq

/-- The loop of `split_words` is that of `split_command_line`. -/
def splitWords (command : List Char) : Option (List (List Char)) :=
  let s := splitting .start command
  let s := if s.escaped then s.push '\x5c' else s
  if s.quote.isSome then none else some s.finish

/-- A port as `-p` names it. -/
def portOf (value : List Char) : Option Nat := (Text.parseNat 65536 value).filter (· ≠ 0)

def takesValue (token : List Char) : Bool :=
  "BbcDEeFIiJLmOoPRSw".toList.any fun letter => token == ['-', letter]

/-- What has been read so far. -/
structure Parsed where
  host : Option (List Char)
  user : Option (List Char)
  port : Option Nat

namespace Parsed

variable (seen : Parsed)

def takePort (value : List Char) : Option Parsed :=
  (portOf value).map fun port => { seen with port := some port }

/-- A positional word; a second one is a command for the remote. -/
def takeHost (token : List Char) : Option Parsed :=
  if seen.host.isSome then none
  else
    match Text.cutAt ['@'] token with
    | some (named, rest) =>
      if named = [] then some { seen with host := some token }
      else if rest = [] then none
      else some { seen with user := some named, host := some rest }
    | none => some { seen with host := some token }

def walk (seen : Parsed) : List (List Char) → Option Parsed
  | [] => some seen
  | token :: rest =>
    if token ∈ ["-V".toList, "-Q".toList, "-G".toList, "-T".toList, "-W".toList] then none
    else if token = "-p".toList then
      match rest with
      | [] => none
      | value :: rest => (seen.takePort value).bind fun seen => walk seen rest
    else if token = "-l".toList then
      match rest with
      | [] => none
      | value :: rest => walk { seen with user := some value } rest
    else if "-p".toList <+: token ∧ 2 < token.length then
      (seen.takePort (token.drop 2)).bind fun seen => walk seen rest
    else if "-l".toList <+: token ∧ 2 < token.length then
      walk { seen with user := some (token.drop 2) } rest
    else if takesValue token then
      match rest with
      | [] => none
      | _ :: rest => walk seen rest
    else if token.head? = some '-' ∧ 1 < token.length then walk seen rest
    else (seen.takeHost token).bind fun seen => walk seen rest

def target : Option SshTarget := seen.host.map fun host => ⟨host, seen.user, seen.port⟩

end Parsed

def parseSshCommand (command : List Char) : Option SshTarget :=
  (splitWords command).bind fun
    | [] => none
    | first :: args =>
      if first ≠ "ssh".toList then none
      else
        (Parsed.walk ⟨none, none, none⟩ args).bind Parsed.target

/-! ### Options in words of their own -/

inductive SshOption
  | flag (letter : Char)
  | valued (letter : Char) (value : List Char)

namespace SshOption

def words : SshOption → List (List Char)
  | flag letter => [['-', letter]]
  | valued letter value => [['-', letter], value]

/-- The letters that take a value are those of `ssh`. -/
def Formed : SshOption → Prop
  | flag letter => letter ∉ "BbcDEeFIiJLlmOopPQRSWw".toList
  | valued letter _ => letter ∈ "BbcDEeFIiJLlmOopPQRSWw".toList

/-- What an option says of the target, if there is to be a session. -/
def apply (seen : Parsed) : SshOption → Option Parsed
  | flag letter => if letter ∈ "VGT".toList then none else some seen
  | valued letter value =>
    if letter ∈ "QW".toList then none
    else if letter = 'p' then seen.takePort value
    else if letter = 'l' then some { seen with user := some value }
    else some seen

theorem walk_words {option : SshOption} (h : option.Formed) (seen : Parsed)
    (rest : List (List Char)) :
    seen.walk (option.words ++ rest) = (option.apply seen).bind fun seen => seen.walk rest := by
  cases option with
  | flag letter =>
    rw [words, List.singleton_append, Parsed.walk.eq_def, apply]
    by_cases hends : letter ∈ "VGT".toList
    · simp at hends
      obtain rfl | rfl | rfl := hends <;> rfl
    · simp [Formed] at h hends
      simp [takesValue, h, hends]
  | valued letter value =>
    have hcases :
        letter = 'p' ∨ letter = 'l' ∨ letter ∈ "QW".toList ∨ takesValue ['-', letter] := by
      simp [Formed, takesValue] at h ⊢
      grind
    obtain rfl | rfl | hends | htakes := hcases
    · rfl
    · rfl
    · simp at hends
      obtain rfl | rfl := hends <;> rfl
    · have hother : letter ∉ "VQGTWpl".toList := by
        intro hin
        simp at hin
        obtain rfl | rfl | rfl | rfl | rfl | rfl | rfl := hin <;> cases htakes
      simp at hother
      rw [words, List.cons_append, Parsed.walk.eq_def, apply]
      simp [hother, htakes]

end SshOption

/-- A word that is not an option. -/
def IsHost (word : List Char) : Prop := word.head? = some '-' → word = ['-']

theorem walk_host {host : List Char} (h : IsHost host) (seen : Parsed) :
    seen.walk [host] = seen.takeHost host := by
  have hend : ((seen.takeHost host).bind fun seen => seen.walk []) = seen.takeHost host := by
    cases seen.takeHost host <;> rfl
  rw [Parsed.walk.eq_def]
  by_cases hdash : host.head? = some '-'
  · obtain rfl := h hdash
    exact hend
  · cases host with
    | nil => exact hend
    | cons c more =>
      have hc : c ≠ '-' := fun hc => hdash (congrArg some hc)
      simpa [hc, hc.symm, takesValue] using hend

/-- **A plain line is read option by option.** Each option says what it says, whatever its value
looks like, and the word after them is the host. -/
theorem parse_plain (line : List Char) (options : List SshOption) (host : List Char)
    (hline : splitWords line =
      some ("ssh".toList :: (options.flatMap SshOption.words ++ [host])))
    (hoptions : ∀ option ∈ options, option.Formed) (hhost : IsHost host) :
    parseSshCommand line =
      (options.foldlM SshOption.apply ⟨none, none, none⟩).bind fun seen =>
        (seen.takeHost host).bind Parsed.target := by
  have hwalk : ∀ seen : Parsed, seen.walk (options.flatMap SshOption.words ++ [host]) =
      (options.foldlM SshOption.apply seen).bind fun seen => seen.takeHost host := by
    clear hline
    induction options with
    | nil => exact walk_host hhost
    | cons option options ih =>
      intro seen
      rw [List.flatMap_cons, List.append_assoc,
        SshOption.walk_words (hoptions option List.mem_cons_self), List.foldlM_cons]
      cases option.apply seen with
      | none => rfl
      | some seen => exact ih (fun o ho => hoptions o (List.mem_cons_of_mem _ ho)) seen
  rw [parseSshCommand, hline]
  show ((Parsed.walk _ _).bind Parsed.target) = _
  rw [hwalk, Option.bind_assoc]

theorem parse_plain_port :
    parseSshCommand "ssh -p 2222 -i -V ada@web".toList =
      some ⟨"web".toList, "ada".toList, some 2222⟩ :=
  parse_plain _ [.valued 'p' "2222".toList, .valued 'i' "-V".toList] "ada@web".toList
    (by decide +kernel) (by simp [SshOption.Formed]) (by simp [IsHost])

end Goble.Ssh
