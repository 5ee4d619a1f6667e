import Goble.Commands.Credentials
import Goble.Commands.Splitting

/-!
# Running a command and approving it

A `run_command` call reaches the sandbox in two ways. Run directly, its command and its arguments
are expanded one by one, and are the argv. Proposed and approved, its line is expanded as a whole
and split after that, so a stored value is read as part of the line: quotes in it open and close
words.

What the splitter makes of a line is bounded by counting. It drops a double quote unless the line
had none to drop, and then it takes a single quote for itself only after a backslash that it drops
(`quotes_le`). A line of `shell_line` has no backslashes to spare for single quotes of a value
(`Written`), so one is always lost. From this the calls are known that both ways agree on
(`approving_runs_iff`).
-/

namespace Goble.Commands

open Mission (LlmToolCall commandCandidates quoteArg shellLine shellCharacters)

/-! ### The two ways -/

/-- What is handed to the sandbox: `run_argv`. -/
abbrev Argv := List Char × List (List Char)

/-- `SandboxedCommandRunner::run` -/
def run (allowed : List (List Char)) (command : List Char) (args : List (List Char)) :
    Except (List Char) Argv :=
  if command ∈ allowed then .ok (command, args)
  else .error ("command `".toList ++ command ++ "` is not in the allowed list".toList)

/-- `SandboxedCommandRunner::run_line` -/
def runLine (line : List Char) : Except (List Char) Argv :=
  match splitCommandLine line with
  | some argv => .ok argv
  | none => .error "the command line is empty".toList

def expand (credentials : Credentials) (text : List Char) : Except (List Char) (List Char) :=
  expandRefs credentials text.length text

def runApprovedCommand (credentials : Credentials) (line : List Char) :
    Except (List Char) Argv := do
  let line ← expand credentials line
  runLine line

def commandOf (call : LlmToolCall) : List Char := (call.arguments.get "command").asStr.getD []

def argsOf (call : LlmToolCall) : List (List Char) := (call.arguments.get "args").texts

def runCommand (credentials : Credentials) (allowed : List (List Char)) (call : LlmToolCall) :
    Except (List Char) Argv := do
  let command ← expand credentials (commandOf call)
  let args ← (argsOf call).mapM (expand credentials)
  run allowed command args

def Agrees (credentials : Credentials) (call : LlmToolCall) : Prop :=
  ∀ line ∈ commandCandidates call, ∀ allowed,
    (∀ command, expand credentials (commandOf call) = .ok command → command ∈ allowed) →
    (runApprovedCommand credentials line).toOption =
      (runCommand credentials allowed call).toOption

/-! ### An argument of the line -/

def storedValues (credentials : Credentials) (ps : List Piece) : List (List Char) :=
  ps.filterMap fun
    | .text _ => none
    | .ref name => credentials.lookup (Text.trim name)

def values (credentials : Credentials) (text : List Char) : List (List Char) :=
  storedValues credentials (pieces text)

/-- How an argument that is `read` stands in a line. Every single quote and backslash of it has its
backslash there, but for the quotes of the values. -/
structure Written (written read : List Char) (values : List (List Char)) : Prop where
  double : written.count '\x22' = read.count '\x22'
  kept : written.count '\x5c' + values.flatten.count '\x27' =
    read.count '\x27' + read.count '\x5c'
  reads : '\x27' ∉ values.flatten → ∀ words,
    splitting (.between words) written = .inside words read none

theorem count_encode (text : List Char) :
    (encode text).count '\x22' = text.count '\x22' ∧
      (encode text).count '\x5c' = text.count '\x27' + text.count '\x5c' := by
  induction text with
  | nil => exact ⟨rfl, rfl⟩
  | cons c text ih =>
    -- A single quote is written with one backslash, and no double quote is added.
    by_cases hc : c = '\x27'
    · subst hc
      rw [encode_quote]
      simp [ih]
      omega
    · rw [encode_cons hc]
      simp [List.count_cons, ih, hc]
      omega

theorem written_inner {credentials : Credentials} {ps : List Piece} {read : List Char}
    (h : fill credentials id ps = some read) :
    ∃ inner, fill credentials encode ps = some inner ∧
      inner.count '\x22' = read.count '\x22' ∧
      inner.count '\x5c' + (storedValues credentials ps).flatten.count '\x27' =
        read.count '\x27' + read.count '\x5c' ∧
      ('\x27' ∉ (storedValues credentials ps).flatten → ∀ words current,
        splitting (.inside words current (some .single)) inner =
          .inside words (current ++ read) (some .single)) := by
  induction ps generalizing read with
  | nil =>
    obtain rfl : [] = read := Option.some.inj h
    exact ⟨[], rfl, rfl, rfl, fun _ words current => by rw [List.append_nil]; rfl⟩
  | cons piece ps ih =>
    cases piece with
    | text part =>
      obtain ⟨rest, hrest, rfl⟩ := Option.map_eq_some_iff.mp h
      obtain ⟨inner, hinner, hdouble, hkept, hreads⟩ := ih hrest
      obtain ⟨hdouble', hkept'⟩ := count_encode part
      refine ⟨encode part ++ inner, by rw [fill, hinner]; rfl, ?_, ?_, ?_⟩
      · simp only [List.count_append, id, hdouble, hdouble']
      · simp only [List.count_append, id, hkept']
        change _ + (storedValues credentials ps).flatten.count '\x27' = _
        omega
      · intro hvalues words current
        rw [splitting_append, splitting_encode, hreads hvalues, List.append_assoc]
        rfl
    | ref name =>
      obtain ⟨value, hvalue, hfill⟩ := Option.bind_eq_some_iff.mp h
      obtain ⟨rest, hrest, rfl⟩ := Option.map_eq_some_iff.mp hfill
      obtain ⟨inner, hinner, hdouble, hkept, hreads⟩ := ih hrest
      have hstored : (storedValues credentials (.ref name :: ps)).flatten =
          value ++ (storedValues credentials ps).flatten := by
        simp only [storedValues, List.filterMap_cons, hvalue, List.flatten_cons]
      rw [hstored]
      refine ⟨value ++ inner, by rw [fill, hvalue, hinner]; rfl, ?_, ?_, ?_⟩
      · simp only [List.count_append, hdouble]
      · simp only [List.count_append]
        omega
      · intro hvalues words current
        rw [List.mem_append, not_or] at hvalues
        have hquoted := splitting_encode words current value
        rw [encode_of_notMem hvalues.1] at hquoted
        rw [splitting_append, hquoted, hreads hvalues.2, List.append_assoc]

theorem written_quoted {credentials : Credentials} {ps : List Piece} {read : List Char}
    (h : fill credentials id ps = some read) :
    ∃ inner, fill credentials encode ps = some inner ∧
      Written ('\x27' :: (inner ++ ['\x27'])) read (storedValues credentials ps) := by
  obtain ⟨inner, hinner, hdouble, hkept, hreads⟩ := written_inner h
  refine ⟨inner, hinner, ?_, ?_, fun hvalues words => ?_⟩
  · simp [hdouble]
  · simpa [List.count_cons] using hkept
  · change splitting (.inside words [] (some .single)) (inner ++ ['\x27']) = _
    rw [splitting_append, hreads hvalues]
    rfl

variable {arg : List Char}

theorem written_plain (h : IsWord arg) : Written arg arg [] := by
  refine ⟨rfl, ?_, fun _ words => splitting_word words h⟩
  have hquote : '\x27' ∉ arg := fun hmem => (isPlain_iff.mp (h.2 _ hmem)).2.1 rfl
  rw [List.count_eq_zero_of_not_mem hquote]
  exact Nat.add_comm _ _

theorem quoteArg_cases (arg : List Char) :
    quoteArg arg = '\x27' :: (encode arg ++ ['\x27']) ∨
      quoteArg arg = arg ∧ IsWord arg ∧ Text.cutAt openMark arg = none := by
  rw [quoteArg]
  split
  · exact .inl rfl
  · next hplain =>
    refine .inr ⟨rfl, isWord_of_not_quoted hplain, ?_⟩
    cases hcut : Text.cutAt openMark arg with
    | none => rfl
    | some cut =>
      obtain ⟨before, after⟩ := cut
      -- The mark has a brace, and an argument with a brace is quoted.
      have hbrace : '\x7b' ∈ arg := by
        rw [Text.cutAt_eq_some hcut]
        exact List.mem_append_right _ (List.mem_append_left _ (by decide))
      refine absurd ?_ hplain
      rw [Bool.or_eq_true, List.any_eq_true]
      exact .inr ⟨_, hbrace, by decide⟩

/-- An argument that is not expanded. -/
theorem written_quoteArg (arg : List Char) : Written (quoteArg arg) arg [] := by
  obtain hquoted | ⟨hplain, hword, -⟩ := quoteArg_cases arg
  · rw [hquoted]
    have hfill : fill [] id [.text arg] = some arg := by simp [fill]
    obtain ⟨inner, hinner, hwritten⟩ := written_quoted hfill
    obtain rfl : encode arg = inner := by simpa [fill] using hinner
    exact hwritten
  · rw [hplain]
    exact written_plain hword

/-! ### The line -/

theorem count_space {space : List Char} (h : ∀ c ∈ space, Text.isWhitespace c = true) :
    space.count '\x22' = 0 ∧ space.count '\x27' = 0 ∧ space.count '\x5c' = 0 := by
  refine ⟨List.count_eq_zero_of_not_mem fun hmem => ?_,
    List.count_eq_zero_of_not_mem fun hmem => ?_, List.count_eq_zero_of_not_mem fun hmem => ?_⟩
  all_goals exact absurd (h _ hmem) (by decide)

theorem finish_of_splitCommandLine {line command : List Char} {args : List (List Char)}
    (h : splitCommandLine line = some (command, args)) :
    (splitting .start line).finish = command :: args := by
  rw [splitCommandLine] at h
  split at h
  · cases h
  · split at h
    · cases h
    · next hwords _ =>
      obtain ⟨rfl, rfl⟩ := Prod.mk.inj (Option.some.inj h)
      exact hwords

section Args

variable {α : Type*} {before command after : List Char} {args : List α}
  {written read : α → List Char} {values : α → List (List Char)}

theorem count_args (h : ∀ arg ∈ args, Written (written arg) (read arg) (values arg)) :
    (args.flatMap fun arg => ' ' :: written arg).count '\x22' =
        (args.map read).flatten.count '\x22' ∧
      (args.flatMap fun arg => ' ' :: written arg).count '\x5c' +
          (args.flatMap fun arg => (values arg).flatten).count '\x27' =
        (args.map read).flatten.count '\x27' + (args.map read).flatten.count '\x5c' := by
  induction args with
  | nil => exact ⟨rfl, rfl⟩
  | cons arg args ih =>
    obtain ⟨hdouble, hkept⟩ := ih fun arg hmem => h arg (List.mem_cons_of_mem _ hmem)
    obtain ⟨hdouble', hkept', -⟩ := h arg List.mem_cons_self
    simp only [List.flatMap_cons, List.map_cons, List.flatten_cons, List.count_append]
    rw [List.count_cons_of_ne (by decide), List.count_cons_of_ne (by decide)]
    omega

theorem finish_bare (hbare : Bare (splitting .start command))
    (h : ∀ arg ∈ args, ∀ words,
      splitting (.between words) (written arg) = .inside words (read arg) none) :
    (splitting .start (command ++ args.flatMap fun arg => ' ' :: written arg)).finish =
      (splitting .start command).finish ++ args.map read := by
  rw [splitting_append]
  cases args with
  | nil => exact (List.append_nil _).symm
  | cons arg args =>
    rw [List.flatMap_cons, splitting_append]
    change (splitting (splitting ((splitting .start command).next ' ') (written arg)) _).finish = _
    rw [hbare.next_space, h arg List.mem_cons_self,
      finish_splitting_args _ _ fun arg hmem => h arg (List.mem_cons_of_mem _ hmem)]
    rfl

/-- If the arguments come back, there is nothing for the splitter to drop. -/
theorem unmarked_of_finish (hbefore : ∀ c ∈ before, Text.isWhitespace c = true)
    (hafter : ∀ c ∈ after, Text.isWhitespace c = true)
    (h : ∀ arg ∈ args, Written (written arg) (read arg) (values arg))
    (hfinish : (splitting .start
        (command ++ args.flatMap fun arg => ' ' :: written arg)).finish =
      (before ++ (command ++ after)) :: args.map read) :
    (∀ c ∈ command, Unmarked c) ∧ ∀ arg ∈ args, '\x27' ∉ (values arg).flatten := by
  have hspace := count_space hbefore
  have hspace' := count_space hafter
  obtain ⟨hdouble, hkept⟩ := count_args h
  have hhead : (args.flatMap fun arg => ' ' :: written arg).head? ≠ some '\x27' := by
    cases args with
    | nil => exact Option.some_ne_none _ ∘ Eq.symm
    | cons arg args => exact fun heq => absurd (Option.some.inj heq) (by decide)
  generalize (args.flatMap fun arg => ' ' :: written arg) = tail at hfinish hdouble hkept hhead
  -- What was read are the letters of the command and of the arguments, in their order.
  have hletters := (settled_splitting (command ++ tail)).finish_flatten
  rw [hfinish, List.flatten_cons] at hletters
  have hdoubles : (command ++ tail).count '\x22' =
      (splitting .start (command ++ tail)).letters.count '\x22' := by
    rw [← hletters]
    simp only [List.count_append]
    omega
  have hkepts : (splitting .start (command ++ tail)).kept =
      command.count '\x27' + command.count '\x5c' +
        ((args.map read).flatten.count '\x27' + (args.map read).flatten.count '\x5c') := by
    rw [Read.kept, ← hletters]
    simp only [List.count_append]
    omega
  -- No double quote was dropped,
  have hnone : Read.start.letters.count '\x22' + (command ++ tail).count '\x22' ≤
      (splitting .start (command ++ tail)).letters.count '\x22' := by
    rw [← hdoubles]
    exact (Nat.zero_add _).le
  -- so a single quote costs a backslash, and the arguments have none to spare.
  have hle := @quotes_le .start (command ++ tail) (Option.some_ne_none _).symm
    (fun hescaped => absurd hescaped Bool.false_ne_true) hnone
  have hstart : Read.start.kept = 0 ∧ Read.start.escaped.toNat = 0 := ⟨rfl, rfl⟩
  rw [hkepts, hstart.1, hstart.2, List.count_append] at hle
  have hcommand : '\x27' ∉ command := List.count_eq_zero.mp (by omega)
  have hvalues : '\x27' ∉ args.flatMap fun arg => (values arg).flatten :=
    List.count_eq_zero.mp (by omega)
  obtain ⟨hdoubles, hslashes⟩ := @plain_of_balanced .start command tail rfl rfl hcommand hhead
    hnone (by rw [hkepts, hstart.1, List.count_append]; omega)
  refine ⟨fun c hc => ⟨?_, ?_, ?_⟩, fun arg hmem hquote => ?_⟩
  · rintro rfl
    exact hcommand hc
  · rintro rfl
    exact hdoubles hc
  · rintro rfl
    exact hslashes hc
  · exact hvalues (List.mem_flatMap.mpr ⟨arg, hmem, hquote⟩)

theorem splitCommandLine_eq_iff (hbefore : ∀ c ∈ before, Text.isWhitespace c = true)
    (hafter : ∀ c ∈ after, Text.isWhitespace c = true)
    (h : ∀ arg ∈ args, Written (written arg) (read arg) (values arg)) :
    splitCommandLine (command ++ args.flatMap fun arg => ' ' :: written arg) =
        some (before ++ (command ++ after), args.map read) ↔
      IsWord (before ++ (command ++ after)) ∧
        ∀ arg ∈ args, '\x27' ∉ (values arg).flatten := by
  constructor
  · intro hsplit
    have hfinish := finish_of_splitCommandLine hsplit
    obtain ⟨hcommand, hvalues⟩ := unmarked_of_finish hbefore hafter h hfinish
    refine ⟨?_, hvalues⟩
    have hbare := bare_splitting hcommand
    rw [finish_bare hbare fun arg hmem => (h arg hmem).reads (hvalues arg hmem),
      ← List.singleton_append] at hfinish
    -- The arguments are the last words, so the command is the first one.
    have hfirst := List.append_cancel_right hfinish
    exact hbare.finish _ (hfirst ▸ List.mem_singleton_self _)
  · rintro ⟨hword, hvalues⟩
    -- A word has no white space around it.
    have hnil : ∀ {space : List Char}, (∀ c ∈ space, Text.isWhitespace c = true) →
        (∀ c ∈ space, c ∈ before ++ (command ++ after)) → space = [] := by
      intro space hspace hmem
      refine List.eq_nil_iff_forall_not_mem.mpr fun c hc => ?_
      have hplain := (isPlain_iff.mp (hword.2 c (hmem c hc))).1
      rw [hspace c hc] at hplain
      cases hplain
    obtain rfl := hnil hbefore fun c hc => List.mem_append_left _ hc
    obtain rfl := hnil hafter fun c hc =>
      List.mem_append_right _ (List.mem_append_right _ hc)
    rw [List.nil_append, List.append_nil] at hword ⊢
    have hfinish : (splitting .start
        (command ++ args.flatMap fun arg => ' ' :: written arg)).finish =
        command :: args.map read := by
      rw [splitting_append]
      change (splitting (splitting (.between []) command) _).finish = _
      rw [splitting_word [] hword, finish_splitting_args [] command fun arg hmem =>
        (h arg hmem).reads (hvalues arg hmem), List.nil_append]
    rw [splitCommandLine, hfinish]
    exact if_neg fun hempty => hword.1 (List.isEmpty_iff.mp hempty)

end Args

/-! ### Expanding the line -/

theorem expand_toOption (credentials : Credentials) (text : List Char) :
    (expand credentials text).toOption = fill credentials id (pieces text) :=
  expandRefs_eq credentials le_rfl

theorem fill_quoteArg (credentials : Credentials) (h : Aligned arg) :
    fill credentials id (pieces ('\x27' :: (encode arg ++ ['\x27']))) =
      (fill credentials encode (pieces arg)).map fun inner => '\x27' :: (inner ++ ['\x27']) := by
  have hinert : Inert ['\x27'] := by
    intro c hc
    rw [List.mem_singleton.mp hc]
    decide
  rw [fill_cons credentials (by decide), fill_append_inert credentials hinert, pieces_encode h,
    fill_map_encode, Option.map_map]
  rfl

theorem fill_quoteArg_append (credentials : Credentials) {more : List Char} (h : Aligned arg)
    (hmore : ∀ c ∈ more.head?, c ∉ openMark) :
    fill credentials id (pieces (quoteArg arg ++ more)) =
      (fill credentials id (pieces (quoteArg arg))).bind fun written =>
        (fill credentials id (pieces more)).map (written ++ ·) := by
  obtain hquoted | ⟨hplain, -, -⟩ := quoteArg_cases arg
  -- A mark neither starts before the closing quote nor goes on after it.
  · rw [hquoted, fill_quoteArg credentials h, List.cons_append, List.append_assoc,
      fill_cons credentials (by decide), List.singleton_append,
      fill_append credentials h.closed_encode (fun c hc => by
        obtain rfl := Option.some.inj hc
        decide), fill_cons credentials (by decide), pieces_encode h, fill_map_encode]
    cases fill credentials encode (pieces arg) with
    | none => rfl
    | some inner =>
      cases fill credentials id (pieces more) with
      | none => rfl
      | some more => simp
  · rw [hplain]
    exact fill_append credentials h.closed hmore

/-- An argument whose references are stored. -/
theorem written_fill {credentials : Credentials} {read : List Char} (h : Aligned arg)
    (hread : fill credentials id (pieces arg) = some read) :
    ∃ written, fill credentials id (pieces (quoteArg arg)) = some written ∧
      Written written read (values credentials arg) := by
  obtain hquoted | ⟨hplain, hword, hnone⟩ := quoteArg_cases arg
  · obtain ⟨inner, hinner, hwritten⟩ := written_quoted hread
    refine ⟨_, ?_, hwritten⟩
    rw [hquoted, fill_quoteArg credentials h, hinner]
    rfl
  · have hpieces := pieces_of_uncut (Uncut.of_none hnone)
    have hvalues : values credentials arg = [] := by rw [values, hpieces]; rfl
    rw [hpieces] at hread
    obtain rfl : arg = read := by simpa [fill] using hread
    rw [hplain, hvalues, hpieces]
    exact ⟨arg, hread, written_plain hword⟩

theorem fill_quoteArg_eq_none {credentials : Credentials} (h : Aligned arg)
    (hnone : fill credentials id (pieces arg) = none) :
    fill credentials id (pieces (quoteArg arg)) = none := by
  obtain hquoted | ⟨hplain, -⟩ := quoteArg_cases arg
  · rw [hquoted, fill_quoteArg credentials h, Option.map_eq_none_iff]
    -- Quoting the texts does not change which references are looked up.
    have hsome : ∀ ps, fill credentials id ps = none → fill credentials encode ps = none := by
      intro ps
      induction ps with
      | nil => nofun
      | cons piece ps ih =>
        cases piece with
        | text part =>
          simp only [fill, Option.map_eq_none_iff]
          exact ih
        | ref name =>
          rw [fill, fill]
          cases credentials.lookup (Text.trim name) with
          | none => exact fun _ => rfl
          | some value =>
            simp only [Option.bind_some, Option.map_eq_none_iff]
            exact ih
    exact hsome _ hnone
  · rwa [hplain]

theorem head_args (args : List (List Char)) :
    ∀ c ∈ (args.flatMap fun arg => ' ' :: quoteArg arg).head?, c ∉ openMark := by
  intro c hc
  cases args with
  | nil => cases hc
  | cons arg args =>
    obtain rfl := Option.some.inj hc
    decide

theorem fill_args_cons (credentials : Credentials) (h : Aligned arg) (args : List (List Char)) :
    fill credentials id (pieces ((arg :: args).flatMap fun arg => ' ' :: quoteArg arg)) =
      (fill credentials id (pieces (quoteArg arg))).bind fun written =>
        (fill credentials id (pieces (args.flatMap fun arg => ' ' :: quoteArg arg))).map
          fun rest => ' ' :: (written ++ rest) := by
  rw [List.flatMap_cons, List.cons_append, fill_cons credentials (by decide),
    fill_quoteArg_append credentials h (head_args args)]
  simp only [Option.map_bind, Option.map_map, Function.comp_def]

theorem fill_args_eq_some {credentials : Credentials} {args : List (List Char)}
    {written : List Char → List Char} (h : ∀ arg ∈ args, Aligned arg)
    (hwritten : ∀ arg ∈ args,
      fill credentials id (pieces (quoteArg arg)) = some (written arg)) :
    fill credentials id (pieces (args.flatMap fun arg => ' ' :: quoteArg arg)) =
      some (args.flatMap fun arg => ' ' :: written arg) := by
  induction args with
  | nil => rfl
  | cons arg args ih =>
    rw [fill_args_cons credentials (h arg List.mem_cons_self), hwritten arg List.mem_cons_self,
      ih (fun arg hmem => h arg (List.mem_cons_of_mem _ hmem))
        fun arg hmem => hwritten arg (List.mem_cons_of_mem _ hmem)]
    rfl

theorem fill_args_eq_none {credentials : Credentials} {args : List (List Char)}
    (h : ∀ arg ∈ args, Aligned arg) (hmem : arg ∈ args)
    (hnone : fill credentials id (pieces (quoteArg arg)) = none) :
    fill credentials id (pieces (args.flatMap fun arg => ' ' :: quoteArg arg)) = none := by
  induction args with
  | nil => cases hmem
  | cons first args ih =>
    rw [fill_args_cons credentials (h first List.mem_cons_self)]
    obtain rfl | hmem := List.mem_cons.mp hmem
    · rw [hnone]
      rfl
    · rw [ih (fun arg hmem => h arg (List.mem_cons_of_mem _ hmem)) hmem]
      cases fill credentials id (pieces (quoteArg first)) with
      | none => rfl
      | some written => rfl

/-! ### What is handed over -/

theorem runApprovedCommand_toOption (credentials : Credentials) (line : List Char) :
    (runApprovedCommand credentials line).toOption =
      (fill credentials id (pieces line)).bind splitCommandLine := by
  rw [← expand_toOption, runApprovedCommand]
  cases expand credentials line with
  | error message => rfl
  | ok line =>
    change (runLine line).toOption = splitCommandLine line
    rw [runLine]
    cases splitCommandLine line with
    | none => rfl
    | some argv => rfl

theorem mapM_eq_ok {ε α β : Type*} {f : α → Except ε β} {g : α → β} {args : List α}
    (h : ∀ arg ∈ args, f arg = .ok (g arg)) : args.mapM f = .ok (args.map g) := by
  induction args with
  | nil => rfl
  | cons arg args ih =>
    rw [List.mapM_cons, h arg List.mem_cons_self,
      ih fun arg hmem => h arg (List.mem_cons_of_mem _ hmem)]
    rfl

theorem toOption_mapM_eq_none {ε α β : Type*} {f : α → Except ε β} {args : List α} {arg : α}
    (hmem : arg ∈ args) (h : (f arg).toOption = none) : (args.mapM f).toOption = none := by
  induction args with
  | nil => cases hmem
  | cons first args ih =>
    rw [List.mapM_cons]
    obtain rfl | hmem := List.mem_cons.mp hmem
    · cases hf : f arg with
      | error message => rfl
      | ok value =>
        rw [hf] at h
        cases h
    · cases f first with
      | error message => rfl
      | ok value =>
        have hrest := ih hmem
        cases hmap : args.mapM f with
        | error message => rfl
        | ok values =>
          rw [hmap] at hrest
          cases hrest

variable {text : List Char}

theorem expand_eq_ok {credentials : Credentials} {expanded : List Char}
    (h : fill credentials id (pieces text) = some expanded) :
    expand credentials text = .ok expanded := by
  rw [← expand_toOption] at h
  cases hexpand : expand credentials text with
  | error message =>
    rw [hexpand] at h
    cases h
  | ok value =>
    rw [hexpand] at h
    rw [Option.some.inj h]

variable {credentials : Credentials} {call : LlmToolCall}

theorem agrees_iff_of_stored {command : List Char} {read : List Char → List Char}
    (hcommand : fill credentials id (pieces (commandOf call)) = some command)
    (hargs : ∀ arg ∈ argsOf call, fill credentials id (pieces arg) = some (read arg)) :
    Agrees credentials call ↔ ∀ line ∈ commandCandidates call,
      (fill credentials id (pieces line)).bind splitCommandLine =
        some (command, (argsOf call).map read) := by
  -- A direct run asks one thing more, that the command is allowed.
  have hrun : ∀ allowed, command ∈ allowed →
      (runCommand credentials allowed call).toOption =
        some (command, (argsOf call).map read) := by
    intro allowed hallowed
    have hall : (argsOf call).mapM (expand credentials) = .ok ((argsOf call).map read) :=
      mapM_eq_ok fun arg hmem => expand_eq_ok (hargs arg hmem)
    rw [runCommand, expand_eq_ok hcommand, hall]
    change (run allowed command ((argsOf call).map read)).toOption = _
    rw [run, if_pos hallowed]
    rfl
  refine forall₂_congr fun line _ => ?_
  rw [← runApprovedCommand_toOption]
  constructor
  · intro h
    -- The list of the one command is enough.
    rw [h [command] fun command' hcommand' => ?_, hrun _ (List.mem_singleton_self _)]
    rw [expand_eq_ok hcommand] at hcommand'
    exact List.mem_singleton.mpr (Except.ok.inj hcommand').symm
  · intro h allowed hallowed
    rw [h, hrun allowed (hallowed command (expand_eq_ok hcommand))]

/-- Where one is not, running fails. -/
theorem agrees_iff_of_missing
    (h : fill credentials id (pieces (commandOf call)) = none ∨
      ∃ arg ∈ argsOf call, fill credentials id (pieces arg) = none) :
    Agrees credentials call ↔ ∀ line ∈ commandCandidates call,
      (fill credentials id (pieces line)).bind splitCommandLine = none := by
  have hrun : ∀ allowed, (runCommand credentials allowed call).toOption = none := by
    intro allowed
    rw [runCommand]
    cases hcommand : expand credentials (commandOf call) with
    | error message => rfl
    | ok command =>
      obtain hnone | ⟨arg, hmem, hnone⟩ := h
      · rw [← expand_toOption, hcommand] at hnone
        cases hnone
      · have hargs : ((argsOf call).mapM (expand credentials)).toOption = none :=
          toOption_mapM_eq_none hmem ((expand_toOption credentials arg).trans hnone)
        cases hmap : (argsOf call).mapM (expand credentials) with
        | error message => rfl
        | ok args =>
          rw [hmap] at hargs
          cases hargs
  refine forall₂_congr fun line _ => ?_
  rw [← runApprovedCommand_toOption]
  constructor
  · intro h
    have hagree := h (expand credentials (commandOf call)).toOption.toList fun command hcommand => by
      rw [hcommand]
      exact List.mem_singleton_self _
    rw [hagree, hrun]
  · intro h allowed _
    rw [h, hrun]

/-! ### When they agree -/

/-- A call whose references are closed in the command or in one argument, and have no quote in
their names. -/
structure AlignedCall (call : LlmToolCall) : Prop where
  command : Closed (Text.trim (commandOf call))
  args : ∀ arg ∈ argsOf call, Aligned arg

/-- Unless a reference is not stored, the expanded command is a word and no value that is put into
an argument has a single quote. -/
def Harmless (credentials : Credentials) (call : LlmToolCall) : Prop :=
  ∀ command, expand credentials (commandOf call) = .ok command →
    (∀ arg ∈ argsOf call, ∃ expanded, expand credentials arg = .ok expanded) →
    IsWord command ∧
      ∀ arg ∈ argsOf call, ∀ value ∈ values credentials arg, '\x27' ∉ value

theorem inert_of_space {space : List Char} (h : ∀ c ∈ space, Text.isWhitespace c = true) :
    Inert space := by
  intro c hc
  have hall : ∀ mark : List Char, (mark.all fun d => !Text.isWhitespace d) = true → c ∉ mark := by
    intro mark hmark hmem
    have hplain := List.all_eq_true.mp hmark c hmem
    rw [h c hc] at hplain
    cases hplain
  exact ⟨hall openMark (by decide), hall closeMark (by decide)⟩

/-- The command is expanded with the white space around it, or without. -/
theorem fill_command (credentials : Credentials) (call : LlmToolCall) :
    ∃ before after, commandOf call = before ++ (Text.trim (commandOf call) ++ after) ∧
      (∀ c ∈ before, Text.isWhitespace c = true) ∧ (∀ c ∈ after, Text.isWhitespace c = true) ∧
      fill credentials id (pieces (commandOf call)) =
        (fill credentials id (pieces (Text.trim (commandOf call)))).map fun command =>
          before ++ (command ++ after) := by
  obtain ⟨before, after, heq, hbefore, hafter⟩ := Text.exists_trim (commandOf call)
  refine ⟨before, after, heq, hbefore, hafter, ?_⟩
  conv_lhs => rw [heq]
  rw [fill_inert_append credentials (inert_of_space hbefore),
    fill_append_inert credentials (inert_of_space hafter), Option.map_map]
  rfl

theorem commandCandidates_eq (call : LlmToolCall) :
    commandCandidates call = [] ∨
      commandCandidates call = [Text.trim (commandOf call) ++
        (argsOf call).flatMap fun arg => ' ' :: quoteArg arg] := by
  have heq : commandCandidates call = (shellLine (commandOf call) (argsOf call)).toList := rfl
  rw [heq, shellLine]
  split
  · exact .inl rfl
  · exact .inr rfl

theorem agrees_of_nil (h : commandCandidates call = []) : Agrees credentials call := by
  intro line hline
  rw [h] at hline
  cases hline

theorem AlignedCall.fill_line (h : AlignedCall call) (credentials : Credentials) :
    fill credentials id (pieces (Text.trim (commandOf call) ++
        (argsOf call).flatMap fun arg => ' ' :: quoteArg arg)) =
      (fill credentials id (pieces (Text.trim (commandOf call)))).bind fun command =>
        (fill credentials id (pieces ((argsOf call).flatMap fun arg => ' ' :: quoteArg arg))).map
          (command ++ ·) :=
  fill_append credentials h.command (head_args (argsOf call))

theorem AlignedCall.agrees_iff (h : AlignedCall call) (credentials : Credentials) :
    Agrees credentials call ↔ commandCandidates call = [] ∨ Harmless credentials call := by
  obtain hnil | hline := commandCandidates_eq call
  · exact iff_of_true (agrees_of_nil hnil) (.inl hnil)
  have hne : commandCandidates call ≠ [] := by simp [hline]
  rw [or_iff_right hne]
  obtain ⟨before, after, -, hbefore, hafter, hcommand⟩ := fill_command credentials call
  have hfill := h.fill_line credentials
  cases hstored : fill credentials id (pieces (Text.trim (commandOf call))) with
  -- A reference of the command is not stored.
  | none =>
    rw [hstored] at hcommand hfill
    refine iff_of_true ((agrees_iff_of_missing (.inl hcommand)).mpr ?_) fun command hexpand => ?_
    · rw [hline]
      intro line hmem
      rw [List.mem_singleton.mp hmem, hfill]
      rfl
    · rw [← expand_toOption, hexpand] at hcommand
      cases hcommand
  | some command =>
    rw [hstored] at hcommand hfill
    -- The command is stored; the same for each argument, or one has a name that is not.
    by_cases hargs : ∃ arg ∈ argsOf call, fill credentials id (pieces arg) = none
    · refine iff_of_true ((agrees_iff_of_missing (.inr hargs)).mpr ?_) fun _ _ hall => ?_
      · obtain ⟨arg, hmem, hnone⟩ := hargs
        rw [hline]
        intro line hmem'
        rw [List.mem_singleton.mp hmem', hfill,
          fill_args_eq_none h.args hmem (fill_quoteArg_eq_none (h.args arg hmem) hnone)]
        rfl
      · obtain ⟨arg, hmem, hnone⟩ := hargs
        obtain ⟨expanded, hexpanded⟩ := hall arg hmem
        rw [← expand_toOption, hexpanded] at hnone
        cases hnone
    · let filled := fun text => (fill credentials id (pieces text)).getD []
      have hread : ∀ arg ∈ argsOf call,
          fill credentials id (pieces arg) = some (filled arg) := by
        intro arg hmem
        cases hfilled : fill credentials id (pieces arg) with
        | none => exact absurd ⟨arg, hmem, hfilled⟩ hargs
        | some read => simp [filled, hfilled]
      -- Then every argument stands in the line as it is written, with its values in place.
      have hwritten : ∀ arg ∈ argsOf call,
          fill credentials id (pieces (quoteArg arg)) = some (filled (quoteArg arg)) ∧
            Written (filled (quoteArg arg)) (filled arg) (values credentials arg) := by
        intro arg hmem
        obtain ⟨written, hfilled, hwritten⟩ := written_fill (h.args arg hmem) (hread arg hmem)
        have heq : filled (quoteArg arg) = written := by simp [filled, hfilled]
        rw [heq]
        exact ⟨hfilled, hwritten⟩
      rw [agrees_iff_of_stored hcommand hread, hline, List.forall_mem_singleton, hfill,
        fill_args_eq_some h.args fun arg hmem => (hwritten arg hmem).1]
      change splitCommandLine _ = _ ↔ _
      rw [splitCommandLine_eq_iff hbefore hafter fun arg hmem => (hwritten arg hmem).2]
      have hquotes : ∀ arg, '\x27' ∉ (values credentials arg).flatten ↔
          ∀ value ∈ values credentials arg, '\x27' ∉ value := by
        intro arg
        simp [List.mem_flatten]
      simp only [hquotes]
      constructor
      · intro hboth command' hexpand _
        rw [expand_eq_ok hcommand] at hexpand
        rwa [← Except.ok.inj hexpand]
      · intro hboth
        exact hboth _ (expand_eq_ok hcommand) fun arg hmem => ⟨_, expand_eq_ok (hread arg hmem)⟩

/-! ### Whatever is stored -/

theorem Uncut.left {a b : List Char} (h : Uncut (a ++ b)) : Uncut a := by
  obtain huncut | ⟨before, name, rest, hcut⟩ := uncut_or_cut a
  · exact huncut
  · obtain ⟨tail, hopen, hclose⟩ := hcut.append b
    rw [h before tail hopen] at hclose
    cases hclose

theorem Uncut.right {a b : List Char} (h : Uncut (a ++ b)) : Uncut b := by
  obtain huncut | ⟨before, name, rest, hcut⟩ := uncut_or_cut b
  · exact huncut
  · have heq := hcut.eq
    -- A mark that opens in `b` is found in `a ++ b`, there or before.
    obtain ⟨start, tail, hopen⟩ :=
      Text.exists_cutAt openMark (a ++ before) (name ++ (closeMark ++ rest))
    rw [List.append_assoc, ← heq] at hopen
    obtain ⟨name', rest', hclose⟩ := Text.exists_cutAt closeMark (tail ++ name) rest
    have hnone := h start _ hopen
    rw [← List.append_assoc, hclose] at hnone
    cases hnone

theorem Uncut.of_encode (h : Uncut (encode text)) : Uncut text := by
  intro before tail hopen
  have hopen' : Text.cutAt openMark (encode text) = some (encode before, encode tail) := by
    rw [cutAt_encode unquoted_openMark, hopen]
    rfl
  have hnone := h _ _ hopen'
  rw [cutAt_encode unquoted_closeMark] at hnone
  exact Option.map_eq_none_iff.mp hnone

theorem Uncut.of_quoteArg (h : Uncut (quoteArg arg)) : Uncut arg := by
  obtain hquoted | ⟨hplain, -⟩ := quoteArg_cases arg
  · rw [hquoted] at h
    have hinner : Uncut (['\x27'] ++ (encode arg ++ ['\x27'])) := h
    exact hinner.right.left.of_encode
  · rwa [hplain] at h

theorem uncut_of_names (h : names text = []) : Uncut text := by
  obtain huncut | ⟨before, name, rest, hcut⟩ := uncut_or_cut text
  · exact huncut
  · rw [names, pieces_of_cut hcut] at h
    cases h

theorem fill_of_uncut (credentials : Credentials) (h : Uncut text) :
    fill credentials id (pieces text) = some text := by
  rw [pieces_of_uncut h]
  simp [fill]

/-- A line without references: nothing is expanded, so the line alone counts. -/
theorem agrees_iff_of_uncut {line : List Char} (hline : commandCandidates call = [line])
    (huncut : Uncut line) : Agrees credentials call ↔ IsWord (commandOf call) := by
  obtain hnil | hcandidates := commandCandidates_eq call
  · rw [hline] at hnil
    cases hnil
  rw [hline] at hcandidates
  obtain rfl := (List.cons.inj hcandidates).1
  obtain ⟨before, after, heq, hbefore, hafter, hcommand⟩ := fill_command credentials call
  rw [fill_of_uncut credentials huncut.left, Option.map_some, ← heq] at hcommand
  have hargs : ∀ arg ∈ argsOf call, fill credentials id (pieces arg) = some (id arg) := by
    intro arg hmem
    -- What is no reference in the line is none in its parts.
    have hall : ∀ args : List (List Char), Uncut (args.flatMap fun arg => ' ' :: quoteArg arg) →
        ∀ arg ∈ args, Uncut arg := by
      intro args
      induction args with
      | nil => exact fun _ arg hmem => by cases hmem
      | cons first args ih =>
        intro h arg hmem
        have hparts : Uncut ([' '] ++ (quoteArg first ++
            args.flatMap fun arg => ' ' :: quoteArg arg)) := h
        obtain rfl | hmem := List.mem_cons.mp hmem
        · exact hparts.right.left.of_quoteArg
        · exact ih hparts.right.right arg hmem
    exact fill_of_uncut credentials (hall _ huncut.right arg hmem)
  rw [agrees_iff_of_stored hcommand hargs, hline, List.forall_mem_singleton,
    fill_of_uncut credentials huncut, Option.bind_some]
  have hwritten : ∀ arg ∈ argsOf call, Written (quoteArg arg) (id arg) [] :=
    fun arg _ => written_quoteArg arg
  conv_lhs => rhs; rw [heq]
  rw [splitCommandLine_eq_iff hbefore hafter hwritten, ← heq]
  exact and_iff_left fun _ _ => List.not_mem_nil

def storing (value : List Char) (text : List Char) : Credentials :=
  (names text).map fun name => (Text.trim name, value)

theorem lookup_of_mem {credentials : Credentials} {value name : List Char}
    (hvalue : ∀ entry ∈ credentials, entry.2 = value) (hmem : name ∈ credentials.map Prod.fst) :
    credentials.lookup name = some value := by
  induction credentials with
  | nil => cases hmem
  | cons entry credentials ih =>
    obtain ⟨name', value'⟩ := entry
    obtain rfl : value' = value := hvalue _ List.mem_cons_self
    rw [List.lookup_cons]
    split
    · rfl
    · next hne =>
      refine ih (fun entry hmem => hvalue entry (List.mem_cons_of_mem _ hmem)) ?_
      obtain rfl | hmem := List.mem_cons.mp hmem
      · simp at hne
      · exact hmem

theorem fill_of_lookup {credentials : Credentials} {value : List Char} {ps : List Piece}
    (h : ∀ name, .ref name ∈ ps → credentials.lookup (Text.trim name) = some value) :
    ∃ expanded, fill credentials id ps = some expanded ∧
      ((∃ name, .ref name ∈ ps) → value <:+: expanded) := by
  induction ps with
  | nil => exact ⟨[], rfl, fun ⟨name, hmem⟩ => by cases hmem⟩
  | cons piece ps ih =>
    obtain ⟨expanded, hexpanded, hpart⟩ := ih fun name hmem => h name (List.mem_cons_of_mem _ hmem)
    cases piece with
    | text part =>
      refine ⟨part ++ expanded, by rw [fill, hexpanded]; rfl, fun ⟨name, hmem⟩ => ?_⟩
      obtain hmem | hmem := List.mem_cons.mp hmem
      · cases hmem
      · exact (hpart ⟨name, hmem⟩).trans (List.suffix_append part expanded).isInfix
    | ref name =>
      refine ⟨value ++ expanded, by rw [fill, h name List.mem_cons_self, hexpanded]; rfl, ?_⟩
      exact fun _ => (List.prefix_append value expanded).isInfix

theorem not_agrees_of_names {line name : List Char} (hline : commandCandidates call = [line])
    (hname : name ∈ names line) : ∃ credentials, ¬ Agrees credentials call := by
  -- A value that splits into more words than the call has, for every name there is.
  let value := (List.replicate ((argsOf call).length + 2) breaker).flatten
  let texts := line :: commandOf call :: argsOf call
  let credentials := texts.flatMap (storing value)
  have hlookup : ∀ text ∈ texts, ∀ name, .ref name ∈ pieces text →
      credentials.lookup (Text.trim name) = some value := by
    intro text htext name hmem
    refine lookup_of_mem (fun entry hentry => ?_) ?_
    · obtain ⟨text, -, hentry⟩ := List.mem_flatMap.mp hentry
      obtain ⟨name, -, rfl⟩ := List.mem_map.mp hentry
      rfl
    · refine List.mem_map.mpr ⟨(Text.trim name, value), List.mem_flatMap.mpr ⟨text, htext, ?_⟩, rfl⟩
      exact List.mem_map.mpr ⟨name, List.mem_filterMap.mpr ⟨.ref name, hmem, rfl⟩, rfl⟩
  have hfill : ∀ text ∈ texts, fill credentials id (pieces text) =
      some ((fill credentials id (pieces text)).getD []) := by
    intro text htext
    obtain ⟨expanded, hexpanded, -⟩ := fill_of_lookup (hlookup text htext)
    rw [hexpanded]
    rfl
  refine ⟨credentials, fun hagrees => ?_⟩
  rw [agrees_iff_of_stored (hfill _ (List.mem_cons_of_mem _ List.mem_cons_self)) fun arg hmem =>
    hfill arg (List.mem_cons_of_mem _ (List.mem_cons_of_mem _ hmem)), hline,
    List.forall_mem_singleton] at hagrees
  obtain ⟨expanded, hexpanded, hpart⟩ := fill_of_lookup (hlookup line List.mem_cons_self)
  rw [hexpanded, Option.bind_some] at hagrees
  have hreferred : ∃ name, .ref name ∈ pieces line := by
    obtain ⟨piece, hmem, hpiece⟩ := List.mem_filterMap.mp hname
    cases piece with
    | text part => cases hpiece
    | ref name => exact ⟨name, hmem⟩
  -- The value stands in the line, and its words are among those of the line.
  have hlength := length_finish_of_infix (hpart hreferred)
  rw [finish_of_splitCommandLine hagrees, List.length_cons, List.length_map] at hlength
  omega

/-- **When approving runs what running would.** With given credentials it does, for a call whose
references stay in their command or argument, if and only if the call is harmless. With all
credentials it does if and only if there is nothing to propose, or the command is a word and the
line that is proposed has no references. -/
theorem approving_runs_iff (call : LlmToolCall) :
    (AlignedCall call → ∀ credentials,
      (Agrees credentials call ↔ commandCandidates call = [] ∨ Harmless credentials call)) ∧
    ((∀ credentials, Agrees credentials call) ↔ commandCandidates call = [] ∨
      IsWord (commandOf call) ∧ ∀ line ∈ commandCandidates call, names line = []) := by
  refine ⟨fun haligned credentials => haligned.agrees_iff credentials, ?_⟩
  obtain hnil | hline := commandCandidates_eq call
  · exact iff_of_true (fun _ => agrees_of_nil hnil) (.inl hnil)
  have hne : commandCandidates call ≠ [] := by simp [hline]
  rw [or_iff_right hne]
  constructor
  · intro hall
    -- With a reference, some credentials tell the two apart.
    have hnames : ∀ line ∈ commandCandidates call, names line = [] := by
      rw [hline, List.forall_mem_singleton, List.eq_nil_iff_forall_not_mem]
      intro name hname
      obtain ⟨credentials, hdisagree⟩ := not_agrees_of_names hline hname
      exact hdisagree (hall credentials)
    rw [hline, List.forall_mem_singleton] at hnames
    rw [hline, List.forall_mem_singleton]
    exact ⟨(agrees_iff_of_uncut hline (uncut_of_names hnames)).mp (hall []), hnames⟩
  · rintro ⟨hword, hnames⟩ credentials
    rw [hline, List.forall_mem_singleton] at hnames
    exact (agrees_iff_of_uncut hline (uncut_of_names hnames)).mpr hword

/-- One argument with a reference, and a value with a quote: the word is never closed right. -/
def quotedValue : LlmToolCall where
  id := []
  name := Mission.commandTool
  arguments := .object [("command", .string "echo"),
    ("args", .array [.string "\x7b\x7bcredential:token\x7d\x7d"])]

theorem approving_runs_split :
    ¬ ∀ credentials call, Agrees credentials call := by
  intro h
  have hline : "echo \x27\x7b\x7bcredential:token\x7d\x7d\x27".toList ∈
      commandCandidates quotedValue := by decide +kernel
  have hcommand : expand [("token".toList, "a\x27 b\x27".toList)] (commandOf quotedValue) =
      .ok "echo".toList := by decide +kernel
  have hagrees := h [("token".toList, "a\x27 b\x27".toList)] quotedValue _ hline ["echo".toList]
    fun command heq => by
      rw [hcommand] at heq
      exact List.mem_singleton.mpr (Except.ok.inj heq).symm
  revert hagrees
  decide +kernel

end Goble.Commands
