import Goble.Lib.Occurrences
import Goble.Lib.Text
import Mathlib.Algebra.Order.Ring.Int

/-!
# Cron expressions

A schedule is stored as the text its author wrote, with five fields or with the seconds in front.
The `cron` crate wants the seconds: `normalizeCron` puts them there, `parseCron` and `nextAfter`
go through it. The crate itself is a parameter (`CronCrate`), and all that is assumed of it is that
it lists the occurrences of a schedule in increasing order, strictly after the given time
(`CronCrate.Lawful`).
-/

namespace Goble.Cron

/-- A point in time, in nanoseconds. -/
abbrev DateTime := Int

structure CronCrate where
  Schedule : Type
  parse : List Char → Except (List Char) Schedule
  /-- `schedule.after(&t).next()` -/
  after : Schedule → DateTime → Option DateTime
  /-- `{:?}` of a text, whose escapes come from the Unicode tables. -/
  debug : List Char → List Char

/-- What starts an agent or a workflow. -/
inductive Trigger where
  | manual
  | cron (expression : List Char)
  | http (path : List Char)
  | heartbeat (intervalSeconds : Nat)
deriving DecidableEq, Repr

/-- The errors of the workflow crate that a schedule can cause. -/
inductive WorkflowError where
  | cron (message : List Char)
deriving DecidableEq, Repr

def WorkflowError.toString : WorkflowError → List Char
  | .cron message => "invalid cron expression: ".toList ++ message

namespace CronCrate

variable (crate : CronCrate)

/-- The expression the crate understands: five fields get a leading `0`, six and seven are used as
they are written. -/
def normalizeCron (expr : List Char) : Except WorkflowError (List Char) :=
  let trimmed := Text.trim expr
  let fields := Text.splitWhitespace trimmed
  match fields.length with
  | 5 => .ok ("0 ".toList ++ [' '].intercalate fields)
  | 6 | 7 => .ok ([' '].intercalate fields)
  | n => .error (.cron (crate.debug trimmed ++ " has ".toList ++ Nat.toDigits 10 n ++
      (" fields; expected 5 (minute hour day month weekday), 6 (with seconds) or 7 " ++
        "(with a year)").toList))

def parseCron (expr : List Char) : Except WorkflowError crate.Schedule :=
  match crate.normalizeCron expr with
  | .error error => .error error
  | .ok normalized =>
    match crate.parse normalized with
    | .error error => .error (.cron (crate.debug expr ++ ": ".toList ++ error))
    | .ok schedule => .ok schedule

/-- Whether this build can schedule `expr`. -/
def validateCron (expr : List Char) : Except WorkflowError Unit :=
  (crate.parseCron expr).map fun _ => ()

/-- The first occurrence strictly after `at'`, `none` when the schedule has no further one. -/
def nextAfter (expr : List Char) (at' : DateTime) : Except WorkflowError (Option DateTime) :=
  (crate.parseCron expr).map fun schedule => crate.after schedule at'

variable {crate}

def Occurs (schedule : crate.Schedule) (u : DateTime) : Prop :=
  ∃ t, crate.after schedule t = some u

variable (crate) in
/-- The crate lists the occurrences in increasing order, strictly after the given time. -/
def Lawful : Prop :=
  ∀ (schedule : crate.Schedule) (t : DateTime), IsNext (Occurs schedule) t (crate.after schedule t)

theorem nextAfter_of_parse {expr : List Char} {schedule : crate.Schedule}
    (h : crate.parseCron expr = .ok schedule) (at' : DateTime) :
    crate.nextAfter expr at' = .ok (crate.after schedule at') := by
  rw [nextAfter, h]
  rfl

end CronCrate

/-- The crate as it behaves on the expressions for every five and every ten minutes. -/
def everyFew : CronCrate where
  Schedule := {seconds : Int // 0 < seconds}
  parse text :=
    if text = "0 */5 * * * *".toList then .ok ⟨300, by decide⟩
    else if text = "0 */10 * * * *".toList then .ok ⟨600, by decide⟩
    else .error "Invalid cron expression".toList
  after seconds t := some ((t / seconds.1 + 1) * seconds.1)
  debug text := '"' :: text ++ ['"']

/-- The multiples of a period are listed in order. -/
theorem everyFew_lawful : everyFew.Lawful := by
  rintro ⟨seconds, hpos⟩ (t : Int)
  have hmod : t % seconds + seconds * (t / seconds) = t := Int.emod_add_mul_ediv t seconds
  have hlt : t % seconds < seconds := Int.emod_lt_of_pos t hpos
  have hnext : (t / seconds + 1) * seconds = seconds * (t / seconds) + seconds := by
    rw [add_mul, one_mul, mul_comm]
  refine ⟨⟨⟨t, rfl⟩, ?_⟩, ?_⟩
  · show t < (t / seconds + 1) * seconds
    omega
  · rintro v ⟨⟨(t' : Int), ht'⟩, hafter⟩
    obtain rfl : (t' / seconds + 1) * seconds = v := Option.some.inj ht'
    -- a later multiple has a quotient at least one more
    have hquot : t / seconds < t' / seconds + 1 := Int.ediv_lt_of_lt_mul hpos hafter
    have hle : t / seconds + 1 ≤ t' / seconds + 1 := Int.add_one_le_of_lt hquot
    exact Int.mul_le_mul_of_nonneg_right hle hpos.le

end Goble.Cron
