/-!
# Transducers

A step function that answers each input with outputs, run over a list of inputs. Running it
over a list cut into chunks, one run after the other, is running it over the whole list: the
state carries across the cuts (`runChunks_eq`).
-/

namespace Goble.Transducer

variable {State Input Output : Type} (step : State → Input → State × List Output)

def run : State → List Input → State × List Output
  | s, [] => (s, [])
  | s, i :: is =>
    let (s', out) := step s i
    let (s'', outs) := run s' is
    (s'', out ++ outs)

def runChunks : State → List (List Input) → State × List Output
  | s, [] => (s, [])
  | s, chunk :: chunks =>
    let (s', out) := run step s chunk
    let (s'', outs) := runChunks s' chunks
    (s'', out ++ outs)

@[simp]
theorem run_nil (s : State) : run step s [] = (s, []) := rfl

theorem run_cons (s : State) (i : Input) (is : List Input) :
    run step s (i :: is) = ((run step (step s i).1 is).1,
      (step s i).2 ++ (run step (step s i).1 is).2) := rfl

theorem run_append (s : State) (is js : List Input) :
    run step s (is ++ js) = ((run step (run step s is).1 js).1,
      (run step s is).2 ++ (run step (run step s is).1 js).2) := by
  induction is generalizing s with
  | nil => rfl
  | cons i is ih => simp only [List.cons_append, run_cons, ih, List.append_assoc]

theorem runChunks_cons (s : State) (chunk : List Input) (chunks : List (List Input)) :
    runChunks step s (chunk :: chunks) = ((runChunks step (run step s chunk).1 chunks).1,
      (run step s chunk).2 ++ (runChunks step (run step s chunk).1 chunks).2) := rfl

theorem runChunks_eq (s : State) (chunks : List (List Input)) :
    runChunks step s chunks = run step s chunks.flatten := by
  induction chunks generalizing s with
  | nil => rfl
  | cons chunk chunks ih => rw [runChunks_cons, List.flatten_cons, run_append, ih]

end Goble.Transducer
