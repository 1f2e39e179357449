namespace Tftp.Transducer

variable {σ α β : Type}

/-- One symbol read, with the output so far held in reverse. -/
def advance (step : σ → α → σ × List β) (acc : σ × List β) (a : α) : σ × List β :=
  let (s, written) := step acc.1 a
  (s, written.reverse ++ acc.2)

def run (step : σ → α → σ × List β) (s : σ) (input : List α) : σ × List β :=
  let (last, written) := input.foldl (advance step) (s, [])
  (last, written.reverse)

theorem foldl_advance (step : σ → α → σ × List β) (input : List α) (s : σ) (out : List β) :
    input.foldl (advance step) (s, out) =
      ((input.foldl (advance step) (s, [])).1,
        (input.foldl (advance step) (s, [])).2 ++ out) := by
  induction input generalizing s out with
  | nil => simp
  | cons a input ih =>
    simp only [List.foldl_cons, advance]
    rw [ih, ih (step s a).1 ((step s a).2.reverse ++ [])]
    simp

@[simp] theorem run_nil (step : σ → α → σ × List β) (s : σ) : run step s [] = (s, []) := rfl

@[simp] theorem run_cons (step : σ → α → σ × List β) (s : σ) (a : α) (input : List α) :
    run step s (a :: input) =
      ((run step (step s a).1 input).1, (step s a).2 ++ (run step (step s a).1 input).2) := by
  simp only [run, List.foldl_cons, advance]
  rw [foldl_advance]
  simp

theorem run_append (step : σ → α → σ × List β) (s : σ) (left right : List α) :
    run step s (left ++ right) =
      ((run step (run step s left).1 right).1,
        (run step s left).2 ++ (run step (run step s left).1 right).2) := by
  induction left generalizing s with
  | nil => simp
  | cons a left ih => simp [ih, List.append_assoc]

end Tftp.Transducer
