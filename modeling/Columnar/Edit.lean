/-
Edits: changes made one after the other to something that is kept.

An edit may stop without an answer, and what it changed up to then stays
changed; a refusal undoes nothing by itself. `Edit.outcome` forgets what an edit
without an answer leaves, for where that is given up anyway.
-/
import Columnar.Error

namespace Columnar

/-- Work on a state, which may stop without an answer. -/
abbrev Edit (σ : Type) := ExceptT Fault (StateM σ)

namespace Edit

variable {σ τ α : Type}

/-- Checks the state. -/
def check (require : σ → Outcome Unit) : Edit σ Unit := do
  (require (← get) : Outcome Unit)

/-- Puts what comes of the state in its place, if anything does. -/
def step (f : σ → Outcome σ) : Edit σ Unit := do
  set (← (f (← get) : Outcome σ))

/-- An edit of a part of the state. -/
def part (read : σ → τ) (write : σ → τ → σ) (e : Edit τ α) : Edit σ α :=
  ExceptT.mk fun s =>
    match e.run (read s) with
    | (answer, t) => (answer, write s t)

/-- The same edit a number of times. -/
def times (e : Edit σ Unit) : Nat → Edit σ Unit
  | 0 => pure ()
  | count + 1 => do
    e
    e.times count

/-- What the edit leaves if it has an answer, and why not if it has none. -/
def outcome (e : Edit σ Unit) (s : σ) : Outcome σ :=
  match e.run s with
  | (.ok (), s) => .ok s
  | (.error fault, _) => .error fault

end Edit

end Columnar
