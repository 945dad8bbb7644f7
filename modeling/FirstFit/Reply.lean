/-
# Replies and log entries

A call on a stateful object leaves an answer, a state and the events it
logged. The state is given for every answer, so that "an error changes
nothing" is a statement about the call and not a matter of form.

Key definitions: `Reply`, `LogEntry`.
-/

namespace FirstFit

/-- The answer to a call, the state after it and the events it logged, oldest
first. -/
structure Reply (ε σ τ α : Type) where
  answer : Except ε α
  state : σ
  log : List τ

namespace Reply

variable {ε σ ρ τ α β : Type}

/-- The same reply with its answer, if it is no error, seen through `f`. -/
def map (f : α → β) (r : Reply ε σ τ α) : Reply ε σ τ β := ⟨r.answer.map f, r.state, r.log⟩

/-- The same reply with its state seen through `f`. -/
def onState (f : σ → ρ) (r : Reply ε σ τ α) : Reply ε ρ τ α := ⟨r.answer, f r.state, r.log⟩

/-- An answer that is an error when it is seen through `f` was one before. -/
theorem error_of_map {f : α → β} {x : Except ε α} {e : ε} (h : x.map f = .error e) :
    x = .error e := by
  cases x with
  | error e' => exact congrArg _ (Except.error.inj h)
  | ok a => exact nomatch h

theorem ok_of_map {f : α → β} {x : Except ε α} {b : β} (h : x.map f = .ok b) :
    ∃ a, x = .ok a ∧ f a = b := by
  cases x with
  | error e => exact nomatch h
  | ok a => exact ⟨a, rfl, Except.ok.inj h⟩

end Reply

/-- The weight of a log entry. -/
inductive LogLevel where
  | debug
  | info
  | warn
  deriving DecidableEq, Repr

def LogLevel.text : LogLevel → String
  | .debug => "debug"
  | .info => "info"
  | .warn => "warn"

/-- A log entry as text: fields keep the order in which they were given. -/
structure LogEntry where
  level : LogLevel
  message : String
  fields : List (String × String)
  deriving DecidableEq, Repr

end FirstFit
