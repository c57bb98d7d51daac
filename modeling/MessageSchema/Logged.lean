import MessageSchema.Event

/-! # Computations with a log

`Logged α` is a value together with the events emitted on the way to it, and `Conversion α` is a
logged computation that may fail; a failure keeps the events emitted before it.  Sequencing
concatenates the logs (`Logged.events_bind`) and passes the value on (`Logged.value_bind`). -/

namespace MessageSchema

/-- A value and the events emitted on the way to it, oldest first. -/
structure Logged (α : Type) where
  value : α
  events : List Event := []
deriving DecidableEq, Repr

namespace Logged

variable {α β : Type}

instance : Monad Logged where
  pure a := ⟨a, []⟩
  bind x f :=
    let y := f x.value
    ⟨y.value, x.events ++ y.events⟩

@[simp] theorem value_pure (a : α) : (pure a : Logged α).value = a := rfl

@[simp] theorem events_pure (a : α) : (pure a : Logged α).events = [] := rfl

@[simp] theorem value_bind (x : Logged α) (f : α → Logged β) :
    (x >>= f).value = (f x.value).value := rfl

@[simp] theorem events_bind (x : Logged α) (f : α → Logged β) :
    (x >>= f).events = x.events ++ (f x.value).events := rfl

instance : LawfulMonad Logged :=
  LawfulMonad.mk' Logged
    (by intro α x; cases x; simp [Functor.map])
    (by intro α β a f; rfl)
    (by intro α β γ x f g; simp [Bind.bind])

@[simp] theorem value_map (f : α → β) (x : Logged α) : (f <$> x).value = f x.value := rfl

@[simp] theorem events_map (f : α → β) (x : Logged α) : (f <$> x).events = x.events :=
  List.append_nil _

/-- Emit one event. -/
def emit (e : Event) : Logged Unit := ⟨(), [e]⟩

@[simp] theorem events_emit (e : Event) : (emit e).events = [e] := rfl

/-- The same computation, its value paired with the fact that it is the value. -/
def attach (x : Logged α) : Logged { a : α // x.value = a } := ⟨⟨x.value, rfl⟩, x.events⟩

@[simp] theorem value_attach (x : Logged α) : x.attach.value = ⟨x.value, rfl⟩ := rfl

@[simp] theorem events_attach (x : Logged α) : x.attach.events = x.events := rfl

end Logged

/-- A logged computation that may fail. -/
abbrev Conversion (α : Type) := ExceptT ConversionError Logged α

namespace Conversion

variable {α β : Type}

/-- The value of a conversion, or the error with which it failed. -/
def outcome (x : Conversion α) : Except ConversionError α := x.run.value

/-- The events that a conversion emits. -/
def events (x : Conversion α) : List Event := x.run.events

/-- Run `x`, and if it fails emit the event `e` makes of the error. -/
def onError (x : Conversion α) (e : ConversionError → Event) : Conversion α :=
  ExceptT.mk do
    let result ← x.run
    match result with
    | .ok a => pure (.ok a)
    | .error cause =>
        Logged.emit (e cause)
        pure (.error cause)

@[simp] theorem outcome_pure (a : α) : outcome (pure a : Conversion α) = .ok a := rfl

@[simp] theorem events_pure (a : α) : events (pure a : Conversion α) = [] := rfl

@[simp] theorem outcome_throw (e : ConversionError) :
    outcome (throw e : Conversion α) = .error e := rfl

@[simp] theorem events_throw (e : ConversionError) : events (throw e : Conversion α) = [] := rfl

@[simp] theorem outcome_lift (x : Logged α) : outcome (ExceptT.lift x) = .ok x.value := rfl

@[simp] theorem events_lift (x : Logged α) : events (ExceptT.lift x) = x.events := by
  simp [events, ExceptT.lift]

theorem outcome_bind (x : Conversion α) (f : α → Conversion β) :
    outcome (x >>= f) = x.outcome >>= fun a => (f a).outcome := by
  rw [outcome, ExceptT.run_bind, Logged.value_bind]
  cases h : x.run.value <;> simp [outcome, h, bind, Except.bind, pure]

theorem events_bind (x : Conversion α) (f : α → Conversion β) :
    events (x >>= f) =
      x.events ++ (match x.outcome with | .ok a => (f a).events | .error _ => []) := by
  rw [events, ExceptT.run_bind, Logged.events_bind]
  cases h : x.run.value <;> simp [events, outcome, h]

@[simp] theorem outcome_onError (x : Conversion α) (e : ConversionError → Event) :
    (x.onError e).outcome = x.outcome := by
  cases h : x.run.value <;> simp [outcome, onError, ExceptT.run, ExceptT.mk] at h ⊢ <;> simp [h]

theorem events_onError (x : Conversion α) (e : ConversionError → Event) :
    (x.onError e).events =
      x.events ++ (match x.outcome with | .ok _ => [] | .error cause => [e cause]) := by
  cases h : x.run.value <;>
    simp [outcome, events, onError, ExceptT.run, ExceptT.mk] at h ⊢ <;> simp [h]

end Conversion

end MessageSchema
