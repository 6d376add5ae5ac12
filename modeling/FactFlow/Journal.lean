import FactFlow.Error

/-!
# Journals

A run reports its progress as a sequence of events.  `Traced α` is a computation that has reported
some events and ended with a value or a failure; the events of a failed run are kept.  Sequencing
appends events and stops at the first failure, so the outcome of a run never depends on what was
reported (`Traced.result_bind`).
-/

namespace FactFlow

/-- How important an event is. -/
inductive Level where
  /-- Every pass. -/
  | trace
  /-- Every solved analysis. -/
  | debug
  /-- Every analyzed function. -/
  | info
  /-- Work that was left out. -/
  | warn
  deriving DecidableEq, Repr

/-- The printed name of a level. -/
def Level.text : Level → String
  | .trace => "TRACE"
  | .debug => "DEBUG"
  | .info => "INFO"
  | .warn => "WARN"

/-- A report of progress. -/
structure Event where
  /-- Its importance. -/
  level : Level
  /-- Its wording. -/
  message : String
  deriving DecidableEq, Repr

/-- The events of a computation and its outcome. -/
structure Traced (α : Type) where
  /-- What was reported, in order. -/
  events : List Event
  /-- How it ended. -/
  result : Except Failure α

namespace Traced

variable {α β : Type}

/-- A value, with nothing reported. -/
protected def pure (a : α) : Traced α := ⟨[], .ok a⟩

/-- Go on with the value of `x`; a failure of `x` ends the whole. -/
protected def bind (x : Traced α) (k : α → Traced β) : Traced β :=
  match x.result with
  | .ok a =>
    let y := k a
    ⟨x.events ++ y.events, y.result⟩
  | .error e => ⟨x.events, .error e⟩

instance : Monad Traced where
  pure := Traced.pure
  bind := Traced.bind

/-- Report an event. -/
def emit (level : Level) (message : String) : Traced Unit := ⟨[⟨level, message⟩], .ok ()⟩

/-- End with a failure. -/
def fail (e : Failure) : Traced α := ⟨[], .error e⟩

/-- A computation that may refuse its input. -/
def ofError (x : Except Error α) : Traced α := ⟨[], x.mapError .refused⟩

/-- A computation that may meet a fault. -/
def ofFault (x : Except Fault α) : Traced α := ⟨[], x.mapError .fault⟩

@[simp] theorem result_pure (a : α) : (pure a : Traced α).result = .ok a := rfl

@[simp] theorem result_bind (x : Traced α) (k : α → Traced β) :
    (x >>= k).result = x.result >>= fun a => (k a).result := by
  change (Traced.bind x k).result = _
  unfold Traced.bind
  cases x.result <;> rfl

@[simp] theorem result_emit (level : Level) (message : String) :
    (emit level message).result = .ok () := rfl

@[simp] theorem result_fail (e : Failure) : (fail e : Traced α).result = .error e := rfl

@[simp] theorem result_ofError (x : Except Error α) :
    (ofError x).result = x.mapError .refused := rfl

@[simp] theorem result_ofFault (x : Except Fault α) :
    (ofFault x).result = x.mapError .fault := rfl

instance : LawfulMonad Traced := by
  refine LawfulMonad.mk' Traced ?_ ?_ ?_
  · rintro α ⟨events, result⟩
    change Traced.bind ⟨events, result⟩ (fun a => Traced.pure (id a)) = _
    cases result <;> simp [Traced.bind, Traced.pure]
  · intro α β a k
    change Traced.bind (Traced.pure a) k = _
    simp [Traced.bind, Traced.pure]
  · rintro α β γ ⟨events, result⟩ k l
    change Traced.bind (Traced.bind ⟨events, result⟩ k) l =
      Traced.bind ⟨events, result⟩ fun a => Traced.bind (k a) l
    cases result with
    | error e => rfl
    | ok a =>
      simp only [Traced.bind]
      cases (k a).result <;> simp

end Traced

end FactFlow
