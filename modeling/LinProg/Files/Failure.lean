import LinProg.Files.Session
import LinProg.Json.Value
import LinProg.Solver
import LinProg.Text.Quoted

/-!
# Failures

A `Failure` is the chain of messages that a user sees, from what was being done down to the cause.
An `Attempt` is a session that ends in a result, in a failure, or in a breakdown.
-/

namespace LinProg

/-- The cause at the end of a chain of messages. -/
inductive Cause where
  /-- A text is not JSON, or not of the form that is asked for. -/
  | json
  | system (e : SystemError)
  | input (e : InputError Float)
  | applicability (e : ApplicabilityError Float)
  | solver (e : SolverError Float)
  | plain (text : String)
  deriving Repr

def Cause.message : Cause → String
  | json => "malformed JSON"
  | system e => e.message
  | input e => e.message
  | applicability e => e.message
  | solver e => e.message
  | plain text => text

/-- Why something failed, from the outermost message to the cause. -/
structure Failure where
  /-- What was being done, the outermost first. -/
  contexts : List String := []
  cause : Cause
  deriving Repr

namespace Failure

/-- The messages, the outermost first. -/
def messages (f : Failure) : List String := f.contexts ++ [f.cause.message]

/-- What was being done to a file. -/
def doing : FileStage → String
  | .opening => "failed to open "
  | .reading => "failed to read "
  | .makingParent => "failed to create parent directory "
  | .creating => "failed to create "
  | .writing => "failed to write "

/-- The failure of a file operation. -/
def ofFile (e : FileError) : Failure := ⟨[doing e.stage ++ Text.quoted e.path], .system e.cause⟩

end Failure

/-- A session that can fail. -/
def Attempt (β : Type) : Type := Session (Outcome Failure β)

namespace Attempt

variable {β γ : Type}

def lift (x : Session β) : Attempt β := x.bind fun b => .done (.ok b)

/-- The session that an attempt is. -/
def toSession (x : Attempt β) : Session (Outcome Failure β) := x

def of (x : Outcome Failure β) : Attempt β := Session.done x

/-- One attempt after the other, as long as none fails. -/
protected def bind (x : Attempt β) (f : β → Attempt γ) : Attempt γ :=
  Session.bind x fun
    | .ok b => f b
    | .error e => .done (.error e)
    | .fault => .done .fault

instance : Monad Attempt where
  pure b := of (.ok b)
  bind := Attempt.bind

def fail (f : Failure) : Attempt β := of (.error f)

def file (x : Session (Except FileError β)) : Attempt β :=
  x.bind fun r => .done (Outcome.ofExcept (r.mapError Failure.ofFile))

end Attempt

end LinProg
