import PieceKeeper.Call

/-!
# Laws of calls

Going on with the answer of an operation is associative, and an operation that has its answer adds nothing.  So
what an attempt does at its end, without asking for anything, is a change of its outcome.
-/

namespace PieceKeeper

variable {α β γ : Type}

namespace Call

@[simp] theorem bind_done (call : Call α) : call.bind done = call := by
  induction call with
  | done answer => rfl
  | ask request next ih => exact congrArg (ask request) (funext ih)

theorem bind_assoc (call : Call α) (next : α → Call β) (last : β → Call γ) :
    (call.bind next).bind last = call.bind fun answer ↦ (next answer).bind last := by
  induction call with
  | done answer => rfl
  | ask request rest ih => exact congrArg (ask request) (funext ih)

/-- Changes the answer of an operation. -/
def mapAnswer (f : α → β) (call : Call α) : Call β := call.bind fun answer ↦ done (f answer)

theorem mapAnswer_bind (f : β → γ) (call : Call α) (next : α → Call β) :
    (call.bind next).mapAnswer f = call.bind fun answer ↦ (next answer).mapAnswer f :=
  call.bind_assoc next _

theorem mapAnswer_mapAnswer (f : α → β) (g : β → γ) (call : Call α) :
    (call.mapAnswer f).mapAnswer g = call.mapAnswer fun answer ↦ g (f answer) :=
  mapAnswer_bind g call _

end Call

namespace Attempt

/-- A fault that is named is a fault that is changed. -/
theorem run_within (attempt : Attempt α) (operation piece : String) :
    (attempt.within operation piece).run = attempt.run.mapAnswer (·.mapError (·.within operation piece)) := by
  refine congrArg (Call.bind attempt.run) (funext fun outcome ↦ ?_)
  cases outcome with
  | ok _ => rfl
  | error _ => rfl

/-- A lock is kept until the end, so what is made of an outcome can be made of it behind the lock. -/
theorem run_holding_mapAnswer (attempt : Attempt α) (key : LockKey) (f : Outcome α → Outcome β) :
    (holding key (ExceptT.mk (attempt.run.mapAnswer f))).run = (holding key attempt).run.mapAnswer f := by
  refine congrArg (Call.ask (.acquire key)) (funext fun _ ↦ ?_)
  change (attempt.run.mapAnswer f).bind _ = (attempt.run.bind _).mapAnswer f
  rw [Call.mapAnswer_bind, Call.mapAnswer, Call.bind_assoc]
  rfl

theorem run_map (attempt : Attempt α) (f : α → β) :
    (attempt >>= fun answer ↦ pure (f answer)).run = attempt.run.mapAnswer (·.map f) := by
  refine congrArg (Call.bind attempt.run) (funext fun outcome ↦ ?_)
  cases outcome with
  | ok _ => rfl
  | error _ => rfl

end Attempt

end PieceKeeper
