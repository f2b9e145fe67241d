import PieceKeeper.Proofs.Run.Basic

/-!
# Calls that follow a rule

A rule says which requests a call may make after what happened to it so far.  Whether a call
follows a rule, and what then holds when it ends, is a matter of the call alone: every answer to
every request is considered, whatever other calls do in the meantime.  The lemmas go along the
combinators that operations are built from.
-/

namespace PieceKeeper

variable {α β : Type} {rule : History → Request → Prop} {history : History}

namespace Call

/-- Every request that a call makes obeys a rule, and its answer satisfies a postcondition. -/
def Follows (rule : History → Request → Prop) (post : History → α → Prop) :
    Call α → History → Prop
  | .done answer, history => post history answer
  | .ask request next, history =>
    rule history request ∧
      ∀ answer, Follows rule post (next answer) (history.exchange request answer)

theorem Follows.mono {post post' : History → α → Prop} {call : Call α}
    (h : call.Follows rule post history) (hpost : ∀ history answer, post history answer →
      post' history answer) : call.Follows rule post' history := by
  induction call generalizing history with
  | done answer => exact hpost _ _ h
  | ask request next ih => exact ⟨h.1, fun answer ↦ ih answer (h.2 answer)⟩

/-- Nothing that happened to a call is ever forgotten. -/
theorem Follows.grows {post : History → α → Prop} {call : Call α}
    (h : call.Follows rule post history) :
    call.Follows rule (fun later answer ↦ history ⊆ later ∧ post later answer) history := by
  induction call generalizing history with
  | done answer => exact ⟨List.Subset.refl _, h⟩
  | ask request next ih =>
    refine ⟨h.1, fun answer ↦ (ih answer (h.2 answer)).mono fun later _ hlater ↦ ⟨?_, hlater.2⟩⟩
    exact List.Subset.trans (history.subset_exchange request answer) hlater.1

theorem Follows.bind {post : History → β → Prop} {call : Call α} {next : α → Call β}
    (h : call.Follows rule (fun history answer ↦ (next answer).Follows rule post history) history) :
    (call.bind next).Follows rule post history := by
  induction call generalizing history with
  | done answer => exact h
  | ask request rest ih => exact ⟨h.1, fun answer ↦ ih answer (h.2 answer)⟩

end Call

namespace Attempt

variable {good : History → α → Prop} {bad : History → Fault → Prop}

/-- What is to hold of an outcome: `good` of an answer, `bad` of a fault. -/
def Ends (good : History → α → Prop) (bad : History → Fault → Prop) (history : History) :
    Outcome α → Prop
  | .ok answer => good history answer
  | .error fault => bad history fault

/-- Every request of an attempt obeys a rule; its answer satisfies `good`, and its fault `bad`. -/
def Follows (rule : History → Request → Prop) (good : History → α → Prop)
    (bad : History → Fault → Prop) (attempt : Attempt α) (history : History) : Prop :=
  Call.Follows rule (Ends good bad) attempt.run history

theorem Follows.ends {post : History → Outcome α → Prop} {attempt : Attempt α}
    (h : attempt.Follows rule (fun history answer ↦ post history (.ok answer))
      (fun history fault ↦ post history (.error fault)) history) :
    Call.Follows rule post attempt.run history := by
  refine Call.Follows.mono h fun history outcome hend ↦ ?_
  cases outcome with
  | ok answer => exact hend
  | error fault => exact hend

theorem follows_pure {answer : α} (h : good history answer) :
    (pure answer : Attempt α).Follows rule good bad history := h

theorem follows_refuse {cause : Cause} (h : bad history { cause }) :
    (refuse cause : Attempt α).Follows rule good bad history := h

theorem follows_ofOutcome {outcome : Outcome α} (hgood : ∀ answer, outcome = .ok answer →
      good history answer) (hbad : ∀ fault, outcome = .error fault → bad history fault) :
    (ofOutcome outcome).Follows rule good bad history := by
  cases outcome with
  | ok answer => exact hgood answer rfl
  | error fault => exact hbad fault rfl

theorem follows_ofFile {result : Except FileFailure α} (hgood : ∀ answer, result = .ok answer →
      good history answer) (hbad : ∀ failure : FileFailure, result = .error failure →
        bad history { cause := .io failure.message }) :
    (ofFile result).Follows rule good bad history := by
  cases result with
  | ok answer => exact hgood answer rfl
  | error failure => exact hbad failure rfl

theorem follows_ask {request : Request} {good : History → request.Answer → Prop}
    (hrule : rule history request)
    (hgood : ∀ answer, good (history.exchange request answer) answer) :
    (ask request).Follows rule good bad history :=
  ⟨hrule, hgood⟩

theorem follows_shelf {command : Shelf.Command} {good : History → command.Answer → Prop}
    (hrule : rule history (.shelf command))
    (hgood : ∀ answer, good (history.exchange (.shelf command) answer) answer) :
    (shelf command).Follows rule good bad history :=
  ⟨hrule, hgood⟩

theorem follows_table {command : Table.Command} {good : History → command.Answer → Prop}
    (hrule : rule history (.table command))
    (hgood : ∀ answer, good (history.exchange (.table command) (.ok answer)) answer)
    (hbad : ∀ fault, bad (history.exchange (.table command) (.error fault)) fault) :
    (table command).Follows rule good bad history := by
  refine ⟨hrule, ?_⟩
  intro answer
  cases answer with
  | ok answer => exact hgood answer
  | error fault => exact hbad fault

theorem Follows.bind {good : History → β → Prop} {attempt : Attempt α} {next : α → Attempt β}
    (h : attempt.Follows rule (fun history answer ↦ (next answer).Follows rule good bad history)
      bad history) :
    (attempt >>= next).Follows rule good bad history := by
  refine Call.Follows.bind (Call.Follows.mono h fun history outcome hend ↦ ?_)
  cases outcome with
  | ok answer => exact hend
  | error fault => exact hend

theorem Follows.mono {good' : History → α → Prop} {bad' : History → Fault → Prop}
    {attempt : Attempt α} (h : attempt.Follows rule good bad history)
    (hgood : ∀ history answer, good history answer → good' history answer)
    (hbad : ∀ history fault, bad history fault → bad' history fault) :
    attempt.Follows rule good' bad' history := by
  refine Call.Follows.mono h fun history outcome hend ↦ ?_
  cases outcome with
  | ok answer => exact hgood _ _ hend
  | error fault => exact hbad _ _ hend

theorem Follows.grows {attempt : Attempt α} (h : attempt.Follows rule good bad history) :
    attempt.Follows rule (fun later answer ↦ history ⊆ later ∧ good later answer)
      (fun later fault ↦ history ⊆ later ∧ bad later fault) history := by
  refine Call.Follows.mono (Call.Follows.grows h) fun later outcome hend ↦ ?_
  cases outcome with
  | ok answer => exact hend
  | error fault => exact hend

/-- What holds of every later history holds when an attempt ends. -/
theorem Follows.weaken {attempt : Attempt α}
    (h : attempt.Follows rule (fun _ _ ↦ True) (fun _ _ ↦ True) history)
    (hgood : ∀ later answer, history ⊆ later → good later answer)
    (hbad : ∀ later fault, history ⊆ later → bad later fault) :
    attempt.Follows rule good bad history :=
  Follows.mono h.grows (fun _ _ hend ↦ hgood _ _ hend.1) fun _ _ hend ↦ hbad _ _ hend.1

theorem Follows.within {attempt : Attempt α} {operation piece : String}
    (h : attempt.Follows rule good (fun history fault ↦ bad history (fault.within operation piece))
      history) :
    (attempt.within operation piece).Follows rule good bad history := by
  refine Call.Follows.bind (Call.Follows.mono h fun history outcome hend ↦ ?_)
  cases outcome with
  | ok answer => exact hend
  | error fault => exact hend

/-- A lock is asked for first and given back last. -/
theorem Follows.holding {attempt : Attempt α} {key : LockKey}
    (hacquire : rule history (.acquire key)) (hrelease : ∀ history, rule history (.release key))
    (h : attempt.Follows rule (fun history ↦ good (history.exchange (.release key) ()))
      (fun history ↦ bad (history.exchange (.release key) ()))
      (history.exchange (.acquire key) ())) :
    (attempt.holding key).Follows rule good bad history := by
  refine ⟨hacquire, ?_⟩
  intro _
  change Call.Follows rule _ (attempt.run.bind fun outcome ↦
    .ask (.release key) fun _ ↦ .done outcome) _
  refine Call.Follows.bind (Call.Follows.mono h fun history outcome hend ↦ ?_)
  refine ⟨hrelease _, ?_⟩
  intro _
  cases outcome with
  | ok answer => exact hend
  | error fault => exact hend

/-- A call that cannot fail, as an attempt. -/
theorem follows_lift {call : Call α} (h : call.Follows rule good history) :
    Follows rule good bad (ExceptT.lift call) history :=
  Call.Follows.bind (Call.Follows.mono h fun _ _ hend ↦ hend)

end Attempt

end PieceKeeper
