import PieceKeeper.Proofs.Locks.Safety
import PieceKeeper.Proofs.Run.Blank
import PieceKeeper.Proofs.Schedule.Punctual

/-!
# The discipline of locks

However tasks interleave, locks exclude, hinder nobody who wants another key, and are forgotten only when
nobody wants them.  And since they are given in the order in which they are asked for, it is known when each
task gets the lock that it wants.
-/

namespace PieceKeeper

open Locks

/-- **Locks exclude and keep order.**  In whatever steps tasks look locks up, ask for them, get them, give them
back and give up, a key has one guard at most, no lock is forgotten that somebody refers to, a lock is there for
whoever asks when nobody else is at it, and after a lookup there are locks for the keys that somebody wants and
for no other; and what is done to the locks at once is done in such steps.  Tasks that come at moments, and keep
their locks for some time, each get the lock when they have come and the last before them on the key has given
it back. -/
theorem locks_disciplined :
    (∀ (κ : Type) [BEq κ] [LawfulBEq κ] (s : Lobby κ), s.Reachable →
      s.Safe ∧ (s.Settled → s.Mirrors)) ∧
    ∀ (stint : Nat → Stint) (total : Nat) (world : World) (room : Nat), 6 * total ≤ room →
      ∃ times, Stint.Timed stint total times ∧
        (Engine.runAll room { world := { world with clock := 0, locks := {} } }
          ((List.range total).map fun i ↦ (stint i).call)).1 =
          (List.range total).map fun i ↦ some (times i) := by
  refine ⟨fun κ _ _ s hreachable ↦ ?_, fun stint total world room hroom ↦ ?_⟩
  · obtain ⟨seat, hsound⟩ := hreachable.sound
    exact ⟨hsound.safe, hsound.mirrors⟩
  · exact Engine.runAll_stints stint total world hroom

/-- A task that comes to a key that another guards, and two tasks that come to one key at one moment. -/
theorem locks_disciplined_two_tasks :
    (∃ s : Lobby Nat, s.Reachable ∧ s.Safe ∧
      (∃ guest ∈ s.guests, guest.key = 7 ∧ guest.stage = .guarding) ∧
      ∃ guest ∈ s.guests, guest.key = 7 ∧ guest.stage = .entering) ∧
    6 * 2 ≤ 12 ∧
    (Engine.runAll 12 { world := { depot := { now := .epoch }, clock := 0, locks := {} } }
      ((List.range 2).map fun i ↦ (Stint.mk ⟨0, "piece"⟩ 0 (3 + 2 * i)).call)).1 =
      [some (0, 3), some (3, 8)] := by
  refine ⟨?_, by decide, ?_⟩
  · have hvisit : Lobby.Step {} (Lobby.visit {} 0 7) := .visit 0 7 fun _ hmem ↦ absurd hmem List.not_mem_nil
    have hguests : (Lobby.visit {} 0 7 : Lobby Nat).guests = [⟨0, 7, 0, .entering⟩] := rfl
    have hask := Lobby.Step.ask (List.Perm.of_eq hguests) rfl
    have hasked := (Relation.ReflTransGen.single hvisit).tail hask
    have hreachable := hasked.tail (.visit 1 7 (List.forall_mem_singleton.mpr (by decide)))
    refine ⟨_, hreachable, (locks_disciplined.1 Nat _ hreachable).1, ?_, ?_⟩
    · exact ⟨_, List.mem_cons_of_mem _ List.mem_cons_self, rfl, rfl⟩
    · exact ⟨_, List.mem_cons_self, rfl, rfl⟩
  · obtain ⟨times, htimed, hrun⟩ := locks_disciplined.2
      (fun i ↦ ⟨⟨0, "piece"⟩, 0, 3 + 2 * i⟩) 2 { depot := { now := .epoch } } 12 (by decide)
    have hfirst : times 0 = (0, 3) := by
      have hacquired := htimed.first 0 (by decide) fun i hlast ↦ by
        rcases hlast.before with hlt | ⟨-, hlt⟩
        · exact absurd hlt (Nat.lt_irrefl 0)
        · exact absurd hlt (Nat.not_lt_zero i)
      have hreleased := htimed.span 0 (by decide)
      rw [hacquired] at hreleased
      exact Prod.ext hacquired hreleased
    have hlast : Stint.Last (fun i ↦ ⟨⟨0, "piece"⟩, 0, 3 + 2 * i⟩) 2 0 1 := by
      refine ⟨by decide, rfl, Or.inr ⟨rfl, by decide⟩, fun k _ _ hbefore ↦ Or.inl ?_⟩
      rcases hbefore with hlt | ⟨-, hlt⟩
      · exact absurd hlt (Nat.lt_irrefl 0)
      · exact Nat.lt_one_iff.mp hlt
    have hsecond : times 1 = (3, 8) := by
      have hacquired := htimed.next 0 1 (by decide) hlast
      have hreleased := htimed.span 1 (by decide)
      rw [hfirst] at hacquired
      rw [hacquired] at hreleased
      exact Prod.ext hacquired hreleased
    rw [hrun]
    simp [List.range_succ, hfirst, hsecond]

end PieceKeeper
