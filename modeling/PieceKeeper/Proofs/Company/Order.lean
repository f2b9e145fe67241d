import PieceKeeper.Proofs.Company.Basic

/-!
# The order of turns

Calls are put in the order in which they take their turns.  A call takes its turn after it was started
and before it ends, so a call that ended before another was started comes before it.
-/

namespace PieceKeeper.Company

variable {log : Log} {ticket : Nat} {event : Event} {first second : Nat}

/-! ## Logs -/

theorem Log.sent_cons (log : Log) (ticket : Nat) (event : Event) :
    Log.sent ((ticket, event) :: log) = log.sent ++ (submission? (ticket, event)).toList := by
  rw [Log.sent, Log.sent, List.filterMap_cons]
  cases submission? (ticket, event) with
  | none => exact (List.append_nil _).symm
  | some submission => exact List.reverse_cons

/-- What was logged and is not the last was logged before. -/
theorem Log.mem_of_cons {found : Event} {other : Nat} (h : (other, found) ∈ (ticket, event) :: log)
    (hne : found ≠ event) : (other, found) ∈ log :=
  (List.mem_cons.mp h).resolve_left fun heq ↦ hne (Prod.ext_iff.mp heq).2

/-- What precedes a call has ended. -/
theorem Log.Precedes.ended (h : log.Precedes first second) :
    ∃ errand outcome, (first, .ended errand outcome) ∈ log := by
  obtain ⟨later, earlier, errand, outcome, -, rfl, hended, -⟩ := h
  exact ⟨errand, outcome, List.mem_append_right later hended⟩

/-- Only a start makes calls precede another. -/
theorem Log.Precedes.of_cons (h : Log.Precedes ((ticket, event) :: log) first second) :
    log.Precedes first second ∨ second = ticket ∧ ∃ errand, event = .started errand := by
  obtain ⟨later, earlier, errand, outcome, next, heq, hended, hstarted⟩ := h
  cases later with
  | nil => cases hstarted
  | cons entry later =>
    obtain ⟨rfl, rfl⟩ := List.cons.inj heq
    rcases List.mem_cons.mp hstarted with hentry | hold
    · cases hentry
      exact Or.inr ⟨rfl, next, rfl⟩
    · exact Or.inl ⟨later, earlier, errand, outcome, next, rfl, hended, hold⟩

/-! ## Orders -/

theorem Stage.after_append (stage : Stage) (turns : Turns) (order rest : List (Nat × Errand)) :
    stage.after turns (order ++ rest) = stage.after (stage.after turns order) rest := by
  induction order generalizing turns with
  | nil => rfl
  | cons call order ih => exact ih _

/-- Calls on their way, by their tickets: what they do, and what is said of them since their turn. -/
abbrev Roll := Nat → Option (Errand × Option Verdict)

/-- The calls that have taken their turns, in order. -/
structure Ordered (stage : Stage) (store : Store) (log : Log) (next : Nat) (roll : Roll)
    (order : List (Nat × Errand)) : Prop where
  recent : ∀ ticket event, (ticket, event) ∈ log → ticket < next
  started : ∀ ticket errand verdict, roll ticket = some (errand, verdict) →
    (ticket, .started errand) ∈ log
  known : ∀ ticket errand, (ticket, .started errand) ∈ log →
    (∃ verdict, roll ticket = some (errand, verdict)) ∨ (ticket, errand) ∈ order
  origin : ∀ ticket errand, (ticket, errand) ∈ order → (ticket, .started errand) ∈ log
  nodup : (order.map Prod.fst).Nodup
  waiting : ∀ ticket errand, roll ticket = some (errand, none) → ticket ∉ order.map Prod.fst
  turned : ∀ ticket errand verdict, roll ticket = some (errand, some verdict) → (ticket, errand) ∈ order
  ended : ∀ ticket errand outcome, (ticket, .ended errand outcome) ∈ log → ticket ∈ order.map Prod.fst
  gone : ∀ ticket errand outcome, (ticket, .ended errand outcome) ∈ log → roll ticket = none
  single : ∀ ticket errand outcome errand' outcome', (ticket, .ended errand outcome) ∈ log →
    (ticket, .ended errand' outcome') ∈ log → Event.ended errand outcome = .ended errand' outcome'
  precedence : ∀ first second, log.Precedes first second → second ∈ order.map Prod.fst →
    List.Sublist [first, second] (order.map Prod.fst)
  /-- What is said of a call, on its way or at its end, is what was to be said at its turn. -/
  outcomes : ∀ before ticket errand rest, order = before ++ (ticket, errand) :: rest →
    ∃ verdict, errand.verdict (stage.turn (stage.after { store } before) ticket errand).1 = verdict ∧
      (roll ticket = some (errand, some verdict) ∨
        ∃ outcome, (ticket, .ended errand outcome) ∈ log ∧ errand.verdict outcome = verdict)

namespace Ordered

variable {stage : Stage} {store : Store} {next : Nat} {roll : Roll} {order : List (Nat × Errand)}
  {errand : Errand} {verdict : Verdict}

theorem initial (stage : Stage) (store : Store) : Ordered stage store [] 0 (fun _ ↦ none) [] where
  recent _ _ h := absurd h List.not_mem_nil
  started _ _ _ h := by cases h
  known _ _ h := absurd h List.not_mem_nil
  origin _ _ h := absurd h List.not_mem_nil
  nodup := List.nodup_nil
  waiting _ _ h := by cases h
  turned _ _ _ h := by cases h
  ended _ _ _ h := absurd h List.not_mem_nil
  gone _ _ _ h := absurd h List.not_mem_nil
  single _ _ _ _ _ h := absurd h List.not_mem_nil
  precedence _ _ _ h := absurd h List.not_mem_nil
  outcomes before _ _ _ h :=
    absurd h.symm (List.append_ne_nil_of_right_ne_nil before (List.cons_ne_nil _ _))

/-- The ticket of the next call has not been used. -/
theorem roll_next (h : Ordered stage store log next roll order) : roll next = none := by
  cases hroll : roll next with
  | none => rfl
  | some call =>
    exact absurd (h.recent _ _ (h.started next call.1 call.2 hroll)) (Nat.lt_irrefl next)

theorem next_not_mem (h : Ordered stage store log next roll order) : next ∉ order.map Prod.fst := by
  intro hmem
  obtain ⟨⟨ticket, errand⟩, hcall, rfl⟩ := List.mem_map.mp hmem
  exact Nat.lt_irrefl _ (h.recent _ _ (h.origin ticket errand hcall))

theorem start (h : Ordered stage store log next roll order) (errand : Errand) :
    Ordered stage store ((next, .started errand) :: log) (next + 1)
      (Function.update roll next (some (errand, none))) order where
  recent ticket event hmem := by
    rcases List.mem_cons.mp hmem with hnew | hold
    · cases hnew
      exact Nat.lt_succ_self _
    · exact Nat.lt_succ_of_lt (h.recent ticket event hold)
  started ticket found verdict hroll := by
    rcases update_eq_some hroll with ⟨rfl, hnew⟩ | ⟨-, hold⟩
    · cases hnew
      exact List.mem_cons_self
    · exact List.mem_cons_of_mem _ (h.started ticket found verdict hold)
  known ticket found hmem := by
    rcases List.mem_cons.mp hmem with hnew | hold
    · cases hnew
      exact Or.inl ⟨none, Function.update_self _ _ _⟩
    · have hne : ticket ≠ next := Nat.ne_of_lt (h.recent _ _ hold)
      rw [Function.update_of_ne hne]
      exact h.known ticket found hold
  origin ticket found hmem := List.mem_cons_of_mem _ (h.origin ticket found hmem)
  nodup := h.nodup
  waiting ticket found hroll := by
    rcases update_eq_some hroll with ⟨rfl, -⟩ | ⟨-, hold⟩
    · exact h.next_not_mem
    · exact h.waiting ticket found hold
  turned ticket found verdict hroll := by
    rcases update_eq_some hroll with ⟨-, hnew⟩ | ⟨-, hold⟩
    · cases hnew
    · exact h.turned ticket found verdict hold
  ended ticket found outcome hmem :=
    h.ended ticket found outcome (Log.mem_of_cons hmem fun heq ↦ (by cases heq))
  gone ticket found outcome hmem := by
    have hold := Log.mem_of_cons hmem fun heq ↦ (by cases heq)
    rw [Function.update_of_ne (Nat.ne_of_lt (h.recent _ _ hold))]
    exact h.gone ticket found outcome hold
  single ticket found outcome found' outcome' hmem hmem' :=
    h.single ticket found outcome found' outcome' (Log.mem_of_cons hmem fun heq ↦ (by cases heq))
      (Log.mem_of_cons hmem' fun heq ↦ (by cases heq))
  precedence first second hprecedes hsecond := by
    rcases hprecedes.of_cons with hold | ⟨rfl, -⟩
    · exact h.precedence first second hold hsecond
    · exact absurd hsecond h.next_not_mem
  outcomes before ticket found rest horder := by
    obtain ⟨verdict, hverdict, hsaid⟩ := h.outcomes before ticket found rest horder
    refine ⟨verdict, hverdict, ?_⟩
    rcases hsaid with hroll | ⟨outcome, hended, hsame⟩
    · have hne : ticket ≠ next := by
        rintro rfl
        rw [h.roll_next] at hroll
        cases hroll
      exact Or.inl ((Function.update_of_ne hne _ _).trans hroll)
    · exact Or.inr ⟨outcome, List.mem_cons_of_mem _ hended, hsame⟩

/-- A request of a call on its way is answered. -/
theorem answer (h : Ordered stage store log next roll order) {call : Errand × Option Verdict}
    (hroll : roll ticket = some call) (request : Request) (answer : request.Answer) :
    Ordered stage store ((ticket, .answered request answer) :: log) next roll order where
  recent other event hmem := by
    rcases List.mem_cons.mp hmem with hnew | hold
    · cases hnew
      exact h.recent _ _ (h.started ticket call.1 call.2 hroll)
    · exact h.recent other event hold
  started other found verdict hother := List.mem_cons_of_mem _ (h.started other found verdict hother)
  known other found hmem := by
    rcases List.mem_cons.mp hmem with hnew | hold
    · cases hnew
    · exact h.known other found hold
  origin other found hmem := List.mem_cons_of_mem _ (h.origin other found hmem)
  nodup := h.nodup
  waiting := h.waiting
  turned := h.turned
  ended other found outcome hmem :=
    h.ended other found outcome (Log.mem_of_cons hmem fun heq ↦ (by cases heq))
  gone other found outcome hmem :=
    h.gone other found outcome (Log.mem_of_cons hmem fun heq ↦ (by cases heq))
  single other found outcome found' outcome' hmem hmem' :=
    h.single other found outcome found' outcome' (Log.mem_of_cons hmem fun heq ↦ (by cases heq))
      (Log.mem_of_cons hmem' fun heq ↦ (by cases heq))
  precedence first second hprecedes hsecond := by
    rcases hprecedes.of_cons with hold | ⟨-, found, hstarted⟩
    · exact h.precedence first second hold hsecond
    · cases hstarted
  outcomes before other found rest horder := by
    obtain ⟨verdict, hverdict, hsaid⟩ := h.outcomes before other found rest horder
    exact ⟨verdict, hverdict, hsaid.imp_right fun ⟨outcome, hended, hsame⟩ ↦
      ⟨outcome, List.mem_cons_of_mem _ hended, hsame⟩⟩

/-- A call takes its turn. -/
theorem turn (h : Ordered stage store log next roll order) (hroll : roll ticket = some (errand, none))
    (hverdict : errand.verdict (stage.turn (stage.after { store } order) ticket errand).1 = verdict) :
    Ordered stage store log next (Function.update roll ticket (some (errand, some verdict)))
      (order ++ [(ticket, errand)]) where
  recent := h.recent
  started other found said hother := by
    rcases update_eq_some hother with ⟨rfl, hnew⟩ | ⟨-, hold⟩
    · cases hnew
      exact h.started other errand none hroll
    · exact h.started other found said hold
  known other found hmem := by
    rcases h.known other found hmem with ⟨said, hother⟩ | hold
    · by_cases heq : other = ticket
      · subst heq
        obtain ⟨rfl, -⟩ := Prod.ext_iff.mp (Option.some.inj (hroll.symm.trans hother))
        exact Or.inr (List.mem_append_right order List.mem_cons_self)
      · exact Or.inl ⟨said, (Function.update_of_ne heq _ _).trans hother⟩
    · exact Or.inr (List.mem_append_left _ hold)
  origin other found hmem := by
    rcases List.mem_append.mp hmem with hold | hnew
    · exact h.origin other found hold
    · cases List.mem_singleton.mp hnew
      exact h.started ticket errand none hroll
  nodup := by
    rw [List.map_append]
    refine List.nodup_append.mpr ⟨h.nodup, List.nodup_singleton _, ?_⟩
    rintro other hold _ hnew rfl
    have heq : other = ticket := List.mem_singleton.mp hnew
    exact h.waiting ticket errand hroll (heq ▸ hold)
  waiting other found hother := by
    rcases update_eq_some hother with ⟨-, hnew⟩ | ⟨hne, hold⟩
    · cases hnew
    · rw [List.map_append]
      intro hmem
      rcases List.mem_append.mp hmem with hmem | hlast
      · exact h.waiting other found hold hmem
      · exact hne (List.mem_singleton.mp hlast)
  turned other found said hother := by
    rcases update_eq_some hother with ⟨rfl, hnew⟩ | ⟨-, hold⟩
    · cases hnew
      exact List.mem_append_right order List.mem_cons_self
    · exact List.mem_append_left _ (h.turned other found said hold)
  ended other found outcome hmem := by
    rw [List.map_append]
    exact List.mem_append_left _ (h.ended other found outcome hmem)
  gone other found outcome hmem := by
    have hnone := h.gone other found outcome hmem
    have hne : other ≠ ticket := by
      rintro rfl
      rw [hroll] at hnone
      cases hnone
    exact (Function.update_of_ne hne _ _).trans hnone
  single := h.single
  precedence first second hprecedes hsecond := by
    rw [List.map_append] at hsecond ⊢
    rcases List.mem_append.mp hsecond with hold | hnew
    · exact (h.precedence first second hprecedes hold).trans (List.sublist_append_left _ _)
    · obtain ⟨found, outcome, hended⟩ := hprecedes.ended
      obtain rfl := List.mem_singleton.mp hnew
      exact (List.singleton_sublist.mpr (h.ended first found outcome hended)).append (List.Sublist.refl _)
  outcomes before other found rest horder := by
    rcases List.eq_nil_or_concat rest with rfl | ⟨init, last, rfl⟩
    · obtain ⟨rfl, hlast⟩ := List.append_inj' horder rfl
      cases hlast
      exact ⟨verdict, hverdict, Or.inl (Function.update_self _ _ _)⟩
    · rw [List.concat_eq_append, ← List.cons_append, ← List.append_assoc] at horder
      obtain ⟨hinit, -⟩ := List.append_inj' horder rfl
      obtain ⟨said, hsaid, hwhere⟩ := h.outcomes before other found init hinit
      refine ⟨said, hsaid, hwhere.imp_left fun hother ↦ ?_⟩
      have hne : other ≠ ticket := by
        rintro rfl
        rw [hroll] at hother
        cases hother
      exact (Function.update_of_ne hne _ _).trans hother

/-- A call ends as was said at its turn. -/
theorem finish (h : Ordered stage store log next roll order) {outcome : Outcome errand.Answer}
    (hroll : roll ticket = some (errand, some (errand.verdict outcome))) :
    Ordered stage store ((ticket, .ended errand outcome) :: log) next
      (Function.update roll ticket none) order where
  recent other event hmem := by
    rcases List.mem_cons.mp hmem with hnew | hold
    · cases hnew
      exact h.recent _ _ (h.started ticket errand _ hroll)
    · exact h.recent other event hold
  started other found verdict hother := by
    rcases update_eq_some hother with ⟨-, hnew⟩ | ⟨-, hold⟩
    · cases hnew
    · exact List.mem_cons_of_mem _ (h.started other found verdict hold)
  known other found hmem := by
    rcases List.mem_cons.mp hmem with hnew | hold
    · cases hnew
    · rcases h.known other found hold with ⟨verdict, hother⟩ | horder
      · by_cases heq : other = ticket
        · subst heq
          obtain ⟨rfl, -⟩ := Prod.ext_iff.mp (Option.some.inj (hroll.symm.trans hother))
          exact Or.inr (h.turned other errand _ hroll)
        · exact Or.inl ⟨verdict, (Function.update_of_ne heq _ _).trans hother⟩
      · exact Or.inr horder
  origin other found hmem := List.mem_cons_of_mem _ (h.origin other found hmem)
  nodup := h.nodup
  waiting other found hother := by
    rcases update_eq_some hother with ⟨-, hnew⟩ | ⟨-, hold⟩
    · cases hnew
    · exact h.waiting other found hold
  turned other found verdict hother := by
    rcases update_eq_some hother with ⟨-, hnew⟩ | ⟨-, hold⟩
    · cases hnew
    · exact h.turned other found verdict hold
  ended other found result hmem := by
    rcases List.mem_cons.mp hmem with hnew | hold
    · cases hnew
      exact List.mem_map_of_mem (h.turned ticket errand _ hroll)
    · exact h.ended other found result hold
  gone other found result hmem := by
    by_cases heq : other = ticket
    · rw [heq, Function.update_self]
    · rw [Function.update_of_ne heq]
      refine h.gone other found result ((List.mem_cons.mp hmem).resolve_left fun hnew ↦ ?_)
      exact heq (Prod.ext_iff.mp hnew).1
  single other found result found' result' hmem hmem' := by
    have hfirst {found : Errand} {result : Outcome found.Answer}
        (hold : (ticket, .ended found result) ∈ log) : False := by
      have hnone := h.gone ticket found result hold
      rw [hroll] at hnone
      cases hnone
    rcases List.mem_cons.mp hmem with hnew | hold
    · cases hnew
      rcases List.mem_cons.mp hmem' with hnew' | hold'
      · exact (Prod.ext_iff.mp hnew').2.symm
      · exact (hfirst hold').elim
    · rcases List.mem_cons.mp hmem' with hnew' | hold'
      · cases hnew'
        exact (hfirst hold).elim
      · exact h.single other found result found' result' hold hold'
  precedence first second hprecedes hsecond := by
    rcases hprecedes.of_cons with hold | ⟨-, found, hstarted⟩
    · exact h.precedence first second hold hsecond
    · cases hstarted
  outcomes before other found rest horder := by
    obtain ⟨verdict, hverdict, hsaid⟩ := h.outcomes before other found rest horder
    refine ⟨verdict, hverdict, ?_⟩
    rcases hsaid with hother | ⟨result, hended, hsame⟩
    · by_cases heq : other = ticket
      · subst heq
        obtain ⟨rfl, hsame⟩ := Prod.ext_iff.mp (Option.some.inj (hroll.symm.trans hother))
        exact Or.inr ⟨outcome, List.mem_cons_self, Option.some.inj hsame⟩
      · exact Or.inl ((Function.update_of_ne heq _ _).trans hother)
    · exact Or.inr ⟨result, List.mem_cons_of_mem _ hended, hsame⟩

end Ordered

end PieceKeeper.Company
