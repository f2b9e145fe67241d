import PieceKeeper.Call
import PieceKeeper.Proofs.Locks.Lines

/-!
# Stints

A stint begins at a moment, takes the lock of a key as soon as it can have it, keeps it for some time and
gives it back.  Stints on one key follow each other in the order in which they begin, those that begin at
one moment in the order of their numbers: each takes the lock when it has begun and the one before it has
given the lock back.
-/

namespace PieceKeeper

/-- When to begin, what lock to take, and how long to keep it. -/
structure Stint where
  key : LockKey
  start : Nat
  span : Nat

namespace Stint

/-- Takes the lock and gives it back.  Answers with the moments of both. -/
def call (stint : Stint) : Call (Nat × Nat) := do
  Call.request (.sleep stint.start)
  Call.request (.acquire stint.key)
  let acquired ← Call.request .clock
  Call.request (.sleep stint.span)
  let released ← Call.request .clock
  Call.request (.release stint.key)
  return (acquired, released)

variable (stint : Nat → Stint) (total : Nat)

/-- One stint begins before another, or at the same moment and has the smaller number. -/
def Before (i j : Nat) : Prop :=
  (stint i).start < (stint j).start ∨ (stint i).start = (stint j).start ∧ i < j

/-- One stint is the last on its key before another. -/
structure Last (i j : Nat) : Prop where
  lt : i < total
  key : (stint i).key = (stint j).key
  before : Before stint i j
  last : ∀ k < total, (stint k).key = (stint j).key → Before stint k j → k = i ∨ Before stint k i

/-- When each stint takes its lock and when it gives it back: it takes it when it has begun and the last
stint before it has given it back, and keeps it for its span. -/
structure Timed (times : Nat → Nat × Nat) : Prop where
  /-- There is a stint before. -/
  next : ∀ i j, j < total → Last stint total i j → (times j).1 = max (stint j).start (times i).2
  /-- There is none. -/
  first : ∀ j < total, (∀ i, ¬ Last stint total i j) → (times j).1 = (stint j).start
  span : ∀ j < total, (times j).2 = (times j).1 + (stint j).span

variable {stint total} {i j k : Nat}

namespace Before

theorem irrefl (i : Nat) : ¬ Before stint i i := by
  rintro (h | ⟨-, h⟩)
  · exact Nat.lt_irrefl _ h
  · exact Nat.lt_irrefl _ h

theorem trans (h : Before stint i j) (h' : Before stint j k) : Before stint i k := by
  simp only [Before] at *
  omega

theorem asymm (h : Before stint i j) : ¬ Before stint j i :=
  fun h' ↦ irrefl i (h.trans h')

end Before

theorem Last.unique {i' : Nat} (h : Last stint total i j) (h' : Last stint total i' j) : i = i' := by
  rcases h'.last i h.lt h.key h.before with heq | hbefore
  · exact heq
  · rcases h.last i' h'.lt h'.key h'.before with heq | hbefore'
    · exact heq.symm
    · exact absurd hbefore' hbefore.asymm

/-! ## The times that stints have -/

open Classical in
/-- When a stint takes its lock. -/
noncomputable def acquired (stint : Nat → Stint) (total : Nat) (j : Nat) : Nat :=
  if h : ∃ i, Last stint total i j then
    max (stint j).start (acquired stint total h.choose + (stint h.choose).span)
  else (stint j).start
termination_by ((stint j).start, j)
decreasing_by
  rcases h.choose_spec.before with hlt | ⟨heq, hlt⟩
  · exact Prod.Lex.left _ _ hlt
  · exact heq ▸ Prod.Lex.right _ hlt

theorem exists_timed (stint : Nat → Stint) (total : Nat) : ∃ times, Timed stint total times := by
  refine ⟨fun j ↦ (acquired stint total j, acquired stint total j + (stint j).span), ?_, ?_, ?_⟩
  · intro i j _ hlast
    have hex : ∃ i, Last stint total i j := ⟨i, hlast⟩
    obtain rfl := hex.choose_spec.unique hlast
    dsimp only
    rw [acquired, dif_pos hex]
  · intro j _ hnone
    dsimp only
    rw [acquired, dif_neg fun ⟨i, hlast⟩ ↦ hnone i hlast]
  · intro j _
    rfl

/-! ## Courses -/

/-- How far a stint has come. -/
inductive Phase where
  /-- It was not set off yet. -/
  | unborn
  /-- It waits for its beginning. -/
  | sleeps
  /-- It is about to ask for its lock. -/
  | asks
  | waits
  /-- It has got its lock just now. -/
  | has
  | holds
  /-- It is about to give the lock back. -/
  | leaves
  | done
  deriving DecidableEq

namespace Phase

/-- It has not asked for its lock yet. -/
def Pending : Phase → Prop
  | unborn | sleeps | asks => True
  | _ => False

/-- It stands in the line of its key. -/
def Lined : Phase → Prop
  | waits | has | holds | leaves => True
  | _ => False

theorem Lined.not_pending {phase : Phase} (h : phase.Lined) : ¬ phase.Pending := by
  cases phase <;> exact fun hp ↦ by first | exact hp | exact h

end Phase

/-- Where stints have come to at a moment. -/
structure Course where
  clock : Nat
  phase : Nat → Phase
  line : LockKey → List Nat

namespace Course

/-- A stint gets into another phase. -/
def goOn (s : Course) (i : Nat) (phase : Phase) : Course :=
  { s with phase := Function.update s.phase i phase }

/-- A stint lines up. -/
def lineUp (s : Course) (stint : Nat → Stint) (i : Nat) (phase : Phase) : Course :=
  { s with
    phase := Function.update s.phase i phase
    line := Function.update s.line (stint i).key (s.line (stint i).key ++ [i]) }

/-- A stint at the head of its line gives its lock to the next in the line. -/
def finish (s : Course) (stint : Nat → Stint) (i : Nat) (rest : List Nat) : Course :=
  { s with
    phase := fun j ↦ if j = i then .done else if rest.head? = some j then .has else s.phase j
    line := Function.update s.line (stint i).key rest }

/-- Time passes up to a moment, at which some stints begin and others have kept their locks for their
spans. -/
def passTo (s : Course) (stint : Nat → Stint) (times : Nat → Nat × Nat) (moment : Nat) : Course :=
  { s with
    clock := moment
    phase := fun i ↦
      match s.phase i with
      | .sleeps => if (stint i).start = moment then .asks else .sleeps
      | .holds => if (times i).2 = moment then .leaves else .holds
      | phase => phase }

/-- Whether a stint is at the head of its line. -/
def Heads (s : Course) (stint : Nat → Stint) (i : Nat) : Prop :=
  (s.line (stint i).key).head? = some i

/-- Whether a stint is in time in a phase. -/
def Fits (s : Course) (stint : Nat → Stint) (times : Nat → Nat × Nat) (i : Nat) : Phase → Prop
  | .unborn => True
  | .sleeps => s.clock < (stint i).start
  | .asks => (stint i).start = s.clock
  | .waits => (stint i).start ≤ s.clock ∧ ¬ s.Heads stint i
  | .has => s.Heads stint i ∧ (times i).1 = s.clock
  | .holds => s.Heads stint i ∧ s.clock < (times i).2
  | .leaves => s.Heads stint i ∧ (times i).2 = s.clock
  | .done => (times i).2 ≤ s.clock

/-- All stints are in time, and they have lined up in their order. -/
structure Sound (s : Course) (stint : Nat → Stint) (total : Nat) (times : Nat → Nat × Nat) : Prop where
  fits : ∀ i < total, s.Fits stint times i (s.phase i)
  line : ∀ key i, i ∈ s.line key ↔ i < total ∧ (stint i).key = key ∧ (s.phase i).Lined
  sorted : ∀ key, (s.line key).Pairwise (Before stint)
  /-- Those who have not lined up yet come later. -/
  later : ∀ i < total, ∀ j < total, ¬ (s.phase i).Pending → (s.phase j).Pending → Before stint i j
  /-- Those who are done came earlier. -/
  earlier : ∀ i < total, s.phase i = .done → ∀ j ∈ s.line (stint i).key, Before stint i j

variable {s : Course} {times : Nat → Nat × Nat}

section

variable {phase : Phase} {key : LockKey} {rest : List Nat}

@[simp] theorem phase_goOn (s : Course) (i : Nat) (phase : Phase) : (s.goOn i phase).phase i = phase :=
  Function.update_self _ _ _

theorem phase_goOn_of_ne (hne : j ≠ i) : (s.goOn i phase).phase j = s.phase j :=
  Function.update_of_ne hne _ _

@[simp] theorem phase_lineUp (s : Course) (stint : Nat → Stint) (i : Nat) (phase : Phase) :
    (s.lineUp stint i phase).phase i = phase :=
  Function.update_self _ _ _

theorem phase_lineUp_of_ne (hne : j ≠ i) : (s.lineUp stint i phase).phase j = s.phase j :=
  Function.update_of_ne hne _ _

@[simp] theorem line_lineUp (s : Course) (stint : Nat → Stint) (i : Nat) (phase : Phase) :
    (s.lineUp stint i phase).line (stint i).key = s.line (stint i).key ++ [i] :=
  Function.update_self _ _ _

theorem line_lineUp_of_ne (hkey : key ≠ (stint i).key) : (s.lineUp stint i phase).line key = s.line key :=
  Function.update_of_ne hkey _ _

@[simp] theorem phase_finish (s : Course) (stint : Nat → Stint) (i : Nat) (rest : List Nat) :
    (s.finish stint i rest).phase i = .done :=
  if_pos rfl

theorem phase_finish_of_head (hne : j ≠ i) (hhead : rest.head? = some j) :
    (s.finish stint i rest).phase j = .has :=
  (if_neg hne).trans (if_pos hhead)

theorem phase_finish_of_ne (hne : j ≠ i) (hhead : rest.head? ≠ some j) :
    (s.finish stint i rest).phase j = s.phase j :=
  (if_neg hne).trans (if_neg hhead)

@[simp] theorem line_finish (s : Course) (stint : Nat → Stint) (i : Nat) (rest : List Nat) :
    (s.finish stint i rest).line (stint i).key = rest :=
  Function.update_self _ _ _

theorem line_finish_of_ne (hkey : key ≠ (stint i).key) : (s.finish stint i rest).line key = s.line key :=
  Function.update_of_ne hkey _ _

end

/-- Whether a stint is in time depends on the moment and on the head of its line. -/
theorem Fits.congr {s' : Course} {phase : Phase} (h : s.Fits stint times i phase)
    (hclock : s'.clock = s.clock)
    (hhead : phase.Lined → (s'.line (stint i).key).head? = (s.line (stint i).key).head?) :
    s'.Fits stint times i phase := by
  cases phase with
  | unborn => trivial
  | sleeps | asks | done =>
    simp only [Fits] at h ⊢
    rwa [hclock]
  | waits | has | holds | leaves =>
    simp only [Fits, Heads] at h ⊢
    rwa [hclock, hhead trivial]

namespace Sound

variable (h : s.Sound stint total times)
include h

theorem nodup (key : LockKey) : (s.line key).Nodup := by
  refine (h.sorted key).imp ?_
  rintro i _ hbefore rfl
  exact Before.irrefl i hbefore

theorem mem_line (hi : i < total) (hlined : (s.phase i).Lined) : i ∈ s.line (stint i).key :=
  (h.line _ _).mpr ⟨hi, rfl, hlined⟩

/-- Stints go on where nobody lines up or leaves a line. -/
theorem relabel {s' : Course} (hline : s'.line = s.line)
    (hpending : ∀ i, (s'.phase i).Pending ↔ (s.phase i).Pending)
    (hlined : ∀ i, (s'.phase i).Lined ↔ (s.phase i).Lined)
    (hdone : ∀ i, s'.phase i = .done → s.phase i = .done)
    (hfits : ∀ i < total, s'.Fits stint times i (s'.phase i)) : s'.Sound stint total times where
  fits := hfits
  line key i := by rw [hline, hlined, h.line]
  sorted key := hline ▸ h.sorted key
  later i hi j hj hnot hp := by
    rw [hpending] at hnot hp
    exact h.later i hi j hj hnot hp
  earlier i hi hphase := hline ▸ h.earlier i hi (hdone i hphase)

/-- One stint goes on where it neither lines up nor leaves its line. -/
theorem goOn (i : Nat) (phase : Phase) (hpending : phase.Pending ↔ (s.phase i).Pending)
    (hlined : phase.Lined ↔ (s.phase i).Lined) (hdone : phase ≠ .done)
    (hfits : s.Fits stint times i phase) : (s.goOn i phase).Sound stint total times := by
  refine h.relabel rfl (fun j ↦ ?_) (fun j ↦ ?_) (fun j hj ↦ ?_) fun j hj ↦ ?_
  all_goals by_cases hji : j = i
  · rw [hji, phase_goOn, hpending]
  · rw [phase_goOn_of_ne hji]
  · rw [hji, phase_goOn, hlined]
  · rw [phase_goOn_of_ne hji]
  · rw [hji, phase_goOn] at hj
    exact absurd hj hdone
  · rwa [phase_goOn_of_ne hji] at hj
  · rw [hji, phase_goOn]
    exact hfits
  · rw [phase_goOn_of_ne hji]
    exact h.fits j hj

/-- The one before a stint is done, unless it is in line. -/
theorem done_of_last (hi : i < total) (hlast : Last stint total j i)
    (hleast : ∀ k < total, k ≠ i → (s.phase k).Pending → Before stint i k)
    (hnot : j ∉ s.line (stint i).key) : s.phase j = .done := by
  have hne : j ≠ i := by
    rintro rfl
    exact Before.irrefl _ hlast.before
  cases hphase : s.phase j with
  | unborn | sleeps | asks =>
    exact absurd hlast.before (hleast j hlast.lt hne (hphase ▸ trivial)).asymm
  | waits | has | holds | leaves =>
    exact absurd ((h.line _ _).mpr ⟨hlast.lt, hlast.key, hphase ▸ trivial⟩) hnot
  | done => rfl

/-! ### Lining up -/

section

variable {phase : Phase} (hi : i < total) (hphase : s.phase i = .asks)
include hphase

theorem not_mem_line (key : LockKey) : i ∉ s.line key := by
  intro hmem
  have hlined := ((h.line _ _).mp hmem).2.2
  rw [hphase] at hlined
  exact hlined

include hi

theorem before_of_asks (hj : j < total) (hnot : ¬ (s.phase j).Pending) : Before stint j i :=
  h.later j hj i hi hnot (hphase ▸ trivial)

theorem fits_lineUp (hkind : phase = .has ∧ s.line (stint i).key = [] ∧ (times i).1 = s.clock ∨
      phase = .waits ∧ s.line (stint i).key ≠ []) (hj : j < total) :
    (s.lineUp stint i phase).Fits stint times j ((s.lineUp stint i phase).phase j) := by
  by_cases hji : j = i
  · subst hji
    have hstart := h.fits j hi
    rw [hphase] at hstart
    rw [phase_lineUp]
    rcases hkind with ⟨rfl, hnil, htime⟩ | ⟨rfl, hne⟩
    · refine ⟨?_, htime⟩
      rw [Heads, line_lineUp, hnil]
      rfl
    · refine ⟨Nat.le_of_eq hstart, fun hheads ↦ h.not_mem_line hphase (stint j).key (List.mem_of_mem_head? ?_)⟩
      rwa [Heads, line_lineUp, List.head?_append_of_ne_nil _ hne] at hheads
  · rw [phase_lineUp_of_ne hji]
    refine (h.fits j hj).congr rfl fun hlined ↦ ?_
    by_cases hkey : (stint j).key = (stint i).key
    · have hmem : j ∈ s.line (stint i).key := hkey ▸ h.mem_line hj hlined
      rw [hkey, line_lineUp, List.head?_append_of_ne_nil _ (List.ne_nil_of_mem hmem)]
    · rw [line_lineUp_of_ne hkey]

theorem mem_line_lineUp (hlined : phase.Lined) (key : LockKey) (j : Nat) :
    j ∈ (s.lineUp stint i phase).line key ↔
      j < total ∧ (stint j).key = key ∧ ((s.lineUp stint i phase).phase j).Lined := by
  by_cases hji : j = i
  · subst hji
    rw [phase_lineUp]
    by_cases hkey : key = (stint j).key
    · simp [hkey, hi, hlined]
    · rw [line_lineUp_of_ne hkey]
      exact iff_of_false (h.not_mem_line hphase key) fun hmem ↦ hkey hmem.2.1.symm
  · rw [phase_lineUp_of_ne hji, ← h.line]
    by_cases hkey : key = (stint i).key
    · simp [hkey, hji]
    · rw [line_lineUp_of_ne hkey]

theorem sorted_lineUp (key : LockKey) : ((s.lineUp stint i phase).line key).Pairwise (Before stint) := by
  by_cases hkey : key = (stint i).key
  · rw [hkey, line_lineUp]
    refine List.pairwise_append.mpr ⟨h.sorted _, List.pairwise_singleton _ _, fun j hj k hk ↦ ?_⟩
    obtain rfl := List.mem_singleton.mp hk
    obtain ⟨hj, -, hlined⟩ := (h.line _ _).mp hj
    exact h.before_of_asks hi hphase hj hlined.not_pending
  · rw [line_lineUp_of_ne hkey]
    exact h.sorted key

theorem earlier_lineUp (hlined : phase.Lined) (hj : j < total)
    (hdone : (s.lineUp stint i phase).phase j = .done) (hk : k ∈ (s.lineUp stint i phase).line (stint j).key) :
    Before stint j k := by
  have hji : j ≠ i := by
    rintro rfl
    rw [phase_lineUp] at hdone
    rw [hdone] at hlined
    exact hlined
  rw [phase_lineUp_of_ne hji] at hdone
  by_cases hkey : (stint j).key = (stint i).key
  · rw [hkey, line_lineUp, ← hkey] at hk
    rcases List.mem_append.mp hk with hold | hnew
    · exact h.earlier j hj hdone k hold
    · obtain rfl := List.mem_singleton.mp hnew
      exact h.before_of_asks hi hphase hj (hdone ▸ id)
  · rw [line_lineUp_of_ne hkey] at hk
    exact h.earlier j hj hdone k hk

/-- A stint lines up before all others that have not lined up yet. -/
theorem lineUp (phase : Phase) (hlined : phase.Lined)
    (hleast : ∀ j < total, j ≠ i → (s.phase j).Pending → Before stint i j)
    (hkind : phase = .has ∧ s.line (stint i).key = [] ∧ (times i).1 = s.clock ∨
      phase = .waits ∧ s.line (stint i).key ≠ []) :
    (s.lineUp stint i phase).Sound stint total times := by
  refine ⟨fun j hj ↦ h.fits_lineUp hi hphase hkind hj, h.mem_line_lineUp hi hphase hlined,
    h.sorted_lineUp hi hphase, fun j hj k hk hnot hp ↦ ?_, fun j hj hdone k hk ↦ ?_⟩
  · have hki : k ≠ i := by
      rintro rfl
      rw [phase_lineUp] at hp
      exact hlined.not_pending hp
    rw [phase_lineUp_of_ne hki] at hp
    by_cases hji : j = i
    · exact hji ▸ hleast k hk hki hp
    · rw [phase_lineUp_of_ne hji] at hnot
      exact h.later j hj k hk hnot hp
  · exact h.earlier_lineUp hi hphase hlined hj hdone hk

end

/-! ### Giving a lock back -/

/-- Who stands behind the head of a line waits. -/
theorem waits_of_mem {rest : List Nat} (hline : s.line (stint i).key = i :: rest) (hj : j ∈ rest) :
    j < total ∧ (stint j).key = (stint i).key ∧ s.phase j = .waits := by
  obtain ⟨hnot, -⟩ := List.nodup_cons.mp (hline ▸ h.nodup (stint i).key)
  obtain ⟨hlt, hkey, hlined⟩ := (h.line _ _).mp (hline ▸ List.mem_cons_of_mem i hj)
  refine ⟨hlt, hkey, ?_⟩
  have hheads : ¬ s.Heads stint j := by
    intro hheads
    rw [Heads, hkey, hline] at hheads
    exact hnot (Option.some.inj hheads ▸ hj)
  have hfits := h.fits j hlt
  cases hphase : s.phase j with
  | unborn | sleeps | asks | done =>
    rw [hphase] at hlined
    exact hlined.elim
  | has | holds | leaves =>
    rw [hphase] at hfits
    exact absurd hfits.1 hheads
  | waits => rfl

/-- The head of a line is the last before the next in the line. -/
theorem last_of_line {rest : List Nat} (hi : i < total) (hline : s.line (stint i).key = i :: j :: rest) :
    Last stint total i j := by
  obtain ⟨hlt, hkey, hphase⟩ := h.waits_of_mem hline List.mem_cons_self
  obtain ⟨hfirst, hsorted⟩ := List.pairwise_cons.mp (hline ▸ h.sorted (stint i).key)
  obtain ⟨hsecond, -⟩ := List.pairwise_cons.mp hsorted
  refine ⟨hi, hkey.symm, hfirst j List.mem_cons_self, fun k hk hkeys hbefore ↦ ?_⟩
  cases hother : s.phase k with
  | unborn | sleeps | asks =>
    exact absurd hbefore (h.later j hlt k hk (hphase ▸ id) (hother ▸ trivial)).asymm
  | waits | has | holds | leaves =>
    have hmem : k ∈ i :: j :: rest :=
      hline ▸ (h.line _ _).mpr ⟨hk, hkeys.trans hkey, hother ▸ trivial⟩
    rcases List.mem_cons.mp hmem with rfl | hmem
    · exact Or.inl rfl
    rcases List.mem_cons.mp hmem with rfl | hmem
    · exact absurd hbefore (Before.irrefl k)
    · exact absurd hbefore (hsecond k hmem).asymm
  | done =>
    refine Or.inr (h.earlier k hk hother i ?_)
    rw [hkeys, hkey, hline]
    exact List.mem_cons_self

section

variable {rest : List Nat} (hline : s.line (stint i).key = i :: rest)
include hline

theorem not_mem_rest : i ∉ rest := (List.nodup_cons.mp (hline ▸ h.nodup (stint i).key)).1

/-- The stint that gives its lock back is done, the next in the line has the lock, and all others stay. -/
theorem finish_cases (j : Nat) :
    j = i ∧ (s.finish stint i rest).phase j = .done ∨
    rest.head? = some j ∧ j ∈ rest ∧ s.phase j = .waits ∧ (s.finish stint i rest).phase j = .has ∨
    j ≠ i ∧ rest.head? ≠ some j ∧ (s.finish stint i rest).phase j = s.phase j := by
  by_cases hji : j = i
  · exact Or.inl ⟨hji, hji ▸ phase_finish s stint i rest⟩
  by_cases hhead : rest.head? = some j
  · have hmem : j ∈ rest := List.mem_of_mem_head? hhead
    obtain ⟨-, -, hwaits⟩ := h.waits_of_mem hline hmem
    exact Or.inr (Or.inl ⟨hhead, hmem, hwaits, phase_finish_of_head hji hhead⟩)
  · exact Or.inr (Or.inr ⟨hji, hhead, phase_finish_of_ne hji hhead⟩)

theorem fits_finish (htimed : Timed stint total times) (hi : i < total) (hphase : s.phase i = .leaves)
    (hj : j < total) : (s.finish stint i rest).Fits stint times j ((s.finish stint i rest).phase j) := by
  have hleaves := h.fits i hi
  rw [hphase] at hleaves
  obtain ⟨-, htime⟩ := hleaves
  have hold := h.fits j hj
  rcases h.finish_cases hline j with ⟨rfl, hdone⟩ | ⟨hhead, hmem, hwaits, hhas⟩ | ⟨hji, hhead, hsame⟩
  · rw [hdone]
    exact Nat.le_of_eq htime
  · obtain ⟨tail, rfl⟩ := List.head?_eq_some_iff.mp hhead
    obtain ⟨-, hkey, -⟩ := h.waits_of_mem hline hmem
    rw [hwaits] at hold
    rw [hhas]
    refine ⟨?_, ?_⟩
    · rw [Heads, hkey, line_finish]
      rfl
    · rw [htimed.next i j hj (h.last_of_line hi hline), htime]
      exact Nat.max_eq_right hold.1
  · rw [hsame]
    by_cases hkey : (stint j).key = (stint i).key
    · by_cases hlined : (s.phase j).Lined
      · have hmem : j ∈ i :: rest := hline ▸ hkey ▸ h.mem_line hj hlined
        obtain ⟨-, -, hwaits⟩ := h.waits_of_mem hline ((List.mem_cons.mp hmem).resolve_left hji)
        rw [hwaits] at hold ⊢
        refine ⟨hold.1, fun hheads ↦ hhead ?_⟩
        rwa [Heads, hkey, line_finish] at hheads
      · exact hold.congr rfl fun hl ↦ absurd hl hlined
    · exact hold.congr rfl fun _ ↦ by rw [line_finish_of_ne hkey]

theorem mem_line_finish (key : LockKey) (j : Nat) : j ∈ (s.finish stint i rest).line key ↔
    j < total ∧ (stint j).key = key ∧ ((s.finish stint i rest).phase j).Lined := by
  by_cases hkey : key = (stint i).key
  · subst hkey
    have hmem : j ∈ i :: rest ↔ j < total ∧ (stint j).key = (stint i).key ∧ (s.phase j).Lined := hline ▸ h.line _ _
    rw [line_finish]
    rcases h.finish_cases hline j with ⟨rfl, hdone⟩ | ⟨-, hrest, hwaits, hhas⟩ | ⟨hji, -, hsame⟩
    · rw [hdone]
      exact iff_of_false (h.not_mem_rest hline) fun hend ↦ hend.2.2
    · obtain ⟨hj, hkey, -⟩ := h.waits_of_mem hline hrest
      exact iff_of_true hrest ⟨hj, hkey, hhas ▸ trivial⟩
    · rw [hsame, ← hmem, List.mem_cons, or_iff_right hji]
  · rw [line_finish_of_ne hkey, h.line]
    refine and_congr_right fun _ ↦ and_congr_right fun hkeyj ↦ ?_
    rcases h.finish_cases hline j with ⟨rfl, -⟩ | ⟨-, hrest, -⟩ | ⟨-, -, hsame⟩
    · exact absurd hkeyj.symm hkey
    · exact absurd (hkeyj.symm.trans (h.waits_of_mem hline hrest).2.1) hkey
    · rw [hsame]

/-- A stint that gives its lock back is done, and the next in the line has the lock. -/
theorem finish (htimed : Timed stint total times) (hi : i < total) (hphase : s.phase i = .leaves) :
    (s.finish stint i rest).Sound stint total times := by
  obtain ⟨hfirst, hsorted⟩ := List.pairwise_cons.mp (hline ▸ h.sorted (stint i).key)
  have hpending (j : Nat) : ((s.finish stint i rest).phase j).Pending ↔ (s.phase j).Pending := by
    rcases h.finish_cases hline j with ⟨rfl, hdone⟩ | ⟨-, -, hwaits, hhas⟩ | ⟨-, -, hsame⟩
    · rw [hdone, hphase]
      exact Iff.rfl
    · rw [hwaits, hhas]
      exact Iff.rfl
    · rw [hsame]
  refine ⟨fun j hj ↦ h.fits_finish hline htimed hi hphase hj, h.mem_line_finish hline, fun key ↦ ?_,
    fun j hj k hk hnot hp ↦ ?_, fun j hj hdone k hk ↦ ?_⟩
  · by_cases hkey : key = (stint i).key
    · rwa [hkey, line_finish]
    · rw [line_finish_of_ne hkey]
      exact h.sorted key
  · exact h.later j hj k hk (mt (hpending j).mpr hnot) ((hpending k).mp hp)
  · have hold : k ∈ s.line (stint j).key := by
      by_cases hkey : (stint j).key = (stint i).key
      · rw [hkey, line_finish] at hk
        rw [hkey, hline]
        exact List.mem_cons_of_mem i hk
      · rwa [line_finish_of_ne hkey] at hk
    rcases h.finish_cases hline j with ⟨rfl, -⟩ | ⟨-, -, -, hhas⟩ | ⟨-, -, hsame⟩
    · rw [line_finish] at hk
      exact hfirst k hk
    · rw [hhas] at hdone
      cases hdone
    · exact h.earlier j hj (hsame ▸ hdone) k hold

end

/-! ### Time passing -/

/-- Time passes when nobody can go on. -/
theorem passTo {moment : Nat} (hle : s.clock ≤ moment)
    (hidle : ∀ i < total, s.phase i ≠ .asks ∧ s.phase i ≠ .has ∧ s.phase i ≠ .leaves)
    (hstart : ∀ i < total, s.phase i = .sleeps → moment ≤ (stint i).start)
    (hend : ∀ i < total, s.phase i = .holds → moment ≤ (times i).2) :
    (s.passTo stint times moment).Sound stint total times := by
  refine h.relabel rfl (fun i ↦ ?_) (fun i ↦ ?_) (fun i hi ↦ ?_) fun i hi ↦ ?_
  all_goals dsimp only [Course.passTo] at *
  · split
    · split <;> simp_all [Phase.Pending]
    · split <;> simp_all [Phase.Pending]
    · exact Iff.rfl
  · split
    · split <;> simp_all [Phase.Lined]
    · split <;> simp_all [Phase.Lined]
    · exact Iff.rfl
  · split at hi
    · split at hi <;> cases hi
    · split at hi <;> cases hi
    · exact hi
  · obtain ⟨hasks, hhas, hleaves⟩ := hidle i hi
    have hfits := h.fits i hi
    cases hphase : s.phase i with
    | unborn => trivial
    | sleeps =>
      dsimp only
      split
      · assumption
      · exact Nat.lt_of_le_of_ne (hstart i hi hphase) (Ne.symm ‹_›)
    | waits =>
      rw [hphase] at hfits
      exact ⟨Nat.le_trans hfits.1 hle, hfits.2⟩
    | holds =>
      rw [hphase] at hfits
      dsimp only
      split
      · exact ⟨hfits.1, ‹_›⟩
      · exact ⟨hfits.1, Nat.lt_of_le_of_ne (hend i hi hphase) (Ne.symm ‹_›)⟩
    | done =>
      rw [hphase] at hfits
      exact Nat.le_trans hfits hle
    | asks => exact absurd hphase hasks
    | has => exact absurd hphase hhas
    | leaves => exact absurd hphase hleaves

/-- A stint that is the first to ask, and finds nobody in the line, takes its lock in time. -/
theorem acquired_eq (htimed : Timed stint total times) (hi : i < total) (hphase : s.phase i = .asks)
    (hleast : ∀ j < total, j ≠ i → (s.phase j).Pending → Before stint i j)
    (hnil : s.line (stint i).key = []) : (times i).1 = s.clock := by
  have hstart := h.fits i hi
  rw [hphase] at hstart
  by_cases hex : ∃ j, Last stint total j i
  · obtain ⟨j, hlast⟩ := hex
    have hdone := h.done_of_last hi hlast hleast (hnil ▸ List.not_mem_nil)
    have hfits := h.fits j hlast.lt
    rw [hdone] at hfits
    rw [htimed.next j i hi hlast, hstart]
    exact Nat.max_eq_left hfits
  · rw [htimed.first i hi fun j hlast ↦ hex ⟨j, hlast⟩]
    exact hstart

end Sound

end Course

end Stint

end PieceKeeper
