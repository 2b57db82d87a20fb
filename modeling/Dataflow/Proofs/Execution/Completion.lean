import Dataflow.Proofs.Execution.Schedule
import Mathlib.Tactic.Choose

/-! Executions can always be completed. Programs are finite trees, so a worker that gets turns comes
to its meeting or to its end; once all workers have, the meeting is open and stays open, and each
can go on to its end. -/
namespace Dataflow

variable {τ M κ ε α : Type}

/-- What is left of a program after one act. -/
inductive Program.Part : Program τ M ε α → Program τ M ε α → Prop where
  | perform (effect : Effect M) (next : Unit → Program τ M ε α) (u : Unit) :
      Part (next u) (.perform effect next)
  | claim (channel : UInt32) (kind : τ) (next : Except ClaimError Nat → Program τ M ε α)
      (answer : Except ClaimError Nat) : Part (next answer) (.claim channel kind next)
  | take (channel : UInt32) (next : Option M → Program τ M ε α) (message : Option M) :
      Part (next message) (.take channel next)
  | drain (channel : UInt32) (next : List M → Program τ M ε α) (messages : List M) :
      Part (next messages) (.drain channel next)
  | meet (next : Unit → Program τ M ε α) (u : Unit) : Part (next u) (.meet next)

/-- Programs are finite. -/
theorem Program.part_wellFounded :
    WellFounded (Part : Program τ M ε α → Program τ M ε α → Prop) := by
  refine ⟨fun program => ?_⟩
  induction program with
  | finish result => exact ⟨_, fun _ hPart => nomatch hPart⟩
  | fail error => exact ⟨_, fun _ hPart => nomatch hPart⟩
  | perform effect next ih => exact ⟨_, fun _ hPart => by cases hPart; exact ih _⟩
  | claim channel kind next ih => exact ⟨_, fun _ hPart => by cases hPart; exact ih _⟩
  | take channel next ih => exact ⟨_, fun _ hPart => by cases hPart; exact ih _⟩
  | drain channel next ih => exact ⟨_, fun _ hPart => by cases hPart; exact ih _⟩
  | meet next ih => exact ⟨_, fun _ hPart => by cases hPart; exact ih _⟩

/-- An act ends the program or leaves a part of it. -/
theorem World.act_part [DecidableEq τ] (world : World τ M) (worker : Nat)
    (program : Program τ M ε α) :
    (∃ rest, rest.Part program ∧ ((world.act worker program).1 = .running rest ∨
      (world.act worker program).1 = .waiting rest)) ∨
    (world.act worker program).1.ended = true := by
  cases program with
  | finish result => exact Or.inr rfl
  | fail error => exact Or.inr rfl
  | perform effect next => exact Or.inl ⟨_, .perform effect next (), Or.inl rfl⟩
  | claim channel kind next => exact Or.inl ⟨_, .claim channel kind next _, Or.inl rfl⟩
  | take channel next => exact Or.inl ⟨_, .take channel next _, Or.inl rfl⟩
  | drain channel next => exact Or.inl ⟨_, .drain channel next _, Or.inl rfl⟩
  | meet next => exact Or.inl ⟨_, .meet next (), Or.inr rfl⟩

namespace Execution

variable [DecidableEq τ] {execution : Execution τ M κ ε α} {worker : Nat} {runner : Runner τ M ε α}

/-- Some turns lead from the execution to one with the property. -/
def Leads (start : Nat → Except κ (Program τ M ε α)) (execution : Execution τ M κ ε α)
    (P : Execution τ M κ ε α → Prop) : Prop :=
  ∃ turns, P (execution.after start turns)

variable {start : Nat → Except κ (Program τ M ε α)} {P Q : Execution τ M κ ε α → Prop}

/-- What holds already needs no turn. -/
theorem Leads.here (h : P execution) : Leads start execution P := ⟨[], h⟩

/-- One turn may be taken at once. -/
theorem Leads.turn (turn : Turn) (h : Leads start (execution.step start turn) P) :
    Leads start execution P := by
  obtain ⟨turns, hTurns⟩ := h
  exact ⟨turn :: turns, hTurns⟩

/-- Turns may be taken after turns. -/
theorem Leads.trans (h : Leads start execution P) (hNext : ∀ reached, P reached →
    Leads start reached Q) : Leads start execution Q := by
  obtain ⟨turns, hTurns⟩ := h
  obtain ⟨more, hMore⟩ := hNext _ hTurns
  refine ⟨turns ++ more, ?_⟩
  rw [after, List.foldl_append]
  exact hMore

/-- While the meeting is open, a worker comes to its end with enough turns. -/
theorem leads_to_end (start : Nat → Except κ (Program τ M ε α)) (program : Program τ M ε α)
    (h : execution.Sound) (hOpen : execution.isOpen = true)
    (hRunner : execution.launch.threads[worker]? = some runner)
    (hStatus : runner.status = .running program) :
    Leads start execution fun reached => reached.isOpen = true ∧
      Moved worker (fun runner => runner.status.ended = true) execution reached := by
  induction program using Program.part_wellFounded.induction generalizing execution runner with
  | _ program ih =>
      have hMet : runner.met = true := by
        have hRests := (isOpen_iff.mp hOpen).2 runner (List.mem_of_getElem? hRunner)
        rw [Rests, hStatus] at hRests
        exact hRests.resolve_right Bool.false_ne_true
      have hMoved := moved_settle h hRunner (execution.world.act worker program).1
        (execution.world.act worker program).2
      rw [← act_of_running hRunner hStatus] at hMoved
      have hOpen' : (execution.act worker).isOpen = true :=
        (hMoved.weaken fun after hAfter => Or.inl (hAfter.2.1 hMet)).isOpen hOpen
      refine .turn (.worker worker) ?_
      change Leads start (execution.act worker) _
      obtain ⟨runner', hRunner', hStatus', hMet', -⟩ := hMoved.here
      rcases execution.world.act_part worker program with
        ⟨rest, hPart, hRunning | hWaiting⟩ | hEnded
      · obtain ⟨turns, hStays, hTurns⟩ :=
          ih rest hPart hMoved.sound hOpen' hRunner' (hStatus'.trans hRunning)
        exact ⟨turns, hStays, hMoved.trans hTurns⟩
      · -- At its meeting the worker needs one more turn to go on.
        have hAgain := moved_settle hMoved.sound hRunner' (.running rest)
          (execution.act worker).world
        rw [← act_of_open hRunner' (hStatus'.trans hWaiting) hOpen'] at hAgain
        have hOpenAgain : ((execution.act worker).act worker).isOpen = true :=
          (hAgain.weaken fun after hAfter => Or.inl (hAfter.2.1 (hMet' hMet))).isOpen hOpen'
        obtain ⟨runner'', hRunner'', hStatus'', -, -⟩ := hAgain.here
        obtain ⟨turns, hStays, hTurns⟩ :=
          ih rest hPart hAgain.sound hOpenAgain hRunner'' hStatus''
        exact ⟨.worker worker :: turns, hStays, (hMoved.trans hAgain).trans hTurns⟩
      · refine .here ⟨hOpen', hMoved.weaken fun after hAfter => ?_⟩
        rw [hAfter.1]
        exact hEnded

/-- What one worker can come to without moving the others, all can. -/
theorem leads_to_all {start : Nat → Except κ (Program τ M ε α)}
    {I : Execution τ M κ ε α → Prop} {P : Runner τ M ε α → Prop}
    (hLead : ∀ reached worker, I reached → worker < reached.launch.threads.length →
      ∃ turns, I (reached.after start turns) ∧ Moved worker P reached (reached.after start turns))
    (h : I execution) : Leads start execution fun reached => I reached ∧
      reached.count = execution.count ∧
      reached.launch.threads.length = execution.launch.threads.length ∧
      ∀ runner ∈ reached.launch.threads, P runner := by
  choose! turns hTurns using hLead
  let go (reached : Execution τ M κ ε α) (worker : Nat) : Execution τ M κ ε α :=
    reached.after start (turns reached worker)
  have hGo (reached : Execution τ M κ ε α) (worker : Nat) :
      ∃ turns, reached.after start turns = go reached worker := ⟨_, rfl⟩
  obtain ⟨all, hAll⟩ :=
    foldl_after hGo (List.range execution.launch.threads.length) execution
  refine ⟨all, ?_⟩
  rw [hAll]
  exact forall_of_shift (fun reached worker hReached hWorker =>
    (hTurns reached worker hReached hWorker).imp_right Moved.toShifted) h

/-- Once everyone has been launched, the meeting can be opened. -/
theorem leads_to_open (start : Nat → Except κ (Program τ M ε α)) (h : execution.Sound)
    (hCount : execution.launch.threads.length = execution.count) :
    Leads start execution fun reached => reached.Sound ∧ reached.isOpen = true := by
  obtain ⟨turns, hTurns⟩ :=
    foldl_after (advance_after start) (List.range execution.launch.threads.length) execution
  obtain ⟨hSound, hSameCount, hLength, hRests⟩ := forall_of_shift
    (fun reached worker hReached hWorker =>
      have hMoved := moved_advance hReached hWorker
      ⟨hMoved.sound, hMoved.toShifted⟩) h
  refine ⟨turns, ?_⟩
  rw [hTurns]
  exact ⟨hSound, isOpen_iff.mpr ⟨hLength.trans (hCount.trans hSameCount.symm), hRests⟩⟩

/-- While the meeting is open, every worker can come to its end. -/
theorem leads_from_open (start : Nat → Except κ (Program τ M ε α)) (h : execution.Sound)
    (hOpen : execution.isOpen = true) : Leads start execution Over := by
  have hLead (reached : Execution τ M κ ε α) (worker : Nat)
      (hReached : reached.Sound ∧ reached.isOpen = true)
      (hWorker : worker < reached.launch.threads.length) :
      Leads start reached fun next => (next.Sound ∧ next.isOpen = true) ∧
        Moved worker (fun runner => runner.status.ended = true) reached next := by
    obtain ⟨hSound, hOpen⟩ := hReached
    have hRunner := List.getElem?_eq_getElem hWorker
    cases hStatus : (reached.launch.threads[worker]).status with
    | running program =>
        obtain ⟨turns, hStays, hMoved⟩ := leads_to_end start program hSound hOpen hRunner hStatus
        exact ⟨turns, ⟨hMoved.sound, hStays⟩, hMoved⟩
    | waiting program =>
        have hMet := hSound.met _ (List.mem_of_getElem? hRunner) program hStatus
        have hAgain := moved_settle hSound hRunner (.running program) reached.world
        rw [← act_of_open hRunner hStatus hOpen] at hAgain
        have hOpen' : (reached.act worker).isOpen = true :=
          (hAgain.weaken fun after hAfter => Or.inl (hAfter.2.1 hMet)).isOpen hOpen
        obtain ⟨runner', hRunner', hStatus', -, -⟩ := hAgain.here
        obtain ⟨turns, hStays, hMoved⟩ :=
          leads_to_end start program hAgain.sound hOpen' hRunner' hStatus'
        exact ⟨.worker worker :: turns, ⟨hMoved.sound, hStays⟩, hAgain.trans hMoved⟩
    | returned result =>
        exact .here ⟨⟨hSound, hOpen⟩, .refl hSound hRunner (by rw [hStatus]; rfl)⟩
    | failed error =>
        exact .here ⟨⟨hSound, hOpen⟩, .refl hSound hRunner (by rw [hStatus]; rfl)⟩
  obtain ⟨turns, ⟨-, hStays⟩, -, -, hEnded⟩ := leads_to_all hLead ⟨h, hOpen⟩
  exact ⟨turns, (isOpen_iff.mp hStays).1, hEnded⟩

/-- An execution in which no launch fails can always be completed. -/
theorem leads_to_over {start : Nat → Except κ (Program τ M ε α)}
    (hStart : ∀ index, ∃ program, start index = .ok program) (h : execution.Sound) :
    Leads start execution Over := by
  obtain ⟨hLaunched, hCount⟩ := launched hStart h
  have hAll : Leads start execution fun reached =>
      reached.Sound ∧ reached.launch.threads.length = reached.count := ⟨_, hLaunched, hCount⟩
  refine hAll.trans fun reached hReached => ?_
  refine (leads_to_open start hReached.1 hReached.2).trans fun reached hOpen => ?_
  exact leads_from_open start hOpen.1 hOpen.2

end Execution

end Dataflow
