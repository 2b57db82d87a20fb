import Dataflow.Proofs.Execution.Completion
import Dataflow.Proofs.Supervision.Caller
import Mathlib.Logic.Hydra

/-! The caller of a supervised execution answers, provided that it and every worker get turns again
and again. Each turn either changes nothing or brings the execution nearer to its end, and as long
as the caller has not answered there is always someone whose turn does change something. -/
namespace Dataflow

variable {τ M κ ε α : Type}

/-! ### Fair schedules -/

/-- It is the turn of the caller or of one of so many workers. -/
def Turn.Within (count : Nat) : Turn → Prop
  | .launcher => True
  | .worker index => index < count

/-- The caller and every worker get turns again and again. -/
def Fair (count : Nat) (schedule : Nat → Turn) : Prop :=
  ∀ turn : Turn, turn.Within count → ∀ n, ∃ m ≥ n, schedule m = turn

/-- The workers one after the other, then the caller, and again from the first. -/
def roundRobin (count n : Nat) : Turn :=
  if n % (count + 1) < count then .worker (n % (count + 1)) else .launcher

/-- Taking turns in a circle is fair. -/
theorem fair_roundRobin (count : Nat) : Fair count (roundRobin count) := by
  -- a turn that comes at a place of the round comes at that place of every later round
  have hPlace {turn : Turn} {place : Nat} (hPlace : place < count + 1)
      (hTurn : roundRobin count place = turn) (n : Nat) :
      ∃ m ≥ n, roundRobin count m = turn := by
    refine ⟨place + (count + 1) * n, ?_, ?_⟩
    · exact Nat.le_trans (Nat.le_mul_of_pos_left n (Nat.succ_pos count)) (Nat.le_add_left _ _)
    · rw [roundRobin, Nat.add_mul_mod_self_left]
      exact hTurn
  rintro (_ | index) hWithin n
  · exact hPlace (Nat.lt_succ_self count) (by simp [roundRobin]) n
  · have hIndex : index < count := hWithin
    refine hPlace (Nat.lt_succ_of_lt hIndex) ?_ n
    rw [roundRobin, Nat.mod_eq_of_lt (Nat.lt_succ_of_lt hIndex), if_pos hIndex]

/-- If turns only ever lead down a well-founded relation, and there is always someone whose turn
does as long as the goal has not been reached, then it is reached under every fair schedule. -/
theorem Fair.reaches {S : Type} {step : S → Turn → S} {state : Nat → S} {schedule : Nat → Turn}
    {count : Nat} {less : S → S → Prop} (h : Fair count schedule) (hLess : WellFounded less)
    (goal : S → Prop)
    (hState : ∀ n, state (n + 1) = step (state n) (schedule n))
    (hDown : ∀ n, state (n + 1) = state n ∨ less (state (n + 1)) (state n))
    (hSomeone : ∀ n, ¬goal (state n) →
      ∃ turn : Turn, turn.Within count ∧ less (step (state n) turn) (state n)) :
    ∃ n, goal (state n) := by
  have hFrom (s : S) : ∀ n, state n = s → ∃ m, goal (state m) := by
    induction s using hLess.induction with
    | _ s ih =>
        rintro n rfl
        by_cases hGoal : goal (state n)
        · exact ⟨n, hGoal⟩
        -- up to any later time something has happened, or nothing at all
        have hLater (k : Nat) : (∃ m, less (state m) (state n)) ∨ state (n + k) = state n := by
          induction k with
          | zero => exact Or.inr rfl
          | succ k ihk =>
              rcases ihk with hLess | hSame
              · exact Or.inl hLess
              · rcases hDown (n + k) with hStill | hLess
                · exact Or.inr (hStill.trans hSame)
                · exact Or.inl ⟨n + k + 1, hSame ▸ hLess⟩
        obtain ⟨turn, hTurn, hTurnLess⟩ := hSomeone n hGoal
        obtain ⟨m, hm, hSchedule⟩ := h turn hTurn n
        obtain ⟨k, rfl⟩ := Nat.exists_eq_add_of_le hm
        rcases hLater k with ⟨m, hLess⟩ | hSame
        · exact ih _ hLess m rfl
        · refine ih _ ?_ (n + k + 1) rfl
          rw [hState, hSchedule, hSame]
          exact hTurnLess
  exact hFrom _ 0 rfl

/-! ### Nearer to the end -/

/-- Where a worker stands after a turn of its own that does something. -/
inductive Status.Follows [DecidableEq τ] : Status τ M ε α → Status τ M ε α → Prop where
  | act (world : World τ M) (worker : Nat) (program : Program τ M ε α) :
      Follows (world.act worker program).1 (.running program)
  | resume (program : Program τ M ε α) : Follows (.running program) (.waiting program)

/-- No worker acts for ever. -/
theorem Status.follows_wellFounded [DecidableEq τ] :
    WellFounded (Follows : Status τ M ε α → Status τ M ε α → Prop) := by
  have hEnded {status : Status τ M ε α} (h : status.ended = true) : Acc Follows status :=
    ⟨_, fun later hLater => by cases hLater <;> cases h⟩
  have hRunning (program : Program τ M ε α) : Acc Follows (.running program) := by
    induction program using Program.part_wellFounded.induction with
    | _ program ih =>
        refine ⟨_, fun later hLater => ?_⟩
        cases hLater with
        | act world worker program =>
            rcases world.act_part worker program with
              ⟨rest, hPart, hRest | hRest⟩ | hOver
            · rw [hRest]
              exact ih rest hPart
            · rw [hRest]
              exact ⟨_, fun later hLater => by cases hLater; exact ih rest hPart⟩
            · exact hEnded hOver
  refine ⟨fun status => ?_⟩
  cases status with
  | running program => exact hRunning program
  | waiting program => exact ⟨_, fun later hLater => by cases hLater; exact hRunning program⟩
  | returned result => exact hEnded rfl
  | failed error => exact hEnded rfl

/-- To put another item in the place of one is to add the one and take the other away. -/
theorem coe_set_add_singleton {S : Type} {items : List S} {n : Nat} (h : n < items.length)
    (item : S) : ((items.set n item : List S) : Multiset S) + {items[n]} = items + {item} := by
  have hSet : ((items.set n item : List S) : Multiset S) = item ::ₘ items.eraseIdx n :=
    Multiset.coe_eq_coe.mpr (List.set_perm_cons_eraseIdx h item)
  have hOld : (items : Multiset S) = items[n] ::ₘ items.eraseIdx n :=
    Multiset.coe_eq_coe.mpr (List.getElem_cons_eraseIdx_perm h).symm
  calc ((items.set n item : List S) : Multiset S) + {items[n]}
      = (items[n] ::ₘ items.eraseIdx n) + {item} := by
        rw [hSet, add_comm, Multiset.singleton_add, add_comm (_ ::ₘ _), Multiset.singleton_add,
          Multiset.cons_swap]
    _ = items + {item} := by rw [← hOld]

namespace Execution

variable [DecidableEq τ] {execution : Execution τ M κ ε α}

def statuses (execution : Execution τ M κ ε α) : Multiset (Status τ M ε α) :=
  execution.launch.threads.map (·.status)

/-- A worker that goes on brings the workers as a whole nearer to their ends. -/
theorem statuses_settle {worker : Nat} {runner : Runner τ M ε α} {status : Status τ M ε α}
    (hRunner : execution.launch.threads[worker]? = some runner)
    (hFollows : status.Follows runner.status) (world : World τ M) :
    Relation.CutExpand Status.Follows
      (execution.settle worker runner status world).statuses execution.statuses := by
  refine ⟨{status}, runner.status, fun later hLater => ?_, ?_⟩
  · rw [Multiset.mem_singleton.mp hLater]
    exact hFollows
  · obtain ⟨hWorker, rfl⟩ := List.getElem?_eq_some_iff.mp hRunner
    have hLength : worker < (execution.launch.threads.map (·.status)).length := by
      rwa [List.length_map]
    have hSet := coe_set_add_singleton hLength status
    rw [List.getElem_map] at hSet
    rw [statuses, threads_settle, List.map_set]
    exact hSet

omit [DecidableEq τ] in
/-- A launch that is asked for is one less to come. -/
theorem length_asked_launchNext (start : Nat → Except κ (Program τ M ε α))
    (h : execution.launchingOver = false) :
    execution.launch.asked.length < execution.count ∧
    (execution.launchNext start).launch.asked.length = execution.launch.asked.length + 1 := by
  rw [launchingOver, Bool.or_eq_false_iff, decide_eq_false_iff_not, Nat.not_le] at h
  obtain ⟨hFault, hMore⟩ := h
  have hNone : execution.launch.fault = none := by simpa using hFault
  refine ⟨hMore, ?_⟩
  simp only [launchNext, if_pos hMore, Launch.next, hNone]
  split <;> exact List.length_append

end Execution

/-! ### Workers that never wait -/

/-- Whatever it is told, the program comes to at most `n` meetings. -/
def Program.Meets : Nat → Program τ M ε α → Prop
  | _, .finish _ => True
  | _, .fail _ => True
  | n, .perform _ next => ∀ u, (next u).Meets n
  | n, .claim _ _ next => ∀ answer, (next answer).Meets n
  | n, .take _ next => ∀ message, (next message).Meets n
  | n, .drain _ next => ∀ messages, (next messages).Meets n
  | 0, .meet _ => False
  | n + 1, .meet next => ∀ u, (next u).Meets n

/-- Whatever it is told, the worker comes to at most `n` meetings, that at which it waits among
them. -/
def Status.Meets : Nat → Status τ M ε α → Prop
  | n, .running program => program.Meets n
  | 0, .waiting _ => False
  | n + 1, .waiting program => program.Meets n
  | _, .returned _ | _, .failed _ => True

/-- An act brings no new meetings. -/
theorem World.act_meets [DecidableEq τ] (world : World τ M) (worker : Nat) {n : Nat}
    {program : Program τ M ε α} (h : program.Meets n) : (world.act worker program).1.Meets n := by
  cases program with
  | finish result => cases n <;> trivial
  | fail error => cases n <;> trivial
  | perform effect next => exact h ()
  | claim channel kind next => exact h _
  | take channel next => exact h _
  | drain channel next => exact h _
  | meet next =>
      cases n with
      | zero => exact h.elim
      | succ n => exact h ()

namespace Execution

variable {execution : Execution τ M κ ε α} {start : Nat → Except κ (Program τ M ε α)}

/-- No worker will ever have to wait for one that does not come: either no launch fails, so that
everyone comes, or no worker waits. -/
def Unhindered (start : Nat → Except κ (Program τ M ε α)) (execution : Execution τ M κ ε α) :
    Prop :=
  (execution.Sound ∧ ∀ index < execution.count, ∃ program, start index = .ok program) ∨
  ((∀ runner ∈ execution.launch.threads, runner.status.Meets 0) ∧
    ∀ index program, start index = .ok program → program.Meets 0)

variable [DecidableEq τ]

/-- The number of workers to be launched is fixed. -/
theorem Goes.count_eq {next : Execution τ M κ ε α} {deed? : Option (Deed τ M ε α)}
    (hGoes : Goes start execution next deed?) : next.count = execution.count := by
  cases hGoes <;> rfl

theorem count_after (execution : Execution τ M κ ε α) (turns : List Turn) :
    (execution.after start turns).count = execution.count :=
  after_of_step (P := fun reached => reached.count = execution.count)
    (fun reached turn hReached => (reached.goes_step start turn).count_eq.trans hReached) rfl turns

/-- Workers without meetings stay so through every turn. -/
theorem Goes.meets {next : Execution τ M κ ε α} {deed? : Option (Deed τ M ε α)}
    (hGoes : Goes start execution next deed?)
    (hStart : ∀ index program, start index = .ok program → program.Meets 0)
    (h : ∀ runner ∈ execution.launch.threads, runner.status.Meets 0) :
    ∀ runner ∈ next.launch.threads, runner.status.Meets 0 := by
  cases hGoes with
  | nowhere => exact h
  | launched fault more started =>
      intro runner hRunner
      rcases List.mem_append.mp hRunner with hOld | hNew
      · exact h runner hOld
      · rw [List.mem_singleton.mp hNew]
        exact hStart _ _ started
  | refused fault more started => exact h
  | acted deed world here running =>
      intro runner hRunner
      rcases List.mem_or_eq_of_mem_set hRunner with hOld | hNew
      · exact h runner hOld
      · rw [hNew]
        have hHere := h _ (List.mem_of_getElem? here)
        rw [running] at hHere
        exact deed.world.act_meets deed.worker hHere
  | resumed here waiting isOpen =>
      have hHere := h _ (List.mem_of_getElem? here)
      rw [waiting] at hHere
      exact hHere.elim

/-- Nobody comes to wait for anybody. -/
theorem Unhindered.step (h : execution.Unhindered start) (turn : Turn) :
    (execution.step start turn).Unhindered start := by
  have hGoes := execution.goes_step start turn
  rcases h with ⟨hSound, hStart⟩ | ⟨hNever, hStart⟩
  · exact Or.inl ⟨hSound.step hStart turn, hGoes.count_eq ▸ hStart⟩
  · exact Or.inr ⟨hGoes.meets hStart hNever, hStart⟩

theorem Unhindered.after (h : execution.Unhindered start) (turns : List Turn) :
    (execution.after start turns).Unhindered start :=
  after_of_step (fun _ turn hReached => hReached.step turn) h turns

/-- Soundness survives any turns. -/
theorem Sound.after (h : execution.Sound)
    (hStart : ∀ index < execution.count, ∃ program, start index = .ok program)
    (turns : List Turn) : (execution.after start turns).Sound := by
  have hStep (reached : Execution τ M κ ε α) (turn : Turn)
      (hReached : reached.Sound ∧ reached.count = execution.count) :
      (reached.step start turn).Sound ∧ (reached.step start turn).count = execution.count :=
    ⟨hReached.1.step (hReached.2 ▸ hStart) turn,
      (reached.goes_step start turn).count_eq.trans hReached.2⟩
  exact (after_of_step hStep ⟨h, rfl⟩ turns).1

omit [DecidableEq τ] in
/-- Once launching is over without a refusal all workers are there. -/
theorem Sound.length_eq (h : execution.Sound) (hOver : execution.launchingOver = true) :
    execution.launch.threads.length = execution.count := by
  have hAll := count_le_asked hOver h.fault
  rw [h.asked] at hAll
  exact Nat.le_antisymm h.count hAll

omit [DecidableEq τ] in
/-- If everyone has been launched and the meeting is not open, someone has still to come to it. -/
theorem Sound.exists_running (h : execution.Sound) (hOver : execution.launchingOver = true)
    (hShut : execution.isOpen = false) :
    ∃ runner ∈ execution.launch.threads, ∃ program, runner.status = .running program := by
  by_contra hNone
  push Not at hNone
  refine Bool.eq_false_iff.mp hShut (isOpen_iff.mpr ⟨h.length_eq hOver, fun runner hRunner => ?_⟩)
  cases hStatus : runner.status with
  | running program => exact absurd hStatus (hNone runner hRunner program)
  | waiting program => exact Or.inl (h.met runner hRunner program hStatus)
  | returned result => exact Or.inr (by rw [hStatus]; rfl)
  | failed error => exact Or.inr (by rw [hStatus]; rfl)

/-- Once the launching is over and not everyone has ended, someone can go on. -/
theorem Unhindered.someone (h : execution.Unhindered start) (hOver : execution.launchingOver = true)
    {runner : Runner τ M ε α} (hRunner : runner ∈ execution.launch.threads)
    (hEnded : runner.status.ended = false) :
    ∃ worker runner status world, execution.launch.threads[worker]? = some runner ∧
      status.Follows runner.status ∧
      execution.act worker = execution.settle worker runner status world := by
  have hRunning {runner : Runner τ M ε α} {program : Program τ M ε α}
      (hRunner : runner ∈ execution.launch.threads) (hStatus : runner.status = .running program) :
      ∃ worker runner status world, execution.launch.threads[worker]? = some runner ∧
        status.Follows runner.status ∧
        execution.act worker = execution.settle worker runner status world := by
    obtain ⟨worker, hWorker⟩ := List.mem_iff_getElem?.mp hRunner
    exact ⟨worker, runner, _, _, hWorker, hStatus ▸ .act _ _ _, act_of_running hWorker hStatus⟩
  cases hStatus : runner.status with
  | running program => exact hRunning hRunner hStatus
  | waiting program =>
      rcases h with ⟨hSound, -⟩ | ⟨hNever, -⟩
      · cases hOpen : execution.isOpen with
        | true =>
            obtain ⟨worker, hWorker⟩ := List.mem_iff_getElem?.mp hRunner
            exact ⟨worker, runner, _, _, hWorker, hStatus ▸ .resume _,
              act_of_open hWorker hStatus hOpen⟩
        | false =>
            obtain ⟨other, hOther, program, hProgram⟩ := hSound.exists_running hOver hOpen
            exact hRunning hOther hProgram
      · have hHere := hNever runner hRunner
        rw [hStatus] at hHere
        exact hHere.elim
  | returned result => rw [hStatus] at hEnded; cases hEnded
  | failed error => rw [hStatus] at hEnded; cases hEnded

end Execution

/-! ### The caller answers -/

namespace Supervision

variable {supervision later : Supervision τ M κ ε α} {start : Nat → Except κ (Program τ M ε α)}

/-- The acts that are still to come from the caller, at most. -/
def toGo (supervision : Supervision τ M κ ε α) : Nat :=
  match supervision.phase with
  | .launching => 2 * supervision.execution.count + 2 - supervision.execution.launch.asked.length
  | .joining next => supervision.execution.launch.threads.length - next + 1
  | .answered _ => 0

variable [DecidableEq τ]

/-- The caller is nearer to its answer, or, if not, the workers are nearer to their ends. -/
def Nearer : Supervision τ M κ ε α → Supervision τ M κ ε α → Prop :=
  InvImage (Prod.Lex (· < ·) (Relation.CutExpand Status.Follows))
    fun supervision => (supervision.toGo, supervision.execution.statuses)

/-- A supervision cannot come nearer to its answer for ever. -/
theorem nearer_wellFounded :
    WellFounded (Nearer : Supervision τ M κ ε α → Supervision τ M κ ε α → Prop) :=
  InvImage.wf _ (WellFounded.prod_lex Nat.lt_wfRel.wf Status.follows_wellFounded.cutExpand)

/-- Whenever a worker acts the answer is nearer. -/
theorem nearer_of_settle {worker : Nat} {runner : Runner τ M ε α} {status : Status τ M ε α}
    {world : World τ M} (hRunner : supervision.execution.launch.threads[worker]? = some runner)
    (hFollows : status.Follows runner.status)
    (hAct : supervision.execution.act worker =
      supervision.execution.settle worker runner status world) :
    (supervision.act worker).Nearer supervision := by
  have hToGo : (supervision.act worker).toGo = supervision.toGo := by
    have hLength : (supervision.execution.act worker).launch.threads.length =
        supervision.execution.launch.threads.length := by
      rw [hAct, Execution.threads_settle, List.length_set]
    have hAsked : (supervision.execution.act worker).launch.asked =
        supervision.execution.launch.asked := by
      rw [hAct]
      rfl
    have hCount : (supervision.execution.act worker).count = supervision.execution.count := by
      rw [hAct]
      rfl
    simp only [toGo, act, hLength, hAsked, hCount]
  refine Prod.lex_def.mpr (Or.inr ⟨hToGo, ?_⟩)
  change Relation.CutExpand _ (supervision.execution.act worker).statuses _
  rw [hAct]
  exact Execution.statuses_settle hRunner hFollows world

omit [DecidableEq τ] in
theorem threads_length_le (h : supervision.execution.Orderly start) :
    supervision.execution.launch.threads.length ≤ supervision.execution.count := by
  have hCount := h.count
  cases hFault : supervision.execution.launch.fault with
  | none =>
      have hLength := h.sound hFault
      omega
  | some error =>
      have hLength := (h.failed error hFault).1
      omega

/-- An act of the caller brings it nearer to its answer, unless it waits or has answered. -/
theorem Calls.toGo_lt (hCalls : supervision.Calls start later)
    (h : supervision.execution.Orderly start) :
    later.toGo < supervision.toGo ∨ later = supervision ∧
      ((∃ next runner, supervision.phase = .joining next ∧
        supervision.execution.launch.threads[next]? = some runner ∧
        runner.status.ended = false) ∨ ∃ error, supervision.phase = .answered error) := by
  have hThreads := threads_length_le h
  have hCount := h.count
  cases hCalls with
  | launch phase more =>
      obtain ⟨hMore, hAsked⟩ := Execution.length_asked_launchNext start more
      have hSame : (supervision.execution.launchNext start).count = supervision.execution.count :=
        (supervision.execution.goes_launchNext start).count_eq
      refine Or.inl ?_
      simp only [toGo, phase, hAsked, hSame]
      omega
  | join phase done =>
      refine Or.inl ?_
      simp only [toGo, phase]
      omega
  | joined phase here ended =>
      have hNext := (List.getElem?_eq_some_iff.mp here).1
      refine Or.inl ?_
      simp only [toGo, phase]
      omega
  | blocked phase here ended => exact Or.inr ⟨rfl, Or.inl ⟨_, _, phase, here, ended⟩⟩
  | answer phase none =>
      refine Or.inl ?_
      simp only [toGo, phase]
      omega
  | answered phase => exact Or.inr ⟨rfl, Or.inr ⟨_, phase⟩⟩

/-- Whenever the caller does something the answer is nearer. -/
theorem nearer_of_lt (h : later.toGo < supervision.toGo) : later.Nearer supervision :=
  Prod.lex_def.mpr (Or.inl h)

/-- A turn does nothing or brings the answer nearer. -/
theorem step_nearer (h : supervision.execution.Orderly start) (turn : Turn) :
    supervision.step start turn = supervision ∨
      (supervision.step start turn).Nearer supervision := by
  cases turn with
  | launcher =>
      rcases (supervision.calls_call start).toGo_lt h with hLess | ⟨hSame, -⟩
      · exact Or.inr (nearer_of_lt hLess)
      · exact Or.inl hSame
  | worker index =>
      cases hRunner : supervision.execution.launch.threads[index]? with
      | none =>
          refine Or.inl (act_of_idle (Execution.act_of_none hRunner) ?_)
          rw [Execution.status?, hRunner]
          rfl
      | some runner =>
          have hStatus? : supervision.execution.status? index = some runner.status := by
            rw [Execution.status?, hRunner, Option.map_some]
          cases hStatus : runner.status with
          | running program =>
              exact Or.inr (nearer_of_settle hRunner (hStatus ▸ .act _ _ _)
                (Execution.act_of_running hRunner hStatus))
          | waiting program =>
              cases hOpen : supervision.execution.isOpen with
              | true =>
                  exact Or.inr (nearer_of_settle hRunner (hStatus ▸ .resume _)
                    (Execution.act_of_open hRunner hStatus hOpen))
              | false =>
                  refine Or.inl (act_of_idle (Execution.act_of_shut hRunner hStatus hOpen) ?_)
                  rw [hStatus?, hStatus]
                  rfl
          | returned result =>
              refine Or.inl (act_of_idle (Execution.act_of_ended hRunner (by rw [hStatus]; rfl)) ?_)
              rw [hStatus?, hStatus]
              rfl
          | failed error =>
              refine Or.inl (act_of_idle (Execution.act_of_ended hRunner (by rw [hStatus]; rfl)) ?_)
              rw [hStatus?, hStatus]
              rfl

/-- As long as the caller has not answered, somebody's turn brings the answer nearer. -/
theorem exists_nearer (h : supervision.Stands) (hOrderly : supervision.execution.Orderly start)
    (hUnhindered : supervision.execution.Unhindered start)
    (hOpen : ∀ error, supervision.phase ≠ .answered error) :
    ∃ turn : Turn, turn.Within supervision.execution.count ∧
      (supervision.step start turn).Nearer supervision := by
  rcases (supervision.calls_call start).toGo_lt hOrderly with
    hLess | ⟨-, ⟨next, runner, hPhase, hRunner, hEnded⟩ | ⟨error, hPhase⟩⟩
  · exact ⟨.launcher, trivial, nearer_of_lt hLess⟩
  · obtain ⟨worker, runner', status, world, hWorker, hFollows, hAct⟩ :=
      hUnhindered.someone (h.launched (by simp [hPhase])) (List.mem_of_getElem? hRunner) hEnded
    have hWithin : worker < supervision.execution.count :=
      Nat.lt_of_lt_of_le (List.getElem?_eq_some_iff.mp hWorker).1 (threads_length_le hOrderly)
    exact ⟨.worker worker, hWithin, nearer_of_settle hWorker hFollows hAct⟩
  · exact absurd hPhase (hOpen error)

def under (start : Nat → Except κ (Program τ M ε α)) (schedule : Nat → Turn)
    (supervision : Supervision τ M κ ε α) (n : Nat) : Supervision τ M κ ε α :=
  supervision.after start ((List.range n).map schedule)

theorem under_succ (start : Nat → Except κ (Program τ M ε α)) (schedule : Nat → Turn)
    (supervision : Supervision τ M κ ε α) (n : Nat) :
    supervision.under start schedule (n + 1) =
      (supervision.under start schedule n).step start (schedule n) := by
  simp only [under, List.range_succ, List.map_append, List.map_singleton, Supervision.after,
    List.foldl_append, List.foldl_cons, List.foldl_nil]

/-- Under a fair schedule the caller comes to answer. -/
theorem eventually_answered {world : World τ M} {schedule : Nat → Turn} (h : supervision.Stands)
    (hAccount : supervision.execution.Account start world [])
    (hUnhindered : supervision.execution.Unhindered start)
    (hFair : Fair supervision.execution.count schedule) :
    ∃ n error, (supervision.under start schedule n).phase = .answered error := by
  have hReached (n : Nat) :
      let reached := supervision.under start schedule n
      reached.Stands ∧ reached.execution.Orderly start ∧ reached.execution.Unhindered start ∧
        reached.execution.count = supervision.execution.count := by
    obtain ⟨hStands, hExecution⟩ := h.after start ((List.range n).map schedule)
    refine ⟨hStands, ?_⟩
    rw [under, hExecution]
    exact ⟨(hAccount.after _).orderly, hUnhindered.after _, supervision.execution.count_after _⟩
  refine hFair.reaches nearer_wellFounded (fun reached => ∃ error, reached.phase = .answered error)
    (supervision.under_succ start schedule) (fun n => ?_) fun n hOpen => ?_
  · rw [under_succ]
    exact step_nearer (hReached n).2.1 (schedule n)
  · obtain ⟨hStands, hOrderly, hGoes, hCount⟩ := hReached n
    rw [← hCount]
    exact exists_nearer hStands hOrderly hGoes fun error hPhase => hOpen ⟨error, hPhase⟩

end Supervision

end Dataflow
