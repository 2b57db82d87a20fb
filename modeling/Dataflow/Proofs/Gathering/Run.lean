import Dataflow.Proofs.Execution.Schedule
import Dataflow.Proofs.Gathering.Mail

/-! Executions of a gathering. In whatever order the turns come, every worker stands at a stage of
its plan, so nobody fails, and nobody leaves the meeting before all have come to it. -/
namespace Dataflow.Gathering

variable {τ M κ ε α : Type} {plan : Plan τ M α} {stage : Nat → Stage M} {worker : Nat}

/-- The workers stand as their stages say, and nobody leaves the meeting before all have come. -/
structure Control (plan : Plan τ M α) (stage : Nat → Stage M) (execution : Execution τ M κ ε α) :
    Prop where
  count : execution.count = plan.workers
  stands : ∀ worker runner, execution.launch.threads[worker]? = some runner →
    plan.Stands worker (stage worker) runner.status ∧ runner.met = (stage worker).met
  fresh : ∀ worker, execution.launch.threads.length ≤ worker →
    stage worker = .opening (plan.part worker).opening
  silent : ∀ worker, (stage worker).Silent plan.channel
  together : ∀ worker, (stage worker).left = true →
    ∀ other < plan.workers, (stage other).met = true
  nodup : execution.ended.Nodup
  ended : ∀ worker, worker ∈ execution.ended ↔ (stage worker).finished = true

/-- An act of a worker takes it to the next stage, since its claim is granted. -/
theorem Plan.Stands.act [DecidableEq τ] {world : World τ M} {here : Stage M}
    {program : Program τ M ε α} (h : plan.Stands worker here (.running program))
    (hGranted : here = .opening [] → ∃ fabric,
      world.fabric.claim plan.channel plan.kind worker = .ok fabric ∧
        fabric.workers = plan.workers) :
    ∃ there, plan.Advance worker world here there (world.act worker program).2 ∧
      plan.Stands worker there (world.act worker program).1 := by
  cases here with
  | opening rest =>
      obtain ⟨next, hProgram, hNext⟩ := h
      cases hProgram
      cases rest with
      | nil =>
          obtain ⟨fabric, hClaim, hWorkers⟩ := hGranted rfl
          have hAnswer : world.claim plan.channel plan.kind worker =
              (.ok plan.workers, { world with fabric }) := by
            rw [World.claim, hClaim, ← hWorkers]
          change ∃ there, plan.Advance worker world _ there
              (World.act world worker (.claim plan.channel plan.kind next)).2 ∧
            plan.Stands worker there (World.act world worker (.claim plan.channel plan.kind next)).1
          simp only [World.act, hAnswer]
          exact ⟨_, .claim hClaim, congrArg Status.running hNext⟩
      | cons effect rest => exact ⟨_, .opening effect rest, next, rfl, hNext⟩
  | sending rest =>
      cases h
      cases rest with
      | nil => exact ⟨_, .meet, rfl⟩
      | cons effect rest => exact ⟨_, .sending effect rest, rfl⟩
  | meeting => cases h
  | collecting =>
      cases h
      exact ⟨_, .collect, rfl⟩
  | closing messages rest =>
      cases h
      cases rest with
      | nil => exact ⟨_, .finish messages, rfl⟩
      | cons effect rest => exact ⟨_, .closing messages effect rest, rfl⟩
  | done messages => cases h

/-- A worker has come to the meeting if its stage says so. -/
theorem Plan.Advance.moved [DecidableEq τ] {world world' : World τ M} {here there : Stage M}
    (h : plan.Advance worker world here there world') {runner : Runner τ M ε α}
    {status : Status τ M ε α} (hStands : plan.Stands worker there status)
    (hMet : runner.met = here.met) : (runner.moved status).met = there.met := by
  cases h with
  | opening effect rest =>
      obtain ⟨next, hStatus, -⟩ := hStands
      rw [hStatus]
      exact hMet
  | claim hClaim => cases hStands; exact hMet
  | sending effect rest => cases hStands; exact hMet
  | meet => cases hStands; rfl
  | leave => cases hStands; exact hMet
  | collect => cases hStands; exact hMet
  | closing messages effect rest => cases hStands; exact hMet
  | finish messages => cases hStands; exact hMet

/-- A worker that has come to the meeting ends if it goes on as far as it can. -/
theorem Plan.Stands.run_ended [DecidableEq τ] {here : Stage M} {status : Status τ M ε α}
    {program : Program τ M ε α} (h : plan.Stands worker here status)
    (hStatus : status = .running program ∨ status = .waiting program) (hMet : here.met = true)
    (world : World τ M) : (world.run worker program).1.ended = true := by
  have hCollect : (world.run worker (plan.collect worker : Program τ M ε α)).1.ended = true := by
    change (World.run worker (Program.script _ _) _).1.ended = true
    rw [World.run_script]
    rfl
  rcases hStatus with hRunning | hWaiting
  · rw [hRunning] at h
    cases here with
    | opening rest => cases hMet
    | sending rest => cases hMet
    | meeting => cases h
    | collecting => cases h; exact hCollect
    | closing messages rest =>
        cases h
        rw [World.run_script]
        rfl
    | done messages => cases h
  · rw [hWaiting] at h
    rw [h.waiting.2]
    exact hCollect

namespace Control

variable {execution : Execution τ M κ ε α}

theorem member (h : Control plan stage execution) (hSound : execution.Sound)
    {runner : Runner τ M ε α} (hRunner : execution.launch.threads[worker]? = some runner) :
    worker < plan.workers := by
  rw [← h.count]
  exact Nat.lt_of_lt_of_le (List.getElem?_eq_some_iff.mp hRunner).1 hSound.count

/-- If the meeting is open, everybody has come to it. -/
theorem met_of_isOpen (h : Control plan stage execution) (hOpen : execution.isOpen = true)
    (other : Nat) (hOther : other < plan.workers) : (stage other).met = true := by
  obtain ⟨hLength, hRests⟩ := Execution.isOpen_iff.mp hOpen
  have hThread : other < execution.launch.threads.length := by
    rw [hLength, h.count]
    exact hOther
  obtain ⟨hStands, hMet⟩ := h.stands other _ (List.getElem?_eq_getElem hThread)
  rcases hRests _ (List.getElem_mem hThread) with hCame | hEnded
  · exact hMet.symm.trans hCame
  · obtain ⟨messages, hDone⟩ := Stage.done_of_finished (hStands.ended.symm.trans hEnded)
    rw [hDone]
    rfl

/-- When all have ended, everybody has returned its result of what it took out. -/
theorem done (h : Control plan stage execution) (hOver : execution.Over)
    (hWorker : worker < plan.workers) : ∃ messages, stage worker = .done messages ∧
      execution.status? worker = some (.returned ((plan.part worker).result messages)) := by
  obtain ⟨hLength, hEnded⟩ := hOver
  rw [h.count] at hLength
  have hRunner := List.getElem?_eq_getElem (hLength ▸ hWorker)
  have hStands := (h.stands worker _ hRunner).1
  obtain ⟨messages, hDone⟩ :=
    Stage.done_of_finished (hStands.ended.symm.trans (hEnded _ (List.getElem_mem _)))
  rw [hDone] at hStands
  exact ⟨messages, hDone, (congrArg (Option.map _) hRunner).trans (congrArg some hStands)⟩

/-- A worker is written down as ended in the turn in which it ends, and only once. -/
theorem ended_settle (h : Control plan stage execution) (hStage : (stage worker).finished = false)
    {there : Stage M} {status : Status τ M ε α} (hStatus : status.ended = there.finished)
    (runner : Runner τ M ε α) (world : World τ M) :
    (execution.settle worker runner status world).ended.Nodup ∧
      ∀ other, other ∈ (execution.settle worker runner status world).ended ↔
        (Function.update stage worker there other).finished = true := by
  have hNew : worker ∉ execution.ended := by
    rw [h.ended, hStage]
    exact Bool.false_ne_true
  rw [Execution.ended_settle, hStatus]
  constructor
  · split
    · refine List.nodup_append.mpr ⟨h.nodup, List.pairwise_singleton _ _, ?_⟩
      rintro other hOther last hLast rfl
      exact hNew (List.mem_singleton.mp hLast ▸ hOther)
    · exact h.nodup
  · refine (Function.forall_update_iff stage fun other here => other ∈ _ ↔ here.finished = true).mpr
      ⟨?_, fun other hOther => ?_⟩
    · cases there.finished with
      | true => simp
      | false => simpa using hNew
    · rw [← h.ended other]
      split
      · simp [hOther]
      · rfl

/-- A turn takes a worker to the next stage and leaves the others where they are. -/
theorem settle [DecidableEq τ] (h : Control plan stage execution) {runner : Runner τ M ε α}
    (hRunner : execution.launch.threads[worker]? = some runner) {here there : Stage M}
    (hStage : stage worker = here) {world : World τ M}
    (hAdvance : plan.Advance worker execution.world here there world)
    {status : Status τ M ε α} (hStands : plan.Stands worker there status)
    (hOpen : here = .meeting → ∀ other < plan.workers, (stage other).met = true) :
    Control plan (Function.update stage worker there)
      (execution.settle worker runner status world) := by
  subst hStage
  have hThread := (List.getElem?_eq_some_iff.mp hRunner).1
  have hMet (hAll : ∀ other < plan.workers, (stage other).met = true) :
      ∀ other < plan.workers, (Function.update stage worker there other).met = true :=
    (Function.forall_update_iff stage fun other here => other < plan.workers → here.met = true).mpr
      ⟨fun hWorker => hAdvance.met (hAll worker hWorker), fun other _ => hAll other⟩
  obtain ⟨hNodup, hEnded⟩ := h.ended_settle hAdvance.not_finished hStands.ended runner world
  refine ⟨h.count, ?_, ?_, ?_, ?_, hNodup, hEnded⟩
  · rw [Execution.threads_settle]
    refine (Function.forall_update_iff stage fun other here => ∀ found : Runner τ M ε α,
      _ = some found → plan.Stands other here found.status ∧ found.met = here.met).mpr
      ⟨fun found hFound => ?_, fun other hOther => ?_⟩
    · rw [List.getElem?_set_self hThread, Option.some.injEq] at hFound
      rw [← hFound]
      exact ⟨hStands, hAdvance.moved hStands (h.stands worker runner hRunner).2⟩
    · rw [List.getElem?_set_ne (Ne.symm hOther)]
      exact h.stands other
  · rw [Execution.threads_settle, List.length_set]
    exact (Function.forall_update_iff stage fun other here =>
      execution.launch.threads.length ≤ other → here = .opening (plan.part other).opening).mpr
      ⟨fun hNever => absurd hThread (Nat.not_lt_of_le hNever), fun other _ => h.fresh other⟩
  · exact (Function.forall_update_iff stage fun _ here => here.Silent plan.channel).mpr
      ⟨hAdvance.silent (h.silent worker), fun other _ => h.silent other⟩
  · refine fun other hLeft => hMet ?_
    revert hLeft
    refine (Function.forall_update_iff stage fun _ here => here.left = true →
      ∀ other < plan.workers, (stage other).met = true).mpr
      ⟨fun hLeft => ?_, fun other _ => h.together other⟩ other
    rcases hAdvance.left hLeft with hEarlier | hMeeting
    · exact h.together worker hEarlier
    · exact hOpen hMeeting

/-- All that a turn of a worker can come to. -/
theorem act [DecidableEq τ] (h : Control plan stage execution) (hSound : execution.Sound)
    (hMail : Mail plan stage execution.world.fabric) (worker : Nat) :
    execution.act worker = execution ∨ worker < plan.workers ∧ ∃ there,
      plan.Advance worker execution.world (stage worker) there (execution.act worker).world ∧
        Control plan (Function.update stage worker there) (execution.act worker) := by
  rcases execution.act_cases worker with
    hSame | ⟨runner, hRunner, ⟨program, hStatus, hAct⟩ | ⟨program, hStatus, hOpen, hAct⟩⟩
  · exact Or.inl hSame
  · have hStands := (h.stands worker runner hRunner).1
    have hWorker := h.member hSound hRunner
    rw [hStatus] at hStands
    obtain ⟨there, hAdvance, hThere⟩ := hStands.act (hMail.granted hWorker)
    rw [hAct]
    refine Or.inr ⟨hWorker, there, hAdvance, ?_⟩
    refine h.settle hRunner rfl hAdvance hThere fun hMeeting => ?_
    rw [hMeeting] at hStands
    cases hStands
  · have hStands := (h.stands worker runner hRunner).1
    rw [hStatus] at hStands
    obtain ⟨hStage, hProgram⟩ := hStands.waiting
    rw [hAct, hStage]
    refine Or.inr ⟨h.member hSound hRunner, .collecting, .leave, ?_⟩
    refine h.settle hRunner hStage .leave ?_ fun _ => h.met_of_isOpen hOpen
    rw [hProgram]
    rfl

/-- A launch adds a worker at its first stage. -/
theorem launchNext (h : Control plan stage execution) (hSound : execution.Sound)
    {start : Nat → Except κ (Program τ M ε α)} (hStart : plan.Starts start) :
    Control plan stage (execution.launchNext start) := by
  by_cases hCount : execution.launch.threads.length < execution.count
  · obtain ⟨program, hProgram, hFollows⟩ := hStart execution.launch.threads.length
    rw [Execution.launchNext_eq hSound hProgram hCount]
    refine ⟨h.count, ?_, ?_, h.silent, h.together, h.nodup, h.ended⟩
    · intro worker runner hRunner
      rw [List.getElem?_append] at hRunner
      split at hRunner
      · exact h.stands worker runner hRunner
      · rename_i hNew
        have hLast : worker = execution.launch.threads.length := by
          have hIndex := (List.getElem?_eq_some_iff.mp hRunner).1
          rw [List.length_singleton] at hIndex
          omega
        subst hLast
        rw [Nat.sub_self, List.getElem?_cons_zero, Option.some.injEq] at hRunner
        obtain ⟨next, hScript, hNext⟩ := hFollows (h.count ▸ hCount)
        rw [← hRunner, h.fresh _ (Nat.le_refl _)]
        exact ⟨⟨next, congrArg Status.running hScript, hNext⟩, rfl⟩
    · intro worker hWorker
      rw [List.length_append] at hWorker
      exact h.fresh worker (Nat.le_of_add_right_le hWorker)
  · rw [Execution.launchNext_of_full hSound hCount]
    exact h

end Control

/-- What holds of a gathering after any turns. -/
structure Invariant (plan : Plan τ M α) (execution : Execution τ M κ ε α) : Prop where
  sound : execution.Sound
  staged : ∃ stage, Control plan stage execution ∧ Mail plan stage execution.world.fabric

namespace Invariant

variable {execution : Execution τ M κ ε α}

/-- All workers start at the beginning of their parts. -/
theorem start (plan : Plan τ M α) (journal : Journal) :
    Invariant plan
      ({ world := { fabric := { workers := plan.workers }, journal }
         count := plan.workers } : Execution τ M κ ε α) where
  sound := ⟨rfl, rfl, Nat.zero_le _, fun _ hRunner => absurd hRunner List.not_mem_nil⟩
  staged := by
    refine ⟨fun worker => .opening (plan.part worker).opening, ?_, .start plan fun _ => rfl⟩
    exact {
      count := rfl
      stands := fun worker runner hRunner => by cases hRunner
      fresh := fun _ _ => rfl
      silent := fun worker => (plan.part worker).opening_silent
      together := fun worker hLeft => by cases hLeft
      nodup := List.nodup_nil
      ended := fun worker => ⟨fun hEnded => absurd hEnded List.not_mem_nil,
        fun hOver => by cases hOver⟩ }

variable [DecidableEq τ] {start : Nat → Except κ (Program τ M ε α)}

/-- Every turn keeps the plan. -/
theorem step (h : Invariant plan execution) (hStart : plan.Starts start) (turn : Turn) :
    Invariant plan (execution.step start turn) := by
  obtain ⟨stage, hControl, hMail⟩ := h.staged
  refine ⟨h.sound.step (fun index _ => hStart.starts index) turn, ?_⟩
  cases turn with
  | launcher =>
      refine ⟨stage, hControl.launchNext h.sound hStart, ?_⟩
      change Mail plan stage (execution.launchNext start).world.fabric
      unfold Execution.launchNext
      split <;> exact hMail
  | worker worker =>
      change ∃ stage, Control plan stage (execution.act worker) ∧
        Mail plan stage (execution.act worker).world.fabric
      rcases hControl.act h.sound hMail worker with hSame | ⟨hWorker, there, hAdvance, hNext⟩
      · rw [hSame]
        exact ⟨stage, hControl, hMail⟩
      · refine ⟨_, hNext, hMail.advance hWorker rfl (hControl.silent worker) ?_ hAdvance⟩
        intro hCollecting
        exact hControl.together worker (by rw [hCollecting]; rfl)

/-- The plan is kept through any turns. -/
theorem after (h : Invariant plan execution) (hStart : plan.Starts start) (turns : List Turn) :
    Invariant plan (execution.after start turns) := by
  induction turns generalizing execution with
  | nil => exact h
  | cons turn turns ih => exact ih (h.step hStart turn)

omit [DecidableEq τ]

/-- Nobody fails. -/
theorem not_failed (h : Invariant plan execution) (worker : Nat) (error : ε) :
    execution.status? worker ≠ some (.failed error) := by
  obtain ⟨stage, hControl, -⟩ := h.staged
  intro hFailed
  obtain ⟨runner, hRunner, hStatus⟩ := Option.map_eq_some_iff.mp hFailed
  have hStands := (hControl.stands worker runner hRunner).1
  rw [hStatus] at hStands
  exact hStands.not_failed

/-- An execution of the plan never fails. -/
theorem error?_eq_none (h : Invariant plan execution) : execution.error? = none := by
  rw [Execution.error?, h.sound.fault]
  refine Option.map_eq_none_iff.mpr (List.findSome?_eq_none_iff.mpr fun worker _ => ?_)
  cases hStatus : execution.status? worker with
  | none => rfl
  | some status =>
      cases status with
      | failed error => exact absurd hStatus (h.not_failed worker error)
      | running rest => rfl
      | waiting rest => rfl
      | returned result => rfl

theorem member_of_result (h : Invariant plan execution) {result : α}
    (hResult : execution.result? worker = some result) : worker < plan.workers := by
  obtain ⟨stage, hControl, -⟩ := h.staged
  obtain ⟨status, hStatus, -⟩ := Option.bind_eq_some_iff.mp hResult
  obtain ⟨runner, hRunner, -⟩ := Option.map_eq_some_iff.mp hStatus
  exact hControl.member h.sound hRunner

/-- When all have ended, everybody has made its result of all messages to it, in some order. -/
theorem result (h : Invariant plan execution) (hOver : execution.Over) :
    execution.ended.Perm (List.range plan.workers) ∧ ∃ received : Nat → List M,
      ∀ worker < plan.workers, (received worker).Perm (plan.total worker) ∧
        execution.result? worker = some ((plan.part worker).result (received worker)) := by
  obtain ⟨stage, hControl, hMail⟩ := h.staged
  constructor
  · refine (List.perm_ext_iff_of_nodup hControl.nodup List.nodup_range).mpr fun worker => ?_
    rw [hControl.ended, List.mem_range]
    constructor
    · intro hStage
      refine Nat.lt_of_not_le fun hWorker => ?_
      have hNever := hControl.fresh worker
        (Nat.le_trans (Nat.le_of_eq (hOver.1.trans hControl.count)) hWorker)
      rw [hNever] at hStage
      cases hStage
    · intro hWorker
      obtain ⟨messages, hStage, -⟩ := hControl.done hOver hWorker
      rw [hStage]
      rfl
  · refine ⟨fun worker => (stage worker).messages?.getD [], fun worker hWorker => ?_⟩
    obtain ⟨messages, hStage, hStatus⟩ := hControl.done hOver hWorker
    have hMessages : (stage worker).messages? = some messages := by
      rw [hStage]
      rfl
    dsimp only
    rw [hMessages, Execution.result?, hStatus]
    exact ⟨hMail.messages worker hWorker messages hMessages, rfl⟩

variable [DecidableEq τ]

/-- Once the meeting is open, a worker that goes on as far as it can comes to its end. -/
theorem moved_advance (h : Invariant plan execution) (hOpen : execution.isOpen = true)
    (hWorker : worker < execution.launch.threads.length) :
    Execution.Moved worker (fun runner => runner.status.ended = true) execution
      (execution.advance worker) := by
  obtain ⟨stage, hControl, -⟩ := h.staged
  have hRunner := List.getElem?_eq_getElem hWorker
  rcases execution.advance_cases worker with
    ⟨hSame, hStops⟩ | ⟨runner, program, hFound, hStatus, hAdvance⟩
  · rw [hSame]
    refine .refl h.sound hRunner ?_
    rcases hStops _ hRunner with ⟨program, -, hShut⟩ | hEnded
    · rw [hOpen] at hShut
      cases hShut
    · exact hEnded
  · rw [hAdvance]
    refine (Execution.moved_settle h.sound hFound _ _).weaken fun after hAfter => ?_
    have hStands := (hControl.stands worker runner hFound).1
    have hMet := hControl.met_of_isOpen hOpen worker (hControl.member h.sound hFound)
    rw [hAfter.1]
    exact hStands.run_ended (hStatus.imp_right And.left) hMet _

/-- When each worker has gone on as far as it can, and once more after the meeting, all have
ended. -/
theorem complete {start : Nat → Except κ (Program τ M ε α)} (h : Invariant plan execution)
    (hStart : plan.Starts start) (hLaunch : execution.launch = {}) :
    (execution.complete start).Over ∧ Invariant plan (execution.complete start) := by
  have hGo (reached : Execution τ M κ ε α) (worker : Nat) (hReached : Invariant plan reached) :
      Invariant plan (reached.advance worker) := by
    obtain ⟨turns, hTurns⟩ := Execution.advance_after start reached worker
    rw [← hTurns]
    exact hReached.after hStart turns
  obtain ⟨-, hCount⟩ := Execution.launched hStart.starts h.sound
  rw [hLaunch] at hCount
  let launched := execution.after start (List.replicate execution.count .launcher)
  let workers := List.range launched.launch.threads.length
  have hComplete : execution.complete start =
      workers.foldl Execution.advance (workers.foldl Execution.advance launched) := by
    have hGone : launched = _ :=
      Execution.launch_after start execution.count (by rw [hLaunch]; simp)
    simp only [workers, hGone]
    rfl
  -- The first round brings everybody to the meeting, and the second to the end.
  obtain ⟨hFirst, hSameCount, hSameLength, hRests⟩ := Execution.forall_of_shift
    (fun reached worker hReached hWorker =>
      ⟨hGo reached worker hReached,
        (Execution.moved_advance hReached.sound hWorker).toShifted⟩)
    (h.after hStart (List.replicate execution.count .launcher))
  have hOpen := Execution.isOpen_iff.mpr
    ⟨hSameLength.trans (hCount.trans hSameCount.symm), hRests⟩
  obtain ⟨hSecond, hLastCount, hLastLength, hEnded⟩ := Execution.forall_of_shift
    (I := fun reached => Invariant plan reached ∧ reached.isOpen = true)
    (fun reached worker hReached hWorker => by
      have hMoved := hReached.1.moved_advance hReached.2 hWorker
      exact ⟨⟨hGo reached worker hReached.1,
        (hMoved.weaken fun _ hEnded => Or.inr hEnded).isOpen hReached.2⟩, hMoved.toShifted⟩)
    ⟨hFirst, hOpen⟩
  rw [hSameLength] at hSecond hLastCount hLastLength hEnded
  rw [hComplete]
  refine ⟨⟨?_, hEnded⟩, hSecond.1⟩
  exact hLastLength.trans (hCount.trans (hSameCount.symm.trans hLastCount.symm))

end Invariant

end Dataflow.Gathering
