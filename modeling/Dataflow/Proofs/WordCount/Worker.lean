import Dataflow.Proofs.Gathering.Plan
import Dataflow.Proofs.Traffic.Books
import Dataflow.Proofs.WordCount.Words
import Dataflow.WordCount.Run

/-! One worker of the word count. Whatever it does is settled by its own lines until it meets the
others: it claims the channel of words and sends every word of its lines to the worker that the hash
selects. Its books then tell where each word has gone. -/
namespace Dataflow

open Program (script andThen_script script_append)

/-- A private queue that was empty holds what is pushed, and nobody else can tell. -/
theorem Pipe.push_eq {τ M ε T R : Type} {pipe : Pipe T R} (h : pipe.waiting = [])
    (message : Message T R) : ∃ (effects : List (Effect M)) (after : Pipe T R),
      (pipe.push (some message) : Program τ M ε (Pipe T R)) = script effects (.finish after) ∧
        (∀ channel target, deliveries channel target effects = []) ∧
        ∃ received : Message T R, after.waiting = [received] ∧
          received.time = message.time ∧ received.data = message.data := by
  refine ⟨_, _, rfl, fun channel target => ?_, pipe.sender.stamp message, ?_, rfl, rfl⟩
  · simp only [Sender.push, Medium.noteTo]
    cases pipe.sender.sink with
    | none => rfl
    | some sink => rfl
  · simp only [Sender.push, Medium.noteTo]
    cases pipe.sender.sink with
    | none => exact congrArg (· ++ _) h
    | some sink => exact congrArg (· ++ _) h

/-- A claim that is granted gives a worker its end of the channel. -/
theorem Traffic.claimed_eq {τ T R : Type} (link : Traffic.Link τ R) (address : Address)
    {context : Context} {workers : Nat} (hMember : context.index < workers)
    (hCapacity : 0 < context.config.capacity) : ∃ exchange : Exchange T R,
      Traffic.claimed context link address workers =
        script [.log .debug link.channel (exchangeNotice address workers)] (.finish exchange) ∧
      Traffic.Books link workers context.index exchange (fun _ => []) [] := by
  have hSenders : Sender.towardsAll link.channel context.word context.sink workers ≠ [] := by
    intro hNone
    have hZero : workers = 0 := by simpa [Sender.towardsAll] using hNone
    omega
  cases hFan : (FanOut.create (Sender.towardsAll link.channel context.word context.sink workers)
      context.config.capacity link.hash : Except FanOutError (FanOut T R)) with
  | error error =>
      rw [FanOut.create, if_neg hSenders, if_neg (Nat.ne_of_gt hCapacity)] at hFan
      cases hFan
  | ok fan =>
      refine ⟨{ channel := link.channel, fan
                receiver :=
                  { channel := link.channel, index := context.word, sink := context.sink } },
        ?_, Traffic.Books.fresh hFan hMember⟩
      simp only [Traffic.claimed, hFan]
      rfl

namespace WordCount

/-- What the workers agree on. -/
def link : Traffic.Link Unit (Bytes × UInt64) where
  channel := wordChannel
  kind := ()
  hash := wordHash

def slotOf (worker : UInt32) (lines epoch : Nat) : Option Words :=
  let time := UInt64.ofNat epoch
  some { time, data := (linesOf worker time lines).flatMap countedWords }

variable {ε : Type} {workers worker : Nat} {words : Exchange UInt64 (Bytes × UInt64)}
  {sent : Nat → List Words} {slots : List (Option Words)}

/-- The lines of the epochs go out as words, epoch after epoch. -/
theorem produce_eq (index : UInt32) (lines remaining epoch : Nat) {pipe : Pipe UInt64 Bytes}
    (hPipe : pipe.waiting = [])
    (hBooks : Traffic.Books link workers worker words sent slots) :
    ∃ effects after,
      (produce index lines remaining epoch pipe words : Program Unit Words ε _) =
        script effects (.finish after) ∧
      Traffic.Books link workers worker after
        (fun target => sent target ++ deliveries wordChannel target effects)
        (slots ++ (List.range' epoch remaining).map (slotOf index lines)) := by
  induction remaining generalizing epoch pipe words sent slots with
  | zero =>
      refine ⟨[], words, rfl, ?_⟩
      simpa [deliveries] using hBooks
  | succ remaining ih =>
      let time := UInt64.ofNat epoch
      obtain ⟨queued, filled, hPush, hQueued, received, hWaiting, hTime, hData⟩ :=
        Pipe.push_eq (τ := Unit) (M := Words) (ε := ε) hPipe
          { time, data := linesOf index time lines }
      let slot := slotOf index lines epoch
      have hEmpty : ({ filled with waiting := [] } : Pipe UInt64 Bytes).waiting = [] := rfl
      obtain ⟨later, after, hLater, hAfter⟩ := ih (epoch + 1) hEmpty (hBooks.push slot)
      let reports := Pipe.reports (M := Words) filled.receiver [received]
      have hReports (target : Nat) : deliveries wordChannel target reports = [] :=
        deliveries_reports wordChannel target filled.receiver [received]
      refine ⟨queued ++ (reports ++ (words.acts slot ++ later)), after, ?_, ?_⟩
      · change (pipe.push (some { time, data := linesOf index time lines })).andThen _ = _
        rw [hPush, andThen_script, script_append, script_append, script_append]
        refine congrArg (script queued) ?_
        have hDrain : (filled.drain : Program Unit Words ε _) =
            script reports (.finish ([received], { filled with waiting := [] })) := by
          rw [Pipe.drain, hWaiting]
          rfl
        change (filled.drain).andThen _ = _
        rw [hDrain, andThen_script]
        refine congrArg (script reports) ?_
        change (forward [received] words).andThen _ = _
        have hForward : (forward [received] words : Program Unit Words ε _) =
            script (words.acts slot) (.finish (words.pushed slot)) := by
          rw [forward, hTime, hData, foldl_splitWords]
          change (words.push slot).andThen _ = _
          rw [Exchange.push_eq]
          exact andThen_script _ _ _
        rw [hForward, andThen_script]
        exact congrArg (script (words.acts slot)) hLater
      · rw [List.range'_succ, List.map_cons, ← List.singleton_append, ← List.append_assoc]
        simp only [deliveries_append, hQueued, hReports, List.nil_append, List.append_assoc]
        simp only [List.append_assoc] at hAfter
        exact hAfter

/-- All that a worker pushes: its words epoch after epoch, and an empty slot at the end. -/
def slotsOf (options : Options) (worker : UInt32) : List (Option Words) :=
  (List.range' 0 options.epochs).map (slotOf worker options.lines) ++ [none]

/-- What follows once a worker has all its ends. -/
theorem counting_eq {α : Type} (words : Exchange UInt64 (Bytes × UInt64))
    (rest : List Words → Program Unit Words ε α) :
    ((words.push none).andThen fun words => Program.meeting.andThen fun _ =>
      words.drain.andThen rest : Program Unit Words ε α) =
    script (words.acts none) (.meet fun _ => .drain words.channel fun messages =>
      script (Pipe.reports words.receiver messages) (rest messages)) := by
  rw [Exchange.push_eq, andThen_script]
  refine congrArg (script _) (congrArg Program.meet (funext fun _ => ?_))
  refine congrArg (Program.drain words.channel) (funext fun messages => ?_)
  exact andThen_script _ _ _

/-- The program of a worker follows a plan by which every word goes where its hash selects. -/
theorem body_eq (options : Options) {context : Context} (hMember : context.index < workers)
    (hCapacity : 0 < context.config.capacity) :
    ∃ part : Gathering.Part wordChannel Words Tally, part.result = tallyOf ∧
      (∃ next, body options context = script part.opening (.claim wordChannel () next) ∧
        next (.ok workers) = script part.sending (.meet fun _ => .drain wordChannel fun messages =>
          script (part.closing messages) (.finish (part.result messages)))) ∧
      ∀ target, (deliveries wordChannel target part.sending).flatMap Message.timed =
        (Traffic.records (slotsOf options context.word)).filter fun p =>
          Hash.destination (wordHash p.2) workers = target := by
  obtain ⟨words, hClaimed, hFresh⟩ :=
    Traffic.claimed_eq (T := UInt64) link [1] hMember hCapacity
  let pipe : Pipe UInt64 Bytes :=
    { sender :=
        { channel := lineChannel, source := context.word, target := context.word
          sink := context.sink }
      receiver := { channel := lineChannel, index := context.word, sink := context.sink } }
  have hPipe : pipe.waiting = [] := rfl
  obtain ⟨producing, sated, hProduce, hSated⟩ := produce_eq (ε := WorkerError)
    context.word options.lines options.epochs 0 hPipe hFresh
  refine ⟨{ opening := [.log .debug lineChannel (pipelineNotice [0])]
            sending := [.log .debug wordChannel (exchangeNotice [1] workers)] ++
              (producing ++ sated.acts none)
            closing := fun messages => Pipe.reports sated.receiver messages ++
              [.log .info wordChannel (countedNotice (tallyOf messages).total)]
            result := tallyOf
            opening_silent := fun _ => rfl
            closing_silent := ?_ }, rfl, ⟨_, rfl, ?_⟩, fun target => ?_⟩
  · intro target messages
    rw [deliveries_append, deliveries_reports]
    rfl
  · change (Traffic.claimed context link [1] workers).andThen _ = _
    rw [hClaimed, andThen_script]
    change script _ ((produce context.word options.lines options.epochs 0 pipe words).andThen _) = _
    rw [hProduce, andThen_script, script_append, script_append]
    refine congrArg (script _) (congrArg (script producing) ?_)
    refine (counting_eq sated _).trans ?_
    rw [hSated.channel]
    simp only [script_append]
    rfl
  · have hClosed := hSated.push none
    have hLedger := hClosed.ledger target
    rw [FanOut.waiting_of_buffer_nil (hClosed.closed List.getLast?_concat target), List.append_nil]
      at hLedger
    rw [deliveries_append, deliveries_append]
    exact hLedger

end WordCount

end Dataflow
