import Dataflow.Proofs.Fabric.Isolation
import Dataflow.Proofs.Session.Isolation

/-! Channels do not interfere. What is done on one channel of a fabric does not show on another, and
a pipeline shows on no other edge, not even on one whose channel has the same number. -/
namespace Dataflow

/-- First, the acts on a channel of a fabric are answered as they are in the run that consists of
these acts alone. Second, let nothing but pipelines be connected under some name. The steps with
that name give what they give without the other steps, and the other steps give what they give
without them, claims of channels included: on their own the steps with that name leave the fabric
as it is. -/
theorem channels_apart {τ M T R : Type} [DecidableEq τ] [DecidableEq T] [Husk R] :
    (∀ (bench : Bench τ M) (acts : List (Bench.Act τ M)) (channel : UInt32),
      let entries := (bench.record acts).filter (·.channel = some channel)
      bench.record (entries.map (·.act)) = entries) ∧
    (∀ (session : Session τ T R) (name : String) (steps : List (Step τ T R)),
      Edge.Secluded (session.edge? name) → (∀ step ∈ steps, step.Pipes name) →
      let own := steps.filter (·.name? = some name)
      let others := steps.filter (·.name? ≠ some name)
      (session.record steps).filter (·.step.name? = some name) = session.record own ∧
        (session.record steps).filter (·.step.name? ≠ some name) = session.record others ∧
        (session.after own).world.fabric = session.world.fabric) := by
  constructor
  · intro bench acts channel
    exact Bench.channel_alone (.refl channel bench) acts
  · intro session name steps hSecluded hSteps own others
    refine ⟨Session.record_own ⟨rfl, rfl⟩ rfl hSecluded hSteps,
      Session.record_others rfl hSecluded hSteps, Session.fabric_after_own hSecluded ?_ ?_⟩
    · exact fun step hStep => hSteps step (List.mem_filter.mp hStep).1
    · exact fun step hStep => of_decide_eq_true (List.mem_filter.mp hStep).2

def couple : Session Unit Nat UInt64 where
  host := .shared
  world := { fabric := { workers := 2 } }

def crossed (pact : Pact Nat UInt64) : Connection Unit Nat UInt64 where
  kind := ()
  channel := 1
  address := []
  tracing := .off
  pact := pact

/-- A pipeline and a channel between all workers, both of them number one. The channel is then
claimed once more. -/
def crossing : List (Step Unit Nat UInt64) :=
  [.connect "lines" (crossed (.pipeline 0)), .connect "words" (crossed (.bareExchange 0)),
    .push "lines" 0 { time := 5, data := [1] }, .send "words" 0 { time := 6, data := [2, 3] },
    .connect "again" (crossed (.bareExchange 0)), .recv "words", .recv "lines"]

theorem channels_apart_crossing :
    Edge.Secluded (couple.edge? "lines") ∧ (∀ step ∈ crossing, step.Pipes "lines") ∧
      ((couple.record crossing).filter (·.step.name? = some "lines")).map (·.answer) =
        [.nothing, .slot none, .message (some { time := 5, data := [1] })] ∧
      ((couple.record crossing).filter (·.step.name? ≠ some "lines")).map (·.error) =
        [none, none, some (.connect (.claim .alreadyClaimed)), none] := by
  have hSecluded : Edge.Secluded (couple.edge? "lines") := by
    intro edge hEdge
    cases hEdge
  have hSteps : ∀ step ∈ crossing, step.Pipes "lines" := by
    simp [crossing, Step.Pipes, crossed]
  obtain ⟨hOwn, hOthers, -⟩ :=
    (channels_apart (M := Nat)).2 couple "lines" crossing hSecluded hSteps
  refine ⟨hSecluded, hSteps, ?_, ?_⟩
  · rw [hOwn]
    rfl
  · rw [hOthers]
    rfl

end Dataflow
