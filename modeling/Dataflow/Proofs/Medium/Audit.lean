import Dataflow.Proofs.FanOut.Ledger
import Dataflow.Proofs.FanOut.Morphism

/-! The audit of a medium: all that is noted and all that is offered, in one list, with what became
of each offer. Nothing is assumed of the medium, and it does the same without the audit. What is to
be known of a run is read off its audit: the offers in their order, those to one destination, and
which of them were accepted. -/
namespace Dataflow

variable {ε σ T R M : Type}

/-- One thing that happens at a medium. -/
inductive Incident (ε M : Type) where
  | noted (sink : Sink) (event : Event)
  /-- A slot is offered to a destination, which fails if there is a fault. -/
  | offered (dst : Nat) (slot : Option M) (fault : Option ε)
  deriving DecidableEq

namespace Medium

/-- The same medium, with all that happens written down beside its state. -/
def audited (medium : Medium ε σ M) : Medium ε (σ × List (Incident ε M)) M where
  note sink event state := (medium.note sink event state.1, state.2 ++ [.noted sink event])
  offer dst slot state :=
    let offered := medium.offer dst slot state.1
    { fault := offered.fault
      state := (offered.state, state.2 ++ [.offered dst slot offered.fault])
      slot := offered.slot }

/-- A medium does the same whether or not it is audited. -/
theorem audited_morphism (medium : Medium ε σ (Message T R)) :
    medium.audited.Morphism id id Prod.fst medium where
  note sink event state := by
    cases sink <;> rfl
  offer dst slot state := by
    rw [Offered.map_id]
    rfl

end Medium

/-- All slots that were offered, with their destinations, in the order of the offers. -/
def offersIn (incidents : List (Incident ε M)) : List (Nat × Option M) :=
  incidents.filterMap fun incident =>
    match incident with
    | .offered dst slot _ => some (dst, slot)
    | .noted _ _ => none

theorem offersIn_append (first second : List (Incident ε M)) :
    offersIn (first ++ second) = offersIn first ++ offersIn second :=
  List.filterMap_append

/-- The messages that a destination was offered, each with the fault if it failed. -/
def attemptsAt (dst : Nat) (incidents : List (Incident ε M)) : List (M × Option ε) :=
  incidents.filterMap fun incident =>
    match incident with
    | .offered target (some message) fault => if target = dst then some (message, fault) else none
    | .offered _ none _ | .noted _ _ => none

/-- The messages that a destination was offered, whether or not it failed. -/
def offeredTo (dst : Nat) (incidents : List (Incident ε M)) : List M :=
  (attemptsAt dst incidents).map Prod.fst

def acceptedAt (dst : Nat) (incidents : List (Incident ε M)) : List M :=
  ((attemptsAt dst incidents).filter (·.2.isNone)).map Prod.fst

def failedAt (dst : Nat) (incidents : List (Incident ε M)) : List M :=
  ((attemptsAt dst incidents).filter (·.2.isSome)).map Prod.fst

theorem attemptsAt_append (dst : Nat) (first second : List (Incident ε M)) :
    attemptsAt dst (first ++ second) = attemptsAt dst first ++ attemptsAt dst second :=
  List.filterMap_append

/-- One offer is one attempt at its destination, if it holds a message. -/
theorem attemptsAt_offered (dst target : Nat) (slot : Option M) (fault : Option ε) :
    attemptsAt dst [.offered target slot fault] =
      if dst = target then slot.toList.map fun message => (message, fault) else [] := by
  cases slot with
  | none => simp [attemptsAt]
  | some message =>
      by_cases hDst : dst = target
      · simp [attemptsAt, hDst]
      · simp [attemptsAt, hDst, Ne.symm hDst]

theorem acceptedAt_append (dst : Nat) (first second : List (Incident ε M)) :
    acceptedAt dst (first ++ second) = acceptedAt dst first ++ acceptedAt dst second := by
  rw [acceptedAt, attemptsAt_append, List.filter_append, List.map_append]
  rfl

/-- What was offered was accepted or failed. -/
theorem attempts_perm (dst : Nat) (incidents : List (Incident ε M)) :
    (offeredTo dst incidents).Perm
      (acceptedAt dst incidents ++ failedAt dst incidents) := by
  rw [offeredTo, acceptedAt, failedAt, ← List.map_append]
  apply List.Perm.map
  have hSplit := List.filter_append_perm (fun attempt : M × Option ε => attempt.2.isNone)
    (attemptsAt dst incidents)
  simp only [Option.not_isNone] at hSplit
  exact hSplit.symm

/-- If a destination never failed, it accepted all that it was offered. -/
theorem attempts_eq_accepted {dst : Nat} {incidents : List (Incident ε M)}
    (h : failedAt dst incidents = []) :
    offeredTo dst incidents = acceptedAt dst incidents := by
  rw [failedAt, List.map_eq_nil_iff, List.filter_eq_nil_iff] at h
  rw [offeredTo, acceptedAt, List.filter_eq_self.mpr]
  intro attempt hAttempt
  simpa using h attempt hAttempt

namespace Medium

/-- The audit keeps what each destination was offered. -/
theorem audited_remembers (medium : Medium ε σ (Message T R)) :
    medium.audited.Remembers fun state dst => offeredTo dst state.2 where
  note sink event state dst := by
    change offeredTo dst (state.2 ++ [.noted sink event]) = _
    rw [offeredTo, attemptsAt_append]
    simp [attemptsAt, offeredTo]
  offer target slot state dst := by
    change offeredTo dst (state.2 ++ [.offered target slot _]) = _
    rw [offeredTo, attemptsAt_append, attemptsAt_offered, List.map_append]
    congr 1
    split
    · rw [List.map_map]
      exact List.map_id _
    · rfl

/-- `delivered state dst` is what a destination has received before `state` was reached: all that it
was offered without failing. -/
structure Delivers (medium : Medium ε σ M) (delivered : σ → Nat → List M) : Prop where
  note : ∀ sink event state dst, delivered (medium.note sink event state) dst = delivered state dst
  offer : ∀ target slot state dst, delivered (medium.offer target slot state).state dst =
    delivered state dst ++
      if dst = target ∧ (medium.offer target slot state).fault = none then slot.toList else []

end Medium

end Dataflow
