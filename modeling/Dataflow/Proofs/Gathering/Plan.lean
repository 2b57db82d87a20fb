import Dataflow.Execution
import Dataflow.Proofs.Traffic.Agent

/-! Gatherings. Every worker of a gathering claims the same channel, sends messages to the others,
meets them, and takes everything out of its own mailbox. The plan says what each worker does, and a
stage says how far it has come. -/
namespace Dataflow

variable {τ M κ ε α : Type}

namespace Fabric

/-- Exactly these workers have claimed the channel, all for messages of one kind. -/
structure ClaimedBy (fabric : Fabric τ M) (channel : UInt32) (kind : τ) (member : Nat → Prop) :
    Prop where
  kind : ∀ found, fabric.channel? channel = some found → found.kind = kind
  claimed : ∀ worker, fabric.Claimed channel worker ↔ member worker

namespace ClaimedBy

variable {fabric opened : Fabric τ M} {channel : UInt32} {kind : τ} {member : Nat → Prop}
  {worker : Nat}

theorem congr (h : fabric.ClaimedBy channel kind member) {member' : Nat → Prop}
    (hMember : ∀ worker, member worker ↔ member' worker) :
    fabric.ClaimedBy channel kind member' where
  kind := h.kind
  claimed worker := (h.claimed worker).trans (hMember worker)

/-- Edits of boxes change nothing about who has claimed a channel. -/
theorem editBox (h : fabric.ClaimedBy channel kind member) (c : UInt32) (w : Nat)
    (edit : List M → List M) : (fabric.editBox c w edit).ClaimedBy channel kind member := by
  have hBefore {found : Channel τ M}
      (hFound : (fabric.editBox c w edit).channel? channel = some found) :
      ∃ before, fabric.channel? channel = some before ∧ found.kind = before.kind ∧
        found.claimants = before.claimants := by
    rw [channel?_editBox] at hFound
    split at hFound
    · obtain ⟨before, hBefore, hEq⟩ := Option.map_eq_some_iff.mp hFound
      rw [← hEq]
      exact ⟨before, hBefore, rfl, rfl⟩
    · exact ⟨found, hFound, rfl, rfl⟩
  refine ⟨fun found hFound => ?_, fun worker => ?_⟩
  · obtain ⟨before, hBefore, hKind, -⟩ := hBefore hFound
    rw [hKind]
    exact h.kind before hBefore
  · rw [← h.claimed worker]
    refine ⟨?_, fun hClaimed => hClaimed.editBox c w edit⟩
    rintro ⟨found, hFound, hClaimant⟩
    obtain ⟨before, hBefore, -, hClaimants⟩ := hBefore hFound
    exact ⟨before, hBefore, hClaimants ▸ hClaimant⟩

variable [DecidableEq τ]

/-- A worker that has not claimed the channel may do so. -/
theorem granted (h : fabric.ClaimedBy channel kind member) (hWorker : worker < fabric.workers)
    (hNew : ¬member worker) : ∃ opened, fabric.claim channel kind worker = .ok opened := by
  unfold Fabric.claim
  rw [if_neg (Nat.not_le_of_lt hWorker)]
  cases hFound : fabric.channel? channel with
  | none => exact ⟨_, rfl⟩
  | some found =>
      have hClaimant : worker ∉ found.claimants := fun hClaimant =>
        hNew ((h.claimed worker).mp ⟨found, hFound, hClaimant⟩)
      have hKind : ¬found.kind ≠ kind := fun hKind => hKind (h.kind found hFound)
      simp only [if_neg hKind, if_neg hClaimant]
      exact ⟨_, rfl⟩

/-- A claim adds the claimant to those who have claimed a channel. -/
theorem claim (h : fabric.ClaimedBy channel kind member)
    (hClaim : fabric.claim channel kind worker = .ok opened) :
    opened.ClaimedBy channel kind fun other => other = worker ∨ member other := by
  have hOpened := channel?_of_claim hClaim channel
  rw [if_pos rfl] at hOpened
  refine ⟨fun found hFound => ?_, fun other => ?_⟩
  · rw [hOpened, Option.some.injEq] at hFound
    rw [← hFound, joined]
    cases hBefore : fabric.channel? channel with
    | none => rfl
    | some before => exact h.kind before hBefore
  · rw [← h.claimed other]
    constructor
    · rintro ⟨found, hFound, hClaimant⟩
      rw [hOpened, Option.some.injEq] at hFound
      rw [← hFound, joined] at hClaimant
      cases hBefore : fabric.channel? channel with
      | none =>
          rw [hBefore] at hClaimant
          exact Or.inl (List.mem_singleton.mp hClaimant)
      | some before =>
          rw [hBefore] at hClaimant
          exact (List.mem_cons.mp hClaimant).imp_right fun hOld => ⟨before, hBefore, hOld⟩
    · rintro (hSame | hOld)
      · rw [hSame]
        exact claimed_of_claim hClaim
      · exact hOld.claim hClaim

end ClaimedBy

end Fabric

namespace Gathering

/-- What one worker does. None of it but what it does between its claim and the meeting delivers
anything. -/
structure Part (channel : UInt32) (M α : Type) where
  /-- What comes before the claim. -/
  opening : List (Effect M)
  sending : List (Effect M)
  /-- What comes after the worker has taken out its messages. -/
  closing : List M → List (Effect M)
  result : List M → α
  opening_silent : ∀ target, deliveries channel target opening = []
  closing_silent : ∀ target messages, deliveries channel target (closing messages) = []

/-- A worker that claims the channel and meets the others, and does nothing else. -/
instance {channel : UInt32} [Inhabited α] : Inhabited (Part channel M α) where
  default :=
    { opening := []
      sending := []
      closing := fun _ => []
      result := fun _ => default
      opening_silent := fun _ => rfl
      closing_silent := fun _ _ => rfl }

structure Plan (τ M α : Type) where
  channel : UInt32
  kind : τ
  workers : Nat
  part : Nat → Part channel M α

/-- How far a worker has come, and which effects it performs next. -/
inductive Stage (M : Type) where
  | opening (rest : List (Effect M))
  | sending (rest : List (Effect M))
  | meeting
  | collecting
  | closing (messages : List M) (rest : List (Effect M))
  | done (messages : List M)

namespace Stage

def entered : Stage M → Bool
  | opening _ => false
  | sending _ | meeting | collecting | closing _ _ | done _ => true

def met : Stage M → Bool
  | opening _ | sending _ => false
  | meeting | collecting | closing _ _ | done _ => true

def left : Stage M → Bool
  | opening _ | sending _ | meeting => false
  | collecting | closing _ _ | done _ => true

def finished : Stage M → Bool
  | opening _ | sending _ | meeting | collecting | closing _ _ => false
  | done _ => true

def messages? : Stage M → Option (List M)
  | opening _ | sending _ | meeting | collecting => none
  | closing messages _ | done messages => some messages

/-- What the worker performs next delivers nothing, unless it is sending. -/
def Silent (channel : UInt32) : Stage M → Prop
  | opening rest | closing _ rest => ∀ target, deliveries channel target rest = []
  | sending _ | meeting | collecting | done _ => True

end Stage

namespace Plan

variable (plan : Plan τ M α)

/-- What a worker does once it has left the meeting. -/
def collect (worker : Nat) : Program τ M ε α :=
  .drain plan.channel fun messages =>
    .script ((plan.part worker).closing messages) (.finish ((plan.part worker).result messages))

/-- The program does what the plan says of the worker, and anything if its claim is refused. -/
def Follows (worker : Nat) (program : Program τ M ε α) : Prop :=
  ∃ next, program = .script (plan.part worker).opening (.claim plan.channel plan.kind next) ∧
    next (.ok plan.workers) =
      .script (plan.part worker).sending (.meet fun _ => plan.collect worker)

/-- The workers are started with programs that do what the plan says of them. -/
def Starts (start : Nat → Except κ (Program τ M ε α)) : Prop :=
  ∀ index, ∃ program, start index = .ok program ∧
    (index < plan.workers → plan.Follows index program)

/-- How a worker stands at a stage. -/
def Stands (worker : Nat) : Stage M → Status τ M ε α → Prop
  | .opening rest, status => ∃ next,
      status = .running (.script rest (.claim plan.channel plan.kind next)) ∧
        next (.ok plan.workers) =
          .script (plan.part worker).sending (.meet fun _ => plan.collect worker)
  | .sending rest, status => status = .running (.script rest (.meet fun _ => plan.collect worker))
  | .meeting, status => status = .waiting (plan.collect worker)
  | .collecting, status => status = .running (plan.collect worker)
  | .closing messages rest, status =>
      status = .running (.script rest (.finish ((plan.part worker).result messages)))
  | .done messages, status => status = .returned ((plan.part worker).result messages)

/-- What a worker is yet to put into a mailbox. -/
def pending (worker target : Nat) : Stage M → List M
  | .opening _ => deliveries plan.channel target (plan.part worker).sending
  | .sending rest => deliveries plan.channel target rest
  | .meeting | .collecting | .closing _ _ | .done _ => []

def underWay (stage : Nat → Stage M) (target : Nat) : List M :=
  (List.range plan.workers).flatMap fun worker => plan.pending worker target (stage worker)

def total (target : Nat) : List M :=
  (List.range plan.workers).flatMap fun worker =>
    deliveries plan.channel target (plan.part worker).sending

/-- What one turn of a worker can come to. -/
inductive Advance [DecidableEq τ] (worker : Nat) (world : World τ M) :
    Stage M → Stage M → World τ M → Prop where
  | opening (effect : Effect M) (rest : List (Effect M)) :
      Advance worker world (.opening (effect :: rest)) (.opening rest) (world.perform worker effect)
  | claim {fabric : Fabric τ M}
      (hClaim : world.fabric.claim plan.channel plan.kind worker = .ok fabric) :
      Advance worker world (.opening []) (.sending (plan.part worker).sending) { world with fabric }
  | sending (effect : Effect M) (rest : List (Effect M)) :
      Advance worker world (.sending (effect :: rest)) (.sending rest) (world.perform worker effect)
  | meet : Advance worker world (.sending []) .meeting world
  | leave : Advance worker world .meeting .collecting world
  | collect : Advance worker world .collecting
      (.closing (world.fabric.box plan.channel worker)
        ((plan.part worker).closing (world.fabric.box plan.channel worker)))
      (world.drain plan.channel worker).2
  | closing (messages : List M) (effect : Effect M) (rest : List (Effect M)) :
      Advance worker world (.closing messages (effect :: rest)) (.closing messages rest)
        (world.perform worker effect)
  | finish (messages : List M) : Advance worker world (.closing messages []) (.done messages) world

end Plan

variable {plan : Plan τ M α} {stage : Nat → Stage M} {worker : Nat}

theorem Stage.done_of_finished {here : Stage M} (h : here.finished = true) :
    ∃ messages, here = .done messages := by
  cases here with
  | done messages => exact ⟨messages, rfl⟩
  | opening rest => cases h
  | sending rest => cases h
  | meeting => cases h
  | collecting => cases h
  | closing messages rest => cases h

theorem Plan.Starts.starts {start : Nat → Except κ (Program τ M ε α)} (h : plan.Starts start)
    (index : Nat) : ∃ program, start index = .ok program :=
  (h index).imp fun _ hProgram => hProgram.1

namespace Plan.Stands

variable {here : Stage M} {status : Status τ M ε α} {program : Program τ M ε α}

/-- A worker has ended when its stage is the last. -/
theorem ended (h : plan.Stands worker here status) : status.ended = here.finished := by
  cases here with
  | opening rest =>
      obtain ⟨next, hStatus, -⟩ := h
      rw [hStatus]
      rfl
  | sending rest => cases h; rfl
  | meeting => cases h; rfl
  | collecting => cases h; rfl
  | closing messages rest => cases h; rfl
  | done messages => cases h; rfl

/-- Whoever waits has come to the meeting. -/
theorem waiting (h : plan.Stands worker here (.waiting program)) :
    here = .meeting ∧ program = plan.collect worker := by
  cases here with
  | opening rest =>
      obtain ⟨next, hStatus, -⟩ := h
      cases hStatus
  | meeting => cases h; exact ⟨rfl, rfl⟩
  | sending rest => cases h
  | collecting => cases h
  | closing messages rest => cases h
  | done messages => cases h

/-- No stage is a failure. -/
theorem not_failed {error : ε} : ¬plan.Stands (τ := τ) worker here (.failed error) := by
  intro h
  cases here with
  | opening rest =>
      obtain ⟨next, hStatus, -⟩ := h
      cases hStatus
  | sending rest => cases h
  | meeting => cases h
  | collecting => cases h
  | closing messages rest => cases h
  | done messages => cases h

end Plan.Stands

theorem silent_cons {channel : UInt32} {effect : Effect M} {rest : List (Effect M)}
    (h : ∀ target, deliveries channel target (effect :: rest) = []) (target : Nat) :
    deliveries channel target [effect] = [] ∧ deliveries channel target rest = [] := by
  have hBoth := h target
  rw [← List.singleton_append, deliveries_append] at hBoth
  exact List.append_eq_nil_iff.mp hBoth

namespace Plan.Advance

variable [DecidableEq τ] {world world' : World τ M} {here there : Stage M}

/-- From the last stage nothing goes on. -/
theorem not_finished (h : plan.Advance worker world here there world') : here.finished = false := by
  cases h <;> rfl

/-- A worker that has met does not forget it. -/
theorem met (h : plan.Advance worker world here there world') (hMet : here.met = true) :
    there.met = true := by
  cases h <;> first | rfl | exact hMet

/-- A worker leaves the meeting in one turn and is past it in all later ones. -/
theorem left (h : plan.Advance worker world here there world') (hLeft : there.left = true) :
    here.left = true ∨ here = .meeting := by
  cases h with
  | leave => exact Or.inr rfl
  | opening effect rest => cases hLeft
  | claim hClaim => cases hLeft
  | sending effect rest => cases hLeft
  | meet => cases hLeft
  | collect => exact Or.inl rfl
  | closing messages effect rest => exact Or.inl rfl
  | finish messages => exact Or.inl rfl

/-- A worker that has nothing left to send stays that way. -/
theorem silent (h : plan.Advance worker world here there world')
    (hSilent : here.Silent plan.channel) : there.Silent plan.channel := by
  cases h with
  | opening effect rest => exact fun target => (silent_cons hSilent target).2
  | closing messages effect rest => exact fun target => (silent_cons hSilent target).2
  | collect => exact fun target => (plan.part worker).closing_silent target _
  | claim hClaim => trivial
  | sending effect rest => trivial
  | meet => trivial
  | leave => trivial
  | finish messages => trivial

end Plan.Advance

end Gathering

end Dataflow
