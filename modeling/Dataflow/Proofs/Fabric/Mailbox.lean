import Dataflow.World

/-! What the operations of a fabric do to its mailboxes. A delivery and a take each edit one
mailbox; a claim edits none. The mailboxes of a channel exist from its first claim on, one for each
worker. -/
namespace Dataflow

variable {τ M : Type}

/-- Two outcomes with the same verdict are both refusals, for the same reason, or neither is. -/
theorem same_verdict {ε α : Type} {first second : Except ε α}
    (h : first.map (fun _ => ()) = second.map fun _ => ()) :
    (∃ error, first = .error error ∧ second = .error error) ∨
      ∃ granted granted', first = .ok granted ∧ second = .ok granted' := by
  cases first with
  | error error =>
      cases second with
      | error error' =>
          cases h
          exact Or.inl ⟨error, rfl, rfl⟩
      | ok granted' => cases h
  | ok granted =>
      cases second with
      | error error' => cases h
      | ok granted' => exact Or.inr ⟨granted, granted', rfl, rfl⟩

namespace Fabric

def box? (fabric : Fabric τ M) (channel : UInt32) (worker : Nat) : Option (List M) :=
  (fabric.channel? channel).bind fun found => found.boxes[worker]?

theorem box_eq (fabric : Fabric τ M) (channel : UInt32) (worker : Nat) :
    fabric.box channel worker = (fabric.box? channel worker).getD [] :=
  rfl

def editBox (fabric : Fabric τ M) (channel : UInt32) (worker : Nat) (edit : List M → List M) :
    Fabric τ M :=
  fabric.modify channel fun found => { found with boxes := found.boxes.modify worker edit }

/-- A delivery is an edit of one box. -/
theorem deliver_eq (fabric : Fabric τ M) (channel : UInt32) (worker : Nat) (message : M) :
    fabric.deliver channel worker message = fabric.editBox channel worker (· ++ [message]) :=
  rfl

/-- So is taking a message out. -/
theorem take_eq (fabric : Fabric τ M) (channel : UInt32) (worker : Nat) :
    fabric.take channel worker =
      ((fabric.box channel worker).head?, fabric.editBox channel worker List.tail) :=
  rfl

/-- An edit keeps the channel and changes one of its boxes. -/
theorem channel?_editBox (fabric : Fabric τ M) (c d : UInt32) (worker : Nat)
    (edit : List M → List M) :
    (fabric.editBox c worker edit).channel? d =
      if c = d then (fabric.channel? d).map fun found =>
        { found with boxes := found.boxes.modify worker edit }
      else fabric.channel? d :=
  channel?_modify fabric c d _

theorem channel?_isSome_editBox {fabric : Fabric τ M} {d : UInt32}
    (h : (fabric.channel? d).isSome) (channel : UInt32) (worker : Nat) (edit : List M → List M) :
    ((fabric.editBox channel worker edit).channel? d).isSome := by
  rw [channel?_editBox]
  split
  · rw [Option.isSome_map]
    exact h
  · exact h

/-- An edit reaches its own box and no other. -/
theorem box?_editBox (fabric : Fabric τ M) (c d : UInt32) (v w : Nat) (edit : List M → List M) :
    (fabric.editBox c v edit).box? d w =
      if c = d ∧ v = w then (fabric.box? d w).map edit else fabric.box? d w := by
  rw [box?, box?, channel?_editBox]
  by_cases hChannel : c = d
  · rw [if_pos hChannel]
    cases fabric.channel? d with
    | none => simp
    | some found =>
        simp only [Option.map_some, Option.bind_some, List.getElem?_modify]
        by_cases hWorker : v = w
        · simp [hChannel, hWorker]
        · simp [hWorker]
  · rw [if_neg hChannel, if_neg fun h => hChannel h.1]

/-- The edited box holds what the edit makes of it. -/
theorem box_editBox_self {fabric : Fabric τ M} {channel : UInt32} {worker : Nat}
    (h : (fabric.box? channel worker).isSome) (edit : List M → List M) :
    (fabric.editBox channel worker edit).box channel worker = edit (fabric.box channel worker) := by
  obtain ⟨messages, hBox⟩ := Option.isSome_iff_exists.mp h
  rw [box_eq, box_eq, box?_editBox, if_pos ⟨rfl, rfl⟩, hBox, Option.map_some, Option.getD_some,
    Option.getD_some]

/-- The other boxes hold what they held. -/
theorem box_editBox_of_ne {fabric : Fabric τ M} {c d : UInt32} {v w : Nat} (h : ¬(c = d ∧ v = w))
    (edit : List M → List M) : (fabric.editBox c v edit).box d w = fabric.box d w := by
  rw [box_eq, box_eq, box?_editBox, if_neg h]

/-- Taking from a mailbox that does not exist is taking from an empty one. -/
theorem box_take_self (fabric : Fabric τ M) (channel : UInt32) (worker : Nat) :
    (fabric.take channel worker).2.box channel worker = (fabric.box channel worker).tail := by
  rw [take_eq, box_eq, box_eq, box?_editBox, if_pos ⟨rfl, rfl⟩]
  cases fabric.box? channel worker <;> rfl

/-- Every channel has one mailbox for each worker. -/
def Regular (fabric : Fabric τ M) : Prop :=
  ∀ channel found, fabric.channel? channel = some found → found.boxes.length = fabric.workers

def Claimed (fabric : Fabric τ M) (channel : UInt32) (worker : Nat) : Prop :=
  ∃ found, fabric.channel? channel = some found ∧ worker ∈ found.claimants

/-- Edits keep the number of boxes. -/
theorem Regular.editBox {fabric : Fabric τ M} (h : fabric.Regular) (channel : UInt32)
    (worker : Nat) (edit : List M → List M) : (fabric.editBox channel worker edit).Regular := by
  intro d found hFound
  rw [channel?_editBox] at hFound
  split at hFound
  · obtain ⟨before, hBefore, hEq⟩ := Option.map_eq_some_iff.mp hFound
    rw [← hEq, List.length_modify]
    exact h d before hBefore
  · exact h d found hFound

/-- What is claimed stays claimed through edits. -/
theorem Claimed.editBox {fabric : Fabric τ M} {d : UInt32} {w : Nat} (h : fabric.Claimed d w)
    (channel : UInt32) (worker : Nat) (edit : List M → List M) :
    (fabric.editBox channel worker edit).Claimed d w := by
  obtain ⟨found, hFound, hClaimant⟩ := h
  rw [Claimed, channel?_editBox]
  split
  · refine ⟨{ found with boxes := found.boxes.modify worker edit }, ?_, hClaimant⟩
    rw [hFound, Option.map_some]
  · exact ⟨found, hFound, hClaimant⟩

/-- A claim by one worker makes the mailboxes of all workers. -/
theorem Claimed.box?_isSome {fabric : Fabric τ M} {channel : UInt32} {worker target : Nat}
    (h : fabric.Claimed channel worker) (hRegular : fabric.Regular)
    (hTarget : target < fabric.workers) : (fabric.box? channel target).isSome := by
  obtain ⟨found, hFound, -⟩ := h
  have hLength : target < found.boxes.length := by
    rw [hRegular channel found hFound]
    exact hTarget
  rw [box?, hFound, Option.bind_some, List.getElem?_eq_getElem hLength, Option.isSome_some]

section Claim

variable [DecidableEq τ] {fabric opened : Fabric τ M} {channel : UInt32} {kind : τ} {worker : Nat}

/-- A claim that is granted opens the channel, with empty mailboxes, or adds a claimant to it. -/
theorem claim_cases (h : fabric.claim channel kind worker = .ok opened) :
    worker < fabric.workers ∧
      ((fabric.channel? channel = none ∧ opened =
          { fabric with
            channels := (channel,
              { kind, boxes := List.replicate fabric.workers [], claimants := [worker] }) ::
                fabric.channels }) ∨
        ∃ found, fabric.channel? channel = some found ∧ worker ∉ found.claimants ∧ opened =
          fabric.modify channel fun found =>
            { found with claimants := worker :: found.claimants }) := by
  unfold claim at h
  split at h
  · cases h
  · rename_i hWorker
    refine ⟨Nat.lt_of_not_le hWorker, ?_⟩
    cases hFound : fabric.channel? channel with
    | none =>
        simp only [hFound, Except.ok.injEq] at h
        exact Or.inl ⟨rfl, h.symm⟩
    | some found =>
        simp only [hFound] at h
        split at h
        · cases h
        · split at h
          · cases h
          · rename_i hClaimant
            exact Or.inr ⟨found, rfl, hClaimant, (Except.ok.inj h).symm⟩

/-- A claim brings no workers. -/
theorem claim_workers (h : fabric.claim channel kind worker = .ok opened) :
    opened.workers = fabric.workers := by
  rcases (claim_cases h).2 with ⟨-, hOpened⟩ | ⟨found, -, -, hOpened⟩
  · rw [hOpened]
  · rw [hOpened, modify]

/-- A channel that is claimed again carries what it always has. -/
theorem kind_of_claim (h : fabric.claim channel kind worker = .ok opened) {found : Channel τ M}
    (hFound : fabric.channel? channel = some found) : found.kind = kind := by
  refine Decidable.byContradiction fun hKind => ?_
  simp only [claim, hFound, ne_eq, hKind, not_false_eq_true, if_true] at h
  split at h <;> cases h

/-- The channel of a claim, with the new claimant. The first claim makes its mailboxes. -/
def joined (fabric : Fabric τ M) (channel : UInt32) (kind : τ) (worker : Nat) : Channel τ M :=
  match fabric.channel? channel with
  | none => { kind, boxes := List.replicate fabric.workers [], claimants := [worker] }
  | some found => { found with claimants := worker :: found.claimants }

/-- A claim changes the look-up of its own channel and of no other. -/
theorem channel?_of_claim (h : fabric.claim channel kind worker = .ok opened) (d : UInt32) :
    opened.channel? d =
      if d = channel then some (fabric.joined channel kind worker) else fabric.channel? d := by
  rcases (claim_cases h).2 with ⟨hNone, hOpened⟩ | ⟨before, hBefore, -, hOpened⟩
  · rw [hOpened, joined, hNone, channel?, List.lookup_cons]
    by_cases hChannel : d = channel
    · rw [if_pos hChannel, beq_iff_eq.mpr hChannel]
    · rw [if_neg hChannel, beq_eq_false_iff_ne.mpr hChannel]
      rfl
  · rw [hOpened, joined, hBefore, channel?_modify]
    by_cases hChannel : d = channel
    · subst hChannel
      rw [if_pos rfl, if_pos rfl, hBefore, Option.map_some]
    · rw [if_neg (Ne.symm hChannel), if_neg hChannel]

/-- The look-up of channels after a claim. -/
theorem channel?_claim (h : fabric.claim channel kind worker = .ok opened) (d : UInt32) :
    (d ≠ channel ∧ opened.channel? d = fabric.channel? d) ∨
    (d = channel ∧ ∃ found, opened.channel? d = some found ∧ worker ∈ found.claimants ∧
      ((fabric.channel? d = none ∧ found.boxes = List.replicate fabric.workers []) ∨
        ∃ before, fabric.channel? d = some before ∧ found.boxes = before.boxes ∧
          before.claimants ⊆ found.claimants)) := by
  rw [channel?_of_claim h]
  by_cases hChannel : d = channel
  · subst hChannel
    refine Or.inr ⟨rfl, _, if_pos rfl, ?_⟩
    unfold joined
    cases fabric.channel? d with
    | none => exact ⟨List.mem_singleton_self worker, Or.inl ⟨rfl, rfl⟩⟩
    | some before =>
        refine ⟨List.mem_cons_self, Or.inr ⟨before, rfl, rfl, ?_⟩⟩
        exact List.subset_cons_self worker before.claimants
  · exact Or.inl ⟨hChannel, if_neg hChannel⟩

/-- Claims leave every mailbox as it is. -/
theorem box_claim (h : fabric.claim channel kind worker = .ok opened) (d : UInt32) (w : Nat) :
    opened.box d w = fabric.box d w := by
  rw [box_eq, box_eq, box?, box?]
  rcases channel?_claim h d with ⟨-, hSame⟩ | ⟨-, found, hFound, -, hBoxes⟩
  · rw [hSame]
  · rcases hBoxes with ⟨hNone, hEmpty⟩ | ⟨before, hBefore, hSame, -⟩
    · rw [hFound, hNone, Option.bind_some, Option.bind_none, hEmpty, List.getElem?_replicate]
      split <;> rfl
    · rw [hFound, hBefore, Option.bind_some, Option.bind_some, hSame]

/-- A channel is opened with a box for every worker. -/
theorem Regular.claim (hRegular : fabric.Regular)
    (h : fabric.claim channel kind worker = .ok opened) : opened.Regular := by
  intro d found hFound
  rw [claim_workers h]
  rcases channel?_claim h d with ⟨-, hSame⟩ | ⟨-, after, hAfter, -, hBoxes⟩
  · rw [hSame] at hFound
    exact hRegular d found hFound
  · rw [hAfter, Option.some.injEq] at hFound
    subst hFound
    rcases hBoxes with ⟨-, hEmpty⟩ | ⟨before, hBefore, hSame, -⟩
    · rw [hEmpty, List.length_replicate]
    · rw [hSame]
      exact hRegular d before hBefore

/-- A claim that succeeds makes the channel claimed. -/
theorem claimed_of_claim (h : fabric.claim channel kind worker = .ok opened) :
    opened.Claimed channel worker := by
  rcases channel?_claim h channel with ⟨hNe, -⟩ | ⟨-, found, hFound, hClaimant, -⟩
  · exact absurd rfl hNe
  · exact ⟨found, hFound, hClaimant⟩

/-- What is claimed stays claimed when others claim. -/
theorem Claimed.claim {d : UInt32} {w : Nat} (hClaimed : fabric.Claimed d w)
    (h : fabric.claim channel kind worker = .ok opened) : opened.Claimed d w := by
  obtain ⟨before, hBefore, hClaimant⟩ := hClaimed
  rcases channel?_claim h d with ⟨-, hSame⟩ | ⟨-, found, hFound, -, hBoxes⟩
  · exact ⟨before, by rw [hSame, hBefore], hClaimant⟩
  · rcases hBoxes with ⟨hNone, -⟩ | ⟨same, hSame, -, hSubset⟩
    · rw [hNone] at hBefore
      cases hBefore
    · rw [hBefore, Option.some.injEq] at hSame
      subst hSame
      exact ⟨found, hFound, hSubset hClaimant⟩

/-- Nobody claims a channel twice. -/
theorem Claimed.not_claim (hClaimed : fabric.Claimed channel worker) :
    fabric.claim channel kind worker ≠ .ok opened := by
  intro h
  obtain ⟨before, hBefore, hClaimant⟩ := hClaimed
  rcases (claim_cases h).2 with ⟨hNone, -⟩ | ⟨found, hFound, hFresh, -⟩
  · rw [hNone] at hBefore
    cases hBefore
  · rw [hBefore, Option.some.injEq] at hFound
    subst hFound
    exact hFresh hClaimant

/-- What one act can do to a fabric: nothing, an edit of a mailbox, or a claim. -/
inductive Moved (fabric : Fabric τ M) : Fabric τ M → Prop where
  | rest : Moved fabric fabric
  | edit (channel : UInt32) (worker : Nat) (edit : List M → List M) :
      Moved fabric (fabric.editBox channel worker edit)
  | claim {channel : UInt32} {kind : τ} {worker : Nat} {opened : Fabric τ M}
      (h : fabric.claim channel kind worker = .ok opened) : Moved fabric opened

namespace Moved

variable {after : Fabric τ M}

theorem workers (h : fabric.Moved after) : after.workers = fabric.workers := by
  cases h with
  | rest => rfl
  | edit channel worker edit => rfl
  | claim hClaim => exact claim_workers hClaim

theorem regular (h : fabric.Moved after) (hRegular : fabric.Regular) : after.Regular := by
  cases h with
  | rest => exact hRegular
  | edit channel worker edit => exact hRegular.editBox channel worker edit
  | claim hClaim => exact hRegular.claim hClaim

theorem channel?_isSome (h : fabric.Moved after) {d : UInt32}
    (hSome : (fabric.channel? d).isSome) : (after.channel? d).isSome := by
  cases h with
  | rest => exact hSome
  | edit channel worker edit => exact channel?_isSome_editBox hSome channel worker edit
  | claim hClaim =>
      rw [channel?_of_claim hClaim]
      split
      · rfl
      · exact hSome

/-- No claim is ever given back. -/
theorem claimed (h : fabric.Moved after) {channel : UInt32} {claimant : Nat}
    (hClaimed : fabric.Claimed channel claimant) : after.Claimed channel claimant := by
  cases h with
  | rest => exact hClaimed
  | edit c worker edit => exact hClaimed.editBox c worker edit
  | claim hClaim => exact hClaimed.claim hClaim

end Moved

end Claim

/-- A new fabric has at least one worker, not too many, and no channel. -/
theorem create_eq {workers : Nat} {fabric : Fabric τ M} (h : create workers = .ok fabric) :
    0 < workers ∧ workers < UInt32.size ∧ fabric = { workers } := by
  unfold create at h
  split at h
  · cases h
  · rename_i hZero
    split at h
    · cases h
    · rename_i hMax
      rw [maxWorkers] at hMax
      exact ⟨Nat.pos_of_ne_zero hZero, by omega, (Except.ok.inj h).symm⟩

end Fabric

end Dataflow
