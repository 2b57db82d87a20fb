import Dataflow.Proofs.Fabric.Mailbox

/-! A claim that is never used. Of two fabrics the second has one claim more. Mailboxes hide it,
and so do other claims, unless they are of the same channel and either made for the same worker or,
where the claim was the first of all, for messages of another kind. The claim itself lasts for
good. -/
namespace Dataflow.Fabric

variable {τ M : Type} {channel : UInt32} {kind : τ} {worker : Nat} {first second : Fabric τ M}

/-- The fabrics differ in a claim of `channel` by `worker`, which only the second has seen. If
nobody else has claimed the channel, only the second has it, and its mailboxes are empty. -/
structure Reserved (channel : UInt32) (kind : τ) (worker : Nat) (first second : Fabric τ M) :
    Prop where
  workers : second.workers = first.workers
  others : ∀ d, d ≠ channel → second.channel? d = first.channel? d
  fresh : first.channel? channel = none → second.channel? channel =
    some { kind, boxes := List.replicate first.workers [], claimants := [worker] }
  shared : ∀ found, first.channel? channel = some found → found.kind = kind ∧
    ∃ claimants, second.channel? channel = some { found with claimants } ∧
      ∀ other, other ≠ worker → (other ∈ claimants ↔ other ∈ found.claimants)

/-- The worker has claimed the channel for messages of this kind. -/
def Holds (channel : UInt32) (kind : τ) (worker : Nat) (fabric : Fabric τ M) : Prop :=
  worker < fabric.workers ∧ ∃ found, fabric.channel? channel = some found ∧ found.kind = kind ∧
    worker ∈ found.claimants

/-- A claim of the channel with this kind and claimant does not tell whether it was reserved. -/
def Spares (fabric : Fabric τ M) (channel : UInt32) (kind : τ) (worker : Nat) (other : τ)
    (claimant : Nat) : Prop :=
  (other = kind → claimant ≠ worker) ∧ (other ≠ kind → (fabric.channel? channel).isSome)

namespace Reserved

/-- All mailboxes have the same content. -/
theorem box (h : Reserved channel kind worker first second) (d : UInt32) (w : Nat) :
    second.box d w = first.box d w := by
  rw [box_eq, box_eq, box?, box?]
  by_cases hChannel : d = channel
  · subst hChannel
    cases hFirst : first.channel? d with
    | none =>
        rw [h.fresh hFirst, Option.bind_some, Option.bind_none, List.getElem?_replicate]
        split <;> rfl
    | some found =>
        obtain ⟨-, claimants, hSecond, -⟩ := h.shared found hFirst
        rw [hSecond]
        rfl
  · rw [h.others d hChannel]

/-- An edit of a mailbox that both fabrics have. -/
theorem editBox (h : Reserved channel kind worker first second) {d : UInt32}
    (hOpen : (first.channel? d).isSome) (w : Nat) (edit : List M → List M) :
    Reserved channel kind worker (first.editBox d w edit) (second.editBox d w edit) where
  workers := h.workers
  others e hOther := by
    rw [channel?_editBox, channel?_editBox, h.others e hOther]
  fresh hFirst := by
    rw [channel?_editBox] at hFirst ⊢
    split at hFirst
    · rename_i hChannel
      rw [Option.map_eq_none_iff, ← hChannel] at hFirst
      rw [hFirst] at hOpen
      cases hOpen
    · rename_i hChannel
      rw [if_neg hChannel]
      exact h.fresh hFirst
  shared found hFirst := by
    rw [channel?_editBox] at hFirst ⊢
    split at hFirst
    · rename_i hChannel
      obtain ⟨before, hBefore, hEdited⟩ := Option.map_eq_some_iff.mp hFirst
      obtain ⟨hKind, claimants, hSecond, hClaimants⟩ := h.shared before hBefore
      subst hEdited
      refine ⟨hKind, claimants, ?_, hClaimants⟩
      rw [if_pos hChannel, hSecond, Option.map_some]
    · rename_i hChannel
      rw [if_neg hChannel]
      exact h.shared found hFirst

variable [DecidableEq τ]

/-- A claim that succeeds reserves its channel. -/
theorem of_claim (h : first.claim channel kind worker = .ok second) :
    Reserved channel kind worker first second where
  workers := claim_workers h
  others d hOther := by rw [channel?_of_claim h, if_neg hOther]
  fresh hFirst := by rw [channel?_of_claim h, if_pos rfl, joined, hFirst]
  shared found hFirst := by
    refine ⟨kind_of_claim h hFirst, worker :: found.claimants, ?_, fun other hOther => ?_⟩
    · rw [channel?_of_claim h, if_pos rfl, joined, hFirst]
    · rw [List.mem_cons, or_iff_right hOther]

/-- The fabrics decide alike on a claim that spares the reservation. -/
theorem verdict (h : Reserved channel kind worker first second) {d : UInt32} {other : τ}
    {claimant : Nat} (hSpares : d = channel → first.Spares channel kind worker other claimant) :
    (first.claim d other claimant).map (fun _ => ()) =
      (second.claim d other claimant).map fun _ => () := by
  unfold claim
  rw [h.workers]
  by_cases hWorker : first.workers ≤ claimant
  · rw [if_pos hWorker, if_pos hWorker]
  · rw [if_neg hWorker, if_neg hWorker]
    by_cases hChannel : d = channel
    · subst hChannel
      obtain ⟨hClaimant, hOpen⟩ := hSpares rfl
      cases hFirst : first.channel? d with
      | none =>
          have hKind : other = kind := Decidable.byContradiction fun hKind => by
            rw [hFirst] at hOpen
            exact absurd (hOpen hKind) Bool.false_ne_true
          have hNew : claimant ∉ [worker] := fun hMem =>
            hClaimant hKind (List.mem_singleton.mp hMem)
          simp only [h.fresh hFirst, hKind, ne_eq, not_true_eq_false, if_false, hNew]
          rfl
      | some found =>
          obtain ⟨hFound, claimants, hSecond, hClaimants⟩ := h.shared found hFirst
          simp only [hSecond]
          by_cases hKind : found.kind = other
          · have hMem := hClaimants claimant (hClaimant (hKind.symm.trans hFound))
            simp only [hKind, ne_eq, not_true_eq_false, if_false, hMem]
            split <;> rfl
          · simp only [hKind, ne_eq, not_false_eq_true, if_true]
    · rw [h.others d hChannel]
      cases first.channel? d with
      | none => rfl
      | some found =>
          dsimp only
          repeat' split
          all_goals rfl

/-- A claim that both fabrics grant leaves them apart by the reservation alone. -/
theorem claim (h : Reserved channel kind worker first second) {d : UInt32} {other : τ}
    {claimant : Nat} {opened opened' : Fabric τ M}
    (hFirst : first.claim d other claimant = .ok opened)
    (hSecond : second.claim d other claimant = .ok opened')
    (hSpares : d = channel → first.Spares channel kind worker other claimant) :
    Reserved channel kind worker opened opened' where
  workers := (claim_workers hSecond).trans (h.workers.trans (claim_workers hFirst).symm)
  others e hOther := by
    rw [channel?_of_claim hFirst, channel?_of_claim hSecond, h.others e hOther]
    by_cases hChannel : e = d
    · subst hChannel
      rw [if_pos rfl, if_pos rfl, joined, joined, h.others e hOther, h.workers]
    · rw [if_neg hChannel, if_neg hChannel]
  fresh hNone := by
    rw [channel?_of_claim hFirst] at hNone
    split at hNone
    · cases hNone
    · rename_i hChannel
      rw [channel?_of_claim hSecond, if_neg hChannel, claim_workers hFirst]
      exact h.fresh hNone
  shared found hFound := by
    rw [channel?_of_claim hFirst] at hFound
    rw [channel?_of_claim hSecond]
    by_cases hChannel : channel = d
    · subst hChannel
      rw [if_pos rfl, Option.some.injEq] at hFound
      rw [if_pos rfl]
      subst hFound
      cases hBefore : first.channel? channel with
      | none =>
          have hKind : kind = other := kind_of_claim hSecond (h.fresh hBefore)
          subst hKind
          refine ⟨by rw [joined, hBefore], [claimant, worker], ?_, fun v hOther => ?_⟩
          · rw [joined, joined, h.fresh hBefore, hBefore]
          · rw [joined, hBefore, List.mem_cons, List.mem_singleton, List.mem_singleton,
              or_iff_left hOther]
      | some before =>
          obtain ⟨hKind, claimants, hAfter, hClaimants⟩ := h.shared before hBefore
          refine ⟨by rw [joined, hBefore]; exact hKind, claimant :: claimants, ?_,
            fun v hOther => ?_⟩
          · rw [joined, joined, hAfter, hBefore]
          · rw [joined, hBefore, List.mem_cons, List.mem_cons, hClaimants v hOther]
    · rw [if_neg hChannel] at hFound ⊢
      exact h.shared found hFound

end Reserved

section

variable [DecidableEq τ] {fabric opened : Fabric τ M}

/-- The claimant holds the channel from then on. -/
theorem holds_of_claim (h : fabric.claim channel kind worker = .ok opened) :
    opened.Holds channel kind worker := by
  refine ⟨?_, fabric.joined channel kind worker, ?_, ?_, ?_⟩
  · rw [claim_workers h]
    exact (claim_cases h).1
  · rw [channel?_of_claim h, if_pos rfl]
  · rw [joined]
    split
    · rfl
    · rename_i found hFound
      have hKind := kind_of_claim h hFound
      exact hKind
  · rw [joined]
    split <;> exact List.mem_cons_self

/-- A claim lasts, whatever is done with the fabric. -/
theorem Holds.moved (h : fabric.Holds channel kind worker) {after : Fabric τ M}
    (hMoved : fabric.Moved after) : after.Holds channel kind worker := by
  obtain ⟨hWorker, found, hFound, hKind, hClaimant⟩ := h
  refine ⟨hMoved.workers ▸ hWorker, ?_⟩
  cases hMoved with
  | rest => exact ⟨found, hFound, hKind, hClaimant⟩
  | edit d w edit =>
      rw [channel?_editBox, hFound]
      split
      · exact ⟨_, rfl, hKind, hClaimant⟩
      · exact ⟨found, rfl, hKind, hClaimant⟩
  | @claim d other claimant _ hClaim =>
      rw [channel?_of_claim hClaim]
      split
      · rename_i hChannel
        rw [joined, ← hChannel, hFound]
        exact ⟨_, rfl, hKind, List.mem_cons_of_mem claimant hClaimant⟩
      · exact ⟨found, hFound, hKind, hClaimant⟩

/-- Whoever holds a channel cannot claim it again. -/
theorem Holds.claim (h : fabric.Holds channel kind worker) :
    fabric.claim channel kind worker = .error .alreadyClaimed := by
  obtain ⟨hWorker, found, hFound, hKind, hClaimant⟩ := h
  simp only [Fabric.claim, Nat.not_le.mpr hWorker, hFound, hKind, hClaimant, if_false, if_true,
    ne_eq, not_true_eq_false]

end

end Dataflow.Fabric
