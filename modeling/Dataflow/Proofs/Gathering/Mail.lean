import Dataflow.Proofs.Gathering.Plan
import Dataflow.Proofs.Traffic.Invariant
import Mathlib.Data.List.Basic

/-! The mailboxes of a gathering. No turn changes what lies in a mailbox and what is under way to it
taken together. When all have come to the meeting nothing is under way any more, so everyone takes
out exactly what is sent to it in the whole execution. -/
namespace Dataflow.Gathering

variable {τ M α : Type} {plan : Plan τ M α} {stage : Nat → Stage M} {worker : Nat}

/-- The mailboxes are as the stages of the workers say. What lies in a mailbox and what is under way
to it are together all messages to its worker, and what its worker has taken out is all of them. -/
structure Mail (plan : Plan τ M α) (stage : Nat → Stage M) (fabric : Fabric τ M) : Prop where
  workers : fabric.workers = plan.workers
  regular : fabric.Regular
  claimants : fabric.ClaimedBy plan.channel plan.kind fun worker => (stage worker).entered = true
  box : ∀ target < plan.workers, (stage target).messages? = none →
    (fabric.box plan.channel target ++ plan.underWay stage target).Perm (plan.total target)
  messages : ∀ target < plan.workers, ∀ messages, (stage target).messages? = some messages →
    messages.Perm (plan.total target)

/-- What a worker sends in its turn is no longer under way. -/
theorem Plan.underWay_update {there : Stage M} {target : Nat} {sent : List M}
    (hWorker : worker < plan.workers)
    (hPending : plan.pending worker target (stage worker) =
      sent ++ plan.pending worker target there) :
    (plan.underWay stage target).Perm
      (sent ++ plan.underWay (Function.update stage worker there) target) := by
  have hList (workers : List Nat) (hNodup : workers.Nodup) (hMember : worker ∈ workers) :
      (workers.flatMap fun other => plan.pending other target (stage other)).Perm
        (sent ++ workers.flatMap fun other =>
          plan.pending other target (Function.update stage worker there other)) := by
    induction workers with
    | nil => cases hMember
    | cons first workers ih =>
        obtain ⟨hFresh, hRest⟩ := List.nodup_cons.mp hNodup
        rw [List.flatMap_cons, List.flatMap_cons]
        by_cases hFirst : first = worker
        · have hOthers : (workers.flatMap fun other => plan.pending other target (stage other)) =
              workers.flatMap fun other =>
                plan.pending other target (Function.update stage worker there other) := by
            refine List.flatMap_congr fun other hOther => ?_
            have hNe : other ≠ worker := fun hSame => hFresh (hFirst ▸ hSame ▸ hOther)
            rw [Function.update_of_ne hNe]
          rw [hFirst, Function.update_self, hPending, hOthers, List.append_assoc]
        · rw [Function.update_of_ne hFirst]
          have hMember' : worker ∈ workers :=
            (List.mem_cons.mp hMember).resolve_left (Ne.symm hFirst)
          refine ((ih hRest hMember').append_left _).trans ?_
          rw [← List.append_assoc, ← List.append_assoc]
          exact List.perm_append_comm.append_right _
  exact hList _ List.nodup_range (List.mem_range.mpr hWorker)

/-- Nothing is under way once everybody has come to the meeting. -/
theorem Plan.underWay_of_met (h : ∀ other < plan.workers, (stage other).met = true)
    (target : Nat) : plan.underWay stage target = [] := by
  refine List.flatMap_eq_nil_iff.mpr fun other hOther => ?_
  have hMet := h other (List.mem_range.mp hOther)
  cases hStage : stage other with
  | opening rest => rw [hStage] at hMet; cases hMet
  | sending rest => rw [hStage] at hMet; cases hMet
  | meeting => rfl
  | collecting => rfl
  | closing messages rest => rfl
  | done messages => rfl

namespace Mail

variable {fabric fabric' : Fabric τ M} {here there : Stage M}

theorem start (plan : Plan τ M α) (hStage : ∀ worker,
    stage worker = .opening (plan.part worker).opening) :
    Mail plan stage ({ workers := plan.workers } : Fabric τ M) where
  workers := rfl
  regular channel found hFound := by cases hFound
  claimants := by
    refine ⟨fun found hFound => ?_, fun worker => ?_⟩
    · cases hFound
    rw [hStage]
    constructor
    · rintro ⟨found, hFound, -⟩
      cases hFound
    · intro hEntered
      cases hEntered
  box target _ _ := by
    refine .of_eq (List.flatMap_congr fun other _ => ?_)
    rw [hStage]
    rfl
  messages target _ messages hMessages := by
    rw [hStage] at hMessages
    cases hMessages

/-- A turn in which the worker takes nothing out of its mailbox, but may send something. -/
theorem send [DecidableEq τ] (h : Mail plan stage fabric) (hWorker : worker < plan.workers)
    (hStage : stage worker = here) (hMoved : fabric.Moved fabric')
    (hClaimants : fabric'.ClaimedBy plan.channel plan.kind fun other =>
      (Function.update stage worker there other).entered = true)
    (hMessages : there.messages? = here.messages?) (sent : Nat → List M)
    (hPending : ∀ target, plan.pending worker target here =
      sent target ++ plan.pending worker target there)
    (hBox : ∀ target < plan.workers,
      fabric'.box plan.channel target = fabric.box plan.channel target ++ sent target) :
    Mail plan (Function.update stage worker there) fabric' := by
  subst hStage
  have hSame (target : Nat) :
      (Function.update stage worker there target).messages? = (stage target).messages? :=
    (Function.forall_update_iff stage fun other here =>
      here.messages? = (stage other).messages?).mpr ⟨hMessages, fun _ _ => rfl⟩ target
  refine ⟨hMoved.workers.trans h.workers, hMoved.regular h.regular, hClaimants, ?_, ?_⟩
  · intro target hTarget hNone
    rw [hSame] at hNone
    rw [hBox target hTarget, List.append_assoc]
    exact ((Plan.underWay_update hWorker (hPending target)).symm.append_left _).trans
      (h.box target hTarget hNone)
  · intro target hTarget messages hSome
    rw [hSame] at hSome
    exact h.messages target hTarget messages hSome

theorem entered_update (hStage : stage worker = here) (hEntered : there.entered = here.entered)
    (other : Nat) :
    (stage other).entered = true ↔ (Function.update stage worker there other).entered = true := by
  by_cases hOther : other = worker
  · rw [hOther, Function.update_self, hEntered, hStage]
  · rw [Function.update_of_ne hOther]

/-- No effect of a worker is a claim. -/
theorem claimedBy_perform {world : World τ M} {channel : UInt32} {kind : τ} {member : Nat → Prop}
    (h : world.fabric.ClaimedBy channel kind member) (worker : Nat) (effect : Effect M) :
    (world.perform worker effect).fabric.ClaimedBy channel kind member := by
  cases effect with
  | log level channel text => exact h
  | note sink event => exact h
  | deliver channel target message => exact h.editBox channel target (· ++ [message])

/-- A turn in which the worker performs an effect. The mailboxes exist if it delivers anything. -/
theorem perform [DecidableEq τ] {world : World τ M} (h : Mail plan stage world.fabric)
    (hWorker : worker < plan.workers) (hStage : stage worker = here) (effect : Effect M)
    (hEntered : there.entered = here.entered) (hMessages : there.messages? = here.messages?)
    (hPending : ∀ target, plan.pending worker target here =
      deliveries plan.channel target [effect] ++ plan.pending worker target there)
    (hLoud : ∀ target, deliveries plan.channel target [effect] ≠ [] → here.entered = true) :
    Mail plan (Function.update stage worker there) (world.perform worker effect).fabric := by
  refine h.send hWorker hStage (world.perform_moved worker effect)
    ((claimedBy_perform h.claimants worker effect).congr (entered_update hStage hEntered)) hMessages
    _ hPending fun target hTarget => World.box_perform (fun hDelivers => ?_) worker
  have hEntered : (stage worker).entered = true := by
    rw [hStage]
    exact hLoud target hDelivers
  exact ((h.claimants.claimed worker).mpr hEntered).box?_isSome h.regular (h.workers ▸ hTarget)

/-- A turn in which the worker performs an effect that delivers nothing. -/
theorem performSilently [DecidableEq τ] {world : World τ M} (h : Mail plan stage world.fabric)
    (hWorker : worker < plan.workers) (hStage : stage worker = here) {effect : Effect M}
    (hSilent : ∀ target, deliveries plan.channel target [effect] = [])
    (hEntered : there.entered = here.entered) (hMessages : there.messages? = here.messages?)
    (hPending : ∀ target, plan.pending worker target here = plan.pending worker target there) :
    Mail plan (Function.update stage worker there) (world.perform worker effect).fabric := by
  refine h.perform hWorker hStage effect hEntered hMessages (fun target => ?_)
    fun target hLoud => ?_
  · rw [hSilent]
    exact hPending target
  · exact absurd (hSilent target) hLoud

/-- A turn in which the worker does nothing to the fabric. -/
theorem rest [DecidableEq τ] (h : Mail plan stage fabric) (hWorker : worker < plan.workers)
    (hStage : stage worker = here) (hEntered : there.entered = here.entered)
    (hMessages : there.messages? = here.messages?)
    (hPending : ∀ target, plan.pending worker target here = plan.pending worker target there) :
    Mail plan (Function.update stage worker there) fabric :=
  h.send hWorker hStage .rest (h.claimants.congr (entered_update hStage hEntered)) hMessages
    (fun _ => []) hPending fun _ _ => (List.append_nil _).symm

/-- A worker that is about to claim the channel may do so. -/
theorem granted [DecidableEq τ] (h : Mail plan stage fabric) (hWorker : worker < plan.workers)
    (hStage : stage worker = .opening []) : ∃ fabric',
    fabric.claim plan.channel plan.kind worker = .ok fabric' ∧
      fabric'.workers = plan.workers := by
  have hNew : ¬(stage worker).entered = true := by
    rw [hStage]
    exact Bool.false_ne_true
  obtain ⟨fabric', hClaim⟩ := h.claimants.granted (h.workers ▸ hWorker) hNew
  exact ⟨fabric', hClaim, (Fabric.claim_workers hClaim).trans h.workers⟩

/-- A turn in which the worker claims the channel. -/
theorem claim [DecidableEq τ] (h : Mail plan stage fabric) (hWorker : worker < plan.workers)
    (hStage : stage worker = .opening [])
    (hClaim : fabric.claim plan.channel plan.kind worker = .ok fabric') :
    Mail plan (Function.update stage worker (.sending (plan.part worker).sending)) fabric' := by
  refine h.send hWorker hStage (.claim hClaim) ?_ rfl (fun _ => []) (fun _ => rfl)
    fun target _ => ?_
  · refine (h.claimants.claim hClaim).congr fun other => ?_
    by_cases hOther : other = worker
    · rw [hOther, Function.update_self]
      exact ⟨fun _ => rfl, fun _ => Or.inl rfl⟩
    · rw [Function.update_of_ne hOther]
      exact ⟨fun hEither => hEither.resolve_left hOther, Or.inr⟩
  · rw [List.append_nil]
    exact Fabric.box_claim hClaim plan.channel target

/-- A turn in which the worker empties its mailbox, after the meeting. -/
theorem collect (h : Mail plan stage fabric) (hWorker : worker < plan.workers)
    (hStage : stage worker = .collecting)
    (hMet : ∀ other < plan.workers, (stage other).met = true) (rest : List (Effect M)) :
    Mail plan (Function.update stage worker (.closing (fabric.box plan.channel worker) rest))
      (fabric.drain plan.channel worker).2 := by
  let there : Stage M := .closing (fabric.box plan.channel worker) rest
  have hNothing := Plan.underWay_of_met hMet
  have hMet' : ∀ other < plan.workers, (Function.update stage worker there other).met = true :=
    (Function.forall_update_iff stage fun other here => other < plan.workers → here.met = true).mpr
      ⟨fun _ => rfl, fun other _ => hMet other⟩
  change Mail plan (Function.update stage worker there) (fabric.editBox plan.channel worker _)
  refine ⟨h.workers, h.regular.editBox _ _ _, ?_, ?_, ?_⟩
  · exact (h.claimants.editBox _ _ _).congr (entered_update hStage rfl)
  · simp only [Plan.underWay_of_met hMet', List.append_nil]
    refine (Function.forall_update_iff stage fun target here => target < plan.workers →
      here.messages? = none → List.Perm _ (plan.total target)).mpr ⟨?_, fun target hOther => ?_⟩
    · intro _ hNone
      cases hNone
    · intro hTarget hNone
      have hBox := h.box target hTarget hNone
      rw [hNothing, List.append_nil] at hBox
      rw [Fabric.box_editBox_of_ne fun hBoth => hOther hBoth.2.symm]
      exact hBox
  · refine (Function.forall_update_iff stage fun target here => target < plan.workers →
      ∀ messages, here.messages? = some messages → messages.Perm (plan.total target)).mpr
      ⟨fun _ messages hSome => ?_, fun target _ => h.messages target⟩
    have hBox := h.box worker hWorker (by rw [hStage]; rfl)
    rw [hNothing, List.append_nil] at hBox
    rw [← Option.some.inj hSome]
    exact hBox

/-- Every turn keeps the mailboxes in order. -/
theorem advance [DecidableEq τ] {world world' : World τ M} (h : Mail plan stage world.fabric)
    (hWorker : worker < plan.workers) (hStage : stage worker = here)
    (hSilent : here.Silent plan.channel)
    (hMet : here = .collecting → ∀ other < plan.workers, (stage other).met = true)
    (hAdvance : plan.Advance worker world here there world') :
    Mail plan (Function.update stage worker there) world'.fabric := by
  cases hAdvance with
  | opening effect rest =>
      have hNothing (target : Nat) := (silent_cons hSilent target).1
      exact h.performSilently hWorker hStage hNothing rfl rfl fun _ => rfl
  | claim hClaim => exact h.claim hWorker hStage hClaim
  | sending effect rest =>
      exact h.perform hWorker hStage effect rfl rfl
        (fun target => deliveries_append plan.channel target [effect] rest) fun _ _ => rfl
  | meet => exact h.rest hWorker hStage rfl rfl fun _ => rfl
  | leave => exact h.rest hWorker hStage rfl rfl fun _ => rfl
  | collect => exact h.collect hWorker hStage (hMet rfl) _
  | closing messages effect rest =>
      have hNothing (target : Nat) := (silent_cons hSilent target).1
      exact h.performSilently hWorker hStage hNothing rfl rfl fun _ => rfl
  | finish messages => exact h.rest hWorker hStage rfl rfl fun _ => rfl

end Mail

end Dataflow.Gathering
