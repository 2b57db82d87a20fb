import Dataflow.Proofs.Fabric.History

/-! Channels of a fabric are kept apart. What can be seen of one channel, the answers to all that is
done with it, is what would be seen if nothing else were done. The proof keeps two runs side by
side, one with all acts and one with the acts on a channel alone, which agree on that channel. -/
namespace Dataflow

variable {τ M : Type}

namespace Fabric

/-- All that acts on a channel depend on. -/
def view (channel : UInt32) (fabric : Fabric τ M) : Nat × Option (Channel τ M) :=
  (fabric.workers, fabric.channel? channel)

variable {channel : UInt32} {first second : Fabric τ M}

/-- The boxes of one channel are no part of another. -/
theorem view_editBox_of_ne {other : UInt32} (h : other ≠ channel) (fabric : Fabric τ M)
    (worker : Nat) (edit : List M → List M) :
    (fabric.editBox other worker edit).view channel = fabric.view channel := by
  rw [view, channel?_editBox, if_neg h]
  rfl

/-- Channels that look alike look alike after the same edit. -/
theorem view_editBox (h : first.view channel = second.view channel) (worker : Nat)
    (edit : List M → List M) :
    (first.editBox channel worker edit).view channel =
      (second.editBox channel worker edit).view channel := by
  obtain ⟨hWorkers, hChannel⟩ := Prod.mk.inj h
  rw [view, view, channel?_editBox, channel?_editBox, if_pos rfl, if_pos rfl, hChannel]
  exact congrArg (·, _) hWorkers

/-- Channels that look alike hold the same messages. -/
theorem box_of_view (h : first.view channel = second.view channel) (worker : Nat) :
    first.box channel worker = second.box channel worker := by
  rw [box, box, (Prod.mk.inj h).2]

variable [DecidableEq τ] {kind : τ} {worker : Nat}

/-- Claiming one channel leaves the others as they are. -/
theorem view_claim_of_ne {other : UInt32} (h : channel ≠ other) {fabric opened : Fabric τ M}
    (hClaim : fabric.claim other kind worker = .ok opened) :
    opened.view channel = fabric.view channel := by
  rw [view, channel?_of_claim hClaim, if_neg h, claim_workers hClaim]
  rfl

/-- Fabrics that agree on a channel decide alike on a claim of it, and go on agreeing. -/
theorem claims_of_view (h : first.view channel = second.view channel) (kind : τ) (worker : Nat) :
    (∃ error, first.claim channel kind worker = .error error ∧
      second.claim channel kind worker = .error error) ∨
    ∃ opened opened', first.claim channel kind worker = .ok opened ∧
      second.claim channel kind worker = .ok opened' ∧
        opened.view channel = opened'.view channel := by
  obtain ⟨hWorkers, hChannel⟩ := Prod.mk.inj h
  have hJoined : first.joined channel kind worker = second.joined channel kind worker := by
    rw [joined, joined, hChannel, hWorkers]
  have hVerdict : (first.claim channel kind worker).map (fun _ => ()) =
      (second.claim channel kind worker).map fun _ => () := by
    unfold claim
    rw [hWorkers, hChannel]
    cases second.channel? channel with
    | none => split <;> rfl
    | some found =>
        dsimp only
        repeat' split
        all_goals rfl
  rcases same_verdict hVerdict with hRefused | ⟨opened, opened', hFirst, hSecond⟩
  · exact Or.inl hRefused
  · refine Or.inr ⟨opened, opened', hFirst, hSecond, Prod.ext ?_ ?_⟩
    · exact (claim_workers hFirst).trans (hWorkers.trans (claim_workers hSecond).symm)
    · simp only [view, channel?_of_claim hFirst, channel?_of_claim hSecond, hJoined, if_true]

end Fabric

namespace Bench

/-- An act with its reply, and with the channel that it is about. An act by an unknown name is about
none. -/
structure Entry (τ M : Type) where
  channel : Option UInt32
  act : Act τ M
  reply : Reply M

def channelOf? (bench : Bench τ M) : Act τ M → Option UInt32
  | .claim _ channel _ _ => some channel
  | .push name _ _ | .pop name _ => (bench.handle? name).map (·.channel)

variable [DecidableEq τ]

def record : Bench τ M → List (Act τ M) → List (Entry τ M)
  | _, [] => []
  | bench, act :: acts =>
    let (reply, after) := bench.perform act
    { channel := bench.channelOf? act, act, reply } :: record after acts

/-- The benches cannot be told apart by acts on the channel. Only the second may lack handles of
other channels. -/
structure Agree (channel : UInt32) (first second : Bench τ M) : Prop where
  current : first.current = second.current
  fabrics : ∀ i : Nat, (first.fabrics[i]?).map (Fabric.view channel) =
    (second.fabrics[i]?).map (Fabric.view channel)
  handles : ∀ name handle, first.handle? name = some handle → handle.channel = channel →
    second.handle? name = some handle

omit [DecidableEq τ] in
/-- What is behind a handle of this name. -/
theorem reach_eq_ok {bench : Bench τ M} {name : String} {box : Nat} {handle : Handle τ}
    {fabric : Fabric τ M} (h : bench.reach name box = .ok (handle, fabric)) :
    bench.handle? name = some handle ∧ bench.fabrics[handle.fabric]? = some fabric := by
  unfold reach at h
  cases hHandle : bench.handle? name with
  | none =>
      rw [hHandle] at h
      cases h
  | some found =>
      simp only [hHandle] at h
      split at h
      · rename_i hFabric
        split at h
        · cases h
          exact ⟨rfl, hFabric⟩
        · cases h
      · cases h

namespace Agree

variable {channel : UInt32} {first second : Bench τ M}

omit [DecidableEq τ] in
theorem refl (channel : UInt32) (bench : Bench τ M) : Agree channel bench bench :=
  ⟨rfl, fun _ => rfl, fun _ _ hHandle _ => hHandle⟩

omit [DecidableEq τ] in
/-- Both benches have a fabric of this number, with one view of the channel, or neither has. -/
theorem fabric (h : Agree channel first second) (i : Nat) :
    (first.fabrics[i]? = none ∧ second.fabrics[i]? = none) ∨
      ∃ fabric fabric', first.fabrics[i]? = some fabric ∧ second.fabrics[i]? = some fabric' ∧
        fabric.view channel = fabric'.view channel := by
  have hFabrics := h.fabrics i
  cases hFirst : first.fabrics[i]? with
  | none =>
      rw [hFirst, Option.map_none, eq_comm, Option.map_eq_none_iff] at hFabrics
      exact Or.inl ⟨rfl, hFabrics⟩
  | some fabric =>
      rw [hFirst, Option.map_some, eq_comm, Option.map_eq_some_iff] at hFabrics
      obtain ⟨fabric', hSecond, hView⟩ := hFabrics
      exact Or.inr ⟨fabric, fabric', rfl, hSecond, hView.symm⟩

omit [DecidableEq τ] in
/-- A fabric of the first bench may change as long as the view of the channel stays. -/
theorem change_first (h : Agree channel first second) {i : Nat} {fabric : Fabric τ M}
    (hFabric : first.fabrics[i]? = some fabric) (change : Fabric τ M → Fabric τ M)
    (hChange : (change fabric).view channel = fabric.view channel) :
    Agree channel { first with fabrics := first.fabrics.modify i change } second where
  current := h.current
  handles := h.handles
  fabrics := by
    intro j
    rw [← h.fabrics j, Array.getElem?_modify]
    split
    · rename_i hSame
      rw [← hSame, hFabric, Option.map_some, Option.map_some, Option.map_some, hChange]
    · rfl

omit [DecidableEq τ] in
/-- A fabric of both benches may change in ways that look alike on the channel. -/
theorem change_both (h : Agree channel first second) (i : Nat)
    {change change' : Fabric τ M → Fabric τ M}
    (hChange : ∀ fabric fabric', fabric.view channel = fabric'.view channel →
      (change fabric).view channel = (change' fabric').view channel) :
    Agree channel { first with fabrics := first.fabrics.modify i change }
      { second with fabrics := second.fabrics.modify i change' } where
  current := h.current
  handles := h.handles
  fabrics := by
    intro j
    rw [Array.getElem?_modify, Array.getElem?_modify]
    split
    · rcases h.fabric j with ⟨hFirst, hSecond⟩ | ⟨fabric, fabric', hFirst, hSecond, hView⟩
      · rw [hFirst, hSecond]
        rfl
      · rw [hFirst, hSecond]
        exact congrArg some (hChange fabric fabric' hView)
    · exact h.fabrics j

omit [DecidableEq τ] in
/-- A handle of the channel leads to fabrics that agree on it. -/
theorem reach (h : Agree channel first second) {name : String} {handle : Handle τ}
    (hHandle : first.handle? name = some handle) (hChannel : handle.channel = channel)
    (box : Nat) :
    (∃ error, first.reach name box = .error error ∧ second.reach name box = .error error) ∨
      ∃ fabric fabric', first.reach name box = .ok (handle, fabric) ∧
        second.reach name box = .ok (handle, fabric') ∧
          fabric.view channel = fabric'.view channel := by
  simp only [Bench.reach, hHandle, h.handles name handle hHandle hChannel]
  rcases h.fabric handle.fabric with ⟨hFirst, hSecond⟩ | ⟨fabric, fabric', hFirst, hSecond, hView⟩
  · simp only [hFirst, hSecond]
    exact Or.inl ⟨_, rfl, rfl⟩
  · have hWorkers : fabric.workers = fabric'.workers := congrArg Prod.fst hView
    simp only [hFirst, hSecond, hWorkers]
    split
    · exact Or.inr ⟨fabric, fabric', rfl, rfl, hView⟩
    · exact Or.inl ⟨_, rfl, rfl⟩

omit [DecidableEq τ] in
/-- A handle may be added to the first bench unless it is of the channel. -/
theorem handle_first (h : Agree channel first second) (name : String) {handle : Handle τ}
    (hOther : handle.channel ≠ channel) :
    Agree channel { first with handles := (name, handle) :: first.handles } second where
  current := h.current
  fabrics := h.fabrics
  handles := by
    intro other found hFound hChannel
    refine h.handles other found ?_ hChannel
    rw [handle?, List.lookup_cons] at hFound
    split at hFound
    · rw [Option.some.inj hFound] at hOther
      exact absurd hChannel hOther
    · exact hFound

omit [DecidableEq τ] in
/-- A handle may be added to both benches. -/
theorem handle_both (h : Agree channel first second) (name : String) (handle : Handle τ) :
    Agree channel { first with handles := (name, handle) :: first.handles }
      { second with handles := (name, handle) :: second.handles } where
  current := h.current
  fabrics := h.fabrics
  handles := by
    intro other found hFound hChannel
    rw [handle?, List.lookup_cons] at hFound ⊢
    cases hName : other == name with
    | true =>
        rw [hName] at hFound
        exact hFound
    | false =>
        rw [hName] at hFound
        exact h.handles other found hFound hChannel

/-- A claim of another channel. -/
theorem claim_other (h : Agree channel first second) (name : String) {other : UInt32}
    (hOther : other ≠ channel) (kind : τ) (worker : Nat) :
    Agree channel (first.claim name other kind worker).2 second := by
  cases hCurrent : first.current with
  | none =>
      rw [claim_of_no_fabric (by rw [fabric?, hCurrent]; rfl)]
      exact h
  | some i =>
      cases hFabric : first.fabrics[i]? with
      | none =>
          rw [claim_of_no_fabric (by rw [fabric?, hCurrent]; exact hFabric)]
          exact h
      | some fabric =>
          rw [claim_of_fabric hCurrent hFabric]
          cases hClaim : fabric.claim other kind worker with
          | error error => exact h
          | ok opened =>
              have hView : opened.view channel = fabric.view channel :=
                Fabric.view_claim_of_ne (Ne.symm hOther) hClaim
              exact (h.change_first hFabric (fun _ => opened) hView).handle_first name hOther

/-- A claim of the channel itself. -/
theorem claim_own (h : Agree channel first second) (name : String) (kind : τ) (worker : Nat) :
    (first.claim name channel kind worker).1 = (second.claim name channel kind worker).1 ∧
      Agree channel (first.claim name channel kind worker).2
        (second.claim name channel kind worker).2 := by
  have hCurrent' := h.current
  cases hCurrent : first.current with
  | none =>
      rw [hCurrent] at hCurrent'
      rw [claim_of_no_fabric (by rw [fabric?, hCurrent]; rfl),
        claim_of_no_fabric (by rw [fabric?, ← hCurrent']; rfl)]
      exact ⟨rfl, h⟩
  | some i =>
      rw [hCurrent] at hCurrent'
      rcases h.fabric i with ⟨hFirst, hSecond⟩ | ⟨fabric, fabric', hFirst, hSecond, hView⟩
      · rw [claim_of_no_fabric (by rw [fabric?, hCurrent]; exact hFirst),
          claim_of_no_fabric (by rw [fabric?, ← hCurrent']; exact hSecond)]
        exact ⟨rfl, h⟩
      · rw [claim_of_fabric hCurrent hFirst, claim_of_fabric hCurrent'.symm hSecond]
        rcases Fabric.claims_of_view hView kind worker with
          ⟨error, hClaim, hClaim'⟩ | ⟨opened, opened', hClaim, hClaim', hOpened⟩
        · rw [hClaim, hClaim']
          exact ⟨rfl, h⟩
        · rw [hClaim, hClaim']
          have hWorkers : opened.workers = opened'.workers := congrArg Prod.fst hOpened
          exact ⟨congrArg Except.ok hWorkers,
            (h.change_both i fun _ _ _ => hOpened).handle_both name _⟩

/-- An act on another channel, or on none, leaves the benches in agreement. -/
theorem other (h : Agree channel first second) {act : Act τ M}
    (hAct : first.channelOf? act ≠ some channel) : Agree channel (first.perform act).2 second := by
  cases act with
  | claim name other kind worker =>
      exact h.claim_other name (fun hSame => hAct (congrArg some hSame)) kind worker
  | push name box message =>
      simp only [perform, Bench.push]
      cases hReach : first.reach name box with
      | error error => exact h
      | ok reached =>
          obtain ⟨handle, fabric⟩ := reached
          obtain ⟨hHandle, hFabric⟩ := reach_eq_ok hReach
          have hOther : handle.channel ≠ channel := fun hSame =>
            hAct (by rw [channelOf?, hHandle, Option.map_some, hSame])
          exact h.change_first hFabric _ (Fabric.view_editBox_of_ne hOther fabric box _)
  | pop name box =>
      simp only [perform, Bench.pop]
      cases hReach : first.reach name box with
      | error error => exact h
      | ok reached =>
          obtain ⟨handle, fabric⟩ := reached
          obtain ⟨hHandle, hFabric⟩ := reach_eq_ok hReach
          have hOther : handle.channel ≠ channel := fun hSame =>
            hAct (by rw [channelOf?, hHandle, Option.map_some, hSame])
          exact h.change_first hFabric _ (Fabric.view_editBox_of_ne hOther fabric box _)

/-- An act on the channel has the same reply on both benches, and they go on agreeing. -/
theorem own (h : Agree channel first second) {act : Act τ M}
    (hAct : first.channelOf? act = some channel) :
    second.channelOf? act = some channel ∧ (first.perform act).1 = (second.perform act).1 ∧
      Agree channel (first.perform act).2 (second.perform act).2 := by
  cases act with
  | claim name other kind worker =>
      cases hAct
      obtain ⟨hReply, hAfter⟩ := h.claim_own name kind worker
      exact ⟨rfl, congrArg Reply.claimed hReply, hAfter⟩
  | push name box message =>
      obtain ⟨handle, hHandle, rfl⟩ := Option.map_eq_some_iff.mp hAct
      have hOwn : second.channelOf? (.push name box message) = some handle.channel := by
        rw [channelOf?, h.handles name handle hHandle rfl, Option.map_some]
      refine ⟨hOwn, ?_⟩
      simp only [perform, Bench.push]
      rcases h.reach hHandle rfl box with
        ⟨error, hFirst, hSecond⟩ | ⟨fabric, fabric', hFirst, hSecond, -⟩
      · rw [hFirst, hSecond]
        exact ⟨rfl, h⟩
      · rw [hFirst, hSecond]
        exact ⟨rfl, h.change_both handle.fabric fun _ _ hView => Fabric.view_editBox hView box _⟩
  | pop name box =>
      obtain ⟨handle, hHandle, rfl⟩ := Option.map_eq_some_iff.mp hAct
      have hOwn : second.channelOf? (.pop name box) = some handle.channel := by
        rw [channelOf?, h.handles name handle hHandle rfl, Option.map_some]
      refine ⟨hOwn, ?_⟩
      simp only [perform, Bench.pop]
      rcases h.reach hHandle rfl box with
        ⟨error, hFirst, hSecond⟩ | ⟨fabric, fabric', hFirst, hSecond, hView⟩
      · rw [hFirst, hSecond]
        exact ⟨rfl, h⟩
      · rw [hFirst, hSecond]
        refine ⟨?_, h.change_both handle.fabric fun _ _ _ => Fabric.view_editBox hView box _⟩
        simp only [Fabric.take, Fabric.box_of_view hView]

end Agree

/-- Whatever is done on other channels, the acts on a channel have the replies that they have on
their own. -/
theorem channel_alone {channel : UInt32} {first second : Bench τ M}
    (h : Agree channel first second) (acts : List (Act τ M)) :
    let entries := (first.record acts).filter fun entry => entry.channel = some channel
    second.record (entries.map (·.act)) = entries := by
  induction acts generalizing first second with
  | nil => rfl
  | cons act acts ih =>
      simp only [record]
      by_cases hAct : first.channelOf? act = some channel
      · obtain ⟨hOwn, hReply, hAfter⟩ := h.own hAct
        rw [List.filter_cons_of_pos (by simpa using hAct), List.map_cons]
        simp only [record]
        rw [ih hAfter, hOwn, hAct, hReply]
      · rw [List.filter_cons_of_neg (by simpa using hAct)]
        exact ih (h.other hAct)

end Bench

end Dataflow
