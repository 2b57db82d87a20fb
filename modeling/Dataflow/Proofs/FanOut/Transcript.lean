import Dataflow.Proofs.FanOut.Bounds

/-! The traffic of a distributor in the order in which it goes out, over all destinations and with
the empty slots. Destinations that never fail are offered, by each move, exactly what the move is
meant to send. -/
namespace Dataflow

variable {ε σ T R : Type}

/-- `transcript state` is all that was offered before `state` was reached, with the destinations. -/
structure Medium.Transcribes {M : Type} (medium : Medium ε σ M)
    (transcript : σ → List (Nat × Option M)) : Prop where
  note : ∀ sink event state, transcript (medium.note sink event state) = transcript state
  offer : ∀ dst slot state,
    transcript (medium.offer dst slot state).state = transcript state ++ [(dst, slot)]

def Medium.Steady {M : Type} (medium : Medium ε σ M) : Prop :=
  ∀ dst slot state, (medium.offer dst slot state).fault = none

/-- Destinations under audit fail no more often than without it. -/
theorem Medium.Steady.audited {M : Type} {medium : Medium ε σ M} (h : medium.Steady) :
    medium.audited.Steady :=
  fun dst slot state => h dst slot state.1

/-- The audit keeps all that was offered. -/
theorem Medium.audited_transcribes {M : Type} (medium : Medium ε σ M) :
    medium.audited.Transcribes fun state => offersIn state.2 where
  note _ _ state := (offersIn_append state.2 _).trans (List.append_nil _)
  offer _ _ state := offersIn_append state.2 _

/-- What was offered to one destination: time and records of each message, without its stamps. -/
def parcelsTo (dst : Nat) (entries : List (Nat × Option (Message T R))) : List (T × List R) :=
  entries.filterMap fun entry =>
    if entry.1 = dst then entry.2.map fun message => (message.time, message.data) else none

theorem parcelsTo_append (dst : Nat) (first second : List (Nat × Option (Message T R))) :
    parcelsTo dst (first ++ second) = parcelsTo dst first ++ parcelsTo dst second :=
  List.filterMap_append

/-- From one state to the other only messages were offered, and to each destination just these. -/
def Shipped (transcript : σ → List (Nat × Option (Message T R))) (before after : σ)
    (parcels : Nat → List (T × List R)) : Prop :=
  ∃ entries, transcript after = transcript before ++ entries ∧
    (∀ entry ∈ entries, entry.2.isSome) ∧ ∀ dst, parcelsTo dst entries = parcels dst

variable {medium : Medium ε σ (Message T R)} {transcript : σ → List (Nat × Option (Message T R))}

namespace Shipped

/-- Where nothing is done nothing is shipped. -/
theorem rest (transcript : σ → List (Nat × Option (Message T R))) (state : σ) :
    Shipped transcript state state fun _ => [] :=
  ⟨[], (List.append_nil _).symm, fun _ h => absurd h List.not_mem_nil, fun _ => rfl⟩

/-- What is shipped in two parts is shipped. -/
theorem trans {first second third : σ} {some more : Nat → List (T × List R)}
    (h : Shipped transcript first second some) (h' : Shipped transcript second third more) :
    Shipped transcript first third fun dst => some dst ++ more dst := by
  obtain ⟨entries, hEntries, hMessages, hParcels⟩ := h
  obtain ⟨entries', hEntries', hMessages', hParcels'⟩ := h'
  refine ⟨entries ++ entries', ?_, ?_, fun dst => ?_⟩
  · rw [hEntries', hEntries, List.append_assoc]
  · intro entry hEntry
    rcases List.mem_append.mp hEntry with hFirst | hSecond
    · exact hMessages entry hFirst
    · exact hMessages' entry hSecond
  · rw [parcelsTo_append, hParcels, hParcels']

theorem congr {before after : σ} {parcels parcels' : Nat → List (T × List R)}
    (h : Shipped transcript before after parcels) (hSame : ∀ dst, parcels dst = parcels' dst) :
    Shipped transcript before after parcels' := by
  rw [← funext hSame]
  exact h

end Shipped

theorem Medium.Transcribes.noteTo (h : medium.Transcribes transcript) (sink : Option Sink)
    (event : Event) (state : σ) :
    transcript (medium.noteTo sink event state) = transcript state := by
  cases sink with
  | none => rfl
  | some sink => exact h.note sink event state

/-- A sender passes a message on with nothing but stamps added. -/
theorem Medium.Transcribes.push (h : medium.Transcribes transcript) (target : Nat)
    (message : Message T R) (sender : Sender) (state : σ) :
    Shipped transcript state
      (Sender.push medium target (some message) (sender, state)).state.2
      fun dst => if dst = target then [(message.time, message.data)] else [] := by
  refine ⟨[(target, some (sender.stamp message))], ?_, ?_, fun dst => ?_⟩
  · change transcript (medium.offer target _ _).state = _
    rw [h.offer, h.noteTo]
  · intro entry hEntry
    rw [List.mem_singleton.mp hEntry]
    rfl
  · by_cases hDst : dst = target
    · simp [parcelsTo, hDst, Sender.stamp]
    · simp [parcelsTo, hDst, Ne.symm hDst]

namespace FanOut

theorem pushAll_append [DecidableEq T] [Husk R] (medium : Medium ε σ (Message T R))
    (slots more : List (Option (Message T R))) (state : FanOut T R × σ) :
    pushAll medium (slots ++ more) state = pushAll medium more (pushAll medium slots state) :=
  List.foldl_append

/-- A flush goes well where no destination fails. -/
theorem flush_fault (hSteady : medium.Steady) (time : T) (dst : Nat) (fan : FanOut T R)
    (state : σ) : (flush medium time dst (fan, state)).fault = none := by
  rcases flush_cases medium time dst fan state with ⟨-, hFlush⟩ | ⟨sender, -, -, hFlush⟩
  · rw [hFlush]
  · rw [hFlush]
    exact hSteady _ _ _

/-- A flush sends what waits, if anything does. -/
theorem flush_shipped (h : medium.Transcribes transcript) (time : T) (target : Nat)
    (fan : FanOut T R) (state : σ) :
    Shipped transcript state (flush medium time target (fan, state)).state.2 fun dst =>
      if dst = target ∧ fan.buffer dst ≠ [] then [(time, fan.buffer dst)] else [] := by
  rcases flush_cases medium time target fan state with
    ⟨hEmpty, hFlush⟩ | ⟨sender, hWaiting, -, hFlush⟩
  · rw [hFlush]
    have hNothing (dst : Nat) : ¬(dst = target ∧ fan.buffer dst ≠ []) := by
      rintro ⟨rfl, hWaiting⟩
      exact hWaiting hEmpty
    simp only [hNothing, if_false]
    exact .rest transcript state
  · rw [hFlush]
    refine (h.push target { time, data := fan.buffer target } sender state).congr fun dst => ?_
    by_cases hDst : dst = target
    · subst hDst
      simp [hWaiting]
    · simp [hDst]

theorem flushEach_fault (hSteady : medium.Steady) (time : T) (targets : List Nat)
    (fan : FanOut T R) (state : σ) :
    (flushEach medium time targets (fan, state)).fault = none := by
  induction targets generalizing fan state with
  | nil => rfl
  | cons target rest ih =>
      unfold flushEach
      rw [Attempt.andThen_of_none (flush_fault hSteady time target fan state)]
      exact ih _ _

/-- Flushing each destination once sends what waits for it. -/
theorem flushEach_shipped (hSteady : medium.Steady) (h : medium.Transcribes transcript) (time : T)
    {targets : List Nat} (hTargets : targets.Nodup) (fan : FanOut T R) (state : σ) :
    Shipped transcript state (flushEach medium time targets (fan, state)).state.2 fun dst =>
      if dst ∈ targets ∧ fan.buffer dst ≠ [] then [(time, fan.buffer dst)] else [] := by
  induction targets generalizing fan state with
  | nil =>
      simp only [List.not_mem_nil, false_and, if_false]
      exact .rest transcript state
  | cons target rest ih =>
      obtain ⟨hFresh, hRest⟩ := List.nodup_cons.mp hTargets
      have hFlush := flush_shipped h time target fan state
      have hOthers := ih hRest (flush medium time target (fan, state)).state.1
        (flush medium time target (fan, state)).state.2
      simp only [flush_buffer] at hOthers
      unfold flushEach
      rw [Attempt.andThen_of_none (flush_fault hSteady time target fan state)]
      refine (hFlush.trans hOthers).congr fun dst => ?_
      -- The target comes first and does not come again.
      by_cases hDst : dst = target
      · subst hDst
        simp [hFresh]
      · simp [hDst]

/-- With the passing of an empty slot to each destination nothing else is offered. -/
theorem closeEach_transcript (hSteady : medium.Steady) (h : medium.Transcribes transcript)
    (targets : List Nat) (fan : FanOut T R) (state : σ) :
    (closeEach medium targets (fan, state)).fault = none ∧
      transcript (closeEach medium targets (fan, state)).state.2 =
        transcript state ++ targets.map fun dst => (dst, none) := by
  induction targets generalizing state with
  | nil => exact ⟨rfl, (List.append_nil _).symm⟩
  | cons target rest ih =>
      have hOffer : (⟨(medium.offer target none state).fault,
          (fan, (medium.offer target none state).state)⟩ : Attempt ε (FanOut T R × σ)).fault =
            none := hSteady target none state
      obtain ⟨hFault, hTranscript⟩ := ih (medium.offer target none state).state
      rw [closeEach_cons, Attempt.andThen_of_none hOffer]
      refine ⟨hFault, ?_⟩
      rw [hTranscript, h.offer, List.map_cons, List.append_assoc, List.singleton_append]

end FanOut

end Dataflow
