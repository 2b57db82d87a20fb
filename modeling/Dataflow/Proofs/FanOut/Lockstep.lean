import Dataflow.Proofs.FanOut.Morphism

/-! Media in lockstep. Where two media answer alike from states of a kind that they then keep to,
senders and distributors cannot tell which of the two they stand in. Both media are seen as the two
halves of one medium, whose states are the pairs of related states. -/
namespace Dataflow

variable {ε σ σ' T R M : Type}

/-- The same came out, in states that are related. -/
structure Offered.Agree (rel : σ → σ' → Prop) (first : Offered ε σ M) (second : Offered ε σ' M) :
    Prop where
  fault : first.fault = second.fault
  slot : first.slot = second.slot
  state : rel first.state second.state

/-- The same object beside states that are related. -/
def Beside {H : Type} (rel : σ → σ' → Prop) (first : H × σ) (second : H × σ') : Prop :=
  first.1 = second.1 ∧ rel first.2 second.2

/-- What is done to both media leads from related states to related states, and destinations answer
alike in them. -/
structure Medium.Lockstep (rel : σ → σ' → Prop) (medium : Medium ε σ M) (medium' : Medium ε σ' M) :
    Prop where
  note : ∀ sink event state state', rel state state' →
    rel (medium.note sink event state) (medium'.note sink event state')
  offer : ∀ dst slot state state', rel state state' →
    Offered.Agree rel (medium.offer dst slot state) (medium'.offer dst slot state')

namespace Medium.Lockstep

variable {rel : σ → σ' → Prop} {medium : Medium ε σ (Message T R)}
  {medium' : Medium ε σ' (Message T R)}

/-- The two media as one. -/
def paired (h : medium.Lockstep rel medium') :
    Medium ε { pair : σ × σ' // rel pair.1 pair.2 } (Message T R) where
  note sink event pair :=
    ⟨(medium.note sink event pair.1.1, medium'.note sink event pair.1.2),
      h.note sink event pair.1.1 pair.1.2 pair.2⟩
  offer dst slot pair :=
    let offered := medium.offer dst slot pair.1.1
    { fault := offered.fault
      slot := offered.slot
      state := ⟨(offered.state, (medium'.offer dst slot pair.1.2).state),
        (h.offer dst slot pair.1.1 pair.1.2 pair.2).state⟩ }

/-- The first medium is one half of the pair. -/
theorem first_half (h : medium.Lockstep rel medium') :
    h.paired.Morphism id id (fun pair => pair.1.1) medium where
  note sink event pair := by
    cases sink <;> rfl
  offer dst slot pair := by
    rw [Offered.map_id]
    rfl

/-- The second medium is the other. -/
theorem second_half (h : medium.Lockstep rel medium') :
    h.paired.Morphism id id (fun pair => pair.1.2) medium' where
  note sink event pair := by
    cases sink <;> rfl
  offer dst slot pair := by
    obtain ⟨hFault, hSlot, -⟩ := h.offer dst slot pair.1.1 pair.1.2 pair.2
    simp only [paired, Offered.map_id, hFault, hSlot]

/-- Both halves of what came out of the paired medium. -/
theorem agree_of_halves {H : Type} {offered : Offered ε (H × { pair : σ × σ' // rel pair.1 pair.2 })
      (Message T R)}
    {first : Offered ε (H × σ) (Message T R)} {second : Offered ε (H × σ') (Message T R)}
    (hFirst : first = offered.map id (Prod.map id fun pair => pair.1.1))
    (hSecond : second = offered.map id (Prod.map id fun pair => pair.1.2)) :
    Offered.Agree (Beside rel) first second := by
  rw [Offered.map_id] at hFirst hSecond
  subst hFirst hSecond
  exact ⟨rfl, rfl, rfl, offered.state.2.2⟩

/-- A sender cannot tell the two media apart. -/
theorem send (h : medium.Lockstep rel medium') (dst : Nat) (slot : Option (Message T R))
    (sender : Sender) {state : σ} {state' : σ'} (hState : rel state state') :
    Offered.Agree (Beside rel) (Sender.push medium dst slot (sender, state))
      (Sender.push medium' dst slot (sender, state')) :=
  agree_of_halves (Sender.push_redirect h.first_half dst slot sender ⟨(state, state'), hState⟩)
    (Sender.push_redirect h.second_half dst slot sender ⟨(state, state'), hState⟩)

/-- Neither can a distributor. -/
theorem distribute [DecidableEq T] [Husk R] (h : medium.Lockstep rel medium')
    (slot : Option (Message T R)) (fan : FanOut T R) {state : σ} {state' : σ'}
    (hState : rel state state') :
    Offered.Agree (Beside rel) (FanOut.push medium slot (fan, state))
      (FanOut.push medium' slot (fan, state')) := by
  have hFirst := FanOut.push_through h.first_half slot (fan, ⟨(state, state'), hState⟩)
  have hSecond := FanOut.push_through h.second_half slot (fan, ⟨(state, state'), hState⟩)
  rw [FanOut.through_id] at hFirst hSecond
  exact agree_of_halves hFirst hSecond

end Medium.Lockstep

end Dataflow
