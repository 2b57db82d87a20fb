import Dataflow.Session.Step

/-! Edges under their names. A step concerns at most the edge that it names; all other edges keep
their place and their content. -/
namespace Dataflow.Session

variable {τ T R : Type}

theorem lookup_filter_of_ne {α : Type} {name other : String} (h : name ≠ other)
    (entries : List (String × α)) :
    (entries.filter (·.1 ≠ other)).lookup name = entries.lookup name := by
  induction entries with
  | nil => rfl
  | cons entry rest ih =>
      obtain ⟨key, value⟩ := entry
      by_cases hKey : key = other
      · have hName : (name == key) = false := beq_eq_false_iff_ne.mpr (hKey ▸ h)
        rw [List.filter_cons_of_neg (by simpa using hKey), ih, List.lookup_cons, hName]
      · rw [List.filter_cons_of_pos (by simpa using hKey), List.lookup_cons, List.lookup_cons, ih]

/-- An edge is found under the name under which it was put. -/
theorem edge?_setEdge_self (session : Session τ T R) (name : String) (edge : Edge τ T R) :
    (session.setEdge name edge).edge? name = some edge :=
  List.lookup_cons_self

/-- The edges of other names stay. -/
theorem edge?_setEdge_of_ne {name other : String} (h : name ≠ other) (session : Session τ T R)
    (edge : Edge τ T R) : (session.setEdge other edge).edge? name = session.edge? name := by
  have hName : (name == other) = false := beq_eq_false_iff_ne.mpr h
  rw [edge?, setEdge, List.lookup_cons, hName]
  exact lookup_filter_of_ne h session.edges

/-- Receiving from one edge leaves the others alone. -/
theorem edge?_receive_of_ne {α : Type} {name other : String} (h : name ≠ other)
    (session : Session τ T R)
    (use : Edge τ T R × World τ (Message T R) → α × Edge τ T R × World τ (Message T R)) :
    (session.receive other use).1.edge? name = session.edge? name := by
  unfold receive
  cases session.edge? other with
  | none => rfl
  | some edge => exact edge?_setEdge_of_ne h _ _

theorem host_receive {α : Type} (session : Session τ T R) (name : String)
    (use : Edge τ T R × World τ (Message T R) → α × Edge τ T R × World τ (Message T R)) :
    (session.receive name use).1.host = session.host := by
  unfold receive
  cases session.edge? name <;> rfl

variable [DecidableEq T] [Husk R]

theorem host_offer (session : Session τ T R) (name : String) (dst : Nat)
    (slot : Option (Message T R)) : (session.offer name dst slot).1.host = session.host := by
  unfold offer
  cases session.edge? name <;> rfl

/-- Offering to one edge leaves the others alone. -/
theorem edge?_offer_of_ne {name other : String} (h : name ≠ other) (session : Session τ T R)
    (dst : Nat) (slot : Option (Message T R)) :
    (session.offer other dst slot).1.edge? name = session.edge? name := by
  unfold offer
  cases session.edge? other with
  | none => rfl
  | some edge => exact edge?_setEdge_of_ne h _ _

variable [DecidableEq τ]

/-- A batch is pushed as a message, and its buffer comes back empty unless the push fails. -/
theorem perform_pushBatch (session : Session τ T R) (name : String) (dst : Nat) (time : T)
    (data : List R) :
    session.perform (.pushBatch name dst time data) =
      let offered := session.offer name dst (some { time, data })
      match offered.2.1 with
      | none => (offered.1, .buffer [], none)
      | some error => (offered.1, .nothing, some error) := by
  cases hError : (session.offer name dst (some { time, data })).2.1 with
  | none => simp only [perform, Message.pushAt_fst, Message.pushAt_snd, hError]
  | some error => simp only [perform, Message.pushAt_fst, hError]

/-- A step leaves every edge alone that it does not name. -/
theorem edge?_perform_of_ne {step : Step τ T R} {name : String} (h : step.name? ≠ some name)
    (session : Session τ T R) : (session.perform step).1.edge? name = session.edge? name := by
  have hNe {other : String} (hOther : step.name? = some other) : name ≠ other := by
    intro hSame
    rw [hSame] at h
    exact h hOther
  cases step with
  | setLevel level => rfl
  | connect other connection =>
      simp only [perform]
      split
      · exact edge?_setEdge_of_ne (hNe rfl) _ _
      · rfl
  | push other dst message => exact edge?_offer_of_ne (hNe rfl) session dst _
  | send other dst message => exact edge?_offer_of_ne (hNe rfl) session dst _
  | done other dst => exact edge?_offer_of_ne (hNe rfl) session dst _
  | pushBatch other dst time data =>
      rw [← edge?_offer_of_ne (hNe rfl) session dst (some { time, data })]
      simp only [perform_pushBatch]
      split <;> rfl
  | pull other => exact edge?_receive_of_ne (hNe rfl) session Edge.pull
  | recv other => exact edge?_receive_of_ne (hNe rfl) session Edge.pull
  | drain other => exact edge?_receive_of_ne (hNe rfl) session Edge.drain
  | info other => rfl
  | buffered other dst =>
      simp only [perform]
      split
      · rfl
      · split <;> rfl
  | drop other => exact lookup_filter_of_ne (hNe rfl) session.edges

/-- No step changes where channels come from. -/
theorem host_perform (session : Session τ T R) (step : Step τ T R) :
    (session.perform step).1.host = session.host := by
  cases step with
  | setLevel level => rfl
  | connect name connection =>
      simp only [perform]
      split <;> rfl
  | push name dst message => exact session.host_offer name dst _
  | send name dst message => exact session.host_offer name dst _
  | done name dst => exact session.host_offer name dst _
  | pushBatch name dst time data =>
      rw [← session.host_offer name dst (some { time, data })]
      simp only [perform_pushBatch]
      split <;> rfl
  | pull name => exact session.host_receive name Edge.pull
  | recv name => exact session.host_receive name Edge.pull
  | drain name => exact session.host_receive name Edge.drain
  | info name => rfl
  | buffered name dst =>
      simp only [perform]
      split
      · rfl
      · split <;> rfl
  | drop name => rfl

def after (session : Session τ T R) (steps : List (Step τ T R)) : Session τ T R :=
  steps.foldl (fun session step => (session.step step).1) session

end Dataflow.Session
