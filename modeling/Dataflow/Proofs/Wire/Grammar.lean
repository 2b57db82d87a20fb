import Dataflow.Wire.Reader

/-! What readers accept and refuse. `Reader.Reads` relates a reader to the wire forms of its values:
the reader accepts exactly these, whatever stands behind them, and runs out of bytes exactly where
a wire form has been cut. The relation is closed under reading one thing after another. -/
namespace Dataflow.Wire

namespace Reader

variable {α β : Type}

theorem andThen_of_ok {first : Reader α} {buffer rest : Bytes} {value : α}
    (h : first buffer = (.ok value, rest)) (next : α → Reader β) :
    first.andThen next buffer = next value rest := by
  simp only [andThen, h]

theorem andThen_of_error {first : Reader α} {buffer rest : Bytes} {error : ReadError}
    (h : first buffer = (.error error, rest)) (next : α → Reader β) :
    first.andThen next buffer = (.error error, rest) := by
  simp only [andThen, h]

/-- `Written value block` says that `block` is the wire form of `value`. Nothing is said of the
bytes that a failing reader leaves unread. A truth value is refused only if `CanRefuse` holds, and
leftover bytes are no concern of a reader. -/
structure Reads (reader : Reader α) (Written : α → Bytes → Prop) (CanRefuse : Prop) : Prop where
  inhabited : ∃ value block, Written value block
  accepts : ∀ buffer value rest, reader buffer = (.ok value, rest) ↔
    ∃ block, Written value block ∧ buffer = block ++ rest
  truncated : ∀ buffer, (reader buffer).1 = .error .truncated ↔
    ∃ value missing, missing ≠ [] ∧ Written value (buffer ++ missing)
  refuses : ∀ buffer, (reader buffer).1 = .error .badBool → CanRefuse
  not_trailing : ∀ buffer, (reader buffer).1 ≠ .error .trailing

namespace Reads

variable {reader : Reader α} {Written : α → Bytes → Prop} {CanRefuse : Prop}

/-- A wire form is read off the front of any buffer. -/
theorem accepts_append (h : reader.Reads Written CanRefuse) {value : α} {block : Bytes}
    (hWritten : Written value block) (rest : Bytes) :
    reader (block ++ rest) = (.ok value, rest) :=
  (h.accepts _ _ _).mpr ⟨block, hWritten, rfl⟩

/-- The wire forms may be described in another way. -/
theorem congr {Written' : α → Bytes → Prop} {CanRefuse' : Prop}
    (h : reader.Reads Written CanRefuse) (hWritten : ∀ value block, Written value block ↔
      Written' value block) (hRefuse : CanRefuse → CanRefuse') :
    reader.Reads Written' CanRefuse' := by
  have hEq : Written = Written' := by
    funext value block
    exact propext (hWritten value block)
  subst hEq
  exact { h with refuses := fun buffer hBad => hRefuse (h.refuses buffer hBad) }

/-- What a reader does may depend on the bytes ahead, as long as it accepts the same wire forms
whatever they are. -/
theorem ofAhead {ι : Type} (choice : ι → Reader α) (look : Bytes → ι)
    (h : ∀ i, (choice i).Reads Written CanRefuse) : Reads (fun bytes => choice (look bytes) bytes) Written CanRefuse where
  inhabited := (h (look [])).inhabited
  accepts buffer := (h (look buffer)).accepts buffer
  truncated buffer := (h (look buffer)).truncated buffer
  refuses buffer := (h (look buffer)).refuses buffer
  not_trailing buffer := (h (look buffer)).not_trailing buffer

theorem succeed (value : α) :
    (Reader.succeed value).Reads (fun v block => v = value ∧ block = []) False where
  inhabited := ⟨value, [], rfl, rfl⟩
  accepts buffer v rest := by
    simp only [Reader.succeed, Prod.mk.injEq, Except.ok.injEq]
    constructor
    · intro hWritten
      obtain ⟨rfl, rfl⟩ := hWritten
      exact ⟨[], ⟨rfl, rfl⟩, rfl⟩
    · intro hWritten
      obtain ⟨block, ⟨rfl, rfl⟩, rfl⟩ := hWritten
      exact ⟨rfl, rfl⟩
  truncated buffer := by
    simp only [Reader.succeed, reduceCtorEq, false_iff]
    intro hCut
    obtain ⟨v, missing, hMissing, -, hNil⟩ := hCut
    exact hMissing (List.append_eq_nil_iff.mp hNil).2
  refuses buffer h := by simp [Reader.succeed] at h
  not_trailing buffer := by simp [Reader.succeed]

/-- Blocks of a length are read as they are. -/
theorem raw (n : Nat) :
    (Reader.raw n).Reads (fun v block => v.length = n ∧ block = v) False where
  inhabited := ⟨List.replicate n 0, _, List.length_replicate, rfl⟩
  accepts buffer v rest := by
    constructor
    · intro h
      by_cases hShort : buffer.length < n
      · simp [raw_of_lt hShort] at h
      · rw [raw_of_le (Nat.le_of_not_lt hShort)] at h
        simp only [Prod.mk.injEq, Except.ok.injEq] at h
        obtain ⟨rfl, rfl⟩ := h
        refine ⟨_, ⟨?_, rfl⟩, (List.take_append_drop n buffer).symm⟩
        exact List.length_take_of_le (Nat.le_of_not_lt hShort)
    · intro hWritten
      obtain ⟨block, ⟨rfl, rfl⟩, rfl⟩ := hWritten
      exact raw_append block rest
  truncated buffer := by
    constructor
    · intro h
      by_cases hShort : buffer.length < n
      · refine ⟨_, List.replicate (n - buffer.length) 0, ?_, ?_, rfl⟩
        · intro hNil
          have hLength := congrArg List.length hNil
          rw [List.length_replicate, List.length_nil] at hLength
          omega
        · rw [List.length_append, List.length_replicate]
          omega
      · simp [raw_of_le (Nat.le_of_not_lt hShort)] at h
    · intro hCut
      obtain ⟨v, missing, hMissing, hLength, rfl⟩ := hCut
      have hPositive := List.length_pos_iff.mpr hMissing
      rw [List.length_append] at hLength
      rw [raw_of_lt (by omega)]
  refuses buffer h := by
    by_cases hShort : buffer.length < n
    · simp [raw_of_lt hShort] at h
    · simp [raw_of_le (Nat.le_of_not_lt hShort)] at h
  not_trailing buffer := by
    by_cases hShort : buffer.length < n
    · simp [raw_of_lt hShort]
    · simp [raw_of_le (Nat.le_of_not_lt hShort)]

/-- Wire forms of successive readers follow one another. A buffer in which the second reader runs
out is completed by what that reader misses, and one in which the first does is completed by what
the first misses and any wire form for the second. -/
theorem andThen {first : Reader α} {next : α → Reader β} {Left : α → Bytes → Prop}
    {Right : α → β → Bytes → Prop} {RefuseLeft RefuseRight : Prop}
    (hFirst : first.Reads Left RefuseLeft)
    (hNext : ∀ a block, Left a block → (next a).Reads (Right a) RefuseRight) :
    (first.andThen next).Reads
      (fun b block => ∃ a left right, Left a left ∧ Right a b right ∧ block = left ++ right)
      (RefuseLeft ∨ RefuseRight) where
  inhabited := by
    obtain ⟨a, left, hLeft⟩ := hFirst.inhabited
    obtain ⟨b, right, hRight⟩ := (hNext a left hLeft).inhabited
    exact ⟨b, left ++ right, a, left, right, hLeft, hRight, rfl⟩
  accepts buffer b rest := by
    constructor
    · intro h
      cases hOutcome : first buffer with
      | mk outcome middle =>
          cases outcome with
          | error error => simp [andThen_of_error hOutcome] at h
          | ok a =>
              obtain ⟨left, hLeft, rfl⟩ := (hFirst.accepts _ _ _).mp hOutcome
              rw [andThen_of_ok hOutcome] at h
              obtain ⟨right, hRight, rfl⟩ := ((hNext a left hLeft).accepts _ _ _).mp h
              refine ⟨left ++ right, ⟨a, left, right, hLeft, hRight, rfl⟩, ?_⟩
              rw [List.append_assoc]
    · intro hWritten
      obtain ⟨block, ⟨a, left, right, hLeft, hRight, rfl⟩, rfl⟩ := hWritten
      rw [List.append_assoc, andThen_of_ok (hFirst.accepts_append hLeft _)]
      exact (hNext a left hLeft).accepts_append hRight rest
  truncated buffer := by
    constructor
    · intro h
      cases hOutcome : first buffer with
      | mk outcome middle =>
          cases outcome with
          | error error =>
              rw [andThen_of_error hOutcome] at h
              obtain rfl := Except.error.inj h
              obtain ⟨a, missing, hMissing, hLeft⟩ :=
                (hFirst.truncated buffer).mp (by rw [hOutcome])
              obtain ⟨b, right, hRight⟩ := (hNext a _ hLeft).inhabited
              refine ⟨b, missing ++ right, ?_, a, _, right, hLeft, hRight, ?_⟩
              · intro hNil
                exact hMissing (List.append_eq_nil_iff.mp hNil).1
              · rw [List.append_assoc]
          | ok a =>
              obtain ⟨left, hLeft, rfl⟩ := (hFirst.accepts _ _ _).mp hOutcome
              rw [andThen_of_ok hOutcome] at h
              obtain ⟨b, missing, hMissing, hRight⟩ := ((hNext a left hLeft).truncated _).mp h
              refine ⟨b, missing, hMissing, a, left, _, hLeft, hRight, ?_⟩
              rw [List.append_assoc]
    · intro hCut
      obtain ⟨b, missing, hMissing, a, left, right, hLeft, hRight, hBlock⟩ := hCut
      -- The cut lies either inside the left part or behind it.
      rcases List.append_eq_append_iff.mp hBlock with ⟨middle, rfl, hTail⟩ | ⟨middle, rfl, rfl⟩
      · by_cases hMiddle : middle = []
        · subst hMiddle
          rw [List.nil_append] at hTail
          subst hTail
          rw [List.append_nil] at hLeft
          have hOutcome := hFirst.accepts_append hLeft []
          rw [List.append_nil] at hOutcome
          rw [andThen_of_ok hOutcome]
          exact ((hNext a _ hLeft).truncated []).mpr ⟨b, missing, hMissing, hRight⟩
        · have hCut := (hFirst.truncated buffer).mpr ⟨a, middle, hMiddle, hLeft⟩
          have hOutcome : first buffer = (.error .truncated, (first buffer).2) := Prod.ext hCut rfl
          rw [andThen_of_error hOutcome]
      · rw [andThen_of_ok (hFirst.accepts_append hLeft middle)]
        exact ((hNext a left hLeft).truncated middle).mpr ⟨b, missing, hMissing, hRight⟩
  refuses buffer h := by
    cases hOutcome : first buffer with
    | mk outcome middle =>
        cases outcome with
        | error error =>
            rw [andThen_of_error hOutcome] at h
            obtain rfl := Except.error.inj h
            exact Or.inl (hFirst.refuses buffer (by rw [hOutcome]))
        | ok a =>
            obtain ⟨left, hLeft, -⟩ := (hFirst.accepts _ _ _).mp hOutcome
            rw [andThen_of_ok hOutcome] at h
            exact Or.inr ((hNext a left hLeft).refuses middle h)
  not_trailing buffer h := by
    cases hOutcome : first buffer with
    | mk outcome middle =>
        cases outcome with
        | error error =>
            rw [andThen_of_error hOutcome] at h
            obtain rfl := Except.error.inj h
            exact hFirst.not_trailing buffer (by rw [hOutcome])
        | ok a =>
            obtain ⟨left, hLeft, -⟩ := (hFirst.accepts _ _ _).mp hOutcome
            rw [andThen_of_ok hOutcome] at h
            exact (hNext a left hLeft).not_trailing middle h

end Reads

end Reader

end Dataflow.Wire
