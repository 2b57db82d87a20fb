import Dataflow.Proofs.Wire.Codec

/-! Counts against the bytes behind them. The count in front of a sequence may announce more items
than there are bytes. As every item takes at least one byte, such a sequence is refused after at
most one try more than there are bytes, and the room that is made for the items of a sequence
always suffices. -/
namespace Dataflow.Wire

/-- A sequence makes no room for items that it has room for. -/
theorem Filling.room_foldl_push {α : Type} {out : Filling α} {later : List α}
    (h : out.items.length + later.length ≤ out.room) : (later.foldl push out).room = out.room := by
  induction later generalizing out with
  | nil => rfl
  | cons value later ih =>
      rw [List.length_cons] at h
      have hPush : (out.push value).room = out.room := Nat.max_eq_left (by omega)
      rw [List.foldl_cons, ih, hPush]
      rw [hPush, push, List.length_cons]
      omega

theorem Scalar.width_pos (s : Scalar) : 0 < s.width := by
  cases s <;> decide

/-- No encoding is empty. -/
theorem length_encode_pos (t : Ty) (value : t.Val) : 0 < (encode t value).length := by
  induction t with
  | scalar s => simpa [encode] using s.width_pos
  | bool => exact Nat.one_pos
  | str =>
      rw [encode, length_sizedBytes]
      exact Nat.add_pos_left (by decide) _
  | pair first second ihFirst _ =>
      rw [encode, List.length_append]
      exact Nat.add_pos_left (ihFirst value.1) _
  | vec item _ =>
      rw [encode, List.length_append, countBytes, LittleEndian.length_encode]
      exact Nat.add_pos_left (by decide) _

namespace Reader

variable {α : Type}

/-- Whether a reader that succeeds has consumed at least one byte. -/
def Consumes (reader : Reader α) : Prop :=
  ∀ bytes value rest, reader bytes = (.ok value, rest) → rest.length < bytes.length

/-- One try to read an item, and what was unread before and after it. -/
structure Try (α : Type) where
  before : Bytes
  result : Except ReadError α
  after : Bytes

/-- The tries that are made when `n` items are to be read. A try that fails is the last. -/
def tries (item : Reader α) : Nat → Bytes → List (Try α)
  | 0, _ => []
  | n + 1, bytes =>
    match item bytes with
    | (.ok value, rest) => ⟨bytes, .ok value, rest⟩ :: tries item n rest
    | (.error error, rest) => [⟨bytes, .error error, rest⟩]

def held (tried : List (Try α)) : List α := tried.filterMap fun t => t.result.toOption

/-- What comes of the tries that are made behind other items: the items, unless the last try has
failed. -/
def conclude (earlier : List α) (bytes : Bytes) (tried : List (Try α)) :
    Except ReadError (List α) × Bytes :=
  match tried.getLast? with
  | none => (.ok earlier, bytes)
  | some last => (last.result.map fun _ => earlier ++ held tried, last.after)

/-- The number of items for which room is made: those announced, or as many as there are bytes. -/
def reserved (n : Nat) (bytes : Bytes) : Nat := min n bytes.length

theorem held_cons_ok (before : Bytes) (value : α) (after : Bytes) (tried : List (Try α)) :
    held (⟨before, .ok value, after⟩ :: tried) = value :: held tried := rfl

theorem conclude_cons (earlier : List α) (bytes before : Bytes) (value : α) (after : Bytes)
    (tried : List (Try α)) :
    conclude earlier bytes (⟨before, .ok value, after⟩ :: tried) =
      conclude (earlier ++ [value]) after tried := by
  rw [conclude, conclude, List.getLast?_cons, held_cons_ok]
  cases hLast : tried.getLast? with
  | none =>
      rw [List.getLast?_eq_none_iff.mp hLast]
      rfl
  | some last => simp [List.append_assoc]

theorem fill_of_ok {item : Reader α} {bytes rest : Bytes} {value : α}
    (h : item bytes = (.ok value, rest)) (n : Nat) (out : Filling α) :
    fill item (n + 1) out bytes = fill item n (out.push value) rest :=
  andThen_of_ok h _

theorem fill_of_error {item : Reader α} {bytes rest : Bytes} {error : ReadError}
    (h : item bytes = (.error error, rest)) (n : Nat) (out : Filling α) :
    fill item (n + 1) out bytes = (.error error, rest) :=
  andThen_of_error h _

/-- Filling a sequence is making the tries one after the other. -/
theorem fill_eq_conclude (item : Reader α) (n : Nat) (out : Filling α) (bytes : Bytes) :
    (fill item n out).andThen (fun filled => succeed filled.items.reverse) bytes =
      conclude out.items.reverse bytes (tries item n bytes) := by
  induction n generalizing out bytes with
  | zero => rfl
  | succ n ih =>
      cases hItem : item bytes with
      | mk outcome rest =>
          cases outcome with
          | ok value =>
              rw [andThen, fill_of_ok hItem, ← andThen, ih, tries, hItem, conclude_cons,
                Filling.push, List.reverse_cons]
          | error error =>
              rw [andThen_of_error (fill_of_error hItem n out), tries, hItem]
              rfl

/-- What is read of a sequence is what its tries conclude. -/
theorem items_eq_conclude (item : Reader α) (n : Nat) (bytes : Bytes) :
    items item n bytes = conclude [] bytes (tries item n bytes) :=
  fill_eq_conclude item n (.reserve (min n bytes.length)) bytes

/-- No more tries are made than there are items. -/
theorem tries_length_le (item : Reader α) (n : Nat) (bytes : Bytes) :
    (tries item n bytes).length ≤ n := by
  induction n generalizing bytes with
  | zero => exact Nat.le_refl 0
  | succ n ih =>
      rw [tries]
      split
      · exact Nat.succ_le_succ (ih _)
      · exact Nat.succ_le_succ (Nat.zero_le n)

/-- At most one try has failed. -/
theorem tries_length_le_held (item : Reader α) (n : Nat) (bytes : Bytes) :
    (tries item n bytes).length ≤ (held (tries item n bytes)).length + 1 := by
  induction n generalizing bytes with
  | zero => exact Nat.zero_le _
  | succ n ih =>
      rw [tries]
      split
      · rw [held_cons_ok]
        exact Nat.succ_le_succ (ih _)
      · exact Nat.le_refl 1

/-- Every item that is held has taken a byte. -/
theorem held_tries_length_le {item : Reader α} (h : item.Consumes) (n : Nat) (bytes : Bytes) :
    (held (tries item n bytes)).length ≤ bytes.length := by
  induction n generalizing bytes with
  | zero => exact Nat.zero_le _
  | succ n ih =>
      rw [tries]
      split
      · rename_i value rest hItem
        rw [held_cons_ok]
        exact Nat.lt_of_le_of_lt (ih rest) (h _ _ _ hItem)
      · exact Nat.zero_le _

theorem held_length_le (tried : List (Try α)) : (held tried).length ≤ tried.length :=
  List.length_filterMap_le _ _

theorem held_take_length_le (k : Nat) (tried : List (Try α)) :
    (held (tried.take k)).length ≤ (held tried).length :=
  ((List.take_sublist k tried).filterMap _).length_le

theorem eq_held_of_conclude {bytes unread : Bytes} {tried : List (Try α)} {values : List α}
    (h : conclude [] bytes tried = (.ok values, unread)) : values = held tried := by
  cases hLast : tried.getLast? with
  | none =>
      simp only [conclude, hLast, Prod.mk.injEq, Except.ok.injEq] at h
      rw [← h.1, List.getLast?_eq_none_iff.mp hLast]
      rfl
  | some last =>
      simp only [conclude, hLast, List.nil_append, Prod.mk.injEq] at h
      cases hResult : last.result with
      | ok value =>
          rw [hResult] at h
          exact (Except.ok.inj h.1).symm
      | error error =>
          rw [hResult] at h
          cases h.1

/-- A try is a call of the item's reader. -/
theorem of_mem_tries {item : Reader α} {n : Nat} {bytes : Bytes} {t : Try α}
    (h : t ∈ tries item n bytes) : item t.before = (t.result, t.after) := by
  induction n generalizing bytes with
  | zero => cases h
  | succ n ih =>
      rw [tries] at h
      split at h
      · rename_i hItem
        rcases List.mem_cons.mp h with rfl | hLater
        · exact hItem
        · exact ih hLater
      · rename_i hItem
        rw [List.mem_singleton.mp h]
        exact hItem

/-- A try starts where the one before it stopped. -/
theorem tries_chain (item : Reader α) (n : Nat) (earlier : List α) (bytes : Bytes) :
    bytes :: (tries item n bytes).map Try.after =
      (tries item n bytes).map Try.before ++
        [(conclude earlier bytes (tries item n bytes)).2] := by
  induction n generalizing earlier bytes with
  | zero => rfl
  | succ n ih =>
      rw [tries]
      split
      · rename_i value rest hItem
        rw [conclude_cons, List.map_cons, List.map_cons, List.cons_append,
          ih (earlier ++ [value]) rest]
      · rfl

/-- The tries are the rounds of the loop that fills the sequence, which get as far as all rounds
before them have given an item. -/
theorem getElem?_tries (item : Reader α) (n k : Nat) (out : Filling α) (bytes : Bytes)
    (t : Try α) :
    (tries item n bytes)[k]? = some t ↔
      k < n ∧ (∃ filled, fill item k out bytes = (.ok filled, t.before)) ∧
        item t.before = (t.result, t.after) := by
  induction n generalizing k out bytes with
  | zero => simp [tries]
  | succ n ih =>
      obtain ⟨before, result, after⟩ := t
      cases hItem : item bytes with
      | mk outcome rest =>
          cases k with
          | zero =>
              have hFirst : (tries item (n + 1) bytes)[0]? = some ⟨bytes, outcome, rest⟩ := by
                rw [tries, hItem]
                cases outcome <;> rfl
              rw [hFirst]
              constructor
              · intro hTry
                cases hTry
                exact ⟨Nat.succ_pos n, ⟨out, rfl⟩, hItem⟩
              · intro hRound
                obtain ⟨-, ⟨filled, hFilled⟩, hTried⟩ := hRound
                cases hFilled
                rw [hItem] at hTried
                cases hTried
                rfl
          | succ k =>
              cases outcome with
              | ok value =>
                  rw [tries, hItem, List.getElem?_cons_succ, ih k (out.push value) rest,
                    fill_of_ok hItem, Nat.add_lt_add_iff_right]
              | error error =>
                  rw [tries, hItem, fill_of_error hItem]
                  simp

/-- What the sequence holds after some rounds. -/
theorem eq_of_fill {item : Reader α} {n k : Nat} (hRounds : k ≤ n) {out filled : Filling α}
    {bytes unread : Bytes} (h : fill item k out bytes = (.ok filled, unread)) :
    filled = (held ((tries item n bytes).take k)).foldl Filling.push out ∧
      (held ((tries item n bytes).take k)).length = k := by
  induction k generalizing n out bytes with
  | zero =>
      cases h
      exact ⟨rfl, rfl⟩
  | succ k ih =>
      obtain ⟨n, rfl⟩ := Nat.exists_eq_add_of_le' (Nat.lt_of_lt_of_le (Nat.succ_pos k) hRounds)
      cases hItem : item bytes with
      | mk outcome rest =>
          cases outcome with
          | ok value =>
              rw [fill_of_ok hItem] at h
              obtain ⟨hFilled, hLength⟩ := ih (Nat.le_of_succ_le_succ hRounds) h
              rw [tries, hItem, List.take_succ_cons, held_cons_ok, List.length_cons, hLength]
              exact ⟨hFilled, rfl⟩
          | error error =>
              rw [fill_of_error hItem] at h
              cases (Prod.mk.inj h).1

/-- A sequence that is read has as many items as announced. -/
theorem length_of_items {item : Reader α} {n : Nat} {bytes unread : Bytes} {values : List α}
    (h : items item n bytes = (.ok values, unread)) : values.length = n := by
  cases hFill : fill item n (.reserve (min n bytes.length)) bytes with
  | mk outcome rest =>
      have hItems : items item n bytes = _ := andThen_of_ok rfl _
      cases outcome with
      | ok filled =>
          obtain ⟨rfl, hLength⟩ := eq_of_fill (Nat.le_refl n) hFill
          rw [andThen_of_ok hFill, h] at hItems
          cases hItems
          rw [Filling.items_foldl_push, List.length_reverse, List.length_append, List.length_reverse,
            hLength]
          rfl
      | error error =>
          rw [andThen_of_error hFill, h] at hItems
          cases hItems

/-- How a sequence of `n` items is read from bytes that may be too few for it. -/
structure Contained (item : Reader α) (n : Nat) (bytes : Bytes)
    (outcome : Except ReadError (List α) × Bytes) : Prop where
  outcome_eq : outcome = conclude [] bytes (tries item n bytes)
  of_mem : ∀ t ∈ tries item n bytes, item t.before = (t.result, t.after)
  chain : bytes :: (tries item n bytes).map Try.after =
    (tries item n bytes).map Try.before ++ [outcome.2]
  tries_le : (tries item n bytes).length ≤ min n (bytes.length + 1)
  held_le : ∀ k, (held ((tries item n bytes).take k)).length ≤ reserved n bytes
  refused : bytes.length < n → ∃ error, outcome.1 = .error error
  accepted : ∀ values unread, outcome = (.ok values, unread) →
    values.length = n ∧ n ≤ bytes.length
  rounds : ∀ k t, (tries item n bytes)[k]? = some t ↔
    k < n ∧ (∃ out, fill item k (.reserve (reserved n bytes)) bytes = (.ok out, t.before)) ∧
      item t.before = (t.result, t.after)
  room : ∀ k ≤ n, ∀ out unread,
    fill item k (.reserve (reserved n bytes)) bytes = (.ok out, unread) →
      out.items.reverse = held ((tries item n bytes).take k) ∧ out.items.length = k ∧
        k ≤ out.room ∧ out.room = reserved n bytes

/-- A sequence is contained if its items consume what they are read from. -/
theorem Consumes.contained {item : Reader α} (h : item.Consumes) (n : Nat) (bytes : Bytes) :
    item.Contained n bytes (items item n bytes) := by
  have hOutcome := items_eq_conclude item n bytes
  have hTries := tries_length_le item n bytes
  have hFailed := tries_length_le_held item n bytes
  have hHeld := held_tries_length_le h n bytes
  have hReserved (k : Nat) : (held ((tries item n bytes).take k)).length ≤ reserved n bytes := by
    have hTaken := held_take_length_le k (tries item n bytes)
    have hGiven := held_length_le (tries item n bytes)
    rw [reserved, Nat.le_min]
    omega
  have hAccepted : ∀ values unread, items item n bytes = (.ok values, unread) →
      values.length = n ∧ n ≤ bytes.length := by
    intro values unread hItems
    have hLength := length_of_items hItems
    rw [hOutcome] at hItems
    rw [← eq_held_of_conclude hItems] at hHeld
    exact ⟨hLength, hLength ▸ hHeld⟩
  refine ⟨hOutcome, fun t => of_mem_tries, ?_, ?_, hReserved, ?_, hAccepted,
    fun k t => getElem?_tries item n k _ bytes t, ?_⟩
  · rw [hOutcome]
    exact tries_chain item n [] bytes
  · exact Nat.le_min.mpr ⟨hTries, Nat.le_trans hFailed (Nat.succ_le_succ hHeld)⟩
  · intro hFew
    cases hItems : items item n bytes with
    | mk outcome unread =>
        cases outcome with
        | ok values => exact absurd (hAccepted values unread hItems).2 (Nat.not_le_of_lt hFew)
        | error error => exact ⟨error, rfl⟩
  · intro k hRounds out unread hFill
    obtain ⟨rfl, hLength⟩ := eq_of_fill hRounds hFill
    have hFits := hReserved k
    have hRoom : ((held ((tries item n bytes).take k)).foldl Filling.push
        (.reserve (reserved n bytes))).room = reserved n bytes :=
      Filling.room_foldl_push (Nat.le_trans (Nat.le_of_eq (Nat.zero_add _)) hFits)
    have hItems := Filling.items_foldl_push (.reserve (reserved n bytes))
      (held ((tries item n bytes).take k))
    rw [hRoom, hItems, Filling.reserve, List.append_nil, List.reverse_reverse,
      List.length_reverse]
    exact ⟨rfl, hLength, hLength ▸ hFits, rfl⟩

end Reader

/-- A decoder that succeeds has read the encoding of a value, and that is never empty. -/
theorem decode_consumes (t : Ty) : (decode t).Consumes := by
  intro bytes value rest h
  obtain ⟨block, ⟨-, rfl⟩, rfl⟩ := ((decode_reads t).accepts _ _ _).mp h
  rw [List.length_append]
  exact Nat.lt_add_of_pos_left (length_encode_pos t value)

/-- Behind its count a sequence is read item by item. -/
theorem decode_vec_countBytes (item : Ty) (n : UInt32) (rest : Bytes) :
    decode (.vec item) (countBytes n.toNat ++ rest) =
      Reader.items (decode item) n.toNat rest := by
  have hCount : Reader.count (countBytes n.toNat ++ rest) = (.ok n.toNat, rest) :=
    Reader.count_reads.accepts_append ⟨n.toNat_lt, rfl⟩ rest
  rw [decode, Reader.andThen_of_ok hCount]

/-- The decoder of every type consumes a byte if it succeeds. A count may therefore announce what it
likes: a sequence with fewer bytes than items behind its count is refused, no more tries are made
than there are items, or bytes and one more, and where the sequence is accepted it has as many items
as announced. The tries are the rounds of the loop, and in no round is there need for more room than
was made at the start. -/
theorem counts_contained :
    (∀ t : Ty, (decode t).Consumes) ∧
    ∀ (item : Ty) (n : UInt32) (rest : Bytes), (decode item).Contained n.toNat rest
      (decode (.vec item) (countBytes n.toNat ++ rest)) := by
  refine ⟨decode_consumes, fun item n rest => ?_⟩
  rw [decode_vec_countBytes]
  exact (decode_consumes item).contained n.toNat rest

/-- The largest count in front of an empty sequence, a sequence of one byte, and the beginning of a
third. -/
example : (Reader.tries (decode (.vec (.scalar .u8))) (2 ^ 32 - 1)
    [0, 0, 0, 0, 1, 0, 0, 0, 7, 2, 0]).map Reader.Try.before =
    [[0, 0, 0, 0, 1, 0, 0, 0, 7, 2, 0], [1, 0, 0, 0, 7, 2, 0], [2, 0]] := by
  decide +kernel

end Dataflow.Wire
