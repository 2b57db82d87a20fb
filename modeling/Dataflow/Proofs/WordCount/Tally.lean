import Dataflow.WordCount.Run
import Mathlib.Data.List.Induction

/-! The laws of tallies. A tally ascends, so it is settled by what a look-up finds in it. Counting a
list of keys finds how often each occurs, in whatever order they come. Tallies of different owners
are put together by assignment without one count touching another. -/
namespace Dataflow

theorem Bytes.precedes_trans {first second third : Bytes} (h : first.precedes second = true)
    (h' : second.precedes third = true) : first.precedes third = true := by
  induction first generalizing second third with
  | nil =>
      cases third with
      | nil => cases second <;> cases h'
      | cons c third => rfl
  | cons a first ih =>
      cases second with
      | nil => cases h
      | cons b second =>
          cases third with
          | nil => cases h'
          | cons c third =>
              simp only [precedes, Bool.or_eq_true, decide_eq_true_eq, Bool.and_eq_true,
                beq_iff_eq] at h h' ⊢
              rcases h with hLess | ⟨rfl, hRest⟩
              · rcases h' with hLess' | ⟨rfl, -⟩
                · exact Or.inl (UInt8.lt_trans hLess hLess')
                · exact Or.inl hLess
              · rcases h' with hLess' | ⟨rfl, hRest'⟩
                · exact Or.inl hLess'
                · exact Or.inr ⟨rfl, ih hRest hRest'⟩

/-- Of two texts one comes first, unless they are the same. -/
theorem Bytes.precedes_total (first second : Bytes) :
    first.precedes second = true ∨ first = second ∨ second.precedes first = true := by
  induction first generalizing second with
  | nil =>
      cases second with
      | nil => exact Or.inr (Or.inl rfl)
      | cons b second => exact Or.inl rfl
  | cons a first ih =>
      cases second with
      | nil => exact Or.inr (Or.inr rfl)
      | cons b second =>
          simp only [precedes, Bool.or_eq_true, decide_eq_true_eq, Bool.and_eq_true, beq_iff_eq,
            List.cons.injEq]
          rcases Nat.lt_trichotomy a.toNat b.toNat with hLess | hSame | hMore
          · exact Or.inl (Or.inl (UInt8.lt_iff_toNat_lt.mpr hLess))
          · have hEq : a = b := UInt8.toNat_inj.mp hSame
            rcases ih second with hFirst | hRest | hSecond
            · exact Or.inl (Or.inr ⟨hEq, hFirst⟩)
            · exact Or.inr (Or.inl ⟨hEq, hRest⟩)
            · exact Or.inr (Or.inr (Or.inr ⟨hEq.symm, hSecond⟩))
          · exact Or.inr (Or.inr (Or.inl (UInt8.lt_iff_toNat_lt.mpr hMore)))

namespace WordCount

namespace Key

theorem precedes_irrefl (key : Key) : key.precedes key = false := by
  simp [precedes, Bytes.precedes_irrefl]

theorem precedes_trans {first second third : Key} (h : first.precedes second = true)
    (h' : second.precedes third = true) : first.precedes third = true := by
  simp only [precedes, Bool.or_eq_true, decide_eq_true_eq, Bool.and_eq_true, beq_iff_eq] at h h' ⊢
  rcases h with hLess | ⟨hSame, hWord⟩
  · rcases h' with hLess' | ⟨hSame', -⟩
    · exact Or.inl (UInt64.lt_trans hLess hLess')
    · exact Or.inl (hSame' ▸ hLess)
  · rcases h' with hLess' | ⟨hSame', hWord'⟩
    · exact Or.inl (hSame ▸ hLess')
    · exact Or.inr ⟨hSame.trans hSame', Bytes.precedes_trans hWord hWord'⟩

/-- Of two keys one comes first, unless they are the same. -/
theorem precedes_total (first second : Key) :
    first.precedes second = true ∨ first = second ∨ second.precedes first = true := by
  obtain ⟨epoch, word⟩ := first
  obtain ⟨epoch', word'⟩ := second
  simp only [precedes, Bool.or_eq_true, decide_eq_true_eq, Bool.and_eq_true, beq_iff_eq,
    Key.mk.injEq]
  rcases Nat.lt_trichotomy epoch.toNat epoch'.toNat with hLess | hSame | hMore
  · exact Or.inl (Or.inl (UInt64.lt_iff_toNat_lt.mpr hLess))
  · have hEq : epoch = epoch' := UInt64.toNat_inj.mp hSame
    rcases Bytes.precedes_total word word' with hFirst | hWord | hSecond
    · exact Or.inl (Or.inr ⟨hEq, hFirst⟩)
    · exact Or.inr (Or.inl ⟨hEq, hWord⟩)
    · exact Or.inr (Or.inr (Or.inr ⟨hEq.symm, hSecond⟩))
  · exact Or.inr (Or.inr (Or.inl (UInt64.lt_iff_toNat_lt.mpr hMore)))

theorem ne_of_precedes {first second : Key} (h : first.precedes second = true) :
    first ≠ second := by
  intro hSame
  rw [hSame, precedes_irrefl] at h
  cases h

end Key

namespace Tally

/-- Keys come in order, so none comes twice. -/
def Ascending (tally : Tally) : Prop :=
  tally.Pairwise fun entry other => entry.1.precedes other.1 = true

variable {tally other : Tally}

theorem ascending_nil : Ascending [] := List.Pairwise.nil

theorem lookup_cons (key : Key) (entry : Key × UInt64) (rest : Tally) :
    List.lookup key (entry :: rest) = if key = entry.1 then some entry.2 else rest.lookup key := by
  rw [List.lookup_cons]
  by_cases hKey : key = entry.1
  · rw [if_pos hKey, beq_iff_eq.mpr hKey]
  · rw [if_neg hKey, beq_eq_false_iff_ne.mpr hKey]

/-- A key that comes before all others is missing. -/
theorem lookup_eq_none_of_precedes {key : Key}
    (h : ∀ entry ∈ tally, key.precedes entry.1 = true) : tally.lookup key = none := by
  rw [List.lookup_eq_none_iff]
  exact fun entry hEntry => bne_iff_ne.mpr (Key.ne_of_precedes (h entry hEntry))

theorem mem_alter {key : Key} {change : Option UInt64 → UInt64} {entry : Key × UInt64}
    (h : entry ∈ tally.alter key change) : entry.1 = key ∨ entry ∈ tally := by
  induction tally with
  | nil =>
      rw [List.mem_singleton.mp h]
      exact Or.inl rfl
  | cons first rest ih =>
      obtain ⟨k, n⟩ := first
      rw [alter] at h
      split at h
      · rename_i hKey
        rcases List.mem_cons.mp h with hFirst | hRest
        · rw [hFirst]
          exact Or.inl hKey.symm
        · exact Or.inr (List.mem_cons_of_mem _ hRest)
      · split at h
        · rcases List.mem_cons.mp h with hFirst | hRest
          · rw [hFirst]
            exact Or.inl rfl
          · exact Or.inr hRest
        · rcases List.mem_cons.mp h with hFirst | hRest
          · rw [hFirst]
            exact Or.inr List.mem_cons_self
          · exact (ih hRest).imp_right (List.mem_cons_of_mem _)

/-- A change keeps a tally in order. -/
theorem Ascending.alter (h : Ascending tally) (key : Key) (change : Option UInt64 → UInt64) :
    Ascending (tally.alter key change) := by
  induction tally with
  | nil => exact List.pairwise_singleton _ _
  | cons first rest ih =>
      obtain ⟨k, n⟩ := first
      obtain ⟨hFirst, hRest⟩ := List.pairwise_cons.mp h
      rw [Tally.alter]
      split
      · exact List.pairwise_cons.mpr ⟨hFirst, hRest⟩
      · rename_i hKey
        split
        · rename_i hBefore
          refine List.pairwise_cons.mpr ⟨fun entry hEntry => ?_, h⟩
          rcases List.mem_cons.mp hEntry with hSame | hBehind
          · rw [hSame]
            exact hBefore
          · exact Key.precedes_trans hBefore (hFirst entry hBehind)
        · rename_i hNotBefore
          refine List.pairwise_cons.mpr ⟨fun entry hEntry => ?_, ih hRest⟩
          rcases mem_alter hEntry with hSame | hOld
          · have hTotal := Key.precedes_total k key
            rw [hSame]
            rcases hTotal with hLess | hEq | hMore
            · exact hLess
            · exact absurd hEq.symm hKey
            · exact absurd hMore hNotBefore
          · exact hFirst entry hOld

/-- A change reaches its key and no other. -/
theorem Ascending.lookup_alter (h : Ascending tally) (key : Key)
    (change : Option UInt64 → UInt64) (k : Key) :
    (tally.alter key change).lookup k =
      if k = key then some (change (tally.lookup key)) else tally.lookup k := by
  induction tally with
  | nil => exact lookup_cons k (key, change none) []
  | cons first rest ih =>
      obtain ⟨k', n⟩ := first
      obtain ⟨hFirst, hRest⟩ := List.pairwise_cons.mp h
      rw [Tally.alter]
      split
      · rename_i hKey
        subst hKey
        simp only [lookup_cons, if_true]
        split <;> rfl
      · rename_i hKey
        split
        · rename_i hBefore
          have hMissing : List.lookup key ((k', n) :: rest) = none := by
            refine lookup_eq_none_of_precedes fun entry hEntry => ?_
            rcases List.mem_cons.mp hEntry with hSame | hBehind
            · rw [hSame]
              exact hBefore
            · exact Key.precedes_trans hBefore (hFirst entry hBehind)
          rw [hMissing, lookup_cons]
        · simp only [lookup_cons, ih hRest, if_neg hKey]
          by_cases hSame : k = k'
          · subst hSame
            simp [Ne.symm hKey]
          · rw [if_neg hSame, if_neg hSame]

/-- A tally in order has at most one entry for a key. -/
theorem mem_iff_lookup (h : Ascending tally) {key : Key} {n : UInt64} :
    (key, n) ∈ tally ↔ tally.lookup key = some n := by
  induction tally with
  | nil => simp
  | cons first rest ih =>
      obtain ⟨hFirst, hRest⟩ := List.pairwise_cons.mp h
      rw [List.mem_cons, lookup_cons, ih hRest]
      by_cases hKey : key = first.1
      · subst hKey
        rw [if_pos rfl, lookup_eq_none_of_precedes hFirst]
        simp [Prod.ext_iff, eq_comm]
      · rw [if_neg hKey]
        simp [Prod.ext_iff, hKey]

/-- Tallies in which every look-up finds the same are the same. -/
theorem Ascending.ext (h : Ascending tally) (h' : Ascending other)
    (hLookup : ∀ key, tally.lookup key = other.lookup key) : tally = other := by
  have hNodup {t : Tally} (hAscending : Ascending t) : t.Nodup :=
    hAscending.imp fun hBefore hSame => Key.ne_of_precedes hBefore (congrArg Prod.fst hSame)
  refine List.Perm.eq_of_pairwise ?_ h h' ?_
  · intro entry entry' _ _ hBefore hAfter
    exact absurd rfl (Key.ne_of_precedes (Key.precedes_trans hBefore hAfter))
  · refine (List.perm_ext_iff_of_nodup (hNodup h) (hNodup h')).mpr fun entry => ?_
    rw [mem_iff_lookup h, mem_iff_lookup h', hLookup]

theorem Ascending.assignAll (h : Ascending tally) (other : Tally) :
    Ascending (tally.assignAll other) := by
  induction other generalizing tally with
  | nil => exact h
  | cons entry rest ih => exact ih (h.alter entry.1 _)

/-- Counts that are set take the place of earlier ones; the others stay. -/
theorem Ascending.lookup_assignAll (h : Ascending tally) (h' : Ascending other) (key : Key) :
    (tally.assignAll other).lookup key = (other.lookup key).or (tally.lookup key) := by
  induction other generalizing tally with
  | nil => rfl
  | cons entry rest ih =>
      obtain ⟨hFirst, hRest⟩ := List.pairwise_cons.mp h'
      have hAssign := ih (h.alter entry.1 fun _ => entry.2) hRest
      rw [h.lookup_alter] at hAssign
      rw [lookup_cons]
      refine hAssign.trans ?_
      by_cases hKey : key = entry.1
      · subst hKey
        rw [if_pos rfl, if_pos rfl, lookup_eq_none_of_precedes hFirst]
        rfl
      · rw [if_neg hKey, if_neg hKey]

/-- The tally of keys: how often each of them comes. -/
def ofKeys (keys : List Key) : Tally := keys.foldl (fun tally key => tally.add key 1) []

theorem ofKeys_concat (keys : List Key) (key : Key) :
    ofKeys (keys ++ [key]) = (ofKeys keys).add key 1 := by
  rw [ofKeys, List.foldl_append]
  rfl

/-- A tally of keys is in order. -/
theorem ascending_ofKeys (keys : List Key) : Ascending (ofKeys keys) := by
  induction keys using List.reverseRecOn with
  | nil => exact ascending_nil
  | append_singleton keys key ih =>
      rw [ofKeys_concat]
      exact ih.alter key _

/-- A key that never comes is missing, and the count of any other is a word. -/
theorem lookup_ofKeys (keys : List Key) (key : Key) :
    (ofKeys keys).lookup key =
      if keys.count key = 0 then none else some (UInt64.ofNat (keys.count key)) := by
  induction keys using List.reverseRecOn with
  | nil => rfl
  | append_singleton keys last ih =>
      rw [ofKeys_concat, add, (ascending_ofKeys keys).lookup_alter, List.count_append]
      by_cases hKey : key = last
      · subst hKey
        rw [if_pos rfl, ih, List.count_singleton_self, if_neg (Nat.succ_ne_zero _),
          UInt64.ofNat_add]
        split
        · rename_i hZero
          rw [hZero]
          rfl
        · rfl
      · rw [if_neg hKey, ih, List.count_singleton]
        simp [Ne.symm hKey]

/-- It does not matter in which order keys are counted. -/
theorem ofKeys_perm {keys others : List Key} (h : keys.Perm others) :
    ofKeys keys = ofKeys others := by
  refine (ascending_ofKeys keys).ext (ascending_ofKeys others) fun key => ?_
  rw [lookup_ofKeys, lookup_ofKeys, h.count_eq]

/-- The keys of one owner are counted as among all keys. -/
theorem lookup_ofKeys_filter (owner : Key → Nat) (keys : List Key) (worker : Nat) (key : Key) :
    (ofKeys (keys.filter (owner · = worker))).lookup key =
      if owner key = worker then (ofKeys keys).lookup key else none := by
  rw [lookup_ofKeys, lookup_ofKeys]
  by_cases hOwner : owner key = worker
  · rw [if_pos hOwner, List.count_filter (by simpa using hOwner)]
  · have hMissing : key ∉ keys.filter (owner · = worker) := by simp [hOwner]
    rw [if_neg hOwner, List.count_eq_zero.mpr hMissing, if_pos rfl]

end Tally

theorem totals_concat (results : List (Nat × Tally)) (result : Nat × Tally) :
    totals (results ++ [result]) = (totals results).assignAll result.2 := by
  rw [totals, List.foldl_append]
  rfl

/-- So are the totals. -/
theorem ascending_totals (results : List (Nat × Tally)) : (totals results).Ascending := by
  induction results using List.reverseRecOn with
  | nil => exact Tally.ascending_nil
  | append_singleton results result ih =>
      rw [totals_concat]
      exact ih.assignAll result.2

/-- If every key has one owner, the tallies of the owners together are the tally of all keys, in
whatever order the owners come. -/
theorem totals_owners (owner : Key → Nat) {keys : List Key} {workers : List Nat}
    (hOwned : ∀ key ∈ keys, owner key ∈ workers) :
    totals (workers.map fun worker =>
      (worker, Tally.ofKeys (keys.filter (owner · = worker)))) = Tally.ofKeys keys := by
  have hLookup (key : Key) : (totals (workers.map fun worker =>
      (worker, Tally.ofKeys (keys.filter (owner · = worker))))).lookup key =
        if owner key ∈ workers then (Tally.ofKeys keys).lookup key else none := by
    clear hOwned
    induction workers using List.reverseRecOn with
    | nil => rfl
    | append_singleton workers worker ih =>
        rw [List.map_append, List.map_singleton, totals_concat,
          (ascending_totals _).lookup_assignAll (Tally.ascending_ofKeys _), ih,
          Tally.lookup_ofKeys_filter]
        by_cases hOwner : owner key = worker
        · simp only [hOwner, if_true, List.mem_append, List.mem_singleton, or_true]
          split
          · exact Option.or_self
          · exact Option.or_none
        · simp [hOwner]
  refine (ascending_totals _).ext (Tally.ascending_ofKeys keys) fun key => ?_
  rw [hLookup]
  split
  · rfl
  · rename_i hForeign
    have hMissing : key ∉ keys := fun hKey => hForeign (hOwned key hKey)
    rw [Tally.lookup_ofKeys, List.count_eq_zero.mpr hMissing, if_pos rfl]

end WordCount

end Dataflow
