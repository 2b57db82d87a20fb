import Dataflow.WordCount.Text
import Mathlib.Data.List.Basic

/-! Splitting a line into words. The loop walks over the line from piece to piece; it visits every
stretch of characters between spaces once and in order, and its records are those of the non-empty
pieces. A space therefore divides the words before it from the words behind it. -/
namespace Dataflow.WordCount

/-- A longest stretch of a line without spaces: it is bounded by spaces or by the ends of the line,
and it is not empty. -/
structure WordAt (text : Bytes) (first last : Nat) : Prop where
  nonempty : first < last
  within : last ≤ text.length
  spaceless : ∀ i, first ≤ i → i < last → text[i]? ≠ some space
  opens : ∀ i, i + 1 = first → text[i]? = some space
  closes : last < text.length → text[last]? = some space

/-- A line with the given words, each with the number of spaces behind it. -/
def spread (leading : Nat) (words : List (Bytes × Nat)) : Bytes :=
  List.replicate leading space ++
    words.flatMap fun word => word.1 ++ List.replicate word.2 space

/-! ### Where pieces end -/

variable {text : Bytes} {first last : Nat}

/-- The characters from a position up to the end of its piece are no spaces, and the piece ends at a
space or with the line. -/
theorem pieceEnd_spec (h : first ≤ text.length) :
    pieceEnd text first ≤ text.length ∧
      (∀ i, first ≤ i → i < pieceEnd text first → text[i]? ≠ some space) ∧
      (pieceEnd text first < text.length → text[pieceEnd text first]? = some space) := by
  have hDrop (i : Nat) (hFirst : first ≤ i) : text[i]? = (text.drop first)[i - first]? := by
    rw [List.getElem?_drop, Nat.add_sub_cancel' hFirst]
  unfold pieceEnd nextSpace?
  cases hFind : (text.drop first).findIdx? (· = space) with
  | none =>
      have hNone := List.findIdx?_eq_none_iff.mp hFind
      refine ⟨Nat.le_refl _, fun i hFirst _ hSpace => ?_,
        fun hLast => absurd hLast (Nat.lt_irrefl _)⟩
      rw [hDrop i hFirst] at hSpace
      simpa using hNone space (List.mem_of_getElem? hSpace)
  | some ahead =>
      obtain ⟨hAhead, hSpace, hBefore⟩ := List.findIdx?_eq_some_iff_getElem.mp hFind
      have hLength := List.length_drop (i := first) (l := text)
      refine ⟨?_, fun i hFirst hLast hHere => ?_, fun _ => ?_⟩
      · change first + ahead ≤ text.length
        omega
      · change i < first + ahead at hLast
        rw [hDrop i hFirst, List.getElem?_eq_getElem (by omega), Option.some.injEq] at hHere
        exact hBefore (i - first) (by omega) (decide_eq_true hHere)
      · change text[first + ahead]? = some space
        rw [← List.getElem?_drop, List.getElem?_eq_getElem hAhead, of_decide_eq_true hSpace]

/-- A word that does not begin before a position is the piece at this position, or it begins behind
the end of that piece. -/
theorem WordAt.eq_or_lt {i j : Nat} (h : WordAt text i j) (hFirst : first ≤ i) :
    (i = first ∧ j = pieceEnd text first) ∨ pieceEnd text first < i := by
  have hNonempty := h.nonempty
  have hEnd := h.within
  obtain ⟨hWithin, hSpaceless, hCloses⟩ := @pieceEnd_spec text first (by omega)
  by_cases hBehind : pieceEnd text first < i
  · exact .inr hBehind
  have hSame : i = first := by
    by_contra hApart
    exact hSpaceless (i - 1) (by omega) (by omega) (h.opens (i - 1) (by omega))
  refine .inl ⟨hSame, Nat.le_antisymm ?_ ?_⟩
  · by_contra hLonger
    exact h.spaceless _ (by omega) (by omega) (hCloses (by omega))
  · by_contra hShorter
    exact hSpaceless j (by omega) (by omega) (h.closes (by omega))

/-- Where a piece begins, a piece that is not empty is a word. -/
theorem wordAt_pieceEnd (hFirst : first ≤ text.length)
    (hOpens : ∀ i, i + 1 = first → text[i]? = some space)
    (hNonempty : first < pieceEnd text first) :
    WordAt text first (pieceEnd text first) := by
  obtain ⟨hWithin, hSpaceless, hCloses⟩ := pieceEnd_spec hFirst
  exact ⟨hNonempty, hWithin, hSpaceless, hOpens, hCloses⟩

/-! ### What the loop appends -/

/-- From the beginning of a piece on, the loop appends a record for every word, in order. -/
theorem splitFrom_spans (text : Bytes) (first : Nat) (out : CountedWords)
    (hOpens : first ≤ text.length → ∀ i, i + 1 = first → text[i]? = some space) :
    ∃ spans : List (Nat × Nat), spans.Pairwise (fun a b => a.2 < b.1) ∧
      (∀ i j, (i, j) ∈ spans ↔ first ≤ i ∧ WordAt text i j) ∧
      splitFrom text first out = out ++ spans.map fun span => (slice text span.1 span.2, 1) := by
  fun_induction splitFrom text first out with
  | case1 first out hMore last hLast ih =>
      obtain ⟨hWithin, -, hCloses⟩ := pieceEnd_spec (Nat.le_of_lt hMore)
      obtain ⟨spans, hOrder, hSpans, hSplit⟩ := ih fun hBehind i hi => by
        obtain rfl := Nat.succ.inj hi
        exact hCloses hBehind
      simp only [dite_eq_ite] at hSplit
      rw [hSplit]
      by_cases hNonempty : first < last
      · refine ⟨(first, last) :: spans, ?_, fun i j => ?_, ?_⟩
        · exact List.pairwise_cons.mpr ⟨fun span hSpan => ((hSpans _ _).mp hSpan).1, hOrder⟩
        · rw [List.mem_cons, Prod.mk.injEq, hSpans]
          constructor
          · rintro (⟨rfl, rfl⟩ | ⟨hBehind, hWord⟩)
            · exact ⟨Nat.le_refl _,
                wordAt_pieceEnd (Nat.le_of_lt hMore) (hOpens (by omega)) hNonempty⟩
            · exact ⟨by omega, hWord⟩
          · rintro ⟨hFirst, hWord⟩
            exact (hWord.eq_or_lt hFirst).imp_right fun hBehind => ⟨hBehind, hWord⟩
        · rw [if_pos hNonempty, List.map_cons, List.append_assoc, List.singleton_append]
      · refine ⟨spans, hOrder, fun i j => ?_, by rw [if_neg hNonempty]⟩
        rw [hSpans]
        constructor
        · exact fun hWord => ⟨by omega, hWord.2⟩
        · rintro ⟨hFirst, hWord⟩
          rcases hWord.eq_or_lt hFirst with ⟨rfl, rfl⟩ | hBehind
          · exact absurd hWord.nonempty hNonempty
          · exact ⟨hBehind, hWord⟩
  | case2 first out hEnd =>
      refine ⟨[], .nil, fun i j => ⟨fun hMem => absurd hMem List.not_mem_nil, ?_⟩, by simp⟩
      rintro ⟨hFirst, hWord⟩
      have := hWord.nonempty
      have := hWord.within
      omega

/-! ### Words as pieces -/

theorem pieces_ne_nil (text : Bytes) : pieces text ≠ [] := by
  induction text with
  | nil => exact List.cons_ne_nil _ _
  | cons b rest ih =>
      rw [pieces]
      split
      · exact List.cons_ne_nil _ _
      · cases hPieces : pieces rest with
        | nil => exact absurd hPieces ih
        | cons piece more => exact List.cons_ne_nil _ _

theorem extendFirst_append (b : UInt8) {first : List Bytes} (h : first ≠ []) (more : List Bytes) :
    extendFirst b (first ++ more) = extendFirst b first ++ more := by
  cases first with
  | nil => exact absurd rfl h
  | cons piece pieces => rfl

/-- A space ends one piece and begins the next. -/
theorem pieces_append_space (before behind : Bytes) :
    pieces (before ++ space :: behind) = pieces before ++ pieces behind := by
  induction before with
  | nil => rw [List.nil_append, pieces.eq_2, if_pos rfl, pieces.eq_1, List.singleton_append]
  | cons b before ih =>
      rw [List.cons_append, pieces, pieces, ih]
      split
      · rw [List.cons_append]
      · exact extendFirst_append b (pieces_ne_nil before) (pieces behind)

/-- A text without a space is one piece. -/
theorem pieces_of_notMem (h : space ∉ text) : pieces text = [text] := by
  induction text with
  | nil => rfl
  | cons b rest ih =>
      rw [List.mem_cons, not_or] at h
      rw [pieces, if_neg (Ne.symm h.1), ih h.2, extendFirst]

/-- The pieces are the text without its spaces. -/
theorem flatten_pieces (text : Bytes) : (pieces text).flatten = text.filter (· ≠ space) := by
  induction text with
  | nil => rfl
  | cons b rest ih =>
      rw [pieces]
      split
      · rename_i hSpace
        simpa [hSpace] using ih
      · rename_i hOther
        cases hPieces : pieces rest with
        | nil => exact absurd hPieces (pieces_ne_nil rest)
        | cons piece more =>
            rw [hPieces] at ih
            simpa [extendFirst, hOther] using ih

/-- Pieces are free of spaces. -/
theorem notMem_of_mem_pieces {piece : Bytes} (h : piece ∈ pieces text) : space ∉ piece := by
  intro hSpace
  have hFlat := List.mem_flatten_of_mem h hSpace
  rw [flatten_pieces] at hFlat
  simpa using List.of_mem_filter hFlat

/-- A space keeps the words before it and behind it apart. -/
theorem wordsOf_append_space (before behind : Bytes) :
    wordsOf (before ++ space :: behind) = wordsOf before ++ wordsOf behind := by
  rw [wordsOf, pieces_append_space, List.filter_append]
  rfl

theorem wordsOf_of_notMem (h : space ∉ text) : wordsOf text = if text = [] then [] else [text] := by
  rw [wordsOf, pieces_of_notMem h]
  split
  · rename_i hNil
    rw [hNil]
    rfl
  · rename_i hNonempty
    exact List.filter_cons_of_pos (decide_eq_true hNonempty)

/-- The words are the text without its spaces. -/
theorem flatten_wordsOf (text : Bytes) : (wordsOf text).flatten = text.filter (· ≠ space) := by
  rw [← flatten_pieces, ← List.flatten_filter_ne_nil (L := pieces text)]
  rfl

/-- Spaces before a line have no part in its words. -/
theorem wordsOf_replicate_append (n : Nat) (text : Bytes) :
    wordsOf (List.replicate n space ++ text) = wordsOf text := by
  induction n with
  | zero => rfl
  | succ n ih =>
      rw [List.replicate_succ, List.cons_append, ← ih]
      exact wordsOf_append_space [] _

/-- A word with spaces behind it, or with nothing behind it, is the first word of the line. -/
theorem wordsOf_word_append {word : Bytes} (hWord : word ≠ [] ∧ space ∉ word) {gap : Nat}
    {behind : Bytes} (hGap : behind ≠ [] → 0 < gap) :
    wordsOf (word ++ List.replicate gap space ++ behind) = word :: wordsOf behind := by
  have hAlone : wordsOf word = [word] := by
    rw [wordsOf_of_notMem hWord.2, if_neg hWord.1]
  cases gap with
  | zero =>
      have hNothing : behind = [] := by
        by_contra hSome
        exact absurd (hGap hSome) (Nat.lt_irrefl 0)
      rw [hNothing, List.append_nil, List.replicate_zero, List.append_nil, hAlone]
      rfl
  | succ gap =>
      rw [List.append_assoc, List.replicate_succ, List.cons_append, wordsOf_append_space, hAlone,
        wordsOf_replicate_append]
      rfl

/-- Words can be joined by any numbers of spaces. -/
theorem wordsOf_spread (leading : Nat) {words : List (Bytes × Nat)}
    (hWords : ∀ word ∈ words, word.1 ≠ [] ∧ space ∉ word.1)
    (hGaps : ∀ word ∈ words.dropLast, 0 < word.2) :
    wordsOf (spread leading words) = words.map Prod.fst := by
  rw [spread, wordsOf_replicate_append]
  induction words with
  | nil => rfl
  | cons word words ih =>
      rw [List.forall_mem_cons] at hWords
      rw [List.flatMap_cons, wordsOf_word_append hWords.1, List.map_cons, ih hWords.2]
      · exact fun other hOther => hGaps other (List.mem_of_mem_tail (by
          cases words with
          | nil => cases hOther
          | cons next more => simpa using hOther))
      · intro hMore
        cases words with
        | nil => exact absurd rfl hMore
        | cons next more => exact hGaps word List.mem_cons_self

/-- A piece of a line is what stands up to its end, and it has no space. -/
theorem slice_append_drop (text : Bytes) (h : first ≤ last) :
    slice text first last ++ text.drop last = text.drop first := by
  have hDrop : (text.drop first).drop (last - first) = text.drop last := by
    rw [List.drop_drop, Nat.add_sub_cancel' h]
  rw [slice, ← hDrop, List.take_append_drop]

theorem notMem_slice_pieceEnd (h : first ≤ text.length) :
    space ∉ slice text first (pieceEnd text first) := by
  intro hMem
  obtain ⟨i, hi⟩ := List.mem_iff_getElem?.mp hMem
  rw [slice, List.getElem?_take] at hi
  split at hi
  · rename_i hInside
    rw [List.getElem?_drop] at hi
    exact (pieceEnd_spec h).2.1 (first + i) (Nat.le_add_right _ _) (by omega) hi
  · cases hi

theorem slice_eq_nil_iff (hLast : last ≤ text.length) :
    slice text first last = [] ↔ ¬ first < last := by
  rw [← List.length_eq_zero_iff, slice, List.length_take, List.length_drop]
  omega

/-- The words from the beginning of a piece on: the piece, and those behind its end. -/
theorem wordsOf_drop (h : first ≤ text.length) :
    wordsOf (text.drop first) =
      (if first < pieceEnd text first then [slice text first (pieceEnd text first)] else []) ++
        wordsOf (text.drop (pieceEnd text first + 1)) := by
  obtain ⟨hWithin, -, hCloses⟩ := pieceEnd_spec h
  have hPiece := wordsOf_of_notMem (notMem_slice_pieceEnd h)
  simp only [slice_eq_nil_iff hWithin, ite_not] at hPiece
  rw [← slice_append_drop text (le_pieceEnd h), ← hPiece]
  rcases Nat.lt_or_eq_of_le hWithin with hSpace | hEnd
  · have hHere : text[pieceEnd text first] = space := by
      have hSome := hCloses hSpace
      rwa [List.getElem?_eq_getElem hSpace, Option.some.injEq] at hSome
    rw [List.drop_eq_getElem_cons hSpace, hHere, wordsOf_append_space]
  · rw [hEnd, List.drop_length, List.drop_of_length_le (Nat.le_succ _), List.append_nil]
    exact (List.append_nil _).symm

/-- The loop appends the words of what is left of the line. -/
theorem splitFrom_eq (line : Bytes) (first : Nat) (out : CountedWords) :
    splitFrom line first out = out ++ (wordsOf (line.drop first)).map fun word => (word, 1) := by
  fun_induction splitFrom line first out with
  | case1 first out hMore last hLast ih =>
      simp only [dite_eq_ite] at ih
      rw [ih, wordsOf_drop (Nat.le_of_lt hMore), List.map_append, ← List.append_assoc]
      refine congrArg (· ++ _) ?_
      by_cases hNonempty : first < last
      · rw [if_pos hNonempty, if_pos hNonempty]
        rfl
      · rw [if_neg hNonempty, if_neg hNonempty]
        exact (List.append_nil out).symm
  | case2 first out hEnd =>
      rw [List.drop_of_length_le (Nat.le_of_not_lt hEnd)]
      exact (List.append_nil out).symm

/-- The loop appends the words of the line, each with count one. -/
theorem splitWords_eq (line : Bytes) (out : CountedWords) :
    splitWords line out = out ++ (wordsOf line).map fun word => (word, 1) :=
  splitFrom_eq line 0 out

theorem countedWords_eq (line : Bytes) :
    countedWords line = (wordsOf line).map fun word => (word, 1) :=
  splitWords_eq line []

/-- Lines can be split one after the other into the same list. -/
theorem foldl_splitWords (lines : List Bytes) (out : CountedWords) :
    lines.foldl (fun out line => splitWords line out) out = out ++ lines.flatMap countedWords := by
  induction lines generalizing out with
  | nil => exact (List.append_nil out).symm
  | cons line lines ih =>
      rw [List.foldl_cons, ih, splitWords_eq, ← countedWords_eq, List.append_assoc,
        List.flatMap_cons]

/-- A line is split at its spaces and nowhere else. The records appended to the list are those of
its longest stretches without spaces, from left to right, and each counts one occurrence. So no word
is empty or holds a space, and all words together are the line without its spaces. Words that were
joined by spaces are found again, whatever the numbers of spaces, and a line with a space in it is
split by splitting what stands before the space and then what stands behind it. -/
theorem split_at_spaces (line : Bytes) (out : CountedWords) :
    (∃ spans : List (Nat × Nat), spans.Pairwise (fun a b => a.2 < b.1) ∧
      (∀ first last, (first, last) ∈ spans ↔ WordAt line first last) ∧
      splitWords line out = out ++ spans.map fun span => (slice line span.1 span.2, 1)) ∧
    ∃ words : List Bytes, splitWords line out = out ++ words.map (fun word => (word, 1)) ∧
      (∀ word ∈ words, word ≠ [] ∧ space ∉ word) ∧
      words.flatten = line.filter (· ≠ space) ∧
      (∀ leading joined, line = spread leading joined →
        (∀ word ∈ joined, word.1 ≠ [] ∧ space ∉ word.1) → (∀ word ∈ joined.dropLast, 0 < word.2) →
        words = joined.map Prod.fst) ∧
      ∀ before behind, line = before ++ space :: behind →
        splitWords line out = out ++ (splitWords before [] ++ splitWords behind []) := by
  constructor
  · obtain ⟨spans, hOrder, hSpans, hSplit⟩ := splitFrom_spans line 0 out fun _ i hi => by cases hi
    refine ⟨spans, hOrder, fun first last => ?_, hSplit⟩
    rw [hSpans]
    exact and_iff_right (Nat.zero_le first)
  · refine ⟨wordsOf line, splitWords_eq line out, fun word hWord => ?_, flatten_wordsOf line,
      ?_, ?_⟩
    · obtain ⟨hPiece, hNonempty⟩ := List.mem_filter.mp hWord
      exact ⟨of_decide_eq_true hNonempty, notMem_of_mem_pieces hPiece⟩
    · rintro leading joined rfl hWords hGaps
      exact wordsOf_spread leading hWords hGaps
    · rintro before behind rfl
      rw [splitWords_eq, splitWords_eq, splitWords_eq, wordsOf_append_space, List.map_append]
      rfl

/-- Two words with spaces before, between and behind them, for a list that is not empty. -/
theorem split_at_spaces_gaps :
    splitWords (Bytes.ascii "  ab  c ") [(Bytes.ascii "x", 7)] =
      [(Bytes.ascii "x", 7), (Bytes.ascii "ab", 1), (Bytes.ascii "c", 1)] := by
  obtain ⟨words, hSplit, -, -, hJoined, -⟩ :=
    (split_at_spaces (Bytes.ascii "  ab  c ") [(Bytes.ascii "x", 7)]).2
  have hWords := hJoined 2 [(Bytes.ascii "ab", 2), (Bytes.ascii "c", 1)] (by decide) (by decide)
    (by decide)
  rw [hSplit, hWords]
  rfl

end Dataflow.WordCount
