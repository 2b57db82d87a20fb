import Dataflow.Proofs.Config.Token
import Mathlib.Data.List.Induction

/-! Command lines as sequences of tokens. A command line is accepted exactly if it is one, and what
comes of it is read off the tokens. Otherwise the first place where no token begins decides on the
error. -/
namespace Dataflow.Config

/-- The arguments are these tokens, one after the other. -/
structure Reading (collect : Bool) (arguments : List Bytes) (tokens : List Token) : Prop where
  spelled : arguments = tokens.flatMap Token.spelled
  accepted : ∀ token ∈ tokens, token.Accepted collect

/-- Behind these tokens the arguments go on in a way that offends. -/
structure Breaking (collect : Bool) (arguments : List Bytes) (tokens : List Token)
    (error : ArgumentError) : Prop where
  spelled : ∃ bad, Offends collect bad error ∧ arguments = tokens.flatMap Token.spelled ++ bad
  accepted : ∀ token ∈ tokens, token.Accepted collect

def others (tokens : List Token) : List Bytes := tokens.filterMap Token.other?

def known (tokens : List Token) : List Token := tokens.filter fun token => token.other?.isNone

def summary (tokens : List Token) : Config where
  workers := (tokens.filterMap Token.workers?).getLast?.getD 1
  level := (tokens.filterMap Token.level?).getLast?.getD .off
  capacity := (tokens.filterMap Token.capacity?).getLast?.getD FanOut.defaultCapacity
  trace := decide (.trace ∈ tokens)

theorem summary_concat (tokens : List Token) (token : Token) :
    summary (tokens ++ [token]) = token.apply (summary tokens) := by
  cases token <;>
    simp [summary, Token.apply, Token.workers?, Token.level?, Token.capacity?]

/-- Settings made one after the other are those that the last of each kind makes. -/
theorem foldl_apply (tokens : List Token) : tokens.foldl Token.apply {} = summary tokens := by
  induction tokens using List.reverseRecOn with
  | nil => rfl
  | append_singleton tokens token ih =>
      rw [List.foldl_append, ih, summary_concat]
      rfl

/-- Accepted tokens are read one after the other, and reading goes on behind them. -/
theorem parseFrom_tokens {collect : Bool} {tokens : List Token}
    (h : ∀ token ∈ tokens, token.Accepted collect) (more : List Bytes) (config : Config)
    (rest : List Bytes) :
    parseFrom collect (tokens.flatMap Token.spelled ++ more) config rest =
      parseFrom collect more (tokens.foldl Token.apply config) (rest ++ others tokens) := by
  induction tokens generalizing config rest with
  | nil => simp [others]
  | cons token tokens ih =>
      obtain ⟨hToken, hTokens⟩ := List.forall_mem_cons.mp h
      have hOthers : others (token :: tokens) = token.other?.toList ++ others tokens := by
        cases hOther : token.other? <;> simp [others, hOther]
      rw [List.flatMap_cons, List.append_assoc, parseFrom_spelled hToken, ih hTokens,
        List.foldl_cons, hOthers, List.append_assoc]

theorem parse_tokens {collect : Bool} {tokens : List Token}
    (h : ∀ token ∈ tokens, token.Accepted collect) (more : List Bytes) :
    parse collect (tokens.flatMap Token.spelled ++ more) =
      parseFrom collect more (summary tokens) (others tokens) := by
  rw [parse, parseFrom_tokens h, foldl_apply, List.nil_append]

/-- Arguments that can be read to their end give the summary of what they say. -/
theorem Reading.parse_eq {collect : Bool} {arguments : List Bytes} {tokens : List Token}
    (h : Reading collect arguments tokens) :
    parse collect arguments = ⟨.ok (summary tokens), others tokens⟩ := by
  have hParse := parse_tokens h.accepted []
  rwa [List.append_nil, ← h.spelled] at hParse

/-- Arguments that break off at an offence give its error, and the rest so far. -/
theorem Breaking.parse_eq {collect : Bool} {arguments : List Bytes} {tokens : List Token}
    {error : ArgumentError} (h : Breaking collect arguments tokens error) :
    parse collect arguments = ⟨.error error, others tokens⟩ := by
  obtain ⟨bad, hOffends, rfl⟩ := h.spelled
  rw [parse_tokens h.accepted, parseFrom_offends hOffends]

/-- Every command line is read to its end or breaks off somewhere. -/
theorem reading_or_breaking (collect : Bool) (arguments : List Bytes) :
    (∃ tokens, Reading collect arguments tokens) ∨
      ∃ tokens error, Breaking collect arguments tokens error := by
  induction hLength : arguments.length using Nat.strongRecOn generalizing arguments with
  | ind length ih =>
      cases arguments with
      | nil => exact .inl ⟨[], rfl, fun token hToken => absurd hToken List.not_mem_nil⟩
      | cons argument more =>
          rcases accepted_or_offends collect argument more with
            ⟨token, later, hToken, hSpelled⟩ | ⟨error, hOffends⟩
          · have hShorter : later.length < length := by
              have hPositive := token.length_spelled_pos
              rw [← hLength, hSpelled, List.length_append]
              omega
            rcases ih _ hShorter later rfl with ⟨tokens, hTokens⟩ | ⟨tokens, error, hTokens⟩
            · refine .inl ⟨token :: tokens, ?_, List.forall_mem_cons.mpr ⟨hToken, hTokens.accepted⟩⟩
              rw [hSpelled, List.flatMap_cons, ← hTokens.spelled]
            · obtain ⟨bad, hOffends, hLater⟩ := hTokens.spelled
              refine .inr ⟨token :: tokens, error, ⟨bad, hOffends, ?_⟩,
                List.forall_mem_cons.mpr ⟨hToken, hTokens.accepted⟩⟩
              rw [hSpelled, List.flatMap_cons, List.append_assoc, ← hLater]
          · exact .inr ⟨[], error, ⟨_, hOffends, rfl⟩,
              fun token hToken => absurd hToken List.not_mem_nil⟩

/-- Parsing succeeds exactly on the arguments that can be read to their end. -/
theorem parse_eq_ok_iff {collect : Bool} {arguments rest : List Bytes} {config : Config} :
    parse collect arguments = ⟨.ok config, rest⟩ ↔
      ∃ tokens, Reading collect arguments tokens ∧ config = summary tokens ∧
        rest = others tokens := by
  constructor
  · intro h
    rcases reading_or_breaking collect arguments with ⟨tokens, hTokens⟩ | ⟨tokens, error, hTokens⟩
    · rw [hTokens.parse_eq] at h
      cases h
      exact ⟨tokens, hTokens, rfl, rfl⟩
    · rw [hTokens.parse_eq] at h
      cases h
  · rintro ⟨tokens, hTokens, rfl, rfl⟩
    exact hTokens.parse_eq

/-- Parsing fails exactly on the arguments that break off. -/
theorem parse_eq_error_iff {collect : Bool} {arguments rest : List Bytes} {error : ArgumentError} :
    parse collect arguments = ⟨.error error, rest⟩ ↔
      ∃ tokens, Breaking collect arguments tokens error ∧ rest = others tokens := by
  constructor
  · intro h
    rcases reading_or_breaking collect arguments with ⟨tokens, hTokens⟩ | ⟨tokens, other, hTokens⟩
    · rw [hTokens.parse_eq] at h
      cases h
    · rw [hTokens.parse_eq] at h
      cases h
      exact ⟨tokens, hTokens, rfl⟩
  · rintro ⟨tokens, hTokens, rfl⟩
    exact hTokens.parse_eq

/-- No arguments say nothing. -/
theorem Reading.nil_iff {collect : Bool} {tokens : List Token} :
    Reading collect [] tokens ↔ tokens = [] := by
  constructor
  · intro h
    cases tokens with
    | nil => rfl
    | cons token tokens =>
        have hLength := congrArg List.length h.spelled
        rw [List.flatMap_cons, List.length_append, List.length_nil] at hLength
        have hPositive := token.length_spelled_pos
        omega
  · rintro rfl
    exact ⟨rfl, fun token hToken => absurd hToken List.not_mem_nil⟩

theorem Reading.tail {collect : Bool} {arguments : List Bytes} {token : Token}
    {tokens : List Token} (h : Reading collect arguments (token :: tokens)) :
    Reading collect (tokens.flatMap Token.spelled) tokens :=
  ⟨rfl, fun other hOther => h.accepted other (List.mem_cons_of_mem _ hOther)⟩

/-- There is only one way to read a command line. -/
theorem Reading.unique {collect : Bool} {arguments : List Bytes} {first second : List Token}
    (hFirst : Reading collect arguments first) (hSecond : Reading collect arguments second) :
    first = second := by
  induction first generalizing arguments second with
  | nil =>
      rw [hFirst.spelled] at hSecond
      exact (nil_iff.mp hSecond).symm
  | cons token tokens ih =>
      cases second with
      | nil =>
          rw [hSecond.spelled] at hFirst
          exact nil_iff.mp hFirst
      | cons other others =>
          have hSame := hFirst.spelled.symm.trans hSecond.spelled
          rw [List.flatMap_cons, List.flatMap_cons] at hSame
          obtain ⟨rfl, hMore⟩ := (hFirst.accepted token List.mem_cons_self).eq_of_spelled_append
            (hSecond.accepted other List.mem_cons_self) hSame
          rw [ih hFirst.tail (hMore ▸ hSecond.tail)]

/-- Other arguments have no part in the settings. -/
theorem summary_known (tokens : List Token) : summary (known tokens) = summary tokens := by
  induction tokens using List.reverseRecOn with
  | nil => rfl
  | append_singleton tokens token ih =>
      rw [summary_concat, ← ih, known, List.filter_append]
      cases hOther : token.other? with
      | none => simp [hOther, ← summary_concat, known]
      | some argument =>
          rw [Token.eq_other_of_other? hOther]
          simp [Token.other?, Token.apply, known]

theorem others_known (tokens : List Token) : others (known tokens) = [] := by
  simp [others, known, List.filterMap_eq_nil_iff]

/-- Without the arguments left to the caller nothing remains that need not be accepted. -/
theorem Reading.known {collect : Bool} {arguments : List Bytes} {tokens : List Token}
    (h : Reading collect arguments tokens) (collect' : Bool) :
    Reading collect' ((known tokens).flatMap Token.spelled) (known tokens) where
  spelled := rfl
  accepted := by
    intro token hToken
    obtain ⟨hMem, hKnown⟩ := List.mem_filter.mp hToken
    exact (h.accepted token hMem).of_other?_eq_none (Option.isNone_iff_eq_none.mp hKnown) collect'

/-- What was left over can be read again, as nothing but left-overs. -/
theorem Reading.others {collect : Bool} {arguments : List Bytes} {tokens : List Token}
    (h : Reading collect arguments tokens) :
    Reading collect (others tokens) ((others tokens).map Token.other) where
  spelled := by
    rw [List.flatMap_map]
    exact List.flatMap_singleton' _ |>.symm
  accepted := by
    intro token hToken
    obtain ⟨argument, hArgument, rfl⟩ := List.mem_map.mp hToken
    obtain ⟨left, hLeft, hOther⟩ := List.mem_filterMap.mp hArgument
    rw [← Token.eq_other_of_other? hOther]
    exact h.accepted left hLeft

theorem summary_map_other (arguments : List Bytes) : summary (arguments.map Token.other) = {} := by
  induction arguments using List.reverseRecOn with
  | nil => rfl
  | append_singleton arguments argument ih =>
      rw [List.map_append, List.map_singleton, summary_concat, ih]
      rfl

theorem others_map_other (arguments : List Bytes) :
    Config.others (arguments.map Token.other) = arguments := by
  simp [Config.others, List.filterMap_map, Function.comp_def, Token.other?]

/-- What the parser makes of the arguments behind the name of the program. It succeeds exactly on
tokens, of which there is then one reading, and otherwise stops where they break off. Where it
succeeds and collects, the collected arguments can be taken away without a change, and by
themselves they say nothing. -/
theorem parse_by_tokens (argv : List Bytes) :
    (∀ collect config rest, parse collect argv.tail = ⟨.ok config, rest⟩ ↔
      ∃ tokens, Reading collect argv.tail tokens ∧ config = summary tokens ∧
        rest = others tokens) ∧
    (∀ collect error rest, parse collect argv.tail = ⟨.error error, rest⟩ ↔
      ∃ tokens, Breaking collect argv.tail tokens error ∧ rest = others tokens) ∧
    (∀ collect first second, Reading collect argv.tail first →
      Reading collect argv.tail second → first = second) ∧
    ∀ config rest, parse true argv.tail = ⟨.ok config, rest⟩ →
      (∀ tokens, Reading true argv.tail tokens →
        parse false ((known tokens).flatMap Token.spelled) = ⟨.ok config, []⟩) ∧
      parse true rest = ⟨.ok {}, rest⟩ := by
  refine ⟨fun _ _ _ => parse_eq_ok_iff, fun _ _ _ => parse_eq_error_iff,
    fun _ _ _ => Reading.unique, ?_⟩
  intro config rest hParse
  obtain ⟨tokens, hTokens, rfl, rfl⟩ := parse_eq_ok_iff.mp hParse
  constructor
  · intro other hOther
    obtain rfl := hTokens.unique hOther
    rw [(hTokens.known false).parse_eq, summary_known, others_known]
  · rw [hTokens.others.parse_eq, summary_map_other, others_map_other]

/-- A flag given twice, once with leading zeros, and two arguments that are no flags. -/
def mixedLine : List Bytes :=
  [Bytes.ascii "run", Bytes.ascii "--workers", Bytes.ascii "007", Bytes.ascii "--epochs",
    Bytes.ascii "--trace-messages", Bytes.ascii "-w", Bytes.ascii "--workers", Bytes.ascii "3"]

theorem parse_by_tokens_mixedLine :
    parse false [Bytes.ascii "--workers", Bytes.ascii "007", Bytes.ascii "--trace-messages",
      Bytes.ascii "--workers", Bytes.ascii "3"] = ⟨.ok { workers := 3, trace := true }, []⟩ ∧
    parse true [Bytes.ascii "--epochs", Bytes.ascii "-w"] =
      ⟨.ok {}, [Bytes.ascii "--epochs", Bytes.ascii "-w"]⟩ := by
  have hParse : parse true mixedLine.tail =
      ⟨.ok { workers := 3, trace := true }, [Bytes.ascii "--epochs", Bytes.ascii "-w"]⟩ := rfl
  have hSeven : Decimal.Spells (Bytes.ascii "007") 7 :=
    Decimal.read?_eq_some_iff_spells.mp (by decide)
  have hThree : Decimal.Spells (Bytes.ascii "3") 3 :=
    Decimal.read?_eq_some_iff_spells.mp (by decide)
  have hEpochs (flag : Flag) : Bytes.ascii "--epochs" ≠ flag.spelling := by cases flag <;> decide
  have hShort (flag : Flag) : Bytes.ascii "-w" ≠ flag.spelling := by cases flag <;> decide
  have hReading : Reading true mixedLine.tail [.workers (Bytes.ascii "007"),
      .other (Bytes.ascii "--epochs"), .trace, .other (Bytes.ascii "-w"),
      .workers (Bytes.ascii "3")] := by
    refine ⟨rfl, ?_⟩
    simp only [List.forall_mem_cons, Token.Accepted]
    exact ⟨⟨7, hSeven, by decide⟩, ⟨trivial, hEpochs⟩, trivial, ⟨trivial, hShort⟩,
      ⟨3, hThree, by decide⟩, fun token hToken => absurd hToken List.not_mem_nil⟩
  obtain ⟨hKnown, hOthers⟩ := (parse_by_tokens mixedLine).2.2.2 _ _ hParse
  exact ⟨hKnown _ hReading, hOthers⟩

end Dataflow.Config
