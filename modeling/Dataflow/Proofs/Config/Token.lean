import Dataflow.Config
import Dataflow.Proofs.Decimal.Scan
import Mathlib.Algebra.Group.Nat.Defs

/-! The tokens of a command line: a flag with its value, a flag alone, or an argument that is left to
the caller. A list of arguments begins with a token, or it offends in exactly one way, and the error
is the one that the parser stops with. -/
namespace Dataflow

/-- A non-empty string of digits with the value `n`, which a word can hold. -/
def Decimal.Spells (text : Bytes) (n : Nat) : Prop :=
  text ≠ [] ∧ (∀ b ∈ text, isDigit b = true) ∧ value text = n ∧ n ≤ 2 ^ 64 - 1

theorem Decimal.read?_eq_some_iff_spells {text : Bytes} {n : Nat} :
    read? text = some n ↔ Spells text n := by
  have hBound : n < bound ↔ n ≤ 2 ^ 64 - 1 := Nat.lt_iff_le_pred (by decide)
  rw [read?_eq_some_iff, List.all_eq_true, Spells, hBound]

theorem Decimal.Spells.value_eq {text : Bytes} {n : Nat} (h : Spells text n) : value text = n :=
  h.2.2.1

/-- A size is read from the numerals that spell it, and from nothing else. -/
theorem readSize_eq_ok_iff_spells {flag text : Bytes} {n : Nat} :
    readSize flag text = .ok n ↔ Decimal.Spells text n := by
  rw [← Decimal.read?_eq_some_iff_spells, readSize]
  cases Decimal.read? text <;> simp

/-- The error names the flag and quotes the text. -/
theorem readSize_of_bad {flag text : Bytes} (h : ∀ n, ¬ Decimal.Spells text n) :
    readSize flag text = .error (.badNumber flag text) := by
  cases hRead : readSize flag text with
  | ok n => exact absurd (readSize_eq_ok_iff_spells.mp hRead) (h n)
  | error error =>
      rw [readSize] at hRead
      split at hRead
      · cases hRead
      · exact hRead.symm

def Level.names : List (Bytes × Level) :=
  [(Bytes.ascii "error", error), (Bytes.ascii "warn", warn), (Bytes.ascii "info", info),
    (Bytes.ascii "debug", debug), (Bytes.ascii "trace", trace), (Bytes.ascii "off", off)]

/-- The names of the levels are those of the table. -/
theorem Level.ofName?_eq_lookup (name : Bytes) : ofName? name = names.lookup name := by
  have hCons (known : Bytes) (level : Level) (more : List (Bytes × Level)) :
      ((known, level) :: more).lookup name =
        if name = known then some level else more.lookup name := by
    rw [List.lookup_cons]
    split <;> simp_all
  simp only [ofName?, names, hCons, List.lookup_nil]

theorem Level.mem_names_iff {name : Bytes} :
    name ∈ names.map Prod.fst ↔ ∃ level, ofName? name = some level := by
  rw [ofName?_eq_lookup, ← Option.isSome_iff_exists, List.lookup_isSome_iff, List.mem_map]
  constructor
  · rintro ⟨entry, hEntry, rfl⟩
    exact ⟨entry, hEntry, beq_self_eq_true _⟩
  · rintro ⟨entry, hEntry, hName⟩
    exact ⟨entry, hEntry, (beq_iff_eq.mp hName).symm⟩

namespace Flag

/-- How a flag is spelled on a command line. -/
def spelling : Flag → Bytes
  | workers => Bytes.ascii "--workers"
  | exchangeCapacity => Bytes.ascii "--exchange-capacity"
  | logLevel => Bytes.ascii "--log-level"
  | traceMessages => Bytes.ascii "--trace-messages"

/-- The parser knows every flag under its spelling. -/
theorem name_eq_spelling (flag : Flag) : flag.name = flag.spelling := by
  cases flag <;> rfl

/-- Every flag is recognised by its spelling. -/
theorem ofName?_spelling (flag : Flag) : ofName? flag.spelling = some flag := by
  cases flag <;> decide

/-- A flag is recognised by nothing but its spelling. -/
theorem eq_spelling_of_ofName? {flag : Flag} {argument : Bytes}
    (h : ofName? argument = some flag) : argument = flag.spelling := by
  have hName : flag.name = argument := by simpa using List.find?_some h
  rw [← hName, name_eq_spelling]

/-- What spells no flag is none. -/
theorem ofName?_eq_none {argument : Bytes} (h : ∀ flag : Flag, argument ≠ flag.spelling) :
    ofName? argument = none := by
  cases hFlag : ofName? argument with
  | none => rfl
  | some flag => exact absurd (eq_spelling_of_ofName? hFlag) (h flag)

theorem ne_spelling_of_ofName? {argument : Bytes} (h : ofName? argument = none) (flag : Flag) :
    argument ≠ flag.spelling := by
  intro hSpelling
  rw [hSpelling, ofName?_spelling] at h
  cases h

end Flag

inductive Token where
  | workers (numeral : Bytes)
  | capacity (numeral : Bytes)
  | level (name : Bytes)
  | trace
  /-- An argument that is none of the flags. -/
  | other (argument : Bytes)
  deriving DecidableEq

namespace Token

def spelled : Token → List Bytes
  | workers numeral => [Flag.workers.spelling, numeral]
  | capacity numeral => [Flag.exchangeCapacity.spelling, numeral]
  | level name => [Flag.logLevel.spelling, name]
  | trace => [Flag.traceMessages.spelling]
  | other argument => [argument]

/-- Every token takes up an argument. -/
theorem length_spelled_pos (token : Token) : 0 < token.spelled.length := by
  cases token <;> exact Nat.succ_pos _

/-- Whether a token may stand on a command line. Other arguments may only if they are collected. -/
def Accepted (collect : Bool) : Token → Prop
  | workers numeral => ∃ n, Decimal.Spells numeral n ∧ 1 ≤ n
  | capacity numeral => ∃ n, Decimal.Spells numeral n ∧ 1 ≤ n
  | level name => name ∈ Level.names.map Prod.fst
  | trace => True
  | other argument => collect = true ∧ ∀ flag : Flag, argument ≠ flag.spelling

def workers? : Token → Option Nat
  | workers numeral => some (Decimal.value numeral)
  | capacity _ | level _ | trace | other _ => none

def capacity? : Token → Option Nat
  | capacity numeral => some (Decimal.value numeral)
  | workers _ | level _ | trace | other _ => none

def level? : Token → Option Level
  | level name => Level.names.lookup name
  | workers _ | capacity _ | trace | other _ => none

def other? : Token → Option Bytes
  | other argument => some argument
  | workers _ | capacity _ | level _ | trace => none

def flag? : Token → Option Flag
  | workers _ => some .workers
  | capacity _ => some .exchangeCapacity
  | level _ => some .logLevel
  | trace => some .traceMessages
  | other _ => none

/-- The first argument of an accepted token tells which kind of token it is. -/
theorem Accepted.ofName?_head {collect : Bool} {token : Token} (h : token.Accepted collect)
    (more : List Bytes) : (token.spelled ++ more).head?.bind Flag.ofName? = token.flag? := by
  cases token with
  | other argument => exact Flag.ofName?_eq_none h.2
  | workers _ | capacity _ | level _ | trace => exact Flag.ofName?_spelling _

/-- Two ways to read a list of arguments begin with the same token. -/
theorem Accepted.eq_of_spelled_append {collect : Bool} {token other : Token}
    (h : token.Accepted collect) (hOther : other.Accepted collect) {more later : List Bytes}
    (hSame : token.spelled ++ more = other.spelled ++ later) : token = other ∧ more = later := by
  have hFlag : token.flag? = other.flag? := by
    rw [← h.ofName?_head more, hSame, hOther.ofName?_head later]
  cases token <;> cases other <;> simp_all [spelled, flag?]

theorem Accepted.of_other?_eq_none {collect : Bool} {token : Token} (h : token.Accepted collect)
    (hKnown : token.other? = none) (collect' : Bool) : token.Accepted collect' := by
  cases token with
  | other argument => cases hKnown
  | workers _ | capacity _ | level _ | trace => exact h

theorem eq_other_of_other? {token : Token} {argument : Bytes} (h : token.other? = some argument) :
    token = other argument := by
  cases token with
  | other _ => exact congrArg other (Option.some.inj h)
  | workers _ | capacity _ | level _ | trace => cases h

/-- The configuration after an accepted token. -/
def apply (config : Config) : Token → Config
  | workers numeral => { config with workers := Decimal.value numeral }
  | capacity numeral => { config with capacity := Decimal.value numeral }
  | level name => { config with level := (Level.names.lookup name).getD config.level }
  | trace => { config with trace := true }
  | other _ => config

end Token

namespace Config

/-- Arguments that begin with no token, and what is wrong with them. -/
inductive Offends (collect : Bool) : List Bytes → ArgumentError → Prop
  | missingValue (flag : Flag) (hValue : flag ≠ .traceMessages) :
      Offends collect [flag.spelling] (.missingValue flag)
  | badNumber (flag : Flag) (hNumber : flag = .workers ∨ flag = .exchangeCapacity)
      (value : Bytes) (more : List Bytes) (hBad : ∀ n, ¬ Decimal.Spells value n) :
      Offends collect (flag.spelling :: value :: more) (.badNumber flag.spelling value)
  | notPositive (flag : Flag) (hNumber : flag = .workers ∨ flag = .exchangeCapacity)
      (value : Bytes) (more : List Bytes) (hZero : Decimal.Spells value 0) :
      Offends collect (flag.spelling :: value :: more) (.notPositive flag)
  | unknownLevel (name : Bytes) (more : List Bytes) (hBad : name ∉ Level.names.map Prod.fst) :
      Offends collect (Flag.logLevel.spelling :: name :: more) (.unknownLevel name)
  | unknownArgument (argument : Bytes) (more : List Bytes) (hCollect : collect = false)
      (hBad : ∀ flag : Flag, argument ≠ flag.spelling) :
      Offends collect (argument :: more) (.unknownArgument argument)

/-- A number from one on is accepted. -/
theorem readPositive_of_spells (flag : Flag) {value : Bytes} {n : Nat}
    (h : Decimal.Spells value n) (hPositive : 1 ≤ n) : readPositive flag value = .ok n := by
  rw [readPositive, readSize_eq_ok_iff_spells.mpr h]
  exact if_neg (Nat.ne_of_gt hPositive)

/-- Zero is refused with an error of its own. -/
theorem readPositive_of_zero (flag : Flag) {value : Bytes} (h : Decimal.Spells value 0) :
    readPositive flag value = .error (.notPositive flag) := by
  rw [readPositive, readSize_eq_ok_iff_spells.mpr h]
  rfl

theorem readPositive_of_bad (flag : Flag) {value : Bytes} (h : ∀ n, ¬ Decimal.Spells value n) :
    readPositive flag value = .error (.badNumber flag.spelling value) := by
  rw [readPositive, readSize_of_bad h, Flag.name_eq_spelling]

/-- A flag that takes a value is read together with the next argument. -/
theorem parseFrom_flag (collect : Bool) {flag : Flag} (hFlag : flag ≠ .traceMessages)
    (arguments : List Bytes) (config : Config) (rest : List Bytes) :
    parseFrom collect (flag.spelling :: arguments) config rest =
      match arguments with
      | [] => ⟨.error (.missingValue flag), rest⟩
      | value :: more =>
        match config.set flag value with
        | .ok config => parseFrom collect more config rest
        | .error error => ⟨.error error, rest⟩ := by
  rw [parseFrom, Flag.ofName?_spelling]
  cases flag with
  | traceMessages => exact absurd rfl hFlag
  | workers | logLevel | exchangeCapacity => rfl

/-- A token with a value is read whole if the flag accepts the value. -/
theorem parseFrom_set {collect : Bool} {flag : Flag} (hFlag : flag ≠ .traceMessages)
    {token : Token} {value : Bytes} (hSpelled : token.spelled = [flag.spelling, value])
    (hKnown : token.other? = none) {config : Config}
    (hSet : config.set flag value = .ok (token.apply config)) (more rest : List Bytes) :
    parseFrom collect (token.spelled ++ more) config rest =
      parseFrom collect more (token.apply config) (rest ++ token.other?.toList) := by
  rw [hSpelled, hKnown, Option.toList_none, List.append_nil, List.cons_append,
    List.singleton_append, parseFrom_flag collect hFlag]
  simp only [hSet]

/-- A value that is refused ends the reading, and what stands behind it is not looked at. -/
theorem parseFrom_refused {collect : Bool} {flag : Flag} (hFlag : flag ≠ .traceMessages)
    {value : Bytes} {config : Config} {error : ArgumentError}
    (hSet : config.set flag value = .error error) (more rest : List Bytes) :
    parseFrom collect (flag.spelling :: value :: more) config rest = ⟨.error error, rest⟩ := by
  rw [parseFrom_flag collect hFlag]
  simp only [hSet]

theorem set_refused_number (config : Config) {flag : Flag}
    (hNumber : flag = .workers ∨ flag = .exchangeCapacity) {value : Bytes} {error : ArgumentError}
    (h : readPositive flag value = .error error) : config.set flag value = .error error := by
  rcases hNumber with rfl | rfl <;> simp only [set, h, Except.map]

/-- A level of another name is refused by that name. -/
theorem set_unknown_level (config : Config) {name : Bytes}
    (h : name ∉ Level.names.map Prod.fst) :
    config.set .logLevel name = .error (.unknownLevel name) := by
  have hName : Level.ofName? name = none := by
    rw [Option.eq_none_iff_forall_ne_some]
    exact fun level hLevel => h (Level.mem_names_iff.mpr ⟨level, hLevel⟩)
  simp only [set, Level.read, hName, Except.map]

/-- An accepted token is read whole, whatever stands behind it. -/
theorem parseFrom_spelled {collect : Bool} {token : Token} (h : token.Accepted collect)
    (more : List Bytes) (config : Config) (rest : List Bytes) :
    parseFrom collect (token.spelled ++ more) config rest =
      parseFrom collect more (token.apply config) (rest ++ token.other?.toList) := by
  cases token with
  | workers numeral =>
      obtain ⟨n, hSpells, hPositive⟩ := h
      refine parseFrom_set (by decide : Flag.workers ≠ .traceMessages) rfl rfl ?_ more rest
      simp only [set, readPositive_of_spells .workers hSpells hPositive, Except.map, Token.apply,
        hSpells.value_eq]
  | capacity numeral =>
      obtain ⟨n, hSpells, hPositive⟩ := h
      refine parseFrom_set (by decide : Flag.exchangeCapacity ≠ .traceMessages) rfl rfl ?_ more rest
      simp only [set, readPositive_of_spells .exchangeCapacity hSpells hPositive, Except.map,
        Token.apply, hSpells.value_eq]
  | level name =>
      obtain ⟨level, hLevel⟩ := Level.mem_names_iff.mp h
      refine parseFrom_set (by decide : Flag.logLevel ≠ .traceMessages) rfl rfl ?_ more rest
      simp only [set, Level.read, hLevel, Except.map, Token.apply, ← Level.ofName?_eq_lookup,
        Option.getD_some]
  | trace =>
      rw [Token.spelled, List.singleton_append, parseFrom, Flag.ofName?_spelling, Token.other?,
        Option.toList_none, List.append_nil, Token.apply]
  | other argument =>
      obtain ⟨rfl, hOther⟩ := h
      simp only [Token.spelled, List.singleton_append, parseFrom, Flag.ofName?_eq_none hOther,
        if_true, Token.other?, Option.toList_some, Token.apply]

/-- Arguments that offend are given up at once. -/
theorem parseFrom_offends {collect : Bool} {arguments : List Bytes} {error : ArgumentError}
    (h : Offends collect arguments error) (config : Config) (rest : List Bytes) :
    parseFrom collect arguments config rest = ⟨.error error, rest⟩ := by
  have hTakes {flag : Flag} (hNumber : flag = .workers ∨ flag = .exchangeCapacity) :
      flag ≠ .traceMessages := by
    rcases hNumber with rfl | rfl <;> decide
  cases h with
  | missingValue flag hValue => rw [parseFrom_flag collect hValue]
  | badNumber flag hNumber value more hBad =>
      exact parseFrom_refused (hTakes hNumber)
        (set_refused_number config hNumber (readPositive_of_bad flag hBad)) more rest
  | notPositive flag hNumber value more hZero =>
      exact parseFrom_refused (hTakes hNumber)
        (set_refused_number config hNumber (readPositive_of_zero flag hZero)) more rest
  | unknownLevel name more hBad =>
      exact parseFrom_refused (by decide) (set_unknown_level config hBad) more rest
  | unknownArgument argument more hCollect hBad =>
      simp only [parseFrom, Flag.ofName?_eq_none hBad, hCollect]
      rfl

/-- A value for a flag that takes a number is one that is accepted, or it offends. -/
theorem number_or_offends (collect : Bool) {flag : Flag}
    (hNumber : flag = .workers ∨ flag = .exchangeCapacity) (value : Bytes) (more : List Bytes) :
    (∃ n, Decimal.Spells value n ∧ 1 ≤ n) ∨
      ∃ error, Offends collect (flag.spelling :: value :: more) error := by
  by_cases h : ∃ n, Decimal.Spells value n
  · obtain ⟨n, hSpells⟩ := h
    cases n with
    | zero => exact .inr ⟨_, .notPositive flag hNumber value more hSpells⟩
    | succ n => exact .inl ⟨n + 1, hSpells, Nat.le_add_left 1 n⟩
  · exact .inr ⟨_, .badNumber flag hNumber value more (not_exists.mp h)⟩

/-- What a list of arguments can begin with. -/
theorem accepted_or_offends (collect : Bool) (argument : Bytes) (more : List Bytes) :
    (∃ (token : Token) (later : List Bytes), token.Accepted collect ∧
      argument :: more = token.spelled ++ later) ∨
    ∃ error, Offends collect (argument :: more) error := by
  cases hFlag : Flag.ofName? argument with
  | none =>
      have hOther := Flag.ne_spelling_of_ofName? hFlag
      cases collect with
      | true => exact .inl ⟨.other argument, more, ⟨rfl, hOther⟩, rfl⟩
      | false => exact .inr ⟨_, .unknownArgument argument more rfl hOther⟩
  | some flag =>
      obtain rfl := Flag.eq_spelling_of_ofName? hFlag
      cases more with
      | nil =>
          by_cases hTrace : flag = .traceMessages
          · exact .inl ⟨.trace, [], trivial, by rw [hTrace]; rfl⟩
          · exact .inr ⟨_, .missingValue flag hTrace⟩
      | cons value later =>
          cases flag with
          | workers =>
              refine (number_or_offends collect (.inl rfl) value later).imp_left ?_
              exact fun h => ⟨.workers value, later, h, rfl⟩
          | exchangeCapacity =>
              refine (number_or_offends collect (.inr rfl) value later).imp_left ?_
              exact fun h => ⟨.capacity value, later, h, rfl⟩
          | logLevel =>
              by_cases hName : value ∈ Level.names.map Prod.fst
              · exact .inl ⟨.level value, later, hName, rfl⟩
              · exact .inr ⟨_, .unknownLevel value later hName⟩
          | traceMessages => exact .inl ⟨.trace, value :: later, trivial, rfl⟩

end Config

end Dataflow
