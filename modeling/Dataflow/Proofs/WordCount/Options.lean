import Dataflow.Proofs.Config.Token
import Dataflow.Proofs.Decimal
import Dataflow.WordCount.Run
import Mathlib.Data.List.TakeWhile

/-! The options of the word count. Behind the flags of the fabric its command line is a sequence of
settings, and the number of a setting is read from the front of its value: what stands behind the
digits has no part in it. The values that the fabric would accept as numbers are among those
accepted here, but they are only the ones that consist of digits alone. -/
namespace Dataflow.WordCount

open Decimal (isDigit takeWhile_isDigit_append)

/-! ### Lenient numbers -/

inductive Sign where
  | absent
  | plus
  | minus

namespace Sign

def spelled : Sign → Bytes
  | absent => []
  | plus => [43]
  | minus => [45]

/-- The number that a sign makes of the number behind it. Negative numbers wrap around. -/
def number : Sign → Nat → Nat
  | absent, n | plus, n => n
  | minus, n => (Decimal.bound - n) % Decimal.bound

end Sign

/-- A text that begins with a number: white space, perhaps a sign, and digits. More digits may not
follow, but anything else may. -/
inductive Lenient : Bytes → Nat → Prop where
  | intro (blanks : Bytes) (sign : Sign) (digits behind : Bytes)
      (hBlanks : ∀ b ∈ blanks, isBlank b = true) (hNonempty : digits ≠ [])
      (hDigits : ∀ b ∈ digits, isDigit b = true) (hBehind : ∀ b ∈ behind.head?, isDigit b = false)
      (hBound : Decimal.value digits < Decimal.bound) :
      Lenient (blanks ++ (sign.spelled ++ (digits ++ behind)))
        (sign.number (Decimal.value digits))

theorem isBlank_of_isDigit {b : UInt8} (h : isDigit b = true) : isBlank b = false := by
  simp only [isDigit, Bool.and_eq_true, decide_eq_true_eq, UInt8.le_iff_toNat_le] at h
  simp only [isBlank, Bool.or_eq_false_iff, beq_eq_false_iff_ne, ne_eq, Bool.and_eq_false_iff,
    decide_eq_false_iff_not, UInt8.le_iff_toNat_le, ← UInt8.toNat_inj]
  simp at *
  omega

def Sign.negative : Sign → Bool
  | absent | plus => false
  | minus => true

theorem readSign_spelled (sign : Sign) {digits : Bytes} (hNonempty : digits ≠ [])
    (hDigits : ∀ b ∈ digits, isDigit b = true) (behind : Bytes) :
    readSign (sign.spelled ++ (digits ++ behind)) = (sign.negative, digits ++ behind) := by
  cases sign with
  | plus | minus => rfl
  | absent =>
      obtain ⟨b, more, rfl⟩ := List.exists_cons_of_ne_nil hNonempty
      have hDigit := hDigits b List.mem_cons_self
      change readSign (b :: (more ++ behind)) = (false, b :: (more ++ behind))
      unfold readSign
      split
      · rename_i hPlus
        cases hPlus
        cases hDigit
      · rename_i hMinus
        cases hMinus
        cases hDigit
      · rfl

/-- Every text begins with one sign or none. -/
theorem readSign_cases (text : Bytes) :
    ∃ sign : Sign, text = sign.spelled ++ (readSign text).2 ∧
      (readSign text).1 = sign.negative := by
  unfold readSign
  split
  · exact ⟨.plus, rfl, rfl⟩
  · exact ⟨.minus, rfl, rfl⟩
  · exact ⟨.absent, rfl, rfl⟩

theorem Sign.number_eq (sign : Sign) (n : Nat) :
    sign.number n = if sign.negative then (Decimal.bound - n) % Decimal.bound else n := by
  cases sign <;> rfl

/-- A text that begins with a number is read up to the end of its digits. -/
theorem Lenient.readLenient?_eq {text : Bytes} {n : Nat} (h : Lenient text n) :
    readLenient? text = some n := by
  obtain ⟨blanks, sign, digits, behind, hBlanks, hNonempty, hDigits, hBehind, hBound⟩ := h
  have hFirst : (blanks ++ (sign.spelled ++ (digits ++ behind))).dropWhile isBlank =
      sign.spelled ++ (digits ++ behind) := by
    rw [List.dropWhile_append_of_pos hBlanks]
    obtain ⟨b, more, rfl⟩ := List.exists_cons_of_ne_nil hNonempty
    have hDigit := isBlank_of_isDigit (hDigits b List.mem_cons_self)
    cases sign with
    | plus | minus => rfl
    | absent => exact List.dropWhile_cons_of_neg (by rw [hDigit]; exact Bool.false_ne_true)
  simp only [readLenient?, hFirst, readSign_spelled sign hNonempty hDigits,
    takeWhile_isDigit_append hDigits hBehind, hNonempty, false_or,
    if_neg (Nat.not_le.mpr hBound), sign.number_eq, apply_ite some]

/-- A lenient number is read from what spells it, whatever stands behind. -/
theorem readLenient?_eq_some_iff {text : Bytes} {n : Nat} :
    readLenient? text = some n ↔ Lenient text n := by
  refine ⟨fun h => ?_, Lenient.readLenient?_eq⟩
  obtain ⟨sign, hSign, hNegative⟩ := readSign_cases (text.dropWhile isBlank)
  simp only [readLenient?, hNegative] at h
  generalize (readSign (text.dropWhile isBlank)).2 = rest at hSign h
  split at h
  · cases h
  · rename_i hRead
    rw [not_or, Nat.not_le] at hRead
    rw [← apply_ite some, ← sign.number_eq, Option.some.injEq] at h
    subst h
    have hParts : text = text.takeWhile isBlank ++
        (sign.spelled ++ (rest.takeWhile isDigit ++ rest.dropWhile isDigit)) := by
      rw [List.takeWhile_append_dropWhile, ← hSign, List.takeWhile_append_dropWhile]
    rw [hParts]
    refine .intro _ sign _ _ (fun b => List.mem_takeWhile_imp) hRead.1
      (fun b => List.mem_takeWhile_imp) (fun b hb => ?_) hRead.2
    have hStop := List.head?_dropWhile_not isDigit rest
    rw [hb] at hStop
    exact hStop

/-- The fabric accepts a text as a number exactly if it is accepted here and consists of digits. The
number is then the same. -/
theorem readSize_eq_ok_iff {flag text : Bytes} {n : Nat} :
    readSize flag text = .ok n ↔ Lenient text n ∧ ∀ b ∈ text, isDigit b = true := by
  rw [readSize_eq_ok_iff_spells]
  constructor
  · rintro ⟨hNonempty, hDigits, rfl, hBound⟩
    have hLenient := Lenient.intro [] .absent text [] (fun b hb => absurd hb List.not_mem_nil)
      hNonempty hDigits (fun b hb => by cases hb) (Nat.lt_of_le_pred (by decide) hBound)
    rw [List.append_nil] at hLenient
    exact ⟨hLenient, hDigits⟩
  · rintro ⟨⟨blanks, sign, digits, behind, hBlanks, hNonempty, hDigits, hBehind, hBound⟩, hAll⟩
    simp only [List.mem_append] at hAll
    have hNoBlank : blanks = [] := by
      refine List.eq_nil_iff_forall_not_mem.mpr fun b hb => ?_
      exact absurd (hBlanks b hb) (by simp [isBlank_of_isDigit (hAll b (.inl hb))])
    have hNoSign : sign = .absent := by
      cases sign with
      | absent => rfl
      | plus => exact absurd (hAll 43 (.inr (.inl List.mem_cons_self))) (by decide)
      | minus => exact absurd (hAll 45 (.inr (.inl List.mem_cons_self))) (by decide)
    have hNoMore : behind = [] := by
      cases behind with
      | nil => rfl
      | cons b behind =>
          have hDigit := hAll b (.inr (.inr (.inr List.mem_cons_self)))
          rw [hBehind b rfl] at hDigit
          cases hDigit
    subst hNoBlank hNoSign hNoMore
    rw [List.append_nil]
    exact ⟨hNonempty, hDigits, rfl, Nat.le_pred_of_lt hBound⟩

/-! ### Settings -/

/-- What the options of the word count set. -/
inductive Amount where
  | epochs
  | lines

def Amount.flag : Amount → Bytes
  | epochs => epochsFlag
  | lines => linesFlag

def Amount.set (options : Options) (n : Nat) : Amount → Options
  | epochs => { options with epochs := n }
  | lines => { options with lines := n }

/-- An option with its value, and the number that the value is read as. -/
structure Setting where
  amount : Amount
  value : Bytes
  number : Nat

namespace Setting

def spelled (setting : Setting) : List Bytes := [setting.amount.flag, setting.value]

def apply (options : Options) (setting : Setting) : Options :=
  setting.amount.set options setting.number

end Setting

/-- Settings are read in order, the last of each kind prevailing. -/
theorem readRest_settings {settings : List Setting}
    (h : ∀ setting ∈ settings, Lenient setting.value setting.number) (options : Options) :
    Options.readRest (settings.flatMap Setting.spelled) options =
      .ok (settings.foldl Setting.apply options) := by
  induction settings generalizing options with
  | nil => rfl
  | cons setting settings ih =>
      rw [List.forall_mem_cons] at h
      have hValue := h.1.readLenient?_eq
      rw [List.flatMap_cons, Setting.spelled, List.cons_append, List.singleton_append,
        Options.readRest, hValue, List.foldl_cons, ← ih h.2]
      cases hAmount : setting.amount with
      | epochs => simp only [Amount.flag, if_true, Setting.apply, hAmount, Amount.set]
      | lines =>
          have hApart : linesFlag ≠ epochsFlag := by decide
          simp only [Amount.flag, if_neg hApart, if_true, Setting.apply, hAmount, Amount.set]

/-- Arguments are settings one after the other, or the usage is shown. -/
theorem readRest_cases (rest : List Bytes) (options : Options) :
    (∃ settings : List Setting, rest = settings.flatMap Setting.spelled ∧
      ∀ setting ∈ settings, Lenient setting.value setting.number) ∨
    Options.readRest rest options = .error .usage := by
  fun_induction Options.readRest rest options with
  | case1 options => exact .inl ⟨[], rfl, fun setting hSetting => absurd hSetting List.not_mem_nil⟩
  | case2 argument options => exact .inr rfl
  | case3 flag value rest options hValue => exact .inr rfl
  | case4 value rest options n hValue ih =>
      refine ih.imp_left ?_
      rintro ⟨settings, rfl, hSettings⟩
      exact ⟨⟨.epochs, value, n⟩ :: settings, rfl,
        List.forall_mem_cons.mpr ⟨readLenient?_eq_some_iff.mp hValue, hSettings⟩⟩
  | case5 value rest options n hValue hFlag ih =>
      refine ih.imp_left ?_
      rintro ⟨settings, rfl, hSettings⟩
      exact ⟨⟨.lines, value, n⟩ :: settings, rfl,
        List.forall_mem_cons.mpr ⟨readLenient?_eq_some_iff.mp hValue, hSettings⟩⟩
  | case6 flag value rest options n hValue hEpochs hLines => exact .inr rfl

theorem readRest_eq_ok_iff {rest : List Bytes} {options final : Options} :
    Options.readRest rest options = .ok final ↔
      ∃ settings : List Setting, rest = settings.flatMap Setting.spelled ∧
        (∀ setting ∈ settings, Lenient setting.value setting.number) ∧
        final = settings.foldl Setting.apply options := by
  constructor
  · intro h
    rcases readRest_cases rest options with ⟨settings, rfl, hSettings⟩ | hUsage
    · rw [readRest_settings hSettings, Except.ok.injEq] at h
      exact ⟨settings, rfl, hSettings, h.symm⟩
    · rw [hUsage] at h
      cases h
  · rintro ⟨settings, rfl, hSettings, rfl⟩
    exact readRest_settings hSettings options

/-- The arguments are accepted when what is left of them are settings. -/
theorem parse_eq_ok_iff {arguments : List Bytes} {options : Options} :
    Options.parse arguments = .ok options ↔
      ∃ (config : Config) (settings : List Setting),
        Config.parse true arguments = ⟨.ok config, settings.flatMap Setting.spelled⟩ ∧
        (∀ setting ∈ settings, Lenient setting.value setting.number) ∧
        options = settings.foldl Setting.apply { config } := by
  rw [Options.parse]
  obtain ⟨result, rest⟩ := Config.parse true arguments
  cases result with
  | error error => simp
  | ok config =>
      simp only [readRest_eq_ok_iff]
      constructor
      · rintro ⟨settings, rfl, hSettings, hOptions⟩
        exact ⟨config, settings, rfl, hSettings, hOptions⟩
      · rintro ⟨config, settings, hParse, hSettings, hOptions⟩
        cases hParse
        exact ⟨settings, rfl, hSettings, hOptions⟩

/-- A command line that is not accepted ends with the usage, and with it alone unless the fabric has
refused one of its flags. -/
theorem run_of_refused {arguments : List Bytes}
    (h : ∀ options, Options.parse arguments ≠ .ok options) :
    (run arguments).exitCode = usageCode ∧ (run arguments).stdout = [] ∧
      usageText <:+ (run arguments).stderr ∧
      ∀ config, (Config.parse true arguments).result = .ok config →
        (run arguments).stderr = usageText := by
  cases hParse : Options.parse arguments with
  | ok options => exact absurd hParse (h options)
  | error error =>
      simp only [run, hParse, true_and]
      refine ⟨?_, fun config hConfig => ?_⟩
      · cases error with
        | usage => exact List.suffix_rfl
        | config error => exact List.suffix_append _ _
      · simp only [Options.parse, hConfig] at hParse
        rcases readRest_cases (Config.parse true arguments).rest { config } with
          ⟨settings, hRest, hSettings⟩ | hUsage
        · rw [hRest, readRest_settings hSettings] at hParse
          cases hParse
        · rw [hUsage] at hParse
          cases hParse
          rfl

/-- The numbers of the word count are read leniently. A command line is accepted exactly if what the
fabric leaves of it consists of settings whose values begin with numbers, white space and a sign
apart, and these numbers are what the program then runs with; all other command lines end with the
usage and nothing else happens. A value that the fabric would accept as a number is accepted with
the same number, but the fabric would accept it only if it has no characters besides its digits. -/
theorem settings_read_leniently (arguments : List Bytes) :
    (∀ options, Options.parse arguments = .ok options ↔
      ∃ (config : Config) (settings : List Setting),
        Config.parse true arguments = ⟨.ok config, settings.flatMap Setting.spelled⟩ ∧
        (∀ setting ∈ settings, Lenient setting.value setting.number) ∧
        options = settings.foldl Setting.apply { config }) ∧
    ((∀ options, Options.parse arguments ≠ .ok options) →
      (run arguments).exitCode = usageCode ∧ (run arguments).stdout = [] ∧
        usageText <:+ (run arguments).stderr ∧
        ∀ config, (Config.parse true arguments).result = .ok config →
          (run arguments).stderr = usageText) ∧
    (∀ value n m, Lenient value n → Lenient value m → n = m) ∧
    ∀ flag value n,
      readSize flag value = .ok n ↔ Lenient value n ∧ ∀ b ∈ value, isDigit b = true := by
  refine ⟨fun options => parse_eq_ok_iff, run_of_refused, fun value n m hn hm => ?_,
    fun flag value n => readSize_eq_ok_iff⟩
  rw [← readLenient?_eq_some_iff] at hn hm
  exact Option.some.inj (hn.symm.trans hm)

/-- A letter behind the digits is passed over here and refused by the fabric. -/
theorem settings_read_leniently_letter :
    Options.parse [epochsFlag, Bytes.ascii "2x"] = .ok { config := {}, epochs := 2 } ∧
      ∀ n, readSize epochsFlag (Bytes.ascii "2x") ≠ .ok n := by
  obtain ⟨hAccepted, -, -, hStrict⟩ := settings_read_leniently [epochsFlag, Bytes.ascii "2x"]
  have hTwo : Lenient (Bytes.ascii "2x") 2 := readLenient?_eq_some_iff.mp (by decide)
  constructor
  · refine (hAccepted _).mpr ⟨{}, [⟨.epochs, Bytes.ascii "2x", 2⟩], rfl, ?_, rfl⟩
    exact List.forall_mem_singleton.mpr hTwo
  · intro n hRead
    have hLetter := ((hStrict _ _ n).mp hRead).2 120 (by decide)
    cases hLetter

end Dataflow.WordCount
