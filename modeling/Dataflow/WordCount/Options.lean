import Dataflow.Config

/-!
The options of the word count: those of the fabric, and the amount of text. Numbers of the second
kind are read leniently: white space and a sign may come first, and what follows the digits is
ignored.
-/

namespace Dataflow.WordCount

/-- Space and the characters from tab to carriage return. -/
def isBlank (b : UInt8) : Bool := b == 32 || (9 ≤ b && b ≤ 13)

/-- Whether the number is negative, and what follows the sign. -/
def readSign : Bytes → Bool × Bytes
  | 43 :: rest => (false, rest)
  | 45 :: rest => (true, rest)
  | text => (false, text)

/-- Reads a number leniently. There must be a digit, and the digits must spell less than
`Decimal.bound`. A negative number stands for its complement. -/
def readLenient? (text : Bytes) : Option Nat :=
  let (negative, rest) := readSign (text.dropWhile isBlank)
  let digits := rest.takeWhile Decimal.isDigit
  let n := Decimal.value digits
  if digits = [] ∨ Decimal.bound ≤ n then none
  else if negative then some ((Decimal.bound - n) % Decimal.bound) else some n

structure Options where
  config : Config
  epochs : Nat := 3
  /-- Lines per worker and epoch. -/
  lines : Nat := 100

inductive OptionsError where
  | config (error : ArgumentError)
  /-- A lenient number that is missing or unreadable, or an argument nobody knows. -/
  | usage
  deriving DecidableEq

def epochsFlag : Bytes := Bytes.ascii "--epochs"

def linesFlag : Bytes := Bytes.ascii "--lines"

/-- Reads the arguments that are no flags of the fabric. -/
def Options.readRest : List Bytes → Options → Except OptionsError Options
  | [], options => .ok options
  | [_], _ => .error .usage
  | flag :: value :: rest, options =>
    match readLenient? value with
    | none => .error .usage
    | some n =>
      if flag = epochsFlag then readRest rest { options with epochs := n }
      else if flag = linesFlag then readRest rest { options with lines := n }
      else .error .usage

/-- Reads a command line without the name of the program. -/
def Options.parse (arguments : List Bytes) : Except OptionsError Options :=
  let parsed := Config.parse true arguments
  match parsed.result with
  | .error error => .error (.config error)
  | .ok config => readRest parsed.rest { config }

def usageText : Bytes :=
  Bytes.ascii
    ("word_count\n" ++
     "  --workers N\n" ++
     "  --epochs E\n" ++
     "  --lines L          lines per worker per epoch\n" ++
     "  --exchange-capacity N\n" ++
     "  --log-level error|warn|info|debug|trace|off\n" ++
     "  --trace-messages\n")

def OptionsError.text : OptionsError → Bytes
  | config error => error.message ++ Bytes.ascii "\n" ++ usageText
  | usage => usageText

end Dataflow.WordCount
