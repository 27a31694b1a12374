import Authorship.Report.Format
import Authorship.Detection.Engine
import Authorship.Config.Settings

/- The command line: what it may say, and what it asks for. -/
namespace Authorship.Command

open Detection Report

inductive Task where
  | init (path : String)
  | analyze (path : String) (format : Format) (output : Option String)
      (strategy : Option Strategy) (stats : Option String) (withFeatures failsOnAi : Bool)
  | features (file : String) (format : Format) (stats : Option String)
  | calibrate (ai human output : String)
  | baseline (stats : Option String) (format : Format)
deriving DecidableEq, Repr

inductive Request where
  | help
  | version
  | run (config : Option String) (task : Task)
deriving DecidableEq, Repr

structure OptionRule where
  name : String
  letter : Option Char
  accepts : Option (String → Bool)

def takesText : String → Bool := fun value => !value.isEmpty

def isOneOf (names : List String) (value : String) : Bool := names.contains value

def pathOption (name : String) (letter : Option Char := none) : OptionRule :=
  ⟨name, letter, some takesText⟩

def formatOption : OptionRule :=
  ⟨"format", some 'f', some (isOneOf ([Format.text, .json, .jsonl].map (·.key)))⟩

def strategyOption : OptionRule :=
  ⟨"strategy", none, some (isOneOf ([Strategy.auto, .heuristic, .baseline].map (·.key)))⟩

def switch (name : String) : OptionRule := ⟨name, none, none⟩

def wholeNumber? (text : String) : Option Nat :=
  let digits := match text.toList with
    | '+' :: rest => rest
    | cs => cs
  if digits.isEmpty || !digits.all Char.isDigit then none
  else some (digits.foldl (fun n c => 10 * n + (c.toNat - '0'.toNat)) 0)

def greatestWorkers : Nat := 64

def isWorkerCount (text : String) : Bool :=
  (wholeNumber? text).any fun n => 1 ≤ n && n ≤ greatestWorkers

/-- Allowed before a command's name and after it. -/
def globalOptions : List OptionRule := [
  ⟨"log-level", none, some (isOneOf ["error", "warn", "info", "debug", "trace"])⟩,
  pathOption "config",
  ⟨"workers", none, some isWorkerCount⟩]

structure CommandRule where
  name : String
  options : List OptionRule
  operands : Nat

def commands : List CommandRule := [
  ⟨"init", [], 1⟩,
  ⟨"analyze", [formatOption, pathOption "output" (some 'o'), strategyOption, pathOption "stats",
    switch "features", switch "fail-on-ai"], 1⟩,
  ⟨"features", [formatOption, pathOption "stats"], 1⟩,
  ⟨"calibrate", [pathOption "ai", pathOption "human", pathOption "output" (some 'o')], 0⟩,
  ⟨"baseline", [formatOption, pathOption "stats"], 0⟩]

structure Given where
  options : List (String × String)
  operands : List String

namespace Given

def none : Given := ⟨[], []⟩

def value? (g : Given) (name : String) : Option String := g.options.lookup name

def has (g : Given) (name : String) : Bool := (g.value? name).isSome

def addOption (g : Given) (rule : OptionRule) (value : String) : Option Given :=
  if g.has rule.name || !(rule.accepts.all (· value)) then .none
  else some { g with options := (rule.name, value) :: g.options }

def addOperands (g : Given) (limit : Nat) (more : List String) : Option Given :=
  let operands := g.operands ++ more
  if operands.length ≤ limit && more.all takesText then some { g with operands } else .none

end Given

inductive Reading where
  | wrong
  | help
  | version
  | done (given : Given) (rest : List String)

inductive Shape where
  | terminator
  | operand
  | long (name : String) (value : Option String)
  | short (letter : Char) (value : Option String)

def shapeOf (argument : String) : Shape :=
  match argument.toList with
  | ['-', '-'] => .terminator
  | '-' :: '-' :: cs =>
    let name := cs.takeWhile (· != '=')
    .long (String.ofList name)
      (if name.length < cs.length then some (String.ofList (cs.drop (name.length + 1))) else none)
  | '-' :: letter :: cs =>
    .short letter (if cs.isEmpty then none
      else some (String.ofList (if cs.head? = some '=' then cs.tail else cs)))
  | _ => .operand

def isOperand (argument : String) : Bool :=
  match shapeOf argument with
  | .operand => true
  | _ => false

/-- The arguments of one level: of the program itself up to the name of a command, where there
are no operands, or of a command. -/
structure Level where
  options : List OptionRule
  operands : Option Nat

def Level.isProgram (l : Level) : Bool := l.operands.isNone

def Level.option? (l : Level) : Shape → Option (OptionRule × Option String)
  | .long name value => (l.options.find? (·.name = name)).map (·, value)
  | .short letter value => (l.options.find? (·.letter = some letter)).map (·, value)
  | _ => none

def isHelp : Shape → Bool
  | .long "help" none => true
  | .short 'h' _ => true
  | _ => false

def isVersion : Shape → Bool
  | .long "version" none => true
  | .short 'V' _ => true
  | _ => false

/-- From the left. A value that stands apart from its option must not look like an option. -/
def readArguments (l : Level) (given : Given) : List String → Reading
  | [] => .done given []
  | argument :: rest =>
    let shape := shapeOf argument
    if isHelp shape then .help
    else if l.isProgram && isVersion shape then .version
    else
      match shape, l.operands with
      | .operand, none => .done given (argument :: rest)
      | .operand, some limit =>
        match given.addOperands limit [argument] with
        | some given => readArguments l given rest
        | none => .wrong
      | .terminator, limit =>
        match given.addOperands (limit.getD 0) rest with
        | some given => .done given []
        | none => .wrong
      | _, _ =>
        match l.option? shape with
        | none => .wrong
        | some (rule, attached) =>
          match rule.accepts, attached with
          | none, some _ => .wrong
          | none, none =>
            match given.addOption rule "" with
            | some given => readArguments l given rest
            | none => .wrong
          | some _, some value =>
            match given.addOption rule value with
            | some given => readArguments l given rest
            | none => .wrong
          | some _, none =>
            match rest with
            | [] => .wrong
            | value :: others =>
              if isOperand value then
                match given.addOption rule value with
                | some given => readArguments l given others
                | none => .wrong
              else .wrong

namespace Given

def operand (g : Given) (default : String) : String := g.operands.head?.getD default

def format (g : Given) : Format :=
  match (g.value? "format").map Format.parse with
  | some (.ok format) => format
  | _ => .text

def strategy? (g : Given) : Option Strategy := (g.value? "strategy").bind Strategy.ofKey?

end Given

def taskOf (command : String) (g : Given) : Option Task :=
  match command with
  | "init" => some (.init (g.operand "."))
  | "analyze" =>
    some (.analyze (g.operand ".") g.format (g.value? "output") g.strategy? (g.value? "stats")
      (g.has "features") (g.has "fail-on-ai"))
  | "features" => g.operands.head?.map fun file => .features file g.format (g.value? "stats")
  | "calibrate" => do
    let ai ← g.value? "ai"
    let human ← g.value? "human"
    return .calibrate ai human ((g.value? "output").getD Config.Settings.defaultStatsPath)
  | "baseline" => some (.baseline (g.value? "stats") g.format)
  | _ => none

def isHelpTopic : List String → Bool
  | [] => true
  | [name] => name = "help" || commands.any (·.name = name)
  | _ => false

def parseArguments (arguments : List String) : Option Request :=
  match readArguments ⟨globalOptions, none⟩ .none arguments with
  | .help => some .help
  | .version => some .version
  | .wrong | .done _ [] => none
  | .done _ ("help" :: topics) => if isHelpTopic topics then some .help else none
  | .done outer (name :: rest) => do
    let command ← commands.find? (·.name = name)
    match readArguments ⟨globalOptions ++ command.options, some command.operands⟩ .none rest with
    | .help => some .help
    | .done given _ =>
      let task ← taskOf name given
      some (.run ((given.value? "config").or (outer.value? "config")) task)
    | .wrong | .version => none

end Authorship.Command
