/-
  Harvest.Command.Usage

  Why a command line is not carried out: it asks for help, or it is refused.
-/

namespace Harvest.Command

/-- Why a command line is not carried out. -/
inductive Usage where
  /-- Help is asked for. -/
  | help
  /-- The version is asked for. -/
  | version
  /-- There is no command, and help is given instead. -/
  | noCommand
  | unknownCommand
  | unknownArgument
  /-- A flag is given a value. -/
  | needlessValue
  /-- An option is given twice, or with one that excludes it. -/
  | conflict
  /-- An option lacks its value, or has one that it cannot have. -/
  | invalidValue
  /-- An option lacks that has to be given, or another one that it needs. -/
  | missingArgument
  /-- A value cannot be read, for a reason. -/
  | unreadable (words : String)
  deriving DecidableEq, Repr

/-- Whether it is help or the version that is given, which is no failure. -/
def Usage.isAnswer : Usage → Bool
  | .help => true
  | .version => true
  | _ => false

/-- The words for a command line that is not carried out. -/
def Usage.message : Usage → String
  | .help => "help"
  | .version => "version"
  | .noCommand => "a command is needed: run, backends or help"
  | .unknownCommand => "unknown command"
  | .unknownArgument => "unknown argument"
  | .needlessValue => "a flag without value is given one"
  | .conflict => "a flag is given twice, or with one that excludes it"
  | .invalidValue => "a flag lacks its value, or has one that it cannot have"
  | .missingArgument => "a flag is missing"
  | .unreadable words => words

end Harvest.Command
