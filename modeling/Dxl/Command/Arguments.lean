import Dxl.Command.LogLevel

/-! Arguments of the command line, and what they ask for. -/

namespace Dxl

/-- What to do with a source file. -/
inductive Task where
  /-- Show its tree or its outline, and what stands out in it if that is wanted too. -/
  | dump (asOutline withHighlights : Bool)
  /-- Look for mistakes. -/
  | check
deriving DecidableEq

/-- A task, the file it is for, and how much to log. -/
structure Invocation where
  task : Task
  path : String
  level : LogLevel
deriving DecidableEq

/-- Why arguments ask for no task. -/
inductive Refusal where
  /-- They ask for help. -/
  | help
  /-- They make no sense. -/
  | usage
deriving DecidableEq

/-- The commands, each with options of its own. -/
inductive Command where
  | dump
  | check
deriving DecidableEq

/-- The command with the given name. -/
def Command.ofWord? : String → Option Command
  | "dump" => some .dump
  | "check" => some .check
  | _ => none

/-- Whether an argument asks for help, as long as options may follow. -/
def asksForHelp (argument : String) : Bool :=
  argument == "--help" || argument == "help"

/-- Whether an argument is written as an option. -/
def isOption (argument : String) : Bool :=
  argument.toList.head? == some '-'

/-- What the arguments of a command have said so far. -/
structure Command.Reading where
  help : Bool
  optionsEnded : Bool
  path : Option String
  asOutline : Bool
  withHighlights : Bool
  level : Option LogLevel

namespace Command.Reading

/-- Nothing has been said. -/
def initial (help : Bool) : Reading := ⟨help, false, none, false, false, none⟩

/-- Takes an argument that stands for the file, of which there is only one. -/
def takePath (reading : Reading) (argument : String) : Except Refusal Reading :=
  match reading.path with
  | none => .ok { reading with path := some argument }
  | some _ => .error .usage

/-- Takes an option without a value; a check has none. -/
def takeSwitch (command : Command) (reading : Reading) (argument : String) :
    Except Refusal Reading :=
  match command, argument with
  | .dump, "--ast" => .ok { reading with asOutline := true }
  | .dump, "--symbols" => .ok { reading with withHighlights := true }
  | _, _ => .error .usage

/-- Takes the value of the log option, which may be given once. -/
def takeLevel (reading : Reading) (word : String) : Except Refusal Reading :=
  match reading.level, LogLevel.ofWord? word with
  | none, some level => .ok { reading with level := some level }
  | _, _ => .error .usage

/-- What the arguments ask a command to do, once all of them are read. -/
def finish (command : Command) (reading : Reading) : Except Refusal Invocation :=
  if reading.help then .error .help
  else match reading.path with
    | none => .error .usage
    | some path =>
      let task := match command with
        | .dump => .dump reading.asOutline reading.withHighlights
        | .check => .check
      .ok ⟨task, path, reading.level.getD .off⟩

end Command.Reading

/-- Reads the arguments of a command. -/
def Command.read (command : Command) (reading : Reading) :
    List String → Except Refusal Invocation
  | [] => reading.finish command
  | argument :: rest =>
    -- After two hyphens nothing counts as an option, and after help no option may follow.
    if !reading.optionsEnded && asksForHelp argument then
      command.read { reading with help := true } rest
    else if !reading.optionsEnded && isOption argument then
      if argument == "--" then command.read { reading with optionsEnded := true } rest
      else if reading.help then .error .usage
      else if argument == "--log" then
        match rest with
        | [] => .error .usage
        | word :: rest => (reading.takeLevel word).bind (command.read · rest)
      else (reading.takeSwitch command argument).bind (command.read · rest)
    else (reading.takePath argument).bind (command.read · rest)

/-- Reads arguments up to the command, which has to be the first that is neither an option nor a request for help. -/
def Invocation.readFrom (help optionsEnded : Bool) : List String → Except Refusal Invocation
  | [] => .error (if help then .help else .usage)
  | argument :: rest =>
    if !optionsEnded && asksForHelp argument then readFrom true optionsEnded rest
    else if !optionsEnded && argument == "--" then readFrom help true rest
    else match Command.ofWord? argument with
      -- No option stands before the command.
      | none => .error .usage
      | some command => command.read (.initial help) rest

/-- What the arguments of the command line ask for. -/
def Invocation.ofArguments (arguments : List String) : Except Refusal Invocation :=
  readFrom false false arguments

end Dxl
