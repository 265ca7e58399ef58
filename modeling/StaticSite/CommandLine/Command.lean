import StaticSite.CommandLine.Refusal
import StaticSite.Path
import StaticSite.Text.Similarity
/-!
Commands, read from the arguments of the program. Options may stand before and behind the other
arguments of a command, up to two hyphens that stand alone. Main statement: arguments that name no
command are refused (`ofArguments_nil`).
-/
namespace StaticSite.CommandLine

open Text

inductive Command where
  | build (source output : Path)
  | clean (output : Path)
  | new (path : Path)
  deriving DecidableEq, Repr

-- What was read of the arguments of a command.
structure Arguments where
  -- The argument that is no option.
  value : Option String := none
  output : Option String := none
  -- Whether the option was given that names the output.
  hasOutput : Bool := false
  -- Whether it was given more than once.
  isRepeated : Bool := false
  -- Whether the next argument may be the value of that option.
  isAwaiting : Bool := false
  -- Whether options are over.
  isTrailing : Bool := false

-- The argument of an option up to the first equals sign, without hyphens, and what follows.
def splitLong (argument : String) : String × Option String :=
  let cs := argument.toList.dropWhile (· == '-')
  match cs.dropWhile (· ≠ '=') with
  | [] => (.ofList cs, none)
  | _ :: value => (.ofList (cs.takeWhile (· ≠ '=')), some (.ofList value))

-- A hint at the option that was meant, with its name if it is one of this topic. `rest` are the
-- arguments behind, which may name a command that has the option.
def hint (topic : Topic) (name : String) (rest : List String) : String × Option String :=
  let options := Topic.flags ++ if topic.hasOutput then ["output"] else []
  match mostSimilar? name options with
  | some option =>
    ("\n\tDid you mean " ++ Refusal.emphasised "--" ++ Refusal.emphasised option ++ "?",
      some option)
  | none =>
    if topic = .program ∧ (mostSimilar? name ["output"]).isSome then
      match rest.find? fun x => x == Topic.build.name || x == Topic.clean.name with
      | some command =>
        ("\n\tDid you mean to put '" ++ Refusal.emphasised "--" ++ Refusal.emphasised "output" ++
          "' after the subcommand '" ++ Refusal.emphasised command ++ "'?", none)
      | none => ("", none)
    else ("", none)

-- The option that names the output was given, with a value or not.
def addOutput (value : Option String) (a : Arguments) : Arguments :=
  let value := value.map fun v => .ofList (v.toList.dropWhile (· == '='))
  { a with
    output := value <|> a.output
    hasOutput := true
    isRepeated := a.hasOutput
    isAwaiting := value.isNone }

-- Reads an option with a long name.
def addLong (topic : Topic) (argument : String) (rest : List String) (a : Arguments) :
    Except Refusal Arguments :=
  let (name, value) := splitLong argument
  if topic.hasOutput && name == "output" then .ok (addOutput value a)
  else if name = "help" then .error (.help topic)
  else if name = "version" then .error (.version topic)
  else
    let (hint, suggestion) := hint topic name rest
    .error (.unknownArgument topic a.hasOutput ("--" ++ name) hint suggestion)

-- Reads an option with a short name, behind its hyphen.
def addShort (topic : Topic) (a : Arguments) : List Char → Except Refusal Arguments
  | [] => .ok a
  | 'h' :: _ => .error (.help topic)
  | 'V' :: _ => .error (.version topic)
  | c :: cs =>
    if topic.hasOutput && c == 'o' then
      .ok (addOutput (if cs.isEmpty then none else some (.ofList cs)) a)
    else .error (.unknownArgument topic a.hasOutput (.ofList ['-', c]) "" none)

def isOption (argument : String) : Bool :=
  match argument.toList with
  | '-' :: _ :: _ => true
  | _ => false

-- Reads the arguments of a command.
def readArguments (topic : Topic) : List String → Arguments → Except Refusal Arguments
  | [], a => .ok a
  | x :: rest, a =>
    if x = "--" ∧ !a.isTrailing then readArguments topic rest { a with isTrailing := true }
    else if isOption x && !a.isTrailing then do
      readArguments topic rest (← match x.toList with
        | '-' :: '-' :: _ => addLong topic x rest a
        | cs => addShort topic a cs.tail)
    else if a.isAwaiting && !a.isTrailing then
      readArguments topic rest { a with output := some x, isAwaiting := false }
    else if a.value.isSome then .error (.unknownArgument topic a.hasOutput x "" none)
    else readArguments topic rest { a with value := some x }

-- The directory of the output in the source, if none is named.
def defaultOutput : Path :=
  "build"

-- The source and the output that arguments name. That an option is wrong in itself is told before
-- that it is given twice.
def directories (topic : Topic) (arguments : List String) : Except Refusal (Path × Path) := do
  let a ← readArguments topic arguments {}
  if a.isAwaiting && a.output.isNone then throw (.missingOutput topic)
  if a.isRepeated then throw (.repeatedOutput topic)
  let source : Path := ⟨a.value.getD "."⟩
  return (source, (a.output.map Path.mk).getD (source / defaultOutput))

-- What help is asked for: the last of the commands that are named.
def helpTopic : Topic → List String → Refusal
  | t, [] => .help t
  | t, x :: rest =>
    match if t = .program then Topic.ofName? x else none with
    | some t => helpTopic t rest
    | none => .unknownTopic x

namespace Command

def ofTopic (topic : Topic) (arguments : List String) : Except Refusal Command := do
  match topic with
  | .program => throw .missingCommand
  | .help => throw (helpTopic .program arguments)
  | .build =>
    let (source, output) ← directories .build arguments
    return build source output
  | .clean => return clean (← directories .clean arguments).2
  | .new => match (← readArguments .new arguments {}).value with
    | some path => return new ⟨path⟩
    | none => throw .missingPath

-- An argument in place of a command that does not name one.
def unknown (argument : String) : Refusal :=
  match mostSimilar? argument (Topic.commands.map Topic.name) with
  | some suggestion => .similarCommand argument suggestion
  | none => .unknownArgument .program false argument "" none

-- Reads the arguments of the program, up to the name of a command.
def read (isTrailing : Bool) : List String → Except Refusal Command
  | [] => .error .missingCommand
  | x :: rest =>
    if x = "--" ∧ !isTrailing then read true rest
    else if isTrailing then .error (unknown x)
    else match Topic.ofName? x with
      | some topic => ofTopic topic rest
      | none => match x.toList with
        | '-' :: '-' :: _ => do
          let _ ← addLong .program x rest {}
          read isTrailing rest
        | '-' :: c :: cs => do
          let _ ← addShort .program {} (c :: cs)
          read isTrailing rest
        | _ => .error (unknown x)

-- Reads the arguments of the program.
def ofArguments (arguments : List String) : Except Refusal Command :=
  read false arguments

theorem ofArguments_nil : ofArguments [] = .error .missingCommand :=
  rfl

end Command

end StaticSite.CommandLine
