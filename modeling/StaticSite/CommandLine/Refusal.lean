import StaticSite.Cause
/-!
What the program answers if its arguments name no command that it can run: help that was asked for,
or what is wrong with them, with the usage of the command in question.
-/
namespace StaticSite.CommandLine

-- What arguments and help are about: the program or one of its commands.
inductive Topic where
  | program
  | build
  | clean
  | new
  | help
  deriving DecidableEq, Repr

inductive Refusal where
  | help (topic : Topic)
  | version (topic : Topic)
  | missingCommand
  -- Help on a command that does not exist.
  | unknownTopic (name : String)
  | similarCommand (name suggestion : String)
  -- The hint may name an option of this topic, which the usage shows then.
  | unknownArgument (topic : Topic) (hasOutput : Bool) (argument hint : String)
    (suggestion : Option String)
  | missingPath
  | missingOutput (topic : Topic)
  | repeatedOutput (topic : Topic)
  deriving DecidableEq, Repr

-- Lines of text with nothing behind the last one.
def lines (ls : List String) : String :=
  "\n".intercalate ls

namespace Topic

def name : Topic → String
  | program => "quire"
  | build => "build"
  | clean => "clean"
  | new => "new"
  | help => "help"

-- The commands that help is given on, in the order in which they are compared.
def commands : List Topic :=
  [build, clean, new, help]

def ofName? (name : String) : Option Topic :=
  commands.find? (·.name = name)

def about : Topic → String
  | program => "Compiles a tree of markdown pages into a static HTML site"
  | build => "Builds the site into the output directory"
  | clean => "Removes the output directory"
  | new => "Creates a new site skeleton"
  | help => "Prints this message or the help of the given subcommand(s)"

-- How the command is called.
def call : Topic → String
  | program => "quire"
  | t => "quire " ++ t.name

def hasOutput : Topic → Bool
  | build | clean => true
  | _ => false

-- The long names of options that take no value.
def flags : List String :=
  ["help", "version"]

-- What may stand behind the call.
def parameters : Topic → String
  | program => " <SUBCOMMAND>"
  | build | clean => " [OPTIONS] [SOURCE]"
  | new => " <PATH>"
  | help => " [subcommand]..."

-- The usage; with options that were used, it shows these instead of all that can be.
def usage (t : Topic) (options : List String) : String :=
  "USAGE:\n    " ++ t.call ++
    if options.isEmpty then t.parameters
    else (if t = new then t.parameters else "") ++ String.join (options.map (" " ++ ·))

def outputOption : String :=
  "--output <DIR>"

def flagsHelp : List String :=
  ["",
   "FLAGS:",
   "    -h, --help       Prints help information",
   "    -V, --version    Prints version information"]

def outputHelp : List String :=
  ["",
   "OPTIONS:",
   "    -o, --output <DIR>    The output directory (defaults to \x60build\x60 in the source tree)"]

def sourceHelp : List String :=
  ["",
   "ARGS:",
   "    <SOURCE>    The root of the site's source tree [default: .]"]

def pathHelp : List String :=
  ["",
   "ARGS:",
   "    <PATH>    Where to create the site"]

def topicHelp : List String :=
  ["",
   "ARGS:",
   "    <subcommand>...    The subcommand whose help message to display"]

-- The list of the commands, in the order of their names.
def commandsHelp : List String :=
  ["",
   "SUBCOMMANDS:",
   "    build    " ++ build.about,
   "    clean    " ++ clean.about,
   "    help     " ++ help.about,
   "    new      " ++ new.about]

def title : Topic → String
  | program => "quire 0.1.0"
  | t => "quire-" ++ t.name ++ " "

def helpText (t : Topic) : String :=
  lines <| [t.title, t.about, "", t.usage []] ++ match t with
    | program => flagsHelp ++ commandsHelp
    | build | clean => flagsHelp ++ outputHelp ++ sourceHelp
    | new => flagsHelp ++ pathHelp
    | help => topicHelp

end Topic

namespace Refusal

open Topic

-- Words that stand out on a terminal.
def emphasised (text : String) : String :=
  "\x1b[32m" ++ text ++ "\x1b[0m"

-- The options that a usage shows.
def used (hasOutput : Bool) (suggestion : Option String) : List String :=
  let output := if hasOutput || suggestion = some "output" then [outputOption] else []
  let flag := match suggestion with
    | some name => if flags.contains name then ["--" ++ name] else []
    | none => []
  output ++ flag

def error (complaint usage : String) : String :=
  "error: " ++ complaint ++ "\n\n" ++ usage ++ "\n\nFor more information try --help"

def message : Refusal → String
  | help t => t.helpText
  | version t => t.title
  | missingCommand => program.helpText
  | unknownTopic name =>
    error ("The subcommand '" ++ name ++ "' wasn't recognized")
      "USAGE:\n\tquire help <subcommands>..."
  | similarCommand name suggestion =>
    error (lines
     ["The subcommand '" ++ name ++ "' wasn't recognized",
      "\tDid you mean '" ++ suggestion ++ "'?",
      "",
      "If you believe you received this message in error, try re-running with 'quire -- " ++
        name ++ "'"]) (program.usage [])
  | unknownArgument t hasOutput argument hint suggestion =>
    error ("Found argument '" ++ argument ++
      "' which wasn't expected, or isn't valid in this context" ++ hint)
      (t.usage (used hasOutput suggestion))
  | missingPath =>
    error (lines ["The following required arguments were not provided:", "    <PATH>"])
      (new.usage [])
  | missingOutput t =>
    error ("The argument '" ++ outputOption ++ "' requires a value but none was supplied")
      (t.usage [outputOption])
  | repeatedOutput t =>
    error ("The argument '" ++ outputOption ++
      "' was provided more than once, but cannot be used multiple times")
      (t.usage [outputOption])

-- Whether nothing is wrong with the arguments: they asked for the message.
def isAnswer : Refusal → Bool
  | help _ | version _ => true
  | _ => false

end Refusal

end StaticSite.CommandLine
