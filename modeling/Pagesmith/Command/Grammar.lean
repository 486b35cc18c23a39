/-!
Grammars of command lines: the options with their names, and what stands without a name. Options
are kept as data, so that the same rules read every grammar.
-/

namespace Pagesmith.Command

/-- What an option is about. -/
inductive Key where
  | help | version | config | workspace | logLevel | verbose
  | solution | publish | out | projectName
deriving DecidableEq

/-- An option. -/
structure Opt where
  key : Key
  /-- Its names, each with its dashes. -/
  names : List String
  takesValue : Bool
  /-- The values it may have; any value if there are none. -/
  choices : List String
deriving DecidableEq

/-- What stands without a name. -/
inductive Operand where
  | none
  /-- One value that has to be there. -/
  | one (name : String)
  /-- A command, one of these, and everything behind it. -/
  | command (name : String) (choices : List String)

structure Grammar where
  program : String
  usage : List String
  help : List String
  options : List Opt
  operand : Operand

namespace Opt

/-- An option without a value. -/
def flag (key : Key) (names : List String) : Opt := ⟨key, names, false, []⟩

/-- An option with a value. -/
def valued (key : Key) (names : List String) (choices : List String) : Opt :=
  ⟨key, names, true, choices⟩

/-- The name of an option in a fault. -/
def title (o : Opt) : String := String.intercalate "/" o.names

end Opt

namespace Grammar

/-- The options by their names, in order. -/
def byName (g : Grammar) : List (String × Opt) :=
  g.options.flatMap fun o => o.names.map fun n => (n, o)

def opt? (g : Grammar) (name : String) : Option Opt := g.byName.lookup name

end Grammar

/-- The option that asks for help. -/
def helpOpt : Opt := .flag .help ["-h", "--help"]

/-- Where an export can go. -/
def targetNames : List String := ["memory", "zip", "disk"]

def mainGrammar : Grammar where
  program := "pagegen"
  usage := [
    "usage: pagegen [-h] [--version] [--config CONFIG] [--workspace WORKSPACE]",
    "               [--log-level \x7bdebug,info,warn,warning,error\x7d] [--verbose]",
    "               \x7bexport,solutions,components\x7d ..."]
  help := [
    "",
    "Generate front-end projects from page builder schemas",
    "",
    "positional arguments:",
    "  \x7bexport,solutions,components\x7d",
    "                        Available commands",
    "    export              Generate a project from a schema JSON file",
    "    solutions           List available solutions",
    "    components          List known schema components",
    "",
    "options:",
    "  -h, --help            show this help message and exit",
    "  --version             show program's version number and exit",
    "  --config CONFIG       Path to a pagegen.toml or .pagegenrc configuration",
    "                        file",
    "  --workspace WORKSPACE",
    "                        Workspace root directory (defaults to current working",
    "                        directory)",
    "  --log-level \x7bdebug,info,warn,warning,error\x7d",
    "                        Set logging level (or set PAGEGEN_LOG_LEVEL)",
    "  --verbose             Debug logging and full tracebacks on errors"]
  options := [
    helpOpt, .flag .version ["--version"], .valued .config ["--config"] [],
    .valued .workspace ["--workspace"] [],
    .valued .logLevel ["--log-level"] ["debug", "info", "warn", "warning", "error"],
    .flag .verbose ["--verbose"]]
  operand := .command "command" ["export", "solutions", "components"]

def exportGrammar : Grammar where
  program := "pagegen export"
  usage := [
    "usage: pagegen export [-h] [--solution SOLUTION] [--publish \x7bmemory,zip,disk\x7d]",
    "                      [--out OUT] [--project-name PROJECT_NAME]",
    "                      schema"]
  help := [
    "",
    "positional arguments:",
    "  schema                Path to the schema JSON file",
    "",
    "options:",
    "  -h, --help            show this help message and exit",
    "  --solution SOLUTION, -s SOLUTION",
    "                        Solution name (default: react-vite)",
    "  --publish \x7bmemory,zip,disk\x7d",
    "                        Publish target (default: the solution's publisher)",
    "  --out OUT, -o OUT     Output directory for archives and files",
    "  --project-name PROJECT_NAME",
    "                        Project folder and package name"]
  options := [
    helpOpt, .valued .solution ["--solution", "-s"] [],
    .valued .publish ["--publish"] targetNames, .valued .out ["--out", "-o"] [],
    .valued .projectName ["--project-name"] []]
  operand := .one "schema"

def listGrammar (command : String) : Grammar where
  program := "pagegen " ++ command
  usage := ["usage: pagegen " ++ command ++ " [-h]"]
  help := ["", "options:", "  -h, --help  show this help message and exit"]
  options := [helpOpt]
  operand := .none

end Pagesmith.Command
