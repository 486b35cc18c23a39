import Pagesmith.Bundle
import Pagesmith.Scaffold.Manifest
import Pagesmith.Scaffold.Route
import Pagesmith.Scaffold.Varying
import Pagesmith.Script.Literal
import Pagesmith.Value.Weight
import Pagesmith.Value.Whole

/-!
The steps that add the files around the pages. A step belongs to a phase, before the pages or
after them, and has a weight there; steps of a phase run by ascending weight.
-/

namespace Pagesmith.Scaffold

inductive Step where
  | compiler
  /-- The build tool, with the port of its server. -/
  | tool (port : Value)
  | ignored
  | document
  | environment
  | globalStyle
  | components
  | router
  | entry
  | package

/-- Things of a phase in the order of their weights, those of equal weight in the order given. -/
def ordered {α : Type} (phaseOf : α → String) (weightOf : α → Weight) (phase : String)
    (steps : List α) : List α :=
  let rec place (x : α) : List α → List α
    | [] => [x]
    | y :: r => if (weightOf x).isLess (weightOf y) then x :: y :: r else y :: place x r
  (steps.filter (phaseOf · == phase)).foldl (fun done x => place x done) []

namespace Step

def name : Step → String
  | compiler => "tsconfig"
  | tool _ => "vite-config"
  | ignored => "gitignore"
  | document => "index-html"
  | environment => "vite-env"
  | globalStyle => "global-style"
  | components => "project-components"
  | router => "react-router"
  | entry => "react-entry"
  | package => "package-json"

/-- The phase before the pages. -/
def early : String := "pre"

/-- The phase after the pages. -/
def late : String := "post"

def phase : Step → String
  | compiler | tool _ | ignored | document | environment => early
  | globalStyle | components | router | entry | package => late

/-- The weight of a step. The package comes last, when all dependencies are known. -/
def weight : Step → Nat
  | compiler | globalStyle => 10
  | tool _ | components => 20
  | ignored | router => 30
  | document | entry => 40
  | environment => 50
  | package => 100

/-- The port of the server if nothing else is said. -/
def defaultPort : Value := .int 3000

def all : List Step :=
  [compiler, tool defaultPort, ignored, document, environment, globalStyle, components, router,
    entry, package]

/-- The values that the router's template names for a page. -/
def routeEntry (p : Page) : Value :=
  .dict [("component", .str (Route.component p.fileName)),
    ("path_literal", .str (Script.stringLiteral (Route.path p.fileName)))]

def files (b : Bundle) : Step → Except Fault (List OutputFile)
  | compiler => do
    let sources ← Format.manifestOf compilerSettings
    let tools ← Format.manifestOf toolCompilerSettings
    pure [.ofPath "tsconfig.json" sources .json, .ofPath "tsconfig.node.json" tools .json]
  | tool port => do
    let n ← port.whole
    pure [.ofPath "vite.config.ts" (← toolSettings.fill [("port", .int n)]) .ts]
  | ignored => .ok [.ofPath ".gitignore" Scaffold.ignored .other]
  | document => do
    pure [.ofPath "index.html" (← Scaffold.document.fill [("title", .str b.name)]) .html]
  | environment => .ok [.ofPath "src/vite-env.d.ts" Scaffold.environment .ts]
  | globalStyle => .ok [.ofPath "src/global.scss" Scaffold.globalStyle .scss]
  | components => .ok [
      .ofPath "src/components/Page.tsx" pageWrapper .tsx,
      .ofPath "src/components/PageHeader.tsx" pageHeader .tsx,
      .ofPath "src/components/index.ts" componentIndex .ts]
  | router => do
    let text ← Scaffold.router.fill [("routes", .list (b.project.pages.map routeEntry))]
    pure [.ofPath "src/router/index.tsx" text .tsx]
  | entry => .ok [.ofPath "src/App.tsx" application .tsx, .ofPath "src/main.tsx" Scaffold.entry .tsx]
  | package => do
    let text ← Format.manifestOf (Scaffold.package b.name b.project.manifest)
    pure [.ofPath "package.json" text .json]

def run (step : Step) (b : Bundle) : Job Bundle := do
  b.addAll (← Job.ofExcept (step.files b))

def ofPhase (phase : String) (steps : List Step) : List Step :=
  ordered Step.phase (fun s => .number s.weight) phase steps

/-- Run steps one after the other. -/
def runAll : List Step → Bundle → Job Bundle
  | [], b => pure b
  | s :: r, b => do runAll r (← s.run b)

end Step

end Pagesmith.Scaffold
