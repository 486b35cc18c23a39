import Pagesmith.Format.File
import Pagesmith.Table
import Pagesmith.Text.Name

/-!
The manifests of a project: its package with scripts and dependencies, and the settings of the
compiler.
-/

namespace Pagesmith.Scaffold

/-- The packages every project needs, in the versions that go together. -/
def corePackages : List (String × String) := [
  ("react", "^18.2.0"), ("react-dom", "^18.2.0"), ("react-router-dom", "^6.23.0"),
  ("@vitejs/plugin-react", "^4.2.1"), ("typescript", "^5.2.2"), ("vite", "^5.2.0"),
  ("sass", "^1.77.0")]

/-- The packages needed while working on a project. -/
def toolPackages : List (String × String) := [
  ("@types/react", "^18.2.66"), ("@types/react-dom", "^18.2.22"),
  ("@typescript-eslint/eslint-plugin", "^7.2.0"), ("@typescript-eslint/parser", "^7.2.0"),
  ("eslint", "^8.57.0"), ("eslint-plugin-react-hooks", "^4.6.0"),
  ("eslint-plugin-react-refresh", "^0.4.6")]

/-- The commands of a project. -/
def scripts : List (String × String) := [
  ("dev", "vite"), ("build", "tsc && vite build"),
  ("lint", "eslint . --ext ts,tsx --report-unused-disable-directives --max-warnings 0"),
  ("preview", "vite preview")]

def textTable (entries : List (String × String)) : Value :=
  .dict (entries.map fun e => (e.1, .str e.2))

/-- The packages of a project by name: those of its components, and the core ones. -/
def packageTable (components : List (String × String)) : List (String × String) :=
  Table.sorted (Table.insertAll components corePackages)

/-- The description of the package. -/
def package (name : String) (components : List (String × String)) : Value :=
  .dict [("name", .str (Text.packageName name)), ("private", .bool true), ("version", .str "0.0.0"),
    ("type", .str "module"), ("scripts", textTable scripts),
    ("dependencies", textTable (packageTable components)),
    ("devDependencies", textTable toolPackages)]

def compilerSettings : Value :=
  .dict [
    ("compilerOptions", .dict [
      ("target", .str "ES2020"), ("useDefineForClassFields", .bool true),
      ("lib", .list [.str "ES2020", .str "DOM", .str "DOM.Iterable"]),
      ("module", .str "ESNext"), ("skipLibCheck", .bool true),
      ("moduleResolution", .str "bundler"), ("allowImportingTsExtensions", .bool true),
      ("resolveJsonModule", .bool true), ("isolatedModules", .bool true), ("noEmit", .bool true),
      ("jsx", .str "react-jsx"), ("strict", .bool true), ("noUnusedLocals", .bool true),
      ("noUnusedParameters", .bool false), ("noFallthroughCasesInSwitch", .bool true),
      ("baseUrl", .str "."), ("paths", .dict [("@/*", .list [.str "./src/*"])])]),
    ("include", .list [.str "src"]),
    ("references", .list [.dict [("path", .str "./tsconfig.node.json")]])]

def toolCompilerSettings : Value :=
  .dict [
    ("compilerOptions", .dict [
      ("composite", .bool true), ("skipLibCheck", .bool true), ("module", .str "ESNext"),
      ("moduleResolution", .str "bundler"), ("allowSyntheticDefaultImports", .bool true)]),
    ("include", .list [.str "vite.config.ts"])]

end Pagesmith.Scaffold
