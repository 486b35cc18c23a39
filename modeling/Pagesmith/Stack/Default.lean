import Pagesmith.Stack.Basic

/-!
The stacks that are there from the start.
-/

namespace Pagesmith.Stack

/-- A stack that does nothing. -/
def bare (name description : String) : Stack :=
  { name, description, skeleton := none, parts := [], steps := [], finishers := [],
    target := .memory, hasPages := true }

/-- Single-page applications, with pages and all files around them. -/
def reactVite (o : Format.Options) : Stack :=
  { name := "react-vite"
    description := "React 18 + Vite 5 + TypeScript single-page app with Ant Design"
    skeleton := none
    parts := [.styles, .markup o.lineWidth]
    steps := Scaffold.Step.all
    finishers := [.form o]
    target := .archive
    hasPages := true }

/-- The description of a package without pages. -/
def emptyPackage (projectName : String) : Value :=
  .dict [("name", .str (Text.packageName projectName)), ("private", .bool true),
    ("version", .str "0.0.0"), ("type", .str "module"),
    ("scripts", Scaffold.textTable [
      ("dev", "vite"), ("build", "vue-tsc && vite build"), ("preview", "vite preview")]),
    ("dependencies", Scaffold.textTable [("vue", "^3.4.0")]),
    ("devDependencies", Scaffold.textTable [
      ("@vitejs/plugin-vue", "^5.0.0"), ("typescript", "^5.2.2"), ("vite", "^5.2.0"),
      ("vue-tsc", "^2.0.0")])]

/-- The files of a project without pages. -/
def emptyProject : Skeleton where
  name := "vue-vite"
  files projectName := do
    let title := [("title", Value.str projectName)]
    let package ← Format.manifestOf (emptyPackage projectName)
    let document ← Scaffold.vueDocument.fill title
    let application ← Scaffold.vueApplication.fill title
    pure [
      .ofPath "package.json" package .json,
      .ofPath "index.html" document .html,
      .ofPath "src/main.ts" Scaffold.vueEntry .ts,
      .ofPath "src/App.vue" application .vue,
      .ofPath ".gitignore" Scaffold.ignored .other]

/-- Applications of the other framework, without pages so far. -/
def vueVite : Stack :=
  { name := "vue-vite"
    description := "Vue 3 + Vite 5 + TypeScript app (skeleton)"
    skeleton := some emptyProject
    parts := []
    steps := []
    finishers := []
    target := .archive
    hasPages := false }

/-- The stack that is used if nothing else is said. -/
def defaultName : String := "react-vite"

/-- All stacks that are there from the start. -/
def all (o : Format.Options) : Stacks :=
  [(defaultName, reactVite o), ("vue-vite", vueVite)]

end Pagesmith.Stack
