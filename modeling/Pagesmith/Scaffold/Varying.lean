import Pagesmith.Scaffold.Fixed
import Pagesmith.Scaffold.Template

/-!
The templates of files that hang on the project. `fillTemplate` finds them by name.
-/

namespace Pagesmith.Scaffold

/-- The document that loads the application. -/
def document : Template := [
  .text (closedLines [
    "<!doctype html>",
    "<html lang=\"en\">",
    "  <head>",
    "    <meta charset=\"UTF-8\" />",
    "    <link rel=\"icon\" type=\"image/svg+xml\" href=\"/vite.svg\" />",
    "    <meta name=\"viewport\" content=\"width=device-width, initial-scale=1.0\" />"]),
  .text "    <title>",
  .escaped "title",
  .text (closedLines [
    "</title>",
    "  </head>",
    "  <body>",
    "    <div id=\"root\"></div>",
    "    <script type=\"module\" src=\"/src/main.tsx\"></script>",
    "  </body>",
    "</html>"])]

/-- The settings of the build tool and its server. -/
def toolSettings : Template := [
  .text (closedLines [
    "import \x7b defineConfig \x7d from \"vite\";",
    "import react from \"@vitejs/plugin-react\";",
    "",
    "// https://vitejs.dev/config/",
    "export default defineConfig(\x7b",
    "  plugins: [react()],",
    "  resolve: \x7b",
    "    alias: \x7b",
    "      \"@\": \"/src\",",
    "    \x7d,",
    "  \x7d,",
    "  server: \x7b"]),
  .text "    port: ",
  .hole "port" none,
  .text (closedLines [
    ",",
    "    open: true,",
    "  \x7d,",
    "  build: \x7b",
    "    outDir: \"dist\",",
    "  \x7d,",
    "\x7d);"])]

/-- The module that shows each page under its path. -/
def router : Template := [
  .text (closedLines [
    "import React from \"react\";",
    "import \x7b createBrowserRouter, RouterProvider \x7d from \"react-router-dom\";"]),
  .each "route" "routes" [
    .text (closedLines [
      ""]),
    .text "import ",
    .hole "route" (some "component"),
    .text " from \"../pages/",
    .hole "route" (some "component"),
    .text "/",
    .hole "route" (some "component"),
    .text "\";"],
  .text (closedLines [
    "",
    ""]),
  .text "const router = createBrowserRouter([",
  .each "route" "routes" [
    .text (closedLines [
      "",
      "  \x7b"]),
    .text "    path: ",
    .hole "route" (some "path_literal"),
    .text (closedLines [
      ","]),
    .text "    element: <",
    .hole "route" (some "component"),
    .text (closedLines [
      " />,"]),
    .text "  \x7d,"],
  .text (closedLines [
    "",
    "]);",
    "",
    "const AppRouter: React.FC = () => \x7b",
    "  return <RouterProvider router=\x7brouter\x7d />;",
    "\x7d;",
    "",
    "export default AppRouter;"])]

/-- The document that loads the application of the other stack. -/
def vueDocument : Template := [
  .text (closedLines [
    "<!doctype html>",
    "<html lang=\"en\">",
    "  <head>",
    "    <meta charset=\"UTF-8\" />",
    "    <meta name=\"viewport\" content=\"width=device-width, initial-scale=1.0\" />"]),
  .text "    <title>",
  .escaped "title",
  .text (closedLines [
    "</title>",
    "  </head>",
    "  <body>",
    "    <div id=\"app\"></div>",
    "    <script type=\"module\" src=\"/src/main.ts\"></script>",
    "  </body>",
    "</html>"])]

/-- The component around all pages of the other stack. -/
def vueApplication : Template := [
  .text (closedLines [
    "<script setup lang=\"ts\">",
    "</script>",
    "",
    "<template>",
    "  <div id=\"app\">"]),
  .text "    <h1 v-pre>",
  .escaped "title",
  .text (closedLines [
    "</h1>",
    "    <p>Generated by pagegen.</p>",
    "  </div>",
    "</template>",
    "",
    "<style scoped>",
    "#app \x7b",
    "  font-family: Avenir, Helvetica, Arial, sans-serif;",
    "  text-align: center;",
    "  margin-top: 60px;",
    "\x7d",
    "</style>"])]

/-- The templates by name. -/
def templates : List (String × Template) := [
  ("react/index.html", document),
  ("react/vite.config.ts", toolSettings),
  ("react/router.tsx", router),
  ("vue/index.html", vueDocument),
  ("vue/App.vue", vueApplication)]

/-- The text of a named template over named values. -/
def fillTemplate (name : String) (scope : Scope) : Except Fault String :=
  match templates.lookup name with
  | some t => t.fill scope
  | none => .error (.unknownTemplate name)

end Pagesmith.Scaffold
