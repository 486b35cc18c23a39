import Pagesmith.Fault

/-!
Files that are the same in every project. Each is written line by line; `fixedFile` finds them by
name.
-/

namespace Pagesmith.Scaffold

def closedLines (ls : List String) : String :=
  String.join (ls.map (· ++ "\n"))

/-- Declarations of the environment that modules are built in. -/
def environment : String := closedLines [
  "/// <reference types=\"vite/client\" />",
  "",
  "declare module \"*.module.scss\" \x7b",
  "  const classes: \x7b [key: string]: string \x7d;",
  "  export default classes;",
  "\x7d",
  "",
  "declare module \"*.module.css\" \x7b",
  "  const classes: \x7b [key: string]: string \x7d;",
  "  export default classes;",
  "\x7d"]

/-- What is not kept under version control. -/
def ignored : String := closedLines [
  "# Logs",
  "logs",
  "*.log",
  "npm-debug.log*",
  "yarn-debug.log*",
  "pnpm-debug.log*",
  "",
  "node_modules",
  "dist",
  "dist-ssr",
  "*.local",
  "",
  "# Editor directories and files",
  ".vscode/*",
  "!.vscode/extensions.json",
  ".idea",
  ".DS_Store"]

/-- The style all pages share. -/
def globalStyle : String := closedLines [
  "*,",
  "*::before,",
  "*::after \x7b",
  "  box-sizing: border-box;",
  "\x7d",
  "",
  "html,",
  "body,",
  "#root \x7b",
  "  margin: 0;",
  "  padding: 0;",
  "  min-height: 100%;",
  "\x7d",
  "",
  "body \x7b",
  "  font-family: -apple-system, BlinkMacSystemFont, \"Segoe UI\", " ++
      "Roboto, \"Helvetica Neue\", Arial, sans-serif;",
  "  -webkit-font-smoothing: antialiased;",
  "\x7d",
  "",
  ".pagegen-app \x7b",
  "  min-height: 100vh;",
  "\x7d",
  "",
  ".page-wrapper \x7b",
  "  padding: 16px;",
  "\x7d"]

/-- The component around a page. -/
def pageWrapper : String := closedLines [
  "import React from \"react\";",
  "",
  "interface PageProps \x7b",
  "  children?: React.ReactNode;",
  "  style?: React.CSSProperties;",
  "  className?: string;",
  "\x7d",
  "",
  "const Page: React.FC<PageProps> = (\x7b children, style, className \x7d) => \x7b",
  "  return (",
  "    <div className=\x7b[\"page-wrapper\", className].filter(Boolean).join(\" " ++
      "\")\x7d style=\x7bstyle\x7d>",
  "      \x7bchildren\x7d",
  "    </div>",
  "  );",
  "\x7d;",
  "",
  "export default Page;"]

def pageHeader : String := closedLines [
  "import React from \"react\";",
  "import \x7b Space, Typography \x7d from \"antd\";",
  "",
  "const \x7b Title, Text \x7d = Typography;",
  "",
  "interface PageHeaderProps \x7b",
  "  title?: string;",
  "  subTitle?: string;",
  "  style?: React.CSSProperties;",
  "  className?: string;",
  "\x7d",
  "",
  "const PageHeader: React.FC<PageHeaderProps> = (\x7b title, subTitle, " ++
      "style, className \x7d) => \x7b",
  "  const combinedStyle: React.CSSProperties = \x7b",
  "    border: \"1px solid #f0f0f0\",",
  "    padding: \"16px 24px\",",
  "    ...style,",
  "  \x7d;",
  "",
  "  return (",
  "    <div style=\x7bcombinedStyle\x7d className=\x7bclassName\x7d>",
  "      <Space direction=\"vertical\">",
  "        <Title level=\x7b3\x7d style=\x7b\x7b margin: 0 \x7d\x7d>",
  "          \x7btitle\x7d",
  "        </Title>",
  "        <Text type=\"secondary\">\x7bsubTitle\x7d</Text>",
  "      </Space>",
  "    </div>",
  "  );",
  "\x7d;",
  "",
  "export default PageHeader;"]

/-- The names of the components of the project. -/
def componentIndex : String := closedLines [
  "export \x7b default as Page \x7d from \"./Page\";",
  "export \x7b default as PageHeader \x7d from \"./PageHeader\";"]

/-- The component around all pages. -/
def application : String := closedLines [
  "import React from \"react\";",
  "import AppRouter from \"./router\";",
  "import \"./global.scss\";",
  "",
  "const App: React.FC = () => \x7b",
  "  return (",
  "    <div className=\"pagegen-app\">",
  "      <AppRouter />",
  "    </div>",
  "  );",
  "\x7d;",
  "",
  "export default App;"]

/-- The module that starts the application. -/
def entry : String := closedLines [
  "import React from \"react\";",
  "import ReactDOM from \"react-dom/client\";",
  "import App from \"./App\";",
  "",
  "const container = document.getElementById(\"root\");",
  "",
  "if (container) \x7b",
  "  ReactDOM.createRoot(container).render(",
  "    <React.StrictMode>",
  "      <App />",
  "    </React.StrictMode>",
  "  );",
  "\x7d else \x7b",
  "  console.error('No element with id \"root\" to mount the app into.');",
  "\x7d"]

/-- The module that starts the application of the other stack. -/
def vueEntry : String := closedLines [
  "import \x7b createApp \x7d from \"vue\";",
  "import App from \"./App.vue\";",
  "",
  "createApp(App).mount(\"#app\");"]

/-- The files by name. -/
def fixedFiles : List (String × String) := [
  ("react/vite-env.d.ts", environment),
  ("common/.gitignore", ignored),
  ("react/global.scss", globalStyle),
  ("react/components/Page.tsx", pageWrapper),
  ("react/components/PageHeader.tsx", pageHeader),
  ("react/components/index.ts", componentIndex),
  ("react/App.tsx", application),
  ("react/main.tsx", entry),
  ("vue/main.ts", vueEntry)]

def fixedFile (name : String) : Except Fault String :=
  match fixedFiles.lookup name with
  | some s => .ok s
  | none => .error (.unknownFile name)

end Pagesmith.Scaffold
