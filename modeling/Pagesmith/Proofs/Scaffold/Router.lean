import Pagesmith.Proofs.Format.Lines
import Pagesmith.Proofs.Module.Header
import Pagesmith.Proofs.Text.Pascal
import Pagesmith.Proofs.Value.Refold
import Pagesmith.Scaffold.Step

/-!
The module of the routes. It is a text of lines, of which each page has one that imports it and four
that say its route. Brought into form and read back, it imports each page and has one route for it, in
the order of the pages.
-/

namespace Pagesmith.Scaffold
open Format Pagesmith.Module Script Text

section Filling

variable {scope : Scope}

theorem forEach_ok {α : Type} {f : Value → Except Fault String} {value : α → Value} {text : α → String}
    (h : ∀ a, f (value a) = .ok (text a)) (as : List α) :
    forEach f (as.map value) = .ok (String.join (as.map text)) := by
  induction as with
  | nil => rfl
  | cons a r ih =>
    rw [List.map_cons, forEach, h, ih, List.map_cons, String.join_cons]
    rfl

/-- Parts that are repeated give one text after the other. -/
theorem fill_each {α : Type} {value : α → Value} (text : α → String) {as : List α}
    {item list : String} {body : List Part} (acyclic : ∀ a, .circular ∉ (value a).obstacles)
    (found : scope.lookup list = some (.list (as.map value)))
    (each : ∀ a, Part.fillAll (Table.insert item (value a) scope) body = .ok (text a)) :
    Part.fill scope (.each item list body) = .ok (String.join (as.map text)) := by
  have items : Value.itemsOf .list (as.map value) = as.map value := by
    refine Value.itemsOf_eq ?_
    rw [Value.mem_obstaclesOfItems]
    rintro ⟨x, mem, circular⟩
    obtain ⟨a, -, rfl⟩ := List.mem_map.1 mem
    exact acyclic a circular
  rw [Part.fill, Scope.find, found]
  change forEach _ (Value.itemsOf .list (as.map value)) = _
  rw [items]
  exact forEach_ok each as

theorem fillAll_cons {p : Part} {r : List Part} {s t : String} (first : p.fill scope = .ok s)
    (rest : Part.fillAll scope r = .ok t) : Part.fillAll scope (p :: r) = .ok (s ++ t) := by
  rw [Part.fillAll, first, rest]
  rfl

end Filling

section Lines

theorem closedLines_cons (l : String) (r : List String) :
    closedLines (l :: r) = l ++ "\n" ++ closedLines r := by
  rw [closedLines, List.map_cons, String.join_cons, closedLines]

theorem closedLines_append (ls more : List String) :
    closedLines (ls ++ more) = closedLines ls ++ closedLines more := by
  rw [closedLines, List.map_append, String.join_append]
  rfl

/-- Line feeds in front of lines, and one behind them, are one in front of closed lines. -/
theorem join_feeds (ls : List String) :
    String.join (ls.map ("\n" ++ ·)) ++ "\n" = "\n" ++ closedLines ls := by
  induction ls with
  | nil => rfl
  | cons l r ih =>
    rw [List.map_cons, String.join_cons, String.append_assoc, ih, closedLines_cons]
    simp only [String.append_assoc]

theorem pieces_closedLines {ls : List String} (whole : ∀ l ∈ ls, '\n' ∉ l.toList) :
    pieces '\n' (closedLines ls).toList = ls.map String.toList ++ [[]] := by
  induction ls with
  | nil => rfl
  | cons l r ih =>
    obtain ⟨first, rest⟩ := List.forall_mem_cons.1 whole
    have text : (closedLines (l :: r)).toList = l.toList ++ '\n' :: (closedLines r).toList := by
      rw [closedLines_cons]
      simp
    rw [text, pieces_append, pieces_whole first, ih rest]
    rfl

end Lines

/-- Where a router imports a page from. -/
def routeSource (p : Page) : String :=
  "../pages/" ++ Route.component p.fileName ++ "/" ++ Route.component p.fileName

/-- The import of a page. -/
def pageEntry (p : Page) : Entry := (routeSource p, ⟨some (Route.component p.fileName), []⟩)

/-- What a router imports besides the pages. -/
def routerLibraries : List Entry := [
  ("react", ⟨some "React", []⟩),
  ("react-router-dom", ⟨none, [("createBrowserRouter", "createBrowserRouter"),
    ("RouterProvider", "RouterProvider")]⟩)]

theorem routerLibraries_lines : routerLibraries.map Entry.line = [
    "import React from \"react\";",
    "import \x7b createBrowserRouter, RouterProvider \x7d from \"react-router-dom\";"] := by
  decide +kernel

/-- Everything that a router imports. -/
def routerEntries (ps : List Page) : List Entry := routerLibraries ++ ps.map pageEntry

/-- The lines of a page's route. -/
def routeLines (p : Page) : List String := [
  "  \x7b",
  "    path: " ++ stringLiteral (Route.path p.fileName) ++ ",",
  "    element: <" ++ Route.component p.fileName ++ " />,",
  "  \x7d,"]

/-- The line in front of the routes. -/
def routesOpening : String := "const router = createBrowserRouter(["

/-- The lines behind the routes. -/
def routesClosing : List String := [
  "]);",
  "",
  "const AppRouter: React.FC = () => \x7b",
  "  return <RouterProvider router=\x7brouter\x7d />;",
  "\x7d;",
  "",
  "export default AppRouter;"]

def routerLines (ps : List Page) : List String :=
  routerLibraries.map Entry.line ++ "" :: (ps.map pageEntry).map Entry.line ++
    "" :: routesOpening :: (ps.flatMap routeLines ++ routesClosing)

theorem spelling_alphanum {c : Char} (h : c.isAlphanum = true) : spelling c = [c] := by
  have other {d : Char} (no : d.isAlphanum = false) : c ≠ d := by
    rintro rfl
    exact absurd h (by simp [no])
  have range := isAlphanum_range h
  have inert : IsInert c :=
    ⟨other (by decide), other (by decide), other (by decide), by omega, by omega, by omega⟩
  exact spelling_inert inert (other (by decide)) (other (by decide))

theorem pageEntry_line (p : Page) : (pageEntry p).line =
    "import " ++ Route.component p.fileName ++ " from \"../pages/" ++ Route.component p.fileName ++
      "/" ++ Route.component p.fileName ++ "\";" := by
  have isName : ∀ d ∈ some (Route.component p.fileName), IsName d := fun d mem =>
    Option.some.inj mem ▸ isName_pascalCase p.fileName
  have letters : ∀ c ∈ (Route.component p.fileName).toList, spelling c = [c] := fun c mem =>
    spelling_alphanum (pascalCase_isAlphanum _ c mem)
  have plain : ∀ c ∈ (routeSource p).toList, spelling c = [c] := by
    simp only [routeSource, String.toList_append, List.forall_mem_append]
    exact ⟨⟨⟨forall_chars (by decide), letters⟩, forall_chars (by decide)⟩, letters⟩
  rw [Entry.line, pageEntry, importLine_eq _ (given_of_names isName), stringLiteral_plain plain,
    ← String.toList_inj]
  simp [clauseText, routeSource]

/-- The text of a router, line by line. -/
theorem router_fill (ps : List Page) :
    router.fill [("routes", .list (ps.map Step.routeEntry))] = .ok (closedLines (routerLines ps)) := by
  have importText (p : Page) : "\n" ++ (pageEntry p).line = "\n" ++ ("import " ++
      (Route.component p.fileName ++ (" from \"../pages/" ++ (Route.component p.fileName ++
        ("/" ++ (Route.component p.fileName ++ ("\";" ++ ""))))))) := by
    rw [pageEntry_line]
    simp only [String.append_assoc, String.append_empty]
  have routeText (p : Page) : String.join ((routeLines p).map ("\n" ++ ·)) =
      closedLines ["", "  \x7b"] ++ ("    path: " ++ (stringLiteral (Route.path p.fileName) ++
        (closedLines [","] ++ ("    element: <" ++ (Route.component p.fileName ++
          (closedLines [" />,"] ++ ("  \x7d," ++ ""))))))) := by
    rw [← String.toList_inj]
    simp [routeLines, closedLines]
  let imports := String.join (ps.map fun p => "\n" ++ (pageEntry p).line)
  let routes := String.join (ps.map fun p => String.join ((routeLines p).map ("\n" ++ ·)))
  have acyclic (p : Page) : .circular ∉ (Step.routeEntry p).obstacles := by
    simp [Step.routeEntry, Value.obstacles, Value.obstaclesOfEntries]
  -- The parts of the template start each repeated line with a line feed, where a text of lines ends
  -- it with one: the template is filled as it is, and the line feeds are moved afterwards.
  have filled : router.fill [("routes", .list (ps.map Step.routeEntry))] = .ok (
      closedLines (routerLibraries.map Entry.line) ++ (imports ++ ("\n\n" ++ (routesOpening ++
        (routes ++ (closedLines ("" :: routesClosing) ++ "")))))) := by
    rw [routerLibraries_lines]
    exact fillAll_cons rfl <|
      fillAll_cons (fill_each _ acyclic rfl fun p => congrArg Except.ok (importText p).symm) <|
      fillAll_cons rfl <| fillAll_cons rfl <|
      fillAll_cons (fill_each _ acyclic rfl fun p => congrArg Except.ok (routeText p).symm) <|
      fillAll_cons rfl rfl
  have importLines : imports ++ "\n" = "\n" ++ closedLines ((ps.map pageEntry).map Entry.line) := by
    rw [← join_feeds, List.map_map, List.map_map]
    rfl
  have routeLines_ : routes ++ "\n" = "\n" ++ closedLines (ps.flatMap routeLines) := by
    rw [← join_feeds, ← String.toList_inj]
    simp [routes, List.map_flatMap, List.flatMap_assoc, String.toList_join, List.flatMap_map]
  rw [filled]
  refine congrArg Except.ok ?_
  calc closedLines (routerLibraries.map Entry.line) ++ (imports ++ ("\n\n" ++ (routesOpening ++
        (routes ++ (closedLines ("" :: routesClosing) ++ "")))))
      = closedLines (routerLibraries.map Entry.line) ++ ((imports ++ "\n") ++ ("\n" ++ routesOpening ++
        ((routes ++ "\n") ++ closedLines routesClosing))) := by
        rw [closedLines_cons, ← String.toList_inj]
        simp
    _ = closedLines (routerLines ps) := by
        rw [importLines, routeLines_, routerLines, closedLines_append, closedLines_append,
          closedLines_cons, closedLines_cons, closedLines_cons, closedLines_append, ← String.toList_inj]
        simp

section Reading

/-- What a line has between a start and an end. -/
def between (start ending : String) (l : List Char) : Option (List Char) :=
  (l.dropPrefix? start.toList).bind (·.dropSuffix? ending.toList)

/-- The text that a string stands for. -/
def readString (cs : List Char) : Option String :=
  match Value.Reader.document none cs with
  | .ok (.str s) => some s
  | _ => none

/-- The routes that lines list: the path of each, and the component that it shows. -/
def readRouteLines : List (List Char) → Option (List (String × String))
  | [] => some []
  | opening :: path :: element :: closing :: r =>
    if opening == "  \x7b".toList && closing == "  \x7d,".toList then do
      let path ← readString (← between "    path: " "," path)
      let component ← between "    element: <" " />," element
      let rest ← readRouteLines r
      some ((path, String.ofList component) :: rest)
    else none
  | _ => none

/-- The routes of a router: those listed between the line that opens the list and the one that closes
it, blank lines aside. -/
def readRoutes (text : String) : Option (List (String × String)) :=
  let listed := (inked (linesOf text.toList)).dropWhile (· != routesOpening.toList)
  readRouteLines ((listed.drop 1).takeWhile (· != "]);".toList))

theorem between_written (start ending : String) (cs : List Char) :
    between start ending (start.toList ++ cs ++ ending.toList) = some cs := by
  rw [between, List.append_assoc, List.dropPrefix?_append_of_beq _ (beq_self_eq_true _)]
  exact List.dropSuffix?_eq_some_iff.2 ⟨_, rfl, beq_self_eq_true _⟩

theorem readString_written (s : String) : readString (stringLiteral s).toList = some s := by
  rw [readString, Value.Reader.document_writes (writes_stringLiteral none s)]

theorem readRouteLines_written (ps : List Page) :
    readRouteLines ((ps.flatMap routeLines).map String.toList) =
      some (ps.map fun p => (Route.path p.fileName, Route.component p.fileName)) := by
  induction ps with
  | nil => rfl
  | cons p r ih =>
    have path : ("    path: " ++ stringLiteral (Route.path p.fileName) ++ ",").toList =
        "    path: ".toList ++ (stringLiteral (Route.path p.fileName)).toList ++ ",".toList := by
      simp only [String.toList_append]
    have element : ("    element: <" ++ Route.component p.fileName ++ " />,").toList =
        "    element: <".toList ++ (Route.component p.fileName).toList ++ " />,".toList := by
      simp only [String.toList_append]
    simp only [List.flatMap_cons, routeLines, List.cons_append, List.nil_append, List.map_cons, path,
      element, readRouteLines, between_written, ih]
    simp [readString_written]

end Reading

section Form

/-- A line of characters that show and spaces, without a space at its end. -/
structure IsPlainLine (l : String) : Prop where
  shown : ∀ c ∈ l.toList, 0x20 ≤ c.toNat
  ends : ∀ c ∈ l.toList.getLast?, isBlank c = false

instance (l : String) : Decidable (IsPlainLine l) :=
  decidable_of_iff ((l.toList.all fun c => decide (0x20 ≤ c.toNat)) = true ∧
      (l.toList.getLast?.all fun c => !isBlank c) = true) <| by
    rw [List.all_eq_true, Option.all_eq_true]
    simp only [decide_eq_true_eq, Bool.not_eq_true']
    exact ⟨fun h => ⟨h.1, h.2⟩, fun h => ⟨h.shown, h.ends⟩⟩

theorem IsPlainLine.append {s t : String} (shown : ∀ c ∈ s.toList, 0x20 ≤ c.toNat)
    (h : IsPlainLine t) (some : t.toList ≠ []) : IsPlainLine (s ++ t) := by
  refine ⟨?_, fun c mem => h.ends c ?_⟩
  · simp only [String.toList_append, List.forall_mem_append]
    exact ⟨shown, h.shown⟩
  · rwa [String.toList_append, List.getLast?_append_of_ne_nil _ some] at mem

theorem IsPlainLine.isOneLine {l : String} (h : IsPlainLine l) : IsOneLine l.toList :=
  ⟨fun mem => absurd (h.shown _ mem) (by decide), fun mem => absurd (h.shown _ mem) (by decide)⟩

theorem IsPlainLine.isTidy {l : String} (h : IsPlainLine l) : IsTidy l.toList where
  start := fun tab => absurd (h.shown _ (List.mem_of_mem_head? tab)) (by decide)
  ends := h.ends

theorem shown_component (fileName : String) :
    ∀ c ∈ (Route.component fileName).toList, 0x20 ≤ c.toNat := fun c mem => by
  have range := isAlphanum_range (pascalCase_isAlphanum fileName c mem)
  omega

theorem shown_stringLiteral (s : String) : ∀ c ∈ (stringLiteral s).toList, 0x20 ≤ c.toNat :=
  fun c mem => (isInert_codeText (Value.shown_jsonString s) c mem).2.2.2.2.2

theorem isPlainLine_entries (ps : List Page) : ∀ e ∈ routerEntries ps, IsPlainLine e.line := by
  have libraries : ∀ e ∈ routerLibraries, IsPlainLine e.line := by
    rw [← List.forall_mem_map (P := IsPlainLine), routerLibraries_lines]
    decide +kernel
  simp only [routerEntries, List.forall_mem_append, List.forall_mem_map]
  refine ⟨libraries, fun p _ => ?_⟩
  have component := shown_component p.fileName
  rw [pageEntry_line]
  refine .append ?_ (by decide) (by decide)
  simp only [String.toList_append, List.forall_mem_append]
  exact ⟨⟨⟨⟨⟨forall_chars (by decide), component⟩, forall_chars (by decide)⟩, component⟩,
    forall_chars (by decide)⟩, component⟩

theorem isPlainLine_route (p : Page) : ∀ l ∈ routeLines p, IsPlainLine l := by
  simp only [routeLines, List.forall_mem_cons]
  refine ⟨by decide, .append ?_ (by decide) (by decide),
    .append ?_ (by decide) (by decide), by decide, by simp⟩
  · simp only [String.toList_append, List.forall_mem_append]
    exact ⟨forall_chars (by decide), shown_stringLiteral _⟩
  · simp only [String.toList_append, List.forall_mem_append]
    exact ⟨forall_chars (by decide), shown_component _⟩

theorem isPlainLine_router (ps : List Page) : ∀ l ∈ routerLines ps, IsPlainLine l := by
  obtain ⟨libraries, pages⟩ := List.forall_mem_append.1 (isPlainLine_entries ps)
  simp only [routerLines, List.forall_mem_append, List.forall_mem_cons, List.forall_mem_flatMap]
  exact ⟨⟨List.forall_mem_map.2 libraries, by decide, List.forall_mem_map.2 pages⟩, by decide,
    by decide +kernel, fun p _ => isPlainLine_route p, by decide +kernel⟩

theorem returnFree_router (ps : List Page) : '\r' ∉ (closedLines (routerLines ps)).toList := by
  simp only [closedLines, String.toList_join, List.flatMap_map, List.mem_flatMap,
    String.toList_append, List.mem_append, not_exists, not_and, not_or]
  exact fun l mem => ⟨(isPlainLine_router ps l mem).isOneLine.2, by decide⟩

theorem linesOf_router (ps : List Page) : linesOf (closedLines (routerLines ps)).toList =
    (routerLines ps).map String.toList ++ [[]] := by
  rw [linesOf_eq (returnFree_router ps)]
  exact pieces_closedLines fun l mem => (isPlainLine_router ps l mem).isOneLine.1

theorem hasHead_entries (ps : List Page) : ∀ e ∈ routerEntries ps, HasHead 'i' e.line := by
  have libraries : ∀ e ∈ routerLibraries, HasHead 'i' e.line := by
    rw [← List.forall_mem_map (P := HasHead 'i'), routerLibraries_lines]
    simp only [List.forall_mem_cons]
    exact ⟨rfl, rfl, by simp⟩
  simp only [routerEntries, List.forall_mem_append, List.forall_mem_map]
  refine ⟨libraries, fun p _ => ?_⟩
  have start : HasHead 'i' "import " := rfl
  rw [pageEntry_line]
  exact (((((start.append _).append _).append _).append _).append _).append _

theorem hasHead_route (p : Page) : ∀ l ∈ routeLines p, HasHead ' ' l := by
  have path : HasHead ' ' "    path: " := rfl
  have element : HasHead ' ' "    element: <" := rfl
  simp only [routeLines, List.forall_mem_cons]
  exact ⟨rfl, (path.append _).append _, (element.append _).append _, rfl, by simp⟩

/-- The lines of a router that are not blank. -/
theorem inked_router (ps : List Page) : inked (linesOf (closedLines (routerLines ps)).toList) =
    ((routerEntries ps).map Entry.line).map String.toList ++ routesOpening.toList ::
      ((ps.flatMap routeLines).map String.toList ++ inked (routesClosing.map String.toList)) := by
  -- A tidy line is blank only if it is empty, and these lines have a first character.
  have shown {c : Char} (ls : List String) (heads : ∀ l ∈ ls, HasHead c l)
      (plain : ∀ l ∈ ls, IsPlainLine l) : inked (ls.map String.toList) = ls.map String.toList := by
    refine inked_self (List.forall_mem_map.2 fun l mem => ?_)
    obtain ⟨r, text⟩ := (heads l mem).cons
    rw [(plain l mem).isTidy.isBlankLine_eq, text]
    rfl
  obtain ⟨libraryHeads, pageHeads⟩ := List.forall_mem_append.1 (hasHead_entries ps)
  obtain ⟨libraryLines, pageLines⟩ := List.forall_mem_append.1 (isPlainLine_entries ps)
  have libraries := shown (routerLibraries.map Entry.line) (List.forall_mem_map.2 libraryHeads)
    (List.forall_mem_map.2 libraryLines)
  have pages := shown ((ps.map pageEntry).map Entry.line) (List.forall_mem_map.2 pageHeads)
    (List.forall_mem_map.2 pageLines)
  have routes := shown (ps.flatMap routeLines)
    (List.forall_mem_flatMap.2 fun p _ => hasHead_route p)
    (List.forall_mem_flatMap.2 fun p _ => isPlainLine_route p)
  have blank : isBlankLine "".toList = true := rfl
  have opening : isBlankLine routesOpening.toList = false := by decide
  rw [linesOf_router, routerLines, routerEntries]
  simp only [List.map_append, List.map_cons, inked_append, inked_blank blank, inked_other opening,
    libraries, pages, routes]
  rw [inked_blank rfl]
  exact List.append_nil _

theorem named_routerEntries (ps : List Page) : ∀ e ∈ routerEntries ps, e.Named := by
  have router : ∀ b ∈ [("createBrowserRouter", "createBrowserRouter"),
      ("RouterProvider", "RouterProvider")], NamesOnly b := by
    simp only [List.forall_mem_cons, NamesOnly]
    decide
  simp only [routerEntries, routerLibraries, List.forall_mem_append, List.forall_mem_cons,
    List.forall_mem_map]
  refine ⟨⟨⟨by decide, by simp⟩, ⟨by simp, router⟩, by simp⟩, fun p _ => ⟨fun d mem => ?_, ?_⟩⟩
  · obtain rfl := Option.some.inj mem
    exact isName_pascalCase p.fileName
  · simp [pageEntry]

/-- Imports are read from the lines that are not blank. -/
theorem importTexts_inked {s : String} (free : '\r' ∉ s.toList) :
    importTexts s = (inked (linesOf s.toList)).filter ("import".toList.isPrefixOf ·) := by
  rw [importTexts, linesOf_eq free, inked, List.filter_filter]
  refine List.filter_congr fun l _ => ?_
  cases l with
  | nil => rfl
  | cons c r =>
    have letter : isBlank 'i' = false := by decide
    by_cases first : c = 'i'
    · simp [first, isBlankLine, letter]
    · simp [Ne.symm first]

variable {ps : List Page} {f : OutputFile} (source : f.kind.category = .source)
  (content : f.content = closedLines (routerLines ps))
include source content

/-- Bringing a router into form leaves its lines as they are. -/
theorem inked_formed_router (o : Options) : inked (linesOf (formed o f).content.toList) =
    ((routerEntries ps).map Entry.line).map String.toList ++ routesOpening.toList ::
      ((ps.flatMap routeLines).map String.toList ++ inked (routesClosing.map String.toList)) := by
  rw [inked_formed source o, content, inked_router]
  rw [content, linesOf_router]
  simp only [List.forall_mem_append, List.forall_mem_map, List.forall_mem_singleton]
  exact ⟨fun l mem => (isPlainLine_router ps l mem).isTidy, isTidy_nil⟩

/-- A router in form imports the pages, in their order, and besides them only its libraries. -/
theorem readImports_router (o : Options) :
    readImports (formed o f).content = some ((routerEntries ps).map Entry.said) := by
  have free := returnFree_formed source o (content ▸ returnFree_router ps)
  have named := named_routerEntries ps
  have imports : (((routerEntries ps).map Entry.line).map String.toList).filter
      ("import".toList.isPrefixOf ·) = ((routerEntries ps).map Entry.line).map String.toList := by
    refine List.filter_eq_self.2 ?_
    simp only [List.forall_mem_map]
    exact fun e mem => Entry.isPrefix_line (named e mem)
  have routes : ((ps.flatMap routeLines).map String.toList).filter
      ("import".toList.isPrefixOf ·) = [] := by
    refine List.filter_eq_nil_iff.2 ?_
    simp only [List.forall_mem_map, List.forall_mem_flatMap]
    intro p _ l mem
    obtain ⟨r, text⟩ := (hasHead_route p l mem).cons
    rw [text]
    simp
  have closing : (inked (routesClosing.map String.toList)).filter
      ("import".toList.isPrefixOf ·) = [] := by decide +kernel
  rw [readImports, importTexts_inked free, inked_formed_router source content, List.filter_append,
    imports, List.filter_cons, if_neg (by simp [routesOpening]), List.filter_append, routes, closing,
    List.append_nil, List.append_nil, Entry.readImport_lines named]

/-- A router in form has one route for each page, in the order of the pages. -/
theorem readRoutes_router (o : Options) : readRoutes (formed o f).content =
    some (ps.map fun p => (Route.path p.fileName, Route.component p.fileName)) := by
  -- Neither an import is taken for the line that opens the list, nor a line of a route for the one
  -- that closes it: they differ in their first characters.
  have before : ∀ l ∈ ((routerEntries ps).map Entry.line).map String.toList,
      (l != routesOpening.toList) = true := by
    simp only [List.forall_mem_map]
    intro e mem
    obtain ⟨r, text⟩ := (hasHead_entries ps e mem).cons
    rw [text]
    simp [routesOpening]
  have inside : ∀ l ∈ (ps.flatMap routeLines).map String.toList, (l != "]);".toList) = true := by
    simp only [List.forall_mem_map, List.forall_mem_flatMap]
    intro p _ l mem
    obtain ⟨r, text⟩ := (hasHead_route p l mem).cons
    rw [text]
    simp
  have closing : (inked (routesClosing.map String.toList)).takeWhile (· != "]);".toList) = [] := by
    decide +kernel
  rw [readRoutes, inked_formed_router source content, List.dropWhile_append_of_pos before,
    List.dropWhile_cons, if_neg (by simp), List.drop_one, List.tail_cons,
    List.takeWhile_append_of_pos inside, closing, List.append_nil, readRouteLines_written]

end Form

end Pagesmith.Scaffold
