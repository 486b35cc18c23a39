import Pagesmith.Command.Grammar
import Pagesmith.Text.Digit
import Pagesmith.Text.Part
import Pagesmith.Text.Quoted

/-!
Reading a command line by a grammar. An argument that starts with a dash is an option, unless it
is a number, has a space, or follows a lone `--`; an option may be cut short as long as only one
begins that way, and its value may follow it, or stand in it behind an equals sign.
-/

namespace Pagesmith.Command

/-- Why a command line is not carried out as it is. -/
inductive Stop where
  | help (g : Grammar)
  | version
  | wrong (g : Grammar) (what : String)

/-- An option in an argument: the option, if there is one, under the name it has there, and the
value in the argument. -/
structure Match where
  opt : Option Opt
  name : String
  value : Option String

inductive Argument where
  /-- The lone `--`. -/
  | divider
  | plain (text : String)
  | option (text : String) (m : Match)

/-- The argument as it was given. -/
def Argument.text : Argument → String
  | divider => "--"
  | plain t => t
  | option t _ => t

def Argument.isOption : Argument → Bool
  | option .. => true
  | _ => false

/-- Decimal digits, at least one. -/
def isDigits (cs : List Char) : Bool := !cs.isEmpty && cs.all fun c => (Text.digitValue? c).isSome

def isNegativeNumber (text : String) : Bool :=
  let cs := text.toList
  let cs := if cs.getLast? == some '\n' then cs.dropLast else cs
  match cs with
  | '-' :: r => match Text.cutAt '.' r with
    | (whole, none) => isDigits whole
    | (whole, some frac) => (whole.isEmpty || isDigits whole) && isDigits frac
  | _ => false

/-- The options that an argument could mean although it is the name of none. -/
def candidates (g : Grammar) (text : String) : List Match :=
  match text.toList with
  | '-' :: '-' :: _ =>
    let (start, value) := Text.cutAt '=' text.toList
    g.byName.filterMap fun (name, o) =>
      if start.isPrefixOf name.toList then
        some ⟨some o, name, value.map String.ofList⟩
      else none
  | '-' :: c :: r =>
    g.byName.filterMap fun (name, o) =>
      if name.toList == ['-', c] then some ⟨some o, name, some (String.ofList r)⟩
      else if Text.hasStart text name then some ⟨some o, name, none⟩
      else none
  | _ => []

/-- The option with a value behind an equals sign. -/
def signed? (g : Grammar) (text : String) : Option Match :=
  match Text.cutAt '=' text.toList with
  | (_, none) => none
  | (start, some value) =>
    let name := String.ofList start
    (g.opt? name).map fun o => ⟨some o, name, some (String.ofList value)⟩

/-- What an argument in front of the lone `--` is. -/
def argument (g : Grammar) (text : String) : Except Stop Argument :=
  match text.toList with
  | '-' :: _ :: _ =>
    match g.opt? text with
    | some o => .ok (.option text ⟨some o, text, none⟩)
    | none => match signed? g text with
      | some m => .ok (.option text m)
      | none => match candidates g text with
        | [m] => .ok (.option text m)
        | [] =>
          if isNegativeNumber text || text.toList.contains ' ' then .ok (.plain text)
          else .ok (.option text ⟨none, text, none⟩)
        | ms => .error (.wrong g ("ambiguous option: " ++ text ++ " could match " ++
            String.intercalate ", " (ms.map (·.name))))
  | _ => .ok (.plain text)

def arguments (g : Grammar) : List String → Except Stop (List Argument)
  | [] => .ok []
  | text :: r =>
    if text == "--" then .ok (.divider :: r.map .plain)
    else do
      let first ← argument g text
      let rest ← arguments g r
      pure (first :: rest)

structure Given where
  values : List (Key × String)
  flags : List Key
  operand : Option (List String)
  unknown : List String

namespace Given

/-- Nothing. -/
def empty : Given := ⟨[], [], none, []⟩

/-- The value given last. -/
def value? (n : Given) (key : Key) : Option String := n.values.lookup key

/-- The flag is given. -/
def has (n : Given) (key : Key) : Bool := n.flags.contains key

end Given

/-- A value that is none of the choices. -/
def invalidChoice (text : String) (choices : List String) : String :=
  "invalid choice: " ++ Text.quoted text ++ " (choose from " ++
    String.intercalate ", " (choices.map Text.quoted) ++ ")"

/-- A value behind an option that takes none. -/
def ignoredValue (value : List Char) : String :=
  "ignored explicit argument " ++ Text.quoted (String.ofList value)

/-- A fault about an argument. -/
def wrongArgument {α : Type} (g : Grammar) (title what : String) : Except Stop α :=
  .error (.wrong g ("argument " ++ title ++ ": " ++ what))

/-- Take an option with its value. The lone `--` is no value: the option is as if it had not been
given. -/
def take (g : Grammar) (n : Given) (o : Opt) (value : Option String) : Except Stop Given :=
  match o.key, value with
  | .help, _ => .error (.help g)
  | .version, _ => .error .version
  | key, none => .ok { n with flags := key :: n.flags }
  | key, some v =>
    if v == "--" then .ok { n with values := n.values.filter (·.1 != key) }
    else if o.choices.isEmpty || o.choices.contains v then
      .ok { n with values := (key, v) :: n.values }
    else wrongArgument g o.title (invalidChoice v o.choices)

/-- The options in one argument: those found, each with its value, and an option that takes the
next argument. -/
structure Cluster where
  found : List (Opt × Option String)
  takesNext : Option Opt

/-- An option with nothing behind it. -/
def Cluster.lone (o : Opt) : Cluster :=
  if o.takesValue then ⟨[], some o⟩ else ⟨[(o, none)], none⟩

/-- The options in an argument, given the first one and what stands behind it: its value, or, if
it takes none and has a short name, the letters of further options. -/
def cluster (g : Grammar) (o : Opt) (isShort : Bool) : List Char → Except Stop Cluster
  | [] =>
    if o.takesValue then .ok ⟨[(o, some "")], none⟩ else wrongArgument g o.title (ignoredValue [])
  | c :: r =>
    if o.takesValue then .ok ⟨[(o, some (String.ofList (c :: r)))], none⟩
    else match if isShort then g.opt? (String.ofList ['-', c]) else none with
      | none => wrongArgument g o.title (ignoredValue (c :: r))
      | some o' => do
        let rest ← if r.isEmpty then pure (.lone o') else cluster g o' true r
        pure { rest with found := (o, none) :: rest.found }

/-- The options that an argument holds. -/
def clusterOf (g : Grammar) (o : Opt) (m : Match) : Except Stop Cluster :=
  match m.value with
  | none => .ok (.lone o)
  | some v => cluster g o (!Text.hasStart "--" m.name) v.toList

/-- Take options one after the other. -/
def takeAll (g : Grammar) : Given → List (Opt × Option String) → Except Stop Given
  | n, [] => .ok n
  | n, (o, v) :: r => do takeAll g (← take g n o v) r

/-- Take the options of an argument, with the value of the last one from the arguments behind. -/
def takeOption (g : Grammar) (n : Given) (text : String) (m : Match) (rest : List Argument) :
    Except Stop (Given × List Argument) :=
  match m.opt with
  | none => .ok ({ n with unknown := n.unknown ++ [text] }, rest)
  | some o => do
    let c ← clusterOf g o m
    let (last, rest) ← match c.takesNext with
      | none => pure ([], rest)
      | some o => match rest with
        | .plain v :: r => pure ([(o, some v)], r)
        | _ => wrongArgument g o.title "expected one argument"
    pure (← takeAll g n (c.found ++ last), rest)

/-- Drop the lone `--` at the start of arguments. -/
def dropDivider : List Argument → List Argument
  | .divider :: r => r
  | r => r

/-- The operand at the start of arguments, if it is still wanted. -/
def takeOperand (g : Grammar) (n : Given) (args : List Argument) :
    Except Stop (Option (Given × List Argument)) :=
  match n.operand, g.operand, dropDivider args with
  | none, .one _, .plain v :: r => .ok (some ({ n with operand := some [v] }, dropDivider r))
  | none, .command name choices, .plain _ :: _ =>
    let texts := args.map Argument.text
    let chosen := texts.headD ""
    if choices.contains chosen then .ok (some ({ n with operand := some texts }, []))
    else wrongArgument g name (invalidChoice chosen choices)
  | _, _, _ => .ok none

/-- Take arguments until there are none left. -/
def takeArguments (g : Grammar) : (fuel : Nat) → Given → List Argument → Except Stop Given
  | 0, n, _ => .ok n
  | fuel + 1, n, args =>
    match args with
    | .option text m :: r => do
      let (n, rest) ← takeOption g n text m r
      takeArguments g fuel n rest
    | args => do
      match ← takeOperand g n args with
      | some (n, rest) => takeArguments g fuel n rest
      | none =>
        let extra := args.takeWhile (!·.isOption)
        let n := { n with unknown := n.unknown ++ extra.map Argument.text }
        match args.dropWhile (!·.isOption) with
        | [] => pure n
        | rest => takeArguments g fuel n rest

def read (g : Grammar) (texts : List String) : Except Stop Given := do
  let args ← arguments g texts
  let n ← takeArguments g (args.length + 1) Given.empty args
  match n.operand, g.operand with
  | none, .one name =>
    .error (.wrong g ("the following arguments are required: " ++ name))
  | _, _ => pure n

end Pagesmith.Command
