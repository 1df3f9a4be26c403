/-! Command lines: options, a command, and its arguments. -/
namespace EntityStore.CommandLine

inductive Command
  | query (text : String)
  | get (ids : List String) (kind : Option String)
  | save (files : List String) (overwrite : Bool)
  | kinds (kind : Option String)
  | config (newFile : Option String)
deriving DecidableEq, Repr

/-- A command, with the settings file to load and the store to use, if they are given. -/
structure Invocation where
  settingsFile : Option String
  storePath : Option String
  command : Command
deriving DecidableEq, Repr

/-- What an option takes: nothing, a text, or a path, which has at least one character. -/
inductive Operand
  | none
  | text
  | path
deriving DecidableEq, Repr

/-- An option: `--name`, and a dash with a letter if it has one. -/
structure Switch where
  name : String
  letter : Option Char
  operand : Operand
deriving DecidableEq, Repr

/-- What an argument is: a plain one, an option with the value attached to it, if any, the mark
after which all are plain, or an option that there is not. -/
inductive Shape
  | plain
  | switch (s : Switch) (attached : Option String)
  | separator
  | unknown
deriving DecidableEq, Repr

/-- The shape of an argument. A value is attached to a name with `=`, and to a letter with or
without it. -/
def shape (switches : List Switch) (argument : String) : Shape :=
  match argument.toList with
  | ['-', '-'] => .separator
  | '-' :: '-' :: cs =>
    let name := String.ofList (cs.takeWhile (· != '='))
    let attached := match cs.dropWhile (· != '=') with
      | _ :: v => some (String.ofList v)
      | [] => none
    (switches.find? (·.name == name)).elim .unknown (.switch · attached)
  | '-' :: c :: cs =>
    let attached := match cs with
      | [] => none
      | '=' :: v => some (String.ofList v)
      | v => some (String.ofList v)
    (switches.find? (·.letter == some c)).elim .unknown (.switch · attached)
  | _ => .plain

/-- Options that are given, by name, with their values. -/
abbrev Given := List (String × String)

def value? (given : Given) (name : String) : Option String :=
  (given.find? (·.1 == name)).map (·.2)

/-- Gives an option, unless it is given already or takes no such value. -/
def give? (given : Given) (s : Switch) (v : String) : Option Given :=
  if (value? given s.name).isSome || (s.operand == .path && v.isEmpty) then none
  else some ((s.name, v) :: given)

/-- Reads arguments: the options that are given, and the plain arguments among and behind them.
After the separator all are plain. Without `all` reading stops at the first plain argument, and
there may be no separator. -/
def scan (switches : List Switch) (all : Bool) (given : Given) (plain : List String) :
    List String → Option (Given × List String)
  | [] => some (given, plain)
  | argument :: rest =>
    match shape switches argument with
    | .plain =>
      if all then scan switches all given (plain ++ [argument]) rest
      else some (given, argument :: rest)
    | .separator => if all then some (given, plain ++ rest) else none
    | .unknown => none
    | .switch s attached =>
      match s.operand, attached with
      | .none, none => do scan switches all (← give? given s "") plain rest
      | .none, some _ => none
      | _, some v => do scan switches all (← give? given s v) plain rest
      | _, none =>
        match rest with
        | v :: rest =>
          if shape switches v = .plain then do
            scan switches all (← give? given s v) plain rest
          else none
        | [] => none

def kindSwitch : Switch := ⟨"kind", some 'k', .text⟩

def command? (name : String) (arguments : List String) : Option Command := do
  match name with
  | "query" =>
    match ← scan [] true [] [] arguments with
    | (_, [text]) => return .query text
    | _ => none
  | "get" =>
    let (given, ids) ← scan [kindSwitch] true [] [] arguments
    if ids.isEmpty then none else return .get ids (value? given "kind")
  | "save" =>
    let (given, files) ← scan [⟨"overwrite", none, .none⟩] true [] [] arguments
    if files.isEmpty || files.any String.isEmpty then none
    else return .save files (value? given "overwrite").isSome
  | "kinds" =>
    match ← scan [kindSwitch] true [] [] arguments with
    | (given, []) => return .kinds (value? given "kind")
    | _ => none
  | "config" =>
    match ← scan [⟨"init", none, .path⟩] true [] [] arguments with
    | (given, []) => return .config (value? given "init")
    | _ => none
  | _ => none

/-- The options before the command. -/
def switches : List Switch := [⟨"config", some 'c', .text⟩, ⟨"store", some 's', .path⟩]

/-- What arguments ask for, if they follow the grammar. -/
def parse? (arguments : List String) : Option Invocation := do
  match ← scan switches false [] [] arguments with
  | (given, name :: rest) =>
    let command ← command? name rest
    return ⟨value? given "config", value? given "store", command⟩
  | (_, []) => none

end EntityStore.CommandLine
