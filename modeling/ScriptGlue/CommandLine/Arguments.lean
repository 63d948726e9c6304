import ScriptGlue.Text.Digit
import ScriptGlue.Value.Basic

/-! # Command line arguments

An option is written in full or by any beginning that only one option has, its value behind an
equals sign or in the next argument. Every argument is classified before any is used, so an
ambiguous beginning is an error wherever it stands; the options then take effect in order, help
ending the reading at once. A separator behind an equals sign gives the option no value at all,
which is told from a missing option as the empty list.
-/

namespace ScriptGlue.CommandLine

structure Options where
  /-- Graph of the initial scan. -/
  graph : Option Value := none
  /-- Graphs of modules, in the order they are loaded. -/
  moduleGraphs : List Value := []
  output : Option Value := none
  project : Option Value := none
  config : Option Value := none
  policy : Option Value := none
  hostPluginType : Option Value := none
  noDefaults : Bool := false
  verbose : Bool := false
  logFile : Option Value := none
  deriving DecidableEq, Inhabited

inductive OptionName where
  | help
  | graph
  | moduleGraph
  | output
  | project
  | config
  | policy
  | hostPluginType
  | noDefaults
  | verbose
  | logFile
  deriving DecidableEq, Repr

namespace OptionName

def all : List OptionName :=
  [help, graph, moduleGraph, output, project, config, policy, hostPluginType, noDefaults, verbose,
    logFile]

def long : OptionName → String
  | help => "--help"
  | graph => "--graph"
  | moduleGraph => "--module-graph"
  | output => "--output"
  | project => "--project"
  | config => "--config"
  | policy => "--policy"
  | hostPluginType => "--host-plugin-type"
  | noDefaults => "--no-defaults"
  | verbose => "--verbose"
  | logFile => "--log-file"

def shortHelp : String := "-h"

def takesValue : OptionName → Bool
  | help => false
  | noDefaults => false
  | verbose => false
  | _ => true

def ofForm? (s : String) : Option OptionName :=
  if s = shortHelp then some help else all.find? fun o => o.long == s

def beginning (s : String) : List OptionName := all.filter fun o => o.long.startsWith s

end OptionName

def usage : String :=
  "usage: options are " ++ String.intercalate ", "
    (OptionName.all.map fun o => o.long ++ (if o.takesValue then " VALUE" else ""))

def pluginTypes : List String := ["project", "engine", "enterprise", "other"]

inductive Argument where
  | value (s : String)
  /-- An option, with the value that an equals sign attaches to it. -/
  | option (name : OptionName) (attached : Option String)
  /-- The short form of help with more behind it. -/
  | helpRun (more : String)
  | unknownOption
  /-- Ends the options: all after it are values. -/
  | separator
  deriving DecidableEq, Repr

def splitEquals (s : String) : Option (String × String) :=
  match s.toList.span fun c => c ≠ '=' with
  | (before, _ :: after) => some (String.ofList before, String.ofList after)
  | (_, []) => none

/-- Digits with at most one point, behind a minus sign and before at most one line end; nothing has
to stand before the point. -/
def isNegativeNumber (s : String) : Bool :=
  let isDigit (c : Char) : Bool := (Text.digitValue? c).isSome
  let cs := s.toList
  match if cs.getLast? = some '\n' then cs.dropLast else cs with
  | '-' :: rest =>
    match rest.span isDigit with
    | (digits, []) => !digits.isEmpty
    | (_, '.' :: fraction) => !fraction.isEmpty && fraction.all isDigit
    | _ => false
  | _ => false

def candidates (s : String) : List Argument :=
  if s.startsWith "--" then
    let (beginning, attached) := match splitEquals s with
      | some (before, after) => (before, some after)
      | none => (s, none)
    (OptionName.beginning beginning).map fun o => .option o attached
  else if s.startsWith OptionName.shortHelp then
    [.helpRun (String.ofList (s.toList.drop OptionName.shortHelp.length))]
  else []

def complete? (form attached : String) : Option Argument :=
  if form = OptionName.shortHelp then some (.helpRun attached)
  else (OptionName.ofForm? form).map fun o => .option o (some attached)

/-- What an argument is by itself; none if it abbreviates more than one option. -/
def classify (s : String) : Option Argument :=
  if !s.startsWith "-" then some (.value s)
  else
    match OptionName.ofForm? s with
    | some o => some (.option o none)
    | none =>
      if s = "-" then some (.value s)
      else
        match (splitEquals s).bind fun (before, after) => complete? before after with
        | some option => some option
        | none =>
          match candidates s with
          | [option] => some option
          | _ :: _ :: _ => none
          | [] =>
            if isNegativeNumber s || s.toList.contains ' ' then some (.value s)
            else some .unknownOption

/-- All arguments classified; none if one is ambiguous. -/
def classifyAll : List String → Option (List Argument)
  | [] => some []
  | s :: rest =>
    if s = "--" then some (.separator :: rest.map .value)
    else do
      let a ← classify s
      let others ← classifyAll rest
      return a :: others

inductive Reading where
  | options (o : Options)
  | help
  | misuse
  deriving DecidableEq

/-- The options with a value set; none if the option may not have it. -/
def Options.setValue (o : Options) (name : OptionName) (v : Value) : Option Options :=
  match name with
  | .graph => some { o with graph := some v }
  | .moduleGraph => some { o with moduleGraphs := o.moduleGraphs ++ [v] }
  | .output => some { o with output := some v }
  | .project => some { o with project := some v }
  | .config => some { o with config := some v }
  | .policy => some { o with policy := some v }
  | .hostPluginType => if mayBePluginType v then some { o with hostPluginType := some v } else none
  | .logFile => some { o with logFile := some v }
  | _ => none
where
  /-- Only a text has to be one of the plugin types. -/
  mayBePluginType : Value → Bool
    | .text s => pluginTypes.contains s
    | _ => true

def attachedValue (s : String) : Value := if s = "--" then .list [] else .text s

def Options.setFlag (o : Options) (name : OptionName) : Options :=
  match name with
  | .noDefaults => { o with noDefaults := true }
  | .verbose => { o with verbose := true }
  | _ => o

/-- More behind the short form of help still asks for help if it repeats the short form. -/
def stillHelp (more : String) : Bool := more ≠ "" && more.toList.all (· == 'h')

/-- Reads classified arguments; `strays` tells that one of them belongs to no option. -/
def readArguments (strays : Bool) (o : Options) : List Argument → Reading
  | [] =>
    if strays || (o.graph.isNone && o.moduleGraphs.isEmpty) then .misuse else .options o
  | .value _ :: rest => readArguments true o rest
  | .separator :: rest => readArguments true o rest
  | .unknownOption :: rest => readArguments true o rest
  | .helpRun more :: _ => if stillHelp more then .help else .misuse
  | .option name attached :: rest =>
    if name.takesValue then
      match attached, rest with
      | some s, rest =>
        match o.setValue name (attachedValue s) with
        | some o => readArguments strays o rest
        | none => .misuse
      | none, .value s :: rest =>
        match o.setValue name (.text s) with
        | some o => readArguments strays o rest
        | none => .misuse
      | none, _ => .misuse
    else
      if attached.isSome then .misuse
      else if name = .help then .help
      else readArguments strays (o.setFlag name) rest

def readCommandLine (args : List String) : Reading :=
  match classifyAll args with
  | some classified => readArguments false {} classified
  | none => .misuse

end ScriptGlue.CommandLine
