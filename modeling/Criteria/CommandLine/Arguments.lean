import Criteria.Decimal.Shortest
import Criteria.Sql.Dialect

/-!
The arguments of the command line. They are read from left to right: the first thing that makes no
sense ends the reading, and so does a request for the version or for help that comes before it.
-/

namespace Criteria.CommandLine

/-- What to compile, and for which dialect. A filter, order, limit or offset of its own goes before
that of the query. -/
structure CompileOptions where
  config : String
  model : String
  query : Option String := none
  filter : Option String := none
  order : Option String := none
  limit : Option UInt64 := none
  offset : Option UInt64 := none
  dialect : Sql.Dialect := .postgres
deriving DecidableEq, Repr

/-- Which model's fields to list, and how. -/
structure FieldsOptions where
  config : String
  model : String
  json : Bool := false
deriving DecidableEq, Repr

inductive Command where
  | compile (options : CompileOptions)
  | fields (options : FieldsOptions)
deriving DecidableEq, Repr

/-- The file that holds the command's model definitions. -/
def Command.config : Command → String
  | .compile options => options.config
  | .fields options => options.config

/-- Why there is no command to run. -/
inductive Stop where
  | usage
  | help
  | version
deriving DecidableEq, Repr

inductive OptionName where
  | verbose
  | help
  | version
  | config
  | model
  | query
  | filter
  | order
  | limit
  | offset
  | dialect
  | json
deriving DecidableEq, Repr

namespace OptionName

/-- The spelling behind two hyphens. -/
def long : OptionName → String
  | .verbose => "verbose"
  | .help => "help"
  | .version => "version"
  | .config => "config"
  | .model => "model"
  | .query => "query"
  | .filter => "filter"
  | .order => "order"
  | .limit => "limit"
  | .offset => "offset"
  | .dialect => "dialect"
  | .json => "json"

/-- The letter behind one hyphen. -/
def short? : OptionName → Option Char
  | .verbose => some 'v'
  | .help => some 'h'
  | .version => some 'V'
  | _ => none

/-- True of the options that take no value. -/
def isFlag : OptionName → Bool
  | .verbose | .help | .version | .json => true
  | _ => false

end OptionName

def topOptions : List OptionName := [.verbose, .help, .version]

def compileOptions : List OptionName :=
  [.config, .model, .query, .filter, .order, .limit, .offset, .dialect, .verbose, .help]

def fieldsOptions : List OptionName := [.config, .model, .json, .verbose, .help]

/-- An unsigned machine word in decimal, behind a plus sign at most. -/
def word? (text : String) : Option UInt64 :=
  let digits := match text.toList with
    | '+' :: rest => rest
    | cs => cs
  let value := Decimal.ofDigits digits
  if digits ≠ [] ∧ digits.all Char.isDigit ∧ value < UInt64.size then some (.ofNat value) else none

def dialect? (text : String) : Option Sql.Dialect :=
  if text = "postgres" then some .postgres
  else if text = "mysql" then some .mysql
  else none

/-- True of the values that an option takes. A file has to have a name. -/
def accepts (name : OptionName) (value : String) : Bool :=
  match name with
  | .config => value ≠ ""
  | .limit | .offset => (word? value).isSome
  | .dialect => (dialect? value).isSome
  | _ => true

/-- Options with their values; a flag has the empty one. -/
abbrev Settings := List (OptionName × String)

/-- Adds an option. None may come twice, and two of them end the reading. -/
def addSetting (settings : Settings) (name : OptionName) (value : String) :
    Except Stop Settings :=
  if (settings.lookup name).isSome then .error .usage
  else if !accepts name value then .error .usage
  else match name with
    | .help => .error .help
    | .version => .error .version
    | _ => .ok (settings ++ [(name, value)])

/-- Splits at the first equals sign. -/
def splitValue (cs : List Char) : String × Option String :=
  match cs.dropWhile (· ≠ '=') with
  | [] => (String.ofList cs, none)
  | _ :: value => (String.ofList (cs.takeWhile (· ≠ '=')), some (String.ofList value))

/-- Adds the flags of letters behind one hyphen. -/
def addLetters (known : List OptionName) : Settings → List Char → Except Stop Settings
  | settings, [] => .ok settings
  | settings, letter :: rest =>
    match known.find? fun name => name.short? = some letter with
    | none => .error .usage
    | some name => do addLetters known (← addSetting settings name "") rest

/-- What an argument looks like. A hyphen alone is a plain word. -/
inductive Form where
  /-- Two hyphens alone: only words come after them. -/
  | divider
  | long (name : String) (value : Option String)
  | letters (cs : List Char)
  | word
deriving Repr

def Form.of (argument : String) : Form :=
  match argument.toList with
  | ['-', '-'] => .divider
  | '-' :: '-' :: rest =>
    let (name, value) := splitValue rest
    .long name value
  | '-' :: c :: rest => .letters (c :: rest)
  | _ => .word

/-- The options in front of the first word, and the rest from that word on. `pending` is an option
whose value has to be the next argument. -/
def readOptions (known : List OptionName) :
    Settings → Option OptionName → List String → Except Stop (Settings × List String)
  | settings, none, [] => .ok (settings, [])
  | _, some _, [] => .error .usage
  | settings, pending, argument :: rest =>
    match Form.of argument, pending with
    | .word, some name => do readOptions known (← addSetting settings name argument) none rest
    | _, some _ => .error .usage
    | .word, none => .ok (settings, argument :: rest)
    | .divider, none => .ok (settings, argument :: rest)
    | .letters cs, none => do readOptions known (← addLetters known settings cs) none rest
    | .long name value, none =>
      match known.find? fun option => option.long = name, value with
      | none, _ => .error .usage
      | some option, some value =>
        if option.isFlag then .error .usage
        else do readOptions known (← addSetting settings option value) none rest
      | some option, none =>
        if option.isFlag then do readOptions known (← addSetting settings option "") none rest
        else readOptions known settings (some option) rest

def readCommand (known : List OptionName) (arguments : List String) : Except Stop Settings := do
  match ← readOptions known [] none arguments with
  | (settings, []) | (settings, ["--"]) => return settings
  | _ => throw .usage

/-- An option that a command cannot do without. -/
def require (settings : Settings) (name : OptionName) : Except Stop String :=
  match settings.lookup name with
  | some value => .ok value
  | none => .error .usage

def readCompile (arguments : List String) : Except Stop Command := do
  let settings ← readCommand compileOptions arguments
  let config ← require settings .config
  let model ← require settings .model
  return .compile
    { config
      model
      query := settings.lookup .query
      filter := settings.lookup .filter
      order := settings.lookup .order
      limit := (settings.lookup .limit).bind word?
      offset := (settings.lookup .offset).bind word?
      dialect := ((settings.lookup .dialect).bind dialect?).getD .postgres }

def readFields (arguments : List String) : Except Stop Command := do
  let settings ← readCommand fieldsOptions arguments
  let config ← require settings .config
  let model ← require settings .model
  return .fields { config, model, json := (settings.lookup .json).isSome }

def commandNames : List String := ["compile", "fields", "help"]

/-- The command of a command line. -/
def read (arguments : List String) : Except Stop Command := do
  match ← readOptions topOptions [] none arguments with
  | (_, "compile" :: rest) => readCompile rest
  | (_, "fields" :: rest) => readFields rest
  | (_, ["help"]) => throw .help
  | (_, ["help", command]) => throw (if commandNames.contains command then .help else .usage)
  | _ => throw .usage

end Criteria.CommandLine
