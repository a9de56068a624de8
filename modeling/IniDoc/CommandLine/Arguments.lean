import IniDoc.Document.Scan
import IniDoc.Editing.Command

/-!
# Arguments

The words of a command line. Options may stand anywhere among the operands of their command, those that say how files
are read also before it; behind `--` every word is an operand.

* `Shape`: the operands and options that a command takes.
* `Shape.gather` sorts the words of a command.
* `Request.ofWords`: what a command line asks for.
-/

namespace IniDoc.CommandLine

/-- Why a command line asks for no command. -/
inductive Stop where
  /-- It makes no sense. -/
  | usage
  /-- It asks how the program is used. -/
  | help
  /-- It asks which program this is. -/
  | version
  deriving Repr, DecidableEq

/-- What is done to files. -/
inductive Action where
  | get (file sectionName key : String)
  | set (file sectionName key value : String) (placement : Placement)
  | list (file : String) (sectionName : Option String)
  | format (file : String) (output : Option String)
  deriving Repr, DecidableEq

/-- A command with the way in which it reads files. -/
structure Request where
  options : Options
  action : Action
  deriving Repr, DecidableEq

/-! ## Words and their meaning -/

/-- What a word means to a command. -/
inductive Token where
  | operand (word : String)
  /-- An option that is there or not. -/
  | switch (name : String)
  /-- An option together with its value. -/
  | setting (name value : String)
  /-- An option whose value is the next word. -/
  | pending (name : String)
  /-- The word `--`. -/
  | separator
  | help
  | version
  | unknown
  deriving Repr, DecidableEq

/-- What a command takes: how many operands at least and at most, the options that are there or not, and the options
with a value, some with a letter for short. -/
structure Shape where
  least : Nat
  most : Nat
  switches : List String
  settings : List (String × Option Char)
  versioned : Bool
  deriving Repr

/-- The options that say how files are read. -/
def readingSwitches : List String := ["string-mode", "strict", "utf8"]

/-- What comes before the command itself. -/
def outerShape : Shape := ⟨0, 0, readingSwitches, [], true⟩

/-- What `get` takes: a file, a section and a key. -/
def getShape : Shape := ⟨3, 3, readingSwitches, [], false⟩

/-- What `set` takes: a file, a section, a key and a value, and where a new key goes. -/
def setShape : Shape := ⟨4, 4, "first" :: readingSwitches, [("before", none), ("after", none)], false⟩

/-- What `list` takes: a file and perhaps a section. -/
def listShape : Shape := ⟨1, 2, readingSwitches, [], false⟩

/-- What `fmt` takes: a file and perhaps another one to write to. -/
def formatShape : Shape := ⟨1, 1, readingSwitches, [("output", some 'o')], false⟩

namespace Shape

/-- The meaning of an option in full, with the value behind its equals sign. No option without a value takes one. -/
def longToken (shape : Shape) (name : String) (value : Option String) : Token :=
  if (shape.settings.lookup name).isSome then
    match value with
    | some value => .setting name value
    | none => .pending name
  else if value.isSome then .unknown
  else if shape.switches.contains name then .switch name
  else if name == "help" then .help
  else if name == "version" && shape.versioned then .version
  else .unknown

/-- The meaning of an option by its letter. The rest of the word is the value, with or without an equals sign. -/
def letterToken (shape : Shape) (letter : Char) (rest : List Char) : Token :=
  match shape.settings.find? (·.2 == some letter) with
  | some (name, _) =>
    match rest with
    | [] => .pending name
    | '=' :: value => .setting name (String.ofList value)
    | value => .setting name (String.ofList value)
  | none =>
    if letter == 'h' then .help
    else if letter == 'V' && shape.versioned then .version
    else .unknown

/-- The meaning of a word. A dash alone is an operand. -/
def token (shape : Shape) (word : String) : Token :=
  match word.toList with
  | ['-', '-'] => .separator
  | '-' :: '-' :: chars =>
    let name := String.ofList (chars.takeWhile (· != '='))
    match chars.dropWhile (· != '=') with
    | [] => shape.longToken name none
    | _ :: value => shape.longToken name (some (String.ofList value))
  | '-' :: letter :: rest => shape.letterToken letter rest
  | _ => .operand word

/-- The meaning of words; behind `--` every word is an operand. -/
def tokens (shape : Shape) : List String → List Token
  | [] => []
  | word :: rest =>
    match shape.token word with
    | .separator => .separator :: rest.map .operand
    | token => token :: shape.tokens rest

end Shape

/-! ## Gathering -/

/-- The operands and options found so far. -/
structure Gathered where
  operands : List String
  switches : List String
  settings : List (String × String)
  deriving Repr, DecidableEq

namespace Gathered

/-- Nothing found yet. -/
def empty : Gathered := ⟨[], [], []⟩

/-- Adds an operand, unless there are enough. The first operand of every command is a file, whose name is not
empty. -/
def addOperand (g : Gathered) (shape : Shape) (word : String) : Except Stop Gathered :=
  if shape.most ≤ g.operands.length then .error .usage
  else if g.operands.isEmpty && word.isEmpty then .error .usage
  else .ok { g with operands := g.operands ++ [word] }

/-- Adds an option that is there or not, and was not there yet. -/
def addSwitch (g : Gathered) (name : String) : Except Stop Gathered :=
  if g.switches.contains name then .error .usage else .ok { g with switches := name :: g.switches }

/-- Adds an option with its value, unless it has one already. The name of the file to write to is not empty. -/
def addSetting (g : Gathered) (name value : String) : Except Stop Gathered :=
  if (g.settings.lookup name).isSome then .error .usage
  else if name == "output" && value.isEmpty then .error .usage
  else .ok { g with settings := (name, value) :: g.settings }

end Gathered

/-- Sorts tokens from left to right; the first one that makes no sense, or asks for help, decides. -/
def Shape.gatherTokens (shape : Shape) (g : Gathered) : List Token → Except Stop Gathered
  | [] => .ok g
  | .operand word :: rest => do shape.gatherTokens (← g.addOperand shape word) rest
  | .switch name :: rest => do shape.gatherTokens (← g.addSwitch name) rest
  | .setting name value :: rest => do shape.gatherTokens (← g.addSetting name value) rest
  | .pending name :: .operand value :: rest => do shape.gatherTokens (← g.addSetting name value) rest
  | .pending _ :: _ => .error .usage
  | .separator :: rest => shape.gatherTokens g rest
  | .help :: _ => .error .help
  | .version :: _ => .error .version
  | .unknown :: _ => .error .usage

/-- Sorts the words of a command, which needs its least number of operands. -/
def Shape.gather (shape : Shape) (words : List String) : Except Stop Gathered := do
  let g ← shape.gatherTokens .empty (shape.tokens words)
  if g.operands.length < shape.least then .error .usage else .ok g

/-! ## Requests -/

/-- The way of reading files that the options before and behind the command ask for together. -/
def readingOptions (outer inner : List String) : Options :=
  let asked := fun name => (outer ++ inner).contains name
  ⟨asked "string-mode", asked "strict", if asked "utf8" then .utf8 else .latin1⟩

/-- The placement that options ask for; they exclude each other. -/
def placement (g : Gathered) : Except Stop Placement :=
  match g.switches.contains "first", g.settings with
  | true, [] => .ok .first
  | false, [] => .ok .last
  | false, [(name, key)] => .ok (if name == "before" then .before key else .after key)
  | _, _ => .error .usage

/-- The commands by name. -/
def commandNames : List String := ["get", "set", "list", "fmt", "help"]

/-- What the words behind a command's name ask for, and the options among them. -/
def commandAction (command : String) (words : List String) : Except Stop (Action × List String) := do
  match command with
  | "get" =>
    let g ← getShape.gather words
    match g.operands with
    | [file, sectionName, key] => .ok (.get file sectionName key, g.switches)
    | _ => .error .usage
  | "set" =>
    let g ← setShape.gather words
    match g.operands with
    | [file, sectionName, key, value] => .ok (.set file sectionName key value (← placement g), g.switches)
    | _ => .error .usage
  | "list" =>
    let g ← listShape.gather words
    match g.operands with
    | [file] => .ok (.list file none, g.switches)
    | [file, sectionName] => .ok (.list file (some sectionName), g.switches)
    | _ => .error .usage
  | "fmt" =>
    let g ← formatShape.gather words
    match g.operands with
    | [file] => .ok (.format file (g.settings.lookup "output"), g.switches)
    | _ => .error .usage
  | "help" =>
    match words with
    | [] => .error .help
    | [topic] => if commandNames.contains topic then .error .help else .error .usage
    | _ => .error .usage
  | _ => .error .usage

/-- The options before the command, its name, and the words behind it. -/
def outerWords (switches : List String) : List String → Except Stop (List String × String × List String)
  | [] => .error .usage
  | word :: rest =>
    match outerShape.token word with
    | .switch name => if switches.contains name then .error .usage else outerWords (name :: switches) rest
    | .operand command => .ok (switches, command, rest)
    | .help => .error .help
    | .version => .error .version
    | _ => .error .usage

/-- What a command line asks for. -/
def Request.ofWords (words : List String) : Except Stop Request := do
  let (outer, command, rest) ← outerWords [] words
  let (action, inner) ← commandAction command rest
  return ⟨readingOptions outer inner, action⟩

end IniDoc.CommandLine
