import MapChain.Text.Split

/-!
# Command line arguments

Three commands take a file and some options. Options may stand anywhere behind the
command; `--` ends them. A long option takes its value behind an equals sign or as the
next argument, a short one also directly, and short options without values can be
grouped. No option may be given twice, and a value that could be an option has to be
attached. Paths are not empty and numbers have 32 bits.

Arguments are read in order, and each is checked when it is read. So a fault wins over
a request for help behind it, and the request over all faults behind it; that an operand
is missing shows at the end only.

The texts for help and misuse are not part of this library, so both are told apart from
commands but carry nothing.
-/

namespace MapChain

/-- What is to be done with a file. -/
inductive Command where
  | trace (file : String) (line column : UInt32)
  | flatten (file : String) (base : Option String) (excludeContent : Bool)
  | write (file : String) (output base : Option String)
      (absolutePath dataUrl excludeContent : Bool)
  deriving DecidableEq, Repr

/-- What a command line asks for. -/
inductive Invocation where
  | request (command : Command)
  | version
  | help
  | misuse
  deriving DecidableEq, Repr

namespace Arguments

/-- An option: its long name and its letter, if it has one. -/
structure Switch where
  name : List Char
  letter : Option Char := none
  deriving DecidableEq, Repr

/-- What an operand has to be. -/
inductive Kind where
  | path
  | number
  deriving DecidableEq, Repr

/-- The operands of a command in order, its options with a value, all of which are
paths, and those without. -/
structure Grammar where
  operands : List Kind
  valued : List Switch := []
  flags : List Switch := []

/-- Why arguments give no command. -/
inductive Stop where
  | help
  | misuse
  deriving DecidableEq, Repr

/-- An operand that has been read. -/
inductive Operand where
  | path (text : String)
  | number (value : UInt32)
  deriving DecidableEq, Repr

/-- What has been read of the arguments behind a command. -/
structure Reading where
  operands : List Operand := []
  values : List (List Char × String) := []
  flags : List (List Char) := []

/-- Reads a path. -/
def readPath (text : List Char) : Except Stop String :=
  if text = [] then .error .misuse else .ok (String.ofList text)

/-- Reads a number below 2^32, which may have a sign. -/
def readNumber (text : List Char) : Except Stop UInt32 :=
  let (negative, digits) :=
    match text with
    | '+' :: digits => (false, digits)
    | '-' :: digits => (true, digits)
    | digits => (false, digits)
  let value := digits.foldl (fun n c => n * 10 + (c.toNat - 48)) 0
  if digits = [] ∨ !digits.all Char.isDigit ∨ UInt32.size ≤ value ∨ (negative ∧ value ≠ 0) then
    .error .misuse
  else .ok (UInt32.ofNat value)

/-- Reads an operand as what it has to be. -/
def Kind.read : Kind → List Char → Except Stop Operand
  | .path, text => .path <$> readPath text
  | .number, text => .number <$> readNumber text

/-- Takes the next operand; the command must still have one. -/
def Reading.takeOperand (grammar : Grammar) (reading : Reading) (text : List Char) :
    Except Stop Reading :=
  match grammar.operands[reading.operands.length]? with
  | some kind => do return { reading with operands := reading.operands ++ [← kind.read text] }
  | none => .error .misuse

/-- Takes an option's value; the option must be new. -/
def Reading.setValue (reading : Reading) (name value : List Char) : Except Stop Reading :=
  if (reading.values.lookup name).isSome then .error .misuse
  else do return { reading with values := (name, ← readPath value) :: reading.values }

/-- Takes an option without value; it must be new. -/
def Reading.setFlag (reading : Reading) (name : List Char) : Except Stop Reading :=
  if reading.flags.contains name then .error .misuse
  else .ok { reading with flags := name :: reading.flags }

/-- Whether an argument is taken as one or more options. -/
def isOption : List Char → Bool
  | '-' :: _ :: _ => true
  | _ => false

/-- The option of a letter. -/
def ofLetter? (switches : List Switch) (letter : Char) : Option Switch :=
  switches.find? fun switch => switch.letter = some letter

/-- The option of a long name. -/
def ofName? (switches : List Switch) (name : List Char) : Option Switch :=
  switches.find? fun switch => switch.name = name

/-- Reads a group of letters. If the last one still lacks its value, its name is
returned too. -/
def readLetters (grammar : Grammar) (reading : Reading) :
    List Char → Except Stop (Reading × Option (List Char))
  | [] => .ok (reading, none)
  | letter :: rest =>
    match ofLetter? grammar.valued letter, ofLetter? grammar.flags letter with
    | some switch, _ =>
      match rest with
      | [] => .ok (reading, some switch.name)
      | '=' :: value => (reading.setValue switch.name value).map (·, none)
      | value => (reading.setValue switch.name value).map (·, none)
    | none, some switch => do readLetters grammar (← reading.setFlag switch.name) rest
    | none, none => .error (if letter = 'h' then .help else .misuse)

/-- Reads a long option, whose value may be attached. If it still lacks its value, its
name is returned too. -/
def readName (grammar : Grammar) (reading : Reading) (text : List Char) :
    Except Stop (Reading × Option (List Char)) :=
  let name := text.takeWhile (· != '=')
  let attached := (text.dropWhile (· != '=')).tail?
  match ofName? grammar.valued name, attached with
  | some switch, some value => (reading.setValue switch.name value).map (·, none)
  | some switch, none => .ok (reading, some switch.name)
  | none, some _ => .error .misuse
  | none, none =>
    match ofName? grammar.flags name with
    | some switch => (reading.setFlag switch.name).map (·, none)
    | none => .error (if name = "help".toList then .help else .misuse)

/-- Reads the arguments behind a command. `lacking` names an option whose value is the
next argument. -/
def read (grammar : Grammar) (reading : Reading) (lacking : Option (List Char)) :
    List (List Char) → Except Stop Reading
  | [] => if lacking.isSome then .error .misuse else .ok reading
  | argument :: rest =>
    match lacking with
    | some name =>
      if isOption argument then .error .misuse
      else do read grammar (← reading.setValue name argument) none rest
    | none =>
      match argument with
      | ['-', '-'] => rest.foldlM (Reading.takeOperand grammar) reading
      | '-' :: '-' :: text => do
        let (reading, lacking) ← readName grammar reading text
        read grammar reading lacking rest
      | '-' :: letter :: letters => do
        let (reading, lacking) ← readLetters grammar reading (letter :: letters)
        read grammar reading lacking rest
      | operand => do read grammar (← reading.takeOperand grammar operand) none rest

/-- The value of an option, if the option is given. -/
def Reading.value? (reading : Reading) (switch : Switch) : Option String :=
  reading.values.lookup switch.name

/-- Whether an option without value is given. -/
def Reading.has (reading : Reading) (switch : Switch) : Bool := reading.flags.contains switch.name

/-- The option for the directory that sources are seen from. -/
def base : Switch := ⟨"base".toList, none⟩

/-- The option for the destination. -/
def output : Switch := ⟨"output".toList, some 'o'⟩

/-- The option to leave texts out of the map. -/
def excludeContent : Switch := ⟨"exclude-content".toList, none⟩

/-- The option to name the map by its absolute path. -/
def absolutePath : Switch := ⟨"absolute-path".toList, none⟩

/-- The option to put the map into the comment. -/
def dataUrl : Switch := ⟨"datauri".toList, some 'd'⟩

/-- Reads the arguments of tracing. -/
def trace (arguments : List (List Char)) : Except Stop Command := do
  let grammar : Grammar := { operands := [.path, .number, .number] }
  let reading ← read grammar {} none arguments
  match reading.operands with
  | [.path file, .number line, .number column] => return .trace file line column
  | _ => .error .misuse

/-- Reads the arguments of flattening. -/
def flatten (arguments : List (List Char)) : Except Stop Command := do
  let grammar : Grammar :=
    { operands := [.path], valued := [base], flags := [excludeContent] }
  let reading ← read grammar {} none arguments
  match reading.operands with
  | [.path file] => return .flatten file (reading.value? base) (reading.has excludeContent)
  | _ => .error .misuse

/-- Reads the arguments of writing. -/
def write (arguments : List (List Char)) : Except Stop Command := do
  let grammar : Grammar :=
    { operands := [.path], valued := [output, base],
      flags := [absolutePath, dataUrl, excludeContent] }
  let reading ← read grammar {} none arguments
  match reading.operands with
  | [.path file] =>
    return .write file (reading.value? output) (reading.value? base)
      (reading.has absolutePath) (reading.has dataUrl) (reading.has excludeContent)
  | _ => .error .misuse

/-- The reader of a command's arguments. -/
def reader? (name : List Char) : Option (List (List Char) → Except Stop Command) :=
  if name = "trace".toList then some trace
  else if name = "flatten".toList then some flatten
  else if name = "write".toList then some write
  else none

/-- What a first argument asks for that is no command. -/
def general (first : List Char) (rest : List (List Char)) : Invocation :=
  if first = "--version".toList ∨ "-V".toList.isPrefixOf first then .version
  else if first = "--help".toList ∨ "-h".toList.isPrefixOf first then .help
  else if first = "help".toList then
    match rest with
    | [] => .help
    | [name] => if (reader? name).isSome ∨ name = "help".toList then .help else .misuse
    | _ => .misuse
  else .misuse

end Arguments

/-- What a list of arguments asks for. -/
def Invocation.ofArguments (arguments : List String) : Invocation :=
  match arguments.map String.toList with
  | [] => .misuse
  | first :: rest =>
    match Arguments.reader? first with
    | none => Arguments.general first rest
    | some reader =>
      match reader rest with
      | .ok command => .request command
      | .error .help => .help
      | .error .misuse => .misuse

end MapChain
