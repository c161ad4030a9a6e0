/-!
Reading command lines. A command has options, and either commands of its own or operands. An argument
that cannot be what the rules allow stops the reading at once; what may not go together, and what is
missing, is found at the end of a command.
-/

namespace ComponentTags.CommandLine

/-- What an option is for, and what value it takes. -/
inductive OptionKind where
  | switch
  | path
  | choice (texts : List String)
  | help
  | version
deriving DecidableEq, Repr, Inhabited

structure OptionRule where
  name : String
  letter : Option Char
  kind : OptionKind
deriving DecidableEq, Repr, Inhabited

def OptionRule.takesValue (rule : OptionRule) : Bool :=
  match rule.kind with
  | .path | .choice _ => true
  | _ => false

def OptionRule.admits (rule : OptionRule) (value : String) : Bool :=
  match rule.kind with
  | .path => value ≠ ""
  | .choice texts => texts.contains value
  | _ => false

/-- A command: its options, which of them exclude each other, its operands and its commands. -/
structure CommandRule where
  name : String
  options : List OptionRule
  conflicts : List (String × String)
  needsOperands : Bool
  commands : List CommandRule
deriving Repr, Inhabited

inductive Stop where
  | help
  | version
  | helpInstead
  | commandMissing
  | commandUnknown
  | argumentUnknown
  | valueInvalid
  | valueUnneeded
  | conflict
  | operandMissing
deriving DecidableEq, Repr, Inhabited

/-- The code a program ends with when the reading stops; who asks for help gets it. -/
def Stop.exitCode : Stop → Nat
  | help | version => 0
  | _ => 2

structure Level where
  command : String
  switches : List String
  values : List (String × String)
  operands : List String
deriving DecidableEq, Repr, Inhabited

namespace Level

def start (command : String) : Level :=
  { command, switches := [], values := [], operands := [] }

def has (level : Level) (name : String) : Bool :=
  level.switches.contains name || level.values.any (·.1 = name)

def value? (level : Level) (name : String) : Option String :=
  level.values.lookup name

end Level

structure Reading where
  level : Level
  pending : Option (OptionRule × Option String)
  onlyOperands : Bool
deriving DecidableEq, Repr, Inhabited

namespace Reading

/-- Nothing was read of a command. -/
def start (command : String) : Reading :=
  { level := .start command, pending := none, onlyOperands := false }

def expectsValue (reading : Reading) : Bool :=
  reading.pending.any (·.2.isNone)

def take (reading : Reading) (rule : OptionRule) (value : String) : Except Stop Reading :=
  if reading.level.has rule.name then .error .conflict
  else if rule.admits value then
    .ok { reading with
      level := { reading.level with values := reading.level.values ++ [(rule.name, value)] } }
  else .error .valueInvalid

def resolve (reading : Reading) : Except Stop Reading :=
  match reading.pending with
  | none => .ok reading
  | some (_, none) => .error .valueInvalid
  | some (rule, some value) => { reading with pending := none }.take rule value

def switchOn (reading : Reading) (rule : OptionRule) : Except Stop Reading := do
  let reading ← reading.resolve
  match rule.kind with
  | .help => .error .help
  | .version => .error .version
  | _ =>
      if reading.level.has rule.name then .error .conflict
      else
        return { reading with
          level := { reading.level with switches := reading.level.switches ++ [rule.name] } }

/-- Takes an option that has a value, which may be in the next argument. -/
def expect (reading : Reading) (rule : OptionRule) (value : Option String) :
    Except Stop Reading := do
  let reading ← reading.resolve
  match value with
  | some value => reading.take rule value
  | none => return { reading with pending := some (rule, none) }

def readNamed (reading : Reading) (options : List OptionRule) (text : List Char) :
    Except Stop Reading :=
  let name := text.takeWhile (· ≠ '=')
  let value :=
    match text.drop name.length with
    | [] => none
    | _ :: value => some (String.ofList value)
  match options.find? (·.name = String.ofList name) with
  | none => .error .argumentUnknown
  | some rule =>
      if rule.takesValue then reading.expect rule value
      else if value.isSome then .error .valueUnneeded
      else reading.switchOn rule

/-- Reads options by their letters; what follows one that takes a value is its value. -/
def readLetters (options : List OptionRule) (reading : Reading) : List Char → Except Stop Reading
  | [] => .ok reading
  | letter :: rest =>
      match options.find? (·.letter = some letter) with
      | none => .error .argumentUnknown
      | some rule =>
          if rule.takesValue then
            let value :=
              match rest with
              | [] => none
              | '=' :: value => some (String.ofList value)
              | value => some (String.ofList value)
            reading.expect rule value
          else do
            readLetters options (← reading.switchOn rule) rest

def operand (reading : Reading) (rule : CommandRule) (text : String) : Except Stop Reading :=
  if rule.needsOperands then do
    let reading ← reading.resolve
    return { reading with
      level := { reading.level with operands := reading.level.operands ++ [text] } }
  else if rule.commands.isEmpty then .error .argumentUnknown
  else if reading.onlyOperands && (text = "help" || rule.commands.any (·.name = text)) then
    .error .argumentUnknown
  else .error .commandUnknown

def argument (reading : Reading) (rule : CommandRule) (text : String) : Except Stop Reading :=
  let plain : Except Stop Reading :=
    match reading.pending with
    | some (option, none) => .ok { reading with pending := some (option, some text) }
    | _ => reading.operand rule text
  match text.toList with
  | ['-', '-'] => .ok { reading with onlyOperands := true }
  | '-' :: '-' :: named => reading.readNamed rule.options named
  | ['-'] => plain
  | '-' :: letters => reading.readLetters rule.options letters
  | _ => plain

/-- The end of a command; whether one of its commands was given matters for what it needs. -/
def finish (reading : Reading) (rule : CommandRule) (hasCommand : Bool) : Except Stop Level := do
  let { level, .. } ← reading.resolve
  if !hasCommand && !rule.commands.isEmpty then
    .error (if level.switches.isEmpty && level.values.isEmpty then .helpInstead else .commandMissing)
  else if rule.conflicts.any fun (first, second) => level.has first && level.has second then
    .error .conflict
  else if rule.needsOperands && level.operands.isEmpty then .error .operandMissing
  else return level

end Reading

def helpOn (commands : List CommandRule) : List String → Stop
  | [] => .help
  | name :: names =>
      match commands.find? (·.name = name) with
      | some command => helpOn command.commands names
      | none =>
          if name = "help" && !commands.isEmpty && names.isEmpty then .help else .commandUnknown

/-- Reads the arguments of a command: what was given to it, and then to the command below it. -/
def read (rule : CommandRule) (reading : Reading) : List String → Except Stop (List Level)
  | [] => do return [← reading.finish rule false]
  | text :: rest =>
      if reading.onlyOperands then do
        read rule (← reading.operand rule text) rest
      else
        match rule.commands.find? fun command => !reading.expectsValue && command.name = text with
        | some command => do
            let below ← read command (.start command.name) rest
            return (← reading.finish rule true) :: below
        | none =>
            if text = "help" && !reading.expectsValue && !rule.commands.isEmpty then
              .error (helpOn rule.commands rest)
            else do
              read rule (← reading.argument rule text) rest

end ComponentTags.CommandLine
