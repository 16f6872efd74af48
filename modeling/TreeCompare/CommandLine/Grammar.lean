import TreeCompare.Text.Utf8
/-!
# Arguments of a command

A command has options, switched on or given a value, and operands. Options
may stand anywhere and are spelled with two dashes, or with one dash and a
letter; letters may share their dash, and the last of them may have its
value attached. After two dashes alone there are operands only.

Arguments are read from left to right (`Grammar.read`), and the first of
them that is wrong or asks for something else settles the matter.
-/

namespace TreeCompare

namespace CommandLine

/-- An argument: the bytes that the system passes on. -/
abbrev Argument := List UInt8

/-- Why a command is not carried out as it stands. -/
inductive Interruption where
  /-- Help was asked for. -/
  | help
  /-- The version was asked for. -/
  | version
  /-- The arguments do not fit the command. -/
  | usage
deriving DecidableEq, Repr

/-- An option that takes a value. -/
structure ValueOption (κ : Type) where
  key : κ
  /-- It may be given more than once. -/
  repeatable : Bool
  /-- The values it takes. -/
  accepts : Argument → Bool

/-- What an option means. -/
inductive Meaning (κ : Type) where
  | switch (key : κ)
  | value (option : ValueOption κ)
  | interrupt (cause : Interruption)

/-- An option and its spellings. -/
structure OptionForm (κ : Type) where
  letter : Option Char
  long : String
  meaning : Meaning κ

/-- The options and operands of a command. Each operand is described by
the arguments it can be. -/
structure Grammar (κ : Type) where
  options : List (OptionForm κ)
  operands : List (Argument → Bool)

/-- What was read of the arguments of a command. -/
structure Reading (κ : Type) where
  switches : List κ := []
  values : List (κ × Argument) := []
  operands : List Argument := []
  /-- The option whose value comes next. -/
  awaiting : Option (ValueOption κ) := none
  /-- Only operands follow. -/
  operandsOnly : Bool := false

/-- The byte of a dash. -/
def dash : UInt8 := '-'.toUInt8

/-- The byte between an option and its value. -/
def equalsSign : UInt8 := '='.toUInt8

namespace Reading

variable {κ : Type}

/-- The values that an option was given, in order. -/
def valuesOf [BEq κ] (r : Reading κ) (key : κ) : List Argument :=
  (r.values.filter (·.1 == key)).map (·.2)

variable [BEq κ]

/-- Reads one more switch, which was not given before. -/
def addSwitch (r : Reading κ) (key : κ) : Except Interruption (Reading κ) :=
  if r.switches.contains key then .error .usage
  else .ok { r with switches := r.switches ++ [key] }

/-- Reads the value of an option. -/
def addValue (r : Reading κ) (option : ValueOption κ) (value : Argument) :
    Except Interruption (Reading κ) :=
  if option.accepts value && (option.repeatable || !(r.values.any (·.1 == option.key))) then
    .ok { r with values := r.values ++ [(option.key, value)], awaiting := none }
  else .error .usage

/-- Reads one more operand. -/
def addOperand (g : Grammar κ) (r : Reading κ) (operand : Argument) :
    Except Interruption (Reading κ) :=
  match g.operands[r.operands.length]? with
  | some accepts =>
    if accepts operand then .ok { r with operands := r.operands ++ [operand] }
    else .error .usage
  | none => .error .usage

/-- Reads an option, whose value may be attached. -/
def addLong (g : Grammar κ) (r : Reading κ) (long : Argument) (attached : Option Argument) :
    Except Interruption (Reading κ) :=
  match g.options.find? (Utf8.encode ·.long.toList == long) with
  | none => .error .usage
  | some form =>
    match form.meaning, attached with
    | .interrupt cause, none => .error cause
    | .switch key, none => r.addSwitch key
    | .value option, none => .ok { r with awaiting := some option }
    | .value option, some value => r.addValue option value
    | _, some _ => .error .usage

/-- Reads options of one letter each. What follows an option that takes a
value is its value. -/
def addLetters (g : Grammar κ) (r : Reading κ) : Argument → Except Interruption (Reading κ)
  | [] => .ok r
  | b :: rest =>
    match g.options.find? (·.letter.any (·.toNat == b.toNat)) with
    | none => .error .usage
    | some form =>
      match form.meaning with
      | .interrupt cause => .error cause
      | .switch key =>
        match r.addSwitch key with
        | .ok r => r.addLetters g rest
        | .error cause => .error cause
      | .value option =>
        match rest with
        | [] => .ok { r with awaiting := some option }
        | c :: value => r.addValue option (if c = equalsSign then value else c :: value)

/-- Reads an argument that spells no option. -/
def addPlain (g : Grammar κ) (r : Reading κ) (argument : Argument) :
    Except Interruption (Reading κ) :=
  match r.awaiting with
  | some option => r.addValue option argument
  | none => r.addOperand g argument

/-- Reads an argument. What starts with a dash is no value, unless it is
the dash alone. -/
def add (g : Grammar κ) (r : Reading κ) (argument : Argument) :
    Except Interruption (Reading κ) :=
  if r.operandsOnly then r.addOperand g argument
  else match argument with
  | a :: b :: rest =>
    if a = dash then
      if r.awaiting.isSome then .error .usage
      else if b = dash then
        if rest = [] then .ok { r with operandsOnly := true }
        else
          let long := rest.takeWhile (· ≠ equalsSign)
          r.addLong g long ((rest.drop long.length).tail?)
      else r.addLetters g (b :: rest)
    else r.addPlain g argument
  | _ => r.addPlain g argument

end Reading

/-- Reads the arguments of a command: no option waits for its value in the
end, and no operand is missing. -/
def Grammar.read {κ : Type} [BEq κ] (g : Grammar κ) (arguments : List Argument) :
    Except Interruption (Reading κ) :=
  match arguments.foldlM (Reading.add g) {} with
  | .error cause => .error cause
  | .ok r =>
    if r.awaiting.isNone && r.operands.length == g.operands.length then .ok r
    else .error .usage

end CommandLine

end TreeCompare
