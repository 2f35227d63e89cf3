import EngineLink.Text.Digits

/-!
# Reading a command line

Options are words `--name value` or `--name=value`, flags are words without a value, and the
first other word names the command whose own options follow. Some options are also read from the
environment, and some have a default. Words are judged from left to right; the value of an
option is judged when the next option is met or the words end.

Read `Level.resolve`, `scan` and `readLevel` first.
-/

namespace EngineLink.Arguments

/-- Why a command line is not carried out; the first three ask for a text instead. -/
inductive UsageError
  | displayHelp
  | displayVersion
  /-- Nothing was given, so help is shown. -/
  | helpOnMissing
  | invalidSubcommand
  | unknownArgument
  /-- An option that takes one value was given twice. -/
  | argumentConflict
  /-- A value is not of the form that its option takes. -/
  | valueValidation
  /-- A value is missing or is none of those that can be chosen. -/
  | invalidValue
  /-- A flag was given a value. -/
  | tooManyValues
  | missingRequiredArgument
  | missingSubcommand
  deriving DecidableEq

namespace UsageError

/-- The name of a kind of error. -/
def name : UsageError → String
  | displayHelp => "DisplayHelp"
  | displayVersion => "DisplayVersion"
  | helpOnMissing => "DisplayHelpOnMissingArgumentOrSubcommand"
  | invalidSubcommand => "InvalidSubcommand"
  | unknownArgument => "UnknownArgument"
  | argumentConflict => "ArgumentConflict"
  | valueValidation => "ValueValidation"
  | invalidValue => "InvalidValue"
  | tooManyValues => "TooManyValues"
  | missingRequiredArgument => "MissingRequiredArgument"
  | missingSubcommand => "MissingSubcommand"

/-- The status with which the program then exits. -/
def status : UsageError → Nat
  | displayHelp | displayVersion => 0
  | _ => 2

end UsageError

/-- What an option takes. -/
inductive Form
  /-- No value. -/
  | flag
  /-- Any text, each time it is given. -/
  | texts
  | text
  /-- A whole number between zero and `top`, which may be written with a sign. -/
  | integer (top : Nat)
  /-- A whole number up to `top` without a minus sign. -/
  | natural (top : Nat)
  /-- One of these words. -/
  | choice (words : List String)
  deriving DecidableEq

/-- The number that a value of an option denotes. -/
def Form.number? (form : Form) (value : String) : Option Nat :=
  match form with
  | integer top => (Text.readInt? 0 top value.toList).map Int.toNat
  | natural top => Text.readNat? top value.toList
  | _ => none

/-- Judges the value of an option. -/
def Form.judge (form : Form) (value : String) : Except UsageError Unit :=
  match form with
  | flag | texts | text => .ok ()
  | integer _ | natural _ =>
    if (form.number? value).isSome then .ok () else .error .valueValidation
  | choice words => if words.contains value then .ok () else .error .invalidValue

/-- An option of the program or of a command. -/
structure Opt where
  name : String
  form : Form
  /-- The variable of the environment that gives the value if the command line does not. -/
  envName? : Option String
  default? : Option String
  required : Bool

/-- A command with its options. -/
structure Command where
  name : String
  options : List Opt

/-- Where options are read: in front of the command or behind it. -/
structure Scope where
  options : List Opt
  /-- The commands that can follow; there are none behind a command. -/
  commands : List Command
  /-- There is a flag for the version. -/
  versioned : Bool

/-- The values of options, in the order in which they were judged. -/
abbrev Given := List (String × String)

/-- What was read so far: judged values, and an option that is not judged yet with its value, if
that has come. -/
structure Level where
  given : Given
  pending : Option (Opt × Option String)

namespace Level

/-- Nothing was read. -/
def start : Level :=
  ⟨[], none⟩

/-- A value for this option was judged. -/
def has (l : Level) (name : String) : Bool :=
  (l.given.lookup name).isSome

/-- Judges an option with its value; only some can be given twice. -/
def accept (l : Level) (o : Opt) (value : String) : Except UsageError Level :=
  if o.form ≠ .texts ∧ l.has o.name then .error .argumentConflict
  else match o.form.judge value with
    | .error e => .error e
    | .ok _ => .ok ⟨l.given ++ [(o.name, value)], none⟩

/-- Judges the option that is pending. -/
def resolve (l : Level) : Except UsageError Level :=
  match l.pending with
  | none => .ok l
  | some (_, none) => .error .invalidValue
  | some (o, some value) => { l with pending := none }.accept o value

/-- An option waits for its value. -/
def awaits (l : Level) : Option Opt :=
  match l.pending with
  | some (o, none) => some o
  | _ => none

end Level

/-- A word of the command line. -/
inductive Word
  /-- Two dashes: no option follows. -/
  | separator
  /-- A name behind two dashes, with a value if there is an equals sign. -/
  | long (name : String) (value : Option String)
  /-- A letter behind one dash. -/
  | short (letter : Char)
  | plain (text : String)
  deriving DecidableEq

/-- Classifies a word. A single dash is a plain word. -/
def Word.of (text : String) : Word :=
  match text.toList with
  | ['-', '-'] => .separator
  | '-' :: '-' :: rest =>
    let name := rest.takeWhile (· ≠ '=')
    match rest.dropWhile (· ≠ '=') with
    | [] => .long (String.ofList name) none
    | _ :: value => .long (String.ofList name) (some (String.ofList value))
  | '-' :: letter :: _ => .short letter
  | _ => .plain text

/-- The command that a word names. -/
def Scope.command? (s : Scope) (word : String) : Option Command :=
  s.commands.find? fun c => c.name == word

/-- Judges what is pending and then ends with `e`. -/
def endWith (l : Level) (e : UsageError) : Except UsageError Level :=
  match l.resolve with
  | .error e' => .error e'
  | .ok _ => .error e

/-- Reads a word that names an option by its long name. -/
def readLong (s : Scope) (l : Level) (name : String) (value : Option String) :
    Except UsageError Level :=
  if name = "help" then
    if value.isSome then .error .tooManyValues else endWith l .displayHelp
  else if name = "version" ∧ s.versioned then
    if value.isSome then .error .tooManyValues else endWith l .displayVersion
  else match s.options.find? fun o => o.name == name with
    | none => .error .unknownArgument
    | some o =>
      if o.form = .flag then
        if value.isSome then .error .tooManyValues
        else l.resolve.bind fun l => l.accept o "true"
      else match value with
        | some v => l.resolve.bind fun l => l.accept o v
        | none => l.resolve.map fun l => { l with pending := some (o, none) }

/-- Reads a word of one dash and a letter: the flags for help and the version. -/
def readShort (s : Scope) (l : Level) (letter : Char) : Except UsageError Level :=
  if letter = 'h' then endWith l .displayHelp
  else if letter = 'V' ∧ s.versioned then endWith l .displayVersion
  else .error .unknownArgument

/-- The words behind `help` name a command, or none. -/
def readHelp (s : Scope) : List String → UsageError
  | [] => .displayHelp
  | [word] =>
    if (s.command? word).isSome || word = "help" then .displayHelp else .invalidSubcommand
  | _ => .invalidSubcommand

/-- What a word that can be no option and no value means. -/
def misplaced (s : Scope) (behindSeparator : Bool) (word : String) : UsageError :=
  if s.commands.isEmpty then .unknownArgument
  else if behindSeparator && ((s.command? word).isSome || word = "help") then .unknownArgument
  else .invalidSubcommand

/-- The first plain word behind a separator ends the reading. -/
def scanSeparated (s : Scope) (l : Level) : List String → Except UsageError Level
  | [] => .ok l
  | word :: _ => .error (misplaced s true word)

/-- Reads words up to the end or to the name of a command, which comes with the words behind
it. -/
def scan (s : Scope) (l : Level) :
    List String → Except UsageError (Level × Option (Command × List String))
  | [] => .ok (l, none)
  | word :: rest =>
    match Word.of word with
    | .separator => (scanSeparated s l rest).map fun l => (l, none)
    | .long name value => (readLong s l name value).bind fun l => scan s l rest
    | .short letter => (readShort s l letter).bind fun l => scan s l rest
    | .plain text =>
      match l.awaits with
      | some o => scan s { l with pending := some (o, some text) } rest
      | none =>
        match s.command? text with
        | some c => .ok (l, some (c, rest))
        | none =>
          if text = "help" ∧ ¬ s.commands.isEmpty then .error (readHelp s rest)
          else .error (misplaced s false text)

/-- Adds the values that the environment gives for options that the command line does not. -/
def addEnvironment (env : List (String × String)) : List Opt → Level → Except UsageError Level
  | [], l => .ok l
  | o :: rest, l =>
    match (if l.has o.name then none else o.envName?.bind fun name => env.lookup name) with
    | none => addEnvironment env rest l
    | some value => (l.accept o value).bind (addEnvironment env rest)

/-- Judges what is pending and adds what the environment gives. -/
def finish (env : List (String × String)) (s : Scope) (l : Level) : Except UsageError Given :=
  match l.resolve.bind (addEnvironment env s.options) with
  | .error e => .error e
  | .ok l => .ok l.given

/-- Every option that must be given was given. -/
def complete (options : List Opt) (given : Given) : Bool :=
  options.all fun o => !o.required || (given.lookup o.name).isSome

/-- The values of options in front of a command, the command, and the values behind it. -/
structure Parsed where
  outer : Given
  command : Command
  inner : Given

/-- Reads a command line: the words behind a command are judged before what is pending in front
of it. -/
def read (env : List (String × String)) (s : Scope) (words : List String) :
    Except UsageError Parsed := do
  let (outer, found) ← scan s .start words
  match found with
  | none =>
    let given ← finish env s outer
    .error (if given.isEmpty then .helpOnMissing else .missingSubcommand)
  | some (command, rest) =>
    let scope : Scope := ⟨command.options, [], false⟩
    let (inner, _) ← scan scope .start rest
    let innerGiven ← finish env scope inner
    if complete command.options innerGiven then
      let outerGiven ← finish env s outer
      return ⟨outerGiven, command, innerGiven⟩
    else .error .missingRequiredArgument

/-- All values of an option, or its default. -/
def valuesOf (o : Opt) (given : Given) : List String :=
  match (given.filter fun entry => entry.1 == o.name).map Prod.snd with
  | [] => o.default?.toList
  | values => values

end EngineLink.Arguments
