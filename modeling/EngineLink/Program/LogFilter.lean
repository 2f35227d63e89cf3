import EngineLink.Log
import EngineLink.Text.Blank
import EngineLink.Text.Digits
import EngineLink.Text.Utf8

/-!
# Which log events are printed

A filter is a list of directives. A directive names a level and optionally the target, the span
and the fields to which it applies. Without directives of the user, the targets of the program
get the level that the command line names.

Read `Directive.parse?` and `filterText` first.
-/

namespace EngineLink.LogFilter

/-- The events that a directive lets through: those of a level and the more severe ones, or
none. -/
inductive Threshold
  | off
  | upTo (level : Log.Level)
  deriving DecidableEq

namespace Threshold

/-- The word for a threshold. -/
def name : Threshold → String
  | off => "off"
  | upTo level => level.name

/-- An event of this level is let through. -/
def passes : Threshold → Log.Level → Bool
  | off, _ => false
  | upTo limit, level => level.rank ≤ limit.rank

/-- All thresholds, in the order of the numbers that stand for them. -/
def all : List Threshold :=
  off :: Log.Level.all.map upTo

/-- The same letters in either case, for ASCII letters. -/
def sameLetters (a b : List Char) : Bool :=
  a.map Char.toLower == b.map Char.toLower

/-- Reads a threshold: its number, or its name in any case. -/
def parse? (text : List Char) : Option Threshold :=
  match Text.readNat? Text.maxWord text with
  | some n => all[n]?
  | none =>
    if text = [] then some (upTo .error)
    else all.find? fun t => sameLetters t.name.toList text

end Threshold

/-- A rule of a filter. -/
structure Directive where
  target : Option (List Char)
  span : Option (List Char)
  fields : List (List Char)
  threshold : Threshold
  deriving DecidableEq

/-- Where the reading of a directive stands. The characters gathered so far are kept with it. -/
inductive Reading
  | start
  /-- A level or a target. -/
  | word (text : List Char)
  | span (text : List Char)
  | field (text : List Char)
  /-- Behind the fields of a span. -/
  | fields
  /-- Behind a span. -/
  | behindSpan
  | level (text : List Char)

/-- A character that may start a level or a target. -/
def startsWord (c : Char) : Bool :=
  c = '-' || c = ':' || c = '_' || c.isAlphanum || (127 < c.toNat && !Text.isBlank c)

/-- Reads the rest of a directive of which `d` is known. -/
def readDirective? (d : Directive) : Reading → List Char → Option Directive
  | .start, [] => none
  | .start, c :: rest =>
    if c = '[' then readDirective? d (.span []) rest
    else if startsWord c then readDirective? d (.word [c]) rest
    else none
  | .word text, [] =>
    match Threshold.parse? text with
    | some t => some { d with threshold := t }
    | none => some { d with target := some text }
  | .word text, c :: rest =>
    if c = '=' then readDirective? { d with target := some text } (.level []) rest
    else if c = '[' then readDirective? { d with target := some text } (.span []) rest
    else readDirective? d (.word (text ++ [c])) rest
  | .span _, [] => none
  | .span text, c :: rest =>
    if c = ']' then readDirective? { d with span := some text } .behindSpan rest
    else if c = '\x7b' then
      readDirective? (if text = [] then d else { d with span := some text }) (.field []) rest
    else readDirective? d (.span (text ++ [c])) rest
  | .field _, [] => none
  | .field text, c :: rest =>
    if c = '\x7d' then
      if text = [] then none
      else readDirective? { d with fields := d.fields ++ [text] } .fields rest
    else readDirective? d (.field (text ++ [c])) rest
  | .fields, [] => none
  | .fields, c :: rest => if c = ']' then readDirective? d .behindSpan rest else none
  | .behindSpan, [] => some d
  | .behindSpan, c :: rest => if c = '=' then readDirective? d (.level []) rest else none
  | .level text, [] =>
    if text = [] then some d
    else (Threshold.parse? text).map fun t => { d with threshold := t }
  | .level text, c :: rest => readDirective? d (.level (text ++ [c])) rest

/-- Reads a directive. Without a level it lets every event through. -/
def Directive.parse? (text : List Char) : Option Directive :=
  readDirective? ⟨none, none, [], .upTo .trace⟩ .start text

/-- The parts of a text between commas that are not empty. -/
def parts (text : List Char) : List (List Char) :=
  Text.fields (· = ',') text

/-- The name of a field that a directive names. -/
def fieldName (field : List Char) : List Char :=
  field.takeWhile (· ≠ '=')

/-- A field is named together with a value. -/
def hasValue (field : List Char) : Bool :=
  field.contains '='

namespace Directive

/-- The directive applies inside spans or to events with fields. -/
def isDynamic (d : Directive) : Bool :=
  d.span.isSome || !d.fields.isEmpty

/-- The directive without a span, if it names none and no value of a field. -/
def toStatic? (d : Directive) : Option Directive :=
  if d.span.isSome || d.fields.any hasValue then none
  else some { d with fields := d.fields.map fieldName }

/-- Order of optional texts: none first, then by the code points. -/
def textBefore : Option (List Char) → Option (List Char) → Bool
  | none, some _ => true
  | some a, some b => decide (a < b)
  | _, none => false

/-- The order of specificity, the most specific first: a longer target, then a span, then more
fields, then the later in the order of the texts. -/
def before (a b : Directive) : Bool :=
  let size (t : Option (List Char)) : Nat := match t with
    | none => 0
    | some cs => (Text.utf8Chars cs).length + 1
  let key (d : Directive) := (size d.target, if d.span.isSome then 1 else 0, d.fields.length)
  let ka := key a
  let kb := key b
  if ka.1 ≠ kb.1 then kb.1 < ka.1
  else if ka.2.1 ≠ kb.2.1 then kb.2.1 < ka.2.1
  else if ka.2.2 ≠ kb.2.2 then kb.2.2 < ka.2.2
  else if a.target ≠ b.target then textBefore b.target a.target
  else if a.span ≠ b.span then textBefore b.span a.span
  else decide (b.fields < a.fields)

/-- Puts a directive in its place; one for the same target, span and fields is replaced. -/
def insert (d : Directive) : List Directive → List Directive
  | [] => [d]
  | e :: rest =>
    if d.before e then d :: e :: rest
    else if e.before d then e :: insert d rest
    else d :: rest

/-- Puts directives in their order. -/
def sorted (ds : List Directive) : List Directive :=
  ds.foldl (fun held d => insert d held) []

/-- The text of a directive. -/
def text (d : Directive) : String :=
  let join (l : List (List Char)) : List Char := (l.intersperse [',']).flatten
  let fields := if d.fields.isEmpty then [] else '\x7b' :: (join d.fields ++ ['\x7d'])
  let span := if d.isDynamic then '[' :: (d.span.getD [] ++ fields ++ [']']) else []
  let scope := d.target.getD [] ++ span
  let mark := if d.target.isSome || d.isDynamic then ['='] else []
  String.ofList (scope ++ mark) ++ d.threshold.name

end Directive

/-- The text of the filter that directives make: those for events anywhere, then those for
spans and fields. -/
def textOf (ds : List Directive) : String :=
  let dynamics := ds.filter Directive.isDynamic
  let statics := (ds.filter fun d => !d.isDynamic) ++ dynamics.filterMap Directive.toStatic?
  ",".intercalate ((Directive.sorted statics ++ Directive.sorted dynamics).map Directive.text)

/-- Reads all directives of a text; one that is none spoils all. -/
def parseAll? : List (List Char) → Option (List Directive)
  | [] => some []
  | part :: rest => do
    let d ← Directive.parse? part
    let ds ← parseAll? rest
    return d :: ds

/-- The targets of the program's own events. -/
def targets : List String :=
  ["simbridge", "simbridge_transport", "simbridge_frame", "simbridge_server",
    "simbridge_provider"]

/-- The directives that give every target of the program one level. -/
def standard (level : Log.Level) : List Directive :=
  targets.map fun target => ⟨some target.toList, none, [], .upTo level⟩

/-- The directives in force: those of the user, if they are neither blank nor faulty, or else
those of a level. -/
def inForce (level : Log.Level) (directives : Option String) : List Directive :=
  let own := directives.bind fun text =>
    if Text.trimChars text.toList = [] then none else parseAll? (parts text.toList)
  own.getD (standard level)

/-- The text of the filter for a level and the directives of the user. -/
def filterText (level : Log.Level) (directives : Option String) : String :=
  textOf (inForce level directives)

/-- Some directive lets an event through. -/
def passes (ds : List Directive) (e : Log.Event) : Bool :=
  ds.any fun d => d.threshold.passes e.level

end EngineLink.LogFilter
