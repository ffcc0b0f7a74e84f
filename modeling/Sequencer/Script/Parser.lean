import Sequencer.Script.Reader

/-!
# The grammar of scripts

    script     = { item }, comments            (blanks around everything)
    item       = comments, ( label | call )
    label      = name, ":"
    call       = name, "(", [ argument, { ",", argument }, [ "," ] ], ")", [ ";" ]
    argument   = [ "-" ], ( "0x", hexadecimal digits | decimal digits ) | name
    comment    = "//", the rest of the line

Blanks may stand around arguments, between a call's name and its parenthesis,
and around its semicolon; none are needed between statements.

* `Script.parse` — the statements of a source text, or the failure to blame.
* `greatestMagnitude` — a number further from zero cannot be written.
-/

namespace Sequencer.Script

/-! ## Characters and digits -/

def isNameStart (c : Char) : Bool :=
  c.isAlpha || c == '_'

def isNamePart (c : Char) : Bool :=
  c.isAlphanum || c == '_'

/-- Whether the character is a hexadecimal digit of either case. -/
def isHexDigit (c : Char) : Bool :=
  c.isDigit || ('a' ≤ c && c ≤ 'f') || ('A' ≤ c && c ≤ 'F')

def digitValue (c : Char) : Nat :=
  if c.isDigit then c.toNat - '0'.toNat
  else if 'a' ≤ c then c.toNat - 'a'.toNat + 10
  else c.toNat - 'A'.toNat + 10

/-- The value of a row of digits, the highest first. -/
def digitsValue (base : Nat) (digits : List Char) : Nat :=
  digits.foldl (fun n c => base * n + digitValue c) 0

/-- The greatest signed number of 64 bits. -/
def greatestMagnitude : Nat := 0x7FFFFFFFFFFFFFFF

namespace Parser

open Reader

/-! ## Names and numbers -/

def name : Reader String := do
  let first ← satisfy isNameStart
  let rest ← takeWhile isNamePart
  return String.ofList (first :: rest)

def hexadecimal : Reader Nat := do
  expect '0'
  expect 'x'
  let digits ← takeWhile1 isHexDigit
  return digitsValue 16 digits

def decimal : Reader Nat := do
  let digits ← takeWhile1 Char.isDigit
  return digitsValue 10 digits

/-- Reads a number with an optional sign.  One that is too great is refused. -/
def number : Reader Int := do
  let sign ← optional (expect '-')
  let magnitude ← hexadecimal <|> decimal
  if magnitude ≤ greatestMagnitude then
    return if sign.isSome then -(magnitude : Int) else magnitude
  else
    refuse

/-! ## Calls and labels -/

/-- Reads a value together with its span. -/
def located {α : Type} (reader : Reader α) : Reader (α × Span) := do
  let start ← position
  let value ← reader
  let stop ← position
  return (value, ⟨start, stop⟩)

def value : Reader Value :=
  Value.number <$> number <|> Value.label <$> name

/-- Reads an argument and the blanks around it. -/
def argument : Reader Argument := do
  skipBlanks
  let (value, span) ← located value
  skipBlanks
  return ⟨value, span⟩

def nextArgument : Reader Argument := do
  expect ','
  argument

theorem advances_name : name.Advances :=
  ((consumes_satisfy _).bind fun _ =>
    (advances_takeWhile _).bind fun _ => advances_pure _).advances

theorem advances_hexadecimal : hexadecimal.Advances :=
  ((consumes_expect _).bind fun _ => (consumes_expect _).advances.bind fun _ =>
    (consumes_takeWhile1 _).advances.bind fun _ => advances_pure _).advances

theorem advances_decimal : decimal.Advances :=
  (consumes_takeWhile1 _).advances.bind fun _ => advances_pure _

theorem advances_number : number.Advances := by
  refine (advances_optional (consumes_expect _).advances).bind fun sign =>
    (advances_hexadecimal.orElse advances_decimal).bind fun magnitude => ?_
  split
  · exact advances_pure _
  · intro cursor value next h
    cases h

theorem advances_value : value.Advances :=
  (advances_number.bind fun _ => advances_pure _).orElse
    (advances_name.bind fun _ => advances_pure _)

theorem advances_located {α : Type} {reader : Reader α} (h : reader.Advances) :
    (located reader).Advances :=
  advances_position.bind fun _ => h.bind fun _ => advances_position.bind fun _ => advances_pure _

theorem advances_argument : argument.Advances :=
  advances_skipBlanks.bind fun _ => (advances_located advances_value).bind fun _ =>
    advances_skipBlanks.bind fun _ => advances_pure _

theorem consumes_nextArgument : nextArgument.Consumes :=
  (consumes_expect _).bind fun _ => advances_argument

/-- Reads arguments with commas between them.  A comma may follow the last one. -/
def arguments : Reader (List Argument) := do
  match ← optional argument with
  | none => return []
  | some first =>
    let rest ← many nextArgument consumes_nextArgument
    let _ ← optional (expect ',')
    return first :: rest

def argumentList : Reader (List Argument) := do
  expect '('
  skipBlanks
  let arguments ← arguments
  skipBlanks
  expect ')'
  return arguments

/-- Reads a semicolon and the blanks around it. -/
def semicolon : Reader Unit := do
  skipBlanks
  expect ';'
  skipBlanks

/-- Reads a call.  Its span goes up to the closing parenthesis, or takes in the semicolon. -/
def call : Reader Statement := do
  let ((name, arguments), span) ← located do
    let name ← name
    whitespace
    let arguments ← argumentList
    let _ ← optional semicolon
    return (name, arguments)
  return .call ⟨name, arguments, span⟩

def label : Reader Statement := do
  let (name, span) ← located do
    let name ← name
    expect ':'
    return name
  return .label name span

/-! ## Scripts -/

/-- Reads a comment and the blanks around it. -/
def comment : Reader Unit := do
  skipBlanks
  expect '/'
  expect '/'
  restOfLine
  skipBlanks

theorem consumes_comment : comment.Consumes :=
  advances_skipBlanks.bind_consumes fun _ => (consumes_expect _).bind fun _ =>
    (consumes_expect _).advances.bind fun _ => advances_restOfLine.bind fun _ =>
      advances_skipBlanks

def comments : Reader Unit := do
  let _ ← many comment consumes_comment

/-- Reads a statement, the comments before it and the blanks around it. -/
def statement : Reader Statement := do
  comments
  skipBlanks
  let statement ← label <|> call
  skipBlanks
  return statement

theorem consumes_name : name.Consumes :=
  (consumes_satisfy _).bind fun _ => (advances_takeWhile _).bind fun _ => advances_pure _

theorem consumes_located {α : Type} {reader : Reader α} (h : reader.Consumes) :
    (located reader).Consumes :=
  advances_position.bind_consumes fun _ => h.bind fun _ =>
    advances_position.bind fun _ => advances_pure _

theorem advances_arguments : arguments.Advances := by
  refine (advances_optional advances_argument).bind fun first => ?_
  cases first with
  | none => exact advances_pure _
  | some first =>
    exact (advances_many _ _).bind fun _ =>
      (advances_optional (consumes_expect _).advances).bind fun _ => advances_pure _

theorem advances_argumentList : argumentList.Advances :=
  ((consumes_expect _).bind fun _ => advances_skipBlanks.bind fun _ =>
    advances_arguments.bind fun _ => advances_skipBlanks.bind fun _ =>
      (consumes_expect _).advances.bind fun _ => advances_pure _).advances

theorem advances_semicolon : semicolon.Advances :=
  advances_skipBlanks.bind fun _ => (consumes_expect _).advances.bind fun _ => advances_skipBlanks

theorem consumes_label : label.Consumes :=
  (consumes_located (consumes_name.bind fun _ =>
    (consumes_expect _).advances.bind fun _ => advances_pure _)).bind fun _ => advances_pure _

theorem consumes_call : call.Consumes :=
  (consumes_located (consumes_name.bind fun _ => advances_whitespace.bind fun _ =>
    advances_argumentList.bind fun _ => (advances_optional advances_semicolon).bind fun _ =>
      advances_pure _)).bind fun _ => advances_pure _

theorem advances_comments : comments.Advances :=
  (advances_many _ _).bind fun _ => advances_pure _

theorem consumes_statement : statement.Consumes :=
  advances_comments.bind_consumes fun _ => advances_skipBlanks.bind_consumes fun _ =>
    (consumes_label.orElse consumes_call).bind fun _ =>
      advances_skipBlanks.bind fun _ => advances_pure _

def endOfInput : Reader Unit :=
  fun cursor =>
    match cursor.peek? with
    | none => { result := some ((), cursor) }
    | some c => fail ⟨cursor.offset, cursor.spanOfNext, [.endOfInput], some c⟩

def script : Reader (List Statement) := do
  skipBlanks
  let statements ← many statement consumes_statement
  comments
  skipBlanks
  endOfInput
  return statements

end Parser

/-- The statements of a source text, or what kept it from being read. -/
def parse (source : String) : Except Failure (List Statement) :=
  let outcome := Parser.script (.ofString source)
  match outcome.result with
  | some (statements, _) => .ok statements
  | none => .error (outcome.journal.furthest.getD default)

end Sequencer.Script
