import Sequencer.Opcode
import Sequencer.Script.Printer

/-!
# Plans of random scripts

A random script is planned before it is written: an instrument, a riff and an
ending that goes back to the riff or stops.  Every choice is a number below a
bound, so each plan there is can be written.

* `Figure` — the fourteen things a step of the riff can do.
* `Plan` — all choices.
* `Plan.lines` — the phrases of the script, line by line; `Plan.text` writes them.
-/

namespace Sequencer.Generator

/-! ## Phrases -/

/-- What a phrase gives as an argument. -/
inductive Term where
  | decimal (value : Nat)
  | hexadecimal (value : Nat)
  | label (name : String)
deriving Repr, DecidableEq, Inhabited

def Term.text : Term → String
  | decimal value => Text.decimal value
  | hexadecimal value => "0x" ++ Text.hexadecimal value
  | label name => name

/-- A statement with the spelling of its argument. -/
inductive Phrase where
  | define (label : String)
  /-- A raw byte. -/
  | data (value : Nat)
  | plain (opcode : Opcode)
  | apply (opcode : Opcode) (argument : Term)
deriving Repr, DecidableEq, Inhabited

def Phrase.text : Phrase → String
  | define label => Script.labelText label
  | data value => Script.callText Script.dataMnemonic [Text.decimal value]
  | plain opcode => Script.callText opcode.mnemonic []
  | apply opcode argument => Script.callText opcode.mnemonic [argument.text]

def Phrase.number (opcode : Opcode) (value : Nat) : Phrase :=
  apply opcode (.decimal value)

/-! ## Choices -/

/-- The intervals notes are picked from: a major scale over an octave and a half. -/
def scale : Vector Nat 10 :=
  #v[0, 2, 4, 5, 7, 9, 11, 12, 14, 16]

/-- What one step of the riff does. -/
inductive Figure where
  | playNote
  | rawNote
  | pause (phases : Fin 15)
  | longPause (phases : Fin 584)
  | playRegister
  | selectRegister (instrument : Fin 6)
  /-- Plays rising notes up to an octave above. -/
  | climb (interval : Fin 3) (rest : Fin 7)
  /-- Repeats a note. -/
  | countdown (times : Fin 4)
  /-- Jumps over a note, always. -/
  | leap (value : Fin 8)
  /-- Jumps over a note unless a comparison holds. -/
  | leapUnless (value limit : Fin 8)
  | external (code : Fin 0x10000)
  | rate (frames : Fin 300)
  | idle
  | resetNote
deriving Repr, DecidableEq, Inhabited

/-- A figure and the degree of the scale it is played on. -/
structure Step where
  degree : Fin 10
  figure : Figure
deriving Repr, DecidableEq, Inhabited

/-- How a script goes on behind its riff. -/
inductive Ending where
  | jumpBack
  | repeatRiff
  | stop
deriving Repr, DecidableEq, Inhabited

structure Plan where
  root : Fin 24
  riff : Fin 100
  instrument : Fin 6
  rate : Fin 4
  steps : List Step
  ending : Ending
deriving Repr, DecidableEq, Inhabited

/-! ## Scripts -/

/-- The phrases of a figure on a note, as the step with the given number. -/
def Figure.phrases (note number : Nat) : Figure → List Phrase
  | playNote => [.number .play note]
  | rawNote => [.data note]
  | pause phases => [.number .wait (1 + phases)]
  | longPause phases => [.number .wait16 (16 + phases)]
  | playRegister => [.number .set note, .plain .playSet]
  | selectRegister instrument => [.number .set instrument, .plain .instrumentSet]
  | climb interval rest =>
    [.number .set note, .plain .markSection, .number .add (1 + interval), .plain .playSet,
      .number .wait (1 + rest), .number (.compare .less) (note + 12),
      .plain (.repeatSection .ifSet)]
  | countdown times =>
    [.number .set (1 + times), .plain .markSection, .number .sub 1, .number .play note,
      .number (.compare .atMost) 0, .plain (.repeatSection .ifClear)]
  | leap value =>
    let skip := "skip" ++ Text.decimal number
    [.number .set value, .number (.compare .equal) value, .apply (.jump .ifSet) (.label skip),
      .number .play note, .define skip]
  | leapUnless value limit =>
    let skip := "skip" ++ Text.decimal number
    [.number .set value, .number (.compare .greater) limit,
      .apply (.jump .ifClear) (.label skip), .number (.compare .atLeast) 0, .number .play note,
      .define skip]
  | external code => [.apply .syscall (.hexadecimal code)]
  | rate frames => [.number .ticks16 frames]
  | idle => [.plain .nop]
  | resetNote => [.plain .reset]

namespace Plan

def riffLabel (plan : Plan) : String :=
  "riff" ++ Text.decimal plan.riff

/-- The note of a step: the root, which is at least 24, and an interval of the scale. -/
def note (plan : Plan) (step : Step) : Nat :=
  24 + plan.root + scale[step.degree]

def last (plan : Plan) : Phrase :=
  match plan.ending with
  | .jumpBack => .apply (.jump .always) (.label plan.riffLabel)
  | .repeatRiff => .plain (.repeatSection .always)
  | .stop => .plain .halt

/-- The phrases of the script, line by line. -/
def lines (plan : Plan) : List (List Phrase) :=
  [[.number .instrument plan.instrument], [.number .ticks plan.rate], [.define plan.riffLabel],
      [.plain .markSection]] ++
    plan.steps.zipIdx.map (fun (step, number) => step.figure.phrases (plan.note step) number) ++
    [[plan.last]]

def text (plan : Plan) : String :=
  "\n".intercalate (plan.lines.map fun phrases => " ".intercalate (phrases.map Phrase.text))

end Plan

end Sequencer.Generator
