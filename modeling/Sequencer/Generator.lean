import Sequencer.Generator.Draw
import Sequencer.Generator.Plan

/-!
# Random scripts

Draws a plan from a source of random words and writes it.

* `Generator.drawPlan` — the choices in the order they are drawn.  A figure draws
  its own numbers right after its shape.
* `Generator.generate` — the text, and the source after it.
-/

namespace Sequencer.Generator

/-- Draws the shape of a figure and the numbers in it. -/
def drawFigure : Draw Figure := do
  match (← below 14).val with
  | 0 => return .playNote
  | 1 => return .rawNote
  | 2 => return .pause (← below 15)
  | 3 => return .longPause (← below 584)
  | 4 => return .playRegister
  | 5 => return .selectRegister (← below 6)
  | 6 => return .climb (← below 3) (← below 7)
  | 7 => return .countdown (← below 4)
  | 8 => return .leap (← below 8)
  | 9 => return .leapUnless (← below 8) (← below 8)
  | 10 => return .external (← below 0x10000)
  | 11 => return .rate (← below 300)
  | 12 => return .idle
  | _ => return .resetNote

/-- Draws one step: the degree of the scale, then the figure. -/
def drawStep : Draw Step := do
  let degree ← below 10
  let figure ← drawFigure
  return ⟨degree, figure⟩

def drawSteps : Nat → Draw (List Step)
  | 0 => return []
  | count + 1 => do
    let step ← drawStep
    let steps ← drawSteps count
    return step :: steps

def drawEnding : Draw Ending := do
  match (← below 3).val with
  | 0 => return .jumpBack
  | 1 => return .repeatRiff
  | _ => return .stop

/-- Draws a plan of two to eleven steps.  The root note alone is drawn with the sharp zone. -/
def drawPlan : Draw Plan := do
  let root ← belowWithin sharpZone 24
  let riff ← below 100
  let instrument ← below 6
  let rate ← below 4
  let count ← below 10
  let steps ← drawSteps (2 + count)
  let ending ← drawEnding
  return { root, riff, instrument, rate, steps, ending }

def generate (source : WordSource) : Option (String × WordSource) :=
  (drawPlan source).map fun (plan, rest) => (plan.text, rest)

end Sequencer.Generator
