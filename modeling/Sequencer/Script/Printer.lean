import Sequencer.Script.Basic
import Sequencer.Text.Numeral

/-!
# Writing scripts

The text of statements, in the spelling that listings and generated scripts use:
no blanks but one behind a comma, decimal numbers, no semicolons.

* `callText`, `labelText` — a call and a definition, given the text of their parts.
* `Statement.text` — the text of a statement; spans play no part in it.
-/

namespace Sequencer.Script

def callText (name : String) (arguments : List String) : String :=
  name ++ "(" ++ ", ".intercalate arguments ++ ")"

def labelText (name : String) : String :=
  name ++ ":"

def Value.text : Value → String
  | .number value =>
    if value < 0 then "-" ++ Text.decimal value.natAbs else Text.decimal value.natAbs
  | .label name => name

def Statement.text : Statement → String
  | .label name _ => labelText name
  | .call made => callText made.name (made.arguments.map (·.value.text))

end Sequencer.Script
