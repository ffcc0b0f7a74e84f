import Sequencer.Report

/-!
# Compiling source texts

From a source text straight to bytecode.

* `Rejection` — a text is rejected because it cannot be read or because its
  statements are faulty, and is then reported on.
* `compileSource` — the bytecode of a source text, or its rejection.
-/

namespace Sequencer

/-- Why a source text was not compiled. -/
inductive Rejection where
  | unreadable (failure : Script.Failure)
  | faulty (faults : List Script.Fault)
deriving Repr, DecidableEq, Inhabited

def Rejection.reports : Rejection → List Report
  | unreadable failure => [.ofFailure failure]
  | faulty faults => faults.map .ofFault

/-- The text of all reports on a rejected text, one after the other. -/
def Rejection.render (source : String) (rejection : Rejection) : String :=
  let document := Document.ofString source
  String.join (rejection.reports.map (·.render document))

def compileSource (source : String) : Except Rejection Bytecode :=
  match Script.parse source with
  | .error failure => .error (.unreadable failure)
  | .ok script =>
    match Script.compile script with
    | .error faults => .error (.faulty faults)
    | .ok code => .ok code

theorem compileSource_eq_ok {source : String} {script : List Script.Statement} {code : Bytecode}
    (parsed : Script.parse source = .ok script) (compiled : Script.compile script = .ok code) :
    compileSource source = .ok code := by
  simp only [compileSource, parsed, compiled]

example : (compileSource "play(-60); jump(end) // forward\nend:").toOption =
    some #[0xE7, 60, 0xFE, 5, 0, 0xFF] := by decide +kernel

example : (match compileSource "bogus()" with
    | .ok _ => ""
    | .error rejection => rejection.render "bogus()") =
    "Error: Unknown instruction `bogus`\n" ++
    "   ╭─[ <unknown>:1:1 ]\n" ++
    "   │\n" ++
    " 1 │ bogus()\n" ++
    "   │ ───┬───  \n" ++
    "   │    ╰───── not an instruction\n" ++
    "───╯\n" := by decide +kernel

end Sequencer
