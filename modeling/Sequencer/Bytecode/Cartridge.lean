import Sequencer.Bytecode.Disassembly
import Sequencer.Text.Feeds

/-!
# Cartridge source

Bytecode as a declaration that can be pasted into the source of a cartridge.

* `Bytecode.declaration` — a one-line comment, then the bytes as an array literal.
* `Bytecode.annotatedDeclaration` — the same under a disassembly in comments.
-/

namespace Sequencer.Bytecode

def declarationHeader : String :=
  "// Generated music code. Click on \"Export to clipboard\" to copy it."

/-- One byte as two hexadecimal digits behind `0x`. -/
def byteLiteral (byte : UInt8) : String :=
  "0x" ++ Text.padLeft '0' 2 (Text.hexadecimal byte.toNat)

def byteLiterals (code : Bytecode) : String :=
  ",".intercalate (code.toList.map byteLiteral)

def declarationLines (code : Bytecode) : List String :=
  [declarationHeader, "const music: usize = memory.data<u8>([ " ++ code.byteLiterals ++ " ]);"]

def declaration (code : Bytecode) : String :=
  "\n".intercalate code.declarationLines

def annotatedDeclaration (code : Bytecode) : String :=
  "\n".intercalate
    ((Text.feedLines code.listing).map (fun line => "// " ++ line) ++ [code.declaration])

end Sequencer.Bytecode
