import Mathlib.Data.List.Basic
import Sequencer.Bytecode.Cartridge
import Sequencer.Proofs.Script.Writing

/-!
# Cartridge source is read back

A declaration holds its bytes and nothing else in brackets, so whoever looks for them finds
them all.  Above it a listing has one comment for each disassembled line, which does not hide
the declaration.

* `Text.feedLines_intercalate` — joined by line feeds, lines are found again.
* `Between`, `readBytes?`, `readListed?` — how the source is read.
* `Bytecode.readBytes?_byteLiterals`, `Line.readListed?_text` — the bytes and the lines of a
  listing are read as what they are.
* `Bytecode.declaration_read_back` — both kinds of cartridge source.
-/

namespace Sequencer

open Script (isHexDigit digitsValue digits_toDigits digitsValue_replicate_zero
  forall_mem_padded)

namespace Text

/-! ## Lines joined by line feeds -/

/-- Whether a text goes on in one line. -/
def InLine (text : String) : Prop :=
  ∀ c ∈ text.toList, c ≠ '\n' ∧ c ≠ '\r'

instance : DecidablePred InLine := fun text =>
  List.decidableBAll _ text.toList

/-- Whether a text is a line by itself. -/
def SingleLine (text : String) : Prop :=
  text ≠ "" ∧ InLine text

instance : DecidablePred SingleLine := fun text =>
  inferInstanceAs (Decidable (text ≠ "" ∧ InLine text))

theorem InLine.append {first second : String} (inLine : InLine first) (inLine' : InLine second) :
    InLine (first ++ second) := by
  rw [InLine, String.toList_append]
  exact List.forall_mem_append.mpr ⟨inLine, inLine'⟩

theorem SingleLine.append {first second : String} (single : SingleLine first)
    (inLine : InLine second) : SingleLine (first ++ second) :=
  ⟨fun empty => single.1 (String.append_eq_empty_iff.mp empty).1, single.2.append inLine⟩

theorem cutFeeds_append {front : List Char} (inLine : '\n' ∉ front) (rest line : List Char) :
    cutFeeds (front ++ rest) line = cutFeeds rest (front.reverse ++ line) := by
  induction front generalizing line with
  | nil => rfl
  | cons c front ih =>
    obtain ⟨other, inLine⟩ := not_or.mp (mt List.mem_cons.mpr inLine)
    rw [List.cons_append, cutFeeds, ih inLine, List.reverse_cons, List.append_assoc]
    · rfl
    · exact fun feed => other feed.symm

theorem dropReturn_reverse {line : List Char} (inLine : '\r' ∉ line) :
    dropReturn line.reverse = line.reverse := by
  unfold dropReturn
  split
  next rest reversed =>
    have last : '\r' ∈ line.reverse := by simp [reversed]
    exact absurd (List.mem_reverse.mp last) inLine
  next => rfl

/-- A line is cut off at the line feed behind it. -/
theorem cutFeeds_line {line : List Char} (noFeed : '\n' ∉ line) (noReturn : '\r' ∉ line)
    (rest : List Char) : cutFeeds (line ++ '\n' :: rest) [] = line :: cutFeeds rest [] := by
  rw [cutFeeds_append noFeed, List.append_nil, cutFeeds, dropReturn_reverse noReturn,
    List.reverse_reverse]

theorem cutFeeds_intercalate {lines : List String} (single : ∀ line ∈ lines, SingleLine line) :
    cutFeeds ("\n".intercalate lines).toList [] = lines.map String.toList := by
  induction lines with
  | nil => rfl
  | cons line rest ih =>
    obtain ⟨⟨some, inLine⟩, others⟩ := List.forall_mem_cons.mp single
    have noFeed : '\n' ∉ line.toList := fun member => (inLine _ member).1 rfl
    have noReturn : '\r' ∉ line.toList := fun member => (inLine _ member).2 rfl
    cases rest with
    | nil =>
      have whole := cutFeeds_append noFeed [] []
      rw [List.append_nil, List.append_nil] at whole
      rw [String.intercalate_singleton, whole, cutFeeds]
      simp [some]
    | cons next rest =>
      rw [String.intercalate_cons_cons, String.toList_append, String.toList_append,
        List.append_assoc, List.map_cons, ← ih others]
      exact cutFeeds_line noFeed noReturn _

theorem intercalate_append_singleton (separator : String) (front : List String) {last : List String}
    (some : last ≠ []) :
    separator.intercalate (front ++ [separator.intercalate last]) =
      separator.intercalate (front ++ last) := by
  by_cases empty : front = []
  · rw [empty, List.nil_append, List.nil_append, String.intercalate_singleton]
  · rw [String.intercalate_append_of_ne_nil empty (List.cons_ne_nil _ _),
      String.intercalate_append_of_ne_nil empty some, String.intercalate_singleton]

/-- Joined by line feeds, lines are found again. -/
theorem feedLines_intercalate {lines : List String} (single : ∀ line ∈ lines, SingleLine line) :
    feedLines ("\n".intercalate lines) = lines := by
  rw [feedLines, cutFeeds_intercalate single, List.map_map]
  simp

end Text

/-! ## Reading cartridge source -/

/-- Whether a text stands somewhere between two others in a larger text. -/
def Between (opening closing whole inner : String) : Prop :=
  ∃ front back, whole = front ++ opening ++ inner ++ closing ++ back

/-- A byte as two hexadecimal digits behind `0x`. -/
def readByte? : List Char → Option UInt8
  | '0' :: 'x' :: digits =>
    if digits.length = 2 ∧ digits.all isHexDigit then some (UInt8.ofNat (digitsValue 16 digits))
    else none
  | _ => none

/-- Bytes with commas between them.  No text is no bytes. -/
def readBytes? (text : String) : Option (List UInt8) :=
  if text = "" then some [] else (text.toList.splitOn ',').mapM readByte?

/-- The number at the start of a comment, with at least four digits, and the text behind it. -/
def readListed? (line : String) : Option (Nat × String) :=
  match line.toList with
  | '/' :: '/' :: ' ' :: rest =>
    let digits := rest.takeWhile Char.isDigit
    match rest.dropWhile Char.isDigit with
    | ':' :: ' ' :: statement =>
      if 4 ≤ digits.length then some (digitsValue 10 digits, String.ofList statement) else none
    | _ => none
  | _ => none

def isComment (line : String) : Bool :=
  "//".toList.isPrefixOf line.toList

theorem toList_padLeft_zero (width : Nat) (digits : List Char) :
    (Text.padLeft '0' width (String.ofList digits)).toList =
      List.replicate (width - digits.length) '0' ++ digits := by
  simp [Text.padLeft]

namespace Bytecode

/-! ## Bytes -/

theorem toList_byteLiteral (byte : UInt8) : ∃ digits,
    (byteLiteral byte).toList = '0' :: 'x' :: digits ∧ digits.length = 2 ∧
      (∀ c ∈ digits, isHexDigit c = true) ∧ digitsValue 16 digits = byte.toNat := by
  obtain ⟨value, digits⟩ := digits_toDigits (show 1 < 16 by decide) (Nat.le_refl 16) byte.toNat
  have short : (Nat.toDigits 16 byte.toNat).length ≤ 2 :=
    (Nat.length_toDigits_le_iff (by decide) (by decide)).mpr byte.toNat_lt
  refine ⟨List.replicate (2 - (Nat.toDigits 16 byte.toNat).length) '0' ++
    Nat.toDigits 16 byte.toNat, ?_, ?_, forall_mem_padded _ (by decide) digits, ?_⟩
  · rw [byteLiteral, Text.hexadecimal, String.toList_append, toList_padLeft_zero]
    rfl
  · rw [List.length_append, List.length_replicate]
    omega
  · rw [digitsValue_replicate_zero, value]

theorem readByte?_byteLiteral (byte : UInt8) : readByte? (byteLiteral byte).toList = some byte := by
  obtain ⟨digits, whole, two, areDigits, value⟩ := toList_byteLiteral byte
  rw [whole, readByte?, if_pos ⟨two, List.all_eq_true.mpr areDigits⟩, value, UInt8.ofNat_toNat]

/-- Only a few characters are used to write bytes. -/
theorem notMem_byteLiteral {c : Char} (other : isHexDigit c = false) (noMark : c ≠ 'x')
    (byte : UInt8) : c ∉ (byteLiteral byte).toList := by
  obtain ⟨digits, whole, -, areDigits, -⟩ := toList_byteLiteral byte
  rw [whole, List.mem_cons, List.mem_cons]
  rintro (rfl | rfl | member)
  · cases other
  · exact noMark rfl
  · rw [areDigits c member] at other
    cases other

/-- The bytes between the commas are the bytes of the buffer. -/
theorem readBytes?_byteLiterals (code : Bytecode) :
    readBytes? code.byteLiterals = some code.toList := by
  generalize bytes : code.toList = listed
  rw [byteLiterals, bytes]
  cases listed with
  | nil => rfl
  | cons byte rest =>
    have pieces : ((",".intercalate ((byte :: rest).map byteLiteral)).toList.splitOn ',') =
        (byte :: rest).map fun byte => (byteLiteral byte).toList := by
      have noComma : ∀ piece ∈ (byte :: rest).map (fun byte => (byteLiteral byte).toList),
          ',' ∉ piece :=
        List.forall_mem_map.mpr fun byte _ => notMem_byteLiteral (by decide) (by decide) byte
      rw [String.toList_intercalate, List.map_map]
      exact List.splitOn_intercalate ',' noComma (by simp)
    have some : ",".intercalate ((byte :: rest).map byteLiteral) ≠ "" := by
      intro empty
      obtain ⟨digits, whole, -⟩ := toList_byteLiteral byte
      have first := congrArg String.toList empty
      rw [List.map_cons, Script.toList_intercalate_cons, whole] at first
      simp at first
    generalize ",".intercalate ((byte :: rest).map byteLiteral) = text at pieces some ⊢
    have read : (readByte? ∘ fun byte => (byteLiteral byte).toList) = Option.some := by
      funext byte
      rw [Function.comp_apply, readByte?_byteLiteral]
    rw [readBytes?, if_neg some, pieces, List.mapM_map, read]
    exact (List.mapM_pure (m := Option) (f := id)).trans (by rw [List.map_id]; rfl)

theorem notMem_byteLiterals {c : Char} (other : isHexDigit c = false) (noMark : c ≠ 'x')
    (noComma : c ≠ ',') (code : Bytecode) : c ∉ code.byteLiterals.toList := by
  have noLiteral := notMem_byteLiteral other noMark
  unfold byteLiterals
  cases code.toList with
  | nil => exact List.not_mem_nil
  | cons byte rest =>
    rw [List.map_cons, Script.toList_intercalate_cons, List.mem_append, List.flatMap_map,
      List.mem_flatMap]
    rintro (first | ⟨next, -, later⟩)
    · exact noLiteral byte first
    · obtain comma | digit := List.mem_append.mp later
      · exact noComma (List.mem_singleton.mp comma)
      · exact noLiteral next digit

/-- What stands in front of the brackets of a declaration. -/
def declarationFront : String :=
  declarationHeader ++ "\nconst music: usize = memory.data<u8>"

theorem declaration_eq (code : Bytecode) :
    code.declaration = declarationFront ++ "([ " ++ code.byteLiterals ++ " ])" ++ ";" := by
  rw [declaration, declarationLines, String.intercalate_cons_cons, String.intercalate_singleton,
    ← String.toList_inj]
  simp [declarationFront]

/-- The brackets of the array stand nowhere else in a declaration. -/
theorem between_declaration_iff (code : Bytecode) (inner : String) :
    Between "([ " " ])" code.declaration inner ↔ inner = code.byteLiterals := by
  have noOpening : '[' ∉ code.byteLiterals.toList :=
    notMem_byteLiterals (by decide) (by decide) (by decide) code
  have noClosing : ']' ∉ code.byteLiterals.toList :=
    notMem_byteLiterals (by decide) (by decide) (by decide) code
  constructor
  · rintro ⟨front, back, whole⟩
    rw [declaration_eq] at whole
    -- both brackets are found from the left, as there is none in front of them
    have parts : (declarationFront.toList ++ ['(']) ++ '[' ::
          (' ' :: (code.byteLiterals.toList ++ [' ', ']', ')', ';'])) =
        (front.toList ++ ['(']) ++ '[' ::
          (' ' :: (inner.toList ++ ' ' :: ']' :: ')' :: back.toList)) := by
      simpa using congrArg String.toList whole
    obtain ⟨-, -, opened⟩ := (List.append_cons_inj_of_notMem (by decide)
      (by simpa using noOpening)).mp parts
    have parts : (code.byteLiterals.toList ++ [' ']) ++ ']' :: [')', ';'] =
        (inner.toList ++ [' ']) ++ ']' :: ')' :: back.toList := by
      simpa using opened
    obtain ⟨closed, -⟩ := (List.append_cons_inj_of_notMem (by simpa using noClosing)
      (by decide)).mp parts
    exact String.toList_inj.mp (List.append_cancel_right closed.symm)
  · rintro rfl
    exact ⟨declarationFront, ";", declaration_eq code⟩

end Bytecode

/-! ## Lines of a listing -/

theorem inLine_of_isNamePart {text : String}
    (part : ∀ c ∈ text.toList, Script.isNamePart c = true) : Text.InLine text := by
  intro c member
  have named := part c member
  constructor <;> rintro rfl <;> exact absurd named (by decide)

theorem inLine_decimal (n : Nat) : Text.InLine (Text.decimal n) := by
  apply inLine_of_isNamePart
  intro c member
  rw [Text.decimal, String.toList_ofList] at member
  exact Script.isNamePart_of_isDigit (Nat.isDigit_of_mem_toDigits (by decide) (by decide) member)

namespace Line

theorem inLine_statement (line : Line) : Text.InLine line.statement := by
  have name : Text.InLine
      ((line.instruction.opcode?.map Opcode.mnemonic).getD Script.dataMnemonic) := by
    apply inLine_of_isNamePart
    apply (Script.nameText_of_isName _).isNamePart
    cases line.instruction.opcode? with
    | none => exact Script.isName_dataMnemonic
    | some opcode => exact Script.isName_mnemonic opcode
  have arguments : Text.InLine
      (", ".intercalate (line.instruction.operand?.map Text.decimal).toList) := by
    cases line.instruction.operand? with
    | none => exact List.forall_mem_nil _
    | some operand => exact inLine_decimal operand
  have marks : Text.InLine "(" ∧ Text.InLine ")" := by decide
  exact ((name.append marks.1).append arguments).append marks.2

/-- The digits of the offset, filled up with zeros. -/
theorem exists_digits (line : Line) : ∃ digits,
    line.text = String.ofList digits ++ ": " ++ line.statement ∧ 4 ≤ digits.length ∧
      (∀ c ∈ digits, c.isDigit = true) ∧ digitsValue 10 digits = line.offset := by
  have digits : ∀ c ∈ Nat.toDigits 10 line.offset, c.isDigit = true := fun c member =>
    Nat.isDigit_of_mem_toDigits (by decide) (by decide) member
  refine ⟨List.replicate (4 - (Nat.toDigits 10 line.offset).length) '0' ++
    Nat.toDigits 10 line.offset, ?_, ?_, forall_mem_padded _ (by decide) digits, ?_⟩
  · rw [text, Text.decimal, ← toList_padLeft_zero, String.ofList_toList]
  · rw [List.length_append, List.length_replicate]
    omega
  · rw [digitsValue_replicate_zero, (digits_toDigits (by decide) (by decide) _).1]

theorem singleLine_text (line : Line) : Text.SingleLine line.text := by
  obtain ⟨digits, whole, some, areDigits, -⟩ := line.exists_digits
  have number : Text.InLine (String.ofList digits) := by
    apply inLine_of_isNamePart
    rw [String.toList_ofList]
    exact fun c member => Script.isNamePart_of_isDigit (areDigits c member)
  have mark : Text.InLine ": " := by decide
  rw [whole]
  refine ⟨fun empty => ?_, (number.append mark).append line.inLine_statement⟩
  have length := congrArg String.length empty
  simp at length

/-- A line in a comment is read as its offset and its statement. -/
theorem readListed?_text (line : Line) :
    readListed? ("// " ++ line.text) = some (line.offset, line.statement) := by
  obtain ⟨digits, whole, some, areDigits, value⟩ := line.exists_digits
  have listed : ("// " ++ line.text).toList =
      '/' :: '/' :: ' ' :: (digits ++ ':' :: ' ' :: line.statement.toList) := by
    rw [whole]
    simp
  have taken : (digits ++ ':' :: ' ' :: line.statement.toList).takeWhile Char.isDigit = digits := by
    rw [List.takeWhile_append_of_pos areDigits]
    simp
  have dropped : (digits ++ ':' :: ' ' :: line.statement.toList).dropWhile Char.isDigit =
      ':' :: ' ' :: line.statement.toList := by
    rw [List.dropWhile_append_of_pos areDigits]
    simp
  rw [readListed?, listed]
  simp only [taken, dropped]
  rw [if_pos some, value, String.ofList_toList]

end Line

namespace Bytecode

theorem feedLines_listing (code : Bytecode) :
    Text.feedLines code.listing = code.disassemble.map Line.text :=
  Text.feedLines_intercalate (List.forall_mem_map.mpr fun line _ => line.singleLine_text)

theorem singleLine_declarationLines (code : Bytecode) :
    ∀ line ∈ code.declarationLines, Text.SingleLine line := by
  have ends : Text.InLine declarationHeader ∧
      Text.InLine "const music: usize = memory.data<u8>([ " ∧ Text.InLine " ]);" := by
    decide
  have bytes : Text.InLine code.byteLiterals := by
    intro c member
    constructor <;> rintro rfl <;>
      exact notMem_byteLiterals (by decide) (by decide) (by decide) code member
  rw [declarationLines, List.forall_mem_cons, List.forall_mem_singleton]
  refine ⟨⟨by decide, ends.1⟩, fun empty => ?_, (ends.2.1.append bytes).append ends.2.2⟩
  have length := congrArg String.length empty
  simp at length

theorem feedLines_declaration (code : Bytecode) :
    Text.feedLines code.declaration = code.declarationLines :=
  Text.feedLines_intercalate code.singleLine_declarationLines

/-- The lines above the declaration. -/
def comments (code : Bytecode) : List String :=
  code.disassemble.map fun line => "// " ++ line.text

theorem map_readListed?_comments (code : Bytecode) : code.comments.map readListed? =
    code.disassemble.map fun line => some (line.offset, line.statement) := by
  rw [comments, List.map_map]
  refine List.map_congr_left fun line _ => ?_
  rw [Function.comp_apply, line.readListed?_text]

theorem isComment_of_mem_comments {code : Bytecode} {line : String}
    (listed : line ∈ code.comments) : isComment line = true := by
  obtain ⟨line, -, rfl⟩ := List.mem_map.mp listed
  rw [isComment, String.toList_append]
  rfl

theorem feedLines_annotatedDeclaration (code : Bytecode) :
    Text.feedLines code.annotatedDeclaration = code.comments ++ code.declarationLines := by
  have joined : code.annotatedDeclaration =
      "\n".intercalate (code.comments ++ code.declarationLines) := by
    rw [annotatedDeclaration, feedLines_listing, List.map_map, declaration]
    exact Text.intercalate_append_singleton _ _ (by simp [declarationLines])
  have single : ∀ line ∈ code.comments, Text.SingleLine line := by
    have mark : Text.SingleLine "// " := by decide
    exact List.forall_mem_map.mpr fun line _ => mark.append line.singleLine_text.2
  rw [joined]
  exact Text.feedLines_intercalate
    (List.forall_mem_append.mpr ⟨single, code.singleLine_declarationLines⟩)

theorem exists_declarationLines (code : Bytecode) : ∃ array,
    code.declarationLines = [declarationHeader, array] ∧ isComment array = false := by
  refine ⟨_, rfl, ?_⟩
  rw [isComment, String.toList_append, String.toList_append]
  rfl

/-- The bytes stand in the only brackets of a declaration and are read as the bytes of the buffer.
Above the two lines of the declaration stands a comment for each disassembled line, read as its
offset and its statement; what is no comment is the line with the bytes. -/
theorem declaration_read_back (code : Bytecode) :
    (∃ bytes, (∀ inner, Between "([ " " ])" code.declaration inner ↔ inner = bytes) ∧
      readBytes? bytes = some code.toList) ∧
    ∃ comments header array, Text.feedLines code.declaration = [header, array] ∧
      Text.feedLines code.annotatedDeclaration = comments ++ [header, array] ∧
      comments.map readListed? =
        code.disassemble.map (fun line => some (line.offset, line.statement)) ∧
      (Text.feedLines code.annotatedDeclaration).filter (!isComment ·) = [array] := by
  refine ⟨⟨_, code.between_declaration_iff, code.readBytes?_byteLiterals⟩, ?_⟩
  obtain ⟨array, lines, bytes⟩ := code.exists_declarationLines
  refine ⟨code.comments, declarationHeader, array, ?_, ?_, code.map_readListed?_comments, ?_⟩
  · rw [feedLines_declaration, lines]
  · rw [feedLines_annotatedDeclaration, lines]
  · have noArray : code.comments.filter (fun line => !isComment line) = [] := by
      rw [List.filter_eq_nil_iff]
      intro line listed
      simp [isComment_of_mem_comments listed]
    have header : isComment declarationHeader = true := by decide
    rw [feedLines_annotatedDeclaration, lines, List.filter_append, noArray]
    simp [header, bytes]

end Bytecode

end Sequencer
