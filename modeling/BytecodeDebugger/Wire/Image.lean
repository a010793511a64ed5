import BytecodeDebugger.Program.Basic
import BytecodeDebugger.Wire.Varint

/-!
# Program images

The form in which a program is stored: the version of the format, then the tables of the program in
the order of its fields. Breakpoints are not part of an image, the code is written as it was before
they displaced anything.

## Implementation notes

The version is compared after the whole program was read, and only in its first two numbers. Bytes
behind the program are ignored.
-/

namespace BytecodeDebugger.Wire

/-- The version of a format. -/
structure Version where
  major : UInt16
  minor : UInt16
  patch : UInt16
  deriving DecidableEq

namespace Version

/-- The version this library reads and writes. -/
def current : Version :=
  ⟨0, 1, 0⟩

/-- A version as `[major, minor, patch]`. -/
def text (v : Version) : String :=
  s!"[{v.major}, {v.minor}, {v.patch}]"

/-- Whether images of both versions have the same format. -/
def Compatible (v w : Version) : Prop :=
  v.major = w.major ∧ v.minor = w.minor

instance (v w : Version) : Decidable (Compatible v w) :=
  inferInstanceAs (Decidable (_ ∧ _))

end Version

namespace Format

/-- Texts, with their length as a count. -/
def string : Format String :=
  text count

/-- Lists, with their length as a count. -/
def array {α : Type} (f : Format α) : Format (List α) :=
  list count f

/-- The three numbers of a version. -/
def version : Format Version :=
  (word16.seq (word16.seq word16)).via (fun (a, b, c) => ⟨a, b, c⟩)
    (fun v => (v.major, v.minor, v.patch))

/-- The number of an opcode. -/
def opcode : Format Opcode :=
  (varint ⟨32⟩).narrow Opcode.ofNumber? Opcode.number .unknownVariant

/-- An opcode and its operands. -/
def instruction : Format Instruction :=
  (opcode.seq (signed32.seq signed32)).via (fun (op, immediate, size) => ⟨op, immediate, size⟩)
    (fun i => (i.op, i.immediate, i.size))

/-- The instructions of a routine as they were written. -/
def code : Format Code :=
  (array instruction).via (fun instructions => Code.ofInstructions instructions.toArray)
    (fun c => c.instructions.toList)

/-- A line and a column. -/
def position : Format Position :=
  (word32.seq word32).via (fun (line, column) => ⟨line, column⟩) (fun p => (p.line, p.column))

/-- A file name and two positions. -/
def sourceSpan : Format SourceSpan :=
  (string.seq (position.seq position)).via (fun (file, start, stop) => ⟨file, start, stop⟩)
    (fun s => (s.file, s.start, s.stop))

/-- The code, the spans and the number of arguments of a routine. -/
def routine : Format Routine :=
  (code.seq ((sortedMap count count sourceSpan).seq count)).via
    (fun (code, spans, argCount) => ⟨code, spans, argCount⟩)
    (fun r => (r.code, r.spans, r.argCount))

/-- The tables of a program. -/
def program : Format Program :=
  ((array routine).seq ((array string).seq ((sortedMap count string count).seq
    ((sortedMap count string signed32).seq (array string))))).via
    (fun (routines, undefinedNames, exports, enumValues, strings) =>
      ⟨routines.toArray, undefinedNames, exports, enumValues, strings⟩)
    (fun p => (p.routines.toList, p.undefinedNames, p.exports, p.enumValues, p.strings))

/-- A version and the program written in it. -/
def image : Format (Version × Program) :=
  version.seq program

end Format

/-- Why bytes are not the image of a program. -/
inductive ImageError where
  /-- The bytes could not be decoded. -/
  | malformed (cause : DecodeError)
  /-- The image has a format of another version. -/
  | versionMismatch (found : Version)
  deriving DecidableEq

namespace ImageError

/-- The wording of an image error. -/
def message : ImageError → String
  | .malformed cause => s!"Could not decode module: {cause.message}"
  | .versionMismatch found =>
    s!"Module was built by version {found.text}, expected {Version.current.text}"

end ImageError

/-- The image of a program. -/
def encode (p : Program) : List UInt8 :=
  Format.image.write (Version.current, p)

/-- The program of an image. -/
def decode (bytes : List UInt8) : Except ImageError Program :=
  match Format.image.read bytes with
  | .error cause => .error (.malformed cause)
  | .ok ((found, program), _) =>
    if found.Compatible Version.current then .ok program else .error (.versionMismatch found)

end BytecodeDebugger.Wire
