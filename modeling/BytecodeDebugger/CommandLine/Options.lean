import BytecodeDebugger.Text.Number

/-!
# Options of the command line

What a command line asks for: an image, the routine to call with its arguments, and whether to list
or to debug the program instead of running it.
-/

namespace BytecodeDebugger.CommandLine

/-- What the command line asks for. -/
structure Options where
  /-- The path of the image. -/
  image : String
  /-- The arguments of the routine called. -/
  args : Array Int32 := #[]
  /-- The name of the routine called. -/
  entry : String := "main"
  /-- Whether the interactive console controls the call. -/
  debug : Bool := false
  /-- Whether the listing of the program is shown instead. -/
  listing : Bool := false
  deriving DecidableEq

namespace Options

/-- The form of a command line. -/
def usage : String :=
  "usage: IMAGE [ARGS]... [-e|--entry NAME] [-d|--debug] [-l|--listing]"

/-- Reads arguments into options, with the image among them if it was seen before. -/
def ofWords (image : Option String) (options : Options) : List String → Except String Options
  | [] => if image.isSome then .ok options else .error usage
  | "-e" :: name :: rest => ofWords image { options with entry := name } rest
  | "--entry" :: name :: rest => ofWords image { options with entry := name } rest
  | "-d" :: rest => ofWords image { options with debug := true } rest
  | "--debug" :: rest => ofWords image { options with debug := true } rest
  | "-l" :: rest => ofWords image { options with listing := true } rest
  | "--listing" :: rest => ofWords image { options with listing := true } rest
  | word :: rest =>
    if word.startsWith "--entry=" then
      ofWords image { options with entry := (word.drop 8).toString } rest
    else if image.isNone then
      ofWords (some word) { options with image := word } rest
    else
      match Text.readInt32 word with
      | .ok value => ofWords image { options with args := options.args.push value } rest
      | .error error => .error s!"invalid argument {word}: {error.message}"

/-- Reads the arguments of a command line. -/
def ofArguments (arguments : List String) : Except String Options :=
  ofWords none { image := "" } arguments

end Options

end BytecodeDebugger.CommandLine
