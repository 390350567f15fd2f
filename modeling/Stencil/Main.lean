import Stencil.CommandLine.Run

/-!
# The program

Files and standard input are read, and the output, the warnings and the failure are
written where they belong.
-/

namespace Stencil.CommandLine

/-- Bytes as text. -/
def textOfBytes (bytes : ByteArray) : Except ReadError String :=
  match String.fromUTF8? bytes with
  | some text => .ok text
  | none => .error .notText

/-- An error of the system. -/
def readErrorOf : IO.Error → ReadError
  | .noFileOrDirectory .. => .missing
  | error => .other (toString error)

/-- The files of the disk, and standard input. -/
def diskEnvironment : Environment IO where
  fileText := fun path => do
    try return textOfBytes (← IO.FS.readBinFile path)
    catch error => return .error (readErrorOf error)
  inputText := do
    try return textOfBytes (← (← IO.getStdin).readBinToEnd)
    catch error => return .error (readErrorOf error)

/-- A warning as a line. -/
def warningLine (warning : Warning) : String :=
  "warning: " ++ warning.kind.name ++ ": " ++ warning.message ++ "\n"

end Stencil.CommandLine

open Stencil CommandLine

/-- Run the program: warnings and failures go to the error stream. -/
def main (arguments : List String) : IO UInt32 := do
  let exit ← CommandLine.execute diskEnvironment arguments
  let errors ← IO.getStderr
  exit.warnings.forM fun warning => errors.putStr (warningLine warning)
  match exit.failure with
  | some failure => errors.putStr (failure.headline ++ failure.detail ++ "\n")
  | none => if exit.code = 2 then errors.putStr misuseText
  (← IO.getStdout).putStr exit.output
  return exit.code
