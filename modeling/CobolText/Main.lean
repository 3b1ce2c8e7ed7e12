import CobolText.CommandLine.Execute
import Std.Time.Format

/-!
# The program

The command line on the files, the clock and the console of the machine.
-/

namespace CobolText.Program

/-- Why the machine could not read or write a file. -/
def readFailure : IO.Error → ReadFailure
  | .noFileOrDirectory _ _ _ => .missing
  | .inappropriateType _ _ _ => .notDirectory
  | _ => .missing

/-- Why the machine could not make a directory. -/
def makeFailure : IO.Error → MakeFailure
  | .alreadyExists _ _ _ => .alreadyThere
  | .inappropriateType _ _ _ => .notDirectory
  | _ => .missing

/-- The files of the machine. -/
def machineFiles : IO (FileStore IO) := do
  let dir ← IO.currentDir
  return {
    workDir := Path.ofString dir.toString
    isFile := fun p => do
      let place := dir / p.render
      return (← place.pathExists) && !(← place.isDir)
    isDirectory := fun p => do return ← (dir / p.render).isDir
    read := fun p => do
      let place := dir / p.render
      if ← place.isDir then return .error .isDirectory
      try return .ok (← IO.FS.readBinFile place).toList
      catch e => return .error (readFailure e)
    makeDirectory := fun p => do
      try
        IO.FS.createDir (dir / p.render)
        return .ok ()
      catch e => return .error (makeFailure e)
    write := fun p bytes => do
      let place := dir / p.render
      if ← place.isDir then return .error .isDirectory
      try
        IO.FS.writeBinFile place ⟨bytes.toArray⟩
        return .ok ()
      catch e => return .error (readFailure e) }

/-- A time in nanoseconds as seconds with four decimals. -/
def secondsText (nanos : Nat) : String :=
  let units := nanos / 100000
  let decimals := toString (units % 10000)
  toString (units / 10000) ++ "." ++ "".pushn '0' (4 - decimals.length) ++ decimals

/-- The clock of the machine, started now. -/
def machineClock : IO (CommandLine.Clock IO) := do
  let start ← IO.monoNanosNow
  return {
    now := do return (← Std.Time.PlainDateTime.now).format "uuuu-MM-dd'T'HH:mm:ss.SSSSSS"
    elapsed := do return secondsText ((← IO.monoNanosNow) - start) }

/-- Shows an event: printed text on standard output, messages on standard error. -/
def showEvent : CommandLine.Event → IO Unit
  | .printed text => IO.print text
  | .logged level message => IO.eprintln (level.name ++ " - " ++ message)

end CobolText.Program

open CobolText CobolText.Program in
/-- Runs the command line and ends with its exit code. -/
def main (args : List String) : IO UInt32 := do
  let transcript ← CommandLine.execute (← machineFiles) (← machineClock) args
  transcript.events.forM showEvent
  match transcript.ending with
  | .ok code =>
    if code == CommandLine.misuseCode then IO.eprint CommandLine.helpText
    return code.toUInt32
  | .error fault =>
    IO.eprintln fault.message
    return 1
