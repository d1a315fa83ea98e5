import LiveHls.CommandLine.Program
import Std.Time.DateTime.Timestamp

/-!
# The executable

The program run on the machine's own files, clock and terminal.
-/

namespace LiveHls.CommandLine

def attempt {α : Type} (fallback : α) (action : IO α) : IO α :=
  try action catch _ => return fallback

def machineStorage : Storage IO where
  pathExists path := attempt false do
    let _ ← IO.FS.Handle.mk path .read
    return true
  readText path := attempt none do return some (← IO.FS.readFile path)
  makeDirectory path := attempt false do
    IO.FS.createDirAll path
    return true
  writeFile path content := attempt false do
    match content with
    | .text value => IO.FS.writeFile path value
    | .data value => IO.FS.writeBinFile path ⟨value.toArray⟩
    return true

def machineTime : IO Instant := do
  let nanos : Int := (← Std.Time.Timestamp.now).toNanosecondsSinceUnixEpoch.val
  return ⟨nanos / nanosPerSecond, (nanos % nanosPerSecond).toNat⟩

/-- The machine as the program's surroundings. -/
def machine (home : String) : Environment IO where
  storage := machineStorage
  now := machineTime
  pause := IO.sleep 1000
  home := home

def report (o : Outcome) : IO UInt32 := do
  IO.print o.stdout
  if let some e := o.error then IO.eprintln ("Error: " ++ e)
  if o.code = 2 then IO.eprintln "Usage: llhls [OPTIONS] <COMMAND>"
  return UInt32.ofNat o.code

end LiveHls.CommandLine

def main (args : List String) : IO UInt32 := do
  let home := (← IO.getEnv "HOME").getD ""
  LiveHls.CommandLine.report (← LiveHls.CommandLine.run (LiveHls.CommandLine.machine home) args)
