import RadioCentral.Command.Reply

/-!
The program as it is run: it reads the command line and the settings file and shows the answer.
-/
namespace RadioCentral

def fileText? (path : String) : IO (Option String) := do
  match ← (IO.FS.readFile path).toBaseIO with
  | .ok text => return some text
  | .error _ => return none

end RadioCentral

open RadioCentral in
def main (args : List String) : IO UInt32 := do
  let reply ← match CommandLine.read args with
    | .error e => pure (Reply.ofUsage e)
    | .ok line => do
      let file ← match line.config with
        | some path => fileText? path
        | none => pure none
      pure (Reply.ofLine line file (Int32.ofNat (← IO.rand 0 4294967295)))
  IO.print reply.output
  if let some complaint := reply.complaint then IO.eprintln complaint
  return UInt32.ofNat reply.exit
