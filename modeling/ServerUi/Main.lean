import ServerUi.Cli.Program

/-! # The command line of this machine

Files are read from the disk, lines go to the standard output and errors to the standard error.  No
connection leads out of this program, so every request fails at once.
-/

namespace ServerUi.Cli

/-- The bytes of a file, or why they cannot be had. -/
def bytesOnDisk (path : String) : IO (Except String (List UInt8)) := do
  try
    let bytes ← IO.FS.readBinFile path
    pure (.ok bytes.toList)
  catch e => pure (.error (toString e))

def thisMachine : Host IO where
  bytesAt := bytesOnDisk
  printLine s := do
    let out ← IO.getStdout
    out.putStrLn s
    out.flush
  send _ := pure (.error (.request "no connection"))
  pause milliseconds := IO.sleep (UInt32.ofNat milliseconds)

/-- The place of the usual settings file: under the directory for settings if that is named by a
path from the root, else under the home directory. -/
def usualPlace : IO (Option String) := do
  let named ← IO.getEnv "XDG_CONFIG_HOME"
  let home ← IO.getEnv "HOME"
  let directory := (named.filter (·.startsWith "/")).or (home.map (· ++ "/.config"))
  pure (directory.map (· ++ "/crayon/config.toml"))

/-- Is there a file at the path? -/
def isOnDisk (path : String) : IO Bool := do
  try
    let _ ← IO.FS.Handle.mk path .read
    pure true
  catch
    | .noFileOrDirectory .. => pure false
    | _ => pure true

/-- The usual settings file, if it is there. -/
def usualFile : IO (Option String) := do
  match ← usualPlace with
  | none => pure none
  | some path => if ← isOnDisk path then pure (some path) else pure none

/-- Tells the user how the program ended, unless all went well. -/
def tell : Ending → IO Unit
  | .failed f => do
    IO.eprintln s!"Error: {f.text}"
    match f.cause with
    | none => pure ()
    | some cause => IO.eprintln s!"\nCaused by:\n    {cause}"
  | .refused .help => pure ()
  | .refused .version => pure ()
  | .refused _ => IO.eprintln usageText
  | .done => pure ()

end ServerUi.Cli

def main (args : List String) : IO UInt32 := do
  let ending ← ServerUi.Cli.run ServerUi.Cli.thisMachine (← ServerUi.Cli.usualFile) args
  ServerUi.Cli.tell ending
  pure (UInt32.ofNat ending.status)
