/-
TraceFlow.Command.Run — what a command line does.

* A linear run lists the logs line by line; it does nothing else.
* Any other run builds the function maps of all logs and reports them. Only
  if all logs could be read does it go on, to write the files that are
  asked for and to compare the first two logs.
* With several logs, the files of each go into a directory named for it.
-/
import TraceFlow.Command.Arguments
import TraceFlow.Command.Complaint
import TraceFlow.Comparison
import TraceFlow.Listing
import TraceFlow.Sheet.File
import TraceFlow.TraceFile

namespace TraceFlow.Command

variable {m : Type → Type} [Monad m] [Host m]

/-! ## Listing logs -/

def listLog (o : Listing.Options) (log : String) : ExceptT Complaint m Unit := do
  match ← liftM (Host.read log : m Reading) with
  | .closed e => throw ⟨"opening " ++ log, [e.text]⟩
  | .unreadable e => throw (.during ("reading " ++ log) (.file e))
  | .bytes bytes =>
    let (listing, complete) := Listing.follow o bytes
    liftM (Host.print (Listing.printed listing.written.toList) : m Unit)
    if complete then
      let count := Nat.repr listing.count
      liftM (Host.note ⟨.debug, log ++ ": " ++ count ++ " distinct chunks"⟩ : m Unit)
    else throw (.during ("reading " ++ log) (.file .notText))

/-- Lists several logs, up to the first that cannot be read. -/
def listLogs (o : Listing.Options) : List String → ExceptT Complaint m Unit
  | [] => return
  | log :: logs => do
    listLog o log
    listLogs o logs

/-! ## Reporting function maps -/

def functionsText (log : String) (map : FunctionMap) : String :=
  "Found " ++ Nat.repr map.functions.size ++ " functions in " ++ log ++ ":\n" ++
    String.join (map.functions.keys.map fun name => " - " ++ name ++ "\n")

def anomalyNotes (log : String) (map : FunctionMap) : List Note :=
  (map.diagnostics.map fun d => ⟨.debug, log ++ ": " ++ d.text⟩) ++
    if map.tally.returnMisses = 0 then []
    else
      [⟨.info, log ++ ": " ++ Nat.repr map.tally.returnMisses ++
        " returns without a matching call"⟩]

/-- Reports what came of each log; gives the maps that were built. -/
def report : List (String × Except Failure FunctionMap) → m (List (String × FunctionMap))
  | [] => return []
  | (log, .ok map) :: rest => do
    Host.print (functionsText log map)
    Host.noteAll (anomalyNotes log map)
    return (log, map) :: (← report rest)
  | (log, .error e) :: rest => do
    Host.note ⟨.error, log ++ ": " ++ e.text⟩
    report rest

/-! ## Writing files -/

/-- The directory for the files of a log, one of `count`. -/
def logDir (dir log : String) (count : Nat) : String :=
  if count = 1 then dir else Path.join dir ((Path.fileStem? log).getD log)

def forms : List (Flag × Format) :=
  [(.text, .text), (.dot, .dot), (.json, .json), (.csv, .csv)]

def noteWritten (count : Nat) (kind dir : String) : m Unit :=
  Host.note ⟨.info, "Wrote " ++ Nat.repr count ++ " " ++ kind ++ " files to " ++ dir⟩

def writeForms (map : FunctionMap) (dir : String) : List Format → m (Except Failure Unit)
  | [] => return .ok ()
  | form :: rest => do
    match ← Sheet.File.write map form dir with
    | .error e => return .error e
    | .ok files =>
      noteWritten files.length form.name dir
      writeForms map dir rest

/-- Has functions laid out, and writes what comes of it. -/
def writeLayouts (map : FunctionMap) (dir : String) :
    List (String × BlockId) → ExceptT Complaint m Unit
  | [] => return
  | (function, entry) :: rest => do
    match ← liftM (Host.drawn (map.sheet .dot function entry) : m (Except Failure String)) with
    | .error e => throw ⟨e.text, e.chain.drop 1⟩
    | .ok drawing =>
      let file := Sheet.File.path dir function "svg"
      match ← liftM (Host.write file (Utf8.encode drawing) : m (Except FileError Unit)) with
      | .error e => throw ⟨"writing " ++ file, [e.text]⟩
      | .ok _ => writeLayouts map dir rest

def writeFiles (a : Arguments) (map : FunctionMap) (dir : String) : ExceptT Complaint m Unit := do
  match ← liftM (Host.makeDirectories dir : m (Except FileError Unit)) with
  | .error e => throw ⟨"creating " ++ dir, [e.text]⟩
  | .ok _ => pure ()
  let wanted := (forms.filter fun e => a.has e.1).map (·.2)
  match ← liftM (writeForms map dir wanted : m (Except Failure Unit)) with
  | .error e => throw ⟨e.text, e.chain.drop 1⟩
  | .ok _ => pure ()
  if a.has .svg then
    writeLayouts map dir map.functions.entries
    liftM (noteWritten map.functions.size "svg" dir : m Unit)

def writeAll (a : Arguments) (dir : String) (count : Nat) :
    List (String × FunctionMap) → ExceptT Complaint m Unit
  | [] => return
  | (log, map) :: rest => do
    tryCatch (writeFiles a map (logDir dir log count)) fun c =>
      throw (c.behind ("writing functions of " ++ log))
    writeAll a dir count rest

/-! ## Runs -/

/-- The directory that files are written to, if any are asked for. -/
def outputDir? (a : Arguments) : ExceptT Complaint m (Option String) := do
  if a.writesFiles then
    match a.outputDir with
    | none => throw ⟨"--dot, --svg, --text, --json and --csv require --output-dir", []⟩
    | some dir =>
      if ← liftM (Host.isDirectory dir : m Bool) then return some dir
      else throw ⟨"output directory `" ++ dir ++ "` does not exist", []⟩
  else return none

/-- Compares two maps; says whether nothing differs. -/
def compareMaps (left right : FunctionMap) : m Bool := do
  Host.noteAll (left.compareNotes right)
  Host.print ((left.compare right).text ++ "\n")
  return (left.compare right).isIdentical

/-- Builds, reports, writes and compares; says whether nothing differs. -/
def runMaps (a : Arguments) : ExceptT Complaint m Bool := do
  let dir? ← outputDir? a
  if a.has .compare ∧ a.logs.length < 2 then throw ⟨"--cmp needs two logs", []⟩
  let built ← liftM (TraceFile.buildAll a.cpuOrFirst (a.has .archive) a.logs :
    m (List (String × Except Failure FunctionMap)))
  let maps ← liftM (report built : m (List (String × FunctionMap)))
  if maps.length < a.logs.length then
    throw ⟨Nat.repr (a.logs.length - maps.length) ++ " of " ++ Nat.repr a.logs.length ++
      " logs could not be processed", []⟩
  match dir? with
  | some dir => writeAll a dir maps.length maps
  | none => pure ()
  match a.has .compare, maps with
  | true, (_, left) :: (_, right) :: _ => liftM (compareMaps left right : m Bool)
  | _, _ => return true

/-- Does what a command line asks for; says whether nothing differs. -/
def run (a : Arguments) : ExceptT Complaint m Bool := do
  if a.has .linear then
    listLogs ⟨a.has .keepLines, a.maxChunks⟩ a.logs
    return true
  else runMaps a

end TraceFlow.Command
