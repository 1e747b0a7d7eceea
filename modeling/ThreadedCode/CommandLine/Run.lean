import ThreadedCode.Build
import ThreadedCode.CommandLine.Arguments

/-!
# Running the command

`run` does all that a command line asks for, on any disk. What it prints is part of its result.
-/

namespace ThreadedCode.CommandLine

def usage : String :=
  "usage: dictc [options] FILE\n\n" ++
    "Compiles a threaded-code dictionary source into interpreter tables.\n"

def helpText : String :=
  usage ++ "\n" ++
    "positional arguments:\n" ++
    "  FILE                  dictionary source file path\n" ++
    "\n" ++
    "options:\n" ++
    "  -h, --help            show this help message and exit\n" ++
    "  -o FILE, --outfile FILE\n" ++
    "                        write the generated interpreter source to FILE\n" ++
    "  --binary FILE         write the dictionary tables in binary form to FILE\n" ++
    "  --listing             print a disassembly of the compiled words\n" ++
    "  --order \x7bshadowing,first-match\x7d\n" ++
    "                        name resolution order when a name is declared twice\n" ++
    "  --strict              exit with an error status if any diagnostic was\n" ++
    "                        reported\n" ++
    "  -v, --verbose         print status messages\n" ++
    "  --debug               print debug messages\n"

inductive Escape where
  | build (error : Build.Error)
  /-- The value that should be the path of a file is empty. -/
  | emptyPath
  /-- The value that should name an order is empty. -/
  | emptyOrder
  deriving DecidableEq

inductive Outcome where
  | finished (status : Nat)
  /-- Its arguments made it stop at once with a status. -/
  | stopped (status : Nat)
  /-- An error ended it that it does not handle. -/
  | escaped (reason : Escape)
  deriving DecidableEq

structure Response where
  output : String := ""
  errors : String := ""
  outcome : Outcome

inductive Level where
  | debug
  | info
  | warning
  deriving DecidableEq

def Level.label : Level → String
  | .debug => "DEBUG"
  | .info => "INFO"
  | .warning => "WARNING"

def Options.shows (options : Options) : Level → Bool
  | .debug => options.debug
  | .info => options.debug || options.verbose
  | .warning => true

def Options.log (options : Options) (level : Level) (message : String) : String :=
  if options.shows level then level.label ++ ": " ++ message ++ "\n" else ""

def Options.logEvent (options : Options) : Event → String
  | .reported diagnostic => options.log .warning diagnostic.message
  | .compiled name index units =>
    options.log .debug ("compiled " ++ name ++ " as word " ++ Text.decimal index ++ " (" ++
      Text.decimal units ++ " units)")

def Options.logEvents (options : Options) (events : Array Event) : String :=
  String.join (events.toList.map options.logEvent)

structure Printed where
  output : String := ""
  errors : String := ""

def Printed.close (printed : Printed) (outcome : Outcome) : Response :=
  { output := printed.output, errors := printed.errors, outcome }

def Printed.complain (printed : Printed) (text : String) : Printed :=
  { printed with errors := printed.errors ++ text }

def writeOutfile {m : Type → Type} [Monad m] (disk : Disk m) (options : Options) (build : Build)
    (printed : Printed) : m (Except Escape Unit × Printed) := do
  match options.outfile with
  | none => return (.ok (), printed)
  | some .empty => return (.error .emptyPath, printed)
  | some (.text path) =>
    let report ← ({} : Settings).write disk build path
    match report.result with
    | .error reason => return (.error (.build reason), printed)
    | .ok () =>
      return (.ok (), printed.complain (options.log .info ("wrote \"" ++ path ++ "\"")))

/-- Saves the binary form if that is asked for. There has to be one before the path is looked at. -/
def writeBinary {m : Type → Type} [Monad m] (disk : Disk m) (options : Options) (build : Build)
    (printed : Printed) : m (Except Escape Unit × Printed) := do
  match options.binary with
  | none => return (.ok (), printed)
  | some .empty =>
    match build.compilation.table.encode with
    | .error reason => return (.error (.build (.encode reason)), printed)
    | .ok _ => return (.error .emptyPath, printed)
  | some (.text path) =>
    match ← build.save disk path with
    | .error reason => return (.error (.build reason), printed)
    | .ok () =>
      return (.ok (), printed.complain (options.log .info ("wrote \"" ++ path ++ "\"")))

def printListing (options : Options) (build : Build) (printed : Printed) :
    Except Table.ShapeError Printed :=
  if options.listing then
    build.compilation.table.listing.map fun text =>
      { printed with output := printed.output ++ text ++ "\n" }
  else .ok printed

def verdict (options : Options) (build : Build) (printed : Printed) : Response :=
  let count := build.compilation.diagnostics.size
  if count = 0 then printed.close (.finished 0)
  else
    (printed.complain ("dictc: " ++ Text.decimal count ++ " diagnostic(s)\n")).close
      (.finished (if options.strict then 2 else 0))

def deliver {m : Type → Type} [Monad m] (disk : Disk m) (options : Options) (build : Build)
    (printed : Printed) : m Response := do
  let table := build.compilation.table
  let printed := printed.complain (options.log .info
    ("compiled " ++ Text.decimal table.compiledCount ++ " words, " ++
      Text.decimal table.nativeCount ++ " native, " ++ Text.decimal table.variableNames.size ++
      " variables"))
  match ← writeOutfile disk options build printed with
  | (.error reason, printed) => return printed.close (.escaped reason)
  | (.ok (), printed) =>
    match ← writeBinary disk options build printed with
    | (.error reason, printed) => return printed.close (.escaped reason)
    | (.ok (), printed) =>
      match printListing options build printed with
      | .error reason => return printed.close (.escaped (.build (.render reason)))
      | .ok printed => return verdict options build printed

/-- Compiles a source file and delivers what is asked for. A file that cannot be read and a source
that cannot be compiled are reported; other errors escape. -/
def compileAndDeliver {m : Type → Type} [Monad m] (disk : Disk m) (options : Options)
    (order : Order) (source : String) : m Response := do
  let reading := options.log .info ("reading file \"" ++ source ++ "\"...")
  let report ← ({ order } : Settings).compileFile disk source
  let printed : Printed := { errors := reading ++ options.logEvents report.events }
  match report.result with
  | .ok build => deliver disk options build printed
  | .error (.file reason) =>
    return (printed.complain ("dictc: " ++ source ++ ": " ++ reason.text ++ "\n")).close
      (.finished 1)
  | .error (.compile (.fault diagnostic)) =>
    return (printed.complain ("dictc: " ++ diagnostic.message ++ "\n")).close (.finished 1)
  | .error reason => return printed.close (.escaped (.build reason))

/-- Does what a command line asks for, as it is understood by a parser. -/
def runWith {m : Type → Type} [Monad m] (parse : List String → Request) (disk : Disk m)
    (arguments : List String) : m Response :=
  match parse arguments with
  | .help => return { output := helpText, outcome := .stopped 0 }
  | .refused message =>
    return { errors := usage ++ "dictc: error: " ++ message ++ "\n", outcome := .stopped 2 }
  | .run source options =>
    match options.order with
    | none => return { outcome := .escaped .emptyOrder }
    | some order => compileAndDeliver disk options order source

def run {m : Type → Type} [Monad m] : Disk m → List String → m Response :=
  runWith parse

end ThreadedCode.CommandLine
