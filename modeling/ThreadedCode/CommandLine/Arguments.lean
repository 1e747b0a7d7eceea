import ThreadedCode.Compiler.State
import ThreadedCode.Text.Digits

/-!
# Command-line arguments

Arguments are first told apart by their form: options, plain arguments, and the separator after
which every argument is plain. Then they are taken in turn. A long option may be shortened as long
as only one option begins that way, short options may be written together, and an option's value is
either attached to it or the next argument.
-/

namespace ThreadedCode.CommandLine

inductive Switch where
  | help
  | outfile
  | binary
  | listing
  | order
  | strict
  | verbose
  | debug
  deriving DecidableEq

namespace Switch

def all : List Switch :=
  [.help, .outfile, .binary, .listing, .order, .strict, .verbose, .debug]

def spellings : Switch → List String
  | .help => ["-h", "--help"]
  | .outfile => ["-o", "--outfile"]
  | .binary => ["--binary"]
  | .listing => ["--listing"]
  | .order => ["--order"]
  | .strict => ["--strict"]
  | .verbose => ["-v", "--verbose"]
  | .debug => ["--debug"]

def takesValue : Switch → Bool
  | .outfile | .binary | .order => true
  | _ => false

def table : List (String × Switch) :=
  all.flatMap fun switch => switch.spellings.map fun spelling => (spelling, switch)

def ofSpelling? (spelling : String) : Option Switch :=
  table.lookup spelling

def name (switch : Switch) : String :=
  "/".intercalate switch.spellings

end Switch

inductive Argument where
  | plain (text : String)
  /-- The mark after which every argument is plain. -/
  | separator
  | option (switch : Switch) (spelling : String) (attached : Option (List Char))
  | unknownOption (text : String)
  deriving DecidableEq

namespace Argument

def text : Argument → String
  | .plain text => text
  | .separator => "--"
  | .option _ spelling _ => spelling
  | .unknownOption text => text

def splitEquals (text : List Char) : List Char × Option (List Char) :=
  match text.span (· ≠ '=') with
  | (before, _ :: after) => (before, some after)
  | (before, []) => (before, none)

def startsWith (text beginning : List Char) : Bool :=
  beginning.isPrefixOf text

/-- The long options that begin like an argument, which has two dashes. -/
def longMatches (text : List Char) : List Argument :=
  let (beginning, attached) := splitEquals text
  (Switch.table.filter fun (spelling, _) => startsWith spelling.toList beginning).map
    fun (spelling, switch) => .option switch spelling attached

/-- The options that an argument with one dash may mean: the short option at its front with the rest
attached to it, or one that begins with all of it. -/
def shortMatches (text : List Char) : List Argument :=
  Switch.table.filterMap fun (spelling, switch) =>
    if spelling.toList = text.take 2 then
      some (.option switch spelling (some (text.drop 2)))
    else if startsWith spelling.toList text then some (.option switch spelling none)
    else none

/-- Whether an argument reads as a negative number, up to one newline at its end. -/
def isNegativeNumber (text : List Char) : Bool :=
  match Text.chopNewline text with
  | '-' :: rest =>
    let digits := rest.dropWhile Text.isDecimalDigit
    match digits with
    | [] => !rest.isEmpty
    | '.' :: fraction => !fraction.isEmpty && fraction.all Text.isDecimalDigit
    | _ => false
  | _ => false

/-- The form of an argument with a dash that no option spells in full. -/
def ofInexact (text : List Char) : Except String Argument :=
  let found := match text with
    | '-' :: '-' :: _ => longMatches text
    | _ => shortMatches text
  match found with
  | [argument] => .ok argument
  | [] =>
    if isNegativeNumber text || text.contains ' ' then .ok (.plain (String.ofList text))
    else .ok (.unknownOption (String.ofList text))
  | several =>
    .error ("ambiguous option: " ++ String.ofList text ++ " could match " ++
      ", ".intercalate (several.map Argument.text))

/-- The form of an argument before the separator, or a message if it is ambiguous. -/
def classify (argument : String) : Except String Argument :=
  match argument.toList with
  | '-' :: c :: rest =>
    match Switch.ofSpelling? argument with
    | some switch => .ok (.option switch argument none)
    | none =>
      let (front, attached) := splitEquals ('-' :: c :: rest)
      match attached, Switch.ofSpelling? (String.ofList front) with
      | some text, some switch => .ok (.option switch (String.ofList front) (some text))
      | _, _ => ofInexact ('-' :: c :: rest)
  | _ => .ok (.plain argument)

def classifyAll : List String → Except String (List Argument)
  | [] => .ok []
  | argument :: rest =>
    if argument = "--" then .ok (.separator :: rest.map .plain)
    else do
      let form ← classify argument
      let forms ← classifyAll rest
      return form :: forms

end Argument

/-! ### Taking the arguments in turn -/

/-- The value of an option. The separator cannot be one: an option that it is attached to is given,
but with an empty value. -/
inductive Value where
  | text (text : String)
  | empty
  deriving DecidableEq

def Value.ofText (text : String) : Value :=
  if text = "--" then .empty else .text text

structure Options where
  source : Option String := none
  outfile : Option Value := none
  binary : Option Value := none
  listing : Bool := false
  /-- The order of resolution, unless its value is empty. -/
  order : Option Order := some .shadowing
  strict : Bool := false
  verbose : Bool := false
  debug : Bool := false
  deriving DecidableEq

inductive Request where
  | help
  | refused (message : String)
  | run (source : String) (options : Options)
  deriving DecidableEq

def complaint (switch : Switch) (text : String) : String :=
  "argument " ++ switch.name ++ ": " ++ text

def ignoredValue (switch : Switch) (value : List Char) : String :=
  complaint switch ("ignored explicit argument " ++ Text.quoted (String.ofList value))

abbrev Setting : Type := Switch × Option Value

/-- The setting of an option that nothing is attached to, and the arguments left after it. Its value
is the next argument, which has to be plain. -/
def expandBare (switch : Switch) (rest : List Argument) :
    Except String (List Setting × List Argument) :=
  if switch.takesValue then
    match rest with
    | .plain text :: rest => .ok ([(switch, some (.ofText text))], rest)
    | _ => .error (complaint switch "expected one argument")
  else .ok ([(switch, none)], rest)

/-- The settings of a short option with a text attached to it, and the arguments left after it. The
text is the option's value if it takes one, and else further short options, none of which is carried
out if one of them is unknown. -/
def expandShort (switch : Switch) (rest : List Argument) :
    List Char → Except String (List Setting × List Argument)
  | [] =>
    if switch.takesValue then .ok ([(switch, some (.text ""))], rest)
    else .error (ignoredValue switch [])
  | c :: text =>
    if switch.takesValue then .ok ([(switch, some (.ofText (String.ofList (c :: text))))], rest)
    else
      match Switch.ofSpelling? (String.ofList ['-', c]) with
      | none => .error (ignoredValue switch (c :: text))
      | some next => do
        let (settings, rest) ←
          if text.isEmpty then expandBare next rest else expandShort next rest text
        return ((switch, none) :: settings, rest)

/-- The settings of an option and those of the short options written together with it, and the
arguments left after it. A long option has nothing written together with it but its value. -/
def expand (switch : Switch) (spelling : String) (attached : Option (List Char))
    (rest : List Argument) : Except String (List Setting × List Argument) :=
  match attached with
  | none => expandBare switch rest
  | some text =>
    if Argument.startsWith spelling.toList ['-', '-'] && !switch.takesValue then
      .error (ignoredValue switch text)
    else expandShort switch rest text

/-- The order that a value names, or a message. An empty value names none and is let pass. -/
def chooseOrder (value : Value) : Except String (Option Order) :=
  match value with
  | .empty => .ok none
  | .text text =>
    match Order.ofLabel? text with
    | some order => .ok (some order)
    | none =>
      .error (complaint .order ("invalid choice: " ++ Text.quoted text ++ " (choose from " ++
        ", ".intercalate (Order.all.map fun order => Text.quoted order.label) ++ ")"))

/-- Carries out settings in order; the request for help, or a wrong value, ends it. -/
def Options.set (options : Options) : List Setting → Except Request Options
  | [] => .ok options
  | (switch, value) :: rest =>
    match switch with
    | .help => .error .help
    | .outfile => { options with outfile := value }.set rest
    | .binary => { options with binary := value }.set rest
    | .listing => { options with listing := true }.set rest
    | .strict => { options with strict := true }.set rest
    | .verbose => { options with verbose := true }.set rest
    | .debug => { options with debug := true }.set rest
    | .order =>
      match chooseOrder (value.getD .empty) with
      | .ok order => { options with order }.set rest
      | .error message => .error (.refused message)

/-- The request of a command line when all arguments are taken. -/
def conclude (options : Options) (extras : Array String) : Request :=
  match options.source with
  | none => .refused "the following arguments are required: FILE"
  | some source =>
    if extras.isEmpty then .run source options
    else .refused ("unrecognized arguments: " ++ " ".intercalate extras.toList)

/-- Takes arguments in turn; `extras` are those that nothing explains. The file is the first plain
argument that is no option's value, and a separator beside it is passed over. Every step takes an
argument, so their number is enough fuel. -/
def takeFrom (options : Options) (extras : Array String) (arguments : List Argument) :
    Nat → Request
  | 0 => conclude options extras
  | fuel + 1 =>
    match arguments with
    | [] => conclude options extras
    | .unknownOption text :: rest => takeFrom options (extras.push text) rest fuel
    | .option switch spelling attached :: rest =>
      match expand switch spelling attached rest with
      | .error message => .refused message
      | .ok (settings, rest) =>
        match options.set settings with
        | .error request => request
        | .ok options => takeFrom options extras rest fuel
    | .plain text :: rest =>
      match options.source, rest with
      | some _, _ => takeFrom options (extras.push text) rest fuel
      | none, .separator :: rest => takeFrom { options with source := some text } extras rest fuel
      | none, rest => takeFrom { options with source := some text } extras rest fuel
    | .separator :: rest =>
      match options.source, rest with
      | none, .plain text :: rest => takeFrom { options with source := some text } extras rest fuel
      | _, rest => takeFrom options (extras.push "--") rest fuel

def parse (arguments : List String) : Request :=
  match Argument.classifyAll arguments with
  | .error message => .refused message
  | .ok forms => takeFrom {} #[] forms forms.length

end ThreadedCode.CommandLine
