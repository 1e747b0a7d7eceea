import ThreadedCode.Text.Blank
import ThreadedCode.Text.Quoted
import ThreadedCode.Text.Decimal

/-!
# Tokens

A definition is a sequence of tokens separated by blanks. What a token is depends on its shape
alone: `classify` looks at keywords first, then at sigils, then at the two label forms, and takes
everything else for a word.
-/

namespace ThreadedCode

structure Flags where
  bits : Nat := 0
  deriving DecidableEq

namespace Flags

/-- The word runs at once, also while another word is compiled. -/
def immediate : Flags := ⟨1⟩

/-- The word is left out of name listings. -/
def hidden : Flags := ⟨2⟩

/-- The word may only be used inside definitions. -/
def compileOnly : Flags := ⟨4⟩

/-- The flags of a mask. A negative one keeps its low bits: three of them if its value fits those,
else as many as its magnitude has. -/
def ofMask : Int → Flags
  | .ofNat bits => ⟨bits⟩
  | .negSucc absent =>
    if absent < 8 then ⟨7 - absent⟩ else ⟨1 <<< ((absent + 1).log2 + 1) - (absent + 1)⟩

def union (flags others : Flags) : Flags :=
  ⟨flags.bits ||| others.bits⟩

def names (flags : Flags) : List String :=
  (if flags.bits.testBit 0 then ["IMMEDIATE"] else []) ++
    (if flags.bits.testBit 1 then ["HIDDEN"] else []) ++
    (if flags.bits.testBit 2 then ["COMPILE_ONLY"] else [])

def display (flags : Flags) : String :=
  "<WordFlags." ++ "|".intercalate flags.names ++ ": " ++ Text.decimal flags.bits ++ ">"

end Flags

/-- What a token is, with the mask, name or text it carries. Reading a text always gives it one; a
token made by hand may lack it. -/
inductive Token.Kind where
  | flag (mask : Option Int)
  | recurse
  /-- `%NAME`, a word given by its constant. -/
  | reference (name : Option String)
  /-- `$NAME`, the slot of a variable. -/
  | variableRef (name : Option String)
  /-- `:NAME`, the definition of a label. -/
  | labelDef (name : Option String)
  /-- `NAME:`, the offset to a label. -/
  | labelUse (name : Option String)
  | stringIntro
  | stringLiteral (text : String)
  | word
  | commentOpen
  | commentClose
  /-- No class of tokens at all; reading a definition never gives it. -/
  | unknown
  deriving DecidableEq

structure Token where
  kind : Token.Kind
  lexeme : String
  line : Option Int
  column : Option Int
  deriving DecidableEq

namespace Token

def stringMark : List Char := ['.', '"']

def flagOf? (text : List Char) : Option Flags :=
  if text = "IMMEDIATE".toList then some .immediate
  else if text = "HIDDEN".toList then some .hidden
  else if text = "COMPILE-ONLY".toList then some .compileOnly
  else none

def isLabelChar (c : Char) : Bool :=
  ('A' ≤ c && c ≤ 'Z') || ('0' ≤ c && c ≤ '9')

/-- Whether a text is a label: one or more capital letters and digits. -/
def isLabel (text : List Char) : Bool :=
  !text.isEmpty && text.all isLabelChar

/-- Whether a text has the form `:NAME`, up to one newline at its end. -/
def isLabelDef (text : List Char) : Bool :=
  match chopped with
  | ':' :: name => isLabel name
  | _ => false
where
  chopped := Text.chopNewline text

/-- Whether a text has the form `NAME:`, up to one newline at its end. -/
def isLabelUse (text : List Char) : Bool :=
  chopped.getLast? = some ':' && isLabel chopped.dropLast
where
  chopped := Text.chopNewline text

/-- What a text without blanks around it is as a token. -/
def classify (text : List Char) : Kind :=
  if text = ['('] then .commentOpen
  else if text = [')'] then .commentClose
  else
    match flagOf? text with
    | some flags => .flag (some flags.bits)
    | none =>
      if text = "recurse".toList then .recurse
      else if text = stringMark then .stringIntro
      else
        match text with
        | '%' :: c :: rest => .reference (some (String.ofList (c :: rest)))
        | '$' :: c :: rest => .variableRef (some (String.ofList (c :: rest)))
        | _ =>
          if isLabelDef text then .labelDef (some (String.ofList (text.drop 1)))
          else if isLabelUse text then .labelUse (some (String.ofList text.dropLast))
          else .word

/-- The name after the quote in a text of the form `'NAME`, up to one newline at its end. -/
def hintOf? (text : List Char) : Option String :=
  match text with
  | '\x27' :: rest =>
    let name := Text.chopNewline rest
    if !name.isEmpty && name.all (fun c => !Text.isBlank c) then some (String.ofList name) else none
  | _ => none

/-- The constant that a token names when it stands in a comment. -/
def hint? (token : Token) : Option String :=
  hintOf? token.lexeme.toList

/-! ### Descriptions -/

def Kind.label : Kind → String
  | .flag _ => "FLAG"
  | .recurse => "RECURSE"
  | .reference _ => "FORWARD_REF"
  | .variableRef _ => "VARIABLE_REF"
  | .labelDef _ => "LABEL_DEF"
  | .labelUse _ => "LABEL_USE"
  | .stringIntro | .stringLiteral _ => "STRING_LITERAL"
  | .word => "WORD"
  | .commentOpen => "COMMENT_OPEN"
  | .commentClose => "COMMENT_CLOSE"
  | .unknown => "None"

def Kind.name? : Kind → Option String
  | .reference name | .variableRef name | .labelDef name | .labelUse name => name
  | .stringLiteral text => some text
  | _ => none

def Kind.payload? : Kind → Option String
  | .flag mask => mask.map fun mask => (Flags.ofMask mask).display
  | kind => kind.name?.map Text.quoted

/-- A description of a token on one line, if the number of its line can be written. -/
def describe (token : Token) : Except Text.TooManyDigits String :=
  let parts := [token.kind.label, Text.quoted token.lexeme] ++ token.kind.payload?.toList ++
    ["line=" ++ (token.line.map Text.decimal).getD "None"]
  if token.line.all Text.isWritable then .ok ("Token(" ++ ", ".intercalate parts ++ ")")
  else .error {}

end Token

end ThreadedCode
