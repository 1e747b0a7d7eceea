import ThreadedCode.Proofs.BinaryForm
import ThreadedCode.Proofs.Outcome
import ThreadedCode.Proofs.Rows
import ThreadedCode.Table.Listing

/-!
# Listing what was compiled

A listing finds the items of a body again from its units alone: a wide integer by the word before
it, a string by the word before it and its length byte. One wrong length would shift everything
after it. Bodies made of plain words, wide integers and strings are listed item by item, at the
offsets at which they were compiled.
-/

namespace ThreadedCode

open Compiler

/-! ### Packed strings and wide integers -/

namespace Code

theorem unitBytes_pair (high low : UInt8) :
    unitBytes ((high.toNat : Int) * 256 + low.toNat) = [high, low] := by
  have first : ((high.toNat : Int) * 256 + low.toNat) / 256 % 256 = high.toNat := by
    have bound := high.toNat_lt
    have other := low.toNat_lt
    omega
  have second : ((high.toNat : Int) * 256 + low.toNat) % 256 = low.toNat := by
    have other := low.toNat_lt
    omega
  simp [unitBytes, first, second]

/-- The bytes of packed units are those that were packed, up to a byte that fills the last unit. -/
theorem flatMap_unitBytes_pairBytes (bytes : List UInt8) :
    ∃ padding, (pairBytes bytes).flatMap unitBytes = bytes ++ padding := by
  fun_induction pairBytes bytes with
  | case1 => exact ⟨[], rfl⟩
  | case2 high =>
    have alone := unitBytes_pair high 0
    exact ⟨[0], by simpa using alone⟩
  | case3 high low rest ih =>
    obtain ⟨padding, same⟩ := ih
    exact ⟨padding, by simp [unitBytes_pair, same]⟩

theorem map_toUnit_pairBytes (bytes : List UInt8) :
    (pairBytes bytes).map toUnit = pairBytes bytes := by
  fun_induction pairBytes bytes with
  | case1 => rfl
  | case2 high =>
    have bound := high.toNat_lt
    have kept : toUnit ((high.toNat : Int) * 256) = high.toNat * 256 := by
      unfold toUnit
      omega
    rw [List.map_singleton, kept]
  | case3 high low rest ih =>
    have bound := high.toNat_lt
    have other := low.toNat_lt
    have kept : toUnit ((high.toNat : Int) * 256 + low.toNat) = high.toNat * 256 + low.toNat := by
      unfold toUnit
      omega
    rw [List.map_cons, kept, ih]

/-- The units of some bytes behind their number. -/
def packed (bytes : List UInt8) : List Int :=
  pairBytes (bytes.length.toUInt8 :: bytes)

theorem pack_ok {bytes : List UInt8} {units : List Int} (done : pack bytes = .ok units) :
    bytes.length ≤ maxPackedBytes ∧ units = packed bytes := by
  unfold pack at done
  split at done
  · cases done
  · rename_i fits
    exact ⟨by omega, (Except.ok.inj done).symm⟩

theorem unpack_packed {bytes : List UInt8} (short : bytes.length ≤ maxPackedBytes)
    (rest : List Int) : unpack (packed bytes ++ rest) = .ok bytes := by
  obtain ⟨padding, same⟩ := flatMap_unitBytes_pairBytes (bytes.length.toUInt8 :: bytes)
  have count : bytes.length.toUInt8.toNat = bytes.length := by
    have bound : bytes.length < 256 := by
      unfold maxPackedBytes at short
      omega
    simp [Nat.mod_eq_of_lt bound]
  have front : (packed bytes ++ rest).flatMap unitBytes =
      bytes.length.toUInt8 :: (bytes ++ (padding ++ rest.flatMap unitBytes)) := by
    rw [List.flatMap_append, packed, same]
    simp
  rw [unpack, front]
  simp [count]

/-- The first packed unit states how many there are. -/
theorem packed_cons {bytes : List UInt8} (short : bytes.length ≤ maxPackedBytes) :
    ∃ first units, packed bytes = first :: units ∧
      statedUnits first = (packed bytes).length := by
  have count : bytes.length.toUInt8.toNat = bytes.length := by
    unfold maxPackedBytes at short
    simp [Nat.mod_eq_of_lt (show bytes.length < 256 by omega)]
  have size : (packed bytes).length = (bytes.length + 2) / 2 := by
    rw [packed, length_pairBytes, List.length_cons]
  obtain ⟨first, units, whole, high⟩ : ∃ first units, packed bytes = first :: units ∧
      first / 256 % 256 = bytes.length := by
    unfold maxPackedBytes at short
    cases bytes with
    | nil => exact ⟨0, [], rfl, rfl⟩
    | cons low rest =>
      have bound := low.toNat_lt
      refine ⟨_, _, rfl, ?_⟩
      rw [count]
      omega
  refine ⟨first, units, whole, ?_⟩
  rw [size, statedUnits, statedLength, high, packedLength]
  omega

theorem joinWide_splitWide {value : Int} (fits : Text.fitsInt32 value = true) :
    joinWide (toUnit (value / 65536)) (toUnit value) = value := by
  simp only [Text.fitsInt32, Bool.and_eq_true, decide_eq_true_eq] at fits
  unfold joinWide toUnit
  dsimp only
  split <;> omega

end Code

theorem Text.fitsInt32_of_parseInt32 {text : List Char} {value : Int}
    (read : Text.parseInt32 text = .ok (some value)) : Text.fitsInt32 value = true := by
  unfold parseInt32 at read
  dsimp only at read
  split at read
  · cases Except.ok.inj read
  · split at read
    · cases read
    · have found := Except.ok.inj read
      rw [Option.ite_none_right_eq_some] at found
      obtain ⟨fits, same⟩ := found
      rwa [← Option.some.inj same]

/-! ### Bodies that can be read back -/

namespace Table

/-- An item of a body whose extent can be told from its units. -/
inductive Item where
  /-- A word other than the two that take the units after them. -/
  | word (index : Nat) (name : String)
  /-- The wide-integer word, under its name, and the integer after it. -/
  | wide (name : String) (value : Int)
  /-- The word that pushes a string, and the bytes of the string. -/
  | text (bytes : List UInt8)
  deriving DecidableEq

namespace Item

variable (wide lit : Int)

def units : Item → List Int
  | .word index _ => [(index : Int)]
  | .wide _ value => wide :: Code.splitWide value
  | .text bytes => lit :: Code.packed bytes

/-- The line that an item at an offset is listed on. -/
def line (offset : Nat) : Item → BodyLine
  | .word index _ => .unit offset index
  | .wide _ value => .wide offset wide value
  | .text bytes => .text offset lit bytes

/-- Whether the units of an item are those of no other one. -/
def Listable : Item → Prop
  | .word index _ => (index : Int) ≠ wide ∧ (index : Int) ≠ lit
  | .wide _ value => Text.fitsInt32 value = true
  | .text bytes => bytes.length ≤ Code.maxPackedBytes

/-- Items with the offsets of their first units, where that of the first item is given. -/
def placed (offset : Nat) : List Item → List (Nat × Item)
  | [] => []
  | item :: items => (offset, item) :: placed (offset + (item.units wide lit).length) items

end Item

theorem wideAfter?_of_ne {bootstrap : Bootstrap} {unit : Int}
    (other : bootstrap.wideInt ≠ some unit) (rest : List Int) :
    wideAfter? bootstrap unit rest = none := by
  unfold wideAfter?
  split
  · exact if_neg other.symm
  · rfl

theorem literalAfter?_of_ne {bootstrap : Bootstrap} {unit : Int}
    (other : bootstrap.litstring ≠ some unit) (rest : List Int) :
    literalAfter? bootstrap unit rest = none := by
  unfold literalAfter?
  split
  · exact if_neg fun string => other string.1.symm
  · rfl

section

variable {bootstrap : Bootstrap} {wide lit : Int} (wideInt : bootstrap.wideInt = some wide)
  (litstring : bootstrap.litstring = some lit) (distinct : wide ≠ lit)

include wideInt litstring distinct

/-- One item is listed on one line, whatever comes after it. -/
theorem bodyLinesFrom_item {item : Item} (listable : item.Listable wide lit)
    (done : Array BodyLine) (offset : Nat) (rest : List Int) :
    bodyLinesFrom bootstrap done offset (item.units wide lit ++ rest) =
      bodyLinesFrom bootstrap (done.push (item.line wide lit offset))
        (offset + (item.units wide lit).length) rest := by
  cases item with
  | word index name =>
    obtain ⟨notWide, notText⟩ := listable
    have noPair : wideAfter? bootstrap index rest = none :=
      wideAfter?_of_ne (by simpa [wideInt] using notWide.symm) rest
    have noString : literalAfter? bootstrap index rest = none :=
      literalAfter?_of_ne (by simpa [litstring] using notText.symm) rest
    rw [Item.units, List.singleton_append, bodyLinesFrom, noPair, noString]
    rfl
  | wide name value =>
    have pair : wideAfter? bootstrap wide (Code.splitWide value ++ rest) = some value := by
      simp [wideAfter?, Code.splitWide, wideInt, Code.joinWide_splitWide listable]
    rw [Item.units, List.cons_append, bodyLinesFrom, pair]
    rfl
  | text bytes =>
    have short : bytes.length ≤ Code.maxPackedBytes := listable
    have noPair : wideAfter? bootstrap lit (Code.packed bytes ++ rest) = none :=
      wideAfter?_of_ne (by simpa [wideInt] using distinct) _
    obtain ⟨first, units, packed, count⟩ := Code.packed_cons short
    have string : literalAfter? bootstrap lit (Code.packed bytes ++ rest) =
        some (Code.packed bytes).length := by
      rw [packed, List.cons_append, literalAfter?, count, ← packed, if_pos]
      refine ⟨litstring.symm, ?_⟩
      rw [← List.cons_append, ← packed, List.length_append]
      omega
    have whole : Code.unpack (Code.packed bytes) = .ok bytes := by
      simpa using Code.unpack_packed short []
    rw [Item.units, List.cons_append, bodyLinesFrom, noPair, string]
    dsimp only
    rw [List.take_left, whole]
    dsimp only
    rw [List.drop_left, Item.line, List.length_cons, Nat.add_assoc, Nat.add_comm 1]

theorem bodyLinesFrom_items {items : List Item}
    (listable : ∀ item ∈ items, item.Listable wide lit) (done : Array BodyLine) (offset : Nat) :
    bodyLinesFrom bootstrap done offset (items.flatMap (Item.units wide lit)) =
      .ok (done.toList ++ (Item.placed wide lit offset items).map fun place =>
        place.2.line wide lit place.1) := by
  induction items generalizing done offset with
  | nil => simp [bodyLinesFrom, Item.placed]
  | cons item items ih =>
    obtain ⟨first, others⟩ := List.forall_mem_cons.mp listable
    rw [List.flatMap_cons, bodyLinesFrom_item wideInt litstring distinct first, ih others]
    simp [Item.placed]

end

theorem row_of_getElem? {α : Type} {column : Array α} {place : Nat} {value : α}
    (there : column[place]? = some value) : row column place = .ok value := by
  have inside := (Array.getElem?_eq_some_iff.mp there).1
  have found : Position.get? column place = some value := by
    simpa [Position.get?, Position.resolve?, inside] using there
  rw [row, found]

theorem row_isOk {α : Type} {column : Array α} {index : Int} (start : 0 ≤ index)
    (inside : index < column.size) : ∃ value, row column index = .ok value := by
  obtain ⟨place, rfl⟩ := Int.eq_ofNat_of_zero_le start
  exact ⟨_, row_of_getElem? (Array.getElem?_eq_getElem (Int.ofNat_lt.mp inside))⟩

theorem mem_of_row {α : Type} {column : Array α} {index : Int} {value : α}
    (found : row column index = .ok value) : value ∈ column := by
  unfold row Position.get? at found
  split at found
  · rename_i there
    obtain rfl := Except.ok.inj found
    split at there
    · exact Array.mem_of_getElem? there
    · cases there
  · cases found

theorem wordName_of_getElem? {table : Table} {index : Nat} {name : String}
    (named : table.names[index]? = some name) : table.wordName index = .ok name := by
  have inside := (Array.getElem?_eq_some_iff.mp named).1
  rw [wordName, if_pos (Int.ofNat_lt.mpr inside), row_of_getElem? named]

theorem writeUnit_of_lt {table : Table} {index : Nat} (inside : index < table.names.size) :
    table.writeUnit index = .ok (Text.decimal index) := by
  simp [writeUnit, isWritable, inside]

theorem wordName_isOk (table : Table) {unit : Int} (positive : 0 ≤ unit) :
    ∃ name, table.wordName unit = .ok name := by
  unfold wordName
  by_cases inside : unit < table.names.size
  · rw [if_pos inside]
    exact row_isOk positive inside
  · rw [if_neg inside]
    exact ⟨"?", rfl⟩

/-- The text that an item is listed as, where strings are pushed by the word `push`. -/
def Item.listed (push : String) (offset : Nat) : Item → String
  | .word index name =>
    renderLine.label offset ++ Text.padLeft 5 ' ' (Text.decimal index) ++ " " ++
      Text.padLeft 6 ' ' (Text.signedDecimal (Code.signed index)) ++ "  " ++ name
  | .wide name value => renderLine.label offset ++ name ++ " " ++ Text.decimal value
  | .text bytes => renderLine.label offset ++ push ++ " " ++ Text.quotedBytes bytes

/-- Whether the names of an item are those of the table. -/
def Item.Named (table : Table) (wide : Int) : Item → Prop
  | .word index name => table.names[index]? = some name
  | .wide name _ => table.wordName wide = .ok name
  | .text _ => True

theorem renderLine_line {table : Table} {wide lit : Int} {push : String} {item : Item}
    (named : item.Named table wide) (pushed : table.wordName lit = .ok push) (offset : Nat) :
    table.renderLine (item.line wide lit offset) = .ok (item.listed push offset) := by
  cases item with
  | word index name =>
    have found := wordName_of_getElem? named
    have written := writeUnit_of_lt (Array.getElem?_eq_some_iff.mp named).1
    simp [renderLine, Item.line, Item.listed, found, written, bind, Except.bind, pure, Except.pure]
  | wide name value =>
    have found : table.wordName wide = .ok name := named
    simp [renderLine, Item.line, Item.listed, found, bind, Except.bind, pure, Except.pure]
  | text bytes =>
    simp [renderLine, Item.line, Item.listed, pushed, bind, Except.bind, pure, Except.pure]

theorem mem_placed {wide lit : Int} {offset : Nat} {items : List Item} {place : Nat × Item}
    (member : place ∈ Item.placed wide lit offset items) : place.2 ∈ items := by
  induction items generalizing offset with
  | nil => cases member
  | cons item items ih =>
    rcases List.mem_cons.mp member with rfl | member
    · exact List.mem_cons_self
    · exact List.mem_cons_of_mem _ (ih member)

/-- Code whose body is a sequence of items is listed as these items, each at its offset. -/
theorem disassemble_items {table : Table} {wide lit : Int} {push : String} {items : List Item}
    {code : Array Int} {flags : Int} (wideInt : table.bootstrap.wideInt = some wide)
    (litstring : table.bootstrap.litstring = some lit) (distinct : wide ≠ lit)
    (pushed : table.wordName lit = .ok push)
    (listable : ∀ item ∈ items, item.Listable wide lit)
    (named : ∀ item ∈ items, item.Named table wide)
    (units : code.toList = flags :: items.flatMap (Item.units wide lit)) :
    table.disassemble code =
      .ok ((Item.placed wide lit 1 items).map fun place => place.2.listed push place.1) := by
  rw [disassemble, bodyLines, units, List.drop_one, List.tail_cons,
    bodyLinesFrom_items wideInt litstring distinct listable]
  dsimp only
  rw [mapM_ok_iff]
  simp only [List.nil_append, List.forall₂_map_left_iff, List.forall₂_map_right_iff,
    List.forall₂_same]
  intro place member
  exact renderLine_line (named _ (mem_placed member)) pushed place.1

end Table

/-! ### What a body is compiled to -/

/-- Whether a token outside comments stands for units: all but flags and labels do. -/
def Token.isContent (token : Token) : Bool :=
  match token.kind with
  | .flag _ | .labelDef _ => false
  | _ => true

namespace Compiler

theorem Draft.CommentEffect.lastWord {draft : Draft} {token : Token} {effect : Effect}
    (cases : Draft.CommentEffect draft token effect) :
    (draft.apply token effect).lastWord = draft.lastWord := by
  cases cases <;> rfl

theorem Draft.CodeEffect.of_not_isContent {state : State} {draft : Draft} {token : Token}
    {effect : Effect} (cases : Draft.CodeEffect state draft token effect)
    (bare : token.isContent = false) :
    effect.units = [] ∧ effect.isOpen = false ∧
      (draft.apply token effect).lastWord = draft.lastWord := by
  cases cases with
  | flag kind => exact ⟨rfl, rfl, rfl⟩
  | labelDef kind => exact ⟨rfl, rfl, rfl⟩
  | plain kind resolved =>
    obtain kind | kind | ⟨name, kind, -⟩ := kind <;> simp [Token.isContent, kind] at bare
  | _ => simp_all [Token.isContent]

theorem Turn.lastWord_of_not_inCode {state : State} (turn : Turn)
    (found : Draft.effect? state turn.before turn.token = .ok turn.effect)
    (inside : turn.inCode = false) : turn.after.lastWord = turn.before.lastWord := by
  unfold Turn.after
  rcases turn.commentEffect found inside with same | cases
  · rw [same]
    rfl
  · exact cases.lastWord

def contentTurns (turns : List Turn) : List Turn :=
  (codeTurns turns).filter fun turn => turn.token.isContent

/-- Turns of which each finds the last word that the one before it has left. -/
inductive Linked : Option Int → List Turn → Prop where
  | nil (last : Option Int) : Linked last []
  | cons {last : Option Int} {turn : Turn} {turns : List Turn} (found : turn.before.lastWord = last)
      (rest : Linked turn.after.lastWord turns) : Linked last (turn :: turns)

/-- Comments, flags and labels do not come between a word and the integer after it. -/
theorem Passes.linked {state : State} {draft final : Draft} {turns : List Turn}
    (passes : Passes state draft turns final) : Linked draft.lastWord (contentTurns turns) := by
  induction passes with
  | nil draft => exact .nil _
  | @cons draft final token effect turns found rest ih =>
    cases outside : Turn.inCode ⟨token, draft, effect⟩ with
    | false =>
      have kept : (draft.apply token effect).lastWord = draft.lastWord :=
        Turn.lastWord_of_not_inCode ⟨token, draft, effect⟩ found outside
      rw [kept] at ih
      simpa [contentTurns, codeTurns, outside] using ih
    | true =>
      cases content : token.isContent with
      | false =>
        have cases := Turn.codeEffect ⟨token, draft, effect⟩ found outside
        rw [(cases.of_not_isContent content).2.2] at ih
        simpa [contentTurns, codeTurns, outside, content] using ih
      | true =>
        have here : contentTurns (⟨token, draft, effect⟩ :: turns) =
            ⟨token, draft, effect⟩ :: contentTurns turns := by
          simp [contentTurns, codeTurns, outside, content]
        rw [here]
        exact .cons rfl ih

theorem Passes.codeEffect {state : State} {draft final : Draft} {turns : List Turn} {turn : Turn}
    (passes : Passes state draft turns final) (member : turn ∈ codeTurns turns) :
    Draft.CodeEffect state turn.before turn.token turn.effect := by
  obtain ⟨inside, outside⟩ := List.mem_filter.mp member
  exact turn.codeEffect (passes.effect inside) outside

/-- Where nothing is filled in later, a body is the units of the tokens that stand for units. -/
theorem Fills.body_eq {state : State} {draft final : Draft} {turns : List Turn} {body : List Int}
    (filled : Fills state (codeTurns turns) body) (passes : Passes state draft turns final)
    (closed : ∀ turn ∈ contentTurns turns, ¬ turn.IsOpen state) :
    body = (contentTurns turns).flatMap Turn.units := by
  have effects : ∀ turn ∈ codeTurns turns,
      Draft.CodeEffect state turn.before turn.token turn.effect :=
    fun turn member => passes.codeEffect member
  unfold contentTurns at closed ⊢
  generalize codeTurns turns = turns at filled closed effects
  induction filled with
  | nil => rfl
  | @cons turn turns block body size kept rest ih =>
    obtain ⟨first, others⟩ := List.forall_mem_cons.mp effects
    cases content : turn.token.isContent with
    | true =>
      rw [List.filter_cons, if_pos content] at closed ⊢
      obtain ⟨here, later⟩ := List.forall_mem_cons.mp closed
      rw [List.flatMap_cons, ← kept here, ih later others]
    | false =>
      rw [List.filter_cons, if_neg (by simp [content])] at closed ⊢
      have silent : turn.units = [] := by
        rw [turn.units_eq]
        exact (first.of_not_isContent content).1
      rw [silent, List.length_nil, List.length_eq_zero_iff] at size
      rw [size, List.nil_append, ih closed others]

/-- The items that tokens are read as, where the words `wide` and `lit` take the units after them.
The integer after the wide-integer word has to be no word itself. -/
inductive Reads (state : State) (wide lit : Int) : List Token → List Table.Item → Prop where
  | nil : Reads state wide lit [] []
  | word {token : Token} {tokens : List Token} {items : List Table.Item} {index : Nat}
      (plain : IsPlain state token) (found : state.findWord? token.lexeme = some index)
      (notWide : (index : Int) ≠ wide) (notText : (index : Int) ≠ lit)
      (rest : Reads state wide lit tokens items) :
      Reads state wide lit (token :: tokens) (.word index token.lexeme :: items)
  | wide {token literal : Token} {tokens : List Token} {items : List Table.Item} {index : Nat}
      {value : Int} (plain : IsPlain state token)
      (found : state.findWord? token.lexeme = some index) (isWide : (index : Int) = wide)
      (number : IsPlain state literal) (unknown : state.findWord? literal.lexeme = none)
      (read : Text.parseInt32 literal.lexeme.toList = .ok (some value))
      (rest : Reads state wide lit tokens items) :
      Reads state wide lit (token :: literal :: tokens) (.wide token.lexeme value :: items)
  | text {token : Token} {tokens : List Token} {items : List Table.Item} {text : String}
      (kind : token.kind = .stringLiteral text) (rest : Reads state wide lit tokens items) :
      Reads state wide lit (token :: tokens) (.text (Text.utf8Bytes text.toList) :: items)

/-- Turns that have emitted the units of some items of a table. -/
structure Spells (state : State) (table : Table) (wide lit : Int) (turns : List Turn)
    (items : List Table.Item) : Prop where
  units : turns.flatMap Turn.units = items.flatMap (Table.Item.units wide lit)
  closed : ∀ turn ∈ turns, ¬ turn.IsOpen state
  listable : ∀ item ∈ items, item.Listable wide lit
  named : ∀ item ∈ items, item.Named table wide

/-- A state of a run that ends in a table of at most 65536 words. -/
structure Leads (state : State) (table : Table) (wide lit : Int) : Prop where
  names : state.declared <+: table.names.toList
  small : table.names.size ≤ 65536
  wideInt : state.bootstrap.wideInt = some wide
  litstring : state.bootstrap.litstring = some lit
  inside : 0 ≤ lit ∧ lit < table.names.size
  encode : state.encode = Text.utf8

namespace Spells

variable {state : State} {table : Table} {wide lit : Int}

theorem append {turns others : List Turn} {items rest : List Table.Item}
    (first : Spells state table wide lit turns items)
    (second : Spells state table wide lit others rest) :
    Spells state table wide lit (turns ++ others) (items ++ rest) := by
  refine ⟨?_, ?_, ?_, ?_⟩
  · rw [List.flatMap_append, List.flatMap_append, first.units, second.units]
  · exact List.forall_mem_append.mpr ⟨first.closed, second.closed⟩
  · exact List.forall_mem_append.mpr ⟨first.listable, second.listable⟩
  · exact List.forall_mem_append.mpr ⟨first.named, second.named⟩

theorem word_index (leads : Leads state table wide lit) {lexeme : String} {index : Nat}
    (found : state.findWord? lexeme = some index) :
    table.names[index]? = some lexeme ∧ Code.toUnit index = index := by
  have named : state.declared[index]? = some lexeme := (State.findWord?_eq_some_iff.mp found).mem
  obtain ⟨rest, whole⟩ := leads.names
  have inside := (List.getElem?_eq_some_iff.mp named).1
  have listed : table.names[index]? = some lexeme := by
    rw [← Array.getElem?_toList, ← whole, List.getElem?_append_left inside, named]
  have bound := (Array.getElem?_eq_some_iff.mp listed).1
  have small := leads.small
  refine ⟨listed, ?_⟩
  unfold Code.toUnit
  omega

theorem word_effect {turn : Turn} {index : Nat}
    (cases : Draft.CodeEffect state turn.before turn.token turn.effect)
    (plain : IsPlain state turn.token) (found : state.findWord? turn.token.lexeme = some index) :
    turn.effect = .emit (.ofWord index) := by
  obtain ⟨block, resolved, emitted⟩ := cases.plainBlock plain
  simp only [plainBlock, found, Except.ok.injEq] at resolved
  rw [emitted, ← resolved]

theorem lastWord_emit {turn : Turn} {block : Block} (emitted : turn.effect = .emit block) :
    turn.after.lastWord = block.lastWord := by
  rw [Turn.after, emitted, Draft.apply, Draft.emit_eq]

theorem word (leads : Leads state table wide lit) {turn : Turn} {index : Nat}
    (cases : Draft.CodeEffect state turn.before turn.token turn.effect)
    (plain : IsPlain state turn.token) (found : state.findWord? turn.token.lexeme = some index)
    (notWide : (index : Int) ≠ wide) (notText : (index : Int) ≠ lit) :
    Spells state table wide lit [turn] [.word index turn.token.lexeme] := by
  obtain ⟨listed, unit⟩ := word_index leads found
  refine ⟨?_, ?_, ?_, ?_⟩
  · simp [turn.units_eq, word_effect cases plain found, Effect.units, Block.ofWord, unit,
      Table.Item.units]
  · simpa using plain.not_isOpen
  · simpa using show Table.Item.Listable wide lit (.word index _) from ⟨notWide, notText⟩
  · simpa using show Table.Item.Named table wide (.word index _) from listed

/-- The integer finds the wide-integer word as the last one, and so takes two units. -/
theorem wide_integer (leads : Leads state table wide lit) {turn literal : Turn} {index : Nat}
    {value : Int} (cases : Draft.CodeEffect state turn.before turn.token turn.effect)
    (plain : IsPlain state turn.token) (found : state.findWord? turn.token.lexeme = some index)
    (isWide : (index : Int) = wide)
    (others : Draft.CodeEffect state literal.before literal.token literal.effect)
    (linked : literal.before.lastWord = turn.after.lastWord)
    (number : IsPlain state literal.token)
    (unknown : state.findWord? literal.token.lexeme = none)
    (read : Text.parseInt32 literal.token.lexeme.toList = .ok (some value)) :
    Spells state table wide lit [turn, literal] [.wide turn.token.lexeme value] := by
  subst isWide
  obtain ⟨listed, unit⟩ := word_index leads found
  have effect := word_effect cases plain found
  have last : literal.before.lastWord = state.bootstrap.wideInt := by
    rw [linked, lastWord_emit effect, leads.wideInt]
    rfl
  obtain ⟨block, resolved, emitted⟩ := others.plainBlock number
  simp only [plainBlock, unknown, read, last, leads.wideInt, Option.isSome_some, beq_self_eq_true,
    Bool.and_self, if_true, Except.ok.injEq] at resolved
  refine ⟨?_, ?_, ?_, ?_⟩
  · have kept : (Code.splitWide value).map Code.toUnit = Code.splitWide value := by
      simp [Code.splitWide, Code.toUnit]
    simp [turn.units_eq, literal.units_eq, effect, emitted, ← resolved, Effect.units, Block.ofWord,
      unit, kept, Table.Item.units]
  · simpa using ⟨plain.not_isOpen, number.not_isOpen⟩
  · simpa using
      show Table.Item.Listable _ lit (.wide _ value) from Text.fitsInt32_of_parseInt32 read
  · simpa using show Table.Item.Named table _ (.wide _ value) from Table.wordName_of_getElem? listed

theorem text (leads : Leads state table wide lit) {turn : Turn} {text : String}
    (cases : Draft.CodeEffect state turn.before turn.token turn.effect)
    (kind : turn.token.kind = .stringLiteral text) :
    Spells state table wide lit [turn] [.text (Text.utf8Bytes text.toList)] := by
  obtain ⟨block, packed, emitted⟩ := cases.stringBlock kind
  have encoded : state.encode text = some (Text.utf8Bytes text.toList) := by
    rw [leads.encode]
    rfl
  simp only [stringBlock, encoded, leads.litstring] at packed
  split at packed
  · cases packed
  · rename_i units fits
    obtain ⟨short, rfl⟩ := Code.pack_ok fits
    obtain rfl := Except.ok.inj packed
    have unit : Code.toUnit lit = lit := by
      have bounds := leads.inside
      have small := leads.small
      unfold Code.toUnit
      omega
    refine ⟨?_, ?_, ?_, ?_⟩
    · simp [turn.units_eq, emitted, Effect.units, Block.append, Block.ofBootstrap, Block.ofWord,
        unit, Code.packed, Code.map_toUnit_pairBytes, Table.Item.units]
    · simp [Turn.IsOpen, kind]
    · simpa using show Table.Item.Listable wide lit (.text _) from short
    · simp [Table.Item.Named]

/-- Linked turns of tokens that are read as items have emitted the units of these items. -/
theorem of_reads (leads : Leads state table wide lit) {tokens : List Token}
    {items : List Table.Item} (reads : Reads state wide lit tokens items) {turns : List Turn}
    {last : Option Int} (same : turns.map Turn.token = tokens) (linked : Linked last turns)
    (effects : ∀ turn ∈ turns, Draft.CodeEffect state turn.before turn.token turn.effect) :
    Spells state table wide lit turns items := by
  induction reads generalizing turns last with
  | nil =>
    obtain rfl := List.map_eq_nil_iff.mp same
    exact ⟨rfl, by simp, by simp, by simp⟩
  | word plain found notWide notText rest ih =>
    obtain ⟨turn, turns, rfl, rfl, later⟩ := List.map_eq_cons_iff.mp same
    obtain ⟨first, others⟩ := List.forall_mem_cons.mp effects
    cases linked with
    | cons before linked =>
      exact (word leads first plain found notWide notText).append (ih later linked others)
  | wide plain found isWide number unknown read rest ih =>
    obtain ⟨turn, turns, rfl, rfl, tail⟩ := List.map_eq_cons_iff.mp same
    obtain ⟨literal, turns, rfl, rfl, later⟩ := List.map_eq_cons_iff.mp tail
    obtain ⟨first, others⟩ := List.forall_mem_cons.mp effects
    obtain ⟨second, others⟩ := List.forall_mem_cons.mp others
    cases linked with
    | cons before linked =>
      cases linked with
      | cons between linked =>
        exact (wide_integer leads first plain found isWide second between number unknown
          read).append (ih later linked others)
  | text kind rest ih =>
    obtain ⟨turn, turns, rfl, rfl, later⟩ := List.map_eq_cons_iff.mp same
    obtain ⟨first, others⟩ := List.forall_mem_cons.mp effects
    cases linked with
    | cons before linked => exact (text leads first kind).append (ih later linked others)

end Spells

end Compiler

namespace Compilation

/-- Listing a body gives back what was compiled: if the tokens of a definition that stand for units
are plain words, integers after the wide-integer word and strings, in any order, its code is listed
on one line for each of them, with the offset of its first unit, its name and its value. -/
theorem ofText_disassembly {source : String} {filename : Option String} {order : Order}
    {compilation : Compilation} {wide lit : Int}
    (returned : (ofText source filename order).outcome = .ok compilation)
    (small : compilation.table.names.size ≤ 65536)
    (wideInt : compilation.table.bootstrap.wideInt = some wide)
    (litstring : compilation.table.bootstrap.litstring = some lit) (distinct : wide ≠ lit) :
    ∃ start log final push,
      initialState compilation.sections order {} filename = .ok start ∧
      Runs start log final ∧ log.map Prod.fst = compilation.sections.definitions ∧
      compilation.table.wordName lit = .ok push ∧
      ∀ (earlier later : Log) definition word, log = earlier ++ (definition, some word) :: later →
        ∃ before turns draft row code,
          Row start compilation.table earlier definition word before turns draft row code ∧
          ∀ items, Reads before wide lit
              ((Token.outside 0 (turns.map Turn.token)).filter Token.isContent) items →
            code.toList = (word.flags.bits : Int) :: items.flatMap (Table.Item.units wide lit) ∧
            compilation.table.disassemble code =
              .ok ((Table.Item.placed wide lit 1 items).map fun place =>
                place.2.listed push place.1) := by
  obtain ⟨start, log, final, -, started, runs, same, -, table, -⟩ := ofText_ok returned
  obtain ⟨fresh, -, -, -, bootstrap⟩ := initialState_ok started
  have setup := runs.finish_frame.1
  have indices : compilation.table.bootstrap = start.bootstrap := by
    rw [table]
    exact congrArg Setup.bootstrap setup
  have inside : 0 ≤ lit ∧ lit < compilation.table.names.size := by
    have member : some lit ∈ start.bootstrap.toList := by
      rw [← indices, ← litstring]
      exact List.mem_cons_self
    have bounds := Bootstrap.find_lt bootstrap member
    have catalog : final.finish.1.catalog = start.catalog := congrArg Setup.catalog setup
    have size : compilation.table.names.size = final.finish.1.nextIndex := by
      rw [table, ← Array.length_toList, names_tableOf, State.length_declared]
    rw [size, State.nextIndex, catalog]
    omega
  obtain ⟨push, pushed⟩ := compilation.table.wordName_isOk inside.1
  refine ⟨start, log, final, push, started, runs, same, pushed, ?_⟩
  rintro earlier later definition word rfl
  obtain ⟨before, after, turns, draft, code, front, compiled, back, row, -⟩ := runs.row fresh
  rw [← table] at row
  refine ⟨before, turns, draft, before.nextIndex, code, row, ?_⟩
  intro items reads
  have leads : Leads before compilation.table wide lit := by
    have origin : before.bootstrap = start.bootstrap := congrArg Setup.bootstrap front.setup
    refine ⟨?_, small, ?_, ?_, inside, ?_⟩
    · rw [table, names_tableOf]
      exact (Runs.cons compiled back).symbols_grow.map Prod.fst
    · rw [origin, ← indices, wideInt]
    · rw [origin, ← indices, litstring]
    · exact (congrArg Setup.encode front.setup).trans (initialState_encode started)
  have tokens : (contentTurns turns).map Turn.token =
      (Token.outside 0 (turns.map Turn.token)).filter Token.isContent := by
    rw [← row.outside, List.filter_map]
    rfl
  have spells : Spells before compilation.table wide lit (contentTurns turns) items := by
    refine Spells.of_reads leads reads tokens row.passes.linked fun turn member => ?_
    exact row.passes.codeEffect (List.mem_filter.mp member).1
  obtain ⟨body, units, filled⟩ := row.laid
  rw [filled.body_eq row.passes spells.closed, spells.units] at units
  exact ⟨units, Table.disassemble_items wideInt litstring distinct pushed spells.listable spells.named
    units⟩

/-- A definition with a flag, a word, a wide integer behind a comment and a label, and a string. -/
def listedText : String :=
  ": w IMMEDIATE dup int ( a ) :L -5 .\" hi\" dup ;"

def listedSource : String :=
  "/*CONSTS*/\n/*CODE*/\n========\n========\nint\n\tx\nlit litstring_compile\n\tx\ndup\n\tx\n" ++
    "========\n" ++ listedText ++ "\n"

def listedItems : List Table.Item :=
  [.word 2 "dup", .wide "int" (-5), .text [104, 105], .word 2 "dup"]

/-- The tokens are read as the items in any state that has these words. -/
theorem listedText_reads {state : State} {tokens : List Token}
    (read : bodyTokens? listedText 12 = some tokens) (dup : state.findWord? "dup" = some 2)
    (int : state.findWord? "int" = some 0) (five : state.findWord? "-5" = none) :
    Reads state 0 1 ((Token.outside 0 tokens).filter Token.isContent) listedItems := by
  have content : (bodyTokens? listedText 12).map
      (fun tokens => (Token.outside 0 tokens).filter Token.isContent) =
      some [⟨.word, "dup", some 12, some 12⟩, ⟨.word, "int", some 12, some 16⟩,
        ⟨.word, "-5", some 12, some 29⟩, ⟨.stringLiteral "hi", ".\"", some 12, some 32⟩,
        ⟨.word, "dup", some 12, some 39⟩] := by decide +kernel
  rw [read, Option.map_some] at content
  rw [Option.some.inj content]
  refine .word (.inl rfl) dup (by decide) (by decide) ?_
  refine .wide (.inl rfl) int rfl (.inl rfl) five (by decide +kernel) ?_
  refine .text (show _ = Token.Kind.stringLiteral "hi" from rfl) ?_
  exact .word (.inl rfl) dup (by decide) (by decide) .nil

def listedSections : Source.Sections where
  natives := [⟨"int", none, none, some "\tx", some 5⟩,
    ⟨"lit", some "litstring_compile", none, some "\tx", some 7⟩,
    ⟨"dup", none, none, some "\tx", some 9⟩]
  definitions := [⟨listedText, some 12⟩]

def listedStart : State where
  catalog := catalogOf listedSections.natives
  slots := {}
  bootstrap := { litstring := some 1, wideInt := some 0 }

theorem initialState_listedSections :
    initialState listedSections .shadowing {} none = .ok listedStart := by
  have bootstrap : Bootstrap.ofCatalog (catalogOf listedSections.natives) {} =
      { litstring := some 1, wideInt := some 0 } := by decide +kernel
  rw [initialState_of_nodup (by decide +kernel), bootstrap]
  rfl

theorem read_listedSource : Source.read listedSource none = .ok listedSections := by
  decide +kernel

theorem ofText_disassembly_sample :
    ∃ compilation code, (ofText listedSource none .shadowing).outcome = .ok compilation ∧
      compilation.table.names.size ≤ 65536 ∧ compilation.table.bootstrap.wideInt = some 0 ∧
      compilation.table.bootstrap.litstring = some 1 ∧
      compilation.table.codes[3]? = some (some code) ∧
      compilation.table.disassemble code =
        .ok ["    0001:     2     +2  dup", "    0002: int -5", "    0005: lit b'hi'",
          "    0008:     2     +2  dup"] := by
  have evaluated : (ofText listedSource none .shadowing).outcome.toOption.map (fun compilation =>
      (compilation.sections, compilation.table.bootstrap, compilation.table.names)) =
      some (listedSections, { litstring := some 1, wideInt := some 0 },
        #["int", "lit", "dup", "w"]) := by
    rw [ofText, read_listedSource]
    dsimp only
    rw [ofSections, initialState_listedSections]
    decide +kernel
  have compiles : (listedStart.compile listedText (some 12)).2.toOption.map Option.isSome =
      some true := by decide +kernel
  cases returned : (ofText listedSource none .shadowing).outcome with
  | error failure => simp [returned, Except.toOption] at evaluated
  | ok compilation =>
    rw [returned] at evaluated
    simp only [Except.toOption, Option.map_some, Option.some.injEq, Prod.mk.injEq] at evaluated
    obtain ⟨sections, bootstrap, names⟩ := evaluated
    have small : compilation.table.names.size ≤ 65536 := by simp [names]
    have wide : compilation.table.bootstrap.wideInt = some 0 := by rw [bootstrap]
    have lit : compilation.table.bootstrap.litstring = some 1 := by rw [bootstrap]
    obtain ⟨start, log, final, push, started, runs, same, pushed, rows⟩ :=
      ofText_disassembly returned small wide lit (by decide)
    rw [sections, initialState_listedSections] at started
    obtain rfl := Except.ok.inj started
    rw [sections, listedSections, List.map_eq_singleton_iff] at same
    obtain ⟨⟨definition, entry⟩, rfl, rfl⟩ := same
    cases entry with
    | none =>
      cases runs with
      | cons compiled rest => simp [compiled, Except.toOption] at compiles
    | some word =>
      obtain ⟨before, turns, draft, row, code, there, listing⟩ := rows [] [] _ word rfl
      obtain ⟨number, line, body⟩ := there.body
      obtain rfl : (12 : Int) = number := Option.some.inj line
      obtain rfl : before = listedStart := by
        cases there.runs
        rfl
      have words : listedStart.findWord? "dup" = some 2 ∧ listedStart.findWord? "int" = some 0 ∧
          listedStart.findWord? "-5" = none := by decide +kernel
      have lines := (listing _ (listedText_reads body words.1 words.2.1 words.2.2)).2
      have name : push = "lit" := by
        have second : compilation.table.names[1]? = some "lit" := by simp [names]
        exact Except.ok.inj (pushed.symm.trans (Table.wordName_of_getElem? second))
      refine ⟨compilation, code, rfl, small, wide, lit, ?_, ?_⟩
      · have stored := there.stored
        rwa [there.index] at stored
      · rw [lines, name]
        decide +kernel

end Compilation

end ThreadedCode
