import ThreadedCode.Proofs.Numbers
import ThreadedCode.Proofs.Packing

/-!
# The lines of a body

How many units a line of a listing takes is read off the units themselves, and any literal may look
like the head of a string. A wide integer or a string is only read where all its units are there, so
no step leaves the body: the lines tile it from its first unit to its last (`bodyLines_cover`). They
can be written unless one of them shows a unit that has too many digits.
-/

namespace ThreadedCode

/-! ### Strings and the units they need -/

namespace Code

theorem statedLength_lt (first : Int) : statedLength first < 256 := by
  unfold statedLength
  omega

theorem statedUnits_eq (first : Int) : statedUnits first = (statedLength first + 2) / 2 := by
  unfold statedUnits packedLength
  omega

theorem unpack_cons (first : Int) (rest : List Int) :
    unpack (first :: rest) =
      if 2 * rest.length + 1 < statedLength first then .error (.truncated (statedLength first))
      else
        .ok (((first % 256).toNat.toUInt8 :: rest.flatMap unitBytes).take (statedLength first)) := by
  have high : (first / 256 % 256).toNat.toUInt8.toNat = statedLength first := by
    have below := statedLength_lt first
    simp only [Nat.toUInt8, UInt8.toNat_ofNat']
    unfold statedLength at below ⊢
    omega
  rw [unpack, List.flatMap_cons, unitBytes, List.cons_append, List.cons_append, List.nil_append]
  simp only [high, List.length_cons, length_flatMap_unitBytes]

/-- The units that the first of them asks for hold a string of the length it gives. -/
theorem unpack_statedUnits {first : Int} {rest : List Int}
    (present : statedUnits first ≤ rest.length + 1) :
    ∃ bytes, unpack ((first :: rest).take (statedUnits first)) = .ok bytes ∧
      bytes.length = statedLength first := by
  rw [statedUnits_eq] at present ⊢
  obtain ⟨count, same⟩ := Nat.exists_eq_succ_of_ne_zero
    (show (statedLength first + 2) / 2 ≠ 0 by omega)
  have taken : (rest.take count).length = count := by
    rw [List.length_take]
    omega
  rw [same, List.take_succ_cons, unpack_cons, taken, if_neg (by omega)]
  refine ⟨_, rfl, ?_⟩
  rw [List.length_take, List.length_cons, length_flatMap_unitBytes, taken]
  omega

end Code

namespace Table

/-! ### Lines and their units -/

namespace BodyLine

def offset : BodyLine → Nat
  | .unit offset _ | .wide offset _ _ | .text offset _ _ => offset

/-- The number of units that a line takes. -/
def size : BodyLine → Nat
  | .unit .. => 1
  | .wide .. => 3
  | .text _ _ bytes => 1 + (Code.packedLength bytes.length).toNat

/-- The unit that a line begins with. -/
def leading : BodyLine → Int
  | .unit _ first | .wide _ first _ | .text _ first _ => first

theorem size_pos (line : BodyLine) : 0 < line.size := by
  cases line <;> simp only [size] <;> omega

end BodyLine

variable {bootstrap : Bootstrap}

/-- Units that begin with the wide-integer word, with two more behind it. -/
def OpensWide (bootstrap : Bootstrap) (units : List Int) : Prop :=
  ∃ unit rest, units = unit :: rest ∧ bootstrap.wideInt = some unit ∧ 2 ≤ rest.length

/-- Units that begin with the word that pushes a string, with as many behind it as the first of
them asks for. -/
def OpensText (bootstrap : Bootstrap) (units : List Int) : Prop :=
  ∃ unit first rest, units = unit :: first :: rest ∧ bootstrap.litstring = some unit ∧
    Code.statedUnits first ≤ rest.length + 1

/-- What a line shows of the units from its offset on. A string is unpacked from its own units and
no others, and they are all there. -/
inductive Shows (bootstrap : Bootstrap) : List Int → BodyLine → Prop where
  | wide {offset : Nat} {unit high low : Int} {rest : List Int}
      (word : bootstrap.wideInt = some unit) :
      Shows bootstrap (unit :: high :: low :: rest) (.wide offset unit (Code.joinWide high low))
  | text {offset : Nat} {unit first : Int} {rest : List Int} {bytes : List UInt8}
      (narrow : ¬ OpensWide bootstrap (unit :: first :: rest))
      (word : bootstrap.litstring = some unit)
      (present : Code.statedUnits first ≤ rest.length + 1)
      (unpacked : Code.unpack ((first :: rest).take (Code.statedUnits first)) = .ok bytes)
      (length : bytes.length = Code.statedLength first) :
      Shows bootstrap (unit :: first :: rest) (.text offset unit bytes)
  | unit {offset : Nat} {unit : Int} {rest : List Int}
      (narrow : ¬ OpensWide bootstrap (unit :: rest))
      (bare : ¬ OpensText bootstrap (unit :: rest)) :
      Shows bootstrap (unit :: rest) (.unit offset unit)

theorem Shows.size_le {units : List Int} {line : BodyLine} (shows : Shows bootstrap units line) :
    line.size ≤ units.length := by
  cases shows with
  | wide word => simp [BodyLine.size]
  | text narrow word present unpacked length =>
    rw [Code.statedUnits] at present
    simp only [BodyLine.size, length, List.length_cons]
    omega
  | unit narrow bare => simp [BodyLine.size]

/-! ### One step of a listing -/

theorem wideAfter?_eq_some {unit value : Int} {rest : List Int}
    (found : wideAfter? bootstrap unit rest = some value) :
    bootstrap.wideInt = some unit ∧
      ∃ high low others, rest = high :: low :: others ∧ value = Code.joinWide high low := by
  unfold wideAfter? at found
  split at found
  · rename_i high low others
    obtain ⟨word, same⟩ := Option.ite_none_right_eq_some.mp found
    exact ⟨word.symm, high, low, others, rfl, (Option.some.inj same).symm⟩
  · cases found

theorem not_opensWide {unit : Int} {rest : List Int}
    (absent : wideAfter? bootstrap unit rest = none) : ¬ OpensWide bootstrap (unit :: rest) := by
  rintro ⟨_, _, same, word, enough⟩
  obtain ⟨rfl, rfl⟩ := List.cons.inj same
  match rest, enough with
  | high :: low :: others, _ => simp [wideAfter?, word] at absent

theorem literalAfter?_eq_some {unit : Int} {rest : List Int} {count : Nat}
    (found : literalAfter? bootstrap unit rest = some count) :
    bootstrap.litstring = some unit ∧ ∃ first others, rest = first :: others ∧
      count = Code.statedUnits first ∧ count ≤ others.length + 1 := by
  unfold literalAfter? at found
  split at found
  · rename_i first others
    obtain ⟨⟨word, present⟩, same⟩ := Option.ite_none_right_eq_some.mp found
    obtain rfl := Option.some.inj same
    exact ⟨word.symm, first, others, rfl, rfl, present⟩
  · cases found

theorem not_opensText {unit : Int} {rest : List Int}
    (absent : literalAfter? bootstrap unit rest = none) : ¬ OpensText bootstrap (unit :: rest) := by
  rintro ⟨_, first, others, same, word, present⟩
  obtain ⟨rfl, rfl⟩ := List.cons.inj same
  simp [literalAfter?, word, present] at absent

/-! ### The whole body -/

/-- Lines that show some units from an offset on, each beginning where the one before it ends. -/
inductive Tiles (bootstrap : Bootstrap) : Nat → List Int → List BodyLine → Prop where
  | nil (offset : Nat) : Tiles bootstrap offset [] []
  | cons {line : BodyLine} {units : List Int} {lines : List BodyLine}
      (shows : Shows bootstrap units line)
      (rest : Tiles bootstrap (line.offset + line.size) (units.drop line.size) lines) :
      Tiles bootstrap line.offset units (line :: lines)

/-- Every body has lines: no string is cut off where it is unpacked. -/
theorem bodyLinesFrom_tiles (bootstrap : Bootstrap) (done : Array BodyLine) (offset : Nat)
    (units : List Int) :
    ∃ lines, bodyLinesFrom bootstrap done offset units = .ok (done.toList ++ lines) ∧
      Tiles bootstrap offset units lines := by
  fun_induction bodyLinesFrom bootstrap done offset units with
  | case1 done offset => exact ⟨[], by rw [List.append_nil], .nil offset⟩
  | case2 done offset unit rest value pair ih =>
    obtain ⟨lines, same, tiles⟩ := ih
    obtain ⟨word, high, low, others, rfl, rfl⟩ := wideAfter?_eq_some pair
    refine ⟨.wide offset unit (Code.joinWide high low) :: lines, ?_, .cons (.wide word) tiles⟩
    rw [same, Array.toList_push, List.append_assoc, List.singleton_append]
  | case3 done offset unit rest noPair count string reason truncated =>
    obtain ⟨word, first, others, rfl, rfl, present⟩ := literalAfter?_eq_some string
    obtain ⟨bytes, unpacked, -⟩ := Code.unpack_statedUnits present
    rw [unpacked] at truncated
    cases truncated
  | case4 done offset unit rest noPair count string bytes unpacked ih =>
    obtain ⟨lines, same, tiles⟩ := ih
    obtain ⟨word, first, others, rfl, rfl, present⟩ := literalAfter?_eq_some string
    obtain ⟨read, whole, length⟩ := Code.unpack_statedUnits present
    obtain rfl := Except.ok.inj (unpacked.symm.trans whole)
    have shows : Shows bootstrap (unit :: first :: others) (.text offset unit bytes) :=
      .text (not_opensWide noPair) word present unpacked length
    refine ⟨.text offset unit bytes :: lines, ?_, .cons shows ?_⟩
    · rw [same, Array.toList_push, List.append_assoc, List.singleton_append]
    · have size : (BodyLine.text offset unit bytes).size = 1 + Code.statedUnits first := by
        rw [BodyLine.size, length]
        rfl
      rw [BodyLine.offset, size, Nat.add_comm 1, List.drop_succ_cons, ← Nat.add_assoc,
        Nat.add_right_comm]
      exact tiles
  | case5 done offset unit rest noPair noString ih =>
    obtain ⟨lines, same, tiles⟩ := ih
    have shows : Shows bootstrap (unit :: rest) (.unit offset unit) :=
      .unit (not_opensWide noPair) (not_opensText noString)
    refine ⟨.unit offset unit :: lines, ?_, .cons shows tiles⟩
    rw [same, Array.toList_push, List.append_assoc, List.singleton_append]

namespace Tiles

variable {offset : Nat} {units : List Int} {lines : List BodyLine}

theorem within (tiles : Tiles bootstrap offset units lines) :
    ∀ line ∈ lines, offset ≤ line.offset ∧ line.offset + line.size ≤ offset + units.length := by
  induction tiles with
  | nil => simp
  | @cons line units lines shows rest ih =>
    have fits := shows.size_le
    intro other member
    rcases List.mem_cons.mp member with rfl | later
    · omega
    · obtain ⟨start, stop⟩ := ih other later
      rw [List.length_drop] at stop
      omega

theorem shows (tiles : Tiles bootstrap offset units lines) :
    ∀ line ∈ lines, Shows bootstrap (units.drop (line.offset - offset)) line := by
  induction tiles with
  | nil => simp
  | @cons line units lines shows rest ih =>
    intro other member
    rcases List.mem_cons.mp member with rfl | later
    · rw [Nat.sub_self]
      exact shows
    · have start := (rest.within other later).1
      have there := ih other later
      rw [List.drop_drop] at there
      rwa [show line.size + (other.offset - (line.offset + line.size)) =
        other.offset - line.offset by omega] at there

theorem head (tiles : Tiles bootstrap offset units lines) :
    lines.head?.map BodyLine.offset = if units = [] then none else some offset := by
  cases tiles with
  | nil => rfl
  | cons shows rest => cases shows <;> rfl

theorem offset_eq {line : BodyLine} (tiles : Tiles bootstrap offset units (line :: lines)) :
    line.offset = offset := by
  cases tiles
  rfl

theorem eq_nil (tiles : Tiles bootstrap offset units []) : units = [] := by
  cases tiles
  rfl

theorem next (tiles : Tiles bootstrap offset units lines) :
    lines.IsChain fun line following => following.offset = line.offset + line.size := by
  induction tiles with
  | nil => exact .nil
  | @cons line units lines shows rest ih =>
    cases lines with
    | nil => exact .singleton line
    | cons following others => exact .cons_cons rest.offset_eq ih

theorem increasing (tiles : Tiles bootstrap offset units lines) :
    lines.Pairwise fun line later => line.offset < later.offset := by
  induction tiles with
  | nil => exact .nil
  | @cons line units lines shows rest ih =>
    refine .cons (fun other later => ?_) ih
    have start := (rest.within other later).1
    have taken := line.size_pos
    omega

theorem last (tiles : Tiles bootstrap offset units lines) {line : BodyLine}
    (final : lines.getLast? = some line) : line.offset + line.size = offset + units.length := by
  induction tiles with
  | nil => cases final
  | @cons first units lines shows rest ih =>
    have fits := shows.size_le
    cases lines with
    | nil =>
      rw [List.getLast?_singleton] at final
      obtain rfl := Option.some.inj final
      have finished := List.drop_eq_nil_iff.mp rest.eq_nil
      omega
    | cons second lines =>
      rw [List.getLast?_cons_cons] at final
      have stop := ih final
      rw [List.length_drop] at stop
      omega

theorem once (tiles : Tiles bootstrap offset units lines) {position : Nat}
    (start : offset ≤ position) (inside : position < offset + units.length) :
    ∃! line, line ∈ lines ∧ line.offset ≤ position ∧ position < line.offset + line.size := by
  induction tiles with
  | nil => exact absurd inside (Nat.not_lt.mpr start)
  | @cons line units lines shows rest ih =>
    by_cases here : position < line.offset + line.size
    · refine ⟨line, ⟨List.mem_cons_self, start, here⟩, ?_⟩
      rintro other ⟨member, before, -⟩
      rcases List.mem_cons.mp member with same | later
      · exact same
      · have behind := (rest.within other later).1
        omega
    · have fits := shows.size_le
      obtain ⟨other, ⟨later, covers⟩, only⟩ :=
        ih (Nat.le_of_not_lt here) (by rw [List.length_drop]; omega)
      refine ⟨other, ⟨List.mem_cons_of_mem line later, covers⟩, ?_⟩
      rintro another ⟨member, covered⟩
      rcases List.mem_cons.mp member with rfl | member
      · exact absurd covered.2 here
      · exact only another ⟨member, covered⟩

end Tiles

/-- Lines that show every unit of a code behind its first, each unit in one line. -/
structure Covers (bootstrap : Bootstrap) (code : Array Int) (lines : List BodyLine) : Prop where
  first : lines.head?.map BodyLine.offset = if 1 < code.size then some 1 else none
  next : lines.IsChain fun line following => following.offset = line.offset + line.size
  increasing : lines.Pairwise fun line later => line.offset < later.offset
  last : ∀ line, lines.getLast? = some line → line.offset + line.size = code.size
  shows : ∀ line ∈ lines, Shows bootstrap (code.toList.drop line.offset) line
  once : ∀ position, 1 ≤ position → position < code.size →
    ∃! line, line ∈ lines ∧ line.offset ≤ position ∧ position < line.offset + line.size

theorem Tiles.covers {code : Array Int} {lines : List BodyLine}
    (tiles : Tiles bootstrap 1 (code.toList.drop 1) lines) : Covers bootstrap code lines where
  first := by
    rw [tiles.head]
    by_cases body : 1 < code.size
    · rw [if_pos body, if_neg]
      rw [List.drop_eq_nil_iff, Array.length_toList]
      omega
    · rw [if_neg body, if_pos]
      rw [List.drop_eq_nil_iff, Array.length_toList]
      omega
  next := tiles.next
  increasing := tiles.increasing
  last line final := by
    have start := (tiles.within line (List.mem_of_getLast? final)).1
    have stop := tiles.last final
    have taken := line.size_pos
    rw [List.length_drop, Array.length_toList] at stop
    omega
  shows line member := by
    have start := (tiles.within line member).1
    have there := tiles.shows line member
    rwa [List.drop_drop, Nat.add_sub_of_le start] at there
  once position start inside := by
    refine tiles.once start ?_
    rw [List.length_drop, Array.length_toList]
    omega

/-! ### The text of a body -/

/-- The offset that a line of a listing begins with. -/
def readOffset? (text : String) : Option Int :=
  Text.integer? ((text.toList.dropWhile (· = ' ')).takeWhile (· ≠ ':'))

theorem readOffset?_label (offset : Nat) (rest : String) :
    readOffset? (renderLine.label offset ++ rest) = some (offset : Int) := by
  have digit {c : Char} (member : c ∈ (Text.padLeft 4 '0' (Text.decimal offset)).toList) :
      c ≠ ' ' ∧ c ≠ ':' := by
    have digit := Text.isAsciiDigit_of_mem_padLeft member
    constructor <;> rintro rfl <;> revert digit <;> decide
  have whole : (renderLine.label offset ++ rest).toList = List.replicate 4 ' ' ++
      ((Text.padLeft 4 '0' (Text.decimal offset)).toList ++ (':' :: ' ' :: rest.toList)) := by
    simp [renderLine.label, String.toList_append]
  obtain ⟨c, digits, same⟩ := List.exists_cons_of_ne_nil (Text.padLeft_ne_nil 4 offset)
  have start : ((Text.padLeft 4 '0' (Text.decimal offset)).toList ++
      (':' :: ' ' :: rest.toList)).dropWhile (· = ' ') =
        (Text.padLeft 4 '0' (Text.decimal offset)).toList ++ (':' :: ' ' :: rest.toList) := by
    rw [same, List.cons_append, List.dropWhile_cons_of_neg]
    simpa using (digit (same ▸ List.mem_cons_self)).1
  rw [readOffset?, whole, List.dropWhile_append_of_pos (by simp), start,
    List.takeWhile_append_of_pos fun c member => by simpa using (digit member).2,
    List.takeWhile_cons_of_neg (by simp), List.append_nil, Text.integer?_padLeft]

variable {table : Table}

theorem renderLine_ok {line : BodyLine} (positive : 0 ≤ line.leading)
    (writable : ∀ offset unit, line = .unit offset unit → table.isWritable unit = true) :
    ∃ text, table.renderLine line = .ok text ∧ readOffset? text = some (line.offset : Int) := by
  suffices ∃ rest, table.renderLine line = .ok (renderLine.label line.offset ++ rest) by
    obtain ⟨rest, shown⟩ := this
    exact ⟨_, shown, readOffset?_label line.offset rest⟩
  obtain ⟨name, named⟩ := table.wordName_isOk positive
  cases line with
  | unit offset unit =>
    have named : table.wordName unit = .ok name := named
    rw [renderLine, writeUnit, if_pos (writable offset unit rfl), named]
    simp only [ok_bind, String.append_assoc]
    exact ⟨_, rfl⟩
  | wide offset unit value =>
    have named : table.wordName unit = .ok name := named
    rw [renderLine, named]
    simp only [ok_bind, String.append_assoc]
    exact ⟨_, rfl⟩
  | text offset unit bytes =>
    have named : table.wordName unit = .ok name := named
    rw [renderLine, named]
    simp only [ok_bind, String.append_assoc]
    exact ⟨_, rfl⟩

theorem renderLine_beyond {offset : Nat} {unit : Int} (beyond : table.isWritable unit = false) :
    table.renderLine (.unit offset unit) = .error (.tooManyDigits {}) := by
  rw [renderLine, writeUnit, if_neg (by simp [beyond])]
  rfl

/-- Lines that show units of the table can be written up to the first whose unit cannot. -/
theorem mapM_renderLine {lines : List BodyLine} (positive : ∀ line ∈ lines, 0 ≤ line.leading) :
    ((∀ offset unit, BodyLine.unit offset unit ∈ lines → table.isWritable unit = true) →
      ∃ texts, lines.mapM table.renderLine = .ok texts ∧
        texts.map readOffset? = lines.map fun line => some (line.offset : Int)) ∧
    ((∃ offset unit, BodyLine.unit offset unit ∈ lines ∧ table.isWritable unit = false) →
      lines.mapM table.renderLine = .error (.tooManyDigits {})) := by
  induction lines with
  | nil => exact ⟨fun _ => ⟨[], rfl, rfl⟩, by simp⟩
  | cons line lines ih =>
    obtain ⟨here, later⟩ := List.forall_mem_cons.mp positive
    obtain ⟨written, stopped⟩ := ih later
    rw [List.mapM_cons]
    by_cases shown : ∀ offset unit, line = .unit offset unit → table.isWritable unit = true
    · obtain ⟨text, rendered, offset⟩ := renderLine_ok here shown
      rw [rendered]
      refine ⟨fun writable => ?_, ?_⟩
      · obtain ⟨texts, rest, offsets⟩ := written fun offset unit member =>
          writable offset unit (List.mem_cons_of_mem line member)
        exact ⟨text :: texts, by rw [rest]; rfl, by rw [List.map_cons, offset, offsets]; rfl⟩
      · rintro ⟨place, unit, member, beyond⟩
        rcases List.mem_cons.mp member with rfl | member
        · simp [shown place unit rfl] at beyond
        · rw [stopped ⟨place, unit, member, beyond⟩]
          rfl
    · obtain ⟨place, unit, rfl, beyond⟩ :
          ∃ place unit, line = .unit place unit ∧ table.isWritable unit = false := by
        simpa using shown
      refine ⟨fun writable => ?_, fun _ => by rw [renderLine_beyond beyond]; rfl⟩
      simp [writable place unit List.mem_cons_self] at beyond

theorem Tiles.leading_mem {bootstrap : Bootstrap} {offset : Nat} {units : List Int}
    {lines : List BodyLine} (tiles : Tiles bootstrap offset units lines) :
    ∀ line ∈ lines, line.leading ∈ units := by
  intro line member
  refine List.drop_subset _ _ (?_ : line.leading ∈ units.drop (line.offset - offset))
  have shows := tiles.shows line member
  generalize units.drop (line.offset - offset) = front at shows ⊢
  cases shows <;> exact List.mem_cons_self

theorem bodyLines_tiles (bootstrap : Bootstrap) (code : Array Int) :
    ∃ lines, bodyLines bootstrap code = .ok lines ∧ Tiles bootstrap 1 (code.toList.drop 1) lines :=
  bodyLinesFrom_tiles bootstrap #[] 1 (code.toList.drop 1)

theorem disassemble_isOk {code : Array Int} (positive : ∀ unit ∈ code, 0 ≤ unit)
    (writable : ∀ unit ∈ code, table.isWritable unit = true) :
    ∃ texts, table.disassemble code = .ok texts := by
  obtain ⟨lines, same, tiles⟩ := bodyLines_tiles table.bootstrap code
  have inside (line : BodyLine) (member : line ∈ lines) : line.leading ∈ code :=
    Array.mem_toList_iff.mp (List.drop_subset _ _ (tiles.leading_mem line member))
  obtain ⟨texts, shown, -⟩ := (mapM_renderLine fun line member =>
    positive _ (inside line member)).1 fun offset unit member => writable unit (inside _ member)
  exact ⟨texts, by rw [disassemble, same]; exact shown⟩

/-- The lines of any code cover its body: each unit is shown once, and no string is cut off. They
are written, each beginning with its offset, unless one of them shows a unit with too many digits. -/
theorem bodyLines_cover (table : Table) {code : Array Int} (positive : ∀ unit ∈ code, 0 ≤ unit) :
    ∃ lines, bodyLines table.bootstrap code = .ok lines ∧ Covers table.bootstrap code lines ∧
      ((∀ offset unit, BodyLine.unit offset unit ∈ lines → table.isWritable unit = true) →
        ∃ texts, table.disassemble code = .ok texts ∧
          texts.map readOffset? = lines.map fun line => some (line.offset : Int)) ∧
      ((∃ offset unit, BodyLine.unit offset unit ∈ lines ∧ table.isWritable unit = false) →
        table.disassemble code = .error (.tooManyDigits {})) := by
  obtain ⟨lines, same, tiles⟩ := bodyLines_tiles table.bootstrap code
  refine ⟨lines, same, tiles.covers, ?_⟩
  rw [disassemble, same]
  refine mapM_renderLine fun line member => positive _ ?_
  exact Array.mem_toList_iff.mp (List.drop_subset _ _ (tiles.leading_mem line member))

def literalTable : Table where
  bootstrap := { litstring := some 1, wideInt := some 0 }
  names := #["int", "lit", "dup"]

/-- A wide integer, a string and a unit of more than 16 bits; behind them, the words of both where
too few units are left. -/
def literalCode : Array Int := #[0, 0, 0, 40000, 1, 609, 25088, 70000, 1, 65280, 0, 2]

theorem bodyLines_cover_sample :
    (∀ unit ∈ literalCode, 0 ≤ unit) ∧
    (∃ lines, bodyLines literalTable.bootstrap literalCode = .ok lines ∧
      Covers literalTable.bootstrap literalCode lines ∧
      lines.map BodyLine.size = [3, 3, 1, 1, 1, 1, 1]) ∧
    literalTable.disassemble literalCode = .ok
      ["    0001: int 40000", "    0004: lit b'ab'", "    0007: 70000  +4464  ?",
        "    0008:     1     +1  lit", "    0009: 65280   -256  ?", "    0010:     0     +0  int",
        "    0011:     2     +2  dup"] := by
  have positive : ∀ unit ∈ literalCode, 0 ≤ unit := by decide
  obtain ⟨lines, same, covers, -⟩ := bodyLines_cover literalTable positive
  have known : bodyLines literalTable.bootstrap literalCode =
      .ok [.wide 1 0 40000, .text 4 1 [97, 98], .unit 7 70000, .unit 8 1, .unit 9 65280, .unit 10 0,
        .unit 11 2] := by decide +kernel
  obtain rfl := Except.ok.inj (same.symm.trans known)
  exact ⟨positive, ⟨_, same, covers, by decide +kernel⟩, by decide +kernel⟩

/-- A unit of 4301 digits cannot be written. -/
theorem unit_beyond_digits :
    (∀ unit ∈ #[0, 10 ^ Text.maxDigits], (0 : Int) ≤ unit) ∧
      ({} : Table).disassemble #[0, 10 ^ Text.maxDigits] = .error (.tooManyDigits {}) := by
  constructor <;> decide +kernel

end Table

end ThreadedCode
