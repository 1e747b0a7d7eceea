import ThreadedCode.Proofs.BinaryForm

/-!
# Loaded tables

Bytes that were written by nothing can still be read: a number behind the version that means
nothing, a last text that the end of the data cuts off, data behind the last code. What comes of
them is always a table that can be written, and reading what is written gives that table back.
-/

namespace ThreadedCode.Table

/-! ### What reading can give -/

def Gives {α : Type} (read : List UInt8 → Except DecodeError (α × List UInt8)) (P : α → Prop) :
    Prop :=
  ∀ data item rest, read data = .ok (item, rest) → P item

theorem wordValue_le (low high : UInt8) : low.toNat + 256 * high.toNat ≤ 65535 := by
  have lowBound := low.toNat_lt
  have highBound := high.toNat_lt
  omega

theorem gives_field : Gives readField fun value => value ≤ 65535 := by
  intro data value rest read
  unfold readField at read
  split at read
  · obtain ⟨rfl, -⟩ := Prod.mk.inj (Except.ok.inj read)
    exact wordValue_le _ _
  · cases read

theorem gives_unit : Gives readUnit fun unit => 0 ≤ unit ∧ unit ≤ 65535 := by
  intro data unit rest read
  unfold readUnit at read
  split at read
  · obtain ⟨rfl, -⟩ := Prod.mk.inj (Except.ok.inj read)
    exact ⟨Int.natCast_nonneg _, Int.ofNat_le.mpr (wordValue_le _ _)⟩
  · cases read

theorem utf8ByteSize_of_ofUtf8? {bytes : List UInt8} {text : String}
    (valid : Text.ofUtf8? bytes = some text) : text.utf8ByteSize = bytes.length := by
  unfold Text.ofUtf8? String.fromUTF8? at valid
  split at valid
  · obtain rfl := Option.some.inj valid
    exact List.size_toByteArray
  · cases valid

theorem gives_text : Gives readText fun text => text.utf8ByteSize ≤ 65535 := by
  intro data text rest read
  obtain ⟨⟨length, bytes⟩, field, read⟩ := bind_ok_iff.mp read
  have bound : length ≤ 65535 := gives_field _ _ _ field
  dsimp only at read
  split at read
  · rename_i valid
    obtain ⟨rfl, -⟩ := Prod.mk.inj (Except.ok.inj read)
    -- The length that is stated may be beyond the end of the data, but never below the text's.
    have taken := List.length_take_le length bytes
    rw [utf8ByteSize_of_ofUtf8? valid]
    omega
  · cases read

theorem gives_symbol : Gives readSymbol fun symbol =>
    (symbol.1.utf8ByteSize ≤ 65535 ∧ (symbol.2.getD "").utf8ByteSize ≤ 65535) ∧
      symbol.2 ≠ some "" := by
  intro data symbol rest read
  obtain ⟨⟨name, afterName⟩, nameRead, read⟩ := bind_ok_iff.mp read
  obtain ⟨⟨constant, afterConstant⟩, constantRead, read⟩ := bind_ok_iff.mp read
  obtain ⟨rfl, -⟩ := Prod.mk.inj (Except.ok.inj read)
  have nameBound := gives_text _ _ _ nameRead
  have constantBound := gives_text _ _ _ constantRead
  dsimp only
  split
  · exact ⟨⟨nameBound, by simp⟩, by simp⟩
  · rename_i nonempty
    exact ⟨⟨nameBound, constantBound⟩, fun empty => nonempty (Option.some.inj empty)⟩

theorem gives_many {α : Type} {read : List UInt8 → Except DecodeError (α × List UInt8)}
    {P : α → Prop} (each : Gives read P) (count : Nat) :
    Gives (readMany read #[] count) fun items => items.size = count ∧ ∀ item ∈ items, P item := by
  have grown : ∀ (count : Nat) (done : Array α), (∀ item ∈ done, P item) →
      Gives (readMany read done count) fun items =>
        items.size = done.size + count ∧ ∀ item ∈ items, P item := by
    intro count
    induction count with
    | zero =>
      intro done before data items rest read
      obtain ⟨rfl, -⟩ := Prod.mk.inj (Except.ok.inj read)
      exact ⟨rfl, before⟩
    | succ count ih =>
      intro done before data items rest read
      rw [readMany] at read
      split at read
      · rename_i item next found
        have pushed : ∀ other ∈ done.push item, P other := by
          intro other member
          rcases Array.mem_push.mp member with old | rfl
          · exact before other old
          · exact each _ _ _ found
        obtain ⟨size, all⟩ := ih (done.push item) pushed _ _ _ read
        rw [Array.size_push] at size
        exact ⟨by omega, all⟩
      · cases read
  intro data items rest read
  have all := grown count #[] (by simp) data items rest read
  simpa using all

theorem gives_code : Gives readCode fun code =>
    code.size ≤ 65535 ∧ ∀ unit ∈ code, 0 ≤ unit ∧ unit ≤ 65535 := by
  intro data code rest read
  obtain ⟨⟨length, units⟩, field, read⟩ := bind_ok_iff.mp read
  obtain ⟨rfl, range⟩ := gives_many gives_unit length _ _ _ read
  exact ⟨gives_field _ _ _ field, range⟩

theorem gives_index : Gives readIndex fun index =>
    ∀ value, index = some value → 0 ≤ value ∧ value < 65535 := by
  intro data index rest read value present
  obtain ⟨⟨number, remaining⟩, field, read⟩ := bind_ok_iff.mp read
  obtain ⟨rfl, -⟩ := Prod.mk.inj (Except.ok.inj read)
  have bound : number ≤ 65535 := gives_field _ _ _ field
  split at present
  · cases present
  · rename_i other
    obtain rfl := Option.some.inj present
    unfold noIndex at other
    omega

theorem gives_bootstrap : Gives readBootstrap fun bootstrap =>
    ∀ value, some value ∈ bootstrap.toList → 0 ≤ value ∧ value < 65535 := by
  intro data bootstrap rest read value member
  obtain ⟨⟨litstring, afterFirst⟩, first, read⟩ := bind_ok_iff.mp read
  obtain ⟨⟨pushVariable, afterSecond⟩, second, read⟩ := bind_ok_iff.mp read
  obtain ⟨⟨falseWord, afterThird⟩, third, read⟩ := bind_ok_iff.mp read
  obtain ⟨⟨oneWord, afterFourth⟩, fourth, read⟩ := bind_ok_iff.mp read
  obtain ⟨⟨wideInt, afterFifth⟩, fifth, read⟩ := bind_ok_iff.mp read
  obtain ⟨rfl, -⟩ := Prod.mk.inj (Except.ok.inj read)
  simp only [Bootstrap.toList, List.mem_cons, List.not_mem_nil, or_false] at member
  rcases member with same | same | same | same | same
  · exact gives_index _ _ _ first value same.symm
  · exact gives_index _ _ _ second value same.symm
  · exact gives_index _ _ _ third value same.symm
  · exact gives_index _ _ _ fourth value same.symm
  · exact gives_index _ _ _ fifth value same.symm

/-! ### Whole tables -/

namespace Parts

/-- Parts that all fit the binary form. -/
structure Storable (parts : Parts) : Prop where
  natives : parts.natives ≤ 65535
  compiled : parts.codes.size ≤ 65535
  slotCount : parts.slots.size ≤ 65535
  bootstrap : ∀ value, some value ∈ parts.bootstrap.toList → 0 ≤ value ∧ value ≤ 65535
  symbols : ∀ symbol ∈ parts.symbols,
    symbol.1.utf8ByteSize ≤ 65535 ∧ (symbol.2.getD "").utf8ByteSize ≤ 65535
  slots : ∀ name ∈ parts.slots, name.utf8ByteSize ≤ 65535
  codes : ∀ code ∈ parts.codes, code.size ≤ 65535 ∧ ∀ unit ∈ code, 0 ≤ unit ∧ unit ≤ 65535

theorem Storable.encode {parts : Parts} (storable : parts.Storable) :
    ∃ bytes, parts.table.encode = .ok bytes := by
  rw [encode_isOk_iff, headerFields_table, symbols_table, compiledCodes_table]
  refine ⟨?_, ?_, ?_, ?_, ?_⟩
  · have natives := storable.natives
    have compiled := storable.compiled
    have slots := storable.slotCount
    simp only [List.forall_mem_cons, List.not_mem_nil, false_imp_iff, implies_true, and_true]
    omega
  · intro index member
    cases index with
    | none => simp [noIndex]
    | some value => exact storable.bootstrap value member
  · intro symbol member
    exact encodeSymbol_isOk_iff.mpr (storable.symbols symbol (Array.mem_toList_iff.mp member))
  · intro name member
    exact storable.slots name (Array.mem_toList_iff.mp member)
  · intro code member
    exact storable.codes code (Array.mem_toList_iff.mp member)

end Parts

theorem decodeBody_ok {data : List UInt8} {table : Table} (loaded : decodeBody data = .ok table) :
    ∃ parts : Parts, table = parts.table ∧ parts.Canonical ∧ parts.Storable := by
  obtain ⟨⟨natives, afterNatives⟩, nativeRead, loaded⟩ := bind_ok_iff.mp loaded
  obtain ⟨⟨compiled, afterCompiled⟩, compiledRead, loaded⟩ := bind_ok_iff.mp loaded
  obtain ⟨⟨slotCount, afterCounts⟩, slotRead, loaded⟩ := bind_ok_iff.mp loaded
  obtain ⟨⟨bootstrap, afterBootstrap⟩, bootstrapRead, loaded⟩ := bind_ok_iff.mp loaded
  obtain ⟨⟨symbols, afterSymbols⟩, symbolsRead, loaded⟩ := bind_ok_iff.mp loaded
  obtain ⟨⟨slots, afterSlots⟩, slotsRead, loaded⟩ := bind_ok_iff.mp loaded
  obtain ⟨⟨codes, trailing⟩, codesRead, loaded⟩ := bind_ok_iff.mp loaded
  obtain rfl := Except.ok.inj loaded
  obtain ⟨rowCount, rows⟩ := gives_many gives_symbol _ _ _ _ symbolsRead
  obtain ⟨rfl, texts⟩ := gives_many gives_text _ _ _ _ slotsRead
  obtain ⟨rfl, units⟩ := gives_many gives_code _ _ _ _ codesRead
  have indices := gives_bootstrap _ _ _ bootstrapRead
  refine ⟨⟨natives, bootstrap, slots, symbols, codes, rowCount⟩, rfl, ?_, ?_⟩
  · exact ⟨fun value member => (indices value member).2,
      fun symbol member => (rows symbol member).2⟩
  · refine ⟨gives_field _ _ _ nativeRead, gives_field _ _ _ compiledRead,
      gives_field _ _ _ slotRead, ?_, fun symbol member => (rows symbol member).1, texts, units⟩
    intro value member
    obtain ⟨low, high⟩ := indices value member
    exact ⟨low, Int.le_of_lt high⟩

theorem decode_ok {data : List UInt8} {table : Table} (loaded : decode data = .ok table) :
    ∃ parts : Parts, table = parts.table ∧ parts.Canonical ∧ parts.Storable := by
  unfold decode at loaded
  split at loaded
  · cases loaded
  · split at loaded
    · cases loaded
    · split at loaded
      · cases loaded
      · exact decodeBody_ok loaded

/-- Whatever bytes a table is loaded from, it has a binary form, and loading that gives the same
table again. -/
theorem loaded_normal_form {data : List UInt8} {table : Table} (loaded : decode data = .ok table) :
    ∃ bytes, table.encode = .ok bytes ∧ decode bytes = .ok table := by
  obtain ⟨parts, rfl, canonical, storable⟩ := decode_ok loaded
  obtain ⟨bytes, encoded⟩ := storable.encode
  exact ⟨bytes, encoded, Parts.decode_encode canonical encoded⟩

/-- Bytes that no table is written as: a number behind the version, an index beyond the only row,
and a last text that should have nine bytes and has one. -/
def cutOffBytes : List UInt8 :=
  magic ++ [1, 0, 0xAB, 0xCD, 1, 0, 0, 0, 1, 0] ++
    [0xFE, 0xFF, 0xFF, 0xFF, 0xFF, 0xFF, 0xFF, 0xFF, 0xFF, 0xFF] ++ [1, 0, 0x61, 0, 0] ++
    [9, 0, 0x78]

theorem loaded_normal_form_sample :
    ∃ table bytes, decode cutOffBytes = .ok table ∧ table.variableNames = #["x"] ∧
      table.bootstrap.litstring = some 65534 ∧ table.constants = #[none] ∧
      table.encode = .ok bytes ∧ bytes ≠ cutOffBytes ∧ decode bytes = .ok table := by
  have read : ∃ table, decode cutOffBytes = .ok table ∧ table.variableNames = #["x"] ∧
      table.bootstrap.litstring = some 65534 ∧ table.constants = #[none] ∧
      table.encode ≠ .ok cutOffBytes := ⟨_, rfl, by decide +kernel⟩
  obtain ⟨table, loaded, slots, index, constants, other⟩ := read
  obtain ⟨bytes, encoded, back⟩ := loaded_normal_form loaded
  refine ⟨table, bytes, loaded, slots, index, constants, encoded, ?_, back⟩
  rintro rfl
  exact other encoded

end ThreadedCode.Table
