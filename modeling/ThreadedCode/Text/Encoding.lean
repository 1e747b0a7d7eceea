/-!
# Text encodings

Encodings of string literals as bytes, and strict UTF-8 for names and files.
-/

namespace ThreadedCode.Text

/-- An encoding of texts as bytes. It may have none for a text. -/
abbrev Codec := String → Option (List UInt8)

def utf8Bytes (text : List Char) : List UInt8 :=
  text.flatMap String.utf8EncodeChar

def utf8 : Codec := fun text => some (utf8Bytes text.toList)

/-- One byte for each character, whose code points have to be below `limit`. -/
def singleBytes (limit : Nat) : Codec := fun text =>
  if text.toList.all (·.toNat < limit) then some (text.toList.map (·.toNat.toUInt8)) else none

/-- The one or two 16-bit values of a character in UTF-16. -/
def utf16Values (c : Char) : List Nat :=
  if c.toNat < 0x10000 then [c.toNat]
  else [0xD800 + (c.toNat - 0x10000) / 0x400, 0xDC00 + (c.toNat - 0x10000) % 0x400]

/-- UTF-16 with the bytes of each 16-bit value in the order of `bytes`. -/
def utf16 (bytes : UInt8 → UInt8 → List UInt8) : Codec := fun text =>
  some ((text.toList.flatMap utf16Values).flatMap fun value =>
    bytes (value / 256).toUInt8 (value % 256).toUInt8)

/-- The text of strict UTF-8 bytes. -/
def ofUtf8? (bytes : List UInt8) : Option String :=
  String.fromUTF8? bytes.toByteArray

end ThreadedCode.Text
