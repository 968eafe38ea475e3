/-!
# Bytes and characters

What a host hands over as text is a string of bytes, which need not be well formed in UTF-8. It is
read character by character: bytes that encode a character count as that character, and every byte
that begins no character counts as the replacement character.
-/

namespace StackScript.Utf8

/-- What a byte counts as that begins no character. -/
def replacement : Char := '\ufffd'

/-- The character that a string of bytes begins with. No character takes more than four bytes. -/
def first? (bytes : List UInt8) : Option Char := (bytes.take 4).toByteArray.utf8DecodeChar? 0

/-- The characters of a string of bytes. -/
def chars : List UInt8 → List Char
  | [] => []
  | b :: bs =>
    match first? (b :: bs) with
    | some c => c :: chars (bs.drop (c.utf8Size - 1))
    | none => replacement :: chars bs
termination_by bytes => bytes.length
decreasing_by all_goals simp only [List.length_drop, List.length_cons]; omega

/-- A string of bytes as text. -/
def decode (bytes : List UInt8) : String := String.ofList (chars bytes)

/-- The bytes of characters. -/
def encodeChars (cs : List Char) : List UInt8 := cs.flatMap String.utf8EncodeChar

/-- The bytes of a text. -/
def encode (s : String) : List UInt8 := encodeChars s.toList

/-- The bytes are those of a text. -/
def WellFormed (bytes : List UInt8) : Prop := ∃ cs, bytes = encodeChars cs

end StackScript.Utf8
