import StackScript.Proofs.Text.Utf8
import StackScript.Value.Raw

/-!
# Raw values and values

A raw value is printed byte by byte. Read as characters, that is what the value prints that programs
see in its place (`RawValue.decode_render`): quotes and brackets are single bytes that no character
reaches across. Nothing is lost on the way exactly if all texts are well formed
(`RawValue.raw_read_eq_iff`).
-/

namespace StackScript

open StackScript.Utf8

namespace RawValue

/-- All texts of the value are well formed. -/
inductive WellFormed : RawValue → Prop
  | null : WellFormed .null
  | bool (b : Bool) : WellFormed (.bool b)
  | int (n : Int64) : WellFormed (.int n)
  | float (x : Float) : WellFormed (.float x)
  | text {bytes : List UInt8} : Utf8.WellFormed bytes → WellFormed (.text bytes)
  | array {vs : List RawValue} : (∀ v ∈ vs, WellFormed v) → WellFormed (.array vs)
  | handle (h : Handle) : WellFormed (.handle h)

theorem wellFormed_text_iff {bytes : List UInt8} :
    WellFormed (.text bytes) ↔ Utf8.WellFormed bytes :=
  ⟨fun h => by cases h; assumption, .text⟩

theorem wellFormed_array_iff {vs : List RawValue} :
    WellFormed (.array vs) ↔ ∀ v ∈ vs, v.WellFormed :=
  ⟨fun h => by cases h; assumption, .array⟩

/-! ## What is lost -/

theorem encode_decode_eq_iff {bytes : List UInt8} :
    encode (decode bytes) = bytes ↔ Utf8.WellFormed bytes := by
  rw [wellFormed_iff, encode, decode, String.toList_ofList]

mutual

/-- Exactly the well-formed values are the same as what programs see. -/
theorem raw_read_eq_iff : ∀ v : RawValue, v.read.raw = v ↔ v.WellFormed
  | .null => iff_of_true rfl .null
  | .bool b => iff_of_true rfl (.bool b)
  | .int n => iff_of_true rfl (.int n)
  | .float x => iff_of_true rfl (.float x)
  | .text bytes => by
    rw [read, Value.raw, text.injEq, encode_decode_eq_iff, wellFormed_text_iff]
  | .array vs => by
    rw [read, Value.raw, array.injEq, rawAll_readAll_eq_iff vs, wellFormed_array_iff]
  | .handle h => iff_of_true rfl (.handle h)

theorem rawAll_readAll_eq_iff :
    ∀ vs : List RawValue, Value.rawAll (readAll vs) = vs ↔ ∀ v ∈ vs, v.WellFormed
  | [] => by simp [readAll, Value.rawAll]
  | v :: vs => by
    rw [readAll, Value.rawAll, List.cons.injEq, raw_read_eq_iff v, rawAll_readAll_eq_iff vs,
      List.forall_mem_cons]

end

/-! ## Printing -/

theorem chars_quoted (bytes rest : List UInt8) :
    chars (encode "\"" ++ bytes ++ encode "\"" ++ rest) =
      '"' :: (chars bytes ++ '"' :: chars rest) := by
  have hquote : encode "\"" = [0x22] := by decide
  have hfirst : UInt8.IsUTF8FirstByte 0x22 := .inl (by decide)
  have hbehind := chars_encode "\"" rest
  rw [hquote] at hbehind
  rw [List.append_assoc, List.append_assoc, chars_encode, hquote, List.singleton_append,
    chars_append bytes hfirst, ← List.singleton_append, hbehind]
  rfl

mutual

theorem chars_render : ∀ (v : RawValue) (rest : List UInt8),
    chars (v.render ++ rest) = v.read.render.toList ++ chars rest
  | .null, _ | .bool _, _ | .int _, _ | .float _, _ | .handle _, _ => by
    rw [render, read, chars_encode]
  | .text bytes, rest => by
    rw [render, read, chars_quoted]
    simp [Value.render, decode]
  | .array vs, rest => by
    rw [render, read, List.append_assoc, List.append_assoc, chars_encode, chars_renderAll,
      chars_encode]
    simp [Value.render]

theorem chars_renderAll : ∀ (vs : List RawValue) (rest : List UInt8),
    chars (renderAll vs ++ rest) = (Value.renderAll (readAll vs)).toList ++ chars rest
  | [], _ => rfl
  | [v], rest => by rw [renderAll, readAll, readAll, Value.renderAll, chars_render]
  | v :: w :: vs, rest => by
    have hrest := chars_renderAll (w :: vs) rest
    rw [renderAll, List.append_assoc, List.append_assoc, chars_render, chars_encode, hrest]
    · simp [readAll, Value.renderAll]
    · simp

end

/-- A raw value prints what the value prints that programs see. -/
theorem decode_render (v : RawValue) : decode v.render = v.read.render := by
  have hchars := chars_render v []
  rw [List.append_nil, chars, List.append_nil] at hchars
  rw [decode, hchars, String.ofList_toList]

end RawValue

end StackScript
