import Mathlib
import StackScript.Text.Utf8

/-!
# Reading bytes as characters

Bytes that encode characters are read as these characters. All others are lost: a string of bytes
can be told from its characters exactly if it is **well formed** (`wellFormed_iff`).

Where a character begins, reading can be taken apart (`chars_append`): no character reaches across
a byte that begins one, whatever stands in front of it.
-/

namespace StackScript.Utf8

open String

/-! ## The first character -/

theorem first?_encodeChar (c : Char) (rest : List UInt8) :
    first? (utf8EncodeChar c ++ rest) = some c := by
  have hlength : (utf8EncodeChar c).length ≤ 4 := by
    rw [length_utf8EncodeChar]
    exact c.utf8Size_le_four
  have hsingle : (utf8EncodeChar c).toByteArray = [c].utf8Encode := by
    simp [List.utf8Encode]
  rw [first?, List.take_append, List.take_of_length_le hlength, List.toByteArray_append, hsingle]
  exact List.utf8DecodeChar?_utf8Encode_singleton_append

theorem exists_of_first? {bytes : List UInt8} {c : Char} (h : first? bytes = some c) :
    ∃ rest, bytes = utf8EncodeChar c ++ rest := by
  obtain ⟨l, hl⟩ := ByteArray.exists_of_utf8DecodeChar?_eq_some h
  have hbytes : bytes.take 4 = utf8EncodeChar c ++ l.data.toList := by
    refine List.toByteArray_inj.1 (hl.trans ?_)
    rw [List.toByteArray_append]
    congr 1
    exact ByteArray.ext (by simp)
  refine ⟨l.data.toList ++ bytes.drop 4, ?_⟩
  rw [← List.append_assoc, ← hbytes, List.take_append_drop]

/-! ## All characters -/

theorem chars_encodeChar (c : Char) (rest : List UInt8) :
    chars (utf8EncodeChar c ++ rest) = c :: chars rest := by
  have hsize := length_utf8EncodeChar c
  have hfirst := first?_encodeChar c rest
  obtain ⟨b, bs, hcons⟩ := List.exists_cons_of_ne_nil (utf8EncodeChar_ne_nil (c := c))
  rw [hcons] at hsize hfirst ⊢
  rw [List.cons_append] at hfirst ⊢
  rw [chars, hfirst]
  dsimp only
  rw [← hsize, List.length_cons, Nat.add_sub_cancel, List.drop_left]

theorem chars_of_first?_eq_none {b : UInt8} {bs : List UInt8} (h : first? (b :: bs) = none) :
    chars (b :: bs) = replacement :: chars bs := by
  rw [chars, h]

/-- Bytes begin with the encoding of a character, or their first one is replaced. -/
theorem chars_induction {P : List UInt8 → Prop} (nil : P [])
    (encoded : ∀ c rest, P rest → P (utf8EncodeChar c ++ rest))
    (replaced : ∀ b rest, first? (b :: rest) = none → P rest → P (b :: rest))
    (bytes : List UInt8) : P bytes := by
  induction hlength : bytes.length using Nat.strong_induction_on generalizing bytes with
  | _ n ih =>
    subst hlength
    cases bytes with
    | nil => exact nil
    | cons b rest =>
      cases hfirst : first? (b :: rest) with
      | none => exact replaced b rest hfirst (ih _ (by simp) rest rfl)
      | some c =>
        obtain ⟨behind, hsplit⟩ := exists_of_first? hfirst
        rw [hsplit]
        refine encoded c behind (ih _ ?_ behind rfl)
        have hpositive := c.utf8Size_pos
        rw [hsplit, List.length_append, length_utf8EncodeChar]
        omega

theorem chars_encodeChars (cs : List Char) (rest : List UInt8) :
    chars (encodeChars cs ++ rest) = cs ++ chars rest := by
  induction cs with
  | nil => rfl
  | cons c cs ih =>
    rw [encodeChars, List.flatMap_cons, List.append_assoc, chars_encodeChar]
    exact congrArg (c :: ·) ih

theorem chars_encode (s : String) (rest : List UInt8) :
    chars (encode s ++ rest) = s.toList ++ chars rest :=
  chars_encodeChars s.toList rest

/-- Exactly the well-formed bytes can be told from their characters. -/
theorem wellFormed_iff {bytes : List UInt8} :
    WellFormed bytes ↔ encodeChars (chars bytes) = bytes := by
  constructor
  · rintro ⟨cs, rfl⟩
    have hchars := chars_encodeChars cs []
    rw [List.append_nil, chars, List.append_nil] at hchars
    rw [hchars]
  · exact fun h => ⟨_, h.symm⟩

/-! ## Where characters begin -/

/-- A byte that begins a character stands in front of all others of its character. -/
theorem eq_nil_of_isFirstByte {c : Char} {front behind : List UInt8} {x : UInt8}
    (hx : x.IsUTF8FirstByte) (h : utf8EncodeChar c = front ++ x :: behind) : front = [] := by
  have hlt : front.length < (utf8EncodeChar c).length := by simp [h]
  have hget : (utf8EncodeChar c)[front.length] = x := by simp [h]
  have hfirst := (@UInt8.isUTF8FirstByte_getElem_utf8EncodeChar c front.length hlt).1
  rw [hget] at hfirst
  exact List.length_eq_zero_iff.1 (hfirst hx)

/-- Characters do not reach across the beginning of another one. -/
theorem chars_append (front : List UInt8) {x : UInt8} (hx : x.IsUTF8FirstByte)
    (rest : List UInt8) : chars (front ++ x :: rest) = chars front ++ chars (x :: rest) := by
  induction front using chars_induction with
  | nil => simp [chars]
  | encoded c front ih =>
    rw [List.append_assoc, chars_encodeChar, chars_encodeChar, ih, List.cons_append]
  | replaced b front hnone ih =>
    rw [chars_of_first?_eq_none hnone, List.cons_append, List.cons_append, ← ih]
    refine chars_of_first?_eq_none ?_
    by_contra hsome
    obtain ⟨c, hc⟩ := Option.ne_none_iff_exists'.1 hsome
    obtain ⟨behind, hsplit⟩ := exists_of_first? hc
    rw [← List.cons_append] at hsplit
    rcases List.append_eq_append_iff.1 hsplit with ⟨inner, hencoded, hbehind⟩ | ⟨inner, hfront, -⟩
    · cases inner with
      | nil =>
        rw [List.append_nil] at hencoded
        have hwhole := first?_encodeChar c []
        rw [List.append_nil, hencoded, hnone] at hwhole
        cases hwhole
      | cons y inner =>
        obtain ⟨rfl, -⟩ := List.cons.inj hbehind
        cases eq_nil_of_isFirstByte hx hencoded
    · have hinside := first?_encodeChar c inner
      rw [← hfront, hnone] at hinside
      cases hinside

/-- A character of one byte comes from that byte. -/
theorem mem_of_mem_chars {c : Char} {x : UInt8} (hc : utf8EncodeChar c = [x])
    (hreplacement : c ≠ replacement) {bytes : List UInt8} (h : c ∈ chars bytes) : x ∈ bytes := by
  induction bytes using chars_induction with
  | nil => simp [chars] at h
  | encoded d rest ih =>
    rw [chars_encodeChar] at h
    rcases List.mem_cons.1 h with rfl | h
    · simp [hc]
    · exact List.mem_append_right _ (ih h)
  | replaced b rest hnone ih =>
    rw [chars_of_first?_eq_none hnone] at h
    rcases List.mem_cons.1 h with heq | h
    · exact absurd heq hreplacement
    · exact List.mem_cons_of_mem _ (ih h)

end StackScript.Utf8
