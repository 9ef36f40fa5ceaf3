import Mathlib.Data.List.TakeWhile

/-!
# Text and its bytes

Text is a list of characters, `encode` gives its UTF-8 and `decode` reads it back
(`decode_eq_some`). Text is cut at a number of bytes, which is nowhere when a character
stands across it (`splitAt_eq_some`).

What is asked of bytes below `0x80` can be asked of the characters: an ASCII character is
its own byte (`encode_ascii`), and all the bytes of any other are above
(`high_of_mem_encode`).
-/

namespace Lib.Utf8

def encode (text : List Char) : List UInt8 := text.flatMap String.utf8EncodeChar

/-- The text that has these bytes, if they are UTF-8. -/
def decode (bytes : List UInt8) : Option (List Char) :=
  (String.fromUTF8? bytes.toByteArray).map String.toList

/-- Text cut at a number of bytes, if it can be. -/
def splitAt : List Char → Nat → Option (List Char × List Char)
  | text, 0 => some ([], text)
  | [], _ + 1 => none
  | c :: text, n + 1 =>
    if c.utf8Size ≤ n + 1 then
      (splitAt text (n + 1 - c.utf8Size)).map fun (front, back) => (c :: front, back)
    else none

def isAscii (c : Char) : Bool := c.toNat < 0x80

/-! ## There and back -/

@[simp] theorem encode_nil : encode [] = [] := rfl

theorem encode_cons (c : Char) (text : List Char) :
    encode (c :: text) = String.utf8EncodeChar c ++ encode text :=
  List.flatMap_cons

theorem encode_append (front back : List Char) :
    encode (front ++ back) = encode front ++ encode back :=
  List.flatMap_append

theorem toByteArray_ofList (text : List Char) :
    (String.ofList text).toByteArray = (encode text).toByteArray := by
  simp [encode, List.utf8Encode]

theorem toByteArray_inj {front back : List UInt8} (h : front.toByteArray = back.toByteArray) :
    front = back := by
  simpa using congrArg (fun b : ByteArray => b.data.toList) h

/-- **`decode` reads exactly what `encode` gives.** -/
theorem decode_eq_some {bytes : List UInt8} {text : List Char} :
    decode bytes = some text ↔ encode text = bytes := by
  unfold decode String.fromUTF8?
  by_cases hvalid : bytes.toByteArray.IsValidUTF8
  · rw [dif_pos hvalid, Option.map_some, Option.some_inj]
    constructor
    · rintro rfl
      refine toByteArray_inj ?_
      rw [← toByteArray_ofList, String.ofList_toList]
      rfl
    · rintro rfl
      have hsame : String.fromUTF8 _ hvalid = String.ofList text := by
        rw [← String.toByteArray_inj, toByteArray_ofList]
        rfl
      rw [hsame, String.toList_ofList]
  · rw [dif_neg hvalid]
    refine ⟨fun h => absurd h (by simp), ?_⟩
    rintro rfl
    exact absurd ⟨text, rfl⟩ hvalid

theorem decode_encode (text : List Char) : decode (encode text) = some text :=
  decode_eq_some.mpr rfl

theorem encode_injective {front back : List Char} (h : encode front = encode back) :
    front = back := by
  have hread := decode_encode front
  rw [h, decode_encode] at hread
  exact (Option.some_inj.mp hread).symm

/-! ## Cutting -/

theorem length_encode_cons (c : Char) (text : List Char) :
    (encode (c :: text)).length = c.utf8Size + (encode text).length := by
  rw [encode_cons, List.length_append, String.length_utf8EncodeChar]

/-- **Text is cut between two characters, and into what it was.** -/
theorem splitAt_eq_some {text front back : List Char} {n : Nat} :
    splitAt text n = some (front, back) ↔ text = front ++ back ∧ (encode front).length = n := by
  induction text, n using splitAt.induct generalizing front with
  | case1 text =>
    rw [splitAt, Option.some_inj, Prod.mk.injEq]
    cases front with
    | nil => simp [eq_comm]
    | cons c front =>
      have hpos := c.utf8Size_pos
      rw [length_encode_cons]
      refine ⟨fun h => absurd h.1 (by simp), fun h => ?_⟩
      omega
  | case2 n =>
    rw [splitAt]
    refine ⟨fun h => absurd h (by simp), fun h => ?_⟩
    obtain ⟨rfl, -⟩ := List.append_eq_nil_iff.mp h.1.symm
    exact absurd h.2 (by simp)
  | case3 c text n hle ih =>
    rw [splitAt, if_pos hle, Option.map_eq_some_iff]
    constructor
    · rintro ⟨⟨front', back'⟩, hsplit, heq⟩
      cases heq
      obtain ⟨rfl, hlength⟩ := ih.mp hsplit
      refine ⟨rfl, ?_⟩
      rw [length_encode_cons]
      omega
    · rintro ⟨htext, hlength⟩
      cases front with
      | nil => cases hlength
      | cons d front =>
        obtain ⟨rfl, rfl⟩ := List.cons.inj htext
        rw [length_encode_cons] at hlength
        exact ⟨(front, back), ih.mpr ⟨rfl, by omega⟩, rfl⟩
  | case4 c text n hlt =>
    rw [splitAt, if_neg hlt]
    refine ⟨fun h => absurd h (by simp), ?_⟩
    rintro ⟨htext, hlength⟩
    cases front with
    | nil => cases hlength
    | cons d front =>
      obtain ⟨rfl, rfl⟩ := List.cons.inj htext
      rw [length_encode_cons] at hlength
      omega

/-! ## ASCII -/

theorem utf8Size_of_isAscii {c : Char} (h : isAscii c) : c.utf8Size = 1 := by
  rw [Char.utf8Size_eq_one_iff, UInt32.le_iff_toNat_le]
  have hlow : c.val.toNat < 0x80 := by simpa [isAscii] using h
  have hbound : (127 : UInt32).toNat = 127 := rfl
  omega

theorem encodeChar_of_isAscii {c : Char} (h : isAscii c) :
    String.utf8EncodeChar c = [c.toNat.toUInt8] := by
  rw [String.utf8EncodeChar_eq_singleton (utf8Size_of_isAscii h)]
  rfl

/-- **ASCII text is its own bytes.** -/
theorem encode_ascii {text : List Char} (h : ∀ c ∈ text, isAscii c) :
    encode text = text.map fun c => c.toNat.toUInt8 := by
  induction text with
  | nil => rfl
  | cons c text ih =>
    rw [encode_cons, encodeChar_of_isAscii (h c List.mem_cons_self),
      ih fun d hd => h d (List.mem_cons_of_mem c hd), List.map_cons]
    rfl

/-- All the bytes of any other character are above. -/
theorem high_of_mem_encodeChar {c : Char} (h : isAscii c = false) {b : UInt8}
    (hb : b ∈ String.utf8EncodeChar c) : 0x80 ≤ b.toNat := by
  have hlow : ¬c.val.toNat ≤ 0x7f := by
    have hnot : ¬c.toNat < 0x80 := by simpa [isAscii] using h
    have hval : c.toNat = c.val.toNat := rfl
    omega
  unfold String.utf8EncodeChar at hb
  dsimp only at hb
  rw [if_neg hlow] at hb
  split_ifs at hb <;>
  · simp only [List.mem_cons, List.not_mem_nil, or_false] at hb
    rcases hb with rfl | rfl | rfl | rfl <;>
    · simp only [UInt8.toNat_ofNat']
      omega

/-- ASCII that bytes begin with begins the text. -/
theorem of_encode_eq_append {front text : List Char} {bytes : List UInt8}
    (hfront : ∀ c ∈ front, isAscii c) (h : encode text = encode front ++ bytes) :
    ∃ back, text = front ++ back ∧ encode back = bytes := by
  induction front generalizing text with
  | nil => exact ⟨text, rfl, h⟩
  | cons c front ih =>
    have hc := hfront c List.mem_cons_self
    rw [encode_cons, encodeChar_of_isAscii hc] at h
    cases text with
    | nil => cases h
    | cons d text =>
      rw [encode_cons] at h
      have hd : isAscii d := by
        by_contra hhigh
        obtain ⟨b, bs, hbytes⟩ := List.exists_cons_of_ne_nil (@String.utf8EncodeChar_ne_nil d)
        have hb := high_of_mem_encodeChar (Bool.eq_false_iff.mpr hhigh)
          (hbytes ▸ List.mem_cons_self)
        rw [hbytes] at h
        obtain rfl : b = c.toNat.toUInt8 := (List.cons.inj h).1
        have hlow : c.toNat < 0x80 := by simpa [isAscii] using hc
        rw [Nat.toUInt8, UInt8.toNat_ofNat'] at hb
        omega
      rw [encodeChar_of_isAscii hd] at h
      obtain ⟨hbyte, hrest⟩ := List.cons.inj h
      have hsame : c = d := by
        have hlow : c.toNat < 0x80 := by simpa [isAscii] using hc
        have hlow' : d.toNat < 0x80 := by simpa [isAscii] using hd
        have hnat := congrArg UInt8.toNat hbyte
        simp only [Nat.toUInt8, UInt8.toNat_ofNat'] at hnat
        exact Char.toNat_inj.mp (by omega)
      obtain ⟨back, rfl, hback⟩ := ih (fun e he => hfront e (List.mem_cons_of_mem c he)) hrest
      exact ⟨back, by rw [hsame, List.cons_append], hback⟩

section Asked

variable {p : UInt8 → Bool} {q : Char → Bool} (hlow : ∀ c, isAscii c → p c.toNat.toUInt8 = q c)
  (hhigh : ∀ b : UInt8, 0x80 ≤ b.toNat → p b = false)
  (hother : ∀ c, isAscii c = false → q c = false)

include hlow hhigh hother

/-- **A question about ASCII bytes is one about the characters.** -/
theorem takeWhile_encode (text : List Char) :
    (encode text).takeWhile p = encode (text.takeWhile q) := by
  induction text with
  | nil => rfl
  | cons c text ih =>
    rw [encode_cons]
    cases hc : isAscii c with
    | true =>
      rw [encodeChar_of_isAscii hc, List.singleton_append, List.takeWhile_cons,
        List.takeWhile_cons, hlow c hc]
      cases q c with
      | true =>
        simp only [if_true]
        rw [ih, encode_cons, encodeChar_of_isAscii hc]
        rfl
      | false => rfl
    | false =>
      obtain ⟨b, bs, hbytes⟩ := List.exists_cons_of_ne_nil (@String.utf8EncodeChar_ne_nil c)
      have hb := high_of_mem_encodeChar hc (hbytes ▸ List.mem_cons_self)
      have hstop : ¬q c = true := by
        rw [hother c hc]
        exact Bool.false_ne_true
      have hstop' : ¬p b = true := by
        rw [hhigh b hb]
        exact Bool.false_ne_true
      rw [hbytes, List.cons_append, List.takeWhile_cons_of_neg hstop',
        List.takeWhile_cons_of_neg hstop]
      rfl

theorem all_encode (text : List Char) : (encode text).all p = text.all q := by
  rw [Bool.eq_iff_iff, List.all_eq_true, List.all_eq_true, ← List.takeWhile_eq_self_iff,
    ← List.takeWhile_eq_self_iff, takeWhile_encode hlow hhigh hother]
  exact ⟨encode_injective, congrArg encode⟩

end Asked

end Lib.Utf8
