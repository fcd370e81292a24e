import KDrive.Go.Runtime

/-! Texts on their way through `encoding/json`. A Go string is any bytes; the encoder writes its
characters, and U+FFFD for each byte that begins none. -/
namespace KDrive.Go

/-- The characters of a text, as many as the fuel allows. -/
def runes : Nat → Bytes → List Char
  | 0, _ => []
  | _, [] => []
  | fuel + 1, byte :: rest =>
    match (byte :: rest).toByteArray.utf8DecodeChar? 0 with
    | some c => c :: runes fuel ((byte :: rest).drop c.utf8Size)
    | none => '�' :: runes fuel rest

/-- The text that is decoded where this one was encoded. -/
def jsonText (text : Bytes) : Bytes := utf8 (String.ofList (runes text.length text))

theorem runes_utf8 (chars : List Char) (enough : (chars.flatMap String.utf8EncodeChar).length ≤ fuel) :
    runes fuel (chars.flatMap String.utf8EncodeChar) = chars := by
  induction chars generalizing fuel with
  | nil => cases fuel <;> rfl
  | cons c rest ih =>
    have decoded : ByteArray.utf8DecodeChar?
        (String.utf8EncodeChar c ++ rest.flatMap String.utf8EncodeChar).toByteArray 0 = some c := by
      rw [List.toByteArray_append]
      exact ByteArray.utf8DecodeChar?_utf8EncodeChar_append
    have size := String.length_utf8EncodeChar c
    have positive := c.utf8Size_pos
    rw [List.flatMap_cons, List.length_append, size] at enough
    obtain ⟨fuel, rfl⟩ : ∃ n, fuel = n + 1 := Nat.exists_eq_add_one.mpr (by omega)
    rw [List.flatMap_cons]
    cases encoded : String.utf8EncodeChar c ++ rest.flatMap String.utf8EncodeChar with
    | nil => simp_all
    | cons byte others =>
      rw [runes, ← encoded, decoded]
      simp only [List.drop_left' size]
      rw [ih (by omega)]

theorem jsonText_utf8 (s : String) : jsonText (utf8 s) = utf8 s := by
  have chars : runes (utf8 s).length (utf8 s) = s.toList := runes_utf8 s.toList le_rfl
  rw [jsonText, chars, String.ofList_toList]

theorem jsonText_idem (text : Bytes) : jsonText (jsonText text) = jsonText text :=
  jsonText_utf8 _

/-- A text after it was encoded and decoded; if it was UTF-8, it is the same. -/
structure Reread (before after : Bytes) : Prop where
  text : after = jsonText before
  same : ∀ s, before = utf8 s → after = before

theorem reread_jsonText (text : Bytes) : Reread text (jsonText text) := by
  refine ⟨rfl, ?_⟩
  rintro s rfl
  exact jsonText_utf8 s

example : jsonText [0x61, 0xff] = utf8 "a�" := by decide +kernel

end KDrive.Go
