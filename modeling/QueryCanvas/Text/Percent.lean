/-
  QueryCanvas.Text.Percent

  Percent-encoded texts, and the encoding of form fields.
-/

import QueryCanvas.Text.Scan

namespace QueryCanvas.Text

/-! ## Decoding -/

/-- The bytes of a percent-encoded text. A percent sign without two hexadecimal digits behind it
    stands for itself. -/
def percentBytes : List UInt8 → List UInt8
  | 0x25 :: high :: low :: rest =>
    match hexValue? (Char.ofNat high.toNat), hexValue? (Char.ofNat low.toNat) with
    | some h, some l => UInt8.ofNat (16 * h + l) :: percentBytes rest
    | _, _ => 0x25 :: percentBytes (high :: low :: rest)
  | b :: rest => b :: percentBytes rest
  | [] => []

/-- The text behind a percent-encoded text, if its bytes are UTF-8. -/
def percentDecode? (s : String) : Option String :=
  String.fromUTF8? ⟨(percentBytes s.toUTF8.data.toList).toArray⟩

/-! ## Encoding -/

/-- A byte as a percent sign and two upper-case hexadecimal digits. -/
def percentByte (b : UInt8) : List Char :=
  let digit (n : Nat) : Char := (Nat.digitChar n).toUpper
  ['%', digit (b.toNat / 16), digit (b.toNat % 16)]

/-- Percent-encodes the bytes that do not satisfy `keep`. -/
def percentEncode (keep : UInt8 → Bool) (s : String) : String :=
  String.ofList <| s.toUTF8.data.toList.flatMap fun b =>
    if keep b then [Char.ofNat b.toNat] else percentByte b

/-- The bytes that stand for themselves in form fields. -/
def isFormByte (b : UInt8) : Bool :=
  let c := Char.ofNat b.toNat
  b < 0x80 && (c.isAlphanum || c = '*' || c = '-' || c = '.' || c = '_')

/-- The text of a form field: a space becomes a plus sign, what has a meaning of its own or is not
    ASCII is percent-encoded. -/
def formEncode (s : String) : String :=
  String.ofList <| s.toUTF8.data.toList.flatMap fun b =>
    if b = 0x20 then ['+'] else if isFormByte b then [Char.ofNat b.toNat] else percentByte b

def formField (name value : String) : String := formEncode name ++ "=" ++ formEncode value

end QueryCanvas.Text
