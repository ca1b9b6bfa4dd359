import AgentNetwork.Library.JsonText
import Mathlib.Data.List.Induction

/-! Bytes of a text in UTF-8 and in hexadecimal digits. -/

namespace Python

/-- `text.encode("utf-8")`. -/
def encodeUtf8 (text : String) : List UInt8 := text.toUTF8.data.toList

/-- `data.decode("utf-8")`; `none` where it raises. -/
def decodeUtf8 (data : List UInt8) : Option String := String.fromUTF8? ⟨data.toArray⟩

theorem decodeUtf8_encodeUtf8 (text : String) : decodeUtf8 (encodeUtf8 text) = some text := by
  have hvalid : text.toUTF8.IsValidUTF8 := text.isValidUTF8
  have hbytes : (⟨(encodeUtf8 text).toArray⟩ : ByteArray) = text.toUTF8 := by simp [encodeUtf8]
  rw [decodeUtf8, hbytes, String.fromUTF8?, dif_pos hvalid]
  rfl

def hexByte (b : UInt8) : List Char := [Nat.digitChar (b.toNat / 16), Nat.digitChar (b.toNat % 16)]

/-- `data.hex()`. -/
def hex (data : List UInt8) : String := String.ofList (data.flatMap hexByte)

/-- The blanks that `bytes.fromhex` passes over between bytes. -/
def isAsciiSpace (c : Char) : Bool := c.toNat = 0x20 ∨ (0x09 ≤ c.toNat ∧ c.toNat ≤ 0x0d)

def fromHexChars : List Char → Option (List UInt8)
  | [] => some []
  | high :: rest =>
    if isAsciiSpace high then fromHexChars rest
    else
      match rest with
      | [] => none
      | low :: rest => do
        let h ← Json.hexDigit high
        let l ← Json.hexDigit low
        let data ← fromHexChars rest
        some (UInt8.ofNat (h * 16 + l) :: data)

/-- `bytes.fromhex(text)`; `none` where it raises. -/
def fromHex (text : String) : Option (List UInt8) := fromHexChars text.toList

theorem digitChar_not_space {d : Nat} (h : d < 16) : isAsciiSpace (Nat.digitChar d) = false := by
  revert d
  decide

theorem fromHexChars_hexByte (b : UInt8) (rest : List Char) :
    fromHexChars (hexByte b ++ rest) = (fromHexChars rest).map (b :: ·) := by
  have hb := b.toNat_lt
  have hhigh : b.toNat / 16 < 16 := by omega
  have hlow : b.toNat % 16 < 16 := by omega
  have hvalue : UInt8.ofNat (b.toNat / 16 * 16 + b.toNat % 16) = b := by
    rw [Nat.div_add_mod']
    exact UInt8.ofNat_toNat
  simp only [hexByte, List.cons_append, List.nil_append, fromHexChars, digitChar_not_space hhigh,
    Json.hexDigit_digitChar hhigh, Json.hexDigit_digitChar hlow, Bool.false_eq_true, if_false]
  cases fromHexChars rest with
  | none => rfl
  | some data => exact congrArg (fun first => some (first :: data)) hvalue

theorem fromHex_hex (data : List UInt8) : fromHex (hex data) = some data := by
  rw [fromHex, hex, String.toList_ofList]
  induction data with
  | nil => rfl
  | cons b rest ih => rw [List.flatMap_cons, fromHexChars_hexByte, ih, Option.map_some]

/-- `int.from_bytes(data, byteorder="big")`. -/
def intFromBytes (data : List UInt8) : Nat := data.foldl (fun value b => value * 256 + b.toNat) 0

theorem intFromBytes_lt (data : List UInt8) : intFromBytes data < 256 ^ data.length := by
  induction data using List.reverseRecOn with
  | nil => exact Nat.one_pos
  | append_singleton data b ih =>
    have hlast := b.toNat_lt
    have hsnoc : intFromBytes (data ++ [b]) = intFromBytes data * 256 + b.toNat := List.foldl_append ..
    rw [hsnoc, List.length_append, List.length_singleton, Nat.pow_succ]
    omega

end Python
