import Mathlib.Tactic.Common
import Mathlib.Tactic.IntervalCases

/-! Base64 text: the encoder, and the lenient decoder, which passes over every
character outside the alphabet. -/

namespace Base64

def sextetChar (n : Nat) : Char :=
  if n < 26 then Char.ofNat (0x41 + n)
  else if n < 52 then Char.ofNat (0x61 + (n - 26))
  else if n < 62 then Char.ofNat (0x30 + (n - 52))
  else if n = 62 then '+' else '/'

def sextet (c : Char) : Option Nat :=
  let n := c.toNat
  if 0x41 ≤ n ∧ n ≤ 0x5a then some (n - 0x41)
  else if 0x61 ≤ n ∧ n ≤ 0x7a then some (n - 0x61 + 26)
  else if 0x30 ≤ n ∧ n ≤ 0x39 then some (n - 0x30 + 52)
  else if c = '+' then some 62
  else if c = '/' then some 63
  else none

def encodeBytes : List UInt8 → List Char
  | [] => []
  | [a] => [sextetChar (a.toNat / 4), sextetChar (a.toNat % 4 * 16), '=', '=']
  | [a, b] =>
    [sextetChar (a.toNat / 4), sextetChar (a.toNat % 4 * 16 + b.toNat / 16), sextetChar (b.toNat % 16 * 4), '=']
  | a :: b :: c :: rest =>
    sextetChar (a.toNat / 4) :: sextetChar (a.toNat % 4 * 16 + b.toNat / 16) ::
      sextetChar (b.toNat % 16 * 4 + c.toNat / 64) :: sextetChar (c.toNat % 64) :: encodeBytes rest

/-- `base64.b64encode`. -/
def b64encode (bytes : List UInt8) : String := String.ofList (encodeBytes bytes)

/-- Where the decoder stands in a group of four characters. -/
structure Decoder where
  quadPos : Nat
  leftchar : Nat
  pads : Nat
  out : List UInt8

def byteOf (n : Nat) : UInt8 := UInt8.ofNat n

theorem byteOf_toNat {n : Nat} {a : UInt8} (h : n = a.toNat) : byteOf n = a := by
  rw [byteOf, h, UInt8.ofNat_toNat]

def Decoder.take (d : Decoder) (value : Nat) : Decoder :=
  if d.quadPos = 0 then { d with quadPos := 1, leftchar := value, pads := 0 }
  else if d.quadPos = 1 then
    { quadPos := 2, leftchar := value % 16, pads := 0, out := d.out ++ [byteOf (d.leftchar * 4 + value / 16)] }
  else if d.quadPos = 2 then
    { quadPos := 3, leftchar := value % 4, pads := 0, out := d.out ++ [byteOf (d.leftchar * 16 + value / 4)] }
  else { quadPos := 0, leftchar := 0, pads := 0, out := d.out ++ [byteOf (d.leftchar * 64 + value)] }

section Take

variable (left pads value : Nat) (out : List UInt8)

theorem take_first : (Decoder.mk 0 left pads out).take value = ⟨1, value, 0, out⟩ := rfl

theorem take_second : (Decoder.mk 1 left pads out).take value =
    ⟨2, value % 16, 0, out ++ [byteOf (left * 4 + value / 16)]⟩ := rfl

theorem take_third : (Decoder.mk 2 left pads out).take value =
    ⟨3, value % 4, 0, out ++ [byteOf (left * 16 + value / 4)]⟩ := rfl

theorem take_fourth : (Decoder.mk 3 left pads out).take value =
    ⟨0, 0, 0, out ++ [byteOf (left * 64 + value)]⟩ := rfl

end Take

/-- A pad that completes its group ends the text; one that does not is passed over. -/
def decodeChars : Decoder → List Char → Option (List UInt8)
  | d, [] => if d.quadPos = 0 then some d.out else none
  | d, c :: rest =>
    if c = '=' then
      if 2 ≤ d.quadPos then
        if 4 ≤ d.quadPos + (d.pads + 1) then some d.out
        else decodeChars { d with pads := d.pads + 1 } rest
      else decodeChars d rest
    else
      match sextet c with
      | none => decodeChars d rest
      | some value => decodeChars (d.take value) rest

/-- `base64.b64decode`: only ASCII text is taken. -/
def b64decode (s : String) : Option (List UInt8) :=
  if s.toList.all fun c => decide (c.toNat < 128) then decodeChars ⟨0, 0, 0, []⟩ s.toList else none

theorem sextet_sextetChar {n : Nat} (h : n < 64) :
    sextet (sextetChar n) = some n ∧ sextetChar n ≠ '=' ∧ (sextetChar n).toNat < 128 := by
  interval_cases n <;> decide

theorem decodeChars_sextet {n : Nat} (h : n < 64) (d : Decoder) (rest : List Char) :
    decodeChars d (sextetChar n :: rest) = decodeChars (d.take n) rest := by
  obtain ⟨hvalue, hpad, _⟩ := sextet_sextetChar h
  simp only [decodeChars, if_neg hpad, hvalue]

theorem decodeChars_encodeBytes (bytes : List UInt8) (pads : Nat) (out : List UInt8) :
    decodeChars ⟨0, 0, pads, out⟩ (encodeBytes bytes) = some (out ++ bytes) := by
  induction bytes using encodeBytes.induct generalizing pads out with
  | case1 => simp [encodeBytes, decodeChars]
  | case2 a =>
    have ha := a.toNat_lt
    have hbyte : byteOf (a.toNat / 4 * 4 + a.toNat % 4 * 16 / 16) = a := byteOf_toNat (by omega)
    rw [encodeBytes, decodeChars_sextet (by omega), decodeChars_sextet (by omega), take_first, take_second, hbyte]
    rfl
  | case3 a b =>
    have ha := a.toNat_lt
    have hb := b.toNat_lt
    have hfirst : byteOf (a.toNat / 4 * 4 + (a.toNat % 4 * 16 + b.toNat / 16) / 16) = a := byteOf_toNat (by omega)
    have hsecond : byteOf ((a.toNat % 4 * 16 + b.toNat / 16) % 16 * 16 + b.toNat % 16 * 4 / 4) = b :=
      byteOf_toNat (by omega)
    rw [encodeBytes, decodeChars_sextet (by omega), decodeChars_sextet (by omega), decodeChars_sextet (by omega),
      take_first, take_second, take_third, hfirst, hsecond, List.append_assoc]
    rfl
  | case4 a b c rest ih =>
    have ha := a.toNat_lt
    have hb := b.toNat_lt
    have hc := c.toNat_lt
    have hfirst : byteOf (a.toNat / 4 * 4 + (a.toNat % 4 * 16 + b.toNat / 16) / 16) = a := byteOf_toNat (by omega)
    have hsecond : byteOf ((a.toNat % 4 * 16 + b.toNat / 16) % 16 * 16 + (b.toNat % 16 * 4 + c.toNat / 64) / 4) = b :=
      byteOf_toNat (by omega)
    have hthird : byteOf ((b.toNat % 16 * 4 + c.toNat / 64) % 4 * 64 + c.toNat % 64) = c := byteOf_toNat (by omega)
    rw [encodeBytes, decodeChars_sextet (by omega), decodeChars_sextet (by omega), decodeChars_sextet (by omega),
      decodeChars_sextet (by omega), take_first, take_second, take_third, take_fourth, hfirst, hsecond, hthird, ih,
      List.append_assoc, List.append_assoc, List.append_assoc]
    rfl

theorem encodeBytes_ascii (bytes : List UInt8) : ∀ c ∈ encodeBytes bytes, c.toNat < 128 := by
  have hchar {n : Nat} (h : n < 64) : (sextetChar n).toNat < 128 := (sextet_sextetChar h).2.2
  induction bytes using encodeBytes.induct with
  | case1 =>
    intro c hc
    cases hc
  | case2 a =>
    have ha := a.toNat_lt
    simp only [encodeBytes, List.forall_mem_cons, List.not_mem_nil, false_imp_iff, implies_true, and_true]
    exact ⟨hchar (by omega), hchar (by omega), by decide, by decide⟩
  | case3 a b =>
    have ha := a.toNat_lt
    have hb := b.toNat_lt
    simp only [encodeBytes, List.forall_mem_cons, List.not_mem_nil, false_imp_iff, implies_true, and_true]
    exact ⟨hchar (by omega), hchar (by omega), hchar (by omega), by decide⟩
  | case4 a b c rest ih =>
    have ha := a.toNat_lt
    have hb := b.toNat_lt
    have hc := c.toNat_lt
    simp only [encodeBytes, List.forall_mem_cons]
    exact ⟨hchar (by omega), hchar (by omega), hchar (by omega), hchar (by omega), ih⟩

theorem b64decode_b64encode (bytes : List UInt8) : b64decode (b64encode bytes) = some bytes := by
  have hascii : ((b64encode bytes).toList.all fun c => decide (c.toNat < 128)) = true := by
    rw [b64encode, String.toList_ofList, List.all_eq_true]
    intro c hc
    exact decide_eq_true (encodeBytes_ascii bytes c hc)
  rw [b64decode, if_pos hascii, b64encode, String.toList_ofList, decodeChars_encodeBytes, List.nil_append]

theorem b64encode_ne_empty {bytes : List UInt8} (h : bytes ≠ []) : b64encode bytes ≠ "" := by
  intro heq
  have hchars := congrArg String.toList heq
  rw [b64encode, String.toList_ofList] at hchars
  unfold encodeBytes at hchars
  split at hchars
  next => exact h rfl
  next => cases hchars
  next => cases hchars
  next => cases hchars

end Base64
