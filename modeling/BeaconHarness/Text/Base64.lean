import BeaconHarness.Bytes

/-!
# Base 64

Bytes written in an alphabet of sixty-four characters, of which four stand for three bytes.
Reading passes over whatever is not in the alphabet. A group of two or three characters has to be
filled up with padding, at which reading ends; a group of one character holds no byte.
-/

namespace BeaconHarness.Text.Base64

/-- The value of a character of the alphabet. -/
def value? (c : Char) : Option Nat :=
  if 'A' ≤ c && c ≤ 'Z' then some (c.toNat - 65)
  else if 'a' ≤ c && c ≤ 'z' then some (c.toNat - 71)
  else if '0' ≤ c && c ≤ '9' then some (c.toNat + 4)
  else if c = '+' then some 62
  else if c = '/' then some 63
  else none

/-- The bytes of a group that is not complete: one character less than it has characters. -/
def partialBytes : List Nat → Bytes
  | [a, b] => [UInt8.ofNat (4 * a + b / 16)]
  | [a, b, c] => [UInt8.ofNat (4 * a + b / 16), UInt8.ofNat (16 * b + c / 4)]
  | _ => []

/-- The bytes of a complete group. -/
def groupBytes (a b c d : Nat) : Bytes :=
  partialBytes [a, b, c] ++ [UInt8.ofNat (64 * c + d)]

/-- Reads the rest of a text behind the characters of a group, oldest first, and some padding. -/
def decodeFrom : (group : List Nat) → (padding : Nat) → List Char → Option Bytes
  | group, _, [] => if group.isEmpty then some [] else none
  | group, padding, x :: rest =>
    if x = '=' then
      if 2 ≤ group.length && 4 ≤ group.length + padding + 1 then some (partialBytes group)
      else decodeFrom group (if 2 ≤ group.length then padding + 1 else padding) rest
    else match value? x with
      | none => decodeFrom group padding rest
      | some v =>
        match group with
        | [a, b, c] => (decodeFrom [] 0 rest).map (groupBytes a b c v ++ ·)
        | group => decodeFrom (group ++ [v]) 0 rest

/-- The bytes in a text. -/
def decode (text : List Char) : Option Bytes := decodeFrom [] 0 text

end BeaconHarness.Text.Base64
