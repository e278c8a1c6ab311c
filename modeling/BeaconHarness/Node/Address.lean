import BeaconHarness.Failure
import BeaconHarness.Text.Case
import BeaconHarness.Text.Hex

/-!
# Addresses of nodes

The host in the URL of a node: what stands between the two slashes and the port, without a user's
name in front, in lower case. An IPv6 address stands in brackets and has to be one. A URL without
two slashes behind its scheme names no host.

A URL whose brackets are misplaced is refused, and so is one with a character beyond ASCII that
stands for a delimiter of URLs.
-/

namespace BeaconHarness.Node.Address

/-! ## Numbers of the Internet protocol -/

/-- The parts of a text between marks. -/
def splitAt (mark : Char) : List Char → List (List Char)
  | [] => [[]]
  | c :: rest =>
    match splitAt mark rest with
    | [] => [[c]]
    | part :: parts => if c = mark then [] :: part :: parts else (c :: part) :: parts

/-- Whether a text is a decimal number below 256 without leading zeros. -/
def isOctet (text : List Char) : Bool :=
  !text.isEmpty && text.all Char.isDigit && text.length ≤ 3
    && (text.length = 1 || text.head? ≠ some '0')
    && text.foldl (fun n c => 10 * n + (c.toNat - 48)) 0 < 256

/-- Whether a text is an IPv4 address. -/
def isVersion4 (text : List Char) : Bool :=
  let parts := splitAt '.' text
  parts.length = 4 && parts.all isOctet

/-- Whether a text is a group of an IPv6 address. -/
def isGroup (text : List Char) : Bool :=
  !text.isEmpty && text.length ≤ 4 && text.all fun c => (Text.Hex.value? c).isSome

/-- The groups of an IPv6 address, with two in place of an IPv4 address at the end. -/
def groups (text : List Char) : Option (List (List Char)) :=
  let parts := splitAt ':' text
  let last := parts.getLastD []
  if last.contains '.' then
    if isVersion4 last then some (parts.dropLast ++ [['0'], ['0']]) else none
  else some parts

/-- Groups on one side of a run of zeros; at an end of the address an empty one stands there. -/
def besideZeros (parts : List (List Char)) : List (List Char) :=
  if parts = [[]] then [] else parts

/-- Whether groups make up an IPv6 address. One empty group inside stands for a run of zeros. -/
def isComplete (parts : List (List Char)) : Bool :=
  let inner := (parts.drop 1).dropLast
  if parts.length < 3 || 9 < parts.length then false
  else match inner.count [] with
    | 0 => parts.length = 8 && parts.all isGroup
    | 1 =>
      let gap := 1 + inner.idxOf []
      let kept := besideZeros (parts.take gap) ++ besideZeros (parts.drop (gap + 1))
      kept.length ≤ 7 && kept.all isGroup
    | _ => false

/-- Whether a text is an IPv6 address, with or without a zone behind a percent sign. -/
def isVersion6 (text : List Char) : Bool :=
  let zone := text.dropWhile (· ≠ '%')
  let hasZone := zone.isEmpty || (1 < zone.length && !(zone.drop 1).contains '%')
  hasZone && match groups (text.takeWhile (· ≠ '%')) with
    | some parts => isComplete parts
    | none => false

/-- Whether a text may stand in brackets: an IPv6 address, or a later version that says so. -/
def isBracketable (text : List Char) : Bool :=
  match text with
  | 'v' :: rest =>
    let version := rest.takeWhile fun c => (Text.Hex.value? c).isSome
    match rest.dropWhile fun c => (Text.Hex.value? c).isSome with
    | '.' :: _ :: _ => !version.isEmpty
    | _ => false
  | text => isVersion6 text

/-! ## URLs -/

/-- Whether a character may stand in a scheme. -/
def isSchemeChar (c : Char) : Bool := c.isAlphanum || c = '+' || c = '-' || c = '.'

/-- A URL without its scheme and the colon behind it. -/
def dropScheme (url : List Char) : List Char :=
  let scheme := url.takeWhile isSchemeChar
  match url.drop scheme.length with
  | ':' :: rest => if (scheme.head?.map Char.isAlpha).getD false then rest else url
  | _ => url

/-- The part of a URL that names user, host and port. -/
def authority (url : String) : List Char :=
  let text := (url.toList.dropWhile fun c => c.toNat ≤ 32).filter fun c =>
    c ≠ '\t' && c ≠ '\r' && c ≠ '\n'
  match dropScheme text with
  | '/' :: '/' :: rest => rest.takeWhile fun c => c ≠ '/' && c ≠ '?' && c ≠ '#'
  | _ => []

/-- The text behind the last occurrence of a mark; the whole text if there is none. -/
def behindLast (mark : Char) (text : List Char) : List Char := (splitAt mark text).getLastD []

/-- The text before the first occurrence of a mark and the text behind it, if there is one. -/
def cut (mark : Char) (text : List Char) : List Char × Option (List Char) :=
  match text.dropWhile (· ≠ mark) with
  | [] => (text, none)
  | _ :: rest => (text.takeWhile (· ≠ mark), some rest)

/-- The host in the text behind a user's name: what stands in brackets, or before the port. -/
def hostText (place : List Char) : List Char :=
  match cut '[' place with
  | (_, some bracketed) => (cut ']' bracketed).1
  | (_, none) => (cut ':' place).1

/-- Whether the brackets in a text that has some are where they belong: around the host, with
nothing but a user's name in front and nothing but a port behind. -/
def hasGoodBrackets (text : List Char) : Bool :=
  let place := behindLast '@' text
  let isEnclosed := match cut '[' place with
    | (before, some bracketed) =>
      let port := ((cut ']' bracketed).2).getD []
      before.isEmpty && (port.isEmpty || port.head? = some ':')
    | (_, none) => true
  isEnclosed && isBracketable (hostText place)

/-- The characters beyond ASCII that stand for a text with a delimiter of URLs in it. -/
def wideDelimiters : List Nat := [
  0x2047, 0x2048, 0x2049, 0x2100, 0x2101, 0x2105, 0x2106, 0x2a74, 0xfe13, 0xfe16, 0xfe55, 0xfe56,
  0xfe5f, 0xfe6b, 0xff03, 0xff0f, 0xff1a, 0xff1f, 0xff20]

/-- Whether a host and what stands around it may be looked at. -/
def isSound (text : List Char) : Bool :=
  let opens := text.contains '['
  let closes := text.contains ']'
  opens = closes && (!opens || hasGoodBrackets text)
    && !text.any fun c => wideDelimiters.contains c.toNat

/-- A host in lower case, apart from its zone. -/
def lowerHost (text : List Char) : String :=
  Text.lower (String.ofList (text.takeWhile (· ≠ '%'))) ++ String.ofList (text.dropWhile (· ≠ '%'))

/-- The host that a URL names, if any. -/
def host (url : String) : Except Failure (Option String) :=
  let text := authority url
  if !isSound text then .error (.unreadable .other)
  else
    let name := hostText (behindLast '@' text)
    .ok (if name.isEmpty then none else some (lowerHost name))

end BeaconHarness.Node.Address
