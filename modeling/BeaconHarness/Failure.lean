import BeaconHarness.Datum

/-!
# Failures

Everything that can go wrong is a failure with its cause. Those of the harness itself carry what
their message needs; the others are told apart by kind alone, and only some of them have a text
that belongs to the contract.

The kinds form a hierarchy, by which a wait names the failures that it takes for "not yet".
-/

namespace BeaconHarness

/-! ## Causes -/

/-- Why a datum could not be read as a number or a byte string. -/
inductive Unreadable where
  /-- A truth value stands where a number belongs. -/
  | notInteger (shown : String)
  /-- The text is not an integer in the base. -/
  | literal (base : Nat) (shown : String)
  /-- The text has too many decimal digits. -/
  | tooLong (digits : Nat)
  /-- The text is not hexadecimal from this position on. -/
  | notHex (position : Nat)
  /-- The byte string has the wrong length. -/
  | wrongLength (expected found : Nat)
  /-- A root that is not thirty-two bytes long. -/
  | rootLength (found : Nat)
  /-- A domain type that is not four bytes long. -/
  | domainTypeLength (found : Nat)
  /-- The name of no preset. -/
  | unknownPreset (name : String)
  /-- Any other text that has no reading. -/
  | other
  deriving DecidableEq, Repr, Inhabited

namespace Unreadable

/-- The text of the cause. -/
def message : Unreadable → String
  | notInteger shown => "not an integer: " ++ shown
  | literal base shown =>
    "invalid literal for int() with base " ++ toString base ++ ": " ++ shown
  | tooLong digits =>
    "Exceeds the limit (" ++ toString Text.Integer.digitLimit
      ++ " digits) for integer string conversion: value has " ++ toString digits
      ++ " digits; use sys.set_int_max_str_digits() to increase the limit"
  | notHex position =>
    "non-hexadecimal number found in fromhex() arg at position " ++ toString position
  | wrongLength expected found =>
    "expected " ++ toString expected ++ " bytes, got " ++ toString found
  | rootLength found => "Expected 32-byte root, got " ++ toString found ++ " bytes"
  | domainTypeLength found => "Expected 4-byte domain type, got " ++ toString found ++ " bytes"
  | unknownPreset name => "Unknown preset: " ++ name
  | other => ""

/-- The text, where it belongs to the contract. -/
def message? : Unreadable → Option String
  | wrongLength e f => some (wrongLength e f).message
  | rootLength n => some (rootLength n).message
  | domainTypeLength n => some (domainTypeLength n).message
  | unknownPreset s => some (unknownPreset s).message
  | _ => none

end Unreadable

/-- Why a network configuration could not be used. -/
inductive ConfigFault where
  /-- There is no configuration. -/
  | empty
  /-- The preset is missing or unknown. -/
  | presetBase (found : String)
  /-- The value of a field could not be read. -/
  | value (field shown : String) (cause : Unreadable)
  /-- A file holds something else than a mapping. -/
  | notMapping (path : String)
  /-- A node runs another preset than the schemas were built for. -/
  | presetMismatch (label found built : String)
  /-- Any other text. -/
  | other (text : String)
  deriving DecidableEq, Repr, Inhabited

/-- The text of the fault. -/
def ConfigFault.message : ConfigFault → String
  | empty => "empty config"
  | presetBase found => "invalid preset base: " ++ (if found.isEmpty then "<missing>" else found)
  | value field shown cause =>
    "invalid value for " ++ field ++ ": " ++ shown ++ " (" ++ cause.message ++ ")"
  | notMapping path => "config file " ++ path ++ " does not contain a mapping"
  | presetMismatch label found built =>
    label ++ " runs preset " ++ found ++ ", but SSZ types were built for " ++ built
  | other text => text

/-! ## Kinds -/

/-- A kind of failure, as a wait names it. -/
inductive FailureKind where
  | anything
  | anyFailure
  | harness
  | config
  | notInitialized
  | notReady
  | api
  | notFound
  | unsupported
  | unknownSchema
  | registry
  | validatorIndex
  | pollTimeout
  | lookup
  | missingKey
  | noElement
  | unreadable
  | notJson
  | notText
  | wrongKind
  | noProperty
  | arithmetic
  | divisionByZero
  | outOfRange
  | system
  | timedOut
  | connectionLost
  | connectionReset
  | cancelled
  | transport
  | connection
  | malformed
  | runtime
  /-- There is no memory for a value. -/
  | memory
  /-- The parts of a value lie inside each other too deeply. -/
  | nesting
  /-- A document is not YAML, for any reason. -/
  | document
  /-- A document contains a character that no document may contain. -/
  | documentCharacter
  /-- A document cannot be divided into tokens. -/
  | documentToken
  /-- The tokens of a document do not form a structure. -/
  | documentStructure
  /-- The anchors and aliases of a document do not fit together. -/
  | documentReference
  /-- A part of a document has no value. -/
  | documentValue
  /-- Any other kind, by its name. -/
  | other (name : String)
  deriving DecidableEq, Repr, Inhabited

namespace FailureKind

/-- The kinds directly above a kind. -/
def parents : FailureKind → List FailureKind
  | anything => []
  | anyFailure | cancelled => [anything]
  | harness | lookup | unreadable | wrongKind | noProperty | arithmetic | system | transport
  | malformed | runtime | memory | document | other _ => [anyFailure]
  | config | notInitialized | notReady | api | unsupported | unknownSchema | registry
  | pollTimeout => [harness]
  | notFound => [api, notReady]
  | validatorIndex => [registry]
  | missingKey | noElement => [lookup]
  | notJson | notText => [unreadable]
  | nesting => [runtime]
  | divisionByZero | outOfRange => [arithmetic]
  | timedOut | connectionLost => [system]
  | connectionReset => [connectionLost]
  | connection => [transport]
  | documentCharacter | documentToken | documentStructure | documentReference | documentValue =>
    [document]

/-- How far a kind can be from the top of the hierarchy. -/
def height : Nat := 6

/-- The kinds within `n` steps above a kind, the kind itself included. -/
def ancestorsWithin : (n : Nat) → FailureKind → List FailureKind
  | 0, k => [k]
  | n + 1, k => k :: k.parents.flatMap (ancestorsWithin n)

/-- A kind and all kinds above it. -/
def ancestors (k : FailureKind) : List FailureKind := ancestorsWithin height k

/-- Whether a kind is another one or below it. -/
def isA (k above : FailureKind) : Bool := k.ancestors.contains above

end FailureKind

/-! ## Failures -/

/-- A failure and its cause. -/
inductive Failure where
  /-- A failure of the harness of no particular kind. -/
  | harness (text : String)
  | config (fault : ConfigFault)
  /-- A call needs what has not been resolved yet. -/
  | notInitialized (text : String)
  /-- The resource does not exist on the node yet. -/
  | notReady (text : String)
  /-- The node answered with a status outside the two hundreds. -/
  | api (status : Int) (text : String)
  /-- The node answered 404, or nothing was found. -/
  | notFound (text : String)
  /-- The operation does not exist at the payload's fork. -/
  | unsupported (fork operation : String)
  /-- The version tag or type of a payload matches no fork. -/
  | unknownSchema (version : String)
  /-- Registry and balances are inconsistent. -/
  | registry (text : String)
  /-- A position outside the registry or the balances. -/
  | validatorIndex (index : Decimal.Number) (validators : Nat) (balances : Option Nat)
  /-- The deadline passed before what was waited for came about. -/
  | pollTimeout (what timeout : String)
  /-- A mapping has no entry of that name. -/
  | missingKey (key : String)
  | unreadable (cause : Unreadable)
  /-- A datum of the wrong kind. -/
  | wrongKind
  /-- A datum without the property asked for. -/
  | noProperty
  | divisionByZero
  /-- A number outside the range of its layout. -/
  | outOfRange
  /-- A position outside a list. -/
  | noElement
  /-- A request or a wait took too long. -/
  | timedOut
  /-- The work was called off. -/
  | cancelled
  /-- The transport failed. -/
  | transport
  /-- No connection. -/
  | connection
  /-- The connection broke. -/
  | connectionReset
  /-- A body that is not JSON. -/
  | notJson
  /-- A body that is not text. -/
  | notText
  /-- A value or byte string that its schema refuses. -/
  | malformed
  /-- A failure of which no more than its kind is known. -/
  | ofKind (kind : FailureKind)
  deriving DecidableEq, Repr, Inhabited

/-! ## Wordings -/

namespace Wording

/-- The text of a failed request. -/
def api (status text : String) : String := "Beacon API error " ++ status ++ ": " ++ text

/-- The text of an operation that a fork lacks. -/
def unsupported (fork operation : String) : String :=
  operation ++ " is not available for " ++ fork ++ " payloads"

/-- The text of an unknown tag, which is shown quoted. -/
def unknownSchema (shown : String) : String :=
  "badly formatted payload: unknown schema " ++ shown

/-- The text of a position outside the registry. -/
def validatorIndex (index validators : String) (balances : Option String) : String :=
  let counts := match balances with
    | some b => "validators=" ++ validators ++ ", balances=" ++ b
    | none => "validators=" ++ validators
  "invalid validator index " ++ index ++ " (" ++ counts ++ ")"

/-- The text of a deadline that passed. -/
def pollTimeout (what timeout : String) : String :=
  "timed out after " ++ timeout ++ "s waiting for " ++ what

end Wording

/-- The message of a failure, for the kinds whose text belongs to the contract. -/
def Failure.message? : Failure → Option String
  | harness text | notInitialized text | notReady text | registry text => some text
  | config fault => some fault.message
  | api status text => some (Wording.api (toString status) text)
  | notFound text => some (Wording.api "404" text)
  | unsupported fork operation => some (Wording.unsupported fork operation)
  | unknownSchema version => some (Wording.unknownSchema (Text.Quoted.ofString version))
  | validatorIndex index validators balances =>
    some (Wording.validatorIndex (Datum.ofNumber index).display (toString validators)
      (balances.map toString))
  | pollTimeout what timeout => some (Wording.pollTimeout what timeout)
  | missingKey key => some key
  | unreadable cause => cause.message?
  | _ => none

/-! ## Kinds of failures -/

/-- The kind of a failure. -/
def Failure.kind : Failure → FailureKind
  | harness _ => .harness
  | config _ => .config
  | notInitialized _ => .notInitialized
  | notReady _ => .notReady
  | api _ _ => .api
  | notFound _ => .notFound
  | unsupported _ _ => .unsupported
  | unknownSchema _ => .unknownSchema
  | registry _ => .registry
  | validatorIndex _ _ _ => .validatorIndex
  | pollTimeout _ _ => .pollTimeout
  | missingKey _ => .missingKey
  | unreadable _ => .unreadable
  | wrongKind => .wrongKind
  | noProperty => .noProperty
  | divisionByZero => .divisionByZero
  | outOfRange => .outOfRange
  | noElement => .noElement
  | timedOut => .timedOut
  | cancelled => .cancelled
  | transport => .transport
  | connection => .connection
  | connectionReset => .connectionReset
  | notJson => .notJson
  | notText => .notText
  | malformed => .malformed
  | ofKind kind => kind

/-- Whether a failure is of one of the given kinds. -/
def Failure.isOneOf (e : Failure) (kinds : List FailureKind) : Bool := kinds.any e.kind.isA

/-- The failures that mean "ask again later" while a node is coming up. -/
def transientKinds : List FailureKind := [.notReady, .api, .transport, .timedOut]

/-- Whether a failure means "ask again later". -/
def Failure.isTransient (e : Failure) : Bool := e.isOneOf transientKinds

end BeaconHarness
