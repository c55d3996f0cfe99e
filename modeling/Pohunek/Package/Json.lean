/-
# Canonical JSON

`crates/package/src/canonical_json.rs`: a document of the strict subset is a
`Value`, and `canonicalBytes` is the byte form its signatures cover. Text is
its UTF-8 bytes; the parser below `parse_strict` is a parameter of the
verifiers that call it.
-/
import Pohunek.Package.Archive

namespace Pohunek.Package

/-- The bytes of an ASCII text. -/
def ascii (text : String) : Bytes := text.toList.map fun c => c.toNat.toUInt8

inductive JsonError
  | syntaxError | duplicateKey | unsupportedNumber
  deriving DecidableEq

/-- A document without negative or fractional numbers. -/
inductive Value
  | null
  | bool (b : Bool)
  | number (n : ℕ)
  | string (text : Bytes)
  | array (items : List Value)
  | object (members : List (Bytes × Value))

/-! ### Members -/

/-- `Value::get` with a key. -/
def Value.get : Value → Bytes → Option Value
  | .object members, key => members.lookup key
  | _, _ => none

/-- `Value::pointer` along keys. -/
def Value.pointer (value : Value) (path : List Bytes) : Option Value := path.foldlM Value.get value

def Value.asU64 : Value → Option ℕ
  | .number n => some n
  | _ => none

/-! ### The canonical form -/

def hexDigit (n : ℕ) : UInt8 := if n < 10 then 48 + n.toUInt8 else 87 + n.toUInt8

/-- A byte of a string as `serde_json` writes it. -/
def escapeByte (byte : UInt8) : Bytes :=
  if byte = 34 then [92, 34]
  else if byte = 92 then [92, 92]
  else if byte = 8 then [92, 98]
  else if byte = 9 then [92, 116]
  else if byte = 10 then [92, 110]
  else if byte = 12 then [92, 102]
  else if byte = 13 then [92, 114]
  else if byte < 32 then [92, 117, 48, 48, hexDigit (byte.toNat / 16), hexDigit (byte.toNat % 16)]
  else [byte]

def writeString (text : Bytes) : Bytes := 34 :: text.flatMap escapeByte ++ [34]

def writeNumber (n : ℕ) : Bytes := (Nat.toDigits 10 n).map fun c => c.toNat.toUInt8

/-- The items with a comma between them. -/
def commaSeparated (items : List Bytes) : Bytes := [44].intercalate items

/-- Members in ascending byte order of their keys. -/
def sortMembers (members : List (Bytes × Bytes)) : List (Bytes × Bytes) :=
  members.insertionSort fun left right => pathKey left.1 ≤ pathKey right.1

mutual
def canonicalBytes : Value → Bytes
  | .null => ascii "null"
  | .bool b => if b then ascii "true" else ascii "false"
  | .number n => writeNumber n
  | .string text => writeString text
  | .array items => 91 :: commaSeparated (itemsBytes items) ++ [93]
  | .object members =>
    123 :: commaSeparated
      ((sortMembers (membersBytes members)).map fun m => writeString m.1 ++ 58 :: m.2) ++ [125]

def itemsBytes : List Value → List Bytes
  | [] => []
  | item :: items => canonicalBytes item :: itemsBytes items

def membersBytes : List (Bytes × Value) → List (Bytes × Bytes)
  | [] => []
  | (key, member) :: members => (key, canonicalBytes member) :: membersBytes members
end

/-- What a signature of the given domain covers. -/
def domainMessage (domain : Bytes) (value : Value) : Bytes := domain ++ canonicalBytes value

end Pohunek.Package
