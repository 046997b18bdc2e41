import ArrayEngine.Shell.Token
import ArrayEngine.Value.Coercion

/-!
# Values and numbers of a command line

A word denotes a value: one of the named values, a text between quotes, a big integer with the
suffix `n`, or a number. A list denotes the values of its words, between which commas count as
blanks, wherever they stand.
-/

namespace ArrayEngine.Shell

open Binary (Double)

/-- The values that have a name. -/
def namedValue? (word : Token) : Option Value :=
  match String.ofList word with
  | "undefined" => some .undefined
  | "null" => some .null
  | "true" => some (.boolean true)
  | "false" => some (.boolean false)
  | "NaN" => some (.number Double.nan)
  | _ => none

/-- Text between two characters at the ends of a word. -/
def between? (first last : Char) : Token → Option (List Char)
  | [] => none
  | c :: rest => if c = first ∧ rest.getLast? = some last then some rest.dropLast else none

/-- Number denoted by a word. -/
def readNumber (word : Token) : Except ReadError Double :=
  let x := Value.numberOfText word
  if x.isNaN && word != "NaN".toList || (Text.trim word).isEmpty then .error (.notValue word)
  else .ok x

/-- Big integer denoted by a word that ends with the suffix. -/
def bigIntLiteral? (word : Token) : Option Int :=
  if word.getLast? = some 'n' then Decimal.integer? word.dropLast else none

/-- Value denoted by a word. -/
def readValue (word : Token) : Except ReadError Value :=
  match namedValue? word with
  | some value => .ok value
  | none =>
    match (between? '"' '"' word).or (between? '\'' '\'' word) with
    | some text => .ok (.ofText text)
    | none =>
      match bigIntLiteral? word with
      | some n => .ok (.bigInt n)
      | none => (readNumber word).map .number

/-- Values denoted by words. -/
def readValues (words : List Token) : Except ReadError (List Value) := words.mapM readValue

/-- Whether a word is a list. -/
def isList (word : Token) : Bool := word.head? == some '['

/-- Values of a list. -/
def readList (word : Token) : Except ReadError (List Value) :=
  match between? '[' ']' word with
  | none => .error (.notList word)
  | some inner => do
    let words ← tokenize (inner.map fun c => if c = ',' then ' ' else c)
    if words.any isList then throw .nestedList
    readValues words

/-- Array index denoted by a word. -/
def readIndex (word : Token) : Except ReadError Nat :=
  match Decimal.unsigned? 10 32 word with
  | some n => .ok n
  | none => .error (.notIndex word)

/-- Number of bytes or lanes denoted by a word. -/
def readCount (word : Token) : Except ReadError Nat :=
  match Decimal.unsigned? 10 64 word with
  | some n => .ok n
  | none => .error (.notCount word)

/-- Lane kind named by a word. -/
def readLaneKind (word : Token) : Except ReadError LaneKind :=
  match LaneKind.ofName? (String.ofList word) with
  | some kind => .ok kind
  | none => .error (.notLaneKind word)

end ArrayEngine.Shell
