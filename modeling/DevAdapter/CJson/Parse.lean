import DevAdapter.Lib.Parsing

/-!
# cJSON

The tree that `cJSON_Parse` builds of a text, and the look-up of a member by
its name. A text is given without its NUL: the end of the list is where the
parser finds it. What stands behind the first value is not looked at. How many
levels may still be opened is the recursion of `parse_value`.
-/

namespace DevAdapter

open Parsing

def ascii (c : Char) : UInt8 := c.toNat.toUInt8

def bytes (text : String) : List UInt8 := text.toList.map ascii

/-- What a function on C strings sees of the bytes from a pointer on. -/
def cstr (s : List UInt8) : List UInt8 := s.takeWhile (· ≠ 0)

/-- A string is its `valuestring`, a number the text that `strtod` converts, and
a member stands with its `string`. -/
inductive CJson
  | null
  | bool (value : Bool)
  | number (text : List UInt8)
  | string (valuestring : List UInt8)
  | array (child : List CJson)
  | object (child : List (List UInt8 × CJson))

namespace CJson

def nestingLimit : Nat := 1000

/-- What `buffer_skip_whitespace` skips. -/
def whitespace (b : UInt8) : Bool := b ≤ 32

-- ---------------------------------------------------------------------------
-- Numbers
-- ---------------------------------------------------------------------------

def isDigit (b : UInt8) : Bool := ascii '0' ≤ b && b ≤ ascii '9'

/-- What `parse_number` copies. -/
def numberChar (b : UInt8) : Bool :=
  isDigit b || b ∈ [ascii '+', ascii '-', ascii 'e', ascii 'E', ascii '.']

def signLength : List UInt8 → Nat
  | [] => 0
  | b :: _ => if b = ascii '+' ∨ b = ascii '-' then 1 else 0

def digitsLength (s : List UInt8) : Nat := (s.takeWhile isDigit).length

def fractionLength : List UInt8 → Nat
  | [] => 0
  | b :: s => if b = ascii '.' then 1 + digitsLength s else 0

def exponentLength : List UInt8 → Nat
  | [] => 0
  | b :: s =>
    let sign := signLength s
    let digits := digitsLength (s.drop sign)
    if (b = ascii 'e' ∨ b = ascii 'E') ∧ 0 < digits then 1 + sign + digits else 0

/-- How many characters `strtod` converts of what `parse_number` copies. -/
def strtod (s : List UInt8) : Nat :=
  let sign := signLength s
  let whole := digitsLength (s.drop sign)
  let fraction := fractionLength (s.drop (sign + whole))
  if whole + (fraction - 1) = 0 then 0
  else
    sign + whole + fraction + exponentLength (s.drop (sign + whole + fraction))

/-- `number_c_string` has 64 bytes. -/
def parseNumber : Parser UInt8 CJson := fun s =>
  let text := (s.take 63).takeWhile numberChar
  let n := strtod text
  if n = 0 then none else some (.number (text.take n), s.drop n)

-- ---------------------------------------------------------------------------
-- Strings
-- ---------------------------------------------------------------------------

def hexDigit (b : UInt8) : Option Nat :=
  if isDigit b then some (b - ascii '0').toNat
  else if ascii 'A' ≤ b ∧ b ≤ ascii 'F' then some (10 + (b - ascii 'A').toNat)
  else if ascii 'a' ≤ b ∧ b ≤ ascii 'f' then some (10 + (b - ascii 'a').toNat)
  else none

/-- Digits that are none make 0. -/
def parseHex4 (input : List UInt8) : Nat :=
  match (input.take 4).mapM hexDigit with
  | some ds => ds.foldl (fun h d => h <<< 4 + d) 0
  | none => 0

/-- The bytes of a code point, from the last of `n` continuation bytes on. -/
def utf8Bytes (firstByteMark : Nat) : Nat → Nat → List UInt8 → List UInt8
  | 0, codepoint, out => ((codepoint ||| firstByteMark) &&& 0xFF).toUInt8 :: out
  | n + 1, codepoint, out =>
    utf8Bytes firstByteMark n (codepoint >>> 6) (((codepoint ||| 0x80) &&& 0xBF).toUInt8 :: out)

def utf8 (codepoint : Nat) : Option (List UInt8) :=
  if codepoint < 0x80 then some [(codepoint &&& 0x7F).toUInt8]
  else if codepoint < 0x800 then some (utf8Bytes 0xC0 1 codepoint [])
  else if codepoint < 0x10000 then some (utf8Bytes 0xE0 2 codepoint [])
  else if codepoint ≤ 0x10FFFF then some (utf8Bytes 0xF0 3 codepoint [])
  else none

/-- The bytes for an escape, and how long the escape is; `s` goes from its
backslash to the end of the string. -/
def utf16LiteralToUtf8 (s : List UInt8) : Option (List UInt8 × Nat) :=
  if s.length < 6 then none
  else
    let firstCode := parseHex4 (s.drop 2)
    if 0xDC00 ≤ firstCode ∧ firstCode ≤ 0xDFFF then none
    else if 0xD800 ≤ firstCode ∧ firstCode ≤ 0xDBFF then
      let second := s.drop 6
      if second.length < 6 then none
      else if second[0]? ≠ some (ascii '\\') ∨ second[1]? ≠ some (ascii 'u') then none
      else
        let secondCode := parseHex4 (second.drop 2)
        if secondCode < 0xDC00 ∨ 0xDFFF < secondCode then none
        else
          (utf8 (0x10000 + ((firstCode &&& 0x3FF) <<< 10 ||| (secondCode &&& 0x3FF)))).map (·, 12)
    else (utf8 firstCode).map (·, 6)

def escape (c : UInt8) : Option UInt8 :=
  if c = ascii 'b' then some 8
  else if c = ascii 'f' then some 12
  else if c = ascii 'n' then some 10
  else if c = ascii 'r' then some 13
  else if c = ascii 't' then some 9
  else if c = ascii '"' ∨ c = ascii '\\' ∨ c = ascii '/' then some c
  else none

/-- The second loop of `parse_string`, over the bytes before the closing quote. A
backslash that an escape has left as the last of them takes that quote with it. -/
def unescape : Nat → List UInt8 → Option (List UInt8)
  | _, [] => some []
  | 0, _ :: _ => none
  | fuel + 1, b :: s =>
    if b ≠ ascii '\\' then (unescape fuel s).map (b :: ·)
    else
      let c := s.headD (ascii '"')
      if c = ascii 'u' then
        match utf16LiteralToUtf8 (b :: s) with
        | none => none
        | some (out, n) => (unescape fuel (s.drop (n - 1))).map (out ++ ·)
      else
        match escape c with
        | none => none
        | some d => (unescape fuel (s.drop 1)).map (d :: ·)

/-- The first loop of `parse_string`: the bytes before the closing quote, and the
rest behind it. -/
def stringEnd : List UInt8 → Option (List UInt8 × List UInt8)
  | [] => none
  | b :: s =>
    if b = ascii '"' then some ([], s)
    else if b = ascii '\\' then
      match s with
      | [] => none
      | c :: s => (stringEnd s).map fun (body, rest) => (b :: c :: body, rest)
    else (stringEnd s).map fun (body, rest) => (b :: body, rest)

def parseString : Parser UInt8 (List UInt8)
  | [] => none
  | b :: s =>
    if b = ascii '"' then
      match stringEnd s with
      | none => none
      | some (body, rest) => (unescape body.length body).map (·, rest)
    else none

-- ---------------------------------------------------------------------------
-- Values
-- ---------------------------------------------------------------------------

/-- The elements of an array or the members of an object, behind the bracket. -/
def parseChildren (close : Char) (child : Parser UInt8 α) : Parser UInt8 (List α) := fun s =>
  match s.dropWhile whitespace with
  | [] => none
  | b :: rest =>
    if b = ascii close then some ([], rest)
    else items whitespace (ascii ',') (ascii close) child (s.length + 1) s

def parseArray (value : Parser UInt8 CJson) : Parser UInt8 CJson := fun s =>
  (parseChildren ']' value s).map fun (child, rest) => (.array child, rest)

def parseMember (value : Parser UInt8 CJson) : Parser UInt8 (List UInt8 × CJson) := fun s =>
  match parseString s with
  | none => none
  | some (name, s) =>
    match s.dropWhile whitespace with
    | [] => none
    | b :: s =>
      if b = ascii ':' then
        (value (s.dropWhile whitespace)).map fun (v, rest) => ((name, v), rest)
      else none

def parseObject (value : Parser UInt8 CJson) : Parser UInt8 CJson := fun s =>
  (parseChildren '}' (parseMember value) s).map fun (child, rest) => (.object child, rest)

/-- What is none of the three words; `nested` parses one level deeper, if the
limit allows another level. -/
def parseMarked (nested : Option (Parser UInt8 CJson)) : Parser UInt8 CJson
  | [] => none
  | b :: s =>
    if b = ascii '"' then (parseString (b :: s)).map fun (text, rest) => (.string text, rest)
    else if b = ascii '-' ∨ isDigit b then parseNumber (b :: s)
    else if b = ascii '[' then nested.bind (parseArray · s)
    else if b = ascii '{' then nested.bind (parseObject · s)
    else none

/-- `left` is `CJSON_NESTING_LIMIT` less the depth. -/
def parseValue (left : Nat) : Parser UInt8 CJson := fun s =>
  if (bytes "null").isPrefixOf s then some (.null, s.drop 4)
  else if (bytes "false").isPrefixOf s then some (.bool false, s.drop 5)
  else if (bytes "true").isPrefixOf s then some (.bool true, s.drop 4)
  else
    match left with
    | 0 => parseMarked none s
    | left + 1 => parseMarked (some (parseValue left)) s

/-- The byte order mark is skipped when at least one byte follows. -/
def skipUtf8Bom (s : List UInt8) : List UInt8 :=
  if 4 < s.length + 1 ∧ [0xEF, 0xBB, 0xBF].isPrefixOf s then s.drop 3 else s

/-- `cJSON_Parse`; `none` is `NULL`. -/
def parse (value : List UInt8) : Option CJson :=
  (parseValue nestingLimit ((skipUtf8Bom (cstr value)).dropWhile whitespace)).map (·.1)

-- ---------------------------------------------------------------------------
-- Members
-- ---------------------------------------------------------------------------

def tolower (b : UInt8) : UInt8 := if ascii 'A' ≤ b ∧ b ≤ ascii 'Z' then b + 32 else b

def caseInsensitiveEq (string1 string2 : List UInt8) : Bool :=
  (cstr string1).map tolower = (cstr string2).map tolower

/-- `cJSON_GetObjectItem`; the elements of an array have no name. -/
def getObjectItem (object : Option CJson) (name : List UInt8) : Option CJson :=
  match object with
  | some (.object child) => (child.find? fun member => caseInsensitiveEq name member.1).map (·.2)
  | _ => none

def valuestring : CJson → Option (List UInt8)
  | .string text => some text
  | .null | .bool _ | .number _ | .array _ | .object _ => none

end CJson

end DevAdapter
