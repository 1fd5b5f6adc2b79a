import DevAdapter.CJson.Parse

/-!
# cJSON_Print

The text of a tree, with the line ends and tabs of the formatted output. How a
number prints is a parameter: no tree that the program builds has one.
-/

namespace DevAdapter.CJson

/-- `%04x` -/
def hexDigits (b : UInt8) : List UInt8 :=
  let digit (n : UInt8) : UInt8 := if n < 10 then ascii '0' + n else ascii 'a' + (n - 10)
  [ascii '0', ascii '0', digit (b / 16), digit (b % 16)]

/-- What `print_string_ptr` writes for a character. -/
def escaped (b : UInt8) : List UInt8 :=
  if 31 < b ∧ b ≠ ascii '"' ∧ b ≠ ascii '\\' then [b]
  else ascii '\\' ::
    if b = ascii '\\' ∨ b = ascii '"' then [b]
    else if b = 8 then [ascii 'b']
    else if b = 12 then [ascii 'f']
    else if b = 10 then [ascii 'n']
    else if b = 13 then [ascii 'r']
    else if b = 9 then [ascii 't']
    else ascii 'u' :: hexDigits b

def printString (input : List UInt8) : List UInt8 :=
  ascii '"' :: (cstr input).flatMap escaped ++ [ascii '"']

def tabs (depth : Nat) : List UInt8 := List.replicate depth (ascii '\t')

section
variable (printNumber : List UInt8 → List UInt8)

mutual

/-- `print_value`, in a buffer at `depth`. -/
def printValue (depth : Nat) : CJson → List UInt8
  | .null => bytes "null"
  | .bool false => bytes "false"
  | .bool true => bytes "true"
  | .number text => printNumber text
  | .string text => printString text
  | .array child => ascii '[' :: printElements (depth + 1) child ++ [ascii ']']
  | .object child =>
    bytes "\x7b\n" ++ printMembers (depth + 1) child ++ tabs depth ++ bytes "\x7d"

/-- The loop of `print_array`. -/
def printElements (depth : Nat) : List CJson → List UInt8
  | [] => []
  | item :: next =>
    printValue depth item ++ (if next.isEmpty then [] else bytes ", ") ++ printElements depth next

/-- The loop of `print_object`. -/
def printMembers (depth : Nat) : List (List UInt8 × CJson) → List UInt8
  | [] => []
  | (name, item) :: next =>
    tabs depth ++ printString name ++ bytes ":\t" ++ printValue depth item ++
      (if next.isEmpty then [] else bytes ",") ++ bytes "\n" ++ printMembers depth next

end

def print (item : CJson) : List UInt8 := printValue printNumber 0 item

end

end DevAdapter.CJson
