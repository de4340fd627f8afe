/-!
# JSON values

Members keep the order and the repetitions of the text, and a number keeps its spelling: what they
mean is decided where a value is read into a type.
-/

namespace EngineHost

/-- A JSON value. -/
inductive Json where
  | null
  | bool (b : Bool)
  | number (spelling : String)
  | string (s : String)
  | array (items : List Json)
  | object (members : List (String × Json))
  deriving Inhabited

namespace Json

/-- An integer. -/
def int (n : Int) : Json :=
  .number (toString n)

/-- A list of integers of sixty-four bits. -/
def ints (ns : List Int64) : Json :=
  .array (ns.map fun n => int n.toInt)

/-- A list of texts. -/
def strings (ss : List String) : Json :=
  .array (ss.map .string)

/-- A list, or null where there is none. -/
def orNull (write : α → Json) : Option α → Json
  | none => .null
  | some a => write a

/-- The members, by name. -/
def sorted (members : List (String × Json)) : Json :=
  .object (members.mergeSort fun a b => a.1 ≤ b.1)

end Json

end EngineHost
