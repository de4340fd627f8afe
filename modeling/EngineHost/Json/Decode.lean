import EngineHost.Json.Reader
import EngineHost.Number.Literal
import EngineHost.Text.Letters

/-!
# Reading JSON values into types

A place in a document may be given more than once: a name may stand twice in an object, and a list
under it may be given again. A `Reader` therefore reads the whole history of a place, the earliest
value first, and each value is laid over the ones before it:

* a number, a text or a truth value replaces, and null says nothing;
* an object adds to the histories of its members, and null says nothing;
* a list adds to the histories of its slots, takes its own length, and leaves the slots behind its
  end out of sight but as they are, so that a longer list brings them back;
* null in the place of a list, and a list without items, clear its slots.

Names of members match up to the case of letters; unknown names are passed over. A reader gives
nothing where some value of the history has the wrong kind, is a number with a fraction or an
exponent where an integer is wanted, or does not fit, whether or not a later value hides it.
-/

namespace EngineHost.Json

/-- Reads what the values given to one place come to. -/
abbrev Reader (α : Type) := List Json → Option α

namespace Reader

/-- A single thing, `blank` where nothing is said. -/
def single (blank : α) (read : Json → Option α) : Reader α :=
  List.foldlM (fun old v => match v with
    | .null => some old
    | v => read v) blank

/-- A text. -/
def text : Reader String :=
  single "" fun
    | .string s => some s
    | _ => none

/-- A truth value. -/
def flag : Reader Bool :=
  single false fun
    | .bool b => some b
    | _ => none

/-- An integer of sixty-four bits. -/
def int64 : Reader Int64 :=
  single 0 fun
    | .number spelling => Text.int64? spelling
    | _ => none

/-- A number of sixty-four bits. -/
def double : Reader Double :=
  single .zero fun
    | .number spelling => (Double.read spelling).toOption
    | _ => none

/-- The histories of the slots of a list, and how many of them are in sight if the list is there. -/
structure Slots where
  histories : List (List Json) := []
  inSight : Option Nat := none
  deriving Inhabited

/-- Adds one value to each history, from the first on; further values start new histories. -/
def layOver : List (List Json) → List Json → List (List Json)
  | histories, [] => histories
  | [], v :: more => [v] :: layOver [] more
  | h :: histories, v :: more => (h ++ [v]) :: layOver histories more

/-- Gives up the slots, which have to be readable all the same. -/
def Slots.clear (item : Reader α) (s : Slots) (inSight : Option Nat) : Option Slots :=
  (s.histories.mapM item).map fun _ => ⟨[], inSight⟩

/-- Lays one more value over a list. -/
def Slots.add (item : Reader α) (s : Slots) : Json → Option Slots
  | .null => s.clear item none
  | .array [] => s.clear item (some 0)
  | .array vs => some ⟨layOver s.histories vs, some vs.length⟩
  | _ => none

/-- A list that may be absent, which an empty one is not. -/
def list? (item : Reader α) : Reader (Option (List α)) := fun history => do
  let slots ← history.foldlM (Slots.add item) {}
  let items ← slots.histories.mapM item
  pure (slots.inSight.map items.take)

/-- A list. -/
def list (item : Reader α) : Reader (List α) := fun history =>
  (list? item history).map (·.getD [])

/-- A list of exactly two: missing items are blank, further ones are passed over. -/
def pair (item : Reader α) : Reader (α × α) := fun history => do
  let (first, second) ← history.foldlM (fun (first, second) v =>
    match v with
    | .null => some (first, second)
    | .array [] => do
      let _ ← item first
      let _ ← item second
      pure ([], [])
    | .array [a] => (item second).map fun _ => (first ++ [a], [])
    | .array (a :: b :: _) => some (first ++ [a], second ++ [b])
    | _ => none) (([], []) : List Json × List Json)
  pure (← item first, ← item second)

/-- A table from names to values: a later value replaces an earlier one. -/
def table (item : Reader α) : Reader (List (String × α)) :=
  List.foldlM (fun old v =>
    match v with
    | .null => some []
    | .object members =>
      members.foldlM (fun acc (name, v) => do
        let a ← item [v]
        pure (acc.filter (·.1 ≠ name) ++ [(name, a)])) old
    | _ => none) []

/-- The members of a record, in the order in which they are given. -/
structure Members where
  all : List (String × Json)
  deriving Inhabited

/-- Reads the member of a name. -/
def Members.get (m : Members) (name : String) (read : Reader α) : Option α :=
  read ((m.all.filter fun x => Text.sameIgnoringCase x.1 name).map (·.2))

/-- A record, made of its members. -/
def record (make : Members → Option α) : Reader α := fun history => do
  let objects ← history.mapM fun
    | .null => some []
    | .object members => some members
    | _ => none
  make ⟨objects.flatten⟩

end Reader

/-- The characters of a byte string that holds JSON text. -/
def chars (bs : Bytes) : List Char :=
  bs.toChars

end EngineHost.Json
