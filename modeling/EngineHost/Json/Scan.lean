import EngineHost.Json.Reader

/-!
# Texts that break off

`Json.breaksOff` tells a text that ends before its first value does from one that no further text
could mend. It goes through the text character by character and keeps what it waits for next and
which arrays and objects are open.
-/

namespace EngineHost.Json

/-- What a scan waits for. -/
inductive Wait where
  | value
  | firstItem
  | firstMember
  | name
  | colon
  | afterValue
  | inString (isName : Bool)
  | escape (isName : Bool)
  | unit (left : Nat) (isName : Bool)
  | literal (rest : List Char)
  | minus
  | zero
  | digits
  | point
  | fraction
  | exponent
  | signed
  | power
  deriving DecidableEq, Repr

/-- What an open bracket stands for. -/
inductive Open where
  | array
  | object
  deriving DecidableEq, Repr

/-- What one character does to a scan. -/
inductive ScanStep where
  | next (wait : Wait) (stack : List Open)
  | finished
  | refused
  deriving DecidableEq, Repr

/-- Closes the innermost bracket. -/
def closeInner : List Open → ScanStep
  | _ :: [] => .finished
  | _ :: stack => .next .afterValue stack
  | [] => .finished

/-- A character at the start of a value. -/
def stepValue (stack : List Open) (c : Char) : ScanStep :=
  if c = '"' then .next (.inString false) stack
  else if c = '[' then
    if maxDepth ≤ stack.length then .refused else .next .firstItem (.array :: stack)
  else if c = '\x7b' then
    if maxDepth ≤ stack.length then .refused else .next .firstMember (.object :: stack)
  else if c = 'n' then .next (.literal ['u', 'l', 'l']) stack
  else if c = 't' then .next (.literal ['r', 'u', 'e']) stack
  else if c = 'f' then .next (.literal ['a', 'l', 's', 'e']) stack
  else if c = '-' then .next .minus stack
  else if c = '0' then .next .zero stack
  else if isDigit c then .next .digits stack
  else .refused

/-- A character behind a value. -/
def stepAfter (stack : List Open) (c : Char) : ScanStep :=
  match stack with
  | [] => .finished
  | inner :: _ =>
    if isSpace c then .next .afterValue stack
    else if c = ',' then .next (if inner = .array then .value else .name) stack
    else if c = (if inner = .array then ']' else '\x7d') then closeInner stack
    else .refused

/-- A character in or behind a number. -/
def stepNumber (stack : List Open) (wait : Wait) (c : Char) : ScanStep :=
  let isPower := c = 'e' || c = 'E'
  match wait with
  | .minus =>
    if c = '0' then .next .zero stack else if isDigit c then .next .digits stack else .refused
  | .zero | .digits =>
    if wait = .digits ∧ isDigit c then .next .digits stack
    else if c = '.' then .next .point stack
    else if isPower then .next .exponent stack
    else stepAfter stack c
  | .point => if isDigit c then .next .fraction stack else .refused
  | .fraction =>
    if isDigit c then .next .fraction stack
    else if isPower then .next .exponent stack
    else stepAfter stack c
  | .exponent =>
    if c = '+' || c = '-' then .next .signed stack
    else if isDigit c then .next .power stack
    else .refused
  | .signed => if isDigit c then .next .power stack else .refused
  | _ => if isDigit c then .next .power stack else stepAfter stack c

/-- A character of a string. -/
def stepString (stack : List Open) (isName : Bool) (c : Char) : ScanStep :=
  if c = '"' then .next (if isName then .colon else .afterValue) stack
  else if c = '\\' then .next (.escape isName) stack
  else if isPlain c then .next (.inString isName) stack
  else .refused

/-- One character. -/
def scanStep (wait : Wait) (stack : List Open) (c : Char) : ScanStep :=
  match wait with
  | .value => if isSpace c then .next .value stack else stepValue stack c
  | .firstItem =>
    if isSpace c then .next .firstItem stack
    else if c = ']' then closeInner stack
    else stepValue stack c
  | .firstMember =>
    if isSpace c then .next .firstMember stack
    else if c = '\x7d' then closeInner stack
    else if c = '"' then .next (.inString true) stack
    else .refused
  | .name =>
    if isSpace c then .next .name stack
    else if c = '"' then .next (.inString true) stack
    else .refused
  | .colon =>
    if isSpace c then .next .colon stack
    else if c = ':' then .next .value stack
    else .refused
  | .afterValue => stepAfter stack c
  | .inString isName => stepString stack isName c
  | .escape isName =>
    if c = 'u' then .next (.unit 4 isName) stack
    else if (plainEscape? c).isSome then .next (.inString isName) stack
    else .refused
  | .unit left isName =>
    if (Bytes.hexValue? c).isNone then .refused
    else if left ≤ 1 then .next (.inString isName) stack
    else .next (.unit (left - 1) isName) stack
  | .literal [] => stepAfter stack c
  | .literal (d :: rest) =>
    if c ≠ d then .refused
    else if rest.isEmpty then .next .afterValue stack
    else .next (.literal rest) stack
  | wait => stepNumber stack wait c

/-- Does a text end before a scan is through? -/
def endsWithin (wait : Wait) (stack : List Open) : List Char → Bool
  | [] => true
  | c :: more =>
    match scanStep wait stack c with
    | .next wait stack => endsWithin wait stack more
    | .finished => false
    | .refused => false

/-- Does a text end before its first value does, without being beyond repair? -/
def breaksOff (cs : List Char) : Bool :=
  endsWithin .value [] cs

end EngineHost.Json
