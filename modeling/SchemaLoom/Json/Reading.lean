import SchemaLoom.Json.Place
import SchemaLoom.Json.Printer
import SchemaLoom.Json.Scan
import SchemaLoom.Text.Shown

set_option autoImplicit false

/-! # Reading typed values

A `Reader` builds a value from a draft or says what is wrong and where. The same reader serves a
text and a stored value: reading a stored value is reading its draft (`Draft.ofJson`).

A record may be written as an object or as the array of its fields in order. Reading follows the
text, so of two faults the first in the text is reported.
-/

namespace SchemaLoom

/-! ## Faults -/

/-- What stands where something else is expected. -/
inductive Found where
  | null
  | bool (value : Bool)
  | num (value : JsonNumber)
  | str (text : String)
  | sequence
  | map
  deriving DecidableEq, Repr

/-- Why a value is not what is to be read. -/
inductive ReadFault where
  /-- The text is not JSON at this place. -/
  | notJson (cause : SyntaxError)
  | wrongType (found : Found) (expected : String)
  | missingField (name : String)
  | unknownField (name : String) (known : List String)
  | duplicateField (name : String)
  | wrongLength (length : Nat) (expected : String)
  deriving DecidableEq, Repr

/-- A fault of a reader with its place. -/
abbrev ReadError := Located ReadFault

/-- The wording of what was found. -/
def Found.message : Found → String
  | null => "null"
  | bool value => s!"boolean `{value}`"
  | num (.int value) => s!"integer `{String.ofList (JsonNumber.intText value)}`"
  | num (.double bits) => s!"floating point `{String.ofList (JsonNumber.doubleText bits)}`"
  | str text => s!"string {Text.shown text}"
  | sequence => "sequence"
  | map => "map"

/-- A name between backquotes. -/
def fieldQuoted (name : String) : String := "`" ++ name ++ "`"

/-- The wording of a fault. -/
def ReadFault.message : ReadFault → String
  | notJson cause => cause.message
  | wrongType found expected => s!"invalid type: {found.message}, expected {expected}"
  | missingField name => s!"missing field {fieldQuoted name}"
  | unknownField name known =>
      s!"unknown field {fieldQuoted name}, expected one of "
        ++ ", ".intercalate (known.map fieldQuoted)
  | duplicateField name => s!"duplicate field {fieldQuoted name}"
  | wrongLength length expected => s!"invalid length {length}, expected {expected}"

/-- The wording of a fault with its place. -/
def ReadError.message (e : ReadError) : String :=
  s!"at JSON path {e.place.text} → {e.cause.message}"

/-! ## Documents -/

/-- The place of a fault in the value of a member. A missing colon belongs to the object. -/
def memberPlace (place : Place) (key : String) : Draft → Place
  | .noColon _ => place
  | _ => place ++ [.key key]

mutual

/-- The value that a draft spells, or its first fault. -/
def Draft.toJson (place : Place) : Draft → Except (Located SyntaxError) Json
  | .null => .ok .null
  | .bool value => .ok (.bool value)
  | .num (.good value) => .ok (.num value)
  | .num (.faulty strict _) => .error ⟨place, strict⟩
  | .str (.good text) => .ok (.str text)
  | .str (.faulty strict _) => .error ⟨place, strict⟩
  | .broken cause | .noColon cause => .error ⟨place, cause⟩
  | .arr deep items stop =>
      if deep then .error ⟨place, .tooDeep⟩
      else do
        let values ← toItems place 0 items
        match stop.nextFault? with
        | some fault => .error ⟨place, fault⟩
        | none => return .arr values
  | .obj deep members stop =>
      if deep then .error ⟨place, .tooDeep⟩
      else do
        let values ← toMembers place members
        match stop.nextFault? with
        | some fault => .error ⟨place ++ [.unreadKey], fault⟩
        | none => return .obj (Entries.gather values)

/-- The values of items, the first of which has the given index. -/
def Draft.toItems (place : Place) (i : Nat) :
    List Draft → Except (Located SyntaxError) (List Json)
  | [] => .ok []
  | item :: rest => do
      let value ← toJson (place ++ [.index i]) item
      return value :: (← toItems place (i + 1) rest)

/-- The members in the order of the text, repeated keys included. -/
def Draft.toMembers (place : Place) :
    List (Token String × Draft) → Except (Located SyntaxError) (List (String × Json))
  | [] => .ok []
  | (.faulty strict _, _) :: _ => .error ⟨place ++ [.unreadKey], strict⟩
  | (.good key, value) :: rest => do
      let value ← toJson (memberPlace place key value) value
      return (key, value) :: (← toMembers place rest)

end

/-- Reads a document that may nest arrays and objects up to a limit. Only blanks may follow the
value. -/
def Json.parseNested (limit : Nat) (text : String) : Except SyntaxError Json :=
  let (draft, rest) := Draft.scanNested limit text.toList
  match draft.toJson [] with
  | .error e => .error e.cause
  | .ok value => if (skipBlanks (rest.getD [])).isEmpty then .ok value else .error .trailingText

/-- Reads a document. -/
def Json.parse (text : String) : Except SyntaxError Json := Json.parseNested nestingLimit text

/-! ## Readers -/

/-- Builds a value from a draft at a place. -/
abbrev Reader (α : Type) := Place → Draft → Except ReadError α

namespace Reader

variable {α ρ : Type}

/-- Reads a text; what follows its first value is not looked at. -/
def ofText (reader : Reader α) (text : String) : Except ReadError α :=
  reader [] (Draft.scan text.toList).1

/-- Reads a stored value. -/
def ofValue (reader : Reader α) (value : Json) : Except ReadError α :=
  reader [] (.ofJson value)

/-- Refuses a draft where something else is expected. A faulty token is reported as such. -/
def refuse (expected : String) : Reader α := fun place draft =>
  let found := fun (what : Found) => .error ⟨place, .wrongType what expected⟩
  match draft with
  | .null => found .null
  | .bool value => found (.bool value)
  | .num (.good value) => found (.num value)
  | .str (.good text) => found (.str text)
  | .num (.faulty strict _) | .str (.faulty strict _) | .broken strict | .noColon strict =>
      .error ⟨place, .notJson strict⟩
  | .arr _ _ _ => found .sequence
  | .obj _ _ _ => found .map

/-- Reads a string. -/
def string : Reader String
  | _, .str (.good text) => .ok text
  | place, draft => refuse "a string" place draft

/-- Reads a boolean. -/
def bool : Reader Bool
  | _, .bool value => .ok value
  | place, draft => refuse "a boolean" place draft

/-- Reads any value. -/
def json : Reader Json := fun place draft =>
  match draft.toJson place with
  | .ok value => .ok value
  | .error e => .error ⟨e.place, .notJson e.cause⟩

/-- Reads a value that may be `null`. -/
def optional (reader : Reader α) : Reader (Option α)
  | _, .null => .ok none
  | place, draft => return some (← reader place draft)

/-- Reads items, the first of which has the given index. -/
def items (reader : Reader α) (place : Place) : Nat → List Draft → Except ReadError (List α)
  | _, [] => .ok []
  | i, draft :: rest => do
      let a ← reader (place ++ [.index i]) draft
      return a :: (← items reader place (i + 1) rest)

/-- Reads a list. -/
def list (reader : Reader α) : Reader (List α)
  | place, .arr deep drafts stop =>
      if deep then .error ⟨place, .notJson .tooDeep⟩
      else do
        let values ← reader.items place 0 drafts
        match stop.nextFault? with
        | some fault => .error ⟨place, .notJson fault⟩
        | none => return values
  | place, draft => refuse "a sequence" place draft

end Reader

/-! ## Records -/

/-- A field of a record `ρ`: its name, other names for it, and how it is read. A field that is not
required keeps its initial value when it is absent. -/
structure Field (ρ : Type) where
  name : String
  aliases : List String := []
  required : Bool := false
  /-- Reads the value of the field and says how it changes the record. -/
  read : Reader (ρ → ρ)

/-- Whether a key denotes the field. -/
def Field.matches {ρ : Type} (field : Field ρ) (key : String) : Bool :=
  field.name = key || field.aliases.contains key

/-- How records of a type are read. -/
structure Layout (ρ : Type) where
  name : String
  fields : List (Field ρ)
  /-- Whether keys that denote no field are passed over. -/
  skipsUnknown : Bool
  initial : ρ

namespace Layout

variable {ρ : Type}

/-- The wording for a record of the layout. -/
def expected (layout : Layout ρ) : String := s!"struct {layout.name}"

/-- Reads the fields, from the one with the given index on, from the items of an array. -/
def readItems (layout : Layout ρ) (place : Place) (stop : ArrayStop) (total : Nat) :
    Nat → List (Field ρ) → List Draft → ρ → Except ReadError ρ
  | _, [], [], record =>
      match stop.closeFault? with
      | some fault => .error ⟨place, .notJson fault⟩
      | none => .ok record
  | _, [], _ :: _, _ =>
      if stop = .stored then .error ⟨place, .wrongLength total "fewer elements in array"⟩
      else .error ⟨place, .notJson .trailingText⟩
  -- A missing item counts only after the array has ended as it should.
  | i, field :: fields, [], record =>
      match stop.nextFault? with
      | some fault => .error ⟨place, .notJson fault⟩
      | none =>
          if field.required then
            .error ⟨place, .wrongLength i
              s!"{layout.expected} with {layout.fields.length} elements"⟩
          else layout.readItems place stop total (i + 1) fields [] record
  | i, field :: fields, draft :: drafts, record => do
      let change ← field.read (place ++ [.index i]) draft
      layout.readItems place stop total (i + 1) fields drafts (change record)

/-- Reads the fields from the members of an object. `seen` holds the names of the fields that have
been read. -/
def readMembers (layout : Layout ρ) (place : Place) (stop : ObjectStop) :
    List String → List (Token String × Draft) → ρ → Except ReadError ρ
  | seen, [], record =>
      match stop.nextFault? with
      | some fault => .error ⟨place ++ [.unreadKey], .notJson fault⟩
      | none =>
          match layout.fields.find? fun field => field.required && !seen.contains field.name with
          | some field => .error ⟨place, .missingField field.name⟩
          | none => .ok record
  | _, (.faulty strict _, _) :: _, _ => .error ⟨place ++ [.unreadKey], .notJson strict⟩
  | seen, (.good key, draft) :: rest, record =>
      match layout.fields.find? fun field => field.matches key with
      | some field =>
          if seen.contains field.name then .error ⟨place, .duplicateField field.name⟩
          else do
            let change ← field.read (memberPlace place key draft) draft
            layout.readMembers place stop (field.name :: seen) rest (change record)
      | none =>
          if layout.skipsUnknown then
            match draft.skipFault? with
            | some fault => .error ⟨memberPlace place key draft, .notJson fault⟩
            | none => layout.readMembers place stop seen rest record
          else
            .error ⟨place ++ [.key key],
              .unknownField key (layout.fields.map fun field => field.name)⟩

/-- Reads a record. -/
def reader (layout : Layout ρ) : Reader ρ
  | place, .arr deep drafts stop =>
      if deep then .error ⟨place, .notJson .tooDeep⟩
      else layout.readItems place stop drafts.length 0 layout.fields drafts layout.initial
  | place, .obj deep members stop =>
      if deep then .error ⟨place, .notJson .tooDeep⟩
      else layout.readMembers place stop [] members layout.initial
  | place, draft => Reader.refuse layout.expected place draft

end Layout

end SchemaLoom
