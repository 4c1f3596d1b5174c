import JavaSource.Table
import JavaSource.Toml.Basic

/-!
# Records

A record is a table with a closed set of keys, or an array that gives the fields by position. A variant has
its tag under a key of its own, or in front of the array.
-/

namespace JavaSource.Toml

namespace Value

def string? : Value → Option String
  | .scalar (.string s) => some s
  | _ => none

def boolean? : Value → Option Bool
  | .scalar (.boolean b) => some b
  | _ => none

def integer? : Value → Option Int
  | .scalar (.integer n) => some n
  | _ => none

def list? {α : Type} (f : Value → Option α) : Value → Option (List α)
  | .array items => items.mapM f
  | _ => none

/-- The key under which a date is its own text. -/
def dateTimeKey : String := "$__toml_private_datetime"

/-- The entries of a table. A date counts as a table of one entry. -/
def entries? : Value → Option (List (String × Value))
  | .table entries => some entries
  | .scalar (.dateTime t) => some [(dateTimeKey, .scalar (.string t.text))]
  | _ => none

def isEmpty : Value → Bool
  | .array items => items.isEmpty
  | .table entries => entries.isEmpty
  | .scalar _ => false

/-- A name of a choice: a string, or the only key of a table that says nothing more. -/
def choice? : Value → Option String
  | .scalar (.string s) => some s
  | .table [(name, v)] => if v.isEmpty then some name else none
  | _ => none

/-- The tag of a variant and its record. -/
def variant? (key : String) : Value → Option (String × Value)
  | .table entries =>
    match Table.find key entries with
    | some (.scalar (.string tag)) => some (tag, .table (entries.filter (·.1 ≠ key)))
    | _ => none
  | .array (.scalar (.string tag) :: items) => some (tag, .array items)
  | _ => none

end Value

/-- How a record is written. -/
structure RecordForm where
  /-- The names of the fields in the order of an array. -/
  names : List String
  /-- How many fields an array gives at least. -/
  least : Nat
  /-- Whether a table may have keys besides the names. -/
  isOpen : Bool := false
  /-- Whether an array may have items behind the last field. -/
  isLoose : Bool := false

/-- The fields of a record as far as they are given. -/
structure Record where
  fields : List (String × Value)

namespace Record

def ofValue? (form : RecordForm) : Value → Option Record
  | .table entries =>
    if form.isOpen || entries.all (form.names.contains ·.1) then some ⟨entries⟩ else none
  | .array items =>
    if items.length < form.least ∨ (!form.isLoose ∧ form.names.length < items.length) then none
    else some ⟨form.names.zip items⟩
  | .scalar _ => none

variable {α : Type}

/-- A field that a record must give. -/
def required? (r : Record) (name : String) (f : Value → Option α) : Option α :=
  (Table.find name r.fields).bind f

/-- A field that a record may leave out. -/
def optional? (r : Record) (name : String) (f : Value → Option α) : Option (Option α) :=
  match Table.find name r.fields with
  | none => some none
  | some v => (f v).map some

/-- A list that is empty when a record leaves it out. -/
def list? (r : Record) (name : String) (f : Value → Option α) : Option (List α) :=
  (r.optional? name (Value.list? f)).map (·.getD [])

end Record
end JavaSource.Toml
