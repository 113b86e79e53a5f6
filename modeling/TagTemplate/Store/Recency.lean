/-
A store of bounded size that forgets the entry that was not used for the longest
time. Setting an entry and reading one that is there are uses; asking whether a
name is there, listing and comparing are not.
-/
import TagTemplate.Fault
import TagTemplate.Store.Entries

namespace TagTemplate

/-- A store with its entries in order of use, the one used last at the end. -/
structure Recency where
  capacity : Int
  entries : Entries

namespace Recency

/-- The capacity of a store for which none is given. -/
def defaultCapacity : Int := 128

def empty (capacity : Int) : Recency := ⟨capacity, []⟩

def contains (r : Recency) (name : Text) : Bool := (r.entries.find? name).isSome

def erase (r : Recency) (name : Text) : Recency := { r with entries := r.entries.erase name }

/-- Reads an entry, which is a use of it. -/
def read (r : Recency) (name : Text) : Option Text × Recency :=
  match r.entries.find? name with
  | none => (none, r)
  | some value => (some value, { r with entries := r.entries.erase name ++ [(name, value)] })

/-- Sets an entry; if there are too many then, the first one goes. -/
def insert (r : Recency) (name value : Text) : Recency :=
  let entries := r.entries.erase name ++ [(name, value)]
  { r with entries := if r.capacity < entries.length then entries.tail else entries }

def insertAll (r : Recency) (pairs : List (Text × Text)) : Recency :=
  pairs.foldl (fun r p => r.insert p.1 p.2) r

/-- What may be asked of a store. -/
inductive Request where
  | set (name value : Text)
  | require (name : Text)
  | get (name : Text) (default : Option Text)
  | delete (name : Text)
  | contains (name : Text)
  /-- Reads and deletes; a default may be given, and may itself be nothing. -/
  | take (name : Text) (default : Option (Option Text))
  | takeFirst
  | getOrSet (name value : Text)
  | update (pairs : List (Text × Text))
  | clear
  | keys
  | equals (pairs : List (Text × Text))

/-- What a store answers. -/
inductive Reply where
  | done
  | value (s : Option Text)
  | flag (b : Bool)
  | entry (name value : Text)
  | names (ns : List Text)
  | fault (f : Fault)
  deriving DecidableEq

/-- One request. Whatever returns a value reads it first, so that it counts as used
even if it is removed or nothing else happens. -/
def answer (r : Recency) : Request → Reply × Recency
  | .set name value => (.done, r.insert name value)
  | .require name =>
    match r.read name with
    | (some value, r) => (.value (some value), r)
    | (none, r) => (.fault (.unknownName name), r)
  | .get name default =>
    match r.read name with
    | (some value, r) => (.value (some value), r)
    | (none, r) => (.value default, r)
  | .delete name =>
    if r.contains name then (.done, r.erase name) else (.fault (.unknownName name), r)
  | .contains name => (.flag (r.contains name), r)
  | .take name default =>
    match r.read name with
    | (some value, r) => (.value (some value), r.erase name)
    | (none, r) =>
      match default with
      | some value => (.value value, r)
      | none => (.fault (.unknownName name), r)
  | .takeFirst =>
    match r.entries with
    | [] => (.fault .emptyStore, r)
    | (name, value) :: rest => (.entry name value, { r with entries := rest })
  | .getOrSet name value =>
    match r.read name with
    | (some old, r) => (.value (some old), r)
    | (none, r) => (.value (some value), r.insert name value)
  | .update pairs => (.done, r.insertAll pairs)
  | .clear => (.done, { r with entries := [] })
  | .keys => (.names r.entries.names, r)
  | .equals pairs => (.flag (r.entries.sameContents (Entries.ofList pairs)), r)

end Recency

end TagTemplate
