/-
What a running template acts on: the output with its encoding, the parameters of
the request, the persistent and the temporary ones, and the kind of document.
-/
import TagTemplate.Store.Basic

namespace TagTemplate

/-- How output text becomes bytes. -/
inductive Encoding where
  | utf8
  | ascii
  | latin1
  deriving DecidableEq

namespace Encoding

/-- The bytes of characters that each have one byte. -/
def singleBytes (s : Text) : ByteArray := ⟨(s.toList.map fun c => c.toNat.toUInt8).toArray⟩

/-- The characters that bytes stand for one by one. -/
def ofSingleBytes (bytes : ByteArray) : Text :=
  Text.ofList (bytes.data.toList.map fun b => Char.ofNat b.toNat)

/-- Nothing if some code point has no place in the encoding. Surrogates have none in any. -/
def encode? : Encoding → Text → Option ByteArray
  | utf8, s => s.string?.map String.toUTF8
  | ascii, s => if s.toList.all (·.toNat < 128) then some (singleBytes s) else none
  | latin1, s => if s.toList.all (·.toNat < 256) then some (singleBytes s) else none

/-- Nothing if the bytes are no text in the encoding. -/
def decode? : Encoding → ByteArray → Option Text
  | utf8, bytes => (String.fromUTF8? bytes).map Text.ofString
  | ascii, bytes =>
    if bytes.data.toList.all (· < 128) then some (ofSingleBytes bytes) else none
  | latin1, bytes => some (ofSingleBytes bytes)

end Encoding

/-- The state that a template reads and changes. -/
structure Sink where
  output : ByteArray
  encoding : Encoding
  /-- Whether the output is kept in memory and can be read back. -/
  inMemory : Bool
  parameters : Entries
  persistent : Store
  temporary : Entries
  mime : Text

/-- Steps that change a sink and may fail; what they did before a failure stays. -/
abbrev Action := EStateM Fault Sink

namespace Sink

def defaultMime : Text := "text/html"

/-- A sink to which nothing has been written. -/
def fresh (encoding : Encoding) (inMemory : Bool) (parameters : Entries) (persistent : Store) :
    Sink :=
  { output := ByteArray.empty, encoding, inMemory, parameters, persistent, temporary := [],
    mime := defaultMime }

def append (bytes : ByteArray) (s : Sink) : Sink :=
  { s with output := s.output ++ bytes }

/-- Writes a text, all of it or, if it cannot be encoded, nothing. -/
def write (text : Text) : Action Unit := fun s =>
  match s.encoding.encode? text with
  | some bytes => .ok () (s.append bytes)
  | none => .error .unencodable s

/-- Everything written, as a text. -/
def contents (s : Sink) : Except Fault Text :=
  if !s.inMemory then .error .streamOutput
  else
    match s.encoding.decode? s.output with
    | some text => .ok text
    | none => .error .undecodable

def parameter? (s : Sink) (name : Text) : Option Text := s.parameters.find? name

def temporary? (s : Sink) (name : Text) : Option Text := s.temporary.find? name

/-- Reads a persistent parameter, which a store may count as a use. -/
def readPersistent (name : Text) : Action (Option Text) := fun s =>
  let (value, store) := s.persistent.read name
  .ok value { s with persistent := store }

def setPersistent (name value : Text) (s : Sink) : Sink :=
  { s with persistent := s.persistent.insert name value }

def erasePersistent (name : Text) (s : Sink) : Sink :=
  { s with persistent := s.persistent.erase name }

def setTemporary (name value : Text) (s : Sink) : Sink :=
  { s with temporary := s.temporary.insert name value }

def eraseTemporary (name : Text) (s : Sink) : Sink :=
  { s with temporary := s.temporary.erase name }

def setMime (mime : Text) (s : Sink) : Sink := { s with mime }

end Sink

end TagTemplate
