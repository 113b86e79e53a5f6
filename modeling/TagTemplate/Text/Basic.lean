/-
Texts as they are handled: sequences of code points. Nearly all code points are
characters. The others are halves of surrogate pairs; a text may hold one of them by
itself, although no character belongs to it and no encoding has bytes for it.
-/

namespace TagTemplate

/-- A code point. -/
inductive CodePoint where
  | scalar (c : Char)
  /-- The half of a surrogate pair that comes so many places after the first one. -/
  | surrogate (offset : Fin 0x800)
  deriving DecidableEq

namespace CodePoint

instance : Coe Char CodePoint := ⟨scalar⟩

instance : Inhabited CodePoint := ⟨scalar default⟩

def toNat : CodePoint → Nat
  | scalar c => c.toNat
  | surrogate offset => 0xd800 + offset

/-- The character that the code point is, if it is one. -/
def scalar? : CodePoint → Option Char
  | scalar c => some c
  | surrogate _ => none

/-- Whether the code point is a character of some kind. -/
def is (kind : Char → Bool) : CodePoint → Bool
  | scalar c => kind c
  | surrogate _ => false

def isAlpha (c : CodePoint) : Bool := c.is Char.isAlpha

def isDigit (c : CodePoint) : Bool := c.is Char.isDigit

def isAlphanum (c : CodePoint) : Bool := c.is Char.isAlphanum

/-- Only the letters of ASCII change. -/
def toLower : CodePoint → CodePoint
  | scalar c => c.toLower
  | surrogate offset => surrogate offset

end CodePoint

/-- A text. -/
structure Text where
  ofList ::
  toList : List CodePoint
  deriving DecidableEq

namespace Text

/-- A text that is made of characters. -/
def ofString (s : String) : Text := ⟨s.toList.map .scalar⟩

instance : Coe String Text := ⟨ofString⟩

instance : Inhabited Text := ⟨""⟩

instance : Append Text := ⟨fun s t => ⟨s.toList ++ t.toList⟩⟩

def isEmpty (s : Text) : Bool := s.toList.isEmpty

def push (s : Text) (c : CodePoint) : Text := ⟨s.toList ++ [c]⟩

def map (f : CodePoint → CodePoint) (s : Text) : Text := ⟨s.toList.map f⟩

def join (texts : List Text) : Text := ⟨texts.flatMap toList⟩

def intercalate (separator : Text) (texts : List Text) : Text :=
  ⟨separator.toList.intercalate (texts.map toList)⟩

/-- The characters of the text, if it is made of nothing else. -/
def string? (s : Text) : Option String := (s.toList.mapM CodePoint.scalar?).map String.ofList

variable {s t u : Text} {cs ds : List CodePoint}

@[simp]
theorem toList_ofList (cs : List CodePoint) : (ofList cs).toList = cs := rfl

@[simp]
theorem ofList_toList (s : Text) : ofList s.toList = s := rfl

@[simp]
theorem toList_ofString (s : String) : (ofString s).toList = s.toList.map .scalar := rfl

@[simp]
theorem toList_append (s t : Text) : (s ++ t).toList = s.toList ++ t.toList := rfl

@[simp]
theorem toList_push (s : Text) (c : CodePoint) : (s.push c).toList = s.toList ++ [c] := rfl

@[simp]
theorem toList_map (f : CodePoint → CodePoint) (s : Text) : (s.map f).toList = s.toList.map f := rfl

theorem toList_injective : Function.Injective toList := fun _ _ h => congrArg ofList h

theorem ofList_injective : Function.Injective ofList := fun _ _ h => congrArg toList h

theorem toList_inj : s.toList = t.toList ↔ s = t := toList_injective.eq_iff

@[simp]
theorem toList_eq_nil_iff : s.toList = [] ↔ s = "" := toList_inj (t := "")

@[simp]
theorem ofList_eq_empty_iff : ofList cs = "" ↔ cs = [] := toList_eq_nil_iff.symm

theorem isEmpty_iff : s.isEmpty = true ↔ s = "" := by
  rw [isEmpty, List.isEmpty_iff, toList_eq_nil_iff]

theorem ofList_append : ofList (cs ++ ds) = ofList cs ++ ofList ds := rfl

@[simp]
theorem empty_append (s : Text) : "" ++ s = s := rfl

@[simp]
theorem append_empty (s : Text) : s ++ "" = s := congrArg ofList (List.append_nil _)

theorem append_assoc (s t u : Text) : s ++ t ++ u = s ++ (t ++ u) :=
  congrArg ofList (List.append_assoc ..)

theorem append_right_inj (s : Text) : s ++ t = s ++ u ↔ t = u := by
  rw [← toList_inj, toList_append, toList_append, List.append_right_inj, toList_inj]

theorem append_left_inj (u : Text) : s ++ u = t ++ u ↔ s = t := by
  rw [← toList_inj, toList_append, toList_append, List.append_left_inj, toList_inj]

theorem join_cons (s : Text) (texts : List Text) : join (s :: texts) = s ++ join texts := rfl

theorem join_append (texts others : List Text) :
    join (texts ++ others) = join texts ++ join others :=
  congrArg ofList List.flatMap_append

theorem mapM_scalar?_map (cs : List Char) :
    (cs.map CodePoint.scalar).mapM CodePoint.scalar? = some cs := by
  induction cs with
  | nil => rfl
  | cons c cs ih => rw [List.map_cons, List.mapM_cons, ih]; rfl

theorem mapM_scalar?_append (cs ds : List CodePoint) :
    (cs ++ ds).mapM CodePoint.scalar? =
      (do return (← cs.mapM CodePoint.scalar?) ++ (← ds.mapM CodePoint.scalar?)) := by
  induction cs with
  | nil => simp
  | cons c cs ih =>
    rw [List.cons_append, List.mapM_cons, List.mapM_cons, ih]
    cases c.scalar? <;> cases cs.mapM CodePoint.scalar? <;> cases ds.mapM CodePoint.scalar? <;> rfl

theorem map_scalar_of_mapM {cs : List CodePoint} {characters : List Char}
    (h : cs.mapM CodePoint.scalar? = some characters) : characters.map .scalar = cs := by
  induction cs generalizing characters with
  | nil => cases h; rfl
  | cons c cs ih =>
    cases c with
    | surrogate offset => cases h
    | scalar c =>
      rw [List.mapM_cons] at h
      cases hrest : cs.mapM CodePoint.scalar? with
      | none => rw [hrest] at h; cases h
      | some rest => rw [hrest] at h; cases h; rw [List.map_cons, ih hrest]

theorem mapM_scalar?_eq_none_iff :
    cs.mapM CodePoint.scalar? = none ↔ ∃ offset, .surrogate offset ∈ cs := by
  induction cs with
  | nil => simp
  | cons c cs ih =>
    rw [List.mapM_cons]
    cases c with
    | surrogate offset => exact iff_of_true rfl ⟨offset, List.mem_cons_self⟩
    | scalar c => cases hrest : cs.mapM CodePoint.scalar? <;> simp_all [CodePoint.scalar?]

@[simp]
theorem string?_ofString (s : String) : (ofString s).string? = some s := by
  rw [string?, toList_ofString, mapM_scalar?_map, Option.map_some, String.ofList_toList]

theorem string?_eq_some_iff {characters : String} :
    s.string? = some characters ↔ s = ofString characters := by
  constructor
  · intro h
    obtain ⟨cs, hcs, rfl⟩ := Option.map_eq_some_iff.1 h
    rw [← toList_inj, toList_ofString, String.toList_ofList, map_scalar_of_mapM hcs]
  · rintro rfl
    exact string?_ofString characters

/-- Surrogates are all that keeps a text from being made of characters. -/
theorem string?_eq_none_iff : s.string? = none ↔ ∃ offset, .surrogate offset ∈ s.toList := by
  rw [string?, Option.map_eq_none_iff, mapM_scalar?_eq_none_iff]

theorem exists_of_string?_cons {c : Char} {characters : String}
    (h : (ofList (↑c :: cs)).string? = some characters) :
    ∃ cs', characters = .ofList (c :: cs') := by
  have hchars : ↑c :: cs = characters.toList.map .scalar :=
    congrArg toList (string?_eq_some_iff.1 h)
  obtain ⟨c', cs', hlist, hc, -⟩ := List.map_eq_cons_iff.1 hchars.symm
  cases hc
  exact ⟨cs', by rw [← hlist, String.ofList_toList]⟩

/-- What two texts make together is made of characters if both are. -/
theorem string?_append (s t : Text) :
    (s ++ t).string? = (do return (← s.string?) ++ (← t.string?)) := by
  rw [string?, toList_append, mapM_scalar?_append, string?, string?]
  cases s.toList.mapM CodePoint.scalar? with
  | none => rfl
  | some cs =>
    cases t.toList.mapM CodePoint.scalar? with
    | none => rfl
    | some ds => exact congrArg some String.ofList_append

theorem ofString_append (s t : String) : ofString (s ++ t) = ofString s ++ ofString t := by
  rw [← toList_inj, toList_append, toList_ofString, toList_ofString, toList_ofString,
    String.toList_append, List.map_append]

theorem ofString_injective : Function.Injective ofString := fun s t h => by
  have hsame := congrArg string? h
  rwa [string?_ofString, string?_ofString, Option.some.injEq] at hsame

@[simp]
theorem ofString_inj {s t : String} : ofString s = ofString t ↔ s = t := ofString_injective.eq_iff

end Text

end TagTemplate
