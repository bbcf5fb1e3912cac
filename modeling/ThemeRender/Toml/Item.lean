import ThemeRender.Data.Fields
/-!
What a TOML document holds, and how its tables come together. Keys and headers that name a table
again may add to it or not, depending on how the table came about.
-/

namespace ThemeRender.Toml

/-- How a table came about. -/
inductive Origin where
  | header
  /-- By a header of a table below it. -/
  | implied
  | dotted
  /-- As a value between braces, which is all of it. -/
  | braces
deriving DecidableEq, Repr

/-- Whether a table may be gone through to one below it, by a dotted key or else by a header. -/
def Origin.admits (origin : Origin) (byKey : Bool) : Bool :=
  match origin with
  | .header => !byKey
  | .implied | .dotted => true
  | .braces => false

inductive Item where
  | string (text : String)
  | integer (n : Int)
  | float (x : Float)
  | boolean (b : Bool)
  | datetime (text : String)
  | array (items : List Item)
  | table (origin : Origin) (entries : List (String × Item))
  /-- The tables of a repeated header. Headers and keys go on with the newest. -/
  | tables (newest : List (String × Item)) (earlier : List (List (String × Item)))

abbrev Entries := Fields Item

structure Table where
  origin : Origin
  entries : Entries

namespace Entries

/-- Changes the table at the end of a path; tables missing on the way are made. -/
def changeAt (byKey : Bool) (change : Table → Option Entries) :
    List String → Table → Option Entries
  | [], table => change table
  | key :: path, ⟨_, entries⟩ =>
      match entries.get? key with
      | none => do
          let origin := if byKey then Origin.dotted else .implied
          let inner ← changeAt byKey change path ⟨origin, []⟩
          some (entries.insert key (.table origin inner))
      | some (.table origin inner) =>
          if origin.admits byKey then do
            let inner ← changeAt byKey change path ⟨origin, inner⟩
            some (entries.insert key (.table origin inner))
          else none
      | some (.tables newest earlier) => do
          let newest ← changeAt byKey change path ⟨.header, newest⟩
          some (entries.insert key (.tables newest earlier))
      | some _ => none

def define (path : List String) (name : String) (item : Item) : Table → Option Entries :=
  changeAt true (fun table =>
    if (table.origin = .dotted) = path.isEmpty then none
    else if (table.entries.get? name).isSome then none
    else some (table.entries.insert name item)) path

/-- Opens the table that a header names. It may have been implied before. -/
def openTable (path : List String) (name : String) (document : Entries) : Option Entries :=
  changeAt false (fun table =>
    match table.entries.get? name with
    | none => some (table.entries.insert name (.table .header []))
    | some (.table .implied inner) => some (table.entries.insert name (.table .header inner))
    | some _ => none) path ⟨.header, document⟩

def openElement (path : List String) (name : String) (document : Entries) : Option Entries :=
  changeAt false (fun table =>
    match table.entries.get? name with
    | none => some (table.entries.insert name (.tables [] []))
    | some (.tables newest earlier) =>
        some (table.entries.insert name (.tables [] (newest :: earlier)))
    | some _ => none) path ⟨.header, document⟩

def ofBraces (entries : List (List String × String × Item)) : Option Entries :=
  entries.foldlM (fun table (path, name, item) => define path name item ⟨.braces, table⟩) []

end Entries

end ThemeRender.Toml
