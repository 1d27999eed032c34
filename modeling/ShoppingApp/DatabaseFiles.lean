import ShoppingApp.Worker.RequestHandler

/-!
# The files of a database

`save` and `load` of `src/database.h`. A directory is a map from the names of its files to what is
in them, and the file system is a parameter. The text form of a value is the one indented by four.
-/

namespace ShoppingApp

/-- A name for an entry of a directory, in any directory. -/
structure Component (name : String) : Prop where
  ne_empty : name ≠ ""
  ne_dot : name ≠ "."
  ne_dotdot : name ≠ ".."
  no_slash : '/' ∉ name.toList
  no_nul : '\x00' ∉ name.toList

instance (name : String) : Decidable (Component name) :=
  decidable_of_iff (name ≠ "" ∧ name ≠ "." ∧ name ≠ ".." ∧ '/' ∉ name.toList ∧
      '\x00' ∉ name.toList)
    ⟨fun ⟨hempty, hdot, hdotdot, hslash, hnul⟩ => ⟨hempty, hdot, hdotdot, hslash, hnul⟩,
      fun ⟨hempty, hdot, hdotdot, hslash, hnul⟩ => ⟨hempty, hdot, hdotdot, hslash, hnul⟩⟩

/-- Where a path under a directory leads that opens: to a file of the directory or out of it. -/
inductive Opened
  | file (name : String)
  | elsewhere

/-- A file system, seen from an existing directory without directories in it: which names it takes,
and what opens for writing. -/
structure FileSystem where
  legal : String → Bool
  opens : String → Option Opened
  opens_component : ∀ name, Component name →
    opens name = if legal name then some (.file name) else none
  of_opens : ∀ path name, opens path = some (.file name) → Component name ∧ legal name = true

abbrev Directory := SortedMap String String

/-- `replace_extension("")`: without the last dot and what comes after it, if that dot is not the
first character. -/
def withoutExtension (filename : String) : String :=
  if filename = ".." then filename
  else
    match filename.toList.reverse.dropWhile (· ≠ '.') with
    | _dot :: c :: cs => String.ofList (c :: cs).reverse
    | _ => filename

namespace Database

/-- A value is written to the file of its key, if it opens. -/
def saveValue (fs : FileSystem) (text : JsonText) (directory : Directory) (e : String × Json) :
    Directory :=
  match fs.opens (cStr (e.1 ++ ".json")) with
  | some (.file name) => directory.set name (text.dump e.2)
  | some .elsewhere => directory
  | none => directory

/-- All files are removed before the values are written. -/
def save (fs : FileSystem) (text : JsonText) (db : Database) (directory : Directory) : Directory :=
  let emptied := directory.entries.foldl (fun directory entry => directory.erase entry.1) directory
  db.entries.foldl (saveValue fs text) emptied

/-- The files in the order in which the directory is read. One that does not parse throws. -/
def load (text : JsonText) (files : List (String × String)) (db : Database) : Option Database :=
  files.foldlM (fun db entry => do
    let value ← text.parse entry.2
    let key := withoutExtension entry.1
    return db.set key value) db

end Database

end ShoppingApp
