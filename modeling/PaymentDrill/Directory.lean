import PaymentDrill.Failure

/-!
# Directories

A working directory and what lies in it. A path is a list of names between slashes;
it is walked name by name, and every name but the last must be that of a folder. One
dot stays, two dots go back. Outside of the directory nothing is known but folders
to pass through.
-/
namespace PaymentDrill

inductive Node where
  | folder
  | file (content : List UInt8) (executable : Bool)
  deriving DecidableEq

/-- The name of an entry of a folder. -/
abbrev Name := List UInt8

/-- The entries of a working directory, by the names that lead to them. -/
structure Directory where
  entries : List (List Name × Node)

namespace Directory

def slash : UInt8 := 47

def stay : Name := [46]

def back : Name := [46, 46]

/-- The pieces of a path between its slashes. -/
def names (path : List UInt8) : List Name := path.splitOn slash

/-- Where a walk has come to: names inside of the directory, or outside of it. -/
inductive Place where
  | inside (names : List Name)
  | outside
  deriving DecidableEq

/-- What is at a place, if anything. -/
def node? (d : Directory) : Place → Option Node
  | .outside => some .folder
  | .inside [] => some .folder
  | .inside ns => (d.entries.find? (·.1 == ns)).map (·.2)

def longestName : Nat := 255

/-- Paths of at least this many bytes are refused. -/
def pathLimit : Nat := 4096

/-- The folder that a folder lies in. -/
def Place.up : Place → Place
  | .outside => .outside
  | .inside ns => if ns = [] then .outside else .inside ns.dropLast

/-- The place that a name leads to from a folder. -/
def enter (name : Name) (p : Place) : Except SystemFault Place :=
  if name = [] ∨ name = stay then .ok p
  else if name = back then .ok p.up
  else if longestName < name.length then .error .nameTooLong
  else match p with
    | .outside => .error .notFound
    | .inside ns => .ok (.inside (ns ++ [name]))

/-- Walks from a place along names; only a folder can be walked on from. -/
def walk (d : Directory) : List Name → Place → Except SystemFault Node
  | [], p =>
    match d.node? p with
    | some n => .ok n
    | none => .error .notFound
  | name :: rest, p =>
    match d.node? p with
    | none => .error .notFound
    | some (.file ..) => .error .notFolder
    | some .folder =>
      match enter name p with
      | .error f => .error f
      | .ok p => walk d rest p

/-- What a path leads to. -/
def find (d : Directory) (path : List UInt8) : Except SystemFault Node :=
  if path = [] then .error .notFound
  else if pathLimit ≤ path.length then .error .nameTooLong
  else d.walk (names path) (if path.head? = some slash then .outside else .inside [])

/-- The bytes of the file that a path leads to. -/
def read (d : Directory) (path : List UInt8) : Except SystemFault (List UInt8) :=
  if path.contains 0 then .error .nulInPath
  else match d.find path with
    | .error f => .error f
    | .ok .folder => .error .isFolder
    | .ok (.file content _) => .ok content

/-- The names that a path leads along, dots resolved. -/
def resolve (path : List UInt8) : List Name :=
  (names path).foldl (fun ns name =>
    if name = [] ∨ name = stay then ns
    else if name = back then ns.dropLast
    else ns ++ [name]) []

/-- Adds an entry, and the folders that lead to it. -/
def add (d : Directory) (path : List UInt8) (n : Node) : Directory :=
  let ns := resolve path
  ⟨(ns, n) :: (d.entries ++ (List.range ns.length).map fun k => (ns.take k, .folder))⟩

def ofEntries (entries : List (List UInt8 × Node)) : Directory :=
  entries.foldl (fun d (path, n) => d.add path n) ⟨[]⟩

/-- Whether the file that a path leads to can be started. -/
def startable (d : Directory) (path : List UInt8) : Except SystemFault Unit :=
  match d.find path with
  | .error f => .error f
  | .ok (.file _ true) => .ok ()
  | .ok _ => .error .denied

/-- Looks for a program in the folders of a search path; one that must not be started is passed
over, and decides the complaint if no other is found. -/
def search (d : Directory) (program : List UInt8) (refused : Bool) :
    List (List UInt8) → Except SystemFault Unit
  | [] => .error (if refused then .denied else .notFound)
  | folder :: rest =>
    match d.startable (folder ++ slash :: program) with
    | .ok () => .ok ()
    | .error .denied => search d program true rest
    | .error .nameTooLong => .error .nameTooLong
    | .error _ => search d program refused rest

/-- Whether a program can be started; a name without a slash is looked for in the search path. -/
def program (d : Directory) (searchPath : List (List UInt8)) (name : List UInt8) :
    Except SystemFault Unit :=
  if name = [] then .error .notFound
  else if name.contains slash then d.startable name
  else d.search name false searchPath

end Directory

end PaymentDrill
