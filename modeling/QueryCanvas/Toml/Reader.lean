/-
  QueryCanvas.Toml.Reader

  Reading TOML documents.

  A document is read line by line into a tree. The tree remembers how each
  table came about, because that decides what may still be added to it: a table
  with a header of its own may not get a second header, one that dotted keys
  have made may be extended by dotted keys only, and an inline table is closed.
-/

import QueryCanvas.Toml.Scalar

namespace QueryCanvas.Toml

open QueryCanvas.Text

/-! ## Trees under construction -/

/-- What stands at a key while a document is being read. -/
inductive Item
  | value (v : Toml)
  /-- A table. It is implicit until it has a header, and dotted if dotted keys made it. -/
  | table (implicit dotted : Bool) (entries : List (String × Item))
  /-- Tables with the same repeatable header. -/
  | tables (elements : List (List (String × Item)))

/-- The entries of a table under construction. -/
abbrev Entries := List (String × Item)

namespace Entries

/-- What stands at a key. -/
def at? (es : Entries) (key : String) : Option Item := (es.find? (·.1 = key)).map (·.2)

/-- Writes at a key: in place if it is present, at the end otherwise. -/
def put (es : Entries) (key : String) (item : Item) : Entries :=
  if (es.at? key).isSome then es.map fun e => if e.1 = key then (key, item) else e
  else es ++ [(key, item)]

/-- Forgets a key. -/
def drop (es : Entries) (key : String) : Entries := es.filter (·.1 ≠ key)

variable {β : Type}

/-- Visits the table at the end of a path, making implicit tables on the way. `dotted` says that
    the path comes from a dotted key, which may not enter tables with a header. The visit is told
    whether the table was made by dotted keys; it answers with a value and the changed table. -/
def within (dotted : Bool) (visit : Bool → Entries → Option (β × Entries)) :
    List String → Bool → Entries → Option (β × Entries)
  | [], here, es => visit here es
  | key :: rest, _, es =>
    match es.at? key with
    | none => do
      let (b, inner) ← within dotted visit rest dotted []
      pure (b, es.put key (.table true dotted inner))
    | some (.value _) => none
    | some (.tables elements) => do
      let last ← elements.getLast?
      let (b, inner) ← within dotted visit rest false last
      pure (b, es.put key (.tables (elements.dropLast ++ [inner])))
    | some (.table implicit isDotted inner) =>
      if dotted && !implicit then none
      else do
        let (b, inner) ← within dotted visit rest isDotted inner
        pure (b, es.put key (.table implicit isDotted inner))

/-- Adds a value at a dotted key. A table that was not made by dotted keys takes none through
    them, and no key is written twice. -/
def addKey (es : Entries) (path : List String) (value : Toml) : Option Entries := do
  let key ← path.getLast?
  let above := path.dropLast
  let add (isDotted : Bool) (inner : Entries) : Option (Unit × Entries) :=
    if isDotted == above.isEmpty || (inner.at? key).isSome then none
    else some ((), inner.put key (.value value))
  let (_, es) ← within true add above false es
  pure es

end Entries

mutual

/-- The value of a finished item. -/
def Item.toToml : Item → Toml
  | .value v => v
  | .table _ _ entries => .table (entriesToToml entries)
  | .tables elements => .array (tablesToToml elements)

/-- The values of finished entries. -/
def entriesToToml : List (String × Item) → List (String × Toml)
  | [] => []
  | (key, item) :: rest => (key, item.toToml) :: entriesToToml rest

/-- The values of finished tables. -/
def tablesToToml : List (List (String × Item)) → List Toml
  | [] => []
  | entries :: rest => .table (entriesToToml entries) :: tablesToToml rest

end

/-! ## Values -/

/-- Values between brackets, with commas between them and perhaps behind the last. -/
def arrayOf (value : Scan Toml) : Scan Toml := do
  Scan.text "["
  gap
  let items ← Scan.optional do
    let first ← value
    let others ← Scan.many do
      gap
      Scan.text ","
      gap
      value
    gap
    let _ ← Scan.optional (Scan.text ",")
    pure (first :: others)
  gap
  Scan.text "]"
  pure (.array (items.getD []))

def keyValue (value : Scan Toml) : Scan (List String × Toml) := do
  let path ← dottedKey
  blanks
  Scan.text "="
  blanks
  let v ← value
  pure (path, v)

/-- Keys with values between braces, with commas between them. -/
def inlineTableOf (value : Scan Toml) : Scan Toml := do
  Scan.text "\x7b"
  blanks
  let pairs ← Scan.optional do
    let first ← keyValue value
    let others ← Scan.many do
      blanks
      Scan.text ","
      blanks
      keyValue value
    pure (first :: others)
  blanks
  Scan.text "\x7d"
  fun cs => do
    let entries ← (pairs.getD []).foldlM (fun es (pair : List String × Toml) =>
      Entries.addKey es pair.1 pair.2) []
    pure (.table (entriesToToml entries), cs)

/-- A value, nested at most `depth` deep. -/
def value : Nat → Scan Toml
  | 0 => scalar
  | depth + 1 => scalar <|> arrayOf (value depth) <|> inlineTableOf (value depth)

/-! ## Documents -/

/-- A document as far as it has been read: the finished tables, and the table that the lines go
    into now. -/
structure Draft where
  root : Entries
  /-- Path of the present table; empty before the first header. -/
  path : List String
  /-- True if the header of the present table is repeatable. -/
  repeated : Bool
  entries : Entries

namespace Draft

/-- A document without lines. -/
def empty : Draft := ⟨[], [], false, []⟩

/-- Puts the present table into its place. -/
def finish (d : Draft) : Option Entries :=
  match d.path.getLast? with
  | none => some d.entries
  | some key => do
    let place (_ : Bool) (parent : Entries) : Option (Unit × Entries) :=
      if d.repeated then
        match parent.at? key with
        | some (.tables elements) => some ((), parent.put key (.tables (elements ++ [d.entries])))
        | _ => none
      else some ((), parent.put key (.table false false d.entries))
    let (_, root) ← Entries.within false place d.path.dropLast false d.root
    pure root

/-- Begins the table of a header. Only a table that so far was implied may have been there; its
    entries stay. -/
def beginTable (d : Draft) (path : List String) : Option Draft := do
  let root ← d.finish
  let key ← path.getLast?
  let takeOut (_ : Bool) (parent : Entries) : Option (Entries × Entries) :=
    match parent.at? key with
    | none => some ([], parent)
    | some (.table true false inner) => some (inner, parent.drop key)
    | some _ => none
  let (inner, root) ← Entries.within false takeOut path.dropLast false root
  pure ⟨root, path, false, inner⟩

/-- Begins one more table of a repeatable header. -/
def beginElement (d : Draft) (path : List String) : Option Draft := do
  let root ← d.finish
  let key ← path.getLast?
  let declare (_ : Bool) (parent : Entries) : Option (Unit × Entries) :=
    match parent.at? key with
    | none => some ((), parent.put key (.tables []))
    | some (.tables _) => some ((), parent)
    | some _ => none
  let (_, root) ← Entries.within false declare path.dropLast false root
  pure ⟨root, path, true, []⟩

/-- Adds a key to the present table. -/
def addKey (d : Draft) (path : List String) (v : Toml) : Option Draft := do
  let entries ← d.entries.addKey path v
  pure { d with entries := entries }

end Draft

/-- One line of a document, as a change of the draft. -/
def line : Scan (Draft → Option Draft) := do
  blanks
  let change : Draft → Option Draft ←
    (do
      Scan.text "[["
      blanks
      let path ← dottedKey
      blanks
      Scan.text "]]"
      pure (Draft.beginElement · path))
    <|> (do
      Scan.text "["
      blanks
      let path ← dottedKey
      blanks
      Scan.text "]"
      pure (Draft.beginTable · path))
    <|> (do
      let (path, v) ← keyValue (value depthLimit)
      pure (Draft.addKey · path v))
    <|> pure some
  lineEnd
  pure change

/-- All lines of a document. -/
def document : Scan (List (Draft → Option Draft)) := do
  let _ ← Scan.optional (Scan.text "\ufeff")
  Scan.many line

/-- The entries of a document; none if the text is no TOML document. -/
def read? (s : String) : Option (List (String × Toml)) := do
  let changes ← document.whole? s
  let draft ← changes.foldlM (fun (d : Draft) change => change d) Draft.empty
  let root ← draft.finish
  pure (entriesToToml root)

end QueryCanvas.Toml
