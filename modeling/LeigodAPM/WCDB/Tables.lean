import LeigodAPM.Foundation.Run
import LeigodAPM.WCDB.TableCoding

/-!
# A table over the versions of an app

`create(table:of:)` makes a table with a column for each key of a type, or adds the columns that
a table lacks; `insert(objects:on:intoTable:)` encodes the objects one after the other into one
statement, and `getObjects(on:fromTable:)` decodes the rows. The versions of an app use the table
with different types, whose keys name the same column when they differ in case only.

* `create_eq`, `insertRows_eq`: what the loops of `create` and `insert` do.
* `table_of_run`: the table is a list of objects, and each type reads from it the fields that an
  object has of the columns of its keys.

Names are ASCII identifiers. The types have no constraints, no primary key and no indexes. Each
call has the hash values of its process.
-/

namespace LeigodAPM

open Foundation Machine TableCoding

/-- Keys that differ in case only name the same column. -/
def folded (key : CodingTableKey) : List Char := key.stringValue.toList.map Char.toLower

/-- The columns and rows of a table. A row is shorter than the columns when some were added after
it. -/
structure SqlTable where
  columns : List CodingTableKey
  rows : List (List FundamentalValue)

namespace SqlTable

/-- SQLite refuses a second column with a name. -/
def addColumn (columns : List CodingTableKey) (key : CodingTableKey) :
    Option (List CodingTableKey) :=
  if folded key ∈ columns.map folded then none else some (columns ++ [key])

/-- The keys without a column: for each column the first key with its name is removed. -/
def missingKeys (keys columns : List CodingTableKey) : List CodingTableKey :=
  columns.foldl (fun keys column => keys.eraseP fun key => folded key = folded column) keys

/-- A statement that fails undoes the others, which are in its transaction. -/
def create (t : Option SqlTable) (keys : List CodingTableKey) : Option SqlTable :=
  match t with
  | none => if keys = [] then none else (keys.foldlM addColumn []).map fun columns => ⟨columns, []⟩
  | some t => ((missingKeys keys t.columns).foldlM addColumn t.columns).map fun columns =>
    ⟨columns, t.rows⟩

/-- A statement on a property that names no column is not prepared. -/
def hasColumns (t : SqlTable) (properties : List CodingTableKey) : Bool :=
  properties.all fun key => folded key ∈ t.columns.map folded

/-- The row of `INSERT INTO t(properties) VALUES(bindings)`. -/
def insertRow (s : SQLite) (columns properties : List CodingTableKey)
    (bindings : List FundamentalValue) : List FundamentalValue :=
  columns.map fun column => s.stored column.columnType
    (((properties.zip bindings).find? fun entry => folded entry.1 = folded column).elim .null
      Prod.snd)

/-- The loop over the objects; each comes with the outcome of its `step`. `reset` keeps the
bindings. -/
def insertRows (s : SQLite) (hash : String → Int) (columns properties : List CodingTableKey) :
    List FundamentalValue → List (List Field × Bool) → Option (List (List FundamentalValue))
  | _, [] => some []
  | bindings, (object, succeeds) :: objects =>
    let bindings := encodeObject hash none properties bindings object
    if succeeds = true then
      (insertRows s hash columns properties bindings objects).map fun rows =>
        insertRow s columns properties bindings :: rows
    else none

/-- A step that fails leaves no row: the only one, or those of its transaction. -/
def insert (s : SQLite) (hash : String → Int) (t : Option SqlTable)
    (properties : List CodingTableKey) (objects : List (List Field × Bool)) (succeeds : Bool) :
    Option (Option SqlTable) :=
  if objects = [] then some t
  else match t with
    | none => none
    | some t =>
      if succeeds = true ∧ t.hasColumns properties = true then
        (insertRows s hash t.columns properties (List.replicate properties.length .null)
          objects).map fun rows => some { t with rows := t.rows ++ rows }
      else none

/-- A column that is newer than the row is `NULL`. -/
def columnValue (columns : List CodingTableKey) (row : List FundamentalValue)
    (key : CodingTableKey) : FundamentalValue :=
  match columns.findIdx? (folded · = folded key) with
  | none => .null
  | some i => row[i]?.getD .null

/-- The objects with these keys, on all of them. -/
def getObjects (s : SQLite) (hash : String → Int) (t : Option SqlTable)
    (keys : List CodingTableKey) : Option (List (List Field)) :=
  t.bind fun t =>
    if t.hasColumns keys = true then
      t.rows.mapM fun row => decodeObject s hash keys keys (keys.map (columnValue t.columns row))
    else none

end SqlTable

/-! ## Record types and events -/

/-- The names under which every table has the number of a row. -/
def rowidNames : List (List Char) := ["rowid".toList, "oid".toList, "_rowid_".toList]

/-- The keys of a type: each names a column of its own, and the properties of one column have one
type in all versions, up to optionality. -/
structure RecordType (typeOf : List Char → ColumnType) where
  keys : List CodingTableKey
  nonempty : keys ≠ []
  nodup : (keys.map folded).Nodup
  typed : ∀ key ∈ keys, key.columnType = typeOf (folded key)
  named : ∀ key ∈ keys, folded key ∉ rowidNames

/-- The fields that an object of a type encodes. -/
structure RecordObject {typeOf : List Char → ColumnType} (T : RecordType typeOf) where
  fields : List Field
  keys_subset : fields.map Field.key ⊆ T.keys
  nodup : (fields.map Field.key).Nodup

namespace RecordObject

variable {typeOf : List Char → ColumnType} {T : RecordType typeOf}

def empty (T : RecordType typeOf) : RecordObject T := ⟨[], nofun, List.nodup_nil⟩

/-- A field that an object leaves out is that of the object before it. -/
def after (previous object : RecordObject T) : RecordObject T where
  fields := object.fields ++
    previous.fields.filter fun field => field.key ∉ object.fields.map Field.key
  keys_subset := by
    rw [List.map_append]
    refine List.append_subset.mpr ⟨object.keys_subset, fun key hKey => ?_⟩
    exact previous.keys_subset ((List.filter_sublist.map Field.key).subset hKey)
  nodup := by
    rw [List.map_append]
    refine object.nodup.append (previous.nodup.sublist (List.filter_sublist.map Field.key)) ?_
    intro key hKey hBefore
    obtain ⟨field, hField, rfl⟩ := List.mem_map.mp hBefore
    exact (of_decide_eq_true (List.mem_filter.mp hField).2) hKey

/-- The objects of one insertion as they are stored. -/
def carried : RecordObject T → List (RecordObject T) → List (RecordObject T)
  | _, [] => []
  | previous, object :: objects => previous.after object :: carried (previous.after object) objects

theorem nodup_folded (object : RecordObject T) :
    ((object.fields.map Field.key).map folded).Nodup :=
  object.nodup.map_on fun _ hk _ hk' hEq =>
    List.inj_on_of_nodup_map T.nodup (object.keys_subset hk) (object.keys_subset hk') hEq

/-- Objects that encode every key are stored as they are. -/
theorem carried_eq_self {objects : List (RecordObject T)}
    (hAll : ∀ object ∈ objects, T.keys ⊆ object.fields.map Field.key) (previous : RecordObject T) :
    (carried previous objects).map fields = objects.map fields := by
  induction objects generalizing previous with
  | nil => rfl
  | cons object objects ih =>
    obtain ⟨hHead, hTail⟩ := List.forall_mem_cons.mp hAll
    have hNone : previous.fields.filter (fun field => field.key ∉ object.fields.map Field.key) =
        [] := by
      refine List.filter_eq_nil_iff.mpr fun field hField => ?_
      have hKey := hHead (previous.keys_subset (List.mem_map_of_mem hField))
      simpa using hKey
    have hSame : (previous.after object).fields = object.fields :=
      (congrArg (object.fields ++ ·) hNone).trans (List.append_nil _)
    rw [carried, List.map_cons, List.map_cons, hSame, ih hTail]

end RecordObject

/-- The operations on the table, each with its outcome. -/
inductive TableEvent (typeOf : List Char → ColumnType)
  | create (T : RecordType typeOf) (succeeds : Bool)
  | insert (hash : String → Int) (T : RecordType typeOf) (properties : List CodingTableKey)
    (objects : List (RecordObject T × Bool)) (succeeds : Bool)
  | delete (succeeds : Bool)
  | drop (succeeds : Bool)

section Events

variable {typeOf : List Char → ColumnType}

/-- The properties are keys of the type, and its keys do not collide. -/
def TableEvent.Valid : TableEvent typeOf → Prop
  | .insert hash T properties _ _ =>
    properties ⊆ T.keys ∧ properties.Nodup ∧ NoCollision hash T.keys
  | _ => True

/-- An operation that fails changes nothing. -/
def SqlTable.step (s : SQLite) : Machine (Option SqlTable) (TableEvent typeOf)
  | t, .create T succeeds =>
    some (if succeeds = true then (SqlTable.create t T.keys).or t else t)
  | t, .insert hash _ properties objects succeeds =>
    some ((SqlTable.insert s hash t properties (objects.map fun o => (o.1.fields, o.2))
      succeeds).getD t)
  | t, .delete succeeds =>
    some (if succeeds = true then t.map fun t => { t with rows := [] } else t)
  | t, .drop succeeds => some (if succeeds = true then none else t)

end Events

/-! ## The specification -/

/-- The keys of the types that the table was created for, and the objects stored in it. -/
structure Stored where
  created : List CodingTableKey
  objects : List (List Field)

namespace Stored

variable {typeOf : List Char → ColumnType}

def Covers (stored : Stored) (keys : List CodingTableKey) : Prop :=
  ∀ key ∈ keys, folded key ∈ stored.created.map folded

instance (stored : Stored) (keys : List CodingTableKey) : Decidable (stored.Covers keys) :=
  inferInstanceAs (Decidable (∀ key ∈ keys, folded key ∈ stored.created.map folded))

/-- The fields of an object that are inserted. -/
def select (properties : List CodingTableKey) (object : List Field) : List Field :=
  object.filter fun field => field.key ∈ properties

/-- The objects of one call are stored all or none. An object that leaves a key out has the field
that the last one before it in the call has. -/
def apply : Option Stored → TableEvent typeOf → Option Stored
  | none, .create T succeeds => if succeeds = true then some ⟨T.keys, []⟩ else none
  | some stored, .create T succeeds =>
    some (if succeeds = true then { stored with created := stored.created ++ T.keys } else stored)
  | none, .insert _ _ _ _ _ => none
  | some stored, .insert _ T properties objects succeeds =>
    some (if succeeds = true ∧ stored.Covers properties ∧ ∀ o ∈ objects, o.2 = true then
      { stored with
        objects := stored.objects ++ (RecordObject.carried (.empty T) (objects.map Prod.fst)).map
          fun o => select properties o.fields }
    else stored)
  | stored, .delete succeeds =>
    if succeeds = true then stored.map fun stored => { stored with objects := [] } else stored
  | stored, .drop succeeds => if succeeds = true then none else stored

/-- What an object leaves in the column with this name. -/
def valueOf (object : List Field) (name : List Char) : FundamentalValue :=
  (object.find? fun field => folded field.key = name).elim .null Field.bound

/-- The field of an object for a key, under the name of the key. -/
def view (object : List Field) (key : CodingTableKey) : Field :=
  .ofValue key (Stored.valueOf object (folded key))

end Stored

/-! ## Columns -/

namespace SqlTable

section Columns

variable {columns keys : List CodingTableKey}

theorem foldlM_addColumn (hNodup : ((columns ++ keys).map folded).Nodup) :
    keys.foldlM addColumn columns = some (columns ++ keys) := by
  induction keys generalizing columns with
  | nil => simp
  | cons key keys ih =>
    have hNew : folded key ∉ columns.map folded := by
      intro hOld
      rw [List.map_append, List.nodup_append] at hNodup
      exact hNodup.2.2 _ hOld _ (by simp) rfl
    have hAdded : addColumn columns key = some (columns ++ [key]) := if_neg hNew
    have hRest : ((columns ++ [key] ++ keys).map folded).Nodup := by simpa using hNodup
    rw [List.foldlM_cons, hAdded]
    simpa using ih hRest

theorem eraseP_eq_filter (hNodup : (keys.map folded).Nodup) (name : List Char) :
    (keys.eraseP fun key => folded key = name) = keys.filter fun key => folded key ≠ name := by
  induction keys with
  | nil => rfl
  | cons key keys ih =>
    obtain ⟨hNew, hRest⟩ := List.nodup_cons.mp hNodup
    by_cases hName : folded key = name
    · have hOthers : ∀ k ∈ keys, folded k ≠ name := fun k hk hEq =>
        hNew (hName ▸ hEq ▸ List.mem_map_of_mem hk)
      rw [List.eraseP_cons_of_pos (by simpa using hName),
        List.filter_cons_of_neg (by simpa using hName),
        List.filter_eq_self.mpr (by simpa using hOthers)]
    · rw [List.eraseP_cons_of_neg (by simpa using hName),
        List.filter_cons_of_pos (by simpa using hName), ih hRest]

theorem missingKeys_eq_filter (hNodup : (keys.map folded).Nodup) :
    missingKeys keys columns = keys.filter fun key => folded key ∉ columns.map folded := by
  induction columns generalizing keys with
  | nil => simp [missingKeys]
  | cons column columns ih =>
    have hRest : ((keys.filter fun key => folded key ≠ folded column).map folded).Nodup :=
      hNodup.sublist (List.filter_sublist.map folded)
    rw [missingKeys, List.foldl_cons, eraseP_eq_filter hNodup]
    refine (ih hRest).trans ?_
    rw [List.filter_filter]
    refine List.filter_congr fun key _ => ?_
    by_cases hName : folded key = folded column <;> simp [hName]

variable {typeOf : List Char → ColumnType} (T : RecordType typeOf)

theorem create_none : create none T.keys = some ⟨T.keys, []⟩ := by
  have hColumns : T.keys.foldlM addColumn [] = some T.keys := foldlM_addColumn T.nodup
  simp only [create, if_neg T.nonempty, hColumns, Option.map_some]

theorem nodup_append_missing (hNodup : (columns.map folded).Nodup) :
    ((columns ++ T.keys.filter fun key => folded key ∉ columns.map folded).map folded).Nodup := by
  rw [List.map_append]
  refine hNodup.append (T.nodup.sublist (List.filter_sublist.map folded)) ?_
  intro name hOld hNew
  obtain ⟨key, hKey, rfl⟩ := List.mem_map.mp hNew
  simp only [List.mem_filter, decide_eq_true_eq] at hKey
  exact hKey.2 hOld

/-- A table that exists gets the columns that it lacks, at its end. -/
theorem create_some {t : SqlTable} (hNodup : (t.columns.map folded).Nodup) :
    create (some t) T.keys =
      some ⟨t.columns ++ T.keys.filter fun key => folded key ∉ t.columns.map folded, t.rows⟩ := by
  have hColumns := foldlM_addColumn (nodup_append_missing T hNodup)
  simp only [create, missingKeys_eq_filter T.nodup, hColumns, Option.map_some]

end Columns

/-! ## Rows -/

section Rows

variable {s : SQLite} {hash : String → Int} {columns properties : List CodingTableKey}
  {object : List Field}

theorem stored_of_typed {type : ColumnType} {value : FundamentalValue}
    (hTyped : Typed type value) : s.stored type value = value := by
  obtain rfl | hValue := hTyped
  · exact s.stored_null type
  · cases type with
    | integer64 =>
      obtain ⟨n, rfl⟩ := hValue
      exact s.stored_int64 n
    | float =>
      obtain ⟨d, rfl⟩ := hValue
      exact s.stored_double d
    | text =>
      obtain ⟨text, rfl⟩ := hValue
      exact s.stored_text text

/-- The row has the values of the object in all columns. -/
structure IsRow (columns : List CodingTableKey) (row : List FundamentalValue)
    (object : List Field) : Prop where
  length : row.length ≤ columns.length
  known : ∀ field ∈ object, folded field.key ∈ columns.map folded
  value : ∀ (i : ℕ) (column : CodingTableKey), columns[i]? = some column →
    row[i]?.getD .null = Stored.valueOf object (folded column)

theorem valueOf_eq_null {name : List Char} (hNone : ∀ field ∈ object, folded field.key ≠ name) :
    Stored.valueOf object name = .null := by
  have hFind : (object.find? fun field => folded field.key = name) = none :=
    List.find?_eq_none.mpr fun field hField => by simpa using hNone field hField
  rw [Stored.valueOf, hFind]
  rfl

theorem find?_folded (hNodup : ((object.map Field.key).map folded).Nodup) {field : Field}
    (hField : field ∈ object) :
    (object.find? fun f => folded f.key = folded field.key) = some field := by
  obtain ⟨found, hFound⟩ := Option.isSome_iff_exists.mp
    (List.find?_isSome.mpr ⟨field, hField, (by simp)⟩ :
      (object.find? fun f => folded f.key = folded field.key).isSome = true)
  have hName : folded found.key = folded field.key := by simpa using List.find?_some hFound
  rw [List.map_map] at hNodup
  have hEq : found = field :=
    List.inj_on_of_nodup_map hNodup (List.mem_of_find?_eq_some hFound) hField hName
  rw [hFound, hEq]

theorem valueOf_eq_bound (hNodup : ((object.map Field.key).map folded).Nodup) {field : Field}
    (hField : field ∈ object) : Stored.valueOf object (folded field.key) = field.bound := by
  rw [Stored.valueOf, find?_folded hNodup hField]
  rfl

/-- The type of an object reads its own fields. -/
theorem view_eq_cut (hNodup : ((object.map Field.key).map folded).Nodup) {field : Field}
    (hField : field ∈ object) : Stored.view object field.key = field.cut := by
  rw [Stored.view, valueOf_eq_bound hNodup hField, Field.cut]

/-- New columns of other names leave the row of an object. -/
theorem IsRow.append {row : List FundamentalValue} (hRow : IsRow columns row object)
    {added : List CodingTableKey} (hAdded : ∀ key ∈ added, folded key ∉ columns.map folded) :
    IsRow (columns ++ added) row object where
  length := by
    have hLength := hRow.length
    rw [List.length_append]
    omega
  known field hField := by
    rw [List.map_append]
    exact List.mem_append_left _ (hRow.known field hField)
  value i column hColumn := by
    rw [List.getElem?_append] at hColumn
    split at hColumn
    · exact hRow.value i column hColumn
    · have hLong : row[i]? = none := List.getElem?_eq_none (by have := hRow.length; omega)
      have hNew := hAdded column (List.mem_of_getElem? hColumn)
      have hNone : ∀ field ∈ object, folded field.key ≠ folded column := fun field hField hEq =>
        hNew (hEq ▸ hRow.known field hField)
      rw [hLong, valueOf_eq_null hNone]
      rfl

theorem find?_zip_map (g : CodingTableKey → FundamentalValue) (name : List Char) :
    (properties.zip (properties.map g)).find? (fun entry => folded entry.1 = name) =
      (properties.find? fun key => folded key = name).map fun key => (key, g key) := by
  have hZip : properties.zip (properties.map g) = properties.map fun key => (key, g key) := by
    rw [List.zip, List.zipWith_map_right, List.zipWith_self]
  rw [hZip, List.find?_map]
  rfl

section Insert

variable {typeOf : List Char → ColumnType} {T : RecordType typeOf}

/-- **A row.** An inserted row has the values of the selected fields of its object. -/
theorem isRow_insertRow (o : RecordObject T) (hKeys : properties ⊆ T.keys)
    (hColumns : ∀ key ∈ properties, folded key ∈ columns.map folded)
    (hTyped : ∀ column ∈ columns, column.columnType = typeOf (folded column)) :
    IsRow columns (insertRow s columns properties (properties.map (boundOf hash none o.fields)))
      (Stored.select properties o.fields) := by
  have hNodup : (((Stored.select properties o.fields).map Field.key).map folded).Nodup :=
    o.nodup_folded.sublist ((List.filter_sublist.map Field.key).map folded)
  have hMem {field : Field} : field ∈ Stored.select properties o.fields ↔
      field ∈ o.fields ∧ field.key ∈ properties := by
    simp [Stored.select]
  refine ⟨by simp [insertRow], fun field hField => hColumns _ (hMem.mp hField).2, ?_⟩
  intro i column hColumn
  rw [insertRow, List.getElem?_map, hColumn, Option.map_some, Option.getD_some, find?_zip_map]
  cases hFind : properties.find? fun key => folded key = folded column with
  | none =>
    have hNone : ∀ field ∈ Stored.select properties o.fields,
        folded field.key ≠ folded column := fun field hField => by
      simpa using List.find?_eq_none.mp hFind _ (hMem.mp hField).2
    rw [valueOf_eq_null hNone]
    exact s.stored_null column.columnType
  | some key =>
    have hProperty := List.mem_of_find?_eq_some hFind
    have hName : folded key = folded column := by simpa using List.find?_some hFind
    have hType : column.columnType = key.columnType := by
      rw [hTyped column (List.mem_of_getElem? hColumn), ← hName, T.typed key (hKeys hProperty)]
    simp only [Option.map_some, Option.elim_some]
    by_cases hEncoded : key ∈ o.fields.map Field.key
    · obtain ⟨field, hField, rfl⟩ := List.mem_map.mp hEncoded
      have hSelected : field ∈ Stored.select properties o.fields := hMem.mpr ⟨hField, hProperty⟩
      rw [← hName, valueOf_eq_bound hNodup hSelected, hType, boundOf_of_mem o.nodup hField]
      exact stored_of_typed (typed_bound field)
    · -- A key that was never encoded in the call has `NULL`.
      have hBound : boundOf hash none o.fields key = .null := boundOf_of_not_mem hEncoded
      have hNone : ∀ field ∈ Stored.select properties o.fields,
          folded field.key ≠ folded column := by
        intro field hField hEq
        have hSame : field.key = key := List.inj_on_of_nodup_map T.nodup
          (hKeys (hMem.mp hField).2) (hKeys hProperty) (hEq.trans hName.symm)
        exact hEncoded (hSame ▸ List.mem_map_of_mem (hMem.mp hField).1)
      rw [valueOf_eq_null hNone, hBound]
      exact s.stored_null column.columnType

/-- The bindings of an object over those of the one before it. -/
theorem encodeObject_after (hHash : NoCollision hash T.keys) (hKeys : properties ⊆ T.keys)
    (hNodup : properties.Nodup) (previous o : RecordObject T) :
    encodeObject hash none properties (properties.map (boundOf hash none previous.fields))
        o.fields = properties.map (boundOf hash none (previous.after o).fields) := by
  refine encodeObject_eq_map hHash o.keys_subset hKeys hNodup ?_ (List.length_map _) ?_
  · intro field hField
    exact (boundOf_of_mem (previous.after o).nodup (List.mem_append_left _ hField)).symm
  · intro j key hKey hNot
    rw [List.getElem?_map, hKey, Option.map_some]
    by_cases hBefore : key ∈ previous.fields.map Field.key
    · obtain ⟨field, hField, rfl⟩ := List.mem_map.mp hBefore
      have hKept : field ∈ (previous.after o).fields :=
        List.mem_append_right _ (List.mem_filter.mpr ⟨hField, decide_eq_true hNot⟩)
      rw [boundOf_of_mem previous.nodup hField, boundOf_of_mem (previous.after o).nodup hKept]
    · have hNever : key ∉ (previous.after o).fields.map Field.key := by
        rw [RecordObject.after, List.map_append, List.mem_append, not_or]
        exact ⟨hNot, fun h => hBefore ((List.filter_sublist.map Field.key).subset h)⟩
      rw [boundOf_of_not_mem hBefore, boundOf_of_not_mem hNever]

/-- **The loop of an insertion.** Each row is that of its own object, over those before it. -/
theorem insertRows_eq (s : SQLite) (columns : List CodingTableKey)
    (hHash : NoCollision hash T.keys) (hKeys : properties ⊆ T.keys) (hNodup : properties.Nodup)
    (previous : RecordObject T) (objects : List (RecordObject T × Bool)) :
    insertRows s hash columns properties (properties.map (boundOf hash none previous.fields))
        (objects.map fun o => (o.1.fields, o.2)) =
      if ∀ o ∈ objects, o.2 = true then
        some ((RecordObject.carried previous (objects.map Prod.fst)).map fun o =>
          insertRow s columns properties (properties.map (boundOf hash none o.fields)))
      else none := by
  induction objects generalizing previous with
  | nil => rfl
  | cons o objects ih =>
    have hEncoded := encodeObject_after hHash hKeys hNodup previous o.1
    rw [List.map_cons, insertRows, hEncoded, ih (previous.after o.1)]
    cases hSucceeds : o.2 with
    | false => simp [hSucceeds]
    | true =>
      have hAll : (∀ o' ∈ o :: objects, o'.2 = true) ↔ ∀ o' ∈ objects, o'.2 = true := by
        rw [List.forall_mem_cons]
        exact and_iff_right hSucceeds
      simp only [hAll, if_true]
      split <;> rfl

end Insert

end Rows

/-! ## The relation and the runs -/

/-- The table has one column for each name of a created key, and a row for each object. -/
structure Denotes (typeOf : List Char → ColumnType) (t : SqlTable) (stored : Stored) : Prop where
  nodup : (t.columns.map folded).Nodup
  created : ∀ name, name ∈ t.columns.map folded ↔ name ∈ stored.created.map folded
  typed : ∀ column ∈ t.columns, column.columnType = typeOf (folded column)
  objects : ∀ object ∈ stored.objects, ∀ field ∈ object,
    field.key.columnType = typeOf (folded field.key)
  rows : List.Forall₂ (IsRow t.columns) t.rows stored.objects

namespace Denotes

variable {typeOf : List Char → ColumnType} {t : SqlTable} {stored : Stored}

theorem hasColumns_iff (hDenotes : Denotes typeOf t stored) (keys : List CodingTableKey) :
    t.hasColumns keys = true ↔ stored.Covers keys := by
  simp only [hasColumns, List.all_eq_true, decide_eq_true_eq, Stored.Covers]
  exact forall₂_congr fun key _ => hDenotes.created (folded key)

theorem create (hDenotes : Denotes typeOf t stored) (T : RecordType typeOf) :
    Denotes typeOf ⟨t.columns ++ T.keys.filter fun key => folded key ∉ t.columns.map folded, t.rows⟩
      { stored with created := stored.created ++ T.keys } where
  nodup := nodup_append_missing T hDenotes.nodup
  created name := by
    simp only [List.map_append, List.mem_append, ← hDenotes.created name]
    by_cases hOld : name ∈ t.columns.map folded
    · exact iff_of_true (Or.inl hOld) (Or.inl hOld)
    · refine or_congr_right ⟨fun hNew => ?_, fun hKey => ?_⟩
      · exact (List.filter_sublist.map folded).subset hNew
      · obtain ⟨key, hMem, rfl⟩ := List.mem_map.mp hKey
        exact List.mem_map_of_mem (List.mem_filter.mpr ⟨hMem, by simpa using hOld⟩)
  typed column hColumn := by
    rcases List.mem_append.mp hColumn with hOld | hNew
    · exact hDenotes.typed column hOld
    · exact T.typed column (List.mem_filter.mp hNew).1
  objects := hDenotes.objects
  rows := by
    refine hDenotes.rows.imp fun row object hRow => hRow.append fun key hKey => ?_
    simpa using (List.mem_filter.mp hKey).2

theorem insert (hDenotes : Denotes typeOf t stored) {T : RecordType typeOf} (s : SQLite)
    {properties : List CodingTableKey} (hKeys : properties ⊆ T.keys)
    (hColumns : t.hasColumns properties = true) (hash : String → Int)
    (objects : List (RecordObject T)) :
    Denotes typeOf
      ⟨t.columns, t.rows ++ objects.map fun o =>
        insertRow s t.columns properties (properties.map (boundOf hash none o.fields))⟩
      { stored with
        objects := stored.objects ++ objects.map fun o => Stored.select properties o.fields } where
  nodup := hDenotes.nodup
  created := hDenotes.created
  typed := hDenotes.typed
  objects object hObject field hField := by
    rcases List.mem_append.mp hObject with hOld | hNew
    · exact hDenotes.objects object hOld field hField
    · obtain ⟨o, -, rfl⟩ := List.mem_map.mp hNew
      exact T.typed field.key
        (o.keys_subset (List.mem_map_of_mem (List.mem_filter.mp hField).1))
  rows := by
    have hMem : ∀ key ∈ properties, folded key ∈ t.columns.map folded := by
      simpa only [hasColumns, List.all_eq_true, decide_eq_true_eq] using hColumns
    refine List.rel_append hDenotes.rows ?_
    rw [List.forall₂_map_left_iff, List.forall₂_map_right_iff, List.forall₂_same]
    exact fun o _ => isRow_insertRow o hKeys hMem hDenotes.typed

/-- A key of the table is read as the field of the object. -/
theorem readColumn_columnValue (hDenotes : Denotes typeOf t stored) (s : SQLite)
    {key : CodingTableKey} (hKey : folded key ∈ t.columns.map folded)
    (hTyped : key.columnType = typeOf (folded key)) {row : List FundamentalValue}
    {object : List Field} (hObject : object ∈ stored.objects)
    (hRow : IsRow t.columns row object) :
    readColumn s key (columnValue t.columns row key) = Stored.view object key := by
  have hValue : columnValue t.columns row key = Stored.valueOf object (folded key) := by
    cases hFind : t.columns.findIdx? (folded · = folded key) with
    | none =>
      obtain ⟨column, hColumn, hName⟩ := List.mem_map.mp hKey
      have hNone := List.findIdx?_eq_none_iff.mp hFind column hColumn
      simp [hName] at hNone
    | some i =>
      obtain ⟨hLt, hName, -⟩ := List.findIdx?_eq_some_iff_getElem.mp hFind
      have hColumn : t.columns[i]? = some t.columns[i] := List.getElem?_eq_getElem hLt
      have hRowValue := hRow.value i _ hColumn
      simp only [columnValue, hFind, hRowValue]
      rw [of_decide_eq_true hName]
  have hTypedValue : Typed key.columnType (Stored.valueOf object (folded key)) := by
    cases hFind : object.find? fun field => folded field.key = folded key with
    | none => exact Or.inl (by rw [Stored.valueOf, hFind]; rfl)
    | some field =>
      have hName : folded field.key = folded key := by simpa using List.find?_some hFind
      have hType : key.columnType = field.key.columnType := by
        rw [hTyped, ← hName,
          hDenotes.objects object hObject field (List.mem_of_find?_eq_some hFind)]
      rw [Stored.valueOf, hFind, hType]
      exact typed_bound field
  rw [hValue, Stored.view, readColumn_eq_ofValue hTypedValue]

/-- **Reading.** The rows are read as the objects. -/
theorem getObjects_eq (hDenotes : Denotes typeOf t stored) (s : SQLite) (T : RecordType typeOf)
    {hash : String → Int} (hHash : NoCollision hash T.keys) :
    getObjects s hash (some t) T.keys = if stored.Covers T.keys then
      some (stored.objects.map fun object => T.keys.map (Stored.view object)) else none := by
  rw [getObjects, Option.bind_some]
  by_cases hCovers : stored.Covers T.keys
  · rw [if_pos ((hDenotes.hasColumns_iff T.keys).mpr hCovers), if_pos hCovers]
    have hRead : ∀ row object, object ∈ stored.objects → IsRow t.columns row object →
        decodeObject s hash T.keys T.keys (T.keys.map (columnValue t.columns row)) =
          some (T.keys.map (Stored.view object)) := by
      intro row object hObject hRow
      rw [decodeObject_eq_map hHash (List.Subset.refl _)]
      refine congrArg some (List.map_congr_left fun key hKey => ?_)
      exact hDenotes.readColumn_columnValue s ((hDenotes.created _).mpr (hCovers key hKey))
        (T.typed key hKey) hObject hRow
    exact mapM_of_forall₂ hDenotes.rows hRead
  · have hNone : ¬ t.hasColumns T.keys = true := fun hColumns =>
      hCovers ((hDenotes.hasColumns_iff T.keys).mp hColumns)
    rw [if_neg hNone, if_neg hCovers]

end Denotes

section Runs

variable {typeOf : List Char → ColumnType}

/-- A table that is missing is so in the specification. -/
def Related (typeOf : List Char → ColumnType) : Option SqlTable → Option Stored → Prop
  | none, none => True
  | some t, some stored => Denotes typeOf t stored
  | _, _ => False

/-- An insertion into a table that exists. -/
theorem related_insert {t : SqlTable} {stored : Stored} (hDenotes : Denotes typeOf t stored)
    (s : SQLite) {hash : String → Int} {T : RecordType typeOf} {properties : List CodingTableKey}
    (hKeys : properties ⊆ T.keys) (hNodup : properties.Nodup) (hHash : NoCollision hash T.keys)
    (objects : List (RecordObject T × Bool)) (succeeds : Bool) :
    Related typeOf
      ((SqlTable.insert s hash (some t) properties (objects.map fun o => (o.1.fields, o.2))
        succeeds).getD (some t))
      (Stored.apply (some stored) (.insert hash T properties objects succeeds)) := by
  have hNull : properties.map (boundOf hash none (RecordObject.empty T).fields) =
      List.replicate properties.length FundamentalValue.null := List.map_const'
  have hRows := insertRows_eq s t.columns hHash hKeys hNodup (.empty T) objects
  rw [hNull] at hRows
  have hColumns := hDenotes.hasColumns_iff properties
  by_cases hEmpty : objects = []
  · subst hEmpty
    have hSame : Stored.apply (some stored) (.insert hash T properties [] succeeds) =
        some stored := by
      simp [Stored.apply, RecordObject.carried]
    rw [hSame]
    exact hDenotes
  have hInsert : SqlTable.insert s hash (some t) properties
      (objects.map fun o => (o.1.fields, o.2)) succeeds =
      if succeeds = true ∧ stored.Covers properties ∧ ∀ o ∈ objects, o.2 = true then
        some (some ⟨t.columns, t.rows ++
          (RecordObject.carried (.empty T) (objects.map Prod.fst)).map fun o =>
            insertRow s t.columns properties (properties.map (boundOf hash none o.fields))⟩)
      else none := by
    rw [SqlTable.insert, if_neg (by simpa using hEmpty), hRows]
    simp only [hColumns]
    by_cases hSteps : ∀ o ∈ objects, o.2 = true
    · simp only [if_pos hSteps, Option.map_some]
      exact if_congr (and_congr_right fun _ => (and_iff_left hSteps).symm) rfl rfl
    · simp only [hSteps, and_false, if_false, Option.map_none, ite_self]
  rw [hInsert, Stored.apply]
  split
  · rename_i hStored
    exact hDenotes.insert s hKeys (hColumns.mpr hStored.2.1) hash _
  · exact hDenotes

/-- A step on a table that is missing. -/
theorem related_none (s : SQLite) (e : TableEvent typeOf) {t' : Option SqlTable}
    (hStep : step s none e = some t') : Related typeOf t' (Stored.apply none e) := by
  cases e with
  | create T succeeds =>
    obtain rfl := Option.some.inj hStep
    cases succeeds with
    | false => exact trivial
    | true =>
      simp only [create_none, Stored.apply, if_true, Option.some_or]
      exact ⟨T.nodup, fun name => Iff.rfl, T.typed, fun _ h => absurd h List.not_mem_nil, .nil⟩
  | insert hash T properties objects succeeds =>
    obtain rfl := Option.some.inj hStep
    simp only [SqlTable.insert, Stored.apply]
    split <;> exact trivial
  | delete succeeds =>
    obtain rfl := Option.some.inj hStep
    cases succeeds <;> exact trivial
  | drop succeeds =>
    obtain rfl := Option.some.inj hStep
    cases succeeds <;> exact trivial

/-- A step on a table that exists. -/
theorem related_some {t : SqlTable} {stored : Stored} (hDenotes : Denotes typeOf t stored)
    (s : SQLite) {e : TableEvent typeOf} (hValid : e.Valid) {t' : Option SqlTable}
    (hStep : step s (some t) e = some t') : Related typeOf t' (Stored.apply (some stored) e) := by
  cases e with
  | create T succeeds =>
    obtain rfl := Option.some.inj hStep
    cases succeeds with
    | false => exact hDenotes
    | true =>
      simp only [create_some T hDenotes.nodup, Stored.apply, if_true, Option.some_or]
      exact hDenotes.create T
  | insert hash T properties objects succeeds =>
    obtain rfl := Option.some.inj hStep
    obtain ⟨hKeys, hNodup, hHash⟩ := hValid
    exact related_insert hDenotes s hKeys hNodup hHash objects succeeds
  | delete succeeds =>
    obtain rfl := Option.some.inj hStep
    cases succeeds with
    | false => exact hDenotes
    | true =>
      exact ⟨hDenotes.nodup, hDenotes.created, hDenotes.typed,
        fun _ h => absurd h List.not_mem_nil, .nil⟩
  | drop succeeds =>
    obtain rfl := Option.some.inj hStep
    cases succeeds with
    | false => exact hDenotes
    | true => exact trivial

theorem refines (typeOf : List Char → ColumnType) (s : SQLite) :
    Refines (step s : Machine (Option SqlTable) (TableEvent typeOf)) Stored.apply TableEvent.Valid
      (Related typeOf) := by
  refine ⟨fun {t stored e t'} hRelated hValid hStep => ?_⟩
  cases t with
  | none =>
    cases stored with
    | none => exact related_none s e hStep
    | some stored => cases hRelated
  | some t =>
    cases stored with
    | none => cases hRelated
    | some stored => exact related_some hRelated s hValid hStep

/-- What a table shows of the objects stored in it. -/
structure Shows (s : SQLite) (typeOf : List Char → ColumnType) (t : Option SqlTable)
    (stored : Option Stored) : Prop where
  isSome_eq : t.isSome = stored.isSome
  columns : ∀ table st, t = some table → stored = some st →
    (table.columns.map folded).Nodup ∧
      ∀ name, name ∈ table.columns.map folded ↔ name ∈ st.created.map folded
  getObjects_eq : ∀ (hash : String → Int) (T : RecordType typeOf), NoCollision hash T.keys →
    getObjects s hash t T.keys = stored.bind fun st =>
      if st.Covers T.keys then some (st.objects.map fun o => T.keys.map (Stored.view o)) else none

theorem Related.shows {t : Option SqlTable} {stored : Option Stored}
    (hRelated : Related typeOf t stored) (s : SQLite) : Shows s typeOf t stored := by
  cases t with
  | none =>
    cases stored with
    | none => exact ⟨rfl, nofun, fun _ _ _ => rfl⟩
    | some stored => cases hRelated
  | some t =>
    cases stored with
    | none => cases hRelated
    | some stored =>
      have hDenotes : Denotes typeOf t stored := hRelated
      refine ⟨rfl, ?_, fun hash T hHash => hDenotes.getObjects_eq s T hHash⟩
      rintro table st ⟨⟩ ⟨⟩
      exact ⟨hDenotes.nodup, hDenotes.created⟩

end Runs

/-- A hash of the first two characters. -/
def sampleHash (name : String) : Int := (name.toList.take 2).foldl (fun n c => n + c.toNat) 0

end SqlTable

end LeigodAPM
