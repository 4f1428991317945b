import Mathlib.Data.List.Basic
import Mathlib.Logic.Function.Basic

/-!
# The database manager

`NNDBManager` passes each operation on to the database, and turns an error into the `false`
of its completion block. What an operation of the database does when it succeeds is fixed
here; whether it succeeds is a parameter of each call. An operation that fails changes
nothing, and no rows can be inserted into or deleted from a table that is missing.
-/

namespace LeigodAPM

/-- Objects that are stored in a table. -/
class TableCodable (Row : Type) where
  /-- The object that is read back. -/
  stored : Row → Row

/-- The tables of the database file, each with its rows in the order of their insertion. -/
structure Database (Row : Type) where
  /-- The table that SQLite takes a name for. The name is pasted into the statement, without
  quotes, and SQLite ignores its case. -/
  resolve : String → String
  tables : String → Option (List Row)

namespace Database

variable {Row : Type}

def isTableExists (db : Database Row) (table : String) : Bool :=
  (db.tables (db.resolve table)).isSome

/-- The rows of a table; none when it is missing. -/
def rows (db : Database Row) (table : String) : List Row := (db.tables (db.resolve table)).getD []

def set (db : Database Row) (table : String) (rows : Option (List Row)) : Database Row :=
  { db with tables := Function.update db.tables (db.resolve table) rows }

/-- A table that exists keeps its rows. -/
def create (db : Database Row) (table : String) (succeeds : Bool) : Option (Database Row) :=
  if succeeds = true then some (db.set table (some (db.rows table))) else none

/-- Without an object there is no statement that could fail, but the name has to be a name. -/
def insert [TableCodable Row] (db : Database Row) (objects : List Row) (table : String)
    (succeeds : Bool) : Option (Database Row) :=
  match objects with
  | [] => if table = "" then none else some db
  | _ :: _ =>
    if succeeds = true ∧ db.isTableExists table = true then
      some (db.set table (some (db.rows table ++ objects.map TableCodable.stored)))
    else none

def delete (db : Database Row) (table : String) (condition : Row → Bool) (succeeds : Bool) :
    Option (Database Row) :=
  if succeeds = true ∧ db.isTableExists table = true then
    some (db.set table (some ((db.rows table).filter fun row => !condition row)))
  else none

def drop (db : Database Row) (table : String) (succeeds : Bool) : Option (Database Row) :=
  if succeeds = true then some (db.set table none) else none

/-- Closes the database and removes its files. -/
def removeFiles (db : Database Row) (succeeds : Bool) : Option (Database Row) :=
  if succeeds = true then some { db with tables := fun _ => none } else none

@[simp] theorem set_resolve (db : Database Row) (table : String) (rows : Option (List Row)) :
    (db.set table rows).resolve = db.resolve := rfl

@[simp] theorem isTableExists_set (db : Database Row) (table table' : String)
    (rows : Option (List Row)) : (db.set table rows).isTableExists table' =
      if db.resolve table' = db.resolve table then rows.isSome else db.isTableExists table' := by
  by_cases hTable : db.resolve table' = db.resolve table
  · simp [isTableExists, set, hTable]
  · simp [isTableExists, set, hTable]

@[simp] theorem rows_set (db : Database Row) (table : String) (rows : Option (List Row)) :
    (db.set table rows).rows table = rows.getD [] := by
  simp [Database.rows, set]

/-- How SQLite takes an identifier. -/
def caseless (name : String) : String := .ofList (name.toList.map Char.toLower)

end Database

namespace NNDBManager

variable {Row : Type}

/-- The `do`/`catch` around an operation: the database afterwards and what the completion
block is told. -/
def catching (db : Database Row) (result : Option (Database Row)) : Database Row × Bool :=
  (result.getD db, result.isSome)

def createTable (db : Database Row) (table : String) (succeeds : Bool) : Database Row × Bool :=
  catching db (db.create table succeeds)

def insert [TableCodable Row] (db : Database Row) (objects : List Row) (table : String)
    (succeeds : Bool) : Database Row × Bool := catching db (db.insert objects table succeeds)

def delete (db : Database Row) (table : String) (condition : Row → Bool) (succeeds : Bool) :
    Database Row × Bool := catching db (db.delete table condition succeeds)

/-- Without a condition every row is deleted. -/
def deleteFromDb (db : Database Row) (table : String) (succeeds : Bool) : Database Row × Bool :=
  catching db (db.delete table (fun _ => true) succeeds)

def dropTable (db : Database Row) (table : String) (succeeds : Bool) : Database Row × Bool :=
  catching db (db.drop table succeeds)

def removeDbFile (db : Database Row) (succeeds : Bool) : Database Row × Bool :=
  catching db (db.removeFiles succeeds)

/-- `none` when the table is missing. -/
def getObjects (db : Database Row) (table : String) : Option (List Row) :=
  db.tables (db.resolve table)

section Tables

variable (db : Database Row) (table table' : String) (succeeds : Bool)

theorem createTable_isTableExists :
    (createTable db table succeeds).1.isTableExists table' =
      if db.resolve table' = db.resolve table ∧ succeeds = true then true
      else db.isTableExists table' := by
  cases succeeds <;> by_cases hTable : db.resolve table' = db.resolve table <;>
    simp [createTable, catching, Database.create, hTable]

/-- New rows for a table that exists make no table appear or disappear. -/
theorem catching_set_isTableExists (rows : List Row) :
    (catching db (if succeeds = true ∧ db.isTableExists table = true then
      some (db.set table (some rows)) else none)).1.isTableExists table' =
      db.isTableExists table' := by
  by_cases hSet : succeeds = true ∧ db.isTableExists table = true
  · rw [if_pos hSet]
    by_cases hTable : db.resolve table' = db.resolve table
    · have hExists : db.isTableExists table' = true := by
        rw [Database.isTableExists, hTable]
        exact hSet.2
      simp [catching, hTable, hExists]
    · simp [catching, hTable]
  · rw [if_neg hSet]
    rfl

theorem insert_isTableExists [TableCodable Row] (objects : List Row) :
    (insert db objects table succeeds).1.isTableExists table' = db.isTableExists table' := by
  cases objects with
  | nil =>
    rw [insert, Database.insert]
    split <;> rfl
  | cons object objects => exact catching_set_isTableExists db table table' succeeds _

theorem delete_isTableExists (condition : Row → Bool) :
    (delete db table condition succeeds).1.isTableExists table' = db.isTableExists table' :=
  catching_set_isTableExists db table table' succeeds _

/-- Rows are stored only in a table that exists. -/
theorem insert_rows [TableCodable Row] (objects : List Row) :
    (insert db objects table succeeds).1.rows table =
      if succeeds = true ∧ db.isTableExists table = true then
        db.rows table ++ objects.map TableCodable.stored
      else db.rows table := by
  cases objects with
  | nil =>
    rw [insert, Database.insert, List.map_nil, List.append_nil, ite_self]
    split <;> rfl
  | cons object objects =>
    by_cases hSet : succeeds = true ∧ db.isTableExists table = true <;>
      simp [insert, catching, Database.insert, hSet]

theorem deleteFromDb_rows : (deleteFromDb db table succeeds).1.rows table =
    if succeeds = true then [] else db.rows table := by
  cases succeeds with
  | false => simp [deleteFromDb, catching, Database.delete]
  | true =>
    by_cases hExists : db.isTableExists table = true
    · simp [deleteFromDb, catching, Database.delete, hExists]
    · -- A missing table has no rows to begin with.
      have hNone : db.tables (db.resolve table) = none := by
        simpa [Database.isTableExists] using hExists
      simp [deleteFromDb, catching, Database.delete, hExists, Database.rows, hNone]

theorem dropTable_isTableExists :
    (dropTable db table succeeds).1.isTableExists table' =
      if db.resolve table' = db.resolve table ∧ succeeds = true then false
      else db.isTableExists table' := by
  cases succeeds <;> by_cases hTable : db.resolve table' = db.resolve table <;>
    simp [dropTable, catching, Database.drop, hTable]

theorem removeDbFile_isTableExists :
    (removeDbFile db succeeds).1.isTableExists table' =
      if succeeds = true then false else db.isTableExists table' := by
  cases succeeds <;> rfl

end Tables

/-- Objects are inserted into a table that exists, and no objects into any. -/
theorem insert_value [TableCodable Row] (db : Database Row) (objects : List Row) {table : String}
    (hTable : table ≠ "") (succeeds : Bool) : (insert db objects table succeeds).2 = true ↔
      objects = [] ∨ (succeeds = true ∧ db.isTableExists table = true) := by
  cases objects with
  | nil => simp [insert, catching, Database.insert, hTable]
  | cons object objects =>
    by_cases hSet : succeeds = true ∧ db.isTableExists table = true <;>
      simp [insert, catching, Database.insert, hSet]

end NNDBManager

end LeigodAPM
