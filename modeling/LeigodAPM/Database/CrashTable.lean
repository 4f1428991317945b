import LeigodAPM.Database.CrashLog
import LeigodAPM.WCDB.Tables

/-!
# The rows of the crash table

`NNDBManager` is modelled on tables whose rows are records. Below it WCDB creates the columns of
the keys of `CrashRecordModel` and encodes each record as a row of values.

* `crashTable_refines`: the table of values refines the table of records.
-/

namespace LeigodAPM

open Foundation Machine TableCoding

namespace CrashRecordModel

/-- The cases of `CodingKeys` in their order. -/
def codingKeys : List CodingTableKey :=
  [⟨"type", .integer64, false⟩, ⟨"name", .text, false⟩, ⟨"time", .text, false⟩,
    ⟨"reason", .text, false⟩, ⟨"appinfo", .text, false⟩, ⟨"callStack", .text, false⟩]

def typeOf (name : List Char) : ColumnType :=
  if name = "type".toList then .integer64 else .text

def recordType : RecordType typeOf where
  keys := codingKeys
  nonempty := by decide
  nodup := by decide
  typed := by decide
  named := by decide

/-- The calls of `encode(to:)`. -/
def fields (model : CrashRecordModel) : List Field :=
  [.int "type" model.type, .string "name" model.name, .string "time" model.time,
    .string "reason" model.reason, .string "appinfo" model.appinfo,
    .string "callStack" model.callStack]

theorem key_fields (model : CrashRecordModel) : model.fields.map Field.key = codingKeys := rfl

def object (model : CrashRecordModel) : RecordObject recordType where
  fields := model.fields
  keys_subset := List.Subset.refl _
  nodup := by
    rw [key_fields]
    decide

/-- A record is read as the one that `NNDBManager` stores. -/
theorem map_view (model : CrashRecordModel) :
    codingKeys.map (Stored.view model.fields) = (TableCodable.stored model).fields := by
  have hView : model.fields.map (fun field => Stored.view model.fields field.key) =
      model.fields.map Field.cut :=
    List.map_congr_left fun field hField =>
      SqlTable.view_eq_cut model.object.nodup_folded hField
  exact hView

end CrashRecordModel

/-- The operations of the app on the crash table, each with its outcome; an inserted record comes
with that of its own step. -/
inductive CrashTableEvent
  | createTable (succeeds : Bool)
  | insert (hash : String → Int) (objects : List (CrashRecordModel × Bool)) (succeeds : Bool)
  | deleteFromDb (succeeds : Bool)
  | dropTable (succeeds : Bool)
  | removeDbFile (succeeds : Bool)

namespace CrashTableEvent

open CrashRecordModel

/-- What WCDB does; a file that is removed takes the table with it. -/
def tableEvent : CrashTableEvent → TableEvent typeOf
  | createTable succeeds => .create recordType succeeds
  | insert hash objects succeeds =>
    .insert hash recordType codingKeys (objects.map fun o => (o.1.object, o.2)) succeeds
  | deleteFromDb succeeds => .delete succeeds
  | dropTable succeeds => .drop succeeds
  | removeDbFile succeeds => .drop succeeds

def step (s : SQLite) : Machine (Option SqlTable) CrashTableEvent :=
  fun t e => SqlTable.step s t e.tableEvent

/-- What `NNDBManager` does with records. -/
def apply (db : Database CrashRecordModel) : CrashTableEvent → Database CrashRecordModel
  | createTable succeeds => (NNDBManager.createTable db tabString succeeds).1
  | insert _ objects succeeds =>
    (NNDBManager.insert db (objects.map Prod.fst) tabString
      (succeeds && objects.all Prod.snd)).1
  | deleteFromDb succeeds => (NNDBManager.deleteFromDb db tabString succeeds).1
  | dropTable succeeds => (NNDBManager.dropTable db tabString succeeds).1
  | removeDbFile succeeds => (NNDBManager.removeDbFile db succeeds).1

/-- The keys of the records do not collide. -/
def Valid : CrashTableEvent → Prop
  | insert hash _ _ => NoCollision hash codingKeys
  | _ => True

theorem valid_tableEvent {e : CrashTableEvent} (hValid : e.Valid) : e.tableEvent.Valid := by
  cases e with
  | insert hash objects succeeds => exact ⟨List.Subset.refl _, by decide, hValid⟩
  | _ => trivial

/-- The objects as they are read. -/
def viewed (objects : List (List Field)) : List (List Field) :=
  objects.map fun object => codingKeys.map (Stored.view object)

/-- The stored objects are read as the records of the table. -/
def Holds : Option Stored → Option (List CrashRecordModel) → Prop
  | none, none => True
  | some stored, some records =>
    viewed stored.objects = records.map CrashRecordModel.fields ∧ stored.Covers codingKeys
  | _, _ => False

/-- Every record encodes all keys, so none has a field of the one before it. -/
theorem viewed_inserted (objects : List (CrashRecordModel × Bool)) :
    viewed ((RecordObject.carried (.empty recordType)
        ((objects.map fun o => (o.1.object, o.2)).map Prod.fst)).map
          fun o => Stored.select codingKeys o.fields) =
      ((objects.map Prod.fst).map TableCodable.stored).map CrashRecordModel.fields := by
  have hAll : ∀ o ∈ (objects.map fun o => (o.1.object, o.2)).map Prod.fst,
      recordType.keys ⊆ o.fields.map Field.key := by
    intro o ho
    rw [List.map_map] at ho
    obtain ⟨record, -, rfl⟩ := List.mem_map.mp ho
    exact List.Subset.refl _
  have hCarried := congrArg (List.map (Stored.select codingKeys))
    (RecordObject.carried_eq_self hAll (.empty recordType))
  rw [List.map_map] at hCarried
  refine (congrArg viewed hCarried).trans ?_
  simp only [viewed, List.map_map]
  exact List.map_congr_left fun o _ => map_view o.1

theorem Holds.elim {stored : Option Stored} {rows : Option (List CrashRecordModel)}
    (hHolds : Holds stored rows) : (stored = none ∧ rows = none) ∨
      ∃ st records, stored = some st ∧ rows = some records ∧
        viewed st.objects = records.map CrashRecordModel.fields ∧ st.Covers codingKeys := by
  cases stored with
  | none =>
    cases rows with
    | none => exact Or.inl ⟨rfl, rfl⟩
    | some records => cases hHolds
  | some st =>
    cases rows with
    | none => cases hHolds
    | some records => exact Or.inr ⟨st, records, rfl, rfl, hHolds⟩

/-- **One operation.** It keeps the objects and the records together. -/
theorem Holds.apply {stored : Option Stored} {db : Database CrashRecordModel}
    (hHolds : Holds stored (NNDBManager.getObjects db tabString)) (e : CrashTableEvent) :
    Holds (Stored.apply stored e.tableEvent)
      (NNDBManager.getObjects (apply db e) tabString) := by
  cases e with
  | createTable succeeds =>
    rw [CrashTableEvent.apply, NNDBManager.getObjects_createTable]
    cases succeeds with
    | false =>
      obtain ⟨rfl, hRows⟩ | ⟨st, records, rfl, hRows, hBoth⟩ := hHolds.elim
      · exact hHolds
      · exact hHolds
    | true =>
      obtain ⟨rfl, hRows⟩ | ⟨st, records, rfl, hRows, hObjects, hCovers⟩ := hHolds.elim
      · rw [hRows]
        exact ⟨rfl, fun key hKey => List.mem_map_of_mem hKey⟩
      · rw [hRows]
        refine ⟨hObjects, fun key hKey => ?_⟩
        have hMem : folded key ∈ (st.created ++ recordType.keys).map folded := by
          rw [List.map_append]
          exact List.mem_append_left _ (hCovers key hKey)
        exact hMem
  | insert hash objects succeeds =>
    rw [CrashTableEvent.apply, NNDBManager.getObjects_insert]
    obtain ⟨rfl, hRows⟩ | ⟨st, records, rfl, hRows, hObjects, hCovers⟩ := hHolds.elim
    · rw [hRows]
      split <;> exact trivial
    · have hIff : (succeeds = true ∧ st.Covers codingKeys ∧
          ∀ o ∈ objects.map fun o => (o.1.object, o.2), o.2 = true) ↔
          (succeeds && objects.all Prod.snd) = true := by
        simp [hCovers, List.all_eq_true]
      rw [hRows, tableEvent, Stored.apply]
      simp only [hIff]
      split
      · refine ⟨?_, hCovers⟩
        rw [viewed, List.map_append]
        exact (congrArg₂ (· ++ ·) hObjects (viewed_inserted objects)).trans
          (List.map_append).symm
      · exact ⟨hObjects, hCovers⟩
  | deleteFromDb succeeds =>
    rw [CrashTableEvent.apply, NNDBManager.getObjects_deleteFromDb]
    obtain ⟨rfl, hRows⟩ | ⟨st, records, rfl, hRows, hObjects, hCovers⟩ := hHolds.elim
    · rw [hRows]
      cases succeeds <;> exact trivial
    · rw [hRows]
      cases succeeds with
      | false => exact ⟨hObjects, hCovers⟩
      | true => exact ⟨rfl, hCovers⟩
  | dropTable succeeds =>
    rw [CrashTableEvent.apply, NNDBManager.getObjects_dropTable]
    cases succeeds with
    | false => simpa [tableEvent, Stored.apply] using hHolds
    | true => simp [tableEvent, Stored.apply, Holds]
  | removeDbFile succeeds =>
    rw [CrashTableEvent.apply, NNDBManager.getObjects_removeDbFile]
    cases succeeds with
    | false => simpa [tableEvent, Stored.apply] using hHolds
    | true => simp [tableEvent, Stored.apply, Holds]

/-- The table of values, the stored objects and the table of records belong together. -/
def Agrees (t : Option SqlTable) (db : Database CrashRecordModel) : Prop :=
  ∃ stored, SqlTable.Related typeOf t stored ∧ Holds stored (NNDBManager.getObjects db tabString)

theorem refines (s : SQLite) : Refines (step s) apply Valid Agrees := by
  refine ⟨?_⟩
  rintro t db e t' ⟨stored, hRelated, hHolds⟩ hValid hStep
  exact ⟨_, (SqlTable.refines typeOf s).step hRelated (valid_tableEvent hValid) hStep,
    hHolds.apply e⟩

theorem Agrees.getObjects_eq {t : Option SqlTable} {db : Database CrashRecordModel}
    (hAgrees : Agrees t db) (s : SQLite) {hash : String → Int}
    (hHash : NoCollision hash codingKeys) :
    SqlTable.getObjects s hash t codingKeys =
      (NNDBManager.getObjects db tabString).map (·.map CrashRecordModel.fields) := by
  obtain ⟨stored, hRelated, hHolds⟩ := hAgrees
  have hShown := (hRelated.shows s).getObjects_eq hash recordType hHash
  obtain ⟨rfl, hRows⟩ | ⟨st, records, rfl, hRows, hObjects, hCovers⟩ := hHolds.elim
  · rw [hRows]
    exact hShown
  · rw [hRows]
    refine hShown.trans ?_
    have hCovers' : st.Covers recordType.keys := hCovers
    rw [Option.bind_some, if_pos hCovers']
    exact congrArg some hObjects

/-- **The crash table.** From a database without the table on, whatever operations succeed, the
table of values holds the records that the table of records holds. -/
theorem crashTable_refines (s : SQLite) (db : Database CrashRecordModel)
    (hMissing : NNDBManager.getObjects db tabString = none) (events : List CrashTableEvent)
    (hValid : ∀ e ∈ events, e.Valid) :
    (step s).Always (fun h t => ∀ hash, NoCollision hash codingKeys →
      SqlTable.getObjects s hash t codingKeys =
        (NNDBManager.getObjects (h.foldl apply db) tabString).map
          (·.map CrashRecordModel.fields)) none events := by
  intro h t hh hRun hash hHash
  have hStart : Agrees none db := ⟨none, trivial, hMissing ▸ trivial⟩
  have hEvents : ∀ e ∈ h, e.Valid := fun e he => hValid e (hh.subset he)
  exact ((refines s).run hStart hEvents hRun).getObjects_eq s hHash

def nullRecord : CrashRecordModel := ⟨1, "SIGABRT", "one\x00two", "App", "time", "stack"⟩

def nullEvents : List CrashTableEvent :=
  [.createTable true, .insert SqlTable.sampleHash [(nullRecord, true)] true]

/-- A reason with a null character loses what comes after it. -/
theorem crashTable_refines_null :
    ∃ t, (step SQLite.plain).run none nullEvents = some t ∧
      SqlTable.getObjects SQLite.plain SqlTable.sampleHash t codingKeys =
        some [{ nullRecord with reason := "one" }.fields] := by
  obtain ⟨t, hRun⟩ : ∃ t, (step SQLite.plain).run none nullEvents = some t := ⟨_, rfl⟩
  have hValid : ∀ e ∈ nullEvents, e.Valid := by
    refine List.forall_mem_cons.mpr ⟨trivial, List.forall_mem_singleton.mpr ?_⟩
    exact (by decide : NoCollision SqlTable.sampleHash codingKeys)
  have hObjects := (crashTable_refines SQLite.plain ⟨Database.caseless, fun _ => none⟩ rfl
    nullEvents hValid).last hRun SqlTable.sampleHash (by decide)
  refine ⟨t, hRun, hObjects.trans ?_⟩
  decide

end CrashTableEvent

end LeigodAPM
