import LeigodAPM.Foundation.Double
import LeigodAPM.Foundation.IndexTable
import Mathlib.Data.List.Forall2

/-!
# Objects as rows

`TableEncoder` binds the fields of an object to the parameters of an `INSERT`, and
`TableDecoder` reads the fields of an object from the columns of a `SELECT`. Both find the place
of a field in a dictionary from the hash value of its key, in which a later key replaces an
earlier one. The hash values of a process are those of its random seed.

* `encodeObject_eq_map`, `decodeObject_eq_map`: the places without a collision.
* `coding_iff`: the objects of a type survive exactly if no two of its keys collide.

The properties of an object are `Int`, `Double` or `String`, or optionals of these. `SQLite` is
what the coding relies on of the database library.
-/

namespace LeigodAPM

open Foundation

inductive ColumnType
  | integer64
  | float
  | text
  deriving DecidableEq

/-- A case of `CodingKeys`, with the type of its property. -/
structure CodingTableKey where
  stringValue : String
  columnType : ColumnType
  isOptional : Bool
  deriving DecidableEq

/-- A value of a column or a parameter. -/
inductive FundamentalValue
  | null
  | int64 (value : Int)
  | double (value : Double)
  | text (value : String)
  deriving DecidableEq

namespace FundamentalValue

def int64? : FundamentalValue → Option Int
  | int64 value => some value
  | _ => none

def double? : FundamentalValue → Option Double
  | double value => some value
  | _ => none

def text? : FundamentalValue → Option String
  | text value => some value
  | _ => none

end FundamentalValue

/-- What becomes of a value in a column of a type, and how a value is read as a number or as a
text. Values in columns of their own type are kept, and `NULL` is read as `0` or no text. -/
structure SQLite where
  stored : ColumnType → FundamentalValue → FundamentalValue
  columnInt64 : FundamentalValue → Int
  columnDouble : FundamentalValue → Double
  columnText : FundamentalValue → Option String
  stored_null : ∀ type, stored type .null = .null
  stored_int64 : ∀ value, stored .integer64 (.int64 value) = .int64 value
  stored_double : ∀ value, stored .float (.double value) = .double value
  stored_text : ∀ value, stored .text (.text value) = .text value
  columnInt64_null : columnInt64 .null = 0
  columnInt64_int64 : ∀ value, columnInt64 (.int64 value) = value
  columnDouble_null : columnDouble .null = .fin 0
  columnDouble_double : ∀ value, columnDouble (.double value) = value
  columnText_null : columnText .null = none
  columnText_text : ∀ value, columnText (.text value) = some value

/-- Every column keeps every value, and a value of another type is read as `NULL`. -/
def SQLite.plain : SQLite where
  stored _ value := value
  columnInt64 value := value.int64?.getD 0
  columnDouble value := value.double?.getD (.fin 0)
  columnText value := value.text?
  stored_null _ := rfl
  stored_int64 _ := rfl
  stored_double _ := rfl
  stored_text _ := rfl
  columnInt64_null := rfl
  columnInt64_int64 _ := rfl
  columnDouble_null := rfl
  columnDouble_double _ := rfl
  columnText_null := rfl
  columnText_text _ := rfl

/-- A call of `encode(_:forKey:)` or `encodeIfPresent(_:forKey:)`, or the result of a call of
`decode(_:forKey:)` or `decodeIfPresent(_:forKey:)`. -/
inductive Field
  | int (key : String) (value : Int)
  | double (key : String) (value : Double)
  | string (key : String) (value : String)
  | intIfPresent (key : String) (value : Option Int)
  | doubleIfPresent (key : String) (value : Option Double)
  | stringIfPresent (key : String) (value : Option String)
  deriving DecidableEq

/-- A Swift string as a C string: it ends before the first null character. -/
def cString (value : String) : String := .ofList (value.toList.takeWhile (· ≠ '\x00'))

/-- `sqlite3_bind_double` binds `NULL` for `nan`. -/
def bindDouble : Double → FundamentalValue
  | .nan => .null
  | value => .double value

namespace Field

def key : Field → CodingTableKey
  | int key _ => ⟨key, .integer64, false⟩
  | double key _ => ⟨key, .float, false⟩
  | string key _ => ⟨key, .text, false⟩
  | intIfPresent key _ => ⟨key, .integer64, true⟩
  | doubleIfPresent key _ => ⟨key, .float, true⟩
  | stringIfPresent key _ => ⟨key, .text, true⟩

/-- The value that is bound; the length of a text is not passed. -/
def bound : Field → FundamentalValue
  | int _ value => .int64 value
  | double _ value => bindDouble value
  | string _ value => .text (cString value)
  | intIfPresent _ value => value.elim .null .int64
  | doubleIfPresent _ value => value.elim .null bindDouble
  | stringIfPresent _ value => value.elim .null fun value => .text (cString value)

/-- The property of a key for a value of its own type, or for `NULL`. -/
def ofValue (key : CodingTableKey) (value : FundamentalValue) : Field :=
  match key.columnType, key.isOptional with
  | .integer64, false => int key.stringValue (value.int64?.getD 0)
  | .float, false => double key.stringValue (value.double?.getD (.fin 0))
  | .text, false => string key.stringValue (value.text?.getD "")
  | .integer64, true => intIfPresent key.stringValue value.int64?
  | .float, true => doubleIfPresent key.stringValue value.double?
  | .text, true => stringIfPresent key.stringValue value.text?

/-- The field as it is read back: a text up to its first null character, and `nan` as `0` or as
`nil`. -/
def cut (field : Field) : Field := ofValue field.key field.bound

end Field

namespace TableCoding

/-- `TableEncoder.hashedKeys` from `1` on, `TableDecoder.hashedKeys` from `0` on. -/
def hashedKeys (hash : String → Int) (first : ℕ) (keys : List CodingTableKey) : Int → Option ℕ :=
  IndexTable.ofKeys (fun key => hash key.stringValue) first keys

/-- The value for a key with this hash; that of a primary key which SQLite numbers is `NULL`. -/
def boundAt (hash : String → Int) (primaryKeyHash : Option Int) (field : Field) :
    FundamentalValue :=
  if some (hash field.key.stringValue) = primaryKeyHash then .null else field.bound

/-- The parameters are numbered from `1` on. `primaryKeyHash` is that of an object with
`isAutoIncrement`. -/
def encode (hash : String → Int) (primaryKeyHash : Option Int) (hashed : Int → Option ℕ)
    (bindings : List FundamentalValue) (field : Field) : List FundamentalValue :=
  match hashed (hash field.key.stringValue) with
  | none => bindings
  | some index => bindings.set (index - 1) (boundAt hash primaryKeyHash field)

/-- `object.encode(to:)`, on the bindings that the statement has from the object before. -/
def encodeObject (hash : String → Int) (primaryKeyHash : Option Int)
    (properties : List CodingTableKey) (bindings : List FundamentalValue) (object : List Field) :
    List FundamentalValue :=
  object.foldl (encode hash primaryKeyHash (hashedKeys hash 1 properties)) bindings

/-- `decode(_:forKey:)` and `decodeIfPresent(_:forKey:)` on the value of the column. -/
def readColumn (s : SQLite) (key : CodingTableKey) (value : FundamentalValue) : Field :=
  if key.isOptional = true ∧ value = .null then .ofValue key .null
  else match key.columnType, key.isOptional with
    | .integer64, false => .int key.stringValue (s.columnInt64 value)
    | .float, false => .double key.stringValue (s.columnDouble value)
    | .text, false => .string key.stringValue ((s.columnText value).getD "")
    | .integer64, true => .intIfPresent key.stringValue (s.columnInt64 value)
    | .float, true => .doubleIfPresent key.stringValue (s.columnDouble value)
    | .text, true => .stringIfPresent key.stringValue ((s.columnText value).getD "")

/-- A key that is not in the dictionary stops the process, if its property is not an optional. -/
def decode (s : SQLite) (hash : String → Int) (hashed : Int → Option ℕ)
    (row : List FundamentalValue) (key : CodingTableKey) : Option Field :=
  match hashed (hash key.stringValue) with
  | none => if key.isOptional = true then some (.ofValue key .null) else none
  | some index => some (readColumn s key (row[index]?.getD .null))

/-- `Object.init(from:)` for an object with these keys. -/
def decodeObject (s : SQLite) (hash : String → Int) (properties keys : List CodingTableKey)
    (row : List FundamentalValue) : Option (List Field) :=
  keys.mapM (decode s hash (hashedKeys hash 0 properties) row)

/-- The keys have different hash values. -/
def NoCollision (hash : String → Int) (keys : List CodingTableKey) : Prop :=
  (keys.map fun key => hash key.stringValue).Nodup

instance (hash : String → Int) (keys : List CodingTableKey) : Decidable (NoCollision hash keys) :=
  inferInstanceAs (Decidable (keys.map fun key => hash key.stringValue).Nodup)

/-- The value that an object binds for a key. -/
def boundOf (hash : String → Int) (primaryKeyHash : Option Int) (object : List Field)
    (key : CodingTableKey) : FundamentalValue :=
  (object.find? (·.key = key)).elim .null (boundAt hash primaryKeyHash)

theorem mapM_of_forall₂ {α β γ : Type} {R : α → β → Prop} {f : α → Option γ} {g : β → γ}
    {l : List α} {l' : List β} (hRel : List.Forall₂ R l l')
    (hMap : ∀ a b, b ∈ l' → R a b → f a = some (g b)) : l.mapM f = some (l'.map g) := by
  induction hRel with
  | nil => rfl
  | cons hHead hTail ih =>
    rw [List.mapM_cons, hMap _ _ List.mem_cons_self hHead,
      ih fun a b hb => hMap a b (List.mem_cons_of_mem _ hb)]
    rfl

section Coding

variable {s : SQLite} {hash : String → Int} {primaryKeyHash : Option Int}
  {keys properties : List CodingTableKey}

/-- The value is of the type of a key, or `NULL`. -/
def Typed (type : ColumnType) (value : FundamentalValue) : Prop :=
  value = .null ∨ (match type with
    | .integer64 => ∃ n, value = .int64 n
    | .float => ∃ d, value = .double d
    | .text => ∃ text, value = .text text)

theorem typed_bound (field : Field) : Typed field.key.columnType field.bound := by
  have hDouble (value : Double) : bindDouble value = .null ∨ ∃ d, bindDouble value = .double d := by
    cases value with
    | nan => exact Or.inl rfl
    | _ => exact Or.inr ⟨_, rfl⟩
  cases field with
  | int key value => exact Or.inr ⟨value, rfl⟩
  | double key value => exact hDouble value
  | string key value => exact Or.inr ⟨_, rfl⟩
  | intIfPresent key value =>
    cases value with
    | none => exact Or.inl rfl
    | some value => exact Or.inr ⟨value, rfl⟩
  | doubleIfPresent key value =>
    cases value with
    | none => exact Or.inl rfl
    | some value => exact hDouble value
  | stringIfPresent key value =>
    cases value with
    | none => exact Or.inl rfl
    | some value => exact Or.inr ⟨_, rfl⟩

/-- A value of its own type needs no conversion. -/
theorem readColumn_eq_ofValue {key : CodingTableKey} {value : FundamentalValue}
    (hTyped : Typed key.columnType value) : readColumn s key value = Field.ofValue key value := by
  obtain ⟨name, type, isOptional⟩ := key
  obtain rfl | hValue := hTyped
  · cases isOptional with
    | true => exact if_pos ⟨rfl, rfl⟩
    | false =>
      cases type <;> simp [readColumn, Field.ofValue, FundamentalValue.int64?,
        FundamentalValue.double?, FundamentalValue.text?, s.columnInt64_null, s.columnDouble_null,
        s.columnText_null]
  · cases type with
    | integer64 =>
      obtain ⟨n, rfl⟩ := hValue
      cases isOptional <;>
        simp [readColumn, Field.ofValue, FundamentalValue.int64?, s.columnInt64_int64]
    | float =>
      obtain ⟨d, rfl⟩ := hValue
      cases isOptional <;>
        simp [readColumn, Field.ofValue, FundamentalValue.double?, s.columnDouble_double]
    | text =>
      obtain ⟨text, rfl⟩ := hValue
      cases isOptional <;>
        simp [readColumn, Field.ofValue, FundamentalValue.text?, s.columnText_text]

/-- The field as it is read back from a process that bound it with this primary key. -/
def readBack (hash : String → Int) (primaryKeyHash : Option Int) (field : Field) : Field :=
  .ofValue field.key (boundAt hash primaryKeyHash field)

@[simp] theorem readBack_none (field : Field) : readBack hash none field = field.cut := rfl

theorem readColumn_boundAt (field : Field) :
    readColumn s field.key (boundAt hash primaryKeyHash field) =
      readBack hash primaryKeyHash field := by
  refine readColumn_eq_ofValue ?_
  rw [boundAt]
  split
  · exact Or.inl rfl
  · exact typed_bound field

theorem encodeObject_eq_writes (bindings : List FundamentalValue) (object : List Field) :
    encodeObject hash primaryKeyHash properties bindings object =
      (object.map fun field => (field.key, boundAt hash primaryKeyHash field)).foldl
        (IndexTable.write (fun key => hash key.stringValue) 1 (hashedKeys hash 1 properties))
        bindings := by
  rw [List.foldl_map]
  rfl

theorem boundOf_of_mem {object : List Field} (hNodup : (object.map Field.key).Nodup)
    {field : Field} (hField : field ∈ object) :
    boundOf hash primaryKeyHash object field.key = boundAt hash primaryKeyHash field := by
  induction object with
  | nil => cases hField
  | cons f object ih =>
    rw [List.map_cons, List.nodup_cons] at hNodup
    rcases List.mem_cons.mp hField with rfl | hRest
    · simp [boundOf]
    · have hNe : f.key ≠ field.key := fun hEq =>
        hNodup.1 (hEq ▸ List.mem_map_of_mem hRest)
      rw [boundOf, List.find?_cons_of_neg (by simpa using hNe)]
      exact ih hNodup.2 hRest

theorem boundOf_of_not_mem {object : List Field} {key : CodingTableKey}
    (hNot : key ∉ object.map Field.key) : boundOf hash primaryKeyHash object key = .null := by
  have hFind : object.find? (·.key = key) = none := by
    refine List.find?_eq_none.mpr fun field hField hEq => hNot ?_
    rw [← of_decide_eq_true hEq]
    exact List.mem_map_of_mem hField
  rw [boundOf, hFind]
  rfl

/-- **Encoding.** When no two keys of a type collide, each parameter has the value of its own key,
and that of a key which the object leaves out has the value that was bound before. -/
theorem encodeObject_eq_map {object : List Field} (hHash : NoCollision hash keys)
    (hObject : object.map Field.key ⊆ keys) (hProperties : properties ⊆ keys)
    (hNodup : properties.Nodup) {value : CodingTableKey → FundamentalValue}
    (hValue : ∀ field ∈ object, boundAt hash primaryKeyHash field = value field.key)
    {bindings : List FundamentalValue} (hLength : bindings.length = properties.length)
    (hBound : ∀ (j : ℕ) (key : CodingTableKey), properties[j]? = some key →
      key ∉ object.map Field.key → bindings[j]? = some (value key)) :
    encodeObject hash primaryKeyHash properties bindings object = properties.map value := by
  have hInj : ∀ k ∈ keys, ∀ k' ∈ keys, hash k.stringValue = hash k'.stringValue → k = k' :=
    fun k hk k' hk' hEq => List.inj_on_of_nodup_map hHash hk hk' hEq
  have hNodup' : (properties.map fun key => hash key.stringValue).Nodup :=
    hNodup.map_on fun k hk k' hk' => hInj k (hProperties hk) k' (hProperties hk')
  rw [encodeObject_eq_writes]
  refine IndexTable.writes_eq_map hNodup' ?_ hLength ?_
  · intro e he key hKey hEq
    obtain ⟨field, hField, rfl⟩ := List.mem_map.mp he
    have hSame := hInj field.key (hObject (List.mem_map_of_mem hField)) key (hProperties hKey) hEq
    rw [← hSame]
    exact hValue field hField
  · intro j key hKey
    by_cases hEncoded : key ∈ object.map Field.key
    · obtain ⟨field, hField, rfl⟩ := List.mem_map.mp hEncoded
      exact Or.inr ⟨(field.key, boundAt hash primaryKeyHash field), List.mem_map_of_mem hField, rfl⟩
    · exact Or.inl (hBound j key hKey hEncoded)

/-- **Decoding.** When no two properties collide, each key is read from its own column. -/
theorem decodeObject_eq_map (hHash : NoCollision hash properties) (hKeys : keys ⊆ properties)
    (value : CodingTableKey → FundamentalValue) :
    decodeObject s hash properties keys (properties.map value) =
      some (keys.map fun key => readColumn s key (value key)) := by
  have hDecode : ∀ key ∈ keys, decode s hash (hashedKeys hash 0 properties)
      (properties.map value) key = some (readColumn s key (value key)) := by
    intro key hKey
    obtain ⟨j, hj⟩ := List.getElem?_of_mem (hKeys hKey)
    have hIndex : hashedKeys hash 0 properties (hash key.stringValue) = some (0 + j) := by
      refine (IndexTable.ofKeys_eq_some_iff hHash).mpr ⟨j, rfl, ?_⟩
      rw [List.getElem?_map, hj]
      rfl
    simp only [decode, hIndex, Nat.zero_add, List.getElem?_map, hj, Option.map_some,
      Option.getD_some]
  exact mapM_of_forall₂ (R := Eq) (List.forall₂_same.mpr fun _ _ => rfl)
    fun _ key hKey hEq => hEq ▸ hDecode key hKey

/-- The objects with these keys, in any order, are read back, whatever was bound before. -/
def RoundTrips (s : SQLite) (hash : String → Int) (keys : List CodingTableKey) : Prop :=
  ∀ (primaryKeyHash : Option Int) (object : List Field) (bindings : List FundamentalValue),
    (object.map Field.key).Perm keys → bindings.length = keys.length →
      decodeObject s hash keys (object.map Field.key)
          (encodeObject hash primaryKeyHash keys bindings object) =
        some (object.map (readBack hash primaryKeyHash))

theorem roundTrips_of_noCollision (hHash : NoCollision hash keys) : RoundTrips s hash keys := by
  intro primaryKeyHash object bindings hKeys hLength
  have hNodupKeys : keys.Nodup := hHash.of_map
  have hNodup : (object.map Field.key).Nodup := hKeys.nodup_iff.mpr hNodupKeys
  have hEncoded : encodeObject hash primaryKeyHash keys bindings object =
      keys.map (boundOf hash primaryKeyHash object) := by
    refine encodeObject_eq_map hHash hKeys.subset (List.Subset.refl _) hNodupKeys ?_ hLength ?_
    · exact fun field hField => (boundOf_of_mem hNodup hField).symm
    · exact fun j key hKey hNot => absurd (hKeys.symm.subset (List.mem_of_getElem? hKey)) hNot
  rw [hEncoded, decodeObject_eq_map hHash hKeys.subset, List.map_map]
  refine congrArg some (List.map_congr_left fun field hField => ?_)
  simp only [Function.comp_apply, boundOf_of_mem hNodup hField, readColumn_boundAt]

/-- A key that collides has a later key with its hash. -/
theorem exists_collision (h : ¬ NoCollision hash keys) :
    ∃ before key after, keys = before ++ key :: after ∧
      ∃ key' ∈ after, hash key'.stringValue = hash key.stringValue := by
  induction keys with
  | nil => exact absurd List.nodup_nil h
  | cons key keys ih =>
    by_cases hLater : ∃ key' ∈ keys, hash key'.stringValue = hash key.stringValue
    · exact ⟨[], key, keys, rfl, hLater⟩
    · have hRest : ¬ NoCollision hash keys := by
        intro hKeys
        refine h (List.nodup_cons.mpr ⟨fun hMem => hLater ?_, hKeys⟩)
        exact List.mem_map.mp hMem
      obtain ⟨before, key', after, rfl, hCollision⟩ := ih hRest
      exact ⟨key :: before, key', after, rfl, hCollision⟩

/-- One of two fields with a key. -/
def sampleField (key : CodingTableKey) (second : Bool) : Field :=
  .ofValue key (match key.columnType with
    | .integer64 => .int64 (if second = true then 1 else 0)
    | .float => .double (.fin (if second = true then 1 else 0))
    | .text => .text (if second = true then "1" else "0"))

@[simp] theorem key_ofValue (key : CodingTableKey) (value : FundamentalValue) :
    (Field.ofValue key value).key = key := by
  obtain ⟨name, type, isOptional⟩ := key
  cases type <;> cases isOptional <;> rfl

@[simp] theorem key_sampleField (key : CodingTableKey) (second : Bool) :
    (sampleField key second).key = key := key_ofValue _ _

theorem cut_sampleField_ne (key : CodingTableKey) :
    (sampleField key true).cut ≠ (sampleField key false).cut := by
  obtain ⟨name, type, isOptional⟩ := key
  cases type with
  | integer64 =>
    cases isOptional <;> simp [sampleField, Field.cut, Field.ofValue, Field.key, Field.bound,
      FundamentalValue.int64?]
  | float =>
    cases isOptional <;> simp [sampleField, Field.cut, Field.ofValue, Field.key, Field.bound,
      FundamentalValue.double?, bindDouble]
  | text =>
    cases isOptional <;> simp [sampleField, Field.cut, Field.ofValue, Field.key, Field.bound,
      FundamentalValue.text?, cString]

/-- **Round trip.** The objects of a type are read back, each text up to its first null character,
`nan` as `0` or `nil` and a primary key that SQLite numbers as that of `NULL`, exactly if no two
keys of the type have the same hash value. -/
theorem coding_iff (s : SQLite) (hash : String → Int) (keys : List CodingTableKey) :
    RoundTrips s hash keys ↔ NoCollision hash keys := by
  refine ⟨fun hTrips => ?_, roundTrips_of_noCollision⟩
  by_contra hCollides
  obtain ⟨before, key, after, rfl, key', hKey', hEq⟩ := exists_collision hCollides
  -- Two objects that differ in the key with the collision only.
  let object (second : Bool) : List Field := before.map (sampleField · false) ++
    sampleField key second :: after.map (sampleField · false)
  have hKeys (second : Bool) : (object second).map Field.key = before ++ key :: after := by
    simp [object, Function.comp_def]
  let bindings : List FundamentalValue := List.replicate (before ++ key :: after).length .null
  have hEncoded (second : Bool) :
      encodeObject hash none (before ++ key :: after) bindings (object second) =
        encodeObject hash none (before ++ key :: after) bindings (object false) := by
    have hLater : ∃ e ∈ after.map fun k => (k, boundAt hash none (sampleField k false)),
        hash e.1.stringValue = hash key.stringValue :=
      ⟨_, List.mem_map_of_mem hKey', hEq⟩
    simp only [encodeObject_eq_writes, object, List.map_append, List.map_cons, List.map_map,
      List.foldl_append, List.foldl_cons, Function.comp_def, key_sampleField]
    exact IndexTable.writes_overwritten hLater _ _ _
  have hSame : some ((object true).map (readBack hash none)) =
      some ((object false).map (readBack hash none)) := by
    rw [← hTrips none (object true) bindings (.of_eq (hKeys true)) List.length_replicate,
      ← hTrips none (object false) bindings (.of_eq (hKeys false)) List.length_replicate,
      hEncoded, hKeys, hKeys]
  have hCut := Option.some.inj hSame
  simp only [object, List.map_append, List.map_cons, List.append_cancel_left_eq, List.cons.injEq,
    and_true, readBack_none] at hCut
  exact cut_sampleField_ne key hCut

end Coding

end TableCoding

end LeigodAPM
