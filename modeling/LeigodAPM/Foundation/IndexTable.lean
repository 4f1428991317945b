import Mathlib.Data.List.Induction
import Mathlib.Data.List.Nodup
import Mathlib.Logic.Function.Basic

/-!
# Tables of indices under hashes

A list of keys is numbered from `first` on and the numbers are put into a table under the hashes
of the keys, a later key over an earlier one. Values are written through the table into cells,
one for each key.

* `ofKeys_eq_some_iff`: without a collision the table finds each key.
* `writes_eq_map`: then a cell has the value written for its key, or the one that it had.
* `writes_overwritten`: with a collision the earlier of two values is lost.
-/

namespace LeigodAPM.Foundation.IndexTable

variable {K H V : Type*}

/-- A value is written into the cell of its key; one whose hash is not in the table is lost. -/
def write (hash : K → H) (first : ℕ) (table : H → Option ℕ) (cells : List V) (entry : K × V) :
    List V :=
  match table (hash entry.1) with
  | none => cells
  | some i => cells.set (i - first) entry.2

@[simp] theorem length_write (hash : K → H) (first : ℕ) (table : H → Option ℕ) (cells : List V)
    (entry : K × V) : (write hash first table cells entry).length = cells.length := by
  rw [write]
  split
  · rfl
  · exact List.length_set

theorem length_writes (hash : K → H) (first : ℕ) (table : H → Option ℕ) (cells : List V)
    (entries : List (K × V)) :
    (entries.foldl (write hash first table) cells).length = cells.length := by
  induction entries generalizing cells with
  | nil => rfl
  | cons e entries ih => rw [List.foldl_cons, ih, length_write]

/-- A later write to the same hash makes up for the value that was written. -/
theorem writes_overwritten {hash : K → H} {first : ℕ} {table : H → Option ℕ} {key : K}
    {entries : List (K × V)} (hLater : ∃ e ∈ entries, hash e.1 = hash key) (cells : List V)
    (v w : V) : entries.foldl (write hash first table) (write hash first table cells (key, v)) =
      entries.foldl (write hash first table) (write hash first table cells (key, w)) := by
  cases hKey : table (hash key) with
  | none => simp only [write, hKey]
  | some i =>
    induction entries generalizing cells with
    | nil =>
      obtain ⟨e, he, -⟩ := hLater
      cases he
    | cons e entries ih =>
      simp only [List.foldl_cons]
      have hSame (hCell : ∃ j, table (hash e.1) = some j ∧ j - first = i - first) :
          write hash first table (write hash first table cells (key, v)) e =
            write hash first table (write hash first table cells (key, w)) e := by
        obtain ⟨j, hTable, hCell⟩ := hCell
        simp only [write, hKey, hTable, hCell, List.set_set]
      by_cases hCell : ∃ j, table (hash e.1) = some j ∧ j - first = i - first
      · rw [hSame hCell]
      · have hRest : ∃ e' ∈ entries, hash e'.1 = hash key := by
          obtain ⟨e', he', hEq⟩ := hLater
          rcases List.mem_cons.mp he' with rfl | hMem
          · exact absurd ⟨i, hEq ▸ hKey, rfl⟩ hCell
          · exact ⟨e', hMem, hEq⟩
        -- The write between them goes to another cell.
        have hComm (x : V) : write hash first table (write hash first table cells (key, x)) e =
            write hash first table (write hash first table cells e) (key, x) := by
          cases hTable : table (hash e.1) with
          | none => simp only [write, hTable]
          | some j =>
            simp only [write, hKey, hTable]
            exact List.set_comm _ _ fun hEq => hCell ⟨j, hTable, hEq.symm⟩
        rw [hComm, hComm]
        exact ih hRest _

section Writes

variable [DecidableEq H]

/-- A later key replaces an earlier one with its hash. -/
def ofKeys (hash : K → H) (first : ℕ) (keys : List K) : H → Option ℕ :=
  (keys.zipIdx first).foldl
    (fun table entry => Function.update table (hash entry.1) (some entry.2)) fun _ => none

theorem ofKeys_concat (hash : K → H) (first : ℕ) (keys : List K) (key : K) :
    ofKeys hash first (keys ++ [key]) =
      Function.update (ofKeys hash first keys) (hash key) (some (first + keys.length)) := by
  simp [ofKeys, List.zipIdx_append]

variable {hash : K → H} {first : ℕ} {keys : List K}

theorem ofKeys_eq_some_iff (hNodup : (keys.map hash).Nodup) {x : H} {i : ℕ} :
    ofKeys hash first keys x = some i ↔ ∃ j, i = first + j ∧ (keys.map hash)[j]? = some x := by
  induction keys using List.reverseRecOn generalizing i with
  | nil => simp [ofKeys]
  | append_singleton keys key ih =>
    rw [List.map_append, List.nodup_append] at hNodup
    obtain ⟨hKeys, -, hNew⟩ := hNodup
    rw [ofKeys_concat]
    by_cases hx : x = hash key
    · subst hx
      -- No earlier key has this hash.
      have hEarlier (j : ℕ) : (keys.map hash)[j]? ≠ some (hash key) := fun hj =>
        hNew _ (List.mem_of_getElem? hj) _ (by simp) rfl
      rw [Function.update_self, Option.some.injEq]
      constructor
      · rintro rfl
        exact ⟨keys.length, rfl, by simp⟩
      · rintro ⟨j, rfl, hj⟩
        rw [List.map_append, List.getElem?_append] at hj
        split at hj
        · exact absurd hj (hEarlier j)
        · have hLast : j - keys.length = 0 := by
            have hSome := List.getElem?_eq_some_iff.mp hj
            obtain ⟨hLt, -⟩ := hSome
            simpa using hLt
          simp only [List.length_map] at *
          omega
    · rw [Function.update_of_ne hx, ih hKeys]
      refine exists_congr fun j => and_congr_right fun _ => ?_
      rw [List.map_append, List.getElem?_append]
      split
      · rfl
      · rename_i hLong
        have hNone : (keys.map hash)[j]? = none := List.getElem?_eq_none (by omega)
        rw [hNone]
        refine iff_of_false (by simp) fun hj => ?_
        have hMem := List.mem_of_getElem? hj
        simp only [List.map_cons, List.map_nil, List.mem_singleton] at hMem
        exact hx hMem

/-- A write reaches the cells of the keys with its hash, and no others. -/
theorem getElem?_write (hNodup : (keys.map hash).Nodup) {cells : List V}
    (hLength : cells.length = keys.length) (entry : K × V) {j : ℕ} {key : K}
    (hKey : keys[j]? = some key) :
    (write hash first (ofKeys hash first keys) cells entry)[j]? =
      if hash entry.1 = hash key then some entry.2 else cells[j]? := by
  obtain ⟨hj, -⟩ := List.getElem?_eq_some_iff.mp hKey
  have hHash : (keys.map hash)[j]? = some (hash key) := by rw [List.getElem?_map, hKey]; rfl
  split
  · rename_i hEq
    have hTable : ofKeys hash first keys (hash key) = some (first + j) :=
      (ofKeys_eq_some_iff hNodup).mpr ⟨j, rfl, hHash⟩
    simp only [write, hEq, hTable, Nat.add_sub_cancel_left]
    exact List.getElem?_set_self (by omega)
  · rename_i hNe
    rw [write]
    split
    · rfl
    · rename_i i hTable
      obtain ⟨j', rfl, hHash'⟩ := (ofKeys_eq_some_iff hNodup).mp hTable
      have hOther : j' ≠ j := by
        rintro rfl
        exact hNe (Option.some.inj (hHash'.symm.trans hHash))
      rw [Nat.add_sub_cancel_left, List.getElem?_set_ne hOther]

/-- When each write has the value of the key that it reaches, a cell keeps the value of its key,
and gets it from the first write that reaches it. -/
theorem getElem?_writes (hNodup : (keys.map hash).Nodup) {f : K → V} {entries : List (K × V)}
    (hValue : ∀ e ∈ entries, ∀ key ∈ keys, hash e.1 = hash key → e.2 = f key) {cells : List V}
    (hLength : cells.length = keys.length) {j : ℕ} {key : K} (hKey : keys[j]? = some key)
    (hReached : cells[j]? = some (f key) ∨ ∃ e ∈ entries, hash e.1 = hash key) :
    (entries.foldl (write hash first (ofKeys hash first keys)) cells)[j]? = some (f key) := by
  induction entries generalizing cells with
  | nil =>
    obtain hDone | ⟨e, he, -⟩ := hReached
    · exact hDone
    · cases he
  | cons e entries ih =>
    have hRest : ∀ e' ∈ entries, ∀ key ∈ keys, hash e'.1 = hash key → e'.2 = f key :=
      fun e' he' => hValue e' (List.mem_cons_of_mem e he')
    refine ih hRest (by simpa using hLength) ?_
    rw [getElem?_write hNodup hLength e hKey]
    split
    · rename_i hEq
      exact Or.inl (congrArg some
        (hValue e List.mem_cons_self key (List.mem_of_getElem? hKey) hEq))
    · rename_i hNe
      refine hReached.imp_right ?_
      rintro ⟨e', he', hEq⟩
      rcases List.mem_cons.mp he' with rfl | hMem
      · exact absurd hEq hNe
      · exact ⟨e', hMem, hEq⟩

/-- Writes that reach each key whose cell has another value leave the values of the keys in the
cells. -/
theorem writes_eq_map (hNodup : (keys.map hash).Nodup) {f : K → V} {entries : List (K × V)}
    (hValue : ∀ e ∈ entries, ∀ key ∈ keys, hash e.1 = hash key → e.2 = f key) {cells : List V}
    (hLength : cells.length = keys.length)
    (hReached : ∀ (j : ℕ) (key : K), keys[j]? = some key →
      cells[j]? = some (f key) ∨ ∃ e ∈ entries, hash e.1 = hash key) :
    entries.foldl (write hash first (ofKeys hash first keys)) cells = keys.map f := by
  refine List.ext_getElem? fun j => ?_
  rw [List.getElem?_map]
  cases hKey : keys[j]? with
  | none =>
    rw [Option.map_none, List.getElem?_eq_none_iff, length_writes, hLength]
    exact List.getElem?_eq_none_iff.mp hKey
  | some key =>
    exact getElem?_writes hNodup hValue hLength hKey (hReached j key hKey)

end Writes

end LeigodAPM.Foundation.IndexTable
