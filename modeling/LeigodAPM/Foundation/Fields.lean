import Mathlib.Data.List.Infix
import Mathlib.Data.List.Basic

/-!
# Texts of labelled fields

A text is a first field, then for each further field a separator and the field. It is read
from the left: a field ends where the next separator stands first. The first character of a
separator does not occur in it again, so a separator never begins inside a field and ends
behind it.

* `splitFirst_eq_some`: what one split accepts.
* `split_eq_some`: a text is read as given fields exactly when it is written from them and no
  field contains the separator that follows it.
-/

namespace LeigodAPM.Foundation

open List

variable {α : Type*}

/-- A separator starts with a character that does not occur in the rest of it. -/
structure Separator (α : Type*) where
  head : α
  tail : List α
  head_notMem : head ∉ tail

namespace Separator

def toList (sep : Separator α) : List α := sep.head :: sep.tail

theorem toList_ne_nil (sep : Separator α) : sep.toList ≠ [] := cons_ne_nil _ _

/-- A separator that begins in a nonempty text before itself ends there. -/
theorem prefix_of_prefix_append {sep : Separator α} {l r : List α} (hl : l ≠ [])
    (h : sep.toList <+: l ++ (sep.toList ++ r)) : sep.toList <+: l := by
  obtain ⟨t, ht⟩ := h
  rcases append_eq_append_iff.mp ht with ⟨as, hAs, -⟩ | ⟨bs, hBs, hRest⟩
  · exact ⟨as, hAs.symm⟩
  · cases l with
    | nil => exact absurd rfl hl
    | cons a l =>
      cases bs with
      | nil => rw [hBs, append_nil]
      | cons b bs =>
        -- The separator begins again at `b`, which is a character of its tail.
        have hb : sep.head = b := (cons.inj hRest).1
        have hTail : sep.tail = l ++ b :: bs := (cons.inj hBs).2
        exact absurd (by rw [hTail, hb]; simp) sep.head_notMem

/-- A separator in a text does not begin where its first character does not stand. -/
theorem infix_append_iff_of_notMem {sep : Separator α} {l : List α} (r : List α)
    (hl : sep.head ∉ l) : sep.toList <:+: l ++ r ↔ sep.toList <:+: r := by
  induction l with
  | nil => rw [nil_append]
  | cons a l ih =>
    rw [mem_cons, not_or] at hl
    have hPrefix : ¬ sep.toList <+: a :: (l ++ r) := fun h => hl.1 (cons_prefix_cons.mp h).1
    rw [cons_append, infix_cons_iff, or_iff_right hPrefix, ih hl.2]

theorem not_infix_of_notMem {sep : Separator α} {l : List α} (hl : sep.head ∉ l) :
    ¬ sep.toList <:+: l := fun h => hl (h.subset mem_cons_self)

end Separator

/-! ## One separator -/

variable [DecidableEq α]

/-- What stands before the first separator and what stands behind it. -/
def splitFirst (sep : Separator α) : List α → Option (List α × List α)
  | [] => none
  | a :: as =>
    if sep.toList <+: a :: as then some ([], (a :: as).drop sep.toList.length)
    else (splitFirst sep as).map fun p => (a :: p.1, p.2)

theorem splitFirst_append {sep : Separator α} {l : List α} (r : List α)
    (hl : ¬ sep.toList <:+: l) : splitFirst sep (l ++ (sep.toList ++ r)) = some (l, r) := by
  induction l with
  | nil =>
    have hCons : sep.toList ++ r = sep.head :: (sep.tail ++ r) := rfl
    rw [nil_append, hCons, splitFirst, ← hCons, if_pos (prefix_append _ _), drop_left]
  | cons a l ih =>
    rw [infix_cons_iff, not_or] at hl
    have hPrefix : ¬ sep.toList <+: a :: (l ++ (sep.toList ++ r)) := fun h =>
      hl.1 (Separator.prefix_of_prefix_append (cons_ne_nil a l) h)
    rw [cons_append, splitFirst, if_neg hPrefix, ih hl.2]
    rfl

theorem splitFirst_eq_some {sep : Separator α} {text l r : List α} :
    splitFirst sep text = some (l, r) ↔
      text = l ++ (sep.toList ++ r) ∧ ¬ sep.toList <:+: l := by
  constructor
  · intro h
    induction text generalizing l with
    | nil => cases h
    | cons a text ih =>
      rw [splitFirst] at h
      split at h
      · rename_i hPrefix
        obtain ⟨rfl, rfl⟩ := Prod.mk.inj (Option.some.inj h)
        exact ⟨(prefix_iff_eq_append.mp hPrefix).symm,
          fun hInfix => sep.toList_ne_nil (infix_nil.mp hInfix)⟩
      · rename_i hPrefix
        obtain ⟨⟨l', r'⟩, hSplit, hEq⟩ := Option.map_eq_some_iff.mp h
        obtain ⟨rfl, rfl⟩ := Prod.mk.inj hEq
        obtain ⟨rfl, hInfix⟩ := ih hSplit
        refine ⟨rfl, ?_⟩
        rw [infix_cons_iff]
        rintro (hHere | hThere)
        · exact hPrefix (hHere.trans (prefix_append _ _))
        · exact hInfix hThere
  · rintro ⟨rfl, hl⟩
    exact splitFirst_append r hl

/-! ## Several separators -/

/-- The text of a first field and of the fields behind separators. -/
def joinFields (first : List α) : List (Separator α × List α) → List α
  | [] => first
  | (sep, next) :: rest => first ++ (sep.toList ++ joinFields next rest)

/-- The fields of a text with the given separators. -/
def splitFields : List (Separator α) → List α → Option (List (List α))
  | [], text => some [text]
  | sep :: seps, text =>
    (splitFirst sep text).bind fun p => (splitFields seps p.2).map (p.1 :: ·)

/-- No field contains the separator that follows it. -/
def Separated (first : List α) : List (Separator α × List α) → Prop
  | [] => True
  | (sep, next) :: rest => ¬ sep.toList <:+: first ∧ Separated next rest

theorem splitFields_eq_some (seps : List (Separator α)) (text first : List α)
    (rest : List (List α)) (hLength : rest.length = seps.length) :
    splitFields seps text = some (first :: rest) ↔
      text = joinFields first (seps.zip rest) ∧ Separated first (seps.zip rest) := by
  induction seps generalizing text first rest with
  | nil =>
    obtain rfl := length_eq_zero_iff.mp hLength
    simp [splitFields, joinFields, Separated]
  | cons sep seps ih =>
    cases rest with
    | nil => cases hLength
    | cons next rest =>
      have hTail : rest.length = seps.length := Nat.succ.inj hLength
      rw [zip_cons_cons, joinFields, Separated, splitFields, Option.bind_eq_some_iff]
      constructor
      · rintro ⟨⟨l, r⟩, hSplit, hFields⟩
        obtain ⟨fields, hFields, hEq⟩ := Option.map_eq_some_iff.mp hFields
        obtain ⟨rfl, rfl⟩ := cons.inj hEq
        obtain ⟨rfl, hFirst⟩ := splitFirst_eq_some.mp hSplit
        obtain ⟨rfl, hRest⟩ := (ih r next rest hTail).mp hFields
        exact ⟨rfl, hFirst, hRest⟩
      · rintro ⟨rfl, hFirst, hRest⟩
        exact ⟨_, splitFirst_append _ hFirst, Option.map_eq_some_iff.mpr
          ⟨_, (ih _ next rest hTail).mpr ⟨rfl, hRest⟩, rfl⟩⟩

end LeigodAPM.Foundation
