import LeigodAPM.CrashEye.Crash
import LeigodAPM.Foundation.Fields
import Mathlib.Data.List.Basic

/-!
# The text of a crash record

`CrashRecordViewModel.attributeString` puts a header line and five labelled contents one
after the other; the console displays that text, and a long press copies it. The reader
`readRecord` cuts a text at the labels of the source, each at the first place where it stands.

* `readRecord_eq_some_iff`: it reads exactly the texts of readable records, and reads them as
  these records.
* `readable_exceptionModel_iff`, `readable_signalModel`: the records of a crash are readable
  unless the name or the reason of an exception imitates the label behind it.
-/

namespace LeigodAPM

open Foundation List

/-! ## The text -/

namespace BaseRecordViewModel

/-- The string of `contentString(with:content:newline:color:)`. -/
def contentString (prefex content : Option String) (newline : Bool) : String :=
  let pre := match prefex with
    | some prefex => "[" ++ prefex ++ "]:"
    | none => ""
  let line := if newline = true then "\n" else if pre = "" then "" else " "
  pre ++ line ++ content.getD "nil" ++ "\n"

/-- The string of `headerString(with:content:color:)`. -/
def headerString (prefex : String) (content : Option String) : String :=
  "> " ++ prefex ++ ": " ++ content.getD "" ++ "\n"

end BaseRecordViewModel

namespace CrashRecordModel

open BaseRecordViewModel (contentString)

def headerString (model : CrashRecordModel) : String :=
  let type := if model.type = CrashModelType.exception.rawValue then "Exception" else "SIGNAL"
  BaseRecordViewModel.headerString "CRASH" (some type)

def nameString (model : CrashRecordModel) : String :=
  contentString (some "NAME") (some model.name) false

def reasonString (model : CrashRecordModel) : String :=
  contentString (some "REASON") (some model.reason) false

def appinfoString (model : CrashRecordModel) : String :=
  contentString (some "APPINFO") (some model.appinfo) false

def timeString (model : CrashRecordModel) : String :=
  contentString (some "Time") (some model.time) false

def callStackString (model : CrashRecordModel) : String :=
  contentString (some "CALL STACK") (some model.callStack) false

/-- The string of `attributeString`. -/
def attributeString (model : CrashRecordModel) : String :=
  model.headerString ++ model.nameString ++ model.timeString ++ model.reasonString ++
    model.appinfoString ++ model.callStackString

/-! ## The reader -/

def nameLabel : Separator Char := ⟨'\n', "[NAME]: ".toList, by decide⟩

def timeLabel : Separator Char := ⟨'\n', "[Time]: ".toList, by decide⟩

def reasonLabel : Separator Char := ⟨'\n', "[REASON]: ".toList, by decide⟩

def appinfoLabel : Separator Char := ⟨'\n', "[APPINFO]: ".toList, by decide⟩

def callStackLabel : Separator Char := ⟨'\n', "[CALL STACK]: ".toList, by decide⟩

def labels : List (Separator Char) :=
  [nameLabel, timeLabel, reasonLabel, appinfoLabel, callStackLabel]

/-- The type of a header; all values but that of an exception are displayed as a signal. -/
def typeText (type : Int) : List Char :=
  if type = CrashModelType.exception.rawValue then "Exception".toList else "SIGNAL".toList

def readType (text : List Char) : Option Int :=
  if text = "Exception".toList then some CrashModelType.exception.rawValue
  else if text = "SIGNAL".toList then some CrashModelType.signal.rawValue
  else none

/-- The fields of a text, without its first characters and the last line break. -/
def readFields (text : String) : Option (List (List Char)) :=
  (text.toList.dropPrefix? "> CRASH: ".toList).bind fun rest =>
    (rest.dropSuffix? ['\n']).bind (splitFields labels)

def readRecord (text : String) : Option CrashRecordModel :=
  (readFields text).bind fun
    | [type, name, time, reason, appinfo, callStack] =>
      (readType type).map fun type =>
        { type, name := .ofList name, reason := .ofList reason, appinfo := .ofList appinfo,
          time := .ofList time, callStack := .ofList callStack }
    | _ => none

/-- The text of a field does not hold the label that follows the field. -/
def Clear (label : Separator Char) (text : String) : Prop := ¬ label.toList <:+: text.toList

/-- The type is one that a crash has, and no field imitates the label behind it. -/
structure Readable (model : CrashRecordModel) : Prop where
  type : ∃ type : CrashModelType, model.type = type.rawValue
  name : Clear timeLabel model.name
  time : Clear reasonLabel model.time
  reason : Clear appinfoLabel model.reason
  appinfo : Clear callStackLabel model.appinfo

/-! ## The round trip -/

theorem toList_headerString (model : CrashRecordModel) :
    model.headerString.toList = "> CRASH: ".toList ++ (typeText model.type ++ ['\n']) := by
  have hHeader : "> ".toList ++ ("CRASH".toList ++ ": ".toList) = "> CRASH: ".toList := by decide
  rw [headerString, BaseRecordViewModel.headerString, typeText, ← hHeader]
  split <;> simp

/-- A labelled content begins with its label. -/
theorem toList_contentString (label text : String) :
    (contentString (some label) (some text) false).toList =
      "[".toList ++ label.toList ++ "]: ".toList ++ (text.toList ++ ['\n']) := by
  have hNe : "[" ++ label ++ "]:" ≠ "" := by
    intro hEq
    have hLength := congrArg (fun s => s.toList.length) hEq
    simp at hLength
  simp [contentString, hNe]

theorem toList_attributeString (model : CrashRecordModel) :
    model.attributeString.toList = "> CRASH: ".toList ++ (joinFields (typeText model.type)
      (labels.zip [model.name.toList, model.time.toList, model.reason.toList,
        model.appinfo.toList, model.callStack.toList]) ++ ['\n']) := by
  simp only [attributeString, String.toList_append, toList_headerString, nameString, timeString,
    reasonString, appinfoString, callStackString, toList_contentString, labels, zip_cons_cons,
    zip_nil_right, joinFields, Separator.toList, nameLabel, timeLabel, reasonLabel, appinfoLabel,
    callStackLabel]
  simp

theorem readFields_eq_some {text : String} {type name time reason appinfo callStack : List Char} :
    readFields text = some [type, name, time, reason, appinfo, callStack] ↔
      text.toList = "> CRASH: ".toList ++ (joinFields type
        (labels.zip [name, time, reason, appinfo, callStack]) ++ ['\n']) ∧
      Separated type (labels.zip [name, time, reason, appinfo, callStack]) := by
  have hSplit (inner : List Char) :=
    splitFields_eq_some labels inner type [name, time, reason, appinfo, callStack] rfl
  rw [readFields, Option.bind_eq_some_iff]
  constructor
  · rintro ⟨body, hBody, hRest⟩
    obtain ⟨inner, hInner, hFields⟩ := Option.bind_eq_some_iff.mp hRest
    obtain ⟨header, hHeader, hEq⟩ := dropPrefix?_eq_some_iff.mp hBody
    obtain ⟨line, hLine, hEq'⟩ := dropSuffix?_eq_some_iff.mp hInner
    obtain ⟨hJoin, hSeparated⟩ := (hSplit inner).mp hFields
    rw [hHeader, hLine, eq_of_beq hEq, eq_of_beq hEq', hJoin]
    exact ⟨rfl, hSeparated⟩
  · rintro ⟨hText, hSeparated⟩
    exact ⟨_, dropPrefix?_eq_some_iff.mpr ⟨_, hText, beq_self_eq_true _⟩,
      Option.bind_eq_some_iff.mpr ⟨_, dropSuffix?_eq_some_iff.mpr ⟨_, rfl, beq_self_eq_true _⟩,
        (hSplit _).mpr ⟨rfl, hSeparated⟩⟩⟩

/-- A displayed type is read as the type exactly when it is one that a crash has. -/
theorem readType_eq_some {text : List Char} {type : Int} : readType text = some type ↔
    text = typeText type ∧ ∃ crashType : CrashModelType, type = crashType.rawValue := by
  have hNe : "SIGNAL".toList ≠ "Exception".toList := by decide
  constructor
  · intro h
    rw [readType] at h
    split at h
    · rename_i hText
      obtain rfl := Option.some.inj h
      exact ⟨hText, .exception, rfl⟩
    · split at h
      · rename_i hText
        obtain rfl := Option.some.inj h
        exact ⟨hText, .signal, rfl⟩
      · cases h
  · rintro ⟨rfl, crashType, rfl⟩
    cases crashType with
    | signal => rw [show typeText CrashModelType.signal.rawValue = "SIGNAL".toList from rfl,
        readType, if_neg hNe, if_pos rfl]
    | exception => rw [show typeText CrashModelType.exception.rawValue = "Exception".toList from
        rfl, readType, if_pos rfl]

/-- The fields of a displayed record are separated when it is readable, and conversely up to
its type. -/
theorem separated_iff (model : CrashRecordModel) :
    Separated (typeText model.type) (labels.zip [model.name.toList, model.time.toList,
      model.reason.toList, model.appinfo.toList, model.callStack.toList]) ↔
      Clear timeLabel model.name ∧ Clear reasonLabel model.time ∧
        Clear appinfoLabel model.reason ∧ Clear callStackLabel model.appinfo := by
  have hType : ¬ nameLabel.toList <:+: typeText model.type := by
    rw [typeText]
    split <;> decide
  simp only [labels, zip_cons_cons, zip_nil_right, Separated, hType, Clear]
  simp

theorem readRecord_attributeString {model : CrashRecordModel} (hReadable : model.Readable) :
    readRecord model.attributeString = some model := by
  have hFields := readFields_eq_some.mpr ⟨toList_attributeString model, (separated_iff model).mpr
    ⟨hReadable.name, hReadable.time, hReadable.reason, hReadable.appinfo⟩⟩
  have hType := readType_eq_some.mpr ⟨rfl, hReadable.type⟩
  simp [readRecord, hFields, hType]

/-- **The text determines the record.** The reader reads exactly the texts of readable records,
each as its record. -/
theorem readRecord_eq_some_iff (text : String) (model : CrashRecordModel) :
    readRecord text = some model ↔ text = model.attributeString ∧ model.Readable := by
  constructor
  · intro h
    obtain ⟨fields, hFields, hRecord⟩ := Option.bind_eq_some_iff.mp h
    split at hRecord
    · rename_i type name time reason appinfo callStack
      obtain ⟨crashType, hType, rfl⟩ := Option.map_eq_some_iff.mp hRecord
      obtain ⟨rfl, hCrash⟩ := readType_eq_some.mp hType
      obtain ⟨hText, hSeparated⟩ := readFields_eq_some.mp hFields
      have hClear := separated_iff ⟨crashType, .ofList name, .ofList reason, .ofList appinfo,
        .ofList time, .ofList callStack⟩
      rw [← String.toList_inj, toList_attributeString]
      simp only [String.toList_ofList] at hClear ⊢
      obtain ⟨hName, hTime, hReason, hAppinfo⟩ := hClear.mp hSeparated
      exact ⟨hText, hCrash, hName, hTime, hReason, hAppinfo⟩
    · cases hRecord
  · rintro ⟨rfl, hReadable⟩
    exact readRecord_attributeString hReadable

end CrashRecordModel

/-! ## The records of crashes -/

/-- The date, the entries of the bundle and the device strings have one line each. -/
structure CrashContext.SingleLine (ctx : CrashContext) : Prop where
  formattedDate : '\n' ∉ ctx.formattedDate.toList
  displayName : '\n' ∉ (ctx.displayName.getD "").toList
  shortVersion : '\n' ∉ (ctx.shortVersion.getD "").toList
  version : '\n' ∉ (ctx.version.getD "").toList
  deviceType : '\n' ∉ ctx.deviceType.toList
  deviceSystemName : '\n' ∉ ctx.deviceSystemName.toList
  deviceSystemVersion : '\n' ∉ ctx.deviceSystemVersion.toList

/-- The name and the reason of an exception do not imitate the label behind them. -/
def NSException.Clear (exception : NSException) : Prop :=
  CrashRecordModel.Clear CrashRecordModel.timeLabel exception.name ∧
    CrashRecordModel.Clear CrashRecordModel.appinfoLabel (exception.reason.getD "")

namespace CrashRecordModel

theorem newline_notMem_toString (n : Int32) : '\n' ∉ (toString n).toList := by
  have hNat (k : ℕ) : '\n' ∉ k.repr.toList := by
    intro hMem
    rw [Nat.toList_repr] at hMem
    exact absurd (Nat.isDigit_of_mem_toDigits (by decide) (by decide) hMem) (by decide)
  change '\n' ∉ n.toInt.repr.toList
  rw [Int.repr_eq_if]
  split
  · exact hNat _
  · simpa using hNat _

theorem newline_notMem_nameOfSignal (n : Int32) : '\n' ∉ (nameOfSignal n).toList := by
  unfold nameOfSignal
  split_ifs <;> decide

theorem clear_of_notMem {label : Separator Char} {text : String}
    (hText : label.head ∉ text.toList) : Clear label text := Separator.not_infix_of_notMem hText

/-- A line break is no label when the text behind it does not go on like one. -/
theorem clear_line {label : Separator Char} {line rest : String} (hHead : label.head = '\n')
    (hLine : '\n' ∉ line.toList) (hTail : ¬ label.tail <+: rest.toList)
    (hRest : Clear label rest) : Clear label (line ++ ("\n" ++ rest)) := by
  have hText : (line ++ ("\n" ++ rest)).toList = line.toList ++ '\n' :: rest.toList := by simp
  rw [Clear, hText, Separator.infix_append_iff_of_notMem _ (hHead ▸ hLine), infix_cons_iff, not_or]
  exact ⟨fun hPrefix => hTail (cons_prefix_cons.mp hPrefix).2, hRest⟩

/-- The line breaks of the app information stand before other labels. -/
theorem clear_appInfo {ctx : CrashContext} (hCtx : ctx.SingleLine) :
    Clear callStackLabel ctx.appInfo := by
  have hLines : ctx.appInfo = "App: " ++ ctx.displayName.getD "" ++ " " ++
      ctx.shortVersion.getD "" ++ "(" ++ ctx.version.getD "" ++ ")" ++ ("\n" ++
        ("Device:" ++ ctx.deviceType ++ ("\n" ++
          ("OS Version:" ++ ctx.deviceSystemName ++ " " ++ ctx.deviceSystemVersion)))) := by
    unfold CrashContext.appInfo
    apply String.toList_inj.mp
    simp
  rw [hLines]
  refine clear_line rfl ?_ ?_ (clear_line rfl ?_ ?_ (clear_of_notMem ?_))
  · simp [hCtx.displayName, hCtx.shortVersion, hCtx.version]
  · simp [callStackLabel]
  · simp [hCtx.deviceType]
  · simp [callStackLabel]
  · simp [callStackLabel, hCtx.deviceSystemName, hCtx.deviceSystemVersion]

/-- The reason of a signal ends with a line break, and has no other. -/
theorem clear_reason (ctx : CrashContext) (n : Int32) :
    Clear appinfoLabel (signalModel ctx n).reason := by
  have hLine : (signalModel ctx n).reason = "Signal " ++ nameOfSignal n ++ "(" ++ toString n ++
      ") was raised." ++ ("\n" ++ "") := by
    apply String.toList_inj.mp
    simp [signalModel]
  rw [hLine]
  refine clear_line rfl ?_ (by decide) (clear_of_notMem (by decide))
  simp only [String.toList_append, mem_append, not_or]
  exact ⟨⟨⟨⟨by decide, newline_notMem_nameOfSignal n⟩, by decide⟩, newline_notMem_toString n⟩,
    by decide⟩

theorem readable_signalModel {ctx : CrashContext} (hCtx : ctx.SingleLine) (n : Int32) :
    Readable (ofModel (signalModel ctx n)) where
  type := ⟨.signal, rfl⟩
  name := clear_of_notMem (newline_notMem_nameOfSignal n)
  time := clear_of_notMem hCtx.formattedDate
  reason := clear_reason ctx n
  appinfo := clear_appInfo hCtx

theorem readable_exceptionModel_iff {ctx : CrashContext} (hCtx : ctx.SingleLine)
    (exception : NSException) :
    Readable (ofModel (exceptionModel ctx exception)) ↔ exception.Clear := by
  constructor
  · intro hReadable
    exact ⟨hReadable.name, hReadable.reason⟩
  · rintro ⟨hName, hReason⟩
    exact ⟨⟨.exception, rfl⟩, hName, clear_of_notMem hCtx.formattedDate, hReason,
      clear_appInfo hCtx⟩

end CrashRecordModel

end LeigodAPM
