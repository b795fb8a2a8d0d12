import OpenViking.Common.Assoc
import OpenViking.Common.Text

/-!
# Merging the fields of a memory

A model operation names values for the fields of a memory.  The operation is
resolved against the page it belongs to, and the update then merges every field
into the file as it is stored, by the operator that the schema gives the field.
-/

namespace OpenViking
namespace Memory
namespace Merge

open Text Assoc List

/-- One block of a patch; a delete block replaces with the empty text. -/
structure Block where
  search : Text
  replace : Text
deriving DecidableEq

/-- A value of a field; floats are values of another type. -/
inductive Value (F : Type) where
  | none
  | str (text : Text)
  | int (n : Int)
  | bool (b : Bool)
  | float (x : F)
  | patch (blocks : List Block)
deriving DecidableEq

inductive FieldType where
  | string
  | int64
  | float32
  | bool
deriving DecidableEq

inductive MergeOp where
  | patch
  | replace
  | sum
  | immutable
deriving DecidableEq

structure MemoryField where
  name : Text
  fieldType : FieldType
  mergeOp : MergeOp
deriving DecidableEq

/-- What the update calls: the conversions to numbers, which can fail, the addition of
floats, the patching of a text, which can fail, and the removal of link markup. -/
structure Tools (F : Type) where
  toInt : Value F -> Option Int
  toFloat : Value F -> Option F
  add : F -> F -> F
  applyStrPatch : Text -> List Block -> Option Text
  stripLinks : Text -> Text

variable {F : Type} [DecidableEq F] (tools : Tools F)

def isFloat : Value F -> Bool
  | .float _ => true
  | _ => false

/-- A failed conversion keeps the current value. -/
def SumOp.apply (currentValue patchValue : Value F) : Value F :=
  if patchValue = .none ∨ patchValue = .str [] then currentValue
  else if currentValue = .none then patchValue
  else if isFloat currentValue || isFloat patchValue then
    match tools.toFloat currentValue, tools.toFloat patchValue with
    | some x, some y => .float (tools.add x y)
    | _, _ => currentValue
  else
    match tools.toInt currentValue, tools.toInt patchValue with
    | some x, some y => .int (x + y)
    | _, _ => currentValue

def ReplaceOp.apply (currentValue patchValue : Value F) : Value F :=
  if patchValue = .none ∨ patchValue = .str [] then currentValue
  else patchValue

def ImmutableOp.apply (currentValue patchValue : Value F) : Value F :=
  if currentValue = .none then patchValue else currentValue

def extractReplaceWhenNoOriginal : Value F -> Value F
  | .patch blocks =>
    .str (List.intercalate ['\n'] (blocks.map Block.replace))
  | .str text => .str text
  | _ => .str []

/-- The text that a patch is applied to. -/
def Value.text : Value F -> Text
  | Value.str text => text
  | _ => []

/-- Blocks without a search text are passed over; a failed patch gives none. -/
def PatchOp.apply (fieldType : FieldType) (currentValue patchValue : Value F) :
    Option (Value F) :=
  if fieldType ≠ .string then some patchValue
  else if currentValue = Value.none then some (extractReplaceWhenNoOriginal patchValue)
  else
    match patchValue with
    | Value.patch blocks =>
      let validBlocks := blocks.filter fun block => block.search ≠ []
      if validBlocks = [] then some currentValue
      else (tools.applyStrPatch currentValue.text validBlocks).map Value.str
    | value =>
      if value = Value.none ∨ value = Value.str [] then some currentValue
      else some value

/-- The operator of a field on its current value and a new one. -/
def applyMergeOp (field : MemoryField) (currentValue patchValue : Value F) :
    Option (Value F) :=
  match field.mergeOp with
  | .patch => PatchOp.apply tools field.fieldType currentValue patchValue
  | .replace => some (ReplaceOp.apply currentValue patchValue)
  | .sum => some (SumOp.apply tools currentValue patchValue)
  | .immutable => some (ImmutableOp.apply currentValue patchValue)

abbrev Fields (F : Type) := Assoc Text (Value F)

/-- A stored memory, without its links. -/
structure MemoryFile (F : Type) where
  content : Text
  extraFields : Fields F

def contentKey : Text := ['c', 'o', 'n', 't', 'e', 'n', 't']
def memoryTypeKey : Text := ['m', 'e', 'm', 'o', 'r', 'y', '_', 't', 'y', 'p', 'e']
def versionKey : Text := ['v', 'e', 'r', 's', 'i', 'o', 'n']

/-- A field that is not patched gets the value that the page was read with. -/
def prefillField (oldContent : MemoryFile F) (fields : Fields F) (field : MemoryField) :
    Fields F :=
  if field.mergeOp = .patch then fields
  else
    match oldContent.extraFields.find field.name with
    | none => fields
    | some value => fields.put field.name value

/-- The fields of an operation once its page is known. -/
def resolveFields (schema : List MemoryField) (item : Fields F)
    (page : Option (MemoryFile F)) : Fields F :=
  match page with
  | none => item
  | some oldContent => schema.foldl (prefillField oldContent) item

def currentValue (old : MemoryFile F) (name : Text) : Value F :=
  if name = contentKey then .str (tools.stripLinks old.content)
  else (old.extraFields.find name).getD .none

/-- Merges one field; a failed merge keeps the current value. -/
def mergeField (memoryFields : Fields F) (old : MemoryFile F) (metadata : Fields F)
    (field : MemoryField) : Fields F :=
  match memoryFields.find field.name with
  | none => metadata
  | some patchValue =>
    let current := currentValue tools old field.name
    match applyMergeOp tools field current patchValue with
    | some newValue => metadata.put field.name newValue
    | none =>
      if current = .none then metadata.del field.name
      else metadata.put field.name current

/-- The entries of the old file that no schema field and no new entry covers. -/
def keptEntries (schema : List MemoryField) (metadata : Fields F) (old : MemoryFile F) :
    List (Text × Value F) :=
  old.extraFields.bindings.filter fun entry =>
    entry.1 ∉ schema.map MemoryField.name ∧ entry.1 ≠ contentKey ∧
      entry.1 ≠ memoryTypeKey ∧ metadata.find entry.1 = none ∧ entry.2 ≠ .none

/-- What the update writes to a file that exists: the merged fields, with what the
operation was traced to, the entries that are kept, and the next version. -/
def upsertMetadata (schema : List MemoryField) (memoryFields : Fields F)
    (trace : List (Text × Value F)) (version : Value F) (old : MemoryFile F) :
    Fields F :=
  let metadata := schema.foldl (mergeField tools memoryFields old)
    (memoryFields.putAll trace)
  (metadata.putAll (keptEntries schema metadata old)).put versionKey version

/-- The value of a field in what is written; a content that is left out is empty. -/
def writtenValue (metadata : Fields F) (name : Text) : Value F :=
  (metadata.find name).getD (if name = contentKey then .str [] else .none)

/-!
# One application of the operators

A field that the operation names should hold its operator on the stored value and
the named one, and everything else what it held.
-/

/-- The field of a name; of several the last one is merged last. -/
def fieldNamed (schema : List MemoryField) (name : Text) : Option MemoryField :=
  schema.reverse.find? fun field => field.name = name

/-- The operator of a name, where a failure keeps the current value. -/
def merged (schema : List MemoryField) (name : Text) (current patch : Value F) :
    Value F :=
  ((fieldNamed schema name).bind fun field =>
    applyMergeOp tools field current patch).getD current

/-- The value that a field should hold; a field that is none in the operation is not
named by it. -/
def expected (schema : List MemoryField) (item : Fields F) (old : MemoryFile F)
    (name : Text) : Value F :=
  match item.find name with
  | none => currentValue tools old name
  | some value =>
    if value = .none then currentValue tools old name
    else merged tools schema name (currentValue tools old name) value

/-- The operators are applied once, and the entries of the system stay. -/
structure AppliesOnce (schema : List MemoryField) (item : Fields F)
    (trace : List (Text × Value F)) (old : MemoryFile F) (written : Fields F) :
    Prop where
  fields : forall name, name ∈ schema.map MemoryField.name ->
    writtenValue written name = expected tools schema item old name
  system : forall key value, key ∉ schema.map MemoryField.name -> key ≠ contentKey ->
    key ≠ memoryTypeKey -> key ≠ versionKey -> item.find key = none ->
    key ∉ trace.map Prod.fst -> old.extraFields.find key = some value ->
    value ≠ .none -> written.find key = some value

/-- The value of the page that takes the place of the named one. -/
def prefilled (schema : List MemoryField) (page : Option (MemoryFile F))
    (name : Text) : Option (Value F) :=
  page.bind fun oldContent =>
    if schema.any fun field => field.name = name && field.mergeOp ≠ .patch then
      oldContent.extraFields.find name
    else none

/-- A field of the operation without a value keeps the current one: by every operator
but the patch, which writes what it gets for a number, and a text where none was. -/
def KeepsUnnamed (schema : List MemoryField) (name : Text) (current : Value F) : Prop :=
  forall field, fieldNamed schema name = some field ->
    field.mergeOp = .patch ->
      if field.fieldType = .string then current ≠ .none
      else current = .none

/-- When the update of a field does what it should. -/
def Meets (schema : List MemoryField) (item : Fields F) (page : Option (MemoryFile F))
    (trace : List (Text × Value F)) (version : Value F) (old : MemoryFile F)
    (name : Text) : Prop :=
  let current := currentValue tools old name
  if name = versionKey then version = expected tools schema item old name
  else
    match prefilled schema page name, item.find name with
    | some value, _ =>
      merged tools schema name current value = expected tools schema item old name
    | none, some value => value = .none -> KeepsUnnamed schema name current
    | none, none => writtenValue ((∅ : Fields F).putAll trace) name = current

omit [DecidableEq F] in
theorem find_resolveFields (schema : List MemoryField) (item : Fields F)
    (page : Option (MemoryFile F)) (name : Text) :
    (resolveFields schema item page).find name =
      (prefilled schema page name).or (item.find name) := by
  cases page with
  | none => rfl
  | some oldContent =>
    unfold resolveFields prefilled
    dsimp only [Option.bind_some]
    induction schema generalizing item with
    | nil => rfl
    | cons field rest ih =>
      rw [foldl_cons, ih, any_cons, prefillField]
      by_cases hop : field.mergeOp = .patch
      · simp [hop]
      by_cases hname : field.name = name
      · subst hname
        cases hvalue : oldContent.extraFields.find field.name with
        | none => simp [hop]
        | some value =>
          simp only [hop, if_false, find_put_self]
          split <;> simp [hop]
      · cases hvalue : oldContent.extraFields.find field.name with
        | none => simp [hop, hname]
        | some value => simp [hop, hname, find_put_ne _ value (Ne.symm hname)]

theorem fieldNamed_concat (schema : List MemoryField) (field : MemoryField)
    (name : Text) : fieldNamed (schema ++ [field]) name =
      if field.name = name then some field else fieldNamed schema name := by
  rw [fieldNamed, reverse_append, reverse_singleton, singleton_append,
    find?_cons]
  by_cases hname : field.name = name <;> simp [hname, fieldNamed]

theorem find_mergeField_ne (memoryFields metadata : Fields F) (old : MemoryFile F)
    {field : MemoryField} {name : Text} (h : name ≠ field.name) :
    (mergeField tools memoryFields old metadata field).find name =
      metadata.find name := by
  unfold mergeField
  split
  · rfl
  · dsimp only
    split
    · exact find_put_ne _ _ h
    · split
      · exact find_del_ne _ h
      · exact find_put_ne _ _ h

/-- After all fields were merged, a name holds what its last field merged. -/
theorem find_foldl_mergeField (schema : List MemoryField)
    (memoryFields start : Fields F)
    (old : MemoryFile F) (name : Text) :
    (schema.foldl (mergeField tools memoryFields old) start).find name =
      if name ∈ schema.map MemoryField.name then
        match memoryFields.find name with
        | none => start.find name
        | some patchValue =>
          let current := currentValue tools old name
          let value := (fieldNamed schema name).bind fun field =>
            applyMergeOp tools field current patchValue
          if value = none ∧ current = .none then none
          else some (value.getD current)
      else start.find name := by
  induction schema using reverseRecOn with
  | nil => rfl
  | append_singleton schema field ih =>
    rw [foldl_append, foldl_cons, foldl_nil, fieldNamed_concat,
      map_append]
    by_cases hname : field.name = name
    · subst hname
      rw [if_pos (by simp), if_pos rfl, mergeField]
      cases hpatch : memoryFields.find field.name with
      | none =>
        dsimp only
        rw [ih, hpatch]
        exact ite_self _
      | some patchValue =>
        dsimp only [Option.bind_some]
        cases hvalue : applyMergeOp tools field
            (currentValue tools old field.name) patchValue with
        | some newValue => simp
        | none =>
          by_cases hcurrent : currentValue tools old field.name = .none <;>
            simp [hcurrent]
    · rw [find_mergeField_ne tools _ _ _ (Ne.symm hname), ih, if_neg hname]
      simp [Ne.symm hname]

theorem merged_none_iff {schema : List MemoryField} {name : Text}
    {current : Value F} :
    merged tools schema name current .none = current <->
      KeepsUnnamed schema name current := by
  unfold merged KeepsUnnamed
  cases fieldNamed schema name with
  | none => simp
  | some field =>
    rcases field with ⟨fieldName, fieldType, mergeOp⟩
    cases mergeOp with
    | patch =>
      cases fieldType <;> by_cases hcurrent : current = .none <;>
        simp [applyMergeOp, PatchOp.apply, extractReplaceWhenNoOriginal, hcurrent,
          eq_comm]
    | replace => simp [applyMergeOp, ReplaceOp.apply]
    | sum => simp [applyMergeOp, SumOp.apply]
    | immutable => simp +contextual [applyMergeOp, ImmutableOp.apply]

variable {tools} {schema : List MemoryField} {item : Fields F}
  {page : Option (MemoryFile F)} {trace : List (Text × Value F)} {version : Value F}
  {old : MemoryFile F} {name : Text}

theorem writtenValue_upsert (hname : name ∈ schema.map MemoryField.name) :
    writtenValue (upsertMetadata tools schema (resolveFields schema item page) trace
        version old) name =
      if name = versionKey then version
      else
        match (prefilled schema page name).or (item.find name) with
        | none => writtenValue ((∅ : Fields F).putAll trace) name
        | some value =>
          merged tools schema name (currentValue tools old name) value := by
  unfold upsertMetadata writtenValue
  dsimp only
  by_cases hversion : name = versionKey
  · rw [hversion, find_put_self, if_pos rfl]
    rfl
  rw [find_put_ne _ _ hversion, if_neg hversion,
    find_putAll_of_notMem, find_foldl_mergeField, if_pos hname,
    find_resolveFields]
  · cases hvalue : (prefilled schema page name).or (item.find name) with
    | none =>
      dsimp only
      rw [find_putAll, find_putAll, find_resolveFields, hvalue,
        find_empty]
    | some value =>
      dsimp only
      split
      · next hnone =>
          have hcontent : name ≠ contentKey := by
            rintro rfl
            rw [currentValue, if_pos rfl] at hnone
            cases hnone.2
          rw [if_neg hcontent, merged, hnone.1, hnone.2]
      · rfl
  · intro hkept
    rcases mem_map.mp hkept with ⟨entry, hentry, rfl⟩
    have htest := (mem_filter.mp hentry).2
    simp [mem_map.mp hname] at htest

theorem writtenValue_eq_expected_iff (hname : name ∈ schema.map MemoryField.name) :
    writtenValue (upsertMetadata tools schema (resolveFields schema item page) trace
        version old) name = expected tools schema item old name <->
      Meets tools schema item page trace version old name := by
  rw [writtenValue_upsert hname]
  unfold Meets
  dsimp only
  split
  · rfl
  cases hprefilled : prefilled schema page name with
  | some value => rfl
  | none =>
    unfold expected
    cases hitem : item.find name with
    | none => rfl
    | some value =>
      dsimp only [Option.none_or]
      by_cases hnone : value = .none
      · subst hnone
        rw [if_pos rfl, merged_none_iff]
        exact ⟨fun h _ => h, fun h => h rfl⟩
      · rw [if_neg hnone]
        exact ⟨fun _ h => absurd h hnone, fun _ => rfl⟩

/-- The entries that the system keeps in the file are still there. -/
theorem find_kept {key : Text} {value : Value F}
    (hname : key ∉ schema.map MemoryField.name)
    (hcontent : key ≠ contentKey) (htype : key ≠ memoryTypeKey)
    (hversion : key ≠ versionKey) (hitem : item.find key = none)
    (htrace : key ∉ trace.map Prod.fst) (hold : old.extraFields.find key = some value)
    (hvalue : value ≠ .none) :
    (upsertMetadata tools schema (resolveFields schema item page) trace version old).find
      key = some value := by
  unfold upsertMetadata
  dsimp only
  rw [find_put_ne _ _ hversion]
  have hprefilled : prefilled schema page key = none := by
    cases page with
    | none => rfl
    | some oldContent =>
      unfold prefilled
      rw [Option.bind_some, if_neg]
      intro hany
      rcases any_eq_true.mp hany with ⟨field, hfield, htest⟩
      rw [Bool.and_eq_true, decide_eq_true_eq] at htest
      exact hname (mem_map.mpr ⟨field, hfield, htest.1⟩)
  have hmetadata : (schema.foldl (mergeField tools (resolveFields schema item page) old)
      ((resolveFields schema item page).putAll trace)).find key = none := by
    rw [find_foldl_mergeField, if_neg hname, find_putAll_of_notMem _ htrace,
      find_resolveFields, hprefilled, hitem]
    rfl
  apply find_putAll_of_mem
  · exact (nodup_bindings_keys old.extraFields).sublist
      (filter_sublist.map Prod.fst)
  · refine mem_filter.mpr ⟨mem_bindings.mpr hold, decide_eq_true ?_⟩
    exact ⟨hname, hcontent, htype, hmetadata, hvalue⟩

/-- An update applies the operators once exactly when it does so for every field. -/
theorem upsertMetadata_appliesOnce_iff {F : Type} [DecidableEq F] (tools : Tools F)
    (schema : List MemoryField) (item : Fields F) (page : Option (MemoryFile F))
    (trace : List (Text × Value F)) (version : Value F) (old : MemoryFile F) :
    AppliesOnce tools schema item trace old
        (upsertMetadata tools schema (resolveFields schema item page) trace version
          old) <->
      forall name, name ∈ schema.map MemoryField.name ->
        Meets tools schema item page trace version old name := by
  constructor
  · intro h name hname
    exact (writtenValue_eq_expected_iff hname).mp (h.fields name hname)
  · intro h
    refine ⟨fun name hname => (writtenValue_eq_expected_iff hname).mpr (h name hname),
      ?_⟩
    intro key value hname hcontent htype hversion hitem htrace hold hvalue
    exact find_kept hname hcontent htype hversion hitem htrace hold hvalue

/-!
# A sum that is read back into its own operation
-/

/-- Tools that convert whole numbers only. -/
def plainTools : Tools Empty where
  toInt
    | .int n => some n
    | _ => none
  toFloat _ := none
  add x _ := x
  applyStrPatch _ _ := none
  stripLinks text := text

def callCount : Text := ['c', 'a', 'l', 'l', '_', 'c', 'o', 'u', 'n', 't']

def toolsSchema : List MemoryField := [⟨callCount, .int64, .sum⟩]

/-- Five calls were counted so far. -/
def countedFile : MemoryFile Empty :=
  ⟨[], ofList [(callCount, .int 5)]⟩

/-- One more call makes ten, and not six. -/
theorem upsertMetadata_doublesSum :
    ¬ AppliesOnce plainTools toolsSchema (ofList [(callCount, .int 1)]) []
      countedFile (upsertMetadata plainTools toolsSchema
        (resolveFields toolsSchema (ofList [(callCount, .int 1)])
          (some countedFile)) [] (.int 2) countedFile) := by
  intro h
  have hsum := h.fields callCount (by decide)
  revert hsum
  decide

end Merge
end Memory
end OpenViking
