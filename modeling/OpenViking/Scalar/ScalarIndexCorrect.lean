import OpenViking.Scalar.FieldGroupCorrect

/-!
# The scalar index holds the fields of every row

Every offset has a row of fields, empty where no live record stands.  When the
old fields of a call are those of its offset, the groups of all declared fields
stay exact.
-/

namespace OpenViking
namespace Scalar

open Paths Function Assoc List

variable {num : Type} [LinearOrder num]

def rowTexts (rows : Nat -> FieldsDict num) (field : Str) :
    Nat -> Option Str :=
  fun o => (rows o).strKvMap.find field

/-- The number of a field at every offset. -/
def rowNumbers (rows : Nat -> FieldsDict num) (field : Str) :
    Nat -> Option num :=
  fun o => (rows o).dblKvMap.find field

omit [LinearOrder num] in
theorem rowTexts_update (rows : Nat -> FieldsDict num) (offset : Nat)
    (d : FieldsDict num) (field : Str) :
    rowTexts (update rows offset d) field =
      update (rowTexts rows field) offset (d.strKvMap.find field) := by
  funext o
  rw [rowTexts, update_apply, update_apply]
  split
  · rfl
  · rfl

omit [LinearOrder num] in
theorem rowNumbers_update (rows : Nat -> FieldsDict num) (offset : Nat)
    (d : FieldsDict num) (field : Str) :
    rowNumbers (update rows offset d) field =
      update (rowNumbers rows field) offset
        (d.dblKvMap.find field) := by
  funext o
  rw [rowNumbers, update_apply, update_apply]
  split
  · rfl
  · rfl

/-!
# Changes of several fields
-/

namespace FieldBitmapGroupSet

variable {s : FieldBitmapGroupSet num}

variable {value : Type}

omit [LinearOrder num] in
private theorem find_changeList
    (change : FieldBitmapGroup num -> value -> FieldBitmapGroup num)
    (kvs : List (Str × value)) (hnodup : (kvs.map Prod.fst).Nodup)
    (s : FieldBitmapGroupSet num) (field : Str) :
    (forall v, (field, v) ∈ kvs ->
      (s.changeFields change kvs).groups.find field =
        (s.groups.find field).map fun g => change g v) ∧
    (field ∉ kvs.map Prod.fst ->
      (s.changeFields change kvs).groups.find field =
        s.groups.find field) := by
  induction kvs generalizing s with
  | nil =>
    constructor
    · intro v hv
      cases hv
    · intro _
      rfl
  | cons kv rest ih =>
    rcases kv with ⟨key, v⟩
    rw [map_cons, nodup_cons] at hnodup
    have hfirst : forall f, (s.changeFields change [(key, v)]).groups.find f =
        if f = key then (s.groups.find key).map fun g => change g v
        else s.groups.find f := by
      intro f
      simp only [changeFields, foldl_cons, foldl_nil]
      cases hfind : s.groups.find key with
      | none =>
        by_cases heq : f = key
        · rw [if_pos heq, heq]
          exact hfind
        · rw [if_neg heq]
      | some g =>
        show (s.groups.put key (change g v)).find f = _
        rw [find_put]
        rfl
    have hrest := ih hnodup.2 (s.changeFields change [(key, v)])
    constructor
    · intro w hw
      rcases mem_cons.mp hw with heq | hmem
      · cases heq
        exact (hrest.2 hnodup.1).trans ((hfirst field).trans (if_pos rfl))
      · have hne : field ≠ key := by
          intro heq
          rw [heq] at hmem
          exact hnodup.1 (mem_map.mpr ⟨_, hmem, rfl⟩)
        have hat := hrest.1 w hmem
        rw [hfirst, if_neg hne] at hat
        exact hat
    · intro hnot
      rw [map_cons, mem_cons, not_or] at hnot
      have hat := hrest.2 hnot.2
      rw [hfirst, if_neg hnot.1] at hat
      exact hat

omit [LinearOrder num] in
theorem find_changeFields (s : FieldBitmapGroupSet num)
    (change : FieldBitmapGroup num -> value -> FieldBitmapGroup num)
    (m : Assoc Str value) (field : Str) :
    (s.changeFields change m.bindings).groups.find field =
      (s.groups.find field).map fun g => (m.find field).elim g (change g) := by
  have hlist := find_changeList change m.bindings (nodup_bindings_keys m)
    s field
  cases hfind : m.find field with
  | some v => exact hlist.1 v (mem_bindings.mpr hfind)
  | none =>
    have hnot : field ∉ m.bindings.map Prod.fst := by
      intro hmem
      rcases mem_map.mp hmem with ⟨⟨key, v⟩, hkv, heq⟩
      have hkey : key = field := heq
      rw [hkey, mem_bindings, hfind] at hkv
      cases hkv
    rw [hlist.2 hnot]
    exact Option.map_id'.symm

omit [LinearOrder num] in
theorem changeFields_frame (s : FieldBitmapGroupSet num)
    (change : FieldBitmapGroup num -> value -> FieldBitmapGroup num)
    (kvs : List (Str × value)) :
    (s.changeFields change kvs).elementSize = s.elementSize ∧
      (s.changeFields change kvs).pathFieldNames = s.pathFieldNames := by
  induction kvs generalizing s with
  | nil => exact ⟨rfl, rfl⟩
  | cons kv rest ih =>
    rw [changeFields, foldl_cons]
    cases s.groups.find kv.1 with
    | none => exact ih s
    | some g => exact ih { s with groups := s.groups.put kv.1 (change g kv.2) }

/-!
# Exact group sets
-/

structure Exact (s : FieldBitmapGroupSet num) (items : Assoc Str FieldType)
    (rows : Nat -> FieldsDict num) : Prop where
  group : forall field t, items.find field = some t ->
    t.getTypeId ≠ .unknown -> exists g, s.groups.find field = some g ∧
      g.Exact (decide (t = .path)) (rowTexts rows field)
        (rowNumbers rows field)
  other : forall field, (forall t, items.find field = some t ->
    t.getTypeId = .unknown) -> s.groups.find field = none
  path : forall field, s.isPathFieldName field = true <->
    items.find field = some .path
  sized : forall o field, rowTexts rows field o ≠ none ∨
    rowNumbers rows field o ≠ none -> o < s.elementSize

variable {m : Assoc Str value}

omit [LinearOrder num] in
theorem exists_find_of_bindings
    (h : m.bindings ≠ []) : exists field v, m.find field = some v := by
  rcases exists_mem_of_ne_nil _ h with ⟨⟨field, v⟩, hmem⟩
  exact ⟨field, v, mem_bindings.mp hmem⟩

omit [LinearOrder num] in
variable {items : Assoc Str FieldType} {rows : Nat -> FieldsDict num}

variable {offset : Nat}

private theorem Exact.withRow (h : s.Exact items rows)
    {row : FieldsDict num}
    {f : FieldBitmapGroup num -> value -> FieldBitmapGroup num}
    (hsame : forall field, m.find field = none ->
      row.strKvMap.find field = rowTexts rows field offset ∧
        row.dblKvMap.find field = rowNumbers rows field offset)
    (hchange : forall field v, m.find field = some v ->
      forall g isPath, FieldBitmapGroup.Exact g isPath (rowTexts rows field)
        (rowNumbers rows field) ->
      (f g v).Exact isPath
        (update (rowTexts rows field) offset (row.strKvMap.find field))
        (update (rowNumbers rows field) offset (row.dblKvMap.find field)))
    {s' : FieldBitmapGroupSet num}
    (hgroups : s'.groups = (s.changeFields f m.bindings).groups)
    (hpath : s'.pathFieldNames = s.pathFieldNames)
    (hsize : s.elementSize ≤ s'.elementSize)
    (hoffset : offset < s'.elementSize) :
    s'.Exact items (update rows offset row) := by
  constructor
  · intro field t hitem htype
    rcases h.group field t hitem htype with ⟨g, hfind, hg⟩
    refine ⟨(m.find field).elim g (f g), ?_, ?_⟩
    · rw [hgroups, find_changeFields, hfind]
      rfl
    · rw [rowTexts_update, rowNumbers_update]
      cases hm : m.find field with
      | some v => exact hchange field v hm g _ hg
      | none =>
        rw [(hsame field hm).1, (hsame field hm).2, update_eq_self,
          update_eq_self]
        exact hg
  · intro field hother
    rw [hgroups, find_changeFields, h.other field hother]
    rfl
  · intro field
    rw [isPathFieldName, hpath]
    exact h.path field
  · intro o field ho
    by_cases heq : o = offset
    · rw [heq]
      exact hoffset
    · have hrow : update rows offset row o = rows o :=
        update_of_ne heq ..
      rw [rowTexts, rowNumbers, hrow] at ho
      exact Nat.lt_of_lt_of_le (h.sized o field ho) hsize

theorem Exact.addFieldStrs (h : s.Exact items rows)
    (hnone : (rows offset).strKvMap = ∅) (texts : Assoc Str Str) :
    (s.addFieldStrs texts.bindings offset).Exact items
      (update rows offset
        { rows offset with strKvMap := texts }) := by
  have hframe := changeFields_frame s
    (fun g v => (g.addFieldStr v offset).2) texts.bindings
  apply h.withRow (m := texts) (f := fun g v => (g.addFieldStr v offset).2)
  · intro field hm
    rw [rowTexts, hnone, hm]
    exact ⟨(find_empty field).symm, rfl⟩
  · intro field v hm g isPath hg
    show FieldBitmapGroup.Exact _ isPath _
      (update _ offset (rowNumbers rows field offset))
    rw [hm, update_eq_self]
    apply hg.addFieldStr
    rw [rowTexts, hnone]
    exact find_empty field
  · rfl
  · exact hframe.2
  · show s.elementSize ≤ max (s.changeFields _ _).elementSize (offset + 1)
    rw [hframe.1]
    exact Nat.le_max_left _ _
  · exact Nat.le_max_right _ _

theorem Exact.addFieldDbls (h : s.Exact items rows)
    (hnone : (rows offset).dblKvMap = ∅) (numbers : Assoc Str num) :
    (s.addFieldDbls numbers.bindings offset).Exact items
      (update rows offset
        { rows offset with dblKvMap := numbers }) := by
  have hframe := changeFields_frame s
    (fun g v => (g.addFieldDbl v offset).2) numbers.bindings
  apply h.withRow (m := numbers) (f := fun g v => (g.addFieldDbl v offset).2)
  · intro field hm
    rw [rowNumbers, hnone, hm]
    exact ⟨rfl, (find_empty field).symm⟩
  · intro field v hm g isPath hg
    show FieldBitmapGroup.Exact _ isPath
      (update _ offset (rowTexts rows field offset)) _
    rw [hm, update_eq_self]
    apply hg.addFieldDbl
    rw [rowNumbers, hnone]
    exact find_empty field
  · rfl
  · exact hframe.2
  · show s.elementSize ≤ max (s.changeFields _ _).elementSize (offset + 1)
    rw [hframe.1]
    exact Nat.le_max_left _ _
  · exact Nat.le_max_right _ _

theorem Exact.deleteFieldStrs (h : s.Exact items rows)
    (hne : (rows offset).strKvMap.bindings ≠ []) :
    (s.deleteFieldStrs (rows offset).strKvMap.bindings offset).Exact items
      (update rows offset { rows offset with strKvMap := ∅ }) := by
  have hframe := changeFields_frame s
    (fun g v => (g.deleteFieldStr v offset).2) (rows offset).strKvMap.bindings
  rcases exists_find_of_bindings hne with ⟨field, v, hfind⟩
  have hlt : offset < s.elementSize := by
    apply h.sized offset field (.inl _)
    rw [rowTexts, hfind]
    exact Option.some_ne_none v
  rw [FieldBitmapGroupSet.deleteFieldStrs, if_neg (by omega)]
  apply h.withRow (m := (rows offset).strKvMap)
    (f := fun g v => (g.deleteFieldStr v offset).2)
  · intro field hm
    rw [rowTexts, hm]
    exact ⟨find_empty field, rfl⟩
  · intro field v hm g isPath hg
    show FieldBitmapGroup.Exact _ isPath _
      (update _ offset (rowNumbers rows field offset))
    rw [find_empty, update_eq_self]
    exact hg.deleteFieldStr hm
  · rfl
  · exact hframe.2
  · exact Nat.le_of_eq hframe.1.symm
  · exact Nat.lt_of_lt_of_eq hlt hframe.1.symm

theorem Exact.deleteFieldDbls (h : s.Exact items rows)
    (hne : (rows offset).dblKvMap.bindings ≠ []) :
    (s.deleteFieldDbls (rows offset).dblKvMap.bindings offset).Exact items
      (update rows offset { rows offset with dblKvMap := ∅ }) := by
  have hframe := changeFields_frame s
    (fun g _ => (g.deleteFieldDbl offset).2) (rows offset).dblKvMap.bindings
  rcases exists_find_of_bindings hne with ⟨field, v, hfind⟩
  have hlt : offset < s.elementSize := by
    apply h.sized offset field (.inr _)
    rw [rowNumbers, hfind]
    exact Option.some_ne_none v
  rw [FieldBitmapGroupSet.deleteFieldDbls, if_neg (by omega)]
  apply h.withRow (m := (rows offset).dblKvMap)
    (f := fun g _ => (g.deleteFieldDbl offset).2)
  · intro field hm
    rw [rowNumbers, hm]
    exact ⟨rfl, find_empty field⟩
  · intro field v hm g isPath hg
    show FieldBitmapGroup.Exact _ isPath
      (update _ offset (rowTexts rows field offset)) _
    rw [find_empty, update_eq_self]
    exact hg.deleteFieldDbl hm
  · rfl
  · exact hframe.2
  · exact Nat.le_of_eq hframe.1.symm
  · exact Nat.lt_of_lt_of_eq hlt hframe.1.symm

/-!
# Rows
-/

omit [LinearOrder num] in
theorem eq_empty_of_bindings (h : m.bindings = []) : m = ∅ := by
  apply AList.ext
  exact map_eq_nil_iff.mp h

omit [LinearOrder num] in
private theorem update_row (rows : Nat -> FieldsDict num) (offset : Nat)
    (d d' : FieldsDict num) :
    update (update rows offset d) offset d' =
      update rows offset d' :=
  update_idem ..

theorem Exact.deleteRowData (h : s.Exact items rows) (offset : Nat) :
    (ScalarIndex.deleteRowData s offset (rows offset)).Exact items
      (update rows offset FieldsDict.none) := by
  have htexts : FieldBitmapGroupSet.Exact
      (if (rows offset).strKvMap.bindings = [] then s
        else s.deleteFieldStrs (rows offset).strKvMap.bindings offset) items
      (update rows offset { rows offset with strKvMap := ∅ }) := by
    split
    next hnil =>
      rw [← eq_empty_of_bindings hnil]
      rw [update_eq_self offset rows]
      exact h
    next hne => exact h.deleteFieldStrs hne
  have hrow : update rows offset
      { rows offset with strKvMap := ∅ } offset =
        { rows offset with strKvMap := ∅ } :=
    update_self ..
  rw [ScalarIndex.deleteRowData]
  split
  next hempty =>
    have hnone : rows offset = FieldsDict.none :=
      congrArg₂ FieldsDict.mk (eq_empty_of_bindings hempty.1)
        (eq_empty_of_bindings hempty.2)
    rw [← hnone, update_eq_self offset rows]
    exact h
  next =>
    show FieldBitmapGroupSet.Exact (if (rows offset).dblKvMap.bindings = []
      then _ else _) items _
    split
    next hnil =>
      have hsame : { rows offset with strKvMap := ∅ } = FieldsDict.none :=
        congrArg (FieldsDict.mk ∅) (eq_empty_of_bindings hnil)
      rw [hsame] at htexts
      exact htexts
    next hne =>
      have hboth := htexts.deleteFieldDbls (by
        rw [hrow]
        exact hne)
      rw [hrow, update_row] at hboth
      exact hboth

theorem Exact.addRowData (h : s.Exact items rows) (offset : Nat)
    (fields : FieldsDict num) :
    (ScalarIndex.addRowData s offset fields (rows offset)).Exact items
      (update rows offset fields) := by
  have hold := h.deleteRowData offset
  have hrow : update rows offset FieldsDict.none offset =
      FieldsDict.none := update_self ..
  have htexts : FieldBitmapGroupSet.Exact
      (if fields.strKvMap.bindings = [] then
          ScalarIndex.deleteRowData s offset (rows offset)
        else (ScalarIndex.deleteRowData s offset (rows offset)).addFieldStrs
          fields.strKvMap.bindings offset) items
      (update rows offset { fields with dblKvMap := ∅ }) := by
    split
    next hnil =>
      rw [eq_empty_of_bindings hnil]
      exact hold
    next hne =>
      have hadd := hold.addFieldStrs (by rw [hrow]; rfl) fields.strKvMap
      rw [hrow, update_row] at hadd
      exact hadd
  have hrow' : update rows offset { fields with dblKvMap := ∅ }
      offset = { fields with dblKvMap := ∅ } := update_self ..
  rw [ScalarIndex.addRowData]
  show FieldBitmapGroupSet.Exact (if fields.isEmpty then _ else _) items _
  split
  next hempty =>
    have hnone : fields = FieldsDict.none :=
      congrArg₂ FieldsDict.mk (eq_empty_of_bindings hempty.1)
        (eq_empty_of_bindings hempty.2)
    rw [hnone]
    exact hold
  next =>
    show FieldBitmapGroupSet.Exact (if fields.dblKvMap.bindings = []
      then _ else _) items _
    split
    next hnil =>
      rw [← eq_empty_of_bindings hnil] at htexts
      exact htexts
    next hne =>
      have hboth := htexts.addFieldDbls (by rw [hrow']) fields.dblKvMap
      rw [hrow', update_row] at hboth
      exact hboth

/-!
# A new index
-/

omit [LinearOrder num] in
private theorem newGroups_list (kvs : List (Str × FieldType))
    (hnodup : (kvs.map Prod.fst).Nodup) (s : FieldBitmapGroupSet num)
    (habsent : forall field, field ∈ kvs.map Prod.fst ->
      s.groups.find field = none) :
    let s' := kvs.foldl (fun s item =>
      if item.2.getTypeId ≠ .unknown then
        (s.addFieldGroup item.1 (.new item.2.getTypeId)).2
      else s) s
    (forall field t, (field, t) ∈ kvs -> t.getTypeId ≠ .unknown ->
      s'.groups.find field = some (.new t.getTypeId)) ∧
    (forall field, (forall t, (field, t) ∈ kvs -> t.getTypeId = .unknown) ->
      s'.groups.find field = s.groups.find field) ∧
    (forall field, field ∈ s'.pathFieldNames <->
      field ∈ s.pathFieldNames ∨ (field, FieldType.path) ∈ kvs) := by
  induction kvs generalizing s with
  | nil =>
    refine ⟨?_, ?_, ?_⟩
    · nofun
    · intro field _
      rfl
    · intro field
      simp
  | cons kv rest ih =>
    rcases kv with ⟨key, t⟩
    rw [map_cons, nodup_cons] at hnodup
    have habsentKey := habsent key mem_cons_self
    by_cases hknown : t.getTypeId = .unknown
    · have hrest := ih hnodup.2 s
        (fun f hf => habsent f (mem_cons_of_mem _ hf))
      have hfirst : (if t.getTypeId ≠ .unknown then
          (s.addFieldGroup key (.new t.getTypeId)).2 else s) = s :=
        if_neg (not_not.mpr hknown)
      rw [foldl_cons, hfirst]
      refine ⟨?_, ?_, ?_⟩
      · intro field t' hmem htype
        rcases mem_cons.mp hmem with heq | hmem
        · cases heq
          exact absurd hknown htype
        · exact hrest.1 field t' hmem htype
      · intro field hall
        exact hrest.2.1 field
          (fun t' hmem => hall t' (mem_cons_of_mem _ hmem))
      · intro field
        rw [hrest.2.2, mem_cons]
        constructor
        · intro hfield
          rcases hfield with hold | hmem
          · exact .inl hold
          · exact .inr (Or.inr hmem)
        · intro hfield
          rcases hfield with hold | heq | hmem
          · exact .inl hold
          · cases heq
            cases hknown
          · exact .inr hmem
    · have hfirst : (if t.getTypeId ≠ .unknown then
          (s.addFieldGroup key (.new t.getTypeId)).2 else s) =
          { s with
            groups := s.groups.put key (.new t.getTypeId)
            pathFieldNames := if t = .path then key :: s.pathFieldNames
              else s.pathFieldNames } := by
        rw [if_pos hknown, addFieldGroup, habsentKey]
        cases t with
        | unsupported => exact absurd rfl hknown
        | _ => rfl
      have hrest := ih hnodup.2 { s with
          groups := s.groups.put key (.new t.getTypeId)
          pathFieldNames := if t = .path then key :: s.pathFieldNames
            else s.pathFieldNames } (by
        intro f hf
        have hne : f ≠ key := by
          intro heq
          rw [heq] at hf
          exact hnodup.1 hf
        exact (find_put_ne s.groups _ hne).trans
          (habsent f (mem_cons_of_mem _ hf)))
      rw [foldl_cons, hfirst]
      have hnotRest : forall t', (key, t') ∉ rest := by
        intro t' hmem
        exact hnodup.1 (mem_map.mpr ⟨_, hmem, rfl⟩)
      refine ⟨?_, ?_, ?_⟩
      · intro field t' hmem htype
        rcases mem_cons.mp hmem with heq | hmem
        · cases heq
          refine (hrest.2.1 key ?_).trans (find_put_self s.groups _ _)
          intro t' hmem
          exact absurd hmem (hnotRest t')
        · exact hrest.1 field t' hmem htype
      · intro field hall
        have hne : field ≠ key := by
          intro heq
          rw [heq] at hall
          exact hknown (hall t mem_cons_self)
        exact (hrest.2.1 field
          (fun t' hmem => hall t' (mem_cons_of_mem _ hmem))).trans
          (find_put_ne s.groups _ hne)
      · intro field
        rw [hrest.2.2, mem_cons]
        constructor
        · intro hfield
          rcases hfield with hold | hmem
          · change field ∈ (if t = .path then key :: s.pathFieldNames
              else s.pathFieldNames) at hold
            split at hold
            next hpath =>
              rcases mem_cons.mp hold with heq | hold
              · exact .inr (Or.inl (by rw [heq, hpath]))
              · exact .inl hold
            next => exact .inl hold
          · exact .inr (Or.inr hmem)
        · intro hfield
          rcases hfield with hold | heq | hmem
          · apply Or.inl
            show field ∈ (if t = .path then key :: s.pathFieldNames
              else s.pathFieldNames)
            split
            · exact mem_cons_of_mem _ hold
            · exact hold
          · cases heq
            exact .inl mem_cons_self
          · exact .inr hmem

theorem exact_new (items : Assoc Str FieldType) :
    (ScalarIndex.new items : FieldBitmapGroupSet num).Exact items
      (fun _ => FieldsDict.none) := by
  have hnew := @newGroups_list num items.bindings
    (nodup_bindings_keys items) empty
    (fun field _ => find_empty field)
  constructor
  · intro field t hitem htype
    refine ⟨_, hnew.1 field t (mem_bindings.mpr hitem) htype, ?_⟩
    have hgroup := @FieldBitmapGroup.exact_new num _ t.getTypeId
    have hpath : decide (t.getTypeId = .dir) = decide (t = .path) := by
      cases t with
      | _ => rfl
    rw [hpath] at hgroup
    exact hgroup
  · intro field hall
    refine (hnew.2.1 field ?_).trans (find_empty field)
    intro t hmem
    exact hall t (mem_bindings.mp hmem)
  · intro field
    rw [isPathFieldName, decide_eq_true_eq, ScalarIndex.new, hnew.2.2,
      mem_bindings]
    constructor
    · intro hfield
      rcases hfield with hold | hitem
      · cases hold
      · exact hitem
    · exact .inr
  · intro o field ho
    rcases ho with ho | ho
    · exact absurd (find_empty field) ho
    · exact absurd (find_empty field) ho

end FieldBitmapGroupSet

end Scalar
end OpenViking
