import OpenViking.Scalar.FilterMeaning
import OpenViking.Scalar.ScalarIndexCorrect

/-!
# Filters on an exact index

What the field operators select is told from the rows alone, so it does not
depend on the calls that led to them.
-/

namespace OpenViking
namespace Scalar

open Paths FilterOp

variable {num : Type} [LinearOrder num]

/-!
# Bitmaps of one group
-/

namespace FieldBitmapGroup

variable {g : FieldBitmapGroup num} {isPath : Bool} {text : Nat -> Option Str}
  {number : Nat -> Option num}

omit [LinearOrder num] in
omit [LinearOrder num] in
private theorem mem_foldWhere (test : Str -> Bool)
    (kvs : List (Str × Bitmap)) (acc : BitmapPtr) (o : Nat) :
    o ∈ (kvs.foldl (fun result kv =>
        if test kv.1 then
          match result with
          | none => some kv.2
          | some acc => some (acc ∪ kv.2)
        else result) acc : BitmapPtr).read <->
      o ∈ acc.read ∨ exists kv, kv ∈ kvs ∧ test kv.1 = true ∧ o ∈ kv.2 := by
  induction kvs generalizing acc with
  | nil => simp
  | cons kv rest ih =>
    rw [List.foldl_cons, ih]
    have hfirst : o ∈ (if test kv.1 then
        match acc with
        | none => some kv.2
        | some acc => some (acc ∪ kv.2)
        else acc : BitmapPtr).read <->
        o ∈ acc.read ∨ (test kv.1 = true ∧ o ∈ kv.2) := by
      cases htest : test kv.1 with
      | false => simp
      | true =>
        cases acc with
        | none => simp
        | some b => simp
    rw [hfirst]
    simp only [List.mem_cons, exists_eq_or_imp, or_assoc]

omit [LinearOrder num] in
theorem mem_getBitmapWhere (g : FieldBitmapGroup num) (test : Str -> Bool)
    (o : Nat) :
    o ∈ (g.getBitmapWhere test).read <->
      exists key, test key = true ∧ o ∈ g.bits key := by
  refine (mem_foldWhere test g.bitmapGroup.bindings none o).trans ?_
  constructor
  · intro ho
    rcases ho with hnone | ⟨⟨key, b⟩, hmem, htest, hin⟩
    · cases hnone
    · refine ⟨key, htest, ?_⟩
      rw [bits, Assoc.mem_bindings.mp hmem]
      exact hin
  · intro ho
    rcases ho with ⟨key, htest, hin⟩
    rw [bits] at hin
    cases hfind : g.bitmapGroup.find key with
    | none =>
      rw [hfind] at hin
      cases hin
    | some b =>
      rw [hfind] at hin
      exact .inr ⟨(key, b), Assoc.mem_bindings.mpr hfind, htest, hin⟩

theorem Exact.text_of_mem_bits (h : g.Exact isPath text number) {key : Str}
    {o : Nat} (ho : o ∈ g.bits key) : text o ≠ none := by
  rcases (h.keys key o).mp ho with ⟨t, ht, _⟩
  rw [ht]
  exact Option.some_ne_none t

theorem Exact.text_of_mem_where (h : g.Exact isPath text number)
    {test : Str -> Bool} {o : Nat} (ho : o ∈ (g.getBitmapWhere test).read) :
    text o ≠ none := by
  rcases (mem_getBitmapWhere g test o).mp ho with ⟨key, _, hin⟩
  exact h.text_of_mem_bits hin

theorem Exact.mem_range (h : g.Exact isPath text number) {rangeOut : Bool}
    {lt gt : num} {le ge : Bool} {o : Nat} :
    o ∈ BitmapPtr.read (g.rangedmap.bind fun m =>
        m.getRangeBitmap rangeOut lt le gt ge) <->
      exists v, number o = some v ∧ InRange rangeOut lt le gt ge v := by
  have hranges := h.ranges
  have hvalues := h.values o
  rw [numbers] at hranges hvalues
  cases hmap : g.rangedmap with
  | none =>
    rw [hmap] at hvalues
    have hnone : number o = none := hvalues.symm
    simp [hnone]
  | some m =>
    rw [hmap, Option.getD_some] at hranges hvalues
    rw [← hvalues]
    exact hranges.mem_range

/-- The merged bitmaps of a path hold the offsets with a key below it. -/
theorem Exact.mem_merged (h : g.Exact true text number) {root : DirIndex}
    (hroot : g.dirIndex = some root) {keys : List Str} {depth : Int}
    {o : Nat} :
    o ∈ unionAll ((keys.flatMap fun key =>
        root.getMergedBitmaps key depth).filterMap g.getBitmap) <->
      exists q, q ∈ keys ∧ exists t, text o = some t ∧
        exists key, key ∈ fieldKeys true t ∧ exists rest,
          DirIndex.splitPath key = DirIndex.splitPath q ++ rest ∧
            InDepth depth 0 rest := by
  have hbinds := h.bound root hroot
  rw [mem_unionAll]
  constructor
  · intro ho
    rcases ho with ⟨b, hb, hin⟩
    rcases List.mem_filterMap.mp hb with ⟨key, hkey, hget⟩
    rcases List.mem_flatMap.mp hkey with ⟨q, hq, hmerged⟩
    rcases hbinds.mem_getMergedBitmaps.mp hmerged with ⟨_, hbelow⟩
    have hbits : o ∈ g.bits key := by
      rw [bits, show g.bitmapGroup.find key = some b from hget]
      exact hin
    rcases (h.keys key o).mp hbits with ⟨t, ht, hmem⟩
    exact ⟨q, hq, t, ht, key, hmem, hbelow⟩
  · intro ho
    rcases ho with ⟨q, hq, t, ht, key, hmem, hbelow⟩
    have hbits := (h.keys key o).mpr ⟨t, ht, hmem⟩
    have hfind := find_ne_none_of_mem_bits hbits
    rcases Option.ne_none_iff_exists'.mp hfind with ⟨b, hb⟩
    refine ⟨b, ?_, ?_⟩
    · apply List.mem_filterMap.mpr
      refine ⟨key, ?_, hb⟩
      exact List.mem_flatMap.mpr
        ⟨q, hq, hbinds.mem_getMergedBitmaps.mpr ⟨hfind, hbelow⟩⟩
    · rw [bits, hb] at hbits
      exact hbits

end FieldBitmapGroup

/-!
# Operators
-/

namespace FieldBitmapGroupSet

variable {s : FieldBitmapGroupSet num} {items : Assoc Str FieldType}
  {rows : Nat -> FieldsDict num} {env : FilterEnv num}

theorem Exact.group_or_none (h : s.Exact items rows) (field : Str) :
    s.groups.find field = none ∨ exists t g, items.find field = some t ∧
      s.groups.find field = some g ∧
      g.Exact (decide (t = .path)) (rowTexts rows field)
        (rowNumbers rows field) := by
  cases hitem : items.find field with
  | none =>
    apply Or.inl
    apply h.other
    intro t ht
    rw [hitem] at ht
    cases ht
  | some t =>
    by_cases htype : t.getTypeId = .unknown
    · apply Or.inl
      apply h.other
      intro t' ht'
      rw [hitem] at ht'
      cases ht'
      exact htype
    · rcases h.group field t hitem htype with ⟨g, hfind, hg⟩
      exact .inr ⟨t, g, rfl, hfind, hg⟩

theorem Exact.mem_must (h : s.Exact items rows) {field : Str} {t : FieldType}
    (hitem : items.find field = some t) (htype : t.getTypeId ≠ .unknown)
    (hpath : t ≠ .path) {keys : List Str} {depth : Int} {o : Nat} :
    o ∈ (must field keys depth).own env s <->
      exists key, key ∈ keys ∧ exists fieldStr,
        rowTexts rows field o = some fieldStr ∧
          key ∈ FieldBitmapGroup.fieldKeys false fieldStr := by
  have hnot : s.isPathFieldName field = false := by
    cases hname : s.isPathFieldName field with
    | false => rfl
    | true =>
      have hitem' := (h.path field).mp hname
      rw [hitem] at hitem'
      exact absurd (Option.some.inj hitem') hpath
  rcases h.group field t hitem htype with ⟨g, hfind, hg⟩
  rw [decide_eq_false hpath] at hg
  rw [own, calcSelfBitmap, hnot, if_neg (by simp),
    mem_makeFieldCopy]
  have hkey : forall key, o ∈ (s.getBitmap field key).read <->
      exists fieldStr, rowTexts rows field o = some fieldStr ∧
        key ∈ FieldBitmapGroup.fieldKeys false fieldStr := by
    intro key
    rw [FieldBitmapGroupSet.getBitmap, hfind]
    exact hg.keys key o
  simp only [hkey]

/-- A root path among the values of an unlimited `must`. -/
def AsksRoot (keys : List Str) (depth : Int) : Prop :=
  depth = -1 ∧ exists key, key ∈ keys ∧ (key = ['/'] ∨ key = [])

/-- A `must` on a path field. -/
theorem Exact.mem_mustPath (h : s.Exact items rows) {field : Str}
    (hitem : items.find field = some .path) {keys : List Str} {depth : Int}
    {o : Nat} :
    o ∈ (must field keys depth).own env s <->
      (AsksRoot keys depth ∧ o < s.elementSize) ∨
        (¬ AsksRoot keys depth ∧ exists q, q ∈ keys ∧ exists fieldStr,
          rowTexts rows field o = some fieldStr ∧
          exists key, key ∈ FieldBitmapGroup.fieldKeys true fieldStr ∧
            exists rest,
              DirIndex.splitPath key = DirIndex.splitPath q ++ rest ∧
                InDepth depth 0 rest) := by
  rcases h.group field .path hitem (by decide) with ⟨g, hfind, hg⟩
  have hg' : g.Exact true (rowTexts rows field) (rowNumbers rows field) := hg
  rw [own, calcSelfBitmap, if_pos ((h.path field).mpr hitem),
    makePathFieldCopy, hfind]
  by_cases hroot : AsksRoot keys depth
  · simp only [AsksRoot] at hroot
    simp [hroot, AsksRoot, makeFullTemp]
  have hnot := hroot
  simp only [AsksRoot] at hnot
  simp only [if_neg hnot]
  cases hdir : g.dirIndex with
  | none =>
    have hsome := hg'.path
    rw [hdir] at hsome
    cases hsome
  | some root =>
    have hmerged := @FieldBitmapGroup.Exact.mem_merged _ _ _ _ _ hg' root
      hdir keys depth o
    simpa [hroot] using hmerged

theorem Exact.mem_range (h : s.Exact items rows) {field : Str} {t : FieldType}
    (hitem : items.find field = some t) (htype : t.getTypeId ≠ .unknown)
    {rangeOut : Bool} {lt gt : num} {le ge : Bool} {o : Nat} :
    o ∈ (range rangeOut field lt le gt ge).own env s <->
      exists v, rowNumbers rows field o = some v ∧
        InRange rangeOut lt le gt ge v := by
  rcases h.group field t hitem htype with ⟨g, hfind, hg⟩
  rw [own, calcSelfBitmap, makeRangeCopy, hfind]
  exact hg.mem_range

/-- A field operator that looks for texts or numbers of its field, and does
not ask for the root of a path field. -/
def LooksUp (s : FieldBitmapGroupSet num) : FilterOp num -> Prop
  | .must field keys depth =>
    s.isPathFieldName field = true -> ¬ AsksRoot keys depth
  | .range _ _ _ _ _ _ => True
  | .prefixOp _ _ => True
  | .containsOp _ _ => True
  | .regexOp _ _ => True
  | _ => False

/-- Only an offset whose row has some field is looked up. -/
theorem Exact.row_of_looksUp (h : s.Exact items rows) {op : FilterOp num}
    (hop : s.LooksUp op) {o : Nat} (ho : o ∈ op.own env s) :
    exists field, rowTexts rows field o ≠ none ∨
      rowNumbers rows field o ≠ none := by
  have hwhere : forall field (test : FieldBitmapGroup num -> Str -> Bool),
      o ∈ BitmapPtr.read ((s.groups.find field).bind fun g =>
        g.getBitmapWhere (test g)) ->
      rowTexts rows field o ≠ none := by
    intro field test hin
    rcases h.group_or_none field with hnone | ⟨t, g, _, hfind, hg⟩
    · rw [hnone] at hin
      cases hin
    · rw [hfind] at hin
      exact hg.text_of_mem_where hin
  cases op with
  | must field keys depth =>
    rcases h.group_or_none field with hnone | ⟨t, g, hitem, hfind, hg⟩
    · have hempty : forall key, s.getBitmap field key = none := by
        intro key
        rw [getBitmap, hnone]
        rfl
      rw [own, calcSelfBitmap] at ho
      split at ho
      next =>
        rw [makePathFieldCopy, hnone] at ho
        cases ho
      next =>
        rcases (mem_makeFieldCopy s field keys o).mp ho with ⟨key, _, hin⟩
        rw [hempty] at hin
        cases hin
    · have htype : t.getTypeId ≠ .unknown := by
        intro hunknown
        have hnone := h.other field (fun t' ht' => by
          rw [hitem] at ht'
          cases ht'
          exact hunknown)
        rw [hfind] at hnone
        cases hnone
      by_cases hpath : t = .path
      · rw [hpath] at hitem
        rcases h.mem_mustPath hitem |>.mp ho with ⟨hroot, _⟩ |
          ⟨_, q, _, fieldStr, htext, _⟩
        · exact absurd hroot (hop ((h.path field).mpr hitem))
        · refine ⟨field, .inl ?_⟩
          rw [htext]
          exact Option.some_ne_none fieldStr
      · rcases (h.mem_must hitem htype hpath).mp ho with
          ⟨key, _, fieldStr, htext, _⟩
        refine ⟨field, .inl ?_⟩
        rw [htext]
        exact Option.some_ne_none fieldStr
  | range rangeOut field lt le gt ge =>
    rcases h.group_or_none field with hnone | ⟨t, g, _, hfind, hg⟩
    · rw [own, calcSelfBitmap, makeRangeCopy, hnone] at ho
      cases ho
    · rw [own, calcSelfBitmap, makeRangeCopy, hfind] at ho
      rcases hg.mem_range.mp ho with ⟨v, hv, _⟩
      refine ⟨field, .inr ?_⟩
      rw [hv]
      exact Option.some_ne_none v
  | prefixOp field prefixValue =>
    exact ⟨field, .inl (hwhere field _ ho)⟩
  | containsOp field substringValue =>
    exact ⟨field, .inl (hwhere field _ ho)⟩
  | regexOp field patternValue =>
    rcases h.group_or_none field with hnone | ⟨t, g, _, hfind, hg⟩
    · rw [own, calcSelfBitmap, makeFieldRegexCopy, hnone] at ho
      cases ho
    rw [own, calcSelfBitmap, makeFieldRegexCopy, hfind] at ho
    change o ∈ (g.getBitmapByRegex env.regex patternValue).read at ho
    rw [FieldBitmapGroup.getBitmapByRegex] at ho
    split at ho
    next => cases ho
    next =>
      split at ho
      next => cases ho
      next =>
        split at ho
        next => exact ⟨field, .inl (hg.text_of_mem_where ho)⟩
        next => cases ho
  | _ => exact absurd hop id

end FieldBitmapGroupSet

end Scalar
end OpenViking
