import OpenViking.Scalar.FilterOps

/-!
# What filters mean

The bitmap of a logic operator is compared with the intersection or the union
of the bitmaps its operands have of their own, for every order of the operands
and in every group set.  The loop of an `or` forgets its result at an operand
without a value, and a `must_not` behind another operand of an `and` reads its
values as exact keys, so the comparison holds under conditions on the operands
and on what the group set stores under the keys and below the paths.
-/

namespace OpenViking
namespace Scalar

open Paths List MustNotOp

variable {num : Type} [LinearOrder num]

namespace FieldBitmapGroupSet

/-- An offset is stored under one of the keys themselves. -/
def UnderKey (s : FieldBitmapGroupSet num) (field : Str) (keys : List Str)
    (o : Nat) : Prop :=
  exists key, key ∈ keys ∧ o ∈ (s.getBitmap field key).read

/-- An offset is stored below one of the paths, down to the depth. -/
def BelowPath (s : FieldBitmapGroupSet num) (field : Str) (keys : List Str)
    (depth : Int) (o : Nat) : Prop :=
  o ∈ (s.makePathFieldCopy field keys depth).read

omit [LinearOrder num] in
theorem mem_makeFieldCopy (s : FieldBitmapGroupSet num) (field : Str)
    (keys : List Str) (o : Nat) :
    o ∈ (s.makeFieldCopy field keys).read <->
      exists key, key ∈ keys ∧ o ∈ (s.getBitmap field key).read := by
  match keys with
  | [] => simp [makeFieldCopy]
  | [key] => simp [makeFieldCopy]
  | first :: next :: rest =>
    show o ∈ unionAll ((first :: next :: rest).filterMap
      (s.getBitmap field)) <-> _
    rw [mem_unionAll]
    constructor
    · intro ho
      rcases ho with ⟨b, hb, hin⟩
      rcases mem_filterMap.mp hb with ⟨key, hkey, hget⟩
      refine ⟨key, hkey, ?_⟩
      rw [hget]
      exact hin
    · intro ho
      rcases ho with ⟨key, hkey, hin⟩
      cases hget : s.getBitmap field key with
      | none =>
        rw [hget] at hin
        cases hin
      | some b =>
        rw [hget] at hin
        exact ⟨b, mem_filterMap.mpr ⟨key, hkey, hget⟩, hin⟩

end FieldBitmapGroupSet

open FieldBitmapGroupSet

namespace FilterOp

/-- The offsets an operator selects of its own. -/
def own (env : FilterEnv num) (s : FieldBitmapGroupSet num)
    (op : FilterOp num) : Bitmap :=
  (op.calcSelfBitmap env s).read

/-- A field operator that was loaded without a value to look for. -/
def Valueless : FilterOp num -> Prop
  | .must _ typeConds _ => typeConds = []
  | .labelIn labels => labels = []
  | .prefixOp _ prefixValue => prefixValue = []
  | .containsOp _ substringValue => substringValue = []
  | .regexOp _ patternValue => patternValue = []
  | _ => False

/-- An operator selects an offset, a `must_not` by the keys themselves. -/
def SelectsByKey (env : FilterEnv num) (s : FieldBitmapGroupSet num)
    (op : FilterOp num) (o : Nat) : Prop :=
  match op with
  | .mustNot field typeConds _ => ¬ s.UnderKey field typeConds o
  | op => o ∈ op.own env s

end FilterOp

/-- What an `and` or an `or` of operands should select. -/
def Selected (env : FilterEnv num) (s : FieldBitmapGroupSet num) (op : ResOp)
    (conds : List (FilterOp num)) (o : Nat) : Prop :=
  match op with
  | .and => forall c, c ∈ conds -> o ∈ c.own env s
  | .or => exists c, c ∈ conds ∧ o ∈ c.own env s
  | .other => False

/-- Whatever the order of its operands, a logic operator selects what it
should. -/
def Combines (env : FilterEnv num) (s : FieldBitmapGroupSet num) (op : ResOp)
    (conds : List (FilterOp num)) : Prop :=
  forall conds', conds'.Perm conds -> forall o,
    o ∈ (FilterOp.logic op false conds').own env s <->
      Selected env s op conds o

/-- A `must_not` excludes what the `must` of the same values selects, alone and
folded into any result of an `and`. -/
def Excludes (env : FilterEnv num) (s : FieldBitmapGroupSet num)
    (field : Str) (typeConds : List Str) (depth : Int) : Prop :=
  (FilterOp.mustNot field typeConds depth).own env s =
      s.makeFullTemp \ (FilterOp.must field typeConds depth).own env s ∧
    forall p, (FilterOp.mustNot field typeConds depth).calcBitmap env s
        (some p) .and =
      some (p \ (FilterOp.must field typeConds depth).own env s)

/-!
# One operand
-/

variable {env : FilterEnv num} {s : FieldBitmapGroupSet num}

theorem read_combine_and (self : BitmapPtr) (p : Bitmap) :
    (combine self (some p) .and).read = p ∩ self.read := by
  cases self with
  | none => exact (Finset.inter_empty p).symm
  | some t => rfl

theorem read_combine_or (self pres : BitmapPtr) :
    (combine self pres .or).read = pres.read ∪ self.read := by
  cases pres with
  | none => exact (Finset.empty_union self.read).symm
  | some p =>
    cases self with
    | none => exact (Finset.union_empty p).symm
    | some t => rfl

omit [LinearOrder num] in
theorem MustNotOp.read_combine_or (field : Str) (typeConds : List Str)
    (t : Bitmap) (pres : BitmapPtr) :
    (combine s field typeConds (some t) pres .or).read =
      pres.read ∪ t := by
  cases pres with
  | none => exact (Finset.empty_union t).symm
  | some p => rfl

omit [LinearOrder num] in
theorem MustNotOp.mem_excluded (field : Str) (typeConds : List Str)
    (o : Nat) :
    o ∈ excluded s field typeConds <-> s.UnderKey field typeConds o := by
  rw [UnderKey, ← mem_makeFieldCopy]
  match typeConds with
  | [] => rfl
  | [key] => rfl
  | key :: next :: rest => rfl

theorem FilterOp.own_mustNot (field : Str) (typeConds : List Str)
    (depth : Int) :
    (FilterOp.mustNot field typeConds depth).own env s =
      s.makeFullTemp \ (FilterOp.must field typeConds depth).own env s := by
  rw [FilterOp.own, FilterOp.own, FilterOp.calcSelfBitmap,
    FilterOp.calcSelfBitmap]
  split
  · rfl
  · match typeConds with
    | [] => exact (Finset.sdiff_empty).symm
    | [key] => rfl
    | key :: next :: rest => rfl

theorem FilterOp.mem_own_must (field : Str) (typeConds : List Str)
    (depth : Int) (o : Nat) :
    o ∈ (FilterOp.must field typeConds depth).own env s <->
      if s.isPathFieldName field then s.BelowPath field typeConds depth o
      else s.UnderKey field typeConds o := by
  rw [FilterOp.own, FilterOp.calcSelfBitmap]
  split
  · rfl
  · exact mem_makeFieldCopy s field typeConds o

theorem FilterOp.mem_own_mustNot (field : Str) (typeConds : List Str)
    (depth : Int) (o : Nat) :
    o ∈ (FilterOp.mustNot field typeConds depth).own env s <->
      o < s.elementSize ∧
        ¬ if s.isPathFieldName field then s.BelowPath field typeConds depth o
          else s.UnderKey field typeConds o := by
  rw [FilterOp.own_mustNot, Finset.mem_sdiff, FilterOp.mem_own_must,
    makeFullTemp, Finset.mem_range]

variable {op : FilterOp num}

omit [LinearOrder num] in
theorem FilterOp.calcWith_valueless (h : op.Valueless)
    (self pres : BitmapPtr) (onResOp : ResOp) :
    op.calcWith s self pres onResOp = none := by
  cases op with
  | logic op ignore conds => exact absurd h id
  | mustNot field typeConds depth => exact absurd h id
  | range rangeOut field lt le gt ge => exact absurd h id
  | geoRange field0 field1 x y radius => exact absurd h id
  | _ => exact if_pos h

omit [LinearOrder num] in
theorem FilterOp.calcWith_valued (h : ¬ op.Valueless)
    (self pres : BitmapPtr) (onResOp : ResOp) :
    op.calcWith s self pres onResOp =
      match op with
      | .mustNot field typeConds _ =>
        MustNotOp.combine s field typeConds self pres onResOp
      | _ => combine self pres onResOp := by
  cases op with
  | logic op ignore conds => rfl
  | mustNot field typeConds depth => rfl
  | range rangeOut field lt le gt ge => rfl
  | geoRange field0 field1 x y radius => rfl
  | _ => exact if_neg h

theorem FilterOp.calcSelf_mustNot (field : Str) (typeConds : List Str)
    (depth : Int) :
    (FilterOp.mustNot field typeConds depth).calcSelfBitmap env s =
      some ((FilterOp.mustNot field typeConds depth).own env s) := by
  rw [FilterOp.own, FilterOp.calcSelfBitmap]
  split
  · rfl
  · rfl

theorem FilterOp.calcBitmap_none (h : ¬ op.Valueless)
    (onResOp : ResOp) :
    op.calcBitmap env s none onResOp = op.calcSelfBitmap env s := by
  rw [FilterOp.calcBitmap, FilterOp.calcWith_valued h]
  cases op with
  | _ => rfl

theorem FilterOp.mem_calcBitmap_and (p : Bitmap)
    (o : Nat) :
    o ∈ (op.calcBitmap env s (some p) .and).read <->
      o ∈ p ∧ ¬ op.Valueless ∧ op.SelectsByKey env s o := by
  rw [FilterOp.calcBitmap]
  by_cases hvalue : op.Valueless
  · rw [FilterOp.calcWith_valueless hvalue]
    simp [hvalue]
  rw [FilterOp.calcWith_valued hvalue]
  cases op with
  | mustNot field typeConds depth =>
    show o ∈ p \ excluded s field typeConds <-> _
    rw [Finset.mem_sdiff, mem_excluded]
    simp [hvalue, FilterOp.SelectsByKey]
  | _ =>
    rw [read_combine_and, Finset.mem_inter]
    simp only [hvalue, not_false_eq_true, true_and]
    rfl

theorem FilterOp.mem_calcBitmap_or (h : ¬ op.Valueless)
    (pres : BitmapPtr) (o : Nat) :
    o ∈ (op.calcBitmap env s pres .or).read <->
      o ∈ pres.read ∨ o ∈ op.own env s := by
  rw [FilterOp.calcBitmap, FilterOp.calcWith_valued h]
  cases op with
  | mustNot field typeConds depth =>
    rw [FilterOp.calcSelf_mustNot, MustNotOp.read_combine_or, Finset.mem_union]
  | _ =>
    rw [read_combine_or, Finset.mem_union]
    rfl

/-!
# The loops
-/

theorem calcConds_or_cons (pres : BitmapPtr) (c : FilterOp num)
    (rest : List (FilterOp num)) :
    calcConds env s .or pres (c :: rest) =
      calcConds env s .or (c.calcBitmap env s pres .or) rest := by
  rw [calcConds, FilterOp.calcBitmap]
  cases c.calcWith s (c.calcSelfBitmap env s) pres .or with
  | none => rfl
  | some p => rfl

theorem calcConds_or_append (pres : BitmapPtr)
    (xs ys : List (FilterOp num)) :
    calcConds env s .or pres (xs ++ ys) =
      calcConds env s .or (calcConds env s .or pres xs) ys := by
  induction xs generalizing pres with
  | nil => rfl
  | cons c rest ih =>
    rw [cons_append, calcConds_or_cons, calcConds_or_cons, ih]

variable {conds : List (FilterOp num)}

theorem mem_of_mem_calcConds_or {pres : BitmapPtr} {o : Nat}
    (h : o ∈ (calcConds env s .or pres conds).read) :
    o ∈ pres.read ∨ exists c, c ∈ conds ∧ o ∈ c.own env s := by
  induction conds generalizing pres with
  | nil => exact .inl h
  | cons c rest ih =>
    rw [calcConds_or_cons] at h
    rcases ih h with hpres | ⟨d, hd, ho⟩
    · by_cases hvalue : c.Valueless
      · rw [FilterOp.calcBitmap, FilterOp.calcWith_valueless hvalue] at hpres
        cases hpres
      · rcases (FilterOp.mem_calcBitmap_or hvalue pres o).mp hpres with
          hpres | hown
        · exact .inl hpres
        · exact .inr ⟨c, mem_cons_self, hown⟩
    · exact .inr ⟨d, mem_cons_of_mem _ hd, ho⟩

theorem mem_calcConds_or
    (h : forall c, c ∈ conds -> ¬ c.Valueless) (pres : BitmapPtr) (o : Nat) :
    o ∈ (calcConds env s .or pres conds).read <->
      o ∈ pres.read ∨ exists c, c ∈ conds ∧ o ∈ c.own env s := by
  induction conds generalizing pres with
  | nil => simp [calcConds]
  | cons c rest ih =>
    have hstep := @FilterOp.mem_calcBitmap_or _ _ env s c
      (h c mem_cons_self) pres o
    have hrest : forall d, d ∈ rest -> ¬ d.Valueless :=
      fun d hd => h d (mem_cons_of_mem _ hd)
    rw [calcConds_or_cons, ih hrest, hstep]
    simp only [mem_cons, exists_eq_or_imp, or_assoc]

theorem mem_calcConds_and (p : Bitmap) (conds : List (FilterOp num))
    (o : Nat) :
    o ∈ (calcConds env s .and (some p) conds).read <->
      o ∈ p ∧ forall c, c ∈ conds -> ¬ c.Valueless ∧ c.SelectsByKey env s o := by
  induction conds generalizing p with
  | nil => simp [calcConds]
  | cons c rest ih =>
    have hstep := @FilterOp.mem_calcBitmap_and _ _ env s c p o
    have hloop : calcConds env s .and (some p) (c :: rest) =
        (c.calcBitmap env s (some p) .and).bind fun q =>
          calcConds env s .and (some q) rest := by
      rw [calcConds, FilterOp.calcBitmap]
      cases c.calcWith s (c.calcSelfBitmap env s) (some p) .and with
      | none => rfl
      | some q => rfl
    rw [hloop, forall_mem_cons, ← and_assoc, ← hstep]
    cases c.calcBitmap env s (some p) .and with
    | none => simp
    | some q => exact ih q

theorem mem_own_and (c : FilterOp num) (rest : List (FilterOp num))
    (o : Nat) :
    o ∈ (FilterOp.logic .and false (c :: rest)).own env s <->
      (¬ c.Valueless ∧ o ∈ c.own env s) ∧
        forall d, d ∈ rest -> ¬ d.Valueless ∧ d.SelectsByKey env s o := by
  rw [FilterOp.own, FilterOp.calcSelfBitmap, if_neg (by simp), calcConds]
  by_cases hvalue : c.Valueless
  · rw [FilterOp.calcWith_valueless hvalue]
    simp [hvalue]
  have hfirst := @FilterOp.calcBitmap_none _ _ env s c hvalue .and
  rw [FilterOp.calcBitmap] at hfirst
  rw [hfirst, FilterOp.own]
  cases c.calcSelfBitmap env s with
  | none => simp
  | some p =>
    show o ∈ (calcConds env s .and (some p) rest).read <-> _
    rw [mem_calcConds_and]
    simp [hvalue]

/-!
# Conditions
-/

/-- No operand of the `or` is without a value, or none selects anything. -/
def OrKeeps (env : FilterEnv num) (s : FieldBitmapGroupSet num)
    (conds : List (FilterOp num)) : Prop :=
  (exists c, c ∈ conds ∧ c.Valueless) ->
    forall c, c ∈ conds -> c.own env s = ∅

/-- For the `must_not` operands on path fields the keys and the subtrees agree
at an offset: one that every operand selects by key is a row outside the
subtrees, and one that every operand selects is under none of the keys. -/
structure KeysAgree (env : FilterEnv num) (s : FieldBitmapGroupSet num)
    (conds : List (FilterOp num)) (o : Nat) : Prop where
  rows : (forall d, d ∈ conds -> d.SelectsByKey env s o) ->
    forall field typeConds depth,
      FilterOp.mustNot field typeConds depth ∈ conds ->
        o < s.elementSize ∧ (s.isPathFieldName field = true ->
          ¬ s.BelowPath field typeConds depth o)
  keys : (forall d, d ∈ conds -> o ∈ d.own env s) ->
    forall field typeConds depth,
      FilterOp.mustNot field typeConds depth ∈ conds ->
        s.isPathFieldName field = true -> ¬ s.UnderKey field typeConds o

/-- An operand without a value stands only beside operands that select nothing
in common; otherwise, whichever operand comes first, the keys and the subtrees
of the others agree at what it selects. -/
structure AndKeeps (env : FilterEnv num) (s : FieldBitmapGroupSet num)
    (conds : List (FilterOp num)) : Prop where
  nonempty : conds ≠ []
  valueless : (exists c, c ∈ conds ∧ c.Valueless) ->
    forall o, ¬ forall c, c ∈ conds -> o ∈ c.own env s
  valued : (forall c, c ∈ conds -> ¬ c.Valueless) ->
    forall before c after, conds = before ++ c :: after ->
      forall o, o ∈ c.own env s -> KeysAgree env s (before ++ after) o

theorem keysAgree_iff (conds : List (FilterOp num)) (o : Nat) :
    KeysAgree env s conds o <->
      ((forall d, d ∈ conds -> d.SelectsByKey env s o) <->
        forall d, d ∈ conds -> o ∈ d.own env s) := by
  constructor
  · intro h
    constructor
    · intro hkeys d hd
      have hkey := hkeys d hd
      cases d with
      | mustNot field typeConds depth =>
        have hrow := h.rows hkeys field typeConds depth hd
        rw [FilterOp.mem_own_mustNot]
        refine ⟨hrow.1, ?_⟩
        split
        · exact hrow.2 ‹_›
        · exact hkey
      | _ => exact hkey
    · intro hown d hd
      have hselected := hown d hd
      cases d with
      | mustNot field typeConds depth =>
        rw [FilterOp.mem_own_mustNot] at hselected
        by_cases hpath : s.isPathFieldName field = true
        · exact h.keys hown field typeConds depth hd hpath
        · rw [if_neg hpath] at hselected
          exact hselected.2
      | _ => exact hselected
  · intro h
    constructor
    · intro hkeys field typeConds depth hd
      have hselected := h.mp hkeys _ hd
      rw [FilterOp.mem_own_mustNot] at hselected
      refine ⟨hselected.1, ?_⟩
      intro hpath
      rw [if_pos hpath] at hselected
      exact hselected.2
    · intro hown field typeConds depth hd _
      exact h.mpr hown _ hd

theorem combines_or_iff (conds : List (FilterOp num)) :
    Combines env s .or conds <-> OrKeeps env s conds := by
  have hown : forall conds' : List (FilterOp num),
      (FilterOp.logic .or false conds').own env s =
        (calcConds env s .or none conds').read := by
    intro conds'
    rw [FilterOp.own, FilterOp.calcSelfBitmap, if_neg (by simp)]
  constructor
  · intro h hvalueless
    rcases hvalueless with ⟨c, hc, hvalue⟩
    intro d hd
    apply Finset.eq_empty_of_forall_notMem
    intro o ho
    rcases append_of_mem hc with ⟨before, after, hsplit⟩
    have hperm : ((before ++ after) ++ [c]).Perm conds := by
      rw [hsplit]
      exact (perm_append_singleton c _).trans perm_middle.symm
    have hlast : calcConds env s .or none ((before ++ after) ++ [c]) = none := by
      rw [calcConds_or_append, calcConds_or_cons, FilterOp.calcBitmap,
        FilterOp.calcWith_valueless hvalue, calcConds]
    have hmem := (h _ hperm o).mpr ⟨d, hd, ho⟩
    rw [hown, hlast] at hmem
    cases hmem
  · intro h conds' hperm o
    rw [hown]
    by_cases hvalueless : exists c, c ∈ conds ∧ c.Valueless
    · have hempty := h hvalueless
      constructor
      · intro ho
        rcases mem_of_mem_calcConds_or ho with hnone | ⟨c, hc, ho⟩
        · cases hnone
        · exact ⟨c, hperm.mem_iff.mp hc, ho⟩
      · intro ho
        rcases ho with ⟨c, hc, ho⟩
        rw [hempty c hc] at ho
        cases ho
    · have hvalued : forall c, c ∈ conds' -> ¬ c.Valueless := by
        intro c hc hvalue
        exact hvalueless ⟨c, hperm.mem_iff.mp hc, hvalue⟩
      rw [mem_calcConds_or hvalued]
      constructor
      · intro ho
        rcases ho with hnone | ⟨c, hc, ho⟩
        · cases hnone
        · exact ⟨c, hperm.mem_iff.mp hc, ho⟩
      · intro ho
        rcases ho with ⟨c, hc, ho⟩
        exact .inr ⟨c, hperm.mem_iff.mpr hc, ho⟩

theorem combines_and_iff (conds : List (FilterOp num)) :
    Combines env s .and conds <-> AndKeeps env s conds := by
  constructor
  · intro h
    refine ⟨?_, ?_, ?_⟩
    · intro hnil
      rw [hnil] at h
      have hmem := (h [] (List.Perm.refl _) 0).mpr
        (fun c hc => absurd hc not_mem_nil)
      rw [FilterOp.own, FilterOp.calcSelfBitmap, if_neg (by simp),
        calcConds] at hmem
      cases hmem
    · intro hvalueless o hall
      rcases hvalueless with ⟨c, hc, hvalue⟩
      have hmem := (h conds (List.Perm.refl _) o).mpr hall
      cases hconds : conds with
      | nil =>
        rw [hconds] at hc
        cases hc
      | cons first rest =>
        rw [hconds, mem_own_and] at hmem
        rw [hconds] at hc
        rcases mem_cons.mp hc with heq | hrest
        · rw [heq] at hvalue
          exact hmem.1.1 hvalue
        · exact (hmem.2 c hrest).1 hvalue
    · intro hvalued before c after hsplit o ho
      have hperm : (c :: (before ++ after)).Perm conds := by
        rw [hsplit]
        exact perm_middle.symm
      have hvaluedRest : forall d, d ∈ before ++ after -> ¬ d.Valueless :=
        fun d hd => hvalued d (hperm.mem_iff.mp (mem_cons_of_mem _ hd))
      have hmem := h _ hperm o
      rw [mem_own_and] at hmem
      rw [keysAgree_iff]
      constructor
      · intro hlets d hd
        exact hmem.mp ⟨⟨hvalued c (hperm.mem_iff.mp mem_cons_self), ho⟩,
          fun e he => ⟨hvaluedRest e he, hlets e he⟩⟩ d
          (hperm.mem_iff.mp (mem_cons_of_mem _ hd))
      intro hall d hd
      have hselected : Selected env s .and conds o := by
        intro e he
        rcases mem_cons.mp (hperm.mem_iff.mpr he) with heq | hrest
        · rw [heq]
          exact ho
        · exact hall e hrest
      exact ((hmem.mpr hselected).2 d hd).2
  · intro h conds' hperm o
    cases conds' with
    | nil => exact absurd hperm.symm.eq_nil h.nonempty
    | cons c rest =>
      rw [mem_own_and]
      by_cases hvalueless : exists d, d ∈ conds ∧ d.Valueless
      · constructor
        · intro ho
          rcases hvalueless with ⟨d, hd, hvalue⟩
          rcases mem_cons.mp (hperm.mem_iff.mpr hd) with heq | hrest
          · rw [heq] at hvalue
            exact absurd hvalue ho.1.1
          · exact absurd hvalue (ho.2 d hrest).1
        · intro hall
          exact absurd hall (h.valueless hvalueless o)
      · have hvalued : forall d, d ∈ conds -> ¬ d.Valueless :=
          fun d hd hvalue => hvalueless ⟨d, hd, hvalue⟩
        rcases append_of_mem (hperm.mem_iff.mp mem_cons_self) with
          ⟨before, after, hsplit⟩
        have hrest : rest.Perm (before ++ after) := by
          rw [hsplit] at hperm
          exact (hperm.trans perm_middle).cons_inv
        have hlets := fun ho =>
          (keysAgree_iff (before ++ after) o).mp
            (h.valued hvalued before c after hsplit o ho)
        constructor
        · intro ho d hd
          rcases mem_cons.mp (hperm.mem_iff.mpr hd) with heq | hmem
          · rw [heq]
            exact ho.1.2
          · exact (hlets ho.1.2).mp
              (fun e he => (ho.2 e (hrest.mem_iff.mpr he)).2) d
              (hrest.mem_iff.mp hmem)
        · intro hall
          have hc := hperm.mem_iff.mp (mem_cons_self (a := c) (l := rest))
          refine ⟨⟨hvalued c hc, hall c hc⟩, ?_⟩
          intro d hd
          have hd' := hperm.mem_iff.mp (mem_cons_of_mem c hd)
          refine ⟨hvalued d hd', ?_⟩
          apply (hlets (hall c hc)).mpr _ d (hrest.mem_iff.mp hd)
          intro e he
          exact hall e (hperm.mem_iff.mp
            (mem_cons_of_mem c (hrest.mem_iff.mpr he)))

theorem excludes_iff (field : Str) (typeConds : List Str) (depth : Int) :
    Excludes env s field typeConds depth <->
      (s.isPathFieldName field = true -> forall o,
        s.UnderKey field typeConds o <->
          s.BelowPath field typeConds depth o) := by
  have hfold : forall p, (FilterOp.mustNot field typeConds depth).calcBitmap
      env s (some p) .and =
        some (p \ excluded s field typeConds) := fun p => rfl
  constructor
  · intro h hpath o
    have hat := Option.some.inj ((hfold {o}).symm.trans (h.2 {o}))
    have hmem := congrArg (fun b => o ∈ b) hat
    simp only [Finset.mem_sdiff, Finset.mem_singleton, true_and, eq_iff_iff,
      not_iff_not, mem_excluded, FilterOp.mem_own_must, hpath, if_true] at hmem
    exact hmem
  · intro h
    refine ⟨FilterOp.own_mustNot field typeConds depth, ?_⟩
    intro p
    have hexcluded : excluded s field typeConds =
        (FilterOp.must field typeConds depth).own env s := by
      ext o
      rw [mem_excluded, FilterOp.mem_own_must]
      split
      · exact h ‹_› o
      · rfl
    rw [hfold, hexcluded]

/-- Exactly when a filter means what it says: the operands of a logic operator
combine in every order, and a `must_not` excludes what the `must` selects. -/
theorem filters_mean_iff (env : FilterEnv num) (s : FieldBitmapGroupSet num) :
    (forall conds, Combines env s .or conds <-> OrKeeps env s conds) ∧
    (forall conds, Combines env s .and conds <-> AndKeeps env s conds) ∧
    (forall field typeConds depth, Excludes env s field typeConds depth <->
      (s.isPathFieldName field = true -> forall o,
        s.UnderKey field typeConds o <->
          s.BelowPath field typeConds depth o)) :=
  ⟨combines_or_iff, combines_and_iff, excludes_iff⟩

/-!
# Two filters that do not
-/

/-- Distances of integers, no regular expressions and no labels. -/
def plainEnv : FilterEnv Int where
  arith := ⟨0, fun a b => a + b, fun a b => a - b, fun a b => a * b⟩
  regex := fun _ => none
  convert := fun _ => none

/-- A tag and a path field with one row. -/
def taggedSet : FieldBitmapGroupSet Int :=
  (((FieldBitmapGroupSet.empty.addFieldGroup ['t'] (.new .bitmaps)).2
    |>.addFieldGroup ['p'] (.new .dir)).2).addFieldStrs
      [(['t'], ['x']), (['p'], ['a', '/', 'b'])] 0

/-- An `or` forgets its result at an operand without a value, and a `must_not`
behind another operand keeps the offsets below its path. -/
theorem or_forgets_and_mustNot_keeps :
    ¬ Combines plainEnv taggedSet .or
        [.must ['t'] [['x']] (-1), .must ['t'] [] (-1)] ∧
      ¬ Combines plainEnv taggedSet .and
        [.must ['t'] [['x']] (-1), .mustNot ['p'] [['a']] (-1)] ∧
      ¬ Excludes plainEnv taggedSet ['p'] [['a']] (-1) := by
  refine ⟨?_, ?_, ?_⟩
  · intro h
    have hat := (h _ (List.Perm.refl _) 0).mpr
      ⟨_, List.mem_cons_self, by decide +kernel⟩
    exact absurd hat (by decide +kernel)
  · intro h
    have hat := (h _ (List.Perm.refl _) 0).mp (by decide +kernel)
      (.mustNot ['p'] [['a']] (-1)) (by simp)
    exact absurd hat (by decide +kernel)
  · intro h
    have hat := h.2 {0}
    exact absurd hat (by decide +kernel)

end Scalar
end OpenViking
