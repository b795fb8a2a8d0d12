import Mathlib.Data.List.TakeWhile
import OpenViking.Scalar.FieldGroupCorrect

/-!
# Typed documents

A document gives the declared fields values of their types.  As long as its
texts hold no semicolon and no NUL, the keys of a field are the texts of what
the field holds, and one key is looked up for one value.
-/

namespace OpenViking
namespace Scalar

open Paths List JsonElem

variable {num : Type}

/-!
# Texts of values
-/

theorem isDigit_of_mem_toDigits {n : Nat} {c : Char}
    (h : c ∈ Nat.toDigits 10 n) : c.isDigit = true :=
  Nat.isDigit_of_mem_toDigits (by decide) (by decide) h

theorem intText_injective {i j : Int} (h : intText i = intText j) : i = j := by
  have hnat : forall m n : Nat, Nat.toDigits 10 m = Nat.toDigits 10 n ->
      m = n := by
    intro m n hmn
    have hback := congrArg (fun cs => Nat.ofDigitChars 10 cs 0) hmn
    simpa only [Nat.ofDigitChars_ten_toDigits] using hback
  have hsign : forall m n : Nat,
      '-' :: Nat.toDigits 10 m ≠ Nat.toDigits 10 n := by
    intro m n hmn
    have hdigit : ('-' : Char).isDigit = true := by
      apply @isDigit_of_mem_toDigits n
      rw [← hmn]
      exact mem_cons_self
    exact absurd hdigit (by decide)
  rw [intText, intText] at h
  split at h
  next hi =>
    split at h
    next hj =>
      have habs := hnat _ _ (cons.inj h).2
      omega
    next => exact absurd h (hsign _ _)
  next hi =>
    split at h
    next => exact absurd h.symm (hsign _ _)
    next hj =>
      have habs := hnat _ _ h
      omega

theorem intText_ne_nil (i : Int) : intText i ≠ [] := by
  rw [intText]
  split
  · exact cons_ne_nil _ _
  · exact Nat.toDigits_ne_nil

theorem notMem_intText {i : Int} {c : Char} (hdigit : c.isDigit = false)
    (hsign : c ≠ '-') : c ∉ intText i := by
  have hnot : forall n, c ∉ Nat.toDigits 10 n := by
    intro n hmem
    rw [isDigit_of_mem_toDigits hmem] at hdigit
    cases hdigit
  rw [intText]
  split
  · rw [mem_cons, not_or]
    exact ⟨hsign, hnot _⟩
  · exact hnot _

/-- A text that is stored as it is. -/
def PlainText (s : Str) : Prop :=
  ';' ∉ s ∧ Char.ofNat 0 ∉ s

instance (s : Str) : Decidable (PlainText s) := by
  unfold PlainText
  infer_instance

theorem cString_of_notMem {s : Str} (h : Char.ofNat 0 ∉ s) : cString s = s := by
  rw [cString, takeWhile_eq_self_iff]
  intro c hc
  rw [decide_eq_true_eq]
  intro heq
  rw [heq] at hc
  exact h hc

/-!
# Values
-/

/-- A value of a condition in a filter. -/
inductive Cond where
  | int64 (i : Int)
  | string (s : Str)
  | bool (b : Bool)
deriving DecidableEq

/-- The text a condition is compared by. -/
def Cond.text : Cond -> Str
  | .int64 i => intText i
  | .string s => s
  | .bool b => boolText b

/-- A condition is a value of the type, or of the elements of a list. -/
def Cond.Fits : FieldType -> Cond -> Prop
  | .int64, .int64 _ => True
  | .string, .string s => s ≠ []
  | .bool, .bool _ => True
  | .listString, .string s => s ≠ []
  | .listInt64, .int64 _ => True
  | _, _ => False

/-- A value equals the condition, or is a list that contains it. -/
def Json.Matches : Json -> Cond -> Prop
  | .int64 i, c => c = .int64 i
  | .string s, c => c = .string s
  | .bool b, c => c = .bool b
  | .array elems, .int64 i => .int64 i ∈ elems
  | .array elems, .string s => .string s ∈ elems
  | _, _ => False

/-- The text an element of a list stands for. -/
def JsonElem.spelled : JsonElem -> Str
  | .int64 i => intText i
  | .string s => s
  | .other => []

/-- The texts a value holds: that of a scalar, and those of the elements of a
list. -/
def Json.texts : Json -> List Str
  | .int64 i => [intText i]
  | .string s => [s]
  | .bool b => [boolText b]
  | .array elems => elems.map JsonElem.spelled
  | _ => []

/-- The number of a value. -/
def Json.number (reader : NumberReader num) : Json -> Option num
  | .int64 i => some (reader.toDouble i)
  | .double text => some (reader.getDouble text)
  | _ => none

theorem flatten_number (reader : NumberReader num) (v : Json) :
    (FieldsDict.flatten reader v).2 = v.number reader := by
  cases v with
  | _ => rfl

/-- The values of a declared type. -/
def FieldType.Admits : FieldType -> Json -> Prop
  | .int64, .int64 _ => True
  | .float32, .double _ => True
  | .float32, .int64 _ => True
  | .string, .string s => s ≠ []
  | .bool, .bool _ => True
  | .listString, .array elems =>
    forall e, e ∈ elems -> exists s, e = .string s ∧ s ≠ []
  | .listInt64, .array elems =>
    forall e, e ∈ elems -> exists i, e = .int64 i
  | .path, .string s => s ≠ []
  | .unsupported, _ => True
  | _, _ => False

/-- The texts of a value are stored as they are. -/
def Json.Plain : Json -> Prop
  | .string s => PlainText s
  | .array elems => forall s, .string s ∈ elems -> PlainText s
  | _ => True

/-!
# Documents
-/

namespace Document

/-- The value of a field. -/
def get (doc : Document) (field : Str) : Option (Json) :=
  (doc.find? fun m => decide (m.1 = field)).map Prod.snd

/-- Every field is given once, and a declared one by a value of its type. -/
structure Typed (items : Assoc Str FieldType) (doc : Document) : Prop where
  once : (doc.map Prod.fst).Nodup
  admits : forall field v t, (field, v) ∈ doc ->
    items.find field = some t -> t.Admits v

/-- Names and the texts of declared fields are stored as they are. -/
structure Plain (items : Assoc Str FieldType) (doc : Document) :
    Prop where
  names : forall m, m ∈ doc -> Char.ofNat 0 ∉ m.1
  values : forall field v t, (field, v) ∈ doc ->
    items.find field = some t -> v.Plain

theorem mem_of_get {doc : Document} {field : Str} {v : Json}
    (h : Document.get doc field = some v) : (field, v) ∈ doc := by
  rw [Document.get] at h
  rcases Option.map_eq_some_iff.mp h with ⟨m, hm, heq⟩
  have hname := find?_some hm
  rw [decide_eq_true_eq] at hname
  rw [← hname, ← heq]
  exact mem_of_find?_eq_some hm

theorem get_cons (m : Str × Json) (rest : Document) (field : Str) :
    Document.get (m :: rest) field =
      if m.1 = field then some m.2 else Document.get rest field := by
  rw [Document.get, find?_cons]
  by_cases h : m.1 = field
  · rw [if_pos h, decide_eq_true h]
    rfl
  · rw [if_neg h, decide_eq_false h]
    rfl

theorem get_none_of_notMem {doc : Document} {field : Str}
    (h : field ∉ doc.map Prod.fst) : Document.get doc field = none := by
  cases hget : Document.get doc field with
  | none => rfl
  | some v =>
    exact absurd (mem_map.mpr ⟨_, mem_of_get hget, rfl⟩) h

end Document

namespace FieldsDict

variable (reader : NumberReader num)

private theorem readMember_find {m : Str × Json}
    (hname : Char.ofNat 0 ∉ m.1) (d : FieldsDict num) (field : Str) :
    (readMember reader d m).strKvMap.find field =
        (if m.1 = field then (flatten reader m.2).1.or
          (d.strKvMap.find field) else d.strKvMap.find field) ∧
      (readMember reader d m).dblKvMap.find field =
        (if m.1 = field then (flatten reader m.2).2.or
          (d.dblKvMap.find field) else d.dblKvMap.find field) := by
  rw [readMember, cString_of_notMem hname]
  constructor
  · cases (flatten reader m.2).1 with
    | none =>
      simp only [Option.none_or, ite_self]
    | some text =>
      show (d.strKvMap.put m.1 text).find field = _
      rw [Assoc.find_put, Option.some_or]
      by_cases h : m.1 = field
      · rw [if_pos h.symm, if_pos h]
      · rw [if_neg (Ne.symm h), if_neg h]
  · cases (flatten reader m.2).2 with
    | none =>
      simp only [Option.none_or, ite_self]
    | some value =>
      show (d.dblKvMap.put m.1 value).find field = _
      rw [Assoc.find_put, Option.some_or]
      by_cases h : m.1 = field
      · rw [if_pos h.symm, if_pos h]
      · rw [if_neg (Ne.symm h), if_neg h]

private theorem foldl_readMember_find (doc : Document)
    (hnames : forall m, m ∈ doc -> Char.ofNat 0 ∉ m.1)
    (hnodup : (doc.map Prod.fst).Nodup) (d : FieldsDict num) (field : Str) :
    (doc.foldl (readMember reader) d).strKvMap.find field =
        ((Document.get doc field).bind fun v => (flatten reader v).1).or
          (d.strKvMap.find field) ∧
      (doc.foldl (readMember reader) d).dblKvMap.find field =
        ((Document.get doc field).bind fun v => (flatten reader v).2).or
          (d.dblKvMap.find field) := by
  induction doc generalizing d with
  | nil => exact ⟨rfl, rfl⟩
  | cons m rest ih =>
    rw [map_cons, nodup_cons] at hnodup
    have hrest := ih (fun x hx => hnames x (mem_cons_of_mem _ hx))
      hnodup.2 (readMember reader d m)
    have hfirst := readMember_find reader (hnames m mem_cons_self) d field
    rw [foldl_cons, hrest.1, hrest.2, hfirst.1, hfirst.2, Document.get_cons]
    by_cases h : m.1 = field
    · rw [h] at hnodup
      rw [if_pos h, if_pos h, if_pos h, Document.get_none_of_notMem hnodup.1]
      exact ⟨rfl, rfl⟩
    · rw [if_neg h, if_neg h, if_neg h]
      exact ⟨rfl, rfl⟩

theorem find_parseFromJson {doc : Document}
    (hnames : forall m, m ∈ doc -> Char.ofNat 0 ∉ m.1)
    (hnodup : (doc.map Prod.fst).Nodup) (field : Str) :
    (parseFromJson reader doc).strKvMap.find field =
        ((Document.get doc field).bind fun v => (flatten reader v).1) ∧
      (parseFromJson reader doc).dblKvMap.find field =
        ((Document.get doc field).bind fun v => (flatten reader v).2) := by
  have hfold := foldl_readMember_find reader doc hnames hnodup none field
  have hstr : (none : FieldsDict num).strKvMap.find field = Option.none :=
    Assoc.find_empty field
  have hdbl : (none : FieldsDict num).dblKvMap.find field = Option.none :=
    Assoc.find_empty field
  rw [hstr, hdbl, Option.or_none, Option.or_none] at hfold
  exact hfold

end FieldsDict

/-!
# Keys of values
-/

open FieldBitmapGroup

theorem fieldKeys_of_notMem {isPath : Bool} {text : Str} (h : ';' ∉ text) :
    fieldKeys isPath text = [if isPath then normalizePathKey text else text] :=
  if_neg h

theorem fieldKeys_joined {texts : List Str} (hne : texts ≠ [])
    (htexts : forall t, t ∈ texts -> t ≠ [] ∧ ';' ∉ t) :
    fieldKeys false ([';'].intercalate texts) = texts := by
  match texts, hne with
  | [t], _ =>
    rw [intercalate_singleton,
      fieldKeys_of_notMem (htexts t mem_cons_self).2]
    rfl
  | first :: next :: rest, _ =>
    have hmem : ';' ∈ [';'].intercalate (first :: next :: rest) := by
      rw [intercalate_cons_of_ne_nil (cons_ne_nil _ _)]
      simp
    have hsplit : ([';'].intercalate (first :: next :: rest)).splitOn ';' =
        first :: next :: rest :=
      splitOn_intercalate ';' (fun t ht => (htexts t ht).2)
        (cons_ne_nil _ _)
    have hkept : split ([';'].intercalate (first :: next :: rest)) =
        first :: next :: rest := by
      rw [split, hsplit, filter_eq_self]
      intro t ht
      exact decide_eq_true (htexts t ht).1
    rw [fieldKeys, if_pos hmem, hkept]
    exact map_id' _

private theorem elem_text {elems : List JsonElem}
    (hplain : forall s, .string s ∈ elems -> PlainText s)
    {e : JsonElem} (he : e ∈ elems) : e.text = e.spelled := by
  cases e with
  | int64 i => rfl
  | string s => exact cString_of_notMem (hplain s he).2
  | other => rfl

variable {t : FieldType}

private theorem elem_splits {elems : List JsonElem}
    (hadmits : t.Admits (.array elems : Json))
    (hplain : forall s, .string s ∈ elems -> PlainText s)
    (hsupported : t ≠ .unsupported) {e : JsonElem} (he : e ∈ elems) :
    e.text ≠ [] ∧ ';' ∉ e.text := by
  have hint : forall i, text (.int64 i) ≠ [] ∧
      ';' ∉ text (.int64 i) :=
    fun i => ⟨intText_ne_nil i, notMem_intText (by decide) (by decide)⟩
  cases t with
  | listString =>
    rcases hadmits e he with ⟨s, hs, hne⟩
    rw [hs] at he
    have htext := elem_text hplain he
    rw [hs, htext]
    exact ⟨hne, (hplain s he).1⟩
  | listInt64 =>
    rcases hadmits e he with ⟨i, hi⟩
    rw [hi]
    exact hint i
  | unsupported => exact absurd rfl hsupported
  | _ => exact absurd hadmits id

def fieldKey (isPath : Bool) (text : Str) : Str :=
  if isPath then normalizePathKey text else text

/-- A value is filed under the keys of its texts; an empty list is filed under
the empty key. -/
theorem mem_fieldKeys_iff (reader : NumberReader num)
    {v : Json} (hadmits : t.Admits v) (hplain : v.Plain)
    (hsupported : t ≠ .unsupported) (key : Str) :
    (exists text, (FieldsDict.flatten reader v).1 = some text ∧
        key ∈ fieldKeys (decide (t = .path)) text) <->
      (exists w, w ∈ v.texts ∧ key = fieldKey (decide (t = .path)) w) ∨
        (key = [] ∧ v = .array []) := by
  have hone : forall text : Str, ';' ∉ text -> v.texts = [text] ->
      v ≠ .array [] ->
      (FieldsDict.flatten reader v).1 = some text ->
      ((exists text, (FieldsDict.flatten reader v).1 = some text ∧
          key ∈ fieldKeys (decide (t = .path)) text) <->
        (exists w, w ∈ v.texts ∧ key = fieldKey (decide (t = .path)) w) ∨
          (key = [] ∧ v = .array [])) := by
    intro text hsemi htexts hnot hflat
    rw [htexts, hflat]
    constructor
    · intro hex
      rcases hex with ⟨text', heq, hmem⟩
      cases heq
      rw [fieldKeys_of_notMem hsemi, mem_singleton] at hmem
      exact .inl ⟨text, mem_singleton.mpr rfl, hmem⟩
    · intro hex
      rcases hex with ⟨w, hw, hkey⟩ | ⟨_, hnil⟩
      · refine ⟨text, rfl, ?_⟩
        rw [fieldKeys_of_notMem hsemi, hkey, mem_singleton.mp hw]
        exact mem_singleton.mpr rfl
      · exact absurd hnil hnot
  cases v with
  | int64 i =>
    apply hone (intText i) (notMem_intText (by decide) (by decide)) rfl _ rfl
    intro h
    cases h
  | string s =>
    apply hone s hplain.1 rfl
    · nofun
    · exact congrArg some (cString_of_notMem hplain.2)
  | bool b =>
    have hsemi : ';' ∉ boolText b := by
      cases b with
      | _ => decide
    apply hone (boolText b) hsemi rfl _ rfl
    intro h
    cases h
  | double d => simp [FieldsDict.flatten, Json.texts]
  | other => simp [FieldsDict.flatten, Json.texts]
  | array elems =>
    have hpath : decide (t = .path) = false := by
      cases t with
      | path => exact absurd hadmits id
      | _ => rfl
    have htexts : elems.map text = (Json.array elems : Json).texts :=
      map_congr_left fun e he => elem_text hplain he
    have hflat : (FieldsDict.flatten reader (.array elems)).1 =
        some ([';'].intercalate (elems.map text)) := rfl
    rw [hflat, hpath, ← htexts]
    by_cases hnil : elems = []
    · rw [hnil, map_nil, intercalate_nil]
      constructor
      · intro hex
        rcases hex with ⟨text, heq, hmem⟩
        cases heq
        rw [fieldKeys_of_notMem not_mem_nil, mem_singleton] at hmem
        exact .inr ⟨hmem, rfl⟩
      · intro hex
        rcases hex with ⟨w, hw, _⟩ | ⟨hkey, _⟩
        · cases hw
        · refine ⟨[], rfl, ?_⟩
          rw [hkey, fieldKeys_of_notMem not_mem_nil]
          exact mem_singleton.mpr rfl
    · have hne : elems.map text ≠ [] := by
        rw [Ne, map_eq_nil_iff]
        exact hnil
      have hkeys := fieldKeys_joined hne (fun text htext => by
        rcases mem_map.mp htext with ⟨e, he, heq⟩
        rw [← heq]
        exact elem_splits hadmits hplain hsupported he)
      constructor
      · intro hex
        rcases hex with ⟨text, heq, hmem⟩
        cases heq
        rw [hkeys] at hmem
        exact .inl ⟨key, hmem, rfl⟩
      · intro hex
        rcases hex with ⟨w, hw, hkey⟩ | ⟨_, hempty⟩
        · refine ⟨_, rfl, ?_⟩
          rw [hkeys, hkey]
          exact hw
        · cases hempty
          exact absurd rfl hnil

/-- A value of a type holds the text of a condition exactly when it matches the
condition. -/
theorem text_mem_texts_iff {v : Json}
    (hadmits : t.Admits v) {c : Cond} (hfits : c.Fits t) :
    c.text ∈ v.texts <-> v.Matches c := by
  cases t with
  | int64 =>
    cases v with
    | int64 i =>
      cases c with
      | int64 j =>
        show intText j ∈ [intText i] <-> Cond.int64 j = .int64 i
        rw [mem_singleton, Cond.int64.injEq]
        constructor
        · exact intText_injective
        · exact congrArg intText
      | _ => exact absurd hfits id
    | _ => exact absurd hadmits id
  | string =>
    cases v with
    | string s =>
      cases c with
      | string s' =>
        show s' ∈ [s] <-> Cond.string s' = .string s
        rw [mem_singleton, Cond.string.injEq]
      | _ => exact absurd hfits id
    | _ => exact absurd hadmits id
  | bool =>
    cases v with
    | bool b =>
      cases c with
      | bool b' =>
        show boolText b' ∈ [boolText b] <-> Cond.bool b' = .bool b
        rw [mem_singleton, Cond.bool.injEq]
        cases b with
        | _ =>
          cases b' with
          | _ => decide
      | _ => exact absurd hfits id
    | _ => exact absurd hadmits id
  | listString =>
    cases v with
    | array elems =>
      cases c with
      | string s =>
        show s ∈ elems.map _ <-> string s ∈ elems
        rw [mem_map]
        constructor
        · intro hex
          rcases hex with ⟨e, he, heq⟩
          rcases hadmits e he with ⟨s', hs', _⟩
          rw [hs'] at he heq
          rw [← show s' = s from heq]
          exact he
        · intro hmem
          exact ⟨_, hmem, rfl⟩
      | _ => exact absurd hfits id
    | _ => exact absurd hadmits id
  | listInt64 =>
    cases v with
    | array elems =>
      cases c with
      | int64 j =>
        show intText j ∈ elems.map _ <-> int64 j ∈ elems
        rw [mem_map]
        constructor
        · intro hex
          rcases hex with ⟨e, he, heq⟩
          rcases hadmits e he with ⟨i, hi⟩
          rw [hi] at he heq
          rw [← intText_injective (show intText i = intText j from heq)]
          exact he
        · intro hmem
          exact ⟨_, hmem, rfl⟩
      | _ => exact absurd hfits id
    | _ => exact absurd hadmits id
  | _ => exact absurd hfits (by cases c with | _ => exact id)

theorem Cond.Fits.text_ne_nil {c : Cond} (h : c.Fits t) :
    c.text ≠ [] := by
  cases c with
  | int64 i => exact intText_ne_nil i
  | bool b =>
    cases b with
    | _ => exact cons_ne_nil _ _
  | string s =>
    cases t with
    | string => exact h
    | listString => exact h
    | _ => exact absurd h id

theorem splitPath_normalize (path : Str) :
    DirIndex.splitPath (normalizePathKey path) = DirIndex.splitPath path := by
  match path with
  | [] => rfl
  | c :: rest =>
    rw [normalizePathKey]
    split
    next => rfl
    next hne =>
      rw [DirIndex.splitPath, if_pos rfl, DirIndex.splitPath]
      simp only [if_neg hne]

end Scalar
end OpenViking
