import Mathlib.Data.List.AList

/-!
# Finite maps

A finite map is a Mathlib association list whose values all have one type.
Maps and sets of the program are read through `find`, and every operation is
described by what it does to `find`.
-/

namespace OpenViking

open List

abbrev Assoc (key : Type) (value : Type) : Type :=
  AList (fun _ : key => value)

namespace Assoc

variable {key value : Type} [DecidableEq key]

def find (m : Assoc key value) (k : key) : Option value :=
  m.lookup k

def put (m : Assoc key value) (k : key) (v : value) : Assoc key value :=
  m.insert k v

def del (m : Assoc key value) (k : key) : Assoc key value :=
  m.erase k

/-- The bindings of a map, each key once. -/
def bindings (m : Assoc key value) : List (key × value) :=
  m.entries.map fun s => (s.1, s.2)

/-- Keep the bindings that satisfy a test. -/
def retain (m : Assoc key value) (test : key -> value -> Bool) :
    Assoc key value where
  entries := m.entries.filter fun s => test s.1 s.2
  nodupKeys := m.nodupKeys.sublist List.filter_sublist

@[simp] theorem find_empty (k : key) : find (∅ : Assoc key value) k = none :=
  AList.lookup_empty k

theorem find_put (m : Assoc key value) (k k' : key) (v : value) :
    (m.put k v).find k' = if k' = k then some v else m.find k' := by
  by_cases h : k' = k
  · subst h
    simp [find, put]
  · simp [find, put, h]

@[simp] theorem find_put_self (m : Assoc key value) (k : key) (v : value) :
    (m.put k v).find k = some v := by
  simp [find_put]

theorem find_put_ne (m : Assoc key value) {k k' : key} (v : value)
    (h : k' ≠ k) : (m.put k v).find k' = m.find k' := by
  simp [find_put, h]

theorem find_del (m : Assoc key value) (k k' : key) :
    (m.del k).find k' = if k' = k then none else m.find k' := by
  by_cases h : k' = k
  · subst h
    simp [find, del]
  · simp [find, del, h]

@[simp] theorem find_del_self (m : Assoc key value) (k : key) :
    (m.del k).find k = none := by
  simp [find_del]

theorem find_del_ne (m : Assoc key value) {k k' : key} (h : k' ≠ k) :
    (m.del k).find k' = m.find k' := by
  simp [find_del, h]

variable {m : Assoc key value} {k : key} {v : value}

theorem find_eq_some_iff :
    m.find k = some v <-> (⟨k, v⟩ : Sigma fun _ : key => value) ∈ m.entries :=
  AList.mem_lookup_iff

theorem mem_bindings :
    (k, v) ∈ m.bindings <-> m.find k = some v := by
  rw [find_eq_some_iff, bindings, mem_map]
  constructor
  · intro h
    rcases h with ⟨⟨k', v'⟩, hmem, heq⟩
    cases heq
    exact hmem
  · intro h
    exact ⟨⟨k, v⟩, h, rfl⟩

omit [DecidableEq key] in
theorem nodup_bindings_keys (m : Assoc key value) :
    (m.bindings.map Prod.fst).Nodup := by
  have h : m.bindings.map Prod.fst = m.keys := by
    simp [bindings, AList.keys, keys, Function.comp_def]
  rw [h]
  exact m.keys_nodup

theorem length_bindings_put (v : value)
    (h : m.find k = none) :
    (m.put k v).bindings.length = m.bindings.length + 1 := by
  have hk : k ∉ m.entries.keys := AList.lookup_eq_none.mp h
  simp [bindings, put, AList.insert, kinsert, kerase_of_notMem_keys hk]

theorem find_retain (m : Assoc key value) (test : key -> value -> Bool)
    (k : key) :
    (m.retain test).find k =
      (m.find k).filter (fun v => test k v) := by
  cases hfind : m.find k with
  | none =>
    cases hret : (m.retain test).find k with
    | none => rfl
    | some v =>
      have hmem := find_eq_some_iff.mp hret
      have hmem' := (mem_filter.mp hmem).1
      rw [find_eq_some_iff.mpr hmem'] at hfind
      cases hfind
  | some v =>
    have hmem := find_eq_some_iff.mp hfind
    by_cases htest : test k v = true
    · have hkeep : (m.retain test).find k = some v :=
        find_eq_some_iff.mpr (mem_filter.mpr ⟨hmem, htest⟩)
      rw [hkeep, Option.filter_some, if_pos htest]
    cases hret : (m.retain test).find k with
    | none => rw [Option.filter_some, if_neg htest]
    | some w =>
      have hmemw := mem_filter.mp (find_eq_some_iff.mp hret)
      have hw := find_eq_some_iff.mpr hmemw.1
      rw [hfind] at hw
      cases hw
      exact absurd hmemw.2 htest

/-- Bind several keys in order. -/
def putAll (m : Assoc key value) (bs : List (key × value)) :
    Assoc key value :=
  bs.foldl (fun m b => m.put b.1 b.2) m

def delAll (m : Assoc key value) (ks : List key) : Assoc key value :=
  ks.foldl del m

/-- Build a map from a list of bindings; a later binding of a key wins. -/
def ofList (bs : List (key × value)) : Assoc key value :=
  bs.foldl (fun m b => m.put b.1 b.2) ∅

private theorem find_foldl_put (bs : List (key × value))
    (m : Assoc key value) (k : key) :
    (bs.foldl (fun m b => m.put b.1 b.2) m).find k =
      (bs.reverse.find? fun b => decide (b.1 = k)).elim (m.find k)
        (fun b => some b.2) := by
  induction bs generalizing m with
  | nil => rfl
  | cons b rest ih =>
    rw [foldl_cons, ih, reverse_cons, find?_append]
    cases rest.reverse.find? fun b => decide (b.1 = k) with
    | some c => rfl
    | none =>
      by_cases hb : b.1 = k
      · simp [hb]
      · simp [hb, find_put_ne m b.2 (Ne.symm hb)]

theorem find_putAll (m : Assoc key value) (bs : List (key × value))
    (k : key) :
    (m.putAll bs).find k =
      (bs.reverse.find? fun b => decide (b.1 = k)).elim (m.find k)
        (fun b => some b.2) :=
  find_foldl_put bs m k

variable {bs : List (key × value)}

theorem find_putAll_of_notMem (m : Assoc key value) (h : k ∉ bs.map Prod.fst) :
    (m.putAll bs).find k = m.find k := by
  rw [find_putAll, find?_eq_none.mpr]
  · rfl
  · intro b hb hk
    apply h
    rw [← of_decide_eq_true hk]
    exact mem_map_of_mem (mem_reverse.mp hb)

theorem find_putAll_of_mem (m : Assoc key value)
    (hnodup : (bs.map Prod.fst).Nodup)
    (h : (k, v) ∈ bs) : (m.putAll bs).find k = some v := by
  rw [find_putAll]
  cases hfind : bs.reverse.find? fun b => decide (b.1 = k) with
  | none =>
    have hnone := find?_eq_none.mp hfind (k, v) (mem_reverse.mpr h)
    simp at hnone
  | some b =>
    have hmem := mem_reverse.mp (mem_of_find?_eq_some hfind)
    have hk : b.1 = k := by simpa using find?_some hfind
    have heq := inj_on_of_nodup_map hnodup hmem h hk
    rw [heq]
    rfl

theorem exists_find_putAll (m : Assoc key value) (h : k ∈ bs.map Prod.fst) :
    exists v, (k, v) ∈ bs ∧ (m.putAll bs).find k = some v := by
  rw [find_putAll]
  cases hfind : bs.reverse.find? fun b => decide (b.1 = k) with
  | none =>
    rcases mem_map.mp h with ⟨b, hb, hk⟩
    have hnone := find?_eq_none.mp hfind b (mem_reverse.mpr hb)
    simp [hk] at hnone
  | some b =>
    have hmem := mem_reverse.mp (mem_of_find?_eq_some hfind)
    have hk : b.1 = k := by simpa using find?_some hfind
    rw [← hk]
    exact ⟨b.2, hmem, rfl⟩

theorem find_delAll (m : Assoc key value) (ks : List key) (k : key) :
    (m.delAll ks).find k = if k ∈ ks then none else m.find k := by
  induction ks generalizing m with
  | nil => rfl
  | cons first rest ih =>
    show ((m.del first).delAll rest).find k = _
    rw [ih, find_del]
    by_cases hrest : k ∈ rest
    · rw [if_pos hrest, if_pos (mem_cons_of_mem _ hrest)]
    rw [if_neg hrest]
    by_cases hfirst : k = first
    · rw [if_pos hfirst, if_pos (mem_cons.mpr (Or.inl hfirst))]
    · rw [if_neg hfirst, if_neg]
      intro hmem
      rcases mem_cons.mp hmem with heq | hmem
      · exact hfirst heq
      · exact hrest hmem

theorem find_delAll_eq_some {ks : List key} :
    (m.delAll ks).find k = some v <-> k ∉ ks ∧ m.find k = some v := by
  rw [find_delAll]
  by_cases h : k ∈ ks
  · simp [h]
  · simp [h]

theorem find_ofList
    (hfun : forall k v v', (k, v) ∈ bs -> (k, v') ∈ bs -> v = v') : (ofList bs).find k = some v <-> (k, v) ∈ bs := by
  rw [ofList, find_foldl_put]
  constructor
  · intro h
    cases hfind : bs.reverse.find? fun b => decide (b.1 = k) with
    | none => simp [hfind] at h
    | some b =>
      have hmem := mem_of_find?_eq_some hfind
      have hkey := find?_some hfind
      rw [hfind] at h
      rcases b with ⟨k', v'⟩
      have hk : k' = k := by simpa using hkey
      have hv : v' = v := by simpa using h
      subst hk hv
      simpa using hmem
  · intro h
    cases hfind : bs.reverse.find? fun b => decide (b.1 = k) with
    | none =>
      have hnone := find?_eq_none.mp hfind (k, v) (by simpa using h)
      simp at hnone
    | some b =>
      have hmem : b ∈ bs := by simpa using mem_of_find?_eq_some hfind
      have hkey : b.1 = k := by simpa using find?_some hfind
      rcases b with ⟨k', v'⟩
      subst hkey
      simp [hfun _ _ _ hmem h]

theorem find_ofList_of_nodup
    (hnodup : (bs.map Prod.fst).Nodup) :
    (ofList bs).find k = some v <-> (k, v) ∈ bs := by
  apply find_ofList
  intro k v v' hv hv'
  have h := inj_on_of_nodup_map hnodup hv hv' rfl
  exact congrArg Prod.snd h

end Assoc
end OpenViking
