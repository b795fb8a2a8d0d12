import Mathlib.Data.List.Basic

/-!
# Tries

A trie keeps one value at every node, and the children of a node are found by
a segment.  A path of segments leads to at most one node, so a trie is read as
a map from paths to values; changing the node at a path creates the nodes that
are missing on the way.
-/

namespace OpenViking

mutual
inductive Trie (seg val : Type) : Type where
  | node (value : val) (children : Forest seg val)

inductive Forest (seg val : Type) : Type where
  | nil
  | cons (segment : seg) (child : Trie seg val) (rest : Forest seg val)
end

variable {seg val : Type}

def Trie.value : Trie seg val -> val
  | .node v _ => v

def Trie.children : Trie seg val -> Forest seg val
  | .node _ cs => cs

variable [DecidableEq seg]

def Forest.find (s : seg) : Forest seg val -> Option (Trie seg val)
  | .nil => none
  | .cons t child rest => if s = t then some child else rest.find s

/-- Put a child under a segment, in place of the one there or at the end. -/
def Forest.put (s : seg) (child : Trie seg val) :
    Forest seg val -> Forest seg val
  | .nil => .cons s child .nil
  | .cons t old rest =>
    if s = t then .cons s child rest else .cons t old (rest.put s child)

def Trie.find : List seg -> Trie seg val -> Option (Trie seg val)
  | [], t => some t
  | s :: path, t => (t.children.find s).bind fun child => child.find path

/-- The value at a path. -/
def Trie.at (path : List seg) (t : Trie seg val) : Option val :=
  (t.find path).map Trie.value

/-- Change the value at a path; nodes on the way start with a fresh value. -/
def Trie.alter (fresh : val) (f : val -> val) :
    List seg -> Trie seg val -> Trie seg val
  | [], t => .node (f t.value) t.children
  | s :: path, t =>
    .node t.value (t.children.put s
      (((t.children.find s).getD (.node fresh .nil)).alter fresh f path))

mutual
/-- The values of a node and of the nodes below it, down to a depth; a
negative depth of one means all. -/
def Trie.within (maxDepth : Int) : Nat -> Trie seg val -> List val
  | depth, .node v cs =>
    v :: (if maxDepth ≠ -1 ∧ maxDepth ≤ depth then []
      else cs.within maxDepth (depth + 1))

def Forest.within (maxDepth : Int) : Nat -> Forest seg val -> List val
  | _, .nil => []
  | depth, .cons _ child rest =>
    child.within maxDepth depth ++ rest.within maxDepth depth
end

mutual
/-- No node has two children under one segment. -/
def Trie.Wf : Trie seg val -> Prop
  | .node _ cs => cs.Wf

def Forest.Wf : Forest seg val -> Prop
  | .nil => True
  | .cons s child rest => rest.find s = none ∧ child.Wf ∧ rest.Wf
end

/-!
# Reading and changing
-/

theorem Forest.find_put (cs : Forest seg val) (s t : seg)
    (child : Trie seg val) :
    (cs.put s child).find t = if t = s then some child else cs.find t := by
  match cs with
  | .nil => rfl
  | .cons u old rest =>
    have hrest := Forest.find_put rest s t child
    rw [Forest.put]
    by_cases hsu : s = u
    · rw [if_pos hsu, Forest.find, Forest.find, ← hsu]
      by_cases hts : t = s
      · simp only [if_pos hts]
      · simp only [if_neg hts]
    · rw [if_neg hsu, Forest.find, Forest.find, hrest]
      by_cases hts : t = s
      · have htu : t ≠ u := by
          rw [hts]
          exact hsu
        simp only [if_neg htu, if_pos hts]
      · simp only [if_neg hts]

theorem Trie.at_cons (s : seg) (path : List seg) (t : Trie seg val) :
    t.at (s :: path) = (t.children.find s).bind fun child => child.at path := by
  rw [Trie.at, Trie.find]
  cases t.children.find s with
  | none => rfl
  | some child => rfl

theorem Trie.at_append (path rest : List seg) (t : Trie seg val) :
    t.at (path ++ rest) = (t.find path).bind fun start => start.at rest := by
  induction path generalizing t with
  | nil => rfl
  | cons s path ih =>
    rw [List.cons_append, Trie.at_cons, Trie.find]
    cases t.children.find s with
    | none => rfl
    | some child => exact ih child

theorem Trie.at_fresh (v : val) (path : List seg) :
    (Trie.node v .nil : Trie seg val).at path =
      if path = [] then some v else none := by
  cases path with
  | nil => rfl
  | cons s rest => rfl

/-- The first nodes on the way to the changed one keep their values or are
fresh; all others keep theirs. -/
theorem Trie.at_alter (fresh : val) (f : val -> val) (path : List seg)
    (t : Trie seg val) (q : List seg) :
    (t.alter fresh f path).at q =
      if q = path then some (f ((t.at path).getD fresh))
      else if q <+: path then some ((t.at q).getD fresh)
      else t.at q := by
  induction path generalizing t q with
  | nil =>
    rw [Trie.alter]
    cases q with
    | nil => rfl
    | cons s q =>
      rw [if_neg (by simp), if_neg (by simp), Trie.at_cons, Trie.at_cons]
      rfl
  | cons s path ih =>
    rw [Trie.alter]
    cases q with
    | nil =>
      rw [if_neg (by simp), if_pos List.nil_prefix]
      rfl
    | cons u q =>
      rw [Trie.at_cons]
      show ((t.children.put s _).find u).bind _ = _
      rw [Forest.find_put]
      by_cases hus : u = s
      · rw [if_pos hus, hus, Option.bind_some, ih]
        simp only [List.cons.injEq, true_and, List.cons_prefix_cons]
        have hat : forall r,
            (((t.children.find s).getD (.node fresh .nil)).at r).getD fresh =
              (t.at (s :: r)).getD fresh := by
          intro r
          rw [Trie.at_cons]
          cases t.children.find s with
          | none =>
            show ((Trie.node fresh .nil : Trie seg val).at r).getD fresh = _
            rw [Trie.at_fresh]
            split
            · rfl
            · rfl
          | some child => rfl
        by_cases hq : q = path
        · rw [if_pos hq, if_pos hq, hat]
        rw [if_neg hq, if_neg hq, hat]
        by_cases hprefix : q <+: path
        · rw [if_pos hprefix, if_pos hprefix]
        rw [if_neg hprefix, if_neg hprefix, Trie.at_cons]
        cases t.children.find s with
        | none =>
          show (Trie.node fresh .nil : Trie seg val).at q = none
          rw [Trie.at_fresh, if_neg]
          intro hnil
          apply hprefix
          rw [hnil]
          exact List.nil_prefix
        | some child => rfl
      · rw [if_neg hus, if_neg (by simp [hus]), if_neg (by simp [hus]),
          Trie.at_cons]

theorem Forest.wf_put {cs : Forest seg val} {s : seg} {child : Trie seg val}
    (h : cs.Wf) (hchild : child.Wf) : (cs.put s child).Wf := by
  match cs with
  | .nil =>
    rw [Forest.put]
    exact ⟨rfl, hchild, trivial⟩
  | .cons t old rest =>
    rw [Forest.put]
    by_cases hst : s = t
    · rw [if_pos hst, Forest.Wf, hst]
      exact ⟨h.1, hchild, h.2.2⟩
    · rw [if_neg hst, Forest.Wf, Forest.find_put, if_neg (Ne.symm hst)]
      exact ⟨h.1, h.2.1, Forest.wf_put h.2.2 hchild⟩

theorem Forest.wf_find {cs : Forest seg val} {s : seg} {child : Trie seg val}
    (h : cs.Wf) (hfind : cs.find s = some child) : child.Wf := by
  match cs with
  | .nil => cases hfind
  | .cons t old rest =>
    rw [Forest.find] at hfind
    by_cases hst : s = t
    · rw [if_pos hst] at hfind
      cases hfind
      exact h.2.1
    · rw [if_neg hst] at hfind
      exact Forest.wf_find h.2.2 hfind

theorem Trie.wf_find {path : List seg} {t start : Trie seg val} (h : t.Wf)
    (hfind : t.find path = some start) : start.Wf := by
  induction path generalizing t with
  | nil =>
    cases hfind
    exact h
  | cons s path ih =>
    cases t with
    | node v cs =>
      rw [Trie.find] at hfind
      rcases Option.bind_eq_some_iff.mp hfind with ⟨child, hchild, hrest⟩
      exact ih (Forest.wf_find h hchild) hrest

theorem Trie.wf_alter (fresh : val) (f : val -> val) (path : List seg)
    {t : Trie seg val} (h : t.Wf) : (t.alter fresh f path).Wf := by
  induction path generalizing t with
  | nil =>
    cases t with
    | node v cs => exact h
  | cons s path ih =>
    cases t with
    | node v cs =>
      rw [Trie.alter, Trie.Wf]
      apply Forest.wf_put h
      apply ih
      cases hfind : cs.find s with
      | none =>
        show (((cs.find s).getD (.node fresh .nil)).Wf)
        rw [hfind]
        exact trivial
      | some child =>
        show (((cs.find s).getD (.node fresh .nil)).Wf)
        rw [hfind]
        exact Forest.wf_find h hfind

/-!
# Collecting
-/

/-- A node lies within a depth when it is the first, when there is no limit,
or when its own depth keeps it. -/
def InDepth (maxDepth : Int) (depth : Nat) (path : List seg) : Prop :=
  path = [] ∨ maxDepth = -1 ∨ ((depth + path.length : Nat) : Int) ≤ maxDepth

omit [DecidableEq seg] in
theorem inDepth_cons {maxDepth : Int} {depth : Nat} {s : seg}
    {path : List seg} :
    InDepth maxDepth depth (s :: path) <->
      ¬ (maxDepth ≠ -1 ∧ maxDepth ≤ depth) ∧
        InDepth maxDepth (depth + 1) path := by
  have hlen : depth + (s :: path).length = depth + 1 + path.length := by
    rw [List.length_cons]
    omega
  rw [InDepth, InDepth, hlen]
  have hcons : (s :: path : List seg) ≠ [] := List.cons_ne_nil _ _
  constructor
  · intro h
    rcases h with heq | hall | hle
    · exact absurd heq hcons
    · exact ⟨fun hlimit => hlimit.1 hall, .inr (.inl hall)⟩
    · exact ⟨by omega, .inr (.inr hle)⟩
  · intro h
    rcases h with ⟨hlimit, heq | hall | hle⟩
    · rw [heq, List.length_nil]
      omega
    · exact .inr (.inl hall)
    · exact .inr (.inr hle)

mutual
theorem Trie.mem_within {maxDepth : Int} {depth : Nat} {t : Trie seg val}
    (h : t.Wf) {v : val} :
    v ∈ t.within maxDepth depth <->
      exists path, t.at path = some v ∧ InDepth maxDepth depth path := by
  match t with
  | .node w cs =>
    rw [Trie.within, List.mem_cons]
    have hbelow : v ∈ (if maxDepth ≠ -1 ∧ maxDepth ≤ (depth : Int) then []
          else cs.within maxDepth (depth + 1)) <->
        exists s path, (cs.find s).bind (fun c => c.at path) = some v ∧
          InDepth maxDepth depth (s :: path) := by
      by_cases hlimit : maxDepth ≠ -1 ∧ maxDepth ≤ (depth : Int)
      · rw [if_pos hlimit]
        constructor
        · nofun
        · intro hv
          rcases hv with ⟨s, path, _, hdepth⟩
          exact absurd hlimit (inDepth_cons.mp hdepth).1
      · rw [if_neg hlimit, Forest.mem_within h]
        constructor
        · intro hv
          rcases hv with ⟨s, path, hat, hdepth⟩
          exact ⟨s, path, hat, inDepth_cons.mpr ⟨hlimit, hdepth⟩⟩
        · intro hv
          rcases hv with ⟨s, path, hat, hdepth⟩
          exact ⟨s, path, hat, (inDepth_cons.mp hdepth).2⟩
    rw [hbelow]
    constructor
    · intro hv
      rcases hv with heq | ⟨s, path, hat, hdepth⟩
      · exact ⟨[], by rw [heq]; rfl, .inl rfl⟩
      · refine ⟨s :: path, ?_, hdepth⟩
        rw [Trie.at_cons]
        exact hat
    · intro hv
      rcases hv with ⟨path, hat, hdepth⟩
      cases path with
      | nil => exact .inl (Option.some.inj hat).symm
      | cons s path =>
        rw [Trie.at_cons] at hat
        exact .inr ⟨s, path, hat, hdepth⟩

theorem Forest.mem_within {maxDepth : Int} {depth : Nat}
    {cs : Forest seg val} (h : cs.Wf) {v : val} :
    v ∈ cs.within maxDepth depth <->
      exists s path, (cs.find s).bind (fun c => c.at path) = some v ∧
        InDepth maxDepth depth path := by
  match cs with
  | .nil =>
    rw [Forest.within]
    constructor
    · nofun
    · intro hv
      rcases hv with ⟨s, path, hat, _⟩
      cases hat
  | .cons t child rest =>
    rw [Forest.within, List.mem_append, Trie.mem_within h.2.1,
      Forest.mem_within h.2.2]
    constructor
    · intro hv
      rcases hv with ⟨path, hat, hdepth⟩ | ⟨s, path, hat, hdepth⟩
      · refine ⟨t, path, ?_, hdepth⟩
        rw [Forest.find, if_pos rfl]
        exact hat
      · refine ⟨s, path, ?_, hdepth⟩
        have hne : s ≠ t := by
          intro heq
          rw [heq, h.1] at hat
          cases hat
        rw [Forest.find, if_neg hne]
        exact hat
    · intro hv
      rcases hv with ⟨s, path, hat, hdepth⟩
      rw [Forest.find] at hat
      by_cases hst : s = t
      · rw [if_pos hst] at hat
        exact .inl ⟨path, hat, hdepth⟩
      · rw [if_neg hst] at hat
        exact .inr ⟨s, path, hat, hdepth⟩
end

end OpenViking
