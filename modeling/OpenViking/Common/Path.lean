import Mathlib.Algebra.Group.Int.Defs
import Mathlib.Algebra.GroupWithZero.Nat
import Mathlib.Data.Char
import Mathlib.Data.List.Basic
import Mathlib.Data.List.Dedup
import Mathlib.Data.List.Infix
import Mathlib.Data.List.Lex
import Mathlib.Data.List.Sort

/-!
# Slash-separated relative paths

A path is the list of its components.  A component is nonempty and contains no
slash, so rendering a path with slashes loses nothing, and the string tests
that programs run on rendered paths are prefix tests on the lists.
-/

namespace OpenViking
namespace Paths

open List

abbrev Str := List Char

instance : LawfulBEq Str := inferInstance

structure Name where
  chars : Str
  nonempty : chars ≠ []
  noSlash : '/' ∉ chars
deriving DecidableEq

abbrev Path := List Name

/-- The component spelled by a string literal. -/
def Name.ofString (s : String)
    (h : s.toList ≠ [] ∧ '/' ∉ s.toList := by decide) : Name where
  chars := s.toList
  nonempty := h.1
  noSlash := h.2

/-- The component with the given characters, if it is one. -/
def Name.ofChars? (c : Str) : Option Name :=
  if h : c ≠ [] ∧ '/' ∉ c then some ⟨c, h.1, h.2⟩ else none

@[ext] theorem Name.ext {a b : Name} (h : a.chars = b.chars) : a = b := by
  cases a
  cases b
  cases h
  rfl

/-!
# Rendering
-/

def render : Path -> Str
  | [] => []
  | [n] => n.chars
  | n :: m :: rest => n.chars ++ '/' :: render (m :: rest)

@[simp] theorem render_nil : render [] = [] := rfl

@[simp] theorem render_singleton (n : Name) : render [n] = n.chars := rfl

theorem render_cons_of_ne_nil (n : Name) {p : Path} (hp : p ≠ []) :
    render (n :: p) = n.chars ++ '/' :: render p := by
  cases p with
  | nil => exact absurd rfl hp
  | cons m rest => rfl

variable {p q : Path}

theorem render_append (hp : p ≠ []) (hq : q ≠ []) :
    render (p ++ q) = render p ++ '/' :: render q := by
  induction p with
  | nil => exact absurd rfl hp
  | cons n rest ih =>
    by_cases hrest : rest = []
    · subst hrest
      exact render_cons_of_ne_nil n hq
    · have happ : rest ++ q ≠ [] := by simp [hrest]
      rw [cons_append, render_cons_of_ne_nil n happ,
        render_cons_of_ne_nil n hrest, ih hrest, append_assoc,
        cons_append]

theorem render_ne_nil {p : Path} (hp : p ≠ []) : render p ≠ [] := by
  cases p with
  | nil => exact absurd rfl hp
  | cons n rest =>
    by_cases hrest : rest = []
    · subst hrest
      exact n.nonempty
    · rw [render_cons_of_ne_nil n hrest]
      simp

private theorem chars_append_slash_inj {a b : Str} {u v : Str}
    (ha : '/' ∉ a) (hb : '/' ∉ b)
    (h : a ++ '/' :: u = b ++ '/' :: v) : a = b ∧ u = v := by
  induction a generalizing b with
  | nil =>
    cases b with
    | nil => exact ⟨rfl, by simpa using h⟩
    | cons c rest =>
      have hc : '/' = c := by
        have := congrArg head? h
        simpa using this
      exact absurd (by simp [← hc]) hb
  | cons c rest ih =>
    cases b with
    | nil =>
      have hc : c = '/' := by
        have := congrArg head? h
        simpa using this
      exact absurd (by simp [hc]) ha
    | cons d rest' =>
      have hcd : c = d ∧ rest ++ '/' :: u = rest' ++ '/' :: v := by
        simpa using h
      have hih := ih (fun hm => ha (by simp [hm]))
        (fun hm => hb (by simp [hm])) hcd.2
      exact ⟨by rw [hcd.1, hih.1], hih.2⟩

theorem render_injective : Function.Injective render := by
  intro p
  induction p with
  | nil =>
    intro q h
    by_contra hq
    exact render_ne_nil (fun hq' => hq hq'.symm) h.symm
  | cons n rest ih =>
    intro q h
    cases q with
    | nil => exact absurd h (render_ne_nil (by simp))
    | cons m rest' =>
      by_cases hrest : rest = [] <;> by_cases hrest' : rest' = []
      · subst hrest hrest'
        rw [Name.ext h]
      · subst hrest
        rw [render_cons_of_ne_nil m hrest', render_singleton] at h
        exact absurd (by simp [h]) n.noSlash
      · subst hrest'
        rw [render_cons_of_ne_nil n hrest, render_singleton] at h
        exact absurd (by simp [← h]) m.noSlash
      · rw [render_cons_of_ne_nil n hrest, render_cons_of_ne_nil m hrest'] at h
        have hsplit := chars_append_slash_inj n.noSlash m.noSlash h
        rw [Name.ext hsplit.1, ih hsplit.2]

/-!
# Proper prefixes

`Below p q` says that `q` lies strictly under the directory `p`.
-/

def Below (p q : Path) : Prop :=
  p <+: q ∧ p ≠ q

instance (p q : Path) : Decidable (Below p q) :=
  inferInstanceAs (Decidable (_ ∧ _))

theorem below_iff_exists :
    Below p q <-> exists r : Path, r ≠ [] ∧ q = p ++ r := by
  constructor
  · intro h
    rcases h with ⟨⟨r, rfl⟩, hne⟩
    exists r
    constructor
    · intro hr
      exact hne (by simp [hr])
    · rfl
  · intro h
    rcases h with ⟨r, hr, rfl⟩
    exact ⟨prefix_append p r, by simpa using hr⟩

theorem Below.ne (h : Below p q) : p ≠ q := h.2

theorem Below.isPrefix (h : Below p q) : p <+: q := h.1

theorem not_below_self (p : Path) : ¬ Below p p := fun h => h.2 rfl

theorem Below.length_lt (h : Below p q) : p.length < q.length := by
  rcases below_iff_exists.mp h with ⟨r, hr, rfl⟩
  have hpos : 0 < r.length := length_pos_iff.mpr hr
  simp
  omega

theorem Below.not_symm (h : Below p q) : ¬ Below q p := by
  intro h'
  have := h.length_lt
  have := h'.length_lt
  omega

theorem Below.trans {p q r : Path} (h : Below p q) (h' : Below q r) :
    Below p r := by
  constructor
  · exact h.1.trans h'.1
  · intro hpr
    have := h.length_lt
    have := h'.length_lt
    rw [hpr] at *
    omega

theorem prefix_iff_eq_or_below :
    p <+: q <-> p = q ∨ Below p q := by
  constructor
  · intro h
    by_cases hpq : p = q
    · exact .inl hpq
    · exact .inr ⟨h, hpq⟩
  · intro h
    rcases h with rfl | h
    · exact prefix_rfl
    · exact h.1

theorem Below.trans_isPrefix {p q r : Path} (h : Below p q) (h' : q <+: r) :
    Below p r := by
  rcases prefix_iff_eq_or_below.mp h' with rfl | h'
  · exact h
  · exact h.trans h'

theorem below_of_isPrefix_of_below {p q r : Path} (h : p <+: q)
    (h' : Below q r) : Below p r := by
  rcases prefix_iff_eq_or_below.mp h with rfl | h
  · exact h'
  · exact h.trans h'

theorem below_append_singleton (p : Path) (n : Name) : Below p (p ++ [n]) :=
  below_iff_exists.mpr ⟨[n], by simp, rfl⟩

theorem below_append_singleton_iff {n : Name} :
    Below p (q ++ [n]) <-> p <+: q := by
  constructor
  · intro h
    rcases prefix_concat_iff.mp h.1 with heq | hpre
    · exact absurd heq h.2
    · exact hpre
  · intro h
    exact below_of_isPrefix_of_below h (below_append_singleton q n)

theorem nil_below_iff {p : Path} : Below [] p <-> p ≠ [] := by
  constructor
  · intro h hp
    exact h.2 hp.symm
  · intro h
    exact ⟨List.nil_prefix, fun hp => h hp.symm⟩

theorem prefix_or_below_of_prefix {p q r : Path} (hp : p <+: r)
    (hq : q <+: r) : p <+: q ∨ Below q p := by
  rcases prefix_or_prefix_of_prefix hp hq with h | h
  · exact .inl h
  · rcases prefix_iff_eq_or_below.mp h with rfl | h
    · exact .inl prefix_rfl
    · exact .inr h

/-!
# The string form of `Below`

Programs test `Below` by asking whether the rendered path starts with the
rendered directory followed by a slash.
-/

theorem render_slash_prefix_iff (hp : p ≠ []) :
    render p ++ ['/'] <+: render q <-> Below p q := by
  constructor
  · intro h
    induction p generalizing q with
    | nil => exact absurd rfl hp
    | cons n rest ih =>
      cases q with
      | nil =>
        rcases h with ⟨t, ht⟩
        simp at ht
      | cons m rest' =>
        by_cases hrest' : rest' = []
        · subst hrest'
          rcases h with ⟨t, ht⟩
          rw [render_singleton] at ht
          exact absurd (by simp [← ht]) m.noSlash
        rw [render_cons_of_ne_nil m hrest'] at h
        by_cases hrest : rest = []
        · subst hrest
          rcases h with ⟨t, ht⟩
          have hsplit := chars_append_slash_inj (u := t)
            n.noSlash m.noSlash (by simpa using ht)
          refine below_iff_exists.mpr ⟨rest', hrest', ?_⟩
          rw [Name.ext hsplit.1]
          rfl
        · rw [render_cons_of_ne_nil n hrest] at h
          rcases h with ⟨t, ht⟩
          have hsplit := chars_append_slash_inj
            (u := render rest ++ '/' :: t) n.noSlash m.noSlash
            (by simpa using ht)
          have hrec : Below rest rest' := ih hrest ⟨t, by simpa using hsplit.2⟩
          rcases below_iff_exists.mp hrec with ⟨r, hr, hrEq⟩
          refine below_iff_exists.mpr ⟨r, hr, ?_⟩
          rw [Name.ext hsplit.1, hrEq]
          rfl
  · intro h
    rcases below_iff_exists.mp h with ⟨r, hr, rfl⟩
    rw [render_append hp hr]
    exact ⟨render r, by simp⟩

/-!
# Path sets in string order

A sorted set of path strings, such as a `BTreeSet`, lists its paths once each
in the order of their renderings.
-/

def RenderLe (p q : Path) : Prop :=
  render p ≤ render q

instance : DecidableRel RenderLe :=
  fun p q => inferInstanceAs (Decidable (render p ≤ render q))

def orderedSet (ps : List Path) : List Path :=
  ps.dedup.insertionSort RenderLe

@[simp] theorem mem_orderedSet {ps : List Path} {p : Path} :
    p ∈ orderedSet ps <-> p ∈ ps := by
  simp [orderedSet]

theorem render_lt_of_below (h : Below p q) : render p < render q := by
  rcases below_iff_exists.mp h with ⟨r, hr, rfl⟩
  apply lt_of_le_of_ne _ fun heq => h.ne (render_injective heq)
  by_cases hp : p = []
  · rw [hp, render_nil]
    exact not_lt.mp (not_lt_nil _)
  · rw [render_append hp hr]
    exact not_lt.mp (@le_append_left Char _ _ (render p) _)

instance : Std.Total RenderLe := ⟨fun _ _ => le_total _ _⟩

instance : IsTrans Path RenderLe := ⟨fun _ _ _ => le_trans⟩

/-- Directories come before what is below them. -/
theorem pairwise_orderedSet (ps : List Path) :
    (orderedSet ps).Pairwise fun p q => ¬ Below q p := by
  apply (pairwise_insertionSort RenderLe ps.dedup).imp
  intro p q hle hbelow
  exact absurd (render_lt_of_below hbelow) (not_lt_of_ge hle)

/-!
# The directories above a path
-/

/-- The directories on the way from `done` down the given names. -/
def dirsFrom (done : Path) : Path -> List Path
  | [] => []
  | name :: rest => (done ++ [name]) :: dirsFrom (done ++ [name]) rest

/-- The directories above a path, outermost first. -/
def parentDirs (p : Path) : List Path :=
  dirsFrom [] p.dropLast

theorem mem_dirsFrom {done todo d : Path} :
    d ∈ dirsFrom done todo <->
      exists r, r ≠ [] ∧ r <+: todo ∧ d = done ++ r := by
  induction todo generalizing done with
  | nil =>
    rw [dirsFrom]
    constructor
    · nofun
    · rintro ⟨r, hr, hpre, _⟩
      exact absurd (prefix_nil.mp hpre) hr
  | cons name rest ih =>
    rw [dirsFrom, mem_cons, ih]
    constructor
    · rintro (rfl | ⟨r, hr, hpre, rfl⟩)
      · exact ⟨[name], by simp, by simp, rfl⟩
      · exact ⟨name :: r, by simp, by simpa using hpre, by simp⟩
    rintro ⟨r, hr, hpre, rfl⟩
    cases r with
    | nil => exact absurd rfl hr
    | cons n r =>
      rcases cons_prefix_cons.mp hpre with ⟨rfl, hrest⟩
      by_cases hnil : r = []
      · exact .inl (by rw [hnil])
      · exact .inr ⟨r, hnil, hrest, by simp⟩

theorem below_of_mem_dirsFrom {p done todo d : Path} (hp : p ≠ [])
    (hsplit : p.dropLast = done ++ todo) (h : d ∈ dirsFrom done todo) :
    Below d p := by
  rcases mem_dirsFrom.mp h with ⟨r, _, hpre, rfl⟩
  rcases eq_nil_or_concat' p with rfl | ⟨dirs, name, rfl⟩
  · exact absurd rfl hp
  rw [dropLast_concat] at hsplit
  rw [below_append_singleton_iff, hsplit]
  exact prefix_append_right_inj done |>.mpr hpre

theorem mem_parentDirs {p d : Path} :
    d ∈ parentDirs p <-> d ≠ [] ∧ Below d p := by
  unfold parentDirs
  rw [mem_dirsFrom]
  rcases eq_nil_or_concat' p with rfl | ⟨dirs, name, rfl⟩
  · simp only [dropLast_nil]
    constructor
    · rintro ⟨r, hr, hpre, _⟩
      exact absurd (prefix_nil.mp hpre) hr
    · rintro ⟨_, hd⟩
      exact absurd (prefix_nil.mp hd.isPrefix) hd.ne
  · rw [dropLast_concat, below_append_singleton_iff]
    constructor
    · rintro ⟨r, hr, hpre, rfl⟩
      exact ⟨hr, hpre⟩
    · rintro ⟨hd, hpre⟩
      exact ⟨d, hd, hpre, rfl⟩

/-!
# Absolute paths as texts

The root is a single slash, every other directory is its components with a
slash before each.  Programs that keep a flat table of such texts find what is
below a directory by comparing the start of a text.
-/

def absolute (p : Path) : Str :=
  '/' :: render p

/-- The start of the texts of all paths below a directory. -/
def below (p : Path) : Str :=
  if p = [] then ['/'] else absolute p ++ ['/']

@[simp] theorem absolute_nil : absolute [] = ['/'] := rfl

theorem absolute_injective : Function.Injective absolute := by
  intro p q h
  exact render_injective (tail_eq_of_cons_eq h)

@[simp] theorem absolute_inj : absolute p = absolute q <-> p = q :=
  absolute_injective.eq_iff

theorem absolute_eq_root {p : Path} : absolute p = ['/'] <-> p = [] := by
  rw [← absolute_nil, absolute_inj]

theorem absolute_append (p : Path) {r : Path} (hr : r ≠ []) :
    absolute (p ++ r) = below p ++ render r := by
  rw [below]
  split
  · rename_i hp
    rw [hp]
    rfl
  · rename_i hp
    rw [absolute, absolute, render_append hp hr]
    simp

theorem below_prefix_iff (hq : q ≠ []) :
    below p <+: absolute q <-> Below p q := by
  rw [below]
  split
  · rename_i hp
    rw [hp, nil_below_iff]
    exact ⟨fun _ => hq, fun _ => ⟨render q, rfl⟩⟩
  · rename_i hp
    rw [absolute, absolute, cons_append, cons_prefix_cons]
    exact ⟨fun h => (render_slash_prefix_iff hp).mp h.2,
      fun h => ⟨rfl, (render_slash_prefix_iff hp).mpr h⟩⟩

/-!
# The pieces of a text
-/

theorem render_eq_intercalate (q : Path) :
    render q = ['/'].intercalate (q.map Name.chars) := by
  induction q with
  | nil => rfl
  | cons name rest ih =>
    cases rest with
    | nil => simp
    | cons name' rest =>
      rw [render_cons_of_ne_nil name (cons_ne_nil _ _), ih]
      simp [intercalate_cons_cons]

theorem last_render_ne_slash {p : Path} (hp : p ≠ []) :
    (render p).getLast? ≠ some '/' := by
  intro h
  rcases eq_nil_or_concat' p with rfl | ⟨dirs, name, rfl⟩
  · exact hp rfl
  have hlast : (render (dirs ++ [name])).getLast? = name.chars.getLast? := by
    by_cases hd : dirs = []
    · rw [hd]
      rfl
    · rw [render_append hd (cons_ne_nil _ _), getLast?_append,
        getLast?_cons]
      cases hchars : name.chars.getLast? with
      | none => exact absurd (getLast?_eq_none_iff.mp hchars) name.nonempty
      | some c => simp [hchars]
  rw [hlast] at h
  exact name.noSlash (mem_of_getLast? h)

theorem splitOn_absolute {p : Path} (hp : p ≠ []) :
    (absolute p).splitOn '/' = [] :: p.map Name.chars := by
  have htext : absolute p = ['/'].intercalate ([] :: p.map Name.chars) := by
    rw [absolute, render_eq_intercalate]
    cases p with
    | nil => exact absurd rfl hp
    | cons name rest => simp [intercalate_cons_cons]
  rw [htext]
  apply splitOn_intercalate
  · intro chars hchars
    rcases mem_cons.mp hchars with rfl | hchars
    · exact not_mem_nil
    · rcases mem_map.mp hchars with ⟨name, _, rfl⟩
      exact name.noSlash
  · exact cons_ne_nil _ _

end Paths
end OpenViking
