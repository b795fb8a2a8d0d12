import OpenViking.Memfs.Rename

/-!
# The tree over a run of calls

From a new file system a run of calls keeps the map well formed, lets a failed
call change nothing and lets a rename move exactly its subtree, unless it comes
to one of three calls: `remove_all` of the root, a rename below the path that
is renamed, and a write with `CreateNew` to a file that is there.
-/

namespace OpenViking
namespace Memfs

open Paths Assoc FileEntry

/-- What one call leaves behind. -/
structure Kept (now : SystemTime) (call : Call) (entries : Entries) :
    Prop where
  formed : TreeFormed (call.perform now entries).2
  unchanged : forall e, (call.perform now entries).1 = .error e ->
    forall path, (call.perform now entries).2.find path = entries.find path
  moved : forall old new, call = .rename old new ->
    (call.perform now entries).1 = .ok () ->
    Moved old new entries (call.perform now entries).2

/-- The call is none of the three. -/
def Safe (now : SystemTime) (entries : Entries) : Call -> Prop
  | .removeAll path => path ≠ []
  | .rename old new =>
    ¬ (Below old new ∧ entries.find (absolute new) = none ∧
      checkParent entries (absolute new) = .ok ())
  | .write path _ _ .createNew =>
    forall entry, entries.find (absolute path) = some entry ->
      entry.isDir = false -> entry.modTime = now
  | _ => True

private theorem kept_of_unchanged {now : SystemTime} {call : Call}
    {entries : Entries} {e : Error} (h : Formed entries)
    (hrun : call.perform now entries = (.error e, entries)) :
    Kept now call entries ∧ Formed (call.perform now entries).2 := by
  rw [hrun]
  refine ⟨⟨?_, ?_, ?_⟩, h⟩
  · rw [hrun]
    exact h.treeFormed
  · rw [hrun]
    exact fun _ _ _ => rfl
  · rw [hrun]
    exact nofun

private theorem kept_of_ok {now : SystemTime} {call : Call}
    {entries entries' : Entries} (h : Formed entries')
    (hrun : call.perform now entries = (.ok (), entries'))
    (hcall : forall old new, call ≠ .rename old new) :
    Kept now call entries ∧ Formed (call.perform now entries).2 := by
  rw [hrun]
  refine ⟨⟨?_, ?_, ?_⟩, h⟩
  · rw [hrun]
    exact h.treeFormed
  · rw [hrun]
    exact nofun
  · intro old new heq
    exact absurd heq (hcall old new)

section Steps

variable {now : SystemTime} {entries : Entries}

theorem find_eq_get (entries : Entries) (p : Path) :
    entries.find (absolute p) = get entries p :=
  rfl

section

variable (h : Formed entries) (p : Path)

include h p

private theorem insertNew_cases (entry : FileEntry) :
    (exists e, insertNew (absolute p) entry entries =
      (.error e, entries)) ∨
    (exists entries', insertNew (absolute p) entry entries =
      (.ok (), entries') ∧ Formed entries') := by
  rw [insertNew]
  simp only [normalizePath_absolute, find_eq_get]
  cases hget : get entries p with
  | some old => exact .inl ⟨_, rfl⟩
  | none =>
    cases hcheck : checkParent entries (absolute p) with
    | error e => exact .inl ⟨e, rfl⟩
    | ok u => exact .inr ⟨_, rfl, h.insert entry hget hcheck⟩

private theorem create_kept : Kept now (Call.create p) entries ∧
      Formed ((Call.create p).perform now entries).2 := by
  rcases insertNew_cases h p (newFile now 0o644)
    with ⟨e, hrun⟩ | ⟨entries', hrun, hformed⟩
  · exact kept_of_unchanged h hrun
  · exact kept_of_ok hformed hrun nofun

private theorem mkdir_kept (mode : Nat) : Kept now (Call.mkdir p mode) entries ∧
      Formed ((Call.mkdir p mode).perform now entries).2 := by
  rcases insertNew_cases h p (newDir now mode)
    with ⟨e, hrun⟩ | ⟨entries', hrun, hformed⟩
  · exact kept_of_unchanged h hrun
  · exact kept_of_ok hformed hrun nofun

private theorem remove_kept : Kept now (Call.remove p) entries ∧
      Formed ((Call.remove p).perform now entries).2 := by
  have hrun : (Call.remove p).perform now entries =
      Memfs.remove (absolute p) entries := rfl
  rw [Memfs.remove] at hrun
  simp only [normalizePath_absolute, find_eq_get] at hrun
  cases hget : get entries p with
  | none =>
    rw [hget] at hrun
    exact kept_of_unchanged h hrun
  | some entry =>
    rw [hget] at hrun
    cases hdir : entry.isDir with
    | true =>
      simp only [hdir] at hrun
      exact kept_of_unchanged h hrun
    | false =>
      simp only [hdir] at hrun
      exact kept_of_ok (h.removeFile hget hdir) hrun nofun

private theorem truncate_kept (size : Nat) :
    Kept now (Call.truncate p size) entries ∧
      Formed ((Call.truncate p size).perform now entries).2 := by
  have hrun : (Call.truncate p size).perform now entries =
      Memfs.truncate now (absolute p) size entries := rfl
  rw [Memfs.truncate] at hrun
  simp only [normalizePath_absolute, find_eq_get] at hrun
  cases hget : get entries p with
  | none =>
    rw [hget] at hrun
    exact kept_of_unchanged h hrun
  | some entry =>
    rw [hget] at hrun
    cases hdir : entry.isDir with
    | true =>
      simp only [hdir] at hrun
      exact kept_of_unchanged h hrun
    | false =>
      simp only [hdir] at hrun
      refine kept_of_ok ?_ hrun nofun
      exact h.update hget hdir

end

theorem removeAll_run (p : Path) {entry : FileEntry}
    (hget : get entries p = some entry) :
    (Call.removeAll p).perform now entries =
      (.ok (), entries.delAll
        ((entries.bindings.map Prod.fst).filter fun key =>
          key == absolute p || decide (absolute p ++ ['/'] <+: key))) := by
  show Memfs.removeAll (absolute p) entries = _
  rw [Memfs.removeAll]
  simp only [normalizePath_absolute, find_eq_get, hget]
  rfl

theorem get_removeAll {p : Path} (hp : p ≠ []) (q : Path) :
    get (entries.delAll ((entries.bindings.map Prod.fst).filter fun key =>
      key == absolute p || decide (absolute p ++ ['/'] <+: key))) q =
        if p <+: q then none else get entries q := by
  rw [get, find_delAll]
  have hmem : absolute q ∈ ((entries.bindings.map Prod.fst).filter
      fun key => key == absolute p ||
        decide (absolute p ++ ['/'] <+: key)) <->
      ((get entries q).isSome = true ∧ p <+: q) := by
    have hbelow : absolute p ++ ['/'] <+: absolute q <-> Below p q := by
      rw [absolute, absolute, List.cons_append, List.cons_prefix_cons]
      exact ⟨fun h => (render_slash_prefix_iff hp).mp h.2,
        fun h => ⟨rfl, (render_slash_prefix_iff hp).mpr h⟩⟩
    rw [List.mem_filter, mem_keys, Bool.or_eq_true, beq_iff_eq,
      absolute_inj, decide_eq_true_iff, hbelow, prefix_iff_eq_or_below,
      find_eq_get]
    exact and_congr Iff.rfl (or_congr eq_comm Iff.rfl)
  simp only [hmem, find_eq_get]
  by_cases hpre : p <+: q
  · cases hq : get entries q with
    | none => simp
    | some e => simp [hpre]
  · simp [hpre]

section

variable (h : Formed entries)

include h

private theorem removeAll_kept {p : Path} (hp : p ≠ []) :
    Kept now (Call.removeAll p) entries ∧
      Formed ((Call.removeAll p).perform now entries).2 := by
  cases hget : get entries p with
  | none =>
    have hrun : (Call.removeAll p).perform now entries =
        (.error (Error.notFound (absolute p)), entries) := by
      show Memfs.removeAll (absolute p) entries = _
      rw [Memfs.removeAll]
      simp only [normalizePath_absolute, find_eq_get, hget]
      rfl
    exact kept_of_unchanged h hrun
  | some entry =>
    refine kept_of_ok ?_ (removeAll_run p hget) nofun
    apply h.without hp
    · exact get_removeAll hp
    · intro path e hfind
      exact h.canonical path e (find_delAll_eq_some.mp hfind).2

private theorem write_kept (p : Path) (data : Bytes)
    (offset : Nat) (flags : WriteFlag)
    (hsafe : Safe now entries (Call.write p data offset flags)) :
    Kept now (Call.write p data offset flags) entries ∧
      Formed ((Call.write p data offset flags).perform now entries).2 := by
  have hrun := @rfl _ ((Call.write p data offset flags).perform now entries)
  have hcall : forall old new, Call.write p data offset flags ≠ .rename old new := by
    rintro _ _ ⟨⟩
  conv at hrun => rhs; rw [Call.perform, Memfs.write]
  simp only [normalizePath_absolute, find_eq_get] at hrun
  cases hget : get entries p with
  | none =>
    rw [hget] at hrun
    by_cases hflags : flags = WriteFlag.create ∨ flags = WriteFlag.createNew
    · simp only [if_pos hflags] at hrun
      cases hcheck : checkParent entries (absolute p) with
      | error e =>
        rw [hcheck] at hrun
        exact kept_of_unchanged h hrun
      | ok u =>
        rw [hcheck] at hrun
        exact kept_of_ok (h.insert _ hget hcheck) hrun hcall
    · simp only [if_neg hflags] at hrun
      exact kept_of_unchanged h hrun
  | some entry =>
    rw [hget] at hrun
    cases hdir : entry.isDir with
    | true =>
      simp only [hdir] at hrun
      exact kept_of_unchanged h hrun
    | false =>
      have hformed : forall data', Formed (entries.put (absolute p)
          { entry.touch now with data := data' }) := by
        intro data'
        exact h.update hget rfl
      simp only [hdir, Bool.false_eq_true, if_false] at hrun
      cases flags with
      | create =>
        exact kept_of_ok (hformed data) hrun hcall
      | truncate =>
        exact kept_of_ok (hformed data) hrun hcall
      | append =>
        exact kept_of_ok (hformed _) hrun hcall
      | none =>
        exact kept_of_ok (hformed _) hrun hcall
      | createNew =>
        have htime : entry.touch now = entry := by
          rw [touch, ← hsafe entry hget hdir]
        rw [htime] at hrun
        have hfind : forall path, (entries.put (absolute p) entry).find path =
              entries.find path := by
          intro path
          rw [find_put]
          split
          · rename_i heq
            rw [heq]
            exact hget.symm
          · rfl
        have hsame : Formed (entries.put (absolute p) entry) := h.update hget rfl
        rw [hrun]
        refine ⟨⟨?_, ?_, ?_⟩, hsame⟩
        · rw [hrun]
          exact hsame.treeFormed
        · rw [hrun]
          exact fun _ _ => hfind
        · intro old new heq
          exact absurd heq (hcall old new)

private theorem replace_kept (src dst : Path) :
    Kept now (Call.replace src dst) entries ∧
      Formed ((Call.replace src dst).perform now entries).2 := by
  have hrun : (Call.replace src dst).perform now entries =
      Memfs.replace (absolute src) (absolute dst) entries := rfl
  rw [Memfs.replace] at hrun
  simp only [normalizePath_absolute, find_eq_get] at hrun
  cases hsrc : get entries src with
  | none =>
    rw [hsrc] at hrun
    exact kept_of_unchanged h hrun
  | some entry =>
    rw [hsrc] at hrun
    cases hdir : entry.isDir with
    | true =>
      simp only [hdir] at hrun
      exact kept_of_unchanged h hrun
    | false =>
      simp only [hdir] at hrun
      cases hcheck : checkParent entries (absolute dst) with
      | error e =>
        rw [hcheck] at hrun
        exact kept_of_unchanged h hrun
      | ok u =>
        rw [hcheck] at hrun
        cases hdst : (get entries dst).any isDir with
        | true =>
          simp only [hdst] at hrun
          exact kept_of_unchanged h hrun
        | false =>
          simp only [hdst] at hrun
          exact kept_of_ok (h.replaced hsrc hdir hcheck hdst) hrun nofun

private theorem rename_kept {old new : Path}
    (hsafe : Safe now entries (Call.rename old new)) :
    Kept now (Call.rename old new) entries ∧
      Formed ((Call.rename old new).perform now entries).2 := by
  have hrun : (Call.rename old new).perform now entries =
      Memfs.rename (absolute old) (absolute new) entries := rfl
  cases hold : get entries old with
  | none =>
    rw [Memfs.rename] at hrun
    simp only [normalizePath_absolute, find_eq_get, hold] at hrun
    exact kept_of_unchanged h hrun
  | some entry =>
    cases hnew : get entries new with
    | some taken =>
      rw [Memfs.rename] at hrun
      simp only [normalizePath_absolute, find_eq_get, hold, hnew] at hrun
      exact kept_of_unchanged h hrun
    | none =>
      cases hcheck : checkParent entries (absolute new) with
      | error e =>
        rw [Memfs.rename] at hrun
        simp only [normalizePath_absolute, find_eq_get, hold, hnew,
          hcheck] at hrun
        exact kept_of_unchanged h hrun
      | ok u =>
        rw [rename_eq h hold hnew hcheck] at hrun
        have hbelow : ¬ Below old new := fun hlt => hsafe ⟨hlt, hnew, hcheck⟩
        have hapart := apart_of_free h hold hnew hbelow
        have hmoved := moved_moveAll h hold hnew hapart
        have hformed := h.moved hmoved hapart hcheck
        rw [hrun]
        refine ⟨⟨?_, ?_, ?_⟩, hformed⟩
        · rw [hrun]
          exact hformed.treeFormed
        · rw [hrun]
          rintro _ ⟨⟩
        · rw [hrun]
          intro old' new' heq _
          cases heq
          exact hmoved

theorem safe_kept (call : Call) (hsafe : Safe now entries call) :
    Kept now call entries ∧ Formed (call.perform now entries).2 := by
  cases call with
  | create p => exact create_kept h p
  | mkdir p mode => exact mkdir_kept h p mode
  | write p data offset flags => exact write_kept h p data offset flags hsafe
  | remove p => exact remove_kept h p
  | removeAll p => exact removeAll_kept h hsafe
  | rename old new => exact rename_kept h hsafe
  | replace src dst => exact replace_kept h src dst
  | truncate p size => exact truncate_kept h p size

end

/-!
# The three calls
-/

private theorem removeAll_root_not_kept (h : Formed entries) :
    ¬ Kept now (Call.removeAll []) entries := by
  intro hkept
  rcases h.root with ⟨d, hd, _⟩
  rcases hkept.formed.root with ⟨d', hd', _⟩
  rw [removeAll_run [] hd, find_delAll_eq_some, List.mem_filter] at hd'
  apply hd'.1
  exact ⟨mem_keys.mpr (by rw [show entries.find ['/'] = some d from hd]; rfl),
    by simp⟩

private theorem rename_below_not_kept (h : Formed entries) {old new : Path}
    (hbelow : Below old new) (hnew : get entries new = none)
    (hcheck : checkParent entries (absolute new) = .ok ()) :
    ¬ Kept now (Call.rename old new) entries := by
  intro hkept
  have hold : IsDir entries old := by
    rcases (checkParent_absolute entries new).mp hcheck with hnil | hdir
    · rw [hnil] at hbelow
      exact absurd (List.prefix_nil.mp hbelow.isPrefix) hbelow.ne
    have hne : new ≠ [] := by
      intro hnil
      rw [hnil] at hbelow
      exact hbelow.ne (List.prefix_nil.mp hbelow.isPrefix)
    rcases List.eq_nil_or_concat' new with hnil | ⟨dirs, name, hconcat⟩
    · exact absurd hnil hne
    · rw [hconcat, List.dropLast_concat] at hdir
      rw [hconcat, below_append_singleton_iff] at hbelow
      rcases prefix_iff_eq_or_below.mp hbelow with heq | hlt
      · rw [heq]
        exact hdir
      · rcases hdir with ⟨d, hd, _⟩
        exact h.isDir_of_below hlt hd
  rcases hold with ⟨entry, hentry, _⟩
  have hrun : (Call.rename old new).perform now entries =
      (.ok (), moveAll entries old new entry) :=
    rename_eq h hentry hnew hcheck
  have hformed := hkept.formed
  rw [hrun] at hformed
  rcases moveAll_below h entry hnew hbelow with ⟨harrived, hgone⟩
  have hcanonical := moveAll_canonical h old new entry
  cases hget : get (moveAll entries old new entry) new with
  | none => exact harrived hget
  | some e =>
    rcases (hformed.formed hcanonical).isDir_of_below hbelow hget with ⟨d, hd, _⟩
    rw [hgone] at hd
    cases hd

private theorem write_new_not_kept {p : Path} {data : Bytes} {offset : Nat}
    {entry : FileEntry} (hget : get entries p = some entry)
    (hfile : entry.isDir = false) (htime : entry.modTime ≠ now) :
    ¬ Kept now (Call.write p data offset WriteFlag.createNew) entries := by
  intro hkept
  have hwrite : Memfs.write now (absolute p) data offset WriteFlag.createNew
      entries = (.error (Error.alreadyExists (absolute p)),
        entries.put (absolute p) (entry.touch now)) := by
    rw [Memfs.write]
    simp only [normalizePath_absolute, find_eq_get, hget, hfile,
      Bool.false_eq_true, if_false]
  have hrun : (Call.write p data offset WriteFlag.createNew).perform now
      entries = (.error (Error.alreadyExists (absolute p)),
        entries.put (absolute p) (entry.touch now)) := by
    rw [Call.perform, hwrite]
  have hsame := hkept.unchanged (Error.alreadyExists (absolute p))
    (by rw [hrun]) (absolute p)
  rw [hrun, find_put_self, find_eq_get, hget] at hsame
  have hnow := congrArg modTime (Option.some.inj hsame)
  exact htime hnow.symm

theorem kept_iff_safe (h : Formed entries) (call : Call) :
    Kept now call entries <-> Safe now entries call := by
  constructor
  · intro hkept
    cases call with
    | removeAll p =>
      intro hp
      rw [hp] at hkept
      exact removeAll_root_not_kept h hkept
    | rename old new =>
      intro hbad
      exact rename_below_not_kept h hbad.1 hbad.2.1 hbad.2.2 hkept
    | write p data offset flags =>
      cases flags with
      | createNew =>
        intro entry hget hfile
        by_contra htime
        exact write_new_not_kept hget hfile htime hkept
      | _ => trivial
    | _ => trivial
  · intro hsafe
    exact (safe_kept h call hsafe).1

end Steps

/-!
# Runs
-/

theorem formed_new (now : SystemTime) : Formed (new now) := by
  have hget : forall p, get (new now) p =
      if p = [] then some (newDir now 0o755) else none := by
    intro p
    rw [new, ← absolute_nil, get_put, get, find_empty]
  constructor
  · intro path e hfind
    rw [new, find_put] at hfind
    split at hfind
    · rename_i hpath
      exact ⟨[], hpath⟩
    · rw [find_empty] at hfind
      cases hfind
  · exact ⟨newDir now 0o755, by rw [hget, if_pos rfl], rfl⟩
  · intro p n e hfind
    rw [hget, if_neg (by simp)] at hfind
    cases hfind

def KeepsTree (calls : List (SystemTime × Call)) (entries : Entries) : Prop :=
  forall before now call rest, calls = before ++ (now, call) :: rest ->
    Kept now call (after before entries)

def SafeRun (calls : List (SystemTime × Call)) (entries : Entries) : Prop :=
  forall before now call rest, calls = before ++ (now, call) :: rest ->
    Safe now (after before entries) call

private theorem forall_splits_cons {P : SystemTime -> Call -> Entries -> Prop}
    (t : SystemTime) (c : Call) (calls : List (SystemTime × Call))
    (entries : Entries) :
    (forall before now call rest,
      (t, c) :: calls = before ++ (now, call) :: rest ->
        P now call (after before entries)) <->
    (P t c entries ∧
      forall before now call rest, calls = before ++ (now, call) :: rest ->
        P now call (after before (c.perform t entries).2)) := by
  constructor
  · intro h
    constructor
    · exact h [] t c calls rfl
    · intro before now call rest heq
      exact h ((t, c) :: before) now call rest (by rw [heq]; rfl)
  · intro h before now call rest heq
    cases before with
    | nil =>
      cases heq
      exact h.1
    | cons first before =>
      cases heq
      exact h.2 before now call rest rfl

theorem keepsTree_iff {calls : List (SystemTime × Call)} {entries : Entries}
    (h : Formed entries) :
    KeepsTree calls entries <-> SafeRun calls entries := by
  induction calls generalizing entries with
  | nil =>
    constructor
    · intro _ before now call rest heq
      cases before <;> cases heq
    · intro _ before now call rest heq
      cases before <;> cases heq
  | cons first calls ih =>
    rcases first with ⟨t, c⟩
    rw [KeepsTree, SafeRun,
      forall_splits_cons (P := fun now call entries => Kept now call entries),
      forall_splits_cons (P := fun now call entries => Safe now entries call)]
    constructor
    · intro hkeeps
      have hsafe := (kept_iff_safe h c).mp hkeeps.1
      have hnext := (safe_kept h c hsafe).2
      exact ⟨hsafe, (ih hnext).mp hkeeps.2⟩
    · intro hsafe
      have hnext := (safe_kept h c hsafe.1).2
      exact ⟨(kept_iff_safe h c).mpr hsafe.1, (ih hnext).mpr hsafe.2⟩

/-- From a new file system a run keeps the tree exactly when no call removes
the root, moves a directory below itself or asks for a new file where one is. -/
theorem tree_kept_iff (start : SystemTime)
    (calls : List (SystemTime × Call)) :
    (TreeFormed (new start) ∧ KeepsTree calls (new start)) <->
      SafeRun calls (new start) := by
  rw [keepsTree_iff (formed_new start)]
  exact and_iff_right (formed_new start).treeFormed

/-- `mkdir("/a")` and `rename("/a", "/a/b")`. -/
theorem directory_moved_below_itself :
    ¬ KeepsTree
      [(1, .mkdir [Name.ofString "a"] 0o755),
       (2, .rename [Name.ofString "a"]
        [Name.ofString "a", Name.ofString "b"])] (new 0) := by
  intro h
  have hkept := h [(1, .mkdir [Name.ofString "a"] 0o755)] 2
    (.rename [Name.ofString "a"] [Name.ofString "a", Name.ofString "b"])
    [] rfl
  rcases hkept.formed.parent "/a/b".toList (FileEntry.newDir 1 0o755)
    "/a".toList (by decide +kernel) (by decide +kernel) with ⟨d, hd, _⟩
  have hnone : (after [(1, .mkdir [Name.ofString "a"] 0o755),
      (2, .rename [Name.ofString "a"]
        [Name.ofString "a", Name.ofString "b"])] (new 0)).find "/a".toList =
      none := by decide +kernel
  exact absurd (hnone.symm.trans hd) (Option.some_ne_none d).symm

end Memfs
end OpenViking
