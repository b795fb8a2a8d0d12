import OpenViking.Git.Flatten
import OpenViking.Git.WriteCanonical

/-!
# Writing the same files from an empty editor

An editor that is filled from empty with the files of a tree writes a canonical
tree.  An edited tree is the same one exactly when it has no empty directory.
-/

namespace OpenViking
namespace Git

open Paths Interleaving List

namespace TreeEditor

/-- Every directory that still has entries holds a file. -/
def Populated (e : TreeEditor) : Prop :=
  forall d, d ≠ [] -> e.IsDir d -> (e.dirEntries d).keys ≠ [] ->
    exists q, Below d q ∧ e.blobAt q ≠ none

variable {e : TreeEditor}

theorem populated_iff :
    e.Populated <-> PopulatedFrom e.subtrees.find [] e.root := by
  constructor
  · intro h d oid hget hkeys
    have hd : d ≠ [] := by
      rintro rfl
      cases hget
    have hdir : e.IsDir d := Or.inr ⟨oid, hget⟩
    have hentries : (e.dirEntries d).keys ≠ [] := by
      have hget' : e.get? d = some (.tree oid) := hget
      unfold dirEntries
      rw [if_neg hd, hget']
      exact hkeys
    rcases h d hd hdir hentries with ⟨q, hbelow, hblob⟩
    rcases below_iff_exists.mp hbelow with ⟨r, _, rfl⟩
    rcases Option.ne_none_iff_exists'.mp hblob with ⟨file, hfile⟩
    exact ⟨r, file, Entry.eq_blob_of_bind hfile⟩
  · intro h d hd hdir hkeys
    rcases hdir with hnil | ⟨oid, hget⟩
    · exact absurd hnil hd
    have hkeys' : (childEntries e.subtrees.find ([] ++ d) oid).keys ≠ [] := by
      unfold dirEntries at hkeys
      rw [if_neg hd, hget] at hkeys
      exact hkeys
    rcases h d oid hget hkeys' with ⟨r, file, hfile⟩
    have hr : r ≠ [] := by
      rintro rfl
      rw [append_nil] at hfile
      have hsame : e.get? d = some (.blob file) := hfile
      rw [hget] at hsame
      cases hsame
    refine ⟨d ++ r, below_iff_exists.mpr ⟨r, hr, rfl⟩, ?_⟩
    have hblob : e.blobAt (d ++ r) = some file := blobAt_eq_some_iff.mpr hfile
    rw [hblob]
    exact Option.some_ne_none file

theorem pruned_write_iff (hvalid : e.Valid) (hheld : e.Held) :
    e.write.Pruned <-> e.Populated := by
  have hroot : e.entriesAt [] = some e.root := by simp [entriesAt]
  have hfuel : forall d, e.Loaded ([] ++ d) -> d.length < e.depth :=
    fun d hd => length_lt_depth (by simpa using hd)
  rw [populated_iff]
  constructor
  · exact writeSubtree_populated hvalid hheld hroot hfuel
  · exact writeSubtree_pruned hvalid hheld hroot hfuel

theorem canonical_write (hvalid : e.Valid) (hheld : e.Held)
    (hpruned : e.write.Pruned) : e.write.Canonical :=
  ⟨write_wellFormed hvalid, writeSubtree_ordered hheld _ (by simp [entriesAt]), hpruned⟩

/-!
# Filling an empty editor
-/

def fill (files : List (Path × BlobId)) : List EditorCall :=
  files.map fun f => .upsert f.1 f.2

/-- The paths are those of files: each once, and none below another. -/
structure FilePaths (files : List (Path × BlobId)) : Prop where
  nonempty : forall f, f ∈ files -> f.1 ≠ []
  nodup : (files.map Prod.fst).Nodup
  apart : forall f g, f ∈ files -> g ∈ files -> ¬ Below f.1 g.1

structure Filled (e : TreeEditor) (files : List (Path × BlobId)) : Prop where
  valid : e.Valid
  held : e.Held
  files_iff : forall p oid, e.blobAt p = some oid <-> (p, oid) ∈ files
  connected : forall d, e.Loaded d -> e.IsDir d
  populated : forall d, d ≠ [] -> e.IsDir d -> exists f, f ∈ files ∧ Below d f.1

theorem filled_empty : Filled empty [] := by
  have hnil : Tree.nil.WellFormed := trivial
  have hheld : (fromTree .nil).Held := fromTree_held ⟨trivial, trivial, trivial⟩
  have hget : forall p, (fromTree .nil).get? p = none := by
    intro p
    rw [get?_fromTree, Tree.get?_of_nil]
  refine ⟨fromTree_valid hnil, hheld, ?_, ?_, ?_⟩
  · intro p oid
    constructor
    · intro h
      rw [empty_eq_fromTree, blobAt, hget] at h
      cases h
    · rintro ⟨⟩
  · intro d hload
    have hload' : (fromTree .nil).Loaded d := hload
    rw [fromTree_loaded hload']
    exact isDir_nil _
  · intro d hd hdir
    rcases hdir with hnil | ⟨oid, hoid⟩
    · exact absurd hnil hd
    · rw [empty_eq_fromTree, hget] at hoid
      cases hoid

variable {files : List (Path × BlobId)}

theorem FilePaths.init {f : Path × BlobId}
    (h : FilePaths (files ++ [f])) : FilePaths files := by
  have hmem : forall g, g ∈ files -> g ∈ files ++ [f] :=
    fun g hg => mem_append_left _ hg
  refine ⟨fun g hg => h.nonempty g (hmem g hg), ?_,
    fun g g' hg hg' => h.apart g g' (hmem g hg) (hmem g' hg')⟩
  have hnodup := h.nodup
  rw [map_append] at hnodup
  exact hnodup.of_append_left

theorem Filled.upsert
    {f : Path × BlobId} (h : Filled e files) (hpaths : FilePaths (files ++ [f])) :
    exists e', e.upsert f.1 f.2 = Except.ok e' ∧ Filled e' (files ++ [f]) := by
  have hf : f ∈ files ++ [f] := mem_append_right _ mem_cons_self
  have hp : f.1 ≠ [] := hpaths.nonempty f hf
  have hnew : forall oid, (f.1, oid) ∉ files := by
    intro oid hmem
    have hnodup := hpaths.nodup
    rw [map_append, nodup_append] at hnodup
    have hpath : f.1 ∈ files.map Prod.fst := mem_map.mpr ⟨(f.1, oid), hmem, rfl⟩
    exact hnodup.2.2 f.1 hpath f.1 mem_cons_self rfl
  have happart : forall g, g ∈ files -> ¬ Below f.1 g.1 ∧ ¬ Below g.1 f.1 := by
    intro g hg
    have hg' : g ∈ files ++ [f] := mem_append_left _ hg
    exact ⟨hpaths.apart f g hf hg', hpaths.apart g f hg' hf⟩
  have hconn : EditorCall.Connected e f.1 := fun d _ hload => h.connected d hload
  rcases upsert_applies h.valid hp f.2 hconn with ⟨e', hrun, _, happ⟩
  rcases upsert_ok h.valid hp f.2 hconn with
    ⟨e'', hrun', hvalid, hself, hdirs, hbelow, hother, hloaded⟩
  rw [hrun] at hrun'
  cases hrun'
  have hnotDir : forall q, f.1 <+: q -> ¬ e'.IsDir q := by
    intro q hpre hdir
    have hleaf : e'.get? q = none ∨ e'.get? q = some (.blob f.2) := by
      rcases prefix_iff_eq_or_below.mp hpre with rfl | hb
      · exact .inr hself
      · exact .inl (hbelow q hb)
    rcases hdir with hnil | ⟨oid, hoid⟩
    · rw [hnil] at hpre
      exact hp (prefix_nil.mp hpre)
    · rcases hleaf with hleaf | hleaf
      · rw [hoid] at hleaf
        cases hleaf
      · rw [hoid] at hleaf
        cases hleaf
  refine ⟨e', hrun, hvalid, h.held.upsert hp hrun, ?_, ?_, ?_⟩
  · intro p oid
    rw [happ, EditorCall.apply, mem_append, mem_singleton]
    by_cases hpf : p = f.1
    · rw [if_pos hpf, hpf]
      constructor
      · intro heq
        cases heq
        exact .inr rfl
      · rintro (hmem | heq)
        · exact absurd hmem (hnew oid)
        · rw [← heq]
    · rw [if_neg hpf]
      have hne : (p, oid) ≠ f := fun heq => hpf (congrArg Prod.fst heq)
      by_cases hrel : Below f.1 p ∨ Below p f.1
      · rw [if_pos hrel]
        constructor
        · rintro ⟨⟩
        · rintro (hmem | heq)
          · rcases hrel with hrel | hrel
            · exact absurd hrel (happart _ hmem).1
            · exact absurd hrel (happart _ hmem).2
          · exact absurd heq hne
      · rw [if_neg hrel, h.files_iff]
        constructor
        · exact .inl
        · rintro (hmem | heq)
          · exact hmem
          · exact absurd heq hne
  · intro q hload
    rcases (hloaded q).mp hload with hold | hbelow'
    · have hdir := h.connected q hold
      by_cases hpre : f.1 <+: q
      · exfalso
        have hq : q ≠ [] := by
          rintro rfl
          exact hp (prefix_nil.mp hpre)
        rcases h.populated q hq hdir with ⟨g, hg, hb⟩
        exact (happart g hg).1 (below_of_isPrefix_of_below hpre hb)
      · rcases hdir with hnil | ⟨oid, hget⟩
        · exact .inl hnil
        · refine .inr ⟨oid, ?_⟩
          rw [hother q hpre (Or.inr (Or.inr ⟨oid, hget⟩)), hget]
    · exact hdirs q hbelow'
  · intro d hd hdir
    by_cases hb : Below d f.1
    · exact ⟨f, hf, hb⟩
    have hpre : ¬ f.1 <+: d := fun hpre => hnotDir d hpre hdir
    have hold : e.IsDir d := by
      rcases hdir with hnil | ⟨oid, hget⟩
      · exact absurd hnil hd
      · rw [hother d hpre (Or.inl hb)] at hget
        exact .inr ⟨oid, hget⟩
    rcases h.populated d hd hold with ⟨g, hg, hbg⟩
    exact ⟨g, mem_append_left _ hg, hbg⟩

theorem fill_ok (hpaths : FilePaths files) :
    exists e, run step empty (fill files) = some e ∧ Filled e files := by
  induction files using reverseRecOn with
  | nil => exact ⟨empty, rfl, filled_empty⟩
  | append_singleton files f ih =>
    rcases ih hpaths.init with ⟨e, hrun, hfilled⟩
    rcases hfilled.upsert hpaths with ⟨e', hupsert, hfilled'⟩
    refine ⟨e', ?_, hfilled'⟩
    rw [fill, map_append]
    have hlast : run step e [.upsert f.1 f.2] = some e' := by
      rw [run, step, EditorCall.run, hupsert]
      rfl
    rw [← hlast]
    exact run_append step hrun

theorem Filled.canonical
    (h : Filled e files) : e.write.Canonical := by
  apply canonical_write h.valid h.held
  apply (pruned_write_iff h.valid h.held).mpr
  intro d hd hdir _
  rcases h.populated d hd hdir with ⟨f, hf, hbelow⟩
  refine ⟨f.1, hbelow, ?_⟩
  rw [(h.files_iff f.1 f.2).mpr hf]
  exact Option.some_ne_none f.2

theorem filePaths_flatten {t : Tree} (h : t.WellFormed) : FilePaths t.flatten := by
  refine ⟨?_, Tree.nodup_flatten_paths h, ?_⟩
  · rintro ⟨p, oid⟩ hmem rfl
    have hblob := (Tree.mem_flatten h).mp hmem
    rw [Tree.blobAt_nil_path] at hblob
    cases hblob
  · rintro ⟨p, oid⟩ ⟨q, oid'⟩ hp hq hbelow
    have hblob := (Tree.mem_flatten h).mp hq
    rw [Tree.blobAt_of_below_blob ((Tree.mem_flatten h).mp hp) hbelow] at hblob
    cases hblob

theorem FilePaths.perm {files others : List (Path × BlobId)} (h : FilePaths others)
    (hperm : files.Perm others) : FilePaths files :=
  ⟨fun f hf => h.nonempty f (hperm.mem_iff.mp hf),
    (hperm.map Prod.fst).nodup_iff.mpr h.nodup,
    fun f g hf hg => h.apart f g (hperm.mem_iff.mp hf) (hperm.mem_iff.mp hg)⟩

/-!
# Edited trees
-/

/-- The call stores or removes a file. -/
def EditsFiles : EditorCall -> Prop
  | .upsert path _ => path ≠ []
  | .remove path => path ≠ []
  | .upsertSubtree _ _ => False

theorem EditsFiles.wellFormed {call : EditorCall} (h : EditsFiles call) :
    call.WellFormed := by
  cases call with
  | upsert p oid => exact h
  | remove p => exact h
  | upsertSubtree p sub => exact h.elim

theorem run_edits (hvalid : e.Valid) (hheld : e.Held)
    {calls : List EditorCall} (hcalls : forall call, call ∈ calls -> EditsFiles call) :
    exists e', run step e calls = some e' ∧ e'.Valid ∧ e'.Held := by
  induction calls generalizing e with
  | nil => exact ⟨e, rfl, hvalid, hheld⟩
  | cons call rest ih =>
    have hcall := hcalls call mem_cons_self
    rcases call_applies_iff hvalid hcall.wellFormed with ⟨e₁, hstep, hvalid₁, _⟩
    have hheld₁ : e₁.Held := by
      unfold step at hstep
      cases call with
      | upsert p oid =>
        cases hrun : e.upsert p oid with
        | error err =>
          rw [EditorCall.run, hrun] at hstep
          cases hstep
        | ok e' =>
          rw [EditorCall.run, hrun] at hstep
          cases hstep
          exact hheld.upsert hcall hrun
      | remove p =>
        cases hrun : e.remove p with
        | error err =>
          rw [EditorCall.run, hrun] at hstep
          cases hstep
        | ok e' =>
          rw [EditorCall.run, hrun] at hstep
          cases hstep
          exact hheld.remove hcall hrun
      | upsertSubtree p sub => exact hcall.elim
    rcases ih hvalid₁ hheld₁ fun c hc => hcalls c (mem_cons_of_mem _ hc) with
      ⟨e', hrun, hvalid', hheld'⟩
    refine ⟨e', ?_, hvalid', hheld'⟩
    rw [run, hstep]
    exact hrun

/-- After edits of a canonical tree, writing gives the tree that its files alone give, with
no empty directory below the root, exactly when every directory that still has entries
holds a file. -/
theorem write_canonical_iff {t : Tree} (ht : t.Canonical) {calls : List EditorCall}
    (hcalls : forall call, call ∈ calls -> EditsFiles call) :
    exists e, run step (fromTree t) calls = some e ∧
      ((e.write.Pruned ∧ forall files : List (Path × BlobId),
        files.Perm e.write.flatten -> exists fresh : TreeEditor,
          run step empty (fill files) = some fresh ∧
            fresh.write = e.write) <-> e.Populated) := by
  rcases run_edits (fromTree_valid ht.wellFormed) (fromTree_held ht) hcalls with
    ⟨e, hrun, hvalid, hheld⟩
  refine ⟨e, hrun, ?_⟩
  rw [← pruned_write_iff hvalid hheld]
  constructor
  · exact fun h => h.1
  intro hpruned
  refine ⟨hpruned, ?_⟩
  intro files hperm
  have hwf := write_wellFormed hvalid
  rcases fill_ok ((filePaths_flatten hwf).perm hperm) with ⟨fresh, hfresh, hfilled⟩
  refine ⟨fresh, hfresh, ?_⟩
  apply hfilled.canonical.eq_of_blobAt (canonical_write hvalid hheld hpruned)
  intro p
  apply Option.ext
  intro oid
  rw [blobAt_write hfilled.valid, hfilled.files_iff, hperm.mem_iff,
    Tree.mem_flatten hwf]

/-!
# Two runs
-/

namespace Sample

/-- Two files are stored deep down and the second is removed. -/
def pruned : List EditorCall :=
  [.upsert [dir, left] oid, .upsert [dir, dir, right] oid, .remove [dir, dir, right]]

/-- The only file of a nested directory is removed. -/
def emptied : List EditorCall :=
  [.upsert [dir, dir, right] oid, .remove [dir, dir, right]]

end Sample

open Sample

/-- What is left is written as if it had been stored alone. -/
theorem write_canonical_pruned :
    exists e, run step (fromTree .nil) Sample.pruned = some e ∧
      e.write = .dir dir (.blob left oid .nil) .nil ∧
      forall files : List (Path × BlobId), files.Perm [([dir, left], oid)] ->
        exists fresh : TreeEditor, run step empty (fill files) = some fresh ∧
          fresh.write = e.write := by
  have hbase : Tree.nil.Canonical := ⟨trivial, trivial, trivial⟩
  have hcalls : forall call, call ∈ Sample.pruned -> EditsFiles call := by
    intro call hcall
    simp only [Sample.pruned, List.mem_cons, List.not_mem_nil, or_false] at hcall
    rcases hcall with rfl | rfl | rfl
    · exact List.cons_ne_nil _ _
    · exact List.cons_ne_nil _ _
    · exact List.cons_ne_nil _ _
  have hwritten : (run step (fromTree .nil) Sample.pruned).map TreeEditor.write =
      some (.dir dir (.blob left oid .nil) .nil) := by
    decide +kernel
  rcases write_canonical_iff hbase hcalls with ⟨e, hrun, hiff⟩
  rcases run_edits (fromTree_valid hbase.wellFormed) (fromTree_held hbase) hcalls with
    ⟨e', hrun', hvalid, hheld⟩
  rw [hrun] at hrun' hwritten
  cases hrun'
  have hwrite : e.write = .dir dir (.blob left oid .nil) .nil :=
    Option.some.inj hwritten
  have hpopulated : e.Populated := by
    apply (pruned_write_iff hvalid hheld).mp
    rw [hwrite]
    exact ⟨Tree.noConfusion, trivial, trivial⟩
  have hfresh := (hiff.mpr hpopulated).2
  refine ⟨e, hrun, hwrite, ?_⟩
  intro files hfiles
  apply hfresh files
  rw [hwrite]
  exact hfiles

/-- The written root lists an empty directory, and holds no file. -/
theorem emptied_directory_written :
    (run step (fromTree .nil) emptied).map
        (fun e => (e.write, e.write.flatten)) =
      some (.dir dir .nil .nil, []) ∧
    (run step empty (fill [])).map (fun e => e.write) =
      some .nil := by
  decide +kernel

end TreeEditor
end Git
end OpenViking
