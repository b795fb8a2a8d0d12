import OpenViking.Access.Confined

/-!
# Accepted requests are confined

The protected areas are closed for every accepted write or removal.  Two
accepted URIs of different owners that keep the names of their owners have
different storage paths.
-/

namespace OpenViking
namespace Access

open Paths Segments List

/-!
# Protected areas
-/

def systemNames : List Str :=
  ["upload".toList, "_system".toList]

private theorem systemName_short {w : Str} (h : w ∈ systemNames) :
    IsPiece '/' w ∧ utf8Length w ≤ 251 := by
  have hall : forall w, w ∈ systemNames ->
      (w ≠ [] ∧ '/' ∉ w) ∧ utf8Length w ≤ 251 := by decide
  exact hall w h

private theorem watchName_short {w : Str} (h : w ∈ watchTaskControlNames) :
    IsPiece '/' w ∧ utf8Length w ≤ 251 := by
  have hall : forall w, w ∈ watchTaskControlNames ->
      (w ≠ [] ∧ '/' ∉ w) ∧ utf8Length w ≤ 251 := by decide
  exact hall w h

private theorem resources_short :
    IsPiece '/' "resources".toList ∧ utf8Length "resources".toList ≤ 251 := by
  exact ⟨⟨by decide, by decide⟩, by decide⟩

private theorem pair_pieces {a b : Str} (ha : IsPiece '/' a)
    (hb : IsPiece '/' b) : forall w, w ∈ [a, b] -> IsPiece '/' w := by
  intro w hw
  rcases mem_cons.1 hw with hw | hw
  · rw [hw]
    exact ha
  · rw [mem_singleton.1 hw]
    exact hb

private theorem single_pieces {a : Str} (ha : IsPiece '/' a) :
    forall w, w ∈ [a] -> IsPiece '/' w := by
  intro w hw
  rw [mem_singleton.1 hw]
  exact ha

theorem mem_systemDirs {accountId dir : Str} :
    dir ∈ systemDirs accountId
      <-> exists name, name ∈ systemNames ∧ dir = accountPath accountId [name] := by
  simp [systemDirs, systemNames]

theorem mem_watchFiles {accountId path : Str} :
    path ∈ watchFiles accountId
      <-> exists name, name ∈ watchTaskControlNames ∧
        path = accountPath accountId ["resources".toList, name] := by
  simp [watchFiles, eq_comm]

variable {fs : VikingFS}

variable {ctx : RequestContext} {rest : List Str} {scope : Str}

private theorem not_systemName (h : Admitted fs ctx (scope :: rest)) :
    scope ∉ systemNames := by
  intro hmem
  have hclosed := h.closedScopes scope rest rfl
  rcases mem_cons.1 hmem with hmem | hmem
  · exact hclosed.1 hmem
  · exact hclosed.2.1 (mem_singleton.1 hmem)

variable {parts : List Str}

variable {uri : Str}

theorem admitted_notProtected (hparts : safeUriParts fs.charClass uri = .ok parts)
    (h : Admitted fs ctx parts) :
    ¬ Protected ctx.accountId
      (accountPath ctx.accountId (parts.map (stored fs.digest))) := by
  have hpieces := stored_pieces hparts
  intro hprotected
  rcases hprotected with ⟨dir, hdir, hinside⟩ | hwatch
  · rcases mem_systemDirs.1 hdir with ⟨name, hname, rfl⟩
    have hsingle := single_pieces (systemName_short hname).1
    rcases (inside_accountPath_iff ctx hsingle hpieces).1 hinside with
      ⟨rest, hrest⟩
    cases parts with
    | nil => exact absurd hrest (by simp)
    | cons scope more =>
      have hscope := (cons.inj hrest).1
      have heq := (stored_eq_iff (systemName_short hname).2).1 hscope.symm
      exact not_systemName h (by rw [heq]; exact hname)
  · rcases mem_watchFiles.1 hwatch with ⟨name, hname, hpath⟩
    have hpair := pair_pieces resources_short.1 (watchName_short hname).1
    have hlist := (accountPath_inj hpieces hpair hpath).2
    cases parts with
    | nil => exact absurd hlist (by simp)
    | cons scope more =>
      cases more with
      | nil => exact absurd hlist (by simp)
      | cons second more =>
        cases more with
        | nil =>
          have hscope := (stored_eq_iff resources_short.2).1
            (cons.inj hlist).1
          have hsecond := (stored_eq_iff (watchName_short hname).2).1
            (cons.inj (cons.inj hlist).2).1
          refine h.watch second ?_ (by rw [hsecond]; exact hname)
          rw [hscope]
        | cons third more => exact absurd hlist (by simp)

theorem admitted_notAbove (hparts : safeUriParts fs.charClass uri = .ok parts)
    (h : Admitted fs ctx parts) (hne : parts ≠ [])
    (hroot : parts ≠ ["resources".toList]) :
    ¬ AboveProtected ctx.accountId
      (accountPath ctx.accountId (parts.map (stored fs.digest))) := by
  have hpieces := stored_pieces hparts
  intro habove
  rcases habove with ⟨area, harea, hinside⟩
  cases parts with
  | nil => exact hne rfl
  | cons scope more =>
    rcases mem_append.1 harea with hdir | hwatch
    · rcases mem_systemDirs.1 hdir with ⟨name, hname, rfl⟩
      have hsingle := single_pieces (systemName_short hname).1
      have hlist := (inside_accountPath_iff ctx hpieces hsingle).1 hinside
      rw [map_cons, cons_prefix_cons] at hlist
      have heq := (stored_eq_iff (systemName_short hname).2).1 hlist.1
      exact not_systemName h (by rw [heq]; exact hname)
    · rcases mem_watchFiles.1 hwatch with ⟨name, hname, rfl⟩
      have hpair := pair_pieces resources_short.1 (watchName_short hname).1
      have hlist := (inside_accountPath_iff ctx hpieces hpair).1 hinside
      rw [map_cons, cons_prefix_cons] at hlist
      have hscope := (stored_eq_iff resources_short.2).1 hlist.1
      subst hscope
      cases more with
      | nil => exact hroot rfl
      | cons second more =>
        rw [map_cons, cons_prefix_cons] at hlist
        have hsecond := (stored_eq_iff (watchName_short hname).2).1 hlist.2.1
        have hlast : more = [] := by simpa using hlist.2.2
        rw [hlast, hsecond] at h
        exact h.watch name rfl hname

/-!
# One request
-/

theorem isUserId_not_dots {s : Str} (h : IsUserId s) :
    s ≠ ".".toList ∧ s ≠ "..".toList :=
  ⟨(isUserId_iff.1 h).2.1, (isUserId_iff.1 h).2.2.1⟩

theorem stored_not_dots (h : safeUriParts fs.charClass uri = .ok parts) :
    forall w, w ∈ parts.map (stored fs.digest) ->
      w ≠ ".".toList ∧ w ≠ "..".toList := by
  intro w hw
  rcases mem_map.1 hw with ⟨c, hc, rfl⟩
  have hsafe := safeUriParts_safe h c hc
  constructor
  · intro heq
    exact hsafe.1 ((stored_eq_iff (by decide)).1 heq)
  · intro heq
    exact hsafe.2.1 ((stored_eq_iff (by decide)).1 heq)

variable {r : Request}

theorem accepted_admitted (h : r.Accepted fs) :
    exists parts, safeUriParts fs.charClass r.uri = .ok parts ∧
      Admitted fs r.ctx parts :=
  isAccessible_admitted h.1 (Guard.accessible h.2)

/-- An accepted request is confined exactly if it keeps its owner's name. -/
theorem accepted_confined_iff
    (h : r.Accepted fs) (hparts : safeUriParts fs.charClass r.uri = .ok parts)
    (hadmitted : Admitted fs r.ctx parts) :
    Confined r (accountPath r.ctx.accountId (parts.map (stored fs.digest)))
      <-> KeepsName fs r := by
  rw [← notOther_iff hparts hadmitted]
  constructor
  · intro hconfined
    exact hconfined.notOther
  intro hnot
  have hpieces := stored_pieces hparts
  refine ⟨?_, ?_, hnot, ?_, ?_⟩
  · have hroot : accountRoot r.ctx.accountId
        = accountPath r.ctx.accountId [] := by
      simp [accountPath, rooted]
    rw [hroot, inside_accountPath_iff _ (by simp) hpieces]
    exact nil_prefix
  · intro w hw
    rw [accountPath_eq, segments_rooted (local_pieces _ hpieces)] at hw
    rcases mem_cons.1 hw with hw | hw
    · rw [hw]
      decide
    · rcases mem_cons.1 hw with hw | hw
      · rw [hw]
        exact isUserId_not_dots (accountId_isUserId r.ctx)
      · exact stored_not_dots hparts w hw
  · intro _
    exact admitted_notProtected hparts hadmitted
  · intro hguard
    have hok := h.2
    rw [hguard] at hok
    rcases deleteAccess_ok h.1 hparts hok with ⟨hne, hroot⟩
    exact admitted_notAbove hparts hadmitted hne hroot

/-!
# Two requests
-/

variable {digest : Digest}

private theorem stored_names_marked {u c : Str}
    (hu : IsUserId u) (hc : NamesCaller u c) (hk : KeepsUser digest u c)
    (hmark : '?' ∈ stored digest c) : cutAt '?' (stored digest c) = u := by
  by_cases hshort : utf8Length c ≤ 255
  · rw [stored_short hshort] at hmark ⊢
    rcases hc with hself | ⟨x, hx⟩
    · rw [hself] at hmark
      exact absurd hmark hu.not_mark
    · rw [hx, cutAt_append hu.not_mark]
  · have hlong := Nat.lt_of_not_le hshort
    rcases hc with hself | ⟨x, hx⟩
    · rcases hk with hk | hk
      · exact absurd hk hshort
      · exact absurd hself hk.1
    rcases stored_long digest hlong with ⟨kept, lost, heq, _, hstored, _, _⟩
    have hin : '?' ∈ kept := by
      rw [hstored, mem_append, mem_cons] at hmark
      rcases hmark with hmark | hmark | hmark
      · exact hmark
      · exact absurd hmark (by decide)
      · exact absurd (digest.hex_chars c _ hmark) (by decide)
    rcases eq_append_cons_of_mem hin with ⟨front, back, hkept, hfront⟩
    have hsame : u ++ '?' :: x = front ++ '?' :: (back ++ lost) := by
      rw [← hx, heq, hkept]
      simp
    have hcut := congrArg (cutAt '?') hsame
    rw [cutAt_append hu.not_mark, cutAt_append hfront] at hcut
    rw [hstored, hkept, append_assoc, cons_append,
      cutAt_append hfront, hcut]

private theorem stored_names_unmarked {u c : Str}
    (hu : IsUserId u) (hc : NamesCaller u c) (hk : KeepsUser digest u c)
    (hmark : '?' ∉ stored digest c) :
    stored digest c = u ∨
      ('\n' ∈ u ∧ stored digest c = u ++ '_' :: digest.hex c) := by
  by_cases hshort : utf8Length c ≤ 255
  · rw [stored_short hshort] at hmark ⊢
    rcases hc with hself | ⟨x, hx⟩
    · exact .inl hself
    · rw [hx] at hmark
      exact absurd (by simp) hmark
  · have hlong := Nat.lt_of_not_le hshort
    rcases hc with hself | ⟨x, hx⟩
    · rcases hk with hk | hk
      · exact absurd hk hshort
      · exact absurd hself hk.1
    have hnot : ¬ OtherUser u (stored digest c) := by
      rcases hk with hk | hk
      · exact absurd hk hshort
      · exact hk.2
    rcases stored_long digest hlong with ⟨kept, lost, heq, _, hstored, _, _⟩
    have hkept : '?' ∉ kept := fun h => hmark (by rw [hstored]; simp [h])
    -- the kept part ends before the query, inside the user id
    have hsplit : exists more, u = kept ++ more := by
      have hsame : kept ++ lost = u ++ '?' :: x := heq.symm.trans hx
      rcases append_eq_append_iff.1 hsame with
        ⟨more, hmore, _⟩ | ⟨more, hmore, hrest⟩
      · exact ⟨more, hmore⟩
      · cases more with
        | nil => exact ⟨[], by rw [hmore]; simp⟩
        | cons d more =>
          have hd : d = '?' := ((cons.inj hrest).1).symm
          exact absurd (by rw [hmore, hd]; simp) hkept
    rcases hsplit with ⟨more, hmore⟩
    by_cases hnew : '\n' ∈ kept
    · rcases append_of_mem hnew with ⟨front, back, hfront⟩
      have hu' : u = front ++ '\n' :: (back ++ more) := by
        rw [hmore, hfront]
        simp
      have hnil := (append_eq_nil_iff.1 (hu.newline_last hu')).2
      rw [hnil, append_nil] at hmore
      right
      rw [hmore]
      exact ⟨hnew, hstored⟩
    · left
      by_contra hne
      refine hnot ⟨?_, hne⟩
      rw [hstored]
      exact isUserId_hashed digest hu hmore hnew

private theorem not_newline_then {u₁ u₂ rest : Str} (hu : IsUserId u₁)
    (hnew : '\n' ∈ u₂) (h : u₁ = u₂ ++ '_' :: rest) : False := by
  rcases append_of_mem hnew with ⟨front, back, hfront⟩
  have hsplit : u₁ = front ++ '\n' :: (back ++ '_' :: rest) := by
    rw [h, hfront]
    simp
  exact absurd (hu.newline_last hsplit) (by simp)

theorem owners_eq_of_stored_eq {u₁ u₂ c₁ c₂ : Str}
    (hu₁ : IsUserId u₁) (hu₂ : IsUserId u₂)
    (hc₁ : NamesCaller u₁ c₁) (hc₂ : NamesCaller u₂ c₂)
    (hk₁ : KeepsUser digest u₁ c₁) (hk₂ : KeepsUser digest u₂ c₂)
    (h : stored digest c₁ = stored digest c₂) : u₁ = u₂ := by
  by_cases hmark : '?' ∈ stored digest c₁
  · have hcut₁ := stored_names_marked hu₁ hc₁ hk₁ hmark
    have hcut₂ := stored_names_marked hu₂ hc₂ hk₂ (h ▸ hmark)
    rw [← hcut₁, ← hcut₂, h]
  rcases stored_names_unmarked hu₁ hc₁ hk₁ hmark with h₁ | ⟨hnew₁, h₁⟩ <;>
    rcases stored_names_unmarked hu₂ hc₂ hk₂ (h ▸ hmark) with
      h₂ | ⟨hnew₂, h₂⟩
  · rw [← h₁, ← h₂, h]
  · exact (not_newline_then hu₁ hnew₂ (by rw [← h₁, h, h₂])).elim
  · exact (not_newline_then hu₂ hnew₁ (by rw [← h₂, ← h, h₁])).elim
  · have hboth : u₁ ++ '_' :: digest.hex c₁ = u₂ ++ '_' :: digest.hex c₂ := by
      rw [← h₁, ← h₂, h]
    have hlength : ('_' :: digest.hex c₁).length
        = ('_' :: digest.hex c₂).length := by
      rw [length_cons, length_cons, digest.length_hex,
        digest.length_hex]
    exact (append_inj' hboth hlength).1

private theorem owner_eq_caller {owner u c : Str} (howner : IsUserId owner)
    (hu : IsUserId u) (hnames : NamesCaller owner c) (hc : Admissible u c) :
    owner = u ∧ NamesCaller u c := by
  have hcut : forall {v : Str}, IsUserId v -> NamesCaller v c ->
      cutAt '?' c = v := by
    intro v hv hn
    rcases hn with hself | ⟨x, hx⟩
    · rw [hself, cutAt_of_not_mem hv.not_mark]
    · rw [hx, cutAt_append hv.not_mark]
  rcases hc with hc | ⟨x, hx⟩
  · exact ⟨(hcut howner hnames).symm.trans (hcut hu hc), hc⟩
  · have hnil : cutAt '?' c = [] := by
      rw [hx]
      exact cutAt_append not_mem_nil x
    exact absurd ((hcut howner hnames).symm.trans hnil) (isUserId_iff.1 howner).1

private theorem owner_scope {cc : CharClass} {owner : Str} {target : ResolvedNamespace}
    (hparts : safeUriParts cc uri = .ok (scope :: rest))
    (hresolve : resolveUri cc uri = .ok target)
    (howner : target.ownerUserId = some owner) : scope = "user".toList := by
  rcases resolveUri_ok hresolve with ⟨parts, hup, hcons, hnil⟩
  cases parts with
  | nil =>
    rw [hnil rfl] at howner
    cases howner
  | cons first tail =>
    rcases hcons first tail rfl with ⟨_, _, huser, hnone⟩
    by_cases hfirst : first = "user".toList
    · rcases parts_agree hparts with hsame | ⟨front, t, x, after, heq, hup', _⟩
      · cases hup.symm.trans hsame
        exact hfirst
      cases front with
      | nil =>
        -- a marked first part leaves no owner for the namespace rules
        have htail : tail = [] := by
          have hlist := Except.ok.inj (hup.symm.trans hup')
          rw [nil_append] at hlist
          split at hlist
          · cases hlist
          · exact (cons.inj hlist).2
        have hres := huser hfirst
        rw [htail] at hres
        unfold resolveUserUri at hres
        cases hres
        cases howner
      | cons f front =>
        have hlist := Except.ok.inj (hup.symm.trans hup')
        rw [(cons.inj heq).1, ← (cons.inj hlist).1]
        exact hfirst
    · rw [hnone hfirst] at howner
      cases howner

theorem uriOwner_some
    {owner : Str × Str} (hparts : safeUriParts fs.charClass r.uri = .ok parts)
    (h : Admitted fs r.ctx parts) (howner : uriOwner fs r = some owner) :
    owner = (r.ctx.accountId, r.ctx.userId) ∧
      exists scope second rest, parts = scope :: second :: rest ∧
        ((scope = "temp".toList ∧ second = r.ctx.userId) ∨
          (scope = "user".toList ∧ NamesCaller r.ctx.userId second)) := by
  unfold uriOwner at howner
  rw [hparts] at howner
  split at howner
  · rename_i scope second rest heq
    cases heq
    split at howner
    · rename_i htemp
      cases howner
      exact ⟨by rw [htemp.2], scope, second, rest, rfl, .inl htemp⟩
    rcases Option.map_eq_some_iff.1 howner with ⟨name, hname, hpair⟩
    unfold ownerUserIdForUri at hname
    split at hname
    · rename_i target hresolve
      have hscope := owner_scope hparts hresolve hname
      subst hscope
      rcases (owner_of_storage hparts hresolve).2 second rest rfl with
        ⟨name', hname', hid, hnames⟩ | ⟨hnone, _⟩
      · cases hname.symm.trans hname'
        rcases owner_eq_caller hid (userId_isUserId r.ctx) hnames
          (h.user second rest rfl) with ⟨hcaller, hnamed⟩
        rw [hcaller] at hpair
        exact ⟨hpair.symm, _, second, rest, rfl, .inr ⟨rfl, hnamed⟩⟩
      · rw [hnone] at hname
        cases hname
    · cases hname
  · cases howner

private theorem keeps_owner_component
    {second : Str} (hkeeps : KeepsName fs r)
    (hparts : safeUriParts fs.charClass r.uri = .ok (scope :: second :: rest))
    (h : (scope = "temp".toList ∧ second = r.ctx.userId) ∨
      (scope = "user".toList ∧ NamesCaller r.ctx.userId second)) :
    NamesCaller r.ctx.userId second ∧
      KeepsUser fs.digest r.ctx.userId second := by
  have hk := hkeeps scope second rest hparts
  rcases h with ⟨hscope, hsecond⟩ | ⟨hscope, hnamed⟩
  · exact ⟨Or.inl hsecond, .inl ((hk.2 hscope).1 hsecond)⟩
  · exact ⟨hnamed, hk.1 hscope⟩

/-- Accepted requests are confined, and requests of different owners do not meet,
exactly if both keep the names of their owners. -/
theorem access_confined_iff (fs : VikingFS) (r₁ r₂ : Request)
    (h₁ : r₁.Accepted fs) (h₂ : r₂.Accepted fs) :
    ConfinedPair fs r₁ r₂ <-> KeepsName fs r₁ ∧ KeepsName fs r₂ := by
  rcases accepted_admitted h₁ with ⟨parts₁, hparts₁, hadm₁⟩
  rcases accepted_admitted h₂ with ⟨parts₂, hparts₂, hadm₂⟩
  have hpath₁ := uriToPath_ok hparts₁ hadm₁
  have hpath₂ := uriToPath_ok hparts₂ hadm₂
  have hconf₁ := accepted_confined_iff h₁ hparts₁ hadm₁
  have hconf₂ := accepted_confined_iff h₂ hparts₂ hadm₂
  constructor
  · intro h
    rcases h with ⟨path₁, path₂, hp₁, hp₂, hc₁, hc₂, _⟩
    cases hpath₁.symm.trans hp₁
    cases hpath₂.symm.trans hp₂
    exact ⟨hconf₁.1 hc₁, hconf₂.1 hc₂⟩
  · intro h
    refine ⟨_, _, hpath₁, hpath₂, hconf₁.2 h.1, hconf₂.2 h.2, ?_⟩
    intro owner₁ owner₂ howner₁ howner₂ hne heq
    rcases uriOwner_some hparts₁ hadm₁ howner₁ with
      ⟨hown₁, scope₁, second₁, rest₁, hp₁, hnames₁⟩
    rcases uriOwner_some hparts₂ hadm₂ howner₂ with
      ⟨hown₂, scope₂, second₂, rest₂, hp₂, hnames₂⟩
    subst hp₁
    subst hp₂
    rcases keeps_owner_component h.1 hparts₁ hnames₁ with ⟨hn₁, hk₁⟩
    rcases keeps_owner_component h.2 hparts₂ hnames₂ with ⟨hn₂, hk₂⟩
    rcases accountPath_inj (stored_pieces hparts₁) (stored_pieces hparts₂) heq
      with ⟨haccount, hlist⟩
    have hstored := (List.cons.inj (List.cons.inj hlist).2).1
    have huser := owners_eq_of_stored_eq (userId_isUserId r₁.ctx)
      (userId_isUserId r₂.ctx) hn₁ hn₂ hk₁ hk₂ hstored
    exact hne (by rw [hown₁, hown₂, haccount, huser])

/-!
# Sample requests
-/

/-- ASCII classes, and the hash of 256 letters. -/
def sampleFS : VikingFS where
  charClass := ⟨Char.isAlpha, Char.isDigit, Char.isWhitespace⟩
  digest :=
    { hex := fun _ => "02d7160d".toList
      length_hex := fun _ => rfl
      hex_chars := by
        intro _ c hc
        have hall : ("02d7160d".toList.all fun d => decide (d ∈ hexChars)) =
            true := by
          decide
        exact of_decide_eq_true (List.all_eq_true.mp hall c hc) }
  userDeletionGuard := none

def sampleUser (userId : Str)
    (h : validateUserId userId = none := by decide) : RequestContext where
  user := ⟨"acme".toList, userId, by decide, h⟩
  role := .user
  actorPeerId := none

def alice : RequestContext :=
  sampleUser "alice".toList

def memoryRequest : Request :=
  ⟨"viking://user/alice//memories/a?b".toList, alice, .mutableAccess⟩

def tempRequest : Request :=
  ⟨"viking://temp/bob/upload".toList, sampleUser "bob".toList, .deleteAccess⟩

theorem keepsName_of_parts (scope second : Str)
    (rest : List Str)
    (hparts : safeUriParts fs.charClass r.uri = .ok (scope :: second :: rest))
    (huser : scope = "user".toList -> KeepsUser fs.digest r.ctx.userId second)
    (htemp : scope = "temp".toList -> KeepsTemp r.ctx.userId second) :
    KeepsName fs r := by
  intro scope' second' rest' heq
  cases hparts.symm.trans heq
  exact ⟨huser, htemp⟩

theorem access_confined_sample :
    ConfinedPair sampleFS memoryRequest tempRequest := by
  refine (access_confined_iff sampleFS memoryRequest tempRequest
    ⟨by decide, by decide +kernel⟩ ⟨by decide, by decide +kernel⟩).2 ⟨?_, ?_⟩
  · refine keepsName_of_parts "user".toList "alice".toList
      ["memories".toList, "a?b".toList] (by decide +kernel) ?_ ?_
    · exact fun _ => Or.inl (by decide)
    · exact fun heq => absurd heq (by decide)
  · refine keepsName_of_parts "temp".toList "bob".toList
      ["upload".toList] (by decide +kernel) ?_ ?_
    · exact fun heq => absurd heq (by decide)
    · exact fun _ => ⟨fun _ => by decide, fun hne => absurd rfl hne⟩

def longId : Str := List.replicate 256 'a'

def shortId : Str := List.replicate 246 'a' ++ "_02d7160d".toList

/-- The two users of an account whose directories are one. -/
def longRequest : Request :=
  ⟨"viking://user/".toList ++ longId, sampleUser longId (by decide +kernel),
    .mutableAccess⟩

def shortRequest : Request :=
  ⟨"viking://user/".toList ++ shortId, sampleUser shortId (by decide +kernel),
    .mutableAccess⟩

/-- A file in the temporary area of the user `20240101_abcdef`. -/
def leafRequest : Request :=
  ⟨"viking://temp/20240101_abcdef/notes.md".toList, sampleUser "bob".toList,
    .deleteAccess⟩

theorem access_reaches_other_users :
    (leafRequest.Accepted sampleFS ∧
      ¬ ConfinedPair sampleFS leafRequest leafRequest) ∧
    (longRequest.Accepted sampleFS ∧ shortRequest.Accepted sampleFS ∧
      uriOwner sampleFS longRequest = some ("acme".toList, longId) ∧
      uriOwner sampleFS shortRequest = some ("acme".toList, shortId) ∧
      longId ≠ shortId ∧
      uriToPath sampleFS longRequest.uri longRequest.ctx
        = .ok ("/local/acme/user/".toList ++ shortId) ∧
      uriToPath sampleFS shortRequest.uri shortRequest.ctx
        = .ok ("/local/acme/user/".toList ++ shortId)) := by
  refine ⟨⟨⟨by decide, by decide +kernel⟩, ?_⟩, ?_⟩
  · intro h
    rcases h with ⟨path, _, hpath, _, hconfined, _⟩
    have hleaf : uriToPath sampleFS leafRequest.uri leafRequest.ctx
        = .ok "/local/acme/temp/20240101_abcdef/notes.md".toList := by
      decide +kernel
    cases hleaf.symm.trans hpath
    refine hconfined.notOther
      ⟨"temp".toList, "20240101_abcdef".toList, by decide, by decide, ?_⟩
    decide +kernel
  · refine ⟨⟨by decide, by decide +kernel⟩, ⟨by decide, by decide +kernel⟩,
      by decide +kernel, by decide +kernel, by decide +kernel,
      by decide +kernel, by decide +kernel⟩

end Access
end OpenViking
