import OpenViking.Session.ShortenedGroup
import OpenViking.Session.Partition
import Mathlib.Data.List.Dedup

/-!
# The active messages fit their budget

Groups of places are tried one after the other, and every place belongs to one
group only.  What was chosen therefore stays as it was when its group was taken.
-/

namespace OpenViking
namespace Session
namespace Active

open Function List Nat

variable {Id : Type} {messages : List (Message Id)} {tokenBudget : Nat}
  {s s' : Selection Id} {selected : Nat -> Option (Message Id)} {group : List Nat}
  {older : List UserTurn} {latest : UserTurn}

/-- Every chosen message is a copy of the one at its place. -/
def Copied (messages : List (Message Id)) (selected : Nat -> Option (Message Id)) :
    Prop :=
  forall place returned, selected place = some returned ->
    exists original, messages[place]? = some original ∧ Copies original returned

def Reports (messages : List (Message Id)) (selected : Nat -> Option (Message Id))
    (ids : List Id) : Prop :=
  forall id, id ∈ ids <-> exists place original returned,
    messages[place]? = some original ∧ selected place = some returned ∧
      returned ≠ original ∧ original.id = id

/-- All places of a group are chosen, or none is. -/
def Whole (selected : Nat -> Option (Message Id)) (group : List Nat) : Prop :=
  (forall place, place ∈ group -> (selected place).isSome) ∨
    forall place, place ∈ group -> selected place = none

/-- What holds of the choice after any number of groups. -/
structure Selection.Ok (messages : List (Message Id)) (tokenBudget : Nat)
    (s : Selection Id) : Prop where
  counted : messageTokens ((List.range messages.length).filterMap s.selected) ≤
    s.usedTokens
  within : s.usedTokens ≤ tokenBudget
  copied : Copied messages s.selected
  reports : Reports messages s.selected s.truncatedIds

theorem ok_none (messages : List (Message Id)) (tokenBudget : Nat) :
    Selection.none.Ok messages tokenBudget := by
  constructor
  · have hnil : (range messages.length).filterMap
        (Selection.none : Selection Id).selected = [] :=
      filterMap_eq_nil_iff.mpr fun _ _ => rfl
    rw [hnil]
    exact le_refl 0
  · exact zero_le _
  · nofun
  · intro id
    constructor
    · nofun
    · rintro ⟨place, original, returned, _, h, _⟩
      cases h

/-!
# Putting a group in its places
-/

variable {entries : List (Nat × Message Id)}

theorem place_of_notMem {index : Nat}
    (h : index ∉ entries.map Prod.fst) : place selected entries index = selected index := by
  induction entries generalizing selected with
  | nil => rfl
  | cons entry rest ih =>
    rw [map_cons, mem_cons, not_or] at h
    rw [place, ih h.2, update_of_ne h.1]

theorem place_of_mem (hnodup : (entries.map Prod.fst).Nodup)
    {entry : Nat × Message Id} (h : entry ∈ entries) :
    place selected entries entry.1 = some entry.2 := by
  induction entries generalizing selected with
  | nil => cases h
  | cons first rest ih =>
    rw [map_cons, nodup_cons] at hnodup
    rcases mem_cons.mp h with rfl | hrest
    · rw [place, place_of_notMem hnodup.1, update_self]
    · exact ih hnodup.2 hrest

/-- One more place costs at most the message that is put there. -/
theorem messageTokens_update {index : Nat}
    {returned : Message Id} {places : List Nat} (hnodup : places.Nodup) :
    messageTokens (places.filterMap
        (update selected index (some returned))) ≤
      messageTokens (places.filterMap selected) + returned.estimatedTokens := by
  induction places with
  | nil => exact zero_le _
  | cons first rest ih =>
    rw [nodup_cons] at hnodup
    have htokens (picked : Nat -> Option (Message Id)) :
        messageTokens ((first :: rest).filterMap picked) =
          messageTokens (picked first).toList +
            messageTokens (rest.filterMap picked) := by
      rw [filterMap_cons, ← messageTokens_append]
      cases picked first <;> rfl
    rw [htokens, htokens]
    by_cases hfirst : first = index
    · have hrest : rest.filterMap (update selected index (some returned)) =
          rest.filterMap selected := by
        apply filterMap_congr
        intro other hother
        rw [update_of_ne]
        rintro rfl
        exact hnodup.1 (hfirst ▸ hother)
      rw [hrest, hfirst, update_self]
      have hone : messageTokens (some returned).toList = returned.estimatedTokens :=
        add_zero _
      rw [hone]
      omega
    · rw [update_of_ne hfirst]
      have hle := ih hnodup.2
      omega

theorem messageTokens_place {places : List Nat} (hnodup : places.Nodup) :
    messageTokens (places.filterMap (place selected entries)) ≤
      messageTokens (places.filterMap selected) +
        messageTokens (entries.map Prod.snd) := by
  induction entries generalizing selected with
  | nil => exact le_add_right _ _
  | cons entry rest ih =>
    rw [place, map_cons, messageTokens_cons]
    refine le_trans ih ?_
    have hle : messageTokens (places.filterMap
        (update selected entry.1 (some entry.2))) ≤ _ :=
      messageTokens_update hnodup
    omega

theorem groupAt_cons {index : Nat} {rest : List Nat}
    (h : index < messages.length) :
    groupAt messages (index :: rest) = messages[index] :: groupAt messages rest := by
  rw [groupAt, filterMap_cons, getElem?_eq_getElem h]
  rfl

theorem length_groupAt
    (h : forall index, index ∈ group -> index < messages.length) :
    (groupAt messages group).length = group.length := by
  induction group with
  | nil => rfl
  | cons index rest ih =>
    rw [groupAt_cons (h index mem_cons_self), length_cons, length_cons,
      ih fun other hother => h other (mem_cons_of_mem _ hother)]

theorem groupAt_zip
    (h : forall index, index ∈ group -> index < messages.length) :
    List.Forall₂ (fun index message => messages[index]? = some message) group
      (groupAt messages group) := by
  induction group with
  | nil => exact List.Forall₂.nil
  | cons index rest ih =>
    have hindex := h index mem_cons_self
    rw [groupAt_cons hindex]
    exact List.Forall₂.cons (getElem?_eq_getElem hindex)
      (ih fun other hother => h other (mem_cons_of_mem _ hother))

/-!
# Choosing one group
-/

/-- The group is put in its places as some returned messages that stand for it. -/
structure Takes (messages : List (Message Id)) (s s' : Selection Id) (group : List Nat)
    (budget : Nat) : Prop where
  returned : exists chosen truncated,
    Shortens (groupAt messages group) budget chosen truncated ∧
    s'.selected = place s.selected (group.zip chosen) ∧
    s'.usedTokens = s.usedTokens + messageTokens chosen ∧
    s'.truncatedIds = s.truncatedIds ++ truncated

/-- A group is taken within its room, or was empty; and it is taken when the whole of
it fits, or its fixed texts do and it may be shortened. -/
theorem selectGroup_spec (messages : List (Message Id)) (tokenBudget : Nat)
    (s : Selection Id) (group : List Nat) (allowTruncate : Bool)
    (maxBudget : Option Nat)
    (hplaces : forall index, index ∈ group -> index < messages.length) :
    (forall s', selectGroup messages tokenBudget s group allowTruncate maxBudget =
        some s' ->
      (group = [] ∧ s' = s) ∨
        Takes messages s s' group (roomFor tokenBudget s maxBudget)) ∧
    (messageTokens (groupAt messages group) ≤ roomFor tokenBudget s maxBudget ∨
        (allowTruncate = true ∧ 0 < roomFor tokenBudget s maxBudget ∧
          messageTokens ((groupAt messages group).map Message.bare) ≤
            roomFor tokenBudget s maxBudget) ->
      exists s', selectGroup messages tokenBudget s group allowTruncate maxBudget =
        some s') := by
  unfold selectGroup
  dsimp only
  generalize roomFor tokenBudget s maxBudget = room
  by_cases hempty : group = []
  · rw [if_pos hempty]
    refine ⟨fun s' h => .inl ⟨hempty, ?_⟩, fun _ => ⟨s, rfl⟩⟩
    cases h
    rfl
  rw [if_neg hempty]
  have hne : groupAt messages group ≠ [] := by
    intro hnil
    have hlength := length_groupAt hplaces
    rw [hnil] at hlength
    exact hempty (eq_nil_of_length_eq_zero hlength.symm)
  by_cases hover : messageTokens (groupAt messages group) > room
  · rw [if_pos hover]
    by_cases hstop : allowTruncate = false ∨ room = 0
    · rw [if_pos hstop]
      refine ⟨nofun, ?_⟩
      rintro (hfits | ⟨hallow, hpos, _⟩)
      · exact absurd hfits (Nat.not_le_of_gt hover)
      · rcases hstop with hnot | hzero
        · rw [hallow] at hnot
          cases hnot
        · omega
    · rw [if_neg hstop]
      have hgroup := truncateMessageGroup_spec (groupAt messages group) room hne
      dsimp only at hgroup
      by_cases hnil : (truncateMessageGroup (groupAt messages group) room).1 = []
      · rw [if_pos hnil]
        refine ⟨nofun, ?_⟩
        rintro (hfits | ⟨_, hpos, hbare⟩)
        · exact absurd hfits (Nat.not_le_of_gt hover)
        · exact absurd hnil (hgroup.1.mpr ⟨hpos, hbare⟩)
      · rw [if_neg hnil]
        refine ⟨fun s' h => .inr ?_, fun _ => ⟨_, rfl⟩⟩
        cases h
        exact ⟨_, _, hgroup.2 hnil, rfl, rfl, rfl⟩
  · rw [if_neg hover]
    refine ⟨fun s' h => .inr ?_, fun _ => ⟨_, rfl⟩⟩
    cases h
    exact ⟨_, _, shortens_self (Nat.le_of_not_lt hover), rfl, rfl, rfl⟩

theorem roomFor_le (tokenBudget : Nat) (s : Selection Id) (maxBudget : Option Nat) :
    roomFor tokenBudget s maxBudget ≤ tokenBudget - s.usedTokens := by
  cases maxBudget with
  | none => exact le_refl _
  | some limit => exact min_le_left _ _

theorem Takes.places {budget : Nat} (h : Takes messages s s' group budget)
    (hnodup : group.Nodup) (hplaces : forall index, index ∈ group ->
      index < messages.length) :
    (forall index, index ∉ group -> s'.selected index = s.selected index) ∧
      forall index, index ∈ group -> (s'.selected index).isSome := by
  rcases h.returned with ⟨chosen, truncated, hshortens, hselected, _, _⟩
  have hlength : group.length = chosen.length :=
    (length_groupAt hplaces).symm.trans hshortens.copies.length_eq
  have hfst : (group.zip chosen).map Prod.fst = group :=
    map_fst_zip (le_of_eq hlength)
  rw [hselected]
  constructor
  · intro index hindex
    apply place_of_notMem
    rw [hfst]
    exact hindex
  · intro index hindex
    rw [← hfst] at hindex
    rcases mem_map.mp hindex with ⟨entry, hentry, rfl⟩
    rw [place_of_mem (by rw [hfst]; exact hnodup) hentry]
    rfl

theorem Takes.ok {tokenBudget budget : Nat} (h : Takes messages s s' group budget)
    (hbudget : budget ≤ tokenBudget - s.usedTokens) (hnodup : group.Nodup)
    (hplaces : forall index, index ∈ group -> index < messages.length)
    (hfresh : forall index, index ∈ group -> s.selected index = none)
    (hok : s.Ok messages tokenBudget) : s'.Ok messages tokenBudget := by
  have hkept := (h.places hnodup hplaces).1
  rcases h.returned with ⟨chosen, truncated, hshortens, hselected, hused, hids⟩
  have hlength : group.length = chosen.length :=
    (length_groupAt hplaces).symm.trans hshortens.copies.length_eq
  have hfst : (group.zip chosen).map Prod.fst = group :=
    map_fst_zip (Nat.le_of_eq hlength)
  have hsnd : (group.zip chosen).map Prod.snd = chosen :=
    map_snd_zip (Nat.le_of_eq hlength.symm)
  -- every taken place with its original and what is returned for it
  have hentries : List.Forall₂ (fun index returned => exists original,
      messages[index]? = some original ∧
        (original, returned) ∈ (groupAt messages group).zip chosen) group chosen := by
    have hzip := groupAt_zip hplaces
    have hcopies := hshortens.copies
    generalize groupAt messages group = originals at hzip hcopies
    clear hlength hfst hsnd hselected hused hids hshortens h hkept hfresh hplaces hnodup
    induction hzip generalizing chosen with
    | nil =>
      cases hcopies
      exact List.Forall₂.nil
    | cons hindex _ ih =>
      cases hcopies with
      | cons _ hrest =>
        refine List.Forall₂.cons ⟨_, hindex, mem_cons_self⟩ ?_
        exact (ih _ hrest).imp fun _ _ ⟨original, horiginal, hmem⟩ =>
          ⟨original, horiginal, mem_cons_of_mem _ hmem⟩
  have htaken (index : Nat) (returned : Message Id) (hindex : index ∈ group)
      (hsome : s'.selected index = some returned) :
      exists original, messages[index]? = some original ∧
        (original, returned) ∈ (groupAt messages group).zip chosen := by
    rw [← hfst] at hindex
    rcases mem_map.mp hindex with ⟨entry, hentry, rfl⟩
    rw [hselected, place_of_mem (by rw [hfst]; exact hnodup) hentry] at hsome
    cases hsome
    exact (forall₂_iff_zip.mp hentries).2 hentry
  constructor
  · rw [hselected, hused]
    refine Nat.le_trans (messageTokens_place nodup_range) ?_
    rw [hsnd]
    exact Nat.add_le_add_right hok.counted _
  · have hwithin := hok.within
    have hchosen := hshortens.within
    omega
  · intro index returned hsome
    by_cases hindex : index ∈ group
    · rcases htaken index returned hindex hsome with ⟨original, horiginal, hmem⟩
      exact ⟨original, horiginal, (forall₂_iff_zip.mp hshortens.copies).2 hmem⟩
    · rw [hkept index hindex] at hsome
      exact hok.copied index returned hsome
  · intro id
    rw [hids, mem_append, hok.reports id, hshortens.changed id]
    constructor
    · rintro (⟨index, original, returned, horiginal, hsome, hrest⟩ |
        ⟨pair, hpair, hne, hid⟩)
      · refine ⟨index, original, returned, horiginal, ?_, hrest⟩
        rw [hkept index, hsome]
        intro hindex
        rw [hfresh index hindex] at hsome
        cases hsome
      · have hzip := groupAt_zip hplaces
        rcases mem_iff_getElem.mp hpair with ⟨k, hk, hget⟩
        rw [getElem_zip] at hget
        rw [length_zip] at hk
        have hgroup : k < group.length := by
          rw [← hzip.length_eq] at hk
          omega
        refine ⟨group[k], pair.1, pair.2, ?_, ?_, hne, hid⟩
        · rw [← hget]
          exact (forall₂_iff_get.mp hzip).2 k hgroup (by omega)
        · have hentry : (group[k], chosen[k]) ∈ group.zip chosen := by
            apply mem_iff_getElem.mpr
            refine ⟨k, ?_, getElem_zip⟩
            rw [length_zip]
            omega
          rw [hselected, ← hget]
          exact place_of_mem (by rw [hfst]; exact hnodup) hentry
    · rintro ⟨index, original, returned, horiginal, hsome, hne, hid⟩
      by_cases hindex : index ∈ group
      · rcases htaken index returned hindex hsome with ⟨same, hsame, hmem⟩
        rw [horiginal] at hsame
        cases hsame
        exact .inr ⟨(original, returned), hmem, hne, hid⟩
      · rw [hkept index hindex] at hsome
        exact .inl ⟨index, original, returned, horiginal, hsome, hne, hid⟩

/-!
# Choosing one group after the other
-/

/-- What choosing a group keeps and gives. -/
structure Chooses (messages : List (Message Id)) (tokenBudget : Nat)
    (s s' : Selection Id) (group : List Nat) : Prop where
  kept : forall index, index ∉ group -> s'.selected index = s.selected index
  chosen : forall index, index ∈ group -> (s'.selected index).isSome
  ok : (forall index, index ∈ group -> s.selected index = none) ->
    s.Ok messages tokenBudget -> s'.Ok messages tokenBudget

theorem selectGroup_chooses {allowTruncate : Bool}
    {maxBudget : Option Nat} (hnodup : group.Nodup)
    (hplaces : forall index, index ∈ group -> index < messages.length)
    (h : selectGroup messages tokenBudget s group allowTruncate maxBudget = some s') :
    Chooses messages tokenBudget s s' group ∧
      s'.usedTokens ≤ s.usedTokens + roomFor tokenBudget s maxBudget ∧
      (group = [] -> s' = s) := by
  rcases (selectGroup_spec messages tokenBudget s group allowTruncate maxBudget
    hplaces).1 s' h with ⟨rfl, rfl⟩ | htakes
  · exact ⟨⟨fun _ _ => rfl, fun _ hindex => absurd hindex not_mem_nil,
      fun _ hok => hok⟩, Nat.le_add_right _ _, fun _ => rfl⟩
  have hpart := htakes.places hnodup hplaces
  refine ⟨⟨hpart.1, hpart.2, fun hfresh hok =>
    htakes.ok (roomFor_le _ _ _) hnodup hplaces hfresh hok⟩, ?_, ?_⟩
  · rcases htakes.returned with ⟨chosen, truncated, hshortens, _, hused, _⟩
    rw [hused]
    exact Nat.add_le_add_left hshortens.within _
  · rintro rfl
    rw [selectGroup, if_pos rfl] at h
    cases h
    rfl

/-- Groups are tried in order, and each is chosen or left out. -/
inductive Attempts (messages : List (Message Id)) (tokenBudget : Nat) :
    Selection Id -> List (List Nat) -> Selection Id -> Prop where
  | done (s : Selection Id) : Attempts messages tokenBudget s [] s
  | skip {s s' : Selection Id} {group : List Nat} {groups : List (List Nat)} :
      Attempts messages tokenBudget s groups s' ->
      Attempts messages tokenBudget s (group :: groups) s'
  | take {s chosen s' : Selection Id} {group : List Nat} {groups : List (List Nat)}
      {allowTruncate : Bool} {maxBudget : Option Nat} :
      selectGroup messages tokenBudget s group allowTruncate maxBudget = some chosen ->
      Attempts messages tokenBudget chosen groups s' ->
      Attempts messages tokenBudget s (group :: groups) s'

theorem Attempts.append
    {s s' s'' : Selection Id} {front back : List (List Nat)}
    (h : Attempts messages tokenBudget s front s')
    (hback : Attempts messages tokenBudget s' back s'') :
    Attempts messages tokenBudget s (front ++ back) s'' := by
  induction h with
  | done s => exact hback
  | skip _ ih => exact .skip (ih hback)
  | take hchosen _ ih => exact .take hchosen (ih hback)

theorem attempts_none
    (s : Selection Id) (groups : List (List Nat)) :
    Attempts messages tokenBudget s groups s := by
  induction groups with
  | nil => exact .done s
  | cons group rest ih => exact .skip ih

theorem selectWhile_attempts (messages : List (Message Id)) (tokenBudget : Nat)
    (allowTruncate : Bool) (s : Selection Id) (groups : List (List Nat)) :
    Attempts messages tokenBudget s groups
      (selectWhile messages tokenBudget allowTruncate s groups) := by
  induction groups generalizing s with
  | nil => exact .done s
  | cons group rest ih =>
    rw [selectWhile]
    split
    · exact attempts_none s _
    · next chosen hchosen => exact .take hchosen (ih chosen)

theorem getD_attempts (messages : List (Message Id)) (tokenBudget : Nat)
    (s : Selection Id) (group : List Nat) (allowTruncate : Bool)
    (maxBudget : Option Nat) :
    Attempts messages tokenBudget s [group]
      ((selectGroup messages tokenBudget s group allowTruncate maxBudget).getD s) := by
  cases hchosen : selectGroup messages tokenBudget s group allowTruncate maxBudget with
  | none => exact attempts_none s _
  | some chosen => exact .take hchosen (.done chosen)

/-- After all groups were tried, each is whole, and no other place was touched. -/
theorem Attempts.spec {groups : List (List Nat)}
    (h : Attempts messages tokenBudget s groups s') (hnodup : groups.flatten.Nodup)
    (hplaces : forall index, index ∈ groups.flatten -> index < messages.length) :
    (forall index, index ∉ groups.flatten -> s'.selected index = s.selected index) ∧
      ((forall index, index ∈ groups.flatten -> s.selected index = none) ->
        s.Ok messages tokenBudget -> s'.Ok messages tokenBudget ∧
          forall group, group ∈ groups -> Whole s'.selected group) := by
  induction h with
  | done s => exact ⟨fun _ _ => rfl, fun _ hok => ⟨hok, nofun⟩⟩
  | @skip s s' group groups _ ih =>
    rw [flatten_cons] at hnodup hplaces ⊢
    have hrest := ih hnodup.of_append_right
      fun index hindex => hplaces index (mem_append_right _ hindex)
    refine ⟨fun index hindex => hrest.1 index
      fun hmem => hindex (mem_append_right _ hmem), fun hfresh hok => ?_⟩
    have hfinal := hrest.2
      (fun index hindex => hfresh index (mem_append_right _ hindex)) hok
    refine ⟨hfinal.1, fun other hother => ?_⟩
    rcases mem_cons.mp hother with rfl | hother
    · apply Or.inr
      intro index hindex
      rw [hrest.1 index (disjoint_of_nodup_append hnodup hindex)]
      exact hfresh index (mem_append_left _ hindex)
    · exact hfinal.2 other hother
  | @take s chosen s' group groups allowTruncate maxBudget hchosen _ ih =>
    rw [flatten_cons] at hnodup hplaces ⊢
    have hchooses := (selectGroup_chooses hnodup.of_append_left
      (fun index hindex => hplaces index (mem_append_left _ hindex)) hchosen).1
    have hrest := ih hnodup.of_append_right
      fun index hindex => hplaces index (mem_append_right _ hindex)
    have hdisjoint := disjoint_of_nodup_append hnodup
    constructor
    · intro index hindex
      rw [mem_append, not_or] at hindex
      rw [hrest.1 index hindex.2, hchooses.kept index hindex.1]
    intro hfresh hok
    have hfinal := hrest.2
      (fun index hindex => by
        rw [hchooses.kept index fun hmem => hdisjoint hmem hindex]
        exact hfresh index (mem_append_right _ hindex))
      (hchooses.ok
        (fun index hindex => hfresh index (mem_append_left _ hindex)) hok)
    refine ⟨hfinal.1, fun other hother => ?_⟩
    rcases mem_cons.mp hother with rfl | hother
    · apply Or.inl
      intro index hindex
      rw [hrest.1 index (hdisjoint hindex)]
      exact hchooses.chosen index hindex
    · exact hfinal.2 other hother

/-!
# The room for the query and the last step
-/

/-- The smallest budget that a group can be returned in. -/
def leastTokens (group : List (Message Id)) : Nat :=
  if messageTokens group = 0 then 0
  else max 1 (messageTokens (group.map Message.bare))

/-- A group that may be shortened is returned in this room. -/
def FitsIn (group : List (Message Id)) (room : Nat) : Prop :=
  messageTokens group ≤ room ∨
    (0 < room ∧ messageTokens (group.map Message.bare) ≤ room)

theorem fitsIn_of_least {group : List (Message Id)} {room : Nat}
    (h : leastTokens group ≤ room) : FitsIn group room := by
  unfold leastTokens at h
  split at h
  · next hzero => exact .inl (hzero ▸ zero_le room)
  · exact .inr (by omega)

theorem FitsIn.mono {group : List (Message Id)} {small large : Nat}
    (h : FitsIn group small) (hle : small ≤ large) : FitsIn group large := by
  rcases h with hwhole | hbare
  · exact .inl (le_trans hwhole hle)
  · exact .inr (by omega)

theorem minimumGroupBudget_spec {group : List (Message Id)}
    (h : leastTokens group ≤ tokenBudget) :
    exists least, minimumGroupBudget group tokenBudget = some least ∧
      least ≤ leastTokens group ∧ FitsIn group least := by
  unfold minimumGroupBudget
  split
  · next hnone =>
      have hzero : messageTokens group = 0 := by
        rcases hnone with rfl | hzero
        · rfl
        · exact hzero
      exact ⟨0, rfl, zero_le _, .inl (le_of_eq hzero)⟩
  · next hsome =>
      rw [not_or] at hsome
      let passes : Nat -> Bool := fun candidate =>
        (truncateMessageGroup group candidate).1 ≠ []
      have hpasses (candidate : Nat) : passes candidate = true <->
          0 < candidate ∧ messageTokens (group.map Message.bare) ≤ candidate :=
        (decide_eq_true_iff).trans (truncateMessageGroup_spec group candidate hsome.1).1
      have hleast : leastTokens group = max 1 (messageTokens (group.map Message.bare)) :=
        if_neg hsome.2
      have hbare := messageTokens_bare_le_self group
      have hup (a b : Nat) (hab : a ≤ b) (ha : passes a = true) : passes b = true := by
        have ha := (hpasses a).mp ha
        exact (hpasses b).mpr (by omega)
      have hzero : passes 0 = false :=
        Bool.eq_false_iff.mpr fun h => lt_irrefl 0 ((hpasses 0).mp h).1
      have hhigh : leastTokens group ≤ min (messageTokens group) tokenBudget := by omega
      rcases Bisection.firstPassing_le hup hhigh
        ((hpasses (leastTokens group)).mpr (by omega)) hzero with
        ⟨first, hresult, hle, hpass⟩
      exact ⟨first, hresult, hle, .inr ((hpasses first).mp hpass)⟩

theorem finalReserve_room {anchor final : List (Message Id)}
    (h : leastTokens anchor + leastTokens final ≤ tokenBudget) :
    FitsIn anchor (tokenBudget - finalReserve anchor final tokenBudget) ∧
      forall used, used ≤ tokenBudget - finalReserve anchor final tokenBudget ->
        (anchor = [] -> used = 0) -> FitsIn final (tokenBudget - used) := by
  unfold finalReserve
  split
  · next hone =>
      refine ⟨fitsIn_of_least (by omega), fun used _ hzero => ?_⟩
      rcases hone with hanchor | rfl
      · rw [hzero hanchor]
        exact fitsIn_of_least (by omega)
      · exact .inl (zero_le _)
  · rcases minimumGroupBudget_spec (le_trans (le_add_right _ _) h) with
      ⟨a, ha, hale, hafits⟩
    rcases minimumGroupBudget_spec (le_trans (le_add_left _ _) h) with
      ⟨f, hf, hfle, hffits⟩
    rw [ha, hf]
    dsimp only
    rw [if_pos (by omega)]
    refine ⟨hafits.mono (by omega), fun used hused _ => ?_⟩
    by_cases hwhole : messageTokens final ≤ tokenBudget - used
    · exact .inl hwhole
    · exact hffits.mono (by omega)

/-!
# The groups of all turns
-/

/-- The groups in the order in which they are tried, after the query and the last
step. -/
def furtherGroups (older : List UserTurn) (latest : UserTurn) : List (List Nat) :=
  ((latest.steps.dropLast.filter isCheckpointStep).map Session.ids ++
    (latest.steps.dropLast.reverse.filter fun step => !isCheckpointStep step).map
      Session.ids) ++
    older.reverse.map fun turn => Session.ids turn.messages

theorem flatten_map_ids (steps : List AssistantStep) :
    (steps.map Session.ids).flatten = Session.ids steps.flatten := by
  rw [Session.ids, map_flatten]
  rfl

theorem steps_perm (steps : List AssistantStep) :
    List.Perm (Session.ids (steps.getLast?.getD []) ++
        ((steps.dropLast.filter isCheckpointStep).map Session.ids ++
          (steps.dropLast.reverse.filter fun step => !isCheckpointStep step).map
            Session.ids).flatten)
      (Session.ids steps.flatten) := by
  have hsplit : List.Perm (steps.dropLast.filter isCheckpointStep ++
      steps.dropLast.reverse.filter fun step => !isCheckpointStep step)
      steps.dropLast :=
    (List.Perm.append_left _ ((reverse_perm _).filter _)).trans
      (filter_append_perm _ _)
  rw [← map_append]
  refine (List.Perm.append_left _ (hsplit.map Session.ids).flatten).trans ?_
  refine perm_append_comm.trans (List.Perm.of_eq ?_)
  rw [flatten_map_ids, ← Session.ids_append]
  congr 1
  rcases eq_nil_or_concat steps with rfl | ⟨front, last, hsteps⟩
  · rfl
  · rw [hsteps, concat_eq_append, getLast?_concat, dropLast_concat]
    simp

theorem groups_perm (older : List UserTurn) (latest : UserTurn) :
    List.Perm (anchorGroup latest ++ (finalGroup latest ++
        (furtherGroups older latest).flatten))
      (Session.ids (flattenTurns (older ++ [latest]))) := by
  have holder : List.Perm
      (older.reverse.map fun turn => Session.ids turn.messages).flatten
      (Session.ids (flattenTurns older)) := by
    refine (((reverse_perm older).map _).flatten).trans (List.Perm.of_eq ?_)
    rw [flattenTurns, Session.ids, map_flatMap]
    rfl
  rw [furtherGroups, flatten_append, flattenTurns_append, flattenTurns_singleton,
    Session.ids_append, UserTurn.messages, Session.ids_append]
  refine List.Perm.trans ?_ perm_append_comm
  rw [append_assoc, ← append_assoc (finalGroup latest)]
  exact List.Perm.append_left _ (List.Perm.append (steps_perm latest.steps) holder)

theorem ids_outlines (messages : List (Message Id)) :
    Session.ids (outlines messages) = range messages.length := by
  rw [Session.ids, outlines, map_map, range_eq_range']
  exact zipIdx_map_snd 0 messages

theorem places_perm (hturns : buildTurns (outlines messages) = older ++ [latest]) :
    List.Perm (anchorGroup latest ++ (finalGroup latest ++
      (furtherGroups older latest).flatten)) (range messages.length) := by
  rw [← ids_outlines, ← buildTurns_flatten (outlines messages), hturns]
  exact groups_perm older latest

theorem selectTurns_attempts (tokenBudget : Nat)
    (hturns : buildTurns (outlines messages) = older ++ [latest]) :
    Attempts messages tokenBudget Selection.none
        (anchorGroup latest :: finalGroup latest :: furtherGroups older latest)
        (selectTurns messages tokenBudget older latest) ∧
      (leastTokens (groupAt messages (anchorGroup latest)) +
          leastTokens (groupAt messages (finalGroup latest)) ≤ tokenBudget ->
        forall index, index ∈ anchorGroup latest ++ finalGroup latest ->
          ((selectTurns messages tokenBudget older latest).selected index).isSome) := by
  have hperm := places_perm hturns
  have hnodup := hperm.nodup_iff.mpr nodup_range
  have hplaces : forall index, index ∈ anchorGroup latest ++ (finalGroup latest ++
      (furtherGroups older latest).flatten) -> index < messages.length :=
    fun index hindex => mem_range.mp (hperm.mem_iff.mp hindex)
  unfold selectTurns
  dsimp only
  generalize hreserve : finalReserve (groupAt messages (anchorGroup latest))
    (groupAt messages (finalGroup latest)) tokenBudget = reserve
  have hanchor := getD_attempts messages tokenBudget Selection.none (anchorGroup latest)
    true (some (tokenBudget - reserve))
  generalize hanchored : (selectGroup messages tokenBudget Selection.none
    (anchorGroup latest) true (some (tokenBudget - reserve))).getD Selection.none =
      anchored at hanchor
  have hanswer := getD_attempts messages tokenBudget anchored (finalGroup latest) true
    none
  generalize hanswered : (selectGroup messages tokenBudget anchored (finalGroup latest)
    true none).getD anchored = answered at hanswer
  have hfurther := ((selectWhile_attempts messages tokenBudget true answered
    ((latest.steps.dropLast.filter isCheckpointStep).map Session.ids)).append
      (selectWhile_attempts messages tokenBudget false _
        ((latest.steps.dropLast.reverse.filter fun step => !isCheckpointStep step).map
          Session.ids))).append
      (selectWhile_attempts messages tokenBudget false _
        (older.reverse.map fun turn => Session.ids turn.messages))
  constructor
  · exact hanchor.append (hanswer.append hfurther)
  intro hleast
  clear hanchor hanswer
  have hanchorPlaces : forall index, index ∈ anchorGroup latest ->
      index < messages.length :=
    fun index hindex => hplaces index (mem_append_left _ hindex)
  have hfinalPlaces : forall index, index ∈ finalGroup latest ->
      index < messages.length := fun index hindex =>
    hplaces index (mem_append_right _ (mem_append_left _ hindex))
  have hroom := finalReserve_room hleast
  rw [hreserve] at hroom
  have hanchorRoom : roomFor tokenBudget (Selection.none : Selection Id)
      (some (tokenBudget - reserve)) = tokenBudget - reserve :=
    min_eq_right (sub_le _ _)
  rcases (selectGroup_spec messages tokenBudget Selection.none (anchorGroup latest)
    true (some (tokenBudget - reserve)) hanchorPlaces).2 (by
      rw [hanchorRoom]
      exact hroom.1.imp_right fun h => ⟨rfl, h⟩) with ⟨first, hfirst⟩
  have hfirstSame : anchored = first := by
    rw [← hanchored, hfirst]
    rfl
  subst hfirstSame
  have hanchor := selectGroup_chooses hnodup.of_append_left hanchorPlaces hfirst
  rw [hanchorRoom] at hanchor
  rcases (selectGroup_spec messages tokenBudget anchored (finalGroup latest) true
    none hfinalPlaces).2 (by
      refine (hroom.2 anchored.usedTokens ?_ ?_).imp_right fun h => ⟨rfl, h⟩
      · exact le_trans hanchor.2.1 (le_of_eq (zero_add _))
      · intro hnil
        have hlength := length_groupAt hanchorPlaces
        rw [hnil] at hlength
        rw [hanchor.2.2 (eq_nil_of_length_eq_zero hlength.symm)]
        rfl) with ⟨second, hsecond⟩
  have hsecondSame : answered = second := by
    rw [← hanswered, hsecond]
    rfl
  subst hsecondSame
  have hanswer := (selectGroup_chooses hnodup.of_append_right.of_append_left
    hfinalPlaces hsecond).1
  have hkept := (hfurther.spec hnodup.of_append_right.of_append_right
    fun index hindex => hplaces index
      (mem_append_right _ (mem_append_right _ hindex))).1
  have hapart := disjoint_of_nodup_append hnodup
  have hbehind := disjoint_of_nodup_append hnodup.of_append_right
  intro index hindex
  rcases mem_append.mp hindex with hmem | hmem
  · rw [hkept index fun h => hapart hmem (mem_append_right _ h),
      hanswer.kept index fun h => hapart hmem (mem_append_left _ h)]
    exact hanchor.1.chosen index hmem
  · rw [hkept index (hbehind hmem)]
    exact hanswer.chosen index hmem

/-!
# The plan
-/

/-- What a plan returns, place by place. -/
structure Fits [LinearOrder Id] (messages : List (Message Id)) (tokenBudget : Nat)
    (plan : ActiveMessageBudgetPlan Id) (selected : Nat -> Option (Message Id)) :
    Prop where
  within : messageTokens plan.messages ≤ tokenBudget
  counted : plan.estimatedTokens = messageTokens plan.messages
  returned : plan.messages = (List.range messages.length).filterMap selected
  dropped : plan.droppedMessageIds = (messages.zipIdx.filter fun pair =>
    (selected pair.2).isNone).map fun pair => pair.1.id
  copied : Copied messages selected
  steps : forall step, step ∈ allSteps (outlines messages) ->
    Whole selected (Session.ids step)
  reports : Reports messages selected plan.truncatedMessageIds
  newest : forall older latest, buildTurns (outlines messages) = older ++ [latest] ->
    0 < tokenBudget ->
    leastTokens (groupAt messages (anchorGroup latest)) +
      leastTokens (groupAt messages (finalGroup latest)) ≤ tokenBudget ->
    forall index, index ∈ anchorGroup latest ++ finalGroup latest ->
      (selected index).isSome

theorem Whole.sublist {group part : List Nat}
    (h : Whole selected group) (hpart : part ⊆ group) : Whole selected part :=
  h.imp (fun hall index hindex => hall index (hpart hindex))
    fun hnone index hindex => hnone index (hpart hindex)

theorem mem_sortedIds [LinearOrder Id] {ids : List Id} {id : Id} :
    id ∈ sortedIds ids <-> id ∈ ids := by
  rw [sortedIds, mem_insertionSort, mem_dedup]

theorem whole_step (h : forall group, group ∈ anchorGroup latest ::
      finalGroup latest :: furtherGroups older latest -> Whole selected group)
    {step : AssistantStep} (hstep : step ∈ (older ++ [latest]).flatMap UserTurn.steps) :
    Whole selected (Session.ids step) := by
  rw [flatMap_append, flatMap_singleton, mem_append] at hstep
  rcases hstep with holder | hlatest
  · rcases mem_flatMap.mp holder with ⟨turn, hturn, hstep⟩
    have hgroup : Session.ids turn.messages ∈ furtherGroups older latest :=
      mem_append_right _ (mem_map.mpr
        ⟨turn, mem_reverse.mpr hturn, rfl⟩)
    refine (h _ (mem_cons_of_mem _ (mem_cons_of_mem _ hgroup))).sublist ?_
    apply map_subset
    intro m hm
    exact mem_append_right _ (mem_flatten.mpr ⟨step, hstep, hm⟩)
  · rcases eq_nil_or_concat latest.steps with hnil | ⟨front, last, hsteps⟩
    · rw [hnil] at hlatest
      cases hlatest
    rw [concat_eq_append] at hsteps
    rw [hsteps, mem_append, mem_singleton] at hlatest
    rcases hlatest with hfront | rfl
    · have hmem : step ∈ latest.steps.dropLast := by
        rw [hsteps, dropLast_concat]
        exact hfront
      apply h
      refine mem_cons_of_mem _ (mem_cons_of_mem _ (mem_append_left _ ?_))
      rw [mem_append]
      cases hkind : isCheckpointStep step with
      | true =>
        exact .inl (mem_map_of_mem (mem_filter.mpr ⟨hmem, hkind⟩))
      | false =>
        refine .inr (mem_map_of_mem (mem_filter.mpr
          ⟨mem_reverse.mpr hmem, ?_⟩))
        rw [hkind]
        rfl
    · have hfinal : finalGroup latest = Session.ids step := by
        rw [finalGroup, hsteps, getLast?_concat]
        rfl
      rw [← hfinal]
      exact h _ (mem_cons_of_mem _ mem_cons_self)

theorem fits_all [LinearOrder Id]
    (h : messageTokens messages ≤ tokenBudget) :
    Fits messages tokenBudget
      { messages := messages
        estimatedTokens := messageTokens messages
        droppedMessageIds := []
        truncatedMessageIds := [] } (messages[·]?) := by
  have hplace (index : Nat) (hindex : index < messages.length) :
      (messages[index]?).isSome := by
    rw [getElem?_eq_getElem hindex]
    rfl
  have hids (index : Nat) (hindex : index ∈ Session.ids (outlines messages)) :
      (messages[index]?).isSome := by
    rw [ids_outlines, mem_range] at hindex
    exact hplace index hindex
  constructor
  · exact h
  · rfl
  · have hmap : (range messages.length).map (messages[·]?) = messages.map some := by
      apply ext_getElem (by simp)
      intro index _ _
      simp
    have hall := congrArg (filterMap id) hmap
    rw [filterMap_map, filterMap_map] at hall
    exact (hall.trans filterMap_some).symm
  · symm
    rw [map_eq_nil_iff, filter_eq_nil_iff]
    intro pair hpair
    have hget := mem_zipIdx_iff_getElem?.mp hpair
    rw [hget]
    exact Bool.false_ne_true
  · intro index returned hsome
    exact ⟨returned, hsome, copies_self returned⟩
  · intro step hstep
    apply Or.inl
    intro index hindex
    apply hids
    rw [← buildTurns_flatten (outlines messages)]
    exact map_subset _ (steps_infix_messages hstep).subset hindex
  · intro id
    constructor
    · nofun
    · rintro ⟨index, original, returned, horiginal, hsome, hne, _⟩
      change messages[index]? = some returned at hsome
      rw [horiginal] at hsome
      cases hsome
      exact absurd rfl hne
  · intro older latest hturns _ _ index hindex
    apply hplace
    apply mem_range.mp
    apply (places_perm hturns).mem_iff.mp
    rw [← append_assoc]
    exact mem_append_left _ hindex

/-- The plan of every list of messages fits its budget, keeps the order and the steps,
tells what it dropped and shortened, and returns the newest query and its last step
when the smallest budgets of the two do not exceed a positive budget. -/
theorem fitActiveMessagesToBudget_fits [LinearOrder Id] (messages : List (Message Id))
    (tokenBudget : Nat) :
    exists selected, Fits messages tokenBudget
      (fitActiveMessagesToBudget messages tokenBudget) selected := by
  unfold fitActiveMessagesToBudget
  split
  · next hnone =>
      refine ⟨fun _ => none, ⟨Nat.zero_le _, rfl, ?_, ?_, nofun, ?_, ?_, ?_⟩⟩
      · exact (List.filterMap_eq_nil_iff.mpr fun _ _ => rfl).symm
      · have hall : messages.zipIdx.filter (fun _ => true) = messages.zipIdx :=
          List.filter_eq_self.mpr fun _ _ => rfl
        have hfst : messages.zipIdx.map (Message.id ∘ Prod.fst) = ids messages := by
          rw [← List.map_map, List.zipIdx_map_fst]
          rfl
        exact hfst.symm.trans (congrArg (List.map _) hall.symm)
      · intro step _
        exact .inr fun _ _ => rfl
      · intro id
        constructor
        · nofun
        · rintro ⟨index, original, returned, _, hsome, _⟩
          cases hsome
      · intro older latest hturns hpos
        rcases hnone with rfl | rfl
        · have hlength := congrArg List.length hturns
          rw [List.length_append] at hlength
          exact absurd hlength (Nat.succ_ne_zero _).symm
        · cases hpos
  · split
    · next hfits => exact ⟨_, fits_all hfits⟩
    · next hnone hover =>
        rcases List.eq_nil_or_concat (buildTurns (outlines messages)) with hnil |
          ⟨older, latest, hturns⟩
        · have hflat := buildTurns_flatten (outlines messages)
          rw [hnil] at hflat
          have hlength := congrArg List.length (ids_outlines messages)
          rw [← hflat, List.length_range] at hlength
          exact absurd (.inl (List.eq_nil_of_length_eq_zero hlength.symm)) hnone
        · rw [List.concat_eq_append] at hturns
          dsimp only
          rw [hturns, List.getLast?_concat, List.dropLast_concat]
          have hperm := places_perm hturns
          have hrun := selectTurns_attempts tokenBudget hturns
          have hspec := (hrun.1.spec (hperm.nodup_iff.mpr List.nodup_range)
            fun index hindex => List.mem_range.mp (hperm.mem_iff.mp hindex)).2
            (fun _ _ => rfl) (ok_none messages tokenBudget)
          refine ⟨_, ⟨Nat.le_trans hspec.1.counted hspec.1.within, rfl, rfl, rfl,
            hspec.1.copied, ?_, ?_, ?_⟩⟩
          · intro step hstep
            rw [allSteps, hturns] at hstep
            exact whole_step hspec.2 hstep
          · intro id
            rw [mem_sortedIds]
            exact hspec.1.reports id
          · intro front newest hsame _ hleast
            rw [hturns] at hsame
            rcases List.append_inj' hsame rfl with ⟨rfl, hone⟩
            cases hone
            exact hrun.2 hleast

/-- A query of four characters, of which nothing is fixed. -/
def query : Message Nat :=
  { id := 1
    role := .user
    messageKind := some .userQuery
    parts := [Part.text ['你', '好', '世', '界']] }

/-- An answer that takes five tokens even without its body. -/
def answer : Message Nat :=
  { id := 2
    role := .assistant
    messageKind := none
    parts := [Part.tool
      { toolId := List.replicate 20 'a', toolName := [], toolInput := []
        toolOutput := ['o', 'k'], toolOutputTruncated := false
        toolOutputOriginalChars := none, toolOutputPreviewChars := none }] }

/-- The fixed texts of the query and its last step can fit a budget of which the
shortened query leaves too little for the step. -/
theorem fitActiveMessagesToBudget_dropsFinal :
    ¬ forall (messages : List (Message Nat)) (tokenBudget : Nat) (older : List UserTurn)
        (latest : UserTurn), buildTurns (outlines messages) = older ++ [latest] ->
      messageTokens ((groupAt messages (anchorGroup latest)).map Message.bare) +
        messageTokens ((groupAt messages (finalGroup latest)).map Message.bare) ≤
          tokenBudget ->
      forall id, id ∈ ids (groupAt messages (anchorGroup latest ++ finalGroup latest)) ->
        id ∈ ids (fitActiveMessagesToBudget messages tokenBudget).messages := by
  intro h
  have hanswer := h [query, answer] 5 []
    { anchor := some (outline query 0), steps := [[outline answer 1]] } (by decide)
    (by decide) 2 (by decide)
  revert hanswer
  decide

end Active
end Session
end OpenViking
