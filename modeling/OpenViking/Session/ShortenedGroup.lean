import OpenViking.Session.ActiveBudget

/-!
# What shortening a group gives

A shortened group is a copy of the group message by message.  It stays within its
budget, and it exists exactly when the group with nothing but its fixed texts
does.
-/

namespace OpenViking
namespace Session

open Active.Part Active.Message

namespace Active

open Text Bisection List

variable {Id : Type}

/-- The weight of the texts that the estimate counts. -/
def partsWeight (parts : List Part) : Nat :=
  (parts.map fun part => weight part.tokenText).sum

theorem weight_flatMap (parts : List Part) :
    weight (parts.flatMap tokenText) = partsWeight parts := by
  induction parts with
  | nil => rfl
  | cons part rest ih =>
    rw [flatMap_cons, weight_append, ih]
    rfl

theorem partsWeight_append (a b : List Part) :
    partsWeight (a ++ b) = partsWeight a + partsWeight b := by
  rw [partsWeight, map_append, sum_append]
  rfl

theorem partsWeight_cons (part : Part) (rest : List Part) :
    partsWeight (part :: rest) = weight part.tokenText + partsWeight rest := by
  rw [partsWeight, map_cons, sum_cons]
  rfl

theorem estimatedTokens_eq (message : Message Id) :
    message.estimatedTokens = ceilTokens (partsWeight message.parts) := by
  rw [estimatedTokens, estimateTextTokens, weight_flatMap]

theorem messageTokens_append (a b : List (Message Id)) :
    messageTokens (a ++ b) = messageTokens a + messageTokens b := by
  rw [messageTokens, map_append, sum_append]
  rfl

theorem messageTokens_cons (message : Message Id) (rest : List (Message Id)) :
    messageTokens (message :: rest) = message.estimatedTokens + messageTokens rest := by
  rw [messageTokens, map_cons, sum_cons]
  rfl

theorem messageTokens_le {a b : List (Message Id)}
    (h : List.Forall₂ (fun m n => partsWeight m.parts ≤ partsWeight n.parts) a b) :
    messageTokens a ≤ messageTokens b := by
  induction h with
  | nil => exact Nat.le_refl _
  | cons hhead _ ih =>
    rw [messageTokens_cons, messageTokens_cons, estimatedTokens_eq, estimatedTokens_eq]
    exact Nat.add_le_add (ceilTokens_mono hhead) ih

/-!
# Copies

A copy has the body of its original cut to some budget, and the input of its
original or none.
-/

variable (tokens : Nat)

/-- The part with its body cut, and without its input if `dropped` says so. -/
def Part.cut (dropped : Bool) (original : Part) : Part :=
  (if dropped then original.clearInput else original).setBody
    (truncateTextToTokenBudget (original.body.getD []) tokens)

/-- Nothing is left of a part but what cannot be taken away. -/
def Part.bare (original : Part) : Part :=
  (original.setBody []).clearInput

def Message.bare (original : Message Id) : Message Id :=
  original.withParts (original.parts.map Part.bare)

theorem Part.body_cut (dropped : Bool) (original : Part) :
    (original.cut tokens dropped).body =
      original.body.map fun body => truncateTextToTokenBudget body tokens := by
  cases original <;> cases dropped <;> rfl

theorem Part.toolInput_cut (dropped : Bool) (original : Part) :
    (original.cut tokens dropped).toolInput =
      if dropped then [] else original.toolInput := by
  cases original <;> cases dropped <;> rfl

theorem Part.cut_clearInput (dropped : Bool) (original : Part) :
    (original.cut tokens dropped).clearInput = original.cut tokens true := by
  cases original <;> cases dropped <;> rfl

theorem Part.setBody_eq_cut (original : Part) :
    original.setBody [] = original.cut 0 false := by
  rw [cut, truncate_zero]
  rfl

variable {part : Part}

theorem Part.clearInput_of_nil (h : part.toolInput = []) :
    part.clearInput = part := by
  cases part with
  | tool part =>
    cases part
    cases h
    rfl
  | _ => rfl

theorem Part.weight_cut (dropped : Bool) (original : Part) :
    weight (original.cut tokens dropped).tokenText ≤
      weight (original.cut 0 dropped).tokenText + 4 * tokens := by
  have hle := weight_truncate_le (original.body.getD []) tokens
  unfold cut
  rw [truncate_zero]
  generalize truncateTextToTokenBudget (original.body.getD []) tokens = body at hle
  cases original <;> cases dropped <;>
    simp only [clearInput, setBody, tokenText, weight_append, weight_nil,
      if_true, if_false, Bool.false_eq_true] <;> omega

theorem Part.weight_bare_le (dropped : Bool) (original : Part) :
    weight original.bare.tokenText ≤
      weight (original.cut tokens dropped).tokenText := by
  unfold bare cut
  generalize truncateTextToTokenBudget (original.body.getD []) tokens = body
  cases original <;> cases dropped <;>
    simp only [clearInput, setBody, tokenText, weight_append, weight_nil,
      if_true, if_false, Bool.false_eq_true] <;> omega

theorem Part.weight_bare_le_self (original : Part) :
    weight original.bare.tokenText ≤ weight original.tokenText := by
  cases original <;>
    simp only [bare, clearInput, setBody, tokenText, weight_append,
      weight_nil] <;> omega

/-- A part that was cut, to nothing if `empty` is set. -/
def CutPart (empty : Bool) (original part : Part) : Prop :=
  exists tokens dropped, (empty = true -> tokens = 0) ∧ part = original.cut tokens dropped

structure CutMessage (empty : Bool) (original message : Message Id) : Prop where
  same : message = original.withParts message.parts
  parts : List.Forall₂ (CutPart empty) original.parts message.parts

variable {empty : Bool}

variable {message original : Message Id} {parts : List Part}

theorem CutMessage.withParts (h : CutMessage empty original message) {kept : Bool}
    (hparts : List.Forall₂ (CutPart kept) original.parts parts) :
    CutMessage kept original (message.withParts parts) := by
  refine ⟨?_, hparts⟩
  rw [h.same]
  rfl

theorem partsWeight_bare_le {originals : List Part}
    (h : List.Forall₂ (CutPart empty) originals parts) :
    partsWeight (originals.map bare) ≤ partsWeight parts := by
  induction h with
  | nil => exact Nat.le_refl _
  | cons hpart _ ih =>
    rcases hpart with ⟨tokens, dropped, _, rfl⟩
    rw [map_cons, partsWeight_cons, partsWeight_cons]
    exact Nat.add_le_add (weight_bare_le _ _ _) ih

variable {messages originals : List (Message Id)}

theorem messageTokens_bare_le
    (h : List.Forall₂ (CutMessage empty) originals messages) :
    messageTokens (originals.map bare) ≤ messageTokens messages := by
  apply messageTokens_le
  rw [forall₂_map_left_iff]
  exact h.imp fun _ _ hcut => partsWeight_bare_le hcut.parts

theorem messageTokens_bare_le_self (messages : List (Message Id)) :
    messageTokens (messages.map bare) ≤ messageTokens messages := by
  apply messageTokens_le
  rw [forall₂_map_left_iff]
  apply forall₂_same.mpr
  intro message _
  change partsWeight (message.parts.map bare) ≤ _
  induction message.parts with
  | nil => exact Nat.le_refl _
  | cons part rest ih =>
    rw [map_cons, partsWeight_cons, partsWeight_cons]
    exact Nat.add_le_add (weight_bare_le_self part) ih

theorem cutMessage_clearBodies (message : Message Id) :
    CutMessage true message message.clearBodies := by
  refine ⟨rfl, ?_⟩
  change List.Forall₂ _ message.parts (message.parts.map _)
  rw [forall₂_map_right_iff]
  apply forall₂_same.mpr
  intro part _
  exact ⟨0, false, fun _ => rfl, part.setBody_eq_cut⟩

/-!
# Clearing inputs
-/

def Message.clearInputs (message : Message Id) : Message Id :=
  message.withParts (message.parts.map Part.clearInput)

theorem CutPart.clearInput {original : Part}
    (h : CutPart empty original part) : CutPart empty original part.clearInput := by
  rcases h with ⟨tokens, dropped, hempty, rfl⟩
  exact ⟨tokens, true, hempty, cut_clearInput tokens dropped original⟩

/-- Clearing stops at a fit, or when every input is gone. -/
theorem clearPartInputs_spec (fits : List Part -> Bool)
    {before originals front : List Part}
    (hfront : List.Forall₂ (CutPart empty) before front)
    (hparts : List.Forall₂ (CutPart empty) originals parts) :
    List.Forall₂ (CutPart empty) (before ++ originals)
        (clearPartInputs fits front parts) ∧
      (fits (clearPartInputs fits front parts) = true ∨
        clearPartInputs fits front parts = front ++ parts.map clearInput) := by
  induction hparts generalizing before front with
  | nil =>
    rw [append_nil]
    exact ⟨hfront, .inr (append_nil front).symm⟩
  | @cons original part originals rest hpart hrest ih =>
    have hnext (next : Part) (hnext : CutPart empty original next) :=
      ih (rel_append hfront (List.Forall₂.cons hnext List.Forall₂.nil))
    rw [← append_cons] at hnext
    rw [clearPartInputs]
    split
    · next hnil =>
        have hstep := hnext part hpart
        refine ⟨hstep.1, hstep.2.imp_right fun hall => ?_⟩
        rw [hall, map_cons, clearInput_of_nil hnil, append_assoc]
        rfl
    · split
      · next hfits =>
          exact ⟨rel_append hfront (List.Forall₂.cons hpart.clearInput hrest),
            Or.inl hfits⟩
      · have hstep := hnext part.clearInput hpart.clearInput
        refine ⟨hstep.1, hstep.2.imp_right fun hall => ?_⟩
        rw [hall, map_cons, append_assoc]
        rfl

variable {front : List (Message Id)}

theorem clearInputs_spec (budget : Nat)
    {before : List (Message Id)}
    (hfront : List.Forall₂ (CutMessage true) before front)
    (hmessages : List.Forall₂ (CutMessage true) originals messages) :
    List.Forall₂ (CutMessage true) (before ++ originals)
        (clearInputs budget front messages) ∧
      (messageTokens (clearInputs budget front messages) ≤ budget ∨
        clearInputs budget front messages =
          front ++ messages.map Message.clearInputs) := by
  induction hmessages generalizing before front with
  | nil =>
    rw [append_nil]
    exact ⟨hfront, .inr (append_nil front).symm⟩
  | @cons original message originals rest hmessage hrest ih =>
    have hparts := clearPartInputs_spec
      (fun parts => messageTokens (front ++ message.withParts parts :: rest) ≤ budget)
      List.Forall₂.nil hmessage.parts
    have hcleared := hmessage.withParts hparts.1
    have hstep := ih (rel_append hfront
      (List.Forall₂.cons hcleared List.Forall₂.nil))
    rw [← append_cons] at hstep
    rw [clearInputs]
    split
    · next hfits =>
        exact ⟨rel_append hfront (List.Forall₂.cons hcleared hrest),
          Or.inl hfits⟩
    · next hover =>
        have hall := hparts.2.resolve_left fun hfits =>
          hover (of_decide_eq_true hfits)
        refine ⟨hstep.1, hstep.2.imp_right fun hrest => ?_⟩
        rw [hrest, hall, append_assoc]
        rfl

theorem clearInputs_clearBodies (message : Message Id) :
    message.clearBodies.clearInputs = message.bare := by
  change message.withParts ((message.parts.map _).map _) = message.withParts _
  rw [map_map]
  rfl

/-!
# Filling the bodies
-/

theorem messageTokens_part_le {done : List (Message Id)}
    {older newer : List Part} {filled : Part} {tokens : Nat}
    (h : weight filled.tokenText ≤ weight part.tokenText + 4 * tokens) :
    messageTokens (front ++ message.withParts (older ++ filled :: newer) :: done) ≤
      messageTokens (front ++ message.withParts (older ++ part :: newer) :: done) +
        tokens := by
  have hmessage : (message.withParts (older ++ filled :: newer)).estimatedTokens ≤
      (message.withParts (older ++ part :: newer)).estimatedTokens + tokens := by
    rw [estimatedTokens_eq, estimatedTokens_eq]
    change ceilTokens (partsWeight (older ++ filled :: newer)) ≤
      ceilTokens (partsWeight (older ++ part :: newer)) + tokens
    rw [partsWeight_append, partsWeight_append, partsWeight_cons, partsWeight_cons]
    refine Nat.le_trans (ceilTokens_mono ?_)
      (ceilTokens_add_le (Nat.le_refl (4 * tokens)))
    omega
  rw [messageTokens_append, messageTokens_append, messageTokens_cons, messageTokens_cons]
  omega

theorem fillPart_cut (remaining : Nat) {original cleared : Part}
    (h : CutPart true original cleared) :
    CutPart false original (fillPart remaining original cleared) ∧
      weight (fillPart remaining original cleared).tokenText ≤
        weight cleared.tokenText + 4 * remaining := by
  rcases h with ⟨tokens, dropped, hempty, rfl⟩
  rw [hempty rfl]
  have hkept : CutPart false original (original.cut 0 dropped) :=
    ⟨0, dropped, nofun, rfl⟩
  unfold fillPart
  split
  · exact ⟨hkept, Nat.le_add_right _ _⟩
  · next body hbody =>
      split
      · exact ⟨hkept, Nat.le_add_right _ _⟩
      have hfilled : (original.cut 0 dropped).setBody
          (truncateTextToTokenBudget body remaining) =
          original.cut remaining dropped := by
        unfold cut
        rw [hbody]
        cases original <;> cases dropped <;> rfl
      rw [hfilled]
      exact ⟨⟨remaining, dropped, nofun, rfl⟩, weight_cut _ _ _⟩

theorem fillParts_spec {budget : Nat} {done : List (Message Id)}
    {older originals cleared : List Part}
    (h : List.Forall₂ (CutPart true) originals cleared)
    (hfits : messageTokens (front ++ message.withParts (older ++ cleared) :: done) ≤
      budget) :
    let filled := fillParts (fun parts =>
      budget - messageTokens (front ++ message.withParts parts :: done)) older
      (originals.zip cleared)
    List.Forall₂ (CutPart false) originals filled ∧
      messageTokens (front ++ message.withParts (older ++ filled) :: done) ≤ budget := by
  induction h generalizing older with
  | nil => exact ⟨List.Forall₂.nil, hfits⟩
  | @cons original part originals rest hpart _ ih =>
    have hstep := ih (by simpa using hfits :
      messageTokens (front ++ message.withParts ((older ++ [part]) ++ rest) :: done) ≤
        budget)
    rw [zip_cons_cons, fillParts]
    generalize fillParts _ (older ++ [part]) (originals.zip rest) = newer at hstep ⊢
    dsimp only at hstep ⊢
    rw [append_assoc, singleton_append] at hstep
    have hcut := fillPart_cut (budget - messageTokens
      (front ++ message.withParts (older ++ part :: newer) :: done)) hpart
    refine ⟨List.Forall₂.cons hcut.1 hstep.1, ?_⟩
    generalize fillPart _ original part = filled at hcut ⊢
    have hle : messageTokens (front ++ message.withParts (older ++ filled :: newer)
        :: done) ≤ _ := messageTokens_part_le hcut.2
    omega

theorem fillMessages_spec {budget : Nat} {cleared : List (Message Id)}
    (h : List.Forall₂ (CutMessage true) originals cleared)
    (hfits : messageTokens (front ++ cleared) ≤ budget) :
    List.Forall₂ (CutMessage false) originals
        (fillMessages budget front (originals.zip cleared)) ∧
      messageTokens (front ++ fillMessages budget front (originals.zip cleared)) ≤
        budget := by
  induction h generalizing front with
  | nil => exact ⟨List.Forall₂.nil, hfits⟩
  | @cons original message originals rest hmessage _ ih =>
    have hstep := ih (by simpa using hfits :
      messageTokens ((front ++ [message]) ++ rest) ≤ budget)
    rw [zip_cons_cons, fillMessages]
    generalize fillMessages budget (front ++ [message]) (originals.zip rest) = done
      at hstep ⊢
    rw [append_assoc, singleton_append] at hstep
    have hfits : messageTokens
        (front ++ message.withParts ([] ++ message.parts) :: done) ≤ budget := hstep.2
    have hparts := fillParts_spec hmessage.parts hfits
    exact ⟨List.Forall₂.cons (hmessage.withParts hparts.1) hstep.1, hparts.2⟩

/-!
# The shortened group
-/

/-- What a returned message may differ in from the one it stands for: a body that was
cut, an input that was taken away, and the note of a preview. -/
def Copies (original returned : Message Id) : Prop :=
  exists filled, CutMessage false original filled ∧
    returned = stampMessage original filled

theorem stampPart_tokenText (original filled : Part) :
    (stampPart original filled).tokenText = filled.tokenText := by
  unfold stampPart
  split
  · split <;> rfl
  · rfl

theorem stampPart_eq_iff {original filled : Part} (h : CutPart false original filled) :
    stampPart original filled = original <->
      ¬ (original.body ≠ filled.body ∨
        (original.toolInput ≠ [] ∧ filled.toolInput = [])) := by
  rcases h with ⟨tokens, dropped, _, rfl⟩
  rw [body_cut, toolInput_cut]
  cases original with
  | tool part =>
    cases part
    cases dropped <;> simp [stampPart, cut, clearInput, setBody,
      body, toolInput] <;> grind
  | text content =>
    cases dropped <;> simp [stampPart, cut, clearInput, setBody,
      body, toolInput, eq_comm]
  | context uri abstract =>
    cases dropped <;> simp [stampPart, cut, clearInput, setBody,
      body, toolInput, eq_comm]
  | image url =>
    cases dropped <;> simp [stampPart, cut, clearInput, setBody,
      body, toolInput]

theorem shortened_iff {filled : Message Id} (h : CutMessage false original filled) :
    shortened original filled = true <-> stampMessage original filled ≠ original := by
  have hparts : (zipWith stampPart original.parts filled.parts = original.parts) <->
      ((original.parts.zip filled.parts).any fun pair =>
        pair.1.body ≠ pair.2.body || (pair.1.toolInput ≠ [] && pair.2.toolInput = []))
          = false := by
    rcases h with ⟨_, h⟩
    generalize original.parts = parts at h
    generalize filled.parts = cut at h
    induction h with
    | nil => simp
    | cons hpart _ ih =>
      have hiff := stampPart_eq_iff hpart
      rw [zipWith_cons_cons, zip_cons_cons, any_cons,
        cons.injEq, hiff, ih, Bool.or_eq_false_iff]
      simp
  have hstamp : stampMessage original filled =
      original.withParts (zipWith stampPart original.parts filled.parts) := by
    rw [h.same]
    rfl
  have hsame : stampMessage original filled = original <->
      zipWith stampPart original.parts filled.parts = original.parts := by
    rw [hstamp]
    constructor
    · intro heq
      exact congrArg parts heq
    · intro heq
      rw [heq]
      rfl
  rw [Ne, hsame, hparts, shortened, Bool.not_eq_false]

/-- A returned group is within its budget, copies the group message by message, and
the ids are those of the messages that changed. -/
structure Shortens (messages : List (Message Id)) (tokenBudget : Nat)
    (returned : List (Message Id)) (truncated : List Id) : Prop where
  within : messageTokens returned ≤ tokenBudget
  copies : List.Forall₂ Copies messages returned
  changed : forall id, id ∈ truncated <->
    exists pair, pair ∈ messages.zip returned ∧ pair.2 ≠ pair.1 ∧ pair.1.id = id

theorem copies_self (message : Message Id) : Copies message message := by
  refine ⟨message, ⟨rfl, ?_⟩, ?_⟩
  · apply forall₂_same.mpr
    intro part _
    refine ⟨estimateTextTokens (part.body.getD []), false, nofun, ?_⟩
    have hkept : truncateTextToTokenBudget (part.body.getD [])
        (estimateTextTokens (part.body.getD [])) = part.body.getD [] := by
      rw [truncateTextToTokenBudget, if_pos (Or.inr (Nat.le_refl _))]
    rw [cut, hkept]
    cases part <;> rfl
  · have hparts : zipWith stampPart message.parts message.parts =
        message.parts := by
      induction message.parts with
      | nil => rfl
      | cons part rest ih =>
        rw [zipWith_cons_cons, ih]
        cases part <;> simp [stampPart]
    rw [stampMessage, hparts]
    rfl

theorem shortens_self {tokenBudget : Nat}
    (h : messageTokens messages ≤ tokenBudget) :
    Shortens messages tokenBudget messages [] := by
  refine ⟨h, forall₂_same.mpr fun message _ => copies_self message, ?_⟩
  intro id
  constructor
  · intro hid
    cases hid
  · rintro ⟨pair, hpair, hne, _⟩
    have hsame : List.Forall₂ Eq messages messages :=
      forall₂_same.mpr fun _ _ => rfl
    exact absurd ((forall₂_iff_zip.mp hsame).2 hpair).symm hne

theorem estimatedTokens_stamp {filled : Message Id}
    (h : CutMessage false original filled) :
    (stampMessage original filled).estimatedTokens = filled.estimatedTokens := by
  rw [estimatedTokens, estimatedTokens]
  change estimateTextTokens ((zipWith stampPart original.parts
    filled.parts).flatMap tokenText) = _
  congr 1
  rcases h with ⟨_, h⟩
  generalize original.parts = parts at h
  generalize filled.parts = cut at h
  induction h with
  | nil => rfl
  | cons _ _ ih =>
    rw [zipWith_cons_cons, flatMap_cons, flatMap_cons, ih,
      stampPart_tokenText]

/-- Stamping a filled group changes neither its tokens nor what is a copy. -/
theorem shortens_stamp {filled : List (Message Id)} {tokenBudget : Nat}
    (h : List.Forall₂ (CutMessage false) messages filled)
    (hwithin : messageTokens filled ≤ tokenBudget) :
    Shortens messages tokenBudget (zipWith stampMessage messages filled)
      (shortenedIds messages filled) := by
  constructor
  · have htokens : messageTokens (zipWith stampMessage messages filled) =
        messageTokens filled := by
      clear hwithin
      induction h with
      | nil => rfl
      | cons hmessage _ ih =>
        rw [zipWith_cons_cons, messageTokens_cons, messageTokens_cons, ih,
          estimatedTokens_stamp hmessage]
    rw [htokens]
    exact hwithin
  · clear hwithin
    induction h with
    | nil => exact List.Forall₂.nil
    | cons hmessage _ ih => exact List.Forall₂.cons ⟨_, hmessage, rfl⟩ ih
  · intro id
    rw [shortenedIds]
    clear hwithin
    induction h with
    | nil => simp
    | @cons original cut originals rest hmessage _ ih =>
      have hiff := shortened_iff hmessage
      rw [zipWith_cons_cons, zip_cons_cons, zip_cons_cons,
        filter_cons]
      by_cases hshort : shortened original cut = true
      · rw [if_pos hshort, map_cons, mem_cons, ih]
        constructor
        · rintro (rfl | ⟨pair, hpair, hrest⟩)
          · exact ⟨_, mem_cons_self, hiff.mp hshort, rfl⟩
          · exact ⟨pair, mem_cons_of_mem _ hpair, hrest⟩
        · rintro ⟨pair, hpair, hne, hid⟩
          rcases mem_cons.mp hpair with rfl | hpair
          · exact .inl hid.symm
          · exact .inr ⟨pair, hpair, hne, hid⟩
      · rw [if_neg hshort, ih]
        constructor
        · rintro ⟨pair, hpair, hrest⟩
          exact ⟨pair, mem_cons_of_mem _ hpair, hrest⟩
        · rintro ⟨pair, hpair, hne, hid⟩
          rcases mem_cons.mp hpair with rfl | hpair
          · exact absurd (hiff.mpr hne) hshort
          · exact ⟨pair, hpair, hne, hid⟩

/-- The group after its bodies and, as far as needed, its inputs are cleared. -/
def clonedGroup (messages : List (Message Id)) (tokenBudget : Nat) :
    List (Message Id) :=
  if messageTokens (messages.map Message.clearBodies) > tokenBudget then
    clearInputs tokenBudget [] (messages.map Message.clearBodies)
  else messages.map Message.clearBodies

theorem clonedGroup_spec (messages : List (Message Id)) (tokenBudget : Nat) :
    List.Forall₂ (CutMessage true) messages (clonedGroup messages tokenBudget) ∧
      (messageTokens (messages.map Message.bare) ≤ tokenBudget ->
        messageTokens (clonedGroup messages tokenBudget) ≤ tokenBudget) := by
  have hcleared :
      List.Forall₂ (CutMessage true) messages (messages.map Message.clearBodies) := by
    rw [forall₂_map_right_iff]
    exact forall₂_same.mpr fun message _ => cutMessage_clearBodies message
  unfold clonedGroup
  split
  · have hspec := clearInputs_spec tokenBudget List.Forall₂.nil hcleared
    refine ⟨hspec.1, fun hbare => ?_⟩
    rcases hspec.2 with hfits | hall
    · exact hfits
    · have hmap : (messages.map Message.clearBodies).map Message.clearInputs =
          messages.map Message.bare := by
        rw [map_map]
        exact map_congr_left fun message _ => clearInputs_clearBodies message
      rw [hall, nil_append, hmap]
      exact hbare
  · next hfits => exact ⟨hcleared, fun _ => Nat.le_of_not_lt hfits⟩

/-- A group can be returned exactly when a budget is left and its fixed texts fit. -/
theorem truncateMessageGroup_spec (messages : List (Message Id)) (tokenBudget : Nat)
    (hne : messages ≠ []) :
    let result := truncateMessageGroup messages tokenBudget
    (result.1 ≠ [] <->
      0 < tokenBudget ∧ messageTokens (messages.map bare) ≤ tokenBudget) ∧
    (result.1 ≠ [] -> Shortens messages tokenBudget result.1 result.2) := by
  intro result
  have hcloned := clonedGroup_spec messages tokenBudget
  have hbare := messageTokens_bare_le hcloned.1
  have hempty : (([], []) : List (Message Id) × List Id).1 ≠ [] -> False :=
    fun h => h rfl
  change (result.1 ≠ [] <-> _) ∧ _
  have hresult : result = truncateMessageGroup messages tokenBudget := rfl
  unfold truncateMessageGroup at hresult
  split at hresult
  · next hnone =>
      rw [hresult]
      refine ⟨⟨fun h => absurd rfl h, fun h => ?_⟩, fun h => absurd rfl h⟩
      rcases hnone with hzero | hnil
      · omega
      · exact absurd hnil hne
  · next hsome =>
      have hpos : 0 < tokenBudget := Nat.pos_of_ne_zero fun h => hsome (Or.inl h)
      split at hresult
      · next hfits =>
          rw [hresult]
          refine ⟨⟨fun _ => ⟨hpos, ?_⟩, fun _ => hne⟩, fun _ => shortens_self hfits⟩
          exact Nat.le_trans (messageTokens_bare_le_self messages) hfits
      change result = (if messageTokens (clonedGroup messages tokenBudget) > tokenBudget
        then _ else _) at hresult
      split at hresult
      · next hover =>
          rw [hresult]
          refine ⟨⟨fun h => absurd rfl h, fun h => ?_⟩, fun h => absurd rfl h⟩
          exact absurd (hcloned.2 h.2) (Nat.not_le_of_gt hover)
      · next hfits =>
          have hfilled := fillMessages_spec hcloned.1 (Nat.le_of_not_lt hfits :
            messageTokens ([] ++ clonedGroup messages tokenBudget) ≤ tokenBudget)
          have hshortens := shortens_stamp hfilled.1 hfilled.2
          change result = (if messageTokens (zipWith stampMessage messages
            (fillMessages tokenBudget [] (messages.zip
              (clonedGroup messages tokenBudget)))) > tokenBudget then _ else _)
            at hresult
          rw [if_neg (Nat.not_lt_of_ge hshortens.within)] at hresult
          rw [hresult]
          refine ⟨⟨fun _ => ⟨hpos, Nat.le_trans hbare (Nat.le_of_not_lt hfits)⟩,
            fun _ hnil => ?_⟩, fun _ => hshortens⟩
          exact hne (eq_nil_of_length_eq_zero
            (hshortens.copies.length_eq.trans (congrArg length hnil)))

end Active
end Session
end OpenViking
