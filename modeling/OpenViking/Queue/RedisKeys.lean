import Mathlib.Data.List.TakeWhile
import OpenViking.Queue.RedisQueue

/-!
# The keys of the Redis queue

Every key that a script touches is one of six kinds.  The keys are plain
strings put together from queue names and identifiers, and a queue name may be
any string, yet two different keys never have the same text.
-/

namespace OpenViking
namespace Queue

open Paths Redis List

namespace RedisQueue

/-!
# Identifiers
-/

namespace Uuid

theorem length_text (id : Uuid) : id.text.length = 36 := by
  have h := id.shape
  rw [isUuidText, Bool.and_eq_true] at h
  simpa using h.1

theorem mem_text (id : Uuid) {c : Char} (h : c ∈ id.text) :
    c = '-' ∨ isUuidChar c = true := by
  have hshape := id.shape
  rw [isUuidText, Bool.and_eq_true, all_eq_true] at hshape
  rcases mem_iff_getElem.mp h with ⟨i, hi, hget⟩
  have hmem : (c, i) ∈ id.text.zipIdx := by
    rw [mem_zipIdx_iff_getElem?, getElem?_eq_getElem hi, hget]
  have htest := hshape.2 _ hmem
  split at htest
  · exact .inl (by simpa using htest)
  · exact .inr htest

theorem separator_not_mem (id : Uuid) : '|' ∉ id.text := by
  intro h
  rcases id.mem_text h with hc | hc
  · exact absurd hc (by decide)
  · exact absurd hc (by decide)

theorem colon_not_mem (id : Uuid) : ':' ∉ id.text := by
  intro h
  rcases id.mem_text h with hc | hc
  · exact absurd hc (by decide)
  · exact absurd hc (by decide)

theorem text_injective {id id' : Uuid} (h : id.text = id'.text) : id = id' := by
  cases id
  cases id'
  cases h
  rfl

end Uuid

/-!
# Members of the processing set
-/

theorem processingMember_inj {id id' : Uuid} {inst inst' : Str}
    (h : processingMember id.text inst = processingMember id'.text inst') :
    id = id' ∧ inst = inst' := by
  have hlen : id.text.length = id'.text.length := by
    rw [id.length_text, id'.length_text]
  rcases append_inj h hlen with ⟨hid, hinst⟩
  exact ⟨Uuid.text_injective hid, tail_eq_of_cons_eq hinst⟩

theorem splitMember_processingMember (id : Uuid) (inst : Str) :
    splitMember (processingMember id.text inst) = some (id.text, inst) := by
  have hall : forall c, c ∈ id.text -> (c != '|') = true := by
    intro c hc
    rw [bne_iff_ne]
    intro heq
    rw [heq] at hc
    exact id.separator_not_mem hc
  rw [splitMember, processingMember,
    if_pos (mem_append_right _ mem_cons_self),
    takeWhile_append_of_pos hall,
    dropWhile_append_of_pos hall]
  simp

theorem eq_of_splitMember {m : Str} {p : Str × Str}
    (h : splitMember m = some p) : m = processingMember p.1 p.2 := by
  rw [splitMember] at h
  split at h
  · rename_i hmem
    cases h
    have hparts := takeWhile_append_dropWhile
      (p := fun c : Char => c != '|') (l := m)
    cases hdrop : m.dropWhile fun c => c != '|' with
    | nil =>
      have hall := dropWhile_eq_nil_iff.mp hdrop '|' hmem
      simp at hall
    | cons c rest =>
      have hhead := head_dropWhile_not (fun c : Char => c != '|') (l := m)
        (by rw [hdrop]; simp)
      have hc : c = '|' := by simpa [hdrop] using hhead
      rw [hdrop, hc] at hparts
      exact hparts.symm
  · cases h

theorem take_processingMember (id : Uuid) {inst msgId : Str}
    (hinst : '|' ∉ inst) :
    (processingMember id.text inst).take (msgId.length + 1) = msgId ++ ['|'] <->
      msgId = id.text := by
  constructor
  · intro h
    have hprefix : msgId ++ ['|'] <+: id.text ++ '|' :: inst := by
      rw [← h]
      exact take_prefix _ _
    rcases hprefix with ⟨rest, hrest⟩
    rw [append_assoc] at hrest
    rcases append_eq_append_iff.mp hrest with ⟨a, ha, hb⟩ | ⟨a, ha, hb⟩
    · cases a with
      | nil => simpa using ha.symm
      | cons c a =>
        rw [cons_append] at hb
        have hc : c = '|' := (head_eq_of_cons_eq hb).symm
        exact absurd (by simp [ha, hc]) id.separator_not_mem
    · cases a with
      | nil => simpa using ha
      | cons c a =>
        have hb' : inst = a ++ '|' :: rest := by
          simpa using tail_eq_of_cons_eq hb
        exact absurd (by simp [hb']) hinst
  · intro h
    rw [h, processingMember, append_cons,
      take_append_of_le_length (by simp)]
    simp

/-!
# Keys
-/

inductive Key where
  | names
  | metadata (queue : Str)
  | pending (queue : Str)
  | processing (queue : Str)
  | message (queue : Str) (id : Uuid)
  | alive (inst : Uuid)
deriving DecidableEq

namespace Key

def render (keyPrefix : Str) : Key -> Str
  | names => queueNamesKey keyPrefix
  | metadata queue => (QueueKeys.new keyPrefix queue).metadata
  | pending queue => (QueueKeys.new keyPrefix queue).pending
  | processing queue => (QueueKeys.new keyPrefix queue).processing
  | message queue id => (QueueKeys.new keyPrefix queue).message id.text
  | alive inst => heartbeatKey keyPrefix inst.text

/-- A key after the prefix of the namespace. -/
def body : Key -> Str
  | names => namesText
  | metadata queue => queue ++ ':' :: metaText
  | pending queue => queue ++ ':' :: pendingText
  | processing queue => queue ++ ':' :: processingText
  | message queue id => queue ++ (':' :: messageText ++ [':']) ++ id.text
  | alive inst => instanceText ++ [':'] ++ inst.text ++ ':' :: aliveText

theorem render_eq (keyPrefix : Str) (k : Key) :
    k.render keyPrefix = queueKeyPrefix keyPrefix ++ k.body := by
  cases k <;>
    simp only [render, body, queueNamesKey, QueueKeys.new, QueueKeys.message,
      heartbeatKey, aliveKey, instanceKeyPrefix, append_assoc]

/-- A key after its last colon. -/
def suffix : Key -> Str
  | names => namesText
  | metadata _ => metaText
  | pending _ => pendingText
  | processing _ => processingText
  | message _ id => id.text
  | alive _ => aliveText

def lastSegment (s : Str) : Str :=
  s.reverse.takeWhile fun c => c != ':'

theorem lastSegment_append (s : Str) {t : Str} (h : ':' ∉ t) :
    lastSegment (s ++ ':' :: t) = t.reverse := by
  have hall : forall c, c ∈ t.reverse -> (c != ':') = true := by
    intro c hc
    rw [bne_iff_ne]
    intro heq
    rw [heq, mem_reverse] at hc
    exact h hc
  rw [lastSegment, reverse_append, reverse_cons, append_assoc,
    takeWhile_append_of_pos hall]
  simp

theorem lastSegment_body (k : Key) : lastSegment k.body = k.suffix.reverse := by
  cases k with
  | names => decide
  | metadata queue => exact lastSegment_append queue (by decide)
  | pending queue => exact lastSegment_append queue (by decide)
  | processing queue => exact lastSegment_append queue (by decide)
  | message queue id =>
    have h := lastSegment_append (queue ++ ':' :: messageText) id.colon_not_mem
    rw [suffix, ← h, body]
    congr 1
    simp
  | alive inst => exact lastSegment_append _ (by decide)

theorem suffix_inj {k k' : Key} (h : k.body = k'.body) :
    k.suffix = k'.suffix := by
  have hlast := congrArg lastSegment h
  rw [lastSegment_body, lastSegment_body] at hlast
  exact reverse_injective hlast

/-- The suffix tells what kind of key it is. -/
def tag : Key -> Nat
  | names => 0
  | metadata _ => 1
  | pending _ => 2
  | processing _ => 3
  | message _ _ => 4
  | alive _ => 5

def tagOfSuffix (s : Str) : Nat :=
  if s = namesText then 0
  else if s = metaText then 1
  else if s = pendingText then 2
  else if s = processingText then 3
  else if s = aliveText then 5
  else 4

theorem tagOfSuffix_text (id : Uuid) : tagOfSuffix id.text = 4 := by
  have hne : forall s : Str, s.length ≠ 36 -> id.text ≠ s := by
    intro s hs heq
    rw [← heq, id.length_text] at hs
    exact hs rfl
  rw [tagOfSuffix, if_neg (hne _ (by decide)), if_neg (hne _ (by decide)),
    if_neg (hne _ (by decide)), if_neg (hne _ (by decide)),
    if_neg (hne _ (by decide))]

theorem tagOfSuffix_suffix (k : Key) : tagOfSuffix k.suffix = k.tag := by
  cases k with
  | message queue id => exact tagOfSuffix_text id
  | _ => rfl

theorem body_injective {k k' : Key} (h : k.body = k'.body) : k = k' := by
  have hsuffix := suffix_inj h
  have htag : k.tag = k'.tag := by
    rw [← tagOfSuffix_suffix, ← tagOfSuffix_suffix, hsuffix]
  cases k with
  | names =>
    cases k' with
    | names => rfl
    | _ => cases htag
  | metadata queue =>
    cases k' with
    | metadata queue' => exact congrArg metadata (append_cancel_right h)
    | _ => cases htag
  | pending queue =>
    cases k' with
    | pending queue' => exact congrArg pending (append_cancel_right h)
    | _ => cases htag
  | processing queue =>
    cases k' with
    | processing queue' =>
      exact congrArg processing (append_cancel_right h)
    | _ => cases htag
  | message queue id =>
    cases k' with
    | message queue' id' =>
      have hid := Uuid.text_injective hsuffix
      subst hid
      have hq := append_cancel_right (append_cancel_right h)
      rw [hq]
    | _ => cases htag
  | alive inst =>
    cases k' with
    | alive inst' =>
      have hinst := append_cancel_left (append_cancel_right h)
      rw [Uuid.text_injective hinst]
    | _ => cases htag

@[simp] theorem render_inj (keyPrefix : Str) {k k' : Key} :
    k.render keyPrefix = k'.render keyPrefix <-> k = k' := by
  constructor
  · intro h
    rw [render_eq, render_eq] at h
    exact body_injective (append_cancel_left h)
  · intro h
    rw [h]

end Key

end RedisQueue

end Queue
end OpenViking
