import Mathlib
import PiDeck.Collections.Separators

/-! Identifiers of several servers under one roof. The ids of the current server stay as they are,
those of another server get its id spliced in. -/
namespace PiDeck.Servers
open PiDeck.Collections

/-- The characters of the patterns for ids. -/
def idChar (c : Char) : Bool := c.isAlphanum || c = '_' || c = '-'

/-- `SERVER_ID_PATTERN`. -/
def serverIdPattern (text : String) : Bool :=
  decide (1 ≤ text.toList.length ∧ text.toList.length ≤ 48) && text.toList.all idChar

/-- The id of a normalized definition. -/
structure ServerId where
  text : String
  matched : serverIdPattern text = true

instance : DecidableEq ServerId := fun a b =>
  decidable_of_iff (a.text = b.text) (by cases a; cases b; simp)

inductive EntityKind
  | session
  | tab
  | muxTerminal
  deriving DecidableEq, Repr

namespace EntityKind

/-- The start of the ids of the kind. -/
def tag : EntityKind → String
  | session => "ses"
  | tab => "tab"
  | muxTerminal => "term"

end EntityKind

/-- The patterns of `SessionId`, `SessionTabId` and `MuxTerminalId`. -/
def idPattern (kind : EntityKind) (text : String) : Bool :=
  let start := kind.tag.toList ++ ['-']
  let rest := text.toList.drop start.length
  decide (text.toList.take start.length = start) && !rest.isEmpty && rest.all idChar

/-- An id of the schema for its kind. -/
structure EntityId (kind : EntityKind) where
  text : String
  matched : idPattern kind text = true

instance {kind : EntityKind} : DecidableEq (EntityId kind) := fun a b =>
  decidable_of_iff (a.text = b.text) (by cases a; cases b; simp)

/-- What follows the start of the id. -/
def EntityId.rest {kind : EntityKind} (id : EntityId kind) : List Char :=
  id.text.toList.drop (kind.tag.length + 1)

def scopedId (kind : EntityKind) (serverId localId : String) : String :=
  kind.tag ++ "-" ++ serverId ++ "--" ++ String.ofList (localId.toList.drop (kind.tag.length + 1))

def scopedTerminalId (serverId terminalId : String) : String :=
  "term-" ++ serverId ++ "--" ++ terminalId

variable {kind : EntityKind}

theorem EntityId.toList_text (id : EntityId kind) :
    id.text.toList = kind.tag.toList ++ ['-'] ++ id.rest ∧ id.rest ≠ [] ∧
      id.rest.all idChar = true := by
  have hlen : (kind.tag.toList ++ ['-']).length = kind.tag.length + 1 := by
    cases kind <;> rfl
  obtain ⟨⟨hstart, hne⟩, hall⟩ : (id.text.toList.take (kind.tag.toList ++ ['-']).length =
      kind.tag.toList ++ ['-'] ∧ (!(id.text.toList.drop
        (kind.tag.toList ++ ['-']).length).isEmpty) = true) ∧
      (id.text.toList.drop (kind.tag.toList ++ ['-']).length).all idChar = true := by
    have h := id.matched
    simp only [idPattern, Bool.and_eq_true, decide_eq_true_eq] at h
    exact h
  rw [hlen] at hstart hne hall
  refine ⟨?_, ?_, hall⟩
  · rw [← hstart]
    exact (List.take_append_drop _ _).symm
  · intro hnil
    rw [EntityId.rest] at hnil
    rw [hnil] at hne
    cases hne

/-- A start and characters of ids make an id. -/
theorem idPattern_of_rest {text : String} {rest : List Char}
    (h : text.toList = kind.tag.toList ++ ['-'] ++ rest) (hne : rest ≠ [])
    (hall : rest.all idChar = true) : idPattern kind text = true := by
  have htake : text.toList.take (kind.tag.toList ++ ['-']).length = kind.tag.toList ++ ['-'] := by
    rw [h]
    exact List.take_left
  have hdrop : text.toList.drop (kind.tag.toList ++ ['-']).length = rest := by
    rw [h]
    exact List.drop_left
  simp only [idPattern, htake, hdrop, hall]
  simpa using hne

theorem toList_scopedId (serverId localId : String) :
    (scopedId kind serverId localId).toList = kind.tag.toList ++ ['-'] ++
      (serverId.toList ++ ['-', '-'] ++ localId.toList.drop (kind.tag.length + 1)) := by
  simp [scopedId, String.toList_append]

theorem ServerId.chars (server : ServerId) : server.text.toList.all idChar = true := by
  have h := server.matched
  simp only [serverIdPattern, Bool.and_eq_true] at h
  exact h.2

/-- A scoped id is an id: the decoding of `publicSessionId` and its like never fails. -/
def EntityId.scoped (server : ServerId) (id : EntityId kind) : EntityId kind where
  text := scopedId kind server.text id.text
  matched := by
    apply idPattern_of_rest (toList_scopedId _ _)
    · simp
    · have hrest := id.toList_text.2.2
      rw [List.all_append, List.all_append, Bool.and_eq_true, Bool.and_eq_true]
      exact ⟨⟨server.chars, by decide⟩, hrest⟩

theorem EntityId.ext_rest {id id' : EntityId kind} (h : id.rest = id'.rest) : id = id' := by
  have htext : id.text = id'.text := by
    apply String.toList_injective
    rw [id.toList_text.1, id'.toList_text.1, h]
  cases id
  cases id'
  subst htext
  rfl

theorem ServerId.ext_toList {server server' : ServerId}
    (h : server.text.toList = server'.text.toList) : server = server' := by
  have htext : server.text = server'.text := String.toList_injective h
  cases server
  cases server'
  subst htext
  rfl

theorem EntityId.scoped_eq_iff {server server' : ServerId} {id id' : EntityId kind} :
    id.scoped server = id'.scoped server' ↔
      server.text.toList ++ ['-', '-'] ++ id.rest = server'.text.toList ++ ['-', '-'] ++ id'.rest := by
  constructor
  · intro h
    have htext := congrArg (fun id => String.toList (EntityId.text id)) h
    simp only [EntityId.scoped, toList_scopedId] at htext
    exact List.append_cancel_left htext
  · intro h
    have htext : scopedId kind server.text id.text = scopedId kind server'.text id'.text := by
      apply String.toList_injective
      rw [toList_scopedId, toList_scopedId]
      exact congrArg _ h
    simp only [EntityId.scoped, htext]

/-- An id of the session kind with the given rest. -/
def EntityId.ofRest (rest : List Char) (hne : rest ≠ []) (hall : rest.all idChar = true) :
    EntityId .session where
  text := "ses-" ++ String.ofList rest
  matched := by
    refine idPattern_of_rest ?_ hne hall
    simp [EntityKind.tag, String.toList_append]

theorem EntityId.rest_ofRest {rest : List Char} (hne : rest ≠ []) (hall : rest.all idChar = true) :
    (EntityId.ofRest rest hne hall).rest = rest := by
  have htext : (EntityId.ofRest rest hne hall).text.toList = 's' :: 'e' :: 's' :: '-' :: rest := by
    simp [EntityId.ofRest, String.toList_append]
  rw [EntityId.rest, htext]
  rfl

/-- Where the id of a server overlaps another's, two sessions get the same scoped id. -/
theorem scoped_collision {server server' : ServerId}
    (h : Overlaps ['-', '-'] server.text.toList server'.text.toList) :
    server ≠ server' ∧ ∃ id id' : EntityId .session, id.scoped server = id'.scoped server' := by
  obtain ⟨more, rest, hmore, hsep, hne, hjoin⟩ := h.join
  refine ⟨fun he => hne (congrArg (fun server => server.text.toList) he), ?_⟩
  have hall : (rest ++ ['x']).all idChar = true := by
    have hchars := server'.chars
    rw [hmore, List.all_append, Bool.and_eq_true] at hchars
    have hrest : (more ++ ['-', '-']).all idChar = true := by
      rw [List.all_append, hchars.2]
      decide
    rw [hsep, List.all_append, Bool.and_eq_true] at hrest
    rw [List.all_append, hrest.2]
    decide
  refine ⟨.ofRest (rest ++ ['x']) (by simp) hall, .ofRest ['x'] (by simp) (by decide), ?_⟩
  rw [EntityId.scoped_eq_iff, EntityId.rest_ofRest, EntityId.rest_ofRest]
  exact hjoin ['x']

/-- The scoped ids of two servers can be told apart from each other exactly if neither server's id
is the other's followed by a dash or by more that begins with two dashes. -/
theorem scoped_injective_iff (server server' : ServerId) :
    (∀ (kind : EntityKind) (id id' : EntityId kind), id.scoped server = id'.scoped server' →
        server = server' ∧ id = id') ↔
      ¬ Overlaps ['-', '-'] server.text.toList server'.text.toList ∧
        ¬ Overlaps ['-', '-'] server'.text.toList server.text.toList := by
  constructor
  · intro hinj
    constructor
    · intro hov
      obtain ⟨hne, id, id', heq⟩ := scoped_collision hov
      exact hne (hinj .session id id' heq).1
    · intro hov
      obtain ⟨hne, id, id', heq⟩ := scoped_collision hov
      exact hne (hinj .session id' id heq.symm).1.symm
  · rintro ⟨hl, hr⟩ kind id id' heq
    rcases parts_of_join (EntityId.scoped_eq_iff.mp heq) with ⟨hs, hi⟩ | hov | hov
    · exact ⟨ServerId.ext_toList hs, EntityId.ext_rest hi⟩
    · exact absurd hov hl
    · exact absurd hov hr

end PiDeck.Servers
