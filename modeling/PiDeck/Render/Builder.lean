import Mathlib

/-! The builder of packed updates. It owns three slots; an update that was built has its slot leased
until the lease comes back with the buffers of the update. -/
namespace PiDeck.Render

/-- The buffers of a slot. -/
inductive BufferField
  | dirtyRows
  | rowFlags
  | graphemeOffsets
  | graphemeLengths
  | foregrounds
  | backgrounds
  | styles
  | graphemes
  deriving DecidableEq, Repr

namespace BufferField

instance : Fintype BufferField where
  elems := {dirtyRows, rowFlags, graphemeOffsets, graphemeLengths, foregrounds, backgrounds, styles,
    graphemes}
  complete := by
    intro field
    cases field <;> decide

/-- The bytes of an element. -/
def width : BufferField → ℕ
  | rowFlags | graphemes => 1
  | styles => 2
  | dirtyRows | graphemeOffsets | graphemeLengths | foregrounds | backgrounds => 4

theorem width_pos (field : BufferField) : 0 < field.width := by
  cases field <;> decide

end BufferField

/-- `GhosttyRenderUpdateBuffers`: how long each of the buffers is, in bytes. -/
abbrev Buffers := BufferField → ℕ

/-- `validReturnedBuffers`. -/
def Buffers.Valid (buffers : Buffers) : Prop := ∀ field, 0 < buffers field ∧ field.width ∣ buffers field

instance (buffers : Buffers) : Decidable buffers.Valid := inferInstanceAs (Decidable (∀ _, _))

/-- What is reserved for a frame: its rows, its cells, and the bytes that its graphemes may need. -/
structure FrameSize where
  rows : ℕ
  cells : ℕ
  graphemes : ℕ
  deriving DecidableEq, Repr

/-- The elements that each buffer needs. -/
def FrameSize.required (size : FrameSize) : BufferField → ℕ
  | .dirtyRows | .rowFlags => size.rows
  | .graphemes => size.graphemes
  | .graphemeOffsets | .graphemeLengths | .foregrounds | .backgrounds | .styles => size.cells

/-- `nextCapacity`: the power of two that is reached by doubling from one. -/
def nextCapacity (required : ℕ) : ℕ := 2 ^ Nat.clog 2 required

/-- `ensureU8`, `ensureU16` and `ensureU32`. -/
def ensure (field : BufferField) (bytes required : ℕ) : ℕ :=
  if 0 < bytes ∧ required ≤ bytes / field.width then bytes else field.width * nextCapacity required

def Buffers.ensure (buffers : Buffers) (size : FrameSize) : Buffers := fun field =>
  Render.ensure field (buffers field) (size.required field)

/-- The buffers of a slot that was trimmed to twice its last frame. -/
def FrameSize.trimmed (size : FrameSize) : Buffers := fun field =>
  field.width * nextCapacity (size.required field * 2)

/-- A frame that is built: what is reserved for it, and the bytes that its graphemes came to. -/
structure Frame where
  size : FrameSize
  graphemes : ℕ
  deriving DecidableEq, Repr

structure BuilderSlot where
  inFlight : Bool
  leaseToken : ℕ
  buffers : Buffers
  target : FrameSize
  deriving DecidableEq

def createSlot : BuilderSlot := ⟨false, 0, BufferField.width, ⟨1, 1, 1⟩⟩

/-- `GhosttyRenderUpdateLease`, with the buffers of its update. -/
structure Lease where
  slotId : ℕ
  leaseToken : ℕ
  buffers : Buffers
  deriving DecidableEq

def Lease.key (lease : Lease) : ℕ × ℕ := (lease.slotId, lease.leaseToken)

/-- `GhosttyRenderUpdateBuilder`, and the leases that it has given and taken back so far. -/
structure Builder where
  slots : List BuilderSlot
  leasesBuilt : ℕ
  leasesReclaimed : ℕ
  reclaimRejected : ℕ
  noFreeSlot : ℕ
  built : List (ℕ × ℕ)
  reclaimed : List (ℕ × ℕ)
  deriving DecidableEq

namespace Builder

def create (slotCount : ℕ) : Builder :=
  ⟨List.replicate (max 1 (min 3 slotCount)) createSlot, 0, 0, 0, 0, [], []⟩

variable (builder : Builder)

def hasFreeSlot : Bool := builder.slots.any fun slot => !slot.inFlight

/-- The slot of a lease that is built, whose buffers hold the frame. -/
def lend (slot : BuilderSlot) (frame : Frame) : BuilderSlot where
  inFlight := true
  leaseToken := slot.leaseToken + 1
  buffers := slot.buffers.ensure frame.size
  target := ⟨max 1 frame.size.rows, max 1 frame.size.cells, max 1 frame.graphemes⟩

/-- The first slot that is free is lent. -/
def tryBuild (frame : Frame) : Builder × Option Lease :=
  match builder.slots.findIdx? fun slot => !slot.inFlight with
  | none => ({ builder with noFreeSlot := builder.noFreeSlot + 1 }, none)
  | some slotId =>
    let slot := lend ((builder.slots[slotId]?).getD createSlot) frame
    ({ builder with
        slots := builder.slots.set slotId slot
        leasesBuilt := builder.leasesBuilt + 1
        built := builder.built ++ [(slotId, slot.leaseToken)] },
      some ⟨slotId, slot.leaseToken, slot.buffers⟩)

/-- The lease of a slot is taken back when it is the one that is out. -/
def reclaim (lease : Lease) : Builder × Bool :=
  match builder.slots[lease.slotId]? with
  | none => ({ builder with reclaimRejected := builder.reclaimRejected + 1 }, false)
  | some slot =>
    if slot.inFlight = false ∨ slot.leaseToken ≠ lease.leaseToken ∨ ¬lease.buffers.Valid then
      ({ builder with reclaimRejected := builder.reclaimRejected + 1 }, false)
    else
      ({ builder with
          slots := builder.slots.set lease.slotId
            { slot with inFlight := false, buffers := lease.buffers }
          leasesReclaimed := builder.leasesReclaimed + 1
          reclaimed := builder.reclaimed ++ [lease.key] }, true)

/-- `trimIdle`, where all but the leases speaks for it. -/
def trimIdle (idle : Bool) : Builder :=
  if idle ∧ builder.slots.all fun slot => !slot.inFlight then
    { builder with slots := builder.slots.map fun slot => { slot with buffers := slot.target.trimmed } }
  else builder

/-- The leases that are out. -/
def leased : List (ℕ × ℕ) :=
  builder.slots.zipIdx.filterMap fun entry =>
    if entry.1.inFlight then some (entry.2, entry.1.leaseToken) else none

end Builder

/-! ### What each call keeps -/

theorem nextCapacity_pos (required : ℕ) : 0 < nextCapacity required := Nat.two_pow_pos _

theorem Buffers.Valid.ensure {buffers : Buffers} (h : buffers.Valid) (size : FrameSize) :
    (buffers.ensure size).Valid := by
  intro field
  simp only [Buffers.ensure, Render.ensure]
  split
  · exact h field
  · exact ⟨Nat.mul_pos field.width_pos (nextCapacity_pos _), Nat.dvd_mul_right _ _⟩

theorem FrameSize.trimmed_valid (size : FrameSize) : size.trimmed.Valid := by
  intro field
  exact ⟨Nat.mul_pos field.width_pos (nextCapacity_pos _), Nat.dvd_mul_right _ _⟩

namespace Builder
variable {builder : Builder}

theorem mem_leased {slotId token : ℕ} : (slotId, token) ∈ builder.leased ↔
    ∃ slot, builder.slots[slotId]? = some slot ∧ slot.inFlight = true ∧ slot.leaseToken = token := by
  simp only [leased, List.mem_filterMap]
  constructor
  · rintro ⟨⟨slot, index⟩, hmem, hsome⟩
    have hget := List.mk_mem_zipIdx_iff_getElem?.mp hmem
    split at hsome
    · rename_i hflight
      obtain ⟨rfl, rfl⟩ := Prod.mk.inj (Option.some.inj hsome)
      exact ⟨slot, hget, hflight, rfl⟩
    · cases hsome
  · rintro ⟨slot, hget, hflight, rfl⟩
    exact ⟨(slot, slotId), List.mk_mem_zipIdx_iff_getElem?.mpr hget, by simp [hflight]⟩

theorem hasFreeSlot_iff : builder.hasFreeSlot = true ↔ ∃ slot ∈ builder.slots, slot.inFlight = false := by
  simp [hasFreeSlot]

/-- The lease of one slot. -/
def leaseOf (slotId : ℕ) (slot : BuilderSlot) : List (ℕ × ℕ) :=
  if slot.inFlight then [(slotId, slot.leaseToken)] else []

def leasedOf (slots : List BuilderSlot) : List (ℕ × ℕ) :=
  slots.zipIdx.flatMap fun entry => leaseOf entry.2 entry.1

theorem leased_eq : builder.leased = leasedOf builder.slots := by
  rw [leased, leasedOf]
  induction builder.slots.zipIdx with
  | nil => rfl
  | cons entry rest ih =>
    rw [List.filterMap_cons, List.flatMap_cons, ← ih, leaseOf]
    cases entry.1.inFlight <;> rfl

/-- Setting a slot changes what is out for that slot. -/
theorem leasedOf_set {slots : List BuilderSlot} {slotId : ℕ} (h : slotId < slots.length) :
    ∃ before after, ∀ slot,
      leasedOf (slots.set slotId slot) = before ++ leaseOf slotId slot ++ after := by
  refine ⟨leasedOf (slots.take slotId),
    ((slots.drop (slotId + 1)).zipIdx (slotId + 1)).flatMap fun entry => leaseOf entry.2 entry.1, ?_⟩
  intro slot
  rw [leasedOf, List.set_eq_take_append_cons_drop, if_pos h, List.zipIdx_append,
    List.flatMap_append, List.zipIdx_cons, List.flatMap_cons, List.length_take, Nat.zero_add,
    Nat.min_eq_left h.le, ← List.append_assoc]
  rfl

theorem set_of_getElem? {slots : List BuilderSlot} {slotId : ℕ} {slot : BuilderSlot}
    (h : slots[slotId]? = some slot) : slots.set slotId slot = slots := by
  obtain ⟨hlt, rfl⟩ := List.getElem?_eq_some_iff.mp h
  exact List.set_getElem_self hlt

/-- A slot that is free is lent: its lease is out beside the others. -/
theorem leasedOf_lend {slots : List BuilderSlot} {slotId : ℕ} {old slot : BuilderSlot}
    (h : slots[slotId]? = some old) (hfree : old.inFlight = false) (hout : slot.inFlight = true) :
    (leasedOf (slots.set slotId slot)).Perm ((slotId, slot.leaseToken) :: leasedOf slots) := by
  obtain ⟨before, after, hset⟩ := leasedOf_set (List.getElem?_eq_some_iff.mp h).1
  have hold := hset old
  rw [set_of_getElem? h] at hold
  rw [hset, hold, leaseOf, leaseOf, hfree, hout]
  simp only [if_true, Bool.false_eq_true, if_false, List.append_nil]
  rw [List.append_assoc]
  exact List.perm_middle

/-- A slot that comes back: its lease was out beside the others. -/
theorem leasedOf_reclaim {slots : List BuilderSlot} {slotId : ℕ} {old slot : BuilderSlot}
    (h : slots[slotId]? = some old) (hout : old.inFlight = true) (hfree : slot.inFlight = false) :
    (leasedOf slots).Perm ((slotId, old.leaseToken) :: leasedOf (slots.set slotId slot)) := by
  have hset := List.getElem?_set_self (List.getElem?_eq_some_iff.mp h).1 (a := slot)
  have hlent := leasedOf_lend hset hfree hout
  rwa [List.set_set, set_of_getElem? h] at hlent

/-- Every lease was given once; it is out, or it came back once. -/
structure Kept (builder : Builder) : Prop where
  slots_ne_nil : builder.slots ≠ []
  valid : ∀ slot ∈ builder.slots, slot.buffers.Valid
  tokens : ∀ lease ∈ builder.built, ∃ slot, builder.slots[lease.1]? = some slot ∧
    lease.2 ≤ slot.leaseToken
  nodup : builder.built.Nodup
  perm : builder.built.Perm (builder.reclaimed ++ builder.leased)

theorem Kept.create (slotCount : ℕ) : (create slotCount).Kept := by
  refine ⟨by simp [Builder.create], ?_, by simp [Builder.create], List.nodup_nil, ?_⟩
  · intro slot hslot
    rw [List.eq_of_mem_replicate hslot]
    exact fun field => ⟨field.width_pos, dvd_rfl⟩
  · have hleased : (Builder.create slotCount).leased = [] := by
      rw [List.eq_nil_iff_forall_not_mem]
      rintro ⟨slotId, token⟩ hmem
      obtain ⟨slot, hget, hflight, -⟩ := mem_leased.mp hmem
      rw [List.eq_of_mem_replicate (List.mem_of_getElem? hget)] at hflight
      cases hflight
    rw [hleased]
    exact List.Perm.nil

/-- What comes of building: no slot is free, or the first that is free is lent. -/
theorem tryBuild_cases (builder : Builder) (frame : Frame) :
    builder.hasFreeSlot = false ∧
        builder.tryBuild frame = ({ builder with noFreeSlot := builder.noFreeSlot + 1 }, none) ∨
      ∃ slotId old, builder.slots[slotId]? = some old ∧ old.inFlight = false ∧
        builder.tryBuild frame =
          ({ builder with
              slots := builder.slots.set slotId (lend old frame)
              leasesBuilt := builder.leasesBuilt + 1
              built := builder.built ++ [(slotId, old.leaseToken + 1)] },
            some ⟨slotId, old.leaseToken + 1, old.buffers.ensure frame.size⟩) := by
  rw [tryBuild]
  cases hfind : builder.slots.findIdx? fun slot => !slot.inFlight with
  | none =>
    refine .inl ⟨?_, rfl⟩
    rw [List.findIdx?_eq_none_iff] at hfind
    rw [hasFreeSlot, List.any_eq_false]
    exact fun slot hslot => by simpa using hfind slot hslot
  | some slotId =>
    obtain ⟨hlt, hfree, -⟩ := List.findIdx?_eq_some_iff_getElem.mp hfind
    have hget : builder.slots[slotId]? = some builder.slots[slotId] := List.getElem?_eq_getElem hlt
    refine .inr ⟨slotId, builder.slots[slotId], hget, by simpa using hfree, ?_⟩
    simp only [hget, Option.getD_some, lend]

theorem Kept.tryBuild (h : builder.Kept) (frame : Frame) : (builder.tryBuild frame).1.Kept := by
  obtain ⟨-, hnone⟩ | ⟨slotId, old, hget, hfree, hsome⟩ := tryBuild_cases builder frame
  · rw [hnone]
    exact ⟨h.slots_ne_nil, h.valid, h.tokens, h.nodup, h.perm⟩
  · rw [hsome]
    have hold := List.mem_of_getElem? hget
    have hlt := (List.getElem?_eq_some_iff.mp hget).1
    refine ⟨by simpa using h.slots_ne_nil, ?_, ?_, ?_, ?_⟩
    · intro slot hslot
      obtain hslot | rfl := List.mem_or_eq_of_mem_set hslot
      · exact h.valid slot hslot
      · exact (h.valid old hold).ensure frame.size
    · intro lease hlease
      obtain hlease | hlease := List.mem_append.mp hlease
      · obtain ⟨slot, hslot, hle⟩ := h.tokens lease hlease
        by_cases heq : slotId = lease.1
        · subst heq
          obtain rfl := Option.some.inj (hget.symm.trans hslot)
          exact ⟨lend old frame, List.getElem?_set_self hlt, hle.trans (Nat.le_succ _)⟩
        · exact ⟨slot, by rw [List.getElem?_set_ne heq, hslot], hle⟩
      · obtain rfl := List.mem_singleton.mp hlease
        exact ⟨lend old frame, List.getElem?_set_self hlt, le_rfl⟩
    · rw [List.nodup_append]
      refine ⟨h.nodup, List.nodup_singleton _, ?_⟩
      rintro lease hlease other hother rfl
      obtain rfl := List.mem_singleton.mp hother
      obtain ⟨slot, hslot, hle⟩ := h.tokens _ hlease
      obtain rfl := Option.some.inj (hget.symm.trans hslot)
      exact absurd hle (Nat.not_succ_le_self _)
    · have hlent := leasedOf_lend hget hfree (show (lend old frame).inFlight = true from rfl)
      rw [leased_eq]
      refine ((h.perm.append_right _).trans ?_)
      rw [List.append_assoc, leased_eq]
      exact (List.Perm.append_left _ (List.perm_append_comm.trans hlent.symm))

theorem reclaim_cases (builder : Builder) (lease : Lease) :
    (lease.key ∉ builder.leased ∨ ¬lease.buffers.Valid) ∧
        builder.reclaim lease =
          ({ builder with reclaimRejected := builder.reclaimRejected + 1 }, false) ∨
      ∃ slot, builder.slots[lease.slotId]? = some slot ∧ slot.inFlight = true ∧
        slot.leaseToken = lease.leaseToken ∧ lease.buffers.Valid ∧
          builder.reclaim lease =
            ({ builder with
                slots := builder.slots.set lease.slotId
                  { slot with inFlight := false, buffers := lease.buffers }
                leasesReclaimed := builder.leasesReclaimed + 1
                reclaimed := builder.reclaimed ++ [lease.key] }, true) := by
  rw [reclaim]
  cases hget : builder.slots[lease.slotId]? with
  | none =>
    refine .inl ⟨.inl ?_, rfl⟩
    intro hmem
    obtain ⟨slot, hslot, -⟩ := mem_leased.mp hmem
    rw [hget] at hslot
    cases hslot
  | some slot =>
    by_cases hrefused : slot.inFlight = false ∨ slot.leaseToken ≠ lease.leaseToken ∨
        ¬lease.buffers.Valid
    · refine .inl ⟨?_, if_pos hrefused⟩
      by_cases hvalid : lease.buffers.Valid
      · refine .inl ?_
        intro hmem
        obtain ⟨other, hother, hflight, htoken⟩ := mem_leased.mp hmem
        obtain rfl := Option.some.inj (hget.symm.trans hother)
        obtain hfree | hother | hinvalid := hrefused
        · rw [hfree] at hflight
          cases hflight
        · exact hother htoken
        · exact hinvalid hvalid
      · exact .inr hvalid
    · have haccepted := hrefused
      rw [not_or, not_or, Bool.not_eq_false, not_not, not_not] at haccepted
      exact .inr ⟨slot, rfl, haccepted.1, haccepted.2.1, haccepted.2.2, if_neg hrefused⟩

theorem Kept.reclaim (h : builder.Kept) (lease : Lease) : (builder.reclaim lease).1.Kept := by
  obtain ⟨-, hrefused⟩ | ⟨slot, hget, hflight, htoken, hvalid, haccepted⟩ :=
    reclaim_cases builder lease
  · rw [hrefused]
    exact ⟨h.slots_ne_nil, h.valid, h.tokens, h.nodup, h.perm⟩
  · rw [haccepted]
    have hlt := (List.getElem?_eq_some_iff.mp hget).1
    refine ⟨by simpa using h.slots_ne_nil, ?_, ?_, h.nodup, ?_⟩
    · intro other hother
      obtain hother | rfl := List.mem_or_eq_of_mem_set hother
      · exact h.valid other hother
      · exact hvalid
    · intro built hbuilt
      obtain ⟨other, hother, hle⟩ := h.tokens built hbuilt
      by_cases heq : lease.slotId = built.1
      · rw [← heq] at hother ⊢
        obtain rfl := Option.some.inj (hget.symm.trans hother)
        exact ⟨_, List.getElem?_set_self hlt, hle⟩
      · exact ⟨other, by rw [List.getElem?_set_ne heq, hother], hle⟩
    · have hfree : { slot with inFlight := false, buffers := lease.buffers }.inFlight = false := rfl
      have hback := leasedOf_reclaim hget hflight hfree
      rw [leased_eq]
      refine h.perm.trans ?_
      rw [leased_eq, List.append_assoc, List.singleton_append, Lease.key, ← htoken]
      exact List.Perm.append_left _ hback

theorem leased_trimIdle {idle : Bool} : (builder.trimIdle idle).leased = builder.leased := by
  rw [Builder.trimIdle]
  split
  · rw [leased_eq, leased_eq, leasedOf, leasedOf, List.zipIdx_map, List.flatMap_map]
    rfl
  · rfl

theorem Kept.trimIdle (h : builder.Kept) (idle : Bool) : (builder.trimIdle idle).Kept := by
  have hleased := @leased_trimIdle builder idle
  rw [Builder.trimIdle] at hleased ⊢
  split
  · rename_i htrimmed
    rw [if_pos htrimmed] at hleased
    refine ⟨by simpa using h.slots_ne_nil, ?_, ?_, h.nodup, hleased ▸ h.perm⟩
    · intro slot hslot
      obtain ⟨other, -, rfl⟩ := List.mem_map.mp hslot
      exact other.target.trimmed_valid
    · intro lease hlease
      obtain ⟨slot, hslot, hle⟩ := h.tokens lease hlease
      exact ⟨{ slot with buffers := slot.target.trimmed }, by rw [List.getElem?_map, hslot]; rfl, hle⟩
  · exact h

/-- A slot is out for one lease at most. -/
theorem leased_slots_nodup (builder : Builder) : (builder.leased.map Prod.fst).Nodup := by
  have hslots : (builder.leased.map Prod.fst).Sublist (builder.slots.zipIdx.map Prod.snd) := by
    rw [leased]
    induction builder.slots.zipIdx with
    | nil => exact List.Sublist.refl _
    | cons entry rest ih =>
      rw [List.filterMap_cons, List.map_cons]
      cases entry.1.inFlight
      · exact ih.cons _
      · exact ih.cons_cons _
  refine hslots.nodup ?_
  rw [List.zipIdx_map_snd]
  exact List.nodup_range'

/-- A lease that is not out, because it is stale or came back before, is refused. -/
theorem reclaim_refused {lease : Lease} (h : lease.key ∉ builder.leased) : builder.reclaim lease =
    ({ builder with reclaimRejected := builder.reclaimRejected + 1 }, false) := by
  obtain ⟨-, hrefused⟩ | ⟨slot, hget, hflight, htoken, -⟩ := reclaim_cases builder lease
  · exact hrefused
  · exact absurd (mem_leased.mpr ⟨slot, hget, hflight, htoken⟩) h

/-- The calls of a builder. A lease that is reclaimed may be any. -/
inductive Call
  | tryBuild (frame : Frame)
  | reclaim (lease : Lease)
  | trimIdle (idle : Bool)

def apply (builder : Builder) : Call → Builder
  | .tryBuild frame => (builder.tryBuild frame).1
  | .reclaim lease => (builder.reclaim lease).1
  | .trimIdle idle => builder.trimIdle idle

theorem Kept.apply (h : builder.Kept) (call : Call) : (builder.apply call).Kept := by
  cases call with
  | tryBuild frame => exact h.tryBuild frame
  | reclaim lease => exact h.reclaim lease
  | trimIdle idle => exact h.trimIdle idle

/-- The builder after some calls. -/
def after (slotCount : ℕ) (calls : List Call) : Builder := calls.foldl apply (create slotCount)

theorem Kept.foldl (h : builder.Kept) (calls : List Call) : (calls.foldl Builder.apply builder).Kept := by
  induction calls generalizing builder with
  | nil => exact h
  | cons call calls ih => exact ih (h.apply call)

/-- Whatever is called, a slot is lent for one lease at a time, every lease that was given is out or
came back once, and one that is not out is refused. -/
theorem lent_once (slotCount : ℕ) (calls : List Call) :
    ((after slotCount calls).leased.map Prod.fst).Nodup ∧ (after slotCount calls).Kept ∧
      ∀ lease, lease.key ∉ (after slotCount calls).leased → (after slotCount calls).reclaim lease =
        ({ after slotCount calls with
          reclaimRejected := (after slotCount calls).reclaimRejected + 1 }, false) :=
  ⟨leased_slots_nodup _, (Kept.create slotCount).foldl calls, fun _ h => reclaim_refused h⟩

end Builder

end PiDeck.Render
