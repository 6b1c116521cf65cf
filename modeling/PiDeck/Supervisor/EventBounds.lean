import Mathlib
import PiDeck.Supervisor.EventPayloads

/-! Which payloads are as large as what was paid for them. Every value has a tally of the items and
the bytes that it is charged for, and of the bytes that its text has beyond these; a payload that is
not truncated has the size that its tally says. -/
namespace PiDeck.Supervisor.EventPayloads
open PiDeck.Collections

/-- What a value comes to. The `excess` is what is written without being paid for, `deep` are the
values below the last level, and `edges` are the errors on it, whose two texts are one level deeper. -/
@[ext] structure Tally where
  items : ℕ
  charged : ℕ
  excess : ℤ
  deep : ℕ
  edges : ℕ

namespace Tally

instance : Zero Tally := ⟨⟨0, 0, 0, 0, 0⟩⟩

instance : Add Tally := ⟨fun first second => ⟨first.items + second.items,
  first.charged + second.charged, first.excess + second.excess, first.deep + second.deep,
  first.edges + second.edges⟩⟩

variable (first second : Tally)

@[simp] theorem items_zero : (0 : Tally).items = 0 := rfl
@[simp] theorem charged_zero : (0 : Tally).charged = 0 := rfl
@[simp] theorem excess_zero : (0 : Tally).excess = 0 := rfl
@[simp] theorem deep_zero : (0 : Tally).deep = 0 := rfl
@[simp] theorem edges_zero : (0 : Tally).edges = 0 := rfl
@[simp] theorem items_add : (first + second).items = first.items + second.items := rfl
@[simp] theorem charged_add : (first + second).charged = first.charged + second.charged := rfl
@[simp] theorem excess_add : (first + second).excess = first.excess + second.excess := rfl
@[simp] theorem deep_add : (first + second).deep = first.deep + second.deep := rfl
@[simp] theorem edges_add : (first + second).edges = first.edges + second.edges := rfl

/-- One item, with bytes that are paid for and bytes that are not. -/
def piece (charged : ℕ) (excess : ℤ) : Tally := ⟨1, charged, excess, 0, 0⟩

/-- Two brackets, where a container pays for one comma more than it has. -/
def brackets (empty : Bool) : Tally := ⟨0, 0, if empty then 2 else 1, 0, 0⟩

/-- A value in its place. What is paid for but has no place is written nowhere. -/
def placed (shown : Bool) (cost : ℕ) (tally : Tally) : Tally :=
  if shown then { tally with charged := cost + tally.charged }
  else { tally with
    charged := cost + tally.charged
    excess := -(cost + tally.charged : ℕ)
    edges := 0 }

variable (shown : Bool) (cost : ℕ) (tally : Tally)

@[simp] theorem placed_items : (tally.placed shown cost).items = tally.items := by
  cases shown <;> rfl

@[simp] theorem placed_charged : (tally.placed shown cost).charged = cost + tally.charged := by
  cases shown <;> rfl

@[simp] theorem placed_deep : (tally.placed shown cost).deep = tally.deep := by
  cases shown <;> rfl

theorem placed_written : ((tally.placed shown cost).charged + (tally.placed shown cost).excess : ℤ) =
    if shown then cost + (tally.charged + tally.excess) else 0 := by
  cases shown
  · simp [placed]
  · simp [placed, add_assoc]

theorem placed_edges : (tally.placed shown cost).edges = if shown then tally.edges else 0 := by
  cases shown <;> rfl

end Tally

section Tallies
variable {Ref : Type} [DecidableEq Ref] (heap : Ref → Node Ref)

/-- The tallies of a list of values, one after another. -/
def tallyAll {α : Type} (shown : α → Bool) (cost : α → ℕ)
    (tally : α → List Ref → Tally × List Ref) : List α → List Ref → Tally × List Ref
  | [], seen => (0, seen)
  | item :: items, seen =>
    ((tally item seen).1.placed (shown item) (cost item) +
        (tallyAll shown cost tally items (tally item seen).2).1,
      (tallyAll shown cost tally items (tally item seen).2).2)

def hasPlace (entry : Entry Ref) : Bool := decide (entry.1 ≠ protoKey)

/-- A container with what it holds. -/
def container {α : Type} (shown : α → Bool) (items : List α) (inner : Tally × List Ref) :
    Tally × List Ref :=
  (.piece 0 0 + .brackets (items.filter shown).isEmpty + inner.1, inner.2)

/-- The tally of a value above the last level, with `room` levels below. -/
def tallyBelow (room : ℕ) (nested : Value Ref → List Ref → Tally × List Ref) (value : Value Ref)
    (seen : List Ref) : Tally × List Ref :=
  match value with
  | .null => (.piece Json.null.size 0, seen)
  | .bool value => (.piece (Json.bool value).size 0, seen)
  | .string units => (.piece (Json.string units).size 0, seen)
  | .number numeral => (.piece (Json.number numeral).size 0, seen)
  | .notFinite number => (.piece (Json.string number.text).size 0, seen)
  | .bigint value => (.piece (Json.string (units (toString value))).size 0, seen)
  | .undefined | .function | .symbol => (.piece 0 Json.null.size, seen)
  | .object ref =>
    match (heap ref).kind with
    | .date iso => (.piece 0 (Json.string (iso.getD [])).size, seen)
    | .error name message =>
      ({ Tally.piece 0 (sanitizeError name message).size with
          edges := if room = 0 then 1 else 0 }, seen)
    | .array elements =>
      if ref ∈ seen then (.piece 0 circularText.size, seen)
      else container (fun _ => true) elements
        (tallyAll (fun _ => true) (fun _ => 1) nested elements (ref :: seen))
    | .plain =>
      if ref ∈ seen then (.piece 0 circularText.size, seen)
      else container hasPlace (heap ref).entries (tallyAll hasPlace keyCost
        (fun entry => nested entry.2) (heap ref).entries (ref :: seen))

def tally : ℕ → Value Ref → List Ref → Tally × List Ref
  | 0, _, seen => (⟨1, 0, 0, 1, 0⟩, seen)
  | room + 1, value, seen => tallyBelow heap room (tally room) value seen

/-- The tally of an event. -/
def eventTally (limits : Limits) (raw : Value Ref) : Tally :=
  match fields heap raw with
  | none => (tally heap (limits.maxDepth + 1) raw []).1
  | some entries =>
    .brackets ((payloadEntries entries).filter hasPlace).isEmpty +
      (tallyAll hasPlace keyCost (fun entry _ => tally heap (limits.maxDepth + 1) entry.2 [])
        (payloadEntries entries) []).1

end Tallies

/-- There is room for more, or nothing more to come. -/
def Room (used more limit : ℕ) : Prop := more = 0 ∨ used + more ≤ limit

/-- The limits are enough for the value. -/
structure Within (limits : Limits) (items bytes : ℕ) (tally : Tally) : Prop where
  items : Room items tally.items limits.maxItems
  bytes : Room bytes tally.charged limits.maxBytes
  depth : tally.deep = 0

theorem room_add {used first second limit : ℕ} :
    Room used (first + second) limit ↔ Room used first limit ∧ Room (used + first) second limit := by
  unfold Room
  omega

theorem within_add {limits : Limits} {items bytes : ℕ} {first second : Tally} :
    Within limits items bytes (first + second) ↔ Within limits items bytes first ∧
      Within limits (items + first.items) (bytes + first.charged) second := by
  constructor
  · rintro ⟨hitems, hbytes, hdepth⟩
    obtain ⟨hitems, hitems'⟩ := room_add.mp hitems
    obtain ⟨hbytes, hbytes'⟩ := room_add.mp hbytes
    obtain ⟨hdepth, hdepth'⟩ := Nat.add_eq_zero_iff.mp hdepth
    exact ⟨⟨hitems, hbytes, hdepth⟩, ⟨hitems', hbytes', hdepth'⟩⟩
  · rintro ⟨⟨hitems, hbytes, hdepth⟩, ⟨hitems', hbytes', hdepth'⟩⟩
    exact ⟨room_add.mpr ⟨hitems, hitems'⟩, room_add.mpr ⟨hbytes, hbytes'⟩,
      Nat.add_eq_zero_iff.mpr ⟨hdepth, hdepth'⟩⟩

theorem within_zero {limits : Limits} {items bytes : ℕ} : Within limits items bytes 0 :=
  ⟨.inl rfl, .inl rfl, rfl⟩

/-- A place is paid for first. -/
theorem within_placed {limits : Limits} {items bytes cost : ℕ} {shown : Bool} {tally : Tally}
    (hcost : 0 < cost) : Within limits items bytes (tally.placed shown cost) ↔
      bytes + cost ≤ limits.maxBytes ∧ Within limits items (bytes + cost) tally := by
  constructor
  · rintro ⟨hroom, hbytes, hdepth⟩
    rw [Tally.placed_items] at hroom
    rw [Tally.placed_charged, Room] at hbytes
    rw [Tally.placed_deep] at hdepth
    refine ⟨by omega, hroom, ?_, hdepth⟩
    rw [Room]
    omega
  · rintro ⟨hfits, hroom, hbytes, hdepth⟩
    rw [Room] at hbytes
    refine ⟨by rwa [Tally.placed_items], ?_, by rwa [Tally.placed_deep]⟩
    rw [Tally.placed_charged, Room]
    omega

section Following
variable {Ref : Type} {heap : Ref → Node Ref} {limits : Limits} {room : ℕ} {state : State Ref}

/-- The state after something with this tally, where nothing was truncated. -/
def State.after (state : State Ref) (result : Tally × List Ref) : State Ref :=
  ⟨state.items + result.1.items, state.bytes + result.1.charged, none, result.2⟩

/-- A conversion goes by the tally: nothing is truncated if the limits are enough, and the value is
then as large, and as deep, as it says. -/
structure Follows (limits : Limits) (room : ℕ) (state : State Ref) (result : Tally × List Ref)
    (converted : Converted Ref) : Prop where
  truncated : converted.2.truncated = none ↔
    state.truncated = none ∧ Within limits state.items state.bytes result.1
  after : converted.2.truncated = none → converted.2 = state.after result
  size : converted.2.truncated = none →
    (converted.1.size : ℤ) = result.1.charged + result.1.excess
  height : converted.2.truncated = none → (converted.1.height < room ↔ result.1.edges = 0)

/-- The same for a loop. -/
structure FollowsAll {α : Type} (limits : Limits) (room : ℕ) (shown : α → Bool) (cost : α → ℕ)
    (items : List α) (state : State Ref) (result : Tally × List Ref)
    (outcome : List (α × Json) × State Ref) : Prop where
  truncated : outcome.2.truncated = none ↔
    state.truncated = none ∧ Within limits state.items state.bytes result.1
  after : outcome.2.truncated = none → outcome.2 = state.after result
  items : outcome.2.truncated = none → outcome.1.map Prod.fst = items
  size : outcome.2.truncated = none →
    ((((outcome.1.filter (fun piece => shown piece.1)).map
      (fun piece => piece.2.size + cost piece.1)).sum : ℕ) : ℤ) =
        result.1.charged + result.1.excess
  height : outcome.2.truncated = none →
    ((∀ piece ∈ outcome.1, shown piece.1 = true → piece.2.height < room) ↔ result.1.edges = 0)

theorem State.reserve_of_fits (state : State Ref) {bytes : ℕ} (h : state.Fits limits bytes) :
    state.reserve limits bytes = { state with bytes := state.bytes + bytes } := if_pos h

theorem State.reserve_of_not_fits (state : State Ref) {bytes : ℕ} (h : ¬state.Fits limits bytes) :
    state.reserve limits bytes = state.flag .payloadBytes := if_neg h

theorem followsAll_of_truncated {α : Type} {shown : α → Bool} {cost : α → ℕ} {items : List α}
    {result : Tally × List Ref} {outcome : List (α × Json) × State Ref}
    (htruncated : outcome.2.truncated ≠ none)
    (h : state.truncated = none → ¬Within limits state.items state.bytes result.1) :
    FollowsAll limits room shown cost items state result outcome :=
  ⟨iff_of_false htruncated (fun hwithin => h hwithin.1 hwithin.2),
    fun hnone => absurd hnone htruncated, fun hnone => absurd hnone htruncated,
    fun hnone => absurd hnone htruncated, fun hnone => absurd hnone htruncated⟩

/-- One piece that was converted, and the rest of its loop. -/
theorem followsAll_cons {α : Type} {shown : α → Bool} {cost : α → ℕ} {item : α} {items : List α}
    {tally : α → List Ref → Tally × List Ref} {converted : Converted Ref}
    {rest : List (α × Json) × State Ref} (hcost : 0 < cost item)
    (hfits : state.Fits limits (cost item))
    (hfollows : Follows limits room { state with bytes := state.bytes + cost item }
      (tally item state.seen) converted)
    (hnone : converted.2.truncated = none)
    (hrest : FollowsAll limits room shown cost items converted.2
      (tallyAll shown cost tally items converted.2.seen) rest) :
    FollowsAll limits room shown cost (item :: items) state
      (tallyAll shown cost tally (item :: items) state.seen)
      ((item, converted.1) :: rest.1, rest.2) := by
  obtain ⟨hstate, hwithin⟩ := hfollows.truncated.mp hnone
  rw [hfollows.after hnone] at hrest
  refine ⟨?_, ?_, ?_, ?_, ?_⟩
  · rw [hrest.truncated, tallyAll, within_add, within_placed hcost]
    simp only [State.after, Tally.placed_items, Tally.placed_charged, add_assoc] at hwithin ⊢
    exact ⟨fun h => ⟨hstate, ⟨hfits, hwithin⟩, h.2⟩, fun h => ⟨trivial, h.2.2⟩⟩
  · intro hlast
    rw [hrest.after hlast]
    simp only [State.after, tallyAll, Tally.items_add, Tally.charged_add, Tally.placed_items,
      Tally.placed_charged, add_assoc]
  · intro hlast
    rw [List.map_cons, hrest.items hlast]
  · intro hlast
    have hsize := hrest.size hlast
    have hconverted := hfollows.size hnone
    have hplaced := Tally.placed_written (shown item) (cost item) (tally item state.seen).1
    simp only [State.after] at hsize
    rw [List.filter_cons, tallyAll]
    simp only [Tally.charged_add, Tally.excess_add, Nat.cast_add]
    cases hshown : shown item
    · simp only [hshown, Bool.false_eq_true, if_false] at hplaced ⊢
      linarith
    · simp only [hshown, if_true, List.map_cons, List.sum_cons, Nat.cast_add] at hplaced ⊢
      linarith
  · intro hlast
    rw [List.forall_mem_cons, hrest.height hlast, tallyAll]
    simp only [State.after, Tally.edges_add, Tally.placed_edges, Nat.add_eq_zero_iff]
    rw [hfollows.height hnone]
    cases shown item <;> simp

theorem convertAll_follows {α : Type} {stops : Bool} {shown : α → Bool} {cost : α → ℕ}
    {convert : α → State Ref → Option (Converted Ref)}
    {tally : α → List Ref → Tally × List Ref} (hcost : ∀ item, 0 < cost item)
    (hconvert : ∀ item state converted, convert item state = some converted →
      Follows limits room state (tally item state.seen) converted) {items : List α}
    {outcome : List (α × Json) × State Ref}
    (h : convertAll limits stops cost convert items state = some outcome) :
    FollowsAll limits room shown cost items state (tallyAll shown cost tally items state.seen)
      outcome := by
  induction items generalizing state outcome with
  | nil =>
    obtain rfl := Option.some.inj h
    refine ⟨by simp [tallyAll, within_zero], fun hnone => ?_, fun _ => rfl, fun _ => rfl,
      fun _ => by simp [tallyAll]⟩
    cases state
    cases hnone
    rfl
  | cons item items ih =>
    rw [convertAll] at h
    by_cases hfits : state.Fits limits (cost item)
    · rw [if_pos hfits, State.reserve_of_fits _ hfits] at h
      obtain ⟨converted, hitem, h⟩ := Option.bind_eq_some_iff.mp h
      have hfollows := hconvert _ _ _ hitem
      by_cases hnone : converted.2.truncated = none
      · rw [if_neg (by simp [hnone])] at h
        obtain ⟨rest, hrest, rfl⟩ := Option.map_eq_some_iff.mp h
        exact followsAll_cons (hcost item) hfits hfollows hnone (ih hrest)
      · have hover (hstate : state.truncated = none) : ¬Within limits state.items state.bytes
            (tallyAll shown cost tally (item :: items) state.seen).1 := fun hwithin =>
          hnone (hfollows.truncated.mpr
            ⟨hstate, ((within_placed (hcost item)).mp (within_add.mp hwithin).1).2⟩)
        split at h
        · obtain rfl := Option.some.inj h
          exact followsAll_of_truncated hnone hover
        · obtain ⟨rest, hrest, rfl⟩ := Option.map_eq_some_iff.mp h
          exact followsAll_of_truncated (fun hlast => hnone ((ih hrest).truncated.mp hlast).1) hover
    · rw [if_neg hfits, State.reserve_of_not_fits _ hfits] at h
      obtain rfl := Option.some.inj h
      exact followsAll_of_truncated (by simp [State.flag]) fun _ hwithin =>
        hfits ((within_placed (hcost item)).mp (within_add.mp hwithin).1).1

theorem follows_of_truncated {result : Tally × List Ref} {converted : Converted Ref}
    (htruncated : converted.2.truncated ≠ none)
    (h : state.truncated = none → ¬Within limits state.items state.bytes result.1) :
    Follows limits room state result converted :=
  ⟨iff_of_false htruncated (fun hwithin => h hwithin.1 hwithin.2),
    fun hnone => absurd hnone htruncated, fun hnone => absurd hnone htruncated,
    fun hnone => absurd hnone htruncated⟩

/-- A value that is paid for whole. -/
theorem scalar_follows {json : Json} (hitems : state.items < limits.maxItems)
    (hsize : 0 < json.size) (hheight : json.height = 0) :
    Follows limits (room + 1) state (.piece json.size 0, state.seen)
      (scalar limits json { state with items := state.items + 1 }) := by
  by_cases hfits : state.bytes + json.size ≤ limits.maxBytes
  · rw [scalar, State.reserve_of_fits { state with items := state.items + 1 } hfits]
    refine ⟨?_, ?_, ?_, ?_⟩
    · exact (and_iff_left ⟨.inr hitems, .inr hfits, rfl⟩).symm
    · rintro hnone
      simp only [State.after, Tally.piece, State.mk.injEq, true_and, and_true]
      exact hnone
    · intro _
      simp [Tally.piece]
    · intro _
      simp [Tally.piece, hheight]
  · rw [scalar, State.reserve_of_not_fits { state with items := state.items + 1 } hfits]
    have hflag : ({ state with items := state.items + 1 }.flag .payloadBytes).truncated ≠ none := by
      simp [State.flag]
    refine follows_of_truncated hflag ?_
    rintro - ⟨-, hbytes | hbytes, -⟩
    · exact hsize.ne' hbytes
    · exact hfits hbytes

/-- A value that nothing is paid for. -/
theorem unpaid_follows {json : Json} {edges : ℕ} (hitems : state.items < limits.maxItems)
    (hheight : json.height < room ↔ edges = 0) :
    Follows limits room state ({ Tally.piece 0 json.size with edges := edges }, state.seen)
      (json, { state with items := state.items + 1 }) := by
  refine ⟨(and_iff_left ⟨.inr hitems, .inl rfl, rfl⟩).symm, ?_, ?_, fun _ => hheight⟩
  · intro hnone
    simp only [State.after, Tally.piece, State.mk.injEq, true_and, and_true, add_zero]
    exact hnone
  · intro _
    simp [Tally.piece]

theorem sanitizeError_height (name message : List CodeUnit) :
    (sanitizeError name message).height = 1 := by
  simp [sanitizeError, Json.height, Json.entriesHeight]

/-- A container is its brackets and what is written in it. -/
theorem container_follows {α : Type} {shown : α → Bool} {cost : α → ℕ} {items : List α}
    {json : Json} {seen : List Ref} {inner : Tally × List Ref}
    {outcome : List (α × Json) × State Ref} (hitems : state.items < limits.maxItems)
    (hinner : FollowsAll limits room shown cost items
      { state with items := state.items + 1, seen := seen } inner outcome)
    (hsize : json.size = ((outcome.1.filter (fun piece => shown piece.1)).map
        (fun piece => piece.2.size + cost piece.1)).sum +
      if (outcome.1.filter (fun piece => shown piece.1)).isEmpty then 2 else 1)
    (hheight : json.height < room + 1 ↔
      ∀ piece ∈ outcome.1, shown piece.1 = true → piece.2.height < room) :
    Follows limits (room + 1) state (container shown items inner) (json, outcome.2) := by
  refine ⟨?_, ?_, ?_, ?_⟩
  · rw [hinner.truncated, container, within_add]
    simp only [Tally.brackets, Tally.piece, Tally.items_add, Tally.charged_add, add_zero]
    exact and_congr_right fun _ => (and_iff_right ⟨.inr hitems, .inl rfl, rfl⟩).symm
  · intro hnone
    rw [hinner.after hnone]
    simp only [State.after, container, Tally.items_add, Tally.charged_add, Tally.brackets,
      Tally.piece, add_zero, zero_add, add_assoc]
  · intro hnone
    have hwritten := hinner.size hnone
    have hpieces : (outcome.1.filter (fun piece => shown piece.1)).isEmpty =
        (items.filter shown).isEmpty := by
      rw [← hinner.items hnone, List.filter_map, List.isEmpty_map]
      rfl
    rw [hsize, hpieces]
    simp only [container, Tally.piece, Tally.brackets, Tally.charged_add, Tally.excess_add,
      zero_add, Nat.cast_add, hwritten]
    split <;> push_cast <;> ring
  · intro hnone
    rw [hheight, hinner.height hnone]
    simp [container, Tally.piece, Tally.brackets]

theorem assigned_size (results : List (Entry Ref × Json)) :
    (Json.object (assigned results)).size =
      ((results.filter (fun piece => hasPlace piece.1)).map
        (fun piece => piece.2.size + keyCost piece.1)).sum +
      if (results.filter (fun piece => hasPlace piece.1)).isEmpty then 2 else 1 := by
  have hfilter : results.filter (fun result => result.1.1 ≠ protoKey) =
      results.filter (fun piece => hasPlace piece.1) := by
    simp [hasPlace]
  rw [Json.size_object, assigned, hfilter, List.map_map]
  simp only [List.map_eq_nil_iff, List.isEmpty_iff]
  rfl

theorem assigned_height {results : List (Entry Ref × Json)} {bound : ℕ} :
    (Json.object (assigned results)).height < bound + 1 ↔
      ∀ piece ∈ results, hasPlace piece.1 = true → piece.2.height < bound := by
  simp only [Json.height_object_lt, assigned, List.forall_mem_map, List.mem_filter, hasPlace,
    and_imp]

theorem keyCost_pos (entry : Entry Ref) : 0 < keyCost entry := by
  rw [keyCost]
  omega

theorem string_size_pos (units : List CodeUnit) : 0 < (Json.string units).size := by
  have := Json.two_le_quoted units
  rw [Json.size, Json.text]
  omega

section Values
variable [DecidableEq Ref] {nested : Value Ref → State Ref → Option (Converted Ref)}
  {nestedTally : Value Ref → List Ref → Tally × List Ref} {converted : Converted Ref}

omit [DecidableEq Ref] in
theorem array_follows {elements : List (Value Ref)} {seen : List Ref}
    {outcome : List (Value Ref × Json) × State Ref} (hitems : state.items < limits.maxItems)
    (hnested : ∀ value state converted, nested value state = some converted →
      Follows limits room state (nestedTally value state.seen) converted)
    (h : convertAll limits true (fun _ => 1) nested elements
      { state with items := state.items + 1, seen := seen } = some outcome) :
    Follows limits (room + 1) state (container (fun _ => true) elements
        (tallyAll (fun _ => true) (fun _ => 1) nestedTally elements seen))
      (.array (outcome.1.map Prod.snd), outcome.2) := by
  refine container_follows hitems (convertAll_follows (fun _ => Nat.one_pos) hnested h) ?_ ?_
  · rw [Json.size_array, List.map_map, List.filter_true]
    simp [Function.comp_def]
  · simp only [Json.height_array_lt, List.forall_mem_map, true_imp_iff]

omit [DecidableEq Ref] in
theorem record_follows {entries : List (Entry Ref)} {seen : List Ref}
    {outcome : List (Entry Ref × Json) × State Ref} (hitems : state.items < limits.maxItems)
    (hnested : ∀ value state converted, nested value state = some converted →
      Follows limits room state (nestedTally value state.seen) converted)
    (h : convertAll limits true keyCost (fun entry => nested entry.2) entries
      { state with items := state.items + 1, seen := seen } = some outcome) :
    Follows limits (room + 1) state (container hasPlace entries
        (tallyAll hasPlace keyCost (fun entry => nestedTally entry.2) entries seen))
      (.object (assigned outcome.1), outcome.2) := by
  exact container_follows hitems
    (convertAll_follows keyCost_pos (fun entry => hnested entry.2) h) (assigned_size _)
    assigned_height

theorem convertValue_follows {value : Value Ref} (hitems : state.items < limits.maxItems)
    (hnested : ∀ value state converted, nested value state = some converted →
      Follows limits room state (nestedTally value state.seen) converted)
    (h : convertValue heap limits nested value { state with items := state.items + 1 } =
      some converted) :
    Follows limits (room + 1) state (tallyBelow heap room nestedTally value state.seen)
      converted := by
  have hunpaid {json : Json} (hheight : json.height = 0) :
      Follows limits (room + 1) state (.piece 0 json.size, state.seen)
        (json, { state with items := state.items + 1 }) :=
    unpaid_follows hitems (by simp [hheight])
  cases value with
  | null =>
    obtain rfl := Option.some.inj h
    exact scalar_follows hitems (by decide) rfl
  | bool value =>
    obtain rfl := Option.some.inj h
    exact scalar_follows hitems (by cases value <;> decide) rfl
  | string units =>
    have hscalar : Follows limits (room + 1) state _ _ :=
      scalar_follows hitems (string_size_pos units) rfl
    rw [convertValue] at h
    split at h
    · obtain rfl := Option.some.inj h
      exact hscalar
    · -- The text that stands for it has the same state.
      obtain rfl := Option.some.inj h
      rename_i hfits
      have hflag : (scalar limits (.string units)
          { state with items := state.items + 1 }).2.truncated ≠ none := by
        rw [scalar, State.reserve_of_not_fits _ hfits]
        simp [State.flag]
      exact follows_of_truncated hflag fun hstate hwithin =>
        hflag (hscalar.truncated.mpr ⟨hstate, hwithin⟩)
  | number numeral =>
    obtain rfl := Option.some.inj h
    exact scalar_follows hitems (Json.byteLength_pos numeral.nonempty) rfl
  | notFinite number =>
    obtain rfl := Option.some.inj h
    exact scalar_follows hitems (string_size_pos _) rfl
  | bigint value =>
    obtain rfl := Option.some.inj h
    exact scalar_follows hitems (string_size_pos _) rfl
  | undefined | function | symbol =>
    obtain rfl := Option.some.inj h
    exact hunpaid rfl
  | object ref =>
    rw [convertValue] at h
    rw [tallyBelow]
    cases hkind : (heap ref).kind with
    | date iso =>
      simp only [hkind] at h ⊢
      obtain ⟨text, rfl, rfl⟩ := Option.map_eq_some_iff.mp h
      exact hunpaid rfl
    | error name message =>
      simp only [hkind] at h ⊢
      obtain rfl := Option.some.inj h
      apply unpaid_follows hitems
      rw [sanitizeError_height]
      split <;> omega
    | array elements =>
      simp only [hkind] at h ⊢
      by_cases hseen : ref ∈ state.seen
      · rw [if_pos hseen] at h ⊢
        obtain rfl := Option.some.inj h
        exact hunpaid rfl
      · rw [if_neg hseen] at h ⊢
        obtain ⟨outcome, houtcome, rfl⟩ := Option.map_eq_some_iff.mp h
        exact array_follows hitems hnested houtcome
    | plain =>
      simp only [hkind] at h ⊢
      by_cases hseen : ref ∈ state.seen
      · rw [if_pos hseen] at h ⊢
        obtain rfl := Option.some.inj h
        exact hunpaid rfl
      · rw [if_neg hseen] at h ⊢
        obtain ⟨outcome, houtcome, rfl⟩ := Option.map_eq_some_iff.mp h
        exact record_follows hitems hnested houtcome

theorem tallyBelow_items_pos {value : Value Ref} {seen : List Ref} :
    0 < (tallyBelow heap room nestedTally value seen).1.items := by
  have hcontainer {α : Type} (shown : α → Bool) (items : List α) (inner : Tally × List Ref) :
      0 < (container shown items inner).1.items := by
    simp [container, Tally.piece, Tally.brackets]
  cases value with
  | object ref =>
    rw [tallyBelow]
    cases (heap ref).kind with
    | date iso => exact Nat.one_pos
    | error name message => exact Nat.one_pos
    | array elements =>
      simp only
      split
      · exact Nat.one_pos
      · exact hcontainer _ _ _
    | plain =>
      simp only
      split
      · exact Nat.one_pos
      · exact hcontainer _ _ _
  | _ => exact Nat.one_pos

theorem toJsonValue_follows {value : Value Ref}
    (h : toJsonValue heap limits room value state = some converted) :
    Follows limits room state (tally heap room value state.seen) converted := by
  induction room generalizing value state converted with
  | zero =>
    have hflag (s : State Ref) (reason : Truncation) : (s.flag reason).truncated ≠ none := by
      simp [State.flag]
    rw [toJsonValue] at h
    have hnone : converted.2.truncated ≠ none := by
      split at h <;> obtain rfl := Option.some.inj h <;> exact hflag _ _
    exact follows_of_truncated hnone fun _ hwithin => Nat.one_ne_zero hwithin.depth
  | succ room ih =>
    rw [toJsonValue] at h
    by_cases hitems : limits.maxItems ≤ state.items
    · rw [if_pos hitems] at h
      obtain rfl := Option.some.inj h
      refine follows_of_truncated (by simp [State.flag]) ?_
      rintro - ⟨hnone | hroom, -, -⟩
      · exact tallyBelow_items_pos.ne' hnone
      · have : 0 < (tallyBelow heap room (tally heap room) value state.seen).1.items :=
          tallyBelow_items_pos
        rw [tally] at hroom
        omega
    · rw [if_neg hitems] at h
      exact convertValue_follows (Nat.lt_of_not_le hitems) (fun _ _ _ => ih) h

/-- Every field has objects seen of its own. -/
theorem toField_follows {entry : Entry Ref} (h : toField heap limits entry state = some converted) :
    Follows limits (limits.maxDepth + 1) state
      (tally heap (limits.maxDepth + 1) entry.2 []) converted := by
  have hfollows := toJsonValue_follows h
  exact ⟨hfollows.truncated, hfollows.after, hfollows.size, hfollows.height⟩

end Values

end Following

section Events
variable {Ref : Type} [DecidableEq Ref] {heap : Ref → Node Ref} {limits : Limits} {raw : Value Ref}

/-- The levels of a payload. The value of a field is on the first one. -/
def levels (heap : Ref → Node Ref) (limits : Limits) (raw : Value Ref) : ℕ :=
  limits.maxDepth + if (fields heap raw).isSome then 1 else 0

/-- It returns, and a payload that is not truncated keeps the limits and is no larger than what was
counted for it. -/
def Bounded (heap : Ref → Node Ref) (limits : Limits) (raw : Value Ref) : Prop :=
  ∃ event, normalizeSessionEvent heap limits raw = some event ∧
    (event.truncated = none → event.payload.size ≤ limits.maxBytes ∧
      event.payload.height ≤ levels heap limits raw ∧ event.payload.size ≤ event.encodedBytes)

/-- What is written without being paid for stays within the two bytes that are counted at the start,
and no error stands on the last level. -/
structure PaidFor (limits : Limits) (tally : Tally) : Prop where
  excess : tally.excess ≤ 2
  bytes : 2 ≤ limits.maxBytes
  edges : tally.edges = 0

omit [DecidableEq Ref] in
/-- Something that holds nothing that is paid for has two brackets. -/
theorem loop_pays {α : Type} {shown : α → Bool} {cost : α → ℕ}
    {tally : α → List Ref → Tally × List Ref} (hcost : ∀ item, 0 < cost item) (items : List α)
    (seen : List Ref) : 0 < (tallyAll shown cost tally items seen).1.charged ∨
      2 ≤ (.brackets (items.filter shown).isEmpty + (tallyAll shown cost tally items seen).1).excess
    := by
  cases items with
  | nil => exact .inr (by simp [tallyAll, Tally.brackets])
  | cons item items =>
    have := hcost item
    refine .inl ?_
    rw [tallyAll, Tally.charged_add, Tally.placed_charged]
    omega

theorem tallyBelow_pays {room : ℕ} {nested : Value Ref → List Ref → Tally × List Ref}
    (hfields : fields heap raw = none) :
    0 < (tallyBelow heap room nested raw []).1.charged ∨
      2 ≤ (tallyBelow heap room nested raw []).1.excess := by
  have hnull : Json.null.size = 4 := by decide
  cases raw with
  | object ref =>
    rw [fields] at hfields
    rw [tallyBelow]
    cases hkind : (heap ref).kind with
    | array elements =>
      have hpays : 0 < (tallyAll (fun _ => true) (fun _ => 1) nested elements [ref]).1.charged ∨ _ :=
        loop_pays (fun _ => Nat.one_pos) elements [ref]
      simpa only [List.not_mem_nil, if_false, container, Tally.piece, Tally.charged_add,
        Tally.excess_add, Tally.brackets, zero_add] using hpays
    | date iso => simp [hkind] at hfields
    | error name message => simp [hkind] at hfields
    | plain => simp [hkind] at hfields
  | string units => exact .inl (string_size_pos units)
  | number numeral => exact .inl (Json.byteLength_pos numeral.nonempty)
  | notFinite number => exact .inl (string_size_pos _)
  | bigint value => exact .inl (string_size_pos _)
  | bool value =>
    refine .inl (show 0 < (Json.bool value).size from ?_)
    cases value <;> decide
  | null => exact .inl (show 0 < Json.null.size by omega)
  | undefined | function | symbol => exact .inr (show (2 : ℤ) ≤ Json.null.size by omega)

variable (heap limits raw) in
theorem eventTally_pays :
    0 < (eventTally heap limits raw).charged ∨ 2 ≤ (eventTally heap limits raw).excess := by
  rw [eventTally]
  cases hfields : fields heap raw with
  | some entries =>
    simpa only [Tally.charged_add, Tally.brackets, zero_add] using
      loop_pays keyCost_pos (payloadEntries entries) []
  | none => exact tallyBelow_pays hfields

/-- What an event comes to, by its tally. -/
theorem normalized_follows {event : Event} (h : normalizeSessionEvent heap limits raw = some event) :
    (event.truncated = none ↔ Within limits 0 2 (eventTally heap limits raw)) ∧
      (event.truncated = none →
        (event.payload.size : ℤ) =
          (eventTally heap limits raw).charged + (eventTally heap limits raw).excess ∧
        (event.payload.height ≤ levels heap limits raw ↔
          (eventTally heap limits raw).edges = 0) ∧
        (2 ≤ limits.maxBytes → event.encodedBytes = 2 + (eventTally heap limits raw).charged) ∧
        event.encodedBytes ≤ 2 + (eventTally heap limits raw).charged) := by
  rw [normalizeSessionEvent] at h
  rw [eventTally, levels]
  cases hfields : fields heap raw with
  | none =>
    rw [hfields] at h
    obtain ⟨converted, hconverted, rfl⟩ := Option.map_eq_some_iff.mp h
    have hfollows := toJsonValue_follows hconverted
    refine ⟨hfollows.truncated.trans (and_iff_right rfl), fun hnone => ?_⟩
    refine ⟨hfollows.size hnone, ?_, fun _ => ?_, ?_⟩
    · exact Nat.lt_succ_iff.symm.trans (hfollows.height hnone)
    · rw [hfollows.after hnone]
      rfl
    · rw [hfollows.after hnone]
      rfl
  | some entries =>
    rw [hfields] at h
    obtain ⟨result, hresult, rfl⟩ := Option.map_eq_some_iff.mp h
    have hfollows : FollowsAll limits (limits.maxDepth + 1) hasPlace keyCost
        (payloadEntries entries) start (tallyAll hasPlace keyCost
          (fun entry _ => tally heap (limits.maxDepth + 1) entry.2 []) (payloadEntries entries) [])
        result := convertAll_follows keyCost_pos (fun _ _ _ => toField_follows) hresult
    have hbrackets : Within limits 0 2
        (.brackets ((payloadEntries entries).filter hasPlace).isEmpty) :=
      ⟨.inl rfl, .inl rfl, rfl⟩
    have htruncated := hfollows.truncated
    simp only
    rw [within_add, and_iff_right hbrackets]
    refine ⟨htruncated.trans (and_iff_right rfl), fun hnone => ?_⟩
    have hbytes : result.2.bytes = 2 + (tallyAll hasPlace keyCost
        (fun entry _ => tally heap (limits.maxDepth + 1) entry.2 []) (payloadEntries entries)
        []).1.charged := by
      rw [hfollows.after hnone]
      rfl
    have hroom := (htruncated.mp hnone).2.bytes
    simp only [Tally.charged_add, Tally.excess_add, Tally.edges_add, Tally.brackets, zero_add]
    refine ⟨?_, ?_, fun hmax => ?_, ?_⟩
    · have hpieces : (result.1.filter (fun piece => hasPlace piece.1)).isEmpty =
          ((payloadEntries entries).filter hasPlace).isEmpty := by
        rw [← hfollows.items hnone, List.filter_map, List.isEmpty_map]
        rfl
      rw [assigned_size, hpieces, Nat.cast_add, hfollows.size hnone]
      split <;> push_cast <;> ring
    · rw [← hfollows.height hnone, ← assigned_height]
      exact Nat.lt_succ_iff.symm
    · rw [hbytes]
      obtain hnothing | hfits := hroom
      · rw [hnothing]
        exact min_eq_left hmax
      · exact min_eq_left hfits
    · rw [hbytes]
      exact min_le_left _ _

/-- An event is bounded exactly if its conversion comes to no date that is not valid and, where the
limits are enough for it, what is written was paid for. -/
theorem bounded_iff : Bounded heap limits raw ↔ ¬EventReaches heap limits raw ∧
    (Within limits 0 2 (eventTally heap limits raw) →
      PaidFor limits (eventTally heap limits raw)) := by
  rw [← normalizeSessionEvent_eq_none]
  cases hevent : normalizeSessionEvent heap limits raw with
  | none => simp [Bounded, hevent]
  | some event =>
    obtain ⟨htruncated, hkept⟩ := normalized_follows hevent
    have hbounded : Bounded heap limits raw ↔ (event.truncated = none →
        event.payload.size ≤ limits.maxBytes ∧
          event.payload.height ≤ levels heap limits raw ∧
          event.payload.size ≤ event.encodedBytes) := by
      simp [Bounded, hevent]
    rw [hbounded, ← htruncated]
    simp only [reduceCtorEq, not_false_eq_true, true_and]
    refine forall_congr' fun hnone => ?_
    obtain ⟨hsize, hheight, hencoded, hencoded_le⟩ := hkept hnone
    have hroom := (htruncated.mp hnone).bytes
    have hcharged := eventTally_pays heap limits raw
    rw [Room] at hroom
    rw [hheight]
    constructor
    · rintro ⟨hmax, hedges, hle⟩
      exact ⟨by omega, by omega, hedges⟩
    · rintro ⟨hexcess, hbytes, hedges⟩
      have := hencoded hbytes
      exact ⟨by omega, hedges, by omega⟩

end Events

section Example

/-- The objects of two small events: one has a date that is not valid, one has two empty arrays. -/
inductive Name
  | dated
  | date
  | paired
  | first
  | second
  deriving DecidableEq

def sample : Name → Node Name
  | .dated => ⟨.plain, [(units "when", .object .date)], by decide⟩
  | .date => ⟨.date none, [], by decide⟩
  | .paired => ⟨.plain, [(units "a", .object .first), (units "b", .object .second)], by decide⟩
  | .first | .second => ⟨.array [], [], by decide⟩

/-- The first event makes it throw; the second is counted as twelve bytes and written as fifteen. -/
theorem sample_not_bounded : ¬Bounded sample ⟨256000, 16, 10000⟩ (.object .dated) ∧
    ¬Bounded sample ⟨14, 16, 10000⟩ (.object .paired) := by
  constructor
  · rintro ⟨event, hevent, -⟩
    cases hevent
  · rintro ⟨event, hevent, hbounded⟩
    have hexpected : normalizeSessionEvent sample ⟨14, 16, 10000⟩ (.object .paired) =
        some ⟨units "unknown", .object [(units "a", .array []), (units "b", .array [])], 12, none⟩ :=
      rfl
    rw [hexpected] at hevent
    obtain rfl := Option.some.inj hevent
    exact absurd (hbounded rfl).1 (by decide)

end Example

end PiDeck.Supervisor.EventPayloads
