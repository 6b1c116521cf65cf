import Mathlib
import PiDeck.Display.GlyphAtlas

/-! What the texture of the atlas holds over any run of calls: the uploads since it was allocated stand
apart and inside it, and each entry shows the glyph of its key. The size of the texture only
grows, so a canvas that fitted once fits ever after. -/
namespace PiDeck.Display
open PiDeck.Collections

namespace WebGlGlyphAtlas
variable {numerals : Numerals} {pictographic : Char → Bool} {atlas : WebGlGlyphAtlas}
  {known : GlyphRequest → Prop} {request : GlyphRequest} {width height : ℕ} {canvas : GlyphScratchCanvas}

/-- The entry of a key stands for an upload that is in the texture. -/
def Backed (numerals : Numerals) (pictographic : Char → Bool) (atlas : WebGlGlyphAtlas)
    (key : List Char) (entry : WebGlGlyphAtlasEntry) : Prop :=
  ∃ rect upload, (rect, upload) ∈ atlas.texture ∧ upload.request.key numerals pictographic = key ∧
    upload.request.atlasWidth ≤ rect.width ∧ upload.request.atlasHeight ≤ rect.height ∧
      entry = entryAt pictographic atlas.size rect.x rect.y upload.request

variable (numerals pictographic known) in
structure Kept (atlas : WebGlGlyphAtlas) : Prop where
  size_pos : 0 < atlas.size
  size_le : atlas.size ≤ atlas.maximumSize
  scratch : ∀ entry ∈ atlas.scratch.entries,
    entry.2.width ≤ atlas.size ∧ entry.2.height ≤ atlas.size
  packed : Packed atlas.size atlas.shelf (atlas.texture.map Prod.fst)
  current : ∀ painting ∈ atlas.texture,
    painting.2.generation = atlas.generation ∧ known painting.2.request
  backed : ∀ entry ∈ atlas.entries.entries, atlas.Backed numerals pictographic entry.1 entry.2

namespace Kept

theorem start (maximumSize textureLimit : ℕ) :
    Kept numerals pictographic known (start maximumSize textureLimit) := by
  refine ⟨?_, min_le_right _ _, by simp [WebGlGlyphAtlas.start, IndexMap.empty], Packed.nil,
    by simp [WebGlGlyphAtlas.start], by simp [WebGlGlyphAtlas.start, IndexMap.empty]⟩
  exact lt_min (by decide) (lt_max_of_lt_left one_pos)

theorem clear (h : atlas.Kept numerals pictographic known) : atlas.clear.Kept numerals pictographic known :=
  ⟨h.size_pos, h.size_le, h.scratch, Packed.nil, by simp [WebGlGlyphAtlas.clear],
    by simp [WebGlGlyphAtlas.clear, IndexMap.empty]⟩

theorem trimScratch (h : atlas.Kept numerals pictographic known) :
    atlas.trimScratch.Kept numerals pictographic known :=
  ⟨h.size_pos, h.size_le, by simp [WebGlGlyphAtlas.trimScratch, IndexMap.empty], h.packed, h.current,
    h.backed⟩

end Kept

theorem size_resetForPressure (h : atlas.size ≤ atlas.maximumSize) :
    atlas.size ≤ atlas.resetForPressure.size :=
  le_min h (Nat.le_mul_of_pos_right _ two_pos)

theorem Kept.resetForPressure (h : atlas.Kept numerals pictographic known) :
    atlas.resetForPressure.Kept numerals pictographic known := by
  have hgrows := size_resetForPressure h.size_le
  refine ⟨h.size_pos.trans_le hgrows, min_le_left _ _, ?_, Packed.nil,
    by simp [WebGlGlyphAtlas.resetForPressure, WebGlGlyphAtlas.clear],
    by simp [WebGlGlyphAtlas.resetForPressure, WebGlGlyphAtlas.clear, IndexMap.empty]⟩
  intro entry hentry
  exact ⟨(h.scratch entry hentry).1.trans hgrows, (h.scratch entry hentry).2.trans hgrows⟩

/-! ### The loop for room -/

/-- A reset that is needed enlarges the texture: it is smaller than its maximum, and not empty. -/
theorem size_lt_resetForPressure (hpos : 0 < atlas.size) (hless : atlas.size < atlas.maximumSize) :
    atlas.size < atlas.resetForPressure.size :=
  lt_min hless (by omega)

/-- The loop ends: every turn of it brings the texture nearer to its maximum. -/
theorem makeRoom_isSome (hwidth : width ≤ atlas.maximumSize) (hheight : height ≤ atlas.maximumSize)
    {fuel : ℕ} (hfuel : atlas.maximumSize - atlas.size < fuel) (hpos : 0 < atlas.size) :
    (makeRoom width height fuel atlas).isSome = true := by
  induction fuel generalizing atlas with
  | zero => omega
  | succ fuel ih =>
    rw [makeRoom]
    split
    · rename_i hsmall
      have hless : atlas.size < atlas.maximumSize := by omega
      have hgrows := size_lt_resetForPressure hpos hless
      have hmaximum : atlas.resetForPressure.maximumSize = atlas.maximumSize := rfl
      exact ih (hmaximum ▸ hwidth) (hmaximum ▸ hheight) (by omega) (by omega)
    · rfl

/-- What the loop leaves is kept, of the same maximum, and has the room. -/
theorem makeRoom_facts {fuel : ℕ} {roomy : WebGlGlyphAtlas} (h : atlas.Kept numerals pictographic known)
    (hroom : makeRoom width height fuel atlas = some roomy) :
    roomy.Kept numerals pictographic known ∧ width ≤ roomy.size ∧ height ≤ roomy.size := by
  induction fuel generalizing atlas with
  | zero => cases hroom
  | succ fuel ih =>
    rw [makeRoom] at hroom
    split at hroom
    · exact ih h.resetForPressure hroom
    · obtain rfl := Option.some.inj hroom
      exact ⟨h, by omega, by omega⟩

/-! ### The canvas -/

theorem Kept.withScratch (h : atlas.Kept numerals pictographic known) (hwidth : canvas.width ≤ atlas.size)
    (hheight : canvas.height ≤ atlas.size) (bucket : ℕ) :
    { atlas with scratch := atlas.scratch.insert bucket canvas }.Kept numerals pictographic known := by
  refine ⟨h.size_pos, h.size_le, ?_, h.packed, h.current, h.backed⟩
  intro entry hentry
  obtain hentry | rfl := IndexMap.mem_of_mem_insert hentry
  · exact h.scratch entry hentry
  · exact ⟨hwidth, hheight⟩

/-- A canvas holds the glyph and fits into the texture. -/
structure Suits (atlas : WebGlGlyphAtlas) (width height : ℕ) (canvas : GlyphScratchCanvas) :
    Prop where
  width_le : width ≤ canvas.width
  height_le : height ≤ canvas.height
  fits_width : canvas.width ≤ atlas.size
  fits_height : canvas.height ≤ atlas.size

theorem scratchFor_facts (h : atlas.Kept numerals pictographic known) (hwidth : width ≤ atlas.size)
    (hheight : height ≤ atlas.size) (context : Bool) :
    (atlas.scratchFor width height context).1.Kept numerals pictographic known ∧
      ∀ canvas, (atlas.scratchFor width height context).2 = some canvas →
        (atlas.scratchFor width height context).1.Suits width height canvas := by
  have hcached (cached : GlyphScratchCanvas)
      (hget : atlas.scratch.get? (bucket width) = some cached) :
      cached.width ≤ atlas.size ∧ cached.height ≤ atlas.size :=
    h.scratch _ (IndexMap.get?_eq_some.mp hget)
  have hgrown_width : max width
      (((atlas.scratch.get? (bucket width)).map GlyphScratchCanvas.width).getD 0) ≤ atlas.size := by
    refine max_le hwidth ?_
    cases hget : atlas.scratch.get? (bucket width) with
    | none => exact Nat.zero_le _
    | some cached => exact (hcached cached hget).1
  have hgrown_height : max height
      (((atlas.scratch.get? (bucket width)).map GlyphScratchCanvas.height).getD 0) ≤ atlas.size := by
    refine max_le hheight ?_
    cases hget : atlas.scratch.get? (bucket width) with
    | none => exact Nat.zero_le _
    | some cached => exact (hcached cached hget).2
  have hgrown : Kept numerals pictographic known
      { atlas with scratch := atlas.scratch.insert (bucket width) ⟨_, _⟩ } :=
    h.withScratch hgrown_width hgrown_height (bucket width)
  rw [scratchFor]
  split
  · rename_i hany
    refine ⟨h, ?_⟩
    intro canvas hcanvas
    change atlas.scratch.get? (bucket width) = some canvas at hcanvas
    rw [hcanvas, Option.any_some, Bool.and_eq_true, decide_eq_true_iff, decide_eq_true_iff] at hany
    exact ⟨hany.1, hany.2, (hcached canvas hcanvas).1, (hcached canvas hcanvas).2⟩
  · cases context
    · refine ⟨?_, fun canvas hcanvas => by cases hcanvas⟩
      simp only [Bool.false_eq_true, if_false]
      split
      · exact hgrown
      · exact h
    · refine ⟨hgrown, ?_⟩
      intro canvas hcanvas
      obtain rfl := Option.some.inj hcanvas
      exact ⟨le_max_left _ _, le_max_left _ _, hgrown_width, hgrown_height⟩

/-! ### The place -/

/-- The place for a canvas: it is kept, and the canvas fits there. -/
theorem fit_facts (h : atlas.Kept numerals pictographic known) (hcanvas : atlas.Suits width height canvas) :
    (atlas.fit canvas).Kept numerals pictographic known ∧
      (atlas.fit canvas).shelf.x + canvas.width ≤ (atlas.fit canvas).size ∧
        (atlas.fit canvas).shelf.y + canvas.height ≤ (atlas.fit canvas).size := by
  have hnext : { atlas with shelf := atlas.shelf.next }.Kept numerals pictographic known :=
    ⟨h.size_pos, h.size_le, h.scratch, h.packed.next, h.current, h.backed⟩
  have hgrows := size_resetForPressure h.size_le
  have hwidth := hcanvas.fits_width
  have hheight := hcanvas.fits_height
  have hreset {broken : WebGlGlyphAtlas} (hbroken : broken.Kept numerals pictographic known)
      (hsize : broken.size = atlas.size) :
      broken.resetForPressure.Kept numerals pictographic known ∧
        broken.resetForPressure.shelf.x + canvas.width ≤ broken.resetForPressure.size ∧
          broken.resetForPressure.shelf.y + canvas.height ≤ broken.resetForPressure.size := by
    have hbroken_grows := size_resetForPressure hbroken.size_le
    refine ⟨hbroken.resetForPressure, ?_, ?_⟩ <;>
      simp only [resetForPressure, WebGlGlyphAtlas.clear, Shelf.start] at hbroken_grows ⊢ <;> omega
  by_cases hbreak : atlas.size < atlas.shelf.x + canvas.width
  · by_cases hfull : atlas.size < atlas.shelf.next.y + canvas.height
    · simp only [fit, hbreak, hfull, if_true]
      exact hreset hnext rfl
    · simp only [fit, hbreak, hfull, if_true, if_false]
      exact ⟨hnext, by simp [Shelf.next, hwidth], Nat.le_of_not_lt hfull⟩
  · by_cases hfull : atlas.size < atlas.shelf.y + canvas.height
    · simp only [fit, hbreak, hfull, if_true, if_false]
      exact hreset h rfl
    · simp only [fit, hbreak, hfull, if_false]
      exact ⟨h, Nat.le_of_not_lt hbreak, Nat.le_of_not_lt hfull⟩

/-! ### Uploads and calls -/

/-- An entry stays backed while the texture keeps its size and what it holds. -/
theorem Backed.mono {later : WebGlGlyphAtlas} {key : List Char} {entry : WebGlGlyphAtlasEntry}
    (h : atlas.Backed numerals pictographic key entry) (hsize : later.size = atlas.size)
    (htexture : ∀ painting ∈ atlas.texture, painting ∈ later.texture) :
    later.Backed numerals pictographic key entry := by
  obtain ⟨rect, upload, hmem, hkey, hwidth, hheight, hentry⟩ := h
  exact ⟨rect, upload, htexture _ hmem, hkey, hwidth, hheight, hsize ▸ hentry⟩

theorem Kept.upload (h : atlas.Kept numerals pictographic known) (hknown : known request)
    (hcanvas : request.atlasWidth ≤ canvas.width ∧ request.atlasHeight ≤ canvas.height)
    (hx : atlas.shelf.x + canvas.width ≤ atlas.size)
    (hy : atlas.shelf.y + canvas.height ≤ atlas.size) :
    (atlas.upload numerals pictographic canvas request).1.Kept numerals pictographic known := by
  refine ⟨h.size_pos, h.size_le, h.scratch, h.packed.place hx hy, ?_, ?_⟩
  · intro painting hpainting
    obtain rfl | hpainting := List.mem_cons.mp hpainting
    · exact ⟨rfl, hknown⟩
    · exact h.current painting hpainting
  · intro entry hentry
    obtain hentry | rfl := IndexMap.mem_of_mem_insert hentry
    · exact (h.backed entry hentry).mono rfl fun painting => List.mem_cons_of_mem _
    · exact ⟨_, _, List.mem_cons_self, rfl, hcanvas.1, hcanvas.2, rfl⟩

theorem Kept.get (h : atlas.Kept numerals pictographic known) (hknown : known request)
    (context : Bool) :
    (atlas.get numerals pictographic request context).1.Kept numerals pictographic known ∧
      (atlas.get numerals pictographic request context).2 ≠ .unending := by
  simp only [WebGlGlyphAtlas.get]
  cases hcached : atlas.entries.get? (request.key numerals pictographic) with
  | some cached =>
    refine ⟨⟨h.size_pos, h.size_le, h.scratch, h.packed, h.current, ?_⟩, by simp⟩
    intro entry hentry
    obtain hentry | rfl := IndexMap.mem_of_mem_insert hentry
    · exact h.backed entry (List.mem_of_mem_filter hentry)
    · exact h.backed _ (IndexMap.get?_eq_some.mp hcached)
  | none =>
    simp only
    split
    · exact ⟨h, by simp⟩
    · rename_i hfits
      rw [not_or, not_lt, not_lt] at hfits
      have hends := makeRoom_isSome hfits.1 hfits.2
        (show atlas.maximumSize - atlas.size < atlas.maximumSize + 1 by omega) h.size_pos
      obtain ⟨roomy, hroom⟩ := Option.isSome_iff_exists.mp hends
      obtain ⟨hroomy, hwidth, hheight⟩ := makeRoom_facts h hroom
      obtain ⟨hscratched, hcanvas⟩ := scratchFor_facts hroomy hwidth hheight context
      rcases hscratch : roomy.scratchFor request.atlasWidth request.atlasHeight context with
        ⟨scratched, canvas⟩
      rw [hscratch] at hscratched hcanvas
      simp only [hroom, hscratch]
      cases canvas with
      | none => exact ⟨hscratched, by simp⟩
      | some canvas =>
        have hsuits := hcanvas canvas rfl
        obtain ⟨hfit, hx, hy⟩ := fit_facts hscratched hsuits
        exact ⟨hfit.upload hknown ⟨hsuits.width_le, hsuits.height_le⟩ hx hy, by simp⟩

theorem Kept.run (h : atlas.Kept numerals pictographic known) (calls : List Call)
    (hknown : ∀ request ∈ asked calls, known request) :
    (run numerals pictographic atlas calls).Kept numerals pictographic known := by
  induction calls generalizing atlas with
  | nil => exact h
  | cons call calls ih =>
    rw [WebGlGlyphAtlas.run, List.foldl_cons]
    cases call with
    | get request context =>
      have hasked : asked (.get request context :: calls) = request :: asked calls := rfl
      rw [hasked, List.forall_mem_cons] at hknown
      exact ih (h.get hknown.1 context).1 hknown.2
    | clear => exact ih h.clear hknown
    | trimScratch => exact ih h.trimScratch hknown

end WebGlGlyphAtlas

/-! ### Keys -/

section Keys
variable {numerals : Numerals} {pictographic : Char → Bool} {request other : GlyphRequest}

theorem GlyphRequest.key_eq : request.key numerals pictographic =
    request.family ++ nul :: (numerals.numeral request.size ++ nul :: (request.weight ++
      nul :: (request.slope ++ nul :: (numerals.numeral request.pixelRatio ++
        nul :: (numerals.numeral request.cellSpan ++
          nul :: (request.colorMode pictographic ++ nul :: request.text)))))) := by
  simp [GlyphRequest.key, List.intercalate]

/-- The part before the first separator, and the rest. -/
theorem parts_of_separated {α : Type*} {a : α} {left left' right right' : List α} (hleft : a ∉ left)
    (hleft' : a ∉ left') (h : left ++ a :: right = left' ++ a :: right') :
    left = left' ∧ right = right' := by
  induction left generalizing left' with
  | nil =>
    cases left' with
    | nil => exact ⟨rfl, (List.cons_eq_cons.mp h).2⟩
    | cons b left' =>
      obtain rfl := (List.cons_eq_cons.mp h).1
      exact absurd List.mem_cons_self hleft'
  | cons b left ih =>
    cases left' with
    | nil =>
      obtain rfl := (List.cons_eq_cons.mp h).1
      exact absurd List.mem_cons_self hleft
    | cons c left' =>
      obtain ⟨rfl, hrest⟩ := List.cons_eq_cons.mp h
      obtain ⟨rfl, hright⟩ := ih (List.not_mem_of_not_mem_cons hleft)
        (List.not_mem_of_not_mem_cons hleft') hrest
      exact ⟨rfl, hright⟩

/-- But for its metrics, a glyph is told from its key, where no NUL stands in a family. -/
theorem GlyphRequest.eq_of_key (hfamily : nul ∉ request.family) (hother : nul ∉ other.family)
    (hkey : request.key numerals pictographic = other.key numerals pictographic) :
    { request with metrics := other.metrics } = other := by
  have hweight (request : GlyphRequest) : nul ∉ request.weight := by
    rw [GlyphRequest.weight]
    split <;> decide
  have hslope (request : GlyphRequest) : nul ∉ request.slope := by
    rw [GlyphRequest.slope]
    split <;> decide
  have hmode (request : GlyphRequest) : nul ∉ request.colorMode pictographic := by
    rw [GlyphRequest.colorMode]
    split <;> decide
  rw [key_eq, key_eq] at hkey
  obtain ⟨hfamilies, hkey⟩ := parts_of_separated hfamily hother hkey
  obtain ⟨hsizes, hkey⟩ := parts_of_separated (numerals.plain _) (numerals.plain _) hkey
  obtain ⟨hweights, hkey⟩ := parts_of_separated (hweight request) (hweight other) hkey
  obtain ⟨hslopes, hkey⟩ := parts_of_separated (hslope request) (hslope other) hkey
  obtain ⟨hratios, hkey⟩ := parts_of_separated (numerals.plain _) (numerals.plain _) hkey
  obtain ⟨hspans, hkey⟩ := parts_of_separated (numerals.plain _) (numerals.plain _) hkey
  obtain ⟨-, htexts⟩ := parts_of_separated (hmode request) (hmode other) hkey
  have hbold : request.bold = other.bold := by
    revert hweights
    rw [GlyphRequest.weight, GlyphRequest.weight]
    cases request.bold <;> cases other.bold <;> decide
  have hitalic : request.italic = other.italic := by
    revert hslopes
    rw [GlyphRequest.slope, GlyphRequest.slope]
    cases request.italic <;> cases other.italic <;> decide
  have hspan : request.cellSpan = other.cellSpan := by
    exact_mod_cast numerals.injective hspans
  cases request
  cases other
  simp only [GlyphRequest.mk.injEq]
  exact ⟨htexts, hspan, trivial, hfamilies, numerals.injective hsizes, hbold, hitalic,
    numerals.injective hratios⟩

end Keys

/-! ### Any run -/

namespace WebGlGlyphAtlas
variable (numerals : Numerals) (pictographic : Char → Bool)

/-- Inside the rectangle of an entry the texture shows what was drawn in an upload. -/
def Shows (atlas : WebGlGlyphAtlas) (entry : WebGlGlyphAtlasEntry) (upload : Upload) : Prop :=
  ∃ x y, entry = entryAt pictographic atlas.size x y upload.request ∧
    ∀ dx < upload.request.width, ∀ dy < upload.request.height,
      seen atlas.texture (x + padding + dx) (y + padding + dy) =
        some (upload, padding + dx, padding + dy)

/-- What may be relied on after calls that asked for some glyphs. -/
structure Sound (atlas : WebGlGlyphAtlas) (asked : List GlyphRequest) : Prop where
  current : ∀ painting ∈ atlas.texture, painting.2.generation = atlas.generation
  inside : ∀ painting ∈ atlas.texture, painting.1.Inside atlas.size
  apart : (atlas.texture.map Prod.fst).Pairwise Rect.Apart
  hit : ∀ request entry, atlas.entries.get? (request.key numerals pictographic) = some entry →
    (∀ context, (atlas.get numerals pictographic request context).2 = .entry entry) ∧
      ∃ upload : Upload, upload.generation = atlas.generation ∧ upload.request ∈ asked ∧
        upload.request.key numerals pictographic = request.key numerals pictographic ∧
          (nul ∉ upload.request.family → nul ∉ request.family →
            { upload.request with metrics := request.metrics } = request) ∧
              atlas.Shows pictographic entry upload
  ends : ∀ request context, (atlas.get numerals pictographic request context).2 ≠ .unending

theorem seen_padded {atlas : WebGlGlyphAtlas} {rect : Rect} {upload : Upload}
    (hapart : (atlas.texture.map Prod.fst).Pairwise Rect.Apart) (hmem : (rect, upload) ∈ atlas.texture)
    (hwidth : upload.request.atlasWidth ≤ rect.width)
    (hheight : upload.request.atlasHeight ≤ rect.height) {dx dy : ℕ}
    (hdx : dx < upload.request.width) (hdy : dy < upload.request.height) :
    seen atlas.texture (rect.x + padding + dx) (rect.y + padding + dy) =
      some (upload, padding + dx, padding + dy) := by
  rw [GlyphRequest.atlasWidth] at hwidth
  rw [GlyphRequest.atlasHeight] at hheight
  rw [seen_of_apart hapart hmem]
  · congr 3 <;> omega
  · refine ⟨⟨?_, ?_⟩, ?_, ?_⟩ <;> omega

/-- Whatever was asked for and cleared, the uploads of the generation stand apart inside the texture,
a hit shows the glyph that was drawn for its key, and room is found or refused. -/
theorem glyphs_apart (maximumSize textureLimit : ℕ) (calls : List Call) :
    (run numerals pictographic (start maximumSize textureLimit) calls).Sound numerals pictographic
      (asked calls) := by
  have hstart : (start maximumSize textureLimit).Kept numerals pictographic (· ∈ asked calls) :=
    Kept.start maximumSize textureLimit
  have hkept := hstart.run calls fun request hrequest => hrequest
  generalize run numerals pictographic (start maximumSize textureLimit) calls = atlas at hkept
  refine ⟨fun painting hpainting => (hkept.current painting hpainting).1, ?_, hkept.packed.apart, ?_, ?_⟩
  · intro painting hpainting
    exact hkept.packed.inside _ (List.mem_map_of_mem hpainting)
  · intro request entry hentry
    refine ⟨fun context => by simp only [WebGlGlyphAtlas.get, hentry], ?_⟩
    obtain ⟨rect, upload, hmem, hkey, hwidth, hheight, rfl⟩ :=
      hkept.backed _ (IndexMap.get?_eq_some.mp hentry)
    obtain ⟨hgeneration, hasked⟩ := hkept.current _ hmem
    refine ⟨upload, hgeneration, hasked, hkey, ?_, rect.x, rect.y, rfl, ?_⟩
    · exact fun hupload hrequest => GlyphRequest.eq_of_key hupload hrequest hkey
    · intro dx hdx dy hdy
      exact seen_padded hkept.packed.apart hmem hwidth hheight hdx hdy
  · intro request context
    have hwide : atlas.Kept numerals pictographic fun _ => True := by
      refine ⟨hkept.size_pos, hkept.size_le, hkept.scratch, hkept.packed, ?_, hkept.backed⟩
      exact fun painting hpainting => ⟨(hkept.current painting hpainting).1, trivial⟩
    exact (hwide.get (show True from trivial) context).2

end WebGlGlyphAtlas

end PiDeck.Display
