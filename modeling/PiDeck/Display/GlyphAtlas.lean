import Mathlib
import PiDeck.Collections.IndexMap
import PiDeck.Collections.Shelves

/-! The atlas of glyphs of a terminal. A glyph is drawn on a canvas of its bucket and the whole canvas
is uploaded to the next place of the texture; when the texture is full it grows to its maximum and
begins anew. -/
namespace PiDeck.Display
open PiDeck.Collections

structure GhosttyCellMetrics where
  width : ℚ
  height : ℚ
  baseline : ℚ
  deriving DecidableEq, Repr

/-- The options of `get`. -/
structure GlyphRequest where
  text : List Char
  cellSpan : ℕ
  metrics : GhosttyCellMetrics
  family : List Char
  size : ℚ
  bold : Bool
  italic : Bool
  pixelRatio : ℚ
  deriving DecidableEq, Repr

def padding : ℕ := 2

def defaultAtlasSize : ℕ := 1024

/-- The side of a texture of `MAX_ATLAS_BYTES`. -/
def maxAtlasSide : ℕ := Nat.sqrt (16 * 1024 * 1024 / 4)

def maxScratchCanvases : ℕ := 4

def nul : Char := Char.ofNat 0

/-- How a number is written in a text: one way for each number, and no NUL in it. -/
structure Numerals where
  numeral : ℚ → List Char
  injective : Function.Injective numeral
  plain : ∀ number, nul ∉ numeral number

/-- Counting strokes is such a way. -/
instance : Nonempty Numerals := by
  refine ⟨⟨fun number => List.replicate (Encodable.encode number) '1', ?_, ?_⟩⟩
  · intro number other h
    exact Encodable.encode_injective (by simpa using congrArg List.length h)
  · intro number h
    exact absurd (List.eq_of_mem_replicate h) (by decide)

/-- `isColorGlyphCluster`: pictographs, flags and keycaps, unless the text presentation is asked for. -/
def isColorGlyphCluster (pictographic : Char → Bool) (text : List Char) : Bool :=
  !text.contains (Char.ofNat 0xFE0E) && text.any fun c =>
    pictographic c || decide (0x1F1E6 ≤ c.toNat ∧ c.toNat ≤ 0x1F1FF) || c == Char.ofNat 0x20E3

namespace GlyphRequest
variable (numerals : Numerals) (pictographic : Char → Bool) (request : GlyphRequest)

def weight : List Char := if request.bold then "700".toList else "400".toList

def slope : List Char := if request.italic then "italic".toList else "normal".toList

def colorMode : List Char :=
  if isColorGlyphCluster pictographic request.text then "color".toList else "mask".toList

def key : List Char :=
  [nul].intercalate [request.family, numerals.numeral request.size, request.weight, request.slope,
    numerals.numeral request.pixelRatio, numerals.numeral request.cellSpan,
    request.colorMode pictographic, request.text]

def width : ℕ := max 1 ⌈request.metrics.width * request.cellSpan * request.pixelRatio⌉.toNat

def height : ℕ := max 1 ⌈request.metrics.height * request.pixelRatio⌉.toNat

def atlasWidth : ℕ := request.width + padding * 2

def atlasHeight : ℕ := request.height + padding * 2

end GlyphRequest

structure WebGlGlyphAtlasEntry where
  u0 : ℚ
  v0 : ℚ
  u1 : ℚ
  v1 : ℚ
  colorGlyph : Bool
  deriving DecidableEq, Repr

structure GlyphScratchCanvas where
  width : ℕ
  height : ℕ
  deriving DecidableEq, Repr

/-- What was drawn and uploaded, and the generation it was uploaded in. -/
structure Upload where
  request : GlyphRequest
  generation : ℕ
  deriving DecidableEq, Repr

structure WebGlGlyphAtlas where
  maximumSize : ℕ
  size : ℕ
  entries : IndexMap (List Char) WebGlGlyphAtlasEntry
  scratch : IndexMap ℕ GlyphScratchCanvas
  /-- `nextX`, `nextY` and `shelfHeight`. -/
  shelf : Shelf
  generation : ℕ
  uploads : ℕ
  resets : ℕ
  /-- What the texture holds since it was allocated, the last upload first. -/
  texture : List (Rect × Upload)

/-- What comes of `get`. The last is no outcome of the code: the loop for room did not end. -/
inductive GlyphOutcome
  | entry (entry : WebGlGlyphAtlasEntry)
  | exceedsAtlas
  | scratchUnavailable
  | unending
  deriving DecidableEq, Repr

namespace WebGlGlyphAtlas

/-- The constructor, with the bound that is asked for and that of the device. -/
def start (maximumSize textureLimit : ℕ) : WebGlGlyphAtlas :=
  let maximum := max 1 (min maximumSize (min textureLimit maxAtlasSide))
  { maximumSize := maximum
    size := min defaultAtlasSize maximum
    entries := .empty
    scratch := .empty
    shelf := .start
    generation := 1
    uploads := 0
    resets := 0
    texture := [] }

variable (atlas : WebGlGlyphAtlas)

/-- The texture is allocated anew and holds nothing. -/
def clear : WebGlGlyphAtlas :=
  { atlas with
    entries := .empty
    shelf := .start
    generation := atlas.generation + 1
    texture := [] }

def resetForPressure : WebGlGlyphAtlas :=
  { atlas with
    resets := atlas.resets + 1
    size := min atlas.maximumSize (atlas.size * 2) }.clear

/-- The loop that makes room for a glyph larger than the texture. -/
def makeRoom (width height : ℕ) : ℕ → WebGlGlyphAtlas → Option WebGlGlyphAtlas
  | 0, _ => none
  | fuel + 1, atlas =>
    if atlas.size < width ∨ atlas.size < height then makeRoom width height fuel atlas.resetForPressure
    else some atlas

def bucket (width : ℕ) : ℕ := min (maxScratchCanvases - 1) (Nat.clog 2 width - 4)

/-- `scratchFor`: the canvas of a bucket grows to the largest glyph that it was asked for. It is the
same object when it is there, so it grows even where no context is to be had. -/
def scratchFor (width height : ℕ) (context : Bool) :
    WebGlGlyphAtlas × Option GlyphScratchCanvas :=
  let cached := atlas.scratch.get? (bucket width)
  if cached.any fun canvas => width ≤ canvas.width && height ≤ canvas.height then (atlas, cached)
  else
    let canvas : GlyphScratchCanvas :=
      ⟨max width ((cached.map GlyphScratchCanvas.width).getD 0),
        max height ((cached.map GlyphScratchCanvas.height).getD 0)⟩
    let grown := { atlas with scratch := atlas.scratch.insert (bucket width) canvas }
    if context then (grown, some canvas) else (if cached.isSome then grown else atlas, none)

/-- Where the canvas goes: on this shelf, on the next one, or in a new texture. -/
def fit (canvas : GlyphScratchCanvas) : WebGlGlyphAtlas :=
  let broken :=
    if atlas.size < atlas.shelf.x + canvas.width then { atlas with shelf := atlas.shelf.next } else atlas
  if broken.size < broken.shelf.y + canvas.height then broken.resetForPressure else broken

/-- The entry of a glyph whose canvas stands at a place of a texture. -/
def entryAt (pictographic : Char → Bool) (size x y : ℕ) (request : GlyphRequest) :
    WebGlGlyphAtlasEntry where
  u0 := (x + padding : ℕ) / size
  v0 := (y + padding : ℕ) / size
  u1 := (x + padding + request.width : ℕ) / size
  v1 := (y + padding + request.height : ℕ) / size
  colorGlyph := isColorGlyphCluster pictographic request.text

section Get
variable (numerals : Numerals) (pictographic : Char → Bool)

/-- The whole canvas is uploaded, and the entry kept under the key. -/
def upload (canvas : GlyphScratchCanvas) (request : GlyphRequest) :
    WebGlGlyphAtlas × WebGlGlyphAtlasEntry :=
  let entry := entryAt pictographic atlas.size atlas.shelf.x atlas.shelf.y request
  ({ atlas with
      texture := (atlas.shelf.rect canvas.width canvas.height, ⟨request, atlas.generation⟩) ::
        atlas.texture
      uploads := atlas.uploads + 1
      entries := atlas.entries.insert (request.key numerals pictographic) entry
      shelf := atlas.shelf.place canvas.width canvas.height }, entry)

def get (request : GlyphRequest) (context : Bool) : WebGlGlyphAtlas × GlyphOutcome :=
  let key := request.key numerals pictographic
  match atlas.entries.get? key with
  | some cached =>
    ({ atlas with entries := (atlas.entries.shiftRemove key).insert key cached }, .entry cached)
  | none =>
    if atlas.maximumSize < request.atlasWidth ∨ atlas.maximumSize < request.atlasHeight then
      (atlas, .exceedsAtlas)
    else
      match makeRoom request.atlasWidth request.atlasHeight (atlas.maximumSize + 1) atlas with
      | none => (atlas, .unending)
      | some roomy =>
        match roomy.scratchFor request.atlasWidth request.atlasHeight context with
        | (scratched, none) => (scratched, .scratchUnavailable)
        | (scratched, some canvas) =>
          let uploaded := (scratched.fit canvas).upload numerals pictographic canvas request
          (uploaded.1, .entry uploaded.2)

def trimScratch : WebGlGlyphAtlas := { atlas with scratch := .empty }

end Get

/-- A call on an atlas. A canvas may be without a context. -/
inductive Call
  | get (request : GlyphRequest) (context : Bool)
  | clear
  | trimScratch

section Runs
variable (numerals : Numerals) (pictographic : Char → Bool)

def call (atlas : WebGlGlyphAtlas) : Call → WebGlGlyphAtlas
  | .get request context => (atlas.get numerals pictographic request context).1
  | .clear => atlas.clear
  | .trimScratch => atlas.trimScratch

def run (atlas : WebGlGlyphAtlas) (calls : List Call) : WebGlGlyphAtlas :=
  calls.foldl (call numerals pictographic) atlas

/-- The glyphs that were asked for. -/
def asked (calls : List Call) : List GlyphRequest :=
  calls.filterMap fun
    | .get request _ => some request
    | _ => none

end Runs

end WebGlGlyphAtlas

end PiDeck.Display
