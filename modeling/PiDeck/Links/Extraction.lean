import Mathlib
import PiDeck.Links.Text

/-! The links of a line: the matches of a pattern with their ends trimmed, URLs first, and of the
paths those that are no URL and do not overlap one. -/
namespace PiDeck.Links
open PiDeck.Collections

inductive LinkKind
  | url
  | path
  deriving DecidableEq, Repr

structure LinkMatch where
  kind : LinkKind
  text : Text
  start : ℕ
  stop : ℕ
  deriving DecidableEq

/-- What a pattern found. -/
structure RawMatch where
  start : ℕ
  raw : Text
  deriving DecidableEq

def slice (line : Text) (start stop : ℕ) : Text := (line.drop start).take (stop - start)

/-- The matches of a pattern in a line, one after another. -/
structure RawMatches (line : Text) where
  found : List RawMatch
  slices : ∀ one ∈ found, slice line one.start (one.start + one.raw.length) = one.raw
  ordered : found.Pairwise (fun one next => one.start + one.raw.length ≤ next.start)

def overlaps (first second : LinkMatch) : Bool :=
  decide (first.start < second.stop ∧ second.start < first.stop)

def lower (unit' : CodeUnit) : CodeUnit :=
  if unit 'A' ≤ unit' ∧ unit' ≤ unit 'Z' then unit' + 32 else unit'

/-- `/^https?:\/\//i`. -/
def isHttp (text : Text) : Bool :=
  ("http://".toList.map unit).isPrefixOf (text.map lower) ||
    ("https://".toList.map unit).isPrefixOf (text.map lower)

def candidate (kind : LinkKind) (one : RawMatch) : LinkMatch :=
  ⟨kind, trimClosingDelimiters one.raw, one.start,
    one.start + (trimClosingDelimiters one.raw).length⟩

/-- Matches that are left out whatever was found before. -/
def skipped (kind : LinkKind) (one : RawMatch) : Bool :=
  one.raw.isEmpty || (trimClosingDelimiters one.raw).isEmpty ||
    (decide (kind = .path) && isHttp (trimClosingDelimiters one.raw))

def collectMatches (kind : LinkKind) (existing : List LinkMatch) :
    List RawMatch → List LinkMatch → List LinkMatch
  | [], matched => matched
  | one :: rest, matched =>
    if skipped kind one ∨ (existing ++ matched).any (overlaps (candidate kind one)) then
      collectMatches kind existing rest matched
    else collectMatches kind existing rest (matched ++ [candidate kind one])

variable {line : Text} (urls paths : RawMatches line)

def urlMatches : List LinkMatch := collectMatches .url [] urls.found []

def extractTerminalLinks : List LinkMatch :=
  (urlMatches urls ++ collectMatches .path (urlMatches urls) paths.found []).mergeSort
    (fun first second => decide (first.start ≤ second.start))

/-- The matcher of the terminal itself, which has no paths. -/
def matchTerminalUrls : List LinkMatch :=
  (urls.found.filter fun one => !one.raw.isEmpty && !(trimClosingDelimiters one.raw).isEmpty).map
    (candidate .url)

/-- Links that are sorted and disjoint, have the text of their place, and are clean. -/
structure Hygienic (line : Text) (links : List LinkMatch) : Prop where
  sorted : links.Pairwise (fun first second => first.start ≤ second.start)
  disjoint : links.Pairwise (fun first second => overlaps first second = false)
  slices : ∀ link ∈ links, link.text = slice line link.start link.stop
  clean : ∀ link ∈ links, Clean link.text

/-- A path that is reported: not empty, no URL, and beside every URL that is reported. -/
def Reported (one : RawMatch) : Prop :=
  skipped .path one = false ∧ ∀ url ∈ urls.found, skipped .url url = false →
    overlaps (candidate .path one) (candidate .url url) = false

/-! ### The links are those of the matches that are not left out -/

/-- Trimmed matches of one pattern never meet each other. -/
theorem collectMatches_eq {kind : LinkKind} {existing matched : List LinkMatch}
    {found : List RawMatch}
    (hordered : found.Pairwise (fun one next => one.start + one.raw.length ≤ next.start))
    (hmatched : ∀ link ∈ matched, ∀ one ∈ found, link.stop ≤ one.start) :
    collectMatches kind existing found matched = matched ++ (found.filter (fun one =>
      !skipped kind one && !existing.any (overlaps (candidate kind one)))).map (candidate kind) := by
  induction found generalizing matched with
  | nil => simp [collectMatches]
  | cons one rest ih =>
    rw [List.pairwise_cons] at hordered
    have hbefore : matched.any (overlaps (candidate kind one)) = false := by
      rw [List.any_eq_false]
      intro link hlink
      have hbefore := hmatched link hlink one List.mem_cons_self
      rw [overlaps, decide_eq_true_eq]
      rintro ⟨hstart, -⟩
      exact absurd hstart (Nat.not_lt_of_le hbefore)
    have hrest : ∀ link ∈ matched, ∀ next ∈ rest, link.stop ≤ next.start :=
      fun link hlink next hnext => hmatched link hlink next (List.mem_cons_of_mem _ hnext)
    rw [collectMatches, List.any_append, hbefore, Bool.or_false, List.filter_cons]
    by_cases hskip : skipped kind one = true ∨ existing.any (overlaps (candidate kind one)) = true
    · have hleft : (!skipped kind one && !existing.any (overlaps (candidate kind one))) = false := by
        obtain hskip | hskip := hskip <;> simp [hskip]
      rw [if_pos hskip, ih hordered.2 hrest, hleft]
      rfl
    · rw [not_or, Bool.not_eq_true, Bool.not_eq_true] at hskip
      rw [if_neg (by simp [hskip]), if_pos (by simp [hskip]), ih hordered.2]
      · simp
      · intro link hlink next hnext
        obtain hlink | hlink := List.mem_append.mp hlink
        · exact hrest link hlink next hnext
        · obtain rfl := List.mem_singleton.mp hlink
          have hnext := hordered.1 next hnext
          have hlength := length_trim_le one.raw
          simp only [candidate]
          omega

variable {urls paths}

theorem urlMatches_eq (urls : RawMatches line) : urlMatches urls =
    (urls.found.filter (fun one => !skipped .url one)).map (candidate .url) := by
  rw [urlMatches, collectMatches_eq urls.ordered (by simp)]
  simp

theorem matchTerminalUrls_eq (urls : RawMatches line) :
    matchTerminalUrls urls = urlMatches urls := by
  rw [urlMatches_eq, matchTerminalUrls]
  congr 1
  apply List.filter_congr
  intro one _
  simp [skipped]

theorem mem_urlMatches {link : LinkMatch} : link ∈ urlMatches urls ↔
    ∃ one ∈ urls.found, skipped .url one = false ∧ candidate .url one = link := by
  simp [urlMatches_eq, and_assoc]

theorem mem_pathMatches {link : LinkMatch} :
    link ∈ collectMatches .path (urlMatches urls) paths.found [] ↔
      ∃ one ∈ paths.found, Reported urls one ∧ candidate .path one = link := by
  have hreported (one : RawMatch) : (!skipped .path one &&
      !(urlMatches urls).any (overlaps (candidate .path one))) = true ↔ Reported urls one := by
    simp only [Bool.and_eq_true, Bool.not_eq_true', Reported, List.any_eq_false, mem_urlMatches,
      Bool.not_eq_true]
    refine and_congr_right fun _ => ⟨fun h url hurl hskip => h _ ⟨url, hurl, hskip, rfl⟩, ?_⟩
    rintro h _ ⟨url, hurl, hskip, rfl⟩
    exact h url hurl hskip
  rw [collectMatches_eq paths.ordered (by simp)]
  simp only [List.nil_append, List.mem_map, List.mem_filter, hreported, and_assoc]

theorem overlaps_comm (first second : LinkMatch) : overlaps first second = overlaps second first := by
  simp [overlaps, and_comm]

/-- A trimmed match is the text of its place. -/
theorem candidate_slice (found : RawMatches line) {kind : LinkKind} {one : RawMatch}
    (h : one ∈ found.found) : (candidate kind one).text =
      slice line (candidate kind one).start (candidate kind one).stop := by
  have hraw := found.slices one h
  rw [slice, Nat.add_sub_cancel_left] at hraw
  simp only [candidate, slice, Nat.add_sub_cancel_left]
  calc
    trimClosingDelimiters one.raw =
        one.raw.take (trimClosingDelimiters one.raw).length :=
      List.prefix_iff_eq_take.mp (trim_isPrefix one.raw)
    _ = ((line.drop one.start).take one.raw.length).take
        (trimClosingDelimiters one.raw).length := by rw [hraw]
    _ = (line.drop one.start).take (trimClosingDelimiters one.raw).length := by
      rw [List.take_take, min_eq_left (length_trim_le one.raw)]

/-- Trimmed matches of one pattern are disjoint. -/
theorem candidates_disjoint {kind : LinkKind} {found : List RawMatch} (keep : RawMatch → Bool)
    (h : found.Pairwise (fun one next => one.start + one.raw.length ≤ next.start)) :
    ((found.filter keep).map (candidate kind)).Pairwise
      (fun first second => overlaps first second = false) := by
  rw [List.pairwise_map]
  refine (h.filter keep).imp fun {one next} hnext => ?_
  have hlength := length_trim_le one.raw
  rw [overlaps, decide_eq_false_iff_not]
  rintro ⟨-, hstart⟩
  simp only [candidate] at hstart
  omega

theorem links_disjoint (urls paths : RawMatches line) :
    (urlMatches urls ++ collectMatches .path (urlMatches urls) paths.found []).Pairwise
      (fun first second => overlaps first second = false) := by
  rw [List.pairwise_append]
  refine ⟨?_, ?_, ?_⟩
  · rw [urlMatches_eq]
    exact candidates_disjoint _ urls.ordered
  · rw [collectMatches_eq paths.ordered (by simp), List.nil_append]
    exact candidates_disjoint _ paths.ordered
  · intro url hurl path hpath
    obtain ⟨one, hone, hskip, rfl⟩ := mem_urlMatches.mp hurl
    obtain ⟨other, -, hreported, rfl⟩ := mem_pathMatches.mp hpath
    rw [overlaps_comm]
    exact hreported.2 one hone hskip

theorem settles_of_skipped {one : RawMatch} (h : skipped .url one = true) : Settles one.raw := by
  have htrim : trimClosingDelimiters one.raw = [] := by
    simp only [skipped, Bool.or_eq_true, List.isEmpty_iff, Bool.and_eq_true,
      decide_eq_true_eq, reduceCtorEq, false_and, or_false] at h
    obtain hraw | htrim := h
    · exact List.prefix_nil.mp (hraw ▸ trim_isPrefix one.raw)
    · exact htrim
  rw [← clean_trim_iff, htrim]
  trivial

theorem urlMatches_clean : (∀ link ∈ urlMatches urls, Clean link.text) ↔
    ∀ one ∈ urls.found, Settles one.raw := by
  constructor
  · intro h one hone
    cases hskip : skipped .url one with
    | true => exact settles_of_skipped hskip
    | false => exact clean_trim_iff.mp (h _ (mem_urlMatches.mpr ⟨one, hone, hskip, rfl⟩))
  · rintro h link hlink
    obtain ⟨one, hone, -, rfl⟩ := mem_urlMatches.mp hlink
    exact clean_trim_iff.mpr (h one hone)

theorem pathMatches_clean :
    (∀ link ∈ collectMatches .path (urlMatches urls) paths.found [], Clean link.text) ↔
      ∀ one ∈ paths.found, Reported urls one → Settles one.raw := by
  constructor
  · intro h one hone hreported
    exact clean_trim_iff.mp (h _ (mem_pathMatches.mpr ⟨one, hone, hreported, rfl⟩))
  · rintro h link hlink
    obtain ⟨one, hone, hreported, rfl⟩ := mem_pathMatches.mp hlink
    exact clean_trim_iff.mpr (h one hone hreported)

theorem urls_hygienic_iff (urls : RawMatches line) : Hygienic line (matchTerminalUrls urls) ↔
    ∀ one ∈ urls.found, Settles one.raw := by
  rw [matchTerminalUrls_eq, ← urlMatches_clean]
  refine ⟨Hygienic.clean, fun hclean => ⟨?_, ?_, ?_, hclean⟩⟩
  · rw [urlMatches_eq, List.pairwise_map]
    exact (urls.ordered.filter _).imp fun hnext => (Nat.le_add_right _ _).trans hnext
  · rw [urlMatches_eq]
    exact candidates_disjoint _ urls.ordered
  · intro link hlink
    obtain ⟨one, hone, -, rfl⟩ := mem_urlMatches.mp hlink
    exact candidate_slice urls hone

/-- The links of a line are always sorted, disjoint and in their places; they are clean exactly if
every match that is reported settles. -/
theorem links_hygienic_iff (urls paths : RawMatches line) :
    Hygienic line (matchTerminalUrls urls) ∧ Hygienic line (extractTerminalLinks urls paths) ↔
      (∀ one ∈ urls.found, Settles one.raw) ∧
        ∀ one ∈ paths.found, Reported urls one → Settles one.raw := by
  have hperm : (extractTerminalLinks urls paths).Perm
      (urlMatches urls ++ collectMatches .path (urlMatches urls) paths.found []) :=
    List.mergeSort_perm _ _
  rw [urls_hygienic_iff, ← pathMatches_clean]
  refine and_congr_right fun hurls => ⟨fun h link hlink => ?_, fun h => ⟨?_, ?_, ?_, ?_⟩⟩
  · exact h.clean link (hperm.mem_iff.mpr (List.mem_append_right _ hlink))
  · have htrans (a b c : LinkMatch) (hab : decide (a.start ≤ b.start) = true)
        (hbc : decide (b.start ≤ c.start) = true) : decide (a.start ≤ c.start) = true :=
      decide_eq_true ((of_decide_eq_true hab).trans (of_decide_eq_true hbc))
    have htotal (a b : LinkMatch) :
        (decide (a.start ≤ b.start) || decide (b.start ≤ a.start)) = true := by
      simpa using Nat.le_total a.start b.start
    exact (List.pairwise_mergeSort htrans htotal _).imp fun hle => of_decide_eq_true hle
  · refine (hperm.pairwise_iff fun {first second} h => ?_).mpr (links_disjoint urls paths)
    rwa [overlaps_comm]
  · intro link hlink
    obtain hlink | hlink := List.mem_append.mp (hperm.mem_iff.mp hlink)
    · obtain ⟨one, hone, -, rfl⟩ := mem_urlMatches.mp hlink
      exact candidate_slice urls hone
    · obtain ⟨one, hone, -, rfl⟩ := mem_pathMatches.mp hlink
      exact candidate_slice paths hone
  · intro link hlink
    obtain hlink | hlink := List.mem_append.mp (hperm.mem_iff.mp hlink)
    · exact urlMatches_clean.mpr hurls link hlink
    · exact h link hlink

section Example

def sampleLine : Text := "http://a.)".toList.map unit

def sampleUrls : RawMatches sampleLine where
  found := [⟨0, sampleLine⟩]
  slices := by decide
  ordered := by decide

/-- Without its bracket the link ends in a full stop. -/
theorem stop_left : extractTerminalLinks sampleUrls ⟨[], by decide, by decide⟩ =
      [⟨.url, "http://a.".toList.map unit, 0, 9⟩] ∧
    ¬Hygienic sampleLine (extractTerminalLinks sampleUrls ⟨[], by decide, by decide⟩) := by
  have hurls : urlMatches sampleUrls = [⟨.url, "http://a.".toList.map unit, 0, 9⟩] := by decide
  have hlinks : extractTerminalLinks sampleUrls ⟨[], by decide, by decide⟩ =
      [⟨.url, "http://a.".toList.map unit, 0, 9⟩] := by
    simp [extractTerminalLinks, hurls, collectMatches]
  refine ⟨hlinks, fun h => ?_⟩
  rw [hlinks] at h
  exact absurd (h.clean _ List.mem_cons_self) (by decide)

end Example

end PiDeck.Links
