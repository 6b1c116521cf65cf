import Mathlib
import PiDeck.Links.Extraction

/-! The URLs of a text: a scheme and the run of characters after it, from left to right. What stands
after the text changes only a URL that reaches its end, and that one goes on. -/
namespace PiDeck.Links
open PiDeck.Collections

/-- A character of a URL. -/
def inUrl (unit' : CodeUnit) : Bool :=
  !unit'.isSpace && decide (unit' ∉ [unit '"', unit '\'', unit '\x60', unit '<', unit '>'])

def http : Text := "http://".toList.map unit

def https : Text := "https://".toList.map unit

/-- The length of the scheme that a text begins with. -/
def schemeAt (text : Text) : Option ℕ :=
  if http.isPrefixOf (text.map lower) then some 7
  else if https.isPrefixOf (text.map lower) then some 8
  else none

/-- The length of the URL that a text begins with. -/
def urlAt (text : Text) : Option ℕ :=
  (schemeAt text).bind fun scheme =>
    if (text.drop scheme).takeWhile inUrl = [] then none
    else some (scheme + ((text.drop scheme).takeWhile inUrl).length)

/-- `matchAll`, with what is left to pass of the match before. -/
def scan : ℕ → ℕ → Text → List RawMatch
  | _, _, [] => []
  | passing + 1, position, _ :: text => scan passing (position + 1) text
  | 0, position, first :: text =>
    match urlAt (first :: text) with
    | some length => ⟨position, (first :: text).take length⟩ :: scan (length - 1) (position + 1) text
    | none => scan 0 (position + 1) text

variable {text rest : Text} {length passing position : ℕ} {one : RawMatch}

theorem schemeAt_bounds {scheme : ℕ} (h : schemeAt text = some scheme) :
    7 ≤ scheme ∧ scheme ≤ 8 ∧ scheme ≤ text.length := by
  rw [schemeAt] at h
  split at h
  · rename_i hprefix
    have hlength := (List.isPrefixOf_iff_prefix.mp hprefix).length_le
    rw [List.length_map] at hlength
    obtain rfl := Option.some.inj h
    exact ⟨le_rfl, by omega, hlength⟩
  · split at h
    · rename_i hprefix
      have hlength := (List.isPrefixOf_iff_prefix.mp hprefix).length_le
      rw [List.length_map] at hlength
      obtain rfl := Option.some.inj h
      exact ⟨by omega, le_rfl, hlength⟩
    · cases h

theorem isPrefixOf_append {scheme : Text} (h : scheme.length ≤ text.length) :
    scheme.isPrefixOf ((text ++ rest).map lower) = scheme.isPrefixOf (text.map lower) := by
  rw [Bool.eq_iff_iff, List.isPrefixOf_iff_prefix, List.isPrefixOf_iff_prefix, List.map_append]
  constructor
  · exact fun hprefix => List.prefix_of_prefix_length_le hprefix (List.prefix_append _ _)
      (by simpa using h)
  · exact fun hprefix => hprefix.trans (List.prefix_append _ _)

/-- A text that is long enough has its scheme whatever stands after it. -/
theorem schemeAt_append (h : 8 ≤ text.length) : schemeAt (text ++ rest) = schemeAt text := by
  rw [schemeAt, schemeAt, isPrefixOf_append, isPrefixOf_append]
  · exact h
  · exact le_trans (by decide) h

theorem schemeAt_append_of_some {scheme : ℕ} (h : schemeAt text = some scheme) :
    schemeAt (text ++ rest) = some scheme := by
  obtain hlong | hshort := Nat.lt_or_ge 7 text.length
  · rw [schemeAt_append hlong, h]
  · obtain ⟨hseven, -, hlength⟩ := schemeAt_bounds h
    have hhttp : http.length ≤ text.length := le_trans (by decide) (hseven.trans hlength)
    rw [schemeAt] at h ⊢
    rw [isPrefixOf_append hhttp]
    split at h
    · rename_i hhttp
      rw [if_pos hhttp, h]
    · split at h
      · obtain rfl := Option.some.inj h
        omega
      · cases h

theorem urlAt_bounds (h : urlAt text = some length) : 8 ≤ length ∧ length ≤ text.length := by
  obtain ⟨scheme, hscheme, h⟩ := Option.bind_eq_some_iff.mp h
  obtain ⟨hseven, -, hlength⟩ := schemeAt_bounds hscheme
  split at h
  · cases h
  · rename_i hrun
    obtain rfl := Option.some.inj h
    have hpos := List.length_pos_iff.mpr hrun
    have hle := (List.takeWhile_prefix (p := inUrl) (l := text.drop scheme)).length_le
    rw [List.length_drop] at hle
    omega

/-- A URL that ends before its text does is the same whatever follows. -/
theorem urlAt_append_of_lt (h : urlAt text = some length) (hlt : length < text.length) :
    urlAt (text ++ rest) = some length := by
  obtain ⟨scheme, hscheme, h⟩ := Option.bind_eq_some_iff.mp h
  obtain ⟨-, -, hlength⟩ := schemeAt_bounds hscheme
  split at h
  · cases h
  · rename_i hrun
    obtain rfl := Option.some.inj h
    have hends : ((text.drop scheme).takeWhile inUrl).length ≠ (text.drop scheme).length := by
      rw [List.length_drop]
      omega
    rw [urlAt, schemeAt_append_of_some hscheme, Option.bind_some,
      List.drop_append_of_le_length hlength, List.takeWhile_append, if_neg hends, if_neg hrun]

/-- One that reaches the end goes on. -/
theorem urlAt_append_of_eq (h : urlAt text = some text.length) :
    urlAt (text ++ rest) = some (text.length + (rest.takeWhile inUrl).length) := by
  obtain ⟨scheme, hscheme, h⟩ := Option.bind_eq_some_iff.mp h
  obtain ⟨-, -, hlength⟩ := schemeAt_bounds hscheme
  split at h
  · cases h
  · rename_i hrun
    have hall := Option.some.inj h
    have hreaches : ((text.drop scheme).takeWhile inUrl).length = (text.drop scheme).length := by
      rw [List.length_drop]
      omega
    have hne : text.drop scheme ++ rest.takeWhile inUrl ≠ [] := by
      intro hnil
      rw [(List.append_eq_nil_iff.mp hnil).1] at hrun
      exact hrun rfl
    rw [urlAt, schemeAt_append_of_some hscheme, Option.bind_some,
      List.drop_append_of_le_length hlength, List.takeWhile_append, if_pos hreaches, if_neg hne,
      List.length_append, List.length_drop]
    congr 1
    omega

/-- A text that is long enough begins with no URL whatever follows it. -/
theorem urlAt_append_of_none (h : urlAt text = none) (hlong : 9 ≤ text.length) :
    urlAt (text ++ rest) = none := by
  rw [urlAt] at h ⊢
  rw [schemeAt_append (by omega)]
  cases hscheme : schemeAt text with
  | none => rfl
  | some scheme =>
    rw [hscheme, Option.bind_some] at h
    obtain ⟨-, height, hlength⟩ := schemeAt_bounds hscheme
    split at h
    · rename_i hrun
      have hends : ((text.drop scheme).takeWhile inUrl).length ≠ (text.drop scheme).length := by
        rw [hrun, List.length_drop, List.length_nil]
        omega
      rw [Option.bind_some, List.drop_append_of_le_length hlength, List.takeWhile_append,
        if_neg hends, if_pos hrun]
    · cases h

theorem scan_of_some {first : CodeUnit} (h : urlAt (first :: text) = some length) :
    scan 0 position (first :: text) =
      ⟨position, (first :: text).take length⟩ :: scan (length - 1) (position + 1) text := by
  rw [scan, h]

theorem scan_of_none {first : CodeUnit} (h : urlAt (first :: text) = none) :
    scan 0 position (first :: text) = scan 0 (position + 1) text := by
  rw [scan, h]

theorem scan_of_short (h : text.length < 8) : scan passing position text = [] := by
  induction text generalizing passing position with
  | nil => cases passing <;> rfl
  | cons first text ih =>
    rw [List.length_cons] at h
    cases passing with
    | succ passing => exact ih (by omega)
    | zero =>
      rw [scan]
      cases hurl : urlAt (first :: text) with
      | some length =>
        have := urlAt_bounds hurl
        rw [List.length_cons] at this
        omega
      | none => exact ih (by omega)

theorem scan_of_passing (h : text.length ≤ passing) : scan passing position text = [] := by
  induction text generalizing passing position with
  | nil => cases passing <;> rfl
  | cons first text ih =>
    rw [List.length_cons] at h
    cases passing with
    | zero => omega
    | succ passing => exact ih (by omega)

variable (rest) in
/-- A URL of a text is one of every longer text, or reaches the end and is longer there. -/
theorem mem_scan_append (h : one ∈ scan passing position text) :
    (one.start + one.raw.length < position + text.length ∧
      one ∈ scan passing position (text ++ rest)) ∨
    (one.start + one.raw.length = position + text.length ∧
      ⟨one.start, one.raw ++ rest.takeWhile inUrl⟩ ∈ scan passing position (text ++ rest)) := by
  induction text generalizing passing position with
  | nil => cases passing <;> cases h
  | cons first text ih =>
    have hposition : position + (first :: text).length = position + 1 + text.length := by
      rw [List.length_cons]
      omega
    rw [hposition]
    cases passing with
    | succ passing => exact ih h
    | zero =>
      cases hurl : urlAt (first :: text) with
      | none =>
        rw [scan_of_none hurl] at h
        obtain hshort | hlong := Nat.lt_or_ge (first :: text).length 9
        · rw [List.length_cons] at hshort
          rw [scan_of_short (by omega)] at h
          cases h
        · have hnone : urlAt (first :: (text ++ rest)) = none := urlAt_append_of_none hurl hlong
          rw [List.cons_append, scan_of_none hnone]
          exact ih h
      | some length =>
        rw [scan_of_some hurl] at h
        obtain ⟨height, hle⟩ := urlAt_bounds hurl
        obtain hend | hlt := Nat.eq_or_lt_of_le hle
        · -- The URL reaches the end, so nothing comes after it.
          subst hend
          rw [List.length_cons, Nat.add_sub_cancel, scan_of_passing le_rfl] at h
          obtain rfl := List.mem_singleton.mp h
          have hlonger : urlAt (first :: (text ++ rest)) =
              some ((first :: text).length + (rest.takeWhile inUrl).length) :=
            urlAt_append_of_eq hurl
          rw [List.cons_append, scan_of_some hlonger]
          have hrest : rest.take (rest.takeWhile inUrl).length = rest.takeWhile inUrl :=
            (List.prefix_iff_eq_take.mp (List.takeWhile_prefix _)).symm
          refine .inr ⟨?_, ?_⟩
          · rw [List.length_take, List.length_cons, min_self]
            omega
          · rw [← List.length_cons (a := first), List.take_length, ← List.cons_append,
              List.take_length_add_append, hrest]
            exact List.mem_cons_self
        · have hsame : urlAt (first :: (text ++ rest)) = some length := urlAt_append_of_lt hurl hlt
          rw [List.cons_append, scan_of_some hsame]
          obtain rfl | h := List.mem_cons.mp h
          · refine .inl ⟨?_, ?_⟩
            · simp only [List.length_take, List.length_cons] at hle hlt ⊢
              omega
            · rw [← List.cons_append, List.take_append_of_le_length hle]
              exact List.mem_cons_self
          · obtain ⟨hend, hmem⟩ | ⟨hend, hmem⟩ := ih h
            · exact .inl ⟨hend, List.mem_cons_of_mem _ hmem⟩
            · exact .inr ⟨hend, List.mem_cons_of_mem _ hmem⟩

theorem mem_scan (h : one ∈ scan passing position text) : position + passing ≤ one.start ∧
    one.raw = (text.drop (one.start - position)).take one.raw.length ∧ 8 ≤ one.raw.length := by
  induction text generalizing passing position with
  | nil => cases passing <;> cases h
  | cons first text ih =>
    have hlater {passing' : ℕ} (hmem : one ∈ scan passing' (position + 1) text) :
        one.raw = ((first :: text).drop (one.start - position)).take one.raw.length := by
      obtain ⟨hstart, hraw, -⟩ := ih hmem
      have hdrop : one.start - position = one.start - (position + 1) + 1 := by omega
      rwa [hdrop, List.drop_succ_cons]
    cases passing with
    | succ passing =>
      obtain ⟨hstart, -, hlength⟩ := ih h
      exact ⟨by omega, hlater h, hlength⟩
    | zero =>
      cases hurl : urlAt (first :: text) with
      | none =>
        rw [scan_of_none hurl] at h
        obtain ⟨hstart, -, hlength⟩ := ih h
        exact ⟨by omega, hlater h, hlength⟩
      | some length =>
        rw [scan_of_some hurl] at h
        obtain ⟨height, hle⟩ := urlAt_bounds hurl
        obtain rfl | h := List.mem_cons.mp h
        · have htake : ((first :: text).take length).length = length := by
            rw [List.length_take, min_eq_left hle]
          simp only [Nat.sub_self, List.drop_zero, htake]
          exact ⟨le_rfl, trivial, height⟩
        · obtain ⟨hstart, -, hlength⟩ := ih h
          exact ⟨by omega, hlater h, hlength⟩

theorem scan_ordered : (scan passing position text).Pairwise
    (fun one next => one.start + one.raw.length ≤ next.start) := by
  induction text generalizing passing position with
  | nil => cases passing <;> exact .nil
  | cons first text ih =>
    cases passing with
    | succ passing => exact ih
    | zero =>
      cases hurl : urlAt (first :: text) with
      | none =>
        rw [scan_of_none hurl]
        exact ih
      | some length =>
        rw [scan_of_some hurl, List.pairwise_cons]
        obtain ⟨height, hle⟩ := urlAt_bounds hurl
        refine ⟨fun next hnext => ?_, ih⟩
        obtain ⟨hstart, -⟩ := mem_scan hnext
        simp only [List.length_take, min_eq_left hle]
        omega

/-- The URLs of a line. -/
def urlPattern (line : Text) : RawMatches line where
  found := scan 0 0 line
  slices := fun one h => by
    obtain ⟨-, hraw, -⟩ := mem_scan h
    rw [slice, Nat.add_sub_cancel_left]
    exact hraw.symm
  ordered := scan_ordered

end PiDeck.Links
