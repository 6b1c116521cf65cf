import Mathlib
import PiDeck.Keymap.Spelling

/-! What a chord is classified as. A chord that the browser or the system keeps is found by the key
that stands behind the last dash of its normal spelling; the dash itself is not found there. -/
namespace PiDeck.Keymap
open PiDeck.Collections

section Pieces

/-- A piece between dashes holds no unit that the whole does not. -/
theorem mem_of_mem_splitOn {value piece : Text} {unit : CodeUnit}
    (hpiece : piece ∈ value.splitOn dash) (hunit : unit ∈ piece) : unit ∈ value := by
  have hjoined : ∀ pieces : List Text, piece ∈ pieces → unit ∈ [dash].intercalate pieces := by
    intro pieces hmem
    induction pieces with
    | nil => cases hmem
    | cons first rest ih =>
      obtain rfl | hmem := List.mem_cons.mp hmem
      · by_cases hrest : rest = []
        · rwa [hrest, List.intercalate_singleton]
        · rw [List.intercalate_cons_of_ne_nil hrest]
          exact List.mem_append_left _ (List.mem_append_left _ hunit)
      · rw [List.intercalate_cons_of_ne_nil (List.ne_nil_of_mem hmem)]
        exact List.mem_append_right _ (ih hmem)
  rw [← @List.intercalate_splitOn _ value _ _ dash]
  exact hjoined _ hpiece

theorem segments_spaceless {trimmed : Text} (h : Spaceless trimmed) :
    Spaceless (segments trimmed).1 := by
  rw [segments]
  split
  · intro unit hunit
    rw [List.mem_singleton.mp hunit]
    rfl
  · intro unit hunit
    have hne := List.splitOn_ne_nil dash trimmed
    rw [List.getLastD_eq_getLast?, List.getLast?_eq_some_getLast hne, Option.getD_some] at hunit
    exact h unit (mem_of_mem_splitOn (List.getLast_mem hne) hunit)

end Pieces

section Reading
variable {lowering : Lowering}

theorem readChord_facts {value : Text} {chord : Chord} (h : readChord lowering value = some chord) :
    chord.Plausible ∧ (Readable lowering chord.key ∨ chord.key = dottedISmall) := by
  rw [readChord] at h
  split at h
  · cases h
  rename_i hvalue
  split at h
  · cases h
  obtain ⟨modifiers, -, hread⟩ := Option.bind_eq_some_iff.mp h
  split at hread
  · cases hread
  rename_i hmodifiers
  obtain ⟨key, hkey, rfl⟩ := Option.map_eq_some_iff.mp hread
  refine ⟨hmodifiers, readable_of_normalizedKey (segments_spaceless ?_) hkey⟩
  intro unit hunit
  rw [not_or, not_or] at hvalue
  have hany := hvalue.2.2
  rw [Bool.not_eq_true, List.any_eq_false] at hany
  simpa using hany unit hunit

/-! ### The parts of a chord that was written -/

theorem chordParts_render {chord : Chord} (hkey : dash ∉ chord.key) :
    chordParts chord.render = ⟨(ordered chord.modifiers).map Modifier.name, chord.key⟩ := by
  rw [chordParts, Chord.render, splitOn_joined (names_dashless chord.modifiers) hkey]
  simp

/-- The dash as a key is left out of the parts. -/
theorem chordParts_dash {chord : Chord} (hkey : chord.key = [dash]) : chordParts chord.render =
    ⟨(ordered chord.modifiers).map Modifier.name ++ [[]], []⟩ := by
  rw [chordParts, Chord.render, hkey, splitOn_dash (names_dashless chord.modifiers)]
  simp [List.dropLast_append_of_ne_nil]

theorem name_injective : Function.Injective Modifier.name := by
  intro modifier other h
  have hlookup := name_lookup modifier
  rw [h, name_lookup] at hlookup
  exact (Option.some.inj hlookup).symm

theorem name_ne_nil (modifier : Modifier) : modifier.name ≠ [] :=
  List.length_pos_iff.mp (name_length modifier).1

/-- A modifier stands among the parts exactly when the chord has it. -/
theorem name_mem_parts {chord : Chord} (hkey : chord.key = [dash] ∨ dash ∉ chord.key)
    (modifier : Modifier) :
    modifier.name ∈ (chordParts chord.render).modifiers ↔ modifier ∈ chord.modifiers := by
  obtain hkey | hkey := hkey
  · rw [chordParts_dash hkey]
    simp only [List.mem_append, List.mem_singleton, name_ne_nil, or_false,
      List.mem_map_of_injective name_injective, mem_ordered]
  · rw [chordParts_render hkey]
    simp only [List.mem_map_of_injective name_injective, mem_ordered]

/-! ### Chords that are kept -/

/-- With the primary modifier of the platform. -/
def Chord.Primary (chord : Chord) (platform : Platform) : Prop :=
  .mod ∈ chord.modifiers ∨
    (if platform = .mac then .cmd ∈ chord.modifiers else .ctrl ∈ chord.modifiers)

/-- A chord that the browser or the system keeps for itself. -/
def Chord.Reserved (chord : Chord) (platform : Platform) : Prop :=
  chord.Primary platform ∧ chord.key ∈ primaryUnavailableKeys

instance (chord : Chord) (platform : Platform) : Decidable (chord.Primary platform) :=
  inferInstanceAs (Decidable (_ ∨ _))

theorem isPrimaryModifier_iff {chord : Chord} (hkey : chord.key = [dash] ∨ dash ∉ chord.key)
    (platform : Platform) :
    isPrimaryModifier (chordParts chord.render).modifiers platform = true ↔
      chord.Primary platform := by
  have hmod : text "Mod" ∈ (chordParts chord.render).modifiers ↔ .mod ∈ chord.modifiers :=
    name_mem_parts hkey .mod
  have hcmd : text "Cmd" ∈ (chordParts chord.render).modifiers ↔ .cmd ∈ chord.modifiers :=
    name_mem_parts hkey .cmd
  have hctrl : text "Ctrl" ∈ (chordParts chord.render).modifiers ↔ .ctrl ∈ chord.modifiers :=
    name_mem_parts hkey .ctrl
  rw [isPrimaryModifier, Chord.Primary, Bool.or_eq_true, decide_eq_true_iff, hmod]
  split
  · rw [decide_eq_true_iff, hcmd]
  · rw [decide_eq_true_iff, hctrl]

/-- A binding that may be used, if only after a question. -/
def Risk.Usable (risk : Risk) : Prop := risk = .safe ∨ risk = .browserRisky

theorem classifyPrimary_unusable {kind : BindingKind} {platform : Platform} {normalized : Text}
    (hprimary : isPrimaryModifier (chordParts normalized).modifiers platform = true)
    (hkey : (chordParts normalized).key ∈ primaryUnavailableKeys) :
    (classifyPrimary kind platform normalized).risk = .osUnavailable := by
  rw [classifyPrimary]
  split
  · rfl
  · rw [if_pos ⟨hprimary, hkey⟩]

/-- A kept chord with its key in its last part cannot be used. -/
theorem classifyChord_unusable {kind : BindingKind} {platform : Platform} {normalized : Text}
    (hprimary : isPrimaryModifier (chordParts normalized).modifiers platform = true)
    (hkey : (chordParts normalized).key ∈ primaryUnavailableKeys) :
    ¬(classifyChord kind platform normalized).risk.Usable := by
  have hunusable := @classifyPrimary_unusable kind _ _ hprimary hkey
  rw [classifyChord]
  split_ifs <;> simp [Risk.Usable, hunusable]

section Dash
variable {chord : Chord} (hkey : chord.key = [dash])
include hkey

theorem getLast?_render_dash : chord.render.getLast? = some dash := by
  obtain ⟨before, hrender, -⟩ := render_append chord
  rw [hrender, hkey, List.getLast?_append]
  rfl

theorem render_dash_ne {value : Text} (hvalue : value.getLast? ≠ some dash) :
    chord.render ≠ value := by
  rintro rfl
  exact hvalue (getLast?_render_dash hkey)

theorem isLeader_dash : isLeader chord.render = false := by
  have hlast : ¬∃ last ∈ chord.render.getLast?, 0x61 ≤ last ∧ last ≤ 0x7A := by
    rintro ⟨last, hmem, hle, -⟩
    rw [getLast?_render_dash hkey, Option.mem_some_iff] at hmem
    subst hmem
    revert hle
    decide
  rw [isLeader, decide_eq_false hlast, Bool.and_false]

/-- What becomes of a chord with the dash, outside the key that follows a leader. -/
theorem classifyChord_dash (kind : BindingKind) (platform : Platform) :
    (classifyChord kind platform chord.render).risk.Usable ↔
      kind ≠ .leader ∧ chord.Primary platform ∧ .alt ∉ chord.modifiers ∧
        ¬(.ctrl ∈ chord.modifiers ∧ .mod ∉ chord.modifiers) ∧
          ¬(.cmd ∈ chord.modifiers ∧ platform ≠ .mac) := by
  have hmem (modifier : Modifier) := name_mem_parts (.inl hkey : chord.key = [dash] ∨ _) modifier
  have hprimary := isPrimaryModifier_iff (.inl hkey : chord.key = [dash] ∨ _) platform
  have hparts : (chordParts chord.render).key = [] := by
    rw [chordParts_dash hkey]
  have hmod : text "Mod" ∈ (chordParts chord.render).modifiers ↔ .mod ∈ chord.modifiers := hmem .mod
  have hcmd : text "Cmd" ∈ (chordParts chord.render).modifiers ↔ .cmd ∈ chord.modifiers := hmem .cmd
  have hctrl : text "Ctrl" ∈ (chordParts chord.render).modifiers ↔ .ctrl ∈ chord.modifiers :=
    hmem .ctrl
  have halt : text "Alt" ∈ (chordParts chord.render).modifiers ↔ .alt ∈ chord.modifiers := hmem .alt
  have hlocal : [] ∉ widgetLocalKeys := by
    decide +kernel
  have hkept : [] ∉ primaryUnavailableKeys := by
    decide +kernel
  have hbanned : ¬(chord.render = text "Mod-k" ∨ chord.render = text "Mod-Shift-p") := by
    rw [not_or]
    exact ⟨render_dash_ne hkey (by decide +kernel), render_dash_ne hkey (by decide +kernel)⟩
  rw [classifyChord, classifyPrimary, hparts, if_neg hlocal, isLeader_dash hkey, if_neg hbanned]
  by_cases hkind : kind = .leader
  · simp [hkind, Risk.Usable]
  · simp only [hkind, hkept, hcmd, hmod, hctrl, halt, if_false, and_false, false_and]
    by_cases hp : chord.Primary platform
    · rw [hprimary.mpr hp]
      by_cases ha : .alt ∈ chord.modifiers <;> by_cases hc : .ctrl ∈ chord.modifiers <;>
        by_cases hm : .mod ∈ chord.modifiers <;>
        by_cases hx : .cmd ∈ chord.modifiers ∧ platform ≠ .mac <;>
        simp [ha, hc, hm, hx, hp, hkind, Risk.Usable] <;> split_ifs <;> simp
    · rw [Bool.eq_false_iff.mpr (mt hprimary.mp hp)]
      simp [hp, Risk.Usable]

end Dash

/-! ### Spellings -/

variable {toUpperCase : Text → Text}

theorem normalizeKeyChord_of_read {value : Text} {chord : Chord}
    (h : readChord lowering value = some chord) :
    normalizeKeyChord lowering value = some chord.render := by
  rw [normalizeKeyChord, h, Option.map_some]

theorem classifyKeyBinding_of_read {value : Text} {chord : Chord} {kind : BindingKind}
    {platform : Platform} (h : readChord lowering value = some chord) (hkind : kind ≠ .leaderKey) :
    classifyKeyBinding lowering toUpperCase value kind platform =
      classifyChord kind platform chord.render := by
  rw [classifyKeyBinding, if_neg hkind, normalizeKeyChord_of_read h]

/-- A chord with the primary modifier is no key to follow a leader. -/
theorem normalizePrefixKey_primary {value : Text} {chord : Chord} {platform : Platform}
    (h : readChord lowering value = some chord) (hkey : chord.key = [dash] ∨ dash ∉ chord.key)
    (hprimary : chord.Primary platform) :
    normalizePrefixKey lowering toUpperCase value = none := by
  have hmodifier : ∃ modifier ∈ chord.modifiers, modifier ≠ .shift := by
    rw [Chord.Primary] at hprimary
    obtain hmod | hother := hprimary
    · exact ⟨.mod, hmod, by decide⟩
    · split at hother
      · exact ⟨.cmd, hother, by decide⟩
      · exact ⟨.ctrl, hother, by decide⟩
  obtain ⟨modifier, hmem, hne⟩ := hmodifier
  have hany : (chordParts chord.render).modifiers.any (· ≠ text "Shift") = true := by
    rw [List.any_eq_true]
    refine ⟨modifier.name, (name_mem_parts hkey modifier).mpr hmem, ?_⟩
    rw [decide_eq_true_iff]
    exact fun heq => hne (name_injective heq)
  rw [normalizePrefixKey, normalizeKeyChord_of_read h, Option.bind_some, if_pos (.inr hany)]

variable (lowering toUpperCase) in
/-- What the spelling of a chord leaves open: nothing. -/
structure Sound (value : Text) : Prop where
  again : ∀ normalized, normalizeKeyChord lowering value = some normalized →
    normalizeKeyChord lowering normalized = some normalized
  same : ∀ normalized, normalizeKeyChord lowering value = some normalized →
    readChord lowering normalized = readChord lowering value
  depends : ∀ other, readChord lowering other = readChord lowering value → ∀ kind platform,
    classifyKeyBinding lowering toUpperCase other kind platform =
      classifyKeyBinding lowering toUpperCase value kind platform
  reserved : ∀ chord platform, readChord lowering value = some chord → chord.Reserved platform →
    ∀ kind, ¬(classifyKeyBinding lowering toUpperCase value kind platform).risk.Usable

/-- The dash with the primary modifier of a platform and none that the terminal is left with. -/
def Chord.FreeDash (chord : Chord) : Prop :=
  chord.key = [dash] ∧ .alt ∉ chord.modifiers ∧ .ctrl ∉ chord.modifiers ∧
    (.mod ∈ chord.modifiers ∨ .cmd ∈ chord.modifiers)

theorem classifyKeyBinding_reserved {value : Text} {chord : Chord} {platform : Platform}
    (h : readChord lowering value = some chord) (hfree : ¬chord.FreeDash)
    (hreserved : chord.Reserved platform) (kind : BindingKind) :
    ¬(classifyKeyBinding lowering toUpperCase value kind platform).risk.Usable := by
  obtain ⟨hmodifiers, hread⟩ := readChord_facts h
  have hkey : chord.key = [dash] ∨ dash ∉ chord.key := by
    obtain hreadable | hdotted := hread
    · exact (readable_facts hreadable).2.2.2
    · exact .inr (by rw [hdotted]; decide)
  by_cases hkind : kind = .leaderKey
  · rw [classifyKeyBinding, if_pos hkind, normalizePrefixKey_primary h hkey hreserved.1]
    simp [Risk.Usable]
  rw [classifyKeyBinding_of_read h hkind]
  obtain hdash | hdash := hkey
  · rw [classifyChord_dash hdash]
    rintro ⟨-, hprimary, halt, hctrl, hcmd⟩
    refine hfree ⟨hdash, halt, ?_, ?_⟩
    · exact fun hmem => hctrl ⟨hmem, fun hmod => hmodifiers ⟨hmod, .inr hmem⟩⟩
    · obtain hmod | hother := hprimary
      · exact .inl hmod
      · split at hother
        · exact .inr hother
        · by_contra hnone
          exact hctrl ⟨hother, fun hmod => hnone (.inl hmod)⟩
  · refine classifyChord_unusable ((isPrimaryModifier_iff (.inr hdash) platform).mpr hreserved.1) ?_
    rw [chordParts_render hdash]
    exact hreserved.2

theorem Chord.FreeDash.reserved {chord : Chord} (hfree : chord.FreeDash) : chord.Reserved .mac := by
  have hkept : [dash] ∈ primaryUnavailableKeys := by
    decide +kernel
  obtain ⟨hkey, -, -, hprimary⟩ := hfree
  exact ⟨hprimary, hkey ▸ hkept⟩

theorem Chord.FreeDash.usable {value : Text} {chord : Chord} (hfree : chord.FreeDash)
    (h : readChord lowering value = some chord) :
    (classifyKeyBinding lowering toUpperCase value .direct .mac).risk.Usable := by
  obtain ⟨hkey, halt, hctrl, hprimary⟩ := hfree
  rw [classifyKeyBinding_of_read h (by decide), classifyChord_dash hkey]
  exact ⟨by decide, hprimary, halt, fun h => hctrl h.1, fun h => h.2 rfl⟩

/-- A chord has one spelling and one class, but for two keys: the capital I with a dot, which is
written as two units that are no key, and the dash, which is not found among the kept ones. -/
theorem sound_iff (value : Text) : Sound lowering toUpperCase value ↔
    ∀ chord, readChord lowering value = some chord →
      chord.key ≠ dottedISmall ∧ ¬chord.FreeDash := by
  constructor
  · intro hsound chord h
    constructor
    · intro hdotted
      have hagain := hsound.same _ (normalizeKeyChord_of_read h)
      rw [readChord_render_dotted hdotted, h] at hagain
      cases hagain
    · intro hfree
      exact hsound.reserved chord .mac h hfree.reserved .direct (hfree.usable h)
  · intro hchord
    have hround {chord : Chord} (h : readChord lowering value = some chord) :
        readChord lowering chord.render = some chord := by
      obtain ⟨hmodifiers, hreadable | hdotted⟩ := readChord_facts h
      · exact readChord_render hmodifiers hreadable
      · exact absurd hdotted (hchord chord h).1
    refine ⟨?_, ?_, ?_, ?_⟩
    · intro normalized hnormalized
      obtain ⟨chord, h, rfl⟩ := Option.map_eq_some_iff.mp hnormalized
      exact normalizeKeyChord_of_read (hround h)
    · intro normalized hnormalized
      obtain ⟨chord, h, rfl⟩ := Option.map_eq_some_iff.mp hnormalized
      rw [hround h, h]
    · intro other hother kind platform
      have hnormalized : normalizeKeyChord lowering other = normalizeKeyChord lowering value := by
        rw [normalizeKeyChord, normalizeKeyChord, hother]
      rw [classifyKeyBinding, classifyKeyBinding, normalizePrefixKey, normalizePrefixKey,
        hnormalized]
    · intro chord platform h hreserved kind
      exact classifyKeyBinding_reserved h (hchord chord h).2 hreserved kind

end Reading

/-! ### The dash -/

theorem lowerAscii_small {unit : CodeUnit} (h : 0x41 ≤ unit ∧ unit ≤ 0x5A) :
    lowerAscii (lowerAscii unit) = lowerAscii unit ∧ (lowerAscii unit).isSpace = false ∧
      lowerAscii unit ≠ dottedI := by
  have hvalue : (unit + 0x20).toNat = unit.toNat + 0x20 := by
    rw [UInt16.toNat_add]
    have := UInt16.le_iff_toNat_le.mp h.2
    simp at this ⊢
    omega
  have hbounds : 0x41 ≤ unit.toNat ∧ unit.toNat ≤ 0x5A :=
    ⟨UInt16.le_iff_toNat_le.mp h.1, UInt16.le_iff_toNat_le.mp h.2⟩
  have hlower : lowerAscii unit = unit + 0x20 := if_pos h
  rw [hlower]
  refine ⟨if_neg ?_, ?_, ?_⟩
  · rintro ⟨-, hle⟩
    have := UInt16.le_iff_toNat_le.mp hle
    rw [hvalue] at this
    simp at this
    omega
  · rw [CodeUnit.isSpace, hvalue, decide_eq_false_iff_not]
    simp
    omega
  · intro heq
    have := congrArg UInt16.toNat heq
    rw [hvalue, dottedI] at this
    simp at this
    omega

/-- Lower case in ASCII, and of the capital I with a dot. -/
def asciiLowering : Lowering where
  toLowerCase value := value.flatMap fun unit =>
    if unit = dottedI then dottedISmall else [lowerAscii unit]
  ascii := by
    intro value hascii
    rw [← List.flatMap_pure_eq_map]
    apply List.flatMap_congr
    intro unit hunit
    rw [if_neg]
    · rfl
    · rintro rfl
      exact absurd (hascii _ hunit) (by decide)
  single := by
    intro unit hunit
    by_cases hcapital : 0x41 ≤ unit ∧ unit ≤ 0x5A
    · obtain ⟨hagain, hspace, hne⟩ := lowerAscii_small hcapital
      exact ⟨lowerAscii unit, by simp [hunit], by simp [hne, hagain], by simp [hspace], hne⟩
    · have hself : lowerAscii unit = unit := if_neg hcapital
      exact ⟨unit, by simp [hunit, hself], by simp [hunit, hself], id, hunit⟩
  dotted := by decide
  dottedSmall := by decide

/-- With Mod and the dash, which Mod makes smaller in a browser. -/
theorem dash_escapes : ¬Sound asciiLowering id (text "Mod--") := by
  intro hsound
  have hread : readChord asciiLowering (text "Mod--") = some ⟨{.mod}, [dash]⟩ := by
    decide +kernel
  refine hsound.reserved _ .mac hread ⟨.inl (by decide), by decide +kernel⟩ .direct (.inr ?_)
  decide +kernel

end PiDeck.Keymap
