import Mathlib
import PiDeck.Keymap.Chords

/-! Reading a chord that was written gives it again, so a chord has one normal spelling and its
classification is that of its modifiers and key. The capital I with a dot is the one key that is
written otherwise than it is read, and the dash is the one that is written as no key. -/
namespace PiDeck.Keymap
open PiDeck.Collections

def Spaceless (value : Text) : Prop := ∀ unit ∈ value, unit.isSpace = false

/-- ASCII with neither spaces nor dashes. -/
def isPlain (value : Text) : Bool :=
  value.all fun unit => !unit.isSpace && decide (unit < 0x80) && unit != dash

section Texts
variable {value key : Text} {names : List Text}

theorem plain_facts (h : isPlain value = true) :
    Spaceless value ∧ dash ∉ value ∧ ∀ unit ∈ value, unit < 0x80 := by
  have hunits (unit : CodeUnit) (hunit : unit ∈ value) :
      unit.isSpace = false ∧ unit < 0x80 ∧ unit ≠ dash := by
    simpa [and_assoc] using List.all_eq_true.mp h unit hunit
  exact ⟨fun unit hunit => (hunits unit hunit).1, fun hdash => (hunits dash hdash).2.2 rfl,
    fun unit hunit => (hunits unit hunit).2.1⟩

theorem trim_of_spaceless (h : Spaceless value) : trim value = value := by
  have hdrop : value.dropWhile CodeUnit.isSpace = value := by
    cases value with
    | nil => rfl
    | cons first rest => rw [List.dropWhile_cons_of_neg (by simp [h first List.mem_cons_self])]
  rw [trim, hdrop, List.rdropWhile_eq_self_iff]
  intro hne
  rw [h _ (List.getLast_mem hne)]
  exact Bool.false_ne_true

/-- What is joined with dashes ends with its last piece. -/
theorem intercalate_append (names : List Text) (key : Text) :
    ∃ before, [dash].intercalate (names ++ [key]) = before ++ key ∧
      before.length = (names.map fun name => name.length + 1).sum ∧
      ∀ unit ∈ before, unit = dash ∨ ∃ name ∈ names, unit ∈ name := by
  induction names with
  | nil => exact ⟨[], by simp, rfl, by simp⟩
  | cons name names ih =>
    obtain ⟨before, hjoined, hlength, hmem⟩ := ih
    refine ⟨name ++ [dash] ++ before, ?_, ?_, ?_⟩
    · rw [List.cons_append, List.intercalate_cons_of_ne_nil (by simp), hjoined]
      simp only [List.append_assoc]
    · rw [List.length_append, List.length_append, hlength, List.map_cons, List.sum_cons]
      rfl
    · intro unit hunit
      simp only [List.append_assoc, List.mem_append, List.mem_singleton] at hunit
      obtain hname | rfl | hbefore := hunit
      · exact .inr ⟨name, List.mem_cons_self, hname⟩
      · exact .inl rfl
      · obtain rfl | ⟨other, hother, hin⟩ := hmem unit hbefore
        · exact .inl rfl
        · exact .inr ⟨other, List.mem_cons_of_mem _ hother, hin⟩

/-- A dash that is the last piece is two empty pieces. -/
theorem intercalate_dash (names : List Text) :
    [dash].intercalate (names ++ [[dash]]) = [dash].intercalate (names ++ [[], []]) := by
  induction names with
  | nil => rfl
  | cons name names ih =>
    rw [List.cons_append, List.cons_append, List.intercalate_cons_of_ne_nil (by simp),
      List.intercalate_cons_of_ne_nil (by simp), ih]

theorem splitOn_joined (hnames : ∀ name ∈ names, dash ∉ name) (hkey : dash ∉ key) :
    ([dash].intercalate (names ++ [key])).splitOn dash = names ++ [key] := by
  apply List.splitOn_intercalate dash _ (by simp)
  intro name hname
  obtain hname | hname := List.mem_append.mp hname
  · exact hnames name hname
  · rwa [List.mem_singleton.mp hname]

theorem splitOn_dash (hnames : ∀ name ∈ names, dash ∉ name) :
    ([dash].intercalate (names ++ [[dash]])).splitOn dash = names ++ [[], []] := by
  rw [intercalate_dash]
  apply List.splitOn_intercalate dash _ (by simp)
  intro name hname
  obtain hname | hname := List.mem_append.mp hname
  · exact hnames name hname
  · rw [show name = [] by simpa using hname]
    exact List.not_mem_nil

end Texts

/-! ### Modifiers -/

theorem name_plain (modifier : Modifier) : isPlain modifier.name = true := by
  cases modifier <;> decide +kernel

theorem name_length (modifier : Modifier) :
    0 < modifier.name.length ∧ modifier.name.length ≤ 5 := by
  cases modifier <;> decide +kernel

theorem name_lookup (modifier : Modifier) :
    modifierNames.lookup (modifier.name.map lowerAscii) = some modifier := by
  cases modifier <;> decide +kernel

theorem mem_ordered {modifiers : Finset Modifier} {modifier : Modifier} :
    modifier ∈ ordered modifiers ↔ modifier ∈ modifiers := by
  have horder : modifier ∈ Modifier.order := by
    cases modifier <;> decide
  simp [ordered, horder]

theorem names_dashless (modifiers : Finset Modifier) :
    ∀ name ∈ (ordered modifiers).map Modifier.name, dash ∉ name := by
  intro name hname
  obtain ⟨modifier, -, rfl⟩ := List.mem_map.mp hname
  exact (plain_facts (name_plain modifier)).2.1

section Reading
variable {lowering : Lowering}

theorem readModifiers_names {modifiers : List Modifier} {read : Finset Modifier}
    (hnodup : modifiers.Nodup) (hnew : ∀ modifier ∈ modifiers, modifier ∉ read) :
    readModifiers lowering (modifiers.map Modifier.name) read =
      some (read ∪ modifiers.toFinset) := by
  induction modifiers generalizing read with
  | nil => simp [readModifiers]
  | cons modifier rest ih =>
    obtain ⟨hnot, hrest⟩ := List.nodup_cons.mp hnodup
    rw [List.map_cons, readModifiers, lowering.ascii _ (plain_facts (name_plain modifier)).2.2,
      name_lookup, Option.bind_some,
      if_neg (hnew modifier List.mem_cons_self), ih hrest]
    · rw [List.toFinset_cons, Finset.union_insert, Finset.insert_union]
    · intro other hother
      rw [Finset.mem_insert, not_or]
      refine ⟨?_, hnew other (List.mem_cons_of_mem _ hother)⟩
      rintro rfl
      exact hnot hother

theorem readModifiers_ordered (modifiers : Finset Modifier) :
    readModifiers lowering ((ordered modifiers).map Modifier.name) ∅ = some modifiers := by
  have hnodup : (ordered modifiers).Nodup := List.Nodup.filter _ (by decide)
  rw [readModifiers_names hnodup (by simp), Finset.empty_union]
  congr 1
  ext modifier
  rw [List.mem_toFinset, mem_ordered]

/-! ### Keys -/

/-- The keys that are read as themselves: one code unit in lower case, or a name. -/
inductive Readable (lowering : Lowering) : Text → Prop
  | single (unit : CodeUnit) (hlower : lowering.toLowerCase [unit] = [unit])
      (hspace : unit.isSpace = false) : Readable lowering [unit]
  | named (key : Text) (h : key ∈ namedKeys.map Prod.snd) : Readable lowering key
  | function (key : Text) (h : key ∈ functionKeys) : Readable lowering key

/-- A name of a key or a function key. -/
structure NamedKey (key : Text) : Prop where
  plain : isPlain key = true
  two_le : 2 ≤ key.length
  le_ten : key.length ≤ 10

theorem namedKeys_all : (namedKeys.all fun entry => isPlain entry.2 &&
    decide (2 ≤ entry.2.length ∧ entry.2.length ≤ 10) &&
      namedKeys.lookup (entry.2.map lowerAscii) == some entry.2) = true := by
  decide +kernel

theorem functionKeys_all : (functionKeys.all fun key => isPlain key &&
    decide (2 ≤ key.length ∧ key.length ≤ 10) &&
      (namedKeys.lookup (key.map lowerAscii) == none && functionKey key == some key)) = true := by
  decide +kernel

theorem named_facts {key : Text} (h : key ∈ namedKeys.map Prod.snd) :
    NamedKey key ∧ namedKeys.lookup (key.map lowerAscii) = some key := by
  obtain ⟨entry, hentry, rfl⟩ := List.mem_map.mp h
  have hall := List.all_eq_true.mp namedKeys_all entry hentry
  simp only [Bool.and_eq_true, decide_eq_true_eq, beq_iff_eq] at hall
  exact ⟨⟨hall.1.1, hall.1.2.1, hall.1.2.2⟩, hall.2⟩

theorem function_facts {key : Text} (h : key ∈ functionKeys) : NamedKey key ∧
    namedKeys.lookup (key.map lowerAscii) = none ∧ functionKey key = some key := by
  have hall := List.all_eq_true.mp functionKeys_all key h
  simp only [Bool.and_eq_true, decide_eq_true_eq, beq_iff_eq] at hall
  exact ⟨⟨hall.1.1, hall.1.2.1, hall.1.2.2⟩, hall.2⟩

theorem normalizedKey_of_readable {key : Text} (h : Readable lowering key) :
    normalizedKey lowering key = some key := by
  cases h with
  | single unit hlower hspace =>
    have hspaceless : Spaceless [unit] := by simpa [Spaceless] using hspace
    have hne : [unit] ≠ text " " := by
      intro heq
      have hspaced := hspaceless 0x20 (heq ▸ by decide)
      cases hspaced
    rw [normalizedKey, trim_of_spaceless hspaceless, if_pos ⟨rfl, hne⟩, hlower]
  | named key h =>
    obtain ⟨hkey, hlookup⟩ := named_facts h
    obtain ⟨hspaceless, -, hascii⟩ := plain_facts hkey.plain
    have hlength := hkey.two_le
    rw [normalizedKey, trim_of_spaceless hspaceless, if_neg (by omega), lowering.ascii key hascii,
      hlookup, Option.some_or]
  | function key h =>
    obtain ⟨hkey, hlookup, hfunction⟩ := function_facts h
    obtain ⟨hspaceless, -, hascii⟩ := plain_facts hkey.plain
    have hlength := hkey.two_le
    rw [normalizedKey, trim_of_spaceless hspaceless, if_neg (by omega), lowering.ascii key hascii,
      hlookup, Option.none_or, hfunction]

/-- What is read as a key is readable, unless it is the small form of the dotted I. -/
theorem readable_of_normalizedKey {raw key : Text} (hraw : Spaceless raw)
    (h : normalizedKey lowering raw = some key) : Readable lowering key ∨ key = dottedISmall := by
  rw [normalizedKey, trim_of_spaceless hraw] at h
  split at h
  · rename_i hsingle
    obtain ⟨unit, rfl⟩ := List.length_eq_one_iff.mp hsingle.1
    obtain rfl := Option.some.inj h
    by_cases hdotted : unit = dottedI
    · rw [hdotted, lowering.dotted]
      exact .inr rfl
    · obtain ⟨small, hlower, hsmall, hspace, -⟩ := lowering.single unit hdotted
      have hnot := hraw unit List.mem_cons_self
      rw [hlower]
      refine .inl (.single small hsmall ?_)
      rw [Bool.eq_false_iff]
      intro hspaced
      rw [hspace hspaced] at hnot
      cases hnot
  · cases hnamed : namedKeys.lookup (lowering.toLowerCase raw) with
    | some named =>
      rw [hnamed, Option.some_or] at h
      obtain rfl := Option.some.inj h
      obtain ⟨before, after, hsplit, -⟩ := List.lookup_eq_some_iff.mp hnamed
      exact .inl (.named named (by simp [hsplit]))
    | none =>
      rw [hnamed, Option.none_or] at h
      exact .inl (.function key (List.mem_of_find?_eq_some h))

/-! ### Writing and reading again -/

/-- A chord that is read: `Mod` excludes the modifiers that it may stand for. -/
def Chord.Plausible (chord : Chord) : Prop :=
  ¬(.mod ∈ chord.modifiers ∧ (.cmd ∈ chord.modifiers ∨ .ctrl ∈ chord.modifiers))

theorem names_plain (modifiers : Finset Modifier) :
    ∀ name ∈ (ordered modifiers).map Modifier.name, isPlain name = true := by
  intro name hname
  obtain ⟨modifier, -, rfl⟩ := List.mem_map.mp hname
  exact name_plain modifier

/-- A chord is written as its modifiers and then its key, and is short. -/
theorem render_append (chord : Chord) : ∃ before, chord.render = before ++ chord.key ∧
    before.length ≤ 30 ∧ Spaceless before := by
  obtain ⟨before, hrender, hlength, hmem⟩ :=
    intercalate_append ((ordered chord.modifiers).map Modifier.name) chord.key
  refine ⟨before, hrender, ?_, ?_⟩
  · have hsum : ((((ordered chord.modifiers).map Modifier.name).map
        fun name => name.length + 1).sum) ≤ (ordered chord.modifiers).length * 6 := by
      rw [List.map_map]
      have hle := List.sum_le_card_nsmul
        ((ordered chord.modifiers).map ((fun name => name.length + 1) ∘ Modifier.name)) 6 (by
          intro length hmem
          obtain ⟨modifier, -, rfl⟩ := List.mem_map.mp hmem
          exact Nat.succ_le_succ (name_length modifier).2)
      rwa [List.length_map, smul_eq_mul] at hle
    have hordered : (ordered chord.modifiers).length ≤ 5 := List.length_filter_le _ Modifier.order
    omega
  · intro unit hunit
    obtain rfl | ⟨name, hname, hin⟩ := hmem unit hunit
    · rfl
    · exact (plain_facts (names_plain _ name hname)).1 unit hin

theorem readable_facts {key : Text} (h : Readable lowering key) :
    Spaceless key ∧ key ≠ [] ∧ key.length ≤ 10 ∧ (key = [dash] ∨ dash ∉ key) := by
  have hnamed {key : Text} (hkey : NamedKey key) :
      Spaceless key ∧ key ≠ [] ∧ key.length ≤ 10 ∧ (key = [dash] ∨ dash ∉ key) := by
    obtain ⟨hspaceless, hdash, -⟩ := plain_facts hkey.plain
    refine ⟨hspaceless, ?_, hkey.le_ten, .inr hdash⟩
    rintro rfl
    exact absurd hkey.two_le (by decide)
  cases h with
  | named key h => exact hnamed (named_facts h).1
  | function key h => exact hnamed (function_facts h).1
  | single unit hlower hspace =>
    refine ⟨by simpa [Spaceless] using hspace, List.cons_ne_nil _ _, by simp, ?_⟩
    by_cases hdash : unit = dash
    · exact .inl (by rw [hdash])
    · exact .inr (by simpa using Ne.symm hdash)

theorem segments_render {chord : Chord} (hne : chord.key ≠ [])
    (hkey : chord.key = [dash] ∨ dash ∉ chord.key) :
    segments chord.render = (chord.key, (ordered chord.modifiers).map Modifier.name) := by
  have hnames := names_dashless chord.modifiers
  obtain ⟨before, hrender, -⟩ := render_append chord
  obtain hdash | hdash := hkey
  · have hlast : chord.render.getLast? = some dash := by
      rw [hrender, hdash, List.getLast?_append]
      rfl
    rw [segments, if_pos hlast, Chord.render, hdash, splitOn_dash hnames]
    congr 1
    rw [List.filter_append, List.filter_eq_self.mpr]
    · simp
    · intro name hname
      obtain ⟨modifier, -, rfl⟩ := List.mem_map.mp hname
      have := (name_length modifier).1
      simpa [List.length_pos_iff] using this
  · have hlast : chord.render.getLast? ≠ some dash := by
      rw [hrender, List.getLast?_append_of_ne_nil _ hne]
      exact fun h => hdash (List.mem_of_getLast? h)
    rw [segments, if_neg hlast, Chord.render, splitOn_joined hnames hdash]
    simp

theorem readChord_of_spaceless {value : Text} (hspaceless : Spaceless value) (hne : value ≠ [])
    (hlength : value.length ≤ maxKeyBindingLength) : readChord lowering value =
      if (segments value).1 = [] then none
      else
        (readModifiers lowering (segments value).2 ∅).bind fun modifiers =>
          if .mod ∈ modifiers ∧ (.cmd ∈ modifiers ∨ .ctrl ∈ modifiers) then none
          else (normalizedKey lowering (segments value).1).map fun key => ⟨modifiers, key⟩ := by
  have hany : value.any CodeUnit.isSpace = false := by
    simpa [Spaceless] using hspaceless
  rw [readChord, trim_of_spaceless hspaceless, if_neg]
  simp [hne, hany, Nat.not_lt_of_le hlength]

theorem render_facts {chord : Chord} (hkey : Spaceless chord.key) (hne : chord.key ≠ [])
    (hlength : chord.key.length ≤ 10) : Spaceless chord.render ∧ chord.render ≠ [] ∧
      chord.render.length ≤ maxKeyBindingLength := by
  obtain ⟨before, hrender, hbefore, hspaceless⟩ := render_append chord
  rw [hrender]
  refine ⟨?_, by simp [hne], ?_⟩
  · intro unit hunit
    obtain hunit | hunit := List.mem_append.mp hunit
    · exact hspaceless unit hunit
    · exact hkey unit hunit
  · rw [List.length_append, maxKeyBindingLength]
    omega

/-- Reading what was written. -/
theorem readChord_render {chord : Chord} (hmodifiers : chord.Plausible)
    (hkey : Readable lowering chord.key) : readChord lowering chord.render = some chord := by
  obtain ⟨hspaceless, hne, hlength, hdash⟩ := readable_facts hkey
  obtain ⟨hrender, hrender_ne, hrender_length⟩ := render_facts hspaceless hne hlength
  rw [readChord_of_spaceless hrender hrender_ne hrender_length, segments_render hne hdash,
    if_neg hne, readModifiers_ordered, Option.bind_some, if_neg hmodifiers,
    normalizedKey_of_readable hkey]
  rfl

/-- The small form of the dotted I has two code units and no name. -/
theorem readChord_render_dotted {chord : Chord} (hkey : chord.key = dottedISmall) :
    readChord lowering chord.render = none := by
  have hspaceless : Spaceless dottedISmall := by
    simp [Spaceless, dottedISmall]
    decide
  have hnormalized : normalizedKey lowering dottedISmall = none := by
    rw [normalizedKey, trim_of_spaceless hspaceless, if_neg (by decide), lowering.dottedSmall]
    decide +kernel
  have hchord : Spaceless chord.key := hkey ▸ hspaceless
  obtain ⟨hrender, hrender_ne, hrender_length⟩ :=
    render_facts hchord (by rw [hkey]; decide) (by rw [hkey]; decide)
  rw [readChord_of_spaceless hrender hrender_ne hrender_length,
    segments_render (by rw [hkey]; decide) (.inr (by rw [hkey]; decide)), hkey, hnormalized]
  simp

end Reading

end PiDeck.Keymap
