import Mathlib
import PiDeck.History.Catalog

/-! What the storage quota of a terminal evicts: its oldest blocks, file by file, before the manifest
that no longer lists them is written. -/
namespace PiDeck.History
open PiDeck.Storage

/-- The blocks that the loop of `enforce_terminal_quota` drops, and those it keeps. -/
def evictedOf : List ArchiveBlock → ℕ → List ArchiveBlock × List ArchiveBlock
  | block :: next :: blocks, bytes =>
    if maxTerminalBytes < bytes then
      let rest := evictedOf (next :: blocks) (bytes - block.storedBytes)
      (block :: rest.1, rest.2)
    else ([], block :: next :: blocks)
  | blocks, _ => ([], blocks)

theorem evictedOf_append (blocks : List ArchiveBlock) (bytes : ℕ) :
    (evictedOf blocks bytes).1 ++ (evictedOf blocks bytes).2 = blocks := by
  induction blocks generalizing bytes with
  | nil => rfl
  | cons block blocks ih =>
    cases blocks with
    | nil => rfl
    | cons next blocks =>
      simp only [evictedOf]
      split
      · rw [List.cons_append, ih]
      · rfl

theorem evictedOf_kept_ne {blocks : List ArchiveBlock} (hne : blocks ≠ []) (bytes : ℕ) :
    (evictedOf blocks bytes).2 ≠ [] := by
  induction blocks generalizing bytes with
  | nil => exact absurd rfl hne
  | cons block blocks ih =>
    cases blocks with
    | nil => simp [evictedOf]
    | cons next blocks =>
      simp only [evictedOf]
      split
      · exact ih (by simp) _
      · simp

/-- The loop is entered only over the quota, and with more than one block. -/
def OverQuota (blocks : List ArchiveBlock) : Prop :=
  maxTerminalBytes < storedBytesOf blocks ∧ 1 < blocks.length

theorem evictedOf_eq_nil {blocks : List ArchiveBlock} :
    (evictedOf blocks (storedBytesOf blocks)).1 = [] ↔ ¬OverQuota blocks := by
  match blocks with
  | [] => simp [evictedOf, OverQuota]
  | [block] => simp [evictedOf, OverQuota]
  | block :: next :: blocks =>
    by_cases hover : maxTerminalBytes < storedBytesOf (block :: next :: blocks)
    · simp [evictedOf, OverQuota, hover]
    · simp [evictedOf, OverQuota, hover]

/-- The directory without the files of some blocks. -/
def Directory.without (d : Directory) (blocks : List ArchiveBlock) : Directory :=
  { d with files := blocks.foldl (fun files block => Function.update files block.file none) d.files }

@[simp] theorem Directory.without_nil (d : Directory) : d.without [] = d := rfl

theorem Directory.without_cons (d : Directory) (block : ArchiveBlock)
    (blocks : List ArchiveBlock) :
    d.without (block :: blocks) =
      Directory.without { d with files := Function.update d.files block.file none } blocks := rfl

theorem Directory.without_files_of_ne {d : Directory} {blocks : List ArchiveBlock} {file : String}
    (h : ∀ block ∈ blocks, file ≠ block.file) : (d.without blocks).files file = d.files file := by
  induction blocks generalizing d with
  | nil => rfl
  | cons block blocks ih =>
    rw [without_cons, ih fun b hb => h b (List.mem_cons_of_mem _ hb)]
    exact Function.update_of_ne (h block List.mem_cons_self) ..

theorem Directory.without_files_of_mem {d : Directory} {blocks : List ArchiveBlock}
    {block : ArchiveBlock} (h : block ∈ blocks) : (d.without blocks).files block.file = none := by
  have stays : ∀ (bs : List ArchiveBlock) (d : Directory), d.files block.file = none →
      (d.without bs).files block.file = none := by
    intro bs
    induction bs with
    | nil => exact fun d hd => hd
    | cons b bs ih =>
      intro d hd
      rw [without_cons]
      refine ih _ ?_
      by_cases hb : block.file = b.file
      · simp [hb]
      · simpa [Function.update_of_ne hb] using hd
  induction blocks generalizing d with
  | nil => cases h
  | cons b blocks ih =>
    rw [without_cons]
    obtain rfl | hmem := List.mem_cons.mp h
    · exact stays blocks _ (by simp)
    · exact ih hmem

section Meets
variable {faults : Prop} {crash : Directory → Prop} {d : Directory} {state : ArchiveState}
  {ok : Unit → ArchiveState → Directory → Prop}
  {err : HistoryError → ArchiveState → Directory → Prop}

def ArchiveState.withBlocks (state : ArchiveState) (blocks : List ArchiveBlock) : ArchiveState :=
  { state with manifest := { state.manifest with blocks := blocks } }

theorem ArchiveState.withBlocks_self {blocks : List ArchiveBlock}
    (h : state.manifest.blocks = blocks) : state.withBlocks blocks = state := by
  subst h
  rfl

theorem meets_removeBlockFile {S : Type} {s : S} {ok : Unit → S → Directory → Prop}
    {err : HistoryError → S → Directory → Prop} (file : String)
    (hcrash : crash d) (hok : ok () s { d with files := Function.update d.files file none })
    (herr : faults → err .io s d) :
    Action.Meets faults crash (removeBlockFile file) s d ok err := by
  simp only [removeBlockFile, Action.meets_bind, Action.meets_inspect]
  cases hfile : d.files file with
  | none =>
    have hsame : Function.update d.files file none = d.files := by
      rw [← hfile, Function.update_eq_self]
    rw [hsame] at hok
    simpa using hok
  | some bytes =>
    simp only [Option.isSome_some, if_true, Action.meets_step]
    exact ⟨hcrash, hok, herr⟩

/-- The loop of the quota. Each block it drops is gone from the directory before the next. -/
theorem meets_evictBlocks {blocks : List ArchiveBlock} {bytes : ℕ}
    (hcrash : ∀ gone kept, blocks = gone ++ kept → crash (d.without gone))
    (herr : faults → ∀ gone kept gone', blocks = gone ++ kept →
      err .io (state.withBlocks kept) (d.without gone'))
    (hblocks : state.manifest.blocks = blocks)
    (hok : ok () (state.withBlocks (evictedOf blocks bytes).2)
      (d.without (evictedOf blocks bytes).1)) :
    Action.Meets faults crash (evictBlocks blocks bytes) state d ok err := by
  induction blocks generalizing bytes d state with
  | nil => simpa [evictBlocks, evictedOf, ArchiveState.withBlocks_self hblocks] using hok
  | cons block blocks ih =>
    cases blocks with
    | nil => simpa [evictBlocks, evictedOf, ArchiveState.withBlocks_self hblocks] using hok
    | cons next blocks =>
      by_cases hover : maxTerminalBytes < bytes
      · simp only [evictedOf, if_pos hover] at hok
        simp only [evictBlocks, if_pos hover, Action.meets_bind, Action.meets_modifyState]
        refine meets_removeBlockFile _ (hcrash [] _ rfl) ?_
          fun hf => herr hf [block] _ [] rfl
        refine ih (fun gone kept hsplit => ?_) (fun hf gone kept gone' hsplit => ?_) rfl hok
        · exact hcrash (block :: gone) kept (by rw [hsplit, List.cons_append])
        · exact herr hf (block :: gone) kept (block :: gone') (by rw [hsplit, List.cons_append])
      · simp only [evictedOf, if_neg hover] at hok
        simpa [evictBlocks, hover, ArchiveState.withBlocks_self hblocks] using hok

theorem meets_enforceTerminalQuota
    (hcrash : ∀ gone kept, state.manifest.blocks = gone ++ kept → crash (d.without gone))
    (hkept : ∀ gone kept, evictedOf state.manifest.blocks (storedBytesOf state.manifest.blocks) =
      (gone, kept) → crash ((d.without gone).withIndexTemporary (state.withBlocks kept).manifest) ∧
      ok () (state.withBlocks kept) ((d.without gone).withIndex (state.withBlocks kept).manifest) ∧
      (faults → err .io (state.withBlocks kept)
        ((d.without gone).withIndexTemporary (state.withBlocks kept).manifest)))
    (herr : faults → ∀ gone kept gone', state.manifest.blocks = gone ++ kept →
      err .io (state.withBlocks kept) (d.without gone')) :
    Action.Meets faults crash enforceTerminalQuota state d ok err := by
  simp only [enforceTerminalQuota, Action.meets_bind, Action.meets_getState]
  refine meets_evictBlocks hcrash herr rfl ?_
  have hsplit := evictedOf_append state.manifest.blocks (storedBytesOf state.manifest.blocks)
  obtain ⟨htemporary, hdone, hfailed⟩ := hkept _ _ rfl
  simp only [writeManifest, Action.meets_bind, Action.meets_getState, meets_writeManifestValue]
  exact ⟨hcrash _ _ hsplit.symm, ⟨htemporary, hdone, hfailed⟩, fun hf => herr hf _ _ _ hsplit.symm⟩

/-- An enforcement that evicts a block can stop right after it has deleted the first file. -/
theorem crash_of_enforceTerminalQuota
    (h : Action.Meets faults crash enforceTerminalQuota state d ok err) {block : ArchiveBlock}
    {blocks : List ArchiveBlock} (hblocks : state.manifest.blocks = block :: blocks)
    (hover : OverQuota state.manifest.blocks) (hfile : d.files block.file ≠ none) :
    crash (d.without [block]) := by
  -- Whatever is left of the loop, some write comes next.
  have next : ∀ (blocks : List ArchiveBlock) (bytes : ℕ) (state : ArchiveState) (d : Directory),
      Action.Meets faults crash (evictBlocks blocks bytes) state d
        (fun _ s d => Action.Meets faults crash writeManifest s d ok err) err → crash d := by
    intro blocks
    induction blocks with
    | nil =>
      intro bytes state d h
      simp only [evictBlocks, Action.meets_pure, writeManifest, Action.meets_bind,
        Action.meets_getState, meets_writeManifestValue] at h
      exact h.1
    | cons block blocks ih =>
      intro bytes state d h
      cases blocks with
      | nil =>
        simp only [evictBlocks, Action.meets_pure, writeManifest, Action.meets_bind,
          Action.meets_getState, meets_writeManifestValue] at h
        exact h.1
      | cons next blocks =>
        by_cases hover : maxTerminalBytes < bytes
        · simp only [evictBlocks, if_pos hover, Action.meets_bind, Action.meets_modifyState,
            removeBlockFile, Action.meets_inspect] at h
          cases hfile : d.files block.file with
          | none =>
            simp only [hfile, Option.isSome_none, Bool.false_eq_true, if_false,
              Action.meets_pure] at h
            exact ih _ _ _ h
          | some bytes =>
            simp only [hfile, Option.isSome_some, if_true, Action.meets_step] at h
            exact h.1
        · simp only [evictBlocks, if_neg hover, Action.meets_pure, writeManifest,
            Action.meets_bind, Action.meets_getState, meets_writeManifestValue] at h
          exact h.1
  obtain ⟨hbytes, hlength⟩ := hover
  simp only [enforceTerminalQuota, Action.meets_bind, Action.meets_getState] at h
  rw [hblocks] at h hbytes hlength
  cases blocks with
  | nil => simp at hlength
  | cons second blocks =>
    have hfound : (d.files block.file).isSome = true := Option.isSome_iff_ne_none.mpr hfile
    simp only [evictBlocks, if_pos hbytes, Action.meets_bind, Action.meets_modifyState,
      removeBlockFile, Action.meets_inspect, hfound, if_true, Action.meets_step] at h
    exact next _ _ _ _ h.2.1

end Meets
end PiDeck.History
