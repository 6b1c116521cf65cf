import Mathlib
import PiDeck.History.Recovery

/-! Opening an active segment that was cut anywhere. Its complete records are found and the rest is
cut off, unless the cut went through the magic at its front. -/
namespace PiDeck.History
open PiDeck.Storage

variable {S : Type} {s : S} {d : Directory} {records more : List HistoryRecord} {cut block : ℕ}

/-- The contents of an active segment to which the records were written. -/
def activeFile (records : List HistoryRecord) : Bytes :=
  activeMagic ++ records.flatMap encodeActive

/-- The records that lie completely in the first `room` bytes after the magic. -/
def completeWithin : ℕ → List HistoryRecord → List HistoryRecord
  | _, [] => []
  | room, record :: records =>
    if (encodeActive record).length ≤ room then
      record :: completeWithin (room - (encodeActive record).length) records
    else []

/-- Opening a segment with these contents succeeds, finds the records, and leaves `active`. -/
def Opens (d : Directory) (block : ℕ) (contents : Bytes) (found : List HistoryRecord)
    (active : Bytes) : Prop :=
  (openActiveSegment block).run () [] (d.withActive contents) =
    (d.withActive active, some (.ok found, ()))

/-- A segment cut to `cut` bytes opens with exactly the complete records past the last block, and the
records that are appended to what is left are read again. -/
def TailRecovered (d : Directory) (block : ℕ) (records : List HistoryRecord) (cut : ℕ) : Prop :=
  let kept := completeWithin (cut - activeMagic.length) records
  Opens d block ((activeFile records).take cut)
    (kept.filter fun record => decide (block < record.sequence)) (activeFile kept) ∧
  ∀ more, Ordered (lastSequenceOf 0 kept) more →
    Opens d block (activeFile kept ++ more.flatMap encodeActive)
      ((kept ++ more).filter fun record => decide (block < record.sequence))
      (activeFile (kept ++ more))

theorem prefix_of_completeWithin (room : ℕ) (records : List HistoryRecord) :
    completeWithin room records <+: records := by
  induction records generalizing room with
  | nil => exact List.prefix_rfl
  | cons record records ih =>
    rw [completeWithin]
    split_ifs
    · exact List.cons_prefix_cons.mpr ⟨rfl, ih _⟩
    · exact List.nil_prefix

/-- What is left of a cut is the complete records and a torn one. -/
theorem take_flatMap_encodeActive {start : ℕ} (h : Ordered start records) (room : ℕ) :
    ∃ torn, Torn torn ∧ (records.flatMap encodeActive).take room =
      (completeWithin room records).flatMap encodeActive ++ torn := by
  induction records generalizing start room with
  | nil => exact ⟨[], torn_nil, by simp [completeWithin]⟩
  | cons record records ih =>
    obtain ⟨-, hvalid, hrest⟩ := h
    rw [completeWithin, List.flatMap_cons]
    split_ifs with hfits
    · obtain ⟨torn, htorn, htake⟩ := ih hrest (room - (encodeActive record).length)
      refine ⟨torn, htorn, ?_⟩
      rw [List.take_append, List.take_of_length_le hfits, htake, List.flatMap_cons,
        List.append_assoc]
    · push Not at hfits
      refine ⟨(encodeActive record).take room, ⟨record, hvalid, List.take_prefix _ _, ?_⟩, ?_⟩
      · intro hwhole
        have hlength := congrArg List.length hwhole
        rw [List.length_take] at hlength
        omega
      · rw [List.take_append_of_le_length hfits.le]
        rfl

/-- A segment that is not empty is recovered. -/
theorem run_openActiveSegment {contents : Bytes} (hne : contents ≠ []) :
    (openActiveSegment block).run s [] (d.withActive contents) =
      (recoverActive contents block).run s [] (d.withActive contents) := by
  unfold openActiveSegment
  rw [Action.run_clean_bind _ (Action.run_clean_step _ _)]
  rw [Action.run_clean_bind _ (Action.run_clean_inspect _)]
  have hactive : (d.withActive contents).active.getD [] = contents := rfl
  simp only [hactive, Option.getD_some, if_neg hne]
  rfl

/-- A segment of complete records and a rest that recovery stops at. -/
theorem opens_scanned {rest : Bytes}
    (hscan : scanActive (activeFile records ++ rest).length 0 (records.flatMap encodeActive ++ rest) =
      (records, rest)) :
    Opens d block (activeFile records ++ rest)
      (records.filter fun record => decide (block < record.sequence)) (activeFile records) := by
  have hne : activeFile records ++ rest ≠ [] := by simp [activeFile, activeMagic, asciiBytes]
  have hdrop : (activeFile records ++ rest).drop activeMagic.length =
      records.flatMap encodeActive ++ rest := by
    rw [activeFile, List.append_assoc, List.drop_left]
  have hheader : ¬((activeFile records ++ rest).length < activeMagic.length ∨
      (activeFile records ++ rest).take activeMagic.length ≠ activeMagic) := by
    rw [activeFile, List.append_assoc, List.take_left, List.length_append]
    simp
  have hcut : (activeFile records ++ rest).take ((activeFile records ++ rest).length - rest.length) =
      activeFile records := by
    rw [List.length_append, Nat.add_sub_cancel, List.take_left]
  rw [Opens, run_openActiveSegment hne, recoverActive, attempt,
    Action.run_clean_bind _ (Action.run_clean_step _ _), if_neg hheader, hdrop, hscan]
  dsimp only
  by_cases hrest : rest = []
  · rw [if_pos hrest, hrest, List.append_nil]
    rfl
  · rw [if_neg hrest, Action.run_clean_bind _ (Action.run_clean_step _ _),
      Action.run_clean_bind _ (Action.run_clean_step _ _), hcut]
    rfl

theorem length_le_flatMap (records : List HistoryRecord) (rest : Bytes) :
    records.length ≤ (activeFile records ++ rest).length := by
  have hle := length_le_flatMap_encodeActive records
  simp only [activeFile, List.length_append]
  omega

/-- A segment of complete records and a torn one. -/
theorem opens_torn (h : Ordered 0 records) {torn : Bytes} (htorn : Torn torn) :
    Opens d block (activeFile records ++ torn)
      (records.filter fun record => decide (block < record.sequence)) (activeFile records) :=
  opens_scanned (scanActive_append h htorn (length_le_flatMap records torn))

theorem opens_empty : Opens d block [] [] (activeFile []) := by
  unfold Opens openActiveSegment
  rw [Action.run_clean_bind _ (Action.run_clean_step _ _),
    Action.run_clean_bind _ (Action.run_clean_inspect _)]
  rfl

/-- Nothing is found behind a magic that was cut. -/
theorem not_opens_headless {contents : Bytes} {found : List HistoryRecord} {active : Bytes}
    (hne : contents ≠ []) (hshort : contents.length < activeMagic.length) :
    ¬Opens d block contents found active := by
  intro hopens
  rw [Opens, run_openActiveSegment hne, recoverActive, attempt,
    Action.run_clean_bind _ (Action.run_clean_step _ _), if_pos (.inl hshort)] at hopens
  cases hopens

theorem Ordered.of_prefix {start : ℕ} {records kept : List HistoryRecord} (h : Ordered start records)
    (hkept : kept <+: records) : Ordered start kept := by
  obtain ⟨rest, rfl⟩ := hkept
  exact (ordered_append.mp h).1

/-- The active segment of ordered records is recovered from a cut exactly if the cut leaves the magic
whole or nothing at all. -/
theorem torn_tail_recovered (h : Ordered 0 records) :
    TailRecovered d block records cut ↔ cut = 0 ∨ activeMagic.length ≤ cut := by
  have hkept : Ordered 0 (completeWithin (cut - activeMagic.length) records) :=
    h.of_prefix (prefix_of_completeWithin _ _)
  constructor
  · rintro ⟨hopens, -⟩
    by_contra hcut
    push Not at hcut
    obtain ⟨hpos, hshort⟩ := hcut
    have hlength : ((activeFile records).take cut).length = cut := by
      rw [List.length_take, activeFile, List.length_append]
      omega
    refine not_opens_headless (fun hnil => ?_) (hlength.trans_lt hshort) hopens
    rw [hnil] at hlength
    exact hpos hlength.symm
  · intro hcut
    refine ⟨?_, fun more hmore => ?_⟩
    · obtain rfl | hmagic := hcut
      · have hnone : completeWithin (0 - activeMagic.length) records = [] := by
          cases records with
          | nil => rfl
          | cons record records =>
            rw [completeWithin, if_neg]
            rw [length_encodeActive]
            simp [activeRecordHeaderBytes]
        rw [hnone, List.take_zero]
        exact opens_empty
      · obtain ⟨torn, htorn, htake⟩ := take_flatMap_encodeActive h (cut - activeMagic.length)
        have hcontents : (activeFile records).take cut =
            activeFile (completeWithin (cut - activeMagic.length) records) ++ torn := by
          rw [activeFile, List.take_append, List.take_of_length_le hmagic, htake, activeFile,
            List.append_assoc]
        rw [hcontents]
        exact opens_torn hkept htorn
    · have hall : Ordered 0 (completeWithin (cut - activeMagic.length) records ++ more) :=
        ordered_append.mpr ⟨hkept, hmore⟩
      have happended : activeFile (completeWithin (cut - activeMagic.length) records) ++
          more.flatMap encodeActive =
            activeFile (completeWithin (cut - activeMagic.length) records ++ more) ++ [] := by
        simp [activeFile]
      rw [happended]
      exact opens_torn hall torn_nil

theorem torn_tail_recovered_one : TailRecovered emptyDirectory 0 [⟨1, [7]⟩] 20 ↔
    20 = 0 ∨ activeMagic.length ≤ 20 :=
  torn_tail_recovered ⟨by decide, ⟨by decide, by decide, by decide⟩, trivial⟩

/-- A cut through the magic. -/
theorem headless_not_recovered : ¬∀ (d : Directory) (block : ℕ) (records : List HistoryRecord)
    (cut : ℕ), Ordered 0 records → TailRecovered d block records cut := by
  intro h
  obtain ⟨hopens, -⟩ := h emptyDirectory 0 [⟨1, [7]⟩] 3
    ⟨by decide, ⟨by decide, by decide, by decide⟩, trivial⟩
  exact not_opens_headless (by decide) (by decide) hopens

end PiDeck.History
