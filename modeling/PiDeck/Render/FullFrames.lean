import Mathlib
import PiDeck.Render.Presentation

/-! A full update that was asked for is posted. Until then it is remembered: in the entry, while
updates are held back, or in the update that was put off. -/
namespace PiDeck.Render
open PiDeck.Transition

namespace RuntimeEntry
variable {s : RuntimeEntry} {command : ℕ} {forceFull : Bool} {answer : CoreAnswer}

/-- What holds between any two calls, also before a call has decided what to post. -/
structure Shape (s : RuntimeEntry) : Prop where
  kept : s.builder.Kept
  /-- An update is put off only while nothing else holds updates back. -/
  pending : ∀ p, s.pendingUpdate = some p → s.visible = true ∧ s.sync ≠ .suppressing ∧
    (p.armed = false → s.builder.hasFreeSlot = false)
  timer : s.syncTimer ≠ none ↔ s.sync = .suppressing
  requested_le : ∀ count, s.requested = some count → count ≤ s.posted.length

structure Inv (s : RuntimeEntry) : Prop extends Shape s where
  clear : s.visible = true → s.sync ≠ .suppressing → s.pendingCommand = none ∧ s.pendingFull = false
  hidden : s.visible = false → s.pendingCommand ≠ none ∧ s.pendingFull = true
  suppressing : s.sync = .suppressing → s.pendingCommand ≠ none
  owed : s.FullPosted ∨ s.pendingFull = true ∨ ∃ p, s.pendingUpdate = some p ∧ p.forceFull = true
  current : s.Current ∨ s.pendingCommand ≠ none ∨ s.pendingUpdate ≠ none

/-! ### Posting -/

/-- What was posted stays posted, and a full update that is posted now is one. -/
theorem FullPosted.concat {next : RuntimeEntry} {update : PostedUpdate}
    (hle : ∀ count, s.requested = some count → count ≤ s.posted.length)
    (hposted : next.posted = s.posted ++ [update]) (hrequested : next.requested = s.requested)
    (h : s.FullPosted ∨ update.full = true) : next.FullPosted := by
  intro count hcount
  rw [hrequested] at hcount
  rw [hposted, List.drop_append_of_le_length (hle count hcount)]
  obtain h | h := h
  · obtain ⟨earlier, hmem, hfull⟩ := h count hcount
    exact ⟨earlier, List.mem_append_left _ hmem, hfull⟩
  · exact ⟨update, List.mem_append_right _ (List.mem_singleton_self _), h⟩

theorem Shape.emitted (h : s.Shape) (command : ℕ) (answer : CoreAnswer)
    (hfree : s.builder.hasFreeSlot = true) (hvisible : s.visible = true) (hsync : s.sync ≠ .suppressing) (hclear : s.pendingCommand = none ∧ s.pendingFull = false)
    (howed : s.FullPosted ∨ forceFull = true ∨ ∃ p, s.pendingUpdate = some p ∧ p.forceFull = true) :
    (s.emitUpdate command forceFull answer).1.Inv := by
  rw [emitUpdate, if_pos hfree]
  have hpending (p : PendingUpdate) (hp : s.pendingUpdate = some p) : p.armed = true := by
    rw [← Bool.not_eq_false]
    intro harmed
    rw [(h.pending p hp).2.2 harmed] at hfree
    cases hfree
  refine ⟨⟨h.kept.tryBuild answer.frame, ?_, h.timer, ?_⟩, fun _ _ => hclear, ?_, ?_, ?_, ?_⟩
  · intro p hp
    refine ⟨hvisible, hsync, fun harmed => ?_⟩
    rw [hpending p hp] at harmed
    cases harmed
  · intro count hcount
    rw [List.length_append]
    exact Nat.le_add_right_of_le (h.requested_le count hcount)
  · exact fun hhidden => absurd hvisible (by rw [show s.visible = false from hhidden]; simp)
  · exact fun hstill => absurd hstill hsync
  · obtain hposted | hforce | hpend := howed
    · exact .inl (FullPosted.concat h.requested_le rfl rfl (.inl hposted))
    · exact .inl (FullPosted.concat h.requested_le rfl rfl (.inr (by simp [hforce])))
    · exact .inr (.inr hpend)
  · refine .inl ?_
    simp [Current]

/-- The update that waits for its timer, which is full where a full one is still to be posted. -/
theorem Shape.armed (h : s.Shape) (hvisible : s.visible = true) (hsync : s.sync ≠ .suppressing)
    (hclear : s.pendingCommand = none ∧ s.pendingFull = false)
    (howed : s.FullPosted ∨ forceFull = true) :
    { s with pendingUpdate := some ⟨command, forceFull, true⟩ }.Inv := by
  refine ⟨⟨h.kept, ?_, h.timer, h.requested_le⟩, fun _ _ => hclear, ?_, ?_, ?_, ?_⟩
  · rintro p ⟨⟩
    exact ⟨hvisible, hsync, by simp⟩
  · exact fun hhidden => absurd hvisible (by rw [show s.visible = false from hhidden]; simp)
  · exact fun hstill => absurd hstill hsync
  · exact howed.imp_right fun hforce => .inr ⟨_, rfl, hforce⟩
  · exact .inr (.inr (by simp))

theorem Shape.scheduled (h : s.Shape) (hvisible : s.visible = true) (hsync : s.sync ≠ .suppressing)
    (hclear : s.pendingCommand = none ∧ s.pendingFull = false)
    (howed : s.FullPosted ∨ forceFull = true ∨ ∃ p, s.pendingUpdate = some p ∧ p.forceFull = true) :
    (s.scheduleUpdate command forceFull).Inv := by
  rw [scheduleUpdate]
  cases hpending : s.pendingUpdate with
  | none => exact h.armed hvisible hsync hclear (by simpa [hpending] using howed)
  | some pending =>
    refine h.armed hvisible hsync hclear (howed.imp_right fun hfull => ?_)
    obtain hforce | ⟨p, hp, hfull⟩ := hfull
    · simp [hforce]
    · obtain rfl := Option.some.inj (hpending.symm.trans hp)
      simp [hfull]

theorem Shape.emitOrSchedule (h : s.Shape) (hvisible : s.visible = true) (hsync : s.sync ≠ .suppressing)
    (hclear : s.pendingCommand = none ∧ s.pendingFull = false)
    (howed : s.FullPosted ∨ forceFull = true ∨ ∃ p, s.pendingUpdate = some p ∧ p.forceFull = true) :
    (s.emitOrSchedule command forceFull answer).Inv := by
  cases hfree : s.builder.hasFreeSlot with
  | true =>
    have hemitted := h.emitted command answer hfree hvisible hsync hclear howed
    have htrue : (s.emitUpdate command forceFull answer).2 = true := by simp [emitUpdate, hfree]
    rw [RuntimeEntry.emitOrSchedule]
    simp only [htrue, if_true]
    exact hemitted
  | false =>
    have hnone : s.emitUpdate command forceFull answer = (s, false) := if_neg (by simp [hfree])
    rw [RuntimeEntry.emitOrSchedule, hnone]
    exact h.scheduled hvisible hsync hclear howed

/-! ### Asking for an update -/

theorem Shape.requestPresentation (h : s.Shape)
    (howed : s.FullPosted ∨ forceFull = true ∨ s.pendingFull = true ∨
      ∃ p, s.pendingUpdate = some p ∧ p.forceFull = true)
    (hunharmed : s.visible = true → s.synchronized = true → forceFull = false →
      ∀ p, s.pendingUpdate = some p → p.forceFull = false) :
    (s.requestPresentation command forceFull answer).Inv := by
  rw [RuntimeEntry.requestPresentation]
  by_cases hvisible : s.visible = false
  · -- The terminal is hidden: whatever is posted next is full.
    rw [if_pos hvisible]
    have hnever : ¬s.visible = true := by simp [hvisible]
    by_cases hsynchronized : s.synchronized = true
    · rw [if_pos hsynchronized]
      by_cases hsync : s.sync = .inactive
      · rw [if_pos hsync]
        refine ⟨⟨h.kept, by simp [markSuppressed, cancelPendingUpdate, armSynchronizedTimeout], ?_,
          h.requested_le⟩, fun hshown => absurd hshown hnever, ?_, ?_, ?_, ?_⟩ <;>
          simp [markSuppressed, cancelPendingUpdate, armSynchronizedTimeout]
      · rw [if_neg hsync]
        refine ⟨⟨h.kept, by simp [markSuppressed, cancelPendingUpdate], h.timer, h.requested_le⟩,
          fun hshown => absurd hshown hnever, ?_, ?_, ?_, ?_⟩ <;>
          simp [markSuppressed, cancelPendingUpdate]
    · rw [if_neg hsynchronized]
      refine ⟨⟨h.kept, by simp [markSuppressed, cancelPendingUpdate], ?_, h.requested_le⟩,
        fun hshown => absurd hshown hnever, ?_, ?_, ?_, ?_⟩
      · by_cases hsync : s.sync = .inactive
        · have htimer := h.timer
          simp only [hsync, reduceCtorEq, iff_false, not_not] at htimer
          simp [hsync, htimer]
        · simp [hsync]
      all_goals simp [markSuppressed, cancelPendingUpdate]
  rw [if_neg hvisible]
  rw [Bool.not_eq_false] at hvisible
  have hnever : ¬s.visible = false := by simp [hvisible]
  by_cases hsynchronized : s.synchronized = true
  · -- The program draws a frame: a full update that waited is not given up.
    rw [if_pos hsynchronized]
    have hstill : s.FullPosted ∨ (s.pendingFull || forceFull) = true := by
      obtain hposted | hforce | hfull | ⟨p, hp, hfull⟩ := howed
      · exact .inl hposted
      · exact .inr (by simp [hforce])
      · exact .inr (by simp [hfull])
      · cases hforce : forceFull with
        | true => exact .inr (by simp)
        | false =>
          rw [hunharmed hvisible hsynchronized hforce p hp] at hfull
          cases hfull
    have howed' : s.FullPosted ∨ (s.pendingFull || forceFull) = true ∨
        ∃ p, (none : Option PendingUpdate) = some p ∧ p.forceFull = true :=
      hstill.imp_right .inl
    by_cases hsync : s.sync = .suppressing
    · rw [if_pos hsync]
      refine ⟨⟨h.kept, by simp [markSuppressed, cancelPendingUpdate], h.timer, h.requested_le⟩,
        fun _ hother => absurd hsync hother, fun hhidden => absurd hhidden hnever, ?_, howed', ?_⟩ <;>
        simp [markSuppressed]
    · rw [if_neg hsync]
      refine ⟨⟨h.kept, by simp [markSuppressed, cancelPendingUpdate], ?_, h.requested_le⟩,
        fun _ hother => absurd rfl hother, fun hhidden => absurd hhidden hnever, ?_, howed', ?_⟩ <;>
        simp [markSuppressed, cancelPendingUpdate, armSynchronizedTimeout]
  rw [if_neg hsynchronized]
  have hforced : s.FullPosted ∨ (s.pendingFull || forceFull) = true ∨
      ∃ p, s.pendingUpdate = some p ∧ p.forceFull = true := by
    obtain hposted | hforce | hfull | hpend := howed
    · exact .inl hposted
    · exact .inr (.inl (by simp [hforce]))
    · exact .inr (.inl (by simp [hfull]))
    · exact .inr (.inr hpend)
  by_cases hsync : s.sync = .suppressing
  · rw [if_pos hsync]
    refine Shape.emitOrSchedule ⟨h.kept, ?_, by simp, h.requested_le⟩ hvisible (by simp) ⟨rfl, rfl⟩ hforced
    intro p hp
    exact absurd hsync (h.pending p hp).2.1
  · rw [if_neg hsync]
    refine Shape.emitOrSchedule ⟨h.kept, ?_, ?_, h.requested_le⟩ hvisible (by simp) ⟨rfl, rfl⟩ hforced
    · intro p hp
      exact ⟨hvisible, by simp, (h.pending p hp).2.2⟩
    · have htimer := h.timer
      simp only [hsync, iff_false, not_not] at htimer
      simp [htimer]

/-! ### One step -/

theorem Shape.change (h : s.Shape) : (s.change answer).Shape :=
  ⟨h.kept, h.pending, h.timer, h.requested_le⟩

theorem Shape.cancelPendingUpdate (h : s.Shape) : s.cancelPendingUpdate.Shape :=
  ⟨h.kept, by simp [RuntimeEntry.cancelPendingUpdate], h.timer, h.requested_le⟩

theorem Shape.request (h : s.Shape) : s.request.Shape := by
  refine ⟨h.kept, h.pending, h.timer, ?_⟩
  rintro count ⟨⟩
  exact le_rfl

/-- A full update is asked for and remembered at once. -/
theorem Shape.requestFull (h : s.Shape) : (s.requestPresentation command true answer).Inv :=
  h.requestPresentation (.inr (.inl rfl)) (by simp)

theorem cancelPendingUpdate_of_none (h : s.pendingUpdate = none) : s.cancelPendingUpdate = s := by
  cases s
  simp_all [cancelPendingUpdate]

namespace Inv

theorem presentation (h : s.Inv) (hunharmed : s.visible = true → answer.synchronized = true →
    ∀ pending, s.pendingUpdate = some pending → pending.forceFull = false) :
    ((s.change answer).requestPresentation command false answer).Inv :=
  h.toShape.change.requestPresentation (h.owed.imp_right .inr) fun hvisible hsynchronized _ =>
    hunharmed hvisible hsynchronized

/-- The snapshot of a terminal whose update is held back anyway. -/
theorem unfitted (h : s.Inv) (hheld : s.visible = false ∨ s.sync = .suppressing) :
    (s.cancelPendingUpdate.change answer).Inv := by
  have hnone : s.pendingUpdate = none := by
    rw [Option.eq_none_iff_forall_not_mem]
    intro p hp
    obtain ⟨hvisible, hsync, -⟩ := h.pending p hp
    obtain hhidden | hsuppressing := hheld
    · rw [hvisible] at hhidden
      cases hhidden
    · exact hsync hsuppressing
  rw [cancelPendingUpdate_of_none hnone]
  refine ⟨h.toShape.change, h.clear, h.hidden, h.suppressing, h.owed, .inr (.inl ?_)⟩
  obtain hhidden | hsuppressing := hheld
  · exact (h.hidden hhidden).1
  · exact h.suppressing hsuppressing

/-- A lease came back while no update waited for it, or it was refused. -/
theorem reclaimed (h : s.Inv) {lease : Lease} (hstays : ∀ p, s.pendingUpdate = some p →
    p.armed = false → (s.builder.reclaim lease).2 = false) :
    ({ s with builder := (s.builder.reclaim lease).1 } : RuntimeEntry).Inv := by
  refine ⟨⟨h.kept.reclaim lease, ?_, h.timer, h.requested_le⟩, h.clear, h.hidden, h.suppressing, h.owed,
    h.current⟩
  intro p hp
  obtain ⟨hvisible, hsync, hslots⟩ := h.pending p hp
  refine ⟨hvisible, hsync, fun harmed => ?_⟩
  obtain ⟨-, hrefused⟩ | ⟨slot, -, -, -, -, haccepted⟩ := s.builder.reclaim_cases lease
  · rw [hrefused]
    exact hslots harmed
  · have hfalse := hstays p hp harmed
    rw [haccepted] at hfalse
    cases hfalse

/-- The update that waited for a slot goes on. -/
theorem rearmed (h : s.Inv) {lease : Lease} {pending : PendingUpdate}
    (hpending : s.pendingUpdate = some pending) :
    ({ s with
      builder := (s.builder.reclaim lease).1
      pendingUpdate := some { pending with armed := true } } : RuntimeEntry).Inv := by
  obtain ⟨hvisible, hsync, -⟩ := h.pending pending hpending
  refine ⟨⟨h.kept.reclaim lease, ?_, h.timer, h.requested_le⟩, h.clear, h.hidden, h.suppressing, ?_,
    .inr (.inr (by simp))⟩
  · rintro p ⟨⟩
    exact ⟨hvisible, hsync, by simp⟩
  · obtain hposted | hfull | ⟨p, hp, hforce⟩ := h.owed
    · exact .inl hposted
    · exact .inr (.inl hfull)
    · obtain rfl := Option.some.inj (hpending.symm.trans hp)
      exact .inr (.inr ⟨_, rfl, hforce⟩)

theorem recycle (h : s.Inv) (lease : Lease) : (s.recycle lease).Inv := by
  rw [RuntimeEntry.recycle]
  split
  · rename_i pending hpending
    obtain ⟨hvisible, hsync, -⟩ := h.pending pending hpending
    split
    · exact h.rearmed hpending
    · rename_i hstays
      refine h.reclaimed fun p hp harmed => ?_
      obtain rfl := Option.some.inj (hpending.symm.trans hp)
      rw [← Bool.not_eq_true]
      exact fun haccepted => hstays ⟨haccepted, harmed, hvisible, hsync⟩
  · rename_i hnone
    refine h.reclaimed fun p hp _ => ?_
    rw [hnone] at hp
    cases hp

theorem setPresentationState (h : s.Inv) (command : ℕ) (visible focused : Bool)
    (answer : CoreAnswer) : (s.setPresentationState command visible focused answer).Inv := by
  rw [RuntimeEntry.setPresentationState]
  split
  · exact h
  split
  · rename_i hhidden
    refine ⟨⟨h.kept, by simp [RuntimeEntry.cancelPendingUpdate], h.timer, h.requested_le⟩, ?_, ?_, ?_,
      ?_, ?_⟩
    · exact fun hshown => absurd hshown (by simp [RuntimeEntry.cancelPendingUpdate, hhidden])
    · exact fun _ => ⟨by simp, rfl⟩
    · exact fun _ => by simp
    · exact .inr (.inl rfl)
    · exact .inr (.inl (by simp))
  rename_i hshown
  rw [Bool.not_eq_false] at hshown
  subst hshown
  split
  · -- A hidden terminal had put off no update.
    rename_i hwas
    refine Shape.requestFull ⟨h.kept, ?_, h.timer, h.requested_le⟩
    intro p hp
    rw [(h.pending p hp).1] at hwas
    cases hwas
  · rename_i hwas
    rw [Bool.not_eq_false] at hwas
    refine ⟨⟨h.kept, fun p hp => ⟨rfl, (h.pending p hp).2⟩, h.timer, h.requested_le⟩,
      fun _ => h.clear hwas, by simp, h.suppressing, h.owed, h.current⟩

theorem process (h : s.Inv) (sequence : ℕ) (type : TerminalWorkerCommand)
    (hunharmed : s.Unharmed (.command sequence type answer)) :
    (s.process sequence answer type).Inv := by
  cases type with
  | writeBytes | writeReplayBytes | setSelection | clearSelection | selectAll | selectWord
  | selectLine | scroll | scrollToBottom => exact h.presentation hunharmed
  | resetAndWriteBytes => exact h.toShape.change.request.requestFull
  | restoreSnapshot outcome =>
    cases outcome with
    | restored => exact h.toShape.cancelPendingUpdate.change.request.requestFull
    | undecoded =>
      have hsame := cancelPendingUpdate_of_none hunharmed
      rw [RuntimeEntry.process, hsame]
      exact h
    | unfitted => exact h.unfitted hunharmed
  | recycleRenderUpdate lease => exact h.recycle lease
  | resize | setTheme => exact h.toShape.cancelPendingUpdate.change.request.requestFull
  | setPresentationState visible focused => exact h.setPresentationState sequence visible focused answer
  | requestFullFrame => exact h.toShape.request.requestFull
  | setFontMetrics | key | paste | text | mouse | viewportPointToScreen | screenPointToViewport =>
    exact h

theorem synchronizedTimeout (h : s.Inv) (htimer : s.syncTimer = some command) :
    (s.synchronizedTimeout command answer).Inv := by
  have hsync : s.sync = .suppressing := h.timer.mp (by simp [htimer])
  have hnone (p : PendingUpdate) : s.pendingUpdate ≠ some p := fun hp => (h.pending p hp).2.1 hsync
  rw [RuntimeEntry.synchronizedTimeout]
  simp only [hsync, ne_eq, not_true_eq_false, if_false]
  split
  · rename_i hhidden
    refine ⟨⟨h.kept, fun p hp => absurd hp (hnone p), by simp, h.requested_le⟩, ?_, ?_, ?_, ?_, ?_⟩
    · exact fun hshown => absurd hshown (by simp [hhidden])
    · exact fun _ => ⟨(h.hidden hhidden).1, rfl⟩
    · simp
    · exact .inr (.inl rfl)
    · exact .inr (.inl (h.hidden hhidden).1)
  · rename_i hvisible
    rw [Bool.not_eq_false] at hvisible
    refine Shape.emitOrSchedule ⟨h.kept, fun p hp => absurd hp (hnone p), by simp, h.requested_le⟩
      hvisible (by simp) ⟨rfl, rfl⟩ h.owed

theorem updateTimeout (h : s.Inv) {pending : PendingUpdate} (hpending : s.pendingUpdate = some pending) :
    (s.updateTimeout pending answer).Inv := by
  obtain ⟨hvisible, hsync, -⟩ := h.pending pending hpending
  have hclear := h.clear hvisible hsync
  have howed : s.FullPosted ∨ pending.forceFull = true := by
    obtain hposted | hfull | ⟨p, hp, hforce⟩ := h.owed
    · exact .inl hposted
    · rw [hclear.2] at hfull
      cases hfull
    · obtain rfl := Option.some.inj (hpending.symm.trans hp)
      exact .inr hforce
  have htaken : ({ s with pendingUpdate := none } : RuntimeEntry).Shape :=
    h.toShape.cancelPendingUpdate
  rw [RuntimeEntry.updateTimeout, if_neg (by simp [hvisible, hsync])]
  cases hfree : s.builder.hasFreeSlot with
  | true =>
    have hemitted := htaken.emitted pending.command answer hfree hvisible hsync hclear
      (howed.imp_right .inl)
    have htrue : (emitUpdate { s with pendingUpdate := none } pending.command pending.forceFull
        answer).2 = true := by simp [emitUpdate, hfree]
    simp only [htrue, if_true]
    exact hemitted
  | false =>
    have hnone : emitUpdate { s with pendingUpdate := none } pending.command pending.forceFull
        answer = ({ s with pendingUpdate := none }, false) := if_neg (by simp [hfree])
    rw [hnone]
    refine ⟨⟨h.kept, ?_, h.timer, h.requested_le⟩, h.clear, h.hidden, h.suppressing,
      howed.imp_right fun hforce => .inr ⟨_, rfl, hforce⟩, .inr (.inr (by simp))⟩
    rintro p ⟨⟩
    exact ⟨hvisible, hsync, fun _ => hfree⟩

theorem trimRenderBuffers (h : s.Inv) (idle : Bool) (hnone : s.pendingUpdate = none) :
    ({ s with builder := s.builder.trimIdle idle } : RuntimeEntry).Inv := by
  refine ⟨⟨h.kept.trimIdle idle, ?_, h.timer, h.requested_le⟩, h.clear, h.hidden, h.suppressing, h.owed,
    h.current⟩
  intro p hp
  rw [show s.pendingUpdate = some p from hp] at hnone
  cases hnone

theorem next {action : RuntimeAction} {t : RuntimeEntry} (h : s.Inv) (hunharmed : s.Unharmed action)
    (hnext : s.next action = some t) : t.Inv := by
  cases action with
  | command sequence type answer =>
    obtain rfl := Option.some.inj hnext
    exact h.process sequence type hunharmed
  | synchronizedTimeout answer =>
    obtain ⟨command, htimer, rfl⟩ := Option.map_eq_some_iff.mp hnext
    exact h.synchronizedTimeout htimer
  | updateTimeout answer =>
    rw [RuntimeEntry.next] at hnext
    cases hpending : s.pendingUpdate with
    | none => simp [hpending] at hnext
    | some pending =>
      simp only [hpending] at hnext
      split at hnext
      · obtain rfl := Option.some.inj hnext
        exact h.updateTimeout hpending
      · cases hnext
  | trimRenderBuffers idle =>
    rw [RuntimeEntry.next] at hnext
    split at hnext
    · obtain rfl := Option.some.inj hnext
      exact h
    · rename_i hidle
      obtain rfl := Option.some.inj hnext
      refine h.trimRenderBuffers idle ?_
      rw [not_or] at hidle
      simpa using hidle.1

theorem create (visible focused : Bool) (answer : CoreAnswer) :
    (RuntimeEntry.create visible focused answer).Inv := by
  have hkept := Builder.Kept.create 3
  cases visible with
  | false =>
    refine ⟨⟨hkept, ?_, ?_, ?_⟩, ?_, ?_, ?_, ?_, ?_⟩ <;> simp [RuntimeEntry.create]
  | true =>
    rw [RuntimeEntry.create, if_pos rfl]
    refine Shape.emitOrSchedule ⟨hkept, ?_, ?_, ?_⟩ rfl ?_ ?_ (.inl ?_) <;> simp [FullPosted]

theorem run {visible focused : Bool} {first : CoreAnswer} {actions : List RuntimeAction}
    (h : machine.Path Unharmed (RuntimeEntry.create visible focused first) actions s) : s.Inv :=
  h.invariant (fun _ _ _ hinv hunharmed hnext => hinv.next hunharmed hnext) (create visible focused first)

end Inv

/-! ### Whole runs -/

/-- Where nothing is left to be done, the full update that was last asked for has been posted, and
the last update shows the core as it is. -/
theorem full_frames_posted {visible focused : Bool} {first : CoreAnswer} {actions : List RuntimeAction}
    (hrun : machine.Path Unharmed (RuntimeEntry.create visible focused first) actions s)
    (hquiet : s.Quiet) : s.FullPosted ∧ s.Current := by
  have h := Inv.run hrun
  have hsync : s.sync ≠ .suppressing := fun hsync => h.timer.mpr hsync hquiet.syncTimer
  obtain ⟨hcommand, hfull⟩ := h.clear hquiet.visible hsync
  have hnone : s.pendingUpdate = none := by
    rw [Option.eq_none_iff_forall_not_mem]
    intro p hp
    have hslots := (h.pending p hp).2.2 (hquiet.pendingUpdate p hp)
    obtain ⟨slot, hslot⟩ := List.exists_mem_of_ne_nil _ h.kept.slots_ne_nil
    have hfree : s.builder.hasFreeSlot = true := by
      refine Builder.hasFreeSlot_iff.mpr ⟨slot, hslot, ?_⟩
      rw [← Bool.not_eq_true]
      intro hflight
      obtain ⟨slotId, hget⟩ := List.mem_iff_getElem?.mp hslot
      have hmem := Builder.mem_leased.mpr ⟨slot, hget, hflight, rfl⟩
      rw [hquiet.slots] at hmem
      cases hmem
    rw [hslots] at hfree
    cases hfree
  constructor
  · refine h.owed.resolve_right ?_
    rintro (hstill | ⟨p, hp, -⟩)
    · rw [hfull] at hstill
      cases hstill
    · rw [hnone] at hp
      cases hp
  · refine h.current.resolve_right ?_
    rintro (hstill | hstill)
    · exact hstill hcommand
    · exact hstill hnone

def answerOf (synchronized : Bool) : CoreAnswer := ⟨synchronized, ⟨⟨1, 1, 1⟩, 1⟩, false⟩

/-- A terminal is resized while all slots are out; the update is put off, and posted as a full one when
the first slot comes back. -/
theorem full_frames_posted_resize : ∃ s, s.FullPosted ∧ s.Current ∧ s.posted.length = 4 ∧
    machine.Path Unharmed (create true true (answerOf false))
      [.command 1 .writeBytes (answerOf false), .command 2 .writeBytes (answerOf false),
        .command 3 .resize (answerOf false), .updateTimeout (answerOf false),
        .command 4 (.recycleRenderUpdate ⟨0, 1, BufferField.width⟩) (answerOf false),
        .updateTimeout (answerOf false),
        .command 5 (.recycleRenderUpdate ⟨1, 1, BufferField.width⟩) (answerOf false),
        .command 6 (.recycleRenderUpdate ⟨2, 1, BufferField.width⟩) (answerOf false),
        .command 7 (.recycleRenderUpdate ⟨0, 2, BufferField.width⟩) (answerOf false)] s := by
  have hnot : ∀ {p : Prop}, true = true → false = true → p := by simp
  have hposted {actions : List RuntimeAction} : (∃ s, s.posted.length = 4 ∧ s.Quiet ∧
      machine.Path Unharmed (create true true (answerOf false)) actions s) →
        ∃ s, s.FullPosted ∧ s.Current ∧ s.posted.length = 4 ∧
          machine.Path Unharmed (create true true (answerOf false)) actions s := by
    rintro ⟨s, hlength, hquiet, hpath⟩
    obtain ⟨hfull, hcurrent⟩ := full_frames_posted hpath hquiet
    exact ⟨s, hfull, hcurrent, hlength, hpath⟩
  refine hposted ⟨_, ?_, ?_, .cons hnot rfl (.cons hnot rfl (.cons trivial rfl (.cons trivial rfl
    (.cons trivial rfl (.cons trivial rfl (.cons trivial rfl (.cons trivial rfl
      (.cons trivial rfl (.nil _)))))))))⟩
  · rfl
  · refine ⟨rfl, rfl, ?_, ?_⟩
    · intro p hp
      have hnone : (none : Option PendingUpdate) = some p := hp
      cases hnone
    · decide

/-- A full update waits for its timer, the program begins a frame and ends it, and the update that
follows is not full: nothing else is left to be done. -/
theorem full_frame_lost : ∃ s, machine.Run (create true true (answerOf false))
      [.command 1 .writeBytes (answerOf false), .command 2 .writeBytes (answerOf false),
        .command 3 .requestFullFrame (answerOf false), .command 4 .writeBytes (answerOf true),
        .command 5 (.recycleRenderUpdate ⟨0, 1, BufferField.width⟩) (answerOf true),
        .command 6 .writeBytes (answerOf false),
        .command 7 (.recycleRenderUpdate ⟨1, 1, BufferField.width⟩) (answerOf false),
        .command 8 (.recycleRenderUpdate ⟨2, 1, BufferField.width⟩) (answerOf false),
        .command 9 (.recycleRenderUpdate ⟨0, 2, BufferField.width⟩) (answerOf false)] s ∧
    s.Quiet ∧ s.synchronized = false ∧ ¬s.FullPosted := by
  refine ⟨_, .cons trivial rfl (.cons trivial rfl (.cons trivial rfl (.cons trivial rfl
    (.cons trivial rfl (.cons trivial rfl (.cons trivial rfl (.cons trivial rfl
      (.cons trivial rfl (.nil _))))))))), ⟨rfl, rfl, ?_, ?_⟩, rfl, ?_⟩
  · intro p hp
    have hnone : (none : Option PendingUpdate) = some p := hp
    cases hnone
  · decide
  · intro hposted
    obtain ⟨update, hmem, hfull⟩ := hposted 3 rfl
    revert update
    decide

end RuntimeEntry

end PiDeck.Render
