import Mathlib
import PiDeck.Collections.Trail
import PiDeck.Worker.Disposal

/-! What a terminal and its runtime come to once everything on its way has arrived. The commands on
their way are folded over the runtime's settings; what the core has been asked for is the result,
unless a failure is on its way back. -/
namespace PiDeck.Worker
open PiDeck.Collections PiDeck.Transition FairWorkerScheduler

variable {θ : Type*}

def Payload.plain : Payload θ → Bool
  | .create _ | .dispose => false
  | _ => true

theorem Payload.process_plain {payload : Payload θ} (h : payload.plain = true)
    (entry : RuntimeEntry θ) :
    payload.process entry = some { entry with settings := payload.apply entry.settings } := by
  cases payload with
  | dispose => cases h
  | _ => rfl

/-- The key of the last command of a core. -/
def WorkerTerminalCore.top (core : WorkerTerminalCore θ) : CommandKey :=
  toLex (core.generation, core.sequence)

namespace View

/-- The commands that the worker has. -/
def atWorker (v : View θ) : List (Command θ) := v.creating.map Creation.command ++ v.posted

/-- The commands on their way, in the order in which they are carried out. -/
def commands (v : View θ) : List (Command θ) := v.atWorker ++ v.waiting

/-- The settings that `commands` make of `settings`. -/
def settle (settings : Settings θ) (commands : List (Command θ)) : Settings θ :=
  commands.foldl (fun settings command => command.payload.apply settings) settings

/-- What becomes of the runtime: it is created by a command on its way and then brought to what the
core has been asked for, or it is there and brought to it, or a failure is on its way back. -/
inductive Settled (v : View θ) (core : WorkerTerminalCore θ) : Prop
  | creating (before after : List (Command θ)) (sequence : ℕ) (settings : Settings θ)
      (split : v.commands =
        before ++ ⟨core.generation, sequence, .create settings⟩ :: after)
      (plain : ∀ c ∈ after, c.generation = core.generation ∧ c.payload.plain = true)
      (settles : settle settings after = core.requested)
  | running (entry : RuntimeEntry θ) (found : v.entry = some entry)
      (own : entry.generation = core.generation)
      (plain : ∀ c ∈ v.commands, c.generation = core.generation ∧ c.payload.plain = true)
      (settles : settle entry.settings v.commands = core.requested)
      (resumes : core.recovering = true →
        ∃ e ∈ v.events, e.kind = .ready ∧ e.generation = core.generation)
  | failed (e : Event) (mem : e ∈ v.events) (failed : e.kind.failed = true)
      (own : e.generation = core.generation)

/-- A terminal whose messages are in order, with at most one command at the worker, the one in
flight. -/
structure Good (v : View θ) (core : WorkerTerminalCore θ) : Prop where
  trail : Trail (v.events.map Event.key) (v.commands.map Command.key) core.top
  eventsHeard : ∀ e ∈ v.events, e.generation = core.generation →
    core.lastEventSequence ≤ e.sequence
  commandsHeard : ∀ c ∈ v.commands, c.generation = core.generation →
    core.lastEventSequence ≤ c.sequence
  received : core.lastEventSequence ≤ core.sequence
  single : v.atWorker = [] ∨ ∃ c, v.atWorker = [c] ∧ v.flight = some c.key
  shown : core.presentation = core.requested.presentation
  listens : core.recovering = true → core.readyListener = some .recovery
  rejects : core.recovering = true → core.initializationReject = false
  settled : Settled v core

variable {v v' : View θ} {core core' : WorkerTerminalCore θ}

theorem Settled.congr (h : Settled v core) (hc : v'.commands = v.commands)
    (he : v'.entry = v.entry) (hev : v'.events = v.events) : Settled v' core := by
  cases h with
  | creating before after sequence settings split plain settles =>
    exact .creating before after sequence settings (hc.trans split) plain settles
  | running entry found own plain settles resumes =>
    exact .running entry (he.trans found) own (hc ▸ plain) (hc ▸ settles) (hev ▸ resumes)
  | failed e mem failed own => exact .failed e (hev ▸ mem) failed own

/-- The commands move between the scheduler and the worker. -/
theorem Good.moved (h : v.Good core) (hc : v'.commands = v.commands) (he : v'.entry = v.entry)
    (hev : v'.events = v.events)
    (hs : v'.atWorker = [] ∨ ∃ c, v'.atWorker = [c] ∧ v'.flight = some c.key) : v'.Good core :=
  ⟨by rw [hc, hev]; exact h.trail, hev ▸ h.eventsHeard, hc ▸ h.commandsHeard, h.received, hs,
    h.shown, h.listens, h.rejects, h.settled.congr hc he hev⟩

/-- The command that the worker has is the only one. -/
theorem Good.posted (h : v.Good core) {command : Command θ} {rest : List (Command θ)}
    (hp : v.posted = command :: rest) :
    v.creating = [] ∧ rest = [] ∧ v.flight = some command.key := by
  rcases h.single with hnone | ⟨c, hone, hflight⟩
  · rw [atWorker, hp] at hnone
    simp at hnone
  · rw [atWorker, hp] at hone
    cases hcr : v.creating with
    | nil =>
      rw [hcr] at hone
      obtain ⟨rfl, rfl⟩ : command = c ∧ rest = [] := by simpa using hone
      exact ⟨rfl, rfl, hflight⟩
    | cons creation more =>
      rw [hcr] at hone
      simp at hone

theorem Good.underWay (h : v.Good core) {creation : Creation θ} {index : ℕ}
    (hu : v.creating[index]? = some creation) :
    v.creating = [creation] ∧ index = 0 ∧ v.posted = [] := by
  have hmem : creation ∈ v.creating := List.mem_of_getElem? hu
  rcases h.single with hnone | ⟨c, hone, -⟩
  · have hnil : v.creating = [] := by
      rw [atWorker, List.append_eq_nil_iff, List.map_eq_nil_iff] at hnone
      exact hnone.1
    rw [hnil] at hmem
    cases hmem
  · cases hcr : v.creating with
    | nil =>
      rw [hcr] at hmem
      cases hmem
    | cons first more =>
      rw [atWorker, hcr] at hone
      obtain ⟨-, rfl, hposted⟩ : first.command = c ∧ more = [] ∧ v.posted = [] := by
        simpa using hone
      rw [hcr] at hu
      cases index with
      | zero =>
        obtain rfl : first = creation := by simpa using hu
        exact ⟨rfl, rfl, hposted⟩
      | succ index => simp at hu

/-- The first command on its way is carried out, with the events it causes. -/
theorem Good.finished (h : v.Good core) (kinds : List EventKind) {command : Command θ} {rest : List (Command θ)}
    (hc : v.commands = command :: rest) (hc' : v'.commands = rest) (hw : v'.atWorker = [])
    (hev : v'.events = v.events ++
      kinds.map fun kind => ⟨command.generation, command.sequence, kind⟩)
    (hs : Settled v' core) : v'.Good core := by
  have htrail := h.trail
  rw [hc, List.map_cons] at htrail
  have hkeys : v'.events.map Event.key =
      v.events.map Event.key ++ List.replicate kinds.length command.key := by
    rw [hev, List.map_append, List.map_map]
    congr 1
    exact List.map_const' (l := kinds) (b := command.key)
  refine ⟨?_, fun e he hg => ?_, fun c hcm hg => ?_, h.received, .inl hw, h.shown, h.listens,
    h.rejects, hs⟩
  · rw [hkeys, hc']
    exact htrail.finish kinds.length
  · rw [hev] at he
    rcases List.mem_append.mp he with he | he
    · exact h.eventsHeard e he hg
    · obtain ⟨kind, -, rfl⟩ := List.mem_map.mp he
      exact h.commandsHeard command (hc ▸ List.mem_cons_self) hg
  · rw [hc'] at hcm
    exact h.commandsHeard c (hc ▸ List.mem_cons_of_mem _ hcm) hg

theorem Good.works (h : v.Good core) (hw : Works v v') : v'.Good core := by
  cases hw with
  | idle => exact h
  | serve command rest waiting free =>
    have hnone : v.atWorker = [] := by
      rcases h.single with hnone | ⟨c, -, hflight⟩
      · exact hnone
      · rw [free] at hflight
        cases hflight
    have hlast : v.creating.map Creation.command ++ (v.posted ++ [command]) = [command] := by
      rw [← List.append_assoc]
      exact congrArg (· ++ [command]) hnone
    refine h.moved ?_ rfl rfl (.inr ⟨command, hlast, rfl⟩)
    change (v.creating.map Creation.command ++ (v.posted ++ [command])) ++ rest = v.commands
    rw [hlast, commands, hnone, waiting]
    rfl
  | begin generation sequence settings rest posted =>
    obtain ⟨hcr, rfl, hflight⟩ := h.posted posted
    refine h.moved ?_ rfl rfl (.inr ⟨_, ?_, hflight⟩)
    · simp [commands, atWorker, hcr, posted, Creation.command]
    · simp [atWorker, hcr, Creation.command]
  | ignore command rest posted later other =>
    obtain ⟨hcr, rfl, -⟩ := h.posted posted
    have hc : v.commands = command :: v.waiting := by simp [commands, atWorker, hcr, posted]
    refine h.finished [] hc ?_ ?_ (by simp) ?_
    · simp [commands, atWorker, hcr]
    · simp [atWorker, hcr]
    · cases h.settled with
      | creating before after sequence settings split plain settles =>
        rw [hc] at split
        cases before with
        | nil =>
          obtain ⟨rfl, -⟩ := List.cons_eq_cons.mp split
          exact absurd rfl (later settings)
        | cons first before =>
          obtain ⟨-, hrest⟩ := List.cons_eq_cons.mp split
          refine .creating before after sequence settings ?_ plain settles
          simpa [commands, atWorker, hcr] using hrest
      | running entry found own plain settles resumes =>
        have hown := (plain command (hc ▸ List.mem_cons_self)).1
        exact absurd (own.trans hown.symm) (other entry found)
      | failed e mem failed own => exact .failed e mem failed own
  | run command rest entry after kind posted later found own ends =>
    obtain ⟨hcr, rfl, -⟩ := h.posted posted
    have hc : v.commands = command :: v.waiting := by simp [commands, atWorker, hcr, posted]
    refine h.finished [kind] hc ?_ ?_ rfl ?_
    · simp [commands, atWorker, hcr]
    · simp [atWorker, hcr]
    · cases h.settled with
      | creating before more sequence settings split plain settles =>
        rw [hc] at split
        cases before with
        | nil =>
          obtain ⟨rfl, -⟩ := List.cons_eq_cons.mp split
          exact absurd rfl (later settings)
        | cons first before =>
          obtain ⟨-, hrest⟩ := List.cons_eq_cons.mp split
          refine .creating before more sequence settings ?_ plain settles
          simpa [commands, atWorker, hcr] using hrest
      | running entry' found' own' plain settles resumes =>
        obtain rfl := Option.some.inj (found.symm.trans found')
        obtain ⟨hgen, hplain⟩ := plain command (hc ▸ List.mem_cons_self)
        rcases ends with ⟨rfl, rfl⟩ | ⟨rfl, -⟩
        · have hwaiting : commands { v with
              posted := []
              entry := command.payload.process entry
              events := v.events ++ [⟨command.generation, command.sequence, .completed⟩] } =
              v.waiting := by simp [commands, atWorker, hcr]
          refine .running _ (Payload.process_plain hplain entry) own' ?_ ?_ ?_
          · rw [hwaiting]
            exact fun c hmem => plain c (hc ▸ List.mem_cons_of_mem _ hmem)
          · rw [hwaiting]
            rw [hc] at settles
            exact settles
          · intro hrec
            obtain ⟨e, he, hk⟩ := resumes hrec
            exact ⟨e, List.mem_append_left _ he, hk⟩
        · refine .failed ⟨command.generation, command.sequence, .recoverableError⟩ ?_ rfl hgen
          exact List.mem_append_right _ List.mem_cons_self
      | failed e mem failed own =>
        exact .failed e (List.mem_append_left _ mem) failed own
  | created creation index after kinds under ends =>
    obtain ⟨hcr, rfl, hposted⟩ := h.underWay under
    have hc : v.commands = creation.command :: v.waiting := by
      simp [commands, atWorker, hcr, hposted]
    refine h.finished kinds hc ?_ ?_ rfl ?_
    · simp [commands, atWorker, hcr, hposted]
    · simp [atWorker, hcr, hposted]
    · cases h.settled with
      | creating before more sequence settings split plain settles =>
        rw [hc] at split
        cases before with
        | nil =>
          obtain ⟨hcommand, hmore⟩ := List.cons_eq_cons.mp split
          obtain ⟨hgen, -, hsettings⟩ : creation.generation = core.generation ∧
              creation.sequence = sequence ∧ creation.settings = settings := by
            simpa [Creation.command] using hcommand
          have hfatal : (.fatalError : EventKind) ∈ kinds → Settled { v with
              creating := v.creating.eraseIdx 0
              entry := after
              events := v.events ++ kinds.map fun kind =>
                ⟨creation.generation, creation.sequence, kind⟩ } core := by
            intro hmem
            refine .failed ⟨creation.generation, creation.sequence, .fatalError⟩ ?_ rfl hgen
            exact List.mem_append_right _ (List.mem_map.mpr ⟨_, hmem, rfl⟩)
          rcases ends with ⟨rfl, rfl | rfl⟩ | ⟨rfl, rfl⟩
          · have hwaiting : commands { v with
                creating := v.creating.eraseIdx 0
                entry := some ⟨creation.generation, creation.settings⟩
                events := v.events ++ [EventKind.ready].map fun kind =>
                  ⟨creation.generation, creation.sequence, kind⟩ } = more := by
              simp [commands, atWorker, hcr, hposted, hmore]
            refine .running _ rfl hgen ?_ ?_ fun _ => ?_
            · rw [hwaiting]
              exact plain
            · rw [hwaiting, hsettings]
              exact settles
            · exact ⟨_, List.mem_append_right _ List.mem_cons_self, rfl, hgen⟩
          · exact hfatal (by simp)
          · exact hfatal (by simp)
        | cons first before =>
          obtain ⟨-, hrest⟩ := List.cons_eq_cons.mp split
          refine .creating before more sequence settings ?_ plain settles
          simpa [commands, atWorker, hcr, hposted] using hrest
      | running entry found own plain settles resumes =>
        have hplain := (plain creation.command (hc ▸ List.mem_cons_self)).2
        cases hplain
      | failed e mem failed own =>
        exact .failed e (List.mem_append_left _ mem) failed own

/-- Views that differ in the core only. -/
structure Alike (v v' : View θ) : Prop where
  commands : v'.commands = v.commands
  atWorker : v'.atWorker = v.atWorker
  flight : v'.flight = v.flight
  entry : v'.entry = v.entry
  events : v'.events = v.events

/-- A number is used up, or the core has learnt something about its promise. -/
theorem Good.recore (h : v.Good core) (hv : Alike v v')
    (hgen : core'.generation = core.generation) (hseq : core.sequence ≤ core'.sequence)
    (hlast : core'.lastEventSequence = core.lastEventSequence)
    (hrec : core'.recovering = core.recovering)
    (hlistens : core'.recovering = true → core'.readyListener = some .recovery)
    (hrejects : core'.recovering = true → core'.initializationReject = false)
    (hshown : core'.presentation = core'.requested.presentation)
    (hreq : core'.requested = core.requested) : v'.Good core' := by
  have htop : core.top ≤ core'.top := by
    apply Prod.Lex.toLex_le_toLex.mpr
    exact .inr ⟨hgen.symm, hseq⟩
  refine ⟨?_, ?_, ?_, ?_, ?_, hshown, hlistens, hrejects, ?_⟩
  · rw [hv.events, hv.commands]
    exact h.trail.raise htop
  · rw [hv.events, hgen, hlast]
    exact h.eventsHeard
  · rw [hv.commands, hgen, hlast]
    exact h.commandsHeard
  · rw [hlast]
    exact h.received.trans hseq
  · rw [hv.atWorker, hv.flight]
    exact h.single
  · have hsettled : Settled v' core := h.settled.congr hv.commands hv.entry hv.events
    cases hsettled with
    | creating before after sequence settings split plain settles =>
      exact .creating before after sequence settings (by rw [hgen]; exact split)
        (by rw [hgen]; exact plain) (settles.trans hreq.symm)
    | running entry found own plain settles resumes =>
      exact .running entry found (own.trans hgen.symm) (by rw [hgen]; exact plain)
        (settles.trans hreq.symm) (by rw [hrec, hgen]; exact resumes)
    | failed e mem failed own => exact .failed e mem failed (own.trans hgen.symm)

/-- A command that changes the settings as asked. -/
theorem Good.sent (h : v.Good core) {payload : Payload θ} {presentation : WorkerPriority}
    {requested : Settings θ} (hplain : payload.plain = true)
    (hreq : requested = payload.apply core.requested)
    (hshown : presentation = requested.presentation) (c : Option (WorkerTerminalCore θ)) :
    Good { v with
      core := c
      waiting := v.waiting ++ [⟨core.generation, core.sequence + 1, payload⟩] }
      { core with presentation, requested, sequence := core.sequence + 1 } := by
  have hlt : core.top < toLex (core.generation, core.sequence + 1) :=
    Prod.Lex.toLex_lt_toLex.mpr (.inr ⟨rfl, Nat.lt_succ_self _⟩)
  have hc : commands { v with
      core := c
      waiting := v.waiting ++ [⟨core.generation, core.sequence + 1, payload⟩] } =
      v.commands ++ [⟨core.generation, core.sequence + 1, payload⟩] :=
    (List.append_assoc ..).symm
  have hall : ∀ more : List (Command θ),
      (∀ c ∈ more, c.generation = core.generation ∧ c.payload.plain = true) →
      ∀ c ∈ more ++ [⟨core.generation, core.sequence + 1, payload⟩],
        c.generation = core.generation ∧ c.payload.plain = true := by
    intro more hp c hmem
    rcases List.mem_append.mp hmem with hmem | hmem
    · exact hp c hmem
    · obtain rfl := List.mem_singleton.mp hmem
      exact ⟨rfl, hplain⟩
  refine ⟨?_, h.eventsHeard, ?_, h.received.trans (Nat.le_succ _), h.single, hshown, h.listens,
    h.rejects, ?_⟩
  · rw [hc, List.map_append]
    exact h.trail.push hlt
  · intro c hmem hgen
    rw [hc] at hmem
    rcases List.mem_append.mp hmem with hmem | hmem
    · exact h.commandsHeard c hmem hgen
    · obtain rfl := List.mem_singleton.mp hmem
      exact h.received.trans (Nat.le_succ _)
  · cases h.settled with
    | creating before after sequence settings split plain settles =>
      refine .creating before (after ++ [⟨core.generation, core.sequence + 1, payload⟩]) sequence
        settings ?_ (hall after plain) ?_
      · rw [hc, split, List.append_assoc]
        rfl
      · rw [hreq, ← settles]
        exact List.foldl_append
    | running entry found own plain settles resumes =>
      refine .running entry found own ?_ ?_ resumes
      · rw [hc]
        exact hall v.commands plain
      · rw [hc, hreq, ← settles]
        exact List.foldl_append
    | failed e mem failed own => exact .failed e mem failed own

/-- A core that can start over from its options: what it has been asked for is in them. -/
structure Recoverable (core : WorkerTerminalCore θ) : Prop where
  idle : core.recovering = false
  geometry : core.requested.geometry = core.options.geometry
  theme : core.requested.theme = core.options.theme

/-- The core starts over. -/
theorem good_recovering (htrail : Trail (v.events.map Event.key) (v.commands.map Command.key)
      core.top)
    (hsingle : v.atWorker = [] ∨ ∃ c, v.atWorker = [c] ∧ v.flight = some c.key)
    (hshown : core.presentation = core.requested.presentation) (hr : Recoverable core)
    (hreject : core.initializationReject = false) (c : Option (WorkerTerminalCore θ)) :
    Good { v with
      core := c
      waiting := v.waiting ++ [⟨core.generation + 1, 0 + 1,
        .create { core.options with presentation := core.presentation }⟩] }
      { core with
        recovering := true
        generation := core.generation + 1
        sequence := 0 + 1
        lastEventSequence := 0
        readyListener := some .recovery } := by
  have hlt : core.top < toLex (core.generation + 1, 0 + 1) :=
    Prod.Lex.toLex_lt_toLex.mpr (.inl (Nat.lt_succ_self _))
  have hc : commands { v with
      core := c
      waiting := v.waiting ++ [⟨core.generation + 1, 0 + 1,
        .create { core.options with presentation := core.presentation }⟩] } =
      v.commands ++ [⟨core.generation + 1, 0 + 1,
        .create { core.options with presentation := core.presentation }⟩] :=
    (List.append_assoc ..).symm
  refine ⟨?_, fun _ _ _ => Nat.zero_le _, fun _ _ _ => Nat.zero_le _, Nat.zero_le _, hsingle,
    hshown, fun _ => rfl, fun _ => hreject, ?_⟩
  · rw [hc, List.map_append]
    exact htrail.push hlt
  · refine .creating v.commands [] 1 _ hc (by simp) ?_
    change (⟨core.options.geometry, core.options.theme, core.presentation⟩ : Settings θ) = _
    rw [hshown, ← hr.geometry, ← hr.theme]

/-- An event is taken. -/
theorem Good.taken (h : v.Good core) {e : Event} {rest : List Event} (he : v.events = e :: rest) :
    Trail (rest.map Event.key) (v.commands.map Command.key) core.top ∧
      (v.atWorker = [] ∨ ∃ c, v.atWorker = [c] ∧
        (if v.flight = some e.key then none else v.flight) = some c.key) := by
  have htrail := h.trail
  rw [he, List.map_cons] at htrail
  refine ⟨htrail.hear, ?_⟩
  rcases h.single with hnone | ⟨c, hone, hflight⟩
  · exact .inl hnone
  · refine .inr ⟨c, hone, ?_⟩
    have hin : c ∈ v.commands := by
      rw [commands, hone]
      exact List.mem_cons_self
    have hlt := htrail.lt_of_head c.key (List.mem_map_of_mem hin)
    have hne : v.flight ≠ some e.key := by
      rw [hflight]
      intro heq
      exact hlt.ne (Option.some.inj heq).symm
    exact (if_neg hne).trans hflight

/-- An event is heard that neither fails nor reports a readiness the core still waits for. -/
theorem Good.heard (h : v.Good core) (core' : WorkerTerminalCore θ) {e : Event}
    {rest : List Event} (he : v.events = e :: rest)
    (hgen : core'.generation = core.generation) (hseq : core'.sequence = core.sequence)
    (hlast : core'.lastEventSequence = core.lastEventSequence ∨
      e.generation = core.generation ∧ core'.lastEventSequence = e.sequence)
    (hrec : core'.recovering = true → core.recovering = true ∧
      core'.readyListener = some .recovery ∧ core'.initializationReject = false ∧
      ¬ (e.kind = .ready ∧ e.generation = core.generation))
    (hpres : core'.presentation = core.presentation) (hreq : core'.requested = core.requested)
    (hfailed : ¬ (e.kind.failed = true ∧ e.generation = core.generation))
    (c : Option (WorkerTerminalCore θ)) :
    Good { v with
      core := c
      events := rest
      flight := if v.flight = some e.key then none else v.flight } core' := by
  have htop : core'.top = core.top := by
    unfold WorkerTerminalCore.top
    rw [hgen, hseq]
  have htrail := h.trail
  rw [he, List.map_cons] at htrail
  have hmem : ∀ d ∈ rest, d ∈ v.events := fun d hd => he ▸ List.mem_cons_of_mem _ hd
  obtain ⟨hhear, hsingle⟩ := h.taken he
  refine ⟨htop ▸ hhear, ?_, ?_, ?_, hsingle, ?_, fun hr => (hrec hr).2.1,
    fun hr => (hrec hr).2.2.1, ?_⟩
  · intro d hd hg
    rw [hgen] at hg
    rcases hlast with hlast | ⟨hown, hlast⟩ <;> rw [hlast]
    · exact h.eventsHeard d (hmem d hd) hg
    · have hle := htrail.le_of_head d.key (List.mem_map_of_mem hd)
      rcases Prod.Lex.toLex_le_toLex.mp hle with hlt | ⟨-, hle⟩
      · change e.generation < d.generation at hlt
        omega
      · exact hle
  · intro d hd hg
    rw [hgen] at hg
    rcases hlast with hlast | ⟨hown, hlast⟩ <;> rw [hlast]
    · exact h.commandsHeard d hd hg
    · have hlt := htrail.lt_of_head d.key (List.mem_map_of_mem hd)
      rcases Prod.Lex.toLex_lt_toLex.mp hlt with hlt | ⟨-, hlt⟩
      · change e.generation < d.generation at hlt
        omega
      · exact hlt.le
  · rw [hseq]
    rcases hlast with hlast | ⟨hown, hlast⟩ <;> rw [hlast]
    · exact h.received
    · have hle := htrail.doneBelow e.key List.mem_cons_self
      rcases Prod.Lex.toLex_le_toLex.mp hle with hlt | ⟨-, hle⟩
      · change e.generation < core.generation at hlt
        omega
      · exact hle
  · rw [hpres, hreq]
    exact h.shown
  · cases h.settled with
    | creating before after sequence settings split plain settles =>
      exact .creating before after sequence settings (by rw [hgen]; exact split)
        (by rw [hgen]; exact plain) (settles.trans hreq.symm)
    | running entry found own plain settles resumes =>
      refine .running entry found (own.trans hgen.symm) (by rw [hgen]; exact plain)
        (settles.trans hreq.symm) fun hr => ?_
      obtain ⟨hwas, -, -, hready⟩ := hrec hr
      obtain ⟨d, hd, hk, hg⟩ := resumes hwas
      rw [he] at hd
      rcases List.mem_cons.mp hd with rfl | hd
      · exact absurd ⟨hk, hg⟩ hready
      · exact ⟨d, hd, hk, hg.trans hgen.symm⟩
    | failed d mem failed own =>
      rw [he] at mem
      rcases List.mem_cons.mp mem with rfl | mem
      · exact absurd ⟨failed, own⟩ hfailed
      · exact .failed d mem failed (own.trans hgen.symm)

end View

namespace Slot
variable {slot s t : Slot θ} {id : String} {core old : WorkerTerminalCore θ} {payload : Payload θ}
  {a : SlotStep θ} {as : List (SlotStep θ)}

/-- Every core that is not disposed is running, and its runtime is what it has been asked for. -/
def Synced (slot : Slot θ) : Prop :=
  ∀ id core, slot.core id = some core → core.disposed = false →
    core.recovering = false ∧ ∃ entry, slot.worker.runtimes id = some entry ∧
      entry.generation = core.generation ∧ entry.settings = core.requested

/-- When a step keeps what has been asked for: a command is not refused by a full scheduler, nothing
new is asked for while a core recovers, and no core fails that recovers or has been asked for another
size or theme than in its options. -/
def KeepsRequests (slot : Slot θ) : SlotStep θ → Prop
  | .create _ options => slot.HasRoom (.create options)
  | .call id call => ∀ core, slot.core id = some core → core.disposed = false →
    match call with
    | .resize geometry =>
      if core.recovering then core.requested.geometry = geometry else slot.HasRoom (.resize geometry)
    | .setTheme theme =>
      if core.recovering then core.requested.theme = theme else slot.HasRoom (.setTheme theme)
    | .setPresentationState presentation =>
      core.presentation = presentation ∨
        core.recovering = false ∧ slot.HasRoom (.setPresentationState presentation)
    | .other _ | .dispose _ => True
  | .deliver => ∀ id event rest core, slot.worker.outbox = (id, event) :: rest →
    event.kind.failed = true → slot.core id = some core → core.disposed = false →
    event.generation = core.generation → core.initializationReject = false →
      View.Recoverable core ∧ slot.HasRoom (.create core.options)
  | .workerFailed => slot.terminals.length ≤ maxCommands ∧
    ∀ id core, slot.core id = some core → core.disposed = false →
      core.initializationReject = false → View.Recoverable core
  | _ => True

/-- Nothing is on its way for a terminal that there is not. -/
structure Unused (v : View θ) : Prop where
  waiting : v.waiting = []
  posted : v.posted = []
  creating : v.creating = []
  events : v.events = []

structure Consonant (slot : Slot θ) : Prop where
  keyed : slot.Keyed
  keys : (slot.cores.map Prod.fst).Nodup
  good : ∀ id core, slot.core id = some core → core.disposed = false →
    (slot.view id).Good core
  unused : ∀ id, slot.core id = none → Unused (slot.view id)

theorem consonant_start : (start : Slot θ).Consonant := by
  refine ⟨keyedBy_empty, .nil, fun id core h => ?_, fun id _ => ⟨rfl, rfl, rfl, rfl⟩⟩
  cases h

/-- In a quiescent state nothing is left to become. -/
theorem Consonant.synced (h : slot.Consonant) (hq : slot.Quiescent) : slot.Synced := by
  intro id core hcore hd
  have hposted : (slot.view id).posted = [] := by
    unfold view
    rw [hq.inbox]
    rfl
  have hevents : (slot.view id).events = [] := by
    unfold view
    rw [hq.outbox]
    rfl
  have hcommands : (slot.view id).commands = [] := by
    have hcreating : (slot.view id).creating = [] := hq.creating id
    have hwaiting : (slot.view id).waiting = [] := hq.queued id
    simp [View.commands, View.atWorker, hposted, hcreating, hwaiting]
  cases (h.good id core hcore hd).settled with
  | creating before after sequence settings split plain settles =>
    rw [hcommands] at split
    simp at split
  | running entry found own plain settles resumes =>
    rw [hcommands] at settles
    refine ⟨?_, entry, found, own, settles⟩
    cases hrec : core.recovering with
    | false => rfl
    | true =>
      obtain ⟨e, he, -⟩ := resumes hrec
      rw [hevents] at he
      cases he
  | failed e mem failed own =>
    rw [hevents] at mem
    cases mem

/-- What happens to one terminal, while the others see nothing of it. -/
theorem Consonant.changed {v : View θ} {new : WorkerTerminalCore θ} (h : s.Consonant)
    (hkeyed : t.Keyed) (hkeys : t.cores.map Prod.fst = s.cores.map Prod.fst)
    (hothers : ∀ k, k ≠ id → t.view k = s.view k) (hview : t.view id = v)
    (hnew : v.core = some new) (hg : new.disposed = false → v.Good new) : t.Consonant := by
  have htcore : t.core id = some new := (core_of_view hview).trans hnew
  refine ⟨hkeyed, hkeys ▸ h.keys, fun k core hk hd => ?_, fun k hk => ?_⟩
  · by_cases hid : k = id
    · subst hid
      obtain rfl := Option.some.inj (htcore.symm.trans hk)
      rw [hview]
      exact hg hd
    · have hk' := hothers k hid
      rw [hk']
      exact h.good k core ((core_of_view hk').symm.trans hk) hd
  · by_cases hid : k = id
    · subst hid
      rw [htcore] at hk
      cases hk
    · have hk' := hothers k hid
      rw [hk']
      exact h.unused k ((core_of_view hk').symm.trans hk)

theorem Consonant.framed {v : View θ} {new : WorkerTerminalCore θ} (h : s.Consonant)
    (hf : Framed id s t) (hview : t.view id = v) (hnew : v.core = some new)
    (hg : new.disposed = false → v.Good new) : t.Consonant :=
  h.changed (hf.keyed h.keyed) hf.keys hf.others hview hnew hg

theorem Consonant.setCore (h : s.Consonant) (hcore : s.core id = some old)
    (hg : core.disposed = false → (s.view id).Good core) : (s.setCore id core).Consonant := by
  apply h.framed (framed_setCore s id core) (view_setCore _ hcore) rfl
  intro hd
  have hgood := hg hd
  exact hgood.moved rfl rfl rfl hgood.single

/-- A command that the scheduler takes, or one that asks for nothing. -/
theorem Consonant.send (h : s.Consonant) (hcore : s.core id = some old) (hd : old.disposed = false)
    {presentation : WorkerPriority} {requested : Settings θ} (hplain : payload.plain = true)
    (hreq : requested = payload.apply old.requested) (hshown : presentation = requested.presentation)
    (hroom : s.HasRoom payload ∨ requested = old.requested) :
    (s.send id { old with presentation, requested } payload).1.Consonant := by
  have hgood := h.good id old hcore hd
  apply h.framed (framed_send s id _ payload) (send_view _ _ hcore) rfl
  intro _
  cases hok : (s.send id { old with presentation, requested } payload).2 with
  | true => exact hgood.sent hplain hreq hshown _
  | false =>
    have hsame : requested = old.requested := by
      rcases hroom with hroom | hsame
      · rw [send_room _ _ hroom] at hok
        cases hok
      · exact hsame
    apply hgood.recore
    · exact ⟨by simp [View.commands, View.atWorker], rfl, rfl, rfl, rfl⟩
    · rfl
    · exact Nat.le_succ _
    · rfl
    · rfl
    · exact hgood.listens
    · exact hgood.rejects
    · exact hshown
    · exact hsame

/-- A core that asks for what it has been asked for already. -/
theorem Consonant.again (h : s.Consonant) (hcore : s.core id = some old)
    {presentation : WorkerPriority} {requested : Settings θ}
    (hshown : presentation = requested.presentation)
    (hsame : old.disposed = false → requested = old.requested) :
    (s.setCore id { old with presentation, requested }).Consonant := by
  apply h.setCore hcore
  intro hd
  have hgood := h.good id old hcore hd
  apply hgood.recore
  · exact ⟨rfl, rfl, rfl, rfl, rfl⟩
  · rfl
  · exact le_rfl
  · rfl
  · rfl
  · exact hgood.listens
  · exact hgood.rejects
  · exact hshown
  · exact hsame hd

theorem Consonant.command (h : s.Consonant) (payload : Payload θ)
    (presentation : WorkerPriority) (requested : Settings θ) (hcore : s.core id = some old)
    (hplain : payload.plain = true)
    (hreq : requested = payload.apply old.requested) (hshown : presentation = requested.presentation)
    (hroom : old.disposed = false → if old.recovering then requested = old.requested
      else s.HasRoom payload ∨ requested = old.requested) :
    (s.command id { old with presentation, requested } payload).1.Consonant := by
  rcases Bool.eq_false_or_eq_true old.disposed with hd | hd
  · rw [command_idle (by simp [hd])]
    exact h.again hcore hshown fun hactive => absurd (hd.symm.trans hactive) (by simp)
  · have hroom := hroom hd
    rcases Bool.eq_false_or_eq_true old.recovering with hrec | hrec
    · rw [if_pos hrec] at hroom
      rw [command_idle (by simp [hrec])]
      exact h.again hcore hshown fun _ => hroom
    · rw [if_neg (by simp [hrec])] at hroom
      rw [command_active (by simp [hd, hrec])]
      exact h.send hcore hd hplain hreq hshown hroom

theorem Consonant.other (h : s.Consonant) (hcore : s.core id = some core) (bytes : ℕ) :
    (s.command id core (.other bytes)).1.Consonant := by
  rcases Bool.eq_false_or_eq_true core.disposed with hd | hd
  · rw [command_idle (by simp [hd])]
    apply h.setCore hcore
    intro hactive
    rw [hd] at hactive
    cases hactive
  · have hshown := (h.good id core hcore hd).shown
    have hother := h.command (.other bytes) core.presentation core.requested hcore rfl rfl hshown
    apply hother
    intro _
    split
    · rfl
    · exact .inr rfl

/-- Updates that are given back before the last command is refused. -/
theorem Consonant.refused (h : s.Consonant) (hcore : s.core id = some core)
    (hd : core.disposed = false) (updates : List ℕ)
    (hstop : (s.commands id (updates.map .other ++ [.dispose])).2 = false) :
    (s.commands id (updates.map .other ++ [.dispose])).1.Consonant := by
  induction updates generalizing s core with
  | nil =>
    simp only [List.map_nil, List.nil_append, commands, hcore] at hstop ⊢
    rcases Bool.eq_false_or_eq_true core.recovering with hrec | hrec
    · rw [command_idle (by simp [hrec])] at hstop
      simp at hstop
    · rw [command_active (by simp [hd, hrec])] at hstop ⊢
      have hok : (s.send id core .dispose).2 = false := by
        split at hstop
        · cases hstop
        · exact hstop
      rw [if_neg (by simp [hok])]
      have hgood := h.good id core hcore hd
      apply h.framed (framed_send s id core .dispose) (send_view _ _ hcore) rfl
      intro _
      rw [hok]
      apply hgood.recore
      · exact ⟨by simp [View.commands, View.atWorker], rfl, rfl, rfl, rfl⟩
      · rfl
      · exact Nat.le_succ _
      · rfl
      · rfl
      · exact hgood.listens
      · exact hgood.rejects
      · exact hgood.shown
      · rfl
  | cons bytes updates ih =>
    simp only [List.map_cons, List.cons_append, commands, hcore] at hstop ⊢
    have hfirst := h.other hcore bytes
    split
    · rename_i hok
      rw [if_pos hok] at hstop
      obtain ⟨new, hnew, hkept⟩ := command_core core (.other bytes) hcore
      exact ih hfirst hnew (hkept.trans hd) hstop
    · exact hfirst

theorem Consonant.dispose (h : s.Consonant) (hcore : s.core id = some core) {updates : List ℕ} :
    (s.dispose id updates).1.Consonant := by
  rcases dispose_cases updates hcore with
    ⟨-, hd⟩ | ⟨hactive, sent, ok, new, hsent, hnew, -, ⟨-, hd⟩ | ⟨rfl, hd⟩⟩
  · rw [hd]
    exact h
  · have hframe := framed_dispose s id updates
    rw [hd] at hframe ⊢
    apply h.framed hframe (release_view _ hnew) rfl
    intro hdisposed
    cases hdisposed
  · have hkept := h.refused hcore hactive updates (by rw [hsent])
    rw [hsent] at hkept
    rw [hd]
    exact hkept

theorem Consonant.call {call : SurfaceCall θ} (h : s.Consonant) (hcore : s.core id = some core)
    (hg : KeepsRequests s (.call id call)) : (s.call id core call).1.Consonant := by
  have hg := hg core hcore
  rcases Bool.eq_false_or_eq_true core.disposed with hd | hd
  · have hany : ∀ new : WorkerTerminalCore θ, new.disposed = true →
        (s.setCore id new).Consonant := by
      intro new hnew
      apply h.setCore hcore
      intro hactive
      rw [hnew] at hactive
      cases hactive
    cases call with
    | resize geometry =>
      refine (congrArg (fun r => Slot.Consonant (Prod.fst r)) (command_idle ?_)).mpr (hany _ hd)
      simp [hd]
    | setTheme theme =>
      refine (congrArg (fun r => Slot.Consonant (Prod.fst r)) (command_idle ?_)).mpr (hany _ hd)
      simp [hd]
    | setPresentationState presentation =>
      dsimp only [Slot.call]
      split
      · exact hany _ hd
      · refine (congrArg (fun r => Slot.Consonant (Prod.fst r)) (command_idle ?_)).mpr (hany _ hd)
        simp [hd]
    | other bytes => exact h.other hcore bytes
    | dispose updates => exact h.dispose hcore
  · have hshown := (h.good id core hcore hd).shown
    have hg := hg hd
    cases call with
    | resize geometry =>
      apply h.command (.resize geometry) _ _ hcore rfl rfl hshown
      intro _
      dsimp only at hg
      rcases Bool.eq_false_or_eq_true core.recovering with hrec | hrec
      · rw [if_pos hrec] at hg ⊢
        rw [← hg]
        rfl
      · rw [if_neg (by simp [hrec])] at hg ⊢
        exact .inl hg
    | setTheme theme =>
      apply h.command (.setTheme theme) _ _ hcore rfl rfl hshown
      intro _
      dsimp only at hg
      rcases Bool.eq_false_or_eq_true core.recovering with hrec | hrec
      · rw [if_pos hrec] at hg ⊢
        rw [← hg]
        rfl
      · rw [if_neg (by simp [hrec])] at hg ⊢
        exact .inl hg
    | setPresentationState presentation =>
      dsimp only [Slot.call]
      split
      · rename_i hsame
        apply h.again hcore hsame
        intro _
        rw [← hsame, hshown]
      · rename_i hnew
        obtain ⟨hrec, hroom⟩ := hg.resolve_left hnew
        apply h.command (.setPresentationState presentation) _ _ hcore rfl rfl rfl
        intro _
        rw [if_neg (by simp [hrec])]
        exact .inl hroom
    | other bytes => exact h.other hcore bytes
    | dispose updates => exact h.dispose hcore

/-- What the listener for `ready` changes. -/
theorem heard_kept (core : WorkerTerminalCore θ) (event : Event) :
    (heard core event).generation = core.generation ∧
      (heard core event).sequence = core.sequence ∧
      (heard core event).lastEventSequence = core.lastEventSequence ∧
      (heard core event).presentation = core.presentation ∧
      (heard core event).requested = core.requested ∧
      ((heard core event).recovering = true → core.recovering = true ∧
        (core.readyListener = some .recovery → heard core event = core ∧
          ¬ (event.kind = .ready ∧ event.generation = core.generation))) := by
  unfold heard
  split
  · split
    · rename_i hlistener
      refine ⟨rfl, rfl, rfl, rfl, rfl, fun hrec => ⟨hrec, fun h => ?_⟩⟩
      rw [hlistener] at h
      cases h
    · split
      · exact ⟨rfl, rfl, rfl, rfl, rfl, fun hrec => by cases hrec⟩
      · rename_i hgen
        exact ⟨rfl, rfl, rfl, rfl, rfl, fun hrec => ⟨hrec, fun _ => ⟨rfl, fun h => hgen h.2⟩⟩⟩
    · rename_i hlistener
      refine ⟨rfl, rfl, rfl, rfl, rfl, fun hrec => ⟨hrec, fun h => ?_⟩⟩
      rw [hlistener] at h
      cases h
  · rename_i hkind
    exact ⟨rfl, rfl, rfl, rfl, rfl, fun hrec => ⟨hrec, fun _ => ⟨rfl, fun h => hkind h.1⟩⟩⟩

theorem Consonant.opened {event : Event} (h : s.Consonant) (ho : Opened s t id event)
    (hout : ∀ core, s.core id = some core → core.disposed = true) : t.Consonant := by
  have hcores : ∀ k, t.core k = s.core k := fun _ => core_of_cores ho.cores
  refine ⟨ho.keyed h.keyed, ho.cores ▸ h.keys, fun k core hcore hd => ?_, fun k hcore => ?_⟩
  · rw [hcores] at hcore
    by_cases hk : k = id
    · subst hk
      rw [hout core hcore] at hd
      cases hd
    · rw [ho.others k hk]
      exact h.good k core hcore hd
  · rw [hcores] at hcore
    by_cases hk : k = id
    · subst hk
      have hnone := (h.unused k hcore).events
      rw [ho.first] at hnone
      cases hnone
    · rw [ho.others k hk]
      exact h.unused k hcore

theorem Consonant.receive {event : Event} {opened : Slot θ} (h : s.Consonant)
    (ho : Opened s opened id event) (hcore : s.core id = some core) (hd : core.disposed = false)
    (hg : event.kind.failed = true → event.generation = core.generation →
      core.initializationReject = false →
        View.Recoverable core ∧ s.HasRoom (.create core.options)) :
    (opened.receive id core event).Consonant := by
  have hgood := h.good id core hcore hd
  have hopen : opened.core id = some core := (core_of_cores ho.cores).trans hcore
  have hframe : Framed id opened (opened.receive id core event) := framed_receive _ _ _ _
  have hkeyed : (opened.receive id core event).Keyed := hframe.keyed (ho.keyed h.keyed)
  have hkeys : (opened.receive id core event).cores.map Prod.fst = s.cores.map Prod.fst :=
    hframe.keys.trans (congrArg _ ho.cores)
  have hothers : ∀ k, k ≠ id → (opened.receive id core event).view k = s.view k :=
    fun k hk => (hframe.others k hk).trans (ho.others k hk)
  obtain ⟨hgen, hseq, hlast, hpres, hreq, hrec⟩ := heard_kept core event
  have hlistens : (heard core event).recovering = true → core.recovering = true ∧
      (heard core event).readyListener = some .recovery ∧
      (heard core event).initializationReject = false ∧
      ¬ (event.kind = .ready ∧ event.generation = core.generation) := by
    intro hr
    obtain ⟨hwas, hlistener⟩ := hrec hr
    obtain ⟨hsame, hready⟩ := hlistener (hgood.listens hwas)
    rw [hsame]
    exact ⟨hwas, hgood.listens hwas, hgood.rejects hwas, hready⟩
  have hset : ∀ new : WorkerTerminalCore θ, (opened.setCore id new).view id =
      { s.view id with
        core := some new
        events := (opened.view id).events
        flight := if (s.view id).flight = some event.key then none else (s.view id).flight } := by
    intro new
    rw [view_setCore _ hopen, ho.view]
  cases hfilter : decide (event.generation ≠ (heard core event).generation ∨
      event.sequence < (heard core event).lastEventSequence) with
  | true =>
    have hfilter := of_decide_eq_true hfilter
    have heq : opened.receive id core event = opened.setCore id (heard core event) := if_pos hfilter
    apply h.changed hkeyed hkeys hothers ((congrArg (fun s => s.view id) heq).trans (hset _)) rfl
    intro _
    apply hgood.heard (heard core event) ho.first hgen hseq (.inl hlast) hlistens hpres hreq
    rintro ⟨-, hown⟩
    rcases hfilter with hother | hold
    · exact hother (hown.trans hgen.symm)
    · rw [hlast] at hold
      have hheard := hgood.eventsHeard event (ho.first ▸ List.mem_cons_self) hown
      omega
  | false =>
    have hfilter := of_decide_eq_false hfilter
    rw [not_or, not_not, not_lt] at hfilter
    have hown : event.generation = core.generation := hfilter.1.trans hgen
    have hpass : opened.receive id core event =
        if event.kind.failed then
          (opened.fail id { heard core event with lastEventSequence := event.sequence }).1
        else opened.setCore id { heard core event with lastEventSequence := event.sequence } := by
      unfold Slot.receive
      dsimp only
      rw [if_neg (by rw [not_or, not_not, not_lt]; exact hfilter)]
    rcases Bool.eq_false_or_eq_true event.kind.failed with hfailed | hfailed
    · have hkind : event.kind ≠ .ready := by
        intro hk
        rw [hk] at hfailed
        cases hfailed
      rw [if_pos hfailed, (heard_eq core event).2 hkind] at hpass
      rcases fail_cases opened id { core with lastEventSequence := event.sequence } with
        ⟨hidle, hf⟩ | ⟨-, -, -, hf⟩ | ⟨-, hidle, hreject, hf⟩
      · have hrecovering : core.recovering = true := by simpa [hd] using hidle
        have hr := (hg hfailed hown (hgood.rejects hrecovering)).1.idle
        rw [hrecovering] at hr
        cases hr
      · rw [hf] at hpass
        apply h.changed hkeyed hkeys hothers
          ((congrArg (fun s => s.view id) hpass).trans (release_view _ hopen)) rfl
        intro hdisposed
        cases hdisposed
      · obtain ⟨hrecoverable, hroom⟩ := hg hfailed hown hreject
        rw [hf] at hpass
        have hsent := send_view ({ core with
            recovering := true
            generation := core.generation + 1
            sequence := 0
            lastEventSequence := 0
            readyListener := some .recovery } : WorkerTerminalCore θ)
          (.create { core.options with presentation := core.presentation }) hopen
        have hok : (opened.send id { core with
            recovering := true
            generation := core.generation + 1
            sequence := 0
            lastEventSequence := 0
            readyListener := some .recovery }
          (.create { core.options with presentation := core.presentation })).2 = true :=
          send_room _ _ (ho.room _ hroom)
        rw [hok, if_pos rfl, ho.view] at hsent
        apply h.changed hkeyed hkeys hothers
          ((congrArg (fun s => s.view id) hpass).trans hsent) rfl
        intro _
        obtain ⟨htrail, hsingle⟩ := hgood.taken ho.first
        exact View.good_recovering (v := { s.view id with
            events := (opened.view id).events
            flight := if (s.view id).flight = some event.key then none else (s.view id).flight })
          htrail hsingle hgood.shown hrecoverable hreject _
    · rw [if_neg (by simp [hfailed])] at hpass
      apply h.changed hkeyed hkeys hothers
        ((congrArg (fun s => s.view id) hpass).trans (hset _)) rfl
      intro _
      apply hgood.heard { heard core event with lastEventSequence := event.sequence } ho.first hgen hseq
        (.inr ⟨hown, rfl⟩) hlistens hpres hreq
      rintro ⟨hf, -⟩
      rw [hfailed] at hf
      cases hf

theorem Consonant.deliver (h : s.Consonant) (hg : KeepsRequests s .deliver)
    (hs : s.deliver = some t) : t.Consonant := by
  obtain ⟨id, event, rest, opened, houtbox, ho, ⟨hout, rfl⟩ | ⟨core, hcore, hactive, rfl⟩⟩ :=
    deliver_cases hs
  · exact h.opened ho hout
  · apply h.receive ho hcore hactive
    exact fun hfailed hown hreject =>
      hg id event rest core houtbox hfailed hcore hactive hown hreject

theorem Consonant.workerFailed (h : s.Consonant) (hg : KeepsRequests s .workerFailed) :
    s.workerFailed.Consonant := by
  obtain ⟨hfew, hrecoverable⟩ := hg
  obtain ⟨hworker, hkeys, hkeyed⟩ := workerFailed_frame s
  have hfits : s.replaced.Fits s.terminals.length := by
    constructor
    · change (0 : ℤ) + s.terminals.length ≤ maxCommands
      exact_mod_cast (Nat.zero_add _).le.trans hfew
    · change (0 : ℤ) + 256 * s.terminals.length ≤ maxBytes
      unfold maxCommands at hfew
      unfold maxBytes
      push_cast
      omega
  refine ⟨hkeyed, hkeys.symm ▸ h.keys, fun k core hcore hd => ?_, fun k hcore => ?_⟩
  · rcases workerFailed_view h.keys k with ⟨hview, hnot⟩ | ⟨old, before, hold, hactive, hbefore, hroom, hview⟩
    · have hsame : s.core k = some core := (core_of_view hview).symm.trans hcore
      exact absurd hfits (hnot core hsame hd)
    · have hgood := h.good k old hold hactive
      have hbcore : before.core k = some old := (core_of_view hbefore).trans hold
      have hnew : (before.fail k old).1.core k = some core := (core_of_view hview).symm.trans hcore
      rw [hview]
      rcases fail_cases before k old with ⟨hidle, hf⟩ | ⟨-, -, -, hf⟩ | ⟨-, -, hreject, hf⟩
      · have hrec : old.recovering = true := by simpa [hactive] using hidle
        have hr := (hrecoverable k old hold hactive (hgood.rejects hrec)).idle
        rw [hrec] at hr
        cases hr
      · rw [hf] at hnew
        obtain rfl := Option.some.inj ((core_of_view (release_view _ hbcore)).symm.trans hnew)
        cases hd
      · have hsent := send_view ({ old with
            recovering := true
            generation := old.generation + 1
            sequence := 0
            lastEventSequence := 0
            readyListener := some .recovery } : WorkerTerminalCore θ)
          (.create { old.options with presentation := old.presentation }) hbcore
        have hok : (before.fail k old).2 = true := Fits.told (hroom hfits)
        rw [hf] at hok hnew ⊢
        rw [hok, if_pos rfl, hbefore] at hsent
        obtain rfl := Option.some.inj ((core_of_view hsent).symm.trans hnew)
        rw [hsent]
        exact View.good_recovering (v := s.replaced.view k) (Trail.nil old.top) (.inl rfl)
          hgood.shown (hrecoverable k old hold hactive hreject) hreject _
  · rcases workerFailed_view h.keys k with ⟨hview, -⟩ | ⟨old, before, hold, -, hbefore, -, hview⟩
    · rw [hview]
      exact ⟨rfl, rfl, rfl, rfl⟩
    · have hbcore : before.core k = some old := (core_of_view hbefore).trans hold
      have hsome : (before.fail k old).1.core k ≠ none := by
        rcases fail_cases before k old with ⟨-, hf⟩ | ⟨-, -, -, hf⟩ | ⟨-, -, -, hf⟩ <;> rw [hf]
        · rw [core_of_view (view_setCore _ hbcore)]
          simp
        · rw [core_of_view (release_view _ hbcore)]
          simp
        · rw [core_of_view (send_view _ _ hbcore)]
          simp
      exact absurd ((core_of_view hview).symm.trans hcore) hsome

theorem Consonant.create {options : Settings θ} (h : s.Consonant) (fresh : s.core id = none)
    (hroom : s.HasRoom (.create options)) : (s.create id options).Consonant := by
  obtain ⟨hkeys, hkeyed, hothers, ok, hok, hview⟩ := create_frame options fresh
  have hunused := h.unused id fresh
  rw [hok hroom, if_pos rfl, hunused.waiting] at hview
  refine ⟨hkeyed h.keyed, ?_, fun k core hcore hd => ?_, fun k hcore => ?_⟩
  · rw [hkeys, List.nodup_append]
    refine ⟨h.keys, List.nodup_singleton _, ?_⟩
    rintro a ha b hb rfl
    obtain rfl := List.mem_singleton.mp hb
    obtain ⟨row, hrow, hid⟩ := List.mem_map.mp ha
    exact findRow_eq_none.mp (Option.map_eq_none_iff.mp fresh) row hrow hid
  · by_cases hk : k = id
    · subst hk
      obtain rfl := Option.some.inj ((core_of_view hview).symm.trans hcore)
      have hatWorker : (s.view k).creating.map Creation.command ++ (s.view k).posted = [] := by
        rw [hunused.creating, hunused.posted]
        rfl
      have hcommands : ((s.create k options).view k).commands = [⟨1, 1, .create options⟩] := by
        rw [hview]
        exact congrArg (· ++ [(⟨1, 1, .create options⟩ : Command θ)]) hatWorker
      have hevents : ((s.create k options).view k).events = [] := by
        rw [hview]
        exact hunused.events
      refine ⟨?_, ?_, fun _ _ _ => Nat.zero_le _, Nat.zero_le _, .inl ?_, rfl, ?_, ?_, ?_⟩
      · rw [hevents, hcommands]
        exact (Trail.nil (toLex (1, 0))).push (Prod.Lex.toLex_lt_toLex.mpr (.inr ⟨rfl, Nat.one_pos⟩))
      · rw [hevents]
        exact fun _ he => nomatch he
      · rw [hview]
        exact hatWorker
      · exact fun hrec => nomatch hrec
      · exact fun hrec => nomatch hrec
      · exact .creating [] [] 1 options hcommands (by simp) rfl
    · rw [hothers k hk]
      exact h.good k core ((core_of_view (hothers k hk)).symm.trans hcore) hd
  · by_cases hk : k = id
    · subst hk
      rw [core_of_view hview] at hcore
      cases hcore
    · rw [hothers k hk]
      exact h.unused k ((core_of_view (hothers k hk)).symm.trans hcore)

theorem Unused.works {v v' : View θ} (h : Unused v) (hw : Works v v') : Unused v' := by
  obtain ⟨hwaiting, hposted, hcreating, hevents⟩ := h
  cases hw with
  | idle => exact ⟨hwaiting, hposted, hcreating, hevents⟩
  | serve command rest waiting =>
    rw [hwaiting] at waiting
    cases waiting
  | begin generation sequence settings rest posted =>
    rw [hposted] at posted
    cases posted
  | ignore command rest posted =>
    rw [hposted] at posted
    cases posted
  | run command rest entry after kind posted =>
    rw [hposted] at posted
    cases posted
  | created creation index after kinds under =>
    rw [hcreating] at under
    cases under

theorem Consonant.works (h : s.Consonant) (hkeyed : t.Keyed) (hcores : t.cores = s.cores)
    (hw : ∀ k, Works (s.view k) (t.view k)) : t.Consonant := by
  have hsame : ∀ k, t.core k = s.core k := fun _ => core_of_cores hcores
  refine ⟨hkeyed, hcores ▸ h.keys, fun k core hcore hd => ?_, fun k hcore => ?_⟩
  · exact (h.good k core ((hsame k).symm.trans hcore) hd).works (hw k)
  · exact (h.unused k ((hsame k).symm.trans hcore)).works (hw k)

theorem Consonant.initializationTimeout (h : s.Consonant) (hcore : s.core id = some core) :
    (s.initializationTimeout id core).Consonant := by
  have hset := view_setCore { core with initializationReject := false } hcore
  have hkept : (s.setCore id { core with initializationReject := false }).Consonant := by
    apply h.setCore hcore
    intro hd
    have hgood := h.good id core hcore hd
    exact hgood.recore ⟨rfl, rfl, rfl, rfl, rfl⟩ rfl le_rfl rfl rfl hgood.listens (fun _ => rfl)
      hgood.shown rfl
  exact hkept.dispose (core_of_view hset)

theorem consonant_step (h : s.Consonant) (hg : KeepsRequests s a)
    (hs : machine.step s a = some t) : t.Consonant := by
  cases a with
  | create id options =>
    dsimp only [machine, step] at hs
    split at hs
    · rename_i fresh
      obtain rfl := Option.some.inj hs
      exact h.create fresh hg
    · cases hs
  | initializationTimeout id =>
    dsimp only [machine, step] at hs
    split at hs
    · rename_i core hcore
      split at hs
      · obtain rfl := Option.some.inj hs
        exact h.initializationTimeout hcore
      · cases hs
    · cases hs
  | call id call =>
    dsimp only [machine, step] at hs
    split at hs
    · rename_i core hcore
      split at hs
      · cases hs
      · obtain rfl := Option.some.inj hs
        exact h.call hcore hg
    · cases hs
  | microtask =>
    obtain ⟨hkeyed, hcores, hw⟩ := works_of_step h.keyed (.inl rfl) hs
    exact h.works hkeyed hcores hw
  | deliver => exact h.deliver hg hs
  | handle outcome =>
    obtain ⟨hkeyed, hcores, hw⟩ := works_of_step h.keyed (.inr (.inl ⟨_, rfl⟩)) hs
    exact h.works hkeyed hcores hw
  | created id index outcome =>
    obtain ⟨hkeyed, hcores, hw⟩ := works_of_step h.keyed (.inr (.inr ⟨_, _, _, rfl⟩)) hs
    exact h.works hkeyed hcores hw
  | workerFailed =>
    obtain rfl := Option.some.inj hs
    exact h.workerFailed hg

end Slot
end PiDeck.Worker
