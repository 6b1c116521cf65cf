import Mathlib
import PiDeck.ColdRows.Provider
import PiDeck.Collections.Results
import PiDeck.Transition.Machine

/-! What the cache of archived rows keeps over all orders of calls and replies, and when a late
reply can put an older index in the place of the current one. -/
namespace PiDeck.ColdRows
open PiDeck.Collections PiDeck.Transition

namespace TerminalColdRowProvider
variable {s t : TerminalColdRowProvider}

/-- Every cached page is of the current epoch and index, and the budget is kept. -/
structure Coherent (s : TerminalColdRowProvider) : Prop where
  current : ∀ e ∈ s.pages.entries, e.2.page.terminalEpoch = s.terminalEpoch ∧
    s.indexGeneration = some e.2.page.indexGeneration
  sizes : ∀ e ∈ s.pages.entries, e.2.bytes = pageBytes e.2.page
  cacheBytes : s.cacheBytes = s.pages.sum CachedPage.bytes
  withinBytes : s.cacheBytes ≤ s.maximumBytes
  withinPages : s.pages.length ≤ s.maximumPages

/-- Nothing about the cache or the versions it belongs to has changed. -/
theorem Coherent.congr (h : s.Coherent) (he : t.terminalEpoch = s.terminalEpoch)
    (hi : t.indexGeneration = s.indexGeneration) (hp : t.pages = s.pages)
    (hb : t.cacheBytes = s.cacheBytes) (hmb : t.maximumBytes = s.maximumBytes)
    (hmp : t.maximumPages = s.maximumPages) : t.Coherent := by
  constructor
  · rw [hp, he, hi]
    exact h.current
  · rw [hp]
    exact h.sizes
  · rw [hp, hb]
    exact h.cacheBytes
  · rw [hb, hmb]
    exact h.withinBytes
  · rw [hp, hmp]
    exact h.withinPages

/-- An empty cache is coherent. -/
theorem coherent_of_empty (hp : s.pages = .empty) (hb : s.cacheBytes = 0) : s.Coherent := by
  constructor
  · rw [hp]
    intro e he
    cases he
  · rw [hp]
    intro e he
    cases he
  · rw [hp, hb]
    rfl
  · rw [hb]
    exact Int.natCast_nonneg _
  · rw [hp]
    exact Nat.zero_le _

theorem coherent_new {epoch : String} {pages bytes : Option ℤ}
    (h : new epoch pages bytes = .ok s) : s.Coherent ∧ s.indexGeneration = none := by
  unfold new at h
  split at h
  · cases h
  · obtain ⟨p, -, h⟩ := Except.bind_ok.mp h
    obtain ⟨b, -, h⟩ := Except.bind_ok.mp h
    obtain rfl := Except.ok.inj h
    exact ⟨coherent_of_empty rfl rfl, rfl⟩

theorem Coherent.invalidate (h : s.Coherent) (clear : Bool) : (s.invalidate clear).Coherent := by
  cases clear with
  | false => exact h.congr rfl rfl rfl rfl rfl rfl
  | true => exact coherent_of_empty rfl rfl

/-- Dropping the oldest page takes its size out of the sum. -/
theorem evict_coherent (n : ℕ) (hn : s.pages.length ≤ n)
    (hc : ∀ e ∈ s.pages.entries, e.2.page.terminalEpoch = s.terminalEpoch ∧
      s.indexGeneration = some e.2.page.indexGeneration)
    (hs : ∀ e ∈ s.pages.entries, e.2.bytes = pageBytes e.2.page)
    (hb : s.cacheBytes = s.pages.sum CachedPage.bytes) : (evict n s).Coherent := by
  induction n generalizing s with
  | zero =>
    have hnil : s.pages.entries = [] := List.eq_nil_of_length_eq_zero (Nat.le_zero.mp hn)
    have hzero : s.cacheBytes = 0 := by
      rw [hb, IndexMap.sum, hnil]
      rfl
    refine ⟨hc, hs, hb, ?_, ?_⟩
    · rw [evict, hzero]
      exact Int.natCast_nonneg _
    · exact (Nat.le_zero.mp hn).le.trans (Nat.zero_le _)
  | succ n ih =>
    unfold evict
    split
    · rename_i hover
      cases hfirst : s.pages.first? with
      | none =>
        have hnil := IndexMap.first?_eq_none.mp hfirst
        have hzero : s.cacheBytes = 0 := by
          rw [hb, IndexMap.sum, hnil]
          rfl
        refine ⟨hc, hs, hb, ?_, ?_⟩
        · rw [hzero]
          exact Int.natCast_nonneg _
        · rw [IndexMap.length, hnil]
          exact Nat.zero_le _
      | some oldest =>
        have hmem := IndexMap.first?_mem hfirst
        have hget := IndexMap.get?_eq_some.mpr hmem
        have hsum := IndexMap.sum_shiftRemove (g := CachedPage.bytes) hget
        have hlen : (s.pages.shiftRemove oldest.1).length < s.pages.length := by
          apply List.length_filter_lt_length_iff_exists.mpr
          exact ⟨oldest, hmem, by simp⟩
        apply ih
        · change (s.pages.shiftRemove oldest.1).length ≤ n
          omega
        · exact fun e he => hc e (IndexMap.mem_shiftRemove.mp he).1
        · exact fun e he => hs e (IndexMap.mem_shiftRemove.mp he).1
        · change s.cacheBytes - oldest.2.bytes =
            ((s.pages.shiftRemove oldest.1).sum CachedPage.bytes : ℤ)
          rw [hb]
          omega
    · rename_i hwithin
      exact ⟨hc, hs, hb, by omega, by omega⟩

theorem evict_versions (n : ℕ) (s : TerminalColdRowProvider) :
    (evict n s).indexGeneration = s.indexGeneration ∧
      (evict n s).requestGeneration = s.requestGeneration := by
  induction n generalizing s with
  | zero => exact ⟨rfl, rfl⟩
  | succ n ih =>
    unfold evict
    split
    · split
      · exact ⟨rfl, rfl⟩
      · exact ih _
    · exact ⟨rfl, rfl⟩

theorem Coherent.remember (h : s.Coherent) {entry : CachedPage}
    (hc : entry.page.terminalEpoch = s.terminalEpoch ∧
      s.indexGeneration = some entry.page.indexGeneration)
    (hs : entry.bytes = pageBytes entry.page) : (s.remember entry).Coherent := by
  have hsum := IndexMap.sum_insert (m := s.pages) (k := entry.key) (v := entry)
    (g := CachedPage.bytes)
  apply evict_coherent _ le_rfl
  · intro e he
    rcases IndexMap.mem_of_mem_insert he with he | rfl
    · exact h.current e he
    · exact hc
  · intro e he
    rcases IndexMap.mem_of_mem_insert he with he | rfl
    · exact h.sizes e he
    · exact hs
  · have hb := h.cacheBytes
    change s.cacheBytes - _ + _ = ((s.pages.insert entry.key entry).sum CachedPage.bytes : ℤ)
    omega

section AcceptVersion
variable {epoch index : String} {generation : ℕ}

/-- A reply is accepted in its own generation and epoch; another index than the known one empties
the cache and begins a generation. -/
theorem acceptVersion_ok : s.acceptVersion epoch index generation = .ok t ↔
    generation = s.requestGeneration ∧ epoch = s.terminalEpoch ∧
      t = { (if s.indexGeneration.any (fun known => decide (known ≠ index)) then s.invalidate true
        else s) with indexGeneration := some index } := by
  unfold acceptVersion
  by_cases hg : generation = s.requestGeneration
  · by_cases he : epoch = s.terminalEpoch
    · rw [if_neg (not_not.mpr hg), if_neg (not_not.mpr he)]
      constructor
      · intro h
        exact ⟨hg, he, (Except.ok.inj h).symm⟩
      · rintro ⟨-, -, rfl⟩
        rfl
    · rw [if_neg (not_not.mpr hg), if_pos he]
      constructor
      · intro h
        cases h
      · exact fun h => absurd h.2.1 he
  · rw [if_pos hg]
    constructor
    · intro h
      cases h
    · exact fun h => absurd h.1 hg

theorem Coherent.acceptVersion (h : s.Coherent)
    (hok : s.acceptVersion epoch index generation = .ok t) :
    t.Coherent ∧ t.terminalEpoch = epoch ∧ t.indexGeneration = some index := by
  obtain ⟨-, rfl, rfl⟩ := acceptVersion_ok.mp hok
  by_cases hr : s.indexGeneration.any (fun known => decide (known ≠ index)) = true
  · rw [if_pos hr]
    exact ⟨coherent_of_empty rfl rfl, rfl, rfl⟩
  · rw [if_neg hr]
    refine ⟨⟨?_, h.sizes, h.cacheBytes, h.withinBytes, h.withinPages⟩, rfl, rfl⟩
    intro e he
    obtain ⟨hepoch, hindex⟩ := h.current e he
    rw [hindex] at hr
    have hsame : e.2.page.indexGeneration = index := by simpa using hr
    exact ⟨hepoch, congrArg some hsame.symm⟩

end AcceptVersion

theorem Coherent.acceptRows (h : s.Coherent) {request : RowsRequest} {page : TerminalColdRowPage}
    (hok : s.acceptRows request page = .ok t) : t.Coherent := by
  obtain ⟨-, -, hok⟩ := Except.bind_ok.mp hok
  obtain ⟨u, hu, hok⟩ := Except.bind_ok.mp hok
  obtain ⟨hc, he, hi⟩ := h.acceptVersion hu
  dsimp only at hok
  split at hok
  · obtain rfl := Except.ok.inj hok
    exact hc.remember ⟨he.symm, hi⟩ rfl
  · obtain rfl := Except.ok.inj hok
    exact hc

theorem Coherent.acceptHits (h : s.Coherent) {request : SearchRequest}
    {result : TerminalColdSearchPage} (hok : s.acceptHits request result = .ok t) : t.Coherent := by
  unfold TerminalColdRowProvider.acceptHits at hok
  split at hok
  · cases hok
  · obtain ⟨-, -, hok⟩ := Except.bind_ok.mp hok
    exact (h.acceptVersion hok).1

theorem Coherent.setEpoch (h : s.Coherent) {epoch : String} (hok : s.setEpoch epoch = .ok t) :
    t.Coherent := by
  unfold TerminalColdRowProvider.setEpoch at hok
  split_ifs at hok
  · obtain rfl := Except.ok.inj hok
    exact h
  · obtain rfl := Except.ok.inj hok
    exact coherent_of_empty rfl rfl

/-- A page that is read again becomes the youngest. -/
theorem Coherent.touch (h : s.Coherent) {key : String} {cached : CachedPage}
    (hget : s.pages.get? key = some cached) :
    ({ s with pages := (s.pages.shiftRemove key).insert key cached } :
      TerminalColdRowProvider).Coherent := by
  have hmem : ∀ e ∈ ((s.pages.shiftRemove key).insert key cached).entries, e ∈ s.pages.entries := by
    intro e he
    rcases IndexMap.mem_of_mem_insert he with he | rfl
    · exact (IndexMap.mem_shiftRemove.mp he).1
    · exact IndexMap.get?_eq_some.mp hget
  refine ⟨fun e he => h.current e (hmem e he), fun e he => h.sizes e (hmem e he), ?_,
    h.withinBytes, ?_⟩
  · change s.cacheBytes = (((s.pages.shiftRemove key).insert key cached).sum CachedPage.bytes : ℤ)
    rw [IndexMap.sum_reinsert hget]
    exact h.cacheBytes
  · change ((s.pages.shiftRemove key).insert key cached).length ≤ s.maximumPages
    rw [IndexMap.length_eq_sum, IndexMap.sum_reinsert hget, ← IndexMap.length_eq_sum]
    exact h.withinPages

/-- A request that is begun, whatever it is for, only takes a place among the controllers. -/
theorem beginRequest_ok {ticket : ℕ} (h : s.beginRequest ticket = .ok t) :
    t = { s with controllers := s.controllers ++ [ticket] } := by
  obtain ⟨-, -, h⟩ := Except.bind_ok.mp h
  split at h
  · cases h
  · exact (Except.ok.inj h).symm

theorem Coherent.readRows (h : s.Coherent) {ticket : ℕ} {cursor : Option String}
    {direction : Option RowDirection} {rowLimit byteLimit : Option ℤ} {answer : ReadRows}
    (hok : s.readRows ticket cursor direction rowLimit byteLimit = .ok (t, answer)) :
    t.Coherent := by
  obtain ⟨-, -, hok⟩ := Except.bind_ok.mp hok
  obtain ⟨rl, -, hok⟩ := Except.bind_ok.mp hok
  obtain ⟨bl, -, hok⟩ := Except.bind_ok.mp hok
  dsimp only at hok
  split at hok
  · rename_i cached hget
    cases hok
    exact h.touch hget
  · split at hok
    · cases hok
      exact h
    · obtain ⟨u, hu, hok⟩ := Except.bind_ok.mp hok
      obtain rfl := beginRequest_ok hu
      cases hok
      exact h.congr rfl rfl rfl rfl rfl rfl

theorem Coherent.search (h : s.Coherent) (ticket : ℕ) (query : String)
    (caseSensitive : Option Bool) (resultLimit : Option ℤ) :
    (s.search ticket query caseSensitive resultLimit).1.Coherent := by
  have hselect : ∀ key, (s.selectQuery key).Coherent := by
    intro key
    unfold selectQuery
    split
    · exact h
    · exact h.congr rfl rfl rfl rfl rfl rfl
  dsimp only [TerminalColdRowProvider.search]
  split
  · exact h
  · split
    · exact hselect _
    · rename_i u hu
      rw [beginRequest_ok hu]
      exact (hselect _).congr rfl rfl rfl rfl rfl rfl

/-- Calls leave the versions, and a request is begun with them. -/
theorem readRows_versions {ticket : ℕ} {cursor : Option String} {direction : Option RowDirection}
    {rowLimit byteLimit : Option ℤ} {answer : ReadRows}
    (hok : s.readRows ticket cursor direction rowLimit byteLimit = .ok (t, answer)) :
    t.indexGeneration = s.indexGeneration ∧ t.requestGeneration = s.requestGeneration ∧
      ∀ request, answer = .request request → request.toBegun = s.begun ticket := by
  obtain ⟨-, -, hok⟩ := Except.bind_ok.mp hok
  obtain ⟨rl, -, hok⟩ := Except.bind_ok.mp hok
  obtain ⟨bl, -, hok⟩ := Except.bind_ok.mp hok
  dsimp only at hok
  split at hok
  · cases hok
    refine ⟨rfl, rfl, ?_⟩
    rintro request ⟨⟩
  · split at hok
    · cases hok
      refine ⟨rfl, rfl, ?_⟩
      rintro request ⟨⟩
    · obtain ⟨u, hu, hok⟩ := Except.bind_ok.mp hok
      obtain rfl := beginRequest_ok hu
      cases hok
      refine ⟨rfl, rfl, ?_⟩
      rintro request ⟨⟩
      rfl

theorem search_versions (s : TerminalColdRowProvider) (ticket : ℕ) (query : String)
    (caseSensitive : Option Bool) (resultLimit : Option ℤ) :
    (s.search ticket query caseSensitive resultLimit).1.indexGeneration = s.indexGeneration ∧
      (s.search ticket query caseSensitive resultLimit).1.requestGeneration =
        s.requestGeneration ∧
      ∀ request, (s.search ticket query caseSensitive resultLimit).2 = .ok request →
        request.toBegun = s.begun ticket := by
  have hselect : ∀ key, (s.selectQuery key).indexGeneration = s.indexGeneration ∧
      (s.selectQuery key).requestGeneration = s.requestGeneration ∧
      (s.selectQuery key).begun ticket = s.begun ticket := by
    intro key
    unfold selectQuery
    split <;> exact ⟨rfl, rfl, rfl⟩
  dsimp only [TerminalColdRowProvider.search]
  split
  · refine ⟨rfl, rfl, ?_⟩
    rintro request ⟨⟩
  · split
    · refine ⟨(hselect _).1, (hselect _).2.1, ?_⟩
      rintro request ⟨⟩
    · rename_i u hu
      rw [beginRequest_ok hu]
      refine ⟨(hselect _).1, (hselect _).2.1, ?_⟩
      rintro request ⟨⟩
      exact (hselect _).2.2

end TerminalColdRowProvider

/-- A request that waits for its reply. -/
inductive Request
  | rows (request : RowsRequest)
  | search (request : SearchRequest)

def Request.begun : Request → Begun
  | .rows request => request.toBegun
  | .search request => request.toBegun

/-- The provider with the requests that are under way. `tickets` counts the requests begun so far,
and `established` is its value when the current index was accepted first. -/
structure View where
  provider : TerminalColdRowProvider
  waiting : List Request
  tickets : ℕ
  established : ℕ

inductive ViewStep
  | readRows (cursor : Option String) (direction : Option RowDirection)
      (rowLimit byteLimit : Option ℤ)
  | search (query : String) (caseSensitive : Option Bool) (resultLimit : Option ℤ)
  | setEpoch (terminalEpoch : String)
  | cancelPending
  | dispose
  | rowsReply (ticket : ℕ) (page : TerminalColdRowPage)
  | searchReply (ticket : ℕ) (result : TerminalColdSearchPage)
  | fails (ticket : ℕ)
  | settles (ticket : ℕ)

namespace View
open TerminalColdRowProvider

def start (provider : TerminalColdRowProvider) : View := ⟨provider, [], 0, 0⟩

def request? (v : View) (ticket : ℕ) : Option Request :=
  v.waiting.find? fun request => request.begun.ticket = ticket

/-- The end of a request, with what its reply made of the provider; a reply that is refused leaves
it as it is. -/
def replied (v : View) (ticket : ℕ) (outcome : Except ColdError TerminalColdRowProvider) : View :=
  let provider := outcome.toOption.getD v.provider
  { v with
    provider := provider.finish ticket
    waiting := v.waiting.filter fun request => request.begun.ticket ≠ ticket
    established :=
      if provider.indexGeneration = v.provider.indexGeneration then v.established else v.tickets }

/-- Calls that throw change nothing, up to what `search` has changed before. -/
def step (v : View) : ViewStep → Option View
  | .readRows cursor direction rowLimit byteLimit =>
    match v.provider.readRows v.tickets cursor direction rowLimit byteLimit with
    | .error _ => some v
    | .ok (provider, .request request) =>
      some { v with provider, waiting := v.waiting ++ [.rows request], tickets := v.tickets + 1 }
    | .ok (provider, _) => some { v with provider }
  | .search query caseSensitive resultLimit =>
    match v.provider.search v.tickets query caseSensitive resultLimit with
    | (provider, .error _) => some { v with provider }
    | (provider, .ok request) =>
      some { v with provider, waiting := v.waiting ++ [.search request], tickets := v.tickets + 1 }
  | .setEpoch terminalEpoch =>
    some { v with provider := (v.provider.setEpoch terminalEpoch).toOption.getD v.provider }
  | .cancelPending => some { v with provider := v.provider.cancelPending }
  | .dispose => some { v with provider := v.provider.dispose }
  | .rowsReply ticket page =>
    match v.request? ticket with
    | some (.rows request) => some (v.replied ticket (v.provider.acceptRows request page))
    | _ => none
  | .searchReply ticket result =>
    match v.request? ticket with
    | some (.search request) => some (v.replied ticket (v.provider.acceptHits request result))
    | _ => none
  | .fails ticket =>
    match v.request? ticket with
    | some _ => some (v.replied ticket (.ok v.provider))
    | none => none
  | .settles ticket =>
    match v.request? ticket with
    | some _ => none
    | none => some { v with provider := v.provider.settle ticket }

def machine : Machine View ViewStep := ⟨step⟩

/-- What an accepted reply does to the versions: it begins a generation if it replaces an index. -/
theorem acceptVersion_versions {s t : TerminalColdRowProvider} {epoch index : String}
    {generation : ℕ} (h : s.acceptVersion epoch index generation = .ok t) :
    generation = s.requestGeneration ∧ t.indexGeneration = some index ∧
      ((s.indexGeneration = none ∨ s.indexGeneration = some index) ∧
          t.requestGeneration = s.requestGeneration ∨
        t.requestGeneration = s.requestGeneration + 1) := by
  obtain ⟨hg, -, rfl⟩ := acceptVersion_ok.mp h
  refine ⟨hg, rfl, ?_⟩
  by_cases hr : s.indexGeneration.any (fun known => decide (known ≠ index)) = true
  · rw [if_pos hr]
    exact .inr rfl
  · rw [if_neg hr]
    refine .inl ⟨?_, rfl⟩
    cases hi : s.indexGeneration with
    | none => exact .inl rfl
    | some known =>
      rw [hi] at hr
      exact .inr (congrArg some (by simpa using hr))

theorem acceptRows_versions {s t : TerminalColdRowProvider} {request : RowsRequest}
    {page : TerminalColdRowPage} (h : s.acceptRows request page = .ok t) :
    validateRows page.rows request.rowLimit request.byteLimit = .ok () ∧
      ∃ u, s.acceptVersion page.terminalEpoch page.indexGeneration request.generation = .ok u ∧
        t.indexGeneration = u.indexGeneration ∧ t.requestGeneration = u.requestGeneration := by
  obtain ⟨_, hv, h⟩ := Except.bind_ok.mp h
  obtain ⟨u, hu, h⟩ := Except.bind_ok.mp h
  refine ⟨hv, u, hu, ?_⟩
  dsimp only at h
  split at h
  · obtain rfl := Except.ok.inj h
    exact evict_versions _ _
  · obtain rfl := Except.ok.inj h
    exact ⟨rfl, rfl⟩

theorem acceptHits_versions {s t : TerminalColdRowProvider} {request : SearchRequest}
    {result : TerminalColdSearchPage} (h : s.acceptHits request result = .ok t) :
    request.searchGeneration = s.searchGeneration ∧
      validateHits result.hits request.resultLimit = .ok () ∧
      s.acceptVersion result.terminalEpoch result.indexGeneration request.generation = .ok t := by
  unfold acceptHits at h
  split at h
  · cases h
  · rename_i hs
    obtain ⟨_, hv, h⟩ := Except.bind_ok.mp h
    exact ⟨not_not.mp hs, hv, h⟩

/-- The requests of the current generation know the current index, unless they were begun before
any index was established. -/
structure Fenced (v : View) : Prop where
  coherent : v.provider.Coherent
  past : ∀ r ∈ v.waiting, r.begun.ticket < v.tickets
  bounded : ∀ r ∈ v.waiting, r.begun.generation ≤ v.provider.requestGeneration
  unknown : ∀ r ∈ v.waiting, r.begun.generation = v.provider.requestGeneration →
    v.provider.indexGeneration = none → r.begun.indexGeneration = none
  known : ∀ r ∈ v.waiting, r.begun.generation = v.provider.requestGeneration →
    ∀ index, v.provider.indexGeneration = some index →
      r.begun.ticket < v.established ∧ r.begun.indexGeneration = none ∨
        v.established ≤ r.begun.ticket ∧ r.begun.indexGeneration = some index
  early : v.established ≤ v.tickets

variable {v w : View} {a : ViewStep} {as : List ViewStep}

theorem fenced_start {provider : TerminalColdRowProvider} (h : provider.Coherent) :
    (start provider).Fenced := by
  refine ⟨h, ?_, ?_, ?_, ?_, le_rfl⟩ <;> exact fun r hr => absurd hr List.not_mem_nil

/-- The cache and the calls under way change, the versions do not. -/
theorem Fenced.frame (h : v.Fenced) {provider : TerminalColdRowProvider} (hc : provider.Coherent)
    (hi : provider.indexGeneration = v.provider.indexGeneration)
    (hg : provider.requestGeneration = v.provider.requestGeneration) :
    ({ v with provider } : View).Fenced := by
  refine ⟨hc, h.past, ?_, ?_, ?_, h.early⟩
  · rw [hg]
    exact h.bounded
  · rw [hg, hi]
    exact h.unknown
  · rw [hg, hi]
    exact h.known

/-- A new generation leaves no request of the current one. -/
theorem Fenced.fence (h : v.Fenced) {provider : TerminalColdRowProvider} (hc : provider.Coherent)
    (hg : v.provider.requestGeneration < provider.requestGeneration) :
    ({ v with provider } : View).Fenced := by
  have hstale : ∀ r ∈ v.waiting, r.begun.generation ≠ provider.requestGeneration := by
    intro r hr he
    have := h.bounded r hr
    omega
  refine ⟨hc, h.past, ?_, ?_, ?_, h.early⟩
  · intro r hr
    have := h.bounded r hr
    change _ ≤ provider.requestGeneration
    omega
  · exact fun r hr he => absurd he (hstale r hr)
  · exact fun r hr he => absurd he (hstale r hr)

/-- A request is begun with the versions of the provider. -/
theorem Fenced.begin (h : v.Fenced) {provider : TerminalColdRowProvider} (hc : provider.Coherent)
    (hi : provider.indexGeneration = v.provider.indexGeneration)
    (hg : provider.requestGeneration = v.provider.requestGeneration) {request : Request}
    (ht : request.begun.ticket = v.tickets)
    (hrg : request.begun.generation = v.provider.requestGeneration)
    (hri : request.begun.indexGeneration = v.provider.indexGeneration) :
    ({ v with provider, waiting := v.waiting ++ [request], tickets := v.tickets + 1 } :
      View).Fenced := by
  have hmem : ∀ r, r ∈ v.waiting ++ [request] → r ∈ v.waiting ∨ r = request := by
    intro r hr
    simpa using hr
  have hf := h.frame hc hi hg
  have he := h.early
  constructor
  · exact hc
  · intro r hr
    rcases hmem r hr with hr | rfl
    · exact (h.past r hr).trans (Nat.lt_succ_self _)
    · rw [ht]
      exact Nat.lt_succ_self _
  · intro r hr
    rcases hmem r hr with hr | rfl
    · exact hf.bounded r hr
    · rw [hrg, ← hg]
  · intro r hr hgen hnone
    rcases hmem r hr with hr | rfl
    · exact hf.unknown r hr hgen hnone
    · rw [hri, ← hi]
      exact hnone
  · intro r hr hgen index hindex
    rcases hmem r hr with hr | rfl
    · exact hf.known r hr hgen index hindex
    · right
      rw [hri, ← hi]
      exact ⟨he.trans ht.ge, hindex⟩
  · exact he.trans (Nat.le_succ _)

/-- The end of a request, refused or accepted. -/
theorem Fenced.replied (h : v.Fenced) {ticket : ℕ} {outcome : Except ColdError TerminalColdRowProvider}
    (hc : ∀ t, outcome = .ok t → t.Coherent)
    (hv : ∀ t, outcome = .ok t →
      t.indexGeneration = v.provider.indexGeneration ∧
          t.requestGeneration = v.provider.requestGeneration ∨
        v.provider.indexGeneration = none ∧
          t.requestGeneration = v.provider.requestGeneration ∨
        t.requestGeneration = v.provider.requestGeneration + 1) :
    (v.replied ticket outcome).Fenced := by
  have hmem : ∀ r, r ∈ (v.replied ticket outcome).waiting → r ∈ v.waiting :=
    fun r hr => (List.mem_filter.mp hr).1
  have hend : ((outcome.toOption.getD v.provider).finish ticket).Coherent := by
    cases outcome with
    | error e => exact h.coherent.congr rfl rfl rfl rfl rfl rfl
    | ok t => exact (hc t rfl).congr rfl rfl rfl rfl rfl rfl
  have hcases : (outcome.toOption.getD v.provider).indexGeneration = v.provider.indexGeneration ∧
      (outcome.toOption.getD v.provider).requestGeneration = v.provider.requestGeneration ∨
      v.provider.indexGeneration = none ∧
        (outcome.toOption.getD v.provider).requestGeneration = v.provider.requestGeneration ∨
      (outcome.toOption.getD v.provider).requestGeneration = v.provider.requestGeneration + 1 := by
    cases outcome with
    | error e => exact .inl ⟨rfl, rfl⟩
    | ok t => exact hv t rfl
  generalize hp : outcome.toOption.getD v.provider = provider at hend hcases
  have hgen : (v.replied ticket outcome).provider.requestGeneration = provider.requestGeneration ∧
      (v.replied ticket outcome).provider.indexGeneration = provider.indexGeneration := by
    rw [View.replied, hp]
    exact ⟨rfl, rfl⟩
  have hest : (v.replied ticket outcome).established =
      if provider.indexGeneration = v.provider.indexGeneration then v.established
      else v.tickets := by
    rw [View.replied, hp]
  have hbound : v.provider.requestGeneration ≤ provider.requestGeneration := by
    rcases hcases with ⟨-, hg⟩ | ⟨-, hg⟩ | hg <;> omega
  constructor
  · rw [View.replied, hp]
    exact hend
  · exact fun r hr => h.past r (hmem r hr)
  · intro r hr
    rw [hgen.1]
    exact (h.bounded r (hmem r hr)).trans hbound
  · rw [hgen.1, hgen.2]
    intro r hr hcur hnone
    have hb := h.bounded r (hmem r hr)
    rcases hcases with ⟨hi, hg⟩ | ⟨hi, hg⟩ | hg
    · exact h.unknown r (hmem r hr) (hcur.trans hg) (hi ▸ hnone)
    · exact h.unknown r (hmem r hr) (hcur.trans hg) hi
    · omega
  · rw [hgen.1, hgen.2, hest]
    intro r hr hcur index hindex
    have hb := h.bounded r (hmem r hr)
    rcases hcases with ⟨hi, hg⟩ | ⟨hi, hg⟩ | hg
    · rw [if_pos hi]
      exact h.known r (hmem r hr) (hcur.trans hg) index (hi ▸ hindex)
    · -- The first index: whatever waits was begun without one.
      rw [if_neg (by rw [hi, hindex]; exact Option.some_ne_none index)]
      exact .inl ⟨h.past r (hmem r hr), h.unknown r (hmem r hr) (hcur.trans hg) hi⟩
    · omega
  · rw [hest]
    change _ ≤ v.tickets
    split
    · exact h.early
    · exact le_rfl

theorem fenced_step (h : v.Fenced) (hs : machine.step v a = some w) : w.Fenced := by
  cases a with
  | readRows cursor direction rowLimit byteLimit =>
    cases hr : v.provider.readRows v.tickets cursor direction rowLimit byteLimit with
    | error e =>
      obtain rfl : v = w := by simpa [machine, step, hr] using hs
      exact h
    | ok result =>
      obtain ⟨provider, answer⟩ := result
      have hc := h.coherent.readRows hr
      obtain ⟨hi, hg, hb⟩ := readRows_versions hr
      cases answer with
      | cached page =>
        obtain rfl : { v with provider } = w := by simpa [machine, step, hr] using hs
        exact h.frame hc hi hg
      | pending ticket =>
        obtain rfl : { v with provider } = w := by simpa [machine, step, hr] using hs
        exact h.frame hc hi hg
      | request request =>
        obtain rfl : { v with
            provider, waiting := v.waiting ++ [.rows request], tickets := v.tickets + 1 } = w := by
          simpa [machine, step, hr] using hs
        have hreq : (Request.rows request).begun = v.provider.begun v.tickets := hb request rfl
        apply h.begin hc hi hg <;> rw [hreq] <;> rfl
  | search query caseSensitive resultLimit =>
    have hc := h.coherent.search v.tickets query caseSensitive resultLimit
    obtain ⟨hi, hg, hb⟩ :=
      search_versions v.provider v.tickets query caseSensitive resultLimit
    generalize hr : v.provider.search v.tickets query caseSensitive resultLimit = result at hc hi hg hb
    obtain ⟨provider, answer⟩ := result
    cases answer with
    | error e =>
      obtain rfl : { v with provider } = w := by simpa [machine, step, hr] using hs
      exact h.frame hc hi hg
    | ok request =>
      obtain rfl : { v with
          provider, waiting := v.waiting ++ [.search request], tickets := v.tickets + 1 } = w := by
        simpa [machine, step, hr] using hs
      have hreq : (Request.search request).begun = v.provider.begun v.tickets := hb request rfl
      apply h.begin hc hi hg <;> rw [hreq] <;> rfl
  | setEpoch epoch =>
    obtain rfl : { v with provider := (v.provider.setEpoch epoch).toOption.getD v.provider } = w :=
      by simpa [machine, step] using hs
    cases hr : v.provider.setEpoch epoch with
    | error e => exact h
    | ok t =>
      have hc := h.coherent.setEpoch hr
      unfold setEpoch at hr
      split_ifs at hr
      · obtain rfl := Except.ok.inj hr
        exact h
      · obtain rfl := Except.ok.inj hr
        exact h.fence hc (Nat.lt_succ_self _)
  | cancelPending =>
    obtain rfl : { v with provider := v.provider.cancelPending } = w := by
      simpa [machine, step] using hs
    exact h.fence (h.coherent.invalidate false) (Nat.lt_succ_self _)
  | dispose =>
    obtain rfl : { v with provider := v.provider.dispose } = w := by
      simpa [machine, step] using hs
    exact h.fence (coherent_of_empty rfl rfl) (Nat.lt_succ_self _)
  | rowsReply ticket page =>
    obtain ⟨request, hr, rfl⟩ : ∃ request, v.request? ticket = some (.rows request) ∧
        v.replied ticket (v.provider.acceptRows request page) = w := by
      simp only [machine, step] at hs
      split at hs
      · rename_i request hr
        exact ⟨request, hr, Option.some.inj hs⟩
      · cases hs
    apply h.replied
    · exact fun t ht => h.coherent.acceptRows ht
    · intro t ht
      obtain ⟨-, u, hu, hi, hg⟩ := acceptRows_versions ht
      obtain ⟨-, hui, ⟨hnone | hsame, hug⟩ | hug⟩ := acceptVersion_versions hu
      · exact .inr (.inl ⟨hnone, hg.trans hug⟩)
      · exact .inl ⟨(hi.trans hui).trans hsame.symm, hg.trans hug⟩
      · exact .inr (.inr (hg.trans hug))
  | searchReply ticket result =>
    obtain ⟨request, hr, rfl⟩ : ∃ request, v.request? ticket = some (.search request) ∧
        v.replied ticket (v.provider.acceptHits request result) = w := by
      simp only [machine, step] at hs
      split at hs
      · rename_i request hr
        exact ⟨request, hr, Option.some.inj hs⟩
      · cases hs
    apply h.replied
    · exact fun t ht => h.coherent.acceptHits ht
    · intro t ht
      obtain ⟨-, -, hu⟩ := acceptHits_versions ht
      obtain ⟨-, hui, ⟨hnone | hsame, hug⟩ | hug⟩ := acceptVersion_versions hu
      · exact .inr (.inl ⟨hnone, hug⟩)
      · exact .inl ⟨hui.trans hsame.symm, hug⟩
      · exact .inr (.inr hug)
  | fails ticket =>
    obtain rfl : v.replied ticket (.ok v.provider) = w := by
      simp only [machine, step] at hs
      split at hs
      · exact Option.some.inj hs
      · cases hs
    apply h.replied
    · rintro t ⟨⟩
      exact h.coherent
    · rintro t ⟨⟩
      exact .inl ⟨rfl, rfl⟩
  | settles ticket =>
    obtain rfl : { v with provider := v.provider.settle ticket } = w := by
      simp only [machine, step] at hs
      split at hs
      · cases hs
      · exact Option.some.inj hs
    exact h.frame (h.coherent.congr rfl rfl rfl rfl rfl rfl) rfl rfl

theorem fenced_run {C : View → ViewStep → Prop} (h : machine.Path C v as w) (hv : v.Fenced) :
    w.Fenced :=
  h.invariant (fun _ _ _ hi _ h => fenced_step hi h) hv

/-- The request a step ends. -/
def answered (v : View) : ViewStep → Option Request
  | .rowsReply ticket _ | .searchReply ticket _ | .fails ticket => v.request? ticket
  | _ => none

/-- A reply to a request that was begun before the current index was established leaves it. -/
def KeepsIndex (v : View) (a : ViewStep) (w : View) : Prop :=
  ∀ request, v.answered a = some request → request.begun.ticket < v.established →
    ∀ index, v.provider.indexGeneration = some index → w.provider.indexGeneration = some index

/-- A valid reply to a request of the current generation and epoch that was begun without an index
names the index established since, if one was. -/
def Agrees (v : View) : ViewStep → Prop
  | .rowsReply ticket page => ∀ request index, v.request? ticket = some (.rows request) →
      request.indexGeneration = none → v.provider.indexGeneration = some index →
      validateRows page.rows request.rowLimit request.byteLimit = .ok () →
      request.generation = v.provider.requestGeneration →
      page.terminalEpoch = v.provider.terminalEpoch → page.indexGeneration = index
  | .searchReply ticket result => ∀ request index, v.request? ticket = some (.search request) →
      request.indexGeneration = none → v.provider.indexGeneration = some index →
      request.searchGeneration = v.provider.searchGeneration →
      validateHits result.hits request.resultLimit = .ok () →
      request.generation = v.provider.requestGeneration →
      result.terminalEpoch = v.provider.terminalEpoch → result.indexGeneration = index
  | _ => True

/-- For a request of the current generation, begun early and begun without an index are the same. -/
theorem Fenced.early_iff (h : v.Fenced) {request : Request} (hmem : request ∈ v.waiting)
    (hgen : request.begun.generation = v.provider.requestGeneration) {index : String}
    (hindex : v.provider.indexGeneration = some index) :
    request.begun.ticket < v.established ↔ request.begun.indexGeneration = none := by
  rcases h.known request hmem hgen index hindex with ⟨ht, hi⟩ | ⟨ht, hi⟩
  · exact iff_of_true ht hi
  · rw [hi]
    exact iff_of_false (by omega) (by simp)

theorem request?_mem {ticket : ℕ} {request : Request} (h : v.request? ticket = some request) :
    request ∈ v.waiting := List.mem_of_find?_eq_some h

/-- A reply that passes its checks, in its generation and epoch, is accepted. -/
theorem acceptRows_of_valid {s : TerminalColdRowProvider} {request : RowsRequest}
    {page : TerminalColdRowPage}
    (hv : validateRows page.rows request.rowLimit request.byteLimit = .ok ())
    (hg : request.generation = s.requestGeneration) (he : page.terminalEpoch = s.terminalEpoch) :
    ∃ t, s.acceptRows request page = .ok t ∧ t.indexGeneration = some page.indexGeneration := by
  obtain ⟨u, hu⟩ : ∃ u, s.acceptVersion page.terminalEpoch page.indexGeneration
      request.generation = .ok u := ⟨_, acceptVersion_ok.mpr ⟨hg, he, rfl⟩⟩
  have hok : ∃ t, s.acceptRows request page = .ok t := by
    unfold acceptRows
    rw [hv]
    simp only [bind, Except.bind, hu]
    split
    · exact ⟨_, rfl⟩
    · exact ⟨_, rfl⟩
  obtain ⟨t, ht⟩ := hok
  obtain ⟨-, u, hu, hi, -⟩ := acceptRows_versions ht
  exact ⟨t, ht, hi.trans (acceptVersion_versions hu).2.1⟩

theorem acceptHits_of_valid {s : TerminalColdRowProvider} {request : SearchRequest}
    {result : TerminalColdSearchPage} (hs : request.searchGeneration = s.searchGeneration)
    (hv : validateHits result.hits request.resultLimit = .ok ())
    (hg : request.generation = s.requestGeneration)
    (he : result.terminalEpoch = s.terminalEpoch) :
    ∃ t, s.acceptHits request result = .ok t ∧
      t.indexGeneration = some result.indexGeneration := by
  obtain ⟨u, hu⟩ : ∃ u, s.acceptVersion result.terminalEpoch result.indexGeneration
      request.generation = .ok u := ⟨_, acceptVersion_ok.mpr ⟨hg, he, rfl⟩⟩
  refine ⟨u, ?_, (acceptVersion_versions hu).2.1⟩
  unfold acceptHits
  rw [if_neg (not_not.mpr hs), hv]
  exact hu

/-- One reply keeps the index exactly if it agrees with it. -/
theorem keepsIndex_step (h : v.Fenced) (hs : machine.step v a = some w) :
    v.KeepsIndex a w ↔ v.Agrees a := by
  cases a with
  | rowsReply ticket page =>
    obtain ⟨request, hr, rfl⟩ : ∃ request, v.request? ticket = some (.rows request) ∧
        v.replied ticket (v.provider.acceptRows request page) = w := by
      simp only [machine, step] at hs
      split at hs
      · rename_i request hr
        exact ⟨request, hr, Option.some.inj hs⟩
      · cases hs
    constructor
    · intro hkeep request' index hr' hnone hindex hv hg he
      obtain rfl : request' = request := by
        rw [hr] at hr'
        cases hr'
        rfl
      have hearly := (h.early_iff (request?_mem hr) hg hindex).mpr hnone
      obtain ⟨t, ht, hti⟩ := acceptRows_of_valid hv hg he
      have hafter := hkeep _ hr hearly index hindex
      rw [View.replied, ht] at hafter
      exact Option.some.inj (hti.symm.trans hafter)
    · intro hagrees request' hans hearly index hindex
      obtain rfl : request' = .rows request := Option.some.inj (hans.symm.trans hr)
      cases ht : v.provider.acceptRows request page with
      | error e =>
        rw [View.replied]
        exact hindex
      | ok t =>
        obtain ⟨hv, u, hu, hi, -⟩ := acceptRows_versions ht
        obtain ⟨hg, he, -⟩ := acceptVersion_ok.mp hu
        have hnone := (h.early_iff (request?_mem hr) hg hindex).mp hearly
        obtain rfl := hagrees request index hr hnone hindex hv hg he
        rw [View.replied]
        exact hi.trans (acceptVersion_versions hu).2.1
  | searchReply ticket result =>
    obtain ⟨request, hr, rfl⟩ : ∃ request, v.request? ticket = some (.search request) ∧
        v.replied ticket (v.provider.acceptHits request result) = w := by
      simp only [machine, step] at hs
      split at hs
      · rename_i request hr
        exact ⟨request, hr, Option.some.inj hs⟩
      · cases hs
    constructor
    · intro hkeep request' index hr' hnone hindex hsg hv hg he
      obtain rfl : request' = request := by
        rw [hr] at hr'
        cases hr'
        rfl
      have hearly := (h.early_iff (request?_mem hr) hg hindex).mpr hnone
      obtain ⟨t, ht, hti⟩ := acceptHits_of_valid hsg hv hg he
      have hafter := hkeep _ hr hearly index hindex
      rw [View.replied, ht] at hafter
      exact Option.some.inj (hti.symm.trans hafter)
    · intro hagrees request' hans hearly index hindex
      obtain rfl : request' = .search request := Option.some.inj (hans.symm.trans hr)
      cases ht : v.provider.acceptHits request result with
      | error e =>
        rw [View.replied]
        exact hindex
      | ok t =>
        obtain ⟨hsg, hv, hu⟩ := acceptHits_versions ht
        obtain ⟨hg, he, -⟩ := acceptVersion_ok.mp hu
        have hnone := (h.early_iff (request?_mem hr) hg hindex).mp hearly
        obtain rfl := hagrees request index hr hnone hindex hsg hv hg he
        rw [View.replied]
        exact (acceptVersion_versions hu).2.1
  | fails ticket =>
    obtain rfl : v.replied ticket (.ok v.provider) = w := by
      simp only [machine, step] at hs
      split at hs
      · exact Option.some.inj hs
      · cases hs
    exact iff_of_true (fun _ _ _ _ hindex => hindex) trivial
  | _ => exact iff_of_true (fun _ hreq => nomatch hreq) trivial

/-- In every run the cache is coherent and within its limits. A reply keeps an index that was
established after its request was begun exactly if it agrees with it, so in a run whose replies
all agree no such index is replaced. -/
theorem cold_rows_coherent (epoch : String) (pages bytes : Option ℤ)
    (provider : TerminalColdRowProvider) (hnew : new epoch pages bytes = .ok provider) :
    (∀ as v, machine.Run (start provider) as v → v.provider.Coherent) ∧
    (∀ as a bs v w u, machine.Path Agrees (start provider) (as ++ a :: bs) u →
      machine.Run (start provider) as v → machine.step v a = some w → v.KeepsIndex a w) ∧
    ∀ as v a w, machine.Run (start provider) as v → machine.step v a = some w →
      (v.KeepsIndex a w ↔ v.Agrees a) := by
  have hstart := fenced_start (coherent_new hnew).1
  refine ⟨fun as v h => (fenced_run h hstart).coherent, fun as a bs v w u hall h hs => ?_,
    fun as v a w h hs => keepsIndex_step (fenced_run h hstart) hs⟩
  obtain ⟨x, hx, hlast⟩ := hall.split
  obtain rfl := hx.unique h
  cases hlast with
  | cons hagrees _ _ => exact (keepsIndex_step (fenced_run h hstart) hs).mpr hagrees

/-- The provider of the default limits. -/
theorem cold_rows_coherent_default : ∃ provider, new "epoch" none none = .ok provider ∧
    ∀ as v, machine.Run (start provider) as v → v.provider.Coherent :=
  ⟨_, rfl, (cold_rows_coherent "epoch" none none _ rfl).1⟩

def pageOfIndex (index : String) : TerminalColdRowPage :=
  ⟨"epoch", index, [], none, none, 0, none, none⟩

/-- Two pages are asked for before any index is known; the second reply names the newer index, and
the first, which comes last, puts the older one back. -/
theorem late_reply_restores_old_index :
    (new "epoch" none none).toOption.any (fun provider =>
      (machine.exec (fun _ _ => True) (start provider)
        [.readRows none none none none, .readRows (some "cursor") none none none,
          .rowsReply 1 (pageOfIndex "2")]).any fun v =>
        decide (v.provider.indexGeneration = some "2" ∧ v.established = 2) &&
        (machine.exec (fun _ _ => True) v [.rowsReply 0 (pageOfIndex "1")]).any fun w =>
          decide (w.provider.indexGeneration = some "1")) = true := by decide +kernel

end View
end PiDeck.ColdRows
