import Mathlib

/-! Reading rows page by page, newest first. A page ends with a cursor made from its last row, and
the next page has the rows that the cursor lets through. All rows are read exactly when each cursor
lets the row through that comes next. -/
namespace PiDeck.Collections

variable {α γ : Type} {κ : Type*} [LinearOrder κ]

/-- The rows by falling rank. -/
def descending (rank : α → κ) (rows : List α) : List α :=
  rows.insertionSort fun a b => rank b ≤ rank a

structure Page (α γ : Type) where
  rows : List α
  nextCursor : Option γ

/-- One row more than the page holds is looked up, to see whether there are more. -/
def pageOf (limit : ℕ) (encode : Option α → γ) (rows : List α) : Page α γ :=
  let found := rows.take (limit + 1)
  if limit < found.length then
    ⟨found.take limit, some (encode (found.take limit).getLast?)⟩
  else ⟨found, none⟩

/-- Follow the cursors to the end. It gives nothing when the fuel does not suffice. -/
def follow (fetch : Option γ → Page α γ) : ℕ → Option γ → Option (List α)
  | 0, _ => none
  | fuel + 1, cursor =>
    match (fetch cursor).nextCursor with
    | none => some (fetch cursor).rows
    | some next => (follow fetch fuel (some next)).map ((fetch cursor).rows ++ ·)

/-- The same on the rows that are left: `past c` are the rows that the cursor of `c` lets through. -/
def walk (past : α → α → Bool) (limit : ℕ) : ℕ → List α → Option (List α)
  | 0, _ => none
  | fuel + 1, rows =>
    if limit < rows.length then
      match (rows.take limit).getLast? with
      | none => none
      | some last => (walk past limit fuel (rows.filter (past last))).map (rows.take limit ++ ·)
    else some rows

/-- The cursor at the end of each full page lets the next row through. -/
def Continued (past : α → α → Bool) (limit : ℕ) (rows : List α) : Prop :=
  ∀ page last next, 0 < page → rows[page * limit - 1]? = some last →
    rows[page * limit]? = some next → past last next = true

section Walk
variable {rank : α → κ} {past : α → α → Bool} {limit fuel : ℕ} {rows rest : List α} {last next : α}

/-- A cursor lets through only later rows, and with a row all later ones. -/
structure Keyset (rank : α → κ) (past : α → α → Bool) : Prop where
  later : ∀ last row, past last row = true → rank row < rank last
  closed : ∀ last row next, past last row = true → rank next ≤ rank row → past last next = true

abbrev Falling (rank : α → κ) (rows : List α) : Prop := rows.Pairwise fun a b => rank b < rank a

theorem Continued.head (h : Continued past limit rows) (hlast : rows[limit - 1]? = some last)
    (hnext : rows[limit]? = some next) : past last next = true :=
  h 1 last next Nat.one_pos (by rwa [one_mul]) (by rwa [one_mul])

theorem continued_drop (hlimit : 0 < limit) : Continued past limit rows ↔
    (∀ last next, rows[limit - 1]? = some last → rows[limit]? = some next →
      past last next = true) ∧ Continued past limit (rows.drop limit) := by
  constructor
  · intro h
    refine ⟨fun last next => h.head, fun page last next hpage hlast hnext => ?_⟩
    rw [List.getElem?_drop] at hlast hnext
    have hpos : 0 < page * limit := Nat.mul_pos hpage hlimit
    refine h (page + 1) last next (Nat.succ_pos page) ?_ ?_
    · rwa [show (page + 1) * limit - 1 = limit + (page * limit - 1) by rw [add_mul]; omega]
    · rwa [show (page + 1) * limit = limit + page * limit by rw [add_mul]; omega]
  · rintro ⟨hhead, hrest⟩ page last next hpage hlast hnext
    rcases Nat.lt_or_ge 1 page with hlater | hfirst
    · have hpos : 0 < (page - 1) * limit := Nat.mul_pos (by omega) hlimit
      have hmul : page * limit = limit + (page - 1) * limit := by
        obtain ⟨k, rfl⟩ : ∃ k, page = k + 1 := ⟨page - 1, by omega⟩
        rw [add_mul]
        simp
        omega
      refine hrest (page - 1) last next (by omega) ?_ ?_
      · rw [List.getElem?_drop]
        rwa [hmul, Nat.add_sub_assoc hpos] at hlast
      · rw [List.getElem?_drop]
        rwa [hmul] at hnext
    · obtain rfl : page = 1 := by omega
      rw [one_mul] at hlast hnext
      exact hhead last next hlast hnext

/-- Whatever is read from a cursor on, the cursor has let it through. -/
theorem walk_past (h : Keyset rank past) (hwalk : walk past limit fuel (rows.filter (past last)) = some rest) :
    ∀ row ∈ rest, past last row = true := by
  induction fuel generalizing last rest with
  | zero => cases hwalk
  | succ fuel ih =>
    rw [walk] at hwalk
    split at hwalk
    next =>
      cases hend : ((rows.filter (past last)).take limit).getLast? with
      | none => simp [hend] at hwalk
      | some mid =>
        have hmid : mid ∈ rows.filter (past last) :=
          List.mem_of_mem_take (List.mem_of_getLast? hend)
        have hpast : past last mid = true := (List.mem_filter.mp hmid).2
        have hsame : (rows.filter (past last)).filter (past mid) = rows.filter (past mid) := by
          rw [List.filter_filter]
          refine List.filter_congr fun row _ => ?_
          cases hrow : past mid row with
          | false => simp
          | true => simpa using h.closed last mid row hpast (h.later mid row hrow).le
        simp only [hend, hsame, Option.map_eq_some_iff] at hwalk
        obtain ⟨tail, htail, rfl⟩ := hwalk
        intro row hrow
        rcases List.mem_append.mp hrow with hrow | hrow
        · exact (List.mem_filter.mp (List.mem_of_mem_take hrow)).2
        · exact h.closed last mid row hpast (h.later mid row (ih htail row hrow)).le
    next =>
      cases hwalk
      exact fun row hrow => (List.mem_filter.mp hrow).2

/-- A cursor that lets the next row through lets exactly the rows through that are left. -/
theorem filter_past (h : Keyset rank past) (hfalling : Falling rank rows)
    (hlast : rows[limit - 1]? = some last) (hnext : rows[limit]? = some next)
    (hthrough : past last next = true) (hlimit : 0 < limit) :
    rows.filter (past last) = rows.drop limit := by
  obtain ⟨hlt, hlastget⟩ := List.getElem?_eq_some_iff.mp hlast
  have hcut : rows = rows.take limit ++ rows.drop limit := (List.take_append_drop limit rows).symm
  have hbefore : (rows.take limit).filter (past last) = [] := by
    refine List.filter_eq_nil_iff.mpr fun row hrow hpast => ?_
    obtain ⟨i, hi, hget⟩ := List.mem_take_iff_getElem.mp hrow
    have hle : rank last ≤ rank row := by
      rcases Nat.lt_or_ge i (limit - 1) with hearlier | hat
      · have hpair := List.pairwise_iff_getElem.mp hfalling i (limit - 1) (by omega) hlt hearlier
        rw [hget, hlastget] at hpair
        exact hpair.le
      · obtain rfl : i = limit - 1 := by omega
        rw [← hget, hlastget]
    exact absurd (h.later last row hpast) (not_lt.mpr hle)
  have hafter : (rows.drop limit).filter (past last) = rows.drop limit := by
    refine List.filter_eq_self.mpr fun row hrow => ?_
    obtain ⟨hnextlt, hnextget⟩ := List.getElem?_eq_some_iff.mp hnext
    rw [List.drop_eq_getElem_cons hnextlt, hnextget] at hrow
    rcases List.mem_cons.mp hrow with rfl | hrow
    · exact hthrough
    · have hpair : Falling rank (rows.drop limit) := hfalling.drop
      rw [List.drop_eq_getElem_cons hnextlt, hnextget] at hpair
      exact h.closed last next row hthrough ((List.pairwise_cons.mp hpair).1 row hrow).le
  conv_lhs => rw [hcut, List.filter_append, hbefore, hafter, List.nil_append]

/-- Reading gives all rows in their order exactly when every cursor lets the next row through. -/
theorem walk_iff (h : Keyset rank past) (hfalling : Falling rank rows) (hlimit : 0 < limit) :
    (∃ fuel, walk past limit fuel rows = some rows) ↔ Continued past limit rows := by
  generalize hn : rows.length = n
  induction n using Nat.strong_induction_on generalizing rows with
  | _ n ih =>
    subst hn
    rcases Nat.lt_or_ge limit rows.length with hmore | hall
    swap
    · refine iff_of_true ⟨1, by rw [walk, if_neg (Nat.not_lt.mpr hall)]⟩ ?_
      intro page last next hpage _ hnext
      have hle : limit ≤ page * limit := Nat.le_mul_of_pos_left limit hpage
      obtain ⟨hlt, -⟩ := List.getElem?_eq_some_iff.mp hnext
      omega
    obtain ⟨last, hlast⟩ : ∃ last, rows[limit - 1]? = some last :=
      ⟨_, List.getElem?_eq_getElem (by omega)⟩
    obtain ⟨next, hnext⟩ : ∃ next, rows[limit]? = some next :=
      ⟨_, List.getElem?_eq_getElem hmore⟩
    have hend : (rows.take limit).getLast? = some last := by
      rw [List.getLast?_eq_getElem?, List.length_take, min_eq_left hmore.le, List.getElem?_take,
        if_pos (by omega), hlast]
    have hrest := ih (rows.drop limit).length (by rw [List.length_drop]; omega)
      (hfalling.drop (i := limit)) rfl
    have hsplit : ∀ xs, rows.take limit ++ xs = rows ↔ xs = rows.drop limit := fun xs => by
      conv_lhs => rw [← List.take_append_drop limit rows, List.take_append_drop]
      exact ⟨fun heq => List.append_cancel_left (heq.trans (List.take_append_drop limit rows).symm),
        fun heq => by rw [heq, List.take_append_drop]⟩
    rw [continued_drop hlimit, ← hrest]
    constructor
    · rintro ⟨fuel, hwalk⟩
      cases fuel with
      | zero => cases hwalk
      | succ fuel =>
        simp only [walk, if_pos hmore, hend, Option.map_eq_some_iff] at hwalk
        obtain ⟨tail, htail, heq⟩ := hwalk
        obtain rfl := (hsplit tail).mp heq
        have hthrough : past last next = true := by
          refine walk_past h htail next (List.mem_of_getElem? (i := 0) ?_)
          rw [List.getElem?_drop, Nat.add_zero, hnext]
        refine ⟨fun last' next' hlast' hnext' => ?_, fuel, ?_⟩
        · rw [hlast] at hlast'
          rw [hnext] at hnext'
          cases hlast'
          cases hnext'
          exact hthrough
        · rwa [filter_past h hfalling hlast hnext hthrough hlimit] at htail
    · rintro ⟨hhead, fuel, hwalk⟩
      refine ⟨fuel + 1, ?_⟩
      simp only [walk, if_pos hmore, hend, Option.map_eq_some_iff]
      refine ⟨rows.drop limit, ?_, List.take_append_drop limit rows⟩
      rwa [filter_past h hfalling hlast hnext (hhead last next hlast hnext) hlimit]

end Walk

/-! ### Following the cursors of a query -/

section Follow
variable {rank : α → κ} {past : α → α → Bool} {limit fuel : ℕ} {rows : List α}
  {encode : Option α → γ} {fetch : Option γ → Page α γ}

theorem pairwise_descending (rank : α → κ) (rows : List α) :
    (descending rank rows).Pairwise fun a b => rank b ≤ rank a := by
  have htotal : Std.Total fun a b : α => rank b ≤ rank a := ⟨fun a b => le_total _ _⟩
  have htrans : IsTrans α fun a b => rank b ≤ rank a := ⟨fun a b c hab hbc => hbc.trans hab⟩
  exact List.pairwise_insertionSort _ rows

theorem falling_descending (hrank : (rows.map rank).Nodup) : Falling rank (descending rank rows) := by
  have hperm : ((descending rank rows).map rank).Perm (rows.map rank) :=
    (List.perm_insertionSort _ rows).map rank
  have hnodup := hperm.nodup_iff.mpr hrank
  have hne : (descending rank rows).Pairwise fun a b => rank a ≠ rank b := List.pairwise_map.mp hnodup
  exact ((pairwise_descending rank rows).and hne).imp fun hab => lt_of_le_of_ne hab.1 hab.2.symm

/-- A query with one more condition gives the rows that meet it, in the same order. -/
theorem descending_filter (hrank : (rows.map rank).Nodup) (p : α → Bool) :
    descending rank (rows.filter p) = (descending rank rows).filter p := by
  have hfalling : Falling rank (descending rank (rows.filter p)) :=
    falling_descending (hrank.sublist (List.filter_sublist.map rank))
  have hperm : (descending rank (rows.filter p)).Perm ((descending rank rows).filter p) :=
    (List.perm_insertionSort _ _).trans ((List.perm_insertionSort _ rows).filter p).symm
  exact hperm.eq_of_pairwise (fun a b _ _ hab hba => absurd hba (not_lt.mpr hab.le)) hfalling
    ((falling_descending hrank).filter _)

/-- Pages whose cursors work like `past` are read as the rows are walked. -/
theorem follow_eq_walk (h : Keyset rank past) (hlimit : 0 < limit)
    (hfetch : ∀ last ∈ rows, fetch (some (encode (some last))) =
      pageOf limit encode (rows.filter (past last)))
    {left : List α} {cursor : Option γ} (hleft : fetch cursor = pageOf limit encode left)
    (hrows : left ⊆ rows)
    (hwithin : ∀ last ∈ left, left.filter (past last) = rows.filter (past last)) :
    follow fetch fuel cursor = walk past limit fuel left := by
  induction fuel generalizing left cursor with
  | zero => rfl
  | succ fuel ih =>
    have hlength : (left.take (limit + 1)).length = min (limit + 1) left.length := List.length_take
    rw [follow, walk, hleft]
    by_cases hmore : limit < left.length
    · have hmore' : limit < (left.take (limit + 1)).length := by omega
      obtain ⟨last, hlast⟩ : ∃ last, (left.take limit).getLast? = some last := by
        cases hnone : (left.take limit).getLast? with
        | some last => exact ⟨last, rfl⟩
        | none =>
          have hlen := congrArg List.length (List.getLast?_eq_none_iff.mp hnone)
          rw [List.length_take] at hlen
          simp only [List.length_nil] at hlen
          omega
      have hmem : last ∈ left := List.mem_of_mem_take (List.mem_of_getLast? hlast)
      have htake : (left.take (limit + 1)).take limit = left.take limit := by
        rw [List.take_take, min_eq_left (Nat.le_succ limit)]
      have hnext := ih (hfetch last (hrows hmem)) (List.filter_subset_self _) fun mid hmid => by
        rw [List.filter_filter]
        refine List.filter_congr fun row _ => ?_
        have hpast : past last mid = true := (List.mem_filter.mp hmid).2
        cases hrow : past mid row with
        | false => simp
        | true => simpa using h.closed last mid row hpast (h.later mid row hrow).le
      simp only [pageOf, hmore', if_true, htake, hlast, hmore]
      rw [hnext, hwithin last hmem]
    · have hmore' : ¬limit < (left.take (limit + 1)).length := by omega
      simp only [pageOf, hmore', if_false, hmore]
      rw [List.take_of_length_le (by omega)]

/-- The cursors lead through all rows, each once, by falling rank. -/
def Complete (rank : α → κ) (rows : List α) (fetch : Option γ → Page α γ) : Prop :=
  ∃ fuel read, follow fetch fuel none = some read ∧ read.Perm rows ∧ Falling rank read

/-- A query whose cursors work like `past` is complete exactly when every cursor lets the next row
through. -/
theorem complete_iff (h : Keyset rank past) (hlimit : 0 < limit) (hrank : (rows.map rank).Nodup)
    (hfirst : fetch none = pageOf limit encode (descending rank rows))
    (hfetch : ∀ last ∈ rows, fetch (some (encode (some last))) =
      pageOf limit encode ((descending rank rows).filter (past last))) :
    Complete rank rows fetch ↔ Continued past limit (descending rank rows) := by
  have hfalling := falling_descending hrank
  have hperm : (descending rank rows).Perm rows := List.perm_insertionSort _ rows
  have hwalk : ∀ fuel, follow fetch fuel none = walk past limit fuel (descending rank rows) :=
    fun fuel => follow_eq_walk h hlimit (fun last hlast => hfetch last (hperm.mem_iff.mp hlast)) hfirst
      (List.Subset.refl _) fun _ _ => rfl
  rw [← walk_iff h hfalling hlimit]
  constructor
  · rintro ⟨fuel, read, hread, hsame, hordered⟩
    have heq : read = descending rank rows := (hsame.trans hperm.symm).eq_of_pairwise
      (fun a b _ _ hab hba => absurd hba (not_lt.mpr hab.le)) hordered hfalling
    exact ⟨fuel, by rw [← hwalk, hread, heq]⟩
  · rintro ⟨fuel, hread⟩
    exact ⟨fuel, _, (hwalk fuel).trans hread, hperm, hfalling⟩

/-- A cursor that holds the whole rank lets every later row through. -/
theorem keyset_rank (rank : α → κ) : Keyset rank fun last row => decide (rank row < rank last) where
  later := fun _ _ h => of_decide_eq_true h
  closed := fun _ _ _ h hle => decide_eq_true (lt_of_le_of_lt hle (of_decide_eq_true h))

theorem continued_rank (hfalling : Falling rank rows) (hlimit : 0 < limit) :
    Continued (fun last row => decide (rank row < rank last)) limit rows := by
  intro page last next hpage hlast hnext
  have hpos : 0 < page * limit := Nat.mul_pos hpage hlimit
  obtain ⟨hlt, hlastget⟩ := List.getElem?_eq_some_iff.mp hlast
  obtain ⟨hlt', hnextget⟩ := List.getElem?_eq_some_iff.mp hnext
  have hpair := List.pairwise_iff_getElem.mp hfalling _ _ hlt hlt' (by omega)
  rw [hlastget, hnextget] at hpair
  exact decide_eq_true hpair

end Follow
end PiDeck.Collections
