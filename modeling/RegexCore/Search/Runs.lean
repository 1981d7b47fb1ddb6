import RegexCore.Search.Order
import RegexCore.Search.Captures
/-!
# Whole runs

A `for` loop over `find_iter` calls `next` until it returns `None`. Such a run ends for every engine
that keeps the contract: each call returns within `len + 1` passes, and each match it yields uses up
one of the offsets after the end of the last match, of which there are at most `len + 1`. What a
run collects is one list however much fuel and however many calls it is allowed, and it is the
list of matches of the calls it made, so the order of `Order` holds of it. A run of `captures_iter`
ends with it, one slot vector for each match, since its passes are those of `find_iter`.
-/

namespace RegexCore

variable {re : RegularExpression} {text : Text} {α : Type}

/-- A run of the iterator, `next` called until it returns `None`, yields `ms` given enough fuel and
calls. -/
def Yields (search : FindMatches re text → Step re text α) (it : FindMatches re text)
    (ms : List α) : Prop :=
  ∃ fuel calls, collectWith search fuel calls it = some ms

/-! ### Runs are one value -/

section Collect

variable {search : FindMatches re text → Step re text α}

theorem collectWith_mono {fuel fuel' calls calls' : Nat} {it : FindMatches re text}
    {ms : List α} (h : collectWith search fuel calls it = some ms) (hfuel : fuel ≤ fuel')
    (hcalls : calls ≤ calls') : collectWith search fuel' calls' it = some ms := by
  induction calls generalizing calls' it ms with
  | zero => cases h
  | succ calls ih =>
    obtain ⟨calls', rfl⟩ : ∃ c, calls' = c + 1 := ⟨calls' - 1, by omega⟩
    simp only [collectWith] at h ⊢
    rcases hcall : nextWith search fuel it with _ | ⟨_ | a, it'⟩
    · simp [hcall] at h
    · rw [hcall] at h
      rwa [nextWith_mono hcall hfuel]
    · rw [hcall] at h
      rw [nextWith_mono hcall hfuel]
      obtain ⟨ms', hrest, rfl⟩ := Option.map_eq_some'.mp h
      dsimp only
      rw [ih hrest (by omega)]
      rfl

theorem Yields.unique {it : FindMatches re text} {ms ms' : List α} (h : Yields search it ms)
    (h' : Yields search it ms') : ms = ms' := by
  obtain ⟨f, c, h⟩ := h
  obtain ⟨f', c', h'⟩ := h'
  exact Option.some.inj ((collectWith_mono h (le_max_left f f') (le_max_left c c')).symm.trans
    (collectWith_mono h' (le_max_right f f') (le_max_right c c')))

/-- A run that collected `ms` made `ms.length + 1` calls, the last of which returned `None`. -/
theorem collectWith_calls {fuel calls : Nat} {it : FindMatches re text} {ms : List α}
    (h : collectWith search fuel calls it = some ms) :
    ∃ rs, callsWith search fuel (ms.length + 1) it = some rs ∧ (rs.map Prod.fst).filterMap id = ms := by
  induction calls generalizing it ms with
  | zero => cases h
  | succ calls ih =>
    simp only [collectWith] at h
    rcases hcall : nextWith search fuel it with _ | ⟨_ | a, it'⟩
    · simp [hcall] at h
    · simp only [hcall, Option.some.injEq] at h
      subst h
      exact ⟨[(none, it')], by simp [callsWith, hcall], rfl⟩
    · rw [hcall] at h
      obtain ⟨ms', hrest, rfl⟩ := Option.map_eq_some'.mp h
      obtain ⟨rs, hrs, hms⟩ := ih hrest
      refine ⟨(some a, it') :: rs, ?_, by simp [hms]⟩
      rw [List.length_cons, callsWith, hcall]
      simp only [hrs, Option.map_some']

end Collect

/-! ### A run ends -/

/-- How many more matches a run from `it` can yield: the ends after the last match, up to the end
of the text. -/
def yieldsLeft (it : FindMatches re text) : Nat :=
  match it.lastMatch with
  | none => text.length + 1
  | some e => text.length - e

section Runs

variable (hc : Contract re text)
include hc

/-- A run of the code ends: each call returns within `len + 1` passes, and each match it yields
uses up one of the ends left. -/
theorem collectWith_search_isSome {calls : Nat} {it : FindMatches re text} (htr : Trails it)
    (hlast : ∀ e₁, it.lastMatch = some e₁ → e₁ ≤ text.length) (hcalls : yieldsLeft it < calls) :
    (collectWith FindMatches.search (text.length + 1) calls it).isSome := by
  induction calls generalizing it with
  | zero => omega
  | succ calls ih =>
    obtain ⟨⟨r, it'⟩, hcall⟩ := Option.isSome_iff_exists.mp
      (nextWith_isSome FindMatches.search_retriesForward hc.lt_nextAfterEmpty
        (show text.length - it.lastEnd + 1 ≤ text.length + 1 by omega))
    have hout := FindMatches.next_outcome hc htr hcall
    simp only [collectWith, hcall]
    rcases r with _ | m
    · rfl
    obtain ⟨hfollow, rfl, hm⟩ := hout
    have hleft : yieldsLeft (⟨m.2, some m.2⟩ : FindMatches re text) < calls := by
      show text.length - m.2 < calls
      rcases hlm : it.lastMatch with _ | e₁ <;> simp only [yieldsLeft, hlm] at hcalls
      · omega
      · have := (hfollow e₁ hlm).2.1
        have := hlast e₁ hlm
        omega
    simpa using ih (by rintro e₁ ⟨⟩; exact le_rfl) (by rintro e₁ ⟨⟩; exact hm) hleft

/-- The run of `find_iter` ends, with `len + 2` calls of `len + 1` passes each. -/
theorem findIter_collect_isSome :
    (collectWith FindMatches.search (text.length + 1) (text.length + 2) (re.findIter text)).isSome :=
  collectWith_search_isSome hc (fun _ h => Option.noConfusion h) (fun _ h => Option.noConfusion h)
    (by simp [yieldsLeft, RegularExpression.findIter])

end Runs

/-- Every run of `find_iter` over an engine that keeps the contract ends, and the matches it
collects advance one after the other, at most `len + 1` of them. -/
theorem findIter_run_ends (hc : Contract re text) :
    ∃ ms, Yields FindMatches.search (re.findIter text) ms ∧ ms.Chain' Advances ∧
      ms.length ≤ text.length + 1 := by
  obtain ⟨ms, hms⟩ := Option.isSome_iff_exists.mp (findIter_collect_isSome hc)
  obtain ⟨rs, hrs, hrun⟩ := collectWith_calls hms
  obtain ⟨hchain, -, hend⟩ := FindMatches.calls_advance hc (fun _ h => Option.noConfusion h) hrs
  rw [hrun] at hchain hend
  exact ⟨ms, ⟨_, _, hms⟩, hchain, length_le_of_advances hchain hend⟩

theorem findIter_run_ends_emptyEverywhere :
    Contract emptyEverywhere [0, 0] ∧
      ∃ ms, Yields FindMatches.search (emptyEverywhere.findIter [0, 0]) ms ∧
        ms.Chain' Advances ∧ ms.length ≤ [(0 : UInt8), 0].length + 1 :=
  ⟨emptyEverywhere_contract _, findIter_run_ends (emptyEverywhere_contract _)⟩

/-- Every run of `captures_iter` over an engine that keeps the contract, and whose `captures_at`
answers as its `find_at`, ends as the run of `find_iter` does: it yields one slot vector for each
match `find_iter` yields, the one `captures_at` filled at the state that match was found from.
`found` is the run of `searchFrom`, which pairs each match with the state its search started
from. -/
theorem capturesIter_run_ends (hc : Contract re text)
    (hcap : ∀ i, (re.capturesAt (List.replicate re.slotsLen none) text i).2 = re.findAt text i) :
    ∃ found : List ((Nat × Nat) × FindMatches re text),
      Yields FindMatches.searchFrom (re.findIter text) found ∧
      Yields FindMatches.search (re.findIter text) (found.map Prod.fst) ∧
        Yields FindCaptures.search (re.capturesIter text).findMatches
          (found.map fun (_, q) => capturedSlots q) := by
  obtain ⟨ms, hms⟩ := Option.isSome_iff_exists.mp (findIter_collect_isSome hc)
  have hplain : collectWith FindMatches.search (text.length + 1) (text.length + 2)
      (re.findIter text) = (collectWith FindMatches.searchFrom (text.length + 1) (text.length + 2)
        (re.findIter text)).map (List.map Prod.fst) := by
    conv_lhs => rw [show (@FindMatches.search re text) = fun q => (FindMatches.search q).map
      fun a => a from funext fun q => (Step.map_id _).symm]
    exact collectWith_map_from _ _ _
  rw [hplain] at hms
  obtain ⟨found, hfound, -⟩ := Option.map_eq_some'.mp hms
  have hcaps : collectWith FindCaptures.search (text.length + 1) (text.length + 2)
      (re.capturesIter text).findMatches = some (found.map fun (_, q) => capturedSlots q) := by
    rw [show (@FindCaptures.search re text) = fun q => (FindMatches.search q).map
      fun _ => capturedSlots q from funext (FindCaptures.search_eq_map hcap),
      collectWith_map_from]
    exact congrArg (Option.map _) hfound
  exact ⟨found, ⟨_, _, hfound⟩, ⟨_, _, by rw [hplain, hfound]; rfl⟩, ⟨_, _, hcaps⟩⟩

theorem capturesIter_run_ends_emptyEverywhere :
    Contract emptyEverywhere [0, 0] ∧
      (∀ i, (emptyEverywhere.capturesAt (List.replicate emptyEverywhere.slotsLen none) [0, 0] i).2 =
        emptyEverywhere.findAt [0, 0] i) ∧
      ∃ found : List ((Nat × Nat) × FindMatches emptyEverywhere [0, 0]),
        Yields FindMatches.searchFrom (emptyEverywhere.findIter [0, 0]) found ∧
        Yields FindMatches.search (emptyEverywhere.findIter [0, 0]) (found.map Prod.fst) ∧
          Yields FindCaptures.search (emptyEverywhere.capturesIter [0, 0]).findMatches
            (found.map fun (_, q) => capturedSlots q) :=
  ⟨emptyEverywhere_contract _, fun _ => rfl,
    capturesIter_run_ends (emptyEverywhere_contract _) fun _ => rfl⟩


/-! ### What the state records

Whatever the engine answers, `last_match` holds the end of the match yielded last: a yield sets it
to that match's end, and a retry or a `None` leaves it alone. -/

theorem FindMatches.next_lastMatch {fuel : Nat} {it it' : FindMatches re text}
    {r : Option (Nat × Nat)} (h : nextWith FindMatches.search fuel it = some (r, it')) :
    it'.lastMatch = (r.map Prod.snd).or it.lastMatch := by
  induction fuel generalizing it with
  | zero => cases h
  | succ fuel ih =>
    rcases hp : pass FindMatches.search it with _ | ⟨a, q⟩ | q
    · rw [nextWith_done hp] at h
      cases h
      rfl
    · rw [nextWith_found hp] at h
      cases h
      obtain ⟨s, e, -, -, rfl, rfl⟩ := FindMatches.afterSearch_found (pass_found hp).2
      rfl
    · rw [nextWith_retry hp] at h
      obtain ⟨-, -, -, rfl⟩ := FindMatches.afterSearch_retry (pass_retry hp).2
      have hlast := ih h
      exact hlast

theorem FindMatches.calls_lastMatch {fuel calls : Nat} {it : FindMatches re text}
    {rs : List (Option (Nat × Nat) × FindMatches re text)}
    (h : callsWith FindMatches.search fuel calls it = some rs) :
    ∀ k r, rs[k]? = some r → r.2.lastMatch =
      ((((rs.take (k + 1)).map Prod.fst).filterMap id).getLast?.map Prod.snd).or it.lastMatch := by
  induction calls generalizing it rs with
  | zero => cases h; simp
  | succ calls ih =>
    simp only [callsWith] at h
    rcases hcall : nextWith FindMatches.search fuel it with _ | ⟨r₀, it₀⟩
    · simp [hcall] at h
    rw [hcall] at h
    obtain ⟨rs', hrest, rfl⟩ := Option.map_eq_some'.mp h
    have hfirst := FindMatches.next_lastMatch hcall
    rintro (_ | k) r hk
    · obtain rfl : (r₀, it₀) = r := by simpa using hk
      rcases r₀ with _ | m <;> simpa using hfirst
    · rw [List.getElem?_cons_succ] at hk
      rw [ih hrest k r hk, hfirst]
      rcases r₀ with _ | m
      · simp
      · simp only [List.take_succ_cons, List.map_cons, List.filterMap_cons, id, List.getLast?_cons]
        cases (List.filterMap id (List.map Prod.fst (List.take (k + 1) rs'))).getLast? <;> rfl

/-- In every run of `FindMatches` from `find_iter`, whatever the engine answers, after each call
`last_match` is the end of the last match yielded so far, `None` before the first. -/
theorem findIter_lastMatch (fuel calls : Nat) (rs : List (Option (Nat × Nat) × FindMatches re text))
    (hrun : callsWith FindMatches.search fuel calls (re.findIter text) = some rs) (k : Nat)
    (r : Option (Nat × Nat) × FindMatches re text) (hk : rs[k]? = some r) :
    r.2.lastMatch = (((rs.take (k + 1)).map Prod.fst).filterMap id).getLast?.map Prod.snd := by
  rw [FindMatches.calls_lastMatch hrun k r hk]
  exact Option.or_none

theorem findIter_lastMatch_emptyEverywhere :
    callsWith FindMatches.search 3 4 (emptyEverywhere.findIter [0, 0]) =
        some [(some (0, 0), ⟨0, some 0⟩), (some (1, 1), ⟨1, some 1⟩), (some (2, 2), ⟨2, some 2⟩),
          (none, ⟨2, some 2⟩)] ∧
      ([(some (0, 0), ⟨0, some 0⟩), (some (1, 1), ⟨1, some 1⟩), (some (2, 2), ⟨2, some 2⟩),
          (none, ⟨2, some 2⟩)] : List (Option (Nat × Nat) × FindMatches emptyEverywhere [0, 0]))[3]? =
        some (none, ⟨2, some 2⟩) ∧
      ((none : Option (Nat × Nat)), (⟨2, some 2⟩ : FindMatches emptyEverywhere [0, 0])).2.lastMatch =
        ((([(some (0, 0), ⟨0, some 0⟩), (some (1, 1), ⟨1, some 1⟩), (some (2, 2), ⟨2, some 2⟩),
          (none, ⟨2, some 2⟩)] : List (Option (Nat × Nat) × FindMatches emptyEverywhere [0, 0])).take
            (3 + 1)).map Prod.fst |>.filterMap id).getLast?.map Prod.snd :=
  ⟨rfl, rfl, @findIter_lastMatch emptyEverywhere [0, 0] 3 4 _ rfl 3 _ rfl⟩

end RegexCore
