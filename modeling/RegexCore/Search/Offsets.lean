import RegexCore.Search.Iterator
import Mathlib.Logic.Function.Iterate
/-!
# What the iterators hand to the engine

Over a whole run, every offset either iterator passes to its search is within the text and is `0`,
the end of a match the engine returned earlier, or a value `next_after_empty` returned earlier;
and `next_after_empty` is called only before the end of the text.

A run, however many calls of `next` it makes, is a sequence of passes through the body of `next`:
`advance` is the state one pass leaves for the next, and a pass that returns `None` leaves its own
state, from which the next call of `next` starts again. `passCalls` lists the engine calls of one
pass, `nextCalls` those of one call of `next` and `collectCalls` those of a `for` loop; the calls
of a call, and of a loop, are those of a stretch of passes (`nextWith_iterate_advance`), so what
holds of the passes holds of them. The bound check comes
before the search and the second bound check before `next_after_empty`, so the guards of the
source give the bounds; where the cursor came from gives the rest. Nothing here needs the engine
to keep its contract.

A retry moves the cursor off the end of the last match and leaves the last match where it was, so
a second retry in the same call needs `next_after_empty` to stay put: when it never does, a call
makes at most two searches with one `next_after_empty` between them.

With the contract, the passes of a whole run are few: linear in the length of the text, where
the bound of one call alone, times the number of calls, is quadratic. Every pass that does not end
the run moves the cursor forward, or leaves it and puts the last match on it, which the next pass
cannot do again from there (`passesLeft`). So a `for` loop that ends makes at most `2 * len + 4`
searches, however the passes fall into calls.
-/

namespace RegexCore

/-- A call the iterators make into the engine: a search (`find_at` or `captures_at`) from an
offset, or `next_after_empty` at an offset. -/
inductive EngineCall
  | search (start : Nat)
  | nextAfterEmpty (i : Nat)
deriving DecidableEq

variable {re : RegularExpression} {text : Text} {α : Type}

section Passes

variable (search : FindMatches re text → Step re text α)

/-- The state a pass from `it` leaves for the next pass: where it moved the cursor, or `it` itself
when it returned `None`. -/
def advance (it : FindMatches re text) : FindMatches re text :=
  match pass search it with
  | .done => it
  | .found _ it' => it'
  | .retry it' => it'

/-- The engine calls one pass from `it` makes: its search at the cursor once the bound check
passes, then `next_after_empty` at the cursor when the pass retries. -/
def passCalls (it : FindMatches re text) : List EngineCall :=
  if it.lastEnd > text.length then [] else
    .search it.lastEnd :: match search it with
      | .retry _ => [.nextAfterEmpty it.lastEnd]
      | _ => []

/-- The engine calls of the first `n` passes of a run from `it`, in order. -/
def runCalls : Nat → FindMatches re text → List EngineCall
  | 0, _ => []
  | n + 1, it => passCalls search it ++ runCalls n (advance search it)

/-- The engine calls one call of `next` from `it` makes, allowed `fuel` passes. -/
def nextCalls : Nat → FindMatches re text → List EngineCall
  | 0, _ => []
  | fuel + 1, it =>
    passCalls search it ++ match pass search it with
      | .retry it' => nextCalls fuel it'
      | _ => []

/-- The engine calls of a `for` loop over the iterator: those of each call of `next` until one
returns `None`, at most `calls` calls of `fuel` passes each. -/
def collectCalls (fuel : Nat) : Nat → FindMatches re text → List EngineCall
  | 0, _ => []
  | calls + 1, it =>
    nextCalls search fuel it ++ match nextWith search fuel it with
      | some (some _, it') => collectCalls fuel calls it'
      | _ => []

end Passes

/-- Whether an engine call is a search, `find_at` or `captures_at`. -/
def EngineCall.isSearch : EngineCall → Bool
  | .search _ => true
  | .nextAfterEmpty _ => false

section Calls

variable {search : FindMatches re text → Step re text α} {it it' : FindMatches re text}

theorem passCalls_retry (hp : pass search it = .retry it') :
    passCalls search it = [.search it.lastEnd, .nextAfterEmpty it.lastEnd] := by
  obtain ⟨hle, hs⟩ := pass_retry hp
  simp [passCalls, hs, Nat.not_lt.mpr hle]

/-- A pass that does not retry makes at most its search. -/
theorem passCalls_length_le (hp : ∀ it', pass search it ≠ .retry it') :
    (passCalls search it).length ≤ 1 := by
  unfold passCalls
  split_ifs with hgt
  · simp
  · rcases hs : search it with _ | ⟨a, q⟩ | q
    · simp
    · simp
    · exact absurd (by rw [pass_of_le (by omega), hs]) (hp q)

theorem passCalls_searches_le : (passCalls search it).countP EngineCall.isSearch ≤ 1 := by
  unfold passCalls
  split_ifs
  · simp
  · split <;> simp [EngineCall.isSearch]

theorem nextCalls_retry {fuel : Nat} (hp : pass search it = .retry it') :
    nextCalls search (fuel + 1) it = passCalls search it ++ nextCalls search fuel it' := by
  simp [nextCalls, hp]

/-- A call whose pass does not retry ends with that pass. -/
theorem nextCalls_of_not_retry {fuel : Nat} (hp : ∀ it', pass search it ≠ .retry it') :
    nextCalls search (fuel + 1) it = passCalls search it := by
  rcases h : pass search it with _ | ⟨a, q⟩ | q
  · simp [nextCalls, h]
  · simp [nextCalls, h]
  · exact absurd h (hp q)

/-- A pass that does not retry ends the call. -/
theorem nextWith_isSome_of_not_retry {fuel : Nat} (hp : ∀ it', pass search it ≠ .retry it') :
    (nextWith search (fuel + 1) it).isSome := by
  rcases h : pass search it with _ | ⟨a, q⟩ | q
  · rw [nextWith_done h]; rfl
  · rw [nextWith_found h]; rfl
  · exact absurd h (hp q)

theorem runCalls_add (a b : Nat) (it : FindMatches re text) :
    runCalls search (a + b) it = runCalls search a it ++ runCalls search b ((advance search)^[a] it) := by
  induction a generalizing it with
  | zero => simp [runCalls]
  | succ a ih =>
    rw [Nat.succ_add, runCalls, runCalls, ih, List.append_assoc, Function.iterate_succ_apply]

end Calls

/-- A call of `next` is a stretch of passes: its engine calls are those of as many passes of the run,
and the state it leaves is the one those passes reach. -/
theorem nextWith_iterate_advance {search : FindMatches re text → Step re text α} (fuel : Nat)
    (it : FindMatches re text) :
    ∃ k ≤ fuel, nextCalls search fuel it = runCalls search k it ∧
      ∀ {r : Option α} {it' : FindMatches re text}, nextWith search fuel it = some (r, it') →
        0 < k ∧ (advance search)^[k] it = it' := by
  induction fuel generalizing it with
  | zero => exact ⟨0, le_rfl, rfl, fun h => by cases h⟩
  | succ fuel ih =>
    rcases hp : pass search it with _ | ⟨a, q⟩ | q
    -- a pass that returns ends the call: one pass, and the state it leaves
    iterate 2
      refine ⟨1, by omega, by simp [nextCalls, runCalls, hp], fun h => ?_⟩
      simp only [nextWith, hp, Option.some.injEq, Prod.mk.injEq] at h
      obtain ⟨-, rfl⟩ := h
      exact ⟨Nat.one_pos, by simp [advance, hp]⟩
    · obtain ⟨k, hk, hlog, hres⟩ := ih q
      have hadv : advance search it = q := by simp [advance, hp]
      refine ⟨k + 1, by omega, by rw [nextCalls_retry hp, hlog, runCalls, hadv], fun h => ?_⟩
      rw [nextWith_retry hp] at h
      exact ⟨Nat.succ_pos k, by rw [Function.iterate_succ_apply, hadv]; exact (hres h).2⟩

/-- A `for` loop is a stretch of passes too: its engine calls are those of as many passes. -/
theorem collectCalls_eq_runCalls {search : FindMatches re text → Step re text α} (fuel calls : Nat)
    (it : FindMatches re text) : ∃ n, collectCalls search fuel calls it = runCalls search n it := by
  induction calls generalizing it with
  | zero => exact ⟨0, rfl⟩
  | succ calls ih =>
    obtain ⟨k, -, hlog, hres⟩ := @nextWith_iterate_advance re text _ search fuel it
    rcases hcall : nextWith search fuel it with _ | ⟨_ | a, it'⟩
    -- the loop stops after this call
    iterate 2 exact ⟨k, by simp [collectCalls, hcall, hlog]⟩
    obtain ⟨m, hm⟩ := ih it'
    refine ⟨k + m, ?_⟩
    rw [runCalls_add, (hres hcall).2, ← hm, ← hlog]
    simp [collectCalls, hcall]

/-! ### At most one retry a call

A retry needs the cursor on the end of the last match, and it moves the cursor while the last match
stays. So when `next_after_empty` never returns its argument, the pass after a retry cannot retry
again: every call returns within two passes, with at most two searches and one `next_after_empty`
between them. -/

section Retry

variable {answer : Nat → Option (Nat × Nat)} {item : FindMatches re text → Nat × Nat → α}
  {search : FindMatches re text → Step re text α}
  (hsearch : ∀ it, search it = it.afterSearch (answer it.lastEnd) (item it))
  (hnext : ∀ i, re.nextAfterEmpty text i ≠ i)
include hsearch hnext

theorem pass_retry_retry {it it' it'' : FindMatches re text} (hp : pass search it = .retry it') :
    pass search it' ≠ .retry it'' := by
  intro hp'
  obtain ⟨-, hlast, -, rfl⟩ :=
    FindMatches.afterSearch_retry ((hsearch it).symm.trans (pass_retry hp).2)
  obtain ⟨-, hlast', -, -⟩ :=
    FindMatches.afterSearch_retry ((hsearch _).symm.trans (pass_retry hp').2)
  exact hnext it.lastEnd (Option.some.inj (hlast'.trans hlast.symm))

theorem nextCalls_two (fuel : Nat) (it : FindMatches re text) :
    (nextWith search (fuel + 2) it).isSome ∧
      (nextCalls search (fuel + 2) it).countP EngineCall.isSearch ≤ 2 ∧
      (nextCalls search (fuel + 2) it).length ≤ 3 := by
  by_cases hretry : ∃ q, pass search it = .retry q
  · obtain ⟨q, hp⟩ := hretry
    have hq : ∀ q', pass search q ≠ .retry q' := fun _ => pass_retry_retry hsearch hnext hp
    have hlen := passCalls_length_le hq
    have hsearches : (passCalls search q).countP EngineCall.isSearch ≤ _ := List.countP_le_length _
    rw [nextWith_retry hp, nextCalls_retry hp, passCalls_retry hp, nextCalls_of_not_retry hq]
    refine ⟨nextWith_isSome_of_not_retry hq, ?_, ?_⟩
    · simp only [List.countP_append, List.countP_cons, List.countP_nil, EngineCall.isSearch,
        ite_true, Bool.false_eq_true, ite_false]
      omega
    · simp only [List.length_append, List.length_cons, List.length_nil]
      omega
  · push_neg at hretry
    have hlen := passCalls_length_le hretry
    rw [nextCalls_of_not_retry hretry]
    exact ⟨nextWith_isSome_of_not_retry hretry,
      (List.countP_le_length _).trans (by omega), by omega⟩

end Retry

/-- Every call of `next` of either iterator, given two passes or more, returns within two, for an
engine whose `next_after_empty` never stays where it is: it searches at most twice, and with
`next_after_empty` counted it calls the engine at most three times. -/
theorem next_returns_within_two (hnext : ∀ i, re.nextAfterEmpty text i ≠ i)
    (it : FindMatches re text) (fuel : Nat) :
    ((it.next (fuel + 2)).isSome ∧
      (nextCalls FindMatches.search (fuel + 2) it).countP EngineCall.isSearch ≤ 2 ∧
      (nextCalls FindMatches.search (fuel + 2) it).length ≤ 3) ∧
    ((FindCaptures.next ⟨it⟩ (fuel + 2)).isSome ∧
      (nextCalls FindCaptures.search (fuel + 2) it).countP EngineCall.isSearch ≤ 2 ∧
      (nextCalls FindCaptures.search (fuel + 2) it).length ≤ 3) := by
  have hcap := @nextCalls_two re text _
    (fun i => (re.capturesAt (List.replicate re.slotsLen none) text i).2) _ _
    FindCaptures.search_eq_afterSearch hnext fuel it
  refine ⟨nextCalls_two (fun _ => rfl) hnext fuel it, ?_, hcap.2⟩
  simpa [FindCaptures.next] using hcap.1

theorem next_returns_within_two_retry :
    (∀ i, emptyEverywhere.nextAfterEmpty [0, 0] i ≠ i) ∧
      (((⟨0, some 0⟩ : FindMatches emptyEverywhere [0, 0]).next (0 + 2)).isSome ∧
        (nextCalls FindMatches.search (0 + 2)
          (⟨0, some 0⟩ : FindMatches emptyEverywhere [0, 0])).countP EngineCall.isSearch ≤ 2 ∧
        (nextCalls FindMatches.search (0 + 2)
          (⟨0, some 0⟩ : FindMatches emptyEverywhere [0, 0])).length ≤ 3) ∧
      ((FindCaptures.next ⟨(⟨0, some 0⟩ : FindMatches emptyEverywhere [0, 0])⟩ (0 + 2)).isSome ∧
        (nextCalls FindCaptures.search (0 + 2)
          (⟨0, some 0⟩ : FindMatches emptyEverywhere [0, 0])).countP EngineCall.isSearch ≤ 2 ∧
        (nextCalls FindCaptures.search (0 + 2)
          (⟨0, some 0⟩ : FindMatches emptyEverywhere [0, 0])).length ≤ 3) :=
  ⟨fun i => Nat.succ_ne_self i, next_returns_within_two (fun i => Nat.succ_ne_self i) _ 0⟩

/-- The retry the witness above makes: a search, `next_after_empty`, and a second search. -/
example : nextCalls FindMatches.search 2 (⟨0, some 0⟩ : FindMatches emptyEverywhere [0, 0]) =
    [.search 0, .nextAfterEmpty 0, .search 1] := by
  decide

/-! ### Where an offset comes from -/

section Placed

variable (answer : Nat → Option (Nat × Nat)) (nae : Nat → Nat) (len : Nat)

/-- An offset is accounted for by the calls in `prev`: it is `0`, the end of a match a search in
`prev` returned, or the value of a `next_after_empty` call in `prev`. -/
def Explained (prev : List EngineCall) (p : Nat) : Prop :=
  p = 0 ∨ (∃ i s, .search i ∈ prev ∧ answer i = some (s, p)) ∨
    ∃ i, .nextAfterEmpty i ∈ prev ∧ nae i = p

/-- A call is in bounds and, if it is a search, its offset is accounted for by the calls `prev`
before it. -/
def CallPlaced (prev : List EngineCall) : EngineCall → Prop
  | .search p => p ≤ len ∧ Explained answer nae prev p
  | .nextAfterEmpty i => i < len

/-- Every call of `log` is placed with respect to the calls before it. -/
def Placed (log : List EngineCall) : Prop :=
  ∀ j c, log[j]? = some c → CallPlaced answer nae len (log.take j) c

variable {answer nae len}

theorem Explained.mono {prev prev' : List EngineCall} {p : Nat}
    (h : Explained answer nae prev p) (hsub : prev ⊆ prev') : Explained answer nae prev' p := by
  rcases h with h | ⟨i, s, hi, hs⟩ | ⟨i, hi, hn⟩
  · exact .inl h
  · exact .inr (.inl ⟨i, s, hsub hi, hs⟩)
  · exact .inr (.inr ⟨i, hsub hi, hn⟩)

theorem Placed.append {log : List EngineCall} {c : EngineCall} (h : Placed answer nae len log)
    (hc : CallPlaced answer nae len log c) : Placed answer nae len (log ++ [c]) := by
  intro j c' hj
  rcases Nat.lt_or_ge j log.length with hlt | hge
  · rw [List.getElem?_append_left hlt] at hj
    rw [List.take_append_of_le_length hlt.le]
    exact h j c' hj
  · rw [List.getElem?_append_right hge] at hj
    obtain hk | ⟨k, hk⟩ : j - log.length = 0 ∨ ∃ k, j - log.length = k + 1 :=
      (Nat.eq_zero_or_eq_succ_pred _).imp id fun h => ⟨_, h⟩
    · obtain rfl : j = log.length := by omega
      rw [hk, List.getElem?_cons_zero, Option.some.injEq] at hj
      subst hj
      simpa using hc
    · simp [hk] at hj

/-- One pass keeps the log placed and leaves a cursor the new log accounts for. -/
theorem placed_pass {search : FindMatches re text → Step re text α}
    {item : FindMatches re text → Nat × Nat → α}
    (hsearch : ∀ it, search it = it.afterSearch (answer it.lastEnd) (item it))
    {log : List EngineCall} {it : FindMatches re text}
    (h : Placed answer (re.nextAfterEmpty text) text.length log)
    (hex : Explained answer (re.nextAfterEmpty text) log it.lastEnd) :
    Placed answer (re.nextAfterEmpty text) text.length (log ++ passCalls search it) ∧
      Explained answer (re.nextAfterEmpty text) (log ++ passCalls search it)
        (advance search it).lastEnd := by
  unfold passCalls advance pass
  split_ifs with hgt
  · simpa using ⟨h, hex⟩
  have hsearched : Placed answer (re.nextAfterEmpty text) text.length
      (log ++ [.search it.lastEnd]) := h.append ⟨by omega, hex⟩
  have hin : EngineCall.search it.lastEnd ∈ log ++ [.search it.lastEnd] := by simp
  rcases hs : search it with _ | ⟨a, it'⟩ | it'
  · simpa using ⟨hsearched, hex.mono (by simp)⟩
  · obtain ⟨s, e, hfound, -, -, rfl⟩ := FindMatches.afterSearch_found ((hsearch it).symm.trans hs)
    simpa using ⟨hsearched, .inr (.inl ⟨it.lastEnd, s, hin, hfound⟩)⟩
  · obtain ⟨-, -, hlt, rfl⟩ := FindMatches.afterSearch_retry ((hsearch it).symm.trans hs)
    have hplaced := hsearched.append
      (show CallPlaced answer _ _ _ (.nextAfterEmpty it.lastEnd) from hlt)
    exact ⟨by simpa using hplaced, .inr (.inr ⟨it.lastEnd, by simp, rfl⟩)⟩

theorem placed_run {search : FindMatches re text → Step re text α}
    {item : FindMatches re text → Nat × Nat → α}
    (hsearch : ∀ it, search it = it.afterSearch (answer it.lastEnd) (item it)) (n : Nat) :
    ∀ {log : List EngineCall} {it : FindMatches re text},
      Placed answer (re.nextAfterEmpty text) text.length log →
      Explained answer (re.nextAfterEmpty text) log it.lastEnd →
      Placed answer (re.nextAfterEmpty text) text.length (log ++ runCalls search n it) := by
  induction n with
  | zero => intro log it h _; simpa [runCalls] using h
  | succ n ih =>
    intro log it h hex
    obtain ⟨h', hex'⟩ := placed_pass hsearch h hex
    rw [runCalls, ← List.append_assoc]
    exact ih h' hex'

end Placed

theorem run_engine_calls_placed (n : Nat) :
    Placed (re.findAt text) (re.nextAfterEmpty text) text.length
        (runCalls FindMatches.search n (re.findIter text)) ∧
      Placed (fun i => (re.capturesAt (List.replicate re.slotsLen none) text i).2)
        (re.nextAfterEmpty text) text.length
        (runCalls FindCaptures.search n (re.capturesIter text).findMatches) := by
  have hnil : ∀ answer, Placed answer (re.nextAfterEmpty text) text.length [] :=
    fun _ j c h => by simp at h
  constructor
  · simpa using placed_run (fun _ => rfl : ∀ it : FindMatches re text,
      FindMatches.search it = it.afterSearch (re.findAt text it.lastEnd) id) n (hnil _) (.inl rfl)
  · simpa using placed_run FindCaptures.search_eq_afterSearch n (hnil _) (.inl rfl)


/-- Every engine call a `for` loop over either iterator makes is placed, whatever fuel its calls are
given: the loop's calls are those of a stretch of passes from the start. -/
theorem collect_engine_calls_placed (fuel calls : Nat) :
    Placed (re.findAt text) (re.nextAfterEmpty text) text.length
        (collectCalls FindMatches.search fuel calls (re.findIter text)) ∧
      Placed (fun i => (re.capturesAt (List.replicate re.slotsLen none) text i).2)
        (re.nextAfterEmpty text) text.length
        (collectCalls FindCaptures.search fuel calls (re.capturesIter text).findMatches) := by
  have hnil : ∀ answer, Placed answer (re.nextAfterEmpty text) text.length [] :=
    fun _ j c h => by simp at h
  obtain ⟨n, hn⟩ := @collectCalls_eq_runCalls re text _ FindMatches.search fuel calls (re.findIter text)
  obtain ⟨n', hn'⟩ := @collectCalls_eq_runCalls re text _ FindCaptures.search fuel calls
    (re.capturesIter text).findMatches
  rw [hn, hn']
  constructor
  · simpa using placed_run (fun _ => rfl : ∀ it : FindMatches re text,
      FindMatches.search it = it.afterSearch (re.findAt text it.lastEnd) id) n (hnil _) (.inl rfl)
  · simpa using placed_run FindCaptures.search_eq_afterSearch n' (hnil _) (.inl rfl)

/-! ### How many passes a run makes -/

/-- What a run from `it` has left to do: two for each offset from the cursor to one past the end of
the text, and one more while the last match does not end on the cursor. Every pass that does not
end the run uses some of it up. -/
def passesLeft (it : FindMatches re text) : Nat :=
  2 * (text.length + 1 - it.lastEnd) + if it.lastMatch = some it.lastEnd then 0 else 1

section PassesLeft

variable {answer : Nat → Option (Nat × Nat)} {item : FindMatches re text → Nat × Nat → α}
  {search : FindMatches re text → Step re text α}
  (hsearch : ∀ it, search it = it.afterSearch (answer it.lastEnd) (item it))
  (hanswer : ∀ {i s e}, i ≤ text.length → answer i = some (s, e) →
    i ≤ s ∧ s ≤ e ∧ e ≤ text.length)
  (hnext : ∀ i, i < re.nextAfterEmpty text i)
include hsearch hanswer hnext

/-- A pass that yields moves the cursor forward, or puts the last match on it; a pass that retries
moves the cursor forward and leaves the last match behind it. -/
theorem passesLeft_advance {it : FindMatches re text} (h : pass search it ≠ .done) :
    passesLeft (advance search it) < passesLeft it := by
  rcases hp : pass search it with _ | ⟨a, q⟩ | q
  · exact absurd hp h
  · obtain ⟨hle, hs⟩ := pass_found hp
    rw [hsearch] at hs
    obtain ⟨s, e, hfound, hskip, -, rfl⟩ := FindMatches.afterSearch_found hs
    obtain ⟨hs₁, hse, he⟩ := hanswer hle hfound
    simp only [advance, hp, passesLeft, ite_true, Nat.add_zero]
    split_ifs with hbit
    · have hmove : it.lastEnd < e := by
        by_contra hnot
        exact hskip ⟨by omega, hbit.symm⟩
      omega
    · omega
  · obtain ⟨-, hs⟩ := pass_retry hp
    rw [hsearch] at hs
    obtain ⟨-, hlast, hlt, rfl⟩ := FindMatches.afterSearch_retry hs
    have hmove := hnext it.lastEnd
    simp only [advance, hp, passesLeft, ← hlast, Option.some.injEq]
    split_ifs <;> omega

theorem iterate_advance_done :
    ∀ (n : Nat) (it : FindMatches re text), passesLeft it ≤ n →
      ∃ k ≤ n, pass search ((advance search)^[k] it) = .done
  | 0, it, h => by
    refine ⟨0, le_rfl, pass_of_lt (show text.length < it.lastEnd from ?_)⟩
    simp only [passesLeft] at h
    split_ifs at h <;> omega
  | n + 1, it, h => by
    by_cases hdone : pass search it = .done
    · exact ⟨0, Nat.zero_le _, hdone⟩
    · have hless := passesLeft_advance hsearch hanswer hnext hdone
      obtain ⟨k, hk, hiter⟩ := iterate_advance_done n (advance search it) (by omega)
      exact ⟨k + 1, by omega, by rwa [Function.iterate_succ_apply]⟩

/-- The searches of a call of `next` use up what the run had left, and one more when the call
returns `None`. -/
theorem nextCalls_searches {fuel : Nat} {it it' : FindMatches re text} {r : Option α}
    (h : nextWith search fuel it = some (r, it')) :
    (nextCalls search fuel it).countP EngineCall.isSearch + passesLeft it' ≤
      passesLeft it + if r.isSome then 0 else 1 := by
  induction fuel generalizing it with
  | zero => cases h
  | succ fuel ih =>
    have hone : (passCalls search it).countP EngineCall.isSearch ≤ 1 := passCalls_searches_le
    rcases hp : pass search it with _ | ⟨a, q⟩ | q
    · rw [nextWith_done hp] at h
      cases h
      rw [nextCalls_of_not_retry (by simp [hp])]
      simp only [Option.isSome_none, Bool.false_eq_true, ite_false]
      omega
    · rw [nextWith_found hp] at h
      cases h
      have hless := passesLeft_advance hsearch hanswer hnext (show pass search it ≠ .done by simp [hp])
      simp only [advance, hp] at hless
      rw [nextCalls_of_not_retry (by simp [hp])]
      simp only [Option.isSome_some, ite_true]
      omega
    · rw [nextWith_retry hp] at h
      have hless := passesLeft_advance hsearch hanswer hnext (show pass search it ≠ .done by simp [hp])
      simp only [advance, hp] at hless
      have hrest := ih h
      rw [nextCalls_retry hp, List.countP_append]
      omega

/-- A `for` loop that ends makes at most one search more than its start had passes left. -/
theorem collectCalls_searches {fuel calls : Nat} {it : FindMatches re text} {ms : List α}
    (h : collectWith search fuel calls it = some ms) :
    (collectCalls search fuel calls it).countP EngineCall.isSearch ≤ passesLeft it + 1 := by
  induction calls generalizing it ms with
  | zero => cases h
  | succ calls ih =>
    simp only [collectWith] at h
    rcases hcall : nextWith search fuel it with _ | ⟨_ | a, it'⟩
    · simp [hcall] at h
    · have hlast := nextCalls_searches hsearch hanswer hnext hcall
      simp only [Option.isSome_none, Bool.false_eq_true, ite_false] at hlast
      simp only [collectCalls, hcall, List.append_nil]
      omega
    · rw [hcall] at h
      obtain ⟨ms', hrest, -⟩ := Option.map_eq_some'.mp h
      have hfirst := nextCalls_searches hsearch hanswer hnext hcall
      simp only [Option.isSome_some, ite_true, Nat.add_zero] at hfirst
      have hrest := ih hrest
      simp only [collectCalls, hcall, List.countP_append]
      omega

end PassesLeft

/-- A whole run of `find_iter`, all its calls of `next` together, reaches a pass that returns `None`
within `2 * len + 3` passes: it makes at most `2 * len + 4` passes, so as many searches, where each
call alone may take up to `len + 1`. So does a run of `captures_iter` whose `captures_at` answers as
`find_at`. -/
theorem findIter_passes_le (hc : Contract re text) :
    (∃ k ≤ 2 * text.length + 3,
      pass FindMatches.search ((advance FindMatches.search)^[k] (re.findIter text)) = .done) ∧
    ((∀ i, (re.capturesAt (List.replicate re.slotsLen none) text i).2 = re.findAt text i) →
      ∃ k ≤ 2 * text.length + 3, pass FindCaptures.search
        ((advance FindCaptures.search)^[k] (re.capturesIter text).findMatches) = .done) := by
  have hstart : passesLeft (re.findIter text) ≤ 2 * text.length + 3 := by
    simp [passesLeft, RegularExpression.findIter]
    omega
  refine ⟨iterate_advance_done (fun _ => rfl) hc.findAt_le hc.lt_nextAfterEmpty _ _ hstart,
    fun hcap => @iterate_advance_done re text _
      (fun i => (re.capturesAt (List.replicate re.slotsLen none) text i).2) _ _
      FindCaptures.search_eq_afterSearch ?_ hc.lt_nextAfterEmpty _ _ hstart⟩
  exact fun hi hfound => hc.findAt_le hi ((hcap _).symm.trans hfound)

theorem findIter_passes_le_emptyEverywhere :
    Contract emptyEverywhere [0, 0] ∧
      (∃ k ≤ 2 * [(0 : UInt8), 0].length + 3, pass FindMatches.search
        ((advance FindMatches.search)^[k] (emptyEverywhere.findIter [0, 0])) = .done) ∧
      ((∀ i, (emptyEverywhere.capturesAt (List.replicate emptyEverywhere.slotsLen none) [0, 0]
          i).2 = emptyEverywhere.findAt [0, 0] i) →
        ∃ k ≤ 2 * [(0 : UInt8), 0].length + 3, pass FindCaptures.search
          ((advance FindCaptures.search)^[k] (emptyEverywhere.capturesIter [0, 0]).findMatches) =
            .done) :=
  ⟨emptyEverywhere_contract _, findIter_passes_le (emptyEverywhere_contract _)⟩

/-- A `for` loop over `find_iter` that ends makes at most `2 * len + 4` searches in all, whatever fuel
its calls are given; so does one over `captures_iter` whose `captures_at` answers as `find_at`. -/
theorem collect_searches_le (hc : Contract re text) (fuel calls : Nat) :
    (∀ ms, collectWith FindMatches.search fuel calls (re.findIter text) = some ms →
      (collectCalls FindMatches.search fuel calls (re.findIter text)).countP EngineCall.isSearch ≤
        2 * text.length + 4) ∧
    ((∀ i, (re.capturesAt (List.replicate re.slotsLen none) text i).2 = re.findAt text i) →
      ∀ slots, collectWith FindCaptures.search fuel calls (re.capturesIter text).findMatches =
          some slots →
        (collectCalls FindCaptures.search fuel calls (re.capturesIter text).findMatches).countP
          EngineCall.isSearch ≤ 2 * text.length + 4) := by
  have hstart : passesLeft (re.findIter text) ≤ 2 * text.length + 3 := by
    simp [passesLeft, RegularExpression.findIter]
    omega
  refine ⟨fun _ h => ?_, fun hcap _ h => ?_⟩
  · have := @collectCalls_searches re text _ (re.findAt text) (fun _ => id) FindMatches.search
      (fun _ => rfl) hc.findAt_le hc.lt_nextAfterEmpty _ _ _ _ h
    omega
  · have := @collectCalls_searches re text _
      (fun i => (re.capturesAt (List.replicate re.slotsLen none) text i).2) _ _
      FindCaptures.search_eq_afterSearch (fun hi hfound => hc.findAt_le hi ((hcap _).symm.trans hfound))
      hc.lt_nextAfterEmpty _ _ _ _ h
    have hstart' : passesLeft (re.capturesIter text).findMatches ≤ 2 * text.length + 3 := hstart
    omega

theorem collect_searches_le_emptyEverywhere :
    Contract emptyEverywhere [0, 0] ∧
      ((∀ ms, collectWith FindMatches.search 3 4 (emptyEverywhere.findIter [0, 0]) = some ms →
        (collectCalls FindMatches.search 3 4 (emptyEverywhere.findIter [0, 0])).countP
          EngineCall.isSearch ≤ 2 * [(0 : UInt8), 0].length + 4) ∧
      ((∀ i, (emptyEverywhere.capturesAt (List.replicate emptyEverywhere.slotsLen none) [0, 0]
          i).2 = emptyEverywhere.findAt [0, 0] i) →
        ∀ slots, collectWith FindCaptures.search 3 4 (emptyEverywhere.capturesIter [0, 0]).findMatches =
            some slots →
          (collectCalls FindCaptures.search 3 4 (emptyEverywhere.capturesIter [0, 0]).findMatches).countP
            EngineCall.isSearch ≤ 2 * [(0 : UInt8), 0].length + 4)) :=
  ⟨emptyEverywhere_contract _, collect_searches_le (emptyEverywhere_contract _) 3 4⟩

end RegexCore
