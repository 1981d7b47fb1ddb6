import RegexCore.Search.Runs
/-!
# The code against the spec's iteration rule

The spec words the skip test as "the empty match ends where the previous match ended"; the code
tests instead whether the cursor still sits where the previous match ended. The two part ways when
the cursor sits on the previous end and the engine finds an empty match strictly after it: the code
skips that match, moves the cursor by `next_after_empty` and searches again, where the rule yields
it at once. With a leftmost engine, whose search from any offset up to a match it found finds that
match again, and a `next_after_empty` that does not jump past a match found ahead, the second
search finds the same empty match with the cursor now past the previous end, and the code yields it
too. Everywhere else the two passes agree: once the cursor has left the previous end, neither skips.
So the two runs yield the same matches call for call and leave the same state after each yield.
-/

namespace RegexCore

variable {re : RegularExpression} {text : Text} {α : Type}

/-- The iteration rule as the spec words it: an empty match is skipped when it ends where the
previous match ended. The rest is the code's pass. -/
def specSearch (it : FindMatches re text) : Step re text (Nat × Nat) :=
  match re.findAt text it.lastEnd with
  | none => .done
  | some (s, e) =>
    if e = s ∧ some e = it.lastMatch then
      if it.lastEnd ≥ text.length then .done
      else .retry { it with lastEnd := re.nextAfterEmpty text it.lastEnd }
    else .found (s, e) { lastEnd := e, lastMatch := some e }

/-- A leftmost engine: a search from any offset between a search's start and the start of the
match it found finds that match again. -/
def Leftmost (re : RegularExpression) (text : Text) : Prop :=
  ∀ i j s e, re.findAt text i = some (s, e) → i ≤ j → j ≤ s → re.findAt text j = some (s, e)

/-- `next_after_empty` does not move past the start of a match found ahead of the offset. -/
def StopsAtMatch (re : RegularExpression) (text : Text) : Prop :=
  ∀ i s e, re.findAt text i = some (s, e) → i < s → re.nextAfterEmpty text i ≤ s

/-- The state between two calls: nothing yielded yet, or the cursor on the end of the last match. -/
def Settled (it : FindMatches re text) : Prop :=
  it.lastMatch = none ∨ it.lastMatch = some it.lastEnd

/-- The cursor has left the end of the last match, if there was one: neither rule skips here. -/
def Moved (it : FindMatches re text) : Prop :=
  it.lastMatch = none ∨ ∃ l, it.lastMatch = some l ∧ l < it.lastEnd

theorem specSearch_retriesForward : RetriesForward (@specSearch re text) := by
  intro it it' h
  unfold specSearch at h
  split at h
  · cases h
  · split_ifs at h with hskip hend
    cases h
    exact ⟨by omega, rfl⟩

/-! ### One call of the code against one call of the rule -/

section Simulation

/-- The code's search and the rule's agree where their skip tests agree on every empty match the
engine can find at the cursor. -/
theorem search_eq_specSearch_of {q : FindMatches re text}
    (h : ∀ s, re.findAt text q.lastEnd = some (s, s) →
      (some q.lastEnd = q.lastMatch ↔ some s = q.lastMatch)) :
    FindMatches.search q = specSearch q := by
  unfold FindMatches.search FindMatches.afterSearch specSearch
  rcases hfound : re.findAt text q.lastEnd with _ | ⟨s, e⟩
  · rfl
  by_cases hes : e = s
  · subst hes
    simp only [id, h e hfound]
  · simp [hes]

theorem pass_eq_of_search_eq {s₁ s₂ : FindMatches re text → Step re text α}
    {it : FindMatches re text} (h : it.lastEnd ≤ text.length → s₁ it = s₂ it) :
    pass s₁ it = pass s₂ it := by
  by_cases hle : it.lastEnd ≤ text.length
  · rw [pass_of_le hle, pass_of_le hle, h hle]
  · rw [pass_of_lt (by omega), pass_of_lt (by omega)]

/-- Two loops whose passes agree at `it` return the same from it, when they do from the state a
retry of theirs leaves. -/
theorem nextWith_eq_of_pass_eq {s₁ s₂ : FindMatches re text → Step re text α}
    {it : FindMatches re text} {f f' : Nat} {x y : Option α × FindMatches re text}
    (hpass : pass s₁ it = pass s₂ it)
    (hretry : ∀ q, pass s₁ it = .retry q → ∀ {g g' : Nat} {x y : Option α × FindMatches re text},
      nextWith s₁ g q = some x → nextWith s₂ g' q = some y → x = y)
    (hx : nextWith s₁ f it = some x) (hy : nextWith s₂ f' it = some y) : x = y := by
  cases f with | zero => cases hx | succ f => ?_
  cases f' with | zero => cases hy | succ f' => ?_
  rcases hp : pass s₁ it with _ | ⟨a, q⟩ | q <;> have hp' := hpass.symm.trans hp
  · rw [nextWith_done hp] at hx
    rw [nextWith_done hp'] at hy
    cases hx; cases hy; rfl
  · rw [nextWith_found hp] at hx
    rw [nextWith_found hp'] at hy
    cases hx; cases hy; rfl
  · rw [nextWith_retry hp] at hx
    rw [nextWith_retry hp'] at hy
    exact hretry q hp hx hy

variable (hc : Contract re text)
include hc

theorem search_eq_specSearch {q : FindMatches re text} (hq : Moved q)
    (hle : q.lastEnd ≤ text.length) : FindMatches.search q = specSearch q := by
  refine search_eq_specSearch_of fun s hfound => ?_
  have hs := (hc.findAt_le hle hfound).1
  rcases hq with hq | ⟨l, hq, hlt⟩
  · simp [hq]
  · simp only [hq, Option.some.injEq]
    omega

/-- Once the cursor has left the previous end, a call of the code and a call of the rule return
the same thing: their passes agree and neither retries. -/
theorem nextWith_moved {q : FindMatches re text} (hq : Moved q) {f f' : Nat}
    {x y : Option (Nat × Nat) × FindMatches re text}
    (hx : nextWith FindMatches.search f q = some x) (hy : nextWith specSearch f' q = some y) :
    x = y := by
  refine nextWith_eq_of_pass_eq (pass_eq_of_search_eq (search_eq_specSearch hc hq))
    (fun q' hp => ?_) hx hy
  obtain ⟨-, hlast, -, -⟩ := FindMatches.afterSearch_retry (pass_retry hp).2
  rcases hq with hq | ⟨l, hq, hlt⟩
  · simp [hq] at hlast
  · rw [hq, Option.some.injEq] at hlast
    exact absurd hlast (by omega)

/-- From a state between two calls, a call of the code and a call of the rule return the same
thing. The one place they part is an empty match found strictly after the previous end: the code
takes one more pass to yield it. -/
theorem nextWith_settled (hleft : Leftmost re text) (hstop : StopsAtMatch re text)
    {it : FindMatches re text} (hit : Settled it) {f f' : Nat}
    {x y : Option (Nat × Nat) × FindMatches re text}
    (hx : nextWith FindMatches.search f it = some x) (hy : nextWith specSearch f' it = some y) :
    x = y := by
  rcases hit with hnone | hlast
  · exact nextWith_moved hc (.inl hnone) hx hy
  by_cases hahead : ∃ e, it.lastEnd ≤ text.length ∧ re.findAt text it.lastEnd = some (e, e) ∧
      it.lastEnd < e
  · -- the empty match lies ahead: the code skips it, lands on or before it, and finds it again
    obtain ⟨e, hle, hfound, hlt⟩ := hahead
    have he := (hc.findAt_le hle hfound).2.2
    have hj := hc.lt_nextAfterEmpty it.lastEnd
    have hfound' := hleft _ _ _ _ hfound hj.le (hstop _ _ _ hfound hlt)
    have hskip : pass FindMatches.search it =
        .retry { it with lastEnd := re.nextAfterEmpty text it.lastEnd } := by
      simp [pass_of_le hle, FindMatches.search, FindMatches.afterSearch, hfound, hlast,
        show ¬text.length ≤ it.lastEnd by omega]
    have hagain : pass FindMatches.search
        ({ it with lastEnd := re.nextAfterEmpty text it.lastEnd } : FindMatches re text) =
          .found (e, e) ⟨e, some e⟩ := by
      rw [pass_of_le (show re.nextAfterEmpty text it.lastEnd ≤ text.length by
        have := hstop _ _ _ hfound hlt; omega)]
      simp [FindMatches.search, FindMatches.afterSearch, hfound', hlast, hj.ne']
    have hspec : pass specSearch it = .found (e, e) ⟨e, some e⟩ := by
      simp [pass_of_le hle, specSearch, hfound, hlast, hlt.ne']
    cases f with | zero => cases hx | succ f => ?_
    cases f' with | zero => cases hy | succ f' => ?_
    rw [nextWith_retry hskip] at hx
    cases f with | zero => cases hx | succ f => ?_
    rw [nextWith_found hagain] at hx
    rw [nextWith_found hspec] at hy
    cases hx; cases hy; rfl
  · -- elsewhere the two skip tests agree, and a retry leaves the cursor past the previous end
    refine nextWith_eq_of_pass_eq (pass_eq_of_search_eq fun hle => search_eq_specSearch_of
      fun e hfound => ?_) (fun q hp => ?_) hx hy
    · have := (hc.findAt_le hle hfound).1
      have hon : e = it.lastEnd := by
        by_contra hne
        exact hahead ⟨e, hle, hfound, by omega⟩
      simp [hlast, hon]
    · obtain ⟨-, rfl⟩ := FindMatches.search_retriesForward _ _ (pass_retry hp).2
      intro _ _ _ _ hx' hy'
      refine nextWith_moved hc ?_ hx' hy'
      exact .inr ⟨it.lastEnd, hlast, hc.lt_nextAfterEmpty _⟩

end Simulation

/-! ### Whole runs -/

theorem Settled.trails {it : FindMatches re text} (hit : Settled it) : Trails it := by
  intro e₁ he
  rcases hit with h | h <;> rw [h] at he <;> cases he
  exact le_rfl

section Runs

variable (hc : Contract re text)
include hc

/-- Call for call, the rule's run yields what the code's run yields. -/
theorem collectWith_settled (hleft : Leftmost re text) (hstop : StopsAtMatch re text)
    {fuel calls : Nat} {it : FindMatches re text} {ms : List (Nat × Nat)} (hit : Settled it)
    (h : collectWith FindMatches.search fuel calls it = some ms) :
    collectWith specSearch (text.length + 1) calls it = some ms := by
  induction calls generalizing it ms with
  | zero => cases h
  | succ calls ih =>
    simp only [collectWith] at h ⊢
    rcases hcall : nextWith FindMatches.search fuel it with _ | ⟨r, c⟩
    · simp [hcall] at h
    obtain ⟨y, hspec⟩ := Option.isSome_iff_exists.mp
      (nextWith_isSome specSearch_retriesForward hc.lt_nextAfterEmpty
        (show text.length - it.lastEnd + 1 ≤ text.length + 1 by omega))
    rw [hspec, ← nextWith_settled hc hleft hstop hit hcall hspec]
    rw [hcall] at h
    rcases r with _ | m
    · exact h
    obtain ⟨-, rfl, -⟩ := FindMatches.next_outcome hc hit.trails hcall
    obtain ⟨ms', hrest, rfl⟩ := Option.map_eq_some'.mp h
    simp [ih (.inr rfl) hrest]

end Runs

/-! ### An engine on which the code and the rule part

On the text `ab`, the engine of `a|$` finds `a` at `0` and then only the empty match at the end.
After the first match the cursor sits on its end, `1`, and the engine finds the empty match at `2`
ahead of it: the code skips it and searches again from `2`, where the rule yields it at once. The
engine is leftmost and `next_after_empty` steps by one, so both runs still yield the same. -/

/-- The first match of the pattern `a|$` from offset `i`: the first `a` at or after `i`, else the
empty match at the end of the text. -/
def aOrEndFind (text : Text) (i : Nat) : Option (Nat × Nat) :=
  if i ≤ text.length then
    match (text.drop i).findIdx? (· == 97) with
    | some k => some (i + k, i + k + 1)
    | none => some (text.length, text.length)
  else none

/-- An engine for `a|$`; its one capture group is the whole match. -/
def aOrEnd : RegularExpression where
  slotsLen := 2
  nextAfterEmpty _ i := i + 1
  findAt := aOrEndFind
  capturesAt slots text i :=
    ((slots.set 0 ((aOrEndFind text i).map Prod.fst)).set 1 ((aOrEndFind text i).map Prod.snd),
      aOrEndFind text i)
  capturesAt_length _ _ _ := by simp

theorem aOrEnd_findAt_ab (i : Nat) :
    aOrEnd.findAt [97, 98] i = if i = 0 then some (0, 1) else if i ≤ 2 then some (2, 2) else none := by
  rcases i with _ | _ | _ | i
  · rfl
  · rfl
  · rfl
  · simp [aOrEnd, aOrEndFind]

theorem findIter_refines_spec (hc : Contract re text) (hleft : Leftmost re text)
    (hstop : StopsAtMatch re text) :
    (∀ ms, Yields FindMatches.search (re.findIter text) ms ↔
        Yields specSearch (re.findIter text) ms) ∧
      ∃ ms, Yields FindMatches.search (re.findIter text) ms := by
  have hstart : Settled (re.findIter text) := .inl rfl
  obtain ⟨ms₀, hms₀⟩ := Option.isSome_iff_exists.mp (findIter_collect_isSome hc)
  have hcode : Yields FindMatches.search (re.findIter text) ms₀ := ⟨_, _, hms₀⟩
  have hforward : ∀ ms, Yields FindMatches.search (re.findIter text) ms →
      Yields specSearch (re.findIter text) ms :=
    fun _ ⟨_, _, h⟩ => ⟨_, _, collectWith_settled hc hleft hstop hstart h⟩
  refine ⟨fun ms => ⟨hforward ms, fun hspec => ?_⟩, ms₀, hcode⟩
  rwa [← (hforward ms₀ hcode).unique hspec]

theorem findIter_refines_spec_aOrEnd :
    Contract aOrEnd [97, 98] ∧ Leftmost aOrEnd [97, 98] ∧ StopsAtMatch aOrEnd [97, 98] ∧
      FindMatches.search (⟨1, some 1⟩ : FindMatches aOrEnd [97, 98]) = .retry ⟨2, some 1⟩ ∧
      specSearch (⟨1, some 1⟩ : FindMatches aOrEnd [97, 98]) = .found (2, 2) ⟨2, some 2⟩ ∧
      ((∀ ms, Yields FindMatches.search (aOrEnd.findIter [97, 98]) ms ↔
          Yields specSearch (aOrEnd.findIter [97, 98]) ms) ∧
        ∃ ms, Yields FindMatches.search (aOrEnd.findIter [97, 98]) ms) := by
  have hc : Contract aOrEnd [97, 98] := by
    refine ⟨fun {i s e} hi h => ?_, fun i => Nat.lt_succ_self i⟩
    rw [aOrEnd_findAt_ab] at h
    split_ifs at h <;> cases h <;> simp <;> omega
  have hleft : Leftmost aOrEnd [97, 98] := by
    intro i j s e h hij hjs
    rw [aOrEnd_findAt_ab] at h ⊢
    split_ifs at h ⊢ <;> cases h <;> first | rfl | omega
  have hstop : StopsAtMatch aOrEnd [97, 98] := by
    intro i s e h hlt
    show i + 1 ≤ s
    omega
  exact ⟨hc, hleft, hstop, rfl, rfl, findIter_refines_spec hc hleft hstop⟩

end RegexCore
