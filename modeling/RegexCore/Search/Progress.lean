import RegexCore.Search.Iterator
/-!
# Every call of `next` returns

A pass retries only from a cursor before the end of the text, and it moves the cursor by
`next_after_empty`. With an engine whose `next_after_empty` moves forward, the distance from the
cursor to one past the end of the text drops at each retry, so a call of `next` returns within that
many passes, each of which makes at most one search, whatever the searches find. More fuel than a
call needs changes nothing.

A call returns `None` for one of three reasons only: the cursor has passed the end of the text, the
engine finds nothing from it, or the engine finds only an empty match on the end of the last match
with the cursor at the end of the text. A retry leaves the last match alone, so the call leaves it
as it found it. Where a call returned `None`, every later call returns `None` again.
-/

namespace RegexCore

variable {re : RegularExpression} {text : Text} {α : Type}

/-- What a pass of either iterator does when it retries: from a cursor before the end of the text,
it moves the cursor by `next_after_empty` and changes nothing else. -/
def RetriesForward (search : FindMatches re text → Step re text α) : Prop :=
  ∀ it it', search it = .retry it' →
    it.lastEnd < text.length ∧ it' = { it with lastEnd := re.nextAfterEmpty text it.lastEnd }

theorem retriesForward_of_afterSearch {search : FindMatches re text → Step re text α}
    (answer : FindMatches re text → Option (Nat × Nat))
    (item : FindMatches re text → Nat × Nat → α)
    (hsearch : ∀ it, search it = it.afterSearch (answer it) (item it)) : RetriesForward search := by
  intro it it' h
  rw [hsearch] at h
  obtain ⟨-, -, hlt, rfl⟩ := FindMatches.afterSearch_retry h
  exact ⟨hlt, rfl⟩

theorem FindMatches.search_retriesForward : RetriesForward (@FindMatches.search re text) :=
  retriesForward_of_afterSearch _ (fun _ => id) fun _ => rfl

theorem FindCaptures.search_retriesForward :
    RetriesForward (@FindCaptures.search re text) :=
  retriesForward_of_afterSearch _ _ FindCaptures.search_eq_afterSearch

section Fuel

variable {search : FindMatches re text → Step re text α} {it : FindMatches re text}

theorem nextWith_mono {fuel fuel' : Nat} {r : Option α × FindMatches re text}
    (h : nextWith search fuel it = some r) (hle : fuel ≤ fuel') :
    nextWith search fuel' it = some r := by
  induction fuel generalizing fuel' it with
  | zero => simp [nextWith] at h
  | succ fuel ih =>
    obtain ⟨fuel', rfl⟩ : ∃ f, fuel' = f + 1 := ⟨fuel' - 1, by omega⟩
    rcases hp : pass search it with _ | ⟨a, it'⟩ | it'
    · rwa [nextWith_done hp] at h ⊢
    · rwa [nextWith_found hp] at h ⊢
    · rw [nextWith_retry hp] at h ⊢
      exact ih h (by omega)

theorem nextWith_isSome (hsearch : RetriesForward search)
    (hnext : ∀ i, i < re.nextAfterEmpty text i) {fuel : Nat}
    (hfuel : text.length - it.lastEnd + 1 ≤ fuel) : (nextWith search fuel it).isSome := by
  induction fuel generalizing it with
  | zero => omega
  | succ fuel ih =>
    rcases hp : pass search it with _ | ⟨a, it'⟩ | it'
    · rw [nextWith_done hp]; rfl
    · rw [nextWith_found hp]; rfl
    · obtain ⟨hlt, rfl⟩ := hsearch _ _ (pass_retry hp).2
      rw [nextWith_retry hp]
      exact ih (by have := hnext it.lastEnd; dsimp only; omega)

end Fuel

theorem next_returns_within (it : FindMatches re text)
    (hnext : ∀ i, i < re.nextAfterEmpty text i) :
    (it.next (text.length - it.lastEnd + 1)).isSome ∧
      (FindCaptures.next ⟨it⟩ (text.length - it.lastEnd + 1)).isSome := by
  refine ⟨nextWith_isSome FindMatches.search_retriesForward hnext le_rfl, ?_⟩
  simpa [FindCaptures.next] using
    nextWith_isSome FindCaptures.search_retriesForward hnext (le_refl (text.length - it.lastEnd + 1))

theorem next_returns_within_emptyEverywhere :
    (∀ i, i < emptyEverywhere.nextAfterEmpty [0, 0] i) ∧
      ((emptyEverywhere.findIter [0, 0]).next (2 - 0 + 1)).isSome ∧
        (FindCaptures.next ⟨emptyEverywhere.findIter [0, 0]⟩ (2 - 0 + 1)).isSome :=
  ⟨(emptyEverywhere_contract _).lt_nextAfterEmpty,
    next_returns_within _ (emptyEverywhere_contract _).lt_nextAfterEmpty⟩


/-! ### How a call ends with `None` -/

/-- Where a call of `next` from `it` that returned `None` left the iterator at `it'`: with the last
match of `it`, and past the end of the text, at a cursor where the engine answers nothing, or on
the end of the text with only an empty match there, on the end of the last match. -/
def Stopped (answer : Nat → Option (Nat × Nat)) (it it' : FindMatches re text) : Prop :=
  it'.lastMatch = it.lastMatch ∧
    (text.length < it'.lastEnd ∨ answer it'.lastEnd = none ∨
      ∃ e, answer it'.lastEnd = some (e, e) ∧ some it'.lastEnd = it'.lastMatch ∧
        text.length ≤ it'.lastEnd)

theorem nextWith_none_stopped {answer : Nat → Option (Nat × Nat)}
    {item : FindMatches re text → Nat × Nat → α} {search : FindMatches re text → Step re text α}
    (hsearch : ∀ it, search it = it.afterSearch (answer it.lastEnd) (item it)) :
    ∀ {fuel : Nat} {it it' : FindMatches re text}, nextWith search fuel it = some (none, it') →
      Stopped answer it it'
  | 0, _, _, h => by cases h
  | fuel + 1, it, it', h => by
    rcases hp : pass search it with _ | ⟨a, q⟩ | q
    · rw [nextWith_done hp] at h
      cases h
      refine ⟨rfl, ?_⟩
      rcases pass_done hp with hgt | hs
      · exact .inl hgt
      · rw [hsearch] at hs
        rcases FindMatches.afterSearch_done hs with hnone | ⟨s, hs, hlast, hend⟩
        · exact .inr (.inl hnone)
        · exact .inr (.inr ⟨s, hs, hlast, hend⟩)
    · rw [nextWith_found hp] at h
      cases h
    · rw [nextWith_retry hp] at h
      obtain ⟨-, -, -, rfl⟩ := FindMatches.afterSearch_retry ((hsearch it).symm.trans (pass_retry hp).2)
      have hstop := nextWith_none_stopped hsearch h
      exact ⟨hstop.1, hstop.2⟩

/-- A call of `FindCaptures::next` is the call of the shared loop on the state it wraps. -/
theorem FindCaptures.next_none {it it' : FindMatches re text} {fuel : Nat}
    (h : FindCaptures.next ⟨it⟩ fuel = some (none, ⟨it'⟩)) :
    nextWith FindCaptures.search fuel it = some (none, it') := by
  obtain ⟨⟨r, q⟩, hcall, hq⟩ := Option.map_eq_some'.mp h
  simp only [Prod.mk.injEq, FindCaptures.mk.injEq] at hq
  obtain ⟨rfl, rfl⟩ := hq
  exact hcall

/-- A call of `next` of either iterator returns `None` only past the end of the text, where the
engine finds nothing from the cursor, or on the end of the text where the engine's only match is
the empty one the last match ended on; and it leaves the last match as it was. -/
theorem next_none_stopped (it it' : FindMatches re text) (fuel : Nat) :
    (it.next fuel = some (none, it') → Stopped (re.findAt text) it it') ∧
      (FindCaptures.next ⟨it⟩ fuel = some (none, ⟨it'⟩) →
        Stopped (fun i => (re.capturesAt (List.replicate re.slotsLen none) text i).2) it it') :=
  ⟨nextWith_none_stopped fun _ => rfl,
    fun h => nextWith_none_stopped FindCaptures.search_eq_afterSearch (FindCaptures.next_none h)⟩

/-! ### After `None`

The state a call that returned `None` leaves is one where the first pass returns `None` at once, so
every later call returns `None` there again and changes nothing: both iterators behave as fused. -/

theorem nextWith_none_pass {search : FindMatches re text → Step re text α} :
    ∀ {fuel : Nat} {it it' : FindMatches re text}, nextWith search fuel it = some (none, it') →
      pass search it' = .done
  | 0, _, _, h => by cases h
  | fuel + 1, it, it', h => by
    rcases hp : pass search it with _ | ⟨a, q⟩ | q
    · rw [nextWith_done hp] at h
      cases h
      exact hp
    · rw [nextWith_found hp] at h
      cases h
    · rw [nextWith_retry hp] at h
      exact nextWith_none_pass h

theorem callsWith_of_pass_done {search : FindMatches re text → Step re text α}
    {it : FindMatches re text} (hp : pass search it = .done) (fuel : Nat) :
    ∀ calls, callsWith search (fuel + 1) calls it = some (List.replicate calls (none, it))
  | 0 => rfl
  | calls + 1 => by
    simp only [callsWith, nextWith_done hp, callsWith_of_pass_done hp fuel calls, Option.map_some',
      List.replicate_succ]

/-- Once `next` of either iterator returns `None`, every later call returns `None` again and leaves
the iterator where it is, whatever the engine answers. -/
theorem next_none_fused (it it' : FindMatches re text) (fuel fuel' calls : Nat) :
    (it.next fuel = some (none, it') →
      callsWith FindMatches.search (fuel' + 1) calls it' = some (List.replicate calls (none, it'))) ∧
    (FindCaptures.next ⟨it⟩ fuel = some (none, ⟨it'⟩) →
      callsWith FindCaptures.search (fuel' + 1) calls it' = some (List.replicate calls (none, it'))) :=
  ⟨fun h => callsWith_of_pass_done (nextWith_none_pass h) fuel' calls,
    fun h => callsWith_of_pass_done (nextWith_none_pass (FindCaptures.next_none h)) fuel' calls⟩

end RegexCore
