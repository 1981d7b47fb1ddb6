import RegexCore.Search.Progress
import Mathlib.Data.List.Chain
/-!
# Matches come out in order

Under the engine contract, `FindMatches` yields each match at or after the end of the previous
one, ending strictly after it, and never an empty match sitting on that end. The argument is an
invariant of the cursor: it is never behind the end of the last match yielded. A pass that retries
keeps it, since it only moves the cursor forward and leaves `lastMatch` alone. A pass that yields
searched from a cursor at or after the previous end, and the engine finds nothing before the
cursor, so the match starts there or later; if it is empty, the skip test let it through only
because the cursor had already moved past the previous end. The ends of the matches rise strictly
and stay within the text, so a run yields at most `len + 1` of them.
-/

namespace RegexCore

variable {re : RegularExpression} {text : Text}

/-- A match `m` may follow a match that ended at `e₁`: it starts at or after `e₁`, ends after it,
and is not an empty match at `e₁`. -/
def Follows (e₁ : Nat) (m : Nat × Nat) : Prop :=
  e₁ ≤ m.1 ∧ e₁ < m.2 ∧ (m.1 = m.2 → m.1 ≠ e₁)

/-- Two matches yielded one right after the other. -/
def Advances (m₁ m₂ : Nat × Nat) : Prop := Follows m₁.2 m₂

/-- The cursor is not behind the end of the last match yielded. -/
def Trails (it : FindMatches re text) : Prop := ∀ e₁, it.lastMatch = some e₁ → e₁ ≤ it.lastEnd

/-- What a call of `FindMatches::next` from `it` leaves: a yielded match follows the last one and
becomes the cursor; `None` keeps the last match and moves the cursor no further back. -/
def CallOutcome (it : FindMatches re text) : Option (Nat × Nat) × FindMatches re text → Prop
  | (none, it') => it'.lastMatch = it.lastMatch ∧ it.lastEnd ≤ it'.lastEnd
  | (some m, it') => (∀ e₁, it.lastMatch = some e₁ → Follows e₁ m) ∧
      it' = ⟨m.2, some m.2⟩ ∧ m.2 ≤ text.length

theorem CallOutcome.trails {it : FindMatches re text} {r : Option (Nat × Nat) × FindMatches re text}
    (htr : Trails it) (h : CallOutcome it r) : Trails r.2 := by
  rcases r with ⟨_ | m, it'⟩
  · intro e₁ he
    exact (htr e₁ (h.1 ▸ he)).trans h.2
  · obtain ⟨-, rfl, -⟩ := h
    rintro e₁ ⟨⟩
    exact le_rfl

section Contract

variable (hc : Contract re text) {it it' : FindMatches re text} {m : Nat × Nat}
include hc

theorem FindMatches.pass_search_found (htr : Trails it)
    (h : pass FindMatches.search it = .found m it') : CallOutcome it (some m, it') := by
  obtain ⟨hle, hs⟩ := pass_found h
  obtain ⟨s, e, hfound, hskip, rfl, rfl⟩ := FindMatches.afterSearch_found hs
  obtain ⟨hs₁, hse, he⟩ := hc.findAt_le hle hfound
  refine ⟨fun e₁ hlast => ?_, rfl, he⟩
  have hmoved : e = s → it.lastEnd ≠ e₁ := fun hes hend => hskip ⟨hes, by rw [hend, hlast]⟩
  have := htr e₁ hlast
  simp only [Follows, id]
  by_cases hes : e = s
  · have := hmoved hes
    omega
  · omega

theorem FindMatches.next_outcome {fuel : Nat} {r : Option (Nat × Nat) × FindMatches re text}
    (htr : Trails it) (h : it.next fuel = some r) : CallOutcome it r := by
  induction fuel generalizing it with
  | zero => cases h
  | succ fuel ih =>
    rcases hp : pass FindMatches.search it with _ | ⟨a, q⟩ | q
    · rw [FindMatches.next, nextWith_done hp] at h
      cases h
      exact ⟨rfl, le_rfl⟩
    · rw [FindMatches.next, nextWith_found hp] at h
      cases h
      exact FindMatches.pass_search_found hc htr hp
    · rw [FindMatches.next, nextWith_retry hp] at h
      obtain ⟨-, rfl⟩ := FindMatches.search_retriesForward _ _ (pass_retry hp).2
      have hmove := hc.lt_nextAfterEmpty it.lastEnd
      have htr' : Trails ({ it with lastEnd := re.nextAfterEmpty text it.lastEnd } :
          FindMatches re text) := fun e₁ he => (htr e₁ he).trans hmove.le
      have hq := ih htr' h
      rcases r with ⟨_ | m, it''⟩
      · exact ⟨hq.1, hmove.le.trans hq.2⟩
      · exact ⟨hq.1, hq.2⟩

/-- Over a run of calls, the matches yielded advance one after the other, the first follows the
last match before the run, and all end within the text. -/
theorem FindMatches.calls_advance {fuel calls : Nat}
    {rs : List (Option (Nat × Nat) × FindMatches re text)} (htr : Trails it)
    (h : callsWith FindMatches.search fuel calls it = some rs) :
    ((rs.map Prod.fst).filterMap id).Chain' Advances ∧
      (∀ e₁, it.lastMatch = some e₁ → ∀ m ∈ ((rs.map Prod.fst).filterMap id).head?, Follows e₁ m) ∧
      ∀ m ∈ (rs.map Prod.fst).filterMap id, m.2 ≤ text.length := by
  induction calls generalizing it rs with
  | zero =>
    cases h
    exact ⟨List.chain'_nil, by simp, by simp⟩
  | succ calls ih =>
    simp only [callsWith] at h
    rcases hcall : nextWith FindMatches.search fuel it with _ | ⟨r, it''⟩
    · simp [hcall] at h
    rw [hcall] at h
    obtain ⟨rs', hrest, rfl⟩ := Option.map_eq_some'.mp h
    have hout := FindMatches.next_outcome hc htr hcall
    obtain ⟨hchain, hhead, hend⟩ := ih (hout.trails htr) hrest
    rcases r with _ | m
    · exact ⟨hchain, fun e₁ he => hhead e₁ (hout.1.trans he), hend⟩
    · obtain ⟨hfollow, rfl, hm⟩ := hout
      refine ⟨List.chain'_cons'.mpr ⟨hhead m.2 rfl, hchain⟩, ?_, ?_⟩
      · rintro e₁ he _ ⟨⟩
        exact hfollow e₁ he
      · simpa [hm] using hend

end Contract

/-- Matches that advance one after the other and end within `n` are at most `n + 1`. -/
theorem length_le_of_chain_advances {n : Nat} :
    ∀ {m : Nat × Nat} {ms : List (Nat × Nat)}, (m :: ms).Chain' Advances →
      (∀ x ∈ m :: ms, x.2 ≤ n) → m.2 + ms.length ≤ n
  | m, [], _, hle => by simpa using hle m (List.mem_cons_self m [])
  | m, x :: ms, hchain, hle => by
    have hstep := (List.chain'_cons.mp hchain).1.2.1
    have := length_le_of_chain_advances (List.chain'_cons.mp hchain).2
      fun y hy => hle y (List.mem_cons_of_mem m hy)
    simp only [List.length_cons]
    omega

theorem length_le_of_advances {n : Nat} {ms : List (Nat × Nat)} (hchain : ms.Chain' Advances)
    (hle : ∀ x ∈ ms, x.2 ≤ n) : ms.length ≤ n + 1 := by
  cases ms with
  | nil => simp
  | cons m ms =>
    have := length_le_of_chain_advances hchain hle
    simp only [List.length_cons]
    omega

theorem findIter_matches_advance (hc : Contract re text) (fuel calls : Nat)
    (rs : List (Option (Nat × Nat) × FindMatches re text))
    (hrun : callsWith FindMatches.search fuel calls (re.findIter text) = some rs) :
    ((rs.map Prod.fst).filterMap id).Chain' Advances ∧
      ((rs.map Prod.fst).filterMap id).length ≤ text.length + 1 := by
  obtain ⟨hchain, -, hend⟩ := FindMatches.calls_advance hc (fun _ h => Option.noConfusion h) hrun
  exact ⟨hchain, length_le_of_advances hchain hend⟩

/-- Over two bytes the engine with an empty match everywhere yields three matches, the most there
can be, and then `None`. -/
theorem findIter_matches_advance_emptyEverywhere :
    Contract emptyEverywhere [0, 0] ∧
      callsWith FindMatches.search 3 4 (emptyEverywhere.findIter [0, 0]) =
        some [(some (0, 0), ⟨0, some 0⟩), (some (1, 1), ⟨1, some 1⟩), (some (2, 2), ⟨2, some 2⟩),
          (none, ⟨2, some 2⟩)] ∧
      (([(some (0, 0), ⟨0, some 0⟩), (some (1, 1), ⟨1, some 1⟩), (some (2, 2), ⟨2, some 2⟩),
          (none, ⟨2, some 2⟩)] : List (Option (Nat × Nat) × FindMatches emptyEverywhere [0, 0])).map
          Prod.fst |>.filterMap id).Chain' Advances ∧
      (([(some (0, 0), ⟨0, some 0⟩), (some (1, 1), ⟨1, some 1⟩), (some (2, 2), ⟨2, some 2⟩),
          (none, ⟨2, some 2⟩)] : List (Option (Nat × Nat) × FindMatches emptyEverywhere [0, 0])).map
          Prod.fst |>.filterMap id).length ≤ [(0 : UInt8), 0].length + 1 :=
  ⟨emptyEverywhere_contract _, rfl, findIter_matches_advance (emptyEverywhere_contract _) 3 4 _ rfl⟩

end RegexCore
