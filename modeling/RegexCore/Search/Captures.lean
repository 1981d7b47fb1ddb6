import RegexCore.Search.Iterator
/-!
# `FindCaptures` moves as `FindMatches` does

`FindCaptures::next` repeats the body of `FindMatches::next` by hand around `captures_at`. With an
engine whose `captures_at` answers as its `find_at` does, the two iterators make the same passes:
each pass of `FindCaptures` is the pass of `FindMatches` from the same state with the yielded
match replaced by the slots `captures_at` wrote. The slots are written into a vector allocated
afresh at every pass, so the vector a call yields is the one filled by the search that found its
match, never one filled by a skipped empty match before it.

To say which search that was, `FindMatches.searchFrom` is the pass of `FindMatches` that reports
with its match the state it searched from. The loop is natural in what a pass yields
(`nextWith_map_from`), so `FindMatches` is `searchFrom` with the state forgotten, and `FindCaptures`
is `searchFrom` with the match replaced by the slots captured at that state.
-/

namespace RegexCore

variable {re : RegularExpression} {text : Text}

/-- The slots `captures_at` fills from an all-`None` vector when the cursor is at `it`. -/
def capturedSlots (it : FindMatches re text) : List Slot :=
  (re.capturesAt (List.replicate re.slotsLen none) text it.lastEnd).1

/-- The pass of `FindMatches`, reporting with its match the state its search started from. -/
def FindMatches.searchFrom (it : FindMatches re text) :
    Step re text ((Nat × Nat) × FindMatches re text) :=
  (FindMatches.search it).map (·, it)

section Natural

variable {α β : Type} {search : FindMatches re text → Step re text α}
  {g : FindMatches re text → α → β}

theorem nextWith_map_from (fuel : Nat) (it : FindMatches re text) :
    nextWith (fun q => (search q).map (g q)) fuel it =
      (nextWith (fun q => (search q).map (·, q)) fuel it).map
        fun (r, it') => (r.map fun (a, q) => g q a, it') := by
  induction fuel generalizing it with
  | zero => rfl
  | succ fuel ih =>
    rw [nextWith, nextWith, pass_map, pass_map]
    cases pass search it with
    | done => rfl
    | found a it' => rfl
    | retry it' => exact ih it'

theorem callsWith_map_from (fuel calls : Nat) (it : FindMatches re text) :
    callsWith (fun q => (search q).map (g q)) fuel calls it =
      (callsWith (fun q => (search q).map (·, q)) fuel calls it).map
        (List.map fun (r, it') => (r.map fun (a, q) => g q a, it')) := by
  induction calls generalizing it with
  | zero => rfl
  | succ calls ih =>
    rw [callsWith, callsWith, nextWith_map_from]
    cases nextWith (fun q => (search q).map (·, q)) fuel it with
    | none => rfl
    | some x =>
      simp only [ih, Option.map_map]
      rfl

theorem collectWith_map_from (fuel calls : Nat) (it : FindMatches re text) :
    collectWith (fun q => (search q).map (g q)) fuel calls it =
      (collectWith (fun q => (search q).map (·, q)) fuel calls it).map
        (List.map fun (a, q) => g q a) := by
  induction calls generalizing it with
  | zero => rfl
  | succ calls ih =>
    rw [collectWith, collectWith, nextWith_map_from]
    rcases nextWith (fun q => (search q).map (·, q)) fuel it with _ | ⟨_ | ⟨a, q⟩, it'⟩
    · rfl
    · rfl
    · simp only [Option.map_some', ih, Option.map_map]
      rfl

end Natural

theorem FindCaptures.search_eq_map
    (hcap : ∀ i, (re.capturesAt (List.replicate re.slotsLen none) text i).2 = re.findAt text i)
    (it : FindMatches re text) :
    FindCaptures.search it = (FindMatches.search it).map fun _ => capturedSlots it := by
  unfold FindCaptures.search FindMatches.search
  dsimp only
  rw [hcap]
  change it.afterSearch _ ((fun _ => capturedSlots it) ∘ id) = _
  exact FindMatches.afterSearch_map _

theorem capturesIter_lockstep
    (hcap : ∀ i, (re.capturesAt (List.replicate re.slotsLen none) text i).2 = re.findAt text i)
    (fuel calls : Nat) :
    callsWith FindCaptures.search fuel calls (re.capturesIter text).findMatches =
        (callsWith FindMatches.searchFrom fuel calls (re.findIter text)).map
          (List.map fun (r, it) => (r.map fun (_, q) => capturedSlots q, it)) ∧
      callsWith FindMatches.search fuel calls (re.findIter text) =
        (callsWith FindMatches.searchFrom fuel calls (re.findIter text)).map
          (List.map fun (r, it) => (r.map Prod.fst, it)) ∧
      ∀ q : FindMatches re text, (capturedSlots q).length = re.slotsLen := by
  refine ⟨?_, ?_, fun q => by simp [capturedSlots, re.capturesAt_length]⟩
  · rw [show (@FindCaptures.search re text) = fun q => (FindMatches.search q).map
      fun _ => capturedSlots q from funext (FindCaptures.search_eq_map hcap)]
    exact callsWith_map_from fuel calls _
  · conv_lhs => rw [show (@FindMatches.search re text) = fun q => (FindMatches.search q).map
      fun a => a from funext fun q => (Step.map_id _).symm]
    exact callsWith_map_from fuel calls _

theorem capturesIter_lockstep_emptyEverywhere :
    (∀ i, (emptyEverywhere.capturesAt (List.replicate emptyEverywhere.slotsLen none) [0, 0] i).2 =
        emptyEverywhere.findAt [0, 0] i) ∧
      (callsWith FindCaptures.search 3 4 (emptyEverywhere.capturesIter [0, 0]).findMatches =
          (callsWith FindMatches.searchFrom 3 4 (emptyEverywhere.findIter [0, 0])).map
            (List.map fun (r, it) => (r.map fun (_, q) => capturedSlots q, it)) ∧
        callsWith FindMatches.search 3 4 (emptyEverywhere.findIter [0, 0]) =
          (callsWith FindMatches.searchFrom 3 4 (emptyEverywhere.findIter [0, 0])).map
            (List.map fun (r, it) => (r.map Prod.fst, it)) ∧
        ∀ q : FindMatches emptyEverywhere [0, 0], (capturedSlots q).length = emptyEverywhere.slotsLen) :=
  ⟨fun _ => rfl, capturesIter_lockstep (fun _ => rfl) 3 4⟩

end RegexCore
