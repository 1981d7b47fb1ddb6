import Mathlib.Data.List.Basic
/-!
# The match iterators

`FindMatches` and `FindCaptures` of `re_trait.rs`, over any engine with the interface of the trait
`RegularExpression`. Both drive the engine from a cursor `lastEnd` and keep in `lastMatch` where
the previous match ended. An empty match found while the cursor still sits on that end is not
yielded: the cursor moves on by `next_after_empty` and `next` calls itself again.

An iterator holds its engine and its text for its whole life and changes only its cursor, so here
the engine `re` and the text `text` index the type of its state and a state is the cursor pair.

The two `next` functions of the source are the same code around a different engine call, so here
they are one loop, `nextWith`, given the pass each makes after its bound check: `FindMatches.search`
calls `find_at` and `FindCaptures.search` calls `captures_at`. The source's recursion of `next` on
itself is bounded by a fuel that counts passes through its body, and `none` means the fuel ran out
before `next` returned. How much fuel is enough is the subject of `Progress`.
-/

namespace RegexCore

/-- A single saved capture location: two slots per capture, its start and its end. -/
abbrev Slot := Option Nat

/-- The text searched, as the bytes its `as_ref` gives; the iterators read only their number. -/
abbrev Text := List UInt8

/-- The methods of `RegularExpression` the iterators call. `captures_at` writes into a slice it
cannot resize, so it gives back slots of the length it was handed. -/
structure RegularExpression where
  slotsLen : Nat
  nextAfterEmpty : Text → Nat → Nat
  findAt : Text → Nat → Option (Nat × Nat)
  capturesAt : List Slot → Text → Nat → List Slot × Option (Nat × Nat)
  capturesAt_length : ∀ slots text start, (capturesAt slots text start).1.length = slots.length

/-- The contract the spec asks of an engine on a text: a match found from an offset `i ≤ len` lies
between `i` and the end of the text, and `next_after_empty` moves forward. The source checks
neither; the theorems that rely on them say so. -/
structure Contract (re : RegularExpression) (text : Text) : Prop where
  findAt_le : ∀ {i s e}, i ≤ text.length → re.findAt text i = some (s, e) →
    i ≤ s ∧ s ≤ e ∧ e ≤ text.length
  lt_nextAfterEmpty : ∀ i, i < re.nextAfterEmpty text i

/-- An engine that reports an empty match at every offset, the spec's example of an engine the
iterators must still make progress against; its one capture group is the whole match. -/
def emptyEverywhere : RegularExpression where
  slotsLen := 2
  nextAfterEmpty _ i := i + 1
  findAt _ i := some (i, i)
  capturesAt slots _ i := ((slots.set 0 (some i)).set 1 (some i), some (i, i))
  capturesAt_length _ _ _ := by simp

theorem emptyEverywhere_contract (text : Text) : Contract emptyEverywhere text where
  findAt_le hi h := by
    cases h
    exact ⟨le_rfl, le_rfl, hi⟩
  lt_nextAfterEmpty i := Nat.lt_succ_self i

structure FindMatches (re : RegularExpression) (text : Text) where
  lastEnd : Nat
  lastMatch : Option Nat

structure FindCaptures (re : RegularExpression) (text : Text) where
  findMatches : FindMatches re text

def RegularExpression.findIter (re : RegularExpression) (text : Text) : FindMatches re text :=
  { lastEnd := 0, lastMatch := none }

def RegularExpression.capturesIter (re : RegularExpression) (text : Text) :
    FindCaptures re text :=
  ⟨re.findIter text⟩

variable {re : RegularExpression} {text : Text}

/-- How one pass through the body of `next` ends: it returns `None`, it returns an item with the
cursor moved, or it calls `next` again from a new cursor. -/
inductive Step (re : RegularExpression) (text : Text) (α : Type)
  | done
  | found (item : α) (it : FindMatches re text)
  | retry (it : FindMatches re text)

def Step.map {α β : Type} (f : α → β) : Step re text α → Step re text β
  | .done => .done
  | .found a it => .found (f a) it
  | .retry it => .retry it

@[simp] theorem Step.map_id {α : Type} (s : Step re text α) : s.map (fun a => a) = s := by
  cases s <;> rfl

namespace FindMatches

variable {α : Type}

/-- The body of `next` after the engine answered `found` at the cursor, the same in both iterators;
`item` is what a yield returns for the match. -/
def afterSearch (it : FindMatches re text) (found : Option (Nat × Nat)) (item : Nat × Nat → α) :
    Step re text α :=
  match found with
  | none => .done
  | some (s, e) =>
    if e = s ∧ some it.lastEnd = it.lastMatch then
      if it.lastEnd ≥ text.length then .done
      else .retry { it with lastEnd := re.nextAfterEmpty text it.lastEnd }
    else .found (item (s, e)) { lastEnd := e, lastMatch := some e }

/-- `FindMatches::next` from its engine call on: `find_at` at the cursor, yielding the match. -/
def search (it : FindMatches re text) : Step re text (Nat × Nat) :=
  it.afterSearch (re.findAt text it.lastEnd) id

end FindMatches

/-- `FindCaptures::next` from its engine call on: `captures_at` at the cursor into a fresh all-`None`
vector of `slots_len` slots, yielding that vector. -/
def FindCaptures.search (it : FindMatches re text) : Step re text (List Slot) :=
  let captured := re.capturesAt (List.replicate re.slotsLen none) text it.lastEnd
  it.afterSearch captured.2 fun _ => captured.1

theorem FindCaptures.search_eq_afterSearch (it : FindMatches re text) :
    FindCaptures.search it =
      it.afterSearch (re.capturesAt (List.replicate re.slotsLen none) text it.lastEnd).2
        fun _ => (re.capturesAt (List.replicate re.slotsLen none) text it.lastEnd).1 :=
  rfl

section Loop

variable {α : Type} (search : FindMatches re text → Step re text α)

/-- One pass through the body of `next`: the bound check on the cursor, then `search`. -/
def pass (it : FindMatches re text) : Step re text α :=
  if it.lastEnd > text.length then .done else search it

/-- `next` of either iterator given its `search`, allowed `fuel` passes through its body. -/
def nextWith : Nat → FindMatches re text → Option (Option α × FindMatches re text)
  | 0, _ => none
  | fuel + 1, it =>
    match pass search it with
    | .done => some (none, it)
    | .found a it' => some (some a, it')
    | .retry it' => nextWith fuel it'

/-- `calls` successive calls of `next`, each allowed `fuel` passes: what each returned and the
state it left, or `none` when one of them ran out of fuel. -/
def callsWith (fuel : Nat) :
    Nat → FindMatches re text → Option (List (Option α × FindMatches re text))
  | 0, _ => some []
  | calls + 1, it =>
    match nextWith search fuel it with
    | none => none
    | some (r, it') => (callsWith fuel calls it').map ((r, it') :: ·)

/-- What a `for` loop over the iterator collects: `next` called until it returns `None`, at most
`calls` times, each call allowed `fuel` passes. -/
def collectWith (fuel : Nat) : Nat → FindMatches re text → Option (List α)
  | 0, _ => none
  | calls + 1, it =>
    match nextWith search fuel it with
    | none => none
    | some (none, _) => some []
    | some (some a, it') => (collectWith fuel calls it').map (a :: ·)

end Loop

def FindMatches.next (it : FindMatches re text) (fuel : Nat) :
    Option (Option (Nat × Nat) × FindMatches re text) :=
  nextWith FindMatches.search fuel it

def FindCaptures.next (c : FindCaptures re text) (fuel : Nat) :
    Option (Option (List Slot) × FindCaptures re text) :=
  (nextWith FindCaptures.search fuel c.findMatches).map fun (r, it) => (r, ⟨it⟩)

/-! ### One pass

What a pass can do, said once: every later proof reads a pass through these lemmas. -/

namespace FindMatches

variable {α : Type} {it it' : FindMatches re text} {found : Option (Nat × Nat)}
  {item : Nat × Nat → α}

theorem afterSearch_retry (h : it.afterSearch found item = .retry it') :
    (∃ s, found = some (s, s)) ∧ some it.lastEnd = it.lastMatch ∧ it.lastEnd < text.length ∧
      it' = { it with lastEnd := re.nextAfterEmpty text it.lastEnd } := by
  unfold afterSearch at h
  split at h
  · cases h
  · rename_i s e
    split_ifs at h with hskip hend
    cases h
    exact ⟨⟨s, by rw [hskip.1]⟩, hskip.2, by omega, rfl⟩

theorem afterSearch_found {a : α} (h : it.afterSearch found item = .found a it') :
    ∃ s e, found = some (s, e) ∧ ¬(e = s ∧ some it.lastEnd = it.lastMatch) ∧ a = item (s, e) ∧
      it' = { lastEnd := e, lastMatch := some e } := by
  unfold afterSearch at h
  split at h
  · cases h
  · rename_i s e
    split_ifs at h with hskip
    cases h
    exact ⟨s, e, rfl, hskip, rfl, rfl⟩

theorem afterSearch_done (h : it.afterSearch found item = .done) :
    found = none ∨
      ∃ s, found = some (s, s) ∧ some it.lastEnd = it.lastMatch ∧ text.length ≤ it.lastEnd := by
  unfold afterSearch at h
  split at h
  · exact .inl rfl
  · rename_i s e
    split_ifs at h with hskip hend
    exact .inr ⟨s, by rw [hskip.1], hskip.2, hend⟩

theorem afterSearch_map {β : Type} (f : α → β) :
    it.afterSearch found (f ∘ item) = (it.afterSearch found item).map f := by
  unfold afterSearch
  split
  · rfl
  · split_ifs <;> rfl

end FindMatches

section Pass

variable {α : Type} {search : FindMatches re text → Step re text α} {it it' : FindMatches re text}
  {a : α}

theorem pass_of_lt (h : text.length < it.lastEnd) : pass search it = .done := if_pos h

theorem pass_of_le (h : it.lastEnd ≤ text.length) : pass search it = search it :=
  if_neg (Nat.not_lt.mpr h)

theorem pass_retry (h : pass search it = .retry it') :
    it.lastEnd ≤ text.length ∧ search it = .retry it' := by
  unfold pass at h
  split_ifs at h with hgt
  exact ⟨by omega, h⟩

theorem pass_found (h : pass search it = .found a it') :
    it.lastEnd ≤ text.length ∧ search it = .found a it' := by
  unfold pass at h
  split_ifs at h with hgt
  exact ⟨by omega, h⟩

theorem pass_done (h : pass search it = .done) : text.length < it.lastEnd ∨ search it = .done := by
  unfold pass at h
  split_ifs at h with hgt
  · exact .inl hgt
  · exact .inr h

theorem pass_map {β : Type} (g : FindMatches re text → α → β) :
    pass (fun q => (search q).map (g q)) it = (pass search it).map (g it) := by
  unfold pass
  split_ifs <;> rfl

theorem nextWith_done {fuel : Nat} (h : pass search it = .done) :
    nextWith search (fuel + 1) it = some (none, it) := by
  simp [nextWith, h]

theorem nextWith_found {fuel : Nat} (h : pass search it = .found a it') :
    nextWith search (fuel + 1) it = some (some a, it') := by
  simp [nextWith, h]

theorem nextWith_retry {fuel : Nat} (h : pass search it = .retry it') :
    nextWith search (fuel + 1) it = nextWith search fuel it' := by
  simp [nextWith, h]

end Pass

end RegexCore
