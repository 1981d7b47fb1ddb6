import RegexCore.Syntax.Print
import Mathlib.Data.List.Nodup
import Mathlib.Data.String.Basic
/-!
# The flags of a group

Two facts about `AstFlags`. `flag_state` reads a flag's polarity off any item list: absent when no
item names the flag, and otherwise negative exactly when some negation comes before the first item
that names it. A negation never switches back, so how many negations there are does not matter,
only whether one comes first.

`add_item` is how a parser detects a duplicate flag or a repeated negation: it reports the index of
an item of the same kind and changes nothing, or appends. Built up from no items by `add_item`
alone, a list of flag items therefore never holds two items of one kind.
-/

namespace RegexCore

namespace AstFlags

/-! ### `flag_state` -/

theorem flagStateFrom_eq_none (flag : AstFlag) (negated : Bool) (items : List AstFlagsItem) :
    flagStateFrom flag negated items = none ↔ ∀ x ∈ items, x.kind ≠ .flag flag := by
  induction items generalizing negated with
  | nil => simp [flagStateFrom]
  | cons x xs ih =>
    rcases hx : x.kind with _ | xflag
    · simp [flagStateFrom, hx, ih]
    · by_cases h : xflag = flag
      · simp [flagStateFrom, hx, h]
      · simp [flagStateFrom, hx, h, ih]

/-- Scanning from the first item that names the flag backwards: the answer is positive exactly when
no negation was set on entry and none comes before that item. -/
theorem flagStateFrom_eq_some (flag : AstFlag) (negated : Bool) (items : List AstFlagsItem)
    (k : Nat) (x : AstFlagsItem) (hk : items[k]? = some x) (hx : x.kind = .flag flag)
    (hbefore : ∀ y ∈ items.take k, y.kind ≠ .flag flag) :
    flagStateFrom flag negated items =
      some (!negated && decide (∀ y ∈ items.take k, y.kind ≠ .negation)) := by
  induction items generalizing negated k with
  | nil => simp at hk
  | cons y ys ih =>
    cases k with
    | zero =>
      obtain rfl : y = x := by simpa using hk
      simp [flagStateFrom, hx]
    | succ k =>
      simp only [List.getElem?_cons_succ, List.take_succ_cons, List.mem_cons,
        forall_eq_or_imp] at hk hbefore ⊢
      rcases hy : y.kind with _ | yflag
      · simp [flagStateFrom, hy, ih true k hk hbefore.2]
      · have hne : yflag ≠ flag := fun h => hbefore.1 (by rw [hy, h])
        simp [flagStateFrom, hy, hne, ih negated k hk hbefore.2]

theorem flagState_spec (flags : AstFlags) (flag : AstFlag) :
    (flags.flagState flag = none ↔ ∀ x ∈ flags.items, x.kind ≠ .flag flag) ∧
      ∀ k x, flags.items[k]? = some x → x.kind = .flag flag →
        (∀ y ∈ flags.items.take k, y.kind ≠ .flag flag) →
        flags.flagState flag = some (decide (∀ y ∈ flags.items.take k, y.kind ≠ .negation)) :=
  ⟨flagStateFrom_eq_none flag false flags.items, fun k x hk hx hbefore => by
    simpa using flagStateFrom_eq_some flag false flags.items k x hk hx hbefore⟩

/-! ### `add_item` -/

/-- The flags after `add_item` of each of `items` in turn, whatever each call returned. -/
def addItems (self : AstFlags) (items : List AstFlagsItem) : AstFlags :=
  items.foldl (fun flags item => (flags.addItem item).2) self

theorem addItem_of_exists {flags : AstFlags} {item : AstFlagsItem}
    (h : ∃ x ∈ flags.items, x.kind = item.kind) :
    ∃ i, flags.addItem item = (some i, flags) ∧ ∃ x, flags.items[i]? = some x ∧ x.kind = item.kind := by
  have hsome : (flags.items.findIdx? (fun x => x.kind == item.kind)).isSome := by
    rw [List.findIdx?_isSome, List.any_eq_true]
    simpa using h
  obtain ⟨i, hi⟩ := Option.isSome_iff_exists.mp hsome
  refine ⟨i, by simp [addItem, hi], ?_⟩
  have := List.findIdx?_of_eq_some hi
  split at this
  · exact ⟨_, ‹_›, by simpa using this⟩
  · cases this

theorem addItem_of_forall {flags : AstFlags} {item : AstFlagsItem}
    (h : ∀ x ∈ flags.items, x.kind ≠ item.kind) :
    flags.addItem item = (none, { flags with items := flags.items ++ [item] }) := by
  have hnone : flags.items.findIdx? (fun x => x.kind == item.kind) = none :=
    List.findIdx?_eq_none_iff.mpr fun x hx => by simpa using h x hx
  simp [addItem, hnone]

theorem addItem_nodup {flags : AstFlags} (item : AstFlagsItem)
    (h : (flags.items.map (·.kind)).Nodup) : ((flags.addItem item).2.items.map (·.kind)).Nodup := by
  by_cases hex : ∃ x ∈ flags.items, x.kind = item.kind
  · obtain ⟨i, heq, -⟩ := addItem_of_exists hex
    rwa [heq]
  · rw [addItem_of_forall (by simpa using hex)]
    simpa [List.nodup_append, h] using fun x hx hk => hex ⟨x, hx, hk⟩

theorem addItems_nodup {flags : AstFlags} (items : List AstFlagsItem)
    (h : (flags.items.map (·.kind)).Nodup) : ((flags.addItems items).items.map (·.kind)).Nodup := by
  induction items generalizing flags with
  | nil => exact h
  | cons item items ih => exact ih (addItem_nodup item h)

theorem addItem_keeps_kinds_distinct (span : Span) (added : List AstFlagsItem)
    (item : AstFlagsItem) :
    let flags := (AstFlags.mk span []).addItems added
    (flags.items.map (·.kind)).Nodup ∧
      ((∃ i, (flags.addItem item).1 = some i) ↔ ∃ x ∈ flags.items, x.kind = item.kind) ∧
      (∀ i, (flags.addItem item).1 = some i →
        (∃ x, flags.items[i]? = some x ∧ x.kind = item.kind) ∧ (flags.addItem item).2 = flags) ∧
      ((flags.addItem item).1 = none → (flags.addItem item).2.items = flags.items ++ [item]) := by
  intro flags
  refine ⟨addItems_nodup added List.nodup_nil, ?_⟩
  by_cases hex : ∃ x ∈ flags.items, x.kind = item.kind
  · obtain ⟨i, heq, hi⟩ := addItem_of_exists hex
    rw [heq]
    exact ⟨⟨fun _ => hex, fun _ => ⟨i, rfl⟩⟩, fun j hj => (by cases hj; exact ⟨hi, rfl⟩),
      fun h => (by cases h)⟩
  · rw [addItem_of_forall (by simpa using hex)]
    exact ⟨⟨fun ⟨_, h⟩ => (by cases h), fun h => absurd h hex⟩, fun _ h => (by cases h), fun _ => rfl⟩

/-! ### Flags built by `add_item`

`add_item` keeps the first item of each kind and drops the rest. No flag's state notices: a
repeated flag comes after the first item naming it, where the scan has already stopped, and a
repeated negation comes after a negation, when the scan already counts the flag as negated. So
`flag_state` of flags built by `add_item` is `flag_state` of every item written, repeats included.
The printer writes each kind of item as its own character, so the text of flags built by
`add_item` never repeats a character: it never spells a duplicate flag or a second negation. -/

/-- An item the scan passes without effect: not the flag asked for, and a negation only where the
scan already counts the flag as negated. -/
theorem flagStateFrom_insert_inert {flag : AstFlag} {x : AstFlagsItem} (hflag : x.kind ≠ .flag flag)
    (xs : List AstFlagsItem) :
    ∀ (negated : Bool) (ys : List AstFlagsItem), (x.kind = .negation → negated = true) →
      flagStateFrom flag negated (ys ++ x :: xs) = flagStateFrom flag negated (ys ++ xs)
  | negated, [], hneg => by
    rcases hx : x.kind with _ | xflag
    · simp [flagStateFrom, hx, hneg hx]
    · simp [flagStateFrom, hx, show xflag ≠ flag from fun h => hflag (by rw [hx, h])]
  | negated, y :: ys, hneg => by
    rcases hy : y.kind with _ | yflag
    · simp [flagStateFrom, hy, flagStateFrom_insert_inert hflag xs true ys fun _ => rfl]
    · by_cases h : yflag = flag
      · simp [flagStateFrom, hy, h]
      · simp [flagStateFrom, hy, h, flagStateFrom_insert_inert hflag xs negated ys hneg]

/-- Dropping an item of a kind some earlier item has changes no flag's state. -/
theorem flagStateFrom_drop_repeat {flag : AstFlag} (x : AstFlagsItem) (xs : List AstFlagsItem) :
    ∀ (negated : Bool) (ys : List AstFlagsItem), (∃ y ∈ ys, y.kind = x.kind) →
      flagStateFrom flag negated (ys ++ x :: xs) = flagStateFrom flag negated (ys ++ xs)
  | _, [], hrep => by simp at hrep
  | negated, y :: ys, hrep => by
    simp only [List.mem_cons, exists_eq_or_imp] at hrep
    rcases hy : y.kind with _ | yflag
    · simp only [List.cons_append, flagStateFrom, hy]
      rcases hrep with hxy | hrep
      · -- a second negation, after the first
        have hx : x.kind = .negation := hxy.symm.trans hy
        exact flagStateFrom_insert_inert (by rw [hx]; simp) xs true ys fun _ => rfl
      · exact flagStateFrom_drop_repeat x xs true ys hrep
    · simp only [List.cons_append, flagStateFrom, hy]
      by_cases h : yflag = flag
      · simp [h]
      · simp only [h, if_false]
        rcases hrep with hxy | hrep
        · -- a second item of another flag
          have hx : x.kind = .flag yflag := hxy.symm.trans hy
          exact flagStateFrom_insert_inert (by rw [hx]; simpa using h) xs negated ys
            (by rw [hx]; simp)
        · exact flagStateFrom_drop_repeat x xs negated ys hrep

theorem addItems_flagState (flags : AstFlags) (added : List AstFlagsItem) (flag : AstFlag) :
    (flags.addItems added).flagState flag =
      ({ flags with items := flags.items ++ added } : AstFlags).flagState flag := by
  induction added generalizing flags with
  | nil => simp [addItems]
  | cons x xs ih =>
    rw [addItems, List.foldl_cons, ← addItems, ih]
    by_cases hex : ∃ y ∈ flags.items, y.kind = x.kind
    · obtain ⟨i, heq, -⟩ := addItem_of_exists hex
      rw [heq]
      exact (flagStateFrom_drop_repeat x xs false flags.items hex).symm
    · rw [addItem_of_forall (by simpa using hex)]
      simp [flagState]

theorem addItems_fmt_nodup (span : Span) (added : List AstFlagsItem) :
    ((AstFlags.mk span []).addItems added).fmt.data.Nodup := by
  have hkinds : ((AstFlags.mk span []).addItems added).items.map (·.kind) |>.Nodup :=
    addItems_nodup added List.nodup_nil
  rw [AstFlags.fmt, String.data_join, List.map_map, List.nodup_flatten, List.pairwise_map]
  refine ⟨fun l hl => ?_, (List.pairwise_map.mp hkinds).imp fun {x y} hxy => ?_⟩
  · obtain ⟨x, -, rfl⟩ := List.mem_map.mp hl
    obtain ⟨c, hc⟩ := x.kind.fmt_data
    simp [AstFlagsItem.fmt, hc]
  · obtain ⟨c, hc⟩ := x.kind.fmt_data
    obtain ⟨c', hc'⟩ := y.kind.fmt_data
    have hne : c ≠ c' := fun h => hxy (AstFlagsItemKind.fmt_injective (String.ext (by rw [hc, hc', h])))
    simpa [AstFlagsItem.fmt, hc, hc'] using hne.symm

/-! ### What the printed flags keep

Each kind of item is printed as a character of its own, so the text of flags spells the kinds of
their items in order, and the kinds are all `flag_state` reads. Flags that print alike agree on
every flag. -/

theorem kinds_eq_of_flatten_fmt_eq :
    ∀ {ks ks' : List AstFlagsItemKind},
      (ks.map fun k => k.fmt.data).flatten = (ks'.map fun k => k.fmt.data).flatten → ks = ks'
  | [], [], _ => rfl
  | [], k' :: _, h => by obtain ⟨c, hc⟩ := k'.fmt_data; simp [hc] at h
  | k :: _, [], h => by obtain ⟨c, hc⟩ := k.fmt_data; simp [hc] at h
  | k :: ks, k' :: ks', h => by
    obtain ⟨c, hc⟩ := k.fmt_data
    obtain ⟨c', hc'⟩ := k'.fmt_data
    simp only [List.map_cons, List.flatten_cons, hc, hc', List.singleton_append,
      List.cons.injEq] at h
    have hk : k = k' := AstFlagsItemKind.fmt_injective (String.ext (by rw [hc, hc', h.1]))
    rw [hk, kinds_eq_of_flatten_fmt_eq h.2]

theorem flagStateFrom_congr_kinds (flag : AstFlag) :
    ∀ (negated : Bool) {xs ys : List AstFlagsItem}, xs.map (·.kind) = ys.map (·.kind) →
      flagStateFrom flag negated xs = flagStateFrom flag negated ys
  | _, [], [], _ => rfl
  | _, [], _ :: _, h => by cases h
  | _, _ :: _, [], h => by cases h
  | negated, x :: xs, y :: ys, h => by
    simp only [List.map_cons, List.cons.injEq] at h
    simp only [flagStateFrom, h.1, flagStateFrom_congr_kinds flag true h.2,
      flagStateFrom_congr_kinds flag negated h.2]

/-- Flags that print the same text give every flag the same state. -/
theorem flagState_eq_of_fmt_eq {flags flags' : AstFlags} (h : flags.fmt = flags'.fmt)
    (flag : AstFlag) : flags.flagState flag = flags'.flagState flag := by
  have hdata := congrArg String.data h
  simp only [AstFlags.fmt, String.data_join, List.map_map] at hdata
  refine flagStateFrom_congr_kinds flag false (kinds_eq_of_flatten_fmt_eq ?_)
  simpa only [List.map_map] using hdata

theorem flagState_eq_of_fmt_eq_moved :
    (AstFlags.mk (.splat ⟨2, 1, 3⟩)
        [⟨.splat ⟨2, 1, 3⟩, .negation⟩, ⟨.splat ⟨3, 1, 4⟩, .flag .caseInsensitive⟩]).fmt =
      (AstFlags.mk (.splat ⟨8, 1, 9⟩)
        [⟨.splat ⟨8, 1, 9⟩, .negation⟩, ⟨.splat ⟨9, 1, 10⟩, .flag .caseInsensitive⟩]).fmt ∧
    (AstFlags.mk (.splat ⟨2, 1, 3⟩)
        [⟨.splat ⟨2, 1, 3⟩, .negation⟩, ⟨.splat ⟨3, 1, 4⟩, .flag .caseInsensitive⟩]).flagState
        .caseInsensitive =
      (AstFlags.mk (.splat ⟨8, 1, 9⟩)
        [⟨.splat ⟨8, 1, 9⟩, .negation⟩, ⟨.splat ⟨9, 1, 10⟩, .flag .caseInsensitive⟩]).flagState
        .caseInsensitive :=
  ⟨rfl, flagState_eq_of_fmt_eq rfl .caseInsensitive⟩

end AstFlags

end RegexCore
