import RegexCore.Syntax.Print
import Mathlib.Data.List.Chain
/-!
# The builders

A parser builds a tree bottom-up with two kinds of builder. A class union grows by `push`, which is
the only thing that moves its span: the first item pushed sets where the union starts and every
item pushed sets where it ends. Pushing a sequence of items onto an empty union therefore leaves
exactly those items, spanning from the first to the last, and when the items are laid out left to
right the union's span covers each of them. Its printed text grows the same way: each item pushed is
printed after what the union printed before.

An alternation or a concatenation becomes an expression by `into_ast`, which collapses a sequence
of no children to the empty expression and of one child to that child. The printer writes a
sequence by its children alone, with `|` only between alternatives, so collapsing never changes
the printed text: the printer and the collapse agree on every tree.
-/

namespace RegexCore

namespace AstClassSetUnion

/-- The union after `push` of each of `items` in turn. -/
def pushAll (self : AstClassSetUnion) (items : List AstClassSetItem) : AstClassSetUnion :=
  items.foldl push self

@[simp] theorem items_mk (span : Span) (items : List AstClassSetItem) :
    (AstClassSetUnion.mk span items).items = items := rfl

@[simp] theorem span_mk (span : Span) (items : List AstClassSetItem) :
    (AstClassSetUnion.mk span items).span = span := rfl

theorem push_of_ne_nil {u : AstClassSetUnion} (h : u.items ≠ []) (item : AstClassSetItem) :
    u.push item = .mk { u.span with «end» := item.span.end } (u.items ++ [item]) := by
  simp [push, h]

/-- Pushing onto a union that has items keeps where it starts and moves where it ends. -/
theorem pushAll_of_ne_nil {u : AstClassSetUnion} (h : u.items ≠ []) (items : List AstClassSetItem) :
    (u.pushAll items).items = u.items ++ items ∧ (u.pushAll items).span.start = u.span.start ∧
      (u.pushAll items).span.end = (items.getLast?.map (·.span.end)).getD u.span.end := by
  induction items generalizing u with
  | nil => simp [pushAll]
  | cons item items ih =>
    have hstep := ih (show (u.push item).items ≠ [] by simp [push_of_ne_nil h])
    simp only [pushAll, List.foldl_cons] at hstep ⊢
    rw [hstep.1, hstep.2.1, hstep.2.2, push_of_ne_nil h]
    refine ⟨by simp, rfl, ?_⟩
    simp only [List.getLast?_cons, Option.map_some', Option.getD_some]
    exact Option.getD_map _ item _

end AstClassSetUnion

/-- Items laid out left to right, each with its start before its end, lie between the start of the
first and the end of the last. -/
theorem between_first_and_last :
    ∀ (items : List AstClassSetItem) (hne : items ≠ []),
      (∀ x ∈ items, x.span.start.offset ≤ x.span.end.offset) →
      items.Chain' (fun a b => a.span.end.offset ≤ b.span.start.offset) →
      ∀ x ∈ items, (items.head hne).span.start.offset ≤ x.span.start.offset ∧
        x.span.end.offset ≤ (items.getLast hne).span.end.offset
  | [a], _, _, _, x, hx => by
    obtain rfl := List.mem_singleton.mp hx
    exact ⟨le_rfl, le_rfl⟩
  | a :: b :: rest, _, hle, hchain, x, hx => by
    have hab := (List.chain'_cons.mp hchain).1
    have hrest := between_first_and_last (b :: rest) (List.cons_ne_nil b rest)
      (fun y hy => hle y (List.mem_cons_of_mem a hy)) (List.chain'_cons.mp hchain).2
    have ha := hle a (List.mem_cons_self a _)
    have hb := hle b (List.mem_cons_of_mem a (List.mem_cons_self b rest))
    have hlast := (hrest b (List.mem_cons_self b rest)).2
    simp only [List.head_cons, List.getLast_cons_cons] at hlast ⊢
    rcases List.mem_cons.mp hx with rfl | hx
    · exact ⟨le_rfl, by omega⟩
    · have := hrest x hx
      simp only [List.head_cons] at this
      exact ⟨by omega, this.2⟩

theorem pushAll_spans (span : Span) (first : AstClassSetItem) (rest : List AstClassSetItem) :
    let u := (AstClassSetUnion.mk span []).pushAll (first :: rest)
    u.items = first :: rest ∧ u.span.start = first.span.start ∧
      u.span.end = ((first :: rest).getLast (List.cons_ne_nil first rest)).span.end ∧
      ((∀ x ∈ first :: rest, x.span.start.offset ≤ x.span.end.offset) →
        (first :: rest).Chain' (fun a b => a.span.end.offset ≤ b.span.start.offset) →
        ∀ x ∈ first :: rest,
          u.span.start.offset ≤ x.span.start.offset ∧ x.span.end.offset ≤ u.span.end.offset) := by
  intro u
  have hu : u = (AstClassSetUnion.mk ⟨first.span.start, first.span.end⟩ [first]).pushAll rest := by
    simp [u, AstClassSetUnion.pushAll, AstClassSetUnion.push]
  obtain ⟨hitems, hstart, hend⟩ := AstClassSetUnion.pushAll_of_ne_nil
    (show (AstClassSetUnion.mk ⟨first.span.start, first.span.end⟩ [first]).items ≠ [] by simp) rest
  rw [← hu] at hitems hstart hend
  have hlast : u.span.end = ((first :: rest).getLast (List.cons_ne_nil first rest)).span.end := by
    rw [hend, List.getLast_eq_getLastD, List.getLastD_eq_getLast?]
    exact Option.getD_map _ first _
  refine ⟨hitems, hstart, hlast, fun hle hchain x hx => ?_⟩
  rw [hstart, hlast]
  exact between_first_and_last (first :: rest) (List.cons_ne_nil first rest) hle hchain x hx

theorem AstClassSetItem.fmtAll_append (xs ys : List AstClassSetItem) :
    AstClassSetItem.fmtAll (xs ++ ys) = AstClassSetItem.fmtAll xs ++ AstClassSetItem.fmtAll ys := by
  induction xs with
  | nil => simp [AstClassSetItem.fmtAll]
  | cons x xs ih => simp [AstClassSetItem.fmtAll, ih, String.append_assoc]

/-- Pushing items onto a union prints them, in order, after what the union printed before. -/
theorem AstClassSetUnion.pushAll_fmt (u : AstClassSetUnion) (items : List AstClassSetItem) :
    (u.pushAll items).fmt = u.fmt ++ AstClassSetItem.fmtAll items := by
  induction items generalizing u with
  | nil => simp [AstClassSetUnion.pushAll, AstClassSetItem.fmtAll]
  | cons item items ih =>
    have hpush : (u.push item).fmt = u.fmt ++ item.fmt := by
      rcases u with ⟨span, old⟩
      simp [AstClassSetUnion.push, AstClassSetUnion.fmt, AstClassSetItem.fmtAll_append,
        AstClassSetItem.fmtAll]
    rw [AstClassSetUnion.pushAll, List.foldl_cons, ← AstClassSetUnion.pushAll, ih, hpush,
      AstClassSetItem.fmtAll, String.append_assoc]

/-! ### Collapsing sequences -/

theorem intoAst_fmt (a : AstAlternation) (c : AstConcat) :
    a.intoAst.fmt = (Ast.alternation a).fmt ∧ c.intoAst.fmt = (Ast.concat c).fmt := by
  constructor
  · rcases a with ⟨span, _ | ⟨x, _ | ⟨y, rest⟩⟩⟩ <;>
      simp [AstAlternation.intoAst, AstAlternation.asts, AstAlternation.span, Ast.fmt,
        AstAlternation.fmt, Ast.fmtAlternatives]
  · rcases c with ⟨span, _ | ⟨x, _ | ⟨y, rest⟩⟩⟩ <;>
      simp [AstConcat.intoAst, AstConcat.asts, AstConcat.span, Ast.fmt, AstConcat.fmt, Ast.fmtAll]

end RegexCore
