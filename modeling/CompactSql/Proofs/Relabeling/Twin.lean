import Mathlib.Data.List.Forall2
import CompactSql.Proofs.Relabeling.Tree
import CompactSql.Proofs.Token.Cutting

/-!
# Two runs side by side

Two token lists are twins when the kinds of the second are those of the first with
other leaves; where their tokens stand does not matter.  A rule runs over both in step:
it stops beside the place where it stops in the other list, and what it reads or
complains about there is the other one's, relabeled.  Offsets are compared all along
the way, but only offsets of one list, and those are in the order of its tokens.
-/

namespace CompactSql

open Grammar
open Token (Kind)

/-- The span begins with one token of the list and ends with another. -/
structure Covers (tokens : List Token) (first last : Nat) (span : Span) : Prop where
  ordered : first ≤ last
  start : ∃ token, tokens[first]? = some token ∧ span.start = token.span.start
  stop : ∃ token, tokens[last]? = some token ∧ span.stop = token.span.stop

/-- Two failures are about the same tokens of their lists: about one token, unless a
table without a field is refused, whose list begins and ends with the same tokens. -/
def Aligned (tokens tokens' : List Token) (failure failure' : Failure) : Prop :=
  ∃ first last, Covers tokens first last failure.span ∧
    Covers tokens' first last failure'.span ∧
    (failure.complaint ≠ .noFields → first = last)

section Placed

variable {tokens : List Token} {i j : Nat} {first second : Token}

theorem Placed.lt_of_lt (placed : Placed 0 tokens) (hi : tokens[i]? = some first)
    (hj : tokens[j]? = some second) (less : i < j) :
    first.span.start < second.span.start ∧ first.span.stop ≤ second.span.stop := by
  obtain ⟨inside, rfl⟩ := List.getElem?_eq_some_iff.mp hi
  obtain ⟨inside', rfl⟩ := List.getElem?_eq_some_iff.mp hj
  have apart := List.pairwise_iff_getElem.mp placed.pairwise i j inside inside' less
  have covers := (placed.le_start _ (List.getElem_mem inside')).2
  exact ⟨apart.1, Nat.le_trans apart.2 covers⟩

theorem Placed.le_of_le (placed : Placed 0 tokens) (hi : tokens[i]? = some first)
    (hj : tokens[j]? = some second) (le : i ≤ j) :
    first.span.start ≤ second.span.start ∧ first.span.stop ≤ second.span.stop := by
  rcases Nat.lt_or_eq_of_le le with less | rfl
  · obtain ⟨starts, stops⟩ := placed.lt_of_lt hi hj less
    exact ⟨Nat.le_of_lt starts, stops⟩
  · obtain rfl := Option.some.inj (hi.symm.trans hj)
    exact ⟨Nat.le_refl _, Nat.le_refl _⟩

private theorem Placed.start_lt_iff (placed : Placed 0 tokens) (hi : tokens[i]? = some first)
    (hj : tokens[j]? = some second) : first.span.start < second.span.start ↔ i < j := by
  constructor
  · intro less
    by_contra behind
    have := (placed.le_of_le hj hi (Nat.le_of_not_lt behind)).1
    omega
  · exact fun less => (placed.lt_of_lt hi hj less).1

end Placed

namespace Covers

variable {tokens : List Token} {first last i j : Nat} {span other : Span} {token : Token}

private theorem of_token (h : tokens[i]? = some token) : Covers tokens i i token.span :=
  ⟨Nat.le_refl i, ⟨token, h, rfl⟩, ⟨token, h, rfl⟩⟩

theorem start_lt_iff (placed : Placed 0 tokens) (h : Covers tokens first last span)
    (h' : Covers tokens i j other) : span.start < other.start ↔ first < i := by
  obtain ⟨token, at_first, start⟩ := h.start
  obtain ⟨token', at_i, start'⟩ := h'.start
  rw [start, start']
  exact placed.start_lt_iff at_first at_i

theorem merge (placed : Placed 0 tokens) (h : Covers tokens i i span)
    (h' : Covers tokens j j other) : Covers tokens (min i j) (max i j) (span.merge other) := by
  obtain ⟨token, at_i, start⟩ := h.start
  obtain ⟨token', at_j, start'⟩ := h'.start
  obtain ⟨stopped, at_i', stop⟩ := h.stop
  obtain ⟨stopped', at_j', stop'⟩ := h'.stop
  obtain rfl := Option.some.inj (at_i.symm.trans at_i')
  obtain rfl := Option.some.inj (at_j.symm.trans at_j')
  rcases Nat.le_total i j with le | le
  · have := placed.le_of_le at_i at_j le
    rw [Nat.min_eq_left le, Nat.max_eq_right le]
    exact ⟨le, ⟨token, at_i, by simp only [Span.merge]; omega⟩,
      ⟨token', at_j, by simp only [Span.merge]; omega⟩⟩
  · have := placed.le_of_le at_j at_i le
    rw [Nat.min_eq_right le, Nat.max_eq_left le]
    exact ⟨le, ⟨token', at_j, by simp only [Span.merge]; omega⟩,
      ⟨token, at_i, by simp only [Span.merge]; omega⟩⟩

end Covers

/-- Two token lists, the second with other leaves than the first. -/
structure Twins (σ : Relabeling) where
  tokens : List Token
  tokens' : List Token
  placed : Placed 0 tokens
  placed' : Placed 0 tokens'
  kinds_eq : kinds tokens' = (kinds tokens).map σ.kind

namespace Twins

variable {σ : Relabeling} (twins : Twins σ)

structure Beside (cursor cursor' : Cursor) : Prop where
  rest : cursor.rest = twins.tokens.drop cursor.index
  rest' : cursor'.rest = twins.tokens'.drop cursor.index
  inside : cursor.index < twins.tokens.length

/-- The failures make the same complaint, which is none of the lexer's, about the same
tokens; what is found is one of the first list. -/
structure Counterpart (failure failure' : Failure) : Prop where
  syntactic : failure.isLexical = false
  complaint : failure'.complaint = σ.complaint failure.complaint
  found : ∀ kind ∈ failure.complaint.found?, kind ∈ kinds twins.tokens
  aligned : Aligned twins.tokens twins.tokens' failure failure'

inductive PairedEvent : Event → Event → Prop
  | backtracked (index index' : Nat) {failure failure' : Failure} :
      twins.Counterpart failure failure' →
      PairedEvent (.backtracked index failure) (.backtracked index' failure')
  | rejected (name : String) : PairedEvent (.rejected name) (.rejected name)

variable {α β : Type}

inductive Paired (R : α → α → Prop) : Outcome α → Outcome α → Prop
  | ok {trail trail' : List Event} {value value' : α} {after after' : Cursor} :
      List.Forall₂ twins.PairedEvent trail trail' → R value value' →
      twins.Beside after after' →
      Paired R ⟨trail, .ok (value, after)⟩ ⟨trail', .ok (value', after')⟩
  | error {trail trail' : List Event} {failure failure' : Failure} :
      List.Forall₂ twins.PairedEvent trail trail' → twins.Counterpart failure failure' →
      Paired R ⟨trail, .error failure⟩ ⟨trail', .error failure'⟩

/-- From places beside each other the rules run in step. -/
def Parallel (R : α → α → Prop) (rule rule' : Rule α) : Prop :=
  ∀ ⦃cursor cursor'⦄, twins.Beside cursor cursor' →
    twins.Paired R (rule cursor) (rule' cursor')

variable {twins}

theorem length_eq : twins.tokens'.length = twins.tokens.length := by
  have same := congrArg List.length twins.kinds_eq
  simpa using same

namespace Beside

variable {cursor cursor' : Cursor}

theorem start (index : Nat) : twins.Beside (.ofTokens twins.tokens) ⟨index, twins.tokens'⟩ := by
  refine ⟨rfl, rfl, ?_⟩
  cases tokens : twins.tokens with
  | nil =>
      have placed := twins.placed
      rw [tokens] at placed
      cases placed
  | cons token rest => exact Nat.zero_lt_succ _

theorem length_rest (h : twins.Beside cursor cursor') :
    cursor'.rest.length = cursor.rest.length := by
  rw [h.rest, h.rest', List.length_drop, List.length_drop, length_eq]

theorem current (h : twins.Beside cursor cursor') :
    ∃ token token', twins.tokens[cursor.index]? = some token ∧
      twins.tokens'[cursor.index]? = some token' ∧
      token'.kind = σ.kind token.kind ∧
      cursor.rest = token :: twins.tokens.drop (cursor.index + 1) ∧
      cursor'.rest = token' :: twins.tokens'.drop (cursor.index + 1) := by
  have inside := h.inside
  have inside' : cursor.index < twins.tokens'.length := length_eq ▸ inside
  refine ⟨_, _, List.getElem?_eq_getElem inside, List.getElem?_eq_getElem inside', ?_,
    h.rest.trans (List.drop_eq_getElem_cons inside),
    h.rest'.trans (List.drop_eq_getElem_cons inside')⟩
  have same := congrArg (·[cursor.index]?) twins.kinds_eq
  simpa [kinds, inside, inside'] using same

theorem kind_eq (h : twins.Beside cursor cursor') :
    cursor'.current.kind = σ.kind cursor.current.kind := by
  obtain ⟨token, token', -, -, same, rest, rest'⟩ := h.current
  simpa [Cursor.current, rest, rest'] using same

theorem covers (h : twins.Beside cursor cursor') :
    Covers twins.tokens cursor.index cursor.index cursor.current.span ∧
      Covers twins.tokens' cursor.index cursor.index cursor'.current.span := by
  obtain ⟨token, token', at_index, at_index', -, rest, rest'⟩ := h.current
  have here : cursor.current = token := by simp [Cursor.current, rest]
  have here' : cursor'.current = token' := by simp [Cursor.current, rest']
  rw [here, here']
  exact ⟨.of_token at_index, .of_token at_index'⟩

theorem current_mem (h : twins.Beside cursor cursor') :
    cursor.current.kind ∈ kinds twins.tokens := by
  obtain ⟨token, token', at_index, -, -, rest, -⟩ := h.current
  have here : cursor.current = token := by simp [Cursor.current, rest]
  rw [here]
  exact List.mem_map_of_mem (List.mem_of_getElem? at_index)

theorem advance (h : twins.Beside cursor cursor') :
    twins.Beside cursor.advance cursor'.advance := by
  obtain ⟨token, token', at_index, -, same, rest, rest'⟩ := h.current
  by_cases final : token.kind = .eof
  · have final' : token'.kind = .eof := by rw [same, σ.kind_eq_iff rfl, final]
    simpa [Cursor.advance, rest, rest', Token.isEof, final, final'] using h
  · have inner : token'.kind ≠ .eof := by rwa [same, ne_eq, σ.kind_eq_iff rfl]
    have inside := twins.placed.terminated.succ_lt at_index final
    simp only [Cursor.advance, rest, rest', Token.isEof, final, inner, decide_false,
      Bool.false_eq_true, if_false]
    exact ⟨rfl, rfl, inside⟩

end Beside

theorem Counterpart.start_lt_iff {failure failure' other other' : Failure}
    (h : twins.Counterpart failure failure') (h' : twins.Counterpart other other') :
    failure'.span.start < other'.span.start ↔ failure.span.start < other.span.start := by
  obtain ⟨i, j, covers, covers', -⟩ := h.aligned
  obtain ⟨k, l, others, others', -⟩ := h'.aligned
  rw [covers.start_lt_iff twins.placed others, covers'.start_lt_iff twins.placed' others']

theorem Beside.start_lt_iff {cursor cursor' : Cursor} {failure failure' : Failure}
    (h : twins.Beside cursor cursor') (h' : twins.Counterpart failure failure') :
    cursor'.current.span.start < failure'.span.start ↔
      cursor.current.span.start < failure.span.start := by
  obtain ⟨k, l, others, others', -⟩ := h'.aligned
  rw [h.covers.1.start_lt_iff twins.placed others,
    h.covers.2.start_lt_iff twins.placed' others']

theorem Beside.unexpected {cursor cursor' : Cursor} (h : twins.Beside cursor cursor')
    (expected : Expectation) :
    twins.Counterpart (.unexpected expected cursor.current)
      (.unexpected expected cursor'.current) := by
  refine ⟨rfl, ?_, ?_, _, _, h.covers.1, h.covers.2, fun _ => rfl⟩
  · simp only [Failure.unexpected, Relabeling.complaint, h.kind_eq]
  · rintro _ ⟨⟩
    exact h.current_mem

theorem Beside.trailing {cursor cursor' : Cursor} (h : twins.Beside cursor cursor') :
    twins.Counterpart (.trailing cursor.current) (.trailing cursor'.current) := by
  refine ⟨rfl, ?_, ?_, _, _, h.covers.1, h.covers.2, fun _ => rfl⟩
  · simp only [Failure.trailing, Relabeling.complaint, h.kind_eq]
  · rintro _ ⟨⟩
    exact h.current_mem

namespace Paired

variable {R : α → α → Prop} {outcome outcome' : Outcome α} {trail trail' : List Event}

theorem behind (events : List.Forall₂ twins.PairedEvent trail trail')
    (h : twins.Paired R outcome outcome') :
    twins.Paired R (outcome.behind trail) (outcome'.behind trail') := by
  cases h with
  | ok inner related beside => exact .ok (List.rel_append events inner) related beside
  | error inner counterpart => exact .error (List.rel_append events inner) counterpart

end Paired

end Twins

end CompactSql
