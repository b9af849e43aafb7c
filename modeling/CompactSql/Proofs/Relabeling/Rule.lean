import CompactSql.Proofs.Relabeling.Twin
import CompactSql.Proofs.RoundTrip

/-!
# Rules run in step

Each way to build a rule keeps rules in step, whatever relates the values they read;
a whole run in step comes to related trees or to failures about the same tokens.
-/

namespace CompactSql.Twins

open Grammar Grammar.Rule
open Token (Kind)

variable {α β : Type} {σ : Relabeling} {twins : Twins σ}

def Becomes (f : α → α) (value value' : α) : Prop := value' = f value

namespace Parallel

variable {R : α → α → Prop} {S : β → β → Prop} {rule rule' : Rule α}

theorem pure {value value' : α} (h : R value value') :
    twins.Parallel R (Pure.pure value) (Pure.pure value') :=
  fun _ _ beside => .ok .nil h beside

theorem bind {next next' : α → Rule β} (h : twins.Parallel R rule rule')
    (hnext : ∀ value value', R value value' → twins.Parallel S (next value) (next' value')) :
    twins.Parallel S (rule >>= next) (rule' >>= next') := by
  intro cursor cursor' beside
  have first := h beside
  rcases run : rule cursor with ⟨trail, failure | ⟨value, after⟩⟩
  all_goals
    rw [run] at first
    generalize run' : rule' cursor' = outcome at first
    cases first
  case error events counterpart =>
    rw [bind_of_error run, bind_of_error run']
    exact .error events counterpart
  case ok events related after =>
    rw [bind_of_ok run, bind_of_ok run']
    exact (hnext _ _ related after).behind events

theorem followedBy {f : α → α} {next next' : α → Rule β}
    (h : twins.Parallel (Becomes f) rule rule')
    (hnext : ∀ value, twins.Parallel S (next value) (next' (f value))) :
    twins.Parallel S (rule >>= next) (rule' >>= next') :=
  h.bind fun value _ related => related ▸ hnext value

theorem map {f : α → α} {g : β → β} {wrap : α → β}
    (h : twins.Parallel (Becomes f) rule rule')
    (commutes : ∀ value, wrap (f value) = g (wrap value)) :
    twins.Parallel (Becomes g) (wrap <$> rule) (wrap <$> rule') :=
  h.followedBy fun value => .pure (commutes value)

theorem unexpected (expected : Expectation) :
    twins.Parallel R (Rule.unexpected expected) (Rule.unexpected expected) :=
  fun _ _ beside => .error .nil (beside.unexpected expected)

theorem read {f : α → α} {accept : Kind → Option α} (expected : Expectation)
    (h : ∀ kind, accept (σ.kind kind) = (accept kind).map f) :
    twins.Parallel (Becomes f) (Rule.read expected accept) (Rule.read expected accept) := by
  intro cursor cursor' beside
  simp only [Rule.read, beside.kind_eq, h]
  cases accept cursor.current.kind with
  | none => exact .error .nil (beside.unexpected expected)
  | some value => exact .ok .nil rfl beside.advance

theorem readIf {f : α → α} {accept : Kind → Option α}
    (h : ∀ kind, accept (σ.kind kind) = (accept kind).map f) :
    twins.Parallel (Becomes (Option.map f)) (Rule.readIf accept) (Rule.readIf accept) := by
  intro cursor cursor' beside
  simp only [Rule.readIf, beside.kind_eq, h]
  cases accept cursor.current.kind with
  | none => exact .ok .nil rfl beside
  | some value => exact .ok .nil rfl beside.advance

theorem symbol {kind : Kind} (h : kind.isLeaf = false) :
    twins.Parallel (Becomes id) (Rule.symbol kind) (Rule.symbol kind) :=
  read _ fun found => by rw [σ.ofKind_kind h, Option.map_id_fun, id]

theorem keyword (word : Keyword) :
    twins.Parallel (Becomes id) (Rule.keyword word) (Rule.keyword word) :=
  read _ fun found => by rw [ofKeyword, σ.ofKind_kind rfl, Option.map_id_fun, id]

def SameToken (twins : Twins σ) (span span' : Span) : Prop :=
  ∃ index, Covers twins.tokens index index span ∧ Covers twins.tokens' index index span'

theorem here : twins.Parallel (SameToken twins) Rule.here Rule.here :=
  fun _ _ beside => .ok .nil ⟨_, beside.covers⟩ beside

theorem ifKind {kind : Kind} (h : kind.isLeaf = false) {next next' : Option Unit → Rule β}
    (hnext : ∀ found, twins.Parallel S (next found) (next' found)) :
    twins.Parallel S (Rule.readIf (ofKind kind) >>= next)
      (Rule.readIf (ofKind kind) >>= next') := by
  have found : twins.Parallel (Becomes (Option.map id)) (Rule.readIf (ofKind kind))
      (Rule.readIf (ofKind kind)) :=
    readIf fun found => by rw [σ.ofKind_kind h, Option.map_id_fun, id]
  exact found.followedBy fun value => by simpa using hnext value

theorem repeated {f : α → α} {lead : Kind → Option β} {item : β → Rule α}
    (hlead : ∀ kind, lead (σ.kind kind) = lead kind)
    (hitem : ∀ led, twins.Parallel (Becomes f) (item led) (item led)) :
    twins.Parallel (Becomes (List.map f)) (Rule.repeated lead item)
      (Rule.repeated lead item) := by
  intro cursor cursor' beside
  -- on the first list; as many tokens are left in the second at every turn
  induction size : cursor.rest.length using Nat.strongRecOn generalizing cursor cursor' with
  | ind size ih =>
      subst size
      rw [repeated_turn, repeated_turn cursor', beside.kind_eq, hlead]
      cases lead cursor.current.kind with
      | none => exact .ok .nil rfl beside
      | some led =>
          have first := hitem led beside.advance
          simp only
          generalize item led cursor.advance = outcome at first ⊢
          generalize item led cursor'.advance = outcome' at first ⊢
          cases first with
          | error events counterpart => exact .error events counterpart
          | @ok trail trail' value _ after after' events related behind =>
              obtain rfl := related
              simp only [beside.length_rest, behind.length_rest]
              by_cases shorter : after.rest.length < cursor.rest.length
              · have others := ih _ shorter behind rfl
                simp only [if_pos shorter]
                generalize Rule.repeated lead item after = outcome at others ⊢
                generalize Rule.repeated lead item after' = outcome' at others ⊢
                cases others with
                | error more counterpart =>
                    exact .error (List.rel_append events more) counterpart
                | ok more related last =>
                    obtain rfl := related
                    exact .ok (List.rel_append events more) rfl last
              · simp only [if_neg shorter]
                exact .ok events rfl behind

theorem commaList {f : α → α} {item : Rule α} (h : twins.Parallel (Becomes f) item item) :
    twins.Parallel (Becomes (List.map f)) (Rule.commaList item) (Rule.commaList item) :=
  h.followedBy fun _ => (repeated (σ.ofKind_kind rfl) fun _ => h).followedBy fun _ => .pure rfl

theorem ledBy {f : α → α} (word : Keyword) {item : Rule α}
    (h : twins.Parallel (Becomes f) item item) :
    twins.Parallel (Becomes (Option.map f)) (Rule.ledBy word item) (Rule.ledBy word item) := by
  refine ifKind rfl fun found => ?_
  cases found with
  | none => exact .pure rfl
  | some _ => exact h.followedBy fun _ => .pure rfl

theorem further {best best' : Option Failure} {failure failure' : Failure}
    (h : Option.Rel twins.Counterpart best best') (h' : twins.Counterpart failure failure') :
    twins.Counterpart (Rule.further best failure) (Rule.further best' failure') := by
  cases h with
  | none => exact h'
  | some counterpart =>
      simp only [Rule.further, counterpart.start_lt_iff h']
      split
      · exact h'
      · exact counterpart

theorem firstOfFrom {expected : Expectation} {alternatives : List (String × Rule α)}
    (each : ∀ alternative ∈ alternatives, twins.Parallel R alternative.2 alternative.2)
    {cursor cursor' : Cursor} (beside : twins.Beside cursor cursor')
    {best best' : Option Failure} (h : Option.Rel twins.Counterpart best best') :
    twins.Paired R (Rule.firstOfFrom expected cursor best alternatives)
      (Rule.firstOfFrom expected cursor' best' alternatives) := by
  induction alternatives generalizing best best' with
  | nil =>
      cases h with
      | none => exact .error .nil (beside.unexpected expected)
      | some counterpart =>
          simp only [Rule.firstOfFrom, beside.start_lt_iff counterpart]
          split
          · exact .error .nil counterpart
          · exact .error .nil (beside.unexpected expected)
  | cons alternative others ih =>
      rw [List.forall_mem_cons] at each
      have first := each.1 beside
      simp only [Rule.firstOfFrom]
      generalize alternative.2 cursor = outcome at first ⊢
      generalize alternative.2 cursor' = outcome' at first ⊢
      cases first with
      | ok events related after => exact .ok events related after
      | error events counterpart =>
          refine (ih each.2 (.some (further h counterpart))).behind ?_
          exact List.rel_append events
            (.cons (.backtracked _ _ counterpart) (.cons (.rejected _) .nil))

theorem firstOf {expected : Expectation} {alternatives : List (String × Rule α)}
    (each : ∀ alternative ∈ alternatives, twins.Parallel R alternative.2 alternative.2) :
    twins.Parallel R (Rule.firstOf expected alternatives) (Rule.firstOf expected alternatives) :=
  fun _ _ beside => firstOfFrom each beside .none

theorem complete (h : twins.Parallel R rule rule') :
    twins.Parallel R (Rule.complete rule) (Rule.complete rule') := by
  refine h.bind fun value value' related cursor cursor' beside => ?_
  have ends : cursor'.current.isEof = cursor.current.isEof := by
    have final : Kind.isLeaf .eof = false := rfl
    simp only [Token.isEof, beside.kind_eq, σ.kind_eq_iff final]
  simp only [ended, ends]
  split
  · exact .ok .nil related beside
  · exact .error .nil beside.trailing

end Parallel

/-- Both readings come to a value, and these are related; or both fail about the same
tokens. -/
inductive PairedResult (twins : Twins σ) (R : α → α → Prop) :
    Except Failure α → Except Failure α → Prop
  | ok {value value' : α} : R value value' → PairedResult twins R (.ok value) (.ok value')
  | error {failure failure' : Failure} : twins.Counterpart failure failure' →
      PairedResult twins R (.error failure) (.error failure')

private theorem keepFurthest_paired {best best' : Option Failure} {event event' : Event}
    (h : Option.Rel twins.Counterpart best best') (h' : twins.PairedEvent event event') :
    Option.Rel twins.Counterpart (Event.keepFurthest best event)
      (Event.keepFurthest best' event') := by
  cases h' with
  | rejected name => exact h
  | backtracked index index' counterpart =>
      cases h with
      | none => exact .some counterpart
      | some earlier =>
          simp only [Event.keepFurthest, ← Nat.not_lt, counterpart.start_lt_iff earlier]
          split
          · exact .some counterpart
          · exact .some earlier

private theorem furthest_paired {trail trail' : List Event}
    (h : List.Forall₂ twins.PairedEvent trail trail') :
    Option.Rel twins.Counterpart (furthest trail) (furthest trail') := by
  refine List.rel_foldl (P := Option.Rel twins.Counterpart) (R := twins.PairedEvent)
    ?_ .none h
  intro best best' related event event' paired
  exact keepFurthest_paired related paired

/-- What is reported of runs in step is about the same tokens as well. -/
theorem reported_paired {trail trail' : List Event} {failure failure' : Failure}
    (events : List.Forall₂ twins.PairedEvent trail trail')
    (counterpart : twins.Counterpart failure failure') :
    twins.Counterpart (reported trail failure) (reported trail' failure') := by
  have most := furthest_paired events
  rw [reported, reported]
  generalize furthest trail = best at most ⊢
  generalize furthest trail' = best' at most ⊢
  cases most with
  | none => exact counterpart
  | some candidate =>
      simp only [Option.filter_some, counterpart.start_lt_iff candidate]
      split
      · exact candidate
      · exact counterpart

private theorem Parallel.run {R : α → α → Prop} {rule rule' : Rule α}
    (h : twins.Parallel R rule rule') :
    twins.PairedResult R (rule.run twins.tokens).result (rule'.run twins.tokens').result := by
  have outcome := h (Beside.start 0)
  generalize run : rule (.ofTokens twins.tokens) = first at outcome
  generalize run' : rule' ⟨0, twins.tokens'⟩ = second at outcome
  cases outcome with
  | ok _ related _ =>
      rw [run_of_ok run, run_of_ok run']
      exact .ok related
  | error events counterpart =>
      rw [run_eq_reported run, run_eq_reported run']
      exact .error (reported_paired events counterpart)

theorem Parallel.readText {R : α → α → Prop} {rule rule' : Rule α}
    (h : twins.Parallel R rule rule') {text text' : String}
    (cut : tokenize text = .ok twins.tokens) (cut' : tokenize text' = .ok twins.tokens') :
    twins.PairedResult R (CompactSql.readText rule text) (CompactSql.readText rule' text') := by
  rw [readText_of_tokenize cut, readText_of_tokenize cut']
  exact h.run

end CompactSql.Twins
