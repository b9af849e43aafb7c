import CompactSql.Proofs.Grammar.Repetition

/-!
# Sequences of tokens and clauses

A keyword, a symbol or a name in front of a rule, and one clause behind another.
A clause that is extended by some kinds stops before any clause that starts with
other kinds.
-/

namespace CompactSql.Grammar

open Rule Grammar.Derivation

variable {α β : Type} {bound bound' : Nat} {extending extending' : List Token.Kind}

def Starts (language : Language α) (first : List Token.Kind) : Prop :=
  ∀ kind row value, language (kind :: row) value → kind ∈ first

namespace Starts

theorem nothing (value : α) : Starts (Language.nothing value) [] := by
  rintro kind row found ⟨empty, -⟩
  cases empty

theorem behind (kind : Token.Kind) (second : Language α) :
    Starts (second.behind kind) [kind] := by
  rintro found row value ⟨back, eq, -⟩
  cases eq
  exact List.mem_singleton_self _

theorem optional (kind : Token.Kind) (rest : List Token.Kind) (item : Language α) :
    Starts (Optional (kind :: rest) item) [kind] := by
  rintro found row value member
  cases member
  exact List.mem_singleton_self _

theorem ifKind (kind : Token.Kind) {found : Unit → Language α} {absent : Language α}
    {heads : List Token.Kind} (h : Starts absent heads) :
    Starts (Language.ifNext (ofKind kind) found absent) (kind :: heads) := by
  rintro next row value (⟨_, _, _, eq, accepted, -⟩ | member)
  · cases eq
    exact List.mem_cons.mpr (.inl (ofKind_eq_some.mp accepted))
  · exact List.mem_cons_of_mem _ (h _ _ _ member)

theorem andThen {first : Language α} {second : α → Language β}
    {heads heads' : List Token.Kind} (h : Starts first heads)
    (h' : ∀ read, Starts (second read) heads') :
    Starts (first.andThen second) (heads ++ heads') := by
  rintro kind row value ⟨read, front, back, split, left, right⟩
  cases front with
  | nil =>
      rw [List.nil_append] at split
      exact List.mem_append_right _ (h' read _ _ _ (split ▸ right))
  | cons head front =>
      rw [List.cons_append] at split
      cases split
      exact List.mem_append_left _ (h _ _ _ left)

theorem map {language : Language α} {heads : List Token.Kind} (f : α → β)
    (h : Starts language heads) :
    Starts (fun row value => ∃ read, language row read ∧ value = f read) heads := by
  rintro kind row value ⟨read, member, -⟩
  exact h _ _ _ member

end Starts

namespace Follows

theorem of_starts {language : Language α} {first : List Token.Kind}
    (starts : Starts language first) (apart : ∀ kind ∈ first, kind ∉ extending)
    (sub : extending ⊆ extending') : Follows extending extending' language := by
  intro row value last member closed
  cases row with
  | nil => exact fun extended => closed (sub extended)
  | cons kind row => exact apart kind (starts _ _ _ member)

theorem behind {kind : Token.Kind} (apart : kind ∉ extending) (second : Language α) :
    Follows extending extending' (second.behind kind) := by
  rintro row value last ⟨back, rfl, -⟩ _
  exact apart

theorem behind_andThen {kind : Token.Kind} (apart : kind ∉ extending)
    (first : Language α) (second : α → Language β) :
    Follows extending extending' ((first.behind kind).andThen second) := by
  rintro row value last ⟨_, _, back, rfl, ⟨front, rfl, -⟩, -⟩ _
  exact apart

end Follows

theorem nameOf_eq_some {kind : Token.Kind} {name : String} :
    nameOf kind = some name ↔ kind = .identifier name := by
  cases kind <;> simp [nameOf]

namespace Recognizes

theorem followedBy {rule : Rule α} {next : α → Rule β} {language : Language α}
    {second : α → Language β} (h : Recognizes bound rule language extending)
    (hnext : ∀ read, Recognizes bound (next read) (second read) extending')
    (follows : ∀ read, Follows extending extending' (second read)) :
    Recognizes bound (rule >>= next) (language.andThen second) extending' :=
  h.bind hnext (fun _ _ _ => Nat.le_add_right _ _) follows

theorem tokenThen {first : Rule α} {accept : Token.Kind → Option α}
    {next : α → Rule β} {second : α → Language β}
    (hfirst : Recognizes bound first (Language.single accept) [])
    (h : ∀ read, Recognizes bound' (next read) (second read) extending)
    (shorter : bound ≤ bound' + 1) :
    Recognizes bound (first >>= next) ((Language.single accept).andThen second)
      extending := by
  refine hfirst.bind h ?_ fun read => Follows.nil _ _
  rintro _ read ⟨kind, rfl, -⟩
  exact shorter

theorem single_ofKind (kind : Token.Kind) (second : Language β) (row : List Token.Kind)
    (value : β) :
    (Language.single (ofKind kind)).andThen (fun _ => second) row value ↔
      second.behind kind row value := by
  constructor
  · rintro ⟨_, _, back, rfl, ⟨found, rfl, accepted⟩, member⟩
    obtain rfl := ofKind_eq_some.mp accepted
    exact ⟨back, rfl, member⟩
  · rintro ⟨back, rfl, member⟩
    exact ⟨(), [kind], back, rfl, ⟨kind, rfl, ofKind_eq_some.mpr rfl⟩, member⟩

variable {next : Rule α} {second : Language α}

theorem keywordThen (word : Keyword)
    (h : Recognizes bound' next second extending) (shorter : bound ≤ bound' + 1) :
    Recognizes bound (Rule.keyword word >>= fun _ => next)
      (second.behind (.keyword word)) extending :=
  of_iff (single_ofKind (.keyword word) second)
    ((keyword word).tokenThen (fun _ => h) shorter)

theorem symbolThen {kind : Token.Kind} (inner : kind ≠ .eof)
    (h : Recognizes bound' next second extending) (shorter : bound ≤ bound' + 1) :
    Recognizes bound (Rule.symbol kind >>= fun _ => next) (second.behind kind)
      extending :=
  of_iff (single_ofKind kind second) ((symbol inner).tokenThen (fun _ => h) shorter)

theorem identifier : Recognizes bound Grammar.identifier (Language.single nameOf) [] := by
  refine read rfl ⟨.identifier "", "", rfl⟩ ?_
  rintro _ ⟨name, rfl⟩
  rfl

theorem nameThen {next : String → Rule α} {second : String → Language α}
    (h : ∀ name, Recognizes bound' (next name) (second name) extending)
    (shorter : bound ≤ bound' + 1) :
    Recognizes bound (Grammar.identifier >>= next) (Language.named second)
      extending := by
  refine of_iff ?_ (identifier.tokenThen h shorter)
  intro row value
  constructor
  · rintro ⟨name, _, back, rfl, ⟨kind, rfl, accepted⟩, member⟩
    obtain rfl := nameOf_eq_some.mp accepted
    exact ⟨name, back, rfl, member⟩
  · rintro ⟨name, back, rfl, member⟩
    exact ⟨name, [.identifier name], back, rfl, ⟨_, rfl, rfl⟩, member⟩

theorem name : Recognizes bound Grammar.identifier Name [] := by
  refine of_iff ?_ identifier
  intro row value
  constructor
  · rintro ⟨kind, rfl, accepted⟩
    obtain rfl := nameOf_eq_some.mp accepted
    exact .name value
  · rintro ⟨name⟩
    exact ⟨_, rfl, rfl⟩

end Recognizes

end CompactSql.Grammar
