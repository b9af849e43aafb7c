import CompactSql.Proofs.Grammar.Derivation
import CompactSql.Proofs.Grammar.Recognition

/-!
# Repetition and options

What repeated items, lists with commas and items behind a keyword recognize.
An item may repeat when nothing that extends it can also lead in the next one.
-/

namespace CompactSql.Grammar.Recognizes

open Rule Grammar.Derivation

variable {α β : Type} {bound bound' : Nat} {rule item : Rule α}
  {language : Language α} {extending extending' : List Token.Kind}

theorem zero (productive : ∃ row value, language row value)
    (noEnd : ∀ row value, language row value → .eof ∉ row) :
    Recognizes 0 rule language extending where
  productive := productive
  noEnd := noEnd _ _
  sound := fun short => absurd short (Nat.not_lt_zero _)
  complete := fun _ _ _ _ short => absurd short (Nat.not_lt_zero _)
  blames := fun short => absurd short (Nat.not_lt_zero _)
  stable := fun short => absurd short (Nat.not_lt_zero _)

theorem below (h : Recognizes bound rule language extending) (le : bound' ≤ bound) :
    Recognizes bound' rule language extending where
  productive := h.productive
  noEnd := h.noEnd
  sound := fun short => h.sound (Nat.lt_of_lt_of_le short le)
  complete := fun index front back _ short =>
    h.complete index front back (Nat.lt_of_lt_of_le short le)
  blames := fun short => h.blames (Nat.lt_of_lt_of_le short le)
  stable := fun short short' =>
    h.stable (Nat.lt_of_lt_of_le short le) (Nat.lt_of_lt_of_le short' le)

private theorem of_agree {rule' : Rule α}
    (agree : ∀ index tokens, tokens.length < bound →
      rule ⟨index, tokens⟩ = rule' ⟨index, tokens⟩)
    (h : Recognizes bound rule' language extending) :
    Recognizes bound rule language extending where
  productive := h.productive
  noEnd := h.noEnd
  sound := fun short run => h.sound short (agree _ _ short ▸ run)
  complete := fun index front back _ short member closed => by
    rw [agree _ _ short]
    exact h.complete index front back short member closed
  blames := fun short ended failed => h.blames short ended (agree _ _ short ▸ failed)
  stable := fun short short' ended within => by
    rw [agree _ _ short] at within ⊢
    rw [agree _ _ short']
    exact h.stable short short' ended within

private theorem repeated_eq {lead : Token.Kind → Option β} {items : β → Rule α}
    {languages : β → Language α} (noEnd : lead .eof = none)
    (hitems : ∀ led, Recognizes bound (items led) (languages led) extending)
    (index : Nat) (tokens : List Token) (short : tokens.length < bound + 1) :
    repeated lead items ⟨index, tokens⟩ =
      (do match ← readIf lead with
          | none => return []
          | some led =>
              let value ← items led
              (value :: ·) <$> repeated lead items : Rule (List α))
        ⟨index, tokens⟩ := by
  refine repeated_eq_bind index noEnd ?_
  rintro token rest led trail value after rfl inner run
  rw [List.length_cons] at short
  obtain ⟨front, back, rfl, rfl, -⟩ := (hitems led).sound (by omega) run
  simp

private theorem repeated_iff {lead : Token.Kind → Option β} {languages : β → Language α}
    (row : List Token.Kind) (values : List α) :
    Language.ifNext lead
        (fun led => (languages led).andThen fun value row values =>
          ∃ others, Language.Repeated lead languages row others ∧
            values = value :: others)
        (Language.nothing []) row values ↔
      Language.Repeated lead languages row values := by
  constructor
  · rintro (⟨kind, led, _, rfl, accepted, value, front, back, rfl, member, others,
      rest, rfl⟩ | ⟨rfl, rfl⟩)
    · exact .cons accepted member rest
    · exact .nil
  · rintro (_ | ⟨accepted, member, rest⟩)
    · exact .inr ⟨rfl, rfl⟩
    · exact .inl ⟨_, _, _, rfl, accepted, _, _, _, rfl, member, _, rest, rfl⟩

theorem repeated {lead : Token.Kind → Option β} {items : β → Rule α}
    {languages : β → Language α} (noEnd : lead .eof = none)
    (hitems : ∀ led, Recognizes bound (items led) (languages led) extending)
    (sub : extending ⊆ extending')
    (apart : ∀ kind ∈ extending, lead kind = none)
    (leads : ∀ kind, kind ∉ extending' → lead kind = none) :
    Recognizes bound (Rule.repeated lead items) (Language.Repeated lead languages)
      extending' := by
  have inner : ∀ row values, Language.Repeated lead languages row values →
      .eof ∉ row := by
    intro row values member
    induction member with
    | nil => exact List.not_mem_nil
    | cons accepted member _ ih =>
        rw [List.mem_cons, List.mem_append, not_or, not_or]
        exact ⟨(Rule.inner_of_accepted noEnd accepted).symm, (hitems _).noEnd member, ih⟩
  suffices ∀ size, size ≤ bound → Recognizes size (Rule.repeated lead items)
      (Language.Repeated lead languages) extending' from this bound (Nat.le_refl _)
  intro size le
  -- each turn takes a token, so the items behind the first are below the bound
  induction size with
  | zero => exact zero ⟨[], [], .nil⟩ inner
  | succ size ih =>
      have smaller := ih (Nat.le_of_succ_le le)
      refine of_agree (repeated_eq noEnd fun led =>
        (hitems led).below (Nat.le_of_succ_le le)) (of_iff repeated_iff ?_)
      refine ifNext noEnd (fun led => ?_) ((pure []).weaken (List.nil_subset _))
        (Nat.le_refl _) ?_
      · refine ((hitems led).below (Nat.le_of_succ_le le)).bind
          (fun value => smaller.map (value :: ·)) (fun _ _ _ => Nat.le_add_right _ _) ?_
        rintro value row _ last ⟨others, member, rfl⟩ closed
        cases member with
        | nil => exact fun extended => closed (sub extended)
        | cons accepted _ _ =>
            intro extended
            have refused := apart _ extended
            simp [accepted] at refused
      · rintro row _ last ⟨rfl, rfl⟩ closed
        exact leads last closed

private theorem listed_iff (row : List Token.Kind) (values : List α) :
    language.andThen
        (fun first row values => ∃ others,
          Language.Repeated (ofKind .comma) (fun _ => language) row others ∧
            values = first :: others) row values ↔
      Listed language row values := by
  constructor
  · rintro ⟨first, front, back, rfl, member, others, rest, rfl⟩
    induction rest generalizing front first with
    | nil => simpa using Listed.one member
    | cons accepted next _ ih =>
        obtain rfl : _ = Token.Kind.comma := by
          simpa [ofKind, Option.ite_none_right_eq_some] using accepted
        exact .more member (ih _ _ next)
  · intro listed
    induction listed with
    | one member => exact ⟨_, _, [], by simp, member, [], .nil, rfl⟩
    | more member _ ih =>
        obtain ⟨first, front, back, rfl, next, others, rest, rfl⟩ := ih
        exact ⟨_, _, _, rfl, member, _, .cons rfl next rest, rfl⟩

theorem commaList (h : Recognizes bound item language extending)
    (apart : .comma ∉ extending) :
    Recognizes bound (Rule.commaList item) (Listed language)
      (.comma :: extending) := by
  have others : Recognizes bound (Rule.repeated (ofKind .comma) fun _ => item)
      (Language.Repeated (ofKind .comma) fun _ => language) (.comma :: extending) := by
    refine repeated rfl (fun _ => h) (List.subset_cons_self _ _) ?_ ?_
    · intro kind extended
      refine ofKind_eq_none.mpr ?_
      rintro rfl
      exact apart extended
    · exact ofKind_of_not_mem List.mem_cons_self
  refine of_iff listed_iff (h.bind (fun first => others.map (first :: ·))
    (fun _ _ _ => Nat.le_add_right _ _) ?_)
  rintro first row _ last ⟨rest, member, rfl⟩ closed
  cases member with
  | nil => exact fun extended => closed (List.mem_cons_of_mem _ extended)
  | cons accepted _ _ =>
      obtain rfl : _ = Token.Kind.comma := by
        simpa [ofKind, Option.ite_none_right_eq_some] using accepted
      exact apart

theorem ledBy (word : Keyword) (h : Recognizes bound item language extending) :
    Recognizes bound (Rule.ledBy word item) (Optional [.keyword word] language)
      (.keyword word :: extending) := by
  have found (_ : Unit) : Recognizes bound (some <$> item)
      (fun row value => ∃ read, language row read ∧ value = some read)
      (.keyword word :: extending) :=
    (h.map some).weaken (List.subset_cons_self _ _)
  refine of_iff ?_ (ifNext rfl found
    ((Recognizes.pure none).weaken (List.nil_subset _)) (Nat.le_succ _) ?_)
  · intro row value
    constructor
    · rintro (⟨kind, _, back, rfl, accepted, read, member, rfl⟩ | ⟨rfl, rfl⟩)
      · obtain rfl := ofKind_eq_some.mp accepted
        exact .present member
      · exact .absent
    · rintro (_ | member)
      · exact .inr ⟨rfl, rfl⟩
      · exact .inl ⟨_, (), _, rfl, ofKind_eq_some.mpr rfl, _, member, rfl⟩
  · rintro row _ last ⟨rfl, rfl⟩ closed
    exact ofKind_of_not_mem List.mem_cons_self last closed

end CompactSql.Grammar.Recognizes
